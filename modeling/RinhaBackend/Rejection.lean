import RinhaBackend.Conservation
import RinhaBackend.Switching

/-!
# Payments that a processor rejected

A reply of 422 means that the processor will never take the payment.  After the
first attempt `process_payment` discards such a payment.  After the second it
tests the first reply's code again instead of the second's, so a rejection by the
second processor is retried.
-/

namespace RinhaBackend

open Foundation

variable {α : Type} [Double α]

/-- Some attempt of a call was answered 422 and none was answered ok. -/
def Rejected (sent : List (Attempt α)) : Prop :=
  (∃ attempt ∈ sent, attempt.reply.code = 422) ∧
    ∀ attempt ∈ sent, attempt.reply.ok = false

instance (sent : List (Attempt α)) : Decidable (Rejected sent) :=
  inferInstanceAs (Decidable (_ ∧ _))

/-- The second attempt of a call, if it was made, was not rejected. -/
def SecondaryClean : List (Attempt α) → Prop
  | _ :: second :: _ => ¬ (second.reply.ok = false ∧ second.reply.code = 422)
  | _ => True

omit [Double α] in
theorem discard_of_rejected {draft : Draft} {result : ProcessorResult}
    {sent : List (Attempt α)} (htrace : (CallPc.returned draft result).Trace sent)
    (hclean : SecondaryClean sent) (hrejected : Rejected sent) : result = .discard := by
  obtain ⟨⟨attempt, hattempt, hcode⟩, hfailed⟩ := hrejected
  cases result with
  | discard => rfl
  | tryAgain =>
      obtain ⟨-, first, rest, rfl, hlength, hfirst⟩ := htrace
      rcases List.mem_cons.mp hattempt with rfl | hrest
      · exact absurd hcode hfirst
      · cases rest with
        | nil => simp at hrest
        | cons second rest =>
            have hnil : rest = [] := by simpa using hlength
            rw [hnil, List.mem_singleton] at hrest
            exact absurd ⟨hfailed second (by simp), hrest ▸ hcode⟩ hclean
  | default | fallback =>
      obtain ⟨before, reply, rfl, hok, -⟩ := htrace
      have hlast := hfailed _ (List.mem_append_right before (List.mem_singleton_self _))
      simp [hok] at hlast

namespace Service

variable {config : Config α} {processedStart : UInt64} {state next : Service α}
variable {action : Action α}

def Pc.atSecondary : Pc α → Bool
  | .processing _ (.retrying _ _ _) _ => true
  | _ => false

def SecondaryAccepted (state : Service α) : Action α → Prop
  | .run tid (.reply reply) =>
      ∀ thread ∈ state.threads[tid]?, Pc.atSecondary thread.pc = true →
        ¬ (reply.ok = false ∧ reply.code = 422)
  | _ => True

instance (state : Service α) (action : Action α) :
    Decidable (state.SecondaryAccepted action) :=
  match action with
  | .run tid (.reply _) => inferInstanceAs (Decidable (∀ thread ∈ state.threads[tid]?, _))
  | .post _ | .run _ .tau | .run _ (.wall _) | .run _ (.clock _) => .isTrue trivial

def Pc.Clean : Pc α → Prop
  | .processing _ _ sent => SecondaryClean sent
  | _ => True

structure Clean (state : Service α) : Prop where
  pcs : ∀ thread ∈ state.threads, Pc.Clean thread.pc
  returned : ∀ record ∈ state.history.returned, SecondaryClean record.sent

theorem callStep_clean {isFallbackPool : Bool} {json : Bytes} {cache : TimestampCache}
    {failover : Failover α} {pc : CallPc α} {event : Event α} {outcome : CallOutcome α}
    {sent : List (Attempt α)}
    (h : callStep config isFallbackPool json cache failover pc event = some outcome)
    (htrace : pc.Trace sent) (hclean : SecondaryClean sent)
    (hreply : ∀ draft secondary code reply, pc = .retrying draft secondary code →
      event = .reply reply → ¬ (reply.ok = false ∧ reply.code = 422)) :
    SecondaryClean (sent ++ outcome.sent) := by
  cases callStep_move h with
  | send draft primary secondary reply =>
      rw [htrace.1]
      trivial
  | sendSecondary draft secondary code reply =>
      obtain ⟨⟨first, rfl, -⟩, -⟩ := htrace
      exact hreply draft secondary code reply rfl rfl
  | build | label | pair | probe | handle | handleSecondary => simpa using hclean

theorem Move.clean (hmove : Move config state action next)
    (hpcs : ∀ thread ∈ state.threads, PcValid thread.pc)
    (haccepted : state.SecondaryAccepted action) (h : state.Clean) : next.Clean := by
  constructor
  · refine hmove.allPcs (fun _ _ _ _ _ => trivial) ?_ (fun _ => trivial) ?_ h.pcs
    · intro pc hpc
      cases pc with
      | posting | processing => cases hpc
      | _ => trivial
    · intro tid thread event payment call sent outcome haction hthread hpc hcall
      subst haction
      apply callStep_clean hcall (trace_of_thread hpcs hthread hpc)
        (pc_of_thread h.pcs hthread hpc)
      rintro draft secondary code reply rfl rfl
      exact haccepted thread hthread (by rw [hpc]; rfl)
  · cases hmove with
    | requeue hthread hpc hq =>
        exact all_append_singleton (pc_of_thread h.pcs hthread hpc) h.returned
    | discard hthread hpc =>
        exact all_append_singleton (pc_of_thread h.pcs hthread hpc) h.returned
    | store hthread hpc hprocessor hamount =>
        exact all_append_singleton (pc_of_thread h.pcs hthread hpc) h.returned
    | _ => exact h.returned

/-! ## Discarded payments stay where they are -/

omit [Double α] in
theorem mem_hands {threads : List (Thread α)} {thread : Thread α} {payment : Payment}
    (hthread : thread ∈ threads) (h : thread.pc.payment = some payment) :
    payment ∈ hands threads := by
  induction threads with
  | nil => simp at hthread
  | cons head tail ih =>
      simp only [hands, List.map_cons, List.sum_cons, Multiset.mem_add]
      rcases List.mem_cons.mp hthread with rfl | htail
      · exact Or.inl (by simp [h])
      · exact Or.inr (ih htail)

omit [Double α] in
theorem mem_discarded {payment : Payment} :
    payment ∈ state.discarded ↔ ∃ record ∈ state.history.returned,
      record.result = .discard ∧ record.payment = payment := by
  simp [discarded, and_assoc]

theorem not_live_of_discarded (hregular : state.Regular config processedStart)
    (hconserved : state.Conserved) {payment : Payment} (h : payment ∈ state.discarded) :
    payment ∉ state.queued ∧ payment ∉ state.inFlight := by
  have hnodup := Multiset.nodup_of_le hconserved.within hregular.acceptedPayments_nodup
  have hdisjoint := (Multiset.nodup_add.mp hnodup).2.2
  refine ⟨fun hqueued => ?_, fun hflight => ?_⟩
  · exact Multiset.disjoint_left.mp hdisjoint (by simp [hqueued]) h
  · exact Multiset.disjoint_left.mp hdisjoint (by simp [hflight]) h

theorem Move.discarded_mono (hmove : Move config state action next) {payment : Payment}
    (h : payment ∈ state.discarded) : payment ∈ next.discarded := by
  rw [mem_discarded] at h ⊢
  obtain ⟨record, hrecord, hresult⟩ := h
  cases hmove with
  | requeue | discard | store => exact ⟨record, List.mem_append_left _ hrecord, hresult⟩
  | _ => exact ⟨record, hrecord, hresult⟩

def attemptsFor (state : Service α) (serial : Nat) : List (Nat × Attempt α) :=
  state.history.attempts.filter fun attempt => attempt.1 = serial

theorem Move.attemptsFor_discarded (hmove : Move config state action next)
    (hregular : state.Regular config processedStart) (hconserved : state.Conserved)
    {payment : Payment} (h : payment ∈ state.discarded) :
    next.attemptsFor payment.serial = state.attemptsFor payment.serial := by
  cases hmove with
  | @call tid thread event held call sent outcome hthread hpc hcall =>
      have hmem := List.mem_of_getElem? hthread
      have hholds : thread.pc.payment = some held := by rw [hpc]; rfl
      have hlive : held ∈ state.inFlight := mem_hands hmem hholds
      have hne : held.serial ≠ payment.serial := by
        intro hserial
        obtain ⟨body, hbody⟩ := hregular.held thread hmem held hholds
        have haccepted : payment ∈ state.acceptedPayments :=
          Multiset.mem_of_le hconserved.within (by simp [h])
        obtain ⟨⟨payment', body'⟩, hentry, rfl⟩ := List.mem_map.mp haccepted
        cases hregular.serial_inj hbody hentry hserial
        exact (not_live_of_discarded hregular hconserved h).2 hlive
      simp [attemptsFor, hne]
  | _ => rfl

/-! ## Rejected payments -/

def RejectionKept (config : Config α) (state : Service α) (action : Action α) : Prop :=
  (QueuesFit config state action ∧ state.CountersBelow) ∧ state.SecondaryAccepted action

instance (config : Config α) (state : Service α) (action : Action α) :
    Decidable (RejectionKept config state action) :=
  inferInstanceAs (Decidable ((_ ∧ _) ∧ _))

structure Settled (config : Config α) (processedStart : UInt64) (state : Service α) :
    Prop where
  regular : state.Regular config processedStart
  conserved : state.Conserved
  clean : state.Clean

theorem step_settled (h : state.Settled config processedStart)
    (hkept : RejectionKept config state action)
    (hstep : step config state action = some next) :
    next.Settled config processedStart := by
  have hmove := step_move hstep
  exact
    { regular := step_regular h.regular hstep
      conserved := step_conserved h.conserved hkept.1 hstep
      clean := hmove.clean h.regular.pcs hkept.2 h.clean }

theorem execute_settled {actions : List (Action α)} {final : Service α}
    (h : state.Settled config processedStart)
    (hkept : Along (step config) (RejectionKept config) state actions)
    (hrun : execute (step config) state actions = some final) :
    final.Settled config processedStart :=
  execute_invariant (fun _ _ _ h hkept hstep => step_settled h hkept hstep) h hkept hrun

theorem initial_settled (config : Config α) (processedStart : UInt64) :
    (initial config processedStart).Settled config processedStart :=
  ⟨initial_regular config processedStart, initial_conserved config processedStart,
    ⟨by simp [initial, Pc.Clean], by simp [initial]⟩⟩

structure NotResent (config : Config α) (processedStart : UInt64) (payment : Payment)
    (attempts : List (Nat × Attempt α)) (state : Service α) : Prop where
  settled : state.Settled config processedStart
  discarded : payment ∈ state.discarded
  attempts_eq : state.attemptsFor payment.serial = attempts

theorem execute_notResent {actions : List (Action α)} {final : Service α}
    {payment : Payment} (h : state.Settled config processedStart)
    (hdiscarded : payment ∈ state.discarded)
    (hkept : Along (step config) (RejectionKept config) state actions)
    (hrun : execute (step config) state actions = some final) :
    final.NotResent config processedStart payment (state.attemptsFor payment.serial) := by
  have hstart : state.NotResent config processedStart payment
      (state.attemptsFor payment.serial) := ⟨h, hdiscarded, rfl⟩
  refine execute_invariant ?_ hstart hkept hrun
  intro later action next hlater hstepKept hstep
  have hmove := step_move hstep
  refine ⟨step_settled hlater.settled hstepKept hstep,
    hmove.discarded_mono hlater.discarded, ?_⟩
  rw [hmove.attemptsFor_discarded hlater.settled.regular hlater.settled.conserved
    hlater.discarded]
  exact hlater.attempts_eq

/--
In every run in which no second attempt is answered 422 and no queue is overrun,
a call with a 422 and no ok returns `Discard`, its payment is neither queued nor
in flight afterwards, and however the run goes on it is never sent again.
-/
theorem rejected_never_resent {actions : List (Action α)}
    (hrun : execute (step config) (initial config processedStart) actions = some state)
    (hkept : Along (step config) (RejectionKept config) (initial config processedStart)
      actions) :
    (∀ thread ∈ state.threads, ∀ payment draft result sent,
      thread.pc = .processing payment (.returned draft result) sent → Rejected sent →
      result = .discard) ∧
    ∀ record ∈ state.history.returned, Rejected record.sent →
      record.result = .discard ∧ record.payment ∉ state.queued ∧
      record.payment ∉ state.inFlight ∧
      ∀ more later, Along (step config) (RejectionKept config) state more →
        execute (step config) state more = some later →
        later.attemptsFor record.payment.serial =
          state.attemptsFor record.payment.serial := by
  have hsettled := execute_settled (initial_settled config processedStart) hkept hrun
  refine ⟨fun thread hthread payment draft result sent hpc hrejected => ?_,
    fun record hrecord hrejected => ?_⟩
  · have htrace := hsettled.regular.pcs thread hthread
    have hclean := hsettled.clean.pcs thread hthread
    rw [hpc] at htrace hclean
    exact discard_of_rejected htrace hclean hrejected
  · obtain ⟨draft, htrace⟩ := hsettled.regular.returned record hrecord
    have hdiscard := discard_of_rejected htrace (hsettled.clean.returned record hrecord)
      hrejected
    have hmem : record.payment ∈ state.discarded :=
      mem_discarded.mpr ⟨record, hrecord, hdiscard, rfl⟩
    obtain ⟨hqueued, hflight⟩ :=
      not_live_of_discarded hsettled.regular hsettled.conserved hmem
    exact ⟨hdiscard, hqueued, hflight, fun more later hmore hlater =>
      (execute_notResent hsettled hmem hmore hlater).attempts_eq⟩

def rejectedOnce : Option (Service Float) :=
  execute (step (singleWorker Float)) (initial (singleWorker Float) 1751328000)
    (settle 1751328010 (.ofCurl true 422 1))

theorem rejectedOnce_isSome : rejectedOnce.isSome = true := by decide +kernel

theorem rejected_never_resent_once :
    let state := rejectedOnce.get rejectedOnce_isSome
    (∃ record ∈ state.history.returned, Rejected record.sent) ∧
      ∀ record ∈ state.history.returned, Rejected record.sent →
        record.result = .discard ∧ record.payment ∉ state.queued := by
  refine ⟨by decide +kernel, fun record hrecord hrejected => ?_⟩
  have hresult := (rejected_never_resent (Option.some_get rejectedOnce_isSome).symm
    (by decide +kernel)).2 record hrecord hrejected
  exact ⟨hresult.1, hresult.2.1⟩

/-- The first processor fails with 500 and the second rejects the payment. -/
def rejectedSecond : Option (Service Float) :=
  execute (step twoProcessors) (initial twoProcessors 1751328000)
    (postAndFetch Float samplePayment.render ++
      [.run 0 (.wall 0), .run 0 .tau, .run 0 .tau, .run 0 (.clock 1751328010),
        .run 0 .tau, .run 0 .tau, .run 0 (.reply (.ofCurl true 500 1)), .run 0 .tau,
        .run 0 .tau, .run 0 (.reply (.ofCurl true 422 1)), .run 0 .tau, .run 0 .tau])

theorem rejectedSecond_isSome : rejectedSecond.isSome = true := by decide +kernel

theorem rejected_by_second_requeued :
    let state := rejectedSecond.get rejectedSecond_isSome
    ∃ record ∈ state.history.returned, Rejected record.sent ∧
      record.result ≠ .discard ∧ record.payment ∈ state.queued := by
  decide +kernel

end Service

end RinhaBackend
