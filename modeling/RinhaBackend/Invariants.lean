import RinhaBackend.Service

/-!
# Invariants of every run

Facts that hold however the threads interleave, whatever the processors answer
and however full the queues are: the labels name processors, the attempts of a
call match where it stands, the buckets are the sums of the stored payments, and
every payment that is queued or in flight is one that was accepted, byte for byte.
-/

namespace RinhaBackend

open Foundation

variable {α : Type} [Double α]

def Pc.payment : Pc α → Option Payment
  | .fetched payment => some payment
  | .timed payment _ => some payment
  | .paced payment _ => some payment
  | .launching payment => some payment
  | .spawning payment => some payment
  | .processing payment _ _ => some payment
  | _ => none

def Pc.Holds (accepted : Payment → Prop) (pc : Pc α) : Prop :=
  ∀ payment, pc.payment = some payment → accepted payment

/-- Every draft of a call in progress is good for its payment. -/
def Pc.Drafted (good : Payment → Draft → Prop) : Pc α → Prop
  | .processing payment call _ => ∀ draft, call.draft = some draft → good payment draft
  | _ => True

omit [Double α] in
theorem Pc.Drafted.mono {good good' : Payment → Draft → Prop} {pc : Pc α}
    (h : pc.Drafted good) (himp : ∀ payment draft, good payment draft → good' payment draft) :
    pc.Drafted good' := by
  cases pc with
  | processing payment call sent => exact fun draft hdraft => himp _ _ (h draft hdraft)
  | _ => trivial

/-- Neither a POST nor a call. -/
def Pc.isControl : Pc α → Bool
  | .posting _ _ _ | .processing _ _ _ => false
  | _ => true

/-- The stored payments that went to one bucket. -/
def entriesAt (config : Config α) (processedStart : UInt64)
    (stored : List (StoreEntry α)) (processor : ProcessorResult)
    (slot : Fin processedCapacity) : List (StoreEntry α) :=
  stored.filter fun entry => Ledger.side config entry.processor = processor ∧
    (entry.draft.ts - processedStart).toNat = slot.val

omit [Double α] in
theorem entriesAt_append_singleton (config : Config α) (processedStart : UInt64)
    (stored : List (StoreEntry α)) (entry : StoreEntry α) (processor : ProcessorResult)
    (slot : Fin processedCapacity) :
    entriesAt config processedStart (stored ++ [entry]) processor slot =
      if Ledger.side config entry.processor = processor ∧
          (entry.draft.ts - processedStart).toNat = slot.val then
        entriesAt config processedStart stored processor slot ++ [entry]
      else entriesAt config processedStart stored processor slot := by
  unfold entriesAt
  split_ifs with h <;> simp [h]

namespace Service

def Accepted (state : Service α) (payment : Payment) : Prop :=
  ∃ body, (payment, body) ∈ state.history.accepted

def PcValid : Pc α → Prop
  | .posting body raw _ => RawPayment.ofBody body = some raw
  | .processing _ call sent => call.Trace sent
  | _ => True

structure Regular (config : Config α) (processedStart : UInt64) (state : Service α) :
    Prop where
  aligned : state.failover.Aligned config
  pcs : ∀ thread ∈ state.threads, PcValid thread.pc
  returned : ∀ record ∈ state.history.returned,
    ∃ draft : Draft, (CallPc.returned draft record.result).Trace record.sent
  start_eq : state.ledger.processedStart = processedStart
  buckets : ∀ processor : ProcessorResult, processor.IsProcessor → ∀ slot,
    state.ledger.bucket processor slot =
      .ofAmounts ((entriesAt config processedStart state.history.stored processor
        slot).map StoreEntry.amount)
  serials : state.history.accepted.map (fun entry => entry.1.serial) =
    List.range' 1 state.history.accepted.length
  bodies : ∀ entry ∈ state.history.accepted,
    RawPayment.ofBody entry.2 = some entry.1.raw
  held : ∀ thread ∈ state.threads, thread.pc.Holds state.Accepted
  slots : ∀ q ∈ state.queues, q.Written state.Accepted

theorem initial_regular (config : Config α) (processedStart : UInt64) :
    (initial config processedStart).Regular config processedStart where
  aligned := Failover.initial_aligned config
  pcs := by simp [initial, PcValid]
  returned := by simp [initial]
  start_eq := rfl
  buckets := by
    intro processor hprocessor slot
    rcases hprocessor with rfl | rfl <;> rfl
  serials := rfl
  bodies := by simp [initial]
  held := by simp [initial, Pc.Holds, Pc.payment]
  slots := by
    intro q hq pos hpos
    rw [(List.mem_replicate.mp hq).2] at hpos
    exact absurd hpos (Nat.not_lt_zero pos)

/-! ## One step -/

variable {config : Config α} {processedStart : UInt64} {state next : Service α}
variable {action : Action α}

theorem Move.aligned (hmove : Move config state action next)
    (h : state.failover.Aligned config) : next.failover.Aligned config := by
  cases hmove with
  | call _ _ hcall =>
      rcases callStep_failover hcall with
        ⟨processor, reply, -, hfailover⟩ | ⟨-, hfailover | hfailover⟩
      · exact hfailover ▸ h.handleResponse processor reply.elapsed reply.code
      · exact hfailover ▸ h
      · exact hfailover ▸ h
  | _ => exact h

section Threads

omit [Double α]

theorem pc_of_thread {good : Pc α → Prop} {threads : List (Thread α)} {tid : Nat}
    {thread : Thread α} {pc : Pc α} (h : ∀ thread ∈ threads, good thread.pc)
    (hthread : threads[tid]? = some thread) (hpc : thread.pc = pc) : good pc :=
  hpc ▸ h thread (List.mem_of_getElem? hthread)

theorem Control.target {pc pc' : Pc α} (h : Control pc pc') :
    pc'.isControl = true ∨ ∃ payment, pc' = .processing payment .entered [] := by
  cases h with
  | direct payment => exact Or.inr ⟨payment, rfl⟩
  | _ => exact Or.inl rfl

theorem afterProcess_isControl (thread : Thread α) :
    (afterProcess thread).isControl = true := by
  unfold afterProcess
  split_ifs <;> rfl

end Threads

/--
A predicate of program points that holds wherever threads start and wait, and after
every step of a call, holds of every thread after a move.
-/
theorem Move.allPcs {good : Pc α → Prop} (hmove : Move config state action next)
    (hposting : ∀ body raw queueIdx, action = .post body →
      RawPayment.ofBody body = some raw → good (.posting body raw queueIdx))
    (hcontrol : ∀ pc : Pc α, pc.isControl = true → good pc)
    (hentered : ∀ payment, good (.processing payment .entered []))
    (hcalled : ∀ tid thread event payment call sent outcome, action = .run tid event →
      state.threads[tid]? = some thread → thread.pc = .processing payment call sent →
      callStep config thread.isFallbackPool payment.raw.json thread.cache state.failover
        call event = some outcome →
      good (.processing payment outcome.pc (sent ++ outcome.sent)))
    (h : ∀ thread ∈ state.threads, good thread.pc) :
    ∀ thread ∈ next.threads, good thread.pc := by
  cases hmove with
  | post hraw => exact all_append_singleton (hposting _ _ _ rfl hraw) h
  | accept hthread hpc hq => exact all_set (hcontrol .exited rfl) h
  | fetch hthread hpc hq hfetch hnext =>
      apply all_set _ h
      rcases hnext with ⟨-, rfl⟩ | rfl
      · exact hcontrol _ rfl
      · exact hentered _
  | control hthread hstep =>
      apply all_set _ h
      rcases hstep.target with hpc | ⟨payment, rfl⟩
      · exact hcontrol _ hpc
      · exact hentered payment
  | spawn hthread hpc =>
      exact all_append_singleton (hentered _) (all_set (hcontrol .polling rfl) h)
  | call hthread hpc hcall => exact all_set (hcalled _ _ _ _ _ _ _ rfl hthread hpc hcall) h
  | requeue | discard | store => exact all_set (hcontrol _ (afterProcess_isControl _)) h
  | idle => exact h
  | abort => simp

theorem Move.pcs (hmove : Move config state action next)
    (haligned : state.failover.Aligned config)
    (h : ∀ thread ∈ state.threads, PcValid thread.pc) :
    ∀ thread ∈ next.threads, PcValid thread.pc := by
  refine hmove.allPcs (fun _ _ _ _ hraw => hraw) ?_ (fun _ => rfl) ?_ h
  · intro pc hpc
    cases pc with
    | posting | processing => cases hpc
    | _ => trivial
  · intro tid thread event payment call sent outcome _ hthread hpc hcall
    exact callStep_trace haligned (pc_of_thread h hthread hpc) hcall

omit [Double α] in
theorem trace_of_thread {tid : Nat} {thread : Thread α} {payment : Payment}
    {call : CallPc α} {sent : List (Attempt α)}
    (h : ∀ thread ∈ state.threads, PcValid thread.pc)
    (hthread : state.threads[tid]? = some thread)
    (hpc : thread.pc = .processing payment call sent) : call.Trace sent :=
  pc_of_thread h hthread hpc

theorem Move.returned (hmove : Move config state action next)
    (hpcs : ∀ thread ∈ state.threads, PcValid thread.pc)
    (h : ∀ record ∈ state.history.returned,
      ∃ draft : Draft, (CallPc.returned draft record.result).Trace record.sent) :
    ∀ record ∈ next.history.returned,
      ∃ draft : Draft, (CallPc.returned draft record.result).Trace record.sent := by
  cases hmove with
  | requeue hthread hpc hq =>
      exact all_append_singleton ⟨_, trace_of_thread hpcs hthread hpc⟩ h
  | discard hthread hpc =>
      exact all_append_singleton ⟨_, trace_of_thread hpcs hthread hpc⟩ h
  | store hthread hpc hprocessor hamount =>
      exact all_append_singleton ⟨_, trace_of_thread hpcs hthread hpc⟩ h
  | _ => exact h

theorem Move.start_eq (hmove : Move config state action next) :
    next.ledger.processedStart = state.ledger.processedStart := by
  cases hmove with
  | store => exact Ledger.addAt_processedStart _ _ _ _
  | _ => rfl

theorem Move.buckets (hmove : Move config state action next)
    (hstart : state.ledger.processedStart = processedStart)
    (h : ∀ processor : ProcessorResult, processor.IsProcessor → ∀ slot,
      state.ledger.bucket processor slot =
        .ofAmounts ((entriesAt config processedStart state.history.stored processor
          slot).map StoreEntry.amount)) :
    ∀ processor : ProcessorResult, processor.IsProcessor → ∀ slot,
      next.ledger.bucket processor slot =
        .ofAmounts ((entriesAt config processedStart next.history.stored processor
          slot).map StoreEntry.amount) := by
  cases hmove with
  | @store _ _ _ draft _ processor' amount hthread hpc hprocessor' hamount hindex =>
      intro processor hprocessor slot
      dsimp only
      rw [Ledger.bucket_addAt (Ledger.side_eq config processor') hprocessor,
        h processor hprocessor slot, entriesAt_append_singleton]
      simp only [Fin.ext_iff, Ledger.storeIndex, hstart]
      split_ifs
      · rw [List.map_append, List.map_singleton, Summary.ofAmounts_append_singleton]
      · rfl
  | _ => exact h

theorem Move.serials (hmove : Move config state action next)
    (h : state.history.accepted.map (fun entry => entry.1.serial) =
      List.range' 1 state.history.accepted.length) :
    next.history.accepted.map (fun entry => entry.1.serial) =
      List.range' 1 next.history.accepted.length := by
  cases hmove with
  | accept hthread hpc hq =>
      simp [h, List.range'_concat, Nat.add_comm]
  | _ => exact h

theorem Move.bodies (hmove : Move config state action next)
    (hpcs : ∀ thread ∈ state.threads, PcValid thread.pc)
    (h : ∀ entry ∈ state.history.accepted, RawPayment.ofBody entry.2 = some entry.1.raw) :
    ∀ entry ∈ next.history.accepted, RawPayment.ofBody entry.2 = some entry.1.raw := by
  cases hmove with
  | accept hthread hpc hq =>
      exact all_append_singleton (pc_of_thread hpcs hthread hpc) h
  | _ => exact h

theorem Move.accepted_mono (hmove : Move config state action next) {payment : Payment}
    (h : state.Accepted payment) : next.Accepted payment := by
  obtain ⟨body, hbody⟩ := h
  cases hmove with
  | accept => exact ⟨body, List.mem_append_left _ hbody⟩
  | _ => exact ⟨body, hbody⟩

omit [Double α] in
theorem Control.payment {pc pc' : Pc α} (h : Control pc pc') : pc'.payment = pc.payment := by
  cases h <;> rfl

omit [Double α] in
theorem afterProcess_payment (thread : Thread α) : (afterProcess thread).payment = none := by
  unfold afterProcess
  split_ifs <;> rfl

omit [Double α] in
theorem holds_of_none {accepted : Payment → Prop} {pc : Pc α} (h : pc.payment = none) :
    pc.Holds accepted := by
  intro payment hpayment
  simp [h] at hpayment

theorem Move.held (hmove : Move config state action next)
    (hslots : ∀ q ∈ state.queues, q.Written state.Accepted)
    (h : ∀ thread ∈ state.threads, thread.pc.Holds state.Accepted) :
    ∀ thread ∈ next.threads, thread.pc.Holds next.Accepted := by
  have hkeep : ∀ thread ∈ state.threads, thread.pc.Holds next.Accepted :=
    fun thread hthread payment hpayment =>
      hmove.accepted_mono (h thread hthread payment hpayment)
  cases hmove with
  | post hraw => exact all_append_singleton (holds_of_none rfl) hkeep
  | accept hthread hpc hq => exact all_set (holds_of_none rfl) hkeep
  | fetch hthread hpc hq hfetch hnext =>
      have haccepted :=
        WorkerQueue.Written.fetchNext (hslots _ (List.mem_of_getElem? hq)) hfetch
      apply all_set _ hkeep
      rcases hnext with ⟨-, rfl⟩ | rfl
      · rintro payment ⟨⟩
        exact haccepted.1
      · rintro payment ⟨⟩
        exact haccepted.1
  | control hthread hcontrol =>
      apply all_set _ hkeep
      intro payment hpayment
      rw [hcontrol.payment] at hpayment
      exact hkeep _ (List.mem_of_getElem? hthread) payment hpayment
  | spawn hthread hpc =>
      have hheld := pc_of_thread hkeep hthread hpc
      exact all_append_singleton hheld (all_set (holds_of_none rfl) hkeep)
  | call hthread hpc hcall =>
      have hheld := pc_of_thread hkeep hthread hpc
      exact all_set hheld hkeep
  | requeue | discard | store =>
      exact all_set (holds_of_none (afterProcess_payment _)) hkeep
  | idle => exact hkeep
  | abort => simp

theorem Move.slots (hmove : Move config state action next)
    (hheld : ∀ thread ∈ state.threads, thread.pc.Holds state.Accepted)
    (h : ∀ q ∈ state.queues, q.Written state.Accepted) :
    ∀ q ∈ next.queues, q.Written next.Accepted := by
  have hkeep : ∀ q ∈ state.queues, q.Written next.Accepted :=
    fun q hq pos hpos => hmove.accepted_mono (h q hq pos hpos)
  cases hmove with
  | accept hthread hpc hq =>
      refine all_set (WorkerQueue.Written.enqueue ?_ (hkeep _ (List.mem_of_getElem? hq)))
        hkeep
      exact ⟨_, List.mem_append_right _ (List.mem_singleton_self _)⟩
  | fetch hthread hpc hq hfetch hnext =>
      exact all_set (WorkerQueue.Written.fetchNext (hkeep _ (List.mem_of_getElem? hq))
        hfetch).2 hkeep
  | requeue hthread hpc hq =>
      have hpayment := pc_of_thread hheld hthread hpc
      exact all_set (WorkerQueue.Written.enqueue (hpayment _ rfl)
        (hkeep _ (List.mem_of_getElem? hq))) hkeep
  | abort => simp
  | _ => exact hkeep

/-! ## Drafts -/

theorem Move.drafted {good : Payment → Draft → Prop}
    (hmove : Move config state action next)
    (hcreated : ∀ thread ∈ state.threads, ∀ tid payment now draft cache,
      action = .run tid (.clock now) → thread.pc.payment = some payment →
      createProcessorPayload thread.cache now payment.raw.json =
        some (draft.payload, draft.ts, cache) → good payment draft)
    (h : ∀ thread ∈ state.threads, thread.pc.Drafted good) :
    ∀ thread ∈ next.threads, thread.pc.Drafted good := by
  refine hmove.allPcs (fun _ _ _ _ _ => trivial) ?_ ?_ ?_ h
  · intro pc hpc
    cases pc with
    | posting | processing => cases hpc
    | _ => trivial
  · exact fun payment draft hdraft => absurd hdraft (by simp [CallPc.draft])
  · intro tid thread event payment call sent outcome haction hthread hpc hcall draft hdraft
    rcases callStep_draft hcall with
      ⟨now, created, rfl, -, hcreatedDraft, -, hpayload⟩ | ⟨hsame, -⟩
    · cases hdraft.symm.trans hcreatedDraft
      exact hcreated thread (List.mem_of_getElem? hthread) tid payment now draft
        outcome.cache haction (by rw [hpc]; rfl) hpayload
    · exact pc_of_thread h hthread hpc draft (hsame ▸ hdraft)

theorem Move.stored {good : Payment → Draft → Prop}
    (hmove : Move config state action next)
    (hdrafts : ∀ thread ∈ state.threads, thread.pc.Drafted good)
    (h : ∀ entry ∈ state.history.stored, good entry.payment entry.draft) :
    ∀ entry ∈ next.history.stored, good entry.payment entry.draft := by
  cases hmove with
  | store hthread hpc hprocessor hamount =>
      exact all_append_singleton (pc_of_thread hdrafts hthread hpc _ rfl) h
  | _ => exact h

/-- What holds of a fresh cache and survives a refresh holds of every thread's cache. -/
theorem Move.caches {good : TimestampCache → Prop} (hmove : Move config state action next)
    (hinitial : good .initial) (hrefresh : ∀ cache now, good cache → good (cache.refresh now))
    (h : ∀ thread ∈ state.threads, good thread.cache) :
    ∀ thread ∈ next.threads, good thread.cache := by
  have hset : ∀ {tid : Nat} {thread : Thread α} {pc : Pc α},
      state.threads[tid]? = some thread →
        ∀ other ∈ state.threads.set tid { thread with pc }, good other.cache := by
    intro tid thread pc hthread
    have hcache := h thread (List.mem_of_getElem? hthread)
    exact all_set hcache h
  cases hmove with
  | post => exact all_append_singleton hinitial h
  | spawn hthread => exact all_append_singleton hinitial (hset hthread)
  | call hthread hpc hcall =>
      have hcache := h _ (List.mem_of_getElem? hthread)
      refine all_set ?_ h
      rcases callStep_draft hcall with ⟨now, draft, -, -, -, -, hpayload⟩ | ⟨-, hsame, -⟩
      · exact (createProcessorPayload_eq_some hpayload).2.1 ▸ hrefresh _ now hcache
      · exact hsame ▸ hcache
  | idle => exact h
  | abort => simp
  | accept hthread | fetch hthread | control hthread | requeue hthread | discard hthread
  | store hthread => exact hset hthread

/-! ## Whole runs -/

theorem step_regular (h : state.Regular config processedStart)
    (hstep : step config state action = some next) :
    next.Regular config processedStart := by
  have hmove := step_move hstep
  exact
    { aligned := hmove.aligned h.aligned
      pcs := hmove.pcs h.aligned h.pcs
      returned := hmove.returned h.pcs h.returned
      start_eq := hmove.start_eq.trans h.start_eq
      buckets := hmove.buckets h.start_eq h.buckets
      serials := hmove.serials h.serials
      bodies := hmove.bodies h.pcs h.bodies
      held := hmove.held h.slots h.held
      slots := hmove.slots h.held h.slots }

theorem execute_regular {actions : List (Action α)}
    (hrun : execute (step config) (initial config processedStart) actions = some state) :
    state.Regular config processedStart :=
  execute_invariant (fun _ _ _ h _ hstep => step_regular h hstep)
    (initial_regular config processedStart) (along_true _ actions) hrun

end Service

end RinhaBackend
