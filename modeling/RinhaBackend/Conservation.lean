import Mathlib.Algebra.Order.Group.Multiset
import RinhaBackend.Intake

/-!
# No payment is lost or duplicated

Every accepted payment is in exactly one place: a worker queue, a thread, a
bucket, or among the payments discarded after a 422.  The account is kept as an
equality of multisets that every step of every thread preserves, as long as no
queue is overrun, no counter wraps, the clock stays inside the store and `stod`
accepts the amounts: an amount that it rejects ends the process.
-/

namespace RinhaBackend

open Foundation

variable {α : Type} [Double α]

/-- A store about to be made has an amount that `stod` accepts. -/
def Pc.storeConverts : Pc α → Bool
  | .processing _ (.returned draft .default) _
  | .processing _ (.returned draft .fallback) _ =>
      (extractAmount draft.payload : Option α).isSome
  | _ => true

namespace Service

/-! ## The four places -/

/-- The payments between head and tail of the queues. -/
def waiting (queues : List (WorkerQueue Payment)) : Multiset Payment :=
  (queues.map fun q => (q.contents : Multiset Payment)).sum

def hands (threads : List (Thread α)) : Multiset Payment :=
  (threads.map fun thread => (thread.pc.payment.toList : Multiset Payment)).sum

def queued (state : Service α) : Multiset Payment := waiting state.queues

def inFlight (state : Service α) : Multiset Payment := hands state.threads

def stored (state : Service α) : Multiset Payment :=
  state.history.stored.map StoreEntry.payment

/-- The payments whose store reached a bucket. -/
def counted (state : Service α) : Multiset Payment :=
  (state.history.stored.filter fun entry =>
    state.ledger.storeIndex entry.draft.ts < processedCapacity).map StoreEntry.payment

def discarded (state : Service α) : Multiset Payment :=
  (state.history.returned.filter fun record => record.result = .discard).map
    CallRecord.payment

def acceptedPayments (state : Service α) : Multiset Payment :=
  state.history.accepted.map Prod.fst

def ClockWithin (processedStart : UInt64) : Action α → Prop
  | .run _ (.clock now) =>
      processedStart.toNat ≤ now ∧ now < processedStart.toNat + processedCapacity
  | _ => True

instance (processedStart : UInt64) (action : Action α) :
    Decidable (ClockWithin processedStart action) :=
  match action with
  | .run _ (.clock _) => inferInstanceAs (Decidable (_ ∧ _))
  | .post _ | .run _ .tau | .run _ (.wall _) | .run _ (.reply _) => .isTrue trivial

/-- No queue holds more payments than it has slots after the step. -/
def QueuesFit (config : Config α) (state : Service α) (action : Action α) : Prop :=
  ∀ next ∈ step config state action, ∀ q ∈ next.queues, q.outstanding ≤ queueCapacity

def CountersBelow (state : Service α) : Prop :=
  ∀ q ∈ state.queues, q.tail.toNat + 1 < 2 ^ 64

instance (config : Config α) (state : Service α) (action : Action α) :
    Decidable (QueuesFit config state action) :=
  inferInstanceAs (Decidable (∀ next ∈ step config state action, _))

instance (state : Service α) : Decidable state.CountersBelow :=
  inferInstanceAs (Decidable (∀ q ∈ state.queues, _))

def AmountConverts (state : Service α) : Action α → Prop
  | .post _ => True
  | .run tid _ => ∀ thread ∈ state.threads[tid]?, thread.pc.storeConverts = true

instance (state : Service α) (action : Action α) :
    Decidable (state.AmountConverts action) :=
  match action with
  | .post _ => .isTrue trivial
  | .run tid _ => inferInstanceAs (Decidable (∀ thread ∈ state.threads[tid]?, _))

def Balanced (state : Service α) : Prop :=
  state.acceptedPayments = state.queued + state.inFlight + state.stored + state.discarded

/-- The account while the process runs, and what remains of it afterwards. -/
structure Conserved (state : Service α) : Prop where
  queues : ∀ q ∈ state.queues, q.WithinCapacity ∧ q.size = queueCapacity
  within : state.queued + state.inFlight + state.stored + state.discarded ≤
    state.acceptedPayments
  balance : state.terminated = false → state.Balanced

/-! ## Moves between places -/

section Places

omit [Double α]

variable {threads : List (Thread α)} {tid : Nat} {thread new : Thread α}
variable {queues : List (WorkerQueue Payment)} {index : Nat}
variable {q q' : WorkerQueue Payment} {payment : Payment}

private theorem hands_append (threads : List (Thread α)) (new : Thread α) :
    hands (threads ++ [new]) =
      hands threads + (new.pc.payment.toList : Multiset Payment) := by
  simp [hands]

private theorem hands_set_same (hthread : threads[tid]? = some thread)
    (h : new.pc.payment = thread.pc.payment) :
    hands (threads.set tid new) = hands threads := by
  have hsum := sum_map_set (fun thread : Thread α =>
    (thread.pc.payment.toList : Multiset Payment)) hthread new
  rw [h] at hsum
  exact add_right_cancel hsum

private theorem hands_set_take (hthread : threads[tid]? = some thread)
    (hold : thread.pc.payment = none) (hnew : new.pc.payment = some payment) :
    hands (threads.set tid new) = hands threads + {payment} := by
  have hsum := sum_map_set (fun thread : Thread α =>
    (thread.pc.payment.toList : Multiset Payment)) hthread new
  simpa [hold, hnew, hands] using hsum

private theorem hands_set_release (hthread : threads[tid]? = some thread)
    (hold : thread.pc.payment = some payment) (hnew : new.pc.payment = none) :
    hands (threads.set tid new) + {payment} = hands threads := by
  have hsum := sum_map_set (fun thread : Thread α =>
    (thread.pc.payment.toList : Multiset Payment)) hthread new
  simpa [hold, hnew, hands] using hsum

private theorem waiting_set_enqueue (hq : queues[index]? = some q)
    (h : q'.contents = q.contents ++ [payment]) :
    waiting (queues.set index q') = waiting queues + {payment} := by
  have hsum := sum_map_set (fun q : WorkerQueue Payment =>
    (q.contents : Multiset Payment)) hq q'
  rw [h, ← Multiset.coe_add, ← add_assoc, add_right_comm] at hsum
  exact add_right_cancel hsum

private theorem waiting_set_fetch (hq : queues[index]? = some q)
    (h : q.contents = payment :: q'.contents) :
    waiting (queues.set index q') + {payment} = waiting queues := by
  have hsum := sum_map_set (fun q : WorkerQueue Payment =>
    (q.contents : Multiset Payment)) hq q'
  rw [h, ← Multiset.cons_coe, ← Multiset.singleton_add, ← add_assoc] at hsum
  exact add_right_cancel hsum

end Places

/-! ## One step -/

variable {config : Config α} {processedStart : UInt64} {state next : Service α}
variable {action : Action α}

/-- A step ends the process only where `stod` throws. -/
theorem Move.terminated (hmove : Move config state action next) :
    next.terminated = state.terminated ∨
      next = state.terminate ∧ ∃ tid thread, action = .run tid .tau ∧
        state.threads[tid]? = some thread ∧ thread.pc.storeConverts = false := by
  cases hmove with
  | abort hthread hpc hprocessor hamount =>
      refine Or.inr ⟨rfl, _, _, rfl, hthread, ?_⟩
      rw [hpc]
      rcases hprocessor with rfl | rfl <;> simp [Pc.storeConverts, hamount]
  | _ => exact Or.inl rfl

theorem step_terminated (hconverts : state.AmountConverts action)
    (hstep : step config state action = some next) : next.terminated = false := by
  rcases (step_move hstep).terminated with hsame | ⟨-, tid, thread, rfl, hthread, hthrows⟩
  · exact hsame.trans (running_of_step hstep)
  · exact absurd (hconverts thread hthread) (by simp [hthrows])

theorem execute_running {actions : List (Action α)}
    (hconverts : Along (step config) AmountConverts (initial config processedStart) actions)
    (hrun : execute (step config) (initial config processedStart) actions = some state) :
    state.terminated = false := by
  have hstart : (initial config processedStart).terminated = false := rfl
  exact @execute_invariant _ _ _ _ (fun state : Service α => state.terminated = false)
    (fun _ _ _ _ hconverts hstep => step_terminated hconverts hstep) _ _ _ hstart
    hconverts hrun

private theorem room_of_fits {q : WorkerQueue Payment} {payment : Payment}
    (hq : q.WithinCapacity ∧ q.size = queueCapacity)
    (hcounter : q.tail.toNat + 1 < 2 ^ 64)
    (hfits : (q.enqueue payment).outstanding ≤ queueCapacity) :
    (q.enqueue payment).WithinCapacity ∧
      (q.enqueue payment).contents = q.contents ++ [payment] := by
  have htail := WorkerQueue.enqueue_tail hcounter payment
  have hordered := hq.1.ordered
  refine WorkerQueue.enqueue_contents hq.1 ?_ hcounter payment
  rw [hq.2]
  simp only [WorkerQueue.outstanding, htail, WorkerQueue.enqueue_head] at hfits ⊢
  omega

theorem Move.queues (hmove : Move config state action next)
    (hcounters : state.CountersBelow)
    (hfit : ∀ q ∈ next.queues, q.outstanding ≤ queueCapacity)
    (h : ∀ q ∈ state.queues, q.WithinCapacity ∧ q.size = queueCapacity) :
    ∀ q ∈ next.queues, q.WithinCapacity ∧ q.size = queueCapacity := by
  cases hmove with
  | accept hthread hpc hq =>
      have hmem := List.mem_of_getElem? hq
      have hroom := room_of_fits (h _ hmem) (hcounters _ hmem)
        (hfit _ (mem_set_of_getElem? hq _))
      exact all_set ⟨hroom.1, (h _ hmem).2⟩ h
  | fetch hthread hpc hq hfetch hnext =>
      have hold := h _ (List.mem_of_getElem? hq)
      obtain ⟨-, -, -, -, hsize, -⟩ := WorkerQueue.fetchNext_eq_some hfetch
      exact all_set ⟨(WorkerQueue.fetchNext_contents hold.1 hfetch).1,
        hsize.trans hold.2⟩ h
  | requeue hthread hpc hq =>
      have hmem := List.mem_of_getElem? hq
      have hroom := room_of_fits (h _ hmem) (hcounters _ hmem)
        (hfit _ (mem_set_of_getElem? hq _))
      exact all_set ⟨hroom.1, (h _ hmem).2⟩ h
  | abort => simp
  | _ => exact h

omit [Double α] in
private theorem discarded_logReturn (state : Service α) (record : CallRecord α) :
    (state.logReturn record).discarded =
      state.discarded + if record.result = .discard then {record.payment} else 0 := by
  unfold discarded logReturn
  rw [List.filter_append, List.map_append, ← Multiset.coe_add]
  split_ifs with h <;> simp [h]

omit [Double α] in
private theorem inFlight_after {tid : Nat} {thread : Thread α} {payment : Payment}
    {call : CallPc α} {sent : List (Attempt α)}
    (hthread : state.threads[tid]? = some thread)
    (hpc : thread.pc = .processing payment call sent) :
    state.inFlight =
      hands (state.threads.set tid { thread with pc := afterProcess thread }) +
        {payment} :=
  (hands_set_release hthread (by rw [hpc]; rfl) (afterProcess_payment thread)).symm

theorem Move.balance (hmove : Move config state action next)
    (hcounters : state.CountersBelow)
    (hfit : ∀ q ∈ next.queues, q.outstanding ≤ queueCapacity)
    (hqueues : ∀ q ∈ state.queues, q.WithinCapacity ∧ q.size = queueCapacity)
    (hrunning : next.terminated = false) (hbalance : state.Balanced) : next.Balanced := by
  unfold Balanced at hbalance ⊢
  cases hmove with
  | abort => simp [terminate] at hrunning
  | post hraw =>
      change state.acceptedPayments = state.queued + hands (state.threads ++ [_]) +
        state.stored + state.discarded
      rw [hands_append]
      simpa [Pc.payment, inFlight] using hbalance
  | @accept tid thread body raw queueIdx q hthread hpc hq =>
      have hmem := List.mem_of_getElem? hq
      have hroom := room_of_fits (hqueues _ hmem) (hcounters _ hmem)
        (hfit _ (mem_set_of_getElem? hq _))
      change ((state.history.accepted ++ [_]).map Prod.fst : Multiset Payment) =
        waiting (state.queues.set _ _) + hands (state.threads.set _ _) +
          state.stored + state.discarded
      rw [List.map_append, ← Multiset.coe_add, waiting_set_enqueue hq hroom.2,
        hands_set_same hthread (by rw [hpc]; rfl)]
      change state.acceptedPayments + _ = state.queued + _ + state.inFlight + _ + _
      rw [hbalance, List.map_singleton, Multiset.coe_singleton]
      abel
  | @fetch tid thread q q' payment pc hthread hpc hq hfetch hnext =>
      have hold := hqueues _ (List.mem_of_getElem? hq)
      have hcontents := (WorkerQueue.fetchNext_contents hold.1 hfetch).2
      change state.acceptedPayments = waiting (state.queues.set _ _) +
        hands (state.threads.set _ _) + state.stored + state.discarded
      have htaken : pc.payment = some payment := by
        rcases hnext with ⟨-, rfl⟩ | rfl <;> rfl
      rw [hands_set_take hthread (by rw [hpc]; rfl) htaken, hbalance, queued,
        ← waiting_set_fetch hq hcontents]
      change _ = _ + (state.inFlight + _) + _ + _
      abel
  | control hthread hcontrol =>
      change state.acceptedPayments = state.queued + hands (state.threads.set _ _) +
        state.stored + state.discarded
      rw [hands_set_same hthread hcontrol.payment]
      exact hbalance
  | @spawn tid thread payment hthread hpc =>
      change state.acceptedPayments = state.queued +
        hands (state.threads.set _ _ ++ [_]) + state.stored + state.discarded
      have hreleased : hands (state.threads.set tid { thread with pc := .polling }) +
          {payment} = hands state.threads :=
        hands_set_release hthread (by rw [hpc]; rfl) rfl
      rw [hands_append, hbalance, inFlight, ← hreleased]
      rfl
  | call hthread hpc hcall =>
      change state.acceptedPayments = state.queued + hands (state.threads.set _ _) +
        state.stored + state.discarded
      rw [hands_set_same hthread (by rw [hpc]; rfl)]
      exact hbalance
  | requeue hthread hpc hq =>
      have hmem := List.mem_of_getElem? hq
      have hroom := room_of_fits (hqueues _ hmem) (hcounters _ hmem)
        (hfit _ (mem_set_of_getElem? hq _))
      change state.acceptedPayments = waiting (state.queues.set _ _) +
        hands (state.threads.set _ _) + state.stored +
          (state.logReturn _).discarded
      rw [waiting_set_enqueue hq hroom.2, discarded_logReturn, hbalance,
        inFlight_after hthread hpc]
      simp only [reduceCtorEq, if_false, queued]
      abel
  | discard hthread hpc =>
      change state.acceptedPayments = state.queued + hands (state.threads.set _ _) +
        state.stored + (state.logReturn _).discarded
      rw [discarded_logReturn, hbalance, inFlight_after hthread hpc]
      simp only [if_true]
      abel
  | @store tid thread payment draft sent processor amount hthread hpc hprocessor =>
      have hkept : processor ≠ .discard := by
        rcases hprocessor with rfl | rfl <;> simp
      change state.acceptedPayments = state.queued + hands (state.threads.set _ _) +
        ((state.history.stored ++ [_]).map StoreEntry.payment : Multiset Payment) +
          (state.logReturn ⟨payment, sent, processor⟩).discarded
      rw [discarded_logReturn, List.map_append, ← Multiset.coe_add, hbalance,
        inFlight_after hthread hpc]
      simp only [hkept, if_false, Service.stored, List.map_singleton, Multiset.coe_singleton]
      abel
  | idle => exact hbalance

omit [Double α] in
theorem Balanced.terminate (h : state.Balanced) :
    state.terminate.queued + state.terminate.inFlight + state.terminate.stored +
      state.terminate.discarded ≤ state.terminate.acceptedPayments := by
  have hrest : state.stored + state.discarded ≤ state.acceptedPayments := by
    rw [h, add_assoc]
    exact Multiset.le_add_left _ _
  have hqueued : state.terminate.queued = 0 := by simp [queued, waiting]
  have hflight : state.terminate.inFlight = 0 := by simp [inFlight, hands]
  rw [hqueued, hflight, zero_add, zero_add]
  exact hrest

theorem step_conserved (h : state.Conserved)
    (hfits : QueuesFit config state action ∧ state.CountersBelow)
    (hstep : step config state action = some next) : next.Conserved := by
  have hmove := step_move hstep
  have hbalance := h.balance (running_of_step hstep)
  have hnext : next.terminated = false → next.Balanced := fun hrunning =>
    hmove.balance hfits.2 (hfits.1 next hstep) h.queues hrunning hbalance
  refine ⟨hmove.queues hfits.2 (hfits.1 next hstep) h.queues, ?_, hnext⟩
  rcases hmove.terminated with hsame | ⟨rfl, -⟩
  · exact (hnext (hsame.trans (running_of_step hstep))).ge
  · exact hbalance.terminate

/-! ## Whole runs -/

theorem initial_balanced (config : Config α) (processedStart : UInt64) :
    (initial config processedStart).Balanced := by
  have hqueued : (initial config processedStart).queued = 0 := by
    simp [queued, waiting, initial, WorkerQueue.initial, WorkerQueue.contents,
      WorkerQueue.outstanding]
  have hflight : (initial config processedStart).inFlight = 0 := by
    simp [inFlight, hands, initial, Pc.payment, Function.comp_def]
  rw [Balanced, hqueued, hflight]
  rfl

theorem initial_conserved (config : Config α) (processedStart : UInt64) :
    (initial config processedStart).Conserved where
  queues := by
    intro q hq
    rw [(List.mem_replicate.mp hq).2]
    exact ⟨WorkerQueue.initial_withinCapacity (by decide) _, rfl⟩
  within := (initial_balanced config processedStart).ge
  balance := fun _ => initial_balanced config processedStart

theorem execute_conserved {actions : List (Action α)}
    (hrun : execute (step config) (initial config processedStart) actions = some state)
    (hfit : Along (step config) (fun state action =>
      QueuesFit config state action ∧ state.CountersBelow)
      (initial config processedStart) actions) :
    state.Conserved := by
  exact execute_invariant (fun _ _ _ h hfits hstep => step_conserved h hfits hstep)
    (initial_conserved config processedStart) hfit hrun

/-! ## The clock and the store -/

/-- The draft was stamped at a reading that the store covers. -/
def StampedWithin (processedStart : UInt64) (draft : Draft) : Prop :=
  ∃ now, draft.ts = UInt64.ofNat now ∧ processedStart.toNat ≤ now ∧
    now < processedStart.toNat + processedCapacity

theorem storeIndex_ofNat {processedStart : UInt64} {now : Nat}
    (hstart : processedStart.toNat ≤ now)
    (hend : now < processedStart.toNat + processedCapacity) :
    (UInt64.ofNat now - processedStart).toNat = now - processedStart.toNat := by
  have hcapacity : processedCapacity = 3000 := rfl
  have hlt := processedStart.toNat_lt
  rw [UInt64.toNat_sub, UInt64.toNat_ofNat']
  omega

theorem StampedWithin.index_lt {draft : Draft} (h : StampedWithin processedStart draft) :
    (draft.ts - processedStart).toNat < processedCapacity := by
  obtain ⟨now, hts, hstart, hend⟩ := h
  rw [hts, storeIndex_ofNat hstart hend]
  omega

omit [Double α] in
structure Stamped (processedStart : UInt64) (state : Service α) : Prop where
  drafts : ∀ thread ∈ state.threads,
    thread.pc.Drafted fun _ => StampedWithin processedStart
  stored : ∀ entry ∈ state.history.stored, StampedWithin processedStart entry.draft

theorem step_stamped (h : state.Stamped processedStart)
    (hclock : ClockWithin processedStart action)
    (hstep : step config state action = some next) : next.Stamped processedStart := by
  have hmove := step_move hstep
  refine ⟨hmove.drafted ?_ h.drafts, hmove.stored h.drafts h.stored⟩
  rintro thread hthread tid payment now draft cache rfl hpayment hpayload
  exact ⟨now, (createProcessorPayload_eq_some hpayload).2.2.1, hclock⟩

theorem initial_stamped (config : Config α) (processedStart : UInt64) :
    (initial config processedStart).Stamped processedStart :=
  ⟨by simp [initial, Pc.Drafted], by simp [initial]⟩

theorem execute_stamped {actions : List (Action α)}
    (hrun : execute (step config) (initial config processedStart) actions = some state)
    (hclock : Along (step config) (fun _ action => ClockWithin processedStart action)
      (initial config processedStart) actions) : state.Stamped processedStart :=
  execute_invariant (fun _ _ _ h hwithin hstep => step_stamped h hwithin hstep)
    (initial_stamped config processedStart) hclock hrun

/-- Every store that a thread is about to make has an index inside the buckets. -/
def StoresWithin (state : Service α) : Prop :=
  ∀ thread ∈ state.threads, ∀ payment draft result sent,
    thread.pc = .processing payment (.returned draft result) sent →
      state.ledger.storeIndex draft.ts < processedCapacity

omit [Double α] in
theorem Stamped.storesWithin (h : state.Stamped processedStart)
    (hstart : state.ledger.processedStart = processedStart) : state.StoresWithin := by
  intro thread hthread payment draft result sent hpc
  have hdraft := h.drafts thread hthread
  rw [hpc] at hdraft
  rw [Ledger.storeIndex, hstart]
  exact (hdraft draft rfl).index_lt

theorem counted_eq_stored (h : state.Regular config processedStart)
    (hstamped : state.Stamped processedStart) : state.counted = state.stored := by
  unfold counted Service.stored
  rw [List.filter_eq_self.mpr]
  intro entry hentry
  rw [Ledger.storeIndex, h.start_eq]
  exact decide_eq_true (hstamped.stored entry hentry).index_lt

/-! ## The account of a run -/

def Accountable (config : Config α) (processedStart : UInt64) (state : Service α)
    (action : Action α) : Prop :=
  (QueuesFit config state action ∧ state.CountersBelow) ∧
    ClockWithin processedStart action ∧ state.AmountConverts action

instance (config : Config α) (processedStart : UInt64) (state : Service α)
    (action : Action α) : Decidable (Accountable config processedStart state action) :=
  inferInstanceAs (Decidable ((_ ∧ _) ∧ _ ∧ _))

theorem Regular.acceptedPayments_nodup (h : state.Regular config processedStart) :
    state.acceptedPayments.Nodup := by
  have hserials : (state.history.accepted.map fun entry => entry.1.serial).Nodup := by
    rw [h.serials]
    exact List.nodup_range'
  have hmap : state.history.accepted.map (fun entry => entry.1.serial) =
      (state.history.accepted.map Prod.fst).map Payment.serial := by simp
  rw [hmap] at hserials
  exact Multiset.coe_nodup.mpr hserials.of_map

theorem Regular.acceptedBodies (h : state.Regular config processedStart) :
    (state.history.accepted.map Prod.snd : Multiset Bytes) =
      state.acceptedPayments.map fun payment => payment.raw.json := by
  rw [acceptedPayments, Multiset.map_coe, List.map_map]
  congr 1
  apply List.map_congr_left
  intro entry hentry
  exact (RawPayment.json_ofBody (h.bodies entry hentry)).symm

theorem Regular.discarded_after_422 (h : state.Regular config processedStart) :
    ∀ record ∈ state.history.returned, record.result = .discard →
      ∃ attempt ∈ record.sent, attempt.reply.ok = false ∧ attempt.reply.code = 422 := by
  intro record hrecord hdiscard
  obtain ⟨draft, htrace⟩ := h.returned record hrecord
  rw [hdiscard] at htrace
  obtain ⟨first, hsent, hok, hcode⟩ := htrace
  exact ⟨first, by simp [hsent], hok, hcode⟩

omit [Double α] in
theorem stored_in_one_bucket {config : Config α} {stored : List (StoreEntry α)}
    {entry : StoreEntry α} (hentry : entry ∈ stored)
    (hstamped : StampedWithin processedStart entry.draft) :
    ∃! place : ProcessorResult × Fin processedCapacity,
      entry ∈ entriesAt config processedStart stored place.1 place.2 := by
  refine ⟨(Ledger.side config entry.processor,
    ⟨(entry.draft.ts - processedStart).toNat, hstamped.index_lt⟩), ?_, ?_⟩
  · simp [entriesAt, hentry]
  · rintro ⟨processor, slot⟩ hplace
    simp only [entriesAt, List.mem_filter, decide_eq_true_eq] at hplace
    obtain ⟨-, rfl, hslot⟩ := hplace
    exact Prod.ext rfl (Fin.ext hslot.symm)

/--
In every run whose steps are all accountable the process is still running, and the
bodies answered 202 are, as multisets, those still queued, those in flight, those
counted in a bucket and those discarded after a 422.  The payments behind them are
distinct, each is byte for byte the body posted, and each stored one is in exactly one
bucket, whose counter is the number of payments stored there.  A store that is next
has a bucket too.
-/
theorem no_loss_no_duplication {actions : List (Action α)}
    (hrun : execute (step config) (initial config processedStart) actions = some state)
    (haccountable : Along (step config) (Accountable config processedStart)
      (initial config processedStart) actions) :
    state.terminated = false ∧
    (state.history.accepted.map Prod.snd : Multiset Bytes) =
      state.queued.map (fun payment => payment.raw.json) +
        state.inFlight.map (fun payment => payment.raw.json) +
        state.counted.map (fun payment => payment.raw.json) +
        state.discarded.map (fun payment => payment.raw.json) ∧
    state.acceptedPayments =
      state.queued + state.inFlight + state.counted + state.discarded ∧
    state.acceptedPayments.Nodup ∧
    (∀ entry ∈ state.history.accepted, entry.1.raw.json = entry.2) ∧
    (∀ processor : ProcessorResult, processor.IsProcessor → ∀ slot,
      (state.ledger.bucket processor slot).totalRequests = UInt64.ofNat
        (entriesAt config processedStart state.history.stored processor slot).length) ∧
    (∀ entry ∈ state.history.stored,
      ∃! place : ProcessorResult × Fin processedCapacity,
        entry ∈ entriesAt config processedStart state.history.stored place.1 place.2) ∧
    state.StoresWithin ∧
    (∀ record ∈ state.history.returned, record.result = .discard →
      ∃ attempt ∈ record.sent, attempt.reply.ok = false ∧ attempt.reply.code = 422) := by
  have hregular := execute_regular hrun
  have hconserved := execute_conserved hrun (along_mono (fun _ _ h => h.1) haccountable)
  have hstamped := execute_stamped hrun (along_mono (fun _ _ h => h.2.1) haccountable)
  have hrunning := execute_running (along_mono (fun _ _ h => h.2.2) haccountable) hrun
  have hbalance := hconserved.balance hrunning
  rw [Balanced, ← counted_eq_stored hregular hstamped] at hbalance
  refine ⟨hrunning, ?_, hbalance, hregular.acceptedPayments_nodup, ?_, ?_, ?_,
    hstamped.storesWithin hregular.start_eq, hregular.discarded_after_422⟩
  · rw [hregular.acceptedBodies, hbalance]
    simp only [Multiset.map_add]
  · exact fun entry hentry => RawPayment.json_ofBody (hregular.bodies entry hentry)
  · intro processor hprocessor slot
    rw [hregular.buckets processor hprocessor slot]
    simp [Summary.ofAmounts]
  · exact fun entry hentry => stored_in_one_bucket hentry (hstamped.stored entry hentry)

def samplePayment : PaymentObject where
  correlationId := []
  amount := ⟨false, .zero, some (Json.lastDigit 9, []), none⟩
  amountFirst := false

def answer (now : Nat) (reply : Reply Float) : List (Action Float) :=
  [.run 0 (.clock now), .run 0 .tau, .run 0 .tau, .run 0 (.reply reply), .run 0 .tau,
    .run 0 .tau, .run 0 .tau]

def settle (now : Nat) (reply : Reply Float) : List (Action Float) :=
  postAndFetch Float samplePayment.render ++ answer now reply

def settled (now : Nat) : Option (Service Float) :=
  execute (step (singleWorker Float)) (initial (singleWorker Float) 1751328000)
    (settle now (.ofCurl true 200 1))

theorem settled_in_time : (settled 1751328010).isSome = true := by decide +kernel

theorem no_loss_no_duplication_settled :
    let state := (settled 1751328010).get settled_in_time
    state.counted.card = 1 ∧
      state.acceptedPayments =
        state.queued + state.inFlight + state.counted + state.discarded :=
  ⟨by decide +kernel,
    (no_loss_no_duplication (Option.some_get settled_in_time).symm
      (by decide +kernel)).2.2.1⟩

/-! ## Payments that cannot be stored -/

/-- A store past the end of the vectors has no defined result. -/
theorem step_eq_none_of_late {tid : Nat} {thread : Thread α} {payment : Payment}
    {draft : Draft} {processor : ProcessorResult} {sent : List (Attempt α)} {amount : α}
    (hthread : state.threads[tid]? = some thread)
    (hpc : thread.pc = .processing payment (.returned draft processor) sent)
    (hprocessor : processor = .default ∨ processor = .fallback)
    (hamount : extractAmount draft.payload = some amount)
    (hlate : processedCapacity ≤ state.ledger.storeIndex draft.ts) (event : Event α) :
    step config state (.run tid event) = none := by
  have hstore : state.ledger.storeProcessed config draft.payload processor draft.ts =
      .undefined := by
    simp [Ledger.storeProcessed, hamount, Ledger.add_eq_none hlate]
  cases event with
  | tau =>
      rcases hprocessor with rfl | rfl <;>
        simp [step, hthread, runThread, hpc, finish, hstore]
  | clock | wall | reply => simp [step, hthread, runThread, hpc, callStep]

/-- Its amount, 1e400, is no double. -/
def hugePayment : PaymentObject where
  correlationId := []
  amount := ⟨false, .positive (Json.lastDigit 1) Json.lastDigit_one_ne_zero [], none,
    some ⟨false, none, Json.lastDigit 4, [Json.lastDigit 0, Json.lastDigit 0]⟩⟩
  amountFirst := false

def settleHuge : List (Action Float) :=
  postAndFetch Float hugePayment.render ++ answer 1751328010 (.ofCurl true 200 1)

def settledHuge : Option (Service Float) :=
  execute (step (singleWorker Float)) (initial (singleWorker Float) 1751328000) settleHuge

theorem settledHuge_isSome : settledHuge.isSome = true := by decide +kernel

/-- The run up to the return of the call: the store is next. -/
def returned (now : Nat) : Option (Service Float) :=
  execute (step (singleWorker Float)) (initial (singleWorker Float) 1751328000)
    (settle now (.ofCurl true 200 1)).dropLast

theorem returned_late : (returned 1751331000).isSome = true := by decide +kernel

/-- The only worker has an answered payment whose bucket would be the one past the end. -/
theorem late_store :
    let state := (returned 1751331000).get returned_late
    ∃ thread payment draft sent, state.threads[0]? = some thread ∧
      thread.pc = .processing payment (.returned draft .default) sent ∧
      state.ledger.storeIndex draft.ts = processedCapacity ∧
      (extractAmount draft.payload : Option Float).isSome = true := by
  refine ⟨⟨0, false, _, _⟩, _, _, _, rfl, rfl, ?_, ?_⟩
  · decide +kernel
  · decide +kernel

/--
Two ways to lose an answered payment.  An amount that no double holds makes `stod` throw,
which ends the process: the payment is in none of the four places.  Fifty minutes after
the start the store of an answered payment is past the end of the vectors: whatever the
worker's next event, no behaviour is defined.
-/
theorem answered_payment_lost :
    (let state := settledHuge.get settledHuge_isSome
     hugePayment.render.length = 35 ∧
      Along (step (singleWorker Float)) (fun state action =>
          QueuesFit (singleWorker Float) state action ∧ state.CountersBelow ∧
            ClockWithin 1751328000 action)
        (initial (singleWorker Float) 1751328000) settleHuge ∧
      state.acceptedPayments.card = 1 ∧ state.terminated = true ∧
      state.acceptedPayments ≠
        state.queued + state.inFlight + state.counted + state.discarded) ∧
    (let state := (returned 1751331000).get returned_late
     state.acceptedPayments.card = 1 ∧
      (∃ thread payment draft sent, state.threads[0]? = some thread ∧
        thread.pc = .processing payment (.returned draft .default) sent ∧
        state.ledger.storeIndex draft.ts = processedCapacity) ∧
      ∀ event, step (singleWorker Float) state (.run 0 event) = none) := by
  refine ⟨⟨by decide, by decide +kernel, by decide +kernel, by decide +kernel,
    fun hbalance => ?_⟩, by decide +kernel, ?_⟩
  · have hcard := congrArg Multiset.card hbalance
    exact absurd hcard (by decide +kernel)
  · obtain ⟨thread, payment, draft, sent, hthread, hpc, hindex, hconverts⟩ := late_store
    obtain ⟨amount, hamount⟩ := Option.isSome_iff_exists.mp hconverts
    exact ⟨⟨thread, payment, draft, sent, hthread, hpc, hindex⟩,
      step_eq_none_of_late hthread hpc (Or.inl rfl) hamount hindex.ge⟩

end Service

end RinhaBackend
