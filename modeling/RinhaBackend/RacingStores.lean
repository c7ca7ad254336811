import RinhaBackend.Foundation.Accumulator
import RinhaBackend.Pacing
import RinhaBackend.Switching
import RinhaBackend.Threads

/-!
# Stores that race

`store_processed` adds to a bucket with `s.totalRequests++` and `s.totalAmount += amount`
and nothing keeps two threads apart: each addition is a load and a later store.  The
service is run with its buckets as memory and every store in these four steps.  The
atomic service inside takes its own store at the last of them.
-/

namespace RinhaBackend

open Foundation

/-- The bucket that `Summary& s` refers to. -/
structure BucketRef where
  side : ProcessorResult
  slot : Fin processedCapacity
  deriving DecidableEq

variable {α : Type}

inductive StorePhase (α : Type) where
  | countLoaded (totalRequests : UInt64)
  | countStored
  | amountLoaded (totalAmount : α)

/-- A `store_processed` call in progress, with its locals. -/
structure OpenStore (α : Type) where
  bucket : BucketRef
  amount : α
  phase : StorePhase α

/-- The draft and the processor of the `store_processed` that comes next. -/
def Pc.stores : Pc α → Option (Draft × ProcessorResult)
  | .processing _ (.returned draft .default) _ => some (draft, .default)
  | .processing _ (.returned draft .fallback) _ => some (draft, .fallback)
  | _ => none

/-- `calls` has the open store of each thread, by thread number. -/
structure RacingService (α : Type) where
  service : Service α
  counts : BucketRef → UInt64
  amounts : BucketRef → α
  calls : List (Option (OpenStore α))

inductive RacingAction (α : Type) where
  | act (action : Action α)
  | loadCount (tid : Nat)
  | storeCount (tid : Nat)
  | loadAmount (tid : Nat)
  | storeAmount (tid : Nat)

namespace RacingService

variable [Double α]

def initial (config : Config α) (processedStart : UInt64) : RacingService α where
  service := .initial config processedStart
  counts := fun _ => 0
  amounts := fun _ => Double.zero
  calls := List.replicate config.workerCount none

/-- What a query reads from a bucket. -/
def summary (state : RacingService α) (processor : ProcessorResult)
    (slot : Fin processedCapacity) : Summary α :=
  ⟨state.counts ⟨processor, slot⟩, state.amounts ⟨processor, slot⟩⟩

def slotAt (index : Nat) : Option (Fin processedCapacity) :=
  if h : index < processedCapacity then some ⟨index, h⟩ else none

/-- The bucket and the amount of the store that the thread is about to make or making. -/
def storing (config : Config α) (service : Service α) (tid : Nat) :
    Option (BucketRef × α) := do
  let thread ← service.threads[tid]?
  let (draft, processor) ← thread.pc.stores
  let amount ← extractAmount draft.payload
  -- past the end of the array there is no bucket, and the service has no step either
  let slot ← slotAt (service.ledger.storeIndex draft.ts)
  return (⟨Ledger.side config processor, slot⟩, amount)

def Free (config : Config α) (service : Service α) : Action α → Prop
  | .post _ => True
  | .run tid _ => storing config service tid = none

instance (config : Config α) (service : Service α) (action : Action α) :
    Decidable (Free config service action) :=
  match action with
  | .post _ => .isTrue trivial
  | .run tid _ =>
      match h : storing config service tid with
      | none => .isTrue h
      | some _ => .isFalse (by simp [Free, h])

def setCall (state : RacingService α) (tid : Nat) (call : Option (OpenStore α)) :
    RacingService α :=
  { state with calls := state.calls.set tid call }

/-- The open calls of a process that has ended are gone with it. -/
def step (config : Config α) (state : RacingService α) :
    RacingAction α → Option (RacingService α)
  | .act action =>
      if Free config state.service action then
        match Service.step config state.service action with
        | none => none
        | some service =>
            let fresh := List.replicate (service.threads.length - state.calls.length) none
            let calls := if service.terminated then [] else state.calls ++ fresh
            some { state with service, calls }
      else none
  | .loadCount tid =>
      match storing config state.service tid, state.calls[tid]? with
      | some (bucket, amount), some none =>
          if state.service.terminated then none
          else
            some (state.setCall tid
              (some ⟨bucket, amount, .countLoaded (state.counts bucket)⟩))
      | _, _ => none
  | .storeCount tid =>
      match state.calls[tid]? with
      | some (some ⟨bucket, amount, .countLoaded totalRequests⟩) =>
          if state.service.terminated then none
          else
            some { state.setCall tid (some ⟨bucket, amount, .countStored⟩) with
              counts := storeSum (· + ·) state.counts bucket totalRequests 1 }
      | _ => none
  | .loadAmount tid =>
      match state.calls[tid]? with
      | some (some ⟨bucket, amount, .countStored⟩) =>
          if state.service.terminated then none
          else
            some (state.setCall tid
              (some ⟨bucket, amount, .amountLoaded (state.amounts bucket)⟩))
      | _ => none
  | .storeAmount tid =>
      match state.calls[tid]?, Service.step config state.service (.run tid .tau) with
      | some (some ⟨bucket, amount, .amountLoaded totalAmount⟩), some service =>
          some { state.setCall tid none with
            service
            amounts := storeSum Double.add state.amounts bucket totalAmount amount }
      | _, _ => none

end RacingService

/-! ## The store as one step -/

section Stores

variable [Double α] {config : Config α} {service next : Service α} {action : Action α}
variable {tid : Nat} {bucket : BucketRef} {amount : α}

omit [Double α] in
theorem slotAt_eq_some {index : Nat} {slot : Fin processedCapacity} :
    RacingService.slotAt index = some slot ↔ index = slot := by
  rw [RacingService.slotAt]
  split_ifs with h
  · simp [Fin.ext_iff]
  · exact ⟨by simp, fun heq => absurd slot.isLt (heq ▸ h)⟩

theorem storing_spec (h : RacingService.storing config service tid = some (bucket, amount)) :
    ∃ thread payment draft sent processor, service.threads[tid]? = some thread ∧
      thread.pc = .processing payment (.returned draft processor) sent ∧
      (processor = .default ∨ processor = .fallback) ∧
      extractAmount draft.payload = some amount ∧
      Ledger.side config processor = bucket.side ∧
      service.ledger.storeIndex draft.ts = bucket.slot := by
  simp only [RacingService.storing, Option.bind_eq_bind, Option.bind_eq_some_iff,
    Option.pure_def, Option.some.injEq, Prod.mk.injEq, slotAt_eq_some] at h
  obtain ⟨thread, hthread, ⟨draft, processor⟩, hstores, amount, hamount, slot, hslot, rfl,
    rfl⟩ := h
  have hpc : ∃ payment sent,
      thread.pc = .processing payment (.returned draft processor) sent ∧
        (processor = .default ∨ processor = .fallback) := by
    unfold Pc.stores at hstores
    split at hstores
    · cases hstores
      exact ⟨_, _, ‹_›, Or.inl rfl⟩
    · cases hstores
      exact ⟨_, _, ‹_›, Or.inr rfl⟩
    · simp at hstores
  obtain ⟨payment, sent, hpc, hprocessor⟩ := hpc
  exact ⟨thread, payment, draft, sent, processor, hthread, hpc, hprocessor, hamount, rfl,
    hslot⟩

/-- The entry is one of those whose sum the bucket is. -/
def StoreEntry.At (config : Config α) (processedStart : UInt64) (bucket : BucketRef)
    (entry : StoreEntry α) : Prop :=
  Ledger.side config entry.processor = bucket.side ∧
    (entry.draft.ts - processedStart).toNat = bucket.slot.val

instance (config : Config α) (processedStart : UInt64) (bucket : BucketRef) :
    DecidablePred (StoreEntry.At config processedStart bucket) :=
  fun _ => inferInstanceAs (Decidable (_ ∧ _))

omit [Double α] in
theorem StoreEntry.At.iff {processedStart : UInt64} {entry : StoreEntry α}
    (h : entry.At config processedStart bucket) (other : BucketRef) :
    entry.At config processedStart other ↔ bucket = other := by
  constructor
  · intro hother
    obtain ⟨side, slot⟩ := bucket
    obtain ⟨side', slot'⟩ := other
    obtain rfl : side = side' := h.1.symm.trans hother.1
    obtain rfl : slot = slot' := Fin.ext (h.2.symm.trans hother.2)
    rfl
  · rintro rfl
    exact h

theorem step_store (hstoring : RacingService.storing config service tid = some (bucket, amount))
    (hstep : Service.step config service (.run tid .tau) = some next) :
    ∃ entry : StoreEntry α, entry.At config service.ledger.processedStart bucket ∧
      entry.amount = amount ∧
      next.history.stored = service.history.stored ++ [entry] ∧
      next.terminated = false := by
  obtain ⟨thread, payment, draft, sent, processor, hthread, hpc, hprocessor, hamount, hside,
    hslot⟩ := storing_spec hstoring
  have hrunning := Service.running_of_step hstep
  have hindex : service.ledger.storeIndex draft.ts < processedCapacity :=
    hslot ▸ bucket.slot.isLt
  refine ⟨⟨payment, processor, draft, amount⟩, ⟨hside, hslot⟩, rfl, ?_⟩
  simp only [Service.step, hthread, hrunning, Bool.false_eq_true, if_false] at hstep
  simp only [Service.runThread, hpc] at hstep
  rcases hprocessor with rfl | rfl
  all_goals
    simp only [Service.finish, Ledger.storeProcessed, hamount, Ledger.add_of_lt hindex,
      Option.some.injEq] at hstep
    cases hstep
    exact ⟨rfl, hrunning⟩

theorem Service.Move.stored_of_free (hmove : Service.Move config service action next)
    (hfree : RacingService.Free config service action) :
    next.history.stored = service.history.stored := by
  cases hmove with
  | store hthread hpc hprocessor hamount hindex =>
      exfalso
      rcases hprocessor with rfl | rfl <;>
        simp [RacingService.Free, RacingService.storing, RacingService.slotAt, hthread, hpc,
          Pc.stores, hamount, hindex] at hfree
  | _ => rfl

theorem Service.Move.stored_length_le (hmove : Service.Move config service action next) :
    service.history.stored.length ≤ next.history.stored.length := by
  cases hmove with
  | store => simp
  | _ => exact le_rfl

theorem storing_kept (hmove : Service.Move config service action next)
    (hrunning : next.terminated = false) (haction : ∀ event, action ≠ .run tid event)
    (hstoring : RacingService.storing config service tid = some (bucket, amount)) :
    RacingService.storing config next tid = some (bucket, amount) := by
  obtain ⟨thread, payment, draft, sent, processor, hthread, -⟩ := storing_spec hstoring
  have hkept :=
    hmove.other_thread (Service.ne_terminate_of_running hrunning) haction hthread
  rw [← hstoring]
  simp only [RacingService.storing, hthread, hkept, Ledger.storeIndex, hmove.start_eq]

theorem ne_run_of_free (hfree : RacingService.Free config service action)
    (hstoring : RacingService.storing config service tid = some (bucket, amount))
    (event : Event α) : action ≠ .run tid event := by
  rintro rfl
  rw [RacingService.Free, hstoring] at hfree
  simp at hfree

end Stores

/-! ## What a step of the racing service does -/

namespace RacingService

variable [Double α] {config : Config α} {processedStart : UInt64}
variable {state next : RacingService α} {action : RacingAction α} {bucket : BucketRef}

inductive Move (config : Config α) (state : RacingService α) :
    RacingAction α → RacingService α → Prop
  | act {action : Action α} {service : Service α} {fresh : List (Option (OpenStore α))}
      (hfree : Free config state.service action) (hfresh : ∀ call ∈ fresh, call = none)
      (hservice : Service.step config state.service action = some service)
      (hrunning : service.terminated = false) :
      Move config state (.act action)
        { state with service, calls := state.calls ++ fresh }
  | ended {action : Action α} {service : Service α}
      (hservice : Service.step config state.service action = some service)
      (hterminated : service.terminated = true) :
      Move config state (.act action) { state with service, calls := [] }
  | loadCount {tid : Nat} {bucket : BucketRef} {amount : α}
      (hstoring : storing config state.service tid = some (bucket, amount))
      (hcall : state.calls[tid]? = some none) :
      Move config state (.loadCount tid)
        (state.setCall tid (some ⟨bucket, amount, .countLoaded (state.counts bucket)⟩))
  | storeCount {tid : Nat} {bucket : BucketRef} {amount : α} {totalRequests : UInt64}
      (hcall : state.calls[tid]? = some (some ⟨bucket, amount, .countLoaded totalRequests⟩)) :
      Move config state (.storeCount tid)
        { state.setCall tid (some ⟨bucket, amount, .countStored⟩) with
          counts := storeSum (· + ·) state.counts bucket totalRequests 1 }
  | loadAmount {tid : Nat} {bucket : BucketRef} {amount : α}
      (hcall : state.calls[tid]? = some (some ⟨bucket, amount, .countStored⟩)) :
      Move config state (.loadAmount tid)
        (state.setCall tid (some ⟨bucket, amount, .amountLoaded (state.amounts bucket)⟩))
  | storeAmount {tid : Nat} {bucket : BucketRef} {amount totalAmount : α}
      {service : Service α}
      (hcall : state.calls[tid]? = some (some ⟨bucket, amount, .amountLoaded totalAmount⟩))
      (hservice : Service.step config state.service (.run tid .tau) = some service) :
      Move config state (.storeAmount tid)
        { state.setCall tid none with
          service
          amounts := storeSum Double.add state.amounts bucket totalAmount amount }

theorem step_move (h : step config state action = some next) :
    Move config state action next := by
  cases action with
  | act action =>
      simp only [step] at h
      split_ifs at h with hfree
      split at h
      · simp at h
      · rename_i service hservice
        cases h
        cases hterminated : service.terminated with
        | true => exact .ended hservice hterminated
        | false =>
            exact .act hfree (fun _ hcall => (List.mem_replicate.mp hcall).2) hservice
              hterminated
  | loadCount tid =>
      simp only [step] at h
      split at h
      · split_ifs at h
        cases h
        exact .loadCount ‹_› ‹_›
      · simp at h
  | storeCount tid =>
      simp only [step] at h
      split at h
      · split_ifs at h
        cases h
        exact .storeCount ‹_›
      · simp at h
  | loadAmount tid =>
      simp only [step] at h
      split at h
      · split_ifs at h
        cases h
        exact .loadAmount ‹_›
      · simp at h
  | storeAmount tid =>
      simp only [step] at h
      split at h
      · cases h
        exact .storeAmount ‹_› ‹_›
      · simp at h

theorem Move.service (hmove : Move config state action next) :
    next.service = state.service ∨
      ∃ action, Service.step config state.service action = some next.service := by
  cases hmove with
  | act hfree hfresh hservice | ended hservice => exact Or.inr ⟨_, hservice⟩
  | loadCount | storeCount | loadAmount => exact Or.inl rfl
  | storeAmount hcall hservice => exact Or.inr ⟨_, hservice⟩

theorem execute_service {actions : List (RacingAction α)}
    (hrun : execute (step config) (initial config processedStart) actions = some state) :
    ∃ serviceActions, execute (Service.step config) (.initial config processedStart)
      serviceActions = some state.service :=
  execute_refines (fun _ _ _ hstep => (step_move hstep).service) hrun

theorem Move.running (hmove : Move config state action next)
    (hrunning : next.service.terminated = false) : state.service.terminated = false := by
  rcases hmove.service with hsame | ⟨serviceAction, hservice⟩
  · exact hsame ▸ hrunning
  · exact Service.running_of_step hservice

/-! ## Sums of the additions made -/

/-- The call has added to the count of the bucket and not ended. -/
def countedAt (bucket : BucketRef) : Option (OpenStore α) → Bool
  | some ⟨other, _, .countStored⟩ | some ⟨other, _, .amountLoaded _⟩ => other = bucket
  | _ => false

def storedAt (config : Config α) (processedStart : UInt64) (state : RacingService α)
    (bucket : BucketRef) : List (StoreEntry α) :=
  state.service.history.stored.filter fun entry => entry.At config processedStart bucket

def countSum (config : Config α) (processedStart : UInt64) (state : RacingService α)
    (bucket : BucketRef) : Nat :=
  (state.storedAt config processedStart bucket).length +
    state.calls.countP (countedAt bucket)

def amountSum (config : Config α) (processedStart : UInt64) (state : RacingService α)
    (bucket : BucketRef) : α :=
  Double.sum ((state.storedAt config processedStart bucket).map StoreEntry.amount)

/-- The counts in memory, as numbers. -/
def held (state : RacingService α) (bucket : BucketRef) : Nat :=
  (state.counts bucket).toNat

def countLoads (state : RacingService α) (bucket : BucketRef) (count : Nat) : Prop :=
  ∃ amount totalRequests, some ⟨bucket, amount, .countLoaded totalRequests⟩ ∈ state.calls ∧
    totalRequests.toNat = count

/-- The process runs, and the stores it has made and is making are fewer than `2^64`. -/
structure Fits (state : RacingService α) : Prop where
  running : state.service.terminated = false
  stores : state.service.history.stored.length + state.calls.length < 2 ^ 64

omit [Double α] in
theorem Fits.countSum_lt (h : state.Fits) (config : Config α) (processedStart : UInt64)
    (bucket : BucketRef) : state.countSum config processedStart bucket < 2 ^ 64 := by
  refine lt_of_le_of_lt (Nat.add_le_add ?_ List.countP_le_length) h.stores
  exact List.length_filter_le _ _

/-- No `store_processed` call is adding to the bucket. -/
def AtRest (state : RacingService α) (bucket : BucketRef) : Prop :=
  ∀ call ∈ state.calls, ∀ store ∈ call, store.bucket ≠ bucket

instance (state : RacingService α) (bucket : BucketRef) : Decidable (state.AtRest bucket) :=
  inferInstanceAs (Decidable (∀ call ∈ state.calls, _))

omit [Double α] in
theorem AtRest.bucket_ne (h : state.AtRest bucket) {tid : Nat} {call : OpenStore α}
    (hcall : state.calls[tid]? = some (some call)) : call.bucket ≠ bucket :=
  h _ (List.mem_of_getElem? hcall) call rfl

omit [Double α] in
theorem AtRest.countP_eq_zero (h : state.AtRest bucket) :
    state.calls.countP (countedAt bucket) = 0 := by
  rw [List.countP_eq_zero]
  intro call hcall hcounted
  cases call with
  | none => simp [countedAt] at hcounted
  | some call =>
      apply h (some call) hcall call rfl
      obtain ⟨other, amount, phase⟩ := call
      cases phase <;> simp_all [countedAt]

omit [Double α] in
theorem storedAt_append {entry : StoreEntry α} {service : Service α}
    {calls : List (Option (OpenStore α))} {amounts : BucketRef → α}
    (hstored : service.history.stored = state.service.history.stored ++ [entry])
    (other : BucketRef) :
    storedAt config processedStart { state with service, amounts, calls } other =
      if entry.At config processedStart other then
        state.storedAt config processedStart other ++ [entry]
      else state.storedAt config processedStart other := by
  simp only [storedAt, hstored, List.filter_append]
  split_ifs with hbucket <;> simp [hbucket]

structure Tracked (config : Config α) (processedStart : UInt64) (state : RacingService α) :
    Prop where
  regular : state.service.Regular config processedStart
  calls : ∀ tid call, state.calls[tid]? = some (some call) →
    storing config state.service tid = some (call.bucket, call.amount)

omit [Double α] in
theorem call_set {tid other : Nat} {new : Option (OpenStore α)} {call : OpenStore α}
    (h : (state.calls.set tid new)[other]? = some (some call)) :
    (other = tid ∧ new = some call) ∨
      (other ≠ tid ∧ state.calls[other]? = some (some call)) := by
  rw [List.getElem?_set] at h
  split_ifs at h with hother hlength
  · exact Or.inl ⟨hother.symm, Option.some.inj h⟩
  · exact Or.inr ⟨fun heq => hother heq.symm, h⟩

omit [Double α] in
theorem call_append {fresh : List (Option (OpenStore α))} (hfresh : ∀ call ∈ fresh, call = none)
    {tid : Nat} {call : OpenStore α} (h : (state.calls ++ fresh)[tid]? = some (some call)) :
    state.calls[tid]? = some (some call) := by
  rw [List.getElem?_append] at h
  split_ifs at h with hlength
  · exact h
  · have hnone := hfresh _ (List.mem_of_getElem? h)
    simp at hnone

theorem Move.calls (hmove : Move config state action next)
    (h : ∀ tid call, state.calls[tid]? = some (some call) →
      storing config state.service tid = some (call.bucket, call.amount)) :
    ∀ tid call, next.calls[tid]? = some (some call) →
      storing config next.service tid = some (call.bucket, call.amount) := by
  intro other call hcall
  cases hmove with
  | act hfree hfresh hservice hrunning =>
      have hstoring := h other call (call_append hfresh hcall)
      exact storing_kept (Service.step_move hservice) hrunning
        (ne_run_of_free hfree hstoring) hstoring
  | ended hservice => simp at hcall
  | loadCount hstoring hidle =>
      rcases call_set hcall with ⟨rfl, hnew⟩ | ⟨-, hold⟩
      · cases hnew
        exact hstoring
      · exact h other call hold
  | storeCount hloaded | loadAmount hloaded =>
      rcases call_set hcall with ⟨rfl, hnew⟩ | ⟨-, hold⟩
      · have hstoring := h other _ hloaded
        cases hnew
        exact hstoring
      · exact h other call hold
  | storeAmount hloaded hservice =>
      rcases call_set hcall with ⟨rfl, hnew⟩ | ⟨hne, hold⟩
      · simp at hnew
      · obtain ⟨-, -, -, -, hrunning⟩ := step_store (h _ _ hloaded) hservice
        refine storing_kept (Service.step_move hservice) hrunning ?_ (h other call hold)
        rintro event heq
        cases heq
        exact hne rfl

omit [Double α] in
theorem countSum_setCall (config : Config α) (processedStart : UInt64) {tid : Nat}
    {old : Option (OpenStore α)} (hcall : state.calls[tid]? = some old)
    (new : Option (OpenStore α)) (other : BucketRef) :
    (state.setCall tid new).countSum config processedStart other +
        (countedAt other old).toNat =
      state.countSum config processedStart other + (countedAt other new).toNat := by
  have hcount := countP_set (countedAt other) hcall new
  simp only [countSum, setCall, storedAt]
  omega

/-- The sums move only when a count is stored. -/
theorem Move.countSum (hmove : Move config state action next)
    (h : state.Tracked config processedStart)
    (hrunning : next.service.terminated = false) :
    (next.countSum config processedStart = state.countSum config processedStart ∧
        next.counts = state.counts ∧ ∀ tid, action ≠ .storeCount tid) ∨
      ∃ tid bucket amount totalRequests, action = .storeCount tid ∧
        state.calls[tid]? = some (some ⟨bucket, amount, .countLoaded totalRequests⟩) ∧
        next.counts = storeSum (· + ·) state.counts bucket totalRequests 1 ∧
        next.countSum config processedStart =
          addSum (· + ·) (state.countSum config processedStart) bucket 1 := by
  cases hmove with
  | ended hservice hterminated => simp [hterminated] at hrunning
  | @act _ service fresh hfree hfresh hservice =>
      refine Or.inl ⟨funext fun other => ?_, rfl, by simp⟩
      have hstored := (Service.step_move hservice).stored_of_free hfree
      have hcount : fresh.countP (countedAt other) = 0 := by
        rw [List.countP_eq_zero]
        intro call hcall
        simp [hfresh call hcall, countedAt]
      simp only [RacingService.countSum, storedAt, hstored, List.countP_append, hcount,
        Nat.add_zero]
  | loadCount hstoring hidle =>
      exact Or.inl ⟨funext fun other => countSum_setCall config processedStart hidle _ other,
        rfl, by simp⟩
  | loadAmount hcall =>
      exact Or.inl
        ⟨funext fun other => Nat.add_right_cancel
          (countSum_setCall config processedStart hcall _ other), rfl, by simp⟩
  | @storeCount tid bucket amount totalRequests hcall =>
      refine Or.inr ⟨tid, bucket, amount, totalRequests, rfl, hcall, rfl, ?_⟩
      funext other
      have hcount :=
        countSum_setCall config processedStart hcall (some ⟨bucket, amount, .countStored⟩) other
      by_cases hother : other = bucket
      · subst hother
        simp only [countedAt, decide_true, Bool.toNat_true] at hcount
        rw [addSum_self]
        exact hcount
      · rw [addSum_of_ne hother]
        simp only [countedAt, Ne.symm hother, decide_false] at hcount
        exact hcount
  | @storeAmount tid bucket amount totalAmount service hcall hservice =>
      refine Or.inl ⟨funext fun other => ?_, rfl, by simp⟩
      obtain ⟨entry, hbucket, -, hstored, -⟩ := step_store (h.calls _ _ hcall) hservice
      rw [h.regular.start_eq] at hbucket
      have hcount := countP_set (countedAt other) hcall none
      simp only [RacingService.countSum, setCall, storedAt_append hstored, hbucket.iff]
      by_cases hother : bucket = other
      · simp only [countedAt, hother, decide_true, Bool.toNat_false, Bool.toNat_true] at hcount
        simp only [hother, if_true, List.length_append, List.length_singleton]
        omega
      · simp only [countedAt, hother, decide_false, Bool.toNat_false] at hcount
        simp only [hother, if_false]
        omega

theorem Move.countLoads (hmove : Move config state action next) (other : BucketRef)
    (count : Nat) (h : next.countLoads other count) :
    state.countLoads other count ∨
      count = state.held other ∧ ∃ tid, action = .loadCount tid := by
  obtain ⟨amount, totalRequests, hmem, rfl⟩ := h
  obtain ⟨place, hplace⟩ := List.mem_iff_getElem?.mp hmem
  cases hmove with
  | act hfree hfresh hservice =>
      exact Or.inl ⟨amount, _, List.mem_of_getElem? (call_append hfresh hplace), rfl⟩
  | ended hservice => simp at hplace
  | loadCount hstoring hidle =>
      rcases call_set hplace with ⟨-, hnew⟩ | ⟨-, hold⟩
      · cases hnew
        exact Or.inr ⟨rfl, _, rfl⟩
      · exact Or.inl ⟨amount, _, List.mem_of_getElem? hold, rfl⟩
  | storeCount | loadAmount | storeAmount =>
      rcases call_set hplace with ⟨-, hnew⟩ | ⟨-, hold⟩
      · cases hnew
      · exact Or.inl ⟨amount, _, List.mem_of_getElem? hold, rfl⟩

theorem step_tracked (h : state.Tracked config processedStart)
    (hstep : step config state action = some next) :
    next.Tracked config processedStart := by
  have hmove := step_move hstep
  refine ⟨?_, hmove.calls h.calls⟩
  rcases hmove.service with hsame | ⟨serviceAction, hservice⟩
  · exact hsame ▸ h.regular
  · exact Service.step_regular h.regular hservice

theorem initial_tracked (config : Config α) (processedStart : UInt64) :
    (initial config processedStart).Tracked config processedStart where
  regular := Service.initial_regular config processedStart
  calls := by
    intro tid call hcall
    have hnone := (List.mem_replicate.mp (List.mem_of_getElem? hcall)).2
    simp at hnone

/-! ## Counts fall behind -/

theorem Move.fits (hmove : Move config state action next) (hfits : next.Fits) :
    state.Fits := by
  obtain ⟨hrunning, hstores⟩ := hfits
  refine ⟨hmove.running hrunning, lt_of_le_of_lt ?_ hstores⟩
  cases hmove with
  | act hfree hfresh hservice =>
      have hle := (Service.step_move hservice).stored_length_le
      simp only [List.length_append]
      omega
  | ended hservice hterminated => simp [hterminated] at hrunning
  | loadCount | storeCount | loadAmount => simp [setCall]
  | storeAmount hcall hservice =>
      have hle := (Service.step_move hservice).stored_length_le
      simp only [setCall, List.length_set]
      omega

private theorem strictMono_add_one : StrictMono fun value : Nat => value + 1 :=
  fun _ _ hlt => Nat.add_lt_add_right hlt 1

omit [Double α] in
/-- Below `2^64` the counts in memory grow as numbers do. -/
theorem held_storeSum {bucket : BucketRef} {totalRequests : UInt64}
    (hcounts : next.counts = storeSum (· + ·) state.counts bucket totalRequests 1)
    (hlt : totalRequests.toNat + 1 < 2 ^ 64) :
    next.held = storeSum (· + ·) state.held bucket totalRequests.toNat 1 := by
  funext other
  rw [held, hcounts]
  by_cases hother : other = bucket
  · subst hother
    rw [storeSum_self, storeSum_self, UInt64.toNat_add]
    exact Nat.mod_eq_of_lt hlt
  · rw [storeSum_of_ne hother, storeSum_of_ne hother, held]

/-- The counts in memory lag behind the additions made as long as these fit 64 bits. -/
structure Lagging (config : Config α) (processedStart : UInt64) (state : RacingService α) :
    Prop where
  tracked : state.Tracked config processedStart
  lags : state.Fits → Lags state.held (state.countSum config processedStart) state.countLoads

theorem Lagging.loaded_lt (h : state.Lagging config processedStart) (hfits : state.Fits)
    (hnext : next.Fits) {tid : Nat} {bucket : BucketRef} {amount : α}
    {totalRequests : UInt64}
    (hcall : state.calls[tid]? = some (some ⟨bucket, amount, .countLoaded totalRequests⟩))
    (hsum : next.countSum config processedStart =
      addSum (· + ·) (state.countSum config processedStart) bucket 1) :
    state.countLoads bucket totalRequests.toNat ∧ totalRequests.toNat + 1 < 2 ^ 64 := by
  have hload : state.countLoads bucket totalRequests.toNat :=
    ⟨amount, totalRequests, List.mem_of_getElem? hcall, rfl⟩
  have hle := (h.lags hfits).load_le bucket _ hload
  have hlt := hnext.countSum_lt config processedStart bucket
  rw [hsum, addSum_self] at hlt
  exact ⟨hload, by omega⟩

theorem step_lagging (h : state.Lagging config processedStart)
    (hstep : step config state action = some next) :
    next.Lagging config processedStart := by
  have hmove := step_move hstep
  refine ⟨step_tracked h.tracked hstep, fun hnext => ?_⟩
  have hfits := hmove.fits hnext
  rcases hmove.countSum h.tracked hnext.running with
    ⟨hsum, hcounts, -⟩ | ⟨tid, bucket, amount, totalRequests, rfl, hcall, hcounts, hsum⟩
  · have hheld : next.held = state.held := funext fun other => by rw [held, hcounts, held]
    rw [hsum, hheld]
    exact (h.lags hfits).load fun other loaded hload =>
      (hmove.countLoads other loaded hload).imp_right And.left
  · obtain ⟨hload, hlt⟩ := h.loaded_lt hfits hnext hcall hsum
    rw [hsum, held_storeSum hcounts hlt]
    refine ((h.lags hfits).store strictMono_add_one (Nat.lt_succ_self _) hload).load ?_
    intro other loaded hloaded
    rcases hmove.countLoads other loaded hloaded with hold | ⟨-, other, hother⟩
    · exact Or.inl hold
    · cases hother

theorem initial_lagging (config : Config α) (processedStart : UInt64) :
    (initial config processedStart).Lagging config processedStart := by
  refine ⟨initial_tracked config processedStart, fun _ => ?_⟩
  have hloads : ∀ other count, ¬(initial config processedStart).countLoads other count := by
    rintro other count ⟨amount, totalRequests, hmem, -⟩
    have hnone := (List.mem_replicate.mp hmem).2
    simp at hnone
  exact ⟨fun other => Nat.zero_le _, fun other count hload => absurd hload (hloads _ _),
    fun other hload => absurd hload (hloads _ _)⟩

theorem execute_lagging {actions : List (RacingAction α)}
    (hrun : execute (step config) (initial config processedStart) actions = some state) :
    state.Lagging config processedStart :=
  execute_invariant (fun _ _ _ h _ hstep => step_lagging h hstep)
    (initial_lagging config processedStart) (along_true _ _) hrun

theorem Tracked.ledger_bucket (h : state.Tracked config processedStart)
    {processor : ProcessorResult} (hprocessor : processor.IsProcessor)
    (slot : Fin processedCapacity) :
    state.service.ledger.bucket processor slot =
      ⟨UInt64.ofNat (state.storedAt config processedStart ⟨processor, slot⟩).length,
        state.amountSum config processedStart ⟨processor, slot⟩⟩ := by
  have hentries : entriesAt config processedStart state.service.history.stored processor slot =
      state.storedAt config processedStart ⟨processor, slot⟩ := rfl
  rw [h.regular.buckets processor hprocessor slot, hentries, Summary.ofAmounts,
    List.length_map, amountSum]

theorem Tracked.ledger_count (h : state.Tracked config processedStart) (hfits : state.Fits)
    {processor : ProcessorResult} (hprocessor : processor.IsProcessor)
    (slot : Fin processedCapacity) :
    (state.service.ledger.bucket processor slot).totalRequests.toNat =
      (state.storedAt config processedStart ⟨processor, slot⟩).length := by
  have hlt := hfits.countSum_lt config processedStart ⟨processor, slot⟩
  rw [countSum] at hlt
  rw [h.ledger_bucket hprocessor slot, UInt64.toNat_ofNat', Nat.mod_eq_of_lt]
  exact lt_of_le_of_lt (Nat.le_add_right _ _) hlt

/--
Every run with racing stores is a run of the atomic service, and a bucket in memory
never counts more than the atomic one and the calls that are still adding to it.
-/
theorem racing_run_undercounts {actions : List (RacingAction α)}
    (hrun : execute (step config) (initial config processedStart) actions = some state)
    (hfits : state.Fits) :
    (∃ serviceActions, execute (Service.step config) (.initial config processedStart)
      serviceActions = some state.service) ∧
    ∀ processor : ProcessorResult, processor.IsProcessor → ∀ slot,
      (state.summary processor slot).totalRequests.toNat ≤
        (state.service.ledger.bucket processor slot).totalRequests.toNat +
          state.calls.countP (countedAt ⟨processor, slot⟩) := by
  refine ⟨execute_service hrun, fun processor hprocessor slot => ?_⟩
  have hlagging := execute_lagging hrun
  rw [hlagging.tracked.ledger_count hfits hprocessor slot]
  exact (hlagging.lags hfits).cell_le _

/-! ## Lost counts -/

/-- A count is stored over the value that its call loaded. -/
def CountCurrent (bucket : BucketRef) (state : RacingService α) : RacingAction α → Prop
  | .storeCount tid =>
      match state.calls[tid]? with
      | some (some ⟨other, _, .countLoaded totalRequests⟩) =>
          other = bucket → totalRequests = state.counts bucket
      | _ => True
  | _ => True

instance (bucket : BucketRef) (state : RacingService α) (action : RacingAction α) :
    Decidable (CountCurrent bucket state action) := by
  unfold CountCurrent
  split
  · split <;> infer_instance
  · infer_instance

theorem step_count_exact_iff (bucket : BucketRef)
    (h : state.Lagging config processedStart) (hnext : next.Fits)
    (hstep : step config state action = some next) :
    next.held bucket = next.countSum config processedStart bucket ↔
      state.held bucket = state.countSum config processedStart bucket ∧
        CountCurrent bucket state action := by
  have hmove := step_move hstep
  have hfits := hmove.fits hnext
  rcases hmove.countSum h.tracked hnext.running with
    ⟨hsum, hcounts, haction⟩ | ⟨tid, other, amount, totalRequests, rfl, hcall, hcounts, hsum⟩
  · have hcurrent : CountCurrent bucket state action := by
      cases action with
      | storeCount tid => exact absurd rfl (haction tid)
      | _ => trivial
    rw [hsum, held, hcounts, held]
    simp [hcurrent]
  · obtain ⟨hload, hlt⟩ := h.loaded_lt hfits hnext hcall hsum
    rw [hsum, held_storeSum hcounts hlt]
    simp only [CountCurrent, hcall]
    by_cases hother : other = bucket
    · subst hother
      rw [(h.lags hfits).exact_store_iff strictMono_add_one hload, held, UInt64.toNat_inj]
      simp
    · rw [storeSum_of_ne (Ne.symm hother), addSum_of_ne (Ne.symm hother)]
      simp [hother]

/-- At rest a bucket has lost a count exactly when some call stored over a newer one. -/
theorem count_exact_iff {actions : List (RacingAction α)}
    (hrun : execute (step config) (initial config processedStart) actions = some state)
    (hfits : state.Fits) {processor : ProcessorResult} (hprocessor : processor.IsProcessor)
    (slot : Fin processedCapacity) (hrest : state.AtRest ⟨processor, slot⟩) :
    (state.summary processor slot).totalRequests =
        (state.service.ledger.bucket processor slot).totalRequests ↔
      Along (step config) (CountCurrent ⟨processor, slot⟩) (initial config processedStart)
        actions := by
  have hexact := execute_iff_along_of_bound Fits
    (fun _ _ _ hstep hnext => (step_move hstep).fits hnext)
    (fun _ _ _ h _ hstep => step_lagging h hstep)
    (fun _ _ _ h hnext hstep => step_count_exact_iff ⟨processor, slot⟩ h hnext hstep)
    (initial_lagging config processedStart) hfits hrun
  have hstart : (initial config processedStart).held ⟨processor, slot⟩ =
      (initial config processedStart).countSum config processedStart ⟨processor, slot⟩ := by
    simp [initial, held, countSum, storedAt, Service.initial, List.countP_replicate,
      countedAt]
  rw [countSum, hrest.countP_eq_zero, Nat.add_zero,
    ← (execute_lagging hrun).tracked.ledger_count hfits hprocessor slot, held,
    UInt64.toNat_inj] at hexact
  exact hexact.trans (and_iff_right hstart)

/-- Payment 1 goes to the probe, payment 2 to the worker, and Fallback takes both. -/
def probeAndRetry : List (Action Float) :=
  [.post Service.samplePayment.render, .run 1 .tau, .post Service.tenthPayment.render,
    .run 2 .tau, .run 0 (.wall 0), .run 0 .tau, .run 0 (.wall 1000000000), .run 0 .tau,
    .run 0 .tau, .run 0 .tau, .run 0 .tau, .run 3 (.clock 1751328010), .run 3 .tau,
    .run 3 .tau, .run 0 .tau, .run 0 (.wall 1000000000), .run 0 .tau, .run 0 .tau,
    .run 0 (.clock 1751328010), .run 0 .tau, .run 0 .tau, .run 0 (.reply (.ofCurl true 500 1)),
    .run 0 .tau, .run 0 .tau, .run 0 (.reply (.ofCurl true 200 1)), .run 0 .tau,
    .run 3 (.reply (.ofCurl true 200 1)), .run 3 .tau, .run 3 .tau]

/-- The worker loads the count before the probe stores it. -/
def overlappingStores : List (RacingAction Float) :=
  probeAndRetry.map .act ++
    [.loadCount 3, .loadCount 0, .storeCount 3, .storeCount 0, .loadAmount 3, .storeAmount 3,
      .loadAmount 0, .storeAmount 0]

def overlapped : Option (RacingService Float) :=
  execute (step twoProcessors) (initial twoProcessors 1751328000) overlappingStores

theorem overlapped_isSome : overlapped.isSome = true := by decide +kernel

theorem overlapped_fits : (overlapped.get overlapped_isSome).Fits :=
  ⟨by decide +kernel, by decide +kernel⟩

theorem racing_run_undercounts_overlapped :
    let state := overlapped.get overlapped_isSome
    let slot : Fin processedCapacity := ⟨10, by decide⟩
    (∃ serviceActions, execute (Service.step twoProcessors)
        (.initial twoProcessors 1751328000) serviceActions = some state.service) ∧
      (state.summary .fallback slot).totalRequests.toNat ≤
        (state.service.ledger.bucket .fallback slot).totalRequests.toNat +
          state.calls.countP (countedAt ⟨.fallback, slot⟩) ∧
      (state.service.ledger.bucket .fallback slot).totalRequests = 2 := by
  obtain ⟨hservice, hcounts⟩ :=
    racing_run_undercounts (Option.some_get overlapped_isSome).symm overlapped_fits
  exact ⟨hservice, hcounts .fallback (Or.inr rfl) ⟨10, by decide⟩, by decide +kernel⟩

theorem count_exact_iff_overlapped :
    let state := overlapped.get overlapped_isSome
    let slot : Fin processedCapacity := ⟨10, by decide⟩
    (state.summary .fallback slot).totalRequests = 1 ∧
      (state.service.ledger.bucket .fallback slot).totalRequests = 2 ∧
      ¬Along (step twoProcessors) (CountCurrent ⟨.fallback, slot⟩)
        (initial twoProcessors 1751328000) overlappingStores := by
  intro state slot
  have hcount : (state.summary .fallback slot).totalRequests = 1 := by decide +kernel
  have hstored : (state.service.ledger.bucket .fallback slot).totalRequests = 2 := by
    decide +kernel
  have hrest : state.AtRest ⟨.fallback, slot⟩ := by decide +kernel
  refine ⟨hcount, hstored, fun halong => ?_⟩
  have hexact := (count_exact_iff (Option.some_get overlapped_isSome).symm overlapped_fits
    (Or.inr rfl) slot hrest).mpr halong
  exact absurd (hcount.symm.trans (hexact.trans hstored)) (by decide)

/-! ## Stores that stay apart -/

theorem Move.amountSum (hmove : Move config state action next)
    (h : state.Tracked config processedStart)
    (hrunning : next.service.terminated = false) :
    (next.amountSum config processedStart = state.amountSum config processedStart ∧
        next.amounts = state.amounts) ∨
      ∃ tid bucket amount totalAmount, action = .storeAmount tid ∧
        state.calls[tid]? = some (some ⟨bucket, amount, .amountLoaded totalAmount⟩) ∧
        next.amounts = storeSum Double.add state.amounts bucket totalAmount amount ∧
        next.amountSum config processedStart =
          addSum Double.add (state.amountSum config processedStart) bucket amount := by
  cases hmove with
  | act hfree hfresh hservice =>
      refine Or.inl ⟨funext fun other => ?_, rfl⟩
      simp only [RacingService.amountSum, storedAt,
        (Service.step_move hservice).stored_of_free hfree]
  | ended hservice hterminated => simp [hterminated] at hrunning
  | loadCount | storeCount | loadAmount => exact Or.inl ⟨rfl, rfl⟩
  | @storeAmount tid bucket amount totalAmount service hcall hservice =>
      refine Or.inr ⟨tid, bucket, amount, totalAmount, rfl, hcall, rfl, ?_⟩
      funext other
      obtain ⟨entry, hbucket, hamount, hstored, -⟩ := step_store (h.calls _ _ hcall) hservice
      rw [h.regular.start_eq] at hbucket
      simp only [RacingService.amountSum, setCall, storedAt_append hstored, hbucket.iff]
      by_cases hother : other = bucket
      · subst hother
        simp [addSum_self, RacingService.amountSum, hamount]
      · rw [addSum_of_ne hother, if_neg (Ne.symm hother)]
        rfl

/-- What became of the call of one thread. -/
theorem Move.call_cases (hmove : Move config state action next) {other : Nat}
    {call : OpenStore α} (hcall : next.calls[other]? = some (some call)) :
    (state.calls[other]? = some (some call) ∧ action ≠ .storeCount other ∧
        action ≠ .storeAmount other) ∨
      (action = .loadCount other ∧ state.calls[other]? = some none ∧
        call.phase = .countLoaded (state.counts call.bucket) ∧
        storing config state.service other = some (call.bucket, call.amount)) ∨
      ∃ old, state.calls[other]? = some (some old) ∧ old.bucket = call.bucket ∧
        (call.phase = .countStored ∨
          action = .loadAmount other ∧
            call.phase = .amountLoaded (state.amounts call.bucket)) := by
  cases hmove with
  | act hfree hfresh hservice => exact Or.inl ⟨call_append hfresh hcall, by simp, by simp⟩
  | ended hservice => simp at hcall
  | loadCount hstoring hidle =>
      rcases call_set hcall with ⟨rfl, hnew⟩ | ⟨-, hold⟩
      · cases hnew
        exact Or.inr (Or.inl ⟨rfl, hidle, rfl, hstoring⟩)
      · exact Or.inl ⟨hold, by simp, by simp⟩
  | storeCount hloaded =>
      rcases call_set hcall with ⟨rfl, hnew⟩ | ⟨hne, hold⟩
      · cases hnew
        exact Or.inr (Or.inr ⟨_, hloaded, rfl, Or.inl rfl⟩)
      · exact Or.inl ⟨hold, by simp [Ne.symm hne], by simp⟩
  | loadAmount hloaded =>
      rcases call_set hcall with ⟨rfl, hnew⟩ | ⟨-, hold⟩
      · cases hnew
        exact Or.inr (Or.inr ⟨_, hloaded, rfl, Or.inr ⟨rfl, rfl⟩⟩)
      · exact Or.inl ⟨hold, by simp, by simp⟩
  | storeAmount hloaded hservice =>
      rcases call_set hcall with ⟨rfl, hnew⟩ | ⟨hne, hold⟩
      · simp at hnew
      · exact Or.inl ⟨hold, by simp, by simp [Ne.symm hne]⟩

/-- A call on the bucket begins only when no other one is open. -/
def Apart (config : Config α) (bucket : BucketRef) (state : RacingService α) :
    RacingAction α → Prop
  | .loadCount tid => ∀ amount, state.calls[tid]? = some none →
      storing config state.service tid = some (bucket, amount) → state.AtRest bucket
  | _ => True

/-- What the call loaded is still there. -/
def Current (totalRequests : UInt64) (totalAmount : α) : StorePhase α → Prop
  | .countLoaded loaded => loaded = totalRequests
  | .countStored => True
  | .amountLoaded loaded => loaded = totalAmount

structure Alone (config : Config α) (processedStart : UInt64) (bucket : BucketRef)
    (state : RacingService α) : Prop where
  tracked : state.Tracked config processedStart
  single : ∀ (tid tid' : Nat) (call call' : OpenStore α),
    state.calls[tid]? = some (some call) → state.calls[tid']? = some (some call') →
    call.bucket = bucket → call'.bucket = bucket → tid = tid'
  current : ∀ (tid : Nat) (call : OpenStore α), state.calls[tid]? = some (some call) →
    call.bucket = bucket → Current (state.counts bucket) (state.amounts bucket) call.phase
  counts : state.service.terminated = false →
    state.counts bucket = UInt64.ofNat (state.countSum config processedStart bucket)
  amounts : state.service.terminated = false →
    state.amounts bucket = state.amountSum config processedStart bucket

theorem Alone.single_step (h : state.Alone config processedStart bucket)
    (hapart : Apart config bucket state action) (hmove : Move config state action next) :
    ∀ (tid tid' : Nat) (call call' : OpenStore α),
      next.calls[tid]? = some (some call) → next.calls[tid']? = some (some call') →
      call.bucket = bucket → call'.bucket = bucket → tid = tid' := by
  -- A call on the bucket was open before, or it begins now and no other one was open.
  have hcases : ∀ (tid : Nat) (call : OpenStore α), next.calls[tid]? = some (some call) →
      call.bucket = bucket →
      (∃ old, state.calls[tid]? = some (some old) ∧ old.bucket = bucket) ∨
        (action = .loadCount tid ∧ state.AtRest bucket) := by
    intro tid call hcall hbucket
    rcases hmove.call_cases hcall with
      ⟨hold, -⟩ | ⟨rfl, hidle, -, hstoring⟩ | ⟨old, hold, hsame, -⟩
    · exact Or.inl ⟨call, hold, hbucket⟩
    · exact Or.inr ⟨rfl, hapart call.amount hidle (hbucket ▸ hstoring)⟩
    · exact Or.inl ⟨old, hold, hsame.trans hbucket⟩
  intro tid tid' call call' hcall hcall' hbucket hbucket'
  rcases hcases tid call hcall hbucket with ⟨old, hold, hat⟩ | ⟨hload, hrest⟩
  · rcases hcases tid' call' hcall' hbucket' with ⟨old', hold', hat'⟩ | ⟨-, hrest⟩
    · exact h.single tid tid' old old' hold hold' hat hat'
    · exact absurd hat (hrest.bucket_ne hold)
  · rcases hcases tid' call' hcall' hbucket' with ⟨old', hold', hat'⟩ | ⟨hload', -⟩
    · exact absurd hat' (hrest.bucket_ne hold')
    · rw [hload] at hload'
      cases hload'
      rfl

theorem Move.counts_kept (hmove : Move config state action next) (bucket : BucketRef)
    (h : ∀ (tid : Nat) (call : OpenStore α), action = .storeCount tid →
      state.calls[tid]? = some (some call) → call.bucket ≠ bucket) :
    next.counts bucket = state.counts bucket := by
  cases hmove with
  | storeCount hcall => exact storeSum_of_ne (Ne.symm (h _ _ rfl hcall))
  | _ => rfl

theorem Move.amounts_kept (hmove : Move config state action next) (bucket : BucketRef)
    (h : ∀ (tid : Nat) (call : OpenStore α), action = .storeAmount tid →
      state.calls[tid]? = some (some call) → call.bucket ≠ bucket) :
    next.amounts bucket = state.amounts bucket := by
  cases hmove with
  | storeAmount hcall hservice => exact storeSum_of_ne (Ne.symm (h _ _ rfl hcall))
  | _ => rfl

theorem Alone.current_step (h : state.Alone config processedStart bucket)
    (hmove : Move config state action next) (tid : Nat) (call : OpenStore α)
    (hcall : next.calls[tid]? = some (some call)) (hbucket : call.bucket = bucket) :
    Current (next.counts bucket) (next.amounts bucket) call.phase := by
  rcases hmove.call_cases hcall with
    ⟨hold, hcount, hamount⟩ | ⟨rfl, -, hphase, -⟩ | ⟨old, -, -, hphase | ⟨rfl, hphase⟩⟩
  · -- Only the one call on the bucket can store there.
    have hcounts := hmove.counts_kept bucket fun other call' haction hcall' hat =>
      hcount (haction.trans (by rw [h.single other tid call' call hcall' hold hat hbucket]))
    have hamounts := hmove.amounts_kept bucket fun other call' haction hcall' hat =>
      hamount (haction.trans (by rw [h.single other tid call' call hcall' hold hat hbucket]))
    rw [hcounts, hamounts]
    exact h.current tid call hold hbucket
  · rw [hphase, hbucket, hmove.counts_kept bucket (by simp)]
    exact rfl
  · rw [hphase]
    trivial
  · rw [hphase, hbucket, hmove.amounts_kept bucket (by simp)]
    exact rfl

theorem Alone.counts_step (h : state.Alone config processedStart bucket)
    (hmove : Move config state action next) (hrunning : next.service.terminated = false) :
    next.counts bucket = UInt64.ofNat (next.countSum config processedStart bucket) := by
  have hbefore := h.counts (hmove.running hrunning)
  rcases hmove.countSum h.tracked hrunning with
    ⟨hsum, hcounts, -⟩ | ⟨tid, other, amount, totalRequests, -, hcall, hcounts, hsum⟩
  · rw [hsum, hcounts, hbefore]
  · rw [hsum, hcounts]
    by_cases hother : bucket = other
    · subst hother
      obtain rfl : totalRequests = state.counts bucket := h.current tid _ hcall rfl
      rw [storeSum_self, addSum_self, hbefore, UInt64.ofNat_add]
      rfl
    · rw [storeSum_of_ne hother, addSum_of_ne hother, hbefore]

theorem Alone.amounts_step (h : state.Alone config processedStart bucket)
    (hmove : Move config state action next) (hrunning : next.service.terminated = false) :
    next.amounts bucket = next.amountSum config processedStart bucket := by
  have hbefore := h.amounts (hmove.running hrunning)
  rcases hmove.amountSum h.tracked hrunning with
    ⟨hsum, hamounts⟩ | ⟨tid, other, amount, totalAmount, -, hcall, hamounts, hsum⟩
  · rw [hsum, hamounts, hbefore]
  · rw [hsum, hamounts]
    by_cases hother : bucket = other
    · subst hother
      exact storeSum_current hbefore (h.current tid _ hcall rfl)
    · rw [storeSum_of_ne hother, addSum_of_ne hother, hbefore]

theorem step_alone (h : state.Alone config processedStart bucket)
    (hapart : Apart config bucket state action)
    (hstep : step config state action = some next) :
    next.Alone config processedStart bucket := by
  have hmove := step_move hstep
  exact ⟨step_tracked h.tracked hstep, h.single_step hapart hmove, h.current_step hmove,
    h.counts_step hmove, h.amounts_step hmove⟩

theorem initial_alone (config : Config α) (processedStart : UInt64) (bucket : BucketRef) :
    (initial config processedStart).Alone config processedStart bucket := by
  have hnone : ∀ (tid : Nat) (call : OpenStore α),
      (initial config processedStart).calls[tid]? ≠ some (some call) := by
    intro tid call hcall
    have hcall := (List.mem_replicate.mp (List.mem_of_getElem? hcall)).2
    simp at hcall
  refine ⟨initial_tracked config processedStart, fun tid _ call _ hcall => ?_,
    fun tid call hcall => ?_, fun _ => ?_, fun _ => rfl⟩
  · exact absurd hcall (hnone tid call)
  · exact absurd hcall (hnone tid call)
  · simp [initial, countSum, storedAt, Service.initial, List.countP_replicate, countedAt]

theorem summary_of_apart {actions : List (RacingAction α)} {processor : ProcessorResult}
    (hprocessor : processor.IsProcessor) {slot : Fin processedCapacity}
    (hapart : Along (step config) (Apart config ⟨processor, slot⟩)
      (initial config processedStart) actions)
    (hrun : execute (step config) (initial config processedStart) actions = some state)
    (hrunning : state.service.terminated = false) (hrest : state.AtRest ⟨processor, slot⟩) :
    state.summary processor slot = state.service.ledger.bucket processor slot := by
  have halone := execute_invariant (fun _ _ _ h hguard hstep => step_alone h hguard hstep)
    (initial_alone config processedStart ⟨processor, slot⟩) hapart hrun
  rw [halone.tracked.ledger_bucket hprocessor slot, summary, halone.counts hrunning,
    halone.amounts hrunning, countSum, hrest.countP_eq_zero, Nat.add_zero]

/-! ## One worker -/

/-- Only the worker, thread 0, makes calls. -/
structure Solo (config : Config α) (processedStart : UInt64) (state : RacingService α) :
    Prop where
  tracked : state.Tracked config processedStart
  direct : state.service.Direct
  worker : state.service.terminated = false → 0 < state.service.threads.length
  seated : TimedService.Seated state.service.threads

theorem Solo.storing_worker (h : state.Solo config processedStart) {tid : Nat}
    {bucket : BucketRef} {amount : α}
    (hstoring : storing config state.service tid = some (bucket, amount)) : tid = 0 := by
  obtain ⟨thread, payment, draft, sent, processor, hthread, hpc, -⟩ := storing_spec hstoring
  have hpool := (h.direct.threads thread (List.mem_of_getElem? hthread)).pool
  exact (h.seated.role hthread hpc).mpr hpool

theorem Solo.apart (h : state.Solo config processedStart) (bucket : BucketRef)
    (action : RacingAction α) : Apart config bucket state action := by
  cases action with
  | loadCount tid =>
      intro amount hidle hstoring call hcall store hstore
      obtain rfl := h.storing_worker hstoring
      obtain ⟨other, hother⟩ := List.mem_iff_getElem?.mp hcall
      rw [Option.mem_def.mp hstore] at hother
      obtain rfl := h.storing_worker (h.tracked.calls other store hother)
      rw [hidle] at hother
      simp at hother
  | _ => trivial

theorem step_solo (hdisabled : config.fallbackEnabled = false)
    (h : state.Solo config processedStart) (hstep : step config state action = some next) :
    next.Solo config processedStart := by
  have htracked := step_tracked h.tracked hstep
  rcases (step_move hstep).service with hsame | ⟨serviceAction, hservice⟩
  · exact ⟨htracked, hsame ▸ h.direct, hsame ▸ h.worker, hsame ▸ h.seated⟩
  · have hmove := Service.step_move hservice
    have hworker := h.worker (Service.running_of_step hservice)
    exact ⟨htracked, hmove.direct hdisabled h.direct,
      fun hrunning => hworker.trans_le (TimedService.threads_length_move hmove hrunning),
      TimedService.seated_move hmove hworker h.seated⟩

theorem initial_solo (hworkers : config.workerCount = 1) (processedStart : UInt64) :
    (initial config processedStart).Solo config processedStart := by
  have hsound := TimedService.initial_sound hworkers processedStart 0
  exact ⟨initial_tracked config processedStart, Service.initial_direct config processedStart,
    hsound.worker, hsound.seated⟩

/-- With one worker and no fallback the memory is that of the atomic service. -/
theorem one_worker_exact {actions : List (RacingAction α)}
    (hworkers : config.workerCount = 1) (hdisabled : config.fallbackEnabled = false)
    (hrun : execute (step config) (initial config processedStart) actions = some state)
    (hrunning : state.service.terminated = false)
    {processor : ProcessorResult} (hprocessor : processor.IsProcessor)
    (slot : Fin processedCapacity) (hrest : state.AtRest ⟨processor, slot⟩) :
    state.summary processor slot = state.service.ledger.bucket processor slot := by
  refine summary_of_apart hprocessor ?_ hrun hrunning hrest
  exact along_of_invariant (fun _ _ _ h hstep => step_solo hdisabled h hstep)
    (fun _ action h => h.apart _ action) (initial_solo hworkers processedStart) actions

/-- The store of the settled payment, in its four steps. -/
def settledStores : List (RacingAction Float) :=
  (Service.settle 1751328010 (.ofCurl true 200 1)).dropLast.map .act ++
    [.loadCount 0, .storeCount 0, .loadAmount 0, .storeAmount 0]

def settledAlone : Option (RacingService Float) :=
  execute (step (singleWorker Float)) (initial (singleWorker Float) 1751328000) settledStores

theorem settledAlone_isSome : settledAlone.isSome = true := by decide +kernel

theorem one_worker_exact_settled :
    let state := settledAlone.get settledAlone_isSome
    (state.service.ledger.bucket .default ⟨10, by decide⟩).totalRequests = 1 ∧
      state.summary .default ⟨10, by decide⟩ =
        state.service.ledger.bucket .default ⟨10, by decide⟩ :=
  ⟨by decide +kernel,
    one_worker_exact rfl rfl (Option.some_get settledAlone_isSome).symm (by decide +kernel)
      (Or.inl rfl) ⟨10, by decide⟩ (by decide +kernel)⟩

end RacingService

end RinhaBackend
