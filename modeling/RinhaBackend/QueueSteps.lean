import RinhaBackend.Foundation.Execution
import RinhaBackend.Queue

/-!
# Queue operations step by step

`q.tail++` is a load and a store, and the slot is written after the new tail is
visible; `fetch_next` compares the counters, advances the head and then reads the
slot.  The counters are plain `size_t` fields, so the threads that share a queue may
move between any two of these steps.  The queue keeps its promise in the runs in which
no two calls hold the same tail, no slot is read before it is written and no slot is
written while an older payment is still to be read from it.
-/

namespace RinhaBackend

open Foundation

/-- The threads that call `enqueue`; the worker of the queue is also its only reader. -/
inductive Caller where
  | http (id : Nat)
  | worker
  | fallbackPool (id : Nat)
  deriving DecidableEq

inductive EnqueuePc where
  | entered
  | loaded (pos : UInt64)
  | published (pos : UInt64)
  | done (pos : UInt64)
  deriving DecidableEq

structure EnqueueCall (Item : Type) where
  caller : Caller
  item : Item
  pc : EnqueuePc

inductive FetchPc where
  | idle
  | claiming
  | reading (idx : UInt64)
  deriving DecidableEq

/-- A queue with the calls made on it, and the payments its worker has fetched. -/
structure StepQueue (Item : Type) where
  q : WorkerQueue Item
  calls : List (EnqueueCall Item)
  fetch : FetchPc
  outputs : List Item

inductive QueueAction (Item : Type) where
  | call (caller : Caller) (item : Item)
  | advance (index : Nat)
  | fetch

variable {Item : Type}

def EnqueuePc.isDone : EnqueuePc → Bool
  | .done _ => true
  | _ => false

def EnqueuePc.isLoaded : EnqueuePc → Bool
  | .loaded _ => true
  | _ => false

def FetchPc.pending : FetchPc → Option UInt64
  | .reading idx => some idx
  | _ => none

/-- The position a call holds, from its load of `tail` on. -/
def EnqueuePc.position : EnqueuePc → Option Nat
  | .entered => none
  | .loaded pos | .published pos | .done pos => some pos.toNat

namespace EnqueueCall

def advance (q : WorkerQueue Item) (call : EnqueueCall Item) :
    Option (WorkerQueue Item × EnqueuePc) :=
  match call.pc with
  | .entered => some (q, .loaded q.tail)
  | .loaded pos => some ({ q with tail := pos + 1 }, .published pos)
  | .published pos =>
      some ({ q with queue := Function.update q.queue (pos.toNat % q.size) call.item },
        .done pos)
  | .done _ => none

def isOpenFor (caller : Caller) (call : EnqueueCall Item) : Bool :=
  decide (call.caller = caller) && !call.pc.isDone

end EnqueueCall

namespace StepQueue

def initial (size : Nat) (filler : Item) : StepQueue Item :=
  ⟨.initial size filler, [], .idle, []⟩

def busy (state : StepQueue Item) (caller : Caller) : Bool :=
  state.calls.any fun call => call.isOpenFor caller

def fetchStep (state : StepQueue Item) : StepQueue Item :=
  match state.fetch with
  | .idle =>
      if state.q.head ≥ state.q.tail then state else { state with fetch := .claiming }
  | .claiming =>
      { state with
        q := { state.q with head := state.q.head + 1 }
        fetch := .reading state.q.head }
  | .reading idx =>
      { state with
        fetch := .idle
        outputs := state.outputs ++ [state.q.queue (idx.toNat % state.q.size)] }

/-- One step of one thread; a thread finishes its call before it begins another. -/
def step (state : StepQueue Item) : QueueAction Item → Option (StepQueue Item)
  | .call caller item =>
      if state.busy caller || (decide (caller = .worker) && decide (state.fetch ≠ .idle)) then
        none
      else some { state with calls := state.calls ++ [⟨caller, item, .entered⟩] }
  | .advance index =>
      match state.calls[index]? with
      | none => none
      | some call =>
          match call.advance state.q with
          | none => none
          | some (q, pc) =>
              some { state with q, calls := state.calls.set index { call with pc } }
  | .fetch => if state.busy .worker then none else some state.fetchStep

/-! ## Uninterrupted operations -/

theorem enqueue_uninterrupted (state : StepQueue Item) {index : Nat}
    {call : EnqueueCall Item} (hcall : state.calls[index]? = some call)
    (hpc : call.pc = .entered) :
    execute step state (List.replicate 3 (.advance index)) =
      some { state with
        q := state.q.enqueue call.item
        calls := state.calls.set index { call with pc := .done state.q.tail } } := by
  simp [List.replicate, execute, step, hcall, EnqueueCall.advance, hpc,
    getElem?_set_of_getElem? hcall, WorkerQueue.enqueue]

theorem fetch_uninterrupted (state : StepQueue Item) (hworker : state.busy .worker = false)
    (hidle : state.fetch = .idle) {item : Item} {q : WorkerQueue Item}
    (hfetch : state.q.fetchNext true = some (item, q)) :
    execute step state (List.replicate 3 .fetch) =
      some { state with q, outputs := state.outputs ++ [item] } := by
  simp only [WorkerQueue.fetchNext] at hfetch
  split_ifs at hfetch with hempty
  simp only [Bool.not_true, Bool.false_or, decide_eq_true_eq] at hempty
  simp only [Option.some.injEq, Prod.mk.injEq] at hfetch
  obtain ⟨rfl, rfl⟩ := hfetch
  simp only [busy] at hworker
  simp [List.replicate, execute, step, busy, hworker, fetchStep, hidle, hempty]

/-! ## Steps that keep the queue's promise -/

/--
`tail` is loaded only while no other call is between its load and its store; a
store keeps the queue within its capacity and the counter within its type; a slot is
written only when no older payment is still to be read from it, and read only when
the call that holds its position has written it.
-/
def Admits (state : StepQueue Item) : EnqueuePc → Prop
  | .entered => ∀ other ∈ state.calls, other.pc.isLoaded = false
  | .loaded _ =>
      state.q.tail.toNat + 1 ≤ state.q.head.toNat + state.q.size ∧
        state.q.tail.toNat + 1 < 2 ^ 64
  | .published pos => ∀ idx ∈ state.fetch.pending, idx ≠ pos →
      idx.toNat % state.q.size ≠ pos.toNat % state.q.size
  | .done _ => True

def Admissible (state : StepQueue Item) : QueueAction Item → Prop
  | .call _ _ => True
  | .advance index => ∀ call ∈ state.calls[index]?, state.Admits call.pc
  | .fetch => ∀ idx ∈ state.fetch.pending, ∃ call ∈ state.calls, call.pc = .done idx

instance (state : StepQueue Item) (pc : EnqueuePc) : Decidable (state.Admits pc) :=
  match pc with
  | .entered => inferInstanceAs (Decidable (∀ other ∈ state.calls, _))
  | .loaded _ => inferInstanceAs (Decidable (_ ∧ _))
  | .published _ => Option.decidableForallMem state.fetch.pending
  | .done _ => .isTrue trivial

instance (state : StepQueue Item) (action : QueueAction Item) :
    Decidable (state.Admissible action) :=
  match action with
  | .call _ _ => .isTrue trivial
  | .advance index => inferInstanceAs (Decidable (∀ call ∈ state.calls[index]?, _))
  | .fetch => Option.decidableForallMem state.fetch.pending

/-- What a step does to the queue, the calls and the fetch. -/
inductive Move (state : StepQueue Item) : QueueAction Item → StepQueue Item → Prop
  | call {caller : Caller} {item : Item} :
      Move state (.call caller item)
        { state with calls := state.calls ++ [⟨caller, item, .entered⟩] }
  | load {index : Nat} {call : EnqueueCall Item}
      (hcall : state.calls[index]? = some call) (hpc : call.pc = .entered) :
      Move state (.advance index)
        { state with calls := state.calls.set index { call with pc := .loaded state.q.tail } }
  | publish {index : Nat} {call : EnqueueCall Item} {pos : UInt64}
      (hcall : state.calls[index]? = some call) (hpc : call.pc = .loaded pos) :
      Move state (.advance index)
        { state with
          q := { state.q with tail := pos + 1 }
          calls := state.calls.set index { call with pc := .published pos } }
  | write {index : Nat} {call : EnqueueCall Item} {pos : UInt64}
      (hcall : state.calls[index]? = some call) (hpc : call.pc = .published pos) :
      Move state (.advance index)
        { state with
          q := { state.q with
            queue := Function.update state.q.queue (pos.toNat % state.q.size) call.item }
          calls := state.calls.set index { call with pc := .done pos } }
  | miss : Move state .fetch state
  | compare (hidle : state.fetch = .idle)
      (hwaiting : state.q.head.toNat < state.q.tail.toNat) :
      Move state .fetch { state with fetch := .claiming }
  | claim (hclaiming : state.fetch = .claiming) :
      Move state .fetch
        { state with
          q := { state.q with head := state.q.head + 1 }
          fetch := .reading state.q.head }
  | read {idx : UInt64} (hreading : state.fetch = .reading idx) :
      Move state .fetch
        { state with
          fetch := .idle
          outputs := state.outputs ++ [state.q.queue (idx.toNat % state.q.size)] }

variable {state next : StepQueue Item} {action : QueueAction Item}

theorem step_move (h : step state action = some next) : Move state action next := by
  cases action with
  | call caller item =>
      simp only [step] at h
      split at h
      · simp at h
      · cases h
        exact .call
  | advance index =>
      simp only [step] at h
      cases hcall : state.calls[index]? with
      | none => simp [hcall] at h
      | some call =>
          simp only [hcall, EnqueueCall.advance] at h
          cases hpc : call.pc with
          | entered =>
              simp only [hpc] at h
              cases h
              exact .load hcall hpc
          | loaded pos =>
              simp only [hpc] at h
              cases h
              exact .publish hcall hpc
          | published pos =>
              simp only [hpc] at h
              cases h
              exact .write hcall hpc
          | done pos => simp [hpc] at h
  | fetch =>
      simp only [step] at h
      split at h
      · simp at h
      · cases h
        unfold fetchStep
        split
        case h_1 hidle =>
            split_ifs with hempty
            · exact .miss
            · rw [ge_iff_le, UInt64.le_iff_toNat_le] at hempty
              exact .compare hidle (by omega)
        case h_2 hclaiming => exact .claim hclaiming
        case h_3 hreading => exact .read hreading

/-! ## Positions and slots -/

/-- A call's position is its own, and its slot holds its payment until it is read. -/
def Placed (q : WorkerQueue Item) (outputs : List Item) (call : EnqueueCall Item) : Prop :=
  match call.pc with
  | .entered => True
  | .loaded pos => pos = q.tail
  | .published pos => outputs.length ≤ pos.toNat ∧ pos.toNat < q.tail.toNat
  | .done pos =>
      pos.toNat < q.tail.toNat ∧
        (outputs.length ≤ pos.toNat → q.queue (pos.toNat % q.size) = call.item) ∧
        ∀ item ∈ outputs[pos.toNat]?, item = call.item

def Reading (state : StepQueue Item) : Prop :=
  match state.fetch with
  | .idle => state.outputs.length = state.q.head.toNat
  | .claiming =>
      state.outputs.length = state.q.head.toNat ∧
        state.q.head.toNat < state.q.tail.toNat
  | .reading idx =>
      state.outputs.length = idx.toNat ∧ state.q.head.toNat = idx.toNat + 1

/-- A slot about to be read has not been written for a later position. -/
def Unspoiled (state : StepQueue Item) : Prop :=
  ∀ idx ∈ state.fetch.pending, ∀ call ∈ state.calls, ∀ pos, call.pc = .done pos →
    idx ≠ pos → state.outputs.length ≤ pos.toNat →
    idx.toNat % state.q.size ≠ pos.toNat % state.q.size

def Distinct (calls : List (EnqueueCall Item)) : Prop :=
  ∀ (i j : Nat) (first second : EnqueueCall Item), calls[i]? = some first →
    calls[j]? = some second → first.pc.position.isSome = true →
    first.pc.position = second.pc.position → i = j

structure Sound (state : StepQueue Item) : Prop where
  size_pos : 0 < state.q.size
  ordered : state.q.head.toNat ≤ state.q.tail.toNat
  fits : state.q.tail.toNat ≤ state.q.head.toNat + state.q.size
  placed : ∀ call ∈ state.calls, Placed state.q state.outputs call
  covered : ∀ pos < state.q.tail.toNat, ∃ call ∈ state.calls,
    call.pc.isLoaded = false ∧ call.pc.position = some pos
  distinct : Distinct state.calls
  reading : state.Reading
  unspoiled : state.Unspoiled

theorem initial_sound {size : Nat} (hsize : 0 < size) (filler : Item) :
    (initial size filler).Sound where
  size_pos := hsize
  ordered := le_rfl
  fits := Nat.zero_le _
  placed := by simp [initial]
  covered := by simp [initial, WorkerQueue.initial]
  distinct := by simp [Distinct, initial]
  reading := rfl
  unspoiled := by simp [Unspoiled, initial]

section Positions

variable (h : state.Sound) {call : EnqueueCall Item} (hcall : call ∈ state.calls)
variable {pos idx : UInt64}

include h

theorem Sound.of_idle (hidle : state.fetch = .idle) :
    state.outputs.length = state.q.head.toNat := by
  simpa only [Reading, hidle] using h.reading

theorem Sound.of_claiming (hclaiming : state.fetch = .claiming) :
    state.outputs.length = state.q.head.toNat ∧
      state.q.head.toNat < state.q.tail.toNat := by
  simpa only [Reading, hclaiming] using h.reading

theorem Sound.of_reading (hreading : state.fetch = .reading idx) :
    state.outputs.length = idx.toNat ∧ state.q.head.toNat = idx.toNat + 1 := by
  simpa only [Reading, hreading] using h.reading

theorem Sound.outputs_le_head : state.outputs.length ≤ state.q.head.toNat := by
  have hreading := h.reading
  unfold Reading at hreading
  split at hreading <;> omega

include hcall

theorem Sound.of_loaded (hpc : call.pc = .loaded pos) : pos = state.q.tail := by
  simpa only [Placed, hpc] using h.placed call hcall

theorem Sound.of_published (hpc : call.pc = .published pos) :
    state.outputs.length ≤ pos.toNat ∧ pos.toNat < state.q.tail.toNat := by
  simpa only [Placed, hpc] using h.placed call hcall

theorem Sound.of_done (hpc : call.pc = .done pos) :
    pos.toNat < state.q.tail.toNat ∧
      (state.outputs.length ≤ pos.toNat →
        state.q.queue (pos.toNat % state.q.size) = call.item) ∧
      ∀ item ∈ state.outputs[pos.toNat]?, item = call.item := by
  simpa only [Placed, hpc] using h.placed call hcall

end Positions

/-! ### Lists of calls -/

section Calls

variable {calls : List (EnqueueCall Item)} {index : Nat} {call new : EnqueueCall Item}

theorem Distinct.append_entered (h : Distinct calls) (hnew : new.pc = .entered) :
    Distinct (calls ++ [new]) := by
  intro i j first second hfirst hsecond hsome hposition
  rw [List.getElem?_append] at hfirst hsecond
  split_ifs at hfirst with hi
  · split_ifs at hsecond with hj
    · exact h i j first second hfirst hsecond hsome hposition
    · have hmem := List.mem_of_getElem? hsecond
      rw [List.mem_singleton] at hmem
      rw [hposition, hmem, hnew] at hsome
      simp [EnqueuePc.position] at hsome
  · have hmem := List.mem_of_getElem? hfirst
    rw [List.mem_singleton] at hmem
    rw [hmem, hnew] at hsome
    simp [EnqueuePc.position] at hsome

theorem Distinct.set (h : Distinct calls)
    (hnew : ∀ (i : Nat) (other : EnqueueCall Item), i ≠ index → calls[i]? = some other →
      new.pc.position.isSome = true → new.pc.position ≠ other.pc.position) :
    Distinct (calls.set index new) := by
  intro i j first second hfirst hsecond hsome hposition
  rw [List.getElem?_set] at hfirst hsecond
  split_ifs at hfirst with hi
  · split_ifs at hsecond with hj
    · exact hi.symm.trans hj
    · cases hfirst
      exact absurd hposition (hnew j second (Ne.symm hj) hsecond hsome)
  · split_ifs at hsecond with hj
    · cases hsecond
      exact absurd hposition.symm
        (hnew i first (Ne.symm hi) hfirst (hposition ▸ hsome))
    · exact h i j first second hfirst hsecond hsome hposition

theorem Distinct.set_same (h : Distinct calls) (hcall : calls[index]? = some call)
    (hposition : new.pc.position = call.pc.position) : Distinct (calls.set index new) := by
  apply h.set
  intro i other hi hother hsome hsame
  rw [hposition] at hsome hsame
  exact hi (h index i call other hcall hother hsome hsame).symm

theorem Distinct.eq_of_position (h : Distinct calls) {first second : EnqueueCall Item}
    (hfirst : first ∈ calls) (hsecond : second ∈ calls)
    (hsome : first.pc.position.isSome = true)
    (hposition : first.pc.position = second.pc.position) : first = second := by
  obtain ⟨i, hi⟩ := List.mem_iff_getElem?.mp hfirst
  obtain ⟨j, hj⟩ := List.mem_iff_getElem?.mp hsecond
  rw [h i j first second hi hj hsome hposition] at hi
  exact Option.some.inj (hi.symm.trans hj)

theorem covered_set {number : Nat} (hcall : calls[index]? = some call)
    (hcovered : ∃ holder ∈ calls,
      holder.pc.isLoaded = false ∧ holder.pc.position = some number)
    (hnew : call.pc.isLoaded = false → call.pc.position = some number →
      new.pc.isLoaded = false ∧ new.pc.position = some number) :
    ∃ holder ∈ calls.set index new,
      holder.pc.isLoaded = false ∧ holder.pc.position = some number := by
  obtain ⟨holder, hholder, hloaded, hposition⟩ := hcovered
  by_cases hsame : holder = call
  · subst hsame
    exact ⟨new, mem_set_of_getElem? hcall new, hnew hloaded hposition⟩
  · exact ⟨holder, mem_set_of_ne hcall hholder hsame new, hloaded, hposition⟩

end Calls

/-! ### One lemma for each step -/

theorem sound_call (h : state.Sound) {call : EnqueueCall Item} (hpc : call.pc = .entered) :
    Sound { state with calls := state.calls ++ [call] } where
  size_pos := h.size_pos
  ordered := h.ordered
  fits := h.fits
  placed := all_append_singleton (by simp [Placed, hpc]) h.placed
  covered := by
    intro pos hpos
    obtain ⟨holder, hholder, hcover⟩ := h.covered pos hpos
    exact ⟨holder, List.mem_append_left _ hholder, hcover⟩
  distinct := h.distinct.append_entered hpc
  reading := h.reading
  unspoiled := by
    intro idx hidx
    exact all_append_singleton (by simp [hpc]) (h.unspoiled idx hidx)

section Advance

variable {index : Nat} {call : EnqueueCall Item}
variable (h : state.Sound) (hcall : state.calls[index]? = some call)

include h hcall

theorem sound_load (hpc : call.pc = .entered)
    (halone : ∀ other ∈ state.calls, other.pc.isLoaded = false) :
    Sound { state with
      calls := state.calls.set index { call with pc := .loaded state.q.tail } } where
  size_pos := h.size_pos
  ordered := h.ordered
  fits := h.fits
  placed := all_set rfl h.placed
  covered := by
    intro pos hpos
    exact covered_set hcall (h.covered pos hpos) (by simp [hpc, EnqueuePc.position])
  distinct := by
    apply h.distinct.set
    intro i other _ hother _ hsame
    have hmem := List.mem_of_getElem? hother
    have hloaded := halone other hmem
    cases hother : other.pc with
    | entered => simp [hother, EnqueuePc.position] at hsame
    | loaded pos => simp [hother, EnqueuePc.isLoaded] at hloaded
    | published pos =>
        have hplaced := h.of_published hmem hother
        simp only [hother, EnqueuePc.position, Option.some.injEq] at hsame
        omega
    | done pos =>
        have hplaced := h.of_done hmem hother
        simp only [hother, EnqueuePc.position, Option.some.injEq] at hsame
        omega
  reading := h.reading
  unspoiled := by
    intro idx hidx
    exact all_set (by simp) (h.unspoiled idx hidx)

theorem sound_publish {pos : UInt64} (hpc : call.pc = .loaded pos)
    (hfits : state.q.tail.toNat + 1 ≤ state.q.head.toNat + state.q.size)
    (hcounter : state.q.tail.toNat + 1 < 2 ^ 64) :
    Sound { state with
      q := { state.q with tail := pos + 1 }
      calls := state.calls.set index { call with pc := .published pos } } := by
  obtain rfl := h.of_loaded (List.mem_of_getElem? hcall) hpc
  have htail : (state.q.tail + 1).toNat = state.q.tail.toNat + 1 := by
    simp only [UInt64.toNat_add, UInt64.reduceToNat]
    omega
  have hordered := h.ordered
  have hread := h.outputs_le_head
  refine ⟨h.size_pos, ?_, ?_, ?_, ?_, ?_, ?_, ?_⟩
  · simp only [htail]
    omega
  · simp only [htail]
    omega
  · intro other hother
    rcases mem_set_cases hother with rfl | ⟨place, hplace, hold⟩
    · simp only [Placed, htail]
      omega
    · have hmem := List.mem_of_getElem? hold
      cases hotherPc : other.pc with
      | entered => simp only [Placed, hotherPc]
      | loaded taken =>
          have htaken := h.of_loaded hmem hotherPc
          refine absurd (h.distinct place index other call hold hcall ?_ ?_) hplace
          · simp [hotherPc, EnqueuePc.position]
          · simp [hotherPc, hpc, EnqueuePc.position, htaken]
      | published taken =>
          have hplaced := h.of_published hmem hotherPc
          simp only [Placed, hotherPc, htail]
          omega
      | done taken =>
          have hplaced := h.of_done hmem hotherPc
          simp only [Placed, hotherPc, htail]
          exact ⟨by omega, hplaced.2⟩
  · intro number hnumber
    simp only [htail] at hnumber
    by_cases hlast : number = state.q.tail.toNat
    · refine ⟨_, mem_set_of_getElem? hcall _, rfl, ?_⟩
      simp [EnqueuePc.position, hlast]
    · exact covered_set hcall (h.covered number (by omega))
        (by simp [hpc, EnqueuePc.isLoaded])
  · apply h.distinct.set_same hcall
    simp [hpc, EnqueuePc.position]
  · cases hfetch : state.fetch with
    | idle => exact h.of_idle hfetch
    | claiming =>
        have hreading := h.of_claiming hfetch
        simp only [Reading, htail]
        omega
    | reading idx => exact h.of_reading hfetch
  · intro idx hidx
    exact all_set (by simp) (h.unspoiled idx hidx)

/-- Two payments that are still to be read are in different slots. -/
theorem slot_ne_of_write {pos taken : UInt64} (hpc : call.pc = .published pos)
    (hadmits : ∀ idx ∈ state.fetch.pending, idx ≠ pos →
      idx.toNat % state.q.size ≠ pos.toNat % state.q.size)
    {other : EnqueueCall Item} (hother : other ∈ state.calls)
    (hotherPc : other.pc = .done taken) (hne : taken ≠ pos)
    (hunread : state.outputs.length ≤ taken.toNat) :
    taken.toNat % state.q.size ≠ pos.toNat % state.q.size := by
  have hplaced := h.of_published (List.mem_of_getElem? hcall) hpc
  have hotherPlaced := h.of_done hother hotherPc
  have hfits := h.fits
  have hnat : taken.toNat ≠ pos.toNat := fun heq => hne (UInt64.toNat_inj.mp heq)
  cases hfetch : state.fetch with
  | idle =>
      have hreading := h.of_idle hfetch
      apply @ring_slot_ne_of_window _ state.q.head.toNat <;> omega
  | claiming =>
      have hreading := h.of_claiming hfetch
      apply @ring_slot_ne_of_window _ state.q.head.toNat <;> omega
  | reading idx =>
      have hreading := h.of_reading hfetch
      have hpending : idx ∈ state.fetch.pending := by simp [hfetch, FetchPc.pending]
      by_cases htaken : taken = idx
      · exact htaken ▸ hadmits idx hpending (htaken ▸ hne)
      · by_cases hpos : pos = idx
        · subst hpos
          exact (h.unspoiled pos hpending other hother taken hotherPc (Ne.symm hne)
            hunread).symm
        · have htakenNat : taken.toNat ≠ idx.toNat := fun heq =>
            htaken (UInt64.toNat_inj.mp heq)
          have hposNat : pos.toNat ≠ idx.toNat := fun heq => hpos (UInt64.toNat_inj.mp heq)
          apply @ring_slot_ne_of_window _ state.q.head.toNat <;> omega

theorem sound_write {pos : UInt64} (hpc : call.pc = .published pos)
    (hadmits : ∀ idx ∈ state.fetch.pending, idx ≠ pos →
      idx.toNat % state.q.size ≠ pos.toNat % state.q.size) :
    Sound { state with
      q := { state.q with
        queue := Function.update state.q.queue (pos.toNat % state.q.size) call.item }
      calls := state.calls.set index { call with pc := .done pos } } := by
  have hplaced := h.of_published (List.mem_of_getElem? hcall) hpc
  refine ⟨h.size_pos, h.ordered, h.fits, ?_, ?_, ?_, h.reading, ?_⟩
  · intro other hother
    rcases mem_set_cases hother with rfl | ⟨place, hplace, hold⟩
    · refine ⟨hplaced.2, fun _ => Function.update_self _ _ _, ?_⟩
      simp [List.getElem?_eq_none hplaced.1]
    · have hmem := List.mem_of_getElem? hold
      cases hotherPc : other.pc with
      | entered => simp only [Placed, hotherPc]
      | loaded taken => simpa only [Placed, hotherPc] using h.of_loaded hmem hotherPc
      | published taken =>
          simpa only [Placed, hotherPc] using h.of_published hmem hotherPc
      | done taken =>
          have hotherPlaced := h.of_done hmem hotherPc
          simp only [Placed, hotherPc]
          refine ⟨hotherPlaced.1, fun hunread => ?_, hotherPlaced.2.2⟩
          have hne : taken ≠ pos := by
            rintro rfl
            refine hplace (h.distinct place index other call hold hcall ?_ ?_)
            · simp [hotherPc, EnqueuePc.position]
            · simp [hotherPc, hpc, EnqueuePc.position]
          rw [Function.update_of_ne
            (slot_ne_of_write h hcall hpc hadmits hmem hotherPc hne hunread)]
          exact hotherPlaced.2.1 hunread
  · intro number hnumber
    apply covered_set hcall (h.covered number hnumber)
    rw [hpc]
    exact fun _ hposition => ⟨rfl, hposition⟩
  · apply h.distinct.set_same hcall
    simp [hpc, EnqueuePc.position]
  · intro idx hidx
    apply all_set _ (h.unspoiled idx hidx)
    intro taken htaken hne _
    cases htaken
    exact hadmits idx hidx hne

end Advance

theorem sound_compare (h : state.Sound) (hidle : state.fetch = .idle)
    (hwaiting : state.q.head.toNat < state.q.tail.toNat) :
    Sound { state with fetch := .claiming } := by
  exact ⟨h.size_pos, h.ordered, h.fits, h.placed, h.covered, h.distinct,
    ⟨h.of_idle hidle, hwaiting⟩, nofun⟩

theorem sound_claim (h : state.Sound) (hclaiming : state.fetch = .claiming) :
    Sound { state with
      q := { state.q with head := state.q.head + 1 }
      fetch := .reading state.q.head } := by
  have hreading := h.of_claiming hclaiming
  have hhead : (state.q.head + 1).toNat = state.q.head.toNat + 1 := by
    have htail := state.q.tail.toNat_lt
    simp only [UInt64.toNat_add, UInt64.reduceToNat]
    omega
  have hfits := h.fits
  refine ⟨h.size_pos, ?_, ?_, h.placed, h.covered, h.distinct, ⟨hreading.1, hhead⟩, ?_⟩
  · simp only [hhead]
    omega
  · simp only [hhead]
    omega
  · intro idx hidx call hcall pos hpc hne hunread
    obtain rfl : state.q.head = idx := Option.some.inj hidx
    have hplaced := h.of_done hcall hpc
    have hnat : state.q.head.toNat ≠ pos.toNat := fun heq => hne (UInt64.toNat_inj.mp heq)
    change state.outputs.length ≤ pos.toNat at hunread
    have hslots : state.q.head.toNat % state.q.size ≠ pos.toNat % state.q.size :=
      ring_slot_ne (by omega) (by omega)
    exact hslots

theorem sound_read (h : state.Sound) {idx : UInt64} (hreading : state.fetch = .reading idx)
    {writer : EnqueueCall Item} (hwriter : writer ∈ state.calls)
    (hwritten : writer.pc = .done idx) :
    Sound { state with
      fetch := .idle
      outputs := state.outputs ++ [state.q.queue (idx.toNat % state.q.size)] } := by
  obtain ⟨hlength, hhead⟩ := h.of_reading hreading
  refine ⟨h.size_pos, h.ordered, h.fits, ?_, h.covered, h.distinct, ?_, nofun⟩
  · intro call hcall
    cases hpc : call.pc with
    | entered => simp only [Placed, hpc]
    | loaded pos => simpa only [Placed, hpc] using h.of_loaded hcall hpc
    | published pos =>
        have hplaced := h.of_published hcall hpc
        have hne : pos.toNat ≠ idx.toNat := by
          intro heq
          have hsame := h.distinct.eq_of_position hwriter hcall
            (by simp [hwritten, EnqueuePc.position])
            (by simp [hwritten, hpc, EnqueuePc.position, heq])
          rw [hsame, hpc] at hwritten
          cases hwritten
        simp only [Placed, hpc, List.length_append, List.length_singleton]
        omega
    | done pos =>
        have hplaced := h.of_done hcall hpc
        simp only [Placed, hpc, List.length_append, List.length_singleton]
        refine ⟨hplaced.1, fun hunread => hplaced.2.1 (by omega), fun item hitem => ?_⟩
        rw [List.getElem?_append] at hitem
        split_ifs at hitem with hold
        · exact hplaced.2.2 item hitem
        · rw [List.getElem?_singleton] at hitem
          split_ifs at hitem with hlast
          · cases hitem
            rw [← hplaced.2.1 (by omega), show idx.toNat = pos.toNat by omega]
          · simp at hitem
  · simp only [Reading, List.length_append, List.length_singleton]
    omega

theorem step_sound (h : state.Sound) (hguard : state.Admissible action)
    (hstep : step state action = some next) : next.Sound := by
  cases step_move hstep with
  | call => exact sound_call h rfl
  | load hcall hpc =>
      have hadmits := hguard _ hcall
      rw [hpc] at hadmits
      exact sound_load h hcall hpc hadmits
  | publish hcall hpc =>
      have hadmits := hguard _ hcall
      rw [hpc] at hadmits
      exact sound_publish h hcall hpc hadmits.1 hadmits.2
  | write hcall hpc =>
      have hadmits := hguard _ hcall
      rw [hpc] at hadmits
      exact sound_write h hcall hpc hadmits
  | miss => exact h
  | compare hidle hwaiting => exact sound_compare h hidle hwaiting
  | claim hclaiming => exact sound_claim h hclaiming
  | read hreading =>
      obtain ⟨writer, hwriter, hwritten⟩ := hguard _ (by rw [hreading]; rfl)
      exact sound_read h hreading hwriter hwritten

/-! ## Every payment is returned once -/

theorem Sound.done_of_read (h : state.Sound) {call : EnqueueCall Item}
    (hcall : call ∈ state.calls) (hloaded : call.pc.isLoaded = false) {number : Nat}
    (hposition : call.pc.position = some number)
    (hread : number < state.outputs.length) : call.pc.isDone = true := by
  cases hpc : call.pc with
  | entered => simp [hpc, EnqueuePc.position] at hposition
  | loaded pos => simp [hpc, EnqueuePc.isLoaded] at hloaded
  | published pos =>
      have hplaced := h.of_published hcall hpc
      simp only [hpc, EnqueuePc.position, Option.some.injEq] at hposition
      omega
  | done pos => rfl

theorem Sound.output_of_done (h : state.Sound) {call : EnqueueCall Item}
    (hcall : call ∈ state.calls) (hdone : call.pc.isDone = true) {number : Nat}
    (hposition : call.pc.position = some number) {item : Item}
    (hitem : state.outputs[number]? = some item) : call.item = item := by
  cases hpc : call.pc with
  | done pos =>
      simp only [hpc, EnqueuePc.position, Option.some.injEq] at hposition
      exact ((h.of_done hcall hpc).2.2 item (hposition ▸ hitem)).symm
  | entered | loaded pos | published pos => simp [hpc, EnqueuePc.isDone] at hdone

/-- Each fetch returns the payment of the one call that holds its position. -/
theorem Sound.output (h : state.Sound) {number : Nat} {item : Item}
    (hitem : state.outputs[number]? = some item) :
    ∃! index : Nat, ∃ call : EnqueueCall Item, state.calls[index]? = some call ∧
      call.pc.isDone = true ∧ call.pc.position = some number ∧ call.item = item := by
  have hlength := (List.getElem?_eq_some_iff.mp hitem).1
  have hread := h.outputs_le_head
  have hordered := h.ordered
  obtain ⟨call, hcall, hloaded, hposition⟩ := h.covered number (by omega)
  have hdone := h.done_of_read hcall hloaded hposition hlength
  obtain ⟨index, hindex⟩ := List.mem_iff_getElem?.mp hcall
  refine ⟨index, ⟨call, hindex, hdone, hposition,
    h.output_of_done hcall hdone hposition hitem⟩, ?_⟩
  rintro other ⟨second, hsecond, -, hsame, -⟩
  exact h.distinct other index second call hsecond hindex (by simp [hsame])
    (hsame.trans hposition.symm)

def remaining (state : StepQueue Item) : Nat :=
  3 * (state.q.tail.toNat - state.outputs.length) -
    match state.fetch with
    | .idle => 0
    | .claiming => 1
    | .reading _ => 2

def AllDone (state : StepQueue Item) : Prop := ∀ call ∈ state.calls, call.pc.isDone = true

theorem AllDone.not_busy (hdone : state.AllDone) (caller : Caller) :
    state.busy caller = false := by
  simp only [busy, List.any_eq_false]
  intro call hcall
  simp [EnqueueCall.isOpenFor, hdone call hcall]

theorem AllDone.admissible_fetch (hdone : state.AllDone) (h : state.Sound) :
    state.Admissible .fetch := by
  intro idx hidx
  cases hfetch : state.fetch with
  | reading idx' =>
      simp only [hfetch, FetchPc.pending, Option.mem_def, Option.some.injEq] at hidx
      subst hidx
      have hreading := h.of_reading hfetch
      have hordered := h.ordered
      obtain ⟨call, hcall, -, hposition⟩ := h.covered idx'.toNat (by omega)
      have hcallDone := hdone call hcall
      refine ⟨call, hcall, ?_⟩
      cases hpc : call.pc with
      | done pos =>
          simp only [hpc, EnqueuePc.position, Option.some.injEq] at hposition
          rw [UInt64.toNat_inj.mp hposition]
      | entered | loaded pos | published pos => simp [hpc, EnqueuePc.isDone] at hcallDone
  | idle | claiming => simp [hfetch, FetchPc.pending] at hidx

theorem fetch_progress (h : state.Sound) (hdone : state.AllDone)
    (hleft : state.fetch ≠ .idle ∨ state.outputs.length < state.q.tail.toNat) :
    ∃ next, step state .fetch = some next ∧ next.calls = state.calls ∧
      next.remaining < state.remaining := by
  have hordered := h.ordered
  refine ⟨state.fetchStep, by simp [step, hdone.not_busy], ?_⟩
  unfold fetchStep remaining
  cases hfetch : state.fetch with
  | idle =>
      have hreading := h.of_idle hfetch
      have hwaiting : ¬ state.q.tail ≤ state.q.head := by
        rw [UInt64.le_iff_toNat_le]
        simp only [hfetch, ne_eq, not_true_eq_false, false_or] at hleft
        omega
      simp only [ge_iff_le, hwaiting, if_false]
      rw [UInt64.le_iff_toNat_le] at hwaiting
      exact ⟨trivial, by omega⟩
  | claiming =>
      have hreading := h.of_claiming hfetch
      exact ⟨rfl, by simp only; omega⟩
  | reading idx =>
      have hreading := h.of_reading hfetch
      refine ⟨rfl, ?_⟩
      simp only [List.length_append, List.length_singleton]
      omega

theorem drain (h : state.Sound) (hdone : state.AllDone) :
    ∃ count final, execute step state (List.replicate count .fetch) = some final ∧
      final.Sound ∧ final.calls = state.calls ∧
      final.outputs.length = final.q.tail.toNat := by
  induction hsize : state.remaining using Nat.strong_induction_on generalizing state with
  | _ size ih =>
      by_cases hleft : state.fetch ≠ .idle ∨ state.outputs.length < state.q.tail.toNat
      · obtain ⟨next, hstep, hcalls, hless⟩ := fetch_progress h hdone hleft
        have hsound := step_sound h (hdone.admissible_fetch h) hstep
        have hnextDone : next.AllDone := by
          rw [AllDone, hcalls]
          exact hdone
        obtain ⟨count, final, hrun, hfinal, hfinalCalls, hlength⟩ :=
          ih next.remaining (hsize ▸ hless) hsound hnextDone rfl
        refine ⟨count + 1, final, ?_, hfinal, hfinalCalls.trans hcalls, hlength⟩
        rw [List.replicate_succ, execute_cons_of_step hstep, hrun]
      · rw [not_or, not_lt] at hleft
        refine ⟨0, state, rfl, h, rfl, ?_⟩
        have hread := h.outputs_le_head
        have hordered := h.ordered
        omega

theorem Sound.outputs_perm (h : state.Sound) (hdone : state.AllDone)
    (hlength : state.outputs.length = state.q.tail.toNat) :
    (state.calls.map EnqueueCall.item).Perm state.outputs := by
  have hpositions : ∀ call ∈ state.calls, ∃ pos : UInt64, call.pc = .done pos := by
    intro call hcall
    have hcallDone := hdone call hcall
    cases hpc : call.pc with
    | done pos => exact ⟨pos, rfl⟩
    | entered | loaded pos | published pos => simp [hpc, EnqueuePc.isDone] at hcallDone
  have hnumbered := @perm_of_numbered Item
    (state.calls.map fun call => (call.pc.position.getD 0, call.item)) state.outputs ?_ ?_ ?_
  · simpa [List.map_map, Function.comp_def] using hnumbered
  · rw [List.map_map, List.nodup_iff_pairwise_ne, List.pairwise_map, List.pairwise_iff_getElem]
    intro i j hi hj hlt hsame
    obtain ⟨first, hfirst⟩ := hpositions _ (List.getElem_mem hi)
    obtain ⟨second, hsecond⟩ := hpositions _ (List.getElem_mem hj)
    simp only [Function.comp_apply, hfirst, hsecond, EnqueuePc.position,
      Option.getD_some] at hsame
    have hindex := h.distinct i j _ _ (List.getElem?_eq_getElem hi)
      (List.getElem?_eq_getElem hj) (by simp [hfirst, EnqueuePc.position])
      (by simp [hfirst, hsecond, EnqueuePc.position, hsame])
    omega
  · intro entry hentry
    obtain ⟨call, hcall, rfl⟩ := List.mem_map.mp hentry
    obtain ⟨pos, hpc⟩ := hpositions call hcall
    have hplaced := h.of_done hcall hpc
    have hpos : pos.toNat < state.outputs.length := by omega
    have hitem := List.getElem?_eq_getElem hpos
    simp only [hpc, EnqueuePc.position, Option.getD_some]
    rw [hitem, hplaced.2.2 _ hitem]
  · intro number hnumber
    obtain ⟨call, hcall, -, hposition⟩ := h.covered number (by omega)
    exact ⟨_, List.mem_map_of_mem hcall, by simp [hposition]⟩

/--
In every run of admissible steps the calls hold distinct positions and each fetch
returns the payment of the one call that holds its position.  Whenever every call has
returned, fetches alone return what is left, and then the payments fetched are those
enqueued, each as often as it was enqueued.
-/
theorem step_queue_safe {size : Nat} (hsize : 0 < size) (filler : Item)
    {actions : List (QueueAction Item)}
    (hrun : execute step (initial size filler) actions = some state)
    (hadmissible : Along step Admissible (initial size filler) actions) :
    Distinct state.calls ∧
    (∀ (number : Nat) (item : Item), state.outputs[number]? = some item →
      ∃! index : Nat, ∃ call : EnqueueCall Item, state.calls[index]? = some call ∧
        call.pc.isDone = true ∧ call.pc.position = some number ∧ call.item = item) ∧
    ((∀ call ∈ state.calls, call.pc.isDone = true) →
      ∃ count final, execute step state (List.replicate count .fetch) = some final ∧
        (state.calls.map EnqueueCall.item).Perm final.outputs) := by
  have hsound := execute_invariant (fun _ _ _ h hguard hstep => step_sound h hguard hstep)
    (initial_sound hsize filler) hadmissible hrun
  refine ⟨hsound.distinct, fun number item hitem => hsound.output hitem, fun hdone => ?_⟩
  obtain ⟨count, final, hfetches, hfinal, hcalls, hlength⟩ := drain hsound hdone
  have hfinalDone : final.AllDone := by
    rw [AllDone, hcalls]
    exact hdone
  refine ⟨count, final, hfetches, ?_⟩
  rw [← hcalls]
  exact hfinal.outputs_perm hfinalDone hlength

/-- A handler and a retry take turns; the worker reads when the slot is written. -/
def orderlyRun : List (QueueAction Nat) :=
  [.call (.http 0) 1, .advance 0, .advance 0, .call (.fallbackPool 0) 2, .advance 1, .fetch,
    .advance 0, .fetch, .fetch, .advance 1, .advance 1]

def orderlyQueue : Option (StepQueue Nat) :=
  execute step (initial 2 0) orderlyRun

theorem orderlyQueue_runs : orderlyQueue.isSome = true := by decide +kernel

theorem step_queue_safe_orderly :
    let state := orderlyQueue.get orderlyQueue_runs
    state.outputs = [1] ∧ ∃ count final,
      execute step state (List.replicate count .fetch) = some final ∧
        ([1, 2] : List Nat).Perm final.outputs := by
  intro state
  have houtputs : state.outputs = [1] := by decide +kernel
  have hitems : state.calls.map EnqueueCall.item = [1, 2] := by decide +kernel
  have hdone : ∀ call ∈ state.calls, call.pc.isDone = true := by decide +kernel
  have hadmissible : Along step Admissible (initial 2 0) orderlyRun := by decide +kernel
  refine ⟨houtputs, ?_⟩
  rw [← hitems]
  exact (step_queue_safe (by decide) 0 (Option.some_get orderlyQueue_runs).symm
    hadmissible).2.2 hdone

/-- A handler and a retry load the same tail; the retry overwrites the handler's payment. -/
def sharedTail : Option (StepQueue Nat) :=
  execute step (initial 2 0)
    [.call (.http 0) 1, .call (.fallbackPool 0) 2, .advance 0, .advance 1, .advance 0,
      .advance 1, .advance 0, .advance 1, .fetch, .fetch, .fetch]

/-- The worker reads a slot between the store of `tail` and the write of the slot. -/
def earlyRead : Option (StepQueue Nat) :=
  execute step (initial 2 0)
    [.call (.http 0) 1, .advance 0, .advance 0, .fetch, .fetch, .fetch]

theorem sharedTail_runs : sharedTail.isSome = true := by decide +kernel

theorem earlyRead_runs : earlyRead.isSome = true := by decide +kernel

theorem step_queue_loses_and_invents :
    let lost := sharedTail.get sharedTail_runs
    let stale := earlyRead.get earlyRead_runs
    (lost.calls.map EnqueueCall.item = [1, 2] ∧ lost.outputs = [2] ∧
      (∀ call ∈ lost.calls, call.pc.isDone = true) ∧ lost.q.head = lost.q.tail) ∧
    (stale.calls.map EnqueueCall.item = [1] ∧ stale.outputs = [0]) := by
  decide +kernel

end StepQueue

end RinhaBackend
