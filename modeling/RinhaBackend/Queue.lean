import Mathlib.Data.List.Induction
import Mathlib.Data.List.Nodup
import Mathlib.Data.List.ReduceOption
import RinhaBackend.Foundation.Fifo

/-!
# Worker queues

Each worker owns a ring with two counters that only grow.  Neither `enqueue` nor
`fetch_next` compares them with the capacity, so a queue that receives more than
it delivers overwrites payments.  The last section says exactly which payment
each fetch returns, within the capacity and beyond it.
-/

namespace RinhaBackend

open Foundation

/-- The slots of the vector `queue` and the two `size_t` counters. -/
structure WorkerQueue (Item : Type) where
  size : Nat
  queue : Nat → Item
  head : UInt64
  tail : UInt64

namespace WorkerQueue

variable {Item : Type}

def initial (size : Nat) (filler : Item) : WorkerQueue Item :=
  ⟨size, fun _ => filler, 0, 0⟩

def enqueue (q : WorkerQueue Item) (r : Item) : WorkerQueue Item :=
  let pos := q.tail
  { q with
    queue := Function.update q.queue (pos.toNat % q.size) r
    tail := q.tail + 1 }

def fetchNext (running : Bool) (q : WorkerQueue Item) :
    Option (Item × WorkerQueue Item) :=
  if !running || decide (q.head ≥ q.tail) then none
  else
    let idx := q.head
    some (q.queue (idx.toNat % q.size), { q with head := q.head + 1 })

def outstanding (q : WorkerQueue Item) : Nat := q.tail.toNat - q.head.toNat

/-- The payments between head and tail, oldest first. -/
def contents (q : WorkerQueue Item) : List Item :=
  (List.range' q.head.toNat q.outstanding).map fun pos => q.queue (pos % q.size)

/-! ## Operations -/

@[simp] theorem enqueue_size (q : WorkerQueue Item) (r : Item) :
    (q.enqueue r).size = q.size := rfl

@[simp] theorem enqueue_head (q : WorkerQueue Item) (r : Item) :
    (q.enqueue r).head = q.head := rfl

theorem enqueue_tail {q : WorkerQueue Item} (h : q.tail.toNat + 1 < 2 ^ 64)
    (r : Item) : (q.enqueue r).tail.toNat = q.tail.toNat + 1 := by
  simp only [enqueue, UInt64.toNat_add, UInt64.reduceToNat]
  omega

theorem fetchNext_eq_none_iff (q : WorkerQueue Item) :
    q.fetchNext true = none ↔ q.tail.toNat ≤ q.head.toNat := by
  simp [fetchNext, UInt64.le_iff_toNat_le]

theorem fetchNext_eq_some {q q' : WorkerQueue Item} {r : Item}
    (h : q.fetchNext true = some (r, q')) :
    q.head.toNat < q.tail.toNat ∧ r = q.queue (q.head.toNat % q.size) ∧
      q'.head.toNat = q.head.toNat + 1 ∧ q'.tail = q.tail ∧
      q'.size = q.size ∧ q'.queue = q.queue := by
  have hlt : q.head.toNat < q.tail.toNat := by
    by_contra hle
    simp [(fetchNext_eq_none_iff q).mpr (not_lt.mp hle)] at h
  have hnot : ¬ q.tail ≤ q.head := by
    rw [UInt64.le_iff_toNat_le]
    omega
  have htail := q.tail.toNat_lt
  simp only [fetchNext, Bool.not_true, ge_iff_le, hnot, decide_false, Bool.or_self,
    Bool.false_eq_true, if_false, Option.some.injEq, Prod.mk.injEq] at h
  obtain ⟨rfl, rfl⟩ := h
  refine ⟨hlt, rfl, ?_, rfl, rfl, rfl⟩
  simp only [UInt64.toNat_add, UInt64.reduceToNat]
  omega

theorem enqueue_slot {q : WorkerQueue Item} {r : Item} {pos : Nat}
    (h : pos < (q.enqueue r).tail.toNat) :
    (q.enqueue r).queue (pos % q.size) = r ∨
      (pos < q.tail.toNat ∧
        (q.enqueue r).queue (pos % q.size) = q.queue (pos % q.size)) := by
  by_cases hslot : pos % q.size = q.tail.toNat % q.size
  · left
    rw [hslot]
    exact Function.update_self _ _ _
  · right
    have hne : pos ≠ q.tail.toNat := fun heq => hslot (heq ▸ rfl)
    simp only [enqueue, UInt64.toNat_add, UInt64.reduceToNat] at h
    have hle := Nat.mod_le (q.tail.toNat + 1) (2 ^ 64)
    exact ⟨by omega, Function.update_of_ne hslot _ _⟩

def Written (accepted : Item → Prop) (q : WorkerQueue Item) : Prop :=
  ∀ pos < q.tail.toNat, accepted (q.queue (pos % q.size))

theorem Written.enqueue {accepted : Item → Prop} {q : WorkerQueue Item} {r : Item}
    (hr : accepted r) (h : q.Written accepted) : (q.enqueue r).Written accepted := by
  intro pos hpos
  rcases enqueue_slot hpos with hnew | ⟨hlt, hold⟩
  · rw [enqueue_size, hnew]
    exact hr
  · rw [enqueue_size, hold]
    exact h pos hlt

theorem Written.fetchNext {accepted : Item → Prop} {q q' : WorkerQueue Item} {r : Item}
    (h : q.Written accepted) (hfetch : q.fetchNext true = some (r, q')) :
    accepted r ∧ q'.Written accepted := by
  obtain ⟨hlt, rfl, -, htail, hsize, hqueue⟩ := fetchNext_eq_some hfetch
  refine ⟨h _ hlt, ?_⟩
  unfold Written
  rw [htail, hsize, hqueue]
  exact h

/-! ## Queues that are not overrun -/

/-- The counters are in order and no slot holds two waiting payments. -/
structure WithinCapacity (q : WorkerQueue Item) : Prop where
  size_pos : 0 < q.size
  ordered : q.head.toNat ≤ q.tail.toNat
  fits : q.outstanding ≤ q.size

theorem initial_withinCapacity {size : Nat} (h : 0 < size) (filler : Item) :
    (initial size filler).WithinCapacity :=
  ⟨h, le_rfl, Nat.zero_le _⟩

theorem enqueue_contents {q : WorkerQueue Item} (hq : q.WithinCapacity)
    (hroom : q.outstanding < q.size) (hcounter : q.tail.toNat + 1 < 2 ^ 64)
    (r : Item) :
    (q.enqueue r).WithinCapacity ∧ (q.enqueue r).contents = q.contents ++ [r] := by
  have htail := enqueue_tail hcounter r
  have hordered := hq.ordered
  unfold outstanding at hroom
  have houtstanding : (q.enqueue r).outstanding = q.outstanding + 1 := by
    simp only [outstanding, htail, enqueue_head]
    omega
  refine ⟨⟨hq.size_pos, ?_, ?_⟩, ?_⟩
  · rw [htail, enqueue_head]
    omega
  · rw [houtstanding, enqueue_size]
    exact hroom
  · have hlast : q.head.toNat + q.outstanding = q.tail.toNat := by
      unfold outstanding
      omega
    rw [contents, houtstanding, enqueue_head, List.range'_concat, List.map_append,
      one_mul, hlast]
    congr 1
    · apply List.map_congr_left
      intro pos hpos
      have hbounds := List.mem_range'_1.mp hpos
      rw [hlast] at hbounds
      rw [enqueue_size]
      exact Function.update_of_ne (ring_slot_ne hbounds.2 (by omega)) _ _
    · simp [enqueue]

theorem fetchNext_contents {q q' : WorkerQueue Item} {r : Item}
    (hq : q.WithinCapacity) (h : q.fetchNext true = some (r, q')) :
    q'.WithinCapacity ∧ q.contents = r :: q'.contents := by
  obtain ⟨hlt, rfl, hhead, htail, hsize, hqueue⟩ := fetchNext_eq_some h
  have hfits := hq.fits
  have houtstanding : q.outstanding = q'.outstanding + 1 := by
    simp only [outstanding, hhead, htail]
    omega
  refine ⟨⟨hsize ▸ hq.size_pos, ?_, ?_⟩, ?_⟩
  · rw [hhead, htail]
    omega
  · rw [hsize]
    omega
  · rw [contents, houtstanding, List.range'_succ, List.map_cons, contents, hhead,
      hsize, hqueue]

end WorkerQueue

/-! ## Runs of one queue, beyond its capacity -/

/--
A queue together with the history of the calls made on it: the payments
enqueued, the results of the fetches, and how many payments were waiting at each
fetch.
-/
structure QueueTrace (Item : Type) where
  queue : WorkerQueue Item
  enqueued : List Item
  outputs : List (Option Item)
  depths : List Nat

namespace QueueTrace

variable {Item : Type}

def step (trace : QueueTrace Item) : QueueOp Item → QueueTrace Item
  | .enqueue item =>
      { trace with
        queue := trace.queue.enqueue item
        enqueued := trace.enqueued ++ [item] }
  | .fetch =>
      let depths := trace.depths ++ [trace.queue.outstanding]
      match trace.queue.fetchNext true with
      | none => { trace with outputs := trace.outputs ++ [none], depths }
      | some (item, queue) =>
          { trace with queue, outputs := trace.outputs ++ [some item], depths }

def run (size : Nat) (filler : Item) (ops : List (QueueOp Item)) : QueueTrace Item :=
  ops.foldl step ⟨.initial size filler, [], [], []⟩

def fetched (trace : QueueTrace Item) : Nat := trace.outputs.reduceOption.length

/-- The counters are the numbers of calls and each slot holds its latest write. -/
structure Valid (size : Nat) (trace : QueueTrace Item) : Prop where
  size_eq : trace.queue.size = size
  tail_eq : trace.queue.tail.toNat = trace.enqueued.length
  head_eq : trace.queue.head.toNat = trace.fetched
  fetched_le : trace.fetched ≤ trace.enqueued.length
  slots : ∀ pos < trace.enqueued.length,
    trace.enqueued[latestWrite size pos trace.enqueued.length]? =
      some (trace.queue.queue (pos % size))

theorem run_append (size : Nat) (filler : Item) (ops more : List (QueueOp Item)) :
    run size filler (ops ++ more) = more.foldl step (run size filler ops) := by
  simp [run]

@[simp] theorem step_enqueue_enqueued (trace : QueueTrace Item) (item : Item) :
    (trace.step (.enqueue item)).enqueued = trace.enqueued ++ [item] := rfl

@[simp] theorem step_fetch_enqueued (trace : QueueTrace Item) :
    (trace.step .fetch).enqueued = trace.enqueued := by
  simp only [step]
  split <;> rfl

theorem enqueued_length_le_step (trace : QueueTrace Item) (op : QueueOp Item) :
    trace.enqueued.length ≤ (trace.step op).enqueued.length := by
  cases op <;> simp

private theorem enqueue_valid {size : Nat} {trace : QueueTrace Item}
    (h : trace.Valid size) (item : Item)
    (hbound : trace.enqueued.length + 1 < 2 ^ 64) :
    (trace.step (.enqueue item)).Valid size := by
  have htail : (trace.queue.enqueue item).tail.toNat = trace.enqueued.length + 1 := by
    rw [WorkerQueue.enqueue_tail (by rw [h.tail_eq]; exact hbound), h.tail_eq]
  refine ⟨h.size_eq, by simpa [step] using htail, h.head_eq, ?_, ?_⟩
  · have hle := h.fetched_le
    simp only [step_enqueue_enqueued, List.length_append, List.length_singleton]
    exact Nat.le_succ_of_le hle
  · intro pos hpos
    simp only [step_enqueue_enqueued, List.length_append, List.length_singleton] at hpos ⊢
    simp only [step, WorkerQueue.enqueue, h.size_eq, h.tail_eq]
    by_cases hslot : trace.enqueued.length % size = pos % size
    · rw [latestWrite_succ_of_congr (by omega) hslot, hslot, Function.update_self]
      simp
    · have hlt : pos < trace.enqueued.length := by
        rcases Nat.lt_succ_iff_lt_or_eq.mp hpos with hlt | rfl
        · exact hlt
        · exact absurd rfl hslot
      rw [latestWrite_succ_of_not_congr hlt hslot, Function.update_of_ne (Ne.symm hslot),
        List.getElem?_append_left (latestWrite_lt hlt)]
      exact h.slots pos hlt

theorem fetchNext_isNone {size : Nat} {trace : QueueTrace Item} (h : trace.Valid size) :
    trace.queue.fetchNext true = none ↔ trace.enqueued.length ≤ trace.fetched := by
  rw [WorkerQueue.fetchNext_eq_none_iff, h.tail_eq, h.head_eq]

theorem fetchNext_item {size : Nat} {trace : QueueTrace Item} (h : trace.Valid size)
    {item : Item} {queue : WorkerQueue Item}
    (hfetch : trace.queue.fetchNext true = some (item, queue)) :
    trace.enqueued[latestWrite size trace.fetched trace.enqueued.length]? =
      some item := by
  obtain ⟨hlt, rfl, -⟩ := WorkerQueue.fetchNext_eq_some hfetch
  rw [h.tail_eq, h.head_eq] at hlt
  rw [h.slots _ hlt, h.head_eq, h.size_eq]

theorem step_fetch_fetched {trace : QueueTrace Item} :
    (trace.step .fetch).fetched =
      trace.fetched + if (trace.queue.fetchNext true).isSome then 1 else 0 := by
  cases hfetch : trace.queue.fetchNext true <;>
    simp [step, fetched, hfetch, List.reduceOption_append]

private theorem fetch_valid {size : Nat} {trace : QueueTrace Item}
    (h : trace.Valid size) : (trace.step .fetch).Valid size := by
  cases hfetch : trace.queue.fetchNext true with
  | none =>
      have hfetched : (trace.step .fetch).fetched = trace.fetched := by
        simp [step_fetch_fetched, hfetch]
      have hqueue : (trace.step .fetch).queue = trace.queue := by
        simp [step, hfetch]
      refine ⟨?_, ?_, ?_, ?_, ?_⟩ <;>
        simp only [step_fetch_enqueued, hfetched, hqueue]
      exacts [h.size_eq, h.tail_eq, h.head_eq, h.fetched_le, h.slots]
  | some result =>
      obtain ⟨item, queue⟩ := result
      obtain ⟨hlt, -, hhead, htail, hsize, hslots⟩ := WorkerQueue.fetchNext_eq_some hfetch
      rw [h.tail_eq, h.head_eq] at hlt
      have hfetched : (trace.step .fetch).fetched = trace.fetched + 1 := by
        simp [step_fetch_fetched, hfetch]
      have hqueue : (trace.step .fetch).queue = queue := by
        simp [step, hfetch]
      refine ⟨?_, ?_, ?_, ?_, ?_⟩ <;>
        simp only [step_fetch_enqueued, hfetched, hqueue]
      · rw [hsize, h.size_eq]
      · rw [htail, h.tail_eq]
      · rw [hhead, h.head_eq]
      · exact hlt
      · rw [hslots]
        exact h.slots

theorem run_valid {size : Nat} (filler : Item)
    {ops : List (QueueOp Item)}
    (hbound : (run size filler ops).enqueued.length < 2 ^ 64) :
    (run size filler ops).Valid size := by
  induction ops using List.reverseRecOn with
  | nil =>
      exact ⟨rfl, rfl, rfl, le_rfl, fun pos hpos => absurd hpos (Nat.not_lt_zero pos)⟩
  | append_singleton ops op ih =>
      rw [run_append] at hbound ⊢
      simp only [List.foldl_cons, List.foldl_nil] at hbound ⊢
      have hle := enqueued_length_le_step (run size filler ops) op
      have hvalid := ih (hle.trans_lt hbound)
      cases op with
      | enqueue item =>
          refine enqueue_valid hvalid item ?_
          simpa using hbound
      | fetch => exact fetch_valid hvalid

/-! ## Comparison with the unbounded queue -/

theorem step_fetch_depths {size : Nat} {trace : QueueTrace Item}
    (h : trace.Valid size) :
    (trace.step .fetch).depths =
      trace.depths ++ [trace.enqueued.length - trace.fetched] := by
  rw [← h.tail_eq, ← h.head_eq]
  simp only [step, WorkerQueue.outstanding]
  split <;> rfl

theorem step_fetch_outputs {size : Nat} {trace : QueueTrace Item}
    (h : trace.Valid size) :
    (trace.step .fetch).outputs = trace.outputs ++
      [trace.enqueued[latestWrite size trace.fetched trace.enqueued.length]?] := by
  cases hfetch : trace.queue.fetchNext true with
  | none =>
      have hle := (fetchNext_isNone h).mp hfetch
      have hnone := List.getElem?_eq_none
        (hle.trans (le_latestWrite size trace.fetched trace.enqueued.length))
      simp [step, hfetch, hnone]
  | some result =>
      obtain ⟨item, queue⟩ := result
      simp [step, hfetch, fetchNext_item h hfetch]

theorem outputs_length_eq (size : Nat) (filler : Item) (ops : List (QueueOp Item)) :
    (run size filler ops).outputs.length = (fifoRun ops).outputs.length := by
  induction ops using List.reverseRecOn with
  | nil => rfl
  | append_singleton ops op ih =>
      rw [run_append, fifoRun, List.foldl_append, ← fifoRun]
      cases op with
      | enqueue item => simpa [step, fifoStep] using ih
      | fetch =>
          simp only [List.foldl_cons, List.foldl_nil, step, fifoStep]
          split <;> simp [ih]

theorem fifoRun_pending {size : Nat} (filler : Item) {ops : List (QueueOp Item)}
    (hbound : (run size filler ops).enqueued.length < 2 ^ 64) :
    (fifoRun ops).pending =
      (run size filler ops).enqueued.drop (run size filler ops).fetched := by
  induction ops using List.reverseRecOn with
  | nil => rfl
  | append_singleton ops op ih =>
      rw [run_append] at hbound ⊢
      rw [fifoRun, List.foldl_append, ← fifoRun]
      simp only [List.foldl_cons, List.foldl_nil] at hbound ⊢
      have hbefore := (enqueued_length_le_step (run size filler ops) op).trans_lt hbound
      have hvalid := run_valid filler hbefore
      cases op with
      | enqueue item =>
          rw [step_enqueue_enqueued, List.drop_append_of_le_length]
          · simp only [fifoStep, ih hbefore]
            rfl
          · exact hvalid.fetched_le
      | fetch =>
          simp only [fifoStep, ih hbefore, step_fetch_enqueued, step_fetch_fetched,
            List.tail_drop]
          cases hfetch : (run size filler ops).queue.fetchNext true with
          | none =>
              have hle := (fetchNext_isNone hvalid).mp hfetch
              rw [List.drop_eq_nil_of_le (by omega), List.drop_eq_nil_of_le (by simpa)]
          | some result => simp

private theorem fetch_matches {size : Nat} (hsize : 0 < size)
    {trace : QueueTrace Item} (hdepth : trace.enqueued.length - trace.fetched ≤ size) :
    trace.enqueued[latestWrite size trace.fetched trace.enqueued.length]? =
      trace.enqueued[trace.fetched]? := by
  by_cases hlt : trace.fetched < trace.enqueued.length
  · rw [(latestWrite_eq_self_iff hsize hlt).mpr hdepth]
  · have hle := le_latestWrite size trace.fetched trace.enqueued.length
    rw [List.getElem?_eq_none (by omega), List.getElem?_eq_none (by omega)]

private theorem depth_le_of_fetch_matches {size : Nat} (hsize : 0 < size)
    {trace : QueueTrace Item} (hnodup : trace.enqueued.Nodup)
    (hmatch : trace.enqueued[latestWrite size trace.fetched trace.enqueued.length]? =
      trace.enqueued[trace.fetched]?) :
    trace.enqueued.length - trace.fetched ≤ size := by
  by_cases hlt : trace.fetched < trace.enqueued.length
  · refine (latestWrite_eq_self_iff hsize hlt).mp ?_
    exact (List.getElem?_inj (latestWrite_lt hlt) hnodup).mp hmatch
  · omega

theorem outputs_eq_of_depths {size : Nat} (hsize : 0 < size) (filler : Item)
    {ops : List (QueueOp Item)}
    (hbound : (run size filler ops).enqueued.length < 2 ^ 64)
    (hdepths : ∀ depth ∈ (run size filler ops).depths, depth ≤ size) :
    (run size filler ops).outputs = (fifoRun ops).outputs := by
  induction ops using List.reverseRecOn with
  | nil => rfl
  | append_singleton ops op ih =>
      rw [run_append] at hbound hdepths ⊢
      rw [fifoRun, List.foldl_append, ← fifoRun]
      simp only [List.foldl_cons, List.foldl_nil] at hbound hdepths ⊢
      have hbefore := (enqueued_length_le_step (run size filler ops) op).trans_lt hbound
      have hvalid := run_valid filler hbefore
      cases op with
      | enqueue item => exact ih hbefore hdepths
      | fetch =>
          rw [step_fetch_depths hvalid] at hdepths
          have hstarts := ih hbefore fun depth hdepth => hdepths depth (by simp [hdepth])
          have hdepth := hdepths ((run size filler ops).enqueued.length -
            (run size filler ops).fetched) (by simp)
          have hlast := fetch_matches hsize hdepth
          rw [step_fetch_outputs hvalid, hlast, hstarts]
          simp only [fifoStep, fifoRun_pending filler hbefore, List.head?_drop]

theorem depths_le_of_outputs_eq {size : Nat} (hsize : 0 < size) (filler : Item)
    {ops : List (QueueOp Item)}
    (hbound : (run size filler ops).enqueued.length < 2 ^ 64)
    (hnodup : (run size filler ops).enqueued.Nodup)
    (houtputs : (run size filler ops).outputs = (fifoRun ops).outputs) :
    ∀ depth ∈ (run size filler ops).depths, depth ≤ size := by
  induction ops using List.reverseRecOn with
  | nil => exact fun depth hdepth => absurd hdepth (by simp [run])
  | append_singleton ops op ih =>
      have hlengths := outputs_length_eq size filler ops
      rw [run_append] at hbound hnodup houtputs ⊢
      rw [fifoRun, List.foldl_append, ← fifoRun] at houtputs
      simp only [List.foldl_cons, List.foldl_nil] at hbound hnodup houtputs ⊢
      have hbefore := (enqueued_length_le_step (run size filler ops) op).trans_lt hbound
      have hvalid := run_valid filler hbefore
      cases op with
      | enqueue item =>
          rw [step_enqueue_enqueued] at hnodup
          exact ih hbefore hnodup.of_append_left houtputs
      | fetch =>
          rw [step_fetch_enqueued] at hnodup
          rw [step_fetch_outputs hvalid] at houtputs
          simp only [fifoStep, fifoRun_pending filler hbefore, List.head?_drop]
            at houtputs
          obtain ⟨hstarts, hlast⟩ := List.append_inj houtputs hlengths
          simp only [List.cons.injEq, and_true] at hlast
          rw [step_fetch_depths hvalid]
          intro depth hdepth
          rcases List.mem_append.mp hdepth with hold | hnew
          · exact ih hbefore hnodup hstarts depth hold
          · rw [List.mem_singleton.mp hnew]
            exact depth_le_of_fetch_matches hsize hnodup hlast

theorem fetched_le_foldl (ops : List (QueueOp Item)) (trace : QueueTrace Item) :
    trace.fetched ≤ (ops.foldl step trace).fetched := by
  induction ops generalizing trace with
  | nil => exact le_rfl
  | cons op ops ih =>
      refine le_trans ?_ (ih _)
      cases op with
      | enqueue item => exact le_rfl
      | fetch => simp [step_fetch_fetched]

/-- An overrun payment is replaced by a later one and is never delivered after it. -/
theorem overrun_lost {size : Nat} (hsize : 0 < size) (filler : Item)
    {ops : List (QueueOp Item)}
    (hbound : (run size filler ops).enqueued.length < 2 ^ 64)
    (hoverrun : (run size filler ops).fetched + size <
      (run size filler ops).enqueued.length) :
    (run size filler ops).fetched < latestWrite size (run size filler ops).fetched
        (run size filler ops).enqueued.length ∧
      ∀ more : List (QueueOp Item),
        (run size filler ops).fetched <
          latestWrite size (run size filler (ops ++ .fetch :: more)).fetched
            (run size filler (ops ++ .fetch :: more)).enqueued.length := by
  have hlt : (run size filler ops).fetched < (run size filler ops).enqueued.length := by
    omega
  constructor
  · refine lt_of_le_of_ne (le_latestWrite _ _ _) fun heq => ?_
    have hfits := (latestWrite_eq_self_iff hsize hlt).mp heq.symm
    omega
  · intro more
    have hvalid := run_valid filler hbound
    have hsome : ((run size filler ops).queue.fetchNext true).isSome = true := by
      rw [Option.isSome_iff_ne_none, ne_eq, fetchNext_isNone hvalid]
      omega
    have hfetch : (run size filler ops).fetched + 1 ≤
        (run size filler (ops ++ .fetch :: more)).fetched := by
      rw [run_append, List.foldl_cons]
      refine le_trans ?_ (fetched_le_foldl more _)
      rw [step_fetch_fetched, if_pos hsome]
    exact hfetch.trans (le_latestWrite _ _ _)

theorem enqueued_prefix (size : Nat) (filler : Item) (ops more : List (QueueOp Item)) :
    (run size filler ops).enqueued <+: (run size filler (ops ++ more)).enqueued := by
  rw [run_append]
  generalize run size filler ops = trace
  induction more generalizing trace with
  | nil => exact List.prefix_rfl
  | cons op more ih =>
      refine List.IsPrefix.trans ?_ (ih (trace.step op))
      cases op with
      | enqueue item => exact List.prefix_append _ _
      | fetch => simp

/--
The behaviour of a worker queue for every sequence of calls: when a fetch
succeeds, which payment it returns, that the ring is the unbounded queue exactly
while no fetch finds more than `size` payments waiting, and that a payment
overrun at a fetch is lost.
-/
theorem ring_queue_semantics {size : Nat} (hsize : 0 < size) (filler : Item)
    (ops : List (QueueOp Item))
    (hbound : (run size filler ops).enqueued.length < 2 ^ 64) :
    let trace := run size filler ops
    ((trace.queue.fetchNext true).isSome = true ↔
      trace.fetched < trace.enqueued.length) ∧
    (∀ item queue, trace.queue.fetchNext true = some (item, queue) →
      trace.enqueued[trace.fetched +
        size * ((trace.enqueued.length - 1 - trace.fetched) / size)]? = some item) ∧
    ((∀ depth ∈ trace.depths, depth ≤ size) →
      trace.outputs = (fifoRun ops).outputs) ∧
    (trace.enqueued.Nodup → trace.outputs = (fifoRun ops).outputs →
      ∀ depth ∈ trace.depths, depth ≤ size) ∧
    (trace.fetched + size < trace.enqueued.length →
      trace.fetched < latestWrite size trace.fetched trace.enqueued.length ∧
      ∀ more item queue,
        let later := run size filler (ops ++ .fetch :: more)
        later.enqueued.length < 2 ^ 64 →
        later.queue.fetchNext true = some (item, queue) →
        ∃ number, trace.fetched < number ∧ later.enqueued[number]? = some item ∧
          (later.enqueued.Nodup → trace.enqueued[trace.fetched]? ≠ some item)) := by
  have hvalid := run_valid filler hbound
  refine ⟨?_, fun item queue hfetch => fetchNext_item hvalid hfetch,
    outputs_eq_of_depths hsize filler hbound,
    depths_le_of_outputs_eq hsize filler hbound, fun hoverrun => ?_⟩
  · rw [Option.isSome_iff_ne_none, ne_eq, fetchNext_isNone hvalid, not_le]
  · obtain ⟨hlater, hlost⟩ := overrun_lost hsize filler hbound hoverrun
    refine ⟨hlater, fun more item queue hmore hfetch => ?_⟩
    have hitem := fetchNext_item (run_valid filler hmore) hfetch
    refine ⟨_, hlost more, hitem, fun hnodup hsame => ?_⟩
    obtain ⟨rest, hrest⟩ := enqueued_prefix size filler ops (.fetch :: more)
    have hinside := (List.getElem?_eq_some_iff.mp hsame).1
    have hkept : (run size filler (ops ++ .fetch :: more)).enqueued[
        (run size filler ops).fetched]? = some item := by
      rw [← hrest, List.getElem?_append_left hinside, hsame]
    have hlength := (List.getElem?_eq_some_iff.mp hkept).1
    have heq := (List.getElem?_inj hlength hnodup).mp (hkept.trans hitem.symm)
    have hgt := hlost more
    omega

/-- Three payments through a ring of two slots: the first is lost. -/
theorem ring_queue_semantics_overrun :
    let ops : List (QueueOp Nat) := [.enqueue 1, .enqueue 2, .enqueue 3]
    (run 2 0 ops).enqueued[(run 2 0 ops).fetched +
      2 * (((run 2 0 ops).enqueued.length - 1 - (run 2 0 ops).fetched) / 2)]? =
        some 3 :=
  (ring_queue_semantics (by decide) 0
    [.enqueue 1, .enqueue 2, .enqueue 3] (by decide)).2.1 3
      _ rfl

end QueueTrace

end RinhaBackend
