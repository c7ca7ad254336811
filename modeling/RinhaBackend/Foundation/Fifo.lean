import Mathlib.Data.List.Perm.Basic
import Mathlib.Data.Int.ModEq

/-!
# First-in first-out queues and overwriting rings

`fifoStep` is the unbounded queue that a bounded one is measured against.  A
ring of `size` slots that never refuses a write keeps, in the slot of position
`k`, the last item written to a position congruent to `k`: `latestWrite` is the
number of that item.
-/

namespace RinhaBackend.Foundation

inductive QueueOp (Item : Type) where
  | enqueue (item : Item)
  | fetch

structure FifoTrace (Item : Type) where
  pending : List Item
  outputs : List (Option Item)

variable {Item : Type}

def fifoStep (trace : FifoTrace Item) : QueueOp Item → FifoTrace Item
  | .enqueue item => { trace with pending := trace.pending ++ [item] }
  | .fetch =>
      { pending := trace.pending.tail
        outputs := trace.outputs ++ [trace.pending.head?] }

def fifoRun (ops : List (QueueOp Item)) : FifoTrace Item :=
  ops.foldl fifoStep ⟨[], []⟩

/-! ## Positions of an overwriting ring -/

theorem ring_slot_ne {size first second : Nat} (hlt : first < second)
    (hfits : second - first < size) : first % size ≠ second % size := by
  intro hmod
  have hdvd : size ∣ second - first := (Nat.modEq_iff_dvd' hlt.le).mp hmod
  have hle := Nat.le_of_dvd (by omega) hdvd
  omega

theorem ring_slot_ne_of_window {size low first second : Nat} (hne : first ≠ second)
    (hfirst : low ≤ first) (hsecond : low ≤ second) (hfirst' : first < low + size)
    (hsecond' : second < low + size) : first % size ≠ second % size := by
  rcases Nat.lt_or_gt_of_ne hne with hlt | hgt
  · exact ring_slot_ne hlt (by omega)
  · exact (ring_slot_ne hgt (by omega)).symm

/-- The last of `writes` positions that is congruent to `position`. -/
def latestWrite (size position writes : Nat) : Nat :=
  position + size * ((writes - 1 - position) / size)

theorem latestWrite_lt {size position writes : Nat} (h : position < writes) :
    latestWrite size position writes < writes := by
  have hdiv := Nat.mul_div_le (writes - 1 - position) size
  unfold latestWrite
  omega

theorem le_latestWrite (size position writes : Nat) :
    position ≤ latestWrite size position writes :=
  Nat.le_add_right _ _

theorem latestWrite_eq_self_iff {size position writes : Nat} (hsize : 0 < size)
    (h : position < writes) :
    latestWrite size position writes = position ↔ writes - position ≤ size := by
  have hzero : (writes - 1 - position) / size = 0 ↔ writes - 1 - position < size := by
    rw [Nat.div_eq_zero_iff]
    omega
  have hmul : size * ((writes - 1 - position) / size) = 0 ↔
      (writes - 1 - position) / size = 0 := by
    rw [Nat.mul_eq_zero]
    omega
  unfold latestWrite
  omega

theorem latestWrite_succ_of_congr {size position writes : Nat}
    (hle : position ≤ writes) (hslot : writes % size = position % size) :
    latestWrite size position (writes + 1) = writes := by
  have hdvd : size ∣ writes - position :=
    (Nat.modEq_iff_dvd' hle).mp hslot.symm
  unfold latestWrite
  rw [Nat.add_sub_cancel, Nat.mul_div_cancel' hdvd]
  omega

theorem latestWrite_succ_of_not_congr {size position writes : Nat}
    (hlt : position < writes) (hslot : writes % size ≠ position % size) :
    latestWrite size position (writes + 1) = latestWrite size position writes := by
  have hdvd : ¬ size ∣ writes - 1 - position + 1 := by
    rw [show writes - 1 - position + 1 = writes - position by omega]
    exact fun h => hslot ((Nat.modEq_iff_dvd' hlt.le).mpr h).symm
  unfold latestWrite
  rw [Nat.add_sub_cancel, show writes - position = writes - 1 - position + 1 by omega,
    Nat.succ_div, if_neg hdvd, Nat.add_zero]

/-! ## Numbered items -/

/-- Items numbered without gap or repetition are, in some order, the items in a row. -/
theorem perm_of_numbered {numbered : List (Nat × Item)} {items : List Item}
    (hdistinct : (numbered.map Prod.fst).Nodup)
    (hplaced : ∀ entry ∈ numbered, items[entry.1]? = some entry.2)
    (hcovered : ∀ number < items.length, ∃ entry ∈ numbered, entry.1 = number) :
    (numbered.map Prod.snd).Perm items := by
  have hnumbers : (numbered.map Prod.fst).Perm (List.range items.length) := by
    apply (List.perm_ext_iff_of_nodup hdistinct List.nodup_range).mpr
    intro number
    simp only [List.mem_map, List.mem_range]
    constructor
    · rintro ⟨entry, hentry, rfl⟩
      exact (List.getElem?_eq_some_iff.mp (hplaced entry hentry)).1
    · intro hnumber
      obtain ⟨entry, hentry, rfl⟩ := hcovered number hnumber
      exact ⟨entry, hentry, rfl⟩
  have hitems : (List.range items.length).map (fun number => items[number]?) =
      items.map some := by
    apply List.ext_getElem (by simp)
    intro number hleft hright
    simp at hright
    simp [hright]
  have hsome := hnumbers.map fun number => items[number]?
  rw [hitems, List.map_map] at hsome
  have hentries : numbered.map ((fun number => items[number]?) ∘ Prod.fst) =
      (numbered.map Prod.snd).map some := by
    rw [List.map_map]
    exact List.map_congr_left hplaced
  rw [hentries] at hsome
  exact (List.map_perm_map_iff (Option.some_injective Item)).mp hsome

end RinhaBackend.Foundation
