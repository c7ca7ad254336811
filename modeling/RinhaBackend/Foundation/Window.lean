import Mathlib.Data.List.FinRange

/-!
# Windows of a bounded index range

`between first last` lists the indices of a vector from `first` to `last`.  The
bounds are arbitrary naturals: indices outside the vector are left out.
-/

namespace RinhaBackend.Foundation

theorem filter_eq_cons_of_least {Index : Type} [LinearOrder Index] {keep : Index → Bool}
    {least : Index} {indices : List Index} (hsorted : indices.Pairwise (· < ·))
    (hmem : least ∈ indices) (hkeep : keep least = true)
    (hleast : ∀ index, keep index = true → least ≤ index) :
    indices.filter keep =
      least :: indices.filter fun index => keep index && decide (index ≠ least) := by
  induction indices with
  | nil => simp at hmem
  | cons head tail ih =>
      obtain ⟨hhead, htail⟩ := List.pairwise_cons.mp hsorted
      rcases List.mem_cons.mp hmem with rfl | hmem
      · have hrest : tail.filter keep =
            tail.filter fun index => keep index && decide (index ≠ least) := by
          apply List.filter_congr
          intro index hindex
          simp [(hhead index hindex).ne']
        simp [hkeep, hrest]
      · have hdrop : keep head = false := by
          by_contra hne
          have hle := hleast head (by simpa using hne)
          exact absurd (hhead least hmem) (not_lt.mpr hle)
        simp [hdrop, ih htail hmem]

variable {size : Nat}

/-- The indices of a vector from `first` to `last`, in order. -/
def between (first last : Nat) : List (Fin size) :=
  (List.finRange size).filter fun slot => first ≤ slot.val ∧ slot.val ≤ last

theorem mem_between {first last : Nat} {slot : Fin size} :
    slot ∈ between first last ↔ first ≤ slot.val ∧ slot.val ≤ last := by
  simp [between]

theorem between_nodup (first last : Nat) :
    (between first last : List (Fin size)).Nodup :=
  (List.nodup_finRange size).filter _

theorem between_sublist_finRange (first last : Nat) :
    (between first last).Sublist (List.finRange size) :=
  List.filter_sublist

theorem between_congr {first last first' last' : Nat}
    (h : ∀ slot < size, (first ≤ slot ∧ slot ≤ last) ↔ (first' ≤ slot ∧ slot ≤ last')) :
    (between first last : List (Fin size)) = between first' last' := by
  unfold between
  apply List.filter_congr
  intro slot _
  simp only [h slot.val slot.isLt]

theorem between_of_lt {first last : Nat} (h : last < first) :
    between first last = ([] : List (Fin size)) := by
  simp only [between, List.filter_eq_nil_iff]
  intro slot _
  simp
  omega

theorem between_of_size_le {first last : Nat} (h : size ≤ first) :
    between first last = ([] : List (Fin size)) := by
  simp only [between, List.filter_eq_nil_iff]
  intro slot _
  have hslot := slot.isLt
  simp
  omega

theorem between_cons {first last : Nat} (hle : first ≤ last) (hfirst : first < size) :
    between first last = (⟨first, hfirst⟩ : Fin size) :: between (first + 1) last := by
  unfold between
  rw [filter_eq_cons_of_least (List.pairwise_lt_finRange size)
    (List.mem_finRange ⟨first, hfirst⟩) (by simpa using hle)]
  · congr 1
    apply List.filter_congr
    intro slot _
    rw [Bool.eq_iff_iff]
    simp only [ne_eq, Fin.ext_iff, Bool.and_eq_true, decide_eq_true_eq]
    omega
  · intro slot hslot
    simp only [Bool.decide_and, Bool.and_eq_true, decide_eq_true_eq] at hslot
    exact hslot.1

theorem between_sublist {first last first' last' : Nat} (hfirst : first' ≤ first)
    (hlast : last ≤ last') :
    (between first last : List (Fin size)).Sublist (between first' last') := by
  unfold between
  apply List.monotone_filter_right
  intro slot hslot
  simp only [decide_eq_true_eq] at hslot ⊢
  exact ⟨hfirst.trans hslot.1, hslot.2.trans hlast⟩

theorem between_append {first middle last : Nat} (hfirst : first ≤ middle + 1)
    (hlast : middle ≤ last) :
    (between first middle ++ between (middle + 1) last : List (Fin size)) =
      between first last := by
  obtain ⟨count, hcount⟩ := Nat.exists_eq_add_of_le hfirst
  induction count generalizing first with
  | zero =>
      rw [between_of_lt (by omega), List.nil_append, hcount, Nat.add_zero]
  | succ count ih =>
      by_cases hsize : first < size
      · rw [between_cons (by omega) hsize, between_cons (by omega) hsize,
          List.cons_append, ih (by omega) (by omega)]
      · rw [between_of_size_le (by omega), between_of_size_le (by omega),
          between_of_size_le (by omega), List.append_nil]

end RinhaBackend.Foundation
