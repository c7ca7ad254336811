import Mathlib.Algebra.Order.BigOperators.Group.List
import Mathlib.Algebra.Order.Ring.Nat

/-!
# Scans of growing counters

A scan reads a list of counters one after another while other threads increment
them.  No snapshot is taken, but counters only grow, so the total of a finished
scan lies between the sums at its start and at its end.
-/

namespace RinhaBackend.Foundation

variable {Slot : Type} {floor counts counts' : Slot → Nat} {window remaining : List Slot}
variable {slot : Slot} {total : Nat}

/--
A scan of `window` with `remaining` still to read.  What it has read is at least
the sum of the counters when it began and at most their sum now.
-/
def Scanned (floor counts : Slot → Nat) (window remaining : List Slot) (total : Nat) :
    Prop :=
  ∃ done, done ++ remaining = window ∧ (done.map floor).sum ≤ total ∧
    total ≤ (done.map counts).sum

namespace Scanned

theorem start (floor counts : Slot → Nat) (window : List Slot) :
    Scanned floor counts window window 0 :=
  ⟨[], rfl, Nat.le_refl 0, Nat.le_refl 0⟩

theorem read (h : Scanned floor counts window (slot :: remaining) total)
    (hslot : floor slot ≤ counts slot) :
    Scanned floor counts window remaining (total + counts slot) := by
  obtain ⟨done, hwindow, hlower, hupper⟩ := h
  refine ⟨done ++ [slot], by simpa using hwindow, ?_, ?_⟩
  · simpa using Nat.add_le_add hlower hslot
  · simpa using hupper

theorem grow (h : Scanned floor counts window remaining total)
    (hgrow : ∀ slot, counts slot ≤ counts' slot) :
    Scanned floor counts' window remaining total := by
  obtain ⟨done, hwindow, hlower, hupper⟩ := h
  exact ⟨done, hwindow, hlower,
    hupper.trans (List.sum_le_sum fun slot _ => hgrow slot)⟩

theorem le_window (h : Scanned floor counts window remaining total) :
    total ≤ (window.map counts).sum := by
  obtain ⟨done, hwindow, -, hupper⟩ := h
  rw [← hwindow, List.map_append, List.sum_append]
  exact hupper.trans (Nat.le_add_right _ _)

theorem finish (h : Scanned floor counts window [] total) :
    (window.map floor).sum ≤ total ∧ total ≤ (window.map counts).sum := by
  obtain ⟨done, hwindow, hlower, hupper⟩ := h
  rw [← hwindow, List.append_nil]
  exact ⟨hlower, hupper⟩

end Scanned

end RinhaBackend.Foundation
