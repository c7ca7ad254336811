import Mathlib.Logic.Function.Basic
import Mathlib.Order.Monotone.Defs

/-!
# Accumulators without synchronisation

A client adds to a cell in two steps: it loads the cell and later stores the loaded
value with its amount added.  A store that follows another client's store overwrites
it.  `sums` is what the cells would hold had each addition been one step, and `loads`
says which values are loaded and not stored yet.
-/

namespace RinhaBackend.Foundation

section Accumulator

variable {Key Value Amount : Type} [DecidableEq Key] {add : Value → Amount → Value}
variable {cells sums : Key → Value} {loads loads' : Key → Value → Prop}
variable {key : Key} {loaded : Value} {amount : Amount}

/-- The second step of an addition. -/
def storeSum (add : Value → Amount → Value) (cells : Key → Value) (key : Key)
    (loaded : Value) (amount : Amount) : Key → Value :=
  Function.update cells key (add loaded amount)

/-- The whole addition as one step. -/
def addSum (add : Value → Amount → Value) (sums : Key → Value) (key : Key)
    (amount : Amount) : Key → Value :=
  storeSum add sums key (sums key) amount

@[simp] theorem storeSum_self :
    storeSum add cells key loaded amount key = add loaded amount :=
  Function.update_self _ _ _

theorem storeSum_of_ne {other : Key} (h : other ≠ key) :
    storeSum add cells key loaded amount other = cells other :=
  Function.update_of_ne h _ _

@[simp] theorem addSum_self : addSum add sums key amount key = add (sums key) amount :=
  storeSum_self

theorem addSum_of_ne {other : Key} (h : other ≠ key) :
    addSum add sums key amount other = sums other :=
  storeSum_of_ne h

/-- A store over the value that was loaded is an addition. -/
theorem storeSum_current (hcells : cells key = sums key) (hloaded : loaded = cells key) :
    storeSum add cells key loaded amount key = addSum add sums key amount key := by
  rw [storeSum_self, addSum_self, hloaded, hcells]

section Order

variable [PartialOrder Value]

/-- A value loaded from a cell that is up to date can only be stored over that value. -/
structure Lags (cells sums : Key → Value) (loads : Key → Value → Prop) : Prop where
  cell_le : ∀ key, cells key ≤ sums key
  load_le : ∀ key value, loads key value → value ≤ sums key
  current : ∀ key, loads key (sums key) → cells key = sums key

omit [DecidableEq Key] in
theorem Lags.load (h : Lags cells sums loads)
    (hloads : ∀ key value, loads' key value → loads key value ∨ value = cells key) :
    Lags cells sums loads' where
  cell_le := h.cell_le
  load_le := by
    intro key value hload
    rcases hloads key value hload with hold | rfl
    · exact h.load_le key value hold
    · exact h.cell_le key
  current := by
    intro key hload
    rcases hloads key _ hload with hold | hcell
    · exact h.current key hold
    · exact hcell.symm

theorem Lags.store (h : Lags cells sums loads)
    (hmono : StrictMono fun value => add value amount)
    (hgrows : sums key < add (sums key) amount) (hload : loads key loaded) :
    Lags (storeSum add cells key loaded amount) (addSum add sums key amount) loads where
  cell_le := by
    intro other
    by_cases hother : other = key
    · subst hother
      rw [storeSum_self, addSum_self]
      exact hmono.monotone (h.load_le _ _ hload)
    · rw [storeSum_of_ne hother, addSum_of_ne hother]
      exact h.cell_le other
  load_le := by
    intro other value hvalue
    by_cases hother : other = key
    · subst hother
      rw [addSum_self]
      exact (h.load_le _ _ hvalue).trans hgrows.le
    · rw [addSum_of_ne hother]
      exact h.load_le other value hvalue
  current := by
    intro other hvalue
    by_cases hother : other = key
    · subst hother
      rw [addSum_self] at hvalue
      exact absurd (h.load_le _ _ hvalue) (not_le_of_gt hgrows)
    · rw [addSum_of_ne hother] at hvalue ⊢
      rw [storeSum_of_ne hother]
      exact h.current other hvalue

theorem Lags.exact_store_iff (h : Lags cells sums loads)
    (hmono : StrictMono fun value => add value amount) (hload : loads key loaded) :
    storeSum add cells key loaded amount key = addSum add sums key amount key ↔
      cells key = sums key ∧ loaded = cells key := by
  constructor
  · intro hexact
    rw [storeSum_self, addSum_self] at hexact
    have hloaded : loaded = sums key := by
      rcases (h.load_le _ _ hload).lt_or_eq with hlt | heq
      · exact absurd hexact (hmono hlt).ne
      · exact heq
    have hcell := h.current key (hloaded ▸ hload)
    exact ⟨hcell, hloaded.trans hcell.symm⟩
  · rintro ⟨hcells, hloaded⟩
    exact storeSum_current hcells hloaded

end Order

end Accumulator

end RinhaBackend.Foundation
