import Mathlib.Data.List.Forall2
import Mathlib.Data.Option.Defs
import RinhaBackend.Foundation.Execution

/-!
# Two executions in lockstep

Two components run side by side on lists of labels that are related one by one.
When each step of the first can be answered by a step of the second that restores
a relation between the states, a whole execution can.  The lemmas on lists lift a
relation between elements through lookups and updates.
-/

namespace RinhaBackend.Foundation

theorem execute_lockstep {State State' Label Label' : Type}
    {step : State → Label → Option State} {step' : State' → Label' → Option State'}
    {related : State → State' → Prop} {labelled : Label → Label' → Prop}
    (answers : ∀ state state' label label' next, related state state' →
      labelled label label' → step state label = some next →
        ∃ next', step' state' label' = some next' ∧ related next next')
    {state final : State} {state' : State'} {labels : List Label} {labels' : List Label'}
    (start : related state state') (along : List.Forall₂ labelled labels labels')
    (run : execute step state labels = some final) :
    ∃ final', execute step' state' labels' = some final' ∧ related final final' := by
  induction along generalizing state state' with
  | nil =>
      simp only [execute_nil, Option.some.injEq] at run
      exact ⟨state', rfl, run ▸ start⟩
  | @cons label label' labels labels' hlabel _ ih =>
      obtain ⟨next, hstep, run⟩ := exists_step_of_execute run
      obtain ⟨next', hstep', hnext⟩ := answers state state' label label' next start
        hlabel hstep
      rw [execute_cons_of_step hstep']
      exact ih hnext run

section

variable {Item Item' : Type} {related related' : Item → Item' → Prop}
variable {outcome : Option Item} {outcome' : Option Item'}

theorem exists_of_rel_some {item : Item} (h : Option.Rel related (some item) outcome') :
    ∃ item', outcome' = some item' ∧ related item item' := by
  cases h with
  | some hrelated => exact ⟨_, rfl, hrelated⟩

theorem exists_of_rel_some_right {item' : Item'} (h : Option.Rel related outcome (some item')) :
    ∃ item, outcome = some item ∧ related item item' := by
  cases h with
  | some hrelated => exact ⟨_, rfl, hrelated⟩

theorem rel_imp (h : Option.Rel related outcome outcome')
    (himp : ∀ item item', outcome = some item → related item item' → related' item item') :
    Option.Rel related' outcome outcome' := by
  cases h with
  | none => exact .none
  | some hrelated => exact .some (himp _ _ rfl hrelated)

end

/-- Steps that agree make executions that agree: both go through or neither does. -/
theorem execute_related {State State' Label : Type}
    {step : State → Label → Option State} {step' : State' → Label → Option State'}
    {related : State → State' → Prop}
    (agree : ∀ state state' label, related state state' →
      Option.Rel related (step state label) (step' state' label))
    {state : State} {state' : State'} (start : related state state') (labels : List Label) :
    Option.Rel related (execute step state labels) (execute step' state' labels) := by
  induction labels generalizing state state' with
  | nil => exact .some start
  | cons label labels ih =>
      have hstep := agree state state' label start
      unfold execute
      generalize step state label = outcome at hstep ⊢
      generalize step' state' label = outcome' at hstep ⊢
      cases hstep with
      | none => exact .none
      | some hrelated => exact ih hrelated

section

variable {Item Item' : Type} {related : Item → Item' → Prop}
variable {items : List Item} {items' : List Item'}

theorem forall₂_getElem? (h : List.Forall₂ related items items') {index : Nat} {item : Item}
    (hitem : items[index]? = some item) :
    ∃ item', items'[index]? = some item' ∧ related item item' := by
  induction h generalizing index with
  | nil => simp at hitem
  | cons hhead _ ih =>
      cases index with
      | zero =>
          simp only [List.getElem?_cons_zero, Option.some.injEq] at hitem ⊢
          exact ⟨_, rfl, hitem ▸ hhead⟩
      | succ index =>
          simp only [List.getElem?_cons_succ] at hitem ⊢
          exact ih hitem

theorem forall₂_lookup (h : List.Forall₂ related items items') (index : Nat) :
    (items[index]? = none ∧ items'[index]? = none) ∨
      ∃ item item', items[index]? = some item ∧ items'[index]? = some item' ∧
        related item item' := by
  cases hitem : items[index]? with
  | none =>
      rw [List.getElem?_eq_none_iff, h.length_eq] at hitem
      exact .inl ⟨rfl, List.getElem?_eq_none_iff.mpr hitem⟩
  | some item =>
      obtain ⟨item', hitem', hrelated⟩ := forall₂_getElem? h hitem
      exact .inr ⟨item, item', rfl, hitem', hrelated⟩

theorem forall₂_set (h : List.Forall₂ related items items') {item : Item} {item' : Item'}
    (hitem : related item item') (index : Nat) :
    List.Forall₂ related (items.set index item) (items'.set index item') := by
  induction h generalizing index with
  | nil => exact .nil
  | cons hhead htail ih =>
      cases index with
      | zero => exact .cons hitem htail
      | succ index => exact .cons hhead (ih index)

theorem forall₂_append_singleton (h : List.Forall₂ related items items') {item : Item}
    {item' : Item'} (hitem : related item item') :
    List.Forall₂ related (items ++ [item]) (items' ++ [item']) :=
  List.rel_append h (.cons hitem .nil)

end

end RinhaBackend.Foundation
