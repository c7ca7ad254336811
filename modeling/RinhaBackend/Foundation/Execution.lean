import Mathlib.Algebra.BigOperators.Group.List.Basic
import Mathlib.Tactic.Abel

/-!
# Executions of a labelled step function

A component is a partial step function: `step state label` is the state after
the label, or `none` when the label is not enabled.  An execution folds a list
of labels, and a guard restricts the labels taken along the way.  Each safety
proof is one step lemma handed to `execute_invariant`.
-/

namespace RinhaBackend.Foundation

variable {State Label : Type}

/-- Fold `step` over a list of labels; `none` when some label is not enabled. -/
def execute (step : State → Label → Option State) :
    State → List Label → Option State
  | state, [] => some state
  | state, label :: labels =>
      match step state label with
      | none => none
      | some next => execute step next labels

/-- Every label of the execution is taken in a state that admits it. -/
def Along (step : State → Label → Option State)
    (guard : State → Label → Prop) : State → List Label → Prop
  | _, [] => True
  | state, label :: labels =>
      guard state label ∧
        match step state label with
        | none => True
        | some next => Along step guard next labels

/-- What an observer notes at each step of an execution, in order. -/
def observe {Note : Type} (step : State → Label → Option State)
    (note : State → Label → State → List Note) : State → List Label → List Note
  | _, [] => []
  | state, label :: labels =>
      match step state label with
      | none => []
      | some next => note state label next ++ observe step note next labels

variable {step : State → Label → Option State}
variable {guard : State → Label → Prop}

instance decidableAlong [∀ state label, Decidable (guard state label)] :
    (state : State) → (labels : List Label) → Decidable (Along step guard state labels)
  | _, [] => .isTrue trivial
  | state, label :: labels =>
      @instDecidableAnd _ _ (inferInstanceAs (Decidable (guard state label)))
        (match step state label with
        | none => .isTrue trivial
        | some next => decidableAlong next labels)

@[simp] theorem execute_nil (state : State) :
    execute step state [] = some state := rfl

theorem execute_cons_of_step {state next : State} {label : Label}
    (hstep : step state label = some next) (labels : List Label) :
    execute step state (label :: labels) = execute step next labels := by
  simp [execute, hstep]

theorem exists_step_of_execute {state final : State} {label : Label} {labels : List Label}
    (run : execute step state (label :: labels) = some final) :
    ∃ next, step state label = some next ∧ execute step next labels = some final := by
  cases hstep : step state label with
  | none => simp [execute, hstep] at run
  | some next =>
      rw [execute_cons_of_step hstep] at run
      exact ⟨next, rfl, run⟩

theorem execute_invariant {Inv : State → Prop}
    (preserves : ∀ state label next, Inv state → guard state label →
      step state label = some next → Inv next)
    {state final : State} {labels : List Label}
    (start : Inv state) (along : Along step guard state labels)
    (run : execute step state labels = some final) : Inv final := by
  induction labels generalizing state with
  | nil =>
      simp only [execute_nil, Option.some.injEq] at run
      exact run ▸ start
  | cons label labels ih =>
      obtain ⟨hguard, hrest⟩ := along
      obtain ⟨next, hstep, run⟩ := exists_step_of_execute run
      simp only [hstep] at hrest
      exact ih (preserves state label next start hguard hstep) hrest run

/-- An invariant that also speaks of the labels taken and of what was noted so far. -/
theorem execute_noted {Note : Type} {note : State → Label → State → List Note}
    (Inv : List Label → List Note → State → Prop)
    (preserves : ∀ taken notes state label next, Inv taken notes state →
      step state label = some next →
      Inv (taken ++ [label]) (notes ++ note state label next) next)
    {state final : State} {taken labels : List Label} {notes : List Note}
    (start : Inv taken notes state) (run : execute step state labels = some final) :
    Inv (taken ++ labels) (notes ++ observe step note state labels) final := by
  induction labels generalizing state taken notes with
  | nil =>
      simp only [execute_nil, Option.some.injEq] at run
      simpa only [observe, List.append_nil, ← run] using start
  | cons label labels ih =>
      obtain ⟨next, hstep, run⟩ := exists_step_of_execute run
      have hrest := ih (preserves taken notes state label next start hstep) run
      simpa only [observe, hstep, List.append_assoc, List.singleton_append] using hrest

theorem bound_of_execute {Bound : State → Prop}
    (bounded : ∀ state label next, step state label = some next → Bound next → Bound state)
    {state final : State} {labels : List Label} (bound : Bound final)
    (run : execute step state labels = some final) : Bound state := by
  induction labels generalizing state with
  | nil =>
      simp only [execute_nil, Option.some.injEq] at run
      exact run ▸ bound
  | cons label labels ih =>
      obtain ⟨next, hstep, run⟩ := exists_step_of_execute run
      exact bounded state label next hstep (ih run)

/--
A property that each step keeps exactly under the guard measures the guard.  The steps
may assume a bound on the state after them when no step leads back below it.
-/
theorem execute_iff_along_of_bound {Inv Holds : State → Prop} (Bound : State → Prop)
    (bounded : ∀ state label next, step state label = some next → Bound next → Bound state)
    (preserves : ∀ state label next, Inv state → Bound next →
      step state label = some next → Inv next)
    (exactly : ∀ state label next, Inv state → Bound next →
      step state label = some next → (Holds next ↔ Holds state ∧ guard state label))
    {state final : State} {labels : List Label} (start : Inv state) (bound : Bound final)
    (run : execute step state labels = some final) :
    Holds final ↔ Holds state ∧ Along step guard state labels := by
  induction labels generalizing state with
  | nil =>
      simp only [execute_nil, Option.some.injEq] at run
      simp [run, Along]
  | cons label labels ih =>
      obtain ⟨next, hstep, run⟩ := exists_step_of_execute run
      have hbound : Bound next := bound_of_execute bounded bound run
      rw [ih (preserves state label next start hbound hstep) run,
        exactly state label next start hbound hstep]
      simp only [Along, hstep, and_assoc]

theorem execute_iff_along {Inv Holds : State → Prop}
    (preserves : ∀ state label next, Inv state →
      step state label = some next → Inv next)
    (exactly : ∀ state label next, Inv state → step state label = some next →
      (Holds next ↔ Holds state ∧ guard state label))
    {state final : State} {labels : List Label} (start : Inv state)
    (run : execute step state labels = some final) :
    Holds final ↔ Holds state ∧ Along step guard state labels :=
  execute_iff_along_of_bound (fun _ => True) (fun _ _ _ _ _ => trivial)
    (fun state label next h _ => preserves state label next h)
    (fun state label next h _ => exactly state label next h) start trivial run

theorem along_true (state : State) (labels : List Label) :
    Along step (fun _ _ => True) state labels := by
  induction labels generalizing state with
  | nil => trivial
  | cons label labels ih =>
      refine ⟨trivial, ?_⟩
      cases step state label with
      | none => trivial
      | some next => exact ih next

theorem along_and {guard' : State → Label → Prop} {state : State} {labels : List Label}
    (along : Along step guard state labels) (along' : Along step guard' state labels) :
    Along step (fun state label => guard state label ∧ guard' state label) state labels := by
  induction labels generalizing state with
  | nil => trivial
  | cons label labels ih =>
      obtain ⟨hguard, hrest⟩ := along
      obtain ⟨hguard', hrest'⟩ := along'
      refine ⟨⟨hguard, hguard'⟩, ?_⟩
      cases hstep : step state label with
      | none => trivial
      | some next =>
          simp only [hstep] at hrest hrest'
          exact ih hrest hrest'

theorem along_mono {guard' : State → Label → Prop}
    (weaken : ∀ state label, guard state label → guard' state label)
    {state : State} {labels : List Label}
    (along : Along step guard state labels) :
    Along step guard' state labels := by
  induction labels generalizing state with
  | nil => trivial
  | cons label labels ih =>
      obtain ⟨hguard, hrest⟩ := along
      refine ⟨weaken state label hguard, ?_⟩
      cases hstep : step state label with
      | none => trivial
      | some next =>
          simp only [hstep] at hrest
          exact ih hrest

theorem along_of_invariant {Inv : State → Prop}
    (preserves : ∀ state label next, Inv state →
      step state label = some next → Inv next)
    (admits : ∀ state label, Inv state → guard state label)
    {state : State} (start : Inv state) (labels : List Label) :
    Along step guard state labels := by
  induction labels generalizing state with
  | nil => trivial
  | cons label labels ih =>
      refine ⟨admits state label start, ?_⟩
      cases hstep : step state label with
      | none => trivial
      | some next => exact ih (preserves state label next start hstep)

theorem along_of_forall {admits : Label → Prop} {labels : List Label}
    (h : ∀ label ∈ labels, admits label) (state : State) :
    Along step (fun _ label => admits label) state labels := by
  induction labels generalizing state with
  | nil => trivial
  | cons label labels ih =>
      refine ⟨h label (by simp), ?_⟩
      cases step state label with
      | none => trivial
      | some next => exact ih (fun other hother => h other (by simp [hother])) next

/-- A step function whose steps another one takes, or does not see, refines it. -/
theorem execute_refines {View ViewLabel : Type} {viewStep : View → ViewLabel → Option View}
    {view : State → View}
    (simulates : ∀ state label next, step state label = some next →
      view next = view state ∨
        ∃ viewLabel, viewStep (view state) viewLabel = some (view next))
    {state final : State} {labels : List Label}
    (run : execute step state labels = some final) :
    ∃ viewLabels, execute viewStep (view state) viewLabels = some (view final) := by
  induction labels generalizing state with
  | nil =>
      simp only [execute_nil, Option.some.injEq] at run
      exact ⟨[], by rw [run, execute_nil]⟩
  | cons label labels ih =>
      obtain ⟨next, hstep, run⟩ := exists_step_of_execute run
      obtain ⟨viewLabels, hviewed⟩ := ih run
      rcases simulates state label next hstep with hsame | ⟨viewLabel, hseen⟩
      · exact ⟨viewLabels, hsame ▸ hviewed⟩
      · exact ⟨viewLabel :: viewLabels, by rw [execute_cons_of_step hseen, hviewed]⟩

theorem execute_cost {cost : State → Nat} {counted : Label → Bool}
    (lowers : ∀ state label next, step state label = some next →
      cost next + (if counted label then 1 else 0) ≤ cost state)
    {state final : State} {labels : List Label}
    (run : execute step state labels = some final) :
    labels.countP counted + cost final ≤ cost state := by
  induction labels generalizing state with
  | nil =>
      simp only [execute_nil, Option.some.injEq] at run
      simp [run]
  | cons label labels ih =>
      obtain ⟨next, hstep, run⟩ := exists_step_of_execute run
      have hhead := lowers state label next hstep
      have htail := ih run
      rw [List.countP_cons]
      omega

section Measure

variable {Inv Done : State → Prop} {cost : State → Nat}

/-- Guarded steps that each lower a cost cannot go on for ever. -/
theorem execute_length_le
    (preserves : ∀ state label next, Inv state → guard state label →
      step state label = some next → Inv next)
    (lowers : ∀ state label next, Inv state → guard state label →
      step state label = some next → cost next < cost state)
    {state final : State} {labels : List Label} (start : Inv state)
    (along : Along step guard state labels)
    (run : execute step state labels = some final) :
    labels.length + cost final ≤ cost state := by
  induction labels generalizing state with
  | nil =>
      simp only [execute_nil, Option.some.injEq] at run
      simp [run]
  | cons label labels ih =>
      obtain ⟨hguard, hrest⟩ := along
      obtain ⟨next, hstep, run⟩ := exists_step_of_execute run
      simp only [hstep] at hrest
      have hhead := lowers state label next start hguard hstep
      have htail := ih (preserves state label next start hguard hstep) hrest run
      rw [List.length_cons]
      omega

/-- Such steps reach the end when one is enabled until then. -/
theorem exists_execute_done
    (preserves : ∀ state label next, Inv state → guard state label →
      step state label = some next → Inv next)
    (lowers : ∀ state label next, Inv state → guard state label →
      step state label = some next → cost next < cost state)
    (advances : ∀ state, Inv state → Done state ∨
      ∃ label next, guard state label ∧ step state label = some next)
    {state : State} (start : Inv state) :
    ∃ labels final, Along step guard state labels ∧
      execute step state labels = some final ∧ Done final := by
  induction hcost : cost state using Nat.strong_induction_on generalizing state with
  | _ bound ih =>
      rcases advances state start with hdone | ⟨label, next, hguard, hstep⟩
      · exact ⟨[], state, trivial, rfl, hdone⟩
      · have hlower := lowers state label next start hguard hstep
        obtain ⟨labels, final, halong, hrun, hdone⟩ :=
          ih (cost next) (hcost ▸ hlower) (preserves state label next start hguard hstep) rfl
        refine ⟨label :: labels, final, ⟨hguard, ?_⟩, ?_, hdone⟩
        · simpa only [hstep] using halong
        · rwa [execute_cons_of_step hstep]

end Measure

/-! ## Totals over an indexed family of components -/

theorem sum_map_set {Item Total : Type} [AddCommMonoid Total]
    (share : Item → Total) {items : List Item} {index : Nat} {item : Item}
    (hitem : items[index]? = some item) (new : Item) :
    ((items.set index new).map share).sum + share item =
      (items.map share).sum + share new := by
  induction items generalizing index with
  | nil => simp at hitem
  | cons head tail ih =>
      cases index with
      | zero =>
          simp only [List.getElem?_cons_zero, Option.some.injEq] at hitem
          subst hitem
          simp only [List.set_cons_zero, List.map_cons, List.sum_cons]
          abel
      | succ index =>
          simp only [List.getElem?_cons_succ] at hitem
          have hrest := ih hitem
          simp only [List.set_cons_succ, List.map_cons, List.sum_cons]
          rw [add_assoc, hrest, add_assoc]

theorem countP_set {Item : Type} (counted : Item → Bool) {items : List Item}
    {index : Nat} {item : Item} (hitem : items[index]? = some item) (new : Item) :
    (items.set index new).countP counted + (counted item).toNat =
      items.countP counted + (counted new).toNat := by
  induction items generalizing index with
  | nil => simp at hitem
  | cons head tail ih =>
      cases index with
      | zero =>
          simp only [List.getElem?_cons_zero, Option.some.injEq] at hitem
          subst hitem
          cases hold : counted head <;> cases hnew : counted new <;> simp [hold, hnew]
      | succ index =>
          simp only [List.getElem?_cons_succ] at hitem
          have hrest := ih hitem
          simp only [List.set_cons_succ, List.countP_cons]
          omega

section Count

variable {Item : Type} {counted : Item → Bool} {items : List Item} {index : Nat}
variable {item new : Item} (hitem : items[index]? = some item)

include hitem

theorem countP_set_keep (hkeep : counted new = counted item) :
    (items.set index new).countP counted = items.countP counted := by
  have hcount := countP_set counted hitem new
  rw [hkeep] at hcount
  exact Nat.add_right_cancel hcount

theorem countP_set_enter (hold : counted item = false) (hnew : counted new = true) :
    (items.set index new).countP counted = items.countP counted + 1 := by
  have hcount := countP_set counted hitem new
  simp only [hold, hnew, Bool.toNat_false, Bool.toNat_true] at hcount
  omega

theorem countP_set_leave (hold : counted item = true) (hnew : counted new = false) :
    (items.set index new).countP counted = items.countP counted - 1 := by
  have hcount := countP_set counted hitem new
  simp only [hold, hnew, Bool.toNat_false, Bool.toNat_true] at hcount
  omega

theorem countP_ne_zero (hold : counted item = true) : items.countP counted ≠ 0 := by
  intro hnone
  exact List.countP_eq_zero.mp hnone item (List.mem_of_getElem? hitem) hold

end Count

theorem all_set {Item : Type} {good : Item → Prop} {items : List Item}
    {index : Nat} {new : Item} (hnew : good new)
    (hitems : ∀ item ∈ items, good item) :
    ∀ item ∈ items.set index new, good item := fun item hitem =>
  (List.mem_or_eq_of_mem_set hitem).elim (hitems item) fun heq => heq ▸ hnew

theorem getElem?_set_of_getElem? {Item : Type} {items : List Item} {index : Nat}
    {item : Item} (hitem : items[index]? = some item) (new : Item) :
    (items.set index new)[index]? = some new :=
  List.getElem?_set_self (List.getElem?_eq_some_iff.mp hitem).1

theorem map_set_of_eq {Item Image : Type} (view : Item → Image) {items : List Item}
    {index : Nat} {item new : Item} (hitem : items[index]? = some item)
    (hview : view new = view item) : (items.set index new).map view = items.map view := by
  obtain ⟨hlength, rfl⟩ := List.getElem?_eq_some_iff.mp hitem
  have himage : index < (items.map view).length := by simpa using hlength
  rw [List.map_set, hview, ← List.getElem_map view (h := himage), List.set_getElem_self]

theorem mem_set_of_getElem? {Item : Type} {items : List Item} {index : Nat}
    {item : Item} (hitem : items[index]? = some item) (new : Item) :
    new ∈ items.set index new :=
  List.mem_of_getElem? (getElem?_set_of_getElem? hitem new)

theorem mem_set_cases {Item : Type} {items : List Item} {index : Nat} {new other : Item}
    (h : other ∈ items.set index new) :
    other = new ∨ ∃ place ≠ index, items[place]? = some other := by
  obtain ⟨place, hplace⟩ := List.mem_iff_getElem?.mp h
  rw [List.getElem?_set] at hplace
  split_ifs at hplace with hindex
  · left
    exact (Option.some.inj hplace).symm
  · right
    exact ⟨place, Ne.symm hindex, hplace⟩

theorem mem_set_of_ne {Item : Type} {items : List Item} {index : Nat} {item other : Item}
    (hitem : items[index]? = some item) (hother : other ∈ items) (hne : other ≠ item)
    (new : Item) : other ∈ items.set index new := by
  obtain ⟨place, hplace⟩ := List.mem_iff_getElem?.mp hother
  have hindex : index ≠ place := by
    rintro rfl
    exact hne (Option.some.inj (hplace.symm.trans hitem))
  apply List.mem_of_getElem?
  rw [List.getElem?_set_ne hindex]
  exact hplace

theorem all_append_singleton {Item : Type} {good : Item → Prop} {items : List Item}
    {new : Item} (hnew : good new) (hitems : ∀ item ∈ items, good item) :
    ∀ item ∈ items ++ [new], good item :=
  List.forall_mem_append.mpr ⟨hitems, List.forall_mem_singleton.mpr hnew⟩

end RinhaBackend.Foundation
