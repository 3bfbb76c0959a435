/-
Runs of a partial step function.  A step that is not enabled gives no state;
a run is a list of actions, so what holds after every run holds in every
reached state.  Conditions may be placed on the steps of a run.
-/
import Mathlib.Data.List.Basic

namespace CatKV

open List

universe u v

section Runs

variable {State : Type u} {Action : Type v}
variable (step : State → Action → Option State)

/-- Perform the actions in order; every one of them has to be enabled. -/
def runFrom : State → List Action → Option State
  | state, [] => some state
  | state, action :: rest =>
    match step state action with
    | none => none
    | some next => runFrom next rest

/-- Every step of the run meets the condition in the state it starts from. -/
def Meets (condition : State → Action → Prop) : State → List Action → Prop
  | _, [] => True
  | state, action :: rest =>
    condition state action ∧ ∀ next, step state action = some next → Meets condition next rest

variable {step}

theorem runFrom_cons {state final : State} {action : Action} {rest : List Action}
    (hrun : runFrom step state (action :: rest) = some final) :
    ∃ next, step state action = some next ∧ runFrom step next rest = some final := by
  unfold runFrom at hrun
  split at hrun
  · simp at hrun
  · next next hstep => exact ⟨next, hstep, hrun⟩

theorem runFrom_append {state final : State} {first rest : List Action}
    (hrun : runFrom step state (first ++ rest) = some final) :
    ∃ middle, runFrom step state first = some middle ∧ runFrom step middle rest = some final := by
  induction first generalizing state with
  | nil => exact ⟨state, rfl, hrun⟩
  | cons action first ih =>
    obtain ⟨next, hstep, htail⟩ := runFrom_cons hrun
    obtain ⟨middle, hfirst, hrest⟩ := ih htail
    refine ⟨middle, ?_, hrest⟩
    rw [runFrom, hstep]
    exact hfirst

/-- A run is checked step by step along the states it goes through. -/
theorem meets_cons {condition : State → Action → Prop} {state next : State} {action : Action}
    {rest : List Action} (hcondition : condition state action)
    (hstep : step state action = some next) (hrest : Meets step condition next rest) :
    Meets step condition state (action :: rest) := by
  refine ⟨hcondition, fun next' hstep' => ?_⟩
  rw [hstep, Option.some.injEq] at hstep'
  exact hstep' ▸ hrest

/-- A condition on the actions alone. -/
theorem meets_of_forall_mem {condition : Action → Prop} {state : State}
    {actions : List Action} (hall : ∀ action ∈ actions, condition action) :
    Meets step (fun _ action => condition action) state actions := by
  induction actions generalizing state with
  | nil => trivial
  | cons action rest ih =>
    refine ⟨hall action mem_cons_self, fun next _ => ih ?_⟩
    exact fun other hother => hall other (mem_cons_of_mem _ hother)

/-- A run that meets a condition meets every weaker one. -/
theorem Meets.imp {condition weaker : State → Action → Prop}
    (himp : ∀ state action, condition state action → weaker state action) {state : State}
    {actions : List Action} (hmeets : Meets step condition state actions) :
    Meets step weaker state actions := by
  induction actions generalizing state with
  | nil => trivial
  | cons action rest ih =>
    exact ⟨himp state action hmeets.1, fun next hstep => ih (hmeets.2 next hstep)⟩

/-- Under an invariant that the steps keep, what a condition means for a step
it means for every step of a run. -/
theorem Meets.of_invariant {condition conclusion : State → Action → Prop} {invariant : State → Prop}
    (hkept : ∀ state action next, invariant state → condition state action →
      step state action = some next → invariant next)
    (hmeans : ∀ state action, invariant state → condition state action →
      conclusion state action) {state : State} {actions : List Action} (hinit : invariant state)
    (hmeets : Meets step condition state actions) : Meets step conclusion state actions := by
  induction actions generalizing state with
  | nil => trivial
  | cons action rest ih =>
    refine ⟨hmeans state action hinit hmeets.1, fun next hstep => ?_⟩
    exact ih (hkept state action next hinit hmeets.1 hstep) (hmeets.2 next hstep)

/-- With decidable conditions a run can be checked by evaluation. -/
instance Meets.decidable {condition : State → Action → Prop}
    [∀ state action, Decidable (condition state action)] :
    ∀ state actions, Decidable (Meets step condition state actions)
  | _, [] => isTrue trivial
  | state, action :: rest =>
    match hstep : step state action with
    | none => decidable_of_iff (condition state action)
        ⟨fun hcondition => ⟨hcondition, fun next hnext => by
            rw [hstep] at hnext
            cases hnext⟩, And.left⟩
    | some next =>
      have : Decidable (Meets step condition next rest) := Meets.decidable next rest
      decidable_of_iff (condition state action ∧ Meets step condition next rest)
        ⟨fun hmeets => meets_cons hmeets.1 hstep hmeets.2,
          fun hmeets => ⟨hmeets.1, hmeets.2 next hstep⟩⟩

/-- An invariant kept by every step that meets the condition holds after every
run whose steps meet it. -/
theorem run_invariant {condition : State → Action → Prop} {invariant : State → Prop}
    (hstep : ∀ state action next, invariant state → condition state action →
      step state action = some next → invariant next) {state final : State} {actions : List Action}
    (hinit : invariant state) (hmeets : Meets step condition state actions)
    (hrun : runFrom step state actions = some final) : invariant final := by
  induction actions generalizing state with
  | nil =>
    have heq : state = final := by simpa [runFrom] using hrun
    exact heq ▸ hinit
  | cons action rest ih =>
    obtain ⟨next, hnext, hrest⟩ := runFrom_cons hrun
    exact ih (hstep state action next hinit hmeets.1 hnext) (hmeets.2 next hnext) hrest

/-- Where a step keeps a property exactly under the condition, all states of a
run have the property exactly if all its steps meet the condition.  An
invariant of all steps may be used. -/
theorem forall_prefix_iff_meets {condition : State → Action → Prop}
    {invariant property : State → Prop} (hkept : ∀ state action next, invariant state →
      step state action = some next → invariant next)
    (hstep : ∀ state action next, invariant state → property state → step state action = some next →
        (property next ↔ condition state action)) {state final : State} {actions : List Action}
    (hinv : invariant state) (hinit : property state)
    (hrun : runFrom step state actions = some final) :
    (∀ done middle, done <+: actions → runFrom step state done = some middle → property middle) ↔
        Meets step condition state actions := by
  induction actions generalizing state with
  | nil =>
    refine ⟨fun _ => trivial, fun _ done middle hdone hmiddle => ?_⟩
    rw [prefix_nil.mp hdone, runFrom, Option.some.injEq] at hmiddle
    exact hmiddle ▸ hinit
  | cons action rest ih =>
    obtain ⟨next, hnext, hrest⟩ := runFrom_cons hrun
    have hinv' := hkept state action next hinv hnext
    have hiff := hstep state action next hinv hinit hnext
    have hcons : ∀ done, runFrom step state (action :: done) = runFrom step next done := by
      intro done
      rw [runFrom, hnext]
    constructor
    · intro hall
      have hproperty : property next := by
        apply hall [action] next (by simp)
        rw [hcons, runFrom]
      refine meets_cons (hiff.mp hproperty) hnext ((ih hinv' hproperty hrest).mp ?_)
      intro done middle hdone hmiddle
      apply hall (action :: done) middle (cons_prefix_cons.mpr ⟨rfl, hdone⟩)
      rw [hcons, hmiddle]
    · intro hmeets done middle hdone hmiddle
      cases done with
      | nil =>
        rw [runFrom, Option.some.injEq] at hmiddle
        exact hmiddle ▸ hinit
      | cons first done =>
        obtain ⟨rfl, htail⟩ := cons_prefix_cons.mp hdone
        rw [hcons] at hmiddle
        exact (ih hinv' (hiff.mpr hmeets.1) hrest).mpr
          (hmeets.2 next hnext) done middle htail hmiddle

/-- The same for a property of what has happened so far. -/
theorem forall_history_iff_meets {condition : State → Action → Prop}
    {reached : List Action → State} {property : List Action → Prop}
    (hreached : ∀ past action, step (reached past) action = some (reached (past ++ [action])))
    (hconcat : ∀ past action, property past →
      (property (past ++ [action]) ↔ condition (reached past) action)) {past : List Action}
    (hpast : property past) (rest : List Action) :
    (∀ done, done <+: rest → property (past ++ done)) ↔
      Meets step condition (reached past) rest := by
  induction rest generalizing past with
  | nil =>
    refine ⟨fun _ => trivial, fun _ done hdone => ?_⟩
    rw [prefix_nil.mp hdone, append_nil]
    exact hpast
  | cons action rest ih =>
    constructor
    · intro hall
      have hnext := hall [action] (cons_prefix_cons.mpr ⟨rfl, nil_prefix⟩)
      refine meets_cons ((hconcat past action hpast).mp hnext) (hreached past action) ?_
      rw [← ih hnext]
      intro done hdone
      rw [append_assoc]
      exact hall _ (cons_prefix_cons.mpr ⟨rfl, hdone⟩)
    · rintro ⟨hcondition, hrest⟩ done hdone
      have hnext := (hconcat past action hpast).mpr hcondition
      cases done with
      | nil => rwa [append_nil]
      | cons head done =>
        obtain ⟨rfl, htail⟩ := cons_prefix_cons.mp hdone
        rw [← singleton_append, ← append_assoc]
        exact (ih hnext).mpr (hrest _ (hreached past head)) done htail

/-- Steps that cannot fail under the condition make runs that cannot fail. -/
theorem run_progress {condition : State → Action → Prop} {invariant : State → Prop}
    (hstep : ∀ state action, invariant state → condition state action →
      ∃ next, step state action = some next ∧ invariant next) {state : State}
    {actions : List Action} (hinit : invariant state)
    (hmeets : Meets step condition state actions) :
    ∃ final, runFrom step state actions = some final ∧ invariant final := by
  induction actions generalizing state with
  | nil => exact ⟨state, rfl, hinit⟩
  | cons action rest ih =>
    obtain ⟨next, hnext, hkept⟩ := hstep state action hinit hmeets.1
    obtain ⟨final, hrun, hfinal⟩ := ih hkept (hmeets.2 next hnext)
    refine ⟨final, ?_, hfinal⟩
    rw [runFrom, hnext]
    exact hrun

/-- Whichever of the allowed actions are performed, in whichever order, a goal
state is reached; before that one of them is always enabled. -/
inductive Inevitable (step : State → Action → Option State)
    (allowed : Action → Prop) (goal : State → Prop) : State → Prop where
  | now {state : State} (hgoal : goal state) : Inevitable step allowed goal state
  | later {state : State} (henabled : ∃ action next, allowed action ∧ step state action = some next)
      (hnext : ∀ action next, allowed action →
        step state action = some next → Inevitable step allowed goal next) :
      Inevitable step allowed goal state

/-- A goal is inevitable where a measure falls until it is reached. -/
theorem inevitable_of_measure {allowed : Action → Prop} {goal invariant : State → Prop}
    (measure : State → Nat) (hprogress : ∀ state, invariant state →
      goal state ∨ ∃ action next, allowed action ∧ step state action = some next)
    (hstep : ∀ state action next, invariant state → allowed action → step state action = some next →
        invariant next ∧ measure next < measure state) {state : State} (hinv : invariant state) :
    Inevitable step allowed goal state := by
  induction hbound : measure state using Nat.strongRecOn generalizing state with
  | _ bound ih =>
    subst hbound
    rcases hprogress state hinv with hgoal | henabled
    · exact .now hgoal
    · refine .later henabled fun action next hallowed hnext => ?_
      obtain ⟨hkept, hless⟩ := hstep state action next hinv hallowed hnext
      exact ih _ hless hkept rfl

/-- No goal is inevitable where the allowed actions never reach one. -/
theorem not_inevitable_of_invariant {allowed : Action → Prop} {goal invariant : State → Prop}
    (hgoal : ∀ state, invariant state → ¬ goal state)
    (hstep : ∀ state action next, invariant state → allowed action →
      step state action = some next → invariant next) {state : State} (hinv : invariant state) :
    ¬ Inevitable step allowed goal state := by
  intro hinevitable
  induction hinevitable with
  | now hreached => exact hgoal _ hinv hreached
  | later henabled _ ih =>
    obtain ⟨action, next, hallowed, hnext⟩ := henabled
    exact ih action next hallowed hnext (hstep _ action next hinv hallowed hnext)

end Runs

section Pick

variable {α : Type u}

/-- The element at an index together with what stands before and after it. -/
def pick : List α → Nat → Option (List α × α × List α)
  | [], _ => none
  | head :: tail, 0 => some ([], head, tail)
  | head :: tail, index + 1 =>
    match pick tail index with
    | none => none
    | some (before, item, after) => some (head :: before, item, after)

theorem pick_append (before : List α) (item : α) (after : List α) :
    pick (before ++ item :: after) before.length = some (before, item, after) := by
  induction before with
  | nil => rfl
  | cons head before ih =>
    rw [cons_append, length_cons, pick, ih]

variable {items before after : List α} {index : Nat} {item other : α}

theorem pick_eq_some_iff : pick items index = some (before, item, after) ↔
    items = before ++ item :: after ∧ index = before.length := by
  constructor
  · intro hpick
    induction items generalizing index before with
    | nil => simp [pick] at hpick
    | cons head tail ih =>
      cases index with
      | zero =>
        simp only [pick, Option.some.injEq, Prod.mk.injEq] at hpick
        obtain ⟨rfl, rfl, rfl⟩ := hpick
        exact ⟨rfl, rfl⟩
      | succ index =>
        unfold pick at hpick
        split at hpick
        · simp at hpick
        · next hfound =>
          simp only [Option.some.injEq, Prod.mk.injEq] at hpick
          obtain ⟨rfl, rfl, rfl⟩ := hpick
          obtain ⟨rfl, rfl⟩ := ih hfound
          exact ⟨rfl, rfl⟩
  · rintro ⟨rfl, rfl⟩
    exact pick_append before item after

theorem mem_of_mem_others (hsplit : items = before ++ item :: after)
    (hother : other ∈ before ++ after) : other ∈ items := by
  rw [hsplit]
  rcases mem_append.mp hother with hbefore | hafter
  · exact mem_append_left _ hbefore
  · exact mem_append_right _ (mem_cons_of_mem _ hafter)

section

variable (hpick : pick items index = some (before, item, after))

include hpick

theorem pick_eq : items = before ++ item :: after := (pick_eq_some_iff.mp hpick).1

theorem getElem?_of_pick : items[index]? = some item := by
  obtain ⟨rfl, rfl⟩ := pick_eq_some_iff.mp hpick
  simp

theorem mem_of_pick : item ∈ items := by
  rw [pick_eq hpick]
  exact mem_append_right _ mem_cons_self

theorem mem_of_pick_others (hother : other ∈ before ++ after) : other ∈ items :=
  mem_of_mem_others (pick_eq hpick) hother

end

variable {property : α → Prop}

/-- Replacing one element of a list keeps what holds of the others. -/
theorem forall_mem_replace (hothers : ∀ other ∈ before ++ after, property other)
    (hitem : property item) : ∀ other ∈ before ++ item :: after, property other := by
  intro other hother
  rcases mem_append.mp hother with hbefore | htail
  · exact hothers other (mem_append_left _ hbefore)
  · rcases mem_cons.mp htail with rfl | hafter
    · exact hitem
    · exact hothers other (mem_append_right _ hafter)

theorem forall_mem_concat (hitems : ∀ other ∈ items, property other) (hitem : property item) :
    ∀ other ∈ items ++ [item], property other :=
  forall_mem_replace (by rwa [append_nil]) hitem

end Pick

end CatKV
