import Mathlib

/-! Partial transition functions: runs over a list of actions, the rule that carries an
invariant along a run, and the rule that carries a preorder along it. -/

namespace Transition

variable {σ α : Type*} {step : σ → α → Option σ}

/-- Performs the actions in order; `none` when one of them is not enabled. -/
def run (step : σ → α → Option σ) : List α → σ → Option σ
  | [], state => some state
  | action :: rest, state => (step state action).bind (run step rest)

theorem run_cons {action : α} {rest : List α} {state final : σ} :
    run step (action :: rest) state = some final ↔
      ∃ next, step state action = some next ∧ run step rest next = some final := by
  simp [run, Option.bind_eq_some_iff]

theorem run_invariant (invariant : σ → Prop)
    (keep : ∀ state action next, invariant state → step state action = some next → invariant next)
    {actions : List α} {state final : σ} (start : invariant state)
    (ran : run step actions state = some final) : invariant final := by
  induction actions generalizing state with
  | nil => exact Option.some.inj ran ▸ start
  | cons action rest ih =>
    obtain ⟨next, moved, later⟩ := run_cons.mp ran
    exact ih (keep state action next start moved) later

/-- Every step of the run starts in a state and with an action that satisfy `condition`. -/
def Along (step : σ → α → Option σ) (condition : σ → α → Prop) : List α → σ → Prop
  | [], _ => True
  | action :: rest, state => condition state action ∧
      ∀ next, step state action = some next → Along step condition rest next

/-- The condition can be checked along the run. -/
instance Along.decidable (condition : σ → α → Prop) [∀ state action, Decidable (condition state action)] :
    ∀ (actions : List α) (state : σ), Decidable (Along step condition actions state)
  | [], _ => .isTrue trivial
  | action :: rest, state =>
    match moved : step state action with
    | none => decidable_of_iff (condition state action) ⟨fun here => ⟨here, fun _ other => by
        rw [moved] at other
        cases other⟩, And.left⟩
    | some next =>
      have := Along.decidable condition rest next
      decidable_of_iff (condition state action ∧ Along step condition rest next) (by
        simp only [Along, moved, Option.some.injEq, forall_eq'])

theorem Along.of_mem {condition : σ → α → Prop} {actions : List α}
    (meets : ∀ action ∈ actions, ∀ state, condition state action) (state : σ) : Along step condition actions state := by
  induction actions generalizing state with
  | nil => trivial
  | cons action rest ih =>
    exact ⟨meets action (List.mem_cons_self ..) state,
      fun next _ => ih (fun other member => meets other (List.mem_cons_of_mem _ member)) next⟩

theorem Along.imp {condition weaker : σ → α → Prop} (weaken : ∀ state action, condition state action → weaker state action)
    {actions : List α} {state : σ} (along : Along step condition actions state) : Along step weaker actions state := by
  induction actions generalizing state with
  | nil => trivial
  | cons action rest ih => exact ⟨weaken state action along.1, fun next moved => ih (along.2 next moved)⟩

theorem Along.start (property : σ → Prop) {actions : List α} {state final : σ}
    (along : Along step (fun state _ => property state) actions state) (ran : run step actions state = some final)
    (last : property final) : property state := by
  cases actions with
  | nil => exact Option.some.inj ran ▸ last
  | cons action rest => exact along.1

theorem Along.and_invariant {condition : σ → α → Prop} (invariant : σ → Prop)
    (keep : ∀ state action next, invariant state → step state action = some next → invariant next)
    {actions : List α} {state : σ} (start : invariant state) (along : Along step condition actions state) :
    Along step (fun state action => invariant state ∧ condition state action) actions state := by
  induction actions generalizing state with
  | nil => trivial
  | cons action rest ih =>
    exact ⟨⟨start, along.1⟩, fun next moved => ih (keep state action next start moved) (along.2 next moved)⟩

theorem run_along {condition : σ → α → Prop} (invariant : σ → Prop)
    (keep : ∀ state action next, condition state action → invariant state → step state action = some next →
      invariant next)
    {actions : List α} {state final : σ} (start : invariant state) (along : Along step condition actions state)
    (ran : run step actions state = some final) : invariant final := by
  induction actions generalizing state with
  | nil => exact Option.some.inj ran ▸ start
  | cons action rest ih =>
    obtain ⟨next, moved, later⟩ := run_cons.mp ran
    exact ih (keep state action next along.1 start moved) (along.2 next moved) later

section Simulation
variable {τ : Type*} (step' : τ → α → Option τ) (view : σ → τ) {condition : σ → α → Prop}

theorem run_view (shown : α → Bool)
    (commute : ∀ state action, condition state action → shown action = true →
      (step state action).map view = step' (view state) action)
    (silent : ∀ state action next, shown action = false → step state action = some next → view next = view state)
    {actions : List α} {state final : σ} (along : Along step condition actions state)
    (ran : run step actions state = some final) :
    run step' (actions.filter shown) (view state) = some (view final) := by
  induction actions generalizing state with
  | nil => exact congrArg some (congrArg view (Option.some.inj ran))
  | cons action rest ih =>
    obtain ⟨next, moved, later⟩ := run_cons.mp ran
    have tail := ih (along.2 next moved) later
    cases visible : shown action with
    | true =>
      rw [List.filter_cons_of_pos visible]
      refine run_cons.mpr ⟨view next, ?_, tail⟩
      rw [← commute state action along.1 visible, moved, Option.map_some]
    | false =>
      rw [List.filter_cons_of_neg (by rw [visible]; exact Bool.false_ne_true), ← silent state action next visible moved]
      exact tail

theorem run_of_view (commute : ∀ state action, condition state action →
      (step state action).map view = step' (view state) action)
    {actions : List α} {state : σ} {final : τ} (along : Along step condition actions state)
    (ran : run step' actions (view state) = some final) :
    ∃ last, run step actions state = some last ∧ view last = final := by
  induction actions generalizing state with
  | nil => exact ⟨state, rfl, Option.some.inj ran⟩
  | cons action rest ih =>
    obtain ⟨next', moved', later⟩ := run_cons.mp ran
    rw [← commute state action along.1] at moved'
    obtain ⟨next, moved, rfl⟩ := Option.map_eq_some_iff.mp moved'
    obtain ⟨last, tail, same⟩ := ih (along.2 next moved) later
    exact ⟨last, run_cons.mpr ⟨next, moved, tail⟩, same⟩

theorem run_renamed (rename : α → α)
    (commute : ∀ state action, (step state action).map view = step' (view state) (rename action))
    (actions : List α) (state : σ) :
    (run step actions state).map view = run step' (actions.map rename) (view state) := by
  induction actions generalizing state with
  | nil => rfl
  | cons action rest ih =>
    simp only [List.map_cons, run, ← commute]
    cases step state action with
    | none => rfl
    | some next => exact ih next

end Simulation

end Transition
