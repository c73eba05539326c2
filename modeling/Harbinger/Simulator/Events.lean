import Harbinger.Simulator.Basic
import Harbinger.Simulator.Trace

/-! The event loop of `simulate`. The routing and learning closures share a state of type `σ`.
`started`, `finished` and `clock` record what happened; no step reads them. -/

namespace Harbinger.Simulator

/-- The arguments of `simulate`. -/
structure Plan (σ : Type) where
  rows : List (Invocation ℚ)
  compress : ℚ
  workers : Nat
  levels : Nat
  threshold : ℚ
  interval : ℚ
  policy : Policy
  route : σ → Invocation ℚ → ℚ → (Nat × ℚ) × σ
  learn : σ → Invocation ℚ → ℚ → σ

namespace Plan
variable {σ : Type} (plan : Plan σ)

def row (i : Nat) : Invocation ℚ := plan.rows.getD i ⟨0, 0, 0⟩

def arrival (i : Nat) : ℚ := ((plan.row i).arrivalMs - (plan.row 0).arrivalMs) / plan.compress

def duration (i : Nat) : ℚ := (plan.row i).durationMs

def setting : Setting Nat :=
  { levels := plan.levels, threshold := plan.threshold, policy := plan.policy, arrival := plan.arrival }

end Plan

/-- An end and the row that ends there. -/
abbrev Completion := ℚ × Nat

/-- The order of the priority queue. -/
def Completion.before (first second : Completion) : Prop :=
  first.1 < second.1 ∨ first.1 = second.1 ∧ first.2 ≤ second.2

instance : DecidableRel Completion.before := fun _ _ => inferInstanceAs (Decidable (_ ∨ _))

/-- The locals of `simulate`; the priority queue is a list with its top in front. -/
structure Sim (σ : Type) where
  levels : Levels Nat := {}
  predicted : Nat → ℚ := fun _ => 0
  levelCost : Nat → ℚ := fun _ => 0
  pulledFrom : Nat → Nat := fun _ => 0
  running : List Completion := []
  next : Nat := 0
  done : Nat := 0
  queued : Nat := 0
  idle : Nat
  now : ℚ := 0
  nextAging : ℚ
  wait : Nat → ℚ := fun _ => 0
  latency : Nat → ℚ := fun _ => 0
  slowdown : Nat → ℚ := fun _ => 0
  learner : σ
  started : List Nat := []
  finished : List Nat := []
  clock : ℚ := 0

/-- The level that `dispatch` serves next. -/
def Levels.pick {ι : Type} (setting : Setting ι) (s : Levels ι) : Option Nat :=
  if setting.policy.weighted then s.best setting.levels
  else (List.range setting.levels).find? fun level => !(s.queues level).isEmpty

namespace Sim
variable {σ : Type} (plan : Plan σ) (s : Sim σ)

/-- What a dispatch charges. -/
def cost (level : Nat) (w : Waiting Nat) : ℚ :=
  if 0 < s.predicted w.index then s.predicted w.index
  else if 0 < s.levelCost level then s.levelCost level else 1

/-- `start` for a row that has left its level. -/
def start (levels : Levels Nat) (level i : Nat) : Sim σ :=
  { s with
    levels
    queued := s.queued - 1
    idle := s.idle - 1
    pulledFrom := Function.update s.pulledFrom i level
    wait := Function.update s.wait i (s.now - plan.arrival i)
    running := s.running.orderedInsert Completion.before (s.now + plan.duration i, i)
    started := i :: s.started }

/-- One round of `dispatch`. -/
def serve : Option (Sim σ) := do
  let level ← s.levels.pick plan.setting
  let head ← (s.levels.queues level).head?
  let (w, levels) ← s.levels.dispatch plan.setting (s.cost level head)
  return s.start plan levels level w.index

/-- `dispatch`; every round takes one of the idle workers. -/
def dispatch : Nat → Sim σ → Sim σ
  | 0, s => s
  | idle + 1, s => if s.queued = 0 then s else
    match s.serve plan with
    | none => s
    | some s => dispatch idle s

def arrivalDue : WithTop ℚ := if s.next < plan.rows.length then (plan.arrival s.next : ℚ) else ⊤

def completionDue : WithTop ℚ :=
  match s.running with
  | [] => ⊤
  | (ends, _) :: _ => (ends : ℚ)

def agingDue : WithTop ℚ := if s.queued ≠ 0 ∧ plan.policy.aging then (s.nextAging : ℚ) else ⊤

def complete : Sim σ :=
  match s.running with
  | [] => s
  | (ends, i) :: rest =>
    let average := s.levelCost (s.pulledFrom i)
    { s with
      running := rest
      idle := s.idle + 1
      done := s.done + 1
      latency := Function.update s.latency i (ends - plan.arrival i)
      slowdown := Function.update s.slowdown i ((ends - plan.arrival i) / max (plan.duration i) 1)
      levelCost := Function.update s.levelCost (s.pulledFrom i)
        (if 0 < average then average + 5 / 100 * (plan.duration i - average) else plan.duration i)
      learner := plan.learn s.learner (plan.row i) s.now
      finished := i :: s.finished
      clock := s.now }

def arrive : Sim σ :=
  let ((tier, estimate), learner) := plan.route s.learner (plan.row s.next) s.now
  { s with
    predicted := Function.update s.predicted s.next estimate
    levels := s.levels.place plan.policy tier { index := s.next, placed := s.now }
    queued := s.queued + 1
    next := s.next + 1
    learner
    clock := s.now }

def age : Sim σ :=
  { s with levels := s.levels.age plan.setting s.now, nextAging := s.now + plan.interval }

/-- What the event due at `now` does, before the dispatch. -/
def handle (now : ℚ) : Sim σ :=
  let s := { s with now }
  if (now : WithTop ℚ) = s.completionDue then s.complete plan
  else if (now : WithTop ℚ) = s.arrivalDue plan then s.arrive plan
  else s.age plan

/-- The dispatch, and the next aging pass if nothing is left in the queue. -/
def settle : Sim σ :=
  let s := dispatch plan s.idle s
  if s.queued = 0 then { s with nextAging := s.now + plan.interval } else s

/-- One iteration of the loop; `none` if no event is due. -/
def step : Option (Sim σ) :=
  match min (s.arrivalDue plan) (min s.completionDue (s.agingDue plan)) with
  | ⊤ => none
  | (now : ℚ) => some ((s.handle plan now).settle plan)

/-- The loop, with at most `fuel` iterations. -/
def loop : Nat → Sim σ → Option (Sim σ)
  | 0, s => if s.done < plan.rows.length then none else some s
  | fuel + 1, s => if s.done < plan.rows.length then (s.step plan).bind (loop fuel) else some s

end Sim

/-- The state before the loop. -/
def Plan.start {σ : Type} (plan : Plan σ) (learner : σ) : Sim σ :=
  { idle := plan.workers, nextAging := plan.interval, learner }

/-- The state after a number of iterations. -/
def Plan.after {σ : Type} (plan : Plan σ) (learner : σ) : Nat → Option (Sim σ)
  | 0 => some (plan.start learner)
  | count + 1 => (plan.after learner count).bind fun s => if s.done < plan.rows.length then s.step plan else none

theorem sum_update_add {M : Type*} [AddCommMonoid M] {n level : Nat} (inside : level < n) (f : Nat → M) (value : M) :
    ∑ i ∈ Finset.range n, Function.update f level value i + f level = ∑ i ∈ Finset.range n, f i + value := by
  have member : level ∈ Finset.range n := Finset.mem_range.mpr inside
  rw [Finset.sum_update_of_mem member, ← Finset.sum_sdiff (Finset.singleton_subset_iff.mpr member), Finset.sum_singleton]
  ac_rfl

namespace Levels
variable {ι : Type} {levels level : Nat} {s : Levels ι} {w : Waiting ι} {rest : List (Waiting ι)} {setting : Setting ι}
  {now : ℚ}

/-- The rows that wait, in any order. -/
def held (levels : Nat) (s : Levels ι) : Multiset ι :=
  ∑ level ∈ Finset.range levels, ((s.queues level).map Waiting.index : Multiset ι)

theorem held_update {s' : Levels ι} (inside : level < levels) {list : List (Waiting ι)}
    (changed : s'.queues = Function.update s.queues level list) :
    s'.held levels + ((s.queues level).map Waiting.index : Multiset ι) =
      s.held levels + (list.map Waiting.index : Multiset ι) := by
  have pointwise : (fun other => ((s'.queues other).map Waiting.index : Multiset ι)) =
      Function.update (fun other => ((s.queues other).map Waiting.index : Multiset ι)) level (list.map Waiting.index) := by
    funext other
    rw [changed]
    by_cases same : other = level
    · subst same
      rw [Function.update_self, Function.update_self]
    · rw [Function.update_of_ne same, Function.update_of_ne same]
  rw [held, pointwise]
  exact sum_update_add inside (fun other => ((s.queues other).map Waiting.index : Multiset ι)) _

theorem held_place (inside : level < levels) (policy : Policy) :
    (s.place policy level w).held levels = w.index ::ₘ s.held levels := by
  have moved : (s.place policy level w).held levels + ((s.queues level).map Waiting.index : Multiset ι) =
      s.held levels + ((s.queues level ++ [w]).map Waiting.index : Multiset ι) := held_update inside rfl
  rw [List.map_append, ← Multiset.coe_add, ← add_assoc, add_right_comm] at moved
  rw [add_right_cancel moved, ← Multiset.singleton_add, add_comm]
  rfl

theorem held_pop {s' : Levels ι} (inside : level < levels) (here : s.queues level = w :: rest)
    (changed : s'.queues = Function.update s.queues level rest) : w.index ::ₘ s'.held levels = s.held levels := by
  have moved := held_update inside changed
  rw [here, List.map_cons, ← Multiset.cons_coe, ← Multiset.singleton_add, ← add_assoc] at moved
  rw [← Multiset.singleton_add, add_comm]
  exact add_right_cancel moved

theorem held_ageHead (positive : 1 ≤ level) (inside : level < levels) {todo : List (Waiting ι)}
    (here : s.queues level = todo) : (ageHead setting now level todo s).held levels = s.held levels := by
  induction todo generalizing s with
  | nil => rfl
  | cons w rest ih =>
    unfold ageHead
    split
    · have promoted : ((s.pop level w rest).place setting.policy (level - 1)
          { w with placed := now, promoted := true }).held levels = s.held levels := by
        have popped : w.index ::ₘ (s.pop level w rest).held levels = s.held levels := held_pop inside here rfl
        rw [held_place (by omega), ← popped]
      dsimp only
      split
      · exact promoted
      · exact (ih (queues_promoted positive _)).trans promoted
    · rfl

theorem held_ageLevels (inside : level < levels) : (s.ageLevels setting now level).held levels = s.held levels := by
  induction level generalizing s with
  | zero => rfl
  | succ level ih =>
    rw [ageLevels, ih (by omega), ageLevel]
    split
    · rfl
    · exact held_ageHead (Nat.succ_pos level) inside rfl

theorem held_age (leveled : 1 ≤ setting.levels) : (s.age setting now).held setting.levels = s.held setting.levels := by
  unfold age
  split
  · exact held_ageLevels (by omega)
  · rfl

theorem exists_nonempty (waiting : s.held levels ≠ 0) : ∃ level < levels, s.queues level ≠ [] := by
  by_contra none
  refine waiting (Finset.sum_eq_zero fun level member => ?_)
  have empty : s.queues level = [] := by
    by_contra nonempty
    exact none ⟨level, Finset.mem_range.mp member, nonempty⟩
  rw [empty]
  rfl

/-- A level with a row is picked if there is one. -/
theorem pick_spec (waiting : s.held setting.levels ≠ 0) :
    ∃ level w rest, s.pick setting = some level ∧ level < setting.levels ∧ s.queues level = w :: rest := by
  obtain ⟨other, below, nonempty⟩ := exists_nonempty waiting
  have picked : ∃ level, s.pick setting = some level ∧ level < setting.levels ∧ (s.queues level).isEmpty = false := by
    unfold pick
    split
    · cases chosen : s.best setting.levels with
      | none =>
        have idle := Schedule.leastActive_eq_none.mp chosen other below
        exact absurd (List.isEmpty_iff.mp idle) nonempty
      | some level =>
        obtain ⟨inside, active, _⟩ := Schedule.leastActive_spec chosen
        exact ⟨level, rfl, inside, active⟩
    · cases chosen : (List.range setting.levels).find? fun level => !(s.queues level).isEmpty with
      | none =>
        have idle := List.find?_eq_none.mp chosen other (List.mem_range.mpr below)
        exact absurd (by simpa using idle) nonempty
      | some level =>
        exact ⟨level, rfl, List.mem_range.mp (List.mem_of_find?_eq_some chosen), by simpa using List.find?_some chosen⟩
  obtain ⟨level, chosen, inside, active⟩ := picked
  cases here : s.queues level with
  | nil => simp [here] at active
  | cons w rest => exact ⟨level, w, rest, chosen, inside, here⟩

theorem dispatch_of_pick (picked : s.pick setting = some level) (here : s.queues level = w :: rest) (cost : ℚ) :
    ∃ s', s.dispatch setting cost = some (w, s') ∧ s'.queues = Function.update s.queues level rest := by
  unfold pick at picked
  unfold dispatch
  split at picked
  next weighted =>
    rw [if_pos weighted, picked]
    simp only [here]
    exact ⟨_, rfl, rfl⟩
  next strict =>
    rw [if_neg strict, picked]
    simp only [here]
    exact ⟨_, rfl, rfl⟩

end Levels

/-- What the claims about a run assume of its arguments. -/
structure Plan.Valid {σ : Type} (plan : Plan σ) : Prop where
  rows : plan.rows ≠ []
  sorted : plan.rows.Pairwise fun first second => first.arrivalMs ≤ second.arrivalMs
  durations : ∀ row ∈ plan.rows, 0 ≤ row.durationMs
  compress : 0 < plan.compress
  workers : 1 ≤ plan.workers
  interval : 0 < plan.interval
  tiers : ∀ learner row now, (plan.route learner row now).1.1 < plan.levels

namespace Plan.Valid
variable {σ : Type} {plan : Plan σ}

theorem levels (valid : plan.Valid) (learner : σ) : 1 ≤ plan.levels :=
  Nat.one_le_of_lt (valid.tiers learner (plan.row 0) 0)

theorem row_eq {i : Nat} (inside : i < plan.rows.length) : plan.row i = plan.rows[i] := List.getD_eq_getElem _ _ inside

theorem arrival_mono (valid : plan.Valid) {i j : Nat} (order : i ≤ j) (inside : j < plan.rows.length) :
    plan.arrival i ≤ plan.arrival j := by
  have sorted : (plan.row i).arrivalMs ≤ (plan.row j).arrivalMs := by
    rw [row_eq inside, row_eq (order.trans_lt inside)]
    rcases order.eq_or_lt with rfl | before
    · exact le_rfl
    · exact List.pairwise_iff_getElem.mp valid.sorted i j _ inside before
  exact div_le_div_of_nonneg_right (sub_le_sub_right sorted _) valid.compress.le

theorem duration_nonneg (valid : plan.Valid) (i : Nat) : 0 ≤ plan.duration i := by
  rw [duration, row, List.getD_eq_getElem?_getD]
  cases found : plan.rows[i]? with
  | none => exact le_rfl
  | some row => exact valid.durations row (List.mem_of_getElem? found)

end Plan.Valid

namespace Sim
variable {σ : Type} {plan : Plan σ} {s s' : Sim σ}

/-! ### The events -/

/-- No event is due before `now`. -/
structure Due (plan : Plan σ) (s : Sim σ) (now : ℚ) : Prop where
  arrivals : s.next < plan.rows.length → now ≤ plan.arrival s.next
  completions : ∀ c rest, s.running = c :: rest → now ≤ c.1
  aging : s.queued ≠ 0 → plan.policy.aging → now ≤ s.nextAging

/-- The event at `now` and the state it leaves to the dispatch. -/
inductive Handled (plan : Plan σ) (s : Sim σ) (now : ℚ) : Sim σ → Prop where
  | completed (i : Nat) (rest : List Completion) (top : s.running = (now, i) :: rest) :
      Handled plan s now (complete plan { s with now })
  | arrived (more : s.next < plan.rows.length) (due : now = plan.arrival s.next)
      (early : ∀ c rest, s.running = c :: rest → now < c.1) : Handled plan s now (arrive plan { s with now })
  | aged (waiting : s.queued ≠ 0) (aging : plan.policy.aging) (due : now = s.nextAging)
      (early : ∀ c rest, s.running = c :: rest → now < c.1) : Handled plan s now (age plan { s with now })

theorem arrivalDue_cases (plan : Plan σ) (s : Sim σ) :
    (s.next < plan.rows.length ∧ s.arrivalDue plan = (plan.arrival s.next : ℚ)) ∨
      (plan.rows.length ≤ s.next ∧ s.arrivalDue plan = ⊤) := by
  unfold arrivalDue
  split
  next more => exact .inl ⟨more, rfl⟩
  next all => exact .inr ⟨not_lt.mp all, rfl⟩

theorem completionDue_cases (s : Sim σ) :
    (∃ ends i rest, s.running = (ends, i) :: rest ∧ s.completionDue = (ends : ℚ)) ∨
      (s.running = [] ∧ s.completionDue = ⊤) := by
  unfold completionDue
  split
  next free => exact .inr ⟨free, rfl⟩
  next ends i rest top => exact .inl ⟨ends, i, rest, top, rfl⟩

theorem agingDue_cases (plan : Plan σ) (s : Sim σ) :
    ((s.queued ≠ 0 ∧ plan.policy.aging) ∧ s.agingDue plan = (s.nextAging : ℚ)) ∨
      (¬(s.queued ≠ 0 ∧ plan.policy.aging) ∧ s.agingDue plan = ⊤) := by
  unfold agingDue
  split
  next ages => exact .inl ⟨ages, rfl⟩
  next never => exact .inr ⟨never, rfl⟩

theorem step_due (moved : s.step plan = some s') :
    ∃ now : ℚ, s' = (s.handle plan now).settle plan ∧
      min (s.arrivalDue plan) (min s.completionDue (s.agingDue plan)) = now := by
  unfold step at moved
  split at moved
  · cases moved
  next now due => exact ⟨now, (Option.some.inj moved).symm, due⟩

/-- What an iteration can do. -/
theorem step_cases (moved : s.step plan = some s') :
    ∃ now handled, Due plan s now ∧ Handled plan s now handled ∧ s' = handled.settle plan := by
  obtain ⟨now, same, due⟩ := step_due moved
  have completions : ∀ c rest, s.running = c :: rest → now ≤ c.1 := by
    intro c rest top
    have bound : (now : WithTop ℚ) ≤ s.completionDue := due ▸ (min_le_right _ _).trans (min_le_left _ _)
    rw [completionDue, top] at bound
    exact WithTop.coe_le_coe.mp bound
  have arrivals : (now : WithTop ℚ) ≤ s.arrivalDue plan := due ▸ min_le_left _ _
  have passes : (now : WithTop ℚ) ≤ s.agingDue plan := due ▸ (min_le_right _ _).trans (min_le_right _ _)
  refine ⟨now, s.handle plan now, ⟨fun more => ?_, completions, fun waiting aging => ?_⟩, ?_, same⟩
  · rw [arrivalDue, if_pos more] at arrivals
    exact WithTop.coe_le_coe.mp arrivals
  · rw [agingDue, if_pos ⟨waiting, aging⟩] at passes
    exact WithTop.coe_le_coe.mp passes
  · unfold handle
    dsimp only
    split
    next complete =>
      rcases completionDue_cases s with ⟨ends, i, rest, top, when⟩ | ⟨_, never⟩
      · obtain rfl := WithTop.coe_injective (complete.trans when)
        exact .completed i rest top
      · cases complete.trans never
    next running =>
      have early : ∀ c rest, s.running = c :: rest → now < c.1 := by
        refine fun c rest top => lt_of_le_of_ne (completions c rest top) fun equal => running ?_
        change (now : WithTop ℚ) = s.completionDue
        rw [completionDue, top, equal]
      split
      next arrive =>
        rcases arrivalDue_cases plan s with ⟨more, when⟩ | ⟨_, never⟩
        · exact .arrived more (WithTop.coe_injective (arrive.trans when)) early
        · cases arrive.trans never
      next waiting =>
        have ages : s.agingDue plan = now := by
          rcases min_choice (s.arrivalDue plan) (min s.completionDue (s.agingDue plan)) with first | later
          · exact absurd (due.symm.trans first) waiting
          · rcases min_choice s.completionDue (s.agingDue plan) with first | last
            · exact absurd (due.symm.trans (later.trans first)) running
            · exact (due.symm.trans (later.trans last)).symm
        rcases agingDue_cases plan s with ⟨⟨queued, aging⟩, when⟩ | ⟨_, never⟩
        · exact .aged queued aging (WithTop.coe_injective (ages.symm.trans when)) early
        · cases ages.symm.trans never

end Sim

end Harbinger.Simulator
