import Harbinger.Queue.Rollback
import Harbinger.Schedule.Rotation

/-! Round-robin selection as serving in turn: the dequeues of a run are the turns of a rotation
over the levels, and every other operation leaves the cursor where it is. -/

namespace Harbinger.MultiLevelQueue
open Container Transition Schedule

section Cursor
variable (q : MultiLevelQueue)

theorem cursor_noteAgingDeadline (level : Nat) (enqueued : Time) : (q.noteAgingDeadline level enqueued).cursor = q.cursor := by
  obtain ⟨nextAging, same⟩ := q.noteAgingDeadline_eq level enqueued
  rw [same]

theorem cursor_placeMessage {q' : MultiLevelQueue} {cost : CostFunction} {msg : Message} {restoreFront : Bool} {stamp : Time}
    (placed : q.placeMessage cost msg restoreFront stamp = some q') : q'.cursor = q.cursor := by
  have shared : ∀ (p : MultiLevelQueue) (msg : Message) (wasEmpty : Bool),
      (p.placeShare cost msg wasEmpty restoreFront).cursor = p.cursor := by
    intro p msg wasEmpty
    unfold placeShare
    split
    · rfl
    · cases wasEmpty <;> cases restoreFront <;> rfl
  unfold placeMessage at placed
  split at placed
  · cases placed
  · rw [← Option.some.inj placed, shared, cursor_noteAgingDeadline]
    rfl

theorem cursor_promote (level : Nat) (node : Node) (now : Time) : (q.promote level node now).cursor = q.cursor := by
  unfold promote
  rw [cursor_noteAgingDeadline]
  split <;> rfl

theorem cursor_ageScan (cfg : AgingConfig) (now : Time) (reading : Nat → Time) (level : Nat) (dueBefore : Time)
    (todo : List Node) (visited : Nat) : (ageScan cfg now reading level dueBefore todo (q, visited)).1.cursor = q.cursor := by
  induction todo generalizing q visited with
  | nil => rfl
  | cons node rest ih =>
    unfold ageScan
    split
    · exact ih q _
    · split
      · split
        · exact cursor_promote q level node now
        · exact (ih _ _).trans (cursor_promote q level node now)
      · exact (ih _ _).trans (cursor_noteAgingDeadline q level _)

theorem cursor_ageLevels (cfg : AgingConfig) (now : Time) (reading : Nat → Time) (level visited : Nat) :
    (ageLevels cfg now reading level (q, visited)).1.cursor = q.cursor := by
  induction level generalizing q visited with
  | zero => rfl
  | succ level ih =>
    have one : (ageLevel cfg now reading (level + 1) (q, visited)).1.cursor = q.cursor := by
      simp only [ageLevel]
      split
      · rfl
      · split
        · rfl
        · split
          · rfl
          · exact cursor_ageScan { q with nextAging := _ } ..
    exact (ih _ _).trans one

theorem cursor_ageOnceLocked (now : Time) (reading : Nat → Time) : (q.ageOnceLocked now reading).1.cursor = q.cursor := by
  unfold ageOnceLocked
  split
  · rfl
  · exact cursor_ageLevels ..

theorem cursor_sweepExpiredBatch (now : Time) (limit : Nat) : (sweepExpiredBatch now limit q).2.cursor = q.cursor := by
  induction limit generalizing q with
  | zero => rfl
  | succ limit ih =>
    unfold sweepExpiredBatch
    split
    · rfl
    · split
      · split
        · rfl
        · exact ih _
      · rfl

theorem cursor_sweepExpired (now : Time) (reading : Nat → Time) : (q.sweepExpired now reading).2.cursor = q.cursor := by
  have scan : ∀ (todo : List (Nat × Node)) (visited : Nat) (p : MultiLevelQueue),
      (sweepScan reading todo visited p).2.cursor = p.cursor := by
    intro todo
    induction todo with
    | nil => exact fun _ _ => rfl
    | cons item rest ih =>
      intro visited p
      unfold sweepScan
      split
      · exact ih _ _
      · exact ih _ _
  unfold sweepExpired
  split
  · rfl
  · split
    · rfl
    · exact scan _ _ _

end Cursor

/-- The level that an operation takes a message from. -/
def Clocked.servedBy (s : Clocked) : Operation → Option Nat
  | .dequeue cost => (s.queue.dequeueLocked cost).map fun taken => taken.1.priority
  | _ => none

/-- The levels that the dequeues of a run take their messages from. -/
def Clocked.served : List Operation → Clocked → List Nat
  | [], _ => []
  | operation :: rest, s => (s.servedBy operation).toList ++
    match s.step operation with
    | none => []
    | some next => Clocked.served rest next

/-- Which levels hold a message, at each dequeue of a run. -/
def Clocked.turns : List Operation → Clocked → List (Nat → Bool)
  | [], _ => []
  | operation :: rest, s =>
    (match operation with
      | .dequeue _ => [fun level => !(s.queue.queues level).isEmpty]
      | _ => []) ++
    match s.step operation with
    | none => []
    | some next => Clocked.turns rest next

/-- Under round robin a dequeue is a turn of the rotation. -/
theorem dequeueLocked_turn {s : Clocked} {next : Clocked} (valid : s.queue.Valid s.now) (unweighted : s.queue.weights = none)
    (cyclic : s.queue.selection = .roundRobin) {cost : CostFunction} (moved : s.step (.dequeue cost) = some next) :
    s.servedBy (.dequeue cost) = nextActive s.queue.numLevels s.queue.cursor (fun level => !(s.queue.queues level).isEmpty) ∧
      next.queue.cursor = match s.servedBy (.dequeue cost) with
        | none => s.queue.cursor
        | some level => (level + 1) % s.queue.numLevels := by
  have scan : s.queue.scanLevel =
      nextActive s.queue.numLevels s.queue.cursor (fun level => !(s.queue.queues level).isEmpty) := by
    simp only [scanLevel, cyclic, ↓reduceIte, nextActive]
  rw [show next = _ from Clocked.step_spec moved, ← scan]
  simp only [Clocked.servedBy, dequeueLocked, unweighted, Option.isSome_none, Bool.false_eq_true, ↓reduceIte]
  cases found : s.queue.scanLevel with
  | none => exact ⟨rfl, rfl⟩
  | some level =>
    have busy := List.find?_some found
    cases front : s.queue.queues level with
    | nil => simp [front] at busy
    | cons node rest =>
      have here : node.message.priority = level :=
        valid.structured.priority level node (front ▸ List.mem_cons_self ..)
      have cyclic' : (s.queue.removeLocked level node).selection = .roundRobin := cyclic
      simp only [front, Option.map_some, if_pos cyclic', Option.getD_some, here]
      exact ⟨trivial, rfl⟩

theorem Clocked.step_cursor {s next : Clocked} {operation : Operation} (other : ∀ cost, operation ≠ .dequeue cost)
    (moved : s.step operation = some next) : next.queue.cursor = s.queue.cursor := by
  have placed : ∀ {cost msg front stamp},
      ((s.queue.placeMessage cost msg front stamp).getD s.queue).cursor = s.queue.cursor := by
    intro cost msg front stamp
    cases result : s.queue.placeMessage cost msg front stamp with
    | none => rfl
    | some q' => exact cursor_placeMessage s.queue result
  cases operation with
  | advance now =>
    obtain ⟨-, rfl⟩ := step_spec moved
    rfl
  | enqueue cost msg reading =>
    obtain ⟨-, rfl⟩ := step_spec moved
    exact placed
  | requeueFront cost msg =>
    obtain ⟨-, rfl⟩ := step_spec moved
    exact placed
  | dequeue cost => exact absurd rfl (other cost)
  | sweepExpiredBatch limit reading =>
    obtain ⟨-, rfl⟩ := step_spec moved
    exact cursor_sweepExpiredBatch ..
  | sweepExpired reading readings =>
    obtain ⟨-, rfl⟩ := step_spec moved
    exact cursor_sweepExpired ..
  | ageOnce reading readings =>
    obtain ⟨-, rfl⟩ := step_spec moved
    exact cursor_ageOnceLocked ..

/-- A round-robin queue with its cursor in range. -/
structure Cyclic (n : Nat) (s : Clocked) : Prop where
  valid : s.queue.Valid s.now
  count : s.queue.numLevels = n
  cyclic : s.queue.selection = .roundRobin
  unweighted : s.queue.weights = none
  cursor : s.queue.cursor < n

namespace Cyclic
variable {n : Nat} {s next : Clocked} {operation : Operation}

theorem step (known : Cyclic n s) (moved : s.step operation = some next) : Cyclic n next := by
  obtain ⟨valid, params⟩ := Clocked.step_keeps known.valid moved
  simp only [MultiLevelQueue.params, Prod.mk.injEq] at params
  refine ⟨valid, params.1.trans known.count, params.2.1.trans known.cyclic, params.2.2.2.trans known.unweighted, ?_⟩
  have positive : 0 < n := Nat.zero_lt_of_lt known.cursor
  by_cases turn : ∃ cost, operation = .dequeue cost
  · obtain ⟨cost, rfl⟩ := turn
    rw [(dequeueLocked_turn known.valid known.unweighted known.cyclic moved).2]
    split
    · exact known.cursor
    · exact known.count ▸ Nat.mod_lt _ (known.count.symm ▸ positive)
  · rw [Clocked.step_cursor (fun cost same => turn ⟨cost, same⟩) moved]
    exact known.cursor

/-- The dequeues of a run are a rotation over the levels. -/
theorem served_eq (known : Cyclic n s) (operations : List Operation) :
    Clocked.served operations s = serveTurns n s.queue.cursor (Clocked.turns operations s) := by
  induction operations generalizing s with
  | nil => rfl
  | cons operation rest ih =>
    by_cases turn : ∃ cost, operation = .dequeue cost
    · obtain ⟨cost, rfl⟩ := turn
      obtain ⟨next, moved⟩ : ∃ next, s.step (.dequeue cost) = some next := ⟨_, rfl⟩
      obtain ⟨served, cursor⟩ := dequeueLocked_turn known.valid known.unweighted known.cyclic moved
      rw [known.count] at served cursor
      simp only [Clocked.served, Clocked.turns, moved, ih (known.step moved), List.singleton_append, serveTurns, ← served]
      rw [cursor]
      cases s.servedBy (.dequeue cost) <;> rfl
    · have idle : s.servedBy operation = none := by
        cases operation with
        | dequeue cost => exact absurd ⟨cost, rfl⟩ turn
        | _ => rfl
      have quiet : Clocked.turns (operation :: rest) s = match s.step operation with
          | none => []
          | some next => Clocked.turns rest next := by
        cases operation with
        | dequeue cost => exact absurd ⟨cost, rfl⟩ turn
        | _ => rfl
      rw [quiet, Clocked.served, idle, Option.toList_none, List.nil_append]
      cases moved : s.step operation with
      | none => rfl
      | some next =>
        rw [← Clocked.step_cursor (fun cost same => turn ⟨cost, same⟩) moved]
        exact ih (known.step moved)

end Cyclic

theorem busy_turns {level : Nat} {operations : List Operation} {s : Clocked}
    (busy : Along Clocked.step (fun s _ => s.queue.Busy level) operations s) :
    ∀ active ∈ Clocked.turns operations s, active level = true := by
  induction operations generalizing s with
  | nil => exact fun _ member => absurd member List.not_mem_nil
  | cons operation rest ih =>
    intro active member
    rcases List.mem_append.mp member with here | later
    · cases operation with
      | dequeue cost =>
        obtain rfl := List.mem_singleton.mp here
        simpa [Busy] using busy.1
      | _ => exact absurd here List.not_mem_nil
    · split at later
      · exact absurd later List.not_mem_nil
      next next moved => exact ih (busy.2 next moved) active later

/-- Bounded bypass under round robin. In a window in which a level is never empty, any `numLevels` dequeues in a row take
from it; and between two dequeues from it in a row, no level is taken from twice, and every other level that is never
empty in between once. -/
theorem round_robin_bypass {numLevels : Nat} {aging : Option AgingConfig} {weights : Option (List Nat)} {q : MultiLevelQueue}
    {start : Time} {operations : List Operation} {s : Clocked} (made : create numLevels aging .roundRobin weights = .ok q)
    (ran : run Clocked.step operations ⟨q, start⟩ = some s) {level : Nat} (inside : level < numLevels) :
    (∀ window, Along Clocked.step (fun s _ => s.queue.Busy level) window s →
      ∀ skip, skip + numLevels ≤ (Clocked.served window s).length →
        level ∈ ((Clocked.served window s).drop skip).take numLevels) ∧
    ∀ cost next window passed, s.step (.dequeue cost) = some next → s.servedBy (.dequeue cost) = some level →
      Along Clocked.step (fun s _ => s.queue.Busy level) window next →
      Clocked.served window next = passed ++ [level] → level ∉ passed →
      passed.Nodup ∧ ∀ other < numLevels, other ≠ level →
        Along Clocked.step (fun s _ => s.queue.Busy other) window next → passed.count other = 1 := by
  obtain ⟨valid, params⟩ := run_valid made ran
  have unweighted : weights = none := create_unweighted (by decide) made
  have known : Cyclic numLevels s := by
    have first : Cyclic numLevels ⟨q, start⟩ := by
      have valid := create_valid made start
      obtain ⟨rfl, positive, -⟩ := create_ok made
      exact ⟨valid, rfl, rfl, unweighted, positive⟩
    exact run_invariant (Cyclic numLevels) (fun _ _ _ known moved => known.step moved) first ran
  constructor
  · intro window busy skip many
    rw [known.served_eq] at many ⊢
    exact bounded_bypass known.cursor inside (busy_turns busy) many
  · intro cost next window passed moved served busy taken unserved
    have cursor := (dequeueLocked_turn known.valid known.unweighted known.cyclic moved).2
    simp only [served, known.count] at cursor
    rw [(known.step moved).served_eq, cursor] at taken
    obtain ⟨distinct, all⟩ := between_turns inside (busy_turns busy) taken unserved
    exact ⟨distinct, fun other within different always => all other within different (busy_turns always)⟩

/-- Two messages in each of three levels. -/
def stocked : List Operation :=
  [0, 1, 2, 0, 1, 2].map fun priority => .enqueue (fun _ => none) { id := [1], priority, originalPriority := priority } 0

/-- Four pulls, during which the top level never runs empty. -/
def fourPulls : List Operation :=
  [.dequeue fun _ => none, .dequeue fun _ => none, .enqueue (fun _ => none) { id := [2], priority := 0 } 0,
    .dequeue fun _ => none, .dequeue fun _ => none]

theorem round_robin_bypass_three_levels : ∃ q s, create 3 none .roundRobin none = .ok q ∧
    run Clocked.step stocked ⟨q, 0⟩ = some s ∧ Clocked.served fourPulls s = [0, 1, 2, 0] ∧
    ∀ skip, skip + 3 ≤ (Clocked.served fourPulls s).length → 0 ∈ ((Clocked.served fourPulls s).drop skip).take 3 := by
  have made : create 3 none .roundRobin none = .ok _ := rfl
  have ran : run Clocked.step stocked
    ⟨{ numLevels := 3, selection := .roundRobin, aging := none, weights := none }, 0⟩ = some _ := rfl
  exact ⟨_, _, made, ran, by decide +kernel,
    (round_robin_bypass made ran (by decide : 0 < 3)).1 fourPulls (by decide +kernel)⟩

end Harbinger.MultiLevelQueue
