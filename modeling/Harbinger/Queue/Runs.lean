import Harbinger.Queue.Aging
import Harbinger.Transition

/-! The queue as a state machine: any sequence of its public operations, with clock
readings that never run ahead of the clock. -/

namespace Harbinger.MultiLevelQueue
open Container Transition

theorem create_ok {numLevels : Nat} {aging : Option AgingConfig} {selection : QueueSelection}
    {weights : Option (List Nat)} {q : MultiLevelQueue}
    (made : create numLevels aging selection weights = .ok q) :
    q = { numLevels, selection, aging, weights } ∧ 0 < numLevels ∧
      ∀ cfg, aging = some cfg → 0 < cfg.threshold := by
  unfold create at made
  simp only [bind, Except.bind, pure, Except.pure, throw, throwThe, MonadExceptOf.throw] at made
  repeat' split at made
  all_goals cases made
  all_goals refine ⟨rfl, by omega, fun cfg member => ?_⟩
  all_goals grind

theorem create_unweighted {numLevels : Nat} {aging : Option AgingConfig} {selection : QueueSelection} {weights : Option (List Nat)}
    {q : MultiLevelQueue} (other : selection ≠ .weightedTime) (made : create numLevels aging selection weights = .ok q) :
    weights = none := by
  cases weights with
  | none => rfl
  | some list =>
    unfold create at made
    simp only [bind, Except.bind, pure, Except.pure, throw, throwThe, MonadExceptOf.throw] at made
    split at made
    · cases made
    · split at made
      · cases made
      next agree => exact absurd (by simp [other]) agree

theorem create_valid {numLevels : Nat} {aging : Option AgingConfig} {selection : QueueSelection}
    {weights : Option (List Nat)} {q : MultiLevelQueue}
    (made : create numLevels aging selection weights = .ok q) (now : Time) : q.Valid now := by
  obtain ⟨rfl, _, _⟩ := create_ok made
  have empty : ∀ level, concat level (fun _ => ([] : List Node)) = [] := by
    intro level
    simp [concat]
  refine ⟨⟨fun _ _ => rfl, fun _ _ member => ?_, fun _ _ member => ?_, ?_, ?_, ⟨?_, ?_, ?_⟩, fun _ => rfl⟩, ?_⟩
  · cases member
  · cases member
  all_goals simp [nodes, empty, Multimap.empty, LinkedList.empty, Due, DueAt]

/-- A queue together with the clock that its operations read. -/
structure Clocked where
  queue : MultiLevelQueue
  now : Time

inductive Operation where
  | advance (now : Time)
  | enqueue (cost : CostFunction) (msg : Message) (reading : Time)
  | requeueFront (cost : CostFunction) (msg : Message)
  | dequeue (cost : CostFunction)
  | sweepExpiredBatch (limit : Nat) (reading : Time)
  | sweepExpired (reading : Time) (readings : List Time)
  | ageOnce (reading : Time) (readings : List Time)

namespace Clocked

/-- Any operation may come next. Placed messages have `priority ≤ originalPriority`, the clock
does not go back, and no reading lies ahead of it; a throwing placement changes nothing. -/
def step (s : Clocked) : Operation → Option Clocked
  | .advance now => if s.now ≤ now then some { s with now } else none
  | .enqueue cost msg reading =>
    if msg.priority ≤ msg.originalPriority ∧ reading ≤ s.now then
      some { s with queue := (s.queue.enqueue cost msg reading).getD s.queue }
    else none
  | .requeueFront cost msg =>
    if msg.priority ≤ msg.originalPriority then
      some { s with queue := (s.queue.requeueFront cost msg).getD s.queue }
    else none
  | .dequeue cost =>
    some { s with queue := ((s.queue.dequeueLocked cost).map Prod.snd).getD s.queue }
  | .sweepExpiredBatch limit reading =>
    if reading ≤ s.now then some { s with queue := (sweepExpiredBatch reading limit s.queue).2 } else none
  | .sweepExpired reading readings =>
    if reading ≤ s.now ∧ ∀ r ∈ readings, r ≤ s.now then
      some { s with queue := (s.queue.sweepExpired reading (readings.getD · s.now)).2 }
    else none
  | .ageOnce reading readings =>
    if reading ≤ s.now ∧ ∀ r ∈ readings, r ≤ s.now then
      some { s with queue := (s.queue.ageOnceLocked reading (readings.getD · s.now)).1 }
    else none

/-- What a step that is enabled does. -/
theorem step_spec {s next : Clocked} {operation : Operation} (moved : s.step operation = some next) :
    match operation with
    | .advance now => s.now ≤ now ∧ next = { s with now }
    | .enqueue cost msg reading => (msg.priority ≤ msg.originalPriority ∧ reading ≤ s.now) ∧
        next = { s with queue := (s.queue.enqueue cost msg reading).getD s.queue }
    | .requeueFront cost msg => msg.priority ≤ msg.originalPriority ∧
        next = { s with queue := (s.queue.requeueFront cost msg).getD s.queue }
    | .dequeue cost => next = { s with queue := ((s.queue.dequeueLocked cost).map Prod.snd).getD s.queue }
    | .sweepExpiredBatch limit reading => reading ≤ s.now ∧
        next = { s with queue := (MultiLevelQueue.sweepExpiredBatch reading limit s.queue).2 }
    | .sweepExpired reading readings => (reading ≤ s.now ∧ ∀ r ∈ readings, r ≤ s.now) ∧
        next = { s with queue := (s.queue.sweepExpired reading (readings.getD · s.now)).2 }
    | .ageOnce reading readings => (reading ≤ s.now ∧ ∀ r ∈ readings, r ≤ s.now) ∧
        next = { s with queue := (s.queue.ageOnceLocked reading (readings.getD · s.now)).1 } := by
  cases operation with
  | dequeue cost => exact (Option.some.inj moved).symm
  | _ =>
    simp only [step, Option.ite_none_right_eq_some, Option.some.injEq] at moved
    exact ⟨moved.1, moved.2.symm⟩

end Clocked

theorem getD_le {readings : List Time} {now : Time} (bound : ∀ r ∈ readings, r ≤ now) (visit : Nat) :
    readings.getD visit now ≤ now := by
  by_cases inside : visit < readings.length
  · rw [List.getD_eq_getElem _ _ inside]
    exact bound _ (List.getElem_mem inside)
  · rw [List.getD_eq_default _ _ (by omega)]

/-- One operation keeps the invariant and the parameters. -/
theorem Clocked.step_keeps {s next : Clocked} {operation : Operation} (valid : s.queue.Valid s.now)
    (moved : s.step operation = some next) :
    next.queue.Valid next.now ∧ next.queue.params = s.queue.params := by
  have placed : ∀ {cost msg front stamp}, msg.priority ≤ msg.originalPriority →
      ((s.queue.placeMessage cost msg front stamp).getD s.queue).Valid s.now ∧
        ((s.queue.placeMessage cost msg front stamp).getD s.queue).params = s.queue.params := by
    intro cost msg front stamp native
    cases result : s.queue.placeMessage cost msg front stamp with
    | none => exact ⟨valid, rfl⟩
    | some q' =>
      obtain ⟨kept, params, _⟩ := placeMessage_spec valid native result
      exact ⟨kept, params⟩
  cases operation with
  | advance now =>
    obtain ⟨order, rfl⟩ := step_spec moved
    exact ⟨valid.mono order, rfl⟩
  | enqueue cost msg reading =>
    obtain ⟨⟨native, _⟩, rfl⟩ := step_spec moved
    exact placed native
  | requeueFront cost msg =>
    obtain ⟨native, rfl⟩ := step_spec moved
    exact placed native
  | dequeue cost =>
    rw [show next = _ from step_spec moved]
    cases result : s.queue.dequeueLocked cost with
    | none => exact ⟨valid, rfl⟩
    | some taken =>
      obtain ⟨kept, params, _⟩ := dequeueLocked_spec valid result
      exact ⟨kept, params⟩
  | sweepExpiredBatch limit reading =>
    obtain ⟨_, rfl⟩ := step_spec moved
    obtain ⟨kept, params, _⟩ := sweepExpiredBatch_spec reading limit valid
    exact ⟨kept, params⟩
  | sweepExpired reading readings =>
    obtain ⟨_, rfl⟩ := step_spec moved
    obtain ⟨kept, params, _⟩ := sweepExpired_spec reading (readings.getD · s.now) valid
    exact ⟨kept, params⟩
  | ageOnce reading readings =>
    obtain ⟨⟨_, bound⟩, rfl⟩ := step_spec moved
    obtain ⟨kept, params, _⟩ := ageOnceLocked_spec reading (getD_le bound) valid
    exact ⟨kept, params⟩

theorem run_valid {numLevels : Nat} {aging : Option AgingConfig} {selection : QueueSelection}
    {weights : Option (List Nat)} {q : MultiLevelQueue} {start : Time} {operations : List Operation}
    {s : Clocked} (made : create numLevels aging selection weights = .ok q)
    (ran : run Clocked.step operations ⟨q, start⟩ = some s) :
    s.queue.Valid s.now ∧ s.queue.params = q.params := by
  refine run_invariant (fun t => t.queue.Valid t.now ∧ t.queue.params = q.params)
    ?_ ⟨create_valid made start, rfl⟩ ran
  intro state operation next known moved
  obtain ⟨valid, params⟩ := Clocked.step_keeps known.1 moved
  exact ⟨valid, params.trans known.2⟩

/-- The index holds one entry for each queued message with a TTL, and nothing else. -/
theorem expiry_perm {q : MultiLevelQueue} (structured : q.Structured) :
    (q.expiry.slots.map Slot.value).Perm
      ((q.nodes.filter fun node => 0 < node.message.ttl).map fun node =>
        (node.message.expiryTime, node.handle)) := by
  have index := structured.index
  have owner : ∀ slot ∈ q.expiry.slots, ∃ node ∈ q.nodes, 0 < node.message.ttl ∧
      node.expiry = some slot.handle ∧ slot.value = (node.message.expiryTime, node.handle) := by
    intro slot present
    obtain ⟨node, member, _, pointer⟩ := index.pointed slot present
    obtain ⟨own, ownPresent, same, positive, value⟩ := index.slot_of_expiry member pointer
    exact ⟨node, member, positive, pointer, q.expiry.slot_unique ownPresent present same ▸ value⟩
  rw [List.perm_ext_iff_of_nodup]
  · intro entry
    simp only [List.mem_map, List.mem_filter, decide_eq_true_eq]
    constructor
    · rintro ⟨slot, present, rfl⟩
      obtain ⟨node, member, positive, _, value⟩ := owner slot present
      exact ⟨node, ⟨member, positive⟩, value.symm⟩
    · rintro ⟨node, ⟨member, positive⟩, rfl⟩
      have entry := index.indexed node member
      rw [Indexed, if_pos positive] at entry
      obtain ⟨slot, present, _, value⟩ := entry
      exact ⟨slot, present, value⟩
  · have distinct : q.expiry.slots.Nodup := q.expiry.distinct.of_map _
    apply distinct.map_on
    intro first here second there same
    obtain ⟨node, member, _, pointer, value⟩ := owner first here
    obtain ⟨other, otherMember, _, otherPointer, otherValue⟩ := owner second there
    have nodes : node = other := by
      apply index.node_unique member otherMember
      rw [same, otherValue] at value
      exact (congrArg Prod.snd value).symm
    apply q.expiry.slot_unique here there
    rw [nodes, otherPointer] at pointer
    exact (Option.some.inj pointer).symm
  · have distinct := (List.filter_sublist (p := fun node : Node => decide (0 < node.message.ttl))).map
      Node.handle |>.nodup index.distinct
    apply List.Nodup.of_map Prod.snd
    rwa [List.map_map]

/-- After any sequence of operations under any selection policy: the levels and the total size
agree, the expiry index and the nodes point at each other, the promotion counts are exact, and
each cached aging deadline is a lower bound. -/
theorem representation_invariant {numLevels : Nat} {aging : Option AgingConfig}
    {selection : QueueSelection} {weights : Option (List Nat)} {q : MultiLevelQueue} {start : Time}
    {operations : List Operation} {s : Clocked}
    (made : create numLevels aging selection weights = .ok q)
    (ran : run Clocked.step operations ⟨q, start⟩ = some s) :
    (∀ level, ∀ node ∈ s.queue.queues level, level < numLevels ∧ node.message.priority = level) ∧
    s.queue.totalSize = ((List.range numLevels).map fun level => (s.queue.queues level).length).sum ∧
    ((s.queue.nodes.map Node.handle).Nodup ∧
      (s.queue.expiry.slots.map Slot.value).Perm
        ((s.queue.nodes.filter fun node => 0 < node.message.ttl).map fun node =>
          (node.message.expiryTime, node.handle)) ∧
      ∀ node ∈ s.queue.nodes, Indexed s.queue.expiry node) ∧
    (∀ level, s.queue.promotedIn level = (s.queue.queues level).countP fun node =>
      node.message.priority < node.message.originalPriority) ∧
    ∀ cfg, aging = some cfg → ∀ level, 1 ≤ level → ∀ node ∈ s.queue.queues level,
      ¬node.message.isExpired s.now → ∀ due, agingDeadline cfg node.message.enqueueTime = some due →
        ∃ cached, s.queue.nextAging level = some cached ∧ cached ≤ due := by
  obtain ⟨valid, params⟩ := run_valid made ran
  obtain ⟨rfl, _, _⟩ := create_ok made
  have levels : s.queue.numLevels = numLevels := congrArg Prod.fst params
  have config : s.queue.aging = aging := congrArg (fun params => params.2.2.1) params
  refine ⟨?_, ?_, ⟨valid.structured.index.distinct, expiry_perm valid.structured,
    valid.structured.index.indexed⟩, valid.structured.promoted, ?_⟩
  · intro level node member
    exact ⟨levels ▸ valid.structured.level_lt member, valid.structured.priority level node member⟩
  · rw [valid.structured.total, nodes, concat, List.length_flatMap, levels]
  · intro cfg known level positive
    exact valid.due level positive cfg (config.trans known)

/-- Two messages, one of them with a TTL, of which the older one has been promoted. -/
theorem representation_invariant_two_levels :
    ∃ q s, create 2 (some ⟨5, 1, none⟩) .strictPriority none = .ok q ∧
      run Clocked.step [.enqueue (fun _ => none) { id := [1], ttl := 100 } 0, .advance 6000000,
        .enqueue (fun _ => none) { id := [2] } 6000000, .ageOnce 6000000 []] ⟨q, 0⟩ = some s ∧
      (s.queue.queues 0).length = 1 ∧ s.queue.expiry.slots.length = 1 ∧
      s.queue.totalSize = ((List.range 2).map fun level => (s.queue.queues level).length).sum := by
  have made : create 2 (some ⟨5, 1, none⟩) .strictPriority none = .ok _ := rfl
  have ran : run Clocked.step [.enqueue (fun _ => none) { id := [1], ttl := 100 } 0, .advance 6000000,
    .enqueue (fun _ => none) { id := [2] } 6000000, .ageOnce 6000000 []]
    ⟨{ numLevels := 2, selection := .strictPriority, aging := some ⟨5, 1, none⟩, weights := none }, 0⟩ =
      some _ := rfl
  exact ⟨_, _, made, ran, by decide +kernel, by decide +kernel, (representation_invariant made ran).2.1⟩

end Harbinger.MultiLevelQueue
