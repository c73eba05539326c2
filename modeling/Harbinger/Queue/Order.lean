import Harbinger.Queue.Rollback

/-! The order of the messages in a level. Every placement, by an enqueue or by a promotion, goes on
record with its level, its node and its time; without restores each level holds the part of
the record that is still there, in the order of the record. -/

namespace Harbinger

/-- A node comes into a level at a time. -/
structure Placement where
  level : Nat
  handle : Nat
  time : Time
  deriving DecidableEq

/-- How a queued node came to where it is. -/
def Node.placement (node : Node) : Placement := ⟨node.message.priority, node.handle, node.message.enqueueTime⟩

namespace MultiLevelQueue
open Container Transition

section Pass
variable (cfg : AgingConfig) (now : Time) (reading : Nat → Time)

/-- The promotions of `ageScan`, in their order. -/
def scanPlacements (level : Nat) : List Node → Nat → List Placement
  | [], _ => []
  | node :: rest, visited =>
    if node.message.isExpired (reading visited) then scanPlacements level rest (visited + 1)
    else if ∃ due ∈ agingDeadline cfg node.message.enqueueTime, due ≤ now then
      (promotedNode node level now).placement :: if pausing cfg then [] else scanPlacements level rest (visited + 1)
    else scanPlacements level rest (visited + 1)

/-- The promotions of `ageLevel`. -/
def levelPlacements (level : Nat) : MultiLevelQueue × Nat → List Placement
  | (q, visited) =>
    match q.nextAging level with
    | none => []
    | some dueBefore =>
      if now < dueBefore then []
      else if q.pausedLocked cfg level now then []
      else scanPlacements cfg now reading level (q.queues level) visited

/-- The promotions of `ageLevels`. -/
def passPlacements : Nat → MultiLevelQueue × Nat → List Placement
  | 0, _ => []
  | level + 1, state =>
    levelPlacements cfg now reading (level + 1) state ++ passPlacements level (ageLevel cfg now reading (level + 1) state)

end Pass

/-- The promotions of an aging pass. -/
def agingPlacements (q : MultiLevelQueue) (now : Time) (reading : Nat → Time) : List Placement :=
  match q.aging with
  | none => []
  | some cfg => passPlacements cfg now reading (q.numLevels - 1) (q, 0)

/-- What an operation places. -/
def Clocked.placements (s : Clocked) : Operation → List Placement
  | .enqueue _ msg reading => if msg.priority < s.queue.numLevels then [⟨msg.priority, s.queue.nextHandle, reading⟩] else []
  | .requeueFront _ msg => if msg.priority < s.queue.numLevels then [⟨msg.priority, s.queue.nextHandle, msg.enqueueTime⟩] else []
  | .ageOnce reading readings => s.queue.agingPlacements reading (readings.getD · s.now)
  | _ => []

/-- The record of a run. -/
def Clocked.placed : List Operation → Clocked → List Placement
  | [], _ => []
  | operation :: rest, s => s.placements operation ++
    match s.step operation with
    | none => []
    | some next => Clocked.placed rest next

/-- In a list without repetitions two elements have one order, which every part that holds both keeps. -/
theorem pair_sublist {α : Type*} {record part : List α} {first second : α} (distinct : record.Nodup)
    (included : part.Sublist record) (here : first ∈ part) (there : second ∈ part)
    (earlier : [first, second].Sublist record) : [first, second].Sublist part := by
  induction included with
  | slnil => exact earlier
  | cons head included ih =>
    obtain ⟨fresh, rest⟩ := List.nodup_cons.mp distinct
    cases earlier with
    | cons _ later => exact ih rest here there later
    | cons_cons _ _ => exact absurd (included.subset here) fresh
  | cons_cons head included ih =>
    obtain ⟨fresh, rest⟩ := List.nodup_cons.mp distinct
    cases earlier with
    | cons _ later =>
      have left : ∀ item ∈ [first, second], item ≠ head := fun item member same =>
        fresh (same ▸ later.subset member)
      refine .cons _ (ih rest ?_ ?_ later)
      · exact (List.mem_cons.mp here).resolve_left (left first (by simp))
      · exact (List.mem_cons.mp there).resolve_left (left second (by simp))
    | cons_cons _ later =>
      have other : second ≠ first := fun same => fresh (same ▸ later.subset (by simp))
      exact .cons_cons _ (List.singleton_sublist.mpr ((List.mem_cons.mp there).resolve_left other))

/-- The queue against the record of what has been placed. -/
structure Ordered (record : List Placement) (q : MultiLevelQueue) : Prop where
  distinct : record.Nodup
  allocated : ∀ placement ∈ record, placement.handle < q.nextHandle
  rising : ∀ placement ∈ record, ∀ level, ∀ node ∈ q.queues level, node.handle = placement.handle → level ≤ placement.level
  inOrder : ∀ level, ((q.queues level).map Node.placement).Sublist record

namespace Ordered
variable {record : List Placement} {q q' : MultiLevelQueue}

theorem shrink (ordered : Ordered record q) (fewer : ∀ level, (q'.queues level).Sublist (q.queues level))
    (next : q'.nextHandle = q.nextHandle) : Ordered record q' where
  distinct := ordered.distinct
  allocated := fun placement member => next ▸ ordered.allocated placement member
  rising := fun placement member level node present same =>
    ordered.rising placement member level node ((fewer level).subset present) same
  inOrder := fun level => ((fewer level).map _).trans (ordered.inOrder level)

/-- A new node at the back of its level. -/
theorem link (ordered : Ordered record q) (structured : q.Structured) (msg : Message) :
    Ordered (record ++ [(q.newNode msg).placement]) (q.linkNode msg false) := by
  have fresh : ∀ placement ∈ record, placement.handle ≠ (q.newNode msg).handle := fun placement member =>
    Nat.ne_of_lt (ordered.allocated placement member)
  have old : ∀ level, ∀ node ∈ (q.linkNode msg false).queues level, node ∈ q.queues level ∨
      (level = msg.priority ∧ node = q.newNode msg) := by
    intro level node member
    by_cases here : level = msg.priority
    · subst here
      simp only [linkNode, Function.update_self, Bool.false_eq_true, ↓reduceIte, List.mem_append, List.mem_singleton] at member
      exact member.imp_right fun same => ⟨rfl, same⟩
    · simp only [linkNode, Function.update_of_ne here] at member
      exact Or.inl member
  constructor
  · refine List.nodup_append.mpr ⟨ordered.distinct, List.nodup_singleton _, fun placement member other last same => ?_⟩
    rw [List.mem_singleton] at last
    exact fresh placement member (congrArg Placement.handle (same.trans last))
  · intro placement member
    change placement.handle < q.nextHandle + 1
    rcases List.mem_append.mp member with before | last
    · exact Nat.lt_succ_of_lt (ordered.allocated placement before)
    · rw [List.mem_singleton.mp last]
      exact Nat.lt_succ_self _
  · intro placement member level node present same
    rcases old level node present with queued | ⟨rfl, rfl⟩
    · rcases List.mem_append.mp member with before | last
      · exact ordered.rising placement before level node queued same
      · rw [List.mem_singleton.mp last] at same
        have known := structured.allocated node (structured.mem_nodes queued)
        exact absurd same (Nat.ne_of_lt known)
    · rcases List.mem_append.mp member with before | last
      · exact absurd same.symm (fresh placement before)
      · rw [List.mem_singleton.mp last]
        exact Nat.le_refl _
  · intro level
    by_cases here : level = msg.priority
    · subst here
      simp only [linkNode, Function.update_self, Bool.false_eq_true, ↓reduceIte, List.map_append, List.map_cons, List.map_nil]
      exact (ordered.inOrder msg.priority).append (List.Sublist.refl _)
    · simp only [linkNode, Function.update_of_ne here]
      exact (ordered.inOrder level).trans (List.sublist_append_left _ _)

/-- A promotion. -/
theorem promote (ordered : Ordered record q) (structured : q.Structured) {level : Nat} (positive : 1 ≤ level)
    {kept rest : List Node} {node : Node} (here : q.queues level = kept ++ node :: rest) (now : Time) :
    Ordered (record ++ [(promotedNode node level now).placement]) (q.promote level node now) := by
  have member : node ∈ q.queues level := by simp [here]
  have unique : ∀ other, ∀ found ∈ q.queues other, found.handle = node.handle → other = level := by
    intro other found present same
    have equal := structured.index.node_unique (structured.mem_nodes present) (structured.mem_nodes member) same
    subst equal
    exact (structured.priority other found present).symm.trans (structured.priority level found member)
  have next : (q.promote level node now).nextHandle = q.nextHandle :=
    congrArg (fun core => core.2.2.2.2.2) (promote_core q level node now)
  have origin : ∀ other, ∀ found ∈ (q.promote level node now).queues other,
      found ∈ q.queues other ∧ found.handle ≠ node.handle ∨ (other = level - 1 ∧ found = promotedNode node level now) := by
    intro other found present
    by_cases target : other = level - 1
    · subst target
      rw [promote_above] at present
      rcases List.mem_append.mp present with old | new
      · exact Or.inl ⟨old, fun same => by have := unique _ found old same; omega⟩
      · exact Or.inr ⟨rfl, List.mem_singleton.mp new⟩
    · by_cases source : other = level
      · subst source
        rw [promote_level q node now structured positive here] at present
        have split := structured.level_distinct (structured.level_lt member)
        rw [here, List.map_append, List.map_cons] at split
        have apart := List.nodup_middle.mp split
        rw [← List.map_append] at apart
        refine Or.inl ⟨?_, fun same => (List.nodup_cons.mp apart).1 (same ▸ List.mem_map_of_mem present)⟩
        rw [here]
        rcases List.mem_append.mp present with left | right
        · exact List.mem_append_left _ left
        · exact List.mem_append_right _ (List.mem_cons_of_mem _ right)
      · rw [promote_elsewhere q node now source target] at present
        exact Or.inl ⟨present, fun same => source (unique other found present same)⟩
  constructor
  · refine List.nodup_append.mpr ⟨ordered.distinct, List.nodup_singleton _, fun placement before other last same => ?_⟩
    rw [List.mem_singleton.mp last] at same
    have bound := ordered.rising placement before level node member (congrArg Placement.handle same).symm
    have target : placement.level = level - 1 := congrArg Placement.level same
    omega
  · intro placement known
    rw [next]
    rcases List.mem_append.mp known with before | last
    · exact ordered.allocated placement before
    · rw [List.mem_singleton.mp last]
      exact structured.allocated node (structured.mem_nodes member)
  · intro placement known other found present same
    rcases origin other found present with ⟨queued, different⟩ | ⟨rfl, rfl⟩
    · rcases List.mem_append.mp known with before | last
      · exact ordered.rising placement before other found queued same
      · rw [List.mem_singleton.mp last] at same
        exact absurd same different
    · rcases List.mem_append.mp known with before | last
      · have bound := ordered.rising placement before level node member same
        omega
      · rw [List.mem_singleton.mp last]
        exact Nat.le_refl _
  · intro other
    by_cases target : other = level - 1
    · subst target
      rw [promote_above, List.map_append]
      exact (ordered.inOrder (level - 1)).append (List.Sublist.refl _)
    · have fewer : ((q.promote level node now).queues other).Sublist (q.queues other) := by
        rw [promote_queues, Function.update_of_ne target]
        by_cases source : other = level
        · subst source
          rw [Function.update_self]
          exact List.eraseP_sublist
        · rw [Function.update_of_ne source]
      exact ((fewer.map _).trans (ordered.inOrder other)).trans (List.sublist_append_left _ _)

theorem before (ordered : Ordered record q) (structured : q.Structured) {level : Nat} {first second : Node}
    (here : first ∈ q.queues level) (there : second ∈ q.queues level)
    (earlier : [first.placement, second.placement].Sublist record) : [first, second].Sublist (q.queues level) := by
  have placed := pair_sublist ordered.distinct (ordered.inOrder level) (List.mem_map_of_mem here) (List.mem_map_of_mem there) earlier
  obtain ⟨nodes, included, same⟩ := List.sublist_map_iff.mp placed
  obtain ⟨left, right, rfl⟩ := List.length_eq_two.mp (by simpa using (congrArg List.length same).symm)
  obtain ⟨one, two⟩ : first.placement = left.placement ∧ second.placement = right.placement := by simpa using same
  have unique : ∀ {a b : Node}, a ∈ q.queues level → b ∈ q.queues level → a.placement = b.placement → a = b :=
    fun a b same => structured.index.node_unique (structured.mem_nodes a) (structured.mem_nodes b)
      (congrArg Placement.handle same)
  rw [unique here (included.subset (by simp)) one, unique there (included.subset (by simp)) two]
  exact included

end Ordered

theorem Ordered.of_core {record : List Placement} {q q' : MultiLevelQueue} (ordered : Ordered record q)
    (same : q'.core = q.core) : Ordered record q' := by
  have queues : q'.queues = q.queues := congrArg (fun core => core.2.1) same
  exact ordered.shrink (fun level => queues ▸ List.Sublist.refl _) (congrArg (fun core => core.2.2.2.2.2) same)

section Steps
variable {cfg : AgingConfig} {now later : Time} {reading : Nat → Time} {record : List Placement}

theorem Ordered.ageScan (readings : ∀ visit, reading visit ≤ later) {level : Nat} (positive : 1 ≤ level) {dueBefore : Time}
    {kept todo : List Node} {q : MultiLevelQueue} (visited : Nat) (scanning : Scanning cfg later level dueBefore q kept todo)
    (ordered : Ordered record q) : Ordered (record ++ scanPlacements cfg now reading level todo visited)
      (MultiLevelQueue.ageScan cfg now reading level dueBefore todo (q, visited)).1 := by
  induction todo generalizing q kept visited record with
  | nil =>
    rw [scanPlacements, List.append_nil]
    exact ordered
  | cons node rest ih =>
    unfold MultiLevelQueue.ageScan scanPlacements
    split
    next expired => exact ih _ (scanning.skip (Message.isExpired_mono (readings visited) expired)) ordered
    next =>
      split
      · have next := ordered.promote scanning.structured positive scanning.here now
        split
        · exact next.of_core rfl
        · have rest := ih (visited + 1) (scanning.promote positive now) next
          rwa [List.append_assoc] at rest
      · exact ih _ (scanning.note positive) (ordered.of_core (core_noteAgingDeadline ..))

theorem Ordered.ageLevel (readings : ∀ visit, reading visit ≤ later) {level : Nat} (positive : 1 ≤ level)
    {q : MultiLevelQueue} (valid : q.Valid later) (aging : q.aging = some cfg) (visited : Nat) (ordered : Ordered record q) :
    Ordered (record ++ levelPlacements cfg now reading level (q, visited))
      (MultiLevelQueue.ageLevel cfg now reading level (q, visited)).1 := by
  have unchanged : Ordered (record ++ []) q := by rwa [List.append_nil]
  cases cached : q.nextAging level with
  | none => simpa only [MultiLevelQueue.ageLevel, levelPlacements, cached] using unchanged
  | some dueBefore =>
    simp only [MultiLevelQueue.ageLevel, levelPlacements, cached]
    split
    · exact unchanged
    · split
      · exact unchanged
      · exact Ordered.ageScan readings positive visited (valid.scanning aging positive cached) (ordered.of_core rfl)

theorem Ordered.ageLevels (readings : ∀ visit, reading visit ≤ later) (level : Nat) {q : MultiLevelQueue}
    (valid : q.Valid later) (aging : q.aging = some cfg) (visited : Nat) (ordered : Ordered record q) :
    Ordered (record ++ passPlacements cfg now reading level (q, visited))
      (MultiLevelQueue.ageLevels cfg now reading level (q, visited)).1 := by
  induction level generalizing q visited record with
  | zero => simpa [passPlacements, MultiLevelQueue.ageLevels] using ordered
  | succ level ih =>
    obtain ⟨kept, params, -⟩ := ageLevel_kept now readings (Nat.succ_pos level) valid aging visited
    have config := (congrArg (fun params => params.2.2.1) params).trans aging
    have rest := ih kept config (MultiLevelQueue.ageLevel cfg now reading (level + 1) (q, visited)).2
      (ordered.ageLevel readings (Nat.succ_pos level) valid aging visited)
    rwa [List.append_assoc] at rest

theorem Ordered.ageOnceLocked (now : Time) (readings : ∀ visit, reading visit ≤ later) {q : MultiLevelQueue} (valid : q.Valid later)
    (ordered : Ordered record q) : Ordered (record ++ q.agingPlacements now reading) (q.ageOnceLocked now reading).1 := by
  cases aging : q.aging with
  | none => simpa [MultiLevelQueue.ageOnceLocked, agingPlacements, aging] using ordered
  | some cfg =>
    simp only [MultiLevelQueue.ageOnceLocked, agingPlacements, aging]
    exact Ordered.ageLevels readings _ valid aging 0 ordered

theorem removeLocked_sublist (q : MultiLevelQueue) (level : Nat) (node : Node) (other : Nat) :
    ((q.removeLocked level node).queues other).Sublist (q.queues other) := by
  simp only [removeLocked]
  by_cases same : other = level
  · subst same
    rw [Function.update_self]
    exact List.eraseP_sublist
  · rw [Function.update_of_ne same]

theorem Ordered.removeLocked {q : MultiLevelQueue} (ordered : Ordered record q) (level : Nat) (node : Node) :
    Ordered record (q.removeLocked level node) := ordered.shrink (removeLocked_sublist q level node) rfl

theorem Ordered.dequeueLocked {q q' : MultiLevelQueue} (ordered : Ordered record q) {cost : CostFunction} {msg : Message}
    (taken : q.dequeueLocked cost = some (msg, q')) : Ordered record q' := by
  cases weights : q.weights with
  | none =>
    obtain ⟨level, node, rest, cursor, -, -, -, rfl⟩ := dequeueLocked_unweighted weights taken
    exact (ordered.removeLocked level node).of_core rfl
  | some list =>
    obtain ⟨level, node, rest, -, -, -, rfl⟩ := dequeueLocked_weighted (weights ▸ rfl) taken
    exact (ordered.of_core (core_chargePull q level _)).removeLocked level node

theorem Ordered.sweepExpiredBatch (now : Time) (limit : Nat) {q : MultiLevelQueue} (ordered : Ordered record q) :
    Ordered record (MultiLevelQueue.sweepExpiredBatch now limit q).2 := by
  induction limit generalizing q with
  | zero => exact ordered
  | succ limit ih =>
    unfold MultiLevelQueue.sweepExpiredBatch
    split
    · exact ordered
    · split
      · split
        · exact ordered
        · exact ih (ordered.removeLocked _ _)
      · exact ordered

theorem Ordered.sweepScan (todo : List (Nat × Node)) (visited : Nat) {q : MultiLevelQueue} (ordered : Ordered record q) :
    Ordered record (MultiLevelQueue.sweepScan reading todo visited q).2 := by
  induction todo generalizing q visited with
  | nil => exact ordered
  | cons item rest ih =>
    unfold MultiLevelQueue.sweepScan
    split
    · exact ih _ (ordered.removeLocked _ _)
    · exact ih _ ordered

theorem Ordered.sweepExpired (now : Time) {q : MultiLevelQueue} (ordered : Ordered record q) :
    Ordered record (q.sweepExpired now reading).2 := by
  unfold MultiLevelQueue.sweepExpired
  split
  · exact ordered
  · split
    · exact ordered
    · exact ordered.sweepScan _ _

/-- One operation other than a restore. -/
theorem Ordered.step {s next : Clocked} {operation : Operation} (valid : s.queue.Valid s.now)
    (ordered : Ordered record s.queue) (forward : ∀ cost msg, operation ≠ .requeueFront cost msg)
    (moved : s.step operation = some next) : Ordered (record ++ s.placements operation) next.queue := by
  have unchanged : ∀ {q : MultiLevelQueue}, Ordered record q → Ordered (record ++ []) q := fun known => by
    rwa [List.append_nil]
  cases operation with
  | advance now =>
    obtain ⟨-, rfl⟩ := Clocked.step_spec moved
    exact unchanged ordered
  | enqueue cost msg reading =>
    obtain ⟨-, rfl⟩ := Clocked.step_spec moved
    simp only [Clocked.placements]
    by_cases inside : msg.priority < s.queue.numLevels
    · obtain ⟨queue, placed⟩ := s.queue.placeMessage_exists cost inside false reading
      rw [if_pos inside, MultiLevelQueue.enqueue, placed, Option.getD_some]
      exact (ordered.link valid.structured { msg with enqueueTime := reading }).of_core (placeMessage_core placed)
    · have refused : s.queue.enqueue cost msg reading = none := by
        rw [MultiLevelQueue.enqueue, placeMessage, if_pos (not_lt.mp inside)]
      rw [if_neg inside, refused]
      exact unchanged ordered
  | requeueFront cost msg => exact absurd rfl (forward cost msg)
  | dequeue cost =>
    rw [show next = _ from Clocked.step_spec moved]
    refine unchanged ?_
    cases taken : s.queue.dequeueLocked cost with
    | none => exact ordered
    | some result => exact ordered.dequeueLocked taken
  | sweepExpiredBatch limit reading =>
    obtain ⟨-, rfl⟩ := Clocked.step_spec moved
    exact unchanged (ordered.sweepExpiredBatch reading limit)
  | sweepExpired reading readings =>
    obtain ⟨-, rfl⟩ := Clocked.step_spec moved
    exact unchanged (ordered.sweepExpired reading)
  | ageOnce reading readings =>
    obtain ⟨⟨-, bound⟩, rfl⟩ := Clocked.step_spec moved
    exact ordered.ageOnceLocked reading (getD_le bound) valid

theorem Ordered.run {operations : List Operation} {s t : Clocked} (valid : s.queue.Valid s.now)
    (ordered : Ordered record s.queue) (forward : ∀ cost msg, Operation.requeueFront cost msg ∉ operations)
    (ran : Transition.run Clocked.step operations s = some t) : Ordered (record ++ Clocked.placed operations s) t.queue := by
  induction operations generalizing s record with
  | nil =>
    obtain rfl := Option.some.inj ran
    simpa [Clocked.placed] using ordered
  | cons operation rest ih =>
    obtain ⟨next, moved, later⟩ := run_cons.mp ran
    have first := ordered.step valid (fun cost msg same => forward cost msg (same ▸ List.mem_cons_self ..)) moved
    have rest := ih (Clocked.step_keeps valid moved).1 first
      (fun cost msg member => forward cost msg (List.mem_cons_of_mem _ member)) later
    rw [List.append_assoc] at rest
    simpa only [Clocked.placed, moved] using rest

end Steps

section Promotions
variable {cfg : AgingConfig} {now : Time} {reading : Nat → Time}

theorem due_of_le {early late : Time} (order : early ≤ late) (due : ∃ due ∈ agingDeadline cfg late, due ≤ now) :
    ∃ due ∈ agingDeadline cfg early, due ≤ now := by
  obtain ⟨deadline, found, passed⟩ := due
  unfold agingDeadline at found ⊢
  split at found
  · cases found
  next short =>
    split at found
    · cases found
    next low =>
      obtain rfl := Option.some.inj found
      rw [if_neg short, if_neg (not_lt.mpr (order.trans (not_lt.mp low)))]
      exact ⟨_, rfl, (add_le_add_left order _).trans passed⟩

/-- The scan promotes nodes that it visits. -/
theorem mem_scanPlacements {level : Nat} {todo : List Node} {visited : Nat} {placement : Placement}
    (member : placement ∈ scanPlacements cfg now reading level todo visited) : ∃ node ∈ todo,
      (∃ due ∈ agingDeadline cfg node.message.enqueueTime, due ≤ now) ∧ placement = (promotedNode node level now).placement := by
  induction todo generalizing visited with
  | nil => exact absurd member List.not_mem_nil
  | cons node rest ih =>
    have later : (∃ node ∈ rest, (∃ due ∈ agingDeadline cfg node.message.enqueueTime, due ≤ now) ∧
        placement = (promotedNode node level now).placement) → ∃ found ∈ node :: rest,
        (∃ due ∈ agingDeadline cfg found.message.enqueueTime, due ≤ now) ∧
          placement = (promotedNode found level now).placement := by
      rintro ⟨found, present, facts⟩
      exact ⟨found, List.mem_cons_of_mem _ present, facts⟩
    unfold scanPlacements at member
    split at member
    · exact later (ih member)
    · split at member
      next due =>
        rcases List.mem_cons.mp member with rfl | rest
        · exact ⟨node, List.mem_cons_self .., due, rfl⟩
        · split at rest
          · exact absurd rest List.not_mem_nil
          · exact later (ih rest)
      · exact later (ih member)

/-- The scan comes to the first of two nodes first: if it promotes the second, it has promoted the first. -/
theorem scanPlacements_order {level : Nat} {todo : List Node} {visited : Nat} {first second : Node}
    (distinct : (todo.map Node.handle).Nodup) (order : [first, second].Sublist todo)
    (alive : ∀ visit, ¬first.message.isExpired (reading visit))
    (times : first.message.enqueueTime ≤ second.message.enqueueTime)
    (promoted : (promotedNode second level now).placement ∈ scanPlacements cfg now reading level todo visited) :
    [(promotedNode first level now).placement, (promotedNode second level now).placement].Sublist
      (scanPlacements cfg now reading level todo visited) := by
  induction todo generalizing visited with
  | nil => cases order
  | cons node rest ih =>
    obtain ⟨fresh, apart⟩ := List.nodup_cons.mp distinct
    have same : ∀ found ∈ node :: rest, (promotedNode second level now).placement = (promotedNode found level now).placement →
        second = found := fun found member equal =>
      List.inj_on_of_nodup_map distinct (order.subset (by simp)) member (congrArg Placement.handle equal)
    cases order with
    | cons _ later =>
      have behind : second ≠ node := fun equal => fresh (equal ▸ List.mem_map_of_mem (later.subset (by simp)))
      unfold scanPlacements at promoted ⊢
      split
      next expired =>
        rw [if_pos expired] at promoted
        exact ih apart later promoted
      next live =>
        rw [if_neg live] at promoted
        split
        next due =>
          rw [if_pos due] at promoted
          rcases List.mem_cons.mp promoted with head | tail
          · exact absurd (same node (List.mem_cons_self ..) head) behind
          · split at tail
            · exact absurd tail List.not_mem_nil
            next plain =>
              rw [if_neg plain]
              exact .cons _ (ih apart later tail)
        next early =>
          rw [if_neg early] at promoted
          exact ih apart later promoted
    | cons_cons _ later =>
      have behind : second ≠ first := fun equal => fresh (equal ▸ List.mem_map_of_mem (later.subset (by simp)))
      obtain ⟨found, member, due, equal⟩ := mem_scanPlacements promoted
      rw [← same found member equal] at due
      unfold scanPlacements at promoted ⊢
      rw [if_neg (alive visited), if_pos (due_of_le times due)] at promoted ⊢
      rcases List.mem_cons.mp promoted with head | tail
      · exact absurd (same first (List.mem_cons_self ..) head) behind
      · exact .cons_cons _ (List.singleton_sublist.mpr tail)

/-- A pass over the levels up to `bound` places nodes below `bound` only. -/
theorem level_of_levelPlacements {level : Nat} {state : MultiLevelQueue × Nat} {placement : Placement}
    (member : placement ∈ levelPlacements cfg now reading level state) : placement.level = level - 1 := by
  simp only [levelPlacements] at member
  split at member
  · exact absurd member List.not_mem_nil
  · split at member
    · exact absurd member List.not_mem_nil
    · split at member
      · exact absurd member List.not_mem_nil
      · obtain ⟨node, -, -, rfl⟩ := mem_scanPlacements member
        rfl

theorem level_of_passPlacements {bound : Nat} {state : MultiLevelQueue × Nat} {placement : Placement}
    (member : placement ∈ passPlacements cfg now reading bound state) : placement.level < bound := by
  induction bound generalizing state with
  | zero => exact absurd member List.not_mem_nil
  | succ bound ih =>
    rcases List.mem_append.mp member with here | later
    · rw [level_of_levelPlacements here]
      exact Nat.lt_succ_self _
    · exact Nat.lt_succ_of_lt (ih later)

theorem ageScan_prefix {level other : Nat} (different : other ≠ level) {dueBefore : Time} (todo : List Node)
    (q : MultiLevelQueue) (visited : Nat) :
    q.queues other <+: (ageScan cfg now reading level dueBefore todo (q, visited)).1.queues other := by
  induction todo generalizing q visited with
  | nil => exact List.prefix_refl _
  | cons node rest ih =>
    have promoted : q.queues other <+: (q.promote level node now).queues other := by
      by_cases target : other = level - 1
      · subst target
        rw [promote_above]
        exact List.prefix_append _ _
      · rw [promote_elsewhere q node now different target]
    unfold ageScan
    split
    · exact ih q _
    · split
      · split
        · exact promoted
        · exact promoted.trans (ih _ _)
      · have rest := ih (q.noteAgingDeadline level node.message.enqueueTime) (visited + 1)
        rwa [noteAgingDeadline_queues] at rest

theorem ageLevel_extends {level other : Nat} (different : other ≠ level) (q : MultiLevelQueue) (visited : Nat) :
    q.queues other <+: (ageLevel cfg now reading level (q, visited)).1.queues other := by
  simp only [ageLevel]
  split
  · exact List.prefix_refl _
  · split
    · exact List.prefix_refl _
    · split
      · exact List.prefix_refl _
      · exact ageScan_prefix different (q.queues level) { q with nextAging := Function.update q.nextAging level none } visited

/-- In a pass as well. -/
theorem passPlacements_order {bound : Nat} {later : Time} (readings : ∀ visit, reading visit ≤ later) {q : MultiLevelQueue}
    (valid : q.Valid later) (aging : q.aging = some cfg) {visited level : Nat} (inside : level < bound) {first second : Node}
    (order : [first, second].Sublist (q.queues (level + 1))) (alive : ∀ visit, ¬first.message.isExpired (reading visit))
    (times : first.message.enqueueTime ≤ second.message.enqueueTime)
    (promoted : (promotedNode second (level + 1) now).placement ∈ passPlacements cfg now reading bound (q, visited)) :
    [(promotedNode first (level + 1) now).placement, (promotedNode second (level + 1) now).placement].Sublist
      (passPlacements cfg now reading bound (q, visited)) := by
  induction bound generalizing q visited with
  | zero => exact absurd inside (Nat.not_lt_zero _)
  | succ bound ih =>
    obtain ⟨kept, params, -⟩ := ageLevel_kept now readings (Nat.succ_pos bound) valid aging visited
    have config := (congrArg (fun params => params.2.2.1) params).trans aging
    rcases Nat.lt_succ_iff_lt_or_eq.mp inside with lower | rfl
    · rcases List.mem_append.mp promoted with here | later
      · have target : level = bound := level_of_levelPlacements here
        omega
      · have different : level + 1 ≠ bound + 1 := by omega
        exact (ih kept config lower (order.trans (ageLevel_extends different q visited).sublist) later).trans
          (List.sublist_append_right _ _)
    · rcases List.mem_append.mp promoted with here | later
      · refine List.Sublist.trans ?_ (List.sublist_append_left _ _)
        have distinct := valid.structured.level_distinct (valid.structured.level_lt (order.subset (List.mem_cons_self ..)))
        simp only [levelPlacements] at here ⊢
        split at here
        · exact absurd here List.not_mem_nil
        · split at here
          · exact absurd here List.not_mem_nil
          · split at here
            · exact absurd here List.not_mem_nil
            next dueBefore cached reached unpaused =>
              rw [if_neg reached, if_neg unpaused]
              exact scanPlacements_order distinct order alive times here
      · exact absurd (level_of_passPlacements later) (lt_irrefl _)

end Promotions

/-- Under strict priority a dequeue takes the first message of the lowest level that holds one. -/
theorem dequeueLocked_strict {q : MultiLevelQueue} (unweighted : q.weights = none) (strict : q.selection = .strictPriority)
    (cost : CostFunction) : match q.dequeueLocked cost with
      | none => ∀ level < q.numLevels, q.queues level = []
      | some (msg, _) => ∃ level node rest, q.queues level = node :: rest ∧ node.message = msg ∧
          ∀ lower < level, q.queues lower = [] := by
  have plain : ¬q.selection = .roundRobin := by rw [strict]; decide
  have scan : q.scanLevel = (List.range q.numLevels).find? fun level => !(q.queues level).isEmpty := by
    simp only [scanLevel, if_neg plain, List.map_id']
  simp only [dequeueLocked, unweighted, Option.isSome_none, Bool.false_eq_true, ↓reduceIte]
  cases found : q.scanLevel with
  | none =>
    intro level inside
    rw [scan] at found
    simpa using List.find?_eq_none.mp found level (List.mem_range.mpr inside)
  | some level =>
    rw [scan] at found
    have busy := List.find?_some found
    cases front : q.queues level with
    | nil => simp [front] at busy
    | cons node rest =>
      simp only [front]
      refine ⟨level, node, rest, front, rfl, fun lower below => ?_⟩
      obtain ⟨inside, -, first⟩ := List.find?_range_eq_some.mp found
      simpa using first lower below

/-- A dequeue takes the head of a level. -/
theorem mem_of_dequeueLocked {q q' : MultiLevelQueue} (structured : q.Structured) {cost : CostFunction} {msg : Message}
    (taken : q.dequeueLocked cost = some (msg, q')) {level : Nat} {first second : Node}
    (order : [first, second].Sublist (q.queues level)) : second ∈ q'.queues level := by
  have member : second ∈ q.queues level := order.subset (by simp)
  have behind : ∀ other node rest, q.queues other = node :: rest → second.handle ≠ node.handle := by
    intro other node rest front same
    have head : node ∈ q.queues other := front ▸ List.mem_cons_self ..
    have equal := structured.index.node_unique (structured.mem_nodes member) (structured.mem_nodes head) same
    have here : level = other := by
      rw [← structured.priority level second member, equal, structured.priority other node head]
    subst here equal
    have distinct := structured.level_distinct (structured.level_lt member)
    rw [front] at order distinct
    obtain ⟨fresh, -⟩ := List.nodup_cons.mp distinct
    cases order with
    | cons _ later => exact fresh (List.mem_map_of_mem (later.subset (by simp)))
    | cons_cons _ later => exact fresh (List.mem_map_of_mem (later.subset (by simp)))
  cases weights : q.weights with
  | none =>
    obtain ⟨other, node, rest, cursor, -, front, -, rfl⟩ := dequeueLocked_unweighted weights taken
    exact mem_removeLocked member (behind other node rest front)
  | some list =>
    obtain ⟨other, node, rest, -, front, -, rfl⟩ := dequeueLocked_weighted (weights ▸ rfl) taken
    have kept : second ∈ (q.chargePull other (chargeLocked cost msg)).queues level := member
    exact mem_removeLocked kept (behind other node rest front)

/-- Levels are FIFO. In a level, whoever was placed earlier is not overtaken: not by a dequeue, and not by a promotion
while it is live and was placed at no later time. -/
theorem levels_fifo {numLevels : Nat} {aging : Option AgingConfig} {selection : QueueSelection}
    {weights : Option (List Nat)} {q : MultiLevelQueue} {start : Time} {operations : List Operation} {s : Clocked}
    (made : create numLevels aging selection weights = .ok q)
    (forward : ∀ cost msg, Operation.requeueFront cost msg ∉ operations)
    (ran : run Clocked.step operations ⟨q, start⟩ = some s) :
    (∀ level first second, first ∈ s.queue.queues level → second ∈ s.queue.queues level →
      [first.placement, second.placement].Sublist (Clocked.placed operations ⟨q, start⟩) →
      (∀ cost msg q', s.queue.dequeueLocked cost = some (msg, q') → second ∈ q'.queues level) ∧
      ∀ now reading, (∀ visit, reading visit ≤ s.now) → (∀ visit, ¬first.message.isExpired (reading visit)) →
        first.message.enqueueTime ≤ second.message.enqueueTime → 1 ≤ level →
        (promotedNode second level now).placement ∈ s.queue.agingPlacements now reading →
        [(promotedNode first level now).placement, (promotedNode second level now).placement].Sublist
          (s.queue.agingPlacements now reading)) ∧
    (selection = .strictPriority → ∀ cost, match s.queue.dequeueLocked cost with
      | none => ∀ level < numLevels, s.queue.queues level = []
      | some (msg, _) => ∃ level node rest, s.queue.queues level = node :: rest ∧ node.message = msg ∧
          ∀ lower < level, s.queue.queues lower = []) := by
  obtain ⟨valid, params⟩ := run_valid made ran
  have empty : Ordered [] q := by
    obtain ⟨rfl, -, -⟩ := create_ok made
    exact ⟨List.nodup_nil, fun _ member => absurd member List.not_mem_nil, fun _ member => absurd member List.not_mem_nil,
      fun _ => List.Sublist.slnil⟩
  have ordered : Ordered (Clocked.placed operations ⟨q, start⟩) s.queue := empty.run (create_valid made start) forward ran
  constructor
  · intro level first second here there earlier
    have order := ordered.before valid.structured here there earlier
    refine ⟨fun cost msg q' taken => mem_of_dequeueLocked valid.structured taken order, ?_⟩
    intro now reading readings alive times positive promoted
    obtain ⟨above, rfl⟩ := Nat.exists_eq_add_of_le' positive
    cases config : s.queue.aging with
    | none => simp [agingPlacements, config] at promoted
    | some cfg =>
      simp only [agingPlacements, config] at promoted ⊢
      have inside := valid.structured.level_lt here
      exact passPlacements_order readings valid config (by omega) order alive times promoted
  · intro strict cost
    subst strict
    obtain rfl := create_unweighted (by decide) made
    obtain ⟨rfl, -, -⟩ := create_ok made
    simp only [MultiLevelQueue.params, Prod.mk.injEq] at params
    have served := dequeueLocked_strict (q := s.queue) params.2.2.2 params.2.1 cost
    rwa [params.1] at served

/-- Three messages in level 1, of which the first two are due for promotion. -/
def queueing : List Operation :=
  [.enqueue (fun _ => none) { id := [1] } 0, .enqueue (fun _ => none) { id := [2] } 0, .advance 6000000,
    .enqueue (fun _ => none) { id := [3] } 6000000]

theorem levels_fifo_promotions : ∃ q s, create 2 (some ⟨5, 1, none⟩) .strictPriority none = .ok q ∧
    run Clocked.step queueing ⟨q, 0⟩ = some s ∧
    s.queue.agingPlacements 6000000 (fun _ => 6000000) = [⟨0, 0, 6000000⟩, ⟨0, 1, 6000000⟩] ∧
    Clocked.placed queueing ⟨q, 0⟩ = [⟨1, 0, 0⟩, ⟨1, 1, 0⟩, ⟨1, 2, 6000000⟩] ∧
    ∀ cost, match s.queue.dequeueLocked cost with
      | none => ∀ level < 2, s.queue.queues level = []
      | some (msg, _) => ∃ level node rest, s.queue.queues level = node :: rest ∧ node.message = msg ∧
          ∀ lower < level, s.queue.queues lower = [] := by
  have made : create 2 (some ⟨5, 1, none⟩) .strictPriority none = .ok _ := rfl
  have ran : run Clocked.step queueing
    ⟨{ numLevels := 2, selection := .strictPriority, aging := some ⟨5, 1, none⟩, weights := none }, 0⟩ = some _ := rfl
  have forward : ∀ cost msg, Operation.requeueFront cost msg ∉ queueing := by
    intro cost msg member
    simp [queueing] at member
  exact ⟨_, _, made, ran, by decide +kernel, by decide +kernel, (levels_fifo made forward ran).2 rfl⟩

end MultiLevelQueue

end Harbinger
