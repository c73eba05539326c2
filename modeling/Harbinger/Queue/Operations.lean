import Harbinger.Queue.Invariant

/-! One specification for each critical section of the queue except aging: it keeps the
invariant, leaves the configuration alone, and changes the queued messages by exactly
what it places or returns. -/

namespace Harbinger.MultiLevelQueue
open Container

/-- The cached deadline of `level` bounds the aging deadlines of these nodes from below. -/
def DueAt (q : MultiLevelQueue) (now : Time) (level : Nat) (nodes : List Node) : Prop :=
  ∀ cfg, q.aging = some cfg → ∀ node ∈ nodes, ¬node.message.isExpired now →
    ∀ due, agingDeadline cfg node.message.enqueueTime = some due →
      ∃ cached, q.nextAging level = some cached ∧ cached ≤ due

def Due (q : MultiLevelQueue) (now : Time) : Prop :=
  ∀ level, 1 ≤ level → q.DueAt now level (q.queues level)

structure Valid (q : MultiLevelQueue) (now : Time) : Prop where
  structured : q.Structured
  due : q.Due now

def messages (q : MultiLevelQueue) : List Message := q.nodes.map Node.message

/-- The part of the queue that no operation changes. -/
def params (q : MultiLevelQueue) := (q.numLevels, q.selection, q.aging, q.weights)

theorem Valid.mono {q : MultiLevelQueue} {now later : Time} (valid : q.Valid now) (order : now ≤ later) :
    q.Valid later where
  structured := valid.structured
  due := fun level positive cfg aging node member live =>
    valid.due level positive cfg aging node member fun expired => live (Message.isExpired_mono order expired)

theorem mem_messages {q : MultiLevelQueue} {now : Time} (valid : q.Valid now) {msg : Message}
    (member : msg ∈ q.messages) : msg.priority < q.numLevels ∧ msg.priority ≤ msg.originalPriority := by
  obtain ⟨node, present, rfl⟩ := List.mem_map.mp member
  obtain ⟨level, inside, here⟩ := mem_concat.mp present
  refine ⟨?_, valid.structured.native level node here⟩
  rw [valid.structured.priority level node here]
  exact inside

section Cache
variable (q : MultiLevelQueue) (level : Nat) (enqueued : Time)

@[simp] theorem noteAgingDeadline_aging : (q.noteAgingDeadline level enqueued).aging = q.aging := by
  unfold noteAgingDeadline
  split
  · rfl
  · split
    · rfl
    · split <;> rfl

@[simp] theorem noteAgingDeadline_queues : (q.noteAgingDeadline level enqueued).queues = q.queues :=
  congrArg (fun core => core.2.1) (core_noteAgingDeadline q level enqueued)

@[simp] theorem noteAgingDeadline_params : (q.noteAgingDeadline level enqueued).params = q.params := by
  unfold noteAgingDeadline
  split
  · rfl
  · split
    · rfl
    · split <;> rfl

private theorem earlier_le (known : Option Time) (due : Time) :
    earlier known due ≤ due ∧ ∀ held, known = some held → earlier known due ≤ held := by
  unfold earlier
  constructor
  · split
    · exact le_rfl
    · split <;> order
  · rintro held rfl
    simp only
    split <;> order

theorem noteAgingDeadline_le {other : Nat} {cached : Time} (known : q.nextAging other = some cached) :
    ∃ kept, (q.noteAgingDeadline level enqueued).nextAging other = some kept ∧ kept ≤ cached := by
  unfold noteAgingDeadline
  split
  · exact ⟨cached, known, le_rfl⟩
  · split
    · exact ⟨cached, known, le_rfl⟩
    · split
      · exact ⟨cached, known, le_rfl⟩
      · next due _ =>
        by_cases same : other = level
        · subst same
          refine ⟨earlier (q.nextAging other) due, Function.update_self .., ?_⟩
          exact (earlier_le _ due).2 cached known
        · exact ⟨cached, (Function.update_of_ne same _ _).trans known, le_rfl⟩

theorem noteAgingDeadline_self {cfg : AgingConfig} {due : Time} (aging : q.aging = some cfg)
    (positive : 1 ≤ level) (deadline : agingDeadline cfg enqueued = some due) :
    ∃ kept, (q.noteAgingDeadline level enqueued).nextAging level = some kept ∧ kept ≤ due := by
  have nonzero : level ≠ 0 := by omega
  refine ⟨earlier (q.nextAging level) due, ?_, (earlier_le _ due).1⟩
  simp only [noteAgingDeadline, aging, if_neg nonzero, deadline, Function.update_self]

theorem DueAt.note {q : MultiLevelQueue} {now : Time} {other : Nat} {nodes : List Node}
    (due : q.DueAt now other nodes) (level : Nat) (enqueued : Time) :
    (q.noteAgingDeadline level enqueued).DueAt now other nodes := by
  intro cfg aging node member live deadline found
  rw [noteAgingDeadline_aging] at aging
  obtain ⟨cached, known, bound⟩ := due cfg aging node member live deadline found
  obtain ⟨kept, noted, lower⟩ := noteAgingDeadline_le q level enqueued known
  exact ⟨kept, noted, lower.trans bound⟩

theorem DueAt.note_self {q : MultiLevelQueue} (now : Time) {level : Nat} (positive : 1 ≤ level)
    (node : Node) : (q.noteAgingDeadline level node.message.enqueueTime).DueAt now level [node] := by
  intro cfg aging other member _ deadline found
  rw [noteAgingDeadline_aging] at aging
  rw [List.mem_singleton.mp member] at found
  exact noteAgingDeadline_self q level _ aging positive found

end Cache

theorem DueAt.append {q : MultiLevelQueue} {now : Time} {level : Nat} {first second : List Node}
    (left : q.DueAt now level first) (right : q.DueAt now level second) :
    q.DueAt now level (first ++ second) := by
  intro cfg aging node member
  rcases List.mem_append.mp member with here | there
  · exact left cfg aging node here
  · exact right cfg aging node there

theorem DueAt.subset {q : MultiLevelQueue} {now : Time} {level : Nat} {first second : List Node}
    (due : q.DueAt now level second) (included : first ⊆ second) : q.DueAt now level first :=
  fun cfg aging node member => due cfg aging node (included member)

theorem placeShare_same (q : MultiLevelQueue) (cost : CostFunction) (msg : Message)
    (wasEmpty restoreFront : Bool) :
    (q.placeShare cost msg wasEmpty restoreFront).params = q.params ∧
      (q.placeShare cost msg wasEmpty restoreFront).nextAging = q.nextAging := by
  unfold placeShare
  split
  · exact ⟨rfl, rfl⟩
  · cases wasEmpty <;> cases restoreFront <;> exact ⟨rfl, rfl⟩

theorem Due.of_fields {q q' : MultiLevelQueue} {now : Time} (due : q.Due now)
    (queues : q'.queues = q.queues) (aging : q'.aging = q.aging) (cache : q'.nextAging = q.nextAging) :
    q'.Due now := by
  intro level positive
  rw [queues]
  intro cfg known node member live deadline found
  rw [cache]
  exact due level positive cfg (aging ▸ known) node member live deadline found

theorem nodes_of_core {q q' : MultiLevelQueue} (same : q'.core = q.core) : q'.nodes = q.nodes := by
  have levels : q'.numLevels = q.numLevels := congrArg Prod.fst same
  have queues : q'.queues = q.queues := congrArg (fun core => core.2.1) same
  rw [nodes, levels, queues, nodes]

/-- The message as it is stored: an ordinary enqueue stamps it. -/
def stamped (msg : Message) (restoreFront : Bool) (now : Time) : Message :=
  if restoreFront then msg else { msg with enqueueTime := now }

theorem placeMessage_core {q q' : MultiLevelQueue} {cost : CostFunction} {msg : Message} {restoreFront : Bool}
    {stamp : Time} (placed : q.placeMessage cost msg restoreFront stamp = some q') :
    q'.core = (q.linkNode (stamped msg restoreFront stamp) restoreFront).core := by
  unfold placeMessage at placed
  split at placed
  · cases placed
  · rw [← Option.some.inj placed, core_placeShare, core_noteAgingDeadline]
    rfl

theorem placeMessage_spec {q q' : MultiLevelQueue} {now : Time} (valid : q.Valid now)
    {cost : CostFunction} {msg : Message} {restoreFront : Bool} {stamp : Time}
    (native : msg.priority ≤ msg.originalPriority)
    (placed : q.placeMessage cost msg restoreFront stamp = some q') :
    q'.Valid now ∧ q'.params = q.params ∧
      q'.messages.Perm (stamped msg restoreFront stamp :: q.messages) := by
  unfold placeMessage at placed
  split at placed
  · cases placed
  next inside =>
    have same := Option.some.inj placed
    clear placed
    set stored := if restoreFront then msg else { msg with enqueueTime := stamp } with storedEq
    have priority : stored.priority = msg.priority := by rw [storedEq]; split <;> rfl
    have original : stored.originalPriority = msg.originalPriority := by rw [storedEq]; split <;> rfl
    have within : stored.priority < q.numLevels := by omega
    have structured := valid.structured.linkNode within (by omega) restoreFront
    set linked := q.linkNode stored restoreFront with linkedEq
    set noted := linked.noteAgingDeadline stored.priority stored.enqueueTime with notedEq
    have core : q'.core = linked.core := by
      rw [← same, core_placeShare, notedEq, core_noteAgingDeadline]
    have share := placeShare_same noted cost stored (q.queues stored.priority).isEmpty restoreFront
    rw [same] at share
    have queues : q'.queues = noted.queues := by
      rw [notedEq, noteAgingDeadline_queues]
      exact congrArg (fun core => core.2.1) core
    have due : noted.Due now := by
      intro level positive
      rw [notedEq, noteAgingDeadline_queues]
      have old : linked.DueAt now level (q.queues level) := valid.due level positive
      by_cases here : level = stored.priority
      · have fresh : noted.DueAt now level [q.newNode stored] := by
          subst here
          exact DueAt.note_self now positive (q.newNode stored)
        refine ((old.note stored.priority stored.enqueueTime).append fresh).subset ?_
        subst here
        simp only [linkedEq, linkNode, Function.update_self]
        cases restoreFront <;> intro node member <;> simp at member ⊢ <;> tauto
      · have untouched : linked.queues level = q.queues level := by
          simp only [linkedEq, linkNode, Function.update_of_ne here]
        rw [untouched]
        exact old.note stored.priority stored.enqueueTime
    refine ⟨⟨structured.of_core core, ?_⟩, ?_, ?_⟩
    · exact due.of_fields queues (congrArg (fun params => params.2.2.1) share.1) share.2
    · rw [share.1, notedEq, noteAgingDeadline_params]
      rfl
    · rw [messages, nodes_of_core core]
      exact (q.linkNode_nodes within restoreFront).map Node.message

theorem placeMessage_exists (q : MultiLevelQueue) (cost : CostFunction) {msg : Message}
    (inside : msg.priority < q.numLevels) (restoreFront : Bool) (stamp : Time) :
    ∃ q', q.placeMessage cost msg restoreFront stamp = some q' := by
  unfold placeMessage
  rw [if_neg (not_le.mpr inside)]
  exact ⟨_, rfl⟩

theorem mem_removeLocked {q : MultiLevelQueue} {level other : Nat} {node x : Node}
    (member : x ∈ q.queues other) (different : x.handle ≠ node.handle) :
    x ∈ (q.removeLocked level node).queues other := by
  simp only [removeLocked]
  by_cases same : other = level
  · subst same
    rw [Function.update_self]
    exact (List.mem_eraseP_of_neg (by simpa using different)).mpr member
  · rwa [Function.update_of_ne same]

theorem removeLocked_subset (q : MultiLevelQueue) (level : Nat) (node : Node) (other : Nat) :
    (q.removeLocked level node).queues other ⊆ q.queues other := by
  intro x member
  simp only [removeLocked] at member
  by_cases same : other = level
  · subst same
    rw [Function.update_self] at member
    exact List.mem_of_mem_eraseP member
  · rwa [Function.update_of_ne same] at member

theorem Valid.removeLocked {q : MultiLevelQueue} {now : Time} (valid : q.Valid now) {level : Nat}
    {node : Node} (member : node ∈ q.queues level) : (q.removeLocked level node).Valid now := by
  refine ⟨valid.structured.removeLocked member, ?_⟩
  intro other positive cfg aging x present live due deadline
  have cached := valid.due other positive cfg aging x (removeLocked_subset q level node other present)
    live due deadline
  have kept : (q.removeLocked level node).nextAging other = q.nextAging other := by
    simp only [MultiLevelQueue.removeLocked]
    split
    next empty =>
      apply Function.update_of_ne
      rintro rfl
      simp only [MultiLevelQueue.removeLocked, Function.update_self, List.isEmpty_iff.mp empty] at present
      cases present
    next => rfl
  rwa [kept]

theorem removeLocked_messages {q : MultiLevelQueue} (structured : q.Structured) {level : Nat} {node : Node}
    (member : node ∈ q.queues level) :
    q.messages.Perm (node.message :: (q.removeLocked level node).messages) :=
  (removeLocked_nodes structured member).map Node.message

theorem dequeueLocked_spec {q q' : MultiLevelQueue} {now : Time} (valid : q.Valid now)
    {cost : CostFunction} {msg : Message} (taken : q.dequeueLocked cost = some (msg, q')) :
    q'.Valid now ∧ q'.params = q.params ∧ q.messages.Perm (msg :: q'.messages) := by
  unfold dequeueLocked at taken
  split at taken
  · split at taken
    · cases taken
    next level _ =>
      split at taken
      · cases taken
      next node rest shape =>
        have same := Prod.mk.inj (Option.some.inj taken)
        rw [← same.1, ← same.2]
        have member : node ∈ q.queues level := by rw [shape]; exact List.mem_cons_self ..
        set charged := q.chargePull level (chargeLocked cost node.message) with chargedEq
        have ready : charged.Valid now :=
          ⟨valid.structured.of_core (core_chargePull ..), valid.due.of_fields rfl rfl rfl⟩
        exact ⟨ready.removeLocked member, rfl, removeLocked_messages ready.structured member⟩
  · split at taken
    · cases taken
    next level _ =>
      split at taken
      · cases taken
      next node rest shape =>
        have same := Prod.mk.inj (Option.some.inj taken)
        rw [← same.1, ← same.2]
        have member : node ∈ q.queues level := by rw [shape]; exact List.mem_cons_self ..
        have left := valid.removeLocked member
        have split := removeLocked_messages valid.structured member
        by_cases cyclic : (q.removeLocked level node).selection = .roundRobin
        · rw [if_pos cyclic]
          exact ⟨⟨left.structured.of_core rfl, left.due.of_fields rfl rfl rfl⟩, rfl, split⟩
        · rw [if_neg cyclic]
          exact ⟨left, rfl, split⟩

theorem nodeAt_front {q : MultiLevelQueue} (structured : q.Structured) {slot : Slot (Time × Nat)}
    {node : Node} (front : q.expiry.front? = some slot) (found : q.nodeAt slot.value.2 = some node) :
    node ∈ q.queues node.message.priority ∧ 0 < node.message.ttl ∧
      node.message.expiryTime = slot.value.1 := by
  have present : node ∈ q.nodes := List.mem_of_find?_eq_some found
  have handle : node.handle = slot.value.2 := by simpa using List.find?_some found
  obtain ⟨level, _, here⟩ := mem_concat.mp present
  have priority := structured.priority level node here
  have first : slot ∈ q.expiry.slots := List.mem_of_mem_head? front
  obtain ⟨owner, member, address, pointer⟩ := structured.index.pointed slot first
  have same : owner = node := structured.index.node_unique member present (address.trans handle.symm)
  rw [same] at pointer
  obtain ⟨own, ownPresent, ownHandle, positive, value⟩ := structured.index.slot_of_expiry present pointer
  have slots : own = slot := q.expiry.slot_unique ownPresent first ownHandle
  rw [slots] at value
  exact ⟨priority ▸ here, positive, (congrArg Prod.fst value).symm⟩

theorem sweepExpiredBatch_spec (now : Time) {later : Time} (limit : Nat) {q : MultiLevelQueue}
    (valid : q.Valid later) :
    (sweepExpiredBatch now limit q).2.Valid later ∧
      (sweepExpiredBatch now limit q).2.params = q.params ∧
      (∀ msg ∈ (sweepExpiredBatch now limit q).1, msg.isExpired now) ∧
      q.messages.Perm ((sweepExpiredBatch now limit q).1 ++ (sweepExpiredBatch now limit q).2.messages) := by
  induction limit generalizing q with
  | zero => exact ⟨valid, rfl, by simp [sweepExpiredBatch], List.Perm.refl _⟩
  | succ limit ih =>
    have unchanged : q.Valid later ∧ q.params = q.params ∧ (∀ msg ∈ ([] : List Message), msg.isExpired now) ∧
        q.messages.Perm ([] ++ q.messages) := ⟨valid, rfl, by simp, List.Perm.refl _⟩
    unfold sweepExpiredBatch
    split
    · exact unchanged
    next slot front =>
      split
      next due =>
        split
        · exact unchanged
        next node found =>
          obtain ⟨member, positive, expiry⟩ := nodeAt_front valid.structured front found
          obtain ⟨kept, params, expired, split⟩ := ih (valid.removeLocked member)
          refine ⟨kept, params, ?_, ?_⟩
          · intro msg swept
            rcases List.mem_cons.mp swept with rfl | rest
            · exact ⟨positive, expiry ▸ due⟩
            · exact expired msg rest
          · exact (removeLocked_messages valid.structured member).trans (split.cons _)
      · exact unchanged

theorem sweepScan_spec {reading : Nat → Time} {later : Time} (todo : List (Nat × Node)) (visited : Nat)
    {q : MultiLevelQueue} (valid : q.Valid later) (placed : ∀ item ∈ todo, item.2 ∈ q.queues item.1)
    (distinct : (todo.map fun item => item.2.handle).Nodup) :
    (sweepScan reading todo visited q).2.Valid later ∧
      (sweepScan reading todo visited q).2.params = q.params ∧
      q.messages.Perm ((sweepScan reading todo visited q).1 ++
        (sweepScan reading todo visited q).2.messages) := by
  induction todo generalizing q visited with
  | nil => exact ⟨valid, rfl, List.Perm.refl _⟩
  | cons item rest ih =>
    obtain ⟨level, node⟩ := item
    obtain ⟨fresh, later⟩ := List.nodup_cons.mp distinct
    have member := placed (level, node) (List.mem_cons_self ..)
    unfold sweepScan
    split
    · have remain : ∀ other ∈ rest, other.2 ∈ (q.removeLocked level node).queues other.1 := by
        intro other present
        apply mem_removeLocked (placed other (List.mem_cons_of_mem _ present))
        intro same
        exact fresh (List.mem_map.mpr ⟨other, present, same⟩)
      obtain ⟨kept, params, split⟩ := ih (visited + 1) (valid.removeLocked member) remain later
      exact ⟨kept, params, (removeLocked_messages valid.structured member).trans (split.cons _)⟩
    · exact ih (visited + 1) valid (fun other present => placed other (List.mem_cons_of_mem _ present)) later

/-- The scan of `sweep_expired` visits every node once. -/
theorem scan_handles (q : MultiLevelQueue) :
    (((List.range q.numLevels).flatMap fun level => (q.queues level).map (level, ·)).map fun item => item.2.handle) =
      q.nodes.map Node.handle := by
  simp only [nodes, concat, List.map_flatMap, List.map_map]
  rfl

theorem mem_scan (q : MultiLevelQueue) :
    ∀ item ∈ (List.range q.numLevels).flatMap fun level => (q.queues level).map (level, ·), item.2 ∈ q.queues item.1 := by
  intro item member
  obtain ⟨level, _, here⟩ := List.mem_flatMap.mp member
  obtain ⟨node, present, rfl⟩ := List.mem_map.mp here
  exact present

theorem sweepExpired_spec (now : Time) {later : Time} (reading : Nat → Time) {q : MultiLevelQueue}
    (valid : q.Valid later) :
    (q.sweepExpired now reading).2.Valid later ∧ (q.sweepExpired now reading).2.params = q.params ∧
      q.messages.Perm ((q.sweepExpired now reading).1 ++ (q.sweepExpired now reading).2.messages) := by
  unfold sweepExpired
  split
  · exact ⟨valid, rfl, List.Perm.refl _⟩
  · split
    · exact ⟨valid, rfl, List.Perm.refl _⟩
    · exact sweepScan_spec _ _ valid (mem_scan q) (scan_handles q ▸ valid.structured.index.distinct)

end Harbinger.MultiLevelQueue
