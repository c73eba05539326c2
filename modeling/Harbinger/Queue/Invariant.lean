import Harbinger.Queue.Basic

/-! The representation invariant of the queue. `IndexOf` ties the expiry index to the
queued nodes, `Structured` adds the level lists, the total size and the promotion
counts, and `Due` says that every cached aging deadline is a lower bound. -/

namespace Harbinger.MultiLevelQueue
open Container

/-- A queued message with a TTL has its own index entry; any other message has none. -/
def Indexed (expiry : Multimap Time Nat) (node : Node) : Prop :=
  if 0 < node.message.ttl then
    ∃ slot ∈ expiry.slots, node.expiry = some slot.handle ∧
      slot.value = (node.message.expiryTime, node.handle)
  else node.expiry = none

structure IndexOf (expiry : Multimap Time Nat) (nodes : List Node) : Prop where
  distinct : (nodes.map Node.handle).Nodup
  indexed : ∀ node ∈ nodes, Indexed expiry node
  pointed : ∀ slot ∈ expiry.slots, ∃ node ∈ nodes,
    node.handle = slot.value.2 ∧ node.expiry = some slot.handle

namespace IndexOf
variable {expiry : Multimap Time Nat} {nodes rest : List Node} {node : Node}

theorem perm (index : IndexOf expiry nodes) (reordered : nodes.Perm rest) : IndexOf expiry rest where
  distinct := ((reordered.map _).nodup_iff).mp index.distinct
  indexed := fun node member => index.indexed node (reordered.mem_iff.mpr member)
  pointed := fun slot present => by
    obtain ⟨node, member, found⟩ := index.pointed slot present
    exact ⟨node, reordered.mem_iff.mp member, found⟩

theorem node_unique (index : IndexOf expiry nodes) {first second : Node} (here : first ∈ nodes)
    (there : second ∈ nodes) (same : first.handle = second.handle) : first = second :=
  List.inj_on_of_nodup_map index.distinct here there same

theorem slot_of_expiry (index : IndexOf expiry nodes) (member : node ∈ nodes) {handle : Nat}
    (pointer : node.expiry = some handle) :
    ∃ slot ∈ expiry.slots, slot.handle = handle ∧ 0 < node.message.ttl ∧
      slot.value = (node.message.expiryTime, node.handle) := by
  have entry := index.indexed node member
  unfold Indexed at entry
  split at entry
  next positive =>
    obtain ⟨slot, present, same, value⟩ := entry
    rw [pointer] at same
    exact ⟨slot, present, (Option.some.inj same).symm, positive, value⟩
  next =>
    rw [pointer] at entry
    cases entry

theorem insert (index : IndexOf expiry nodes) (fresh : node.handle ∉ nodes.map Node.handle)
    (pointer : node.expiry = if 0 < node.message.ttl then some expiry.next else none) :
    IndexOf (if 0 < node.message.ttl then expiry.emplace node.message.expiryTime node.handle else expiry)
      (node :: nodes) := by
  constructor
  · exact List.nodup_cons.mpr ⟨fresh, index.distinct⟩
  · intro other member
    by_cases positive : 0 < node.message.ttl
    · simp only [if_pos positive] at pointer ⊢
      rcases List.mem_cons.mp member with rfl | old
      · rw [Indexed, if_pos positive]
        exact ⟨⟨expiry.next, other.message.expiryTime, other.handle⟩, by simp, pointer, rfl⟩
      · have entry := index.indexed other old
        unfold Indexed at entry ⊢
        split
        next timed =>
          rw [if_pos timed] at entry
          obtain ⟨slot, present, found⟩ := entry
          exact ⟨slot, by simp [present], found⟩
        next untimed => rwa [if_neg untimed] at entry
    · simp only [if_neg positive] at pointer ⊢
      rcases List.mem_cons.mp member with rfl | old
      · rwa [Indexed, if_neg positive]
      · exact index.indexed other old
  · intro slot present
    by_cases positive : 0 < node.message.ttl
    · simp only [if_pos positive, Multimap.mem_emplace] at present pointer
      rcases present with rfl | old
      · exact ⟨node, by simp, rfl, pointer⟩
      · obtain ⟨other, member, found⟩ := index.pointed slot old
        exact ⟨other, List.mem_cons_of_mem _ member, found⟩
    · simp only [if_neg positive] at present
      obtain ⟨other, member, found⟩ := index.pointed slot present
      exact ⟨other, List.mem_cons_of_mem _ member, found⟩

theorem remove (index : IndexOf expiry (node :: rest)) :
    IndexOf (match node.expiry with | none => expiry | some handle => expiry.erase handle) rest := by
  have different : ∀ other ∈ rest, other.handle ≠ node.handle := by
    intro other member same
    exact (List.nodup_cons.mp index.distinct).1 (same ▸ List.mem_map_of_mem member)
  constructor
  · exact (List.nodup_cons.mp index.distinct).2
  · intro other member
    have entry := index.indexed other (List.mem_cons_of_mem _ member)
    cases pointer : node.expiry with
    | none => exact entry
    | some handle =>
      obtain ⟨own, ownPresent, ownHandle, _, ownValue⟩ :=
        index.slot_of_expiry (List.mem_cons_self ..) pointer
      unfold Indexed at entry ⊢
      split
      next timed =>
        rw [if_pos timed] at entry
        obtain ⟨slot, present, found, value⟩ := entry
        refine ⟨slot, ?_, found, value⟩
        rw [Multimap.mem_erase]
        refine ⟨present, fun same => different other member ?_⟩
        have slots : slot = own := expiry.slot_unique present ownPresent (same.trans ownHandle.symm)
        rw [slots, ownValue] at value
        exact (congrArg Prod.snd value).symm
      next untimed => rwa [if_neg untimed] at entry
  · intro slot present
    have kept : slot ∈ expiry.slots ∧ node.expiry ≠ some slot.handle := by
      cases pointer : node.expiry with
      | none => simp only [pointer] at present; exact ⟨present, by simp⟩
      | some handle =>
        simp only [pointer, Multimap.mem_erase] at present
        exact ⟨present.1, fun same => present.2 (Option.some.inj same).symm⟩
    obtain ⟨other, member, found⟩ := index.pointed slot kept.1
    rcases List.mem_cons.mp member with rfl | old
    · exact absurd found.2 kept.2
    · exact ⟨other, old, found⟩

theorem replace (index : IndexOf expiry (node :: rest)) (level : Nat) (now : Time) :
    IndexOf expiry (promotedNode node level now :: rest) where
  distinct := index.distinct
  indexed := by
    intro other member
    rcases List.mem_cons.mp member with rfl | old
    · exact index.indexed node (List.mem_cons_self ..)
    · exact index.indexed other (List.mem_cons_of_mem _ old)
  pointed := by
    intro slot present
    obtain ⟨other, member, found⟩ := index.pointed slot present
    rcases List.mem_cons.mp member with rfl | old
    · exact ⟨promotedNode other level now, List.mem_cons_self .., found⟩
    · exact ⟨other, List.mem_cons_of_mem _ old, found⟩

end IndexOf

structure Structured (q : MultiLevelQueue) : Prop where
  outside : ∀ level, q.numLevels ≤ level → q.queues level = []
  priority : ∀ level, ∀ node ∈ q.queues level, node.message.priority = level
  native : ∀ level, ∀ node ∈ q.queues level, node.message.priority ≤ node.message.originalPriority
  total : q.totalSize = q.nodes.length
  allocated : ∀ node ∈ q.nodes, node.handle < q.nextHandle
  index : IndexOf q.expiry q.nodes
  promoted : ∀ level, q.promotedIn level = (q.queues level).countP fun node => node.message.isPromoted

/-- The fields that `Structured` reads. -/
def core (q : MultiLevelQueue) :=
  (q.numLevels, q.queues, q.expiry, q.totalSize, q.promotedIn, q.nextHandle)

namespace Structured
variable {q q' : MultiLevelQueue} {level : Nat} {node : Node} {msg : Message}

theorem of_core (structured : q.Structured) (same : q'.core = q.core) : q'.Structured := by
  simp only [core, Prod.mk.injEq] at same
  obtain ⟨levels, queues, expiry, total, promoted, next⟩ := same
  have nodes : q'.nodes = q.nodes := by rw [MultiLevelQueue.nodes, levels, queues, MultiLevelQueue.nodes]
  constructor
  · rw [levels, queues]; exact structured.outside
  · rw [queues]; exact structured.priority
  · rw [queues]; exact structured.native
  · rw [total, nodes]; exact structured.total
  · rw [nodes, next]; exact structured.allocated
  · rw [nodes, expiry]; exact structured.index
  · rw [promoted, queues]; exact structured.promoted

theorem level_lt (structured : q.Structured) (member : node ∈ q.queues level) : level < q.numLevels := by
  by_contra beyond
  rw [structured.outside level (by omega)] at member
  cases member

theorem mem_nodes (structured : q.Structured) (member : node ∈ q.queues level) : node ∈ q.nodes :=
  mem_concat.mpr ⟨level, structured.level_lt member, member⟩

theorem level_distinct (structured : q.Structured) (inside : level < q.numLevels) :
    ((q.queues level).map Node.handle).Nodup := by
  have split := ((concat_perm inside q.queues).map Node.handle).nodup_iff.mp structured.index.distinct
  rw [List.map_append] at split
  exact split.of_append_left

end Structured

@[simp] theorem core_noteAgingDeadline (q : MultiLevelQueue) (level : Nat) (enqueued : Time) :
    (q.noteAgingDeadline level enqueued).core = q.core := by
  unfold noteAgingDeadline
  split
  · rfl
  · split
    · rfl
    · split <;> rfl

@[simp] theorem core_placeShare (q : MultiLevelQueue) (cost : CostFunction) (msg : Message)
    (wasEmpty restoreFront : Bool) : (q.placeShare cost msg wasEmpty restoreFront).core = q.core := by
  unfold placeShare
  split
  · rfl
  · cases wasEmpty <;> cases restoreFront <;> rfl

@[simp] theorem core_chargePull (q : MultiLevelQueue) (level : Nat) (cost : ℚ) :
    (q.chargePull level cost).core = q.core := rfl

theorem newNode_fresh {q : MultiLevelQueue} (structured : q.Structured) (msg : Message) :
    (q.newNode msg).handle ∉ q.nodes.map Node.handle := by
  intro member
  obtain ⟨node, present, same⟩ := List.mem_map.mp member
  have allocated := structured.allocated node present
  change node.handle = q.nextHandle at same
  omega

theorem linkNode_nodes (q : MultiLevelQueue) {msg : Message} (inside : msg.priority < q.numLevels)
    (restoreFront : Bool) : (q.linkNode msg restoreFront).nodes.Perm (q.newNode msg :: q.nodes) := by
  have changed : (if restoreFront then q.newNode msg :: q.queues msg.priority
      else q.queues msg.priority ++ [q.newNode msg]).Perm (q.newNode msg :: q.queues msg.priority) := by
    cases restoreFront
    · exact List.perm_append_singleton _ _
    · exact List.Perm.refl _
  refine (concat_update_perm inside q.queues _).trans ((changed.append_right _).trans ?_)
  exact ((concat_perm inside q.queues).symm).cons _

theorem Structured.linkNode {q : MultiLevelQueue} (structured : q.Structured) {msg : Message}
    (inside : msg.priority < q.numLevels) (native : msg.priority ≤ msg.originalPriority)
    (restoreFront : Bool) : (q.linkNode msg restoreFront).Structured := by
  have nodes := q.linkNode_nodes inside restoreFront
  have here : ∀ level, ∀ node ∈ (q.linkNode msg restoreFront).queues level,
      node ∈ q.queues level ∨ (node = q.newNode msg ∧ level = msg.priority) := by
    intro level node member
    simp only [MultiLevelQueue.linkNode] at member
    by_cases same : level = msg.priority
    · subst same
      rw [Function.update_self] at member
      cases restoreFront <;> simp at member <;> tauto
    · rw [Function.update_of_ne same] at member
      exact Or.inl member
  constructor
  · intro level beyond
    have different : level ≠ msg.priority := by
      rintro rfl
      exact absurd inside (by simpa [MultiLevelQueue.linkNode] using beyond)
    simp only [MultiLevelQueue.linkNode, Function.update_of_ne different]
    exact structured.outside level beyond
  · intro level node member
    rcases here level node member with old | ⟨rfl, rfl⟩
    · exact structured.priority level node old
    · rfl
  · intro level node member
    rcases here level node member with old | ⟨rfl, rfl⟩
    · exact structured.native level node old
    · exact native
  · rw [nodes.length_eq]
    simp [MultiLevelQueue.linkNode, structured.total]
  · intro node member
    rcases List.mem_cons.mp (nodes.mem_iff.mp member) with rfl | old
    · exact Nat.lt_succ_self _
    · exact Nat.lt_succ_of_lt (structured.allocated node old)
  · exact (structured.index.insert (newNode_fresh structured msg) rfl).perm nodes.symm
  · intro level
    by_cases same : level = msg.priority
    · subst same
      have count := structured.promoted msg.priority
      cases restoreFront <;> by_cases promoted : msg.isPromoted = true <;>
        simp [MultiLevelQueue.linkNode, newNode, promoted, count, List.countP_append]
    · have count := structured.promoted level
      by_cases promoted : msg.isPromoted = true <;>
        simp [MultiLevelQueue.linkNode, promoted, same, count]

theorem removeLocked_nodes {q : MultiLevelQueue} (structured : q.Structured) {level : Nat} {node : Node}
    (member : node ∈ q.queues level) : q.nodes.Perm (node :: (q.removeLocked level node).nodes) := by
  have inside := structured.level_lt member
  have taken := perm_cons_eraseP_key Node.handle (structured.level_distinct inside) member
  refine (concat_perm inside q.queues).trans ((taken.append_right _).trans ?_)
  exact ((concat_update_perm inside q.queues _).symm).cons node

theorem Structured.removeLocked {q : MultiLevelQueue} (structured : q.Structured) {level : Nat}
    {node : Node} (member : node ∈ q.queues level) : (q.removeLocked level node).Structured := by
  have inside := structured.level_lt member
  have nodes := removeLocked_nodes structured member
  have taken := perm_cons_eraseP_key Node.handle (structured.level_distinct inside) member
  have here : ∀ other, ∀ x ∈ (q.removeLocked level node).queues other, x ∈ q.queues other := by
    intro other x present
    simp only [MultiLevelQueue.removeLocked] at present
    by_cases same : other = level
    · subst same
      rw [Function.update_self] at present
      exact List.mem_of_mem_eraseP present
    · rwa [Function.update_of_ne same] at present
  constructor
  · intro other beyond
    have different : other ≠ level := by
      rintro rfl
      exact absurd inside (by simpa [MultiLevelQueue.removeLocked] using beyond)
    simp only [MultiLevelQueue.removeLocked, Function.update_of_ne different]
    exact structured.outside other beyond
  · exact fun other x present => structured.priority other x (here other x present)
  · exact fun other x present => structured.native other x (here other x present)
  · have length := nodes.length_eq
    rw [List.length_cons] at length
    simp only [MultiLevelQueue.removeLocked, structured.total] at length ⊢
    omega
  · exact fun x present => structured.allocated x (nodes.mem_iff.mpr (List.mem_cons_of_mem _ present))
  · exact (structured.index.perm nodes).remove
  · intro other
    by_cases same : other = level
    · subst same
      have count := structured.promoted other
      rw [taken.countP_eq, List.countP_cons] at count
      by_cases promoted : node.message.isPromoted = true <;>
        simp [MultiLevelQueue.removeLocked, promoted] at count ⊢ <;> omega
    · have count := structured.promoted other
      by_cases promoted : node.message.isPromoted = true <;>
        simp [MultiLevelQueue.removeLocked, promoted, same, count]

theorem promote_core (q : MultiLevelQueue) (level : Nat) (node : Node) (now : Time) :
    (q.promote level node now).core = (q.splice level node now).core := by
  unfold promote
  rw [core_noteAgingDeadline]
  split <;> rfl

theorem splice_nodes {q : MultiLevelQueue} (structured : q.Structured) {level : Nat} {node : Node}
    (positive : 1 ≤ level) (member : node ∈ q.queues level) (now : Time) :
    ∃ rest, q.nodes.Perm (node :: rest) ∧
      (q.splice level node now).nodes.Perm (promotedNode node level now :: rest) := by
  have inside := structured.level_lt member
  have different : level - 1 ≠ level := by omega
  have taken := perm_cons_eraseP_key Node.handle (structured.level_distinct inside) member
  refine ⟨concat q.numLevels (Function.update q.queues level
    ((q.queues level).eraseP fun other => other.handle = node.handle)), ?_, ?_⟩
  · refine (concat_perm inside q.queues).trans ((taken.append_right _).trans ?_)
    exact ((concat_update_perm inside q.queues _).symm).cons node
  · refine (concat_update_perm (show level - 1 < q.numLevels by omega) _ _).trans ?_
    refine ((List.perm_append_singleton _ _).append_right _).trans (List.Perm.cons _ ?_)
    have above := (concat_perm (show level - 1 < q.numLevels by omega)
      (Function.update q.queues level
        ((q.queues level).eraseP fun other => other.handle = node.handle))).symm
    rwa [Function.update_of_ne different] at above

theorem Structured.splice {q : MultiLevelQueue} (structured : q.Structured) {level : Nat} {node : Node}
    (positive : 1 ≤ level) (member : node ∈ q.queues level) (now : Time) :
    (q.splice level node now).Structured := by
  have inside := structured.level_lt member
  have different : level - 1 ≠ level := by omega
  have above : (level : Nat) ≠ level - 1 := by omega
  obtain ⟨rest, before, after⟩ := splice_nodes structured positive member now
  have taken := perm_cons_eraseP_key Node.handle (structured.level_distinct inside) member
  have own : node.message.priority = level := structured.priority level node member
  have native := structured.native level node member
  have here : ∀ other, ∀ x ∈ (q.splice level node now).queues other,
      x ∈ q.queues other ∨ (x = promotedNode node level now ∧ other = level - 1) := by
    intro other x present
    simp only [MultiLevelQueue.splice] at present
    by_cases same : other = level - 1
    · subst same
      rw [Function.update_self] at present
      simpa using present
    · rw [Function.update_of_ne same] at present
      by_cases source : other = level
      · subst source
        rw [Function.update_self] at present
        exact Or.inl (List.mem_of_mem_eraseP present)
      · rw [Function.update_of_ne source] at present
        exact Or.inl present
  constructor
  · intro other beyond
    have notSource : other ≠ level := by rintro rfl; exact absurd inside (not_lt.mpr beyond)
    have notAbove : other ≠ level - 1 := by
      rintro rfl
      change q.numLevels ≤ level - 1 at beyond
      omega
    simp only [MultiLevelQueue.splice, Function.update_of_ne notAbove, Function.update_of_ne notSource]
    exact structured.outside other beyond
  · intro other x present
    rcases here other x present with old | ⟨rfl, rfl⟩
    · exact structured.priority other x old
    · rfl
  · intro other x present
    rcases here other x present with old | ⟨rfl, rfl⟩
    · exact structured.native other x old
    · change level - 1 ≤ node.message.originalPriority
      omega
  · have first := before.length_eq
    rw [after.length_eq]
    simp only [List.length_cons] at first ⊢
    rw [← first]
    exact structured.total
  · intro x present
    rcases List.mem_cons.mp (after.mem_iff.mp present) with rfl | old
    · exact structured.allocated node (structured.mem_nodes member)
    · exact structured.allocated x (before.mem_iff.mpr (List.mem_cons_of_mem _ old))
  · exact ((structured.index.perm before).replace level now).perm after.symm
  · intro other
    have lifted : (promotedNode node level now).message.isPromoted = true := by
      apply decide_eq_true
      change level - 1 < node.message.originalPriority
      omega
    have count := structured.promoted other
    by_cases same : other = level - 1
    · subst same
      by_cases promoted : node.message.isPromoted = true <;>
        simp [MultiLevelQueue.splice, promoted, different, count, lifted]
    · by_cases source : other = level
      · subst source
        rw [taken.countP_eq, List.countP_cons] at count
        by_cases promoted : node.message.isPromoted = true <;>
          simp [MultiLevelQueue.splice, promoted, above] at count ⊢ <;> omega
      · by_cases promoted : node.message.isPromoted = true <;>
          simp [MultiLevelQueue.splice, promoted, same, source, count]

theorem Structured.promote {q : MultiLevelQueue} (structured : q.Structured) {level : Nat} {node : Node}
    (positive : 1 ≤ level) (member : node ∈ q.queues level) (now : Time) :
    (q.promote level node now).Structured :=
  (structured.splice positive member now).of_core (promote_core q level node now)

end Harbinger.MultiLevelQueue
