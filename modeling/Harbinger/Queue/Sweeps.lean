import Harbinger.Queue.Rollback

/-! The two TTL sweeps: batches along the expiry index, and the scan of every level. Both take
out the expired nodes one at a time and leave the live ones where they are, so it is enough
that neither stops before the last expired one. -/

namespace Harbinger.MultiLevelQueue
open Container Transition

/-- Not expired at the clock reading. -/
def live (now : Time) (node : Node) : Bool := ¬node.message.isExpired now

/-- What a sweep has left of a queue: the live nodes of every level in their order, and no other node
that was not there before. -/
structure SweptOf (now : Time) (q q' : MultiLevelQueue) : Prop where
  count : q'.numLevels = q.numLevels
  kept : ∀ level, (q'.queues level).filter (live now) = (q.queues level).filter (live now)

theorem SweptOf.refl (now : Time) (q : MultiLevelQueue) : SweptOf now q q := ⟨rfl, fun _ => rfl⟩

theorem SweptOf.trans {now : Time} {first second third : MultiLevelQueue} (left : SweptOf now first second)
    (right : SweptOf now second third) : SweptOf now first third :=
  ⟨right.count.trans left.count, fun level => (right.kept level).trans (left.kept level)⟩

theorem SweptOf.removeLocked {now : Time} {q : MultiLevelQueue} (structured : q.Structured) {level : Nat} {node : Node}
    (member : node ∈ q.queues level) (expired : node.message.isExpired now) :
    SweptOf now q (q.removeLocked level node) := by
  refine ⟨rfl, fun other => ?_⟩
  by_cases same : other = level
  · subst same
    have distinct := structured.level_distinct (structured.level_lt member)
    simp only [MultiLevelQueue.removeLocked, Function.update_self]
    obtain ⟨before, behind, split⟩ := List.append_of_mem member
    have absent : ∀ earlier ∈ before, ¬(decide (earlier.handle = node.handle) = true) := by
      intro earlier present equal
      rw [split, List.map_append, List.map_cons] at distinct
      exact List.disjoint_of_nodup_append distinct (List.mem_map_of_mem present)
        (by simp [of_decide_eq_true equal])
    have dead : live now node = false := by simpa [live] using expired
    rw [split, List.eraseP_append_right _ absent, List.eraseP_cons_of_pos (by simp), List.filter_append,
      List.filter_append, List.filter_cons_of_neg (by simp [dead])]
  · simp only [MultiLevelQueue.removeLocked, Function.update_of_ne same]

theorem SweptOf.queues {now : Time} {q q' : MultiLevelQueue} (swept : SweptOf now q q')
    (clean : ∀ level, ∀ node ∈ q'.queues level, ¬node.message.isExpired now) (level : Nat) :
    q'.queues level = (q.queues level).filter (live now) := by
  rw [← swept.kept level]
  exact (List.filter_eq_self.mpr fun node member => by simpa [live] using clean level node member).symm

section Batch
variable {now later : Time} {q : MultiLevelQueue}

theorem nodeAt_isSome (structured : q.Structured) {slot : Slot (Time × Nat)} (present : slot ∈ q.expiry.slots) :
    ∃ node, q.nodeAt slot.value.2 = some node := by
  obtain ⟨node, member, address, _⟩ := structured.index.pointed slot present
  exact ⟨node, address ▸ nodeAt_handle structured member⟩

theorem expired_slot (structured : q.Structured) {level : Nat} {node : Node} (member : node ∈ q.queues level)
    (timed : 0 < node.message.ttl) : ∃ slot ∈ q.expiry.slots, slot.value.1 = node.message.expiryTime := by
  have entry := structured.index.indexed node (structured.mem_nodes member)
  rw [Indexed, if_pos timed] at entry
  obtain ⟨slot, present, _, value⟩ := entry
  exact ⟨slot, present, congrArg Prod.fst value⟩

theorem sweepExpiredBatch_swept (limit : Nat) (valid : q.Valid later) :
    SweptOf now q (sweepExpiredBatch now limit q).2 := by
  induction limit generalizing q with
  | zero => exact .refl now q
  | succ limit ih =>
    unfold sweepExpiredBatch
    split
    · exact .refl now q
    next slot front =>
      split
      next due =>
        split
        · exact .refl now q
        next node found =>
          obtain ⟨member, timed, expiry⟩ := nodeAt_front valid.structured front found
          exact (SweptOf.removeLocked valid.structured member ⟨timed, expiry ▸ due⟩).trans (ih (valid.removeLocked member))
      · exact .refl now q

/-- A batch that is not full has found everything. -/
theorem sweepExpiredBatch_clean (limit : Nat) (valid : q.Valid later)
    (short : (sweepExpiredBatch now limit q).1.length < limit) :
    ∀ level, ∀ node ∈ (sweepExpiredBatch now limit q).2.queues level, ¬node.message.isExpired now := by
  induction limit generalizing q with
  | zero => exact absurd short (Nat.not_lt_zero _)
  | succ limit ih =>
    unfold sweepExpiredBatch at short ⊢
    split
    next none =>
      intro level node member expired
      obtain ⟨slot, present, _⟩ := expired_slot valid.structured member expired.1
      exact absurd (List.head?_eq_none_iff.mp none ▸ present) List.not_mem_nil
    next slot front =>
      simp only [front] at short
      split
      next due =>
        rw [if_pos due] at short
        obtain ⟨node, found⟩ := nodeAt_isSome valid.structured (List.mem_of_mem_head? front)
        simp only [found, List.length_cons] at short ⊢
        obtain ⟨member, _, _⟩ := nodeAt_front valid.structured front found
        exact ih (valid.removeLocked member) (Nat.lt_of_succ_lt_succ short)
      next ahead =>
        intro level node member expired
        obtain ⟨slot', present, time⟩ := expired_slot valid.structured member expired.1
        have first := q.expiry.front_le front present
        rw [time] at first
        exact ahead (first.trans expired.2)

theorem front_le_swept (limit : Nat) (valid : q.Valid later) {slot : Slot (Time × Nat)}
    (front : q.expiry.front? = some slot) : ∀ msg ∈ (sweepExpiredBatch now limit q).1, slot.value.1 ≤ msg.expiryTime := by
  intro msg member
  obtain ⟨-, -, expired, split⟩ := sweepExpiredBatch_spec now limit valid
  have queued : msg ∈ q.messages := split.mem_iff.mpr (List.mem_append_left _ member)
  obtain ⟨node, present, rfl⟩ := List.mem_map.mp queued
  obtain ⟨level, _, here⟩ := mem_concat.mp present
  obtain ⟨other, indexed, time⟩ := expired_slot valid.structured here (expired _ member).1
  exact time ▸ q.expiry.front_le front indexed

theorem sweepExpiredBatch_sorted (limit : Nat) (valid : q.Valid later) :
    (sweepExpiredBatch now limit q).1.Pairwise fun first second => first.expiryTime ≤ second.expiryTime := by
  induction limit generalizing q with
  | zero => exact List.Pairwise.nil
  | succ limit ih =>
    cases front : q.expiry.front? with
    | none => simp only [sweepExpiredBatch, front]; exact List.Pairwise.nil
    | some slot =>
      simp only [sweepExpiredBatch, front]
      split
      next due =>
        split
        · exact List.Pairwise.nil
        next node found =>
          obtain ⟨member, timed, expiry⟩ := nodeAt_front valid.structured front found
          refine List.pairwise_cons.mpr ⟨fun msg swept => ?_, ih (valid.removeLocked member)⟩
          have all : msg ∈ (sweepExpiredBatch now (limit + 1) q).1 → slot.value.1 ≤ msg.expiryTime :=
            front_le_swept (limit + 1) valid front msg
          simp only [sweepExpiredBatch, front, if_pos due, found] at all
          exact expiry ▸ all (List.mem_cons_of_mem _ swept)
      · exact List.Pairwise.nil

theorem length_sweepExpiredBatch_le (now : Time) (limit : Nat) (q : MultiLevelQueue) :
    (sweepExpiredBatch now limit q).1.length ≤ limit := by
  induction limit generalizing q with
  | zero => exact Nat.le_refl 0
  | succ limit ih =>
    unfold sweepExpiredBatch
    split
    · exact Nat.zero_le _
    · split
      · split
        · exact Nat.zero_le _
        · exact Nat.succ_le_succ (ih _)
      · exact Nat.zero_le _

/-- Two batches one after the other are one. -/
theorem sweepExpiredBatch_add (first second : Nat) (q : MultiLevelQueue) :
    sweepExpiredBatch now (first + second) q =
      ((sweepExpiredBatch now first q).1 ++ (sweepExpiredBatch now second (sweepExpiredBatch now first q).2).1,
        (sweepExpiredBatch now second (sweepExpiredBatch now first q).2).2) := by
  induction first generalizing q with
  | zero => rw [Nat.zero_add]; rfl
  | succ first ih =>
    have idle : ∀ limit, (∀ slot, q.expiry.front? = some slot → slot.value.1 ≤ now → q.nodeAt slot.value.2 = none) →
        sweepExpiredBatch now limit q = ([], q) := by
      intro limit stuck
      cases limit with
      | zero => rfl
      | succ limit =>
        unfold sweepExpiredBatch
        split
        · rfl
        next slot front =>
          split
          next due => rw [stuck slot front due]
          · rfl
    by_cases stuck : ∀ slot, q.expiry.front? = some slot → slot.value.1 ≤ now → q.nodeAt slot.value.2 = none
    · rw [idle _ stuck, idle _ stuck, idle _ stuck]
      rfl
    · simp only [not_forall] at stuck
      obtain ⟨slot, front, due, found⟩ := stuck
      obtain ⟨node, found⟩ := Option.ne_none_iff_exists'.mp found
      rw [Nat.succ_add]
      simp only [sweepExpiredBatch, front, if_pos due, found, ih, List.cons_append]

end Batch

/-- `sweep_expired_batch(limit)` over and over until a batch is not full; `none` if `calls` are too few. -/
def drain (now : Time) (limit : Nat) : Nat → MultiLevelQueue → Option (List Message × MultiLevelQueue)
  | 0, _ => none
  | calls + 1, q =>
    let batch := sweepExpiredBatch now limit q
    if batch.1.length < limit then some batch
    else (drain now limit calls batch.2).map fun rest => (batch.1 ++ rest.1, rest.2)

section Drain
variable {later : Time} {limit : Nat}

theorem drain_eq (now : Time) (positive : 1 ≤ limit) {calls : Nat} {q : MultiLevelQueue} (valid : q.Valid later)
    (enough : q.messages.length < calls) : ∃ total, (sweepExpiredBatch now total q).1.length < total ∧
      drain now limit calls q = some (sweepExpiredBatch now total q) := by
  induction calls generalizing q with
  | zero => exact absurd enough (Nat.not_lt_zero _)
  | succ calls ih =>
    simp only [drain]
    split
    next short => exact ⟨limit, short, rfl⟩
    next full =>
      obtain ⟨kept, -, -, split⟩ := sweepExpiredBatch_spec now limit valid
      have sizes := split.length_eq
      rw [List.length_append] at sizes
      obtain ⟨total, short, drained⟩ := ih kept (by omega)
      refine ⟨limit + total, ?_, ?_⟩
      · have most := length_sweepExpiredBatch_le now limit q
        rw [sweepExpiredBatch_add, List.length_append]
        omega
      · rw [drained, sweepExpiredBatch_add]
        rfl

end Drain

section Scan
variable {later : Time}

/-- The scan at a fixed clock value takes out expired nodes only, and every one that it is to visit. -/
theorem sweepScan_swept (now : Time) (todo : List (Nat × Node)) (visited : Nat) {q : MultiLevelQueue} (valid : q.Valid later)
    (placed : ∀ item ∈ todo, item.2 ∈ q.queues item.1) (distinct : (todo.map fun item => item.2.handle).Nodup) :
    SweptOf now q (sweepScan (fun _ => now) todo visited q).2 ∧
      ∀ level, ∀ node ∈ (sweepScan (fun _ => now) todo visited q).2.queues level, node ∈ q.queues level ∧
        ((level, node) ∈ todo → ¬node.message.isExpired now) := by
  induction todo generalizing q visited with
  | nil => exact ⟨.refl now q, fun level node member => ⟨member, fun impossible => absurd impossible List.not_mem_nil⟩⟩
  | cons item rest ih =>
    obtain ⟨level, node⟩ := item
    obtain ⟨fresh, apart⟩ := List.nodup_cons.mp distinct
    have member := placed (level, node) (List.mem_cons_self ..)
    unfold sweepScan
    split
    next expired =>
      have remain : ∀ other ∈ rest, other.2 ∈ (q.removeLocked level node).queues other.1 := by
        intro other present
        apply mem_removeLocked (placed other (List.mem_cons_of_mem _ present))
        intro same
        exact fresh (List.mem_map.mpr ⟨other, present, same⟩)
      obtain ⟨swept, left⟩ := ih (visited + 1) (valid.removeLocked member) remain apart
      refine ⟨(SweptOf.removeLocked valid.structured member expired).trans swept, fun other found present => ?_⟩
      obtain ⟨inside, clean⟩ := left other found present
      refine ⟨removeLocked_subset q level node other inside, fun listed => ?_⟩
      rcases List.mem_cons.mp listed with first | later
      · obtain ⟨rfl, rfl⟩ := Prod.mk.inj first
        -- the node itself is gone
        have gone := (valid.structured.removeLocked member).mem_nodes inside
        have split := (removeLocked_nodes valid.structured member).map Node.handle
        have unique := split.nodup_iff.mp valid.structured.index.distinct
        exact absurd (List.mem_map_of_mem gone) (List.nodup_cons.mp unique).1
      · exact clean later
    next alive =>
      obtain ⟨swept, left⟩ := ih (visited + 1) valid (fun other present => placed other (List.mem_cons_of_mem _ present)) apart
      refine ⟨swept, fun other found present => ?_⟩
      obtain ⟨inside, clean⟩ := left other found present
      refine ⟨inside, fun listed => ?_⟩
      rcases List.mem_cons.mp listed with first | later
      · obtain ⟨rfl, rfl⟩ := Prod.mk.inj first
        exact alive
      · exact clean later

theorem sweepExpired_swept (now : Time) {q : MultiLevelQueue} (valid : q.Valid later) :
    SweptOf now q (q.sweepExpired now fun _ => now).2 ∧
      ∀ level, ∀ node ∈ (q.sweepExpired now fun _ => now).2.queues level, ¬node.message.isExpired now := by
  unfold sweepExpired
  split
  next none =>
    refine ⟨.refl now q, fun level node member expired => ?_⟩
    obtain ⟨slot, present, _⟩ := expired_slot valid.structured member expired.1
    exact absurd (List.head?_eq_none_iff.mp none ▸ present) List.not_mem_nil
  next slot front =>
    split
    next ahead =>
      refine ⟨.refl now q, fun level node member expired => ?_⟩
      obtain ⟨other, present, time⟩ := expired_slot valid.structured member expired.1
      have first := q.expiry.front_le front present
      rw [time] at first
      exact absurd (first.trans expired.2) (not_le.mpr ahead)
    · obtain ⟨swept, left⟩ := sweepScan_swept now _ 0 valid (mem_scan q)
        (scan_handles q ▸ valid.structured.index.distinct)
      refine ⟨swept, fun level node member => ?_⟩
      obtain ⟨inside, clean⟩ := left level node member
      exact clean (List.mem_flatMap.mpr ⟨level, List.mem_range.mpr (valid.structured.level_lt inside),
        List.mem_map.mpr ⟨node, inside, rfl⟩⟩)

end Scan

theorem SweptOf.perm {now : Time} {q q' : MultiLevelQueue} (swept : SweptOf now q q')
    (clean : ∀ level, ∀ node ∈ q'.queues level, ¬node.message.isExpired now) {removed : List Message}
    (split : q.messages.Perm (removed ++ q'.messages)) :
    removed.Perm (q.messages.filter fun msg => msg.isExpired now) := by
  have rest : q'.messages = q.messages.filter fun msg => !decide (msg.isExpired now) := by
    have lists : q'.queues = fun level => (q.queues level).filter (live now) := funext (swept.queues clean)
    rw [messages, messages, nodes, nodes, concat, concat, swept.count, lists, List.filter_map, List.filter_flatMap]
    congr 1
    refine List.flatMap_congr fun level _ => List.filter_congr fun node _ => ?_
    simp [live]
  have both := (List.filter_append_perm (fun msg : Message => decide (msg.isExpired now)) q.messages).trans split
  rw [rest] at both
  exact ((List.perm_append_right_iff _).mp both).symm

/-- Batches of any size until one is not full, and the full scan, at the same clock value: both take out just the
expired messages, the batches in the order of their deadlines, and leave the same queue. -/
theorem sweeps_agree {numLevels : Nat} {aging : Option AgingConfig} {selection : QueueSelection}
    {weights : Option (List Nat)} {q : MultiLevelQueue} {start : Time} {operations : List Operation} {s : Clocked}
    (made : create numLevels aging selection weights = .ok q) (ran : run Clocked.step operations ⟨q, start⟩ = some s)
    (now : Time) (limit : Nat) (positive : 1 ≤ limit) (calls : Nat) (enough : s.queue.totalSize < calls) :
    ∃ removed drained, drain now limit calls s.queue = some (removed, drained) ∧
      removed.Perm (s.queue.messages.filter fun msg => msg.isExpired now) ∧
      (s.queue.sweepExpired now fun _ => now).1.Perm (s.queue.messages.filter fun msg => msg.isExpired now) ∧
      (removed.Pairwise fun first second => first.expiryTime ≤ second.expiryTime) ∧
      (∀ level, drained.levels level = (s.queue.levels level).filter fun msg => ¬msg.isExpired now) ∧
      drained.levels = (s.queue.sweepExpired now fun _ => now).2.levels ∧
      drained.totalSize = (s.queue.sweepExpired now fun _ => now).2.totalSize ∧
      drained.promotedIn = (s.queue.sweepExpired now fun _ => now).2.promotedIn ∧
      drained.expiryEntries = (s.queue.sweepExpired now fun _ => now).2.expiryEntries := by
  obtain ⟨valid, -⟩ := run_valid made ran
  have size : s.queue.messages.length < calls := by
    rw [messages, List.length_map, ← valid.structured.total]
    exact enough
  obtain ⟨total, short, drained⟩ := drain_eq now positive valid size
  obtain ⟨kept, -, -, split⟩ := sweepExpiredBatch_spec now total valid
  obtain ⟨kept', -, split'⟩ := sweepExpired_spec now (fun _ => now) valid
  have swept : SweptOf now s.queue (sweepExpiredBatch now total s.queue).2 := sweepExpiredBatch_swept total valid
  have clean := sweepExpiredBatch_clean total valid short
  obtain ⟨swept', clean'⟩ := sweepExpired_swept now valid
  have agree : Agree (s.queue.sweepExpired now fun _ => now).2 (sweepExpiredBatch now total s.queue).2 := by
    refine ⟨swept.count.trans swept'.count.symm, funext fun level => ?_⟩
    rw [levels, levels, swept.queues clean, swept'.queues clean']
  refine ⟨_, _, drained, swept.perm clean split, swept'.perm clean' split', sweepExpiredBatch_sorted total valid,
    fun level => ?_, agree.levels, agree.totalSize kept'.structured kept.structured,
    agree.promotedIn kept'.structured kept.structured, agree.expiryEntries kept'.structured kept.structured⟩
  rw [levels, swept.queues clean, levels, List.filter_map]
  rfl

/-- Four messages in two levels, of which three are expired after 4 ms. -/
def expiring : List Operation :=
  [.enqueue (fun _ => none) { id := [1], ttl := 3 } 0, .enqueue (fun _ => none) { id := [2] } 0,
    .enqueue (fun _ => none) { id := [3], ttl := 1 } 0,
    .enqueue (fun _ => none) { id := [4], ttl := 2, priority := 0 } 0, .advance 4000000]

theorem sweeps_agree_two_levels : ∃ q s, create 2 none .strictPriority none = .ok q ∧
    run Clocked.step expiring ⟨q, 0⟩ = some s ∧ (drain 4000000 2 5 s.queue).map (fun swept => swept.1.map Message.id) =
      some [[3], [4], [1]] ∧
    ∃ removed drained, drain 4000000 2 5 s.queue = some (removed, drained) ∧
      drained.levels = (s.queue.sweepExpired 4000000 fun _ => 4000000).2.levels := by
  have made : create 2 none .strictPriority none = .ok _ := rfl
  have ran : run Clocked.step expiring
    ⟨{ numLevels := 2, selection := .strictPriority, aging := none, weights := none }, 0⟩ = some _ := rfl
  obtain ⟨removed, drained, found, -, -, -, -, same, -⟩ :=
    sweeps_agree made ran 4000000 2 (by decide) 5 (by decide +kernel)
  exact ⟨_, _, made, ran, by decide +kernel, removed, drained, found, same⟩

end Harbinger.MultiLevelQueue
