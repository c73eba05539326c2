import Harbinger.Queue.FullScan
import Harbinger.Queue.Share

/-! A pull that is undone. What the queue holds determines its counts and its expiry entries, so
it is enough to follow the level lists; the refund meets the charge because the served level
held the smallest clock and no clock of a busy level is below the floor. -/

namespace Harbinger.MultiLevelQueue
open Container Transition Schedule

/-- The entries of the expiry index, with the message that each one points at. -/
def expiryEntries (q : MultiLevelQueue) : Multiset (Time × Option Message) :=
  ↑(q.expiry.slots.map fun slot => (slot.value.1, (q.nodeAt slot.value.2).map Node.message))

theorem nodeAt_handle {q : MultiLevelQueue} (structured : q.Structured) {node : Node} (member : node ∈ q.nodes) :
    q.nodeAt node.handle = some node := by
  cases found : q.nodeAt node.handle with
  | none => exact absurd (List.find?_eq_none.mp found node member) (by simp)
  | some other =>
    have same : other.handle = node.handle := by simpa using List.find?_some found
    rw [structured.index.node_unique (List.mem_of_find?_eq_some found) member same]

theorem expiryEntries_eq {q : MultiLevelQueue} (structured : q.Structured) : q.expiryEntries =
    ↑((q.messages.filter fun msg => 0 < msg.ttl).map fun msg => (msg.expiryTime, some msg)) := by
  have entries := (expiry_perm structured).map fun entry : Time × Nat => (entry.1, (q.nodeAt entry.2).map Node.message)
  rw [List.map_map, List.map_map] at entries
  rw [expiryEntries, Multiset.coe_eq_coe]
  refine entries.trans (List.Perm.of_eq ?_)
  rw [messages, List.filter_map, List.map_map]
  refine List.map_congr_left fun node member => ?_
  simp only [Function.comp_apply, nodeAt_handle structured (List.mem_filter.mp member).1, Option.map_some]

/-- Two representations of the same level lists. -/
structure Agree (q q' : MultiLevelQueue) : Prop where
  count : q'.numLevels = q.numLevels
  levels : q'.levels = q.levels

namespace Agree
variable {q q' : MultiLevelQueue}

theorem messages (agree : Agree q q') : q'.messages = q.messages := by
  have flat : ∀ p : MultiLevelQueue, p.messages = (List.range p.numLevels).flatMap p.levels := fun p => by
    rw [MultiLevelQueue.messages, nodes, concat, List.map_flatMap]
    rfl
  rw [flat, flat, agree.count, agree.levels]

theorem totalSize (agree : Agree q q') (valid : q.Structured) (valid' : q'.Structured) : q'.totalSize = q.totalSize := by
  have sizes := congrArg List.length agree.messages
  rw [MultiLevelQueue.messages, MultiLevelQueue.messages, List.length_map, List.length_map] at sizes
  rw [valid.total, valid'.total, sizes]

theorem promotedIn (agree : Agree q q') (valid : q.Structured) (valid' : q'.Structured) : q'.promotedIn = q.promotedIn := by
  funext level
  have counts : ∀ p : MultiLevelQueue, ((p.queues level).countP fun node => node.message.isPromoted) =
      (p.levels level).countP Message.isPromoted := fun p => by
    rw [MultiLevelQueue.levels, List.countP_map]
    rfl
  rw [valid.promoted, valid'.promoted, counts, counts, agree.levels]

theorem expiryEntries (agree : Agree q q') (valid : q.Structured) (valid' : q'.Structured) :
    q'.expiryEntries = q.expiryEntries := by
  rw [expiryEntries_eq valid, expiryEntries_eq valid', agree.messages]

theorem isEmpty (agree : Agree q q') (level : Nat) : (q'.queues level).isEmpty = (q.queues level).isEmpty := by
  have lists := congrFun agree.levels level
  rw [← List.isEmpty_map (f := Node.message), ← List.isEmpty_map (f := Node.message)]
  exact congrArg List.isEmpty lists

end Agree

theorem dequeueLocked_unweighted {q q' : MultiLevelQueue} {cost : CostFunction} {msg : Message}
    (unweighted : q.weights = none) (taken : q.dequeueLocked cost = some (msg, q')) :
    ∃ level node rest cursor, q.scanLevel = some level ∧ q.queues level = node :: rest ∧ node.message = msg ∧
      q' = { q.removeLocked level node with cursor } := by
  simp only [dequeueLocked, unweighted, Option.isSome_none, Bool.false_eq_true, ↓reduceIte] at taken
  split at taken
  · cases taken
  next level found =>
    split at taken
    · cases taken
    next node rest front =>
      obtain ⟨rfl, rfl⟩ := Prod.mk.inj (Option.some.inj taken)
      split
      · exact ⟨level, node, rest, _, found, front, rfl, rfl⟩
      · exact ⟨level, node, rest, q.cursor, found, front, rfl, rfl⟩

theorem Agree.of_restore {q q' q'' : MultiLevelQueue} {cost : CostFunction} {level : Nat} {node : Node} {rest : List Node}
    (structured : q.Structured) (front : q.queues level = node :: rest)
    (removed : q'.core = (q.removeLocked level node).core) (placed : q'.requeueFront cost node.message = some q'') :
    Agree q q'' := by
  have here : node.message.priority = level :=
    structured.priority level node (front ▸ List.mem_cons_self ..)
  have linked := placeMessage_core placed
  simp only [core, Prod.mk.injEq, stamped, ↓reduceIte] at removed linked
  have queues' : q'.queues = Function.update q.queues level rest := by
    rw [removed.2.1]
    simp only [removeLocked, front, List.eraseP_cons, decide_true, cond_true]
  refine ⟨linked.1.trans removed.1, ?_⟩
  funext other
  rw [MultiLevelQueue.levels, linked.2.1, MultiLevelQueue.levels]
  by_cases same : other = level
  · subst same
    simp only [linkNode, here, Function.update_self, ↓reduceIte, queues', front, List.map_cons]
    rfl
  · simp only [linkNode, here, Function.update_of_ne same, queues']

theorem ChargesUpTo.mono {limit larger : ℚ} (order : limit ≤ larger) (s : Clocked) (operation : Operation)
    (charges : s.ChargesUpTo limit operation) : s.ChargesUpTo larger operation := by
  cases operation with
  | dequeue cost => exact fun msg q' taken => (charges msg q' taken).trans order
  | requeueFront cost msg => exact charges
  | _ => trivial

/-- Some bound holds for the charges of a run that never restores. -/
theorem exists_limit {operations : List Operation}
    (plain : ∀ operation ∈ operations, ∀ cost msg, operation ≠ .requeueFront cost msg) (s : Clocked) :
    ∃ limit, 1 ≤ limit ∧ Along Clocked.step (Clocked.ChargesUpTo limit) operations s := by
  induction operations generalizing s with
  | nil => exact ⟨1, le_rfl, trivial⟩
  | cons operation rest ih =>
    have head : ∃ limit, s.ChargesUpTo limit operation := by
      cases operation with
      | dequeue cost =>
        cases taken : s.queue.dequeueLocked cost with
        | none => exact ⟨1, fun msg q' known => by rw [taken] at known; cases known⟩
        | some pair =>
          refine ⟨chargeLocked cost pair.1, fun msg q' known => ?_⟩
          rw [taken] at known
          rw [Option.some.inj known]
      | requeueFront cost msg => exact absurd rfl (plain _ (List.mem_cons_self ..) cost msg)
      | _ => exact ⟨1, trivial⟩
    obtain ⟨first, charges⟩ := head
    have later : ∀ other ∈ rest, ∀ cost msg, other ≠ .requeueFront cost msg :=
      fun other member => plain other (List.mem_cons_of_mem _ member)
    cases moved : s.step operation with
    | none =>
      refine ⟨max first 1, le_max_right _ _, ChargesUpTo.mono (le_max_left _ _) s operation charges, fun next known => ?_⟩
      rw [moved] at known
      cases known
    | some next =>
      obtain ⟨second, least, along⟩ := ih later next
      refine ⟨max first second, least.trans (le_max_right _ _), ChargesUpTo.mono (le_max_left _ _) s operation charges,
        fun other known => ?_⟩
      obtain rfl := Option.some.inj (moved.symm.trans known)
      exact along.imp (ChargesUpTo.mono (le_max_right _ _))

theorem bill_nonneg (level : Nat) (operations : List Operation) (s : Clocked) : 0 ≤ Clocked.bill level operations s := by
  induction operations generalizing s with
  | nil => exact le_rfl
  | cons operation rest ih =>
    have head : 0 ≤ s.billed level operation := by
      cases operation with
      | dequeue cost =>
        simp only [Clocked.billed]
        split
        · exact le_rfl
        next msg _ _ =>
          split
          · exact zero_le_one.trans (one_le_chargeLocked cost msg)
          · exact le_rfl
      | _ => exact le_rfl
    rw [Clocked.bill]
    refine add_nonneg head ?_
    cases s.step operation with
    | none => exact le_rfl
    | some next => exact ih next

/-- The accounts that a restore has to put back. -/
structure Settled (q q' : MultiLevelQueue) : Prop where
  vclock : q'.vclock = q.vclock
  pulls : q'.pulls = q.pulls
  charged : q'.charged = q.charged

/-- A refund right after the charge gives back the accounts, whether or not the pull emptied the
level: an emptied level rejoins above its old clock. -/
theorem Settled.of_refund {q q' : MultiLevelQueue} {cost : CostFunction} {level : Nat} {node : Node}
    (here : node.message.priority = level) (weighted : q.weights.isSome = true)
    (positive : 0 < q.weight level) (above : q.vfloor ≤ q.vclock level) (charged : 0 ≤ q.charged level)
    (placed : ((q.chargePull level (chargeLocked cost node.message)).removeLocked level node).requeueFront cost
      node.message = some q') : Settled q q' := by
  subst here
  set level := node.message.priority with levelEq
  set charge := chargeLocked cost node.message with chargeEq
  set taken := (q.chargePull level charge).removeLocked level node with takenEq
  have step : 0 ≤ charge / q.weight level := div_nonneg (zero_le_one.trans (one_le_chargeLocked ..)) positive.le
  -- An emptied level does not gain by rejoining: its clock after the charge is above the new floor.
  have rejoin : max (q.vclock level + charge / q.weight level) (max q.vfloor (q.vclock level)) =
      q.vclock level + charge / q.weight level := by
    rw [max_eq_right above, max_eq_left (le_add_of_nonneg_right step)]
  have ahead : taken.vclock level = q.vclock level + charge / q.weight level := Function.update_self ..
  have joined : Function.update taken.vclock level (max (taken.vclock level) taken.vfloor) = taken.vclock := by
    rw [show taken.vfloor = max q.vfloor (q.vclock level) from rfl, ahead, rejoin, ← ahead, Function.update_eq_self]
  have back : Function.update taken.vclock level (taken.vclock level - charge / q.weight level) = q.vclock := by
    rw [ahead, add_sub_cancel_right]
    exact (Function.update_idem ..).trans (Function.update_eq_self ..)
  have pulls : Function.update taken.pulls level (taken.pulls level - 1) = q.pulls := by
    rw [show taken.pulls level = q.pulls level + 1 from Function.update_self .., Nat.add_sub_cancel]
    exact (Function.update_idem ..).trans (Function.update_eq_self ..)
  have refunded : Function.update taken.charged level (max 0 (taken.charged level - charge)) = q.charged := by
    rw [show taken.charged level = q.charged level + charge from Function.update_self .., add_sub_cancel_right,
      max_eq_right charged]
    exact (Function.update_idem ..).trans (Function.update_eq_self ..)
  obtain ⟨nextAging, noted⟩ := (taken.linkNode node.message true).noteAgingDeadline_eq level node.message.enqueueTime
  have shared : ¬(({ taken.linkNode node.message true with nextAging } : MultiLevelQueue).weights.isNone = true) := by
    rw [Option.isNone_iff_eq_none]
    exact Option.isSome_iff_ne_none.mp weighted
  simp only [requeueFront, placeMessage, placeShare, ↓reduceIte, ← levelEq, noted, if_neg shared] at placed
  split at placed
  · cases placed
  · obtain rfl := Option.some.inj placed
    by_cases empty : (taken.queues level).isEmpty
    · simp only [if_pos empty]
      refine ⟨?_, pulls, refunded⟩
      change Function.update (Function.update taken.vclock level (max (taken.vclock level) taken.vfloor)) level
        (Function.update taken.vclock level (max (taken.vclock level) taken.vfloor) level - charge / q.weight level) = q.vclock
      rw [joined, back]
    · simp only [if_neg empty]
      exact ⟨back, pulls, refunded⟩

/-- In a run without restores a busy level is not below the floor, and no refund is cut off. -/
theorem run_above {numLevels : Nat} {aging : Option AgingConfig} {selection : QueueSelection}
    {weights : Option (List Nat)} {q : MultiLevelQueue} {start : Time} {operations : List Operation} {s : Clocked}
    (made : create numLevels aging selection weights = .ok q)
    (plain : ∀ operation ∈ operations, ∀ cost msg, operation ≠ .requeueFront cost msg)
    (ran : run Clocked.step operations ⟨q, start⟩ = some s) (weighted : s.queue.weights.isSome = true) {level : Nat}
    (busy : s.queue.Busy level) :
    0 < s.queue.weight level ∧ s.queue.vfloor ≤ s.queue.vclock level ∧ 0 ≤ s.queue.charged level := by
  have params := (run_valid made ran).2
  have same : s.queue.weights = q.weights := congrArg (fun params => params.2.2.2) params
  obtain ⟨limit, bound, charges⟩ := exists_limit plain ⟨q, start⟩
  have nonneg : 0 ≤ limit := zero_le_one.trans bound
  obtain ⟨shared, _, totals⟩ := run_accounts (s := ⟨q, start⟩) (create_valid made start) (same ▸ weighted)
    (create_weight made) nonneg (create_shared made nonneg) charges ran
  refine ⟨weight_congr same ▸ create_weight made level, shared.lower level busy, ?_⟩
  rw [(totals level).1]
  obtain ⟨rfl, _, _⟩ := create_ok made
  exact add_nonneg le_rfl (bill_nonneg level operations _)

theorem Settled.of_unweighted {q q' : MultiLevelQueue} {cost : CostFunction} {level cursor : Nat} {node : Node}
    (unweighted : q.weights = none)
    (placed : ({ q.removeLocked level node with cursor } : MultiLevelQueue).requeueFront cost node.message = some q') :
    Settled q q' := by
  set taken : MultiLevelQueue := { q.removeLocked level node with cursor }
  obtain ⟨nextAging, noted⟩ := (taken.linkNode node.message true).noteAgingDeadline_eq node.message.priority
    node.message.enqueueTime
  have unshared : ({ taken.linkNode node.message true with nextAging } : MultiLevelQueue).weights.isNone = true := by
    change q.weights.isNone = true
    rw [unweighted]
    rfl
  simp only [requeueFront, placeMessage, placeShare, ↓reduceIte, noted, if_pos unshared] at placed
  split at placed
  · cases placed
  · obtain rfl := Option.some.inj placed
    exact ⟨rfl, rfl, rfl⟩

theorem dequeue_again {q q' : MultiLevelQueue} (agree : Agree q q') (weights : q'.weights = q.weights)
    (clocks : q'.vclock = q.vclock) (selection : q'.selection = q.selection) (acyclic : q.selection ≠ .roundRobin)
    {cost : CostFunction} {msg : Message} {level : Nat} {rest : List Message}
    (chosen : (if q.weights.isSome then q.bestLevel else q.scanLevel) = some level)
    (front : q.levels level = msg :: rest) : ∃ again, q'.dequeueLocked cost = some (msg, again) := by
  have same : (fun level => (q'.queues level).isEmpty) = fun level => (q.queues level).isEmpty := funext agree.isEmpty
  rw [← agree.levels] at front
  obtain ⟨node, others, head, rfl, _⟩ := List.map_eq_cons_iff.mp front
  unfold dequeueLocked
  rw [weights]
  by_cases weighted : q.weights.isSome = true
  · rw [if_pos weighted] at chosen ⊢
    rw [bestLevel_eq, same, clocks, agree.count, ← bestLevel_eq, chosen]
    simp only [head]
    exact ⟨_, rfl⟩
  · rw [if_neg weighted] at chosen ⊢
    have scanned : q'.scanLevel = some level := by
      rw [← chosen]
      simp only [scanLevel, selection, if_neg acyclic, agree.count, agree.isEmpty]
    rw [scanned]
    simp only [head]
    exact ⟨_, rfl⟩

/-- A pull followed at once by a restore leaves the queue as it was: the level lists, the size, the
promotion counts, the expiry entries and the accounts of the levels; the cached aging deadlines
are again lower bounds; and unless the policy is cyclic the next pull returns the message again. -/
theorem dequeue_rollback {numLevels : Nat} {aging : Option AgingConfig} {selection : QueueSelection}
    {weights : Option (List Nat)} {q q' : MultiLevelQueue} {start : Time} {operations : List Operation} {s : Clocked}
    {cost : CostFunction} {msg : Message} (made : create numLevels aging selection weights = .ok q)
    (plain : ∀ operation ∈ operations, ∀ cost msg, operation ≠ .requeueFront cost msg)
    (ran : run Clocked.step operations ⟨q, start⟩ = some s) (taken : s.queue.dequeueLocked cost = some (msg, q')) :
    ∃ restored, q'.requeueFront cost msg = some restored ∧
      (∀ level, restored.levels level = s.queue.levels level) ∧
      restored.totalSize = s.queue.totalSize ∧ restored.promotedIn = s.queue.promotedIn ∧
      restored.expiryEntries = s.queue.expiryEntries ∧
      (restored.vclock = s.queue.vclock ∧ restored.pulls = s.queue.pulls ∧ restored.charged = s.queue.charged) ∧
      (∀ cfg, aging = some cfg → ∀ level, 1 ≤ level → ∀ node ∈ restored.queues level,
        ¬node.message.isExpired s.now → ∀ due, agingDeadline cfg node.message.enqueueTime = some due →
          ∃ cached, restored.nextAging level = some cached ∧ cached ≤ due) ∧
      (selection ≠ .roundRobin → ∃ again, restored.dequeueLocked cost = some (msg, again)) := by
  obtain ⟨valid, params⟩ := run_valid made ran
  obtain ⟨valid', params', _⟩ := dequeueLocked_spec valid taken
  simp only [MultiLevelQueue.params, Prod.mk.injEq] at params params'
  obtain ⟨rfl, _, _⟩ := create_ok made
  -- The level that the pull served, and what it left.
  obtain ⟨level, node, rest, front, same, chosen, removed, settles⟩ :
      ∃ level node rest, s.queue.queues level = node :: rest ∧ node.message = msg ∧
        (if s.queue.weights.isSome then s.queue.bestLevel else s.queue.scanLevel) = some level ∧
        q'.core = (s.queue.removeLocked level node).core ∧
        ∀ restored, q'.requeueFront cost msg = some restored → Settled s.queue restored := by
    cases known : s.queue.weights with
    | none =>
      obtain ⟨level, node, rest, cursor, scanned, front, same, rfl⟩ := dequeueLocked_unweighted known taken
      refine ⟨level, node, rest, front, same, scanned, rfl, fun restored placed => ?_⟩
      subst same
      exact .of_unweighted known placed
    | some list =>
      have weighted : s.queue.weights.isSome = true := by rw [known]; rfl
      obtain ⟨level, node, rest, served, front, same, rfl⟩ := dequeueLocked_weighted weighted taken
      refine ⟨level, node, rest, front, same, served, rfl, fun restored placed => ?_⟩
      subst same
      have member : node ∈ s.queue.queues level := front ▸ List.mem_cons_self ..
      obtain ⟨positive, above, charged⟩ := run_above made plain ran weighted (List.ne_nil_of_mem member)
      exact .of_refund (valid.structured.priority level node member) weighted positive above charged placed
  subst same
  have member : node ∈ s.queue.queues level := front ▸ List.mem_cons_self ..
  have here := valid.structured.priority level node member
  have inside : node.message.priority < q'.numLevels := by
    rw [here, params'.1]
    exact valid.structured.level_lt member
  obtain ⟨restored, placed⟩ := placeMessage_exists q' cost inside true 0
  obtain ⟨kept, params'', _⟩ := placeMessage_spec valid' (valid.structured.native level node member) placed
  simp only [MultiLevelQueue.params, Prod.mk.injEq] at params''
  have agree := Agree.of_restore valid.structured front removed placed
  have accounts := settles restored placed
  refine ⟨restored, placed, congrFun agree.levels, agree.totalSize valid.structured kept.structured,
    agree.promotedIn valid.structured kept.structured, agree.expiryEntries valid.structured kept.structured,
    ⟨accounts.vclock, accounts.pulls, accounts.charged⟩, fun cfg known level positive => ?_, fun acyclic => ?_⟩
  · exact kept.due level positive cfg (by rw [params''.2.2.1, params'.2.2.1, params.2.2.1, known])
  · refine dequeue_again agree (params''.2.2.2.trans params'.2.2.2) accounts.vclock (params''.2.1.trans params'.2.1) ?_ chosen
      (show s.queue.levels level = node.message :: rest.map Node.message by rw [levels, front, List.map_cons])
    rw [params.2.1]
    exact acyclic

/-- The pull empties its level, which rejoins before the refund. -/
theorem dequeue_rollback_emptied : ∃ q s q' restored, create 2 (some ⟨5, 1, none⟩) .weightedTime (some [2, 1]) = .ok q ∧
    run Clocked.step [.enqueue (fun _ => some 4) { id := [0], ttl := 100, priority := 0 } 0,
      .enqueue (fun _ => some 4) { id := [1] } 0] ⟨q, 0⟩ = some s ∧
    s.queue.dequeueLocked (fun _ => some 4) = some ({ id := [0], ttl := 100, priority := 0 }, q') ∧
    q'.queues 0 = [] ∧ q'.vclock 0 = 2 ∧
    q'.requeueFront (fun _ => some 4) { id := [0], ttl := 100, priority := 0 } = some restored ∧
    restored.vclock = s.queue.vclock ∧ restored.expiryEntries = s.queue.expiryEntries := by
  have made : create 2 (some ⟨5, 1, none⟩) .weightedTime (some [2, 1]) = .ok _ := rfl
  have ran : run Clocked.step [.enqueue (fun _ => some 4) { id := [0], ttl := 100, priority := 0 } 0,
      .enqueue (fun _ => some 4) { id := [1] } 0]
    ⟨{ numLevels := 2, selection := .weightedTime, aging := some ⟨5, 1, none⟩, weights := some [2, 1] }, 0⟩ = some _ := rfl
  obtain ⟨restored, placed, _, _, _, entries, ⟨clocks, _⟩, _⟩ := dequeue_rollback made
    (fun operation member cost msg same => by simp [same] at member) ran rfl
  exact ⟨_, _, _, restored, made, ran, rfl, rfl, by decide +kernel, placed, clocks, entries⟩

end Harbinger.MultiLevelQueue
