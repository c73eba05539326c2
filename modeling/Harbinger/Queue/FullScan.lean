import Harbinger.Queue.Runs

/-! The aging pass against a reference pass over plain lists of messages. The reference
knows no cache: it looks at every level and moves every message that is late. -/

namespace Harbinger.MultiLevelQueue
open Container Transition

def levels (q : MultiLevelQueue) (level : Nat) : List Message := (q.queues level).map Node.message

/-- Not expired, and in its level for a full threshold. -/
def elapsed (cfg : AgingConfig) (now : Time) (msg : Message) : Bool :=
  ¬msg.isExpired now ∧ msg.enqueueTime + Clock.ofMillis cfg.threshold ≤ now

/-- As `elapsed`, for a threshold below the largest duration that the clock converts. -/
def overdue (cfg : AgingConfig) (now : Time) (msg : Message) : Bool :=
  cfg.threshold < Clock.maxMs && elapsed cfg now msg

def behind (cfg : AgingConfig) (now : Time) (above : List Message) : Bool :=
  above.any Message.isPromoted &&
    match above with
    | [] => false
    | head :: _ => Clock.ofMillis cfg.threshold ≤ now - head.arrivalTime

/-- The messages that leave a level and those that stay, each in FIFO order. -/
def selected (late : Message → Bool) (cfg : AgingConfig) (msgs : List Message) :
    List Message × List Message :=
  if pausing cfg then ((msgs.find? late).toList, msgs.eraseP late)
  else (msgs.filter late, msgs.filter fun msg => !late msg)

def fullScanLevel (late : Message → Bool) (cfg : AgingConfig) (now : Time) (level : Nat)
    (levels : Nat → List Message) : Nat → List Message :=
  if pausing cfg && behind cfg now (levels (level - 1)) then levels
  else
    let chosen := selected late cfg (levels level)
    Function.update (Function.update levels level chosen.2) (level - 1)
      (levels (level - 1) ++ chosen.1.map fun msg => msg.moved (level - 1) now)

/-- Levels `level`, `level - 1`, ..., 1 in this order. -/
def fullScan (late : Message → Bool) (cfg : AgingConfig) (now : Time) :
    Nat → (Nat → List Message) → Nat → List Message
  | 0, levels => levels
  | level + 1, levels => fullScan late cfg now level (fullScanLevel late cfg now (level + 1) levels)

section Selected
variable {late : Message → Bool} {cfg : AgingConfig} {msg : Message} {msgs : List Message}

theorem selected_stay (early : late msg = false) : selected late cfg (msg :: msgs) =
    ((selected late cfg msgs).1, msg :: (selected late cfg msgs).2) := by
  unfold selected
  split <;> simp [early]

theorem selected_first (due : late msg = true) (pause : pausing cfg = true) :
    selected late cfg (msg :: msgs) = ([msg], msgs) := by
  simp [selected, due, pause]

theorem selected_next (due : late msg = true) (plain : pausing cfg = false) :
    selected late cfg (msg :: msgs) =
      (msg :: (selected late cfg msgs).1, (selected late cfg msgs).2) := by
  simp [selected, due, plain]

theorem selected_none (early : ∀ msg ∈ msgs, late msg = false) :
    selected late cfg msgs = ([], msgs) := by
  induction msgs with
  | nil => simp [selected]
  | cons msg rest ih =>
    rw [selected_stay (early msg (List.mem_cons_self ..)),
      ih fun other member => early other (List.mem_cons_of_mem _ member)]

end Selected

theorem fullScanLevel_none {late : Message → Bool} {cfg : AgingConfig} {now : Time} {level : Nat}
    {levels : Nat → List Message} (early : ∀ msg ∈ levels level, late msg = false) :
    fullScanLevel late cfg now level levels = levels := by
  unfold fullScanLevel
  split
  · rfl
  · simp only [selected_none early, List.map_nil, List.append_nil, Function.update_eq_self]

theorem deadline_passed_iff (cfg : AgingConfig) {now : Time} (range : now ≤ Clock.max) (enqueued : Time) :
    (∃ due ∈ agingDeadline cfg enqueued, due ≤ now) ↔
      cfg.threshold < Clock.maxMs ∧ enqueued + Clock.ofMillis cfg.threshold ≤ now := by
  unfold agingDeadline
  split
  next long => simp [not_lt.mpr long]
  next short =>
    split
    next high =>
      simp only [Option.mem_def, reduceCtorEq, false_and, exists_false, false_iff, not_and, not_le]
      intro _
      linarith
    next low => simp [not_le.mp short]

theorem overdue_iff (cfg : AgingConfig) {now : Time} (range : now ≤ Clock.max) (msg : Message) :
    overdue cfg now msg = true ↔
      ¬msg.isExpired now ∧ ∃ due ∈ agingDeadline cfg msg.enqueueTime, due ≤ now := by
  rw [deadline_passed_iff cfg range]
  simp only [overdue, elapsed, Bool.and_eq_true, decide_eq_true_eq]
  tauto

theorem pausedLocked_eq {q : MultiLevelQueue} (structured : q.Structured) (cfg : AgingConfig)
    (level : Nat) (now : Time) :
    q.pausedLocked cfg level now = (pausing cfg && behind cfg now (q.levels (level - 1))) := by
  have count : (q.promotedIn (level - 1) != 0) = (q.levels (level - 1)).any Message.isPromoted := by
    rw [structured.promoted, levels, List.any_map, Bool.eq_iff_iff, bne_iff_ne, List.any_eq_true,
      ← Nat.pos_iff_ne_zero, List.countP_pos_iff]
    rfl
  unfold pausedLocked behind
  rw [count, Bool.and_assoc]
  cases shape : q.queues (level - 1) <;> simp [levels, shape]

theorem promote_levels {q : MultiLevelQueue} {level : Nat} {node : Node} {kept rest : List Node}
    (structured : q.Structured) (positive : 1 ≤ level) (here : q.queues level = kept ++ node :: rest)
    (now : Time) :
    (q.promote level node now).levels =
      Function.update (Function.update q.levels level ((kept ++ rest).map Node.message)) (level - 1)
        (q.levels (level - 1) ++ [node.message.moved (level - 1) now]) := by
  funext other
  unfold levels
  by_cases target : other = level - 1
  · subst target
    rw [promote_above, Function.update_self, List.map_append]
    rfl
  · rw [Function.update_of_ne target]
    by_cases source : other = level
    · subst source
      rw [promote_level q node now structured positive here, Function.update_self]
    · rw [promote_elsewhere q node now source target, Function.update_of_ne source]

theorem ageScan_levels {cfg : AgingConfig} {now : Time} (range : now ≤ Clock.max) {level : Nat}
    (positive : 1 ≤ level) {dueBefore : Time} {kept todo : List Node} {q : MultiLevelQueue} {visited : Nat}
    (scanning : Scanning cfg now level dueBefore q kept todo) :
    (ageScan cfg now (fun _ => now) level dueBefore todo (q, visited)).1.levels =
      Function.update (Function.update q.levels level (kept.map Node.message ++
        (selected (overdue cfg now) cfg (todo.map Node.message)).2)) (level - 1)
        (q.levels (level - 1) ++ (selected (overdue cfg now) cfg (todo.map Node.message)).1.map
          fun msg => msg.moved (level - 1) now) := by
  have different : level - 1 ≠ level := by omega
  induction todo generalizing q kept visited with
  | nil =>
    have own : q.levels level = kept.map Node.message := by rw [levels, scanning.here, List.append_nil]
    simp [ageScan, selected, ← own]
  | cons node rest ih =>
    have late := overdue_iff cfg range node.message
    unfold ageScan
    split
    next expired =>
      have early : overdue cfg now node.message = false := by
        rw [Bool.eq_false_iff, Ne, late]
        exact fun due => due.1 expired
      rw [ih (scanning.skip expired), List.map_cons, selected_stay early, List.map_append,
        List.append_assoc]
      rfl
    next live =>
      split
      next due =>
        have here := late.mpr ⟨live, due⟩
        have moved := promote_levels scanning.structured positive scanning.here now
        split
        next pause =>
          rw [List.map_append] at moved
          rw [List.map_cons, selected_first here pause]
          exact moved
        next plain =>
          rw [ih (scanning.promote positive now), moved, List.map_cons,
            selected_next here (by simpa using plain)]
          funext other
          by_cases target : other = level - 1
          · subst target
            simp
          · by_cases source : other = level
            · subst source
              simp [Function.update_of_ne different.symm]
            · simp [target, source]
      next notDue =>
        have early : overdue cfg now node.message = false := by
          rw [Bool.eq_false_iff, Ne, late]
          exact fun due => notDue due.2
        have same : (q.noteAgingDeadline level node.message.enqueueTime).levels = q.levels := by
          funext other
          rw [levels, noteAgingDeadline_queues, levels]
        rw [ih (scanning.note positive), same, List.map_cons, selected_stay early, List.map_append,
          List.append_assoc]
        rfl

theorem skipped_early {q : MultiLevelQueue} {now : Time} (range : now ≤ Clock.max)
    (due : q.Due now) {cfg : AgingConfig} (aging : q.aging = some cfg) {level : Nat} (positive : 1 ≤ level)
    (cache : ∀ cached, q.nextAging level = some cached → now < cached) :
    ∀ msg ∈ q.levels level, overdue cfg now msg = false := by
  intro msg member
  obtain ⟨node, present, rfl⟩ := List.mem_map.mp member
  rw [Bool.eq_false_iff, Ne, overdue_iff cfg range]
  rintro ⟨live, deadline, found, passed⟩
  obtain ⟨cached, known, bound⟩ := due level positive cfg aging node present live deadline found
  have ahead := cache cached known
  order

theorem ageLevel_levels {q : MultiLevelQueue} {now : Time} (range : now ≤ Clock.max)
    (valid : q.Valid now) {cfg : AgingConfig} (aging : q.aging = some cfg) {level : Nat}
    (positive : 1 ≤ level) (visited : Nat) :
    (ageLevel cfg now (fun _ => now) level (q, visited)).1.levels =
      fullScanLevel (overdue cfg now) cfg now level q.levels := by
  simp only [ageLevel]
  split
  next missing =>
    refine (fullScanLevel_none (skipped_early range valid.due aging positive ?_)).symm
    intro cached known
    rw [missing] at known
    cases known
  next dueBefore cached =>
    split
    next ahead =>
      refine (fullScanLevel_none (skipped_early range valid.due aging positive ?_)).symm
      intro held known
      rw [cached] at known
      exact Option.some.inj known ▸ ahead
    next =>
      rw [pausedLocked_eq valid.structured]
      unfold fullScanLevel
      split
      · rfl
      · exact ageScan_levels range positive (valid.scanning aging positive cached)

theorem ageLevels_levels {now : Time} (range : now ≤ Clock.max) {cfg : AgingConfig} (level : Nat)
    {q : MultiLevelQueue} (valid : q.Valid now) (aging : q.aging = some cfg) (visited : Nat) :
    (ageLevels cfg now (fun _ => now) level (q, visited)).1.levels =
      fullScan (overdue cfg now) cfg now level q.levels := by
  induction level generalizing q visited with
  | zero => rfl
  | succ level ih =>
    obtain ⟨kept, params, _⟩ := ageLevel_kept now (fun _ => le_refl now)
      (Nat.succ_pos level) valid aging visited
    have config := (congrArg (fun params => params.2.2.1) params).trans aging
    have first := ageLevel_levels range valid aging (Nat.succ_pos level) visited
    rw [fullScan, ← first]
    exact ih kept config _

/-- Where a node of the level lists of `q'` comes from, after the levels from `level` on. -/
def OneStep (now : Time) (level : Nat) (q q' : MultiLevelQueue) : Prop :=
  ∀ other, ∀ node ∈ q'.queues other, node ∈ q.queues other ∨
    level ≤ other ∧ ∃ old ∈ q.queues (other + 1), ¬old.message.isExpired now ∧
      node = promotedNode old (other + 1) now

theorem ageScan_origin {cfg : AgingConfig} {now : Time} {level : Nat} (positive : 1 ≤ level)
    {dueBefore : Time} {todo : List Node} {q : MultiLevelQueue} {visited : Nat} (other : Nat) (node : Node)
    (member : node ∈ (ageScan cfg now (fun _ => now) level dueBefore todo (q, visited)).1.queues other) :
    node ∈ q.queues other ∨ (other + 1 = level ∧ ∃ old ∈ todo, ¬old.message.isExpired now ∧
      (∃ due ∈ agingDeadline cfg old.message.enqueueTime, due ≤ now) ∧
      node = promotedNode old level now) := by
  induction todo generalizing q visited with
  | nil => exact Or.inl member
  | cons first rest ih =>
    have later : (other + 1 = level ∧ ∃ old ∈ rest, ¬old.message.isExpired now ∧
        (∃ due ∈ agingDeadline cfg old.message.enqueueTime, due ≤ now) ∧
        node = promotedNode old level now) → (other + 1 = level ∧ ∃ old ∈ first :: rest,
        ¬old.message.isExpired now ∧ (∃ due ∈ agingDeadline cfg old.message.enqueueTime, due ≤ now) ∧
        node = promotedNode old level now) := by
      rintro ⟨below, old, present, found⟩
      exact ⟨below, old, List.mem_cons_of_mem _ present, found⟩
    unfold ageScan at member
    split at member
    · exact (ih member).imp_right later
    next live =>
      split at member
      next due =>
        have moved : ∀ x ∈ (q.promote level first now).queues other, x ∈ q.queues other ∨
            (other + 1 = level ∧ x = promotedNode first level now) := by
          intro x present
          by_cases target : other = level - 1
          · subst target
            rw [promote_above] at present
            rcases List.mem_append.mp present with old | new
            · exact Or.inl old
            · exact Or.inr ⟨by omega, List.mem_singleton.mp new⟩
          · rw [promote_queues, Function.update_of_ne target] at present
            by_cases source : other = level
            · subst source
              rw [Function.update_self] at present
              exact Or.inl (List.mem_of_mem_eraseP present)
            · rw [Function.update_of_ne source] at present
              exact Or.inl present
        have here : ∀ x ∈ (q.promote level first now).queues other, x ∈ q.queues other ∨
            (other + 1 = level ∧ ∃ old ∈ first :: rest, ¬old.message.isExpired now ∧
              (∃ due ∈ agingDeadline cfg old.message.enqueueTime, due ≤ now) ∧
              x = promotedNode old level now) := fun x present =>
          (moved x present).imp_right fun found =>
            ⟨found.1, first, List.mem_cons_self .., live, due, found.2⟩
        split at member
        · exact here node member
        · rcases ih member with old | new
          · exact here node old
          · exact Or.inr (later new)
      next =>
        have found := (ih member).imp_right later
        rwa [noteAgingDeadline_queues] at found

theorem promotedNode_early {cfg : AgingConfig} (positive : 0 < cfg.threshold) {now : Time} (old : Node)
    (level : Nat) :
    ¬∃ due ∈ agingDeadline cfg (promotedNode old level now).message.enqueueTime, due ≤ now := by
  rintro ⟨due, found, passed⟩
  have stamp : (promotedNode old level now).message.enqueueTime = now := rfl
  rw [stamp, agingDeadline] at found
  split at found
  · cases found
  · split at found
    · cases found
    · have value : now + Clock.ofMillis cfg.threshold = due := Option.some.inj found
      have delay : 0 < Clock.ofMillis cfg.threshold := Int.mul_pos positive (by decide)
      linarith

theorem ageLevel_oneStep {cfg : AgingConfig} (threshold : 0 < cfg.threshold) {now : Time} {level : Nat}
    {q₀ q : MultiLevelQueue} (known : OneStep now (level + 1) q₀ q) (visited : Nat) :
    OneStep now level q₀ (ageLevel cfg now (fun _ => now) (level + 1) (q, visited)).1 := by
  have weaker : OneStep now level q₀ q := fun other node member =>
    (known other node member).imp_right fun found => ⟨by omega, found.2⟩
  simp only [ageLevel]
  split
  · exact weaker
  next dueBefore _ =>
    split
    · exact weaker
    · split
      · exact weaker
      · intro other node member
        rcases ageScan_origin (Nat.succ_pos level) other node member with old | ⟨below, old, present, live, due, rfl⟩
        · exact weaker other node old
        · have same : other = level := by omega
          subst same
          rcases known (other + 1) old present with origin | ⟨_, older, _, _, rfl⟩
          · exact Or.inr ⟨le_rfl, old, origin, live, rfl⟩
          · exact absurd due (promotedNode_early threshold older _)

theorem ageLevels_oneStep {cfg : AgingConfig} (threshold : 0 < cfg.threshold) {now : Time} (level : Nat)
    {q₀ q : MultiLevelQueue} (known : OneStep now level q₀ q) (visited : Nat) :
    OneStep now 0 q₀ (ageLevels cfg now (fun _ => now) level (q, visited)).1 := by
  induction level generalizing q visited with
  | zero => exact known
  | succ level ih => exact ih (ageLevel_oneStep threshold known visited) _

/-- The cached pass and the reference pass agree in every reachable queue, with plain or
pausing aging. -/
theorem cached_aging_eq_full_scan {numLevels : Nat} {cfg : AgingConfig} {selection : QueueSelection}
    {weights : Option (List Nat)} {q : MultiLevelQueue} {start : Time} {operations : List Operation}
    {s : Clocked} (made : create numLevels (some cfg) selection weights = .ok q)
    (ran : run Clocked.step operations ⟨q, start⟩ = some s) {now : Time} (order : s.now ≤ now)
    (range : now ≤ Clock.max) :
    (s.queue.ageOnceLocked now fun _ => now).1.levels =
      fullScan (overdue cfg now) cfg now (numLevels - 1) s.queue.levels ∧
    (∀ level, (s.queue.ageOnceLocked now fun _ => now).1.promotedIn level =
      (fullScan (overdue cfg now) cfg now (numLevels - 1) s.queue.levels level).countP Message.isPromoted) ∧
    ((s.queue.ageOnceLocked now fun _ => now).1.nodes.map Node.handle).Nodup ∧
    ∀ level, ∀ node ∈ (s.queue.ageOnceLocked now fun _ => now).1.queues level,
      node ∈ s.queue.queues level ∨ ∃ old ∈ s.queue.queues (level + 1), ¬old.message.isExpired now ∧
        node = promotedNode old (level + 1) now := by
  obtain ⟨valid, params⟩ := run_valid made ran
  obtain ⟨rfl, _, threshold⟩ := create_ok made
  have count : s.queue.numLevels = numLevels := congrArg Prod.fst params
  have aging : s.queue.aging = some cfg := congrArg (fun params => params.2.2.1) params
  have pass : s.queue.ageOnceLocked now (fun _ => now) =
      ageLevels cfg now (fun _ => now) (numLevels - 1) (s.queue, 0) := by
    simp only [ageOnceLocked, aging, count]
  have same := ageLevels_levels range (numLevels - 1) (valid.mono order) aging 0
  obtain ⟨kept, _, _⟩ := ageLevels_kept now (fun _ => le_refl now)
    (numLevels - 1) (valid.mono order) aging 0
  rw [pass]
  refine ⟨same, ?_, kept.structured.index.distinct, ?_⟩
  · intro level
    rw [← same, kept.structured.promoted, levels, List.countP_map]
    rfl
  · intro level node member
    have start : OneStep now (numLevels - 1) s.queue s.queue := fun _ _ present => Or.inl present
    exact (ageLevels_oneStep (threshold cfg rfl) _ start 0 level node member).imp_right And.right

theorem cached_aging_eq_full_scan_pausing :
    ∃ q s, create 2 (some ⟨5, 1, some true⟩) .strictPriority none = .ok q ∧
      run Clocked.step [.enqueue (fun _ => none) { id := [1] } 0, .enqueue (fun _ => none) { id := [2] } 0]
        ⟨q, 0⟩ = some s ∧
      (s.queue.ageOnceLocked 6000000 fun _ => 6000000).1.levels =
        fullScan (overdue ⟨5, 1, some true⟩ 6000000) ⟨5, 1, some true⟩ 6000000 1 s.queue.levels ∧
      ((s.queue.ageOnceLocked 6000000 fun _ => 6000000).1.levels 0).length = 1 := by
  have made : create 2 (some ⟨5, 1, some true⟩) .strictPriority none = .ok _ := rfl
  have ran : run Clocked.step [.enqueue (fun _ => none) { id := [1] } 0,
    .enqueue (fun _ => none) { id := [2] } 0]
    ⟨{ numLevels := 2, selection := .strictPriority, aging := some ⟨5, 1, some true⟩, weights := none }, 0⟩ =
      some _ := rfl
  exact ⟨_, _, made, ran, (cached_aging_eq_full_scan made ran (by decide) (by decide)).1, by decide +kernel⟩

/-- With a threshold of `Clock.maxMs` the code never promotes, although the sum of enqueue time and
threshold is a clock value that can be reached. -/
theorem longest_threshold_never_promotes :
    ∃ q s, create 2 (some ⟨9223372036854, 1, none⟩) .strictPriority none = .ok q ∧
      run Clocked.step [.enqueue (fun _ => none) { id := [1] } 0, .advance 9223372036854000000] ⟨q, 0⟩ =
        some s ∧
      s.now ≤ Clock.max ∧
      (s.queue.ageOnceLocked s.now fun _ => s.now).1.levels ≠
        fullScan (elapsed ⟨9223372036854, 1, none⟩ s.now) ⟨9223372036854, 1, none⟩ s.now 1 s.queue.levels := by
  refine ⟨_, _, rfl, rfl, by decide +kernel, fun same => ?_⟩
  have lengths := congrArg List.length (congrFun same 0)
  revert lengths
  decide +kernel

end Harbinger.MultiLevelQueue
