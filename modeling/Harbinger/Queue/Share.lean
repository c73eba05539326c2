import Harbinger.Queue.Runs
import Harbinger.Schedule.VirtualClock

/-! Worker-time share: the virtual clocks of the levels as a fair clock system. Every operation
but a pull only lets levels join at the floor; a pull charges the level with the smallest
clock. -/

namespace Harbinger.MultiLevelQueue
open Container Transition Schedule

def clocks (q : MultiLevelQueue) : Clocks Nat ℚ := ⟨q.vclock, q.vfloor⟩

/-- The level holds a message. -/
def Busy (q : MultiLevelQueue) (level : Nat) : Prop := q.queues level ≠ []

instance (q : MultiLevelQueue) (level : Nat) : Decidable (q.Busy level) := inferInstanceAs (Decidable (_ ≠ _))

theorem bestLevel_eq (q : MultiLevelQueue) :
    q.bestLevel = leastActive (fun level => (q.queues level).isEmpty) q.vclock q.numLevels := rfl

theorem one_le_chargeLocked (cost : CostFunction) (msg : Message) : 1 ≤ chargeLocked cost msg := by
  unfold chargeLocked
  split
  · exact le_rfl
  · exact le_max_right _ _

/-- What an operation that charges nothing does to the accounts. -/
structure Carries (q q' : MultiLevelQueue) : Prop where
  lifts : Clocks.Lifts q.Busy q'.Busy q.clocks q'.clocks
  weights : q'.weights = q.weights
  pulls : q'.pulls = q.pulls
  charged : q'.charged = q.charged

namespace Carries
variable {q q' q'' : MultiLevelQueue}

theorem of_subset (fewer : ∀ level, q'.Busy level → q.Busy level) (clocks : q'.clocks = q.clocks)
    (weights : q'.weights = q.weights) (pulls : q'.pulls = q.pulls) (charged : q'.charged = q.charged) :
    Carries q q' :=
  ⟨clocks ▸ .of_subset q.clocks fewer, weights, pulls, charged⟩

theorem refl (q : MultiLevelQueue) : Carries q q := of_subset (fun _ busy => busy) rfl rfl rfl rfl

theorem trans (first : Carries q q') (second : Carries q' q'') : Carries q q'' :=
  ⟨first.lifts.trans second.lifts, second.weights.trans first.weights, second.pulls.trans first.pulls,
    second.charged.trans first.charged⟩

end Carries

section Operations
variable (q : MultiLevelQueue)

theorem busy_of_removeLocked {level other : Nat} {node : Node} (busy : (q.removeLocked level node).Busy other) :
    q.Busy other := by
  obtain ⟨first, member⟩ := List.exists_mem_of_ne_nil _ busy
  exact List.ne_nil_of_mem (removeLocked_subset q level node other member)

theorem carries_removeLocked (level : Nat) (node : Node) : Carries q (q.removeLocked level node) :=
  .of_subset (fun _ => busy_of_removeLocked q) rfl rfl rfl rfl

theorem noteAgingDeadline_eq (level : Nat) (enqueued : Time) :
    ∃ nextAging, q.noteAgingDeadline level enqueued = { q with nextAging } := by
  unfold noteAgingDeadline
  split
  · exact ⟨q.nextAging, rfl⟩
  · split
    · exact ⟨q.nextAging, rfl⟩
    · split
      · exact ⟨q.nextAging, rfl⟩
      · exact ⟨_, rfl⟩

theorem carries_cache (nextAging : Nat → Option Time) : Carries q { q with nextAging } :=
  .of_subset (fun _ busy => busy) rfl rfl rfl rfl

theorem carries_noteAgingDeadline (level : Nat) (enqueued : Time) : Carries q (q.noteAgingDeadline level enqueued) := by
  obtain ⟨nextAging, same⟩ := q.noteAgingDeadline_eq level enqueued
  rw [same]
  exact carries_cache q nextAging

theorem carries_promote (weighted : q.weights.isSome = true) (level : Nat) (node : Node) (now : Time) :
    Carries q (q.promote level node now) := by
  have joins : ∀ other, (q.splice level node now).Busy other → q.Busy other ∨ other = level - 1 := by
    intro other busy
    by_cases above : other = level - 1
    · exact Or.inr above
    · refine Or.inl fun empty => busy ?_
      simp only [splice, Function.update_of_ne above]
      by_cases same : other = level
      · subst same
        rw [Function.update_self, empty, List.eraseP_nil]
      · rw [Function.update_of_ne same, empty]
  refine Carries.trans ?_ (carries_noteAgingDeadline _ (level - 1) now)
  simp only [weighted, Bool.true_and]
  cases empty : (q.queues (level - 1)).isEmpty with
  | true => exact ⟨.activate q.clocks (level - 1) joins, rfl, rfl, rfl⟩
  | false =>
    refine .of_subset (fun other busy => (joins other busy).elim id fun above => ?_) rfl rfl rfl rfl
    subst above
    exact fun nil => by simp [nil] at empty

theorem carries_ageScan (cfg : AgingConfig) (now : Time) (reading : Nat → Time) (level : Nat) (dueBefore : Time)
    (todo : List Node) (visited : Nat) (weighted : q.weights.isSome = true) :
    Carries q (ageScan cfg now reading level dueBefore todo (q, visited)).1 := by
  induction todo generalizing q visited with
  | nil => exact .refl q
  | cons node rest ih =>
    simp only [ageScan]
    split
    · exact ih q (visited + 1) weighted
    · split
      · have promoted := carries_promote q weighted level node now
        split
        · exact promoted.trans (carries_cache _ _)
        · exact promoted.trans (ih _ (visited + 1) (promoted.weights ▸ weighted))
      · have noted := carries_noteAgingDeadline q level node.message.enqueueTime
        exact noted.trans (ih _ (visited + 1) (noted.weights ▸ weighted))

theorem carries_ageOnceLocked (now : Time) (reading : Nat → Time) (weighted : q.weights.isSome = true) :
    Carries q (q.ageOnceLocked now reading).1 := by
  have pass : ∀ (cfg : AgingConfig) (level : Nat) (state : MultiLevelQueue × Nat), state.1.weights.isSome = true →
      Carries state.1 (ageLevel cfg now reading level state).1 := by
    rintro cfg level ⟨q, visited⟩ weighted
    simp only [ageLevel]
    split
    · exact .refl q
    · split
      · exact .refl q
      · split
        · exact .refl q
        · exact (carries_cache q _).trans (carries_ageScan _ cfg now reading level _ _ _ weighted)
  have levels : ∀ (cfg : AgingConfig) (level : Nat) (state : MultiLevelQueue × Nat), state.1.weights.isSome = true →
      Carries state.1 (ageLevels cfg now reading level state).1 := by
    intro cfg level
    induction level with
    | zero => exact fun state _ => .refl state.1
    | succ level ih =>
      intro state weighted
      have first := pass cfg (level + 1) state weighted
      exact first.trans (ih _ (first.weights ▸ weighted))
  unfold ageOnceLocked
  split
  · exact .refl q
  · exact levels _ _ (q, 0) weighted

theorem carries_sweepExpiredBatch (now : Time) (limit : Nat) : Carries q (sweepExpiredBatch now limit q).2 := by
  induction limit generalizing q with
  | zero => exact .refl q
  | succ limit ih =>
    simp only [sweepExpiredBatch]
    split
    · exact .refl q
    · split
      · split
        · exact .refl q
        · exact (carries_removeLocked q _ _).trans (ih _)
      · exact .refl q

theorem carries_sweepExpired (now : Time) (reading : Nat → Time) : Carries q (q.sweepExpired now reading).2 := by
  have scan : ∀ (todo : List (Nat × Node)) (visited : Nat) (q : MultiLevelQueue),
      Carries q (sweepScan reading todo visited q).2 := by
    intro todo
    induction todo with
    | nil => exact fun _ q => .refl q
    | cons item rest ih =>
      intro visited q
      simp only [sweepScan]
      split
      · exact (carries_removeLocked q _ _).trans (ih _ _)
      · exact ih _ _
  unfold sweepExpired
  split
  · exact .refl q
  · split
    · exact .refl q
    · exact scan _ _ q

/-- An enqueue into an empty level lets it join at the floor. -/
theorem carries_enqueue {q' : MultiLevelQueue} {cost : CostFunction} {msg : Message} {now : Time}
    (weighted : q.weights.isSome = true) (placed : q.enqueue cost msg now = some q') : Carries q q' := by
  set stored : Message := { msg with enqueueTime := now } with storedEq
  have joins : ∀ other, (q.linkNode stored false).Busy other → q.Busy other ∨ other = msg.priority := by
    intro other busy
    by_cases here : other = msg.priority
    · exact Or.inr here
    · exact Or.inl fun empty => busy (by simp only [linkNode, storedEq, Function.update_of_ne here, empty])
  obtain ⟨nextAging, noted⟩ := (q.linkNode stored false).noteAgingDeadline_eq stored.priority stored.enqueueTime
  have shared : ¬(({ q.linkNode stored false with nextAging } : MultiLevelQueue).weights.isNone = true) := by
    rw [Option.isNone_iff_eq_none]
    exact Option.isSome_iff_ne_none.mp weighted
  simp only [enqueue, placeMessage, placeShare, Bool.false_eq_true, ↓reduceIte, ← storedEq, noted, if_neg shared] at placed
  split at placed
  · cases placed
  · obtain rfl := Option.some.inj placed
    cases empty : (q.queues stored.priority).isEmpty with
    | true =>
      simp only [↓reduceIte]
      exact ⟨.activate q.clocks msg.priority joins, rfl, rfl, rfl⟩
    | false =>
      simp only [Bool.false_eq_true, ↓reduceIte]
      refine .of_subset (fun other busy => (joins other busy).elim id fun here => ?_) rfl rfl rfl rfl
      subst here
      exact fun nil => by simp [storedEq, nil] at empty

end Operations

theorem dequeueLocked_weighted {q q' : MultiLevelQueue} {cost : CostFunction} {msg : Message}
    (weighted : q.weights.isSome = true) (taken : q.dequeueLocked cost = some (msg, q')) :
    ∃ level node rest, q.bestLevel = some level ∧ q.queues level = node :: rest ∧ node.message = msg ∧
      q' = (q.chargePull level (chargeLocked cost msg)).removeLocked level node := by
  simp only [dequeueLocked, weighted, ↓reduceIte] at taken
  split at taken
  · cases taken
  next level served =>
    split at taken
    · cases taken
    next node rest front =>
      obtain ⟨rfl, rfl⟩ := Prod.mk.inj (Option.some.inj taken)
      exact ⟨level, node, rest, served, front, rfl, rfl⟩

theorem dequeueLocked_isSome {q : MultiLevelQueue} (cost : CostFunction) (weighted : q.weights.isSome = true)
    {level : Nat} (inside : level < q.numLevels) (busy : q.Busy level) : (q.dequeueLocked cost).isSome := by
  have active : (q.queues level).isEmpty = false := by
    rw [List.isEmpty_eq_false_iff]
    exact busy
  obtain ⟨best, served⟩ := Option.isSome_iff_exists.mp
    (leastActive_isSome (fun level => (q.queues level).isEmpty) q.vclock inside active)
  obtain ⟨_, occupied, _⟩ := leastActive_spec served
  simp only [dequeueLocked, weighted, ↓reduceIte, bestLevel_eq, served]
  split
  next nil => simp [nil] at occupied
  · rfl

namespace Clocked

/-- The cost that the operation charges to the level. -/
def billed (level : Nat) (s : Clocked) : Operation → ℚ
  | .dequeue cost =>
    match s.queue.dequeueLocked cost with
    | none => 0
    | some (msg, _) => if msg.priority = level then chargeLocked cost msg else 0
  | _ => 0

/-- The costs charged to the level in a run. -/
def bill (level : Nat) : List Operation → Clocked → ℚ
  | [], _ => 0
  | operation :: rest, s => s.billed level operation + ((s.step operation).map (bill level rest)).getD 0

/-- Every operation but a restore, charging at most `limit`. -/
def ChargesUpTo (limit : ℚ) (s : Clocked) : Operation → Prop
  | .requeueFront _ _ => False
  | .dequeue cost => ∀ msg q', s.queue.dequeueLocked cost = some (msg, q') → chargeLocked cost msg ≤ limit
  | _ => True

end Clocked

/-- The longest step of a level's clock. -/
def span (limit : ℚ) (q : MultiLevelQueue) (level : Nat) : ℚ := limit / q.weight level

/-- The clocks are fair for charges up to `limit`. -/
def Shared (limit : ℚ) (q : MultiLevelQueue) : Prop := Clocks.Fair (span limit q) q.Busy q.clocks

theorem weight_congr {q q' : MultiLevelQueue} (same : q'.weights = q.weights) : q'.weight = q.weight := by
  funext level
  rw [weight, same, weight]

section Steps
variable {limit : ℚ}

theorem Shared.carries {q q' : MultiLevelQueue} (shared : Shared limit q) (carries : Carries q q')
    (room : ∀ level, 0 ≤ span limit q level) : Shared limit q' := by
  have lifted := Clocks.Fair.lift shared carries.lifts room
  have spans : span limit q' = span limit q := by
    funext level
    rw [span, weight_congr carries.weights, span]
  rwa [Shared, spans]

/-- What one operation does to the accounts: the clock of a level that was not empty moves by what
it is charged, over its weight. -/
structure Accounts (limit : ℚ) (s next : Clocked) (operation : Operation) : Prop where
  shared : Shared limit next.queue
  weights : next.queue.weights = s.queue.weights
  charged : ∀ level, next.queue.charged level = s.queue.charged level + s.billed level operation
  clock : ∀ level, s.queue.Busy level →
    next.queue.vclock level = s.queue.vclock level + s.billed level operation / s.queue.weight level

theorem Accounts.of_carries {s next : Clocked} {operation : Operation} (shared : Shared limit s.queue)
    (room : ∀ level, 0 ≤ span limit s.queue level) (carries : Carries s.queue next.queue)
    (free : ∀ level, s.billed level operation = 0) : Accounts limit s next operation where
  shared := shared.carries carries room
  weights := carries.weights
  charged level := by rw [carries.charged, free, add_zero]
  clock level busy := by
    rw [free, zero_div, add_zero]
    exact carries.lifts.clock_eq shared busy

/-- A pull charges the level it serves and no other. -/
theorem Accounts.dequeue {s : Clocked} {cost : CostFunction} (valid : s.queue.Valid s.now)
    (weighted : s.queue.weights.isSome = true) (positive : ∀ level, 0 < s.queue.weight level)
    (shared : Shared limit s.queue) (charges : s.ChargesUpTo limit (.dequeue cost)) :
    Accounts limit s { s with queue := ((s.queue.dequeueLocked cost).map Prod.snd).getD s.queue } (.dequeue cost) := by
  cases taken : s.queue.dequeueLocked cost with
  | none =>
    exact {
      shared, weights := rfl
      charged := fun level => by simp [Clocked.billed, taken]
      clock := fun level _ => by simp [Clocked.billed, taken] }
  | some pair =>
    obtain ⟨msg, q'⟩ := pair
    have upTo := charges msg q' taken
    obtain ⟨level, node, rest, served, front, same, rfl⟩ := dequeueLocked_weighted weighted taken
    have member : node ∈ s.queue.queues level := front ▸ List.mem_cons_self ..
    have here : msg.priority = level := same ▸ valid.structured.priority level node member
    have cheap := one_le_chargeLocked cost msg
    obtain ⟨_, _, least⟩ := leastActive_spec served
    have fair : Shared limit (s.queue.chargePull level (chargeLocked cost msg)) := by
      refine Clocks.Fair.serve shared (List.ne_nil_of_mem member) (fun other busy => ?_) ?_ ?_
      · obtain ⟨first, inside⟩ := List.exists_mem_of_ne_nil _ busy
        exact least other (valid.structured.level_lt inside) (List.isEmpty_eq_false_iff.mpr busy)
      · exact div_nonneg (by linarith) (positive level).le
      · exact div_le_div_of_nonneg_right upTo (positive level).le
    have bills : ∀ other, s.billed other (.dequeue cost) = if level = other then chargeLocked cost msg else 0 := by
      intro other
      simp only [Clocked.billed, taken, here]
    refine {
      shared := fair.mono fun other => busy_of_removeLocked _
      weights := rfl
      charged := fun other => ?_
      clock := fun other busy => ?_ }
    all_goals rw [bills]
    all_goals
      by_cases same : level = other
      · subst same
        rw [if_pos rfl]
        exact Function.update_self ..
      · rw [if_neg same]
        first | rw [add_zero] | rw [zero_div, add_zero]
        exact Function.update_of_ne (Ne.symm same) ..

theorem Accounts.step {s next : Clocked} {operation : Operation} (valid : s.queue.Valid s.now)
    (weighted : s.queue.weights.isSome = true) (positive : ∀ level, 0 < s.queue.weight level) (bound : 0 ≤ limit)
    (shared : Shared limit s.queue) (charges : s.ChargesUpTo limit operation) (moved : s.step operation = some next) :
    Accounts limit s next operation := by
  have room : ∀ level, 0 ≤ span limit s.queue level := fun level => div_nonneg bound (positive level).le
  cases operation with
  | requeueFront cost msg => exact charges.elim
  | dequeue cost =>
    rw [show next = _ from Clocked.step_spec moved]
    exact .dequeue valid weighted positive shared charges
  | advance now =>
    obtain ⟨_, rfl⟩ := Clocked.step_spec moved
    exact .of_carries shared room (.refl s.queue) fun _ => rfl
  | enqueue cost msg reading =>
    obtain ⟨_, rfl⟩ := Clocked.step_spec moved
    refine .of_carries shared room ?_ fun _ => rfl
    cases placed : s.queue.enqueue cost msg reading with
    | none => exact .refl s.queue
    | some q' => exact carries_enqueue s.queue weighted placed
  | sweepExpiredBatch count reading =>
    obtain ⟨_, rfl⟩ := Clocked.step_spec moved
    exact .of_carries shared room (carries_sweepExpiredBatch ..) fun _ => rfl
  | sweepExpired reading readings =>
    obtain ⟨_, rfl⟩ := Clocked.step_spec moved
    exact .of_carries shared room (carries_sweepExpired ..) fun _ => rfl
  | ageOnce reading readings =>
    obtain ⟨_, rfl⟩ := Clocked.step_spec moved
    exact .of_carries shared room (carries_ageOnceLocked s.queue reading _ weighted) fun _ => rfl

/-- The accounts over a run. -/
theorem run_accounts {operations : List Operation} {s t : Clocked} (valid : s.queue.Valid s.now)
    (weighted : s.queue.weights.isSome = true) (positive : ∀ level, 0 < s.queue.weight level) (bound : 0 ≤ limit)
    (shared : Shared limit s.queue) (charges : Along Clocked.step (Clocked.ChargesUpTo limit) operations s)
    (ran : run Clocked.step operations s = some t) :
    Shared limit t.queue ∧ t.queue.weights = s.queue.weights ∧
      ∀ level, t.queue.charged level = s.queue.charged level + Clocked.bill level operations s ∧
        (Along Clocked.step (fun u _ => u.queue.Busy level) operations s →
          t.queue.vclock level = s.queue.vclock level + Clocked.bill level operations s / s.queue.weight level) := by
  induction operations generalizing s with
  | nil =>
    obtain rfl := Option.some.inj ran
    exact ⟨shared, rfl, fun level => ⟨(add_zero _).symm, fun _ => by simp [Clocked.bill]⟩⟩
  | cons operation rest ih =>
    obtain ⟨next, moved, later⟩ := run_cons.mp ran
    have account := Accounts.step valid weighted positive bound shared charges.1 moved
    have weight := weight_congr account.weights
    obtain ⟨fair, kept, totals⟩ := ih (Clocked.step_keeps valid moved).1 (account.weights ▸ weighted)
      (weight ▸ positive) account.shared (charges.2 next moved) later
    have split : ∀ level, Clocked.bill level (operation :: rest) s =
        s.billed level operation + Clocked.bill level rest next := fun level => by
      simp only [Clocked.bill, moved, Option.map_some, Option.getD_some]
    refine ⟨fair, kept.trans account.weights, fun level => ⟨?_, fun busy => ?_⟩⟩
    · rw [(totals level).1, account.charged, split, add_assoc]
    · rw [(totals level).2 (busy.2 next moved), account.clock level busy.1, split, weight, add_div, add_assoc]

end Steps

theorem create_weight {numLevels : Nat} {aging : Option AgingConfig} {selection : QueueSelection}
    {weights : Option (List Nat)} {q : MultiLevelQueue} (made : create numLevels aging selection weights = .ok q)
    (level : Nat) : 0 < q.weight level := by
  obtain ⟨rfl, _, _⟩ := create_ok made
  have listed : ∀ weight ∈ weights.getD [], 1 ≤ weight := by
    cases weights with
    | none => exact fun _ member => absurd member List.not_mem_nil
    | some list =>
      unfold create at made
      simp only [bind, Except.bind, pure, Except.pure, throw, throwThe, MonadExceptOf.throw] at made
      repeat' split at made
      all_goals cases made
      all_goals grind
  have least : 1 ≤ (weights.getD []).getD level 1 := by
    by_cases inside : level < (weights.getD []).length
    · rw [List.getD_eq_getElem _ _ inside]
      exact listed _ (List.getElem_mem inside)
    · rw [List.getD_eq_default _ _ (by omega)]
  exact Nat.cast_pos.mpr least

theorem create_shared {numLevels : Nat} {aging : Option AgingConfig} {selection : QueueSelection}
    {weights : Option (List Nat)} {q : MultiLevelQueue} {limit : ℚ}
    (made : create numLevels aging selection weights = .ok q) (bound : 0 ≤ limit) : Shared limit q := by
  have positive := create_weight made
  obtain ⟨rfl, _, _⟩ := create_ok made
  exact ⟨fun level => by simpa [clocks, span] using div_nonneg bound (positive level).le, fun _ busy => absurd rfl busy⟩

/-- Worker-time share. In every reachable state the clock of a level that is not empty lies between
the floor and one largest charge above it; while two levels stay non-empty the work charged to
them, over their weights, differs by at most one largest charge of each; and a pull finds a
message whenever there is one. -/
theorem worker_time_share {numLevels : Nat} {aging : Option AgingConfig} {weights : List Nat} {q : MultiLevelQueue}
    {start : Time} {limit : ℚ} {operations : List Operation} {s : Clocked}
    (made : create numLevels aging .weightedTime (some weights) = .ok q) (bound : 1 ≤ limit)
    (charges : Along Clocked.step (Clocked.ChargesUpTo limit) operations ⟨q, start⟩)
    (ran : run Clocked.step operations ⟨q, start⟩ = some s) :
    (∀ level, s.queue.queues level ≠ [] → s.queue.vfloor ≤ s.queue.vclock level ∧
      s.queue.vclock level ≤ s.queue.vfloor + limit / q.weight level) ∧
    (∀ stretch t, Along Clocked.step (Clocked.ChargesUpTo limit) stretch s → run Clocked.step stretch s = some t →
      ∀ i j, Along Clocked.step (fun u _ => u.queue.queues i ≠ [] ∧ u.queue.queues j ≠ []) stretch s →
        t.queue.queues i ≠ [] → t.queue.queues j ≠ [] →
        |Clocked.bill i stretch s / q.weight i - Clocked.bill j stretch s / q.weight j| ≤
          limit / q.weight i + limit / q.weight j) ∧
    ∀ cost level, s.queue.queues level ≠ [] → (s.queue.dequeueLocked cost).isSome := by
  have positive := create_weight made
  have valid := (run_valid made ran).1
  have nonneg : 0 ≤ limit := by linarith
  have weighted : q.weights.isSome = true := by
    obtain ⟨rfl, _, _⟩ := create_ok made
    rfl
  obtain ⟨shared, weights, _⟩ := run_accounts (s := ⟨q, start⟩) (create_valid made start) weighted positive nonneg
    (create_shared made nonneg) charges ran
  have weight := weight_congr weights
  refine ⟨fun level busy => ⟨shared.lower level busy, ?_⟩, fun stretch t within later i j both first second => ?_,
    fun cost level busy => ?_⟩
  · have upper := shared.upper level
    rwa [span, weight] at upper
  · obtain ⟨after, kept, totals⟩ := run_accounts valid (weights ▸ weighted) (weight ▸ positive) nonneg shared within later
    have busyI : Along Clocked.step (fun u _ => u.queue.Busy i) stretch s := both.imp fun _ _ busy => busy.1
    have busyJ : Along Clocked.step (fun u _ => u.queue.Busy j) stretch s := both.imp fun _ _ busy => busy.2
    have same : span limit t.queue = span limit s.queue := by
      funext level
      rw [span, weight_congr kept, span]
    rw [Shared, same] at after
    have drift := shared.drift after (busyI.start (·.queue.Busy i) later first)
      (busyJ.start (·.queue.Busy j) later second) first second
    have movedI : t.queue.vclock i - s.queue.vclock i = Clocked.bill i stretch s / q.weight i := by
      rw [(totals i).2 busyI, weight, add_sub_cancel_left]
    have movedJ : t.queue.vclock j - s.queue.vclock j = Clocked.bill j stretch s / q.weight j := by
      rw [(totals j).2 busyJ, weight, add_sub_cancel_left]
    rw [← movedI, ← movedJ]
    rwa [span, span, weight] at drift
  · obtain ⟨node, member⟩ := List.exists_mem_of_ne_nil _ busy
    exact dequeueLocked_isSome cost (weights ▸ weighted) (valid.structured.level_lt member) busy

/-- Three messages for each of two levels. -/
def backlog : List Operation :=
  List.flatten <| List.replicate 3
    [.enqueue (fun _ => some 4) { id := [0], priority := 0 } 0, .enqueue (fun _ => some 4) { id := [1] } 0]

def threePulls : List Operation := List.replicate 3 (.dequeue fun _ => some 4)

/-- With weights 2 and 1 two of the three pulls go to the first level. -/
theorem worker_time_share_two_levels : ∃ q s t, create 2 none .weightedTime (some [2, 1]) = .ok q ∧
    run Clocked.step backlog ⟨q, 0⟩ = some s ∧ run Clocked.step threePulls s = some t ∧
    Clocked.bill 0 threePulls s = 8 ∧
    |Clocked.bill 0 threePulls s / q.weight 0 - Clocked.bill 1 threePulls s / q.weight 1| ≤
      4 / q.weight 0 + 4 / q.weight 1 := by
  have made : create 2 none .weightedTime (some [2, 1]) = .ok _ := rfl
  have ran : run Clocked.step backlog
    ⟨{ numLevels := 2, selection := .weightedTime, aging := none, weights := some [2, 1] }, 0⟩ = some _ := rfl
  have four : ∀ msg, chargeLocked (fun _ => some 4) msg ≤ 4 := fun msg => by
    change max (4 : ℚ) 1 ≤ 4
    norm_num
  have placed : Along Clocked.step (Clocked.ChargesUpTo 4) backlog
      ⟨{ numLevels := 2, selection := .weightedTime, aging := none, weights := some [2, 1] }, 0⟩ :=
    .of_mem (fun operation member s => by
      simp only [backlog, List.replicate, List.flatten, List.append_eq, List.cons_append, List.nil_append,
        List.mem_cons, List.not_mem_nil, or_false] at member
      rcases member with rfl | rfl | rfl | rfl | rfl | rfl <;> trivial) _
  have pulled : ∀ s, Along Clocked.step (Clocked.ChargesUpTo 4) threePulls s :=
    .of_mem fun operation member s => by
      obtain rfl := List.eq_of_mem_replicate member
      exact fun msg _ _ => four msg
  have share := (worker_time_share made (by norm_num) placed ran).2.1 threePulls _ (pulled _) rfl 0 1
    (by decide +kernel) (by decide +kernel) (by decide +kernel)
  exact ⟨_, _, _, made, ran, rfl, by decide +kernel, share⟩

end Harbinger.MultiLevelQueue
