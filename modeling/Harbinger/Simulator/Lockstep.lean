import Harbinger.Queue.FullScan
import Harbinger.Queue.Share
import Harbinger.Simulator.Basic

/-! The queue of the broker against the simulator. What the simulator keeps of a queue is a view
of it, and every operation on messages without TTL commutes with the view. -/

namespace Harbinger.Simulator
open MultiLevelQueue Transition

/-- A clock reading in milliseconds. -/
def millis (time : Time) : ℚ := (time : ℚ) / 1000000

def waiting (node : Node) : Waiting Message :=
  ⟨node.message.frozen, millis node.message.enqueueTime, node.message.isPromoted⟩

/-- What the simulator keeps of the state of the queue. -/
@[simps] def view (q : MultiLevelQueue) : Levels Message where
  queues level := (q.queues level).map waiting
  promotedIn := q.promotedIn
  vclock := q.vclock
  vfloor := q.vfloor

/-- The arguments of `simulate` for the parameters of the queue. -/
def settingOf (q : MultiLevelQueue) : Setting Message where
  levels := q.numLevels
  threshold := (q.aging.map AgingConfig.threshold).getD 0
  policy := {
    weights := (q.weights.getD []).map fun weight : Nat => (weight : ℚ)
    aging := q.aging.isSome
    pausing := q.aging.any pausing }
  arrival := fun msg => millis msg.arrivalTime

theorem settingOf_congr {q q' : MultiLevelQueue} (same : q'.params = q.params) : settingOf q' = settingOf q := by
  simp only [params, Prod.mk.injEq] at same
  simp only [settingOf, same]

theorem millis_mono {first second : Time} (order : first ≤ second) : millis first ≤ millis second :=
  div_le_div_of_nonneg_right (Int.cast_le.mpr order) (by norm_num)

theorem threshold_le_iff (threshold : Millis) (now since : Time) :
    (threshold : ℚ) ≤ millis now - millis since ↔ since + Clock.ofMillis threshold ≤ now := by
  have span : millis now - millis since = ((now - since : Int) : ℚ) / 1000000 := by
    rw [millis, millis, Int.cast_sub]
    ring
  have scaled : (threshold : ℚ) * 1000000 = ((Clock.ofMillis threshold : Int) : ℚ) := by
    rw [Clock.ofMillis, Int.cast_mul]
    norm_num
  rw [span, le_div_iff₀ (by norm_num), scaled, Int.cast_le]
  constructor
  · intro late
    linarith
  · intro late
    linarith

section Parameters
variable {q : MultiLevelQueue}

/-- The weights name every level, if there are any. -/
def Sized (q : MultiLevelQueue) : Prop := ∀ weights, q.weights = some weights → weights ≠ []

theorem weighted_settingOf (sized : Sized q) : (settingOf q).policy.weighted = q.weights.isSome := by
  unfold settingOf Policy.weighted
  cases weights : q.weights with
  | none => rfl
  | some list =>
    have filled := sized list weights
    cases list with
    | nil => exact (filled rfl).elim
    | cons first rest => rfl

theorem weight_settingOf (level : Nat) :
    (settingOf q).policy.weights.getD level 1 = q.weight level := by
  have mapped : ((q.weights.getD []).map fun weight : Nat => (weight : ℚ)).getD level ((1 : Nat) : ℚ) = q.weight level :=
    List.getD_map (q.weights.getD []) 1 fun weight : Nat => (weight : ℚ)
  rw [Nat.cast_one] at mapped
  exact mapped

end Parameters

section Moves
variable {q : MultiLevelQueue} {level : Nat} {node : Node} {rest : List Node}

theorem view_noteAgingDeadline (enqueued : Time) : view (q.noteAgingDeadline level enqueued) = view q := by
  obtain ⟨cache, same⟩ := noteAgingDeadline_eq q level enqueued
  rw [same]
  rfl

theorem update_toNat (counts : Nat → Nat) (level : Nat) (promoted : Bool) :
    (if promoted then Function.update counts level (counts level - 1) else counts) =
      Function.update counts level (counts level - promoted.toNat) := by
  cases promoted with
  | false => exact (Function.update_eq_self level counts).symm
  | true => rfl

theorem map_update {α β : Type} (f : α → β) (lists : Nat → List α) (level : Nat) (list : List α) :
    (fun other => (Function.update lists level list other).map f) =
      Function.update (fun other => (lists other).map f) level (list.map f) := by
  funext other
  by_cases same : other = level
  · subst same
    rw [Function.update_self, Function.update_self]
  · rw [Function.update_of_ne same, Function.update_of_ne same]

theorem view_removeLocked (here : q.queues level = node :: rest) :
    view (q.removeLocked level node) = (view q).pop level (waiting node) (rest.map waiting) := by
  have remaining : (q.queues level).eraseP (fun other => other.handle = node.handle) = rest := by
    rw [here, List.eraseP_cons_of_pos (by simp)]
  refine Levels.ext ?_ ?_ rfl rfl
  · simp only [view, removeLocked, remaining, map_update]
    rfl
  · exact update_toNat q.promotedIn level node.message.isPromoted

theorem queues_linkNode {msg : Message} (unpromoted : msg.isPromoted = false) :
    (view (q.linkNode msg false)).queues = Function.update (view q).queues msg.priority
      ((view q).queues msg.priority ++ [⟨msg.frozen, millis msg.enqueueTime, false⟩]) := by
  simp only [view, linkNode, map_update, Bool.false_eq_true, ↓reduceIte, List.map_append]
  rw [← unpromoted]
  rfl

theorem view_activate (active : Bool) (level : Nat) :
    view (if active then q.activateLocked level else q) = { view q with
      vclock := (if active then Function.update q.vclock level (max (q.vclock level) q.vfloor) else q.vclock) } := by
  cases active <;> rfl

theorem view_placeShare (cost : CostFunction) (msg : Message) (wasEmpty : Bool) :
    view (q.placeShare cost msg wasEmpty false) = { view q with
      vclock := (if q.weights.isSome && wasEmpty
        then Function.update q.vclock msg.priority (max (q.vclock msg.priority) q.vfloor) else q.vclock) } := by
  cases weights : q.weights <;> cases wasEmpty <;> simp [placeShare, weights] <;> rfl

theorem vclock_settingOf (sized : Sized q) (level : Nat) (clock : Nat → ℚ) :
    (if (settingOf q).policy.weighted && ((view q).queues level).isEmpty then clock
      else q.vclock) = if q.weights.isSome && (q.queues level).isEmpty then clock else q.vclock := by
  rw [weighted_settingOf sized, view_queues, List.isEmpty_map]

theorem view_placed (sized : Sized q) (cost : CostFunction) {msg : Message} (unpromoted : msg.isPromoted = false) :
    view (((q.linkNode msg false).noteAgingDeadline msg.priority msg.enqueueTime).placeShare cost msg
      (q.queues msg.priority).isEmpty false) = (view q).place (settingOf q).policy
        msg.priority ⟨msg.frozen, millis msg.enqueueTime, false⟩ := by
  obtain ⟨cache, same⟩ := noteAgingDeadline_eq (q.linkNode msg false) msg.priority msg.enqueueTime
  have counts : (q.linkNode msg false).promotedIn = Function.update q.promotedIn msg.priority (q.promotedIn msg.priority) := by
    rw [Function.update_eq_self, linkNode, unpromoted]
    rfl
  rw [same, view_placeShare]
  refine Levels.ext ?_ ?_ ?_ rfl
  · exact queues_linkNode unpromoted
  · exact counts
  · exact (vclock_settingOf sized msg.priority _).symm

theorem view_enqueue (sized : Sized q) {cost : CostFunction} {msg : Message} (native : msg.priority = msg.originalPriority)
    {now : Time} {q' : MultiLevelQueue} (placed : q.enqueue cost msg now = some q') :
    view q' = (view q).place (settingOf q).policy msg.priority
      ⟨msg.frozen, millis now, false⟩ := by
  have unpromoted : ({ msg with enqueueTime := now } : Message).isPromoted = false := by
    simp only [Message.isPromoted, native, lt_irrefl, decide_false]
  simp only [enqueue, placeMessage, Bool.false_eq_true, ↓reduceIte, Option.ite_none_left_eq_some] at placed
  rw [← Option.some.inj placed.2]
  exact view_placed sized cost unpromoted

/-- A promotion of the head of a level is the step of the simulator's loop. -/
theorem view_promote (sized : Sized q) (structured : q.Structured) (positive : 1 ≤ level)
    (here : q.queues level = node :: rest) (now : Time) :
    view (q.promote level node now) = ((view q).pop level (waiting node) (rest.map waiting)).place
      (settingOf q).policy (level - 1)
      { waiting node with placed := millis now, promoted := true } := by
  have different : level - 1 ≠ level := by omega
  have member : node ∈ q.queues level := here ▸ List.mem_cons_self ..
  have promoted : (promotedNode node level now).message.isPromoted = true := by
    have own := structured.priority level node member
    have native := structured.native level node member
    exact decide_eq_true (show level - 1 < node.message.originalPriority by omega)
  have remaining : (q.queues level).eraseP (fun other => other.handle = node.handle) = rest := by
    rw [here, List.eraseP_cons_of_pos (by simp)]
  have queues : (view (q.splice level node now)).queues =
      Function.update (Function.update (view q).queues level (rest.map waiting)) (level - 1)
        ((view q).queues (level - 1) ++ [{ waiting node with placed := millis now, promoted := true }]) := by
    rw [← promoted]
    simp only [view, splice, remaining, map_update, List.map_append]
    rfl
  have counts : (q.splice level node now).promotedIn =
      Function.update (Function.update q.promotedIn level (q.promotedIn level - node.message.isPromoted.toNat)) (level - 1)
        (q.promotedIn (level - 1) + 1) := by
    simp only [splice, update_toNat, Function.update_of_ne different]
  have above : (((view q).pop level (waiting node) (rest.map waiting)).queues (level - 1)).isEmpty =
      ((view q).queues (level - 1)).isEmpty := by
    rw [Levels.pop_queues, Function.update_of_ne different]
  rw [promote, view_noteAgingDeadline, view_activate]
  refine Levels.ext ?_ ?_ ?_ rfl
  · funext other
    rw [queues, Levels.place_queues, Levels.pop_queues, Function.update_of_ne different]
    rfl
  · funext other
    refine (congrFun counts other).trans ?_
    rw [Levels.place_promotedIn, Levels.pop_promotedIn, Function.update_of_ne different]
    rfl
  · funext other
    rw [Levels.place_vclock, above]
    exact congrFun (vclock_settingOf sized (level - 1) _).symm other

/-- A dispatch takes the same message and charges the same clock. -/
theorem view_dequeueLocked (sized : Sized q) (other : q.selection ≠ .roundRobin) (cost : ℚ) :
    (q.dequeueLocked fun _ => some cost).map (fun taken => (taken.1.frozen, view taken.2)) =
      ((view q).dispatch (settingOf q) cost).map fun taken => (taken.1.index, taken.2) := by
  unfold dequeueLocked Levels.dispatch
  rw [weighted_settingOf sized]
  cases weighted : q.weights.isSome with
  | true =>
    have best : (view q).best (settingOf q).levels = q.bestLevel := by
      simp only [Levels.best, bestLevel, view_queues, List.isEmpty_map]
      rfl
    simp only [↓reduceIte, best]
    cases q.bestLevel with
    | none => rfl
    | some level =>
      simp only [view_queues]
      cases here : q.queues level with
      | nil => rfl
      | cons node rest =>
        have taken : view ((q.chargePull level (chargeLocked (fun _ => some cost) node.message)).removeLocked level node) =
            { (view q).pop level (waiting node) (rest.map waiting) with
              vfloor := max (view q).vfloor ((view q).vclock level)
              vclock := (Function.update (view q).vclock level ((view q).vclock level +
                max cost 1 / (settingOf q).policy.weights.getD level 1)) } := by
          rw [weight_settingOf]
          have charged : (q.chargePull level (chargeLocked (fun _ => some cost) node.message)).queues level = node :: rest :=
            here
          exact (view_removeLocked charged).trans rfl
        simp only [List.map_cons, Option.map_some, taken]
        rfl
  | false =>
    have scan : q.scanLevel = (List.range q.numLevels).find? fun level => !((view q).queues level).isEmpty := by
      simp only [scanLevel, if_neg other, List.map_id', view_queues, List.isEmpty_map]
    have levels : (settingOf q).levels = q.numLevels := rfl
    simp only [Bool.false_eq_true, ↓reduceIte, levels, ← scan]
    cases q.scanLevel with
    | none => rfl
    | some level =>
      simp only [view_queues]
      cases here : q.queues level with
      | nil => rfl
      | cons node rest =>
        have plain : (q.removeLocked level node).selection ≠ .roundRobin := other
        simp only [List.map_cons, Option.map_some, if_neg plain, view_removeLocked here]
        rfl

end Moves

section Aging
variable {q : MultiLevelQueue} {cfg : AgingConfig} {now : Time} {reading : Nat → Time} {level : Nat} {dueBefore : Time}

theorem not_isExpired {msg : Message} (untimed : msg.ttl ≤ 0) (now : Time) : ¬msg.isExpired now :=
  fun expired => absurd expired.1 (not_lt.mpr untimed)

theorem view_ageScan_early {todo : List Node} (untimed : ∀ node ∈ todo, node.message.ttl ≤ 0)
    (early : ∀ node ∈ todo, ¬∃ due ∈ agingDeadline cfg node.message.enqueueTime, due ≤ now) (visited : Nat) :
    view (ageScan cfg now reading level dueBefore todo (q, visited)).1 = view q := by
  induction todo generalizing q visited with
  | nil => rfl
  | cons node rest ih =>
    obtain ⟨live, untimed⟩ := List.forall_mem_cons.mp untimed
    obtain ⟨notDue, early⟩ := List.forall_mem_cons.mp early
    rw [ageScan, if_neg (not_isExpired live _), if_neg notDue, ih untimed early, view_noteAgingDeadline]

theorem due_iff (aging : q.aging = some cfg) (range : now ≤ Clock.max) (short : cfg.threshold < Clock.maxMs) (node : Node) :
    (settingOf q).threshold ≤ millis now - (waiting node).placed ↔
      ∃ due ∈ agingDeadline cfg node.message.enqueueTime, due ≤ now := by
  have threshold : (settingOf q).threshold = cfg.threshold := by
    rw [settingOf, aging]
    rfl
  have placed : (waiting node).placed = millis node.message.enqueueTime := rfl
  rw [threshold, placed, threshold_le_iff, deadline_passed_iff cfg range, and_iff_right short]

/-- The scan of a sorted level promotes what the loop over its front promotes. -/
theorem view_ageScan (range : now ≤ Clock.max) (short : cfg.threshold < Clock.maxMs) (positive : 1 ≤ level)
    {todo : List Node} (sized : Sized q) (structured : q.Structured) (aging : q.aging = some cfg)
    (here : q.queues level = todo) (untimed : ∀ node ∈ todo, node.message.ttl ≤ 0)
    (sorted : todo.Pairwise fun first second => first.message.enqueueTime ≤ second.message.enqueueTime) (visited : Nat) :
    view (ageScan cfg now reading level dueBefore todo (q, visited)).1 =
      Levels.ageHead (settingOf q) (millis now) level (todo.map waiting) (view q) := by
  induction todo generalizing q visited with
  | nil => rfl
  | cons node rest ih =>
    have member : node ∈ q.queues level := here ▸ List.mem_cons_self ..
    have pauses : (settingOf q).policy.pausing = pausing cfg := by
      rw [settingOf, aging]
      rfl
    obtain ⟨live, untimed⟩ := List.forall_mem_cons.mp untimed
    obtain ⟨first, sorted⟩ := List.pairwise_cons.mp sorted
    by_cases due : ∃ due ∈ agingDeadline cfg node.message.enqueueTime, due ≤ now
    · rw [ageScan, if_neg (not_isExpired live _), if_pos due, List.map_cons, Levels.ageHead,
        if_pos ((due_iff aging range short node).mpr due), pauses, ← view_promote sized structured positive here now]
      dsimp only
      split
      · rfl
      · have params := promote_params q level node now
        have next : (q.promote level node now).queues level = rest :=
          @promote_level q node now level [] rest structured positive here
        rw [← settingOf_congr params]
        refine ih ?_ (structured.promote positive member now) ((promote_aging q level node now).trans aging) next untimed
          sorted _
        exact fun weights known => sized weights ((congrArg (fun params => params.2.2.2) params).symm.trans known)
    · have early : ∀ other ∈ node :: rest, ¬∃ due ∈ agingDeadline cfg other.message.enqueueTime, due ≤ now := by
        refine List.forall_mem_cons.mpr ⟨due, fun other behind late => due ?_⟩
        rw [deadline_passed_iff cfg range] at late ⊢
        exact ⟨late.1, (add_le_add_left (first other behind) _).trans late.2⟩
      rw [view_ageScan_early (List.forall_mem_cons.mpr ⟨live, untimed⟩) early, List.map_cons, Levels.ageHead,
        if_neg (mt (due_iff aging range short node).mp due)]

/-- No message has a TTL, and every level is sorted by the times of placement. -/
structure Untimed (now : Time) (q : MultiLevelQueue) : Prop where
  ttl : ∀ msg ∈ q.messages, msg.ttl ≤ 0
  timely : (view q).Timely (millis now)

theorem Untimed.sorted (untimed : Untimed now q) (level : Nat) :
    (q.queues level).Pairwise fun first second => first.message.enqueueTime ≤ second.message.enqueueTime := by
  refine (List.pairwise_map.mp (untimed.timely.sorted level)).imp fun {first second} order => ?_
  by_contra later
  have strict : millis second.message.enqueueTime < millis first.message.enqueueTime :=
    div_lt_div_of_pos_right (Int.cast_lt.mpr (not_le.mp later)) (by norm_num)
  exact absurd order (not_le.mpr strict)

theorem Untimed.ttl_at (untimed : Untimed now q) (structured : q.Structured) (level : Nat) :
    ∀ node ∈ q.queues level, node.message.ttl ≤ 0 :=
  fun node member => untimed.ttl node.message (List.mem_map_of_mem (structured.mem_nodes member))

theorem behind_view (aging : q.aging = some cfg) (level : Nat) (now : Time) :
    (view q).behind (settingOf q) level (millis now) = q.pausedLocked cfg level now := by
  have pauses : (settingOf q).policy.pausing = pausing cfg := by
    rw [settingOf, aging]
    rfl
  have threshold : (settingOf q).threshold = cfg.threshold := by
    rw [settingOf, aging]
    rfl
  unfold Levels.behind pausedLocked
  rw [pauses, threshold, view_queues]
  cases q.queues (level - 1) with
  | nil => rfl
  | cons head rest =>
    have arrival : (settingOf q).arrival (waiting head).index = millis head.message.arrivalTime := rfl
    have waited : head.message.arrivalTime + Clock.ofMillis cfg.threshold ≤ now ↔
        Clock.ofMillis cfg.threshold ≤ now - head.message.arrivalTime := by
      constructor <;> intro late <;> linarith
    simp only [List.map_cons, arrival, threshold_le_iff, waited]
    rfl

theorem ageHead_early (aging : q.aging = some cfg) (range : now ≤ Clock.max) (short : cfg.threshold < Clock.maxMs)
    {todo : List Node} (early : ∀ node ∈ todo, ¬∃ due ∈ agingDeadline cfg node.message.enqueueTime, due ≤ now)
    (s : Levels Message) : Levels.ageHead (settingOf q) (millis now) level (todo.map waiting) s = s := by
  cases todo with
  | nil => rfl
  | cons node rest =>
    have notDue := early node (List.mem_cons_self ..)
    rw [List.map_cons, Levels.ageHead, if_neg (mt (due_iff aging range short node).mp notDue)]

theorem view_ageLevel (range : now ≤ Clock.max) (short : cfg.threshold < Clock.maxMs) (positive : 1 ≤ level)
    (sized : Sized q) (valid : q.Valid now) (aging : q.aging = some cfg) (untimed : Untimed now q) (visited : Nat) :
    view (ageLevel cfg now (fun _ => now) level (q, visited)).1 =
      (view q).ageLevel (settingOf q) (millis now) level := by
  have skipped : (∀ cached, q.nextAging level = some cached → now < cached) →
      view q = (view q).ageLevel (settingOf q) (millis now) level := by
    intro cache
    have early : ∀ node ∈ q.queues level, ¬∃ due ∈ agingDeadline cfg node.message.enqueueTime, due ≤ now := by
      intro node member due
      have idle := skipped_early range valid.due aging positive cache node.message (List.mem_map_of_mem member)
      have late := (overdue_iff cfg range node.message).mpr ⟨not_isExpired (untimed.ttl_at valid.structured level node member) now, due⟩
      exact Bool.false_ne_true (idle.symm.trans late)
    unfold Levels.ageLevel
    split
    · rfl
    · exact (ageHead_early aging range short early (view q)).symm
  simp only [ageLevel]
  split
  next missing =>
    refine skipped fun cached known => ?_
    rw [missing] at known
    cases known
  next dueBefore cached =>
    split
    next ahead =>
      refine skipped fun held known => ?_
      rw [cached] at known
      exact Option.some.inj known ▸ ahead
    next =>
      unfold Levels.ageLevel
      rw [behind_view aging]
      split
      · rfl
      · have reset : (({ q with nextAging := Function.update q.nextAging level none } : MultiLevelQueue)).Structured :=
          valid.structured.of_core rfl
        exact view_ageScan range short positive (q := { q with nextAging := Function.update q.nextAging level none })
          sized reset aging rfl (untimed.ttl_at valid.structured level) (untimed.sorted level) visited

theorem Sized.congr {q' : MultiLevelQueue} (sized : Sized q) (same : q'.params = q.params) : Sized q' :=
  fun weights known => sized weights ((congrArg (fun params => params.2.2.2) same).symm.trans known)

theorem ttl_of_perm {q' : MultiLevelQueue} (same : (q'.messages.map Message.frozen).Perm (q.messages.map Message.frozen))
    (ttl : ∀ msg ∈ q.messages, msg.ttl ≤ 0) : ∀ msg ∈ q'.messages, msg.ttl ≤ 0 := by
  intro msg member
  obtain ⟨old, known, frozen⟩ := List.mem_map.mp (same.mem_iff.mp (List.mem_map_of_mem member))
  have equal : old.ttl = msg.ttl := show old.frozen.ttl = msg.frozen.ttl by rw [frozen]
  exact equal ▸ ttl old known

theorem view_ageLevels (range : now ≤ Clock.max) (short : cfg.threshold < Clock.maxMs) (level : Nat)
    {q : MultiLevelQueue} (sized : Sized q) (valid : q.Valid now) (aging : q.aging = some cfg) (untimed : Untimed now q)
    (visited : Nat) :
    view (ageLevels cfg now (fun _ => now) level (q, visited)).1 = (view q).ageLevels (settingOf q) (millis now) level := by
  induction level generalizing q visited with
  | zero => rfl
  | succ level ih =>
    have positive := Nat.succ_pos level
    have first := view_ageLevel range short positive sized valid aging untimed visited
    obtain ⟨kept, params, same⟩ := ageLevel_kept now (fun _ => le_refl now) positive valid aging visited
    have config := (congrArg (fun params => params.2.2.1) params).trans aging
    have still : Untimed now (ageLevel cfg now (fun _ => now) (level + 1) (q, visited)).1 := by
      refine ⟨ttl_of_perm same untimed.ttl, ?_⟩
      rw [first]
      exact untimed.timely.ageLevel positive
    rw [ageLevels, Levels.ageLevels, ← first, ← settingOf_congr params]
    exact ih (sized.congr params) kept config still _

theorem view_ageOnceLocked (range : now ≤ Clock.max) (short : ∀ cfg, q.aging = some cfg → cfg.threshold < Clock.maxMs)
    (sized : Sized q) (valid : q.Valid now) (untimed : Untimed now q) :
    view (q.ageOnceLocked now fun _ => now).1 = (view q).age (settingOf q) (millis now) := by
  have enabled : (settingOf q).policy.aging = q.aging.isSome := rfl
  unfold ageOnceLocked Levels.age
  rw [enabled]
  cases aging : q.aging with
  | none => rfl
  | some cfg => exact view_ageLevels range (short cfg aging) (q.numLevels - 1) sized valid aging untimed 0

end Aging

/-- What happens next on both sides. -/
inductive Turn where
  | wait (now : Time)
  | place (msg : Message)
  | age
  | dispatch (cost : ℚ)

/-- The queue of the broker, its clock and what it has dispatched. -/
structure BrokerLane where
  queue : MultiLevelQueue
  now : Time
  served : List Message := []

/-- Times do not go back, and a message has no TTL and enters at the level that it was routed to. -/
def BrokerLane.step (s : BrokerLane) : Turn → Option BrokerLane
  | .wait now => if s.now ≤ now ∧ now ≤ Clock.max then some { s with now } else none
  | .place msg =>
    if msg.priority = msg.originalPriority ∧ msg.ttl ≤ 0 then
      (s.queue.enqueue (fun _ => none) msg s.now).map fun queue => { s with queue }
    else none
  | .age => some { s with queue := (s.queue.ageOnceLocked s.now fun _ => s.now).1 }
  | .dispatch cost =>
    match s.queue.dequeueLocked fun _ => some cost with
    | none => some s
    | some (msg, queue) => some { s with queue, served := s.served ++ [msg] }

/-- The levels of the simulator, its time and the rows that it has dispatched. -/
@[ext] structure Lane where
  levels : Levels Message := {}
  now : ℚ
  served : List Message := []

def Lane.step (setting : Setting Message) (s : Lane) : Turn → Lane
  | .wait now => { s with now := millis now }
  | .place msg => { s with levels := s.levels.place setting.policy msg.priority ⟨msg.frozen, s.now, false⟩ }
  | .age => { s with levels := s.levels.age setting s.now }
  | .dispatch cost =>
    match s.levels.dispatch setting cost with
    | none => s
    | some (w, levels) => { s with levels, served := s.served ++ [w.index] }

def BrokerLane.view (s : BrokerLane) : Lane := ⟨Simulator.view s.queue, millis s.now, s.served.map Message.frozen⟩

/-- What holds of the broker along a run. -/
structure BrokerLane.Ready (s : BrokerLane) : Prop where
  range : s.now ≤ Clock.max
  valid : s.queue.Valid s.now
  sized : Sized s.queue
  selection : s.queue.selection ≠ .roundRobin
  short : ∀ cfg, s.queue.aging = some cfg → cfg.threshold < Clock.maxMs
  untimed : Untimed s.now s.queue

namespace BrokerLane
variable {s next : BrokerLane} {turn : Turn}

theorem Ready.keep (ready : s.Ready) {q : MultiLevelQueue} (valid : q.Valid s.now) (params : q.params = s.queue.params)
    (untimed : Untimed s.now q) (served : List Message) : Ready ⟨q, s.now, served⟩ where
  range := ready.range
  valid
  sized := ready.sized.congr params
  selection := fun known => ready.selection ((congrArg (fun params => params.2.1) params).symm.trans known)
  short := fun cfg known => ready.short cfg ((congrArg (fun params => params.2.2.1) params).symm.trans known)
  untimed

theorem Untimed.of_view {now : Time} {q' : MultiLevelQueue} {levels : Levels Message} (seen : Simulator.view q' = levels)
    (timely : levels.Timely (millis now)) (ttl : ∀ msg ∈ q'.messages, msg.ttl ≤ 0) : Untimed now q' :=
  ⟨ttl, seen ▸ timely⟩

theorem step_wait {now : Time} (ready : s.Ready) (moved : s.step (.wait now) = some next) :
    next.view = s.view.step (settingOf s.queue) (.wait now) ∧ next.Ready ∧ next.queue.params = s.queue.params := by
  obtain ⟨⟨order, range⟩, rfl⟩ := Option.ite_none_right_eq_some.mp moved |>.imp_right Option.some.inj
  have later := ready.valid.mono order
  have timely := ready.untimed.timely.mono (millis_mono order)
  exact ⟨rfl, ⟨range, later, ready.sized, ready.selection, ready.short, ready.untimed.ttl, timely⟩, rfl⟩

theorem step_place {msg : Message} (ready : s.Ready) (moved : s.step (.place msg) = some next) :
    next.view = s.view.step (settingOf s.queue) (.place msg) ∧ next.Ready ∧ next.queue.params = s.queue.params := by
  obtain ⟨⟨native, ttl⟩, moved⟩ := Option.ite_none_right_eq_some.mp moved
  obtain ⟨q, placed, rfl⟩ := Option.map_eq_some_iff.mp moved
  have seen := view_enqueue ready.sized native placed
  obtain ⟨valid, params, messages⟩ := placeMessage_spec ready.valid native.le placed
  have untimed : Untimed s.now q := by
    apply Untimed.of_view seen (ready.untimed.timely.place rfl)
    intro other member
    rcases List.mem_cons.mp (messages.mem_iff.mp member) with rfl | old
    · exact ttl
    · exact ready.untimed.ttl other old
  refine ⟨?_, ready.keep valid params untimed s.served, params⟩
  simp only [BrokerLane.view, Lane.step, seen]

theorem step_age (ready : s.Ready) (moved : s.step .age = some next) :
    next.view = s.view.step (settingOf s.queue) .age ∧ next.Ready ∧ next.queue.params = s.queue.params := by
  obtain rfl := Option.some.inj moved
  have seen := view_ageOnceLocked ready.range ready.short ready.sized ready.valid ready.untimed
  obtain ⟨valid, params, messages⟩ := ageOnceLocked_spec s.now (fun _ => le_refl s.now) ready.valid
  have untimed := Untimed.of_view seen ready.untimed.timely.age (ttl_of_perm messages ready.untimed.ttl)
  refine ⟨?_, ready.keep valid params untimed s.served, params⟩
  simp only [BrokerLane.view, Lane.step, seen]

theorem step_dispatch {cost : ℚ} (ready : s.Ready) (moved : s.step (.dispatch cost) = some next) :
    next.view = s.view.step (settingOf s.queue) (.dispatch cost) ∧ next.Ready ∧ next.queue.params = s.queue.params := by
  have seen := view_dequeueLocked ready.sized ready.selection cost
  unfold BrokerLane.step at moved
  cases taken : s.queue.dequeueLocked fun _ => some cost with
  | none =>
    simp only [taken, Option.some.injEq] at moved
    subst moved
    have empty := Option.map_eq_none_iff.mp (seen.symm.trans (congrArg _ taken))
    refine ⟨?_, ready, rfl⟩
    simp only [Lane.step, BrokerLane.view, empty]
  | some result =>
    obtain ⟨msg, q⟩ := result
    simp only [taken, Option.some.injEq] at moved
    subst moved
    obtain ⟨⟨w, levels⟩, dispatched, same⟩ := Option.map_eq_some_iff.mp (seen.symm.trans (congrArg _ taken))
    obtain ⟨index, rfl⟩ := Prod.mk.inj same
    have index : w.index = msg.frozen := index
    obtain ⟨valid, params, messages⟩ := dequeueLocked_spec ready.valid taken
    have untimed : Untimed s.now q := by
      refine Untimed.of_view rfl (ready.untimed.timely.dispatch dispatched) ?_
      exact fun other member => ready.untimed.ttl other (messages.mem_iff.mpr (List.mem_cons_of_mem _ member))
    refine ⟨?_, ready.keep valid params untimed _, params⟩
    simp only [Lane.step, BrokerLane.view, dispatched, List.map_append, List.map_cons, List.map_nil, index]

theorem step_view (ready : s.Ready) (moved : s.step turn = some next) :
    next.view = s.view.step (settingOf s.queue) turn ∧ next.Ready ∧ next.queue.params = s.queue.params := by
  cases turn with
  | wait now => exact step_wait ready moved
  | place msg => exact step_place ready moved
  | age => exact step_age ready moved
  | dispatch cost => exact step_dispatch ready moved

theorem run_view {turns : List Turn} (ready : s.Ready) (ran : run BrokerLane.step turns s = some next) :
    next.view = turns.foldl (Lane.step (settingOf s.queue)) s.view := by
  induction turns generalizing s with
  | nil =>
    obtain rfl := Option.some.inj ran
    rfl
  | cons turn rest ih =>
    obtain ⟨middle, moved, ran⟩ := Option.bind_eq_some_iff.mp ran
    obtain ⟨seen, still, params⟩ := step_view ready moved
    rw [List.foldl_cons, ← seen, ← settingOf_congr params]
    exact ih still ran

end BrokerLane

theorem create_sized {numLevels : Nat} {aging : Option AgingConfig} {selection : QueueSelection}
    {weights : Option (List Nat)} {q : MultiLevelQueue} (made : create numLevels aging selection weights = .ok q) :
    Sized q := by
  obtain ⟨rfl, positive, _⟩ := create_ok made
  rintro list rfl rfl
  unfold create at made
  simp only [bind, Except.bind, pure, Except.pure, throw, throwThe, MonadExceptOf.throw] at made
  repeat' split at made
  all_goals cases made
  all_goals grind

/-- The simulator schedules as the queue of the broker does, if the aging threshold is less than
the longest duration of the clock: the levels hold the same messages in the same order, with the
same promotions, clocks and floor, and the same messages have been dispatched. -/
theorem simulator_lockstep {numLevels : Nat} {aging : Option AgingConfig} {selection : QueueSelection}
    {weights : Option (List Nat)} {q : MultiLevelQueue} {start : Time} {turns : List Turn} {s : BrokerLane}
    (made : create numLevels aging selection weights = .ok q) (other : selection ≠ .roundRobin)
    (short : ∀ cfg, aging = some cfg → cfg.threshold < Clock.maxMs) (range : start ≤ Clock.max)
    (ran : run BrokerLane.step turns ⟨q, start, []⟩ = some s) :
    let sim := turns.foldl (Lane.step (settingOf q)) { now := millis start }
    (∀ level, sim.levels.queues level = (s.queue.queues level).map waiting) ∧
      sim.levels.promotedIn = s.queue.promotedIn ∧ sim.levels.vclock = s.queue.vclock ∧
      sim.levels.vfloor = s.queue.vfloor ∧ sim.now = millis s.now ∧ sim.served = s.served.map Message.frozen := by
  have sized := create_sized made
  have valid := create_valid made start
  obtain ⟨rfl, _, _⟩ := create_ok made
  have untimed : Untimed start { numLevels, selection, aging, weights } := by
    refine ⟨?_, ⟨fun _ => List.Pairwise.nil, fun _ _ member => absurd member List.not_mem_nil⟩⟩
    simp [messages, nodes, Container.concat]
  have seen := BrokerLane.run_view ⟨range, valid, sized, other, short, untimed⟩ ran
  have first : BrokerLane.view ⟨{ numLevels, selection, aging, weights }, start, []⟩ = { now := millis start } := rfl
  rw [first] at seen
  intro sim
  have same : sim = s.view := seen.symm
  rw [same]
  exact ⟨fun _ => rfl, rfl, rfl, rfl, rfl, rfl⟩

/-- Two messages of the lower level, of which the older one is promoted, and one dispatch. -/
def promotion : List Turn :=
  [.wait 0, .place { id := [1] }, .wait 4000000, .place { id := [2] }, .wait 6000000, .age, .dispatch 3]

/-- Weighted levels with pausing aging: the older message is promoted and dispatched. -/
theorem simulator_lockstep_promotion : ∃ q s,
    create 2 (some ⟨5, 1, some true⟩) .weightedTime (some [2, 1]) = .ok q ∧
      run BrokerLane.step promotion ⟨q, 0, []⟩ = some s ∧ (s.queue.queues 1).length = 1 ∧
      s.served.map Message.id = [[1]] ∧
      (promotion.foldl (Lane.step (settingOf q)) { now := millis 0 }).served = s.served.map Message.frozen := by
  have made : create 2 (some ⟨5, 1, some true⟩) .weightedTime (some [2, 1]) = .ok _ := rfl
  have known : (run BrokerLane.step promotion
      ⟨{ numLevels := 2, selection := .weightedTime, aging := some ⟨5, 1, some true⟩, weights := some [2, 1] }, 0, []⟩).map
        (fun s => ((s.queue.queues 1).length, s.served.map Message.id)) = some (1, [[1]]) := by
    decide +kernel
  obtain ⟨s, ran, values⟩ := Option.map_eq_some_iff.mp known
  obtain ⟨one, served⟩ := Prod.mk.inj values
  have short : ∀ cfg, some (⟨5, 1, some true⟩ : AgingConfig) = some cfg → cfg.threshold < Clock.maxMs := by
    rintro _ ⟨⟩
    decide
  have lockstep := simulator_lockstep made (by decide) short (by decide) ran
  exact ⟨_, s, made, ran, one, served, lockstep.2.2.2.2.2⟩

/-- A message that waits for the longest duration of the clock. -/
def longestWait : List Turn := [.place { id := [1] }, .wait 9223372036854000000, .age]

/-- With the longest aging threshold the simulator promotes a message that the broker does not. -/
theorem simulator_promotes_alone : ∃ q s,
    create 2 (some ⟨9223372036854, 1, none⟩) .strictPriority none = .ok q ∧
      run BrokerLane.step longestWait ⟨q, 0, []⟩ = some s ∧ (s.queue.queues 0).length = 0 ∧
      ((longestWait.foldl (Lane.step (settingOf q)) { now := millis 0 }).levels.queues 0).length = 1 := by
  have made : create 2 (some ⟨9223372036854, 1, none⟩) .strictPriority none = .ok _ := rfl
  have known : (run BrokerLane.step longestWait
      ⟨{ numLevels := 2, selection := .strictPriority, aging := some ⟨9223372036854, 1, none⟩, weights := none }, 0, []⟩).map
        (fun s => (s.queue.queues 0).length) = some 0 := by
    decide +kernel
  obtain ⟨s, ran, empty⟩ := Option.map_eq_some_iff.mp known
  exact ⟨_, s, made, ran, empty, by decide +kernel⟩

end Harbinger.Simulator
