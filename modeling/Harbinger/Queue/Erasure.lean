import Harbinger.Queue.Operations

/-! The queue does not look at payloads, headers or routing contexts. Covering them in every
message commutes with every operation, as long as the cost function charges a covered message
the same. -/

namespace Harbinger
open Container

/-- What takes the place of data that the queue does not look at. -/
structure Cover where
  payload : Bytes → Bytes := id
  headers : Ml.Headers → Ml.Headers := id
  context : Option Ml.RoutingContext → Option Ml.RoutingContext := id

def Message.cover (c : Cover) (msg : Message) : Message :=
  { msg with
    payload := c.payload msg.payload
    headers := c.headers msg.headers
    routingContext := c.context msg.routingContext }

/-- The message without its routing context. -/
def Message.bare (msg : Message) : Message := { msg with routingContext := none }

/-- The cover that takes routing contexts away. -/
def Cover.bare : Cover := { context := fun _ => none }

theorem Message.cover_bare : Message.cover .bare = Message.bare := rfl

def Node.cover (c : Cover) (node : Node) : Node := { node with message := node.message.cover c }

namespace MultiLevelQueue

@[simps] def cover (c : Cover) (q : MultiLevelQueue) : MultiLevelQueue :=
  { q with queues := List.map (Node.cover c) ∘ q.queues }

/-- The cost function charges this message as if it were covered. -/
def Neutral (c : Cover) (cost : CostFunction) (msg : Message) : Prop := cost msg = cost (msg.cover c)

theorem Neutral.charge {c : Cover} {cost : CostFunction} {msg : Message} (neutral : Neutral c cost msg) :
    chargeLocked cost (msg.cover c) = chargeLocked cost msg := by
  rw [chargeLocked, chargeLocked, neutral]

variable (c : Cover) (q : MultiLevelQueue) {cost : CostFunction} {msg : Message}

theorem cover_noteAgingDeadline (level : Nat) (enqueued : Time) :
    (q.noteAgingDeadline level enqueued).cover c = (q.cover c).noteAgingDeadline level enqueued := by
  cases aging : q.aging with
  | none => simp only [noteAgingDeadline, cover_aging, aging]
  | some cfg =>
    simp only [noteAgingDeadline, cover_aging, aging]
    split
    · rfl
    · split <;> rfl

theorem cover_linkNode (restoreFront : Bool) :
    (q.linkNode msg restoreFront).cover c = (q.cover c).linkNode (msg.cover c) restoreFront := by
  have queues : List.map (Node.cover c) ∘ (q.linkNode msg restoreFront).queues =
      ((q.cover c).linkNode (msg.cover c) restoreFront).queues := by
    simp only [linkNode, Function.comp_update]
    cases restoreFront
    · simp only [Bool.false_eq_true, ↓reduceIte, List.map_append]
      rfl
    · rfl
  rw [cover, queues]
  rfl

theorem cover_placeShare {wasEmpty restoreFront : Bool} (neutral : restoreFront → q.weights = none ∨ Neutral c cost msg) :
    (q.placeShare cost msg wasEmpty restoreFront).cover c =
      (q.cover c).placeShare cost (msg.cover c) wasEmpty restoreFront := by
  cases weights : q.weights with
  | none => simp only [placeShare, cover_weights, weights, Option.isNone_none, ↓reduceIte]
  | some list =>
    simp only [placeShare, cover_weights, weights, Option.isNone_some, Bool.false_eq_true, ↓reduceIte]
    cases restoreFront with
    | false => cases wasEmpty <;> rfl
    | true =>
      have equal : Neutral c cost msg := (neutral rfl).resolve_left (by rw [weights]; exact nofun)
      simp only [equal.charge]
      cases wasEmpty <;> rfl

/-- Placing costs something only when a pull is undone. -/
theorem cover_placeMessage {restoreFront : Bool} (neutral : restoreFront → q.weights = none ∨ Neutral c cost msg)
    (now : Time) : (q.placeMessage cost msg restoreFront now).map (cover c) =
      (q.cover c).placeMessage cost (msg.cover c) restoreFront now := by
  unfold placeMessage
  by_cases outside : q.numLevels ≤ msg.priority
  · rw [if_pos outside, if_pos (show (q.cover c).numLevels ≤ (msg.cover c).priority from outside)]
    rfl
  · rw [if_neg outside, if_neg (show ¬(q.cover c).numLevels ≤ (msg.cover c).priority from outside)]
    have weights : ∀ stored : Message, ((q.linkNode stored restoreFront).noteAgingDeadline stored.priority
        stored.enqueueTime).weights = q.weights :=
      fun stored => congrArg (fun params => params.2.2.2) (noteAgingDeadline_params _ stored.priority _)
    have placed : ∀ stored : Message, (restoreFront → q.weights = none ∨ Neutral c cost stored) →
        (((q.linkNode stored restoreFront).noteAgingDeadline stored.priority stored.enqueueTime).placeShare cost stored
          (q.queues stored.priority).isEmpty restoreFront).cover c =
        (((q.cover c).linkNode (stored.cover c) restoreFront).noteAgingDeadline stored.priority
          stored.enqueueTime).placeShare cost (stored.cover c) ((q.cover c).queues stored.priority).isEmpty restoreFront := fun stored costs => by
      rw [cover_placeShare c _ (weights stored ▸ costs), cover_noteAgingDeadline, cover_linkNode, cover_queues,
        Function.comp_apply, List.isEmpty_map]
    cases restoreFront with
    | false => exact congrArg some (placed { msg with enqueueTime := now } nofun)
    | true => exact congrArg some (placed msg neutral)

theorem cover_removeLocked (level : Nat) (node : Node) :
    (q.removeLocked level node).cover c = (q.cover c).removeLocked level (node.cover c) := by
  have remaining : ((q.queues level).eraseP fun other => other.handle = node.handle).map (Node.cover c) =
      ((q.queues level).map (Node.cover c)).eraseP fun other => other.handle = (node.cover c).handle := by
    rw [List.eraseP_map]
    rfl
  simp only [removeLocked, cover, Function.comp_update, Function.comp_apply, ← remaining, List.isEmpty_map]
  rfl

theorem bestLevel_cover : (q.cover c).bestLevel = q.bestLevel := by
  simp only [bestLevel, cover_numLevels, cover_queues, cover_vclock, Function.comp_apply, List.isEmpty_map]

theorem scanLevel_cover : (q.cover c).scanLevel = q.scanLevel := by
  simp only [scanLevel, cover_numLevels, cover_selection, cover_cursor, cover_queues, Function.comp_apply, List.isEmpty_map]

/-- A pull charges the head of the level it serves. -/
theorem cover_dequeueLocked
    (neutral : q.weights = none ∨ ∀ level node rest, q.bestLevel = some level → q.queues level = node :: rest →
      Neutral c cost node.message) :
    (q.dequeueLocked cost).map (Prod.map (Message.cover c) (cover c)) = (q.cover c).dequeueLocked cost := by
  cases weights : q.weights with
  | none =>
    simp only [dequeueLocked, cover_weights, weights, Option.isSome_none, Bool.false_eq_true, ↓reduceIte, scanLevel_cover,
      cover_queues, Function.comp_apply]
    split
    · rfl
    next level _ =>
      cases head : q.queues level with
      | nil => rfl
      | cons node rest =>
        simp only [List.map_cons, Option.map_some, Prod.map_apply, ← cover_removeLocked, cover_selection, cover_numLevels]
        congr 2
        split <;> rfl
  | some list =>
    simp only [dequeueLocked, cover_weights, weights, Option.isSome_some, ↓reduceIte, bestLevel_cover, cover_queues,
      Function.comp_apply]
    split
    · rfl
    next level served =>
      cases head : q.queues level with
      | nil => rfl
      | cons node rest =>
        have equal : Neutral c cost node.message :=
          neutral.resolve_left (by rw [weights]; exact nofun) level node rest served head
        simp only [List.map_cons, Option.map_some, Prod.map_apply, cover_removeLocked]
        rw [show (node.cover c).message = (node.message.cover c) from rfl, equal.charge]
        rfl

theorem nodeAt_cover (handle : Nat) : (q.cover c).nodeAt handle = (q.nodeAt handle).map (Node.cover c) := by
  have nodes : (q.cover c).nodes = q.nodes.map (Node.cover c) := by
    simp only [MultiLevelQueue.nodes, concat, List.map_flatMap, cover_numLevels]
    rfl
  rw [nodeAt, nodes, List.find?_map, nodeAt]
  rfl

theorem cover_sweepExpiredBatch (now : Time) (limit : Nat) : sweepExpiredBatch now limit (q.cover c) =
    ((sweepExpiredBatch now limit q).1.map (Message.cover c), (sweepExpiredBatch now limit q).2.cover c) := by
  induction limit generalizing q with
  | zero => rfl
  | succ limit ih =>
    simp only [sweepExpiredBatch, cover_expiry]
    cases q.expiry.front? with
    | none => rfl
    | some slot =>
      by_cases due : slot.value.1 ≤ now
      · simp only [due, ↓reduceIte, nodeAt_cover]
        cases q.nodeAt slot.value.2 with
        | none => rfl
        | some node =>
          have rest := ih (q.removeLocked node.message.priority node)
          rw [cover_removeLocked] at rest
          simp only [Option.map_some, List.map_cons]
          rw [show (node.cover c).message = (node.message.cover c) from rfl,
            show (node.message.cover c).priority = node.message.priority from rfl, rest]
      · simp only [due, ↓reduceIte]
        rfl

theorem cover_splice (level : Nat) (node : Node) (now : Time) :
    (q.splice level node now).cover c = (q.cover c).splice level (node.cover c) now := by
  have remaining : ((q.queues level).eraseP fun other => other.handle = node.handle).map (Node.cover c) =
      ((q.queues level).map (Node.cover c)).eraseP fun other => other.handle = (node.cover c).handle := by
    rw [List.eraseP_map]
    rfl
  simp only [splice, cover, Function.comp_update, Function.comp_apply, ← remaining, List.map_append]
  rfl

theorem cover_promote (level : Nat) (node : Node) (now : Time) :
    (q.promote level node now).cover c = (q.cover c).promote level (node.cover c) now := by
  simp only [promote, cover_noteAgingDeadline, cover_weights, cover_queues, Function.comp_apply, List.isEmpty_map,
    ← cover_splice]
  split <;> rfl

theorem cover_ageScan (cfg : AgingConfig) (now : Time) (reading : Nat → Time) (level : Nat) (dueBefore : Time)
    (nodes : List Node) (visited : Nat) :
    ageScan cfg now reading level dueBefore (nodes.map (Node.cover c)) ((q.cover c), visited) =
      Prod.map (cover c) id (ageScan cfg now reading level dueBefore nodes (q, visited)) := by
  induction nodes generalizing q visited with
  | nil => rfl
  | cons node rest ih =>
    simp only [List.map_cons, ageScan]
    by_cases expired : node.message.isExpired (reading visited)
    · rw [if_pos expired, if_pos (show (node.cover c).message.isExpired (reading visited) from expired), ih]
    · rw [if_neg expired, if_neg (show ¬(node.cover c).message.isExpired (reading visited) from expired)]
      by_cases due : ∃ due ∈ agingDeadline cfg node.message.enqueueTime, due ≤ now
      · rw [if_pos due, if_pos (show ∃ due ∈ agingDeadline cfg (node.cover c).message.enqueueTime, due ≤ now from due),
          ← cover_promote]
        split
        · rfl
        · exact ih _ _
      · rw [if_neg due, if_neg (show ¬∃ due ∈ agingDeadline cfg (node.cover c).message.enqueueTime, due ≤ now from due),
          show (node.cover c).message.enqueueTime = node.message.enqueueTime from rfl, ← cover_noteAgingDeadline]
        exact ih _ _

theorem pausedLocked_cover (cfg : AgingConfig) (level : Nat) (now : Time) :
    (q.cover c).pausedLocked cfg level now = q.pausedLocked cfg level now := by
  simp only [pausedLocked, cover_promotedIn, cover_queues, Function.comp_apply]
  cases q.queues (level - 1) <;> rfl

theorem cover_ageLevel (cfg : AgingConfig) (now : Time) (reading : Nat → Time) (level visited : Nat) :
    ageLevel cfg now reading level ((q.cover c), visited) =
      Prod.map (cover c) id (ageLevel cfg now reading level (q, visited)) := by
  simp only [ageLevel, cover_nextAging, pausedLocked_cover]
  cases q.nextAging level with
  | none => rfl
  | some dueBefore =>
    dsimp only
    split
    · rfl
    · split
      · rfl
      · exact cover_ageScan c { q with nextAging := Function.update q.nextAging level none } cfg now reading level dueBefore
          (q.queues level) visited

theorem cover_ageOnceLocked (now : Time) (reading : Nat → Time) :
    ((q.cover c).ageOnceLocked now reading).1 = (q.ageOnceLocked now reading).1.cover c := by
  have levels : ∀ (cfg : AgingConfig) (level : Nat) (state : MultiLevelQueue × Nat),
      ageLevels cfg now reading level (Prod.map (cover c) id state) =
        Prod.map (cover c) id (ageLevels cfg now reading level state) := fun cfg level => by
    induction level with
    | zero => exact fun _ => rfl
    | succ level ih =>
      intro state
      rw [ageLevels, ageLevels, ← ih]
      exact congrArg _ (cover_ageLevel c state.1 cfg now reading (level + 1) state.2)
  cases aging : q.aging with
  | none => simp only [ageOnceLocked, cover_aging, aging]
  | some cfg =>
    simp only [ageOnceLocked, cover_aging, aging, cover_numLevels]
    exact congrArg Prod.fst (levels cfg (q.numLevels - 1) (q, 0))

end MultiLevelQueue

end Harbinger
