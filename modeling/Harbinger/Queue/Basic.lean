import Harbinger.Message
import Harbinger.Container.Linked
import Harbinger.Container.Levels

/-! `MultiLevelQueue`: FIFO levels of stable nodes, an expiry index that points into
them, a cached aging deadline per level, promotion counts, and the virtual clocks of
worker-time selection. Each function is one critical section under the queue lock;
clock readings and the cost function are arguments. Levels and weights are indexed by
natural numbers, with the `numLevels` first ones in use. -/

namespace Harbinger
open Container

inductive QueueSelection where
  | strictPriority | roundRobin | weightedTime
  deriving DecidableEq, Repr

/-- A list node. `handle` is its address and `expiry` its iterator into the expiry index. -/
structure Node where
  handle : Nat
  message : Message
  expiry : Option Nat

structure MultiLevelQueue where
  numLevels : Nat
  selection : QueueSelection
  aging : Option AgingConfig
  weights : Option (List Nat)
  cursor : Nat := 0
  queues : Nat → List Node := fun _ => []
  expiry : Multimap Time Nat := Multimap.empty
  totalSize : Nat := 0
  nextAging : Nat → Option Time := fun _ => none
  promotedIn : Nat → Nat := fun _ => 0
  vclock : Nat → ℚ := fun _ => 0
  vfloor : ℚ := 0
  pulls : Nat → Nat := fun _ => 0
  charged : Nat → ℚ := fun _ => 0
  nextHandle : Nat := 0

/-- Expected cost of a message; `none` when the cost function throws or is not finite. -/
abbrev CostFunction := Message → Option ℚ

namespace MultiLevelQueue

def minCostMs : ℚ := 1

/-- The constructor with its checks, in order. -/
def create (numLevels : Nat) (aging : Option AgingConfig) (selection : QueueSelection)
    (weights : Option (List Nat)) : Except String MultiLevelQueue := do
  if numLevels = 0 then throw "num_levels must be positive"
  if (selection = .weightedTime) ≠ (weights.isSome = true) then
    throw "a level share is required with, and only with, weighted selection"
  if let some weights := weights then
    if weights.length ≠ numLevels then
      throw "level share needs one weight per level and a cost function"
    if weights.any fun w => w < 1 || w > 1000 then throw "level weights must be in [1, 1000]"
  if let some aging := aging then
    if aging.threshold ≤ 0 ∨ aging.interval ≤ 0 then throw "aging durations must be positive"
  return { numLevels, selection, aging, weights }

def nodes (q : MultiLevelQueue) : List Node := concat q.numLevels q.queues

def weight (q : MultiLevelQueue) (level : Nat) : ℚ := ((q.weights.getD []).getD level 1 : Nat)

def chargeLocked (cost : CostFunction) (msg : Message) : ℚ :=
  match cost msg with
  | none => minCostMs
  | some cost => max cost minCostMs

/-- A level that becomes non-empty rejoins at the floor of the active clocks. -/
def activateLocked (q : MultiLevelQueue) (level : Nat) : MultiLevelQueue :=
  { q with vclock := Function.update q.vclock level (max (q.vclock level) q.vfloor) }

def agingDeadline (cfg : AgingConfig) (enqueued : Time) : Option Time :=
  if Clock.maxMs ≤ cfg.threshold then none
  else if Clock.max - Clock.ofMillis cfg.threshold < enqueued then none
  else some (enqueued + Clock.ofMillis cfg.threshold)

def earlier (known : Option Time) (due : Time) : Time :=
  match known with
  | none => due
  | some known => if due < known then due else known

def noteAgingDeadline (q : MultiLevelQueue) (level : Nat) (enqueued : Time) : MultiLevelQueue :=
  match q.aging with
  | none => q
  | some cfg =>
    if level = 0 then q
    else match agingDeadline cfg enqueued with
      | none => q
      | some due =>
        { q with nextAging := Function.update q.nextAging level (some (earlier (q.nextAging level) due)) }

/-- A restored pull is undone: its charge is refunded so that the level keeps its place. -/
def refund (q : MultiLevelQueue) (level : Nat) (cost : ℚ) : MultiLevelQueue :=
  { q with
    vclock := Function.update q.vclock level (q.vclock level - cost / q.weight level)
    pulls := Function.update q.pulls level (q.pulls level - 1)
    charged := Function.update q.charged level (max 0 (q.charged level - cost)) }

def placeShare (q : MultiLevelQueue) (cost : CostFunction) (msg : Message)
    (wasEmpty restoreFront : Bool) : MultiLevelQueue :=
  if q.weights.isNone then q
  else
    let q := if wasEmpty then q.activateLocked msg.priority else q
    if restoreFront then q.refund msg.priority (chargeLocked cost msg) else q

/-- The new node of a message, at the next free addresses. -/
def newNode (q : MultiLevelQueue) (msg : Message) : Node :=
  ⟨q.nextHandle, msg, if 0 < msg.ttl then some q.expiry.next else none⟩

def linkNode (q : MultiLevelQueue) (msg : Message) (restoreFront : Bool) : MultiLevelQueue :=
  let level := msg.priority
  let node := q.newNode msg
  { q with
    queues := Function.update q.queues level
      (if restoreFront then node :: q.queues level else q.queues level ++ [node])
    expiry := if 0 < msg.ttl then q.expiry.emplace msg.expiryTime node.handle else q.expiry
    totalSize := q.totalSize + 1
    promotedIn := if msg.isPromoted then
      Function.update q.promotedIn level (q.promotedIn level + 1) else q.promotedIn
    nextHandle := q.nextHandle + 1 }

/-- `place_message`; `none` is the out-of-range exception. `now` is read before the lock. -/
def placeMessage (q : MultiLevelQueue) (cost : CostFunction) (msg : Message) (restoreFront : Bool)
    (now : Time) : Option MultiLevelQueue :=
  if q.numLevels ≤ msg.priority then none
  else
    let msg := if restoreFront then msg else { msg with enqueueTime := now }
    let wasEmpty := (q.queues msg.priority).isEmpty
    let linked := (q.linkNode msg restoreFront).noteAgingDeadline msg.priority msg.enqueueTime
    some (linked.placeShare cost msg wasEmpty restoreFront)

def enqueue (q : MultiLevelQueue) (cost : CostFunction) (msg : Message) (now : Time) :
    Option MultiLevelQueue := q.placeMessage cost msg false now

def requeueFront (q : MultiLevelQueue) (cost : CostFunction) (msg : Message) :
    Option MultiLevelQueue := q.placeMessage cost msg true 0

def removeLocked (q : MultiLevelQueue) (level : Nat) (node : Node) : MultiLevelQueue :=
  let remaining := (q.queues level).eraseP fun other => other.handle = node.handle
  { q with
    expiry := match node.expiry with
      | none => q.expiry
      | some handle => q.expiry.erase handle
    promotedIn := if node.message.isPromoted then
      Function.update q.promotedIn level (q.promotedIn level - 1) else q.promotedIn
    queues := Function.update q.queues level remaining
    nextAging := if remaining.isEmpty then Function.update q.nextAging level none else q.nextAging
    totalSize := q.totalSize - 1 }

/-- The non-empty level with the smallest clock, the lowest-numbered one on ties. -/
def bestLevel (q : MultiLevelQueue) : Option Nat :=
  (List.range q.numLevels).foldl (fun best level =>
    if (q.queues level).isEmpty then best
    else match best with
      | none => some level
      | some held => if q.vclock level < q.vclock held then some level else best) none

def chargePull (q : MultiLevelQueue) (level : Nat) (cost : ℚ) : MultiLevelQueue :=
  { q with
    vfloor := max q.vfloor (q.vclock level)
    vclock := Function.update q.vclock level (q.vclock level + cost / q.weight level)
    pulls := Function.update q.pulls level (q.pulls level + 1)
    charged := Function.update q.charged level (q.charged level + cost) }

/-- The first non-empty level, from the cursor on under round robin and from 0 otherwise. -/
def scanLevel (q : MultiLevelQueue) : Option Nat :=
  ((List.range q.numLevels).map fun offset =>
    if q.selection = .roundRobin then (q.cursor + offset) % q.numLevels else offset).find?
    fun level => !(q.queues level).isEmpty

def dequeueLocked (q : MultiLevelQueue) (cost : CostFunction) : Option (Message × MultiLevelQueue) :=
  if q.weights.isSome then
    match q.bestLevel with
    | none => none
    | some level =>
      match q.queues level with
      | [] => none
      | node :: _ =>
        some (node.message, (q.chargePull level (chargeLocked cost node.message)).removeLocked level node)
  else
    match q.scanLevel with
    | none => none
    | some level =>
      match q.queues level with
      | [] => none
      | node :: _ =>
        let q := q.removeLocked level node
        some (node.message, if q.selection = .roundRobin
          then { q with cursor := (level + 1) % q.numLevels } else q)

/-- The node an iterator of the expiry index points at. -/
def nodeAt (q : MultiLevelQueue) (handle : Nat) : Option Node :=
  q.nodes.find? fun node => node.handle = handle

def sweepExpiredBatch (now : Time) : Nat → MultiLevelQueue → List Message × MultiLevelQueue
  | 0, q => ([], q)
  | limit + 1, q =>
    match q.expiry.front? with
    | none => ([], q)
    | some slot =>
      if slot.value.1 ≤ now then
        match q.nodeAt slot.value.2 with
        | none => ([], q)
        | some node =>
          let rest := sweepExpiredBatch now limit (q.removeLocked node.message.priority node)
          (node.message :: rest.1, rest.2)
      else ([], q)

/-- The full scan of `sweep_expired`; `reading k` is the clock at the `k`-th visited node. -/
def sweepScan (reading : Nat → Time) : List (Nat × Node) → Nat → MultiLevelQueue →
    List Message × MultiLevelQueue
  | [], _, q => ([], q)
  | (level, node) :: rest, visited, q =>
    if node.message.isExpired (reading visited) then
      let later := sweepScan reading rest (visited + 1) (q.removeLocked level node)
      (node.message :: later.1, later.2)
    else sweepScan reading rest (visited + 1) q

def sweepExpired (q : MultiLevelQueue) (now : Time) (reading : Nat → Time) :
    List Message × MultiLevelQueue :=
  match q.expiry.front? with
  | none => ([], q)
  | some slot =>
    if now < slot.value.1 then ([], q)
    else sweepScan reading
      ((List.range q.numLevels).flatMap fun level => (q.queues level).map (level, ·)) 0 q

def pausing (cfg : AgingConfig) : Bool := cfg.pauseWhenBehind.getD false

/-- The level above still holds promoted messages and its head arrived a threshold ago. -/
def pausedLocked (q : MultiLevelQueue) (cfg : AgingConfig) (level : Nat) (now : Time) : Bool :=
  pausing cfg && q.promotedIn (level - 1) != 0 &&
    match q.queues (level - 1) with
    | [] => false
    | head :: _ => Clock.ofMillis cfg.threshold ≤ now - head.message.arrivalTime

def promotedNode (node : Node) (level : Nat) (now : Time) : Node :=
  { node with message := node.message.moved (level - 1) now }

/-- The node keeps its address and goes to the back of the level above. -/
def splice (q : MultiLevelQueue) (level : Nat) (node : Node) (now : Time) : MultiLevelQueue :=
  let left := if node.message.isPromoted then
    Function.update q.promotedIn level (q.promotedIn level - 1) else q.promotedIn
  { q with
    promotedIn := Function.update left (level - 1) (left (level - 1) + 1)
    queues := Function.update (Function.update q.queues level
      ((q.queues level).eraseP fun other => other.handle = node.handle)) (level - 1)
      (q.queues (level - 1) ++ [promotedNode node level now]) }

/-- One promotion of the inner loop of `age_once_locked`. -/
def promote (q : MultiLevelQueue) (level : Nat) (node : Node) (now : Time) : MultiLevelQueue :=
  let spliced := q.splice level node now
  let active := if q.weights.isSome && (q.queues (level - 1)).isEmpty
    then spliced.activateLocked (level - 1) else spliced
  active.noteAgingDeadline (level - 1) now

/-- The inner loop of `age_once_locked` over the unvisited nodes of a level. -/
def ageScan (cfg : AgingConfig) (now : Time) (reading : Nat → Time) (level : Nat) (dueBefore : Time) :
    List Node → MultiLevelQueue × Nat → MultiLevelQueue × Nat
  | [], state => state
  | node :: rest, (q, visited) =>
    if node.message.isExpired (reading visited) then
      ageScan cfg now reading level dueBefore rest (q, visited + 1)
    else if ∃ due ∈ agingDeadline cfg node.message.enqueueTime, due ≤ now then
      let promoted := q.promote level node now
      if pausing cfg then
        ({ promoted with nextAging := Function.update promoted.nextAging level (some dueBefore) }, visited + 1)
      else ageScan cfg now reading level dueBefore rest (promoted, visited + 1)
    else ageScan cfg now reading level dueBefore rest
      (q.noteAgingDeadline level node.message.enqueueTime, visited + 1)

def ageLevel (cfg : AgingConfig) (now : Time) (reading : Nat → Time) (level : Nat) :
    MultiLevelQueue × Nat → MultiLevelQueue × Nat
  | (q, visited) =>
    match q.nextAging level with
    | none => (q, visited)
    | some dueBefore =>
      if now < dueBefore then (q, visited)
      else if q.pausedLocked cfg level now then (q, visited)
      else ageScan cfg now reading level dueBefore (q.queues level)
        ({ q with nextAging := Function.update q.nextAging level none }, visited)

/-- The outer loop: levels `level`, `level - 1`, ..., 1. -/
def ageLevels (cfg : AgingConfig) (now : Time) (reading : Nat → Time) :
    Nat → MultiLevelQueue × Nat → MultiLevelQueue × Nat
  | 0, state => state
  | level + 1, state => ageLevels cfg now reading level (ageLevel cfg now reading (level + 1) state)

/-- `age_once_locked`, with the number of visited nodes; `reading k` is the clock at
the expiry test of the `k`-th visited node. -/
def ageOnceLocked (q : MultiLevelQueue) (now : Time) (reading : Nat → Time) : MultiLevelQueue × Nat :=
  match q.aging with
  | none => (q, 0)
  | some cfg => ageLevels cfg now reading (q.numLevels - 1) (q, 0)

end MultiLevelQueue

end Harbinger
