import Harbinger.Broker.Refinement
import Harbinger.Queue.Erasure

/-! The broker under a veil, which covers data of its messages and may take away its predictor,
its features and its feedback. The veil commutes with every step, as long as it does not change
what routing decides and what a charged message costs. -/

namespace Harbinger
open Container Ml Ledger Deliveries

/-- What covers the messages of a broker and the requests it gets. Unless `keep` is set, predictor
and feedback are taken away; if it is set, routing contexts stay. -/
structure Veil where
  cover : Cover
  request : SubmitRequest → SubmitRequest := id
  keep : Bool
  loyal : keep = true → cover.context = id
  blank : cover.context none = none
  producer : ∀ req, (request req).producerId = req.producerId
  ttl : ∀ req, (request req).ttlMs = req.ttlMs
  payload : ∀ req, (request req).payload = cover.payload req.payload
  headers : ∀ req, (request req).headers.insert (ascii "__producer_id") req.producerId =
    cover.headers (req.headers.insert (ascii "__producer_id") req.producerId)

/-- The item, if it is kept. -/
def kept? {α : Type} : Bool → Option α → Option α
  | true, item => item
  | false, _ => none

/-- The items, if they are kept. -/
def kept {α : Type} : Bool → List α → List α
  | true, items => items
  | false, _ => []

section Kept
variable {α β : Type} (keep : Bool)

@[simp] theorem kept_nil : kept keep ([] : List α) = [] := by cases keep <;> rfl

@[simp] theorem map_kept? (f : α → β) (item : Option α) : (kept? keep item).map f = kept? keep (item.map f) := by
  cases keep <;> rfl

@[simp] theorem toList_kept? (item : Option α) : (kept? keep item).toList = kept keep item.toList := by
  cases keep <;> rfl

@[simp] theorem kept_append (first second : List α) :
    kept keep first ++ kept keep second = kept keep (first ++ second) := by
  cases keep <;> rfl

end Kept

def InFlightEntry.cover (c : Cover) (entry : InFlightEntry) : InFlightEntry :=
  { entry with message := entry.message.cover c }

def DLQEntry.cover (c : Cover) (entry : DLQEntry) : DLQEntry := { entry with message := entry.message.cover c }

/-- The configuration of a broker that neither predicts nor records, unless that is kept. -/
@[simps] def HarbingerConfig.veil (keep : Bool) (cfg : HarbingerConfig) : HarbingerConfig :=
  { cfg with
    ingressFeatures := kept? keep cfg.ingressFeatures
    feedback := keep && cfg.feedback
    predictiveRouting := kept? keep cfg.predictiveRouting }

namespace Deliveries

@[simps] def cover (c : Cover) (d : Deliveries) : Deliveries :=
  { d with inFlight := mapTable (InFlightEntry.cover c) d.inFlight }

def Verdict.cover (c : Cover) : Verdict → Verdict
  | .reply status => .reply status
  | .finish entry kind reason measurement status => .finish (entry.cover c) kind reason measurement status

variable (c : Cover) (keep : Bool) (cfg : HarbingerConfig) (d : Deliveries) (call : Call)

theorem leaseOver_cover (entry : InFlightEntry) (now : Time) :
    (d.cover c).leaseOver (entry.cover c) now ↔ d.leaseOver entry now :=
  Iff.rfl

theorem cover_settleLive (now : Time) : (d.cover c).settleLive call now = (d.settleLive call now).cover c := by
  simp only [settleLive, cover_inFlight, lookup_mapTable]
  cases d.inFlight.lookup call.id with
  | none => rfl
  | some entry =>
    simp only [Option.map_some]
    rw [show (entry.cover c).consumerId = entry.consumerId from rfl,
      show (entry.cover c).attemptToken = entry.attemptToken from rfl]
    split
    · rfl
    · split
      · rfl
      · by_cases past : d.leaseOver entry now
        · rw [if_pos past, if_pos ((leaseOver_cover c d entry now).mpr past)]
          rfl
        · rw [if_neg past, if_neg (mt (leaseOver_cover c d entry now).mp past)]
          rfl

theorem cover_settleLocked (recordAt leaseAt : Time) : (d.cover c).settleLocked (cfg.veil keep) call recordAt leaseAt =
    ((d.settleLocked cfg call recordAt leaseAt).1.cover c, (d.settleLocked cfg call recordAt leaseAt).2.cover c) := by
  simp only [settleLocked, cover_completed, cover_completions]
  cases d.completed.lookup call.token with
  | none => exact congrArg (Prod.mk (d.cover c)) (cover_settleLive c d call leaseAt)
  | some handle =>
    dsimp only
    cases d.completions.find? handle with
    | none => exact congrArg (Prod.mk (d.cover c)) (cover_settleLive c d call leaseAt)
    | some record =>
      by_cases old : Clock.ofMillis cfg.completionRetention ≤ recordAt - record.time
      · simp only [HarbingerConfig.veil_completionRetention, old, ↓reduceIte]
        exact congrArg (Prod.mk _) (cover_settleLive c { d with
          completions := d.completions.erase handle
          completed := d.completed.erase call.token } call leaseAt)
      · simp only [HarbingerConfig.veil_completionRetention, old, ↓reduceIte]
        split
        · rfl
        · exact congrArg (Prod.mk (d.cover c)) (cover_settleLive c d call leaseAt)

theorem cover_pruneCompletionsLocked (now : Time) (budget : Nat) :
    pruneCompletionsLocked (cfg.veil keep) now budget (d.cover c) = (pruneCompletionsLocked cfg now budget d).cover c := by
  induction budget generalizing d with
  | zero => rfl
  | succ budget ih =>
    simp only [pruneCompletionsLocked, cover_completions]
    cases d.completions.front? with
    | none => rfl
    | some slot =>
      simp only [HarbingerConfig.veil_completionRetention, HarbingerConfig.veil_completionCacheMaxEntries]
      by_cases dropped : cfg.completionCacheMaxEntries < d.completions.size ∨
          Clock.ofMillis cfg.completionRetention ≤ now - slot.value.time
      · simp only [dropped, ↓reduceIte]
        exact ih { d with
          completed := d.completed.erase slot.value.token
          completions := d.completions.popFront }
      · simp only [dropped, ↓reduceIte]

theorem cover_record (id : Bytes) (entry : InFlightEntry) (kind : Settlement) (time : Time) :
    (d.cover c).record id (entry.cover c) kind time = (d.record id entry kind time).cover c := by
  simp only [record, cover, mapTable_erase]
  rfl

theorem cover_finishClose (id : Bytes) (entry : InFlightEntry) (kind : Settlement) (recordAt pruneAt : Time) :
    (d.cover c).finishClose (cfg.veil keep) id (entry.cover c) kind recordAt pruneAt =
      (d.finishClose cfg id entry kind recordAt pruneAt).cover c := by
  rw [finishClose, cover_record, cover_pruneCompletionsLocked, finishClose]

theorem cover_installation (msg : Message) (owner token : Bytes) (cancelled : Bool) (fault : Fault)
    (leaseAt pullAt : Time) :
    (d.cover c).installation (cfg.veil keep) (msg.cover c) owner token cancelled fault leaseAt pullAt =
      ((d.installation cfg msg owner token cancelled fault leaseAt pullAt).1.cover c,
        (d.installation cfg msg owner token cancelled fault leaseAt pullAt).2) := by
  simp only [installation, cover_inFlight, mem_mapTable, Message.cover]
  split
  · rfl
  · split
    · rfl
    · split
      · rfl
      · split
        · simp only [cover, mapTable_erase, mapTable_insert]
          rfl
        · simp only [install, cover, mapTable_insert]
          rfl

end Deliveries


theorem Veil.accept {σ : Type} (v : Veil) (b : Broker σ) (req : SubmitRequest) (idAt arrivalAt : Time) :
    b.accept (v.request req) idAt arrivalAt = (b.accept req idAt arrivalAt).cover v.cover := by
  rw [Broker.accept, v.producer, v.headers, v.ttl, v.payload, Message.cover, Broker.accept, v.blank]

namespace Broker
variable {σ : Type}

@[simps] def veil (v : Veil) (b : Broker σ) : Broker σ :=
  { b with
    queue := b.queue.cover v.cover
    dlq := b.dlq.map (DLQEntry.cover v.cover)
    deliveries := b.deliveries.cover v.cover
    predictor := kept? v.keep b.predictor }

@[simps] def Finished.veil (v : Veil) (out : Finished σ) : Finished σ :=
  ⟨out.broker.veil v, kept? v.keep out.event, kept? v.keep out.update⟩

variable (v : Veil) (cfg : HarbingerConfig) (b : Broker σ)

@[simp] theorem levelShareCost_veil : (b.veil v).levelShareCost = b.levelShareCost := rfl

theorem neutral_levelShareCost {c : Cover} {msg : Message} (same : (msg.cover c).prediction = msg.prediction) :
    MultiLevelQueue.Neutral c b.levelShareCost msg := by
  rw [MultiLevelQueue.Neutral, levelShareCost, levelShareCost, same]
  rfl

theorem veil_enqueue (msg : Message) (now : Time) :
    (b.queue.enqueue b.levelShareCost msg now).map (MultiLevelQueue.cover v.cover) =
      (b.veil v).queue.enqueue (b.veil v).levelShareCost (msg.cover v.cover) now :=
  @MultiLevelQueue.cover_placeMessage v.cover b.queue b.levelShareCost msg false nofun now

theorem veil_pushDlq (msg : Message) (reason : DLQReason) (dlqTime : Time) (details : Bytes) :
    (b.veil v).pushDlq (msg.cover v.cover) reason dlqTime details = (b.pushDlq msg reason dlqTime details).veil v := by
  simp only [pushDlq, veil, List.map_append]
  rfl

theorem veil_noteLevelCost (level : Nat) (sample : Option Int) :
    noteLevelCost (cfg.veil v.keep) (b.veil v) level sample = (noteLevelCost cfg b level sample).veil v := by
  simp only [noteLevelCost, HarbingerConfig.veil_levelWeights]
  split <;> rfl

theorem veil_captureEvent (msg : Message) (trigger : FeedbackTrigger) (stamp : Stamp) :
    captureEvent (cfg.veil v.keep) (msg.cover v.cover) trigger stamp = kept? v.keep (captureEvent cfg msg trigger stamp) := by
  cases keep : v.keep with
  | false => rfl
  | true =>
    have context : (msg.cover v.cover).routingContext = msg.routingContext := congrFun (v.loyal keep) _
    simp only [captureEvent, captureFeedback, context]
    rfl

theorem veil_predictorUpdate (msg : Message) (kind : Settlement) (sample : Option Int) :
    predictorUpdate (cfg.veil v.keep) (b.veil v) (msg.cover v.cover) kind sample =
      kept? v.keep (predictorUpdate cfg b msg kind sample) := by
  cases keep : v.keep with
  | false => simp only [predictorUpdate, veil_predictor, keep, kept?]
  | true =>
    have context : (msg.cover v.cover).routingContext = msg.routingContext := congrFun (v.loyal keep) _
    simp only [predictorUpdate, veil_predictor, keep, kept?, context]
    rfl

theorem veil_settlementEvent (entry : InFlightEntry) (kind : Settlement) (measurement : Option Int) (stamp : Stamp) :
    settlementEvent (cfg.veil v.keep) (entry.cover v.cover) kind measurement stamp =
      kept? v.keep (settlementEvent cfg entry kind measurement stamp) := by
  unfold settlementEvent
  rw [show (entry.cover v.cover).message = entry.message.cover v.cover from rfl, veil_captureEvent, map_kept?]
  rfl

theorem veil_finishHand (entry : InFlightEntry) (kind : Settlement) (reason : Bytes) (measurement : Option Int)
    (r : FinishReadings) : (b.veil v).finishHand (cfg.veil v.keep) (entry.cover v.cover) kind reason measurement r =
      (b.finishHand cfg entry kind reason measurement r).veil v := by
  have noted : ∀ expired : Bool, noteLevelCost (cfg.veil v.keep) (b.veil v) (entry.cover v.cover).message.priority
      (taught (cfg.veil v.keep) kind expired measurement) =
      (noteLevelCost cfg b entry.message.priority (taught cfg kind expired measurement)).veil v :=
    fun expired => veil_noteLevelCost v cfg b entry.message.priority (taught cfg kind expired measurement)
  have updated : ∀ (average : Broker σ) (expired : Bool), predictorUpdate (cfg.veil v.keep) (average.veil v)
      (entry.cover v.cover).message kind (taught (cfg.veil v.keep) kind expired measurement) =
      kept? v.keep (predictorUpdate cfg average entry.message kind (taught cfg kind expired measurement)) :=
    fun average expired => veil_predictorUpdate v cfg average entry.message kind _
  by_cases dead : entry.message.isExpired r.expiryAt
  · have covered : (entry.cover v.cover).message.isExpired r.expiryAt := dead
    simp only [finishHand, dead, covered, decide_true, noted, updated, veil_settlementEvent, map_kept?, ↓reduceIte]
    exact congrArg (Finished.mk · _ _) (veil_pushDlq v _ entry.message _ _ _)
  · have covered : ¬(entry.cover v.cover).message.isExpired r.expiryAt := dead
    simp only [finishHand, dead, covered, decide_false, noted, updated, veil_settlementEvent, map_kept?,
      Bool.false_eq_true, ↓reduceIte]
    by_cases success : kind = .ack
    · simp only [if_pos success]
      rfl
    · simp only [if_neg success]
      generalize noteLevelCost cfg b entry.message.priority (taught cfg kind false measurement) = average
      by_cases last : (failOnce entry.message).maxRetries ≤ (failOnce entry.message).retryCount
      · have spent : (failOnce (entry.cover v.cover).message).maxRetries ≤
            (failOnce (entry.cover v.cover).message).retryCount := last
        rw [if_pos last, if_pos spent]
        exact congrArg (Finished.mk · _ _) (veil_pushDlq v average (failOnce entry.message) _ _ _)
      · have spare : ¬(failOnce (entry.cover v.cover).message).maxRetries ≤
            (failOnce (entry.cover v.cover).message).retryCount := last
        rw [if_neg last, if_neg spare]
        have placed := Option.getD_map (MultiLevelQueue.cover v.cover) average.queue
          (average.queue.enqueue average.levelShareCost { failOnce entry.message with
            priority := entry.message.originalPriority } r.placeAt)
        rw [veil_enqueue] at placed
        exact congrArg (fun queue => Finished.mk { average.veil v with queue } _ _) placed

theorem veil_learn [Inference σ] (keep : v.keep = true) (update : PredictorUpdate) (first second : Time) :
    (b.veil v).learn update first second = (b.learn update first second).veil v := by
  have predictor : (b.veil v).predictor = b.predictor := by rw [veil_predictor, keep, kept?]
  unfold learn
  rw [predictor]
  cases b.predictor with
  | none => rfl
  | some p =>
    dsimp only
    split
    · simp only [veil, keep, kept?]
    · split
      · rfl
      · simp only [veil, keep, kept?]

/-- The veil does not change what routing decides. -/
def Routes (σ : Type) [Inference σ] (v : Veil) (cfg : HarbingerConfig) : Prop :=
  ∀ (b : Broker σ) (msg : Message) (r : PredictReadings),
    (b.veil v).routeMessage (cfg.veil v.keep) (msg.cover v.cover) r =
      ((b.routeMessage cfg msg r).1.cover v.cover, (b.routeMessage cfg msg r).2.veil v)

end Broker

def Task.veil (v : Veil) : Task → Task
  | .submitting msg => .submitting (msg.cover v.cover)
  | .routed msg => .routed (msg.cover v.cover)
  | .pulling consumer => .pulling consumer
  | .burying errand hand since => .burying errand (hand.map (Message.cover v.cover)) since
  | .swept consumer => .swept consumer
  | .selected consumer msg => .selected consumer (msg.cover v.cover)
  | .staged consumer msg token => .staged consumer (msg.cover v.cover) token

def Holder.veil (v : Veil) : Holder → Holder
  | .settling call entry kind status update =>
    .settling call (entry.cover v.cover) kind status (kept? v.keep update)
  | .maintaining budget reading updates => .maintaining budget reading (kept v.keep updates)
  | .reclaiming budget reading updates id entry =>
    .reclaiming budget reading (kept v.keep updates) id (entry.cover v.cover)

def Event.cover (c : Cover) : Event → Event
  | .accepted msg => .accepted (msg.cover c)
  | .judged occasion msg reading fate => .judged occasion (msg.cover c) reading fate
  | .delivered owner token msg => .delivered owner token (msg.cover c)
  | .settled owner token id kind => .settled owner token id kind
  | .answered call status => .answered call status

def Action.veil (v : Veil) : Action → Action
  | .submit req idAt arrivalAt => .submit (v.request req) idAt arrivalAt
  | action => action

namespace System
variable {σ : Type}

@[simps] def veil (v : Veil) (s : System σ) : System σ :=
  { s with
    broker := s.broker.veil v
    tasks := s.tasks.map (Task.veil v)
    holder := s.holder.map (Holder.veil v)
    lessons := kept v.keep s.lessons
    finished := s.finished.map (Message.cover v.cover)
    history := s.history.map (Event.cover v.cover)
    emitted := kept v.keep s.emitted }

/-- Every message that the step charges or refunds a level for: a pull serves the level with the
smallest clock, and an installation that fails puts its message back. -/
def Charges (s : System σ) (holds : Message → Prop) : Action → Prop
  | .dequeue _ => ∀ level node rest, s.broker.queue.bestLevel = some level →
      s.broker.queue.queues level = node :: rest → holds node.message
  | .install task _ _ _ _ => ∀ consumer msg token, s.tasks[task]? = some (.staged consumer msg token) → holds msg
  | _ => True

variable (v : Veil) (cfg : HarbingerConfig) (s : System σ)

theorem veil_proceed (task : Nat) (next : List Task) :
    (s.proceed task next).veil v = (s.veil v).proceed task (next.map (Task.veil v)) := by
  simp only [proceed, veil, List.map_append, List.eraseIdx_map]

theorem veil_log (events : List Event) :
    (s.log events).veil v = (s.veil v).log (events.map (Event.cover v.cover)) := by
  simp only [log, veil, List.map_append]

theorem veil_sweepFor (errand : Errand) (reading : Time) : (s.veil v).sweepFor (cfg.veil v.keep) errand reading =
    ((s.sweepFor cfg errand reading).1.veil v, (s.sweepFor cfg errand reading).2.veil v) := by
  have swept := MultiLevelQueue.cover_sweepExpiredBatch v.cover s.broker.queue reading cfg.maintenanceBatchSize
  simp only [sweepFor, veil_broker, Broker.veil_queue, HarbingerConfig.veil_maintenanceBatchSize, swept, veil_log,
    List.map_map]
  rfl

theorem veil_handOff (out : Broker.Finished σ) (entry : InFlightEntry) (kind : Settlement) (r : Broker.FinishReadings) :
    (s.veil v).handOff (out.veil v) (entry.cover v.cover) kind r = (s.handOff out entry kind r).veil v := by
  have fates : fate (entry.cover v.cover).message kind r.expiryAt = fate entry.message kind r.expiryAt := rfl
  simp only [handOff, fates, veil, Broker.Finished.veil, toList_kept?, kept_append, List.map_append]
  split
  · simp only [List.map_append]
    rfl
  · rfl

theorem veil_closeEntry (id : Bytes) (entry : InFlightEntry) (kind : Settlement) (doneAt pruneAt : Time) :
    (s.veil v).closeEntry (cfg.veil v.keep) id (entry.cover v.cover) kind doneAt pruneAt =
      (s.closeEntry cfg id entry kind doneAt pruneAt).veil v := by
  have closed := Deliveries.cover_finishClose v.cover v.keep cfg s.broker.deliveries id entry kind doneAt pruneAt
  simp only [closeEntry, veil_broker, Broker.veil_deliveries, closed]
  rfl

theorem veil_settleFor (call : Call) (recordAt leaseAt : Time) (r : Broker.FinishReadings) :
    (s.veil v).settleFor (cfg.veil v.keep) call recordAt leaseAt r = (s.settleFor cfg call recordAt leaseAt r).veil v := by
  have decided := Deliveries.cover_settleLocked v.cover v.keep cfg s.broker.deliveries call recordAt leaseAt
  simp only [settleFor, veil_broker, Broker.veil_deliveries, decided]
  generalize s.broker.deliveries.settleLocked cfg call recordAt leaseAt = outcome
  obtain ⟨d, verdict⟩ := outcome
  cases verdict with
  | reply status =>
    rw [veil_log]
    rfl
  | finish entry kind reason measurement status =>
    have finished := Broker.veil_finishHand v cfg { s.broker with deliveries := d } entry kind reason measurement r
    change { (s.veil v).handOff (Broker.finishHand (cfg.veil v.keep) (Broker.veil v { s.broker with deliveries := d })
        (entry.cover v.cover) kind reason measurement r) (entry.cover v.cover) kind r with
      holder := some (.settling call (entry.cover v.cover) kind status (Broker.finishHand (cfg.veil v.keep)
        (Broker.veil v { s.broker with deliveries := d }) (entry.cover v.cover) kind reason measurement r).update) } = _
    rw [finished, veil_handOff]
    rfl

theorem veil_installFor (consumer : Bytes) (msg : Message) (token : Bytes) (cancelled : Bool) (fault : Fault)
    (leaseAt pullAt : Time)
    (neutral : s.broker.queue.weights = none ∨ (msg.cover v.cover).prediction = msg.prediction) :
    (s.veil v).installFor (cfg.veil v.keep) consumer (msg.cover v.cover) token cancelled fault leaseAt pullAt =
      (s.installFor cfg consumer msg token cancelled fault leaseAt pullAt).veil v := by
  have installed := Deliveries.cover_installation v.cover v.keep cfg s.broker.deliveries msg consumer token cancelled
    fault leaseAt pullAt
  simp only [installFor, veil_broker, Broker.veil_deliveries, installed]
  generalize s.broker.deliveries.installation cfg msg consumer token cancelled fault leaseAt pullAt = outcome
  obtain ⟨d, status⟩ := outcome
  by_cases ok : status = .ok
  · simp only [ok, ↓reduceIte]
    rw [veil_log]
    rfl
  · simp only [ok, ↓reduceIte]
    have restored := Option.getD_map (MultiLevelQueue.cover v.cover) s.broker.queue
      (s.broker.queue.requeueFront s.broker.levelShareCost msg)
    rw [MultiLevelQueue.requeueFront, MultiLevelQueue.cover_placeMessage v.cover s.broker.queue
      (fun _ => neutral.imp_right s.broker.neutral_levelShareCost)] at restored
    exact congrArg (fun queue => { s.veil v with
      broker := { s.broker.veil v with queue, deliveries := d.cover v.cover } }) restored

theorem getElem?_veil (task : Nat) : (s.veil v).tasks[task]? = (s.tasks[task]?).map (Task.veil v) :=
  List.getElem?_map

section Steps
variable [Inference σ]

theorem veil_ingress (routes : Broker.Routes σ v cfg) :
    (∀ req idAt arrivalAt, (s.step cfg (.submit req idAt arrivalAt)).map (veil v) =
      (s.veil v).step (cfg.veil v.keep) (.submit (v.request req) idAt arrivalAt)) ∧
    (∀ task r, (s.step cfg (.route task r)).map (veil v) = (s.veil v).step (cfg.veil v.keep) (.route task r)) ∧
    ∀ task enqueueAt stamp, (s.step cfg (.enqueue task enqueueAt stamp)).map (veil v) =
      (s.veil v).step (cfg.veil v.keep) (.enqueue task enqueueAt stamp) := by
  refine ⟨fun req idAt arrivalAt => ?_, fun task r => ?_, fun task enqueueAt stamp => ?_⟩
  · have refused : (s.veil v).broker.submitRefused (v.request req) = s.broker.submitRefused req := by
      simp only [Broker.submitRefused, v.producer, v.ttl]
      rfl
    simp only [step, refused, veil_now, v.accept]
    split
    · simp only [Option.map_some, veil, List.map_append]
      rfl
    · rfl
  · simp only [step, getElem?_veil]
    cases s.tasks[task]? with
    | none => rfl
    | some found =>
      cases found with
      | submitting msg =>
        simp only [Option.map_some, Task.veil, veil_broker, routes s.broker msg r, veil_proceed]
        rfl
      | _ => rfl
  · simp only [step, getElem?_veil]
    cases s.tasks[task]? with
    | none => rfl
    | some found =>
      cases found with
      | routed msg =>
        simp only [Option.map_some, Task.veil, veil_now]
        split
        · have placed := s.broker.veil_enqueue v msg enqueueAt
          simp only [veil_broker, ← placed]
          cases s.broker.queue.enqueue s.broker.levelShareCost msg enqueueAt with
          | none => simp only [Option.map_none, Option.map_some, veil_proceed, List.map_nil]
          | some queue =>
            simp only [Option.map_some, veil_log, Broker.veil_captureEvent, toList_kept?, veil_emitted, kept_append]
            refine congrArg (fun tasks => some (log { s.veil v with
              broker := { s.broker.veil v with queue := queue.cover v.cover }
              tasks
              emitted := kept v.keep (s.emitted ++ (Broker.captureEvent cfg msg .submit stamp).toList) }
              [.accepted (msg.cover v.cover).frozen])) ?_
            simp only [proceed, withQueue, List.append_nil, veil_tasks, List.eraseIdx_map]
        · rfl
      | _ => rfl

theorem veil_tidying (action : Action) (tidying : match action with
      | .tick _ | .registerProducer | .registerConsumer | .pull _ | .resume _ | .abandon _ => True
      | _ => False) :
    (s.step cfg action).map (veil v) = (s.veil v).step (cfg.veil v.keep) action := by
  cases action with
  | tick now =>
    simp only [step, veil_now]
    split <;> rfl
  | registerProducer => rfl
  | registerConsumer => rfl
  | pull consumer =>
    simp only [step, veil_broker, Broker.veil_consumers]
    split
    · simp only [Option.map_some, veil, List.map_append]
      rfl
    · rfl
  | resume task =>
    simp only [step, getElem?_veil]
    cases s.tasks[task]? with
    | none => rfl
    | some found =>
      cases found with
      | burying errand hand since =>
        cases hand with
        | nil =>
          simp only [Option.map_some, Task.veil, List.map_nil, veil_proceed]
          cases errand <;> rfl
        | cons msg rest => rfl
      | _ => rfl
  | abandon task =>
    simp only [step, getElem?_veil]
    cases s.tasks[task]? with
    | none => rfl
    | some found => cases found <;> simp only [Option.map_some, Option.map_none, Task.veil, veil_proceed, List.map_nil]
  | _ => exact tidying.elim

theorem veil_sweeping : (∀ task reading, (s.step cfg (.sweep task reading)).map (veil v) =
      (s.veil v).step (cfg.veil v.keep) (.sweep task reading)) ∧
    (∀ reading, (s.step cfg (.backgroundSweep reading)).map (veil v) =
      (s.veil v).step (cfg.veil v.keep) (.backgroundSweep reading)) ∧
    ∀ task dlqAt stamp, (s.step cfg (.bury task dlqAt stamp)).map (veil v) =
      (s.veil v).step (cfg.veil v.keep) (.bury task dlqAt stamp) := by
  refine ⟨fun task reading => ?_, fun reading => ?_, fun task dlqAt stamp => ?_⟩
  · simp only [step, getElem?_veil]
    cases s.tasks[task]? with
    | none => rfl
    | some found =>
      cases found with
      | pulling consumer =>
        simp only [Option.map_some, Task.veil, veil_now, veil_sweepFor]
        split
        · simp only [Option.map_some, veil_proceed, List.map_cons, List.map_nil]
          rfl
        · rfl
      | _ => rfl
  · simp only [step, veil_now, veil_sweepFor]
    split
    · simp only [Option.map_some, veil, List.map_append, List.map_cons, List.map_nil]
    · rfl
  · simp only [step, getElem?_veil]
    cases s.tasks[task]? with
    | none => rfl
    | some found =>
      cases found with
      | burying errand hand since =>
        cases hand with
        | nil => rfl
        | cons msg rest =>
          simp only [Option.map_some, Task.veil, List.map_cons, veil_now]
          split
          · simp only [Option.map_some, veil_proceed, veil_broker, Broker.veil_pushDlq, Broker.veil_captureEvent,
              map_kept?, toList_kept?, veil_emitted, kept_append]
            rfl
          · rfl
      | _ => rfl

/-- Charged messages cost the same under the veil. -/
def Neutral (action : Action) : Prop :=
  s.broker.queue.weights = none ∨ s.Charges (fun msg => (msg.cover v.cover).prediction = msg.prediction) action

theorem veil_dequeue (task : Nat) (neutral : s.Neutral v (.dequeue task)) :
    (s.step cfg (.dequeue task)).map (veil v) = (s.veil v).step (cfg.veil v.keep) (.dequeue task) := by
  simp only [step, getElem?_veil]
  cases s.tasks[task]? with
  | none => rfl
  | some found =>
    cases found with
    | swept consumer =>
      have taken := MultiLevelQueue.cover_dequeueLocked v.cover s.broker.queue
        (neutral.imp_right fun same level node rest served front =>
          s.broker.neutral_levelShareCost (same level node rest served front))
      simp only [Option.map_some, Task.veil, veil_broker, Broker.veil_queue, Broker.levelShareCost_veil, ← taken]
      cases s.broker.queue.dequeueLocked s.broker.levelShareCost with
      | none => simp only [Option.map_none, Option.map_some, veil_proceed, List.map_cons, List.map_nil, Task.veil]
      | some pair =>
        simp only [Option.map_some, veil_proceed, List.map_cons, List.map_nil, Task.veil]
        rfl
    | _ => rfl

theorem veil_inspect (task : Nat) (expiryAt idAt : Time) : (s.step cfg (.inspect task expiryAt idAt)).map (veil v) =
    (s.veil v).step (cfg.veil v.keep) (.inspect task expiryAt idAt) := by
  simp only [step, getElem?_veil]
  cases s.tasks[task]? with
  | none => rfl
  | some found =>
    cases found with
    | selected consumer msg =>
      have expiry : (msg.cover v.cover).isExpired expiryAt ↔ msg.isExpired expiryAt := Iff.rfl
      simp only [Option.map_some, Task.veil, veil_now, expiry]
      split
      · split
        · simp only [Option.map_some, veil_proceed, veil_log]
          rfl
        · simp only [Option.map_some, veil_proceed, veil_log]
          rfl
      · rfl
    | _ => rfl

theorem veil_install (task : Nat) (cancelled : Bool) (fault : Fault) (leaseAt pullAt : Time)
    (neutral : s.Neutral v (.install task cancelled fault leaseAt pullAt)) :
    (s.step cfg (.install task cancelled fault leaseAt pullAt)).map (veil v) =
      (s.veil v).step (cfg.veil v.keep) (.install task cancelled fault leaseAt pullAt) := by
  simp only [step, getElem?_veil, veil_holder]
  cases s.holder with
  | some holder => rfl
  | none =>
    cases found : s.tasks[task]? with
    | none => rfl
    | some next =>
      cases next with
      | staged consumer msg token =>
        have same := neutral.imp_right fun same => same consumer msg token found
        simp only [Option.map_some, Option.map_none, Task.veil, veil_now, veil_lockClock]
        split
        · simp only [Option.map_some, veil_proceed, veil_installFor _ _ _ _ _ _ _ _ _ _ same, List.map_nil]
        · rfl
      | _ => rfl

theorem veil_settlement : (∀ call recordAt leaseAt r, (s.step cfg (.settle call recordAt leaseAt r)).map (veil v) =
      (s.veil v).step (cfg.veil v.keep) (.settle call recordAt leaseAt r)) ∧
    ∀ doneAt pruneAt, (s.step cfg (.close doneAt pruneAt)).map (veil v) =
      (s.veil v).step (cfg.veil v.keep) (.close doneAt pruneAt) := by
  refine ⟨fun call recordAt leaseAt r => ?_, fun doneAt pruneAt => ?_⟩
  · have refused : (s.veil v).broker.settleRefused call = s.broker.settleRefused call := rfl
    simp only [step, refused, veil_holder, Option.isNone_map, veil_lockClock, veil_now, veil_settleFor]
    cases s.broker.settleRefused call with
    | some status =>
      simp only [Option.map_some, veil_log]
      rfl
    | none =>
      simp only
      split <;> rfl
  · simp only [step, veil_holder]
    cases s.holder with
    | none => rfl
    | some holder =>
      cases holder with
      | settling call entry kind status update =>
        simp only [Option.map_some, Holder.veil, veil_now, veil_lockClock, veil_closeEntry, veil_lessons, toList_kept?,
          kept_append]
        split
        · simp only [Option.map_some, veil_log]
          rfl
        · rfl
      | _ => rfl

theorem veil_maintenance :
    (∀ reading, (s.step cfg (.maintain reading)).map (veil v) = (s.veil v).step (cfg.veil v.keep) (.maintain reading)) ∧
    (∀ r, (s.step cfg (.reclaim r)).map (veil v) = (s.veil v).step (cfg.veil v.keep) (.reclaim r)) ∧
    (∀ doneAt pruneAt, (s.step cfg (.closeReclaim doneAt pruneAt)).map (veil v) =
      (s.veil v).step (cfg.veil v.keep) (.closeReclaim doneAt pruneAt)) ∧
    (∀ pruneAt, (s.step cfg (.endMaintain pruneAt)).map (veil v) =
      (s.veil v).step (cfg.veil v.keep) (.endMaintain pruneAt)) ∧
    ∀ reading readings, (s.step cfg (.age reading readings)).map (veil v) =
      (s.veil v).step (cfg.veil v.keep) (.age reading readings) := by
  have due : ∀ reading, dueLease? (s.broker.deliveries.cover v.cover) reading = dueLease? s.broker.deliveries reading :=
    fun _ => rfl
  refine ⟨fun reading => ?_, fun r => ?_, fun doneAt pruneAt => ?_, fun pruneAt => ?_, fun reading readings => ?_⟩
  · simp only [step, veil_holder, Option.isNone_map, veil_lockClock, veil_now]
    split
    · simp only [Option.map_some, veil, Holder.veil, kept_nil]
      rfl
    · rfl
  · simp only [step, veil_holder]
    cases s.holder with
    | none => rfl
    | some holder =>
      cases holder with
      | maintaining budget reading updates =>
        cases budget with
        | zero => rfl
        | succ budget =>
          simp only [Option.map_some, Holder.veil, veil_broker, Broker.veil_deliveries, due]
          cases dueLease? s.broker.deliveries reading with
          | none => rfl
          | some id =>
            simp only [Deliveries.cover_inFlight, lookup_mapTable]
            cases s.broker.deliveries.inFlight.lookup id with
            | none => rfl
            | some entry =>
              simp only [Option.map_some, veil_now, veil_lockClock, Broker.veil_finishHand, veil_handOff,
                Broker.Finished.veil_update, toList_kept?, kept_append]
              split <;> rfl
      | _ => rfl
  · simp only [step, veil_holder]
    cases s.holder with
    | none => rfl
    | some holder =>
      cases holder with
      | reclaiming budget reading updates id entry =>
        simp only [Option.map_some, Holder.veil, veil_now, veil_lockClock, veil_closeEntry]
        split <;> rfl
      | _ => rfl
  · simp only [step, veil_holder]
    cases s.holder with
    | none => rfl
    | some holder =>
      cases holder with
      | maintaining budget reading updates =>
        simp only [Option.map_some, Holder.veil, veil_now, veil_lockClock, due, veil_broker, Broker.veil_deliveries,
          HarbingerConfig.veil_maintenanceBatchSize, Deliveries.cover_pruneCompletionsLocked, veil_lessons, kept_append]
        split <;> rfl
      | _ => rfl
  · have aged := MultiLevelQueue.cover_ageOnceLocked v.cover s.broker.queue reading (readings.getD · s.now)
    simp only [step, veil_now, veil_broker, Broker.veil_queue, aged]
    split <;> rfl

theorem veil_learn (keep : v.keep = true) (lesson : Nat) (first second : Time) :
    (s.step cfg (.learn lesson first second)).map (veil v) =
      (s.veil v).step (cfg.veil v.keep) (.learn lesson first second) := by
  simp only [step, veil_lessons, veil_broker, keep, kept, Broker.veil_learn _ _ keep]
  cases s.lessons[lesson]? with
  | none => rfl
  | some update => simp only [Option.map_some, veil, keep, kept]

/-- The veil commutes with every step, learning only if it keeps the predictor. -/
theorem step_veil (routes : Broker.Routes σ v cfg) {action : Action} (neutral : s.Neutral v action)
    (shown : ∀ lesson first second, action = .learn lesson first second → v.keep = true) :
    (s.step cfg action).map (veil v) = (s.veil v).step (cfg.veil v.keep) (action.veil v) := by
  cases action with
  | submit req idAt arrivalAt => exact (s.veil_ingress v cfg routes).1 req idAt arrivalAt
  | route task r => exact (s.veil_ingress v cfg routes).2.1 task r
  | enqueue task enqueueAt stamp => exact (s.veil_ingress v cfg routes).2.2 task enqueueAt stamp
  | sweep task reading => exact (s.veil_sweeping v cfg).1 task reading
  | backgroundSweep reading => exact (s.veil_sweeping v cfg).2.1 reading
  | bury task dlqAt stamp => exact (s.veil_sweeping v cfg).2.2 task dlqAt stamp
  | dequeue task => exact s.veil_dequeue v cfg task neutral
  | inspect task expiryAt idAt => exact s.veil_inspect v cfg task expiryAt idAt
  | install task cancelled fault leaseAt pullAt => exact s.veil_install v cfg task cancelled fault leaseAt pullAt neutral
  | settle call recordAt leaseAt r => exact (s.veil_settlement v cfg).1 call recordAt leaseAt r
  | close doneAt pruneAt => exact (s.veil_settlement v cfg).2 doneAt pruneAt
  | maintain reading => exact (s.veil_maintenance v cfg).1 reading
  | reclaim r => exact (s.veil_maintenance v cfg).2.1 r
  | closeReclaim doneAt pruneAt => exact (s.veil_maintenance v cfg).2.2.1 doneAt pruneAt
  | endMaintain pruneAt => exact (s.veil_maintenance v cfg).2.2.2.1 pruneAt
  | age reading readings => exact (s.veil_maintenance v cfg).2.2.2.2 reading readings
  | learn lesson first second => exact s.veil_learn v cfg (shown lesson first second rfl) lesson first second
  | _ => exact s.veil_tidying v cfg _ trivial

end Steps

end System

section Bare
variable {σ : Type}

/-- Routing contexts, predictor, features and feedback are taken away. -/
def Veil.bare : Veil where
  cover := .bare
  keep := false
  loyal := nofun
  blank := rfl
  producer _ := rfl
  ttl _ := rfl
  payload _ := rfl
  headers _ := rfl

def DLQEntry.bare (entry : DLQEntry) : DLQEntry := { entry with message := entry.message.bare }

/-- The configuration of a broker that neither predicts nor records. -/
def HarbingerConfig.bare (cfg : HarbingerConfig) : HarbingerConfig :=
  { cfg with ingressFeatures := none, feedback := false, predictiveRouting := none }

def System.bare (s : System σ) : System σ := s.veil .bare

/-- The step charges or refunds no level for a message with a prediction: a pull serves the level
with the smallest clock, and an installation that fails puts its message back. -/
def System.Uncharged (s : System σ) : Action → Prop
  | .dequeue _ => ∀ level node rest, s.broker.queue.bestLevel = some level →
      s.broker.queue.queues level = node :: rest → node.message.prediction = none
  | .install task _ _ _ _ => ∀ consumer msg token, s.tasks[task]? = some (.staged consumer msg token) →
      msg.prediction = none
  | _ => True

theorem System.Uncharged.neutral {s : System σ} {action : Action}
    (uncharged : s.broker.queue.weights = none ∨ s.Uncharged action) : s.Neutral .bare action := by
  refine uncharged.imp_right fun unpredicted => ?_
  cases action with
  | dequeue task => exact fun level node rest served front => (unpredicted level node rest served front).symm
  | install task cancelled fault leaseAt pullAt =>
    exact fun consumer msg token staged => (unpredicted consumer msg token staged).symm
  | _ => trivial

variable [Inference σ] (cfg : HarbingerConfig)

theorem routes_bare (shadow : ∀ routing, cfg.predictiveRouting = some routing → routing.mode ≠ .predictive) :
    Broker.Routes σ .bare cfg := by
  intro b msg r
  have target : (b.veil .bare).routeMessage (cfg.veil false) (msg.cover .bare) r =
      ((Broker.assignDefaults cfg msg).bare, b.veil .bare) := rfl
  refine target.trans ?_
  unfold Broker.routeMessage
  split
  next p routing _ routed =>
    simp only [Broker.predictRoute, if_neg (shadow routing routed)]
    rfl
  · split <;> rfl

theorem System.step_bare (s : System σ)
    (shadow : ∀ routing, cfg.predictiveRouting = some routing → routing.mode ≠ .predictive)
    {action : Action} (uncharged : s.broker.queue.weights = none ∨ s.Uncharged action)
    (shown : ∀ lesson first second, action ≠ .learn lesson first second) :
    (s.step cfg action).map bare = s.bare.step cfg.bare action := by
  have same : action.veil .bare = action := by cases action <;> rfl
  have stepped := s.step_veil .bare cfg (routes_bare cfg shadow) (Uncharged.neutral uncharged)
    fun lesson first second learning => (shown lesson first second learning).elim
  rw [same] at stepped
  exact stepped

theorem System.step_learn_bare (s : System σ) {lesson : Nat} {first second : Time} {s' : System σ}
    (moved : s.step cfg (.learn lesson first second) = some s') : s'.bare = s.bare := by
  simp only [step] at moved
  split at moved
  · cases moved
  · next update _ =>
    obtain rfl := Option.some.inj moved
    obtain ⟨predictor, same⟩ := s.broker.learn_eq update first second
    rw [same]
    rfl

end Bare

end Harbinger
