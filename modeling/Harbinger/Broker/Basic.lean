import Harbinger.Broker.Delivery
import Harbinger.Queue.Basic

/-! `HarbingerService`: ingress, routing, settlement and learning as functions on the
broker's state. Clock readings are arguments. The telemetry counters of routing and
learning feed nothing back and are left out; a double is an exact rational. -/

namespace Harbinger
open Container Ml

variable {σ : Type}

structure Broker (σ : Type) where
  queue : MultiLevelQueue
  dlq : List DLQEntry := []
  deliveries : Deliveries := {}
  levelCost : Nat → ℚ := fun _ => 0
  predictor : Option σ := none
  producers : List Bytes := []
  producerCounter : Nat := 0
  consumers : List Bytes := []
  consumerCounter : Nat := 0
  idCounter : Nat := 0
  instanceToken : Bytes := []

structure PredictorUpdate where
  key : Bytes
  parent : Option Bytes := none
  durationMs : Option ℚ := none
  censored : Bool := false
  predictedMs : Option ℚ := none
  predictedBucket : Option Nat := none
  deriving DecidableEq

structure SubmitRequest where
  producerId : Bytes
  payload : Bytes := []
  headers : Headers := ∅
  ttlMs : Option Millis := none

namespace Broker

/-- The constructor for a validated configuration; the id counter is shared by the process. -/
def create (cfg : HarbingerConfig) (predictor : Option σ) (instanceToken : Bytes) (idCounter : Nat) :
    Except String (Broker σ) := do
  let selection := if cfg.levelWeights.isSome then .weightedTime else .strictPriority
  let queue ← MultiLevelQueue.create cfg.numLevels.toNat cfg.aging selection cfg.levelWeights
  return { queue, predictor, instanceToken, idCounter }

def registerProducer (b : Broker σ) : Broker σ :=
  { b with
    producers := (ascii "producer-" ++ decimal b.producerCounter) :: b.producers
    producerCounter := b.producerCounter + 1 }

def registerConsumer (b : Broker σ) : Broker σ :=
  { b with
    consumers := (ascii "consumer-" ++ decimal b.consumerCounter) :: b.consumers
    consumerCounter := b.consumerCounter + 1 }

/-- `Proxy::generate_id` at the clock reading `now`. -/
def generateId (b : Broker σ) (now : Time) : Bytes := decimalInt now ++ 45 :: decimal b.idCounter

def countId (b : Broker σ) : Broker σ := { b with idCounter := b.idCounter + 1 }

def attemptToken (b : Broker σ) (now : Time) : Bytes := b.instanceToken ++ 45 :: b.generateId now

/-- The argument checks of `Submit`. -/
def submitRefused (b : Broker σ) (req : SubmitRequest) : Option Status :=
  if req.producerId ∉ b.producers then
    some ⟨.permissionDenied, ascii "Unknown producer: " ++ req.producerId⟩
  else if ∃ ttl ∈ req.ttlMs, ttl < 0 then some ⟨.invalidArgument, ascii "ttl_ms must be >= 0"⟩
  else none

/-- `Proxy::accept` up to the sink. -/
def accept (b : Broker σ) (req : SubmitRequest) (idAt arrivalAt : Time) : Message where
  id := b.generateId idAt
  arrivalTime := arrivalAt
  ttl := req.ttlMs.getD ttlUnset
  payload := req.payload
  headers := req.headers.insert (ascii "__producer_id") req.producerId

/-- The readings of one `predict_route`: the clock of each lookup and the measured latency. -/
structure PredictReadings where
  keyAt : Time
  parentAt : Time
  elapsedNs : Nat

section Predict
variable [Inference σ]

/-- A cold size bin borrows its own key's history. -/
def lookupPrediction (defaultPriority : Nat) (p : σ) (keys : Option PredictorKeys) (r : PredictReadings) :
    DurationPrediction × σ :=
  match keys with
  | none => ({ bucket := defaultPriority, status := .invalidKey }, p)
  | some keys =>
    let (prediction, p) := Inference.predict p r.keyAt keys.key
    match prediction.status, keys.parent with
    | .coldKey, some parent =>
      let (borrowed, p) := Inference.predict p r.parentAt parent
      (if borrowed.status = .predicted then borrowed else prediction, p)
    | _, _ => (prediction, p)

/-- The prediction part of the routing context; a bucket out of range is an invalid prediction. -/
def notePrediction (numLevels : Nat) (context : RoutingContext) (prediction : DurationPrediction) :
    RoutingContext :=
  match prediction.status with
  | .predicted =>
    if numLevels ≤ prediction.bucket then { context with fallbackReason := some .invalidPrediction }
    else { context with
      predictedProcessingTimeMs := prediction.estimateMs
      predictedBucket := some prediction.bucket }
  | .unready => { context with fallbackReason := some .unready }
  | .coldKey => { context with fallbackReason := some .coldKey }
  | .highSpread => { context with fallbackReason := some .highSpread }
  | .censored => { context with fallbackReason := some .censored }
  | .staleKey => { context with fallbackReason := some .staleKey }
  | .invalidKey => { context with fallbackReason := some .invalidKey }

/-- `predict_route`: the chosen priority, the completed context and the predictor. -/
def predictRoute (cfg : HarbingerConfig) (routing : PredictiveRoutingConfig) (p : σ) (msg : Message)
    (context : RoutingContext) (r : PredictReadings) : Nat × RoutingContext × σ :=
  let keys := derivePredictorKeys σ msg.headers routing.key msg.payload.length
  let version := Inference.modelVersion p
  let (prediction, p) := lookupPrediction cfg.defaultPriority.toNat p keys r
  let context := notePrediction cfg.numLevels.toNat { context with
    mode := routing.mode
    routingPolicyVersion := routing.routingPolicyVersion
    predictorKey := keys.map PredictorKeys.key
    predictorParentKey := keys.bind PredictorKeys.parent
    modelVersion := some version
    inferenceElapsedMs := some ((r.elapsedNs : ℚ) / 1000000) } prediction
  (if routing.mode = .predictive then context.predictedBucket.getD msg.priority else msg.priority, context, p)

/-- The context before prediction: the extracted features, if features are on. -/
def ingressContext (σ : Type) [Inference σ] (cfg : HarbingerConfig) (msg : Message) : RoutingContext :=
  match cfg.ingressFeatures with
  | none => { featureSchemaVersion := ascii "none" }
  | some ingress =>
    let extracted := extract (Inference.decimals σ) ingress.schema msg.payload.length msg.headers
    { featureSchemaVersion := ingress.schema.version
      routingPolicyVersion := ingress.routingPolicyVersion
      features := extracted.features
      featureValidity := extracted.validity }

/-- The defaults that `route_message` assigns first. -/
def assignDefaults (cfg : HarbingerConfig) (msg : Message) : Message :=
  { msg with
    priority := cfg.defaultPriority.toNat
    originalPriority := cfg.defaultPriority.toNat
    maxRetries := cfg.defaultMaxRetries.toNat
    ttl := if msg.ttl = ttlUnset then cfg.defaultTtl else msg.ttl }

/-- `route_message` up to the enqueue. -/
def routeMessage (cfg : HarbingerConfig) (b : Broker σ) (msg : Message) (r : PredictReadings) :
    Message × Broker σ :=
  let msg := assignDefaults cfg msg
  match b.predictor, cfg.predictiveRouting with
  | some p, some routing =>
    let (priority, context, p) := predictRoute cfg routing p msg (ingressContext σ cfg msg) r
    ({ msg with
        priority
        originalPriority := priority
        routingContext := some { context with ingressPriority := priority } },
      { b with predictor := some p })
  | _, _ =>
    if cfg.ingressFeatures.isSome then
      ({ msg with routingContext := some { ingressContext σ cfg msg with ingressPriority := msg.priority } }, b)
    else (msg, b)

/-- `learn`: the predictor operations, at the readings of its first and second call. -/
def learn (b : Broker σ) (update : PredictorUpdate) (first second : Time) : Broker σ :=
  match b.predictor with
  | none => b
  | some p =>
    if update.censored then
      let p := (Inference.observeCensored p first update.key).2
      { b with predictor := some <| match update.parent with
          | none => p
          | some parent => (Inference.observeCensored p second parent).2 }
    else match update.durationMs with
      | none => b
      | some duration =>
        { b with predictor := some (Inference.observe p first update.key (update.parent.getD []) duration).2 }

theorem routeMessage_eq (cfg : HarbingerConfig) (b : Broker σ) (msg : Message) (r : PredictReadings) :
    ∃ predictor, (b.routeMessage cfg msg r).2 = { b with predictor } := by
  simp only [routeMessage]
  split
  · exact ⟨_, rfl⟩
  · split <;> exact ⟨b.predictor, rfl⟩

theorem learn_eq (b : Broker σ) (update : PredictorUpdate) (first second : Time) :
    ∃ predictor, b.learn update first second = { b with predictor } := by
  unfold learn
  split
  · exact ⟨b.predictor, rfl⟩
  · split
    · exact ⟨_, rfl⟩
    · split
      · exact ⟨b.predictor, rfl⟩
      · exact ⟨_, rfl⟩

end Predict

/-- The cost function of `make_level_share`. -/
def levelShareCost (b : Broker σ) : CostFunction := fun msg =>
  match msg.prediction with
  | some predicted => some predicted
  | none =>
    let average := b.levelCost msg.priority
    some (if 0 < average then average else MultiLevelQueue.minCostMs)

def captureEvent (cfg : HarbingerConfig) (msg : Message) (trigger : FeedbackTrigger) (stamp : Stamp) :
    Option FeedbackEvent :=
  if cfg.feedback then captureFeedback msg trigger stamp else none

def deadLettered (reason : DLQReason) (event : FeedbackEvent) : FeedbackEvent :=
  { event with outcome := some .dlq, dlqReason := some reason }

/-- `DeadLetterQueue::push`. -/
def pushDlq (b : Broker σ) (msg : Message) (reason : DLQReason) (dlqTime : Time) (details : Bytes) : Broker σ :=
  { b with dlq := b.dlq ++ [⟨msg, reason, dlqTime, details⟩] }

/-- A duration that an Ack teaches: measured within the lease, and not after the TTL. -/
def taught (cfg : HarbingerConfig) (kind : Settlement) (expired : Bool) (measurement : Option Int) :
    Option Int :=
  if kind = .ack ∧ expired = false then
    measurement.filter fun sample => 0 ≤ sample ∧ sample ≤ cfg.deliveryLease
  else none

def averageCost (seen sample : ℚ) : ℚ := if 0 < seen then seen + 5 / 100 * (sample - seen) else sample

/-- The running average of the level that the message was pulled from. -/
def noteLevelCost (cfg : HarbingerConfig) (b : Broker σ) (level : Nat) (sample : Option Int) : Broker σ :=
  match cfg.levelWeights, sample with
  | some _, some sample =>
    { b with levelCost := Function.update b.levelCost level (averageCost (b.levelCost level) sample) }
  | _, _ => b

def predictorUpdate (cfg : HarbingerConfig) (b : Broker σ) (msg : Message) (kind : Settlement)
    (sample : Option Int) : Option PredictorUpdate :=
  match b.predictor, msg.routingContext with
  | some _, some context =>
    match context.predictorKey with
    | none => none
    | some key =>
      let featuresOk := cfg.ingressFeatures.isNone || context.featureValidity = .valid
      match sample, featuresOk with
      | some sample, true => some {
          key, parent := context.predictorParentKey, durationMs := some sample
          predictedMs := context.predictedProcessingTimeMs, predictedBucket := context.predictedBucket }
      | _, _ =>
        if kind = .expired then some { key, parent := context.predictorParentKey, censored := true }
        else none
  | _, _ => none

def settlementEvent (cfg : HarbingerConfig) (entry : InFlightEntry) (kind : Settlement)
    (measurement : Option Int) (stamp : Stamp) : Option FeedbackEvent :=
  (captureEvent cfg entry.message (if kind = .expired then .leaseExpiry else .settlement) stamp).map
    fun event => { event with
      attemptId := some entry.attemptId
      processingTimeMs := measurement
      operation := match kind with
        | .expired => none
        | .ack => some .ack
        | .nack => some .nack
      outcome := some .ack }

/-- Readings of `finish_locked` up to the hand-off: the expiry test, the event capture and the
time at which the DLQ or the queue stamps the message. -/
structure FinishReadings where
  expiryAt : Time
  stamp : Stamp
  placeAt : Time

structure Finished (σ : Type) where
  broker : Broker σ
  event : Option FeedbackEvent
  update : Option PredictorUpdate

/-- `++msg.retry_count` on a 32-bit counter. -/
def failOnce (msg : Message) : Message := { msg with retryCount := (msg.retryCount + 1) % 2 ^ 32 }

/-- The first part of `finish_locked`: the message leaves its attempt for the DLQ or the queue,
or is done. -/
def finishHand (cfg : HarbingerConfig) (b : Broker σ) (entry : InFlightEntry) (kind : Settlement)
    (reason : Bytes) (measurement : Option Int) (r : FinishReadings) : Finished σ :=
  let msg := entry.message
  let expired : Bool := msg.isExpired r.expiryAt
  let sample := taught cfg kind expired measurement
  let b := noteLevelCost cfg b msg.priority sample
  let update := predictorUpdate cfg b msg kind sample
  let event := settlementEvent cfg entry kind measurement r.stamp
  if expired then
    ⟨b.pushDlq msg .ttlExpired r.placeAt (ascii "TTL expired; " ++ reason),
      event.map (deadLettered .ttlExpired), update⟩
  else if kind = .ack then ⟨b, event, update⟩
  else
    let msg := failOnce msg
    let event := event.map fun event => { event with retryCount := msg.retryCount }
    if msg.maxRetries ≤ msg.retryCount then
      ⟨b.pushDlq msg .maxRetriesExceeded r.placeAt
          (ascii "Exceeded max_retries=" ++ decimal msg.maxRetries ++ ascii "; last reason: " ++ reason),
        event.map (deadLettered .maxRetriesExceeded), update⟩
    else
      let msg := { msg with priority := msg.originalPriority }
      ⟨{ b with queue := (b.queue.enqueue b.levelShareCost msg r.placeAt).getD b.queue },
        event.map fun event => { event with outcome := some .retry }, update⟩

/-- `finish_locked` without interruption. -/
def finishLocked (cfg : HarbingerConfig) (b : Broker σ) (id : Bytes) (entry : InFlightEntry)
    (kind : Settlement) (reason : Bytes) (measurement : Option Int) (r : FinishReadings)
    (recordAt pruneAt : Time) : Finished σ :=
  let out := b.finishHand cfg entry kind reason measurement r
  { out with broker := { out.broker with
      deliveries := out.broker.deliveries.finishClose cfg id entry kind recordAt pruneAt } }

/-- The argument checks of `settle`. -/
def settleRefused (b : Broker σ) (call : Deliveries.Call) : Option Status :=
  if call.owner ∉ b.consumers then some ⟨.permissionDenied, ascii "Unknown consumer"⟩
  else if ¬Deliveries.wellFormedToken call.token then
    some ⟨.invalidArgument, ascii "Invalid attempt token"⟩
  else none

structure SettleReadings where
  recordAt : Time
  leaseAt : Time
  finish : FinishReadings
  doneAt : Time
  pruneAt : Time

/-- `settle` without interruption, as `Ack` and `Nack` call it. -/
def settle (cfg : HarbingerConfig) (b : Broker σ) (call : Deliveries.Call) (r : SettleReadings) :
    Status × Finished σ :=
  match b.settleRefused call with
  | some status => (status, ⟨b, none, none⟩)
  | none =>
    match b.deliveries.settleLocked cfg call r.recordAt r.leaseAt with
    | (deliveries, .reply status) => (status, ⟨{ b with deliveries }, none, none⟩)
    | (deliveries, .finish entry kind reason measurement status) =>
      (status, { b with deliveries }.finishLocked cfg call.id entry kind reason measurement r.finish
        r.doneAt r.pruneAt)

end Broker

end Harbinger
