import Harbinger.Calendar.Civil
import Harbinger.Ml.Features

/-! The label of a feedback event and the version 1 record that `feedback_json` writes of it.
The record is the document; its text is the compact rendering. `none` stands for a throw. -/

namespace Harbinger.Ml

inductive LabelStatus where
  | eligible | failure | censored | missing | negative | outOfRange | invalidFeatures
  deriving DecidableEq, Repr

def LabelStatus.text : LabelStatus → Bytes
  | .eligible => ascii "eligible"
  | .failure => ascii "failure"
  | .censored => ascii "censored"
  | .missing => ascii "missing"
  | .negative => ascii "negative"
  | .outOfRange => ascii "out_of_range"
  | .invalidFeatures => ascii "invalid_features"

/-- The features of the event are there and valid. -/
def FeedbackEvent.learnable (event : FeedbackEvent) : Bool :=
  match event.routing with
  | none => false
  | some routing => routing.features.isSome && routing.featureValidity = .valid

def classifyLabel (event : FeedbackEvent) (lease : Millis) : LabelStatus :=
  match event.processingTimeMs with
  | none => .missing
  | some measurement =>
    if measurement < 0 then .negative
    else if lease < measurement then .outOfRange
    else if !event.learnable then .invalidFeatures
    else if event.dlqReason = some .ttlExpired then .censored
    else if event.operation = some .nack then .failure
    else if event.outcome = some .ack then .eligible
    else .missing

def FeedbackTrigger.text : FeedbackTrigger → Bytes
  | .submit => ascii "submit"
  | .settlement => ascii "settlement"
  | .leaseExpiry => ascii "lease_expiry"
  | .pullExpiry => ascii "pull_expiry"
  | .ttlSweep => ascii "ttl_sweep"

def FeedbackOperation.text : FeedbackOperation → Bytes
  | .ack => ascii "ack"
  | .nack => ascii "nack"

def FeedbackOutcome.text : FeedbackOutcome → Bytes
  | .ack => ascii "ack"
  | .retry => ascii "retry"
  | .dlq => ascii "dlq"

def dlqReasonText : DLQReason → Bytes
  | .ttlExpired => ascii "TTL_EXPIRED"
  | .maxRetriesExceeded => ascii "MAX_RETRIES_EXCEEDED"
  | .processingError => ascii "PROCESSING_ERROR"

def RoutingMode.text : RoutingMode → Bytes
  | .disabled => ascii "disabled"
  | .shadow => ascii "shadow"
  | .predictive => ascii "predictive"

def FeatureValidity.text : FeatureValidity → Bytes
  | .valid => ascii "valid"
  | .featureLimit => ascii "feature_limit"

def FallbackReason.text : FallbackReason → Bytes
  | .timeout => ascii "timeout"
  | .unavailable => ascii "unavailable"
  | .overloaded => ascii "overloaded"
  | .unready => ascii "unready"
  | .incompatibleVersion => ascii "incompatible_version"
  | .invalidPrediction => ascii "invalid_prediction"
  | .featureLimit => ascii "feature_limit"
  | .clientError => ascii "client_error"
  | .coldKey => ascii "cold_key"
  | .highSpread => ascii "high_spread"
  | .censored => ascii "censored"
  | .staleKey => ascii "stale_key"
  | .invalidKey => ascii "invalid_key"

/-- The value, or `null`. -/
def orNull {α : Type} (document : α → Document) : Option α → Document
  | none => .null
  | some value => document value

def textDocument (text : Bytes) : Document := .string text
def integerDocument (value : Int) : Document := .number (.integer value)
def realDocument (value : ℚ) : Document := .number (.real value)

def RoutingContext.document (context : RoutingContext) : Document :=
  .object [
    (ascii "feature_schema_version", .string context.featureSchemaVersion),
    (ascii "routing_policy_version", .string context.routingPolicyVersion),
    (ascii "model_version", orNull textDocument context.modelVersion),
    (ascii "mode", .string context.mode.text),
    (ascii "features", orNull FeatureSnapshot.document context.features),
    (ascii "feature_validity", .string context.featureValidity.text),
    (ascii "predicted_processing_time_ms", orNull realDocument context.predictedProcessingTimeMs),
    (ascii "predicted_bucket", orNull (fun bucket : Nat => integerDocument bucket) context.predictedBucket),
    (ascii "ingress_priority", integerDocument context.ingressPriority),
    (ascii "fallback_reason", orNull (fun reason => textDocument reason.text) context.fallbackReason),
    (ascii "inference_elapsed_ms", orNull realDocument context.inferenceElapsedMs)]

def validVersion (version : Bytes) : Bool := (validateVersion version).isOk

/-- The checks that `context_json` makes while it writes. -/
def RoutingContext.writable (decimals : Decimals) (context : RoutingContext) : Bool :=
  validVersion context.featureSchemaVersion && validVersion context.routingPolicyVersion &&
    context.modelVersion.all validVersion && context.features.all fun snapshot => (snapshot.json decimals).isOk

/-- Two decimal digits. -/
def twoDigits (n : Nat) : Bytes := [byte '0' + (n / 10 % 10).toUInt8, byte '0' + (n % 10).toUInt8]

/-- `gmtime_r` and `strftime` with `%Y-%m-%dT%H:%M:%SZ`, for a system clock reading in
nanoseconds; `to_time_t` cuts towards zero. -/
def utcText (collectedAt : Int) : Bytes :=
  let seconds := Int.tdiv collectedAt 1000000000
  let date := Calendar.Date.ofDays (seconds / 86400)
  let second := (seconds % 86400).toNat
  decimalInt date.year ++ byte '-' :: twoDigits date.month ++ byte '-' :: twoDigits date.day ++
    byte 'T' :: twoDigits (second / 3600) ++ byte ':' :: twoDigits (second / 60 % 60) ++
    byte ':' :: twoDigits (second % 60) ++ [byte 'Z']

def maxEventBytes : Nat := 16384

/-- Whose record it is: the writer's instance and the number of the event. -/
structure RecordIdentity where
  instanceId : Bytes
  sequence : Nat

def RecordIdentity.text (identity : RecordIdentity) : Bytes :=
  identity.instanceId ++ byte ':' :: decimal identity.sequence

/-- `instance_id`, from its random bytes. -/
def instanceId (random : List UInt8) : Bytes :=
  random.flatMap fun value : UInt8 => [Json.hexDigit (value >>> 4), Json.hexDigit (value &&& 15)]

/-- The members of a record. -/
def FeedbackEvent.members (event : FeedbackEvent) (identity : RecordIdentity) (lease : Millis)
    (routing : RoutingContext) : List (Bytes × Document) := [
  (ascii "record_version", integerDocument 1),
  (ascii "event_id", .string identity.text),
  (ascii "broker_instance_id", .string identity.instanceId),
  (ascii "message_id", .string event.messageId),
  (ascii "event_type", .string (if event.trigger = .submit then ascii "ingress" else ascii "outcome")),
  (ascii "attempt_id", orNull (fun attempt => textDocument (decimal attempt)) event.attemptId),
  (ascii "collected_at_utc", .string (utcText event.collectedAt)),
  (ascii "routing", routing.document),
  (ascii "settlement_operation", orNull (fun operation => textDocument operation.text) event.operation),
  (ascii "trigger", .string event.trigger.text),
  (ascii "outcome", orNull (fun outcome => textDocument outcome.text) event.outcome),
  (ascii "dlq_reason", orNull (fun reason => textDocument (dlqReasonText reason)) event.dlqReason),
  (ascii "retry_count", integerDocument event.retryCount),
  (ascii "processing_time_ms", orNull integerDocument event.processingTimeMs),
  (ascii "label_status", .string (classifyLabel event lease).text),
  (ascii "elapsed_since_arrival_ms", integerDocument event.elapsedSinceArrivalMs)]

/-- What the members of a record are looked up as, whatever follows them. -/
structure FeedbackEvent.Recorded (event : FeedbackEvent) (identity : RecordIdentity) (lease : Millis)
    (routing : RoutingContext) (record : Document) : Prop where
  version : record.get? (ascii "record_version") = some (integerDocument 1)
  eventId : record.get? (ascii "event_id") = some (.string identity.text)
  instanceId : record.get? (ascii "broker_instance_id") = some (.string identity.instanceId)
  messageId : record.get? (ascii "message_id") = some (.string event.messageId)
  eventType : record.get? (ascii "event_type") =
    some (.string (if event.trigger = .submit then ascii "ingress" else ascii "outcome"))
  attemptId : record.get? (ascii "attempt_id") =
    some (orNull (fun attempt => textDocument (decimal attempt)) event.attemptId)
  collectedAt : record.get? (ascii "collected_at_utc") = some (.string (utcText event.collectedAt))
  routed : record.get? (ascii "routing") = some routing.document
  operation : record.get? (ascii "settlement_operation") =
    some (orNull (fun operation => textDocument operation.text) event.operation)
  trigger : record.get? (ascii "trigger") = some (.string event.trigger.text)
  outcome : record.get? (ascii "outcome") = some (orNull (fun outcome => textDocument outcome.text) event.outcome)
  dlqReason : record.get? (ascii "dlq_reason") =
    some (orNull (fun reason => textDocument (dlqReasonText reason)) event.dlqReason)
  retryCount : record.get? (ascii "retry_count") = some (integerDocument event.retryCount)
  processingTimeMs : record.get? (ascii "processing_time_ms") =
    some (orNull integerDocument event.processingTimeMs)
  labelStatus : record.get? (ascii "label_status") = some (.string (classifyLabel event lease).text)
  elapsed : record.get? (ascii "elapsed_since_arrival_ms") = some (integerDocument event.elapsedSinceArrivalMs)

theorem FeedbackEvent.recorded (event : FeedbackEvent) (identity : RecordIdentity) (lease : Millis)
    (routing : RoutingContext) (rest : List (Bytes × Document)) :
    event.Recorded identity lease routing (.object (event.members identity lease routing ++ rest)) :=
  ⟨rfl, rfl, rfl, rfl, rfl, rfl, rfl, rfl, rfl, rfl, rfl, rfl, rfl, rfl, rfl, rfl⟩

/-- The record that `feedback_json` writes, without its size limit. -/
def feedbackRecord (decimals : Decimals) (event : FeedbackEvent) (identity : RecordIdentity) (lease : Millis) :
    Option Document :=
  match event.routing with
  | none => none
  | some routing =>
    if validVersion identity.instanceId && validVersion event.messageId && identity.sequence != 0 &&
        routing.writable decimals then
      some (.object (event.members identity lease routing))
    else none

/-- `feedback_json`. -/
def feedbackJson (decimals : Decimals) (event : FeedbackEvent) (identity : RecordIdentity) (lease : Millis)
    (maxBytes : Nat) : Option Bytes :=
  if maxEventBytes < maxBytes then none
  else ((feedbackRecord decimals event identity lease).map (Json.render (Number.spell decimals))).filter
    fun text => text.length ≤ maxBytes

end Harbinger.Ml
