import Harbinger.Analysis.Snapshot

/-! `validate_record` of `analysis/feedback.py`: the reader's own rules for identifiers,
versions, ranges, the combinations of an event, and the precedence of labels. -/

namespace Harbinger.Analysis
open Ml

def recordFields : List Bytes :=
  ["record_version", "event_id", "broker_instance_id", "message_id", "event_type", "attempt_id", "collected_at_utc",
    "routing", "settlement_operation", "trigger", "outcome", "dlq_reason", "retry_count", "processing_time_ms",
    "label_status", "elapsed_since_arrival_ms"].map ascii

def routingFields : List Bytes :=
  ["feature_schema_version", "routing_policy_version", "model_version", "mode", "features", "feature_validity",
    "predicted_processing_time_ms", "predicted_bucket", "ingress_priority", "fallback_reason",
    "inference_elapsed_ms"].map ascii

def fallbackReasons : List String :=
  ["timeout", "unavailable", "overloaded", "unready", "incompatible_version", "invalid_prediction", "feature_limit",
    "client_error", "cold_key", "high_spread", "censored", "stale_key", "invalid_key"]

/-- `_integer`. -/
def isInteger (low high : Int) : Document → Bool
  | .number (.integer value) => low ≤ value && value ≤ high
  | _ => false

/-- `_identifier`. -/
def isIdentifier : Document → Bool
  | .string text => text != [] && text.length ≤ 128 && text.all fun c => 32 ≤ c
  | _ => false

/-- `value in texts`. -/
def isOneOf (texts : List String) : Document → Bool
  | .string text => (texts.map ascii).contains text
  | _ => false

def nullOr (test : Document → Bool) (document : Document) : Bool := document.isNull || test document

/-- `[1-9][0-9]{0,19}`, at most the largest 64-bit number. -/
def isOrdinal (text : Bytes) : Bool :=
  text.length ≤ 20 && text.head? != some (byte '0') && (ofDecimal text).any (· < 2 ^ 64)

def isEventIdentity : Document → Document → Bool
  | .string instanceId, .string eventId => (instanceId ++ [byte ':']).isPrefixOf eventId &&
      isOrdinal (eventId.drop (instanceId.length + 1))
  | _, _ => false

def isAttempt : Document → Bool
  | .string text => isOrdinal text
  | _ => false

/-- The number of two digits. -/
def pair (tens units : UInt8) : Option Nat := ofDecimal [tens, units]

/-- `%Y-%m-%dT%H:%M:%SZ` in digits, of a time that exists. -/
def isTimestamp : Document → Bool
  | .string [y1, y2, y3, y4, a, m1, m2, b, d1, d2, c, h1, h2, d, n1, n2, e, s1, s2, f] =>
    [a, b, c, d, e, f] = [byte '-', byte '-', byte 'T', byte ':', byte ':', byte 'Z'] &&
      match ofDecimal [y1, y2, y3, y4], pair m1 m2, pair d1 d2, pair h1 h2, pair n1 n2, pair s1 s2 with
      | some year, some month, some day, some hour, some minute, some second =>
        1 ≤ year && decide (Calendar.Date.Valid ⟨year, month, day⟩) && hour < 24 && minute < 60 && second < 60
      | _, _, _, _, _, _ => false
  | _ => false

/-- A finite number that is not negative. -/
def isDuration : Document → Bool
  | .number (.integer value) => 0 ≤ value
  | .number (.real value) => 0 ≤ value
  | _ => false

/-- The block of `validate_record` on the routing context. -/
def validateContext (decimals : Decimals) (schemas : Bytes → Option FeatureSchema) (routing : Document) :
    Except String Unit := do
  reject (!hasFields routing routingFields) "invalid routing fields"
  reject (!isIdentifier (field routing "feature_schema_version") ∨
    !isIdentifier (field routing "routing_policy_version")) "invalid routing version"
  reject (!nullOr isIdentifier (field routing "model_version")) "invalid model version"
  reject (!isOneOf ["disabled", "shadow", "predictive"] (field routing "mode") ∨
    !isOneOf ["valid", "feature_limit"] (field routing "feature_validity")) "invalid routing mode/validity"
  reject (!isInteger 0 254 (field routing "ingress_priority")) "invalid ingress priority"
  reject (!nullOr (isInteger 0 254) (field routing "predicted_bucket")) "invalid predicted bucket"
  reject (!nullOr isDuration (field routing "predicted_processing_time_ms") ∨
    !nullOr isDuration (field routing "inference_elapsed_ms")) "invalid routing measurement"
  reject (!nullOr (isOneOf fallbackReasons) (field routing "fallback_reason")) "invalid fallback reason"
  match (field routing "feature_schema_version").string? with
  | none => .error "invalid routing version"
  | some version =>
    match schemas version with
    | none => .error "unregistered feature schema"
    | some schema =>
      if isOneOf ["valid"] (field routing "feature_validity") then
        validateSnapshot decimals schema version (field routing "features")
      else reject (!(field routing "features").isNull) "feature-limit snapshot must be null"

/-- The combinations of trigger, operation, outcome and reason that a record may have. -/
def validateDisposition (record : Document) : Except String Unit :=
  let trigger := field record "trigger"
  let operation := field record "settlement_operation"
  let outcome := field record "outcome"
  let reason := field record "dlq_reason"
  let attempt := field record "attempt_id"
  let measurement := field record "processing_time_ms"
  if isOneOf ["ingress"] (field record "event_type") then
    reject (!isOneOf ["submit"] trigger ∨ !attempt.isNull ∨ !operation.isNull ∨ !outcome.isNull ∨ !reason.isNull ∨
      !measurement.isNull ∨ !isInteger 0 0 (field record "retry_count")) "invalid ingress event"
  else if isOneOf ["outcome"] (field record "event_type") then do
    reject (!isOneOf ["settlement", "lease_expiry", "pull_expiry", "ttl_sweep"] trigger ∨
      !isOneOf ["ack", "retry", "dlq"] outcome) "invalid outcome event"
    reject (isOneOf ["dlq"] outcome = reason.isNull ∨
      !nullOr (isOneOf ["TTL_EXPIRED", "MAX_RETRIES_EXCEEDED", "PROCESSING_ERROR"]) reason) "invalid DLQ disposition"
    if isOneOf ["settlement"] trigger then
      reject (attempt.isNull ∨ !isOneOf ["ack", "nack"] operation ∨ measurement.isNull)
        "invalid settlement observation"
      reject ((isOneOf ["ack"] outcome ∧ !isOneOf ["ack"] operation) ∨
        (isOneOf ["retry"] outcome ∧ !isOneOf ["nack"] operation)) "operation/outcome conflict"
    else
      reject (!operation.isNull ∨ !measurement.isNull ∨ isOneOf ["ack"] outcome) "invalid expiry observation"
      reject (isOneOf ["lease_expiry"] trigger ∧ attempt.isNull) "lease expiry needs attempt"
      reject (isOneOf ["pull_expiry", "ttl_sweep"] trigger ∧ (!attempt.isNull ∨ !isOneOf ["TTL_EXPIRED"] reason))
        "invalid queued expiry"
  else .error "invalid event type"

/-- The label that the reader expects. -/
def expectedLabel (lease : Millis) (record : Document) : Bytes :=
  match field record "processing_time_ms" with
  | .number (.integer measurement) =>
    if measurement < 0 then ascii "negative"
    else if lease < measurement then ascii "out_of_range"
    else if !isOneOf ["valid"] (field (field record "routing") "feature_validity") then ascii "invalid_features"
    else if isOneOf ["TTL_EXPIRED"] (field record "dlq_reason") then ascii "censored"
    else if isOneOf ["nack"] (field record "settlement_operation") then ascii "failure"
    else if isOneOf ["ack"] (field record "outcome") then ascii "eligible"
    else ascii "missing"
  | _ => ascii "missing"

def validateRecord (decimals : Decimals) (schemas : Bytes → Option FeatureSchema) (lease : Millis) (record : Document) :
    Except String Unit := do
  reject (!hasFields record recordFields ∨ !isInteger 1 1 (field record "record_version"))
    "unsupported feedback record/fields/version"
  reject (!isIdentifier (field record "message_id")) "invalid message_id"
  reject (!isIdentifier (field record "broker_instance_id")) "invalid broker_instance_id"
  reject (!isEventIdentity (field record "broker_instance_id") (field record "event_id")) "invalid event identity"
  reject (!nullOr isAttempt (field record "attempt_id")) "invalid attempt identity"
  reject (!isTimestamp (field record "collected_at_utc")) "invalid timestamp"
  reject (!isInteger 0 (2 ^ 32 - 1) (field record "retry_count") ∨
    !isInteger 0 (2 ^ 63 - 1) (field record "elapsed_since_arrival_ms")) "invalid feedback counters"
  reject (!nullOr (isInteger (-2 ^ 63) (2 ^ 63 - 1)) (field record "processing_time_ms")) "invalid measurement"
  validateContext decimals schemas (field record "routing")
  validateDisposition record
  reject ((field record "label_status").string? ≠ some (expectedLabel lease record)) "label precedence mismatch"

/-- No control characters. -/
def Plain (text : Bytes) : Prop := ∀ c ∈ text, 32 ≤ c

instance (text : Bytes) : Decidable (Plain text) := inferInstanceAs (Decidable (∀ c ∈ text, 32 ≤ c))

theorem isIdentifier_ok {text : Bytes} (valid : validVersion text = true) (plain : Plain text) :
    isIdentifier (.string text) = true := by
  have bounds : ¬(text = [] ∨ 128 < text.length ∨ ¬validUtf8 text = true) := by
    intro bad
    rw [validVersion, validateVersion, if_pos bad] at valid
    cases valid
  obtain ⟨nonempty, short, _⟩ := by simpa only [not_or, not_lt] using bounds
  simp only [isIdentifier, Bool.and_eq_true, bne_iff_ne, decide_eq_true_eq, List.all_eq_true]
  exact ⟨⟨nonempty, short⟩, plain⟩

/-- What the reader asks of a context beyond what the writer checks. -/
structure Presentable (decimals : Decimals) (schemas : Bytes → Option FeatureSchema) (context : RoutingContext) :
    Prop where
  schemaVersion : Plain context.featureSchemaVersion
  policyVersion : Plain context.routingPolicyVersion
  modelVersion : ∀ version ∈ context.modelVersion, Plain version
  priority : context.ingressPriority ≤ 254
  bucket : ∀ bucket ∈ context.predictedBucket, bucket ≤ 254
  estimate : ∀ estimate ∈ context.predictedProcessingTimeMs, 0 ≤ estimate
  elapsed : ∀ elapsed ∈ context.inferenceElapsedMs, 0 ≤ elapsed
  features : ∃ schema size headers, schemas context.featureSchemaVersion = some schema ∧
    schema.version = context.featureSchemaVersion ∧ schema.Checked ∧ size < 2 ^ 64 ∧
    context.features = (extract decimals schema size headers).features ∧
    context.featureValidity = (extract decimals schema size headers).validity

/-- The members of a written context. -/
structure Contextual (context : RoutingContext) (routing : Document) : Prop where
  keys : hasFields routing routingFields = true
  schemaVersion : field routing "feature_schema_version" = .string context.featureSchemaVersion
  policyVersion : field routing "routing_policy_version" = .string context.routingPolicyVersion
  modelVersion : field routing "model_version" = orNull textDocument context.modelVersion
  mode : field routing "mode" = .string context.mode.text
  features : field routing "features" = orNull FeatureSnapshot.document context.features
  validity : field routing "feature_validity" = .string context.featureValidity.text
  estimate : field routing "predicted_processing_time_ms" = orNull realDocument context.predictedProcessingTimeMs
  bucket : field routing "predicted_bucket" =
    orNull (fun bucket : Nat => integerDocument bucket) context.predictedBucket
  priority : field routing "ingress_priority" = integerDocument context.ingressPriority
  fallback : field routing "fallback_reason" =
    orNull (fun reason => textDocument reason.text) context.fallbackReason
  elapsed : field routing "inference_elapsed_ms" = orNull realDocument context.inferenceElapsedMs

theorem contextual (context : RoutingContext) : Contextual context context.document :=
  ⟨hasFields_of_keys (.refl _), rfl, rfl, rfl, rfl, rfl, rfl, rfl, rfl, rfl, rfl, rfl⟩

theorem nullOr_orNull {α : Type} {test : Document → Bool} {document : α → Document} {value : Option α}
    (passes : ∀ item ∈ value, test (document item) = true) : nullOr test (orNull document value) = true := by
  cases value with
  | none => rfl
  | some item =>
    rw [nullOr, orNull, passes item rfl, Bool.or_true]

theorem extract_valid {decimals : Decimals} {schema : FeatureSchema} {size : Nat} {headers : Headers}
    (writable : (extract decimals schema size headers).features.all (fun snapshot => (snapshot.json decimals).isOk)) :
    ((extract decimals schema size headers).validity = .valid ∧
      (extract decimals schema size headers).features = some (takeSnapshot decimals schema size headers) ∧
      ∃ text, (takeSnapshot decimals schema size headers).json decimals = .ok text) ∨
    ((extract decimals schema size headers).validity = .featureLimit ∧
      (extract decimals schema size headers).features = none) := by
  unfold extract at writable ⊢
  cases written : (takeSnapshot decimals schema size headers).json decimals with
  | ok text => exact Or.inl (by simp [written])
  | error error =>
    cases error with
    | lengthError message => exact Or.inr (by simp [written])
    | invalidArgument message => simp [written, Except.isOk, Except.toBool] at writable

theorem validateContext_ok {decimals : Decimals} {schemas : Bytes → Option FeatureSchema} {context : RoutingContext}
    (presentable : Presentable decimals schemas context) (writable : context.writable decimals = true) :
    validateContext decimals schemas context.document = .ok () := by
  have read := contextual context
  generalize context.document = routing at *
  simp only [RoutingContext.writable, Bool.and_eq_true] at writable
  obtain ⟨⟨⟨schemaVersion, policyVersion⟩, modelVersion⟩, writable⟩ := writable
  obtain ⟨schema, size, headers, registered, same, checked, small, features, validity⟩ := presentable.features
  have model : nullOr isIdentifier (orNull textDocument context.modelVersion) = true := by
    refine nullOr_orNull fun version given => isIdentifier_ok ?_ (presentable.modelVersion version given)
    rwa [Option.mem_def.mp given] at modelVersion
  have mode : isOneOf ["disabled", "shadow", "predictive"] (.string context.mode.text) = true := by
    cases context.mode <;> decide
  have known : isOneOf ["valid", "feature_limit"] (.string context.featureValidity.text) = true := by
    cases context.featureValidity <;> decide
  have priority : isInteger 0 254 (integerDocument context.ingressPriority) = true := by
    have bound := presentable.priority
    simp only [isInteger, integerDocument, Bool.and_eq_true, decide_eq_true_eq]
    omega
  have bucket : nullOr (isInteger 0 254) (orNull (fun bucket : Nat => integerDocument bucket) context.predictedBucket) =
      true := by
    refine nullOr_orNull fun bucket given => ?_
    have bound := presentable.bucket bucket given
    simp only [isInteger, integerDocument, Bool.and_eq_true, decide_eq_true_eq]
    omega
  have estimate : nullOr isDuration (orNull realDocument context.predictedProcessingTimeMs) = true :=
    nullOr_orNull fun value given => decide_eq_true (presentable.estimate value given)
  have elapsed : nullOr isDuration (orNull realDocument context.inferenceElapsedMs) = true :=
    nullOr_orNull fun value given => decide_eq_true (presentable.elapsed value given)
  have fallback : nullOr (isOneOf fallbackReasons)
      (orNull (fun reason : FallbackReason => textDocument reason.text) context.fallbackReason) = true := by
    refine nullOr_orNull fun reason _ => ?_
    cases reason <;> decide
  simp only [validateContext, read.keys, read.schemaVersion, read.policyVersion, read.modelVersion, read.mode,
    read.validity, read.estimate, read.bucket, read.priority, read.fallback, read.elapsed, read.features,
    isIdentifier_ok schemaVersion presentable.schemaVersion, isIdentifier_ok policyVersion presentable.policyVersion,
    model, mode, known, priority, bucket, estimate, elapsed, fallback, Json.Value.string?, registered, bind_ok,
    reject_ok]
  refine ⟨(), by simp, (), by simp, (), by simp, (), by simp, (), by simp, (), by simp, (), by simp, (), by simp, ?_⟩
  rw [features] at writable
  rcases extract_valid writable with ⟨valid, present, text, written⟩ | ⟨limited, absent⟩
  · rw [validity, valid, if_pos (by decide), features, present, ← same]
    exact validateSnapshot_ok checked small written
  · rw [validity, limited, if_neg (by decide), features, absent]
    rfl

theorem ofDecimal_twoDigits {n : Nat} (small : n < 100) : ofDecimal (twoDigits n) = some n := by
  have all : ∀ n < 100, ofDecimal (twoDigits n) = some n := by decide +kernel
  exact all n small

theorem decimalInt_year {year : Int} (first : 1000 ≤ year) (last : year < 10000) :
    ∃ y1 y2 y3 y4, decimalInt year = [y1, y2, y3, y4] ∧ ofDecimal [y1, y2, y3, y4] = some year.toNat := by
  obtain ⟨n, rfl⟩ := Int.eq_ofNat_of_zero_le (show 0 ≤ year by omega)
  have long : ¬(decimal n).length ≤ 3 := by
    rw [decimal, List.length_map, Nat.length_toDigits_le_iff (by decide) (by decide)]
    omega
  have short : (decimal n).length ≤ 4 := decimal_length_le (by decide) (by omega)
  obtain ⟨y1, y2, y3, y4, digits⟩ := List.length_eq_four.mp (show (decimal n).length = 4 by omega)
  exact ⟨y1, y2, y3, y4, digits, digits ▸ ofDecimal_decimal n⟩

/-- Every time of a 64-bit clock is written as a timestamp that exists. -/
theorem isTimestamp_utcText {collectedAt : Int} (low : -2 ^ 63 ≤ collectedAt) (high : collectedAt < 2 ^ 63) :
    isTimestamp (.string (utcText collectedAt)) = true := by
  have seconds : -9223372037 ≤ Int.tdiv collectedAt 1000000000 ∧ Int.tdiv collectedAt 1000000000 ≤ 9223372037 := by
    rcases Int.le_total 0 collectedAt with positive | negative
    · rw [Int.tdiv_eq_ediv_of_nonneg positive]
      omega
    · rw [← neg_neg collectedAt, Int.neg_tdiv, Int.tdiv_eq_ediv_of_nonneg (by omega)]
      omega
  have valid := Calendar.Date.ofDays_valid (Int.tdiv collectedAt 1000000000 / 86400)
  obtain ⟨first, last⟩ := Calendar.Date.ofDays_year (Int.tdiv collectedAt 1000000000 / 86400)
  simp only [Calendar.Date.millennium, Calendar.cycleLength] at first last
  simp only [utcText]
  generalize Int.tdiv collectedAt 1000000000 = time at *
  generalize Calendar.Date.ofDays (time / 86400) = date at *
  obtain ⟨y1, y2, y3, y4, digits, year⟩ := @decimalInt_year date.year (by omega) (by omega)
  have month := ofDecimal_twoDigits (show date.month < 100 by have := valid.month_le; omega)
  have day := ofDecimal_twoDigits (show date.day < 100 by have := valid.day_le; omega)
  have hour := ofDecimal_twoDigits (show (time % 86400).toNat / 3600 < 100 by omega)
  have minute := ofDecimal_twoDigits (show (time % 86400).toNat / 60 % 60 < 100 by omega)
  have second := ofDecimal_twoDigits (show (time % 86400).toNat % 60 < 100 by omega)
  have exact_year : (date.year.toNat : Int) = date.year := Int.toNat_of_nonneg (by omega)
  simp only [twoDigits] at month day hour minute second ⊢
  rw [digits]
  change isTimestamp (.string [y1, y2, y3, y4, byte '-', _, _, byte '-', _, _, byte 'T', _, _, byte ':', _, _,
    byte ':', _, _, byte 'Z']) = true
  simp only [isTimestamp, pair, year, month, day, hour, minute, second, exact_year, Bool.and_eq_true, decide_eq_true_eq,
    true_and]
  refine ⟨⟨⟨⟨by omega, valid⟩, by omega⟩, by omega⟩, by omega⟩

theorem isOrdinal_decimal {n : Nat} (positive : 0 < n) (small : n < 2 ^ 64) : isOrdinal (decimal n) = true := by
  have short := decimal_length_le (show 0 < 20 by decide) (small.trans (by decide))
  simp only [isOrdinal, Bool.and_eq_true, decide_eq_true_eq, bne_iff_ne]
  refine ⟨⟨short, head_decimal positive⟩, ?_⟩
  rw [ofDecimal_decimal]
  exact decide_eq_true small

theorem isEventIdentity_ok {identity : RecordIdentity} (positive : 0 < identity.sequence)
    (small : identity.sequence < 2 ^ 64) :
    isEventIdentity (.string identity.instanceId) (.string identity.text) = true := by
  have split : identity.text = identity.instanceId ++ [byte ':'] ++ decimal identity.sequence := by
    rw [RecordIdentity.text, List.append_assoc]
    rfl
  simp only [isEventIdentity, Bool.and_eq_true]
  constructor
  · rw [split, List.isPrefixOf_iff_prefix]
    exact List.prefix_append _ _
  · rw [split, List.drop_left' (by simp)]
    exact isOrdinal_decimal positive small

/-- The numbers of an event fit their types, and its clocks did not go back. -/
structure Ranged (event : FeedbackEvent) : Prop where
  attempt : ∀ attempt ∈ event.attemptId, 0 < attempt ∧ attempt < 2 ^ 64
  retries : event.retryCount < 2 ^ 32
  collected : -2 ^ 63 ≤ event.collectedAt ∧ event.collectedAt < 2 ^ 63
  elapsed : 0 ≤ event.elapsedSinceArrivalMs ∧ event.elapsedSinceArrivalMs < 2 ^ 63
  measured : ∀ measurement ∈ event.processingTimeMs, -2 ^ 63 ≤ measurement ∧ measurement < 2 ^ 63

/-- The combinations that the broker's events have. -/
inductive Disposed (event : FeedbackEvent) : Prop where
  | ingress (trigger : event.trigger = .submit) (attempt : event.attemptId = none) (operation : event.operation = none)
      (outcome : event.outcome = none) (reason : event.dlqReason = none) (measured : event.processingTimeMs = none)
      (retries : event.retryCount = 0)
  | queued (trigger : event.trigger = .pullExpiry ∨ event.trigger = .ttlSweep) (attempt : event.attemptId = none)
      (operation : event.operation = none) (outcome : event.outcome = some .dlq)
      (reason : event.dlqReason = some .ttlExpired) (measured : event.processingTimeMs = none)
  | settled (trigger : event.trigger = .settlement) (attempt : Nat) (numbered : event.attemptId = some attempt)
      (operation : FeedbackOperation) (asked : event.operation = some operation) (measurement : Int)
      (measured : event.processingTimeMs = some measurement)
      (concluded : (event.outcome = some .ack ∧ event.dlqReason = none ∧ operation = .ack) ∨
        (event.outcome = some .retry ∧ event.dlqReason = none ∧ operation = .nack) ∨
        ∃ reason, event.outcome = some .dlq ∧ event.dlqReason = some reason)
  | lapsed (trigger : event.trigger = .leaseExpiry) (attempt : Nat) (numbered : event.attemptId = some attempt)
      (operation : event.operation = none) (measured : event.processingTimeMs = none)
      (concluded : (event.outcome = some .retry ∧ event.dlqReason = none) ∨
        ∃ reason, event.outcome = some .dlq ∧ event.dlqReason = some reason)

/-- The events whose records the reader accepts. -/
structure Acceptable (decimals : Decimals) (schemas : Bytes → Option FeatureSchema) (event : FeedbackEvent) :
    Prop where
  ranged : Ranged event
  disposed : Disposed event
  named : Plain event.messageId
  routing : ∃ context, event.routing = some context ∧ Presentable decimals schemas context

section Accepts
variable {event : FeedbackEvent} {identity : RecordIdentity} {lease : Millis} {context : RoutingContext}
  {record : Document}

theorem field_of_get {document value : Document} {key : String} (found : document.get? (ascii key) = some value) :
    field document key = value := by
  rw [field, found]
  rfl

theorem validateDisposition_ok (read : event.Recorded identity lease context record) (disposed : Disposed event) :
    validateDisposition record = .ok () := by
  simp only [validateDisposition, field_of_get read.trigger, field_of_get read.operation, field_of_get read.outcome,
    field_of_get read.dlqReason, field_of_get read.attemptId, field_of_get read.processingTimeMs,
    field_of_get read.eventType, field_of_get read.retryCount]
  cases disposed with
  | ingress trigger attempt operation outcome reason measured retries =>
    rw [trigger, attempt, operation, outcome, reason, measured, retries]
    decide
  | queued trigger attempt operation outcome reason measured =>
    rw [attempt, operation, outcome, reason, measured]
    rcases trigger with trigger | trigger <;> rw [trigger] <;> rfl
  | settled trigger attempt numbered operation asked measurement measured concluded =>
    rw [trigger, numbered, asked, measured]
    rcases concluded with ⟨outcome, reason, rfl⟩ | ⟨outcome, reason, rfl⟩ | ⟨reason, outcome, known⟩
    · rw [outcome, reason]
      rfl
    · rw [outcome, reason]
      rfl
    · rw [outcome, known]
      cases operation <;> cases reason <;> rfl
  | lapsed trigger attempt numbered operation measured concluded =>
    rw [trigger, numbered, operation, measured]
    rcases concluded with ⟨outcome, reason⟩ | ⟨reason, outcome, known⟩
    · rw [outcome, reason]
      rfl
    · rw [outcome, known]
      cases reason <;> rfl

/-- The reader's precedence of labels is the writer's. -/
theorem expectedLabel_eq (read : event.Recorded identity lease context record) (routed : event.routing = some context)
    (consistent : context.features.isSome ↔ context.featureValidity = .valid) :
    expectedLabel lease record = (classifyLabel event lease).text := by
  have learnable : event.learnable = isOneOf ["valid"] (.string context.featureValidity.text) := by
    rw [FeedbackEvent.learnable, routed]
    cases validity : context.featureValidity with
    | valid =>
      simp only [consistent.mpr validity, validity, decide_true, Bool.and_true]
      decide
    | featureLimit =>
      simp only [validity, reduceCtorEq, decide_false, Bool.and_false]
      decide
  have censored : isOneOf ["TTL_EXPIRED"] (orNull (fun reason => textDocument (dlqReasonText reason)) event.dlqReason) =
      decide (event.dlqReason = some .ttlExpired) := by
    cases event.dlqReason with
    | none => decide
    | some reason => cases reason <;> decide
  have failed : isOneOf ["nack"] (orNull (fun operation => textDocument operation.text) event.operation) =
      decide (event.operation = some .nack) := by
    cases event.operation with
    | none => decide
    | some operation => cases operation <;> decide
  have success : isOneOf ["ack"] (orNull (fun outcome => textDocument outcome.text) event.outcome) =
      decide (event.outcome = some .ack) := by
    cases event.outcome with
    | none => decide
    | some outcome => cases outcome <;> decide
  simp only [expectedLabel, field_of_get read.processingTimeMs, field_of_get read.routed, (contextual context).validity,
    field_of_get read.dlqReason, field_of_get read.operation, field_of_get read.outcome, ← learnable, censored, failed,
    success, classifyLabel]
  cases event.processingTimeMs with
  | none => rfl
  | some measurement =>
    simp only [orNull, integerDocument, decide_eq_true_eq]
    split_ifs <;> rfl

/-- The reader accepts every record that the writer makes of such an event. -/
theorem validateRecord_ok {decimals : Decimals} {schemas : Bytes → Option FeatureSchema}
    (acceptable : Acceptable decimals schemas event) (hosted : Plain identity.instanceId)
    (small : identity.sequence < 2 ^ 64) (written : feedbackRecord decimals event identity lease = some record) :
    validateRecord decimals schemas lease record = .ok () := by
  obtain ⟨ranged, disposed, named, context, routed, presentable⟩ := acceptable
  simp only [feedbackRecord, routed] at written
  obtain ⟨valid, same⟩ := Option.ite_none_right_eq_some.mp written
  simp only [Bool.and_eq_true, bne_iff_ne] at valid
  obtain ⟨⟨⟨validInstance, validMessage⟩, positive⟩, writable⟩ := valid
  have read := event.recorded identity lease context []
  rw [List.append_nil] at read
  have keys : hasFields (.object (event.members identity lease context)) recordFields = true :=
    hasFields_of_keys (.refl _)
  have consistent : context.features.isSome ↔ context.featureValidity = .valid := by
    obtain ⟨schema, size, headers, _, _, _, _, features, validity⟩ := presentable.features
    rw [features, validity]
    exact extract_consistent ..
  rw [Option.some.inj same] at read keys
  have attempt : nullOr isAttempt (orNull (fun attempt => textDocument (decimal attempt)) event.attemptId) = true :=
    nullOr_orNull fun attempt given => isOrdinal_decimal (ranged.attempt attempt given).1 (ranged.attempt attempt given).2
  have retries : isInteger 0 (2 ^ 32 - 1) (integerDocument event.retryCount) = true := by
    have bound := ranged.retries
    simp only [isInteger, integerDocument, Bool.and_eq_true, decide_eq_true_eq]
    omega
  have elapsed : isInteger 0 (2 ^ 63 - 1) (integerDocument event.elapsedSinceArrivalMs) = true := by
    have bound := ranged.elapsed
    simp only [isInteger, integerDocument, Bool.and_eq_true, decide_eq_true_eq]
    omega
  have measured : nullOr (isInteger (-2 ^ 63) (2 ^ 63 - 1)) (orNull integerDocument event.processingTimeMs) = true := by
    refine nullOr_orNull fun measurement given => ?_
    have bound := ranged.measured measurement given
    simp only [isInteger, integerDocument, Bool.and_eq_true, decide_eq_true_eq]
    omega
  have version : isInteger 1 1 (integerDocument 1) = true := by decide
  simp only [validateRecord, keys, field_of_get read.version, field_of_get read.messageId, field_of_get read.instanceId,
    field_of_get read.eventId, field_of_get read.attemptId, field_of_get read.collectedAt, field_of_get read.retryCount,
    field_of_get read.elapsed, field_of_get read.processingTimeMs, field_of_get read.routed,
    field_of_get read.labelStatus, isIdentifier_ok validMessage named, isIdentifier_ok validInstance hosted,
    isEventIdentity_ok (Nat.pos_of_ne_zero positive) small, isTimestamp_utcText ranged.collected.1 ranged.collected.2,
    attempt, retries, elapsed, measured, version, bind_ok, reject_ok]
  refine ⟨(), by simp, (), by simp, (), by simp, (), by simp, (), by simp, (), by simp, (), by simp, (), by simp, (),
    validateContext_ok presentable writable, (), validateDisposition_ok read disposed, ?_⟩
  rw [expectedLabel_eq read routed consistent]
  exact fun different => different rfl

end Accepts

end Harbinger.Analysis
