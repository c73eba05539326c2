import Harbinger.Ml.Record

/-! `harbinger_predictor_replay`: reading one row of an export, the keys it derives and what it
learns. Only the first row of an event is read; an identical repeat is skipped before. -/

namespace Harbinger.Replay
open Ml

structure Options where
  keyHeader : Bytes := ascii "job"
  sizeSource : SizeSource := .none
  sizeHeader : Bytes := []

/-- The fields that the replay keeps of an event. -/
structure ReplayEvent where
  run : Bytes
  id : Bytes
  ingress : Bool
  time : Int
  instanceId : Bytes
  message : Bytes
  split : Bytes
  trigger : Bytes
  labelStatus : Bytes
  deliveredAttempt : Bool
  durationMs : Option ℚ
  key : Bytes
  parent : Option Bytes
  deriving DecidableEq

def text (row : Document) (field : String) : Except String Bytes :=
  match (row.get? (ascii field)).bind Json.Value.string? with
  | none => .error ("event missing string field " ++ field)
  | some value => .ok value

def optionalText (row : Document) (field : String) : Bytes :=
  ((row.get? (ascii field)).bind Json.Value.string?).getD []

def Number.value : Number → ℚ
  | .integer value => value
  | .real value => value

/-- `std::from_chars` of a whole text as an unsigned 64-bit number. -/
def toCount (text : Bytes) : Option Nat := (ofDecimal text).filter fun count => count < 2 ^ 64

def features? (row : Document) : Option Document :=
  (row.get? (ascii "routing")).bind fun routing => routing.get? (ascii "features")

def header? (row : Document) (name : Bytes) : Option Document :=
  ((features? row).bind fun features => features.get? (ascii "headers")).bind fun headers => headers.get? name

/-- The size that the bin is taken from; a row without a payload size is malformed. -/
def sizeOf (decimals : Decimals) (options : Options) (row : Document) : Except String (Option ℚ) :=
  match options.sizeSource with
  | .none => .ok none
  | .payload =>
    match (features? row).bind fun features => features.get? (ascii "payload_size_bytes") with
    | some (.string bytes) =>
      match toCount bytes with
      | none => .error "invalid payload_size_bytes"
      | some count => .ok (some count)
    | some (.number number) =>
      if 0 ≤ Number.value number then .ok (some (Number.value number)) else .error "no features.payload_size_bytes"
    | _ => .error "no features.payload_size_bytes"
  | .header =>
    .ok (((header? row options.sizeHeader).bind Json.Value.string?).bind (parseSizeHint decimals))

/-- The key of a row and, if it is binned, its parent. -/
def keysOf (decimals : Decimals) (options : Options) (row : Document) : Except String PredictorKeys := do
  let key := if options.keyHeader = [] then ascii "default"
    else ((header? row options.keyHeader).bind Json.Value.string?).getD []
  if options.sizeSource = .none ∨ key = [] then return ⟨key, none⟩
  let size ← sizeOf decimals options row
  return binPredictorKey key size

def timeOf (row : Document) : Except String Int :=
  match (row.get? (ascii "benchmark_time_ns")).bind Json.Value.number? with
  | some (.integer time) => if time < 0 then .error "event missing benchmark_time_ns" else .ok time
  | _ => .error "event missing benchmark_time_ns"

def readEvent (decimals : Decimals) (options : Options) (row : Document) : Except String ReplayEvent := do
  let type ← text row "event_type"
  reject (type ≠ ascii "ingress" ∧ type ≠ ascii "outcome") "unknown event_type"
  let run ← text row "run"
  let id ← text row "event_id"
  let time ← timeOf row
  let instanceId ← text row "broker_instance_id"
  let message ← text row "message_id"
  let split ← text row "split"
  let keys ← keysOf decimals options row
  return {
    run, id, time, instanceId, message, split
    ingress := type = ascii "ingress"
    trigger := optionalText row "trigger"
    labelStatus := optionalText row "label_status"
    deliveredAttempt := (row.get? (ascii "attempt_id")).any fun attempt => !attempt.isNull
    durationMs := ((row.get? (ascii "processing_time_ms")).bind Json.Value.number?).map Number.value
    key := keys.key
    parent := keys.parent }

/-- What a predictor is told about an attempt. -/
inductive Lesson where
  | duration (ms : ℚ)
  | censored
  deriving DecidableEq

/-- What the replay loop learns from an event. -/
def ReplayEvent.lesson (event : ReplayEvent) : Option Lesson :=
  if event.ingress then none
  else if event.split ≠ ascii "train" ∧ event.split ≠ ascii "evaluation" then none
  else match (if event.labelStatus = ascii "eligible" then event.durationMs else none) with
    | some duration => some (.duration duration)
    | none =>
      if event.trigger = ascii "lease_expiry" ∧ event.deliveredAttempt then some .censored else none

/-- The members that an export adds to a record, of those that the replay reads. -/
structure Envelope where
  run : Bytes
  split : Bytes
  benchmarkTimeNs : Int

def Envelope.members (envelope : Envelope) : List (Bytes × Document) := [
  (ascii "run", .string envelope.run),
  (ascii "split", .string envelope.split),
  (ascii "benchmark_time_ns", integerDocument envelope.benchmarkTimeNs)]

/-- The exported row of a record. -/
def exportRow (envelope : Envelope) (record : Document) : Document :=
  .object ((record.members?.getD []) ++ envelope.members)

section Row
variable {decimals : Decimals} {options : Options} {envelope : Envelope} {event : FeedbackEvent}
  {identity : RecordIdentity} {lease : Millis} {routing : RoutingContext} {record : Document} {read : ReplayEvent}

theorem exportRow_eq (made : feedbackRecord decimals event identity lease = some record) :
    ∃ routing, event.routing = some routing ∧
      exportRow envelope record = .object (event.members identity lease routing ++ envelope.members) := by
  unfold feedbackRecord at made
  cases routed : event.routing with
  | none =>
    rw [routed] at made
    cases made
  | some routing =>
    rw [routed] at made
    obtain ⟨_, same⟩ := Option.ite_none_right_eq_some.mp made
    obtain rfl := Option.some.inj same
    exact ⟨routing, rfl, rfl⟩

/-- What the replay reads back of an exported record. -/
structure Reads (event : FeedbackEvent) (lease : Millis) (envelope : Envelope) (read : ReplayEvent) : Prop where
  ingress : read.ingress = decide (event.trigger = .submit)
  split : read.split = envelope.split
  trigger : read.trigger = event.trigger.text
  labelStatus : read.labelStatus = (classifyLabel event lease).text
  deliveredAttempt : read.deliveredAttempt = event.attemptId.isSome
  durationMs : read.durationMs = event.processingTimeMs.map fun duration : Int => (duration : ℚ)

theorem split_exported (event : FeedbackEvent) (identity : RecordIdentity) (lease : Millis)
    (routing : RoutingContext) (envelope : Envelope) :
    text (.object (event.members identity lease routing ++ envelope.members)) "split" = .ok envelope.split := rfl

theorem readEvent_reads (made : feedbackRecord decimals event identity lease = some record)
    (parsed : readEvent decimals options (exportRow envelope record) = .ok read) :
    Reads event lease envelope read := by
  obtain ⟨routing, _, row⟩ := exportRow_eq made
  rw [row] at parsed
  have fields := event.recorded identity lease routing envelope.members
  have split := split_exported event identity lease routing envelope
  generalize Json.Value.object (event.members identity lease routing ++ envelope.members) = document at *
  simp only [readEvent, bind_ok] at parsed
  obtain ⟨type, typed, _, _, run, _, id, _, time, _, instanceId, _, message, _, parted, partition, keys, _, same⟩ :=
    parsed
  obtain rfl := Except.ok.inj same
  have kind : type = if event.trigger = .submit then ascii "ingress" else ascii "outcome" := by
    simp only [text, fields.eventType, Option.bind_some, Json.Value.string?] at typed
    exact (Except.ok.inj typed).symm
  constructor
  · rw [kind]
    by_cases submit : event.trigger = .submit
    · simp [submit]
    · simp only [submit, ↓reduceIte, decide_false]
      decide
  · rw [split] at partition
    exact (Except.ok.inj partition).symm
  · simp only [optionalText, fields.trigger, Option.bind_some, Json.Value.string?, Option.getD_some]
  · simp only [optionalText, fields.labelStatus, Option.bind_some, Json.Value.string?, Option.getD_some]
  · rw [fields.attemptId]
    cases event.attemptId <;> rfl
  · rw [fields.processingTimeMs]
    cases event.processingTimeMs <;> rfl

/-- A label reads `eligible` only if it is. -/
theorem labelText_eligible (status : LabelStatus) : status.text = ascii "eligible" ↔ status = .eligible := by
  cases status <;> decide

theorem triggerText_leaseExpiry (trigger : FeedbackTrigger) :
    trigger.text = ascii "lease_expiry" ↔ trigger = .leaseExpiry := by
  cases trigger <;> decide

theorem lesson_eq (reads : Reads event lease envelope read) (outcome : event.trigger ≠ .submit)
    (counted : envelope.split = ascii "train" ∨ envelope.split = ascii "evaluation") :
    read.lesson = ((if classifyLabel event lease = .eligible then event.processingTimeMs else none).map
      fun duration : Int => Lesson.duration duration).or
        (if event.trigger = .leaseExpiry ∧ event.attemptId.isSome then some .censored else none) := by
  have taken : ¬(read.split ≠ ascii "train" ∧ read.split ≠ ascii "evaluation") := by
    rw [reads.split]
    tauto
  simp only [ReplayEvent.lesson, reads.ingress, outcome, decide_false, Bool.false_eq_true, ↓reduceIte, taken,
    reads.labelStatus, labelText_eligible, reads.durationMs, reads.trigger, triggerText_leaseExpiry,
    reads.deliveredAttempt]
  by_cases eligible : classifyLabel event lease = .eligible
  · simp only [eligible, ↓reduceIte]
    cases event.processingTimeMs <;> rfl
  · simp only [eligible, ↓reduceIte]
    rfl

end Row

end Harbinger.Replay
