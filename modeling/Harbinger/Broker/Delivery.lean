import Harbinger.Broker.Config
import Harbinger.Container.Linked

/-! The tables under `in_flight_mutex_`: the live attempts with their deadline index, and
the retained completion records with their token index. Each function is one stretch of
code that holds the lock; clock readings are arguments. -/

namespace Harbinger
open Container

inductive Settlement where
  | ack | nack | expired
  deriving DecidableEq, Repr

inductive StatusCode where
  | ok | cancelled | unknown | invalidArgument | deadlineExceeded | notFound | alreadyExists
  | permissionDenied | resourceExhausted | failedPrecondition | aborted | outOfRange | unimplemented
  | internal | unavailable | dataLoss | unauthenticated
  deriving DecidableEq, Repr

structure Status where
  code : StatusCode
  message : Bytes := []
  deriving DecidableEq

def Status.ok : Status := ⟨.ok, []⟩

structure InFlightEntry where
  message : Message
  consumerId : Bytes := []
  pullTime : Time := 0
  attemptToken : Bytes := []
  deadline : Nat := 0
  attemptId : Nat := 0

structure Completion where
  messageId : Bytes
  token : Bytes
  owner : Bytes
  kind : Settlement
  time : Time

structure Deliveries where
  inFlight : AList fun _ : Bytes => InFlightEntry := ∅
  deadlines : Multimap Time Bytes := Multimap.empty
  completions : LinkedList Completion := LinkedList.empty
  completed : AList fun _ : Bytes => Nat := ∅

namespace Deliveries

/-- Where an allocation of the installation in `Pull` fails, if anywhere. -/
inductive Fault where
  | none | entry | lease
  deriving DecidableEq, Repr

def install (cfg : HarbingerConfig) (d : Deliveries) (msg : Message) (owner token : Bytes)
    (leaseAt pullAt : Time) : Deliveries :=
  let message := { msg with deliveryCount := msg.deliveryCount + 1 }
  { d with
    inFlight := d.inFlight.insert msg.id {
      message
      consumerId := owner
      pullTime := pullAt
      attemptToken := token
      deadline := d.deadlines.next
      attemptId := message.deliveryCount }
    deadlines := d.deadlines.emplace (leaseAt + Clock.ofMillis cfg.deliveryLease) msg.id }

def installationFailed : Status := ⟨.internal, ascii "Delivery installation failed"⟩

/-- The locked part of `Pull`. Unless the status is `OK` the message goes back to the queue. -/
def installation (cfg : HarbingerConfig) (d : Deliveries) (msg : Message) (owner token : Bytes)
    (cancelled : Bool) (fault : Fault) (leaseAt pullAt : Time) : Deliveries × Status :=
  if cancelled then (d, ⟨.cancelled, []⟩)
  else if msg.deliveryCount = 2 ^ 64 - 1 then
    (d, ⟨.resourceExhausted, ascii "Delivery ordinal exhausted"⟩)
  else if fault = .entry ∨ msg.id ∈ d.inFlight then (d, installationFailed)
  else if fault = .lease then
    ({ d with inFlight := (d.inFlight.insert msg.id { message := msg }).erase msg.id }, installationFailed)
  else (d.install cfg msg owner token leaseAt pullAt, .ok)

def pruneCompletionsLocked (cfg : HarbingerConfig) (now : Time) : Nat → Deliveries → Deliveries
  | 0, d => d
  | budget + 1, d =>
    match d.completions.front? with
    | none => d
    | some slot =>
      if cfg.completionCacheMaxEntries < d.completions.size ∨
          Clock.ofMillis cfg.completionRetention ≤ now - slot.value.time then
        pruneCompletionsLocked cfg now budget { d with
          completed := d.completed.erase slot.value.token
          completions := d.completions.popFront }
      else d

/-- `emplace` keeps an entry that is already there. -/
def emplaceCompleted (completed : AList fun _ : Bytes => Nat) (token : Bytes) (handle : Nat) :
    AList fun _ : Bytes => Nat :=
  if token ∈ completed then completed else completed.insert token handle

/-- The tail of `finish_locked` before pruning: the attempt becomes a completion record. -/
def record (d : Deliveries) (id : Bytes) (entry : InFlightEntry) (kind : Settlement) (time : Time) :
    Deliveries where
  completions := d.completions.pushBack ⟨id, entry.attemptToken, entry.consumerId, kind, time⟩
  completed := emplaceCompleted d.completed entry.attemptToken d.completions.next
  deadlines := d.deadlines.erase entry.deadline
  inFlight := d.inFlight.erase id

def finishClose (cfg : HarbingerConfig) (d : Deliveries) (id : Bytes) (entry : InFlightEntry)
    (kind : Settlement) (recordAt pruneAt : Time) : Deliveries :=
  pruneCompletionsLocked cfg pruneAt 1 (d.record id entry kind recordAt)

/-- A settlement request as `Ack` and `Nack` pass it to `settle`. -/
structure Call where
  owner : Bytes
  id : Bytes
  token : Bytes
  kind : Settlement
  reason : Bytes
  processingTimeMs : Int
  deriving DecidableEq

/-- What `settle` decides under the lock: an answer, or a transition followed by an answer. -/
inductive Verdict where
  | reply (status : Status)
  | finish (entry : InFlightEntry) (kind : Settlement) (reason : Bytes) (measurement : Option Int)
      (status : Status)

def leaseExpired : Bytes := ascii "Delivery lease expired"

def leaseOver (d : Deliveries) (entry : InFlightEntry) (now : Time) : Prop :=
  ∃ lease ∈ d.deadlines.find? entry.deadline, lease.1 ≤ now

instance (d : Deliveries) (entry : InFlightEntry) (now : Time) : Decidable (d.leaseOver entry now) :=
  inferInstanceAs (Decidable (∃ lease ∈ d.deadlines.find? entry.deadline, lease.1 ≤ now))

/-- The lookups of `settle` in `in_flight_`. -/
def settleLive (d : Deliveries) (call : Call) (now : Time) : Verdict :=
  match d.inFlight.lookup call.id with
  | none => .reply ⟨.notFound, ascii "Unknown delivery"⟩
  | some entry =>
    if entry.consumerId ≠ call.owner then .reply ⟨.permissionDenied, ascii "Different delivery owner"⟩
    else if entry.attemptToken ≠ call.token then
      .reply ⟨.failedPrecondition, ascii "Stale attempt token"⟩
    else if d.leaseOver entry now then
      .finish entry .expired leaseExpired none ⟨.failedPrecondition, leaseExpired⟩
    else .finish entry call.kind call.reason (some call.processingTimeMs) .ok

/-- The answer from a retained record of the same message. -/
def replay (record : Completion) (call : Call) : Status :=
  if record.owner ≠ call.owner then ⟨.permissionDenied, ascii "Different delivery owner"⟩
  else if record.kind = call.kind then .ok
  else ⟨.failedPrecondition, ascii "Attempt already settled or expired"⟩

/-- `settle` under the lock, up to the transition: the record lookup, then the live attempt.
`recordAt` and `leaseAt` are the two clock readings. -/
def settleLocked (cfg : HarbingerConfig) (d : Deliveries) (call : Call) (recordAt leaseAt : Time) :
    Deliveries × Verdict :=
  match d.completed.lookup call.token with
  | none => (d, d.settleLive call leaseAt)
  | some handle =>
    match d.completions.find? handle with
    | none => (d, d.settleLive call leaseAt)
    | some record =>
      if Clock.ofMillis cfg.completionRetention ≤ recordAt - record.time then
        let d := { d with
          completions := d.completions.erase handle
          completed := d.completed.erase call.token }
        (d, d.settleLive call leaseAt)
      else if record.messageId = call.id then (d, .reply (replay record call))
      else (d, d.settleLive call leaseAt)

/-- `isalnum` in the C locale, or a hyphen. -/
def tokenByte (c : UInt8) : Bool :=
  (48 ≤ c && c ≤ 57) || (65 ≤ c && c ≤ 90) || (97 ≤ c && c ≤ 122) || c == 45

def wellFormedToken (token : Bytes) : Bool :=
  token != [] && token.length ≤ 128 && token.all tokenByte

end Deliveries

end Harbinger
