import Harbinger.Ml.Routing

/-! Messages, the arithmetic of their TTL, and dead-letter entries. -/

namespace Harbinger

/-- The TTL that `Proxy` leaves for `routeMessage` to resolve. -/
def ttlUnset : Millis := -1

structure AgingConfig where
  threshold : Millis := 5000
  interval : Millis := 500
  pauseWhenBehind : Option Bool := none
  deriving DecidableEq, Repr

structure Message where
  id : Bytes
  payload : Bytes := []
  priority : Nat := 1
  originalPriority : Nat := 1
  arrivalTime : Time := 0
  enqueueTime : Time := 0
  ttl : Millis := 0
  retryCount : Nat := 0
  maxRetries : Nat := 3
  headers : Ml.Headers := ∅
  routingContext : Option Ml.RoutingContext := none
  deliveryCount : Nat := 0
  deriving DecidableEq

namespace Message

/-- The predicted duration in the routing context, if there is one. -/
def prediction (msg : Message) : Option ℚ :=
  msg.routingContext.bind Ml.RoutingContext.predictedProcessingTimeMs

/-- Saturates at the last representable time. -/
def expiryTime (msg : Message) : Time :=
  if Clock.maxMs ≤ msg.ttl then Clock.max
  else if Clock.max - Clock.ofMillis msg.ttl < msg.arrivalTime then Clock.max
  else msg.arrivalTime + Clock.ofMillis msg.ttl

/-- `is_expired()` at the clock reading `now`. -/
def isExpired (msg : Message) (now : Time) : Prop := 0 < msg.ttl ∧ msg.expiryTime ≤ now

instance (msg : Message) (now : Time) : Decidable (msg.isExpired now) :=
  inferInstanceAs (Decidable (_ ∧ _))

theorem isExpired_mono {msg : Message} {now later : Time} (order : now ≤ later)
    (expired : msg.isExpired now) : msg.isExpired later :=
  ⟨expired.1, expired.2.trans order⟩

/-- Aging and placement change only these two fields. -/
def moved (msg : Message) (priority : Nat) (enqueueTime : Time) : Message :=
  { msg with priority := priority, enqueueTime := enqueueTime }

/-- What neither waiting nor aging changes. -/
def frozen (msg : Message) : Message := msg.moved 0 0

/-- What nothing changes between acceptance and the end. -/
def content (msg : Message) : Message := { msg.frozen with retryCount := 0, deliveryCount := 0 }

@[simp] theorem isExpired_frozen (msg : Message) (now : Time) :
    msg.frozen.isExpired now ↔ msg.isExpired now := Iff.rfl

theorem id_eq_of_content {first second : Message} (same : first.content = second.content) :
    first.id = second.id := by
  change first.content.id = second.content.id
  rw [same]

theorem maxRetries_eq_of_content {first second : Message} (same : first.content = second.content) :
    first.maxRetries = second.maxRetries := by
  change first.content.maxRetries = second.content.maxRetries
  rw [same]

def isPromoted (msg : Message) : Bool := msg.priority < msg.originalPriority

end Message

inductive DLQReason where
  | maxRetriesExceeded | ttlExpired | processingError
  deriving DecidableEq, Repr

structure DLQEntry where
  message : Message
  reason : DLQReason
  dlqTime : Time
  details : Bytes
  deriving DecidableEq

end Harbinger
