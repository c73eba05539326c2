import Harbinger.Message

/-! Version identifiers and the feedback events that the broker captures before a
message moves on. -/

namespace Harbinger.Ml

/-- Reads `count` continuation bytes into `code`. -/
def continuation : Nat → Nat → Bytes → Option (Nat × Bytes)
  | 0, code, rest => some (code, rest)
  | _ + 1, _, [] => none
  | count + 1, code, next :: rest =>
    if next &&& 0xc0 ≠ 0x80 then none
    else continuation count (code * 64 + (next &&& 0x3f).toNat) rest

/-- One round of the loop of `valid_utf8` per unit of fuel. -/
def validUtf8From : Nat → Bytes → Bool
  | _, [] => true
  | 0, _ :: _ => false
  | fuel + 1, first :: rest =>
    let lead : Option (Nat × Nat × Nat) :=
      if first < 0x80 then some (0, first.toNat, 0)
      else if 0xc2 ≤ first && first ≤ 0xdf then some (1, (first &&& 0x1f).toNat, 0x80)
      else if 0xe0 ≤ first && first ≤ 0xef then some (2, (first &&& 0x0f).toNat, 0x800)
      else if 0xf0 ≤ first && first ≤ 0xf4 then some (3, (first &&& 0x07).toNat, 0x10000)
      else none
    match lead with
    | none => false
    | some (count, code, minimum) =>
      match continuation count code rest with
      | none => false
      | some (code, rest) =>
        if code < minimum || code > 0x10ffff || (0xd800 ≤ code && code ≤ 0xdfff) then false
        else validUtf8From fuel rest

def validUtf8 (text : Bytes) : Bool := validUtf8From text.length text

def validateVersion (version : Bytes) : Except String Unit :=
  if version = [] ∨ 128 < version.length ∨ ¬validUtf8 version then
    .error "ML version must be nonempty UTF-8 and at most 128 bytes"
  else .ok ()

inductive FeedbackTrigger where
  | submit | settlement | leaseExpiry | pullExpiry | ttlSweep
  deriving DecidableEq, Repr

inductive FeedbackOperation where
  | ack | nack
  deriving DecidableEq, Repr

inductive FeedbackOutcome where
  | ack | retry | dlq
  deriving DecidableEq, Repr

structure FeedbackEvent where
  messageId : Bytes
  routing : Option RoutingContext
  attemptId : Option Nat := none
  trigger : FeedbackTrigger := .submit
  operation : Option FeedbackOperation := none
  outcome : Option FeedbackOutcome := none
  dlqReason : Option DLQReason := none
  retryCount : Nat := 0
  processingTimeMs : Option Int := none
  collectedAt : Int
  elapsedSinceArrivalMs : Int := 0
  deriving DecidableEq

/-- The two clocks that `capture_feedback` reads: the system clock and the steady clock. -/
structure Stamp where
  collectedAt : Int
  now : Time

/-- `capture_feedback`; `none` when it throws on an unusable message id. -/
def captureFeedback (message : Message) (trigger : FeedbackTrigger) (stamp : Stamp) : Option FeedbackEvent :=
  if message.id = [] ∨ 128 < message.id.length then none
  else some {
    messageId := message.id
    routing := message.routingContext
    trigger
    retryCount := message.retryCount
    collectedAt := stamp.collectedAt
    elapsedSinceArrivalMs := Int.tdiv (stamp.now - message.arrivalTime) 1000000 }

end Harbinger.Ml
