import Harbinger.Broker.Delivery

/-! What the broker is for, without its queues, indexes and locks: every accepted message
is waiting, held by a pull, condemned, leased, dead or finished, and each step moves one
message. The history is the sequence of everything that was accepted, delivered, judged,
settled and answered. Messages stand for themselves up to level and enqueue time. -/

namespace Harbinger

/-- When the TTL of a message is tested. -/
inductive Occasion where
  | selection | sweep
  | settlement (kind : Settlement)
  deriving DecidableEq, Repr

inductive Fate where
  | kept | retried | acknowledged
  | deadLettered (reason : DLQReason)
  deriving DecidableEq, Repr

inductive Event where
  | accepted (msg : Message)
  | judged (occasion : Occasion) (msg : Message) (reading : Time) (fate : Fate)
  | delivered (owner token : Bytes) (msg : Message)
  | settled (owner token id : Bytes) (kind : Settlement)
  | answered (call : Deliveries.Call) (status : Status)

structure Lease where
  owner : Bytes
  token : Bytes
  message : Message

@[ext] structure Ledger where
  waiting : Multiset Message := 0
  held : Multiset Message := 0
  condemned : Multiset (Message × Time) := 0
  leased : Multiset Lease := 0
  dead : List DLQEntry := []
  finished : List Message := []
  history : List Event := []

namespace Event

def accepted? : Event → Option Message
  | .accepted msg => some msg
  | _ => none

def issued? : Event → Option Bytes
  | .delivered _ token _ => some token
  | _ => none

def settled? : Event → Option Bytes
  | .settled _ token _ _ => some token
  | _ => none

def answer? : Event → Option (Deliveries.Call × Status)
  | .answered call status => some (call, status)
  | _ => none

/-- The attempt number of a delivery of `id`. -/
def attempt? (id : Bytes) : Event → Option Nat
  | .delivered _ _ msg => if msg.id = id then some msg.deliveryCount else none
  | _ => none

/-- The message that an event ends for good. -/
def closes? : Event → Option Bytes
  | .judged _ msg reading _ => if msg.isExpired reading then some msg.id else none
  | .settled _ _ id .ack => some id
  | .answered call status => if status = .ok ∧ call.kind = .ack then some call.id else none
  | _ => none

/-- The message that an event delivers or disposes of. -/
def touches? : Event → Option Bytes
  | .judged _ msg _ _ => some msg.id
  | .delivered _ _ msg => some msg.id
  | _ => none

end Event

namespace Ledger

def accepted (history : List Event) : List Message := history.filterMap Event.accepted?
def issued (history : List Event) : List Bytes := history.filterMap Event.issued?
def settled (history : List Event) : List Bytes := history.filterMap Event.settled?
def answers (history : List Event) : List (Deliveries.Call × Status) := history.filterMap Event.answer?
def attempts (history : List Event) (id : Bytes) : List Nat := history.filterMap (Event.attempt? id)

/-- All messages that the broker answers for, wherever they are. -/
def census (L : Ledger) : Multiset Message :=
  L.waiting + L.held + L.condemned.map Prod.fst + L.leased.map Lease.message +
    ↑(L.dead.map DLQEntry.message) + ↑L.finished

def log (L : Ledger) (events : List Event) : Ledger := { L with history := L.history ++ events }

def begun (msg : Message) : Message := { msg with deliveryCount := msg.deliveryCount + 1 }
def failed (msg : Message) : Message := { msg with retryCount := msg.retryCount + 1 }

/-- The events of a settlement with this outcome. -/
def verdict (lease : Lease) (kind : Settlement) (reading : Time) (fate : Fate) : List Event :=
  [.judged (.settlement kind) lease.message reading fate,
    .settled lease.owner lease.token lease.message.id kind]

inductive Step : Ledger → Ledger → Prop where
  | accept (L : Ledger) (msg : Message) (fresh : msg.id ∉ (accepted L.history).map Message.id)
      (unsent : msg.deliveryCount = 0) (untried : msg.retryCount = 0) (budget : 0 < msg.maxRetries)
      (width : msg.maxRetries < 2 ^ 32) :
      Step L (log { L with waiting := msg ::ₘ L.waiting } [.accepted msg])
  | take (L : Ledger) (msg : Message) (rest : Multiset Message) (shape : L.waiting = msg ::ₘ rest) :
      Step L { L with waiting := rest, held := msg ::ₘ L.held }
  | sweep (L : Ledger) (msg : Message) (rest : Multiset Message) (shape : L.waiting = msg ::ₘ rest)
      (reading : Time) (expired : msg.isExpired reading) :
      Step L (log { L with waiting := rest, condemned := (msg, reading) ::ₘ L.condemned }
        [.judged .sweep msg reading (.deadLettered .ttlExpired)])
  | condemn (L : Ledger) (msg : Message) (rest : Multiset Message) (shape : L.held = msg ::ₘ rest)
      (reading : Time) (expired : msg.isExpired reading) :
      Step L (log { L with held := rest, condemned := (msg, reading) ::ₘ L.condemned }
        [.judged .selection msg reading (.deadLettered .ttlExpired)])
  | keep (L : Ledger) (msg : Message) (present : msg ∈ L.held) (reading : Time)
      (live : ¬msg.isExpired reading) : Step L (L.log [.judged .selection msg reading .kept])
  | bury (L : Ledger) (msg : Message) (since : Time) (rest : Multiset (Message × Time))
      (shape : L.condemned = (msg, since) ::ₘ rest) (time : Time) (order : since ≤ time) (details : Bytes) :
      Step L { L with condemned := rest, dead := L.dead ++ [⟨msg, .ttlExpired, time, details⟩] }
  | restore (L : Ledger) (msg : Message) (rest : Multiset Message) (shape : L.held = msg ::ₘ rest) :
      Step L { L with held := rest, waiting := msg ::ₘ L.waiting }
  | deliver (L : Ledger) (msg : Message) (rest : Multiset Message) (shape : L.held = msg ::ₘ rest)
      (owner token : Bytes) (fresh : token ∉ issued L.history) :
      Step L (log { L with held := rest, leased := ⟨owner, token, begun msg⟩ ::ₘ L.leased }
        [.delivered owner token (begun msg)])
  | expire (L : Ledger) (lease : Lease) (rest : Multiset Lease) (shape : L.leased = lease ::ₘ rest)
      (kind : Settlement) (reading time : Time) (order : reading ≤ time) (details : Bytes)
      (expired : lease.message.isExpired reading) :
      Step L (log { L with leased := rest, dead := L.dead ++ [⟨lease.message, .ttlExpired, time, details⟩] }
        (verdict lease kind reading (.deadLettered .ttlExpired)))
  | acknowledge (L : Ledger) (lease : Lease) (rest : Multiset Lease) (shape : L.leased = lease ::ₘ rest)
      (reading : Time) (live : ¬lease.message.isExpired reading) :
      Step L (log { L with leased := rest, finished := L.finished ++ [lease.message] }
        (verdict lease .ack reading .acknowledged))
  | exhaust (L : Ledger) (lease : Lease) (rest : Multiset Lease) (shape : L.leased = lease ::ₘ rest)
      (kind : Settlement) (failure : kind ≠ .ack) (reading time : Time) (details : Bytes)
      (live : ¬lease.message.isExpired reading) (last : lease.message.maxRetries ≤ lease.message.retryCount + 1) :
      Step L (log { L with
          leased := rest
          dead := L.dead ++ [⟨failed lease.message, .maxRetriesExceeded, time, details⟩] }
        (verdict lease kind reading (.deadLettered .maxRetriesExceeded)))
  | retry (L : Ledger) (lease : Lease) (rest : Multiset Lease) (shape : L.leased = lease ::ₘ rest)
      (kind : Settlement) (failure : kind ≠ .ack) (reading : Time) (live : ¬lease.message.isExpired reading)
      (more : lease.message.retryCount + 1 < lease.message.maxRetries) :
      Step L (log { L with leased := rest, waiting := failed lease.message ::ₘ L.waiting }
        (verdict lease kind reading .retried))
  | answer (L : Ledger) (call : Deliveries.Call) (status : Status)
      (grounded : status = .ok → .settled call.owner call.token call.id call.kind ∈ L.history) :
      Step L (L.log [.answered call status])

/-- A run of the ledger of any length. -/
abbrev Steps : Ledger → Ledger → Prop := Relation.ReflTransGen Step

end Ledger

end Harbinger
