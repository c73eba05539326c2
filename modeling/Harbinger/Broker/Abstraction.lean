import Harbinger.Broker.System
import Harbinger.Container.Pool
import Harbinger.Ledger.Final
import Harbinger.Queue.Runs

/-! The ledger that a running broker stands for: queue levels become one pool of waiting
messages, the hands of the threads become the held and condemned ones, and an entry inside
`finish_locked` no longer counts as a lease. -/

namespace Harbinger
open Container

def DLQEntry.frozen (entry : DLQEntry) : DLQEntry := { entry with message := entry.message.frozen }

def InFlightEntry.lease (entry : InFlightEntry) : Lease :=
  ⟨entry.consumerId, entry.attemptToken, entry.message.frozen⟩

namespace Task

/-- The messages that a task has taken from the queue and not yet judged as expired. -/
def held : Task → List Message
  | .selected _ msg => [msg.frozen]
  | .staged _ msg _ => [msg.frozen]
  | _ => []

def condemned : Task → List (Message × Time)
  | .burying _ hand since => hand.map fun msg => (msg.frozen, since)
  | _ => []

/-- The generated texts that only this task knows so far. -/
def drawn : Task → List Bytes
  | .submitting msg => [msg.id]
  | .routed msg => [msg.id]
  | .staged _ _ token => [token]
  | _ => []

end Task

namespace System
variable {σ : Type} (s : System σ)

def pending : Option Bytes := s.holder.bind Holder.pending?

/-- The live attempts that still hold their message. -/
def live : AList fun _ : Bytes => InFlightEntry :=
  match s.pending with
  | none => s.broker.deliveries.inFlight
  | some id => s.broker.deliveries.inFlight.erase id

def ledger : Ledger where
  waiting := ↑(s.broker.queue.messages.map Message.frozen)
  held := gather Task.held s.tasks
  condemned := gather Task.condemned s.tasks
  leased := ↑(s.live.entries.map fun item => item.2.lease)
  dead := s.broker.dlq.map DLQEntry.frozen
  finished := s.finished.map Message.frozen
  history := s.history

/-- All texts drawn from the id counter that are in use. -/
def drawn : Multiset Bytes :=
  gather Task.drawn s.tasks + ↑((Ledger.accepted s.history).map Message.id) + ↑(Ledger.issued s.history)

theorem live_of_free {s : System σ} (free : s.pending = none) : s.live = s.broker.deliveries.inFlight := by
  rw [live, free]

variable {s} {position : Nat} {task : Task} {next : List Task}

theorem ledger_proceed (found : s.tasks[position]? = some task)
    (held : gather Task.held next = ↑task.held) (condemned : gather Task.condemned next = ↑task.condemned) :
    (s.proceed position next).ledger = s.ledger := by
  apply Ledger.ext
  case held =>
    change gather Task.held (s.tasks.eraseIdx position ++ next) = gather Task.held s.tasks
    rw [gather_append, held, gather_eraseIdx found, add_comm]
  case condemned =>
    change gather Task.condemned (s.tasks.eraseIdx position ++ next) = gather Task.condemned s.tasks
    rw [gather_append, condemned, gather_eraseIdx found, add_comm]
  all_goals rfl

theorem ledger_spawn {idle : Task} (held : idle.held = []) (condemned : idle.condemned = []) :
    ledger { s with tasks := s.tasks ++ [idle] } = s.ledger := by
  apply Ledger.ext
  case held =>
    change gather Task.held (s.tasks ++ [idle]) = gather Task.held s.tasks
    rw [gather_append, gather_singleton, held, Multiset.coe_nil, add_zero]
  case condemned =>
    change gather Task.condemned (s.tasks ++ [idle]) = gather Task.condemned s.tasks
    rw [gather_append, gather_singleton, condemned, Multiset.coe_nil, add_zero]
  all_goals rfl

end System

namespace Ledger

/-- A batch of expired messages leaves the pool one by one. -/
theorem sweep_steps (reading : Time) (hand : List Message) (rest : Multiset Message) {L : Ledger}
    (shape : L.waiting = ↑hand + rest) (expired : ∀ msg ∈ hand, msg.isExpired reading) :
    Steps L (log { L with
        waiting := rest
        condemned := L.condemned + ↑(hand.map fun msg => (msg, reading)) }
      (hand.map fun msg => .judged .sweep msg reading (.deadLettered .ttlExpired))) := by
  induction hand generalizing L with
  | nil =>
    convert Relation.ReflTransGen.refl using 1
    apply Ledger.ext
    case waiting => exact (shape.trans (zero_add rest)).symm
    case condemned => exact add_zero _
    case history => exact List.append_nil _
    all_goals rfl
  | cons msg hand ih =>
    rw [← Multiset.cons_coe, Multiset.cons_add] at shape
    refine .head (.sweep L msg (↑hand + rest) shape reading (expired msg (List.mem_cons_self ..))) ?_
    have later := @ih (log { L with waiting := ↑hand + rest, condemned := (msg, reading) ::ₘ L.condemned }
        [.judged .sweep msg reading (.deadLettered .ttlExpired)])
      rfl fun other member => expired other (List.mem_cons_of_mem _ member)
    convert later using 1
    apply Ledger.ext
    case condemned => simp only [log, List.map_cons, ← Multiset.cons_coe, Multiset.add_cons, Multiset.cons_add]
    case history => simp only [log, List.map_cons, List.append_assoc, List.singleton_append]
    all_goals rfl

end Ledger

end Harbinger
