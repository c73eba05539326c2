import Harbinger.Consumer.Basic

/-! What a worker may say: every handler invocation counts once, for what the broker has on
record. -/

namespace Harbinger
open Ledger Deliveries

/-- The request is about a delivery that was made to this consumer, and it is an Ack or a Nack. -/
structure Issued (history : List Event) (owner : Bytes) (call : Call) : Prop where
  sender : call.owner = owner
  delivery : ∃ msg, .delivered owner call.token msg ∈ history ∧ msg.id = call.id
  kind : call.kind ≠ .expired

/-- What a contribution says about the broker. -/
def Contribution.Confirmed (history : List Event) (call : Call) : Contribution → Prop
  | .acked => .settled call.owner call.token call.id .ack ∈ history
  | .nacked => .settled call.owner call.token call.id .nack ∈ history
  | _ => True

namespace Phase

/-- A handler invocation that has not counted yet. -/
def busy : Phase → Nat
  | .handling .. => 1
  | .settling .. => 1
  | .backingOff .. => 1
  | _ => 0

def Backed (history : List Event) (requests : List Call) (owner : Bytes) : Phase → Prop
  | .handling id token => ∃ msg, .delivered owner token msg ∈ history ∧ msg.id = id
  | .settling call attempt rpc => Issued history owner call ∧ attempt < 3 ∧ requests[rpc]? = some call
  | .backingOff call attempt => Issued history owner call ∧ attempt < 2
  | _ => True

end Phase

/-- Every invocation but the one in progress has counted exactly once, for what the broker has
on record. -/
structure Consumer.Faithful (history : List Event) (requests : List Call) (c : Consumer) : Prop where
  phase : c.phase.Backed history requests c.id
  numbered : c.invocations.map Invocation.number = List.range' 1 c.invocations.length
  processed : c.processed = c.invocations.length + c.phase.busy
  acked : c.acked = c.invocations.countP (·.contribution = .acked)
  nacked : c.nacked = c.invocations.countP (·.contribution = .nacked)
  lost : c.leasesLost = c.invocations.countP (·.contribution = .leaseLost)
  grounded : ∀ made ∈ c.invocations, Issued history c.id made.call ∧ made.contribution.Confirmed history made.call

section Growth
variable {history later : List Event} {requests more : List Call}

theorem Issued.mono {owner : Bytes} {call : Call} (issued : Issued history owner call) (grown : history ⊆ later) :
    Issued later owner call :=
  { issued with delivery := issued.delivery.imp fun _ found => ⟨grown found.1, found.2⟩ }

theorem Contribution.Confirmed.mono {call : Call} {contribution : Contribution}
    (confirmed : contribution.Confirmed history call) (grown : history ⊆ later) : contribution.Confirmed later call := by
  cases contribution with
  | acked => exact grown confirmed
  | nacked => exact grown confirmed
  | _ => trivial

theorem Phase.Backed.mono {owner : Bytes} {phase : Phase} (backed : phase.Backed history requests owner)
    (grown : history ⊆ later) (sent : requests <+: more) : phase.Backed later more owner := by
  cases phase with
  | handling id token => exact backed.imp fun _ found => ⟨grown found.1, found.2⟩
  | settling call attempt rpc =>
    obtain ⟨issued, bound, known⟩ := backed
    refine ⟨issued.mono grown, bound, ?_⟩
    obtain ⟨rest, rfl⟩ := sent
    rw [List.getElem?_append_left (List.getElem?_eq_some_iff.mp known).1, known]
  | backingOff call attempt => exact ⟨backed.1.mono grown, backed.2⟩
  | _ => trivial

theorem Consumer.Faithful.mono {c : Consumer} (faithful : c.Faithful history requests) (grown : history ⊆ later)
    (sent : requests <+: more) : c.Faithful later more :=
  { faithful with
    phase := faithful.phase.mono grown sent
    grounded := fun made member =>
      ⟨(faithful.grounded made member).1.mono grown, (faithful.grounded made member).2.mono grown⟩ }

end Growth

namespace Consumer.Faithful
variable {history : List Event} {requests : List Call} {c next : Consumer}

theorem fresh (id : Bytes) : Faithful history requests { id } := by
  constructor <;> simp [Phase.Backed, Phase.busy]

theorem rest (faithful : c.Faithful history requests) (free : c.phase.busy = 0) {phase : Phase}
    (resting : phase.busy = 0) (running : Bool) (lastStatus : Status) :
    Faithful history requests { c with phase, running, lastStatus } :=
  { faithful with
    phase := by
      cases phase with
      | handling => cases resting
      | settling => cases resting
      | backingOff => cases resting
      | _ => trivial
    processed := by
      change c.processed = c.invocations.length + phase.busy
      rw [resting, faithful.processed, free] }

theorem start (faithful : c.Faithful history requests) (moved : c.start = some next) :
    next.Faithful history requests := by
  unfold Consumer.start at moved
  split at moved
  next exited _ =>
    obtain rfl := Option.some.inj moved
    exact faithful.rest (congrArg Phase.busy exited) rfl true .ok
  · cases moved

theorem stop (faithful : c.Faithful history requests) : c.stop.Faithful history requests := { faithful with }

theorem poll (faithful : c.Faithful history requests) (moved : c.poll = some next) :
    next.Faithful history requests := by
  unfold Consumer.poll at moved
  split at moved
  next idle =>
    obtain rfl := Option.some.inj moved
    have resting : (if c.running then Phase.pulling else Phase.exited).busy = 0 := by split <;> rfl
    exact faithful.rest (congrArg Phase.busy idle) resting c.running c.lastStatus
  · cases moved

theorem pullFails (faithful : c.Faithful history requests) {status : Status}
    (moved : c.pullFails status = some next) : next.Faithful history requests := by
  unfold Consumer.pullFails at moved
  split at moved
  next pulling =>
    have free : c.phase.busy = 0 := congrArg Phase.busy pulling
    split at moved
    · cases moved
    · split at moved
      · obtain rfl := Option.some.inj moved
        exact faithful.rest free rfl c.running c.lastStatus
      · split at moved
        · obtain rfl := Option.some.inj moved
          exact faithful.rest free rfl c.running c.lastStatus
        · obtain rfl := Option.some.inj moved
          exact faithful.rest free rfl false status
  · cases moved

theorem pullTimesOut (faithful : c.Faithful history requests) (moved : c.pullTimesOut = some next) :
    next.Faithful history requests := by
  unfold Consumer.pullTimesOut at moved
  split at moved
  next pulling =>
    obtain rfl := Option.some.inj moved
    exact faithful.rest (congrArg Phase.busy pulling) rfl c.running c.lastStatus
  · cases moved

theorem receive (faithful : c.Faithful history requests) {token : Bytes} {msg : Message}
    (delivered : .delivered c.id token msg ∈ history) (moved : c.receive msg.id token = some next) :
    next.Faithful history requests := by
  unfold Consumer.receive at moved
  split at moved
  next pulling =>
    obtain rfl := Option.some.inj moved
    have counted : c.processed = c.invocations.length := by simpa [pulling, Phase.busy] using faithful.processed
    exact { faithful with
      phase := ⟨msg, delivered, rfl⟩
      processed := congrArg (· + 1) counted }
  · cases moved

theorem handled (faithful : c.Faithful history requests) {result : HandlerResult} {processingMs : Int} {call : Call}
    (moved : c.handled result processingMs requests.length = some (next, call)) :
    next.Faithful history (requests ++ [call]) := by
  unfold Consumer.handled at moved
  split at moved
  next id token handling =>
    obtain ⟨rfl, rfl⟩ := Prod.mk.inj (Option.some.inj moved)
    have delivery := faithful.phase
    rw [handling] at delivery
    have kind : (c.request id token result processingMs).kind ≠ .expired := by
      simp only [request]
      split <;> exact nofun
    have grown := faithful.mono (List.Subset.refl history)
      (List.prefix_append requests [c.request id token result processingMs])
    exact { grown with
      phase := ⟨⟨rfl, delivery, kind⟩, by decide, List.getElem?_concat_length⟩
      processed := by simpa [handling, Phase.busy] using faithful.processed }
  · cases moved

theorem resend (faithful : c.Faithful history requests) {call : Call}
    (moved : c.resend requests.length = some (next, call)) : next.Faithful history (requests ++ [call]) := by
  unfold Consumer.resend at moved
  split at moved
  next sent attempt waiting =>
    obtain ⟨rfl, rfl⟩ := Prod.mk.inj (Option.some.inj moved)
    have backed := faithful.phase
    rw [waiting] at backed
    have grown := faithful.mono (List.Subset.refl history) (List.prefix_append requests [sent])
    exact { grown with
      phase := ⟨backed.1, Nat.succ_lt_succ backed.2, List.getElem?_concat_length⟩
      processed := by simpa [waiting, Phase.busy] using faithful.processed }
  · cases moved

/-- The invocation in progress counts, and its counter goes up by one. -/
theorem conclude (faithful : c.Faithful history requests) (busy : c.phase.busy = 1) {call : Call}
    (issued : Issued history c.id call) (contribution : Contribution)
    (confirmed : contribution.Confirmed history call) {counted : Consumer} (id : counted.id = c.id)
    (processed : counted.processed = c.processed) (invocations : counted.invocations = c.invocations)
    (acked : counted.acked = c.acked + if contribution = .acked then 1 else 0)
    (nacked : counted.nacked = c.nacked + if contribution = .nacked then 1 else 0)
    (lost : counted.leasesLost = c.leasesLost + if contribution = .leaseLost then 1 else 0) :
    Faithful history requests (counted.conclude call contribution) where
  phase := trivial
  numbered := by
    simp only [Consumer.conclude, invocations, processed, List.map_append, faithful.numbered, faithful.processed, busy,
      List.length_append, List.length_singleton, List.range'_concat]
    simp [Nat.add_comm]
  processed := by
    simp only [Consumer.conclude, invocations, processed, List.length_append, List.length_singleton]
    rw [faithful.processed, busy]
    rfl
  acked := by simp [Consumer.conclude, invocations, acked, faithful.acked, List.countP_append, List.countP_singleton]
  nacked := by simp [Consumer.conclude, invocations, nacked, faithful.nacked, List.countP_append, List.countP_singleton]
  lost := by simp [Consumer.conclude, invocations, lost, faithful.lost, List.countP_append, List.countP_singleton]
  grounded := by
    intro made member
    simp only [Consumer.conclude, invocations, List.mem_append, List.mem_singleton] at member
    rw [Consumer.conclude, id]
    rcases member with old | rfl
    · exact faithful.grounded made old
    · exact ⟨issued, confirmed⟩

/-- One call of `settle_with_retry` has returned; an `OK` is the broker's. -/
theorem returned (faithful : c.Faithful history requests) {call : Call} {attempt rpc : Nat}
    (settling : c.phase = .settling call attempt rpc) {status : Status}
    (accepted : status.code = .ok → .settled call.owner call.token call.id call.kind ∈ history) :
    (c.returned call attempt status).Faithful history requests := by
  have backed := faithful.phase
  rw [settling] at backed
  have issued := backed.1
  have busy : c.phase.busy = 1 := congrArg Phase.busy settling
  unfold Consumer.returned
  by_cases ok : status.code = .ok
  · rw [if_pos ok]
    have recorded := accepted ok
    cases kind : call.kind with
    | ack =>
      rw [kind] at recorded
      exact faithful.conclude busy issued .acked recorded rfl rfl rfl rfl rfl rfl
    | nack =>
      rw [kind] at recorded
      exact faithful.conclude busy issued .nacked recorded rfl rfl rfl rfl rfl rfl
    | expired => exact absurd kind issued.kind
  · rw [if_neg ok]
    by_cases again : transient status ∧ attempt < 2
    · simp only [if_pos again]
      exact { faithful with
        phase := ⟨issued, again.2⟩
        processed := by simpa [settling, Phase.busy] using faithful.processed }
    · simp only [if_neg again, settlementFailed]
      by_cases lost : status.code = .failedPrecondition
      · simp only [if_pos lost]
        exact faithful.conclude busy issued .leaseLost trivial rfl rfl rfl rfl rfl rfl
      · simp only [if_neg lost]
        exact faithful.conclude busy issued .stopped trivial rfl rfl rfl rfl rfl rfl

end Consumer.Faithful

theorem Consumer.Faithful.total {history : List Event} {requests : List Call} {c : Consumer}
    (faithful : c.Faithful history requests) : c.processed = c.acked + c.nacked + c.leasesLost +
      c.invocations.countP (·.contribution = .stopped) + c.phase.busy := by
  have length : c.invocations.length = c.invocations.countP (·.contribution = .acked) +
      c.invocations.countP (·.contribution = .nacked) + c.invocations.countP (·.contribution = .leaseLost) +
      c.invocations.countP (·.contribution = .stopped) := by
    induction c.invocations with
    | nil => rfl
    | cons made rest ih =>
      simp only [List.length_cons, List.countP_cons, ih]
      cases made.contribution <;> simp <;> omega
  rw [faithful.processed, faithful.acked, faithful.nacked, faithful.lost, length]

/-- A move of a worker counts for at most one invocation, and one that counts as a terminal stop
leaves the worker at the head of its loop with nothing left to do but exit. -/
def Consumer.CountsOnce (c next : Consumer) : Prop :=
  next.invocations = c.invocations ∨ ∃ made, next.invocations = c.invocations ++ [made] ∧
    (made.contribution = .stopped → next.running = false ∧ next.phase = .idle ∧ next.lastStatus.code ≠ .ok)

theorem Consumer.returned_countsOnce (c : Consumer) (call : Call) (attempt : Nat) (status : Status) :
    c.CountsOnce (c.returned call attempt status) := by
  unfold Consumer.returned
  by_cases ok : status.code = .ok
  · simp only [if_pos ok, confirmed]
    by_cases ack : call.kind = .ack
    · simp only [if_pos ack]
      exact Or.inr ⟨_, rfl, fun stopped => by cases stopped⟩
    · simp only [if_neg ack]
      exact Or.inr ⟨_, rfl, fun stopped => by cases stopped⟩
  · rw [if_neg ok]
    by_cases again : transient status ∧ attempt < 2
    · simp only [if_pos again]
      exact Or.inl rfl
    · simp only [if_neg again, settlementFailed]
      by_cases lost : status.code = .failedPrecondition
      · simp only [if_pos lost]
        exact Or.inr ⟨_, rfl, fun stopped => by cases stopped⟩
      · simp only [if_neg lost]
        exact Or.inr ⟨_, rfl, fun _ => ⟨rfl, rfl, ok⟩⟩

end Harbinger
