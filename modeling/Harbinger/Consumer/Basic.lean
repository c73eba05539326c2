import Harbinger.Broker.System

/-! `Consumer` and the network between consumers and the broker. A worker is described by
where it stands in its loop; every remote call has a number. A request or a reply that was
once sent may arrive late, in any order, more than once or never: requests can be served at
any time, and replies stay available. `invocations` records what each handler invocation
counted for; no step reads it. -/

namespace Harbinger
open Ml Deliveries

inductive HandlerResult where
  | success
  | failure
  | exception (what : Bytes)
  | unknownException
  deriving DecidableEq

/-- What a handler invocation counted for. -/
inductive Contribution where
  | acked | nacked | leaseLost | stopped
  deriving DecidableEq, Repr

structure Invocation where
  number : Nat
  call : Call
  contribution : Contribution

/-- Where the worker stands in `run`. -/
inductive Phase where
  | idle
  | pulling
  | handling (id token : Bytes)
  | settling (call : Call) (attempt rpc : Nat)
  | backingOff (call : Call) (attempt : Nat)
  | exited

structure Consumer where
  id : Bytes
  running : Bool := false
  phase : Phase := .exited
  lastStatus : Status := .ok
  processed : Nat := 0
  acked : Nat := 0
  nacked : Nat := 0
  rpcFailures : Nat := 0
  leasesLost : Nat := 0
  invocations : List Invocation := []

def transient (status : Status) : Bool := status.code = .unavailable || status.code = .deadlineExceeded

namespace Consumer

/-- `start`, once the previous worker has been joined. -/
def start (c : Consumer) : Option Consumer :=
  match c.phase, c.running with
  | .exited, false => some { c with running := true, lastStatus := .ok, phase := .idle }
  | _, _ => none

def stop (c : Consumer) : Consumer := { c with running := false }

def fail (c : Consumer) (status : Status) : Consumer := { c with lastStatus := status, running := false }

/-- The head of the loop. -/
def poll (c : Consumer) : Option Consumer :=
  match c.phase with
  | .idle => some { c with phase := if c.running then .pulling else .exited }
  | _ => none

def pullFails (c : Consumer) (status : Status) : Option Consumer :=
  match c.phase with
  | .pulling =>
    if status.code = .ok then none
    else if ¬c.running then some { c with phase := .exited }
    else if transient status then some { c with phase := .idle }
    else some { c.fail status with phase := .exited }
  | _ => none

def pullTimesOut (c : Consumer) : Option Consumer :=
  match c.phase with
  | .pulling => some { c with phase := .idle }
  | _ => none

/-- A delivery arrives and the handler is invoked. -/
def receive (c : Consumer) (id token : Bytes) : Option Consumer :=
  match c.phase with
  | .pulling => some { c with processed := c.processed + 1, phase := .handling id token }
  | _ => none

/-- The request of a handler result. `Ack` settles with its own name as the reason. -/
def request (c : Consumer) (id token : Bytes) (result : HandlerResult) (processingMs : Int) : Call where
  owner := c.id
  id := id
  token := token
  kind := if result = .success then .ack else .nack
  reason := match result with
    | .success => ascii "Ack"
    | .failure => ascii "handler_returned_failure"
    | .exception what => ascii "handler_exception: " ++ what
    | .unknownException => ascii "handler_exception: unknown exception"
  processingTimeMs := processingMs

/-- The handler returns and the first copy of the request goes out as call number `rpc`. -/
def handled (c : Consumer) (result : HandlerResult) (processingMs : Int) (rpc : Nat) : Option (Consumer × Call) :=
  match c.phase with
  | .handling id token =>
    let call := c.request id token result processingMs
    some ({ c with phase := .settling call 0 rpc }, call)
  | _ => none

def confirmed (c : Consumer) (kind : Settlement) : Consumer :=
  if kind = .ack then { c with acked := c.acked + 1 } else { c with nacked := c.nacked + 1 }

def settlementFailed (c : Consumer) (status : Status) : Consumer :=
  if status.code = .failedPrecondition then { c with leasesLost := c.leasesLost + 1 } else c.fail status

/-- The invocation in progress ends. -/
def conclude (c : Consumer) (call : Call) (contribution : Contribution) : Consumer :=
  { c with
    phase := .idle
    invocations := c.invocations ++ [⟨c.processed, call, contribution⟩] }

/-- `settle_with_retry` after one of its calls has returned, and what `run` makes of its result. -/
def returned (c : Consumer) (call : Call) (attempt : Nat) (status : Status) : Consumer :=
  if status.code = .ok then
    (c.confirmed call.kind).conclude call (if call.kind = .ack then .acked else .nacked)
  else
    let c := { c with rpcFailures := c.rpcFailures + 1 }
    if transient status ∧ attempt < 2 then { c with phase := .backingOff call attempt }
    else (c.settlementFailed status).conclude call
      (if status.code = .failedPrecondition then .leaseLost else .stopped)

/-- The next copy of the same request. -/
def resend (c : Consumer) (rpc : Nat) : Option (Consumer × Call) :=
  match c.phase with
  | .backingOff call attempt => some ({ c with phase := .settling call (attempt + 1) rpc }, call)
  | _ => none

end Consumer

/-- The broker, its consumers, every request sent so far by its number, and every reply. -/
structure Cluster (σ : Type) where
  system : System σ
  consumers : List Consumer := []
  requests : List Call := []
  serving : Option Nat := none
  replies : List (Nat × Status) := []

inductive Move where
  | broker (action : Action)
  | serve (rpc : Nat) (recordAt leaseAt : Time) (finish : Broker.FinishReadings)
  | connect
  | start (consumer : Nat)
  | stop (consumer : Nat)
  | poll (consumer : Nat)
  | pullFails (consumer : Nat) (status : Status)
  | pullTimesOut (consumer : Nat)
  | receive (consumer position : Nat)
  | handled (consumer : Nat) (result : HandlerResult) (processingMs : Int)
  | replied (consumer : Nat) (status : Status)
  | callFails (consumer : Nat) (status : Status)
  | resend (consumer : Nat)

namespace Cluster
variable {σ : Type}

/-- The answer that the broker gave in a step. -/
def answerSince (before after : System σ) : Option Status :=
  ((Ledger.answers after.history).drop (Ledger.answers before.history).length).head?.map Prod.snd

def withConsumer (s : Cluster σ) (position : Nat) (change : Consumer → Option Consumer) : Option (Cluster σ) := do
  let c ← s.consumers[position]?
  let c ← change c
  return { s with consumers := s.consumers.set position c }

/-- A consumer moves on and sends a request under the next number. -/
def send (s : Cluster σ) (position : Nat) (change : Consumer → Option (Consumer × Call)) : Option (Cluster σ) := do
  let c ← s.consumers[position]?
  let (c, call) ← change c
  return { s with consumers := s.consumers.set position c, requests := s.requests ++ [call] }

variable [Inference σ]

def step (cfg : HarbingerConfig) (s : Cluster σ) : Move → Option (Cluster σ)
  | .broker action => do
    let system ← s.system.step cfg action
    match s.serving, action with
    | some rpc, .close _ _ =>
      return { s with
        system
        serving := none
        replies := s.replies ++ ((answerSince s.system system).map (rpc, ·)).toList }
    | _, _ => return { s with system }
  | .serve rpc recordAt leaseAt r => do
    let call ← s.requests[rpc]?
    let system ← s.system.step cfg (.settle call recordAt leaseAt r)
    match answerSince s.system system with
    | some status => return { s with system, replies := s.replies ++ [(rpc, status)] }
    | none => return { s with system, serving := some rpc }
  | .connect => do
    let system ← s.system.step cfg .registerConsumer
    let id := ascii "consumer-" ++ decimal s.system.broker.consumerCounter
    return { s with system, consumers := s.consumers ++ [{ id }] }
  | .start consumer => s.withConsumer consumer Consumer.start
  | .stop consumer => s.withConsumer consumer fun c => some c.stop
  | .poll consumer => s.withConsumer consumer Consumer.poll
  | .pullFails consumer status => s.withConsumer consumer (·.pullFails status)
  | .pullTimesOut consumer => s.withConsumer consumer Consumer.pullTimesOut
  | .receive consumer position =>
    s.withConsumer consumer fun c =>
      match s.system.history[position]? with
      | some (.delivered owner token msg) => if owner = c.id then c.receive msg.id token else none
      | _ => none
  | .handled consumer result processingMs => s.send consumer (·.handled result processingMs s.requests.length)
  | .replied consumer status =>
    s.withConsumer consumer fun c =>
      match c.phase with
      | .settling call attempt rpc =>
        if (rpc, status) ∈ s.replies then some (c.returned call attempt status) else none
      | _ => none
  | .callFails consumer status =>
    s.withConsumer consumer fun c =>
      match c.phase with
      | .settling call attempt _ => if status.code = .ok then none else some (c.returned call attempt status)
      | _ => none
  | .resend consumer => s.send consumer (·.resend s.requests.length)

/-- A cluster around a broker that has just been constructed. -/
def initial (broker : Broker σ) (now : Time) : Cluster σ := { system := System.initial broker now }

end Cluster

end Harbinger
