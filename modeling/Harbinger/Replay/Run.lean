import Harbinger.Ml.Restore
import Harbinger.Replay.Basic

/-! The main program of the replay: reading an export, skipping repeated rows, sorting the events,
and the loop that predicts at each ingress and learns from each outcome, with a fresh
predictor for each run. The output is kept as records, not as their text. -/

namespace Harbinger.Replay
open Ml

structure Settings extends Options where
  predictor : PerKeyPredictorConfig := {}
  policyVersion : Bytes := ascii "per-key-replay-v2"

/-! ### Reading -/

/-- The fields that are read before a repeated row is skipped. -/
def identityOf (row : Document) : Except String (Bytes × Bytes) := do
  let type ← text row "event_type"
  reject (type ≠ ascii "ingress" ∧ type ≠ ascii "outcome") "unknown event_type"
  let run ← text row "run"
  let id ← text row "event_id"
  return (run, id)

/-- The events so far, and the fingerprint of the row of each. -/
structure Reading where
  events : List ReplayEvent := []
  seen : Bytes → Option Nat := fun _ => none
  duplicates : Nat := 0

/-- What the program takes from its libraries: the JSON parser, `std::hash` and the conversion of numbers. -/
structure Library where
  parse : Bytes → Except String Document
  hash : Bytes → Nat
  decimals : Decimals

/-- The name of an event in the map of seen rows. -/
def eventName (run id : Bytes) : Bytes := run ++ 10 :: id

def Reading.readLine (library : Library) (options : Options) (reading : Reading) (line : Bytes) : Except String Reading :=
  if line = [] then .ok reading
  else do
    let row ← library.parse line
    let (run, id) ← identityOf row
    match reading.seen (eventName run id) with
    | some fingerprint =>
      if fingerprint ≠ library.hash line then .error "conflicting duplicate event"
      else .ok { reading with duplicates := reading.duplicates + 1 }
    | none =>
      let event ← readEvent library.decimals options row
      .ok { reading with
        events := reading.events ++ [event]
        seen := Function.update reading.seen (eventName run id) (some (library.hash line)) }

def readExport (library : Library) (options : Options) (lines : List Bytes) : Except String Reading :=
  lines.foldlM (Reading.readLine library options) {}

/-! ### Sorting -/

/-- A text as `std::string` compares it. -/
def bytesOf (text : Bytes) : List Nat := text.map UInt8.toNat

/-- By run, then by time, an ingress before an outcome, then by the length of the identity and its bytes. -/
def precedes (a b : ReplayEvent) : Bool :=
  if a.run ≠ b.run then bytesOf a.run < bytesOf b.run
  else if a.time ≠ b.time then a.time < b.time
  else if a.ingress ≠ b.ingress then a.ingress
  else if a.id.length ≠ b.id.length then a.id.length < b.id.length
  else bytesOf a.id < bytesOf b.id

def sortEvents (events : List ReplayEvent) : List ReplayEvent := events.mergeSort fun a b => !precedes b a

/-! ### The loop -/

/-- A line of the output about an ingress. -/
structure Prediction where
  run : Bytes
  instanceId : Bytes
  message : Bytes
  split : Bytes
  arrivalNs : Int
  modelVersion : Bytes
  policyVersion : Bytes
  durationMs : Option ℚ
  bucket : Nat
  fallback : Option PredictionStatus
  updates : Nat
  boundariesMs : List ℚ
  deriving DecidableEq

structure Counts where
  ingress : Nat := 0
  learned : Nat := 0
  censored : Nat := 0
  parentFallbacks : Nat := 0
  deriving DecidableEq

/-- A line of the output about a whole run. -/
structure Summary where
  run : Bytes
  modelVersion : Bytes
  boundariesMs : List ℚ
  counts : Counts
  duplicates : Nat
  keys : Nat
  evictions : Nat
  overflow : Nat
  saturated : Nat
  rejected : Nat
  snapshots : Nat

inductive Output where
  | prediction (line : Prediction)
  | summary (line : Summary)

/-- The run that is being replayed. -/
structure Replaying (platform : Platform) where
  run : Bytes
  predictor : PerKeyPredictor platform
  counts : Counts := {}

namespace Replaying
variable {platform : Platform}

def boundaries (r : Replaying platform) : List ℚ := (r.predictor.snapshot.map BoundarySnapshot.boundariesMs).getD []

def summary (r : Replaying platform) (duplicates : Nat) : Summary where
  run := r.run
  modelVersion := r.predictor.modelVersion
  boundariesMs := r.boundaries
  counts := r.counts
  duplicates := duplicates
  keys := r.predictor.trackedKeys
  evictions := ((List.range r.predictor.config.shards).map fun index => (r.predictor.shards index).evictions).sum
  overflow := r.predictor.counters.overflow
  saturated := r.predictor.counters.saturated
  rejected := r.predictor.counters.rejected
  snapshots := r.predictor.counters.snapshots

/-- A cold bin takes the prediction of its parent if that is one. -/
def predict (r : Replaying platform) (event : ReplayEvent) : DurationPrediction × Replaying platform :=
  let own := r.predictor.predict event.time event.key
  let counts := { r.counts with ingress := r.counts.ingress + 1 }
  match (if own.1.status = .coldKey then event.parent else none) with
  | none => (own.1, { r with predictor := own.2, counts })
  | some parent =>
    let borrowed := own.2.predict event.time parent
    if borrowed.1.status = .predicted then
      (borrowed.1, { r with
        predictor := borrowed.2, counts := { counts with parentFallbacks := counts.parentFallbacks + 1 } })
    else (own.1, { r with predictor := borrowed.2, counts })

/-- The line of an ingress; the boundaries are those before the prediction. -/
def line (settings : Settings) (before after : Replaying platform) (event : ReplayEvent) (p : DurationPrediction) :
    Prediction where
  run := before.run
  instanceId := event.instanceId
  message := event.message
  split := event.split
  arrivalNs := event.time
  modelVersion := after.predictor.modelVersion
  policyVersion := settings.policyVersion
  durationMs := p.estimateMs
  bucket := p.bucket
  fallback := if p.status = .predicted then none else some p.status
  updates := p.keyObservations
  boundariesMs := before.boundaries

/-- What an outcome teaches. -/
def learn (r : Replaying platform) (event : ReplayEvent) : Replaying platform :=
  match event.lesson with
  | none => r
  | some (.duration ms) =>
    let taught := r.predictor.observe event.time event.key (event.parent.getD []) ms
    { r with
      predictor := taught.2
      counts := if taught.1 then { r.counts with learned := r.counts.learned + 1 } else r.counts }
  | some .censored =>
    let own := r.predictor.observeCensored event.time event.key
    let both := match event.parent with
      | none => own
      | some parent =>
        let other := own.2.observeCensored event.time parent
        (other.1 || own.1, other.2)
    { r with
      predictor := both.2
      counts := if both.1 then { r.counts with censored := r.counts.censored + 1 } else r.counts }

/-- One round of the loop within a run. -/
def advance (settings : Settings) (r : Replaying platform) (event : ReplayEvent) : List Prediction × Replaying platform :=
  if event.ingress then
    let predicted := r.predict event
    ([line settings r predicted.2 event predicted.1], predicted.2)
  else ([], r.learn event)

/-- A run begins with a fresh predictor. -/
def enter (fresh : PerKeyPredictor platform) (current : Option (Replaying platform)) (run : Bytes) : Replaying platform :=
  match current with
  | none => { run, predictor := fresh }
  | some r => if r.run = run then r else { run, predictor := fresh }

/-- The summary of the run that ends before an event of the given run. -/
def close (duplicates : Nat) (current : Option (Replaying platform)) (run : Bytes) : List Output :=
  match current with
  | none => []
  | some r => if r.run = run then [] else [.summary (r.summary duplicates)]

end Replaying

def replayEvents {platform : Platform} (settings : Settings) (fresh : PerKeyPredictor platform) (duplicates : Nat) :
    Option (Replaying platform) → List ReplayEvent → List Output
  | none, [] => []
  | some r, [] => [.summary (r.summary duplicates)]
  | current, event :: rest =>
    let advanced := (Replaying.enter fresh current event.run).advance settings event
    Replaying.close duplicates current event.run ++ advanced.1.map .prediction ++
      replayEvents settings fresh duplicates (some advanced.2) rest

/-- The output of the program. -/
def replay (library : Library) (platform : Platform) (layout : Layout) (settings : Settings) (lines : List Bytes) :
    Except String (List Output) := do
  let fresh ← PerKeyPredictor.create platform settings.predictor layout
  let reading ← readExport library settings.toOptions lines
  return replayEvents settings fresh reading.duplicates none (sortEvents reading.events)

def Output.prediction? : Output → Option Prediction
  | .prediction line => some line
  | .summary _ => none

def predictions (outputs : List Output) : List Prediction := outputs.filterMap Output.prediction?

end Harbinger.Replay
