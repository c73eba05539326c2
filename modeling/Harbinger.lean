import Harbinger.Analysis.Acceptance
import Harbinger.Broker.Allowlist
import Harbinger.Broker.Bins
import Harbinger.Broker.Charges
import Harbinger.Broker.Deadlines
import Harbinger.Broker.Drift
import Harbinger.Broker.Inspection
import Harbinger.Broker.Keys
import Harbinger.Broker.Provenance
import Harbinger.Consumer.Protocol
import Harbinger.Feedback.Runs
import Harbinger.Json.Strict
import Harbinger.Json.Writers
import Harbinger.Ml.Ages
import Harbinger.Ml.Capacity
import Harbinger.Ml.Resume
import Harbinger.Ml.Scale
import Harbinger.Ml.Utf8
import Harbinger.Queue.Order
import Harbinger.Queue.Sweeps
import Harbinger.Queue.Turns
import Harbinger.Replay.Hindsight
import Harbinger.Simulator.Lockstep
import Harbinger.Simulator.RoundTrip
import Harbinger.Simulator.Time
