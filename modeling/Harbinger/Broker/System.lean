import Harbinger.Broker.Basic
import Harbinger.Ledger.Basic
import Harbinger.Transition

/-! The running broker. A handler or background thread is a task between two of its
critical sections; any task may take the next step. The thread that holds
`in_flight_mutex_` while it calls into the queue or the DLQ is the holder, and only it may
touch the delivery tables. The clock never goes back, no reading lies ahead of it, and
readings made under `in_flight_mutex_` follow each other. `finished` and `history` record
what happened; no step reads them. -/

namespace Harbinger
open Container Ml Deliveries

/-- Why expired messages are on their way to the DLQ. -/
inductive Errand where
  | pullSweep (consumer : Bytes)
  | pullExpiry (consumer : Bytes)
  | backgroundSweep
  deriving DecidableEq

def Errand.details : Errand → Bytes
  | .pullSweep _ => ascii "TTL expired in queue"
  | .pullExpiry _ => ascii "TTL expired at Pull time"
  | .backgroundSweep => ascii "TTL expired in queue (sweeper)"

def Errand.trigger : Errand → FeedbackTrigger
  | .pullSweep _ => .ttlSweep
  | .pullExpiry _ => .pullExpiry
  | .backgroundSweep => .ttlSweep

inductive Task where
  | submitting (msg : Message)
  | routed (msg : Message)
  | pulling (consumer : Bytes)
  | burying (errand : Errand) (hand : List Message) (since : Time)
  | swept (consumer : Bytes)
  | selected (consumer : Bytes) (msg : Message)
  | staged (consumer : Bytes) (msg : Message) (token : Bytes)

/-- Where a thread goes on once its expired messages are in the DLQ. -/
def Errand.resume : Errand → List Task
  | .pullSweep consumer => [.swept consumer]
  | .pullExpiry consumer => [.pulling consumer]
  | .backgroundSweep => []

/-- The thread inside `in_flight_mutex_`: between the hand-off and the end of `finish_locked`
in `settle`, at the loop head of `maintain_deliveries`, or inside `finish_locked` there. -/
inductive Holder where
  | settling (call : Call) (entry : InFlightEntry) (kind : Settlement) (status : Status)
      (update : Option PredictorUpdate)
  | maintaining (budget : Nat) (reading : Time) (updates : List PredictorUpdate)
  | reclaiming (budget : Nat) (reading : Time) (updates : List PredictorUpdate) (id : Bytes)
      (entry : InFlightEntry)

/-- The entry whose message has already been handed on. -/
def Holder.pending? : Holder → Option Bytes
  | .settling call _ _ _ _ => some call.id
  | .maintaining .. => none
  | .reclaiming _ _ _ id _ => some id

structure System (σ : Type) where
  broker : Broker σ
  tasks : List Task := []
  holder : Option Holder := none
  lessons : List PredictorUpdate := []
  now : Time
  lockClock : Time
  finished : List Message := []
  history : List Event := []
  emitted : List FeedbackEvent := []

inductive Action where
  | tick (now : Time)
  | registerProducer
  | registerConsumer
  | submit (req : SubmitRequest) (idAt arrivalAt : Time)
  | route (task : Nat) (readings : Broker.PredictReadings)
  | enqueue (task : Nat) (enqueueAt : Time) (stamp : Stamp)
  | pull (consumer : Bytes)
  | sweep (task : Nat) (reading : Time)
  | backgroundSweep (reading : Time)
  | bury (task : Nat) (dlqAt : Time) (stamp : Stamp)
  | resume (task : Nat)
  | abandon (task : Nat)
  | dequeue (task : Nat)
  | inspect (task : Nat) (expiryAt idAt : Time)
  | install (task : Nat) (cancelled : Bool) (fault : Fault) (leaseAt pullAt : Time)
  | settle (call : Call) (recordAt leaseAt : Time) (finish : Broker.FinishReadings)
  | close (doneAt pruneAt : Time)
  | maintain (reading : Time)
  | reclaim (finish : Broker.FinishReadings)
  | closeReclaim (doneAt pruneAt : Time)
  | endMaintain (pruneAt : Time)
  | age (reading : Time) (readings : List Time)
  | learn (lesson : Nat) (first second : Time)

namespace System
variable {σ : Type}

/-- The task at this position goes on as `next`. -/
def proceed (s : System σ) (task : Nat) (next : List Task) : System σ :=
  { s with tasks := s.tasks.eraseIdx task ++ next }

def log (s : System σ) (events : List Event) : System σ := { s with history := s.history ++ events }

def judgeExpired (occasion : Occasion) (reading : Time) (msg : Message) : Event :=
  .judged occasion msg.frozen reading (.deadLettered .ttlExpired)

/-- A batch of `sweep_expired_batch` in the hands of a thread. -/
def sweepFor (cfg : HarbingerConfig) (s : System σ) (errand : Errand) (reading : Time) : System σ × Task :=
  let swept := MultiLevelQueue.sweepExpiredBatch reading cfg.maintenanceBatchSize s.broker.queue
  (log { s with broker := { s.broker with queue := swept.2 } } (swept.1.map (judgeExpired .sweep reading)),
    .burying errand swept.1 reading)

/-- What `finish_locked` decides about the message of an attempt. -/
def fate (msg : Message) (kind : Settlement) (reading : Time) : Fate :=
  if msg.isExpired reading then .deadLettered .ttlExpired
  else if kind = .ack then .acknowledged
  else if (Broker.failOnce msg).maxRetries ≤ (Broker.failOnce msg).retryCount then
    .deadLettered .maxRetriesExceeded
  else .retried

/-- `finish_locked` up to the hand-off, with what it leaves on record. -/
def handOff (s : System σ) (out : Broker.Finished σ) (entry : InFlightEntry) (kind : Settlement)
    (r : Broker.FinishReadings) : System σ :=
  { s with
    broker := out.broker
    lockClock := r.placeAt
    finished := if fate entry.message kind r.expiryAt = .acknowledged
      then s.finished ++ [entry.message] else s.finished
    history := s.history ++ Ledger.verdict ⟨entry.consumerId, entry.attemptToken, entry.message.frozen⟩ kind
      r.expiryAt (fate entry.message kind r.expiryAt)
    emitted := s.emitted ++ out.event.toList }

/-- The tail of `finish_locked`. -/
def closeEntry (cfg : HarbingerConfig) (s : System σ) (id : Bytes) (entry : InFlightEntry)
    (kind : Settlement) (doneAt pruneAt : Time) : System σ :=
  { s with
    broker := { s.broker with
      deliveries := s.broker.deliveries.finishClose cfg id entry kind doneAt pruneAt }
    lockClock := pruneAt }

def withQueue (s : System σ) (queue : MultiLevelQueue) : System σ :=
  { s with broker := { s.broker with queue } }

/-- The deadline index has an entry that is due at `reading`. -/
def dueLease? (d : Deliveries) (reading : Time) : Option Bytes :=
  match d.deadlines.front? with
  | none => none
  | some slot => if slot.value.1 ≤ reading then some slot.value.2 else none

/-- The locked part of `Pull`, after which the message is in flight or back in the queue. -/
def installFor (cfg : HarbingerConfig) (s : System σ) (consumer : Bytes) (msg : Message) (token : Bytes)
    (cancelled : Bool) (fault : Fault) (leaseAt pullAt : Time) : System σ :=
  match s.broker.deliveries.installation cfg msg consumer token cancelled fault leaseAt pullAt with
  | (deliveries, status) =>
    let broker := { s.broker with deliveries }
    if status = .ok then
      log { s with broker, lockClock := pullAt } [.delivered consumer token (Ledger.begun msg.frozen)]
    else withQueue { s with broker }
      ((broker.queue.requeueFront broker.levelShareCost msg).getD broker.queue)

/-- `settle` under the lock up to its answer or its hand-off. -/
def settleFor (cfg : HarbingerConfig) (s : System σ) (call : Call) (recordAt leaseAt : Time)
    (r : Broker.FinishReadings) : System σ :=
  match s.broker.deliveries.settleLocked cfg call recordAt leaseAt with
  | (deliveries, .reply status) =>
    log { s with broker := { s.broker with deliveries }, lockClock := leaseAt } [.answered call status]
  | (deliveries, .finish entry kind reason measurement status) =>
    let out := { s.broker with deliveries }.finishHand cfg entry kind reason measurement r
    { s.handOff out entry kind r with holder := some (.settling call entry kind status out.update) }

variable [Inference σ]

def step (cfg : HarbingerConfig) (s : System σ) : Action → Option (System σ)
  | .tick now => if s.now ≤ now then some { s with now } else none
  | .registerProducer => some { s with broker := s.broker.registerProducer }
  | .registerConsumer => some { s with broker := s.broker.registerConsumer }
  | .submit req idAt arrivalAt =>
    if s.broker.submitRefused req = none ∧ idAt ≤ s.now ∧ arrivalAt ≤ s.now then
      some { s with
        broker := s.broker.countId
        tasks := s.tasks ++ [.submitting (s.broker.accept req idAt arrivalAt)] }
    else none
  | .route task r =>
    match s.tasks[task]? with
    | some (.submitting msg) =>
      let (msg, broker) := s.broker.routeMessage cfg msg r
      some ({ s with broker }.proceed task [.routed msg])
    | _ => none
  | .enqueue task enqueueAt stamp =>
    match s.tasks[task]? with
    | some (.routed msg) =>
      if enqueueAt ≤ s.now then
        match s.broker.queue.enqueue s.broker.levelShareCost msg enqueueAt with
        | none => some (s.proceed task [])
        | some queue =>
          some (log { (s.withQueue queue).proceed task [] with
            emitted := s.emitted ++ (Broker.captureEvent cfg msg .submit stamp).toList }
            [.accepted msg.frozen])
      else none
    | _ => none
  | .pull consumer =>
    if consumer ∈ s.broker.consumers then some { s with tasks := s.tasks ++ [.pulling consumer] } else none
  | .sweep task reading =>
    match s.tasks[task]? with
    | some (.pulling consumer) =>
      if reading ≤ s.now then
        let (s, burial) := s.sweepFor cfg (.pullSweep consumer) reading
        some (s.proceed task [burial])
      else none
    | _ => none
  | .backgroundSweep reading =>
    if reading ≤ s.now then
      let (s, burial) := s.sweepFor cfg .backgroundSweep reading
      some { s with tasks := s.tasks ++ [burial] }
    else none
  | .bury task dlqAt stamp =>
    match s.tasks[task]? with
    | some (.burying errand (msg :: rest) since) =>
      if since ≤ dlqAt ∧ dlqAt ≤ s.now then
        some ({ s with
          broker := s.broker.pushDlq msg .ttlExpired dlqAt errand.details
          emitted := s.emitted ++ ((Broker.captureEvent cfg msg errand.trigger stamp).map
            (Broker.deadLettered .ttlExpired)).toList }.proceed task [.burying errand rest since])
      else none
    | _ => none
  | .resume task =>
    match s.tasks[task]? with
    | some (.burying errand [] _) => some (s.proceed task errand.resume)
    | _ => none
  | .abandon task =>
    match s.tasks[task]? with
    | some (.pulling _) => some (s.proceed task [])
    | some (.swept _) => some (s.proceed task [])
    | _ => none
  | .dequeue task =>
    match s.tasks[task]? with
    | some (.swept consumer) =>
      match s.broker.queue.dequeueLocked s.broker.levelShareCost with
      | none => some (s.proceed task [.pulling consumer])
      | some (msg, queue) => some ((s.withQueue queue).proceed task [.selected consumer msg])
    | _ => none
  | .inspect task expiryAt idAt =>
    match s.tasks[task]? with
    | some (.selected consumer msg) =>
      if expiryAt ≤ s.now ∧ idAt ≤ s.now then
        if msg.isExpired expiryAt then
          some ((s.log [judgeExpired .selection expiryAt msg]).proceed task
            [.burying (.pullExpiry consumer) [msg] expiryAt])
        else some ((log { s with broker := s.broker.countId } [.judged .selection msg.frozen expiryAt .kept]).proceed
          task [.staged consumer msg (s.broker.attemptToken idAt)])
      else none
    | _ => none
  | .install task cancelled fault leaseAt pullAt =>
    match s.holder, s.tasks[task]? with
    | none, some (.staged consumer msg token) =>
      if s.lockClock ≤ leaseAt ∧ leaseAt ≤ pullAt ∧ pullAt ≤ s.now then
        some ((s.installFor cfg consumer msg token cancelled fault leaseAt pullAt).proceed task [])
      else none
    | _, _ => none
  | .settle call recordAt leaseAt r =>
    match s.broker.settleRefused call with
    | some status => some (s.log [.answered call status])
    | none =>
      if s.holder.isNone ∧ s.lockClock ≤ recordAt ∧ recordAt ≤ leaseAt ∧ leaseAt ≤ r.expiryAt ∧
          r.expiryAt ≤ r.placeAt ∧ r.placeAt ≤ s.now then
        some (s.settleFor cfg call recordAt leaseAt r)
      else none
  | .close doneAt pruneAt =>
    match s.holder with
    | some (.settling call entry kind status update) =>
      if s.lockClock ≤ doneAt ∧ doneAt ≤ pruneAt ∧ pruneAt ≤ s.now then
        some (log { s.closeEntry cfg call.id entry kind doneAt pruneAt with
          holder := none, lessons := s.lessons ++ update.toList } [.answered call status])
      else none
    | _ => none
  | .maintain reading =>
    if s.holder.isNone ∧ s.lockClock ≤ reading ∧ reading ≤ s.now then
      some { s with holder := some (.maintaining cfg.maintenanceBatchSize reading []), lockClock := reading }
    else none
  | .reclaim r =>
    match s.holder with
    | some (.maintaining (budget + 1) reading updates) =>
      match dueLease? s.broker.deliveries reading with
      | none => none
      | some id =>
        match s.broker.deliveries.inFlight.lookup id with
        | none => none
        | some entry =>
          if s.lockClock ≤ r.expiryAt ∧ r.expiryAt ≤ r.placeAt ∧ r.placeAt ≤ s.now then
            let out := s.broker.finishHand cfg entry .expired leaseExpired none r
            some { s.handOff out entry .expired r with
              holder := some (.reclaiming budget reading (updates ++ out.update.toList) id entry) }
          else none
    | _ => none
  | .closeReclaim doneAt pruneAt =>
    match s.holder with
    | some (.reclaiming budget reading updates id entry) =>
      if s.lockClock ≤ doneAt ∧ doneAt ≤ pruneAt ∧ pruneAt ≤ s.now then
        some { s.closeEntry cfg id entry .expired doneAt pruneAt with
          holder := some (.maintaining budget reading updates) }
      else none
    | _ => none
  | .endMaintain pruneAt =>
    match s.holder with
    | some (.maintaining budget reading updates) =>
      if (budget = 0 ∨ dueLease? s.broker.deliveries reading = none) ∧ s.lockClock ≤ pruneAt ∧
          pruneAt ≤ s.now then
        some { s with
          broker := { s.broker with
            deliveries := pruneCompletionsLocked cfg pruneAt cfg.maintenanceBatchSize s.broker.deliveries }
          lockClock := pruneAt
          holder := none
          lessons := s.lessons ++ updates }
      else none
    | _ => none
  | .age reading readings =>
    if reading ≤ s.now ∧ ∀ r ∈ readings, r ≤ s.now then
      some (s.withQueue (s.broker.queue.ageOnceLocked reading (readings.getD · s.now)).1)
    else none
  | .learn lesson first second =>
    match s.lessons[lesson]? with
    | none => none
    | some update => some { s with
        broker := s.broker.learn update first second
        lessons := s.lessons.eraseIdx lesson }

/-- A broker that has just been constructed, at the clock value `now`. -/
def initial (broker : Broker σ) (now : Time) : System σ := { broker, now, lockClock := now }

end System

end Harbinger
