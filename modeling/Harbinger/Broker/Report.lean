import Harbinger.Broker.Refinement
import Harbinger.Ledger.Tale

/-! What each step of the running broker does to telemetry, and to what telemetry is about:
messages on their way in, the history, the events captured, and expired messages in the hands
of a thread. Said once here for every action. -/

namespace Harbinger
open Container Ml

/-- On the way into the queue. -/
def Task.arriving : Task → Bool
  | .submitting _ => true
  | .routed _ => true
  | _ => false

/-- The clock readings of the event that an action captures. -/
def Action.stamp? : Action → Option Stamp
  | .enqueue _ _ stamp => some stamp
  | .bury _ _ stamp => some stamp
  | .settle _ _ _ r => some r.stamp
  | .reclaim r => some r.stamp
  | _ => none

/-- The message that an action captures an event of. -/
def Action.subject? {σ : Type} (s : System σ) : Action → Option Message
  | .enqueue task _ _ =>
    match s.tasks[task]? with
    | some (.routed msg) => some msg
    | _ => none
  | .bury task _ _ =>
    match s.tasks[task]? with
    | some (.burying _ (msg :: _) _) => some msg
    | _ => none
  | .settle call _ _ _ => (s.broker.deliveries.inFlight.lookup call.id).map InFlightEntry.message
  | .reclaim _ =>
    match s.holder with
    | some (.maintaining _ reading _) => ((System.dueLease? s.broker.deliveries reading).bind fun id =>
        s.broker.deliveries.inFlight.lookup id).map InFlightEntry.message
    | _ => none
  | _ => none

namespace Broker
variable {σ : Type}

/-- What `finish_locked` makes of the event of a settlement with this fate. -/
def concluded (msg : Message) (fate : Fate) (event : FeedbackEvent) : FeedbackEvent :=
  match fate with
  | .deadLettered .ttlExpired => deadLettered .ttlExpired event
  | .deadLettered reason => deadLettered reason { event with retryCount := (failOnce msg).retryCount }
  | .retried => { event with retryCount := (failOnce msg).retryCount, outcome := some .retry }
  | _ => event

/-- The event that a settlement emits. -/
def finishEvent (cfg : HarbingerConfig) (entry : InFlightEntry) (kind : Settlement) (measurement : Option Int)
    (r : FinishReadings) : Option FeedbackEvent :=
  (settlementEvent cfg entry kind measurement r.stamp).map
    (concluded entry.message (System.fate entry.message kind r.expiryAt))

/-- The event of an expiry in the queue. -/
def expiryEvent (cfg : HarbingerConfig) (msg : Message) (trigger : FeedbackTrigger) (stamp : Stamp) :
    Option FeedbackEvent :=
  (captureEvent cfg msg trigger stamp).map (deadLettered .ttlExpired)

theorem finishHand_event (cfg : HarbingerConfig) (b : Broker σ) (entry : InFlightEntry) (kind : Settlement)
    (reason : Bytes) (measurement : Option Int) (r : FinishReadings) :
    (b.finishHand cfg entry kind reason measurement r).event = finishEvent cfg entry kind measurement r := by
  unfold finishEvent
  by_cases expired : entry.message.isExpired r.expiryAt
  · simp only [finishHand, expired, decide_true, ↓reduceIte, System.fate]
    rfl
  · by_cases success : kind = .ack
    · simp only [finishHand, expired, success, decide_false, Bool.false_eq_true, ↓reduceIte, System.fate]
      exact Option.map_id'.symm
    · by_cases last : (failOnce entry.message).maxRetries ≤ (failOnce entry.message).retryCount
      · simp only [finishHand, expired, success, last, decide_false, Bool.false_eq_true, ↓reduceIte, System.fate,
          Option.map_map]
        rfl
      · simp only [finishHand, expired, success, last, decide_false, Bool.false_eq_true, ↓reduceIte, System.fate,
          Option.map_map]
        rfl

theorem finishHand_predictor (cfg : HarbingerConfig) (b : Broker σ) (entry : InFlightEntry) (kind : Settlement)
    (reason : Bytes) (measurement : Option Int) (r : FinishReadings) :
    (b.finishHand cfg entry kind reason measurement r).broker.predictor = b.predictor := by
  have costs : ∀ level sample, (noteLevelCost cfg b level sample).predictor = b.predictor := by
    intro level sample
    unfold noteLevelCost
    split <;> rfl
  simp only [finishHand]
  split
  · exact costs _ _
  · split
    · exact costs _ _
    · split <;> exact costs _ _

end Broker

namespace System
variable {σ : Type}

/-- Nothing new is on its way in, and the predictor is as it was. -/
structure Steady (s s' : System σ) : Prop where
  tasks : ∀ task ∈ s'.tasks, task.arriving → task ∈ s.tasks
  predictor : s'.broker.predictor = s.broker.predictor

/-- The expired messages in the hands of threads. -/
def condemned (s : System σ) : Multiset (Message × Time) := gather Task.condemned s.tasks

inductive Report [Inference σ] (cfg : HarbingerConfig) (s : System σ) (action : Action) (s' : System σ) : Prop where
  | quiet (steady : Steady s s') (events : List Event) (history : s'.history = s.history ++ events)
      (neutral : ∀ event ∈ events, event.accepted? = none ∧ event.told? = none)
      (emitted : s'.emitted = s.emitted) (condemned : s'.condemned = s.condemned)
  | submitted (req : SubmitRequest) (idAt arrivalAt : Time) (asked : action = .submit req idAt arrivalAt)
      (tasks : s'.tasks = s.tasks ++ [.submitting (s.broker.accept req idAt arrivalAt)])
      (predictor : s'.broker.predictor = s.broker.predictor) (history : s'.history = s.history)
      (emitted : s'.emitted = s.emitted)
  | routed (msg : Message) (found : .submitting msg ∈ s.tasks) (r : Broker.PredictReadings)
      (tasks : ∀ task ∈ s'.tasks, task.arriving → task ∈ s.tasks ∨ task = .routed (s.broker.routeMessage cfg msg r).1)
      (predictor : s'.broker.predictor = (s.broker.routeMessage cfg msg r).2.predictor)
      (history : s'.history = s.history) (emitted : s'.emitted = s.emitted) (condemned : s'.condemned = s.condemned)
  | accepted (steady : Steady s s') (msg : Message) (found : .routed msg ∈ s.tasks) (stamp : Stamp)
      (stamped : action.stamp? = some stamp) (subject : action.subject? s = some msg)
      (history : s'.history = s.history ++ [.accepted msg.frozen])
      (emitted : s'.emitted = s.emitted ++ (Broker.captureEvent cfg msg .submit stamp).toList)
      (condemned : s'.condemned = s.condemned)
  | judged (steady : Steady s s') (occasion : Occasion) (queued : occasion = .sweep ∨ occasion = .selection)
      (reading : Time) (hand : List Message)
      (history : s'.history = s.history ++ hand.map (judgeExpired occasion reading))
      (emitted : s'.emitted = s.emitted)
      (condemned : s'.condemned = s.condemned + ↑(hand.map fun msg => (msg.frozen, reading)))
  | buried (steady : Steady s s') (msg : Message) (since : Time) (trigger : FeedbackTrigger)
      (queued : trigger = .ttlSweep ∨ trigger = .pullExpiry) (stamp : Stamp) (stamped : action.stamp? = some stamp)
      (subject : action.subject? s = some msg) (history : s'.history = s.history)
      (emitted : s'.emitted = s.emitted ++ (Broker.expiryEvent cfg msg trigger stamp).toList)
      (condemned : s.condemned = (msg.frozen, since) ::ₘ s'.condemned)
  | settled (steady : Steady s s') (id : Bytes) (entry : InFlightEntry) (live : s.live.lookup id = some entry)
      (numbered : entry.attemptId = entry.message.deliveryCount) (kind : Settlement) (measurement : Option Int)
      (asked : (kind = .expired ∧ measurement = none) ∨ ∃ call recordAt leaseAt r,
        action = .settle call recordAt leaseAt r ∧ kind = call.kind ∧ measurement = some call.processingTimeMs)
      (r : Broker.FinishReadings) (stamped : action.stamp? = some r.stamp)
      (subject : action.subject? s = some entry.message)
      (history : s'.history = s.history ++
        Ledger.verdict entry.lease kind r.expiryAt (fate entry.message kind r.expiryAt))
      (emitted : s'.emitted = s.emitted ++ (Broker.finishEvent cfg entry kind measurement r).toList)
      (condemned : s'.condemned = s.condemned)
  | learned (update : PredictorUpdate) (first second : Time) (tasks : s'.tasks = s.tasks)
      (predictor : s'.broker.predictor = (s.broker.learn update first second).predictor)
      (history : s'.history = s.history) (emitted : s'.emitted = s.emitted)

theorem forall_emitted {P : FeedbackEvent → Prop} {before after : List FeedbackEvent} {events : Option FeedbackEvent}
    (emitted : after = before ++ events.toList) (old : ∀ event ∈ before, P event) (new : ∀ event ∈ events, P event) :
    ∀ event ∈ after, P event := by
  intro event member
  rw [emitted] at member
  exact (List.mem_append.mp member).elim (old event) fun added => new event (Option.mem_toList.mp added)

section Frames
variable {s s' : System σ} {position : Nat} {task : Task} {next : List Task}

theorem Steady.same (tasks : s'.tasks = s.tasks) (predictor : s'.broker.predictor = s.broker.predictor) :
    Steady s s' :=
  ⟨fun _ member _ => tasks ▸ member, predictor⟩

theorem Steady.proceed (tasks : s'.tasks = s.tasks.eraseIdx position ++ next)
    (inner : ∀ task ∈ next, task.arriving = false) (predictor : s'.broker.predictor = s.broker.predictor) :
    Steady s s' := by
  refine ⟨fun task member arriving => ?_, predictor⟩
  rw [tasks] at member
  rcases List.mem_append.mp member with old | new
  · exact List.mem_of_mem_eraseIdx old
  · rw [inner task new] at arriving
    cases arriving

theorem condemned_proceed (found : s.tasks[position]? = some task)
    (tasks : s'.tasks = s.tasks.eraseIdx position ++ next) :
    s.condemned + gather Task.condemned next = s'.condemned + ↑task.condemned := by
  simp only [condemned, tasks, gather_append, gather_eraseIdx found]
  abel

theorem condemned_same (found : s.tasks[position]? = some task)
    (tasks : s'.tasks = s.tasks.eraseIdx position ++ next) (hand : gather Task.condemned next = ↑task.condemned) :
    s'.condemned = s.condemned := by
  have moved := condemned_proceed found tasks
  rw [hand] at moved
  exact (add_right_cancel moved).symm

theorem condemned_added {hand : List (Message × Time)} (found : s.tasks[position]? = some task)
    (tasks : s'.tasks = s.tasks.eraseIdx position ++ next) (empty : task.condemned = [])
    (taken : gather Task.condemned next = ↑hand) : s'.condemned = s.condemned + ↑hand := by
  have moved := condemned_proceed found tasks
  rw [empty, taken, Multiset.coe_nil, add_zero] at moved
  exact moved.symm

theorem condemned_dropped {item : Message × Time} {hand : List (Message × Time)}
    (found : s.tasks[position]? = some task) (tasks : s'.tasks = s.tasks.eraseIdx position ++ next)
    (left : gather Task.condemned next = ↑hand) (before : task.condemned = item :: hand) :
    s.condemned = item ::ₘ s'.condemned := by
  have moved := condemned_proceed found tasks
  rw [before, left, ← Multiset.cons_coe, Multiset.add_cons, ← Multiset.cons_add] at moved
  exact add_right_cancel moved

end Frames

section Steps
variable [Inference σ] {cfg : HarbingerConfig} {s s' : System σ} {action : Action}

theorem Report.silent (steady : Steady s s') (history : s'.history = s.history) (emitted : s'.emitted = s.emitted)
    (condemned : s'.condemned = s.condemned) : Report cfg s action s' :=
  .quiet steady [] (history.trans (List.append_nil _).symm) (fun _ member => by cases member) emitted condemned

theorem Report.noted (steady : Steady s s') {event : Event} (history : s'.history = s.history ++ [event])
    (unaccepted : event.accepted? = none) (untold : event.told? = none) (emitted : s'.emitted = s.emitted)
    (condemned : s'.condemned = s.condemned) : Report cfg s action s' :=
  .quiet steady [event] history (List.forall_mem_singleton.mpr ⟨unaccepted, untold⟩) emitted condemned

theorem settle_report (sound : Sound cfg s) (free : s.holder = none) {call : Deliveries.Call} {recordAt leaseAt : Time}
    {r : Broker.FinishReadings} :
    Report cfg s (.settle call recordAt leaseAt r) (s.settleFor cfg call recordAt leaseAt r) := by
  have finished : ∀ (d : Deliveries) (entry : InFlightEntry) (kind : Settlement) (reason : Bytes)
      (measurement : Option Int) (status : Status), s.broker.deliveries.Owns call entry →
      ((kind = .expired ∧ measurement = none) ∨ kind = call.kind ∧ measurement = some call.processingTimeMs) →
      let out := Broker.finishHand cfg { s.broker with deliveries := d } entry kind reason measurement r
      Report cfg s (.settle call recordAt leaseAt r) { s.handOff out entry kind r with
        holder := some (.settling call entry kind status out.update) } := by
    intro d entry kind reason measurement status owns asked
    have live : s.live.lookup call.id = some entry := by
      rw [live_of_free (by rw [pending, free]; rfl)]
      exact owns.1
    refine .settled (Steady.same rfl (Broker.finishHand_predictor ..)) call.id entry live (sound.attempt _ _ owns.1) kind
      measurement ?_ r rfl ?_ rfl ?_ rfl
    · rcases asked with lapsed | ⟨same, measured⟩
      · exact .inl lapsed
      · exact .inr ⟨call, recordAt, leaseAt, r, rfl, same, measured⟩
    · rw [Action.subject?, owns.1]
      rfl
    · simp only [handOff, Broker.finishHand_event]
  unfold settleFor
  rcases Deliveries.settleLocked_cases sound.tables cfg call recordAt leaseAt with
    ⟨record, _, same⟩ | ⟨_, d, _, same⟩
  · rw [same]
    exact .noted (.same rfl rfl) rfl rfl rfl rfl rfl
  · rw [same]
    rcases s.broker.deliveries.settleLive_cases call leaseAt with
      ⟨entry, owns, ⟨_, verdict⟩ | ⟨_, verdict⟩⟩ | ⟨_, status, verdict, _⟩
    · rw [verdict]
      exact finished d entry .expired _ none _ owns (Or.inl ⟨rfl, rfl⟩)
    · rw [verdict]
      exact finished d entry call.kind _ _ _ owns (Or.inr ⟨rfl, rfl⟩)
    · rw [verdict]
      exact .noted (.same rfl rfl) rfl rfl rfl rfl rfl

/-- `installFor` is a delivery or nothing. -/
theorem installFor_report {position : Nat} {consumer token : Bytes} {msg : Message} {cancelled : Bool}
    {fault : Deliveries.Fault} {leaseAt pullAt : Time} (found : s.tasks[position]? = some (.staged consumer msg token)) :
    Report cfg s action ((s.installFor cfg consumer msg token cancelled fault leaseAt pullAt).proceed position []) := by
  cases done : s.broker.deliveries.installation cfg msg consumer token cancelled fault leaseAt pullAt with
  | mk deliveries status =>
    simp only [installFor, done]
    split
    · exact .noted (.proceed rfl (fun _ member => by cases member) rfl) rfl rfl rfl rfl (condemned_same found rfl rfl)
    · exact .silent (.proceed rfl (fun _ member => by cases member) rfl) rfl rfl (condemned_same found rfl rfl)

theorem step_report (sound : Sound cfg s) (moved : s.step cfg action = some s') : Report cfg s action s' := by
  cases action with
  | tick now =>
    obtain ⟨_, same⟩ := Option.ite_none_right_eq_some.mp moved
    obtain rfl := Option.some.inj same
    exact .silent (.same rfl rfl) rfl rfl rfl
  | registerProducer =>
    obtain rfl := Option.some.inj moved
    exact .silent (.same rfl rfl) rfl rfl rfl
  | registerConsumer =>
    obtain rfl := Option.some.inj moved
    exact .silent (.same rfl rfl) rfl rfl rfl
  | submit req idAt arrivalAt =>
    obtain ⟨_, same⟩ := Option.ite_none_right_eq_some.mp moved
    obtain rfl := Option.some.inj same
    exact .submitted req idAt arrivalAt rfl rfl rfl rfl rfl
  | route task r =>
    simp only [step] at moved
    split at moved
    next msg found =>
      obtain rfl := Option.some.inj moved
      refine .routed msg (List.mem_of_getElem? found) r ?_ rfl rfl rfl (condemned_same found rfl rfl)
      intro other member _
      rcases List.mem_append.mp member with old | new
      · exact Or.inl (List.mem_of_mem_eraseIdx old)
      · exact Or.inr (List.mem_singleton.mp new)
    · cases moved
  | enqueue task enqueueAt stamp =>
    simp only [step] at moved
    split at moved
    next msg found =>
      obtain ⟨_, moved⟩ := Option.ite_none_right_eq_some.mp moved
      split at moved
      · obtain rfl := Option.some.inj moved
        exact .silent (.proceed rfl (fun _ member => by cases member) rfl) rfl rfl (condemned_same found rfl rfl)
      · obtain rfl := Option.some.inj moved
        refine .accepted (.proceed rfl (fun _ member => by cases member) rfl) msg (List.mem_of_getElem? found) stamp
          rfl ?_ rfl rfl (condemned_same found rfl rfl)
        rw [Action.subject?, found]
    · cases moved
  | pull consumer =>
    obtain ⟨_, same⟩ := Option.ite_none_right_eq_some.mp moved
    obtain rfl := Option.some.inj same
    refine .silent ⟨fun other member arriving => ?_, rfl⟩ rfl rfl ?_
    · rcases List.mem_append.mp member with old | new
      · exact old
      · rw [List.mem_singleton.mp new] at arriving
        cases arriving
    · exact (gather_append _ _ _).trans (add_zero _)
  | sweep task reading =>
    simp only [step] at moved
    split at moved
    next consumer found =>
      obtain ⟨_, moved⟩ := Option.ite_none_right_eq_some.mp moved
      obtain rfl := Option.some.inj moved
      refine .judged (.proceed rfl (List.forall_mem_singleton.mpr rfl) rfl) .sweep (Or.inl rfl) reading _ rfl rfl ?_
      exact condemned_added found rfl rfl (gather_singleton _ _)
    · cases moved
  | backgroundSweep reading =>
    obtain ⟨_, same⟩ := Option.ite_none_right_eq_some.mp moved
    obtain rfl := Option.some.inj same
    refine .judged ⟨fun other member arriving => ?_, rfl⟩ .sweep (Or.inl rfl) reading _ rfl rfl ?_
    · rcases List.mem_append.mp member with old | new
      · exact old
      · rw [List.mem_singleton.mp new] at arriving
        cases arriving
    · exact (gather_append _ _ _).trans (congrArg _ (gather_singleton _ _))
  | bury task dlqAt stamp =>
    simp only [step] at moved
    split at moved
    next errand msg rest since found =>
      obtain ⟨_, moved⟩ := Option.ite_none_right_eq_some.mp moved
      obtain rfl := Option.some.inj moved
      refine .buried (.proceed rfl (List.forall_mem_singleton.mpr rfl) rfl) msg since errand.trigger ?_ stamp rfl ?_ rfl
        rfl ?_
      · cases errand <;> simp [Errand.trigger]
      · rw [Action.subject?, found]
      · exact condemned_dropped found rfl (gather_singleton _ _) rfl
    · cases moved
  | resume task =>
    simp only [step] at moved
    split at moved
    next errand since found =>
      obtain rfl := Option.some.inj moved
      refine .silent (.proceed rfl ?_ rfl) rfl rfl (condemned_same found rfl ?_)
      · cases errand <;> simp [Errand.resume, Task.arriving]
      · cases errand <;> rfl
    · cases moved
  | abandon task =>
    simp only [step] at moved
    split at moved
    next consumer found =>
      obtain rfl := Option.some.inj moved
      exact .silent (.proceed rfl (fun _ member => by cases member) rfl) rfl rfl (condemned_same found rfl rfl)
    next consumer found =>
      obtain rfl := Option.some.inj moved
      exact .silent (.proceed rfl (fun _ member => by cases member) rfl) rfl rfl (condemned_same found rfl rfl)
    · cases moved
  | dequeue task =>
    simp only [step] at moved
    split at moved
    next consumer found =>
      split at moved
      · obtain rfl := Option.some.inj moved
        exact .silent (.proceed rfl (List.forall_mem_singleton.mpr rfl) rfl) rfl rfl (condemned_same found rfl rfl)
      next msg queue taken =>
        obtain rfl := Option.some.inj moved
        exact .silent (.proceed rfl (List.forall_mem_singleton.mpr rfl) rfl) rfl rfl (condemned_same found rfl rfl)
    · cases moved
  | inspect task expiryAt idAt =>
    simp only [step] at moved
    split at moved
    next consumer msg found =>
      obtain ⟨_, moved⟩ := Option.ite_none_right_eq_some.mp moved
      split at moved
      next expired =>
        obtain rfl := Option.some.inj moved
        refine .judged (.proceed rfl (List.forall_mem_singleton.mpr rfl) rfl) .selection (Or.inr rfl) expiryAt [msg]
          rfl rfl ?_
        exact condemned_added found rfl rfl (gather_singleton _ _)
      next live =>
        obtain rfl := Option.some.inj moved
        exact .noted (.proceed rfl (List.forall_mem_singleton.mpr rfl) rfl) rfl rfl rfl rfl
          (condemned_same found rfl rfl)
    · cases moved
  | install task cancelled fault leaseAt pullAt =>
    simp only [step] at moved
    split at moved
    next consumer msg token free found =>
      obtain ⟨_, moved⟩ := Option.ite_none_right_eq_some.mp moved
      obtain rfl := Option.some.inj moved
      exact installFor_report found
    · cases moved
  | settle call recordAt leaseAt r =>
    simp only [step] at moved
    split at moved
    · obtain rfl := Option.some.inj moved
      exact .noted (.same rfl rfl) rfl rfl rfl rfl rfl
    · obtain ⟨⟨free, _⟩, moved⟩ := Option.ite_none_right_eq_some.mp moved
      obtain rfl := Option.some.inj moved
      exact settle_report sound (Option.isNone_iff_eq_none.mp free)
  | close doneAt pruneAt =>
    simp only [step] at moved
    split at moved
    · obtain ⟨_, moved⟩ := Option.ite_none_right_eq_some.mp moved
      obtain rfl := Option.some.inj moved
      exact .noted (.same rfl rfl) rfl rfl rfl rfl rfl
    · cases moved
  | maintain reading =>
    obtain ⟨_, same⟩ := Option.ite_none_right_eq_some.mp moved
    obtain rfl := Option.some.inj same
    exact .silent (.same rfl rfl) rfl rfl rfl
  | reclaim r =>
    simp only [step] at moved
    split at moved
    next budget reading updates held =>
      split at moved
      · cases moved
      next id due =>
        split at moved
        · cases moved
        next entry known =>
          obtain ⟨_, moved⟩ := Option.ite_none_right_eq_some.mp moved
          obtain rfl := Option.some.inj moved
          have live : s.live.lookup id = some entry := by
            rw [live_of_free (by rw [pending, held]; rfl)]
            exact known
          refine .settled (.same rfl (Broker.finishHand_predictor ..)) id entry live (sound.attempt _ _ known) .expired
            none (Or.inl ⟨rfl, rfl⟩) r rfl ?_ rfl ?_ rfl
          · simp only [Action.subject?, held, due, Option.bind_some, known, Option.map_some]
          · simp only [handOff, Broker.finishHand_event]
    · cases moved
  | closeReclaim doneAt pruneAt =>
    simp only [step] at moved
    split at moved
    · obtain ⟨_, moved⟩ := Option.ite_none_right_eq_some.mp moved
      obtain rfl := Option.some.inj moved
      exact .silent (.same rfl rfl) rfl rfl rfl
    · cases moved
  | endMaintain pruneAt =>
    simp only [step] at moved
    split at moved
    · obtain ⟨_, moved⟩ := Option.ite_none_right_eq_some.mp moved
      obtain rfl := Option.some.inj moved
      exact .silent (.same rfl rfl) rfl rfl rfl
    · cases moved
  | age reading readings =>
    obtain ⟨_, same⟩ := Option.ite_none_right_eq_some.mp moved
    obtain rfl := Option.some.inj same
    exact .silent (.same rfl rfl) rfl rfl rfl
  | learn lesson first second =>
    simp only [step] at moved
    split at moved
    · cases moved
    next update found =>
      obtain rfl := Option.some.inj moved
      exact .learned update first second rfl rfl rfl rfl

end Steps

end System

end Harbinger
