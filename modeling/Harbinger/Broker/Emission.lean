import Harbinger.Analysis.Record
import Harbinger.Broker.Accounting
import Harbinger.Broker.Learning

/-! The events of a run whose inputs fit the types of the source and whose steady clock does
not go back: each has a context as routing makes it, numbers in range, and one of the
combinations of trigger, operation and outcome that the reader knows. -/

namespace Harbinger
open Container Ledger Ml Analysis

def Int64 (value : Int) : Prop := -2 ^ 63 ≤ value ∧ value < 2 ^ 63

instance (value : Int) : Decidable (Int64 value) := inferInstanceAs (Decidable (_ ∧ _))

/-- The steady clock has not gone back behind the arrival. -/
def Ml.Stamp.Follows (stamp : Stamp) (msg : Message) : Prop :=
  -2 ^ 63 ≤ msg.arrivalTime ∧ msg.arrivalTime ≤ stamp.now ∧ stamp.now < 2 ^ 63

instance (stamp : Stamp) (msg : Message) : Decidable (stamp.Follows msg) :=
  inferInstanceAs (Decidable (_ ∧ _ ∧ _))

def Action.request? : Action → Option SubmitRequest
  | .submit req _ _ => some req
  | _ => none

def Action.call? : Action → Option Deliveries.Call
  | .settle call _ _ _ => some call
  | _ => none

/-- The inputs of a step fit the types of the source: a payload has a 64-bit size, only Ack and
Nack settle, with a 64-bit duration, and the clocks are read in their order. -/
def System.Genuine {σ : Type} (s : System σ) (action : Action) : Prop :=
  (∀ req ∈ action.request?, req.payload.length < 2 ^ 64) ∧
  (∀ call ∈ action.call?, call.kind ≠ .expired ∧ Int64 call.processingTimeMs) ∧
  ∀ stamp ∈ action.stamp?, Int64 stamp.collectedAt ∧ ∀ msg ∈ action.subject? s, stamp.Follows msg

instance {σ : Type} (s : System σ) (action : Action) : Decidable (s.Genuine action) :=
  inferInstanceAs (Decidable (_ ∧ _ ∧ _))

/-- No control characters in the versions that the configuration declares. -/
def HarbingerConfig.Unescaped (cfg : HarbingerConfig) : Prop :=
  (∀ ingress ∈ cfg.ingressFeatures, Plain ingress.schema.version ∧ Plain ingress.routingPolicyVersion) ∧
    ∀ routing ∈ cfg.predictiveRouting, Plain routing.routingPolicyVersion

instance (cfg : HarbingerConfig) : Decidable cfg.Unescaped := inferInstanceAs (Decidable (_ ∧ _))

section Texts

theorem Plain.append {first second : Bytes} (plain : Plain first) (more : Plain second) : Plain (first ++ second) :=
  fun c member => (List.mem_append.mp member).elim (plain c) (more c)

theorem plain_decimal (n : Nat) : Plain (decimal n) :=
  fun _ member => UInt8.le_trans (by decide) (digit_of_mem_decimal member).1

theorem plain_decimalInt (n : Int) : Plain (decimalInt n) := by
  cases n with
  | ofNat n => exact plain_decimal n
  | negSucc n => exact Plain.append (by decide +kernel) (plain_decimal _)

theorem plain_generateId {σ : Type} (b : Broker σ) (now : Time) : Plain (b.generateId now) :=
  Plain.append (plain_decimalInt now) (Plain.append (by decide +kernel : Plain [45]) (plain_decimal _))

theorem plain_modelVersion {platform : Platform} (p : PerKeyPredictor platform) : Plain p.modelVersion :=
  Plain.append (by decide +kernel) (plain_decimal _)

end Texts

theorem PerKeyPredictor.predict_estimate {platform : Platform} (p : PerKeyPredictor platform) (now : Time)
    (key : Bytes) : ∀ estimate ∈ (p.predict now key).1.estimateMs, 0 ≤ estimate := by
  have evaluated : ∀ entry snapshot, ∀ estimate ∈ (p.evaluate entry snapshot).1.estimateMs, 0 ≤ estimate := by
    intro entry snapshot estimate given
    simp only [PerKeyPredictor.evaluate] at given
    split at given
    · cases given
    · split at given
      · cases given
      · split at given
        · cases given
        · split at given
          · cases given
          next nonnegative =>
            obtain rfl := Option.some.inj given
            exact not_lt.mp nonnegative
  intro estimate given
  unfold PerKeyPredictor.predict at given
  split at given
  · cases given
  · split at given
    · cases given
    · dsimp only at given
      split at given
      · cases given
      · split at given
        · cases given
        · exact evaluated _ _ estimate given

namespace Broker
variable {platform : Platform}

theorem lookupPrediction_estimate (priority : Nat) (p : PerKeyPredictor platform) (keys : Option PredictorKeys)
    (r : PredictReadings) : ∀ estimate ∈ (lookupPrediction priority p keys r).1.estimateMs, 0 ≤ estimate := by
  intro estimate given
  cases keys with
  | none => cases given
  | some keys =>
    simp only [lookupPrediction] at given
    split at given
    · dsimp only at given
      split at given
      · exact PerKeyPredictor.predict_estimate _ _ _ estimate given
      · exact PerKeyPredictor.predict_estimate _ _ _ estimate given
    · exact PerKeyPredictor.predict_estimate _ _ _ estimate given

theorem notePrediction_bounds (numLevels : Nat) {context : RoutingContext} (prediction : DurationPrediction)
    (unplaced : context.predictedBucket = none) (blank : context.predictedProcessingTimeMs = none) :
    (∀ bucket ∈ (notePrediction numLevels context prediction).predictedBucket, bucket < numLevels) ∧
      ∀ estimate ∈ (notePrediction numLevels context prediction).predictedProcessingTimeMs,
        estimate ∈ prediction.estimateMs := by
  unfold notePrediction
  split
  · split
    · simp [unplaced, blank]
    next inside =>
      refine ⟨fun bucket given => ?_, fun estimate given => given⟩
      obtain rfl := Option.some.inj given
      exact not_le.mp inside
  all_goals simp [unplaced, blank]

/-- A message as `Proxy::accept` makes it. -/
structure Fresh (msg : Message) : Prop where
  named : Plain msg.id
  untried : msg.retryCount = 0
  sized : msg.payload.length < 2 ^ 64

/-- A message whose context the reader accepts. -/
structure Presented (decimals : Decimals) (schemas : Bytes → Option FeatureSchema) (msg : Message) : Prop where
  named : Plain msg.id
  untried : msg.retryCount = 0
  context : ∃ context, msg.routingContext = some context ∧ Presentable decimals schemas context

theorem accept_fresh {σ : Type} (b : Broker σ) (req : SubmitRequest) (idAt arrivalAt : Time)
    (sized : req.payload.length < 2 ^ 64) : Fresh (b.accept req idAt arrivalAt) :=
  ⟨plain_generateId b idAt, rfl, sized⟩

section Routing
variable {cfg : HarbingerConfig} {ingress : IngressFeatureConfig} {schemas : Bytes → Option FeatureSchema}

theorem presentable_note {decimals : Decimals} {context : RoutingContext}
    (presentable : Presentable decimals schemas context) (unplaced : context.predictedBucket = none)
    (blank : context.predictedProcessingTimeMs = none) {prediction : DurationPrediction}
    (nonnegative : ∀ estimate ∈ prediction.estimateMs, 0 ≤ estimate) {numLevels : Nat} (bound : numLevels ≤ 255)
    {priority : Nat} (inside : priority ≤ 254) :
    Presentable decimals schemas { notePrediction numLevels context prediction with ingressPriority := priority } := by
  obtain ⟨buckets, estimates⟩ := notePrediction_bounds numLevels prediction unplaced blank
  obtain ⟨estimate, bucket, fallback, noted⟩ := notePrediction_eq numLevels context prediction
  rw [noted] at buckets estimates ⊢
  exact {
    schemaVersion := presentable.schemaVersion
    policyVersion := presentable.policyVersion
    modelVersion := presentable.modelVersion
    priority := inside
    bucket := fun bucket given => by
      have below := buckets bucket given
      omega
    estimate := fun estimate given => nonnegative estimate (estimates estimate given)
    elapsed := presentable.elapsed
    features := presentable.features }

theorem chosen_lt {bucket : Option Nat} {numLevels default : Nat} (buckets : ∀ chosen ∈ bucket, chosen < numLevels)
    (inside : default < numLevels) : bucket.getD default < numLevels := by
  cases bucket with
  | none => exact inside
  | some chosen => exact buckets chosen rfl

theorem routeMessage_presented (levels : cfg.Checked) (featured : cfg.ingressFeatures = some ingress)
    (checked : ingress.schema.Checked) (registered : schemas ingress.schema.version = some ingress.schema)
    (unescaped : cfg.Unescaped) (b : Broker (PerKeyPredictor platform)) {msg : Message} (fresh : Fresh msg)
    (r : PredictReadings) : Presented platform.decimals schemas (b.routeMessage cfg msg r).1 := by
  obtain ⟨plainSchema, plainPolicy⟩ := unescaped.1 ingress featured
  have bound : cfg.numLevels.toNat ≤ 255 := Nat.le_of_lt_succ cfg.numLevels.toNat_lt
  have default := levels.priority
  have base : ingressContext (PerKeyPredictor platform) cfg (assignDefaults cfg msg) = {
      featureSchemaVersion := ingress.schema.version
      routingPolicyVersion := ingress.routingPolicyVersion
      features := (extract platform.decimals ingress.schema msg.payload.length msg.headers).features
      featureValidity := (extract platform.decimals ingress.schema msg.payload.length msg.headers).validity } := by
    rw [ingressContext, featured]
    rfl
  unfold routeMessage
  split
  next p routing found policy =>
    refine ⟨fresh.named, fresh.untried, _, rfl, ?_⟩
    simp only [predictRoute, base]
    have plainRouting := unescaped.2 routing policy
    have estimates := lookupPrediction_estimate cfg.defaultPriority.toNat p
      (derivePredictorKeys (PerKeyPredictor platform) (assignDefaults cfg msg).headers routing.key
        (assignDefaults cfg msg).payload.length) r
    refine presentable_note ⟨plainSchema, plainRouting, ?_, Nat.zero_le _, by simp, by simp, ?_, ingress.schema,
      msg.payload.length, msg.headers, registered, rfl, checked, fresh.sized, rfl, rfl⟩ rfl rfl estimates bound ?_
    · intro version given
      obtain rfl := Option.some.inj given
      exact plain_modelVersion p
    · intro elapsed given
      obtain rfl := Option.some.inj given
      positivity
    · split
      · refine Nat.le_of_lt_succ ((chosen_lt ?_ default).trans_le bound)
        exact (notePrediction_bounds cfg.numLevels.toNat _ rfl rfl).1
      · change cfg.defaultPriority.toNat ≤ 254
        omega
  · rw [if_pos (by rw [featured]; rfl)]
    refine ⟨fresh.named, fresh.untried, _, rfl, ?_⟩
    rw [base]
    refine ⟨plainSchema, plainPolicy, by simp, ?_, by simp, by simp, by simp, ingress.schema, msg.payload.length, msg.headers,
      registered, rfl, checked, fresh.sized, rfl, rfl⟩
    change cfg.defaultPriority.toNat ≤ 254
    omega

end Routing

section Events
variable {cfg : HarbingerConfig} {decimals : Decimals} {schemas : Bytes → Option FeatureSchema} {msg : Message}
  {entry : InFlightEntry} {kind : Settlement} {measurement : Option Int} {event : FeedbackEvent}

theorem elapsed_range {stamp : Stamp} (follows : stamp.Follows msg) :
    0 ≤ Int.tdiv (stamp.now - msg.arrivalTime) 1000000 ∧ Int.tdiv (stamp.now - msg.arrivalTime) 1000000 < 2 ^ 63 := by
  obtain ⟨low, order, high⟩ := follows
  have nonnegative : 0 ≤ stamp.now - msg.arrivalTime := Int.sub_nonneg.mpr order
  have bound : stamp.now - msg.arrivalTime < 2 ^ 64 := by linarith
  have milliseconds : ∀ gap : Int, 0 ≤ gap → gap < 2 ^ 64 → 0 ≤ gap / 1000000 ∧ gap / 1000000 < 2 ^ 63 := by omega
  rw [Int.tdiv_eq_ediv_of_nonneg nonnegative]
  exact milliseconds _ nonnegative bound

/-- What the reader needs to know of a message when an event of it is captured. -/
structure Sourced (decimals : Decimals) (schemas : Bytes → Option FeatureSchema) (msg : Message) : Prop where
  named : Plain msg.id
  retries : msg.retryCount < 2 ^ 32
  context : ∃ context, msg.routingContext = some context ∧ Presentable decimals schemas context

theorem ingress_acceptable (presented : Presented decimals schemas msg) {stamp : Stamp}
    (timed : Int64 stamp.collectedAt) (follows : stamp.Follows msg)
    (captured : captureEvent cfg msg .submit stamp = some event) : Acceptable decimals schemas event := by
  obtain ⟨_, _, rfl⟩ := captureEvent_spec captured
  refine ⟨⟨by simp, ?_, timed, elapsed_range follows, by simp⟩, .ingress rfl rfl rfl rfl rfl rfl presented.untried,
    presented.named, presented.context⟩
  change msg.retryCount < 2 ^ 32
  rw [presented.untried]
  decide

theorem expiry_acceptable (sourced : Sourced decimals schemas msg) {stamp : Stamp} (timed : Int64 stamp.collectedAt)
    (follows : stamp.Follows msg) {trigger : FeedbackTrigger} (queued : trigger = .ttlSweep ∨ trigger = .pullExpiry)
    (captured : expiryEvent cfg msg trigger stamp = some event) : Acceptable decimals schemas event := by
  obtain ⟨plain, taken, rfl⟩ := Option.map_eq_some_iff.mp captured
  obtain ⟨_, _, rfl⟩ := captureEvent_spec taken
  exact ⟨⟨by simp [deadLettered], sourced.retries, timed, elapsed_range follows, by simp [deadLettered]⟩,
    .queued queued.symm rfl rfl rfl rfl rfl, sourced.named, sourced.context⟩

theorem finishEvent_numbers {r : FinishReadings} (captured : finishEvent cfg entry kind measurement r = some event) :
    event.collectedAt = r.stamp.collectedAt ∧
      event.elapsedSinceArrivalMs = Int.tdiv (r.stamp.now - entry.message.arrivalTime) 1000000 ∧
      (event.retryCount = entry.message.retryCount ∨ event.retryCount < 2 ^ 32) := by
  unfold finishEvent at captured
  generalize System.fate entry.message kind r.expiryAt = fate at captured
  obtain ⟨made, built, rfl⟩ := Option.map_eq_some_iff.mp captured
  obtain ⟨plain, taken, rfl⟩ := Option.map_eq_some_iff.mp built
  obtain ⟨_, _, rfl⟩ := captureEvent_spec taken
  have bound : (failOnce entry.message).retryCount < 2 ^ 32 := Nat.mod_lt _ (by decide)
  cases fate with
  | kept => exact ⟨rfl, rfl, Or.inl rfl⟩
  | acknowledged => exact ⟨rfl, rfl, Or.inl rfl⟩
  | retried => exact ⟨rfl, rfl, Or.inr bound⟩
  | deadLettered reason =>
    cases reason with
    | ttlExpired => exact ⟨rfl, rfl, Or.inl rfl⟩
    | maxRetriesExceeded => exact ⟨rfl, rfl, Or.inr bound⟩
    | processingError => exact ⟨rfl, rfl, Or.inr bound⟩

theorem finish_acceptable (sourced : Sourced decimals schemas entry.message)
    (numbered : 0 < entry.attemptId ∧ entry.attemptId < 2 ^ 64)
    (asked : (kind = .expired ∧ measurement = none) ∨
      ∃ duration, kind ≠ .expired ∧ measurement = some duration ∧ Int64 duration)
    {r : FinishReadings} (timed : Int64 r.stamp.collectedAt) (follows : r.stamp.Follows entry.message)
    (captured : finishEvent cfg entry kind measurement r = some event) : Acceptable decimals schemas event := by
  have settles := finishEvent_settles captured
  obtain ⟨collected, elapsed, retries⟩ := finishEvent_numbers captured
  refine ⟨⟨?_, ?_, ?_, ?_, ?_⟩, ?_, ?_, ?_⟩
  · intro attempt given
    rw [settles.attemptId] at given
    obtain rfl := Option.some.inj given
    exact numbered
  · rcases retries with same | bound
    · rw [same]
      exact sourced.retries
    · exact bound
  · rw [collected]
    exact timed
  · rw [elapsed]
    exact elapsed_range follows
  · intro duration given
    rw [settles.processingTimeMs] at given
    rcases asked with ⟨_, rfl⟩ | ⟨sample, _, rfl, range⟩
    · cases given
    · obtain rfl := Option.some.inj given
      exact range
  · rcases asked with ⟨rfl, rfl⟩ | ⟨duration, called, rfl, _⟩
    · refine .lapsed settles.trigger _ settles.attemptId settles.operation settles.processingTimeMs ?_
      rw [settles.outcome, settles.dlqReason]
      rcases fate_cases entry.message .expired r.expiryAt with ⟨_, fate⟩ | ⟨_, success, _⟩ | ⟨_, _, fate | fate⟩
      · exact Or.inr ⟨_, by rw [fate]; rfl, by rw [fate]; rfl⟩
      · cases success
      · exact Or.inr ⟨_, by rw [fate]; rfl, by rw [fate]; rfl⟩
      · exact Or.inl ⟨by rw [fate]; rfl, by rw [fate]; rfl⟩
    · have operation : ∃ operation, kind.operation? = some operation ∧ (kind = .ack → operation = .ack) ∧
          (kind ≠ .ack → operation = .nack) := by
        cases kind with
        | ack => exact ⟨.ack, rfl, fun _ => rfl, fun other => absurd rfl other⟩
        | nack => exact ⟨.nack, rfl, nofun, fun _ => rfl⟩
        | expired => exact absurd rfl called
      obtain ⟨operation, named, acked, nacked⟩ := operation
      refine .settled (settles.trigger.trans (if_neg called)) _ settles.attemptId operation
        (settles.operation.trans named) duration settles.processingTimeMs ?_
      rw [settles.outcome, settles.dlqReason]
      rcases fate_cases entry.message kind r.expiryAt with ⟨_, fate⟩ | ⟨_, success, fate⟩ | ⟨_, failure, fate | fate⟩
      · exact Or.inr (Or.inr ⟨_, by rw [fate]; rfl, by rw [fate]; rfl⟩)
      · exact Or.inl ⟨by rw [fate]; rfl, by rw [fate]; rfl, acked success⟩
      · exact Or.inr (Or.inr ⟨_, by rw [fate]; rfl, by rw [fate]; rfl⟩)
      · exact Or.inr (Or.inl ⟨by rw [fate]; rfl, by rw [fate]; rfl, nacked failure⟩)
  · rw [settles.messageId]
    exact sourced.named
  · rw [settles.routing]
    exact sourced.context

end Events

end Broker

namespace System
variable {platform : Platform} {cfg : HarbingerConfig} {decimals : Decimals} {schemas : Bytes → Option FeatureSchema}
  {s s' : System (PerKeyPredictor platform)} {action : Action}

theorem sourced_of_census (lawful : Lawful s.ledger)
    (entered : ∀ msg ∈ accepted s.history, Broker.Presented decimals schemas msg) {msg : Message}
    (member : msg.frozen ∈ s.ledger.census) : Broker.Sourced decimals schemas msg := by
  obtain ⟨source, known, same⟩ := lawful.conserved.origin member
  have presented := entered source known
  have context : source.routingContext = msg.routingContext :=
    show source.content.routingContext = msg.content.routingContext from congrArg Message.routingContext same
  refine ⟨?_, ?_, context ▸ presented.context⟩
  · rw [show msg.id = source.id from (Message.id_eq_of_content same).symm]
    exact presented.named
  · have spent := (census_spent lawful.counted member).1
    exact spent.trans_lt (lawful.conserved.maxRetries_lt member)

theorem attempt_range (lawful : Lawful s.ledger) {id : Bytes} {entry : InFlightEntry}
    (live : s.live.lookup id = some entry) : 0 < entry.message.deliveryCount ∧ entry.message.deliveryCount < 2 ^ 64 := by
  have width : entry.message.frozen.maxRetries < 2 ^ 32 := lawful.conserved.maxRetries_lt (live_census live)
  obtain ⟨counted, bound⟩ := live_active lawful live
  change 0 < entry.message.frozen.deliveryCount ∧ entry.message.frozen.deliveryCount < 2 ^ 64
  omega

/-- A genuine step emits only events that the reader accepts. -/
theorem emitted_step (lawful : Lawful s.ledger)
    (ingress : Ingress Broker.Fresh (Broker.Presented decimals schemas) (fun _ => True) s)
    (genuine : s.Genuine action) (report : Report cfg s action s')
    (old : ∀ event ∈ s.emitted, Acceptable decimals schemas event) :
    ∀ event ∈ s'.emitted, Acceptable decimals schemas event := by
  obtain ⟨_, called, stamps⟩ := genuine
  cases report with
  | quiet steady events history neutral emitted condemned => rwa [emitted]
  | submitted req idAt arrivalAt asked tasks predictor history emitted => rwa [emitted]
  | routed msg found r tasks predictor history emitted condemned => rwa [emitted]
  | judged steady occasion queued reading hand history emitted condemned => rwa [emitted]
  | learned update first second tasks predictor history emitted => rwa [emitted]
  | accepted steady msg found stamp stamped subject history emitted condemned =>
    obtain ⟨timed, follows⟩ := stamps stamp stamped
    exact forall_emitted emitted old fun event taken =>
      Broker.ingress_acceptable (ingress.routing msg found) timed (follows msg subject) taken
  | buried steady msg since trigger queued stamp stamped subject history emitted condemned =>
    obtain ⟨timed, follows⟩ := stamps stamp stamped
    have held : (msg.frozen, since) ∈ s.condemned := condemned ▸ Multiset.mem_cons_self _ _
    have member : msg.frozen ∈ s.ledger.census := condemned_census held
    exact forall_emitted emitted old fun event taken =>
      Broker.expiry_acceptable (sourced_of_census lawful ingress.entered member) timed (follows msg subject) queued taken
  | settled steady id entry live numbered kind measurement asked r stamped subject history emitted condemned =>
    obtain ⟨timed, follows⟩ := stamps r.stamp stamped
    have range := attempt_range lawful live
    rw [← numbered] at range
    refine forall_emitted emitted old fun event taken =>
      Broker.finish_acceptable (sourced_of_census lawful ingress.entered (live_census live)) range ?_ timed
        (follows _ subject) taken
    rcases asked with lapsed | ⟨call, _, _, _, rfl, rfl, measured⟩
    · exact Or.inl lapsed
    · exact Or.inr ⟨_, (called call rfl).1, measured, (called call rfl).2⟩

/-- All events of a genuine run of a broker whose versions have no control characters. -/
theorem emitted_acceptable {config : HarbingerConfig} (valid : validateConfig config = .ok cfg)
    {ingress : IngressFeatureConfig} (featured : cfg.ingressFeatures = some ingress)
    (schema : validateSchema ingress.schema = .ok ())
    (registered : schemas ingress.schema.version = some ingress.schema) (unescaped : cfg.Unescaped)
    {predictor : Option (PerKeyPredictor platform)} {instanceToken : Bytes} {counter : Nat}
    {b : Broker (PerKeyPredictor platform)} (made : Broker.create cfg predictor instanceToken counter = .ok b)
    {now : Time} {actions : List Action}
    (genuine : Transition.Along (System.step cfg) Genuine actions (System.initial b now))
    (ran : Transition.run (System.step cfg) actions (System.initial b now) = some s) :
    ∀ event ∈ s.emitted, Acceptable platform.decimals schemas event := by
  have levels : cfg.Checked := .of_validateConfig valid
  have checked : ingress.schema.Checked := .of_validateSchema schema
  have rule : IngressRule cfg (fun req => req.payload.length < 2 ^ 64) Broker.Fresh
      (Broker.Presented platform.decimals schemas) (fun _ : Option (PerKeyPredictor platform) => True) := {
    submit := Broker.accept_fresh
    route := fun b msg r fresh _ =>
      ⟨Broker.routeMessage_presented levels featured checked registered unescaped b fresh r, trivial⟩
    freeze := fun msg presented => ⟨presented.named, presented.untried, presented.context⟩
    learn := fun _ _ _ _ _ => trivial }
  refine (Transition.run_along (fun next => Reached cfg next ∧
    Ingress Broker.Fresh (Broker.Presented platform.decimals schemas) (fun _ => True) next ∧
    ∀ event ∈ next.emitted, Acceptable platform.decimals schemas event) ?_
    ⟨Reached.initial made now, .initial trivial now, fun _ member => (List.not_mem_nil member).elim⟩ genuine ran).2.2
  intro middle action next meets ⟨known, inner, old⟩ moved
  have report := step_report known.sound moved
  refine ⟨known.step levels moved, inner.step rule ?_ report, emitted_step known.lawful inner meets report old⟩
  rintro req idAt arrivalAt rfl
  exact meets.1 req rfl

end System

end Harbinger
