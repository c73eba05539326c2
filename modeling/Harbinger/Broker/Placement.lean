import Harbinger.Broker.Context
import Harbinger.Broker.Shadow
import Harbinger.Ml.Tier

/-! Where predictive routing places a message. The predictor of a broker is sound from its
start, restored or cold, through every lookup and every lesson, so a prediction always names a
level, and every routed message can be enqueued. -/

namespace Harbinger
open Ml

/-- `size_policy_label`. -/
def sizePolicyLabel (policy : PredictorKeyPolicy) : Bytes :=
  match policy.sizeSource with
  | .none => []
  | .payload => ascii "|size=payload"
  | .header => ascii "|size=header:" ++ policy.sizeHeader

/-- The context that a snapshot is saved and loaded under. -/
def snapshotContext (routing : PredictiveRoutingConfig) : Bytes :=
  routing.routingPolicyVersion ++ ascii "|key=" ++ routing.key.jobHeader ++
    (if routing.key.scopeByProducer then ascii "|scoped" else ascii "|unscoped") ++ sizePolicyLabel routing.key

/-- The predictor that the constructor of the service makes: restored from the snapshot if there
is one, and cold if it is refused. -/
def startPredictor (platform : Platform) (host : Host) (routing : PredictiveRoutingConfig) (layout : Layout) (now : Time)
    (file : Option Bytes) : Except String (PerKeyPredictor platform) := do
  let p ← PerKeyPredictor.create platform routing.predictor layout
  match file with
  | none => return p
  | some file =>
    let loaded := p.load host now (snapshotContext routing) file
    match loaded.outcome with
    | .ok _ => return loaded.state
    | .error _ => PerKeyPredictor.create platform routing.predictor layout

/-- A predictor made for this routing that is sound at any clock reading. -/
structure Fit {platform : Platform} (routing : PredictiveRoutingConfig) (p : PerKeyPredictor platform) : Prop where
  sound : p.Sound fun _ => True
  config : p.config = routing.predictor
  band : 0 ≤ p.config.hysteresis

section Predictor
variable {platform : Platform} {routing : PredictiveRoutingConfig} {p : PerKeyPredictor platform}

theorem Fit.create {layout : Layout} (fits : layout.Fits routing.predictor)
    (made : PerKeyPredictor.create platform routing.predictor layout = .ok p) : Fit routing p := by
  have sound : p.Sound fun _ => True := .create fits made
  simp only [PerKeyPredictor.create, bind_ok] at made
  obtain ⟨_, valid, made⟩ := made
  obtain ⟨rfl, _⟩ := validated_ok valid
  obtain rfl := Except.ok.inj made
  exact ⟨sound, rfl, PerKeyPredictor.hysteresis_nonneg valid⟩

theorem Fit.load (fit : Fit routing p) (host : Host) (now : Time) (context file : Bytes) :
    Fit routing (p.load host now context file).state := by
  rcases PerKeyPredictor.load_cases host p now context file with ⟨_, _, same⟩ | ⟨contents, _, valid, _, same⟩
  · rw [same]
    exact fit
  · have config := (PerKeyPredictor.applySnapshot_setting host p now contents).1
    rw [same]
    exact ⟨(PerKeyPredictor.applySnapshot_sound fit.sound host valid fun _ _ => trivial).1, config.trans fit.config,
      config ▸ fit.band⟩

theorem Fit.start {host : Host} {layout : Layout} (fits : layout.Fits routing.predictor) {now : Time} {file : Option Bytes}
    (started : startPredictor platform host routing layout now file = .ok p) : Fit routing p := by
  obtain ⟨cold, made, started⟩ := bind_ok.mp started
  cases file with
  | none => exact Except.ok.inj started ▸ .create fits made
  | some file =>
    dsimp only at started
    split at started
    · exact Except.ok.inj started ▸ (Fit.create fits made).load host now _ file
    · exact .create fits started

theorem Fit.same (fit : Fit routing p) {q : PerKeyPredictor platform} (sound : q.Sound fun _ => True)
    (same : q.config = p.config) : Fit routing q :=
  ⟨sound, same.trans fit.config, same ▸ fit.band⟩

theorem Fit.predict (fit : Fit routing p) (now : Time) (key : Bytes) : Fit routing (p.predict now key).2 :=
  fit.same (fit.sound.predict trivial key) (PerKeyPredictor.sameGlobal_predict p now key).config

theorem Fit.observeCensored (lawful : platform.Lawful) (fit : Fit routing p) (now : Time) (key : Bytes) :
    Fit routing (p.observeCensored now key).2 :=
  fit.same (fit.sound.observeCensored lawful trivial key) (PerKeyPredictor.sameGlobal_observeCensored p now key).config

theorem Fit.observe (lawful : platform.Lawful) (fit : Fit routing p) (now : Time) (key parent : Bytes) (duration : ℚ) :
    Fit routing (p.observe now key parent duration).2 := by
  refine fit.same (fit.sound.observe lawful trivial key parent duration) ?_
  rcases PerKeyPredictor.observe_cases p now key parent duration with ⟨_, same⟩ | ⟨_, _, same⟩
  · exact same.config
  · exact same.config.trans (PerKeyPredictor.observeGlobal_setting p duration).1

/-- A lookup gives a correct prediction for the boundaries of one of its readings. -/
theorem Fit.lookup (fit : Fit routing p) (keys : Option PredictorKeys) (r : Broker.PredictReadings) :
    Fit routing (Broker.lookupPrediction routing.predictor.defaultPriority.toNat p keys r).2 ∧
      ∃ bounds, PerKeyPredictor.Correct routing.predictor bounds
        (Broker.lookupPrediction routing.predictor.defaultPriority.toNat p keys r).1 := by
  have correct : ∀ {q : PerKeyPredictor platform}, Fit routing q → ∀ now key,
      ∃ bounds, PerKeyPredictor.Correct routing.predictor bounds (q.predict now key).1 := by
    intro q fit now key
    exact ⟨_, fit.config ▸ PerKeyPredictor.predict_correct fit.sound fit.band trivial key⟩
  unfold Broker.lookupPrediction
  split
  · refine ⟨fit, [], ⟨fun predicted => ?_, fun _ => ⟨rfl, rfl⟩⟩⟩
    cases predicted
  next keys =>
    have own := fit.predict r.keyAt keys.key
    have known := correct fit r.keyAt keys.key
    change Fit routing (Inference.predict p r.keyAt keys.key).2 at own
    change ∃ bounds, PerKeyPredictor.Correct routing.predictor bounds (Inference.predict p r.keyAt keys.key).1 at known
    generalize Inference.predict p r.keyAt keys.key = looked at own known
    obtain ⟨prediction, q⟩ := looked
    dsimp only at own known ⊢
    split
    next parent _ _ =>
      refine ⟨own.predict r.parentAt parent, ?_⟩
      dsimp only
      split
      · exact correct own r.parentAt parent
      · exact known
    · exact ⟨own, known⟩

end Predictor

/-! ### Routing -/

theorem validateRouting_ok {numLevels defaultPriority : UInt8} {config routing : PredictiveRoutingConfig}
    (valid : validateRouting numLevels defaultPriority config = .ok routing) :
    routing.predictor.numLevels = numLevels ∧ routing.predictor.defaultPriority = defaultPriority := by
  simp only [validateRouting, bind_ok] at valid
  obtain ⟨_, _, _, _, _, _, _, _, _, _, _, _, same⟩ := valid
  obtain rfl := Except.ok.inj same
  exact ⟨rfl, rfl⟩

theorem routing_levels {config cfg : HarbingerConfig} (valid : validateConfig config = .ok cfg) {routing : PredictiveRoutingConfig}
    (enabled : cfg.predictiveRouting = some routing) :
    routing.predictor.numLevels = cfg.numLevels ∧ routing.predictor.defaultPriority = cfg.defaultPriority := by
  obtain ⟨_, _, checked⟩ := validateConfig_routing valid enabled
  obtain ⟨_, _, _, _, rfl⟩ := validateConfig_ok valid
  exact validateRouting_ok checked

namespace Broker

theorem notePrediction_inside {numLevels : Nat} {context : RoutingContext} {prediction : DurationPrediction}
    (inside : prediction.status = .predicted → prediction.bucket < numLevels) (unset : context.predictedBucket = none)
    (clean : context.fallbackReason = none) :
    (notePrediction numLevels context prediction).predictedBucket =
        (if prediction.status = .predicted then some prediction.bucket else none) ∧
      (notePrediction numLevels context prediction).fallbackReason ≠ some .invalidPrediction := by
  unfold notePrediction
  split
  next predicted =>
    rw [if_neg (not_le.mpr (inside predicted)), if_pos predicted]
    exact ⟨rfl, by rw [clean]; exact nofun⟩
  all_goals
    next other =>
      rw [other, if_neg (by decide)]
      exact ⟨unset, by simp⟩

/-- What `route_message` makes of the prediction that was looked up. -/
structure Placed (cfg : HarbingerConfig) (routing : PredictiveRoutingConfig) (lookup : DurationPrediction) (routed : Message) :
    Prop where
  native : routed.priority = routed.originalPriority
  level : routed.priority < cfg.numLevels.toNat
  shadow : routing.mode = .shadow → routed.priority = cfg.defaultPriority.toNat
  fallback : lookup.status ≠ .predicted → routed.priority = cfg.defaultPriority.toNat
  predicted : routing.mode = .predictive → lookup.status = .predicted → routed.priority = lookup.bucket
  possible : ¬(lookup.status = .predicted ∧ cfg.numLevels.toNat ≤ lookup.bucket)
  reason : ∀ context ∈ routed.routingContext, context.fallbackReason ≠ some .invalidPrediction

section Routing
variable {platform : Platform} {cfg : HarbingerConfig} {routing : PredictiveRoutingConfig}
  {b : Broker (PerKeyPredictor platform)} {p : PerKeyPredictor platform}

/-- The prediction that routing a message looks up. -/
def lookupFor (cfg : HarbingerConfig) (routing : PredictiveRoutingConfig) (p : PerKeyPredictor platform) (msg : Message)
    (r : PredictReadings) : DurationPrediction × PerKeyPredictor platform :=
  lookupPrediction cfg.defaultPriority.toNat p
    (derivePredictorKeys (PerKeyPredictor platform) msg.headers routing.key msg.payload.length) r

theorem ingressContext_fallback (σ : Type) [Inference σ] (cfg : HarbingerConfig) (msg : Message) :
    (ingressContext σ cfg msg).fallbackReason = none := by
  unfold ingressContext
  split <;> rfl

/-- Predictive routing is the prediction of a lookup, noted in the context of the message. -/
theorem routeMessage_lookup (enabled : cfg.predictiveRouting = some routing) (known : b.predictor = some p) (msg : Message)
    (r : PredictReadings) : ∃ context : RoutingContext, context.predictedBucket = none ∧ context.fallbackReason = none ∧
      ∀ noted, noted = notePrediction cfg.numLevels.toNat context (lookupFor cfg routing p msg r).1 →
      ∀ priority, priority = (if routing.mode = .predictive then noted.predictedBucket.getD cfg.defaultPriority.toNat
        else cfg.defaultPriority.toNat) →
      b.routeMessage cfg msg r = ({ assignDefaults cfg msg with
        priority
        originalPriority := priority
        routingContext := some { noted with ingressPriority := priority } },
        { b with predictor := some (lookupFor cfg routing p msg r).2 }) := by
  unfold routeMessage predictRoute
  rw [known, enabled]
  refine ⟨{ ingressContext (PerKeyPredictor platform) cfg (assignDefaults cfg msg) with
    mode := routing.mode
    routingPolicyVersion := routing.routingPolicyVersion
    predictorKey := (derivePredictorKeys (PerKeyPredictor platform) msg.headers routing.key msg.payload.length).map
      PredictorKeys.key
    predictorParentKey := (derivePredictorKeys (PerKeyPredictor platform) msg.headers routing.key msg.payload.length).bind
      PredictorKeys.parent
    modelVersion := some (Inference.modelVersion p)
    inferenceElapsedMs := some ((r.elapsedNs : ℚ) / 1000000) }, ingressContext_bucket cfg _, ingressContext_fallback _ cfg _, ?_⟩
  rintro _ rfl _ rfl
  rfl

theorem routeMessage_placed (checked : cfg.Checked) (enabled : cfg.predictiveRouting = some routing)
    (levels : routing.predictor.numLevels = cfg.numLevels ∧ routing.predictor.defaultPriority = cfg.defaultPriority)
    (known : b.predictor = some p) (fit : Fit routing p) (msg : Message) (r : PredictReadings) :
    Placed cfg routing (lookupFor cfg routing p msg r).1 (b.routeMessage cfg msg r).1 ∧
      ∃ q, (b.routeMessage cfg msg r).2.predictor = some q ∧ Fit routing q := by
  have looked := fit.lookup (derivePredictorKeys (PerKeyPredictor platform) msg.headers routing.key msg.payload.length) r
  rw [levels.2] at looked
  change Fit routing (lookupFor cfg routing p msg r).2 ∧
    ∃ bounds, PerKeyPredictor.Correct routing.predictor bounds (lookupFor cfg routing p msg r).1 at looked
  obtain ⟨context, unset, clean, routed⟩ := routeMessage_lookup enabled known msg r
  generalize lookupFor cfg routing p msg r = found at looked routed ⊢
  obtain ⟨prediction, q⟩ := found
  obtain ⟨later, bounds, correct⟩ := looked
  have inside : prediction.status = .predicted → prediction.bucket < cfg.numLevels.toNat := by
    intro predicted
    have bound := (correct.predicted predicted).1
    rwa [levels.1] at bound
  obtain ⟨bucket, reason⟩ := notePrediction_inside inside unset clean
  rw [routed _ rfl _ rfl]
  refine ⟨?_, q, rfl, later⟩
  have default := checked.priority
  exact {
    native := rfl
    level := by
      dsimp only
      rw [bucket]
      split
      · split
        next predicted => exact inside predicted
        · exact default
      · exact default
    shadow := fun shadow => if_neg (by rw [shadow]; decide)
    fallback := fun other => by
      dsimp only
      rw [bucket, if_neg other]
      exact ite_self _
    predicted := fun predictive predicted => by
      dsimp only
      rw [bucket, if_pos predictive, if_pos predicted]
      rfl
    possible := fun impossible => absurd (inside impossible.1) (not_lt.mpr impossible.2)
    reason := fun other present => by
      obtain rfl := Option.some.inj present
      exact reason }

theorem learn_fit (lawful : platform.Lawful) (known : ∃ q, b.predictor = some q ∧ Fit routing q) (update : PredictorUpdate)
    (first second : Time) : ∃ q, (b.learn update first second).predictor = some q ∧ Fit routing q := by
  obtain ⟨q, found, fit⟩ := known
  unfold learn
  rw [found]
  dsimp only
  split
  · refine ⟨_, rfl, ?_⟩
    have taught := fit.observeCensored lawful first update.key
    cases update.parent with
    | none => exact taught
    | some parent => exact taught.observeCensored lawful second parent
  · split
    · exact ⟨q, found, fit⟩
    · exact ⟨_, rfl, fit.observe lawful first _ _ _⟩

end Routing

end Broker

section Runs
variable {platform : Platform} {config cfg : HarbingerConfig} {routing : PredictiveRoutingConfig}

theorem fit_rule (lawful : platform.Lawful) (valid : validateConfig config = .ok cfg)
    (enabled : cfg.predictiveRouting = some routing) :
    System.IngressRule cfg (fun _ => True) (fun _ => True) (fun _ => True)
      fun predictor : Option (PerKeyPredictor platform) => ∃ q, predictor = some q ∧ Fit routing q where
  submit := fun _ _ _ _ _ => trivial
  route := fun _ msg r _ ⟨_, known, fit⟩ =>
    ⟨trivial, (Broker.routeMessage_placed (.of_validateConfig valid) enabled (routing_levels valid enabled) known fit msg r).2⟩
  freeze := fun _ _ => trivial
  learn := fun _ update first second known => Broker.learn_fit lawful known update first second

theorem enqueue_routed {σ : Type} {s : System σ} (sound : Sound cfg s) {msg : Message} (routed : .routed msg ∈ s.tasks) :
    msg.priority = msg.originalPriority ∧ msg.priority < cfg.numLevels.toNat ∧
      ∀ reading, s.broker.queue.enqueue s.broker.levelShareCost msg reading ≠ none := by
  obtain ⟨_, _, native, admitted⟩ := sound.ready _ routed
  have level : msg.priority < cfg.numLevels.toNat := native ▸ admitted.level
  refine ⟨native, level, fun reading refused => ?_⟩
  rw [MultiLevelQueue.enqueue, MultiLevelQueue.placeMessage, if_neg (by rw [sound.levels]; exact not_le.mpr level)] at refused
  cases refused

/-- In every state of a broker with predictive routing, restored or cold: the boundaries are read
in range and the tier of a prediction is right up to hysteresis, for any boundaries the
predictor may have been using; and every message is routed to a level that exists. -/
theorem routing_in_range (lawful : platform.Lawful) (valid : validateConfig config = .ok cfg)
    (enabled : cfg.predictiveRouting = some routing) {layout : Layout} (fits : layout.Fits routing.predictor) {host : Host}
    {restoredAt : Time} {file : Option Bytes} {p : PerKeyPredictor platform}
    (started : startPredictor platform host routing layout restoredAt file = .ok p) {instanceToken : Bytes} {counter : Nat}
    {b : Broker (PerKeyPredictor platform)} (made : Broker.create cfg (some p) instanceToken counter = .ok b) {start : Time}
    {actions : List Action} {s : System (PerKeyPredictor platform)}
    (ran : Transition.run (System.step cfg) actions (System.initial b start) = some s) :
    ∃ q, s.broker.predictor = some q ∧ q.config = routing.predictor ∧ q.config.numLevels = cfg.numLevels ∧
      q.config.defaultPriority = cfg.defaultPriority ∧
      (∀ bounds ∈ q.snapshot, bounds.Shaped cfg.numLevels.toNat) ∧
      (∀ key entry, q.find? key = some entry → ∀ bounds : BoundarySnapshot, bounds.Shaped cfg.numLevels.toNat →
        (∀ index ∈ PerKeyPredictor.boundaryReads bounds.boundariesMs entry.tier, index < bounds.boundariesMs.length) ∧
        ∀ now, PerKeyPredictor.Correct q.config bounds.boundariesMs
          (q.evaluate { entry with lastActivity := now } bounds).1) ∧
      (∀ now key, PerKeyPredictor.Correct q.config ((q.snapshot.map BoundarySnapshot.boundariesMs).getD [])
        (q.predict now key).1) ∧
      (∀ msg r, Broker.Placed cfg routing (Broker.lookupFor cfg routing q msg r).1 (s.broker.routeMessage cfg msg r).1) ∧
      ∀ msg, .routed msg ∈ s.tasks → msg.priority = msg.originalPriority ∧ msg.priority < cfg.numLevels.toNat ∧
        ∀ reading, s.broker.queue.enqueue s.broker.levelShareCost msg reading ≠ none := by
  have checked := HarbingerConfig.Checked.of_validateConfig valid
  have levels := routing_levels valid enabled
  have reached := Reached.initial made start
  have began : ∃ q, b.predictor = some q ∧ Fit routing q := by
    obtain ⟨queue, _, same⟩ := bind_ok.mp made
    obtain rfl := Except.ok.inj same
    exact ⟨p, rfl, .start fits started⟩
  obtain ⟨q, known, fit⟩ := (System.Ingress.run checked (fit_rule lawful valid enabled) reached
    (.initial began start) ran).predictor
  have numLevels : q.config.numLevels = cfg.numLevels := by rw [fit.config, levels.1]
  refine ⟨q, known, fit.config, numLevels, by rw [fit.config, levels.2], ?_, ?_, ?_, ?_, ?_⟩
  · rw [← numLevels]
    exact fit.sound.boundaries
  · intro key entry found bounds shaped
    rw [← numLevels] at shaped
    have admissible := ((fit.sound.shards _).keys key entry found).2.2
    refine ⟨PerKeyPredictor.boundaryReads_inside admissible shaped, fun now => ?_⟩
    exact PerKeyPredictor.evaluate_correct fit.sound fit.band { admissible with } shaped
  · exact fun now key => PerKeyPredictor.predict_correct fit.sound fit.band trivial key
  · exact fun msg r => (Broker.routeMessage_placed checked enabled levels known fit msg r).1
  · have sound := (Transition.run_invariant (Reached cfg) (fun _ _ _ known moved => known.step checked moved) reached ran).sound
    exact fun msg routed => enqueue_routed sound routed

/-- The sample broker in shadow mode after it has learned one duration. -/
theorem routing_in_range_sample : ∃ (s : System (PerKeyPredictor .plain)) (q : PerKeyPredictor .plain),
    Transition.run (System.step (sampleShadow none)) sampleLesson
      (System.initial (sampleShadowBroker (some samplePredictor) none) 0) = some s ∧
    s.broker.predictor = some q ∧ ∀ now key, PerKeyPredictor.Correct q.config
      ((q.snapshot.map BoundarySnapshot.boundariesMs).getD []) (q.predict now key).1 := by
  have known : (Transition.run (System.step (sampleShadow none)) sampleLesson
      (System.initial (sampleShadowBroker (some samplePredictor) none) 0)).isSome = true := by decide +kernel
  obtain ⟨s, ran⟩ := Option.isSome_iff_exists.mp known
  have started : startPredictor .plain Host.plain { predictor := samplePredictorConfig } sampleLayout 0 none =
      .ok samplePredictor := by
    have checked : validated samplePredictorConfig = .ok samplePredictorConfig := by decide +kernel
    rw [startPredictor, PerKeyPredictor.create, checked]
    rfl
  obtain ⟨q, found, _, _, _, _, _, correct, _⟩ := routing_in_range PerKeyPredictor.plain_lawful (sample_accepted none (.inl rfl))
    rfl ⟨rfl, rfl, rfl⟩ started rfl ran
  exact ⟨s, q, ran, found, correct⟩

end Runs

end Harbinger
