import Harbinger.Broker.Fencing
import Harbinger.Broker.Erasure

/-! Shadow mode against static routing. Both brokers are compared through their erasures: the
run of the shadow broker without its learning steps is a run of the static one that delivers
and buries the same messages, as long as no prediction enters a charge. -/

namespace Harbinger
open Ledger Transition

/-- Learning happens outside the queue and the delivery tables. -/
def Action.shown : Action → Bool
  | .learn .. => false
  | _ => true

/-- The deliveries in order, without what was recorded of their routing. -/
def Event.delivery? : Event → Option (Bytes × Bytes × Message)
  | .delivered owner token msg => some (owner, token, msg.bare)
  | _ => none

def System.deliveries {σ : Type} (s : System σ) : List (Bytes × Bytes × Message) :=
  s.history.filterMap Event.delivery?

def System.deadLetters {σ : Type} (s : System σ) : List DLQEntry := s.broker.dlq.map DLQEntry.bare

/-- The configuration with predictive routing absent. -/
def HarbingerConfig.static (cfg : HarbingerConfig) : HarbingerConfig := { cfg with predictiveRouting := none }

theorem validateConfig_static {config cfg : HarbingerConfig} (valid : validateConfig config = .ok cfg) :
    validateConfig config.static = .ok cfg.static := by
  simp only [validateConfig, bind_ok] at valid ⊢
  obtain ⟨routing, _, _, feedback, _, features, _, delivery, _, weights, _, aging, same⟩ := valid
  obtain rfl := Except.ok.inj same
  exact ⟨none, rfl, (), feedback, (), features, (), delivery, (), weights, (), aging, rfl⟩

theorem validateRouting_mode {numLevels defaultPriority : UInt8} {given routing : Ml.PredictiveRoutingConfig}
    (valid : validateRouting numLevels defaultPriority given = .ok routing) : routing.mode = given.mode := by
  simp only [validateRouting, bind_ok] at valid
  obtain ⟨_, _, _, _, _, _, _, _, _, _, _, _, same⟩ := valid
  rw [← Except.ok.inj same]

theorem validateConfig_mode {config cfg : HarbingerConfig} (valid : validateConfig config = .ok cfg)
    {routing : Ml.PredictiveRoutingConfig} (routed : cfg.predictiveRouting = some routing) :
    ∃ given, config.predictiveRouting = some given ∧ routing.mode = given.mode := by
  obtain ⟨given, source, checked⟩ := validateConfig_routing valid routed
  exact ⟨given, source, validateRouting_mode checked⟩

namespace System
variable {σ : Type} {s t : System σ}

theorem deliveries_bare : s.bare.deliveries = s.deliveries := by
  rw [deliveries, bare, veil_history, List.filterMap_map, deliveries]
  congr 1
  funext event
  cases event <;> rfl

theorem deadLetters_bare : s.bare.deadLetters = s.deadLetters := by
  rw [deadLetters, bare, veil_broker, Broker.veil_dlq, List.map_map]
  rfl

theorem unpredicted {cfg : HarbingerConfig} (reached : Reached cfg s) (static : cfg.predictiveRouting = none)
    {place : Place} {msg : Message} (member : (place, msg) ∈ s.whereabouts) : msg.prediction = none := by
  obtain ⟨source, known, same⟩ := reached.lawful.conserved.origin (mem_census member)
  have context : source.routingContext = msg.routingContext :=
    show source.content.routingContext = msg.frozen.content.routingContext from congrArg Message.routingContext same
  rw [Message.prediction, ← context]
  exact (reached.sound.admitted source known).static static

theorem mem_level {level : Nat} {node : Node} (inside : level < s.broker.queue.numLevels)
    (queued : node ∈ s.broker.queue.queues level) : (.level level, node.message) ∈ s.whereabouts := by
  simp only [whereabouts, List.mem_append]
  exact Or.inl <| Or.inl <| Or.inl <| Or.inl <|
    List.mem_flatMap.mpr ⟨level, List.mem_range.mpr inside, List.mem_map_of_mem queued⟩

theorem mem_hands {task : Nat} {found : Task} (position : s.tasks[task]? = some found) {msg : Message}
    (held : msg ∈ found.inHand) : (.hands task, msg) ∈ s.whereabouts := by
  simp only [whereabouts, List.mem_append]
  exact Or.inl <| Or.inl <| Or.inl <| Or.inr <|
    List.mem_flatMap.mpr ⟨(found, task), List.mem_zipIdx_iff_getElem?.mpr position, List.mem_map_of_mem held⟩

theorem uncharged_of_static {cfg : HarbingerConfig} (reached : Reached cfg s) (static : cfg.predictiveRouting = none)
    (action : Action) : s.Uncharged action := by
  cases action with
  | dequeue task =>
    intro level node rest _ front
    have queued : node ∈ s.broker.queue.queues level := front ▸ List.mem_cons_self ..
    exact unpredicted reached static (mem_level (reached.sound.queue.structured.level_lt queued) queued)
  | install task cancelled fault leaseAt pullAt =>
    intro consumer msg token staged
    exact unpredicted reached static (mem_hands staged (List.mem_singleton_self msg))
  | _ => trivial

end System

section Runs
variable {σ : Type} [Ml.Inference σ] {cfg : HarbingerConfig} {actions : List Action} {s t : System σ}

theorem Action.ne_learn {action : Action} (visible : action.shown = true) (lesson : Nat) (first second : Time) :
    action ≠ .learn lesson first second := by
  rintro rfl
  cases visible

theorem System.run_erased (checked : cfg.Checked)
    (shadow : ∀ routing, cfg.predictiveRouting = some routing → routing.mode ≠ .predictive) (reached : Reached cfg s)
    (uncharged : Along (System.step cfg) (fun before action => cfg.levelWeights = none ∨ before.Uncharged action) actions s)
    (ran : run (System.step cfg) actions s = some t) :
    run (System.step cfg.bare) (actions.filter Action.shown) s.bare = some t.bare := by
  apply run_view (System.step cfg.bare) System.bare Action.shown _ _
    (uncharged.and_invariant (Reached cfg) (fun _ _ _ known moved => known.step checked moved) reached) ran
  · intro before action meets visible
    exact before.step_bare cfg shadow (meets.2.imp_left meets.1.sound.weights.trans) (Action.ne_learn visible)
  · intro before action after silent moved
    cases action with
    | learn lesson first second => exact before.step_learn_bare cfg moved
    | _ => cases silent

theorem System.run_static (checked : cfg.Checked) (static : cfg.predictiveRouting = none) (reached : Reached cfg s)
    (visible : ∀ action ∈ actions, action.shown = true) {last : System σ}
    (ran : run (System.step cfg.bare) actions s.bare = some last) :
    ∃ t, run (System.step cfg) actions s = some t ∧ t.bare = last := by
  have shown : Along (System.step cfg) (fun _ action => action.shown = true) actions s :=
    .of_mem (fun action member _ => visible action member) s
  apply run_of_view (System.step cfg.bare) System.bare _
    (shown.and_invariant (Reached cfg) (fun _ _ _ known moved => known.step checked moved) reached) ran
  intro before action meets
  refine before.step_bare cfg (fun routing routed => ?_) (.inr (System.uncharged_of_static meets.1 static action))
    (Action.ne_learn meets.2)
  cases static.symm.trans routed

end Runs

/-- Shadow and static routing deliver the same messages in the same order to the same consumers
and bury the same ones, in every run in which no charged message carries a prediction. -/
theorem shadow_dispatch {σ : Type} [Ml.Inference σ] {config cfg : HarbingerConfig}
    {routing : Ml.PredictiveRoutingConfig} (configured : config.predictiveRouting = some routing)
    (mode : routing.mode = .shadow) (valid : validateConfig config = .ok cfg) {predictor : Option σ}
    {instanceToken : Bytes} {counter : Nat} {b : Broker σ}
    (made : Broker.create cfg predictor instanceToken counter = .ok b) {now : Time} {actions : List Action} {s : System σ}
    (ran : run (System.step cfg) actions (System.initial b now) = some s)
    (uncharged : Along (System.step cfg) (fun before action => cfg.levelWeights = none ∨ before.Uncharged action)
      actions (System.initial b now)) :
    ∃ (static : HarbingerConfig) (b' : Broker σ) (t : System σ),
      validateConfig { config with predictiveRouting := none } = .ok static ∧
      Broker.create static none instanceToken counter = .ok b' ∧
      run (System.step static) (actions.filter Action.shown) (System.initial b' now) = some t ∧
      t.deliveries = s.deliveries ∧ t.deadLetters = s.deadLetters := by
  have shadow : ∀ resolved, cfg.predictiveRouting = some resolved → resolved.mode ≠ .predictive := by
    intro resolved known
    obtain ⟨given, same, kept⟩ := validateConfig_mode valid known
    obtain rfl := Option.some.inj (configured.symm.trans same)
    rw [kept, mode]
    exact nofun
  have erased := System.run_erased (.of_validateConfig valid) shadow (Reached.initial made now) uncharged ran
  obtain ⟨queue, created, same⟩ := bind_ok.mp made
  obtain rfl := Except.ok.inj same
  have madeStatic : Broker.create cfg.static (none : Option σ) instanceToken counter =
      .ok { queue, predictor := none, instanceToken, idCounter := counter } :=
    bind_ok.mpr ⟨queue, created, rfl⟩
  obtain ⟨t, ranStatic, agree⟩ := System.run_static (.of_validateConfig (validateConfig_static valid)) rfl
    (Reached.initial madeStatic now) (fun action member => (List.mem_filter.mp member).2) erased
  refine ⟨cfg.static, _, t, validateConfig_static valid, madeStatic, ranStatic, ?_, ?_⟩
  · rw [← System.deliveries_bare, agree, System.deliveries_bare]
  · rw [← System.deadLetters_bare, agree, System.deadLetters_bare]

section Sample
open Ml

/-- Two levels, in shadow mode. -/
def sampleShadow (levelWeights : Option (List Nat)) : HarbingerConfig where
  numLevels := 2
  aging := some ⟨1, 1, some false⟩
  predictiveRouting := some { predictor := samplePredictorConfig }
  levelWeights

def sampleShadowBroker (predictor : Option (PerKeyPredictor .plain)) (levelWeights : Option (List Nat)) :
    Broker (PerKeyPredictor .plain) where
  queue := { numLevels := 2, selection := if levelWeights.isSome then .weightedTime else .strictPriority,
             aging := some ⟨1, 1, some false⟩, weights := levelWeights }
  predictor

/-- The first message takes 100 ms, which is learned. Two more age up to level 0, one enters at
level 1, and two are pulled. -/
def sampleLesson : List Action :=
  [.registerProducer, .registerConsumer] ++ sampleArrival ++ samplePull 0 ++
    [.settle { sampleAck with token := ascii "-0-1", processingTimeMs := 100 } 0 0 (sampleReadings 0), .close 0 0,
      .learn 0 0 0] ++ sampleArrival ++ sampleArrival ++ [.tick 1000000, .age 1000000 []] ++ sampleArrival ++
    samplePull 1000000 ++ samplePull 1000000

theorem sample_accepted (levelWeights : Option (List Nat)) (weights : levelWeights = none ∨ levelWeights = some [1, 1]) :
    validateConfig (sampleShadow levelWeights) = .ok (sampleShadow levelWeights) := by
  rcases weights with rfl | rfl
  · decide +kernel
  · decide +kernel

/-- Without level weights, predictions are recorded and change nothing. -/
theorem shadow_dispatch_strict : ∃ s t : System (PerKeyPredictor .plain),
    run (System.step (sampleShadow none)) sampleLesson (System.initial (sampleShadowBroker (some samplePredictor) none) 0) =
      some s ∧
    run (System.step (sampleShadow none).static) (sampleLesson.filter Action.shown)
      (System.initial (sampleShadowBroker none none) 0) = some t ∧
    (s.deliveries.map fun item => item.2.2.id) = [ascii "0-0", ascii "0-2", ascii "0-3"] ∧
    t.deliveries = s.deliveries ∧ t.deadLetters = s.deadLetters := by
  have known : (run (System.step (sampleShadow none)) sampleLesson
      (System.initial (sampleShadowBroker (some samplePredictor) none) 0)).map (fun s =>
        s.deliveries.map fun item => item.2.2.id) = some [ascii "0-0", ascii "0-2", ascii "0-3"] := by decide +kernel
  have valid := sample_accepted none (.inl rfl)
  obtain ⟨s, ran, ids⟩ := Option.map_eq_some_iff.mp known
  obtain ⟨static, b, t, validStatic, made, ranStatic, delivered, buried⟩ := @shadow_dispatch _ _ _ _ _ rfl rfl valid
    (some samplePredictor) [] 0 _ rfl _ _ _ ran (.of_mem (fun _ _ _ => .inl rfl) _)
  obtain rfl : (sampleShadow none).static = static := Except.ok.inj ((validateConfig_static valid).symm.trans validStatic)
  obtain rfl : sampleShadowBroker none none = b := Except.ok.inj (Eq.trans rfl made)
  exact ⟨s, t, ran, ranStatic, ids, delivered, buried⟩

/-- With level weights a pull is charged the prediction that shadow mode recorded, and the next
pull serves another level than under static routing. -/
theorem shadow_prediction_changes_dispatch : ∃ s t : System (PerKeyPredictor .plain),
    validateConfig (sampleShadow (some [1, 1])) = .ok (sampleShadow (some [1, 1])) ∧
    PerKeyPredictor.create .plain samplePredictorConfig sampleLayout = .ok samplePredictor ∧
    Broker.create (sampleShadow (some [1, 1])) (some samplePredictor) [] 0 =
      .ok (sampleShadowBroker (some samplePredictor) (some [1, 1])) ∧
    run (System.step (sampleShadow (some [1, 1]))) sampleLesson
      (System.initial (sampleShadowBroker (some samplePredictor) (some [1, 1])) 0) = some s ∧
    validateConfig { sampleShadow (some [1, 1]) with predictiveRouting := none } =
      .ok (sampleShadow (some [1, 1])).static ∧
    Broker.create (sampleShadow (some [1, 1])).static (none : Option (PerKeyPredictor .plain)) [] 0 =
      .ok (sampleShadowBroker none (some [1, 1])) ∧
    run (System.step (sampleShadow (some [1, 1])).static) (sampleLesson.filter Action.shown)
      (System.initial (sampleShadowBroker none (some [1, 1])) 0) = some t ∧
    (s.deliveries.map fun item => item.2.2.id) = [ascii "0-0", ascii "0-2", ascii "0-4"] ∧
    (t.deliveries.map fun item => item.2.2.id) = [ascii "0-0", ascii "0-2", ascii "0-3"] := by
  have predicted : (run (System.step (sampleShadow (some [1, 1]))) sampleLesson
      (System.initial (sampleShadowBroker (some samplePredictor) (some [1, 1])) 0)).map (fun s =>
        s.deliveries.map fun item => item.2.2.id) = some [ascii "0-0", ascii "0-2", ascii "0-4"] := by decide +kernel
  have static : (run (System.step (sampleShadow (some [1, 1])).static) (sampleLesson.filter Action.shown)
      (System.initial (sampleShadowBroker none (some [1, 1])) 0)).map (fun s =>
        s.deliveries.map fun item => item.2.2.id) = some [ascii "0-0", ascii "0-2", ascii "0-3"] := by decide +kernel
  have valid := sample_accepted (some [1, 1]) (.inr rfl)
  have checked : validated samplePredictorConfig = .ok samplePredictorConfig := by decide +kernel
  have created : PerKeyPredictor.create .plain samplePredictorConfig sampleLayout = .ok samplePredictor := by
    rw [PerKeyPredictor.create, checked]
    rfl
  obtain ⟨s, ran, ids⟩ := Option.map_eq_some_iff.mp predicted
  obtain ⟨t, ranStatic, idsStatic⟩ := Option.map_eq_some_iff.mp static
  exact ⟨s, t, valid, created, rfl, ran, validateConfig_static valid, rfl, ranStatic, ids, idsStatic⟩

end Sample

end Harbinger
