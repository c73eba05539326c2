import Harbinger.Broker.Context
import Harbinger.Broker.Shadow
import Harbinger.Replay.Basic

/-! What the broker learns from a settlement and what the replay learns from its record: both
take the duration of an eligible label, mark a lease expiry as censored, and nothing else. -/

namespace Harbinger
open Container Ledger Ml Replay

/-- What `learn` is told by an update. -/
def PredictorUpdate.told (update : PredictorUpdate) : Bool × Option ℚ := (update.censored, update.durationMs)

/-- What the predictor learns from that. -/
def PredictorUpdate.lesson (update : PredictorUpdate) : Option Lesson :=
  if update.censored then some .censored else update.durationMs.map .duration

theorem bind_lesson (update : Option PredictorUpdate) : update.bind PredictorUpdate.lesson =
    (update.map PredictorUpdate.told).bind fun told =>
      if told.1 then some .censored else told.2.map Lesson.duration := by
  cases update <;> rfl

def Settlement.operation? : Settlement → Option FeedbackOperation
  | .expired => none
  | .ack => some .ack
  | .nack => some .nack

def Fate.outcome : Fate → FeedbackOutcome
  | .deadLettered _ => .dlq
  | .retried => .retry
  | _ => .ack

def Fate.reason? : Fate → Option DLQReason
  | .deadLettered reason => some reason
  | _ => none

namespace Broker
variable {σ : Type} {cfg : HarbingerConfig} {b : Broker σ} {entry : InFlightEntry} {kind : Settlement}
  {measurement : Option Int} {r : FinishReadings} {event : FeedbackEvent}

/-- What an event of `finish_locked` says, by the fate of its message. -/
structure Settles (entry : InFlightEntry) (kind : Settlement) (measurement : Option Int) (fate : Fate)
    (event : FeedbackEvent) : Prop where
  messageId : event.messageId = entry.message.id
  routing : event.routing = entry.message.routingContext
  attemptId : event.attemptId = some entry.attemptId
  trigger : event.trigger = if kind = .expired then .leaseExpiry else .settlement
  operation : event.operation = kind.operation?
  processingTimeMs : event.processingTimeMs = measurement
  outcome : event.outcome = some fate.outcome
  dlqReason : event.dlqReason = fate.reason?

theorem captureEvent_spec {msg : Message} {trigger : FeedbackTrigger} {stamp : Stamp}
    (captured : captureEvent cfg msg trigger stamp = some event) : cfg.feedback = true ∧
      (msg.id ≠ [] ∧ msg.id.length ≤ 128) ∧ event = {
        messageId := msg.id
        routing := msg.routingContext
        trigger
        retryCount := msg.retryCount
        collectedAt := stamp.collectedAt
        elapsedSinceArrivalMs := Int.tdiv (stamp.now - msg.arrivalTime) 1000000 } := by
  unfold captureEvent captureFeedback at captured
  obtain ⟨enabled, captured⟩ := Option.ite_none_right_eq_some.mp captured
  obtain ⟨usable, captured⟩ := Option.ite_none_left_eq_some.mp captured
  exact ⟨enabled, ⟨fun empty => usable (Or.inl empty), not_lt.mp fun long => usable (Or.inr long)⟩,
    (Option.some.inj captured).symm⟩

theorem finishEvent_settles (captured : finishEvent cfg entry kind measurement r = some event) :
    Settles entry kind measurement (System.fate entry.message kind r.expiryAt) event := by
  unfold finishEvent at captured
  generalize System.fate entry.message kind r.expiryAt = fate at captured ⊢
  obtain ⟨made, built, rfl⟩ := Option.map_eq_some_iff.mp captured
  obtain ⟨plain, taken, rfl⟩ := Option.map_eq_some_iff.mp built
  obtain ⟨_, _, rfl⟩ := captureEvent_spec taken
  rcases fate with _ | _ | _ | (_ | _ | _) <;>
    exact ⟨rfl, rfl, rfl, rfl, by cases kind <;> rfl, rfl, rfl, rfl⟩

/-- The four ways in which `finish_locked` ends. -/
theorem fate_cases (msg : Message) (kind : Settlement) (reading : Time) :
    (msg.isExpired reading ∧ System.fate msg kind reading = .deadLettered .ttlExpired) ∨
    (¬msg.isExpired reading ∧ kind = .ack ∧ System.fate msg kind reading = .acknowledged) ∨
    (¬msg.isExpired reading ∧ kind ≠ .ack ∧ (System.fate msg kind reading = .deadLettered .maxRetriesExceeded ∨
      System.fate msg kind reading = .retried)) := by
  unfold System.fate
  by_cases expired : msg.isExpired reading
  · exact Or.inl ⟨expired, if_pos expired⟩
  · rw [if_neg expired]
    by_cases success : kind = .ack
    · exact Or.inr (Or.inl ⟨expired, success, if_pos success⟩)
    · rw [if_neg success]
      refine Or.inr (Or.inr ⟨expired, success, ?_⟩)
      by_cases last : (failOnce msg).maxRetries ≤ (failOnce msg).retryCount
      · exact Or.inl (if_pos last)
      · exact Or.inr (if_neg last)

/-- The label of a settlement is eligible when it acknowledges a measured duration within the
lease, before the TTL, of a message with valid features. -/
theorem classifyLabel_eligible
    (settles : Settles entry kind measurement (System.fate entry.message kind r.expiryAt) event)
    {context : RoutingContext} (routed : entry.message.routingContext = some context)
    (consistent : context.features.isSome ↔ context.featureValidity = .valid) (lease : Millis) :
    classifyLabel event lease = .eligible ↔
      (kind = .ack ∧ ¬entry.message.isExpired r.expiryAt) ∧ context.featureValidity = .valid ∧
        ∃ sample, measurement = some sample ∧ 0 ≤ sample ∧ sample ≤ lease := by
  have learnable : event.learnable = decide (context.featureValidity = .valid) := by
    rw [FeedbackEvent.learnable, settles.routing, routed]
    by_cases valid : context.featureValidity = .valid
    · simp [valid, consistent.mpr valid]
    · simp [valid]
  unfold classifyLabel
  rw [settles.processingTimeMs, learnable, settles.dlqReason, settles.operation, settles.outcome]
  cases measurement with
  | none => simp
  | some sample =>
    by_cases negative : sample < 0
    · simp [negative]
    · by_cases beyond : lease < sample
      · simp [negative, beyond]
      · by_cases valid : context.featureValidity = .valid
        · rcases fate_cases entry.message kind r.expiryAt with ⟨expired, fate⟩ | ⟨live, success, fate⟩ |
            ⟨live, failure, fate | fate⟩
          · simp [negative, beyond, valid, fate, expired, Fate.reason?]
          · rw [fate]
            simp [negative, beyond, valid, live, success, Fate.reason?, Settlement.operation?, Fate.outcome,
              not_lt.mp negative, not_lt.mp beyond]
          · by_cases refused : kind.operation? = some .nack <;>
              simp [negative, beyond, valid, fate, failure, refused, Fate.reason?, Fate.outcome]
          · by_cases refused : kind.operation? = some .nack <;>
              simp [negative, beyond, valid, fate, failure, refused, Fate.reason?, Fate.outcome]
        · simp [negative, beyond, valid]

theorem taught_eq_some (cfg : HarbingerConfig) (kind : Settlement) (expired : Bool) (measurement : Option Int)
    (sample : Int) : taught cfg kind expired measurement = some sample ↔
      (kind = .ack ∧ expired = false) ∧ measurement = some sample ∧ 0 ≤ sample ∧ sample ≤ cfg.deliveryLease := by
  unfold taught
  rw [Option.ite_none_right_eq_some, Option.filter_eq_some_iff, decide_eq_true_eq]

theorem predictorUpdate_told {context : RoutingContext} {key : Bytes} (enabled : b.predictor.isSome)
    {msg : Message} (routed : msg.routingContext = some context) (keyed : context.predictorKey = some key)
    (featured : cfg.ingressFeatures.isSome) (sample : Option Int) :
    (predictorUpdate cfg b msg kind sample).map PredictorUpdate.told =
      match sample, decide (context.featureValidity = .valid) with
      | some sample, true => some (false, some (sample : ℚ))
      | _, _ => if kind = .expired then some (true, none) else none := by
  obtain ⟨predictor, found⟩ := Option.isSome_iff_exists.mp enabled
  have known : cfg.ingressFeatures.isNone = false := by
    rw [← Option.not_isSome, featured]
    rfl
  simp only [predictorUpdate, found, routed, keyed, known, Bool.false_or]
  cases sample with
  | none =>
    by_cases late : kind = .expired <;> simp [late, PredictorUpdate.told]
  | some sample =>
    by_cases valid : context.featureValidity = .valid <;> by_cases late : kind = .expired <;>
      simp [valid, late, PredictorUpdate.told]

theorem finishHand_update (cfg : HarbingerConfig) (b : Broker σ) (entry : InFlightEntry) (kind : Settlement)
    (reason : Bytes) (measurement : Option Int) (r : FinishReadings) :
    (b.finishHand cfg entry kind reason measurement r).update =
      predictorUpdate cfg b entry.message kind
        (taught cfg kind (entry.message.isExpired r.expiryAt) measurement) := by
  have same : ∀ level sample rest, predictorUpdate cfg (noteLevelCost cfg b level sample) entry.message kind rest =
      predictorUpdate cfg b entry.message kind rest := by
    intro level sample rest
    unfold noteLevelCost
    split <;> rfl
  simp only [finishHand, same]
  split
  · rfl
  · split
    · rfl
    · split <;> rfl

/-- The update of a settlement is decided by the label and the trigger of its event. -/
theorem finishHand_told {context : RoutingContext} {key reason : Bytes} (featured : cfg.ingressFeatures.isSome)
    (enabled : b.predictor.isSome) (routed : entry.message.routingContext = some context)
    (keyed : context.predictorKey = some key)
    (consistent : context.features.isSome ↔ context.featureValidity = .valid)
    (captured : (b.finishHand cfg entry kind reason measurement r).event = some event) :
    (b.finishHand cfg entry kind reason measurement r).update.map PredictorUpdate.told =
      (if classifyLabel event cfg.deliveryLease = .eligible
        then some (false, event.processingTimeMs.map fun duration : Int => (duration : ℚ))
        else if event.trigger = .leaseExpiry then some (true, none) else none) ∧
    (classifyLabel event cfg.deliveryLease = .eligible → event.trigger = .settlement ∧ event.processingTimeMs.isSome) := by
  rw [finishHand_event] at captured
  have settles := finishEvent_settles captured
  have eligible := classifyLabel_eligible settles routed consistent cfg.deliveryLease
  rw [finishHand_update, predictorUpdate_told enabled routed keyed featured, settles.processingTimeMs,
    settles.trigger]
  by_cases learned : classifyLabel event cfg.deliveryLease = .eligible
  · obtain ⟨⟨success, live⟩, valid, sample, measured, range⟩ := eligible.mp learned
    have sampled : taught cfg kind (entry.message.isExpired r.expiryAt) measurement = some sample := by
      rw [taught_eq_some]
      exact ⟨⟨success, decide_eq_false live⟩, measured, range⟩
    rw [if_pos learned, sampled, measured]
    simp [valid, success]
  · rw [if_neg learned]
    refine ⟨?_, fun yes => absurd yes learned⟩
    cases sampled : taught cfg kind (entry.message.isExpired r.expiryAt) measurement with
    | none => by_cases late : kind = .expired <;> simp [late]
    | some sample =>
      obtain ⟨⟨success, live⟩, measured, range⟩ := (taught_eq_some ..).mp sampled
      have invalid : context.featureValidity ≠ .valid := fun valid =>
        learned (eligible.mpr ⟨⟨success, of_decide_eq_false live⟩, valid, sample, measured, range⟩)
      simp [invalid, success]

end Broker

/-- The broker takes the duration of an eligible label, marks the key of a lease expiry as
censored, and learns nothing else; the replay of the record learns the same. -/
theorem learning_follows_labels {σ : Type} [Inference σ] {cfg : HarbingerConfig} {s : System σ}
    (reachable : s.Reachable cfg) (featured : cfg.ingressFeatures.isSome) (enabled : s.broker.predictor.isSome)
    {id : Bytes} {entry : InFlightEntry} (live : s.live.lookup id = some entry) {context : RoutingContext}
    (routed : entry.message.routingContext = some context) (keyed : context.predictorKey.isSome)
    (kind : Settlement) (reason : Bytes) (measurement : Option Int) (r : Broker.FinishReadings)
    (recordAt pruneAt : Time) {event : FeedbackEvent}
    (returned : (s.broker.finishLocked cfg id entry kind reason measurement r recordAt pruneAt).event = some event) :
    let update := (s.broker.finishLocked cfg id entry kind reason measurement r recordAt pruneAt).update
    (∀ duration, update.map PredictorUpdate.told = some (false, some duration) ↔
      classifyLabel event cfg.deliveryLease = .eligible ∧
        (event.processingTimeMs.map fun sample : Int => (sample : ℚ)) = some duration) ∧
    (update.map PredictorUpdate.told = some (true, none) ↔ event.trigger = .leaseExpiry) ∧
    (update = none ↔ classifyLabel event cfg.deliveryLease ≠ .eligible ∧ event.trigger ≠ .leaseExpiry) ∧
    ∀ decimals options envelope identity record read,
      feedbackRecord decimals event identity cfg.deliveryLease = some record →
      envelope.split = ascii "train" ∨ envelope.split = ascii "evaluation" →
      readEvent decimals options (exportRow envelope record) = .ok read →
      read.lesson = update.bind PredictorUpdate.lesson := by
  intro update
  obtain ⟨ingress, features⟩ := Option.isSome_iff_exists.mp featured
  obtain ⟨key, named⟩ := Option.isSome_iff_exists.mp keyed
  obtain ⟨known, same, described⟩ := reachable.described features (System.live_census live)
  obtain rfl := Option.some.inj (routed.symm.trans same)
  have consistent : context.features.isSome ↔ context.featureValidity = .valid := by
    rw [described.features, described.validity]
    exact extract_consistent ..
  obtain ⟨told, timely⟩ := Broker.finishHand_told featured enabled routed named consistent returned
  have settles := Broker.finishEvent_settles ((Broker.finishHand_event ..).symm.trans returned)
  have submitted : event.trigger ≠ .submit := by
    rw [settles.trigger]
    split <;> simp
  have replayed : ∀ decimals options envelope identity record read,
      feedbackRecord decimals event identity cfg.deliveryLease = some record →
      envelope.split = ascii "train" ∨ envelope.split = ascii "evaluation" →
      readEvent decimals options (exportRow envelope record) = .ok read →
      read.lesson = ((if classifyLabel event cfg.deliveryLease = .eligible then event.processingTimeMs else none).map
        fun duration : Int => Lesson.duration duration).or
          (if event.trigger = .leaseExpiry then some .censored else none) := by
    intro decimals options envelope identity record read made counted parsed
    rw [lesson_eq (readEvent_reads made parsed) submitted counted, settles.attemptId]
    simp only [Option.isSome_some, and_true]
  change update.map PredictorUpdate.told = _ at told
  have none_iff : update = none ↔ update.map PredictorUpdate.told = none := Option.map_eq_none_iff.symm
  rw [none_iff, bind_lesson, told]
  by_cases eligible : classifyLabel event cfg.deliveryLease = .eligible
  · obtain ⟨settlement, measured⟩ := timely eligible
    obtain ⟨sample, taken⟩ := Option.isSome_iff_exists.mp measured
    simp only [eligible, ↓reduceIte, taken, settlement] at replayed ⊢
    refine ⟨by simp, by simp, by simp, ?_⟩
    intro decimals options envelope identity record read made counted parsed
    exact replayed decimals options envelope identity record read made counted parsed
  · simp only [eligible, ↓reduceIte] at replayed ⊢
    by_cases late : event.trigger = .leaseExpiry
    · simp only [late, ↓reduceIte] at replayed ⊢
      exact ⟨by simp, by simp, by simp, replayed⟩
    · simp only [late, ↓reduceIte] at replayed ⊢
      exact ⟨by simp, by simp, by simp [eligible, late], replayed⟩

section Sample

/-- The sample broker in shadow mode with features and feedback. -/
def sampleFeedback : HarbingerConfig :=
  { sampleShadow none with ingressFeatures := some ⟨{ version := ascii "v1" }, ascii "policy"⟩, feedback := true }

def sampleDelivered : List Action := [.registerProducer, .registerConsumer] ++ sampleArrival ++ samplePull 0

theorem sampleFeedback_reachable {actions : List Action} {s : System (PerKeyPredictor .plain)}
    (ran : Transition.run (System.step sampleFeedback) actions
      (System.initial (sampleShadowBroker (some samplePredictor) none) 0) = some s) : s.Reachable sampleFeedback :=
  ⟨sampleFeedback, some samplePredictor, [], 0, _, 0, actions, by decide +kernel, rfl, ran⟩

/-- The first delivery, acknowledged after 100 ms. -/
def sampleFinish (s : System (PerKeyPredictor .plain)) (entry : InFlightEntry) :
    Broker.Finished (PerKeyPredictor .plain) :=
  s.broker.finishLocked sampleFeedback (ascii "0-0") entry .ack [] (some 100) (sampleReadings 0) 0 0

theorem learning_follows_labels_ack : ∃ (s : System (PerKeyPredictor .plain)) (entry : InFlightEntry)
    (event : FeedbackEvent), s.Reachable sampleFeedback ∧ s.live.lookup (ascii "0-0") = some entry ∧
      (sampleFinish s entry).event = some event ∧
      classifyLabel event sampleFeedback.deliveryLease = .eligible ∧
      (sampleFinish s entry).update.map PredictorUpdate.told = some (false, some 100) := by
  have known : ((Transition.run (System.step sampleFeedback) sampleDelivered
      (System.initial (sampleShadowBroker (some samplePredictor) none) 0)).bind fun s =>
        (s.live.lookup (ascii "0-0")).bind fun entry => entry.message.routingContext.bind fun context =>
          (sampleFinish s entry).event.map fun event => (s.broker.predictor.isSome, context.predictorKey.isSome,
            classifyLabel event sampleFeedback.deliveryLease, event.processingTimeMs)) =
      some (true, true, .eligible, some 100) := by decide +kernel
  obtain ⟨s, ran, known⟩ := Option.bind_eq_some_iff.mp known
  obtain ⟨entry, live, known⟩ := Option.bind_eq_some_iff.mp known
  obtain ⟨context, routed, known⟩ := Option.bind_eq_some_iff.mp known
  obtain ⟨event, returned, known⟩ := Option.map_eq_some_iff.mp known
  obtain ⟨enabled, keyed, eligible, measured⟩ := by simpa only [Prod.mk.injEq] using known
  have learned := learning_follows_labels (sampleFeedback_reachable ran) rfl enabled live routed keyed .ack [] (some 100)
    (sampleReadings 0) 0 0 returned
  refine ⟨s, entry, event, sampleFeedback_reachable ran, live, returned, eligible, (learned.1 100).mpr ⟨eligible, ?_⟩⟩
  rw [measured]
  rfl

end Sample

end Harbinger
