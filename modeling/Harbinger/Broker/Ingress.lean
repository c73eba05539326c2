import Harbinger.Broker.Basic

/-! What `route_message` assigns: every routed message enters at a level that exists, with
the configured retry budget, and routing changes nothing in the broker but the predictor. -/

namespace Harbinger.Broker
open Ml

variable {σ : Type} {cfg : HarbingerConfig}

theorem notePrediction_bucket {numLevels : Nat} {context : RoutingContext} (unset : context.predictedBucket = none)
    (prediction : DurationPrediction) {bucket : Nat}
    (noted : (notePrediction numLevels context prediction).predictedBucket = some bucket) : bucket < numLevels := by
  unfold notePrediction at noted
  split at noted
  · split at noted
    · rw [unset] at noted
      cases noted
    next inside => exact Option.some.inj noted ▸ not_le.mp inside
  all_goals
    rw [unset] at noted
    cases noted

variable [Inference σ]

theorem ingressContext_bucket (cfg : HarbingerConfig) (msg : Message) :
    (ingressContext σ cfg msg).predictedBucket = none := by
  unfold ingressContext
  split <;> rfl

theorem predictRoute_lt {routing : PredictiveRoutingConfig} (p : σ) {msg : Message} {context : RoutingContext}
    (inside : msg.priority < cfg.numLevels.toNat) (unset : context.predictedBucket = none) (r : PredictReadings) :
    (predictRoute cfg routing p msg context r).1 < cfg.numLevels.toNat := by
  simp only [predictRoute]
  split
  · cases noted : (notePrediction cfg.numLevels.toNat _ _).predictedBucket with
    | none => exact inside
    | some bucket =>
      refine notePrediction_bucket ?_ _ noted
      exact unset
  · exact inside

theorem ingressContext_prediction (cfg : HarbingerConfig) (msg : Message) :
    (ingressContext σ cfg msg).predictedProcessingTimeMs = none := by
  unfold ingressContext
  split <;> rfl

/-- What holds of a message once it is routed: its level exists, and static routing predicts
nothing. -/
structure Admitted (cfg : HarbingerConfig) (msg : Message) : Prop where
  level : msg.originalPriority < cfg.numLevels.toNat
  static : cfg.predictiveRouting = none → msg.prediction = none

/-- What routing leaves of the submitted message, and what it sets. -/
structure Routed (cfg : HarbingerConfig) (submitted routed : Message) : Prop where
  id : routed.id = submitted.id
  deliveryCount : routed.deliveryCount = submitted.deliveryCount
  retryCount : routed.retryCount = submitted.retryCount
  maxRetries : routed.maxRetries = cfg.defaultMaxRetries.toNat
  native : routed.priority = routed.originalPriority
  admitted : submitted.routingContext = none → Admitted cfg routed

theorem routeMessage_routed (checked : cfg.Checked) (b : Broker σ) (msg : Message) (r : PredictReadings) :
    Routed cfg msg (b.routeMessage cfg msg r).1 ∧ ∃ predictor, (b.routeMessage cfg msg r).2 = { b with predictor } := by
  have inside : (assignDefaults cfg msg).priority < cfg.numLevels.toNat := checked.priority
  unfold routeMessage
  split
  next p routing _ routed =>
    refine ⟨⟨rfl, rfl, rfl, rfl, rfl, fun _ => ⟨?_, fun static => ?_⟩⟩, _, rfl⟩
    · exact predictRoute_lt p inside (ingressContext_bucket cfg _) r
    · cases routed.symm.trans static
  · split
    · refine ⟨⟨rfl, rfl, rfl, rfl, rfl, fun _ => ⟨inside, fun _ => ?_⟩⟩, b.predictor, rfl⟩
      exact ingressContext_prediction cfg _
    · refine ⟨⟨rfl, rfl, rfl, rfl, rfl, fun unrouted => ⟨inside, fun _ => ?_⟩⟩, b.predictor, rfl⟩
      simp [Message.prediction, assignDefaults, unrouted]

end Harbinger.Broker
