import Harbinger.Analysis.Dataset
import Harbinger.Broker.Emission

/-! The reader accepts what the broker writes, unless a configured version holds a control
character: the writer's versions are any short UTF-8 texts, the reader's have none. -/

namespace Harbinger.Analysis
open Ml

theorem plain_instanceId (random : List UInt8) : Plain (instanceId random) := by
  have digits : ∀ nibble < 16, (32 : UInt8) ≤ Json.hexDigit nibble.toUInt8 := by decide +kernel
  have small : ∀ nibble : UInt8, nibble.toNat < 16 → 32 ≤ Json.hexDigit nibble := by
    intro nibble bound
    have read := digits nibble.toNat bound
    rwa [Nat.toUInt8, UInt8.ofNat_toNat] at read
  intro c member
  obtain ⟨value, _, inside⟩ := List.mem_flatMap.mp member
  have high : (value >>> 4).toNat < 16 := by
    have bound := value.toNat_lt
    rw [UInt8.toNat_shiftRight]
    simp [Nat.shiftRight_eq_div_pow]
    omega
  have low : (value &&& 15).toNat < 16 := by
    rw [UInt8.toNat_and]
    exact Nat.and_lt_two_pow _ (show (15 : UInt8).toNat < 2 ^ 4 by decide)
  rcases List.mem_cons.mp inside with rfl | inside
  · exact small _ high
  · rw [List.mem_singleton.mp inside]
    exact small _ low

/-- Every record that a genuine run writes is accepted by the reader with the same schema and
lease, if no configured version holds a control character. -/
theorem records_accepted {platform : Platform} {config cfg : HarbingerConfig} (valid : validateConfig config = .ok cfg)
    {ingress : IngressFeatureConfig} (featured : cfg.ingressFeatures = some ingress)
    (schema : validateSchema ingress.schema = .ok ()) {schemas : Bytes → Option FeatureSchema}
    (registered : schemas ingress.schema.version = some ingress.schema) (unescaped : cfg.Unescaped)
    {predictor : Option (PerKeyPredictor platform)} {instanceToken : Bytes} {counter : Nat}
    {b : Broker (PerKeyPredictor platform)} (made : Broker.create cfg predictor instanceToken counter = .ok b)
    {now : Time} {actions : List Action} {s : System (PerKeyPredictor platform)}
    (genuine : Transition.Along (System.step cfg) System.Genuine actions (System.initial b now))
    (ran : Transition.run (System.step cfg) actions (System.initial b now) = some s)
    {event : FeedbackEvent} (emitted : event ∈ s.emitted) (random : List UInt8) {sequence : Nat}
    (counted : sequence < 2 ^ 64) {maxBytes : Nat} {text : Bytes}
    (written : feedbackJson platform.decimals event ⟨instanceId random, sequence⟩ cfg.deliveryLease maxBytes =
      some text) :
    ∃ record, feedbackRecord platform.decimals event ⟨instanceId random, sequence⟩ cfg.deliveryLease = some record ∧
      text = Json.render (Number.spell platform.decimals) record ∧
      validateRecord platform.decimals schemas cfg.deliveryLease record = .ok () := by
  unfold feedbackJson at written
  obtain ⟨_, written⟩ := Option.ite_none_left_eq_some.mp written
  obtain ⟨rendered, _⟩ := Option.filter_eq_some_iff.mp written
  obtain ⟨record, recorded, rfl⟩ := Option.map_eq_some_iff.mp rendered
  have acceptable := System.emitted_acceptable valid featured schema registered unescaped made genuine ran event emitted
  exact ⟨record, recorded, rfl, validateRecord_ok acceptable (plain_instanceId random) counted recorded⟩

section Sample

/-- The sample schema under a version with a line break. -/
def sampleEscaped : HarbingerConfig :=
  { sampleFeedback with ingressFeatures := some ⟨{ version := ascii "v\n1" }, ascii "policy"⟩ }

def sampleSchemas (cfg : HarbingerConfig) (version : Bytes) : Option FeatureSchema :=
  (cfg.ingressFeatures.map IngressFeatureConfig.schema).filter fun schema => schema.version = version

/-- The broker accepts such a version and writes it, and the reader refuses the record. -/
theorem control_character_refused : validateConfig sampleEscaped = .ok sampleEscaped ∧
    (∃ ingress, sampleEscaped.ingressFeatures = some ingress ∧ validateSchema ingress.schema = .ok ()) ∧
    ∃ (s : System (PerKeyPredictor .plain)) (event : FeedbackEvent) (record : Document),
      Transition.run (System.step sampleEscaped) (.registerProducer :: sampleArrival)
        (System.initial (sampleShadowBroker (some samplePredictor) none) 0) = some s ∧
      event ∈ s.emitted ∧
      feedbackRecord Platform.plain.decimals event ⟨instanceId [1], 1⟩ sampleEscaped.deliveryLease = some record ∧
      (feedbackJson Platform.plain.decimals event ⟨instanceId [1], 1⟩ sampleEscaped.deliveryLease maxEventBytes).isSome ∧
      validateRecord Platform.plain.decimals (sampleSchemas sampleEscaped) sampleEscaped.deliveryLease record =
        .error "invalid routing version" := by
  refine ⟨by decide +kernel, ⟨_, rfl, by decide +kernel⟩, ?_⟩
  have known : ((Transition.run (System.step sampleEscaped) (.registerProducer :: sampleArrival)
      (System.initial (sampleShadowBroker (some samplePredictor) none) 0)).bind fun s => s.emitted.head?.bind fun event =>
        (feedbackRecord Platform.plain.decimals event ⟨instanceId [1], 1⟩ sampleEscaped.deliveryLease).map fun record =>
          ((feedbackJson Platform.plain.decimals event ⟨instanceId [1], 1⟩ sampleEscaped.deliveryLease
            maxEventBytes).isSome,
          validateRecord Platform.plain.decimals (sampleSchemas sampleEscaped) sampleEscaped.deliveryLease record)) =
      some (true, .error "invalid routing version") := by decide +kernel
  obtain ⟨s, ran, known⟩ := Option.bind_eq_some_iff.mp known
  obtain ⟨event, first, known⟩ := Option.bind_eq_some_iff.mp known
  obtain ⟨record, recorded, known⟩ := Option.map_eq_some_iff.mp known
  exact ⟨s, event, record, ran, List.mem_of_mem_head? first, recorded, congrArg Prod.fst known, congrArg Prod.snd known⟩

/-- The records of the sample run with one failed and one successful attempt. -/
theorem records_accepted_retry : ∃ s : System (PerKeyPredictor .plain),
    Transition.run (System.step sampleFeedback) sampleEnded
      (System.initial (sampleShadowBroker (some samplePredictor) none) 0) = some s ∧ s.emitted.length = 3 ∧
    ∀ event ∈ s.emitted, ∃ record,
      feedbackRecord Platform.plain.decimals event ⟨instanceId [1], 1⟩ sampleFeedback.deliveryLease = some record ∧
      validateRecord Platform.plain.decimals (sampleSchemas sampleFeedback) sampleFeedback.deliveryLease record =
        .ok () := by
  have known : ((Transition.run (System.step sampleFeedback) sampleEnded
      (System.initial (sampleShadowBroker (some samplePredictor) none) 0)).map fun s => (s.emitted.length,
        decide (∀ event ∈ s.emitted, (feedbackJson Platform.plain.decimals event ⟨instanceId [1], 1⟩
          sampleFeedback.deliveryLease maxEventBytes).isSome))) = some (3, true) := by decide +kernel
  obtain ⟨s, ran, known⟩ := Option.map_eq_some_iff.mp known
  obtain ⟨length, written⟩ := by simpa only [Prod.mk.injEq] using known
  have genuine : Transition.Along (System.step sampleFeedback) System.Genuine sampleEnded
      (System.initial (sampleShadowBroker (some samplePredictor) none) 0) := by decide +kernel
  refine ⟨s, ran, length, fun event member => ?_⟩
  obtain ⟨text, written⟩ := Option.isSome_iff_exists.mp (of_decide_eq_true written event member)
  have registered : sampleSchemas sampleFeedback (ascii "v1") = some { version := ascii "v1" } := by decide +kernel
  have made : Broker.create sampleFeedback (some samplePredictor) [] 0 =
    .ok (sampleShadowBroker (some samplePredictor) none) := rfl
  have valid : validateConfig sampleFeedback = .ok sampleFeedback := by decide +kernel
  obtain ⟨record, recorded, -, accepted⟩ := records_accepted valid rfl (by decide +kernel) registered (by decide +kernel)
    made genuine ran member [1] (by decide) written
  exact ⟨record, recorded, accepted⟩

end Sample

end Harbinger.Analysis
