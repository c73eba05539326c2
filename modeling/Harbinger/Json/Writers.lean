import Harbinger.Json.Inverse
import Harbinger.Ml.Record

/-! The parser inverts `snapshot_json` and `feedback_json`. The values of the C++ types are those of the
model with distinct keys in the maps, integers in the ranges of their types, and real numbers that are
doubles. -/

namespace Harbinger.Ml
open Harbinger.Parser

/-- A snapshot as C++ has it, over the rational numbers that are doubles. -/
structure FeatureSnapshot.Typed (doubles : Set ℚ) (snapshot : FeatureSnapshot) : Prop where
  headers : (snapshot.headers.map Prod.fst).Nodup
  reasons : (snapshot.missingReasons.map Prod.fst).Nodup
  numbers : ∀ entry ∈ snapshot.headers, ∀ negative magnitude, entry.2 = .number negative magnitude →
    (if negative then -magnitude else magnitude) ∈ doubles

structure RoutingContext.Typed (doubles : Set ℚ) (context : RoutingContext) : Prop where
  features : ∀ snapshot ∈ context.features, snapshot.Typed doubles
  predicted : ∀ value ∈ context.predictedProcessingTimeMs, value ∈ doubles
  bucket : ∀ bucket ∈ context.predictedBucket, bucket < 2 ^ 8
  priority : context.ingressPriority < 2 ^ 8
  elapsed : ∀ value ∈ context.inferenceElapsedMs, value ∈ doubles

structure FeedbackEvent.Typed (doubles : Set ℚ) (event : FeedbackEvent) : Prop where
  routing : ∀ context ∈ event.routing, context.Typed doubles
  retries : event.retryCount < 2 ^ 32
  measured : ∀ value ∈ event.processingTimeMs, -2 ^ 63 ≤ value ∧ value < 2 ^ 63
  elapsed : -2 ^ 63 ≤ event.elapsedSinceArrivalMs ∧ event.elapsedSinceArrivalMs < 2 ^ 63

section Within
variable {decimals : Decimals} {doubles : Set ℚ} (inverse : ∀ value ∈ doubles, Inverts decimals value) {levels : Nat}

/-- The numbers that are read back. -/
abbrev ReadBack (decimals : Decimals) : Number → Prop := Spelled (reading decimals) (Number.spell decimals)

theorem within_orNull {α : Type} {form : α → Document} {given : Option α}
    (each : ∀ value ∈ given, (form value).Within (ReadBack decimals) (levels + 1)) :
    (orNull form given).Within (ReadBack decimals) (levels + 1) := by
  cases given with
  | none => trivial
  | some value => exact each value rfl

theorem within_natural {n : Nat} (small : n < 2 ^ 63) :
    (integerDocument n).Within (ReadBack decimals) (levels + 1) := integer_spelled decimals (by omega) (by omega)

theorem within_real {value : ℚ} (inverts : Inverts decimals value) :
    (realDocument value).Within (ReadBack decimals) (levels + 1) := real_spelled inverts

include inverse

theorem FeatureSnapshot.within {snapshot : FeatureSnapshot} (typed : snapshot.Typed doubles) :
    snapshot.document.Within (ReadBack decimals) (levels + 3) := by
  refine ⟨by simp only [List.map_cons, List.map_nil]; decide +kernel, ?_⟩
  simp only [List.forall_mem_cons]
  refine ⟨trivial, ⟨?_, ?_⟩, ⟨?_, ?_⟩, fun _ none => absurd none List.not_mem_nil⟩
  · rw [List.map_map]
    exact typed.headers
  · intro member listed
    obtain ⟨⟨key, value⟩, known, rfl⟩ := List.mem_map.mp listed
    cases value with
    | missing => trivial
    | text value => trivial
    | number negative magnitude => exact real_spelled (inverse _ (typed.numbers _ known negative magnitude rfl))
  · rw [List.map_map]
    exact typed.reasons
  · intro member listed
    obtain ⟨entry, _, rfl⟩ := List.mem_map.mp listed
    trivial

theorem RoutingContext.within {context : RoutingContext} (typed : context.Typed doubles) :
    context.document.Within (ReadBack decimals) (levels + 4) := by
  have priority := typed.priority
  refine ⟨by simp only [List.map_cons, List.map_nil]; decide +kernel, ?_⟩
  simp only [List.forall_mem_cons]
  refine ⟨trivial, trivial, within_orNull fun _ _ => trivial, trivial,
    within_orNull fun snapshot known => FeatureSnapshot.within inverse (typed.features snapshot known), trivial,
    within_orNull fun value known => within_real (inverse value (typed.predicted value known)),
    within_orNull fun bucket known => within_natural ((typed.bucket bucket known).trans (by decide)),
    within_natural (priority.trans (by decide)), within_orNull fun _ _ => trivial,
    within_orNull fun value known => within_real (inverse value (typed.elapsed value known)),
    fun _ none => absurd none List.not_mem_nil⟩

theorem FeedbackEvent.within {event : FeedbackEvent} (typed : event.Typed doubles) {context : RoutingContext}
    (routed : event.routing = some context) (identity : RecordIdentity) (lease : Millis) :
    Json.Value.Within (ReadBack decimals) (levels + 5) (.object (event.members identity lease context)) := by
  have routing : context.Typed doubles := typed.routing context routed
  refine ⟨by simp only [FeedbackEvent.members, List.map_cons, List.map_nil]; decide +kernel, ?_⟩
  simp only [FeedbackEvent.members, List.forall_mem_cons]
  refine ⟨within_natural (by decide : 1 < 2 ^ 63), trivial, trivial, trivial, trivial, within_orNull fun _ _ => trivial,
    trivial, RoutingContext.within inverse routing, within_orNull fun _ _ => trivial, trivial,
    within_orNull fun _ _ => trivial, within_orNull fun _ _ => trivial,
    within_natural (typed.retries.trans (by decide)),
    within_orNull fun value known => integer_spelled decimals (typed.measured value known).1 (typed.measured value known).2,
    trivial, integer_spelled decimals typed.elapsed.1 typed.elapsed.2, fun _ none => absurd none List.not_mem_nil⟩

end Within

/-- The parser returns the document that was written: all fields with their strings, integers, doubles
and nulls. -/
theorem parser_inverts_writers {decimals : Decimals} {doubles : Set ℚ}
    (inverse : ∀ value ∈ doubles, Inverts decimals value) :
    (∀ snapshot : FeatureSnapshot, snapshot.Typed doubles → ∀ text, snapshot.json decimals = .ok text →
      parse decimals text = .ok snapshot.document) ∧
    ∀ event : FeedbackEvent, event.Typed doubles → ∀ identity lease maxBytes text,
      feedbackJson decimals event identity lease maxBytes = some text → ∃ context, event.routing = some context ∧
        parse decimals text = .ok (.object (event.members identity lease context)) := by
  constructor
  · intro snapshot typed text written
    simp only [FeatureSnapshot.json, bind_ok] at written
    obtain ⟨_, _, _, _, _, _, written⟩ := written
    unfold bounded at written
    dsimp only at written
    split at written
    · cases written
    · obtain rfl := Except.ok.inj written
      exact parse_render (reading_complete decimals) (FeatureSnapshot.within inverse typed)
  · intro event typed identity lease maxBytes text written
    unfold feedbackJson at written
    split at written
    · cases written
    · obtain ⟨written, _⟩ := Option.filter_eq_some_iff.mp written
      obtain ⟨record, known, rfl⟩ := Option.map_eq_some_iff.mp written
      unfold feedbackRecord at known
      cases routed : event.routing with
      | none =>
        rw [routed] at known
        cases known
      | some context =>
        rw [routed] at known
        obtain ⟨_, same⟩ := Option.ite_none_right_eq_some.mp known
        obtain rfl := Option.some.inj same
        exact ⟨context, rfl, parse_render (reading_complete decimals) (FeedbackEvent.within inverse typed routed identity lease)⟩

/-- Conversions that know one double. -/
def oneAndAHalf : Decimals where
  fromChars text := if text = ascii "1.5000000000000000e+00" then some (3 / 2) else none
  toChars _ := ascii "1.5000000000000000e+00"

def escapedSnapshot : FeatureSnapshot where
  payloadSizeBytes := 5
  headers := [(ascii "a\n\"\\", .number false (3 / 2)), (ascii "b", .missing)]
  missingReasons := [(ascii "b", .absent)]

def escapedEvent : FeedbackEvent where
  messageId := ascii "1-1"
  routing := some { featureSchemaVersion := ascii "1", routingPolicyVersion := ascii "1", features := some escapedSnapshot }
  collectedAt := 0

theorem escapedSnapshot_typed : escapedSnapshot.Typed {3 / 2} := by
  refine ⟨by decide +kernel, by decide +kernel, ?_⟩
  simp [escapedSnapshot]

theorem parser_inverts_writers_escaped : ∃ snapshotText eventText context,
    escapedSnapshot.json oneAndAHalf = .ok snapshotText ∧
    parse oneAndAHalf snapshotText = .ok escapedSnapshot.document ∧
    feedbackJson oneAndAHalf escapedEvent ⟨ascii "00", 1⟩ 1000 maxEventBytes = some eventText ∧
    parse oneAndAHalf eventText = .ok (.object (escapedEvent.members ⟨ascii "00", 1⟩ 1000 context)) := by
  have inverse : ∀ value ∈ ({3 / 2} : Set ℚ), Inverts oneAndAHalf value := by
    rintro value rfl
    have known : Json.Numeral.read (ascii "1.5000000000000000e+00") =
        some ⟨false, ascii "1", some (ascii "5000000000000000"), some ⟨101, some 43, ascii "00"⟩⟩ := by decide +kernel
    obtain ⟨same, general⟩ := Json.Numeral.read_eq_some known
    exact ⟨⟨_, general, ⟨_, rfl, by decide +kernel⟩, rfl, same⟩, by simp [oneAndAHalf]⟩
  have typed : escapedEvent.Typed {3 / 2} := by
    refine ⟨?_, by decide, by simp [escapedEvent], by decide⟩
    rintro context known
    obtain rfl := Option.some.inj known
    refine ⟨?_, by simp, by simp, by decide, by simp⟩
    rintro snapshot found
    obtain rfl := Option.some.inj found
    exact escapedSnapshot_typed
  obtain ⟨inverts, inverts'⟩ := parser_inverts_writers inverse
  have accepted : (escapedSnapshot.json oneAndAHalf).isOk = true := by decide +kernel
  have written : (feedbackJson oneAndAHalf escapedEvent ⟨ascii "00", 1⟩ 1000 maxEventBytes).isSome = true := by decide +kernel
  obtain ⟨eventText, event⟩ := Option.isSome_iff_exists.mp written
  obtain ⟨context, _, parsed⟩ := inverts' escapedEvent typed _ _ _ _ event
  cases snapshot : escapedSnapshot.json oneAndAHalf with
  | error why =>
    rw [snapshot] at accepted
    cases accepted
  | ok text => exact ⟨text, eventText, context, rfl, inverts _ escapedSnapshot_typed _ snapshot, event, parsed⟩

end Harbinger.Ml
