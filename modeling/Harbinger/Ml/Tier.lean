import Harbinger.Ml.Boundaries

/-! The tier of a prediction. Whatever tier a key had before, and whichever boundaries it came
from, the tier it is given exists and its estimate lies in the band of the boundaries used. -/

namespace Harbinger.Ml

theorem le_of_lt_tierOf {bounds : List ℚ} {value : ℚ} {index : Nat} (inside : index < tierOf bounds value) {low : ℚ}
    (found : bounds[index]? = some low) : low ≤ value := by
  obtain ⟨rest, whole⟩ := List.takeWhile_prefix (fun bound => decide (bound ≤ value)) (l := bounds)
  rw [← whole, List.getElem?_append_left inside] at found
  have kept : decide (low ≤ value) = true :=
    List.mem_takeWhile_imp (p := fun bound => decide (bound ≤ value)) (List.mem_of_getElem? found)
  exact of_decide_eq_true kept

theorem lt_of_getElem?_tierOf {bounds : List ℚ} {value high : ℚ} (found : bounds[tierOf bounds value]? = some high) :
    value < high := by
  have whole := List.takeWhile_append_dropWhile (p := fun bound => decide (bound ≤ value)) (l := bounds)
  have first : (bounds.dropWhile fun bound => decide (bound ≤ value)).head? = some high := by
    have split : (bounds.takeWhile (fun bound => decide (bound ≤ value)) ++
        bounds.dropWhile fun bound => decide (bound ≤ value))[tierOf bounds value]? = some high := by rwa [whole]
    rwa [tierOf, List.getElem?_append_right le_rfl, Nat.sub_self, ← List.head?_eq_getElem?] at split
  have above := List.head?_dropWhile_not (fun bound => decide (bound ≤ value)) bounds
  rw [first] at above
  simpa using above

namespace PerKeyPredictor
variable {platform : Platform} {p : PerKeyPredictor platform}

/-- The indices at which `evaluate` reads the boundaries for the tier that a key had. -/
def boundaryReads (bounds : List ℚ) : Option Nat → List Nat
  | none => []
  | some held => (if held = 0 then [] else [held - 1]) ++ if bounds.length ≤ held then [] else [held]

/-- An estimate within the hysteresis band of its tier. -/
structure InBand (hysteresis : ℚ) (bounds : List ℚ) (tier : Nat) (estimate : ℚ) : Prop where
  above : 0 < tier → ∃ low, bounds[tier - 1]? = some low ∧ low * (1 - hysteresis) ≤ estimate
  below : tier < bounds.length → ∃ high, bounds[tier]? = some high ∧ estimate < high * (1 + hysteresis)

section Tier
variable {bounds : List ℚ} (positive : ∀ bound ∈ bounds, 0 < bound) (band : 0 ≤ p.config.hysteresis)
include positive band

theorem tierOf_inBand (estimate : ℚ) : InBand p.config.hysteresis bounds (tierOf bounds estimate) estimate := by
  refine ⟨fun several => ?_, fun inside => ?_⟩
  · have within : tierOf bounds estimate - 1 < bounds.length := by
      have bound := tierOf_le bounds estimate
      omega
    have found := List.getElem?_eq_getElem within
    refine ⟨_, found, ?_⟩
    have low := le_of_lt_tierOf (Nat.sub_lt several Nat.one_pos) found
    have shift := mul_nonneg (positive _ (List.getElem_mem within)).le band
    linarith
  · have found := List.getElem?_eq_getElem inside
    refine ⟨_, found, ?_⟩
    have high := lt_of_getElem?_tierOf found
    have shift := mul_nonneg (positive _ (List.getElem_mem inside)).le band
    linarith

omit positive band in
theorem heldTier_cases (p : PerKeyPredictor platform) (bounds : List ℚ) (tier : Nat) (estimate : ℚ) :
    p.heldTier bounds (some tier) estimate = tierOf bounds estimate ∨ p.heldTier bounds (some tier) estimate = tier ∧
      (if tier = 0 then 0 else bounds.getD (tier - 1) 0 * (1 - p.config.hysteresis)) ≤ estimate ∧
      (bounds.length ≤ tier ∨ estimate < bounds.getD tier 0 * (1 + p.config.hysteresis)) := by
  unfold heldTier
  dsimp only
  by_cases kept : tier ≠ tierOf bounds estimate ∧ 0 < p.config.hysteresis ∧
      (if tier = 0 then 0 else bounds.getD (tier - 1) 0 * (1 - p.config.hysteresis)) ≤ estimate ∧
      (bounds.length ≤ tier ∨ estimate < bounds.getD tier 0 * (1 + p.config.hysteresis))
  · exact .inr ⟨if_pos kept, kept.2.2⟩
  · exact .inl (if_neg kept)

omit positive band in
theorem heldTier_le {held : Option Nat} (known : ∀ tier ∈ held, tier ≤ bounds.length) (estimate : ℚ) :
    p.heldTier bounds held estimate ≤ bounds.length := by
  cases held with
  | none => exact tierOf_le bounds estimate
  | some tier =>
    rcases heldTier_cases p bounds tier estimate with fresh | ⟨kept, _⟩
    · exact fresh.trans_le (tierOf_le bounds estimate)
    · exact kept.trans_le (known tier rfl)

theorem heldTier_inBand {held : Option Nat} (known : ∀ tier ∈ held, tier ≤ bounds.length) (estimate : ℚ) :
    InBand p.config.hysteresis bounds (p.heldTier bounds held estimate) estimate := by
  have fresh := tierOf_inBand positive band estimate
  cases held with
  | none => exact fresh
  | some tier =>
    have inside := known tier rfl
    rcases heldTier_cases p bounds tier estimate with same | ⟨same, low, high⟩
    · rw [same]
      exact fresh
    · rw [same]
      refine ⟨fun several => ?_, fun within => ?_⟩
      · have found : tier - 1 < bounds.length := by omega
        rw [if_neg several.ne', List.getD_eq_getElem _ _ found] at low
        exact ⟨_, List.getElem?_eq_getElem found, low⟩
      · have below := high.resolve_left (not_le.mpr within)
        rw [List.getD_eq_getElem _ _ within] at below
        exact ⟨_, List.getElem?_eq_getElem within, below⟩

end Tier

/-- What a prediction may be: a tier that exists and an estimate in its band, or the default. -/
structure Correct (c : PerKeyPredictorConfig) (bounds : List ℚ) (prediction : DurationPrediction) : Prop where
  predicted : prediction.status = .predicted → prediction.bucket < c.numLevels.toNat ∧
    ∃ estimate, prediction.estimateMs = some estimate ∧ InBand c.hysteresis bounds prediction.bucket estimate
  fallback : prediction.status ≠ .predicted → prediction.bucket = c.defaultPriority.toNat ∧ prediction.estimateMs = none

theorem fallback_correct {bounds : List ℚ} {status : PredictionStatus} (other : status ≠ .predicted) (seen : Nat) :
    Correct p.config bounds (p.fallback status seen) :=
  ⟨fun predicted => absurd predicted other, fun _ => ⟨rfl, rfl⟩⟩

section Evaluation
variable {timely : Time → Prop} {entry : Entry} {b : BoundarySnapshot} (sound : p.Sound timely)
  (band : 0 ≤ p.config.hysteresis) (admissible : entry.Admissible p.config timely) (shaped : b.Shaped p.config.numLevels.toNat)
include sound admissible shaped

omit sound in
theorem tier_le_length : ∀ tier ∈ entry.tier, tier ≤ b.boundariesMs.length := by
  intro tier held
  have bound := admissible.tier tier held
  have length := shaped.length
  omega

omit sound in
theorem boundaryReads_inside : ∀ index ∈ boundaryReads b.boundariesMs entry.tier, index < b.boundariesMs.length := by
  have inside := tier_le_length admissible shaped
  cases held : entry.tier with
  | none => exact fun _ member => absurd member List.not_mem_nil
  | some tier =>
    have bound := inside tier held
    intro index member
    rcases List.mem_append.mp member with low | high
    · split at low
      · cases low
      · rw [List.mem_singleton.mp low]
        omega
    · split at high
      · cases high
      · rw [List.mem_singleton.mp high]
        omega

include band

theorem evaluate_correct : Correct p.config b.boundariesMs (p.evaluate entry b).1 := by
  unfold evaluate
  dsimp only
  split
  · exact fallback_correct (by decide) _
  · split
    · exact fallback_correct (by decide) _
    · split
      · exact fallback_correct (by decide) _
      · split
        · exact fallback_correct (by decide) _
        · have positive : ∀ bound ∈ b.boundariesMs, 0 < bound := by
            intro bound member
            have valid := shaped.valid (List.ne_nil_of_mem member)
            exact (validBoundaries_iff.mp valid).2.1 bound member
          refine ⟨fun _ => ⟨?_, _, rfl, ?_⟩, fun other => absurd rfl other⟩
          · have bound := heldTier_le (p := p) (tier_le_length admissible shaped) (p.estimate entry.histogram)
            have length := shaped.length
            have levels := sound.checked.levels
            dsimp only
            omega
          · exact heldTier_inBand positive band (tier_le_length admissible shaped) _

end Evaluation

theorem predict_correct {timely : Time → Prop} (sound : p.Sound timely) (band : 0 ≤ p.config.hysteresis) {now : Time}
    (recent : timely now) (key : Bytes) :
    Correct p.config ((p.snapshot.map BoundarySnapshot.boundariesMs).getD []) (p.predict now key).1 := by
  unfold predict
  split
  · exact fallback_correct (by decide) _
  · split
    · exact fallback_correct (by decide) _
    next b present =>
      dsimp only
      split
      · exact fallback_correct (by decide) _
      next entry found =>
        split
        · exact fallback_correct (by decide) _
        · have admissible := ((sound.shards _).keys key entry found).2.2
          rw [present]
          exact evaluate_correct sound band { admissible with timely := recent } (sound.boundaries b present)

end PerKeyPredictor

end Harbinger.Ml
