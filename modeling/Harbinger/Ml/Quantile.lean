import Harbinger.Ml.Histogram
import Harbinger.Ml.Book

/-! Quantiles of a histogram whose weights add up to its total increase strictly, so its level
boundaries are never degenerate: the first refresh with enough samples publishes. -/

namespace Harbinger.Ml

theorem Layout.lower_lt_upper (layout : Layout) (index : Nat) : layout.lower index < layout.upper index := by
  cases index with
  | zero => exact layout.positive.trans_eq layout.first.symm
  | succ index => exact layout.increasing (Nat.lt_succ_self index)

namespace DecayingHistogram
variable {layout : Layout} {counts : List ℚ}

theorem lower_lt_quantileFrom {target : ℚ} : ∀ {counts : List ℚ} {index : Nat} {seen : ℚ}, seen < target →
    target ≤ seen + counts.sum → layout.lower index < quantileFrom layout target index seen counts := by
  intro counts
  induction counts with
  | nil =>
    intro index seen above within
    rw [List.sum_nil, add_zero] at within
    exact absurd within (not_le.mpr above)
  | cons count rest next =>
    intro index seen above within
    have up := layout.lower_lt_upper index
    rw [List.sum_cons] at within
    unfold quantileFrom
    split
    next empty =>
      have further : layout.lower (index + 1) < quantileFrom layout target (index + 1) seen rest :=
        next above (by linarith)
      exact up.trans further
    next full =>
      have weight : 0 < count := not_le.mp full
      split
      · have share : 0 < (target - seen) / count := div_pos (sub_pos.mpr above) weight
        have step := mul_pos share (sub_pos.mpr up)
        linarith
      next beyond =>
        have further : layout.lower (index + 1) < quantileFrom layout target (index + 1) (seen + count) rest :=
          next (not_le.mp beyond) (by linarith)
        exact up.trans further

theorem quantileFrom_lt {low high : ℚ} (ordered : low < high) : ∀ {counts : List ℚ} {index : Nat} {seen : ℚ}, seen < low →
    high ≤ seen + counts.sum → quantileFrom layout low index seen counts < quantileFrom layout high index seen counts := by
  intro counts
  induction counts with
  | nil =>
    intro index seen above within
    rw [List.sum_nil, add_zero] at within
    exact absurd within (not_le.mpr (above.trans ordered))
  | cons count rest next =>
    intro index seen above within
    have up := layout.lower_lt_upper index
    rw [List.sum_cons] at within
    unfold quantileFrom
    split
    next empty => exact next above (by linarith)
    next full =>
      have weight : 0 < count := not_le.mp full
      by_cases here : high ≤ seen + count
      · rw [if_pos (ordered.le.trans here), if_pos here]
        have shares : (low - seen) / count < (high - seen) / count := by gcongr
        have steps := mul_lt_mul_of_pos_right shares (sub_pos.mpr up)
        linarith
      · rw [if_neg here]
        have beyond : layout.lower (index + 1) < quantileFrom layout high (index + 1) (seen + count) rest :=
          lower_lt_quantileFrom (not_le.mp here) (by linarith)
        split
        next inside =>
          have share : (low - seen) / count ≤ 1 := (div_le_one weight).mpr (by linarith)
          have step := mul_le_mul_of_nonneg_right share (sub_nonneg.mpr up.le)
          calc layout.lower index + (low - seen) / count * (layout.upper index - layout.lower index)
              ≤ layout.upper index := by linarith
            _ < quantileFrom layout high (index + 1) (seen + count) rest := beyond
        next outside => exact next (not_le.mp outside) (by linarith)

section Exact
variable {h : DecayingHistogram} (weighed : 0 < h.total) (exact : h.counts.sum = h.total)
include weighed exact

theorem quantile_pos {q : ℚ} (positive : 0 < q) (small : q ≤ 1) : 0 < h.quantile layout q := by
  rw [quantile, if_neg (not_le.mpr weighed), min_eq_left small, max_eq_right positive.le]
  have within : q * h.total ≤ 0 + h.counts.sum := by
    rw [exact, zero_add]
    exact mul_le_of_le_one_left weighed.le small
  have above : layout.lower 0 < quantileFrom layout (q * h.total) 0 0 h.counts :=
    lower_lt_quantileFrom (mul_pos positive weighed) within
  exact above

theorem quantile_lt {low high : ℚ} (positive : 0 < low) (ordered : low < high) (small : high ≤ 1) :
    h.quantile layout low < h.quantile layout high := by
  have weighed' := not_le.mpr weighed
  rw [quantile, quantile, if_neg weighed', if_neg weighed', min_eq_left (ordered.le.trans small), min_eq_left small,
    max_eq_right positive.le, max_eq_right (positive.trans ordered).le]
  refine quantileFrom_lt (mul_lt_mul_of_pos_right ordered weighed) (mul_pos positive weighed) ?_
  rw [exact, zero_add]
  exact mul_le_of_le_one_left weighed.le small

variable (layout) in
/-- The quantiles between the levels are valid boundaries. -/
theorem validBoundaries_quantiles {levels : Nat} (several : 2 ≤ levels) :
    PerKeyPredictor.validBoundaries ((List.range (levels - 1)).map fun index =>
      h.quantile layout ((index + 1 : Nat) / (levels : ℚ))) = true := by
  have size : (0 : ℚ) < levels := Nat.cast_pos.mpr (by omega)
  have positive : ∀ index : Nat, 0 < ((index + 1 : Nat) : ℚ) / levels := fun index =>
    div_pos (Nat.cast_pos.mpr index.succ_pos) size
  have small : ∀ index ∈ List.range (levels - 1), ((index + 1 : Nat) : ℚ) / levels ≤ 1 := by
    intro index member
    have inside := List.mem_range.mp member
    exact (div_le_one size).mpr (Nat.cast_le.mpr (by omega))
  have chain : ((List.range (levels - 1)).map fun index =>
      h.quantile layout ((index + 1 : Nat) / (levels : ℚ))).Pairwise (· < ·) := by
    rw [List.pairwise_map]
    refine List.pairwise_lt_range.imp_of_mem fun first second ordered => ?_
    refine quantile_lt weighed exact (positive _) ?_ (small _ second)
    exact div_lt_div_of_pos_right (Nat.cast_lt.mpr (Nat.succ_lt_succ ordered)) size
  obtain ⟨rest, more⟩ : ∃ rest, levels - 1 = rest + 1 := ⟨levels - 2, by omega⟩
  have first : ((List.range (levels - 1)).map fun index =>
      h.quantile layout ((index + 1 : Nat) / (levels : ℚ))).head?.any (0 < ·) = true := by
    have member : 0 ∈ List.range (levels - 1) := List.mem_range.mpr (by omega)
    have above : 0 < h.quantile layout ((0 + 1 : Nat) / (levels : ℚ)) :=
      quantile_pos weighed exact (positive 0) (small 0 member)
    rw [more, List.range_succ_eq_map]
    exact decide_eq_true above
  rw [PerKeyPredictor.validBoundaries, first, Bool.true_and, decide_eq_true_eq]
  exact chain.isChain

end Exact

theorem renormalizeIfNeeded_exact {h : DecayingHistogram} (exact : h.counts.sum = h.total) :
    h.renormalizeIfNeeded.counts.sum = h.renormalizeIfNeeded.total := by
  rw [renormalizeIfNeeded_eq]
  split
  · exact exact
  · change (h.counts.map (· * (1 / h.scale))).sum = h.total * (1 / h.scale)
    rw [sum_map_mul, exact]

theorem renormalizeIfNeeded_pos {h : DecayingHistogram} (scaled : 0 < h.scale) (weighed : 0 < h.total) :
    0 < h.renormalizeIfNeeded.total := by
  rw [renormalizeIfNeeded_eq]
  split
  · exact weighed
  · exact mul_pos weighed (one_div_pos.mpr scaled)

theorem add_exact {h : DecayingHistogram} (length : h.counts.length = layout.bins) (exact : h.counts.sum = h.total) (value : ℚ) :
    (h.add layout value).1.counts.sum = (h.add layout value).1.total := by
  refine renormalizeIfNeeded_exact ?_
  dsimp only
  rw [sum_modify_add (length ▸ layout.bin_lt _), exact]

theorem add_pos {bins : Nat} {decay : ℚ} {h : DecayingHistogram} (consistent : Consistent bins decay h) (positive : 0 < decay)
    (small : decay ≤ 1) (value : ℚ) : 0 < (h.add layout value).1.total := by
  refine renormalizeIfNeeded_pos (zero_lt_one.trans_le (consistent.grown positive small)) ?_
  exact add_pos_of_nonneg_of_pos consistent.total (zero_lt_one.trans_le consistent.scaled)

end DecayingHistogram

namespace Book
variable {platform : Platform} {b : Book platform}

/-- The global histogram is what the observations since the start make it. -/
structure Healthy (b : Book platform) : Prop where
  global : b.global.Consistent b.layout.bins b.config.globalDecay
  decay : 0 < b.config.globalDecay ∧ b.config.globalDecay ≤ 1
  exact : b.global.counts.sum = b.global.total

/-- An observation publishes boundaries as soon as there are enough samples. -/
theorem Healthy.observeGlobal (healthy : b.Healthy) {duration : ℚ} (measured : 0 ≤ duration) :
    (b.observeGlobal duration).Healthy ∧ ((b.observeGlobal duration).boundaries.isSome ↔
      b.boundaries.isSome ∨ (1 < b.config.numLevels ∧ b.config.globalMinSamples ≤ b.globalObservations + 1)) := by
  have consistent := healthy.global.add healthy.decay.1 healthy.decay.2 measured
  have exact := DecayingHistogram.add_exact healthy.global.length healthy.exact duration
  have weighed : 0 < (b.global.add b.layout duration).1.total :=
    DecayingHistogram.add_pos healthy.global healthy.decay.1 healthy.decay.2 duration
  simp only [Book.observeGlobal]
  split
  next due =>
    refine ⟨⟨consistent, healthy.decay, exact⟩, iff_of_true ?_ (.inr ⟨due.1, due.2.1⟩)⟩
    have several : 2 ≤ b.config.numLevels.toNat := UInt8.lt_iff_toNat_lt.mp due.1
    have valid := DecayingHistogram.validBoundaries_quantiles b.layout weighed exact several
    simp only [refreshed, valid, Bool.not_true, Bool.false_eq_true, if_false]
    split <;> rfl
  next idle =>
    refine ⟨⟨consistent, healthy.decay, exact⟩, (or_iff_left_of_imp fun enough => ?_).symm⟩
    by_contra missing
    exact idle ⟨enough.1, enough.2, .inl (Option.not_isSome_iff_eq_none.mp missing)⟩

end Book

end Harbinger.Ml
