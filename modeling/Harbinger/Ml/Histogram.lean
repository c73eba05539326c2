import Harbinger.Ml.Predictor

/-! What every histogram of a predictor satisfies: its weights are not negative, they add up to
the total within the tolerance of `load`, and the scale stays between one and the point of
renormalisation. Each operation is a shrinking, an addition, or both. -/

namespace Harbinger.Ml

theorem sum_modify_add {counts : List ℚ} {index : Nat} (inside : index < counts.length) (weight : ℚ) :
    (counts.modify index (· + weight)).sum = counts.sum + weight := by
  induction counts generalizing index with
  | nil => exact absurd inside (Nat.not_lt_zero _)
  | cons count rest known =>
    cases index with
    | zero =>
      rw [List.modify_zero_cons, List.sum_cons, List.sum_cons]
      ring
    | succ index =>
      rw [List.modify_succ_cons, List.sum_cons, List.sum_cons, known (Nat.lt_of_succ_lt_succ inside)]
      ring

theorem nonneg_modify_add {counts : List ℚ} (old : ∀ count ∈ counts, 0 ≤ count) (index : Nat) {weight : ℚ}
    (more : 0 ≤ weight) : ∀ count ∈ counts.modify index (· + weight), 0 ≤ count := by
  intro count member
  obtain ⟨place, bound, rfl⟩ := List.mem_iff_getElem.mp member
  have inside : place < counts.length := (List.length_modify ..) ▸ bound
  have before := old counts[place] (List.getElem_mem inside)
  rw [List.getElem_modify]
  split
  · exact add_nonneg before more
  · exact before

theorem sum_map_mul (counts : List ℚ) (factor : ℚ) : (counts.map (· * factor)).sum = counts.sum * factor := by
  induction counts with
  | nil => simp
  | cons count rest known => rw [List.map_cons, List.sum_cons, List.sum_cons, known, add_mul]

theorem Layout.bin_lt (layout : Layout) (value : ℚ) : layout.bin value < layout.bins := by
  have enough := layout.enough
  unfold bin
  split
  · omega
  · omega

namespace DecayingHistogram

def tolerance : ℚ := 1 / 1000000

/-- A histogram with `bins` bins that forgets with the given decay. -/
structure Consistent (bins : Nat) (decay : ℚ) (h : DecayingHistogram) : Prop where
  length : h.counts.length = bins
  gain : h.gain = 1 / decay
  counts : ∀ count ∈ h.counts, 0 ≤ count
  total : 0 ≤ h.total
  sum : 0 ≤ h.sum
  censored : 0 ≤ h.censored
  scaled : 1 ≤ h.scale
  bounded : h.scale ≤ renormalizeAt * 2
  balanced : |h.counts.sum - h.total| ≤ tolerance * max 1 h.total

variable {bins : Nat} {decay : ℚ} {h : DecayingHistogram}

theorem Consistent.create (bins : Nat) (decay : ℚ) : Consistent bins decay (create bins decay) where
  length := List.length_replicate
  gain := rfl
  counts := fun count member => (List.eq_of_mem_replicate member).ge
  total := le_rfl
  sum := le_rfl
  censored := le_rfl
  scaled := le_rfl
  bounded := by norm_num [DecayingHistogram.create, renormalizeAt]
  balanced := by
    rw [show (DecayingHistogram.create bins decay).counts.sum = 0 from by simp [DecayingHistogram.create]]
    norm_num [DecayingHistogram.create, tolerance]

theorem Consistent.shrink (consistent : Consistent bins decay h) {factor : ℚ} (positive : 0 ≤ factor)
    (small : factor ≤ 1) : Consistent bins decay (h.shrink factor) := by
  have total := consistent.total
  exact { consistent with
    length := (List.length_map _).trans consistent.length
    counts := List.forall_mem_map.mpr fun count member => mul_nonneg (consistent.counts count member) positive
    total := mul_nonneg total positive
    sum := mul_nonneg consistent.sum positive
    censored := mul_nonneg consistent.censored positive
    balanced := by
      have scaled : max 1 h.total * factor ≤ max 1 (h.total * factor) := by
        rw [max_mul_of_nonneg _ _ positive, one_mul]
        exact max_le_max small le_rfl
      calc |(h.counts.map (· * factor)).sum - h.total * factor|
          = |h.counts.sum - h.total| * factor := by rw [sum_map_mul, ← sub_mul, abs_mul, abs_of_nonneg positive]
        _ ≤ tolerance * max 1 h.total * factor := mul_le_mul_of_nonneg_right consistent.balanced positive
        _ = tolerance * (max 1 h.total * factor) := mul_assoc ..
        _ ≤ tolerance * max 1 (h.total * factor) := mul_le_mul_of_nonneg_left scaled (by norm_num [tolerance]) }

theorem renormalizeIfNeeded_eq (h : DecayingHistogram) :
    h.renormalizeIfNeeded = if h.scale ≤ renormalizeAt then h else { h.shrink (1 / h.scale) with scale := 1 } := by
  simp only [renormalizeIfNeeded, DecayingHistogram.shrink, mul_one_div]

theorem Consistent.renormalizeIfNeeded {scale : ℚ} (consistent : Consistent bins decay h) (scaled : 1 ≤ scale) :
    Consistent bins decay { h with scale }.renormalizeIfNeeded := by
  rw [renormalizeIfNeeded_eq]
  split
  next small =>
    have limit : (0 : ℚ) ≤ renormalizeAt := by norm_num [renormalizeAt]
    have bounded : scale ≤ renormalizeAt * 2 := small.trans (by linarith)
    exact { consistent with scaled, bounded }
  · have shrunk := consistent.shrink (one_div_nonneg.mpr (zero_le_one.trans scaled))
      ((div_le_one (zero_lt_one.trans_le scaled)).mpr scaled)
    exact { shrunk with scaled := le_rfl, bounded := by norm_num [renormalizeAt] }

theorem Consistent.grown (consistent : Consistent bins decay h) (positive : 0 < decay) (small : decay ≤ 1) :
    1 ≤ h.scale * h.gain := by
  rw [consistent.gain]
  have gained : 1 ≤ 1 / decay := (one_le_div positive).mpr small
  exact one_le_mul_of_one_le_of_one_le consistent.scaled gained

theorem Consistent.addCensored (consistent : Consistent bins decay h) (positive : 0 < decay) (small : decay ≤ 1) :
    Consistent bins decay h.addCensored := by
  have weighed : Consistent bins decay { h with censored := h.censored + h.scale } :=
    { consistent with censored := add_nonneg consistent.censored (zero_le_one.trans consistent.scaled) }
  exact weighed.renormalizeIfNeeded (consistent.grown positive small)

theorem Consistent.add {layout : Layout} (consistent : Consistent layout.bins decay h) (positive : 0 < decay)
    (small : decay ≤ 1) {value : ℚ} (measured : 0 ≤ value) : Consistent layout.bins decay (h.add layout value).1 := by
  have weight : 0 ≤ h.scale := zero_le_one.trans consistent.scaled
  simp only [DecayingHistogram.add]
  generalize clamp : (if decide (layout.maxMs < value) = true then layout.maxMs else value) = clamped
  have nonnegative : 0 ≤ clamped := by
    have top := layout.increasing.monotone (Nat.zero_le (layout.bins - 1))
    rw [layout.first, layout.last] at top
    rw [← clamp]
    split
    · exact layout.positive.le.trans top
    · exact measured
  have inside : layout.bin clamped < h.counts.length := by
    rw [consistent.length]
    exact layout.bin_lt clamped
  have weighed : Consistent layout.bins decay { h with
      counts := h.counts.modify (layout.bin clamped) (· + h.scale), total := h.total + h.scale
      sum := h.sum + h.scale * clamped, observations := h.observations + 1 } := { consistent with
    length := (List.length_modify _ _ _).trans consistent.length
    counts := nonneg_modify_add consistent.counts _ weight
    total := add_nonneg consistent.total weight
    sum := add_nonneg consistent.sum (mul_nonneg weight nonnegative)
    balanced := by
      rw [sum_modify_add inside, add_sub_add_right_eq_sub]
      refine consistent.balanced.trans (mul_le_mul_of_nonneg_left (max_le_max le_rfl ?_) (by norm_num [tolerance]))
      exact le_add_of_nonneg_right weight }
  exact weighed.renormalizeIfNeeded (consistent.grown positive small)

end DecayingHistogram

end Harbinger.Ml
