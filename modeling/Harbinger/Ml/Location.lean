import Harbinger.Ml.Decay
import Harbinger.Statistics.Sample

/-! Where the quantiles of a histogram lie: in the bin of the quantile that the clamped
observations have, each weighted by what decay has left of it. -/

namespace Harbinger.Ml

namespace Layout
variable (layout : Layout)

theorem bin_mono : Monotone layout.bin := by
  intro low high ordered
  unfold bin
  split
  · exact Nat.zero_le _
  next above =>
    rw [if_neg fun below => above (ordered.trans_lt below)]
    refine min_le_min (List.countP_mono_left fun index _ small => ?_) le_rfl
    exact decide_eq_true ((of_decide_eq_true small).trans ordered)

theorem upper_bin_le (value : ℚ) : layout.upper (layout.bin value) ≤ layout.upper (layout.bins - 1) :=
  layout.increasing.monotone (Nat.le_sub_one_of_lt (layout.bin_lt value))

end Layout

namespace DecayingHistogram
variable {layout : Layout}

/-- The search ends in the bin in which the cumulated weight passes the target. -/
theorem quantileFrom_location {target : ℚ} : ∀ {counts : List ℚ} (place : Nat) {index : Nat} {seen : ℚ},
    (∀ count ∈ counts, 0 ≤ count) → seen + (counts.take place).sum < target →
    target ≤ seen + (counts.take (place + 1)).sum →
    layout.lower (index + place) < quantileFrom layout target index seen counts ∧
      quantileFrom layout target index seen counts ≤ layout.upper (index + place) := by
  intro counts
  induction counts with
  | nil =>
    intro place index seen _ before within
    simp only [List.take_nil] at before within
    exact absurd within (not_le.mpr before)
  | cons count rest next =>
    intro place index seen nonneg before within
    have here : 0 ≤ count := nonneg count (List.mem_cons_self ..)
    have others : ∀ other ∈ rest, 0 ≤ other := fun other member => nonneg other (List.mem_cons_of_mem _ member)
    have up := layout.lower_lt_upper index
    cases place with
    | zero =>
      simp only [List.take_zero, List.sum_nil, add_zero, List.take_succ_cons, List.sum_cons] at before within
      have weight : 0 < count := by linarith
      rw [quantileFrom, if_neg (not_le.mpr weight), if_pos within]
      have share : 0 < (target - seen) / count := div_pos (by linarith) weight
      have most : (target - seen) / count ≤ 1 := (div_le_one weight).mpr (by linarith)
      have step := mul_pos share (sub_pos.mpr up)
      have whole := mul_le_mul_of_nonneg_right most (sub_nonneg.mpr up.le)
      exact ⟨by rw [add_zero]; linarith, by rw [add_zero]; linarith⟩
    | succ place =>
      simp only [List.take_succ_cons, List.sum_cons, ← add_assoc] at before within
      have further : layout.lower (index + 1 + place) < quantileFrom layout target (index + 1) (seen + count) rest ∧
          quantileFrom layout target (index + 1) (seen + count) rest ≤ layout.upper (index + 1 + place) :=
        next place others before within
      rw [show index + 1 + place = index + (place + 1) by omega] at further
      rw [quantileFrom]
      split
      next empty =>
        rw [show seen + count = seen by linarith] at further
        exact further
      next full =>
        have rest_nonneg : 0 ≤ (rest.take place).sum :=
          List.sum_nonneg fun other member => others other (List.mem_of_mem_take member)
        rw [if_neg (by linarith)]
        exact further

/-- The clamped observations after one more call, weighted as in the reference. -/
def observed (decay : ℚ) (layout : Layout) (sample : List (ℚ × ℚ)) : Update → List (ℚ × ℚ)
  | .add value => (layout.clamp value, 1) :: Sample.scale decay sample
  | .addCensored => Sample.scale decay sample
  | .shrink factor => Sample.scale factor sample

/-- The weighted observations of a sequence of calls. -/
def sampled (decay : ℚ) (layout : Layout) (updates : List Update) : List (ℚ × ℚ) :=
  updates.foldl (observed decay layout) []

/-- The histogram counts the sample by bins. -/
structure Bins (layout : Layout) (h : DecayingHistogram) (sample : List (ℚ × ℚ)) : Prop where
  counts : h.counts = (List.range layout.bins).map fun index => Sample.weight sample (layout.bin · = index)
  total : h.total = Sample.total sample

section Steps
variable {h : DecayingHistogram} {sample : List (ℚ × ℚ)} {decay : ℚ}

theorem Bins.start (layout : Layout) (decay : ℚ) : Bins layout (create layout.bins decay) [] where
  counts := by simp [create, Sample.weight]
  total := rfl

theorem Bins.shrink (bins : Bins layout h sample) (factor : ℚ) :
    Bins layout (h.shrink factor) (Sample.scale factor sample) where
  counts := by
    simp only [DecayingHistogram.shrink, bins.counts, List.map_map, Sample.weight_scale]
    rfl
  total := by rw [Sample.total_scale, ← bins.total]; rfl

theorem Bins.forget (bins : Bins layout h sample) (u : Update) :
    Bins layout (h.forget decay layout u) (observed decay layout sample u) := by
  cases u with
  | add value =>
    have old := bins.shrink decay
    constructor
    · simp only [DecayingHistogram.forget, observed]
      rw [old.counts]
      refine List.ext_getElem (by simp) fun place first second => ?_
      simp only [List.getElem_modify, List.getElem_map, List.getElem_range, Sample.weight_cons]
      split
      · rw [add_comm]
      · rw [zero_add]
    · simp only [DecayingHistogram.forget, observed]
      rw [old.total, Sample.total, Sample.total, List.map_cons, List.sum_cons, add_comm]
  | addCensored => exact { bins.shrink decay with }
  | shrink factor => exact bins.shrink factor

theorem bins_run (updates : List Update) : Bins layout (naive decay layout updates) (sampled decay layout updates) := by
  have run : ∀ (updates : List Update) {h : DecayingHistogram} {sample : List (ℚ × ℚ)}, Bins layout h sample →
      Bins layout (updates.foldl (DecayingHistogram.forget decay layout) h) (updates.foldl (observed decay layout) sample) := by
    intro updates
    induction updates with
    | nil => exact fun known => known
    | cons u rest later => exact fun known => later (known.forget u)
  exact run updates (.start layout decay)

theorem Bins.sum_take (bins : Bins layout h sample) {place : Nat} (inside : place ≤ layout.bins) :
    (h.counts.take place).sum = Sample.weight sample (layout.bin · < place) := by
  induction place with
  | zero =>
    have none : (sample.filter fun item => layout.bin item.1 < 0) = [] := by simp
    rw [List.take_zero, List.sum_nil, Sample.weight, none]
    rfl
  | succ place known =>
    have bound : place < h.counts.length := by simpa [bins.counts] using inside
    have split : Sample.weight sample (layout.bin · < place + 1) =
        Sample.weight sample (layout.bin · < place) + Sample.weight sample (layout.bin · = place) := by
      rw [← Sample.weight_or fun value below => below.ne]
      exact Sample.weight_congr fun value => Nat.lt_succ_iff_lt_or_eq
    have here : h.counts[place] = Sample.weight sample (layout.bin · = place) := by
      simp only [bins.counts, List.getElem_map, List.getElem_range]
    rw [List.sum_take_succ _ _ bound, known (Nat.le_of_succ_le inside), here, split]

theorem observed_pos (positive : 0 < decay) {u : Update} (allowed : u.Positive) (weighty : ∀ item ∈ sample, 0 < item.2) :
    ∀ item ∈ observed decay layout sample u, 0 < item.2 := by
  have scaled : ∀ factor : ℚ, 0 < factor → ∀ item ∈ Sample.scale factor sample, 0 < item.2 := fun factor more =>
    List.forall_mem_map.mpr fun item member => mul_pos (weighty item member) more
  cases u with
  | add value => exact List.forall_mem_cons.mpr ⟨zero_lt_one, scaled decay positive⟩
  | addCensored => exact scaled decay positive
  | shrink factor => exact scaled factor allowed

theorem sampled_pos (positive : 0 < decay) {updates : List Update} (allowed : ∀ u ∈ updates, u.Positive) :
    ∀ item ∈ sampled decay layout updates, 0 < item.2 := by
  have run : ∀ (updates : List Update) {sample : List (ℚ × ℚ)}, (∀ u ∈ updates, u.Positive) → (∀ item ∈ sample, 0 < item.2) →
      ∀ item ∈ updates.foldl (observed decay layout) sample, 0 < item.2 := by
    intro updates
    induction updates with
    | nil => exact fun _ known => known
    | cons u rest later =>
      intro sample allowed known
      obtain ⟨here, others⟩ := List.forall_mem_cons.mp allowed
      exact later others (observed_pos positive here known)
  exact run updates allowed (by simp)

theorem sampled_ne_nil {updates : List Update} {value : ℚ} (member : .add value ∈ updates) :
    sampled decay layout updates ≠ [] := by
  have keeps : ∀ (updates : List Update) {sample : List (ℚ × ℚ)}, sample ≠ [] →
      updates.foldl (observed decay layout) sample ≠ [] := by
    intro updates
    induction updates with
    | nil => exact fun known => known
    | cons u rest later =>
      intro sample known
      refine later ?_
      cases u <;> simp [observed, Sample.scale, known]
  obtain ⟨before, after, rfl⟩ := List.append_of_mem member
  rw [sampled, List.foldl_append, List.foldl_cons]
  exact keeps after (List.cons_ne_nil _ _)

/-- The answer of a histogram lies in the bin of the quantile of what it counts. -/
theorem Bins.quantile_location (bins : Bins layout h sample) (weighty : ∀ item ∈ sample, 0 < item.2) {q value : ℚ}
    (positive : 0 < q) (small : q ≤ 1) (quantile : Sample.IsQuantile sample q value) :
    layout.lower (layout.bin value) < h.quantile layout q ∧ h.quantile layout q ≤ layout.upper (layout.bin value) := by
  have nonneg : ∀ item ∈ sample, 0 ≤ item.2 := fun item member => (weighty item member).le
  have nonempty : sample ≠ [] := by
    rintro rfl
    exact absurd quantile.1.1 List.not_mem_nil
  have heavy := Sample.total_pos weighty nonempty
  have share : 0 < q * Sample.total sample := mul_pos positive heavy
  have counts : ∀ count ∈ h.counts, 0 ≤ count := by
    rw [bins.counts]
    exact List.forall_mem_map.mpr fun index _ => Sample.weight_nonneg nonneg _
  have inside := layout.bin_lt value
  rw [DecayingHistogram.quantile, bins.total, if_neg (not_le.mpr heavy), min_eq_left small, max_eq_right positive.le]
  have before : 0 + (h.counts.take (layout.bin value)).sum < q * Sample.total sample := by
    rw [zero_add, bins.sum_take inside.le]
    -- a value in an earlier bin is smaller
    refine (Sample.weight_mono nonneg fun item _ earlier => ?_).trans_lt (quantile.below nonneg share)
    exact lt_of_not_ge fun larger => absurd (layout.bin_mono larger) (not_le.mpr earlier)
  have within : q * Sample.total sample ≤ 0 + (h.counts.take (layout.bin value + 1)).sum := by
    rw [zero_add, bins.sum_take inside]
    exact quantile.1.2.trans (Sample.weight_mono nonneg fun item _ below => Nat.lt_succ_of_le (layout.bin_mono below))
  have found : layout.lower (0 + layout.bin value) < _ ∧ _ ≤ layout.upper (0 + layout.bin value) :=
    quantileFrom_location (layout.bin value) counts before within
  rwa [zero_add] at found

end Steps

/-- What a histogram that has seen something answers: positive values that increase strictly, at
most the end of the last bin, each in the bin of the quantile of the observations. -/
structure Faithful (layout : Layout) (sample : List (ℚ × ℚ)) (h : DecayingHistogram) : Prop where
  increasing : ∀ low high, 0 < low → low < high → high ≤ 1 → h.quantile layout low < h.quantile layout high
  positive : ∀ q, 0 < q → q ≤ 1 → 0 < h.quantile layout q
  bounded : ∀ q, 0 < q → q ≤ 1 → h.quantile layout q ≤ layout.upper (layout.bins - 1)
  located : ∀ q, 0 < q → q ≤ 1 → ∃ value, Sample.IsQuantile sample q value ∧
    layout.lower (layout.bin value) < h.quantile layout q ∧ h.quantile layout q ≤ layout.upper (layout.bin value)

theorem scaled_faithful {decay : ℚ} (positive : 0 < decay) (limit : ℚ) {updates : List Update}
    (allowed : ∀ u ∈ updates, u.Positive) {value : ℚ} (member : .add value ∈ updates) :
    Faithful layout (sampled decay layout updates) (scaled limit decay layout updates) := by
  have simulates : Simulates layout.bins decay (scaled limit decay layout updates) (naive decay layout updates) :=
    simulates_run positive limit updates
  have agree : Agree layout _ _ := simulates.agree positive
  have weighty : ∀ item ∈ sampled decay layout updates, 0 < item.2 := sampled_pos positive allowed
  have nonempty : sampled decay layout updates ≠ [] := sampled_ne_nil member
  have bins : Bins layout (naive decay layout updates) (sampled decay layout updates) := bins_run updates
  have heavy : 0 < (naive decay layout updates).total := bins.total ▸ Sample.total_pos weighty nonempty
  have located : ∀ q, 0 < q → q ≤ 1 → ∃ value, Sample.IsQuantile (sampled decay layout updates) q value ∧
      layout.lower (layout.bin value) < (naive decay layout updates).quantile layout q ∧
        (naive decay layout updates).quantile layout q ≤ layout.upper (layout.bin value) := by
    intro q more small
    obtain ⟨value, quantile⟩ := Sample.exists_quantile weighty nonempty small
    exact ⟨value, quantile, bins.quantile_location weighty more small quantile⟩
  exact {
    increasing := fun low high more ordered small => by
      rw [agree.quantile, agree.quantile]
      exact quantile_lt heavy simulates.balanced more ordered small
    positive := fun q more small => by
      rw [agree.quantile]
      exact quantile_pos heavy simulates.balanced more small
    bounded := fun q more small => by
      rw [agree.quantile]
      obtain ⟨value, _, _, upper⟩ := located q more small
      exact upper.trans (layout.upper_bin_le value)
    located := fun q more small => by
      rw [agree.quantile]
      exact located q more small }

end DecayingHistogram

end Harbinger.Ml
