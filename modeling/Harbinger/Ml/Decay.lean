import Harbinger.Ml.Quantile

/-! The scaled histogram against plain exponential decay. The code lets the weight of new
evidence grow and divides it out now and then; the reference forgets first and then adds
evidence of weight one. What the histogram answers are ratios of weights, so both answer the
same, wherever the point of renormalisation lies. -/

namespace Harbinger.Ml

/-- The calls that change a histogram. -/
inductive Update
  | add (value : ℚ)
  | addCensored
  | shrink (factor : ℚ)

/-- A positive factor of `shrink`. -/
def Update.Positive : Update → Prop
  | .shrink factor => 0 < factor
  | _ => True

/-- `add` takes everything above the range as its end. -/
def Layout.clamp (layout : Layout) (value : ℚ) : ℚ := if layout.maxMs < value then layout.maxMs else value

namespace DecayingHistogram

/-- `renormalize_if_needed` with any threshold. -/
def renormalizeAbove (limit : ℚ) (h : DecayingHistogram) : DecayingHistogram :=
  if h.scale ≤ limit then h
  else { h with
    counts := h.counts.map (· / h.scale)
    total := h.total / h.scale
    sum := h.sum / h.scale
    censored := h.censored / h.scale
    scale := 1 }

/-- The histogram after a call that renormalises at the given threshold. -/
def update (limit : ℚ) (layout : Layout) (h : DecayingHistogram) : Update → DecayingHistogram
  | .add value => renormalizeAbove limit { h with
      counts := h.counts.modify (layout.bin (layout.clamp value)) (· + h.scale)
      total := h.total + h.scale
      sum := h.sum + h.scale * layout.clamp value
      observations := h.observations + 1
      scale := h.scale * h.gain }
  | .addCensored => renormalizeAbove limit { h with censored := h.censored + h.scale, scale := h.scale * h.gain }
  | .shrink factor => h.shrink factor

/-- The reference: forget, then add evidence of weight one. -/
def forget (decay : ℚ) (layout : Layout) (h : DecayingHistogram) : Update → DecayingHistogram
  | .add value =>
    let old := h.shrink decay
    { old with
      counts := old.counts.modify (layout.bin (layout.clamp value)) (· + 1)
      total := old.total + 1
      sum := old.sum + layout.clamp value
      observations := old.observations + 1 }
  | .addCensored =>
    let old := h.shrink decay
    { old with censored := old.censored + 1 }
  | .shrink factor => h.shrink factor

/-- The histogram of the code after the given calls. -/
def scaled (limit decay : ℚ) (layout : Layout) (updates : List Update) : DecayingHistogram :=
  updates.foldl (update limit layout) (create layout.bins decay)

/-- The reference after the same calls. -/
def naive (decay : ℚ) (layout : Layout) (updates : List Update) : DecayingHistogram :=
  updates.foldl (forget decay layout) (create layout.bins decay)

/-- The weights of `h` are those of `reference`, each times the same factor. -/
structure Multiple (factor : ℚ) (h reference : DecayingHistogram) : Prop where
  counts : h.counts = reference.counts.map (· * factor)
  total : h.total = reference.total * factor
  sum : h.sum = reference.sum * factor
  censored : h.censored = reference.censored * factor

/-- The search of `quantile` is the same for proportional weights. -/
theorem quantileFrom_mul (layout : Layout) {factor : ℚ} (positive : 0 < factor) (target : ℚ) :
    ∀ (counts : List ℚ) (index : Nat) (seen : ℚ),
      quantileFrom layout (target * factor) index (seen * factor) (counts.map (· * factor)) =
        quantileFrom layout target index seen counts := by
  intro counts
  induction counts with
  | nil => exact fun _ _ => rfl
  | cons count rest next =>
    intro index seen
    have empty : count * factor ≤ 0 ↔ count ≤ 0 := by
      rw [← not_lt, ← not_lt, mul_pos_iff_of_pos_right positive]
    have reached : target * factor ≤ (seen + count) * factor ↔ target ≤ seen + count :=
      mul_le_mul_iff_left₀ positive
    have share : (target * factor - seen * factor) / (count * factor) = (target - seen) / count := by
      rw [← sub_mul, mul_div_mul_right _ _ positive.ne']
    simp only [List.map_cons, quantileFrom, empty, ← add_mul, reached, share, next]

namespace Multiple
variable {factor : ℚ} {h reference : DecayingHistogram} (multiple : Multiple factor h reference) (positive : 0 < factor)
include multiple positive

theorem quantile (layout : Layout) (q : ℚ) : h.quantile layout q = reference.quantile layout q := by
  have empty : reference.total * factor ≤ 0 ↔ reference.total ≤ 0 := by
    rw [← not_lt, ← not_lt, mul_pos_iff_of_pos_right positive]
  have search := quantileFrom_mul layout positive (max 0 (min q 1) * reference.total) reference.counts 0 0
  rw [zero_mul, mul_assoc] at search
  simp only [DecayingHistogram.quantile, multiple.total, multiple.counts, empty, search]

theorem mean : h.mean = reference.mean := by
  simp only [DecayingHistogram.mean, multiple.total, multiple.sum, mul_pos_iff_of_pos_right positive,
    mul_div_mul_right _ _ positive.ne']

theorem censoredFraction : h.censoredFraction = reference.censoredFraction := by
  simp only [DecayingHistogram.censoredFraction, multiple.total, multiple.censored, ← add_mul,
    mul_pos_iff_of_pos_right positive, mul_div_mul_right _ _ positive.ne']

end Multiple

theorem map_modify_mul (counts : List ℚ) (index : Nat) (weight factor : ℚ) :
    (counts.modify index (· + weight)).map (· * factor) = (counts.map (· * factor)).modify index (· + weight * factor) := by
  refine List.ext_getElem (by simp) fun place first second => ?_
  simp only [List.getElem_map, List.getElem_modify]
  split
  · rw [add_mul]
  · rfl

section Weights
variable {factor decay : ℚ} {h reference : DecayingHistogram}

theorem Multiple.forgotten (multiple : Multiple (factor * decay) h reference) :
    Multiple factor h (reference.shrink decay) := by
  have moved : ∀ weight, weight * (factor * decay) = weight * decay * factor := fun weight => by ring
  exact {
    counts := by
      rw [multiple.counts, shrink, List.map_map]
      exact List.map_congr_left fun weight _ => moved weight
    total := multiple.total.trans (moved _)
    sum := multiple.sum.trans (moved _)
    censored := multiple.censored.trans (moved _) }

theorem Multiple.shrink (multiple : Multiple factor h reference) (lost : ℚ) :
    Multiple factor (h.shrink lost) (reference.shrink lost) := by
  have moved : ∀ weight, weight * factor * lost = weight * lost * factor := fun weight => by ring
  exact {
    counts := by
      simp only [DecayingHistogram.shrink, multiple.counts, List.map_map]
      exact List.map_congr_left fun weight _ => moved weight
    total := (congrArg (· * lost) multiple.total).trans (moved _)
    sum := (congrArg (· * lost) multiple.sum).trans (moved _)
    censored := (congrArg (· * lost) multiple.censored).trans (moved _) }

end Weights

/-- The code is ahead of the reference by the weight of its last piece of evidence. -/
structure Simulates (bins : Nat) (decay : ℚ) (h reference : DecayingHistogram) : Prop where
  gain : h.gain = 1 / decay
  scale : 0 < h.scale
  weights : Multiple (h.scale * decay) h reference
  length : reference.counts.length = bins
  balanced : reference.counts.sum = reference.total

section Steps
variable {layout : Layout} {decay : ℚ} {bins : Nat} {h reference : DecayingHistogram}

theorem Simulates.start (bins : Nat) (decay : ℚ) : Simulates bins decay (create bins decay) (create bins decay) where
  gain := rfl
  scale := zero_lt_one
  weights := ⟨by simp [create], by simp [create], by simp [create], by simp [create]⟩
  length := List.length_replicate
  balanced := by simp [create]

theorem Simulates.renormalizeAbove (simulates : Simulates bins decay h reference) (limit : ℚ) :
    Simulates bins decay (h.renormalizeAbove limit) reference := by
  unfold DecayingHistogram.renormalizeAbove
  split
  · exact simulates
  · have divided : ∀ weight, weight * (h.scale * decay) / h.scale = weight * (1 * decay) := by
      intro weight
      have nonzero := simulates.scale.ne'
      field_simp
    have weights := simulates.weights
    exact { simulates with
      scale := zero_lt_one
      weights := {
        counts := by
          rw [weights.counts, List.map_map]
          exact List.map_congr_left fun weight _ => divided weight
        total := by rw [weights.total, divided]
        sum := by rw [weights.sum, divided]
        censored := by rw [weights.censored, divided] } }

theorem Simulates.update (simulates : Simulates layout.bins decay h reference) (positive : 0 < decay) (limit : ℚ)
    (u : Update) : Simulates layout.bins decay (h.update limit layout u) (reference.forget decay layout u) := by
  have gain := simulates.gain
  -- the new scale stands for one more step of decay
  have grown : h.scale * h.gain * decay = h.scale := by
    rw [gain, mul_assoc, one_div, inv_mul_cancel₀ positive.ne', mul_one]
  have larger : 0 < h.scale * h.gain := by
    rw [gain]
    exact mul_pos simulates.scale (one_div_pos.mpr positive)
  have old : Multiple h.scale h (reference.shrink decay) := simulates.weights.forgotten
  have length : (reference.shrink decay).counts.length = layout.bins := (List.length_map _).trans simulates.length
  have balanced : (reference.shrink decay).counts.sum = (reference.shrink decay).total := by
    simp only [DecayingHistogram.shrink, sum_map_mul, simulates.balanced]
  cases u with
  | add value =>
    refine Simulates.renormalizeAbove ?_ limit
    refine ⟨gain, larger, ?_, (List.length_modify ..).trans length, ?_⟩
    · dsimp only [forget]
      rw [grown]
      exact {
        counts := by rw [old.counts, map_modify_mul, one_mul]
        total := by rw [old.total, add_mul, one_mul]
        sum := by rw [old.sum, add_mul, mul_comm h.scale (layout.clamp value)]
        censored := old.censored }
    · dsimp only [forget]
      rw [sum_modify_add (length ▸ layout.bin_lt _), balanced]
  | addCensored =>
    refine Simulates.renormalizeAbove ?_ limit
    refine ⟨gain, larger, ?_, length, balanced⟩
    dsimp only [forget]
    rw [grown]
    exact { old with censored := by rw [old.censored, add_mul, one_mul] }
  | shrink factor =>
    refine ⟨gain, simulates.scale, simulates.weights.shrink factor, (List.length_map _).trans simulates.length, ?_⟩
    simp only [forget, DecayingHistogram.shrink, sum_map_mul, simulates.balanced]

theorem simulates_run (positive : 0 < decay) (limit : ℚ) (updates : List Update) :
    Simulates layout.bins decay (scaled limit decay layout updates) (naive decay layout updates) := by
  have run : ∀ (updates : List Update) {h reference : DecayingHistogram}, Simulates layout.bins decay h reference →
      Simulates layout.bins decay (updates.foldl (DecayingHistogram.update limit layout) h)
        (updates.foldl (forget decay layout) reference) := by
    intro updates
    induction updates with
    | nil => exact fun known => known
    | cons u rest later => exact fun known => later (known.update positive limit u)
  exact run updates (.start ..)

theorem Simulates.factor_pos (simulates : Simulates bins decay h reference) (positive : 0 < decay) : 0 < h.scale * decay :=
  mul_pos simulates.scale positive

theorem Simulates.total (simulates : Simulates bins decay h reference) : h.counts.sum = h.total := by
  rw [simulates.weights.counts, simulates.weights.total, sum_map_mul, simulates.balanced]

end Steps

/-- What a histogram answers. -/
structure Agree (layout : Layout) (h reference : DecayingHistogram) : Prop where
  quantile : ∀ q, h.quantile layout q = reference.quantile layout q
  mean : h.mean = reference.mean
  censoredFraction : h.censoredFraction = reference.censoredFraction

theorem Simulates.agree {layout : Layout} {bins : Nat} {decay : ℚ} {h reference : DecayingHistogram}
    (simulates : Simulates bins decay h reference) (positive : 0 < decay) : Agree layout h reference where
  quantile := simulates.weights.quantile (simulates.factor_pos positive) layout
  mean := simulates.weights.mean (simulates.factor_pos positive)
  censoredFraction := simulates.weights.censoredFraction (simulates.factor_pos positive)

/-- The scaled histogram is plain exponential decay for every threshold, renormalising it again
changes none of its answers, and its total is the sum of its counts. -/
theorem scaled_agrees_naive (layout : Layout) {decay : ℚ} (decays : 0 < decay ∧ decay ≤ 1) (limit : ℚ) (updates : List Update) :
    Agree layout (scaled limit decay layout updates) (naive decay layout updates) ∧
      (∀ other, Agree layout ((scaled limit decay layout updates).renormalizeAbove other) (scaled limit decay layout updates)) ∧
      (scaled limit decay layout updates).counts.sum = (scaled limit decay layout updates).total := by
  have simulates : Simulates layout.bins decay (scaled limit decay layout updates) (naive decay layout updates) :=
    simulates_run decays.1 limit updates
  have agree : Agree layout (scaled limit decay layout updates) (naive decay layout updates) := simulates.agree decays.1
  refine ⟨agree, fun other => ?_, simulates.total⟩
  have again : Agree layout ((scaled limit decay layout updates).renormalizeAbove other) (naive decay layout updates) :=
    (simulates.renormalizeAbove other).agree decays.1
  exact {
    quantile := fun q => (again.quantile q).trans (agree.quantile q).symm
    mean := again.mean.trans agree.mean.symm
    censoredFraction := again.censoredFraction.trans agree.censoredFraction.symm }

/-- Three calls that renormalise each time. -/
theorem scaled_agrees_naive_thrice : Agree sampleLayout (scaled 1 (1 / 2) sampleLayout [.add 3, .addCensored, .add 200])
    (naive (1 / 2) sampleLayout [.add 3, .addCensored, .add 200]) :=
  (scaled_agrees_naive sampleLayout (by norm_num) 1 _).1

end DecayingHistogram

end Harbinger.Ml
