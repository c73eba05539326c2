import Harbinger.Ml.Boundaries

/-! What the tier boundaries are made of: a machine that is told the durations and nothing else. Every
predictor runs this machine beside its keys, so keys, parents, caps, evictions and clocks
have no effect on the boundaries. -/

namespace Harbinger.Ml

/-- The settings that the boundaries depend on, the global histogram, and what was published. -/
@[ext] structure Scale where
  numLevels : UInt8
  globalMinSamples : Nat
  boundaryRefreshEvery : Nat
  hysteresis : ℚ
  layout : Layout
  global : DecayingHistogram
  observations : Nat
  snapshot : Option BoundarySnapshot
  published : Nat

namespace Scale

def fresh (s : Scale) : List ℚ :=
  (List.range (s.numLevels.toNat - 1)).map fun index =>
    s.global.quantile s.layout ((index + 1 : Nat) / (s.numLevels.toNat : ℚ))

/-- A boundary that moved little stays, unless the boundaries would then be out of order. -/
def chosen (s : Scale) (old : List ℚ) : List ℚ :=
  let held := List.zipWith (fun fresh old => if |fresh - old| ≤ s.hysteresis * old then old else fresh) s.fresh old
  if PerKeyPredictor.validBoundaries held then held else s.fresh

def publish (s : Scale) (boundariesMs : List ℚ) : Scale :=
  { s with snapshot := some ⟨s.published + 1, boundariesMs⟩, published := s.published + 1 }

def refresh (s : Scale) : Scale :=
  if !PerKeyPredictor.validBoundaries s.fresh then s
  else match s.snapshot with
    | none => s.publish s.fresh
    | some current =>
      if s.chosen current.boundariesMs = current.boundariesMs then s else s.publish (s.chosen current.boundariesMs)

def count (s : Scale) (duration : ℚ) : Scale :=
  { s with global := (s.global.add s.layout duration).1, observations := s.observations + 1 }

def Due (s : Scale) : Prop :=
  1 < s.numLevels ∧ s.globalMinSamples ≤ s.observations ∧ (s.snapshot = none ∨ s.observations % s.boundaryRefreshEvery = 0)

instance (s : Scale) : Decidable s.Due := inferInstanceAs (Decidable (_ ∧ _))

def observe (s : Scale) (duration : ℚ) : Scale :=
  if (s.count duration).Due then (s.count duration).refresh else s.count duration

theorem observations_refresh (s : Scale) : s.refresh.observations = s.observations := by
  unfold refresh
  split
  · rfl
  · split
    · rfl
    · split <;> rfl

theorem observations_observe (s : Scale) (duration : ℚ) : (s.observe duration).observations = s.observations + 1 := by
  unfold observe
  split
  · exact observations_refresh _
  · rfl

theorem observations_foldl (s : Scale) (durations : List ℚ) :
    (durations.foldl observe s).observations = s.observations + durations.length := by
  induction durations generalizing s with
  | nil => rfl
  | cons duration rest ih =>
    rw [List.foldl_cons, ih, observations_observe, List.length_cons]
    omega

end Scale

namespace PerKeyPredictor
variable {platform platform' : Platform} {p q : PerKeyPredictor platform}

def scale (p : PerKeyPredictor platform) : Scale where
  numLevels := p.config.numLevels
  globalMinSamples := p.config.globalMinSamples
  boundaryRefreshEvery := p.config.boundaryRefreshEvery
  hysteresis := p.config.hysteresis
  layout := p.layout
  global := p.global
  observations := p.globalObservations
  snapshot := p.snapshot
  published := p.counters.snapshots

theorem SameGlobal.scale (same : SameGlobal p q) : q.scale = p.scale := by
  obtain ⟨config, layout, global, observations, snapshot, snapshots, _⟩ := same
  simp only [PerKeyPredictor.scale, config, layout, global, observations, snapshot, snapshots]

theorem scale_refresh (p : PerKeyPredictor platform) : p.refreshBoundariesLocked.scale = p.scale.refresh := by
  have fresh : p.scale.fresh = p.freshBoundaries := rfl
  unfold Scale.refresh
  rw [fresh]
  cases valid : validBoundaries p.freshBoundaries with
  | false =>
    rw [refresh_of_degenerate valid]
    rfl
  | true =>
    rw [refresh_of_valid valid, Bool.not_true, if_neg Bool.false_ne_true, show p.scale.snapshot = p.snapshot from rfl]
    cases p.snapshot with
    | none => rfl
    | some current =>
      have chosen : p.scale.chosen current.boundariesMs = p.chosenBoundaries current := rfl
      dsimp only
      rw [chosen]
      split <;> rfl

theorem scale_observeGlobal (p : PerKeyPredictor platform) (duration : ℚ) :
    (p.observeGlobal duration).scale = p.scale.observe duration := by
  have due : (p.scale.count duration).Due ↔ (p.counted duration).Due := Iff.rfl
  rw [observeGlobal_eq, Scale.observe]
  by_cases now : (p.counted duration).Due
  · rw [if_pos now, if_pos (due.mpr now), scale_refresh]
    rfl
  · rw [if_neg now, if_neg (mt due.mp now)]
    rfl

/-- The predictor after a sequence of calls. -/
def after (p : PerKeyPredictor platform) (calls : List PredictorCall) : PerKeyPredictor platform :=
  calls.foldl (fun p call => (p.perform call).2) p

/-- The duration that a call teaches. -/
def lesson (p : PerKeyPredictor platform) : PredictorCall → List ℚ
  | .predict _ _ => []
  | .observe now key parent duration => if (p.observe now key parent duration).1 then [duration] else []
  | .observeCensored _ _ => []

/-- The durations of the accepted observations, in order. -/
def accepted (p : PerKeyPredictor platform) : List PredictorCall → List ℚ
  | [] => []
  | call :: calls => p.lesson call ++ (p.perform call).2.accepted calls

theorem scale_perform (p : PerKeyPredictor platform) (call : PredictorCall) :
    (p.perform call).2.scale = (p.lesson call).foldl Scale.observe p.scale := by
  cases call with
  | predict now key => exact (sameGlobal_predict p now key).scale
  | observe now key parent duration =>
    rcases observe_cases p now key parent duration with ⟨refused, same⟩ | ⟨taken, _, same⟩
    · simp only [lesson, refused]
      exact same.scale
    · simp only [lesson, taken]
      exact same.scale.trans (scale_observeGlobal p duration)
  | observeCensored now key => exact (sameGlobal_observeCensored p now key).scale

theorem scale_after (p : PerKeyPredictor platform) (calls : List PredictorCall) :
    (p.after calls).scale = (p.accepted calls).foldl Scale.observe p.scale := by
  induction calls generalizing p with
  | nil => rfl
  | cons call rest ih =>
    calc (p.after (call :: rest)).scale = ((p.perform call).2.after rest).scale := rfl
      _ = ((p.perform call).2.accepted rest).foldl Scale.observe ((p.lesson call).foldl Scale.observe p.scale) := by
        rw [ih, scale_perform]
      _ = (p.accepted (call :: rest)).foldl Scale.observe p.scale := by rw [accepted, List.foldl_append]

theorem accepted_take (p : PerKeyPredictor platform) (calls : List PredictorCall) (n : Nat) :
    p.accepted (calls.take n) <+: p.accepted calls := by
  induction calls generalizing p n with
  | nil => simp
  | cons call rest ih =>
    cases n with
    | zero => exact List.nil_prefix
    | succ n =>
      rw [List.take_succ_cons, accepted, accepted]
      exact (List.prefix_append_right_inj _).mpr (ih _ n)

/-- The settings of the histogram, of the levels and of the refresh agree. -/
structure SameScale (c c' : PerKeyPredictorConfig) : Prop where
  numLevels : c.numLevels = c'.numLevels
  histogramBins : c.histogramBins = c'.histogramBins
  minMs : c.minMs = c'.minMs
  maxMs : c.maxMs = c'.maxMs
  globalDecay : c.globalDecay = c'.globalDecay
  globalMinSamples : c.globalMinSamples = c'.globalMinSamples
  boundaryRefreshEvery : c.boundaryRefreshEvery = c'.boundaryRefreshEvery
  hysteresis : c.hysteresis = c'.hysteresis

theorem scale_create {config : PerKeyPredictorConfig} {layout : Layout} (made : create platform config layout = .ok p) :
    p.scale = {
      numLevels := config.numLevels
      globalMinSamples := config.globalMinSamples
      boundaryRefreshEvery := config.boundaryRefreshEvery
      hysteresis := config.hysteresis
      layout
      global := .create config.histogramBins config.globalDecay
      observations := 0
      snapshot := if config.numLevels = 1 then some {} else none
      published := 0 } := by
  simp only [create, bind_ok] at made
  obtain ⟨_, valid, made⟩ := made
  obtain ⟨rfl, _⟩ := validated_ok valid
  obtain rfl := Except.ok.inj made
  rfl

end PerKeyPredictor

end Harbinger.Ml
