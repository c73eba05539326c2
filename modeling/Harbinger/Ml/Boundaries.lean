import Harbinger.Ml.Location
import Harbinger.Ml.Restart

/-! The level boundaries over the life of a predictor. The quantiles of the global histogram
are never degenerate, every refresh leaves boundaries within the hysteresis band of them, and
each publication has a new sequence number. -/

namespace Harbinger.Ml.PerKeyPredictor
variable {platform : Platform} {p q : PerKeyPredictor platform}

/-- The quantiles that a refresh starts from. -/
def freshBoundaries (p : PerKeyPredictor platform) : List ℚ :=
  (List.range (p.config.numLevels.toNat - 1)).map fun index =>
    p.global.quantile p.layout ((index + 1 : Nat) / (p.config.numLevels.toNat : ℚ))

/-- Each boundary is within the hysteresis band of the fresh quantile. -/
def Near (hysteresis : ℚ) (fresh bounds : List ℚ) : Prop :=
  List.Forall₂ (fun fresh bound => |fresh - bound| ≤ hysteresis * bound) fresh bounds

theorem validBoundaries_iff {bounds : List ℚ} : validBoundaries bounds = true ↔
    bounds ≠ [] ∧ (∀ bound ∈ bounds, 0 < bound) ∧ bounds.Pairwise (· < ·) := by
  cases bounds with
  | nil => simp [validBoundaries]
  | cons first rest =>
    simp only [validBoundaries, List.head?_cons, Option.any_some, Bool.and_eq_true, decide_eq_true_eq,
      List.isChain_iff_pairwise, List.pairwise_cons, List.forall_mem_cons, ne_eq, reduceCtorEq, not_false_eq_true, true_and]
    constructor
    · rintro ⟨positive, larger, chain⟩
      exact ⟨⟨positive, fun bound member => positive.trans (larger bound member)⟩, larger, chain⟩
    · rintro ⟨⟨positive, -⟩, larger, chain⟩
      exact ⟨positive, larger, chain⟩

theorem near_self {hysteresis : ℚ} (band : 0 ≤ hysteresis) {fresh : List ℚ} (positive : ∀ bound ∈ fresh, 0 < bound) :
    Near hysteresis fresh fresh := by
  refine List.forall₂_same.mpr fun bound member => ?_
  rw [sub_self, abs_zero]
  exact mul_nonneg band (positive bound member).le

theorem near_holdBoundaries (band : 0 ≤ p.config.hysteresis) : ∀ {fresh old : List ℚ}, fresh.length = old.length →
    (∀ bound ∈ fresh, 0 < bound) → Near p.config.hysteresis fresh (p.holdBoundaries fresh old) := by
  intro fresh
  induction fresh with
  | nil =>
    intro old _ _
    exact .nil
  | cons first rest known =>
    intro old length positive
    cases old with
    | nil => cases length
    | cons before others =>
      obtain ⟨here, later⟩ := List.forall_mem_cons.mp positive
      refine .cons ?_ (known (Nat.succ.inj length) later)
      dsimp only
      split
      next close => exact close
      · rw [sub_self, abs_zero]
        exact mul_nonneg band here.le

/-- The boundaries that a refresh decides on. -/
def chosenBoundaries (p : PerKeyPredictor platform) (current : BoundarySnapshot) : List ℚ :=
  let held := p.holdBoundaries p.freshBoundaries current.boundariesMs
  if validBoundaries held then held else p.freshBoundaries

/-- The predictor after a publication. -/
def publish (p : PerKeyPredictor platform) (boundariesMs : List ℚ) : PerKeyPredictor platform :=
  { p with
    snapshot := some ⟨p.counters.snapshots + 1, boundariesMs⟩
    counters := { p.counters with snapshots := p.counters.snapshots + 1 } }

theorem refresh_of_valid (valid : validBoundaries p.freshBoundaries = true) : p.refreshBoundariesLocked =
    match p.snapshot with
    | none => p.publish p.freshBoundaries
    | some current =>
      if p.chosenBoundaries current = current.boundariesMs then p else p.publish (p.chosenBoundaries current) := by
  unfold refreshBoundariesLocked
  change (if (!validBoundaries p.freshBoundaries) = true then _ else _) = _
  rw [valid, Bool.not_true, if_neg Bool.false_ne_true]
  rfl

theorem refresh_of_degenerate (degenerate : validBoundaries p.freshBoundaries = false) : p.refreshBoundariesLocked =
    { p with counters := { p.counters with degenerate := p.counters.degenerate + 1 } } := by
  unfold refreshBoundariesLocked
  change (if (!validBoundaries p.freshBoundaries) = true then _ else _) = _
  rw [degenerate, Bool.not_false, if_pos rfl]

theorem refresh_cases (valid : validBoundaries p.freshBoundaries = true) :
    (∃ current, p.snapshot = some current ∧ p.refreshBoundariesLocked = p ∧
        p.chosenBoundaries current = current.boundariesMs) ∨
      ∃ bounds, p.refreshBoundariesLocked = p.publish bounds ∧ (∀ old ∈ p.snapshot, old.boundariesMs ≠ bounds) ∧
        (bounds = p.freshBoundaries ∨ ∃ current, p.snapshot = some current ∧ bounds = p.chosenBoundaries current) := by
  rw [refresh_of_valid valid]
  cases known : p.snapshot with
  | none => exact .inr ⟨_, rfl, nofun, .inl rfl⟩
  | some current =>
    dsimp only
    split
    next same => exact .inl ⟨current, rfl, rfl, same⟩
    next other =>
      refine .inr ⟨_, rfl, fun old present => ?_, .inr ⟨current, rfl, rfl⟩⟩
      obtain rfl := Option.some.inj present
      exact Ne.symm other

theorem near_chosenBoundaries (band : 0 ≤ p.config.hysteresis) (valid : validBoundaries p.freshBoundaries = true)
    {current : BoundarySnapshot} (length : current.boundariesMs.length = p.config.numLevels.toNat - 1) :
    Near p.config.hysteresis p.freshBoundaries (p.chosenBoundaries current) := by
  have positive := (validBoundaries_iff.mp valid).2.1
  have size : p.freshBoundaries.length = current.boundariesMs.length := by
    rw [length, freshBoundaries, List.length_map, List.length_range]
  simp only [chosenBoundaries]
  split
  · exact near_holdBoundaries band size positive
  · exact near_self band positive

theorem refresh_near (band : 0 ≤ p.config.hysteresis) (shaped : ∀ b ∈ p.snapshot, b.Shaped p.config.numLevels.toNat)
    (valid : validBoundaries p.freshBoundaries = true) :
    ∃ b ∈ p.refreshBoundariesLocked.snapshot, Near p.config.hysteresis p.freshBoundaries b.boundariesMs := by
  rcases refresh_cases valid with ⟨current, known, same, kept⟩ | ⟨bounds, published, -, origin⟩
  · refine ⟨current, by rw [same, known]; rfl, kept ▸ near_chosenBoundaries band valid (shaped current known).length⟩
  · refine ⟨⟨p.counters.snapshots + 1, bounds⟩, by rw [published]; rfl, ?_⟩
    rcases origin with rfl | ⟨current, known, rfl⟩
    · exact near_self band (validBoundaries_iff.mp valid).2.1
    · exact near_chosenBoundaries band valid (shaped current known).length

/-! ### What the calls leave alone -/

/-- Everything that the boundaries depend on is the same in both. -/
structure SameGlobal (p q : PerKeyPredictor platform) : Prop where
  config : q.config = p.config
  layout : q.layout = p.layout
  global : q.global = p.global
  observations : q.globalObservations = p.globalObservations
  snapshot : q.snapshot = p.snapshot
  snapshots : q.counters.snapshots = p.counters.snapshots
  degenerate : q.counters.degenerate = p.counters.degenerate

theorem SameGlobal.refl (p : PerKeyPredictor platform) : SameGlobal p p := ⟨rfl, rfl, rfl, rfl, rfl, rfl, rfl⟩

theorem SameGlobal.trans {r : PerKeyPredictor platform} (first : SameGlobal p q) (second : SameGlobal q r) : SameGlobal p r where
  config := second.config.trans first.config
  layout := second.layout.trans first.layout
  global := second.global.trans first.global
  observations := second.observations.trans first.observations
  snapshot := second.snapshot.trans first.snapshot
  snapshots := second.snapshots.trans first.snapshots
  degenerate := second.degenerate.trans first.degenerate

theorem sameGlobal_recordKey (p : PerKeyPredictor platform) (key : Bytes) (duration : ℚ) (now : Time) :
    SameGlobal p (p.recordKey key duration now) := by
  simp only [recordKey]
  split <;> exact ⟨rfl, rfl, rfl, rfl, rfl, rfl, rfl⟩

theorem sameGlobal_predict (p : PerKeyPredictor platform) (now : Time) (key : Bytes) : SameGlobal p (p.predict now key).2 := by
  unfold predict
  split
  · exact .refl p
  · split
    · exact .refl p
    · dsimp only
      split
      · exact .refl p
      · split
        · exact .refl p
        · exact ⟨rfl, rfl, rfl, rfl, rfl, rfl, rfl⟩

theorem sameGlobal_observeCensored (p : PerKeyPredictor platform) (now : Time) (key : Bytes) :
    SameGlobal p (p.observeCensored now key).2 := by
  unfold observeCensored
  split
  · exact ⟨rfl, rfl, rfl, rfl, rfl, rfl, rfl⟩
  · dsimp only
    split <;> exact ⟨rfl, rfl, rfl, rfl, rfl, rfl, rfl⟩

/-- The predictor whose boundaries `observe` may refresh. -/
def counted (p : PerKeyPredictor platform) (duration : ℚ) : PerKeyPredictor platform :=
  { p with
    global := (p.global.add p.layout duration).1
    globalObservations := p.globalObservations + 1
    counters := { p.counters with
      observed := p.counters.observed + 1
      saturated := p.counters.saturated + if (p.global.add p.layout duration).2 then 1 else 0 } }

/-- When `observe` refreshes the boundaries. -/
def Due (p : PerKeyPredictor platform) : Prop :=
  1 < p.config.numLevels ∧ p.config.globalMinSamples ≤ p.globalObservations ∧
    (p.snapshot = none ∨ p.globalObservations % p.config.boundaryRefreshEvery = 0)

instance (p : PerKeyPredictor platform) : Decidable p.Due := inferInstanceAs (Decidable (_ ∧ _))

theorem observeGlobal_eq (p : PerKeyPredictor platform) (duration : ℚ) : p.observeGlobal duration =
    if (p.counted duration).Due then (p.counted duration).refreshBoundariesLocked else p.counted duration := rfl

section Congruence
variable (same : SameGlobal p q)
include same

theorem SameGlobal.counted (duration : ℚ) : SameGlobal (p.counted duration) (q.counted duration) := by
  obtain ⟨config, layout, global, observations, snapshot, snapshots, degenerate⟩ := same
  exact ⟨config, layout, by simp only [PerKeyPredictor.counted, global, layout],
    by simp only [PerKeyPredictor.counted, observations], snapshot, snapshots, degenerate⟩

theorem SameGlobal.fresh : q.freshBoundaries = p.freshBoundaries := by
  simp only [freshBoundaries, same.config, same.layout, same.global]

theorem SameGlobal.publish (bounds : List ℚ) : SameGlobal (p.publish bounds) (q.publish bounds) := by
  obtain ⟨config, layout, global, observations, snapshot, snapshots, degenerate⟩ := same
  exact ⟨config, layout, global, observations, by simp only [PerKeyPredictor.publish, snapshots],
    by simp only [PerKeyPredictor.publish, snapshots], degenerate⟩

theorem SameGlobal.refresh : SameGlobal p.refreshBoundariesLocked q.refreshBoundariesLocked := by
  have fresh := same.fresh
  cases valid : validBoundaries p.freshBoundaries with
  | false =>
    rw [refresh_of_degenerate valid, refresh_of_degenerate (by rw [fresh]; exact valid)]
    exact { same with degenerate := congrArg (· + 1) same.degenerate }
  | true =>
    have chosen : ∀ current, q.chosenBoundaries current = p.chosenBoundaries current := fun current => by
      unfold chosenBoundaries holdBoundaries
      rw [fresh, same.config]
    rw [refresh_of_valid valid, refresh_of_valid (by rw [fresh]; exact valid), same.snapshot, fresh]
    cases p.snapshot with
    | none => exact same.publish _
    | some current =>
      dsimp only
      rw [chosen]
      split
      · exact same
      · exact same.publish _

theorem SameGlobal.observeGlobal (duration : ℚ) : SameGlobal (p.observeGlobal duration) (q.observeGlobal duration) := by
  have counts := same.counted duration
  have due : (q.counted duration).Due ↔ (p.counted duration).Due := by
    simp only [Due, counts.config, counts.observations, counts.snapshot]
  rw [observeGlobal_eq, observeGlobal_eq]
  simp only [due]
  split
  · exact counts.refresh
  · exact counts

end Congruence

theorem observe_cases (p : PerKeyPredictor platform) (now : Time) (key parent : Bytes) (duration : ℚ) :
    ((p.observe now key parent duration).1 = false ∧ SameGlobal p (p.observe now key parent duration).2) ∨
      (p.observe now key parent duration).1 = true ∧ 0 ≤ duration ∧
        SameGlobal (p.observeGlobal duration) (p.observe now key parent duration).2 := by
  unfold observe
  split
  · exact .inl ⟨rfl, rfl, rfl, rfl, rfl, rfl, rfl, rfl⟩
  next accepted =>
    simp only [not_or, not_lt] at accepted
    refine .inr ⟨rfl, accepted.2.2, SameGlobal.observeGlobal ?_ duration⟩
    split
    · exact sameGlobal_recordKey ..
    · exact (sameGlobal_recordKey ..).trans (sameGlobal_recordKey ..)

theorem refresh_setting (p : PerKeyPredictor platform) : p.refreshBoundariesLocked.config = p.config ∧
    p.refreshBoundariesLocked.layout = p.layout ∧ p.refreshBoundariesLocked.global = p.global ∧
      p.refreshBoundariesLocked.globalObservations = p.globalObservations := by
  cases valid : validBoundaries p.freshBoundaries with
  | false =>
    rw [refresh_of_degenerate valid]
    exact ⟨rfl, rfl, rfl, rfl⟩
  | true =>
    rcases refresh_cases valid with ⟨_, _, same, _⟩ | ⟨bounds, published, _, _⟩
    · rw [same]
      exact ⟨rfl, rfl, rfl, rfl⟩
    · rw [published]
      exact ⟨rfl, rfl, rfl, rfl⟩

theorem observeGlobal_setting (p : PerKeyPredictor platform) (duration : ℚ) :
    (p.observeGlobal duration).config = p.config ∧ (p.observeGlobal duration).layout = p.layout ∧
      (p.observeGlobal duration).global = (p.counted duration).global ∧
      (p.observeGlobal duration).globalObservations = p.globalObservations + 1 := by
  rw [observeGlobal_eq]
  split
  · exact refresh_setting _
  · exact ⟨rfl, rfl, rfl, rfl⟩

/-! ### Over the life of a predictor -/

theorem Reachable.accepted {host : Host} {foreign : Bool} {now : Time} (reachable : Reachable host foreign p now) :
    validated p.config = .ok p.config := by
  have kept : ∀ {p : PerKeyPredictor platform} {now : Time} (context file : Bytes), validated p.config = .ok p.config →
      validated (p.load host now context file).state.config = .ok (p.load host now context file).state.config := by
    intro p now context file known
    rcases load_cases host p now context file with ⟨_, _, same⟩ | ⟨contents, _, _, _, same⟩
    · rw [same]
      exact known
    · rw [same, (applySnapshot_setting host p now contents).1]
      exact known
  induction reachable with
  | created fits made reading =>
    simp only [create, bind_ok] at made
    obtain ⟨_, valid, made⟩ := made
    obtain ⟨rfl, _⟩ := validated_ok valid
    obtain rfl := Except.ok.inj made
    exact valid
  | predicted before later reading key known =>
    rw [(sameGlobal_predict _ _ key).config]
    exact known
  | observed before later reading key parent duration known =>
    rcases observe_cases _ _ key parent duration with ⟨_, same⟩ | ⟨_, _, same⟩
    · rw [same.config]
      exact known
    · rw [same.config, (observeGlobal_setting _ duration).1]
      exact known
  | censored before later reading key known =>
    rw [(sameGlobal_observeCensored _ _ key).config]
    exact known
  | restored before later reading source storable short bounded other known => exact kept _ _ known
  | loaded before later reading any context file known => exact kept _ _ known

theorem hysteresis_nonneg {c : PerKeyPredictorConfig} (accepted : validated c = .ok c) : 0 ≤ c.hysteresis := by
  simp only [validated, bind_ok, reject_ok, not_or, not_lt] at accepted
  tauto

/-- The weights of the global histogram add up, no boundaries were degenerate, and the sequence
numbers do not pass the counter. -/
structure Orderly (p : PerKeyPredictor platform) : Prop where
  exact : p.global.counts.sum = p.global.total
  degenerate : p.counters.degenerate = 0
  numbered : ∀ b ∈ p.snapshot, b.sequence ≤ p.counters.snapshots

theorem Orderly.same (orderly : p.Orderly) (same : SameGlobal p q) : q.Orderly where
  exact := by rw [same.global]; exact orderly.exact
  degenerate := same.degenerate.trans orderly.degenerate
  numbered := by rw [same.snapshot, same.snapshots]; exact orderly.numbered

section Observation
variable {timely : Time → Prop} (sound : p.Sound timely) (orderly : p.Orderly)
include sound orderly

theorem Orderly.fresh_valid (several : 2 ≤ p.config.numLevels.toNat) (duration : ℚ) :
    validBoundaries (p.counted duration).freshBoundaries = true := by
  have consistent := sound.global
  rw [← sound.fits.1] at consistent
  have exact := DecayingHistogram.add_exact consistent.length orderly.exact duration
  have weighed : 0 < (p.global.add p.layout duration).1.total :=
    DecayingHistogram.add_pos sound.global sound.checked.globalDecay.1 sound.checked.globalDecay.2 duration
  exact DecayingHistogram.validBoundaries_quantiles p.layout weighed exact several

theorem Orderly.counted (duration : ℚ) : (p.counted duration).Orderly := by
  have consistent := sound.global
  rw [← sound.fits.1] at consistent
  exact ⟨DecayingHistogram.add_exact consistent.length orderly.exact duration, orderly.degenerate, orderly.numbered⟩

theorem Orderly.observeGlobal (duration : ℚ) : (p.observeGlobal duration).Orderly := by
  have counts := orderly.counted sound duration
  rw [observeGlobal_eq]
  split
  next due =>
    have valid := orderly.fresh_valid sound (UInt8.lt_iff_toNat_lt.mp due.1) duration
    rcases refresh_cases valid with ⟨_, _, same, _⟩ | ⟨bounds, published, _, _⟩
    · rw [same]
      exact counts
    · rw [published]
      exact ⟨counts.exact, counts.degenerate, fun b present => (Option.some.inj present) ▸ le_rfl⟩
  · exact counts

end Observation

theorem Orderly.observe {timely : Time → Prop} (sound : p.Sound timely) (orderly : p.Orderly) (now : Time) (key parent : Bytes)
    (duration : ℚ) : (p.observe now key parent duration).2.Orderly := by
  rcases observe_cases p now key parent duration with ⟨_, same⟩ | ⟨_, _, same⟩
  · exact orderly.same same
  · exact (orderly.observeGlobal sound duration).same same

theorem Orderly.applySnapshot (orderly : p.Orderly) (host : Host) (now : Time) {contents : SnapshotContents}
    (exact : contents.global.counts.sum = contents.global.total) : (p.applySnapshot host now contents).2.Orderly where
  exact := exact
  degenerate := orderly.degenerate
  numbered := by
    intro b present
    change b ∈ (if contents.boundaries.isSome = true ∨ 1 < p.config.numLevels then contents.boundaries else p.snapshot) at present
    change b.sequence ≤ (contents.boundaries.map fun b => max p.counters.snapshots b.sequence).getD p.counters.snapshots
    cases known : contents.boundaries with
    | none =>
      rw [known] at present
      split at present
      · cases present
      · exact orderly.numbered b present
    | some read =>
      rw [known, if_pos (.inl rfl)] at present
      obtain rfl := Option.some.inj present
      exact le_max_right ..

section Life
variable (lawful : platform.Lawful) {host : Host}
include lawful

theorem Reachable.orderly {now : Time} (reachable : Reachable host false p now) : p.Orderly := by
  induction reachable with
  | created fits made reading =>
    simp only [create, bind_ok] at made
    obtain ⟨config, valid, made⟩ := made
    obtain rfl := Except.ok.inj made
    refine ⟨by simp [DecayingHistogram.create], rfl, fun b present => ?_⟩
    obtain ⟨_, same⟩ := Option.ite_none_right_eq_some.mp present
    exact (Option.some.inj same) ▸ le_rfl
  | predicted before later reading key known => exact known.same (sameGlobal_predict _ _ key)
  | observed before later reading key parent duration known =>
    exact known.observe (before.sound lawful) _ key parent duration
  | censored before later reading key known => exact known.same (sameGlobal_observeCensored _ _ key)
  | restored before later reading source storable short bounded other known origin =>
    rename_i p q earlier now saved context
    rcases load_cases host p now other (q.save host saved context) with ⟨_, _, same⟩ | ⟨contents, accepted, valid, _, same⟩
    · rw [same]
      exact known
    · rw [same]
      have held := contents_of_saved (source.sound lawful) storable short bounded accepted
      exact known.applySnapshot host now (by rw [held]; exact origin.exact)
  | loaded before later reading any context file known => cases any

theorem Reachable.fresh_valid {now : Time} (reachable : Reachable host false p now) (several : 1 < p.config.numLevels)
    {later : Time} {key parent : Bytes} {duration : ℚ} (accepted : (p.observe later key parent duration).1 = true) :
    validBoundaries (p.observe later key parent duration).2.freshBoundaries = true := by
  have valid := (reachable.orderly lawful).fresh_valid (reachable.sound lawful) (UInt8.lt_iff_toNat_lt.mp several) duration
  rcases observe_cases p later key parent duration with ⟨rejected, _⟩ | ⟨_, _, same⟩
  · cases rejected.symm.trans accepted
  · obtain ⟨config, layout, global, _⟩ := observeGlobal_setting p duration
    rw [same.fresh, freshBoundaries, config, layout, global]
    exact valid

end Life

/-- Quantiles of a histogram that has seen something increase strictly and lie where those of the
observations do, so no refresh of a predictor ever finds degenerate boundaries. -/
theorem boundaries_never_degenerate (lawful : platform.Lawful) (host : Host) :
    (∀ (layout : Layout) (decay limit : ℚ) (updates : List Update), 0 < decay → decay ≤ 1 → (∀ u ∈ updates, u.Positive) →
      (∃ value, .add value ∈ updates) → DecayingHistogram.Faithful layout
        (DecayingHistogram.sampled decay layout updates) (DecayingHistogram.scaled limit decay layout updates)) ∧
    ∀ (p : PerKeyPredictor platform) (now : Time), Reachable host false p now → p.counters.degenerate = 0 ∧
      ∀ later key parent duration, (p.observe later key parent duration).1 = true → 1 < p.config.numLevels →
        validBoundaries (p.observe later key parent duration).2.freshBoundaries = true := by
  refine ⟨fun layout decay limit updates positive _ allowed ⟨value, member⟩ => ?_, fun p now reachable => ?_⟩
  · exact DecayingHistogram.scaled_faithful positive limit allowed member
  · refine ⟨(reachable.orderly lawful).degenerate, fun later key parent duration accepted several => ?_⟩
    exact reachable.fresh_valid lawful several accepted

/-- A predictor that has learned one duration, and a histogram. -/
theorem boundaries_never_degenerate_taught : (sampleTaught 16384).counters.degenerate = 0 ∧
    validBoundaries ((sampleTaught 16384).observe 0 (ascii "k") [] 100).2.freshBoundaries = true ∧
    DecayingHistogram.Faithful sampleLayout
      (DecayingHistogram.sampled (1 / 2) sampleLayout [.add 3, .addCensored, .shrink (1 / 2)])
      (DecayingHistogram.scaled 1 (1 / 2) sampleLayout [.add 3, .addCensored, .shrink (1 / 2)]) := by
  have ⟨histograms, predictors⟩ := boundaries_never_degenerate plain_lawful Host.plain
  have ⟨degenerate, valid⟩ := predictors (sampleTaught 16384) 0 (sampleTaught_reachable (by decide +kernel))
  refine ⟨degenerate, valid 0 _ _ _ (by decide +kernel) (by decide +kernel), ?_⟩
  refine histograms _ _ _ _ (by norm_num) (by norm_num) ?_ ⟨3, by simp⟩
  simp [Update.Positive]

/-- The states of the same predictor after further calls. -/
inductive Later (host : Host) (s : PerKeyPredictor platform) (start : Time) : PerKeyPredictor platform → Time → Prop
  | stays : Later host s start s start
  | predicted {p : PerKeyPredictor platform} {earlier now : Time} (before : Later host s start p earlier)
      (later : earlier ≤ now) (reading : Clock.Reading now) (key : Bytes) : Later host s start (p.predict now key).2 now
  | observed {p : PerKeyPredictor platform} {earlier now : Time} (before : Later host s start p earlier)
      (later : earlier ≤ now) (reading : Clock.Reading now) (key parent : Bytes) (duration : ℚ) :
      Later host s start (p.observe now key parent duration).2 now
  | censored {p : PerKeyPredictor platform} {earlier now : Time} (before : Later host s start p earlier)
      (later : earlier ≤ now) (reading : Clock.Reading now) (key : Bytes) : Later host s start (p.observeCensored now key).2 now
  | restored {p q : PerKeyPredictor platform} {earlier now saved : Time} (before : Later host s start p earlier)
      (later : earlier ≤ now) (reading : Clock.Reading now) (source : Reachable host false q saved)
      (storable : q.Storable host saved) {context : Bytes} (short : context.length ≤ maxContextBytes)
      (bounded : (q.save host saved context).length ≤ maxSnapshotBytes) (other : Bytes) :
      Later host s start (p.load host now other (q.save host saved context)).state now

section Publications
variable {host : Host} {s : PerKeyPredictor platform} {start now : Time}

theorem Later.reachable (later : Later host s start p now) (reachable : Reachable host false s start) :
    Reachable host false p now := by
  induction later with
  | stays => exact reachable
  | predicted _ later reading key known => exact .predicted known later reading key
  | observed _ later reading key parent duration known => exact .observed known later reading key parent duration
  | censored _ later reading key known => exact .censored known later reading key
  | restored _ later reading source storable short bounded other known =>
    exact .restored known later reading source storable short bounded other

theorem snapshots_refresh_le (p : PerKeyPredictor platform) :
    p.counters.snapshots ≤ p.refreshBoundariesLocked.counters.snapshots := by
  cases valid : validBoundaries p.freshBoundaries with
  | false => rw [refresh_of_degenerate valid]
  | true =>
    rcases refresh_cases valid with ⟨_, _, same, _⟩ | ⟨bounds, published, _, _⟩
    · rw [same]
    · rw [published]
      exact Nat.le_succ _

/-- The counter never goes back. -/
theorem Later.snapshots_le (later : Later host s start p now) : s.counters.snapshots ≤ p.counters.snapshots := by
  induction later with
  | stays => exact le_rfl
  | predicted _ _ _ key known => exact known.trans (sameGlobal_predict _ _ key).snapshots.ge
  | observed _ _ _ key parent duration known =>
    refine known.trans ?_
    rcases observe_cases _ _ key parent duration with ⟨_, same⟩ | ⟨_, _, same⟩
    · exact same.snapshots.ge
    · rw [same.snapshots, observeGlobal_eq]
      split
      · exact snapshots_refresh_le (PerKeyPredictor.counted _ duration)
      · exact le_rfl
  | censored _ _ _ key known => exact known.trans (sameGlobal_observeCensored _ _ key).snapshots.ge
  | restored before onward reading source storable short bounded other known =>
    rename_i p q earlier now saved context
    refine known.trans ?_
    rcases load_cases host p now other (q.save host saved context) with ⟨_, _, same⟩ | ⟨contents, _, _, _, same⟩
    · rw [same]
    · rw [same]
      change _ ≤ (contents.boundaries.map fun b => max p.counters.snapshots b.sequence).getD p.counters.snapshots
      cases contents.boundaries with
      | none => exact le_rfl
      | some b => exact le_max_left ..

theorem observe_publishes (p : PerKeyPredictor platform) (later : Time) (key parent : Bytes) (duration : ℚ) :
    ((p.observe later key parent duration).2.counters.snapshots = p.counters.snapshots ∧
        (p.observe later key parent duration).2.snapshot = p.snapshot) ∨
      ∃ bounds, (p.observe later key parent duration).2.counters.snapshots = p.counters.snapshots + 1 ∧
        (p.observe later key parent duration).2.snapshot = some ⟨p.counters.snapshots + 1, bounds⟩ ∧
        ∀ old ∈ p.snapshot, old.boundariesMs ≠ bounds := by
  rcases observe_cases p later key parent duration with ⟨_, same⟩ | ⟨_, _, same⟩
  · exact .inl ⟨same.snapshots, same.snapshot⟩
  · rw [same.snapshots, same.snapshot, observeGlobal_eq]
    split
    next due =>
      cases valid : validBoundaries (p.counted duration).freshBoundaries with
      | false =>
        rw [refresh_of_degenerate valid]
        exact .inl ⟨rfl, rfl⟩
      | true =>
        rcases refresh_cases valid with ⟨_, _, unchanged, _⟩ | ⟨bounds, published, differs, _⟩
        · rw [unchanged]
          exact .inl ⟨rfl, rfl⟩
        · rw [published]
          exact .inr ⟨bounds, rfl, rfl, differs⟩
    · exact .inl ⟨rfl, rfl⟩

/-- Whether `observe` refreshes is seen in the state after it. -/
def Refreshes (p q : PerKeyPredictor platform) : Prop :=
  1 < q.config.numLevels ∧ q.config.globalMinSamples ≤ q.globalObservations ∧
    (p.snapshot = none ∨ q.globalObservations % q.config.boundaryRefreshEvery = 0)

instance (p q : PerKeyPredictor platform) : Decidable (Refreshes p q) := inferInstanceAs (Decidable (_ ∧ _))

/-- The boundaries in force at any time, what a refresh leaves, and what a publication brings:
a sequence number above those of all boundaries that were ever in force before. -/
theorem published_boundaries (lawful : platform.Lawful) (reachable : Reachable host false s start)
    (onward : Later host s start p now) (several : 1 < p.config.numLevels) :
    (∀ b ∈ p.snapshot, b.boundariesMs.length = p.config.numLevels.toNat - 1 ∧ (∀ bound ∈ b.boundariesMs, 0 < bound) ∧
      b.boundariesMs.Pairwise (· < ·)) ∧
    ∀ later key parent duration, ∀ q, q = (p.observe later key parent duration).2 →
      ((p.observe later key parent duration).1 = true → Refreshes p q → validBoundaries q.freshBoundaries = true →
        ∃ b ∈ q.snapshot, Near q.config.hysteresis q.freshBoundaries b.boundariesMs) ∧
      (q.counters.snapshots = p.counters.snapshots → q.snapshot = p.snapshot) ∧
      (q.counters.snapshots ≠ p.counters.snapshots → ∃ b ∈ q.snapshot,
        (∀ old ∈ s.snapshot, old.sequence < b.sequence) ∧ ∀ old ∈ p.snapshot, old.boundariesMs ≠ b.boundariesMs) := by
  have here := onward.reachable reachable
  have sound := here.sound lawful
  have numbered := (reachable.orderly lawful).numbered
  refine ⟨fun b present => ?_, ?_⟩
  · have shaped := sound.boundaries b present
    have levels := UInt8.lt_iff_toNat_lt.mp several
    have nonempty : b.boundariesMs ≠ [] := List.ne_nil_of_length_pos (by rw [shaped.length]; exact Nat.sub_pos_of_lt levels)
    exact ⟨shaped.length, (validBoundaries_iff.mp (shaped.valid nonempty)).2⟩
  rintro later key parent duration q rfl
  refine ⟨fun accepted refreshes valid => ?_, fun quiet => ?_, fun published => ?_⟩
  · have band := hysteresis_nonneg here.accepted
    rcases observe_cases p later key parent duration with ⟨rejected, _⟩ | ⟨_, _, same⟩
    · cases rejected.symm.trans accepted
    · obtain ⟨config, layout, global, observations⟩ := observeGlobal_setting p duration
      have due : (p.counted duration).Due := by
        simp only [Refreshes, same.config, same.observations, config, observations] at refreshes
        exact refreshes
      have fresh : (p.observe later key parent duration).2.freshBoundaries = (p.counted duration).freshBoundaries := by
        rw [same.fresh, freshBoundaries, config, layout, global]
        rfl
      rw [fresh] at valid ⊢
      rw [same.config, same.snapshot, config, observeGlobal_eq, if_pos due]
      exact refresh_near band sound.boundaries valid
  · rcases observe_publishes p later key parent duration with ⟨_, unchanged⟩ | ⟨bounds, increased, _⟩
    · exact unchanged
    · exact absurd (increased.symm.trans quiet) (Nat.succ_ne_self _)
  · rcases observe_publishes p later key parent duration with ⟨unchanged, _⟩ | ⟨bounds, _, fresh, differs⟩
    · exact absurd unchanged published
    · refine ⟨⟨p.counters.snapshots + 1, bounds⟩, fresh, fun old present => ?_, differs⟩
      exact Nat.lt_succ_of_le ((numbered old present).trans onward.snapshots_le)

end Publications

/-- The first observation of a new predictor publishes. -/
theorem published_boundaries_first : ∃ b ∈ (sampleTaught 16384).snapshot,
    Near (sampleTaught 16384).config.hysteresis (sampleTaught 16384).freshBoundaries b.boundariesMs := by
  have created : Reachable Host.plain false (sampleCapped 16384) 0 := sampleCapped_reachable (by decide +kernel)
  have ⟨_, published⟩ := published_boundaries plain_lawful created .stays (by decide)
  exact (published 0 (ascii "k") [] 100 _ rfl).1 (by decide +kernel) (by decide +kernel) (by decide +kernel)

end Harbinger.Ml.PerKeyPredictor
