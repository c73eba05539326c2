import Harbinger.Container.Recency
import Harbinger.Ml.Histogram
import Harbinger.Ml.History

/-! The invariant of a predictor over its calls: what each shard holds, the histograms, and the
boundaries. When entries were last active is left to a parameter, so that runs on a steady
clock and states with foreign times share the proofs. -/

namespace Harbinger.Ml
open Container

/-- Laws of `pow(0.5, x)`. -/
structure Platform.Lawful (platform : Platform) : Prop where
  positive : ∀ x, 0 ≤ x → 0 ≤ platform.halving x
  small : ∀ x, 0 ≤ x → platform.halving x ≤ 1

/-- What `validated` establishes. -/
structure PerKeyPredictorConfig.Checked (c : PerKeyPredictorConfig) : Prop where
  levels : 1 ≤ c.numLevels.toNat
  decay : 0 < c.decay ∧ c.decay ≤ 1
  globalDecay : 0 < c.globalDecay ∧ c.globalDecay ≤ 1
  halfLife : 0 ≤ c.timeHalfLife
  bins : c.histogramBins ≤ 1024
  shards : 1 ≤ c.shards

theorem validated_ok {c c' : PerKeyPredictorConfig} (valid : validated c = .ok c') : c' = c ∧ c.Checked := by
  simp only [validated, bind_ok, reject_ok, not_or, not_lt, not_le] at valid
  obtain ⟨_, levels, _, _, _, _, _, _, _, _, _, _, _, decays, _, ⟨halfLife, _⟩, _, ⟨_, bins⟩, _, _, _, ⟨shards, _⟩, _, _, _, _, _,
    _, _, _, same⟩ := valid
  have decay : ∀ d ∈ [c.decay, c.globalDecay], 0 < d ∧ d ≤ 1 := by simpa using decays
  exact ⟨(Except.ok.inj same).symm, {
    levels := UInt8.le_iff_toNat_le.mp (UInt8.not_lt.mp levels)
    decay := decay _ (by simp)
    globalDecay := decay _ (by simp)
    halfLife, bins, shards }⟩

/-- An entry as the predictor keeps it. -/
structure Entry.Admissible (c : PerKeyPredictorConfig) (timely : Time → Prop) (entry : Entry) : Prop where
  histogram : entry.histogram.Consistent c.histogramBins c.decay
  tier : ∀ tier ∈ entry.tier, tier < c.numLevels.toNat
  timely : timely entry.lastActivity

/-- One boundary between each two levels. -/
structure BoundarySnapshot.Shaped (levels : Nat) (b : BoundarySnapshot) : Prop where
  length : b.boundariesMs.length = levels - 1
  valid : b.boundariesMs ≠ [] → PerKeyPredictor.validBoundaries b.boundariesMs = true

namespace PerKeyPredictor
variable {platform : Platform} (p : PerKeyPredictor platform) (timely : Time → Prop)

/-- What the shard at an index may hold. -/
structure Holds (index : Nat) (shard : Shard) : Prop where
  coherent : Coherent Entry.position shard.keys shard.recency
  capped : shard.keys.entries.length ≤ p.perShardCap
  keys : ∀ key entry, shard.keys.lookup key = some entry →
    p.shardFor key = index ∧ usableKey key = true ∧ entry.Admissible p.config timely

structure Sound : Prop where
  checked : p.config.Checked
  fits : p.layout.Fits p.config
  global : p.global.Consistent p.config.histogramBins p.config.globalDecay
  ready : p.snapshot = none → 1 < p.config.numLevels.toNat
  boundaries : ∀ b ∈ p.snapshot, b.Shaped p.config.numLevels.toNat
  shards : ∀ index, p.Holds timely index (p.shards index)

variable {p timely}

theorem Sound.create {config : PerKeyPredictorConfig} {layout : Layout} (fits : layout.Fits config)
    (made : create platform config layout = .ok p) : p.Sound timely := by
  simp only [PerKeyPredictor.create, bind_ok] at made
  obtain ⟨_, valid, made⟩ := made
  obtain ⟨rfl, checked⟩ := validated_ok valid
  obtain rfl := Except.ok.inj made
  have none_held : ∀ key, (∅ : AList fun _ : Bytes => Entry).lookup key = none := AList.lookup_empty
  refine {
    checked, fits
    global := .create ..
    ready := ?_
    boundaries := ?_
    shards := fun index => ⟨.empty, Nat.zero_le _, fun key entry found => by cases (none_held key).symm.trans found⟩ }
  · intro absent
    dsimp only at absent ⊢
    split at absent
    · cases absent
    next several =>
      have levels := checked.levels
      have single := mt UInt8.toNat_inj.mp several
      simp only [UInt8.toNat_one] at single
      omega
  · intro b present
    dsimp only at present ⊢
    split at present
    next one =>
      obtain rfl := Option.some.inj present
      exact ⟨by rw [one]; rfl, fun nonempty => absurd rfl nonempty⟩
    · cases present

theorem Holds.mono {later : Time → Prop} (weaken : ∀ t, timely t → later t) {index : Nat} {shard : Shard}
    (holds : p.Holds timely index shard) : p.Holds later index shard :=
  { holds with
    keys := fun key entry found =>
      have ⟨here, usable, admissible⟩ := holds.keys key entry found
      ⟨here, usable, { admissible with timely := weaken _ admissible.timely }⟩ }

theorem Sound.mono {later : Time → Prop} (sound : p.Sound timely) (weaken : ∀ t, timely t → later t) : p.Sound later :=
  { sound with shards := fun index => (sound.shards index).mono weaken }

theorem Sound.withShard (sound : p.Sound timely) {index : Nat} {shard : Shard} (holds : p.Holds timely index shard) :
    (p.withShard index shard).Sound timely :=
  { sound with
    shards := fun other => by
      by_cases same : other = index
      · subst same
        rw [shards_withShard_self]
        exact { holds with }
      · rw [shards_withShard_of_ne p shard same]
        exact { sound.shards other with } }

theorem Sound.counted (sound : p.Sound timely) (counters : PredictorCounters) :
    ({ p with counters } : PerKeyPredictor platform).Sound timely :=
  { sound with shards := fun index => { sound.shards index with } }

section Shards
variable {index : Nat} {shard : Shard} {key : Bytes} {now : Time}

theorem admissible_fresh (checked : timely now) (position : Nat) :
    Entry.Admissible p.config timely
      { histogram := p.makeHistogram, position, lastActivity := now, lastDecay := now } where
  histogram := .create ..
  tier := by simp
  timely := checked

theorem Holds.insert (holds : p.Holds timely index shard) (room : shard.keys.entries.length < p.perShardCap)
    (absent : key ∉ shard.keys) (here : p.shardFor key = index) (usable : usableKey key = true) {entry : Entry}
    (placed : entry.position = shard.recency.next) (admissible : entry.Admissible p.config timely) :
    p.Holds timely index
      { shard with keys := shard.keys.insert key entry, recency := shard.recency.pushFront key } where
  coherent := holds.coherent.install absent placed
  capped := by
    change (shard.keys.insert key entry).entries.length ≤ _
    rw [AList.entries_insert_of_notMem absent]
    exact room
  keys := by
    intro other found looked
    by_cases same : other = key
    · subst same
      rw [AList.lookup_insert] at looked
      exact ⟨here, usable, Option.some.inj looked ▸ admissible⟩
    · rw [AList.lookup_insert_ne same] at looked
      exact holds.keys other found looked

theorem Holds.renew (holds : p.Holds timely index shard) {old entry : Entry} (found : shard.keys.lookup key = some old)
    (kept : entry.position = old.position) (admissible : entry.Admissible p.config timely) :
    p.Holds timely index (PerKeyPredictor.renew shard key entry) where
  coherent := holds.coherent.renew found kept
  capped := by
    change (shard.keys.insert key _).entries.length ≤ _
    rw [length_insert_of_mem entry (mem_of_lookup_alist found)]
    exact holds.capped
  keys := by
    intro other entry' here
    by_cases same : other = key
    · subst same
      rw [PerKeyPredictor.renew, AList.lookup_insert] at here
      obtain rfl := Option.some.inj here
      have before := holds.keys other old found
      exact ⟨before.1, before.2.1, admissible⟩
    · rw [PerKeyPredictor.renew, AList.lookup_insert_ne same] at here
      exact holds.keys other entry' here

theorem Holds.evictIdle (holds : p.Holds timely index shard) {shard' : Shard}
    (evicted : p.evictIdle shard now = some shard') :
    p.Holds timely index shard' ∧ shard'.keys.entries.length < p.perShardCap ∧
      ∀ key, key ∉ shard.keys → key ∉ shard'.keys := by
  unfold PerKeyPredictor.evictIdle at evicted
  split at evicted
  · cases evicted
  next slot last =>
    split at evicted
    · cases evicted
    next old found =>
      obtain ⟨_, same⟩ := Option.ite_none_left_eq_some.mp evicted
      obtain rfl := Option.some.inj same
      have shorter := length_erase_of_mem (mem_of_lookup_alist found)
      refine ⟨⟨holds.coherent.evict last, shorter.le.trans holds.capped, ?_⟩, shorter.trans_le holds.capped, ?_⟩
      · intro key entry here
        by_cases same : key = slot.value
        · rw [same, AList.lookup_erase] at here
          cases here
        · rw [AList.lookup_erase_ne same] at here
          exact holds.keys key entry here
      · exact fun key absent member => absent (AList.mem_erase.mp member).2

theorem freshen_position (entry : Entry) : (p.freshen entry now).position = entry.position := by
  unfold PerKeyPredictor.freshen
  split
  · rfl
  · dsimp only
    split <;> rfl

theorem Admissible.freshen (lawful : platform.Lawful) {entry : Entry} (admissible : entry.Admissible p.config timely) :
    (p.freshen entry now).Admissible p.config timely := by
  unfold PerKeyPredictor.freshen
  split
  · exact { admissible with histogram := .create .., tier := by simp }
  · dsimp only
    split
    next decays =>
      have elapsed : 0 ≤ ((now - entry.lastDecay : Int) / 1000000 : ℚ) / p.config.timeHalfLife := by
        refine div_nonneg ((by norm_num : (0 : ℚ) ≤ 1000).trans decays.2) ?_
        exact_mod_cast decays.1.le
      exact { admissible with
        histogram := admissible.histogram.shrink (lawful.positive _ elapsed) (lawful.small _ elapsed) }
    · exact admissible

/-- The entry of a touched key, in the shard that now has the key. -/
theorem Holds.touch (lawful : platform.Lawful) (holds : p.Holds timely index shard) (here : p.shardFor key = index)
    (usable : usableKey key = true) (recent : timely now) {entry : Entry} {shard' : Shard}
    (touched : p.touchLocked shard key now = some (entry, shard')) :
    p.Holds timely index shard' ∧ entry.Admissible p.config timely ∧
      ∃ old, shard'.keys.lookup key = some old ∧ entry.position = old.position := by
  have installed : ∀ shard, p.Holds timely index shard → shard.keys.entries.length < p.perShardCap → key ∉ shard.keys →
      p.installEntry shard key now = (entry, shard') → p.Holds timely index shard' ∧ entry.Admissible p.config timely ∧
        ∃ old, shard'.keys.lookup key = some old ∧ entry.position = old.position := by
    intro shard holds room absent same
    obtain ⟨rfl, rfl⟩ := Prod.mk.inj same
    have fresh : Entry.Admissible p.config timely (p.installEntry shard key now).1 := admissible_fresh recent _
    exact ⟨holds.insert room absent here usable rfl fresh, fresh, _, AList.lookup_insert _, rfl⟩
  unfold PerKeyPredictor.touchLocked at touched
  split at touched
  next absent =>
    have absent := AList.lookup_eq_none.mp absent
    split at touched
    · obtain ⟨room, evicted, same⟩ := Option.map_eq_some_iff.mp touched
      obtain ⟨holds, space, kept⟩ := holds.evictIdle evicted
      exact installed room holds space (kept key absent) same
    next space => exact installed shard holds (not_le.mp space) absent (Option.some.inj touched)
  next old found =>
    obtain ⟨rfl, rfl⟩ := Prod.mk.inj (Option.some.inj touched)
    exact ⟨holds, Admissible.freshen lawful (holds.keys key old found).2.2, old, found, freshen_position old⟩

end Shards

section Calls
variable (lawful : platform.Lawful) {now : Time} (recent : timely now)
include lawful recent

theorem Sound.recordKey (sound : p.Sound timely) {key : Bytes} (usable : usableKey key = true) {duration : ℚ}
    (measured : 0 ≤ duration) : (p.recordKey key duration now).Sound timely := by
  simp only [PerKeyPredictor.recordKey]
  split
  · exact sound.counted _
  next entry shard touched =>
    obtain ⟨holds, admissible, old, found, kept⟩ := (sound.shards _).touch lawful rfl usable recent touched
    refine sound.withShard (holds.renew found kept ?_)
    have bins : p.layout.bins = p.config.histogramBins := sound.fits.1
    have learned := (bins ▸ admissible.histogram).add sound.checked.decay.1 sound.checked.decay.2 measured
    exact { admissible with histogram := bins ▸ learned, timely := recent }

theorem Sound.observeCensored (sound : p.Sound timely) (key : Bytes) : (p.observeCensored now key).2.Sound timely := by
  unfold PerKeyPredictor.observeCensored
  split
  · exact sound.counted _
  next usable =>
    dsimp only
    split
    · exact sound.counted _
    next entry shard touched =>
      have usable : usableKey key = true := by simpa using usable
      obtain ⟨holds, admissible, old, found, kept⟩ := (sound.shards _).touch lawful rfl usable recent touched
      have taught : Entry.Admissible p.config timely
          { entry with histogram := entry.histogram.addCensored, lastActivity := now } := { admissible with
        histogram := admissible.histogram.addCensored sound.checked.decay.1 sound.checked.decay.2, timely := recent }
      have renewed : p.Holds timely (p.shardFor key) (PerKeyPredictor.renew shard key
        { entry with histogram := entry.histogram.addCensored, lastActivity := now }) := holds.renew found kept taught
      exact (sound.counted _).withShard { renewed with }

omit lawful recent in
/-- Fresh boundaries are published only if they are valid, and old ones are held one by one. -/
theorem Sound.refreshBoundariesLocked (sound : p.Sound timely) : p.refreshBoundariesLocked.Sound timely := by
  have publish : ∀ bounds : List ℚ, bounds.length = p.config.numLevels.toNat - 1 → validBoundaries bounds = true →
      ({ p with
        snapshot := some ⟨p.counters.snapshots + 1, bounds⟩
        counters := { p.counters with snapshots := p.counters.snapshots + 1 } } :
          PerKeyPredictor platform).Sound timely := by
    intro bounds length valid
    exact { sound with
      ready := nofun
      boundaries := fun b present => Option.some.inj present ▸ ⟨length, fun _ => valid⟩
      shards := fun index => { sound.shards index with } }
  simp only [PerKeyPredictor.refreshBoundariesLocked]
  generalize quantiles : (List.range (p.config.numLevels.toNat - 1)).map _ = fresh
  have length : fresh.length = p.config.numLevels.toNat - 1 := by rw [← quantiles, List.length_map, List.length_range]
  split
  · exact sound.counted _
  next checked =>
    have valid : validBoundaries fresh = true := by simpa using checked
    split
    · exact publish fresh length valid
    next current known =>
      have held : (p.holdBoundaries fresh current.boundariesMs).length = p.config.numLevels.toNat - 1 := by
        rw [PerKeyPredictor.holdBoundaries, List.length_zipWith, length, (sound.boundaries current known).length,
          Nat.min_self]
      generalize choice : (if validBoundaries (p.holdBoundaries fresh current.boundariesMs) = true then _ else fresh) = chosen
      have chosen_length : chosen.length = p.config.numLevels.toNat - 1 := by
        rw [← choice]
        split
        · exact held
        · exact length
      have chosen_valid : validBoundaries chosen = true := by
        rw [← choice]
        split
        next stays => exact stays
        · exact valid
      split
      · exact sound
      · exact publish chosen chosen_length chosen_valid

omit lawful recent in
theorem Sound.observeGlobal (sound : p.Sound timely) {duration : ℚ} (measured : 0 ≤ duration) :
    (p.observeGlobal duration).Sound timely := by
  have bins : p.layout.bins = p.config.histogramBins := sound.fits.1
  have global := (bins ▸ sound.global).add sound.checked.globalDecay.1 sound.checked.globalDecay.2 measured
  simp only [PerKeyPredictor.observeGlobal]
  generalize counted : PredictorCounters.mk _ _ _ _ _ _ _ = counters
  have learned : ({ p with
      global := (p.global.add p.layout duration).1, globalObservations := p.globalObservations + 1, counters } :
        PerKeyPredictor platform).Sound timely :=
    { sound with global := bins ▸ global, shards := fun index => { sound.shards index with } }
  split
  · exact learned.refreshBoundariesLocked
  · exact learned

theorem Sound.observe (sound : p.Sound timely) (key parent : Bytes) (duration : ℚ) :
    (p.observe now key parent duration).2.Sound timely := by
  unfold PerKeyPredictor.observe
  split
  · exact sound.counted _
  next accepted =>
    simp only [not_or, not_and, not_lt, Bool.not_eq_true', Bool.not_eq_false, ne_eq] at accepted
    obtain ⟨usable, parental, measured⟩ := accepted
    have own := sound.recordKey lawful recent usable measured
    refine Sound.observeGlobal ?_ measured
    split
    · exact own
    next named => exact own.recordKey lawful recent (parental named) measured

omit lawful recent in
theorem tierOf_le (bounds : List ℚ) (value : ℚ) : tierOf bounds value ≤ bounds.length := (List.takeWhile_sublist _).length_le

omit lawful recent in
theorem heldTier_lt (sound : p.Sound timely) {b : BoundarySnapshot} (present : b ∈ p.snapshot) {held : Option Nat}
    (known : ∀ tier ∈ held, tier < p.config.numLevels.toNat) (estimate : ℚ) :
    p.heldTier b.boundariesMs held estimate < p.config.numLevels.toNat := by
  have fresh : tierOf b.boundariesMs estimate < p.config.numLevels.toNat := by
    have bound := tierOf_le b.boundariesMs estimate
    have length := (sound.boundaries b present).length
    have levels := sound.checked.levels
    omega
  cases held with
  | none => exact fresh
  | some tier =>
    simp only [PerKeyPredictor.heldTier]
    generalize (if tier = 0 then (0 : ℚ) else _) = low
    split
    · exact known tier rfl
    · exact fresh

omit lawful recent in
theorem evaluate_entry (entry : Entry) (b : BoundarySnapshot) :
    (p.evaluate entry b).2 = entry ∨
      (p.evaluate entry b).2 =
        { entry with tier := some (p.heldTier b.boundariesMs entry.tier (p.estimate entry.histogram)) } := by
  simp only [PerKeyPredictor.evaluate]
  split
  · exact .inl rfl
  · split
    · exact .inl rfl
    · split
      · exact .inl rfl
      · split
        · exact .inl rfl
        · exact .inr rfl

omit lawful in
theorem Sound.predict (sound : p.Sound timely) (key : Bytes) : (p.predict now key).2.Sound timely := by
  unfold PerKeyPredictor.predict
  split
  · exact sound
  · split
    · exact sound
    next b present =>
      dsimp only
      split
      · exact sound
      next entry found =>
        split
        · exact sound
        · have holds := sound.shards (p.shardFor key)
          have admissible := (holds.keys key entry found).2.2
          refine sound.withShard (holds.renew found ?_ ?_)
          · rcases evaluate_entry (p := p) { entry with lastActivity := now } b with same | same <;> rw [same]
          · rcases evaluate_entry (p := p) { entry with lastActivity := now } b with same | same <;> rw [same]
            · exact { admissible with timely := recent }
            · exact { admissible with
                timely := recent
                tier := fun tier held => Option.some.inj held ▸ heldTier_lt sound present admissible.tier _ }

end Calls

end PerKeyPredictor

end Harbinger.Ml
