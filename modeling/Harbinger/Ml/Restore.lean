import Harbinger.Ml.Invariant
import Harbinger.Ml.Snapshot

/-! What `load` makes of a file: an accepted file has valid contents whatever its bytes are, and
applying valid contents gives a sound predictor whose keys are the ones counted. -/

namespace Harbinger.Ml
open Codec Container

/-! ### Accepted files -/

structure KeyCopy.Valid (c : PerKeyPredictorConfig) (k : KeyCopy) : Prop where
  usable : usableKey k.key = true
  histogram : k.histogram.Consistent c.histogramBins c.decay
  age : 0 ≤ k.ageMs
  tier : -1 ≤ k.tier ∧ k.tier < c.numLevels.toNat

structure SnapshotContents.Valid (c : PerKeyPredictorConfig) (contents : SnapshotContents) : Prop where
  boundaries : ∀ b ∈ contents.boundaries, b.Shaped c.numLevels.toNat
  global : contents.global.Consistent c.histogramBins c.globalDecay
  keys : ∀ k ∈ contents.keys, k.Valid c

section Accepted
variable {host : Host} {c : PerKeyPredictorConfig}

theorem getText_accepts {limit : Nat} {text : Bytes} (accepts : (getText limit).Accepts text) : text.length ≤ limit := by
  obtain ⟨size, _, accepts⟩ := accepts.bind
  obtain ⟨_, bounded, accepts⟩ := accepts.bind
  rw [accepts.take]
  exact not_lt.mp bounded.refuse

theorem getFinite_accepts {value : ℚ} (accepts : (getFinite host).Accepts value) : 0 ≤ value := by
  obtain ⟨read, _, accepts⟩ := accepts.bind
  obtain ⟨_, finite, accepts⟩ := accepts.bind
  obtain rfl := Reader.accepts_pure.mp accepts
  cases read with
  | none => exact le_rfl
  | some value => simpa using finite.refuse

theorem getHistogram_accepts {decay : ℚ} {h : DecayingHistogram} (accepts : (getHistogram host c decay).Accepts h) :
    h.Consistent c.histogramBins decay := by
  obtain ⟨counts, counted, accepts⟩ := accepts.bind
  obtain ⟨scale, _, accepts⟩ := accepts.bind
  obtain ⟨total, totalled, accepts⟩ := accepts.bind
  obtain ⟨sum, summed, accepts⟩ := accepts.bind
  obtain ⟨censored, marked, accepts⟩ := accepts.bind
  obtain ⟨observations, _, accepts⟩ := accepts.bind
  obtain ⟨_, consistent, accepts⟩ := accepts.bind
  obtain rfl := Reader.accepts_pure.mp accepts
  have consistent := consistent.refuse
  simp only [not_or, not_lt] at consistent
  obtain ⟨length, each⟩ := counted.times
  exact {
    length, gain := rfl
    counts := fun count member => getFinite_accepts (each count member)
    total := getFinite_accepts totalled
    sum := getFinite_accepts summed
    censored := getFinite_accepts marked
    scaled := consistent.1
    bounded := consistent.2.1
    balanced := consistent.2.2 }

theorem getBoundaries_accepts {boundaries : Option BoundarySnapshot} (accepts : (getBoundaries host c).Accepts boundaries) :
    ∀ b ∈ boundaries, b.Shaped c.numLevels.toNat := by
  obtain ⟨present, _, accepts⟩ := accepts.bind
  split at accepts
  · obtain rfl := Reader.accepts_pure.mp accepts
    exact nofun
  · obtain ⟨sequence, _, accepts⟩ := accepts.bind
    obtain ⟨count, _, accepts⟩ := accepts.bind
    obtain ⟨_, counted, accepts⟩ := accepts.bind
    obtain ⟨bounds, read, accepts⟩ := accepts.bind
    obtain ⟨_, valid, accepts⟩ := accepts.bind
    obtain rfl := Reader.accepts_pure.mp accepts
    have length := read.times.1
    intro b present
    obtain rfl := Option.some.inj present
    refine ⟨length.trans (not_not.mp counted.refuse), fun nonempty => ?_⟩
    by_contra invalid
    refine valid.refuse ⟨fun zero => nonempty ?_, invalid⟩
    exact List.length_eq_zero_iff.mp (length.trans zero)

theorem getKey_accepts {k : KeyCopy} (accepts : (getKey host c).Accepts k) : k.Valid c := by
  obtain ⟨key, read, accepts⟩ := accepts.bind
  obtain ⟨_, named, accepts⟩ := accepts.bind
  obtain ⟨histogram, weighed, accepts⟩ := accepts.bind
  obtain ⟨ageMs, _, accepts⟩ := accepts.bind
  obtain ⟨tier, _, accepts⟩ := accepts.bind
  obtain ⟨_, ranged, accepts⟩ := accepts.bind
  obtain rfl := Reader.accepts_pure.mp accepts
  have ranged := ranged.refuse
  simp only [not_or, not_lt, not_le] at ranged
  exact {
    usable := by simpa [usableKey] using ⟨named.refuse, getText_accepts read⟩
    histogram := getHistogram_accepts weighed
    age := ranged.1
    tier := ranged.2 }

theorem readSnapshot_accepts {context : Bytes} {contents : SnapshotContents}
    (accepts : (readSnapshot host c context).Accepts contents) : contents.Valid c := by
  obtain ⟨_, _, accepts⟩ := accepts.bind
  obtain ⟨boundaries, bounded, accepts⟩ := accepts.bind
  obtain ⟨global, weighed, accepts⟩ := accepts.bind
  obtain ⟨observations, _, accepts⟩ := accepts.bind
  obtain ⟨count, _, accepts⟩ := accepts.bind
  obtain ⟨_, _, accepts⟩ := accepts.bind
  obtain ⟨keys, read, accepts⟩ := accepts.bind
  obtain ⟨_, _, accepts⟩ := accepts.bind
  obtain ⟨_, _, accepts⟩ := accepts.bind
  obtain rfl := Reader.accepts_pure.mp accepts
  exact {
    boundaries := getBoundaries_accepts bounded
    global := getHistogram_accepts weighed
    keys := fun k member => getKey_accepts (read.times.2 k member) }

theorem parseSnapshot_valid {context file : Bytes} {contents : SnapshotContents}
    (accepted : (parseSnapshot host c context file).1 = .ok contents) : contents.Valid c := by
  unfold parseSnapshot at accepted
  split at accepted
  · cases accepted
  · dsimp only at accepted
    split at accepted
    · cases accepted
    · split at accepted
      · cases accepted
      · exact readSnapshot_accepts ⟨_, _, Prod.ext accepted rfl⟩

end Accepted

/-! ### Reads stay inside -/

section Confined
open Reader
variable (host : Host) (c : PerKeyPredictorConfig)

theorem confined_get8 : Confined get8 := .bind .take fun _ => .pure _

theorem confined_get32 : Confined get32 := .bind .take fun _ => .pure _

theorem confined_get64 : Confined get64 := .bind .take fun _ => .pure _

theorem confined_getText (limit : Nat) : Confined (getText limit) :=
  .bind confined_get32 fun _ => .bind .refuse fun _ => .take

theorem confined_getDouble : Confined (getDouble host) := .bind .take fun _ => .pure _

theorem confined_getFinite : Confined (getFinite host) :=
  .bind (confined_getDouble host) fun _ => .bind .refuse fun _ => .pure _

theorem confined_getHistogram (decay : ℚ) : Confined (getHistogram host c decay) :=
  have number := confined_getFinite host
  .bind (number.times _) fun _ => .bind number fun _ => .bind number fun _ => .bind number fun _ =>
    .bind number fun _ => .bind confined_get64 fun _ => .bind .refuse fun _ => .pure _

theorem confined_getBoundaries : Confined (getBoundaries host c) := by
  refine .bind confined_get8 fun present => ?_
  split
  · exact .pure _
  · exact .bind confined_get64 fun _ => .bind confined_get32 fun _ => .bind .refuse fun _ =>
      .bind ((confined_getFinite host).times _) fun _ => .bind .refuse fun _ => .pure _

theorem confined_getKey : Confined (getKey host c) :=
  .bind (confined_getText _) fun _ => .bind .refuse fun _ => .bind (confined_getHistogram host c _) fun _ =>
    .bind (.bind confined_get64 fun _ => .pure _) fun _ => .bind (.bind confined_get32 fun _ => .pure _) fun _ =>
      .bind .refuse fun _ => .pure _

theorem confined_readPreamble (context : Bytes) : Confined (readPreamble host c context) :=
  .bind confined_get32 fun _ => .bind .refuse fun _ => .bind confined_get32 fun _ => .bind .refuse fun _ =>
    .bind (confined_getText _) fun _ => .bind .refuse fun _ => .bind confined_get32 fun _ =>
      .bind .refuse fun _ => .bind (confined_getDouble host) fun _ => .bind .refuse fun _ =>
        .bind (confined_getDouble host) fun _ => .bind .refuse fun _ => .bind confined_get32 fun _ => .refuse

theorem confined_readSnapshot (context : Bytes) : Confined (readSnapshot host c context) :=
  .bind (confined_readPreamble host c context) fun _ => .bind (confined_getBoundaries host c) fun _ =>
    .bind (confined_getHistogram host c _) fun _ => .bind confined_get64 fun _ => .bind confined_get64 fun _ =>
      .bind .refuse fun _ => .bind ((confined_getKey host c).times _) fun _ => .bind .done fun _ =>
        .bind .refuse fun _ => .pure _

/-- Whatever the file holds, it is read inside its bytes only. -/
theorem parseSnapshot_inside (context file : Bytes) :
    ∀ extent ∈ (parseSnapshot host c context file).2, extent.1 + extent.2 ≤ file.length := by
  unfold parseSnapshot
  split
  · simp
  next sized =>
    have enough : 16 ≤ file.length := by
      simp only [not_or, not_lt] at sized
      exact sized.2
    have ends : ∀ extent ∈ [(file.length - 8, 8), (0, 8)], extent.1 + extent.2 ≤ file.length := by
      simp only [List.forall_mem_cons, List.not_mem_nil, false_imp_iff, implies_true, and_true]
      omega
    have whole : ∀ extent ∈ (0, file.length - 8) :: [(file.length - 8, 8), (0, 8)],
        extent.1 + extent.2 ≤ file.length := List.forall_mem_cons.mpr ⟨by dsimp only; omega, ends⟩
    dsimp only
    split
    · exact ends
    · split
      · exact whole
      · have inside : Cursor.Inside { data := (file.take (file.length - 8)).drop 8 } := ⟨Nat.zero_le _, by simp⟩
        obtain ⟨confined, same⟩ := confined_readSnapshot host c context _ inside
        have length : ((file.take (file.length - 8)).drop 8).length = file.length - 16 := by
          rw [List.length_drop, List.length_take]
          omega
        intro extent member
        rcases List.mem_append.mp member with read | other
        · obtain ⟨extent, inner, rfl⟩ := List.mem_map.mp read
          have bound := confined.extents extent inner
          rw [same, length] at bound
          dsimp only
          omega
        · exact whole extent other

end Confined

/-! ### Applying the contents -/

/-- When a restored key was last active, in the 64-bit arithmetic of the clock. -/
def KeyCopy.restoredAt (now : Time) (k : KeyCopy) : Time := Int.bmod (now - Clock.ofMillis k.ageMs) (2 ^ 64)

/-- The entry of a restored key. -/
def KeyCopy.entry (now : Time) (k : KeyCopy) (position : Nat) : Entry where
  histogram := k.histogram
  position := position
  lastActivity := k.restoredAt now
  lastDecay := k.restoredAt now
  tier := if k.tier < 0 then none else some k.tier.toNat

namespace PerKeyPredictor
variable {platform : Platform} {p : PerKeyPredictor platform} {timely : Time → Prop} {now : Time}

/-- `stats().keys`. -/
def trackedKeys (p : PerKeyPredictor platform) : Nat :=
  ∑ index ∈ Finset.range p.config.shards, (p.shards index).keys.entries.length

/-- The predictor while keys are restored: only its shards change, and the count is theirs. -/
structure Restoring (p : PerKeyPredictor platform) (timely : Time → Prop) (restored : Nat × PerKeyPredictor platform) :
    Prop where
  rest : ∃ shards, restored.2 = { p with shards }
  holds : ∀ index, restored.2.Holds timely index (restored.2.shards index)
  counted : restored.1 = restored.2.trackedKeys

theorem restoreKey_cases (now : Time) (count : Nat) (q : PerKeyPredictor platform) (k : KeyCopy) :
    (restoreKey now (count, q) k = (count, q) ∧ (q.perShardCap ≤ (q.shards (q.shardFor k.key)).keys.entries.length ∨
        k.key ∈ (q.shards (q.shardFor k.key)).keys)) ∨
      ∃ shard, shard = q.shards (q.shardFor k.key) ∧ shard.keys.entries.length < q.perShardCap ∧ k.key ∉ shard.keys ∧
        restoreKey now (count, q) k = (count + 1, q.withShard (q.shardFor k.key) { shard with
          keys := shard.keys.insert k.key (k.entry now shard.recency.next), recency := shard.recency.pushFront k.key }) := by
  simp only [restoreKey]
  split
  next skipped => exact .inl ⟨rfl, skipped⟩
  next kept =>
    simp only [not_or, not_le] at kept
    exact .inr ⟨_, rfl, kept.1, kept.2, rfl⟩

theorem applySnapshot_setting (host : Host) (p : PerKeyPredictor platform) (now : Time) (contents : SnapshotContents) :
    (p.applySnapshot host now contents).2.config = p.config ∧ (p.applySnapshot host now contents).2.layout = p.layout := by
  have fold : ∀ (keys : List KeyCopy) (restored : Nat × PerKeyPredictor platform),
      restored.2.config = p.config ∧ restored.2.layout = p.layout →
      (keys.foldl (restoreKey now) restored).2.config = p.config ∧ (keys.foldl (restoreKey now) restored).2.layout = p.layout := by
    intro keys
    induction keys with
    | nil => exact fun _ known => known
    | cons k keys rest =>
      rintro ⟨count, q⟩ known
      refine rest _ ?_
      rcases restoreKey_cases now count q k with ⟨skipped, -⟩ | ⟨shard, -, -, -, kept⟩
      · rw [skipped]
        exact known
      · rw [kept]
        exact known
  exact fold (host.sort contents.keys) (0, p.clearKeys) ⟨rfl, rfl⟩

theorem trackedKeys_withShard (p : PerKeyPredictor platform) {index : Nat} (inside : index < p.config.shards)
    (shard : Shard) : (p.withShard index shard).trackedKeys + (p.shards index).keys.entries.length =
      p.trackedKeys + shard.keys.entries.length := by
  have member : index ∈ Finset.range p.config.shards := Finset.mem_range.mpr inside
  have others : ∑ other ∈ (Finset.range p.config.shards).erase index,
      ((p.withShard index shard).shards other).keys.entries.length =
        ∑ other ∈ (Finset.range p.config.shards).erase index, (p.shards other).keys.entries.length :=
    Finset.sum_congr rfl fun other inner => by rw [shards_withShard_of_ne p shard (Finset.ne_of_mem_erase inner)]
  have before := Finset.add_sum_erase _ (fun other => (p.shards other).keys.entries.length) member
  have after := Finset.add_sum_erase _ (fun other => ((p.withShard index shard).shards other).keys.entries.length) member
  rw [others, shards_withShard_self] at after
  change ∑ other ∈ Finset.range p.config.shards, ((p.withShard index shard).shards other).keys.entries.length + _ = _
  rw [trackedKeys]
  omega

theorem Restoring.start (p : PerKeyPredictor platform) (timely : Time → Prop) : Restoring p timely (0, p.clearKeys) where
  rest := ⟨_, rfl⟩
  holds := fun index => ⟨.empty, Nat.zero_le _, fun key entry found => by
    have absent : (∅ : AList fun _ : Bytes => Entry).lookup key = none := AList.lookup_empty key
    cases absent.symm.trans found⟩
  counted := by
    rw [trackedKeys, Finset.sum_eq_zero]
    intro index _
    rfl

theorem KeyCopy.Valid.admissible {c : PerKeyPredictorConfig} {k : KeyCopy} (valid : k.Valid c)
    (recent : timely (k.restoredAt now)) (position : Nat) : (k.entry now position).Admissible c timely where
  histogram := valid.histogram
  tier := by
    intro tier held
    obtain ⟨nonnegative, same⟩ := Option.ite_none_left_eq_some.mp held
    have high := valid.tier.2
    rw [← Option.some.inj same]
    omega
  timely := recent

theorem Restoring.step (checked : p.config.Checked) {restored : Nat × PerKeyPredictor platform}
    (restoring : Restoring p timely restored) {k : KeyCopy} (valid : k.Valid p.config)
    (recent : timely (k.restoredAt now)) : Restoring p timely (restoreKey now restored k) := by
  obtain ⟨count, q⟩ := restored
  obtain ⟨⟨shards, rest⟩, holds, counted⟩ := restoring
  dsimp only at rest holds counted
  have config : q.config = p.config := by rw [rest]
  rcases restoreKey_cases now count q k with ⟨same, -⟩ | ⟨shard, found, room, absent, same⟩
  · rw [same]
    exact ⟨⟨shards, rest⟩, holds, counted⟩
  · rw [same]
    have here : q.shardFor k.key < q.config.shards := Nat.mod_lt _ (config ▸ checked.shards)
    have admissible := KeyCopy.Valid.admissible (config ▸ valid) recent shard.recency.next
    have inserted := (found ▸ holds _).insert room absent rfl valid.usable rfl admissible
    refine ⟨⟨_, by rw [rest]; rfl⟩, fun index => ?_, ?_⟩
    · dsimp only
      by_cases equal : index = q.shardFor k.key
      · subst equal
        rw [shards_withShard_self]
        exact { inserted with }
      · rw [shards_withShard_of_ne _ _ equal]
        exact { holds index with }
    · have total := trackedKeys_withShard q here { shard with
        keys := shard.keys.insert k.key (k.entry now shard.recency.next), recency := shard.recency.pushFront k.key }
      dsimp only at total ⊢
      rw [AList.entries_insert_of_notMem absent, List.length_cons, ← found] at total
      omega

theorem Restoring.all (checked : p.config.Checked) {keys : List KeyCopy} (valid : ∀ k ∈ keys, k.Valid p.config)
    (recent : ∀ k ∈ keys, timely (k.restoredAt now)) {restored : Nat × PerKeyPredictor platform}
    (restoring : Restoring p timely restored) : Restoring p timely (keys.foldl (restoreKey now) restored) := by
  induction keys generalizing restored with
  | nil => exact restoring
  | cons k rest known =>
    have next := restoring.step checked (valid k (List.mem_cons_self ..)) (recent k (List.mem_cons_self ..))
    exact known (fun other member => valid other (List.mem_cons_of_mem _ member))
      (fun other member => recent other (List.mem_cons_of_mem _ member)) next

/-- In a sound predictor the applied contents are sound again; the time of an entry is the
restored one. -/
theorem applySnapshot_sound (sound : p.Sound fun _ => True) (host : Host) {contents : SnapshotContents}
    (valid : contents.Valid p.config) (recent : ∀ k ∈ contents.keys, timely (k.restoredAt now)) :
    (p.applySnapshot host now contents).2.Sound timely ∧
      (p.applySnapshot host now contents).1 = (p.applySnapshot host now contents).2.trackedKeys := by
  have same := host.sort_perm contents.keys
  have restoring : Restoring p timely ((host.sort contents.keys).foldl (restoreKey now) (0, p.clearKeys)) :=
    (Restoring.start p timely).all sound.checked (fun k member => valid.keys k (same.mem_iff.mp member))
      fun k member => recent k (same.mem_iff.mp member)
  simp only [applySnapshot]
  generalize (host.sort contents.keys).foldl (restoreKey now) (0, p.clearKeys) = restored at restoring ⊢
  obtain ⟨count, q⟩ := restored
  obtain ⟨⟨shards, rest⟩, holds, counted⟩ := restoring
  dsimp only at rest holds counted ⊢
  subst rest
  refine ⟨?_, counted⟩
  exact {
    checked := sound.checked
    fits := sound.fits
    global := valid.global
    ready := by
      intro absent
      dsimp only at absent ⊢
      split at absent
      next replaced =>
        rcases replaced with present | levels
        · rw [absent] at present
          cases present
        · exact UInt8.lt_iff_toNat_lt.mp levels
      · exact sound.ready absent
    boundaries := by
      intro b present
      dsimp only at present ⊢
      split at present
      · exact valid.boundaries b present
      · exact sound.boundaries b present
    shards := fun index => { holds index with } }

/-- Every shard lists its keys with the most recent first. -/
def Sorted (p : PerKeyPredictor platform) : Prop :=
  ∀ index, Ordered Entry.lastActivity (p.shards index).keys (p.shards index).recency

/-- Keys restored from the oldest to the most recent are listed in the opposite order. -/
theorem restore_sorted {keys : List KeyCopy}
    (ascending : keys.Pairwise fun first second => first.restoredAt now ≤ second.restoredAt now)
    {restored : Nat × PerKeyPredictor platform}
    (coherent : ∀ index, Coherent Entry.position (restored.2.shards index).keys (restored.2.shards index).recency)
    (sorted : restored.2.Sorted)
    (older : ∀ index key entry, (restored.2.shards index).keys.lookup key = some entry →
      ∀ k ∈ keys, entry.lastActivity ≤ k.restoredAt now) : (keys.foldl (restoreKey now) restored).2.Sorted := by
  induction keys generalizing restored with
  | nil => exact sorted
  | cons k rest known =>
    obtain ⟨later, ascending⟩ := List.pairwise_cons.mp ascending
    rw [List.foldl_cons]
    obtain ⟨count, q⟩ := restored
    rcases restoreKey_cases now count q k with ⟨same, -⟩ | ⟨shard, rfl, room, absent, same⟩
    · rw [same]
      exact known ascending coherent sorted fun index key entry found other member =>
        older index key entry found other (List.mem_cons_of_mem _ member)
    · rw [same]
      refine known ascending (fun index => ?_) (fun index => ?_) fun index key entry found other member => ?_
      · by_cases here : index = q.shardFor k.key
        · rw [here, shards_withShard_self]
          exact (coherent _).install absent rfl
        · rw [shards_withShard_of_ne _ _ here]
          exact coherent index
      · by_cases here : index = q.shardFor k.key
        · rw [here, shards_withShard_self]
          exact (sorted _).install _ ((coherent _).listed_ne absent) fun key entry found =>
            older _ key entry found k (List.mem_cons_self ..)
        · rw [shards_withShard_of_ne _ _ here]
          exact sorted index
      · by_cases here : index = q.shardFor k.key
        · rw [here, shards_withShard_self] at found
          by_cases own : key = k.key
          · rw [own, AList.lookup_insert] at found
            obtain rfl := Option.some.inj found
            exact later other member
          · rw [AList.lookup_insert_ne own] at found
            exact older _ key entry found other (List.mem_cons_of_mem _ member)
        · rw [shards_withShard_of_ne _ _ here] at found
          exact older index key entry found other (List.mem_cons_of_mem _ member)

theorem sorted_contents (host : Host) {contents : SnapshotContents}
    (exact_ages : ∀ k ∈ contents.keys, k.restoredAt now = now - Clock.ofMillis k.ageMs) :
    (p.applySnapshot host now contents).2.Sorted := by
  have sorted : ((host.sort contents.keys).foldl (restoreKey now) (0, p.clearKeys)).2.Sorted := by
    refine restore_sorted ?_ (fun index => .empty) (fun index => .nil) fun index key entry found => ?_
    · refine List.Pairwise.imp_of_mem ?_ (host.sort_sorted _)
      intro first second here there older
      rw [exact_ages first ((host.sort_perm _).mem_iff.mp here), exact_ages second ((host.sort_perm _).mem_iff.mp there)]
      exact Int.sub_le_sub_left (Int.mul_le_mul_of_nonneg_right older (by decide)) _
    · cases (AList.lookup_empty key).symm.trans found
  exact sorted

/-- Distinct keys that fit into the shards are all restored, each as it was read. -/
theorem restore_complete (now : Time) (source : PerKeyPredictor platform) {keys : List KeyCopy}
    (distinct : (keys.map KeyCopy.key).Nodup) (restored : Nat × PerKeyPredictor platform)
    (fits : ∀ index, (source.shards index).keys.entries.length ≤ restored.2.perShardCap)
    (known : ∀ k ∈ keys, k.key ∈ (source.shards (restored.2.shardFor k.key)).keys)
    (subset : ∀ index key, key ∈ (restored.2.shards index).keys → key ∈ (source.shards index).keys)
    (absent : ∀ k ∈ keys, restored.2.find? k.key = none) :
    (keys.foldl (restoreKey now) restored).1 = restored.1 + keys.length ∧
      (∀ k ∈ keys, ∃ position, (keys.foldl (restoreKey now) restored).2.find? k.key = some (k.entry now position)) ∧
      ∀ key ∉ keys.map KeyCopy.key, (keys.foldl (restoreKey now) restored).2.find? key = restored.2.find? key := by
  induction keys generalizing restored with
  | nil => exact ⟨rfl, nofun, fun key _ => rfl⟩
  | cons k rest step =>
    obtain ⟨fresh, distinct⟩ := List.nodup_cons.mp distinct
    obtain ⟨count, q⟩ := restored
    have missing := AList.lookup_eq_none.mp (absent k (List.mem_cons_self ..))
    have listed : (k.key :: (q.shards (q.shardFor k.key)).keys.keys).Nodup :=
      List.nodup_cons.mpr ⟨mt AList.mem_keys.mpr missing, AList.keys_nodup _⟩
    have inside : k.key :: (q.shards (q.shardFor k.key)).keys.keys ⊆ (source.shards (q.shardFor k.key)).keys.keys :=
      List.cons_subset.mpr ⟨AList.mem_keys.mp (known k (List.mem_cons_self ..)),
        fun key member => AList.mem_keys.mp (subset _ key (AList.mem_keys.mpr member))⟩
    have smaller := (listed.subperm inside).length_le
    simp only [AList.keys, List.keys, List.length_cons, List.length_map] at smaller
    have room := fits (q.shardFor k.key)
    rcases restoreKey_cases now count q k with ⟨-, full | present⟩ | ⟨shard, rfl, _, _, same⟩
    · dsimp only at room
      omega
    · exact absurd present missing
    · have found : ∀ other, (restoreKey now (count, q) k).2.find? other =
          if other = k.key then some (k.entry now (q.shards (q.shardFor k.key)).recency.next) else q.find? other := by
        intro other
        rw [same]
        exact find?_withShard rfl other
      have different : ∀ other ∈ rest, other.key ≠ k.key := fun other member equal =>
        fresh (List.mem_map.mpr ⟨other, member, equal⟩)
      have subset' : ∀ index key, key ∈ ((restoreKey now (count, q) k).2.shards index).keys →
          key ∈ (source.shards index).keys := by
        rw [same]
        intro index key member
        by_cases here : index = q.shardFor k.key
        · rw [here, shards_withShard_self] at member
          rcases (AList.mem_insert _).mp member with rfl | member
          · exact here ▸ known k (List.mem_cons_self ..)
          · exact here ▸ subset _ key member
        · rw [shards_withShard_of_ne _ _ here] at member
          exact subset index key member
      have absent' : ∀ other ∈ rest, (restoreKey now (count, q) k).2.find? other.key = none := by
        intro other member
        rw [found, if_neg (different other member)]
        exact absent other (List.mem_cons_of_mem _ member)
      have known' : ∀ other ∈ rest,
          other.key ∈ (source.shards ((restoreKey now (count, q) k).2.shardFor other.key)).keys := by
        rw [same]
        exact fun other member => known other (List.mem_cons_of_mem _ member)
      obtain ⟨count', each, others⟩ := step distinct _ (by rw [same]; exact fits) known' subset' absent'
      have total : (restoreKey now (count, q) k).1 = count + 1 := by rw [same]
      refine ⟨by rw [List.foldl_cons, count', total, List.length_cons]; ring, List.forall_mem_cons.mpr ⟨⟨(q.shards (q.shardFor k.key)).recency.next, ?_⟩, each⟩, fun key outside => ?_⟩
      · rw [List.foldl_cons, others k.key fresh, found, if_pos rfl]
      · simp only [List.map_cons, List.mem_cons, not_or] at outside
        rw [List.foldl_cons, others key outside.2, found, if_neg outside.1]

end PerKeyPredictor

end Harbinger.Ml
