import Harbinger.Ml.Restore

/-! A saved snapshot read back: the readers undo the writers field by field, so that a load
under the same configuration restores every key with its histogram, tier and age. -/

namespace Harbinger.Ml
open Codec Codec.Reader Container

/-! ### The fields -/

/-- A rational that is a double. -/
def Host.Stores (host : Host) (value : ℚ) : Prop := host.decode (host.encode value) = some value

theorem reads_littleEndian {width n : Nat} (small : n < 256 ^ width) (message : String) :
    Reads (do return ofLittleEndian (← .take width message)) (littleEndian width n) n := by
  have taken := Reads.take (littleEndian width n) message
  rw [length_littleEndian] at taken
  have whole := taken.map ofLittleEndian
  rwa [ofLittleEndian_littleEndian small] at whole

theorem get8_reads {n : Nat} (small : n < 256) : Reads get8 (littleEndian 1 n) n := reads_littleEndian small _

theorem get32_reads {n : Nat} (small : n < 2 ^ 32) : Reads get32 (put32 n) n := reads_littleEndian small _

theorem get64_reads {n : Nat} (small : n < 2 ^ 64) : Reads get64 (put64 n) n := reads_littleEndian small _

theorem getInt32_reads {value : Int} (low : -2 ^ 31 ≤ value) (high : value < 2 ^ 31) :
    Reads getInt32 (putInt32 value) value := by
  have whole := (get32_reads (unsigned_lt 4 value)).map (signed 4)
  rwa [signed_unsigned (by norm_num; omega) (by norm_num; omega)] at whole

theorem getInt64_reads {value : Int} (low : -2 ^ 63 ≤ value) (high : value < 2 ^ 63) :
    Reads getInt64 (putInt64 value) value := by
  have whole := (get64_reads (unsigned_lt 8 value)).map (signed 8)
  rwa [signed_unsigned (by norm_num; omega) (by norm_num; omega)] at whole

theorem getText_reads {text : Bytes} {limit : Nat} (bounded : text.length ≤ limit) (small : limit < 2 ^ 32) :
    Reads (getText limit) (putText text) text :=
  (get32_reads (bounded.trans_lt small)).bind (.then (.refuse (not_lt.mpr bounded) _) (.take _ _))

variable {host : Host} {c : PerKeyPredictorConfig}

variable (host) in
theorem getDouble_reads (value : ℚ) : Reads (getDouble host) (host.encode value) (host.decode (host.encode value)) := by
  have taken := Reads.take (host.encode value) "snapshot truncated"
  rw [host.width] at taken
  exact taken.map host.decode

theorem getFinite_reads {value : ℚ} (stored : host.Stores value) (nonnegative : 0 ≤ value) :
    Reads (getFinite host) (host.encode value) value := by
  have read := getDouble_reads host value
  rw [stored] at read
  have whole : Reads (getFinite host) (host.encode value ++ []) value :=
    read.bind (.then (.refuse (by simpa using nonnegative) _) (.pure _))
  rwa [List.append_nil] at whole

/-- The numbers of a histogram are doubles and 64-bit counters. -/
structure DecayingHistogram.Stored (host : Host) (h : DecayingHistogram) : Prop where
  counts : ∀ count ∈ h.counts, host.Stores count
  scale : host.Stores h.scale
  total : host.Stores h.total
  sum : host.Stores h.sum
  censored : host.Stores h.censored
  observations : h.observations < 2 ^ 64

instance (host : Host) (value : ℚ) : Decidable (host.Stores value) := inferInstanceAs (Decidable (_ = _))

instance (host : Host) (h : DecayingHistogram) : Decidable (h.Stored host) :=
  decidable_of_iff ((∀ count ∈ h.counts, host.Stores count) ∧ host.Stores h.scale ∧ host.Stores h.total ∧
    host.Stores h.sum ∧ host.Stores h.censored ∧ h.observations < 2 ^ 64)
    ⟨fun ⟨counts, scale, total, sum, censored, observations⟩ => ⟨counts, scale, total, sum, censored, observations⟩,
      fun ⟨counts, scale, total, sum, censored, observations⟩ => ⟨counts, scale, total, sum, censored, observations⟩⟩

theorem getHistogram_reads {h : DecayingHistogram} {decay : ℚ} (stored : h.Stored host)
    (consistent : h.Consistent c.histogramBins decay) (other : ℚ) :
    Reads (getHistogram host c other) (putHistogram host h) { h with gain := 1 / other } := by
  have counts : Reads (Reader.times (getFinite host) c.histogramBins) (h.counts.flatMap host.encode) h.counts := by
    rw [← consistent.length]
    exact .list fun count member => getFinite_reads (stored.counts count member) (consistent.counts count member)
  have accepted : ¬(h.scale < 1 ∨ DecayingHistogram.renormalizeAt * 2 < h.scale ∨
      1 / 1000000 * max 1 h.total < |h.counts.sum - h.total|) := by
    simp only [not_or, not_lt]
    exact ⟨consistent.scaled, consistent.bounded, consistent.balanced⟩
  refine counts.bind ((getFinite_reads stored.scale (zero_le_one.trans consistent.scaled)).bind
    ((getFinite_reads stored.total consistent.total).bind ((getFinite_reads stored.sum consistent.sum).bind
      ((getFinite_reads stored.censored consistent.censored).bind ?_))))
  rw [← List.append_nil (put64 h.observations)]
  exact (get64_reads stored.observations).bind (.then (.refuse accepted _) (.pure _))

theorem positive_of_valid {bounds : List ℚ} (valid : PerKeyPredictor.validBoundaries bounds = true) :
    ∀ bound ∈ bounds, 0 < bound := by
  cases bounds with
  | nil => simp
  | cons first rest =>
    simp only [PerKeyPredictor.validBoundaries, List.head?_cons, Option.any_some, Bool.and_eq_true, decide_eq_true_eq]
      at valid
    have above := (List.pairwise_cons.mp (List.isChain_iff_pairwise.mp valid.2)).1
    exact List.forall_mem_cons.mpr ⟨valid.1, fun bound member => valid.1.trans (above bound member)⟩

structure BoundarySnapshot.Stored (host : Host) (b : BoundarySnapshot) : Prop where
  sequence : b.sequence < 2 ^ 64
  boundaries : ∀ bound ∈ b.boundariesMs, host.Stores bound

instance (host : Host) (b : BoundarySnapshot) : Decidable (b.Stored host) :=
  decidable_of_iff (b.sequence < 2 ^ 64 ∧ ∀ bound ∈ b.boundariesMs, host.Stores bound)
    ⟨fun ⟨sequence, boundaries⟩ => ⟨sequence, boundaries⟩, fun ⟨sequence, boundaries⟩ => ⟨sequence, boundaries⟩⟩

theorem getBoundaries_reads {snapshot : Option BoundarySnapshot}
    (shaped : ∀ b ∈ snapshot, b.Shaped c.numLevels.toNat ∧ b.Stored host) :
    Reads (getBoundaries host c) (putBoundaries host snapshot) snapshot := by
  cases snapshot with
  | none => exact (get8_reads (n := 0) (by decide)).bind (.pure _)
  | some b =>
    obtain ⟨⟨length, valid⟩, sequence, stored⟩ := shaped b rfl
    have levels := c.numLevels.toNat_lt
    have accepted : ¬(b.boundariesMs.length ≠ 0 ∧ ¬PerKeyPredictor.validBoundaries b.boundariesMs) := by
      rintro ⟨nonempty, invalid⟩
      exact invalid (valid fun empty => nonempty (by rw [empty]; rfl))
    have bounds : Reads (Reader.times (getFinite host) b.boundariesMs.length) (b.boundariesMs.flatMap host.encode)
        b.boundariesMs := by
      refine .list fun bound member => getFinite_reads (stored bound member) (le_of_lt ?_)
      exact positive_of_valid (valid (List.ne_nil_of_mem member)) bound member
    refine (get8_reads (n := 1) (by decide)).bind ((get64_reads sequence).bind
      ((get32_reads (length ▸ by omega)).bind (.then (.refuse (not_not.mpr length) _) ?_)))
    rw [← List.append_nil (b.boundariesMs.flatMap host.encode)]
    exact bounds.bind (.then (.refuse accepted _) (.pure _))

/-- A key as it is written, read under another decay. -/
def KeyCopy.reread (decay : ℚ) (k : KeyCopy) : KeyCopy :=
  { k with histogram := { k.histogram with gain := 1 / decay }, ageMs := max 0 k.ageMs }

structure KeyCopy.Stored (host : Host) (c : PerKeyPredictorConfig) (k : KeyCopy) : Prop where
  usable : usableKey k.key = true
  histogram : k.histogram.Stored host
  consistent : ∃ decay, k.histogram.Consistent c.histogramBins decay
  age : k.ageMs < 2 ^ 63
  tier : -1 ≤ k.tier ∧ k.tier < c.numLevels.toNat

theorem getKey_reads {k : KeyCopy} (stored : k.Stored host c) :
    Reads (getKey host c) (putKey host k) (k.reread c.decay) := by
  have levels := c.numLevels.toNat_lt
  have usable := stored.usable
  simp only [usableKey, Bool.and_eq_true, bne_iff_ne, ne_eq, decide_eq_true_eq] at usable
  obtain ⟨decay, consistent⟩ := stored.consistent
  have tier := stored.tier
  have age := stored.age
  have accepted : ¬(max 0 k.ageMs < 0 ∨ k.tier < -1 ∨ (c.numLevels.toNat : Int) ≤ k.tier) := by omega
  refine (getText_reads usable.2 (by decide)).bind (.then (.refuse usable.1 _)
    ((getHistogram_reads stored.histogram consistent c.decay).bind
      ((getInt64_reads (by omega) (by omega)).bind ?_)))
  rw [← List.append_nil (putInt32 k.tier)]
  exact (getInt32_reads (by omega) (by omega)).bind (.then (.refuse accepted _) (.pure _))

/-! ### The copies of a predictor -/

theorem tdiv_million_le (ticks : Int) : ticks.tdiv 1000000 ≤ max 0 ticks := by
  rcases le_total 0 ticks with nonnegative | negative
  · rw [Int.tdiv_eq_ediv_of_nonneg nonnegative]
    omega
  · have mirrored := Int.neg_tdiv ticks 1000000
    have quotient := Int.tdiv_nonneg (neg_nonneg.mpr negative) (by decide : (0 : Int) ≤ 1000000)
    omega

def Entry.copy (now : Time) (key : Bytes) (entry : Entry) : KeyCopy where
  key := key
  histogram := entry.histogram
  ageMs := entry.ageMs now
  tier := entry.tierNumber

namespace PerKeyPredictor
variable {platform : Platform} {p : PerKeyPredictor platform} {timely : Time → Prop} {now : Time}

/-- The values of the predictor fit the fields they are written to. -/
structure Storable (host : Host) (p : PerKeyPredictor platform) (now : Time) : Prop where
  layout : host.Stores p.config.minMs ∧ host.Stores p.config.maxMs
  global : p.global.Stored host
  observations : p.globalObservations < 2 ^ 64
  boundaries : ∀ b ∈ p.snapshot, b.Stored host
  entries : ∀ key entry, p.find? key = some entry →
    entry.histogram.Stored host ∧ now - entry.lastActivity < 2 ^ 63

theorem entries_of_shards {property : Entry → Prop} (shards : 1 ≤ p.config.shards)
    (each : ∀ index ∈ List.range p.config.shards, ∀ item ∈ (p.shards index).keys.entries, property item.2) :
    ∀ key entry, p.find? key = some entry → property entry := by
  intro key entry found
  exact each (p.shardFor key) (List.mem_range.mpr (Nat.mod_lt _ shards)) ⟨key, entry⟩ (AList.mem_lookup_iff.mp found)

theorem mem_copyKeys (sound : p.Sound timely) {k : KeyCopy} :
    k ∈ p.copyKeys host now ↔ ∃ key entry, p.find? key = some entry ∧ k = entry.copy now key := by
  simp only [copyKeys, List.mem_flatMap, List.mem_range, List.mem_map, (host.walk_perm _).mem_iff]
  constructor
  · rintro ⟨index, _, ⟨key, entry⟩, member, rfl⟩
    have found := AList.mem_lookup_iff.mpr member
    have here := ((sound.shards index).keys key entry found).1
    exact ⟨key, entry, by rw [find?, here]; exact found, rfl⟩
  · rintro ⟨key, entry, found, rfl⟩
    exact ⟨p.shardFor key, Nat.mod_lt _ sound.checked.shards, ⟨key, entry⟩, AList.mem_lookup_iff.mp found, rfl⟩

theorem nodup_copyKeys (sound : p.Sound timely) : ((p.copyKeys host now).map KeyCopy.key).Nodup := by
  rw [copyKeys, List.map_flatMap, List.nodup_flatMap]
  have keys : ∀ index, (((host.walk (p.shards index).keys.entries).map fun item => item.2.copy now item.1).map
      KeyCopy.key).Perm (p.shards index).keys.keys := by
    intro index
    rw [List.map_map]
    exact (host.walk_perm _).map _
  constructor
  · intro index _
    exact (keys index).nodup_iff.mpr (p.shards index).keys.keys_nodup
  · refine List.nodup_range.imp_of_mem ?_
    intro first second _ _ different
    rw [Function.onFun, List.disjoint_left]
    intro key here there
    apply different
    have placed : ∀ index, key ∈ (p.shards index).keys.keys → p.shardFor key = index := by
      intro index member
      obtain ⟨entry, found⟩ := Option.isSome_iff_exists.mp (AList.lookup_isSome.mpr (AList.mem_keys.mpr member))
      exact ((sound.shards index).keys key entry found).1
    exact (placed first ((keys first).mem_iff.mp here)).symm.trans (placed second ((keys second).mem_iff.mp there))

theorem length_copyKeys (p : PerKeyPredictor platform) (host : Host) (now : Time) :
    (p.copyKeys host now).length = p.trackedKeys := by
  rw [copyKeys, List.length_flatMap, trackedKeys]
  simp only [List.length_map, (host.walk_perm _).length_eq]
  rfl

theorem trackedKeys_le_caps (sound : p.Sound timely) : p.trackedKeys ≤ p.config.shards * p.perShardCap := by
  have bound := Finset.sum_le_card_nsmul (Finset.range p.config.shards)
    (fun index => (p.shards index).keys.entries.length) p.perShardCap fun index _ => (sound.shards index).capped
  rwa [Finset.card_range, smul_eq_mul] at bound

theorem trackedKeys_le (sound : p.Sound timely) :
    p.trackedKeys ≤ (p.config.maxKeys + p.config.shards - 1) % 2 ^ 64 :=
  (trackedKeys_le_caps sound).trans (Nat.mul_div_le ..)

theorem stored_copy (sound : p.Sound timely) (storable : p.Storable host now) {k : KeyCopy}
    (member : k ∈ p.copyKeys host now) : k.Stored host p.config := by
  obtain ⟨key, entry, found, rfl⟩ := (mem_copyKeys sound).mp member
  obtain ⟨_, usable, admissible⟩ := (sound.shards _).keys key entry found
  exact {
    usable
    histogram := (storable.entries key entry found).1
    consistent := ⟨_, admissible.histogram⟩
    age := by
      have bound : Int.bmod (now - entry.lastActivity) (2 ^ 64) < 2 ^ 63 :=
        (Int.bmod_lt (by decide)).trans_le (by decide)
      exact (tdiv_million_le _).trans_lt (max_lt (by decide) bound)
    tier := by
      have high := admissible.tier
      change -1 ≤ entry.tierNumber ∧ entry.tierNumber < p.config.numLevels.toNat
      rw [Entry.tierNumber]
      cases held : entry.tier with
      | none => exact ⟨le_rfl, by simp; omega⟩
      | some tier =>
        have bound := high tier held
        simp only [Option.map_some, Option.getD_some, Int.ofNat_eq_natCast]
        omega }

/-! ### The file -/

/-- What the file of a predictor holds for a reader with the configuration `c`. -/
def contentsFor (host : Host) (p : PerKeyPredictor platform) (now : Time) (c : PerKeyPredictorConfig) :
    SnapshotContents where
  boundaries := p.snapshot
  global := { p.global with gain := 1 / c.globalDecay }
  globalObservations := p.globalObservations
  keys := (p.copyKeys host now).map (KeyCopy.reread c.decay)

theorem readPreamble_reads (sound : p.Sound timely) (storable : p.Storable host now) {context : Bytes}
    (short : context.length ≤ maxContextBytes) :
    Reads (readPreamble host p.config context)
      (put32 snapshotVersion ++ (put32 byteOrder ++ (putText context ++ (put32 p.config.histogramBins ++
        (host.encode p.config.minMs ++ (host.encode p.config.maxMs ++ put32 p.config.numLevels.toNat)))))) () := by
  have bins := sound.checked.bins
  have levels := p.config.numLevels.toNat_lt
  have low := getDouble_reads host p.config.minMs
  have high := getDouble_reads host p.config.maxMs
  rw [storable.layout.1] at low
  rw [storable.layout.2] at high
  refine (get32_reads (by decide)).bind (.then (.refuse (not_not.mpr rfl) _) ((get32_reads (by decide)).bind
    (.then (.refuse (not_not.mpr rfl) _) ((getText_reads short (by decide)).bind (.then (.refuse (not_not.mpr rfl) _)
      ((get32_reads (by omega)).bind (.then (.refuse (not_not.mpr rfl) _) (low.bind (.then (.refuse (not_not.mpr rfl) _)
        (high.bind (.then (.refuse (not_not.mpr rfl) _) ?_)))))))))))
  rw [← List.append_nil (put32 p.config.numLevels.toNat)]
  exact (get32_reads (by omega)).bind (.refuse (not_not.mpr rfl) _)

theorem readSnapshot_finishes (sound : p.Sound timely) (storable : p.Storable host now)
    (counted : p.config.maxKeys + p.config.shards < 2 ^ 64) {context : Bytes} (short : context.length ≤ maxContextBytes) :
    Finishes (readSnapshot host p.config context) ((p.snapshotBody host now context).drop snapshotMagic.length)
      (p.contentsFor host now p.config) := by
  have keys := trackedKeys_le sound
  rw [← length_copyKeys p host now, Nat.mod_eq_of_lt (by omega)] at keys
  have capped : ¬(p.config.maxKeys + p.config.shards) % 2 ^ 64 < (p.copyKeys host now).length := by
    rw [Nat.mod_eq_of_lt counted]
    omega
  rw [snapshotBody, List.drop_left]
  refine .bind (readPreamble_reads sound storable short) (.bind
    (getBoundaries_reads fun b present => ⟨sound.boundaries b present, storable.boundaries b present⟩) (.bind
      (getHistogram_reads storable.global sound.global _) (.bind (get64_reads storable.observations) (.bind
        (get64_reads (by omega)) ?_))))
  have copies : Reads (Reader.times (getKey host p.config) (p.copyKeys host now).length)
      ((p.copyKeys host now).flatMap (putKey host)) ((p.copyKeys host now).map (KeyCopy.reread p.config.decay)) :=
    .times fun k member => getKey_reads (stored_copy sound storable member)
  rw [← List.append_nil ((p.copyKeys host now).flatMap (putKey host))]
  exact .then (.refuse capped _) (.bind copies (.done (.then (.refuse (by simp) _) (.of_reads (.pure _)))))

/-- A signed file is read behind its magic bytes. -/
theorem parseSnapshot_signed (host : Host) (c : PerKeyPredictorConfig) (context tail : Bytes) {file : Bytes}
    (signed : file = (snapshotMagic ++ tail) ++ put64 (fnv1a (snapshotMagic ++ tail)).toNat)
    (bounded : file.length ≤ maxSnapshotBytes) :
    (parseSnapshot host c context file).1 = ((readSnapshot host c context).start { data := tail }).1 := by
  have checksum : (put64 (fnv1a (snapshotMagic ++ tail)).toNat).length = 8 := length_littleEndian 8 _
  have length : file.length - 8 = (snapshotMagic ++ tail).length := by
    rw [signed, List.length_append, checksum, Nat.add_sub_cancel]
  have magic : snapshotMagic.length = 8 := by decide
  have sized : ¬(maxSnapshotBytes < file.length ∨ file.length < snapshotMagic.length + 8) := by
    rw [List.length_append] at length
    omega
  have body : file.take (file.length - 8) = snapshotMagic ++ tail := by rw [length, signed, List.take_left]
  have trailer : file.drop (file.length - 8) = put64 (fnv1a (snapshotMagic ++ tail)).toNat := by
    rw [length, signed, List.drop_left]
  have named : file.take 8 = snapshotMagic := by
    rw [signed, List.append_assoc, ← magic, List.take_left]
  have sum : ofLittleEndian (put64 (fnv1a (snapshotMagic ++ tail)).toNat) = (fnv1a (snapshotMagic ++ tail)).toNat :=
    ofLittleEndian_littleEndian (UInt64.toNat_lt _)
  have rest : (snapshotMagic ++ tail).drop 8 = tail := by rw [← magic, List.drop_left]
  rw [parseSnapshot, if_neg sized]
  dsimp only
  rw [if_neg (not_not.mpr named), body, trailer, sum, if_neg (not_not.mpr rfl), rest]

theorem save_signed (p : PerKeyPredictor platform) (host : Host) (now : Time) (context : Bytes) :
    p.save host now context =
      (snapshotMagic ++ (p.snapshotBody host now context).drop snapshotMagic.length) ++
        put64 (fnv1a (snapshotMagic ++ (p.snapshotBody host now context).drop snapshotMagic.length)).toNat := by
  have body : snapshotMagic ++ (p.snapshotBody host now context).drop snapshotMagic.length =
      p.snapshotBody host now context := by
    rw [snapshotBody, List.drop_left]
  rw [body]
  rfl

theorem inside_start (data : Bytes) : Cursor.Inside { data } := ⟨Nat.zero_le _, by simp⟩

theorem parseSnapshot_save (sound : p.Sound timely) (storable : p.Storable host now)
    (counted : p.config.maxKeys + p.config.shards < 2 ^ 64) {context : Bytes} (short : context.length ≤ maxContextBytes)
    (bounded : (p.save host now context).length ≤ maxSnapshotBytes) :
    (parseSnapshot host p.config context (p.save host now context)).1 = .ok (p.contentsFor host now p.config) := by
  rw [parseSnapshot_signed host _ _ _ (p.save_signed host now context) bounded]
  obtain ⟨last, ran⟩ := readSnapshot_finishes sound storable counted short
    { data := (p.snapshotBody host now context).drop snapshotMagic.length } (inside_start _) rfl
  rw [ran]

/-- A reader that gets past the first checks has the layout and the levels of the writer. -/
theorem readPreamble_run (sound : p.Sound timely) {context other : Bytes}
    {c : PerKeyPredictorConfig} (short : context.length ≤ maxContextBytes) {rest : Bytes} {β : Type}
    {next : Unit → Reader β} {result : β} {start last : Cursor} (inside : start.Inside)
    (remains : start.rest = (put32 snapshotVersion ++ (put32 byteOrder ++ (putText context ++
      (put32 p.config.histogramBins ++ (host.encode p.config.minMs ++ (host.encode p.config.maxMs ++
        put32 p.config.numLevels.toNat)))))) ++ rest)
    (ran : (readPreamble host c other >>= next).start start = (.ok result, last)) :
    c.histogramBins = p.config.histogramBins ∧ c.numLevels = p.config.numLevels ∧
      ∃ c', c'.Inside ∧ c'.rest = rest ∧ (next ()).start c' = (.ok result, last) := by
  have bins := sound.checked.bins
  have levels := p.config.numLevels.toNat_lt
  simp only [readPreamble, bind_assoc] at ran
  simp only [List.append_assoc] at remains
  obtain ⟨_, inside, remains, ran⟩ := (get32_reads (by decide)).run inside remains ran
  obtain ⟨_, inside, remains, ran⟩ := (get32_reads (by decide)).run inside remains (run_refuse ran).2
  obtain ⟨_, inside, remains, ran⟩ := (getText_reads short (by decide)).run inside remains (run_refuse ran).2
  obtain ⟨_, inside, remains, ran⟩ := (get32_reads (by omega)).run inside remains (run_refuse ran).2
  obtain ⟨same, ran⟩ := run_refuse ran
  obtain ⟨_, inside, remains, ran⟩ := (getDouble_reads host p.config.minMs).run inside remains ran
  obtain ⟨_, inside, remains, ran⟩ := (getDouble_reads host p.config.maxMs).run inside remains (run_refuse ran).2
  obtain ⟨_, inside, remains, ran⟩ := (get32_reads (by omega)).run inside remains (run_refuse ran).2
  obtain ⟨equal, ran⟩ := run_refuse ran
  exact ⟨(not_not.mp same).symm, UInt8.toNat_inj.mp (not_not.mp equal).symm, _, inside, remains, ran⟩

/-- Under any configuration an accepted file of a predictor holds what was written. -/
theorem contents_of_saved (sound : p.Sound timely) (storable : p.Storable host now) {context other : Bytes}
    {c : PerKeyPredictorConfig} (short : context.length ≤ maxContextBytes)
    (bounded : (p.save host now context).length ≤ maxSnapshotBytes) {contents : SnapshotContents}
    (accepted : (parseSnapshot host c other (p.save host now context)).1 = .ok contents) :
    contents = p.contentsFor host now c := by
  have counted : p.trackedKeys < 2 ^ 64 := (trackedKeys_le sound).trans_lt (Nat.mod_lt _ (by decide))
  rw [parseSnapshot_signed host _ _ _ (p.save_signed host now context) bounded, snapshotBody, List.drop_left] at accepted
  rcases ran : (readSnapshot host c other).start _ with ⟨outcome, last⟩
  rw [ran] at accepted
  dsimp only at accepted
  subst accepted
  unfold readSnapshot at ran
  obtain ⟨bins, levels, _, inside, remains, ran⟩ := readPreamble_run sound short (inside_start _) rfl ran
  obtain ⟨_, inside, remains, ran⟩ := (getBoundaries_reads (c := c) fun b present =>
    ⟨levels ▸ sound.boundaries b present, storable.boundaries b present⟩).run inside remains ran
  obtain ⟨_, inside, remains, ran⟩ := (getHistogram_reads (c := c) storable.global (bins ▸ sound.global) _).run inside
    remains ran
  obtain ⟨_, inside, remains, ran⟩ := (get64_reads storable.observations).run inside remains ran
  obtain ⟨_, inside, remains, ran⟩ := (get64_reads (length_copyKeys p host now ▸ counted)).run inside remains ran
  rw [← List.append_nil ((p.copyKeys host now).flatMap (putKey host))] at remains
  have copies : Reads (Reader.times (getKey host c) (p.copyKeys host now).length)
      ((p.copyKeys host now).flatMap (putKey host)) ((p.copyKeys host now).map (KeyCopy.reread c.decay)) := by
    refine .times fun k member => getKey_reads ?_
    have stored := stored_copy sound storable member
    exact { stored with consistent := bins ▸ stored.consistent, tier := levels ▸ stored.tier }
  obtain ⟨_, inside, remains, ran⟩ := copies.run inside remains (run_refuse ran).2
  obtain ⟨_, _, ran⟩ := Accepts.bind ⟨_, _, ran⟩
  obtain ⟨_, _, ran⟩ := ran.bind
  exact (accepts_pure.mp ran).symm

end PerKeyPredictor

end Harbinger.Ml
