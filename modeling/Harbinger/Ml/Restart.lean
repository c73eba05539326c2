import Harbinger.Ml.Runs

/-! A predictor across a restart: its snapshot restores every key, whatever predictor of the
same configuration loads it. -/

namespace Harbinger.Ml
open Codec Container

/-- What a snapshot keeps of an entry. -/
def Entry.kept (now : Time) (entry : Entry) : DecayingHistogram × Option Nat × Int :=
  (entry.histogram, entry.tier, entry.ageMs now)

namespace PerKeyPredictor
variable {platform : Platform} {host : Host} {p q : PerKeyPredictor platform} {now later : Time}

/-- The entry of a saved key in the predictor that loads it. -/
def restoredEntry (p : PerKeyPredictor platform) (now later : Time) (key : Bytes) (entry : Entry) (position : Nat) : Entry :=
  ((entry.copy now key).reread p.config.decay).entry later position

/-- The keys in the order in which they are restored. -/
def restoreOrder (host : Host) (p : PerKeyPredictor platform) (now : Time) : List KeyCopy :=
  host.sort ((p.copyKeys host now).map (KeyCopy.reread p.config.decay))

section Restored
variable (sound : p.Sound (· ≤ now))
include sound

theorem mem_restoreOrder {k : KeyCopy} :
    k ∈ restoreOrder host p now ↔
      ∃ key entry, p.find? key = some entry ∧ k = (entry.copy now key).reread p.config.decay := by
  rw [restoreOrder, (host.sort_perm _).mem_iff, List.mem_map]
  constructor
  · rintro ⟨copy, member, rfl⟩
    obtain ⟨key, entry, found, rfl⟩ := (mem_copyKeys sound).mp member
    exact ⟨key, entry, found, rfl⟩
  · rintro ⟨key, entry, found, rfl⟩
    exact ⟨_, (mem_copyKeys sound).mpr ⟨key, entry, found, rfl⟩, rfl⟩

variable (host) in
/-- Every saved key finds room and is restored. -/
theorem restore_saved (same : q.config = p.config) (later : Time) :
    (q.applySnapshot host later (p.contentsFor host now p.config)).1 = p.trackedKeys ∧
      (∀ key, p.find? key = none →
        (q.applySnapshot host later (p.contentsFor host now p.config)).2.find? key = none) ∧
      ∀ key entry, p.find? key = some entry → ∃ position,
        (q.applySnapshot host later (p.contentsFor host now p.config)).2.find? key =
          some (p.restoredEntry now later key entry position) := by
  have order := host.sort_perm ((p.copyKeys host now).map (KeyCopy.reread p.config.decay))
  have distinct : ((restoreOrder host p now).map KeyCopy.key).Nodup := by
    have keys := order.map KeyCopy.key
    rw [List.map_map] at keys
    have copies : ((p.copyKeys host now).map KeyCopy.key).Nodup := nodup_copyKeys sound
    exact keys.nodup_iff.mpr copies
  have empty : ∀ key, q.clearKeys.find? key = none := fun key => AList.lookup_empty key
  have cap : q.clearKeys.perShardCap = p.perShardCap := by
    change (q.config.maxKeys + q.config.shards - 1) % 2 ^ 64 / q.config.shards = _
    rw [same]
    rfl
  have shard : ∀ key, q.clearKeys.shardFor key = p.shardFor key := fun key => by
    change platform.hash key % q.config.shards = _
    rw [same]
    rfl
  have known : ∀ k ∈ restoreOrder host p now, k.key ∈ (p.shards (q.clearKeys.shardFor k.key)).keys := by
    intro k member
    obtain ⟨key, entry, found, rfl⟩ := (mem_restoreOrder sound).mp member
    rw [shard]
    exact mem_of_lookup_alist found
  obtain ⟨count, each, others⟩ := restore_complete later p distinct (0, q.clearKeys)
    (fun index => cap ▸ (sound.shards index).capped) known (fun index key member => absurd member (AList.notMem_empty key))
    fun k _ => empty k.key
  refine ⟨?_, fun key absent => (others key ?_).trans (empty key), fun key entry found => ?_⟩
  · refine count.trans ?_
    rw [Nat.zero_add, restoreOrder, order.length_eq, List.length_map, length_copyKeys]
  · intro member
    obtain ⟨k, inside, rfl⟩ := List.mem_map.mp member
    obtain ⟨key, entry, found, rfl⟩ := (mem_restoreOrder sound).mp inside
    cases absent.symm.trans found
  · exact each _ ((mem_restoreOrder sound).mpr ⟨key, entry, found, rfl⟩)

variable (host) in
theorem restore_shared (same : q.config = p.config) (later : Time) :
    (q.applySnapshot host later (p.contentsFor host now p.config)).2.snapshot = p.snapshot ∧
      (q.applySnapshot host later (p.contentsFor host now p.config)).2.global = p.global := by
  constructor
  · change (if p.snapshot.isSome = true ∨ 1 < q.config.numLevels then p.snapshot else q.snapshot) = p.snapshot
    cases known : p.snapshot with
    | some b => exact if_pos (.inl rfl)
    | none => exact if_pos (.inr (same ▸ UInt8.lt_iff_toNat_lt.mpr (sound.ready known)))
  · change { p.global with gain := 1 / p.config.globalDecay } = p.global
    rw [← sound.global.gain]

theorem sorted_saved (reading : Clock.Reading later) :
    (q.applySnapshot host later (p.contentsFor host now p.config)).2.Sorted := by
  refine sorted_contents host fun k member => ?_
  obtain ⟨copy, copied, rfl⟩ := List.mem_map.mp member
  obtain ⟨key, entry, found, rfl⟩ := (mem_copyKeys sound).mp copied
  exact restoredAt_eq reading (le_max_left ..) (ofMillis_ageMs_lt entry now)

end Restored

/-- In range of the clock, the age of a restored entry is the one that was saved. -/
theorem ageMs_restoredEntry (reading : Clock.Reading later) {key : Bytes} {entry : Entry} (timely : entry.lastActivity ≤ now)
    (recent : now - entry.lastActivity < 2 ^ 63) (position : Nat) :
    (p.restoredEntry now later key entry position).ageMs later = entry.ageMs now := by
  have limit := ofMillis_ageMs_lt entry now
  have restored : (p.restoredEntry now later key entry position).lastActivity =
      later - Clock.ofMillis (max 0 (entry.ageMs now)) := restoredAt_eq reading (le_max_left ..) limit
  have exact_difference : ∀ ticks : Int, 0 ≤ ticks → ticks < 2 ^ 63 → Int.bmod ticks (2 ^ 64) = ticks := by
    intro ticks _ _
    exact Int.bmod_eq_of_le_mul_two (by norm_num; omega) (by norm_num; omega)
  have aged : 0 ≤ entry.ageMs now := by
    rw [Entry.ageMs, exact_difference _ (Int.sub_nonneg_of_le timely) recent]
    exact Int.tdiv_nonneg (Int.sub_nonneg_of_le timely) (by decide)
  rw [max_eq_right aged] at restored limit
  have old : 0 ≤ Clock.ofMillis (entry.ageMs now) := Int.mul_nonneg aged (by decide)
  have difference : later - (p.restoredEntry now later key entry position).lastActivity = Clock.ofMillis (entry.ageMs now) := by
    rw [restored]
    exact Int.sub_sub_self later _
  conv_lhs => rw [Entry.ageMs, difference, exact_difference _ old limit]
  exact Int.mul_tdiv_cancel _ (by decide)

theorem kept_restoredEntry (reading : Clock.Reading later) {key : Bytes} {entry : Entry}
    (admissible : entry.Admissible p.config (· ≤ now)) (recent : now - entry.lastActivity < 2 ^ 63) (position : Nat) :
    (p.restoredEntry now later key entry position).kept later = entry.kept now := by
  have histogram : (p.restoredEntry now later key entry position).histogram = entry.histogram := by
    change { entry.histogram with gain := 1 / p.config.decay } = entry.histogram
    rw [← admissible.histogram.gain]
  have tier : (p.restoredEntry now later key entry position).tier = entry.tier := by
    change (if entry.tierNumber < 0 then none else some entry.tierNumber.toNat) = entry.tier
    rw [Entry.tierNumber]
    cases entry.tier with
    | none => rfl
    | some tier => exact if_neg (by simp)
  rw [Entry.kept, Entry.kept, histogram, tier, ageMs_restoredEntry reading admissible.timely recent]

theorem load_save (sound : p.Sound (· ≤ now)) (storable : p.Storable host now)
    (counted : p.config.maxKeys + p.config.shards < 2 ^ 64) {context : Bytes} (short : context.length ≤ maxContextBytes)
    (bounded : (p.save host now context).length ≤ maxSnapshotBytes) (same : q.config = p.config) (later : Time) :
    (q.load host later context (p.save host now context)).outcome =
        .ok (q.applySnapshot host later (p.contentsFor host now p.config)).1 ∧
      (q.load host later context (p.save host now context)).state =
        (q.applySnapshot host later (p.contentsFor host now p.config)).2 := by
  have parsed := parseSnapshot_save sound storable counted short bounded
  exact load_of_parsed (same.symm ▸ parsed) later

/-- A saved snapshot, loaded under the same configuration and context, restores every key, the
boundaries and the global histogram. -/
theorem snapshot_round_trip (lawful : platform.Lawful) (reachable : Reachable host false p now)
    (storable : p.Storable host now) (counted : p.config.maxKeys + p.config.shards < 2 ^ 64) {context : Bytes}
    (short : context.length ≤ maxContextBytes) (bounded : (p.save host now context).length ≤ maxSnapshotBytes)
    (same : q.config = p.config) (reading : Clock.Reading later) :
    (q.load host later context (p.save host now context)).outcome = .ok p.trackedKeys ∧
      (∀ key, ((q.load host later context (p.save host now context)).state.find? key).map (Entry.kept later) =
        (p.find? key).map (Entry.kept now)) ∧
      (q.load host later context (p.save host now context)).state.snapshot = p.snapshot ∧
      (q.load host later context (p.save host now context)).state.global = p.global ∧
      (q.load host later context (p.save host now context)).state.globalObservations = p.globalObservations ∧
      (q.load host later context (p.save host now context)).state.Sorted := by
  have sound := reachable.steady lawful
  obtain ⟨outcome, state⟩ := load_save sound storable counted short bounded same later
  obtain ⟨count, absent, present⟩ := restore_saved host sound same later
  rw [outcome, state]
  obtain ⟨boundaries, global⟩ := restore_shared host sound same later
  refine ⟨congrArg Except.ok count, fun key => ?_, boundaries, global, rfl, sorted_saved sound reading⟩
  cases found : p.find? key with
  | none => rw [absent key found]; rfl
  | some entry =>
    obtain ⟨position, restored⟩ := present key entry found
    have admissible := ((sound.shards _).keys key entry found).2.2
    rw [restored, Option.map_some, Option.map_some,
      kept_restoredEntry reading admissible (storable.entries key entry found).2]

theorem Sound.distinct {timely : Time → Prop} (sound : p.Sound timely) {key : Bytes} {first second : Nat}
    (here : key ∈ (p.shards first).keys) (there : key ∈ (p.shards second).keys) : first = second := by
  have placed : ∀ index, key ∈ (p.shards index).keys → p.shardFor key = index := by
    intro index member
    obtain ⟨entry, found⟩ := Option.isSome_iff_exists.mp (AList.lookup_isSome.mpr member)
    exact ((sound.shards index).keys key entry found).1
  exact (placed first here).symm.trans (placed second there)

section Sample

theorem plain_lawful : Platform.plain.Lawful := ⟨fun _ _ => zero_le_one, fun _ _ => le_rfl⟩

/-- The sample predictor with another cap. -/
def sampleCapped (maxKeys : Nat) : PerKeyPredictor .plain :=
  { samplePredictor with config := { samplePredictorConfig with maxKeys } }

/-- It has seen one job of 100 ms. -/
def sampleTaught (maxKeys : Nat) : PerKeyPredictor .plain := ((sampleCapped maxKeys).observe 0 (ascii "k") [] 100).2

theorem sampleCapped_reachable {foreign : Bool} {maxKeys : Nat}
    (valid : validated { samplePredictorConfig with maxKeys } = .ok { samplePredictorConfig with maxKeys }) :
    Reachable Host.plain foreign (sampleCapped maxKeys) 0 := by
  have made : create .plain { samplePredictorConfig with maxKeys } sampleLayout = .ok (sampleCapped maxKeys) := by
    rw [create, valid]
    rfl
  exact .created ⟨rfl, rfl, rfl⟩ made ⟨le_rfl, by decide⟩

theorem sampleTaught_reachable {foreign : Bool} {maxKeys : Nat}
    (valid : validated { samplePredictorConfig with maxKeys } = .ok { samplePredictorConfig with maxKeys }) :
    Reachable Host.plain foreign (sampleTaught maxKeys) 0 := by
  have start : Clock.Reading 0 := ⟨le_rfl, by decide⟩
  exact .observed (sampleCapped_reachable valid) le_rfl start ..

theorem sampleTaught_storable {maxKeys : Nat} (cap : maxKeys = 16384 ∨ maxKeys = 2 ^ 64 - 1) :
    (sampleTaught maxKeys).Storable Host.plain 0 := by
  rcases cap with rfl | rfl
  all_goals exact {
    layout := by decide +kernel
    global := by decide +kernel
    observations := by decide +kernel
    boundaries := by decide +kernel
    entries := entries_of_shards (by decide +kernel) (by decide +kernel) }

/-- A load at another clock reading. -/
theorem snapshot_round_trip_taught :
    ((sampleCapped 16384).load Host.plain 7 (ascii "ctx") ((sampleTaught 16384).save Host.plain 0 (ascii "ctx"))).outcome =
        .ok (sampleTaught 16384).trackedKeys ∧
      ((sampleCapped 16384).load Host.plain 7 (ascii "ctx")
        ((sampleTaught 16384).save Host.plain 0 (ascii "ctx"))).state.snapshot = (sampleTaught 16384).snapshot := by
  have reachable : Reachable Host.plain false (sampleTaught 16384) 0 := sampleTaught_reachable (by decide +kernel)
  have counted : (sampleTaught 16384).config.maxKeys + (sampleTaught 16384).config.shards < 2 ^ 64 := by decide +kernel
  have short : (ascii "ctx").length ≤ maxContextBytes := by decide +kernel
  have bounded : ((sampleTaught 16384).save Host.plain 0 (ascii "ctx")).length ≤ maxSnapshotBytes := by decide +kernel
  have same : (sampleCapped 16384).config = (sampleTaught 16384).config := by decide +kernel
  have reading : Clock.Reading 7 := ⟨by decide, by decide⟩
  have restored := snapshot_round_trip plain_lawful reachable (sampleTaught_storable (.inl rfl)) counted short bounded same
    reading
  exact ⟨restored.1, restored.2.2.1⟩

/-- With the largest cap, the sum of the cap and the shards wraps around to zero, and the
snapshot of a single key is refused. -/
theorem largest_cap_refused : Reachable Host.plain false (sampleTaught (2 ^ 64 - 1)) 0 ∧
    (sampleTaught (2 ^ 64 - 1)).Storable Host.plain 0 ∧
    ((sampleTaught (2 ^ 64 - 1)).save Host.plain 0 (ascii "ctx")).length ≤ maxSnapshotBytes ∧
    ((sampleTaught (2 ^ 64 - 1)).load Host.plain 0 (ascii "ctx")
      ((sampleTaught (2 ^ 64 - 1)).save Host.plain 0 (ascii "ctx"))).outcome =
        .error "snapshot holds more keys than the cap" :=
  ⟨sampleTaught_reachable (by decide +kernel), sampleTaught_storable (.inr rfl), by decide +kernel, by decide +kernel⟩

/-- A file with two keys of the given ages, as anyone who can compute the checksum may write it. -/
def sampleForged (first second : Int) : Bytes :=
  let p := sampleTaught 16384
  let copy (name : String) (ageMs : Int) : KeyCopy := { key := ascii name, histogram := p.makeHistogram, ageMs, tier := -1 }
  let body := snapshotMagic ++ (put32 snapshotVersion ++ (put32 byteOrder ++ (putText [] ++ (put32 8 ++
    (Host.plain.encode 1 ++ (Host.plain.encode 128 ++ (put32 2 ++ (putBoundaries Host.plain none ++
      (putHistogram Host.plain p.global ++ (put64 1 ++ (put64 2 ++
        [copy "a" first, copy "b" second].flatMap (putKey Host.plain))))))))))))
  body ++ put64 (fnv1a body).toNat

instance (p : PerKeyPredictor platform) (index : Nat) :
    Decidable (Ordered Entry.lastActivity (p.shards index).keys (p.shards index).recency) :=
  inferInstanceAs (Decidable (List.Pairwise _ _))

end Sample

end PerKeyPredictor

end Harbinger.Ml
