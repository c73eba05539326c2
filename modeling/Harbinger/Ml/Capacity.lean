import Harbinger.Ml.Eviction

/-! How many keys a predictor tracks, and which keys of a file it restores. Each shard has an
equal share of the cap, rounded up, and `load` fills a shard from the oldest key on. -/

namespace Harbinger.Ml.PerKeyPredictor
open Container
variable {platform : Platform} {p : PerKeyPredictor platform}

theorem shares_le {maxKeys shards : Nat} (divides : shards ∣ maxKeys) :
    shards * ((maxKeys + shards - 1) % 2 ^ 64 / shards) ≤ maxKeys := by
  rcases Nat.eq_zero_or_pos shards with rfl | positive
  · simp
  · obtain ⟨share, rfl⟩ := divides
    refine Nat.mul_le_mul_left shards ?_
    calc (shards * share + shards - 1) % 2 ^ 64 / shards
        ≤ (shards * share + shards - 1) / shards := Nat.div_le_div_right (Nat.mod_le ..)
      _ = share := by
        rw [Nat.add_sub_assoc positive, Nat.mul_add_div positive, Nat.div_eq_of_lt (by omega), add_zero]

/-- The cap holds in every run, whatever files are loaded, if the shards share it evenly. -/
theorem keys_capped (lawful : platform.Lawful) {host : Host} {now : Time} (reachable : Reachable host true p now)
    (even : p.config.shards ∣ p.config.maxKeys) : p.trackedKeys ≤ p.config.maxKeys :=
  (trackedKeys_le_caps (reachable.sound lawful)).trans (shares_le even)

theorem keys_capped_taught : (sampleTaught 16384).trackedKeys ≤ (sampleTaught 16384).config.maxKeys :=
  keys_capped plain_lawful (sampleTaught_reachable (by decide +kernel) : Reachable Host.plain true (sampleTaught 16384) 0)
    (by decide +kernel)

/-- A cap of three keys for two shards. -/
def sampleUneven : PerKeyPredictor .plain :=
  { samplePredictor with config := { samplePredictorConfig with maxKeys := 3, shards := 2 } }

/-- Two keys go to each shard. -/
def sampleCrowded : PerKeyPredictor .plain :=
  [ascii "a", ascii "b", ascii "aa", ascii "bb"].foldl (fun p key => (p.observe 0 key [] 100).2) sampleUneven

theorem cap_exceeded : Reachable Host.plain false sampleCrowded 0 ∧ sampleCrowded.config.maxKeys = 3 ∧
    sampleCrowded.trackedKeys = 4 := by
  have made : create .plain { samplePredictorConfig with maxKeys := 3, shards := 2 } sampleLayout = .ok sampleUneven := by
    have valid : validated { samplePredictorConfig with maxKeys := 3, shards := 2 } =
        .ok { samplePredictorConfig with maxKeys := 3, shards := 2 } := by decide +kernel
    rw [create, valid]
    rfl
  have start : Clock.Reading 0 := ⟨le_rfl, by decide⟩
  refine ⟨?_, by decide +kernel, by decide +kernel⟩
  exact .observed (.observed (.observed (.observed (.created ⟨rfl, rfl, rfl⟩ made start) le_rfl start ..) le_rfl start ..)
    le_rfl start ..) le_rfl start ..

/-! ### Which keys of a file are restored -/

/-- The keys of a file that belong to a shard. -/
def keysFor (p : PerKeyPredictor platform) (index : Nat) (keys : List KeyCopy) : List KeyCopy :=
  keys.filter fun k => p.shardFor k.key = index

/-- The shard holds as many of the listed keys as fit, and none in place of a preferred one. -/
structure Selects (cap : Nat) (preferred : KeyCopy → KeyCopy → Prop) (listed : List KeyCopy) (shard : Shard) : Prop where
  source : ∀ key ∈ shard.keys, key ∈ listed.map KeyCopy.key
  number : shard.keys.entries.length = min cap listed.length
  choice : ∀ kept ∈ listed, kept.key ∈ shard.keys → ∀ dropped ∈ listed, dropped.key ∉ shard.keys → preferred kept dropped

section Restore
variable {now : Time}

/-- While keys are restored in order, each shard holds the first of those that belong to it. -/
structure Filled (p : PerKeyPredictor platform) (seen : List KeyCopy) (restored : Nat × PerKeyPredictor platform) : Prop where
  config : restored.2.config = p.config
  held : ∀ index key, key ∈ (restored.2.shards index).keys ↔
    key ∈ ((p.keysFor index seen).take p.perShardCap).map KeyCopy.key
  number : ∀ index, (restored.2.shards index).keys.entries.length = ((p.keysFor index seen).take p.perShardCap).length

theorem Filled.start (p : PerKeyPredictor platform) : Filled p [] (0, p.clearKeys) where
  config := rfl
  held := fun index key => by
    rw [keysFor, List.filter_nil, List.take_nil, List.map_nil]
    exact iff_of_false (AList.notMem_empty key) List.not_mem_nil
  number := fun index => by
    rw [keysFor, List.filter_nil, List.take_nil]
    rfl

theorem keysFor_concat (index : Nat) (seen : List KeyCopy) (k : KeyCopy) :
    p.keysFor index (seen ++ [k]) = p.keysFor index seen ++ if p.shardFor k.key = index then [k] else [] := by
  simp only [keysFor, List.filter_append, List.filter_cons, List.filter_nil, decide_eq_true_eq]

theorem Filled.step {seen : List KeyCopy} {restored : Nat × PerKeyPredictor platform} (filled : Filled p seen restored)
    {k : KeyCopy} (fresh : k.key ∉ seen.map KeyCopy.key) : Filled p (seen ++ [k]) (restoreKey now restored k) := by
  obtain ⟨count, q⟩ := restored
  obtain ⟨config, held, number⟩ := filled
  dsimp only at config held number
  have cap : q.perShardCap = p.perShardCap := by rw [perShardCap, perShardCap, config]
  have home : q.shardFor k.key = p.shardFor k.key := by rw [shardFor, shardFor, config]
  have elsewhere : ∀ index, p.shardFor k.key ≠ index → p.keysFor index (seen ++ [k]) = p.keysFor index seen := by
    intro index other
    rw [keysFor_concat, if_neg other, List.append_nil]
  have here : p.keysFor (p.shardFor k.key) (seen ++ [k]) = p.keysFor (p.shardFor k.key) seen ++ [k] := by
    rw [keysFor_concat, if_pos rfl]
  have length := number (p.shardFor k.key)
  rw [List.length_take] at length
  rcases restoreKey_cases now count q k with ⟨same, skipped⟩ | ⟨shard, rfl, room, absent, same⟩
  · -- a key is skipped because its shard is full, never because it is there already
    rw [home, cap] at skipped
    have full : p.perShardCap ≤ (p.keysFor (p.shardFor k.key) seen).length := by
      rcases skipped with full | known
      · omega
      · obtain ⟨copy, taken, named⟩ := List.mem_map.mp ((held _ _).mp known)
        have copied := List.mem_of_mem_filter (List.mem_of_mem_take taken)
        exact absurd (List.mem_map.mpr ⟨copy, copied, named⟩) fresh
    have unchanged : ∀ index, (p.keysFor index (seen ++ [k])).take p.perShardCap = (p.keysFor index seen).take p.perShardCap := by
      intro index
      by_cases own : p.shardFor k.key = index
      · rw [← own, here, List.take_append_of_le_length full]
      · rw [elsewhere index own]
    rw [same]
    exact ⟨config, fun index key => by rw [unchanged]; exact held index key, fun index => by rw [unchanged]; exact number index⟩
  · rw [home, cap] at room
    have short : (p.keysFor (p.shardFor k.key) seen).length < p.perShardCap := by omega
    have added : (p.keysFor (p.shardFor k.key) (seen ++ [k])).take p.perShardCap =
        (p.keysFor (p.shardFor k.key) seen).take p.perShardCap ++ [k] := by
      rw [here, List.take_of_length_le short.le, List.take_of_length_le]
      rw [List.length_append]
      exact short
    rw [same, home]
    refine ⟨config, fun index key => ?_, fun index => ?_⟩
    · dsimp only
      by_cases own : p.shardFor k.key = index
      · subst own
        rw [shards_withShard_self, AList.mem_insert, held, added, List.map_append, List.mem_append, List.map_singleton,
          List.mem_singleton, or_comm]
      · rw [shards_withShard_of_ne _ _ (Ne.symm own), elsewhere index own]
        exact held index key
    · dsimp only
      by_cases own : p.shardFor k.key = index
      · subst own
        rw [shards_withShard_self, AList.entries_insert_of_notMem (home ▸ absent), List.length_cons, number, added,
          List.length_append, List.length_singleton]
      · rw [shards_withShard_of_ne _ _ (Ne.symm own), elsewhere index own]
        exact number index

theorem Filled.all {keys seen : List KeyCopy} (distinct : ((seen ++ keys).map KeyCopy.key).Nodup)
    {restored : Nat × PerKeyPredictor platform} (filled : Filled p seen restored) :
    Filled p (seen ++ keys) (keys.foldl (restoreKey now) restored) := by
  induction keys generalizing seen restored with
  | nil => rwa [List.append_nil]
  | cons k rest known =>
    rw [← List.singleton_append, ← List.append_assoc] at distinct ⊢
    have earlier : ((seen ++ [k]).map KeyCopy.key).Nodup := by
      rw [List.map_append] at distinct
      exact (List.nodup_append.mp distinct).1
    have fresh : k.key ∉ seen.map KeyCopy.key := by
      rw [List.map_append, List.map_singleton] at earlier
      exact fun member => (List.nodup_append.mp earlier).2.2 _ member _ (List.mem_singleton_self _) rfl
    exact known distinct (filled.step fresh)

/-- A load restores the keys of a file that have been idle longest, as many as fit into each shard. -/
theorem load_keeps_oldest {host : Host} {context file : Bytes} {contents : SnapshotContents}
    (accepted : (parseSnapshot host p.config context file).1 = .ok contents)
    (distinct : (contents.keys.map KeyCopy.key).Nodup) (index : Nat) :
    Selects p.perShardCap (fun kept dropped => dropped.ageMs ≤ kept.ageMs) (p.keysFor index contents.keys)
      ((p.load host now context file).state.shards index) := by
  have order := host.sort_perm contents.keys
  have same : (p.keysFor index (host.sort contents.keys)).Perm (p.keysFor index contents.keys) := order.filter _
  have filled : Filled p (host.sort contents.keys)
      ((host.sort contents.keys).foldl (restoreKey now) (0, p.clearKeys)) :=
    (Filled.start p).all ((order.map KeyCopy.key).nodup_iff.mpr distinct)
  have shards : (p.load host now context file).state.shards =
      ((host.sort contents.keys).foldl (restoreKey now) (0, p.clearKeys)).2.shards := by
    rw [(load_of_parsed accepted now).2]
    rfl
  rw [shards]
  refine ⟨fun key member => ?_, ?_, ?_⟩
  · obtain ⟨copy, taken, named⟩ := List.mem_map.mp ((filled.held index key).mp member)
    exact List.mem_map.mpr ⟨copy, same.mem_iff.mp (List.mem_of_mem_take taken), named⟩
  · rw [filled.number, List.length_take, same.length_eq]
  · intro kept listed member dropped listed' absent
    obtain ⟨copy, taken, named⟩ := List.mem_map.mp ((filled.held index kept.key).mp member)
    -- the keys of the file are distinct, so the restored copy is the one that was read
    have copied : copy ∈ contents.keys := List.mem_of_mem_filter (same.mem_iff.mp (List.mem_of_mem_take taken))
    obtain rfl : copy = kept := List.inj_on_of_nodup_map distinct copied (List.mem_of_mem_filter listed) named
    have left : dropped ∈ (p.keysFor index (host.sort contents.keys)).drop p.perShardCap := by
      have somewhere := same.mem_iff.mpr listed'
      rw [← List.take_append_drop p.perShardCap (p.keysFor index _)] at somewhere
      refine (List.mem_append.mp somewhere).resolve_left fun first => absent ?_
      exact (filled.held index dropped.key).mpr (List.mem_map.mpr ⟨dropped, first, rfl⟩)
    have sorted : (p.keysFor index (host.sort contents.keys)).Pairwise fun first second => second.ageMs ≤ first.ageMs :=
      (host.sort_sorted contents.keys).filter _
    rw [← List.take_append_drop p.perShardCap (p.keysFor index _)] at sorted
    exact (List.pairwise_append.mp sorted).2.2 copy taken dropped left

end Restore

/-- Two keys, the second one second later than the first. -/
def sampleAged : PerKeyPredictor .plain := ((sampleTaught 16384).observe 1000000000 (ascii "m") [] 100).2

/-- Its file, for a predictor with room for one key. -/
def sampleOverfull : Bytes := sampleAged.save Host.plain 2000000000 (ascii "ctx")

theorem sampleOverfull_read : ∃ contents first second,
    (parseSnapshot Host.plain (sampleCapped 1).config (ascii "ctx") sampleOverfull).1 = .ok contents ∧
      contents.keys = [first, second] ∧ (first.key, first.ageMs) = (ascii "m", 1000) ∧
      (second.key, second.ageMs) = (ascii "k", 2000) := by
  have known : ((parseSnapshot Host.plain (sampleCapped 1).config (ascii "ctx") sampleOverfull).1.toOption.map fun contents =>
    contents.keys.map fun k => (k.key, k.ageMs)) = some [(ascii "m", 1000), (ascii "k", 2000)] := by decide +kernel
  obtain ⟨contents, accepted, listed⟩ := Option.map_eq_some_iff.mp known
  obtain ⟨first, rest, keys, newer, others⟩ := List.map_eq_cons_iff.mp listed
  obtain ⟨second, none, more, older, nothing⟩ := List.map_eq_cons_iff.mp others
  obtain rfl := List.map_eq_nil_iff.mp nothing
  refine ⟨contents, first, second, ?_, by rw [keys, more], newer, older⟩
  cases parsed : (parseSnapshot Host.plain (sampleCapped 1).config (ascii "ctx") sampleOverfull).1 with
  | error message =>
    rw [parsed] at accepted
    cases accepted
  | ok read =>
    rw [parsed] at accepted
    rw [Option.some.inj accepted]

/-- The key that would be recycled first is kept, and the one that was active last is dropped. -/
theorem overfull_keeps_idle : ∃ contents,
    (parseSnapshot Host.plain (sampleCapped 1).config (ascii "ctx") sampleOverfull).1 = .ok contents ∧
      (contents.keys.map KeyCopy.key).Nodup ∧
      ¬Selects (sampleCapped 1).perShardCap (fun kept dropped => kept.ageMs ≤ dropped.ageMs)
        ((sampleCapped 1).keysFor 0 contents.keys)
        (((sampleCapped 1).load Host.plain 2000000000 (ascii "ctx") sampleOverfull).state.shards 0) := by
  obtain ⟨contents, first, second, accepted, keys, newer, older⟩ := sampleOverfull_read
  obtain ⟨newerKey, newerAge⟩ := Prod.mk.inj newer
  obtain ⟨olderKey, olderAge⟩ := Prod.mk.inj older
  have kept : ascii "k" ∈ (((sampleCapped 1).load Host.plain 2000000000 (ascii "ctx") sampleOverfull).state.shards 0).keys := by
    decide +kernel
  have dropped : ascii "m" ∉ (((sampleCapped 1).load Host.plain 2000000000 (ascii "ctx") sampleOverfull).state.shards 0).keys := by
    decide +kernel
  have mine : (sampleCapped 1).keysFor 0 contents.keys = [first, second] := by
    have all : ∀ key, (sampleCapped 1).shardFor key = 0 := fun key => Nat.mod_one _
    simp only [keysFor, all, decide_true, List.filter_true, keys]
  refine ⟨contents, accepted, ?_, fun selects => ?_⟩
  · rw [keys, List.map_cons, List.map_cons, newerKey, olderKey]
    decide
  · rw [mine] at selects
    have wrong := selects.choice second (by simp) (olderKey ▸ kept) first (by simp) (newerKey ▸ dropped)
    rw [newerAge, olderAge] at wrong
    exact absurd wrong (by decide)

theorem load_keeps_oldest_overfull : ∃ contents,
    (parseSnapshot Host.plain (sampleCapped 1).config (ascii "ctx") sampleOverfull).1 = .ok contents ∧
      Selects (sampleCapped 1).perShardCap (fun kept dropped => dropped.ageMs ≤ kept.ageMs)
        ((sampleCapped 1).keysFor 0 contents.keys)
        (((sampleCapped 1).load Host.plain 2000000000 (ascii "ctx") sampleOverfull).state.shards 0) := by
  obtain ⟨contents, first, second, accepted, keys, newer, older⟩ := sampleOverfull_read
  refine ⟨contents, accepted, load_keeps_oldest accepted ?_ 0⟩
  rw [keys, List.map_cons, List.map_cons, (Prod.mk.inj newer).1, (Prod.mk.inj older).1]
  decide

end Harbinger.Ml.PerKeyPredictor
