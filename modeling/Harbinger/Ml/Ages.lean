import Harbinger.Ml.Restart

/-! When the keys of a loaded snapshot were last active. An age is a 64-bit number of milliseconds
and the clock counts nanoseconds, so the conversion of a long age wraps around. -/

namespace Harbinger.Ml

namespace PerKeyPredictor
variable {platform : Platform} {p : PerKeyPredictor platform} {now : Time}

/-- Every restored entry is one of the keys that were read. -/
theorem restored_entry (now : Time) (read keys : List KeyCopy) (inside : keys ⊆ read)
    (restored : Nat × PerKeyPredictor platform)
    (known : ∀ index key entry, (restored.2.shards index).keys.lookup key = some entry →
      ∃ k ∈ read, k.key = key ∧ ∃ position, entry = k.entry now position) :
    ∀ index key entry, ((keys.foldl (restoreKey now) restored).2.shards index).keys.lookup key = some entry →
      ∃ k ∈ read, k.key = key ∧ ∃ position, entry = k.entry now position := by
  induction keys generalizing restored with
  | nil => exact known
  | cons k rest ih =>
    obtain ⟨here, others⟩ := List.cons_subset.mp inside
    obtain ⟨count, q⟩ := restored
    rw [List.foldl_cons]
    apply ih others
    rcases restoreKey_cases now count q k with ⟨same, -⟩ | ⟨shard, rfl, room, absent, same⟩
    · rw [same]
      exact known
    · rw [same]
      intro index key entry found
      by_cases own : index = q.shardFor k.key
      · rw [own, shards_withShard_self] at found
        by_cases new : key = k.key
        · rw [new, AList.lookup_insert] at found
          exact ⟨k, here, new.symm, _, (Option.some.inj found).symm⟩
        · rw [AList.lookup_insert_ne new] at found
          exact known _ key entry found
      · rw [shards_withShard_of_ne _ _ own] at found
        exact known index key entry found

theorem applySnapshot_entry (host : Host) (p : PerKeyPredictor platform) (now : Time) (contents : SnapshotContents)
    {index : Nat} {key : Bytes} {entry : Entry}
    (found : ((p.applySnapshot host now contents).2.shards index).keys.lookup key = some entry) :
    ∃ k ∈ contents.keys, k.key = key ∧ ∃ position, entry = k.entry now position := by
  have sorted : host.sort contents.keys ⊆ contents.keys := fun k member => (host.sort_perm _).mem_iff.mp member
  refine restored_entry now contents.keys _ sorted (0, p.clearKeys) (fun index key entry found => ?_) index key entry found
  cases (AList.lookup_empty key).symm.trans found

theorem load_state (host : Host) (p : PerKeyPredictor platform) (now : Time) {context file : Bytes}
    {contents : SnapshotContents} (accepted : (parseSnapshot host p.config context file).1 = .ok contents) :
    (p.load host now context file).state = (p.applySnapshot host now contents).2 := by
  unfold load
  split
  · next parsed =>
    rw [parsed] at accepted
    cases accepted
  · next parsed =>
    rw [parsed] at accepted
    rw [Except.ok.inj accepted]

theorem restoredAt_short (reading : Clock.Reading now) {k : KeyCopy} (aged : 0 ≤ k.ageMs) (short : k.ageMs ≤ Clock.maxMs) :
    k.restoredAt now = now - Clock.ofMillis k.ageMs := by
  apply restoredAt_range reading aged
  have ticks : ∀ now age : Int, 0 ≤ now → age ≤ 9223372036854 → -2 ^ 63 ≤ now - age * 1000000 := by omega
  exact ticks now k.ageMs reading.1 short

end PerKeyPredictor

end Harbinger.Ml
