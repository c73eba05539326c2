import Harbinger.Ml.Predictor

/-! The predictor key by key: which entry a key has, whatever shard it is in. A call that
displaces no key changes the entries of its own keys only, as a function of what they were. -/

namespace Harbinger.Ml.PerKeyPredictor
variable {platform : Platform} {p : PerKeyPredictor platform}

theorem shards_withShard_self (p : PerKeyPredictor platform) (index : Nat) (shard : Shard) :
    (p.withShard index shard).shards index = shard := Function.update_self ..

theorem shards_withShard_of_ne (p : PerKeyPredictor platform) {index other : Nat} (shard : Shard)
    (different : other ≠ index) : (p.withShard index shard).shards other = p.shards other :=
  Function.update_of_ne different ..

/-- The entry of a key. -/
def find? (p : PerKeyPredictor platform) (key : Bytes) : Option Entry := (p.shards (p.shardFor key)).keys.lookup key

theorem find?_withShard {key : Bytes} {entry : Entry} {shard : Shard}
    (changed : shard.keys = (p.shards (p.shardFor key)).keys.insert key entry) (other : Bytes) :
    (p.withShard (p.shardFor key) shard).find? other = if other = key then some entry else p.find? other := by
  change ((p.withShard (p.shardFor key) shard).shards (p.shardFor other)).keys.lookup other = _
  by_cases same : other = key
  · rw [if_pos same, same, shards_withShard_self, changed, AList.lookup_insert]
  · rw [if_neg same]
    by_cases together : p.shardFor other = p.shardFor key
    · rw [together, shards_withShard_self, changed, AList.lookup_insert_ne same, find?, together]
    · rw [shards_withShard_of_ne p shard together]
      rfl

end Harbinger.Ml.PerKeyPredictor
