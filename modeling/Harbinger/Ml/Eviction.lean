import Harbinger.Ml.Boundaries

/-! Which keys a shard keeps. The recency list follows the times of the last activity, so the
key at the back is the one that has been idle longest, and only a full shard gives it up. -/

namespace Harbinger.Ml.PerKeyPredictor
open Container
variable {platform : Platform} {p : PerKeyPredictor platform} {now : Time}

/-- How long an entry has to be idle before it may be recycled. -/
def evictionLimit (p : PerKeyPredictor platform) (entry : Entry) : Int :=
  if entry.histogram.observations < p.config.minSamples then p.config.coldEvictionGrace else p.config.idleEviction

/-- A key that a full shard may give up: the least recently active one, after its limit. -/
structure Recyclable (p : PerKeyPredictor platform) (now : Time) (key : Bytes) (entry : Entry) : Prop where
  full : p.perShardCap ≤ (p.shards (p.shardFor key)).keys.entries.length
  last : (p.shards (p.shardFor key)).recency.back?.map Slot.value = some key
  least : ∀ other found, (p.shards (p.shardFor key)).keys.lookup other = some found →
    entry.lastActivity ≤ found.lastActivity
  limited : 0 < p.evictionLimit entry
  idle : Clock.ofMillis (p.evictionLimit entry) ≤ now - entry.lastActivity

section Shards
variable {shard room : Shard} {key : Bytes}

theorem evictIdle_cases (evicted : p.evictIdle shard now = some room) : ∃ slot old, shard.recency.back? = some slot ∧
    shard.keys.lookup slot.value = some old ∧ 0 < p.evictionLimit old ∧
    Clock.ofMillis (p.evictionLimit old) ≤ now - old.lastActivity ∧
    room = { keys := shard.keys.erase slot.value, recency := shard.recency.popBack, evictions := shard.evictions + 1 } := by
  unfold evictIdle at evicted
  split at evicted
  · cases evicted
  next slot last =>
    split at evicted
    · cases evicted
    next old found =>
      obtain ⟨due, same⟩ := Option.ite_none_left_eq_some.mp evicted
      simp only [not_or, not_le, not_lt] at due
      exact ⟨slot, old, last, found, due.1, due.2, (Option.some.inj same).symm⟩

theorem touchLocked_cases {entry : Entry} {shard' : Shard} (touched : p.touchLocked shard key now = some (entry, shard')) :
    (∃ old, shard.keys.lookup key = some old ∧ entry = p.freshen old now ∧ shard' = shard) ∨
      key ∉ shard.keys ∧ ∃ room, (entry, shard') = p.installEntry room key now ∧
        (room = shard ∨ p.perShardCap ≤ shard.keys.entries.length ∧ p.evictIdle shard now = some room) := by
  unfold touchLocked at touched
  split at touched
  next absent =>
    have absent := AList.lookup_eq_none.mp absent
    split at touched
    next full =>
      obtain ⟨room, evicted, same⟩ := Option.map_eq_some_iff.mp touched
      exact .inr ⟨absent, room, same.symm, .inr ⟨full, evicted⟩⟩
    · exact .inr ⟨absent, shard, (Option.some.inj touched).symm, .inl rfl⟩
  next old found =>
    obtain ⟨rfl, rfl⟩ := Prod.mk.inj (Option.some.inj touched)
    exact .inl ⟨old, found, rfl, rfl⟩

variable {index : Nat} (holds : p.Holds (· ≤ now) index shard) (ordered : Ordered Entry.lastActivity shard.keys shard.recency)
include holds ordered

theorem ordered_touch {entry : Entry} {shard' : Shard} (touched : p.touchLocked shard key now = some (entry, shard')) :
    Ordered Entry.lastActivity shard'.keys shard'.recency := by
  rcases touchLocked_cases touched with ⟨old, _, _, rfl⟩ | ⟨absent, room, installed, source⟩
  · exact ordered
  · obtain ⟨rfl, rfl⟩ := Prod.mk.inj installed
    have timely : ∀ shard, p.Holds (· ≤ now) index shard → Ordered Entry.lastActivity shard.keys shard.recency →
        key ∉ shard.keys → Ordered Entry.lastActivity (p.installEntry shard key now).2.keys
          (p.installEntry shard key now).2.recency := by
      intro shard holds ordered absent
      exact ordered.install _ (holds.coherent.listed_ne absent) fun other old found => (holds.keys other old found).2.2.timely
    rcases source with rfl | ⟨_, evicted⟩
    · exact timely room holds ordered absent
    · obtain ⟨kept, _, smaller⟩ := holds.evictIdle evicted
      refine timely room kept ?_ (smaller key absent)
      obtain ⟨slot, old, _, _, _, _, rfl⟩ := evictIdle_cases evicted
      exact ordered.evict _ slot.value

end Shards

theorem Sorted.withShard (sorted : p.Sorted) {index : Nat} {shard : Shard}
    (ordered : Ordered Entry.lastActivity shard.keys shard.recency) : (p.withShard index shard).Sorted := by
  intro other
  by_cases same : other = index
  · rw [same, shards_withShard_self]
    exact ordered
  · rw [shards_withShard_of_ne p shard same]
    exact sorted other

section Touched
variable (lawful : platform.Lawful) (sound : p.Sound (· ≤ now)) (sorted : p.Sorted) {key : Bytes}
  (usable : usableKey key = true) {entry taught : Entry} {shard : Shard}
  (touched : p.touchLocked (p.shards (p.shardFor key)) key now = some (entry, shard))

section Order
variable (kept : taught.position = entry.position) (current : taught.lastActivity = now)
include lawful sound sorted usable touched kept current

theorem Sorted.renew : (p.withShard (p.shardFor key) (PerKeyPredictor.renew shard key taught)).Sorted := by
  obtain ⟨holds, _, old, found, same⟩ := (sound.shards _).touch lawful rfl usable le_rfl touched
  have ordered := ordered_touch (sound.shards _) (sorted _) touched
  refine sorted.withShard (ordered.renew _ holds.coherent found (kept.trans same) fun other older looked => ?_)
  rw [current]
  exact (holds.keys other older looked).2.2.timely

end Order

theorem find?_renew_self : (p.withShard (p.shardFor key) (PerKeyPredictor.renew shard key taught)).find? key = some taught := by
  change ((p.withShard (p.shardFor key) _).shards (p.shardFor key)).keys.lookup key = _
  rw [shards_withShard_self]
  exact AList.lookup_insert _

include sound sorted touched

/-- Another key keeps its entry, or it was recycled. -/
theorem find?_renew_other {other : Bytes} (different : other ≠ key) {old : Entry} (tracked : p.find? other = some old) :
    (p.withShard (p.shardFor key) (PerKeyPredictor.renew shard key taught)).find? other = some old ∨
      p.Recyclable now other old := by
  change ((p.withShard (p.shardFor key) _).shards (p.shardFor other)).keys.lookup other = _ ∨ _
  by_cases together : p.shardFor other = p.shardFor key
  · have looked : (p.shards (p.shardFor key)).keys.lookup other = some old := together ▸ tracked
    rw [together, shards_withShard_self, PerKeyPredictor.renew, AList.lookup_insert_ne different]
    rcases touchLocked_cases touched with ⟨_, _, _, rfl⟩ | ⟨_, room, installed, source⟩
    · exact .inl looked
    · obtain ⟨_, rfl⟩ := Prod.mk.inj installed
      change (room.keys.insert key _).lookup other = _ ∨ _
      rw [AList.lookup_insert_ne different]
      rcases source with rfl | ⟨full, evicted⟩
      · exact .inl looked
      · obtain ⟨slot, oldest, last, found, limited, idle, rfl⟩ := evictIdle_cases evicted
        by_cases recycled : other = slot.value
        · obtain rfl := Option.some.inj ((recycled ▸ found).symm.trans looked)
          refine .inr ⟨together ▸ full, ?_, ?_, limited, idle⟩
          · rw [together, last, recycled]
            rfl
          · rw [together]
            exact (sorted _).back _ (sound.shards _).coherent last found
        · exact .inl ((AList.lookup_erase_ne recycled).trans looked)
  · rw [shards_withShard_of_ne _ _ together]
    exact .inl tracked

end Touched

theorem shards_observeGlobal (duration : ℚ) : (p.observeGlobal duration).shards = p.shards := by
  rw [observeGlobal_eq]
  split
  · cases valid : validBoundaries (p.counted duration).freshBoundaries with
    | false =>
      rw [refresh_of_degenerate valid]
      rfl
    | true =>
      rcases refresh_cases valid with ⟨_, _, same, _⟩ | ⟨bounds, published, _, _⟩
      · rw [same]
        rfl
      · rw [published]
        rfl
  · rfl

theorem find?_observeGlobal (duration : ℚ) (key : Bytes) : (p.observeGlobal duration).find? key = p.find? key := by
  rw [find?, shards_observeGlobal, shardFor, (observeGlobal_setting p duration).1]
  rfl

section Calls
variable (lawful : platform.Lawful) (sound : p.Sound (· ≤ now)) (sorted : p.Sorted)
include lawful sound sorted

theorem Sorted.recordKey {key : Bytes} (usable : usableKey key = true) (duration : ℚ) :
    (p.recordKey key duration now).Sorted := by
  simp only [PerKeyPredictor.recordKey]
  split
  · exact sorted
  next entry shard touched => exact sorted.renew lawful sound usable touched rfl rfl

theorem Sorted.observeCensored (key : Bytes) : (p.observeCensored now key).2.Sorted := by
  unfold PerKeyPredictor.observeCensored
  split
  · exact sorted
  next usable =>
    dsimp only
    split
    · exact sorted
    next entry shard touched => exact sorted.renew lawful sound (by simpa using usable) touched rfl rfl

omit lawful sound in
theorem Sorted.observeGlobal (duration : ℚ) : (p.observeGlobal duration).Sorted := by
  intro index
  rw [shards_observeGlobal]
  exact sorted index

theorem Sorted.observe (key parent : Bytes) (duration : ℚ) : (p.observe now key parent duration).2.Sorted := by
  unfold PerKeyPredictor.observe
  split
  · exact sorted
  next accepted =>
    simp only [not_or, not_and, not_lt, Bool.not_eq_true', Bool.not_eq_false, ne_eq] at accepted
    obtain ⟨usable, parental, measured⟩ := accepted
    have own := sorted.recordKey lawful sound usable duration
    have taught : (p.recordKey key duration now).Sound (· ≤ now) := by
      refine sound.recordKey lawful ?_ usable measured
      exact le_refl now
    refine Sorted.observeGlobal ?_ duration
    split
    · exact own
    next named => exact own.recordKey lawful taught (parental named) duration

omit lawful in
theorem Sorted.predict (key : Bytes) : (p.predict now key).2.Sorted := by
  unfold PerKeyPredictor.predict
  split
  · exact sorted
  · split
    · exact sorted
    next b present =>
      dsimp only
      split
      · exact sorted
      next entry found =>
        split
        · exact sorted
        · have holds := sound.shards (p.shardFor key)
          have kept : ∀ evaluated, evaluated = (p.evaluate { entry with lastActivity := now } b).2 →
              evaluated.position = entry.position ∧ evaluated.lastActivity = now := by
            rintro _ rfl
            rcases evaluate_entry (p := p) { entry with lastActivity := now } b with same | same
            · rw [same]
              exact ⟨rfl, rfl⟩
            · rw [same]
              exact ⟨rfl, rfl⟩
          obtain ⟨position, current⟩ := kept _ rfl
          refine sorted.withShard ((sorted _).renew _ holds.coherent found position fun other older looked => ?_)
          rw [current]
          exact (holds.keys other older looked).2.2.timely

end Calls

/-- Over every run on a steady clock, with saved files loaded in between. -/
theorem Reachable.sorted (lawful : platform.Lawful) {host : Host} (reachable : Reachable host false p now) : p.Sorted := by
  have advance : ∀ {p : PerKeyPredictor platform} {earlier now : Time}, Reachable host false p earlier → earlier ≤ now →
      p.Sound (· ≤ now) := fun before later => (before.steady lawful).mono fun _ timely => timely.trans later
  induction reachable with
  | created fits made reading =>
    simp only [create, bind_ok] at made
    obtain ⟨_, _, made⟩ := made
    obtain rfl := Except.ok.inj made
    exact fun index => .nil
  | predicted before later reading key known => exact known.predict (advance before later) key
  | observed before later reading key parent duration known =>
    exact known.observe lawful (advance before later) key parent duration
  | censored before later reading key known => exact known.observeCensored lawful (advance before later) key
  | restored before later reading source storable short bounded other known origin =>
    rename_i p q earlier now saved context
    rcases load_cases host p now other (q.save host saved context) with ⟨_, _, same⟩ | ⟨contents, accepted, valid, _, same⟩
    · rw [same]
      exact known
    · rw [same]
      have held := contents_of_saved (source.steady lawful) storable short bounded accepted
      refine sorted_contents host fun k member => ?_
      have aged := (valid.keys k member).age
      rw [held] at member
      obtain ⟨copy, copied, rfl⟩ := List.mem_map.mp member
      obtain ⟨key, entry, _, rfl⟩ := (mem_copyKeys (source.steady lawful)).mp copied
      exact restoredAt_eq reading aged (ofMillis_ageMs_lt entry saved)
  | loaded before later reading any context file known => cases any

section Removal
variable (lawful : platform.Lawful) (sound : p.Sound (· ≤ now)) (sorted : p.Sorted)

theorem find?_predict_ne_none (key : Bytes) {other : Bytes} (tracked : p.find? other ≠ none) :
    (p.predict now key).2.find? other ≠ none := by
  unfold PerKeyPredictor.predict
  split
  · exact tracked
  · split
    · exact tracked
    next b present =>
      dsimp only
      split
      · exact tracked
      · split
        · exact tracked
        · rw [find?_withShard rfl]
          split
          · exact Option.some_ne_none _
          · exact tracked

theorem predict_untracked {key : Bytes} (untracked : p.find? key = none) : (p.predict now key).1.status ≠ .predicted := by
  unfold PerKeyPredictor.predict
  split
  · exact nofun
  · split
    · exact nofun
    next b present =>
      dsimp only
      split
      · exact nofun
      next entry found => cases untracked.symm.trans found

include sound sorted

theorem find?_recordKey (key : Bytes) (duration : ℚ) {other : Bytes} {old : Entry} (tracked : p.find? other = some old) :
    (∃ entry, (p.recordKey key duration now).find? other = some entry ∧ (entry = old ∨ entry.lastActivity = now)) ∨
      p.Recyclable now other old := by
  simp only [PerKeyPredictor.recordKey]
  split
  · exact .inl ⟨old, tracked, .inl rfl⟩
  next entry shard touched =>
    by_cases same : other = key
    · subst same
      exact .inl ⟨_, find?_renew_self, .inr rfl⟩
    · rcases find?_renew_other sound sorted touched same tracked with kept | recycled
      · exact .inl ⟨old, kept, .inl rfl⟩
      · exact .inr recycled

theorem recycled_of_observeCensored (key : Bytes) {other : Bytes} {old : Entry} (tracked : p.find? other = some old)
    (lost : (p.observeCensored now key).2.find? other = none) : p.Recyclable now other old := by
  unfold PerKeyPredictor.observeCensored at lost
  split at lost
  · cases tracked.symm.trans lost
  · dsimp only at lost
    split at lost
    · cases tracked.symm.trans lost
    next entry shard touched =>
      by_cases same : other = key
      · subst same
        cases (find?_renew_self (p := p)).symm.trans lost
      · rcases find?_renew_other sound sorted touched same tracked with kept | recycled
        · cases kept.symm.trans lost
        · exact recycled

include lawful

/-- An observation recycles a key when it makes room for its own key or for the parent. -/
theorem recycled_of_observe (key parent : Bytes) (duration : ℚ) {other : Bytes} {old : Entry}
    (tracked : p.find? other = some old) (lost : (p.observe now key parent duration).2.find? other = none) :
    p.Recyclable now other old ∨ (p.recordKey key duration now).Recyclable now other old := by
  unfold PerKeyPredictor.observe at lost
  split at lost
  · cases tracked.symm.trans lost
  next accepted =>
    simp only [not_or, not_and, not_lt, Bool.not_eq_true', Bool.not_eq_false, ne_eq] at accepted
    obtain ⟨usable, parental, measured⟩ := accepted
    have taught : (p.recordKey key duration now).Sound (· ≤ now) := by
      refine sound.recordKey lawful ?_ usable measured
      exact le_refl now
    have own := sorted.recordKey lawful sound usable duration
    rw [find?_observeGlobal] at lost
    rcases find?_recordKey sound sorted key duration tracked with ⟨entry, found, origin⟩ | recycled
    · refine .inr ?_
      split at lost
      · cases found.symm.trans lost
      · rcases find?_recordKey taught own parent duration found with ⟨_, kept, _⟩ | recycled
        · cases kept.symm.trans lost
        · rcases origin with rfl | current
          · exact recycled
          · -- the key that was just observed is not idle
            have idle := recycled.idle
            have limited : 0 < Clock.ofMillis ((p.recordKey key duration now).evictionLimit entry) :=
              Int.mul_pos recycled.limited (by decide)
            rw [current, Int.sub_self] at idle
            exact absurd idle (Int.not_le.mpr limited)
    · exact .inl recycled

end Removal

theorem perShardCap_pos (accepted : validated p.config = .ok p.config) (small : p.config.maxKeys < 2 ^ 63) :
    0 < p.perShardCap := by
  simp only [validated, bind_ok, reject_ok, not_or, not_lt] at accepted
  have shards : 1 ≤ p.config.shards ∧ p.config.shards ≤ 256 := by tauto
  have keys : p.config.shards ≤ p.config.maxKeys := by tauto
  have range : p.config.maxKeys + p.config.shards - 1 < 2 ^ 64 := by omega
  rw [perShardCap, Nat.mod_eq_of_lt range]
  exact Nat.div_pos (by omega) (by omega)

end Harbinger.Ml.PerKeyPredictor
