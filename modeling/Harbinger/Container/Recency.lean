import Harbinger.Container.Linked

/-! A map whose entries store their place in a list of the keys, most recent first: the list
names each key once, at the stored place. -/

namespace Container

variable {κ ε τ : Type} [DecidableEq κ] {position : ε → Nat} {map : AList fun _ : κ => ε} {recency : LinkedList κ}

theorem mem_of_lookup_alist {key : κ} {entry : ε} (found : map.lookup key = some entry) : key ∈ map :=
  AList.lookup_isSome.mp (by rw [found]; rfl)

omit [DecidableEq κ] in
theorem length_eq_of_mem_iff {first second : AList fun _ : κ => ε} (same : ∀ key, key ∈ first ↔ key ∈ second) :
    first.entries.length = second.entries.length := by
  have keys (map : AList fun _ : κ => ε) : map.entries.length = map.keys.length := (List.length_map _).symm
  have listed : first.keys.Perm second.keys :=
    (List.perm_ext_iff_of_nodup (AList.keys_nodup _) (AList.keys_nodup _)).mpr same
  rw [keys, keys, listed.length_eq]

theorem length_insert_of_mem {key : κ} (entry : ε) (present : key ∈ map) :
    (map.insert key entry).entries.length = map.entries.length := by
  have keys (map : AList fun _ : κ => ε) : map.entries.length = map.keys.length := (List.length_map _).symm
  rw [keys, keys, AList.keys_insert]
  exact (List.perm_cons_erase (AList.mem_keys.mp present)).length_eq.symm

theorem length_erase_of_mem {key : κ} (present : key ∈ map) :
    (map.erase key).entries.length < map.entries.length := by
  have keys (map : AList fun _ : κ => ε) : map.entries.length = map.keys.length := (List.length_map _).symm
  rw [keys, keys, AList.keys_erase, List.length_erase_of_mem (AList.mem_keys.mp present)]
  exact Nat.sub_lt (List.length_pos_of_mem (AList.mem_keys.mp present)) Nat.one_pos

/-- The list names each key of the map once, at the handle that its entry stores. -/
structure Coherent (position : ε → Nat) (map : AList fun _ : κ => ε) (recency : LinkedList κ) : Prop where
  listed : (recency.slots.map Slot.value).Perm map.keys
  stored : ∀ key entry, map.lookup key = some entry → ⟨position entry, key⟩ ∈ recency.slots

theorem Coherent.empty : Coherent position (∅ : AList fun _ : κ => ε) LinkedList.empty :=
  ⟨.nil, fun key entry found => by rw [AList.lookup_empty] at found; cases found⟩

theorem Coherent.listed_ne (coherent : Coherent position map recency) {key : κ} (absent : key ∉ map) :
    ∀ slot ∈ recency.slots, slot.value ≠ key := by
  intro slot member same
  exact absent (AList.mem_keys.mpr (coherent.listed.mem_iff.mp (List.mem_map.mpr ⟨slot, member, same⟩)))

theorem Coherent.install (coherent : Coherent position map recency) {key : κ} {entry : ε} (absent : key ∉ map)
    (placed : position entry = recency.next) :
    Coherent position (map.insert key entry) (recency.pushFront key) := by
  constructor
  · rw [AList.keys_insert, List.erase_of_not_mem (mt AList.mem_keys.mpr absent)]
    exact coherent.listed.cons key
  · intro other found here
    by_cases same : other = key
    · subst same
      rw [AList.lookup_insert] at here
      obtain rfl := Option.some.inj here
      rw [placed]
      exact List.mem_cons_self ..
    · rw [AList.lookup_insert_ne same] at here
      exact List.mem_cons_of_mem _ (coherent.stored other found here)

omit [DecidableEq κ] in
theorem slots_moveToFront (recency : LinkedList κ) (handle : Nat) :
    (recency.moveToFront handle).slots.Perm recency.slots := by
  simpa only [LinkedList.moveToFront, decide_not] using
    List.filter_append_perm (fun slot : Slot κ => decide (slot.handle = handle)) recency.slots

theorem Coherent.renew (coherent : Coherent position map recency) {key : κ} {old entry : ε}
    (found : map.lookup key = some old) (kept : position entry = position old) :
    Coherent position (map.insert key entry) (recency.moveToFront (position entry)) := by
  have same := slots_moveToFront recency (position entry)
  have present : key ∈ map.keys := AList.mem_keys.mp (mem_of_lookup_alist found)
  constructor
  · rw [AList.keys_insert]
    exact ((same.map Slot.value).trans coherent.listed).trans (List.perm_cons_erase present)
  · intro other entry' here
    apply same.mem_iff.mpr
    by_cases equal : other = key
    · subst equal
      rw [AList.lookup_insert] at here
      obtain rfl := Option.some.inj here
      rw [kept]
      exact coherent.stored other old found
    · rw [AList.lookup_insert_ne equal] at here
      exact coherent.stored other entry' here

theorem Coherent.evict (coherent : Coherent position map recency) {slot : Slot κ} (last : recency.back? = some slot) :
    Coherent position (map.erase slot.value) recency.popBack := by
  obtain ⟨init, shape⟩ := List.getLast?_eq_some_iff.mp last
  have rest : recency.popBack.slots = init := by
    change recency.slots.dropLast = init
    rw [shape, List.dropLast_concat]
  have listed := coherent.listed
  rw [shape, List.map_append] at listed
  have first : ([slot.value] ++ init.map Slot.value).Perm map.keys := List.perm_append_comm.trans listed
  constructor
  · rw [rest, AList.keys_erase]
    exact (List.cons_perm_iff_perm_erase.mp first).2
  · intro key entry here
    by_cases same : key = slot.value
    · rw [same, AList.lookup_erase] at here
      cases here
    · rw [AList.lookup_erase_ne same] at here
      have member := coherent.stored key entry here
      rw [shape] at member
      rw [rest]
      refine (List.mem_append.mp member).resolve_right fun final => same ?_
      exact congrArg Slot.value (List.mem_singleton.mp final)

section Order
variable [Preorder τ] (stamp : ε → τ)

/-- Most recent first. -/
def Ordered (map : AList fun _ : κ => ε) (recency : LinkedList κ) : Prop :=
  recency.slots.Pairwise fun first second => ∀ newer ∈ map.lookup first.value, ∀ older ∈ map.lookup second.value,
    stamp older ≤ stamp newer

theorem Ordered.install (ordered : Ordered stamp map recency) {key : κ} {entry : ε}
    (listed : ∀ slot ∈ recency.slots, slot.value ≠ key)
    (newest : ∀ other old, map.lookup other = some old → stamp old ≤ stamp entry) :
    Ordered stamp (map.insert key entry) (recency.pushFront key) := by
  refine List.pairwise_cons.mpr ⟨?_, ?_⟩
  · intro slot member newer front older here
    rw [AList.lookup_insert] at front
    rw [AList.lookup_insert_ne (listed slot member)] at here
    obtain rfl := Option.some.inj front
    exact newest slot.value older here
  · refine List.Pairwise.imp_of_mem ?_ ordered
    intro first second there here kept
    rwa [AList.lookup_insert_ne (listed first there), AList.lookup_insert_ne (listed second here)]

/-- A key that becomes the most recent one moves to the front. -/
theorem Ordered.renew (ordered : Ordered stamp map recency) (coherent : Coherent position map recency) {key : κ} {old entry : ε}
    (found : map.lookup key = some old) (kept : position entry = position old)
    (newest : ∀ other old, map.lookup other = some old → stamp old ≤ stamp entry) :
    Ordered stamp (map.insert key entry) (recency.moveToFront (position entry)) := by
  have here : ⟨position entry, key⟩ ∈ recency.slots := kept ▸ coherent.stored key old found
  have nodup : (recency.slots.map Slot.value).Nodup := coherent.listed.nodup_iff.mpr (AList.keys_nodup _)
  -- the two parts of the new list: the slot of the key, and the slots of other keys
  have front : ∀ slot ∈ recency.slots.filter fun slot => slot.handle = position entry, slot.value = key := by
    intro slot member
    obtain ⟨listed, same⟩ := List.mem_filter.mp member
    exact congrArg Slot.value (recency.slot_unique listed here (of_decide_eq_true same))
  have behind : ∀ slot ∈ recency.slots.filter fun slot => ¬slot.handle = position entry, slot.value ≠ key := by
    intro slot member same
    obtain ⟨listed, other⟩ := List.mem_filter.mp member
    refine absurd ?_ (of_decide_eq_true other)
    exact congrArg Slot.handle (List.inj_on_of_nodup_map nodup listed here same)
  have ahead : ∀ newer ∈ (map.insert key entry).lookup key, ∀ other, ∀ older ∈ (map.insert key entry).lookup other,
      stamp older ≤ stamp newer := by
    intro newer first other older second
    rw [AList.lookup_insert] at first
    obtain rfl := Option.some.inj first
    by_cases same : other = key
    · rw [same, AList.lookup_insert] at second
      exact (Option.some.inj second) ▸ le_rfl
    · rw [AList.lookup_insert_ne same] at second
      exact newest other older second
  refine List.pairwise_append.mpr ⟨?_, ?_, ?_⟩
  · refine List.Pairwise.imp_of_mem ?_ (ordered.sublist List.filter_sublist)
    intro first second there _ _ newer looked
    rw [front first there] at looked
    exact ahead newer looked second.value
  · refine List.Pairwise.imp_of_mem ?_ (ordered.sublist List.filter_sublist)
    intro first second there beyond before
    rwa [AList.lookup_insert_ne (behind first there), AList.lookup_insert_ne (behind second beyond)]
  · intro first there second _ newer looked
    rw [front first there] at looked
    exact ahead newer looked second.value

theorem Ordered.evict (ordered : Ordered stamp map recency) (key : κ) : Ordered stamp (map.erase key) recency.popBack := by
  have kept : ∀ {other : κ} {entry : ε}, entry ∈ (map.erase key).lookup other → entry ∈ map.lookup other := by
    intro other entry found
    by_cases same : other = key
    · rw [same, AList.lookup_erase] at found
      cases found
    · rwa [AList.lookup_erase_ne same] at found
  refine (ordered.sublist (List.dropLast_sublist _)).imp fun before newer first older second => ?_
  exact before newer (kept first) older (kept second)

theorem Ordered.back (ordered : Ordered stamp map recency) (coherent : Coherent position map recency) {slot : Slot κ}
    (last : recency.back? = some slot) {oldest : ε} (found : map.lookup slot.value = some oldest) :
    ∀ key entry, map.lookup key = some entry → stamp oldest ≤ stamp entry := by
  intro key entry looked
  have member := coherent.stored key entry looked
  obtain ⟨init, shape⟩ := List.getLast?_eq_some_iff.mp last
  unfold Ordered at ordered
  rw [shape] at member ordered
  rcases List.mem_append.mp member with before | final
  · exact (List.pairwise_append.mp ordered).2.2 _ before slot (List.mem_singleton_self _) entry looked oldest found
  · obtain rfl := List.mem_singleton.mp final
    obtain rfl := Option.some.inj (found.symm.trans looked)
    exact le_rfl

end Order

end Container
