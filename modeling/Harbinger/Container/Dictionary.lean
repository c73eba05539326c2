import Mathlib

/-! Dictionaries as lists of entries: with distinct keys a lookup is membership, so neither the
order of the entries nor a change of the values gets in its way. -/

namespace Container

variable {κ α β : Type} [BEq κ] [LawfulBEq κ] {entries others : List (κ × α)} {key : κ} {value : α}

theorem mem_of_lookup (found : entries.lookup key = some value) : (key, value) ∈ entries := by
  obtain ⟨before, after, rfl, _⟩ := List.lookup_eq_some_iff.mp found
  exact List.mem_append_right _ (List.mem_cons_self ..)

theorem lookup_of_mem (distinct : (entries.map Prod.fst).Nodup) (member : (key, value) ∈ entries) :
    entries.lookup key = some value := by
  obtain ⟨before, after, rfl⟩ := List.append_of_mem member
  refine List.lookup_eq_some_iff.mpr ⟨before, after, rfl, fun entry earlier => ?_⟩
  rw [List.map_append, List.map_cons, List.nodup_middle] at distinct
  refine bne_iff_ne.mpr fun same => (List.nodup_cons.mp distinct).1 ?_
  exact List.mem_append_left _ (List.mem_map.mpr ⟨entry, earlier, same.symm⟩)

theorem lookup_eq_none : entries.lookup key = none ↔ key ∉ entries.map Prod.fst := by
  rw [List.lookup_eq_none_iff, List.mem_map]
  constructor
  · rintro absent ⟨entry, member, same⟩
    exact bne_iff_ne.mp (absent entry member) same.symm
  · intro absent entry member
    exact bne_iff_ne.mpr fun same => absent ⟨entry, member, same.symm⟩

theorem lookup_perm (distinct : (entries.map Prod.fst).Nodup) (same : entries.Perm others) (key : κ) :
    others.lookup key = entries.lookup key := by
  have distinct' : (others.map Prod.fst).Nodup := (same.map _).nodup_iff.mp distinct
  cases found : entries.lookup key with
  | none =>
    rw [lookup_eq_none] at found ⊢
    rwa [← (same.map Prod.fst).mem_iff]
  | some value => exact lookup_of_mem distinct' (same.mem_iff.mp (mem_of_lookup found))

omit [LawfulBEq κ] in
theorem lookup_mapValues (f : α → β) (entries : List (κ × α)) (key : κ) :
    (entries.map fun entry => (entry.1, f entry.2)).lookup key = (entries.lookup key).map f := by
  induction entries with
  | nil => rfl
  | cons entry rest known =>
    rw [List.map_cons, List.lookup_cons, List.lookup_cons, known]
    cases key == entry.1 <;> rfl

end Container
