import Mathlib

/-! Pools of items of which each carries some values, and what the values of the pool are
when one item is replaced; and finite maps whose keys are removed or whose values are
replaced. -/

namespace Container

section Gather
variable {α β : Type*} (f : α → List β)

/-- The values that the items of a pool carry. -/
def gather (items : List α) : Multiset β := ↑(items.flatMap f)

@[simp] theorem gather_nil : gather f [] = 0 := rfl

@[simp] theorem gather_append (first second : List α) :
    gather f (first ++ second) = gather f first + gather f second := by
  rw [gather, List.flatMap_append, ← Multiset.coe_add, gather, gather]

@[simp] theorem gather_singleton (item : α) : gather f [item] = ↑(f item) := by
  rw [gather, List.flatMap_singleton]

variable {f}

theorem gather_eraseIdx {items : List α} {position : Nat} {item : α} (found : items[position]? = some item) :
    gather f items = ↑(f item) + gather f (items.eraseIdx position) := by
  obtain ⟨inside, rfl⟩ := List.getElem?_eq_some_iff.mp found
  have split := (List.getElem_cons_eraseIdx_perm inside).symm.flatMap_right f
  rw [gather, gather, ← List.singleton_append, List.flatMap_append, List.flatMap_singleton] at *
  rw [Multiset.coe_add]
  exact Multiset.coe_eq_coe.mpr split

theorem mem_gather {items : List α} {value : β} : value ∈ gather f items ↔ ∃ item ∈ items, value ∈ f item := by
  rw [gather, Multiset.mem_coe, List.mem_flatMap]

end Gather

section Positions
variable {α β : Type*}

theorem map_zipIdx_fst (f : α → β) (items : List α) : (items.zipIdx.map fun item => f item.1) = items.map f := by
  conv_rhs => rw [← List.zipIdx_map_fst 0 items, List.map_map]
  rfl

theorem flatMap_zipIdx_fst (f : α → List β) (items : List α) :
    (items.zipIdx.flatMap fun item => f item.1) = items.flatMap f := by
  conv_rhs => rw [← List.zipIdx_map_fst 0 items, List.flatMap_map]

end Positions

section Table
variable {α : Type*} {β : α → Type*} [DecidableEq α]

theorem entries_perm_erase {table : AList β} {key : α} {value : β key}
    (known : table.lookup key = some value) : table.entries.Perm (⟨key, value⟩ :: (table.erase key).entries) := by
  have absent : key ∉ table.erase key := AList.lookup_eq_none.mp (AList.lookup_erase key table)
  rw [← AList.entries_insert_of_notMem absent]
  refine List.lookup_ext table.nodupKeys ((table.erase key).insert key value).nodupKeys fun other found => ?_
  change found ∈ table.lookup other ↔ found ∈ ((table.erase key).insert key value).lookup other
  by_cases same : other = key
  · subst same
    rw [known, AList.lookup_insert]
  · rw [AList.lookup_insert_ne same, AList.lookup_erase_ne same]

end Table

section Tables
variable {α β γ : Type} [DecidableEq α]

def mapEntry (f : β → γ) (item : Sigma fun _ : α => β) : Sigma fun _ : α => γ := ⟨item.1, f item.2⟩

/-- The table with every value replaced. -/
def mapTable (f : β → γ) (table : AList fun _ : α => β) : AList fun _ : α => γ where
  entries := table.entries.map (mapEntry f)
  nodupKeys := by
    rw [List.NodupKeys, List.keys, List.map_map]
    exact table.nodupKeys

variable (f : β → γ) (table : AList fun _ : α => β) (key : α)

theorem dlookup_mapEntry (entries : List (Sigma fun _ : α => β)) :
    (List.dlookup key (entries.map (mapEntry f)) : Option γ) = (List.dlookup key entries : Option β).map f := by
  induction entries with
  | nil => rfl
  | cons item rest ih =>
    by_cases same : key = item.1
    · obtain ⟨name, value⟩ := item
      obtain rfl : key = name := same
      rw [List.map_cons, mapEntry, List.dlookup_cons_eq, List.dlookup_cons_eq]
      rfl
    · have other : key ≠ (mapEntry f item).1 := same
      rw [List.map_cons, List.dlookup_cons_ne _ _ same, List.dlookup_cons_ne _ _ other, ih]

@[simp] theorem lookup_mapTable : (mapTable f table).lookup key = (table.lookup key).map f :=
  dlookup_mapEntry f key table.entries

@[simp] theorem mem_mapTable : key ∈ mapTable f table ↔ key ∈ table := by
  rw [← AList.lookup_isSome, ← AList.lookup_isSome, lookup_mapTable, Option.isSome_map]

theorem mapTable_erase : mapTable f (table.erase key) = (mapTable f table).erase key := by
  apply AList.ext
  change (table.entries.eraseP _).map (mapEntry f) = (table.entries.map (mapEntry f)).eraseP fun item => key = item.1
  rw [List.eraseP_map]
  rfl

theorem mapTable_insert (value : β) :
    mapTable f (table.insert key value) = (mapTable f table).insert key (f value) := by
  apply AList.ext
  exact congrArg (List.cons _) (congrArg AList.entries (mapTable_erase f table key))

end Tables

end Container
