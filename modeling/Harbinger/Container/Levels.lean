import Mathlib

/-! Families of lists indexed by a bounded level, and what one update does to the
concatenation of all of them. -/

namespace Container
variable {α : Type}

def concat (n : Nat) (levels : Nat → List α) : List α := (List.range n).flatMap levels

def others (n : Nat) (levels : Nat → List α) (level : Nat) : List α :=
  ((List.range n).erase level).flatMap levels

theorem mem_concat {n : Nat} {levels : Nat → List α} {x : α} :
    x ∈ concat n levels ↔ ∃ level < n, x ∈ levels level := by
  simp [concat, List.mem_flatMap]

theorem concat_perm {n level : Nat} (inside : level < n) (levels : Nat → List α) :
    (concat n levels).Perm (levels level ++ others n levels level) := by
  have reordered : (List.range n).Perm (level :: (List.range n).erase level) :=
    List.perm_cons_erase (List.mem_range.mpr inside)
  simpa only [concat, others, List.flatMap_cons] using reordered.flatMap_right levels

theorem others_update (n : Nat) (levels : Nat → List α) (level : Nat) (changed : List α) :
    others n (Function.update levels level changed) level = others n levels level := by
  unfold others
  apply List.flatMap_congr
  intro other member
  have different : other ≠ level := by
    rintro rfl
    exact (List.nodup_range.not_mem_erase) member
  exact Function.update_of_ne different _ _

theorem concat_update_perm {n level : Nat} (inside : level < n) (levels : Nat → List α)
    (changed : List α) :
    (concat n (Function.update levels level changed)).Perm (changed ++ others n levels level) := by
  have split := concat_perm inside (Function.update levels level changed)
  rwa [Function.update_self, others_update] at split

theorem eraseP_key {β : Type} [DecidableEq β] (key : α → β) {before after : List α} {x : α}
    (distinct : ((before ++ x :: after).map key).Nodup) :
    (before ++ x :: after).eraseP (fun other => key other = key x) = before ++ after := by
  have absent : ∀ other ∈ before, ¬ (decide (key other = key x) = true) := by
    intro other member same
    rw [List.map_append, List.map_cons] at distinct
    have fresh := (List.nodup_cons.mp (List.nodup_middle.mp distinct)).1
    apply fresh
    rw [← of_decide_eq_true same]
    exact List.mem_append_left _ (List.mem_map_of_mem member)
  rw [List.eraseP_append_right _ absent, List.eraseP_cons_of_pos (by simp)]

theorem perm_cons_eraseP_key {β : Type} [DecidableEq β] (key : α → β) {list : List α} {x : α}
    (distinct : (list.map key).Nodup) (member : x ∈ list) :
    list.Perm (x :: list.eraseP fun other => key other = key x) := by
  obtain ⟨before, after, rfl⟩ := List.append_of_mem member
  rw [eraseP_key key distinct]
  exact List.perm_middle

end Container
