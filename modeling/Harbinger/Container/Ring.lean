import Mathlib

/-! A ring of slots with a head, a tail and a count. It holds a list if its slots, read from the head on, are the list
and then blank; a push appends to the list, and a pop takes its first element. -/

namespace Container

structure Ring (α : Type) where
  slots : List α
  head : Nat := 0
  tail : Nat := 0
  queued : Nat := 0

namespace Ring
variable {α : Type}

def push (r : Ring α) (value : α) : Ring α :=
  { r with slots := r.slots.set r.tail value, tail := (r.tail + 1) % r.slots.length, queued := r.queued + 1 }

/-- What stands in the slot at the head. -/
def front (blank : α) (r : Ring α) : α := r.slots.getD r.head blank

/-- The slot at the head is left blank. -/
def pop (blank : α) (r : Ring α) : Ring α :=
  { r with slots := r.slots.set r.head blank, head := (r.head + 1) % r.slots.length, queued := r.queued - 1 }

structure Holds (blank : α) (r : Ring α) (items : List α) : Prop where
  head : r.head < r.slots.length
  queued : r.queued = items.length
  tail : r.tail = (r.head + items.length) % r.slots.length
  slots : ∃ free, r.slots.rotate r.head = items ++ List.replicate free blank

theorem rotate_set (slots : List α) (head : Nat) {k : Nat} (inside : k < slots.length) (value : α) :
    (slots.set ((head + k) % slots.length) value).rotate head = (slots.rotate head).set k value := by
  refine List.ext_getElem (by simp) fun i left _ => ?_
  have small : i < slots.length := by simpa using left
  simp only [List.getElem_rotate, List.getElem_set, List.length_set]
  -- two places of one round are two slots
  have same : (head + k) % slots.length = (i + head) % slots.length ↔ k = i := by
    rw [Nat.add_comm i]
    exact ⟨fun h => Nat.ModEq.eq_of_lt_of_lt (Nat.ModEq.add_left_cancel' head h) inside small, fun h => h ▸ rfl⟩
  simp only [same]

variable {blank : α} {r : Ring α} {items : List α}

theorem Holds.push (holds : r.Holds blank items) (room : r.queued < r.slots.length) (value : α) :
    (r.push value).Holds blank (items ++ [value]) := by
  obtain ⟨head, queued, tail, free, slots⟩ := holds
  have size := congrArg List.length slots
  simp only [List.length_rotate, List.length_append, List.length_replicate] at size
  refine ⟨by simpa [Ring.push] using head, by simp [Ring.push, queued], ?_, free - 1, ?_⟩
  · simp [Ring.push, tail, Nat.add_assoc]
  · obtain ⟨rest, rfl⟩ : ∃ rest, free = rest + 1 := ⟨free - 1, by omega⟩
    rw [Ring.push, tail, rotate_set _ _ (by omega), slots, List.set_append_right _ _ le_rfl]
    simp [List.replicate_succ]

theorem Holds.pop {first : α} (holds : r.Holds blank (first :: items)) :
    r.front blank = first ∧ (r.pop blank).Holds blank items := by
  obtain ⟨head, queued, tail, free, slots⟩ := holds
  have home : (r.head + 0) % r.slots.length = r.head := Nat.mod_eq_of_lt head
  constructor
  · have front := congrArg (fun l => l[0]?) slots
    simpa [List.getElem?_rotate, Nat.mod_eq_of_lt head, Nat.zero_lt_of_lt head, Ring.front, List.getD_eq_getElem?_getD,
      head] using front
  · refine ⟨?_, by simp [Ring.pop, queued], ?_, free + 1, ?_⟩
    · simpa [Ring.pop] using Nat.mod_lt _ (Nat.zero_lt_of_lt head)
    · simp [Ring.pop, tail]
      congr 1
      omega
    · have turned := rotate_set r.slots r.head (Nat.zero_lt_of_lt head) blank
      rw [home, slots] at turned
      have length : r.slots.length = (r.slots.set r.head blank).length := by simp
      simp only [Ring.pop]
      rw [length, List.rotate_mod, ← List.rotate_rotate, turned]
      simp [List.replicate_succ']

theorem holds_replicate {n : Nat} (positive : 0 < n) (blank : α) : Holds blank { slots := List.replicate n blank } [] :=
  ⟨by simpa using positive, rfl, (Nat.zero_mod _).symm, n, by simp⟩

end Ring

end Container
