import Mathlib

/-! Node-based containers whose elements keep a handle until they are erased: a
doubly linked list, and an ordered multimap built on it. A handle stands for an
iterator that other structures may store; the proofs that handles are distinct and
that the multimap is sorted travel with the container. -/

namespace Container

structure Slot (α : Type) where
  handle : Nat
  value : α
  deriving DecidableEq, Repr

/-- Handles are drawn from a counter, so no handle is reused after its slot is erased. -/
@[ext] structure LinkedList (α : Type) where
  slots : List (Slot α)
  next : Nat
  distinct : (slots.map Slot.handle).Nodup
  allocated : ∀ slot ∈ slots, slot.handle < next

namespace LinkedList
variable {α : Type}

def empty : LinkedList α := ⟨[], 0, List.nodup_nil, by simp⟩

instance : Inhabited (LinkedList α) := ⟨empty⟩

def size (list : LinkedList α) : Nat := list.slots.length

def front? (list : LinkedList α) : Option (Slot α) := list.slots.head?

def find? (list : LinkedList α) (handle : Nat) : Option α :=
  (list.slots.find? fun slot => slot.handle = handle).map Slot.value

theorem fresh (list : LinkedList α) : list.next ∉ list.slots.map Slot.handle := by
  intro member
  obtain ⟨slot, present, same⟩ := List.mem_map.mp member
  exact absurd (list.allocated slot present) (by omega)

/-- Insertion between two parts of the list, at the handle `next`. -/
def insertBetween (list : LinkedList α) (before after : List (Slot α)) (value : α)
    (split : list.slots = before ++ after) : LinkedList α where
  slots := before ++ ⟨list.next, value⟩ :: after
  next := list.next + 1
  distinct := by
    have fresh := list.fresh
    have distinct := list.distinct
    rw [split, List.map_append] at fresh distinct
    rw [List.map_append, List.map_cons]
    exact List.nodup_middle.mpr (List.nodup_cons.mpr ⟨fresh, distinct⟩)
  allocated := by
    intro slot member
    rcases List.mem_append.mp member with earlier | later
    · exact Nat.lt_succ_of_lt (list.allocated slot (by simp [split, earlier]))
    · rcases List.mem_cons.mp later with rfl | later
      · exact Nat.lt_succ_self _
      · exact Nat.lt_succ_of_lt (list.allocated slot (by simp [split, later]))

def pushBack (list : LinkedList α) (value : α) : LinkedList α :=
  list.insertBetween list.slots [] value (List.append_nil _).symm

def keepIf (list : LinkedList α) (keep : Slot α → Bool) : LinkedList α where
  slots := list.slots.filter keep
  next := list.next
  distinct := list.distinct.sublist (List.filter_sublist.map _)
  allocated := fun slot member => list.allocated slot (List.mem_of_mem_filter member)

def erase (list : LinkedList α) (handle : Nat) : LinkedList α :=
  list.keepIf fun slot => slot.handle ≠ handle

def popFront (list : LinkedList α) : LinkedList α where
  slots := list.slots.tail
  next := list.next
  distinct := list.distinct.sublist ((List.tail_sublist _).map _)
  allocated := fun slot member => list.allocated slot (List.mem_of_mem_tail member)

def pushFront (list : LinkedList α) (value : α) : LinkedList α :=
  list.insertBetween [] list.slots value rfl

def back? (list : LinkedList α) : Option (Slot α) := list.slots.getLast?

def popBack (list : LinkedList α) : LinkedList α where
  slots := list.slots.dropLast
  next := list.next
  distinct := list.distinct.sublist ((List.dropLast_sublist _).map _)
  allocated := fun slot member => list.allocated slot (List.mem_of_mem_dropLast member)

/-- `splice` of one element to the front; its handle stays valid. -/
def moveToFront (list : LinkedList α) (handle : Nat) : LinkedList α where
  slots := list.slots.filter (fun slot => slot.handle = handle) ++
    list.slots.filter fun slot => ¬slot.handle = handle
  next := list.next
  distinct := by
    have reordered := List.filter_append_perm (fun slot : Slot α => decide (slot.handle = handle)) list.slots
    simp only [decide_not]
    exact (reordered.map Slot.handle).nodup_iff.mpr list.distinct
  allocated := by
    intro slot member
    rcases List.mem_append.mp member with here | there
    · exact list.allocated slot (List.mem_of_mem_filter here)
    · exact list.allocated slot (List.mem_of_mem_filter there)

@[simp] theorem slots_empty : (empty : LinkedList α).slots = [] := rfl

@[simp] theorem slots_pushBack (list : LinkedList α) (value : α) :
    (list.pushBack value).slots = list.slots ++ [⟨list.next, value⟩] := rfl

@[simp] theorem slots_popFront (list : LinkedList α) : list.popFront.slots = list.slots.tail := rfl

@[simp] theorem slots_erase (list : LinkedList α) (handle : Nat) :
    (list.erase handle).slots = list.slots.filter fun slot => slot.handle ≠ handle := rfl

@[simp] theorem mem_erase (list : LinkedList α) (handle : Nat) (slot : Slot α) :
    slot ∈ (list.erase handle).slots ↔ slot ∈ list.slots ∧ slot.handle ≠ handle := by
  simp

theorem slot_unique (list : LinkedList α) {first second : Slot α} (here : first ∈ list.slots)
    (there : second ∈ list.slots) (same : first.handle = second.handle) : first = second :=
  List.inj_on_of_nodup_map list.distinct here there same

theorem find?_eq_some (list : LinkedList α) {slot : Slot α} (member : slot ∈ list.slots) :
    list.find? slot.handle = some slot.value := by
  unfold find?
  cases found : list.slots.find? fun other => other.handle = slot.handle with
  | none =>
    have absent := List.find?_eq_none.mp found slot member
    simp at absent
  | some other =>
    have same : other = slot := list.slot_unique (List.mem_of_find?_eq_some found) member
      (by simpa using List.find?_some found)
    rw [same]
    rfl

theorem size_erase (list : LinkedList α) (handle : Nat) : (list.erase handle).size ≤ list.size :=
  List.length_filter_le ..

theorem popFront_eq_erase (list : LinkedList α) {slot : Slot α} (front : list.front? = some slot) :
    list.popFront = list.erase slot.handle := by
  obtain ⟨rest, shape⟩ := List.head?_eq_some_iff.mp front
  have distinct := list.distinct
  rw [shape, List.map_cons, List.nodup_cons] at distinct
  have same : list.slots.tail = list.slots.filter fun other => other.handle ≠ slot.handle := by
    rw [shape, List.tail_cons, List.filter_cons_of_neg (by simp)]
    symm
    apply List.filter_eq_self.mpr
    intro other member
    simpa using fun equal => distinct.1 (List.mem_map.mpr ⟨other, member, equal⟩)
  exact LinkedList.ext same rfl

end LinkedList

/-- A linked list of key-value pairs in non-decreasing key order. -/
structure Multimap (K V : Type) [LE K] extends LinkedList (K × V) where
  sorted : slots.Pairwise fun first second => first.value.1 ≤ second.value.1

namespace Multimap
variable {K V : Type} [LinearOrder K]

def empty : Multimap K V := ⟨LinkedList.empty, List.Pairwise.nil⟩

instance : Inhabited (Multimap K V) := ⟨empty⟩

/-- The slots whose key does not exceed `key`; equal keys keep their insertion order. -/
private def upTo (map : Multimap K V) (key : K) : List (Slot (K × V)) :=
  map.slots.takeWhile fun slot => slot.value.1 ≤ key

private def beyond (map : Multimap K V) (key : K) : List (Slot (K × V)) :=
  map.slots.dropWhile fun slot => slot.value.1 ≤ key

private theorem upTo_append_beyond (map : Multimap K V) (key : K) :
    map.slots = map.upTo key ++ map.beyond key :=
  (List.takeWhile_append_dropWhile).symm

private theorem upTo_le (map : Multimap K V) (key : K) :
    ∀ slot ∈ map.upTo key, slot.value.1 ≤ key := by
  intro slot member
  simpa using List.mem_takeWhile_imp member

private theorem key_le_beyond (map : Multimap K V) (key : K) :
    ∀ slot ∈ map.beyond key, key ≤ slot.value.1 := by
  intro slot member
  have sorted : (map.beyond key).Pairwise fun first second => first.value.1 ≤ second.value.1 :=
    map.sorted.sublist (List.dropWhile_sublist _)
  cases shape : map.beyond key with
  | nil => simp [shape] at member
  | cons first rest =>
    have above : key < first.value.1 := by
      have failed := List.head?_dropWhile_not (fun slot : Slot (K × V) => decide (slot.value.1 ≤ key)) map.slots
      have head : (map.beyond key).head? = some first := by rw [shape]; rfl
      rw [beyond] at head
      rw [head] at failed
      simpa using failed
    rw [shape] at member sorted
    rcases List.mem_cons.mp member with rfl | later
    · exact above.le
    · exact above.le.trans ((List.pairwise_cons.mp sorted).1 slot later)

/-- `std::multimap::emplace`: the new slot follows every slot with the same key. -/
def emplace (map : Multimap K V) (key : K) (value : V) : Multimap K V where
  toLinkedList := map.insertBetween (map.upTo key) (map.beyond key) (key, value)
    (map.upTo_append_beyond key)
  sorted := by
    have sorted := map.sorted
    rw [map.upTo_append_beyond key] at sorted
    obtain ⟨before, after, across⟩ := List.pairwise_append.mp sorted
    refine List.pairwise_append.mpr ⟨before, List.pairwise_cons.mpr ⟨map.key_le_beyond key, after⟩, ?_⟩
    intro first early second late
    rcases List.mem_cons.mp late with rfl | late
    · exact map.upTo_le key first early
    · exact across first early second late

def erase (map : Multimap K V) (handle : Nat) : Multimap K V where
  toLinkedList := map.toLinkedList.erase handle
  sorted := map.sorted.sublist List.filter_sublist

@[simp] theorem slots_empty : (empty : Multimap K V).slots = [] := rfl

@[simp] theorem next_emplace (map : Multimap K V) (key : K) (value : V) :
    (map.emplace key value).next = map.next + 1 := rfl

@[simp] theorem mem_emplace (map : Multimap K V) (key : K) (value : V) (slot : Slot (K × V)) :
    slot ∈ (map.emplace key value).slots ↔ slot = ⟨map.next, key, value⟩ ∨ slot ∈ map.slots := by
  change slot ∈ map.upTo key ++ ⟨map.next, key, value⟩ :: map.beyond key ↔ _
  rw [map.upTo_append_beyond key]
  simp only [List.mem_append, List.mem_cons]
  tauto

@[simp] theorem mem_erase (map : Multimap K V) (handle : Nat) (slot : Slot (K × V)) :
    slot ∈ (map.erase handle).slots ↔ slot ∈ map.slots ∧ slot.handle ≠ handle :=
  map.toLinkedList.mem_erase handle slot

theorem front_le (map : Multimap K V) {first slot : Slot (K × V)} (front : map.front? = some first)
    (member : slot ∈ map.slots) : first.value.1 ≤ slot.value.1 := by
  have sorted := map.sorted
  obtain ⟨rest, shape⟩ := List.head?_eq_some_iff.mp front
  rw [shape] at member sorted
  rcases List.mem_cons.mp member with rfl | later
  · exact le_rfl
  · exact (List.pairwise_cons.mp sorted).1 slot later

end Multimap

end Container
