import Harbinger.Json.Parser

/-! What the parser reads is the text of a tree with distinct keys, no surrogate escapes and bounded
depth, and its result is the value of the tree. The numbers of such a tree are those of
`std::from_chars`, which are more than the grammar has. -/

namespace Harbinger.Parser
open Json Ml

/-- A number as the parser holds it. -/
def num (meaning : Numeral → Option Number) (n : Numeral) : Number := (meaning n).getD (.integer 0)

/-- What `number` reads without an error. -/
def Legible (meaning : Numeral → Option Number) (n : Numeral) : Prop := n.General ∧ (meaning n).isSome

def Readable (meaning : Numeral → Option Number) (leaf : Leaf) : Prop := leaf.Formed (Legible meaning) ∧ leaf.Unpaired

/-- A tree that the parser reads with this number of levels left. -/
structure Accepted (meaning : Numeral → Option Number) (levels : Nat) (tree : Tree) : Prop where
  leaves : ∀ leaf ∈ tree.leaves, Readable meaning leaf
  distinct : tree.Distinct
  depth : tree.depth < levels

structure AcceptedItems (meaning : Numeral → Option Number) (levels : Nat) (found : Items) : Prop where
  leaves : ∀ leaf ∈ found.leaves, Readable meaning leaf
  distinct : found.Distinct
  depth : found.depth ≤ levels

structure AcceptedMembers (meaning : Numeral → Option Number) (levels : Nat) (found : Members) : Prop where
  leaves : ∀ leaf ∈ found.leaves, Readable meaning leaf
  distinct : found.Distinct
  depth : found.depth ≤ levels

section Shapes
variable {meaning : Numeral → Option Number} {levels : Nat}

theorem readable_blank {text : Bytes} : Readable meaning (.blank text) ↔ Blank text := and_iff_left trivial

theorem readable_string {pieces : List Piece} :
    Readable meaning (.string pieces) ↔ ∀ piece ∈ pieces, piece.Valid ∧ ¬piece.Surrogate :=
  forall₂_and.symm

theorem accepted_leafless {tree : Tree} (none : tree.leaves = []) (distinct : tree.Distinct) (depth : tree.depth = 0) :
    Accepted meaning (levels + 1) tree := by
  refine ⟨?_, distinct, by omega⟩
  rw [none]
  exact fun _ member => absurd member List.not_mem_nil

theorem accepted_number {n : Numeral} : Accepted meaning (levels + 1) (.number n) ↔ Legible meaning n := by
  constructor
  · intro accepted
    exact (accepted.leaves _ (List.mem_singleton.mpr rfl)).1
  · intro legible
    exact ⟨fun leaf member => List.mem_singleton.mp member ▸ ⟨legible, trivial⟩, trivial, Nat.succ_pos _⟩

theorem accepted_string {pieces : List Piece} :
    Accepted meaning (levels + 1) (.string pieces) ↔ ∀ piece ∈ pieces, piece.Valid ∧ ¬piece.Surrogate := by
  constructor
  · intro accepted
    exact readable_string.mp (accepted.leaves _ (List.mem_singleton.mpr rfl))
  · intro valid
    exact ⟨fun leaf member => List.mem_singleton.mp member ▸ readable_string.mpr valid, trivial, Nat.succ_pos _⟩

theorem accepted_array {blank : Bytes} {found : Items} :
    Accepted meaning (levels + 1) (.array blank found) ↔ Blank blank ∧ AcceptedItems meaning levels found := by
  constructor
  · rintro ⟨leaves, distinct, depth⟩
    obtain ⟨first, others⟩ := List.forall_mem_cons.mp leaves
    exact ⟨readable_blank.mp first, others, distinct, Nat.le_of_lt_succ depth⟩
  · rintro ⟨blank, leaves, distinct, depth⟩
    exact ⟨List.forall_mem_cons.mpr ⟨readable_blank.mpr blank, leaves⟩, distinct, Nat.lt_succ_of_le depth⟩

theorem accepted_object {blank : Bytes} {found : Members} : Accepted meaning (levels + 1) (.object blank found) ↔
    Blank blank ∧ found.keys.Nodup ∧ AcceptedMembers meaning levels found := by
  constructor
  · rintro ⟨leaves, ⟨keys, distinct⟩, depth⟩
    obtain ⟨first, others⟩ := List.forall_mem_cons.mp leaves
    exact ⟨readable_blank.mp first, keys, others, distinct, Nat.le_of_lt_succ depth⟩
  · rintro ⟨blank, keys, leaves, distinct, depth⟩
    exact ⟨List.forall_mem_cons.mpr ⟨readable_blank.mpr blank, leaves⟩, ⟨keys, distinct⟩, Nat.lt_succ_of_le depth⟩

theorem acceptedItems_nil : AcceptedItems meaning levels .nil :=
  ⟨fun _ member => absurd member List.not_mem_nil, trivial, Nat.zero_le _⟩

theorem acceptedItems_cons {before after : Bytes} {item : Tree} {rest : Items} :
    AcceptedItems meaning levels (.cons before item after rest) ↔
      Blank before ∧ Blank after ∧ Accepted meaning levels item ∧ AcceptedItems meaning levels rest := by
  constructor
  · rintro ⟨leaves, ⟨distinct, distinct'⟩, depth⟩
    simp only [Items.leaves, List.forall_mem_cons, List.forall_mem_append, readable_blank] at leaves
    obtain ⟨left, right, inner, others⟩ := leaves
    obtain ⟨deep, deep'⟩ := max_le_iff.mp depth
    exact ⟨left, right, ⟨inner, distinct, deep⟩, others, distinct', deep'⟩
  · rintro ⟨left, right, ⟨inner, distinct, deep⟩, others, distinct', deep'⟩
    refine ⟨?_, ⟨distinct, distinct'⟩, max_le deep deep'⟩
    simp only [Items.leaves, List.forall_mem_cons, List.forall_mem_append, readable_blank]
    exact ⟨left, right, inner, others⟩

theorem acceptedMembers_nil : AcceptedMembers meaning levels .nil :=
  ⟨fun _ member => absurd member List.not_mem_nil, trivial, Nat.zero_le _⟩

theorem acceptedMembers_cons {left right before after : Bytes} {key : List Piece} {item : Tree} {rest : Members} :
    AcceptedMembers meaning levels (.cons left key right before item after rest) ↔
      (Blank left ∧ (∀ piece ∈ key, piece.Valid ∧ ¬piece.Surrogate) ∧ Blank right) ∧
        (Blank before ∧ Blank after) ∧ Accepted meaning levels item ∧ AcceptedMembers meaning levels rest := by
  constructor
  · rintro ⟨leaves, ⟨distinct, distinct'⟩, depth⟩
    simp only [Members.leaves, List.forall_mem_cons, List.forall_mem_append, readable_blank, readable_string] at leaves
    obtain ⟨blank, named, blank', front, back, inner, others⟩ := leaves
    obtain ⟨deep, deep'⟩ := max_le_iff.mp depth
    exact ⟨⟨blank, named, blank'⟩, ⟨front, back⟩, ⟨inner, distinct, deep⟩, others, distinct', deep'⟩
  · rintro ⟨⟨blank, named, blank'⟩, ⟨front, back⟩, ⟨inner, distinct, deep⟩, others, distinct', deep'⟩
    refine ⟨?_, ⟨distinct, distinct'⟩, max_le deep deep'⟩
    simp only [Members.leaves, List.forall_mem_cons, List.forall_mem_append, readable_blank, readable_string]
    exact ⟨blank, named, blank', front, back, inner, others⟩

end Shapes

theorem blank_append {before after : Bytes} (front : Blank before) (back : Blank after) : Blank (before ++ after) :=
  List.forall_mem_append.mpr ⟨front, back⟩

/-- The reader takes the text of an accepted tree, with blanks before it. -/
def Sound (meaning : Numeral → Option Number) (levels : Nat) (read : Bytes → Except String (Document × Bytes)) : Prop :=
  ∀ text rest document, read text = .ok (document, rest) → ∃ before tree, Blank before ∧
    text = before ++ (tree.text ++ rest) ∧ Accepted meaning levels tree ∧ tree.value (num meaning) = document

section Containers
variable {meaning : Numeral → Option Number} {levels : Nat} {read : Bytes → Except String (Document × Bytes)}
  (sound : Sound meaning levels read)
include sound

theorem items_sound {fuel : Nat} {text rest : Bytes} {found : List Document}
    (done : items read fuel text = .ok (found, rest)) : ∃ parts : Items,
      44 :: text = parts.text ++ 93 :: rest ∧ AcceptedItems meaning levels parts ∧ parts.values (num meaning) = found := by
  induction fuel generalizing text found with
  | zero => cases done
  | succ fuel ih =>
    simp only [items, bind_ok] at done
    obtain ⟨⟨first, behind⟩, taken, ⟨c, here⟩, seen, done⟩ := done
    obtain ⟨before, tree, blank, rfl, accepted, rfl⟩ := sound _ _ _ taken
    obtain ⟨after, tail, blank', rfl, rfl⟩ := peek_ok seen
    dsimp only at done
    split at done
    next comma =>
      obtain ⟨⟨others, last⟩, continued, same⟩ := bind_ok.mp done
      cases same
      obtain ⟨parts, split, rest_accepted, rfl⟩ := ih continued
      refine ⟨.cons before tree after parts, ?_, acceptedItems_cons.mpr ⟨blank, blank', accepted, rest_accepted⟩, rfl⟩
      rw [List.drop_one, List.tail_cons] at split
      simp [Items.text, comma, split]
    next other =>
      obtain ⟨last, closed, same⟩ := bind_ok.mp done
      cases same
      obtain ⟨space, blank'', split⟩ := expect_ok closed
      refine ⟨.cons before tree (after ++ space) .nil, ?_,
        acceptedItems_cons.mpr ⟨blank, blank_append blank' blank'', accepted, acceptedItems_nil⟩, rfl⟩
      simp [Items.text, split]

theorem array_sound {text rest : Bytes} {document : Document} (done : array read text = .ok (document, rest)) :
    ∃ before tree, Blank before ∧ text = before ++ (tree.text ++ rest) ∧ Accepted meaning (levels + 1) tree ∧
      tree.value (num meaning) = document := by
  simp only [array, bind_ok] at done
  obtain ⟨behind, opened, ⟨c, here⟩, seen, done⟩ := done
  obtain ⟨before, blank, rfl⟩ := expect_ok opened
  obtain ⟨inner, tail, blank', rfl, rfl⟩ := peek_ok seen
  dsimp only at done
  split at done
  next closed =>
    cases done
    refine ⟨before, .array inner .nil, blank, ?_, accepted_array.mpr ⟨blank', acceptedItems_nil⟩, rfl⟩
    simp [Tree.text, Items.text, closed]
  next other =>
    obtain ⟨⟨found, last⟩, taken, same⟩ := bind_ok.mp done
    cases same
    obtain ⟨parts, split, accepted, rfl⟩ := items_sound sound taken
    refine ⟨before, .array inner parts, blank, ?_, accepted_array.mpr ⟨blank', accepted⟩, rfl⟩
    cases parts with
    | nil => cases split
    | cons front item back others =>
      have body := List.tail_eq_of_cons_eq split
      simp [Tree.text, Items.text, body]

theorem members_sound {fuel : Nat} {out found : List (Bytes × Document)} {text rest : Bytes}
    (done : members read fuel out text = .ok (found, rest)) (distinct : (out.map Prod.fst).Nodup) :
    ∃ parts : Members, 44 :: text = parts.text ++ 125 :: rest ∧ AcceptedMembers meaning levels parts ∧
      out ++ parts.values (num meaning) = found ∧ (found.map Prod.fst).Nodup := by
  induction fuel generalizing text out with
  | zero => cases done
  | succ fuel ih =>
    simp only [members, bind_ok] at done
    obtain ⟨⟨key, behind⟩, named, colon, opened, ⟨item, ahead⟩, taken, done⟩ := done
    obtain ⟨left, blank, pieces, valid, rfl, rfl⟩ := str_sound named
    obtain ⟨right, blank', rfl⟩ := expect_ok opened
    obtain ⟨before, tree, front, rfl, accepted, rfl⟩ := sound _ _ _ taken
    dsimp only at done
    split at done
    · cases done
    next fresh =>
      have extended : ((out ++ [(piecesValue pieces, tree.value (num meaning))]).map Prod.fst).Nodup := by
        rw [List.map_append, List.nodup_append]
        refine ⟨distinct, by simp, ?_⟩
        intro a member b last same
        obtain rfl := List.mem_singleton.mp last
        subst same
        obtain ⟨entry, known, same⟩ := List.mem_map.mp member
        have missing : out.lookup (piecesValue pieces) = none := Option.not_isSome_iff_eq_none.mp fresh
        exact absurd same.symm (by simpa using List.lookup_eq_none_iff.mp missing entry known)
      obtain ⟨⟨c, here⟩, seen, continued⟩ := bind_ok.mp done
      clear done
      obtain ⟨after, tail, back, rfl, rfl⟩ := peek_ok seen
      dsimp only at continued
      split at continued
      next comma =>
        obtain ⟨parts, split, rest_accepted, rfl, unique⟩ := ih continued extended
        refine ⟨.cons left pieces right before tree after parts, ?_,
          acceptedMembers_cons.mpr ⟨⟨blank, valid, blank'⟩, ⟨front, back⟩, accepted, rest_accepted⟩, ?_, unique⟩
        · rw [List.drop_one, List.tail_cons] at split
          simp [Members.text, comma, split]
        · simp [Members.values]
      next other =>
        obtain ⟨last, closed, same⟩ := bind_ok.mp continued
        cases same
        obtain ⟨space, blank'', split⟩ := expect_ok closed
        refine ⟨.cons left pieces right before tree (after ++ space) .nil, ?_, acceptedMembers_cons.mpr
          ⟨⟨blank, valid, blank'⟩, ⟨front, blank_append back blank''⟩, accepted, acceptedMembers_nil⟩, rfl, extended⟩
        simp [Members.text, split]

theorem object_sound {text rest : Bytes} {document : Document} (done : object read text = .ok (document, rest)) :
    ∃ before tree, Blank before ∧ text = before ++ (tree.text ++ rest) ∧ Accepted meaning (levels + 1) tree ∧
      tree.value (num meaning) = document := by
  simp only [object, bind_ok] at done
  obtain ⟨behind, opened, ⟨c, here⟩, seen, done⟩ := done
  obtain ⟨before, blank, rfl⟩ := expect_ok opened
  obtain ⟨inner, tail, blank', rfl, rfl⟩ := peek_ok seen
  dsimp only at done
  split at done
  next closed =>
    cases done
    refine ⟨before, .object inner .nil, blank, ?_,
      accepted_object.mpr ⟨blank', List.nodup_nil, acceptedMembers_nil⟩, rfl⟩
    simp [Tree.text, Members.text, closed]
  next other =>
    obtain ⟨⟨found, last⟩, taken, same⟩ := bind_ok.mp done
    cases same
    obtain ⟨parts, split, accepted, rfl, unique⟩ := members_sound sound taken List.nodup_nil
    have keys : parts.keys.Nodup := by rwa [parts.keys_eq (num meaning)]
    refine ⟨before, .object inner parts, blank, ?_, accepted_object.mpr ⟨blank', keys, accepted⟩, rfl⟩
    cases parts with
    | nil => cases split
    | cons left key right front item back others =>
      have body := List.tail_eq_of_cons_eq split
      simp [Tree.text, Members.text, body]

end Containers

theorem literal_ok {word text rest : Bytes} {given document : Document}
    (done : literal word given text = .ok (document, rest)) : text = word ++ rest ∧ given = document := by
  unfold literal at done
  split at done
  next begins =>
    cases done
    obtain ⟨tail, rfl⟩ := begins
    simp
  · cases done

/-- By induction on the levels: a container reads its parts with one level less. -/
theorem value_sound {decimals : Decimals} {meaning : Numeral → Option Number} (numbers : NumbersSound decimals meaning) (levels : Nat) :
    Sound meaning levels (value decimals levels) := by
  induction levels with
  | zero => exact fun _ _ _ done => by cases done
  | succ levels ih =>
    intro text rest document done
    simp only [value, bind_ok] at done
    obtain ⟨⟨c, here⟩, seen, done⟩ := done
    obtain ⟨before, tail, blank, rfl, rfl⟩ := peek_ok seen
    have word : ∀ leafless : Tree, leafless.leaves = [] → leafless.Distinct → leafless.depth = 0 →
        c :: tail = leafless.text ++ rest ∧ leafless.value (num meaning) = document →
        ∃ front tree, Blank front ∧ before ++ c :: tail = front ++ (tree.text ++ rest) ∧
          Accepted meaning (levels + 1) tree ∧ tree.value (num meaning) = document := by
      rintro leafless none distinct depth ⟨split, same⟩
      exact ⟨before, leafless, blank, by rw [split], accepted_leafless none distinct depth, same⟩
    dsimp only at done
    split at done
    · obtain ⟨space, tree, blank', split, accepted, same⟩ := object_sound ih done
      exact ⟨before ++ space, tree, blank_append blank blank', by rw [split, List.append_assoc], accepted, same⟩
    split at done
    · obtain ⟨space, tree, blank', split, accepted, same⟩ := array_sound ih done
      exact ⟨before ++ space, tree, blank_append blank blank', by rw [split, List.append_assoc], accepted, same⟩
    split at done
    · obtain ⟨⟨out, behind⟩, found, same⟩ := map_ok.mp done
      cases same
      obtain ⟨space, blank', pieces, valid, rfl, split⟩ := str_sound found
      refine ⟨before ++ space, .string pieces, blank_append blank blank', ?_, accepted_string.mpr valid, rfl⟩
      rw [split, List.append_assoc]
      rfl
    split at done
    · exact word (.bool true) rfl trivial rfl (literal_ok done)
    split at done
    · exact word (.bool false) rfl trivial rfl (literal_ok done)
    split at done
    · exact word .null rfl trivial rfl (literal_ok done)
    · obtain ⟨n, found, general, known, rfl, split⟩ := numbers _ _ _ done
      have legible : Legible meaning n := ⟨general, by rw [known]; rfl⟩
      refine ⟨before, .number n, blank, by rw [split]; rfl, accepted_number.mpr legible, ?_⟩
      rw [Tree.value, num, known]
      rfl

theorem parse_sound {decimals : Decimals} {meaning : Numeral → Option Number} (numbers : NumbersSound decimals meaning) {text : Bytes}
    {document : Document} (done : parse decimals text = .ok document) : ∃ before tree after, Blank before ∧ Blank after ∧
      text = before ++ (tree.text ++ after) ∧ Accepted meaning (maxDepth + 1) tree ∧ tree.value (num meaning) = document := by
  simp only [parse, bind_ok] at done
  obtain ⟨⟨out, rest⟩, taken, done⟩ := done
  dsimp only at done
  split at done
  · cases done
  next ended =>
    cases done
    obtain ⟨before, tree, blank, split, accepted, same⟩ := value_sound numbers _ _ _ _ taken
    obtain ⟨after, blank', remaining⟩ := skip_split rest
    rw [not_not.mp ended, List.append_nil] at remaining
    exact ⟨before, tree, rest, blank, remaining ▸ blank', split, accepted, same⟩

end Harbinger.Parser
