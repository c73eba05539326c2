import Harbinger.Json.Grammar

/-! The words of a text: the runs of characters outside of strings between brackets, commas, colons
and blanks. They are read off any text, whether it is a document or not, and the numbers of a tree are
among the words of its text. -/

namespace Json

def isDelimiter (c : UInt8) : Bool :=
  isBlank c || c == 34 || c == 44 || c == 58 || c == 91 || c == 93 || c == 123 || c == 125

/-- Outside of strings with the word so far, in a string, or behind a backslash in one. -/
inductive Mode where
  | outside (word : Text)
  | inside
  | escaped

def wordsFrom : Mode → Text → List Text
  | .outside word, [] => [word]
  | _, [] => []
  | .outside word, c :: rest =>
    if c = 34 then word :: wordsFrom .inside rest
    else if isDelimiter c then word :: wordsFrom (.outside []) rest
    else wordsFrom (.outside (word ++ [c])) rest
  | .inside, c :: rest =>
    if c = 34 then wordsFrom (.outside []) rest
    else if c = 92 then wordsFrom .escaped rest
    else wordsFrom .inside rest
  | .escaped, _ :: rest => wordsFrom .inside rest

def words (text : Text) : List Text := wordsFrom (.outside []) text

def IsWord (text word : Text) : Prop := word ≠ [] ∧ word ∈ words text

/-- The text ends or goes on with a delimiter. -/
def Closed (rest : Text) : Prop := ∀ c ∈ rest.head?, isDelimiter c = true

theorem closed_nil : Closed [] := fun _ none => by cases none

theorem closed_cons {c : UInt8} (delimiter : isDelimiter c = true) (rest : Text) : Closed (c :: rest) := by
  intro d member
  obtain rfl := Option.some.inj member
  exact delimiter

theorem isDelimiter_of_isBlank {c : UInt8} (blank : isBlank c = true) : isDelimiter c = true := by
  simp [isDelimiter, blank]

theorem closed_blank {before rest : Text} (blank : Blank before) (closed : Closed rest) : Closed (before ++ rest) := by
  cases before with
  | nil => exact closed
  | cons c before => exact closed_cons (isDelimiter_of_isBlank (blank c (List.mem_cons_self ..))) _

/-! ### The words of the parts of a text -/

theorem isWord_delimiter {c : UInt8} (delimiter : isDelimiter c = true) (bare : c ≠ 34) {rest word : Text} :
    IsWord (c :: rest) word ↔ IsWord rest word := by
  have step : words (c :: rest) = [] :: words rest := by rw [words, wordsFrom, if_neg bare, if_pos delimiter, words]
  rw [IsWord, IsWord, step, List.mem_cons]
  exact and_congr_right fun nonempty => or_iff_right nonempty

theorem isWord_blank {before : Text} (blank : Blank before) {rest word : Text} :
    IsWord (before ++ rest) word ↔ IsWord rest word := by
  induction before with
  | nil => rfl
  | cons c before ih =>
    obtain ⟨first, others⟩ := List.forall_mem_cons.mp blank
    have bare : c ≠ 34 := by
      rintro rfl
      cases first
    exact (isWord_delimiter (isDelimiter_of_isBlank first) bare).trans (ih others)

/-- A string hides its characters. -/
theorem wordsFrom_pieces {pieces : List Piece} (valid : ∀ piece ∈ pieces, piece.Valid) (rest : Text) :
    wordsFrom .inside (piecesText pieces ++ 34 :: rest) = words rest := by
  have hidden : ∀ c : UInt8, (hexValue c).isSome → c ≠ 34 ∧ c ≠ 92 := by decide +kernel
  induction pieces with
  | nil => rw [piecesText, List.flatMap_nil, List.nil_append, wordsFrom, if_pos rfl, words]
  | cons piece pieces ih =>
    obtain ⟨first, others⟩ := List.forall_mem_cons.mp valid
    have shape : piecesText (piece :: pieces) ++ 34 :: rest = piece.text ++ (piecesText pieces ++ 34 :: rest) := by
      simp [piecesText]
    rw [shape, ← ih others]
    cases piece with
    | plain c =>
      obtain ⟨_, quote, backslash⟩ := first
      simp [Piece.text, wordsFrom, quote, backslash]
    | escape letter => simp [Piece.text, wordsFrom]
    | code a b c d =>
      simp only [Piece.Valid, codeOf, Option.isSome_iff_exists, bind, Option.bind_eq_some_iff] at first
      obtain ⟨_, _, first, _, second, _, third, _, fourth, _⟩ := first
      have known : ∀ {x : UInt8} {n : Nat}, hexValue x = some n → x ≠ 34 ∧ x ≠ 92 := fun found =>
        hidden _ (by rw [found]; rfl)
      simp [Piece.text, wordsFrom, known first, known second, known third, known fourth]

theorem isWord_string {pieces : List Piece} (valid : ∀ piece ∈ pieces, piece.Valid) {rest word : Text} :
    IsWord (stringText pieces ++ rest) word ↔ IsWord rest word := by
  have step : words (stringText pieces ++ rest) = [] :: words rest := by
    have shape : stringText pieces ++ rest = 34 :: (piecesText pieces ++ 34 :: rest) := by simp [stringText]
    rw [shape, words, wordsFrom, if_pos rfl, wordsFrom_pieces valid]
  rw [IsWord, IsWord, step, List.mem_cons]
  exact and_congr_right fun nonempty => or_iff_right nonempty

theorem wordsFrom_run {run : Text} (plain : ∀ c ∈ run, isDelimiter c = false) {rest : Text} (closed : Closed rest)
    (word : Text) : wordsFrom (.outside word) (run ++ rest) = (word ++ run) :: (words rest).tail := by
  induction run generalizing word with
  | nil =>
    rw [List.append_nil, List.nil_append]
    cases rest with
    | nil => rfl
    | cons c rest =>
      have delimiter := closed c rfl
      by_cases quote : c = 34
      · simp [words, wordsFrom, quote]
      · simp [words, wordsFrom, quote, delimiter]
  | cons c run ih =>
    obtain ⟨first, others⟩ := List.forall_mem_cons.mp plain
    have bare : c ≠ 34 := by
      rintro rfl
      cases first
    have step := ih others (word ++ [c])
    rw [List.append_assoc] at step
    rw [List.cons_append, wordsFrom, if_neg bare, if_neg (by rw [first]; decide), step]
    rfl

theorem isWord_run {run : Text} (nonempty : run ≠ []) (plain : ∀ c ∈ run, isDelimiter c = false) {rest : Text}
    (closed : Closed rest) {word : Text} : IsWord (run ++ rest) word ↔ word = run ∨ IsWord rest word := by
  have first : words rest = [] :: (words rest).tail :=
    @wordsFrom_run [] (fun _ none => absurd none List.not_mem_nil) rest closed []
  have step : words (run ++ rest) = run :: (words rest).tail := wordsFrom_run plain closed []
  have tail : IsWord rest word ↔ word ≠ [] ∧ word ∈ (words rest).tail := by
    rw [IsWord, first, List.mem_cons, List.tail_cons]
    exact and_congr_right fun nonempty => or_iff_right nonempty
  rw [tail, IsWord, step, List.mem_cons]
  constructor
  · rintro ⟨kept, same | later⟩
    · exact .inl same
    · exact .inr ⟨kept, later⟩
  · rintro (rfl | ⟨kept, later⟩)
    · exact ⟨nonempty, .inl rfl⟩
    · exact ⟨kept, .inr later⟩

/-! ### The numbers of a tree -/

theorem numeral_plain {n : Numeral} (general : n.General) : ∀ c ∈ n.text, isDelimiter c = false := by
  have digit : ∀ c : UInt8, isDigit c = true → isDelimiter c = false := by decide +kernel
  exact general.forall_text digit rfl rfl rfl rfl rfl

/-- The numbers among the parts, and the words of the rest, are words of the text. -/
def Covers (leaves : List Leaf) (text rest : Text) : Prop :=
  ∀ word, (∃ n : Numeral, Leaf.number n ∈ leaves ∧ n.text = word) ∨ IsWord rest word → IsWord text word

theorem Covers.of_iff {leaves : List Leaf} {text rest : Text} (none : ∀ n, Leaf.number n ∉ leaves)
    (same : ∀ word, IsWord rest word → IsWord text word) : Covers leaves text rest := by
  rintro word (⟨n, member, _⟩ | later)
  · exact absurd member (none n)
  · exact same word later

theorem literal_plain {value : Bool} : ∀ c ∈ letters (if value then "true" else "false"), isDelimiter c = false := by
  cases value <;> decide +kernel

theorem Items.closed {rest : Text} (closed : Closed rest) : ∀ items : Items, Closed (items.text ++ rest)
  | .nil => closed
  | .cons _ _ _ _ => closed_cons rfl _

theorem Members.closed {rest : Text} (closed : Closed rest) : ∀ members : Members, Closed (members.text ++ rest)
  | .nil => closed
  | .cons _ _ _ _ _ _ _ => closed_cons rfl _

theorem Items.isWord_drop {rest word : Text} : ∀ items : Items,
    IsWord (items.text.drop 1 ++ rest) word ↔ IsWord (items.text ++ rest) word
  | .nil => Iff.rfl
  | .cons _ _ _ _ => (isWord_delimiter rfl (by decide)).symm

theorem Members.isWord_drop {rest word : Text} : ∀ members : Members,
    IsWord (members.text.drop 1 ++ rest) word ↔ IsWord (members.text ++ rest) word
  | .nil => Iff.rfl
  | .cons _ _ _ _ _ _ _ => (isWord_delimiter rfl (by decide)).symm

mutual

/-- By recursion on the tree: a number is a run between delimiters, and a container has its parts. -/
theorem Tree.covers {rest : Text} (closed : Closed rest) : ∀ tree : Tree,
    (∀ leaf ∈ tree.leaves, leaf.Formed Numeral.General) → Covers tree.leaves (tree.text ++ rest) rest
  | .null, _ => .of_iff (fun _ none => by cases none) fun _ later =>
    (isWord_run (by decide +kernel) (by decide +kernel) closed).mpr (.inr later)
  | .bool value, _ => .of_iff (fun _ none => by cases none) fun _ later =>
    (isWord_run (by cases value <;> decide +kernel) literal_plain closed).mpr (.inr later)
  | .string pieces, formed => .of_iff (by simp [Tree.leaves]) fun _ later =>
    (isWord_string (formed _ (List.mem_singleton.mpr rfl))).mpr later
  | .number n, formed => by
    have general : n.General := formed _ (List.mem_singleton.mpr rfl)
    rintro word (⟨m, member, rfl⟩ | later)
    · obtain rfl : m = n := by simpa [Tree.leaves] using member
      exact (isWord_run general.text_ne_nil (numeral_plain general) closed).mpr (.inl rfl)
    · exact (isWord_run general.text_ne_nil (numeral_plain general) closed).mpr (.inr later)
  | .array blank items, formed => by
    obtain ⟨space, inner⟩ := List.forall_mem_cons.mp formed
    have parts := Items.covers (closed_cons (rfl : isDelimiter 93 = true) rest) items inner
    have shape : (Tree.array blank items).text ++ rest = 91 :: (blank ++ (items.text.drop 1 ++ 93 :: rest)) := by
      simp [Tree.text]
    intro word shown
    rw [shape, isWord_delimiter rfl (by decide), isWord_blank space, items.isWord_drop]
    refine parts word ?_
    rw [isWord_delimiter rfl (by decide)]
    simpa [Tree.leaves] using shown
  | .object blank members, formed => by
    obtain ⟨space, inner⟩ := List.forall_mem_cons.mp formed
    have parts := Members.covers (closed_cons (rfl : isDelimiter 125 = true) rest) members inner
    have shape : (Tree.object blank members).text ++ rest = 123 :: (blank ++ (members.text.drop 1 ++ 125 :: rest)) := by
      simp [Tree.text]
    intro word shown
    rw [shape, isWord_delimiter rfl (by decide), isWord_blank space, members.isWord_drop]
    refine parts word ?_
    rw [isWord_delimiter rfl (by decide)]
    simpa [Tree.leaves] using shown

theorem Items.covers {rest : Text} (closed : Closed rest) : ∀ items : Items,
    (∀ leaf ∈ items.leaves, leaf.Formed Numeral.General) → Covers items.leaves (items.text ++ rest) rest
  | .nil, _ => .of_iff (fun _ none => by cases none) fun _ later => later
  | .cons before item after others, formed => by
    simp only [Items.leaves, List.forall_mem_cons, List.forall_mem_append] at formed
    obtain ⟨front, back, inner, outer⟩ := formed
    have tail := Items.covers closed others outer
    have open_end : Closed (after ++ (others.text ++ rest)) := closed_blank back (others.closed closed)
    have head := Tree.covers open_end item inner
    have shape : (Items.cons before item after others).text ++ rest =
        44 :: (before ++ (item.text ++ (after ++ (others.text ++ rest)))) := by simp [Items.text]
    intro word shown
    rw [shape, isWord_delimiter rfl (by decide), isWord_blank front]
    refine head word ?_
    rw [isWord_blank back]
    rcases shown with ⟨n, member, same⟩ | later
    · simp only [Items.leaves, List.mem_cons, List.mem_append, reduceCtorEq, false_or] at member
      exact member.imp (fun here => ⟨n, here, same⟩) fun there => tail word (.inl ⟨n, there, same⟩)
    · exact .inr (tail word (.inr later))

theorem Members.covers {rest : Text} (closed : Closed rest) : ∀ members : Members,
    (∀ leaf ∈ members.leaves, leaf.Formed Numeral.General) → Covers members.leaves (members.text ++ rest) rest
  | .nil, _ => .of_iff (fun _ none => by cases none) fun _ later => later
  | .cons left key right before item after others, formed => by
    simp only [Members.leaves, List.forall_mem_cons, List.forall_mem_append] at formed
    obtain ⟨space, named, space', front, back, inner, outer⟩ := formed
    have tail := Members.covers closed others outer
    have open_end : Closed (after ++ (others.text ++ rest)) := closed_blank back (others.closed closed)
    have head := Tree.covers open_end item inner
    have shape : (Members.cons left key right before item after others).text ++ rest = 44 :: (left ++ (stringText key ++
        (right ++ 58 :: (before ++ (item.text ++ (after ++ (others.text ++ rest))))))) := by simp [Members.text]
    intro word shown
    rw [shape, isWord_delimiter rfl (by decide), isWord_blank space, isWord_string named, isWord_blank space',
      isWord_delimiter rfl (by decide), isWord_blank front]
    refine head word ?_
    rw [isWord_blank back]
    rcases shown with ⟨n, member, same⟩ | later
    · simp only [Members.leaves, List.mem_cons, List.mem_append, reduceCtorEq, false_or] at member
      exact member.imp (fun here => ⟨n, here, same⟩) fun there => tail word (.inl ⟨n, there, same⟩)
    · exact .inr (tail word (.inr later))

end

theorem Tree.number_isWord {tree : Tree} (formed : ∀ leaf ∈ tree.leaves, leaf.Formed Numeral.General)
    {before after : Text} (front : Blank before) (back : Blank after) {n : Numeral} (member : Leaf.number n ∈ tree.leaves) :
    IsWord (before ++ (tree.text ++ after)) n.text := by
  have closed : Closed after := by
    have whole := closed_blank back closed_nil
    rwa [List.append_nil] at whole
  exact (isWord_blank front).mpr (Tree.covers closed tree formed n.text (.inl ⟨n, member, rfl⟩))

end Json
