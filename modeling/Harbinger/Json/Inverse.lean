import Harbinger.Json.Completeness

/-! The compact text of a document is the text of a tree without blanks, so the parser reads the
document back, given that it does so for the numbers. -/

namespace Json

/-- The document fits into this number of levels, its keys are distinct and its numbers of a kind. -/
def Value.Within {ν : Type} (kind : ν → Prop) : Nat → Value ν → Prop
  | 0, _ => False
  | _ + 1, .null => True
  | _ + 1, .bool _ => True
  | _ + 1, .string _ => True
  | _ + 1, .number value => kind value
  | levels + 1, .array items => ∀ item ∈ items, item.Within kind levels
  | levels + 1, .object members =>
    (members.map Prod.fst).Nodup ∧ ∀ member ∈ members, member.2.Within kind levels

/-- The piece that the compact text has for a byte. -/
def pieceOf (c : UInt8) : Piece :=
  if c = 34 ∨ c = 92 then .escape c
  else if c < 32 then .code 48 48 (hexDigit (c >>> 4)) (hexDigit (c &&& 15))
  else .plain c

theorem pieceOf_text : ∀ c, (pieceOf c).text = escapeByte c := by decide +kernel

theorem pieceOf_value : ∀ c, (pieceOf c).value = [c] := by decide +kernel

theorem pieceOf_valid : ∀ c, (pieceOf c).Valid := by decide +kernel

theorem pieceOf_not_surrogate (c : UInt8) : ¬(pieceOf c).Surrogate := by
  have low : ∀ c : UInt8, c < 32 → codeOf 48 48 (hexDigit (c >>> 4)) (hexDigit (c &&& 15)) = some c.toNat := by
    decide +kernel
  unfold pieceOf
  split
  · exact id
  split
  next control =>
    rintro ⟨code, known, high, _⟩
    rw [low c control] at known
    have small := c.toNat_lt
    have same := Option.some.inj known
    omega
  · exact id

theorem stringText_pieceOf (text : Text) : stringText (text.map pieceOf) = quoted text := by
  rw [stringText, quoted, piecesText, List.flatMap_map, funext pieceOf_text]
  rfl

theorem piecesValue_pieceOf (text : Text) : piecesValue (text.map pieceOf) = text := by
  rw [piecesValue, List.flatMap_map, funext pieceOf_value, List.flatMap_singleton']

theorem pieceOf_read (text : Text) : ∀ piece ∈ text.map pieceOf, piece.Valid ∧ ¬piece.Surrogate := by
  intro piece member
  obtain ⟨c, _, rfl⟩ := List.mem_map.mp member
  exact ⟨pieceOf_valid c, pieceOf_not_surrogate c⟩

section Separators
variable {ν : Type} (spell : ν → Text)

theorem renderItems_eq : ∀ items : List (Value ν),
    renderItems spell items = (items.flatMap fun item => 44 :: render spell item).drop 1
  | [] => rfl
  | [item] => by simp [renderItems]
  | item :: other :: rest => by
    rw [renderItems, renderItems_eq (other :: rest)]
    simp

theorem renderMembers_eq : ∀ members : List (Text × Value ν),
    renderMembers spell members = (members.flatMap fun member => 44 :: renderMember spell member).drop 1
  | [] => rfl
  | [member] => by simp [renderMembers]
  | member :: other :: rest => by
    rw [renderMembers, renderMembers_eq (other :: rest)]
    simp

end Separators

end Json

namespace Harbinger.Parser
open Json Ml

/-- The text of the number is a numeral that means it. -/
def Spelled (meaning : Numeral → Option Number) (spell : Number → Bytes) (value : Number) : Prop :=
  ∃ n : Numeral, n.General ∧ n.text = spell value ∧ meaning n = some value

section Trees
variable {meaning : Numeral → Option Number} {spell : Number → Bytes} {levels : Nat}

/-- The tree is one for the compact text of the document. -/
structure Renders (meaning : Numeral → Option Number) (spell : Number → Bytes) (levels : Nat) (document : Document)
    (tree : Tree) : Prop where
  accepted : Accepted meaning levels tree
  text : tree.text = render spell document
  value : tree.value (num meaning) = document

theorem blank_nil : Blank [] := fun _ none => absurd none List.not_mem_nil

theorem items_tree {found : List Document} (each : ∀ item ∈ found, ∃ tree, Renders meaning spell levels item tree) :
    ∃ parts : Items, AcceptedItems meaning levels parts ∧
      parts.text = (found.flatMap fun item => 44 :: render spell item) ∧ parts.values (num meaning) = found := by
  induction found with
  | nil => exact ⟨.nil, acceptedItems_nil, rfl, rfl⟩
  | cons item found ih =>
    obtain ⟨⟨tree, renders⟩, others⟩ := List.forall_mem_cons.mp each
    obtain ⟨parts, accepted, text, values⟩ := ih others
    refine ⟨.cons [] tree [] parts, acceptedItems_cons.mpr ⟨blank_nil, blank_nil, renders.accepted, accepted⟩, ?_, ?_⟩
    · simp [Items.text, renders.text, text]
    · rw [Items.values, renders.value, values]

theorem members_tree {found : List (Bytes × Document)}
    (each : ∀ member ∈ found, ∃ tree, Renders meaning spell levels member.2 tree) :
    ∃ parts : Members, AcceptedMembers meaning levels parts ∧
      parts.text = (found.flatMap fun member => 44 :: renderMember spell member) ∧
      parts.values (num meaning) = found := by
  induction found with
  | nil => exact ⟨.nil, acceptedMembers_nil, rfl, rfl⟩
  | cons member found ih =>
    obtain ⟨key, value⟩ := member
    obtain ⟨⟨tree, renders⟩, others⟩ := List.forall_mem_cons.mp each
    obtain ⟨parts, accepted, text, values⟩ := ih others
    refine ⟨.cons [] (key.map pieceOf) [] [] tree [] parts, acceptedMembers_cons.mpr
      ⟨⟨blank_nil, pieceOf_read key, blank_nil⟩, ⟨blank_nil, blank_nil⟩, renders.accepted, accepted⟩, ?_, ?_⟩
    · simp [Members.text, stringText_pieceOf, renderMember, renders.text, text]
    · rw [Members.values, piecesValue_pieceOf, renders.value, values]

/-- By induction on the levels. -/
theorem render_tree {document : Document} (within : document.Within (Spelled meaning spell) levels) :
    ∃ tree, Renders meaning spell levels document tree := by
  induction levels generalizing document with
  | zero => exact within.elim
  | succ levels ih =>
    cases document with
    | null => exact ⟨.null, accepted_leafless rfl trivial rfl, rfl, rfl⟩
    | bool value => exact ⟨.bool value, accepted_leafless rfl trivial rfl, rfl, rfl⟩
    | string text =>
      refine ⟨.string (text.map pieceOf), accepted_string.mpr (pieceOf_read text), stringText_pieceOf text, ?_⟩
      rw [Tree.value, piecesValue_pieceOf]
    | number value =>
      obtain ⟨n, general, text, known⟩ := within
      refine ⟨.number n, accepted_number.mpr ⟨general, by rw [known]; rfl⟩, text, ?_⟩
      rw [Tree.value, num, known]
      rfl
    | array found =>
      obtain ⟨parts, accepted, text, values⟩ := items_tree fun item member => ih (within item member)
      refine ⟨.array [] parts, accepted_array.mpr ⟨blank_nil, accepted⟩, ?_, by rw [Tree.value, values]⟩
      rw [Tree.text, text, render, renderItems_eq]
      rfl
    | object found =>
      obtain ⟨distinct, each⟩ := within
      obtain ⟨parts, accepted, text, values⟩ := members_tree fun member listed => ih (each member listed)
      have keys : parts.keys.Nodup := by rwa [parts.keys_eq (num meaning), values]
      refine ⟨.object [] parts, accepted_object.mpr ⟨blank_nil, keys, accepted⟩, ?_, by rw [Tree.value, values]⟩
      rw [Tree.text, text, render, renderMembers_eq]
      rfl

theorem parse_render {decimals : Decimals} (numbers : NumbersComplete decimals meaning) {document : Document}
    (within : document.Within (Spelled meaning spell) (maxDepth + 1)) :
    parse decimals (render spell document) = .ok document := by
  obtain ⟨tree, accepted, text, value⟩ := render_tree within
  have read := parse_complete numbers blank_nil blank_nil accepted
  rwa [List.nil_append, List.append_nil, text, value] at read

end Trees

/-! ### The numbers of the writers -/

/-- What `number` makes of a numeral. -/
def reading (decimals : Decimals) (n : Numeral) : Option Number :=
  match number decimals n.text with
  | .ok (.number value, []) => some value
  | _ => none

theorem reading_eq {decimals : Decimals} {n : Numeral} {value : Number} :
    reading decimals n = some value ↔ number decimals n.text = .ok (.number value, []) := by
  unfold reading
  split
  next found known => simp [known]
  next other =>
    constructor
    · intro none
      cases none
    · intro known
      exact absurd known (other value)

theorem number_append {decimals : Decimals} {token rest : Bytes} (all : ∀ c ∈ token, isNumberChar c = true)
    (ends : Ends rest) : number decimals (token ++ rest) = (number decimals token).map fun found => (found.1, rest) := by
  obtain ⟨taken, dropped⟩ := span_number all ends
  obtain ⟨taken', dropped'⟩ := @span_number token [] all fun _ none => by cases none
  rw [List.append_nil] at taken' dropped'
  simp only [number, taken, dropped, taken', dropped']
  split
  · rfl
  split
  · rfl
  split <;> rfl

theorem reading_complete (decimals : Decimals) : NumbersComplete decimals (reading decimals) := by
  intro n value rest general known ends
  rw [number_append (numeral_chars general) ends, reading_eq.mp known]
  rfl

/-- The numeral that `std::to_string` writes. -/
def integerNumeral (value : Int) : Numeral := ⟨value < 0, decimal value.natAbs, none, none⟩

theorem integerNumeral_text (value : Int) : (integerNumeral value).text = decimalInt value := by
  cases value with
  | ofNat n => simp [integerNumeral, Numeral.text, Numeral.fractionText, Numeral.exponentText, decimalInt]
  | negSucc n =>
    simp only [integerNumeral, Numeral.text, Numeral.fractionText, Numeral.exponentText, decimalInt, Int.negSucc_lt_zero,
      decide_true, if_true, Int.natAbs_negSucc, Option.elim_none, List.append_nil]
    rfl

theorem integer_spelled (decimals : Decimals) {value : Int} (low : -2 ^ 63 ≤ value) (high : value < 2 ^ 63) :
    Spelled (reading decimals) (Number.spell decimals) (.integer value) := by
  obtain ⟨nonempty, digits, same⟩ := ofDecimal_eq.mp (ofDecimal_decimal value.natAbs)
  have general : (integerNumeral value).General := ⟨digits, by simp [integerNumeral], .inl nonempty, by simp [integerNumeral]⟩
  have whole : (integerNumeral value).wholeValue = value := by
    simp only [Numeral.wholeValue, integerNumeral, same, decide_eq_true_eq]
    split <;> omega
  have range : InRange (integerNumeral value) := ⟨⟨rfl, rfl⟩, by rw [whole]; exact ⟨low, high⟩⟩
  refine ⟨integerNumeral value, general, integerNumeral_text value, reading_eq.mpr ?_⟩
  have plain : ¬(integerNumeral value).text.any isFloating = true := fun floating => (any_isFloating general).mp floating range.1
  have found : integerFromChars (integerNumeral value).text = some value :=
    integerFromChars_eq.mpr ⟨_, general, rfl, range, whole⟩
  obtain ⟨taken, dropped⟩ := @span_number (integerNumeral value).text [] (numeral_chars general) fun _ none => by cases none
  rw [List.append_nil] at taken dropped
  simp only [number, taken, dropped, if_neg general.text_ne_nil, if_neg plain, found]

/-- `std::to_chars` writes the double in scientific notation with 16 digits behind the point, and
`std::from_chars` reads it back. -/
structure Inverts (decimals : Decimals) (value : ℚ) : Prop where
  scientific : ∃ n : Numeral, n.General ∧ (∃ digits ∈ n.fraction, digits.length = 16) ∧ n.exponent.isSome ∧
    n.text = decimals.toChars value
  back : decimals.fromChars (decimals.toChars value) = some value

theorem real_spelled {decimals : Decimals} {value : ℚ} (inverts : Inverts decimals value) :
    Spelled (reading decimals) (Number.spell decimals) (.real value) := by
  obtain ⟨⟨n, general, ⟨digits, pointed, _⟩, _, text⟩, back⟩ := inverts
  refine ⟨n, general, text, reading_eq.mpr ?_⟩
  have floating : n.text.any isFloating = true := (any_isFloating general).mpr fun whole => by
    rw [whole.1] at pointed
    cases pointed
  obtain ⟨taken, dropped⟩ := @span_number n.text [] (numeral_chars general) fun _ none => by cases none
  rw [List.append_nil] at taken dropped
  simp only [number, taken, dropped, if_neg general.text_ne_nil, if_pos floating]
  rw [text, back]

end Harbinger.Parser
