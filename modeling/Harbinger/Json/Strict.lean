import Harbinger.Json.Completeness
import Harbinger.Json.Lexer

/-! The strict reader against RFC 8259. It reads every document within its restrictions. It also reads
numbers with leading zeros or with no digit on one side of the point, and strings that are not UTF-8;
on a text without these it accepts documents only. -/

namespace Harbinger.Parser
open Json Ml

/-- The bytes of some Unicode characters. -/
def Utf8 (text : Bytes) : Prop := ∃ characters : List Char, characters.flatMap String.utf8EncodeChar = text

/-- The text is one of the grammar, within the documented restrictions: no duplicate keys, no escapes of
surrogates, bounded nesting, and numbers that a double holds. -/
structure IsDocument (round : ℚ → Option ℚ) (text : Bytes) (tree : Tree) : Prop where
  encoded : Utf8 text
  around : ∃ before after, Blank before ∧ Blank after ∧ text = before ++ (tree.text ++ after)
  grammatical : tree.Grammatical
  distinct : tree.Distinct
  unpaired : tree.Unpaired
  depth : tree.depth ≤ maxDepth
  finite : ∀ n, Leaf.number n ∈ tree.leaves → (numberOf round n).isSome

/-- No number outside of strings has a leading zero, or a point without digits on both sides. -/
def PlainNumbers (text : Bytes) : Prop := ∀ n : Numeral, n.General → IsWord text n.text → n.Strict

theorem IsDocument.accepted {round : ℚ → Option ℚ} {text : Bytes} {tree : Tree} (document : IsDocument round text tree) :
    Accepted (numberOf round) (maxDepth + 1) tree := by
  refine ⟨fun leaf member => ⟨?_, document.unpaired leaf member⟩, document.distinct, Nat.lt_succ_of_le document.depth⟩
  have formed := document.grammatical leaf member
  cases leaf with
  | blank text => exact formed
  | string pieces => exact formed
  | number n => exact ⟨formed.toGeneral, document.finite n member⟩

theorem Accepted.isDocument {round : ℚ → Option ℚ} {tree : Tree} (accepted : Accepted (numberOf round) (maxDepth + 1) tree)
    {before after : Bytes} (front : Blank before) (back : Blank after) (encoded : Utf8 (before ++ (tree.text ++ after)))
    (plain : PlainNumbers (before ++ (tree.text ++ after))) : IsDocument round (before ++ (tree.text ++ after)) tree := by
  have general : ∀ leaf ∈ tree.leaves, leaf.Formed Numeral.General := by
    intro leaf member
    have formed := (accepted.leaves leaf member).1
    cases leaf with
    | blank text => exact formed
    | string pieces => exact formed
    | number n => exact formed.1
  refine ⟨encoded, ⟨before, after, front, back, rfl⟩, fun leaf member => ?_, accepted.distinct,
    fun leaf member => (accepted.leaves leaf member).2, Nat.le_of_lt_succ accepted.depth,
    fun n member => (accepted.leaves _ member).1.2⟩
  have formed := general leaf member
  cases leaf with
  | blank text => exact formed
  | string pieces => exact formed
  | number n => exact plain n formed (Tree.number_isWord general front back member)

/-- A reader that does not round. -/
def exactDecimals : Decimals := ⟨fun text => (Numeral.read text).map Numeral.value, fun _ => []⟩

theorem exactDecimals_standard : Standard exactDecimals some := by
  refine ⟨fun n general => ?_, fun text value known => ?_⟩
  · change (Numeral.read n.text).map Numeral.value = some n.value
    rw [Numeral.read_text general, Option.map_some]
  · obtain ⟨n, found, _⟩ := Option.map_eq_some_iff.mp known
    obtain ⟨same, general⟩ := Numeral.read_eq_some found
    exact ⟨n, general, same⟩

theorem blank_eq_nil {before rest : Bytes} {P : UInt8 → Prop} (blank : Blank before) (all : ∀ c ∈ before, P c)
    (solid : ∀ c, P c → isBlank c = false) : before ++ rest = rest := by
  cases before with
  | nil => rfl
  | cons c before =>
    have first : isBlank c = true := blank c (List.mem_cons_self ..)
    rw [solid c (all c (List.mem_cons_self ..))] at first
    cases first

/-- A document that is a single number is one of the grammar. -/
theorem IsDocument.strict {round : ℚ → Option ℚ} {n : Numeral} {tree : Tree} (general : n.General)
    (document : IsDocument round n.text tree) : n.Strict := by
  obtain ⟨before, after, front, back, split⟩ := document.around
  have numeric := numeral_chars general
  have solid : ∀ c : UInt8, isNumberChar c = true → isBlank c = false ∧ c ≠ 91 ∧ c ≠ 123 ∧ c ≠ 34 ∧ c ≠ 116 ∧ c ≠ 102 ∧
    c ≠ 110 := by decide +kernel
  rw [split] at numeric
  simp only [List.forall_mem_append] at numeric
  obtain ⟨left, inner, right⟩ := numeric
  have open_front := @blank_eq_nil before (tree.text ++ after) _ front left fun c known => (solid c known).1
  have open_back := @blank_eq_nil after [] _ back right fun c known => (solid c known).1
  rw [List.append_nil] at open_back
  rw [open_front, open_back, List.append_nil] at split
  cases tree with
  | number m =>
    have strict : m.Strict := document.grammatical _ (List.mem_singleton.mpr rfl)
    obtain rfl := Numeral.text_injective general strict.toGeneral split
    exact strict
  | null => exact absurd (inner 110 (List.mem_cons_self ..)) (by decide)
  | bool value =>
    cases value with
    | true => exact absurd (inner 116 (List.mem_cons_self ..)) (by decide)
    | false => exact absurd (inner 102 (List.mem_cons_self ..)) (by decide)
  | string pieces => exact absurd (inner 34 (List.mem_cons_self ..)) (by decide)
  | array blank items => exact absurd (inner 91 (List.mem_cons_self ..)) (by decide)
  | object blank members => exact absurd (inner 123 (List.mem_cons_self ..)) (by decide)

theorem utf8EncodeChar_ne (c : Char) : ∀ byte ∈ String.utf8EncodeChar c, byte ≠ 255 := by
  have small : ∀ n : Nat, n < 255 → UInt8.ofNat n ≠ 255 := by
    intro n below same
    have values := congrArg UInt8.toNat same
    rw [UInt8.toNat_ofNat', Nat.mod_eq_of_lt (by omega)] at values
    change n = 255 at values
    omega
  intro byte member
  unfold String.utf8EncodeChar at member
  dsimp only at member
  split_ifs at member <;> simp only [List.mem_cons, List.not_mem_nil, or_false] at member
  · subst member
    exact small _ (by omega)
  · rcases member with rfl | rfl <;> exact small _ (by omega)
  · rcases member with rfl | rfl | rfl <;> exact small _ (by omega)
  · rcases member with rfl | rfl | rfl | rfl <;> exact small _ (by omega)

theorem not_utf8 {text : Bytes} (invalid : 255 ∈ text) : ¬Utf8 text := by
  rintro ⟨characters, rfl⟩
  obtain ⟨c, _, member⟩ := List.mem_flatMap.mp invalid
  exact utf8EncodeChar_ne c 255 member rfl

end Harbinger.Parser
