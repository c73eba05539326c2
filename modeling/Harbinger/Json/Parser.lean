import Harbinger.Json.Grammar
import Harbinger.Ml.Features

/-! `harbinger::json::Parser`, the strict reader of the config loader and the offline tools. A position
is the text from there on, and a function returns its result and the text behind it. The members of an object are in the order of the text; the
`std::map` of the source is only asked for them by their keys. -/

namespace Harbinger.Parser
open Ml

def fail {α : Type} (why : String) : Except String α := .error ("invalid JSON: " ++ why)

def skip (text : Bytes) : Bytes := text.dropWhile Json.isBlank

/-- The next character that is not blank, and the text from there on. -/
def peek (text : Bytes) : Except String (UInt8 × Bytes) :=
  match skip text with
  | [] => fail "unexpected end"
  | c :: rest => .ok (c, c :: rest)

def expect (c : UInt8) (text : Bytes) : Except String Bytes := do
  let (found, here) ← peek text
  if found = c then .ok (here.drop 1) else fail "unexpected token"

def literal (word : Bytes) (value : Document) (text : Bytes) : Except String (Document × Bytes) :=
  if word <+: text then .ok (value, text.drop word.length) else fail "bad literal"

def isSurrogate (code : Nat) : Bool := 0xd800 ≤ code && code ≤ 0xdfff

/-- The loop of `str`. -/
def strLoop : Bytes → Except String (Bytes × Bytes)
  | [] => fail "unterminated string"
  | c :: rest =>
    if c = 34 then .ok ([], rest)
    else if c < 32 then fail "control character in string"
    else if c ≠ 92 then (strLoop rest).map fun (out, after) => (c :: out, after)
    else match rest with
      | [] => fail "unterminated string"
      | e :: rest =>
        if e = 117 then
          match rest with
          | first :: second :: third :: fourth :: rest =>
            match Json.codeOf first second third fourth with
            | none => fail "bad unicode escape"
            | some code =>
              if isSurrogate code then fail "surrogate escapes unsupported"
              else (strLoop rest).map fun (out, after) => (Json.utf8 code ++ out, after)
          | _ => fail "short unicode escape"
        else match Json.simpleEscape e with
          | none => fail "bad escape"
          | some escaped => (strLoop rest).map fun (out, after) => (escaped :: out, after)

def str (text : Bytes) : Except String (Bytes × Bytes) := do
  let rest ← expect 34 text
  strLoop rest

def isNumberChar (c : UInt8) : Bool :=
  Json.isDigit c || c == 46 || c == 101 || c == 69 || c == 43 || c == 45

def isFloating (c : UInt8) : Bool := c == 46 || c == 101 || c == 69

/-- `std::from_chars` of a whole text as a signed 64-bit number. -/
def integerFromChars (text : Bytes) : Option Int :=
  let value : Option Int := match text with
    | [] => none
    | c :: rest => if c = 45 then (ofDecimal rest).map fun n : Nat => -(n : Int) else (ofDecimal (c :: rest)).map fun n : Nat => (n : Int)
  value.filter fun value => -2 ^ 63 ≤ value ∧ value < 2 ^ 63

def number (decimals : Decimals) (text : Bytes) : Except String (Document × Bytes) :=
  let token := text.takeWhile isNumberChar
  let rest := text.dropWhile isNumberChar
  if token = [] then fail "expected value"
  else match (if token.any isFloating then none else integerFromChars token) with
    | some value => .ok (.number (.integer value), rest)
    | none =>
      match decimals.fromChars token with
      | none => fail "bad number"
      | some value => .ok (.number (.real value), rest)

section Containers
variable (value : Bytes → Except String (Document × Bytes))

/-- The loop of `array`; every round reads a character, so the fuel is never used up. -/
def items : Nat → Bytes → Except String (List Document × Bytes)
  | 0, _ => fail "unexpected end"
  | fuel + 1, text => do
    let (item, rest) ← value text
    let (c, here) ← peek rest
    if c = 44 then do
      let (others, rest) ← items fuel (here.drop 1)
      return (item :: others, rest)
    else do
      let rest ← expect 93 here
      return ([item], rest)

def array (text : Bytes) : Except String (Document × Bytes) := do
  let rest ← expect 91 text
  let (c, here) ← peek rest
  if c = 93 then return (.array [], here.drop 1)
  else do
    let (found, rest) ← items value here.length here
    return (.array found, rest)

/-- The loop of `object`, with the members so far. -/
def members : Nat → List (Bytes × Document) → Bytes → Except String (List (Bytes × Document) × Bytes)
  | 0, _, _ => fail "unexpected end"
  | fuel + 1, out, text => do
    let (key, rest) ← str text
    let rest ← expect 58 rest
    let (item, rest) ← value rest
    if (out.lookup key).isSome then fail "duplicate key"
    else do
      let (c, here) ← peek rest
      if c = 44 then members fuel (out ++ [(key, item)]) (here.drop 1)
      else do
        let rest ← expect 125 here
        return (out ++ [(key, item)], rest)

def object (text : Bytes) : Except String (Document × Bytes) := do
  let rest ← expect 123 text
  let (c, here) ← peek rest
  if c = 125 then return (.object [], here.drop 1)
  else do
    let (found, rest) ← members value here.length [] here
    return (.object found, rest)

end Containers

def maxDepth : Nat := 32

/-- `value` at a depth that leaves the given number of levels. -/
def value (decimals : Decimals) : Nat → Bytes → Except String (Document × Bytes)
  | 0, _ => fail "nesting too deep"
  | levels + 1, text => do
    let (c, here) ← peek text
    if c = 123 then object (value decimals levels) here
    else if c = 91 then array (value decimals levels) here
    else if c = 34 then (str here).map fun (text, rest) => (.string text, rest)
    else if c = 116 then literal (ascii "true") (.bool true) here
    else if c = 102 then literal (ascii "false") (.bool false) here
    else if c = 110 then literal (ascii "null") .null here
    else number decimals here

def parse (decimals : Decimals) (text : Bytes) : Except String Document := do
  let (out, rest) ← value decimals (maxDepth + 1) text
  if skip rest ≠ [] then fail "trailing characters" else return out

/-! ### Soundness of the parts -/

section Parts
open Json

theorem skip_split (text : Bytes) : ∃ before, Blank before ∧ text = before ++ skip text := by
  refine ⟨text.takeWhile isBlank, fun c member => List.mem_takeWhile_imp member, ?_⟩
  exact (List.takeWhile_append_dropWhile ..).symm

theorem peek_ok {text here : Bytes} {c : UInt8} (found : peek text = .ok (c, here)) :
    ∃ before rest, Blank before ∧ here = c :: rest ∧ text = before ++ c :: rest := by
  obtain ⟨before, blank, split⟩ := skip_split text
  unfold peek at found
  cases remaining : skip text with
  | nil =>
    rw [remaining] at found
    cases found
  | cons d rest =>
    rw [remaining] at found split
    cases found
    exact ⟨before, rest, blank, rfl, split⟩

theorem expect_ok {text rest : Bytes} {c : UInt8} (found : expect c text = .ok rest) :
    ∃ before, Blank before ∧ text = before ++ c :: rest := by
  simp only [expect, bind_ok] at found
  obtain ⟨⟨d, here⟩, seen, same⟩ := found
  obtain ⟨before, behind, blank, rfl, split⟩ := peek_ok seen
  dsimp only at same
  split at same
  next equal =>
    obtain rfl := Except.ok.inj same
    exact ⟨before, blank, equal ▸ split⟩
  · cases same

theorem map_ok {ε α β : Type} {f : α → β} {result : Except ε α} {value : β} :
    result.map f = .ok value ↔ ∃ given, result = .ok given ∧ f given = value := by
  cases result <;> simp [Except.map]

theorem surrogate_iff {a b c d : UInt8} {code : Nat} (known : codeOf a b c d = some code) :
    (Piece.code a b c d).Surrogate ↔ isSurrogate code = true := by
  simp [Piece.Surrogate, known, isSurrogate]

/-- The text begins with the pieces of a string with this value and a quote. -/
def Strung (text out rest : Bytes) : Prop :=
  ∃ pieces : List Piece, (∀ piece ∈ pieces, piece.Valid ∧ ¬piece.Surrogate) ∧ piecesValue pieces = out ∧
    text = piecesText pieces ++ 34 :: rest

theorem Strung.cons {tail out rest : Bytes} (strung : Strung tail out rest) {piece : Piece} (valid : piece.Valid)
    (single : ¬piece.Surrogate) : Strung (piece.text ++ tail) (piece.value ++ out) rest := by
  obtain ⟨pieces, all, rfl, rfl⟩ := strung
  refine ⟨piece :: pieces, List.forall_mem_cons.mpr ⟨⟨valid, single⟩, all⟩, rfl, ?_⟩
  rw [← List.append_assoc]
  rfl

theorem strLoop_sound {text out rest : Bytes} (read : strLoop text = .ok (out, rest)) : Strung text out rest := by
  fun_induction strLoop text generalizing out with
  | case2 tail =>
    cases read
    exact ⟨[], by simp, rfl, rfl⟩
  | case4 c tail quote control backslash ih =>
    obtain ⟨⟨out', after⟩, found, same⟩ := map_ok.mp read
    cases same
    have valid : (Piece.plain c).Valid := ⟨UInt8.not_lt.mp control, quote, backslash⟩
    exact (ih found).cons valid id
  | case8 c quote control backslash first second third fourth tail code known single ih =>
    obtain ⟨⟨out', after⟩, found, same⟩ := map_ok.mp read
    cases same
    obtain rfl := not_not.mp backslash
    have valid : (Piece.code first second third fourth).Valid := by simp [Piece.Valid, known]
    have strung := (ih found).cons valid (mt (surrogate_iff known).mp single)
    rwa [show (Piece.code first second third fourth).value = utf8 code by simp [Piece.value, known]] at strung
  | case11 c quote control backslash e tail other escaped known ih =>
    obtain ⟨⟨out', after⟩, found, same⟩ := map_ok.mp read
    cases same
    obtain rfl := not_not.mp backslash
    have valid : (Piece.escape e).Valid := by simp [Piece.Valid, known]
    have strung := (ih found).cons valid id
    rwa [show (Piece.escape e).value = [escaped] by simp [Piece.value, known]] at strung
  | _ => cases read

theorem str_sound {text out rest : Bytes} (read : str text = .ok (out, rest)) :
    ∃ before, Blank before ∧ ∃ pieces : List Piece, (∀ piece ∈ pieces, piece.Valid ∧ ¬piece.Surrogate) ∧
      piecesValue pieces = out ∧ text = before ++ (stringText pieces ++ rest) := by
  simp only [str, bind_ok] at read
  obtain ⟨tail, quote, found⟩ := read
  obtain ⟨before, blank, rfl⟩ := expect_ok quote
  obtain ⟨pieces, all, same, rfl⟩ := strLoop_sound found
  exact ⟨before, blank, pieces, all, same, by simp [stringText]⟩

end Parts

/-! ### Numbers -/

section Numbers
open Json

/-- `std::from_chars` reads the numerals, rounding their values to doubles; `none` is a range error. -/
structure Standard (decimals : Decimals) (round : ℚ → Option ℚ) : Prop where
  reads : ∀ n : Numeral, n.General → decimals.fromChars n.text = round n.value
  only : ∀ text value, decimals.fromChars text = some value → ∃ n : Numeral, n.General ∧ n.text = text

def InRange (n : Numeral) : Prop := n.Whole ∧ -2 ^ 63 ≤ n.wholeValue ∧ n.wholeValue < 2 ^ 63

instance (n : Numeral) : Decidable (InRange n) := inferInstanceAs (Decidable (_ ∧ _))

/-- The number of a numeral: a 64-bit integer if it is one, and else a double. -/
def numberOf (round : ℚ → Option ℚ) (n : Numeral) : Option Number :=
  if InRange n then some (.integer n.wholeValue) else (round n.value).map .real

theorem isNumberChar_of_isDigit {c : UInt8} (digit : isDigit c = true) : isNumberChar c = true := by
  simp [isNumberChar, digit]

theorem not_isFloating_of_isDigit {c : UInt8} (digit : isDigit c = true) : isFloating c = false := by
  unfold isFloating
  simp only [isDigit, Bool.and_eq_true, decide_eq_true_eq] at digit
  have low := UInt8.le_iff_toNat_le.mp digit.1
  have high := UInt8.le_iff_toNat_le.mp digit.2
  simp only [Bool.or_eq_false_iff, beq_eq_false_iff_ne, ne_eq, ← UInt8.toNat_inj]
  simp only [UInt8.toNat_ofNat, Nat.reducePow, Nat.reduceMod] at low high ⊢
  omega

theorem numeral_chars {n : Numeral} (general : n.General) : ∀ c ∈ n.text, isNumberChar c = true :=
  general.forall_text (fun _ => isNumberChar_of_isDigit) rfl rfl rfl rfl rfl

theorem whole_text {n : Numeral} (whole : n.Whole) : n.text = (if n.negative then [45] else []) ++ n.whole := by
  rw [Numeral.text, whole.1, whole.2]
  simp [Numeral.fractionText, Numeral.exponentText]

theorem any_isFloating {n : Numeral} (general : n.General) : n.text.any isFloating = true ↔ ¬n.Whole := by
  rw [List.any_eq_true]
  constructor
  · rintro ⟨c, member, floating⟩ whole
    rw [whole_text whole] at member
    rcases List.mem_append.mp member with sign | digit
    · cases negative : n.negative with
      | true =>
        rw [negative] at sign
        obtain rfl := List.mem_singleton.mp sign
        cases floating
      | false =>
        rw [negative] at sign
        cases sign
    · rw [not_isFloating_of_isDigit (general.whole c digit)] at floating
      cases floating
  · intro pointed
    cases fraction : n.fraction with
    | some digits =>
      refine ⟨46, ?_, rfl⟩
      simp [Numeral.text, Numeral.fractionText, fraction]
    | none =>
      cases exponent : n.exponent with
      | none => exact absurd ⟨fraction, exponent⟩ pointed
      | some e =>
        refine ⟨e.letter, ?_, ?_⟩
        · simp [Numeral.text, Numeral.exponentText, Exponent.text, exponent]
        · rcases (general.exponent e exponent).letter with letter | letter <;> rw [letter] <;> rfl

theorem ofDecimal_eq {text : Bytes} {value : Nat} : ofDecimal text = some value ↔
    text ≠ [] ∧ (∀ c ∈ text, isDigit c = true) ∧ digitsValue text = value := by
  have digits : (∀ c ∈ text, 48 ≤ c ∧ c ≤ 57) ↔ ∀ c ∈ text, isDigit c = true := by simp [isDigit]
  rw [ofDecimal, Option.ite_none_right_eq_some, digits, Option.some.injEq, and_assoc]
  rfl

/-- What the integer conversion reads. -/
theorem integerFromChars_eq {token : Bytes} {value : Int} : integerFromChars token = some value ↔
    ∃ n : Numeral, n.General ∧ n.text = token ∧ InRange n ∧ n.wholeValue = value := by
  have built : ∀ negative digits, digits ≠ [] → (∀ c ∈ digits, isDigit c = true) →
      Numeral.General ⟨negative, digits, none, none⟩ := fun negative digits nonempty all =>
    ⟨all, by simp, .inl nonempty, by simp⟩
  unfold integerFromChars
  rw [Option.filter_eq_some_iff, decide_eq_true_eq]
  constructor
  · rintro ⟨found, range⟩
    cases token with
    | nil => cases found
    | cons c rest =>
      dsimp only at found
      split at found
      next minus =>
        obtain ⟨count, known, rfl⟩ := Option.map_eq_some_iff.mp found
        obtain ⟨nonempty, all, same⟩ := ofDecimal_eq.mp known
        refine ⟨⟨true, rest, none, none⟩, built _ _ nonempty all, by simp [Numeral.text, Numeral.fractionText,
          Numeral.exponentText, minus], ⟨⟨rfl, rfl⟩, ?_⟩, ?_⟩ <;> simp only [Numeral.wholeValue, same, if_true]
        exact range
      next other =>
        obtain ⟨count, known, rfl⟩ := Option.map_eq_some_iff.mp found
        obtain ⟨nonempty, all, same⟩ := ofDecimal_eq.mp known
        refine ⟨⟨false, c :: rest, none, none⟩, built _ _ nonempty all, by simp [Numeral.text, Numeral.fractionText,
          Numeral.exponentText], ⟨⟨rfl, rfl⟩, ?_⟩, ?_⟩ <;>
          simp only [Numeral.wholeValue, same, Bool.false_eq_true, if_false]
        exact range
  · rintro ⟨n, general, rfl, ⟨whole, range⟩, rfl⟩
    refine ⟨?_, range⟩
    have nonempty : n.whole ≠ [] := by
      refine general.some_digit.resolve_right ?_
      rintro ⟨_, pointed, _⟩
      rw [whole.1] at pointed
      cases pointed
    have known : ofDecimal n.whole = some (digitsValue n.whole) := ofDecimal_eq.mpr ⟨nonempty, general.whole, rfl⟩
    rw [whole_text whole]
    cases negative : n.negative with
    | true => simp [Numeral.wholeValue, negative, known]
    | false =>
      cases run : n.whole with
      | nil => exact absurd run nonempty
      | cons c rest =>
        have other : c ≠ 45 := by
          rintro rfl
          exact absurd (general.whole 45 (run ▸ List.mem_cons_self ..)) (by decide)
        rw [run] at known
        simp [Numeral.wholeValue, negative, run, other, known]

/-- The text does not go on with a character of a number. -/
def Ends (rest : Bytes) : Prop := ∀ c ∈ rest.head?, isNumberChar c = false

theorem span_number {token rest : Bytes} (all : ∀ c ∈ token, isNumberChar c = true) (ends : Ends rest) :
    (token ++ rest).takeWhile isNumberChar = token ∧ (token ++ rest).dropWhile isNumberChar = rest := by
  have front : rest.takeWhile isNumberChar = [] ∧ rest.dropWhile isNumberChar = rest := by
    cases rest with
    | nil => exact ⟨rfl, rfl⟩
    | cons c rest => simp [ends c rfl]
  rw [List.takeWhile_append_of_pos all, List.dropWhile_append_of_pos all, front.1, front.2, List.append_nil]
  exact ⟨rfl, rfl⟩

/-- Whatever `number` reads is a numeral, and its number is the meaning of the numeral. -/
def NumbersSound (decimals : Decimals) (meaning : Numeral → Option Number) : Prop :=
  ∀ text rest document, number decimals text = .ok (document, rest) →
    ∃ (n : Numeral) (value : Number), n.General ∧ meaning n = some value ∧ document = .number value ∧ text = n.text ++ rest

/-- Every numeral with a meaning is read. -/
def NumbersComplete (decimals : Decimals) (meaning : Numeral → Option Number) : Prop :=
  ∀ (n : Numeral) (value : Number) (rest : Bytes), n.General → meaning n = some value → Ends rest →
    number decimals (n.text ++ rest) = .ok (.number value, rest)

section Standard
variable {decimals : Decimals} {round : ℚ → Option ℚ} (standard : Standard decimals round)
include standard

theorem number_sound : NumbersSound decimals (numberOf round) := by
  intro text rest document read
  have whole : text = text.takeWhile isNumberChar ++ text.dropWhile isNumberChar :=
    (List.takeWhile_append_dropWhile ..).symm
  unfold number at read
  generalize text.takeWhile isNumberChar = token at *
  generalize text.dropWhile isNumberChar = behind at *
  dsimp only at read
  split at read
  · cases read
  · split at read
    next value converted =>
      cases read
      obtain ⟨_, found⟩ := Option.ite_none_left_eq_some.mp converted
      obtain ⟨n, general, rfl, range, rfl⟩ := integerFromChars_eq.mp found
      exact ⟨n, .integer n.wholeValue, general, if_pos range, rfl, whole⟩
    next unconverted =>
      split at read
      · cases read
      next value converted =>
        cases read
        obtain ⟨n, general, rfl⟩ := standard.only token value converted
        have rounded : round n.value = some value := (standard.reads n general).symm.trans converted
        have beyond : ¬InRange n := by
          intro range
          have plain : ¬n.text.any isFloating = true := fun floating => (any_isFloating general).mp floating range.1
          rw [if_neg plain, integerFromChars_eq.mpr ⟨n, general, rfl, range, rfl⟩] at unconverted
          cases unconverted
        exact ⟨n, .real value, general, by rw [numberOf, if_neg beyond, rounded]; rfl, rfl, whole⟩

theorem number_complete : NumbersComplete decimals (numberOf round) := by
  intro n value rest general known ends
  obtain ⟨taken, dropped⟩ := span_number (numeral_chars general) ends
  simp only [number, taken, dropped, if_neg (general.text_ne_nil)]
  by_cases range : InRange n
  · rw [numberOf, if_pos range] at known
    obtain rfl := Option.some.inj known
    have plain : ¬n.text.any isFloating = true := fun floating => (any_isFloating general).mp floating range.1
    rw [if_neg plain, integerFromChars_eq.mpr ⟨n, general, rfl, range, rfl⟩]
  · rw [numberOf, if_neg range] at known
    obtain ⟨rounded, found, rfl⟩ := Option.map_eq_some_iff.mp known
    have unconverted : (if n.text.any isFloating = true then none else integerFromChars n.text) = none := by
      split
      · rfl
      · refine Option.eq_none_iff_forall_ne_some.mpr fun value converted => range ?_
        obtain ⟨m, general', same, inside, _⟩ := integerFromChars_eq.mp converted
        exact Numeral.text_injective general' general same ▸ inside
    rw [unconverted]
    dsimp only
    rw [standard.reads n general, found]

end Standard

end Numbers

end Harbinger.Parser
