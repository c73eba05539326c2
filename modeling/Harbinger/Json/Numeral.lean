import Harbinger.Json.Value

/-! Decimal numerals: the numbers of the JSON grammar, and the wider form that the C++ library
reads, in which digits may be missing on one side of the point and zeros may lead. -/

namespace Json

def isDigit (c : UInt8) : Bool := 48 ≤ c && c ≤ 57

structure Exponent where
  letter : UInt8
  sign : Option UInt8
  digits : Text
  deriving DecidableEq

structure Numeral where
  negative : Bool
  whole : Text
  fraction : Option Text
  exponent : Option Exponent
  deriving DecidableEq

def digitsValue (text : Text) : Nat := text.foldl (fun total c => 10 * total + (c.toNat - 48)) 0

namespace Exponent

def text (e : Exponent) : Text := e.letter :: (e.sign.toList ++ e.digits)

structure Valid (e : Exponent) : Prop where
  letter : e.letter = 101 ∨ e.letter = 69
  sign : ∀ c ∈ e.sign, c = 43 ∨ c = 45
  nonempty : e.digits ≠ []
  digits : ∀ c ∈ e.digits, isDigit c = true

def value (e : Exponent) : Int := if e.sign = some 45 then -digitsValue e.digits else digitsValue e.digits

end Exponent

namespace Numeral

def fractionText (fraction : Option Text) : Text := fraction.elim [] (46 :: ·)

def exponentText (exponent : Option Exponent) : Text := exponent.elim [] Exponent.text

def text (n : Numeral) : Text :=
  (if n.negative then [45] else []) ++ (n.whole ++ (fractionText n.fraction ++ exponentText n.exponent))

/-- What `strtod` and `std::from_chars` read. -/
structure General (n : Numeral) : Prop where
  whole : ∀ c ∈ n.whole, isDigit c = true
  fraction : ∀ digits ∈ n.fraction, ∀ c ∈ digits, isDigit c = true
  some_digit : n.whole ≠ [] ∨ ∃ digits ∈ n.fraction, digits ≠ []
  exponent : ∀ e ∈ n.exponent, e.Valid

/-- What RFC 8259 calls a number. -/
structure Strict (n : Numeral) : Prop extends General n where
  nonempty : n.whole ≠ []
  no_zero : n.whole.head? = some 48 → n.whole = [48]
  fraction_nonempty : ∀ digits ∈ n.fraction, digits ≠ []

def value (n : Numeral) : ℚ :=
  (if n.negative then -1 else 1) * digitsValue (n.whole ++ n.fraction.getD []) *
    (10 : ℚ) ^ ((n.exponent.elim 0 Exponent.value : Int) - ((n.fraction.getD []).length : Int))

/-- Neither a point nor an exponent. -/
def Whole (n : Numeral) : Prop := n.fraction = none ∧ n.exponent = none

instance (n : Numeral) : Decidable n.Whole := inferInstanceAs (Decidable (_ ∧ _))

def wholeValue (n : Numeral) : Int := if n.negative then -digitsValue n.whole else digitsValue n.whole

/-- A numeral has digits, signs, a point and the letter of the exponent. -/
theorem General.forall_text {n : Numeral} (general : n.General) {P : UInt8 → Prop} (digit : ∀ c, isDigit c = true → P c)
    (minus : P 45) (plus : P 43) (point : P 46) (lower : P 101) (upper : P 69) : ∀ c ∈ n.text, P c := by
  obtain ⟨whole, fraction, _, exponent⟩ := general
  intro c member
  simp only [text, List.mem_append] at member
  rcases member with sign | inner | pointed | power
  · cases negative : n.negative with
    | true =>
      rw [negative] at sign
      obtain rfl := List.mem_singleton.mp sign
      exact minus
    | false =>
      rw [negative] at sign
      cases sign
  · exact digit c (whole c inner)
  · cases given : n.fraction with
    | none =>
      rw [given] at pointed
      cases pointed
    | some digits =>
      rw [given] at pointed
      rcases List.mem_cons.mp pointed with rfl | inner
      · exact point
      · exact digit c (fraction digits given c inner)
  · cases given : n.exponent with
    | none =>
      rw [given] at power
      cases power
    | some e =>
      obtain ⟨letter, signs, _, digits⟩ := exponent e given
      rw [given] at power
      rcases List.mem_cons.mp power with rfl | tail
      · rcases letter with letter | letter <;> rw [letter]
        · exact lower
        · exact upper
      · rcases List.mem_append.mp tail with sign | inner
        · rcases signs c (Option.mem_toList.mp sign) with rfl | rfl
          · exact plus
          · exact minus
        · exact digit c (digits c inner)

theorem General.text_ne_nil {n : Numeral} (general : n.General) : n.text ≠ [] := by
  intro empty
  simp only [text, List.append_eq_nil_iff] at empty
  obtain ⟨_, whole, fraction, _⟩ := empty
  rcases general.some_digit with nonempty | ⟨digits, pointed, _⟩
  · exact nonempty whole
  · rw [Option.mem_def.mp pointed] at fraction
    cases fraction

/-! ### Reading -/

def readSign : Text → Bool × Text
  | [] => (false, [])
  | c :: rest => if c = 45 then (true, rest) else (false, c :: rest)

def readFraction : Text → Option Text × Text
  | [] => (none, [])
  | c :: rest => if c = 46 then (some (rest.takeWhile isDigit), rest.dropWhile isDigit) else (none, c :: rest)

def readExponentSign : Text → Option UInt8 × Text
  | [] => (none, [])
  | c :: rest => if c = 43 ∨ c = 45 then (some c, rest) else (none, c :: rest)

/-- The exponent that is the whole text. -/
def readExponent : Text → Option (Option Exponent)
  | [] => some none
  | c :: rest =>
    let signed := readExponentSign rest
    if (c = 101 ∨ c = 69) ∧ signed.2 ≠ [] ∧ signed.2.all isDigit then some (some ⟨c, signed.1, signed.2⟩) else none

/-- The numeral that is the whole text. -/
def read (text : Text) : Option Numeral :=
  let signed := readSign text
  let pointed := readFraction (signed.2.dropWhile isDigit)
  let whole := signed.2.takeWhile isDigit
  if whole = [] ∧ pointed.1.getD [] = [] then none
  else (readExponent pointed.2).map fun exponent => ⟨signed.1, whole, pointed.1, exponent⟩

/-- The rest does not continue a run of digits. -/
def Stops (rest : Text) : Prop := ∀ c ∈ rest.head?, isDigit c = false

theorem span_digits {digits rest : Text} (all : ∀ c ∈ digits, isDigit c = true) (stops : Stops rest) :
    (digits ++ rest).takeWhile isDigit = digits ∧ (digits ++ rest).dropWhile isDigit = rest := by
  have front : rest.takeWhile isDigit = [] ∧ rest.dropWhile isDigit = rest := by
    cases rest with
    | nil => exact ⟨rfl, rfl⟩
    | cons c rest => simp [stops c rfl]
  rw [List.takeWhile_append_of_pos all, List.dropWhile_append_of_pos all, front.1, front.2, List.append_nil]
  exact ⟨rfl, rfl⟩

theorem stops_exponentText {exponent : Option Exponent} (valid : ∀ e ∈ exponent, e.Valid) : Stops (exponentText exponent) := by
  cases exponent with
  | none => exact fun c member => by cases member
  | some e =>
    intro c member
    obtain rfl := Option.some.inj member
    rcases (valid e rfl).letter with letter | letter <;> rw [letter] <;> rfl

theorem readExponent_text {exponent : Option Exponent} (valid : ∀ e ∈ exponent, e.Valid) :
    readExponent (exponentText exponent) = some exponent := by
  cases exponent with
  | none => rfl
  | some e =>
    obtain ⟨letter, signed, nonempty, digits⟩ := valid e rfl
    have sign : readExponentSign (e.sign.toList ++ e.digits) = (e.sign, e.digits) := by
      cases given : e.sign with
      | some c =>
        have known := signed c given
        simp [readExponentSign, known]
      | none =>
        cases run : e.digits with
        | nil => exact absurd run nonempty
        | cons c rest =>
          have digit := digits c (run ▸ List.mem_cons_self ..)
          have other : ¬(c = 43 ∨ c = 45) := by
            rintro (rfl | rfl) <;> exact absurd digit (by decide)
          simp [readExponentSign, other]
    have all : e.digits.all isDigit = true := List.all_eq_true.mpr digits
    simp only [exponentText, Option.elim_some, Exponent.text, readExponent, sign, letter, nonempty, all, ne_eq,
      not_false_eq_true, and_self, if_true]

theorem readFraction_text {fraction : Option Text} {rest : Text} (digits : ∀ text ∈ fraction, ∀ c ∈ text, isDigit c = true)
    (stops : Stops rest) (unpointed : rest.head? ≠ some 46) : readFraction (fractionText fraction ++ rest) = (fraction, rest) := by
  cases fraction with
  | none =>
    cases rest with
    | nil => rfl
    | cons c rest =>
      have other : c ≠ 46 := fun same => unpointed (congrArg some same)
      simp [fractionText, readFraction, other]
  | some text =>
    obtain ⟨taken, dropped⟩ := span_digits (digits text rfl) stops
    simp [fractionText, readFraction, taken, dropped]

/-- A numeral is read back. -/
theorem read_text {n : Numeral} (general : n.General) : read n.text = some n := by
  obtain ⟨whole, fraction, some_digit, exponent⟩ := general
  have tail : Stops (exponentText n.exponent) := stops_exponentText exponent
  have unpointed : (exponentText n.exponent).head? ≠ some 46 := by
    cases given : n.exponent with
    | none => simp [exponentText]
    | some e => rcases (exponent e given).letter with letter | letter <;> simp [exponentText, Exponent.text, letter]
  have middle : Stops (fractionText n.fraction ++ exponentText n.exponent) := by
    cases n.fraction with
    | none => exact tail
    | some digits =>
      intro c member
      obtain rfl := Option.some.inj member
      rfl
  have sign : readSign n.text = (n.negative, n.whole ++ (fractionText n.fraction ++ exponentText n.exponent)) := by
    rw [text]
    cases negative : n.negative with
    | true => rfl
    | false =>
      have first : ∀ c ∈ (n.whole ++ (fractionText n.fraction ++ exponentText n.exponent)).head?, c ≠ 45 := by
        rintro c member rfl
        cases given : n.whole with
        | cons d rest =>
          rw [given] at member
          obtain rfl := Option.some.inj member
          exact absurd (whole 45 (given ▸ List.mem_cons_self ..)) (by decide)
        | nil =>
          rcases some_digit with nonempty | ⟨digits, pointed, _⟩
          · exact nonempty given
          · rw [given, Option.mem_def.mp pointed] at member
            cases member
      cases body : n.whole ++ (fractionText n.fraction ++ exponentText n.exponent) with
      | nil => rfl
      | cons c rest =>
        have other : c ≠ 45 := first c (by rw [body]; rfl)
        simp [readSign, other]
  obtain ⟨taken, dropped⟩ := span_digits whole middle
  have digit : ¬(n.whole = [] ∧ n.fraction.getD [] = []) := by
    rintro ⟨none_whole, none_fraction⟩
    rcases some_digit with nonempty | ⟨digits, pointed, nonempty⟩
    · exact nonempty none_whole
    · rw [Option.mem_def.mp pointed] at none_fraction
      exact nonempty none_fraction
  simp only [read, sign, taken, dropped, readFraction_text fraction tail unpointed, if_neg digit, readExponent_text exponent,
    Option.map_some]

theorem text_injective {n m : Numeral} (general : n.General) (general' : m.General) (same : n.text = m.text) : n = m :=
  Option.some.inj (by rw [← read_text general, same, read_text general'])

theorem takeWhile_all (text : Text) : ∀ c ∈ text.takeWhile isDigit, isDigit c = true := fun _ member =>
  List.mem_takeWhile_imp member

theorem readSign_text (given : Text) : (if (readSign given).1 then [45] else []) ++ (readSign given).2 = given := by
  cases given with
  | nil => rfl
  | cons c rest =>
    by_cases minus : c = 45 <;> simp [readSign, minus]

theorem readFraction_eq (given : Text) : fractionText (readFraction given).1 ++ (readFraction given).2 = given ∧
    ∀ digits ∈ (readFraction given).1, ∀ c ∈ digits, isDigit c = true := by
  cases given with
  | nil => exact ⟨rfl, fun _ none => by cases none⟩
  | cons c rest =>
    by_cases point : c = 46
    · have cut : readFraction (c :: rest) = (some (rest.takeWhile isDigit), rest.dropWhile isDigit) := if_pos point
      rw [cut]
      refine ⟨?_, fun digits member => ?_⟩
      · rw [point, fractionText, Option.elim_some, List.cons_append, List.takeWhile_append_dropWhile]
      · obtain rfl := Option.some.inj member
        exact takeWhile_all rest
    · have kept : readFraction (c :: rest) = (none, c :: rest) := if_neg point
      rw [kept]
      exact ⟨rfl, fun _ none => by cases none⟩

theorem readExponentSign_text (given : Text) : (readExponentSign given).1.toList ++ (readExponentSign given).2 = given ∧
    ∀ c ∈ (readExponentSign given).1, c = 43 ∨ c = 45 := by
  cases given with
  | nil => exact ⟨rfl, fun _ none => by cases none⟩
  | cons c rest =>
    by_cases known : c = 43 ∨ c = 45
    · have cut : readExponentSign (c :: rest) = (some c, rest) := if_pos known
      rw [cut]
      refine ⟨rfl, fun other member => ?_⟩
      obtain rfl := Option.some.inj member
      exact known
    · have kept : readExponentSign (c :: rest) = (none, c :: rest) := if_neg known
      rw [kept]
      exact ⟨rfl, fun _ none => by cases none⟩

theorem readExponent_eq {given : Text} {exponent : Option Exponent} (known : readExponent given = some exponent) :
    exponentText exponent = given ∧ ∀ e ∈ exponent, e.Valid := by
  cases given with
  | nil =>
    obtain rfl := Option.some.inj known
    exact ⟨rfl, fun _ none => by cases none⟩
  | cons c rest =>
    obtain ⟨⟨letter, nonempty, digits⟩, same⟩ := Option.ite_none_right_eq_some.mp known
    obtain rfl := Option.some.inj same
    obtain ⟨signed, sign⟩ := readExponentSign_text rest
    refine ⟨?_, fun e member => ?_⟩
    · rw [exponentText, Option.elim_some, Exponent.text, signed]
    · obtain rfl := Option.some.inj member
      exact ⟨letter, sign, nonempty, List.all_eq_true.mp digits⟩

/-- What is read is the text of a numeral. -/
theorem read_eq_some {given : Text} {n : Numeral} (known : read given = some n) : n.text = given ∧ n.General := by
  unfold read at known
  dsimp only at known
  split at known
  · cases known
  next digit =>
    obtain ⟨exponent, rest, rfl⟩ := Option.map_eq_some_iff.mp known
    obtain ⟨tail, valid⟩ := readExponent_eq rest
    obtain ⟨middle, fraction⟩ := readFraction_eq ((readSign given).2.dropWhile isDigit)
    refine ⟨?_, takeWhile_all _, fraction, ?_, valid⟩
    · calc text _ = (if (readSign given).1 then [45] else []) ++ ((readSign given).2.takeWhile isDigit ++
          (fractionText (readFraction ((readSign given).2.dropWhile isDigit)).1 ++ exponentText exponent)) := rfl
        _ = (if (readSign given).1 then [45] else []) ++ (readSign given).2 := by
          rw [tail, middle, List.takeWhile_append_dropWhile]
        _ = given := readSign_text given
    · by_contra none_found
      obtain ⟨no_whole, no_fraction⟩ := not_or.mp none_found
      refine digit ⟨not_not.mp no_whole, ?_⟩
      cases pointed : (readFraction ((readSign given).2.dropWhile isDigit)).1 with
      | none => rfl
      | some digits =>
        by_contra nonempty
        exact no_fraction ⟨digits, pointed, nonempty⟩

end Numeral

end Json
