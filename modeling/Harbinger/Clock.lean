import Mathlib

/-! Byte strings and steady-clock arithmetic shared by the queue, the broker and
the predictor. A `std::string` is its list of bytes; a time point is a number of
nanoseconds, with the limits of the signed 64-bit representation written out where
the code tests them. -/

namespace Harbinger

abbrev Bytes := List UInt8

instance : LawfulBEq Bytes := inferInstance

def ascii (text : String) : Bytes := text.toList.map fun letter => letter.toNat.toUInt8

/-- `std::to_string` of an unsigned number. -/
def decimal (n : Nat) : Bytes := (Nat.toDigits 10 n).map fun letter => letter.toNat.toUInt8

/-- `std::to_string` of a signed number. -/
def decimalInt : Int → Bytes
  | .ofNat n => decimal n
  | .negSucc n => ascii "-" ++ decimal (n + 1)

abbrev Time := Int
abbrev Millis := Int

namespace Clock

def max : Time := 2 ^ 63 - 1

/-- The largest clock duration in whole milliseconds. -/
def maxMs : Millis := max / 1000000

/-- `duration_cast` from milliseconds to clock ticks. -/
def ofMillis (duration : Millis) : Time := duration * 1000000

end Clock

private theorem digit_bounds {c : Char} (digit : c.isDigit = true) : 48 ≤ c.toNat ∧ c.toNat ≤ 57 := by
  simpa [Char.isDigit, UInt32.le_iff_toNat_le] using digit

private theorem digit_byte {c : Char} (digit : c.isDigit = true) : c.toNat.toUInt8.toNat = c.toNat := by
  have bounds := digit_bounds digit
  simp only [UInt8.toNat_ofNat', Nat.toUInt8]
  omega

theorem hyphen_notMem_decimal (n : Nat) : (45 : UInt8) ∉ decimal n := by
  intro member
  obtain ⟨c, present, same⟩ := List.mem_map.mp member
  have digit := Nat.isDigit_of_mem_toDigits (by decide) (by decide) present
  have bounds := digit_bounds digit
  rw [← digit_byte digit, same] at bounds
  simp at bounds

private theorem decimal_letters (n : Nat) :
    (decimal n).map (fun b => Char.ofNat b.toNat) = Nat.toDigits 10 n := by
  rw [decimal, List.map_map]
  refine (List.map_congr_left ?_).trans (List.map_id _)
  intro c present
  have digit := Nat.isDigit_of_mem_toDigits (by decide) (by decide) present
  simp only [Function.comp_apply, digit_byte digit, Char.ofNat_toNat, id_eq]

theorem decimal_injective : Function.Injective decimal := by
  intro first second same
  have digits : Nat.toDigits 10 first = Nat.toDigits 10 second := by
    rw [← decimal_letters first, same, decimal_letters]
  have values := congrArg (fun letters => Nat.ofDigitChars 10 letters 0) digits
  simpa using values

/-- The number that a nonempty text of decimal digits denotes. -/
def ofDecimal (text : Bytes) : Option Nat :=
  if text ≠ [] ∧ ∀ c ∈ text, 48 ≤ c ∧ c ≤ 57 then
    some (text.foldl (fun total c => 10 * total + (c.toNat - 48)) 0)
  else none

theorem decimal_ne_nil (n : Nat) : decimal n ≠ [] := by
  simp [decimal, Nat.toDigits_ne_nil]

theorem digit_of_mem_decimal {n : Nat} {c : UInt8} (member : c ∈ decimal n) : 48 ≤ c ∧ c ≤ 57 := by
  obtain ⟨letter, present, rfl⟩ := List.mem_map.mp member
  have digit := Nat.isDigit_of_mem_toDigits (by decide) (by decide) present
  have bounds := digit_bounds digit
  rw [UInt8.le_iff_toNat_le, UInt8.le_iff_toNat_le, digit_byte digit]
  exact bounds

theorem ofDecimal_decimal (n : Nat) : ofDecimal (decimal n) = some n := by
  have digits : ∀ letters : List Char, (∀ letter ∈ letters, letter.isDigit = true) → ∀ start,
      (letters.map fun letter => letter.toNat.toUInt8).foldl (fun total c => 10 * total + (c.toNat - 48)) start =
        Nat.ofDigitChars 10 letters start := by
    intro letters all start
    rw [List.foldl_map]
    induction letters generalizing start with
    | nil => rfl
    | cons letter rest ih =>
      rw [List.foldl_cons, digit_byte (all letter (List.mem_cons_self ..)),
        ih fun other member => all other (List.mem_cons_of_mem _ member)]
      rfl
  rw [ofDecimal, if_pos ⟨decimal_ne_nil n, fun c member => digit_of_mem_decimal member⟩, decimal, digits]
  · simp
  · exact fun letter member => Nat.isDigit_of_mem_toDigits (by decide) (by decide) member

theorem decimal_length_le {n width : Nat} (positive : 0 < width) (small : n < 10 ^ width) :
    (decimal n).length ≤ width := by
  rw [decimal, List.length_map]
  exact (Nat.length_toDigits_le_iff (by decide) positive).mpr small

theorem decimal_digit {n : Nat} (small : n < 10) : decimal n = [(48 + n).toUInt8] := by
  rw [decimal, Nat.toDigits_of_lt_base small]
  interval_cases n <;> rfl

theorem decimal_shift {n : Nat} (large : 10 ≤ n) : decimal n = decimal (n / 10) ++ [(48 + n % 10).toUInt8] := by
  rw [← decimal_digit (Nat.mod_lt n (by decide)), decimal, Nat.toDigits_of_base_le (by decide) large, List.map_append,
    decimal, decimal, Nat.toDigits_of_lt_base (Nat.mod_lt n (by decide))]

theorem head_decimal {n : Nat} (positive : 0 < n) : (decimal n).head? ≠ some 48 := by
  induction n using Nat.strong_induction_on with
  | h n known =>
    by_cases small : n < 10
    · rw [decimal_digit small]
      interval_cases n <;> decide
    · rw [decimal_shift (not_lt.mp small), List.head?_append_of_ne_nil _ (decimal_ne_nil _)]
      exact known (n / 10) (by omega) (by omega)

theorem separated_suffix {separator : UInt8} {before before' after after' : Bytes} (clean : separator ∉ after)
    (clean' : separator ∉ after') (same : before ++ separator :: after = before' ++ separator :: after') :
    after = after' := by
  have split (left right : Bytes) (absent : separator ∉ right) :
      ((left ++ separator :: right).reverse.takeWhile (· ≠ separator)).reverse = right := by
    rw [List.reverse_append, List.reverse_cons, List.append_assoc,
      List.takeWhile_append_of_pos (by
        intro b member
        have present := List.mem_reverse.mp member
        simpa using fun equal : b = separator => absent (equal ▸ present))]
    simp
  rw [← split before after clean, same, split before' after' clean']

theorem hyphenated_suffix {before before' after after' : Bytes}
    (clean : (45 : UInt8) ∉ after) (clean' : (45 : UInt8) ∉ after')
    (same : before ++ 45 :: after = before' ++ 45 :: after') : after = after' :=
  separated_suffix clean clean' same

end Harbinger
