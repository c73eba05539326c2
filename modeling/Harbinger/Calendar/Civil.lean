import Mathlib

/-! The proleptic Gregorian calendar over a count of days. Years repeat every 400, and both
the year in its cycle and the month in its year are found by walking over a list of lengths. -/

namespace Calendar

/-- The block of the list that contains position `n`, and the position inside it. -/
def seek : List Nat → Nat → Nat × Nat
  | [], n => (0, n)
  | length :: rest, n =>
    if n < length then (0, n) else ((seek rest (n - length)).1 + 1, (seek rest (n - length)).2)

theorem seek_spec {lengths : List Nat} {n : Nat} (inside : n < lengths.sum) :
    (seek lengths n).2 < lengths.getD (seek lengths n).1 0 := by
  induction lengths generalizing n with
  | nil => exact absurd inside (Nat.not_lt_zero n)
  | cons length rest known =>
    simp only [seek]
    split
    next here => exact here
    next later =>
      rw [List.sum_cons] at inside
      exact known (by omega)

theorem seek_lt {lengths : List Nat} {n : Nat} (inside : n < lengths.sum) :
    (seek lengths n).1 < lengths.length := by
  by_contra outside
  have bound := seek_spec inside
  rw [List.getD_eq_default _ _ (not_lt.mp outside)] at bound
  exact Nat.not_lt_zero _ bound

def leap (year : Int) : Bool := year % 4 = 0 ∧ (year % 100 ≠ 0 ∨ year % 400 = 0)

def yearLength (year : Int) : Nat := if leap year then 366 else 365

def monthLengths (year : Int) : List Nat :=
  [31, if leap year then 29 else 28, 31, 30, 31, 30, 31, 31, 30, 31, 30, 31]

theorem sum_monthLengths (year : Int) : (monthLengths year).sum = yearLength year := by
  simp only [monthLengths, yearLength]
  split <;> rfl

/-- The lengths of the years 2000 to 2399. -/
def cycle : List Nat := (List.range 400).map fun (index : Nat) => yearLength (2000 + index)

def cycleLength : Nat := 146097

theorem sum_cycle : cycle.sum = cycleLength := by decide +kernel

theorem yearLength_cycle (era : Int) (index : Nat) :
    yearLength (2000 + 400 * era + index) = yearLength (2000 + index) := by
  have four : (2000 + 400 * era + index) % 4 = (2000 + index : Int) % 4 := by omega
  have hundred : (2000 + 400 * era + index) % 100 = (2000 + index : Int) % 100 := by omega
  have all : (2000 + 400 * era + index) % 400 = (2000 + index : Int) % 400 := by omega
  simp only [yearLength, leap, four, hundred, all, decide_eq_true_eq]

structure Date where
  year : Int
  month : Nat
  day : Nat
  deriving DecidableEq

namespace Date

def Valid (date : Date) : Prop :=
  1 ≤ date.month ∧ 1 ≤ date.day ∧ date.day ≤ (monthLengths date.year).getD (date.month - 1) 0

instance (date : Date) : Decidable date.Valid := inferInstanceAs (Decidable (_ ∧ _))

/-- Days from 1970-01-01 to 2000-01-01. -/
def millennium : Int := 10957

/-- The date of a number of days after 1970-01-01. -/
def ofDays (days : Int) : Date :=
  let era := (days - millennium) / cycleLength
  let (index, dayOfYear) := seek cycle ((days - millennium) % cycleLength).toNat
  let year := 2000 + 400 * era + index
  let (month, day) := seek (monthLengths year) dayOfYear
  ⟨year, month + 1, day + 1⟩

theorem mem_cycle (days : Int) : ((days - millennium) % cycleLength).toNat < cycle.sum := by
  rw [sum_cycle]
  have bound := Int.emod_lt_of_pos (days - millennium) (show (0 : Int) < cycleLength by decide)
  have nonnegative := Int.emod_nonneg (days - millennium) (show (cycleLength : Int) ≠ 0 by decide)
  omega

theorem ofDays_valid (days : Int) : (ofDays days).Valid := by
  have inside := seek_spec (mem_cycle days)
  have bound := seek_lt (mem_cycle days)
  have year : cycle.getD (seek cycle ((days - millennium) % cycleLength).toNat).1 0 =
      yearLength (2000 + (seek cycle ((days - millennium) % cycleLength).toNat).1) := by
    simp only [cycle, List.length_map, List.length_range] at bound ⊢
    rw [List.getD_eq_getElem _ _ (by simpa using bound)]
    simp
  rw [year, ← yearLength_cycle ((days - millennium) / cycleLength), ← sum_monthLengths] at inside
  exact ⟨Nat.le_add_left 1 _, Nat.le_add_left 1 _, seek_spec inside⟩

theorem ofDays_year (days : Int) :
    2000 + 400 * ((days - millennium) / cycleLength) ≤ (ofDays days).year ∧
      (ofDays days).year < 2400 + 400 * ((days - millennium) / cycleLength) := by
  have bound := seek_lt (mem_cycle days)
  simp only [cycle, List.length_map, List.length_range] at bound
  simp only [ofDays, cycle]
  omega

theorem Valid.month_le {date : Date} (valid : date.Valid) : date.month ≤ 12 := by
  by_contra outside
  have day := valid.2.2
  rw [List.getD_eq_default _ _ (by simp only [monthLengths, List.length_cons, List.length_nil]; omega)] at day
  exact absurd valid.2.1 (by omega)

theorem Valid.day_le {date : Date} (valid : date.Valid) : date.day ≤ 31 := by
  refine valid.2.2.trans ?_
  have all : ∀ length ∈ monthLengths date.year, length ≤ 31 := by
    simp only [monthLengths]
    split <;> decide
  cases found : (monthLengths date.year)[date.month - 1]? with
  | none => simp [List.getD_eq_getElem?_getD, found]
  | some length => simpa [List.getD_eq_getElem?_getD, found] using all length (List.mem_of_getElem? found)

example : ofDays 0 = ⟨1970, 1, 1⟩ ∧ ofDays 11016 = ⟨2000, 2, 29⟩ ∧ ofDays (-1) = ⟨1969, 12, 31⟩ := by
  decide +kernel

end Date

end Calendar
