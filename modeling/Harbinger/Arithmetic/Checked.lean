import Mathlib

/-! Signed integers of `w` bits with arithmetic that notices when a result is out of range. -/

namespace Checked

/-- The range of a signed number of `w` bits. -/
def Fits (w : Nat) (x : Int) : Prop := -2 ^ (w - 1) ≤ x ∧ x < 2 ^ (w - 1)

instance (w : Nat) (x : Int) : Decidable (Fits w x) := inferInstanceAs (Decidable (_ ∧ _))

def exact (w : Nat) (x : Int) : Option Int := if Fits w x then some x else none

def add (w : Nat) (x y : Int) : Option Int := exact w (x + y)
def sub (w : Nat) (x y : Int) : Option Int := exact w (x - y)
def mul (w : Nat) (x y : Int) : Option Int := exact w (x * y)

variable {w : Nat} {x y z : Int}

theorem exact_eq_some : exact w x = some y ↔ Fits w x ∧ x = y := by
  simp [exact]

theorem exact_of_fits (fits : Fits w x) : exact w x = some x := if_pos fits

theorem add_of_fits (fits : Fits w (x + y)) : add w x y = some (x + y) := exact_of_fits fits

theorem sub_of_fits (fits : Fits w (x - y)) : sub w x y = some (x - y) := exact_of_fits fits

theorem mul_of_fits (fits : Fits w (x * y)) : mul w x y = some (x * y) := exact_of_fits fits

end Checked

/-- Subtraction of `size_t` values. -/
def sizeSub (a b : Nat) : Nat := if b ≤ a then a - b else 2 ^ 64 + a - b

theorem sizeSub_of_le {a b : Nat} (order : b ≤ a) : sizeSub a b = a - b := if_pos order
