import Mathlib.Algebra.Field.Rat
import Mathlib.Algebra.Order.Field.Power
import Mathlib.Algebra.Order.Ring.Rat
import Mathlib.Tactic.Ring

namespace KtKernel.Data

/-! Binary floating-point numbers of 32 bits, as the rational numbers that they stand for. -/

structure Binary32 where
  bits : UInt32
deriving DecidableEq, Repr

namespace Binary32

def sign (float : Binary32) : ℚ :=
  if float.bits.toNat / 2 ^ 31 = 0 then 1 else -1

def exponent (float : Binary32) : Nat :=
  float.bits.toNat / 2 ^ 23 % 2 ^ 8

def fraction (float : Binary32) : Nat :=
  float.bits.toNat % 2 ^ 23

/-- The number of a float, `none` for the infinities and what is no number. -/
def value (float : Binary32) : Option ℚ :=
  if float.exponent = 255 then none
  else if float.exponent = 0 then some (float.sign * (float.fraction * 2 ^ (-149 : ℤ)))
  else some (float.sign * ((2 ^ 23 + float.fraction) * 2 ^ ((float.exponent : ℤ) - 150)))

variable {float : Binary32}

theorem value_zero (none : float.bits.toNat = 0) : float.value = some 0 := by
  have exponent : float.exponent = 0 := by rw [Binary32.exponent, none, Nat.zero_div, Nat.zero_mod]
  have fraction : float.fraction = 0 := by rw [Binary32.fraction, none, Nat.zero_mod]
  rw [value, exponent, fraction, if_neg (by decide), if_pos rfl]
  congr 1
  rw [Nat.cast_zero, zero_mul, mul_zero]

/-- An exponent alone is a power of two. -/
theorem value_exponent {exponent : Nat} (positive : 0 < exponent) (finite : exponent < 255)
    (alone : float.bits.toNat = exponent * 2 ^ 23) : float.value = some (2 ^ ((exponent : ℤ) - 127)) := by
  have sign : float.sign = 1 := if_pos (by rw [alone]; omega)
  have own : float.exponent = exponent := by rw [Binary32.exponent, alone]; omega
  have fraction : float.fraction = 0 := by rw [Binary32.fraction, alone]; omega
  have power : (exponent : ℤ) - 127 = 23 + ((exponent : ℤ) - 150) := by ring
  rw [value, own, sign, fraction, if_neg (by omega), if_neg (by omega), power, zpow_add₀ (by decide)]
  congr 1
  rw [Nat.cast_zero, add_zero, one_mul]
  rfl

/-- A bit of the fraction alone is a power of two as well. -/
theorem value_fraction {place : Nat} (inside : place < 23) (alone : float.bits.toNat = 2 ^ place) :
    float.value = some (2 ^ ((place : ℤ) - 149)) := by
  have small : 2 ^ place < 2 ^ 23 := Nat.pow_lt_pow_right (by decide) inside
  have sign : float.sign = 1 := if_pos (by rw [alone]; omega)
  have own : float.exponent = 0 := by rw [Binary32.exponent, alone]; omega
  have fraction : float.fraction = 2 ^ place := by rw [Binary32.fraction, alone, Nat.mod_eq_of_lt small]
  rw [value, own, sign, fraction, if_neg (by decide), if_pos rfl, sub_eq_add_neg, zpow_add₀ (by decide)]
  congr 1
  rw [one_mul, Nat.cast_pow, zpow_natCast]
  rfl

end Binary32

end KtKernel.Data
