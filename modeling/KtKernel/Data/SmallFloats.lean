import KtKernel.Data.Binary32

namespace KtKernel.Data

/-! Floats of 16 and of four bits. -/

/-- The number of a BF16: its bits are the upper half of a float, and no finite one is lost. -/
def bf16Value (bits : BitVec 16) : ℚ :=
  (Binary32.value ⟨⟨bits ++ (0 : BitVec 16)⟩⟩).getD 0

/-- The number of a code with a sign, two bits of exponent and one bit of fraction. -/
def e2m1 (code : Nat) : ℚ :=
  let exponent := code / 2 % 4
  let fraction : ℚ := (code % 2 : Nat) / 2
  let magnitude := if exponent = 0 then fraction else (1 + fraction) * 2 ^ (exponent - 1)
  if code / 8 % 2 = 0 then magnitude else -magnitude

example : (List.range 16).map e2m1 = [0, 1 / 2, 1, 3 / 2, 2, 3, 4, 6, 0, -1 / 2, -1, -3 / 2, -2, -3, -4, -6] := by decide +kernel

theorem e2m1_zero : e2m1 0 = 0 := by simp [e2m1]

theorem e2m1_two : e2m1 2 = 1 := by simp [e2m1]

/-- The two codes of a byte. -/
def nibbleOf (byte : BitVec 8) (place : Nat) : BitVec 8 :=
  if place % 2 = 0 then byte &&& 0x0F else byte >>> 4

theorem nibbleOf_lt (byte : BitVec 8) (place : Nat) : (nibbleOf byte place).toNat < 16 := by
  have fits := byte.isLt
  have mask : (0x0F : BitVec 8).toNat = 2 ^ 4 - 1 := by decide
  rw [nibbleOf]
  split
  · rw [BitVec.toNat_and, mask, Nat.and_two_pow_sub_one_eq_mod]
    exact Nat.mod_lt _ (by decide)
  · rw [BitVec.toNat_ushiftRight, Nat.shiftRight_eq_div_pow]
    omega

end KtKernel.Data
