import KtKernel.Amx.Transpose
import KtKernel.Data.Loops
import Mathlib.Data.Rat.Floor
import Mathlib.Tactic.Linarith

namespace KtKernel.Amx.Quantization

open KtKernel.Data
open KtKernel.Amx.Transpose

/-! Vector instructions of the quantization, with exact numbers for the floats. -/

/-! ## Rounding -/

/-- The nearest integer, and of two the even one. -/
def roundEven (x : ℚ) : Int :=
  let low := ⌊x⌋
  if x - low < 1 / 2 ∨ x - low = 1 / 2 ∧ low % 2 = 0 then low else low + 1

variable {x d : ℚ} {bound : Int}

theorem roundEven_close (x : ℚ) : |x - roundEven x| ≤ 1 / 2 := by
  have above := Int.floor_le x
  have below := Int.lt_floor_add_one x
  unfold roundEven
  dsimp only
  split_ifs with first
  · rw [abs_le]
    rcases first with less | ⟨half, -⟩
    · constructor
      · linarith
      · exact less.le
    · constructor
      · linarith
      · exact half.le
  · obtain ⟨more, -⟩ := not_or.mp first
    push_cast
    rw [abs_le]
    constructor
    · linarith [not_lt.mp more]
    · linarith

theorem roundEven_le (inside : x ≤ bound) : roundEven x ≤ bound := by
  have close := (abs_le.mp (roundEven_close x)).1
  have less : (roundEven x : ℚ) < (bound + 1 : Int) := by
    push_cast
    linarith
  exact Int.lt_add_one_iff.mp (Int.cast_lt.mp less)

theorem le_roundEven (inside : bound ≤ x) : bound ≤ roundEven x := by
  have close := (abs_le.mp (roundEven_close x)).2
  have less : (bound : ℚ) < (roundEven x + 1 : Int) := by
    push_cast
    linarith
  exact Int.lt_add_one_iff.mp (Int.cast_lt.mp less)

@[simp]
theorem roundEven_int (value : Int) : roundEven value = value :=
  Int.le_antisymm (roundEven_le le_rfl) (le_roundEven le_rfl)

/-- `_mm512_cvtps_epi32`, with the indefinite integer for what does not fit. -/
def cvtpsEpi32 (x : ℚ) : Int :=
  let rounded := roundEven x
  if -2 ^ 31 ≤ rounded ∧ rounded < 2 ^ 31 then rounded else -2 ^ 31

theorem toInt_byte {i : Int} (fits : |i| ≤ 127) : (BitVec.ofInt 8 i).toInt = i := by
  obtain ⟨low, high⟩ := abs_le.mp fits
  apply BitVec.toInt_ofInt_eq_self (by decide)
  · omega
  · omega

end KtKernel.Amx.Quantization
