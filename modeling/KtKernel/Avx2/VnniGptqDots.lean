import KtKernel.Avx2.VnniGptq
import Mathlib.Algebra.BigOperators.Ring.Finset
import Mathlib.Algebra.Order.BigOperators.Group.Finset

namespace KtKernel.Avx2.VnniGptq

open KtKernel.Data
open KtKernel.Amx.Quantization (roundEven cvtpsEpi32 roundEven_le le_roundEven roundEven_int)

/-! The integers of the two kernels. -/

/-! ## Nibbles -/

def wordNibble (word : BitVec 32) (place : Nat) : Int :=
  ((word >>> (place * 4)) &&& 0xF).toNat

theorem wordNibble_eq (word : BitVec 32) (place : Nat) : wordNibble word place = (word.toNat / 2 ^ (place * 4) % 2 ^ 4 : Nat) := by
  have mask : (0xF : BitVec 32).toNat = 2 ^ 4 - 1 := by decide
  rw [wordNibble, BitVec.toNat_and, mask, Nat.and_two_pow_sub_one_eq_mod, BitVec.toNat_ushiftRight, Nat.shiftRight_eq_div_pow]

theorem wordNibble_bounds (word : BitVec 32) (place : Nat) : 0 ≤ wordNibble word place ∧ wordNibble word place < 16 := by
  rw [wordNibble_eq]
  omega

/-- A byte holds two nibbles. -/
theorem wordByte_nibbles (words : Nat → BitVec 32) (place : Nat) :
    (((wordByte words (place / 2) &&& (0x0F : BitVec 8)).toNat : Int) = wordNibble (words (place / 2 / 4)) (place / 2 % 4 * 2)) ∧
      ((wordByte words (place / 2) >>> 4).toNat : Int) = wordNibble (words (place / 2 / 4)) (place / 2 % 4 * 2 + 1) := by
  have mask : (0x0F : BitVec 8).toNat = 2 ^ 4 - 1 := by decide
  have byte : (wordByte words (place / 2)).toNat = (words (place / 2 / 4)).toNat / 2 ^ (8 * (place / 2 % 4)) % 2 ^ 8 := by
    rw [wordByte, BitVec.truncate_eq_setWidth, BitVec.toNat_setWidth, BitVec.toNat_ushiftRight, Nat.shiftRight_eq_div_pow]
  have low : place / 2 % 4 * 2 * 4 = 8 * (place / 2 % 4) := by omega
  have high : (place / 2 % 4 * 2 + 1) * 4 = 8 * (place / 2 % 4) + 4 := by omega
  rw [BitVec.toNat_and, mask, Nat.and_two_pow_sub_one_eq_mod, BitVec.toNat_ushiftRight, Nat.shiftRight_eq_div_pow, byte,
    wordNibble_eq, wordNibble_eq, low, high, Nat.pow_add, ← Nat.div_div_eq_div_mul]
  constructor
  · omega
  · omega

theorem sub_eight : ∀ byte : BitVec 8, byte.toNat < 16 → (byte - 8).toInt = byte.toNat - 8 := by
  decide

/-- The lanes of an unpacked register are the nibbles of its words in order. -/
theorem unpack4Words_toInt (qwords : Nat → BitVec 32) (inside : lane < 32) :
    (Packed.unpack4WordsToS8Nosad qwords lane).toInt = wordNibble (qwords (lane / 8)) (lane % 8) - 8 := by
  obtain ⟨low, high⟩ := wordByte_nibbles qwords lane
  have word : lane / 2 / 4 = lane / 8 := by omega
  rw [word] at low high
  simp only [Packed.unpack4WordsToS8Nosad, srliEpi16_nibble, halves_unpack _ _ (show 16 % 2 = 0 by decide) inside]
  split
  · next even =>
      have place : lane / 2 % 4 * 2 = lane % 8 := by omega
      rw [place] at low
      have bounds := wordNibble_bounds (qwords (lane / 8)) (lane % 8)
      rw [sub_eight _ (by omega), low]
  · next odd =>
      have place : lane / 2 % 4 * 2 + 1 = lane % 8 := by omega
      rw [place] at high
      have bounds := wordNibble_bounds (qwords (lane / 8)) (lane % 8)
      rw [sub_eight _ (by omega), high]

theorem value_toInt (packed : BitVec 32) (nib : Nat) : (Unpacked.value packed nib).toInt = wordNibble packed nib - 8 := by
  have bounds := wordNibble_bounds packed nib
  rw [Unpacked.value, ← wordNibble]
  apply BitVec.toInt_ofInt_eq_self (by decide)
  · omega
  · omega

/-- A sum over the nibbles of words in turn. -/
theorem nibble_sum {α : Type} [AddCommMonoid α] (words : Nat → BitVec 32) (term : BitVec 32 → Nat → α) (count : Nat) :
    (List.range count).foldl (fun sum word => (List.range 8).foldl (fun sum nib => sum + term (words word) nib) sum) 0 =
      ∑ place ∈ Finset.range (count * 8), term (words (place / 8)) (place % 8) := by
  simp only [foldl_range, zero_add]
  rw [sum_blocks]
  apply Finset.sum_congr rfl
  intro word _
  apply Finset.sum_congr rfl
  intro nib inside
  have small := Finset.mem_range.mp inside
  rw [pairIndex_div word small, pairIndex_mod word small]

variable {groupSize : Nat}

theorem rowsum_eq (words : Nat → BitVec 32) (whole : 8 ∣ groupSize) :
    Packed.rowsum words groupSize = ∑ place ∈ Finset.range groupSize, (wordNibble (words (place / 8)) (place % 8) - 8) := by
  rw [Packed.rowsum, nibble_sum words (fun word nb => ((word >>> (nb * 4)) &&& 0xF).toNat), Nat.div_mul_cancel whole,
    Finset.sum_sub_distrib, Finset.sum_const, Finset.card_range, Nat.cast_sum, nsmul_eq_mul, mul_comm]
  rfl

theorem rowsum_congr {words other : Nat → BitVec 32} (same : ∀ wr < groupSize / 8, words wr = other wr) :
    Packed.rowsum words groupSize = Packed.rowsum other groupSize := by
  simp only [Packed.rowsum, foldl_range]
  congr 3
  apply Finset.sum_congr rfl
  intro wr inside
  rw [same wr (Finset.mem_range.mp inside)]

theorem groupSum_eq (words : Nat → BitVec 32) (whole : 8 ∣ groupSize) :
    Unpacked.groupSum words groupSize = ∑ place ∈ Finset.range groupSize, (wordNibble (words (place / 8)) (place % 8) - 8) := by
  rw [Unpacked.groupSum, nibble_sum words (fun word nib => (Unpacked.value word nib).toInt), Nat.div_mul_cancel whole]
  simp only [value_toInt]

/-- A sum of weights is at most eight for each of them. -/
theorem weights_bound (words : Nat → BitVec 32) (groupSize : Nat) :
    |∑ place ∈ Finset.range groupSize, (wordNibble (words (place / 8)) (place % 8) - 8)| ≤ groupSize * 8 := by
  calc
    |∑ place ∈ Finset.range groupSize, (wordNibble (words (place / 8)) (place % 8) - 8)|
        ≤ ∑ place ∈ Finset.range groupSize, |wordNibble (words (place / 8)) (place % 8) - 8| :=
      Finset.abs_sum_le_sum_abs _ _
    _ ≤ ∑ _place ∈ Finset.range groupSize, 8 := by
      apply Finset.sum_le_sum
      intro place _
      have bounds := wordNibble_bounds (words (place / 8)) (place % 8)
      rw [abs_le]
      omega
    _ = groupSize * 8 := by rw [Finset.sum_const, Finset.card_range, nsmul_eq_mul]

/-! ## Accumulators -/

variable {a : Nat → BitVec 8} {b : Nat → Int} {steps lane : Nat}

theorem accumulators_eq (a : Nat → BitVec 8) (b : Nat → Int) (steps lane : Nat) :
    accumulators a b steps lane =
      (∑ step ∈ Finset.range steps, ∑ place ∈ Finset.range 4,
        ((a (step * 32 + (4 * lane + place))).toNat : Int) * b (step * 32 + (4 * lane + place))).bmod (2 ^ 32) := by
  induction steps with
  | zero => rfl
  | succ steps induction =>
      rw [accumulators] at induction
      rw [accumulators, List.range_succ, List.foldl_append, List.foldl_cons, List.foldl_nil, dpbusd, foldl_range, induction,
        Int.bmod_add_bmod, Finset.sum_range_succ _ steps]

theorem product_bound (byte : BitVec 8) {weight : Int} (small : |weight| ≤ 8) : |(byte.toNat : Int) * weight| ≤ 2040 := by
  have fits := byte.isLt
  have byteBound : |(byte.toNat : Int)| ≤ 255 := by
    rw [abs_le]
    omega
  calc
    |(byte.toNat : Int) * weight| = |(byte.toNat : Int)| * |weight| := abs_mul _ _
    _ ≤ 255 * 8 := mul_le_mul byteBound small (abs_nonneg _) (by decide)
    _ = 2040 := rfl

theorem lane_bound (small : ∀ place < steps * 32, |b place| ≤ 8) (a : Nat → BitVec 8) (inLanes : lane < 8) :
    |∑ step ∈ Finset.range steps, ∑ place ∈ Finset.range 4,
      ((a (step * 32 + (4 * lane + place))).toNat : Int) * b (step * 32 + (4 * lane + place))| ≤ steps * 8160 := by
  calc
    _ ≤ ∑ step ∈ Finset.range steps, ∑ place ∈ Finset.range 4,
        |((a (step * 32 + (4 * lane + place))).toNat : Int) * b (step * 32 + (4 * lane + place))| :=
      (Finset.abs_sum_le_sum_abs _ _).trans (Finset.sum_le_sum fun step _ => Finset.abs_sum_le_sum_abs _ _)
    _ ≤ ∑ _step ∈ Finset.range steps, ∑ _place ∈ Finset.range 4, 2040 :=
      Finset.sum_le_sum fun step inSteps => Finset.sum_le_sum fun place inFour => by
        have first := Finset.mem_range.mp inSteps
        have second := Finset.mem_range.mp inFour
        exact product_bound _ (small _ (by omega))
    _ = steps * 8160 := by simp

theorem exactDots (small : ∀ place < groupSize, |b place| ≤ 8) (fits : groupSize ≤ 2048) (a : Nat → BitVec 8) :
    ExactDots a b groupSize := by
  intro steps inside lane inLanes
  have within : ∀ place < steps * 32, |b place| ≤ 8 := fun place inSteps => small place (by omega)
  have bound := lane_bound within a inLanes
  have fits : |∑ step ∈ Finset.range steps, ∑ place ∈ Finset.range 4,
      ((a (step * 32 + (4 * lane + place))).toNat : Int) * b (step * 32 + (4 * lane + place))| < 2 ^ 31 := by omega
  have same := accumulators_eq a b steps lane
  rw [bmod_of_abs_lt fits] at same
  exact ⟨same, same ▸ fits⟩

/-- All lanes together are the dot product. -/
theorem accumulators_sum (exact_ : ExactDots a b groupSize) (whole : 32 ∣ groupSize) :
    ∑ lane ∈ Finset.range 8, accumulators a b (groupSize / 32) lane =
      ∑ place ∈ Finset.range groupSize, ((a place).toNat : Int) * b place := by
  calc
    ∑ lane ∈ Finset.range 8, accumulators a b (groupSize / 32) lane
        = ∑ lane ∈ Finset.range 8, ∑ step ∈ Finset.range (groupSize / 32), ∑ place ∈ Finset.range 4,
            ((a (step * 32 + (4 * lane + place))).toNat : Int) * b (step * 32 + (4 * lane + place)) :=
      Finset.sum_congr rfl fun lane inside => (exact_ _ (Nat.le_refl _) lane (Finset.mem_range.mp inside)).1
    _ = ∑ step ∈ Finset.range (groupSize / 32), ∑ lane ∈ Finset.range 8, ∑ place ∈ Finset.range 4,
            ((a (step * 32 + (4 * lane + place))).toNat : Int) * b (step * 32 + (4 * lane + place)) := Finset.sum_comm
    _ = ∑ step ∈ Finset.range (groupSize / 32), ∑ place ∈ Finset.range 32,
            ((a (step * 32 + place)).toNat : Int) * b (step * 32 + place) := by
      apply Finset.sum_congr rfl
      intro step _
      have blocks := sum_blocks (fun place => ((a (step * 32 + place)).toNat : Int) * b (step * 32 + place)) 8 4
      simp only [Nat.mul_comm _ 4] at blocks
      exact blocks.symm
    _ = ∑ place ∈ Finset.range groupSize, ((a place).toNat : Int) * b place := by
      rw [← sum_blocks (fun place => ((a place).toNat : Int) * b place), Nat.div_mul_cancel whole]

theorem dot_bound (small : ∀ place < groupSize, |b place| ≤ 8) (a : Nat → BitVec 8) :
    |∑ place ∈ Finset.range groupSize, ((a place).toNat : Int) * b place| ≤ groupSize * 2040 := by
  calc
    _ ≤ ∑ place ∈ Finset.range groupSize, |((a place).toNat : Int) * b place| := Finset.abs_sum_le_sum_abs _ _
    _ ≤ ∑ _place ∈ Finset.range groupSize, 2040 :=
      Finset.sum_le_sum fun place inside => product_bound _ (small place (Finset.mem_range.mp inside))
    _ = groupSize * 2040 := by rw [Finset.sum_const, Finset.card_range, nsmul_eq_mul]

theorem weight_bound (word : BitVec 32) (place : Nat) : |wordNibble word place - 8| ≤ 8 := by
  have bounds := wordNibble_bounds word place
  rw [abs_le]
  omega

theorem Packed.inRange (whole : 8 ∣ groupSize) (fits : groupSize ≤ 2048) : Packed.InRange groupSize where
  dots := by
    intro a words
    apply exactDots _ fits
    intro place _
    rw [unpack4Words_toInt _ (Nat.mod_lt place (by decide))]
    exact weight_bound _ _
  correction := by
    intro words
    have bound := weights_bound words groupSize
    rw [rowsum_eq words whole]
    omega

theorem Unpacked.inRange (whole : 32 ∣ groupSize) (fits : groupSize ≤ 256) : Unpacked.InRange groupSize := by
  have eights : 8 ∣ groupSize := Nat.dvd_trans (by decide) whole
  have small : ∀ (words : Nat → BitVec 32) (place : Nat), |(Unpacked.value (words (place / 8)) (place % 8)).toInt| ≤ 8 := by
    intro words place
    rw [value_toInt]
    exact weight_bound _ _
  have sum : ∀ words, |Unpacked.groupSum words groupSize| ≤ 2048 := by
    intro words
    have bound := weights_bound words groupSize
    rw [groupSum_eq words eights]
    omega
  have dots : ∀ (a : Nat → BitVec 8) (words : Nat → BitVec 32),
      ExactDots a (fun place => (Unpacked.value (words (place / 8)) (place % 8)).toInt) groupSize :=
    fun a words => exactDots (fun place _ => small words place) (by omega) a
  refine ⟨dots, ?_, ?_, ?_⟩
  · intro words
    have bound := abs_le.mp (sum words)
    apply BitVec.toInt_ofInt_eq_self (by decide)
    · omega
    · omega
  · intro words
    have bound := abs_le.mp (sum words)
    rw [abs_lt]
    omega
  · intro a words
    have bound := abs_le.mp (sum words)
    have total := abs_le.mp (dot_bound (fun place (_ : place < groupSize) => small words place) a)
    dsimp only
    rw [accumulators_sum (dots a words) whole, abs_lt, abs_lt]
    omega

end KtKernel.Avx2.VnniGptq
