import KtKernel.Amx.Mxfp4Kernels
import KtKernel.Avx2.Mxfp4Paths

namespace KtKernel.Amx.Mxfp4

open KtKernel.Data
open KtKernel.Avx2.Mxfp4 (code code_shift shuffled_value lowNibble_lt highNibble_lt)

/-! What an element of the MXFP4 kernels is, in either order of the activations. -/

variable {lane place : Nat}

/-! ## Decoders -/

/-- The lanes of the byte decoder are the codes in order. -/
theorem mxfp4ToBf16x32_eq (packed : Nat → BitVec 8) (inside : lane < 32) :
    bf16Value (mxfp4ToBf16x32 packed lane) = code packed lane := by
  have low : ∀ word, bf16Value (shuffleEpi8 fp4Bf16Hi (fun i => packed i &&& (0x0F : BitVec 8)) word ++
      shuffleEpi8 fp4Bf16Lo (fun i => packed i &&& (0x0F : BitVec 8)) word) = e2m1 (packed word &&& (0x0F : BitVec 8)).toNat :=
    shuffled_value _ fun _ => lowNibble_lt _
  have high : ∀ word, bf16Value (shuffleEpi8 fp4Bf16Hi (fun i => packed i >>> 4) word ++
      shuffleEpi8 fp4Bf16Lo (fun i => packed i >>> 4) word) = e2m1 (packed word >>> 4).toNat :=
    shuffled_value _ fun _ => highNibble_lt _
  simp only [mxfp4ToBf16x32, srliEpi16_nibble]
  rw [code, nibbleOf]
  by_cases first : lane < 16
  · have word : lane / 2 / 8 * 16 + lane / 2 % 8 = lane / 2 := by omega
    rw [halves, if_pos first, halves_unpack _ _ (by decide) (by omega)]
    split
    · rw [words16_unpacklo, word, low]
    · rw [words16_unpacklo, word, high]
  · have parity : (lane - 16) % 2 = lane % 2 := by omega
    have word : (lane - 16) / 2 / 8 * 16 + 8 + (lane - 16) / 2 % 8 = lane / 2 := by omega
    rw [halves, if_neg first, halves_unpack _ _ (by decide) (by omega), parity]
    split
    · rw [words16_unpackhi, word, low]
    · rw [words16_unpackhi, word, high]

def naturalPlace (lane : Nat) : Nat :=
  if lane < 16 then 2 * lane else 2 * (lane - 16) + 1

theorem naturalGroupIndices_eq : ∀ lane < 32, (naturalGroupIndices.getD lane 0).toNat % 32 = naturalPlace lane := by
  decide

theorem fp4Bf16_table : ∀ nib < 16, bf16Value (fp4Bf16.getD nib 0) = e2m1 nib := by
  decide +kernel

theorem lut_table : ∀ nib < 16, lut.getD nib 0 = e2m1 nib := by
  decide +kernel

theorem permuteActivationGroup_eq (activation : Nat → BitVec 16) (inside : lane < 32) :
    permuteActivationGroup activation lane = activation (naturalPlace lane) := by
  rw [permuteActivationGroup, permutexvarEpi16, naturalGroupIndices_eq lane inside]

/-- A word of a nibble finds its code in the table. -/
theorem permutexvar_table {nibble : BitVec 8} (inTable : nibble.toNat < 16) :
    bf16Value (fp4Bf16.getD ((nibble.setWidth 16 : BitVec 16).toNat % 32) 0) = e2m1 nibble.toNat := by
  have index : (nibble.setWidth 16 : BitVec 16).toNat % 32 = nibble.toNat := by
    rw [BitVec.toNat_setWidth]
    omega
  rw [index]
  exact fp4Bf16_table _ inTable

theorem mxfp4ToBf16x32Natural_eq (packed : Nat → BitVec 8) (lane : Nat) :
    bf16Value (mxfp4ToBf16x32Natural packed lane) = code packed (naturalPlace lane) := by
  simp only [mxfp4ToBf16x32Natural, srliEpi16_nibble, permutexvarEpi16, halves]
  rw [code, nibbleOf, naturalPlace]
  split
  · have byte : 2 * lane / 2 = lane := by omega
    rw [permutexvar_table (lowNibble_lt _), byte, if_pos (by omega)]
  · have byte : (2 * (lane - 16) + 1) / 2 = lane - 16 := by omega
    rw [permutexvar_table (highNibble_lt _), byte, if_neg (by omega)]

/-! ## Dot products of a group -/

theorem dpbf16_sum (a d : Nat → BitVec 16) :
    ∑ lane ∈ Finset.range 16, dpbf16 a d lane = ∑ place ∈ Finset.range 32, bf16Value (a place) * bf16Value (d place) := by
  have pairs := sum_blocks (fun place => bf16Value (a place) * bf16Value (d place)) 16 2
  rw [pairs]
  apply Finset.sum_congr rfl
  intro lane _
  rw [Finset.sum_range_succ, Finset.sum_range_one, Nat.mul_comm]
  rfl

/-- The halves of a word of 32 bits, moved or masked to its upper half. -/
theorem upper_halves (high low : BitVec 16) : (high ++ low : BitVec 32) <<< 16 = (low ++ (0 : BitVec 16) : BitVec 32) ∧
    (high ++ low : BitVec 32) &&& (0xFFFF0000 : BitVec 32) = (high ++ (0 : BitVec 16) : BitVec 32) := by
  have ones : (0xFFFF0000 : BitVec 32) = (BitVec.allOnes 16 ++ (0 : BitVec 16) : BitVec 32) := by decide
  constructor
  · apply BitVec.eq_of_toNat_eq
    have small := low.isLt
    have word : (high ++ low : BitVec 32).toNat = high.toNat * 2 ^ 16 + low.toNat := by
      rw [BitVec.toNat_append, ← Nat.shiftLeft_add_eq_or_of_lt small, Nat.shiftLeft_eq]
    have none : (0 : BitVec 16).toNat = 0 := rfl
    have zero : (low ++ (0 : BitVec 16) : BitVec 32).toNat = low.toNat * 2 ^ 16 := by
      rw [BitVec.toNat_append, none, Nat.or_zero, Nat.shiftLeft_eq]
    rw [BitVec.toNat_shiftLeft, Nat.shiftLeft_eq, word, zero]
    omega
  · have cleared : low &&& (0 : BitVec 16) = 0 := BitVec.and_zero
    rw [ones, BitVec.and_append, BitVec.and_allOnes, cleared]

/-- A group in logical order, in a build of either kind. -/
theorem logical_sum (avx512Bf16 : Bool) (w : Nat → BitVec 8) (act : Nat → BitVec 16) :
    ∑ lane ∈ Finset.range 16, mxfp4DotBf16 avx512Bf16 w act lane = ∑ place ∈ Finset.range 32, bf16Value (act place) * code w place := by
  cases avx512Bf16 with
  | true =>
      have lanes : ∀ lane, mxfp4DotBf16 true w act lane = dpbf16 act (mxfp4ToBf16x32 w) lane := fun _ => rfl
      simp only [lanes]
      rw [dpbf16_sum]
      apply Finset.sum_congr rfl
      intro place inGroup
      rw [mxfp4ToBf16x32_eq w (Finset.mem_range.mp inGroup)]
  | false =>
      have pairs := sum_blocks (fun place => bf16Value (act place) * code w place) 16 2
      rw [pairs]
      apply Finset.sum_congr rfl
      intro lane _
      have even : lane * 2 / 2 = lane ∧ lane * 2 % 2 = 0 := by omega
      have odd : (lane * 2 + 1) / 2 = lane ∧ ¬ (lane * 2 + 1) % 2 = 0 := by omega
      obtain ⟨moved, masked⟩ := upper_halves (act (2 * lane + 1)) (act (2 * lane))
      have low := lowNibble_lt (w lane)
      have high := highNibble_lt (w lane)
      simp only [mxfp4DotBf16, Bool.false_eq_true, if_false, srliEpi16_nibble]
      rw [moved, masked, Nat.mod_eq_of_lt low, Nat.mod_eq_of_lt high, lut_table _ low, lut_table _ high, Finset.sum_range_succ,
        Finset.sum_range_one, Nat.add_zero (lane * 2), code, code, nibbleOf, nibbleOf, even.1, if_pos even.2, odd.1, if_neg odd.2,
        Nat.mul_comm lane 2]
      rfl

/-- The natural order goes through a group. -/
theorem natural_sum (f : Nat → ℚ) :
    ∑ lane ∈ Finset.range 32, f (naturalPlace lane) = ∑ place ∈ Finset.range 32, f place := by
  have places := sum_blocks f 16 2
  have lanes := Finset.sum_range_add (fun lane => f (naturalPlace lane)) 16 16
  rw [places, lanes, ← Finset.sum_add_distrib]
  apply Finset.sum_congr rfl
  intro lane inHalf
  have inside := Finset.mem_range.mp inHalf
  have offset : 16 + lane - 16 = lane := Nat.add_sub_cancel_left 16 lane
  rw [naturalPlace, naturalPlace, if_pos inside, if_neg (by omega), offset, Finset.sum_range_succ, Finset.sum_range_one, Nat.mul_comm]
  rfl

theorem natural_dot (w : Nat → BitVec 8) (logical act : Nat → BitVec 16) (permuted : ∀ lane < 32, act lane = logical (naturalPlace lane)) :
    ∑ lane ∈ Finset.range 16, dpbf16 act (mxfp4ToBf16x32Natural w) lane =
      ∑ place ∈ Finset.range 32, bf16Value (logical place) * code w place := by
  rw [dpbf16_sum, ← natural_sum fun place => bf16Value (logical place) * code w place]
  apply Finset.sum_congr rfl
  intro lane inGroup
  rw [permuted lane (Finset.mem_range.mp inGroup), mxfp4ToBf16x32Natural_eq]

/-! ## Elements -/

theorem element_eq (dot : (Nat → BitVec 8) → (Nat → BitVec 16) → Nat → ℚ) (kgCount : Nat) (s : Nat → BitVec 32) (w : Nat → BitVec 8)
    (aRow : Nat → BitVec 16) : element dot kgCount s w aRow = ∑ g ∈ Finset.range kgCount,
      floatValue (s g) * ∑ lane ∈ Finset.range 16, dot (fun i => w (16 * g + i)) (fun i => aRow (32 * g + i)) lane := by
  have order : (fun (acc : Nat → ℚ) g lane => floatValue (s g) * dot (fun i => w (16 * g + i)) (fun i => aRow (32 * g + i)) lane + acc lane) =
      fun acc g lane => acc lane + floatValue (s g) * dot (fun i => w (16 * g + i)) (fun i => aRow (32 * g + i)) lane := by
    funext acc g lane
    exact add_comm _ _
  rw [element, order]
  simp only [foldl_lanes, zero_add, Finset.mul_sum]
  exact Finset.sum_comm

/-- An element whose scales are those of groups of 32. -/
def groupSum (k : Nat) (s : Nat → BitVec 32) (b : Nat → BitVec 8) (row : Nat → BitVec 16) (ni : Nat) : ℚ :=
  ∑ g ∈ Finset.range (k / 32), floatValue (s g) *
    ∑ place ∈ Finset.range 32, bf16Value (row (32 * g + place)) * weight k b ni (32 * g + place)

theorem weight_code (k : Nat) (b : Nat → BitVec 8) (ni g place : Nat) :
    code (fun i => b (BufferB.getSubmat k ni 0 + (16 * g + i))) place = weight k b ni (32 * g + place) := by
  have shift := code_shift (fun i => b (BufferB.getSubmat k ni 0 + i)) (16 * g) place
  have start : 16 * g * 2 = 32 * g := by omega
  rw [shift, start, code, BufferB.getSubmat, Nat.zero_div, Nat.add_zero, weight]

theorem logicalElement_eq (avx512Bf16 : Bool) (m k : Nat) (ba : BufferA) (bb : BufferB) (s : Nat → BitVec 32) (nPos mi : Nat) :
    logicalElement avx512Bf16 m k ba bb s nPos mi = groupSum k s bb.b (fun i => ba.a (BufferA.getSubmat m k mi 0 + i)) nPos := by
  rw [logicalElement, element_eq, groupSum]
  apply Finset.sum_congr rfl
  intro g _
  rw [logical_sum]
  simp only [weight_code]

theorem naturalElement_eq (k : Nat) (b : Nat → BitVec 8) (s : Nat → BitVec 32) (ni : Nat) (logical act : Nat → BitVec 16)
    (permuted : ∀ g < k / 32, ∀ lane < 32, act (32 * g + lane) = logical (32 * g + naturalPlace lane)) :
    element (fun w act => dpbf16 act (mxfp4ToBf16x32Natural w)) (k / 32) s (fun i => b (BufferB.getSubmat k ni 0 + i)) act =
      groupSum k s b logical ni := by
  rw [element_eq, groupSum]
  apply Finset.sum_congr rfl
  intro g inRange
  rw [natural_dot _ (fun i => logical (32 * g + i)) _ (permuted g (Finset.mem_range.mp inRange))]
  simp only [weight_code]

theorem groupSum_product {k mi : Nat} (whole : k % 32 = 0) (src : Nat → BitVec 16) (b d : Nat → BitVec 8) (ni : Nat)
    {s : Nat → BitVec 32} {row : Nat → BitVec 16} (scales : ∀ g < k / 32, s g = loadFloat d (ni * (k / 32) + g))
    (activations : ∀ i < k, row i = src (mi * k + i)) : groupSum k s b row ni = product k 32 src b d mi ni := by
  have count : k / 32 * 32 = k := by omega
  have blocks := sum_blocks (fun place => bf16Value (src (mi * k + place)) * weight k b ni place *
    floatValue (loadFloat d (ni * (k / 32) + place / 32))) (k / 32) 32
  rw [count] at blocks
  rw [product, blocks, groupSum]
  apply Finset.sum_congr rfl
  intro g inRange
  have inGroups := Finset.mem_range.mp inRange
  rw [scales g inGroups, Finset.mul_sum]
  apply Finset.sum_congr rfl
  intro place inGroup
  have inside := Finset.mem_range.mp inGroup
  have group : (g * 32 + place) / 32 = g := by omega
  rw [activations _ (by omega), group, Nat.mul_comm 32, mul_comm]

end KtKernel.Amx.Mxfp4
