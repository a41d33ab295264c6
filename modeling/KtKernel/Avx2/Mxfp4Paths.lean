import KtKernel.Avx2.Mxfp4Gemm
import KtKernel.Avx2.PackedOrder
import KtKernel.Data.Loops
import KtKernel.Data.Panels
import Mathlib.Algebra.BigOperators.Ring.Finset

namespace KtKernel.Avx2.Mxfp4

open KtKernel.Data

/-! What each path of the MXFP4 product computes. -/

variable {lane : Nat}

/-! ## Decoding -/

theorem fp4_table : ∀ nib < 16, bf16Value (fp4Bf16Hi.getD nib 0 ++ fp4Bf16Lo.getD nib 0) = e2m1 nib := by
  decide +kernel

theorem fp4Scalar_eq {nib : BitVec 8} (inTable : nib.toNat < 16) : fp4Scalar nib = e2m1 nib.toNat :=
  fp4_table nib.toNat inTable

/-- A word that is looked up in the two tables. -/
theorem shuffled_value (nibbles : Nat → BitVec 8) (inTable : ∀ place, (nibbles place).toNat < 16) (place : Nat) :
    bf16Value (shuffleEpi8 fp4Bf16Hi nibbles place ++ shuffleEpi8 fp4Bf16Lo nibbles place) = e2m1 (nibbles place).toNat := by
  rw [shuffleEpi8_nibble _ (inTable place), shuffleEpi8_nibble _ (inTable place)]
  exact fp4_table _ (inTable place)

def code (bRow : Nat → BitVec 8) (place : Nat) : ℚ :=
  e2m1 (nibbleOf (bRow (place / 2)) place).toNat

theorem lowNibble_lt (byte : BitVec 8) : (byte &&& (0x0F : BitVec 8)).toNat < 16 :=
  nibbleOf_lt byte 0

theorem highNibble_lt (byte : BitVec 8) : (byte >>> 4).toNat < 16 :=
  nibbleOf_lt byte 1

theorem fp4x8ToFp32_eq (packed : Nat → BitVec 8) (inside : lane < 8) : fp4x8ToFp32 packed lane = code packed lane := by
  have word : lane / 2 / 8 * 16 + lane / 2 % 8 = lane / 2 := by omega
  have byte : lane / 2 < 4 := by omega
  simp only [fp4x8ToFp32, srliEpi16_nibble]
  rw [unpacklo_first _ _ inside, code, nibbleOf]
  split
  · rw [words16_unpacklo, word, shuffled_value _ fun _ => lowNibble_lt _, if_pos byte]
  · rw [words16_unpacklo, word, shuffled_value _ fun _ => highNibble_lt _, if_pos byte]

/-! ## The order of the decoder -/

theorem kPerm_eq : ∀ place < 32, kPerm.getD place 0 = 2 * (place / 8 * 4 + place % 4) + place % 8 / 4 := by
  decide

/-- Words unpacked above zeros are floats. -/
theorem zeros_below (u16 : Nat → BitVec 16) (lane : Nat) :
    unpacklo 8 (fun _ => (0 : BitVec 16)) u16 (2 * lane + 1) ++ unpacklo 8 (fun _ => (0 : BitVec 16)) u16 (2 * lane) =
        u16 (lane / 4 * 8 + lane % 4) ++ (0 : BitVec 16) ∧
      unpackhi 8 (fun _ => (0 : BitVec 16)) u16 (2 * lane + 1) ++ unpackhi 8 (fun _ => (0 : BitVec 16)) u16 (2 * lane) =
        u16 (lane / 4 * 8 + 4 + lane % 4) ++ (0 : BitVec 16) := by
  have low : (2 * lane + 1) / 8 * 8 + (2 * lane + 1) % 8 / 2 = lane / 4 * 8 + lane % 4 := by omega
  have high : (2 * lane + 1) / 8 * 8 + 8 / 2 + (2 * lane + 1) % 8 / 2 = lane / 4 * 8 + 4 + lane % 4 := by omega
  have odd : ¬ (2 * lane + 1) % 2 = 0 := by omega
  have even : 2 * lane % 2 = 0 := by omega
  constructor
  · simp only [unpacklo, if_neg odd, if_pos even, low]
  · simp only [unpackhi, if_neg odd, if_pos even, high]

/-- The low nibbles of sixteen bytes and then the high ones. -/
def splitNibbles (raw : Nat → BitVec 8) : Nat → BitVec 8 :=
  halves 16 (fun i => raw i &&& (0x0F : BitVec 8)) fun i => raw i >>> 4

theorem splitNibbles_lt (raw : Nat → BitVec 8) (place : Nat) : (splitNibbles raw place).toNat < 16 := by
  rw [splitNibbles, halves]
  split
  · exact lowNibble_lt _
  · exact highNibble_lt _

theorem splitNibbles_eq (raw : Nat → BitVec 8) {byte half : Nat} (inHalf : byte < 16) (inHalves : half < 2) :
    splitNibbles raw (half * 16 + byte) = nibbleOf (raw byte) half := by
  rw [splitNibbles, halves, nibbleOf]
  by_cases low : half = 0
  · rw [low, if_pos (by omega), if_pos rfl, Nat.zero_mul, Nat.zero_add]
  · have high : half = 1 := by omega
    rw [high, if_neg (by omega), if_neg (by decide), Nat.one_mul, Nat.add_sub_cancel_left]

/-- The words of half of the bytes, by a register's number. -/
theorem unpacked_value (raw : Nat → BitVec 8) (register word : Nat) :
    bf16Value (words16 (if register < 2 then unpacklo 16 (shuffleEpi8 fp4Bf16Lo (splitNibbles raw)) (shuffleEpi8 fp4Bf16Hi (splitNibbles raw))
        else unpackhi 16 (shuffleEpi8 fp4Bf16Lo (splitNibbles raw)) (shuffleEpi8 fp4Bf16Hi (splitNibbles raw))) word) =
      e2m1 (splitNibbles raw (word / 8 * 16 + ((if register < 2 then 0 else 8) + word % 8))).toNat := by
  split
  · rw [words16_unpacklo, shuffled_value _ (splitNibbles_lt raw), Nat.zero_add]
  · rw [words16_unpackhi, shuffled_value _ (splitNibbles_lt raw), Nat.add_assoc]

/-- The lanes of a register are the codes of the group in the order of `kPerm`. -/
theorem decodeGroup_eq (raw : Nat → BitVec 8) {register : Nat} (inGroup : register < 4) (inside : lane < 8) :
    decodeGroup raw register lane = code raw (kPerm.getD (register * 8 + lane) 0) := by
  have float : decodeGroup raw register lane = bf16Value (words16 (if register < 2 then
        unpacklo 16 (shuffleEpi8 fp4Bf16Lo (splitNibbles raw)) (shuffleEpi8 fp4Bf16Hi (splitNibbles raw))
      else unpackhi 16 (shuffleEpi8 fp4Bf16Lo (splitNibbles raw)) (shuffleEpi8 fp4Bf16Hi (splitNibbles raw)))
        (lane / 4 * 8 + ((if register % 2 = 0 then 0 else 4) + lane % 4))) := by
    simp only [decodeGroup, srliEpi16_nibble, splitNibbles]
    rw [bf16Value]
    split
    · rw [(zeros_below _ lane).1, Nat.zero_add]
    · rw [(zeros_below _ lane).2, Nat.add_assoc]
  have place : (lane / 4 * 8 + ((if register % 2 = 0 then 0 else 4) + lane % 4)) / 8 * 16 + ((if register < 2 then 0 else 8) +
      (lane / 4 * 8 + ((if register % 2 = 0 then 0 else 4) + lane % 4)) % 8) = lane / 4 * 16 + (register * 4 + lane % 4) := by
    split <;> split <;> omega
  have byte : (2 * (register * 4 + lane % 4) + lane / 4) / 2 = register * 4 + lane % 4 := by omega
  have parity : (2 * (register * 4 + lane % 4) + lane / 4) % 2 = lane / 4 % 2 := by omega
  have row : (register * 8 + lane) / 8 * 4 + (register * 8 + lane) % 4 = register * 4 + lane % 4 := by omega
  have half : (register * 8 + lane) % 8 / 4 = lane / 4 := by omega
  rw [float, unpacked_value, place, splitNibbles_eq raw (by omega) (by omega), kPerm_eq _ (by omega), row, half, code, byte, nibbleOf,
    nibbleOf, parity]

/-! ## The fast paths -/

theorem code_shift (bRow : Nat → BitVec 8) (start place : Nat) :
    code (fun i => bRow (start + i)) place = code bRow (start * 2 + place) := by
  have byte : (start * 2 + place) / 2 = start + place / 2 := by omega
  have parity : (start * 2 + place) % 2 = place % 2 := by omega
  rw [code, code, byte, nibbleOf, nibbleOf, parity]

/-- The order of the decoder stays within the halves of a group. -/
theorem kPerm_sum (f : Nat → ℚ) :
    (∑ lane ∈ Finset.range 8, (f (kPerm.getD (0 * 8 + lane) 0) + f (kPerm.getD ((0 + 1) * 8 + lane) 0)) =
        ∑ place ∈ Finset.range 16, f place) ∧
      ∑ lane ∈ Finset.range 8, (f (kPerm.getD (2 * 8 + lane) 0) + f (kPerm.getD ((2 + 1) * 8 + lane) 0)) =
        ∑ place ∈ Finset.range 16, f (16 + place) := by
  constructor
  · simp only [Finset.sum_range_succ, Finset.sum_range_zero, kPerm, List.getD_cons_succ, List.getD_cons_zero, Nat.zero_mul, Nat.zero_add]
    ring
  · simp only [Finset.sum_range_succ, Finset.sum_range_zero, kPerm, List.getD_cons_succ, List.getD_cons_zero]
    ring

/-- A row in the order of the decoder. -/
def InOrder (k : Nat) (a p : Nat → ℚ) : Prop :=
  ∀ i < k, p i = a (i / 32 * 32 + kPerm.getD (i % 32) 0)

variable {k : Nat} {a p : Nat → ℚ}

/-- The product of an activation and its weight. -/
def term (a : Nat → ℚ) (bRow : Nat → BitVec 8) (place : Nat) : ℚ :=
  a place * code bRow place

theorem halfLanes_eq (inOrder : InOrder k a p) (bRow : Nat → BitVec 8) {g first : Nat} (inRow : g * 32 + 32 ≤ k)
    (inGroup : first + 1 < 4) (inside : lane < 8) :
    halfLanes p bRow g first lane =
      term a bRow (g * 32 + kPerm.getD (first * 8 + lane) 0) + term a bRow (g * 32 + kPerm.getD ((first + 1) * 8 + lane) 0) := by
  have activation : ∀ register < 4, p (g * 32 + register * 8 + lane) = a (g * 32 + kPerm.getD (register * 8 + lane) 0) := by
    intro register inGroup
    have block : (g * 32 + register * 8 + lane) / 32 * 32 = g * 32 := by omega
    have place : (g * 32 + register * 8 + lane) % 32 = register * 8 + lane := by omega
    rw [inOrder _ (by omega), block, place]
  have start : g * 16 * 2 = g * 32 := by omega
  rw [halfLanes, activation first (by omega), activation (first + 1) inGroup]
  rw [decodeGroup_eq _ (by omega) inside, decodeGroup_eq _ inGroup inside, code_shift, code_shift, start]
  rfl

theorem halfLanes_sum (inOrder : InOrder k a p) (bRow : Nat → BitVec 8) {g : Nat} (inRow : g * 32 + 32 ≤ k) :
    (∑ lane ∈ Finset.range 8, halfLanes p bRow g 0 lane = ∑ place ∈ Finset.range 16, term a bRow (g * 32 + place)) ∧
      ∑ lane ∈ Finset.range 8, halfLanes p bRow g 2 lane = ∑ place ∈ Finset.range 16, term a bRow (g * 32 + (16 + place)) := by
  obtain ⟨low, high⟩ := kPerm_sum fun place => term a bRow (g * 32 + place)
  constructor
  · rw [← low]
    apply Finset.sum_congr rfl
    intro lane inLanes
    exact halfLanes_eq inOrder bRow inRow (by decide) (Finset.mem_range.mp inLanes)
  · rw [← high]
    apply Finset.sum_congr rfl
    intro lane inLanes
    exact halfLanes_eq inOrder bRow inRow (by decide) (Finset.mem_range.mp inLanes)

theorem fast32Lanes_sum (inOrder : InOrder k a p) (bRow : Nat → BitVec 8) {g : Nat} (inRow : g * 32 + 32 ≤ k) :
    ∑ lane ∈ Finset.range 8, fast32Lanes p bRow g lane = ∑ place ∈ Finset.range 32, term a bRow (g * 32 + place) := by
  obtain ⟨low, high⟩ := halfLanes_sum inOrder bRow inRow
  have lanes : ∀ lane, fast32Lanes p bRow g lane = halfLanes p bRow g 0 lane + halfLanes p bRow g 2 lane := by
    intro lane
    rw [fast32Lanes, add_assoc]
    rfl
  have split := Finset.sum_range_add (fun place => term a bRow (g * 32 + place)) 16 16
  rw [split, ← low, ← high, ← Finset.sum_add_distrib]
  exact Finset.sum_congr rfl fun lane _ => lanes lane

/-- The sum over the groups of a row. -/
def rowProduct (a : Nat → ℚ) (bRow : Nat → BitVec 8) (bScales : Nat → ℚ) (groupCount groupSize : Nat) : ℚ :=
  ∑ g ∈ Finset.range groupCount, bScales g * ∑ i ∈ Finset.range groupSize, term a bRow (g * groupSize + i)

variable {groupCount groupSize : Nat} {bRow : Nat → BitVec 8} {bScales : Nat → ℚ}

theorem fast32Block_eq (inOrder : InOrder k a p) (whole : groupCount * 32 = k) (bRow : Nat → BitVec 8) (bScales : Nat → ℚ) :
    fast32Block p bRow bScales groupCount = rowProduct a bRow bScales groupCount 32 := by
  rw [fast32Block, hsumMovehl_eq]
  simp only [foldl_lanes, zero_add]
  rw [Finset.sum_comm]
  apply Finset.sum_congr rfl
  intro g inRange
  have inRow : g * 32 + 32 ≤ k := by
    have inGroups := Finset.mem_range.mp inRange
    omega
  rw [← Finset.sum_mul, fast32Lanes_sum inOrder bRow inRow, mul_comm]

/-- The totals of the even and of the odd groups. -/
theorem parity_totals (f : Nat → Nat → ℚ) (count lane : Nat) :
    let totals := (List.range count).foldl (fun (totals : (Nat → ℚ) × (Nat → ℚ)) g =>
      if g % 2 = 1 then (totals.1, fun lane => totals.2 lane + f g lane) else (fun lane => totals.1 lane + f g lane, totals.2))
        (fun _ => 0, fun _ => 0)
    totals.1 lane + totals.2 lane = ∑ g ∈ Finset.range count, f g lane := by
  induction count with
  | zero => exact add_zero 0
  | succ count induction =>
      dsimp only at induction ⊢
      rw [List.range_succ, List.foldl_append, List.foldl_cons, List.foldl_nil, Finset.sum_range_succ, ← induction]
      split
      · rw [add_assoc]
      · rw [add_right_comm]

/-- Two totals side by side. -/
theorem half_totals (f h : Nat → Nat → ℚ) (count lane : Nat) :
    let totals := (List.range count).foldl (fun (totals : (Nat → ℚ) × (Nat → ℚ)) blk =>
      (fun lane => totals.1 lane + f blk lane, fun lane => totals.2 lane + h blk lane)) (fun _ => 0, fun _ => 0)
    totals.1 lane + totals.2 lane = ∑ blk ∈ Finset.range count, (f blk lane + h blk lane) := by
  induction count with
  | zero => exact add_zero 0
  | succ count induction =>
      dsimp only at induction ⊢
      rw [List.range_succ, List.foldl_append, List.foldl_cons, List.foldl_nil, Finset.sum_range_succ, ← induction]
      exact add_add_add_comm _ _ _ _

theorem fast32Single_eq (inOrder : InOrder k a p) (whole : groupCount * 32 = k) (bRow : Nat → BitVec 8) (bScales : Nat → ℚ) :
    fast32Single p bRow bScales groupCount = rowProduct a bRow bScales groupCount 32 := by
  rw [← fast32Block_eq inOrder whole, fast32Single, fast32Block, hsumMovehl_eq, hsumMovehl_eq]
  apply Finset.sum_congr rfl
  intro lane _
  have totals := parity_totals (fun g lane => fast32Lanes p bRow g lane * bScales g) groupCount lane
  rw [foldl_lanes, zero_add]
  exact totals

theorem fast16Block_eq (inOrder : InOrder k a p) {blockCount : Nat} (whole : blockCount * 32 = k) (bRow : Nat → BitVec 8)
    (bScales : Nat → ℚ) : fast16Block p bRow bScales blockCount = rowProduct a bRow bScales (blockCount * 2) 16 := by
  rw [fast16Block, hsumMovehl_eq, rowProduct, sum_blocks]
  simp only [add_assoc, foldl_lanes, zero_add]
  rw [Finset.sum_comm]
  apply Finset.sum_congr rfl
  intro blk inRange
  have inRow : blk * 32 + 32 ≤ k := by
    have inBlocks := Finset.mem_range.mp inRange
    omega
  obtain ⟨low, high⟩ := halfLanes_sum inOrder bRow inRow
  have even : (blk * 2 + 0) * 16 = blk * 32 := by omega
  have odd : ∀ i, (blk * 2 + 1) * 16 + i = blk * 32 + (16 + i) := by omega
  rw [Finset.sum_add_distrib, ← Finset.sum_mul, ← Finset.sum_mul, low, high, Finset.sum_range_succ _ 1, Finset.sum_range_one,
    even, Nat.mul_comm 2, mul_comm, mul_comm _ (bScales (blk * 2 + 1))]
  simp only [odd, Nat.add_zero]

theorem fast16Single_eq (inOrder : InOrder k a p) {blockCount : Nat} (whole : blockCount * 32 = k) (bRow : Nat → BitVec 8)
    (bScales : Nat → ℚ) : fast16Single p bRow bScales blockCount = rowProduct a bRow bScales (blockCount * 2) 16 := by
  rw [← fast16Block_eq inOrder whole, fast16Single, fast16Block, hsumMovehl_eq, hsumMovehl_eq]
  apply Finset.sum_congr rfl
  intro lane _
  simp only [add_assoc, foldl_lanes, zero_add]
  exact half_totals (fun blk lane => halfLanes p bRow blk 0 lane * bScales (2 * blk))
    (fun blk lane => halfLanes p bRow blk 2 lane * bScales (2 * blk + 1)) blockCount lane

/-! ## The generic paths -/

/-- A product of a group, with the code where the vectors of the group look for it. -/
def stepTerm (a : Nat → ℚ) (bRow : Nat → BitVec 8) (kBase place : Nat) : ℚ :=
  a (kBase + place) * code bRow (kBase / 2 * 2 + place)

theorem stepTerm_even {kBase : Nat} (even : kBase % 2 = 0) (place : Nat) : stepTerm a bRow kBase place = term a bRow (kBase + place) := by
  have start : kBase / 2 * 2 = kBase := by omega
  rw [stepTerm, start, term]

theorem generic8_eq (a : Nat → ℚ) (bRow : Nat → BitVec 8) (kBase : Nat) {ki : Nat} (even : ki % 2 = 0) (offset : Nat) (inside : lane < 8) :
    generic8 a bRow kBase ki offset lane = stepTerm a bRow kBase (ki + 8 * offset + lane) := by
  have activation : kBase + ki + 8 * offset + lane = kBase + (ki + 8 * offset + lane) := by omega
  have place : ((kBase + ki) / 2 + 4 * offset) * 2 + lane = kBase / 2 * 2 + (ki + 8 * offset + lane) := by omega
  rw [generic8, fp4x8ToFp32_eq _ inside, code_shift, activation, place, stepTerm]

def wideLanes (a : Nat → ℚ) (bRow : Nat → BitVec 8) (kBase groupSize lane : Nat) : ℚ :=
  ∑ step ∈ Finset.range (groupSize / 32), ∑ offset ∈ Finset.range 4, generic8 a bRow kBase (step * 32) offset lane

def narrowLanes (a : Nat → ℚ) (bRow : Nat → BitVec 8) (kBase groupSize lane : Nat) : ℚ :=
  ∑ step ∈ Finset.range (groupSize % 32 / 8), generic8 a bRow kBase (groupSize / 32 * 32 + step * 8) 0 lane

def vectorPart (a : Nat → ℚ) (bRow : Nat → BitVec 8) (kBase groupSize : Nat) : ℚ :=
  ∑ place ∈ Finset.range (groupSize / 8 * 8), stepTerm a bRow kBase place

theorem lanes_sum (a : Nat → ℚ) (bRow : Nat → BitVec 8) (kBase groupSize : Nat) :
    ∑ lane ∈ Finset.range 8, (wideLanes a bRow kBase groupSize lane + narrowLanes a bRow kBase groupSize lane) =
      vectorPart a bRow kBase groupSize := by
  rw [vectorPart, ← registers_sum]
  apply Finset.sum_congr rfl
  intro lane inLanes
  have inside := Finset.mem_range.mp inLanes
  rw [wideLanes, narrowLanes]
  congr 1
  · apply Finset.sum_congr rfl
    intro step _
    exact Finset.sum_congr rfl fun offset _ => generic8_eq a bRow kBase (by omega) offset inside
  · apply Finset.sum_congr rfl
    intro step _
    rw [generic8_eq a bRow kBase (by omega) 0 inside, Nat.mul_zero, Nat.add_zero]

theorem groups_sum (a : Nat → ℚ) (bRow : Nat → BitVec 8) (bScales : Nat → ℚ) (groupCount groupSize : Nat) :
    ∑ lane ∈ Finset.range 8, ∑ g ∈ Finset.range groupCount,
        (wideLanes a bRow (g * groupSize) groupSize lane + narrowLanes a bRow (g * groupSize) groupSize lane) * bScales g =
      ∑ g ∈ Finset.range groupCount, bScales g * vectorPart a bRow (g * groupSize) groupSize := by
  rw [Finset.sum_comm]
  apply Finset.sum_congr rfl
  intro g _
  rw [← Finset.sum_mul, lanes_sum, mul_comm]

theorem genericBlock_eq (a : Nat → ℚ) (bRow : Nat → BitVec 8) (bScales : Nat → ℚ) (groupCount groupSize : Nat) :
    genericBlock a bRow bScales groupCount groupSize =
      ∑ g ∈ Finset.range groupCount, bScales g * vectorPart a bRow (g * groupSize) groupSize := by
  have wide (kBase lane : Nat) : (List.range (groupSize / 32)).foldl (fun acc step lane =>
      acc lane + generic8 a bRow kBase (step * 32) 0 lane + generic8 a bRow kBase (step * 32) 1 lane +
        generic8 a bRow kBase (step * 32) 2 lane + generic8 a bRow kBase (step * 32) 3 lane) (fun _ => 0) lane =
      wideLanes a bRow kBase groupSize lane := by
    simp only [add_assoc, foldl_lanes, zero_add, wideLanes, Finset.sum_range_succ, Finset.sum_range_zero]
  rw [← groups_sum, genericBlock, hsumMovehl_eq]
  simp only [foldl_lanes, zero_add, wide]
  rfl

theorem genericSingle_eq (a : Nat → ℚ) (bRow : Nat → BitVec 8) (bScales : Nat → ℚ) (groupCount groupSize : Nat) :
    genericSingle a bRow bScales groupCount groupSize =
      ∑ g ∈ Finset.range groupCount, bScales g * (vectorPart a bRow (g * groupSize) groupSize +
        ∑ i ∈ Finset.range (groupSize - groupSize / 8 * 8), term a bRow (g * groupSize + (groupSize / 8 * 8 + i))) := by
  have tail (g : Nat) (sum : ℚ) : (List.range' (groupSize / 8 * 8) (groupSize - groupSize / 8 * 8)).foldl (fun tail ki =>
      tail + a (g * groupSize + ki) * fp4Scalar (if (g * groupSize + ki) % 2 = 1 then bRow ((g * groupSize + ki) / 2) >>> 4
        else bRow ((g * groupSize + ki) / 2) &&& (0x0F : BitVec 8)) * bScales g) sum =
      sum + bScales g * ∑ i ∈ Finset.range (groupSize - groupSize / 8 * 8), term a bRow (g * groupSize + (groupSize / 8 * 8 + i)) := by
    rw [foldl_range', Finset.mul_sum]
    congr 1
    apply Finset.sum_congr rfl
    intro i _
    rw [term, code, nibbleOf, mul_comm (bScales g)]
    congr 2
    split
    · rw [fp4Scalar_eq (highNibble_lt _), if_neg (by omega)]
    · rw [fp4Scalar_eq (lowNibble_lt _), if_pos (by omega)]
  have wide (kBase lane : Nat) : wideLanes a bRow kBase groupSize lane =
      (List.range (groupSize / 32)).foldl (fun accs step offset lane => accs offset lane + generic8 a bRow kBase (step * 32) offset lane)
          (fun _ _ => 0) 0 lane +
        (List.range (groupSize / 32)).foldl (fun accs step offset lane => accs offset lane + generic8 a bRow kBase (step * 32) offset lane)
          (fun _ _ => 0) 2 lane +
        ((List.range (groupSize / 32)).foldl (fun accs step offset lane => accs offset lane + generic8 a bRow kBase (step * 32) offset lane)
          (fun _ _ => 0) 1 lane +
        (List.range (groupSize / 32)).foldl (fun accs step offset lane => accs offset lane + generic8 a bRow kBase (step * 32) offset lane)
          (fun _ _ => 0) 3 lane) := by
    simp only [foldl_accumulators, wideLanes, Finset.sum_range_succ, Finset.sum_range_zero, zero_add, Finset.sum_add_distrib]
    ring
  simp only [mul_add]
  rw [Finset.sum_add_distrib, ← groups_sum, genericSingle]
  simp only [tail, foldl_lanes_beside, foldl_lanes, ← wide, hsumMovehl_eq]
  rfl

end KtKernel.Avx2.Mxfp4
