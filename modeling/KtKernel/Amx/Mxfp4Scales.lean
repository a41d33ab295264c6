import KtKernel.Amx.Mxfp4Kernels
import Mathlib.Data.Nat.Bitwise

namespace KtKernel.Amx.Mxfp4

open KtKernel.Data

/-! The scales of the MXFP4 kernels: the compaction in place, and the pointers to a row. -/

theorem and_high (bits : BitVec 32) : bits &&& (0x80000000 : BitVec 32) = 0 ↔ bits.toNat < 2 ^ 31 := by
  have mask : (0x80000000 : BitVec 32).toNat = 2 ^ 31 := by decide
  have small := bits.isLt
  have bit : bits.toNat.testBit 31 = decide (bits.toNat / 2 ^ 31 % 2 = 1) := Nat.testBit_eq_decide_div_mod_eq
  have number : (bits &&& (0x80000000 : BitVec 32)).toNat = (bits.toNat.testBit 31).toNat * 2 ^ 31 := by
    rw [BitVec.toNat_and, mask, Nat.and_two_pow]
  constructor
  · intro zero
    rw [zero, bit] at number
    by_contra large
    have one : bits.toNat / 2 ^ 31 % 2 = 1 := by omega
    rw [decide_eq_true one] at number
    exact absurd number (by decide)
  · intro less
    apply BitVec.eq_of_toNat_eq
    have none : ¬ bits.toNat / 2 ^ 31 % 2 = 1 := by omega
    rw [number, bit, decide_eq_false none]
    rfl

theorem exponent_toNat (bits : BitVec 32) : (exponent bits).toNat = bits.toNat / 2 ^ 23 % 2 ^ 8 := by
  have mask : (0xFF : BitVec 32).toNat = 2 ^ 8 - 1 := by decide
  rw [exponent, BitVec.toNat_and, mask, Nat.and_two_pow_sub_one_eq_mod, BitVec.toNat_ushiftRight, Nat.shiftRight_eq_div_pow]

theorem expandExponent_toNat (byte : BitVec 8) : (expandExponent byte).toNat = byte.toNat * 2 ^ 23 := by
  have small := byte.isLt
  rw [expandExponent, BitVec.toNat_shiftLeft, BitVec.toNat_setWidth, Nat.shiftLeft_eq]
  omega

theorem expand_exponent {bits : BitVec 32} (power : isPositivePowerOfTwo bits = true) :
    expandExponent ((exponent bits).truncate 8) = bits := by
  simp only [isPositivePowerOfTwo, Bool.and_eq_true, decide_eq_true_eq] at power
  obtain ⟨⟨⟨sign, fraction⟩, -⟩, -⟩ := power
  have positive := (and_high bits).mp sign
  have mask : (0x007FFFFF : BitVec 32).toNat = 2 ^ 23 - 1 := by decide
  have alone : bits.toNat % 2 ^ 23 = 0 := by
    have number := congrArg BitVec.toNat fraction
    rwa [BitVec.toNat_and, mask, Nat.and_two_pow_sub_one_eq_mod] at number
  apply BitVec.eq_of_toNat_eq
  rw [expandExponent_toNat, BitVec.truncate_eq_setWidth, BitVec.toNat_setWidth, exponent_toNat]
  omega

/-! ## The compaction -/

theorem foldl_and {α : Type} (holds : α → Bool) (items : List α) (start : Bool) :
    items.foldl (fun valid item => valid && holds item) start = (start && items.all holds) := by
  induction items generalizing start with
  | nil => rw [List.foldl_nil, List.all_nil, Bool.and_true]
  | cons item rest induction => rw [List.foldl_cons, induction, List.all_cons, Bool.and_assoc]

/-- Byte `i` of the compaction is below every float that is still to be read. -/
theorem compacted (d : Nat → BitVec 8) (count : Nat) :
    let after := (List.range count).foldl (fun d i => Function.update d i ((exponent (loadFloat d i)).truncate 8)) d
    (∀ i < count, after i = (exponent (loadFloat d i)).truncate 8) ∧ ∀ cell, count ≤ cell → after cell = d cell := by
  induction count with
  | zero => exact ⟨fun i inside => absurd inside (Nat.not_lt_zero i), fun _ _ => rfl⟩
  | succ count induction =>
      obtain ⟨below, above⟩ := induction
      dsimp only at below above ⊢
      rw [List.range_succ, List.foldl_append, List.foldl_cons, List.foldl_nil]
      generalize (List.range count).foldl (fun d i => Function.update d i ((exponent (loadFloat d i)).truncate 8)) d = middle at below above
      have unread : loadFloat middle count = loadFloat d count := by
        rw [loadFloat, above _ (by omega), above _ (by omega), above _ (by omega), above _ (by omega), loadFloat]
      constructor
      · intro i inside
        by_cases last : i = count
        · rw [last, Function.update_self, unread]
        · rw [Function.update_of_ne last, below i (by omega)]
      · intro cell beyond
        rw [Function.update_of_ne (by omega), above cell (by omega)]

namespace BufferB

variable {bb : BufferB} {n k groupSize : Nat} {b d : Nat → BitVec 8}

theorem init_ok : init n k groupSize b d = .ok bb ↔
    (n % 32 = 0 ∧ k % 32 = 0 ∧ k % groupSize = 0) ∧ bb = ⟨b, d, n, k, groupSize, k / groupSize, false⟩ := by
  rw [init, require_bind_ok]
  have shape : (!(n % nStep ≠ 0 || k % kStep ≠ 0 || k % groupSize ≠ 0)) = true ↔ n % 32 = 0 ∧ k % 32 = 0 ∧ k % groupSize = 0 := by
    show (!(n % 32 ≠ 0 || k % 32 ≠ 0 || k % groupSize ≠ 0)) = true ↔ _
    simp [and_assoc]
  constructor
  · rintro ⟨accepted, built⟩
    cases built
    exact ⟨shape.mp accepted, rfl⟩
  · rintro ⟨accepted, rfl⟩
    exact ⟨shape.mpr accepted, rfl⟩

/-- What the compaction leaves besides the bytes of the scales. -/
theorem finalize_same (bb : BufferB) : bb.finalizeScaleE8.b = bb.b ∧ bb.finalizeScaleE8.n = bb.n ∧ bb.finalizeScaleE8.k = bb.k ∧
    bb.finalizeScaleE8.kGroupSize = bb.kGroupSize ∧ bb.finalizeScaleE8.kGroupCount = bb.kGroupCount := by
  rw [finalizeScaleE8]
  split
  · exact ⟨rfl, rfl, rfl, rfl, rfl⟩
  · exact ⟨rfl, rfl, rfl, rfl, rfl⟩

theorem finalize_valid : bb.finalizeScaleE8.scaleE8Valid = true ↔
    ∀ i < bb.n * bb.kGroupCount, isPositivePowerOfTwo (loadFloat bb.d i) = true := by
  have all : ((List.range (bb.n * bb.kGroupCount)).foldl (fun valid i => valid && isPositivePowerOfTwo (loadFloat bb.d i)) true) = true ↔
      ∀ i < bb.n * bb.kGroupCount, isPositivePowerOfTwo (loadFloat bb.d i) = true := by
    rw [foldl_and, Bool.true_and, List.all_eq_true]
    simp only [List.mem_range]
  rw [← all, finalizeScaleE8]
  split
  next valid => exact ⟨fun _ => valid, fun _ => rfl⟩
  next invalid => exact ⟨fun absurd => Bool.noConfusion absurd, fun valid => absurd valid invalid⟩

theorem finalize_rejected (invalid : bb.finalizeScaleE8.scaleE8Valid = false) : bb.finalizeScaleE8.d = bb.d := by
  rw [finalizeScaleE8] at invalid ⊢
  split
  next valid =>
    rw [if_pos valid] at invalid
    exact Bool.noConfusion invalid
  next => rfl

theorem finalize_accepted (valid : bb.finalizeScaleE8.scaleE8Valid = true) {i : Nat} (inside : i < bb.n * bb.kGroupCount) :
    bb.finalizeScaleE8.d i = (exponent (loadFloat bb.d i)).truncate 8 := by
  rw [finalizeScaleE8] at valid ⊢
  split
  next => exact (compacted bb.d _).1 i inside
  next invalid =>
    rw [if_neg invalid] at valid
    exact Bool.noConfusion valid

theorem compacts (bb : BufferB) : bb.Compacts := by
  constructor
  · intro valid i inside
    rw [finalize_accepted valid inside]
    exact expand_exponent (finalize_valid.mp valid i inside)
  · exact finalize_rejected

def scale (bb : BufferB) (row g : Nat) : BitVec 32 :=
  if bb.scaleE8Valid then expandExponent (bb.d (row * bb.kGroupCount + g)) else loadFloat bb.d (row * bb.kGroupCount + g)

theorem finalize_scale (bb : BufferB) {row g : Nat} (inRows : row < bb.n) (inRow : g < bb.kGroupCount) :
    bb.finalizeScaleE8.scale row g = loadFloat bb.d (row * bb.kGroupCount + g) := by
  obtain ⟨keeps, rejects⟩ := bb.compacts
  obtain ⟨-, -, -, -, count⟩ := bb.finalize_same
  have inside : row * bb.kGroupCount + g < bb.n * bb.kGroupCount := by
    have rows := Nat.mul_le_mul_right bb.kGroupCount (show row + 1 ≤ bb.n from inRows)
    rw [Nat.succ_mul] at rows
    omega
  rw [scale, count]
  split
  next valid => exact keeps valid _ inside
  next invalid => rw [rejects (Bool.eq_false_of_not_eq_true invalid)]

end BufferB

section

variable {count destination : Nat}

theorem expand_inside (source : Nat → BitVec 8) (cells : Nat → BitVec 32) {g : Nat} (inside : g < count) :
    expandE8Scales source destination count cells (destination + g) = expandExponent (source g) := by
  apply runSteps_agreed fun memory => memory
  · intro step member
    rcases List.mem_append.mp member with inVectors | inRest
    · obtain ⟨block, -, rfl⟩ := List.mem_map.mp inVectors
      apply put_known
      intro above below
      have place : 16 * block + (destination + g - (destination + 16 * block)) = g := by omega
      rw [place]
    · obtain ⟨group, -, rfl⟩ := List.mem_map.mp inRest
      apply put_known
      intro above below
      have place : group = g := by omega
      rw [place]
  · by_cases vector : g < count / 16 * 16
    · refine ⟨_, List.mem_append_left _ (List.mem_map_of_mem (List.mem_range.mpr (show g / 16 < count / 16 by omega))), ?_⟩
      intro memory
      have place : destination + g = destination + 16 * (g / 16) + g % 16 := by omega
      have group : 16 * (g / 16) + g % 16 = g := Nat.div_add_mod g 16
      rw [place, put_inside _ _ (Nat.mod_lt g (by decide)), group]
    · refine ⟨_, List.mem_append_right _ (List.mem_map_of_mem (List.mem_range'_1.mpr (show _ ≤ g ∧ g < _ by omega))), ?_⟩
      intro memory
      exact put_inside _ memory Nat.one_pos

theorem expand_outside (source : Nat → BitVec 8) (cells : Nat → BitVec 32) {cell : Nat}
    (outside : cell < destination ∨ destination + count ≤ cell) : expandE8Scales source destination count cells cell = cells cell := by
  apply runSteps_kept fun memory => memory
  intro step member memory
  rcases List.mem_append.mp member with inVectors | inRest
  · obtain ⟨block, inRange, rfl⟩ := List.mem_map.mp inVectors
    have inBlocks := List.mem_range.mp inRange
    exact put_outside _ memory (by omega)
  · obtain ⟨group, inRange, rfl⟩ := List.mem_map.mp inRest
    have inGroups := List.mem_range'_1.mp inRange
    exact put_outside _ memory (by omega)

/-- Four rows of the scratch, written one after the other. -/
def expandFour (source : Nat → Nat → BitVec 8) (rows : Nat → Nat) (count : Nat) (cells : Nat → BitVec 32) : Nat → BitVec 32 :=
  let expand := fun j => expandE8Scales (source j) (rows j * maxGroupCount) count
  expand 3 (expand 2 (expand 1 (expand 0 cells)))

theorem expandFour_row (source : Nat → Nat → BitVec 8) {rows : Nat → Nat} (cells : Nat → BitVec 32)
    (apart : ∀ i < 4, ∀ j < 4, i ≠ j → rows i ≠ rows j) (fits : count ≤ maxGroupCount) {j g : Nat} (inFour : j < 4) (inside : g < count) :
    expandFour source rows count cells (rows j * maxGroupCount + g) = expandExponent (source j g) := by
  have other : ∀ i < 4, i ≠ j → ∀ cells, expandE8Scales (source i) (rows i * maxGroupCount) count cells (rows j * maxGroupCount + g) =
      cells (rows j * maxGroupCount + g) := by
    intro i inFour' different cells
    apply expand_outside
    rcases Nat.lt_or_gt_of_ne (apart i inFour' j inFour different) with less | more
    · have gap := Nat.mul_le_mul_right maxGroupCount (show rows i + 1 ≤ rows j from less)
      rw [Nat.succ_mul] at gap
      omega
    · have gap := Nat.mul_le_mul_right maxGroupCount (show rows j + 1 ≤ rows i from more)
      rw [Nat.succ_mul] at gap
      omega
  have own : ∀ cells, expandE8Scales (source j) (rows j * maxGroupCount) count cells (rows j * maxGroupCount + g) = expandExponent (source j g) :=
    fun cells => expand_inside (source j) cells inside
  simp only [expandFour]
  rcases (show j = 0 ∨ j = 1 ∨ j = 2 ∨ j = 3 by omega) with rfl | rfl | rfl | rfl
  · rw [other 3 (by decide) (by decide), other 2 (by decide) (by decide), other 1 (by decide) (by decide), own]
  · rw [other 3 (by decide) (by decide), other 2 (by decide) (by decide), own]
  · rw [other 3 (by decide) (by decide), own]
  · rw [own]

end

/-! ## Pointers -/

/-- The row of the scratch that a slot stands for. -/
def slotRow (slot : BitVec 32) : Nat :=
  (slot &&& (3 : BitVec 32)).toNat

theorem slotRow_add (slot : BitVec 32) (j : Nat) : slotRow (slot + BitVec.ofNat 32 j) = (slot.toNat + j) % 4 := by
  have mask : (3 : BitVec 32).toNat = 2 ^ 2 - 1 := by decide
  rw [slotRow, BitVec.toNat_and, mask, Nat.and_two_pow_sub_one_eq_mod, BitVec.toNat_add, BitVec.toNat_ofNat]
  omega

namespace BufferB

variable {bb : BufferB} {k nPos : Nat}

theorem getScale_float (invalid : bb.scaleE8Valid = false) (nBegin k : Nat) (scratch : Scratch) :
    bb.getScale nBegin k 0 scratch = (.d (nBegin * (k / bb.kGroupSize) + 0 / bb.kGroupSize), scratch) := by
  rw [getScale, invalid]
  rfl

theorem getScale_byte (valid : bb.scaleE8Valid = true) (nBegin k : Nat) (scratch : Scratch) :
    bb.getScale nBegin k 0 scratch = (.scratch (slotRow scratch.slot * maxGroupCount),
      ⟨expandE8Scales (fun i => bb.d (bb.getScaleE8 nBegin 0 + i)) (slotRow scratch.slot * maxGroupCount) (k / bb.kGroupSize) scratch.cells,
        scratch.slot + 1⟩) := by
  rw [getScale, valid]
  rfl

theorem getScaleE8_row (bb : BufferB) (nBegin : Nat) : bb.getScaleE8 nBegin 0 = nBegin * bb.kGroupCount := by
  rw [getScaleE8, Nat.zero_div, Nat.add_zero]

/-- A pointer right after its call. -/
theorem getScale_reads (groups : k / bb.kGroupSize = bb.kGroupCount) (nBegin : Nat) (scratch : Scratch) {g : Nat}
    (inside : g < bb.kGroupCount) :
    (bb.getScale nBegin k 0 scratch).1.read bb (bb.getScale nBegin k 0 scratch).2.cells g = bb.scale nBegin g := by
  cases valid : bb.scaleE8Valid with
  | false =>
      rw [getScale_float valid, scale, valid, if_neg (by decide), groups, Nat.zero_div, Nat.add_zero]
      rfl
  | true =>
      rw [getScale_byte valid, scale, valid, if_pos rfl, groups, ← getScaleE8_row]
      exact expand_inside (fun i => bb.d (bb.getScaleE8 nBegin 0 + i)) _ inside

/-- The scratch after the four calls of a block, with its four rows. -/
theorem getScales_byte (valid : bb.scaleE8Valid = true) (nPos k : Nat) (scratch : Scratch) :
    let rows := fun j => (scratch.slot.toNat + j) % 4
    (∀ j < 4, (bb.getScales nPos k scratch).1 j = .scratch (rows j * maxGroupCount)) ∧
      (bb.getScales nPos k scratch).2.cells =
        expandFour (fun j i => bb.d ((nPos + j) * bb.kGroupCount + i)) rows (k / bb.kGroupSize) scratch.cells := by
  have row : ∀ j, (scratch.slot.toNat + j) % 4 = slotRow (scratch.slot + BitVec.ofNat 32 j) := fun j => (slotRow_add _ j).symm
  have second : scratch.slot + 1 + 1 = scratch.slot + BitVec.ofNat 32 2 := BitVec.add_assoc _ _ _
  have third : scratch.slot + BitVec.ofNat 32 2 + 1 = scratch.slot + BitVec.ofNat 32 3 := BitVec.add_assoc _ _ _
  have first : scratch.slot = scratch.slot + BitVec.ofNat 32 0 := (BitVec.add_zero _).symm
  dsimp only
  constructor
  · intro j inFour
    rw [getScales]
    simp only [getScale_byte valid, second, third]
    rcases (show j = 0 ∨ j = 1 ∨ j = 2 ∨ j = 3 by omega) with rfl | rfl | rfl | rfl
    · rw [row, ← first]
      rfl
    · rw [row]
      rfl
    · rw [row]
      rfl
    · rw [row]
      rfl
  · rw [getScales]
    simp only [getScale_byte valid, getScaleE8_row, second, third, expandFour, row, ← first]
    rfl

/-- The pointers of a block show the scales of their rows, when a row of scales fits a slot. -/
theorem getScales_reads (groups : k / bb.kGroupSize = bb.kGroupCount) (fits : bb.kGroupCount ≤ maxGroupCount) (nPos : Nat)
    (scratch : Scratch) {j g : Nat} (inFour : j < 4) (inside : g < bb.kGroupCount) :
    ((bb.getScales nPos k scratch).1 j).read bb (bb.getScales nPos k scratch).2.cells g = bb.scale (nPos + j) g := by
  cases valid : bb.scaleE8Valid with
  | false =>
      rw [getScales, scale, valid, if_neg (by decide)]
      simp only [getScale_float valid, groups, Nat.zero_div, Nat.add_zero]
      rcases (show j = 0 ∨ j = 1 ∨ j = 2 ∨ j = 3 by omega) with rfl | rfl | rfl | rfl
      · rw [List.getD_cons_zero, ScalePtr.read, Nat.add_zero]
      · rw [List.getD_cons_succ, List.getD_cons_zero, ScalePtr.read]
      · rw [List.getD_cons_succ, List.getD_cons_succ, List.getD_cons_zero, ScalePtr.read]
      · rw [List.getD_cons_succ, List.getD_cons_succ, List.getD_cons_succ, List.getD_cons_zero, ScalePtr.read]
  | true =>
      obtain ⟨pointers, cells⟩ := getScales_byte valid nPos k scratch
      have apart : ∀ i < 4, ∀ j < 4, i ≠ j → (scratch.slot.toNat + i) % 4 ≠ (scratch.slot.toNat + j) % 4 := by
        intro i _ j _ different
        omega
      have row := expandFour_row (fun j i => bb.d ((nPos + j) * bb.kGroupCount + i)) scratch.cells apart fits inFour inside
      rw [pointers j inFour, cells, groups, scale, valid, if_pos rfl]
      exact row

end BufferB

end KtKernel.Amx.Mxfp4
