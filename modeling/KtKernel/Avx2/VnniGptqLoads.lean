import KtKernel.Avx2.PackedOrder
import KtKernel.Avx2.VnniGptqDots

namespace KtKernel.Avx2.VnniGptq

open KtKernel.Data
open KtKernel.Amx.Quantization (roundEven cvtpsEpi32 roundEven_le le_roundEven roundEven_int)

/-! What the loads of the two kernels leave in their buffers. -/

/-! ## Activations in bytes -/

variable {group : Nat → ℚ} {groupSize i : Nat}

theorem le_groupMax (group : Nat → ℚ) (inside : i < groupSize) : |group i| ≤ groupMax group groupSize := by
  induction groupSize with
  | zero => omega
  | succ groupSize induction =>
      rw [groupMax, List.range_succ, List.foldl_append, List.foldl_cons, List.foldl_nil]
      by_cases last : i = groupSize
      · rw [last]
        exact le_max_right _ _
      · exact (induction (by omega)).trans (le_max_left _ _)

theorem groupMax_congr {other : Nat → ℚ} (same : ∀ i < groupSize, group i = other i) : groupMax group groupSize = groupMax other groupSize := by
  apply List.foldl_ext
  intro largest i inside
  rw [same i (List.mem_range.mp inside)]

theorem hmaxPs_eq (v : Nat → ℚ) (largest : ℚ) :
    max (max (max (max (max (max (max (max largest (v 0)) (v 1)) (v 2)) (v 3)) (v 4)) (v 5)) (v 6)) (v 7) =
      max largest (Packed.hmaxPs v) := by
  simp only [Packed.hmaxPs]
  generalize v 0 = v0, v 1 = v1, v 2 = v2, v 3 = v3, v 4 = v4, v 5 = v5, v 6 = v6, v 7 = v7
  ac_rfl

/-- Eight lanes at a time find the same maximum. -/
theorem vectorMax_eq (group : Nat → ℚ) (vectors : Nat) :
    (List.range vectors).foldl (fun maxAbs vector => max maxAbs (Packed.hmaxPs fun lane => |group (vector * 8 + lane)|)) 0 =
      groupMax group (vectors * 8) := by
  induction vectors with
  | zero => rfl
  | succ vectors induction =>
      rw [groupMax] at induction
      rw [List.range_succ, List.foldl_append, induction, groupMax, Nat.succ_mul, List.range_add, List.foldl_append]
      exact (hmaxPs_eq (fun lane => |group (vectors * 8 + lane)|) _).symm

theorem fltMin_positive : 0 < fltMin := by
  unfold fltMin
  positivity

/-- A scaled activation is within 127, so neither kernel clamps it. -/
theorem scaled_bounds (some_ : ¬ groupMax group groupSize ≤ fltMin) (inside : i < groupSize) :
    -127 ≤ roundEven (group i * (1 / (groupMax group groupSize / 127))) ∧
      roundEven (group i * (1 / (groupMax group groupSize / 127))) ≤ 127 := by
  have positive : 0 < groupMax group groupSize := by
    exact fltMin_positive.trans (not_le.mp some_)
  have ratio : |group i * (1 / (groupMax group groupSize / 127))| ≤ 127 := by
    rw [one_div_div, mul_div_assoc', abs_div, abs_of_pos positive, div_le_iff₀ positive, abs_mul, mul_comm]
    exact mul_le_mul_of_nonneg_left (le_groupMax group inside) (abs_nonneg _)
  obtain ⟨low, high⟩ := abs_le.mp ratio
  exact ⟨le_roundEven (by exact_mod_cast low), roundEven_le (by exact_mod_cast high)⟩

theorem quantized_eq (some_ : ¬ groupMax group groupSize ≤ fltMin) (i : Nat) :
    quantized group groupSize i = roundEven (group i * (1 / (groupMax group groupSize / 127))) + 128 := by
  rw [quantized, if_neg some_, ← div_eq_mul_one_div]

/-- A group of the packed kernel.  An all-zero group has the scale one. -/
theorem Packed.quantizeGroup_eq (group : Nat → ℚ) (whole : 8 ∣ groupSize) :
    (Packed.quantizeGroup group groupSize).1 =
        (if groupMax group groupSize ≤ fltMin then 1 else groupMax group groupSize / 127) ∧
      ∀ i < groupSize, (((Packed.quantizeGroup group groupSize).2 i).toNat : Int) = quantized group groupSize i := by
  have vectors : groupSize / 8 * 8 = groupSize := Nat.div_mul_cancel whole
  simp only [Packed.quantizeGroup, vectorMax_eq, vectors, Nat.sub_self, List.range'_zero, List.foldl_nil]
  by_cases zero : groupMax group groupSize ≤ fltMin
  · simp only [if_pos zero, quantized]
    exact ⟨trivial, fun i _ => rfl⟩
  · simp only [if_neg zero]
    refine ⟨trivial, fun i inside => ?_⟩
    obtain ⟨low, high⟩ := scaled_bounds zero inside
    have rounded : cvtpsEpi32 (roundEven (group i * (1 / (groupMax group groupSize / 127)))) =
        roundEven (group i * (1 / (groupMax group groupSize / 127))) := by
      rw [cvtpsEpi32, roundEven_int, if_pos (by omega)]
    rw [quantized_eq zero, if_pos inside, rounded, Packed.packusEpi16, Packed.packusEpi32, BitVec.toNat_ofInt]
    omega

theorem xor_sign : ∀ byte : BitVec 8, -127 ≤ byte.toInt → ((byte ^^^ 0x80).toNat : Int) = byte.toInt + 128 := by
  decide +kernel

/-- A group of the other kernel.  An all-zero group has the scale zero. -/
theorem Unpacked.quantizeActivationGroupU8_eq (group : Nat → ℚ) (groupSize : Nat) :
    (Unpacked.quantizeActivationGroupU8 group groupSize).1 =
        (if groupMax group groupSize ≤ fltMin then 0 else groupMax group groupSize / 127) ∧
      ∀ i < groupSize, (((Unpacked.quantizeActivationGroupU8 group groupSize).2 i).toNat : Int) = quantized group groupSize i := by
  have largest : (List.range groupSize).foldl (fun absmax i => max absmax |group i|) 0 = groupMax group groupSize := rfl
  simp only [Unpacked.quantizeActivationGroupU8, largest]
  by_cases zero : groupMax group groupSize ≤ fltMin
  · simp only [if_pos zero, quantized]
    exact ⟨trivial, fun i _ => rfl⟩
  · simp only [if_neg zero]
    refine ⟨trivial, fun i inside => ?_⟩
    obtain ⟨low, high⟩ := scaled_bounds zero inside
    have byte : (BitVec.ofInt 8 (roundEven (group i * (1 / (groupMax group groupSize / 127))))).toInt =
        roundEven (group i * (1 / (groupMax group groupSize / 127))) :=
      KtKernel.Amx.Quantization.toInt_byte (abs_le.mpr ⟨low, high⟩)
    rw [quantized_eq zero, min_eq_left high, max_eq_right low, xor_sign _ (by rw [byte]; exact low), byte]

/-! ## Rows and columns of a share -/

variable {total nth ith place : Nat}

theorem mem_share : place ∈ List.range' (splitRange total ith nth).1 ((splitRange total ith nth).2 - (splitRange total ith nth).1) ↔
    splitStart total nth ith ≤ place ∧ place < splitStart total nth (ith + 1) := by
  have rising := splitStart_mono total nth (Nat.le_succ ith)
  rw [splitRange_eq, List.mem_range'_1]
  omega

theorem mem_some_share (positive : 0 < nth) (inside : place < total) :
    ∃ ith < nth, place ∈ List.range' (splitRange total ith nth).1 ((splitRange total ith nth).2 - (splitRange total ith nth).1) := by
  obtain ⟨ith, inThreads, own⟩ := exists_share total nth inside positive
  exact ⟨ith, inThreads, mem_share.mpr own⟩

theorem lt_of_share (inThreads : ith < nth) (below : place < splitStart total nth (ith + 1)) : place < total := by
  have last := splitStart_mono total nth (show ith + 1 ≤ nth from inThreads)
  rw [splitStart_last total (Nat.zero_lt_of_lt inThreads)] at last
  exact below.trans_le last

theorem lt_of_mem_share (inThreads : ith < nth)
    (member : place ∈ List.range' (splitRange total ith nth).1 ((splitRange total ith nth).2 - (splitRange total ith nth).1)) :
    place < total :=
  lt_of_share inThreads (mem_share.mp member).2

/-- One thread alone takes everything, as a split into one share does. -/
theorem splitRange_one (total ith nth : Nat) : (if ith = 0 ∧ nth = 1 then (0, total) else splitRange total ith nth) = splitRange total ith nth := by
  split
  · next alone =>
      obtain ⟨rfl, rfl⟩ := alone
      simp [splitRange, Nat.mod_one]
  · rfl

variable {μ β : Type} {program : Nat → List (μ → μ)} {step : Nat → μ → μ} {before after : μ} {row : Nat}

/-- Threads that share out rows, each of which writes a place of its own. -/
theorem ran_rows (read : μ → β) {value : β} (positive : 0 < nth)
    (shares : ∀ ith, program ith =
      (List.range' (splitRange total ith nth).1 ((splitRange total ith nth).2 - (splitRange total ith nth).1)).map step)
    (inRows : row < total) (writes : ∀ memory, read (step row memory) = value)
    (others : ∀ other ≠ row, ∀ memory, read (step other memory) = read memory)
    (ran : Ran nth program (fun step memory => step memory) before after) : read after = value := by
  obtain ⟨owner, inThreads, own⟩ := mem_some_share positive inRows
  refine Ran.agreed read ?_ ⟨owner, inThreads, step row, ?_, writes⟩ ran
  · intro ith _ op member
    rw [shares] at member
    obtain ⟨other, -, rfl⟩ := List.mem_map.mp member
    by_cases same : other = row
    · subst same
      exact .inr writes
    · exact .inl (others other same)
  · rw [shares]
    exact List.mem_map_of_mem own

theorem rows_apart {other index size offset : Nat} (different : other ≠ index) (inside : offset < size) :
    index * size + offset < other * size ∨ other * size + size ≤ index * size + offset :=
  row_outside (show 0 + size ≤ size by omega) inside fun same => absurd same different

/-! ## Loads of the packed kernel -/

/-- What the sizes of a buffer are when it is made. -/
structure Sizes.Fit (sizes : Sizes) : Prop where
  some_ : 0 < sizes.groupSize
  lanes : 32 ∣ sizes.groupSize
  groups : sizes.groupSize ∣ sizes.k

namespace Sizes.Fit

variable {sizes : Sizes} {g : Nat} (fit : sizes.Fit)
include fit

theorem words : 8 ∣ sizes.groupSize :=
  Nat.dvd_trans (by decide) fit.lanes

theorem k_eq : sizes.numGroups * sizes.groupSize = sizes.k :=
  Nat.div_mul_cancel fit.groups

theorem kPacked_eq : sizes.kPacked * 8 = sizes.k :=
  Nat.div_mul_cancel (Nat.dvd_trans fit.words fit.groups)

/-- The place of an activation or of a weight in its row. -/
theorem place_lt (inGroups : g < sizes.numGroups) (inside : i < sizes.groupSize) : g * sizes.groupSize + i < sizes.k := by
  rw [← fit.k_eq, Nat.mul_comm sizes.numGroups]
  exact pairIndex_lt inGroups inside

theorem word_lt (inGroups : g < sizes.numGroups) (inside : i < sizes.groupSize / 8) :
    g * (sizes.groupSize / 8) + i < sizes.kPacked := by
  have whole := Nat.div_mul_cancel fit.words
  have place := fit.place_lt inGroups (show i * 8 + 7 < sizes.groupSize by omega)
  have row := fit.kPacked_eq
  rw [← row, ← whole, ← Nat.mul_assoc] at place
  omega

end Sizes.Fit

variable {sizes : Sizes} {data : Data} {column g : Nat}

namespace Packed

theorem loaded_a (fit : sizes.Fit) (positive : 0 < nth) {a₀ a : BufferA}
    (ran : Ran nth (BufferA.fromMat sizes.k sizes.groupSize data.m data.src nth) (fun step memory => step memory) a₀ a)
    (inRows : row < data.m) (inGroups : g < sizes.numGroups) :
    a.scales (row * (sizes.k / sizes.groupSize) + g) =
        (quantizeGroup (fun i => data.src (row * sizes.k + g * sizes.groupSize + i)) sizes.groupSize).1 ∧
      ∀ i < sizes.groupSize, a.data (row * sizes.k + (g * sizes.groupSize + i)) =
        (quantizeGroup (fun i => data.src (row * sizes.k + g * sizes.groupSize + i)) sizes.groupSize).2 i := by
  have shares : ∀ ith, BufferA.fromMat sizes.k sizes.groupSize data.m data.src nth ith =
      (List.range' (splitRange data.m ith nth).1 ((splitRange data.m ith nth).2 - (splitRange data.m ith nth).1)).map
        (quantizeRow sizes.k sizes.groupSize data.src) := by
    intro ith
    rw [BufferA.fromMat, splitRange_one]
  constructor
  · refine ran_rows (fun a => a.scales (row * (sizes.k / sizes.groupSize) + g)) positive shares inRows ?_ ?_ ran
    · intro memory
      dsimp only [quantizeRow]
      exact put_inside _ _ inGroups
    · intro other different memory
      dsimp only [quantizeRow]
      exact put_outside _ _ (rows_apart different inGroups)
  · intro i inside
    refine ran_rows (fun a => a.data (row * sizes.k + (g * sizes.groupSize + i))) positive shares inRows ?_ ?_ ran
    · intro memory
      have written := putRows_inside (row * sizes.k) 0
        (fun g => (quantizeGroup (fun i => data.src (row * sizes.k + g * sizes.groupSize + i)) sizes.groupSize).2) memory.data
        (show 0 + sizes.groupSize ≤ sizes.groupSize by omega) inGroups inside
      rw [Nat.zero_add, Nat.zero_add] at written
      exact written
    · intro other different memory
      apply putRows_beyond
      · omega
      · have apart := rows_apart different (fit.place_lt inGroups inside)
        have whole : sizes.k / sizes.groupSize * sizes.groupSize = sizes.k := fit.k_eq
        rw [Nat.zero_mul, Nat.zero_add, Nat.zero_add, whole]
        exact apart

theorem loaded_b (fit : sizes.Fit) (positive : 0 < nth) {b₀ b : BufferB}
    (ran : Ran nth (BufferB.fromMat sizes data.qweight data.scales nth) (fun step memory => step memory) b₀ b)
    (inColumns : column < sizes.n) :
    (∀ w < sizes.kPacked, b.qweight (column * sizes.kPacked + w) = data.qweight (w * sizes.n + column)) ∧
      ∀ g < sizes.numGroups, b.scales (column * sizes.numGroups + g) = data.scales (g * sizes.n + column) ∧
        b.c2 (column * sizes.numGroups + g) = 128 * data.scales (g * sizes.n + column) *
          rowsum (fun wr => data.qweight ((g * (sizes.groupSize / 8) + wr) * sizes.n + column)) sizes.groupSize := by
  have shares : ∀ ith, BufferB.fromMat sizes data.qweight data.scales nth ith =
      (List.range' (splitRange sizes.n ith nth).1 ((splitRange sizes.n ith nth).2 - (splitRange sizes.n ith nth).1)).map
        (gatherColumn sizes data.qweight data.scales) := fun ith => rfl
  refine ⟨fun w inWords => ?_, fun g inGroups => ⟨?_, ?_⟩⟩
  · refine ran_rows (fun b => b.qweight (column * sizes.kPacked + w)) positive shares inColumns ?_ ?_ ran
    · intro memory
      dsimp only [gatherColumn]
      exact put_inside _ _ inWords
    · intro other different memory
      dsimp only [gatherColumn]
      exact put_outside _ _ (rows_apart different inWords)
  · refine ran_rows (fun b => b.scales (column * sizes.numGroups + g)) positive shares inColumns ?_ ?_ ran
    · intro memory
      dsimp only [gatherColumn]
      exact put_inside _ _ inGroups
    · intro other different memory
      dsimp only [gatherColumn]
      exact put_outside _ _ (rows_apart different inGroups)
  · refine ran_rows (fun b => b.c2 (column * sizes.numGroups + g)) positive shares inColumns ?_ ?_ ran
    · intro memory
      dsimp only [gatherColumn]
      refine (put_inside _ _ inGroups).trans ?_
      rw [rowsum_congr]
      intro wr inGroup
      exact put_inside _ _ (fit.word_lt inGroups inGroup)
    · intro other different memory
      dsimp only [gatherColumn]
      exact put_outside _ _ (rows_apart different inGroups)

/-- The store of a lane of a staging row. -/
theorem staged_lane (fit : sizes.Fit) (b : BufferB) (jb j g lane : Nat) (memory : Nat → BitVec 8) {offset : Nat} (inLane : offset < 32) :
    (put (j * tmpStride sizes.k + (g * sizes.groupSize + lane * 32)) 32
      (unpack4WordsToS8Nosad fun i => b.qweight ((jb * 8 + j) * sizes.kPacked + (g * (sizes.groupSize / 8) + lane * 4) + i)) memory
        (j * tmpStride sizes.k + (g * sizes.groupSize + lane * 32 + offset))).toInt =
      wordNibble (b.qweight ((jb * 8 + j) * sizes.kPacked + (g * sizes.groupSize + lane * 32 + offset) / 8))
        ((g * sizes.groupSize + lane * 32 + offset) % 8) - 8 := by
  have product : g * sizes.groupSize = g * (sizes.groupSize / 8) * 8 := by rw [Nat.mul_assoc, Nat.div_mul_cancel fit.words]
  have word : (g * sizes.groupSize + lane * 32 + offset) / 8 = g * (sizes.groupSize / 8) + lane * 4 + offset / 8 := by omega
  have nib : (g * sizes.groupSize + lane * 32 + offset) % 8 = offset % 8 := by omega
  have address : j * tmpStride sizes.k + (g * sizes.groupSize + lane * 32 + offset) =
      j * tmpStride sizes.k + (g * sizes.groupSize + lane * 32) + offset := (Nat.add_assoc _ _ _).symm
  rw [address, put_inside _ _ inLane, unpack4Words_toInt _ inLane, word, nib, Nat.add_assoc]

/-- The staging rows, whatever they held before and on whichever side of the limit `k` is. -/
theorem staged (fit : sizes.Fit) (b : BufferB) (jb : Nat) (tmp : Nat → BitVec 8) {j : Nat} (inBlock : j < 8)
    (inRow : place < sizes.k) :
    (unpackJbToTmp sizes b jb tmp (j * tmpStride sizes.k + place)).toInt =
      wordNibble (b.qweight ((jb * 8 + j) * sizes.kPacked + place / 8)) (place % 8) - 8 := by
  have stride : sizes.k ≤ tmpStride sizes.k := by
    rw [tmpStride]
    split
    · assumption
    · exact Nat.le_refl _
  have lanes := Nat.div_mul_cancel fit.lanes
  refine runSteps_agreed (fun tmp cell => (tmp cell).toInt) ?_ ?_ tmp
  · intro step member
    simp only [List.mem_flatMap, List.mem_map, List.mem_range] at member
    obtain ⟨other, inOther, g, inGroups, lane, inLanes, rfl⟩ := member
    have last := fit.place_lt inGroups (show lane * 32 + 31 < sizes.groupSize by omega)
    by_cases covered : other * tmpStride sizes.k + (g * sizes.groupSize + lane * 32) ≤ j * tmpStride sizes.k + place ∧
        j * tmpStride sizes.k + place < other * tmpStride sizes.k + (g * sizes.groupSize + lane * 32) + 32
    · right
      intro memory
      obtain ⟨above, beyond⟩ := covered
      have same : other = j := by
        by_contra different
        have apart := rows_apart different (show place < tmpStride sizes.k by omega)
        omega
      subst same
      obtain ⟨offset, rfl⟩ := Nat.exists_eq_add_of_le (show g * sizes.groupSize + lane * 32 ≤ place by omega)
      exact staged_lane fit b jb other g lane memory (by omega)
    · left
      intro memory
      rw [put_outside]
      omega
  · have inGroups : place / sizes.groupSize < sizes.numGroups := Nat.div_lt_of_lt_mul (by
      rw [Nat.mul_comm, fit.k_eq]
      exact inRow)
    have small := Nat.mod_lt place fit.some_
    have split := Nat.div_add_mod' place sizes.groupSize
    have whole : place / sizes.groupSize * sizes.groupSize + place % sizes.groupSize / 32 * 32 + place % sizes.groupSize % 32 = place := by
      omega
    refine ⟨_, List.mem_flatMap.mpr ⟨j, List.mem_range.mpr inBlock, List.mem_flatMap.mpr ⟨_, List.mem_range.mpr inGroups,
      List.mem_map_of_mem (List.mem_range.mpr (show place % sizes.groupSize / 32 < sizes.groupSize / 32 by omega))⟩⟩, fun memory => ?_⟩
    have written := staged_lane fit b jb j (place / sizes.groupSize) (place % sizes.groupSize / 32) memory
      (Nat.mod_lt (place % sizes.groupSize) (show 0 < 32 by decide))
    rw [whole] at written
    exact written

end Packed

/-! ## Loads of the other kernel -/

namespace Unpacked

theorem loaded_a (positive : 0 < nth) {a₀ a : Nat → ℚ}
    (ran : Ran nth (bufferAFromMat sizes.k data.m data.src nth) (fun step memory => step memory) a₀ a)
    (inRows : row < data.m) (inRow : place < sizes.k) : a (row * sizes.k + place) = data.src (row * sizes.k + place) := by
  obtain ⟨owner, inThreads, own⟩ := mem_some_share positive inRows
  obtain ⟨above, below⟩ := List.mem_range'_1.mp own
  have first := Nat.mul_le_mul_right sizes.k above
  have last := Nat.mul_le_mul_right sizes.k (show row + 1 ≤ _ from below)
  rw [Nat.add_mul, Nat.one_mul, Nat.add_mul] at last
  have only : bufferAFromMat sizes.k data.m data.src nth = fun ith =>
      [put ((splitRange data.m ith nth).1 * sizes.k) (((splitRange data.m ith nth).2 - (splitRange data.m ith nth).1) * sizes.k)
        fun i => data.src ((splitRange data.m ith nth).1 * sizes.k + i)] := by
    funext ith
    rw [bufferAFromMat, splitRange_one]
  rw [only] at ran
  refine Ran.agreed (fun a => a (row * sizes.k + place)) ?_ ⟨owner, inThreads, _, List.mem_singleton_self _, fun memory => ?_⟩ ran
  · intro ith _ step member
    rw [List.mem_singleton] at member
    subst member
    apply put_known
    intro covered _
    rw [Nat.add_sub_cancel' covered]
  · obtain ⟨offset, address⟩ := Nat.exists_eq_add_of_le (show _ ≤ row * sizes.k + place from first.trans (Nat.le_add_right _ _))
    rw [address]
    exact put_inside _ _ (by omega)

/-- A nibble of a word, by its place in the column. -/
theorem word_value (fit : sizes.Fit) (qweight : Nat → BitVec 32) (column g kr : Nat) {nib : Nat} (inWord : nib < 8) :
    value (qweight (g * (sizes.groupSize / 8) * sizes.n + column + kr * sizes.n)) nib =
      value (qweight ((g * sizes.groupSize + kr * 8 + nib) / 8 * sizes.n + column)) ((g * sizes.groupSize + kr * 8 + nib) % 8) := by
  have product : g * sizes.groupSize = g * (sizes.groupSize / 8) * 8 := by rw [Nat.mul_assoc, Nat.div_mul_cancel fit.words]
  have word : (g * sizes.groupSize + kr * 8 + nib) / 8 = g * (sizes.groupSize / 8) + kr := by omega
  have place : (g * sizes.groupSize + kr * 8 + nib) % 8 = nib := by omega
  rw [word, place, Nat.add_mul, Nat.add_right_comm]

theorem column_weights (fit : sizes.Fit) (qweight : Nat → BitVec 32) (column : Nat) (memory : BufferB) (inRow : place < sizes.k) :
    (unpackColumn sizes qweight column memory).qweightS8 (column * sizes.k + place) =
      value (qweight (place / 8 * sizes.n + column)) (place % 8) := by
  have words := Nat.div_mul_cancel fit.words
  refine runSteps_agreed (fun weights => weights) ?_ ?_ memory.qweightS8
  · intro step member
    simp only [List.mem_flatMap, List.mem_map, List.mem_range] at member
    obtain ⟨g, inGroups, kr, inWords, rfl⟩ := member
    apply put_known
    intro above below
    obtain ⟨nib, rfl⟩ := Nat.exists_eq_add_of_le (show g * sizes.groupSize + kr * 8 ≤ place by omega)
    rw [← word_value fit qweight column g kr (show nib < 8 by omega)]
    congr 1
    omega
  · have inGroups : place / sizes.groupSize < sizes.numGroups := Nat.div_lt_of_lt_mul (by
      rw [Nat.mul_comm, fit.k_eq]
      exact inRow)
    have small := Nat.mod_lt place fit.some_
    have split := Nat.div_add_mod' place sizes.groupSize
    have whole : place / sizes.groupSize * sizes.groupSize + place % sizes.groupSize / 8 * 8 + place % sizes.groupSize % 8 = place := by
      omega
    have inWords : place % sizes.groupSize / 8 < sizes.groupSize / 8 := by omega
    have inWord := Nat.mod_lt (place % sizes.groupSize) (show 0 < 8 by decide)
    refine ⟨_, List.mem_flatMap.mpr ⟨_, List.mem_range.mpr inGroups, List.mem_map_of_mem (List.mem_range.mpr inWords)⟩, fun memory => ?_⟩
    have known := word_value fit qweight column (place / sizes.groupSize) (place % sizes.groupSize / 8) inWord
    have address : column * sizes.k + place = column * sizes.k +
        (place / sizes.groupSize * sizes.groupSize + place % sizes.groupSize / 8 * 8) + place % sizes.groupSize % 8 := by omega
    rw [whole] at known
    dsimp only
    rw [address, put_inside _ _ inWord, known]

theorem column_outside (fit : sizes.Fit) (qweight : Nat → BitVec 32) (memory : BufferB) {other : Nat} (different : other ≠ column)
    (inRow : place < sizes.k) :
    (unpackColumn sizes qweight other memory).qweightS8 (column * sizes.k + place) = memory.qweightS8 (column * sizes.k + place) := by
  have words := Nat.div_mul_cancel fit.words
  have apart := rows_apart different inRow
  apply runSteps_kept fun weights => weights
  intro step member weights
  simp only [List.mem_flatMap, List.mem_map, List.mem_range] at member
  obtain ⟨g, inGroups, kr, inWords, rfl⟩ := member
  have last := fit.place_lt inGroups (show kr * 8 + 7 < sizes.groupSize by omega)
  apply put_outside
  omega

theorem column_sums (qweight : Nat → BitVec 32) (column : Nat) (memory : BufferB) (inColumns : column < sizes.n)
    (inGroups : g < sizes.numGroups) :
    (unpackColumn sizes qweight column memory).weightSums (g * sizes.n + column) = BitVec.ofInt 16
      (groupSum (fun kr => qweight (g * (sizes.groupSize / 8) * sizes.n + column + kr * sizes.n)) sizes.groupSize) := by
  refine runSteps_agreed (fun sums => sums) ?_ ⟨_, List.mem_map_of_mem (List.mem_range.mpr inGroups), fun sums => ?_⟩ memory.weightSums
  · intro step member
    obtain ⟨other, -, rfl⟩ := List.mem_map.mp member
    apply put_known
    intro above below
    have address : other * sizes.n + column = g * sizes.n + column := by omega
    have same : other = g := (split_unique inColumns inColumns address).1
    rw [same]
  · exact put_inside _ _ Nat.one_pos

theorem sums_outside (qweight : Nat → BitVec 32) (memory : BufferB) {other : Nat} (different : other ≠ column)
    (inColumns : column < sizes.n) (inOthers : other < sizes.n) (g : Nat) :
    (unpackColumn sizes qweight other memory).weightSums (g * sizes.n + column) = memory.weightSums (g * sizes.n + column) := by
  apply runSteps_kept fun sums => sums
  intro step member sums
  obtain ⟨group, -, rfl⟩ := List.mem_map.mp member
  apply put_outside
  by_contra covered
  have address : group * sizes.n + other = g * sizes.n + column := by omega
  exact different (split_unique inOthers inColumns address).2

theorem copyScales_known (srcScales : Nat → ℚ) (nStart nLen g cell : Nat) :
    (∀ memory, (copyScales sizes srcScales nStart nLen g memory).scales cell = memory.scales cell) ∨
      ∀ memory, (copyScales sizes srcScales nStart nLen g memory).scales cell = srcScales cell := by
  have filled : (∀ scales, put (g * sizes.n + nStart) nLen (fun i => srcScales (g * sizes.n + nStart + i)) scales cell = scales cell) ∨
      ∀ scales, put (g * sizes.n + nStart) nLen (fun i => srcScales (g * sizes.n + nStart + i)) scales cell = srcScales cell := by
    apply put_known
    intro above _
    rw [Nat.add_sub_cancel' above]
  rcases filled with kept | known
  · exact .inl fun memory => kept memory.scales
  · exact .inr fun memory => known memory.scales

theorem copyScales_inside {offset nLen : Nat} (srcScales : Nat → ℚ) (nStart g : Nat) (memory : BufferB) (inside : offset < nLen) :
    (copyScales sizes srcScales nStart nLen g memory).scales (g * sizes.n + (nStart + offset)) =
      srcScales (g * sizes.n + (nStart + offset)) := by
  rw [← Nat.add_assoc]
  exact put_inside (fun i => srcScales (g * sizes.n + nStart + i)) memory.scales inside

theorem mem_fromMat {step : BufferB → BufferB} (inThreads : ith < nth) (member : step ∈ BufferB.fromMat sizes data.qweight data.scales nth ith) :
    (∃ g < sizes.numGroups, step = copyScales sizes data.scales (splitRange sizes.n ith nth).1
        ((splitRange sizes.n ith nth).2 - (splitRange sizes.n ith nth).1) g) ∨
      ∃ ni < sizes.n, step = unpackColumn sizes data.qweight ni := by
  rcases List.mem_append.mp member with scales | columns
  · obtain ⟨g, inGroups, rfl⟩ := List.mem_map.mp scales
    exact .inl ⟨g, List.mem_range.mp inGroups, rfl⟩
  · obtain ⟨ni, own, rfl⟩ := List.mem_map.mp columns
    exact .inr ⟨ni, lt_of_mem_share inThreads own, rfl⟩

theorem loaded_b (fit : sizes.Fit) (positive : 0 < nth) {b₀ b : BufferB}
    (ran : Ran nth (BufferB.fromMat sizes data.qweight data.scales nth) (fun step memory => step memory) b₀ b)
    (inColumns : column < sizes.n) :
    (∀ place < sizes.k, b.qweightS8 (column * sizes.k + place) = value (data.qweight (place / 8 * sizes.n + column)) (place % 8)) ∧
      ∀ g < sizes.numGroups, b.scales (g * sizes.n + column) = data.scales (g * sizes.n + column) ∧
        b.weightSums (g * sizes.n + column) = BitVec.ofInt 16
          (groupSum (fun kr => data.qweight (g * (sizes.groupSize / 8) * sizes.n + column + kr * sizes.n)) sizes.groupSize) := by
  obtain ⟨owner, inThreads, own⟩ := mem_some_share positive inColumns
  have member : unpackColumn sizes data.qweight column ∈ BufferB.fromMat sizes data.qweight data.scales nth owner :=
    List.mem_append_right _ (List.mem_map_of_mem own)
  refine ⟨fun place inRow => ?_, fun g inGroups => ⟨?_, ?_⟩⟩
  · refine Ran.agreed (fun b => b.qweightS8 (column * sizes.k + place)) ?_
      ⟨owner, inThreads, _, member, fun memory => column_weights fit data.qweight column memory inRow⟩ ran
    intro ith inside step inProgram
    rcases mem_fromMat inside inProgram with ⟨g, -, rfl⟩ | ⟨other, -, rfl⟩
    · exact .inl fun memory => rfl
    · by_cases same : other = column
      · subst same
        exact .inr fun memory => column_weights fit data.qweight other memory inRow
      · exact .inl fun memory => column_outside fit data.qweight memory same inRow
  · obtain ⟨above, below⟩ := List.mem_range'_1.mp own
    refine Ran.agreed (fun b => b.scales (g * sizes.n + column)) ?_ ⟨owner, inThreads, _,
      List.mem_append_left _ (List.mem_map_of_mem (List.mem_range.mpr inGroups)), fun memory => ?_⟩ ran
    · intro ith inside step inProgram
      rcases mem_fromMat inside inProgram with ⟨other, -, rfl⟩ | ⟨other, -, rfl⟩
      · exact copyScales_known data.scales _ _ other _
      · exact .inl fun memory => rfl
    · obtain ⟨offset, rfl⟩ := Nat.exists_eq_add_of_le above
      exact copyScales_inside data.scales _ g memory (Nat.lt_of_add_lt_add_left below)
  · refine Ran.agreed (fun b => b.weightSums (g * sizes.n + column)) ?_
      ⟨owner, inThreads, _, member, fun memory => column_sums data.qweight column memory inColumns inGroups⟩ ran
    intro ith inside step inProgram
    rcases mem_fromMat inside inProgram with ⟨_, -, rfl⟩ | ⟨other, inOthers, rfl⟩
    · exact .inl fun memory => rfl
    · by_cases same : other = column
      · subst same
        exact .inr fun memory => column_sums data.qweight other memory inColumns inGroups
      · exact .inl fun memory => sums_outside data.qweight memory same inColumns inOthers g

end Unpacked

end KtKernel.Avx2.VnniGptq
