import KtKernel.Amx.Mxfp4Elements
import KtKernel.Amx.Mxfp4Scales
import KtKernel.Data.Tiling

namespace KtKernel.Amx.Mxfp4

open KtKernel.Data

/-! The stores of the MXFP4 kernels. -/

variable {m n k : Nat}

theorem getSubmat_row (fits : k ≤ 7168) (m mi : Nat) : BufferA.getSubmat m k mi 0 = mi * k := by
  have size : min kBlock k = k := Nat.min_eq_right fits
  rw [BufferA.getSubmat, Nat.zero_div, Nat.zero_mul, Nat.zero_mul, Nat.zero_add, Nat.sub_zero, Nat.sub_zero, size, Nat.add_zero]

theorem mem_upTo_single (fits : k ≤ 7168) {start : Nat} (member : start ∈ upTo k kBlock) : start = 0 := by
  obtain ⟨divides, less⟩ := (mem_upTo (by decide)).mp member
  exact Nat.eq_zero_of_dvd_of_lt divides (less.trans_le fits)

theorem fromMat_row (held : BufferA) (fits : k ≤ 7168) (whole : k % 32 = 0) (src : Nat → BitVec 16) {mi i : Nat} (inRows : mi < m)
    (inRow : i < k) : (held.fromMat m k src).a (BufferA.getSubmat m k mi 0 + i) = src (mi * k + i) := by
  rw [getSubmat_row fits]
  have size : min kBlock (k - 0) = k := Nat.min_eq_right fits
  apply runSteps_agreed fun memory => memory
  · intro step member
    obtain ⟨row, -, inRow'⟩ := List.mem_flatMap.mp member
    obtain ⟨block, inBlocks, inBlock⟩ := List.mem_flatMap.mp inRow'
    obtain ⟨kBegin, -, rfl⟩ := List.mem_map.mp inBlock
    rw [mem_upTo_single fits inBlocks, size, Nat.zero_mul, Nat.zero_add, Nat.add_zero]
    apply put_known
    intro above below
    rw [Nat.add_sub_cancel' above]
  · have first : 0 ∈ upTo k kBlock := (mem_upTo (by decide)).mpr ⟨Nat.dvd_zero _, by omega⟩
    have step : i / 32 * 32 ∈ upTo (min kBlock (k - 0)) kStep := by
      rw [size]
      exact (mem_upTo (by decide)).mpr ⟨Nat.dvd_mul_left _ _, by omega⟩
    refine ⟨_, List.mem_flatMap.mpr ⟨mi, List.mem_range.mpr inRows, List.mem_flatMap.mpr ⟨0, first, List.mem_map_of_mem step⟩⟩, ?_⟩
    intro memory
    have place : mi * k + i = 0 * m + mi * min kBlock (k - 0) + i / 32 * 32 + i % 32 := by
      rw [size]
      omega
    have source : mi * k + 0 + i / 32 * 32 + i % 32 = mi * k + i := by omega
    have written : put (0 * m + mi * min kBlock (k - 0) + i / 32 * 32) 32 (fun lane => src (mi * k + 0 + i / 32 * 32 + lane)) memory
        (0 * m + mi * min kBlock (k - 0) + i / 32 * 32 + i % 32) = src (mi * k + 0 + i / 32 * 32 + i % 32) :=
      put_inside _ memory (Nat.mod_lt i (by decide))
    rwa [← place, source] at written

/-- One token in natural order. -/
theorem fromMatNatural_row (held : BufferA) (fits : k ≤ 7168) (src : Nat → BitVec 16) {g lane : Nat} (inGroups : g < k / 32)
    (inGroup : lane < 32) :
    (held.fromMatNatural true 1 k src).a (BufferA.getSubmat 1 k 0 0 + (32 * g + lane)) = src (32 * g + naturalPlace lane) := by
  have start := getSubmat_row fits 1 0
  rw [BufferA.fromMatNatural, if_pos rfl, start, Nat.zero_mul, Nat.zero_add]
  apply runSteps_agreed fun memory => memory
  · intro step member
    obtain ⟨row, inRows, inRow⟩ := List.mem_flatMap.mp member
    obtain ⟨group, -, rfl⟩ := List.mem_map.mp inRow
    have single : row = 0 := by
      have first := List.mem_range.mp inRows
      omega
    rw [single, start, Nat.zero_mul, Nat.zero_add]
    apply put_known
    intro above below
    have same : group = g := by omega
    have offset : 32 * g + lane - 32 * g = lane := Nat.add_sub_cancel_left _ _
    rw [same, offset, permuteActivationGroup_eq _ inGroup]
  · refine ⟨_, List.mem_flatMap.mpr ⟨0, List.mem_range.mpr Nat.one_pos, List.mem_map_of_mem (List.mem_range.mpr inGroups)⟩, ?_⟩
    intro memory
    rw [start, Nat.zero_mul, Nat.zero_add, put_inside _ memory inGroup, permuteActivationGroup_eq _ inGroup]

/-- The scales that the pointers of a buffer show, for the groups that the kernels read. -/
structure ScalesShown (bb : BufferB) (k : Nat) (s : Nat → Nat → BitVec 32) : Prop where
  four : ∀ nPos scratch, ∀ j < 4, ∀ g < k / 32,
    ((bb.getScales nPos k scratch).1 j).read bb (bb.getScales nPos k scratch).2.cells g = s (nPos + j) g
  one : ∀ nPos scratch, ∀ g < k / 32, (bb.getScale nPos k 0 scratch).1.read bb (bb.getScale nPos k 0 scratch).2.cells g = s nPos g

theorem groupSum_congr {s s' : Nat → BitVec 32} (same : ∀ g < k / 32, s g = s' g) (b : Nat → BitVec 8) (row : Nat → BitVec 16) (ni : Nat) :
    groupSum k s b row ni = groupSum k s' b row ni := by
  apply Finset.sum_congr rfl
  intro g inRange
  rw [same g (Finset.mem_range.mp inRange)]

variable {bb : BufferB} {s : Nat → Nat → BitVec 32}

theorem scalesShown_fits (groups : k / bb.kGroupSize = bb.kGroupCount) (group32 : bb.kGroupCount = k / 32)
    (fits : bb.kGroupCount ≤ maxGroupCount) : ScalesShown bb k bb.scale where
  four := fun nPos scratch _ inFour _ inside => BufferB.getScales_reads groups fits nPos scratch inFour (group32 ▸ inside)
  one := fun nPos scratch _ inside => BufferB.getScale_reads groups nPos scratch (group32 ▸ inside)

theorem scalesShown_floats (invalid : bb.scaleE8Valid = false) :
    ScalesShown bb k fun nPos g => loadFloat bb.d (nPos * (k / bb.kGroupSize) + g) where
  four := by
    intro nPos scratch j inFour g _
    rw [BufferB.getScales]
    simp only [BufferB.getScale_float invalid, Nat.zero_div, Nat.add_zero]
    rcases (show j = 0 ∨ j = 1 ∨ j = 2 ∨ j = 3 by omega) with rfl | rfl | rfl | rfl
    · rw [List.getD_cons_zero, ScalePtr.read, Nat.add_zero]
    · rw [List.getD_cons_succ, List.getD_cons_zero, ScalePtr.read]
    · rw [List.getD_cons_succ, List.getD_cons_succ, List.getD_cons_zero, ScalePtr.read]
    · rw [List.getD_cons_succ, List.getD_cons_succ, List.getD_cons_succ, List.getD_cons_zero, ScalePtr.read]
  one := by
    intro nPos scratch g _
    rw [BufferB.getScale_float invalid, Nat.zero_div, Nat.add_zero]
    rfl

/-! ## Stores of the logical kernels -/

/-- The element of a token and a row of weights. -/
def stored (m k : Nat) (ba : BufferA) (bb : BufferB) (s : Nat → Nat → BitVec 32) (mi ni : Nat) : ℚ :=
  groupSum k (s ni) bb.b (fun i => ba.a (BufferA.getSubmat m k mi 0 + i)) ni

theorem logical_stored (avx512Bf16 : Bool) (ba : BufferA) {read : Nat → BitVec 32} {ni : Nat} (shown : ∀ g < k / 32, read g = s ni g)
    (mi : Nat) : logicalElement avx512Bf16 m k ba bb read ni mi = stored m k ba bb s mi ni := by
  rw [logicalElement_eq, stored]
  exact groupSum_congr shown _ _ _

theorem mem_tokenRow (shown : ScalesShown bb k s) (avx512Bf16 : Bool) (ba : BufferA) (nStart nEnd mi : Nat) (scratch : Scratch)
    (store : Nat × ℚ) : store ∈ (tokenRow avx512Bf16 m n k ba bb nStart nEnd mi scratch).1 ↔
      ∃ ni, nStart ≤ ni ∧ ni < nEnd ∧ store = (getSubmatC m n mi nStart + (ni - nStart), stored m k ba bb s mi ni) := by
  apply mem_byFours fun ni => store = (getSubmatC m n mi nStart + (ni - nStart), stored m k ba bb s mi ni)
  · intro ni above _ scratch
    rw [List.mem_map]
    constructor
    · rintro ⟨j, inRange, rfl⟩
      have inFour := List.mem_range.mp inRange
      refine ⟨j, inFour, ?_⟩
      rw [logical_stored _ _ (shown.four ni scratch j inFour), Nat.add_assoc, ← Nat.sub_add_comm above]
    · rintro ⟨j, inFour, rfl⟩
      refine ⟨j, List.mem_range.mpr inFour, ?_⟩
      rw [logical_stored _ _ (shown.four ni scratch j inFour), Nat.add_assoc, ← Nat.sub_add_comm above]
  · intro ni _ _ scratch
    rw [List.mem_singleton, logical_stored _ _ (shown.one ni scratch)]

/-- The stores of a thread: the elements of its rows of weights. -/
def Elements (m n ith : Nat) (value : Nat → Nat → ℚ) (store : Nat × ℚ) : Prop :=
  ∃ mi < m, ∃ ni, nBlock * ith ≤ ni ∧ ni < min n (nBlock * (ith + 1)) ∧
    store = (getSubmatC m n mi (nBlock * ith) + (ni - nBlock * ith), value mi ni)

/-- A thread beyond the rows has no elements. -/
theorem not_elements {ith : Nat} {value : Nat → Nat → ℚ} {store : Nat × ℚ} (empty : nBlock * ith ≥ min n (nBlock * (ith + 1))) :
    ¬ Elements m n ith value store := by
  rintro ⟨mi, -, ni, above, below, -⟩
  omega

theorem mem_matVec (shown : ScalesShown bb k s) (avx512Bf16 : Bool) (ba : BufferA) (ith : Nat) (scratch : Scratch) (store : Nat × ℚ) :
    store ∈ (fp4MatVecKgroup avx512Bf16 m n k ba bb ith scratch).1 ↔ Elements m n ith (stored m k ba bb s) store := by
  rw [fp4MatVecKgroup, splitRangeN]
  dsimp only
  split
  next empty => exact ⟨fun absurd => (List.not_mem_nil absurd).elim, fun element => (not_elements empty element).elim⟩
  next =>
    rw [mem_gather _ fun mi _ scratch => mem_tokenRow shown avx512Bf16 ba _ _ mi scratch store]
    simp only [List.mem_range]
    rfl

theorem mem_matMat (shown : ScalesShown bb k s) (avx512Bf16 : Bool) (ba : BufferA) (ith : Nat) (scratch : Scratch) (store : Nat × ℚ) :
    store ∈ (fp4MatMatKgroup avx512Bf16 m n k ba bb ith scratch).1 ↔ Elements m n ith (stored m k ba bb s) store := by
  rw [fp4MatMatKgroup, splitRangeN]
  dsimp only
  split
  next empty => exact ⟨fun absurd => (List.not_mem_nil absurd).elim, fun element => (not_elements empty element).elim⟩
  next =>
    have element : Elements m n ith (stored m k ba bb s) store ↔ ∃ mi, 0 ≤ mi ∧ mi < m ∧ ∃ ni, nBlock * ith ≤ ni ∧
        ni < min n (nBlock * (ith + 1)) ∧ store = (getSubmatC m n mi (nBlock * ith) + (ni - nBlock * ith), stored m k ba bb s mi ni) := by
      simp only [Elements, Nat.zero_le, true_and]
    rw [element]
    apply mem_byFours fun mi => ∃ ni, nBlock * ith ≤ ni ∧ ni < min n (nBlock * (ith + 1)) ∧
      store = (getSubmatC m n mi (nBlock * ith) + (ni - nBlock * ith), stored m k ba bb s mi ni)
    · intro mPos _ _ scratch
      rw [mem_byFours fun ni => ∃ i < 4,
        store = (getSubmatC m n (mPos + i) (nBlock * ith) + (ni - nBlock * ith), stored m k ba bb s (mPos + i) ni)]
      · constructor
        · rintro ⟨ni, above, below, i, inTokens, same⟩
          exact ⟨i, inTokens, ni, above, below, same⟩
        · rintro ⟨i, inTokens, ni, above, below, same⟩
          exact ⟨ni, above, below, i, inTokens, same⟩
      · intro ni above _ scratch
        rw [List.mem_flatMap]
        constructor
        · rintro ⟨i, inTokens, member⟩
          obtain ⟨j, inRange, rfl⟩ := List.mem_map.mp member
          have inFour := List.mem_range.mp inRange
          refine ⟨j, inFour, i, List.mem_range.mp inTokens, ?_⟩
          rw [logical_stored _ _ (shown.four ni scratch j inFour), Nat.add_assoc, ← Nat.sub_add_comm above]
        · rintro ⟨j, inFour, i, inTokens, rfl⟩
          refine ⟨i, List.mem_range.mpr inTokens, List.mem_map.mpr ⟨j, List.mem_range.mpr inFour, ?_⟩⟩
          rw [logical_stored _ _ (shown.four ni scratch j inFour), Nat.add_assoc, ← Nat.sub_add_comm above]
      · intro ni _ _ scratch
        rw [List.mem_map]
        constructor
        · rintro ⟨i, inTokens, rfl⟩
          exact ⟨i, List.mem_range.mp inTokens, by rw [logical_stored _ _ (shown.one ni scratch)]⟩
        · rintro ⟨i, inTokens, rfl⟩
          exact ⟨i, List.mem_range.mpr inTokens, by rw [logical_stored _ _ (shown.one ni scratch)]⟩
    · intro mi _ _ scratch
      exact mem_tokenRow shown avx512Bf16 ba _ _ mi scratch store

theorem mem_naturalImpl {σ : Type} {four : Nat → σ → (Nat → Nat → BitVec 32) × σ} {one : Nat → σ → (Nat → BitVec 32) × σ}
    (fours : ∀ ni state, ∀ j < 4, ∀ g < k / 32, (four ni state).1 j g = s (ni + j) g)
    (ones : ∀ ni state, ∀ g < k / 32, (one ni state).1 g = s ni g) {ba : BufferA} {logical : Nat → BitVec 16}
    (permuted : ∀ g < k / 32, ∀ lane < 32, ba.a (BufferA.getSubmat 1 k 0 0 + (32 * g + lane)) = logical (32 * g + naturalPlace lane))
    (ith : Nat) (state : σ) (store : Nat × ℚ) :
    store ∈ (naturalImpl n k ba bb four one ith state).1 ↔ Elements 1 n ith (fun _ ni => groupSum k (s ni) bb.b logical ni) store := by
  have element (read : Nat → BitVec 32) (ni : Nat) (shown : ∀ g < k / 32, read g = s ni g) :
      element (fun w act => dpbf16 act (mxfp4ToBf16x32Natural w)) (k / 32) read (fun i => bb.b (BufferB.getSubmat k ni 0 + i))
        (fun i => ba.a (BufferA.getSubmat 1 k 0 0 + i)) = groupSum k (s ni) bb.b logical ni := by
    rw [naturalElement_eq k bb.b read ni logical _ permuted]
    exact groupSum_congr shown _ _ _
  rw [naturalImpl, splitRangeN]
  dsimp only
  split
  next empty => exact ⟨fun absurd => (List.not_mem_nil absurd).elim, fun element => (not_elements empty element).elim⟩
  next =>
    rw [mem_byFours fun ni =>
      store = (getSubmatC 1 n 0 (nBlock * ith) + (ni - nBlock * ith), groupSum k (s ni) bb.b logical ni)]
    · constructor
      · rintro ⟨ni, above, below, same⟩
        exact ⟨0, Nat.one_pos, ni, above, below, same⟩
      · rintro ⟨mi, single, ni, above, below, same⟩
        have first : mi = 0 := by omega
        exact ⟨ni, above, below, by rw [same, first]⟩
    · intro ni above _ state
      rw [List.mem_map]
      constructor
      · rintro ⟨j, inRange, rfl⟩
        have inFour := List.mem_range.mp inRange
        refine ⟨j, inFour, ?_⟩
        rw [element _ _ (fours ni state j inFour), Nat.add_assoc, ← Nat.sub_add_comm above]
      · rintro ⟨j, inFour, rfl⟩
        refine ⟨j, List.mem_range.mpr inFour, ?_⟩
        rw [element _ _ (fours ni state j inFour), Nat.add_assoc, ← Nat.sub_add_comm above]
    · intro ni _ _ state
      rw [List.mem_singleton, element _ _ (ones ni state)]

theorem mem_natural (groups : k / bb.kGroupSize = bb.kGroupCount) (group32 : bb.kGroupCount = k / 32) (fits : k / 32 ≤ maxGroupCount)
    {ba : BufferA} {logical : Nat → BitVec 16}
    (permuted : ∀ g < k / 32, ∀ lane < 32, ba.a (BufferA.getSubmat 1 k 0 0 + (32 * g + lane)) = logical (32 * g + naturalPlace lane))
    (stack : Nat → BitVec 32) (ith : Nat) (scratch : Scratch) (store : Nat × ℚ) :
    store ∈ (fp4MatVecKgroupNatural n k ba bb stack ith scratch).1 ↔
      Elements 1 n ith (fun _ ni => groupSum k (bb.scale ni) bb.b logical ni) store := by
  have shown : ScalesShown bb k bb.scale := scalesShown_fits groups group32 (group32 ▸ fits)
  cases valid : bb.scaleE8Valid with
  | false =>
      rw [fp4MatVecKgroupNatural, valid, if_neg (by decide)]
      exact mem_naturalImpl shown.four shown.one permuted ith _ store
  | true =>
      have byte : ∀ ni g, bb.scale ni g = expandExponent (bb.d (bb.getScaleE8 ni 0 + g)) := by
        intro ni g
        rw [BufferB.scale, valid, if_pos rfl, BufferB.getScaleE8_row]
      have apart : ∀ i < 4, ∀ j < 4, i ≠ j → i ≠ j := fun _ _ _ _ different => different
      rw [fp4MatVecKgroupNatural, valid, if_pos rfl]
      apply mem_naturalImpl _ _ permuted
      · intro ni cells j inFour g inside
        have row := @expandFour_row (k / 32) (fun j i => bb.d (bb.getScaleE8 (ni + j) 0 + i)) (fun j => j) cells apart fits j g inFour inside
        rw [byte, ← row, expandFour]
      · intro ni cells g inside
        rw [byte, ← expand_inside (fun i => bb.d (bb.getScaleE8 ni 0 + i)) cells inside]

end KtKernel.Amx.Mxfp4
