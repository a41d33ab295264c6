import KtKernel.Avx2.VnniGptqLoads

namespace KtKernel.Avx2.VnniGptq

open KtKernel.Data

/-! Both kernels compute the product of the quantized activations and the weights. -/

variable {sizes : Sizes} {data : Data} {row column g nth ith : Nat}

def activations (sizes : Sizes) (data : Data) (row g : Nat) (i : Nat) : ℚ :=
  data.src (row * sizes.k + g * sizes.groupSize + i)

def groupDot (sizes : Sizes) (data : Data) (row column g : Nat) : Int :=
  ∑ i ∈ Finset.range sizes.groupSize,
    (quantized (activations sizes data row g) sizes.groupSize i - 128) * (nibble sizes data column (g * sizes.groupSize + i) - 8)

theorem product_eq (sizes : Sizes) (data : Data) (row column : Nat) :
    product sizes data row column = ∑ g ∈ Finset.range sizes.numGroups,
      groupMax (activations sizes data row g) sizes.groupSize / 127 * data.scales (g * sizes.n + column) * groupDot sizes data row column g := rfl

/-- An all-zero group adds nothing, whatever its scale is. -/
theorem groupDot_zero (zero : groupMax (activations sizes data row g) sizes.groupSize ≤ fltMin) : groupDot sizes data row column g = 0 := by
  apply Finset.sum_eq_zero
  intro i _
  rw [quantized, if_pos zero, sub_self, zero_mul]

/-- The offset of the bytes, taken back with the sum of the weights. -/
theorem groupDot_eq (sizes : Sizes) (data : Data) (row column g : Nat) :
    groupDot sizes data row column g =
      ∑ i ∈ Finset.range sizes.groupSize, quantized (activations sizes data row g) sizes.groupSize i *
          (nibble sizes data column (g * sizes.groupSize + i) - 8) -
        128 * ∑ i ∈ Finset.range sizes.groupSize, (nibble sizes data column (g * sizes.groupSize + i) - 8) := by
  rw [groupDot, Finset.mul_sum, ← Finset.sum_sub_distrib]
  simp only [sub_mul]

theorem weights_of_words (fit : sizes.Fit) (words : Nat → BitVec 32)
    (same : ∀ wr < sizes.groupSize / 8, words wr = data.qweight ((g * (sizes.groupSize / 8) + wr) * sizes.n + column)) :
    ∑ place ∈ Finset.range sizes.groupSize, (wordNibble (words (place / 8)) (place % 8) - 8) =
      ∑ i ∈ Finset.range sizes.groupSize, (nibble sizes data column (g * sizes.groupSize + i) - 8) := by
  have product : g * sizes.groupSize = g * (sizes.groupSize / 8) * 8 := by rw [Nat.mul_assoc, Nat.div_mul_cancel fit.words]
  have whole := Nat.div_mul_cancel fit.words
  apply Finset.sum_congr rfl
  intro place inGroup
  have inside := Finset.mem_range.mp inGroup
  have word : (g * sizes.groupSize + place) / 8 = g * (sizes.groupSize / 8) + place / 8 := by omega
  have nib : (g * sizes.groupSize + place) % 8 = place % 8 := by omega
  rw [same _ (by omega), nibble, word, nib]
  rfl

theorem nibble_bound (sizes : Sizes) (data : Data) (column place : Nat) : |nibble sizes data column place - 8| ≤ 8 :=
  weight_bound _ _

theorem lanes_of_group (fit : sizes.Fit) (limit : sizes.groupSize ≤ 2048) (data : Data) (row column g : Nat) {a : Nat → BitVec 8} {b : Nat → Int}
    (bytes : ∀ i < sizes.groupSize, ((a i).toNat : Int) = quantized (activations sizes data row g) sizes.groupSize i)
    (weights : ∀ i < sizes.groupSize, b i = nibble sizes data column (g * sizes.groupSize + i) - 8) :
    ∑ lane ∈ Finset.range 8, accumulators a b (sizes.groupSize / 32) lane =
      ∑ i ∈ Finset.range sizes.groupSize, quantized (activations sizes data row g) sizes.groupSize i *
        (nibble sizes data column (g * sizes.groupSize + i) - 8) := by
  have small : ∀ place < sizes.groupSize, |b place| ≤ 8 := by
    intro place inside
    rw [weights place inside]
    exact nibble_bound _ _ _ _
  rw [accumulators_sum (exactDots small limit a) fit.lanes]
  apply Finset.sum_congr rfl
  intro i inGroup
  have inside := Finset.mem_range.mp inGroup
  rw [bytes i inside, weights i inside]

theorem storeRange_run (start length : Nat) (value memory : Nat → ℚ) :
    (storeRange start length value).run memory = put start length value memory := by
  funext cell
  rw [Store.run, storeRange, put]
  split
  · rfl
  · rfl

namespace Packed

/-- An element of a block is the product, whatever the staging rows held before. -/
theorem gemmElement_eq (fit : sizes.Fit) (limit : sizes.groupSize ≤ 2048) {a : BufferA} {b : BufferB}
    (loadedA : ∀ g < sizes.numGroups, a.scales (row * (sizes.k / sizes.groupSize) + g) =
        (quantizeGroup (activations sizes data row g) sizes.groupSize).1 ∧
      ∀ i < sizes.groupSize, a.data (row * sizes.k + (g * sizes.groupSize + i)) =
        (quantizeGroup (activations sizes data row g) sizes.groupSize).2 i)
    (jb : Nat) {j : Nat} (inBlock : j < 8)
    (loadedWords : ∀ w < sizes.kPacked, b.qweight ((jb * 8 + j) * sizes.kPacked + w) = data.qweight (w * sizes.n + (jb * 8 + j)))
    (loadedScales : ∀ g < sizes.numGroups, b.scales ((jb * 8 + j) * sizes.numGroups + g) = data.scales (g * sizes.n + (jb * 8 + j)) ∧
      b.c2 ((jb * 8 + j) * sizes.numGroups + g) = 128 * data.scales (g * sizes.n + (jb * 8 + j)) *
        rowsum (fun wr => data.qweight ((g * (sizes.groupSize / 8) + wr) * sizes.n + (jb * 8 + j))) sizes.groupSize)
    (stale : Nat → BitVec 8) :
    gemmElement sizes a b (unpackJbToTmp sizes b jb stale) jb row j = product sizes data row (jb * 8 + j) := by
  rw [gemmElement, foldl_lanes_beside, hsumHadd_eq, Finset.sum_comm, ← Finset.sum_sub_distrib, product_eq]
  apply Finset.sum_congr rfl
  intro g inRange
  have inGroups := Finset.mem_range.mp inRange
  obtain ⟨scale, bytes⟩ := loadedA g inGroups
  obtain ⟨weightScale, correction⟩ := loadedScales g inGroups
  obtain ⟨groupScale, groupBytes⟩ := quantizeGroup_eq (activations sizes data row g) fit.words
  have lanes := lanes_of_group fit limit data row (jb * 8 + j) g
    (a := fun place => a.data (row * sizes.k + (g * sizes.groupSize + place)))
    (b := fun place => (unpackJbToTmp sizes b jb stale (j * tmpStride sizes.k + (g * sizes.groupSize + place))).toInt)
    (fun i inside => by rw [bytes i inside, groupBytes i inside])
    (fun i inside => by
      have inRow := fit.place_lt inGroups inside
      have inWords : (g * sizes.groupSize + i) / 8 < sizes.kPacked := by
        have whole := fit.kPacked_eq
        omega
      rw [staged fit b jb stale inBlock inRow, loadedWords _ inWords]
      rfl)
  rw [← Finset.sum_mul, ← Int.cast_sum, lanes, scale, weightScale, correction, groupScale, rowsum_eq _ fit.words,
    weights_of_words fit _ fun wr _ => rfl]
  by_cases zero : groupMax (activations sizes data row g) sizes.groupSize ≤ fltMin
  · have nothing : groupDot sizes data row (jb * 8 + j) g = 0 := groupDot_zero zero
    rw [groupDot_eq] at nothing
    have difference := congrArg (Int.cast : Int → ℚ) nothing
    rw [Int.cast_sub, Int.cast_mul, Int.cast_zero, sub_eq_zero] at difference
    rw [if_pos zero, groupDot_zero zero, difference]
    push_cast
    ring
  · rw [if_neg zero, groupDot_eq]
    push_cast
    ring

theorem Result.cell {c : Nat → ℚ} (fit : sizes.Fit) (limit : sizes.groupSize ≤ 2048) (blocks : 8 ∣ sizes.n)
    (result : Result sizes data c) (inRows : row < data.m) (inColumns : column < sizes.n) :
    c (row * sizes.n + column) = product sizes data row column := by
  obtain ⟨nthA, nthB, nthC, a₀, a, b₀, b, c₀, stale, someA, someB, someC, ranA, ranB, ranC⟩ := result.runs
  have whole := Nat.div_mul_cancel blocks
  have element : ∀ ith jb mi j, jb < sizes.n / 8 → mi < data.m → j < 8 →
      gemmElement sizes a b (unpackJbToTmp sizes b jb (stale ith jb)) jb mi j = product sizes data mi (jb * 8 + j) := by
    intro ith jb mi j inBlocks inRows inBlock
    obtain ⟨words, scales⟩ := loaded_b fit someB ranB (show jb * 8 + j < sizes.n by omega)
    exact gemmElement_eq fit limit (fun g inGroups => loaded_a fit someA ranA inRows inGroups) jb inBlock words scales _
  have jbs : ∀ ith, gemm sizes data.m a b stale nthC ith =
      (List.range' (splitStart (sizes.n / 8) nthC ith) (splitStart (sizes.n / 8) nthC (ith + 1) - splitStart (sizes.n / 8) nthC ith)).flatMap
        fun jb => (List.range data.m).map fun mi =>
          storeRange (mi * sizes.n + jb * 8) 8 (gemmElement sizes a b (unpackJbToTmp sizes b jb (stale ith jb)) jb mi) := by
    intro ith
    rw [gemm, splitRangeJb_eq]
    simp only [Nat.mul_div_cancel_left _ (show 0 < 8 by decide)]
  obtain ⟨owner, inThreads, above, below⟩ := exists_share (sizes.n / 8) nthC (show column / 8 < sizes.n / 8 by omega) someC
  have member : storeRange (row * sizes.n + column / 8 * 8) 8
      (gemmElement sizes a b (unpackJbToTmp sizes b (column / 8) (stale owner (column / 8))) (column / 8) row) ∈
        gemm sizes data.m a b stale nthC owner := by
    rw [jbs]
    exact List.mem_flatMap.mpr ⟨column / 8, List.mem_range'_1.mpr ⟨above, by omega⟩,
      List.mem_map_of_mem (List.mem_range.mpr inRows)⟩
  refine Ran.agreed (fun c => c (row * sizes.n + column)) ?_ ⟨owner, inThreads, _, member, fun memory => ?_⟩ ranC
  · intro ith inside store member
    rw [jbs] at member
    obtain ⟨jb, own, inBlock⟩ := List.mem_flatMap.mp member
    obtain ⟨mi, inMi, rfl⟩ := List.mem_map.mp inBlock
    have inBlocks : jb < sizes.n / 8 := by
      obtain ⟨first, last⟩ := List.mem_range'_1.mp own
      exact lt_of_share inside (by omega)
    simp only [storeRange_run]
    apply put_known
    intro start finish
    have place : ∃ j < 8, row * sizes.n + column = mi * sizes.n + (jb * 8 + j) := ⟨row * sizes.n + column - (mi * sizes.n + jb * 8), by omega, by omega⟩
    obtain ⟨j, inEight, address⟩ := place
    obtain ⟨rfl, rfl⟩ := split_unique inColumns (show jb * 8 + j < sizes.n by omega) address
    have offset : row * sizes.n + (jb * 8 + j) - (row * sizes.n + jb * 8) = j := by omega
    rw [offset]
    exact element ith jb row j inBlocks inRows inEight
  · have address : row * sizes.n + column = row * sizes.n + column / 8 * 8 + column % 8 := by omega
    have small := Nat.mod_lt column (show 0 < 8 by decide)
    have value := element owner (column / 8) row (column % 8) (by omega) inRows small
    rw [Nat.div_add_mod'] at value
    rw [storeRange_run, address, put_inside _ _ small, value]

end Packed

namespace Unpacked

theorem dot_eq (fit : sizes.Fit) (limit : sizes.groupSize ≤ 256) {b : BufferB} {aU8 : Nat → BitVec 8}
    (bytes : ∀ i < sizes.groupSize, ((aU8 i).toNat : Int) = quantized (activations sizes data row g) sizes.groupSize i)
    (inGroups : g < sizes.numGroups)
    (loadedWeights : ∀ place < sizes.k,
      b.qweightS8 (column * sizes.k + place) = value (data.qweight (place / 8 * sizes.n + column)) (place % 8))
    (loadedSums : b.weightSums (g * sizes.n + column) = BitVec.ofInt 16
      (groupSum (fun kr => data.qweight (g * (sizes.groupSize / 8) * sizes.n + column + kr * sizes.n)) sizes.groupSize)) :
    dot sizes b aU8 g column = groupDot sizes data row column g := by
  have range := inRange fit.lanes limit
  have weights : ∀ i < sizes.groupSize, (b.qweightS8 (column * sizes.k + (g * sizes.groupSize + i))).toInt =
      nibble sizes data column (g * sizes.groupSize + i) - 8 := by
    intro i inside
    rw [loadedWeights _ (fit.place_lt inGroups inside), value_toInt]
    rfl
  have lanes := lanes_of_group fit (limit.trans (by decide)) data row column g bytes weights
  have steps : (sizes.groupSize + 31) / 32 = sizes.groupSize / 32 := by
    have whole := Nat.div_mul_cancel fit.lanes
    omega
  have sum : groupSum (fun kr => data.qweight (g * (sizes.groupSize / 8) * sizes.n + column + kr * sizes.n)) sizes.groupSize =
      ∑ i ∈ Finset.range sizes.groupSize, (nibble sizes data column (g * sizes.groupSize + i) - 8) := by
    refine (groupSum_eq _ fit.words).trans (weights_of_words fit
      (fun kr => data.qweight (g * (sizes.groupSize / 8) * sizes.n + column + kr * sizes.n)) fun wr _ => congrArg data.qweight ?_)
    rw [Nat.add_mul, Nat.add_right_comm]
  obtain ⟨total, difference⟩ := range.difference aU8 fun kr => data.qweight (g * (sizes.groupSize / 8) * sizes.n + column + kr * sizes.n)
  have correction := range.correction fun kr => data.qweight (g * (sizes.groupSize / 8) * sizes.n + column + kr * sizes.n)
  have others := lanes_of_group fit (limit.trans (by decide)) data row column g bytes
    (b := fun place => (value (data.qweight (g * (sizes.groupSize / 8) * sizes.n + column + place / 8 * sizes.n)) (place % 8)).toInt)
    fun i _ => by
      have word := word_value fit data.qweight column g (i / 8) (Nat.mod_lt i (show 0 < 8 by decide))
      have place : g * sizes.groupSize + i / 8 * 8 + i % 8 = g * sizes.groupSize + i := by omega
      rw [place] at word
      rw [word, value_toInt]
      rfl
  rw [others] at total difference
  rw [sum] at difference correction
  rw [dot, steps, hsumHadd_wrap, lanes, loadedSums, range.sums, sum, wrapAdd, bmod_of_abs_lt total, bmod_of_abs_lt correction,
    ← sub_eq_add_neg, bmod_of_abs_lt difference, groupDot_eq]

/-- What a thread does to a cell outside of its rows or columns. -/
theorem gemmRow_skips (a : Nat → ℚ) (b : BufferB) {mi nStart nEnd : Nat} (inColumns : column < sizes.n) (within : nEnd ≤ sizes.n)
    (apart : mi = row → column < nStart ∨ nEnd ≤ column) {store : Store Nat ℚ} (member : store ∈ gemmRow sizes a b nStart nEnd mi) :
    store.Skips (row * sizes.n + column) := by
  intro old
  rcases List.mem_cons.mp member with rfl | inGroups
  · rw [storeRange, if_neg]
    intro covered
    obtain ⟨offset, address⟩ := Nat.exists_eq_add_of_le covered.1
    obtain ⟨same, place⟩ := split_unique inColumns (show nStart + offset < sizes.n by omega)
      (show row * sizes.n + column = mi * sizes.n + (nStart + offset) by omega)
    have outside := apart same.symm
    omega
  · obtain ⟨g, -, inGroup⟩ := List.mem_flatMap.mp inGroups
    dsimp only at inGroup
    split at inGroup
    · contradiction
    · obtain ⟨ni, own, rfl⟩ := List.mem_map.mp inGroup
      obtain ⟨first, last⟩ := List.mem_range'_1.mp own
      rw [addTo, if_neg]
      intro address
      obtain ⟨same, rfl⟩ := split_unique inColumns (show ni < sizes.n by omega) address
      have outside := apart same.symm
      omega

/-- A row of a thread leaves the sum of what its groups add. -/
theorem gemmRow_cell {a : Nat → ℚ} {b : BufferB} {nStart nEnd : Nat} (inColumns : column < sizes.n) (_within : nEnd ≤ sizes.n)
    (above : nStart ≤ column) (below : column < nEnd) (memory : Nat → ℚ) :
    Store.runAll (gemmRow sizes a b nStart nEnd row) memory (row * sizes.n + column) =
      ∑ g ∈ Finset.range sizes.numGroups,
        let group := quantizeActivationGroupU8 (fun i => a (row * sizes.k + g * sizes.groupSize + i)) sizes.groupSize
        if group.1 = 0 then 0 else dot sizes b group.2 g column * group.1 * b.scales (g * sizes.n + column) := by
  have filled : (storeRange (row * sizes.n + nStart) (nEnd - nStart) fun _ => 0).run memory (row * sizes.n + column) = 0 := by
    obtain ⟨offset, rfl⟩ := Nat.exists_eq_add_of_le above
    rw [storeRange_run, ← Nat.add_assoc, put_inside _ _ (by omega)]
  rw [gemmRow, Store.runAll_cons, Store.runAll_flatMap_added _ _ ?_ _, filled, zero_add]
  intro g _ memory
  dsimp only
  split
  · rw [Store.runAll_nil, add_zero]
  · rw [Store.runAll_owned (List.nodup_range' ..) (List.mem_range'_1.mpr ⟨above, by omega⟩)]
    · simp only [Store.run, addTo, if_pos, Option.getD_some]
    · intro ni own different old
      have last := (List.mem_range'_1.mp own).2
      rw [addTo, if_neg]
      intro address
      exact different (split_unique inColumns (show ni < sizes.n by omega) address).2.symm

theorem Result.cell {c : Nat → ℚ} (fit : sizes.Fit) (limit : sizes.groupSize ≤ 256) (result : Result sizes data c)
    (inRows : row < data.m) (inColumns : column < sizes.n) : c (row * sizes.n + column) = product sizes data row column := by
  obtain ⟨nthA, nthB, nthC, a₀, a, b₀, b, c₀, someA, someB, someC, ranA, ranB, ranC⟩ := result.runs
  obtain ⟨weights, groups⟩ := loaded_b fit someB ranB inColumns
  obtain ⟨owner, inThreads, above, below⟩ := exists_share sizes.n nthC inColumns someC
  have share : ∀ ith, gemm sizes data.m a b nthC ith =
      (List.range data.m).flatMap (gemmRow sizes a b (splitStart sizes.n nthC ith) (splitStart sizes.n nthC (ith + 1))) := by
    intro ith
    rw [gemm, splitRange_eq]
  have within : ∀ ith < nthC, splitStart sizes.n nthC (ith + 1) ≤ sizes.n := by
    intro ith inside
    have last := splitStart_mono sizes.n nthC (show ith + 1 ≤ nthC from inside)
    rw [splitStart_last sizes.n someC] at last
    exact last
  have others : ∀ ith < nthC, ith ≠ owner → ∀ store ∈ gemm sizes data.m a b nthC ith, store.Skips (row * sizes.n + column) := by
    intro ith inside different store member
    rw [share] at member
    obtain ⟨mi, -, inRow⟩ := List.mem_flatMap.mp member
    refine gemmRow_skips a b inColumns (within ith inside) (fun _ => ?_) inRow
    by_contra inShare
    rw [not_or, Nat.not_lt, Nat.not_le] at inShare
    exact different (share_unique sizes.n nthC inShare.1 inShare.2 above below)
  rw [ranC.owned inThreads others, share, Store.runAll_flatMap_owned List.nodup_range (List.mem_range.mpr inRows),
    gemmRow_cell inColumns (within owner inThreads) above below, product_eq]
  · apply Finset.sum_congr rfl
    intro g inRange
    have inGroups := Finset.mem_range.mp inRange
    obtain ⟨scales, sums⟩ := groups g inGroups
    have same : ∀ i < sizes.groupSize, a (row * sizes.k + g * sizes.groupSize + i) = activations sizes data row g i := by
      intro i inside
      rw [Nat.add_assoc, loaded_a someA ranA inRows (fit.place_lt inGroups inside), ← Nat.add_assoc]
      rfl
    obtain ⟨scale, bytes⟩ := quantizeActivationGroupU8_eq (fun i => a (row * sizes.k + g * sizes.groupSize + i)) sizes.groupSize
    have largest := groupMax_congr same
    have rounded : ∀ i < sizes.groupSize, quantized (fun i => a (row * sizes.k + g * sizes.groupSize + i)) sizes.groupSize i =
        quantized (activations sizes data row g) sizes.groupSize i := by
      intro i inside
      rw [quantized, quantized, largest, same i inside]
    have exact_ := dot_eq fit limit (fun i inside => (bytes i inside).trans (rounded i inside)) inGroups weights sums
    dsimp only
    rw [scale, largest]
    by_cases zero : groupMax (activations sizes data row g) sizes.groupSize ≤ fltMin
    · rw [if_pos zero, if_pos rfl, groupDot_zero zero, Int.cast_zero, mul_zero]
    · have positive : groupMax (activations sizes data row g) sizes.groupSize / 127 ≠ 0 := by
        have some_ := fltMin_positive.trans (not_le.mp zero)
        exact (div_pos some_ (by norm_num)).ne'
      rw [if_neg zero, if_neg positive, exact_, scales]
      ring
  · intro mi _ different store member
    exact gemmRow_skips a b inColumns (within owner inThreads) (fun same => absurd same different) member

end Unpacked

/-! ## Both backends -/

/-- The sizes that pass the checks of a buffer of weights. -/
theorem fit_of_checks {n k : Nat} {groupSize : Int} (positive : 0 < groupSize) (lanes : groupSize % 32 = 0)
    (groups : (k : Int) % groupSize = 0) : Sizes.Fit ⟨n, k, groupSize.toNat⟩ := by
  obtain ⟨size, rfl⟩ := Int.eq_ofNat_of_zero_le positive.le
  exact
    { some_ := by simpa using positive
      lanes := Int.natCast_dvd_natCast.mp (Int.dvd_of_emod_eq_zero lanes)
      groups := Int.natCast_dvd_natCast.mp (Int.dvd_of_emod_eq_zero groups) }

theorem Packed.BufferB.init_ok {n k : Nat} {groupSize : Int} (made : Packed.BufferB.init n k groupSize = .ok sizes) :
    sizes = ⟨n, k, groupSize.toNat⟩ ∧ sizes.Fit ∧ sizes.groupSize ≤ 2048 ∧ 8 ∣ sizes.k := by
  simp only [Packed.BufferB.init, require_bind_ok] at made
  obtain ⟨group, limit, whole, same⟩ := made
  cases same
  simp only [Bool.and_eq_true, decide_eq_true_eq] at group limit whole
  exact ⟨rfl, fit_of_checks group.1 group.2 whole.2, Int.toNat_le.mpr limit, Nat.dvd_of_mod_eq_zero whole.1⟩

theorem Unpacked.BufferB.init_ok {n k : Nat} {groupSize : Int} (made : Unpacked.BufferB.init n k groupSize = .ok sizes) :
    sizes = ⟨n, k, groupSize.toNat⟩ ∧ sizes.Fit ∧ sizes.groupSize ≤ 256 := by
  simp only [Unpacked.BufferB.init, require_bind_ok] at made
  obtain ⟨group, limit, whole, same⟩ := made
  cases same
  simp only [Bool.and_eq_true, decide_eq_true_eq] at group limit whole
  exact ⟨rfl, fit_of_checks group.1 group.2 whole.2, Int.toNat_le.mpr limit⟩

theorem Packed.result_exists (sizes : Sizes) (data : Data) : ∃ c, Packed.Result sizes data c :=
  ⟨_, ⟨1, 1, 1, ⟨fun _ => 0, fun _ => 0⟩, _, ⟨fun _ => 0, fun _ => 0, fun _ => 0⟩, _, fun _ => 0, fun _ _ _ => 0,
    Nat.one_pos, Nat.one_pos, Nat.one_pos, ran_inOrder _ _ _ _, ran_inOrder _ _ _ _, ran_inOrder _ _ _ _⟩⟩

theorem Unpacked.result_exists (sizes : Sizes) (data : Data) : ∃ c, Unpacked.Result sizes data c :=
  ⟨_, ⟨1, 1, 1, fun _ => 0, _, ⟨fun _ => 0, fun _ => 0, fun _ => 0⟩, _, fun _ => 0,
    Nat.one_pos, Nat.one_pos, Nat.one_pos, ran_inOrder _ _ _ _, ran_inOrder _ _ _ _, ran_inOrder _ _ _ _⟩⟩

/-- Each kernel has results, and all of them are the product. -/
structure Agree (sizes : Sizes) (data : Data) : Prop where
  some_packed : ∃ c, Packed.Result sizes data c
  packed : ∀ c, Packed.Result sizes data c → ∀ row < data.m, ∀ column < sizes.n,
    c (row * sizes.n + column) = product sizes data row column
  some_unpacked : ∃ c, Unpacked.Result sizes data c
  unpacked : ∀ c, Unpacked.Result sizes data c → ∀ row < data.m, ∀ column < sizes.n,
    c (row * sizes.n + column) = product sizes data row column

theorem agree_of_fit (fit : sizes.Fit) (limit : sizes.groupSize ≤ 256) (blocks : 8 ∣ sizes.n) (data : Data) : Agree sizes data where
  some_packed := Packed.result_exists sizes data
  packed := fun _ result _ inRows _ inColumns => result.cell fit (limit.trans (by decide)) blocks inRows inColumns
  some_unpacked := Unpacked.result_exists sizes data
  unpacked := fun _ result _ inRows _ inColumns => result.cell fit limit inRows inColumns

/-- For every expert that both backends make buffers for, the kernels agree on all projections,
and no integer of either kernel leaves its range for any group size that the kernel accepts. -/
theorem kernels_agree (config : Config) {buffers others : Sizes × Sizes} (packed : Packed.makeBuffers config = .ok buffers)
    (unpacked : Unpacked.makeBuffers config = .ok others) :
    (buffers = others ∧ buffers.1 = ⟨config.intermediateSize, config.hiddenSize, config.groupSize.toNat⟩ ∧
      buffers.2 = ⟨config.hiddenSize, config.intermediateSize, config.groupSize.toNat⟩) ∧
    (∀ data, Agree buffers.1 data ∧ Agree buffers.2 data) ∧
    (∀ n k groupSize sizes, Packed.BufferB.init n k groupSize = .ok sizes → Packed.InRange sizes.groupSize) ∧
      ∀ n k groupSize sizes, Unpacked.BufferB.init n k groupSize = .ok sizes → Unpacked.InRange sizes.groupSize := by
  simp only [Packed.makeBuffers, bind_ok] at packed
  obtain ⟨-, -, -, -, gateUp, gateUpMade, down, downMade, same⟩ := packed
  cases same
  simp only [Unpacked.makeBuffers, bind_ok] at unpacked
  obtain ⟨gateUp', gateUpMade', down', downMade', same⟩ := unpacked
  cases same
  obtain ⟨rfl, gateUpFit, -, gateUpWords⟩ := Packed.BufferB.init_ok gateUpMade
  obtain ⟨rfl, downFit, -, downWords⟩ := Packed.BufferB.init_ok downMade
  obtain ⟨rfl, -, limit⟩ := Unpacked.BufferB.init_ok gateUpMade'
  obtain ⟨rfl, -, -⟩ := Unpacked.BufferB.init_ok downMade'
  refine ⟨⟨rfl, rfl, rfl⟩, fun data => ⟨?_, ?_⟩, fun n k groupSize sizes made => ?_, fun n k groupSize sizes made => ?_⟩
  · exact agree_of_fit gateUpFit limit downWords data
  · exact agree_of_fit downFit limit gateUpWords data
  · obtain ⟨-, fit, limit, -⟩ := Packed.BufferB.init_ok made
    exact Packed.inRange fit.words limit
  · obtain ⟨-, fit, limit⟩ := Unpacked.BufferB.init_ok made
    exact Unpacked.inRange fit.lanes limit

/-- Groups of 128 and a `k` beyond the staging limit. -/
theorem kernels_agree_long : (∀ data, Agree ⟨2048, 4096, 128⟩ data ∧ Agree ⟨4096, 2048, 128⟩ data) ∧
    Packed.makeBuffers ⟨4096, 2048, 128⟩ = .ok (⟨2048, 4096, 128⟩, ⟨4096, 2048, 128⟩) ∧ Packed.maxTmpRow < 4096 :=
  ⟨(kernels_agree ⟨4096, 2048, 128⟩ rfl rfl).2.1, rfl, by decide⟩

end KtKernel.Avx2.VnniGptq
