import KtKernel.Amx.Mxfp4Stores
import KtKernel.Data.Panels

namespace KtKernel.Amx.Mxfp4

open KtKernel.Data

/-! When the MXFP4 kernels agree. -/

variable {m n k : Nat}

theorem getSubmatC_block {ith ni : Nat} (above : nBlock * ith ≤ ni) (below : ni < min n (nBlock * (ith + 1))) (mi : Nat) :
    getSubmatC m n mi ni = getSubmatC m n mi (nBlock * ith) + (ni - nBlock * ith) := by
  have block : ni / nBlock * nBlock = nBlock * ith := by
    rw [nBlock] at above below ⊢
    omega
  have own : nBlock * ith / nBlock * nBlock = nBlock * ith := by
    rw [nBlock]
    omega
  simp only [getSubmatC, block, own, Nat.sub_self, Nat.add_zero]

/-- An element has a place of its own. -/
theorem getSubmatC_unique {mi ni mi' ni' : Nat} (inRows : mi < m) (inColumns : ni < n) (inRows' : mi' < m) (inColumns' : ni' < n)
    (same : getSubmatC m n mi ni = getSubmatC m n mi' ni') : mi = mi' ∧ ni = ni' := by
  have inside : ∀ mi ni, mi < m → ni < n → mi * min nBlock (n - ni / nBlock * nBlock) + (ni - ni / nBlock * nBlock) < m * nBlock := by
    intro mi ni inRows inColumns
    have rows := Nat.mul_le_mul_right (min nBlock (n - ni / nBlock * nBlock)) (show mi + 1 ≤ m from inRows)
    have width := Nat.mul_le_mul_left m (Nat.min_le_left nBlock (n - ni / nBlock * nBlock))
    rw [Nat.succ_mul] at rows
    have column : ni - ni / nBlock * nBlock < min nBlock (n - ni / nBlock * nBlock) := by
      rw [nBlock]
      omega
    omega
  have place : ∀ mi ni, getSubmatC m n mi ni = ni / nBlock * (m * nBlock) +
      (mi * min nBlock (n - ni / nBlock * nBlock) + (ni - ni / nBlock * nBlock)) := by
    intro mi ni
    rw [getSubmatC, Nat.mul_left_comm, Nat.add_assoc]
  rw [place, place] at same
  obtain ⟨block, offset⟩ := split_unique (inside mi ni inRows inColumns) (inside mi' ni' inRows' inColumns') same
  rw [block] at offset
  have column : ∀ ni, ni < n → ni / nBlock = ni' / nBlock → ni - ni' / nBlock * nBlock < min nBlock (n - ni' / nBlock * nBlock) := by
    intro ni inColumns sameBlock
    rw [← sameBlock, nBlock]
    omega
  obtain ⟨row, inBlock⟩ := split_unique (column ni inColumns block) (column ni' inColumns' rfl) offset
  rw [nBlock] at block inBlock
  exact ⟨row, by omega⟩

/-- The threads leave each element in its place, in any order of the stores. -/
theorem finished_elements {run : Nat → List (Nat × ℚ)} (value : Nat → Nat → ℚ)
    (stores : ∀ ith store, store ∈ run ith ↔ Elements m n ith value store) {before after : Nat → ℚ}
    (finished : Finished (recommendedNth n) (fun ith => (run ith).map fun store => put store.1 1 fun _ => store.2) before after)
    {mi ni : Nat} (inRows : mi < m) (inColumns : ni < n) : after (getSubmatC m n mi ni) = value mi ni := by
  obtain ⟨steps, ordered, rfl⟩ := finished
  apply runSteps_agreed fun memory => memory
  · intro step member
    obtain ⟨ith, -, inThread⟩ := List.mem_flatMap.mp (ordered.mem_iff.mp member)
    obtain ⟨store, stored, rfl⟩ := List.mem_map.mp inThread
    obtain ⟨mi', inRows', ni', above, below, rfl⟩ := (stores ith store).mp stored
    apply put_known
    intro above' below'
    have same : getSubmatC m n mi ni = getSubmatC m n mi' ni' := by
      rw [getSubmatC_block above below]
      omega
    obtain ⟨rfl, rfl⟩ := getSubmatC_unique inRows inColumns inRows' (below.trans_le (Nat.min_le_left _ _)) same
    rfl
  · have above : nBlock * (ni / nBlock) ≤ ni := Nat.mul_div_le ni nBlock
    have below : ni < min n (nBlock * (ni / nBlock + 1)) := by
      rw [nBlock]
      omega
    have thread : ni / nBlock < recommendedNth n := div_lt_blocks (by decide) inColumns
    have stored := (stores (ni / nBlock) _).mpr ⟨mi, inRows, ni, above, below, rfl⟩
    refine ⟨_, ordered.mem_iff.mpr (List.mem_flatMap.mpr ⟨_, List.mem_range.mpr thread, List.mem_map_of_mem stored⟩), ?_⟩
    intro memory
    rw [getSubmatC_block above below]
    exact put_inside _ memory Nat.one_pos

theorem computes_of_fits {b d : Nat → BitVec 8} {bb : BufferB} (built : BufferB.init n k 32 b d = .ok bb) (fits : k ≤ 7168)
    {avx512Bf16 : Bool} {kernel : Kernel} (allowed : kernel = .natural → avx512Bf16 = true ∧ m = 1) (src : Nat → BitVec 16) :
    kernel.Computes avx512Bf16 m n k bb.finalizeScaleE8 src (product k 32 src b d) := by
  obtain ⟨⟨-, whole, -⟩, rfl⟩ := BufferB.init_ok.mp built
  generalize original : (⟨b, d, n, k, 32, k / 32, false⟩ : BufferB) = bb
  have weights : bb.finalizeScaleE8.b = b := by rw [bb.finalize_same.1, ← original]
  have size : bb.finalizeScaleE8.kGroupSize = 32 := by rw [bb.finalize_same.2.2.2.1, ← original]
  have count : bb.finalizeScaleE8.kGroupCount = k / 32 := by rw [bb.finalize_same.2.2.2.2, ← original]
  have groupsFit : k / 32 ≤ maxGroupCount := by
    show k / 32 ≤ 7168 / 32
    omega
  have shown : ScalesShown bb.finalizeScaleE8 k bb.finalizeScaleE8.scale :=
    scalesShown_fits (by rw [size, count]) count (count ▸ groupsFit)
  have scales : ∀ ni < n, ∀ g < k / 32, bb.finalizeScaleE8.scale ni g = loadFloat d (ni * (k / 32) + g) := by
    subst original
    exact fun ni inRows g inRow => BufferB.finalize_scale _ inRows inRow
  have logical : ∀ (held : BufferA) mi ni, mi < m → ni < n →
      stored m k (held.fromMat m k src) bb.finalizeScaleE8 bb.finalizeScaleE8.scale mi ni = product k 32 src b d mi ni := by
    intro held mi ni inRows inColumns
    rw [stored, weights]
    exact groupSum_product whole src b d ni (scales ni inColumns) fun i inRow => fromMat_row held fits whole src inRows inRow
  intro held stack scratch before after
  cases kernel with
  | matVec =>
      intro ba finished mi inRows ni inColumns
      rw [← logical held mi ni inRows inColumns]
      exact finished_elements _ (fun ith store => mem_matVec shown avx512Bf16 _ ith _ store) finished inRows inColumns
  | matMat =>
      intro ba finished mi inRows ni inColumns
      rw [← logical held mi ni inRows inColumns]
      exact finished_elements _ (fun ith store => mem_matMat shown avx512Bf16 _ ith _ store) finished inRows inColumns
  | natural =>
      obtain ⟨rfl, rfl⟩ := allowed rfl
      intro ba finished mi inRows ni inColumns
      have permuted := fun g (inGroups : g < k / 32) lane (inGroup : lane < 32) => fromMatNatural_row held fits src inGroups inGroup
      have first : mi = 0 := by omega
      have single : product k 32 src b d mi ni = groupSum k (bb.finalizeScaleE8.scale ni) bb.finalizeScaleE8.b src ni := by
        rw [weights, first]
        exact (groupSum_product whole src b d ni (scales ni inColumns) fun i _ => by rw [Nat.zero_mul, Nat.zero_add]).symm
      rw [single]
      exact finished_elements (fun _ ni => groupSum k (bb.finalizeScaleE8.scale ni) bb.finalizeScaleE8.b src ni)
        (fun ith store => mem_natural (by rw [size, count]) count groupsFit permuted _ ith _ store) finished inRows inColumns

theorem pointsToOwn_of_fits {groupSize : Nat} {b d : Nat → BitVec 8} {bb : BufferB} (built : BufferB.init n k groupSize b d = .ok bb)
    (fits : k / groupSize ≤ maxGroupCount) : bb.finalizeScaleE8.PointsToOwn d := by
  obtain ⟨-, rfl⟩ := BufferB.init_ok.mp built
  generalize original : (⟨b, d, n, k, groupSize, k / groupSize, false⟩ : BufferB) = bb
  have same := bb.finalize_same
  have count : bb.finalizeScaleE8.kGroupCount = bb.kGroupCount := same.2.2.2.2
  have groups : bb.finalizeScaleE8.k / bb.finalizeScaleE8.kGroupSize = bb.finalizeScaleE8.kGroupCount := by
    rw [count, same.2.2.1, same.2.2.2.1, ← original]
  have groupsFit : bb.finalizeScaleE8.kGroupCount ≤ maxGroupCount := by
    rw [count, ← original]
    exact fits
  have scales : d = bb.d := by rw [← original]
  intro nPos inRows scratch
  show ∀ j < 4, ∀ g < bb.finalizeScaleE8.kGroupCount,
    ((bb.finalizeScaleE8.getScales nPos bb.finalizeScaleE8.k scratch).1 j).read bb.finalizeScaleE8
      (bb.finalizeScaleE8.getScales nPos bb.finalizeScaleE8.k scratch).2.cells g = _
  intro j inFour g inside
  rw [BufferB.getScales_reads groups groupsFit nPos scratch inFour inside, count, scales]
  rw [same.2.1] at inRows
  exact bb.finalize_scale (by omega) (count ▸ inside)

end KtKernel.Amx.Mxfp4
