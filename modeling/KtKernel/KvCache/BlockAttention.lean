import KtKernel.Data.Tiling
import Mathlib.Algebra.BigOperators.Field
import Mathlib.Analysis.Real.Sqrt
import KtKernel.Data.Gemm
import KtKernel.Data.Lanes
import KtKernel.Data.LogSums

namespace KtKernel.KvCache.Attention

open KtKernel.Data

/-! The attention to one block of an F16 cache, by `attn_with_kvcache_one_block_`.

Floats are real numbers, and a masked score counts as nothing.
-/

structure Config where
  kvHeadNum : Nat
  nGqa : Nat
  headDim : Nat
  blockLen : Nat
  tokens : 0 < blockLen
  groups : 32 ∣ blockLen

/-- The bytes of `thread_local_attn_mask_` for the first `seq_len` tokens of a block. -/
def lastMask (blockLen seqLen : Nat) (old : Nat → BitVec 8) (i : Nat) : BitVec 8 :=
  let fullBlocks := seqLen / 8
  let remainingBits := seqLen % 8
  if i < fullBlocks then 0xFF
  else if i = fullBlocks then
    if 0 < remainingBits ∧ fullBlocks < blockLen / 8 then ((1 : BitVec 8) <<< remainingBits) - 1 else 0
  else if i < blockLen / 8 then 0
  else old i

def masked (mask : Nat → BitVec 8) (j : Nat) : Bool :=
  mask (j / 8) &&& ((1 : BitVec 8) <<< (j % 8)) == 0

/-- The mask leaves the first tokens. -/
theorem masked_lastMask {blockLen seqLen j : Nat} (bytes : 8 ∣ blockLen) (inside : j < blockLen) (old : Nat → BitVec 8) :
    masked (lastMask blockLen seqLen old) j = decide (seqLen ≤ j) := by
  obtain ⟨count, rfl⟩ := bytes
  have full : ∀ bit : Fin 8, ((0xFF : BitVec 8) &&& ((1 : BitVec 8) <<< bit.val) == 0) = false := by decide
  have part : ∀ rest bit : Fin 8, (((1 : BitVec 8) <<< rest.val) - 1 &&& ((1 : BitVec 8) <<< bit.val) == 0) = decide (rest.val ≤ bit.val) := by decide
  have none : ∀ bit : Fin 8, ((0 : BitVec 8) &&& ((1 : BitVec 8) <<< bit.val) == 0) = true := by decide
  have bit : j % 8 < 8 := Nat.mod_lt j (by decide)
  have rest : seqLen % 8 < 8 := Nat.mod_lt seqLen (by decide)
  rw [masked, lastMask]
  by_cases below : j / 8 < seqLen / 8
  · rw [if_pos below, full ⟨j % 8, bit⟩, eq_comm, decide_eq_false_iff_not]
    omega
  rw [if_neg below]
  by_cases last : j / 8 = seqLen / 8
  · rw [if_pos last]
    by_cases some_ : 0 < seqLen % 8 ∧ seqLen / 8 < 8 * count / 8
    · rw [if_pos some_, part ⟨seqLen % 8, rest⟩ ⟨j % 8, bit⟩, decide_eq_decide]
      dsimp only
      omega
    · rw [if_neg some_, none ⟨j % 8, bit⟩, eq_comm, decide_eq_true_iff]
      omega
  · have inBlock : j / 8 < 8 * count / 8 := by omega
    rw [if_neg last, if_pos inBlock, none ⟨j % 8, bit⟩, eq_comm, decide_eq_true_iff]
    omega

/-! ## A block -/

section Block

variable (gemm : Gemm ℝ) (config : Config) (q k v : Nat → ℝ) (mask : Option (Nat → BitVec 8)) (buffer : Nat → ℝ)

def isMasked (j : Nat) : Bool :=
  match mask with
  | none => false
  | some bytes => masked bytes j

/-- `attn_score` after the product of the keys with the queries. -/
noncomputable def attnScore : Nat → ℝ :=
  Gemm.stored (gemm config.blockLen config.nGqa config.headDim k config.headDim q config.headDim config.blockLen 0 1) buffer

/-- `attn_score` after its exponential was taken. -/
noncomputable def expScore (i j : Nat) : ℝ :=
  if isMasked mask j then 0
  else Real.exp (attnScore gemm config q k buffer (i * config.blockLen + j) * (1 / Real.sqrt config.headDim))

noncomputable def sumExp (i : Nat) : ℝ :=
  (List.range config.blockLen).foldl (fun sum j => sum + expScore gemm config q k mask buffer i j) 0

/-- The output and `lse` of a query head of the group. -/
noncomputable def attnWithKvcacheOneBlock (i : Nat) : LogSum (Fin config.headDim) :=
  let attn := fun index => expScore gemm config q k mask buffer (index / config.blockLen) (index % config.blockLen) /
    sumExp gemm config q k mask buffer (index / config.blockLen)
  let sum := Gemm.stored (gemm config.headDim config.nGqa config.blockLen v config.blockLen attn config.blockLen config.headDim 0 1) buffer
  { lse := Real.log (sumExp gemm config q k mask buffer i)
    output := fun channel => sum (i * config.headDim + channel) }

end Block

/-- The score of a token of a block for a query head of the group. -/
noncomputable def score (config : Config) (q k : Nat → ℝ) (i j : Nat) : ℝ :=
  (∑ l ∈ Finset.range config.headDim, q (i * config.headDim + l) * k (j * config.headDim + l)) / Real.sqrt config.headDim

section Results

variable {gemm : Gemm ℝ} {config : Config} {q k v : Nat → ℝ} {mask : Option (Nat → BitVec 8)} {i j : Nat}

theorem expScore_eq (exact_ : gemm.Exact) (buffer : Nat → ℝ) (inGroup : i < config.nGqa) (inBlock : j < config.blockLen) :
    expScore gemm config q k mask buffer i j = if isMasked mask j then 0 else Real.exp (score config q k i j) := by
  have product : attnScore gemm config q k buffer (i * config.blockLen + j) =
      ∑ l ∈ Finset.range config.headDim, q (i * config.headDim + l) * k (j * config.headDim + l) := by
    rw [attnScore, Nat.mul_comm i, exact_.stored_entry (Nat.le_refl _) inBlock inGroup, Gemm.entry]
    apply Finset.sum_congr rfl
    intro l _
    rw [mul_comm, Nat.mul_comm config.headDim i, Nat.mul_comm config.headDim j]
  rw [expScore, product, score, mul_one_div]

theorem sumExp_eq (exact_ : gemm.Exact) (buffer : Nat → ℝ) (inGroup : i < config.nGqa) :
    sumExp gemm config q k mask buffer i =
      ∑ j ∈ Finset.range config.blockLen, if isMasked mask j then 0 else Real.exp (score config q k i j) := by
  rw [sumExp, foldl_range, zero_add]
  apply Finset.sum_congr rfl
  intro j inBlock
  exact expScore_eq exact_ buffer inGroup (Finset.mem_range.mp inBlock)

/-- A block with a token that is not masked keeps the weights of such tokens and their weighted values. -/
theorem oneBlock_sums (exact_ : gemm.Exact) (buffer : Nat → ℝ) (inGroup : i < config.nGqa)
    (some_ : ∃ j < config.blockLen, isMasked mask j = false) :
    (attnWithKvcacheOneBlock gemm config q k v mask buffer i).weight =
        ∑ j ∈ Finset.range config.blockLen, (if isMasked mask j then 0 else Real.exp (score config q k i j)) ∧
      ∀ channel, (attnWithKvcacheOneBlock gemm config q k v mask buffer i).total channel =
        ∑ j ∈ Finset.range config.blockLen,
          (if isMasked mask j then 0 else Real.exp (score config q k i j)) * v (channel * config.blockLen + j) := by
  have positive : 0 < sumExp gemm config q k mask buffer i := by
    obtain ⟨j, inBlock, shown⟩ := some_
    rw [sumExp_eq exact_ buffer inGroup]
    apply Finset.sum_pos'
    · intro j _
      split
      · exact le_refl _
      · exact (Real.exp_pos _).le
    · refine ⟨j, Finset.mem_range.mpr inBlock, ?_⟩
      rw [shown, if_neg Bool.false_ne_true]
      exact Real.exp_pos _
  have weight : (attnWithKvcacheOneBlock gemm config q k v mask buffer i).weight = sumExp gemm config q k mask buffer i :=
    Real.exp_log positive
  refine ⟨weight.trans (sumExp_eq exact_ buffer inGroup), ?_⟩
  intro channel
  have output : (attnWithKvcacheOneBlock gemm config q k v mask buffer i).output channel =
      (∑ j ∈ Finset.range config.blockLen, (if isMasked mask j then 0 else Real.exp (score config q k i j)) *
        v (channel * config.blockLen + j)) / sumExp gemm config q k mask buffer i := by
    simp only [attnWithKvcacheOneBlock]
    rw [Nat.mul_comm i, exact_.stored_entry (Nat.le_refl _) channel.isLt inGroup, Gemm.entry, Finset.sum_div]
    apply Finset.sum_congr rfl
    intro j inBlock
    have inside := Finset.mem_range.mp inBlock
    have row : (config.blockLen * i + j) / config.blockLen = i := by
      rw [Nat.mul_add_div config.tokens, Nat.div_eq_of_lt inside, Nat.add_zero]
    have place : (config.blockLen * i + j) % config.blockLen = j := by
      rw [Nat.mul_add_mod, Nat.mod_eq_of_lt inside]
    rw [row, place, expScore_eq exact_ buffer inGroup inside, mul_comm, div_mul_eq_mul_div, Nat.mul_comm config.blockLen]
  have total : (attnWithKvcacheOneBlock gemm config q k v mask buffer i).total channel =
      (attnWithKvcacheOneBlock gemm config q k v mask buffer i).output channel * sumExp gemm config q k mask buffer i := by
    rw [← weight]
    rfl
  rw [total, output, div_mul_cancel₀ _ positive.ne']

end Results

end KtKernel.KvCache.Attention
