import KtKernel.Data.Tiling
import Mathlib.Algebra.Order.BigOperators.Ring.Finset
import Mathlib.Algebra.Order.Field.Basic
import Mathlib.Algebra.Order.Ring.Rat
import Mathlib.Tactic.Linarith
import Mathlib.Tactic.NormNum
import Mathlib.Tactic.Ring
import KtKernel.Data.Gemm
import KtKernel.Data.Lanes
import KtKernel.Data.Overwrites

namespace KtKernel.KvCache.Similarity

open KtKernel.Data

/-! The similarity of the blocks of a sequence with its queries, by the three paths of
`calculate_block_similarity_layer_`.

Numbers and indices are exact.
-/

/-- A finite number of 16 bits. -/
structure Half where
  value : ℚ
  finite : |value| ≤ 65504

/-- `std::numeric_limits<float>::lowest()` -/
def lowest : ℚ := -(2 ^ 128 - 2 ^ 104)

structure Config where
  qHeadNum : Nat
  headDim : Nat
  blockLen : Nat
  maxBlockNum : Nat
  anchorNum : Nat
  heads : 0 < qHeadNum
  dims : 0 < headDim

/-- The arguments, with the tables and lengths that the initialisation has left. -/
structure Call where
  batchSize : Nat
  layerIdx : Nat
  qLen : Nat
  maxBlockNum : Nat
  initBlockNum : Nat
  localBlockNum : Nat
  threadNum : Nat
  cacheSeqlens : Nat → Nat
  blockTable : Nat → Nat → Nat
  queries : 0 < qLen
  threads : 0 < threadNum

/-- `do_work_stealing_job` with the stores of each task into `block_similar_`. -/
structure Job where
  count : Nat
  task : Nat → List ((Nat × Nat) × ℚ)

section Paths

variable (sgemm : Gemm ℚ) (config : Config) (call : Call) (q anchor : Nat → Half)

def Config.width : Nat := config.headDim * config.qHeadNum

/-- The end of the blocks that are compared. -/
def Call.last (batchId : Nat) : Nat :=
  call.cacheSeqlens batchId / config.blockLen - call.localBlockNum

def avgQ (batchId j : Nat) : ℚ :=
  if call.qLen = 1 then (q (batchId * call.qLen * config.width + j)).value
  else
    (if j < config.headDim then
      (List.range call.qLen).foldl (fun avg i => avg + (q (batchId * call.qLen * config.width + i * config.width + j)).value) 0
    else 0) / call.qLen

def anchorRow (block place : Nat) : ℚ :=
  (anchor ((call.layerIdx * config.maxBlockNum + block) * config.anchorNum * config.width + place)).value

/-- `is_seq`: the table names physical blocks that follow each other. -/
def isSeq (batchId : Nat) : Bool :=
  (List.range' (call.initBlockNum + 1) (call.last config batchId - (call.initBlockNum + 1))).all fun i =>
    call.blockTable batchId i == call.blockTable batchId (i - 1) + 1

/-- The path with one product for all blocks. -/
def contiguousTask (batchId ith : Nat) : List ((Nat × Nat) × ℚ) :=
  let blockNum := call.last config batchId - call.initBlockNum
  (sgemm blockNum 1 config.width (anchorRow config call anchor (call.blockTable batchId call.initBlockNum)) config.width
    (avgQ config call q batchId) config.width blockNum ith call.threadNum).map fun store => ((batchId, call.initBlockNum + store.1), store.2)

/-- The path with one product for each block. -/
def blockTask (batchId taskId : Nat) : List ((Nat × Nat) × ℚ) :=
  let blockId := taskId + call.initBlockNum
  let blockIdx := call.blockTable batchId blockId
  (sgemm 1 1 config.width (anchorRow config call anchor (call.blockTable batchId blockIdx)) config.width
    (avgQ config call q batchId) config.width 1 0 1).map fun store => ((batchId, blockId + store.1), store.2)

/-- `sim` of a block in the general path. -/
def generalSim (batchId blockId : Nat) : ℚ :=
  let blockIdx := call.blockTable batchId blockId
  (List.range config.qHeadNum).foldl (fun sim headId =>
    (List.range config.headDim).foldl (fun sim i =>
      let qSum := (List.range call.qLen).foldl (fun qSum qId =>
        qSum + (q (batchId * call.qLen * config.width + qId * config.width + headId * config.headDim + i)).value) 0
      let mean := qSum / call.qLen
      sim + (List.range config.anchorNum).foldl (fun most anchorId =>
        max most ((anchor (call.layerIdx * config.maxBlockNum * config.anchorNum * config.width + blockIdx * config.anchorNum * config.width +
          anchorId * config.width + headId * config.headDim + i)).value * mean)) lowest) sim) 0

def generalTask (taskId : Nat) : List ((Nat × Nat) × ℚ) :=
  let batchId := taskId / call.maxBlockNum
  let blockId := taskId % call.maxBlockNum
  if blockId < call.initBlockNum ∨ call.last config batchId ≤ blockId then []
  else [((batchId, blockId), generalSim config call q anchor batchId blockId)]

/-- `calculate_block_similarity_layer_`.  With one sequence, its number is 0. -/
def calculateBlockSimilarityLayer : Job :=
  if call.batchSize = 1 ∧ config.anchorNum = 1 then
    let blockNum := call.last config 0 - call.initBlockNum
    if blockNum = 0 then ⟨0, fun _ => []⟩
    else if isSeq config call 0 then ⟨call.threadNum, contiguousTask sgemm config call q anchor 0⟩
    else ⟨blockNum, blockTask sgemm config call q anchor 0⟩
  else ⟨call.batchSize * call.maxBlockNum, generalTask config call q anchor⟩

end Paths

def store (written : (Nat × Nat) × ℚ) (similar : Nat × Nat → ℚ) : Nat × Nat → ℚ :=
  Function.update similar written.1 written.2

/-- The stores of a job, those of several tasks in any order. -/
def Job.Ran (job : Job) (before after : Nat × Nat → ℚ) : Prop :=
  Finished job.count (fun taskId => (job.task taskId).map store) before after

/-- The mean of the queries in a channel. -/
def meanQuery (config : Config) (call : Call) (q : Nat → Half) (j : Nat) : ℚ :=
  (∑ i ∈ Finset.range call.qLen, (q (i * config.width + j)).value) / call.qLen

def similarity (config : Config) (call : Call) (q anchor : Nat → Half) (blockId : Nat) : ℚ :=
  ∑ headId ∈ Finset.range config.qHeadNum, ∑ i ∈ Finset.range config.headDim,
    meanQuery config call q (headId * config.headDim + i) *
      anchorRow config call anchor (call.blockTable 0 blockId) (headId * config.headDim + i)

/-- Whatever the queries and anchors are, the path that is taken leaves the value of the general
path, which is the similarity. -/
def Agrees (sgemm : Gemm ℚ) (config : Config) (call : Call) : Prop :=
  ∀ q anchor before after, (calculateBlockSimilarityLayer sgemm config call q anchor).Ran before after →
    ∀ blockId, call.initBlockNum ≤ blockId → blockId < call.last config 0 →
      after (0, blockId) = generalSim config call q anchor 0 blockId ∧
        generalSim config call q anchor 0 blockId = similarity config call q anchor blockId

theorem Job.Ran.cell {job : Job} {before after : Nat × Nat → ℚ} (ran : job.Ran before after) {cell : Nat × Nat} {value : ℚ}
    (agreed : ∀ taskId, ∀ written ∈ job.task taskId, written.1 = cell → written.2 = value)
    (present : ∃ taskId < job.count, (cell, value) ∈ job.task taskId) : after cell = value := by
  obtain ⟨steps, order, rfl⟩ := ran
  apply runSteps_agreed fun similar => similar
  · intro step member
    obtain ⟨taskId, -, isStep⟩ := List.mem_flatMap.mp (order.mem_iff.mp member)
    obtain ⟨written, isWritten, rfl⟩ := List.mem_map.mp isStep
    by_cases here : written.1 = cell
    · right
      intro similar
      rw [store, ← here, Function.update_self, agreed taskId written isWritten here]
    · left
      intro similar
      exact Function.update_of_ne (Ne.symm here) _ _
  · obtain ⟨taskId, inside, member⟩ := present
    refine ⟨store (cell, value), order.mem_iff.mpr (List.mem_flatMap.mpr ⟨taskId, List.mem_range.mpr inside, List.mem_map_of_mem member⟩), ?_⟩
    intro similar
    exact Function.update_self _ _ _

section Products

variable {sgemm : Gemm ℚ} {config : Config} {call : Call} {q anchor : Nat → Half} {before after : Nat × Nat → ℚ} {blockId : Nat}

variable (exact_ : sgemm.Exact) (single : call.batchSize = 1) (one : config.anchorNum = 1)

end Products

/-! ## The mean query -/

section Means

variable {config : Config} {call : Call} {q anchor : Nat → Half} {blockId : Nat}

end Means

/-! ## When the paths agree -/

def zero : Half := ⟨0, by norm_num⟩

def unit : Half := ⟨1, by norm_num⟩

section Agreement

variable {sgemm : Gemm ℚ} {config : Config} {call : Call} {q anchor : Nat → Half} {blockId : Nat}

end Agreement

/-- One query for two blocks, which are the physical blocks 2 and 0. -/
def swapped : Call := ⟨1, 0, 1, 2, 0, 0, 1, fun _ => 64, fun _ blockId => if blockId = 0 then 2 else 0,
  Nat.one_pos, Nat.one_pos⟩

end KtKernel.KvCache.Similarity
