import Mathlib.Algebra.BigOperators.Group.Finset.Basic
import Mathlib.Algebra.Order.Ring.Rat
import KtKernel.Data.Stores
import KtKernel.Sft.Routing

namespace KtKernel.Sft.Merge

open KtKernel.Data KtKernel.Amx

/-! The partial gradients of `TP_MOE_SFT::backward`.

Every part cuts its partial buffers from its own pool.  The pool is cleared, or
left as it is when the kernel overwrites its partials, and the kernel of the
part then works on it.  Numbers are exact, and a pool is made of bytes: how
bytes are read as numbers is a parameter.
-/

/-- The SFT kernels: those of `AMX_SFT_MOE_TP`, and `AMX_K2_SFT_MOE_TP` with or
without the external workspace. -/
inductive Kernel where
  | amx
  | k2 (workspaceV2 : Bool)
deriving DecidableEq, Repr

/-- The instance is the one of a part: the constructor divides the intermediate
dimension evenly. -/
structure Config extends Instance where
  kernel : Kernel
  numGpuExperts : Nat
  tpCount : Nat
  fullIntermediateSize : Nat
  loraRank : Nat
  loraScaling : ℚ
  tpPositive : 0 < tpCount
  divided : fullIntermediateSize = tpCount * intermediateSize
  expertNumInt : expertNum < 2 ^ 31

/-- One call, with the routing that its forward left in the cache. -/
structure Call where
  qlen : Nat
  expertIds : Nat → Int
  activeCount : Nat
  needGradWeights : Bool

/-- What the kernel of a part reads for a slot: the contribution of each pass to
the gradient of the input, and the two rows of the gradient of the weight. -/
structure Work where
  contribution : Nat → Nat × Nat → Nat → ℚ
  gradOutput : Nat → Nat → ℚ
  downOutput : Nat × Nat → Nat → ℚ

/-- How bytes are read as numbers. -/
structure Formats where
  value : List UInt8 → ℚ
  zeros : ∀ width, value (List.replicate width 0) = 0

section

variable (config : Config) (call : Call)

/-! ## The pools -/

def partialsOverwrite : Bool :=
  config.kernel == .k2 true

def loraASparseBytes : Nat :=
  call.activeCount * config.loraRank * config.hiddenSize * 4

def downBSparseBytes : Nat :=
  call.activeCount * config.hiddenSize * config.loraRank * 4

/-- Where the partial gradient of the input starts, after the three sparse
partials. -/
def gradInputStart : Nat :=
  align64 (loraASparseBytes config call) + align64 (loraASparseBytes config call) +
    align64 (downBSparseBytes config call)

def gradWeightsStart : Nat :=
  gradInputStart config call + align64 (call.qlen * config.hiddenSize * 2)

def clearBytes : Nat :=
  if partialsOverwrite config then 0
  else gradWeightsStart config call +
    if call.needGradWeights then align64 (call.qlen * config.numExpertsPerTok * 4) else 0

/-- A chunk of two MiB of a pool. -/
structure ClearSeg where
  part : Nat
  start : Nat
  length : Nat
deriving Inhabited

def chunkBytes : Nat := 2 * 1024 * 1024

def clearSegs : List ClearSeg :=
  (List.range config.tpCount).flatMap fun part =>
    (List.range ((clearBytes config call + chunkBytes - 1) / chunkBytes)).map fun chunk =>
      ⟨part, chunk * chunkBytes, min chunkBytes (clearBytes config call - chunk * chunkBytes)⟩

def ClearSeg.store (seg : ClearSeg) : Store (Nat × Nat) UInt8 := fun cell _ =>
  if cell.1 = seg.part ∧ seg.start ≤ cell.2 ∧ cell.2 < seg.start + seg.length then some 0 else none

/-- The pools after the clearing job, by part and byte. -/
def clearedPools (schedule : Schedule) (pools : Nat × Nat → UInt8) : Nat × Nat → UInt8 :=
  Store.runAll ((schedule.order 0 (clearSegs config call).length).map fun task =>
    ((clearSegs config call).getD task default).store) pools

def Formats.read (formats : Formats) (pool : Nat → UInt8) (start width : Nat) : ℚ :=
  formats.value ((List.range width).map fun byte => pool (start + byte))

/-- The partials as the kernel of a part finds them. -/
def gradInputBefore (formats : Formats) (pool : Nat → UInt8) (cell : Nat) : ℚ :=
  formats.read pool (gradInputStart config call + cell * 2) 2

def gradWeightsBefore (formats : Formats) (pool : Nat → UInt8) (cell : Nat) : ℚ :=
  formats.read pool (gradWeightsStart config call + cell * 4) 4

/-! ## The kernels -/

def slotId (slot : Nat × Nat) : Int :=
  call.expertIds (slot.1 * config.numExpertsPerTok + slot.2)

/-- The test of the kernel on the ids of the routing table. -/
def skips (slot : Nat × Nat) : Bool :=
  match config.kernel with
  | .amx => trainingSkips config.expertNum config.numGpuExperts (slotId config call slot)
  | .k2 _ => config.shouldSkipExpert (slotId config call slot)

/-- The rows that the forward counted for an expert. -/
def localNum (expert : Int) : Nat :=
  (slots call.qlen config.numExpertsPerTok).countP fun slot =>
    !skips config call slot && slotId config call slot == expert

/-- The test of `scatter_to_grad_input`: the id is narrowed, and an expert without
rows is passed over. -/
def scatterSkips (slot : Nat × Nat) : Bool :=
  let expert := narrow (slotId config call slot)
  trainingSkips config.expertNum config.numGpuExperts expert || localNum config call expert == 0

/-- The scales of the passes: the base products of gate and up, then their LoRA
parts. -/
def passScales : List ℚ :=
  if config.loraRank = 0 then [1, 1] else [1, 1, config.loraScaling, config.loraScaling]

def scatterStore (contribution : Nat × Nat → Nat → ℚ) (scale : ℚ) (token : Nat) : Store Nat ℚ :=
  fun cell old =>
    if token * config.hiddenSize ≤ cell ∧ cell < token * config.hiddenSize + config.hiddenSize then
      some ((List.range config.numExpertsPerTok).foldl (fun current slot =>
        if scatterSkips config call (token, slot) then current
        else contribution (token, slot) (cell - token * config.hiddenSize) * scale + current) old)
    else none

def scatterToGradInput (schedule : Schedule) (work : Work) (memory : Nat → ℚ) (pass : ℚ × Nat) : Nat → ℚ :=
  Store.runAll ((schedule.order (pass.2 + 1) call.qlen).map
    (scatterStore config call (work.contribution pass.2) pass.1)) memory

/-- What a slot adds to the gradient of the input over all passes. -/
def slotGrad (work : Work) (slot : Nat × Nat) (column : Nat) : ℚ :=
  ((passScales config).zipIdx.map fun pass => work.contribution pass.2 slot column * pass.1).sum

/-- The rows of the K2 layout are the routed slots; their contributions are added
up from zero and every cell is written. -/
def k2GradInput (work : Work) (cell : Nat) : ℚ :=
  ∑ slot ∈ Finset.range config.numExpertsPerTok,
    if skips config call (cell / config.hiddenSize, slot) then 0
    else slotGrad config work (cell / config.hiddenSize, slot) (cell % config.hiddenSize)

/-- A part's gradient of the input after its kernel. -/
def gradInputAfter (schedule : Schedule) (work : Work) (before : Nat → ℚ) : Nat → ℚ :=
  match config.kernel with
  | .amx => (passScales config).zipIdx.foldl (scatterToGradInput config call schedule work) before
  | .k2 _ => fun cell =>
      if cell < call.qlen * config.hiddenSize then k2GradInput config call work cell else before cell

/-- The product of the rows of a slot.  The AMX kernel stops at the last whole
vector of 32. -/
def slotDot (work : Work) (slot : Nat × Nat) : ℚ :=
  let width := match config.kernel with
    | .amx => config.hiddenSize / 32 * 32
    | .k2 _ => config.hiddenSize
  ∑ column ∈ Finset.range width, work.gradOutput slot.1 column * work.downOutput slot column

def gradWeightsStore (work : Work) (token : Nat) : Store Nat ℚ := fun cell _ =>
  let slot := cell - token * config.numExpertsPerTok
  if token * config.numExpertsPerTok ≤ cell ∧ slot < config.numExpertsPerTok then
    if skips config call (token, slot) then none else some (slotDot config work (token, slot))
  else none

/-- The K2 kernel fills its partial with zeros first. -/
def gradWeightsAfter (schedule : Schedule) (work : Work) (before : Nat → ℚ) : Nat → ℚ :=
  let start := match config.kernel with
    | .amx => before
    | .k2 _ => fun cell => if cell < call.qlen * config.numExpertsPerTok then 0 else before cell
  Store.runAll ((schedule.order 5 call.qlen).map (gradWeightsStore config call work)) start

end

/-- What a call finds besides its routing: the bytes in the pools, the rows that
the parts read and the orders of the jobs. -/
structure Run where
  formats : Formats
  schedule : Schedule
  pools : Nat × Nat → UInt8
  works : Nat → Work

section

variable (config : Config) (call : Call) (input : Run)

/-- `part_grad_input_` after the kernels. -/
def partGradInput (part : Nat) : Nat → ℚ :=
  gradInputAfter config call input.schedule (input.works part)
    (gradInputBefore config call input.formats fun byte =>
      clearedPools config call input.schedule input.pools (part, byte))

/-- `part_grad_weights_` after the kernels. -/
def partGradWeights (part : Nat) : Nat → ℚ :=
  gradWeightsAfter config call input.schedule (input.works part)
    (gradWeightsBefore config call input.formats fun byte =>
      clearedPools config call input.schedule input.pools (part, byte))

/-- The first four parts, each taken when there are more parts than its number. -/
def namedParts (part : Nat → ℚ) : ℚ :=
  let sum := part 0
  let sum := if 1 < config.tpCount then sum + part 1 else sum
  let sum := if 2 < config.tpCount then sum + part 2 else sum
  if 3 < config.tpCount then sum + part 3 else sum

/-- A loop over whole vectors and the scalar loop over what is left. -/
def vectorLoop (width start stop : Nat) (value : Nat → ℚ) : List (Store Nat ℚ) :=
  ((List.range ((stop - start) / width)).map fun vector => fun cell _ =>
    if start + vector * width ≤ cell ∧ cell < start + vector * width + width then some (value cell) else none) ++
  (List.range ((stop - start) % width)).map fun index => fun cell _ =>
    if cell = start + (stop - start) / width * width + index then some (value cell) else none

/-- The output `grad_input`. -/
def gradInput (output : Nat → ℚ) : Nat → ℚ :=
  Store.runAll ((input.schedule.order 6 call.qlen).flatMap fun token =>
    vectorLoop 32 (token * config.hiddenSize) (token * config.hiddenSize + config.hiddenSize) fun cell =>
      namedParts config fun part => partGradInput config call input part cell) output

/-- The output `grad_weights`, in tasks of 4096 cells. -/
def gradWeights (output : Nat → ℚ) : Nat → ℚ :=
  let total := call.qlen * config.numExpertsPerTok
  Store.runAll ((input.schedule.order 7 ((total + 4096 - 1) / 4096)).flatMap fun task =>
    vectorLoop 16 (task * 4096) (min (task * 4096 + 4096) total) fun cell =>
      namedParts config fun part => partGradWeights config call input part cell) output

end

end KtKernel.Sft.Merge
