import KtKernel.Amx.Routing
import KtKernel.K2.Load

namespace KtKernel.K2

open KtKernel.Data
open KtKernel.Amx (align64)
open KtKernel.Amx.ExpertFiles (Mat)

/-! `write_weight_scale_to_buffer`: the weights of one expert go from the CPU parts
to the buffers of the GPU ranks. -/

inductive Target where
  | w13
  | w2
deriving DecidableEq, Repr

/-- A buffer that the caller passes.  A rank past the pointer arrays is memory
outside of them. -/
structure Destination where
  rank : Nat
  target : Target
deriving DecidableEq, Repr

/-- The conversions of bf16 numbers to floats and back.  Both ways back give a
number that was a bf16 again. -/
structure Conversion (S F : Type) where
  widen : S → F
  narrow : F → S
  narrowFast : F → S
  narrow_widen : ∀ scale, narrow (widen scale) = scale
  narrowFast_widen : ∀ scale, narrowFast (widen scale) = scale

/-- A call that passes the checks. -/
structure Export where
  shape : Shape
  layout : Layout
  gpuTpCount : Nat
  slot : Nat
  accepts : layout.Accepts shape
  gpuPositive : 0 < gpuTpCount
  gpuGroups : gpuTpCount * shape.groupSize ∣ shape.intermediateSize
  inSlots : slot < shape.expertNum

section

variable {S F : Type}

/-- `fast_fp32_to_bf16`: vectors of 32 floats, and the rest one by one. -/
def Conversion.fastFp32ToBf16 (conversion : Conversion S F) (count : Nat) (source : Nat → F) (index : Nat) : S :=
  if index < count / 32 * 32 then conversion.narrowFast (source index) else conversion.narrow (source index)

namespace Export

/-- The rows of gate and up, and the columns of down, of a rank. -/
def gpuPart (call : Export) : Nat :=
  call.shape.intermediateSize / call.gpuTpCount

def cpuTpWeightBytes (call : Export) : Nat :=
  call.shape.partSize * call.shape.hiddenSize / 2

def cpuTpScaleCount (call : Export) : Nat :=
  call.shape.partSize * call.shape.hiddenSize / call.shape.groupSize

def gpuTpWeightBytes (call : Export) : Nat :=
  call.shape.intermediateSize * call.shape.hiddenSize / call.gpuTpCount / 2

def gpuTpScaleCount (call : Export) : Nat :=
  call.shape.intermediateSize * call.shape.hiddenSize / call.gpuTpCount / call.shape.groupSize

def numWeightTasks : Nat := 8

def numDownTasks (call : Export) : Nat :=
  min (max 1 (call.shape.hiddenSize / 128)) 32

def weightChunkSize (bytes : Nat) : Nat :=
  align64 ((bytes + numWeightTasks - 1) / numWeightTasks)

def downColumns {α : Type} (call : Export) (body : Nat → List (Copy Destination α)) : List (Copy Destination α) :=
  let columnsPerChunk := (call.shape.hiddenSize + call.numDownTasks - 1) / call.numDownTasks
  (List.range call.numDownTasks).flatMap fun task => (chunk columnsPerChunk call.shape.hiddenSize task).flatMap body

def ratio (call : Export) : Nat :=
  call.shape.tpCount / call.gpuTpCount

def manyWeights (call : Export) (weights : Slot × Nat → UInt8) (part : Nat) : List (Copy Destination UInt8) :=
  let rank := part / call.ratio
  let localIdx := part % call.ratio
  let offset := localIdx * call.cpuTpWeightBytes
  let size := weightChunkSize call.cpuTpWeightBytes
  let perColumn := call.shape.partSize / 2
  Copy.chunked ⟨rank, .w13⟩ offset call.cpuTpWeightBytes size numWeightTasks
    (fun inner => weights (⟨.gate, call.slot⟩, inner)) ++
  Copy.chunked ⟨rank, .w13⟩ (offset + call.gpuTpWeightBytes) call.cpuTpWeightBytes size numWeightTasks
    (fun inner => weights (⟨.up, call.slot⟩, inner)) ++
  call.downColumns fun column =>
    [⟨⟨rank, .w2⟩, localIdx * perColumn + column * (call.gpuPart / 2), perColumn, fun inner =>
      weights (⟨.down, call.slot⟩, column * perColumn + inner)⟩]

def manyScales (call : Export) (conversion : Conversion S F) (floats : Slot × Nat → F) (part : Nat) :
    List (Copy Destination S) :=
  let rank := part / call.ratio
  let localIdx := part % call.ratio
  let offset := localIdx * call.cpuTpScaleCount
  let perColumn := call.shape.partSize / call.shape.groupSize
  call.downColumns (fun column =>
    [⟨⟨rank, .w2⟩, localIdx * perColumn + column * (call.gpuPart / call.shape.groupSize), perColumn,
      conversion.fastFp32ToBf16 perColumn fun inner => floats (⟨.down, call.slot⟩, column * perColumn + inner)⟩]) ++
  ([⟨⟨rank, .w13⟩, offset, call.cpuTpScaleCount,
    conversion.fastFp32ToBf16 call.cpuTpScaleCount fun inner => floats (⟨.gate, call.slot⟩, inner)⟩] ++
   [⟨⟨rank, .w13⟩, offset + call.gpuTpScaleCount, call.cpuTpScaleCount,
    conversion.fastFp32ToBf16 call.cpuTpScaleCount fun inner => floats (⟨.up, call.slot⟩, inner)⟩])

def ranksPerPart (call : Export) : Nat :=
  call.gpuTpCount / call.shape.tpCount

def oneWeights (call : Export) (weights : Slot × Nat → UInt8) (part : Nat) : List (Copy Destination UInt8) :=
  let data := call.cpuTpWeightBytes / call.ranksPerPart
  let size := weightChunkSize data
  let perColumn := call.shape.partSize / call.ranksPerPart / 2
  (List.range call.ranksPerPart).flatMap fun local_ =>
    let rank := part * call.ranksPerPart + local_
    Copy.chunked ⟨rank, .w13⟩ 0 data size numWeightTasks
      (fun inner => weights (⟨.gate, call.slot⟩, local_ * data + inner)) ++
    Copy.chunked ⟨rank, .w13⟩ call.gpuTpWeightBytes data size numWeightTasks
      (fun inner => weights (⟨.up, call.slot⟩, local_ * data + inner)) ++
    call.downColumns fun column =>
      [⟨⟨rank, .w2⟩, 0 + column * perColumn, perColumn, fun inner =>
        weights (⟨.down, call.slot⟩,
          column * call.shape.partSize / 2 + local_ * data / call.shape.hiddenSize + inner)⟩]

def oneScales (call : Export) (conversion : Conversion S F) (floats : Slot × Nat → F) (part : Nat) :
    List (Copy Destination S) :=
  let data := call.cpuTpScaleCount / call.ranksPerPart
  let perColumn := call.shape.partSize / call.ranksPerPart / call.shape.groupSize
  (List.range call.ranksPerPart).flatMap fun local_ =>
    let rank := part * call.ranksPerPart + local_
    call.downColumns (fun column =>
      [⟨⟨rank, .w2⟩, 0 + column * perColumn, perColumn, conversion.fastFp32ToBf16 perColumn fun inner =>
        floats (⟨.down, call.slot⟩, column * (call.shape.partSize / call.shape.groupSize) +
          local_ * data / call.shape.hiddenSize + inner)⟩]) ++
    ([⟨⟨rank, .w13⟩, 0, data,
      conversion.fastFp32ToBf16 data fun inner => floats (⟨.gate, call.slot⟩, local_ * data + inner)⟩] ++
     [⟨⟨rank, .w13⟩, call.gpuTpScaleCount, data,
      conversion.fastFp32ToBf16 data fun inner => floats (⟨.up, call.slot⟩, local_ * data + inner)⟩])

/-! ## The blocked layout -/

def numRowTasks : Nat := 32

/-- The rows, divided among the tasks. -/
def taskRows {α : Type} (rows : Nat) (body : Nat → List (Copy Destination α)) : List (Copy Destination α) :=
  let rowsPerTask := (rows + numRowTasks - 1) / numRowTasks
  (List.range numRowTasks).flatMap fun task => (chunk rowsPerTask rows task).flatMap body

/-- `copy_weight_rows_to` of one row: whole tiles. -/
def copyWeightRow (weights : Slot × Nat → UInt8) (slot : Slot) (n k row kStart kCount : Nat) (rank : Destination)
    (start : Nat) : List (Copy Destination UInt8) :=
  (List.range ((kCount + 63) / 64)).flatMap fun tile =>
    [⟨rank, start + tile * 64 / 2, 32, fun inner =>
      weights (slot, blockOffsetBytes n k row (kStart + tile * 64) + inner)⟩]

/-- A piece of a row of down that goes to one rank. -/
structure Segment where
  kLocal : Nat
  rank : Nat
  kInGpu : Nat
  kCount : Nat
deriving DecidableEq, Repr

/-- The loop over the pieces of a row of down.  Every round takes a column, so the
columns that are left bound the rounds. -/
def segments (call : Export) (part : Nat) : (rounds : Nat) → (kLocal : Nat) → List Segment
  | 0, _ => []
  | rounds + 1, kLocal =>
      if kLocal < call.shape.partSize then
        let globalK := part * call.shape.partSize + kLocal
        let kInGpu := globalK % call.gpuPart
        let kCount := min (call.shape.partSize - kLocal) (call.gpuPart - kInGpu)
        ⟨kLocal, globalK / call.gpuPart, kInGpu, kCount⟩ :: call.segments part rounds (kLocal + kCount)
      else []

def blockedWeights (call : Export) (weights : Slot × Nat → UInt8) (part : Nat) : List (Copy Destination UInt8) :=
  let hidden := call.shape.hiddenSize
  let size := call.shape.partSize
  taskRows size (fun row =>
    let globalN := part * size + row
    let rank : Destination := ⟨globalN / call.gpuPart, .w13⟩
    let start := globalN % call.gpuPart * hidden / 2
    copyWeightRow weights ⟨.gate, call.slot⟩ size hidden row 0 hidden rank start ++
    copyWeightRow weights ⟨.up, call.slot⟩ size hidden row 0 hidden rank (call.gpuPart * hidden / 2 + start)) ++
  taskRows hidden fun row =>
    (call.segments part size 0).flatMap fun segment =>
      copyWeightRow weights ⟨.down, call.slot⟩ hidden size row segment.kLocal segment.kCount ⟨segment.rank, .w2⟩
        (row * call.gpuPart / 2 + segment.kInGpu / 2)

def blockedScales (call : Export) (conversion : Conversion S F) (floats : Slot × Nat → F) (part : Nat) :
    List (Copy Destination S) :=
  let hidden := call.shape.hiddenSize
  let size := call.shape.partSize
  let group := call.shape.groupSize
  taskRows size (fun row =>
    let globalN := part * size + row
    let rank : Destination := ⟨globalN / call.gpuPart, .w13⟩
    let start := globalN % call.gpuPart * (hidden / group)
    [⟨rank, start, hidden / group, fun inner =>
        conversion.narrow (floats (⟨.gate, call.slot⟩, row * (hidden / group) + inner))⟩] ++
    [⟨rank, call.gpuPart * (hidden / group) + start, hidden / group, fun inner =>
        conversion.narrow (floats (⟨.up, call.slot⟩, row * (hidden / group) + inner))⟩]) ++
  taskRows hidden fun row =>
    (call.segments part size 0).flatMap fun segment =>
      [⟨⟨segment.rank, .w2⟩, row * (call.gpuPart / group) + segment.kInGpu / group, segment.kCount / group,
        fun inner => conversion.narrow (floats (⟨.down, call.slot⟩,
          row * (size / group) + segment.kLocal / group + inner))⟩]

def partWeights (call : Export) (weights : Slot × Nat → UInt8) (part : Nat) : List (Copy Destination UInt8) :=
  match call.layout with
  | .blocked => call.blockedWeights weights part
  | .linear =>
      if call.shape.tpCount ≥ call.gpuTpCount then call.manyWeights weights part else call.oneWeights weights part

def partScales (call : Export) (conversion : Conversion S F) (floats : Slot × Nat → F) (part : Nat) :
    List (Copy Destination S) :=
  match call.layout with
  | .blocked => call.blockedScales conversion floats part
  | .linear =>
      if call.shape.tpCount ≥ call.gpuTpCount then call.manyScales conversion floats part
      else call.oneScales conversion floats part

def weightCopies (call : Export) (weights : Nat → Slot × Nat → UInt8) : List (Copy Destination UInt8) :=
  (List.range call.shape.tpCount).flatMap fun part => call.partWeights (weights part) part

def scaleCopies (call : Export) (conversion : Conversion S F) (floats : Nat → Slot × Nat → F) :
    List (Copy Destination S) :=
  (List.range call.shape.tpCount).flatMap fun part => call.partScales conversion (floats part) part

end Export

end

end KtKernel.K2
