import KtKernel.Fp8.Load
import KtKernel.K2.Export

namespace KtKernel.Fp8

open KtKernel.Data
open KtKernel.Amx.ExpertFiles (Mat)
open KtKernel.K2 (Slot Target Destination)

/-! `write_weight_scale_to_buffer`: the tiles of one expert are unpacked into the
buffers of the GPU ranks. -/

/-- A call on a loaded layer whose sizes are whole blocks, for the parts and for the
ranks. -/
structure Export (F : Type) where
  config : Config F
  tpCount : Nat
  gpuTpCount : Nat
  slot : Nat
  valid : validateBlockFp8TpSource config = .ok ()
  group : config.groupSize = nBlock
  hiddenBlocks : nBlock ∣ config.hiddenSize
  partBlocks : tpCount * nBlock ∣ config.intermediateSize
  rankBlocks : gpuTpCount * nBlock ∣ config.intermediateSize
  inSlots : slot < config.expertNum

/-! ## Unpacking -/

def rowMap (packed : Nat) : Nat :=
  [0, 16, 4, 20, 8, 24, 12, 28].getD packed 0

section

variable {ρ α : Type}

def unpackNkBlock (source : Nat → α) (rank : ρ) (start stride : Nat) : List (Copy ρ α) :=
  (List.range 8).flatMap fun packed =>
    (List.range 4).flatMap fun row =>
      [⟨rank, start + (rowMap packed + row) * stride, 32, fun column =>
        source ((8 * (column / 2) + packed) * 8 + 2 * row + column % 2)⟩]

/-- The same for four tiles side by side. -/
def unpack4nkBlocks (sources : Nat → Nat → α) (rank : ρ) (start stride : Nat) : List (Copy ρ α) :=
  (List.range 8).flatMap fun packed =>
    (List.range 4).flatMap fun row =>
      (List.range 4).flatMap fun block =>
        [⟨rank, start + (rowMap packed + row) * stride + 32 * block, 32, fun column =>
          sources block ((8 * (column / 2) + packed) * 8 + 2 * row + column % 2)⟩]

end

/-- The start of a tile in a packed matrix. -/
def tileSource (n k localN kBlockBegin kInBlock : Nat) : Nat :=
  let nBlockBegin := localN / nBlock * nBlock
  let nBlockSize := min nBlock (n - nBlockBegin)
  let kBlockSize := min kBlock (k - kBlockBegin)
  nBlockBegin * k + kBlockBegin * nBlockSize + (localN - nBlockBegin) * kBlockSize + kInBlock * nStep

def numTasks : Nat := 32

/-- The row steps of a matrix, divided among the tasks. -/
def taskSteps {α : Type} (rows : Nat) (body : Nat → List α) : List α :=
  let nSteps := divUp rows nStep
  let stepsPerTask := divUp nSteps numTasks
  (List.range numTasks).flatMap fun task => (chunk stepsPerTask nSteps task).flatMap fun step => body (step * nStep)

section

variable {F : Type}

namespace Export

def partSize (call : Export F) : Nat :=
  call.config.partSize call.tpCount

/-- The rows of gate and up, and the columns of down, of a rank. -/
def gpuPart (call : Export F) : Nat :=
  call.config.intermediateSize / call.gpuTpCount

/-! ## Weights -/

/-- A row step of gate or up: in every block of columns four tiles at once, and the
rest one by one. -/
def w13Step (call : Export F) (weights : Slot × Nat → UInt8) (mat : Mat) (weightOff part localN : Nat) :
    List (Copy Destination UInt8) :=
  let n := call.partSize
  let k := call.config.hiddenSize
  let globalN := part * call.partSize + localN
  let rank : Destination := ⟨globalN / call.gpuPart, .w13⟩
  let start := weightOff + globalN % call.gpuPart * k
  (steps k kBlock).flatMap fun kBlockBegin =>
    let kBlockSize := min kBlock (k - kBlockBegin)
    let quads := kBlockSize / (4 * kStep)
    ((List.range quads).flatMap fun quad =>
      unpack4nkBlocks (fun tile offset => weights (⟨mat, call.slot⟩,
          tileSource n k localN kBlockBegin (quad * (4 * kStep) + tile * kStep) + offset))
        rank (start + kBlockBegin + quad * (4 * kStep)) k) ++
    ((List.range (divUp (kBlockSize - quads * (4 * kStep)) kStep)).flatMap fun tile =>
      unpackNkBlock (fun offset => weights (⟨mat, call.slot⟩,
          tileSource n k localN kBlockBegin (quads * (4 * kStep) + tile * kStep) + offset))
        rank (start + kBlockBegin + (quads * (4 * kStep) + tile * kStep)) k)

def w13Weights (call : Export F) (weights : Slot × Nat → UInt8) (mat : Mat) (weightOff part : Nat) :
    List (Copy Destination UInt8) :=
  taskSteps call.partSize (call.w13Step weights mat weightOff part)

/-- The tiles of a slice of down.  Every round takes columns, so the columns that
are left bound the rounds. -/
def w2Tiles (call : Export F) (weights : Slot × Nat → UInt8) (rank : Destination) (localN kInGpuBase sliceStart
    sliceEnd : Nat) : (rounds : Nat) → (kAbs : Nat) → List (Copy Destination UInt8)
  | 0, _ => []
  | rounds + 1, kAbs =>
      if kAbs < sliceEnd then
        let n := call.config.hiddenSize
        let k := call.partSize
        let kBlockBegin := kAbs / kBlock * kBlock
        let kBlockSize := min kBlock (k - kBlockBegin)
        let kInBlock := kAbs - kBlockBegin
        let kInGpu := kInGpuBase + (kAbs - sliceStart)
        let start := localN * call.gpuPart + kInGpu
        if kBlockSize - kInBlock ≥ 4 * kStep ∧ sliceEnd - kAbs ≥ 4 * kStep then
          unpack4nkBlocks (fun tile offset => weights (⟨.down, call.slot⟩,
              tileSource n k localN kBlockBegin (kInBlock + tile * kStep) + offset)) rank start call.gpuPart ++
            call.w2Tiles weights rank localN kInGpuBase sliceStart sliceEnd rounds (kAbs + 4 * kStep)
        else
          unpackNkBlock (fun offset => weights (⟨.down, call.slot⟩,
              tileSource n k localN kBlockBegin kInBlock + offset)) rank start call.gpuPart ++
            call.w2Tiles weights rank localN kInGpuBase sliceStart sliceEnd rounds (kAbs + kStep)
      else []

/-- A row step of down: one slice of columns after the other. -/
def w2Step (call : Export F) (weights : Slot × Nat → UInt8) (part localN : Nat) : List (Copy Destination UInt8) :=
  (List.range (divUp call.partSize call.gpuPart)).flatMap fun slice =>
    let sliceStart := slice * call.gpuPart
    let sliceEnd := min (sliceStart + call.gpuPart) call.partSize
    let globalK := part * call.partSize + sliceStart
    call.w2Tiles weights ⟨globalK / call.gpuPart, .w2⟩ localN (globalK % call.gpuPart) sliceStart sliceEnd
      call.partSize sliceStart

def partWeights (call : Export F) (weights : Slot × Nat → UInt8) (part : Nat) : List (Copy Destination UInt8) :=
  call.w13Weights weights .gate 0 part ++ call.w13Weights weights .up (call.gpuPart * call.config.hiddenSize) part ++
    taskSteps call.config.hiddenSize (call.w2Step weights part)

/-- The block rows of gate or up. -/
def w13Scales (call : Export F) (floats : Slot × Nat → F) (mat : Mat) (scaleOff part : Nat) :
    List (Copy Destination F) :=
  let group := call.config.groupSize
  let width := divUp call.config.hiddenSize group
  (List.range (divUp call.partSize group)).flatMap fun bn =>
    let globalBn := part * call.partSize / group + bn
    let rankRows := divUp call.gpuPart group
    [⟨⟨globalBn / rankRows, .w13⟩, scaleOff + globalBn % rankRows * width, width, fun inner =>
      floats (⟨mat, call.slot⟩, bn * width + inner)⟩]

def w2Scales (call : Export F) (floats : Slot × Nat → F) (part : Nat) : List (Copy Destination F) :=
  let group := call.config.groupSize
  (List.range (divUp call.partSize call.gpuPart)).flatMap fun slice =>
    let sliceStart := slice * call.gpuPart
    let sliceEnd := min (sliceStart + call.gpuPart) call.partSize
    let globalK := part * call.partSize + sliceStart
    let bkStart := sliceStart / group
    let bkEnd := divUp sliceEnd group
    (List.range (divUp call.config.hiddenSize group)).flatMap fun bn =>
      [⟨⟨globalK / call.gpuPart, .w2⟩, bn * divUp call.gpuPart group + globalK % call.gpuPart / group,
        bkEnd - bkStart, fun inner =>
          floats (⟨.down, call.slot⟩, bn * divUp call.partSize group + bkStart + inner)⟩]

def partScales (call : Export F) (floats : Slot × Nat → F) (part : Nat) : List (Copy Destination F) :=
  call.w13Scales floats .gate 0 part ++
    call.w13Scales floats .up
      (divUp call.gpuPart call.config.groupSize * divUp call.config.hiddenSize call.config.groupSize) part ++
    call.w2Scales floats part

def weightCopies (call : Export F) (weights : Nat → Slot × Nat → UInt8) : List (Copy Destination UInt8) :=
  (List.range call.tpCount).flatMap fun part => call.partWeights (weights part) part

def scaleCopies (call : Export F) (floats : Nat → Slot × Nat → F) : List (Copy Destination F) :=
  (List.range call.tpCount).flatMap fun part => call.partScales (floats part) part

end Export

end

end KtKernel.Fp8
