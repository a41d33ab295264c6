import KtKernel.Amx.Routing
import KtKernel.Avx2.ExpertMaps
import KtKernel.Data.Jobs

namespace KtKernel.Avx2

open KtKernel.Data
open KtKernel.Amx (align64)
open KtKernel.Amx.ExpertFiles (Mat)

/-! `write_weight_scale_to_buffer`: the weights and scales of one expert go from the
CPU parts to the buffers of the GPU ranks. -/

inductive Target where
  | w13
  | w2
deriving DecidableEq, Repr

/-- A buffer of a rank. -/
structure Buffer where
  target : Target
  kind : Kind
deriving DecidableEq, Repr

/-- A rank's buffer.  A rank past the pointer arrays is memory outside of them. -/
abbrev Destination := Nat × Buffer

/-- A half that is not a signalling NaN. -/
def Quiet (half : Cell) : Prop :=
  half &&& 0x7FFF ≤ 0x7F80 ∨ half &&& 0x40 ≠ 0

instance (half : Cell) : Decidable (Quiet half) :=
  inferInstanceAs (Decidable (_ ∨ _))

/-- `ggml_fp32_to_bf16_row`: a float that was a half becomes that half again, and a
signalling NaN becomes a quiet one. -/
structure Rounding where
  fp32ToBf16 : Cell → Cell
  exact_ : ∀ half < 0x10000, Quiet half → fp32ToBf16 (half <<< 16) = half

/-- A call on a loaded layer whose sizes are whole groups, for the parts and for the
ranks. -/
structure Export where
  load : Load
  rounding : Rounding
  gpuTpCount : Nat
  expertId : Int
  ranks : 0 < gpuTpCount
  partGroups : load.config.tpCount * (if load.backend = .bf16 then 1 else load.config.groupSize) ∣
    load.config.intermediateSize
  rankGroups : gpuTpCount * (if load.backend = .bf16 then 1 else load.config.groupSize) ∣ load.config.intermediateSize

namespace Export

variable {α : Type}

def config (call : Export) : Config :=
  call.load.config

def backend (call : Export) : Backend :=
  call.load.backend

def group (call : Export) : Nat :=
  call.config.groupSize

def hidden (call : Export) : Nat :=
  call.config.hiddenSize

/-- The rows of gate and up, and the columns of down, of a part. -/
def partSize (call : Export) : Nat :=
  call.config.partSize

/-- The rows of gate and up, and the columns of down, of a rank. -/
def gpuPart (call : Export) : Nat :=
  call.config.intermediateSize / call.gpuTpCount

def slot (call : Export) (mat : Mat) (kind : Kind) : Slot :=
  ⟨⟨mat, kind⟩, call.expertId.toNat⟩

/-- The scale of a slot, as the buffer of a rank takes it. -/
def narrow (call : Export) (kind : Kind) (cell : Cell) : Cell :=
  match call.backend, kind with
  | .mxfp8, .scale => cell >>> 23 &&& 0xFF
  | .rawInt4, .scale => call.rounding.fp32ToBf16 cell
  | .mxfp4, .scale => call.rounding.fp32ToBf16 cell
  | _, _ => cell

/-! ## BF16, FP8 and MXFP8: a rank for every row -/

def numTasks : Nat := 32

/-- The rows of a matrix, divided among the tasks. -/
def taskRows (rows : Nat) (body : Nat → List (Copy Destination α)) : List (Copy Destination α) :=
  (List.range numTasks).flatMap fun task => (chunk ((rows + numTasks - 1) / numTasks) rows task).flatMap body

/-- The copies of a row of gate or up. -/
def w13Row (call : Export) (read : Slot → Nat → Cell) (part : Nat) (mat : Mat) (row : Nat) : List (Copy Destination Cell) :=
  let globalN := part * call.partSize + row
  let rank := globalN / call.gpuPart
  let nInGpu := globalN % call.gpuPart
  let weightOff := if mat = .up then call.gpuPart * call.hidden else 0
  let weights : List (Copy Destination Cell) :=
    [⟨(rank, ⟨.w13, .weight⟩), weightOff + nInGpu * call.hidden, call.hidden, fun inner =>
      read (call.slot mat .weight) (row * call.hidden + inner)⟩]
  match call.backend with
  | .fp8 =>
      let width := divUp call.hidden call.group
      let scaleOff := if mat = .up then divUp call.gpuPart call.group * width else 0
      weights ++
        if row % call.group = 0 then
          [⟨(rank, ⟨.w13, .scale⟩), scaleOff + nInGpu / call.group * width, width, fun inner =>
            read (call.slot mat .scale) (row / call.group * width + inner)⟩]
        else []
  | .mxfp8 =>
      let width := call.hidden / call.group
      let scaleOff := if mat = .up then call.gpuPart * width else 0
      weights ++
        [⟨(rank, ⟨.w13, .scale⟩), scaleOff + nInGpu * width, width, fun inner =>
          call.narrow .scale (read (call.slot mat .scale) (row * width + inner))⟩]
  | _ => weights

/-- The values of a loop variable that goes up in steps. -/
def steps (count step : Nat) : List Nat :=
  (List.range (divUp count step)).map (· * step)

/-- The copies of a row of down: one slice of columns after the other, from the first
column of the part on. -/
def w2Row (call : Export) (read : Slot → Nat → Cell) (part row : Nat) : List (Copy Destination Cell) :=
  (steps call.partSize call.gpuPart).flatMap fun kStart =>
    let kSliceLen := min call.gpuPart (call.partSize - kStart)
    let globalK := part * call.partSize + kStart
    let rank := globalK / call.gpuPart
    let kInGpu := globalK % call.gpuPart
    let weights : List (Copy Destination Cell) :=
      [⟨(rank, ⟨.w2, .weight⟩), row * call.gpuPart + kInGpu, kSliceLen, fun inner =>
        read (call.slot .down .weight) (row * call.partSize + kStart + inner)⟩]
    match call.backend with
    | .fp8 =>
        let cpuBlocks := divUp call.partSize call.group
        let gpuBlocks := divUp call.gpuPart call.group
        let kBlockStart := kInGpu / call.group
        weights ++
          if row % call.group = 0 then
            [⟨(rank, ⟨.w2, .scale⟩), row / call.group * gpuBlocks + kBlockStart, min cpuBlocks (gpuBlocks - kBlockStart),
              fun inner => read (call.slot .down .scale)
                (row / call.group * cpuBlocks + kStart / call.group + inner)⟩]
          else []
    | .mxfp8 =>
        weights ++
          [⟨(rank, ⟨.w2, .scale⟩), row * (call.gpuPart / call.group) + kInGpu / call.group, kSliceLen / call.group,
            fun inner => call.narrow .scale (read (call.slot .down .scale)
              (row * (call.partSize / call.group) + kStart / call.group + inner))⟩]
    | _ => weights

def rowCopies (call : Export) (read : Slot → Nat → Cell) (part : Nat) : List (Copy Destination Cell) :=
  taskRows call.partSize (call.w13Row read part .gate) ++ taskRows call.partSize (call.w13Row read part .up) ++
    taskRows call.hidden (call.w2Row read part)

/-! ## RAWINT4 and MXFP4: the counts divided -/

def cpuTpWeightBytes (call : Export) : Nat :=
  call.partSize * call.hidden / 2

def cpuTpScaleCount (call : Export) : Nat :=
  call.partSize * call.hidden / call.group

def gpuTpWeightBytes (call : Export) : Nat :=
  call.config.intermediateSize * call.hidden / call.gpuTpCount / 2

def gpuTpScaleCount (call : Export) : Nat :=
  call.config.intermediateSize * call.hidden / call.gpuTpCount / call.group

def numWeightTasks : Nat := 8

def numDownTasks (call : Export) : Nat :=
  min (max 1 (call.hidden / 128)) 32

def weightChunkSize (bytes : Nat) : Nat :=
  align64 ((bytes + numWeightTasks - 1) / numWeightTasks)

def downColumns (call : Export) (body : Nat → List (Copy Destination α)) : List (Copy Destination α) :=
  let columnsPerChunk := (call.hidden + call.numDownTasks - 1) / call.numDownTasks
  (List.range call.numDownTasks).flatMap fun task => (chunk columnsPerChunk call.hidden task).flatMap body

/-- The parts of one rank. -/
def ratio (call : Export) : Nat :=
  call.config.tpCount / call.gpuTpCount

def manyCopies (call : Export) (read : Slot → Nat → Cell) (part : Nat) : List (Copy Destination Cell) :=
  let rank := part / call.ratio
  let localIdx := part % call.ratio
  let bytes := call.cpuTpWeightBytes
  let scales := call.cpuTpScaleCount
  let weightPerCol := call.partSize / 2
  let scalePerCol := call.partSize / call.group
  Copy.chunked (rank, ⟨.w13, .weight⟩) (localIdx * bytes) bytes (weightChunkSize bytes) numWeightTasks
    (fun inner => read (call.slot .gate .weight) inner) ++
  Copy.chunked (rank, ⟨.w13, .weight⟩) (localIdx * bytes + call.gpuTpWeightBytes) bytes (weightChunkSize bytes)
    numWeightTasks (fun inner => read (call.slot .up .weight) inner) ++
  call.downColumns (fun column =>
    [⟨(rank, ⟨.w2, .weight⟩), column * (call.gpuPart / 2) + localIdx * weightPerCol, weightPerCol, fun inner =>
      read (call.slot .down .weight) (column * weightPerCol + inner)⟩,
     ⟨(rank, ⟨.w2, .scale⟩), column * (call.gpuPart / call.group) + localIdx * scalePerCol, scalePerCol, fun inner =>
      call.narrow .scale (read (call.slot .down .scale) (column * scalePerCol + inner))⟩]) ++
  [⟨(rank, ⟨.w13, .scale⟩), localIdx * scales, scales, fun inner =>
      call.narrow .scale (read (call.slot .gate .scale) inner)⟩,
   ⟨(rank, ⟨.w13, .scale⟩), localIdx * scales + call.gpuTpScaleCount, scales, fun inner =>
      call.narrow .scale (read (call.slot .up .scale) inner)⟩]

def ranksPerPart (call : Export) : Nat :=
  call.gpuTpCount / call.config.tpCount

def oneCopies (call : Export) (read : Slot → Nat → Cell) (part : Nat) : List (Copy Destination Cell) :=
  let bytes := call.cpuTpWeightBytes / call.ranksPerPart
  let scales := call.cpuTpScaleCount / call.ranksPerPart
  let weightPerCol := call.partSize / call.ranksPerPart / 2
  let scalePerCol := call.partSize / call.ranksPerPart / call.group
  (List.range call.ranksPerPart).flatMap fun local_ =>
    let rank := part * call.ranksPerPart + local_
    Copy.chunked (rank, ⟨.w13, .weight⟩) 0 bytes (weightChunkSize bytes) numWeightTasks
      (fun inner => read (call.slot .gate .weight) (local_ * bytes + inner)) ++
    Copy.chunked (rank, ⟨.w13, .weight⟩) call.gpuTpWeightBytes bytes (weightChunkSize bytes) numWeightTasks
      (fun inner => read (call.slot .up .weight) (local_ * bytes + inner)) ++
    call.downColumns (fun column =>
      [⟨(rank, ⟨.w2, .weight⟩), column * weightPerCol, weightPerCol, fun inner =>
        read (call.slot .down .weight) (column * call.partSize / 2 + local_ * bytes / call.hidden + inner)⟩,
       ⟨(rank, ⟨.w2, .scale⟩), column * scalePerCol, scalePerCol, fun inner =>
        call.narrow .scale (read (call.slot .down .scale)
          (column * (call.partSize / call.group) + local_ * scales / call.hidden + inner))⟩]) ++
    [⟨(rank, ⟨.w13, .scale⟩), 0, scales, fun inner =>
        call.narrow .scale (read (call.slot .gate .scale) (local_ * scales + inner))⟩,
     ⟨(rank, ⟨.w13, .scale⟩), call.gpuTpScaleCount, scales, fun inner =>
        call.narrow .scale (read (call.slot .up .scale) (local_ * scales + inner))⟩]

def partCopies (call : Export) (read : Slot → Nat → Cell) (part : Nat) : List (Copy Destination Cell) :=
  match call.backend with
  | .rawInt4 | .mxfp4 =>
      if call.config.tpCount ≥ call.gpuTpCount then call.manyCopies read part else call.oneCopies read part
  | _ => call.rowCopies read part

/-- The copies of all parts, which run at the same time.  `none` is an access past the
experts of a part, which only RAWINT4 and MXFP4 check. -/
def copies (call : Export) (read : Nat → Slot → Nat → Cell) : Except String (Option (List (Copy Destination Cell))) :=
  let outside := call.expertId < 0 ∨ (call.config.expertNum : Int) ≤ call.expertId
  match call.backend with
  | .gptqInt4 => .error "GPTQ INT4 write_weight_scale_to_buffer not yet implemented"
  | .rawInt4 =>
      if outside then .error "RAWINT4 write_weights_to_buffer requested an expert without loaded weights"
      else .ok (some ((List.range call.config.tpCount).flatMap fun part => call.partCopies (read part) part))
  | .mxfp4 =>
      if outside then .error "MXFP4 AVX2 write_weights_to_buffer: invalid expert"
      else .ok (some ((List.range call.config.tpCount).flatMap fun part => call.partCopies (read part) part))
  | _ =>
      if outside then .ok none
      else .ok (some ((List.range call.config.tpCount).flatMap fun part => call.partCopies (read part) part))

end Export

end KtKernel.Avx2
