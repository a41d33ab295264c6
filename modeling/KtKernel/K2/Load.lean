import Mathlib.Data.Set.Function
import Mathlib.Order.Interval.Set.Defs
import KtKernel.Amx.ExpertFiles
import KtKernel.Data.Copies

namespace KtKernel.K2

open KtKernel.Data
open KtKernel.Amx.ExpertFiles (Mat)

/-! The packed INT4 weights of `AMX_K2_MOE_TP`: the tensor-parallel copy and the
load into the slots.

A row of `k` weights is `k / 2` bytes, and its scales are `k / group_size` floats.
Both are rows of cells, `unit` weights to the cell. -/

/-- What the constructors of the buffers accept. -/
structure Shape where
  expertNum : Nat
  tpCount : Nat
  hiddenSize : Nat
  partSize : Nat
  groupSize : Nat
  tpPositive : 0 < tpCount
  hiddenPositive : 0 < hiddenSize
  partPositive : 0 < partSize
  groupPositive : 0 < groupSize
  hiddenSteps : 32 ∣ hiddenSize
  partSteps : 32 ∣ partSize
  hiddenGroups : groupSize ∣ hiddenSize
  partGroups : groupSize ∣ partSize

inductive Layout where
  | linear
  | blocked
deriving DecidableEq, Repr

/-- The blocked buffer accepts rows of whole tiles only. -/
def Layout.Accepts (shape : Shape) : Layout → Prop
  | .linear => True
  | .blocked => 64 ∣ shape.hiddenSize ∧ 64 ∣ shape.partSize

namespace Shape

def intermediateSize (shape : Shape) : Nat :=
  shape.tpCount * shape.partSize

def rows (shape : Shape) : Mat → Nat
  | .down => shape.hiddenSize
  | _ => shape.partSize

def columns (shape : Shape) : Mat → Nat
  | .down => shape.partSize
  | _ => shape.hiddenSize

/-- The number of weights in a cell: two in a byte, a group for a scale. -/
structure Unit (shape : Shape) where
  size : Nat
  positive : 0 < size
  hidden : size ∣ shape.hiddenSize
  part : size ∣ shape.partSize

def byte (shape : Shape) : shape.Unit where
  size := 2
  positive := Nat.two_pos
  hidden := Nat.dvd_trans (by decide) shape.hiddenSteps
  part := Nat.dvd_trans (by decide) shape.partSteps

def group (shape : Shape) : shape.Unit where
  size := shape.groupSize
  positive := shape.groupPositive
  hidden := shape.hiddenGroups
  part := shape.partGroups

end Shape

/-- The checkpoint: one array for all experts, or an array for each. -/
inductive Source (α : Type) where
  | contiguous (cells : Mat → Nat → α)
  | perExpert (cells : Mat → Nat → Nat → α)

section

variable {α : Type}

def Source.cell (shape : Shape) (unit : shape.Unit) (source : Source α) (mat : Mat) (expert offset : Nat) : α :=
  match source with
  | .contiguous cells => cells mat (expert * (shape.intermediateSize * (shape.hiddenSize / unit.size)) + offset)
  | .perExpert cells => cells mat expert offset

/-- The cells of an expert's matrix in a part. -/
def Shape.partCells (shape : Shape) (unit : shape.Unit) : Nat :=
  shape.partSize * (shape.hiddenSize / unit.size)

/-- The copies of one expert.  All sizes are multiples of the unit, so the halved
sums of the source are sums of halves. -/
def stageCopies (shape : Shape) (unit : shape.Unit) (source : Source α) (part expert : Nat) (mat : Mat) :
    List (Copy Mat α) :=
  let cells := shape.partCells unit
  match mat with
  | .down =>
      let width := shape.partSize / unit.size
      Copy.strided .down (expert * cells) width width
        (fun row inner => source.cell shape unit .down expert
          (row * (shape.intermediateSize / unit.size) + part * width + inner)) shape.hiddenSize
  | _ => [⟨mat, expert * cells, cells, fun inner => source.cell shape unit mat expert (part * cells + inner)⟩]

def mats : List Mat := [.gate, .up, .down]

def stageJob (shape : Shape) (unit : shape.Unit) (map : Nat → Nat) (source : Source α) (part : Nat) :
    List (Copy Mat α) :=
  (List.range shape.expertNum).flatMap fun task =>
    mats.flatMap (stageCopies shape unit source part (map task))

/-! ## The load into the slots -/

/-- A buffer of a slot. -/
structure Slot where
  mat : Mat
  index : Nat
deriving DecidableEq, Repr

def nBlock : Nat := 256

def recommendedNth (n : Nat) : Nat :=
  (n + nBlock - 1) / nBlock

/-- `block_offset_bytes` of the blocked buffer. -/
def blockOffsetBytes (n k row kBegin : Nat) : Nat :=
  let blockBegin := row / nBlock * nBlock
  let blockSize := min nBlock (n - blockBegin)
  blockBegin * k / 2 + kBegin / 64 * blockSize * 32 + (row - blockBegin) * 32

/-- `from_raw_mat` of a share of the rows. -/
def fromRawMat (layout : Layout) (slot : Slot) (n k : Nat) (source : Nat → α) (ith : Nat) : List (Copy Slot α) :=
  let start := nBlock * ith
  let stop := min n (nBlock * (ith + 1))
  match layout with
  | .linear =>
      if start < stop then
        [⟨slot, start * (k / 2), (stop - start) * (k / 2), fun inner => source (start * (k / 2) + inner)⟩]
      else []
  | .blocked =>
      (List.range' start (stop - start)).flatMap fun row =>
        (List.range ((k + 63) / 64)).flatMap fun tile =>
          [⟨slot, blockOffsetBytes n k row (tile * 64), 32, fun inner =>
            source (row * (k / 2) + tile * 64 / 2 + inner)⟩]

/-- The weights of the slots of a part. -/
def loadJob (shape : Shape) (layout : Layout) (map : Nat → Nat) (staged : Mat × Nat → α) : List (Copy Slot α) :=
  mats.flatMap fun mat =>
    let nth := recommendedNth (shape.rows mat)
    (List.range (nth * shape.expertNum)).flatMap fun task =>
      let slot := task / nth
      fromRawMat layout ⟨mat, slot⟩ (shape.rows mat) (shape.columns mat)
        (fun offset => staged (mat, map slot * shape.partCells shape.byte + offset)) (task % nth)

/-- The scales of the slots of a part.  They are converted on the way. -/
def scaleJob {β : Type} (shape : Shape) (map : Nat → Nat) (convert : α → β) (staged : Mat × Nat → α) :
    List (Copy Slot β) :=
  (List.range shape.expertNum).flatMap fun slot =>
    mats.flatMap fun mat =>
      [⟨⟨mat, slot⟩, 0, shape.hiddenSize * shape.partSize / shape.groupSize, fun inner =>
        convert (staged (mat, map slot * (shape.hiddenSize * shape.partSize / shape.groupSize) + inner))⟩]

end

/-- The tables of a part after `load_weights`, for one order of the copies. -/
structure Loaded {B S F : Type} (shape : Shape) (layout : Layout) (map : Nat → Nat) (convert : S → F)
    (bytes : Source B) (scales : Source S) (part : Nat) (weights : Slot × Nat → B) (floats : Slot × Nat → F) :
    Prop where
  weightsRun : ∃ undefined staged blank, Copy.Performed (stageJob shape shape.byte map bytes part) undefined staged ∧
    Copy.Performed (loadJob shape layout map staged) blank weights
  floatsRun : ∃ undefined staged blank, Copy.Performed (stageJob shape shape.group map scales part) undefined staged ∧
    Copy.Performed (scaleJob shape map convert staged) blank floats

end KtKernel.K2
