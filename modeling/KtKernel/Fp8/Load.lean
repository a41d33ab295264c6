import KtKernel.Data.Lines
import KtKernel.K2.Load

namespace KtKernel.Fp8

open KtKernel.Data
open KtKernel.Amx.ExpertFiles (Mat)
open KtKernel.K2 (Slot mats)

/-! The load of block-scaled FP8 weights: the check of the source, the
tensor-parallel staging and the packing into the tiles of the slots. -/

/-- Pointers of the configuration: one array for all experts, and the arrays of the
experts one by one.  `none` is a null pointer. -/
structure Pointers (α : Type) where
  proj : Mat → Option (Nat → α)
  projs : Mat → List (List (Option (Nat → α)))

/-- The fields of the configuration that the load reads. -/
structure Config (F : Type) where
  expertNum : Nat
  hiddenSize : Nat
  intermediateSize : Nat
  groupSize : Nat
  zeroPoint : Bool
  weights : Pointers UInt8
  scales : Pointers F

section

variable {α F : Type}

def Config.perExpert (config : Config F) : Bool :=
  !(config.weights.projs .gate).isEmpty

def hasExperts (config : Config F) (pointers : List (List (Option (Nat → α)))) : Bool :=
  !pointers.isEmpty && decide ((pointers.headD []).length ≥ config.expertNum)

def Pointers.expert (pointers : Pointers α) (mat : Mat) (expert : Nat) : Option (Nat → α) :=
  ((pointers.projs mat).headD []).getD expert none

def validateBlockFp8TpSource (config : Config F) : Except String Unit :=
  if config.groupSize = 0 ∨ config.zeroPoint = true then
    .error "native FP8 TP loading requires block scales and zero_point=false"
  else if config.hiddenSize = 0 ∨ config.intermediateSize = 0 ∨ config.expertNum = 0 ∨
      config.hiddenSize % config.groupSize ≠ 0 ∨ config.intermediateSize % config.groupSize ≠ 0 then
    .error "native FP8 TP loading requires group-aligned model dimensions"
  else if config.perExpert = false then
    if mats.any (fun mat => (config.weights.proj mat).isNone) || mats.any (fun mat => (config.scales.proj mat).isNone) then
      .error "native FP8 TP loading requires all weight and scale sources"
    else .ok ()
  else if !(mats.all (fun mat => hasExperts config (config.weights.projs mat)) &&
      mats.all (fun mat => hasExperts config (config.scales.projs mat))) then
    .error "native FP8 per-expert TP source is incomplete"
  else
    match (List.range config.expertNum).find? (fun expert =>
        mats.any (fun mat => (config.weights.expert mat expert).isNone) ||
          mats.any (fun mat => (config.scales.expert mat expert).isNone)) with
    | some expert => .error ("native FP8 per-expert TP source contains a null pointer at expert " ++ toString expert)
    | none => .ok ()

/-! ## Staging -/

/-- The sizes of the staging arrays of a part, for one expert. -/
structure Staging where
  weightElems : Nat
  scaleElems : Nat
deriving DecidableEq, Repr

def allocate (expertNum hiddenSize localIntermediateSize groupSize : Nat) : Except String Staging :=
  if expertNum = 0 ∨ hiddenSize = 0 ∨ localIntermediateSize = 0 ∨ groupSize = 0 then
    .error "FP8 TP staging dimensions must be positive"
  else .ok ⟨hiddenSize * localIntermediateSize, hiddenSize / groupSize * (localIntermediateSize / groupSize)⟩

/-- Reads through a null pointer do not happen after the check. -/
def dereference [Inhabited α] (pointer : Option (Nat → α)) (offset : Nat) : α :=
  match pointer with
  | some cells => cells offset
  | none => default

/-- A cell of the checkpoint's expert, of `elems` cells. -/
def Config.source [Inhabited α] (config : Config F) (pointers : Pointers α) (elems : Nat) (mat : Mat)
    (expert offset : Nat) : α :=
  if config.perExpert then dereference (pointers.expert mat expert) offset
  else dereference (pointers.proj mat) (expert * elems + offset)

def Config.weight (config : Config F) : Mat → Nat → Nat → UInt8 :=
  config.source config.weights (config.intermediateSize * config.hiddenSize)

def Config.scale [Inhabited F] (config : Config F) : Mat → Nat → Nat → F :=
  config.source config.scales (config.intermediateSize / config.groupSize * (config.hiddenSize / config.groupSize))

/-- The copies of one matrix of an expert: rows of gate and up, columns of down. -/
def stageMatrix (source : Nat → α) (hidden intermediate local_ offset expert : Nat) (mat : Mat) : List (Copy Mat α) :=
  let elems := local_ * hidden
  match mat with
  | .down =>
      (List.range hidden).flatMap fun row =>
        [⟨.down, expert * elems + row * local_, local_, fun inner => source (row * intermediate + offset + inner)⟩]
  | _ => [⟨mat, expert * elems, elems, fun inner => source (offset * hidden + inner)⟩]

structure Staged (F : Type) where
  weights : List (Copy Mat UInt8)
  scales : List (Copy Mat F)

def stageBlockFp8TpExpert [Inhabited F] (config : Config F) (localIntermediateSize intermediateOffset logicalExpert : Nat)
    (staging : Staging) : Except String (Staged F) :=
  let group := config.groupSize
  let localScaleElems := localIntermediateSize / group * (config.hiddenSize / group)
  if localIntermediateSize = 0 ∨ intermediateOffset + localIntermediateSize > config.intermediateSize ∨
      localIntermediateSize % group ≠ 0 ∨ intermediateOffset % group ≠ 0 then
    .error "native FP8 TP slice must be group-aligned and within the full intermediate size"
  else if logicalExpert ≥ config.expertNum then
    .error "native FP8 TP logical expert is out of range"
  else if staging.weightElems ≠ localIntermediateSize * config.hiddenSize ∨ staging.scaleElems ≠ localScaleElems then
    .error "native FP8 TP staging storage has the wrong shape"
  else
    .ok {
      weights := mats.flatMap fun mat =>
        stageMatrix (config.weight mat logicalExpert) config.hiddenSize config.intermediateSize localIntermediateSize
          intermediateOffset logicalExpert mat
      scales := mats.flatMap fun mat =>
        stageMatrix (config.scale mat logicalExpert) (config.hiddenSize / group) (config.intermediateSize / group)
          (localIntermediateSize / group) (intermediateOffset / group) logicalExpert mat }

/-! ## Tiles -/

def nStep : Nat := 32

def kStep : Nat := 32

def nBlock : Nat := 128

def kBlock : Nat := 7168

def recommendedNth (n : Nat) : Nat :=
  (n + nBlock - 1) / nBlock

def divUp (count size : Nat) : Nat :=
  (count + size - 1) / size

/-- The values of a loop variable that goes up in steps. -/
def steps (count step : Nat) : List Nat :=
  (List.range (divUp count step)).map (· * step)

def matOffset (index : Nat) : Nat :=
  [0, 2, 4, 6, 1, 3, 5, 7].getD index 0

/-- A tile of 32 rows and columns.  A word takes two columns of four rows. -/
def packTile (slot : Slot) (start k : Nat) (source : Nat → α) : List (Copy Slot α) :=
  (List.range 8).flatMap fun i =>
    (List.range 16).flatMap fun j =>
      [⟨slot, start + (8 * j + matOffset i) * 8, 8, fun byte =>
        source (i * k * 4 + 2 * (j + k / 2 * (byte / 2)) + byte % 2)⟩]

/-- The weights of `from_mat`. -/
def fromMat (slot : Slot) (n k : Nat) (source : Nat → α) (ith : Nat) : List (Copy Slot α) :=
  let nBlockBegin := nBlock * ith
  let nBlockSize := min n (nBlock * (ith + 1)) - nBlockBegin
  (steps nBlockSize nStep).flatMap fun nBegin =>
    (steps k kBlock).flatMap fun kBlockBegin =>
      let kBlockSize := min kBlock (k - kBlockBegin)
      (steps kBlockSize kStep).flatMap fun kBegin =>
        packTile slot (nBlockBegin * k + kBlockBegin * nBlockSize + nBegin * kBlockSize + kBegin * nStep) k fun offset =>
          source ((nBlockBegin + nBegin) * k + kBlockBegin + kBegin + offset)

/-- The scales of `from_mat`. -/
def fromMatScales (slot : Slot) (n k group : Nat) (source : Nat → α) (ith : Nat) : List (Copy Slot α) :=
  let nBlocksK := (k + group - 1) / group
  let bnStart := nBlock * ith / group
  let bnEnd := (min n (nBlock * (ith + 1)) + group - 1) / group
  [⟨slot, bnStart * nBlocksK, (bnEnd - bnStart) * nBlocksK, fun inner => source (bnStart * nBlocksK + inner)⟩]

end

/-! ## The load of a part -/

/-- The rows of a part's matrix. -/
def rows (hidden part : Nat) : Mat → Nat
  | .down => hidden
  | _ => part

def columns (hidden part : Nat) : Mat → Nat
  | .down => part
  | _ => hidden

section

variable {F : Type} [Inhabited F]

/-- The tensor-parallel split gives every part the same share. -/
def Config.partSize (config : Config F) (tpCount : Nat) : Nat :=
  config.intermediateSize / tpCount

def stageJob (config : Config F) (tpCount : Nat) (map : Nat → Nat) (part : Nat) : Except String (Staged F) :=
  let partSize := config.partSize tpCount
  if tpCount * partSize ≠ config.intermediateSize then
    .error "FP8 TP slices do not cover the full intermediate size"
  else do
    let staging ← allocate config.expertNum config.hiddenSize partSize config.groupSize
    let experts ← (List.range config.expertNum).mapM fun expert =>
      stageBlockFp8TpExpert config partSize (part * partSize) (map expert) staging
    return ⟨experts.flatMap Staged.weights, experts.flatMap Staged.scales⟩

def loadJob {α : Type} (config : Config F) (partSize : Nat) (map : Nat → Nat) (staged : Mat × Nat → α) (elems : Nat)
    (fromMatrix : Slot → (n k : Nat) → (Nat → α) → Nat → List (Copy Slot α)) : List (Copy Slot α) :=
  mats.flatMap fun mat =>
    let n := rows config.hiddenSize partSize mat
    let k := columns config.hiddenSize partSize mat
    let nth := recommendedNth n
    (List.range (nth * config.expertNum)).flatMap fun task =>
      let slot := task / nth
      fromMatrix ⟨mat, slot⟩ n k (fun offset => staged (mat, map slot * elems + offset)) (task % nth)

/-- The tables of a part after a load that throws nothing, for one order of the
copies. -/
structure Loaded (config : Config F) (tpCount : Nat) (map : Nat → Nat) (part : Nat) (weights : Slot × Nat → UInt8)
    (floats : Slot × Nat → F) : Prop where
  valid : validateBlockFp8TpSource config = .ok ()
  run : ∃ staged, stageJob config tpCount map part = .ok staged ∧
    (∃ undefined cells blank, Copy.Performed staged.weights undefined cells ∧
      Copy.Performed (loadJob config (config.partSize tpCount) map cells
        (config.partSize tpCount * config.hiddenSize) fromMat) blank weights) ∧
    ∃ undefined cells blank, Copy.Performed staged.scales undefined cells ∧
      Copy.Performed (loadJob config (config.partSize tpCount) map cells
        (config.hiddenSize / config.groupSize * (config.partSize tpCount / config.groupSize))
        fun slot n k => fromMatScales slot n k config.groupSize) blank floats

end

end KtKernel.Fp8
