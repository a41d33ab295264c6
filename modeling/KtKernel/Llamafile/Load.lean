import Mathlib.Data.Set.Function
import Mathlib.Order.Interval.Set.Defs
import KtKernel.Amx.ExpertFiles
import KtKernel.Data.Copies

namespace KtKernel.Llamafile

open KtKernel.Data
open KtKernel.Amx.ExpertFiles (Mat)

/-! `LLAMA_MOE_TP::load_weights`: the GGUF tensors are aliased, or the part's slice
of every expert is copied. -/

/-- A ggml type: `type_size` bytes for every `blck_size` elements. -/
structure Format where
  blockSize : Nat
  typeSize : Nat
  blockPositive : 0 < blockSize
  typePositive : 0 < typeSize

def Format.bytes (format : Format) (elements : Nat) : Nat :=
  elements * format.typeSize / format.blockSize

/-- A tensor-parallel part.  `onGpu` is the mask of the experts on the GPU. -/
structure Part where
  expertNum : Nat
  hiddenSize : Nat
  intermediateSize : Nat
  completeSize : Nat
  offset : Nat
  format : Mat → Format
  onGpu : Nat → Bool
  hiddenPositive : 0 < hiddenSize
  intermediatePositive : 0 < intermediateSize
  inside : offset + intermediateSize ≤ completeSize

inductive LoadError where
  | downBlocks
  | upBlocks
  | gateBlocks
  | notPermutation
deriving DecidableEq, Repr

/-- The texts of the exceptions.  The first names another type than the one that
is checked. -/
def LoadError.message : LoadError → String
  | .downBlocks => "intermediate_size must be a multiple of gate_type blck size"
  | .upBlocks => "intermediate_size * hidden_size must be a multiple of up_type blck size"
  | .gateBlocks => "intermediate_size * hidden_size must be a multiple of gate_type blck size"
  | .notPermutation => "physical_to_logical_map must be a permutation of logical expert IDs"

namespace Part

def checkBlocks (part : Part) : Except LoadError Unit :=
  if part.intermediateSize % (part.format .down).blockSize ≠ 0 then .error .downBlocks
  else if part.intermediateSize * part.hiddenSize % (part.format .up).blockSize ≠ 0 then .error .upBlocks
  else if part.intermediateSize * part.hiddenSize % (part.format .gate).blockSize ≠ 0 then .error .gateBlocks
  else .ok ()

/-- The loop that checks the map.  It returns whether the map is the identity. -/
def scanMap (expertNum : Nat) (map : Nat → Int) : List Nat → (Int → Bool) → Bool → Except LoadError Bool
  | [], _, identity => .ok identity
  | physical :: rest, seen, identity =>
      let logical := map physical
      if logical < 0 ∨ logical ≥ expertNum ∨ seen logical then .error .notPermutation
      else scanMap expertNum map rest (fun id => id = logical || seen id) (identity && logical = physical)

def identityMapping (part : Part) : Option (Nat → Int) → Except LoadError Bool
  | none => .ok true
  | some map => scanMap part.expertNum map (List.range part.expertNum) (fun _ => false) true

def shouldSkipExpert (part : Part) (expert : Int) : Bool :=
  expert < 0 || expert ≥ part.expertNum || part.onGpu expert.toNat

/-- The bytes of an expert's matrix in the part. -/
def targetStride (part : Part) : Mat → Nat
  | .down => part.hiddenSize * (part.format .down).bytes part.intermediateSize
  | mat => (part.format mat).bytes (part.intermediateSize * part.hiddenSize)

/-- The bytes of an expert's matrix in the checkpoint. -/
def sourceStride (part : Part) : Mat → Nat
  | .down => part.hiddenSize * (part.format .down).bytes part.completeSize
  | mat => (part.format mat).bytes (part.completeSize * part.hiddenSize)

/-- Where the part starts in an expert of the checkpoint. -/
def sourceBase (part : Part) : Mat → Nat
  | .down => (part.format .down).bytes part.offset
  | mat => (part.format mat).bytes (part.offset * part.hiddenSize)

def logicalOf (map : Option (Nat → Int)) (physical : Nat) : Int :=
  match map with
  | none => physical
  | some map => map physical

def copyMat (part : Part) (source : Mat × Nat → UInt8) (physical logical : Nat) (mat : Mat) :
    List (Copy Mat UInt8) :=
  let base := part.sourceBase mat + physical * part.sourceStride mat
  match mat with
  | .down =>
      let width := (part.format .down).bytes part.intermediateSize
      Copy.strided .down (logical * part.targetStride .down) width width
        (fun row inner => source (.down, base + row * (part.format .down).bytes part.completeSize + inner))
        part.hiddenSize
  | mat =>
      [⟨mat, logical * part.targetStride mat, part.targetStride mat, fun inner => source (mat, base + inner)⟩]

def copyExpert (part : Part) (map : Option (Nat → Int)) (source : Mat × Nat → UInt8) (physical : Nat) :
    List (Copy Mat UInt8) :=
  let logical := logicalOf map physical
  if part.shouldSkipExpert logical then []
  else [.gate, .up, .down].flatMap (part.copyMat source physical logical.toNat)

end Part

/-- What `load_weights` does after its checks. -/
inductive Plan where
  | alias
  | copy (copies : List (Copy Mat UInt8))

def Part.loadWeights (part : Part) (map : Option (Nat → Int)) (source : Mat × Nat → UInt8) :
    Except LoadError Plan := do
  part.checkBlocks
  let identity ← part.identityMapping map
  if identity && part.offset == 0 && part.completeSize == part.intermediateSize then return .alias
  else return .copy ((List.range part.expertNum).flatMap (part.copyExpert map source))

/-- The local weights after a load that succeeds, for one order of the copies. -/
def Part.Loaded (part : Part) (map : Option (Nat → Int)) (source local_ : Mat × Nat → UInt8) : Prop :=
  match part.loadWeights map source with
  | .error _ => False
  | .ok .alias => local_ = source
  | .ok (.copy copies) => ∃ blank, Copy.Performed copies blank local_

end KtKernel.Llamafile
