import Mathlib.Algebra.Ring.Defs
import Mathlib.Data.Fintype.Pi
import Mathlib.Data.List.ProdSigma
import KtKernel.Data.Carving
import KtKernel.Data.Stores

namespace KtKernel.Sft.Window

open KtKernel.Data

/-! The persistent optimizer gradients of `TP_MOE_SFT::backward`.

A gradient tensor is named by its pointer and is a flat array of elements, one
slice for each expert.  Elements are exact numbers; a chunk of the clearing job
is counted in elements of two bytes.  The kernels of the TP parts are known by
what they store: each part owns a range of the intermediate dimension.
-/

/-- The outputs of `backward`, in the order of `optimizer_grad_output_ptrs_`. -/
inductive Tensor where
  | gateProj
  | upProj
  | downProj
  | gateLoraA
  | gateLoraB
  | upLoraA
  | upLoraB
  | downLoraA
  | downLoraB
deriving DecidableEq, Repr

def Tensor.all : List Tensor :=
  [.gateProj, .upProj, .downProj, .gateLoraA, .gateLoraB, .upLoraA, .upLoraB, .downLoraA, .downLoraB]

@[simp]
theorem Tensor.mem_all (tensor : Tensor) : tensor ∈ Tensor.all := by
  cases tensor <;> decide

instance : Fintype Tensor :=
  ⟨⟨Tensor.all, by decide⟩, Tensor.mem_all⟩

def Tensor.isBase : Tensor → Bool
  | .gateProj | .upProj | .downProj => true
  | _ => false

/-- The gradients that the parts reduce through sparse partials. -/
def Tensor.isReduced : Tensor → Bool
  | .gateLoraA | .upLoraA | .downLoraB => true
  | _ => false

/-- The kernel type.  The last stands for the types that support no authoritative
gradients. -/
inductive Backend where
  | bf16
  | int8
  | fp8
  | k2
  | other
deriving DecidableEq, Repr

/-- The constructors refuse `full_weight_grad` on the quantised backends. -/
structure Config where
  backend : Backend
  skipLora : Bool
  fullWeightGrad : Bool
  authoritativeOptimizerGrads : Bool
  loraRank : Nat
  hiddenSize : Nat
  intermediateSize : Nat
  expertNum : Nat
  numGpuExperts : Nat
  tpIntermediateSizes : List Nat
  fullWeightGradSupported : fullWeightGrad = true → backend = .bf16 ∨ backend = .other

namespace Config

def tpCount (config : Config) : Nat :=
  config.tpIntermediateSizes.length

def supportsAuthoritativeBaseGrads (config : Config) : Bool :=
  config.authoritativeOptimizerGrads && config.backend == .bf16 && config.numGpuExperts == 0

def supportsAuthoritativeLoraGrads (config : Config) : Bool :=
  config.authoritativeOptimizerGrads && (!config.skipLora && config.backend != .other) &&
    config.numGpuExperts == 0

/-- The elements of one expert's slice. -/
def expertElements (config : Config) : Tensor → Nat
  | .gateProj | .upProj | .downProj => config.intermediateSize * config.hiddenSize
  | .gateLoraA | .upLoraA => config.loraRank * config.hiddenSize
  | .gateLoraB | .upLoraB => config.intermediateSize * config.loraRank
  | .downLoraA => config.loraRank * config.intermediateSize
  | .downLoraB => config.hiddenSize * config.loraRank

/-- The position on the intermediate dimension of an element of a slice. -/
def intermediate (config : Config) (offset : Nat) : Tensor → Nat
  | .gateProj | .upProj => offset / config.hiddenSize
  | .gateLoraB | .upLoraB => offset / config.loraRank
  | _ => offset % config.intermediateSize

def tpOffset (config : Config) (part : Nat) : Nat :=
  pieceStart config.tpIntermediateSizes part

/-- The part holds the element: every part has a partial of a reduced gradient,
and the other gradients are divided along the intermediate dimension. -/
def holds (config : Config) (part : Nat) (tensor : Tensor) (offset : Nat) : Bool :=
  tensor.isReduced ||
    decide (config.tpOffset part ≤ config.intermediate offset tensor ∧
      config.intermediate offset tensor < config.tpOffset (part + 1))

/-- The kernel of a part adds to what the tensor holds even in a call that
does not accumulate. -/
def alwaysAdds (config : Config) (tensor : Tensor) : Bool :=
  !tensor.isBase && config.backend != .k2

end Config

/-- One invocation, with the routing that its forward left in the cache.  Its
outputs are separate tensors, and the activated experts are listed once each. -/
structure Call (config : Config) (R : Type) where
  outputs : Tensor → Option Nat
  activeExpertMap : List Nat
  accumulate : Bool
  scale : R
  contribution : Nat → Tensor → Nat → Nat → R
  partOrder : List Nat
  separate : ∀ first second pointer, outputs first = some pointer → outputs second = some pointer →
    first = second
  activeDistinct : activeExpertMap.Nodup
  activeBounded : ∀ expert ∈ activeExpertMap, expert < config.expertNum
  parts : partOrder.Perm (List.range config.tpCount)

namespace Call

variable {config : Config}

def needBaseWeightGrad (call : Call config R) : Bool :=
  config.fullWeightGrad && (call.outputs .gateProj).isSome && (call.outputs .upProj).isSome &&
    (call.outputs .downProj).isSome

def needLoraWeightGrad (call : Call config R) : Bool :=
  !config.skipLora && decide (0 < config.loraRank) && (call.outputs .gateLoraA).isSome &&
    (call.outputs .gateLoraB).isSome && (call.outputs .upLoraA).isSome &&
    (call.outputs .upLoraB).isSome && (call.outputs .downLoraA).isSome &&
    (call.outputs .downLoraB).isSome

def hasAuthoritativeBaseGrads (call : Call config R) : Bool :=
  config.supportsAuthoritativeBaseGrads && call.needBaseWeightGrad

def hasAuthoritativeLoraGrads (call : Call config R) : Bool :=
  config.supportsAuthoritativeLoraGrads && call.needLoraWeightGrad

def hasAuthoritativeOptimizerGrads (call : Call config R) : Bool :=
  call.hasAuthoritativeBaseGrads || call.hasAuthoritativeLoraGrads

def needs (call : Call config R) (tensor : Tensor) : Bool :=
  if tensor.isBase then call.needBaseWeightGrad else call.needLoraWeightGrad

def hasAuthoritative (call : Call config R) (tensor : Tensor) : Bool :=
  if tensor.isBase then call.hasAuthoritativeBaseGrads else call.hasAuthoritativeLoraGrads

/-- The gradient tensors that the call computes. -/
def written (call : Call config R) (tensor : Tensor) : Option Nat :=
  if call.needs tensor then call.outputs tensor else none

def currentOptimizerGradPtrs (call : Call config R) (tensor : Tensor) : Option Nat :=
  if call.hasAuthoritative tensor then call.outputs tensor else none

end Call

/-- An element of a tensor. -/
structure Cell where
  pointer : Nat
  position : Nat
deriving DecidableEq, Repr

structure State (R : Type) where
  memory : Cell → R
  windowActiveExperts : List Nat := []
  outputPtrs : Tensor → Option Nat := fun _ => none
  outputsInitialized : Bool := false

/-! ## Clearing -/

structure ClearSeg where
  pointer : Nat
  offset : Nat
  length : Nat
deriving Repr

def chunkElements : Nat :=
  2 * 1024 * 1024 / 2

def appendClearSegments (pointer : Option Nat) (offset elements : Nat) : List ClearSeg :=
  match pointer with
  | none => []
  | some pointer =>
      (List.range ((elements + chunkElements - 1) / chunkElements)).map fun chunk =>
        { pointer
          offset := offset + chunk * chunkElements
          length := min chunkElements (elements - chunk * chunkElements) }

def ClearSeg.memset [Zero R] (seg : ClearSeg) : Store Cell R := fun cell _ =>
  if cell.pointer = seg.pointer ∧ seg.offset ≤ cell.position ∧
      cell.position < seg.offset + seg.length then
    some 0
  else none

section

variable {config : Config}

def forceInitialization (call : Call config R) (state : State R) : Bool :=
  call.hasAuthoritativeOptimizerGrads &&
    (!state.outputsInitialized || decide (call.currentOptimizerGradPtrs ≠ state.outputPtrs))

def effectiveAccumulate (call : Call config R) (state : State R) : Bool :=
  call.hasAuthoritativeOptimizerGrads && call.accumulate && !forceInitialization call state

def clearWhole (config : Config) (call : Call config R) (tensor : Tensor) : List ClearSeg :=
  appendClearSegments (call.outputs tensor) 0 (config.expertNum * config.expertElements tensor)

def clearExpert (config : Config) (call : Call config R) (expert : Nat) (tensor : Tensor) : List ClearSeg :=
  appendClearSegments (call.outputs tensor) (expert * config.expertElements tensor)
    (config.expertElements tensor)

def baseClearSegs (call : Call config R) (state : State R) : List ClearSeg :=
  let tensors := Tensor.all.filter Tensor.isBase
  if !call.needBaseWeightGrad then []
  else if !config.supportsAuthoritativeBaseGrads || forceInitialization call state then
    tensors.flatMap (clearWhole config call)
  else if !effectiveAccumulate call state then
    -- The kernels overwrite the active experts.
    (state.windowActiveExperts.filter fun expert =>
        decide (expert < config.expertNum ∧ expert ∉ call.activeExpertMap)).flatMap fun expert =>
      tensors.flatMap (clearExpert config call expert)
  else []

def loraClearSegs (call : Call config R) (state : State R) : List ClearSeg :=
  let tensors := Tensor.all.filter fun tensor => !tensor.isBase
  if !call.hasAuthoritativeLoraGrads then []
  else if forceInitialization call state then
    tensors.flatMap (clearWhole config call)
  else if !effectiveAccumulate call state then
    (state.windowActiveExperts.filter fun expert => decide (expert < config.expertNum)).flatMap
      fun expert => tensors.flatMap (clearExpert config call expert)
  else []

def clearSegs (call : Call config R) (state : State R) : List ClearSeg :=
  baseClearSegs call state ++ loraClearSegs call state

/-! ## The parts and the merge -/

variable [CommSemiring R]

/-- What a part stores through its slice of the tensor that a cell belongs to. -/
def partStore (call : Call config R) (accumulate : Bool) (part : Nat) (tensor : Tensor) : Store Cell R :=
  fun cell old =>
    let elements := config.expertElements tensor
    let expert := cell.position / elements
    let offset := cell.position % elements
    if call.written tensor = some cell.pointer ∧ 0 < elements ∧ tensor.isReduced = false ∧
        expert ∈ call.activeExpertMap ∧ config.holds part tensor offset then
      let value := call.contribution part tensor expert offset * call.scale
      some (if accumulate || config.alwaysAdds tensor then value + old else value)
    else none

def partStores (call : Call config R) (accumulate : Bool) : List (Store Cell R) :=
  (call.partOrder.product Tensor.all).map fun task => partStore call accumulate task.1 task.2

def sparsePartial (call : Call config R) (part : Nat) (tensor : Tensor) (task offset : Nat) : R :=
  call.contribution part tensor (call.activeExpertMap.getD task 0) offset * call.scale

def mergeStore (call : Call config R) (tensor : Tensor) (task : Nat) : Store Cell R :=
  fun cell old =>
    let elements := config.expertElements tensor
    let offset := cell.position % elements
    if call.written tensor = some cell.pointer ∧ 0 < elements ∧ tensor.isReduced = true ∧
        cell.position / elements = call.activeExpertMap.getD task 0 then
      let sum := ((List.range config.tpCount).map fun part => sparsePartial call part tensor task offset).sum
      some (if config.supportsAuthoritativeLoraGrads then sum + old else sum)
    else none

def mergeStores (call : Call config R) : List (Store Cell R) :=
  (Tensor.all.product (List.range call.activeExpertMap.length)).map fun task =>
    mergeStore call task.1 task.2

def computed (call : Call config R) (state : State R) : Cell → R :=
  let cleared := Store.runAll ((clearSegs call state).map ClearSeg.memset) state.memory
  let stored := Store.runAll (partStores call (effectiveAccumulate call state)) cleared
  Store.runAll (mergeStores call) stored

/-! ## A call -/

/-- How an invocation ends: an exception before the window is marked invalid, one
at any later point that leaves the outputs with some contents, or a return. -/
inductive Ending (R : Type) where
  | refuses
  | throws (contents : Cell → R)
  | returns

def commit (call : Call config R) (state : State R) : State R :=
  if call.hasAuthoritativeOptimizerGrads then
    { state with
      windowActiveExperts :=
        if effectiveAccumulate call state then
          (List.range config.expertNum).filter fun expert =>
            decide (expert ∈ state.windowActiveExperts ∨ expert ∈ call.activeExpertMap)
        else (call.activeExpertMap.mergeSort (· ≤ ·)).dedup
      outputPtrs := call.currentOptimizerGradPtrs
      outputsInitialized := true }
  else state

/-- What an exception leaves: the window is invalid if the call has one, and
only the call's own outputs have changed. -/
def abandoned (call : Call config R) (contents : Cell → R) (state : State R) : State R :=
  { state with
    outputsInitialized := state.outputsInitialized && !call.hasAuthoritativeOptimizerGrads
    memory := fun cell =>
      if Tensor.all.any fun tensor => call.written tensor == some cell.pointer then contents cell
      else state.memory cell }

/-- The state after `TP_MOE_SFT::backward` and whether it returned. -/
def backward (call : Call config R) (ending : Ending R) (state : State R) : Bool × State R :=
  match ending with
  | .refuses => (false, state)
  | .throws contents => (false, abandoned call contents state)
  | .returns =>
      if config.tpIntermediateSizes.sum ≠ config.intermediateSize then
        -- "TP intermediate_size slices do not cover the full intermediate_size"
        (false, abandoned call
          (Store.runAll ((clearSegs call state).map ClearSeg.memset) state.memory) state)
      else (true, { commit call state with memory := computed call state })

def runCalls (calls : List (Call config R × Ending R)) (state : State R) : State R :=
  calls.foldl (fun state event => (backward event.1 event.2 state).2) state

end

end KtKernel.Sft.Window
