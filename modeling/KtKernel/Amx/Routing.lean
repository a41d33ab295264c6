import Mathlib.Algebra.BigOperators.Group.Finset.Basic
import Mathlib.Data.List.ProdSigma
import Mathlib.Logic.Function.Basic

namespace KtKernel.Amx

/-! The tables that `AMX_MOE_BASE::forward_prefill` and `forward_decode` fill.

Both carve the regions of five pools and the rows of the local arrays for the
experts that a routing activates.  A pointer into a pool is a number of bytes
from its start, a pointer into a local array a number of rows. -/

/-- The types of the left operands. -/
inductive BufferA where
  | int8
  | withSum
  | withSumKGroup
  | kGroup
  | bf16
deriving DecidableEq, Repr

/-- The types of the products. -/
inductive BufferC where
  | plain
  | reduce
deriving DecidableEq, Repr

def BufferA.requiredSize (groupSize : Nat) (maxM k : Nat) : BufferA → Nat
  | .int8 => maxM * k + 4 * maxM
  | .withSum => maxM * k + 4 * maxM * 2
  | .withSumKGroup => maxM * k + 4 * maxM * (k / groupSize) * 2
  | .kGroup => maxM * k + 4 * maxM * (k / groupSize)
  | .bf16 => 2 * maxM * k

def BufferC.requiredSize (maxM n : Nat) : BufferC → Nat
  | .plain => 4 * maxM * n
  | .reduce => 4 * maxM * n + 4 * maxM * n

structure Instance where
  expertNum : Nat
  numExpertsPerTok : Nat
  maxLen : Nat
  hiddenSize : Nat
  intermediateSize : Nat
  groupSize : Nat
  gpuExpertsMask : Nat → Bool
  mStep : Nat
  nBlock : Nat
  bufferA : BufferA
  bufferC : BufferC
  mStepPositive : 0 < mStep
  nBlockPositive : 0 < nBlock
  hiddenPositive : 0 < hiddenSize
  intermediatePositive : 0 < intermediateSize

inductive Pool where
  | gateUpBa
  | gateBc
  | upBc
  | downBa
  | downBc
deriving DecidableEq, Repr

namespace Instance

/-- Invalid ids and experts on the GPU. -/
def shouldSkipExpert (config : Instance) (expertId : Int) : Bool :=
  decide (expertId < 0) || decide ((config.expertNum : Int) ≤ expertId) ||
    config.gpuExpertsMask expertId.toNat

/-- The bytes of a buffer of a pool with room for some rows. -/
def requiredSize (config : Instance) (maxM : Nat) : Pool → Nat
  | .gateUpBa => config.bufferA.requiredSize config.groupSize maxM config.hiddenSize
  | .gateBc | .upBc => config.bufferC.requiredSize maxM config.intermediateSize
  | .downBa => config.bufferA.requiredSize config.groupSize maxM config.intermediateSize
  | .downBc => config.bufferC.requiredSize maxM config.hiddenSize

def poolCount (config : Instance) : Nat :=
  config.maxLen * config.numExpertsPerTok + config.expertNum * config.mStep

def poolBytes (config : Instance) (pool : Pool) : Nat :=
  config.requiredSize config.poolCount pool + config.poolCount * 64

def localRows (config : Instance) : Nat :=
  config.numExpertsPerTok * config.maxLen

/-- The rows rounded up to whole steps. -/
def paddedRows (config : Instance) (rows : Nat) : Nat :=
  (rows + config.mStep - 1) / config.mStep * config.mStep

end Instance

def align64 (bytes : Nat) : Nat :=
  (bytes + 63) / 64 * 64

/-- A pool pointer runs along with the bytes used.  The gate, up and down
outputs of an expert start at the same row. -/
structure Tables where
  localNum : Nat → Nat
  localPos : Nat × Nat → Nat
  expertIdMap : List Nat
  inputRow : Nat → Nat
  outputRow : Nat → Nat
  offset : Nat
  maxM : Nat → Nat
  data : Pool → Nat → Nat
  usedM : Nat
  usedBytes : Pool → Nat

section

variable (config : Instance)

def Tables.cleared (tables : Tables) : Tables :=
  { tables with
    localNum := fun _ => 0
    expertIdMap := []
    offset := 0
    usedM := 0
    usedBytes := fun _ => 0 }

def carvePools (maxM : Nat) (tables : Tables) (expert : Nat) : Tables :=
  { tables with
    maxM := Function.update tables.maxM expert maxM
    data := fun pool => Function.update (tables.data pool) expert (tables.usedBytes pool)
    usedM := tables.usedM + maxM
    usedBytes := fun pool => tables.usedBytes pool + align64 (config.requiredSize maxM pool) }

/-! ## Prefill -/

/-- The slots of a routing in the order of the loops. -/
def slots (qlen k : Nat) : List (Nat × Nat) :=
  (List.range qlen).product (List.range k)

def countSlot (k : Nat) (expertIds : Nat → Int) (tables : Tables) (slot : Nat × Nat) : Tables :=
  let expertId := expertIds (slot.1 * k + slot.2)
  if config.shouldSkipExpert expertId then tables
  else
    let expert := expertId.toNat
    { tables with
      localPos := Function.update tables.localPos slot (tables.localNum expert)
      localNum := Function.update tables.localNum expert (tables.localNum expert + 1) }

def carveExpert (tables : Tables) (expert : Nat) : Tables :=
  let placed :=
    { tables with
      inputRow := Function.update tables.inputRow expert tables.offset
      outputRow := Function.update tables.outputRow expert tables.offset
      offset := tables.offset + tables.localNum expert }
  if tables.localNum expert = 0 then placed
  else carvePools config (config.paddedRows (tables.localNum expert)) placed expert

def mapExperts (tables : Tables) : Tables :=
  { tables with
    expertIdMap := (List.range config.expertNum).filter fun expert =>
      decide (0 < tables.localNum expert) }

def prefillTables (qlen k : Nat) (expertIds : Nat → Int) (before : Tables) : Tables :=
  let counted := (slots qlen k).foldl (countSlot config k expertIds) before.cleared
  (List.range config.expertNum).foldl (carveExpert config) (mapExperts config counted)

def recordSlot (expertIds : Nat → Int) (tables : Tables) (slot : Nat) : Tables :=
  if config.shouldSkipExpert (expertIds slot) then tables
  else
    let expert := (expertIds slot).toNat
    { tables with
      expertIdMap := tables.expertIdMap ++ [expert]
      localPos := Function.update tables.localPos (0, slot) 0
      localNum := Function.update tables.localNum expert 1 }

def placeRow (tables : Tables) (expert : Nat) : Tables :=
  { tables with
    outputRow := Function.update tables.outputRow expert tables.offset
    offset := tables.offset + 1 }

/-- The pool of the gate and up operands is carved in a loop of its own after
the others, with the same steps. -/
def decodeTables (k : Nat) (expertIds : Nat → Int) (before : Tables) : Tables :=
  let recorded := (List.range k).foldl (recordSlot config expertIds) before.cleared
  let placed := recorded.expertIdMap.foldl placeRow recorded
  placed.expertIdMap.foldl (carvePools config (config.paddedRows 1)) placed

/-! ## Safety -/

/-- A routed slot. -/
def Live (k : Nat) (expertIds : Nat → Int) (slot : Nat × Nat) : Prop :=
  config.shouldSkipExpert (expertIds (slot.1 * k + slot.2)) = false

def slotRow (k : Nat) (expertIds : Nat → Int) (rows : Nat → Nat) (tables : Tables)
    (slot : Nat × Nat) : Nat :=
  rows (expertIds (slot.1 * k + slot.2)).toNat + tables.localPos slot

/-- The asserts at the end of the carving. -/
def Fits (tables : Tables) : Prop :=
  tables.usedM ≤ config.poolCount ∧ ∀ pool, tables.usedBytes pool ≤ config.poolBytes pool

/-- Two ranges that do not meet. -/
def Apart (start length otherStart otherLength : Nat) : Prop :=
  start + length ≤ otherStart ∨ otherStart + otherLength ≤ start

/-- The regions of the activated experts lie in the pools and do not meet. -/
def RegionsSafe (tables : Tables) : Prop :=
  (∀ expert pool, 0 < tables.localNum expert →
    tables.localNum expert ≤ tables.maxM expert ∧
    tables.data pool expert + config.requiredSize (tables.maxM expert) pool ≤ config.poolBytes pool) ∧
  ∀ expert other pool, 0 < tables.localNum expert → 0 < tables.localNum other → expert ≠ other →
    Apart (tables.data pool expert) (config.requiredSize (tables.maxM expert) pool)
      (tables.data pool other) (config.requiredSize (tables.maxM other) pool)

/-- The rows of the activated experts lie in a local array and do not meet, and
every routed slot has a row of its own. -/
def RowsSafe (qlen k : Nat) (expertIds : Nat → Int) (rows : Nat → Nat) (tables : Tables) : Prop :=
  (∀ expert, 0 < tables.localNum expert → rows expert + tables.localNum expert ≤ config.localRows) ∧
  (∀ expert other, 0 < tables.localNum expert → 0 < tables.localNum other → expert ≠ other →
    Apart (rows expert) (tables.localNum expert) (rows other) (tables.localNum other)) ∧
  (∀ slot ∈ slots qlen k, Live config k expertIds slot →
    tables.localPos slot < tables.localNum (expertIds (slot.1 * k + slot.2)).toNat) ∧
  ∀ slot ∈ slots qlen k, ∀ other ∈ slots qlen k, Live config k expertIds slot →
    Live config k expertIds other → slot ≠ other →
    slotRow k expertIds rows tables slot ≠ slotRow k expertIds rows tables other

end

end KtKernel.Amx
