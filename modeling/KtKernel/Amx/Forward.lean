import Mathlib.Algebra.BigOperators.Group.List.Basic
import Mathlib.Algebra.Order.Ring.Rat
import KtKernel.Amx.Routing
import KtKernel.Data.Stores

namespace KtKernel.Amx

open KtKernel.Data

/-! The two passes of `AMX_MOE_BASE` over the tables.

Packing, the products and the activation are functions of single rows, and
numbers are exact.  A product is written to its local array by the task that
computes it. -/

/-- What the kernel type computes on a row. -/
structure Kernels (Q : Type) where
  fromInput : (Nat → ℚ) → Q
  gateUpGemm : Bool → Nat → Q → Nat → ℚ
  actFn : ℚ → ℚ → ℚ
  fromGate : (Nat → ℚ) → Q
  downGemm : Nat → Q → Nat → ℚ

/-- The local arrays by row and column, and the packed rows of each expert. -/
structure Arrays (Q : Type) where
  localInput : Nat × Nat → ℚ
  gateUpOutput : Bool × Nat × Nat → ℚ
  downOutput : Nat × Nat → ℚ
  gateUpBa : Nat → Nat → Q
  downBa : Nat → Nat → Q

def recommendedNth (config : Instance) (n : Nat) : Nat :=
  (n + config.nBlock - 1) / config.nBlock

/-- The column belongs to a task's share of a row. -/
def inSplitRange (config : Instance) (n ith column : Nat) : Bool :=
  decide (config.nBlock * ith ≤ column ∧ column < min n (config.nBlock * (ith + 1)))

/-- A row of an array, as far as it goes. -/
def rowOf (width : Nat) (array : Nat × Nat → ℚ) (row : Nat) : Nat → ℚ :=
  fun column => if column < width then array (row, column) else 0

section

variable (config : Instance) {Q : Type} (kernels : Kernels Q) (schedule : Schedule) (tables : Tables)

def ownsRow (expert row : Nat) : Bool :=
  decide (tables.outputRow expert ≤ row ∧ row < tables.outputRow expert + tables.localNum expert)

def taskExpert (nth task : Nat) : Nat :=
  tables.expertIdMap.getD (task / nth) 0

def gateUpStore (nth : Nat) (gateUpBa : Nat → Nat → Q) (task : Nat) : Store (Bool × Nat × Nat) ℚ :=
  fun cell _ =>
    let doUp := decide (task % 2 = 1)
    let expert := taskExpert tables nth (task / 2)
    if cell.1 = doUp ∧ ownsRow tables expert cell.2.1 ∧
        inSplitRange config config.intermediateSize (task / 2 % nth) cell.2.2 then
      some (kernels.gateUpGemm doUp expert (gateUpBa expert (cell.2.1 - tables.outputRow expert)) cell.2.2)
    else none

/-- `apply_activation_to` with the gate outputs as the destination. -/
def activationStore (nth : Nat) (up : Nat × Nat → ℚ) (task : Nat) : Store (Nat × Nat) ℚ :=
  fun cell old =>
    if ownsRow tables (taskExpert tables nth task) cell.1 ∧
        inSplitRange config config.intermediateSize (task % nth) cell.2 then
      some (kernels.actFn old (up cell))
    else none

def downStore (nth : Nat) (downBa : Nat → Nat → Q) (task : Nat) : Store (Nat × Nat) ℚ :=
  fun cell _ =>
    let expert := taskExpert tables nth task
    if ownsRow tables expert cell.1 ∧ inSplitRange config config.hiddenSize (task % nth) cell.2 then
      some (kernels.downGemm expert (downBa expert (cell.1 - tables.outputRow expert)) cell.2)
    else none

/-- The jobs of both passes between packing the input and the weighted sum. -/
def runExperts (arrays : Arrays Q) : Arrays Q :=
  let activated := tables.expertIdMap.length
  let nth := recommendedNth config config.intermediateSize
  let gateUp := Store.runAll ((schedule.order 0 (nth * activated * 2)).map
    (gateUpStore config kernels tables nth arrays.gateUpBa)) arrays.gateUpOutput
  let gate := Store.runAll ((schedule.order 1 (nth * activated)).map
    (activationStore config kernels tables nth fun cell => gateUp (true, cell))) fun cell => gateUp (false, cell)
  let downBa := fun expert row =>
    if expert ∈ tables.expertIdMap ∧ row < tables.localNum expert then
      kernels.fromGate (rowOf config.intermediateSize gate (tables.outputRow expert + row))
    else arrays.downBa expert row
  let nthDown := recommendedNth config config.hiddenSize
  { arrays with
    gateUpOutput := fun cell => if cell.1 then gateUp cell else gate cell.2
    downBa
    downOutput := Store.runAll ((schedule.order 2 (nthDown * activated)).map
      (downStore config kernels tables nthDown downBa)) arrays.downOutput }

/-- The weighted sum of a token, over the rows of its routed slots. -/
def weightedSum (k : Nat) (expertIds : Nat → Int) (weights : Nat → ℚ) (arrays : Arrays Q)
    (token column : Nat) : ℚ :=
  ((List.range k).map fun slot =>
    if config.shouldSkipExpert (expertIds (token * k + slot)) then 0
    else arrays.downOutput (slotRow k expertIds tables.outputRow tables (token, slot), column) *
      weights (token * k + slot)).sum

def copyStore (k : Nat) (expertIds : Nat → Int) (input : Nat × Nat → ℚ) (slot : Nat × Nat) :
    Store (Nat × Nat) ℚ := fun cell _ =>
  if config.shouldSkipExpert (expertIds (slot.1 * k + slot.2)) then none
  else if cell.1 = slotRow k expertIds tables.inputRow tables slot ∧ cell.2 < config.hiddenSize then
    some (input (slot.1, cell.2))
  else none

end

/-- What an instance keeps from call to call. -/
structure Memory (Q : Type) where
  tables : Tables
  arrays : Arrays Q

section

variable (config : Instance) {Q : Type} (kernels : Kernels Q) (schedule : Schedule)

/-- The output rows of `forward_prefill`. -/
def forwardPrefill (qlen k : Nat) (expertIds : Nat → Int) (weights : Nat → ℚ) (input : Nat × Nat → ℚ)
    (before : Memory Q) (token column : Nat) : ℚ :=
  let tables := prefillTables config qlen k expertIds before.tables
  let localInput := Store.runAll (((schedule.order 3 qlen).product (List.range k)).map
    (copyStore config tables k expertIds input)) before.arrays.localInput
  let gateUpBa := fun expert row =>
    if expert ∈ tables.expertIdMap ∧ row < tables.localNum expert then
      kernels.fromInput (rowOf config.hiddenSize localInput (tables.inputRow expert + row))
    else before.arrays.gateUpBa expert row
  let arrays := runExperts config kernels schedule tables { before.arrays with localInput, gateUpBa }
  weightedSum config tables k expertIds weights arrays token column

/-- The output row of `forward_decode`. -/
def forwardDecode (k : Nat) (expertIds : Nat → Int) (weights : Nat → ℚ) (input : Nat → ℚ)
    (before : Memory Q) (column : Nat) : ℚ :=
  let tables := decodeTables config k expertIds before.tables
  let gateUpBa := fun expert row =>
    if expert ∈ tables.expertIdMap ∧ row < 1 then
      kernels.fromInput fun column => if column < config.hiddenSize then input column else 0
    else before.arrays.gateUpBa expert row
  let arrays := runExperts config kernels schedule tables { before.arrays with gateUpBa }
  weightedSum config tables k expertIds weights arrays 0 column

end

end KtKernel.Amx
