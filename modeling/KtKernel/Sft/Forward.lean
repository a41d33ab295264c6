import Mathlib.Algebra.GroupWithZero.Nat
import KtKernel.Amx.Forward
import KtKernel.Sft.Routing

namespace KtKernel.Sft.Forward

open KtKernel.Data KtKernel.Amx

/-! `forward_sft` of a BF16 kernel without LoRA weights.

A pointer into an array is the array and the row it starts at.  With the direct
cache the outputs of the experts are bound to the cache entry before the
products; without it they go to the local arrays and are copied.  Packing, the
products and the activation are functions of single rows, over any numbers. -/

/-- The tensors of a cache entry. -/
inductive Tensor where
  | input
  | gate
  | up
  | intermediate
  | down
deriving DecidableEq, Repr

/-- The local arrays and the tensors of the entries of the cache stack. -/
inductive Region where
  | localInput
  | localGateUp (doUp : Bool)
  | localDown
  | cache (slot : Nat) (tensor : Tensor)
deriving DecidableEq, Repr

structure Pointer where
  region : Region
  row : Nat
deriving DecidableEq

structure Cell where
  region : Region
  row : Nat
  column : Nat

def Pointer.cell (pointer : Pointer) (row column : Nat) : Cell :=
  ⟨pointer.region, pointer.row + row, column⟩

/-- What the kernel type computes: `V` are the numbers of the arrays, `Q` the
packed rows and `O` the numbers of the output. -/
structure Kernels (V Q O : Type) where
  fromInput : (Nat → V) → Q
  gateUpGemm : Bool → Nat → Q → Nat → V
  actFn : V → V → V
  fromGate : (Nat → V) → Q
  downGemm : Nat → Q → Nat → V
  setzero : O
  fmadd : V → O → O → O

/-- The routing that a cache entry keeps for the backward. -/
structure Metadata (O : Type) where
  qlenCache : Nat
  kCache : Nat
  activatedExpertCache : Nat
  loraDropoutSeed : Nat
  expertIdsCache : List Int
  weightsCache : List O
  localNumCache : Nat → Nat
  localPosCache : Nat × Nat → Nat
  expertIdMapCache : Nat → Nat

/-- What an instance keeps from call to call. -/
structure State (V Q O : Type) where
  tables : Tables
  cells : Cell → V
  gateUpPtr : Bool → Nat → Pointer
  downPtr : Nat → Pointer
  directCacheIntermediatePtrs : Nat → Pointer
  gateUpBa : Nat → Nat → Q
  downBa : Nat → Nat → Q
  cacheStackTop : Nat
  metadata : Nat → Metadata O
  valid : Nat → Bool

/-- A job whose tasks each write some columns of the rows at a pointer. -/
structure RowJob (κ V : Type) where
  count : Nat
  key : Nat → κ
  destination : κ → Pointer
  rows : κ → Nat
  takes : Nat → Nat → Bool
  value : κ → Nat → Nat → V → V

def Pointer.Holds (pointer : Pointer) (rows : Nat) (cell : Cell) : Prop :=
  cell.region = pointer.region ∧ pointer.row ≤ cell.row ∧ cell.row < pointer.row + rows

instance : Decidable (Pointer.Holds pointer rows cell) :=
  inferInstanceAs (Decidable (_ ∧ _ ∧ _))

def RowJob.store (job : RowJob κ V) (task : Nat) : Store Cell V := fun cell old =>
  if (job.destination (job.key task)).Holds (job.rows (job.key task)) cell ∧ job.takes task cell.column then
    some (job.value (job.key task) (cell.row - (job.destination (job.key task)).row) cell.column old)
  else none

def RowJob.run (job : RowJob κ V) (schedule : Schedule) (number : Nat) (cells : Cell → V) : Cell → V :=
  Store.runAll ((schedule.order number job.count).map job.store) cells

structure Config extends Instance where
  numGpuExperts : Nat
  maxCacheDepth : Nat
  fullWeightGrad : Bool
  loraRank : Nat

section

variable (config : Config) {V Q O : Type} [Zero V] (kernels : Kernels V Q O) (schedule : Schedule)

def countSlot (k : Nat) (expertIds : Nat → Int) (tables : Tables) (slot : Nat × Nat) : Tables :=
  let expertId := expertIds (slot.1 * k + slot.2)
  if trainingSkips config.expertNum config.numGpuExperts expertId then tables
  else
    let expert := expertId.toNat
    { tables with
      localPos := Function.update tables.localPos slot (tables.localNum expert)
      localNum := Function.update tables.localNum expert (tables.localNum expert + 1) }

/-- Counting the rows and carving the pools and the local arrays. -/
def forwardTables (qlen k : Nat) (expertIds : Nat → Int) (before : Tables) : Tables :=
  let counted := (slots qlen k).foldl (countSlot config k expertIds) before.cleared
  (List.range config.expertNum).foldl (carveExpert config.toInstance) (mapExperts config.toInstance counted)

/-! ## The steps -/

/-- A row of an array at a pointer, as far as it goes. -/
def rowAt (width : Nat) (cells : Cell → V) (pointer : Pointer) (row : Nat) : Nat → V :=
  fun column => if column < width then cells (pointer.cell row column) else 0

/-- The local arrays are carved and every pointer set into them. -/
def carve (qlen k : Nat) (expertIds : Nat → Int) (state : State V Q O) : State V Q O :=
  let tables := forwardTables config qlen k expertIds state.tables
  { state with
    tables
    gateUpPtr := fun doUp expert => ⟨.localGateUp doUp, tables.outputRow expert⟩
    downPtr := fun expert => ⟨.localDown, tables.outputRow expert⟩ }

def scatterStore (k : Nat) (expertIds : Nat → Int) (input : Nat × Nat → V) (tables : Tables)
    (slot : Nat × Nat) : Store Cell V := fun cell _ =>
  let expertId := expertIds (slot.1 * k + slot.2)
  if trainingSkips config.expertNum config.numGpuExperts expertId then none
  else if cell.region = .localInput ∧
      cell.row = tables.inputRow expertId.toNat + tables.localPos slot ∧ cell.column < config.hiddenSize then
    some (input (slot.1, cell.column))
  else none

def scatterInput (qlen k : Nat) (expertIds : Nat → Int) (input : Nat × Nat → V) (state : State V Q O) :
    State V Q O :=
  { state with
    cells := Store.runAll (((schedule.order 0 qlen).product (List.range k)).map
      (scatterStore config k expertIds input state.tables)) state.cells }

def packInput (state : State V Q O) : State V Q O :=
  { state with
    gateUpBa := fun expert row =>
      if expert ∈ state.tables.expertIdMap ∧ row < state.tables.localNum expert then
        kernels.fromInput
          (rowAt config.hiddenSize state.cells ⟨.localInput, state.tables.inputRow expert⟩ row)
      else state.gateUpBa expert row }

def gateUpJob (state : State V Q O) : RowJob (Bool × Nat) V :=
  let nth := recommendedNth config.toInstance config.intermediateSize
  { count := nth * state.tables.expertIdMap.length * 2
    key := fun task => (decide (task % 2 = 1), taskExpert state.tables nth (task / 2))
    destination := fun key => state.gateUpPtr key.1 key.2
    rows := fun key => state.tables.localNum key.2
    takes := fun task column => inSplitRange config.toInstance config.intermediateSize (task / 2 % nth) column
    value := fun key row column _ => kernels.gateUpGemm key.1 key.2 (state.gateUpBa key.2 row) column }

def gateUp (state : State V Q O) : State V Q O :=
  { state with cells := (gateUpJob config kernels state).run schedule 1 state.cells }

/-- `apply_activation_to`.  A task reads the gate output where it is now, which
may be the cell that it writes. -/
def activationJob (destination : Nat → Pointer) (state : State V Q O) : RowJob Nat V :=
  let nth := recommendedNth config.toInstance config.intermediateSize
  { count := nth * state.tables.expertIdMap.length
    key := taskExpert state.tables nth
    destination
    rows := state.tables.localNum
    takes := fun task column => inSplitRange config.toInstance config.intermediateSize (task % nth) column
    value := fun expert row column old =>
      kernels.actFn
        (if destination expert = state.gateUpPtr false expert then old
        else state.cells ((state.gateUpPtr false expert).cell row column))
        (state.cells ((state.gateUpPtr true expert).cell row column)) }

def activate (destination : Nat → Pointer) (state : State V Q O) : State V Q O :=
  { state with cells := (activationJob config kernels destination state).run schedule 2 state.cells }

def packIntermediate (state : State V Q O) : State V Q O :=
  { state with
    downBa := fun expert row =>
      if expert ∈ state.tables.expertIdMap ∧ row < state.tables.localNum expert then
        kernels.fromGate (rowAt config.intermediateSize state.cells (state.gateUpPtr false expert) row)
      else state.downBa expert row }

def downJob (state : State V Q O) : RowJob Nat V :=
  let nth := recommendedNth config.toInstance config.hiddenSize
  { count := nth * state.tables.expertIdMap.length
    key := taskExpert state.tables nth
    destination := state.downPtr
    rows := state.tables.localNum
    takes := fun task column => inSplitRange config.toInstance config.hiddenSize (task % nth) column
    value := fun expert row column _ => kernels.downGemm expert (state.downBa expert row) column }

def down (state : State V Q O) : State V Q O :=
  { state with cells := (downJob config kernels state).run schedule 3 state.cells }

def merge (k : Nat) (expertIds : Nat → Int) (weights : Nat → O) (state : State V Q O) (token column : Nat) : O :=
  (List.range k).foldl (fun sum slot =>
    let expertId := expertIds (token * k + slot)
    if trainingSkips config.expertNum config.numGpuExperts expertId then sum
    else
      kernels.fmadd
        (state.cells ((state.downPtr expertId.toNat).cell (state.tables.localPos (token, slot)) column))
        (weights (token * k + slot)) sum) kernels.setzero

/-! ## The cache -/

/-- The top entry is overwritten; an empty or full stack starts from the first
entry. -/
def openEntry (state : State V Q O) : State V Q O × Nat :=
  if 0 < state.cacheStackTop then (state, state.cacheStackTop - 1)
  else
    let top := if config.maxCacheDepth ≤ state.cacheStackTop then 0 else state.cacheStackTop
    ({ state with cacheStackTop := top + 1 }, top)

def cacheOffset (tables : Tables) (index : Nat) : Nat :=
  ((tables.expertIdMap.take index).map tables.localNum).sum

def prepareCacheMetadata (seed qlen k : Nat) (expertIds : Nat → Int) (weights : Nat → O) (slot : Nat)
    (state : State V Q O) : State V Q O :=
  let tables := state.tables
  { state with
    metadata := Function.update state.metadata slot
      { qlenCache := qlen
        kCache := k
        activatedExpertCache := tables.expertIdMap.length
        loraDropoutSeed := seed
        expertIdsCache := (List.range (qlen * k)).map expertIds
        weightsCache := (List.range (qlen * k)).map weights
        localNumCache := tables.localNum
        localPosCache := fun position =>
          if position.1 < qlen ∧ position.2 < k then tables.localPos position
          else (state.metadata slot).localPosCache position
        expertIdMapCache := fun index =>
          tables.expertIdMap.getD index ((state.metadata slot).expertIdMapCache index) } }

def markValid (slot : Nat) (state : State V Q O) : State V Q O :=
  { state with valid := Function.update state.valid slot true }

def bindOne (slot : Nat) (state : State V Q O) (index : Nat) : State V Q O :=
  let expert := state.tables.expertIdMap.getD index 0
  let row := cacheOffset state.tables index
  { state with
    gateUpPtr := fun doUp =>
      Function.update (state.gateUpPtr doUp) expert ⟨.cache slot (if doUp then .up else .gate), row⟩
    downPtr := Function.update state.downPtr expert ⟨.cache slot .down, row⟩
    directCacheIntermediatePtrs :=
      Function.update state.directCacheIntermediatePtrs expert ⟨.cache slot .intermediate, row⟩ }

def bindDirectCacheOutputs (slot : Nat) (state : State V Q O) : State V Q O :=
  (List.range state.tables.expertIdMap.length).foldl (bindOne slot) state

def chunkBytes : Nat := 2 * 1024 * 1024

/-- Two bytes an element, in chunks of two MiB. -/
def chunkStore (slot qlen : Nat) (input : Nat × Nat → V) (chunk : Nat) : Store Cell V := fun cell _ =>
  let byte := (cell.row * config.hiddenSize + cell.column) * 2
  if cell.region = .cache slot .input ∧ cell.column < config.hiddenSize ∧ chunk * chunkBytes ≤ byte ∧
      byte < chunk * chunkBytes + min chunkBytes (qlen * config.hiddenSize * 2 - chunk * chunkBytes) then
    some (input (cell.row, cell.column))
  else none

def copyInputToCache (slot qlen : Nat) (input : Nat × Nat → V) (state : State V Q O) : State V Q O :=
  { state with
    cells := Store.runAll ((schedule.order 4 ((qlen * config.hiddenSize * 2 + chunkBytes - 1) / chunkBytes)).map
      (chunkStore config slot qlen input)) state.cells }

/-- The copies of `save_to_cache`: the input, then the gate and up outputs. -/
def saveJob (slot qlen : Nat) (input : Nat × Nat → V) (state : State V Q O) : RowJob (Option (Bool × Nat)) V where
  count := 1 + state.tables.expertIdMap.length * 2
  key := fun task =>
    if task = 0 then none else some (decide ((task - 1) % 2 = 1), (task - 1) / 2)
  destination := fun key => match key with
    | none => ⟨.cache slot .input, 0⟩
    | some (doUp, index) => ⟨.cache slot (if doUp then .up else .gate), cacheOffset state.tables index⟩
  rows := fun key => match key with
    | none => qlen
    | some (_, index) => state.tables.localNum (state.tables.expertIdMap.getD index 0)
  takes := fun task column =>
    decide (column < if task = 0 then config.hiddenSize else config.intermediateSize)
  value := fun key row column _ => match key with
    | none => input (row, column)
    | some (doUp, index) =>
      state.cells ((state.gateUpPtr doUp (state.tables.expertIdMap.getD index 0)).cell row column)

def copyJob (slot width : Nat) (tensor : Tensor) (source : Nat → Pointer) (state : State V Q O) : RowJob Nat V where
  count := state.tables.expertIdMap.length
  key := fun task => task
  destination := fun index => ⟨.cache slot tensor, cacheOffset state.tables index⟩
  rows := fun index => state.tables.localNum (state.tables.expertIdMap.getD index 0)
  takes := fun _ column => decide (column < width)
  value := fun index row column _ =>
    state.cells ((source (state.tables.expertIdMap.getD index 0)).cell row column)

def saveToCache (seed qlen k : Nat) (expertIds : Nat → Int) (weights : Nat → O) (input : Nat × Nat → V)
    (slot : Nat) (state : State V Q O) : State V Q O :=
  let prepared := prepareCacheMetadata seed qlen k expertIds weights slot state
  markValid slot { prepared with cells := (saveJob config slot qlen input prepared).run schedule 5 prepared.cells }

def saveIntermediateToCache (slot : Nat) (state : State V Q O) : State V Q O :=
  { state with
    cells := (copyJob slot config.intermediateSize .intermediate (state.gateUpPtr false) state).run schedule 6
      state.cells }

def saveDownOutputToCache (slot : Nat) (state : State V Q O) : State V Q O :=
  { state with
    cells := (copyJob slot config.hiddenSize .down state.downPtr state).run schedule 7 state.cells }

/-- The gate pointers follow the activation. -/
def adoptIntermediate (state : State V Q O) : State V Q O :=
  { state with
    gateUpPtr := fun doUp expert =>
      if doUp = false ∧ expert ∈ state.tables.expertIdMap then state.directCacheIntermediatePtrs expert
      else state.gateUpPtr doUp expert }

/-! ## The pass -/

/-- One call: the arguments of `forward_sft` and the seed it drew. -/
structure Call (V O : Type) where
  qlen : Nat
  k : Nat
  expertIds : Nat → Int
  weights : Nat → O
  input : Nat × Nat → V
  seed : Nat

variable (call : Call V O)

def prepare (state : State V Q O) : State V Q O :=
  packInput config kernels (scatterInput config schedule call.qlen call.k call.expertIds call.input
    (carve config call.qlen call.k call.expertIds state))

def directPass (prepared : State V Q O) : State V Q O :=
  let slot := (openEntry config prepared).2
  let bound := bindDirectCacheOutputs slot
    (prepareCacheMetadata call.seed call.qlen call.k call.expertIds call.weights slot (openEntry config prepared).1)
  let copied := copyInputToCache config schedule slot call.qlen call.input (markValid slot bound)
  let products := gateUp config kernels schedule copied
  let activated := adoptIntermediate (activate config kernels schedule products.directCacheIntermediatePtrs products)
  down config kernels schedule (packIntermediate config kernels activated)

/-- The state after the down products, with the outputs in the local arrays and
copied to the cache. -/
def savingPass (prepared : State V Q O) : State V Q O :=
  let opened := openEntry config (gateUp config kernels schedule prepared)
  let saved := saveToCache config schedule call.seed call.qlen call.k call.expertIds call.weights call.input opened.2
    opened.1
  let activated := activate config kernels schedule (saved.gateUpPtr false) saved
  let kept := saveIntermediateToCache config schedule (activated.cacheStackTop - 1) activated
  let finished := down config kernels schedule (packIntermediate config kernels kept)
  saveDownOutputToCache config schedule (finished.cacheStackTop - 1) finished

def plainPass (prepared : State V Q O) : State V Q O :=
  let products := gateUp config kernels schedule prepared
  down config kernels schedule (packIntermediate config kernels
    (activate config kernels schedule (products.gateUpPtr false) products))

def useDirectFullftCache (saveForBackward : Bool) : Bool :=
  saveForBackward && config.fullWeightGrad && config.loraRank == 0

/-- The state after a call, and the output by token and column. -/
def forwardSft (saveForBackward : Bool) (state : State V Q O) : State V Q O × (Nat → Nat → O) :=
  let prepared := prepare config kernels schedule call state
  let final :=
    if useDirectFullftCache config saveForBackward then directPass config kernels schedule call prepared
    else if saveForBackward then savingPass config kernels schedule call prepared
    else plainPass config kernels schedule prepared
  (final, merge config kernels call.k call.expertIds call.weights final)

end

end KtKernel.Sft.Forward
