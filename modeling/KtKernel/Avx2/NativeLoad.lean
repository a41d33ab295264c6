import Mathlib.Order.Interval.Set.Defs
import Mathlib.Data.Set.Function
import KtKernel.Amx.ExpertFiles
import KtKernel.Avx2.PackedGemm
import KtKernel.Data.Moves

namespace KtKernel.Avx2

open KtKernel.Data
open KtKernel.Amx.ExpertFiles (Mat)

/-! The load of native weights: the tensor-parallel staging of `TP_MOE::load_weights`,
the load of a part into its slots, and the modes that skip the staging.

A weight or scale array of an expert is a matrix of cells (bytes, halves or words, by
the backend) with one axis along the intermediate size, which the parts divide. -/

inductive Backend where
  | bf16
  | fp8
  | mxfp8
  | gptqInt4
  | rawInt4
  | mxfp4
deriving DecidableEq, Repr

/-- The form of the source: `gate_projs` and its kin, or one array for all experts. -/
inductive Form where
  | perExpert
  | flat
deriving DecidableEq, Repr

inductive Kind where
  | weight
  | scale
deriving DecidableEq, Repr

structure Table where
  mat : Mat
  kind : Kind
deriving DecidableEq, Repr

/-- An array of the source.  `none` stands for the one of all experts. -/
structure Origin where
  table : Table
  expert : Option Nat
deriving DecidableEq, Repr

/-- A buffer of a slot. -/
structure Slot where
  table : Table
  index : Nat
deriving DecidableEq, Repr

/-- The bits of a cell, zero-extended. -/
abbrev Cell := UInt32

/-- The fields of the configuration that the load reads.  The last two are the
arguments of the load in the TP object: its parts were built without a map. -/
structure Config where
  expertNum : Nat
  hiddenSize : Nat
  intermediateSize : Nat
  groupSize : Nat
  zeroPoint : Bool
  tpCount : Nat
  gpuExpertsMask : Option (Nat → Bool)
  form : Form
  physicalToLogicalMap : Option (Nat → Nat)

def expertMap (map : Option (Nat → Nat)) (expert : Nat) : Nat :=
  match map with
  | none => expert
  | some logical => logical expert

namespace Config

/-- `should_skip_expert` of an id that is not negative. -/
def shouldSkipExpert (config : Config) (expert : Nat) : Bool :=
  decide (expert ≥ config.expertNum) ||
    match config.gpuExpertsMask with
    | none => false
    | some mask => mask expert

/-- `intermediate_size` in the configuration of a part. -/
def partSize (config : Config) : Nat :=
  config.intermediateSize / config.tpCount

end Config

def divUp (count size : Nat) : Nat :=
  (count + size - 1) / size

/-! ## The layout of an array -/

/-- The cells of an array of an expert.  `inner` tells whether the intermediate axis is
the one within the rows. -/
structure Grid where
  /-- Intermediate channels in a cell. -/
  channels : Nat
  /-- Every channel has bits of its own in the cell. -/
  packed : Bool
  inner : Bool
  count : Nat → Nat
  /-- Cells along the hidden axis. -/
  across : Nat
  /-- The first cell of a part, from the size of a part and its number. -/
  start : Nat → Nat → Nat

namespace Grid

def elems (grid : Grid) (size : Nat) : Nat :=
  grid.count size * grid.across

def rows (grid : Grid) (size : Nat) : Nat :=
  if grid.inner then grid.across else grid.count size

def width (grid : Grid) (size : Nat) : Nat :=
  if grid.inner then grid.count size else grid.across

/-- The copies of a part's slice of an array: rows of the source, or a piece of every
row.  GPTQ copies the rows of down one by one. -/
def slice {ρ σ : Type} (grid : Grid) (full size part : Nat) (region : ρ) (base : Nat) (source : σ × Nat) :
    List (Move ρ σ) :=
  let start := grid.start size part
  if grid.inner then
    Move.rows region base (grid.count size) source.1 (source.2 + start) (grid.count full) (grid.count size) grid.across
  else
    [⟨region, base, source.1, source.2 + start * grid.across, grid.elems size⟩]

end Grid

/-- The matrices whose rows are the intermediate channels, and down with the
intermediate channels in the rows. -/
def bf16Grid (config : Config) (table : Table) : Grid :=
  ⟨1, true, table.mat = .down, id, config.hiddenSize, fun size part => part * size⟩

def fp8Grid (config : Config) (table : Table) : Grid :=
  let group := config.groupSize
  match table.kind, table.mat with
  | .weight, _ => bf16Grid config table
  | .scale, .down =>
      ⟨group, false, true, fun size => divUp size group, divUp config.hiddenSize group,
        fun size part => part * size / group⟩
  | .scale, _ =>
      ⟨group, false, false, fun size => divUp size group, divUp config.hiddenSize group,
        fun size part => part * divUp size group⟩

def mxfp8Grid (config : Config) (table : Table) : Grid :=
  let group := config.groupSize
  match table.kind, table.mat with
  | .weight, _ => bf16Grid config table
  | .scale, .down =>
      ⟨group, false, true, fun size => size / group, config.hiddenSize, fun size part => part * size / group⟩
  | .scale, _ => ⟨1, false, false, id, config.hiddenSize / group, fun size part => part * size⟩

/-- The arrays are transposed: `[K/8, N]` words and `[K/group_size, N]` scales. -/
def gptqInt4Grid (config : Config) (table : Table) : Grid :=
  let unit := match table.kind with
    | .weight => 8
    | .scale => config.groupSize
  match table.mat with
  | .down => ⟨unit, table.kind = .weight, false, fun size => size / unit, config.hiddenSize,
      fun size part => part * (size / unit)⟩
  | _ => ⟨1, table.kind = .weight, true, id, config.hiddenSize / unit, fun size part => part * size⟩

/-- Two weights to the byte. -/
def rawInt4Grid (config : Config) (table : Table) : Grid :=
  let unit := match table.kind with
    | .weight => 2
    | .scale => config.groupSize
  match table.mat with
  | .down => ⟨unit, table.kind = .weight, true, fun size => size / unit, config.hiddenSize,
      fun size part => part * (size / unit)⟩
  | _ => ⟨1, table.kind = .weight, false, id, config.hiddenSize / unit, fun size part => part * size⟩

namespace Backend

def grid (config : Config) (table : Table) : Backend → Grid
  | .bf16 => bf16Grid config table
  | .fp8 => fp8Grid config table
  | .mxfp8 => mxfp8Grid config table
  | .gptqInt4 => gptqInt4Grid config table
  | .rawInt4 | .mxfp4 => rawInt4Grid config table

def tables : Backend → List Table
  | .bf16 => [⟨.gate, .weight⟩, ⟨.up, .weight⟩, ⟨.down, .weight⟩]
  | _ => [⟨.gate, .weight⟩, ⟨.up, .weight⟩, ⟨.down, .weight⟩, ⟨.gate, .scale⟩, ⟨.up, .scale⟩, ⟨.down, .scale⟩]

/-- The scales in the source are floats, exponent bytes or halves. -/
def convert (kind : Kind) (cell : Cell) : Backend → Cell
  | .mxfp8 => match kind with
    | .weight => cell
    | .scale => cell <<< 23
  | .rawInt4 | .mxfp4 => match kind with
    | .weight => cell
    | .scale => cell <<< 16
  | _ => cell

/-! ## What the constructors and the load refuse -/

/-- `make_buffer_b` of a matrix whose rows have `k` weights. -/
def makeBufferB (config : Config) (k : Nat) : Backend → Except String Unit
  | .mxfp8 =>
      if k % config.groupSize ≠ 0 then .error "MXFP8 AVX2: k must be divisible by group_size" else .ok ()
  | .rawInt4 =>
      if config.groupSize = 0 ∨ k % config.groupSize ≠ 0 ∨ k % 8 ≠ 0 then
        .error "RAWINT4 requires k aligned to group_size and 8"
      else .ok ()
  | .mxfp4 =>
      if config.groupSize = 0 ∨ k % config.groupSize ≠ 0 ∨ k % 8 ≠ 0 then
        .error "MXFP4 AVX2 requires k % group_size == 0 and k % 8 == 0"
      else .ok ()
  | _ => .ok ()

def derivedInit (config : Config) : Backend → Except String Unit
  | .bf16 => .ok ()
  | .fp8 =>
      if config.groupSize = 0 ∨ config.zeroPoint = true then
        .error "AVX2 FP8 MoE only supports block-wise FP8 (group_size > 0, no zero_point)"
      else .ok ()
  | .mxfp8 =>
      if config.groupSize ≠ 32 ∨ config.zeroPoint = true then
        .error "AVX2 MXFP8 MoE requires group_size == 32 and no zero_point"
      else if config.hiddenSize % config.groupSize ≠ 0 ∨ config.partSize % config.groupSize ≠ 0 then
        .error "AVX2 MXFP8 MoE: hidden_size and intermediate_size must be divisible by group_size"
      else .ok ()
  | .gptqInt4 => if config.groupSize = 0 then .error "GPTQ INT4 requires group_size > 0" else .ok ()
  | .rawInt4 =>
      if config.groupSize = 0 ∨ config.zeroPoint = true then
        .error "RAWINT4 AVX2 MoE only supports KGroup signed INT4 without zero point"
      else .ok ()
  | .mxfp4 =>
      if config.groupSize = 0 ∨ config.zeroPoint = true then
        .error "MXFP4 AVX2 MoE requires KGroup FP4 without zero point"
      else .ok ()

def constructPart (backend : Backend) (config : Config) : Except String Unit := do
  if config.expertNum ≠ 0 then
    backend.makeBufferB config config.hiddenSize
    backend.makeBufferB config config.partSize
  backend.derivedInit config

/-- The constructor of the TP object.  The parts have the same configuration, so the
first one reports the error. -/
def construct (backend : Backend) (config : Config) : Except String Unit :=
  if config.intermediateSize % config.tpCount ≠ 0 then
    .error "For TP, intermediate_size must be a multiple of NUMA node count"
  else
    match backend.constructPart config with
    | .error reason => .error ("TP/NUMA 0 construction failed: " ++ reason)
    | .ok () => .ok ()

/-- The checks of `TP_MOE::load_weights` on a source whose pointers are there. -/
def loadChecks (backend : Backend) (config : Config) : Except String Unit :=
  match backend, config.form with
  | .fp8, _ =>
      if config.groupSize = 0 ∨ config.zeroPoint = true then
        .error "FP8 MoE only supports block-wise (group_size > 0, zero_point=false)"
      else .ok ()
  | .mxfp8, _ =>
      if config.groupSize = 0 ∨ config.zeroPoint = true then
        .error "MXFP8 MoE only supports group-wise (group_size > 0, zero_point=false)"
      else .ok ()
  | .gptqInt4, _ => if config.groupSize = 0 then .error "GPTQ INT4 requires group_size > 0" else .ok ()
  | .rawInt4, .perExpert =>
      if config.tpCount > 1 then
        .error ("RAWINT4 per-expert pointer mode requires kt_threadpool_count=1 " ++
          "(down projection TP column-gather is unsupported with direct pointers)")
      else .ok ()
  | .mxfp4, .perExpert =>
      if config.partSize % 2 ≠ 0 then
        .error ("MXFP4 TP: per_tp_interm must be even for nibble-aligned addressing, got " ++ toString config.partSize)
      else .ok ()
  | .mxfp4, .flat =>
      if config.partSize % 2 ≠ 0 then
        .error ("MXFP4 TP flat-buffer: intermediate_size must be even for nibble-aligned addressing, got " ++
          toString config.partSize)
      else .ok ()
  | _, _ => .ok ()

def accepts (backend : Backend) (config : Config) : Except String Unit := do
  backend.construct config
  backend.loadChecks config

/-- The place of a cell of an expert in the source. -/
def address (backend : Backend) (config : Config) (table : Table) (expert offset : Nat) : Origin × Nat :=
  match config.form with
  | .perExpert => (⟨table, some expert⟩, offset)
  | .flat => (⟨table, none⟩, expert * (backend.grid config table).elems config.intermediateSize + offset)

/-- The copies of one array of an expert.  All sizes are multiples of the cells, so the
halved sums of the source are sums of halves. -/
def sliceMoves {ρ : Type} (backend : Backend) (config : Config) (region : ρ) (base part expert : Nat) (table : Table) :
    List (Move ρ Origin) :=
  (backend.grid config table).slice config.intermediateSize config.partSize part region base
    (backend.address config table expert 0)

/-- The place of a task's expert in the staging arrays.  MXFP4 stages by task, the
others by logical expert. -/
def stagePlace (config : Config) (task : Nat) : Backend → Nat
  | .mxfp4 => task
  | _ => expertMap config.physicalToLogicalMap task

def stageMoves (backend : Backend) (config : Config) (part : Nat) : List (Move Table Origin) :=
  (List.range config.expertNum).flatMap fun task =>
    backend.tables.flatMap fun table =>
      backend.sliceMoves config table
        (backend.stagePlace config task * (backend.grid config table).elems config.partSize) part
        (expertMap config.physicalToLogicalMap task) table

/-! ## The load of a part -/

/-- The map of a part: `DO_TPS_LOAD_WEIGHTS` hands the TP object's map on, a direct
call of `load_weights` does not. -/
def partMap (config : Config) : Backend → Option (Nat → Nat)
  | .rawInt4 | .mxfp4 => config.physicalToLogicalMap
  | _ => none

def recommendedNth (n : Nat) : Backend → Nat
  | .bf16 => max 1 (n / 8)
  | .fp8 => max 1 (divUp n 128)
  | .mxfp8 => max 1 ((n + 64 - 1) / 64)
  | .gptqInt4 => max 1 (n / 64)
  | .rawInt4 | .mxfp4 => max 1 (divUp n 64)

/-- The rows of a weight matrix of a part. -/
def outputs (config : Config) : Mat → Nat
  | .down => config.hiddenSize
  | _ => config.partSize

/-- A share of `from_mat` or `from_raw_mat`.  The scales that are converted have a job
of their own, with one task an expert. -/
def fromMat (backend : Backend) (config : Config) (slot : Slot) (base ith nth : Nat) : List (Move Slot Table) :=
  let table := slot.table
  let grid := backend.grid config table
  let rows := grid.rows config.partSize
  let width := grid.width config.partSize
  let share := splitRange (outputs config table.mat) ith nth
  match backend, table.kind with
  | .gptqInt4, _ => Move.rows slot share.1 width table (base + share.1) width (share.2 - share.1) rows
  | .fp8, .scale =>
      let blockStart := share.1 / config.groupSize
      let blockEnd := divUp share.2 config.groupSize
      [⟨slot, blockStart * width, table, base + blockStart * width, (blockEnd - blockStart) * width⟩]
  | _, .scale => if ith = 0 then [⟨slot, 0, table, base, grid.elems config.partSize⟩] else []
  | _, .weight => [⟨slot, share.1 * width, table, base + share.1 * width, (share.2 - share.1) * width⟩]

/-- Whether the load of a part passes over a slot. -/
def skips (config : Config) (slot : Nat) : Backend → Bool
  | .rawInt4 | .mxfp4 => config.shouldSkipExpert slot
  | _ => false

def loadMoves (backend : Backend) (config : Config) : List (Move Slot Table) :=
  backend.tables.flatMap fun table =>
    let nth := backend.recommendedNth (outputs config table.mat)
    (List.range (nth * config.expertNum)).flatMap fun task =>
      let index := task / nth
      if backend.skips config index then [] else
        backend.fromMat config ⟨table, index⟩
          (expertMap (backend.partMap config) index * (backend.grid config table).elems config.partSize) (task % nth) nth

/-- The copies of the per-expert mode of MXFP4 into buffers of the TP object, which
become the buffers of the slots, and its scales. -/
def directMoves (backend : Backend) (config : Config) (part : Nat) : List (Move Slot Origin) :=
  (List.range config.expertNum).flatMap fun slot =>
    if config.shouldSkipExpert slot then [] else
      backend.tables.flatMap fun table =>
        backend.sliceMoves config (⟨table, slot⟩ : Slot) 0 part (expertMap config.physicalToLogicalMap slot) table

/-- The scales of the per-expert mode of RAWINT4.  No slot is passed over. -/
def scaleMoves (backend : Backend) (config : Config) (part : Nat) : List (Move Slot Origin) :=
  (List.range config.expertNum).flatMap fun slot =>
    [Mat.gate, .up, .down].flatMap fun mat =>
      let grid := backend.grid config ⟨mat, .scale⟩
      let source := backend.address config ⟨mat, .scale⟩ (expertMap config.physicalToLogicalMap slot) 0
      let start := match mat with
        | .down => part * (config.partSize / config.groupSize)
        | _ => part * config.partSize * (config.hiddenSize / config.groupSize)
      [⟨⟨⟨mat, .scale⟩, slot⟩, 0, source.1, source.2 + start, grid.elems config.partSize⟩]

/-- `BufferB.b` of the per-expert mode of RAWINT4 points into the source. -/
def weightPointer (backend : Backend) (config : Config) (part : Nat) (slot : Slot) : Origin × Nat :=
  let source := backend.address config slot.table (expertMap config.physicalToLogicalMap slot.index) 0
  match slot.table.mat with
  | .down => (source.1, source.2 + part * config.partSize / 2)
  | _ => (source.1, source.2 + part * config.partSize * config.hiddenSize / 2)

end Backend

/-- The buffers of a part: cells of its own, and slots that point into the source. -/
structure Buffers where
  owned : Slot × Nat → Cell
  pointer : Slot → Option (Origin × Nat)

def Buffers.read (buffers : Buffers) (source : Origin × Nat → Cell) (slot : Slot) (offset : Nat) : Cell :=
  match buffers.pointer slot with
  | none => buffers.owned (slot, offset)
  | some (origin, start) => source (origin, start + offset)

/-- The buffers of a part after `TP_MOE::load_weights` has returned, for one order of the
copies of each job. -/
inductive Loaded (backend : Backend) (config : Config) (source : Origin × Nat → Cell) (part : Nat) : Buffers → Prop where
  | staged {undefined staged : Table × Nat → Cell} {blank owned : Slot × Nat → Cell}
      (form : config.form = .flat ∨ (backend ≠ .rawInt4 ∧ backend ≠ .mxfp4))
      (stages : Move.Performed (backend.stageMoves config part) source undefined staged)
      (loads : Move.Performed (backend.loadMoves config) (fun cell => backend.convert cell.1.kind (staged cell)) blank owned) :
      Loaded backend config source part ⟨owned, fun _ => none⟩
  | direct {blank owned : Slot × Nat → Cell} (only : backend = .mxfp4) (form : config.form = .perExpert)
      (loads : Move.Performed (backend.directMoves config part)
        (fun cell => backend.convert cell.1.table.kind (source cell)) blank owned) :
      Loaded backend config source part ⟨owned, fun _ => none⟩
  | pointed {blank owned : Slot × Nat → Cell} (only : backend = .rawInt4) (form : config.form = .perExpert)
      (loads : Move.Performed (backend.scaleMoves config part)
        (fun cell => backend.convert cell.1.table.kind (source cell)) blank owned) :
      Loaded backend config source part
        ⟨owned, fun slot => if slot.table.kind = .weight ∧ slot.index < config.expertNum then
          some (backend.weightPointer config part slot) else none⟩

end KtKernel.Avx2
