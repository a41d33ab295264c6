import KtKernel.Data.Stores
import KtKernel.Data.Tiling

namespace KtKernel.Amx.ExpertFiles

open KtKernel.Data

/-! The weights of `AMX_MOE_TP`: quantised online, saved to `.kt` files and loaded.

A packed matrix is a buffer of bytes: the packed rows, block of rows after block
of rows, and then sections of one float for each row. -/

inductive Mat where
  | up
  | gate
  | down
deriving DecidableEq, Repr

/-- A kernel type with a scale section.  `packed` gives the bytes of a block of
rows and `section_` the float of a row.  The floats are the scale and, for the
kernel with a zero point, the smallest weight: they tell the constant rows of two
weights apart. -/
structure Kernel (W : Type) where
  nBlock : Nat
  rowBytes : Nat → Nat
  sections : Nat
  packed : List (List W) → Nat → UInt8
  section_ : Nat → List W → Nat → UInt8
  low : W
  high : W
  nBlockPositive : 0 < nBlock
  sectionsPositive : 0 < sections
  separated : ∀ k, 0 < k → ∃ index byte, index < sections ∧ byte < 4 ∧
    section_ index (List.replicate k low) byte ≠ section_ index (List.replicate k high) byte

/-- `intermediate_size` is the number of parts times the size of a part. -/
structure Config where
  expertNum : Nat
  tpCount : Nat
  hiddenSize : Nat
  partSize : Nat
  tpPositive : 0 < tpCount
  hiddenPositive : 0 < hiddenSize
  partPositive : 0 < partSize

namespace Config

def intermediateSize (config : Config) : Nat :=
  config.tpCount * config.partSize

def rows (config : Config) : Mat → Nat
  | .down => config.hiddenSize
  | _ => config.partSize

def columns (config : Config) : Mat → Nat
  | .down => config.partSize
  | _ => config.hiddenSize

end Config

section

variable {W : Type}

def Kernel.requiredSize (kernel : Kernel W) (n k : Nat) : Nat :=
  n * kernel.rowBytes k + 4 * n * kernel.sections

def Kernel.recommendedNth (kernel : Kernel W) (n : Nat) : Nat :=
  (n + kernel.nBlock - 1) / kernel.nBlock

/-- The row whose packing writes a byte of the buffer. -/
def Kernel.byteRow (kernel : Kernel W) (n k offset : Nat) : Nat :=
  if offset < n * kernel.rowBytes k then offset / kernel.rowBytes k
  else (offset - n * kernel.rowBytes k) % (4 * n) / 4

def Kernel.packedByte (kernel : Kernel W) (n k : Nat) (source : Nat → Nat → W) (offset : Nat) : UInt8 :=
  let row := kernel.byteRow n k offset
  if offset < n * kernel.rowBytes k then
    let begin := kernel.nBlock * (row / kernel.nBlock)
    let size := min n (kernel.nBlock * (row / kernel.nBlock + 1)) - begin
    kernel.packed ((List.range size).map fun inner => (List.range k).map (source (begin + inner)))
      (offset - begin * kernel.rowBytes k)
  else
    let rest := offset - n * kernel.rowBytes k
    kernel.section_ (rest / (4 * n)) ((List.range k).map (source row)) (rest % 4)

/-! ## Loader pointers -/

structure SlotByte where
  slot : Nat
  offset : Nat
deriving DecidableEq, Repr

/-- The offset of the scales `d` in a buffer. -/
def Config.scaleOffset (config : Config) (kernel : Kernel W) (mat : Mat) : Nat :=
  config.rows mat * kernel.rowBytes (config.columns mat)

/-- Whether the copy of the scales, which comes second, writes an offset. -/
def Config.inScales (config : Config) (kernel : Kernel W) (mat : Mat) (offset : Nat) : Bool :=
  config.scaleOffset kernel mat ≤ offset && offset < config.scaleOffset kernel mat + 4 * config.rows mat

/-- The copies of a slot from the pointers of the loader. -/
def loaderStore (config : Config) (kernel : Kernel W) (map : Nat → Nat) (projs scales : Mat → Nat → Nat → UInt8)
    (mat : Mat) (task : Nat) : Store SlotByte UInt8 := fun cell _ =>
  let size := kernel.requiredSize (config.rows mat) (config.columns mat) - 4 * config.rows mat
  if cell.slot ≠ task then none
  else if config.inScales kernel mat cell.offset then
    some (scales mat (map task) (cell.offset - config.scaleOffset kernel mat))
  else if cell.offset < size then some (projs mat (map task) cell.offset)
  else none

/-- The slots of a part after the load from the pointers. -/
def loaderTable (config : Config) (kernel : Kernel W) (map : Nat → Nat) (schedule : Schedule)
    (projs scales : Mat → Nat → Nat → UInt8) (blank : SlotByte → UInt8) (mat : Mat) : SlotByte → UInt8 :=
  Store.runAll ((schedule.order 4 config.expertNum).map (loaderStore config kernel map projs scales mat)) blank

/-! ## Online quantisation -/

/-- The element of the full weights that the TP copy reads for an element of a
part's staging array. -/
def stageSource (config : Config) (part : Nat) (mat : Mat) (element : Nat) : Nat :=
  let count := config.partSize * config.hiddenSize
  let base := element / count * config.intermediateSize * config.hiddenSize
  let inner := element % count
  match mat with
  | .down =>
      base + inner / config.partSize * config.intermediateSize + part * config.partSize +
        inner % config.partSize
  | _ => base + part * count + inner

def stageStore (config : Config) (map : Nat → Nat) (weights : Mat → Nat → W) (part : Nat) (mat : Mat)
    (task : Nat) : Store Nat W := fun element _ =>
  if element / (config.partSize * config.hiddenSize) = map task then
    some (weights mat (stageSource config part mat element))
  else none

/-- The staging array of a part.  Its elements start out undefined. -/
def staged (config : Config) (map : Nat → Nat) (schedule : Schedule) (weights : Mat → Nat → W)
    (undefined : Nat → W) (part : Nat) (mat : Mat) : Nat → W :=
  Store.runAll ((schedule.order 0 config.expertNum).map (stageStore config map weights part mat)) undefined

/-- `from_mat` of a task: the buffer and the source are those of the logical
expert. -/
def fromMatStore (config : Config) (kernel : Kernel W) (map : Nat → Nat) (source : Nat → W) (mat : Mat)
    (task : Nat) : Store SlotByte UInt8 := fun cell _ =>
  let n := config.rows mat
  let k := config.columns mat
  let nth := kernel.recommendedNth n
  let logical := map (task / nth)
  let row := kernel.byteRow n k cell.offset
  let ith := task % nth
  if cell.slot = logical ∧ cell.offset < kernel.requiredSize n k ∧
      kernel.nBlock * ith ≤ row ∧ row < min n (kernel.nBlock * (ith + 1)) then
    some (kernel.packedByte n k (fun row column => source (logical * n * k + row * k + column)) cell.offset)
  else none

def quantised (config : Config) (kernel : Kernel W) (map : Nat → Nat) (schedule : Schedule)
    (weights : Mat → Nat → W) (undefined : Nat → W) (blank : SlotByte → UInt8) (part : Nat) (mat : Mat) :
    SlotByte → UInt8 :=
  let nth := kernel.recommendedNth (config.rows mat)
  Store.runAll ((schedule.order 1 (nth * config.expertNum)).map
    (fromMatStore config kernel map (staged config map schedule weights undefined part mat) mat)) blank

/-! ## Files -/

/-- The parts of a file's name: the `_numa_` directory, the matrix, the expert,
the number of bytes and whether it is the scale file. -/
structure File where
  part : Nat
  mat : Mat
  expert : Nat
  bytes : Nat
  scale : Bool
deriving DecidableEq, Repr

structure Contents where
  size : Nat
  byte : Nat → UInt8

abbrev Files := File → Option Contents

/-- The two files that `write_weights` leaves. -/
def writeWeights (size scaleSize part : Nat) (mat : Mat) (expert : Nat) (buffer : Nat → UInt8) :
    Store File (Option Contents) := fun file _ =>
  if file = ⟨part, mat, expert, size - scaleSize, false⟩ then some (some ⟨size - scaleSize, buffer⟩)
  else if file = ⟨part, mat, expert, scaleSize, true⟩ then
    some (some ⟨scaleSize, fun offset => buffer (size - scaleSize + offset)⟩)
  else none

def matOfClass : Nat → Mat
  | 0 => .up
  | 1 => .gate
  | _ => .down

def saveStore (config : Config) (kernel : Kernel W) (map : Nat → Nat) (slots : Mat → SlotByte → UInt8)
    (part task : Nat) : Store File (Option Contents) :=
  let expert := map (task / 3)
  let mat := matOfClass (task % 3)
  let n := config.rows mat
  writeWeights (kernel.requiredSize n (config.columns mat)) (4 * n) part mat expert
    fun offset => slots mat ⟨expert, offset⟩

/-- The save jobs of the parts, which run at the same time. -/
def saved (config : Config) (kernel : Kernel W) (map : Nat → Nat) (schedule : Schedule)
    (slots : Nat → Mat → SlotByte → UInt8) (files : Files) : Files :=
  let tasks := config.expertNum * 3
  Store.runAll ((schedule.order 2 (tasks * config.tpCount)).map fun task =>
    saveStore config kernel map (slots (task / tasks)) (task / tasks) (task % tasks)) files

/-- Why `read_weights` fails. -/
inductive ReadError where
  | scaleExceeds (expert scaleSize size : Nat)
  | missing (file : File)
  | sizeMismatch (file : File) (expected actual : Nat)
deriving DecidableEq, Repr

def readFile (files : Files) (file : File) (expected : Nat) : Except ReadError (Nat → UInt8) :=
  match files file with
  | none => .error (.missing file)
  | some contents =>
      if contents.size ≠ expected then .error (.sizeMismatch file expected contents.size)
      else .ok contents.byte

def readWeights (files : Files) (part : Nat) (mat : Mat) (expert size scaleSize : Nat) :
    Except ReadError (Nat → UInt8) :=
  if scaleSize > size then .error (.scaleExceeds expert scaleSize size)
  else do
    let quant ← readFile files ⟨part, mat, expert, size - scaleSize, false⟩ (size - scaleSize)
    let scale ← readFile files ⟨part, mat, expert, scaleSize, true⟩ scaleSize
    return fun offset => if offset < size - scaleSize then quant offset else scale (offset - (size - scaleSize))

def readExpert (config : Config) (kernel : Kernel W) (files : Files) (part : Nat) (mat : Mat) (expert : Nat) :
    Except ReadError (Nat → UInt8) :=
  readWeights files part mat expert (kernel.requiredSize (config.rows mat) (config.columns mat))
    (4 * config.rows mat)

def loadErrors (config : Config) (kernel : Kernel W) (map : Nat → Nat) (schedule : Schedule) (files : Files)
    (part : Nat) : List ReadError :=
  (schedule.order 3 (config.expertNum * 3)).filterMap fun task =>
    match readExpert config kernel files part (matOfClass (task % 3)) (map (task / 3)) with
    | .error raised => some raised
    | .ok _ => none

/-- The load job of a part on a fresh instance: every slot reads the files of its
logical expert, and the first error is thrown after the job. -/
def loaded (config : Config) (kernel : Kernel W) (map : Nat → Nat) (schedule : Schedule) (files : Files)
    (blank : Mat → SlotByte → UInt8) (part : Nat) : Except ReadError (Mat → SlotByte → UInt8) :=
  match loadErrors config kernel map schedule files part with
  | raised :: _ => .error raised
  | [] => .ok fun mat cell =>
      match readExpert config kernel files part mat (map cell.slot) with
      | .ok byte =>
          if cell.slot < config.expertNum ∧
              cell.offset < kernel.requiredSize (config.rows mat) (config.columns mat) then byte cell.offset
          else blank mat cell
      | .error _ => blank mat cell

end

end KtKernel.Amx.ExpertFiles
