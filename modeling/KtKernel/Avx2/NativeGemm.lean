import KtKernel.Avx2.NativeLoad
import KtKernel.Data.Binary32
import KtKernel.Data.Lanes
import KtKernel.Data.Loops

namespace KtKernel.Avx2

open KtKernel.Data
open KtKernel.Amx.ExpertFiles (Mat)

/-! The products of the GPTQ-INT4 and FP8 backends, over the buffers that the load has left.

Floats are exact numbers, and a register is a function of the lane.
-/

def scaleValue (cell : Cell) : ℚ :=
  (Binary32.value ⟨cell⟩).getD 0

/-- A lane of the eight weights of a word. -/
def gptqSymDequant8x4bit (packedWeight : Cell) (scale : ℚ) (lane : Nat) : ℚ :=
  ((((packedWeight.toBitVec >>> (4 * lane)) &&& (0xF : BitVec 32)).toNat : ℚ) - 8) * scale

/-- `sum` of a row and a column. -/
def gptqSum (n k groupSize : Nat) (aRow : Nat → ℚ) (qweight : Nat → Cell) (scales : Nat → ℚ) (ni : Nat) : ℚ :=
  (List.range (k / groupSize)).foldl (fun sum g =>
    let scale := scales (g * n + ni)
    let kBase := g * groupSize
    let acc1 := (upTo groupSize 8).foldl (fun acc1 ki lane =>
      acc1 lane + aRow (kBase + ki + lane) * gptqSymDequant8x4bit (qweight ((kBase + ki) / 8 * n + ni)) scale lane) fun _ => 0
    sum + hsumMovehl (· + ·) acc1) 0

/-- The stores of a thread into `BufferC`, by place and value. -/
def gemmGptqSymInt4 (m n k groupSize : Nat) (a : Nat → ℚ) (qweight : Nat → Cell) (scales : Nat → ℚ) (nth ith : Nat) : List (Nat × ℚ) :=
  let (nStart, nEnd) := splitRange n ith nth
  (List.range' nStart (nEnd - nStart)).flatMap fun ni => (List.range m).map fun mi =>
    (mi * n + ni, gptqSum n k groupSize (fun i => a (mi * k + i)) qweight scales ni)

/-- An entry of `FP8LUT::table`. -/
def fp8Lut (i : Nat) : ℚ :=
  let sign := i / 2 ^ 7 % 2
  let exp : Nat := i / 2 ^ 3 % 2 ^ 4
  let man : Nat := i % 2 ^ 3
  let val : ℚ :=
    if exp = 0 ∧ man = 0 then 0
    else if exp = 0 then man / 8 * 2 ^ (-6 : ℤ)
    else if exp = 15 ∧ man = 7 then 0
    else (1 + man / 8) * 2 ^ ((exp : ℤ) - 7)
  if sign = 1 then -val else val

/-- `sum` of a row and a column. -/
def fp8Sum (k blockSize : Nat) (aRow : Nat → ℚ) (bRow : Nat → Cell) (scales : Nat → ℚ) (ni : Nat) : ℚ :=
  (upTo k blockSize).foldl (fun sum kb =>
    let kLen := min blockSize (k - kb)
    let scale := scales (ni / blockSize * divUp k blockSize + kb / blockSize)
    let term := fun ki => aRow (kb + ki) * fp8Lut (bRow (kb + ki)).toNat
    let accs := (List.range (kLen / 32)).foldl (fun accs step register lane =>
      accs register lane + term (step * 32 + 8 * register + lane)) fun (_ _ : Nat) => (0 : ℚ)
    let acc1 := (List.range (kLen % 32 / 8)).foldl (fun acc1 step lane => acc1 lane + term (kLen / 32 * 32 + step * 8 + lane)) (accs 0)
    let blockSum := hsumMovehl (· + ·) fun lane => acc1 lane + accs 2 lane + (accs 1 lane + accs 3 lane)
    let blockSum := (List.range' (kLen / 8 * 8) (kLen - kLen / 8 * 8)).foldl (fun blockSum ki => blockSum + term ki) blockSum
    sum + blockSum * scale) 0

def gemmFp8 (m n k blockSize : Nat) (a : Nat → ℚ) (b : Nat → Cell) (d : Nat → ℚ) (nth ith : Nat) : List (Nat × ℚ) :=
  let (nStart, nEnd) := splitRange n ith nth
  (List.range' nStart (nEnd - nStart)).flatMap fun ni => (List.range m).map fun mi =>
    (mi * n + ni, fp8Sum k blockSize (fun i => a (mi * k + i)) (fun i => b (ni * k + i)) d ni)

/-- The backends whose buffers may begin or end within a group. -/
inductive Grouped where
  | gptqInt4
  | fp8
deriving DecidableEq, Repr

namespace Grouped

def backend : Grouped → Backend
  | .gptqInt4 => .gptqInt4
  | .fp8 => .fp8

/-- The weights of a row in a part. -/
def inputs (config : Config) : Mat → Nat
  | .down => config.partSize
  | _ => config.hiddenSize

/-- `do_gate_up_gemm` and `do_down_gemm` of an expert. -/
def gemm (grouped : Grouped) (config : Config) (read : Slot → Nat → Cell) (expert : Nat) (mat : Mat) (m : Nat) (a : Nat → ℚ)
    (nth ith : Nat) : List (Nat × ℚ) :=
  let n := Backend.outputs config mat
  let k := inputs config mat
  let weights := read ⟨⟨mat, .weight⟩, expert⟩
  let scales := fun place => scaleValue (read ⟨⟨mat, .scale⟩, expert⟩ place)
  match grouped with
  | .gptqInt4 => gemmGptqSymInt4 m n k config.groupSize a weights scales nth ith
  | .fp8 => gemmFp8 m n k config.groupSize a weights scales nth ith

/-! ## The products of the full tensors -/

def columns (config : Config) : Mat → Nat
  | .down => config.hiddenSize
  | _ => config.intermediateSize

def depth (config : Config) : Mat → Nat
  | .down => config.intermediateSize
  | _ => config.hiddenSize

def weight (grouped : Grouped) (config : Config) (source : Origin × Nat → Cell) (expert : Nat) (mat : Mat) (place n : Nat) : ℚ :=
  let cell := fun offset => source (grouped.backend.address config ⟨mat, .weight⟩ expert offset)
  match grouped with
  | .gptqInt4 => (((cell (place / 8 * columns config mat + n)).toNat / 16 ^ (place % 8) % 16 : Nat) : ℚ) - 8
  | .fp8 => fp8Lut (cell (n * depth config mat + place)).toNat

def scale (grouped : Grouped) (config : Config) (source : Origin × Nat → Cell) (expert : Nat) (mat : Mat) (place n : Nat) : ℚ :=
  let cell := fun offset => source (grouped.backend.address config ⟨mat, .scale⟩ expert offset)
  match grouped with
  | .gptqInt4 => scaleValue (cell (place / config.groupSize * columns config mat + n))
  | .fp8 => scaleValue (cell (n / config.groupSize * divUp (depth config mat) config.groupSize + place / config.groupSize))

def product (grouped : Grouped) (config : Config) (source : Origin × Nat → Cell) (expert : Nat) (mat : Mat) (a : Nat → ℚ) (n : Nat) : ℚ :=
  ∑ place ∈ Finset.range (depth config mat),
    a place * grouped.weight config source expert mat place n * grouped.scale config source expert mat place n

/-- All threads together store every element once. -/
def Stores (gemm : Nat → Nat → List (Nat × ℚ)) (m n : Nat) (value : Nat → Nat → ℚ) : Prop :=
  ∀ nth, 0 < nth → ((List.range nth).flatMap (gemm nth)).Perm ((List.range (m * n)).map fun cell => (cell, value (cell / n) (cell % n)))

variable (grouped : Grouped) (config : Config) (source : Origin × Nat → Cell) (buffers : Nat → Buffers) (expert : Nat)

def JoinsParts (mat : Mat) : Prop :=
  ∀ part < config.tpCount, ∀ m a, Stores (grouped.gemm config ((buffers part).read source) expert mat m a) m config.partSize
    fun mi ni => grouped.product config source expert mat (fun place => a (mi * config.hiddenSize + place)) (part * config.partSize + ni)

/-- The products of the parts with their slices of the intermediate vector add up to the full product. -/
def SumsParts : Prop :=
  ∀ m (a : Nat → Nat → ℚ), ∃ value : Nat → Nat → Nat → ℚ,
    (∀ part < config.tpCount,
      Stores (grouped.gemm config ((buffers part).read source) expert .down m (a part)) m config.hiddenSize (value part)) ∧
    ∀ mi < m, ∀ n < config.hiddenSize, ∑ part ∈ Finset.range config.tpCount, value part mi n =
      grouped.product config source expert .down
        (fun place => a (place / config.partSize) (mi * config.partSize + place % config.partSize)) n

/-- The sizes for which the parts compute the products of the full tensors, whatever the
rest of an accepted configuration, the tensors and the order of the copies. -/
def KeepsScales (hidden intermediate groupSize tpCount : Nat) : Prop :=
  ∀ config : Config, config.hiddenSize = hidden → config.intermediateSize = intermediate → config.groupSize = groupSize →
    config.tpCount = tpCount → grouped.backend.accepts config = .ok () →
  ∀ source buffers, (∀ part < tpCount, Loaded grouped.backend config source part (buffers part)) →
  ∀ expert < config.expertNum, (∃ task < config.expertNum, expertMap config.physicalToLogicalMap task = expert) →
    (∀ mat, mat ≠ .down → grouped.JoinsParts config source buffers expert mat) ∧ grouped.SumsParts config source buffers expert

end Grouped

end KtKernel.Avx2
