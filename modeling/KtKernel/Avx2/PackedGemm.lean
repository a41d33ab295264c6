import Mathlib.Algebra.Group.Nat.Defs
import KtKernel.Data.Interleaving

namespace KtKernel.Avx2

open KtKernel.Data

/-! The projection tasks of the packed VNNI GPTQ backend: one task multiplies its columns into
`BufferC` and then converts its columns of `BufferC` to BF16.

A `float` is its bits.  The float instructions of the machine and the scalar conversion of the
GGML library are those of a `Hardware`.
-/

abbrev Float32 := BitVec 32
abbrev Bf16 := BitVec 16

structure Hardware where
  mul : Float32 → Float32 → Float32
  add : Float32 → Float32 → Float32
  sub : Float32 → Float32 → Float32
  fmadd : Float32 → Float32 → Float32 → Float32
  cvtepi32 : Int → Float32
  ggmlFp32ToBf16 : Float32 → Bf16

/-- A lane of `store_fp32_to_bf16`. -/
def storeFp32ToBf16 (bits : Float32) : Bf16 :=
  ((bits + (0x7FFF + ((bits >>> 16) &&& 1))) >>> 16).truncate 16

/-- `avx2::split_range` -/
def splitRange (total ith nth : Nat) : Nat × Nat :=
  let start := ith * (total / nth) + min ith (total % nth)
  (start, start + total / nth + if ith < total % nth then 1 else 0)

def splitRangeJb (n ith nth : Nat) : Nat × Nat :=
  let jbTotal := n / 8
  let per := jbTotal / nth
  let rem := jbTotal % nth
  let start := (ith * per + min ith rem) * 8
  (start, start + (per + if ith < rem then 1 else 0) * 8)

def recommendedNth (n : Nat) : Nat :=
  max 1 (n / 64)

/-! ## One element of the product -/

/-- The buffers of one projection of one expert: `m` rows of quantized activations with a
scale for each group, and for each column the packed words, scales and corrections. -/
structure Projection where
  m : Nat
  data : Nat → Nat → BitVec 8
  aScales : Nat → Nat → Float32
  qweight : Nat → Nat → BitVec 32
  scales : Nat → Nat → Float32
  c2 : Nat → Nat → Float32

/-- A byte that `unpack_4words_to_s8_nosad` makes of the words from `first` on. -/
def unpacked (words : Nat → BitVec 32) (first place : Nat) : Int :=
  ((words (first + place / 8) >>> (4 * (place % 8))) &&& 0xF).toNat - 8

/-- A lane of `_mm256_dpbusd_epi32`. -/
def dpbusd (acc : Int) (a : Nat → BitVec 8) (b : Nat → Int) (lane : Nat) : Int :=
  ((List.range 4).foldl (fun sum place => sum + (a (4 * lane + place)).toNat * b (4 * lane + place)) acc).bmod (2 ^ 32)

variable (hardware : Hardware)

def hsum (v : Nat → Float32) : Float32 :=
  let s := fun lane => hardware.add (v lane) (v (lane + 4))
  hardware.add (hardware.add (s 0) (s 1)) (hardware.add (s 2) (s 3))

/-- What the packed GEMM stores in a row and column of `BufferC`. -/
def gemmElement (k groupSize : Nat) (projection : Projection) (row column : Nat) : Float32 :=
  let sums := (List.range (k / groupSize)).foldl (fun (sums : (Nat → Float32) × Float32) group =>
    let sg := projection.aScales row group
    let acc := (List.range (groupSize / 32)).foldl (fun acc lanes lane =>
      dpbusd (acc lane) (fun place => projection.data row (group * groupSize + lanes * 32 + place))
        (unpacked (projection.qweight column) (group * (groupSize / 8) + lanes * 4)) lane) (fun _ => 0)
    (fun lane => hardware.fmadd (hardware.cvtepi32 (acc lane)) (hardware.mul sg (projection.scales column group))
      (sums.1 lane),
      hardware.add sums.2 (hardware.mul sg (projection.c2 column group)))) (fun _ => 0, 0)
  hardware.sub (hsum hardware sums.1) sums.2

/-! ## The tasks of a job -/

/-- A work-stealing job over the projections of the activated experts; the sizes are those the
buffers accept. -/
structure Job where
  projections : List Projection
  n : Nat
  k : Nat
  groupSize : Nat
  group : 0 < groupSize ∧ groupSize % 32 = 0 ∧ groupSize ≤ 2048
  whole : k % 8 = 0 ∧ k % groupSize = 0

/-- The accesses to `BufferC` and to the output: a store of the product, a conversion of
eight elements, and one of a single element. -/
inductive Op where
  | store (projection row column : Nat)
  | convert8 (projection row column : Nat)
  | convert1 (projection row column : Nat)
deriving DecidableEq, Repr

structure Memory where
  c : Nat → Nat → Nat → Float32
  dst : Nat → Nat → Nat → Bf16

/-- `gemm_gptq_sym_int4_packed_avxvnni256` -/
def gemm (n projection m ith nth : Nat) : List Op :=
  let (nStart, nEnd) := splitRangeJb n ith nth
  (List.range' (nStart / 8) (nEnd / 8 - nStart / 8)).flatMap fun jb =>
    (List.range m).flatMap fun row => (List.range 8).map fun j => .store projection row (jb * 8 + j)

/-- `BufferC::to_mat` -/
def toMat (n projection m ith nth : Nat) : List Op :=
  let (nStart, nEnd) := splitRange n ith nth
  let vectors := (nEnd - nStart) / 8
  (List.range m).flatMap fun row =>
    ((List.range vectors).map fun vector => .convert8 projection row (nStart + 8 * vector)) ++
      (List.range' (nStart + 8 * vectors) (nEnd - (nStart + 8 * vectors))).map fun j => .convert1 projection row j

def Job.result (job : Job) (projection row column : Nat) : Float32 :=
  match job.projections[projection]? with
  | some own => gemmElement hardware job.k job.groupSize own row column
  | none => 0

def Job.exec (job : Job) : Op → Memory → Memory
  | .store projection row column, memory =>
      { memory with
        c := fun p r j => if p = projection ∧ r = row ∧ j = column then job.result hardware p r j else memory.c p r j }
  | .convert8 projection row column, memory =>
      { memory with
        dst := fun p r j =>
          if p = projection ∧ r = row ∧ column ≤ j ∧ j < column + 8 then storeFp32ToBf16 (memory.c p r j)
          else memory.dst p r j }
  | .convert1 projection row column, memory =>
      { memory with
        dst := fun p r j =>
          if p = projection ∧ r = row ∧ j = column then hardware.ggmlFp32ToBf16 (memory.c p r j)
          else memory.dst p r j }

/-- The task of a projection and a share: the product, then the conversion. -/
def Job.program (job : Job) (task : Nat × Nat) : List Op :=
  match job.projections[task.1]? with
  | some own =>
      if task.2 < recommendedNth job.n then
        gemm job.n task.1 own.m task.2 (recommendedNth job.n) ++ toMat job.n task.1 own.m task.2 (recommendedNth job.n)
      else []
  | none => []

/-- The interleavings of a job, whatever an earlier call left in the buffers. -/
def Job.machine (job : Job) : Machine (Interleaved (Nat × Nat) Op Memory) (Nat × Nat) :=
  interleaving job.program (job.exec hardware) fun _ => True

/-- When every task has ended, every element of the output is its own product rounded. -/
def OrderIndependent (job : Job) : Prop :=
  ∀ state, (job.machine hardware).Reachable state → (∀ task, state.left task = []) →
    ∀ projection own, job.projections[projection]? = some own → ∀ row < own.m, ∀ column < job.n,
      state.memory.dst projection row column =
        storeFp32ToBf16 (gemmElement hardware job.k job.groupSize own row column)

end KtKernel.Avx2
