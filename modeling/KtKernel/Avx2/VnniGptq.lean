import KtKernel.Amx.Quantization
import KtKernel.Avx2.PackedGemm
import KtKernel.Data.Checks
import KtKernel.Data.Lanes
import KtKernel.Data.Panels
import KtKernel.Data.Threads

namespace KtKernel.Avx2.VnniGptq

open KtKernel.Data
open KtKernel.Amx.Quantization (roundEven cvtpsEpi32)

/-! The two VNNI kernels of GPTQ INT4: one keeps the weights packed and unpacks eight columns at a
time, the other unpacks all weights when it loads them.

Floats are exact numbers; bytes and integers are those of the machine.
-/

/-- The sizes of a buffer of weights. -/
structure Sizes where
  n : Nat
  k : Nat
  groupSize : Nat
deriving DecidableEq, Repr

namespace Sizes

def numGroups (sizes : Sizes) : Nat :=
  sizes.k / sizes.groupSize

def kPacked (sizes : Sizes) : Nat :=
  sizes.k / 8

end Sizes

/-- `std::numeric_limits<float>::min()` -/
def fltMin : ℚ :=
  1 / 2 ^ 126

/-- The lanes of `_mm256_dpbusd_epi32` after a number of steps of 32 bytes. -/
def accumulators (a : Nat → BitVec 8) (b : Nat → Int) (steps : Nat) : Nat → Int :=
  (List.range steps).foldl
    (fun acc step lane => dpbusd (acc lane) (fun place => a (step * 32 + place)) (fun place => b (step * 32 + place)) lane)
    fun _ => 0

def storeRange (start length : Nat) (value : Nat → ℚ) : Store Nat ℚ :=
  fun cell _ => if start ≤ cell ∧ cell < start + length then some (value (cell - start)) else none

def addTo (place : Nat) (amount : ℚ) : Store Nat ℚ :=
  fun cell old => if cell = place then some (old + amount) else none

/-! ## The packed kernel -/

namespace Packed

def maxSupportedGroupSize : Int := 2048

def maxTmpRow : Nat := 2048

def hmaxPs (v : Nat → ℚ) : ℚ :=
  let m := fun lane => max (v lane) (v (lane + 4))
  max (max (m 0) (m 2)) (max (m 1) (m 3))

def packusEpi32 (i : Int) : Int :=
  max 0 (min i 65535)

def packusEpi16 (i : Int) : Int :=
  max 0 (min i 255)

/-- A group of `quantize_bf16_to_u8_pg`: its scale and its bytes. -/
def quantizeGroup (sg : Nat → ℚ) (groupSize : Nat) : ℚ × (Nat → BitVec 8) :=
  let vectors := groupSize / 8
  let inVectors := (List.range vectors).foldl
    (fun maxAbs vector => max maxAbs (hmaxPs fun lane => |sg (vector * 8 + lane)|)) 0
  let maxAbs := (List.range' (vectors * 8) (groupSize - vectors * 8)).foldl (fun maxAbs i => max maxAbs |sg i|) inVectors
  if maxAbs ≤ fltMin then (1, fun _ => 128)
  else
    let scale := maxAbs / 127
    let inv := 1 / scale
    (scale, fun i =>
      if i < vectors * 8 then
        BitVec.ofInt 8 (packusEpi16 (packusEpi32 (min (max (cvtpsEpi32 (roundEven (sg i * inv)) + 128) 0) 255)))
      else BitVec.ofInt 8 (min (max (roundEven (sg i * inv) + 128) 0) 255))

/-- The activations, in bytes around 128. -/
structure BufferA where
  data : Nat → BitVec 8
  scales : Nat → ℚ

def BufferA.init (k : Nat) (groupSize : Int) : Except String Unit :=
  require (0 < groupSize && k % groupSize = 0)
    "AVX-VNNI-256 packed GPTQ INT4 requires k to be a positive multiple of group_size (per-group activation quantization)"

/-- A row of `BufferA::from_mat`. -/
def quantizeRow (k groupSize : Nat) (src : Nat → ℚ) (mi : Nat) (a : BufferA) : BufferA :=
  let numGroups := k / groupSize
  let group := fun g => quantizeGroup (fun i => src (mi * k + g * groupSize + i)) groupSize
  { data := putRows (mi * k) groupSize 0 0 numGroups groupSize (fun g => (group g).2) a.data
    scales := put (mi * numGroups) numGroups (fun g => (group g).1) a.scales }

def BufferA.fromMat (k groupSize m : Nat) (src : Nat → ℚ) (nth ith : Nat) : List (BufferA → BufferA) :=
  let (mStart, mEnd) := if ith = 0 ∧ nth = 1 then (0, m) else splitRange m ith nth
  (List.range' mStart (mEnd - mStart)).map (quantizeRow k groupSize src)

structure BufferB where
  qweight : Nat → BitVec 32
  scales : Nat → ℚ
  /-- 128 times the scale times the sum of the weights of a group. -/
  c2 : Nat → ℚ

def BufferB.init (n k : Nat) (groupSize : Int) : Except String Sizes := do
  require (0 < groupSize && groupSize % 32 = 0)
    "AVX-VNNI-256 packed GPTQ INT4 requires group_size to be a positive multiple of 32"
  require (groupSize ≤ maxSupportedGroupSize) "AVX-VNNI-256 packed GPTQ INT4 requires group_size <= 2048"
  require (k % 8 = 0 && k % groupSize = 0)
    "AVX-VNNI-256 packed GPTQ INT4 requires k to be divisible by both 8 and group_size"
  return ⟨n, k, groupSize.toNat⟩

def rowsum (words : Nat → BitVec 32) (groupSize : Nat) : Int :=
  let nibbleSum := (List.range (groupSize / 8)).foldl (fun sum wr =>
    (List.range 8).foldl (fun sum nb => sum + ((words wr >>> (nb * 4)) &&& 0xF).toNat) sum) 0
  nibbleSum - 8 * groupSize

/-- A column of `BufferB::from_mat`. -/
def gatherColumn (sizes : Sizes) (srcQweight : Nat → BitVec 32) (srcScales : Nat → ℚ) (ni : Nat) (b : BufferB) : BufferB :=
  let wordsPerGroup := sizes.groupSize / 8
  let row := ni * sizes.kPacked
  let qweight := put row sizes.kPacked (fun w => srcQweight (w * sizes.n + ni)) b.qweight
  let sc := fun g => srcScales (g * sizes.n + ni)
  { qweight := qweight
    scales := put (ni * sizes.numGroups) sizes.numGroups sc b.scales
    c2 := put (ni * sizes.numGroups) sizes.numGroups
      (fun g => 128 * sc g * rowsum (fun wr => qweight (row + (g * wordsPerGroup + wr))) sizes.groupSize) b.c2 }

def BufferB.fromMat (sizes : Sizes) (srcQweight : Nat → BitVec 32) (srcScales : Nat → ℚ) (nth ith : Nat) :
    List (BufferB → BufferB) :=
  let (nStart, nEnd) := splitRange sizes.n ith nth
  (List.range' nStart (nEnd - nStart)).map (gatherColumn sizes srcQweight srcScales)

def unpack4WordsToS8Nosad (qwords : Nat → BitVec 32) : Nat → BitVec 8 :=
  let w := wordByte qwords
  let even := fun lane => w lane &&& (0x0F : BitVec 8)
  let odd := fun lane => srliEpi16 w 4 lane &&& (0x0F : BitVec 8)
  let nibs := halves 16 (unpacklo 16 even odd) (unpackhi 16 even odd)
  fun lane => nibs lane - 8

def tmpStride (k : Nat) : Nat :=
  if k ≤ maxTmpRow then maxTmpRow else k

/-- The staging rows of a block of eight columns, over what they held before. -/
def unpackJbToTmp (sizes : Sizes) (b : BufferB) (jb : Nat) (tmp : Nat → BitVec 8) : Nat → BitVec 8 :=
  let wordsPerGroup := sizes.groupSize / 8
  runSteps ((List.range 8).flatMap fun j => (List.range sizes.numGroups).flatMap fun g =>
    (List.range (sizes.groupSize / 32)).map fun lane =>
      put (j * tmpStride sizes.k + (g * sizes.groupSize + lane * 32)) 32
        (unpack4WordsToS8Nosad fun i => b.qweight ((jb * 8 + j) * sizes.kPacked + (g * wordsPerGroup + lane * 4) + i))) tmp

/-- An element of a block, from the staging rows. -/
def gemmElement (sizes : Sizes) (a : BufferA) (b : BufferB) (tmp : Nat → BitVec 8) (jb mi j : Nat) : ℚ :=
  let sums := (List.range sizes.numGroups).foldl (fun (sums : (Nat → ℚ) × ℚ) g =>
    let sg := a.scales (mi * (sizes.k / sizes.groupSize) + g)
    let acc := accumulators (fun place => a.data (mi * sizes.k + (g * sizes.groupSize + place)))
      (fun place => (tmp (j * tmpStride sizes.k + (g * sizes.groupSize + place))).toInt) (sizes.groupSize / 32)
    (fun lane => sums.1 lane + acc lane * (sg * b.scales ((jb * 8 + j) * sizes.numGroups + g)),
      sums.2 + sg * b.c2 ((jb * 8 + j) * sizes.numGroups + g))) (fun _ => 0, 0)
  hsumHadd (· + ·) sums.1 - sums.2

/-- `gemm_gptq_sym_int4_packed_avxvnni256`; `stale` is what the staging rows hold before a block. -/
def gemm (sizes : Sizes) (m : Nat) (a : BufferA) (b : BufferB) (stale : Nat → Nat → Nat → BitVec 8) (nth ith : Nat) :
    List (Store Nat ℚ) :=
  let (nStart, nEnd) := splitRangeJb sizes.n ith nth
  (List.range' (nStart / 8) (nEnd / 8 - nStart / 8)).flatMap fun jb =>
    let tmp := unpackJbToTmp sizes b jb (stale ith jb)
    (List.range m).map fun mi => storeRange (mi * sizes.n + jb * 8) 8 (gemmElement sizes a b tmp jb mi)

end Packed

/-! ## The kernel that unpacks at load -/

namespace Unpacked

def maxSupportedGroupSize : Int := 256

/-- The scale of a group and its bytes; a scale of zero means that the group is all zero. -/
def quantizeActivationGroupU8 (src : Nat → ℚ) (groupSize : Nat) : ℚ × (Nat → BitVec 8) :=
  let absmax := (List.range groupSize).foldl (fun absmax i => max absmax |src i|) 0
  if absmax ≤ fltMin then (0, fun _ => 0x80)
  else
    let scale := absmax / 127
    let invScale := 1 / scale
    (scale, fun i => BitVec.ofInt 8 (max (-127) (min (roundEven (src i * invScale)) 127)) ^^^ 0x80)

/-- `BufferA::from_mat`, on the activations as they are. -/
def bufferAFromMat (k m : Nat) (src : Nat → ℚ) (nth ith : Nat) : List ((Nat → ℚ) → Nat → ℚ) :=
  let (mStart, mEnd) := if ith = 0 ∧ nth = 1 then (0, m) else splitRange m ith nth
  [put (mStart * k) ((mEnd - mStart) * k) fun i => src (mStart * k + i)]

structure BufferB where
  qweightS8 : Nat → BitVec 8
  scales : Nat → ℚ
  weightSums : Nat → BitVec 16

def BufferB.init (n k : Nat) (groupSize : Int) : Except String Sizes := do
  require (0 < groupSize && groupSize % 32 = 0) "AVX-VNNI GPTQ INT4 requires group_size to be a positive multiple of 32"
  require (groupSize ≤ maxSupportedGroupSize) "AVX-VNNI GPTQ INT4 requires group_size <= 256"
  require (k % 8 = 0 && k % groupSize = 0) "AVX-VNNI GPTQ INT4 requires k to be divisible by both 8 and group_size"
  return ⟨n, k, groupSize.toNat⟩

def value (packed : BitVec 32) (nib : Nat) : BitVec 8 :=
  BitVec.ofInt 8 (((packed >>> (nib * 4)) &&& 0xF).toNat - 8)

def groupSum (words : Nat → BitVec 32) (groupSize : Nat) : Int :=
  (List.range (groupSize / 8)).foldl (fun sum kr => (List.range 8).foldl (fun sum nib => sum + (value (words kr) nib).toInt) sum) 0

def copyScales (sizes : Sizes) (srcScales : Nat → ℚ) (nStart nLen g : Nat) (b : BufferB) : BufferB :=
  { b with scales := put (g * sizes.n + nStart) nLen (fun i => srcScales (g * sizes.n + nStart + i)) b.scales }

/-- A column of `BufferB::from_mat`. -/
def unpackColumn (sizes : Sizes) (srcQweight : Nat → BitVec 32) (ni : Nat) (b : BufferB) : BufferB :=
  let groupPacked := sizes.groupSize / 8
  let packed := fun g kr => srcQweight (g * groupPacked * sizes.n + ni + kr * sizes.n)
  { b with
    qweightS8 := runSteps ((List.range sizes.numGroups).flatMap fun g => (List.range groupPacked).map fun kr =>
      put (ni * sizes.k + (g * sizes.groupSize + kr * 8)) 8 (value (packed g kr))) b.qweightS8
    weightSums := runSteps ((List.range sizes.numGroups).map fun g =>
      put (g * sizes.n + ni) 1 fun _ => BitVec.ofInt 16 (groupSum (packed g) sizes.groupSize)) b.weightSums }

def BufferB.fromMat (sizes : Sizes) (srcQweight : Nat → BitVec 32) (srcScales : Nat → ℚ) (nth ith : Nat) :
    List (BufferB → BufferB) :=
  let (nStart, nEnd) := splitRange sizes.n ith nth
  (List.range sizes.numGroups).map (copyScales sizes srcScales nStart (nEnd - nStart)) ++
    (List.range' nStart (nEnd - nStart)).map (unpackColumn sizes srcQweight)

/-- The dot product of a group, with the offset of the bytes taken back. -/
def dot (sizes : Sizes) (b : BufferB) (aU8 : Nat → BitVec 8) (g ni : Nat) : Int :=
  let acc := accumulators aU8 (fun place => (b.qweightS8 (ni * sizes.k + (g * sizes.groupSize + place))).toInt)
    ((sizes.groupSize + 31) / 32)
  wrapAdd (hsumHadd wrapAdd acc) (-(128 * (b.weightSums (g * sizes.n + ni)).toInt).bmod (2 ^ 32))

/-- A row of `gemm_gptq_sym_int4_avxvnni256`. -/
def gemmRow (sizes : Sizes) (a : Nat → ℚ) (b : BufferB) (nStart nEnd mi : Nat) : List (Store Nat ℚ) :=
  storeRange (mi * sizes.n + nStart) (nEnd - nStart) (fun _ => 0) ::
    (List.range sizes.numGroups).flatMap fun g =>
      let (aScale, aU8) := quantizeActivationGroupU8 (fun i => a (mi * sizes.k + g * sizes.groupSize + i)) sizes.groupSize
      if aScale = 0 then []
      else (List.range' nStart (nEnd - nStart)).map fun ni =>
        addTo (mi * sizes.n + ni) (dot sizes b aU8 g ni * aScale * b.scales (g * sizes.n + ni))

def gemm (sizes : Sizes) (m : Nat) (a : Nat → ℚ) (b : BufferB) (nth ith : Nat) : List (Store Nat ℚ) :=
  let (nStart, nEnd) := splitRange sizes.n ith nth
  (List.range m).flatMap (gemmRow sizes a b nStart nEnd)

end Unpacked

/-! ## A projection of a backend -/

/-- The sizes of an expert.  Gate and up multiply by `hiddenSize` columns of weights, down by
`intermediateSize`, so each of the two is the `k` of a buffer and the `n` of another. -/
structure Config where
  hiddenSize : Nat
  intermediateSize : Nat
  groupSize : Int

/-- The buffers that the packed backend makes for an expert. -/
def Packed.makeBuffers (config : Config) : Except String (Sizes × Sizes) := do
  Packed.BufferA.init config.hiddenSize config.groupSize
  Packed.BufferA.init config.intermediateSize config.groupSize
  let gateUp ← Packed.BufferB.init config.intermediateSize config.hiddenSize config.groupSize
  let down ← Packed.BufferB.init config.hiddenSize config.intermediateSize config.groupSize
  return (gateUp, down)

/-- The buffers that the other backend makes for an expert. -/
def Unpacked.makeBuffers (config : Config) : Except String (Sizes × Sizes) := do
  let gateUp ← Unpacked.BufferB.init config.intermediateSize config.hiddenSize config.groupSize
  let down ← Unpacked.BufferB.init config.hiddenSize config.intermediateSize config.groupSize
  return (gateUp, down)

/-- The weights of a projection and the activations that it is applied to. -/
structure Data where
  m : Nat
  src : Nat → ℚ
  qweight : Nat → BitVec 32
  scales : Nat → ℚ

/-- A load and a product of the packed kernel, by any number of threads in any interleaving. -/
structure Packed.Result (sizes : Sizes) (data : Data) (c : Nat → ℚ) : Prop where
  runs : ∃ (nthA nthB nthC : Nat) (a₀ a : Packed.BufferA) (b₀ b : Packed.BufferB) (c₀ : Nat → ℚ)
    (stale : Nat → Nat → Nat → BitVec 8), 0 < nthA ∧ 0 < nthB ∧ 0 < nthC ∧
      Ran nthA (Packed.BufferA.fromMat sizes.k sizes.groupSize data.m data.src nthA) (fun step memory => step memory) a₀ a ∧
      Ran nthB (Packed.BufferB.fromMat sizes data.qweight data.scales nthB) (fun step memory => step memory) b₀ b ∧
      Ran nthC (Packed.gemm sizes data.m a b stale nthC) Store.run c₀ c

structure Unpacked.Result (sizes : Sizes) (data : Data) (c : Nat → ℚ) : Prop where
  runs : ∃ (nthA nthB nthC : Nat) (a₀ a : Nat → ℚ) (b₀ b : Unpacked.BufferB) (c₀ : Nat → ℚ),
    0 < nthA ∧ 0 < nthB ∧ 0 < nthC ∧
      Ran nthA (Unpacked.bufferAFromMat sizes.k data.m data.src nthA) (fun step memory => step memory) a₀ a ∧
      Ran nthB (Unpacked.BufferB.fromMat sizes data.qweight data.scales nthB) (fun step memory => step memory) b₀ b ∧
      Ran nthC (Unpacked.gemm sizes data.m a b nthC) Store.run c₀ c

/-! ## What the kernels are for -/

def nibble (sizes : Sizes) (data : Data) (column place : Nat) : Int :=
  ((data.qweight (place / 8 * sizes.n + column) >>> (place % 8 * 4)) &&& 0xF).toNat

/-- The largest magnitude of a group of activations. -/
def groupMax (group : Nat → ℚ) (groupSize : Nat) : ℚ :=
  (List.range groupSize).foldl (fun largest i => max largest |group i|) 0

/-- A group of activations in bytes around 128, rounded to the nearest. -/
def quantized (group : Nat → ℚ) (groupSize : Nat) (i : Nat) : Int :=
  if groupMax group groupSize ≤ fltMin then 128 else roundEven (group i / (groupMax group groupSize / 127)) + 128

/-- The product of the quantized activations and the weights. -/
def product (sizes : Sizes) (data : Data) (row column : Nat) : ℚ :=
  ∑ g ∈ Finset.range sizes.numGroups,
    let group := fun i => data.src (row * sizes.k + g * sizes.groupSize + i)
    groupMax group sizes.groupSize / 127 * data.scales (g * sizes.n + column) *
      ((∑ i ∈ Finset.range sizes.groupSize,
        (quantized group sizes.groupSize i - 128) * (nibble sizes data column (g * sizes.groupSize + i) - 8) : Int) : ℚ)

/-- No step of a wrapping sum of products leaves its 32 bits. -/
def ExactDots (a : Nat → BitVec 8) (b : Nat → Int) (groupSize : Nat) : Prop :=
  ∀ steps ≤ groupSize / 32, ∀ lane < 8,
    accumulators a b steps lane =
        ∑ step ∈ Finset.range steps, ∑ place ∈ Finset.range 4,
          ((a (step * 32 + (4 * lane + place))).toNat : Int) * b (step * 32 + (4 * lane + place)) ∧
      |accumulators a b steps lane| < 2 ^ 31

/-- The integers of the packed kernel: the accumulators fit, and the sum in a correction is exact as a float. -/
structure Packed.InRange (groupSize : Nat) : Prop where
  dots : ∀ (a : Nat → BitVec 8) (words : Nat → BitVec 32),
    ExactDots a (fun place => (Packed.unpack4WordsToS8Nosad (fun i => words (place / 32 * 4 + i)) (place % 32)).toInt) groupSize
  correction : ∀ words, |Packed.rowsum words groupSize| ≤ 2 ^ 24

/-- The integers of the other kernel: the accumulators, the sums in 16 bits, the correction and the difference fit. -/
structure Unpacked.InRange (groupSize : Nat) : Prop where
  dots : ∀ (a : Nat → BitVec 8) (words : Nat → BitVec 32),
    ExactDots a (fun place => (Unpacked.value (words (place / 8)) (place % 8)).toInt) groupSize
  sums : ∀ words, (BitVec.ofInt 16 (Unpacked.groupSum words groupSize)).toInt = Unpacked.groupSum words groupSize
  correction : ∀ words, |128 * Unpacked.groupSum words groupSize| < 2 ^ 31
  difference : ∀ (a : Nat → BitVec 8) (words : Nat → BitVec 32),
    let acc := accumulators a (fun place => (Unpacked.value (words (place / 8)) (place % 8)).toInt) (groupSize / 32)
    |∑ lane ∈ Finset.range 8, acc lane| < 2 ^ 31 ∧
      |∑ lane ∈ Finset.range 8, acc lane - 128 * Unpacked.groupSum words groupSize| < 2 ^ 31

end KtKernel.Avx2.VnniGptq
