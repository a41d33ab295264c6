import KtKernel.Data.Checks
import KtKernel.Data.Lanes
import KtKernel.Data.Loops
import KtKernel.Data.Overwrites
import KtKernel.Data.SmallFloats

namespace KtKernel.Amx.Mxfp4

open KtKernel.Data

/-! The buffers of the AMX MXFP4 kernels.

Floats are kept as their bits, and a register is a function of the lane.  `M_STEP` is one, so
a step of rows is a row.
-/

def nStep : Nat := 32

def kStep : Nat := 32

def nBlock : Nat := 256

def kBlock : Nat := 7168

def recommendedNth (n : Nat) : Nat :=
  (n + nBlock - 1) / nBlock

def splitRangeN (n ith : Nat) : Nat × Nat :=
  (nBlock * ith, min n (nBlock * (ith + 1)))

/-! ## Activations -/

/-- The order of the activations of a group. -/
inductive Order where
  | logical
  | natural
deriving DecidableEq, Repr

/-- `_mm512_permutexvar_epi16`. -/
def permutexvarEpi16 (index a : Nat → BitVec 16) : Nat → BitVec 16 :=
  fun lane => a ((index lane).toNat % 32)

def naturalGroupIndices : List (BitVec 16) :=
  [0, 2, 4, 6, 8, 10, 12, 14, 16, 18, 20, 22, 24, 26, 28, 30, 1, 3, 5, 7, 9, 11, 13, 15, 17, 19, 21, 23, 25, 27, 29, 31]

def permuteActivationGroup (activation : Nat → BitVec 16) : Nat → BitVec 16 :=
  permutexvarEpi16 (fun lane => naturalGroupIndices.getD lane 0) activation

structure BufferA where
  a : Nat → BitVec 16
  naturalOrder : Bool
  /-- The order that the activations were written in, which the code does not keep. -/
  stored : Order

namespace BufferA

def getSubmat (m k mBegin kBegin : Nat) : Nat :=
  let kBlockBegin := kBegin / kBlock * kBlock
  let kBlockSize := min kBlock (k - kBlockBegin)
  kBlockBegin * m + mBegin * kBlockSize + (kBegin - kBlockBegin)

/-- A pool is shared, and holds what a forward before this one left there. -/
def setData (buffer : BufferA) (pool : Nat → BitVec 16) (left : Order) : BufferA :=
  { buffer with a := pool, stored := left, naturalOrder := false }

def fromMat (buffer : BufferA) (m k : Nat) (src : Nat → BitVec 16) : BufferA where
  a := runSteps ((List.range m).flatMap fun mBegin => (upTo k kBlock).flatMap fun kBlockBegin =>
    let kBlockSize := min kBlock (k - kBlockBegin)
    (upTo kBlockSize kStep).map fun kBegin =>
      put (kBlockBegin * m + mBegin * kBlockSize + kBegin) 32 fun lane => src (mBegin * k + kBlockBegin + kBegin + lane)) buffer.a
  naturalOrder := false
  stored := .logical

/-- The code of a build without `AVX512BF16` is the plain copy. -/
def fromMatNatural (buffer : BufferA) (avx512Bf16 : Bool) (m k : Nat) (src : Nat → BitVec 16) : BufferA :=
  if avx512Bf16 then
    { a := runSteps ((List.range m).flatMap fun mi => (List.range (k / 32)).map fun g =>
        put (getSubmat m k mi 0 + 32 * g) 32 (permuteActivationGroup fun i => src (mi * k + 32 * g + i))) buffer.a
      naturalOrder := true
      stored := .natural }
  else buffer.fromMat m k src

end BufferA

/-! ## Weights and scales -/

def loadFloat (bytes : Nat → BitVec 8) (i : Nat) : BitVec 32 :=
  bytes (4 * i + 3) ++ bytes (4 * i + 2) ++ bytes (4 * i + 1) ++ bytes (4 * i)

def exponent (bits : BitVec 32) : BitVec 32 :=
  (bits >>> 23) &&& (0xFF : BitVec 32)

def isPositivePowerOfTwo (bits : BitVec 32) : Bool :=
  bits &&& (0x80000000 : BitVec 32) = 0 && bits &&& (0x007FFFFF : BitVec 32) = 0 && exponent bits ≠ 0 && exponent bits ≠ 0xFF

structure BufferB where
  b : Nat → BitVec 8
  /-- The bytes of the scales: floats, until they are compacted. -/
  d : Nat → BitVec 8
  n : Nat
  k : Nat
  kGroupSize : Nat
  kGroupCount : Nat
  scaleE8Valid : Bool

namespace BufferB

def init (n k kGroupSize : Nat) (b d : Nat → BitVec 8) : Except String BufferB := do
  require (!(n % nStep ≠ 0 || k % kStep ≠ 0 || k % kGroupSize ≠ 0)) "n or k is not aligned to N_STEP or K_STEP"
  return { b, d, n, k, kGroupSize, kGroupCount := k / kGroupSize, scaleE8Valid := false }

def getSubmat (k nBegin kBegin : Nat) : Nat :=
  nBegin * (k / 2) + kBegin / 2

/-- Byte `i` of the exponents overwrites the floats that were read before float `i`, or its own. -/
def finalizeScaleE8 (bb : BufferB) : BufferB :=
  let count := bb.n * bb.kGroupCount
  let valid := (List.range count).foldl (fun valid i => valid && isPositivePowerOfTwo (loadFloat bb.d i)) true
  if valid then
    { bb with
      scaleE8Valid := true
      d := (List.range count).foldl (fun d i => Function.update d i ((exponent (loadFloat d i)).truncate 8)) bb.d }
  else { bb with scaleE8Valid := false }

def getScaleE8 (bb : BufferB) (nBegin kBegin : Nat) : Nat :=
  nBegin * bb.kGroupCount + kBegin / bb.kGroupSize

end BufferB

def maxGroupCount : Nat :=
  kBlock / 32

/-- The float of an exponent. -/
def expandExponent (byte : BitVec 8) : BitVec 32 :=
  byte.setWidth 32 <<< 23

/-- The stores of a whole array of scales, sixteen at a time and then one by one. -/
def expandE8Scales (source : Nat → BitVec 8) (destination count : Nat) (cells : Nat → BitVec 32) : Nat → BitVec 32 :=
  runSteps (((List.range (count / 16)).map fun block =>
      put (destination + 16 * block) 16 fun lane => expandExponent (source (16 * block + lane))) ++
    (List.range' (count / 16 * 16) (count % 16)).map fun group =>
      put (destination + group) 1 fun _ => expandExponent (source group)) cells

/-- The array `scratch` of a thread, row after row, with what lies beyond its end. -/
structure Scratch where
  cells : Nat → BitVec 32
  slot : BitVec 32

/-- What `get_scale` returns: a place among the scales, or one in the scratch. -/
inductive ScalePtr where
  | d (offset : Nat)
  | scratch (offset : Nat)
deriving DecidableEq, Repr

def ScalePtr.read (bb : BufferB) (cells : Nat → BitVec 32) : ScalePtr → Nat → BitVec 32
  | .d offset, g => loadFloat bb.d (offset + g)
  | .scratch offset, g => cells (offset + g)

def BufferB.getScale (bb : BufferB) (nBegin k kBegin : Nat) (scratch : Scratch) : ScalePtr × Scratch :=
  if !bb.scaleE8Valid then (.d (nBegin * (k / bb.kGroupSize) + kBegin / bb.kGroupSize), scratch)
  else
    let groupCount := k / bb.kGroupSize
    let destination := (scratch.slot &&& 3).toNat * maxGroupCount
    let source := bb.getScaleE8 nBegin kBegin
    (.scratch destination, ⟨expandE8Scales (fun i => bb.d (source + i)) destination groupCount scratch.cells, scratch.slot + 1⟩)

/-- `s0` to `s3` of a block of rows. -/
def BufferB.getScales (bb : BufferB) (nPos k : Nat) (scratch : Scratch) : (Nat → ScalePtr) × Scratch :=
  let (s0, scratch) := bb.getScale (nPos + 0) k 0 scratch
  let (s1, scratch) := bb.getScale (nPos + 1) k 0 scratch
  let (s2, scratch) := bb.getScale (nPos + 2) k 0 scratch
  let (s3, scratch) := bb.getScale (nPos + 3) k 0 scratch
  (fun j => [s0, s1, s2, s3].getD j s3, scratch)

end KtKernel.Amx.Mxfp4
