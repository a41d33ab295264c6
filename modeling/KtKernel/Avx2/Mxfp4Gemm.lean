import KtKernel.Avx2.PackedGemm
import KtKernel.Data.Checks
import KtKernel.Data.Lanes
import KtKernel.Data.Overwrites
import KtKernel.Data.SmallFloats

namespace KtKernel.Avx2.Mxfp4

open KtKernel.Data

/-! The paths of the MXFP4 product.

Floats are exact numbers; the weights are bytes of two codes each, and a register is a
function of the lane.
-/

/-! ## Decoding -/

def fp4Bf16Lo : List (BitVec 8) :=
  [0x00, 0x00, 0x80, 0xC0, 0x00, 0x40, 0x80, 0xC0, 0x00, 0x00, 0x80, 0xC0, 0x00, 0x40, 0x80, 0xC0]

def fp4Bf16Hi : List (BitVec 8) :=
  [0x00, 0x3F, 0x3F, 0x3F, 0x40, 0x40, 0x40, 0x40, 0x80, 0xBF, 0xBF, 0xBF, 0xC0, 0xC0, 0xC0, 0xC0]

/-- The eight codes of four bytes, in order. -/
def fp4x8ToFp32 (packed : Nat → BitVec 8) : Nat → ℚ :=
  let data := fun i => if i < 4 then packed i else 0
  let loNib := fun i => data i &&& (0x0F : BitVec 8)
  let hiNib := fun i => srliEpi16 data 4 i &&& (0x0F : BitVec 8)
  let loBf16 := words16 (unpacklo 16 (shuffleEpi8 fp4Bf16Lo loNib) (shuffleEpi8 fp4Bf16Hi loNib))
  let hiBf16 := words16 (unpacklo 16 (shuffleEpi8 fp4Bf16Lo hiNib) (shuffleEpi8 fp4Bf16Hi hiNib))
  fun lane => bf16Value (unpacklo 8 loBf16 hiBf16 lane)

def fp4Scalar (nib : BitVec 8) : ℚ :=
  bf16Value (fp4Bf16Hi.getD nib.toNat 0 ++ fp4Bf16Lo.getD nib.toNat 0)

/-- `KT_MXFP4_DECODE_GROUP`: the four registers of sixteen bytes.  The words of each are
unpacked above words of zeros, which makes floats of them. -/
def decodeGroup (raw : Nat → BitVec 8) (register : Nat) : Nat → ℚ :=
  let lo := fun i => raw i &&& (0x0F : BitVec 8)
  let hi := fun i => srliEpi16 raw 4 i &&& (0x0F : BitVec 8)
  let v := halves 16 lo hi
  let bl := shuffleEpi8 fp4Bf16Lo v
  let bh := shuffleEpi8 fp4Bf16Hi v
  let u16 := words16 (if register < 2 then unpacklo 16 bl bh else unpackhi 16 bl bh)
  let zero := fun _ : Nat => (0 : BitVec 16)
  let w := if register % 2 = 0 then unpacklo 8 zero u16 else unpackhi 8 zero u16
  fun lane => (Binary32.value ⟨⟨w (2 * lane + 1) ++ w (2 * lane)⟩⟩).getD 0

/-- The order in which a group of 32 codes leaves the decoder. -/
def kPerm : List Nat :=
  [0, 2, 4, 6, 1, 3, 5, 7, 8, 10, 12, 14, 9, 11, 13, 15, 16, 18, 20, 22, 17, 19, 21, 23, 24, 26, 28, 30, 25, 27, 29, 31]

/-- `a_perm`: the activations of all rows in the order of the decoder, over what the staging held. -/
def aPerm (m k : Nat) (a stale : Nat → ℚ) : Nat → ℚ :=
  runSteps ((List.range m).flatMap fun mi => (List.range (k / 32)).map fun g =>
    put (mi * k + g * 32) 32 fun j => a (mi * k + (g * 32 + kPerm.getD j 0))) stale

/-! ## The buffer of the weights -/

structure BufferB where
  /-- `none` until the weights are set, in the mode that only holds the scales. -/
  b : Option (Nat → BitVec 8)
  d : Nat → ℚ
  n : Nat
  k : Nat
  kGroupSize : Nat

namespace BufferB

def kGroupCount (b : BufferB) : Nat :=
  b.k / b.kGroupSize

def init (n k : Nat) (kGroupSize : Int) (b : Option (Nat → BitVec 8)) (d : Nat → ℚ) : Except String BufferB := do
  require (!(kGroupSize ≤ 0 || k % kGroupSize ≠ 0 || k % 8 ≠ 0)) "MXFP4 AVX2 requires k % group_size == 0 and k % 8 == 0"
  return ⟨b, d, n, k, kGroupSize.toNat⟩

end BufferB

/-! ## One element by each path

`a` and `p` are a row of activations, in order and in the order of the decoder. -/

/-- The lanes of half a group of 32, from the registers `first` and `first + 1`. -/
def halfLanes (p : Nat → ℚ) (bRow : Nat → BitVec 8) (g first lane : Nat) : ℚ :=
  let w := decodeGroup fun i => bRow (g * 16 + i)
  p (g * 32 + first * 8 + lane) * w first lane + p (g * 32 + (first + 1) * 8 + lane) * w (first + 1) lane

def fast32Lanes (p : Nat → ℚ) (bRow : Nat → BitVec 8) (g lane : Nat) : ℚ :=
  let w := decodeGroup fun i => bRow (g * 16 + i)
  halfLanes p bRow g 0 lane + p (g * 32 + 16 + lane) * w 2 lane + p (g * 32 + 24 + lane) * w 3 lane

/-- A token of a block of four. -/
def fast32Block (p : Nat → ℚ) (bRow : Nat → BitVec 8) (bScales : Nat → ℚ) (groupCount : Nat) : ℚ :=
  hsumMovehl (· + ·) ((List.range groupCount).foldl (fun tot g lane => tot lane + fast32Lanes p bRow g lane * bScales g) fun _ => 0)

/-- A token of the remainder, with a total for the odd groups. -/
def fast32Single (p : Nat → ℚ) (bRow : Nat → BitVec 8) (bScales : Nat → ℚ) (groupCount : Nat) : ℚ :=
  let totals := (List.range groupCount).foldl (fun (totals : (Nat → ℚ) × (Nat → ℚ)) g =>
    if g % 2 = 1 then (totals.1, fun lane => totals.2 lane + fast32Lanes p bRow g lane * bScales g)
    else (fun lane => totals.1 lane + fast32Lanes p bRow g lane * bScales g, totals.2)) (fun _ => 0, fun _ => 0)
  hsumMovehl (· + ·) fun lane => totals.1 lane + totals.2 lane

def fast16Block (p : Nat → ℚ) (bRow : Nat → BitVec 8) (bScales : Nat → ℚ) (blockCount : Nat) : ℚ :=
  hsumMovehl (· + ·) ((List.range blockCount).foldl (fun tot blk lane =>
    tot lane + halfLanes p bRow blk 0 lane * bScales (2 * blk) + halfLanes p bRow blk 2 lane * bScales (2 * blk + 1)) fun _ => 0)

def fast16Single (p : Nat → ℚ) (bRow : Nat → BitVec 8) (bScales : Nat → ℚ) (blockCount : Nat) : ℚ :=
  let totals := (List.range blockCount).foldl (fun (totals : (Nat → ℚ) × (Nat → ℚ)) blk =>
    (fun lane => totals.1 lane + halfLanes p bRow blk 0 lane * bScales (2 * blk),
      fun lane => totals.2 lane + halfLanes p bRow blk 2 lane * bScales (2 * blk + 1))) (fun _ => 0, fun _ => 0)
  hsumMovehl (· + ·) fun lane => totals.1 lane + totals.2 lane

/-- Eight products from a place of a group. -/
def generic8 (a : Nat → ℚ) (bRow : Nat → BitVec 8) (kBase ki offset lane : Nat) : ℚ :=
  a (kBase + ki + 8 * offset + lane) * fp4x8ToFp32 (fun i => bRow ((kBase + ki) / 2 + 4 * offset + i)) lane

/-- A token of a block of four, which ends at the last whole eight of each group. -/
def genericBlock (a : Nat → ℚ) (bRow : Nat → BitVec 8) (bScales : Nat → ℚ) (groupCount groupSize : Nat) : ℚ :=
  hsumMovehl (· + ·) ((List.range groupCount).foldl (fun tot g =>
    let kBase := g * groupSize
    let acc := (List.range (groupSize / 32)).foldl (fun acc step lane =>
      let term := fun offset => generic8 a bRow kBase (step * 32) offset lane
      acc lane + term 0 + term 1 + term 2 + term 3) fun _ => 0
    let acc := (List.range (groupSize % 32 / 8)).foldl (fun acc step lane =>
      acc lane + generic8 a bRow kBase (groupSize / 32 * 32 + step * 8) 0 lane) acc
    fun lane => tot lane + acc lane * bScales g) fun _ => 0)

/-- A token of the remainder: four accumulators, and a scalar tail. -/
def genericSingle (a : Nat → ℚ) (bRow : Nat → BitVec 8) (bScales : Nat → ℚ) (groupCount groupSize : Nat) : ℚ :=
  let sums := (List.range groupCount).foldl (fun (sums : (Nat → ℚ) × ℚ) g =>
    let kBase := g * groupSize
    let accs := (List.range (groupSize / 32)).foldl (fun accs step offset lane =>
      accs offset lane + generic8 a bRow kBase (step * 32) offset lane) fun (_ _ : Nat) => (0 : ℚ)
    let gAcc := fun lane => accs 0 lane + accs 2 lane + (accs 1 lane + accs 3 lane)
    let gAcc := (List.range (groupSize % 32 / 8)).foldl (fun acc step lane =>
      acc lane + generic8 a bRow kBase (groupSize / 32 * 32 + step * 8) 0 lane) gAcc
    (fun lane => sums.1 lane + gAcc lane * bScales g,
      (List.range' (groupSize / 8 * 8) (groupSize - groupSize / 8 * 8)).foldl (fun tail ki =>
        let pos := kBase + ki
        let packed := bRow (pos / 2)
        let nib := if pos % 2 = 1 then packed >>> 4 else packed &&& (0x0F : BitVec 8)
        tail + a pos * fp4Scalar nib * bScales g) sums.2)) (fun _ => 0, 0)
  hsumMovehl (· + ·) sums.1 + sums.2

/-- The tokens in blocks of four, and the rest one by one. -/
def tokens (m n ni : Nat) (block single : Nat → ℚ) : List (Nat × ℚ) :=
  ((List.range (m / 4)).flatMap fun mi => (List.range 4).map fun token =>
      ((mi * 4 + token) * n + ni, block (mi * 4 + token))) ++
    (List.range' (m / 4 * 4) (m - m / 4 * 4)).map fun mi => (mi * n + ni, single mi)

/-- The stores of `gemm_mxfp4` into `BufferC`, by place and value. -/
def gemmMxfp4 (m n k : Nat) (a : Nat → ℚ) (b : BufferB) (stale : Nat → ℚ) (nth ith : Nat) : Except String (List (Nat × ℚ)) := do
  let weights ← expectSome b.b "gemm_mxfp4: weight buffer (b.b) is null"
  let (nStart, nEnd) := splitRange n ith nth
  let bRow := fun ni i => weights (ni * (k / 2) + i)
  let bScales := fun ni g => b.d (ni * b.kGroupCount + g)
  let p := fun mi i => aPerm m k a stale (mi * k + i)
  let aRow := fun mi i => a (mi * k + i)
  let column : Nat → List (Nat × ℚ) := fun ni =>
    if b.kGroupSize = 32 ∧ k % 32 = 0 ∧ m * k ≤ 4 * 2 ^ 20 then
      tokens m n ni (fun mi => fast32Block (p mi) (bRow ni) (bScales ni) b.kGroupCount)
        fun mi => fast32Single (p mi) (bRow ni) (bScales ni) b.kGroupCount
    else if b.kGroupSize = 16 ∧ k % 32 = 0 ∧ m * k ≤ 4 * 2 ^ 20 then
      tokens m n ni (fun mi => fast16Block (p mi) (bRow ni) (bScales ni) (k / 32))
        fun mi => fast16Single (p mi) (bRow ni) (bScales ni) (k / 32)
    else
      tokens m n ni (fun mi => genericBlock (aRow mi) (bRow ni) (bScales ni) b.kGroupCount b.kGroupSize)
        fun mi => genericSingle (aRow mi) (bRow ni) (bScales ni) b.kGroupCount b.kGroupSize
  return (List.range' nStart (nEnd - nStart)).flatMap column

/-- The weight of a column. -/
def weight (k : Nat) (weights : Nat → BitVec 8) (ni place : Nat) : ℚ :=
  e2m1 (nibbleOf (weights (ni * (k / 2) + place / 2)) place).toNat

def product (k groupSize : Nat) (a : Nat → ℚ) (weights : Nat → BitVec 8) (d : Nat → ℚ) (mi ni : Nat) : ℚ :=
  ∑ g ∈ Finset.range (k / groupSize), d (ni * (k / groupSize) + g) *
    ∑ i ∈ Finset.range groupSize, a (mi * k + (g * groupSize + i)) * weight k weights ni (g * groupSize + i)

/-- All threads together store every element of the product once. -/
def Computes (m : Nat) (b : BufferB) (weights : Nat → BitVec 8) (nth : Nat) (a : Nat → ℚ) (stale : Nat → Nat → ℚ) : Prop :=
  ∃ stores : Nat → List (Nat × ℚ), (∀ ith < nth, gemmMxfp4 m b.n b.k a b (stale ith) nth ith = .ok (stores ith)) ∧
    ((List.range nth).flatMap stores).Perm
      ((List.range (m * b.n)).map fun cell => (cell, product b.k b.kGroupSize a weights b.d (cell / b.n) (cell % b.n)))

/-- The shapes for which every product is right. -/
def AllPathsAgree (m n k : Nat) (groupSize : Int) : Prop :=
  ∀ weights d b, BufferB.init n k groupSize (some weights) d = .ok b →
    ∀ nth, 0 < nth → ∀ a stale, Computes m b weights nth a stale

end KtKernel.Avx2.Mxfp4
