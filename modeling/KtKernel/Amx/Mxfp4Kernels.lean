import KtKernel.Amx.Mxfp4Buffers
import KtKernel.Data.Gather

namespace KtKernel.Amx.Mxfp4

open KtKernel.Data

/-! The MXFP4 kernels, and the forwards of an expert that dispatch to them. -/

/-! ## Decoding -/

def floatValue (bits : BitVec 32) : ℚ :=
  (Binary32.value ⟨⟨bits⟩⟩).getD 0

def fp4Bf16Lo : List (BitVec 8) :=
  [0x00, 0x00, 0x80, 0xC0, 0x00, 0x40, 0x80, 0xC0, 0x00, 0x00, 0x80, 0xC0, 0x00, 0x40, 0x80, 0xC0]

def fp4Bf16Hi : List (BitVec 8) :=
  [0x00, 0x3F, 0x3F, 0x3F, 0x40, 0x40, 0x40, 0x40, 0x80, 0xBF, 0xBF, 0xBF, 0xC0, 0xC0, 0xC0, 0xC0]

def fp4Bf16 : List (BitVec 16) :=
  [0x0000, 0x3F00, 0x3F80, 0x3FC0, 0x4000, 0x4040, 0x4080, 0x40C0,
    0x8000, 0xBF00, 0xBF80, 0xBFC0, 0xC000, 0xC040, 0xC080, 0xC0C0]

/-- `lut` of the builds without `AVX512BF16`. -/
def lut : List ℚ :=
  [0, 1 / 2, 1, 3 / 2, 2, 3, 4, 6, -0, -1 / 2, -1, -3 / 2, -2, -3, -4, -6]

/-- The 32 codes of sixteen bytes, in order. -/
def mxfp4ToBf16x32 (packed : Nat → BitVec 8) : Nat → BitVec 16 :=
  let lo := fun i => packed i &&& (0x0F : BitVec 8)
  let hi := fun i => srliEpi16 packed 4 i &&& (0x0F : BitVec 8)
  let lLo := shuffleEpi8 fp4Bf16Lo lo
  let lHi := shuffleEpi8 fp4Bf16Hi lo
  let loBf16First := words16 (unpacklo 16 lLo lHi)
  let loBf16Second := words16 (unpackhi 16 lLo lHi)
  let hLo := shuffleEpi8 fp4Bf16Lo hi
  let hHi := shuffleEpi8 fp4Bf16Hi hi
  let hiBf16First := words16 (unpacklo 16 hLo hHi)
  let hiBf16Second := words16 (unpackhi 16 hLo hHi)
  let q0 := halves 8 (unpacklo 8 loBf16First hiBf16First) (unpackhi 8 loBf16First hiBf16First)
  let q1 := halves 8 (unpacklo 8 loBf16Second hiBf16Second) (unpackhi 8 loBf16Second hiBf16Second)
  halves 16 q0 q1

/-- The low codes of sixteen bytes, and then the high ones. -/
def mxfp4ToBf16x32Natural (packed : Nat → BitVec 8) : Nat → BitVec 16 :=
  let lo := fun i => packed i &&& (0x0F : BitVec 8)
  let hi := fun i => srliEpi16 packed 4 i &&& (0x0F : BitVec 8)
  let indices := halves 16 (fun i => (lo i).setWidth 16) fun i => (hi i).setWidth 16
  permutexvarEpi16 indices fun i => fp4Bf16.getD i 0

/-- `_mm512_dpbf16_ps` onto zero. -/
def dpbf16 (a d : Nat → BitVec 16) (lane : Nat) : ℚ :=
  bf16Value (a (2 * lane)) * bf16Value (d (2 * lane)) + bf16Value (a (2 * lane + 1)) * bf16Value (d (2 * lane + 1))

def mxfp4DotBf16 (avx512Bf16 : Bool) (w : Nat → BitVec 8) (act : Nat → BitVec 16) : Nat → ℚ :=
  if avx512Bf16 then dpbf16 act (mxfp4ToBf16x32 w)
  else
    let word := fun lane => act (2 * lane + 1) ++ act (2 * lane)
    let aEven := fun lane => floatValue (word lane <<< 16)
    let aOdd := fun lane => floatValue (word lane &&& (0xFFFF0000 : BitVec 32))
    let wEven := fun lane => lut.getD ((w lane &&& (0x0F : BitVec 8)).toNat % 16) 0
    let wOdd := fun lane => lut.getD ((srliEpi16 w 4 lane &&& (0x0F : BitVec 8)).toNat % 16) 0
    fun lane => aEven lane * wEven lane + aOdd lane * wOdd lane

/-! ## Elements -/

/-- An element: the groups of a row of activations and a row of weights, summed in sixteen lanes. -/
def element (dot : (Nat → BitVec 8) → (Nat → BitVec 16) → Nat → ℚ) (kgCount : Nat) (s : Nat → BitVec 32) (w : Nat → BitVec 8)
    (aRow : Nat → BitVec 16) : ℚ :=
  let acc := (List.range kgCount).foldl (fun acc g lane =>
    floatValue (s g) * dot (fun i => w (16 * g + i)) (fun i => aRow (32 * g + i)) lane + acc lane) fun _ => 0
  ∑ lane ∈ Finset.range 16, acc lane

/-- The place of an element in `BufferC`. -/
def getSubmatC (m n mBegin nBegin : Nat) : Nat :=
  let nBlockBegin := nBegin / nBlock * nBlock
  let nBlockSize := min nBlock (n - nBlockBegin)
  m * nBlockBegin + mBegin * nBlockSize + (nBegin - nBlockBegin)

abbrev Stores := List (Nat × ℚ)

section

variable (avx512Bf16 : Bool) (m n k : Nat) (ba : BufferA) (bb : BufferB)

/-- The element of a token, by the logical order. -/
def logicalElement (s : Nat → BitVec 32) (nPos mi : Nat) : ℚ :=
  element (mxfp4DotBf16 avx512Bf16) (k / 32) s (fun i => bb.b (BufferB.getSubmat k nPos 0 + i))
    fun i => ba.a (BufferA.getSubmat m k mi 0 + i)

/-- The rows of weights against one token, four at a time. -/
def tokenRow (nStart nEnd mi : Nat) : Scratch → Stores × Scratch :=
  let cRow := getSubmatC m n mi nStart
  byFours nStart nEnd
    (fun nPos scratch =>
      let (s, scratch) := bb.getScales nPos k scratch
      ((List.range 4).map fun j =>
        (cRow + (nPos - nStart) + j, logicalElement avx512Bf16 m k ba bb ((s j).read bb scratch.cells) (nPos + j) mi), scratch))
    fun nPos scratch =>
      let (s, scratch) := bb.getScale nPos k 0 scratch
      ([(cRow + (nPos - nStart), logicalElement avx512Bf16 m k ba bb (s.read bb scratch.cells) nPos mi)], scratch)

def fp4MatVecKgroup (ith : Nat) (scratch : Scratch) : Stores × Scratch :=
  let (nStart, nEnd) := splitRangeN n ith
  if nStart ≥ nEnd then ([], scratch) else gather (List.range m) (tokenRow avx512Bf16 m n k ba bb nStart nEnd) scratch

def fp4MatMatKgroup (ith : Nat) (scratch : Scratch) : Stores × Scratch :=
  let (nStart, nEnd) := splitRangeN n ith
  if nStart ≥ nEnd then ([], scratch)
  else
    byFours 0 m
      (fun mPos => byFours nStart nEnd
        (fun nPos scratch =>
          let (s, scratch) := bb.getScales nPos k scratch
          ((List.range 4).flatMap fun i => (List.range 4).map fun j =>
            (getSubmatC m n (mPos + i) nStart + (nPos - nStart) + j,
              logicalElement avx512Bf16 m k ba bb ((s j).read bb scratch.cells) (nPos + j) (mPos + i)), scratch))
        fun nPos scratch =>
          let (s, scratch) := bb.getScale nPos k 0 scratch
          ((List.range 4).map fun i =>
            (getSubmatC m n (mPos + i) nStart + (nPos - nStart),
              logicalElement avx512Bf16 m k ba bb (s.read bb scratch.cells) nPos (mPos + i)), scratch))
      (fun mi => tokenRow avx512Bf16 m n k ba bb nStart nEnd mi) scratch

/-- `fp4_mat_vec_kgroup_natural_impl`: where the scales of four rows and of one row come from
is its template argument.  Its loop over the groups is unrolled by four. -/
def naturalImpl {σ : Type} (four : Nat → σ → (Nat → Nat → BitVec 32) × σ) (one : Nat → σ → (Nat → BitVec 32) × σ) (ith : Nat)
    (state : σ) : Stores × σ :=
  let (nStart, nEnd) := splitRangeN n ith
  if nStart ≥ nEnd then ([], state)
  else
    let activation := fun i => ba.a (BufferA.getSubmat 1 k 0 0 + i)
    let output := getSubmatC 1 n 0 nStart
    let dot := fun w act => dpbf16 act (mxfp4ToBf16x32Natural w)
    byFours nStart nEnd
      (fun ni state =>
        let (s, state) := four ni state
        ((List.range 4).map fun j =>
          (output + (ni - nStart) + j, element dot (k / 32) (s j) (fun i => bb.b (BufferB.getSubmat k (ni + j) 0 + i)) activation), state))
      (fun ni state =>
        let (s, state) := one ni state
        ([(output + (ni - nStart), element dot (k / 32) s (fun i => bb.b (BufferB.getSubmat k ni 0 + i)) activation)], state)) state

/-- `stack` is the local array of the scales before it is written. -/
def fp4MatVecKgroupNatural (stack : Nat → BitVec 32) (ith : Nat) (scratch : Scratch) : Stores × Scratch :=
  let expand := fun ni row cells => expandE8Scales (fun i => bb.d (bb.getScaleE8 ni 0 + i)) (row * maxGroupCount) (k / 32) cells
  if bb.scaleE8Valid then
    ((naturalImpl n k ba bb
      (fun ni cells =>
        let cells := expand (ni + 3) 3 (expand (ni + 2) 2 (expand (ni + 1) 1 (expand (ni + 0) 0 cells)))
        (fun j g => cells (j * maxGroupCount + g), cells))
      (fun ni cells =>
        let cells := expand ni 0 cells
        (fun g => cells (0 * maxGroupCount + g), cells)) ith stack).1, scratch)
  else
    naturalImpl n k ba bb
      (fun ni scratch =>
        let (s, scratch) := bb.getScales ni k scratch
        (fun j => (s j).read bb scratch.cells, scratch))
      (fun ni scratch =>
        let (s, scratch) := bb.getScale ni k 0 scratch
        (s.read bb scratch.cells, scratch)) ith scratch

end

/-! ## Dispatch -/

structure Config where
  avx512Bf16 : Bool
  groupSize : Nat
  expertNum : Nat
  numExpertsPerTok : Nat
  /-- The dispatch divides by it. -/
  someExperts : 0 < numExpertsPerTok

inductive Kernel where
  | matVec
  | natural
  | matMat
deriving DecidableEq, Repr

/-- The order in which a kernel reads the activations. -/
def Kernel.expects : Kernel → Order
  | .natural => .natural
  | _ => .logical

def Kernel.run (kernel : Kernel) (avx512Bf16 : Bool) (m n k : Nat) (ba : BufferA) (bb : BufferB) (stack : Nat → BitVec 32) :
    Nat → Scratch → Stores × Scratch :=
  match kernel with
  | .matVec => fp4MatVecKgroup avx512Bf16 m n k ba bb
  | .natural => fp4MatVecKgroupNatural n k ba bb stack
  | .matMat => fp4MatMatKgroup avx512Bf16 m n k ba bb

namespace Config

variable (config : Config)

def vecMulKgroup (m k : Nat) (ba : BufferA) : Kernel :=
  if config.avx512Bf16 && m = 1 && config.groupSize = 32 && k % 32 = 0 && ba.naturalOrder then .natural else .matVec

/-- `do_gate_up_gemm` and `do_down_gemm`. -/
def gemm (m k qlen : Nat) (ba : BufferA) : Kernel :=
  if qlen > 4 * config.expertNum / config.numExpertsPerTok then .matMat else config.vecMulKgroup m k ba

def prepareDecodeGateInput (hidden qlen : Nat) (input : Nat → BitVec 16) (gateUp : BufferA) : BufferA :=
  if qlen = 1 && config.groupSize = 32 && hidden % 32 = 0 then gateUp.fromMatNatural config.avx512Bf16 qlen hidden input
  else gateUp.fromMat qlen hidden input

/-- The activation itself is elementwise: `activated` is what it gives, in logical order.
Elsewhere it goes to an array of its own and leaves the buffer alone. -/
def applyDecodeActivation (intermediate qlen : Nat) (activated : Nat → BitVec 16) (down : BufferA) : BufferA :=
  if !config.avx512Bf16 || qlen ≠ 1 || config.groupSize ≠ 32 || intermediate % 32 ≠ 0 then down
  else (List.range (recommendedNth intermediate)).foldl (fun down ith =>
    let (nStart, nEnd) := splitRangeN intermediate ith
    { a := runSteps ((upTo (nEnd - nStart) 32).map fun j =>
        put (BufferA.getSubmat 1 intermediate 0 nStart + j) 32 (permuteActivationGroup fun i => activated (nStart + j + i))) down.a
      naturalOrder := true
      stored := .natural }) down

def prepareDecodeDownInput (intermediate qlen : Nat) (activated : Nat → BitVec 16) (down : BufferA) : BufferA :=
  if !config.avx512Bf16 || qlen ≠ 1 || config.groupSize ≠ 32 || intermediate % 32 ≠ 0 then down.fromMat qlen intermediate activated
  else down

end Config

/-! ## Forwards of an expert -/

structure Expert where
  gateUp : BufferA
  down : BufferA

structure Read where
  stored : Order
  expects : Order
deriving DecidableEq, Repr

/-- A kernel without groups reads none. -/
def Config.reads (config : Config) (m k qlen : Nat) (ba : BufferA) : List Read :=
  if k / 32 = 0 then [] else [⟨ba.stored, (config.gemm m k qlen ba).expects⟩]

structure Pool where
  a : Nat → BitVec 16
  left : Order

/-- A forward that an expert takes part in, with its input and what the activation gives. -/
inductive Forward where
  | prefill (qlen m : Nat) (input activated : Nat → BitVec 16) (gatePool downPool : Pool)
  | decode (input activated : Nat → BitVec 16) (gatePool downPool : Pool)

/-- The gate and the up projection read one buffer. -/
def Config.forward (config : Config) (hidden intermediate : Nat) (forward : Forward) (expert : Expert) : List Read × Expert :=
  match forward with
  | .prefill qlen m input activated gatePool downPool =>
      let gateUp := (expert.gateUp.setData gatePool.a gatePool.left).fromMat m hidden input
      let gate := config.reads m hidden qlen gateUp
      let down := (expert.down.setData downPool.a downPool.left).fromMat m intermediate activated
      (gate ++ gate ++ config.reads m intermediate qlen down, ⟨gateUp, down⟩)
  | .decode input activated gatePool downPool =>
      let qlen := 1
      let down := expert.down.setData downPool.a downPool.left
      let gateUp := config.prepareDecodeGateInput hidden qlen input (expert.gateUp.setData gatePool.a gatePool.left)
      let gate := config.reads qlen hidden qlen gateUp
      let down := config.applyDecodeActivation intermediate qlen activated down
      let down := config.prepareDecodeDownInput intermediate qlen activated down
      (gate ++ gate ++ config.reads qlen intermediate qlen down, ⟨gateUp, down⟩)

/-! ## What the kernels are for -/

/-- A weight, without its scale. -/
def weight (k : Nat) (b : Nat → BitVec 8) (ni place : Nat) : ℚ :=
  e2m1 (nibbleOf (b (ni * (k / 2) + place / 2)) place).toNat

def product (k groupSize : Nat) (src : Nat → BitVec 16) (b d : Nat → BitVec 8) (mi ni : Nat) : ℚ :=
  ∑ place ∈ Finset.range k, bf16Value (src (mi * k + place)) * weight k b ni place *
    floatValue (loadFloat d (ni * (k / groupSize) + place / groupSize))

/-- A kernel, after the activations are written in the order that it expects, leaves the
products in `BufferC`, whatever the buffers and the scratch held and however the threads run. -/
def Kernel.Computes (kernel : Kernel) (avx512Bf16 : Bool) (m n k : Nat) (bb : BufferB) (src : Nat → BitVec 16)
    (value : Nat → Nat → ℚ) : Prop :=
  ∀ (held : BufferA) (stack : Nat → Nat → BitVec 32) (scratch : Nat → Scratch) (before after : Nat → ℚ),
    let ba := match kernel.expects with
      | .logical => held.fromMat m k src
      | .natural => held.fromMatNatural avx512Bf16 m k src
    Finished (recommendedNth n) (fun ith => (kernel.run avx512Bf16 m n k ba bb (stack ith) ith (scratch ith)).1.map fun store =>
      put store.1 1 fun _ => store.2) before after →
    ∀ mi < m, ∀ ni < n, after (getSubmatC m n mi ni) = value mi ni

/-- The compaction keeps the bits of every scale, or every byte. -/
def BufferB.Compacts (bb : BufferB) : Prop :=
  let compacted := bb.finalizeScaleE8
  (compacted.scaleE8Valid = true → ∀ i < bb.n * bb.kGroupCount, expandExponent (compacted.d i) = loadFloat bb.d i) ∧
    (compacted.scaleE8Valid = false → compacted.d = bb.d)

/-- The four pointers of a block of rows show the scales of their rows. -/
def BufferB.PointsToOwn (bb : BufferB) (d : Nat → BitVec 8) : Prop :=
  ∀ nPos, nPos + 4 ≤ bb.n → ∀ scratch,
    let (pointers, after) := bb.getScales nPos bb.k scratch
    ∀ j < 4, ∀ g < bb.kGroupCount, (pointers j).read bb after.cells g = loadFloat d ((nPos + j) * bb.kGroupCount + g)

structure Config.KernelsAgree (config : Config) (m n k : Nat) : Prop where
  computes : ∀ b d bb, BufferB.init n k config.groupSize b d = .ok bb →
    ∀ kernel : Kernel, (kernel = .natural → config.avx512Bf16 = true ∧ m = 1 ∧ config.groupSize = 32) →
    ∀ src, kernel.Computes config.avx512Bf16 m n k bb.finalizeScaleE8 src (product k config.groupSize src b d)
  compacts : ∀ b d bb, BufferB.init n k config.groupSize b d = .ok bb → bb.Compacts
  pointsToOwn : 0 < m → ∀ b d bb, BufferB.init n k config.groupSize b d = .ok bb → bb.finalizeScaleE8.PointsToOwn d
  /-- In every run of an expert, a kernel that reads activations in natural order expects them so. -/
  order : ∀ hidden intermediate b b' d d' gateBb downBb,
    BufferB.init intermediate hidden config.groupSize b d = .ok gateBb →
    BufferB.init hidden intermediate config.groupSize b' d' = .ok downBb →
    ∀ expert forwards, ∀ read ∈ (gather forwards (config.forward hidden intermediate) expert).1,
      read.stored = .natural → read.expects = .natural

end KtKernel.Amx.Mxfp4
