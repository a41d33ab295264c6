import Mathlib.Tactic.IntervalCases
import KtKernel.Data.Binary32
import KtKernel.Data.Checks
import KtKernel.Data.Tiling

namespace KtKernel.Convert.Mxfp4

open KtKernel.Data

/-! The MXFP4 experts of a layer in the blocks of a GGUF file, and the two decoders that the
check of the file compares.

Floats are built from their bits and read as rational numbers; products are exact.
-/

structure Array2 (α : Type) where
  rows : Nat
  columns : Nat
  entry : Nat → Nat → α

structure Array3 (α : Type) where
  first : Nat
  second : Nat
  third : Nat
  entry : Nat → Nat → Nat → α

def Array3.expert (array : Array3 α) (e : Nat) : Array2 α :=
  ⟨array.second, array.third, array.entry e⟩

/-- Arrays of one shape with the same entries. -/
structure Array2.Same (array other : Array2 α) : Prop where
  rows : array.rows = other.rows
  columns : array.columns = other.columns
  entry : ∀ n < array.rows, ∀ k < array.columns, array.entry n k = other.entry n k

inductive BuildError where
  | assertion
  | keyError
  | fileNotFound
  | safetensorError
  | valueError
deriving DecidableEq, Repr

/-! ## The converter -/

/-- Byte `i` of a row holds positions `2i` and `2i+1`; byte `j` of a repacked group holds
positions `j` and `j+16`. -/
def repackConsecutiveToHalfblock (w : Array2 UInt8) : Except BuildError (Array2 UInt8) := do
  require (w.columns % 16 = 0) BuildError.assertion
  let lo (n b i : Nat) : UInt8 := w.entry n (b * 16 + i) &&& 0x0F
  let hi (n b i : Nat) : UInt8 := (w.entry n (b * 16 + i) >>> 4) &&& 0x0F
  let nib (n b k : Nat) : UInt8 := if k % 2 = 0 then lo n b (k / 2) else hi n b (k / 2)
  return ⟨w.rows, w.columns, fun n j => nib n (j / 16) (j % 16) ||| (nib n (j / 16) (16 + j % 16) <<< 4)⟩

structure Checkpoint where
  weightMap : List (String × String)
  /-- The tensors of the files.  A file that is opened twice has the same tensors. -/
  shards : String → Option (String → Option (Array2 UInt8))

def openShard (checkpoint : Checkpoint) (key : String) : Except BuildError (String → Option (Array2 UInt8)) := do
  let shard ← expectSome (checkpoint.weightMap.lookup key) BuildError.keyError
  expectSome (checkpoint.shards shard) BuildError.fileNotFound

def weightKey (expertsPrefix projName : String) (e : Nat) : String :=
  expertsPrefix ++ "." ++ toString e ++ "." ++ projName ++ ".weight"

def scaleKey (expertsPrefix projName : String) (e : Nat) : String :=
  expertsPrefix ++ "." ++ toString e ++ "." ++ projName ++ ".scale"

/-- The blocks of an expert.  The scales are looked for in the file of the weights. -/
def buildExpert (checkpoint : Checkpoint) (expertsPrefix projName : String) (e : Nat) : Except BuildError (Array2 UInt8) := do
  let wk := weightKey expertsPrefix projName e
  let sk := scaleKey expertsPrefix projName e
  let h ← openShard checkpoint wk
  let w ← expectSome (h wk) BuildError.safetensorError
  let s ← expectSome (h sk) BuildError.safetensorError
  let nb := w.columns / 16
  require (s.rows = w.rows && s.columns = nb) BuildError.assertion
  let qs ← repackConsecutiveToHalfblock w
  let block (n b i : Nat) := if i = 0 then s.entry n b else qs.entry n (b * 16 + (i - 1))
  return ⟨w.rows, nb * 17, fun n j => block n (j / 17) (j % 17)⟩

/-- `_build_proj_tensor` -/
def buildProjTensor (checkpoint : Checkpoint) (expertsPrefix projName : String) (numExperts : Nat) :
    Except BuildError (Array3 UInt8) := do
  let rows ← (List.range numExperts).mapM (buildExpert checkpoint expertsPrefix projName)
  match rows with
  | [] => .error .valueError
  | first :: rest =>
      if rest.all fun block => block.rows = first.rows && block.columns = first.columns then
        return ⟨rows.length, first.rows, first.columns, fun e => (rows.getD e first).entry⟩
      else .error .valueError

/-! ## The decoders -/

def fp4Table : List ℚ :=
  [0, 1 / 2, 1, 3 / 2, 2, 3, 4, 6, 0, -1 / 2, -1, -3 / 2, -2, -3, -4, -6]

def kvaluesMxfp4 : List ℤ :=
  [0, 1, 2, 3, 4, 6, 8, 12, 0, -1, -2, -3, -4, -6, -8, -12]

def e8m0ToFp32 (e : UInt8) : Binary32 :=
  ⟨e.toUInt32 <<< 23⟩

def e8m0ToFp32Half (e : UInt8) : Binary32 :=
  ⟨if e.toUInt32 < 2 then 0x00200000 <<< e.toUInt32 else (e.toUInt32 - 1) <<< 23⟩

/-- The scales that NumPy would repeat along a dimension of one are not covered. -/
def dequantNative (w s : Array2 UInt8) : Except BuildError (Array2 (Option ℚ)) := do
  let K := w.columns * 2
  let lo (n i : Nat) : ℚ := fp4Table.getD (w.entry n i &&& (0x0F : UInt8)).toNat 0
  let hi (n i : Nat) : ℚ := fp4Table.getD (w.entry n i >>> (4 : UInt8)).toNat 0
  let vals (n k : Nat) : ℚ := if k % 2 = 0 then lo n (k / 2) else hi n (k / 2)
  require (s.rows = w.rows && s.columns * 32 = K) BuildError.valueError
  return ⟨w.rows, K, fun n k => (e8m0ToFp32 (s.entry n (k / 32))).value.map (vals n k * ·)⟩

def dequantGgufBlocks (packedRow : Array2 UInt8) (K : Nat) : Except BuildError (Array2 (Option ℚ)) := do
  let N := packedRow.rows
  let nb := K / 32
  require (N * packedRow.columns = N * nb * 17) BuildError.valueError
  let blk (n b i : Nat) := packedRow.entry n (b * 17 + i)
  let lo (n b j : Nat) : ℚ := kvaluesMxfp4.getD (blk n b (1 + j) &&& (0x0F : UInt8)).toNat 0
  let hi (n b j : Nat) : ℚ := kvaluesMxfp4.getD (blk n b (1 + j) >>> (4 : UInt8)).toNat 0
  let g (n b k : Nat) := (e8m0ToFp32Half (blk n b 0)).value.map fun half =>
    if k < 16 then lo n b k * half else hi n b (k - 16) * half
  require (N * (nb * 32) = N * K) BuildError.valueError
  return ⟨N, K, fun n k => g n (k / 32) (k % 32)⟩

/-! ## What a conversion preserves -/

/-- The inverse order of the nibbles of a group. -/
def halfblockToConsecutive (q : Array2 UInt8) : Array2 UInt8 :=
  let nib (n b k : Nat) : UInt8 :=
    if k < 16 then q.entry n (b * 16 + k) &&& 0x0F else (q.entry n (b * 16 + (k - 16)) >>> 4) &&& 0x0F
  ⟨q.rows, q.columns, fun n i => nib n (i / 16) (2 * (i % 16)) ||| (nib n (i / 16) (2 * (i % 16) + 1) <<< 4)⟩

/-- The nibble at a position of a row. -/
def nibble (w : Nat → Nat → UInt8) (n k : Nat) : UInt8 :=
  if k % 2 = 0 then w n (k / 2) &&& 0x0F else (w n (k / 2) >>> 4) &&& 0x0F

/-- The blocks of a projection hold what the experts hold: the order of the nibbles can be
undone, a scale stands before the 16 bytes of its group, and both decoders read the same numbers. -/
structure Preserved (numExperts : Nat) (w s : Nat → Array2 UInt8) (packed : Array3 UInt8) : Prop where
  inverse : ∀ array : Array2 UInt8, 16 ∣ array.columns →
    ∃ q, repackConsecutiveToHalfblock array = .ok q ∧ (halfblockToConsecutive q).Same array
  injective : ∀ array other q q', repackConsecutiveToHalfblock array = .ok q → repackConsecutiveToHalfblock other = .ok q' →
    q.Same q' → array.Same other
  shape : packed.first = numExperts ∧ ∀ e < numExperts, packed.second = (w e).rows ∧ packed.third = (w e).columns / 16 * 17
  blocks : ∀ e < numExperts, ∃ q, repackConsecutiveToHalfblock (w e) = .ok q ∧ ∀ n < (w e).rows, ∀ b < (w e).columns / 16,
    packed.entry e n (b * 17) = (s e).entry n b ∧
      ∀ j < 16, packed.entry e n (b * 17 + 1 + j) = q.entry n (b * 16 + j)
  decodes : ∀ e < numExperts, ∃ native gguf, dequantNative (w e) (s e) = .ok native ∧
    dequantGgufBlocks (packed.expert e) ((w e).columns * 2) = .ok gguf ∧ gguf.Same native ∧
      ∀ n < (w e).rows, ∀ k < (w e).columns * 2, (native.entry n k).isSome

/-- The file of the weights of an expert holds its weights and its scales. -/
structure Stored (checkpoint : Checkpoint) (expertsPrefix projName : String) (e : Nat) (w s : Array2 UInt8) : Prop where
  stored : ∃ h, openShard checkpoint (weightKey expertsPrefix projName e) = .ok h ∧
    h (weightKey expertsPrefix projName e) = some w ∧ h (scaleKey expertsPrefix projName e) = some s

/-- Where the scale is 0, the weights are 0. -/
def ZerosUnscaled (numExperts : Nat) (w s : Nat → Array2 UInt8) : Prop :=
  ∀ e < numExperts, ∀ n < (w e).rows, ∀ b < (s e).columns, (s e).entry n b = 0 →
    ∀ k < 32, nibble (w e).entry n (b * 32 + k) = 0 ∨ nibble (w e).entry n (b * 32 + k) = 8

/-! ## Nibbles -/

section

variable (byte low high : UInt8)

theorem low_of_nibbles :
    ((low &&& (0x0F : UInt8)) ||| ((high &&& (0x0F : UInt8)) <<< (4 : UInt8))) &&& (0x0F : UInt8) = low &&& (0x0F : UInt8) := by
  apply UInt8.toBitVec_inj.mp
  ext place inside
  interval_cases place <;> simp

theorem high_of_nibbles :
    (((low &&& (0x0F : UInt8)) ||| ((high &&& (0x0F : UInt8)) <<< (4 : UInt8))) >>> (4 : UInt8)) &&& (0x0F : UInt8) =
      high &&& (0x0F : UInt8) := by
  apply UInt8.toBitVec_inj.mp
  ext place inside
  interval_cases place <;> simp

theorem byte_of_nibbles :
    (byte &&& (0x0F : UInt8)) ||| ((byte >>> (4 : UInt8) &&& (0x0F : UInt8)) <<< (4 : UInt8)) = byte := by
  apply UInt8.toBitVec_inj.mp
  ext place inside
  interval_cases place <;> simp

theorem high_masked : byte >>> (4 : UInt8) &&& (0x0F : UInt8) = byte >>> (4 : UInt8) := by
  apply UInt8.toBitVec_inj.mp
  ext place inside
  interval_cases place <;> simp

end

variable {w : Nat → Nat → UInt8} {n k b i : Nat}

theorem nibble_masked (w : Nat → Nat → UInt8) (n k : Nat) : nibble w n k &&& (0x0F : UInt8) = nibble w n k := by
  rw [nibble]
  split
  · rw [UInt8.and_assoc, UInt8.and_self]
  · rw [UInt8.and_assoc, UInt8.and_self]

theorem nibble_lt (w : Nat → Nat → UInt8) (n k : Nat) : (nibble w n k).toNat < 16 := by
  rw [← nibble_masked, UInt8.toNat_and]
  exact Nat.and_lt_two_pow (n := 4) _ (by decide)

/-! ## The order of the nibbles -/

/-- A byte of a repacked row. -/
def repacked (w : Nat → Nat → UInt8) (n j : Nat) : UInt8 :=
  nibble w n (j / 16 * 32 + j % 16) ||| (nibble w n (j / 16 * 32 + (16 + j % 16)) <<< (4 : UInt8))

theorem nibble_group (w : Nat → Nat → UInt8) (n group place : Nat) :
    nibble w n (group * 32 + place) =
      if place % 2 = 0 then w n (group * 16 + place / 2) &&& (0x0F : UInt8)
      else (w n (group * 16 + place / 2) >>> (4 : UInt8)) &&& (0x0F : UInt8) := by
  have parity : (group * 32 + place) % 2 = place % 2 := by omega
  have half : (group * 32 + place) / 2 = group * 16 + place / 2 := by omega
  rw [nibble, parity, half]

theorem repack_ok {array : Array2 UInt8} (groups : 16 ∣ array.columns) :
    repackConsecutiveToHalfblock array = .ok ⟨array.rows, array.columns, repacked array.entry⟩ := by
  rw [repackConsecutiveToHalfblock, require_bind_ok]
  refine ⟨decide_eq_true (Nat.mod_eq_zero_of_dvd groups), ?_⟩
  apply congrArg (fun entry => Except.ok (Array2.mk array.rows array.columns entry))
  funext n j
  rw [repacked, nibble_group, nibble_group]

theorem repack_columns {array q : Array2 UInt8} (packed : repackConsecutiveToHalfblock array = .ok q) : 16 ∣ array.columns := by
  rw [repackConsecutiveToHalfblock, require_bind_ok] at packed
  exact Nat.dvd_of_mod_eq_zero (of_decide_eq_true packed.1)

/-- Each half byte of a repacked group is the nibble at its position. -/
theorem nibble_repacked (w : Nat → Nat → UInt8) (n b : Nat) (inside : k < 32) :
    (if k < 16 then repacked w n (b * 16 + k) &&& (0x0F : UInt8)
      else (repacked w n (b * 16 + (k - 16)) >>> (4 : UInt8)) &&& (0x0F : UInt8)) = nibble w n (b * 32 + k) := by
  split
  · next low =>
      rw [repacked, pairIndex_div b low, pairIndex_mod b low, ← nibble_masked w n (b * 32 + k),
        ← nibble_masked w n (b * 32 + (16 + k)), low_of_nibbles, nibble_masked]
  · next high =>
      have inGroup : k - 16 < 16 := by omega
      have position : 16 + (k - 16) = k := by omega
      rw [repacked, pairIndex_div b inGroup, pairIndex_mod b inGroup, position, ← nibble_masked w n (b * 32 + k),
        ← nibble_masked w n (b * 32 + (k - 16)), high_of_nibbles]

theorem consecutive_repacked (w : Nat → Nat → UInt8) (rows columns n i : Nat) :
    (halfblockToConsecutive ⟨rows, columns, repacked w⟩).entry n i = w n i := by
  have inGroup : i % 16 < 16 := Nat.mod_lt _ (by decide)
  have even : i / 16 * 32 + 2 * (i % 16) = 2 * i := by omega
  have odd : i / 16 * 32 + (2 * (i % 16) + 1) = 2 * i + 1 := by omega
  have first : nibble w n (2 * i) = w n i &&& (0x0F : UInt8) := by
    rw [nibble, if_pos (by omega), Nat.mul_div_cancel_left i (by decide)]
  have second : nibble w n (2 * i + 1) = w n i >>> (4 : UInt8) &&& (0x0F : UInt8) := by
    rw [nibble, if_neg (by omega), show (2 * i + 1) / 2 = i by omega]
  rw [halfblockToConsecutive]
  dsimp only
  rw [nibble_repacked w n _ (by omega), nibble_repacked w n _ (by omega), even, odd, first, second, byte_of_nibbles]

theorem consecutive_congr {q q' : Array2 UInt8} (groups : 16 ∣ q.columns) (same : q.Same q') (inRows : n < q.rows)
    (inColumns : i < q.columns) : (halfblockToConsecutive q).entry n i = (halfblockToConsecutive q').entry n i := by
  have group : ∀ place < 16, q.entry n (i / 16 * 16 + place) = q'.entry n (i / 16 * 16 + place) := by
    intro place inGroup
    exact same.entry n inRows _ (by omega)
  have nibbles : ∀ k < 32,
      (if k < 16 then q.entry n (i / 16 * 16 + k) &&& (0x0F : UInt8)
        else (q.entry n (i / 16 * 16 + (k - 16)) >>> (4 : UInt8)) &&& (0x0F : UInt8)) =
      (if k < 16 then q'.entry n (i / 16 * 16 + k) &&& (0x0F : UInt8)
        else (q'.entry n (i / 16 * 16 + (k - 16)) >>> (4 : UInt8)) &&& (0x0F : UInt8)) := by
    intro k inside
    split
    · next low => rw [group k low]
    · next high => rw [group (k - 16) (by omega)]
  rw [halfblockToConsecutive, halfblockToConsecutive]
  dsimp only
  rw [nibbles (2 * (i % 16)) (by omega), nibbles (2 * (i % 16) + 1) (by omega)]

theorem repack_inverse {array : Array2 UInt8} (groups : 16 ∣ array.columns) :
    ∃ q, repackConsecutiveToHalfblock array = .ok q ∧ (halfblockToConsecutive q).Same array :=
  ⟨_, repack_ok groups, rfl, rfl, fun n _ i _ => consecutive_repacked array.entry array.rows array.columns n i⟩

theorem repack_injective {array other q q' : Array2 UInt8} (packed : repackConsecutiveToHalfblock array = .ok q)
    (packed' : repackConsecutiveToHalfblock other = .ok q') (same : q.Same q') : array.Same other := by
  have groups := repack_columns packed
  rw [repack_ok groups] at packed
  rw [repack_ok (repack_columns packed')] at packed'
  cases packed
  cases packed'
  refine ⟨same.rows, same.columns, fun n inRows i inColumns => ?_⟩
  have undone := consecutive_congr (q := ⟨array.rows, array.columns, repacked array.entry⟩) groups same inRows inColumns
  rw [consecutive_repacked, consecutive_repacked] at undone
  exact undone

section

variable (e : UInt8)

theorem e8m0ToFp32_zero : (e8m0ToFp32 0).value = some 0 :=
  Binary32.value_zero rfl

theorem e8m0ToFp32_power {e : UInt8} (some_ : e ≠ 0) (finite : e ≤ 254) :
    (e8m0ToFp32 e).value = some (2 ^ ((e.toNat : ℤ) - 127)) := by
  have positive : 0 < e.toNat := Nat.pos_of_ne_zero fun none => some_ (UInt8.toNat_inj.mp none)
  have bound : e.toNat ≤ 254 := finite
  apply Binary32.value_exponent positive (by omega)
  rw [e8m0ToFp32, UInt32.toNat_shiftLeft, UInt8.toNat_toUInt32, Nat.shiftLeft_eq]
  exact Nat.mod_eq_of_lt (show e.toNat * 2 ^ 23 < 2 ^ 32 by omega)

/-- Both ends of the format are covered: the halves of the two smallest scales are no normal floats. -/
theorem e8m0ToFp32Half_power : (e8m0ToFp32Half e).value = some (2 ^ ((e.toNat : ℤ) - 128)) := by
  have bound : e.toNat < 256 := e.toNat_lt
  by_cases small : e.toUInt32 < 2
  · have below : e.toNat < 2 := small
    have place : (21 + e.toNat : ℕ) - (149 : ℤ) = (e.toNat : ℤ) - 128 := by omega
    rw [← place, e8m0ToFp32Half, if_pos small]
    apply Binary32.value_fraction (by omega)
    rw [UInt32.toNat_shiftLeft, UInt8.toNat_toUInt32, Nat.shiftLeft_eq, pow_add, Nat.mod_eq_of_lt (show e.toNat < 32 by omega)]
    have double : 2 ^ e.toNat ≤ 2 ^ 1 := Nat.pow_le_pow_right (by decide) (by omega)
    exact Nat.mod_eq_of_lt (by rw [show UInt32.toNat 2097152 = 2 ^ 21 from rfl]; omega)
  · have above : 2 ≤ e.toNat := Nat.le_of_not_lt small
    have place : ((e.toNat - 1 : ℕ) : ℤ) - 127 = (e.toNat : ℤ) - 128 := by omega
    rw [← place, e8m0ToFp32Half, if_neg small]
    apply Binary32.value_exponent (by omega) (by omega)
    have less : (e.toUInt32 - 1).toNat = e.toNat - 1 :=
      UInt32.toNat_sub_of_le _ _ (by rw [UInt32.le_iff_toNat_le]; exact (show 1 ≤ e.toNat by omega))
    rw [UInt32.toNat_shiftLeft, less, Nat.shiftLeft_eq]
    exact Nat.mod_eq_of_lt (show (e.toNat - 1) * 2 ^ 23 < 2 ^ 32 by omega)

end

/-! ## Weights -/

def fp4Value (code : UInt8) : ℚ :=
  fp4Table.getD code.toNat 0

theorem kvalues_double {code : UInt8} (inTable : code.toNat < 16) : (kvaluesMxfp4.getD code.toNat 0 : ℚ) = fp4Value code * 2 := by
  rw [fp4Value]
  generalize code.toNat = place at inTable
  interval_cases place <;> norm_num [kvaluesMxfp4, fp4Table]

theorem fp4Value_zero_iff {code : UInt8} (inTable : code.toNat < 16) : fp4Value code = 0 ↔ code = 0 ∨ code = 8 := by
  rw [← UInt8.toNat_inj, ← UInt8.toNat_inj, fp4Value, show UInt8.toNat 0 = 0 from rfl, show UInt8.toNat 8 = 8 from rfl]
  generalize code.toNat = place at inTable
  interval_cases place <;> norm_num [fp4Table]

/-- What both decoders make of a weight and its scale. -/
theorem decoded_eq_iff {code scale : UInt8} (inTable : code.toNat < 16) (finite : scale ≤ 254) :
    ((e8m0ToFp32Half scale).value.map ((kvaluesMxfp4.getD code.toNat 0 : ℚ) * ·) =
      (e8m0ToFp32 scale).value.map (fp4Value code * ·)) ↔ (scale = 0 → code = 0 ∨ code = 8) := by
  rw [e8m0ToFp32Half_power, kvalues_double inTable, Option.map_some]
  by_cases none : scale = 0
  · subst none
    rw [e8m0ToFp32_zero, Option.map_some, Option.some.injEq, mul_zero, ← fp4Value_zero_iff inTable]
    simp
  · have halved : (2 : ℚ) * 2 ^ ((scale.toNat : ℤ) - 128) = 2 ^ ((scale.toNat : ℤ) - 127) := by
      rw [← zpow_one_add₀ (by decide)]
      congr 1
      ring
    rw [e8m0ToFp32_power none finite, Option.map_some, mul_assoc, halved]
    exact ⟨fun _ zero => absurd zero none, fun _ => rfl⟩

theorem dequantNative_ok {weights scales : Array2 UInt8} (rows : scales.rows = weights.rows)
    (groups : scales.columns * 32 = weights.columns * 2) :
    dequantNative weights scales = .ok ⟨weights.rows, weights.columns * 2, fun n k =>
      (e8m0ToFp32 (scales.entry n (k / 32))).value.map (fp4Value (nibble weights.entry n k) * ·)⟩ := by
  simp only [dequantNative]
  rw [require_bind_ok]
  refine ⟨by simp [rows, groups], ?_⟩
  apply congrArg (fun entry => Except.ok (Array2.mk weights.rows (weights.columns * 2) entry))
  funext n k
  rw [nibble]
  split
  · rfl
  · rw [high_masked]
    rfl

/-- A row of blocks: the scale of each group before the bytes of the group. -/
def blockRow (w s : Nat → Nat → UInt8) (n j : Nat) : UInt8 :=
  if j % 17 = 0 then s n (j / 17) else repacked w n (j / 17 * 16 + (j % 17 - 1))

theorem blockRow_scale (w s : Nat → Nat → UInt8) (n b : Nat) : blockRow w s n (b * 17) = s n b := by
  rw [blockRow, Nat.mul_mod_left, if_pos rfl, Nat.mul_div_cancel b (by decide)]

theorem blockRow_byte (w s : Nat → Nat → UInt8) (n b : Nat) {j : Nat} (inside : j < 16) :
    blockRow w s n (b * 17 + (1 + j)) = repacked w n (b * 16 + j) := by
  rw [blockRow, pairIndex_mod b (by omega), pairIndex_div b (by omega), if_neg (by omega), Nat.add_sub_cancel_left]

theorem dequantGgufBlocks_ok (packedRow : Array2 UInt8) {nb : Nat} {w s : Nat → Nat → UInt8}
    (blocks : packedRow.columns = nb * 17) (entries : packedRow.entry = blockRow w s) :
    dequantGgufBlocks packedRow (nb * 32) = .ok ⟨packedRow.rows, nb * 32, fun n k =>
      (e8m0ToFp32Half (s n (k / 32))).value.map ((kvaluesMxfp4.getD (nibble w n k).toNat 0 : ℚ) * ·)⟩ := by
  simp only [dequantGgufBlocks]
  rw [Nat.mul_div_cancel nb (by decide), blocks, require_bind_ok]
  refine ⟨decide_eq_true (Nat.mul_assoc _ _ _).symm, ?_⟩
  rw [require_bind_ok]
  refine ⟨decide_eq_true rfl, ?_⟩
  apply congrArg (fun entry => Except.ok (Array2.mk packedRow.rows (nb * 32) entry))
  funext n k
  have inGroup : k % 32 < 32 := Nat.mod_lt _ (by decide)
  have half := nibble_repacked w n (k / 32) inGroup
  rw [Nat.div_add_mod'] at half
  rw [entries, Nat.add_zero, blockRow_scale, ← half]
  congr 1
  funext scale
  split
  · next low => rw [blockRow_byte w s n _ low]
  · next high => rw [blockRow_byte w s n _ (show k % 32 - 16 < 16 by omega), high_masked]

/-! ## Experts -/

section

variable {checkpoint : Checkpoint} {expertsPrefix projName : String} {numExperts N nb : Nat} {w s : Nat → Array2 UInt8}

/-- The shapes of an expert of `nb` groups in a row. -/
structure Shaped (N nb : Nat) (w s : Array2 UInt8) : Prop where
  rows : w.rows = N
  columns : w.columns = nb * 16
  scaleRows : s.rows = N
  groups : s.columns = nb

theorem buildExpert_ok {e : Nat} {w s : Array2 UInt8} (stored : Stored checkpoint expertsPrefix projName e w s)
    (shaped : Shaped N nb w s) :
    buildExpert checkpoint expertsPrefix projName e = .ok ⟨N, nb * 17, blockRow w.entry s.entry⟩ := by
  obtain ⟨h, opened, weights, scales⟩ := stored.stored
  have groups : 16 ∣ w.columns := ⟨nb, by rw [shaped.columns, Nat.mul_comm]⟩
  have count : w.columns / 16 = nb := by rw [shaped.columns, Nat.mul_div_cancel nb (by decide)]
  simp only [buildExpert]
  rw [bind_ok]
  refine ⟨h, opened, ?_⟩
  rw [expectSome_bind_ok]
  refine ⟨w, weights, ?_⟩
  rw [expectSome_bind_ok]
  refine ⟨s, scales, ?_⟩
  rw [require_bind_ok, bind_ok]
  refine ⟨by simp [shaped.rows, shaped.scaleRows, shaped.groups, count], _, repack_ok groups, ?_⟩
  rw [count, shaped.rows]
  rfl

theorem buildProjTensor_eq (stored : ∀ e < numExperts, Stored checkpoint expertsPrefix projName e (w e) (s e))
    (shaped : ∀ e < numExperts, Shaped N nb (w e) (s e)) (some_ : 0 < numExperts) :
    ∃ packed, buildProjTensor checkpoint expertsPrefix projName numExperts = .ok packed ∧
      packed.first = numExperts ∧ packed.second = N ∧ packed.third = nb * 17 ∧
        ∀ e < numExperts, packed.entry e = blockRow (w e).entry (s e).entry := by
  have rows : (List.range numExperts).mapM (buildExpert checkpoint expertsPrefix projName) =
      .ok ((List.range numExperts).map fun e => ⟨N, nb * 17, blockRow (w e).entry (s e).entry⟩) := by
    apply mapM_values
    intro e member
    have inside := List.mem_range.mp member
    exact buildExpert_ok (stored e inside) (shaped e inside)
  have count : ((List.range numExperts).map fun e =>
      (⟨N, nb * 17, blockRow (w e).entry (s e).entry⟩ : Array2 UInt8)).length = numExperts := by
    rw [List.length_map, List.length_range]
  have each : ∀ block ∈ (List.range numExperts).map fun e => (⟨N, nb * 17, blockRow (w e).entry (s e).entry⟩ : Array2 UInt8),
      block.rows = N ∧ block.columns = nb * 17 := by
    intro block member
    obtain ⟨e, -, rfl⟩ := List.mem_map.mp member
    exact ⟨rfl, rfl⟩
  have found : ∀ e < numExperts, ((List.range numExperts).map fun e =>
      (⟨N, nb * 17, blockRow (w e).entry (s e).entry⟩ : Array2 UInt8))[e]? = some ⟨N, nb * 17, blockRow (w e).entry (s e).entry⟩ := by
    intro e inside
    rw [List.getElem?_map, List.getElem?_range inside, Option.map_some]
  generalize ((List.range numExperts).map fun e => (⟨N, nb * 17, blockRow (w e).entry (s e).entry⟩ : Array2 UInt8)) = blocks
    at rows count each found
  cases blocks with
  | nil => exact absurd count (by simp; omega)
  | cons first rest =>
      obtain ⟨firstRows, firstColumns⟩ := each first List.mem_cons_self
      have same : (rest.all fun block => block.rows = first.rows && block.columns = first.columns) = true := by
        rw [List.all_eq_true]
        intro block member
        obtain ⟨blockRows, blockColumns⟩ := each block (List.mem_cons_of_mem _ member)
        simp [blockRows, blockColumns, firstRows, firstColumns]
      refine ⟨_, bind_ok.mpr ⟨_, rows, if_pos same⟩, count, firstRows, firstColumns, ?_⟩
      intro e inside
      dsimp only
      rw [List.getD_eq_getElem?_getD, found e inside, Option.getD_some]

/-- Nothing is built for no experts: `np.stack` wants an array. -/
theorem buildProjTensor_none : buildProjTensor checkpoint expertsPrefix projName 0 = .error .valueError := by
  rfl

/-- The entries of both decoders at a position. -/
theorem decodes_eq_iff {w s : Array2 UInt8} (packedRow : Array2 UInt8) (shaped : Shaped N nb w s)
    (rows : packedRow.rows = N) (columns : packedRow.columns = nb * 17) (entries : packedRow.entry = blockRow w.entry s.entry)
    (finite : ∀ n < N, ∀ b < nb, s.entry n b ≤ 254) :
    (∃ native gguf, dequantNative w s = .ok native ∧ dequantGgufBlocks packedRow (w.columns * 2) = .ok gguf ∧ gguf.Same native ∧
      ∀ n < w.rows, ∀ k < w.columns * 2, (native.entry n k).isSome) ↔
    ∀ n < N, ∀ b < nb, s.entry n b = 0 → ∀ k < 32, nibble w.entry n (b * 32 + k) = 0 ∨ nibble w.entry n (b * 32 + k) = 8 := by
  have width : w.columns * 2 = nb * 32 := by rw [shaped.columns, Nat.mul_assoc]
  rw [dequantNative_ok (shaped.scaleRows.trans shaped.rows.symm) (by rw [shaped.groups, width]), width,
    dequantGgufBlocks_ok packedRow columns entries]
  constructor
  · rintro ⟨native, gguf, isNative, isGguf, same, -⟩ n inRows b inside zero k inGroup
    cases isNative
    cases isGguf
    have inColumns : b * 32 + k < nb * 32 := by omega
    have equal := same.entry n (by rw [rows]; exact inRows) (b * 32 + k) inColumns
    dsimp only at equal
    rw [pairIndex_div b inGroup, decoded_eq_iff (nibble_lt _ _ _) (finite n inRows b inside)] at equal
    exact equal zero
  · intro zeros
    refine ⟨_, _, rfl, rfl, ⟨rows.trans shaped.rows.symm, rfl, ?_⟩, ?_⟩
    · intro n inRows k inColumns
      dsimp only at inRows inColumns ⊢
      rw [rows] at inRows
      have inside : k / 32 < nb := by omega
      rw [decoded_eq_iff (nibble_lt _ _ _) (finite n inRows _ inside)]
      intro zero
      have own := zeros n inRows (k / 32) inside zero (k % 32) (Nat.mod_lt _ (by decide))
      rw [Nat.div_add_mod'] at own
      exact own
    · intro n inRows k inColumns
      dsimp only
      rw [shaped.rows] at inRows
      by_cases zero : s.entry n (k / 32) = 0
      · rw [zero, e8m0ToFp32_zero]
        rfl
      · rw [e8m0ToFp32_power zero (finite n inRows _ (by omega))]
        rfl

end

/-- Repacking preserves the weights of all experts exactly when every group with the scale
byte 0 holds zeros: its bits make the scale 0, while half of it is taken for 2 ^ -128. -/
theorem repacking_preserves_iff (checkpoint : Checkpoint) (expertsPrefix projName : String) (numExperts N nb : Nat)
    (w s : Nat → Array2 UInt8) (stored : ∀ e < numExperts, Stored checkpoint expertsPrefix projName e (w e) (s e))
    (shaped : ∀ e < numExperts, Shaped N nb (w e) (s e))
    (finite : ∀ e < numExperts, ∀ n < N, ∀ b < nb, (s e).entry n b ≤ 254) :
    (0 < numExperts → ∃ packed, buildProjTensor checkpoint expertsPrefix projName numExperts = .ok packed) ∧
      ∀ packed, buildProjTensor checkpoint expertsPrefix projName numExperts = .ok packed →
        (Preserved numExperts w s packed ↔ ZerosUnscaled numExperts w s) := by
  by_cases some_ : 0 < numExperts
  · obtain ⟨packed, built, first, second, third, entries⟩ := buildProjTensor_eq stored shaped some_
    refine ⟨fun _ => ⟨packed, built⟩, ?_⟩
    intro packed' built'
    rw [built] at built'
    cases built'
    have decoded : ∀ e (inside : e < numExperts), _ := fun e inside =>
      decodes_eq_iff (packed.expert e) (shaped e inside) second third (entries e inside) (finite e inside)
    constructor
    · intro preserved e inside
      rw [(shaped e inside).rows, (shaped e inside).groups]
      exact (decoded e inside).mp (preserved.decodes e inside)
    · intro zeros
      refine ⟨fun array groups => repack_inverse groups, fun _ _ _ _ => repack_injective, ⟨first, ?_⟩, ?_, ?_⟩
      · intro e inside
        rw [second, third, (shaped e inside).rows, (shaped e inside).columns, Nat.mul_div_cancel nb (by decide)]
        exact ⟨rfl, rfl⟩
      · intro e inside
        refine ⟨_, repack_ok ⟨nb, by rw [(shaped e inside).columns, Nat.mul_comm]⟩, ?_⟩
        intro n inRows b inColumns
        rw [entries e inside]
        refine ⟨blockRow_scale _ _ n b, ?_⟩
        intro j inGroup
        rw [Nat.add_assoc, blockRow_byte _ _ n b inGroup]
      · intro e inside
        have own := zeros e inside
        rw [(shaped e inside).rows, (shaped e inside).groups] at own
        exact (decoded e inside).mpr own
  · obtain rfl : numExperts = 0 := by omega
    refine ⟨fun none => absurd none some_, ?_⟩
    intro packed built
    rw [buildProjTensor_none] at built
    cases built

/-- An expert of one group: every weight has the code 2 and every scale byte is `scale`. -/
def oneGroup (scale : UInt8) : Checkpoint where
  weightMap := [("layers.0.ffn.experts.0.w1.weight", "model.safetensors"), ("layers.0.ffn.experts.0.w1.scale", "model.safetensors")]
  shards := fun file => if file = "model.safetensors" then some fun key =>
      if key = "layers.0.ffn.experts.0.w1.weight" then some ⟨1, 16, fun _ _ => 0x22⟩
      else if key = "layers.0.ffn.experts.0.w1.scale" then some ⟨1, 1, fun _ _ => scale⟩ else none
    else none

theorem stored_oneGroup (scale : UInt8) : ∀ e < 1,
    Stored (oneGroup scale) "layers.0.ffn.experts" "w1" e ⟨1, 16, fun _ _ => 0x22⟩ ⟨1, 1, fun _ _ => scale⟩ := by
  intro e inside
  obtain rfl : e = 0 := by omega
  exact ⟨_, rfl, rfl, rfl⟩

theorem repacking_preserves_iff_one_group :
    ∃ packed, buildProjTensor (oneGroup 127) "layers.0.ffn.experts" "w1" 1 = .ok packed ∧
      Preserved 1 (fun _ => ⟨1, 16, fun _ _ => 0x22⟩) (fun _ => ⟨1, 1, fun _ _ => 127⟩) packed := by
  have each := repacking_preserves_iff (oneGroup 127) "layers.0.ffn.experts" "w1" 1 1 1 (fun _ => ⟨1, 16, fun _ _ => 0x22⟩)
    (fun _ => ⟨1, 1, fun _ _ => 127⟩) (stored_oneGroup 127) (fun _ _ => ⟨rfl, rfl, rfl, rfl⟩) (fun _ _ _ _ _ _ => show (127 : UInt8) ≤ 254 by decide)
  obtain ⟨packed, built⟩ := each.1 (by decide)
  refine ⟨packed, built, (each.2 packed built).mpr ?_⟩
  intro e inside n inRows b inColumns zero
  cases zero

/-- With the scale byte 0 the checkpoint says 0, the blocks say 2 ^ -127. -/
theorem zero_scale_differs :
    ∃ packed native gguf, buildProjTensor (oneGroup 0) "layers.0.ffn.experts" "w1" 1 = .ok packed ∧
      dequantNative ⟨1, 16, fun _ _ => 0x22⟩ ⟨1, 1, fun _ _ => 0⟩ = .ok native ∧
      dequantGgufBlocks (packed.expert 0) 32 = .ok gguf ∧ native.entry 0 0 = some 0 ∧
      gguf.entry 0 0 = some (2 ^ (-127 : ℤ)) := by
  have shaped : ∀ e < 1, Shaped 1 1 ⟨1, 16, fun _ _ => 0x22⟩ ⟨1, 1, fun _ _ => 0⟩ := fun _ _ => ⟨rfl, rfl, rfl, rfl⟩
  obtain ⟨packed, built, -, -, third, entries⟩ := buildProjTensor_eq (stored_oneGroup 0) shaped (by decide)
  have decoded := dequantGgufBlocks_ok (packed.expert 0) third (entries 0 (by decide))
  rw [Nat.one_mul] at decoded
  refine ⟨packed, _, _, built, dequantNative_ok rfl rfl, decoded, ?_, ?_⟩
  · dsimp only
    rw [e8m0ToFp32_zero, Option.map_some, mul_zero]
  · have code : kvaluesMxfp4.getD (nibble (fun _ _ => 0x22) 0 0).toNat 0 = 2 := by decide
    dsimp only
    rw [e8m0ToFp32Half_power, Option.map_some, code]
    norm_num

end KtKernel.Convert.Mxfp4
