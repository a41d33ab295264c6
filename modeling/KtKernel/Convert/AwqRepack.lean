import Mathlib.Data.BitVec
import Mathlib.Algebra.BigOperators.Ring.List
import KtKernel.Convert.OnlineQuant
import KtKernel.Data.Dicts
import KtKernel.Data.Tensors

namespace KtKernel.Convert.Awq

open KtKernel.Data

/-! The repacking of AWQ weights by `AWQToColumnMajorConverter`. -/

def packNum : Nat := 8

def reverseAwqPackOrder : List Nat := [0, 4, 1, 5, 2, 6, 3, 7]

inductive RepackError where
  | runtimeError
  | indexError
  | attributeError
deriving DecidableEq, Repr

/-! ## Tensors of two and three dimensions -/

structure Matrix (α : Type) where
  rows : Nat
  cols : Nat
  entry : Nat → Nat → α

structure Cube (α : Type) where
  count : Nat
  rows : Nat
  cols : Nat
  entry : Nat → Nat → Nat → α

variable {α S : Type}

/-- `torch.stack` -/
def stack (parts : List (Matrix α)) : Except RepackError (Cube α) :=
  match parts with
  | [] => .error .runtimeError
  | first :: rest => do
      require (rest.all fun part => part.rows == first.rows && part.cols == first.cols) .runtimeError
      return ⟨(first :: rest).length, first.rows, first.cols, fun index => ((first :: rest).getD index first).entry⟩

namespace Cube

/-- `cube[start:stop]` -/
def slice (cube : Cube α) (start stop : Nat) : Cube α :=
  { cube with count := min stop cube.count - start, entry := fun index => cube.entry (start + index) }

def matrix (cube : Cube α) (index : Nat) : Matrix α :=
  ⟨cube.rows, cube.cols, cube.entry index⟩

/-- `cube[index]` -/
def select (cube : Cube α) (index : Nat) : Except RepackError (Matrix α) := do
  require (decide (index < cube.count)) .indexError
  return cube.matrix index

def transpose (cube : Cube α) : Cube α :=
  { count := cube.count, rows := cube.cols, cols := cube.rows, entry := fun index row col => cube.entry index col row }

/-- A view with `-1` for a dimension: the others must not be zero. -/
def inferable (cube : Cube α) : Bool :=
  decide (0 < cube.count * cube.rows)

/-- `view(count, rows, -1, PACK_NUM)` -/
def viewPacks (cube : Cube α) : Except RepackError Unit :=
  require (cube.inferable && cube.cols % packNum == 0) .runtimeError

end Cube

/-! ## The functions of the script -/

/-- Eight values, masked, shifted to their places as words of 64 bits, and summed. -/
def packWord (values : Nat → BitVec 8) : BitVec 32 :=
  ((List.range packNum).map fun place => ((values place &&& (0x0F : BitVec 8)).signExtend 32).signExtend 64 <<< (4 * place)).sum.truncate 32

def pack (imatrix : Cube (BitVec 8)) : Except RepackError (Cube (BitVec 32)) := do
  imatrix.viewPacks
  return { count := imatrix.count, rows := imatrix.rows, cols := imatrix.cols / packNum
           entry := fun index row col => packWord fun place => imatrix.entry index row (packNum * col + place) }

/-- A signed word shifted as 64 bits, narrowed to a byte and masked. -/
def unpackValue (word : BitVec 32) (place : Nat) : BitVec 8 :=
  ((word.signExtend 64).sshiftRight (4 * place)).truncate 8 &&& (0x0F : BitVec 8)

def unpack (qmatrix : Cube (BitVec 32)) : Except RepackError (Cube (BitVec 8)) := do
  require qmatrix.inferable .runtimeError
  return { count := qmatrix.count, rows := qmatrix.rows, cols := packNum * qmatrix.cols
           entry := fun index row col => unpackValue (qmatrix.entry index row (col / packNum)) (col % packNum) }

def reverseAwqInterleaving (imatrix : Cube (BitVec 8)) : Except RepackError (Cube (BitVec 8)) := do
  imatrix.viewPacks
  return { imatrix with
           entry := fun index row col =>
             imatrix.entry index row (packNum * (col / packNum) + reverseAwqPackOrder.getD (col % packNum) 0) }

def unpackReverseAwqInterleaving (qweight : Cube (BitVec 32)) (qzeros : Option (Cube (BitVec 32))) :
    Except RepackError (Cube (BitVec 8) × Option (Cube (BitVec 8))) := do
  let iweights ← unpack qweight
  let izeros ← qzeros.mapM unpack
  let iweightsOriginal ← reverseAwqInterleaving iweights
  let izerosOriginal ← izeros.mapM reverseAwqInterleaving
  return (iweightsOriginal, izerosOriginal)

def packColumnMajor1d (iweights : Cube (BitVec 8)) (izeros : Option (Cube (BitVec 8))) :
    Except RepackError (Cube (BitVec 32) × Option (Cube (BitVec 32))) := do
  let qweight ← pack iweights.transpose
  let qzeros ← izeros.mapM pack
  return (qweight, qzeros)

/-! ## The converter -/

/-- The tensors of an expert for a projection, as far as the checkpoint has them. -/
structure ExpertTensors (S : Type) where
  qweight : Option (Matrix (BitVec 32))
  qzeros : Option (Matrix (BitVec 32))
  scales : Option (Tensor S)

abbrev LayerTensors (S : Type) := Proj → Nat → ExpertTensors S

inductive Part where
  | scale
  | weight
  | qzeros
deriving DecidableEq, Repr

/-- The keys `blk.{layer_idx}.{out_proj}.{expert_id}.{part}`. -/
structure OutKey where
  layerIdx : Nat
  proj : Proj
  expertId : Nat
  part : Part
deriving DecidableEq, Repr

inductive Stored (S : Type) where
  | words (matrix : Matrix (BitVec 32))
  | scales (values : List S)

/-- What the loop collects of an expert whose `qweight` is there. -/
structure ValidExpert (S : Type) where
  expertId : Nat
  qweight : Matrix (BitVec 32)
  qzeros : Option (Matrix (BitVec 32))
  scales : Option (Tensor S)

def validExpert (layer : LayerTensors S) (proj : Proj) (expertId : Nat) : Option (ValidExpert S) :=
  let tensors := layer proj expertId
  tensors.qweight.map fun qweight => ⟨expertId, qweight, tensors.qzeros, tensors.scales⟩

def validExperts (layer : LayerTensors S) (proj : Proj) (expertIds : List Nat) : List (ValidExpert S) :=
  expertIds.filterMap (validExpert layer proj)

def batchSize : Nat := 128

def expertEntries (layerIdx : Nat) (proj : Proj) (expert : ValidExpert S) (qweights : Cube (BitVec 32)) (qzeros : Option (Cube (BitVec 32)))
    (batchIdx : Nat) : Except RepackError (Dict OutKey (Stored S)) := do
  let scales ← expectSome expert.scales .attributeError
  let weight ← qweights.select batchIdx
  match qzeros with
  | some qzeros => do
      let zeros ← qzeros.select batchIdx
      return [(⟨layerIdx, proj, expert.expertId, .scale⟩, .scales scales.data), (⟨layerIdx, proj, expert.expertId, .weight⟩, .words weight),
        (⟨layerIdx, proj, expert.expertId, .qzeros⟩, .words zeros)]
  | none => return [(⟨layerIdx, proj, expert.expertId, .scale⟩, .scales scales.data), (⟨layerIdx, proj, expert.expertId, .weight⟩, .words weight)]

def convertBatch (layerIdx : Nat) (proj : Proj) (experts : List (ValidExpert S)) (qweightsStack qzerosStack : Cube (BitVec 32))
    (batchStart : Nat) : Except RepackError (Dict OutKey (Stored S)) := do
  let batchEnd := min (batchStart + batchSize) experts.length
  let (iweights, izeros) ← unpackReverseAwqInterleaving (qweightsStack.slice batchStart batchEnd) (some (qzerosStack.slice batchStart batchEnd))
  let (qweights, qzeros) ← packColumnMajor1d iweights izeros
  let entries ← (List.range' batchStart (batchEnd - batchStart)).mapM fun idx => do
    let expert ← expectSome experts[idx]? .indexError
    expertEntries layerIdx proj expert qweights qzeros (idx - batchStart)
  return entries.flatten

def convertProjection (layerIdx : Nat) (layer : LayerTensors S) (expertIds : List Nat) (proj : Proj) :
    Except RepackError (Dict OutKey (Stored S)) := do
  let experts := validExperts layer proj expertIds
  if experts.isEmpty then
    return []
  let qweightsStack ← stack (experts.map ValidExpert.qweight)
  let qzerosStack ← stack (experts.filterMap ValidExpert.qzeros)
  let entries ← (upTo experts.length batchSize).mapM (convertBatch layerIdx proj experts qweightsStack qzerosStack)
  return entries.flatten

/-- `_convert_layer_experts` -/
def convertLayerExperts (layerIdx : Nat) (layer : LayerTensors S) (expertIds : List Nat) : Except RepackError (Dict OutKey (Stored S)) := do
  let entries ← [Proj.up, Proj.gate, Proj.down].mapM (convertProjection layerIdx layer expertIds)
  return Dict.ofList entries.flatten

/-! ## The purpose -/

def nibble (word : BitVec 32) (place : Nat) : BitVec 4 :=
  word.extractLsb' (4 * place) 4

/-- The columns of eight values, in the order in which AWQ puts them into a word. -/
def awqPackOrder : List Nat := [0, 2, 4, 6, 1, 3, 5, 7]

def awqNibble (matrix : Matrix (BitVec 32)) (row col : Nat) : BitVec 4 :=
  nibble (matrix.entry row (col / packNum)) (awqPackOrder.idxOf (col % packNum))

/-- The value of a row and column of a matrix whose words have eight columns in order. -/
def packedNibble (matrix : Matrix (BitVec 32)) (row col : Nat) : BitVec 4 :=
  nibble (matrix.entry row (col / packNum)) (col % packNum)

structure IsColumnMajor (qweight weight : Matrix (BitVec 32)) : Prop where
  rows : weight.rows = packNum * qweight.cols
  cols : packNum * weight.cols = qweight.rows
  nibbles : ∀ n < weight.rows, ∀ k < qweight.rows, packedNibble weight n k = awqNibble qweight k n

structure IsDeinterleaved (qzeros zeros : Matrix (BitVec 32)) : Prop where
  rows : zeros.rows = qzeros.rows
  cols : zeros.cols = qzeros.cols
  nibbles : ∀ g < zeros.rows, ∀ n < packNum * zeros.cols, packedNibble zeros g n = awqNibble qzeros g n

def KeepsOwners (layerIdx : Nat) (layer : LayerTensors S) (expertIds : List Nat) (output : Dict OutKey (Stored S)) : Prop :=
  ∀ proj, ∀ expertId ∈ expertIds, ∀ qweight, (layer proj expertId).qweight = some qweight →
    (∃ weight, output.get? ⟨layerIdx, proj, expertId, .weight⟩ = some (.words weight) ∧ IsColumnMajor qweight weight) ∧
    ∃ qzeros zeros, (layer proj expertId).qzeros = some qzeros ∧
      output.get? ⟨layerIdx, proj, expertId, .qzeros⟩ = some (.words zeros) ∧ IsDeinterleaved qzeros zeros

/-! ## Words and values -/

theorem eq_of_nibbles {first second : BitVec 32} (same : ∀ place < packNum, nibble first place = nibble second place) : first = second := by
  apply BitVec.eq_of_getLsbD_eq
  intro bit inside
  have here := congrArg (fun value => value.getLsbD (bit % 4)) (same (bit / 4) (by rw [packNum]; omega))
  have low : bit % 4 < 4 := Nat.mod_lt bit (by decide)
  simp only [nibble, BitVec.getLsbD_extractLsb', low, decide_true, Bool.true_and, Nat.div_add_mod] at here
  exact here

/-- The mask takes away the sign and the neighbours of a value. -/
theorem unpackValue_eq (word : BitVec 32) {place : Nat} (inside : place < packNum) :
    unpackValue word place = (nibble word place).setWidth 8 := by
  rw [packNum] at inside
  apply BitVec.eq_of_getLsbD_eq
  intro bit inByte
  have mask : (0x0F : BitVec 8).getLsbD bit = decide (bit < 4) := by
    have all : ∀ bit : Fin 8, (0x0F : BitVec 8).getLsbD bit = decide (bit.val < 4) := by decide
    exact all ⟨bit, inByte⟩
  rw [unpackValue, BitVec.getLsbD_and, mask, nibble, BitVec.truncate_eq_setWidth, BitVec.getLsbD_setWidth, BitVec.getLsbD_setWidth,
    BitVec.getLsbD_extractLsb']
  by_cases low : bit < 4
  · have inWord : 4 * place + bit < 32 := by omega
    have inLong : 4 * place + bit < 64 := by omega
    have notAfter : ¬64 ≤ bit := by omega
    rw [BitVec.getLsbD_sshiftRight, BitVec.getLsbD_signExtend, if_pos inLong, if_pos inWord]
    simp only [low, inByte, inLong, notAfter, decide_true, decide_false, Bool.not_false, Bool.true_and, Bool.and_true]
  · simp [low]

theorem shifted_value (value : BitVec 8) (place : Nat) :
    ((value &&& (0x0F : BitVec 8)).signExtend 32).signExtend 64 <<< (4 * place) = BitVec.ofNat 64 (value.toNat % 16 * 2 ^ (4 * place)) := by
  have mask : (0x0F : BitVec 8).toNat = 2 ^ 4 - 1 := by decide
  have masked : (value &&& (0x0F : BitVec 8)).toNat = value.toNat % 16 := by
    rw [BitVec.toNat_and, mask, Nat.and_two_pow_sub_one_eq_mod]
  have wide : ((value &&& (0x0F : BitVec 8)).signExtend 32).signExtend 64 = BitVec.ofNat 64 (value.toNat % 16) := by
    have byteSign : (value &&& (0x0F : BitVec 8)).msb = false := by
      rw [BitVec.msb_eq_false_iff_two_mul_lt, masked]
      omega
    have wordSign : ((value &&& (0x0F : BitVec 8)).setWidth 32).msb = false := by
      rw [BitVec.msb_eq_false_iff_two_mul_lt, BitVec.toNat_setWidth, masked]
      omega
    rw [BitVec.signExtend_eq_setWidth_of_msb_false byteSign, BitVec.signExtend_eq_setWidth_of_msb_false wordSign]
    apply BitVec.eq_of_toNat_eq
    rw [BitVec.toNat_setWidth, BitVec.toNat_setWidth, masked, BitVec.toNat_ofNat]
    omega
  rw [wide]
  apply BitVec.eq_of_toNat_eq
  rw [BitVec.toNat_shiftLeft, BitVec.toNat_ofNat, BitVec.toNat_ofNat, Nat.shiftLeft_eq, Nat.mod_mul_mod]

theorem sum_ofNat (width : Nat) (numbers : List Nat) : (numbers.map (BitVec.ofNat width)).sum = BitVec.ofNat width numbers.sum := by
  induction numbers with
  | nil => rfl
  | cons number rest induction => rw [List.map_cons, List.sum_cons, List.sum_cons, induction, BitVec.ofNat_add]

theorem packWord_eq (values : Nat → BitVec 8) :
    packWord values = BitVec.ofNat 32 ((List.range packNum).map fun place => (values place).toNat % 16 * 2 ^ (4 * place)).sum := by
  have terms : ((List.range packNum).map fun place => ((values place &&& (0x0F : BitVec 8)).signExtend 32).signExtend 64 <<< (4 * place)) =
      ((List.range packNum).map fun place => (values place).toNat % 16 * 2 ^ (4 * place)).map (BitVec.ofNat 64) := by
    rw [List.map_map]
    apply List.map_congr_left
    intro place _
    exact shifted_value (values place) place
  rw [packWord, terms, sum_ofNat, BitVec.truncate_eq_setWidth]
  apply BitVec.eq_of_toNat_eq
  rw [BitVec.toNat_setWidth, BitVec.toNat_ofNat, BitVec.toNat_ofNat]
  exact Nat.mod_mod_of_dvd _ (by decide)

theorem digit_sum {base : Nat} (digits : Nat → Nat) (small : ∀ place, digits place < base) {count place : Nat} (inside : place < count) :
    ((List.range count).map fun place => digits place * base ^ place).sum / base ^ place % base = digits place := by
  have positive : 0 < base := Nat.zero_lt_of_lt (small 0)
  induction count generalizing digits place with
  | zero => exact absurd inside (Nat.not_lt_zero place)
  | succ count induction =>
      have split : ((List.range (count + 1)).map fun place => digits place * base ^ place).sum =
          digits 0 + base * ((List.range count).map fun place => digits (place + 1) * base ^ place).sum := by
        rw [List.range_succ_eq_map, List.map_cons, List.sum_cons, List.map_map, Nat.pow_zero, Nat.mul_one, ← List.sum_map_mul_left]
        congr 3
        funext place
        change digits (place + 1) * base ^ (place + 1) = base * (digits (place + 1) * base ^ place)
        rw [Nat.pow_succ]
        ac_rfl
      rw [split]
      cases place with
      | zero => rw [Nat.pow_zero, Nat.div_one, Nat.add_mul_mod_self_left, Nat.mod_eq_of_lt (small 0)]
      | succ place =>
          rw [Nat.pow_succ', ← Nat.div_div_eq_div_mul, Nat.add_mul_div_left _ _ positive, Nat.div_eq_of_lt (small 0), Nat.zero_add]
          exact induction (fun place => digits (place + 1)) (fun place => small (place + 1)) (Nat.lt_of_succ_lt_succ inside)

theorem nibble_packWord (values : Nat → BitVec 8) {place : Nat} (inside : place < packNum) :
    nibble (packWord values) place = (values place).setWidth 4 := by
  have digit := digit_sum (fun place => (values place).toNat % 16) (fun place => Nat.mod_lt _ (by decide)) inside
  have powers : ∀ place, 2 ^ (4 * place) = 16 ^ place := fun place => Nat.pow_mul 2 4 place
  simp only [← powers] at digit
  -- The places above the word are cut off; this one is below them.
  have below : 4 * place + 4 ≤ 32 := by
    rw [packNum] at inside
    omega
  have kept : ∀ number, number % 2 ^ 32 / 2 ^ (4 * place) % 2 ^ 4 = number / 2 ^ (4 * place) % 2 ^ 4 := by
    intro number
    have whole : 2 ^ 32 = 2 ^ (4 * place) * 2 ^ (32 - 4 * place) := by
      rw [← Nat.pow_add]
      congr 1
      omega
    rw [whole, Nat.mod_mul_right_div_self]
    exact Nat.mod_mod_of_dvd _ (Nat.pow_dvd_pow 2 (by omega))
  apply BitVec.eq_of_toNat_eq
  rw [nibble, BitVec.extractLsb'_toNat, packWord_eq, BitVec.toNat_ofNat, BitVec.toNat_setWidth, Nat.shiftRight_eq_div_pow, kept]
  exact digit

theorem setWidth_nibble (word : BitVec 32) (place : Nat) : ((nibble word place).setWidth 8).setWidth 4 = nibble word place :=
  BitVec.setWidth_setWidth_of_le _ (by decide)

theorem packWord_unpackValue (word : BitVec 32) : (packWord fun place => unpackValue word place) = word := by
  apply eq_of_nibbles
  intro place inside
  rw [nibble_packWord _ inside, unpackValue_eq word inside, setWidth_nibble]

theorem unpackValue_packWord (values : Nat → BitVec 8) {place : Nat} (inside : place < packNum) (small : (values place).toNat < 16) :
    unpackValue (packWord values) place = values place := by
  rw [unpackValue_eq _ inside, nibble_packWord values inside]
  apply BitVec.eq_of_toNat_eq
  rw [BitVec.toNat_setWidth, BitVec.toNat_setWidth]
  omega

/-! ## Tensors of words and of values -/

/-- The same shape and the same entries. -/
structure Cube.Agrees (first second : Cube α) : Prop where
  count : first.count = second.count
  rows : first.rows = second.rows
  cols : first.cols = second.cols
  entry : ∀ index < second.count, ∀ row < second.rows, ∀ col < second.cols, first.entry index row col = second.entry index row col

theorem packWord_congr {values others : Nat → BitVec 8} (same : ∀ place < packNum, values place = others place) :
    packWord values = packWord others := by
  apply eq_of_nibbles
  intro place inside
  rw [nibble_packWord values inside, nibble_packWord others inside, same place inside]

theorem place_of_word (word : Nat) {place : Nat} (inside : place < packNum) :
    (packNum * word + place) / packNum = word ∧ (packNum * word + place) % packNum = place := by
  rw [packNum] at *
  omega

theorem pack_unpack {words : Cube (BitVec 32)} (some_ : words.inferable = true) :
    ∃ values, unpack words = .ok values ∧ ∃ packed, pack values = .ok packed ∧ packed.Agrees words := by
  refine ⟨_, require_bind_ok.mpr ⟨some_, rfl⟩, _, require_bind_ok.mpr ⟨?_, rfl⟩, rfl, rfl, ?_, ?_⟩
  · rw [Bool.and_eq_true]
    exact ⟨some_, beq_iff_eq.mpr (Nat.mul_mod_right packNum words.cols)⟩
  · exact Nat.mul_div_cancel_left words.cols (by decide)
  · intro index _ row _ col _
    rw [← packWord_unpackValue (words.entry index row col)]
    apply packWord_congr
    intro place inside
    dsimp only
    rw [(place_of_word col inside).1, (place_of_word col inside).2]

theorem unpack_pack {values : Cube (BitVec 8)} (some_ : values.inferable = true) (whole : values.cols % packNum = 0)
    (small : ∀ index < values.count, ∀ row < values.rows, ∀ col < values.cols, (values.entry index row col).toNat < 16) :
    ∃ words, pack values = .ok words ∧ ∃ unpacked, unpack words = .ok unpacked ∧ unpacked.Agrees values := by
  refine ⟨_, require_bind_ok.mpr ⟨?_, rfl⟩, _, require_bind_ok.mpr ⟨some_, rfl⟩, rfl, rfl, ?_, ?_⟩
  · rw [Bool.and_eq_true]
    exact ⟨some_, beq_iff_eq.mpr whole⟩
  · exact Nat.mul_div_cancel' (Nat.dvd_of_mod_eq_zero whole)
  · intro index isIndex row isRow col isCol
    have inside : col % packNum < packNum := Nat.mod_lt col (by decide)
    have place : packNum * (col / packNum) + col % packNum = col := Nat.div_add_mod col packNum
    dsimp only
    rw [unpackValue_packWord _ inside, place]
    rw [place]
    exact small index isIndex row isRow col isCol

theorem stack_ok {parts : List (Matrix α)} (stacked : stack parts = .ok cube) :
    cube.count = parts.length ∧ ∀ index part, parts[index]? = some part → cube.matrix index = part := by
  cases parts with
  | nil => cases stacked
  | cons first rest =>
      rw [stack, require_bind_ok, pure_ok] at stacked
      obtain ⟨same, rfl⟩ := stacked
      refine ⟨rfl, ?_⟩
      intro index part found
      have shape : part.rows = first.rows ∧ part.cols = first.cols := by
        rcases List.mem_cons.mp (List.mem_of_getElem? found) with rfl | later
        · exact ⟨rfl, rfl⟩
        · have equal := List.all_eq_true.mp same part later
          rw [Bool.and_eq_true, beq_iff_eq, beq_iff_eq] at equal
          exact equal
      rw [Cube.matrix]
      dsimp only
      rw [List.getD_eq_getElem?_getD, found, Option.getD_some, ← shape.1, ← shape.2]

/-! ## A batch -/

/-- Every value has the place that AWQ's order gives its column. -/
theorem reverse_order (col : Nat) : reverseAwqPackOrder.getD (col % packNum) 0 = awqPackOrder.idxOf (col % packNum) ∧
    awqPackOrder.idxOf (col % packNum) < packNum := by
  have all : ∀ place : Fin packNum, reverseAwqPackOrder.getD place 0 = awqPackOrder.idxOf place.val ∧ awqPackOrder.idxOf place.val < packNum := by
    decide
  exact all ⟨col % packNum, Nat.mod_lt col (by decide)⟩

structure IsUnpacked (words : Cube (BitVec 32)) (values : Cube (BitVec 8)) : Prop where
  count : values.count = words.count
  rows : values.rows = words.rows
  cols : values.cols = packNum * words.cols
  entry : ∀ index row col, values.entry index row col = (awqNibble (words.matrix index) row col).setWidth 8

theorem unpack_reverse {words : Cube (BitVec 32)} (unpacked : unpack words = .ok values)
    (reversed : reverseAwqInterleaving values = .ok ordered) : IsUnpacked words ordered := by
  rw [unpack, require_bind_ok, pure_ok] at unpacked
  obtain ⟨-, rfl⟩ := unpacked
  rw [reverseAwqInterleaving, Cube.viewPacks, require_bind_ok, pure_ok] at reversed
  obtain ⟨-, rfl⟩ := reversed
  refine ⟨rfl, rfl, rfl, ?_⟩
  intro index row col
  obtain ⟨order, inside⟩ := reverse_order col
  dsimp only
  rw [order, (place_of_word _ inside).1, (place_of_word _ inside).2, unpackValue_eq _ inside]
  rfl

structure IsPacked (values : Cube (BitVec 8)) (words : Cube (BitVec 32)) : Prop where
  count : words.count = values.count
  rows : words.rows = values.rows
  cols : packNum * words.cols = values.cols
  nibbles : ∀ index row col, packedNibble (words.matrix index) row col = (values.entry index row col).setWidth 4

theorem pack_ok {values : Cube (BitVec 8)} (packed : pack values = .ok words) : IsPacked values words := by
  rw [pack, Cube.viewPacks, require_bind_ok, pure_ok] at packed
  obtain ⟨view, rfl⟩ := packed
  rw [Bool.and_eq_true, beq_iff_eq] at view
  refine ⟨rfl, rfl, Nat.mul_div_cancel' (Nat.dvd_of_mod_eq_zero view.2), ?_⟩
  intro index row col
  rw [packedNibble, Cube.matrix, nibble_packWord _ (Nat.mod_lt col (by decide)), Nat.div_add_mod]

theorem some_mapM_ok {check : α → Except RepackError S} {value : α} :
    (some value).mapM check = .ok result ↔ ∃ checked, check value = .ok checked ∧ some checked = result := by
  change (check value >>= fun checked => pure (some checked)) = .ok result ↔ _
  rw [bind_ok]
  simp only [pure_ok]

theorem IsUnpacked.columnMajor {words packed : Cube (BitVec 32)} (unpacked : IsUnpacked words values) (isPacked : IsPacked values.transpose packed)
    (index : Nat) : IsColumnMajor (words.matrix index) (packed.matrix index) := by
  refine ⟨isPacked.rows.trans unpacked.cols, isPacked.cols.trans unpacked.rows, ?_⟩
  intro n _ k _
  rw [isPacked.nibbles, Cube.transpose]
  dsimp only
  rw [unpacked.entry]
  exact setWidth_nibble _ _

theorem IsUnpacked.deinterleaved {words packed : Cube (BitVec 32)} (unpacked : IsUnpacked words values) (isPacked : IsPacked values packed)
    (index : Nat) : IsDeinterleaved (words.matrix index) (packed.matrix index) := by
  have cols : packNum * packed.cols = packNum * words.cols := isPacked.cols.trans unpacked.cols
  refine ⟨isPacked.rows.trans unpacked.rows, Nat.eq_of_mul_eq_mul_left (by decide) cols, ?_⟩
  intro g _ n _
  rw [isPacked.nibbles, unpacked.entry]
  exact setWidth_nibble _ _

/-- What a batch makes of its words. -/
structure IsRepacked (qweights qzeros weights zeros : Cube (BitVec 32)) : Prop where
  zeros_ : zeros.count = qzeros.count
  weight : ∀ index, IsColumnMajor (qweights.matrix index) (weights.matrix index)
  zero : ∀ index, IsDeinterleaved (qzeros.matrix index) (zeros.matrix index)

theorem repack_ok {qweights qzeros : Cube (BitVec 32)} (unpacked : unpackReverseAwqInterleaving qweights (some qzeros) = .ok values)
    (packed : packColumnMajor1d values.1 values.2 = .ok result) : ∃ zeros, result.2 = some zeros ∧ IsRepacked qweights qzeros result.1 zeros := by
  rw [unpackReverseAwqInterleaving, bind_ok] at unpacked
  obtain ⟨iweights, weightsDone, unpacked⟩ := unpacked
  rw [bind_ok] at unpacked
  obtain ⟨_, zerosTried, unpacked⟩ := unpacked
  obtain ⟨izeros, zerosDone, rfl⟩ := some_mapM_ok.mp zerosTried
  rw [bind_ok] at unpacked
  obtain ⟨weightsOriginal, weightsOrdered, unpacked⟩ := unpacked
  rw [bind_ok] at unpacked
  obtain ⟨_, orderTried, unpacked⟩ := unpacked
  obtain ⟨zerosOriginal, zerosOrdered, rfl⟩ := some_mapM_ok.mp orderTried
  rw [pure_ok] at unpacked
  rw [← unpacked, packColumnMajor1d, bind_ok] at packed
  obtain ⟨weights, weightsPacked, packed⟩ := packed
  rw [bind_ok] at packed
  obtain ⟨_, packTried, packed⟩ := packed
  obtain ⟨zeros, zerosPacked, rfl⟩ := some_mapM_ok.mp packTried
  rw [pure_ok] at packed
  have weightsUnpacked := unpack_reverse weightsDone weightsOrdered
  have zerosUnpacked := unpack_reverse zerosDone zerosOrdered
  have zerosArePacked := pack_ok zerosPacked
  rw [← packed]
  refine ⟨zeros, rfl, zerosArePacked.count.trans zerosUnpacked.count, ?_, ?_⟩
  · exact weightsUnpacked.columnMajor (pack_ok weightsPacked)
  · exact zerosUnpacked.deinterleaved zerosArePacked

theorem select_ok {cube : Cube α} {index : Nat} : cube.select index = .ok matrix ↔ index < cube.count ∧ cube.matrix index = matrix := by
  rw [Cube.select, require_bind_ok, pure_ok, decide_eq_true_iff]

theorem expertEntries_ok {expert : ValidExpert S} {weights zeros : Cube (BitVec 32)} :
    expertEntries layerIdx proj expert weights (some zeros) batchIdx = .ok entries ↔
      ∃ scales, expert.scales = some scales ∧ batchIdx < weights.count ∧ batchIdx < zeros.count ∧
        [((⟨layerIdx, proj, expert.expertId, .scale⟩ : OutKey), Stored.scales scales.data),
          (⟨layerIdx, proj, expert.expertId, .weight⟩, .words (weights.matrix batchIdx)),
          (⟨layerIdx, proj, expert.expertId, .qzeros⟩, .words (zeros.matrix batchIdx))] = entries := by
  rw [expertEntries, expectSome_bind_ok]
  apply exists_congr
  intro scales
  apply and_congr_right'
  rw [bind_ok]
  constructor
  · rintro ⟨weight, weightDone, rest⟩
    obtain ⟨inWeights, rfl⟩ := select_ok.mp weightDone
    obtain ⟨zero, zeroDone, same⟩ := bind_ok.mp rest
    obtain ⟨inZeros, rfl⟩ := select_ok.mp zeroDone
    exact ⟨inWeights, inZeros, pure_ok.mp same⟩
  · rintro ⟨inWeights, inZeros, same⟩
    exact ⟨_, select_ok.mpr ⟨inWeights, rfl⟩, bind_ok.mpr ⟨_, select_ok.mpr ⟨inZeros, rfl⟩, pure_ok.mpr same⟩⟩

/-- What is stored of an expert under each of its keys. -/
def StoredFor (expert : ValidExpert S) (part : Part) (stored : Stored S) : Prop :=
  match part with
  | .scale => ∃ scales, expert.scales = some scales ∧ stored = .scales scales.data
  | .weight => ∃ weight, stored = .words weight ∧ IsColumnMajor expert.qweight weight
  | .qzeros => ∃ qzeros zeros, expert.qzeros = some qzeros ∧ stored = .words zeros ∧ IsDeinterleaved qzeros zeros

def OwnEntry (layerIdx : Nat) (proj : Proj) (experts : List (ValidExpert S)) (entry : OutKey × Stored S) : Prop :=
  ∃ expert ∈ experts, entry.1 = ⟨layerIdx, proj, expert.expertId, entry.1.part⟩ ∧ StoredFor expert entry.1.part entry.2

theorem filterMap_full {β : Type} {f : α → Option β} {items : List α} {index : Nat} (full : items.length ≤ (items.filterMap f).length)
    (found : items[index]? = some item) : ∃ value, f item = some value ∧ (items.filterMap f)[index]? = some value := by
  induction items generalizing index with
  | nil => cases found
  | cons first rest induction =>
      have bound := List.length_filterMap_le f rest
      cases own : f first with
      | none =>
          rw [List.filterMap_cons_none own, List.length_cons] at full
          omega
      | some value =>
          rw [List.filterMap_cons_some own] at full ⊢
          cases index with
          | zero =>
              rw [List.getElem?_cons_zero, Option.some.injEq] at found
              exact ⟨value, found ▸ own, rfl⟩
          | succ index => exact induction (Nat.le_of_succ_le_succ full) found

section Batch

variable {layerIdx batchStart idx : Nat} {proj : Proj} {experts : List (ValidExpert S)} {qweightsStack qzerosStack : Cube (BitVec 32)}
  {entries : Dict OutKey (Stored S)}

/-- Each place of a batch that does not raise is in both stacks, and what is set there is of the expert of the place. -/
theorem convertBatch_ok (done : convertBatch layerIdx proj experts qweightsStack qzerosStack batchStart = .ok entries) :
    ∃ weights zeros, IsRepacked (qweightsStack.slice batchStart (min (batchStart + batchSize) experts.length))
        (qzerosStack.slice batchStart (min (batchStart + batchSize) experts.length)) weights zeros ∧
      ∃ results, List.Forall₂ (fun idx result => ∃ expert, experts[idx]? = some expert ∧
          expertEntries layerIdx proj expert weights (some zeros) (idx - batchStart) = .ok result)
        (List.range' batchStart (min (batchStart + batchSize) experts.length - batchStart)) results ∧ results.flatten = entries := by
  rw [convertBatch, bind_ok] at done
  obtain ⟨values, unpacked, done⟩ := done
  rw [bind_ok] at done
  obtain ⟨result, packed, done⟩ := done
  rw [bind_ok] at done
  obtain ⟨results, all, done⟩ := done
  obtain ⟨zeros, isZeros, repacked⟩ := repack_ok unpacked packed
  rw [mapM_ok] at all
  refine ⟨result.1, zeros, repacked, results, ?_, pure_ok.mp done⟩
  apply all.imp
  intro idx entries own
  rw [expectSome_bind_ok, isZeros] at own
  exact own

theorem batch_has_zeros (done : convertBatch layerIdx proj experts qweightsStack qzerosStack batchStart = .ok entries)
    (inBatch : batchStart ≤ idx ∧ idx < min (batchStart + batchSize) experts.length) : idx < qzerosStack.count := by
  obtain ⟨weights, zeros, repacked, results, all, -⟩ := convertBatch_ok done
  obtain ⟨result, -, expert, -, own⟩ := result_of_mem all (List.mem_range'_1.mpr ⟨inBatch.1, by omega⟩)
  obtain ⟨-, -, -, inZeros, -⟩ := expertEntries_ok.mp own
  rw [repacked.zeros_, Cube.slice] at inZeros
  dsimp only at inZeros
  omega

variable (weightsStacked : ∀ index expert, experts[index]? = some expert → qweightsStack.matrix index = expert.qweight)
  (zerosStacked : ∀ index expert, experts[index]? = some expert → ∃ qzeros, expert.qzeros = some qzeros ∧ qzerosStack.matrix index = qzeros)

include weightsStacked zerosStacked in
theorem batch_entries (done : convertBatch layerIdx proj experts qweightsStack qzerosStack batchStart = .ok entries) :
    ∀ entry ∈ entries, OwnEntry layerIdx proj experts entry := by
  obtain ⟨weights, zeros, repacked, results, all, rfl⟩ := convertBatch_ok done
  intro entry member
  obtain ⟨result, isResult, inResult⟩ := List.mem_flatten.mp member
  obtain ⟨idx, inBatch, expert, found, own⟩ := item_of_mem all isResult
  obtain ⟨scales, known, -, -, rfl⟩ := expertEntries_ok.mp own
  have place : batchStart + (idx - batchStart) = idx := Nat.add_sub_cancel' (List.mem_range'_1.mp inBatch).1
  have weight := repacked.weight (idx - batchStart)
  have zero := repacked.zero (idx - batchStart)
  obtain ⟨qzeros, hasZeros, ownZeros⟩ := zerosStacked idx expert found
  have ownWeight := weightsStacked idx expert found
  simp only [Cube.matrix, Cube.slice, place] at weight zero ownWeight ownZeros
  rw [ownWeight] at weight
  rw [ownZeros] at zero
  refine ⟨expert, List.mem_of_getElem? found, ?_⟩
  simp only [List.mem_cons, List.not_mem_nil, or_false] at inResult
  rcases inResult with rfl | rfl | rfl
  · exact ⟨rfl, scales, known, rfl⟩
  · exact ⟨rfl, _, rfl, weight⟩
  · exact ⟨rfl, qzeros, _, hasZeros, rfl, zero⟩

theorem batch_sets (done : convertBatch layerIdx proj experts qweightsStack qzerosStack batchStart = .ok entries)
    (inBatch : batchStart ≤ idx ∧ idx < min (batchStart + batchSize) experts.length) {expert : ValidExpert S}
    (found : experts[idx]? = some expert) (part : Part) : ∃ entry ∈ entries, entry.1 = ⟨layerIdx, proj, expert.expertId, part⟩ := by
  obtain ⟨weights, zeros, -, results, all, rfl⟩ := convertBatch_ok done
  obtain ⟨result, isResult, other, same, own⟩ := result_of_mem all (List.mem_range'_1.mpr ⟨inBatch.1, by omega⟩)
  rw [found, Option.some.injEq] at same
  obtain ⟨scales, -, -, -, rfl⟩ := expertEntries_ok.mp own
  rw [← same] at isResult
  cases part with
  | scale => exact ⟨_, List.mem_flatten.mpr ⟨_, isResult, List.mem_cons_self⟩, rfl⟩
  | weight => exact ⟨_, List.mem_flatten.mpr ⟨_, isResult, List.mem_cons_of_mem _ List.mem_cons_self⟩, rfl⟩
  | qzeros => exact ⟨_, List.mem_flatten.mpr ⟨_, isResult, List.mem_cons_of_mem _ (List.mem_cons_of_mem _ List.mem_cons_self)⟩, rfl⟩

end Batch

/-! ## The layer -/

section Layer

variable {layerIdx : Nat} {layer : LayerTensors S} {expertIds : List Nat} {proj : Proj} {entries : Dict OutKey (Stored S)}

/-- A place is in the batch that starts at the multiple below it. -/
theorem batch_of_place {idx total : Nat} (inside : idx < total) :
    idx / batchSize * batchSize ∈ upTo total batchSize ∧
      idx / batchSize * batchSize ≤ idx ∧ idx < min (idx / batchSize * batchSize + batchSize) total := by
  have positive : 0 < batchSize := by decide
  have split := Nat.div_add_mod' idx batchSize
  have small := Nat.mod_lt idx positive
  refine ⟨(mem_upTo positive).mpr ⟨Nat.dvd_mul_left _ _, ?_⟩, ?_, ?_⟩
  · omega
  · omega
  · omega

theorem convertProjection_ok (done : convertProjection layerIdx layer expertIds proj = .ok entries) :
    (∀ entry ∈ entries, OwnEntry layerIdx proj (validExperts layer proj expertIds) entry) ∧
    (∀ expert ∈ validExperts layer proj expertIds, ∀ part, ∃ entry ∈ entries, entry.1 = ⟨layerIdx, proj, expert.expertId, part⟩) := by
  simp only [convertProjection] at done
  by_cases none : (validExperts layer proj expertIds).isEmpty
  · rw [if_pos none, pure_ok] at done
    rw [← done, List.isEmpty_iff.mp none]
    constructor
    · intro entry impossible
      cases impossible
    · intro expert impossible
      cases impossible
  rw [if_neg none, bind_ok] at done
  obtain ⟨qweightsStack, weightsStacked, done⟩ := done
  rw [bind_ok] at done
  obtain ⟨qzerosStack, zerosStacked, done⟩ := done
  rw [bind_ok] at done
  obtain ⟨results, all, done⟩ := done
  rw [mapM_ok] at all
  rw [pure_ok] at done
  generalize validExperts layer proj expertIds = experts at *
  obtain ⟨-, weightOf⟩ := stack_ok weightsStacked
  obtain ⟨zerosCount, zeroOf⟩ := stack_ok zerosStacked
  have hasZeros : ∀ idx < experts.length, idx < qzerosStack.count := by
    intro idx inside
    obtain ⟨isBatch, inBatch⟩ := batch_of_place inside
    obtain ⟨batch, -, batchDone⟩ := result_of_mem all isBatch
    exact batch_has_zeros batchDone inBatch
  have full : experts.length ≤ (experts.filterMap ValidExpert.qzeros).length := by
    rw [← zerosCount]
    have some_ : 0 < experts.length := List.length_pos_iff.mpr (mt List.isEmpty_iff.mpr none)
    have last := hasZeros (experts.length - 1) (by omega)
    omega
  have ownWeights : ∀ index expert, experts[index]? = some expert → qweightsStack.matrix index = expert.qweight := by
    intro index expert found
    apply weightOf
    rw [List.getElem?_map, found, Option.map_some]
  have ownZeros : ∀ index expert, experts[index]? = some expert → ∃ qzeros, expert.qzeros = some qzeros ∧ qzerosStack.matrix index = qzeros := by
    intro index expert found
    obtain ⟨qzeros, own, inStack⟩ := filterMap_full full found
    exact ⟨qzeros, own, zeroOf index qzeros inStack⟩
  rw [← done]
  constructor
  · intro entry member
    obtain ⟨batch, isBatch, inBatch⟩ := List.mem_flatten.mp member
    obtain ⟨batchStart, -, batchDone⟩ := item_of_mem all isBatch
    exact batch_entries ownWeights ownZeros batchDone entry inBatch
  · intro expert member part
    obtain ⟨idx, inside, found⟩ := List.getElem_of_mem member
    obtain ⟨isBatch, inBatch⟩ := batch_of_place inside
    obtain ⟨batch, batchIn, batchDone⟩ := result_of_mem all isBatch
    obtain ⟨entry, inEntries, key⟩ := batch_sets batchDone inBatch (List.getElem?_eq_some_iff.mpr ⟨inside, found⟩) part
    exact ⟨entry, List.mem_flatten.mpr ⟨batch, batchIn, inEntries⟩, key⟩

theorem mem_validExperts {expert : ValidExpert S} :
    expert ∈ validExperts layer proj expertIds ↔
      expert.expertId ∈ expertIds ∧ (layer proj expert.expertId).qweight = some expert.qweight ∧
        (layer proj expert.expertId).qzeros = expert.qzeros ∧ (layer proj expert.expertId).scales = expert.scales := by
  rw [validExperts, List.mem_filterMap]
  constructor
  · rintro ⟨expertId, member, valid⟩
    obtain ⟨qweight, found, rfl⟩ := Option.map_eq_some_iff.mp valid
    exact ⟨member, found, rfl, rfl⟩
  · rintro ⟨member, weight, zeros, scales⟩
    refine ⟨expert.expertId, member, ?_⟩
    rw [validExpert, weight, zeros, scales]
    rfl

theorem valid_unique {first second : ValidExpert S} (isFirst : first ∈ validExperts layer proj expertIds)
    (isSecond : second ∈ validExperts layer proj expertIds) (same : first.expertId = second.expertId) : first = second := by
  rw [validExperts, List.mem_filterMap] at isFirst isSecond
  obtain ⟨expertId, -, firstValid⟩ := isFirst
  obtain ⟨otherId, -, secondValid⟩ := isSecond
  obtain ⟨qweight, found, rfl⟩ := Option.map_eq_some_iff.mp firstValid
  obtain ⟨other, otherFound, rfl⟩ := Option.map_eq_some_iff.mp secondValid
  dsimp only at same
  rw [← same, found, Option.some.injEq] at otherFound
  rw [same, otherFound]

/-- The value kept under a key of an expert is one of that expert, whatever else was set. -/
theorem convertLayerExperts_stored (done : convertLayerExperts layerIdx layer expertIds = .ok output)
    {expert : ValidExpert S} (valid : expert ∈ validExperts layer proj expertIds) (part : Part) :
    ∃ stored, Dict.get? output ⟨layerIdx, proj, expert.expertId, part⟩ = some stored ∧ StoredFor expert part stored := by
  rw [convertLayerExperts, bind_ok] at done
  obtain ⟨results, all, done⟩ := done
  rw [mapM_ok] at all
  rw [pure_ok] at done
  rw [← done]
  apply Dict.ofList_value
  · obtain ⟨entries, isResult, projDone⟩ := result_of_mem all (show proj ∈ [Proj.up, Proj.gate, Proj.down] by cases proj <;> decide)
    obtain ⟨entry, member, key⟩ := (convertProjection_ok projDone).2 expert valid part
    exact ⟨entry, List.mem_flatten.mpr ⟨entries, isResult, member⟩, key⟩
  · intro entry member key
    obtain ⟨entries, isResult, inEntries⟩ := List.mem_flatten.mp member
    obtain ⟨other, -, projDone⟩ := item_of_mem all isResult
    obtain ⟨owner, isOwner, ownKey, stored⟩ := (convertProjection_ok projDone).1 entry inEntries
    rw [key, OutKey.mk.injEq] at ownKey
    obtain ⟨-, rfl, sameId, -⟩ := ownKey
    rw [key, valid_unique isOwner valid sameId.symm] at stored
    exact stored

end Layer

/-- Either the layer raises, or every expert with a weight has its own weight and its own zero
points; and packing and unpacking are inverse. -/
theorem preservesNibbles :
    (∀ (S : Type) (layerIdx : Nat) (layer : LayerTensors S) (expertIds : List Nat) (output : Dict OutKey (Stored S)),
      convertLayerExperts layerIdx layer expertIds = .ok output → KeepsOwners layerIdx layer expertIds output) ∧
    (∀ words : Cube (BitVec 32), words.inferable = true →
      ∃ values, unpack words = .ok values ∧ ∃ packed, pack values = .ok packed ∧ packed.Agrees words) ∧
    ∀ values : Cube (BitVec 8), values.inferable = true → values.cols % packNum = 0 →
      (∀ index < values.count, ∀ row < values.rows, ∀ col < values.cols, (values.entry index row col).toNat < 16) →
      ∃ words, pack values = .ok words ∧ ∃ unpacked, unpack words = .ok unpacked ∧ unpacked.Agrees values := by
  refine ⟨?_, fun _ => pack_unpack, fun _ => unpack_pack⟩
  intro S layerIdx layer expertIds output done proj expertId member qweight found
  have valid : (⟨expertId, qweight, (layer proj expertId).qzeros, (layer proj expertId).scales⟩ : ValidExpert S) ∈
      validExperts layer proj expertIds := mem_validExperts.mpr ⟨member, found, rfl, rfl⟩
  obtain ⟨_, weightStored, weight, rfl, columnMajor⟩ := convertLayerExperts_stored done valid .weight
  obtain ⟨_, zerosStored, qzeros, zeros, own, rfl, deinterleaved⟩ := convertLayerExperts_stored done valid .qzeros
  exact ⟨⟨weight, weightStored, columnMajor⟩, qzeros, zeros, own, zerosStored, deinterleaved⟩

/-- Two experts with eight rows and eight columns, some words negative. -/
def signedPair : LayerTensors Nat :=
  fun _ expertId =>
    { qweight := some ⟨8, 1, fun row _ => BitVec.ofNat 32 (0x9ABCDEF0 + expertId + row)⟩
      qzeros := some ⟨1, 1, fun _ _ => BitVec.ofNat 32 (0x87654321 + expertId)⟩
      scales := some ⟨[1, 8], [1, 2, 3, 4, 5, 6, 7, 8], rfl⟩ }

theorem preservesNibbles_signedPair : ∃ output, convertLayerExperts 0 signedPair [3, 5] = .ok output ∧ KeepsOwners 0 signedPair [3, 5] output :=
  ⟨_, rfl, preservesNibbles.1 Nat 0 signedPair [3, 5] _ rfl⟩

end KtKernel.Convert.Awq
