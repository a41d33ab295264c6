import Mathlib.Data.Set.Function
import Mathlib.Tactic.Ring
import Mathlib.Order.Interval.Set.Defs
import KtKernel.Amx.ExpertFiles

namespace KtKernel.Amx.ExpertFiles

open KtKernel.Data

variable {W : Type} {config : Config} {kernel : Kernel W} {map : Nat → Nat} {schedule : Schedule}
  {weights : Mat → Nat → W}

/-! The expert tables that quantisation and loading leave in the slots. -/

/-- An element of the tensor-parallel slice of an expert. -/
def tpSlice (config : Config) (weights : Mat → Nat → W) (part : Nat) (mat : Mat) (expert row column : Nat) : W :=
  let base := expert * (config.intermediateSize * config.hiddenSize)
  match mat with
  | .down => weights .down (base + row * config.intermediateSize + (part * config.partSize + column))
  | _ => weights mat (base + (part * config.partSize + row) * config.hiddenSize + column)

def quantisedSlice (config : Config) (kernel : Kernel W) (weights : Mat → Nat → W) (part : Nat) (mat : Mat)
    (expert offset : Nat) : UInt8 :=
  kernel.packedByte (config.rows mat) (config.columns mat) (tpSlice config weights part mat expert) offset

def Config.bytes (config : Config) (kernel : Kernel W) (mat : Mat) : Nat :=
  kernel.requiredSize (config.rows mat) (config.columns mat)

theorem Config.rows_positive (config : Config) (mat : Mat) : 0 < config.rows mat := by
  cases mat with
  | down => exact config.hiddenPositive
  | up => exact config.partPositive
  | gate => exact config.partPositive

theorem Config.rows_mul_columns (config : Config) (mat : Mat) :
    config.rows mat * config.columns mat = config.partSize * config.hiddenSize := by
  cases mat with
  | down => exact Nat.mul_comm _ _
  | up => rfl
  | gate => rfl

theorem staged_element (permuted : Set.BijOn map (Set.Iio config.expertNum) (Set.Iio config.expertNum))
    (inside : element / (config.partSize * config.hiddenSize) < config.expertNum) :
    staged config map schedule weights undefined part mat element =
      weights mat (stageSource config part mat element) := by
  apply Store.runAll_agreed
  · intro store member
    obtain ⟨task, -, rfl⟩ := List.mem_map.mp member
    by_cases copied : element / (config.partSize * config.hiddenSize) = map task
    · right
      intro old
      rw [stageStore, if_pos copied]
    · left
      intro old
      rw [stageStore, if_neg copied]
  · obtain ⟨task, bound, same⟩ := permuted.surjOn inside
    refine ⟨_, List.mem_map_of_mem (schedule.mem_order bound 0), ?_⟩
    intro old
    rw [stageStore, if_pos same.symm]

/-- The staging array of a part holds the slices, expert after expert. -/
theorem staged_slice (permuted : Set.BijOn map (Set.Iio config.expertNum) (Set.Iio config.expertNum))
    (known : expert < config.expertNum) (inRow : row < config.rows mat) (inColumn : column < config.columns mat) :
    staged config map schedule weights undefined part mat
        (expert * config.rows mat * config.columns mat + row * config.columns mat + column) =
      tpSlice config weights part mat expert row column := by
  have within : row * config.columns mat + column < config.partSize * config.hiddenSize := by
    rw [← config.rows_mul_columns mat, Nat.mul_comm (config.rows mat)]
    exact pairIndex_lt inRow inColumn
  have split : expert * config.rows mat * config.columns mat + row * config.columns mat + column =
      expert * (config.partSize * config.hiddenSize) + (row * config.columns mat + column) := by
    rw [Nat.mul_assoc, config.rows_mul_columns, Nat.add_assoc]
  have place := pairIndex_div expert within
  have rest := pairIndex_mod expert within
  rw [split, staged_element permuted (by rw [place]; exact known)]
  simp only [stageSource, place, rest]
  cases mat with
  | down =>
      simp only [tpSlice, Config.columns] at inColumn ⊢
      rw [pairIndex_div row inColumn, pairIndex_mod row inColumn]
      congr 1
      ring
  | up =>
      simp only [tpSlice, Config.columns]
      congr 1
      ring
  | gate =>
      simp only [tpSlice, Config.columns]
      congr 1
      ring

theorem Kernel.byteRow_lt (kernel : Kernel W) {n : Nat} (some_ : 0 < n) (k offset : Nat) :
    kernel.byteRow n k offset < n := by
  unfold Kernel.byteRow
  by_cases inRows : offset < n * kernel.rowBytes k
  · rw [if_pos inRows]
    apply Nat.div_lt_of_lt_mul
    rw [Nat.mul_comm]
    exact inRows
  · rw [if_neg inRows]
    have small : (offset - n * kernel.rowBytes k) % (4 * n) < 4 * n := Nat.mod_lt _ (by omega)
    omega

/-- Packing reads only the elements of the matrix. -/
theorem Kernel.packedByte_congr (kernel : Kernel W) {n k offset : Nat} {source other : Nat → Nat → W}
    (some_ : 0 < n) (same : ∀ row < n, ∀ column < k, source row column = other row column) :
    kernel.packedByte n k source offset = kernel.packedByte n k other offset := by
  have bound := kernel.byteRow_lt some_ k offset
  have rowSame : ∀ row < n, (List.range k).map (source row) = (List.range k).map (other row) := by
    intro row inRow
    apply List.map_congr_left
    intro column member
    exact same row inRow column (List.mem_range.mp member)
  unfold Kernel.packedByte
  simp only
  split
  · congr 1
    apply List.map_congr_left
    intro inner member
    have inBlock := List.mem_range.mp member
    apply rowSame
    omega
  · rw [rowSame _ bound]

/-- The slot of a logical expert holds its quantised slice, in any order of the
tasks. -/
theorem quantised_slot (permuted : Set.BijOn map (Set.Iio config.expertNum) (Set.Iio config.expertNum))
    (known : expert < config.expertNum) (inside : offset < config.bytes kernel mat) :
    quantised config kernel map schedule weights undefined blank part mat ⟨expert, offset⟩ =
      quantisedSlice config kernel weights part mat expert offset := by
  have some_ := config.rows_positive mat
  have bound := kernel.byteRow_lt some_ (config.columns mat) offset
  have share : kernel.byteRow (config.rows mat) (config.columns mat) offset / kernel.nBlock <
      kernel.recommendedNth (config.rows mat) := div_lt_blocks kernel.nBlockPositive bound
  have packed : kernel.packedByte (config.rows mat) (config.columns mat) (fun row column =>
      staged config map schedule weights undefined part mat
        (expert * config.rows mat * config.columns mat + row * config.columns mat + column)) offset =
      quantisedSlice config kernel weights part mat expert offset := by
    apply kernel.packedByte_congr some_
    intro row inRow column inColumn
    exact staged_slice permuted known inRow inColumn
  apply Store.runAll_agreed
  · intro store member
    obtain ⟨task, -, rfl⟩ := List.mem_map.mp member
    simp only [Store.Skips, fromMatStore]
    split
    · next writes =>
        right
        intro old
        rw [← writes.1, packed]
    · left
      intro old
      rfl
  · obtain ⟨index, place, same⟩ := permuted.surjOn known
    refine ⟨_, List.mem_map_of_mem (schedule.mem_order (pairIndex_lt place share) 1), ?_⟩
    intro old
    simp only [fromMatStore, pairIndex_div index share, pairIndex_mod index share, same]
    rw [if_pos ⟨trivial, inside, (mem_block_iff kernel.nBlockPositive bound).mpr rfl⟩, packed]

/-! ## Saving and loading -/

def classOfMat : Mat → Nat
  | .up => 0
  | .gate => 1
  | .down => 2

theorem matOfClass_classOfMat (mat : Mat) : matOfClass (classOfMat mat) = mat := by
  cases mat with
  | up => rfl
  | gate => rfl
  | down => rfl

theorem classOfMat_lt (mat : Mat) : classOfMat mat < 3 := by
  cases mat with
  | up => decide
  | gate => decide
  | down => decide

theorem writeWeights_names {size scaleSize part expert : Nat} {mat : Mat} {buffer : Nat → UInt8}
    (old : Option Contents)
    (writes : writeWeights size scaleSize part mat expert buffer file old = some contents) :
    file.part = part ∧ file.mat = mat ∧ file.expert = expert := by
  unfold writeWeights at writes
  split at writes
  · next same => simp [same]
  · split at writes
    · next same => simp [same]
    · contradiction

/-- A file of a saved matrix holds what the task of the matrix writes. -/
theorem saved_file {slots : Nat → Mat → SlotByte → UInt8} (mat : Mat)
    (permuted : Set.BijOn map (Set.Iio config.expertNum) (Set.Iio config.expertNum))
    (inParts : part < config.tpCount) (known : expert < config.expertNum)
    (writes : ∀ old, writeWeights (config.bytes kernel mat) (4 * config.rows mat) part mat expert
      (fun offset => slots part mat ⟨expert, offset⟩) file old = some contents) :
    saved config kernel map schedule slots files file = contents := by
  obtain ⟨partSame, matSame, expertSame⟩ := writeWeights_names none (writes none)
  apply Store.runAll_agreed
  · intro store member
    obtain ⟨task, -, rfl⟩ := List.mem_map.mp member
    by_cases named : file.part = task / (config.expertNum * 3) ∧
        file.mat = matOfClass (task % (config.expertNum * 3) % 3) ∧
        file.expert = map (task % (config.expertNum * 3) / 3)
    · right
      intro old
      simp only [saveStore, ← named.1, ← named.2.1, ← named.2.2, partSame, matSame, expertSame]
      exact writes old
    · left
      intro old
      by_contra written
      obtain ⟨other, holds⟩ := Option.ne_none_iff_exists'.mp written
      exact named (writeWeights_names old holds)
  · obtain ⟨index, place, same⟩ := permuted.surjOn known
    have share := classOfMat_lt mat
    have task : index * 3 + classOfMat mat < config.expertNum * 3 := by
      have place_ : index < config.expertNum := place
      omega
    refine ⟨_, List.mem_map_of_mem (schedule.mem_order (pairIndex_lt inParts task) 2), ?_⟩
    intro old
    simp only [pairIndex_div part task, pairIndex_mod part task, saveStore, pairIndex_div index share,
      pairIndex_mod index share, matOfClass_classOfMat, same]
    exact writes old

theorem Config.scale_le_bytes (config : Config) (kernel : Kernel W) (mat : Mat) :
    4 * config.rows mat ≤ config.bytes kernel mat := by
  have scale : 4 * config.rows mat * 1 ≤ 4 * config.rows mat * kernel.sections :=
    Nat.mul_le_mul_left _ kernel.sectionsPositive
  unfold Config.bytes Kernel.requiredSize
  omega

theorem readFile_present {files : Files} {contents : Contents} (found : files file = some contents)
    (sized : contents.size = expected) : readFile files file expected = .ok contents.byte := by
  simp only [readFile, found, sized, ne_eq, not_true_eq_false, if_false]

theorem readWeights_saved {slots : Nat → Mat → SlotByte → UInt8}
    (permuted : Set.BijOn map (Set.Iio config.expertNum) (Set.Iio config.expertNum))
    (inParts : part < config.tpCount) (known : expert < config.expertNum) :
    readWeights (saved config kernel map schedule slots files) part mat expert (config.bytes kernel mat)
        (4 * config.rows mat) = .ok fun offset => slots part mat ⟨expert, offset⟩ := by
  have scaleFits := config.scale_le_bytes kernel mat
  have quant : saved config kernel map schedule slots files
      ⟨part, mat, expert, config.bytes kernel mat - 4 * config.rows mat, false⟩ =
        some ⟨config.bytes kernel mat - 4 * config.rows mat, fun offset => slots part mat ⟨expert, offset⟩⟩ := by
    apply saved_file mat permuted inParts known
    intro old
    simp [writeWeights]
  have scale : saved config kernel map schedule slots files
      ⟨part, mat, expert, 4 * config.rows mat, true⟩ =
        some ⟨4 * config.rows mat, fun offset => slots part mat
          ⟨expert, config.bytes kernel mat - 4 * config.rows mat + offset⟩⟩ := by
    apply saved_file mat permuted inParts known
    intro old
    simp [writeWeights]
  rw [readWeights, if_neg (by omega), readFile_present quant rfl, readFile_present scale rfl]
  simp only [bind, Except.bind, pure, Except.pure]
  congr 1
  funext offset
  split
  · rfl
  · congr 2
    omega

/-- Loading succeeds, and every slot gets what was saved of its logical expert. -/
theorem loaded_saved {slots : Nat → Mat → SlotByte → UInt8}
    (permuted : Set.BijOn map (Set.Iio config.expertNum) (Set.Iio config.expertNum))
    (inParts : part < config.tpCount) :
    ∃ table, loaded config kernel map reload (saved config kernel map schedule slots files) blank part =
        .ok table ∧
      ∀ mat slot offset, slot < config.expertNum → offset < config.bytes kernel mat →
        table mat ⟨slot, offset⟩ = slots part mat ⟨map slot, offset⟩ := by
  have reads : ∀ mat slot, slot < config.expertNum →
      readExpert config kernel (saved config kernel map schedule slots files) part mat (map slot) =
        .ok fun offset => slots part mat ⟨map slot, offset⟩ := by
    intro mat slot inSlots
    exact readWeights_saved permuted inParts (permuted.mapsTo inSlots)
  have clean : loadErrors config kernel map reload (saved config kernel map schedule slots files) part = [] := by
    apply List.filterMap_eq_nil_iff.mpr
    intro task member
    have bound := Schedule.lt_of_mem_order member
    rw [reads _ (task / 3) (by omega)]
  refine ⟨_, by rw [loaded, clean], ?_⟩
  intro mat slot offset inSlots inside
  simp only [reads mat slot inSlots]
  rw [if_pos ⟨inSlots, inside⟩]

/-! ## The same table -/

/-- What the weights and the map do not determine: the orders of the tasks, the
undefined memory and the files that were there before. -/
structure Environment (W : Type) where
  schedule : Schedule
  reload : Schedule
  undefined : Nat → W
  blank : SlotByte → UInt8
  fresh : Mat → SlotByte → UInt8
  files : Files

def onlineTable (config : Config) (kernel : Kernel W) (map : Nat → Nat) (environment : Environment W)
    (weights : Mat → Nat → W) (part : Nat) (mat : Mat) : SlotByte → UInt8 :=
  quantised config kernel map environment.schedule weights environment.undefined environment.blank part mat

/-- The slots of a fresh instance that loads the saved files with the same map. -/
def reloadedTable (config : Config) (kernel : Kernel W) (map : Nat → Nat) (environment : Environment W)
    (weights : Mat → Nat → W) (part : Nat) : Except ReadError (Mat → SlotByte → UInt8) :=
  loaded config kernel map environment.reload
    (saved config kernel map environment.schedule (onlineTable config kernel map environment weights)
      environment.files) environment.fresh part

/-- Every slot holds the quantised slice of its logical expert, both in the
instance that quantises and in the one that reloads. -/
def SameTable (config : Config) (kernel : Kernel W) (map : Nat → Nat) (environment : Environment W)
    (weights : Mat → Nat → W) : Prop :=
  ∀ part < config.tpCount, ∃ table, reloadedTable config kernel map environment weights part = .ok table ∧
    ∀ mat slot offset, slot < config.expertNum → offset < config.bytes kernel mat →
      onlineTable config kernel map environment weights part mat ⟨slot, offset⟩ = table mat ⟨slot, offset⟩ ∧
      table mat ⟨slot, offset⟩ = quantisedSlice config kernel weights part mat (map slot) offset

theorem Kernel.packedByte_section (kernel : Kernel W) {n k index byte : Nat} (source : Nat → Nat → W)
    (some_ : 0 < n) (inFloat : byte < 4) :
    kernel.packedByte n k source (n * kernel.rowBytes k + (index * (4 * n) + byte)) =
      kernel.section_ index ((List.range k).map (source 0)) byte := by
  have small : byte < 4 * n := by omega
  have inner : (index * (4 * n) + byte) % 4 = byte := by
    rw [Nat.mul_left_comm, Nat.mul_add_mod, Nat.mod_eq_of_lt inFloat]
  have first : byte / 4 = 0 := Nat.div_eq_of_lt inFloat
  have past : ¬ n * kernel.rowBytes k + (index * (4 * n) + byte) < n * kernel.rowBytes k := by omega
  simp only [Kernel.packedByte, Kernel.byteRow, if_neg past, Nat.add_sub_cancel_left,
    pairIndex_div index small, pairIndex_mod index small, inner, first]

/-- The weights in which one expert differs from the others. -/
def marked (config : Config) (kernel : Kernel W) (expert : Nat) : Mat → Nat → W :=
  fun _ element =>
    if element / (config.intermediateSize * config.hiddenSize) = expert then kernel.low else kernel.high

theorem tpSlice_marked (kernel : Kernel W) (inParts : part < config.tpCount) (expert : Nat)
    (inColumn : column < config.hiddenSize) :
    tpSlice config (marked config kernel mark) part .up expert 0 column =
      if expert = mark then kernel.low else kernel.high := by
  have row : part * config.partSize < config.intermediateSize :=
    Nat.mul_lt_mul_of_pos_right inParts config.partPositive
  have within : part * config.partSize * config.hiddenSize + column <
      config.intermediateSize * config.hiddenSize := by
    rw [Nat.mul_comm config.intermediateSize]
    exact pairIndex_lt row inColumn
  simp only [tpSlice, marked, Nat.add_zero, Nat.add_assoc, pairIndex_div expert within]

/-- In the instance that quantises a slot holds the expert of its own number. -/
theorem onlineTable_slot {environment : Environment W}
    (permuted : Set.BijOn map (Set.Iio config.expertNum) (Set.Iio config.expertNum))
    (inSlots : slot < config.expertNum) (inside : offset < config.bytes kernel mat) :
    onlineTable config kernel map environment weights part mat ⟨slot, offset⟩ =
      quantisedSlice config kernel weights part mat slot offset :=
  quantised_slot permuted inSlots inside

/-- In the instance that reloads a slot holds its logical expert. -/
theorem reloadedTable_slot (environment : Environment W) (weights : Mat → Nat → W)
    (permuted : Set.BijOn map (Set.Iio config.expertNum) (Set.Iio config.expertNum))
    (inParts : part < config.tpCount) :
    ∃ table, reloadedTable config kernel map environment weights part = .ok table ∧
      ∀ mat slot offset, slot < config.expertNum → offset < config.bytes kernel mat →
        table mat ⟨slot, offset⟩ = quantisedSlice config kernel weights part mat (map slot) offset := by
  obtain ⟨table, succeeds, holds⟩ := loaded_saved permuted inParts
  refine ⟨table, succeeds, ?_⟩
  intro mat slot offset inSlots inside
  rw [holds mat slot offset inSlots inside]
  exact onlineTable_slot permuted (permuted.mapsTo inSlots) inside

/-- Marked weights tell the slices of two experts apart. -/
theorem quantisedSlice_marked (config : Config) (kernel : Kernel W) (different : other ≠ expert) :
    ∃ offset < config.bytes kernel .up,
      quantisedSlice config kernel (marked config kernel expert) 0 .up expert offset ≠
        quantisedSlice config kernel (marked config kernel expert) 0 .up other offset := by
  obtain ⟨index, byte, inSections, inFloat, apart⟩ :=
    kernel.separated (config.columns .up) config.hiddenPositive
  have some_ := config.rows_positive .up
  have row : ∀ any : Nat, (List.range (config.columns .up)).map
      (tpSlice config (marked config kernel expert) 0 .up any 0) =
        List.replicate (config.columns .up) (if any = expert then kernel.low else kernel.high) := by
    intro any
    rw [List.map_eq_replicate_iff.mpr, List.length_range]
    intro column member
    exact tpSlice_marked kernel config.tpPositive any (List.mem_range.mp member)
  refine ⟨config.rows .up * kernel.rowBytes (config.columns .up) + (index * (4 * config.rows .up) + byte), ?_, ?_⟩
  · have whole : (index + 1) * (4 * config.rows .up) ≤ kernel.sections * (4 * config.rows .up) :=
      Nat.mul_le_mul_right _ inSections
    rw [Nat.add_mul, Nat.one_mul, Nat.mul_comm kernel.sections] at whole
    unfold Config.bytes Kernel.requiredSize
    omega
  · rw [quantisedSlice, quantisedSlice, kernel.packedByte_section _ some_ inFloat,
      kernel.packedByte_section _ some_ inFloat, row, row, if_pos rfl, if_neg different]
    exact apart

theorem marked_not_same {environment : Environment W}
    (permuted : Set.BijOn map (Set.Iio config.expertNum) (Set.Iio config.expertNum))
    (inSlots : slot < config.expertNum) (different : map slot ≠ slot) :
    ¬ SameTable config kernel map environment (marked config kernel slot) := by
  intro same
  obtain ⟨offset, inside, apart⟩ := quantisedSlice_marked config kernel different
  obtain ⟨table, -, holds⟩ := same 0 config.tpPositive
  obtain ⟨online, reloaded⟩ := holds .up slot offset inSlots inside
  apply apart
  rw [← reloaded, ← online]
  exact (onlineTable_slot permuted inSlots inside).symm

/-- The two tables are the table of the logical experts, whatever the weights,
exactly for the identity map: quantisation fills the slot of the logical expert,
and loading the slot of the physical one. -/
theorem same_table_iff (config : Config) (kernel : Kernel W) (environment : Environment W)
    (permuted : Set.BijOn map (Set.Iio config.expertNum) (Set.Iio config.expertNum)) :
    (∀ weights, SameTable config kernel map environment weights) ↔
      ∀ slot < config.expertNum, map slot = slot := by
  constructor
  · intro same slot inSlots
    by_contra different
    exact marked_not_same permuted inSlots different (same (marked config kernel slot))
  · intro identity weights part inParts
    obtain ⟨table, succeeds, reloaded⟩ := reloadedTable_slot environment weights permuted inParts
    refine ⟨table, succeeds, ?_⟩
    intro mat slot offset inSlots inside
    refine ⟨?_, reloaded mat slot offset inSlots inside⟩
    rw [reloaded mat slot offset inSlots inside, identity slot inSlots]
    exact onlineTable_slot permuted inSlots inside

/-- The INT8 kernel on weights that are 0 or 1: a row that has a 1 has the scale
1/127, and its ones become 127. -/
def int8OfBits : Kernel Bool where
  nBlock := 256
  rowBytes := fun k => k
  sections := 1
  packed := fun block offset => if block.flatten.getD offset false then 127 else 0
  section_ := fun _ row byte => if row.any id then [0x04, 0x02, 0x01, 0x3C].getD byte 0 else 0
  low := false
  high := true
  nBlockPositive := block_positive
  sectionsPositive := by decide
  separated := by
    intro k positive
    refine ⟨0, 0, by decide, by decide, ?_⟩
    have some_ : k ≠ 0 := by omega
    simp [some_]

def threeExperts : Config := ⟨3, 2, 64, 64, by decide, by decide, by decide⟩

def cleanEnvironment : Environment Bool where
  schedule := .inOrder
  reload := .inOrder
  undefined := fun _ => false
  blank := fun _ => 0
  fresh := fun _ _ => 0
  files := fun _ => none

/-- The map that moves three experts around. -/
def rotation (slot : Nat) : Nat :=
  (slot + 1) % 3

theorem rotation_permutes : Set.BijOn rotation (Set.Iio 3) (Set.Iio 3) := by
  refine ⟨?_, ?_, ?_⟩
  · intro slot inside
    exact Nat.mod_lt _ (by decide)
  · intro slot inside other inside' same
    simp only [Set.mem_Iio, rotation] at inside inside' same
    omega
  · intro expert inside
    refine ⟨(expert + 2) % 3, Nat.mod_lt _ (by decide), ?_⟩
    simp only [Set.mem_Iio, rotation] at inside ⊢
    omega

theorem same_table_iff_rotation :
    Set.BijOn rotation (Set.Iio threeExperts.expertNum) (Set.Iio threeExperts.expertNum) ∧
      ((∀ weights, SameTable threeExperts int8OfBits rotation cleanEnvironment weights) ↔
        ∀ slot < threeExperts.expertNum, rotation slot = slot) :=
  ⟨rotation_permutes, same_table_iff threeExperts int8OfBits cleanEnvironment rotation_permutes⟩

/-- With the rotation slot 0 of the instance that quantises holds expert 0, and
slot 0 of the instance that reloads holds expert 1. -/
theorem rotation_tables_differ :
    Set.BijOn rotation (Set.Iio threeExperts.expertNum) (Set.Iio threeExperts.expertNum) ∧
      ¬ SameTable threeExperts int8OfBits rotation cleanEnvironment (marked threeExperts int8OfBits 0) :=
  ⟨rotation_permutes, marked_not_same rotation_permutes (by decide) (by decide)⟩

end KtKernel.Amx.ExpertFiles
