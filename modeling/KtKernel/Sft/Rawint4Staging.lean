import Mathlib.Data.Fintype.EquivFin
import Mathlib.Data.Nat.ModEq
import KtKernel.Data.Checks
import KtKernel.Data.Jobs
import KtKernel.Data.Tiling

namespace KtKernel.Sft

open KtKernel.Data

/-! The staging of RAWINT4 weights: `load_rawint4_weights_with_tp_staging`.

A cell is a byte of packed weights or a BF16 scale.  Sizes are not negative.
-/

namespace Rawint4

structure QuantConfig where
  bits : Nat
  groupSize : Nat
  zeroPoint : Bool
deriving DecidableEq, Repr

/-- The staged arrays of a part, and the sources of the same names. -/
inductive StageArray where
  | gate
  | up
  | down
  | gateScale
  | upScale
  | downScale
deriving DecidableEq, Repr

/-- What the loader reads of the configuration of a part. -/
structure PartConfig where
  quantConfig : QuantConfig
  expertNum : Nat
  hiddenSize : Nat
  intermediateSize : Nat
deriving DecidableEq, Repr

/-- What the loader reads of its own configuration.  `none` is a null pointer. -/
structure Config (α : Type) where
  quantConfig : QuantConfig
  numGpuExperts : Nat
  expertNum : Nat
  hiddenSize : Nat
  intermediateSize : Nat
  physicalToLogicalMap : Option (Nat → Nat)
  /-- A pointer for every expert. -/
  projs : StageArray → List (List (Option (Nat → α)))
  /-- One buffer for all experts. -/
  proj : StageArray → Option (Nat → α)

/-- The constructor of every part has checked its configuration. -/
def validateK2KgroupContract (config : PartConfig) : Except String Unit := do
  require (config.quantConfig = ⟨4, 32, false⟩)
    "K2 RAWINT4 SFT requires signed int4 KGroup weights with group_size=32 and no zero point"
  require (0 < config.hiddenSize && 0 < config.intermediateSize && 0 < config.expertNum)
    "K2 RAWINT4 SFT received invalid MoE dimensions"
  require (config.hiddenSize % config.quantConfig.groupSize = 0 && config.intermediateSize % config.quantConfig.groupSize = 0)
    "K2 RAWINT4 SFT hidden and intermediate dimensions must be group-32 aligned"

variable {α : Type}

namespace Config

def perExpert (config : Config α) : Bool :=
  !(config.projs .gate).isEmpty

def arrays : List StageArray :=
  [.gate, .up, .down, .gateScale, .upScale, .downScale]

/-- `parts[0].size()` -/
def firstSize (parts : List (List (Option (Nat → α)))) : Nat :=
  (parts.headD []).length

def checkSource (config : Config α) : Except String Unit := do
  require (config.quantConfig = ⟨4, 32, false⟩) "RAWINT4 SFT requires signed group-32 weights without zero points"
  require (config.numGpuExperts = 0) "RAWINT4 SFT requires all routed experts to reside on CPU"
  if config.perExpert then
    require (arrays.all fun array => !(config.projs array).isEmpty && config.expertNum ≤ firstSize (config.projs array))
      "RAWINT4 SFT per-expert packed weights/scales are incomplete"
  else
    require (arrays.all fun array => (config.proj array).isSome)
      "RAWINT4 SFT packed weights and BF16 scales must all be provided"

/-- The loop over the parts, from an offset on. -/
def intermediateOffsets (config : Config α) (intermediateOffset : Nat) : List PartConfig → Except String (List Nat)
  | [] => do
      require (intermediateOffset = config.intermediateSize) "RAWINT4 SFT TP slices do not cover the intermediate dimension"
      return []
  | part :: rest => do
      require (part.hiddenSize = config.hiddenSize && part.expertNum = config.expertNum && 0 < part.intermediateSize &&
          part.intermediateSize % config.quantConfig.groupSize = 0 && intermediateOffset % config.quantConfig.groupSize = 0)
        "RAWINT4 SFT TP slice is not group aligned"
      let offsets ← config.intermediateOffsets (intermediateOffset + part.intermediateSize) rest
      return intermediateOffset :: offsets

def check (config : Config α) (parts : List PartConfig) : Except String (List Nat) := do
  config.checkSource
  config.intermediateOffsets 0 parts

def expertMap (config : Config α) (physicalExpert : Nat) : Nat :=
  match config.physicalToLogicalMap with
  | some map => map physicalExpert
  | none => physicalExpert

/-- The cells of an expert. -/
def source (config : Config α) (array : StageArray) (logicalExpert contiguousStride : Nat) : Option (Nat → α) :=
  if config.perExpert then (((config.projs array).headD [])[logicalExpert]?).join
  else (config.proj array).map fun contiguous offset => contiguous (logicalExpert * contiguousStride + offset)

def nullPointer : String :=
  "RAWINT4 SFT encountered a null expert weight/scale pointer"

def stageExpert (config : Config α) (part : PartConfig) (rowOffset physicalExpert : Nat) :
    Except String (List (Copy StageArray α)) := do
  let groupSize := config.quantConfig.groupSize
  let localWeightElems := part.intermediateSize * part.hiddenSize
  let localScaleElems := localWeightElems / groupSize
  let logicalExpert := config.expertMap physicalExpert
  let fullWeightElems := config.intermediateSize * config.hiddenSize
  let fullScaleElems := fullWeightElems / groupSize
  let gateSrc ← expectSome (config.source .gate logicalExpert (fullWeightElems / 2)) nullPointer
  let upSrc ← expectSome (config.source .up logicalExpert (fullWeightElems / 2)) nullPointer
  let downSrc ← expectSome (config.source .down logicalExpert (fullWeightElems / 2)) nullPointer
  let gateScaleSrc ← expectSome (config.source .gateScale logicalExpert fullScaleElems) nullPointer
  let upScaleSrc ← expectSome (config.source .upScale logicalExpert fullScaleElems) nullPointer
  let downScaleSrc ← expectSome (config.source .downScale logicalExpert fullScaleElems) nullPointer
  let dstWeight := logicalExpert * localWeightElems / 2
  let dstScale := logicalExpert * localScaleElems
  let gateRowBytes := part.intermediateSize * config.hiddenSize / 2
  let gateRowScales := part.intermediateSize * (config.hiddenSize / groupSize)
  let gateCopy := [⟨.gate, dstWeight, gateRowBytes, fun inner => gateSrc (rowOffset * config.hiddenSize / 2 + inner)⟩]
  let upCopy := [⟨.up, dstWeight, gateRowBytes, fun inner => upSrc (rowOffset * config.hiddenSize / 2 + inner)⟩]
  let gateScaleCopy := [⟨.gateScale, dstScale, gateRowScales, fun inner =>
    gateScaleSrc (rowOffset * (config.hiddenSize / groupSize) + inner)⟩]
  let upScaleCopy := [⟨.upScale, dstScale, gateRowScales, fun inner =>
    upScaleSrc (rowOffset * (config.hiddenSize / groupSize) + inner)⟩]
  let downCopies := (List.range config.hiddenSize).flatMap fun hiddenRow =>
    [⟨.down, dstWeight + hiddenRow * part.intermediateSize / 2, part.intermediateSize / 2, fun inner =>
        downSrc ((hiddenRow * config.intermediateSize + rowOffset) / 2 + inner)⟩,
      ⟨.downScale, dstScale + hiddenRow * (part.intermediateSize / groupSize), part.intermediateSize / groupSize, fun inner =>
        downScaleSrc (hiddenRow * (config.intermediateSize / groupSize) + rowOffset / groupSize + inner)⟩]
  return gateCopy ++ (upCopy ++ (gateScaleCopy ++ (upScaleCopy ++ downCopies)))

/-- The cells of a staged array, as it is resized. -/
def stageSize (config : Config α) (part : PartConfig) : StageArray → Nat
  | .gate | .up | .down => part.expertNum * (part.intermediateSize * part.hiddenSize) / 2
  | .gateScale | .upScale | .downScale => part.expertNum * (part.intermediateSize * part.hiddenSize / config.quantConfig.groupSize)

end Config

/-- The weights of a cell: two nibbles in a byte, 32 weights of a scale. -/
def StageArray.unit : StageArray → Nat
  | .gate | .up | .down => 2
  | .gateScale | .upScale | .downScale => 32

def StageArray.byColumns : StageArray → Bool
  | .down | .downScale => true
  | .gate | .up | .gateScale | .upScale => false

namespace Config

def expertSource (config : Config α) (array : StageArray) (logicalExpert : Nat) : Option (Nat → α) :=
  config.source array logicalExpert (config.intermediateSize * config.hiddenSize / array.unit)

/-- Slot `e` holds the rows of gate and up from `rowOffset` on, and the columns of down, of
logical expert `e`. -/
structure HoldsSlices (config : Config α) (part : PartConfig) (rowOffset : Nat) (memory : StageArray × Nat → α) : Prop where
  rows : ∀ array, array.byColumns = false → ∀ e < config.expertNum, ∃ src, config.expertSource array e = some src ∧
    ∀ row < part.intermediateSize, ∀ cell < config.hiddenSize / array.unit,
      memory (array, (e * part.intermediateSize + row) * (config.hiddenSize / array.unit) + cell) =
        src ((rowOffset + row) * (config.hiddenSize / array.unit) + cell)
  columns : ∀ array, array.byColumns = true → ∀ e < config.expertNum, ∃ src, config.expertSource array e = some src ∧
    ∀ row < config.hiddenSize, ∀ cell < part.intermediateSize / array.unit,
      memory (array, (e * config.hiddenSize + row) * (part.intermediateSize / array.unit) + cell) =
        src (row * (config.intermediateSize / array.unit) + rowOffset / array.unit + cell)

end Config

/-! ## Slots -/

namespace Config

/-- What the checks of the loader and of the constructors of the parts have left. -/
structure Aligned (config : Config α) (part : PartConfig) (rowOffset : Nat) : Prop where
  groupSize : config.quantConfig.groupSize = 32
  hidden : part.hiddenSize = config.hiddenSize
  experts : part.expertNum = config.expertNum
  hiddenGroups : 32 ∣ config.hiddenSize
  groups : 32 ∣ part.intermediateSize
  offset : 32 ∣ rowOffset
  allGroups : 32 ∣ config.intermediateSize
  someHidden : 0 < config.hiddenSize
  some_ : 0 < part.intermediateSize

variable (config : Config α) (part : PartConfig) (rowOffset : Nat)

def slotRows (array : StageArray) : Nat :=
  if array.byColumns then config.hiddenSize else part.intermediateSize

def slotWidth (array : StageArray) : Nat :=
  if array.byColumns then part.intermediateSize / array.unit else config.hiddenSize / array.unit

def slotSize (array : StageArray) : Nat :=
  config.slotRows part array * config.slotWidth part array

/-- The place of a cell of a slot among the cells of its expert. -/
def slotSource (array : StageArray) (offset : Nat) : Nat :=
  if array.byColumns then
    offset / config.slotWidth part array * (config.intermediateSize / array.unit) + rowOffset / array.unit +
      offset % config.slotWidth part array
  else rowOffset * (config.hiddenSize / array.unit) + offset

def slot (src : StageArray → Nat → α) (logicalExpert : Nat) (cell : StageArray × Nat) : Option α :=
  Copy.window cell.1 (logicalExpert * config.slotSize part cell.1) (config.slotSize part cell.1)
    (fun offset => src cell.1 (config.slotSource part rowOffset cell.1 offset)) cell

variable {config part rowOffset}

theorem unit_dvd (array : StageArray) : array.unit ∣ 32 := by
  cases array <;> decide

theorem unit_pos (array : StageArray) : 0 < array.unit := by
  cases array <;> decide

theorem Aligned.slotWidth_pos (aligned : config.Aligned part rowOffset) (array : StageArray) : 0 < config.slotWidth part array := by
  have fits : array.unit ≤ 32 := Nat.le_of_dvd (by decide) (unit_dvd array)
  have hidden := Nat.le_of_dvd aligned.someHidden aligned.hiddenGroups
  have own := Nat.le_of_dvd aligned.some_ aligned.groups
  rw [slotWidth]
  split
  · exact Nat.div_pos (fits.trans own) (unit_pos array)
  · exact Nat.div_pos (fits.trans hidden) (unit_pos array)

theorem Aligned.slotSize_eq (aligned : config.Aligned part rowOffset) (array : StageArray) :
    config.slotSize part array = part.intermediateSize * config.hiddenSize / array.unit := by
  rw [slotSize, slotRows, slotWidth]
  split
  · rw [← Nat.mul_div_assoc _ ((unit_dvd array).trans aligned.groups), Nat.mul_comm]
  · rw [← Nat.mul_div_assoc _ ((unit_dvd array).trans aligned.hiddenGroups)]

theorem Aligned.stageSize_eq (aligned : config.Aligned part rowOffset) (array : StageArray) :
    config.stageSize part array = config.expertNum * config.slotSize part array := by
  have even : 2 ∣ part.intermediateSize * config.hiddenSize := Dvd.dvd.mul_left ((show 2 ∣ 32 by decide).trans aligned.hiddenGroups) _
  rw [aligned.slotSize_eq]
  cases array with
  | gate | up | down => rw [stageSize, aligned.hidden, aligned.experts, Nat.mul_div_assoc _ even]; rfl
  | gateScale | upScale | downScale => rw [stageSize, aligned.hidden, aligned.experts, aligned.groupSize]; rfl

variable {src : StageArray → Nat → α} {logicalExpert : Nat}

/-- The range of an array that is divided by rows. -/
theorem rows_exactly (src : StageArray → Nat → α) (logicalExpert : Nat) (array : StageArray) (byRows : array.byColumns = false) :
    Copy.Exactly [⟨array, logicalExpert * config.slotSize part array, config.slotSize part array, fun inner =>
        src array (rowOffset * (config.hiddenSize / array.unit) + inner)⟩]
      fun cell => if array = cell.1 then config.slot part rowOffset src logicalExpert cell else none where
  inside := by
    rintro ⟨region, index⟩ value found
    dsimp only at found
    split at found
    · next same =>
        subst same
        rw [slot, Copy.window] at found
        split at found
        · next inside =>
            apply Copy.Delivers.single (Copy.covers_iff.mpr inside)
            rw [slotSource, byRows, if_neg Bool.false_ne_true] at found
            exact Option.some.inj found
        · cases found
    · cases found
  outside := by
    rintro ⟨region, index⟩ none
    apply Copy.Within.writes_eq_zero (Copy.Within.single rfl (Nat.le_refl _) (Nat.le_refl _))
    rintro ⟨same, inside⟩
    subst same
    dsimp only at none
    rw [if_pos rfl, slot, Copy.window, if_pos ⟨rfl, inside⟩] at none
    cases none

theorem columns_exactly (src : StageArray → Nat → α) (logicalExpert : Nat) (array : StageArray)
    (aligned : config.Aligned part rowOffset) (byColumns : array.byColumns = true) :
    Copy.Exactly (Copy.strided array (logicalExpert * config.slotSize part array) (config.slotWidth part array)
        (config.slotWidth part array) (fun row inner =>
          src array (row * (config.intermediateSize / array.unit) + rowOffset / array.unit + inner)) config.hiddenSize)
      fun cell => if array = cell.1 then config.slot part rowOffset src logicalExpert cell else none := by
  have size : config.slotSize part array = config.hiddenSize * config.slotWidth part array := by
    rw [slotSize, slotRows, byColumns, if_pos rfl]
  apply (Copy.strided_exactly array (logicalExpert * config.slotSize part array) _ (show 0 + config.slotWidth part array ≤ _ from
    (Nat.zero_add _).le)).congr
  rintro ⟨region, index⟩
  dsimp only
  by_cases same : array = region
  · subst same
    have small := Nat.mod_lt (index - logicalExpert * config.slotSize part array) (aligned.slotWidth_pos array)
    rw [if_pos rfl, slot, Copy.window, Copy.lanes]
    dsimp only
    rw [← size]
    by_cases inside : logicalExpert * config.slotSize part array ≤ index ∧
        index < logicalExpert * config.slotSize part array + config.slotSize part array
    · rw [if_pos ⟨rfl, inside.1, inside.2, Nat.zero_le _, by omega⟩, if_pos ⟨rfl, inside⟩, slotSource, byColumns, if_pos rfl,
        Nat.sub_zero]
    · rw [if_neg fun covered => inside ⟨covered.2.1, covered.2.2.1⟩, if_neg fun covered => inside covered.2]
  · rw [if_neg same, Copy.lanes, if_neg fun covered => same covered.1]

section

variable (config part rowOffset src logicalExpert) (array : StageArray)

def rowsCopy : List (Copy StageArray α) :=
  [⟨array, logicalExpert * config.slotSize part array, config.slotSize part array, fun inner =>
    src array (rowOffset * (config.hiddenSize / array.unit) + inner)⟩]

def columnsCopy (row : Nat) : List (Copy StageArray α) :=
  [⟨array, logicalExpert * config.slotSize part array + row * config.slotWidth part array, config.slotWidth part array, fun inner =>
    src array (row * (config.intermediateSize / array.unit) + rowOffset / array.unit + inner)⟩]

end

/-- The copies of a task that has found all its sources. -/
theorem stageExpert_ok {physicalExpert : Nat} {copies : List (Copy StageArray α)} (aligned : config.Aligned part rowOffset)
    (staged : config.stageExpert part rowOffset physicalExpert = .ok copies) :
    ∃ src, (∀ array, config.expertSource array (config.expertMap physicalExpert) = some (src array)) ∧
      copies = config.rowsCopy part rowOffset src (config.expertMap physicalExpert) .gate ++
        (config.rowsCopy part rowOffset src (config.expertMap physicalExpert) .up ++
        (config.rowsCopy part rowOffset src (config.expertMap physicalExpert) .gateScale ++
        (config.rowsCopy part rowOffset src (config.expertMap physicalExpert) .upScale ++
          (List.range config.hiddenSize).flatMap fun row =>
            config.columnsCopy part rowOffset src (config.expertMap physicalExpert) .down row ++
              config.columnsCopy part rowOffset src (config.expertMap physicalExpert) .downScale row))) := by
  simp only [stageExpert] at staged
  generalize config.expertMap physicalExpert = logicalExpert at staged ⊢
  obtain ⟨gateSrc, gate, staged⟩ := expectSome_bind_ok.mp staged
  obtain ⟨upSrc, up, staged⟩ := expectSome_bind_ok.mp staged
  obtain ⟨downSrc, down, staged⟩ := expectSome_bind_ok.mp staged
  obtain ⟨gateScaleSrc, gateScale, staged⟩ := expectSome_bind_ok.mp staged
  obtain ⟨upScaleSrc, upScale, staged⟩ := expectSome_bind_ok.mp staged
  obtain ⟨downScaleSrc, downScale, staged⟩ := expectSome_bind_ok.mp staged
  have evenHidden : 2 ∣ config.hiddenSize := (show 2 ∣ 32 by decide).trans aligned.hiddenGroups
  have evenPart : 2 ∣ part.intermediateSize := (show 2 ∣ 32 by decide).trans aligned.groups
  have evenAll : 2 ∣ config.intermediateSize := (show 2 ∣ 32 by decide).trans aligned.allGroups
  have dstWeight : logicalExpert * (part.intermediateSize * config.hiddenSize) / 2 =
      logicalExpert * (part.intermediateSize * config.hiddenSize / 2) := Nat.mul_div_assoc _ (Dvd.dvd.mul_left evenHidden _)
  have firstRow : rowOffset * config.hiddenSize / 2 = rowOffset * (config.hiddenSize / 2) := Nat.mul_div_assoc _ evenHidden
  have gateRowScales : part.intermediateSize * (config.hiddenSize / 32) = part.intermediateSize * config.hiddenSize / 32 :=
    (Nat.mul_div_assoc _ aligned.hiddenGroups).symm
  have dstRow : ∀ row, row * part.intermediateSize / 2 = row * (part.intermediateSize / 2) := fun row =>
    Nat.mul_div_assoc row evenPart
  have srcRow : ∀ row, (row * config.intermediateSize + rowOffset) / 2 = row * (config.intermediateSize / 2) + rowOffset / 2 := by
    intro row
    rw [Nat.add_div_of_dvd_right (Dvd.dvd.mul_left evenAll row), Nat.mul_div_assoc row evenAll]
  rw [aligned.groupSize] at gateScale upScale downScale
  refine ⟨fun
    | .gate => gateSrc
    | .up => upSrc
    | .down => downSrc
    | .gateScale => gateScaleSrc
    | .upScale => upScaleSrc
    | .downScale => downScaleSrc, ?_, ?_⟩
  · intro array
    cases array with
    | gate => exact gate
    | up => exact up
    | down => exact down
    | gateScale => exact gateScale
    | upScale => exact upScale
    | downScale => exact downScale
  · rw [← Except.ok.inj staged]
    simp only [rowsCopy, columnsCopy, aligned.slotSize_eq, slotWidth, StageArray.byColumns, StageArray.unit, aligned.groupSize,
      aligned.hidden, dstWeight, firstRow, gateRowScales, dstRow, srcRow, if_true, List.cons_append, List.nil_append]

/-- A task writes its slot of each array, every cell once. -/
theorem stageExpert_exactly {physicalExpert : Nat} {copies : List (Copy StageArray α)} (aligned : config.Aligned part rowOffset)
    (staged : config.stageExpert part rowOffset physicalExpert = .ok copies) :
    ∃ src, (∀ array, config.expertSource array (config.expertMap physicalExpert) = some (src array)) ∧
      Copy.Exactly copies (config.slot part rowOffset src (config.expertMap physicalExpert)) := by
  obtain ⟨src, sources, rfl⟩ := stageExpert_ok aligned staged
  refine ⟨src, sources, ?_⟩
  generalize config.expertMap physicalExpert = logicalExpert
  -- the loop over the rows of down writes two arrays by turns
  have columns := ((columns_exactly src logicalExpert .down aligned rfl).append
    (columns_exactly src logicalExpert .downScale aligned rfl) (by
      rintro ⟨region, index⟩
      cases region <;> simp)).perm (List.flatMap_append_perm (List.range config.hiddenSize)
        (config.columnsCopy part rowOffset src logicalExpert .down)
        (config.columnsCopy part rowOffset src logicalExpert .downScale)).symm
  have rows : ∀ array, array.byColumns = false → Copy.Exactly (config.rowsCopy part rowOffset src logicalExpert array)
      fun cell => if array = cell.1 then config.slot part rowOffset src logicalExpert cell else none :=
    fun array byRows => rows_exactly src logicalExpert array byRows
  have upScale := (rows .upScale rfl).append columns (by
    rintro ⟨region, index⟩
    cases region <;> simp)
  have gateScale := (rows .gateScale rfl).append upScale (by
    rintro ⟨region, index⟩
    cases region <;> simp)
  have up := (rows .up rfl).append gateScale (by
    rintro ⟨region, index⟩
    cases region <;> simp)
  have gate := (rows .gate rfl).append up (by
    rintro ⟨region, index⟩
    cases region <;> simp)
  apply gate.congr
  rintro ⟨region, index⟩
  cases region <;> simp

/-! ## All tasks of a part -/

def stagedCell (config : Config α) (part : PartConfig) (rowOffset : Nat) (cell : StageArray × Nat) : Option α :=
  let size := config.slotSize part cell.1
  (config.expertSource cell.1 (cell.2 / size)).map fun src => src (config.slotSource part rowOffset cell.1 (cell.2 % size))

def staged (config : Config α) (part : PartConfig) (rowOffset : Nat) (cell : StageArray × Nat) : Option α :=
  if cell.2 < config.expertNum * config.slotSize part cell.1 then config.stagedCell part rowOffset cell else none

def stagedSlot (config : Config α) (part : PartConfig) (rowOffset logicalExpert : Nat) (cell : StageArray × Nat) : Option α :=
  if cell.2 / config.slotSize part cell.1 = logicalExpert then config.stagedCell part rowOffset cell else none

/-- The logical experts are those of the slots, each once. -/
structure Permutes (config : Config α) : Prop where
  inside : ∀ e < config.expertNum, config.expertMap e < config.expertNum
  injective : ∀ e < config.expertNum, ∀ other < config.expertNum, config.expertMap e = config.expertMap other → e = other

theorem Permutes.surjective (permutes : config.Permutes) {logicalExpert : Nat} (inside : logicalExpert < config.expertNum) :
    ∃ e < config.expertNum, config.expertMap e = logicalExpert := by
  let map : Fin config.expertNum → Fin config.expertNum := fun e => ⟨config.expertMap e, permutes.inside e e.isLt⟩
  have injective : Function.Injective map := by
    intro e other same
    exact Fin.ext (permutes.injective e e.isLt other other.isLt (congrArg Fin.val same))
  obtain ⟨e, same⟩ := (Finite.injective_iff_surjective.mp injective) ⟨logicalExpert, inside⟩
  exact ⟨e, e.isLt, congrArg Fin.val same⟩

theorem Aligned.slotSize_pos (aligned : config.Aligned part rowOffset) (array : StageArray) : 0 < config.slotSize part array := by
  apply Nat.mul_pos _ (aligned.slotWidth_pos array)
  rw [slotRows]
  split
  · exact aligned.someHidden
  · exact aligned.some_

theorem slot_iff {cell : StageArray × Nat} {value : α} (aligned : config.Aligned part rowOffset) :
    config.slot part rowOffset src logicalExpert cell = some value ↔ cell.2 / config.slotSize part cell.1 = logicalExpert ∧
      src cell.1 (config.slotSource part rowOffset cell.1 (cell.2 % config.slotSize part cell.1)) = value := by
  have positive := aligned.slotSize_pos cell.1
  have split_ := Nat.div_add_mod' cell.2 (config.slotSize part cell.1)
  have small := Nat.mod_lt cell.2 positive
  rw [slot, Copy.window]
  constructor
  · intro found
    split at found
    · next inside =>
        have quotient : cell.2 / config.slotSize part cell.1 = logicalExpert :=
          Nat.div_eq_of_lt_le inside.2.1 (by rw [Nat.succ_mul]; exact inside.2.2)
        refine ⟨quotient, ?_⟩
        rw [← Option.some.inj found, ← quotient, ← Nat.mod_eq_sub_div_mul]
    · cases found
  · rintro ⟨rfl, rfl⟩
    rw [if_pos ⟨rfl, by omega, by omega⟩, ← Nat.mod_eq_sub_div_mul]

theorem slot_eq (aligned : config.Aligned part rowOffset)
    (sources : ∀ array, config.expertSource array logicalExpert = some (src array)) (cell : StageArray × Nat) :
    config.slot part rowOffset src logicalExpert cell = config.stagedSlot part rowOffset logicalExpert cell := by
  apply Option.ext
  intro value
  rw [slot_iff aligned, stagedSlot]
  split
  · next own =>
      rw [stagedCell, own, sources, Option.map_some, Option.some.injEq]
      exact and_iff_right rfl
  · next other =>
      constructor
      · exact fun both => absurd both.1 other
      · intro impossible
        cases impossible

/-- The tasks of a part that all find their sources write its arrays, every cell once. -/
theorem part_exactly {tasks : Nat → List (Copy StageArray α)} (aligned : config.Aligned part rowOffset)
    (permutes : config.Permutes) (found : ∀ e < config.expertNum, config.stageExpert part rowOffset e = .ok (tasks e)) :
    Copy.Exactly ((List.range config.expertNum).flatMap tasks) (config.staged part rowOffset) := by
  have slots : ∀ cell : StageArray × Nat, cell.2 / config.slotSize part cell.1 < config.expertNum ↔
      cell.2 < config.expertNum * config.slotSize part cell.1 := fun cell => Nat.div_lt_iff_lt_mul (aligned.slotSize_pos cell.1)
  have own : ∀ logicalExpert cell value, config.stagedSlot part rowOffset logicalExpert cell = some value →
      cell.2 / config.slotSize part cell.1 = logicalExpert ∧ config.stagedCell part rowOffset cell = some value := by
    intro logicalExpert cell value inSlot
    rw [stagedSlot] at inSlot
    split at inSlot
    · next same => exact ⟨same, inSlot⟩
    · cases inSlot
  have rounds : ∀ e < config.expertNum, Copy.Exactly (tasks e) (config.stagedSlot part rowOffset (config.expertMap e)) := by
    intro e inside
    obtain ⟨src, sources, exactly⟩ := stageExpert_exactly aligned (found e inside)
    exact exactly.congr (slot_eq aligned sources)
  apply Copy.Exactly.range rounds
  · intro cell value isStaged
    rw [staged] at isStaged
    split at isStaged
    · next inside =>
        obtain ⟨e, isExpert, same⟩ := permutes.surjective ((slots cell).mpr inside)
        refine ⟨e, isExpert, ?_⟩
        rw [stagedSlot, if_pos same.symm, isStaged]
    · cases isStaged
  · intro e inside cell value inSlot
    obtain ⟨same, isStaged⟩ := own _ cell value inSlot
    rw [staged, if_pos ((slots cell).mp (same ▸ permutes.inside e inside)), isStaged]
  · intro e inside other isExpert cell value inSlot different
    obtain ⟨same, -⟩ := own _ cell value inSlot
    exact if_neg fun shared => different (permutes.injective e inside other isExpert (same.symm.trans shared))

theorem staged_isSome (aligned : config.Aligned part rowOffset) (permutes : config.Permutes)
    (found : ∀ e < config.expertNum, ∃ copies, config.stageExpert part rowOffset e = .ok copies) {cell : StageArray × Nat}
    (inside : cell.2 < config.stageSize part cell.1) : (config.staged part rowOffset cell).isSome := by
  rw [aligned.stageSize_eq] at inside
  have isSlot := (Nat.div_lt_iff_lt_mul (aligned.slotSize_pos cell.1)).mpr inside
  obtain ⟨e, isExpert, same⟩ := permutes.surjective isSlot
  obtain ⟨copies, staged_⟩ := found e isExpert
  obtain ⟨src, sources, -⟩ := stageExpert_ok aligned staged_
  rw [same] at sources
  rw [staged, if_pos inside, stagedCell, sources]
  rfl

theorem staged_beyond (aligned : config.Aligned part rowOffset) {cell : StageArray × Nat}
    (beyond : config.stageSize part cell.1 ≤ cell.2) : config.staged part rowOffset cell = none := by
  rw [aligned.stageSize_eq] at beyond
  exact if_neg (by omega)

theorem holdsSlices (aligned : config.Aligned part rowOffset) (permutes : config.Permutes)
    (found : ∀ e < config.expertNum, ∃ copies, config.stageExpert part rowOffset e = .ok copies)
    {memory : StageArray × Nat → α} (holds : ∀ cell value, config.staged part rowOffset cell = some value → memory cell = value) :
    config.HoldsSlices part rowOffset memory := by
  have sources : ∀ e < config.expertNum, ∃ src : StageArray → Nat → α, ∀ array, config.expertSource array e = some (src array) := by
    intro logicalExpert inside
    obtain ⟨e, isExpert, same⟩ := permutes.surjective inside
    obtain ⟨copies, staged_⟩ := found e isExpert
    obtain ⟨src, sources, -⟩ := stageExpert_ok aligned staged_
    exact ⟨src, same ▸ sources⟩
  have cells : ∀ array, ∀ e < config.expertNum, ∀ src, config.expertSource array e = some src →
      ∀ row < config.slotRows part array, ∀ cell < config.slotWidth part array,
        memory (array, (e * config.slotRows part array + row) * config.slotWidth part array + cell) =
          src (config.slotSource part rowOffset array (row * config.slotWidth part array + cell)) := by
    intro array e inside src known row inRows cell inWidth
    have inSlot : row * config.slotWidth part array + cell < config.slotSize part array := by
      rw [slotSize, Nat.mul_comm (config.slotRows part array)]
      exact pairIndex_lt inRows inWidth
    have place : (e * config.slotRows part array + row) * config.slotWidth part array + cell =
        e * config.slotSize part array + (row * config.slotWidth part array + cell) := by
      rw [Nat.add_mul, Nat.mul_assoc, Nat.add_assoc]
      rfl
    apply holds
    rw [staged, if_pos, stagedCell]
    · dsimp only
      rw [place, pairIndex_div e inSlot, pairIndex_mod e inSlot, known]
      rfl
    · dsimp only
      rw [place, Nat.mul_comm config.expertNum]
      exact pairIndex_lt inside inSlot
  constructor
  · intro array byRows e inside
    obtain ⟨src, known⟩ := sources e inside
    refine ⟨src array, known array, ?_⟩
    intro row inRows cell inWidth
    have own := cells array e inside _ (known array) row (by rw [slotRows, byRows]; exact inRows) cell
      (by rw [slotWidth, byRows]; exact inWidth)
    rw [slotSource, slotRows, slotWidth, byRows, if_neg Bool.false_ne_true, if_neg Bool.false_ne_true, if_neg Bool.false_ne_true] at own
    rw [own, Nat.add_mul, Nat.add_assoc]
  · intro array byColumns e inside
    obtain ⟨src, known⟩ := sources e inside
    refine ⟨src array, known array, ?_⟩
    intro row inRows cell inWidth
    have own := cells array e inside _ (known array) row (by rw [slotRows, byColumns]; exact inRows) cell
      (by rw [slotWidth, byColumns]; exact inWidth)
    rw [slotSource, slotRows, slotWidth, byColumns, if_pos rfl, if_pos rfl, if_pos rfl, pairIndex_div row inWidth,
      pairIndex_mod row inWidth] at own
    exact own

end Config

end Rawint4

end KtKernel.Sft
