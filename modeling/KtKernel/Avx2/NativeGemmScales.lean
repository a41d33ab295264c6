import KtKernel.Avx2.NativeGemmExact

namespace KtKernel.Avx2

open KtKernel.Data
open KtKernel.Amx.ExpertFiles (Mat)

/-! The sizes for which a GPTQ-INT4 or FP8 load computes the products of the full tensors. -/

namespace Grouped

variable {grouped : Grouped} {config : Config} {groupSize k hidden intermediate tpCount expert ni : Nat} {mat : Mat}

/-! ## The sizes that do not -/

/-- One expert of its own tensors. -/
def plain (hidden intermediate groupSize tpCount : Nat) : Config :=
  ⟨1, hidden, intermediate, groupSize, false, tpCount, none, .perExpert, none⟩

theorem plain_accepted (grouped : Grouped) (positive : 0 < groupSize) (even : intermediate % tpCount = 0) :
    grouped.backend.accepts (plain hidden intermediate groupSize tpCount) = .ok () := by
  have group : groupSize ≠ 0 := Nat.ne_of_gt positive
  have initialized : grouped.backend.derivedInit (plain hidden intermediate groupSize tpCount) = .ok () := by
    cases grouped <;> simp [backend, Backend.derivedInit, plain, group]
  have made : grouped.backend.constructPart (plain hidden intermediate groupSize tpCount) = .ok () := by
    cases grouped <;> exact initialized
  have checked : grouped.backend.loadChecks (plain hidden intermediate groupSize tpCount) = .ok () := by
    cases grouped <;> simp [backend, Backend.loadChecks, plain, group]
  have divides : ¬ (plain hidden intermediate groupSize tpCount).intermediateSize % (plain hidden intermediate groupSize tpCount).tpCount ≠ 0 :=
    not_not.mpr even
  rw [Backend.accepts, Backend.construct, made, if_neg divides]
  exact checked

theorem slice_source {ρ σ : Type} {grid : Grid} {full size base : Nat} {region : ρ} {origin : σ × Nat} {move : Move ρ σ}
    (member : move ∈ grid.slice full size part region base origin) : move.source = origin.1 := by
  simp only [Grid.slice] at member
  split at member
  · obtain ⟨row, -, rfl⟩ := Move.mem_rows.mp member
    rfl
  · obtain rfl := List.mem_singleton.mp member
    rfl

/-- A part that is loaded over memories with one value for every array: where the source
has that value as well, every place of a slot has it, also behind the array. -/
theorem exists_buffers (grouped : Grouped) (config : Config) (source : Origin × Nat → Cell) (part : Nat) (blank : Table → Cell) :
    ∃ buffers, Loaded grouped.backend config source part buffers ∧
      ∀ table, (∀ place, place.1.table = table → source place = blank table) → ∀ index offset,
        buffers.read source ⟨table, index⟩ offset = blank table := by
  have staging : config.form = .flat ∨ (grouped.backend ≠ .rawInt4 ∧ grouped.backend ≠ .mxfp4) :=
    .inr (by cases grouped <;> exact ⟨by decide, by decide⟩)
  have kept : ∀ kind cell, grouped.backend.convert kind cell = cell := by
    intro kind cell
    cases grouped <;> rfl
  refine ⟨_, .staged staging (Move.performed_inOrder _ _ fun cell => blank cell.1)
    (Move.performed_inOrder _ _ fun cell => blank cell.1.table), ?_⟩
  intro table same index offset
  apply Move.performed_constant rfl _ (Move.performed_inOrder _ _ _)
  intro move member covers
  obtain ⟨loaded, -, inTable⟩ := List.mem_flatMap.mp member
  obtain ⟨task, -, inTask⟩ := List.mem_flatMap.mp inTable
  simp only at inTask
  split at inTask
  · contradiction
  · obtain ⟨slot, origin⟩ := Backend.fromMat_origin inTask covers
    have array : loaded = table := congrArg Slot.table slot
    rw [origin, kept]
    apply Move.performed_constant _ _ (Move.performed_inOrder _ _ _)
    · rw [array]
    · intro stage inStages stageCovers
      obtain ⟨job, -, inJob⟩ := List.mem_flatMap.mp inStages
      obtain ⟨staged, -, inSlice⟩ := List.mem_flatMap.mp inJob
      have region := (Grid.slice_within inSlice stageCovers).1
      apply same
      have origin : stage.source = (grouped.backend.address config staged (expertMap config.physicalToLogicalMap job) 0).1 :=
        slice_source inSlice
      rw [Move.origin, origin, Load.address_table, region]
      exact array

/-- Words of eight weights of one, and the scales of a row: all of one, or only the first. -/
def nines : Cell := 0x99999999

def oneScale : Cell := 0x3F800000

theorem scaleValue_one : scaleValue oneScale = 1 := by decide +kernel

theorem scaleValue_zero : scaleValue 0 = 0 := by decide +kernel

def firstOnly (first : Bool) (g : Nat) : ℚ :=
  if first = true ∧ g ≠ 0 then 0 else 1

def ninesSource (first : Bool) (width : Nat) (place : Origin × Nat) : Cell :=
  match place.1.table.kind with
  | .weight => nines
  | .scale => if first = true ∧ width ≤ place.2 then 0 else oneScale

theorem scale_of_ninesSource (first : Bool) {width : Nat} (some_ : 0 < width) {origin : Origin} (scales : origin.table.kind = .scale)
    (g : Nat) : scaleValue (ninesSource first width (origin, g * width)) = firstOnly first g := by
  have beyond : width ≤ g * width ↔ g ≠ 0 := by
    constructor
    · rintro late rfl
      omega
    · intro later
      exact Nat.le_mul_of_pos_left width (Nat.pos_of_ne_zero later)
  simp only [ninesSource, scales, firstOnly, beyond]
  split
  · exact scaleValue_zero
  · exact scaleValue_one

theorem nines_weight : ∀ lane < 8, ((nines.toNat / 16 ^ lane % 16 : Nat) : ℚ) - 8 = 1 := by
  decide +kernel

/-- Weights of one: the groups as the kernel takes them. -/
theorem gptqSum_nines (n k groupSize : Nat) (aRow : Nat → ℚ) (scales : Nat → ℚ) (ni : Nat) :
    gptqSum n k groupSize aRow (fun _ => nines) scales ni =
      ∑ g ∈ Finset.range (k / groupSize), (∑ i ∈ Finset.range (groupWidth groupSize), aRow (g * groupSize + i)) * scales (g * n + ni) := by
  rw [gptqSum_eq]
  apply Finset.sum_congr rfl
  intro g _
  rw [Finset.sum_mul]
  apply Finset.sum_congr rfl
  intro i _
  rw [nines_weight _ (Nat.mod_lt i (by decide)), mul_one]

/-- Where a row is not whole groups of whole words, some activations and scales tell the
kernel's groups from the true ones. -/
theorem groups_differ (positive : 0 < groupSize) (someRow : 0 < k) (unaligned : ¬ (8 ∣ groupSize ∧ groupSize ∣ k)) :
    ∃ (first : Bool) (a : Nat → ℚ),
      ∑ g ∈ Finset.range (k / groupSize), (∑ i ∈ Finset.range (groupWidth groupSize), a (g * groupSize + i)) * firstOnly first g ≠
        ∑ place ∈ Finset.range k, a place * firstOnly first (place / groupSize) := by
  by_cases short : k < groupSize
  · refine ⟨false, fun _ => 1, ?_⟩
    have all : ∀ g, firstOnly false g = 1 := fun g => if_neg (by simp)
    rw [Nat.div_eq_of_lt short, Finset.range_zero, Finset.sum_empty]
    simp only [all, mul_one, Finset.sum_const, Finset.card_range, nsmul_eq_mul]
    exact (Nat.cast_ne_zero.mpr (Nat.ne_of_gt someRow)).symm
  · by_cases words : 8 ∣ groupSize
    · refine ⟨false, fun place => if place = k - 1 then 1 else 0, ?_⟩
      have all : ∀ g, firstOnly false g = 1 := fun g => if_neg (by simp)
      have width : groupWidth groupSize = groupSize := by
        rw [groupWidth]
        omega
      have rest : k / groupSize * groupSize < k := by
        apply Nat.lt_of_le_of_ne (Nat.div_mul_le_self k groupSize)
        intro whole
        exact unaligned ⟨words, Dvd.intro_left _ whole⟩
      simp only [all, mul_one, width]
      rw [← sum_blocks (fun place => if place = k - 1 then (1 : ℚ) else 0), Finset.sum_ite_eq', Finset.sum_ite_eq',
        if_neg (fun member => by have inside := Finset.mem_range.mp member; omega), if_pos (Finset.mem_range.mpr (by omega))]
      exact zero_ne_one
    · refine ⟨true, fun place => if place = groupSize then 1 else 0, ?_⟩
      have beyond : groupSize < groupWidth groupSize := by
        rw [groupWidth]
        omega
      have computed : ∑ g ∈ Finset.range (k / groupSize), (∑ i ∈ Finset.range (groupWidth groupSize),
          if g * groupSize + i = groupSize then (1 : ℚ) else 0) * firstOnly true g = 1 := by
        rw [Finset.sum_eq_single 0]
        · simp only [Nat.zero_mul, Nat.zero_add]
          rw [Finset.sum_ite_eq', if_pos (Finset.mem_range.mpr beyond), firstOnly, if_neg (by simp), mul_one]
        · intro g _ later
          rw [firstOnly, if_pos ⟨rfl, later⟩, mul_zero]
        · intro outside
          exact absurd (Finset.mem_range.mpr (Nat.div_pos (Nat.le_of_not_lt short) positive)) outside
      rw [computed, Finset.sum_eq_zero]
      · exact one_ne_zero
      · intro place _
        dsimp only
        by_cases here : place = groupSize
        · rw [here, Nat.div_self positive, if_pos rfl, firstOnly, if_pos ⟨rfl, one_ne_zero⟩, mul_zero]
        · rw [if_neg here, zero_mul]

theorem computed_nines {read : Slot → Nat → Cell} {first : Bool} (weights : ∀ offset, read ⟨⟨mat, .weight⟩, expert⟩ offset = nines)
    (scales : ∀ g < inputs config mat / config.groupSize,
      scaleValue (read ⟨⟨mat, .scale⟩, expert⟩ (g * Backend.outputs config mat + 0)) = firstOnly first g) (a : Nat → ℚ) :
    Grouped.gptqInt4.computed config read expert mat a 0 0 = ∑ g ∈ Finset.range (inputs config mat / config.groupSize),
      (∑ i ∈ Finset.range (groupWidth config.groupSize), a (g * config.groupSize + i)) * firstOnly first g := by
  have constant : read ⟨⟨mat, .weight⟩, expert⟩ = fun _ => nines := funext weights
  simp only [computed]
  rw [constant, gptqSum_nines]
  apply Finset.sum_congr rfl
  intro g inRange
  rw [scales g (Finset.mem_range.mp inRange), Nat.zero_mul]
  simp only [Nat.zero_add]

theorem product_nines (first : Bool) (form : config.form = .perExpert) (someColumns : 0 < columns config mat) (a : Nat → ℚ) :
    Grouped.gptqInt4.product config (ninesSource first (columns config mat)) expert mat a 0 =
      ∑ place ∈ Finset.range (depth config mat), a place * firstOnly first (place / config.groupSize) := by
  rw [product]
  apply Finset.sum_congr rfl
  intro place _
  have held : Grouped.gptqInt4.scale config (ninesSource first (columns config mat)) expert mat place 0 =
      firstOnly first (place / config.groupSize) := by
    simp only [scale, Backend.address, form, Nat.add_zero]
    exact scale_of_ninesSource first someColumns rfl _
  have one : Grouped.gptqInt4.weight config (ninesSource first (columns config mat)) expert mat place 0 = 1 := by
    simp only [weight, Backend.address, form]
    exact nines_weight _ (Nat.mod_lt place (by decide))
  rw [held, one, mul_one]

theorem exists_nines (positive : 0 < groupSize) (first : Bool) (width : Nat) :
    ∃ buffers : Nat → Buffers,
      (∀ part < tpCount, Loaded Backend.gptqInt4 (plain hidden intermediate groupSize tpCount) (ninesSource first width) part (buffers part)) ∧
      (∀ part < tpCount, Ready .gptqInt4 (plain hidden intermediate groupSize tpCount) (ninesSource first width) part 0 (buffers part)) ∧
      ∀ part mat offset, (buffers part).read (ninesSource first width) ⟨⟨mat, .weight⟩, 0⟩ offset = nines := by
  have each (part : Nat) := exists_buffers .gptqInt4 (plain hidden intermediate groupSize tpCount) (ninesSource first width) part fun _ => nines
  choose buffers loaded constant using each
  refine ⟨buffers, fun part _ => loaded part, fun part _ => ⟨positive, loaded part, Nat.one_pos, 0, Nat.one_pos, rfl⟩, ?_⟩
  intro part mat offset
  apply constant
  intro place same
  simp only [ninesSource, same]

/-- The condition is needed for gate and up, where the rows are those of the hidden axis. -/
theorem gptq_columns_wrong (positive : 0 < groupSize) (even : intermediate % tpCount = 0) (someParts : 0 < tpCount) (someHidden : 0 < hidden)
    (somePart : 0 < intermediate / tpCount) (unaligned : ¬ (8 ∣ groupSize ∧ groupSize ∣ hidden)) :
    ¬ Grouped.gptqInt4.KeepsScales hidden intermediate groupSize tpCount := by
  intro keeps
  obtain ⟨first, a, differ⟩ := groups_differ positive someHidden unaligned
  obtain ⟨buffers, loaded, ready, weights⟩ := @exists_nines groupSize hidden intermediate tpCount positive first intermediate
  have someColumns : 0 < intermediate := Nat.pos_of_div_pos somePart
  have joins := (keeps _ rfl rfl rfl rfl (plain_accepted _ positive even) _ buffers loaded 0 Nat.one_pos ⟨0, Nat.one_pos, rfl⟩).1 .gate
    (by decide) 0 someParts 1 a
  rw [gemm_eq] at joins
  have value := stores_iff.mp joins 0 Nat.one_pos 0 somePart
  have full := @product_nines (plain hidden intermediate groupSize tpCount) 0 .gate first rfl someColumns a
  have scales : ∀ g < hidden / groupSize, scaleValue ((buffers 0).read (ninesSource first intermediate) ⟨⟨.gate, .scale⟩, 0⟩
      (g * (intermediate / tpCount) + 0)) = firstOnly first g := by
    intro g inRows
    have held := gptq_read_columns (ready 0 someParts) .scale (show Mat.gate ≠ .down by decide) somePart inRows
    have same := scale_of_ninesSource first someColumns (show (⟨⟨.gate, .scale⟩, some 0⟩ : Origin).table.kind = .scale from rfl) g
    have address : g * intermediate + (0 * (intermediate / tpCount) + 0) = g * intermediate := by omega
    rw [← same, ← address]
    exact congrArg scaleValue held
  have part := @computed_nines (plain hidden intermediate groupSize tpCount) 0 .gate _ first (weights 0 .gate) scales a
  have shift : (fun place => a (0 * hidden + place)) = a := by
    funext place
    rw [Nat.zero_mul, Nat.zero_add]
  have column : 0 * (intermediate / tpCount) + 0 = 0 := by omega
  apply differ
  calc
    _ = Grouped.gptqInt4.computed _ _ 0 .gate a 0 0 := part.symm
    _ = Grouped.gptqInt4.product (plain hidden intermediate groupSize tpCount) (ninesSource first intermediate) 0 .gate
          (fun place => a (0 * hidden + place)) (0 * (intermediate / tpCount) + 0) := value
    _ = Grouped.gptqInt4.product (plain hidden intermediate groupSize tpCount) (ninesSource first intermediate) 0 .gate a 0 := by
          rw [shift, column]
    _ = _ := full

/-- Nothing comes of activations of zero. -/
theorem computed_zero (read : Slot → Nat → Cell) (mi : Nat) :
    Grouped.gptqInt4.computed config read expert mat (fun _ => 0) mi ni = 0 := by
  simp only [computed]
  rw [gptqSum_eq]
  simp only [zero_mul, Finset.sum_const_zero]

/-- The condition is needed for down, where the rows are those of a part. -/
theorem gptq_rows_wrong (positive : 0 < groupSize) (even : intermediate % tpCount = 0) (someParts : 0 < tpCount) (someHidden : 0 < hidden)
    (somePart : 0 < intermediate / tpCount) (unaligned : ¬ (8 ∣ groupSize ∧ groupSize ∣ intermediate / tpCount)) :
    ¬ Grouped.gptqInt4.KeepsScales hidden intermediate groupSize tpCount := by
  intro keeps
  obtain ⟨first, a, differ⟩ := groups_differ positive somePart unaligned
  obtain ⟨buffers, loaded, ready, weights⟩ := @exists_nines groupSize hidden intermediate tpCount positive first hidden
  have divides : tpCount * (intermediate / tpCount) = intermediate := Nat.mul_div_cancel' (Nat.dvd_of_mod_eq_zero even)
  obtain ⟨value, parts, sums⟩ := (keeps _ rfl rfl rfl rfl (plain_accepted _ positive even) _ buffers loaded 0 Nat.one_pos
    ⟨0, Nat.one_pos, rfl⟩).2 1 fun part => if part = 0 then a else fun _ => 0
  have values : ∀ part < tpCount, value part 0 0 = Grouped.gptqInt4.computed (plain hidden intermediate groupSize tpCount)
      ((buffers part).read (ninesSource first hidden)) 0 .down (if part = 0 then a else fun _ => 0) 0 0 := by
    intro part inParts
    have stores := parts part inParts
    rw [gemm_eq] at stores
    exact (stores_iff.mp stores 0 Nat.one_pos 0 someHidden).symm
  have scales : ∀ g < intermediate / tpCount / groupSize, scaleValue ((buffers 0).read (ninesSource first hidden) ⟨⟨.down, .scale⟩, 0⟩
      (g * hidden + 0)) = firstOnly first g := by
    intro g inRows
    have held := gptq_read_rows (ready 0 someParts) .scale someHidden inRows
    have same := scale_of_ninesSource first someHidden (show (⟨⟨.down, .scale⟩, some 0⟩ : Origin).table.kind = .scale from rfl) g
    have address : (0 * (intermediate / tpCount / groupSize) + g) * hidden + 0 = g * hidden := by rw [Nat.zero_mul, Nat.zero_add, Nat.add_zero]
    calc
      _ = scaleValue (ninesSource first hidden (⟨⟨.down, .scale⟩, some 0⟩,
            (0 * (intermediate / tpCount / groupSize) + g) * hidden + 0)) := congrArg scaleValue held
      _ = firstOnly first g := by rw [address, same]
  have part := @computed_nines (plain hidden intermediate groupSize tpCount) 0 .down _ first (weights 0 .down) scales a
  have full := @product_nines (plain hidden intermediate groupSize tpCount) 0 .down first rfl someHidden
    fun place => (if place / (intermediate / tpCount) = 0 then a else fun _ => 0)
      (0 * (intermediate / tpCount) + place % (intermediate / tpCount))
  have slices := sum_blocks (fun place => (if place / (intermediate / tpCount) = 0 then a else fun _ => 0)
    (0 * (intermediate / tpCount) + place % (intermediate / tpCount)) * firstOnly first (place / groupSize)) tpCount (intermediate / tpCount)
  apply differ
  calc
    _ = Grouped.gptqInt4.computed _ _ 0 .down a 0 0 := part.symm
    _ = ∑ part ∈ Finset.range tpCount, value part 0 0 := by
          rw [Finset.sum_eq_single 0]
          · rw [values 0 someParts, if_pos rfl]
          · intro other inParts later
            rw [values other (Finset.mem_range.mp inParts), if_neg later, computed_zero]
          · intro outside
            exact absurd (Finset.mem_range.mpr someParts) outside
    _ = Grouped.gptqInt4.product (plain hidden intermediate groupSize tpCount) (ninesSource first hidden) 0 .down
          (fun place => (if place / (intermediate / tpCount) = 0 then a else fun _ => 0)
            (0 * (intermediate / tpCount) + place % (intermediate / tpCount))) 0 := sums 0 Nat.one_pos 0 someHidden
    _ = ∑ place ∈ Finset.range (tpCount * (intermediate / tpCount)), _ := by
          rw [divides]
          exact full
    _ = _ := slices
    _ = _ := by
          rw [Finset.sum_eq_single 0]
          · apply Finset.sum_congr rfl
            intro place inRange
            have inside := Finset.mem_range.mp inRange
            rw [Nat.zero_mul, Nat.zero_add, Nat.div_eq_of_lt inside, if_pos rfl, Nat.mod_eq_of_lt inside, Nat.zero_add]
          · intro other _ later
            apply Finset.sum_eq_zero
            intro place inRange
            rw [pairIndex_div other (Finset.mem_range.mp inRange), if_neg later, zero_mul]
          · intro outside
            exact absurd (Finset.mem_range.mpr someParts) outside

/-! ## The scales of FP8 -/

def markedSource (mark : Nat) (place : Origin × Nat) : Cell :=
  match place.1.table.kind with
  | .weight => 0x38
  | .scale => if place.2 = mark then oneScale else 0

theorem fp8Lut_one : fp8Lut (0x38 : Cell).toNat = 1 := by decide +kernel

/-- The first activation alone. -/
def unitRow (place : Nat) : ℚ :=
  if place = 0 then 1 else 0

theorem computed_unit (positive : 0 < config.groupSize) (someRow : 0 < inputs config mat) (read : Slot → Nat → Cell) :
    Grouped.fp8.computed config read expert mat unitRow 0 ni =
      fp8Lut (read ⟨⟨mat, .weight⟩, expert⟩ (ni * inputs config mat + 0)).toNat *
        scaleValue (read ⟨⟨mat, .scale⟩, expert⟩ (ni / config.groupSize * divUp (inputs config mat) config.groupSize + 0)) := by
  simp only [computed]
  rw [fp8Sum_eq positive, Finset.sum_eq_single 0]
  · rw [unitRow, Nat.zero_mul, if_pos rfl, one_mul, Nat.zero_div]
  · intro place _ later
    rw [unitRow, Nat.zero_mul, Nat.zero_add, if_neg later, zero_mul, zero_mul]
  · intro outside
    exact absurd (Finset.mem_range.mpr someRow) outside

theorem product_unit (someRow : 0 < depth config mat) (source : Origin × Nat → Cell) :
    grouped.product config source expert mat unitRow ni =
      grouped.weight config source expert mat 0 ni * grouped.scale config source expert mat 0 ni := by
  rw [product, Finset.sum_eq_single 0]
  · rw [unitRow, if_pos rfl, one_mul]
  · intro place _ later
    rw [unitRow, if_neg later, zero_mul, zero_mul]
  · intro outside
    exact absurd (Finset.mem_range.mpr someRow) outside

/-- The block rows of the second part are counted from a whole number of blocks. -/
theorem fp8_wrong (positive : 0 < groupSize) (even : intermediate % tpCount = 0) (several : 1 < tpCount) (someHidden : 0 < hidden)
    (somePart : 0 < intermediate / tpCount) (unaligned : ¬ groupSize ∣ intermediate / tpCount) :
    ¬ Grouped.fp8.KeepsScales hidden intermediate groupSize tpCount := by
  intro keeps
  let mark := intermediate / tpCount / groupSize * divUp hidden groupSize
  have across : 0 < divUp hidden groupSize := Nat.pos_of_mul_pos_right (someHidden.trans_le (le_divUp_mul hidden positive))
  have each (part : Nat) := exists_buffers .fp8 (plain hidden intermediate groupSize tpCount) (markedSource mark) part fun _ => 0
  choose buffers loaded _ using each
  have ready : Ready .fp8 (plain hidden intermediate groupSize tpCount) (markedSource mark) 1 0 (buffers 1) :=
    ⟨positive, loaded 1, Nat.one_pos, 0, Nat.one_pos, rfl⟩
  have joins := (keeps _ rfl rfl rfl rfl (plain_accepted _ positive even) _ buffers (fun part _ => loaded part) 0 Nat.one_pos
    ⟨0, Nat.one_pos, rfl⟩).1 .gate (by decide) 1 several 1 unitRow
  rw [gemm_eq] at joins
  have value := stores_iff.mp joins 0 Nat.one_pos 0 somePart
  have rounded : divUp (intermediate / tpCount) groupSize ≠ intermediate / tpCount / groupSize := by
    intro same
    have covered := le_divUp_mul (intermediate / tpCount) positive
    rw [same] at covered
    exact unaligned (Dvd.intro_left _ (Nat.le_antisymm (Nat.div_mul_le_self _ _) covered))
  have otherBlock : (1 * divUp (intermediate / tpCount) groupSize + 0 / groupSize) * divUp hidden groupSize + 0 ≠ mark := by
    rw [Nat.one_mul, Nat.zero_div, Nat.add_zero, Nat.add_zero]
    exact fun same => rounded (Nat.eq_of_mul_eq_mul_right across same)
  have ownBlock : (1 * (intermediate / tpCount) + 0) / groupSize * divUp hidden groupSize + 0 / groupSize = mark := by
    rw [Nat.one_mul, Nat.add_zero, Nat.zero_div, Nat.add_zero]
  have held := fp8_read_scales ready (show Mat.gate ≠ .down by decide) (div_lt_blocks positive somePart) across
  have none : scaleValue ((buffers 1).read (markedSource mark) ⟨⟨.gate, .scale⟩, 0⟩ (0 / groupSize * divUp hidden groupSize + 0)) = 0 := by
    calc
      _ = scaleValue (markedSource mark (⟨⟨.gate, .scale⟩, some 0⟩,
            (1 * divUp (intermediate / tpCount) groupSize + 0 / groupSize) * divUp hidden groupSize + 0)) := congrArg scaleValue held
      _ = scaleValue 0 := congrArg scaleValue (if_neg otherBlock)
      _ = 0 := scaleValue_zero
  have computed := @computed_unit (plain hidden intermediate groupSize tpCount) 0 0 .gate positive someHidden
    ((buffers 1).read (markedSource mark))
  have zero : Grouped.fp8.computed (plain hidden intermediate groupSize tpCount) ((buffers 1).read (markedSource mark)) 0 .gate
      unitRow 0 0 = 0 := computed.trans (mul_eq_zero_of_right _ none)
  have full := @product_unit .fp8 (plain hidden intermediate groupSize tpCount) 0 (1 * (intermediate / tpCount) + 0) .gate someHidden
    (markedSource mark)
  have weight : Grouped.fp8.weight (plain hidden intermediate groupSize tpCount) (markedSource mark) 0 .gate 0
      (1 * (intermediate / tpCount) + 0) = 1 := fp8Lut_one
  have scale : Grouped.fp8.scale (plain hidden intermediate groupSize tpCount) (markedSource mark) 0 .gate 0
      (1 * (intermediate / tpCount) + 0) = 1 := by
    calc
      _ = scaleValue (markedSource mark (⟨⟨.gate, .scale⟩, some 0⟩,
            (1 * (intermediate / tpCount) + 0) / groupSize * divUp hidden groupSize + 0 / groupSize)) := rfl
      _ = scaleValue oneScale := congrArg scaleValue (if_pos ownBlock)
      _ = 1 := scaleValue_one
  have shift : (fun place => unitRow (0 * hidden + place)) = unitRow := by
    funext place
    rw [Nat.zero_mul, Nat.zero_add]
  rw [weight, scale, mul_one, ← shift] at full
  exact zero_ne_one ((zero.symm.trans value).trans full)

/-! ## The condition -/

theorem gptq_keeps_iff (positive : 0 < groupSize) (someParts : 0 < tpCount) (even : intermediate % tpCount = 0) :
    Grouped.gptqInt4.KeepsScales hidden intermediate groupSize tpCount ↔
      hidden = 0 ∨ intermediate = 0 ∨ 8 ∣ groupSize ∧ groupSize ∣ hidden ∧ groupSize ∣ intermediate / tpCount := by
  constructor
  · intro keeps
    by_contra misses
    simp only [not_or] at misses
    obtain ⟨someHidden, someColumns, unaligned⟩ := misses
    have somePart : 0 < intermediate / tpCount :=
      Nat.div_pos (Nat.le_of_dvd (Nat.pos_of_ne_zero someColumns) (Nat.dvd_of_mod_eq_zero even)) someParts
    by_cases rows : 8 ∣ groupSize ∧ groupSize ∣ hidden
    · exact gptq_rows_wrong positive even someParts (Nat.pos_of_ne_zero someHidden) somePart
        (fun whole => unaligned ⟨rows.1, rows.2, whole.2⟩) keeps
    · exact gptq_columns_wrong positive even someParts (Nat.pos_of_ne_zero someHidden) somePart rows keeps
  · exact fun whole => keeps_of_whole whole

theorem fp8_keeps_iff (positive : 0 < groupSize) (someParts : 0 < tpCount) (even : intermediate % tpCount = 0) :
    Grouped.fp8.KeepsScales hidden intermediate groupSize tpCount ↔
      hidden = 0 ∨ intermediate = 0 ∨ tpCount = 1 ∨ groupSize ∣ intermediate / tpCount := by
  constructor
  · intro keeps
    by_contra misses
    simp only [not_or] at misses
    obtain ⟨someHidden, someColumns, several, unaligned⟩ := misses
    have somePart : 0 < intermediate / tpCount :=
      Nat.div_pos (Nat.le_of_dvd (Nat.pos_of_ne_zero someColumns) (Nat.dvd_of_mod_eq_zero even)) someParts
    exact fp8_wrong positive even (by omega) (Nat.pos_of_ne_zero someHidden) somePart unaligned keeps
  · exact fun whole => keeps_of_whole whole

/-- GPTQ-INT4 is right for whole groups of whole words along both axes, and FP8 for parts of
whole blocks. -/
theorem keepsScales_iff (positive : 0 < groupSize) (someParts : 0 < tpCount) (even : intermediate % tpCount = 0) :
    (Grouped.gptqInt4.KeepsScales hidden intermediate groupSize tpCount ↔
      hidden = 0 ∨ intermediate = 0 ∨ 8 ∣ groupSize ∧ groupSize ∣ hidden ∧ groupSize ∣ intermediate / tpCount) ∧
    (Grouped.fp8.KeepsScales hidden intermediate groupSize tpCount ↔
      hidden = 0 ∨ intermediate = 0 ∨ tpCount = 1 ∨ groupSize ∣ intermediate / tpCount) :=
  ⟨gptq_keeps_iff positive someParts even, fp8_keeps_iff positive someParts even⟩

theorem keepsScales_halves :
    Grouped.gptqInt4.KeepsScales 4096 1536 128 2 ∧ Grouped.fp8.KeepsScales 4096 1536 128 2 := by
  obtain ⟨gptq, fp8⟩ := @keepsScales_iff 128 4096 1536 2 (by decide) (by decide) (by decide)
  exact ⟨gptq.mpr (.inr (.inr (by decide))), fp8.mpr (.inr (.inr (.inr (by decide))))⟩

/-- Parts of 96 channels, with groups of 128. -/
theorem not_keepsScales : ¬ Grouped.gptqInt4.KeepsScales 128 192 128 2 ∧ ¬ Grouped.fp8.KeepsScales 128 192 128 2 :=
  ⟨gptq_rows_wrong (by decide) (by decide) (by decide) (by decide) (by decide) (by decide),
    fp8_wrong (by decide) (by decide) (by decide) (by decide) (by decide) (by decide)⟩

end Grouped

end KtKernel.Avx2
