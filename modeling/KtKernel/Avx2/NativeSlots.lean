import KtKernel.Avx2.NativeLoad
import KtKernel.Avx2.PackedOrder
import KtKernel.Data.Tiling

namespace KtKernel.Avx2

open KtKernel.Data
open KtKernel.Amx.ExpertFiles (Mat)

/-! What the slots of a part hold after the load. -/

variable {config : Config} {backend : Backend} {grid : Grid} {table : Table} {slot : Slot}
  {size unit other part expert base : Nat}

/-- The place of a cell, from its place along the intermediate axis and along the hidden
axis. -/
def Grid.place (grid : Grid) (size unit other : Nat) : Nat :=
  if grid.inner then other * grid.count size + unit else unit * grid.across + other

theorem Grid.elems_eq (grid : Grid) (size : Nat) : grid.elems size = grid.rows size * grid.width size := by
  rw [Grid.elems, Grid.rows, Grid.width]
  split
  · exact Nat.mul_comm _ _
  · rfl

theorem Grid.place_lt (inCount : unit < grid.count size) (inAcross : other < grid.across) :
    grid.place size unit other < grid.elems size := by
  rw [Grid.place, Grid.elems]
  split
  · exact pairIndex_lt inAcross inCount
  · rw [Nat.mul_comm (grid.count size)]
    exact pairIndex_lt inCount inAcross

theorem mem_share {start stop place width : Nat} (inside : place < rows * width) (above : start ≤ place / width)
    (below : place / width < stop) : start * width ≤ place ∧ place < start * width + (stop - start) * width := by
  have positive : 0 < width := Nat.pos_of_mul_pos_left (Nat.zero_lt_of_lt inside)
  have whole := Nat.div_add_mod' place width
  have small := Nat.mod_lt place positive
  have first := Nat.mul_le_mul_right width above
  have last : (place / width + 1) * width ≤ stop * width := Nat.mul_le_mul_right width below
  rw [Nat.add_mul, Nat.one_mul] at last
  rw [← Nat.add_mul, Nat.add_sub_cancel' (by omega)]
  omega

theorem le_divUp_mul (count : Nat) {size : Nat} (positive : 0 < size) : count ≤ divUp count size * size := by
  have whole := Nat.div_add_mod' (count + size - 1) size
  have small := Nat.mod_lt (count + size - 1) positive
  rw [divUp]
  omega

theorem lt_divUp {block count size : Nat} (positive : 0 < size) (inside : block < divUp count size) :
    block * size < count := by
  have whole := Nat.mul_le_of_le_div _ _ _ (show block + 1 ≤ (count + size - 1) / size from inside)
  rw [Nat.add_mul, Nat.one_mul] at whole
  omega

/-! ## The copies of a slice -/

theorem Grid.slice_within {ρ σ : Type} {grid : Grid} {full size part base : Nat} {region : ρ} {source : σ × Nat}
    {move : Move ρ σ} {cell : ρ × Nat} (member : move ∈ grid.slice full size part region base source)
    (covers : move.Covers cell) : region = cell.1 ∧ base ≤ cell.2 ∧ cell.2 < base + grid.elems size := by
  obtain ⟨same, above, below⟩ := covers
  simp only [Grid.slice] at member
  split at member
  · obtain ⟨row, inRows, rfl⟩ := Move.mem_rows.mp member
    have last : (row + 1) * grid.count size ≤ grid.elems size := by
      rw [Grid.elems, Nat.mul_comm (grid.count size)]
      exact Nat.mul_le_mul_right _ inRows
    rw [Nat.add_mul, Nat.one_mul] at last
    simp only at above below
    refine ⟨same, ?_, ?_⟩
    · omega
    · omega
  · obtain rfl := List.mem_singleton.mp member
    exact ⟨same, above, below⟩

theorem Grid.slice_fetches {ρ σ : Type} (full part base : Nat) (region : ρ) (source : σ × Nat)
    (inCount : unit < grid.count size) (inAcross : other < grid.across) :
    Move.Fetches (grid.slice full size part region base source) (region, base + grid.place size unit other)
      (source.1, source.2 + grid.place full (grid.start size part + unit) other) := by
  simp only [Grid.slice, Grid.place]
  by_cases inner : grid.inner = true
  · simp only [if_pos inner]
    have fetches : Move.Fetches
        (Move.rows region base (grid.count size) source.1 (source.2 + grid.start size part) (grid.count full)
          (grid.count size) grid.across)
        (region, base + other * grid.count size + unit)
        (source.1, source.2 + grid.start size part + other * grid.count full + unit) :=
      Move.rows_fetches (Nat.le_refl _) inAcross inCount
    have place : source.2 + (other * grid.count full + (grid.start size part + unit)) =
        source.2 + grid.start size part + other * grid.count full + unit := by omega
    rw [place, ← Nat.add_assoc base]
    exact fetches
  · simp only [if_neg inner]
    have inside : unit * grid.across + other < grid.elems size := by
      rw [Grid.elems, Nat.mul_comm (grid.count size)]
      exact pairIndex_lt inCount inAcross
    have fetches : Move.Fetches
        [⟨region, base, source.1, source.2 + grid.start size part * grid.across, grid.elems size⟩]
        (region, base + (unit * grid.across + other))
        (source.1, source.2 + grid.start size part * grid.across + (unit * grid.across + other)) :=
      Move.Fetches.single inside
    have place : source.2 + ((grid.start size part + unit) * grid.across + other) =
        source.2 + grid.start size part * grid.across + (unit * grid.across + other) := by
      rw [Nat.add_mul]
      omega
    rw [place]
    exact fetches

namespace Backend

theorem address_add (backend : Backend) (config : Config) (table : Table) (expert offset : Nat) :
    backend.address config table expert offset =
      ((backend.address config table expert 0).1, (backend.address config table expert 0).2 + offset) := by
  rw [address, address]
  split
  · simp only [Nat.zero_add]
  · simp only [Nat.add_zero]

/-- Different cells of an array have different addresses, also in different experts. -/
theorem address_inj {expert' offset offset' : Nat}
    (inside : offset < (backend.grid config table).elems config.intermediateSize)
    (inside' : offset' < (backend.grid config table).elems config.intermediateSize)
    (same : backend.address config table expert offset = backend.address config table expert' offset') :
    expert = expert' ∧ offset = offset' := by
  rw [address, address] at same
  split at same
  · simp only [Prod.mk.injEq, Origin.mk.injEq, Option.some.injEq, true_and] at same
    exact same
  · simp only [Prod.mk.injEq, true_and] at same
    have experts := pairIndex_div expert inside
    have offsets := pairIndex_mod expert inside
    rw [same, pairIndex_div expert' inside'] at experts
    rw [same, pairIndex_mod expert' inside'] at offsets
    exact ⟨experts.symm, offsets.symm⟩

/-- Cells of one expert's array have different addresses, wherever they lie. -/
theorem offset_of_address {offset offset' : Nat}
    (same : backend.address config table expert offset = backend.address config table expert offset') :
    offset = offset' := by
  rw [address, address] at same
  split at same
  · simpa only [Prod.mk.injEq, true_and] using same
  · simpa only [Prod.mk.injEq, true_and, Nat.add_left_cancel_iff] using same

theorem sliceMoves_fetches {ρ : Type} (region : ρ) (base part expert : Nat)
    (inCount : unit < (backend.grid config table).count config.partSize)
    (inAcross : other < (backend.grid config table).across) :
    Move.Fetches (backend.sliceMoves config region base part expert table)
      (region, base + (backend.grid config table).place config.partSize unit other)
      (backend.address config table expert ((backend.grid config table).place config.intermediateSize
        ((backend.grid config table).start config.partSize part + unit) other)) := by
  rw [address_add backend config table expert]
  exact Grid.slice_fetches _ _ _ _ _ inCount inAcross

theorem stagePlace_expert {task task' : Nat} (same : backend.stagePlace config task = backend.stagePlace config task') :
    expertMap config.physicalToLogicalMap task = expertMap config.physicalToLogicalMap task' := by
  cases backend with
  | mxfp4 => exact congrArg _ same
  | bf16 => exact same
  | fp8 => exact same
  | mxfp8 => exact same
  | gptqInt4 => exact same
  | rawInt4 => exact same

/-- The copies of all tasks agree about a cell. -/
theorem staged_agree {task index : Nat} {array : Table} {move : Move Table Origin} {place : Origin × Nat}
    (slice : ∀ base, Move.Fetches
      (backend.sliceMoves config table base part (expertMap config.physicalToLogicalMap task) table)
      (table, base + unit) place)
    (inside : unit < (backend.grid config table).elems config.partSize)
    (member : move ∈ backend.sliceMoves config array
      (backend.stagePlace config index * (backend.grid config array).elems config.partSize) part
      (expertMap config.physicalToLogicalMap index) array)
    (covers : move.Covers
      (table, backend.stagePlace config task * (backend.grid config table).elems config.partSize + unit)) :
    move.origin (table, backend.stagePlace config task * (backend.grid config table).elems config.partSize + unit) =
      place := by
  obtain ⟨same, above, below⟩ := Grid.slice_within member covers
  simp only at same above below
  subst same
  have places : backend.stagePlace config index = backend.stagePlace config task := by
    apply block_of_mem inside above
    rw [Nat.add_mul, Nat.one_mul]
    exact below
  rw [places, stagePlace_expert places] at member
  exact (slice _).only move member covers

theorem stageMoves_fetches (part : Nat) {task : Nat} (inTasks : task < config.expertNum) (inTables : table ∈ backend.tables)
    (inCount : unit < (backend.grid config table).count config.partSize)
    (inAcross : other < (backend.grid config table).across) :
    Move.Fetches (backend.stageMoves config part)
      (table, backend.stagePlace config task * (backend.grid config table).elems config.partSize +
        (backend.grid config table).place config.partSize unit other)
      (backend.address config table (expertMap config.physicalToLogicalMap task)
        ((backend.grid config table).place config.intermediateSize
          ((backend.grid config table).start config.partSize part + unit) other)) := by
  have slice : ∀ base, Move.Fetches
      (backend.sliceMoves config table base part (expertMap config.physicalToLogicalMap task) table) _ _ :=
    fun base => sliceMoves_fetches table base part _ inCount inAcross
  have inside := Grid.place_lt inCount inAcross
  apply Move.Fetches.flatMap (List.mem_range.mpr inTasks)
  · apply Move.Fetches.flatMap inTables
    · exact slice _
    · intro array _ move member covers
      exact staged_agree slice inside member covers
  · intro index _ move inTask covers
    obtain ⟨array, _, member⟩ := List.mem_flatMap.mp inTask
    exact staged_agree slice inside member covers

/-! ## The load of a part -/

theorem recommendedNth_pos (backend : Backend) (n : Nat) : 0 < backend.recommendedNth n := by
  cases backend with
  | bf16 => exact Nat.le_max_left _ _
  | fp8 => exact Nat.le_max_left _ _
  | mxfp8 => exact Nat.le_max_left _ _
  | gptqInt4 => exact Nat.le_max_left _ _
  | rawInt4 => exact Nat.le_max_left _ _
  | mxfp4 => exact Nat.le_max_left _ _

/-- Every share moves cells to the place they have in the staging array. -/
theorem fromMat_origin {cell : Slot × Nat} {ith nth : Nat} {move : Move Slot Table}
    (member : move ∈ backend.fromMat config slot base ith nth) (covers : move.Covers cell) :
    slot = cell.1 ∧ move.origin cell = (slot.table, base + cell.2) := by
  obtain ⟨same, above, below⟩ := covers
  have moved : move.region = slot ∧ move.source = slot.table ∧ move.offset = base + move.start := by
    simp only [fromMat] at member
    split at member
    · obtain ⟨row, _, rfl⟩ := Move.mem_rows.mp member
      exact ⟨rfl, rfl, by rw [Nat.add_assoc]⟩
    · obtain rfl := List.mem_singleton.mp member
      exact ⟨rfl, rfl, rfl⟩
    · split at member
      · obtain rfl := List.mem_singleton.mp member
        exact ⟨rfl, rfl, rfl⟩
      · contradiction
    · obtain rfl := List.mem_singleton.mp member
      exact ⟨rfl, rfl, rfl⟩
  obtain ⟨region, source, offset⟩ := moved
  refine ⟨region.symm.trans same, ?_⟩
  rw [Move.origin, source, offset, Nat.add_assoc, Nat.add_sub_cancel' above]

theorem fromMat_weights {ith nth : Nat} (rowMajor : backend ≠ .gptqInt4) (weights : slot.table.kind = .weight) :
    backend.fromMat config slot base ith nth =
      let width := (backend.grid config slot.table).width config.partSize
      let share := splitRange (outputs config slot.table.mat) ith nth
      [⟨slot, share.1 * width, slot.table, base + share.1 * width, (share.2 - share.1) * width⟩] := by
  obtain ⟨⟨mat, kind⟩, index⟩ := slot
  subst weights
  cases backend <;> first | rfl | contradiction

theorem fromMat_converted {nth : Nat} (rowMajor : backend ≠ .gptqInt4) (blocks : backend ≠ .fp8)
    (scales : slot.table.kind = .scale) :
    backend.fromMat config slot base 0 nth =
      [⟨slot, 0, slot.table, base, (backend.grid config slot.table).elems config.partSize⟩] := by
  obtain ⟨⟨mat, kind⟩, index⟩ := slot
  subst scales
  cases backend <;> first | rfl | contradiction

theorem fromMat_blocks {ith nth : Nat} (scales : slot.table.kind = .scale) :
    Backend.fp8.fromMat config slot base ith nth =
      let width := (Backend.fp8.grid config slot.table).width config.partSize
      let share := splitRange (outputs config slot.table.mat) ith nth
      let blockStart := share.1 / config.groupSize
      [⟨slot, blockStart * width, slot.table, base + blockStart * width,
        (divUp share.2 config.groupSize - blockStart) * width⟩] := by
  obtain ⟨⟨mat, kind⟩, index⟩ := slot
  subst scales
  rfl

/-- What the shares divide: the columns of the array, its blocks of rows or its rows. -/
theorem outputs_columns (config : Config) (table : Table) :
    (Backend.gptqInt4.grid config table).width config.partSize = outputs config table.mat := by
  obtain ⟨mat, kind⟩ := table
  cases mat <;> rfl

theorem outputs_blocks (scales : table.kind = .scale) :
    (Backend.fp8.grid config table).rows config.partSize = divUp (outputs config table.mat) config.groupSize := by
  obtain ⟨mat, kind⟩ := table
  subst scales
  cases mat <;> rfl

theorem outputs_rows (rowMajor : backend ≠ .gptqInt4) (weights : table.kind = .weight) :
    (backend.grid config table).rows config.partSize = outputs config table.mat := by
  obtain ⟨mat, kind⟩ := table
  subst weights
  cases backend <;> cases mat <;> first | rfl | contradiction

/-- Every cell of a slot is in a share. -/
theorem fromMat_covers {nth offset : Nat} (positive : 0 < nth) (groups : backend = .fp8 → 0 < config.groupSize)
    (inside : offset < (backend.grid config slot.table).elems config.partSize) :
    ∃ ith < nth, ∃ move ∈ backend.fromMat config slot base ith nth, move.Covers (slot, offset) := by
  rw [Grid.elems_eq] at inside
  have someWidth : 0 < (backend.grid config slot.table).width config.partSize :=
    Nat.pos_of_mul_pos_left (Nat.zero_lt_of_lt inside)
  have inRows : offset / (backend.grid config slot.table).width config.partSize <
      (backend.grid config slot.table).rows config.partSize := by
    apply Nat.div_lt_of_lt_mul
    rwa [Nat.mul_comm]
  by_cases columns : backend = .gptqInt4
  · subst columns
    have inWidth := Nat.mod_lt offset someWidth
    have whole := Nat.div_add_mod' offset ((Backend.gptqInt4.grid config slot.table).width config.partSize)
    obtain ⟨ith, inShares, above, below⟩ :=
      exists_share _ nth (inWidth.trans_le (Nat.le_of_eq (outputs_columns config slot.table))) positive
    refine ⟨ith, inShares, _, Move.mem_rows.mpr ⟨_, inRows, rfl⟩, rfl, ?_, ?_⟩
    · simp only [splitRange_eq]
      omega
    · simp only [splitRange_eq]
      omega
  · cases kind : slot.table.kind with
    | weight =>
        obtain ⟨ith, inShares, above, below⟩ :=
          exists_share _ nth (inRows.trans_le (Nat.le_of_eq (outputs_rows columns kind))) positive
        refine ⟨ith, inShares, _, by rw [fromMat_weights columns kind]; exact List.mem_singleton_self _, rfl, ?_⟩
        rw [splitRange_eq]
        exact mem_share inside above below
    | scale =>
        by_cases blocks : backend = .fp8
        · subst blocks
          have someGroup := groups rfl
          obtain ⟨ith, inShares, above, below⟩ := exists_share (outputs config slot.table.mat) nth
            (lt_divUp someGroup (inRows.trans_le (Nat.le_of_eq (outputs_blocks kind)))) positive
          refine ⟨ith, inShares, _, by rw [fromMat_blocks kind]; exact List.mem_singleton_self _, rfl, ?_⟩
          rw [splitRange_eq]
          apply mem_share inside
          · apply Nat.div_le_of_le_mul
            rwa [Nat.mul_comm]
          · exact Nat.lt_of_mul_lt_mul_right (below.trans_le (le_divUp_mul _ someGroup))
        · refine ⟨0, positive, _, by rw [fromMat_converted columns blocks kind]; exact List.mem_singleton_self _, rfl,
            Nat.zero_le _, ?_⟩
          rw [Grid.elems_eq, Nat.zero_add]
          exact inside

theorem loadMoves_fetches {index offset : Nat} (inTables : table ∈ backend.tables) (inSlots : index < config.expertNum)
    (filled : backend.skips config index = false) (groups : backend = .fp8 → 0 < config.groupSize)
    (inside : offset < (backend.grid config table).elems config.partSize) :
    Move.Fetches (backend.loadMoves config) (⟨table, index⟩, offset)
      (table, expertMap (backend.partMap config) index * (backend.grid config table).elems config.partSize + offset) := by
  have positive := backend.recommendedNth_pos (outputs config table.mat)
  have shared : ∃ ith < backend.recommendedNth (outputs config table.mat), ∃ move ∈ backend.fromMat config ⟨table, index⟩
      (expertMap (backend.partMap config) index * (backend.grid config table).elems config.partSize) ith
      (backend.recommendedNth (outputs config table.mat)), move.Covers (⟨table, index⟩, offset) :=
    fromMat_covers positive groups inside
  obtain ⟨ith, inShares, move, member, covers⟩ := shared
  have taskIndex := pairIndex_div index inShares
  have taskShare := pairIndex_mod index inShares
  constructor
  · refine ⟨move, List.mem_flatMap_of_mem inTables (List.mem_flatMap_of_mem
      (List.mem_range.mpr (pairIndex_lt inSlots inShares)) ?_), covers⟩
    simp only [taskIndex, taskShare, filled, Bool.false_eq_true, if_false]
    exact member
  · intro other inMoves otherCovers
    obtain ⟨array, _, inArray⟩ := List.mem_flatMap.mp inMoves
    obtain ⟨task, _, inTask⟩ := List.mem_flatMap.mp inArray
    simp only at inTask
    split at inTask
    · contradiction
    · obtain ⟨same, origin⟩ := fromMat_origin inTask otherCovers
      simp only [Slot.mk.injEq] at same
      obtain ⟨rfl, rfl⟩ := same
      exact origin

theorem directMoves_fetches (part : Nat) {index : Nat} (inTables : table ∈ backend.tables)
    (inSlots : index < config.expertNum) (filled : config.shouldSkipExpert index = false)
    (inCount : unit < (backend.grid config table).count config.partSize)
    (inAcross : other < (backend.grid config table).across) :
    Move.Fetches (backend.directMoves config part)
      (⟨table, index⟩, (backend.grid config table).place config.partSize unit other)
      (backend.address config table (expertMap config.physicalToLogicalMap index)
        ((backend.grid config table).place config.intermediateSize
          ((backend.grid config table).start config.partSize part + unit) other)) := by
  have slice : Move.Fetches (backend.sliceMoves config (⟨table, index⟩ : Slot) 0 part
      (expertMap config.physicalToLogicalMap index) table) (_, 0 + _) _ :=
    sliceMoves_fetches _ 0 part _ inCount inAcross
  rw [Nat.zero_add] at slice
  apply Move.Fetches.flatMap (List.mem_range.mpr inSlots)
  · simp only [filled, Bool.false_eq_true, if_false]
    apply Move.Fetches.flatMap inTables
    · exact slice
    · intro array _ move member covers
      have same := (Grid.slice_within member covers).1
      simp only [Slot.mk.injEq, and_true] at same
      subst same
      exact slice.only move member covers
  · intro other _ move inTask covers
    split at inTask
    · contradiction
    · obtain ⟨array, _, member⟩ := List.mem_flatMap.mp inTask
      have same := (Grid.slice_within member covers).1
      simp only [Slot.mk.injEq] at same
      obtain ⟨rfl, rfl⟩ := same
      exact slice.only move member covers

theorem mem_scaleMoves {move : Move Slot Origin} :
    move ∈ backend.scaleMoves config 0 ↔ ∃ index < config.expertNum, ∃ mat : Mat,
      move = ⟨⟨⟨mat, .scale⟩, index⟩, 0,
        (backend.address config ⟨mat, .scale⟩ (expertMap config.physicalToLogicalMap index) 0).1,
        (backend.address config ⟨mat, .scale⟩ (expertMap config.physicalToLogicalMap index) 0).2,
        (backend.grid config ⟨mat, .scale⟩).elems config.partSize⟩ := by
  simp only [scaleMoves, List.mem_flatMap, List.mem_range, List.mem_singleton]
  constructor
  · intro ⟨index, inSlots, mat, _, same⟩
    refine ⟨index, inSlots, mat, ?_⟩
    rw [same]
    cases mat <;> simp
  · intro ⟨index, inSlots, mat, same⟩
    refine ⟨index, inSlots, mat, ?_, ?_⟩
    · cases mat <;> decide
    · rw [same]
      cases mat <;> simp

/-- With one part the slice is the array. -/
theorem scaleMoves_fetches {index offset : Nat} (mat : Mat) (inSlots : index < config.expertNum)
    (inside : offset < (backend.grid config ⟨mat, .scale⟩).elems config.partSize) :
    Move.Fetches (backend.scaleMoves config 0) (⟨⟨mat, .scale⟩, index⟩, offset)
      (backend.address config ⟨mat, .scale⟩ (expertMap config.physicalToLogicalMap index) offset) where
  covered := by
    refine ⟨_, mem_scaleMoves.mpr ⟨index, inSlots, mat, rfl⟩, rfl, Nat.zero_le _, ?_⟩
    rw [Nat.zero_add]
    exact inside
  only := by
    intro move member covers
    obtain ⟨other, _, array, rfl⟩ := mem_scaleMoves.mp member
    have same := covers.1
    simp only [Slot.mk.injEq, Table.mk.injEq, and_true] at same
    obtain ⟨rfl, rfl⟩ := same
    exact (address_add backend config ⟨array, .scale⟩ _ offset).symm

end Backend

end KtKernel.Avx2
