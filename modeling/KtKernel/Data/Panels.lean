import KtKernel.Data.Loops
import KtKernel.Data.Overwrites
import KtKernel.Data.Tiling
import Mathlib.Data.Fintype.Card
import Mathlib.Data.Fintype.Prod
import Mathlib.Tactic.Ring

namespace KtKernel.Data

/-! Matrices packed in panels.

Blocks of rows follow each other; in a block of rows, blocks of columns; in these, steps
of rows and then steps of columns.  One step of rows by one step of columns is a tile,
and the tiles of a matrix fill the packed array.  The last blocks may be smaller.
-/

structure Panels where
  nStep : Nat
  kStep : Nat
  nBlock : Nat
  kBlock : Nat
  someRows : 0 < nStep
  someColumns : 0 < kStep
  someRowBlock : 0 < nBlock
  someColumnBlock : 0 < kBlock
  wholeRows : nStep ∣ nBlock
  wholeColumns : kStep ∣ kBlock

theorem add_step_le {step one other : Nat} (first : step ∣ one) (second : step ∣ other) (less : one < other) :
    one + step ≤ other :=
  Nat.le_of_lt_add_of_dvd (Nat.add_lt_add_right less step) (Nat.dvd_add first (Nat.dvd_refl _)) second

theorem step_in_block {step block total value : Nat} (whole : step ∣ block) (aligned : step ∣ total) (start : step ∣ value)
    (some_ : 0 < block) (inside : value < total) :
    value % block + step ≤ min block (total - value / block * block) := by
  apply add_step_le
  · exact (Nat.dvd_mod_iff whole).mpr start
  · rcases min_choice block (total - value / block * block) with first | second
    · rw [first]
      exact whole
    · rw [second]
      exact Nat.dvd_sub aligned (Nat.dvd_mul_left_of_dvd whole _)
  · have split := Nat.div_add_mod' value block
    have small := Nat.mod_lt value some_
    omega

/-- The place and the offset of an address are known from the address. -/
theorem split_unique {size index offset index' offset' : Nat} (inside : offset < size) (inside' : offset' < size)
    (same : index * size + offset = index' * size + offset') : index = index' ∧ offset = offset' := by
  have places : index = index' := by
    rw [← pairIndex_div index inside, same, pairIndex_div index' inside']
  subst places
  exact ⟨rfl, Nat.add_left_cancel same⟩

namespace Panels

variable {panels : Panels} {n k row column offset row' column' offset' : Nat}

/-- The cells of a tile. -/
def tileSize (panels : Panels) : Nat :=
  panels.nStep * panels.kStep

def nBlockSize (panels : Panels) (n row : Nat) : Nat :=
  min panels.nBlock (n - row / panels.nBlock * panels.nBlock)

def kBlockSize (panels : Panels) (k column : Nat) : Nat :=
  min panels.kBlock (k - column / panels.kBlock * panels.kBlock)

/-- The start of a tile. -/
def base (panels : Panels) (n k row column : Nat) : Nat :=
  row / panels.nBlock * panels.nBlock * k + column / panels.kBlock * panels.kBlock * panels.nBlockSize n row +
    (row - row / panels.nBlock * panels.nBlock) * panels.kBlockSize k column +
    (column - column / panels.kBlock * panels.kBlock) * panels.nStep

/-- Whole steps in both directions. -/
structure Aligned (panels : Panels) (n k : Nat) : Prop where
  rows : panels.nStep ∣ n
  columns : panels.kStep ∣ k

/-- The corner of a tile of the matrix. -/
structure Corner (panels : Panels) (n k row column : Nat) : Prop where
  rowStep : panels.nStep ∣ row
  columnStep : panels.kStep ∣ column
  inRows : row < n
  inColumns : column < k

theorem Corner.row_fits (corner : panels.Corner n k row column) (aligned : panels.Aligned n k) :
    row % panels.nBlock + panels.nStep ≤ panels.nBlockSize n row :=
  step_in_block panels.wholeRows aligned.rows corner.rowStep panels.someRowBlock corner.inRows

theorem Corner.column_fits (corner : panels.Corner n k row column) (aligned : panels.Aligned n k) :
    column % panels.kBlock + panels.kStep ≤ panels.kBlockSize k column :=
  step_in_block panels.wholeColumns aligned.columns corner.columnStep panels.someColumnBlock corner.inColumns

/-! ## Levels of an address -/

/-- The place in a step of rows of a block. -/
def inStep (panels : Panels) (column offset : Nat) : Nat :=
  column % panels.kBlock * panels.nStep + offset

def inBlock (panels : Panels) (k row column offset : Nat) : Nat :=
  row % panels.nBlock * panels.kBlockSize k column + panels.inStep column offset

def inRows (panels : Panels) (n k row column offset : Nat) : Nat :=
  column / panels.kBlock * (panels.kBlock * panels.nBlockSize n row) + panels.inBlock k row column offset

/-- The start of a tile, as the loops compute it. -/
theorem base_loops (panels : Panels) (n k row column : Nat) :
    row / panels.nBlock * panels.nBlock * k + column / panels.kBlock * panels.kBlock * panels.nBlockSize n row +
      row % panels.nBlock * panels.kBlockSize k column + column % panels.kBlock * panels.nStep = panels.base n k row column := by
  rw [base, ← Nat.mod_eq_sub_div_mul, ← Nat.mod_eq_sub_div_mul]

theorem base_eq (panels : Panels) (n k row column offset : Nat) :
    panels.base n k row column + offset = row / panels.nBlock * (panels.nBlock * k) + panels.inRows n k row column offset := by
  rw [← base_loops]
  simp only [inRows, inBlock, inStep]
  ring

section

variable (corner : panels.Corner n k row column) (aligned : panels.Aligned n k) (inTile : offset < panels.tileSize)
include corner aligned inTile

theorem inStep_lt : panels.inStep column offset < panels.nStep * panels.kBlockSize k column := by
  have fits := Nat.mul_le_mul_left panels.nStep (corner.column_fits aligned)
  have product : panels.nStep * (column % panels.kBlock) = column % panels.kBlock * panels.nStep := Nat.mul_comm _ _
  unfold tileSize at inTile
  rw [Nat.mul_add, product] at fits
  unfold inStep
  omega

theorem inBlock_lt : panels.inBlock k row column offset < panels.nBlockSize n row * panels.kBlockSize k column := by
  have fits := Nat.mul_le_mul_right (panels.kBlockSize k column) (corner.row_fits aligned)
  have inside := inStep_lt corner aligned inTile
  rw [Nat.add_mul] at fits
  unfold inBlock
  omega

theorem inRows_lt : panels.inRows n k row column offset < panels.nBlockSize n row * k := by
  have inside := inBlock_lt corner aligned inTile
  have whole : column / panels.kBlock * panels.kBlock + panels.kBlockSize k column ≤ k := by
    have split := Nat.div_add_mod' column panels.kBlock
    have known := corner.inColumns
    unfold kBlockSize
    omega
  have product := Nat.mul_le_mul_left (panels.nBlockSize n row) whole
  have place : panels.nBlockSize n row * (column / panels.kBlock * panels.kBlock) =
      column / panels.kBlock * (panels.kBlock * panels.nBlockSize n row) := by ring
  rw [Nat.mul_add, place] at product
  unfold inRows
  omega

/-- A cell of a tile lies in the packed array. -/
theorem base_lt : panels.base n k row column + offset < n * k := by
  have inside := inRows_lt corner aligned inTile
  have whole : row / panels.nBlock * panels.nBlock + panels.nBlockSize n row ≤ n := by
    have split := Nat.div_add_mod' row panels.nBlock
    have known := corner.inRows
    unfold nBlockSize
    omega
  have product := Nat.mul_le_mul_right k whole
  rw [Nat.add_mul, Nat.mul_assoc] at product
  rw [base_eq]
  omega

end

/-- Tiles do not meet. -/
theorem base_unique (aligned : panels.Aligned n k) (corner : panels.Corner n k row column)
    (corner' : panels.Corner n k row' column') (inTile : offset < panels.tileSize) (inTile' : offset' < panels.tileSize)
    (same : panels.base n k row column + offset = panels.base n k row' column' + offset') :
    row = row' ∧ column = column' ∧ offset = offset' := by
  have bound : ∀ {row column offset}, panels.Corner n k row column → offset < panels.tileSize →
      panels.inRows n k row column offset < panels.nBlock * k := by
    intro row column offset corner inTile
    exact (inRows_lt corner aligned inTile).trans_le (Nat.mul_le_mul_right k (min_le_left _ _))
  rw [base_eq, base_eq] at same
  obtain ⟨rowBlock, inRowsEq⟩ := split_unique (bound corner inTile) (bound corner' inTile') same
  have sizes : panels.nBlockSize n row = panels.nBlockSize n row' := by
    unfold nBlockSize
    rw [rowBlock]
  have blockBound : ∀ {row column offset}, panels.Corner n k row column → offset < panels.tileSize →
      panels.inBlock k row column offset < panels.kBlock * panels.nBlockSize n row := by
    intro row column offset corner inTile
    have inside := inBlock_lt corner aligned inTile
    have less := Nat.mul_le_mul_left (panels.nBlockSize n row) (min_le_left panels.kBlock (k - column / panels.kBlock * panels.kBlock))
    rw [Nat.mul_comm panels.kBlock]
    exact inside.trans_le less
  have lower := blockBound corner' inTile'
  rw [← sizes] at lower
  unfold inRows at inRowsEq
  rw [← sizes] at inRowsEq
  obtain ⟨columnBlock, inBlockEq⟩ := split_unique (blockBound corner inTile) lower inRowsEq
  have columnSizes : panels.kBlockSize k column = panels.kBlockSize k column' := by
    unfold kBlockSize
    rw [columnBlock]
  have stepBound := inStep_lt corner' aligned inTile'
  rw [← columnSizes] at stepBound
  obtain ⟨rowStep, rowPlace⟩ := (Nat.dvd_mod_iff panels.wholeRows).mpr corner.rowStep
  obtain ⟨rowStep', rowPlace'⟩ := (Nat.dvd_mod_iff panels.wholeRows).mpr corner'.rowStep
  unfold inBlock at inBlockEq
  rw [← columnSizes, rowPlace, rowPlace', Nat.mul_comm panels.nStep, Nat.mul_comm panels.nStep, Nat.mul_assoc, Nat.mul_assoc] at inBlockEq
  obtain ⟨rowSteps, inStepEq⟩ := split_unique (inStep_lt corner aligned inTile) stepBound inBlockEq
  obtain ⟨columnStep, columnPlace⟩ := (Nat.dvd_mod_iff panels.wholeColumns).mpr corner.columnStep
  obtain ⟨columnStep', columnPlace'⟩ := (Nat.dvd_mod_iff panels.wholeColumns).mpr corner'.columnStep
  unfold inStep at inStepEq
  rw [columnPlace, columnPlace', Nat.mul_comm panels.kStep, Nat.mul_comm panels.kStep, Nat.mul_assoc, Nat.mul_assoc,
    Nat.mul_comm panels.kStep] at inStepEq
  obtain ⟨columnSteps, offsets⟩ := split_unique inTile inTile' inStepEq
  refine ⟨?_, ?_, offsets⟩
  · rw [← Nat.div_add_mod' row panels.nBlock, ← Nat.div_add_mod' row' panels.nBlock, rowBlock, rowPlace, rowPlace', rowSteps]
  · rw [← Nat.div_add_mod' column panels.kBlock, ← Nat.div_add_mod' column' panels.kBlock, columnBlock, columnPlace,
      columnPlace', columnSteps]

/-- Every cell of the packed array belongs to a tile. -/
theorem base_cover (aligned : panels.Aligned n k) {address : Nat} (inside : address < n * k) :
    ∃ row column offset, panels.Corner n k row column ∧ offset < panels.tileSize ∧
      panels.base n k row column + offset = address := by
  obtain ⟨⟨rows, rfl⟩, ⟨columns, rfl⟩⟩ := aligned
  have aligned : panels.Aligned (panels.nStep * rows) (panels.kStep * columns) := ⟨⟨rows, rfl⟩, ⟨columns, rfl⟩⟩
  have corner : ∀ (row : Fin rows) (column : Fin columns),
      panels.Corner (panels.nStep * rows) (panels.kStep * columns) (panels.nStep * row) (panels.kStep * column) := by
    intro row column
    exact ⟨Nat.dvd_mul_right _ _, Nat.dvd_mul_right _ _, Nat.mul_lt_mul_of_pos_left row.isLt panels.someRows,
      Nat.mul_lt_mul_of_pos_left column.isLt panels.someColumns⟩
  -- As many tile cells as packed cells, and no two at one address.
  let place : (Fin rows × Fin columns) × Fin panels.tileSize → Fin (panels.nStep * rows * (panels.kStep * columns)) :=
    fun cell => ⟨_, base_lt (corner cell.1.1 cell.1.2) aligned cell.2.isLt⟩
  have injective : Function.Injective place := by
    intro one other same
    obtain ⟨rowEq, columnEq, offsetEq⟩ := base_unique aligned (corner one.1.1 one.1.2) (corner other.1.1 other.1.2)
      one.2.isLt other.2.isLt (congrArg Fin.val same)
    apply Prod.ext
    · apply Prod.ext
      · exact Fin.ext (Nat.eq_of_mul_eq_mul_left panels.someRows rowEq)
      · exact Fin.ext (Nat.eq_of_mul_eq_mul_left panels.someColumns columnEq)
    · exact Fin.ext offsetEq
  have sizes : Fintype.card ((Fin rows × Fin columns) × Fin panels.tileSize) =
      Fintype.card (Fin (panels.nStep * rows * (panels.kStep * columns))) := by
    rw [Fintype.card_prod, Fintype.card_prod, Fintype.card_fin, Fintype.card_fin, Fintype.card_fin, Fintype.card_fin, tileSize]
    ring
  obtain ⟨cell, found⟩ := ((Fintype.bijective_iff_injective_and_card place).mpr ⟨injective, sizes⟩).2 ⟨address, inside⟩
  exact ⟨_, _, _, corner cell.1.1 cell.1.2, cell.2.isLt, congrArg Fin.val found⟩

/-- The tile of a place. -/
theorem corner_of (panels : Panels) (inRows : row < n) (inColumns : column < k) :
    panels.Corner n k (row / panels.nStep * panels.nStep) (column / panels.kStep * panels.kStep) where
  rowStep := Nat.dvd_mul_left _ _
  columnStep := Nat.dvd_mul_left _ _
  inRows := (Nat.div_mul_le_self _ _).trans_lt inRows
  inColumns := (Nat.div_mul_le_self _ _).trans_lt inColumns

/-! ## Loops over the tiles -/

/-- The tiles of the matrix, by their corners. -/
def grid (panels : Panels) (n k : Nat) : List (Nat × Nat) :=
  (upTo n panels.nStep).flatMap fun row => (upTo k panels.kStep).map fun column => (row, column)

theorem mem_grid : (row, column) ∈ panels.grid n k ↔ panels.Corner n k row column := by
  simp only [grid, List.mem_flatMap, List.mem_map, Prod.mk.injEq, mem_upTo panels.someRows, mem_upTo panels.someColumns]
  constructor
  · intro found
    obtain ⟨_, ⟨rowStep, inRows⟩, _, ⟨columnStep, inColumns⟩, rfl, rfl⟩ := found
    exact ⟨rowStep, columnStep, inRows, inColumns⟩
  · intro corner
    exact ⟨row, ⟨corner.rowStep, corner.inRows⟩, column, ⟨corner.columnStep, corner.inColumns⟩, rfl, rfl⟩

theorem grid_nodup (panels : Panels) (n k : Nat) : (panels.grid n k).Nodup := by
  rw [grid, List.nodup_flatMap]
  constructor
  · intro row _
    apply List.Pairwise.map _ _ (upTo_nodup panels.someColumns)
    intro one other different same
    exact different (congrArg Prod.snd same)
  · apply List.Pairwise.imp _ (upTo_nodup panels.someRows)
    intro one other different
    simp only [Function.onFun, List.disjoint_left, List.mem_map, not_exists, not_and]
    intro place found column _ same
    obtain ⟨_, _, rfl⟩ := found
    exact different (congrArg Prod.fst same).symm

variable {β : Type}

/-- The loops of a share over its block of rows.  The body takes the start and the size
of the block and the row in it, and the same for the columns. -/
def share (panels : Panels) (n k ith : Nat) (body : (nBlockBegin nBlockSize nBegin kBlockBegin kBlockSize kBegin : Nat) → β) :
    List β :=
  let nBlockBegin := panels.nBlock * ith
  let nBlockSize := min n (panels.nBlock * (ith + 1)) - nBlockBegin
  (upTo nBlockSize panels.nStep).flatMap fun nBegin =>
    (upTo k panels.kBlock).flatMap fun kBlockBegin =>
      let kBlockSize := min panels.kBlock (k - kBlockBegin)
      (upTo kBlockSize panels.kStep).map fun kBegin => body nBlockBegin nBlockSize nBegin kBlockBegin kBlockSize kBegin

def shareCount (panels : Panels) (n : Nat) : Nat :=
  (n + panels.nBlock - 1) / panels.nBlock

theorem block_place {block step total start inner : Nat} (some_ : 0 < block) (whole : step ∣ block) (startMultiple : block ∣ start)
    (innerMultiple : step ∣ inner) (inBlock : inner < min block (total - start)) :
    (start + inner) / block * block = start ∧ (start + inner) % block = inner ∧ step ∣ start + inner ∧ start + inner < total := by
  obtain ⟨index, rfl⟩ := startMultiple
  have less : inner < block := inBlock.trans_le (min_le_left _ _)
  refine ⟨?_, ?_, ?_, ?_⟩
  · rw [Nat.mul_add_div some_, Nat.div_eq_of_lt less, Nat.add_zero, Nat.mul_comm]
  · rw [Nat.mul_add_mod, Nat.mod_eq_of_lt less]
  · exact Nat.dvd_add (Nat.dvd_mul_right_of_dvd whole index) innerMultiple
  · omega

section

variable {body : Nat → Nat → Nat → Nat → Nat → Nat → β} (tile : Nat → Nat → β)
  (same : ∀ row column, panels.Corner n k row column →
    body (row / panels.nBlock * panels.nBlock) (panels.nBlockSize n row) (row % panels.nBlock)
      (column / panels.kBlock * panels.kBlock) (panels.kBlockSize k column) (column % panels.kBlock) = tile row column)
include same

theorem columns_eq (aligned : panels.Aligned n k) (rowStep : panels.nStep ∣ row) (inRows : row < n) :
    ((upTo k panels.kBlock).flatMap fun kBlockBegin =>
      (upTo (min panels.kBlock (k - kBlockBegin)) panels.kStep).map fun kBegin =>
        body (row / panels.nBlock * panels.nBlock) (panels.nBlockSize n row) (row % panels.nBlock) kBlockBegin
          (min panels.kBlock (k - kBlockBegin)) kBegin) =
      (upTo k panels.kStep).map (tile row) := by
  rw [List.map_eq_flatMap, ← upTo_blocks panels.someColumns panels.wholeColumns panels.someColumnBlock aligned.columns]
  apply List.flatMap_congr
  intro kBlockBegin inBlocks
  rw [List.map_eq_flatMap]
  apply List.flatMap_congr
  intro kBegin inSteps
  obtain ⟨startMultiple, -⟩ := (mem_upTo panels.someColumnBlock).mp inBlocks
  obtain ⟨innerMultiple, inBlock⟩ := (mem_upTo panels.someColumns).mp inSteps
  obtain ⟨start, inner, columnStep, inColumns⟩ :=
    block_place panels.someColumnBlock panels.wholeColumns startMultiple innerMultiple inBlock
  have tileEq := same row (kBlockBegin + kBegin) ⟨rowStep, columnStep, inRows, inColumns⟩
  simp only [kBlockSize, start, inner] at tileEq
  rw [tileEq]

/-- The tiles of a share are those of its rows. -/
theorem share_eq (aligned : panels.Aligned n k) (ith : Nat) :
    panels.share n k ith body =
      (upTo (min panels.nBlock (n - ith * panels.nBlock)) panels.nStep).flatMap fun nBegin =>
        (upTo k panels.kStep).map (tile (ith * panels.nBlock + nBegin)) := by
  have size : min n (panels.nBlock * (ith + 1)) - panels.nBlock * ith = min panels.nBlock (n - ith * panels.nBlock) := by
    rw [Nat.mul_add, Nat.mul_one, Nat.mul_comm ith]
    omega
  simp only [share, size]
  apply List.flatMap_congr
  intro nBegin inSteps
  obtain ⟨innerMultiple, inBlock⟩ := (mem_upTo panels.someRows).mp inSteps
  obtain ⟨start, inner, rowStep, inRows⟩ :=
    block_place panels.someRowBlock panels.wholeRows (Nat.dvd_mul_left _ _) innerMultiple inBlock
  have columns := columns_eq tile same aligned rowStep inRows
  simp only [nBlockSize, start, inner] at columns
  rw [Nat.mul_comm panels.nBlock]
  exact columns

/-- The shares together go through the tiles, each once. -/
theorem shares_eq (aligned : panels.Aligned n k) :
    ((List.range (panels.shareCount n)).flatMap fun ith => panels.share n k ith body) =
      (panels.grid n k).map fun corner => tile corner.1 corner.2 := by
  have starts : upTo n panels.nBlock = (List.range (panels.shareCount n)).map (· * panels.nBlock) := rfl
  have rows := upTo_blocks panels.someRows panels.wholeRows panels.someRowBlock aligned.rows
    fun row => (upTo k panels.kStep).map (tile row)
  rw [starts, List.flatMap_map] at rows
  simp only [share_eq tile same aligned, rows, grid, List.map_flatMap, List.map_map, Function.comp_def]

end

section

variable {σ ι γ : Type} {cell : ι} {value : γ} {before after : σ}
  {body : Nat → Nat → Nat → Nat → Nat → Nat → σ → σ} {tile : Nat → Nat → σ → σ}

/-- A cell that the tiles agree on, with the shares finished. -/
theorem shares_agreed (read : σ → ι → γ) (aligned : panels.Aligned n k)
    (finished : Finished (panels.shareCount n) (fun ith => panels.share n k ith body) before after)
    (same : ∀ row column, panels.Corner n k row column →
      body (row / panels.nBlock * panels.nBlock) (panels.nBlockSize n row) (row % panels.nBlock)
        (column / panels.kBlock * panels.kBlock) (panels.kBlockSize k column) (column % panels.kBlock) = tile row column)
    (agreed : ∀ row column, panels.Corner n k row column →
      (∀ state, read (tile row column state) cell = read state cell) ∨ ∀ state, read (tile row column state) cell = value)
    (corner : panels.Corner n k row column) (written : ∀ state, read (tile row column state) cell = value) :
    read after cell = value := by
  obtain ⟨steps, order, rfl⟩ := finished
  rw [shares_eq tile same aligned] at order
  apply runSteps_agreed read
  · intro step member
    obtain ⟨place, inGrid, rfl⟩ := List.mem_map.mp (order.mem_iff.mp member)
    exact agreed place.1 place.2 (mem_grid.mp inGrid)
  · exact ⟨tile row column, order.mem_iff.mpr (List.mem_map.mpr ⟨(row, column), mem_grid.mpr corner, rfl⟩), written⟩

end

section

variable {α : Type} {before after : Nat → α} {body : Nat → Nat → Nat → Nat → Nat → Nat → (Nat → α) → Nat → α}
  {tile : Nat → Nat → (Nat → α) → Nat → α}

/-- Shares that fill the tiles leave each tile's own values. -/
theorem shares_filled (value : Nat → Nat → Nat → α) (aligned : panels.Aligned n k)
    (finished : Finished (panels.shareCount n) (fun ith => panels.share n k ith body) before after)
    (same : ∀ row column, panels.Corner n k row column →
      body (row / panels.nBlock * panels.nBlock) (panels.nBlockSize n row) (row % panels.nBlock)
        (column / panels.kBlock * panels.kBlock) (panels.kBlockSize k column) (column % panels.kBlock) = tile row column)
    (fills : ∀ row column, panels.Corner n k row column →
      Fills (tile row column) (panels.base n k row column) panels.tileSize (value row column))
    (corner : panels.Corner n k row column) (inTile : offset < panels.tileSize) :
    after (panels.base n k row column + offset) = value row column offset := by
  apply shares_agreed (fun memory => memory) aligned finished same _ corner
  · intro memory
    exact (fills row column corner).inside memory offset inTile
  · intro otherRow otherColumn otherCorner
    have other := fills otherRow otherColumn otherCorner
    by_cases apart : panels.base n k row column + offset < panels.base n k otherRow otherColumn ∨
        panels.base n k otherRow otherColumn + panels.tileSize ≤ panels.base n k row column + offset
    · exact .inl fun memory => other.outside memory _ apart
    · right
      intro memory
      obtain ⟨inner, address⟩ := Nat.exists_eq_add_of_le (show panels.base n k otherRow otherColumn ≤
        panels.base n k row column + offset by omega)
      have inOther : inner < panels.tileSize := by omega
      obtain ⟨rfl, rfl, rfl⟩ := base_unique aligned corner otherCorner inTile inOther address
      exact other.inside memory offset inTile

/-- Packed arrays are equal when their tiles are. -/
theorem packed_ext (one other : Nat → α) (aligned : panels.Aligned n k)
    (tiles : ∀ row column offset, panels.Corner n k row column → offset < panels.tileSize →
      one (panels.base n k row column + offset) = other (panels.base n k row column + offset))
    {address : Nat} (inside : address < n * k) : one address = other address := by
  obtain ⟨row, column, offset, corner, inTile, rfl⟩ := base_cover aligned inside
  exact tiles row column offset corner inTile

/-- Shares that write the tiles to a matrix, row by row. -/
theorem shares_unpacked (value : Nat → Nat → Nat → Nat → α) (aligned : panels.Aligned n k)
    (finished : Finished (panels.shareCount n) (fun ith => panels.share n k ith body) before after)
    (same : ∀ row column, panels.Corner n k row column →
      body (row / panels.nBlock * panels.nBlock) (panels.nBlockSize n row) (row % panels.nBlock)
        (column / panels.kBlock * panels.kBlock) (panels.kBlockSize k column) (column % panels.kBlock) =
      putRows 0 k row column panels.nStep panels.kStep (value row column))
    (inRows : row < n) (inColumns : column < k) :
    after (row * k + column) = value (row / panels.nStep * panels.nStep) (column / panels.kStep * panels.kStep)
      (row % panels.nStep) (column % panels.kStep) := by
  have corner := corner_of panels inRows inColumns
  have fits : ∀ {row column}, panels.Corner n k row column → column + panels.kStep ≤ k :=
    fun corner => add_step_le corner.columnStep aligned.columns corner.inColumns
  have rowSplit := Nat.div_add_mod' row panels.nStep
  have columnSplit := Nat.div_add_mod' column panels.kStep
  have rowSmall := Nat.mod_lt row panels.someRows
  have columnSmall := Nat.mod_lt column panels.someColumns
  have written : ∀ memory : Nat → α, putRows 0 k (row / panels.nStep * panels.nStep) (column / panels.kStep * panels.kStep)
      panels.nStep panels.kStep (value (row / panels.nStep * panels.nStep) (column / panels.kStep * panels.kStep)) memory
      (row * k + column) = value (row / panels.nStep * panels.nStep) (column / panels.kStep * panels.kStep)
        (row % panels.nStep) (column % panels.kStep) := by
    intro memory
    have inside := putRows_inside 0 (row / panels.nStep * panels.nStep)
      (value (row / panels.nStep * panels.nStep) (column / panels.kStep * panels.kStep)) memory (fits corner) rowSmall columnSmall
    rw [Nat.zero_add, rowSplit, columnSplit] at inside
    exact inside
  apply shares_agreed (fun memory => memory) aligned finished same _ corner written
  intro otherRow otherColumn otherCorner
  by_cases covered : otherRow ≤ row ∧ row < otherRow + panels.nStep ∧ otherColumn ≤ column ∧ column < otherColumn + panels.kStep
  · obtain ⟨rowIndex, rfl⟩ := otherCorner.rowStep
    obtain ⟨columnIndex, rfl⟩ := otherCorner.columnStep
    have rowEq : row / panels.nStep = rowIndex := by
      apply Nat.div_eq_of_lt_le
      · rw [Nat.mul_comm]
        exact covered.1
      · rw [Nat.add_mul, Nat.one_mul, Nat.mul_comm]
        exact covered.2.1
    have columnEq : column / panels.kStep = columnIndex := by
      apply Nat.div_eq_of_lt_le
      · rw [Nat.mul_comm]
        exact covered.2.2.1
      · rw [Nat.add_mul, Nat.one_mul, Nat.mul_comm]
        exact covered.2.2.2
    rw [rowEq, columnEq, Nat.mul_comm rowIndex, Nat.mul_comm columnIndex] at written ⊢
    exact .inr written
  · left
    intro memory
    have outside := putRows_outside 0 (value otherRow otherColumn) memory (fits otherCorner) inColumns covered
    rw [Nat.zero_add] at outside
    exact outside

end

end Panels

end KtKernel.Data
