import KtKernel.Amx.Transpose
import KtKernel.Data.Panels
import Mathlib.Tactic.Ring

namespace KtKernel.Amx.VnniTiles

open KtKernel.Data
open KtKernel.Amx.Transpose

/-! Tiles of 32 rows of 16 dwords, with each half transposed in place.  A dword holds
`width` entries. -/

variable {α : Type} {width base row column lane part offset : Nat}

/-- `transpose_16x16_32bit` on a place of the memory. -/
def transposeAt (width base : Nat) (memory : Nat → α) : Nat → α :=
  put base (256 * width) (fun offset =>
    transpose16x16 (fun row lane part => memory (base + ((row * 16 + lane) * width + part))) (offset / width / 16)
      (offset / width % 16) (offset % width)) memory

def transposeTile (width base : Nat) (memory : Nat → α) : Nat → α :=
  transposeAt width (base + 256 * width) (transposeAt width base memory)

/-- The place of an entry in a packed tile. -/
def place (width row column : Nat) : Nat :=
  (row / 16 * 256 + column / width * 16 + row % 16) * width + column % width

def placeRow (width offset : Nat) : Nat :=
  offset / width / 256 * 16 + offset / width % 16

def placeColumn (width offset : Nat) : Nat :=
  offset / width / 16 % 16 * width + offset % width

def packTile (width base : Nat) (source : Nat → Nat → α) (memory : Nat → α) : Nat → α :=
  transposeTile width base (runSteps ((List.range 32).map fun row => put (base + row * (16 * width)) (16 * width) (source row)) memory)

theorem transposeAt_inside (memory : Nat → α) (inRows : row < 16) (inLanes : lane < 16) (inPart : part < width) :
    transposeAt width base memory (base + ((row * 16 + lane) * width + part)) =
      memory (base + ((lane * 16 + row) * width + part)) := by
  have inside : (row * 16 + lane) * width + part < 256 * width := by
    have last : (row * 16 + lane + 1) * width ≤ 256 * width := Nat.mul_le_mul_right _ (by omega)
    rw [Nat.add_mul _ 1, Nat.one_mul] at last
    omega
  rw [transposeAt, put_inside _ _ inside, pairIndex_div _ inPart, pairIndex_mod _ inPart, pairIndex_div _ inLanes,
    pairIndex_mod _ inLanes, transpose16x16_apply _ inRows inLanes]

theorem transposeAt_outside {cell : Nat} (memory : Nat → α) (outside : cell < base ∨ base + 256 * width ≤ cell) :
    transposeAt width base memory cell = memory cell :=
  put_outside _ _ outside

/-- A dword of a tile changes places with its mirror in the half. -/
theorem transposeTile_inside (memory : Nat → α) (inRows : row < 16) (inLanes : lane < 16) (inPart : part < width) {half : Nat}
    (inHalves : half < 2) :
    transposeTile width base memory (base + ((half * 256 + row * 16 + lane) * width + part)) =
      memory (base + ((half * 256 + lane * 16 + row) * width + part)) := by
  have split : ∀ one other : Nat, base + ((half * 256 + one * 16 + other) * width + part) =
      base + half * (256 * width) + ((one * 16 + other) * width + part) := by
    intro one other
    ring
  have inside : ∀ one other : Nat, one < 16 → other < 16 → (one * 16 + other) * width + part < 256 * width := by
    intro one other inOne inOther
    have last : (one * 16 + other + 1) * width ≤ 256 * width := Nat.mul_le_mul_right _ (by omega)
    rw [Nat.add_mul _ 1, Nat.one_mul] at last
    omega
  have first := inside row lane inRows inLanes
  have second := inside lane row inLanes inRows
  rw [split, split]
  rcases (show half = 0 ∨ half = 1 by omega) with rfl | rfl
  · rw [Nat.zero_mul, Nat.add_zero, transposeTile, transposeAt_outside, transposeAt_inside memory inRows inLanes inPart]
    omega
  · rw [Nat.one_mul, transposeTile, transposeAt_inside _ inRows inLanes inPart, transposeAt_outside]
    omega

theorem transposeTile_outside {cell : Nat} (memory : Nat → α) (outside : cell < base ∨ base + 512 * width ≤ cell) :
    transposeTile width base memory cell = memory cell := by
  rw [transposeTile, transposeAt_outside, transposeAt_outside]
  · omega
  · omega

/-! ## Places -/

theorem linear_eq (row : Nat) (column width : Nat) :
    row * (16 * width) + column = (row / 16 * 256 + row % 16 * 16 + column / width) * width + column % width := by
  have rows := Nat.div_add_mod' row 16
  have columns := Nat.div_add_mod' column width
  have whole : row * (16 * width) = (row / 16 * 256 + row % 16 * 16) * width := by
    calc row * (16 * width) = (row / 16 * 16 + row % 16) * (16 * width) := by rw [rows]
      _ = (row / 16 * 256 + row % 16 * 16) * width := by ring
  rw [Nat.add_mul _ (column / width), whole]
  omega

theorem place_lt (inRows : row < 32) (inColumns : column < 16 * width) : place width row column < 512 * width := by
  have some_ : 0 < width := by omega
  have inLanes : column / width < 16 := Nat.div_lt_of_lt_mul (by rwa [Nat.mul_comm])
  have inPart := Nat.mod_lt column some_
  have last : (row / 16 * 256 + column / width * 16 + row % 16 + 1) * width ≤ 512 * width :=
    Nat.mul_le_mul_right _ (by omega)
  rw [Nat.add_mul _ 1, Nat.one_mul] at last
  unfold place
  omega

theorem placeRow_lt (inside : offset < 512 * width) : placeRow width offset < 32 := by
  have dwords : offset / width < 512 := Nat.div_lt_of_lt_mul (by rwa [Nat.mul_comm])
  unfold placeRow
  omega

theorem placeColumn_lt (inside : offset < 512 * width) : placeColumn width offset < 16 * width := by
  have some_ : 0 < width := by omega
  have inPart := Nat.mod_lt offset some_
  have last : (offset / width / 16 % 16 + 1) * width ≤ 16 * width := Nat.mul_le_mul_right _ (by omega)
  rw [Nat.add_mul, Nat.one_mul] at last
  unfold placeColumn
  omega

theorem place_of_offset (inside : offset < 512 * width) :
    place width (placeRow width offset) (placeColumn width offset) = offset := by
  have some_ : 0 < width := by omega
  have inPart := Nat.mod_lt offset some_
  have dwords : offset / width < 512 := Nat.div_lt_of_lt_mul (by rwa [Nat.mul_comm])
  have index : placeRow width offset / 16 * 256 + offset / width / 16 % 16 * 16 + placeRow width offset % 16 =
      offset / width := by
    unfold placeRow
    omega
  unfold place placeColumn
  rw [pairIndex_div _ inPart, pairIndex_mod _ inPart, index, Nat.div_add_mod']

theorem dword_of_place (row : Nat) (inColumns : column < 16 * width) :
    place width row column / width = row / 16 * 256 + column / width * 16 + row % 16 ∧
      place width row column % width = column % width ∧ column / width < 16 := by
  have inPart := Nat.mod_lt column (show 0 < width by omega)
  exact ⟨pairIndex_div _ inPart, pairIndex_mod _ inPart, Nat.div_lt_of_lt_mul (by rwa [Nat.mul_comm])⟩

theorem placeRow_place (inRows : row < 32) (inColumns : column < 16 * width) :
    placeRow width (place width row column) = row := by
  obtain ⟨dword, -, inLanes⟩ := dword_of_place row inColumns
  rw [placeRow, dword]
  omega

theorem placeColumn_place (inRows : row < 32) (inColumns : column < 16 * width) :
    placeColumn width (place width row column) = column := by
  obtain ⟨dword, part, inLanes⟩ := dword_of_place row inColumns
  have lanes : (row / 16 * 256 + column / width * 16 + row % 16) / 16 % 16 = column / width := by omega
  rw [placeColumn, dword, part, lanes, Nat.div_add_mod']

/-- The transposes carry the entries between the rows and the packed places. -/
theorem transposeTile_place (base : Nat) (memory : Nat → α) (inRows : row < 32) (inColumns : column < 16 * width) :
    transposeTile width base memory (base + place width row column) = memory (base + (row * (16 * width) + column)) := by
  have some_ : 0 < width := by omega
  have inLanes : column / width < 16 := Nat.div_lt_of_lt_mul (by rwa [Nat.mul_comm])
  rw [place, transposeTile_inside memory inLanes (Nat.mod_lt row (by decide)) (Nat.mod_lt column some_)
    (Nat.div_lt_of_lt_mul inRows), linear_eq]

theorem transposeTile_linear (base : Nat) (memory : Nat → α) (inRows : row < 32) (inColumns : column < 16 * width) :
    transposeTile width base memory (base + (row * (16 * width) + column)) = memory (base + place width row column) := by
  have some_ : 0 < width := by omega
  have inLanes : column / width < 16 := Nat.div_lt_of_lt_mul (by rwa [Nat.mul_comm])
  rw [linear_eq, transposeTile_inside memory (Nat.mod_lt row (by decide)) inLanes (Nat.mod_lt column some_)
    (Nat.div_lt_of_lt_mul inRows), place]

theorem packTile_rows (width base : Nat) (source : Nat → Nat → α) (memory : Nat → α) :
    packTile width base source memory =
      transposeTile width base (putRows base (16 * width) 0 0 32 (16 * width) source memory) := by
  simp only [packTile, putRows, Nat.zero_add, Nat.add_zero]

theorem packTile_fills (width base : Nat) (source : Nat → Nat → α) :
    Fills (packTile width base source) base (512 * width) fun offset =>
      source (placeRow width offset) (placeColumn width offset) where
  inside := by
    intro memory offset inside
    have inRows := placeRow_lt inside
    have inColumns := placeColumn_lt inside
    have row := putRows_inside base 0 source memory (Nat.zero_add (16 * width)).le inRows inColumns
    rw [Nat.zero_add, Nat.zero_add] at row
    rw [packTile_rows]
    nth_rewrite 1 [← place_of_offset inside]
    rw [transposeTile_place base _ inRows inColumns, row]
  outside := by
    intro memory cell outside
    rw [packTile_rows, transposeTile_outside _ outside]
    apply putRows_beyond source memory (by omega)
    omega

theorem packTile_congr {one other : Nat → Nat → α} (same : ∀ row < 32, ∀ column < 16 * width, one row column = other row column) :
    packTile width base one = packTile width base other := by
  funext memory
  have rows : ((List.range 32).map fun row => put (base + row * (16 * width)) (16 * width) (one row)) =
      (List.range 32).map fun row => put (base + row * (16 * width)) (16 * width) (other row) := by
    apply List.map_congr_left
    intro row inRows
    exact put_congr (same row (List.mem_range.mp inRows))
  rw [packTile, packTile, rows]

/-! ## Packed matrices -/

section

variable {panels : Panels} {n k : Nat} {before after : Nat → α}
  {body : Nat → Nat → Nat → Nat → Nat → Nat → (Nat → α) → Nat → α}

/-- Panels of tiles with `width` entries in a dword. -/
structure Shaped (panels : Panels) (width : Nat) : Prop where
  rows : panels.nStep = 32
  columns : panels.kStep = 16 * width

theorem Shaped.tileSize (shaped : Shaped panels width) : panels.tileSize = 512 * width := by
  rw [Panels.tileSize, shaped.rows, shaped.columns, ← Nat.mul_assoc]

theorem shares_packed (matrix : Nat → Nat → α) (shaped : Shaped panels width) (aligned : panels.Aligned n k)
    (finished : Finished (panels.shareCount n) (fun ith => panels.share n k ith body) before after)
    (same : ∀ row column, panels.Corner n k row column →
      body (row / panels.nBlock * panels.nBlock) (panels.nBlockSize n row) (row % panels.nBlock)
        (column / panels.kBlock * panels.kBlock) (panels.kBlockSize k column) (column % panels.kBlock) =
      packTile width (panels.base n k row column) fun i j => matrix (row + i) (column + j))
    (corner : panels.Corner n k row column) (inTile : offset < panels.tileSize) :
    after (panels.base n k row column + offset) = matrix (row + placeRow width offset) (column + placeColumn width offset) := by
  apply Panels.shares_filled (fun row column offset =>
    matrix (row + placeRow width offset) (column + placeColumn width offset)) aligned finished same _ corner inTile
  intro row column _
  rw [shaped.tileSize]
  exact packTile_fills width _ _

end

/-! ## Strips

A matrix that is packed as its transpose goes through a strip of its own. -/

/-- The strip of a share, filled in squares of 32; the vector keeps what it held before. -/
def strip (src : Nat → α) (srcK nBlockBegin nBlockSize k : Nat) (stale : Nat → α) : Nat → α :=
  runSteps ((upTo k 32).flatMap fun cTile =>
    (upTo nBlockSize 32).flatMap fun rTile =>
      (upTo (min 32 (k - cTile)) 1).flatMap fun c =>
        (upTo (min 32 (nBlockSize - rTile)) 1).map fun r =>
          put ((rTile + r) * k + (cTile + c)) 1 fun _ => src ((cTile + c) * srcK + nBlockBegin + (rTile + r))) stale

theorem strip_apply {src stale : Nat → α} {srcK nBlockBegin nBlockSize k : Nat} (inRows : row < nBlockSize)
    (inColumns : column < k) :
    strip src srcK nBlockBegin nBlockSize k stale (row * k + column) = src (column * srcK + nBlockBegin + row) := by
  have written : ∀ memory : Nat → α, put (row * k + column) 1 (fun _ => src (column * srcK + nBlockBegin + row)) memory
      (row * k + column) = src (column * srcK + nBlockBegin + row) :=
    fun memory => put_inside _ memory Nat.one_pos
  apply runSteps_agreed fun memory => memory
  · intro step member
    simp only [List.mem_flatMap, List.mem_map, mem_upTo (show 0 < 32 by decide), mem_upTo Nat.one_pos] at member
    obtain ⟨cTile, ⟨-, inBlocks⟩, rTile, ⟨-, inTiles⟩, c, ⟨-, inSquare⟩, r, ⟨-, inSquareRows⟩, rfl⟩ := member
    by_cases same : rTile + r = row ∧ cTile + c = column
    · rw [same.1, same.2]
      exact .inr written
    · left
      intro memory
      apply put_outside
      by_contra covered
      have address : (rTile + r) * k + (cTile + c) = row * k + column := by omega
      have places := split_unique (show cTile + c < k by omega) inColumns address
      exact same places
  · refine ⟨_, ?_, written⟩
    simp only [List.mem_flatMap, List.mem_map, mem_upTo (show 0 < 32 by decide), mem_upTo Nat.one_pos]
    refine ⟨column / 32 * 32, ⟨Nat.dvd_mul_left _ _, by omega⟩, row / 32 * 32, ⟨Nat.dvd_mul_left _ _, by omega⟩, column % 32,
      ⟨Nat.one_dvd _, by omega⟩, row % 32, ⟨Nat.one_dvd _, by omega⟩, ?_⟩
    rw [Nat.div_add_mod', Nat.div_add_mod']

end KtKernel.Amx.VnniTiles
