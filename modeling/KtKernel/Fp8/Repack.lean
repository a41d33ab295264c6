import KtKernel.Data.Panels
import KtKernel.Fp8.Tiles

namespace KtKernel.Fp8

open KtKernel.Data
open KtKernel.K2 (Slot)

/-! Unpacking a block-scaled FP8 buffer, and packing its transpose from the packed buffer. -/

variable {α F : Type}

def invMatOffset (index : Nat) : Nat :=
  [0, 4, 1, 5, 2, 6, 3, 7].getD index 0

/-! ## Unpacking -/

/-- A tile of `to_mat`.  A word holds two columns of four rows. -/
def unpackTile (slot : Slot) (start k : Nat) (tile : Nat → α) : List (Copy Slot α) :=
  (List.range 8).flatMap fun packedI =>
    (List.range 16).flatMap fun j =>
      (List.range 4).flatMap fun pair =>
        [⟨slot, start + invMatOffset packedI * k * 4 + 2 * (j + k / 2 * pair), 2, fun byte =>
          tile ((8 * j + packedI) * 8 + 2 * pair + byte)⟩]

/-- The blocks of rows of a thread.  The last threads may start behind the last block. -/
structure BlockRange where
  startNBlockIdx : Nat
  endNBlockIdx : Nat
deriving DecidableEq, Repr

def blockRange (n nth ith : Nat) : BlockRange :=
  let totalNBlocks := divUp n nBlock
  let blocksPerThread := divUp totalNBlocks nth
  ⟨ith * blocksPerThread, min ((ith + 1) * blocksPerThread) totalNBlocks⟩

/-- The weights of `to_mat`. -/
def toMat (slot : Slot) (n k nth : Nat) (b : Nat → α) (ith : Nat) : List (Copy Slot α) :=
  let range := blockRange n nth ith
  (List.range' range.startNBlockIdx (range.endNBlockIdx - range.startNBlockIdx)).flatMap fun nBlockIdx =>
    let nBlockBegin := nBlockIdx * nBlock
    let nBlockSize := min nBlock (n - nBlockBegin)
    (steps nBlockSize nStep).flatMap fun nBegin =>
      (steps k kBlock).flatMap fun kBlockBegin =>
        let kBlockSize := min kBlock (k - kBlockBegin)
        (steps kBlockSize kStep).flatMap fun kBegin =>
          unpackTile slot ((nBlockBegin + nBegin) * k + kBlockBegin + kBegin) k fun offset =>
            b (nBlockBegin * k + kBlockBegin * nBlockSize + nBegin * kBlockSize + kBegin * nStep + offset)

/-- The bytes of the `memcpy` of the scales: the difference of the ends is an `int`, the
product a `size_t`. -/
def scaleBytes (n k group nth ith : Nat) : Nat :=
  let range := blockRange n nth ith
  ((4 * ((range.endNBlockIdx : Int) - range.startNBlockIdx) * divUp k group) % 2 ^ 64).toNat

/-- The scales of `to_mat`.  `none` is a `memcpy` beyond the arrays. -/
def toMatScales (slot : Slot) (n k group nth : Nat) (d : Nat → F) (ith : Nat) : Option (List (Copy Slot F)) :=
  let nBlocksK := divUp k group
  let start := (blockRange n nth ith).startNBlockIdx * nBlocksK
  let bytes := scaleBytes n k group nth ith
  if 4 * start + bytes ≤ 4 * (divUp n group * nBlocksK) then
    some [⟨slot, start, bytes / 4, fun inner => d (start + inner)⟩]
  else none

/-! ## The packed transpose -/

/-- `unpack_packed_tile`: the pair of a row and two columns is read from a word. -/
def unpackPackedTile (packed : Nat → α) : Nat → α := fun offset =>
  let logicalGroup := offset / 128
  let rowInGroup := offset / 32 % 4
  let columnPair := offset % 32 / 2
  packed ((8 * columnPair + matOffset logicalGroup) * 8 + 2 * rowInGroup + offset % 2)

/-- `pack_packed_tile` -/
def packPackedTile (slot : Slot) (start : Nat) (logical : Nat → α) : List (Copy Slot α) :=
  (List.range 8).flatMap fun logicalGroup =>
    (List.range 16).flatMap fun columnPair =>
      [⟨slot, start + (8 * columnPair + matOffset logicalGroup) * 8, 8, fun byte =>
        logical ((logicalGroup * 4 + byte / 2) * kStep + columnPair * 2 + byte % 2)⟩]

/-- A packed buffer: its shape, its weights and its scales. -/
structure BufferB (α F : Type) where
  n : Nat
  k : Nat
  kGroupSize : Nat
  b : Nat → α
  d : Nat → F

def fp8Block : Nat := 128

def blockStart (blocks nth ith : Nat) : Nat :=
  blocks * ith / nth

def transposedScales (slot : Slot) (n k : Nat) (src : BufferB α F) (nth ith : Nat) : List (Copy Slot F) :=
  let dstNBlocks := n / fp8Block
  let dstKBlocks := k / fp8Block
  let srcKBlocks := src.k / fp8Block
  let dstBnBegin := blockStart dstNBlocks nth ith
  let dstBnEnd := blockStart dstNBlocks nth (ith + 1)
  (List.range' dstBnBegin (dstBnEnd - dstBnBegin)).flatMap fun dstBn =>
    (List.range dstKBlocks).flatMap fun dstBk =>
      [⟨slot, dstBn * dstKBlocks + dstBk, 1, fun _ => src.d (dstBk * srcKBlocks + dstBn)⟩]

def transposedWeights (slot : Slot) (n k : Nat) (src : BufferB α F) (nth ith : Nat) : List (Copy Slot α) :=
  let dstNBlocks := n / fp8Block
  let dstNBegin := blockStart dstNBlocks nth ith * fp8Block
  let dstNEnd := blockStart dstNBlocks nth (ith + 1) * fp8Block
  (steps (dstNEnd - dstNBegin) nStep).flatMap fun inner =>
    let dstN := dstNBegin + inner
    (steps k kStep).flatMap fun dstK =>
      let srcTile := unpackPackedTile fun offset => src.b (getSubmat src.n src.k dstK dstN + offset)
      let dstTile : Nat → α := fun offset => srcTile (offset % kStep * kStep + offset / kStep)
      packPackedTile slot (getSubmat n k dstN dstK) dstTile

/-- The copies of a thread. -/
structure Repacked (α F : Type) where
  weights : List (Copy Slot α)
  scales : List (Copy Slot F)

def fromBbTransposed (slot : Slot) (n k kGroupSize : Nat) (src : BufferB α F) (nth ith : Nat) : Except String (Repacked α F) :=
  if nth ≤ 0 ∨ ith ≥ nth then
    .error "FP8 BufferB transpose received an invalid thread partition"
  else if n ≠ src.k ∨ k ≠ src.n then
    .error "FP8 BufferB transpose destination shape must be the source transpose"
  else if kGroupSize ≠ fp8Block ∨ src.kGroupSize ≠ fp8Block then
    .error "FP8 BufferB transpose requires 128x128 block scales"
  else if nBlock ≠ fp8Block ∨ nStep ≠ 32 ∨ kStep ≠ 32 ∨ n % fp8Block ≠ 0 ∨ k % fp8Block ≠ 0 ∨ src.n % fp8Block ≠ 0 ∨
      src.k % fp8Block ≠ 0 then
    .error "FP8 BufferB transpose requires 128-aligned local matrix dimensions"
  else .ok ⟨transposedWeights slot n k src nth ith, transposedScales slot n k src nth ith⟩

/-! ## Tiles -/

def panels : Panels where
  nStep := nStep
  kStep := kStep
  nBlock := nBlock
  kBlock := kBlock
  someRows := by decide
  someColumns := by decide
  someRowBlock := by decide
  someColumnBlock := by decide
  wholeRows := by decide
  wholeColumns := by decide

theorem getSubmat_eq (n k nBegin kBegin : Nat) : getSubmat n k nBegin kBegin = panels.base n k nBegin kBegin := rfl

variable {slot : Slot} {n k row column offset : Nat}

/-- A block of rows of `to_mat`, tile by tile. -/
def unpackBlock (slot : Slot) (n k : Nat) (b : Nat → α) (nBlockIdx : Nat) : List (List (Copy Slot α)) :=
  panels.share n k nBlockIdx fun nBlockBegin nBlockSize nBegin kBlockBegin kBlockSize kBegin =>
    unpackTile slot ((nBlockBegin + nBegin) * k + kBlockBegin + kBegin) k fun offset =>
      b (nBlockBegin * k + kBlockBegin * nBlockSize + nBegin * kBlockSize + kBegin * nStep + offset)

theorem toMat_blocks (slot : Slot) (n k nth : Nat) (b : Nat → α) (ith : Nat) :
    toMat slot n k nth b ith =
      (chunk (divUp (divUp n nBlock) nth) (divUp n nBlock) ith).flatMap fun index => (unpackBlock slot n k b index).flatten := by
  unfold toMat chunk
  apply List.flatMap_congr
  intro index _
  have start : index * nBlock = panels.nBlock * index := Nat.mul_comm _ _
  have size : min nBlock (n - panels.nBlock * index) = min n (panels.nBlock * (index + 1)) - panels.nBlock * index := by
    have block : panels.nBlock = nBlock := rfl
    rw [block, Nat.mul_add, Nat.mul_one]
    omega
  simp only [unpackBlock, Panels.share, List.flatten_eq_flatMap, List.flatMap_assoc, List.flatMap_map, start, size]
  rfl

theorem toMat_tiles (slot : Slot) (aligned : panels.Aligned n k) {nth : Nat} (threads : 0 < nth) (b : Nat → α) :
    (List.range nth).flatMap (toMat slot n k nth b) =
      (panels.grid n k).flatMap fun corner => unpackTile slot (corner.1 * k + corner.2) k fun offset =>
        b (getSubmat n k corner.1 corner.2 + offset) := by
  have shares : (List.range (panels.shareCount n)).flatMap (unpackBlock slot n k b) =
      (panels.grid n k).map fun corner => unpackTile slot (corner.1 * k + corner.2) k fun offset =>
        b (getSubmat n k corner.1 corner.2 + offset) := by
    apply Panels.shares_eq (fun row column => unpackTile slot (row * k + column) k fun offset =>
      b (getSubmat n k row column + offset)) _ aligned
    intro row column _
    rw [Nat.div_add_mod', Nat.add_assoc, Nat.div_add_mod']
    simp only [getSubmat_eq, ← Panels.base_loops]
    rfl
  have tasks : divUp n nBlock ≤ nth * divUp (divUp n nBlock) nth := by
    have split := Nat.div_add_mod (divUp n nBlock + nth - 1) nth
    have small := Nat.mod_lt (divUp n nBlock + nth - 1) threads
    unfold divUp at *
    omega
  have blocks : ((List.range (divUp n nBlock)).flatMap fun index => (unpackBlock slot n k b index).flatten) =
      ((List.range (divUp n nBlock)).flatMap (unpackBlock slot n k b)).flatten := by
    simp only [List.flatten_eq_flatMap, List.flatMap_assoc]
  have each : toMat slot n k nth b = fun ith =>
      (chunk (divUp (divUp n nBlock) nth) (divUp n nBlock) ith).flatMap fun index => (unpackBlock slot n k b index).flatten :=
    funext (toMat_blocks slot n k nth b)
  rw [each, flatMap_tasks tasks, blocks]
  exact congrArg List.flatten shares

theorem matOffset_inverse : ∀ index < 8, invMatOffset index < 8 ∧ matOffset (invMatOffset index) = index := by decide

theorem inverse_matOffset : ∀ index < 8, matOffset index < 8 ∧ invMatOffset (matOffset index) = index := by decide

theorem pair_start (even : 2 ∣ k) (group columnPair pair : Nat) :
    group * k * 4 + 2 * (columnPair + k / 2 * pair) = (4 * group + pair) * k + 2 * columnPair := by
  obtain ⟨half, rfl⟩ := even
  rw [Nat.mul_div_cancel_left half (by decide)]
  ring

/-- A copy of a tile brings the weight of the cell. -/
theorem unpackTile_value {tile : Nat → α} {copy : Copy Slot α} {top left : Nat} (even : 2 ∣ k) (fits : left + kStep ≤ k)
    (member : copy ∈ unpackTile slot (top * k + left) k tile) (inColumns : column < k)
    (covers : copy.covers (slot, row * k + column) = true) :
    top ≤ row ∧ row < top + 32 ∧ left ≤ column ∧ column < left + 32 ∧
      copy.value (row * k + column - copy.start) = tile (packedPlace (row - top) (column - left)) := by
  simp only [unpackTile, List.mem_flatMap, List.mem_range, List.mem_singleton] at member
  obtain ⟨packedI, inGroups, j, inPairs, pair, inRows, rfl⟩ := member
  obtain ⟨group, place⟩ := matOffset_inverse packedI inGroups
  obtain ⟨-, above, below⟩ := Copy.covers_iff.mp covers
  have start := pair_start even (invMatOffset packedI) j pair
  simp only [Nat.add_assoc (top * k + left), start] at above below ⊢
  obtain ⟨byte, address⟩ := Nat.exists_eq_add_of_le above
  have small : byte < 2 := by omega
  have columns : kStep = 32 := rfl
  have place_ : row * k + column = (top + (4 * invMatOffset packedI + pair)) * k + (left + 2 * j + byte) := by
    rw [address, Nat.add_mul top]
    omega
  obtain ⟨rowEq, columnEq⟩ := split_unique inColumns (by omega) place_
  refine ⟨by omega, by omega, by omega, by omega, ?_⟩
  have rowPlace : row - top = 4 * invMatOffset packedI + pair := by omega
  have columnPlace : column - left = 2 * j + byte := by omega
  have offset : row * k + column - (top * k + left + ((4 * invMatOffset packedI + pair) * k + 2 * j)) = byte := by omega
  have word : (4 * invMatOffset packedI + pair) / 4 = invMatOffset packedI := by omega
  rw [offset, rowPlace, columnPlace, packedPlace, word, place]
  congr 1
  omega

theorem unpackTile_covered {tile : Nat → α} {i j : Nat} (slot : Slot) (top left : Nat) (even : 2 ∣ k) (inRows : i < 32) (inColumns : j < 32) :
    ∃ copy ∈ unpackTile slot (top * k + left) k tile, copy.covers (slot, (top + i) * k + (left + j)) = true := by
  obtain ⟨inGroups, inverse⟩ := inverse_matOffset (i / 4) (by omega)
  have start := pair_start even (i / 4) (j / 2) (i % 4)
  have rows : 4 * (i / 4) + i % 4 = i := Nat.div_add_mod i 4
  refine ⟨_, List.mem_flatMap.mpr ⟨matOffset (i / 4), List.mem_range.mpr inGroups, List.mem_flatMap.mpr ⟨j / 2,
    List.mem_range.mpr (by omega), List.mem_flatMap.mpr ⟨i % 4, List.mem_range.mpr (by omega), List.mem_singleton_self _⟩⟩⟩, ?_⟩
  rw [rows] at start
  rw [Copy.covers_iff]
  simp only [inverse, Nat.add_assoc (top * k + left), start, Nat.add_mul]
  refine ⟨trivial, ?_, ?_⟩
  · omega
  · omega

/-- What `to_mat` leaves at a place of the matrix. -/
theorem toMat_performed {b : Nat → α} {before after : Slot × Nat → α} {nth : Nat} (aligned : panels.Aligned n k)
    (threads : 0 < nth) (performed : Copy.Performed ((List.range nth).flatMap (toMat slot n k nth b)) before after)
    (inRows : row < n) (inColumns : column < k) : after (slot, row * k + column) = b (address n k row column) := by
  have even : 2 ∣ k := Nat.dvd_trans (by decide) aligned.columns
  have corner : panels.Corner n k (row / 32 * 32) (column / 32 * 32) := Panels.corner_of panels inRows inColumns
  rw [toMat_tiles slot aligned threads b] at performed
  apply performed.agreed
  · intro copy member covers
    obtain ⟨place, inGrid, inTile⟩ := List.mem_flatMap.mp member
    have other : panels.Corner n k place.1 place.2 := Panels.mem_grid.mp inGrid
    have fits := add_step_le other.columnStep aligned.columns other.inColumns
    obtain ⟨above, below, left, right, value⟩ := unpackTile_value even fits inTile inColumns covers
    have rowStep : 32 ∣ place.1 := other.rowStep
    have columnStep : 32 ∣ place.2 := other.columnStep
    have rowTile : row / nStep * nStep = place.1 := by
      simp only [nStep]
      omega
    have columnTile : column / kStep * kStep = place.2 := by
      simp only [kStep]
      omega
    have rowPlace : row % nStep = row - place.1 := by
      simp only [nStep]
      omega
    have columnPlace : column % kStep = column - place.2 := by
      simp only [kStep]
      omega
    rw [address, rowTile, columnTile, rowPlace, columnPlace]
    exact value
  · obtain ⟨copy, inTile, covers⟩ := unpackTile_covered slot (row / 32 * 32) (column / 32 * 32) even
      (Nat.mod_lt row (show 0 < 32 by decide)) (Nat.mod_lt column (show 0 < 32 by decide))
    rw [Nat.div_add_mod', Nat.div_add_mod'] at covers
    exact Copy.writes_pos (List.mem_flatMap.mpr ⟨_, Panels.mem_grid.mpr corner, inTile⟩) covers

/-! ## The packed transpose, tile by tile -/

theorem packPackedTile_eq (slot : Slot) (start : Nat) (logical : Nat → α) :
    packPackedTile slot start logical = packTile slot start 32 logical := by
  have places : ∀ group columnPair byte : Nat, (group * 4 + byte / 2) * kStep + columnPair * 2 + byte % 2 =
      group * 32 * 4 + 2 * (columnPair + 32 / 2 * (byte / 2)) + byte % 2 := by
    intro group columnPair byte
    simp only [kStep]
    omega
  simp only [packPackedTile, packTile, places]

theorem unpackPackedTile_apply (packed : Nat → α) (inColumns : column < 32) :
    unpackPackedTile packed (row * 32 + column) = packed (packedPlace row column) := by
  have group : (row * 32 + column) / 128 = row / 4 := by omega
  have inGroup : (row * 32 + column) / 32 % 4 = row % 4 := by omega
  have inRow : (row * 32 + column) % 32 = column := by omega
  have byte : (row * 32 + column) % 2 = column % 2 := by omega
  rw [unpackPackedTile, group, inGroup, inRow, byte, packedPlace]

def transposedTile (slot : Slot) (n k : Nat) (src : BufferB α F) (row column : Nat) : List (Copy Slot α) :=
  packPackedTile slot (getSubmat n k row column) fun offset =>
    unpackPackedTile (fun inner => src.b (getSubmat src.n src.k column row + inner)) (offset % kStep * kStep + offset / kStep)

theorem blockStart_rising (blocks nth : Nat) (ith : Nat) : blockStart blocks nth ith ≤ blockStart blocks nth (ith + 1) :=
  Nat.div_le_div_right (Nat.mul_le_mul_left _ (Nat.le_succ ith))

theorem blockStart_zero (blocks nth : Nat) : blockStart blocks nth 0 = 0 := Nat.zero_div _

theorem blockStart_all (blocks : Nat) {nth : Nat} (threads : 0 < nth) : blockStart blocks nth nth = blocks :=
  Nat.mul_div_cancel _ threads

/-- The threads pack each tile once. -/
theorem transposedWeights_tiles (slot : Slot) (rowBlocks : 128 ∣ n) {nth : Nat} (threads : 0 < nth) (src : BufferB α F) :
    (List.range nth).flatMap (transposedWeights slot n k src nth) =
      (panels.grid n k).flatMap fun corner => transposedTile slot n k src corner.1 corner.2 := by
  obtain ⟨blocks, rfl⟩ := rowBlocks
  let rowCopies : Nat → List (Copy Slot α) := fun dstN =>
    (steps k kStep).flatMap fun dstK => transposedTile slot (128 * blocks) k src dstN dstK
  have count : 128 * blocks / fp8Block = blocks := Nat.mul_div_cancel_left blocks (show 0 < 128 by decide)
  have share : ∀ ith, transposedWeights slot (128 * blocks) k src nth ith =
      (List.range' (blockStart blocks nth ith * 4) (blockStart blocks nth (ith + 1) * 4 - blockStart blocks nth ith * 4)).flatMap
        fun unit => rowCopies (unit * 32) := by
    intro ith
    have rows : steps (blockStart blocks nth (ith + 1) * fp8Block - blockStart blocks nth ith * fp8Block) nStep =
        (List.range (blockStart blocks nth (ith + 1) * 4 - blockStart blocks nth ith * 4)).map (· * 32) := by
      have size : blockStart blocks nth (ith + 1) * fp8Block - blockStart blocks nth ith * fp8Block =
          (blockStart blocks nth (ith + 1) * 4 - blockStart blocks nth ith * 4) * 32 := by
        simp only [fp8Block]
        omega
      rw [size]
      exact upTo_multiple (by decide) _
    simp only [transposedWeights, count, rows, List.flatMap_map, List.range'_eq_map_range]
    apply List.flatMap_congr
    intro unit _
    have start : blockStart blocks nth ith * fp8Block + unit * 32 = (blockStart blocks nth ith * 4 + unit) * 32 := by
      simp only [fp8Block]
      omega
    rw [start]
    rfl
  have all := flatMap_bounds (fun ith => blockStart blocks nth ith * 4)
    (fun ith => Nat.mul_le_mul_right 4 (blockStart_rising blocks nth ith)) nth fun unit => rowCopies (unit * 32)
  simp only [blockStart_zero, blockStart_all blocks threads, Nat.zero_mul, Nat.sub_zero, ← List.range_eq_range'] at all
  have rows : upTo (128 * blocks) panels.nStep = (List.range (blocks * 4)).map (· * 32) := by
    have size : 128 * blocks = blocks * 4 * 32 := by omega
    rw [size]
    exact upTo_multiple (by decide) _
  rw [funext share, all, Panels.grid, rows]
  simp only [List.flatMap_map, List.flatMap_assoc]
  rfl

theorem transposedTile_delivers (slot : Slot) (n k : Nat) (src : BufferB α F) {i j : Nat} (inRows : i < 32) (inColumns : j < 32) :
    Copy.Delivers (transposedTile slot n k src row column) (slot, getSubmat n k row column + packedPlace i j)
      (src.b (getSubmat src.n src.k column row + packedPlace j i)) := by
  have delivers := packTile_delivers slot (getSubmat n k row column) (show 2 ∣ 32 by decide) (fun offset =>
    unpackPackedTile (fun inner => src.b (getSubmat src.n src.k column row + inner)) (offset % kStep * kStep + offset / kStep))
    inRows inColumns
  have columnPlace : (i * 32 + j) % kStep = j := by
    simp only [kStep]
    omega
  have rowPlace : (i * 32 + j) / kStep = i := by
    simp only [kStep]
    omega
  rw [columnPlace, rowPlace, show kStep = 32 from rfl, unpackPackedTile_apply _ inRows] at delivers
  rw [transposedTile, packPackedTile_eq]
  exact delivers

theorem transposedTile_within (slot : Slot) (n k : Nat) (src : BufferB α F) (row column : Nat) :
    Copy.Within (transposedTile slot n k src row column) slot (getSubmat n k row column)
      (getSubmat n k row column + panels.tileSize) := by
  rw [transposedTile, packPackedTile_eq]
  exact packTile_within slot _ 32 _

/-- Tiles that are written in any order, each by copies of its own. -/
theorem tiles_performed (tile : Nat → Nat → List (Copy Slot α)) {before after : Slot × Nat → α} {value : α}
    (aligned : panels.Aligned n k)
    (performed : Copy.Performed ((panels.grid n k).flatMap fun corner => tile corner.1 corner.2) before after)
    (within : ∀ row column, Copy.Within (tile row column) slot (getSubmat n k row column)
      (getSubmat n k row column + panels.tileSize)) (corner : panels.Corner n k row column) (inTile : offset < panels.tileSize)
    (delivers : Copy.Delivers (tile row column) (slot, getSubmat n k row column + offset) value) :
    after (slot, getSubmat n k row column + offset) = value := by
  apply performed.delivered
  apply Copy.Delivers.flatMap (Panels.grid_nodup panels n k) (Panels.mem_grid.mpr corner) delivers
  intro other inGrid different
  apply (within other.1 other.2).writes_eq_zero
  intro covered
  obtain ⟨-, above, below⟩ := covered
  obtain ⟨inner, address⟩ := Nat.exists_eq_add_of_le above
  obtain ⟨rowEq, columnEq, -⟩ := Panels.base_unique aligned corner (Panels.mem_grid.mp inGrid) inTile (by omega) address
  exact different (Prod.ext rowEq.symm columnEq.symm)

/-! ## Packing, tile by tile -/

def packBlock (slot : Slot) (n k : Nat) (source : Nat → α) (ith : Nat) : List (List (Copy Slot α)) :=
  panels.share n k ith fun nBlockBegin nBlockSize nBegin kBlockBegin kBlockSize kBegin =>
    packTile slot (nBlockBegin * k + kBlockBegin * nBlockSize + nBegin * kBlockSize + kBegin * nStep) k fun offset =>
      source ((nBlockBegin + nBegin) * k + kBlockBegin + kBegin + offset)

theorem fromMat_blocks (slot : Slot) (n k : Nat) (source : Nat → α) (ith : Nat) :
    fromMat slot n k source ith = (packBlock slot n k source ith).flatten := by
  simp only [packBlock, Panels.share, List.flatten_eq_flatMap, List.flatMap_assoc, List.flatMap_map]
  rfl

theorem allFromMat_tiles (slot : Slot) (aligned : panels.Aligned n k) (source : Nat → α) :
    (List.range (recommendedNth n)).flatMap (fromMat slot n k source) =
      (panels.grid n k).flatMap fun corner => packTile slot (getSubmat n k corner.1 corner.2) k fun offset =>
        source (corner.1 * k + corner.2 + offset) := by
  have shares : (List.range (panels.shareCount n)).flatMap (packBlock slot n k source) =
      (panels.grid n k).map fun corner => packTile slot (getSubmat n k corner.1 corner.2) k fun offset =>
        source (corner.1 * k + corner.2 + offset) := by
    apply Panels.shares_eq (fun row column => packTile slot (getSubmat n k row column) k fun offset =>
      source (row * k + column + offset)) _ aligned
    intro row column _
    rw [Nat.div_add_mod', Nat.add_assoc (row * k), Nat.div_add_mod']
    simp only [getSubmat_eq, ← Panels.base_loops]
    rfl
  have blocks : (List.range (recommendedNth n)).flatMap (fun ith => (packBlock slot n k source ith).flatten) =
      ((List.range (recommendedNth n)).flatMap (packBlock slot n k source)).flatten := by
    simp only [List.flatten_eq_flatMap, List.flatMap_assoc]
  rw [funext (fromMat_blocks slot n k source), blocks]
  exact congrArg List.flatten shares

/-- What `from_mat` leaves in the packed buffer. -/
theorem fromMat_performed {source : Nat → α} {before after : Slot × Nat → α} (aligned : panels.Aligned n k)
    (performed : Copy.Performed ((List.range (recommendedNth n)).flatMap (fromMat slot n k source)) before after)
    (corner : panels.Corner n k row column) {i j : Nat} (inRows : i < 32) (inColumns : j < 32) :
    after (slot, getSubmat n k row column + packedPlace i j) = source ((row + i) * k + (column + j)) := by
  have even : 2 ∣ k := Nat.dvd_trans (by decide) aligned.columns
  rw [allFromMat_tiles slot aligned source] at performed
  have value := tiles_performed (fun row column => packTile slot (getSubmat n k row column) k fun offset =>
    source (row * k + column + offset)) aligned performed (fun row column => packTile_within slot _ k _) corner
    (packedPlace_lt inRows inColumns) (packTile_delivers slot _ even _ inRows inColumns)
  rw [value, Nat.add_mul]
  congr 1
  omega

/-- What `from_bb_transposed` leaves in the packed buffer. -/
theorem transposed_performed {src : BufferB α F} {before after : Slot × Nat → α} {nth : Nat} (aligned : panels.Aligned n k)
    (rowBlocks : 128 ∣ n) (threads : 0 < nth)
    (performed : Copy.Performed ((List.range nth).flatMap (transposedWeights slot n k src nth)) before after)
    (corner : panels.Corner n k row column) {i j : Nat} (inRows : i < 32) (inColumns : j < 32) :
    after (slot, getSubmat n k row column + packedPlace i j) =
      src.b (getSubmat src.n src.k column row + packedPlace j i) := by
  rw [transposedWeights_tiles slot rowBlocks threads src] at performed
  exact tiles_performed (transposedTile slot n k src) aligned performed (transposedTile_within slot n k src) corner
    (packedPlace_lt inRows inColumns) (transposedTile_delivers slot n k src inRows inColumns)

theorem packedPlace_cover (inTile : offset < 1024) : ∃ i < 32, ∃ j < 32, packedPlace i j = offset := by
  obtain ⟨group, place⟩ := matOffset_inverse (offset / 8 % 8) (by omega)
  refine ⟨4 * invMatOffset (offset / 8 % 8) + offset % 8 / 2, by omega, 2 * (offset / 64) + offset % 2, by omega, ?_⟩
  have word : (4 * invMatOffset (offset / 8 % 8) + offset % 8 / 2) / 4 = invMatOffset (offset / 8 % 8) := by omega
  rw [packedPlace, word, place]
  omega

end KtKernel.Fp8
