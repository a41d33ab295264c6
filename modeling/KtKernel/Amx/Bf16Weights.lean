import KtKernel.Amx.VnniTiles

namespace KtKernel.Amx.Bf16Weights

open KtKernel.Data
open KtKernel.Amx.VnniTiles

/-! The BF16 weight buffer: packing, unpacking and the transposes between packed buffers.

`GemmKernel224BF::BufferB` and `BufferBBF16Impl` have the same steps and blocks.  The
numbers are moved without a look at their bits. -/

variable {α : Type} {n k row column : Nat}

def nStep : Nat := 32

def kStep : Nat := 32

def panels : Panels where
  nStep := nStep
  kStep := kStep
  nBlock := 256
  kBlock := 1792
  someRows := by decide
  someColumns := by decide
  someRowBlock := block_positive
  someColumnBlock := by decide
  wholeRows := by decide
  wholeColumns := by decide

def recommendedNth (n : Nat) : Nat :=
  panels.shareCount n

/-- `pack_block`, for one tile. -/
def packBlock (k : Nat) (src : Nat → α) (srcStride nBlockBegin nBlockSize nBegin kBlockBegin kBlockSize kBegin : Nat) :
    (Nat → α) → Nat → α :=
  packTile 2 (nBlockBegin * k + kBlockBegin * nBlockSize + nBegin * kBlockSize + kBegin * nStep) fun i j =>
    src ((nBegin + i) * srcStride + kBlockBegin + kBegin + j)

def fromMat (n k : Nat) (src : Nat → α) (ith : Nat) : List ((Nat → α) → Nat → α) :=
  panels.share n k ith fun nBlockBegin => packBlock k (fun offset => src (nBlockBegin * k + offset)) k nBlockBegin

def fromMatStrided (n k : Nat) (src : Nat → α) (srcStride ith : Nat) : List ((Nat → α) → Nat → α) :=
  panels.share n k ith fun nBlockBegin =>
    packBlock k (fun offset => src (nBlockBegin * srcStride + offset)) srcStride nBlockBegin

/-- `stale` is what the strip held before, for each block of rows. -/
def fromMatTransposed (n k : Nat) (src : Nat → α) (srcK : Nat) (stale : Nat → Nat → α) (ith : Nat) :
    List ((Nat → α) → Nat → α) :=
  panels.share n k ith fun nBlockBegin nBlockSize =>
    packBlock k (strip src srcK nBlockBegin nBlockSize k (stale nBlockBegin)) k nBlockBegin nBlockSize

/-- A tile copied out of the buffer, with its rows restored. -/
def tileCopy (b : Nat → α) (tileSrc : Nat) : Nat → α :=
  transposeTile 2 0 fun offset => b (tileSrc + offset)

def toMat (n k : Nat) (b : Nat → α) (ith : Nat) : List ((Nat → α) → Nat → α) :=
  panels.share n k ith fun nBlockBegin nBlockSize nBegin kBlockBegin kBlockSize kBegin =>
    let tile := tileCopy b (nBlockBegin * k + kBlockBegin * nBlockSize + nBegin * kBlockSize + kBegin * nStep)
    putRows 0 k (nBlockBegin + nBegin) (kBlockBegin + kBegin) nStep kStep fun i j => tile (i * kStep + j)

/-- `tile_ptr` and `get_submat` -/
def getSubmat (n k nBegin kBegin : Nat) : Nat :=
  panels.base n k nBegin kBegin

/-- The source has the shape `srcN` by `srcK`, the transpose of the destination's. -/
def fromBbTransposed (n k : Nat) (src : Nat → α) (srcN srcK ith : Nat) : List ((Nat → α) → Nat → α) :=
  panels.share n k ith fun dstNBlockBegin _ dstN dstKBlock _ dstK =>
    let absDstN := dstNBlockBegin + dstN
    let absDstK := dstKBlock + dstK
    let srcTile := tileCopy src (getSubmat srcN srcK absDstK absDstN)
    let dstTile : Nat → α := fun offset => srcTile (offset % kStep * kStep + offset / kStep)
    put (getSubmat n k absDstN absDstK) (nStep * kStep) (transposeTile 2 0 dstTile)

/-! ## Tiles -/

theorem shaped : Shaped panels 2 := ⟨rfl, rfl⟩

theorem place_address {start inner : Nat} (pitch row column i j : Nat) (split : start + inner = row) {first rest : Nat}
    (columns : first + rest = column) :
    start * pitch + ((inner + i) * pitch + first + rest + j) = (row + i) * pitch + (column + j) := by
  rw [← split, ← columns, Nat.add_mul (start + inner), Nat.add_mul start, Nat.add_mul inner]
  omega

variable {src blank packed : Nat → α} {offset : Nat}

theorem fromMatStrided_packed {srcStride : Nat} (aligned : panels.Aligned n k)
    (finished : Finished (recommendedNth n) (fromMatStrided n k src srcStride) blank packed)
    (corner : panels.Corner n k row column) (inTile : offset < panels.tileSize) :
    packed (getSubmat n k row column + offset) =
      src ((row + VnniTiles.placeRow 2 offset) * srcStride + (column + placeColumn 2 offset)) := by
  refine shares_packed (fun i j => src (i * srcStride + j)) shaped aligned finished ?_ corner inTile
  intro row column _
  rw [← Panels.base_loops]
  unfold packBlock
  congr 1
  funext i j
  exact congrArg src (place_address srcStride row column i j (Nat.div_add_mod' _ _) (Nat.div_add_mod' _ _))

theorem fromMat_packed (aligned : panels.Aligned n k)
    (finished : Finished (recommendedNth n) (fromMat n k src) blank packed)
    (corner : panels.Corner n k row column) (inTile : offset < panels.tileSize) :
    packed (getSubmat n k row column + offset) = src ((row + VnniTiles.placeRow 2 offset) * k + (column + placeColumn 2 offset)) :=
  fromMatStrided_packed aligned finished corner inTile

theorem strip_place {n k : Nat} (aligned : panels.Aligned n k) (corner : panels.Corner n k row column) {i j : Nat} (inRows : i < 32)
    (inColumns : j < 32) : row % panels.nBlock + i < panels.nBlockSize n row ∧
      column / panels.kBlock * panels.kBlock + column % panels.kBlock + j < k := by
  have rowFits := corner.row_fits aligned
  have columnFits := add_step_le corner.columnStep aligned.columns corner.inColumns
  have rows : panels.nStep = 32 := rfl
  have columns : panels.kStep = 32 := rfl
  rw [Nat.div_add_mod']
  omega

theorem fromMatTransposed_packed {srcK : Nat} {stale : Nat → Nat → α} (aligned : panels.Aligned n k)
    (finished : Finished (recommendedNth n) (fromMatTransposed n k src srcK stale) blank packed)
    (corner : panels.Corner n k row column) (inTile : offset < panels.tileSize) :
    packed (getSubmat n k row column + offset) =
      src ((column + placeColumn 2 offset) * srcK + (row + VnniTiles.placeRow 2 offset)) := by
  refine shares_packed (fun i j => src (j * srcK + i)) shaped aligned finished ?_ corner inTile
  intro row column corner
  rw [← Panels.base_loops]
  apply packTile_congr
  intro i inRows j inColumns
  obtain ⟨rowInside, columnInside⟩ := strip_place aligned corner inRows inColumns
  rw [Nat.add_assoc, Nat.add_assoc, ← Nat.add_assoc (column / panels.kBlock * panels.kBlock), strip_apply rowInside columnInside,
    Nat.div_add_mod', Nat.add_assoc, ← Nat.add_assoc (row / panels.nBlock * panels.nBlock), Nat.div_add_mod']

theorem tileCopy_apply {tileSrc : Nat} (b : Nat → α) (inRows : row < 32) (inColumns : column < 32) :
    tileCopy b tileSrc (row * 32 + column) = b (tileSrc + place 2 row column) := by
  have moved := transposeTile_linear 0 (fun offset => b (tileSrc + offset)) inRows (show column < 16 * 2 from inColumns)
  rw [Nat.zero_add, Nat.zero_add] at moved
  exact moved

theorem toMat_unpacked {dst junk : Nat → α} (aligned : panels.Aligned n k)
    (finished : Finished (recommendedNth n) (toMat n k packed) junk dst) (inRows : row < n) (inColumns : column < k) :
    dst (row * k + column) = packed (getSubmat n k (row / 32 * 32) (column / 32 * 32) + place 2 (row % 32) (column % 32)) := by
  have unpacked := Panels.shares_unpacked (fun row column i j => tileCopy packed (getSubmat n k row column) (i * 32 + j))
    aligned finished (by
      intro row column _
      simp only [getSubmat, ← Panels.base_loops, Nat.div_add_mod']
      rfl) inRows inColumns
  rw [unpacked]
  exact tileCopy_apply packed (Nat.mod_lt _ (by decide)) (Nat.mod_lt _ (by decide))

theorem fromBbTransposed_packed {srcN srcK : Nat} (aligned : panels.Aligned n k)
    (finished : Finished (recommendedNth n) (fromBbTransposed n k src srcN srcK) blank packed)
    (corner : panels.Corner n k row column) (inTile : offset < panels.tileSize) :
    packed (getSubmat n k row column + offset) =
      src (getSubmat srcN srcK column row + place 2 (placeColumn 2 offset) (VnniTiles.placeRow 2 offset)) := by
  let dstTile : Nat → Nat → Nat → α := fun row column offset =>
    tileCopy src (getSubmat srcN srcK column row) (offset % 32 * 32 + offset / 32)
  have filled := Panels.shares_filled (fun row column => transposeTile 2 0 (dstTile row column)) aligned finished (by
      intro row column _
      simp only [Nat.div_add_mod']
      rfl) (fun row column _ => put_fills _ _ _) corner inTile
  have inRows : VnniTiles.placeRow 2 offset < 32 := placeRow_lt inTile
  have inColumns : placeColumn 2 offset < 32 := placeColumn_lt inTile
  have moved := transposeTile_place 0 (dstTile row column) inRows (show placeColumn 2 offset < 16 * 2 from inColumns)
  rw [Nat.zero_add, Nat.zero_add, place_of_offset inTile] at moved
  rw [getSubmat, filled, moved]
  have linear : (VnniTiles.placeRow 2 offset * (16 * 2) + placeColumn 2 offset) % 32 * 32 +
      (VnniTiles.placeRow 2 offset * (16 * 2) + placeColumn 2 offset) / 32 = placeColumn 2 offset * 32 + VnniTiles.placeRow 2 offset := by
    omega
  simp only [dstTile, linear]
  exact tileCopy_apply src inColumns inRows

/-! ## Repacking -/

/-- The matrix kept row by row in rows of `pitch` entries, copied to rows of `k`. -/
def submatrix (k pitch : Nat) (src : Nat → α) : Nat → α :=
  fun offset => src (offset / k * pitch + offset % k)

/-- The `n` by `k` transpose of a matrix of `k` rows. -/
def transposed (n k : Nat) (src : Nat → α) : Nat → α :=
  fun offset => src (offset % k * n + offset / k)

/-- What a repack of a shape promises, for every order of the shares. -/
structure Repacks (α : Type) (n k : Nat) : Prop where
  roundTrip : ∀ src blank packed junk dst : Nat → α, Finished (recommendedNth n) (fromMat n k src) blank packed →
    Finished (recommendedNth n) (toMat n k packed) junk dst →
      ∀ row < n, ∀ column < k, dst (row * k + column) = src (row * k + column)
  strided : ∀ (src : Nat → α) (srcStride : Nat) (blank packed blank' packed' : Nat → α), k ≤ srcStride →
    Finished (recommendedNth n) (fromMatStrided n k src srcStride) blank packed →
    Finished (recommendedNth n) (fromMat n k (submatrix k srcStride src)) blank' packed' →
      ∀ address < n * k, packed address = packed' address
  transposes : ∀ (src : Nat → α) (stale : Nat → Nat → α) (blank packed blank' packed' : Nat → α),
    Finished (recommendedNth n) (fromMatTransposed n k src n stale) blank packed →
    Finished (recommendedNth n) (fromMat n k (transposed n k src)) blank' packed' →
      ∀ address < n * k, packed address = packed' address
  repacks : ∀ (src junk matrix : Nat → α) (stale : Nat → Nat → α) (blank packed blank' packed' : Nat → α),
    Finished (recommendedNth k) (toMat k n src) junk matrix →
    Finished (recommendedNth n) (fromBbTransposed n k src k n) blank packed →
    Finished (recommendedNth n) (fromMatTransposed n k matrix n stale) blank' packed' →
      ∀ address < n * k, packed address = packed' address
  submat : ∀ src blank packed : Nat → α, Finished (recommendedNth n) (fromMat n k src) blank packed →
    ∀ nBegin kBegin, panels.Corner n k nBegin kBegin → ∀ i < nStep, ∀ j < kStep,
      place 2 i j < nStep * kStep ∧
        packed (getSubmat n k nBegin kBegin + place 2 i j) = src ((nBegin + i) * k + (kBegin + j))

theorem fromMat_place (aligned : panels.Aligned n k)
    (finished : Finished (recommendedNth n) (fromMat n k src) blank packed) (corner : panels.Corner n k row column)
    {i j : Nat} (inRows : i < 32) (inColumns : j < 32) :
    packed (getSubmat n k row column + place 2 i j) = src ((row + i) * k + (column + j)) := by
  have inTile : place 2 i j < panels.tileSize := place_lt inRows inColumns
  rw [fromMat_packed aligned finished corner inTile, placeRow_place inRows inColumns, placeColumn_place inRows inColumns]

/-- The cells of a tile lie in the matrix. -/
theorem tile_inside (aligned : panels.Aligned n k) (corner : panels.Corner n k row column) (inTile : offset < panels.tileSize) :
    row + VnniTiles.placeRow 2 offset < n ∧ column + placeColumn 2 offset < k := by
  have rowFits := add_step_le corner.rowStep aligned.rows corner.inRows
  have columnFits := add_step_le corner.columnStep aligned.columns corner.inColumns
  have rowSmall : VnniTiles.placeRow 2 offset < panels.nStep := placeRow_lt inTile
  have columnSmall : placeColumn 2 offset < panels.kStep := placeColumn_lt inTile
  omega

theorem repacks_exactly (aligned : panels.Aligned n k) : Repacks α n k where
  roundTrip := by
    intro src blank packed junk dst fromMatDone toMatDone row inRows column inColumns
    have corner : panels.Corner n k (row / 32 * 32) (column / 32 * 32) := Panels.corner_of panels inRows inColumns
    rw [toMat_unpacked aligned toMatDone inRows inColumns,
      fromMat_place aligned fromMatDone corner (Nat.mod_lt _ (by decide)) (Nat.mod_lt _ (by decide)), Nat.div_add_mod',
      Nat.div_add_mod']
  strided := by
    intro src srcStride blank packed blank' packed' _ stridedDone fromMatDone address inside
    apply Panels.packed_ext _ _ aligned _ inside
    intro row column offset corner inTile
    obtain ⟨-, inColumns⟩ := tile_inside aligned corner inTile
    have copied := fromMat_packed aligned fromMatDone corner inTile
    rw [submatrix, pairIndex_div _ inColumns, pairIndex_mod _ inColumns] at copied
    exact (fromMatStrided_packed aligned stridedDone corner inTile).trans copied.symm
  transposes := by
    intro src stale blank packed blank' packed' transposedDone fromMatDone address inside
    apply Panels.packed_ext _ _ aligned _ inside
    intro row column offset corner inTile
    obtain ⟨-, inColumns⟩ := tile_inside aligned corner inTile
    have copied := fromMat_packed aligned fromMatDone corner inTile
    rw [transposed, pairIndex_div _ inColumns, pairIndex_mod _ inColumns] at copied
    exact (fromMatTransposed_packed aligned transposedDone corner inTile).trans copied.symm
  repacks := by
    intro src junk matrix stale blank packed blank' packed' toMatDone bbDone transposedDone address inside
    apply Panels.packed_ext _ _ aligned _ inside
    intro row column offset corner inTile
    obtain ⟨inRows, inColumns⟩ := tile_inside aligned corner inTile
    have rowTile : (row + VnniTiles.placeRow 2 offset) / 32 * 32 = row ∧ (row + VnniTiles.placeRow 2 offset) % 32 = VnniTiles.placeRow 2 offset := by
      have step : 32 ∣ row := corner.rowStep
      have small : VnniTiles.placeRow 2 offset < 32 := placeRow_lt inTile
      omega
    have columnTile : (column + placeColumn 2 offset) / 32 * 32 = column ∧
        (column + placeColumn 2 offset) % 32 = placeColumn 2 offset := by
      have step : 32 ∣ column := corner.columnStep
      have small : placeColumn 2 offset < 32 := placeColumn_lt inTile
      omega
    have flipped : panels.Aligned k n := ⟨aligned.columns, aligned.rows⟩
    have unpacked := toMat_unpacked flipped toMatDone inColumns inRows
    rw [rowTile.1, rowTile.2, columnTile.1, columnTile.2] at unpacked
    exact (fromBbTransposed_packed aligned bbDone corner inTile).trans
      (unpacked.symm.trans (fromMatTransposed_packed aligned transposedDone corner inTile).symm)
  submat := by
    intro src blank packed done nBegin kBegin corner i inRows j inColumns
    exact ⟨place_lt inRows inColumns, fromMat_place aligned done corner inRows inColumns⟩

/-- More than a block of rows and columns, with smaller last blocks. -/
theorem repacks_two_blocks : panels.Aligned 288 1824 ∧ Repacks UInt16 288 1824 :=
  ⟨⟨by decide, by decide⟩, repacks_exactly ⟨by decide, by decide⟩⟩

end KtKernel.Amx.Bf16Weights
