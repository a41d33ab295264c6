import KtKernel.Fp8.Repack

namespace KtKernel.Fp8

open KtKernel.Data
open KtKernel.K2 (Slot)

/-! When unpacking gives a packed buffer back, and that packing the transpose is exact. -/

variable {α F : Type} {slot : Slot} {n k rows columns nth ith : Nat}

/-! ## Scales -/

/-- Copies that keep the places leave the values of the source where they write. -/
theorem kept_performed {ρ : Type} [DecidableEq ρ] {region : ρ} {copies : List (Copy ρ F)} {source : Nat → F}
    {before after : ρ × Nat → F} {cell : Nat} (performed : Copy.Performed copies before after)
    (keeps : ∀ copy ∈ copies, ∀ inner, copy.value inner = source (copy.start + inner))
    (covered : ∃ copy ∈ copies, copy.covers (region, cell) = true) : after (region, cell) = source cell := by
  apply performed.agreed
  · intro copy member covers
    obtain ⟨-, above, -⟩ := Copy.covers_iff.mp covers
    rw [keeps copy member, Nat.add_sub_cancel' above]
  · obtain ⟨copy, member, covers⟩ := covered
    exact Copy.writes_pos member covers

/-- The shape of a buffer in blocks of 128, with `int` sizes. -/
structure BlockShape (n k rows columns : Nat) : Prop where
  rowsEq : n = rows * 128
  columnsEq : k = columns * 128
  rowsInt : n < 2 ^ 31
  columnsInt : k < 2 ^ 31

theorem divUp_multiple (count : Nat) : divUp (count * 128) 128 = count := by
  unfold divUp
  omega

theorem fromMatScales_performed {source : Nat → F} {before after : Slot × Nat → F} (blocks : BlockShape n k rows columns)
    (performed : Copy.Performed ((List.range (recommendedNth n)).flatMap (fromMatScales slot n k fp8Block source)) before after)
    {cell : Nat} (inside : cell < rows * columns) : after (slot, cell) = source cell := by
  obtain ⟨rfl, rfl, -, -⟩ := blocks
  have some_ : 0 < columns := Nat.pos_of_mul_pos_left (Nat.zero_lt_of_lt inside)
  have inRows : cell / columns < rows := Nat.div_lt_of_lt_mul (by rwa [Nat.mul_comm])
  have nBlocksK : (columns * 128 + fp8Block - 1) / fp8Block = columns := divUp_multiple columns
  have bnStart : ∀ ith, nBlock * ith / fp8Block = ith := fun ith => Nat.mul_div_cancel_left ith (show 0 < 128 by decide)
  apply kept_performed performed
  · intro copy member inner
    obtain ⟨ith, _, inShare⟩ := List.mem_flatMap.mp member
    obtain rfl := List.mem_singleton.mp inShare
    rfl
  · refine ⟨_, List.mem_flatMap.mpr ⟨cell / columns, List.mem_range.mpr ?_, List.mem_singleton_self _⟩, ?_⟩
    · have count : recommendedNth (rows * 128) = rows := divUp_multiple rows
      rw [count]
      exact inRows
    · have split := Nat.div_add_mod' cell columns
      have small := Nat.mod_lt cell some_
      have bnEnd : (min (rows * 128) (nBlock * (cell / columns + 1)) + fp8Block - 1) / fp8Block = cell / columns + 1 := by
        simp only [nBlock, fp8Block]
        omega
      rw [Copy.covers_iff]
      simp only [nBlocksK, bnStart, bnEnd, Nat.add_sub_cancel_left, Nat.one_mul]
      refine ⟨trivial, ?_, ?_⟩
      · omega
      · omega

theorem transposedScales_performed {src : BufferB α F} {before after : Slot × Nat → F}
    (blocks : BlockShape n k rows columns) (flipped : src.k = n) (threads : 0 < nth)
    (performed : Copy.Performed ((List.range nth).flatMap (transposedScales slot n k src nth)) before after)
    {bn bk : Nat} (inRows : bn < rows) (inColumns : bk < columns) :
    after (slot, bn * columns + bk) = src.d (bk * rows + bn) := by
  obtain ⟨rfl, rfl, -, -⟩ := blocks
  have rowCount : rows * 128 / fp8Block = rows := Nat.mul_div_cancel _ (show 0 < 128 by decide)
  have columnCount : columns * 128 / fp8Block = columns := Nat.mul_div_cancel _ (show 0 < 128 by decide)
  have all := flatMap_bounds (fun ith => blockStart rows nth ith) (blockStart_rising rows nth) nth fun dstBn =>
    (List.range columns).flatMap fun dstBk =>
      [(⟨slot, dstBn * columns + dstBk, 1, fun _ => src.d (dstBk * rows + dstBn)⟩ : Copy Slot F)]
  have shares : (List.range nth).flatMap (transposedScales slot (rows * 128) (columns * 128) src nth) =
      (List.range rows).flatMap fun dstBn => (List.range columns).flatMap fun dstBk =>
        [(⟨slot, dstBn * columns + dstBk, 1, fun _ => src.d (dstBk * rows + dstBn)⟩ : Copy Slot F)] := by
    rw [blockStart_zero, blockStart_all rows threads, Nat.sub_zero, ← List.range_eq_range'] at all
    rw [← all]
    apply List.flatMap_congr
    intro ith _
    simp only [transposedScales, rowCount, columnCount, flipped]
  rw [shares] at performed
  apply performed.agreed
  · intro copy member covers
    obtain ⟨dstBn, _, inBlock⟩ := List.mem_flatMap.mp member
    obtain ⟨dstBk, inRange, same⟩ := List.mem_flatMap.mp inBlock
    obtain rfl := List.mem_singleton.mp same
    obtain ⟨-, above, below⟩ := Copy.covers_iff.mp covers
    simp only at above below
    obtain ⟨rfl, rfl⟩ := split_unique (List.mem_range.mp inRange) inColumns (show dstBn * columns + dstBk = bn * columns + bk by omega)
    rfl
  · apply Copy.writes_pos (List.mem_flatMap.mpr ⟨bn, List.mem_range.mpr inRows, List.mem_flatMap.mpr ⟨bk,
      List.mem_range.mpr inColumns, List.mem_singleton_self _⟩⟩)
    rw [Copy.covers_iff]
    refine ⟨rfl, ?_, ?_⟩
    · exact Nat.le_refl _
    · exact Nat.lt_succ_self _

/-- The last thread starts at the last block's end or before. -/
def Divided (rows nth : Nat) : Prop :=
  (nth - 1) * divUp rows nth ≤ rows

instance (rows nth : Nat) : Decidable (Divided rows nth) :=
  inferInstanceAs (Decidable ((nth - 1) * divUp rows nth ≤ rows))

theorem start_lt (rows : Nat) (inThreads : ith < nth) : ith * divUp rows nth < rows + nth := by
  have whole : divUp rows nth * nth ≤ rows + nth - 1 := Nat.div_mul_le_self _ _
  have less : ith * divUp rows nth ≤ nth * divUp rows nth := Nat.mul_le_mul_right _ (Nat.le_of_lt inThreads)
  rw [Nat.mul_comm nth] at less
  omega

theorem scaleBytes_ordered (blocks : BlockShape n k rows columns) (ordered : ith * divUp rows nth ≤ rows) :
    scaleBytes n k fp8Block nth ith = 4 * ((min ((ith + 1) * divUp rows nth) rows - ith * divUp rows nth) * columns) := by
  obtain ⟨rfl, rfl, rowsInt, columnsInt⟩ := blocks
  have rowCount : divUp (rows * 128) nBlock = rows := divUp_multiple rows
  have columnCount : divUp (columns * 128) fp8Block = columns := divUp_multiple columns
  have next : ith * divUp rows nth ≤ (ith + 1) * divUp rows nth := Nat.mul_le_mul_right _ (Nat.le_succ ith)
  have less : ith * divUp rows nth ≤ min ((ith + 1) * divUp rows nth) rows := le_min next ordered
  have few : (min ((ith + 1) * divUp rows nth) rows - ith * divUp rows nth) * columns ≤ 2 ^ 24 * 2 ^ 24 :=
    Nat.mul_le_mul (by omega) (by omega)
  simp only [scaleBytes, blockRange, rowCount, columnCount]
  rw [← Nat.cast_sub less]
  generalize (min ((ith + 1) * divUp rows nth) rows - ith * divUp rows nth) = count at few
  have product : (4 * (count : Int) * columns) = ((4 * (count * columns) : Nat) : Int) := by
    push_cast
    ring
  rw [product, Int.emod_eq_of_lt (Int.natCast_nonneg _) (by omega), Int.toNat_natCast]

theorem scaleBytes_behind (blocks : BlockShape n k rows columns) (threadsInt : nth < 2 ^ 31) (inThreads : ith < nth)
    (some_ : 0 < columns) (behind : rows < ith * divUp rows nth) :
    scaleBytes n k fp8Block nth ith + 4 * ((ith * divUp rows nth - rows) * columns) = 2 ^ 64 := by
  obtain ⟨rfl, rfl, rowsInt, columnsInt⟩ := blocks
  have rowCount : divUp (rows * 128) nBlock = rows := divUp_multiple rows
  have columnCount : divUp (columns * 128) fp8Block = columns := divUp_multiple columns
  have next : ith * divUp rows nth ≤ (ith + 1) * divUp rows nth := Nat.mul_le_mul_right _ (Nat.le_succ ith)
  have bound := start_lt rows inThreads
  have few : (ith * divUp rows nth - rows) * columns ≤ 2 ^ 32 * 2 ^ 24 := Nat.mul_le_mul (by omega) (by omega)
  have last : min ((ith + 1) * divUp rows nth) rows = rows := min_eq_right (by omega)
  have missing : 0 < (ith * divUp rows nth - rows) * columns := Nat.mul_pos (by omega) some_
  simp only [scaleBytes, blockRange, rowCount, columnCount, last]
  have difference : ((rows : Int) - (ith * divUp rows nth : Nat)) = -((ith * divUp rows nth - rows : Nat) : Int) := by omega
  rw [difference]
  generalize ith * divUp rows nth - rows = count at few missing
  have product : (4 * -(count : Int) * columns) = -((4 * (count * columns) : Nat) : Int) := by
    push_cast
    ring
  rw [product]
  omega

/-- A thread that starts among the blocks copies its scales. -/
theorem toMatScales_ordered {d : Nat → F} (blocks : BlockShape n k rows columns) (ordered : ith * divUp rows nth ≤ rows) :
    toMatScales slot n k fp8Block nth d ith = some [⟨slot, ith * divUp rows nth * columns,
      (min ((ith + 1) * divUp rows nth) rows - ith * divUp rows nth) * columns,
      fun inner => d (ith * divUp rows nth * columns + inner)⟩] := by
  have bytes := scaleBytes_ordered blocks ordered
  obtain ⟨rfl, rfl, -, -⟩ := blocks
  have rowCount : divUp (rows * 128) nBlock = rows := divUp_multiple rows
  have gridRows : divUp (rows * 128) fp8Block = rows := divUp_multiple rows
  have columnCount : divUp (columns * 128) fp8Block = columns := divUp_multiple columns
  have inGrid : min ((ith + 1) * divUp rows nth) rows * columns ≤ rows * columns :=
    Nat.mul_le_mul_right _ (min_le_right _ _)
  have next : ith * divUp rows nth ≤ (ith + 1) * divUp rows nth := Nat.mul_le_mul_right _ (Nat.le_succ ith)
  have split : ith * divUp rows nth * columns + (min ((ith + 1) * divUp rows nth) rows - ith * divUp rows nth) * columns =
      min ((ith + 1) * divUp rows nth) rows * columns := by
    rw [← Nat.add_mul, Nat.add_sub_cancel' (le_min next ordered)]
  simp only [toMatScales, bytes, blockRange, rowCount, gridRows, columnCount]
  rw [if_pos (by omega), Nat.mul_div_cancel_left _ (by decide)]

/-- A thread that starts behind the blocks copies beyond the arrays. -/
theorem toMatScales_behind {d : Nat → F} (blocks : BlockShape n k rows columns) (threadsInt : nth < 2 ^ 31) (inThreads : ith < nth)
    (some_ : 0 < columns) (behind : rows < ith * divUp rows nth) : toMatScales slot n k fp8Block nth d ith = none := by
  have bytes := scaleBytes_behind blocks threadsInt inThreads some_ behind
  obtain ⟨rfl, rfl, -, -⟩ := blocks
  have rowCount : divUp (rows * 128) nBlock = rows := divUp_multiple rows
  have gridRows : divUp (rows * 128) fp8Block = rows := divUp_multiple rows
  have columnCount : divUp (columns * 128) fp8Block = columns := divUp_multiple columns
  have split : ith * divUp rows nth * columns = rows * columns + (ith * divUp rows nth - rows) * columns := by
    rw [← Nat.add_mul]
    congr 1
    omega
  simp only [toMatScales, blockRange, rowCount, gridRows, columnCount]
  rw [if_neg]
  omega

theorem toMatScales_empty {d : Nat → F} (blocks : BlockShape n k rows 0) :
    toMatScales slot n k fp8Block nth d ith = some [⟨slot, 0, 0, fun inner => d (0 + inner)⟩] := by
  obtain ⟨rfl, rfl, -, -⟩ := blocks
  have columnCount : divUp 0 fp8Block = 0 := divUp_multiple 0
  simp [toMatScales, scaleBytes, columnCount]

/-! ## Exactness -/

/-- The `k` by `n` transpose of a matrix. -/
def transposed (n k : Nat) (matrix : Nat → α) : Nat → α :=
  fun offset => matrix (offset % n * k + offset / n)

/-- The packed arrays after `from_mat`. -/
structure FromMat (slot : Slot) (n k : Nat) (bytes : Nat → UInt8) (scales : Nat → UInt32) (packed : Slot × Nat → UInt8)
    (grid : Slot × Nat → UInt32) : Prop where
  weights : ∃ blank, Copy.Performed ((List.range (recommendedNth n)).flatMap (fromMat slot n k bytes)) blank packed
  scales : ∃ blank, Copy.Performed ((List.range (recommendedNth n)).flatMap (fromMatScales slot n k fp8Block scales)) blank grid

/-- Unpacking on `nth` threads gives the matrix back, and the packed transpose is the
pack of the transpose. -/
structure Repacks (slot : Slot) (n k nth : Nat) : Prop where
  roundTrip : ∀ bytes scales packed grid, FromMat slot n k bytes scales packed grid →
    ∃ copies : Nat → List (Copy Slot UInt32), (∀ ith < nth, toMatScales slot n k fp8Block nth (fun cell => grid (slot, cell)) ith = some (copies ith)) ∧
      (∀ junk left, Copy.Performed ((List.range nth).flatMap (toMat slot n k nth fun cell => packed (slot, cell))) junk left →
        ∀ row < n, ∀ column < k, left (slot, row * k + column) = bytes (row * k + column)) ∧
      ∀ junk left, Copy.Performed ((List.range nth).flatMap copies) junk left →
        ∀ cell < n / fp8Block * (k / fp8Block), left (slot, cell) = scales cell
  transposes : ∀ bytes scales packed grid packed' grid', FromMat slot n k bytes scales packed grid →
    FromMat slot k n (transposed n k bytes) (transposed (n / fp8Block) (k / fp8Block) scales) packed' grid' →
    ∃ runs : Nat → Repacked UInt8 UInt32, (∀ ith < nth, fromBbTransposed slot k n fp8Block
        ⟨n, k, fp8Block, fun cell => packed (slot, cell), fun cell => grid (slot, cell)⟩ nth ith = .ok (runs ith)) ∧
      (∀ junk left, Copy.Performed ((List.range nth).flatMap fun ith => (runs ith).weights) junk left →
        ∀ cell < k * n, left (slot, cell) = packed' (slot, cell)) ∧
      ∀ junk left, Copy.Performed ((List.range nth).flatMap fun ith => (runs ith).scales) junk left →
        ∀ cell < k / fp8Block * (n / fp8Block), left (slot, cell) = grid' (slot, cell)

theorem BlockShape.aligned (blocks : BlockShape n k rows columns) : panels.Aligned n k := by
  obtain ⟨rfl, rfl, -, -⟩ := blocks
  constructor
  · exact Nat.dvd_mul_left_of_dvd (by decide) rows
  · exact Nat.dvd_mul_left_of_dvd (by decide) columns

theorem BlockShape.flip (blocks : BlockShape n k rows columns) : BlockShape k n columns rows :=
  ⟨blocks.columnsEq, blocks.rowsEq, blocks.columnsInt, blocks.rowsInt⟩

theorem BlockShape.counts (blocks : BlockShape n k rows columns) : n / fp8Block = rows ∧ k / fp8Block = columns := by
  obtain ⟨rfl, rfl, -, -⟩ := blocks
  exact ⟨Nat.mul_div_cancel _ (show 0 < 128 by decide), Nat.mul_div_cancel _ (show 0 < 128 by decide)⟩

theorem toMat_returns {bytes : Nat → UInt8} {scales : Nat → UInt32} {packed junk left : Slot × Nat → UInt8}
    {grid : Slot × Nat → UInt32} {row column : Nat} (blocks : BlockShape n k rows columns) (threads : 0 < nth)
    (ready : FromMat slot n k bytes scales packed grid)
    (performed : Copy.Performed ((List.range nth).flatMap (toMat slot n k nth fun cell => packed (slot, cell))) junk left)
    (inRows : row < n) (inColumns : column < k) : left (slot, row * k + column) = bytes (row * k + column) := by
  obtain ⟨blank, packing⟩ := ready.weights
  have corner : panels.Corner n k (row / 32 * 32) (column / 32 * 32) := Panels.corner_of panels inRows inColumns
  have stored := fromMat_performed blocks.aligned packing corner (Nat.mod_lt row (show 0 < 32 by decide))
    (Nat.mod_lt column (show 0 < 32 by decide))
  rw [Nat.div_add_mod', Nat.div_add_mod'] at stored
  rw [toMat_performed blocks.aligned threads performed inRows inColumns]
  exact stored

/-- Threads that all start among the blocks copy each scale. -/
theorem scales_return {scales : Nat → UInt32} {d : Nat → UInt32} {junk left : Slot × Nat → UInt32} {cell : Nat}
    (blocks : BlockShape n k rows columns) (threads : 0 < nth) (divided : Divided rows nth)
    (same : ∀ cell < rows * columns, d cell = scales cell) {copies : Nat → List (Copy Slot UInt32)}
    (copied : ∀ ith < nth, toMatScales slot n k fp8Block nth d ith = some (copies ith))
    (performed : Copy.Performed ((List.range nth).flatMap copies) junk left) (inside : cell < rows * columns) :
    left (slot, cell) = scales cell := by
  have some_ : 0 < columns := Nat.pos_of_mul_pos_left (Nat.zero_lt_of_lt inside)
  have inRows : cell / columns < rows := Nat.div_lt_of_lt_mul (by rwa [Nat.mul_comm])
  have someRow : 0 < rows := Nat.zero_lt_of_lt inRows
  have someRows : 0 < divUp rows nth := Nat.div_pos (by omega) threads
  have ordered : ∀ ith < nth, ith * divUp rows nth ≤ rows := by
    intro ith inThreads
    exact (Nat.mul_le_mul_right _ (Nat.le_sub_one_of_lt inThreads)).trans divided
  have known : ∀ ith < nth, copies ith = [⟨slot, ith * divUp rows nth * columns,
      (min ((ith + 1) * divUp rows nth) rows - ith * divUp rows nth) * columns,
      fun inner => d (ith * divUp rows nth * columns + inner)⟩] := by
    intro ith inThreads
    have one := copied ith inThreads
    rw [toMatScales_ordered blocks (ordered ith inThreads)] at one
    exact (Option.some.inj one).symm
  rw [← same cell inside]
  apply kept_performed performed
  · intro copy member inner
    obtain ⟨ith, inThreads, inShare⟩ := List.mem_flatMap.mp member
    rw [known ith (List.mem_range.mp inThreads)] at inShare
    obtain rfl := List.mem_singleton.mp inShare
    rfl
  · have owner : cell / columns / divUp rows nth < nth := by
      have whole : rows ≤ divUp rows nth * nth := by
        have split := Nat.div_add_mod' (rows + nth - 1) nth
        have small := Nat.mod_lt (rows + nth - 1) threads
        unfold divUp
        omega
      exact Nat.div_lt_of_lt_mul (inRows.trans_le whole)
    have own := List.mem_singleton_self (⟨slot, cell / columns / divUp rows nth * divUp rows nth * columns,
      (min ((cell / columns / divUp rows nth + 1) * divUp rows nth) rows -
        cell / columns / divUp rows nth * divUp rows nth) * columns,
      fun inner => d (cell / columns / divUp rows nth * divUp rows nth * columns + inner)⟩ : Copy Slot UInt32)
    rw [← known _ owner] at own
    refine ⟨_, List.mem_flatMap.mpr ⟨_, List.mem_range.mpr owner, own⟩, ?_⟩
    · have blockSplit := Nat.div_add_mod' (cell / columns) (divUp rows nth)
      have blockSmall := Nat.mod_lt (cell / columns) someRows
      have cellSplit := Nat.div_add_mod' cell columns
      have cellSmall := Nat.mod_lt cell some_
      have next : (cell / columns / divUp rows nth + 1) * divUp rows nth =
          cell / columns / divUp rows nth * divUp rows nth + divUp rows nth := by ring
      have low : cell / columns / divUp rows nth * divUp rows nth * columns ≤ cell / columns * columns :=
        Nat.mul_le_mul_right _ (by omega)
      have high : (cell / columns + 1) * columns ≤ min ((cell / columns / divUp rows nth + 1) * divUp rows nth) rows * columns :=
        Nat.mul_le_mul_right _ (by omega)
      rw [Nat.add_mul, Nat.one_mul] at high
      rw [Copy.covers_iff]
      refine ⟨rfl, ?_, ?_⟩
      · simp only
        omega
      · simp only [Nat.sub_mul]
        omega

theorem weights_transpose {bytes : Nat → UInt8} {scales scales' : Nat → UInt32} {packed packed' junk left : Slot × Nat → UInt8}
    {grid grid' : Slot × Nat → UInt32} {src : BufferB UInt8 UInt32} (blocks : BlockShape n k rows columns) (threads : 0 < nth)
    (shape : src.n = n ∧ src.k = k) (weights : ∀ cell, src.b cell = packed (slot, cell))
    (ready : FromMat slot n k bytes scales packed grid)
    (other : FromMat slot k n (transposed n k bytes) scales' packed' grid')
    (performed : Copy.Performed ((List.range nth).flatMap (transposedWeights slot k n src nth)) junk left) {cell : Nat}
    (inside : cell < k * n) : left (slot, cell) = packed' (slot, cell) := by
  have aligned := blocks.aligned
  have flipped := blocks.flip.aligned
  have rowBlocks : 128 ∣ k := ⟨columns, by rw [blocks.columnsEq, Nat.mul_comm]⟩
  obtain ⟨blank, packing⟩ := ready.weights
  obtain ⟨blank', packing'⟩ := other.weights
  refine Panels.packed_ext (fun cell => left (slot, cell)) (fun cell => packed' (slot, cell)) flipped ?_ inside
  intro row column offset corner inTile
  obtain ⟨i, inRows, j, inColumns, rfl⟩ := packedPlace_cover inTile
  have mirror : panels.Corner n k column row := ⟨corner.columnStep, corner.rowStep, corner.inColumns, corner.inRows⟩
  have columnFits := add_step_le corner.columnStep flipped.columns corner.inColumns
  have inRow : column + j < n := by
    have step : panels.kStep = 32 := rfl
    omega
  have moved := transposed_performed flipped rowBlocks threads performed corner inRows inColumns
  have stored := fromMat_performed aligned packing mirror inColumns inRows
  have expected := fromMat_performed flipped packing' corner inRows inColumns
  rw [transposed, pairIndex_mod _ inRow, pairIndex_div _ inRow] at expected
  rw [weights, shape.1, shape.2] at moved
  exact moved.trans (stored.trans expected.symm)

theorem scales_transpose {bytes bytes' : Nat → UInt8} {scales : Nat → UInt32} {packed packed' : Slot × Nat → UInt8}
    {grid grid' junk left : Slot × Nat → UInt32} {src : BufferB UInt8 UInt32} (blocks : BlockShape n k rows columns) (threads : 0 < nth)
    (shape : src.k = k) (floats : ∀ cell, src.d cell = grid (slot, cell)) (ready : FromMat slot n k bytes scales packed grid)
    (other : FromMat slot k n bytes' (transposed rows columns scales) packed' grid')
    (performed : Copy.Performed ((List.range nth).flatMap (transposedScales slot k n src nth)) junk left) {cell : Nat}
    (inside : cell < columns * rows) : left (slot, cell) = grid' (slot, cell) := by
  have some_ : 0 < rows := Nat.pos_of_mul_pos_left (Nat.zero_lt_of_lt inside)
  have inRow : cell % rows < rows := Nat.mod_lt _ some_
  have inColumn : cell / rows < columns := Nat.div_lt_of_lt_mul (by rwa [Nat.mul_comm])
  obtain ⟨blank, filling⟩ := ready.scales
  obtain ⟨blank', filling'⟩ := other.scales
  have moved := transposedScales_performed blocks.flip shape threads performed inColumn inRow
  have place : cell % rows * columns + cell / rows < rows * columns := by
    have last : (cell % rows + 1) * columns ≤ rows * columns := Nat.mul_le_mul_right _ inRow
    rw [Nat.add_mul, Nat.one_mul] at last
    omega
  rw [Nat.div_add_mod', floats, fromMatScales_performed blocks filling place] at moved
  rw [fromMatScales_performed blocks.flip filling' inside]
  exact moved

theorem fromBbTransposed_ok {src : BufferB UInt8 UInt32} (blocks : BlockShape n k rows columns)
    (shape : src.n = n ∧ src.k = k ∧ src.kGroupSize = fp8Block) (inThreads : ith < nth) :
    fromBbTransposed slot k n fp8Block src nth ith =
      .ok ⟨transposedWeights slot k n src nth ith, transposedScales slot k n src nth ith⟩ := by
  obtain ⟨rowsEq, columnsEq, group⟩ := shape
  have threads : ¬ (nth ≤ 0 ∨ ith ≥ nth) := by omega
  have shapes : ¬ (k ≠ src.k ∨ n ≠ src.n) := by
    rw [rowsEq, columnsEq]
    omega
  have groups : ¬ (fp8Block ≠ fp8Block ∨ src.kGroupSize ≠ fp8Block) := by
    rw [group]
    omega
  have steps : ¬ (nBlock ≠ fp8Block ∨ nStep ≠ 32 ∨ kStep ≠ 32 ∨ k % fp8Block ≠ 0 ∨ n % fp8Block ≠ 0 ∨
      src.n % fp8Block ≠ 0 ∨ src.k % fp8Block ≠ 0) := by
    rw [rowsEq, columnsEq, blocks.rowsEq, blocks.columnsEq]
    simp only [fp8Block, nBlock, nStep, kStep]
    omega
  rw [fromBbTransposed, if_neg threads, if_neg shapes, if_neg groups, if_neg steps]

/-- Unpacking gives every packed buffer back when no thread starts behind the blocks. -/
theorem repacks_of_divided (blocks : BlockShape n k rows columns) (threads : 0 < nth) (divided : columns = 0 ∨ Divided rows nth) :
    Repacks slot n k nth where
  roundTrip := by
    intro bytes scales packed grid ready
    obtain ⟨blank, filling⟩ := ready.scales
    have kept : ∀ cell < rows * columns, grid (slot, cell) = scales cell :=
      fun cell inside => fromMatScales_performed blocks filling inside
    have ran : ∀ ith, ith < nth → ∃ copy, toMatScales slot n k fp8Block nth (fun cell => grid (slot, cell)) ith = some copy := by
      intro ith inThreads
      rcases divided with none | divided
      · subst none
        exact ⟨_, toMatScales_empty blocks⟩
      · exact ⟨_, toMatScales_ordered blocks ((Nat.mul_le_mul_right _ (Nat.le_sub_one_of_lt inThreads)).trans divided)⟩
    choose! copies copied using ran
    refine ⟨copies, copied, ?_, ?_⟩
    · intro junk left performed row inRows column inColumns
      exact toMat_returns blocks threads ready performed inRows inColumns
    · intro junk left performed cell inside
      rw [blocks.counts.1, blocks.counts.2] at inside
      rcases divided with none | divided
      · subst none
        contradiction
      · exact scales_return blocks threads divided kept copied performed inside
  transposes := by
    intro bytes scales packed grid packed' grid' ready other
    rw [blocks.counts.1, blocks.counts.2] at other
    refine ⟨_, fun ith inThreads => fromBbTransposed_ok blocks ⟨rfl, rfl, rfl⟩ inThreads, ?_, ?_⟩
    · intro junk left performed cell inside
      exact weights_transpose blocks threads ⟨rfl, rfl⟩ (fun _ => rfl) ready other performed inside
    · intro junk left performed cell inside
      rw [blocks.counts.1, blocks.counts.2] at inside
      exact scales_transpose blocks threads rfl (fun _ => rfl) ready other performed inside

theorem divided_of_repacks (blocks : BlockShape n k rows columns) (threads : 0 < nth) (threadsInt : nth < 2 ^ 31)
    (repacks : Repacks slot n k nth) : columns = 0 ∨ Divided rows nth := by
  by_contra neither
  obtain ⟨some_, behind⟩ := not_or.mp neither
  unfold Divided at behind
  have ready : FromMat slot n k (fun _ => 0) (fun _ => 0)
      (Copy.perform ((List.range (recommendedNth n)).flatMap (fromMat slot n k fun _ => 0)) fun _ => 0)
      (Copy.perform ((List.range (recommendedNth n)).flatMap (fromMatScales slot n k fp8Block fun _ => 0)) fun _ => 0) :=
    ⟨⟨_, Copy.performed_inOrder _ _⟩, ⟨_, Copy.performed_inOrder _ _⟩⟩
  obtain ⟨copies, copied, -⟩ := repacks.roundTrip _ _ _ _ ready
  have last := copied (nth - 1) (Nat.sub_lt threads Nat.one_pos)
  rw [toMatScales_behind blocks threadsInt (Nat.sub_lt threads Nat.one_pos) (Nat.pos_of_ne_zero some_)
    (Nat.lt_of_not_ge behind)] at last
  contradiction

/-- Shapes in blocks of 128, and thread counts, as the `int` arguments of the buffer. -/
structure Arguments (n k nth : Nat) : Prop where
  rowBlocks : fp8Block ∣ n
  columnBlocks : fp8Block ∣ k
  rowsInt : n < 2 ^ 31
  columnsInt : k < 2 ^ 31
  threads : 1 ≤ nth
  threadsInt : nth < 2 ^ 31

theorem repacks_iff (slot : Slot) (arguments : Arguments n k nth) :
    Repacks slot n k nth ↔ k = 0 ∨ Divided (n / fp8Block) nth := by
  obtain ⟨⟨rows, rfl⟩, ⟨columns, rfl⟩, rowsInt, columnsInt, threads, threadsInt⟩ := arguments
  have blocks : BlockShape (fp8Block * rows) (fp8Block * columns) rows columns :=
    ⟨Nat.mul_comm _ _, Nat.mul_comm _ _, rowsInt, columnsInt⟩
  have none : fp8Block * columns = 0 ↔ columns = 0 := by
    simp only [fp8Block]
    omega
  rw [blocks.counts.1, none]
  exact ⟨divided_of_repacks blocks threads threadsInt, repacks_of_divided blocks threads⟩

theorem repacks_two_threads : Arguments 640 256 2 ∧ (Repacks ⟨.gate, 0⟩ 640 256 2 ↔ 256 = 0 ∨ Divided (640 / fp8Block) 2) :=
  ⟨⟨by decide, by decide, by decide, by decide, by decide, by decide⟩,
    repacks_iff ⟨.gate, 0⟩ ⟨by decide, by decide, by decide, by decide, by decide, by decide⟩⟩

/-- Three threads for one block: the third copies the scales from behind the block on. -/
theorem one_block_three_threads : ¬ ∀ n k nth, Arguments n k nth → Repacks ⟨.gate, 0⟩ n k nth := by
  intro all
  have blocks : BlockShape 128 128 1 1 := ⟨rfl, rfl, by decide, by decide⟩
  have repacks := all 128 128 3 ⟨by decide, by decide, by decide, by decide, by decide, by decide⟩
  rcases divided_of_repacks blocks (by decide) (by decide) repacks with none | divided
  · contradiction
  · exact absurd divided (by decide)

end KtKernel.Fp8
