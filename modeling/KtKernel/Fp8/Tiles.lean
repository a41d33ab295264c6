import Mathlib.Tactic.Ring
import KtKernel.Fp8.Load

namespace KtKernel.Fp8

open KtKernel.Data
open KtKernel.K2 (Slot)

/-! Where the packing puts a weight. -/

variable {α : Type} {slot : Slot} {n k row column start ith : Nat} {source : Nat → α}

/-- The place of a weight in its tile: words of four rows by two columns. -/
def packedPlace (row column : Nat) : Nat :=
  (8 * (column / 2) + matOffset (row / 4)) * 8 + 2 * (row % 4) + column % 2

def kBlockSize (k kBegin : Nat) : Nat :=
  min kBlock (k - kBegin / kBlock * kBlock)

/-- `get_submat`: the start of a tile. -/
def getSubmat (n k nBegin kBegin : Nat) : Nat :=
  let nBlockBegin := nBegin / nBlock * nBlock
  let nBlockSize := min nBlock (n - nBlockBegin)
  let kBlockBegin := kBegin / kBlock * kBlock
  nBlockBegin * k + kBlockBegin * nBlockSize + (nBegin - nBlockBegin) * kBlockSize k kBegin +
    (kBegin - kBlockBegin) * nStep

def address (n k row column : Nat) : Nat :=
  getSubmat n k (row / nStep * nStep) (column / kStep * kStep) + packedPlace (row % nStep) (column % kStep)

/-! ## One tile -/

theorem matOffset_lt : ∀ index < 8, matOffset index < 8 := by decide

theorem matOffset_injective : ∀ index < 8, ∀ other < 8, matOffset index = matOffset other → index = other := by decide

theorem packedPlace_lt (inRows : row < 32) (inColumns : column < 32) : packedPlace row column < 1024 := by
  have offset := matOffset_lt (row / 4) (by omega)
  unfold packedPlace
  omega

theorem packTile_within (slot : Slot) (start k : Nat) (source : Nat → α) :
    Copy.Within (packTile slot start k source) slot start (start + 1024) := by
  apply Copy.Within.flatMap
  intro i inRows
  apply Copy.Within.flatMap
  intro j inColumns
  have offset := matOffset_lt i (List.mem_range.mp inRows)
  have bound := List.mem_range.mp inColumns
  apply Copy.Within.single
  · rfl
  · simp only
    omega
  · simp only
    omega

theorem packTile_delivers (slot : Slot) (start : Nat) (even : 2 ∣ k) (source : Nat → α) (inRows : row < 32)
    (inColumns : column < 32) :
    Copy.Delivers (packTile slot start k source) (slot, start + packedPlace row column) (source (row * k + column)) := by
  have inWord : row / 4 < 8 := by omega
  have offset := matOffset_lt (row / 4) inWord
  have elsewhere : ∀ i < 8, ∀ j < 16, ¬ (i = row / 4 ∧ j = column / 2) →
      Copy.writes [(⟨slot, start + (8 * j + matOffset i) * 8, 8, fun byte =>
        source (i * k * 4 + 2 * (j + k / 2 * (byte / 2)) + byte % 2)⟩ : Copy Slot α)]
        (slot, start + packedPlace row column) = 0 := by
    intro i inRange j _ different
    apply (Copy.Within.single rfl (Nat.le_refl _) (Nat.le_refl _)).writes_eq_zero
    intro covered
    obtain ⟨-, above, below⟩ := covered
    have otherOffset := matOffset_lt i inRange
    simp only [packedPlace] at above below
    apply different
    constructor
    · apply matOffset_injective i inRange (row / 4) inWord
      omega
    · omega
  apply Copy.Delivers.range inWord
  · apply Copy.Delivers.range (show column / 2 < 16 by omega)
    · apply Copy.Delivers.single
      · rw [Copy.covers_iff]
        simp only [packedPlace]
        refine ⟨trivial, ?_, ?_⟩
        · omega
        · omega
      · obtain ⟨half, rfl⟩ := even
        have halved : 2 * half / 2 = half := by omega
        have byte : start + packedPlace row column - (start + (8 * (column / 2) + matOffset (row / 4)) * 8) =
            2 * (row % 4) + column % 2 := by
          unfold packedPlace
          omega
        have inWord : (2 * (row % 4) + column % 2) / 2 = row % 4 := by omega
        have inPair : (2 * (row % 4) + column % 2) % 2 = column % 2 := by omega
        simp only [byte, inWord, inPair, halved]
        congr 1
        have whole := Nat.div_add_mod row 4
        have pair := Nat.div_add_mod column 2
        calc row / 4 * (2 * half) * 4 + 2 * (column / 2 + half * (row % 4)) + column % 2
            = (4 * (row / 4) + row % 4) * (2 * half) + (2 * (column / 2) + column % 2) := by ring
          _ = row * (2 * half) + column := by rw [whole, pair]
    · intro j inRange different
      exact elsewhere (row / 4) inWord j inRange fun same => different same.2
  · intro i inRange different
    apply Copy.writes_flatMap_zero
    intro j member
    exact elsewhere i inRange j (List.mem_range.mp member) fun same => different same.1

/-! ## The tiles of a share -/

def tileStart (k ith nIndex kIndex tile : Nat) : Nat :=
  nBlock * ith * k + kIndex * kBlock * nBlock + nIndex * nStep * min kBlock (k - kIndex * kBlock) +
    tile * kStep * nStep

/-- The tiles of a share, all blocks whole. -/
theorem fromMat_tiles (slot : Slot) (rowBlocks : nBlock ∣ n) (source : Nat → α) (inShares : ith < n / nBlock) :
    fromMat slot n k source ith =
      (List.range 4).flatMap fun nIndex => (List.range (divUp k kBlock)).flatMap fun kIndex =>
        (List.range (divUp (min kBlock (k - kIndex * kBlock)) kStep)).flatMap fun tile =>
          packTile slot (tileStart k ith nIndex kIndex tile) k fun offset =>
            source ((nBlock * ith + nIndex * nStep) * k + kIndex * kBlock + tile * kStep + offset) := by
  obtain ⟨blocks, rfl⟩ := rowBlocks
  have some_ : 0 < nBlock := by decide
  rw [Nat.mul_div_cancel_left _ some_] at inShares
  have whole : min (nBlock * blocks) (nBlock * (ith + 1)) - nBlock * ith = nBlock := by
    have more : nBlock * (ith + 1) ≤ nBlock * blocks := Nat.mul_le_mul_left _ inShares
    rw [min_eq_right more, Nat.mul_add, Nat.mul_one, Nat.add_sub_cancel_left]
  have four : divUp nBlock nStep = 4 := by decide
  simp only [fromMat, whole, steps, List.flatMap_map, four, tileStart]

structure TileInside (k nIndex kIndex tile : Nat) : Prop where
  inRange : nIndex < 4
  inBlock : (tile + 1) * kStep ≤ min kBlock (k - kIndex * kBlock)

theorem tileInside_of_mem {nIndex kIndex tile : Nat} (columnSteps : kStep ∣ k) (inRange : nIndex < 4)
    (inTiles : tile < divUp (min kBlock (k - kIndex * kBlock)) kStep) : TileInside k nIndex kIndex tile := by
  refine ⟨inRange, ?_⟩
  obtain ⟨count, rfl⟩ := columnSteps
  simp only [divUp, kStep, kBlock] at *
  omega

/-- The numbers of a tile and a place in it, from the address. -/
theorem tile_unique {nIndex kIndex tile place nIndex' kIndex' tile' place' : Nat} (inside : TileInside k nIndex kIndex tile)
    (inside' : TileInside k nIndex' kIndex' tile') (small : place < 1024) (small' : place' < 1024)
    (same : tileStart k ith nIndex kIndex tile + place = tileStart k ith nIndex' kIndex' tile' + place') :
    nIndex = nIndex' ∧ kIndex = kIndex' ∧ tile = tile' := by
  have rest : ∀ {nIndex kIndex tile place : Nat}, TileInside k nIndex kIndex tile → place < 1024 →
      tile * 1024 + place < 32 * min kBlock (k - kIndex * kBlock) ∧
      nIndex * (32 * min kBlock (k - kIndex * kBlock)) + (tile * 1024 + place) < 917504 := by
    intro nIndex kIndex tile place inside small
    obtain ⟨inRange, inTiles⟩ := inside
    have most : min kBlock (k - kIndex * kBlock) ≤ kBlock := min_le_left _ _
    have four : (nIndex + 1) * (32 * min kBlock (k - kIndex * kBlock)) ≤
        4 * (32 * min kBlock (k - kIndex * kBlock)) := Nat.mul_le_mul_right _ inRange
    rw [Nat.add_mul, Nat.one_mul] at four
    simp only [kStep] at inTiles
    have block : kBlock = 7168 := rfl
    constructor
    · omega
    · omega
  have split : ∀ nIndex kIndex tile place, tileStart k ith nIndex kIndex tile + place =
      nBlock * ith * k + (kIndex * 917504 +
        (nIndex * (32 * min kBlock (k - kIndex * kBlock)) + (tile * 1024 + place))) := by
    intro nIndex kIndex tile place
    simp only [tileStart, nStep, kStep, nBlock]
    have block : kIndex * kBlock * 128 = kIndex * 917504 := Nat.mul_assoc _ _ _
    have tiles : tile * 32 * 32 = tile * 1024 := Nat.mul_assoc _ _ _
    rw [block, tiles, Nat.mul_assoc nIndex]
    omega
  obtain ⟨inRow, inBlock⟩ := rest inside small
  obtain ⟨inRow', inBlock'⟩ := rest inside' small'
  rw [split, split] at same
  have blocks := Nat.add_left_cancel same
  have kEqual : kIndex = kIndex' := by
    rw [← pairIndex_div kIndex inBlock, blocks, pairIndex_div kIndex' inBlock']
  subst kEqual
  have inner := Nat.add_left_cancel blocks
  have nEqual : nIndex = nIndex' := by
    rw [← pairIndex_div nIndex inRow, inner, pairIndex_div nIndex' inRow']
  subst nEqual
  have places := Nat.add_left_cancel inner
  exact ⟨rfl, rfl, by omega⟩

theorem address_tile (rowBlocks : nBlock ∣ n) (inRows : row < n) (column : Nat) :
    address n k row column = tileStart k (row / nBlock) (row % nBlock / nStep) (column / kBlock) (column % kBlock / kStep) +
      packedPlace (row % nStep) (column % kStep) := by
  obtain ⟨blocks, rfl⟩ := rowBlocks
  have block : row / nStep * nStep / nBlock = row / nBlock := by
    simp only [nStep, nBlock]
    omega
  have whole : min nBlock (nBlock * blocks - row / nBlock * nBlock) = nBlock := by
    simp only [nBlock] at *
    omega
  have kBlockEq : column / kStep * kStep / kBlock = column / kBlock := by
    simp only [kStep, kBlock]
    omega
  have rowPlace : row / nStep * nStep - row / nBlock * nBlock = row % nBlock / nStep * nStep := by
    simp only [nStep, nBlock]
    omega
  have columnPlace : column / kStep * kStep - column / kBlock * kBlock = column % kBlock / kStep * kStep := by
    simp only [kStep, kBlock]
    omega
  simp only [address, getSubmat, kBlockSize, block, whole, kBlockEq, rowPlace, columnPlace, tileStart,
    Nat.mul_comm nBlock (row / nBlock)]

theorem tile_of_column (columnSteps : kStep ∣ k) (inRows : row < nBlock) (inColumns : column < k) :
    TileInside k (row / nStep) (column / kBlock) (column % kBlock / kStep) := by
  obtain ⟨count, rfl⟩ := columnSteps
  constructor
  · simp only [nBlock, nStep] at *
    omega
  · simp only [kStep, kBlock] at *
    omega

theorem tile_elsewhere {nIndex kIndex tile place nIndex' kIndex' tile' : Nat} {source : Nat → α}
    (inside : TileInside k nIndex kIndex tile) (inside' : TileInside k nIndex' kIndex' tile') (small : place < 1024)
    (different : ¬ (nIndex' = nIndex ∧ kIndex' = kIndex ∧ tile' = tile)) :
    Copy.writes (packTile slot (tileStart k ith nIndex' kIndex' tile') k source)
      (slot, tileStart k ith nIndex kIndex tile + place) = 0 := by
  apply (packTile_within slot _ k source).writes_eq_zero
  intro covered
  obtain ⟨-, above, below⟩ := covered
  simp only at above below
  obtain ⟨place', equal⟩ := Nat.exists_eq_add_of_le above
  exact different (tile_unique inside' inside (by omega) small equal.symm)

/-- The share of a row puts a weight at its address. -/
theorem fromMat_delivers (slot : Slot) (rowBlocks : nBlock ∣ n) (columnSteps : kStep ∣ k) (source : Nat → α)
    (inRows : row < n) (inColumns : column < k) :
    Copy.Delivers (fromMat slot n k source (row / nBlock)) (slot, address n k row column)
      (source (row * k + column)) := by
  have even : 2 ∣ k := Nat.dvd_trans (by decide) columnSteps
  have positive : 0 < nBlock := by decide
  have inBlock : row % nBlock < nBlock := Nat.mod_lt _ positive
  have inShares : row / nBlock < n / nBlock := Nat.div_lt_div_of_lt_of_dvd rowBlocks inRows
  have inside := tile_of_column columnSteps inBlock inColumns
  have rowInTile : row % nStep < 32 := Nat.mod_lt _ (by decide)
  have columnInTile : column % kStep < 32 := Nat.mod_lt _ (by decide)
  have small := packedPlace_lt rowInTile columnInTile
  have kIndexes : column / kBlock < divUp k kBlock := div_lt_blocks (by decide) inColumns
  have tiles : column % kBlock / kStep < divUp (min kBlock (k - column / kBlock * kBlock)) kStep := by
    apply div_lt_blocks (by decide)
    simp only [kBlock]
    omega
  rw [fromMat_tiles slot rowBlocks source inShares, address_tile rowBlocks inRows]
  apply Copy.Delivers.range inside.inRange
  · apply Copy.Delivers.range kIndexes
    · apply Copy.Delivers.range tiles
      · have delivers := packTile_delivers slot
          (tileStart k (row / nBlock) (row % nBlock / nStep) (column / kBlock) (column % kBlock / kStep)) even
          (fun offset => source ((nBlock * (row / nBlock) + row % nBlock / nStep * nStep) * k +
            column / kBlock * kBlock + column % kBlock / kStep * kStep + offset)) rowInTile columnInTile
        convert delivers using 2
        have rowSplit : row = nBlock * (row / nBlock) + row % nBlock / nStep * nStep + row % nStep := by
          simp only [nBlock, nStep]
          omega
        have columnSplit : column = column / kBlock * kBlock + column % kBlock / kStep * kStep + column % kStep := by
          simp only [kBlock, kStep]
          omega
        have product := congrArg (· * k) rowSplit
        simp only [Nat.add_mul] at product
        rw [Nat.add_mul]
        omega
      · intro tile inTiles different
        apply tile_elsewhere inside (tileInside_of_mem columnSteps inside.inRange inTiles) small
        intro same
        exact different same.2.2
    · intro kIndex _ different
      apply Copy.writes_flatMap_zero
      intro tile member
      apply tile_elsewhere inside
        (tileInside_of_mem columnSteps inside.inRange (List.mem_range.mp member)) small
      intro same
      exact different same.2.1
  · intro nIndex inRange different
    apply Copy.writes_flatMap_zero
    intro kIndex _
    apply Copy.writes_flatMap_zero
    intro tile member
    apply tile_elsewhere inside (tileInside_of_mem columnSteps inRange (List.mem_range.mp member)) small
    intro same
    exact different same.1

/-- A share stays in the part of the buffer that belongs to its rows. -/
theorem fromMat_within (slot : Slot) (rowBlocks : nBlock ∣ n) (columnSteps : kStep ∣ k) (source : Nat → α)
    (inShares : ith < n / nBlock) :
    Copy.Within (fromMat slot n k source ith) slot (ith * (nBlock * k)) ((ith + 1) * (nBlock * k)) := by
  rw [fromMat_tiles slot rowBlocks source inShares, Nat.add_mul, Nat.one_mul]
  apply Copy.Within.flatMap
  intro nIndex inRange
  apply Copy.Within.flatMap
  intro kIndex inBlocks
  apply Copy.Within.flatMap
  intro tile inTiles
  obtain ⟨inRows, inBlock⟩ :=
    tileInside_of_mem columnSteps (List.mem_range.mp inRange) (List.mem_range.mp inTiles)
  have blockInside : kIndex * kBlock + min kBlock (k - kIndex * kBlock) ≤ k := by
    have known := List.mem_range.mp inBlocks
    simp only [divUp, kBlock] at *
    omega
  have four : (nIndex + 1) * (32 * min kBlock (k - kIndex * kBlock)) ≤ 4 * (32 * min kBlock (k - kIndex * kBlock)) :=
    Nat.mul_le_mul_right _ inRows
  rw [Nat.add_mul, Nat.one_mul] at four
  have start : tileStart k ith nIndex kIndex tile = ith * (nBlock * k) + 128 * (kIndex * kBlock) +
      nIndex * (32 * min kBlock (k - kIndex * kBlock)) + 32 * (tile * kStep) := by
    simp only [tileStart, nStep, nBlock]
    ring
  have bytes : nBlock * k = 128 * k := rfl
  simp only [kStep] at inBlock start
  intro copy member
  obtain ⟨region, above, below⟩ := packTile_within slot _ k _ copy member
  rw [start] at above below
  refine ⟨region, ?_, ?_⟩
  · omega
  · omega

end KtKernel.Fp8
