import Mathlib.Tactic.Ring
import KtKernel.Data.Tiling
import KtKernel.K2.Load

namespace KtKernel.K2

open KtKernel.Data
open KtKernel.Amx.ExpertFiles (Mat)

/-! What the slots of a part hold after the load. -/

variable {α : Type} {shape : Shape} {unit : shape.Unit} {map : Nat → Nat} {source : Source α}
  {part expert row inner slot : Nat} {mat : Mat}

/-- The place of a cell of a part's slice in the full expert. -/
def sliceOffset (shape : Shape) (unit : shape.Unit) (part : Nat) (mat : Mat) (row inner : Nat) : Nat :=
  match mat with
  | .down => row * (shape.intermediateSize / unit.size) + part * (shape.partSize / unit.size) + inner
  | _ => (part * shape.partSize + row) * (shape.hiddenSize / unit.size) + inner

/-- The cells in a row of a part's matrix. -/
def Shape.width (shape : Shape) (unit : shape.Unit) (mat : Mat) : Nat :=
  shape.columns mat / unit.size

theorem Shape.rows_mul_width (shape : Shape) (unit : shape.Unit) (mat : Mat) :
    shape.rows mat * shape.width unit mat = shape.partCells unit := by
  have both : shape.hiddenSize * (shape.partSize / unit.size) =
      shape.partSize * (shape.hiddenSize / unit.size) := by
    rw [← Nat.mul_div_assoc _ unit.part, ← Nat.mul_div_assoc _ unit.hidden, Nat.mul_comm]
  cases mat with
  | down => exact both
  | up => rfl
  | gate => rfl

theorem mem_mats (mat : Mat) : mat ∈ mats := by
  cases mat with
  | up => decide
  | gate => decide
  | down => decide

theorem mats_nodup : mats.Nodup := by decide

theorem inPart (inRow : row < shape.rows mat) (inWidth : inner < shape.width unit mat) :
    row * shape.width unit mat + inner < shape.partCells unit := by
  rw [← shape.rows_mul_width unit mat, Nat.mul_comm (shape.rows mat)]
  exact pairIndex_lt inRow inWidth

theorem stageCopies_within (shape : Shape) (unit : shape.Unit) (source : Source α) (part expert : Nat) (mat : Mat) :
    Copy.Within (stageCopies shape unit source part expert mat) mat (expert * shape.partCells unit)
      ((expert + 1) * shape.partCells unit) := by
  have next : (expert + 1) * shape.partCells unit = expert * shape.partCells unit + shape.partCells unit := by
    rw [Nat.add_mul, Nat.one_mul]
  rw [next]
  cases mat with
  | down =>
      have bound : Copy.Within (stageCopies shape unit source part expert .down) .down
          (expert * shape.partCells unit)
          (expert * shape.partCells unit + shape.rows .down * shape.width unit .down) :=
        Copy.strided_within _ _ (Nat.le_refl _)
      rwa [shape.rows_mul_width] at bound
  | up => exact Copy.Within.single rfl (Nat.le_refl _) (Nat.le_refl _)
  | gate => exact Copy.Within.single rfl (Nat.le_refl _) (Nat.le_refl _)

theorem stageCopies_delivers (source : Source α) (part expert : Nat) (inRow : row < shape.rows mat)
    (inWidth : inner < shape.width unit mat) :
    Copy.Delivers (stageCopies shape unit source part expert mat)
      (mat, expert * shape.partCells unit + (row * shape.width unit mat + inner))
      (source.cell shape unit mat expert (sliceOffset shape unit part mat row inner)) := by
  have inside := inPart inRow inWidth
  have whole : ∀ mat', mat' ≠ Mat.down → mat = mat' →
      Copy.Delivers [⟨mat', expert * shape.partCells unit, shape.partCells unit, fun inner =>
        source.cell shape unit mat' expert (part * shape.partCells unit + inner)⟩]
        (mat', expert * shape.partCells unit + (row * shape.width unit mat' + inner))
        (source.cell shape unit mat' expert (sliceOffset shape unit part mat' row inner)) := by
    intro mat' notDown same
    subst same
    apply Copy.Delivers.single
    · rw [Copy.covers_iff]
      exact ⟨rfl, Nat.le_add_right _ _, Nat.add_lt_add_left inside _⟩
    · simp only [Nat.add_sub_cancel_left]
      congr 1
      cases mat with
      | down => contradiction
      | up =>
          simp only [sliceOffset, Shape.partCells, Shape.width, Shape.columns]
          ring
      | gate =>
          simp only [sliceOffset, Shape.partCells, Shape.width, Shape.columns]
          ring
  cases mat with
  | down =>
      rw [← Nat.add_assoc]
      exact Copy.strided_delivers _ _ _ (Nat.le_refl _) inRow inWidth
  | up => exact whole .up (by decide) rfl
  | gate => exact whole .gate (by decide) rfl

/-- The staging array of a part holds the slices of the experts that have a slot.
An expert with several slots is copied more than once, each time the same. -/
theorem staged_cell (inSlots : slot < shape.expertNum) (inRow : row < shape.rows mat)
    (inWidth : inner < shape.width unit mat)
    (performed : Copy.Performed (stageJob shape unit map source part) undefined staged) :
    staged (mat, map slot * shape.partCells unit + (row * shape.width unit mat + inner)) =
      source.cell shape unit mat (map slot) (sliceOffset shape unit part mat row inner) := by
  have delivers := stageCopies_delivers source part (map slot) inRow inWidth
  apply performed.agreed
  · intro copy member covers
    obtain ⟨task, -, inTask⟩ := List.mem_flatMap.mp member
    obtain ⟨other, -, inStage⟩ := List.mem_flatMap.mp inTask
    obtain ⟨region, above, below⟩ := stageCopies_within shape unit source part (map task) other copy inStage
    obtain ⟨same, after_, before_⟩ := Copy.covers_iff.mp covers
    have sameMat : other = mat := region.symm.trans same
    have sameExpert : map task = map slot :=
      block_of_mem (inPart inRow inWidth) (above.trans after_) (before_.trans_le below)
    rw [sameMat, sameExpert] at inStage
    exact delivers.value_of_covers inStage covers
  · obtain ⟨copy, inStage, covers, -⟩ := delivers.value
    apply Copy.writes_pos _ covers
    exact List.mem_flatMap_of_mem (List.mem_range.mpr inSlots) (List.mem_flatMap_of_mem (mem_mats mat) inStage)

/-! ## The layouts -/

/-- The place of a byte of a row in a buffer. -/
def Layout.address (layout : Layout) (n k row byte : Nat) : Nat :=
  match layout with
  | .linear => row * (k / 2) + byte
  | .blocked => blockOffsetBytes n k row (byte / 32 * 64) + byte % 32

def Layout.AcceptsRow (k : Nat) : Layout → Prop
  | .linear => 2 ∣ k
  | .blocked => 64 ∣ k

def blockRows (n row : Nat) : Nat :=
  min nBlock (n - row / nBlock * nBlock)

theorem blockOffsetBytes_tile (n tiles row tile : Nat) :
    blockOffsetBytes n (64 * tiles) row (tile * 64) =
      32 * (row / nBlock * nBlock * tiles + (tile * blockRows n row + row % nBlock)) := by
  have split : row - row / nBlock * nBlock = row % nBlock := by
    rw [Nat.mod_eq_sub_div_mul]
  have half : row / nBlock * nBlock * (64 * tiles) / 2 = 32 * (row / nBlock * nBlock * tiles) := by
    rw [show row / nBlock * nBlock * (64 * tiles) = 32 * (row / nBlock * nBlock * tiles) * 2 by ring]
    exact Nat.mul_div_cancel _ (by decide)
  simp only [blockOffsetBytes, split, half, Nat.mul_div_cancel _ (show 0 < 64 by decide), blockRows]
  ring

theorem mod_lt_blockRows (inside : row < n) : row % nBlock < blockRows n row := by
  have small : row % nBlock < nBlock := Nat.mod_lt _ (by decide)
  have split := Nat.div_add_mod' row nBlock
  unfold blockRows
  omega

theorem tile_unique {n tiles row tile row' tile' inner : Nat} (inRows : row < n) (inRows' : row' < n)
    (sameBlock : row' / nBlock = row / nBlock) (small : inner < 32)
    (above : blockOffsetBytes n (64 * tiles) row' (tile' * 64) ≤
      blockOffsetBytes n (64 * tiles) row (tile * 64) + inner)
    (below : blockOffsetBytes n (64 * tiles) row (tile * 64) + inner <
      blockOffsetBytes n (64 * tiles) row' (tile' * 64) + 32) : row' = row ∧ tile' = tile := by
  have place := mod_lt_blockRows inRows
  have place' := mod_lt_blockRows inRows'
  have sameRows : blockRows n row' = blockRows n row := by rw [blockRows, sameBlock, blockRows]
  rw [blockOffsetBytes_tile, blockOffsetBytes_tile, sameBlock] at above below
  rw [sameRows] at above below place'
  have same : tile' * blockRows n row + row' % nBlock = tile * blockRows n row + row % nBlock := by omega
  have tiles := congrArg (· / blockRows n row) same
  have rows := congrArg (· % blockRows n row) same
  simp only [pairIndex_div _ place, pairIndex_div _ place', pairIndex_mod _ place, pairIndex_mod _ place']
    at tiles rows
  refine ⟨?_, tiles⟩
  rw [← Nat.div_add_mod' row' nBlock, ← Nat.div_add_mod' row nBlock, sameBlock, rows]

theorem share_lt (inside : row < n) : row / nBlock < recommendedNth n :=
  div_lt_blocks (by decide) inside

/-- A share of the rows stays in its part of the buffer. -/
theorem fromRawMat_within (layout : Layout) (slot : Slot) (n : Nat) (accepts : layout.AcceptsRow k) (source : Nat → α)
    (ith : Nat) :
    Copy.Within (fromRawMat layout slot n k source ith) slot (nBlock * ith * (k / 2))
      (nBlock * (ith + 1) * (k / 2)) := by
  cases layout with
  | linear =>
      simp only [fromRawMat]
      split
      · next some_ =>
          have bound : min n (nBlock * (ith + 1)) * (k / 2) ≤ nBlock * (ith + 1) * (k / 2) :=
            Nat.mul_le_mul_right _ (min_le_right _ _)
          have split := Nat.sub_mul (min n (nBlock * (ith + 1))) (nBlock * ith) (k / 2)
          have less : nBlock * ith * (k / 2) ≤ min n (nBlock * (ith + 1)) * (k / 2) :=
            Nat.mul_le_mul_right _ some_.le
          apply Copy.Within.single
          · rfl
          · exact Nat.le_refl _
          · simp only [split]
            omega
      · intro copy member
        contradiction
  | blocked =>
      obtain ⟨tiles, rfl⟩ := accepts
      have half : 64 * tiles / 2 = 32 * tiles := by omega
      have count : (64 * tiles + 63) / 64 = tiles := by omega
      simp only [fromRawMat, count, half]
      apply Copy.Within.flatMap
      intro row inRows
      obtain ⟨above, below⟩ := List.mem_range'_1.mp inRows
      apply Copy.Within.flatMap
      intro tile inTiles
      have block : row / nBlock = ith := by
        apply Nat.div_eq_of_lt_le
        · rw [Nat.mul_comm]
          exact above
        · rw [Nat.mul_comm]
          omega
      have inRow : row < n := by omega
      have place := mod_lt_blockRows inRow
      have full : blockRows n row ≤ nBlock := min_le_left _ _
      have last : (tile + 1) * blockRows n row ≤ tiles * nBlock :=
        Nat.mul_le_mul (List.mem_range.mp inTiles) full
      rw [Nat.add_mul, Nat.one_mul] at last
      have begin_ : nBlock * ith * (32 * tiles) = 32 * (ith * nBlock * tiles) := by ring
      have end_ : nBlock * (ith + 1) * (32 * tiles) = 32 * (ith * nBlock * tiles + tiles * nBlock) := by ring
      apply Copy.Within.single
      · rfl
      · simp only [blockOffsetBytes_tile, block]
        omega
      · simp only [blockOffsetBytes_tile, block]
        omega

/-- A byte of a row is written once, by the share of the row. -/
theorem fromRawMat_delivers (layout : Layout) (slot : Slot) (accepts : layout.AcceptsRow k) (source : Nat → α)
    (inRow : row < n) (inByte : byte < k / 2) :
    Copy.Delivers (fromRawMat layout slot n k source (row / nBlock)) (slot, layout.address n k row byte)
      (source (row * (k / 2) + byte)) := by
  have split := Nat.div_add_mod row nBlock
  have small : row % nBlock < nBlock := Nat.mod_lt _ (by decide)
  have start : nBlock * (row / nBlock) ≤ row := by omega
  have stop : row < min n (nBlock * (row / nBlock + 1)) := by
    rw [Nat.mul_add, Nat.mul_one]
    omega
  cases layout with
  | linear =>
      have low : nBlock * (row / nBlock) * (k / 2) ≤ row * (k / 2) := Nat.mul_le_mul_right _ start
      have high : (row + 1) * (k / 2) ≤ min n (nBlock * (row / nBlock + 1)) * (k / 2) :=
        Nat.mul_le_mul_right _ stop
      rw [Nat.add_mul, Nat.one_mul] at high
      simp only [fromRawMat, Layout.address]
      rw [if_pos (by omega)]
      apply Copy.Delivers.single
      · rw [Copy.covers_iff]
        simp only [Nat.sub_mul]
        refine ⟨trivial, ?_, ?_⟩
        · omega
        · omega
      · simp only
        congr 1
        omega
  | blocked =>
      obtain ⟨tiles, rfl⟩ := accepts
      have half : 64 * tiles / 2 = 32 * tiles := by omega
      have count : (64 * tiles + 63) / 64 = tiles := by omega
      have inTile : byte / 32 < tiles := by omega
      have inner : byte % 32 < 32 := Nat.mod_lt _ (by decide)
      simp only [fromRawMat, Layout.address, count, half]
      have owner : row ∈ List.range' (nBlock * (row / nBlock))
          (min n (nBlock * (row / nBlock + 1)) - nBlock * (row / nBlock)) := by
        rw [List.mem_range'_1]
        omega
      apply Copy.Delivers.flatMap List.nodup_range' owner
      · apply Copy.Delivers.range inTile
        · apply Copy.Delivers.single
          · rw [Copy.covers_iff]
            exact ⟨rfl, Nat.le_add_right _ _, Nat.add_lt_add_left inner _⟩
          · simp only [Nat.add_sub_cancel_left]
            congr 1
            omega
        · intro other _ different
          apply (Copy.Within.single rfl (Nat.le_refl _) (Nat.le_refl _)).writes_eq_zero
          intro covered
          exact different (tile_unique inRow inRow rfl inner covered.2.1 covered.2.2).2
      · intro other inRows different
        obtain ⟨above, below⟩ := List.mem_range'_1.mp inRows
        have block : other / nBlock = row / nBlock := by
          apply Nat.div_eq_of_lt_le
          · rw [Nat.mul_comm]
            exact above
          · rw [Nat.mul_comm]
            omega
        apply Copy.writes_flatMap_zero
        intro tile _
        apply (Copy.Within.single rfl (Nat.le_refl _) (Nat.le_refl _)).writes_eq_zero
        intro covered
        exact different (tile_unique inRow (by omega) block inner covered.2.1 covered.2.2).1

theorem fromRawMat_others (layout : Layout) (slot : Slot) (accepts : layout.AcceptsRow k) (source : Nat → α)
    (inRow : row < n) (inByte : byte < k / 2) (different : ith ≠ row / nBlock) :
    Copy.writes (fromRawMat layout slot n k source ith) (slot, layout.address n k row byte) = 0 := by
  have here := (fromRawMat_delivers layout slot accepts source inRow inByte).bounds
    (fromRawMat_within layout slot n accepts source _)
  apply (fromRawMat_within layout slot n accepts source ith).writes_eq_zero
  intro covered
  apply different
  obtain ⟨-, above, below⟩ := covered
  obtain ⟨-, above', below'⟩ := here
  have shares : ∀ index, nBlock * index * (k / 2) = index * (nBlock * (k / 2)) := by
    intro index
    ring
  rw [shares] at above below above' below'
  simp only at above below above' below'
  obtain ⟨offset, place⟩ := Nat.exists_eq_add_of_le above'
  rw [place] at above below below'
  rw [Nat.add_mul (row / nBlock), Nat.one_mul] at below'
  exact block_of_mem (by omega) above below

/-! ## The tables -/

theorem acceptsRow_of_accepts {layout : Layout} (accepts : layout.Accepts shape) (mat : Mat) :
    layout.AcceptsRow (shape.columns mat) := by
  cases layout with
  | linear =>
      have hidden : 2 ∣ shape.hiddenSize := shape.byte.hidden
      have part : 2 ∣ shape.partSize := shape.byte.part
      cases mat with
      | down => exact part
      | up => exact hidden
      | gate => exact hidden
  | blocked =>
      cases mat with
      | down => exact accepts.2
      | up => exact accepts.1
      | gate => exact accepts.1

/-- A byte of a slot comes from the slot's logical expert. -/
theorem loadJob_delivers {layout : Layout} (accepts : layout.Accepts shape) (map : Nat → Nat) (staged : Mat × Nat → α)
    (inSlots : slot < shape.expertNum) (inRow : row < shape.rows mat)
    (inByte : byte < shape.width shape.byte mat) :
    Copy.Delivers (loadJob shape layout map staged)
      (⟨mat, slot⟩, layout.address (shape.rows mat) (shape.columns mat) row byte)
      (staged (mat, map slot * shape.partCells shape.byte + (row * shape.width shape.byte mat + byte))) := by
  have rowAccepts := acceptsRow_of_accepts accepts mat
  have share := share_lt inRow
  have inByte' : byte < shape.columns mat / 2 := inByte
  apply Copy.Delivers.flatMap mats_nodup (mem_mats mat)
  · apply Copy.Delivers.range (pairIndex_lt inSlots share)
    · simp only [pairIndex_div slot share, pairIndex_mod slot share]
      exact fromRawMat_delivers layout ⟨mat, slot⟩ rowAccepts _ inRow inByte'
    · intro task inTasks different
      by_cases sameSlot : task / recommendedNth (shape.rows mat) = slot
      · rw [sameSlot]
        apply fromRawMat_others layout ⟨mat, slot⟩ rowAccepts _ inRow inByte'
        intro sameShare
        apply different
        rw [← Nat.div_add_mod' task (recommendedNth (shape.rows mat)), sameSlot, sameShare]
      · apply (fromRawMat_within layout _ _ rowAccepts _ _).writes_eq_zero
        intro covered
        exact sameSlot (congrArg Slot.index covered.1)
  · intro other _ different
    apply Copy.writes_flatMap_zero
    intro task _
    apply (fromRawMat_within layout _ _ (acceptsRow_of_accepts accepts other) _ _).writes_eq_zero
    intro covered
    exact different (congrArg Slot.mat covered.1)

theorem Shape.scaleCount (shape : Shape) :
    shape.hiddenSize * shape.partSize / shape.groupSize = shape.partCells shape.group := by
  rw [Nat.mul_comm, Nat.mul_div_assoc _ shape.hiddenGroups]
  rfl

/-- The scales of a slot come from the slot's logical expert. -/
theorem scaleJob_delivers {β : Type} (map : Nat → Nat) (convert : α → β) (staged : Mat × Nat → α)
    (inSlots : slot < shape.expertNum) (inside : offset < shape.partCells shape.group) :
    Copy.Delivers (scaleJob shape map convert staged) (⟨mat, slot⟩, offset)
      (convert (staged (mat, map slot * shape.partCells shape.group + offset))) := by
  simp only [scaleJob, shape.scaleCount]
  apply Copy.Delivers.range inSlots
  · apply Copy.Delivers.flatMap mats_nodup (mem_mats mat)
    · apply Copy.Delivers.single
      · rw [Copy.covers_iff]
        exact ⟨rfl, Nat.zero_le _, by rwa [Nat.zero_add]⟩
      · rfl
    · intro other _ different
      apply (Copy.Within.single rfl (Nat.le_refl _) (Nat.le_refl _)).writes_eq_zero
      intro covered
      exact different (congrArg Slot.mat covered.1)
  · intro other _ different
    apply Copy.writes_flatMap_zero
    intro otherMat _
    apply (Copy.Within.single rfl (Nat.le_refl _) (Nat.le_refl _)).writes_eq_zero
    intro covered
    exact different (congrArg Slot.index covered.1)

section

variable {B S F : Type} {layout : Layout} {convert : S → F} {bytes : Source B} {scales : Source S}
  {weights : Slot × Nat → B} {floats : Slot × Nat → F}

theorem exists_loaded [Inhabited B] [Inhabited S] [Inhabited F] (shape : Shape) (layout : Layout) (map : Nat → Nat)
    (convert : S → F) (bytes : Source B) (scales : Source S) (part : Nat) :
    ∃ weights floats, Loaded shape layout map convert bytes scales part weights floats :=
  ⟨_, _, ⟨fun _ => default, _, fun _ => default, Copy.performed_inOrder _ _, Copy.performed_inOrder _ _⟩,
    ⟨fun _ => default, _, fun _ => default, Copy.performed_inOrder _ _, Copy.performed_inOrder _ _⟩⟩

/-- A slot holds the weights of the slice of its logical expert. -/
theorem Loaded.weight (loaded : Loaded shape layout map convert bytes scales part weights floats)
    (accepts : layout.Accepts shape) (inSlots : slot < shape.expertNum) (inRow : row < shape.rows mat)
    (inByte : byte < shape.width shape.byte mat) :
    weights (⟨mat, slot⟩, layout.address (shape.rows mat) (shape.columns mat) row byte) =
      bytes.cell shape shape.byte mat (map slot) (sliceOffset shape shape.byte part mat row byte) := by
  obtain ⟨undefined, staged, blank, stageRun, loadRun⟩ := loaded.weightsRun
  rw [loadRun.delivered (loadJob_delivers accepts map staged inSlots inRow inByte)]
  exact staged_cell inSlots inRow inByte stageRun

/-- A slot holds the scales of the slice of its logical expert. -/
theorem Loaded.float (loaded : Loaded shape layout map convert bytes scales part weights floats)
    (inSlots : slot < shape.expertNum) (inRow : row < shape.rows mat)
    (inGroup : inner < shape.width shape.group mat) :
    floats (⟨mat, slot⟩, row * shape.width shape.group mat + inner) =
      convert (scales.cell shape shape.group mat (map slot) (sliceOffset shape shape.group part mat row inner)) := by
  obtain ⟨undefined, staged, blank, stageRun, scaleRun⟩ := loaded.floatsRun
  rw [scaleRun.delivered (scaleJob_delivers map convert staged inSlots (inPart inRow inGroup))]
  rw [staged_cell inSlots inRow inGroup stageRun]

end

end KtKernel.K2
