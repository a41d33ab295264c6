import KtKernel.Fp8.ExportExact

namespace KtKernel.Fp8

open KtKernel.Data
open KtKernel.Amx.ExpertFiles (Mat)
open KtKernel.K2 (Slot Target Destination)

/-! The block scales of the export: one cell for 128 rows and columns. -/

theorem divUp_blocks {count : Nat} (blocks : nBlock ∣ count) : divUp count nBlock = count / nBlock := by
  simp only [divUp, nBlock] at *
  omega

namespace Export

variable {F : Type} {call : Export F} {part : Nat} {original : Mat → Nat → F} {mat : Mat} {row column : Nat}

/-- The scales of the exported slot are the slice of an expert. -/
def FloatTable (call : Export F) (original : Mat → Nat → F) (part : Nat) (floats : Slot × Nat → F) : Prop :=
  ∀ mat row column, row < rows (call.config.hiddenSize / nBlock) (call.partSize / nBlock) mat →
    column < columns (call.config.hiddenSize / nBlock) (call.partSize / nBlock) mat →
    floats (⟨mat, call.slot⟩,
        row * columns (call.config.hiddenSize / nBlock) (call.partSize / nBlock) mat + column) =
      original mat (sliceOffset (call.config.hiddenSize / nBlock) (call.config.intermediateSize / nBlock)
        (part * call.partSize / nBlock) mat row column)

theorem FloatTable.gateUp {floats : Slot × Nat → F} (table : call.FloatTable original part floats)
    (notDown : mat ≠ .down) (inRow : row < call.partSize / nBlock)
    (inColumn : column < call.config.hiddenSize / nBlock) :
    floats (⟨mat, call.slot⟩, row * (call.config.hiddenSize / nBlock) + column) =
      original mat ((part * call.partSize / nBlock + row) * (call.config.hiddenSize / nBlock) + column) := by
  cases mat with
  | gate => exact table .gate row column inRow inColumn
  | up => exact table .up row column inRow inColumn
  | down => contradiction

theorem block_positive {count : Nat} (positive : 0 < count) (blocks : nBlock ∣ count) : 0 < count / nBlock :=
  Nat.div_pos (Nat.le_of_dvd positive blocks) (by decide)

def scaleShare (call : Export F) : Share :=
  ⟨call.gpuTpCount, call.gpuPart / nBlock, call.config.hiddenSize / nBlock, call.config.hiddenSize / nBlock,
    call.gpuPart / nBlock, block_positive call.gpuPart_positive call.block_dvd_gpuPart,
    block_positive call.hidden_positive call.hiddenBlocks,
    block_positive call.gpuPart_positive call.block_dvd_gpuPart⟩

theorem part_blocks (call : Export F) (part : Nat) :
    part * call.partSize / nBlock = part * (call.partSize / nBlock) :=
  Nat.mul_div_assoc _ call.block_dvd_part

theorem w13Scales_lays {floats : Slot × Nat → F} (table : call.FloatTable original part floats)
    (notDown : mat ≠ .down) (scaleOff : Nat) :
    Lays (call.w13Scales floats mat scaleOff part) (w13Line scaleOff call.scaleShare.half call.scaleShare.half_positive)
      (part * (call.partSize / nBlock * (call.config.hiddenSize / nBlock)))
      ((part + 1) * (call.partSize / nBlock * (call.config.hiddenSize / nBlock))) (original mat) := by
  have some_ := call.scaleShare.widthPositive
  have whole : (part + 1) * (call.partSize / nBlock * (call.config.hiddenSize / nBlock)) =
      part * (call.partSize / nBlock * (call.config.hiddenSize / nBlock)) +
        call.partSize / nBlock * (call.config.hiddenSize / nBlock) := by
    rw [Nat.add_mul, Nat.one_mul]
  simp only [w13Scales, call.group, divUp_blocks call.hiddenBlocks, divUp_blocks call.block_dvd_part,
    divUp_blocks call.block_dvd_gpuPart]
  rw [whole]
  apply Lays.range
  intro bn inRows
  have start : part * (call.partSize / nBlock * (call.config.hiddenSize / nBlock)) +
      bn * (call.config.hiddenSize / nBlock) =
      (part * call.partSize / nBlock + bn) * (call.config.hiddenSize / nBlock) := by
    rw [part_blocks]
    ring
  have stop : part * (call.partSize / nBlock * (call.config.hiddenSize / nBlock)) +
      (bn + 1) * (call.config.hiddenSize / nBlock) =
      (part * call.partSize / nBlock + bn) * (call.config.hiddenSize / nBlock) +
        call.config.hiddenSize / nBlock := by
    rw [← start]
    ring
  rw [start, stop]
  apply Lays.single
  · exact (w13Line_cell call.scaleShare.half_positive _ some_).symm
  · exact piece_fits _ call.scaleShare.rowsPositive some_ (Nat.zero_add _).le
  · rfl
  · intro inner inWidth
    exact table.gateUp notDown inRows inWidth

theorem FloatTable.down {floats : Slot × Nat → F} (table : call.FloatTable original part floats)
    (inRow : row < call.config.hiddenSize / nBlock) (inColumn : column < call.partSize / nBlock) :
    floats (⟨.down, call.slot⟩, row * (call.partSize / nBlock) + column) =
      original .down (row * (call.config.intermediateSize / nBlock) + (part * call.partSize / nBlock + column)) :=
  table .down row column inRow inColumn

def downScaleLine (call : Export F) (row : Nat) : Line Destination :=
  w2Line (row * call.scaleShare.rankWidth) call.scaleShare.rankWidth call.scaleShare.columnsPositive

theorem block_place (call : Export F) {column : Nat} (blocks : nBlock ∣ column) :
    column / nBlock / (call.gpuPart / nBlock) = column / call.gpuPart ∧
      column / nBlock % (call.gpuPart / nBlock) = column % call.gpuPart / nBlock := by
  obtain ⟨place, rfl⟩ := blocks
  have rank := Nat.div_mul_cancel call.block_dvd_gpuPart
  have some_ : 0 < nBlock := by decide
  rw [Nat.mul_div_cancel_left _ some_]
  constructor
  · rw [← rank, Nat.mul_comm (call.gpuPart / nBlock), Nat.mul_div_mul_left _ _ some_, Nat.mul_div_cancel_left _ some_]
  · rw [← rank, Nat.mul_comm (call.gpuPart / nBlock), Nat.mul_mod_mul_left, Nat.mul_div_cancel_left _ some_,
      Nat.mul_div_cancel_left _ some_]

theorem w2Scales_strips {floats : Slot × Nat → F} (table : call.FloatTable original part floats)
    (fits : call.SlicesFit part) :
    Strips (call.w2Scales floats part) (call.config.hiddenSize / nBlock) call.downScaleLine
      (fun _ => part * (call.partSize / nBlock)) (fun _ => part * (call.partSize / nBlock) + call.partSize / nBlock)
      fun row index => original .down (row * (call.config.intermediateSize / nBlock) + index) := by
  have partBlocks := call.block_dvd_part
  have rankBlocks := call.block_dvd_gpuPart
  have slices : Strips (call.w2Scales floats part) (call.config.hiddenSize / nBlock) call.downScaleLine
      (fun _ => part * (call.partSize / nBlock) + min (0 * call.gpuPart) call.partSize / nBlock)
      (fun _ => part * (call.partSize / nBlock) +
        min (divUp call.partSize call.gpuPart * call.gpuPart) call.partSize / nBlock)
      fun row index => original .down (row * (call.config.intermediateSize / nBlock) + index) := by
    simp only [w2Scales, call.group, divUp_blocks call.hiddenBlocks, divUp_blocks partBlocks, divUp_blocks rankBlocks]
    apply Strips.bounds fun slice => min (slice * call.gpuPart) call.partSize / nBlock
    · intro slice _
      apply Nat.div_le_div_right
      rw [Nat.add_mul, Nat.one_mul]
      omega
    · intro slice inSlices
      have inPart := call.slice_inPart inSlices
      have window := fits slice inPart
      have startBlocks : nBlock ∣ slice * call.gpuPart := Nat.dvd_trans rankBlocks (Nat.dvd_mul_left _ _)
      have endBlocks : nBlock ∣ min (slice * call.gpuPart + call.gpuPart) call.partSize := by
        rcases Nat.le_total (slice * call.gpuPart + call.gpuPart) call.partSize with less | more
        · rw [min_eq_left less]
          exact Nat.dvd_add startBlocks rankBlocks
        · rw [min_eq_right more]
          exact partBlocks
      have globalBlocks : nBlock ∣ part * call.partSize + slice * call.gpuPart :=
        Nat.dvd_add (Nat.dvd_trans partBlocks (Nat.dvd_mul_left _ _)) startBlocks
      have first : min (slice * call.gpuPart) call.partSize = slice * call.gpuPart := by omega
      have next : (slice + 1) * call.gpuPart = slice * call.gpuPart + call.gpuPart := by
        rw [Nat.add_mul, Nat.one_mul]
      have start : part * (call.partSize / nBlock) + slice * call.gpuPart / nBlock =
          (part * call.partSize + slice * call.gpuPart) / nBlock := by
        rw [← part_blocks]
        simp only [nBlock] at *
        omega
      obtain ⟨rank, place⟩ := call.block_place globalBlocks
      have count : slice * call.gpuPart / nBlock +
          (min (slice * call.gpuPart + call.gpuPart) call.partSize / nBlock - slice * call.gpuPart / nBlock) =
          min (slice * call.gpuPart + call.gpuPart) call.partSize / nBlock := by
        apply Nat.add_sub_cancel'
        apply Nat.div_le_div_right
        omega
      have inRank : (part * call.partSize + slice * call.gpuPart) % call.gpuPart / nBlock +
          (min (slice * call.gpuPart + call.gpuPart) call.partSize / nBlock - slice * call.gpuPart / nBlock) ≤
            call.gpuPart / nBlock := by
        simp only [nBlock] at *
        omega
      rw [next, first, divUp_blocks endBlocks]
      refine ⟨_, List.Perm.refl _, ?_⟩
      intro bn inRows
      apply Lays.single
      · rw [start]
        simp only [Line.cell, downScaleLine, w2Line, scaleShare, rank, place]
      · rw [start]
        simp only [downScaleLine, w2Line, scaleShare, place]
        exact inRank
      · rw [Nat.add_assoc, count]
      · intro inner inSlice
        have inWidth : slice * call.gpuPart / nBlock + inner < call.partSize / nBlock := by
          simp only [nBlock] at *
          omega
        have value := table.down inRows inWidth
        rw [← Nat.add_assoc, part_blocks, ← Nat.add_assoc (part * _)] at value
        exact value
  have start : min (0 * call.gpuPart) call.partSize / nBlock = 0 := by
    rw [Nat.zero_mul, Nat.zero_min, Nat.zero_div]
  simp only [start, min_eq_right call.slices_cover, Nat.add_zero] at slices
  exact slices

theorem scales_spread {floats : Nat → Slot × Nat → F}
    (tables : ∀ part < call.tpCount, call.FloatTable original part (floats part)) (linesUp : call.LinesUp) :
    ∃ gates ups downs, (call.scaleCopies floats).Perm (gates ++ ups ++ downs) ∧
      call.scaleShare.Spreads (original .gate) (original .up)
        (fun row index => original .down (row * (call.config.intermediateSize / nBlock) + index)) gates ups downs := by
  have columns : call.gpuTpCount * (call.gpuPart / nBlock) = call.tpCount * (call.partSize / nBlock) := by
    rw [← Nat.mul_div_assoc _ call.block_dvd_gpuPart, ← Nat.mul_div_assoc _ call.block_dvd_part, call.gpuPart_mul,
      call.part_mul]
  have total : call.scaleShare.ranks * call.scaleShare.half =
      0 + call.tpCount * (call.partSize / nBlock * (call.config.hiddenSize / nBlock)) := by
    change call.gpuTpCount * (call.gpuPart / nBlock * (call.config.hiddenSize / nBlock)) = _
    rw [← Nat.mul_assoc, columns, Nat.mul_assoc, Nat.zero_add]
  refine ⟨_, _, _, parts_perm call.tpCount _ _ _, ?_, ?_, ?_⟩
  · rw [total]
    apply Lays.range
    intro part inParts
    rw [Nat.zero_add, Nat.zero_add]
    exact w13Scales_lays (tables part inParts) (by decide) 0
  · rw [total]
    apply Lays.range
    intro part inParts
    rw [Nat.zero_add, Nat.zero_add, call.group, divUp_blocks call.hiddenBlocks, divUp_blocks call.block_dvd_gpuPart]
    exact w13Scales_lays (tables part inParts) (by decide) _
  · change Strips _ (call.config.hiddenSize / nBlock) call.downScaleLine (fun _ => 0)
      (fun _ => call.gpuTpCount * (call.gpuPart / nBlock)) _
    rw [columns]
    have rounds : ∀ part < call.tpCount,
        Strips (call.w2Scales (floats part) part) (call.config.hiddenSize / nBlock) call.downScaleLine
          (fun _ => 0 + part * (call.partSize / nBlock)) (fun _ => 0 + (part + 1) * (call.partSize / nBlock))
          fun row index => original .down (row * (call.config.intermediateSize / nBlock) + index) := by
      intro part inParts
      have strips := w2Scales_strips (tables part inParts) (slicesFit_of_linesUp linesUp part)
      simp only [Nat.zero_add, Nat.add_mul, Nat.one_mul]
      exact strips
    have all := Strips.bounds (fun part => part * (call.partSize / nBlock))
      (fun part _ => Nat.mul_le_mul_right _ (Nat.le_succ part)) rounds
    simp only [Nat.zero_mul, Nat.zero_add] at all
    exact all

end Export

end KtKernel.Fp8
