import KtKernel.Fp8.Rows

namespace KtKernel.Fp8

open KtKernel.Data
open KtKernel.Amx.ExpertFiles (Mat)
open KtKernel.K2 (Slot Target Destination)

/-! Rows of the expert, as lines through the buffers of the ranks. -/

/-- The rows of gate or up of all ranks, one after the other. -/
def w13Line (base width : Nat) (positive : 0 < width) : Line Destination where
  region := fun rank => ⟨rank, .w13⟩
  base := base
  width := width
  distinct := fun _ _ same => congrArg Destination.rank same
  positive := positive

/-- The columns of a row of down, rank after rank. -/
def w2Line (base width : Nat) (positive : 0 < width) : Line Destination where
  region := fun rank => ⟨rank, .w2⟩
  base := base
  width := width
  distinct := fun _ _ same => congrArg Destination.rank same
  positive := positive

theorem w13Line_cell {base rankRows width column : Nat} (positive : 0 < rankRows * width) (row : Nat)
    (inside : column < width) :
    (w13Line base (rankRows * width) positive).cell (row * width + column) =
      (⟨row / rankRows, .w13⟩, base + (row % rankRows * width + column)) := by
  simp only [Line.cell, w13Line, block_of_piece inside, offset_of_piece inside]

theorem tileSource_address {n k localN kBlockBegin kInBlock row column : Nat} (rowSteps : nStep ∣ localN)
    (blockBegin : kBlock ∣ kBlockBegin) (columnSteps : kStep ∣ kInBlock) (inBlock : kInBlock < kBlock)
    (inRows : row < 32) (inColumns : column < 32) :
    tileSource n k localN kBlockBegin kInBlock + packedPlace row column =
      address n k (localN + row) (kBlockBegin + kInBlock + column) := by
  obtain ⟨step, rfl⟩ := rowSteps
  obtain ⟨block, rfl⟩ := blockBegin
  obtain ⟨tile, rfl⟩ := columnSteps
  have tileRow : (nStep * step + row) / nStep * nStep = nStep * step := by
    simp only [nStep]
    omega
  have inTileRow : (nStep * step + row) % nStep = row := by
    simp only [nStep]
    omega
  have tileColumn : (kBlock * block + kStep * tile + column) / kStep * kStep = kBlock * block + kStep * tile := by
    simp only [kStep, kBlock]
    omega
  have inTileColumn : (kBlock * block + kStep * tile + column) % kStep = column := by
    simp only [kStep, kBlock]
    omega
  have start : (kBlock * block + kStep * tile) / kBlock * kBlock = kBlock * block := by
    simp only [kStep, kBlock] at *
    omega
  simp only [address, getSubmat, tileSource, kBlockSize, tileRow, inTileRow, tileColumn, inTileColumn, start,
    Nat.add_sub_cancel_left]

namespace Export

variable {F : Type} {call : Export F} {part : Nat}

/-! ## Sizes -/

theorem intermediate_positive (call : Export F) : 0 < call.config.intermediateSize :=
  Nat.pos_of_ne_zero (valid_sizes call.valid).2.1

theorem hidden_positive (call : Export F) : 0 < call.config.hiddenSize :=
  Nat.pos_of_ne_zero (valid_sizes call.valid).1

theorem part_mul (call : Export F) : call.tpCount * call.partSize = call.config.intermediateSize :=
  Nat.mul_div_cancel' (Nat.dvd_trans (Nat.dvd_mul_right _ _) call.partBlocks)

theorem gpuPart_mul (call : Export F) : call.gpuTpCount * call.gpuPart = call.config.intermediateSize :=
  Nat.mul_div_cancel' (Nat.dvd_trans (Nat.dvd_mul_right _ _) call.rankBlocks)

theorem part_positive (call : Export F) : 0 < call.partSize := by
  have some_ := call.intermediate_positive
  rw [← call.part_mul] at some_
  exact Nat.pos_of_mul_pos_left some_

theorem gpuPart_positive (call : Export F) : 0 < call.gpuPart := by
  have some_ := call.intermediate_positive
  rw [← call.gpuPart_mul] at some_
  exact Nat.pos_of_mul_pos_left some_

theorem block_dvd_part (call : Export F) : nBlock ∣ call.partSize :=
  (Nat.dvd_div_iff_mul_dvd (Nat.dvd_trans (Nat.dvd_mul_right _ _) call.partBlocks)).mpr call.partBlocks

theorem block_dvd_gpuPart (call : Export F) : nBlock ∣ call.gpuPart :=
  (Nat.dvd_div_iff_mul_dvd (Nat.dvd_trans (Nat.dvd_mul_right _ _) call.rankBlocks)).mpr call.rankBlocks

theorem blocks (call : Export F) : Blocks call.config (call.config.partSize call.tpCount) where
  group := call.group
  hidden := call.hiddenBlocks
  part := call.block_dvd_part

/-! ## Gate and up -/

def Table (call : Export F) (original : Mat → Nat → UInt8) (part : Nat) (weights : Slot × Nat → UInt8) : Prop :=
  ∀ mat row column, row < rows call.config.hiddenSize call.partSize mat →
    column < columns call.config.hiddenSize call.partSize mat →
    weights (⟨mat, call.slot⟩, address (rows call.config.hiddenSize call.partSize mat)
        (columns call.config.hiddenSize call.partSize mat) row column) =
      original mat (sliceOffset call.config.hiddenSize call.config.intermediateSize (part * call.partSize) mat row column)

section

variable {weights : Slot × Nat → UInt8} {original : Mat → Nat → UInt8} {mat : Mat} {row column localN : Nat}

theorem Table.gateUp (table : call.Table original part weights) (notDown : mat ≠ .down) (inRow : row < call.partSize)
    (inColumn : column < call.config.hiddenSize) :
    weights (⟨mat, call.slot⟩, address call.partSize call.config.hiddenSize row column) =
      original mat ((part * call.partSize + row) * call.config.hiddenSize + column) := by
  cases mat with
  | gate => exact table .gate row column inRow inColumn
  | up => exact table .up row column inRow inColumn
  | down => contradiction

theorem half_positive (call : Export F) : 0 < call.gpuPart * call.config.hiddenSize :=
  Nat.mul_pos call.gpuPart_positive call.hidden_positive

theorem step_rows (call : Export F) {globalN row : Nat} (rowSteps : nStep ∣ globalN) (inRows : row < 32) :
    (globalN + row) / call.gpuPart = globalN / call.gpuPart ∧
      (globalN + row) % call.gpuPart = globalN % call.gpuPart + row := by
  have rankSteps : nStep ∣ call.gpuPart := Nat.dvd_trans (by decide) call.block_dvd_gpuPart
  have offsetSteps : nStep ∣ globalN % call.gpuPart := (Nat.dvd_mod_iff rankSteps).mpr rowSteps
  have small := Nat.mod_lt globalN call.gpuPart_positive
  have split := Nat.div_add_mod' globalN call.gpuPart
  have inRank : globalN % call.gpuPart + row < call.gpuPart := by
    simp only [nStep] at *
    omega
  have place : globalN + row = globalN / call.gpuPart * call.gpuPart + (globalN % call.gpuPart + row) := by omega
  rw [place]
  exact ⟨pairIndex_div _ inRank, pairIndex_mod _ inRank⟩

theorem w13Quad_strips (table : call.Table original part weights) (notDown : mat ≠ .down) (weightOff : Nat)
    {kBlockBegin kBegin : Nat} (rowSteps : nStep ∣ localN) (inPart : localN + 32 ≤ call.partSize)
    (blockBegin : kBlock ∣ kBlockBegin) (columnSteps : kStep ∣ kBegin) (inBlock : kBegin + 128 ≤ kBlock)
    (inColumns : kBlockBegin + kBegin + 128 ≤ call.config.hiddenSize) :
    Strips (unpack4nkBlocks (fun tile offset => weights (⟨mat, call.slot⟩,
          tileSource call.partSize call.config.hiddenSize localN kBlockBegin (kBegin + tile * kStep) + offset))
        (Destination.mk ((part * call.partSize + localN) / call.gpuPart) .w13)
        (weightOff + (part * call.partSize + localN) % call.gpuPart * call.config.hiddenSize + kBlockBegin + kBegin)
        call.config.hiddenSize) 32
      (fun _ => w13Line weightOff (call.gpuPart * call.config.hiddenSize) call.half_positive)
      (fun row => (part * call.partSize + localN + row) * call.config.hiddenSize + (kBlockBegin + kBegin))
      (fun row => (part * call.partSize + localN + row) * call.config.hiddenSize + (kBlockBegin + kBegin) + 128)
      fun _ => original mat := by
  have globalSteps : nStep ∣ part * call.partSize + localN :=
    Nat.dvd_add (Nat.dvd_trans (Nat.dvd_trans (by decide) call.block_dvd_part) (Nat.dvd_mul_left _ _)) rowSteps
  have inRow : kBlockBegin + kBegin < call.config.hiddenSize := by omega
  have cell : ∀ row < 32,
      (w13Line weightOff (call.gpuPart * call.config.hiddenSize) call.half_positive).cell
        ((part * call.partSize + localN + row) * call.config.hiddenSize + (kBlockBegin + kBegin)) =
      (⟨(part * call.partSize + localN) / call.gpuPart, .w13⟩, weightOff +
        (((part * call.partSize + localN) % call.gpuPart + row) * call.config.hiddenSize + (kBlockBegin + kBegin))) := by
    intro row inRows
    obtain ⟨rank, place⟩ := call.step_rows globalSteps inRows
    rw [w13Line_cell call.half_positive _ inRow, rank, place]
  apply unpack4nkBlocks_strips
  · intro row inRows
    rw [cell row inRows, Nat.add_mul]
    congr 1
    omega
  · intro row inRows
    exact piece_fits _ call.gpuPart_positive inRow inColumns
  · intro row inRows tile inTiles column inColumn
    have tileSteps : kStep ∣ kBegin + tile * kStep := Nat.dvd_add columnSteps (Nat.dvd_mul_left _ _)
    have inside : kBegin + tile * kStep < kBlock := by
      simp only [kStep] at *
      omega
    have inHidden : kBlockBegin + (kBegin + tile * kStep) + column < call.config.hiddenSize := by
      simp only [kStep] at *
      omega
    rw [tileSource_address rowSteps blockBegin tileSteps inside inRows inColumn,
      table.gateUp notDown (by omega) inHidden, ← Nat.add_assoc (part * call.partSize)]
    congr 1
    simp only [kStep]
    omega

/-- A row step writes its rows from the first column to the last. -/
theorem w13Step_strips (table : call.Table original part weights) (notDown : mat ≠ .down) (weightOff : Nat)
    (rowSteps : nStep ∣ localN) (inPart : localN + 32 ≤ call.partSize) :
    Strips (call.w13Step weights mat weightOff part localN) 32
      (fun _ => w13Line weightOff (call.gpuPart * call.config.hiddenSize) call.half_positive)
      (fun row => (part * call.partSize + localN + row) * call.config.hiddenSize)
      (fun row => (part * call.partSize + localN + row) * call.config.hiddenSize + call.config.hiddenSize)
      fun _ => original mat := by
  have hiddenBlocks := call.hiddenBlocks
  have blocks : Strips (call.w13Step weights mat weightOff part localN) 32
      (fun _ => w13Line weightOff (call.gpuPart * call.config.hiddenSize) call.half_positive)
      (fun row => (part * call.partSize + localN + row) * call.config.hiddenSize + min (0 * kBlock) call.config.hiddenSize)
      (fun row => (part * call.partSize + localN + row) * call.config.hiddenSize +
        min (divUp call.config.hiddenSize kBlock * kBlock) call.config.hiddenSize) fun _ => original mat := by
    simp only [w13Step, steps, List.flatMap_map]
    apply Strips.bounds fun block => min (block * kBlock) call.config.hiddenSize
    · intro block _
      simp only [kBlock]
      omega
    · intro block inBlocks
      -- Blocks of columns are whole quads, so no tile is left over.
      have inHidden : block * kBlock < call.config.hiddenSize := by
        simp only [divUp, kBlock] at *
        omega
      have quads : min kBlock (call.config.hiddenSize - block * kBlock) / 128 * 128 =
          min kBlock (call.config.hiddenSize - block * kBlock) := by
        simp only [kBlock, nBlock] at *
        omega
      have none : divUp (min kBlock (call.config.hiddenSize - block * kBlock) -
          min kBlock (call.config.hiddenSize - block * kBlock) / 128 * 128) kStep = 0 := by
        rw [quads, Nat.sub_self]
        rfl
      have first : min (block * kBlock) call.config.hiddenSize = block * kBlock + 0 * 128 := by omega
      have last : min ((block + 1) * kBlock) call.config.hiddenSize =
          block * kBlock + min kBlock (call.config.hiddenSize - block * kBlock) / 128 * 128 := by
        rw [quads, Nat.add_mul, Nat.one_mul]
        omega
      have four : 4 * kStep = 128 := rfl
      rw [four, none, List.range_zero, List.flatMap_nil, List.append_nil, first, last]
      apply Strips.bounds fun quad => block * kBlock + quad * 128
      · intro quad _
        omega
      · intro quad inQuads
        have inBlock : quad * 128 + 128 ≤ min kBlock (call.config.hiddenSize - block * kBlock) := by omega
        have strips := w13Quad_strips table notDown weightOff rowSteps inPart (Nat.dvd_mul_left kBlock block)
          (Nat.dvd_trans (show kStep ∣ 128 by decide) (Nat.dvd_mul_left 128 quad)) (by omega) (by omega)
        simp only [Nat.add_mul quad 1 128, Nat.one_mul, ← Nat.add_assoc] at strips ⊢
        exact strips
  have start : min (0 * kBlock) call.config.hiddenSize = 0 := by omega
  have stop : min (divUp call.config.hiddenSize kBlock * kBlock) call.config.hiddenSize = call.config.hiddenSize := by
    simp only [divUp, kBlock]
    omega
  rw [start, stop] at blocks
  exact blocks

/-- The tasks together go through all row steps. -/
theorem taskSteps_eq {α : Type} (rows : Nat) (body : Nat → List α) :
    taskSteps rows body = (List.range (divUp rows nStep)).flatMap fun step => body (step * nStep) := by
  apply flatMap_tasks
  simp only [divUp, numTasks]
  omega

/-- A part writes its rows of gate or up. -/
theorem w13Weights_lays (table : call.Table original part weights) (notDown : mat ≠ .down) (weightOff : Nat) :
    Lays (call.w13Weights weights mat weightOff part)
      (w13Line weightOff (call.gpuPart * call.config.hiddenSize) call.half_positive)
      (part * (call.partSize * call.config.hiddenSize)) ((part + 1) * (call.partSize * call.config.hiddenSize))
      (original mat) := by
  have partBlocks := call.block_dvd_part
  have count : divUp call.partSize nStep * nStep = call.partSize := by
    simp only [divUp, nStep, nBlock] at *
    omega
  have whole : (part + 1) * (call.partSize * call.config.hiddenSize) =
      part * (call.partSize * call.config.hiddenSize) +
        divUp call.partSize nStep * (nStep * call.config.hiddenSize) := by
    rw [← Nat.mul_assoc (divUp call.partSize nStep), count, Nat.add_mul, Nat.one_mul]
  rw [w13Weights, taskSteps_eq, whole]
  apply Lays.range
  intro step inSteps
  have inPart : step * nStep + 32 ≤ call.partSize := by
    have more : (step + 1) * nStep ≤ divUp call.partSize nStep * nStep := Nat.mul_le_mul_right _ inSteps
    rw [count, Nat.add_mul, Nat.one_mul] at more
    exact more
  have strips := w13Step_strips table notDown weightOff (Nat.dvd_mul_left nStep step) inPart
  have start : part * (call.partSize * call.config.hiddenSize) + step * (nStep * call.config.hiddenSize) =
      (part * call.partSize + step * nStep) * call.config.hiddenSize := by ring
  have stop : part * (call.partSize * call.config.hiddenSize) + (step + 1) * (nStep * call.config.hiddenSize) =
      (part * call.partSize + step * nStep) * call.config.hiddenSize + 32 * call.config.hiddenSize := by
    simp only [nStep]
    ring
  have firsts : (fun row => (part * call.partSize + step * nStep + row) * call.config.hiddenSize) =
      fun row => (part * call.partSize + step * nStep) * call.config.hiddenSize + row * call.config.hiddenSize := by
    funext row
    rw [Nat.add_mul]
  have lasts : (fun row => (part * call.partSize + step * nStep + row) * call.config.hiddenSize +
      call.config.hiddenSize) = fun row => (part * call.partSize + step * nStep) * call.config.hiddenSize +
        (row + 1) * call.config.hiddenSize := by
    funext row
    ring
  rw [firsts, lasts] at strips
  rw [start, stop]
  exact strips.lays

theorem Table.down (table : call.Table original part weights) (inRow : row < call.config.hiddenSize)
    (inColumn : column < call.partSize) :
    weights (⟨.down, call.slot⟩, address call.config.hiddenSize call.partSize row column) =
      original .down (row * call.config.intermediateSize + (part * call.partSize + column)) :=
  table .down row column inRow inColumn

/-- The columns of a row of down, through the ranks. -/
def downLine (call : Export F) (row : Nat) : Line Destination :=
  w2Line (row * call.gpuPart) call.gpuPart call.gpuPart_positive

theorem w2Quad_strips (table : call.Table original part weights) (sliceStart kBlockBegin kBegin kAbs : Nat)
    (rowSteps : nStep ∣ localN) (inRows : localN + 32 ≤ call.config.hiddenSize) (blockBegin : kBlock ∣ kBlockBegin)
    (columnSteps : kStep ∣ kBegin) (inBlock : kBegin + 128 ≤ kBlock) (place : kAbs = kBlockBegin + kBegin)
    (inColumns : kAbs + 128 ≤ call.partSize) (inSlice : sliceStart ≤ kAbs)
    (window : (part * call.partSize + sliceStart) % call.gpuPart + (kAbs + 128 - sliceStart) ≤ call.gpuPart) :
    Strips (unpack4nkBlocks (fun tile offset => weights (⟨.down, call.slot⟩,
          tileSource call.config.hiddenSize call.partSize localN kBlockBegin (kBegin + tile * kStep) + offset))
        (Destination.mk ((part * call.partSize + sliceStart) / call.gpuPart) .w2)
        (localN * call.gpuPart + ((part * call.partSize + sliceStart) % call.gpuPart + (kAbs - sliceStart)))
        call.gpuPart) 32
      (fun row => call.downLine (localN + row)) (fun _ => part * call.partSize + kAbs)
      (fun _ => part * call.partSize + kAbs + 128)
      fun row index => original .down ((localN + row) * call.config.intermediateSize + index) := by
  have split : part * call.partSize + kAbs = part * call.partSize + sliceStart + (kAbs - sliceStart) := by omega
  have inWindow : (part * call.partSize + sliceStart) % call.gpuPart + (kAbs - sliceStart) < call.gpuPart := by omega
  have offset : (part * call.partSize + kAbs) % call.gpuPart =
      (part * call.partSize + sliceStart) % call.gpuPart + (kAbs - sliceStart) := by
    rw [split, Nat.add_mod, Nat.mod_eq_of_lt (show kAbs - sliceStart < call.gpuPart by omega), Nat.mod_eq_of_lt inWindow]
  apply unpack4nkBlocks_strips
  · intro row _
    rw [split]
    rw [Line.cell_add (call.downLine (localN + row)) inWindow]
    simp only [Line.cell, downLine, w2Line, Nat.add_mul]
    congr 1
    omega
  · intro row _
    change (part * call.partSize + kAbs) % call.gpuPart + 128 ≤ call.gpuPart
    omega
  · intro row inStep tile inTiles column inColumn
    have tileSteps : kStep ∣ kBegin + tile * kStep := Nat.dvd_add columnSteps (Nat.dvd_mul_left _ _)
    have inside : kBegin + tile * kStep < kBlock := by
      simp only [kStep] at *
      omega
    have inPart : kBlockBegin + (kBegin + tile * kStep) + column < call.partSize := by
      simp only [kStep] at *
      omega
    rw [tileSource_address rowSteps blockBegin tileSteps inside inStep inColumn, table.down (by omega) inPart]
    congr 1
    simp only [kStep, place]
    omega

/-- A slice that stays in one rank. -/
theorem w2Tiles_strips (table : call.Table original part weights) {sliceStart sliceEnd : Nat}
    (rowSteps : nStep ∣ localN) (inRows : localN + 32 ≤ call.config.hiddenSize) (endBlocks : nBlock ∣ sliceEnd)
    (inPart : sliceEnd ≤ call.partSize)
    (window : (part * call.partSize + sliceStart) % call.gpuPart + (sliceEnd - sliceStart) ≤ call.gpuPart)
    (rounds kAbs : Nat) (blocks : nBlock ∣ kAbs) (inSlice : sliceStart ≤ kAbs) (before : kAbs ≤ sliceEnd)
    (enough : sliceEnd ≤ kAbs + rounds) :
    Strips (call.w2Tiles weights ⟨(part * call.partSize + sliceStart) / call.gpuPart, .w2⟩ localN
        ((part * call.partSize + sliceStart) % call.gpuPart) sliceStart sliceEnd rounds kAbs) 32
      (fun row => call.downLine (localN + row)) (fun _ => part * call.partSize + kAbs)
      (fun _ => part * call.partSize + sliceEnd)
      fun row index => original .down ((localN + row) * call.config.intermediateSize + index) := by
  induction rounds generalizing kAbs with
  | zero =>
      have done : kAbs = sliceEnd := by omega
      subst done
      exact Strips.nil 32 _ _ _
  | succ rounds induction =>
      by_cases some_ : kAbs < sliceEnd
      · have partBlocks := call.block_dvd_part
        have left : kAbs + 128 ≤ sliceEnd := by
          simp only [nBlock] at *
          omega
        have quad : min kBlock (call.partSize - kAbs / kBlock * kBlock) - (kAbs - kAbs / kBlock * kBlock) ≥ 4 * kStep ∧
            sliceEnd - kAbs ≥ 4 * kStep := by
          simp only [kBlock, kStep, nBlock] at *
          omega
        have step : kAbs + 4 * kStep = kAbs + 128 := rfl
        have tiles : kStep ∣ kAbs - kAbs / kBlock * kBlock ∧ kAbs - kAbs / kBlock * kBlock + 128 ≤ kBlock ∧
            kAbs = kAbs / kBlock * kBlock + (kAbs - kAbs / kBlock * kBlock) ∧ nBlock ∣ kAbs + 128 := by
          simp only [kStep, kBlock, nBlock] at *
          omega
        obtain ⟨columnSteps, inBlock, place, next⟩ := tiles
        have here := w2Quad_strips table sliceStart (kAbs / kBlock * kBlock) (kAbs - kAbs / kBlock * kBlock) kAbs
          rowSteps inRows (Nat.dvd_mul_left kBlock (kAbs / kBlock)) columnSteps inBlock place (by omega) inSlice
          (by omega)
        have later := induction (kAbs + 128) next (by omega) left (by omega)
        rw [w2Tiles, if_pos some_, if_pos quad, step]
        apply here.append later
        · intro row _
          omega
        · intro row _
          omega
      · have done : kAbs = sliceEnd := by omega
        subst done
        rw [w2Tiles, if_neg some_]
        exact Strips.nil 32 _ _ _

end

end Export

end KtKernel.Fp8
