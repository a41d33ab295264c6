import KtKernel.Fp8.ScalesExact

namespace KtKernel.Fp8

open KtKernel.Data
open KtKernel.Amx.ExpertFiles (Mat)
open KtKernel.K2 (Slot Target Destination)

/-! The export after the load: the identity re-sharding if and only if parts and
ranks line up. -/

section

variable {ρ α : Type} [DecidableEq ρ] {row : Nat}

theorem unpack4nkBlocks_writes (sources : Nat → Nat → α) (rank : ρ) (start stride : Nat) (inRows : row < 32) :
    0 < Copy.writes (unpack4nkBlocks sources rank start stride) (rank, start + row * stride) := by
  rw [Copy.writes_perm (unpack4nkBlocks_perm sources rank start stride)]
  apply Copy.writes_pos (List.mem_flatMap_of_mem (List.mem_range.mpr inRows)
    (List.mem_flatMap_of_mem (List.mem_range.mpr (show 0 < 4 by decide)) (List.mem_singleton_self _)))
  rw [Copy.covers_iff]
  refine ⟨rfl, Nat.le_refl _, ?_⟩
  simp only
  omega

end

/-! ## Slices that cross the end of a rank -/

namespace Export

variable {F : Type} {part row place : Nat}

/-- A slice writes the first column of every quad, also past the end of a row. -/
theorem w2Tiles_writes (call : Export F) (weights : Slot × Nat → UInt8) (rank : Destination)
    (localN kInGpuBase sliceStart : Nat) {sliceEnd : Nat} (endBlocks : nBlock ∣ sliceEnd) (inPart : sliceEnd ≤ call.partSize) (inRows : row < 32) (placeBlocks : nBlock ∣ place)
    (inSlice : place < sliceEnd) (rounds kAbs : Nat) (blocks : nBlock ∣ kAbs) (before : kAbs ≤ place)
    (enough : sliceEnd ≤ kAbs + rounds) :
    0 < Copy.writes (call.w2Tiles weights rank localN kInGpuBase sliceStart sliceEnd rounds kAbs)
      (rank, localN * call.gpuPart + (kInGpuBase + (place - sliceStart)) + row * call.gpuPart) := by
  induction rounds generalizing kAbs with
  | zero => omega
  | succ rounds induction =>
      have some_ : kAbs < sliceEnd := by omega
      have partBlocks := call.block_dvd_part
      have quad : min kBlock (call.partSize - kAbs / kBlock * kBlock) - (kAbs - kAbs / kBlock * kBlock) ≥ 4 * kStep ∧
          sliceEnd - kAbs ≥ 4 * kStep := by
        simp only [kBlock, kStep, nBlock] at *
        omega
      rw [w2Tiles, if_pos some_, if_pos quad, Copy.writes_append]
      by_cases here : kAbs = place
      · subst here
        exact Nat.add_pos_left (unpack4nkBlocks_writes _ rank _ call.gpuPart inRows) _
      · have step : kAbs + 4 * kStep ≤ place ∧ nBlock ∣ kAbs + 4 * kStep := by
          simp only [kStep, nBlock] at *
          omega
        apply Nat.add_pos_right
        apply induction (kAbs + 4 * kStep) step.2 step.1
        simp only [kStep]
        omega

theorem partWeights_writes (call : Export F) (weights : Slot × Nat → UInt8) (part slice row place : Nat)
    (inPart : slice * call.gpuPart < call.partSize) (inRows : row < 32) (placeBlocks : nBlock ∣ place)
    (above : slice * call.gpuPart ≤ place) (below : place < min (slice * call.gpuPart + call.gpuPart) call.partSize) :
    0 < Copy.writes (call.partWeights weights part)
      (⟨(part * call.partSize + slice * call.gpuPart) / call.gpuPart, .w2⟩,
        (part * call.partSize + slice * call.gpuPart) % call.gpuPart + (place - slice * call.gpuPart) +
          row * call.gpuPart) := by
  have startBlocks : nBlock ∣ slice * call.gpuPart := Nat.dvd_trans call.block_dvd_gpuPart (Nat.dvd_mul_left _ _)
  have endBlocks : nBlock ∣ min (slice * call.gpuPart + call.gpuPart) call.partSize := by
    rcases Nat.le_total (slice * call.gpuPart + call.gpuPart) call.partSize with less | more
    · rw [min_eq_left less]
      exact Nat.dvd_add startBlocks call.block_dvd_gpuPart
    · rw [min_eq_right more]
      exact call.block_dvd_part
  have inSlices : slice < divUp call.partSize call.gpuPart := by
    have positive := call.gpuPart_positive
    by_contra past
    have more : divUp call.partSize call.gpuPart * call.gpuPart ≤ slice * call.gpuPart :=
      Nat.mul_le_mul_right _ (by omega)
    have covers := call.slices_cover
    omega
  have firstStep : 0 < divUp call.config.hiddenSize nStep := by
    have some_ := call.hidden_positive
    simp only [divUp, nStep]
    omega
  have tiles := call.w2Tiles_writes weights
    ⟨(part * call.partSize + slice * call.gpuPart) / call.gpuPart, .w2⟩ 0
    ((part * call.partSize + slice * call.gpuPart) % call.gpuPart) (slice * call.gpuPart)
    endBlocks (min_le_right _ _) inRows placeBlocks below call.partSize (slice * call.gpuPart) startBlocks above
    (by omega)
  rw [Nat.zero_mul, Nat.zero_add] at tiles
  rw [partWeights, Copy.writes_append, taskSteps_eq]
  apply Nat.add_pos_right
  apply Nat.lt_of_lt_of_le _ (Copy.writes_flatMap_ge _ _ (List.mem_range.mpr firstStep))
  apply Nat.lt_of_lt_of_le _ (Copy.writes_flatMap_ge _ _ (List.mem_range.mpr inSlices))
  rw [Nat.zero_mul]
  exact tiles

/-- A part whose first slice crosses the end of a rank writes the start of the second
row of down, which belongs to the first part. -/
theorem crossing_twice (call : Export F) (weights : Nat → Slot × Nat → UInt8) (part : Nat) (inParts : part < call.tpCount) (later : part ≠ 0)
    (crosses : call.gpuPart - part * call.partSize % call.gpuPart < min call.gpuPart call.partSize)
    (first : part * call.partSize / call.gpuPart * call.gpuPart < call.partSize) :
    1 < Copy.writes (call.weightCopies weights) (⟨part * call.partSize / call.gpuPart, .w2⟩, call.gpuPart) := by
  have rankPositive := call.gpuPart_positive
  have small := Nat.mod_lt (part * call.partSize) rankPositive
  have offsetBlocks : nBlock ∣ call.gpuPart - part * call.partSize % call.gpuPart :=
    Nat.dvd_sub call.block_dvd_gpuPart ((Nat.dvd_mod_iff call.block_dvd_gpuPart).mpr
      (Nat.dvd_trans call.block_dvd_part (Nat.dvd_mul_left _ _)))
  have some_ : 0 * call.gpuPart < call.partSize := by
    rw [Nat.zero_mul]
    exact call.part_positive
  have rowEnd := call.partWeights_writes (weights part) part 0 0 (call.gpuPart - part * call.partSize % call.gpuPart)
    some_ (by decide) offsetBlocks (by omega) (by rwa [Nat.zero_mul, Nat.zero_add])
  have rowStart := call.partWeights_writes (weights 0) 0 (part * call.partSize / call.gpuPart) 1
    (part * call.partSize / call.gpuPart * call.gpuPart) first (by decide)
    (Nat.dvd_trans call.block_dvd_gpuPart (Nat.dvd_mul_left _ _)) (Nat.le_refl _) (by omega)
  rw [Nat.zero_mul, Nat.add_zero, Nat.sub_zero, Nat.add_zero,
    Nat.add_sub_cancel' (Nat.le_of_lt small)] at rowEnd
  rw [Nat.zero_mul, Nat.zero_add, Nat.mul_div_cancel _ rankPositive, Nat.mul_mod_left, Nat.sub_self, Nat.add_zero,
    Nat.zero_add, Nat.one_mul] at rowStart
  exact Copy.writes_flatMap_two (List.mem_range.mpr inParts) (List.mem_range.mpr (by omega)) later rowEnd rowStart

end Export

def Loads {F : Type} [Inhabited F] (call : Export F) (map : Nat → Nat) (weights : Nat → Slot × Nat → UInt8)
    (floats : Nat → Slot × Nat → F) : Prop :=
  ∀ part < call.tpCount, Loaded call.config call.tpCount map part (weights part) (floats part)

namespace Export

variable {F : Type} [Inhabited F] {call : Export F} {map : Nat → Nat} {weights : Nat → Slot × Nat → UInt8}
  {floats : Nat → Slot × Nat → F}

/-- Rank `rank` gets the gate rows, the up rows and the down columns from
`rank * gpuPart` on, weights and block scales.  Every cell of the buffers is written
once, and no other memory is. -/
structure Resharded (call : Export F) (map : Nat → Nat) (weights : Nat → Slot × Nat → UInt8)
    (floats : Nat → Slot × Nat → F) : Prop where
  weightsOnce : ∀ rank target offset, Copy.writes (call.weightCopies weights) (⟨rank, target⟩, offset) =
    if rank < call.gpuTpCount ∧ offset < call.weightShare.cells target then 1 else 0
  scalesOnce : ∀ rank target offset, Copy.writes (call.scaleCopies floats) (⟨rank, target⟩, offset) =
    if rank < call.gpuTpCount ∧ offset < call.scaleShare.cells target then 1 else 0
  gateUp : ∀ before after, Copy.Performed (call.weightCopies weights) before after →
    ∀ rank < call.gpuTpCount, ∀ row < call.gpuPart, ∀ column < call.config.hiddenSize,
      after (⟨rank, .w13⟩, row * call.config.hiddenSize + column) =
          call.config.weight .gate (map call.slot)
            ((rank * call.gpuPart + row) * call.config.hiddenSize + column) ∧
        after (⟨rank, .w13⟩, (call.gpuPart + row) * call.config.hiddenSize + column) =
          call.config.weight .up (map call.slot)
            ((rank * call.gpuPart + row) * call.config.hiddenSize + column)
  down : ∀ before after, Copy.Performed (call.weightCopies weights) before after →
    ∀ rank < call.gpuTpCount, ∀ row < call.config.hiddenSize, ∀ column < call.gpuPart,
      after (⟨rank, .w2⟩, row * call.gpuPart + column) =
        call.config.weight .down (map call.slot)
          (row * call.config.intermediateSize + (rank * call.gpuPart + column))
  gateUpScales : ∀ before after, Copy.Performed (call.scaleCopies floats) before after →
    ∀ rank < call.gpuTpCount, ∀ row < call.gpuPart / nBlock, ∀ column < call.config.hiddenSize / nBlock,
      after (⟨rank, .w13⟩, row * (call.config.hiddenSize / nBlock) + column) =
          call.config.scale .gate (map call.slot)
            ((rank * (call.gpuPart / nBlock) + row) * (call.config.hiddenSize / nBlock) + column) ∧
        after (⟨rank, .w13⟩, (call.gpuPart / nBlock + row) * (call.config.hiddenSize / nBlock) + column) =
          call.config.scale .up (map call.slot)
            ((rank * (call.gpuPart / nBlock) + row) * (call.config.hiddenSize / nBlock) + column)
  downScales : ∀ before after, Copy.Performed (call.scaleCopies floats) before after →
    ∀ rank < call.gpuTpCount, ∀ row < call.config.hiddenSize / nBlock, ∀ column < call.gpuPart / nBlock,
      after (⟨rank, .w2⟩, row * (call.gpuPart / nBlock) + column) =
        call.config.scale .down (map call.slot)
          (row * (call.config.intermediateSize / nBlock) + (rank * (call.gpuPart / nBlock) + column))

theorem table_of_loads (loads : Loads call map weights floats) {part : Nat} (inParts : part < call.tpCount) :
    call.Table (fun mat => call.config.weight mat (map call.slot)) part (weights part) := by
  intro mat row column inRow inColumn
  exact (loads part inParts).weight call.blocks call.inSlots inRow inColumn

theorem floatTable_of_loads (loads : Loads call map weights floats) {part : Nat} (inParts : part < call.tpCount) :
    call.FloatTable (fun mat => call.config.scale mat (map call.slot)) part (floats part) := by
  intro mat row column inRow inColumn
  exact (loads part inParts).float call.blocks call.inSlots inRow inColumn

section

variable {α : Type} {share : Share} {gate up : Nat → α} {down : Nat → Nat → α} {copies gates ups downs : List (Copy Destination α)}
  {before after : Destination × Nat → α} {rank row column : Nat}

theorem gate_up_cells (spreads : share.Spreads gate up down gates ups downs) (same : copies.Perm (gates ++ ups ++ downs))
    (performed : Copy.Performed copies before after) (inRanks : rank < share.ranks) (inRow : row < share.rankRows)
    (inColumn : column < share.width) :
    after (⟨rank, .w13⟩, row * share.width + column) = gate ((rank * share.rankRows + row) * share.width + column) ∧
      after (⟨rank, .w13⟩, (share.rankRows + row) * share.width + column) =
        up ((rank * share.rankRows + row) * share.width + column) := by
  have inside : row * share.width + column < share.half := by
    rw [Share.half, Nat.mul_comm share.rankRows]
    exact pairIndex_lt inRow inColumn
  have place : rank * share.half + (row * share.width + column) =
      (rank * share.rankRows + row) * share.width + column := by
    rw [Share.half]
    ring
  have second : (share.rankRows + row) * share.width + column = share.half + (row * share.width + column) := by
    rw [Share.half]
    ring
  rw [second, ← place]
  exact ⟨performed.delivered ((spreads.gate_delivers inRanks inside).perm same),
    performed.delivered ((spreads.up_delivers inRanks inside).perm same)⟩

end

theorem resharded_of_linesUp (loads : Loads call map weights floats) (linesUp : call.LinesUp) :
    call.Resharded map weights floats := by
  obtain ⟨gates, ups, downs, same, spreads⟩ :=
    weights_spread (fun part inParts => table_of_loads loads inParts) linesUp
  obtain ⟨scaleGates, scaleUps, scaleDowns, scalesSame, scalesSpread⟩ :=
    scales_spread (fun part inParts => floatTable_of_loads loads inParts) linesUp
  constructor
  · intro rank target offset
    rw [Copy.writes_perm same]
    exact spreads.writes rank target offset
  · intro rank target offset
    rw [Copy.writes_perm scalesSame]
    exact scalesSpread.writes rank target offset
  · intro before after performed rank inRanks row inRow column inColumn
    exact gate_up_cells spreads same performed inRanks inRow inColumn
  · intro before after performed rank inRanks row inRow column inColumn
    exact performed.delivered ((spreads.down_delivers inRanks inRow inColumn).perm same)
  · intro before after performed rank inRanks row inRow column inColumn
    exact gate_up_cells scalesSpread scalesSame performed inRanks inRow inColumn
  · intro before after performed rank inRanks row inRow column inColumn
    exact performed.delivered ((scalesSpread.down_delivers inRanks inRow inColumn).perm scalesSame)

theorem linesUp_of_resharded (resharded : call.Resharded map weights floats) : call.LinesUp := by
  by_contra apart
  rw [LinesUp, not_or] at apart
  obtain ⟨notParts, notRanks⟩ := apart
  have partPositive := call.part_positive
  have rankPositive := call.gpuPart_positive
  have both := call.part_mul.trans call.gpuPart_mul.symm
  have someParts : call.tpCount ≠ 0 := by
    intro none
    have some_ := call.intermediate_positive
    rw [← call.part_mul, none, Nat.zero_mul] at some_
    contradiction
  have someRanks : call.gpuTpCount ≠ 0 := by
    intro none
    have some_ := call.intermediate_positive
    rw [← call.gpuPart_mul, none, Nat.zero_mul] at some_
    contradiction
  have conflict : ∀ part < call.tpCount, part ≠ 0 →
      call.gpuPart - part * call.partSize % call.gpuPart < min call.gpuPart call.partSize →
      ¬ part * call.partSize / call.gpuPart * call.gpuPart < call.partSize := by
    intro part inParts later crosses first
    have twice := call.crossing_twice weights part inParts later crosses first
    rw [resharded.weightsOnce] at twice
    split at twice <;> omega
  by_cases narrow : call.partSize ≤ call.gpuPart
  · -- The first rank ends inside of a part.
    have uneven : ¬ call.partSize ∣ call.gpuPart := by
      rintro ⟨ratio, width⟩
      apply notParts
      refine ⟨ratio, ?_⟩
      rw [width, Nat.mul_left_comm, Nat.mul_comm] at both
      exact Nat.eq_of_mul_eq_mul_left partPositive both
    have rest : call.gpuPart % call.partSize ≠ 0 := fun zero => uneven (Nat.dvd_of_mod_eq_zero zero)
    have split := Nat.div_add_mod' call.gpuPart call.partSize
    have small := Nat.mod_lt call.gpuPart partPositive
    have some_ : 1 ≤ call.gpuPart / call.partSize := Nat.div_pos narrow partPositive
    have before : call.gpuPart / call.partSize * call.partSize < call.gpuPart := by omega
    have inParts : call.gpuPart / call.partSize < call.tpCount := by
      apply Nat.lt_of_mul_lt_mul_right (a := call.partSize)
      apply before.trans_le
      rw [both]
      exact Nat.le_mul_of_pos_left _ (Nat.pos_of_ne_zero someRanks)
    apply conflict (call.gpuPart / call.partSize) inParts (by omega)
    · rw [Nat.mod_eq_of_lt before]
      omega
    · rw [Nat.div_eq_of_lt before, Nat.zero_mul]
      exact partPositive
  · -- The second part starts inside of a rank.
    have uneven : ¬ call.gpuPart ∣ call.partSize := by
      rintro ⟨ratio, width⟩
      apply notRanks
      refine ⟨ratio, ?_⟩
      rw [width, Nat.mul_left_comm, Nat.mul_comm call.gpuTpCount] at both
      exact (Nat.eq_of_mul_eq_mul_left rankPositive both).symm
    have rest : call.partSize % call.gpuPart ≠ 0 := fun zero => uneven (Nat.dvd_of_mod_eq_zero zero)
    have split := Nat.div_add_mod' call.partSize call.gpuPart
    have several : 1 < call.tpCount := by
      apply Nat.lt_of_le_of_ne (by omega)
      intro one
      exact notRanks (one ▸ Nat.one_dvd _)
    apply conflict 1 several (by decide)
    · rw [Nat.one_mul]
      omega
    · rw [Nat.one_mul]
      omega

/-- The export re-shards an expert if and only if the counts line up. -/
theorem fp8_resharded_iff (loads : Loads call map weights floats) :
    call.Resharded map weights floats ↔ call.LinesUp := by
  constructor
  · intro resharded
    exact linesUp_of_resharded resharded
  · intro linesUp
    exact resharded_of_linesUp loads linesUp

theorem exists_loads (call : Export F) (known : ∀ slot < call.config.expertNum, map slot < call.config.expertNum) :
    ∃ weights floats, Loads call map weights floats := by
  have tables : ∀ part, ∃ weights floats, part < call.tpCount →
      Loaded call.config call.tpCount map part weights floats := by
    intro part
    by_cases inParts : part < call.tpCount
    · obtain ⟨weights, floats, loaded⟩ := exists_loaded call.valid call.blocks call.part_mul inParts known
      exact ⟨weights, floats, fun _ => loaded⟩
    · exact ⟨fun _ => 0, fun _ => default, fun inside => absurd inside inParts⟩
  choose weights floats loaded using tables
  exact ⟨weights, floats, loaded⟩

end Export

/-- One expert of 768 rows. -/
def oneExpert : Config Nat where
  expertNum := 1
  hiddenSize := 128
  intermediateSize := 768
  groupSize := 128
  zeroPoint := false
  weights := ⟨fun _ => some UInt8.ofNat, fun _ => []⟩
  scales := ⟨fun _ => some id, fun _ => []⟩

def threeParts : Export Nat where
  config := oneExpert
  tpCount := 3
  gpuTpCount := 2
  slot := 0
  valid := rfl
  group := rfl
  hiddenBlocks := by decide
  partBlocks := by decide
  rankBlocks := by decide
  inSlots := by decide

theorem fp8_resharded_iff_three_parts : ∃ weights floats, Loads threeParts id weights floats ∧
    (threeParts.Resharded id weights floats ↔ threeParts.LinesUp) := by
  obtain ⟨weights, floats, loads⟩ := threeParts.exists_loads fun _ known => known
  exact ⟨weights, floats, loads, Export.fp8_resharded_iff loads⟩

/-- The second of three parts crosses the end of the first of two ranks. -/
theorem three_parts_overlap : ∃ weights floats, Loads threeParts id weights floats ∧
    ¬ threeParts.Resharded id weights floats ∧
    1 < Copy.writes (threeParts.weightCopies weights) (⟨0, .w2⟩, 384) := by
  obtain ⟨weights, floats, loads⟩ := threeParts.exists_loads fun _ known => known
  refine ⟨weights, floats, loads, ?_, ?_⟩
  · intro resharded
    have linesUp := Export.linesUp_of_resharded resharded
    revert linesUp
    simp only [Export.LinesUp, threeParts]
    decide
  · exact threeParts.crossing_twice weights 1 (by decide) (by decide) (by decide) (by decide)

end KtKernel.Fp8
