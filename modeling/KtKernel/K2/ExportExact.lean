import KtKernel.K2.Blocked

namespace KtKernel.K2

open KtKernel.Data
open KtKernel.Amx.ExpertFiles (Mat)

/-! When the export is a correct re-sharding. -/

/-- A weight of an array of packed weights, low half first. -/
def nibble (bytes : Nat → UInt8) (index : Nat) : UInt8 :=
  if index % 2 = 0 then bytes (index / 2) % 16 else bytes (index / 2) / 16

def Loads {S F : Type} (call : Export) (conversion : Conversion S F) (map : Nat → Nat) (bytes : Source UInt8)
    (scales : Source S) (weights : Nat → Slot × Nat → UInt8) (floats : Nat → Slot × Nat → F) : Prop :=
  ∀ part < call.shape.tpCount,
    Loaded call.shape call.layout map conversion.widen bytes scales part (weights part) (floats part)

namespace Export

variable {call : Export} {S F : Type} {conversion : Conversion S F} {map : Nat → Nat} {bytes : Source UInt8}
  {scales : Source S} {weights : Nat → Slot × Nat → UInt8} {floats : Nat → Slot × Nat → F} {part : Nat}

def originalBytes (call : Export) (map : Nat → Nat) (bytes : Source UInt8) (mat : Mat) : Nat → UInt8 :=
  bytes.cell call.shape call.shape.byte mat (map call.slot)

def originalScales (call : Export) (map : Nat → Nat) (scales : Source S) (mat : Mat) : Nat → S :=
  scales.cell call.shape call.shape.group mat (map call.slot)

/-- Rank `rank` gets the gate rows, the up rows and the down columns from
`rank * gpuPart` on, weights and scales.  Every cell of the buffers is written
once, and no other memory is. -/
structure Resharded (call : Export) (conversion : Conversion S F) (map : Nat → Nat) (bytes : Source UInt8)
    (scales : Source S) (weights : Nat → Slot × Nat → UInt8) (floats : Nat → Slot × Nat → F) : Prop where
  weightsOnce : ∀ rank target offset, Copy.writes (call.weightCopies weights) (⟨rank, target⟩, offset) =
    if rank < call.gpuTpCount ∧ offset < call.cells call.shape.byte target then 1 else 0
  scalesOnce : ∀ rank target offset, Copy.writes (call.scaleCopies conversion floats) (⟨rank, target⟩, offset) =
    if rank < call.gpuTpCount ∧ offset < call.cells call.shape.group target then 1 else 0
  gateUp : ∀ before after, Copy.Performed (call.weightCopies weights) before after →
    ∀ rank < call.gpuTpCount, ∀ row < call.gpuPart, ∀ column < call.shape.hiddenSize,
      nibble (fun offset => after (⟨rank, .w13⟩, offset)) (row * call.shape.hiddenSize + column) =
          nibble (call.originalBytes map bytes .gate)
            ((rank * call.gpuPart + row) * call.shape.hiddenSize + column) ∧
        nibble (fun offset => after (⟨rank, .w13⟩, offset))
            ((call.gpuPart + row) * call.shape.hiddenSize + column) =
          nibble (call.originalBytes map bytes .up)
            ((rank * call.gpuPart + row) * call.shape.hiddenSize + column)
  down : ∀ before after, Copy.Performed (call.weightCopies weights) before after →
    ∀ rank < call.gpuTpCount, ∀ row < call.shape.hiddenSize, ∀ column < call.gpuPart,
      nibble (fun offset => after (⟨rank, .w2⟩, offset)) (row * call.gpuPart + column) =
        nibble (call.originalBytes map bytes .down)
          (row * call.shape.intermediateSize + (rank * call.gpuPart + column))
  gateUpScales : ∀ before after, Copy.Performed (call.scaleCopies conversion floats) before after →
    ∀ rank < call.gpuTpCount, ∀ row < call.gpuPart, ∀ group < call.shape.hiddenSize / call.shape.groupSize,
      after (⟨rank, .w13⟩, row * (call.shape.hiddenSize / call.shape.groupSize) + group) =
          call.originalScales map scales .gate
            ((rank * call.gpuPart + row) * (call.shape.hiddenSize / call.shape.groupSize) + group) ∧
        after (⟨rank, .w13⟩, (call.gpuPart + row) * (call.shape.hiddenSize / call.shape.groupSize) + group) =
          call.originalScales map scales .up
            ((rank * call.gpuPart + row) * (call.shape.hiddenSize / call.shape.groupSize) + group)
  downScales : ∀ before after, Copy.Performed (call.scaleCopies conversion floats) before after →
    ∀ rank < call.gpuTpCount, ∀ row < call.shape.hiddenSize, ∀ group < call.gpuPart / call.shape.groupSize,
      after (⟨rank, .w2⟩, row * (call.gpuPart / call.shape.groupSize) + group) =
        call.originalScales map scales .down (row * (call.shape.intermediateSize / call.shape.groupSize) +
          (rank * (call.gpuPart / call.shape.groupSize) + group))

/-- The counts line up with the copies of the layout. -/
def LinesUp (call : Export) : Prop :=
  match call.layout with
  | .linear => call.gpuTpCount ∣ call.shape.tpCount ∨ call.shape.tpCount ∣ call.gpuTpCount ∧ 2 ∣ call.gpuPart
  | .blocked => 64 ∣ call.gpuPart

theorem linearTable_of_rows {α : Type} {unit : call.shape.Unit} {original : Mat → Nat → α} {value : Mat → Nat → α}
    (rows : ∀ mat row inner, row < call.shape.rows mat → inner < call.shape.width unit mat →
      value mat (row * call.shape.width unit mat + inner) =
        original mat (sliceOffset call.shape unit part mat row inner)) :
    call.LinearTable unit original part value := by
  have width := call.hidden_width_positive unit
  have gateUp : ∀ mat, call.shape.rows mat = call.shape.partSize →
      call.shape.width unit mat = call.shape.hiddenSize / unit.size →
      (∀ row inner, sliceOffset call.shape unit part mat row inner =
        (part * call.shape.partSize + row) * (call.shape.hiddenSize / unit.size) + inner) →
      ∀ inner < call.shape.partCells unit,
        value mat inner = original mat (part * call.shape.partCells unit + inner) := by
    intro mat rowsEq widthEq place inner inside
    have split := Nat.div_add_mod' inner (call.shape.hiddenSize / unit.size)
    have inRow : inner / (call.shape.hiddenSize / unit.size) < call.shape.partSize := by
      apply Nat.div_lt_of_lt_mul
      rwa [Nat.mul_comm]
    have cell := rows mat (inner / (call.shape.hiddenSize / unit.size)) (inner % (call.shape.hiddenSize / unit.size))
      (by rwa [rowsEq]) (by rw [widthEq]; exact Nat.mod_lt _ width)
    rw [widthEq, place, split, Nat.add_mul, Nat.add_assoc, split, Nat.mul_assoc] at cell
    exact cell
  constructor
  · intro mat notDown
    cases mat with
    | gate => exact gateUp .gate rfl rfl fun _ _ => rfl
    | up => exact gateUp .up rfl rfl fun _ _ => rfl
    | down => contradiction
  · intro row inner inRow inWidth
    exact rows .down row inner inRow inWidth

theorem linearTable_floats (loads : Loads call conversion map bytes scales weights floats)
    (inParts : part < call.shape.tpCount) :
    call.LinearTable call.shape.group (fun mat offset => conversion.widen (call.originalScales map scales mat offset))
      part fun mat inner => floats part (⟨mat, call.slot⟩, inner) := by
  have loaded := loads part inParts
  apply linearTable_of_rows
  intro mat row inner inRow inWidth
  exact loaded.float call.inSlots inRow inWidth

theorem linearTable_weights (loads : Loads call conversion map bytes scales weights floats)
    (kind : call.layout = .linear) (inParts : part < call.shape.tpCount) :
    call.LinearTable call.shape.byte (call.originalBytes map bytes) part
      fun mat inner => weights part (⟨mat, call.slot⟩, inner) := by
  have loaded := loads part inParts
  apply linearTable_of_rows
  intro mat row inner inRow inWidth
  have value := loaded.weight call.accepts call.inSlots inRow inWidth
  rw [kind] at value
  exact value

theorem blockedTable_weights (loads : Loads call conversion map bytes scales weights floats)
    (kind : call.layout = .blocked) (inParts : part < call.shape.tpCount) :
    call.BlockedTable (call.originalBytes map bytes) part (weights part) := by
  have loaded := loads part inParts
  intro mat row byte inRow inWidth
  have value := loaded.weight call.accepts call.inSlots inRow inWidth
  rw [kind] at value
  exact value

/-! ## The counts line up -/

theorem even_of_parts (divides : call.gpuTpCount ∣ call.shape.tpCount) : 2 ∣ call.gpuPart := by
  obtain ⟨ratio, divides⟩ := divides
  have both := call.gpuPart_mul
  rw [Shape.intermediateSize, divides, Nat.mul_assoc] at both
  rw [Nat.eq_of_mul_eq_mul_left call.gpuPositive both]
  exact Nat.dvd_trans call.shape.byte.part (Nat.dvd_mul_left _ _)

theorem LinesUp.even (linesUp : call.LinesUp) : 2 ∣ call.gpuPart := by
  unfold LinesUp at linesUp
  split at linesUp
  · rcases linesUp with parts | ranks
    · exact even_of_parts parts
    · exact ranks.2
  · exact Nat.dvd_trans (by decide) linesUp

theorem divides_of_more (more : call.shape.tpCount ≥ call.gpuTpCount)
    (linesUp : call.gpuTpCount ∣ call.shape.tpCount ∨ call.shape.tpCount ∣ call.gpuTpCount ∧ 2 ∣ call.gpuPart) :
    call.gpuTpCount ∣ call.shape.tpCount := by
  rcases linesUp with parts | ranks
  · exact parts
  · have most := Nat.le_of_dvd call.gpuPositive ranks.1
    have same : call.gpuTpCount = call.shape.tpCount := by omega
    exact same.dvd

theorem divides_of_less (less : ¬ call.shape.tpCount ≥ call.gpuTpCount)
    (linesUp : call.gpuTpCount ∣ call.shape.tpCount ∨ call.shape.tpCount ∣ call.gpuTpCount ∧ 2 ∣ call.gpuPart) :
    call.shape.tpCount ∣ call.gpuTpCount := by
  rcases linesUp with parts | ranks
  · have most := Nat.le_of_dvd call.shape.tpPositive parts
    contradiction
  · exact ranks.1

theorem weightCopies_exact (loads : Loads call conversion map bytes scales weights floats)
    (linesUp : call.LinesUp) :
    call.Exact call.shape.byte (call.originalBytes map bytes) (call.weightCopies weights) := by
  have even := linesUp.even
  apply exact_of_parts even
  intro part inParts
  cases kind : call.layout with
  | linear =>
      have table := linearTable_weights loads kind inParts
      simp only [LinesUp, kind] at linesUp
      simp only [partWeights, kind]
      split
      · next more =>
          have divides : call.gpuTpCount ∣ call.shape.tpCount := divides_of_more more linesUp
          exact manyWeights_exact even (Nat.mul_div_cancel' divides).symm inParts table
      · next less =>
          have divides : call.shape.tpCount ∣ call.gpuTpCount := divides_of_less less linesUp
          exact oneWeights_exact even (Nat.mul_div_cancel' divides).symm inParts table
  | blocked =>
      have accepts := call.accepts
      simp only [kind, Layout.Accepts] at accepts
      simp only [LinesUp, kind] at linesUp
      simp only [partWeights, kind]
      exact blockedWeights_exact linesUp accepts.1 accepts.2 inParts (blockedTable_weights loads kind inParts)

theorem scaleCopies_exact (loads : Loads call conversion map bytes scales weights floats)
    (linesUp : call.LinesUp) :
    call.Exact call.shape.group (call.originalScales map scales) (call.scaleCopies conversion floats) := by
  apply exact_of_parts call.group_dvd_gpuPart
  intro part inParts
  have table := linearTable_floats loads inParts
  cases kind : call.layout with
  | linear =>
      simp only [LinesUp, kind] at linesUp
      simp only [partScales, kind]
      split
      · next more =>
          have divides : call.gpuTpCount ∣ call.shape.tpCount := divides_of_more more linesUp
          exact manyScales_exact (Nat.mul_div_cancel' divides).symm inParts table
      · next less =>
          have divides : call.shape.tpCount ∣ call.gpuTpCount := divides_of_less less linesUp
          exact oneScales_exact (Nat.mul_div_cancel' divides).symm inParts table
  | blocked =>
      simp only [partScales, kind]
      exact blockedScales_exact inParts table

/-! ## What the ranks hold -/

section

variable {inner : Nat} {α : Type} {unit : call.shape.Unit} {original : Mat → Nat → α} {copies : List (Copy Destination α)}
  {before after : Destination × Nat → α}

theorem Exact.writes (exact_ : call.Exact unit original copies) (rank : Nat) (target : Target) (offset : Nat) :
    Copy.writes copies (⟨rank, target⟩, offset) =
      if rank < call.gpuTpCount ∧ offset < call.cells unit target then 1 else 0 := by
  split
  · next inside => exact (exact_.inside rank target offset inside.1 inside.2).once
  · next outside => exact exact_.outside rank target offset outside

theorem Exact.gate_cell (exact_ : call.Exact unit original copies) (performed : Copy.Performed copies before after)
    (inRanks : rank < call.gpuTpCount) (inRow : row < call.gpuPart)
    (inWidth : inner < call.shape.hiddenSize / unit.size) :
    after (⟨rank, .w13⟩, row * (call.shape.hiddenSize / unit.size) + inner) =
      original .gate ((rank * call.gpuPart + row) * (call.shape.hiddenSize / unit.size) + inner) := by
  have first : row * (call.shape.hiddenSize / unit.size) + inner < call.half unit := by
    rw [half, Nat.mul_comm call.gpuPart]
    exact pairIndex_lt inRow inWidth
  have inCells : row * (call.shape.hiddenSize / unit.size) + inner < call.cells unit .w13 := by
    simp only [cells]
    omega
  rw [performed.delivered (exact_.inside rank .w13 _ inRanks inCells), expected, if_pos first, half]
  congr 1
  ring

theorem Exact.up_cell (exact_ : call.Exact unit original copies) (performed : Copy.Performed copies before after)
    (inRanks : rank < call.gpuTpCount) (inRow : row < call.gpuPart)
    (inWidth : inner < call.shape.hiddenSize / unit.size) :
    after (⟨rank, .w13⟩, (call.gpuPart + row) * (call.shape.hiddenSize / unit.size) + inner) =
      original .up ((rank * call.gpuPart + row) * (call.shape.hiddenSize / unit.size) + inner) := by
  have second : row * (call.shape.hiddenSize / unit.size) + inner < call.half unit := by
    rw [half, Nat.mul_comm call.gpuPart]
    exact pairIndex_lt inRow inWidth
  have place : (call.gpuPart + row) * (call.shape.hiddenSize / unit.size) + inner =
      call.half unit + (row * (call.shape.hiddenSize / unit.size) + inner) := by
    rw [half]
    ring
  have inCells : call.half unit + (row * (call.shape.hiddenSize / unit.size) + inner) < call.cells unit .w13 := by
    simp only [cells]
    omega
  rw [place, performed.delivered (exact_.inside rank .w13 _ inRanks inCells), expected, if_neg (by omega),
    Nat.add_sub_cancel_left, half]
  congr 1
  ring

theorem Exact.down_cell (exact_ : call.Exact unit original copies) (performed : Copy.Performed copies before after)
    (whole : unit.size ∣ call.gpuPart) (inRanks : rank < call.gpuTpCount) (inRow : row < call.shape.hiddenSize)
    (inWidth : inner < call.rankWidth unit) :
    after (⟨rank, .w2⟩, row * call.rankWidth unit + inner) =
      original .down (row * (call.shape.intermediateSize / unit.size) + (rank * call.rankWidth unit + inner)) := by
  have inCells : row * call.rankWidth unit + inner < call.cells unit .w2 := by
    rw [cells_w2 call whole, Nat.mul_comm call.shape.hiddenSize]
    exact pairIndex_lt inRow inWidth
  rw [performed.delivered (exact_.inside rank .w2 _ inRanks inCells), expected, pairIndex_div row inWidth,
    pairIndex_mod row inWidth, Nat.add_assoc]

end

theorem nibble_row (bytes : Nat → UInt8) (even : 2 ∣ width) (row column : Nat) :
    nibble bytes (row * width + column) = nibble (fun byte => bytes (row * (width / 2) + byte)) column := by
  obtain ⟨half, rfl⟩ := even
  have place : row * (2 * half) = 2 * (row * half) := by ring
  have mod : (2 * (row * half) + column) % 2 = column % 2 := by omega
  have div : (2 * (row * half) + column) / 2 = row * half + column / 2 := by omega
  have halved : 2 * half / 2 = half := by omega
  simp only [nibble, place, mod, div, halved]

theorem nibble_congr {bytes bytes' : Nat → UInt8} (same : ∀ byte < width / 2, bytes byte = bytes' byte)
    (even : 2 ∣ width) (inside : column < width) : nibble bytes column = nibble bytes' column := by
  have inByte : column / 2 < width / 2 := by omega
  simp only [nibble, same _ inByte]

theorem resharded_of_linesUp (loads : Loads call conversion map bytes scales weights floats)
    (linesUp : call.LinesUp) : call.Resharded conversion map bytes scales weights floats := by
  have weightsExact := weightCopies_exact loads linesUp
  have scalesExact := scaleCopies_exact loads linesUp
  have hiddenEven : 2 ∣ call.shape.hiddenSize := call.shape.byte.hidden
  have partEven : 2 ∣ call.gpuPart := linesUp.even
  constructor
  · exact weightsExact.writes
  · exact scalesExact.writes
  · intro before after performed rank inRanks row inRow column inColumns
    constructor
    · rw [nibble_row _ hiddenEven, nibble_row _ hiddenEven]
      apply nibble_congr _ hiddenEven inColumns
      intro byte inByte
      exact weightsExact.gate_cell performed inRanks inRow inByte
    · rw [nibble_row _ hiddenEven, nibble_row _ hiddenEven]
      apply nibble_congr _ hiddenEven inColumns
      intro byte inByte
      exact weightsExact.up_cell performed inRanks inRow inByte
  · intro before after performed rank inRanks row inRow column inColumns
    have allEven : 2 ∣ call.shape.intermediateSize :=
      Nat.dvd_trans call.shape.byte.part (Nat.dvd_mul_left _ _)
    rw [nibble_row _ partEven, nibble_row _ allEven, nibble_row _ partEven]
    apply nibble_congr _ partEven inColumns
    intro byte inByte
    exact weightsExact.down_cell performed partEven inRanks inRow inByte
  · intro before after performed rank inRanks row inRow group inGroups
    exact ⟨scalesExact.gate_cell performed inRanks inRow inGroups, scalesExact.up_cell performed inRanks inRow inGroups⟩
  · intro before after performed rank inRanks row inRow group inGroups
    exact scalesExact.down_cell performed call.group_dvd_gpuPart inRanks inRow inGroups

end Export

end KtKernel.K2
