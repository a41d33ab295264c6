import Mathlib.Data.List.Perm.Basic
import KtKernel.K2.Reshard

namespace KtKernel.K2

open KtKernel.Data
open KtKernel.Amx.ExpertFiles (Mat)

/-! The export from the linear layout. -/

namespace Export

variable {α : Type} {call : Export} {unit : call.shape.Unit} {original : Mat → Nat → α} {part ratio inner : Nat}

/-! ## Pieces of a rank -/

/-- A range of the gate and up cells of a rank, and a range of its down columns. -/
structure Piece where
  rank : Nat
  base : Nat
  length : Nat
  column : Nat
  width : Nat

/-- A cell of the rank's buffers that belongs to the piece. -/
def Piece.Has (piece : Piece) (call : Export) (unit : call.shape.Unit) (rank : Nat) (target : Target)
    (offset : Nat) : Prop :=
  rank = piece.rank ∧ offset < call.cells unit target ∧
    match target with
    | .w13 => piece.base ≤ offset % call.half unit ∧ offset % call.half unit < piece.base + piece.length
    | .w2 => piece.column ≤ offset % call.rankWidth unit ∧
        offset % call.rankWidth unit < piece.column + piece.width

/-- The copies write the cells of the piece, each once, and nothing else. -/
structure PieceExact (call : Export) (unit : call.shape.Unit) (original : Mat → Nat → α) (piece : Piece)
    (copies : List (Copy Destination α)) : Prop where
  inside : ∀ rank target offset, piece.Has call unit rank target offset →
    Copy.Delivers copies (⟨rank, target⟩, offset) (call.expected unit original rank target offset)
  outside : ∀ rank target offset, ¬ piece.Has call unit rank target offset →
    Copy.writes copies (⟨rank, target⟩, offset) = 0

theorem piece_gate {piece : Piece} {copies : List (Copy Destination α)}
    (fits : piece.base + piece.length ≤ call.half unit)
    (carries : Copy.Carries copies ⟨piece.rank, .w13⟩ piece.base piece.length fun inner =>
      original .gate (piece.rank * call.half unit + piece.base + inner)) :
    (∀ offset, offset < call.half unit → piece.Has call unit piece.rank .w13 offset →
      Copy.Delivers copies (⟨piece.rank, .w13⟩, offset) (call.expected unit original piece.rank .w13 offset)) ∧
    (∀ rank target offset, ¬ (target = .w13 ∧ offset < call.half unit ∧ piece.Has call unit rank .w13 offset) →
      Copy.writes copies (⟨rank, target⟩, offset) = 0) := by
  constructor
  · intro offset first has
    obtain ⟨-, -, above, below⟩ := has
    rw [Nat.mod_eq_of_lt first] at above below
    have delivers := carries.place above below
    rw [expected, if_pos first]
    convert delivers using 2
    omega
  · intro rank target offset lacks
    apply carries.within.writes_eq_zero
    intro covered
    obtain ⟨same, above, below⟩ := covered
    obtain ⟨rfl, rfl⟩ := Destination.mk.inj same
    simp only at above below
    have first : offset < call.half unit := by omega
    apply lacks
    refine ⟨rfl, first, rfl, ?_, ?_⟩
    · simp only [cells]
      omega
    · rw [Nat.mod_eq_of_lt first]
      exact ⟨above, below⟩

theorem piece_up {piece : Piece} {copies : List (Copy Destination α)}
    (fits : piece.base + piece.length ≤ call.half unit)
    (carries : Copy.Carries copies ⟨piece.rank, .w13⟩ (piece.base + call.half unit) piece.length fun inner =>
      original .up (piece.rank * call.half unit + piece.base + inner)) :
    (∀ offset, ¬ offset < call.half unit → piece.Has call unit piece.rank .w13 offset →
      Copy.Delivers copies (⟨piece.rank, .w13⟩, offset) (call.expected unit original piece.rank .w13 offset)) ∧
    (∀ rank target offset, ¬ (target = .w13 ∧ ¬ offset < call.half unit ∧ piece.Has call unit rank .w13 offset) →
      Copy.writes copies (⟨rank, target⟩, offset) = 0) := by
  have wrap : ∀ offset, ¬ offset < call.half unit → offset < 2 * call.half unit →
      offset % call.half unit = offset - call.half unit := by
    intro offset second inside
    rw [Nat.mod_eq_sub_mod (by omega), Nat.mod_eq_of_lt (by omega)]
  constructor
  · intro offset second has
    obtain ⟨-, inside, above, below⟩ := has
    rw [wrap offset second inside] at above below
    have lower : piece.base + call.half unit ≤ offset := by omega
    have upper : offset < piece.base + call.half unit + piece.length := by omega
    have delivers := carries.place lower upper
    rw [expected, if_neg second]
    convert delivers using 2
    omega
  · intro rank target offset lacks
    apply carries.within.writes_eq_zero
    intro covered
    obtain ⟨same, above, below⟩ := covered
    obtain ⟨rfl, rfl⟩ := Destination.mk.inj same
    simp only at above below
    have second : ¬ offset < call.half unit := by omega
    have inside : offset < 2 * call.half unit := by omega
    apply lacks
    refine ⟨rfl, second, rfl, inside, ?_⟩
    rw [wrap offset second inside]
    omega

/-- The columns of a piece, row after row. -/
def Piece.columns (piece : Piece) (call : Export) (unit : call.shape.Unit) (value : Nat → Nat → α) :
    List (Copy Destination α) :=
  Copy.strided ⟨piece.rank, .w2⟩ piece.column (call.rankWidth unit) piece.width value call.shape.hiddenSize

theorem piece_down {piece : Piece} {value : Nat → Nat → α} (whole : unit.size ∣ call.gpuPart)
    (fits : piece.column + piece.width ≤ call.rankWidth unit)
    (values : ∀ row inner, row < call.shape.hiddenSize → inner < piece.width →
      value row inner = original .down (row * (call.shape.intermediateSize / unit.size) +
        piece.rank * call.rankWidth unit + piece.column + inner)) :
    (∀ offset, piece.Has call unit piece.rank .w2 offset →
      Copy.Delivers (piece.columns call unit value) (⟨piece.rank, .w2⟩, offset)
        (call.expected unit original piece.rank .w2 offset)) ∧
    (∀ rank target offset, ¬ (target = Target.w2 ∧ piece.Has call unit rank .w2 offset) →
      Copy.writes (piece.columns call unit value) (⟨rank, target⟩, offset) = 0) := by
  have cellsEq := call.cells_w2 whole
  constructor
  · intro offset has
    obtain ⟨-, inside, above, below⟩ := has
    rw [cellsEq] at inside
    have inRows : offset / call.rankWidth unit < call.shape.hiddenSize := by
      apply Nat.div_lt_of_lt_mul
      rwa [Nat.mul_comm]
    have inWidth : offset % call.rankWidth unit - piece.column < piece.width := by omega
    have split := Nat.div_add_mod' offset (call.rankWidth unit)
    have delivers : Copy.Delivers (piece.columns call unit value)
        (⟨piece.rank, .w2⟩, piece.column + offset / call.rankWidth unit * call.rankWidth unit +
          (offset % call.rankWidth unit - piece.column))
        (value (offset / call.rankWidth unit) (offset % call.rankWidth unit - piece.column)) :=
      Copy.strided_delivers _ _ _ (by omega) inRows inWidth
    rw [values _ _ inRows inWidth] at delivers
    convert delivers using 2
    · omega
    · rw [expected]
      congr 1
      omega
  · intro rank target offset lacks
    by_cases here : (⟨piece.rank, .w2⟩ : Destination) = ⟨rank, target⟩ ∧ 0 ≤ offset ∧
        offset < call.shape.hiddenSize * call.rankWidth unit
    · obtain ⟨same, -, inside⟩ := here
      obtain ⟨rfl, rfl⟩ := Destination.mk.inj same
      apply Copy.strided_gap _ _ fits
      intro inColumn
      apply lacks
      refine ⟨rfl, rfl, ?_, inColumn⟩
      rwa [cellsEq]
    · exact (Copy.strided_within_blocks _ _ fits).writes_eq_zero here

theorem pieceExact {piece : Piece} {gate up : List (Copy Destination α)} {value : Nat → Nat → α}
    (whole : unit.size ∣ call.gpuPart) (fits : piece.base + piece.length ≤ call.half unit)
    (fitsColumns : piece.column + piece.width ≤ call.rankWidth unit)
    (gateCarries : Copy.Carries gate ⟨piece.rank, .w13⟩ piece.base piece.length fun inner =>
      original .gate (piece.rank * call.half unit + piece.base + inner))
    (upCarries : Copy.Carries up ⟨piece.rank, .w13⟩ (piece.base + call.half unit) piece.length fun inner =>
      original .up (piece.rank * call.half unit + piece.base + inner))
    (values : ∀ row inner, row < call.shape.hiddenSize → inner < piece.width →
      value row inner = original .down (row * (call.shape.intermediateSize / unit.size) +
        piece.rank * call.rankWidth unit + piece.column + inner)) :
    call.PieceExact unit original piece (gate ++ up ++ piece.columns call unit value) := by
  obtain ⟨gateIn, gateOut⟩ := piece_gate fits gateCarries
  obtain ⟨upIn, upOut⟩ := piece_up fits upCarries
  obtain ⟨downIn, downOut⟩ := piece_down whole fitsColumns values
  constructor
  · intro rank target offset has
    obtain rfl := has.1
    cases target with
    | w13 =>
        apply Copy.Delivers.append_left _ (downOut _ _ _ (by simp))
        by_cases first : offset < call.half unit
        · exact (gateIn offset first has).append_left (upOut _ _ _ (by simp [first]))
        · exact (upIn offset first has).append_right (gateOut _ _ _ (by simp [first]))
    | w2 =>
        apply (downIn offset has).append_right
        rw [Copy.writes_append, gateOut _ _ _ (by simp), upOut _ _ _ (by simp)]
  · intro rank target offset lacks
    rw [Copy.writes_append, Copy.writes_append, gateOut, upOut, downOut]
    · intro has
      obtain ⟨rfl, has⟩ := has
      exact lacks has
    · intro has
      obtain ⟨rfl, -, has⟩ := has
      exact lacks has
    · intro has
      obtain ⟨rfl, -, has⟩ := has
      exact lacks has

theorem partExact_of_piece {piece : Piece} {copies : List (Copy Destination α)}
    (exact_ : call.PieceExact unit original piece copies)
    (same : ∀ rank target offset, piece.Has call unit rank target offset ↔
      rank < call.gpuTpCount ∧ offset < call.cells unit target ∧ call.owner unit rank target offset = part) :
    call.PartExact unit original part copies where
  inside := fun rank target offset inRanks inCells owned =>
    exact_.inside rank target offset ((same rank target offset).mpr ⟨inRanks, inCells, owned⟩)
  foreign := fun rank target offset _ _ different =>
    exact_.outside rank target offset fun has => different ((same rank target offset).mp has).2.2
  outside := fun rank target offset out =>
    exact_.outside rank target offset fun has =>
      out ⟨((same rank target offset).mp has).1, ((same rank target offset).mp has).2.1⟩

theorem partExact_of_pieces {pieces : Nat → Piece} {copies : Nat → List (Copy Destination α)} {count : Nat}
    (exact_ : ∀ index < count, call.PieceExact unit original (pieces index) (copies index))
    (ranks : ∀ index < count, ∀ other < count, (pieces index).rank = (pieces other).rank → index = other)
    (same : ∀ rank target offset, (∃ index < count, (pieces index).Has call unit rank target offset) ↔
      rank < call.gpuTpCount ∧ offset < call.cells unit target ∧ call.owner unit rank target offset = part) :
    call.PartExact unit original part ((List.range count).flatMap copies) := by
  have none : ∀ rank target offset, ¬ (∃ index < count, (pieces index).Has call unit rank target offset) →
      Copy.writes ((List.range count).flatMap copies) (⟨rank, target⟩, offset) = 0 := by
    intro rank target offset lacks
    apply Copy.writes_flatMap_zero
    intro index member
    have inside := List.mem_range.mp member
    exact (exact_ index inside).outside rank target offset fun has => lacks ⟨index, inside, has⟩
  constructor
  · intro rank target offset inRanks inCells owned
    obtain ⟨index, inside, has⟩ := (same rank target offset).mpr ⟨inRanks, inCells, owned⟩
    apply Copy.Delivers.range inside ((exact_ index inside).inside rank target offset has)
    intro other inside' different
    apply (exact_ other inside').outside
    intro has'
    exact different (ranks other inside' index inside (has'.1.symm.trans has.1))
  · intro rank target offset _ _ different
    exact none rank target offset fun has => different ((same rank target offset).mp has).2.2
  · intro rank target offset out
    exact none rank target offset fun has =>
      out ⟨((same rank target offset).mp has).1, ((same rank target offset).mp has).2.1⟩

/-! ## Several parts into one rank -/

theorem half_of_ratio (unit : call.shape.Unit) (divides : call.shape.tpCount = call.gpuTpCount * ratio) :
    call.half unit = ratio * call.shape.partCells unit := by
  have both := call.gpu_mul_half unit
  rw [divides, Nat.mul_assoc] at both
  exact Nat.eq_of_mul_eq_mul_left call.gpuPositive both

theorem rankWidth_of_ratio (whole : unit.size ∣ call.gpuPart)
    (divides : call.shape.tpCount = call.gpuTpCount * ratio) :
    call.rankWidth unit = ratio * (call.shape.partSize / unit.size) := by
  have both := call.gpu_mul_rankWidth whole
  rw [divides, Nat.mul_assoc] at both
  exact Nat.eq_of_mul_eq_mul_left call.gpuPositive both

def manyPiece (call : Export) (unit : call.shape.Unit) (ratio part : Nat) : Piece where
  rank := part / ratio
  base := part % ratio * call.shape.partCells unit
  length := call.shape.partCells unit
  column := part % ratio * (call.shape.partSize / unit.size)
  width := call.shape.partSize / unit.size

theorem ratio_positive (divides : call.shape.tpCount = call.gpuTpCount * ratio) : 0 < ratio := by
  apply Nat.pos_of_ne_zero
  intro zero
  have some_ := call.shape.tpPositive
  rw [zero, Nat.mul_zero] at divides
  omega

theorem manyPiece_has_iff (whole : unit.size ∣ call.gpuPart)
    (divides : call.shape.tpCount = call.gpuTpCount * ratio) (inParts : part < call.shape.tpCount) (rank : Nat)
    (target : Target) (offset : Nat) :
    (call.manyPiece unit ratio part).Has call unit rank target offset ↔
      rank < call.gpuTpCount ∧ offset < call.cells unit target ∧ call.owner unit rank target offset = part := by
  have inRank : part / ratio < call.gpuTpCount := Nat.div_lt_of_lt_mul (by rwa [Nat.mul_comm, ← divides])
  have owned : call.owner unit rank target offset = part ↔ rank = part / ratio ∧
      match target with
      | .w13 => part % ratio * call.shape.partCells unit ≤ offset % call.half unit ∧
          offset % call.half unit < part % ratio * call.shape.partCells unit + call.shape.partCells unit
      | .w2 => part % ratio * (call.shape.partSize / unit.size) ≤ offset % call.rankWidth unit ∧
          offset % call.rankWidth unit <
            part % ratio * (call.shape.partSize / unit.size) + call.shape.partSize / unit.size := by
    cases target with
    | w13 =>
        have small := Nat.mod_lt offset (call.half_positive unit)
        simp only [owner]
        rw [half_of_ratio unit divides] at small ⊢
        exact piece_in_block_iff small
    | w2 =>
        have small := Nat.mod_lt offset (call.rankWidth_positive whole)
        simp only [owner]
        rw [rankWidth_of_ratio whole divides] at small ⊢
        exact piece_in_block_iff small
  rw [owned]
  constructor
  · intro has
    obtain ⟨same, inCells, place⟩ := has
    exact ⟨same ▸ inRank, inCells, same, place⟩
  · intro has
    obtain ⟨-, inCells, same, place⟩ := has
    exact ⟨same, inCells, place⟩

theorem manyPiece_fits (unit : call.shape.Unit) (divides : call.shape.tpCount = call.gpuTpCount * ratio) (part : Nat) :
    part % ratio * call.shape.partCells unit + call.shape.partCells unit ≤ call.half unit := by
  have last : (part % ratio + 1) * call.shape.partCells unit ≤ ratio * call.shape.partCells unit :=
    Nat.mul_le_mul_right _ (Nat.mod_lt _ (ratio_positive divides))
  rwa [Nat.add_mul, Nat.one_mul, ← half_of_ratio unit divides] at last

theorem manyPiece_fits_columns (whole : unit.size ∣ call.gpuPart)
    (divides : call.shape.tpCount = call.gpuTpCount * ratio) (part : Nat) :
    part % ratio * (call.shape.partSize / unit.size) + call.shape.partSize / unit.size ≤ call.rankWidth unit := by
  have last : (part % ratio + 1) * (call.shape.partSize / unit.size) ≤ ratio * (call.shape.partSize / unit.size) :=
    Nat.mul_le_mul_right _ (Nat.mod_lt _ (ratio_positive divides))
  rwa [Nat.add_mul, Nat.one_mul, ← rankWidth_of_ratio whole divides] at last

/-- The start of a part, counted in pieces of its rank. -/
theorem part_start (piece : Nat) : part / ratio * (ratio * piece) + part % ratio * piece = part * piece := by
  rw [← Nat.mul_assoc, ← Nat.add_mul, Nat.div_add_mod']

theorem many_partExact {gate up : List (Copy Destination α)} {value : Nat → Nat → α}
    (whole : unit.size ∣ call.gpuPart) (divides : call.shape.tpCount = call.gpuTpCount * ratio)
    (inParts : part < call.shape.tpCount)
    (gateCarries : Copy.Carries gate ⟨part / ratio, .w13⟩ (part % ratio * call.shape.partCells unit)
      (call.shape.partCells unit) fun inner => original .gate (part * call.shape.partCells unit + inner))
    (upCarries : Copy.Carries up ⟨part / ratio, .w13⟩ (part % ratio * call.shape.partCells unit + call.half unit)
      (call.shape.partCells unit) fun inner => original .up (part * call.shape.partCells unit + inner))
    (values : ∀ row inner, row < call.shape.hiddenSize → inner < call.shape.partSize / unit.size →
      value row inner = original .down (row * (call.shape.intermediateSize / unit.size) +
        part * (call.shape.partSize / unit.size) + inner)) :
    call.PartExact unit original part
      (gate ++ up ++ (call.manyPiece unit ratio part).columns call unit value) := by
  apply partExact_of_piece _ (manyPiece_has_iff whole divides inParts)
  apply pieceExact whole (manyPiece_fits unit divides part) (manyPiece_fits_columns whole divides part)
  · simp only [manyPiece, half_of_ratio unit divides, part_start]
    exact gateCarries
  · simp only [manyPiece]
    rw [half_of_ratio unit divides, part_start, ← half_of_ratio unit divides]
    exact upCarries
  · intro row inner inRow inWidth
    rw [values row inner inRow inWidth]
    simp only [manyPiece, rankWidth_of_ratio whole divides]
    rw [Nat.add_assoc (row * _) (part / ratio * _), part_start]

/-! ## One part into several ranks -/

theorem partCells_of_ratio (unit : call.shape.Unit) (divides : call.gpuTpCount = call.shape.tpCount * ratio) :
    call.shape.partCells unit = ratio * call.half unit := by
  have both := call.gpu_mul_half unit
  rw [divides, Nat.mul_assoc] at both
  exact (Nat.eq_of_mul_eq_mul_left call.shape.tpPositive both).symm

theorem partWidth_of_ratio (whole : unit.size ∣ call.gpuPart)
    (divides : call.gpuTpCount = call.shape.tpCount * ratio) :
    call.shape.partSize / unit.size = ratio * call.rankWidth unit := by
  have both := call.gpu_mul_rankWidth whole
  rw [divides, Nat.mul_assoc] at both
  exact (Nat.eq_of_mul_eq_mul_left call.shape.tpPositive both).symm

def onePiece (call : Export) (unit : call.shape.Unit) (ratio part local_ : Nat) : Piece where
  rank := part * ratio + local_
  base := 0
  length := call.half unit
  column := 0
  width := call.rankWidth unit

theorem onePiece_has_iff (whole : unit.size ∣ call.gpuPart)
    (divides : call.gpuTpCount = call.shape.tpCount * ratio) (inParts : part < call.shape.tpCount) (rank : Nat)
    (target : Target) (offset : Nat) :
    (∃ local_ < ratio, (call.onePiece unit ratio part local_).Has call unit rank target offset) ↔
      rank < call.gpuTpCount ∧ offset < call.cells unit target ∧ call.owner unit rank target offset = part := by
  have owned : call.owner unit rank target offset = rank / ratio := by
    cases target with
    | w13 =>
        simp only [owner, partCells_of_ratio unit divides]
        exact block_of_piece (Nat.mod_lt offset (call.half_positive unit))
    | w2 =>
        simp only [owner, partWidth_of_ratio whole divides]
        exact block_of_piece (Nat.mod_lt offset (call.rankWidth_positive whole))
  rw [owned]
  constructor
  · intro has
    obtain ⟨local_, inRatio, same, inCells, -⟩ := has
    simp only [onePiece] at same
    subst same
    refine ⟨?_, inCells, pairIndex_div part inRatio⟩
    rw [divides, Nat.mul_comm call.shape.tpCount]
    exact pairIndex_lt inParts inRatio
  · intro has
    obtain ⟨inRanks, inCells, same⟩ := has
    have some_ : 0 < ratio := by
      apply Nat.pos_of_ne_zero
      intro zero
      rw [zero, Nat.mul_zero] at divides
      omega
    refine ⟨rank % ratio, Nat.mod_lt _ some_, ?_, inCells, ?_⟩
    · simp only [onePiece]
      rw [← same, Nat.div_add_mod']
    · cases target with
      | w13 =>
          simp only [onePiece, Nat.zero_add]
          exact ⟨Nat.zero_le _, Nat.mod_lt _ (call.half_positive unit)⟩
      | w2 =>
          simp only [onePiece, Nat.zero_add]
          exact ⟨Nat.zero_le _, Nat.mod_lt _ (call.rankWidth_positive whole)⟩

theorem one_partExact {gate up : Nat → List (Copy Destination α)} {value : Nat → Nat → Nat → α}
    (whole : unit.size ∣ call.gpuPart) (divides : call.gpuTpCount = call.shape.tpCount * ratio)
    (inParts : part < call.shape.tpCount)
    (gateCarries : ∀ local_ < ratio, Copy.Carries (gate local_) ⟨part * ratio + local_, .w13⟩ 0 (call.half unit)
      fun inner => original .gate ((part * ratio + local_) * call.half unit + inner))
    (upCarries : ∀ local_ < ratio, Copy.Carries (up local_) ⟨part * ratio + local_, .w13⟩ (call.half unit)
      (call.half unit) fun inner => original .up ((part * ratio + local_) * call.half unit + inner))
    (values : ∀ local_ < ratio, ∀ row inner, row < call.shape.hiddenSize → inner < call.rankWidth unit →
      value local_ row inner = original .down (row * (call.shape.intermediateSize / unit.size) +
        (part * ratio + local_) * call.rankWidth unit + inner)) :
    call.PartExact unit original part ((List.range ratio).flatMap fun local_ =>
      gate local_ ++ up local_ ++ (call.onePiece unit ratio part local_).columns call unit (value local_)) := by
  apply partExact_of_pieces _ _ (onePiece_has_iff whole divides inParts)
  · intro local_ inRatio
    apply pieceExact whole
    · simp only [onePiece, Nat.zero_add, Nat.le_refl]
    · simp only [onePiece, Nat.zero_add, Nat.le_refl]
    · simp only [onePiece, Nat.add_zero]
      exact gateCarries local_ inRatio
    · simp only [onePiece, Nat.add_zero, Nat.zero_add]
      exact upCarries local_ inRatio
    · intro row inner inRow inWidth
      simp only [onePiece, Nat.add_zero]
      exact values local_ inRatio row inner inRow inWidth
  · intro local_ _ other _ same
    simp only [onePiece] at same
    omega

/-! ## The sizes of the source -/

theorem cpuTpWeightBytes_eq (call : Export) : call.cpuTpWeightBytes = call.shape.partCells call.shape.byte :=
  Nat.mul_div_assoc _ call.shape.byte.hidden

theorem cpuTpScaleCount_eq (call : Export) : call.cpuTpScaleCount = call.shape.partCells call.shape.group :=
  Nat.mul_div_assoc _ call.shape.group.hidden

theorem gpu_weights (call : Export) :
    call.shape.intermediateSize * call.shape.hiddenSize / call.gpuTpCount = call.gpuPart * call.shape.hiddenSize := by
  rw [Nat.mul_comm, Nat.mul_div_assoc _ call.gpu_dvd, Nat.mul_comm]
  rfl

theorem gpuTpWeightBytes_eq (call : Export) : call.gpuTpWeightBytes = call.half call.shape.byte := by
  rw [gpuTpWeightBytes, gpu_weights]
  exact Nat.mul_div_assoc _ call.shape.byte.hidden

theorem gpuTpScaleCount_eq (call : Export) : call.gpuTpScaleCount = call.half call.shape.group := by
  rw [gpuTpScaleCount, gpu_weights]
  exact Nat.mul_div_assoc _ call.shape.group.hidden

theorem le_mul_ceil {count tasks : Nat} (some_ : 0 < tasks) : count ≤ tasks * ((count + tasks - 1) / tasks) := by
  have split := Nat.div_add_mod (count + tasks - 1) tasks
  have small := Nat.mod_lt (count + tasks - 1) some_
  omega

theorem downColumns_eq (call : Export) (body : Nat → List (Copy Destination α)) :
    call.downColumns body = (List.range call.shape.hiddenSize).flatMap body := by
  apply flatMap_tasks
  apply le_mul_ceil
  unfold numDownTasks
  omega

theorem le_weightChunks (bytes : Nat) : bytes ≤ numWeightTasks * weightChunkSize bytes := by
  unfold weightChunkSize numWeightTasks KtKernel.Amx.align64
  omega

theorem partSize_of_ratio (divides : call.gpuTpCount = call.shape.tpCount * ratio) :
    call.shape.partSize = ratio * call.gpuPart := by
  have both := call.gpuPart_mul
  rw [divides, Nat.mul_assoc] at both
  exact (Nat.eq_of_mul_eq_mul_left call.shape.tpPositive both).symm

theorem half_eq_columns (whole : unit.size ∣ call.gpuPart) :
    call.half unit = call.rankWidth unit * call.shape.hiddenSize := by
  rw [half, rankWidth, ← Nat.mul_div_assoc _ unit.hidden, Nat.div_mul_right_comm whole]

theorem column_start (whole : unit.size ∣ call.gpuPart) (local_ : Nat) :
    local_ * call.half unit / call.shape.hiddenSize = local_ * call.rankWidth unit := by
  rw [half_eq_columns whole, ← Nat.mul_assoc, Nat.mul_div_cancel _ call.shape.hiddenPositive]

theorem ranksPerPart_positive (divides : call.gpuTpCount = call.shape.tpCount * ratio) : 0 < ratio := by
  apply Nat.pos_of_ne_zero
  intro zero
  have positive := call.gpuPositive
  rw [divides, zero, Nat.mul_zero] at positive
  omega

/-! ## The weights -/

/-- The rows of a part's buffers, in order, are its slice of the expert. -/
structure LinearTable (call : Export) (unit : call.shape.Unit) (original : Mat → Nat → α) (part : Nat)
    (value : Mat → Nat → α) : Prop where
  gateUp : ∀ mat, mat ≠ .down → ∀ inner < call.shape.partCells unit,
    value mat inner = original mat (part * call.shape.partCells unit + inner)
  down : ∀ row inner, row < call.shape.hiddenSize → inner < call.shape.partSize / unit.size →
    value .down (row * (call.shape.partSize / unit.size) + inner) =
      original .down (row * (call.shape.intermediateSize / unit.size) +
        part * (call.shape.partSize / unit.size) + inner)

/-- The cells of a rank in the rows of a part. -/
theorem LinearTable.rank_gateUp {value : Mat → Nat → α} (table : call.LinearTable unit original part value)
    (divides : call.gpuTpCount = call.shape.tpCount * ratio) (notDown : mat ≠ .down) (inRatio : local_ < ratio)
    (inside : inner < call.half unit) :
    value mat (local_ * call.half unit + inner) =
      original mat ((part * ratio + local_) * call.half unit + inner) := by
  have cells := partCells_of_ratio unit divides
  rw [table.gateUp mat notDown, cells]
  · congr 1
    ring
  · rw [cells, Nat.mul_comm ratio]
    exact pairIndex_lt inRatio inside

theorem LinearTable.rank_down {value : Mat → Nat → α} (table : call.LinearTable unit original part value)
    (whole : unit.size ∣ call.gpuPart) (divides : call.gpuTpCount = call.shape.tpCount * ratio)
    (inRatio : local_ < ratio) (inRow : row < call.shape.hiddenSize) (inside : inner < call.rankWidth unit) :
    value .down (row * (call.shape.partSize / unit.size) + (local_ * call.rankWidth unit + inner)) =
      original .down (row * (call.shape.intermediateSize / unit.size) +
        (part * ratio + local_) * call.rankWidth unit + inner) := by
  have width := partWidth_of_ratio whole divides
  rw [table.down row _ inRow]
  · congr 1
    rw [width]
    ring
  · rw [width, Nat.mul_comm ratio]
    exact pairIndex_lt inRatio inside

section

variable {weights : Slot × Nat → UInt8} {bytes : Mat → Nat → UInt8}

theorem manyWeights_exact (even : 2 ∣ call.gpuPart) (divides : call.shape.tpCount = call.gpuTpCount * call.ratio)
    (inParts : part < call.shape.tpCount)
    (table : call.LinearTable call.shape.byte bytes part fun mat inner => weights (⟨mat, call.slot⟩, inner)) :
    call.PartExact call.shape.byte bytes part (call.manyWeights weights part) := by
  have covered := le_weightChunks (call.shape.partCells call.shape.byte)
  simp only [manyWeights, downColumns_eq, cpuTpWeightBytes_eq, gpuTpWeightBytes_eq]
  apply many_partExact even divides inParts
  · apply (Copy.chunked_carries _ _ _ covered).congr
    intro inner inside
    exact table.gateUp .gate (by decide) inner inside
  · apply (Copy.chunked_carries _ _ _ covered).congr
    intro inner inside
    exact table.gateUp .up (by decide) inner inside
  · intro row inner inRow inWidth
    exact table.down row inner inRow inWidth

theorem oneWeights_exact (even : 2 ∣ call.gpuPart)
    (divides : call.gpuTpCount = call.shape.tpCount * call.ranksPerPart) (inParts : part < call.shape.tpCount)
    (table : call.LinearTable call.shape.byte bytes part fun mat inner => weights (⟨mat, call.slot⟩, inner)) :
    call.PartExact call.shape.byte bytes part (call.oneWeights weights part) := by
  have some_ := ranksPerPart_positive divides
  have data : call.cpuTpWeightBytes / call.ranksPerPart = call.half call.shape.byte := by
    rw [cpuTpWeightBytes_eq, partCells_of_ratio call.shape.byte divides, Nat.mul_div_cancel_left _ some_]
  have perColumn : call.shape.partSize / call.ranksPerPart / 2 = call.rankWidth call.shape.byte := by
    rw [partSize_of_ratio divides, Nat.mul_div_cancel_left _ some_]
    rfl
  have rowStart : ∀ row, row * call.shape.partSize / 2 = row * (call.shape.partSize / call.shape.byte.size) := by
    intro row
    exact Nat.mul_div_assoc _ call.shape.byte.part
  have covered := le_weightChunks (call.half call.shape.byte)
  have start : ∀ local_, local_ * call.half call.shape.byte / call.shape.hiddenSize =
      local_ * call.rankWidth call.shape.byte := fun local_ => column_start even local_
  simp only [oneWeights, downColumns_eq, data, perColumn, gpuTpWeightBytes_eq, start, rowStart]
  apply one_partExact even divides inParts
  · intro local_ inRatio
    apply (Copy.chunked_carries _ _ _ covered).congr
    intro inner inside
    exact table.rank_gateUp divides (by decide) inRatio inside
  · intro local_ inRatio
    apply (Copy.chunked_carries _ _ _ covered).congr
    intro inner inside
    exact table.rank_gateUp divides (by decide) inRatio inside
  · intro local_ inRatio row inner inRow inWidth
    rw [Nat.add_assoc]
    exact table.rank_down even divides inRatio inRow inWidth

end

section

variable {S F : Type} {conversion : Conversion S F} {floats : Slot × Nat → F} {scales : Mat → Nat → S}

theorem PartExact.perm {copies order : List (Copy Destination α)} (exact_ : call.PartExact unit original part copies)
    (same : order.Perm copies) : call.PartExact unit original part order where
  inside := fun rank target offset inRanks inCells owned =>
    (exact_.inside rank target offset inRanks inCells owned).perm same
  foreign := fun rank target offset inRanks inCells different =>
    (Copy.writes_perm same _).trans (exact_.foreign rank target offset inRanks inCells different)
  outside := fun rank target offset out =>
    (Copy.writes_perm same _).trans (exact_.outside rank target offset out)

/-- The floats of a table came from bf16 numbers, and become these again. -/
theorem fastFp32ToBf16_widen {source : Nat → F} {scale : S} (conversion : Conversion S F) (count : Nat)
    (wide : source index = conversion.widen scale) :
    conversion.fastFp32ToBf16 count source index = scale := by
  unfold Conversion.fastFp32ToBf16
  rw [wide]
  split
  · exact conversion.narrowFast_widen scale
  · exact conversion.narrow_widen scale

theorem manyScales_exact (divides : call.shape.tpCount = call.gpuTpCount * call.ratio)
    (inParts : part < call.shape.tpCount)
    (table : call.LinearTable call.shape.group (fun mat offset => conversion.widen (scales mat offset)) part
      fun mat inner => floats (⟨mat, call.slot⟩, inner)) :
    call.PartExact call.shape.group scales part (call.manyScales conversion floats part) := by
  simp only [manyScales, downColumns_eq, cpuTpScaleCount_eq, gpuTpScaleCount_eq]
  apply PartExact.perm _ List.perm_append_comm
  apply many_partExact call.group_dvd_gpuPart divides inParts
  · apply (Copy.single_carries _ _ _ _).congr
    intro inner inside
    exact fastFp32ToBf16_widen conversion _ (table.gateUp .gate (by decide) inner inside)
  · apply (Copy.single_carries _ _ _ _).congr
    intro inner inside
    exact fastFp32ToBf16_widen conversion _ (table.gateUp .up (by decide) inner inside)
  · intro row inner inRow inWidth
    exact fastFp32ToBf16_widen conversion _ (table.down row inner inRow inWidth)

theorem oneScales_exact (divides : call.gpuTpCount = call.shape.tpCount * call.ranksPerPart)
    (inParts : part < call.shape.tpCount)
    (table : call.LinearTable call.shape.group (fun mat offset => conversion.widen (scales mat offset)) part
      fun mat inner => floats (⟨mat, call.slot⟩, inner)) :
    call.PartExact call.shape.group scales part (call.oneScales conversion floats part) := by
  have some_ := ranksPerPart_positive divides
  have whole : call.shape.group.size ∣ call.gpuPart := call.group_dvd_gpuPart
  have data : call.cpuTpScaleCount / call.ranksPerPart = call.half call.shape.group := by
    rw [cpuTpScaleCount_eq, partCells_of_ratio call.shape.group divides, Nat.mul_div_cancel_left _ some_]
  have perColumn : call.shape.partSize / call.ranksPerPart / call.shape.groupSize =
      call.rankWidth call.shape.group := by
    rw [partSize_of_ratio divides, Nat.mul_div_cancel_left _ some_]
    rfl
  simp only [oneScales, downColumns_eq, data, perColumn, gpuTpScaleCount_eq, column_start whole]
  apply PartExact.perm _ (List.Perm.flatMap_left _ fun local_ _ => List.perm_append_comm)
  apply one_partExact whole divides inParts
  · intro local_ inRatio
    apply (Copy.single_carries _ _ _ _).congr
    intro inner inside
    exact fastFp32ToBf16_widen conversion _ (table.rank_gateUp divides (by decide) inRatio inside)
  · intro local_ inRatio
    apply (Copy.single_carries _ _ _ _).congr
    intro inner inside
    exact fastFp32ToBf16_widen conversion _ (table.rank_gateUp divides (by decide) inRatio inside)
  · intro local_ inRatio row inner inRow inWidth
    apply fastFp32ToBf16_widen conversion
    rw [Nat.add_assoc]
    exact table.rank_down whole divides inRatio inRow inWidth

end

end Export

end KtKernel.K2
