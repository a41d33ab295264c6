import KtKernel.Data.Jobs
import KtKernel.Data.Tiling
import Mathlib.Tactic.Ring

namespace KtKernel.Data

/-! Arrays that go from equal parts to equal ranks.

One axis of the array is divided twice, into the units of the parts and into the units
of the ranks.  The copies of a part are given by pieces: a range of units of one rank,
taken from a range of units of the part.
-/

/-- The buffers of the ranks for one array.  A rank's units lie within the rows of its
buffer, or they are the rows. -/
structure Shard (τ α : Type) where
  tag : τ
  base : Nat
  ranks : Nat
  rankUnits : Nat
  partUnits : Nat
  across : Nat
  inner : Bool
  /-- The array, by part, unit of the part and place along the other axis. -/
  value : Nat → Nat → Nat → α

/-- Units of a rank, from `start` on, with the units of a part from `offset` on. -/
structure Piece where
  rank : Nat
  start : Nat
  offset : Nat
  length : Nat
deriving DecidableEq, Repr

structure Tiles {κ : Type} (ranks rankUnits partUnits part : Nat) (indices : List κ) (pieces : κ → Piece) : Prop where
  covered : ∀ rank < ranks, ∀ unit < rankUnits, (rank * rankUnits + unit) / partUnits = part →
    ∃ index ∈ indices, (pieces index).rank = rank ∧ (pieces index).start ≤ unit ∧
      unit < (pieces index).start + (pieces index).length
  fits : ∀ index ∈ indices, 0 < (pieces index).length →
    (pieces index).rank < ranks ∧ (pieces index).start + (pieces index).length ≤ rankUnits
  placed : ∀ index ∈ indices, ∀ unit < (pieces index).length,
    (pieces index).rank * rankUnits + ((pieces index).start + unit) = part * partUnits + ((pieces index).offset + unit) ∧
      (pieces index).offset + unit < partUnits
  apart : ∀ index ∈ indices, ∀ other ∈ indices, (pieces index).rank = (pieces other).rank →
    ∀ unit, (pieces index).start ≤ unit → unit < (pieces index).start + (pieces index).length →
      (pieces other).start ≤ unit → unit < (pieces other).start + (pieces other).length → index = other

namespace Shard

variable {τ α κ : Type} [DecidableEq τ] {shard : Shard τ α} {part offset : Nat} {piece : Piece}

def size (shard : Shard τ α) : Nat :=
  shard.rankUnits * shard.across

/-- The unit of a place in a buffer. -/
def unit (shard : Shard τ α) (offset : Nat) : Nat :=
  if shard.inner then offset % shard.rankUnits else offset / shard.across

def other (shard : Shard τ α) (offset : Nat) : Nat :=
  if shard.inner then offset / shard.rankUnits else offset % shard.across

def whole (shard : Shard τ α) (cell : (Nat × τ) × Nat) : Nat :=
  cell.1.1 * shard.rankUnits + shard.unit (cell.2 - shard.base)

def Has (shard : Shard τ α) (cell : (Nat × τ) × Nat) : Prop :=
  cell.1.2 = shard.tag ∧ cell.1.1 < shard.ranks ∧ shard.base ≤ cell.2 ∧ cell.2 < shard.base + shard.size

instance (shard : Shard τ α) (cell : (Nat × τ) × Nat) : Decidable (shard.Has cell) :=
  inferInstanceAs (Decidable (_ ∧ _ ∧ _ ∧ _))

/-- What belongs into a cell. -/
def content (shard : Shard τ α) (cell : (Nat × τ) × Nat) : α :=
  shard.value (shard.whole cell / shard.partUnits) (shard.whole cell % shard.partUnits)
    (shard.other (cell.2 - shard.base))

/-- The buffers of all ranks. -/
def all (shard : Shard τ α) (cell : (Nat × τ) × Nat) : Option α :=
  if shard.Has cell then some (shard.content cell) else none

def ofPart (shard : Shard τ α) (part : Nat) (cell : (Nat × τ) × Nat) : Option α :=
  if shard.Has cell ∧ shard.whole cell / shard.partUnits = part then some (shard.content cell) else none

def ofPiece (shard : Shard τ α) (part : Nat) (piece : Piece) (cell : (Nat × τ) × Nat) : Option α :=
  let unit := shard.unit (cell.2 - shard.base)
  if cell.1 = (piece.rank, shard.tag) ∧ shard.base ≤ cell.2 ∧ cell.2 < shard.base + shard.size ∧
      piece.start ≤ unit ∧ unit < piece.start + piece.length then
    some (shard.value part (piece.offset + (unit - piece.start)) (shard.other (cell.2 - shard.base)))
  else none

omit [DecidableEq τ] in
theorem unit_lt (inside : offset < shard.size) : shard.unit offset < shard.rankUnits := by
  rw [unit]
  split
  · exact Nat.mod_lt _ (Nat.pos_of_mul_pos_right (Nat.zero_lt_of_lt inside))
  · apply Nat.div_lt_of_lt_mul
    rwa [Nat.mul_comm]

theorem exactly_of_parts {parts : Nat} {body : Nat → List (Copy (Nat × τ) α)}
    (same : shard.ranks * shard.rankUnits = parts * shard.partUnits)
    (each : ∀ part < parts, Copy.Exactly (body part) (shard.ofPart part)) :
    Copy.Exactly ((List.range parts).flatMap body) shard.all := by
  apply Copy.Exactly.range each
  · intro cell value found
    rw [all] at found
    split at found
    · next has =>
        refine ⟨shard.whole cell / shard.partUnits, ?_, ?_⟩
        · obtain ⟨-, inRanks, above, below⟩ := has
          have inUnits : shard.unit (cell.2 - shard.base) < shard.rankUnits := unit_lt (by omega)
          have inArray := pairIndex_lt inRanks inUnits
          rw [Nat.mul_comm shard.rankUnits, same] at inArray
          apply Nat.div_lt_of_lt_mul
          rwa [Nat.mul_comm]
        · rw [Shard.ofPart, if_pos ⟨has, rfl⟩]
          exact found
    · contradiction
  · intro index _ cell value found
    rw [Shard.ofPart] at found
    split at found
    · next has =>
        rw [all, if_pos has.1]
        exact found
    · contradiction
  · intro index _ other _ cell value found different
    rw [Shard.ofPart] at found
    split at found
    · next has =>
        rw [Shard.ofPart, if_neg]
        intro has'
        exact different (has.2.symm.trans has'.2)
    · contradiction

theorem part_of_pieces {indices : List κ} {pieces : κ → Piece} {body : κ → List (Copy (Nat × τ) α)}
    (distinct : indices.Nodup) (tiles : Tiles shard.ranks shard.rankUnits shard.partUnits part indices pieces)
    (each : ∀ index ∈ indices, Copy.Exactly (body index) (shard.ofPiece part (pieces index))) :
    Copy.Exactly (indices.flatMap body) (shard.ofPart part) := by
  have content : ∀ index ∈ indices, ∀ cell value, shard.ofPiece part (pieces index) cell = some value →
      shard.ofPart part cell = some value := by
    intro index member cell value found
    simp only [ofPiece] at found
    split at found
    · next inside =>
        obtain ⟨region, above, below, lower, upper⟩ := inside
        obtain ⟨inRanks, _⟩ := tiles.fits index member (by omega)
        obtain ⟨place, inPart⟩ := tiles.placed index member
          (shard.unit (cell.2 - shard.base) - (pieces index).start) (by omega)
        rw [Nat.add_sub_cancel' lower] at place
        have whole : shard.whole cell = part * shard.partUnits +
            ((pieces index).offset + (shard.unit (cell.2 - shard.base) - (pieces index).start)) := by
          rw [Shard.whole, region]
          exact place
        have owner := pairIndex_div part inPart
        have rest := pairIndex_mod part inPart
        rw [← whole] at owner rest
        rw [Shard.ofPart, if_pos ⟨⟨by rw [region], by rw [region]; exact inRanks, above, below⟩, owner⟩, Shard.content, owner,
          rest]
        exact found
    · contradiction
  apply Copy.Exactly.flatMap distinct each
  · intro cell value found
    have cellFound := found
    rw [Shard.ofPart] at found
    split at found
    · next has =>
        obtain ⟨⟨tag, inRanks, above, below⟩, owner⟩ := has
        have inUnits : shard.unit (cell.2 - shard.base) < shard.rankUnits := unit_lt (by omega)
        obtain ⟨index, member, rank, lower, upper⟩ := tiles.covered cell.1.1 inRanks _ inUnits owner
        refine ⟨index, member, ?_⟩
        have some_ : shard.ofPiece part (pieces index) cell = some _ :=
          if_pos ⟨Prod.ext rank.symm tag, above, below, lower, upper⟩
        have same := content index member cell _ some_
        rw [cellFound] at same
        rw [some_]
        exact same.symm
    · contradiction
  · exact content
  · intro index member other inIndices cell value found different
    simp only [ofPiece] at found ⊢
    split at found
    · next inside =>
        rw [if_neg]
        intro inside'
        apply different
        apply tiles.apart index member other inIndices _ _ inside.2.2.2.1 inside.2.2.2.2 inside'.2.2.2.1 inside'.2.2.2.2
        have regions := inside.1.symm.trans inside'.1
        exact (Prod.mk.inj regions).1
    · contradiction

/-- A piece of a buffer whose rows are the units is one range. -/
theorem outer_exactly {copies : List (Copy (Nat × τ) α)} (outer : shard.inner = false)
    (fits : 0 < piece.length → piece.start + piece.length ≤ shard.rankUnits)
    (carries : Copy.Carries copies (piece.rank, shard.tag) (shard.base + piece.start * shard.across)
      (piece.length * shard.across) fun inner =>
        shard.value part (piece.offset + inner / shard.across) (inner % shard.across)) :
    Copy.Exactly copies (shard.ofPiece part piece) := by
  apply carries.exactly.congr
  intro cell
  simp only [Copy.window, ofPiece, Shard.unit, Shard.other, outer, Bool.false_eq_true, if_false]
  by_cases region : (piece.rank, shard.tag) = cell.1
  · by_cases inside : shard.base + piece.start * shard.across ≤ cell.2 ∧
        cell.2 < shard.base + piece.start * shard.across + piece.length * shard.across
    · obtain ⟨above, below⟩ := inside
      obtain ⟨inner, place⟩ : ∃ inner, cell.2 - (shard.base + piece.start * shard.across) = inner := ⟨_, rfl⟩
      have inPiece : inner < piece.length * shard.across := by omega
      have positive : 0 < shard.across := Nat.pos_of_mul_pos_left (Nat.zero_lt_of_lt inPiece)
      have offset : cell.2 - shard.base = shard.across * piece.start + inner := by
        rw [Nat.mul_comm shard.across]
        omega
      have inRows : inner / shard.across < piece.length := by
        apply Nat.div_lt_of_lt_mul
        rwa [Nat.mul_comm]
      have last : (piece.start + piece.length) * shard.across ≤ shard.size :=
        Nat.mul_le_mul_right _ (fits (Nat.zero_lt_of_lt inRows))
      rw [Nat.add_mul] at last
      have inBuffer : cell.2 < shard.base + shard.size := by omega
      rw [if_pos ⟨region, above, below⟩, place, offset, Nat.mul_add_div positive, Nat.mul_add_mod,
        if_pos ⟨region.symm, by omega, inBuffer, Nat.le_add_right _ _, Nat.add_lt_add_left inRows _⟩, Nat.add_sub_cancel_left]
    · rw [if_neg (fun has => inside has.2), if_neg]
      intro has
      obtain ⟨-, above, below, lower, upper⟩ := has
      apply inside
      have whole := Nat.div_add_mod' (cell.2 - shard.base) shard.across
      have positive : 0 < shard.across := by
        apply Nat.pos_of_ne_zero
        intro none
        rw [Shard.size, none, Nat.mul_zero] at below
        omega
      have small := Nat.mod_lt (cell.2 - shard.base) positive
      have first := Nat.mul_le_mul_right shard.across lower
      have final := Nat.mul_le_mul_right shard.across (Nat.succ_le_of_lt upper)
      rw [Nat.succ_mul, Nat.add_mul] at final
      omega
  · rw [if_neg (fun has => region has.1), if_neg (fun has => region has.1.symm)]

/-- A piece of a buffer whose units lie within the rows is a piece of every row. -/
theorem inner_exactly {value : Nat → Nat → α} (inner : shard.inner = true)
    (fits : 0 < piece.length → piece.start + piece.length ≤ shard.rankUnits)
    (same : ∀ row < shard.across, ∀ column < piece.length,
      value row column = shard.value part (piece.offset + column) row) :
    Copy.Exactly (Copy.strided (piece.rank, shard.tag) (shard.base + piece.start) shard.rankUnits piece.length value shard.across)
      (shard.ofPiece part piece) := by
  by_cases none : piece.length = 0
  · apply Copy.Exactly.empty
    · intro copy member
      obtain ⟨row, -, inRow⟩ := List.mem_flatMap.mp member
      rw [List.mem_singleton.mp inRow]
      exact none
    · intro cell
      simp only [ofPiece]
      rw [if_neg]
      intro inside
      omega
  apply (Copy.strided_exactly (piece.rank, shard.tag) shard.base value (fits (Nat.pos_of_ne_zero none))).congr
  intro cell
  have sizes : shard.size = shard.across * shard.rankUnits := Nat.mul_comm _ _
  simp only [Copy.lanes, ofPiece, Shard.unit, Shard.other, inner, if_true, ← sizes]
  by_cases region : (piece.rank, shard.tag) = cell.1
  · rw [region]
    by_cases inside : cell.1 = cell.1 ∧ shard.base ≤ cell.2 ∧ cell.2 < shard.base + shard.size ∧
        piece.start ≤ (cell.2 - shard.base) % shard.rankUnits ∧
        (cell.2 - shard.base) % shard.rankUnits < piece.start + piece.length
    · have inRows : (cell.2 - shard.base) / shard.rankUnits < shard.across := by
        apply Nat.div_lt_of_lt_mul
        rw [Nat.mul_comm, ← sizes]
        omega
      rw [if_pos inside, if_pos inside, same _ inRows _ (by omega)]
    · rw [if_neg inside, if_neg inside]
  · rw [if_neg (fun has => region has.1), if_neg (fun has => region has.1.symm)]

end Shard

/-! ## Tilings -/

variable {ranks rankUnits partUnits part parts ratio : Nat}

/-- Every unit for itself. -/
theorem tiles_units (same : ranks * rankUnits = parts * partUnits) (inParts : part < parts) :
    Tiles ranks rankUnits partUnits part (List.range partUnits) fun unit =>
      ⟨(part * partUnits + unit) / rankUnits, (part * partUnits + unit) % rankUnits, unit, 1⟩ where
  covered := by
    intro rank inRanks unit inUnits owner
    have positive : 0 < partUnits := by
      apply Nat.pos_of_ne_zero
      intro none
      have inArray := pairIndex_lt inRanks inUnits
      rw [Nat.mul_comm rankUnits, same, none, Nat.mul_zero] at inArray
      contradiction
    have whole := Nat.div_add_mod' (rank * rankUnits + unit) partUnits
    rw [owner] at whole
    refine ⟨(rank * rankUnits + unit) % partUnits, List.mem_range.mpr (Nat.mod_lt _ positive), ?_, ?_, ?_⟩
    · simp only [whole, pairIndex_div rank inUnits]
    · simp only [whole, pairIndex_mod rank inUnits, Nat.le_refl]
    · simp only [whole, pairIndex_mod rank inUnits, Nat.lt_succ_self]
  fits := by
    intro unit member _
    have inArray := pairIndex_lt inParts (List.mem_range.mp member)
    rw [Nat.mul_comm partUnits, ← same, Nat.mul_comm ranks] at inArray
    have positive : 0 < rankUnits := Nat.pos_of_mul_pos_right (Nat.zero_lt_of_lt inArray)
    exact ⟨Nat.div_lt_of_lt_mul inArray, Nat.mod_lt _ positive⟩
  placed := by
    intro unit member offset inside
    obtain rfl : offset = 0 := by simpa using inside
    simp only [Nat.add_zero]
    exact ⟨Nat.div_add_mod' _ _, List.mem_range.mp member⟩
  apart := by
    intro unit _ other _ rank place lower upper lower' upper'
    simp only at rank lower upper lower' upper'
    have whole := Nat.div_add_mod' (part * partUnits + unit) rankUnits
    have whole' := Nat.div_add_mod' (part * partUnits + other) rankUnits
    rw [rank] at whole
    omega

theorem tiles_many (same : ranks * rankUnits = parts * partUnits) (fill : rankUnits = ratio * partUnits)
    (inParts : part < parts) :
    Tiles ranks rankUnits partUnits part (List.range 1) fun _ => ⟨part / ratio, part % ratio * partUnits, 0, partUnits⟩ where
  covered := by
    intro rank inRanks unit inUnits owner
    rw [fill] at inUnits owner
    obtain ⟨rankEq, above, below⟩ := (piece_in_block_iff inUnits).mp owner
    exact ⟨0, List.mem_range.mpr Nat.one_pos, rankEq.symm, above, below⟩
  fits := by
    intro _ _ some_
    simp only at some_ ⊢
    have someRatio : 0 < ratio := by
      apply Nat.pos_of_ne_zero
      intro none
      rw [fill, none, Nat.zero_mul, Nat.mul_zero] at same
      have empty := Nat.mul_pos (Nat.zero_lt_of_lt inParts) some_
      omega
    constructor
    · rw [fill, ← Nat.mul_assoc] at same
      have counts := Nat.eq_of_mul_eq_mul_right some_ same
      apply Nat.div_lt_of_lt_mul
      rw [Nat.mul_comm, counts]
      exact inParts
    · have last : (part % ratio + 1) * partUnits ≤ ratio * partUnits :=
        Nat.mul_le_mul_right _ (Nat.mod_lt _ someRatio)
      rw [Nat.add_mul, Nat.one_mul] at last
      rw [fill]
      exact last
  placed := by
    intro _ _ unit inside
    simp only at inside ⊢
    rw [Nat.zero_add]
    refine ⟨?_, inside⟩
    rw [fill, ← Nat.mul_assoc, ← Nat.add_assoc, ← Nat.add_mul, Nat.div_add_mod']
  apart := by
    intro index inOne other inOne' _ _ _ _ _ _
    simp only [List.mem_range] at inOne inOne'
    omega

theorem tiles_one (same : ranks * rankUnits = parts * partUnits) (fill : partUnits = ratio * rankUnits)
    (inParts : part < parts) :
    Tiles ranks rankUnits partUnits part (List.range ratio) fun index =>
      ⟨part * ratio + index, 0, index * rankUnits, rankUnits⟩ where
  covered := by
    intro rank inRanks unit inUnits owner
    have someRatio : 0 < ratio := by
      apply Nat.pos_of_ne_zero
      intro none
      have inArray := pairIndex_lt inRanks inUnits
      rw [Nat.mul_comm rankUnits, same, fill, none, Nat.zero_mul, Nat.mul_zero] at inArray
      contradiction
    rw [fill, block_of_piece inUnits] at owner
    refine ⟨rank % ratio, List.mem_range.mpr (Nat.mod_lt _ someRatio), ?_, Nat.zero_le _, ?_⟩
    · simp only
      rw [← owner, Nat.div_add_mod']
    · rw [Nat.zero_add]
      exact inUnits
  fits := by
    intro index member some_
    simp only at some_ ⊢
    rw [fill, ← Nat.mul_assoc] at same
    have counts := Nat.eq_of_mul_eq_mul_right some_ same
    rw [counts, Nat.zero_add]
    refine ⟨?_, Nat.le_refl _⟩
    rw [Nat.mul_comm parts]
    exact pairIndex_lt inParts (List.mem_range.mp member)
  placed := by
    intro index member unit inside
    simp only at inside ⊢
    constructor
    · rw [fill]
      ring
    · rw [fill, Nat.mul_comm ratio]
      exact pairIndex_lt (List.mem_range.mp member) inside
  apart := by
    intro index _ other _ rank _ _ _ _ _
    simp only at rank
    omega

theorem Tiles.congr {κ : Type} {indices : List κ} {pieces pieces' : κ → Piece}
    (tiles : Tiles ranks rankUnits partUnits part indices pieces) (same : ∀ index ∈ indices, pieces index = pieces' index) :
    Tiles ranks rankUnits partUnits part indices pieces' where
  covered := by
    intro rank inRanks unit inUnits owner
    obtain ⟨index, member, place⟩ := tiles.covered rank inRanks unit inUnits owner
    rw [same index member] at place
    exact ⟨index, member, place⟩
  fits := by
    intro index member
    rw [← same index member]
    exact tiles.fits index member
  placed := by
    intro index member
    rw [← same index member]
    exact tiles.placed index member
  apart := by
    intro index member other inIndices
    rw [← same index member, ← same other inIndices]
    exact tiles.apart index member other inIndices

/-- A part cut at every rank's length from its own first unit on, where one of the two
lengths divides the other. -/
theorem tiles_walk (same : ranks * rankUnits = parts * partUnits) (inParts : part < parts) (someRank : 0 < rankUnits)
    (somePart : 0 < partUnits) (nested : rankUnits ∣ partUnits ∨ partUnits ∣ rankUnits) :
    Tiles ranks rankUnits partUnits part (List.range ((partUnits + rankUnits - 1) / rankUnits)) fun index =>
      ⟨(part * partUnits + index * rankUnits) / rankUnits, (part * partUnits + index * rankUnits) % rankUnits,
        index * rankUnits, min rankUnits (partUnits - index * rankUnits)⟩ := by
  rcases nested with ⟨ratio, fill⟩ | ⟨ratio, fill⟩
  · rw [Nat.mul_comm] at fill
    have steps : (partUnits + rankUnits - 1) / rankUnits = ratio := by
      rw [fill, Nat.add_sub_assoc someRank, Nat.mul_comm, Nat.mul_add_div someRank,
        Nat.div_eq_of_lt (Nat.sub_one_lt (Nat.ne_of_gt someRank)), Nat.add_zero]
    rw [steps]
    apply (tiles_one same fill inParts).congr
    intro index member
    have place : part * partUnits + index * rankUnits = (part * ratio + index) * rankUnits := by
      rw [fill]
      ring
    have last : (index + 1) * rankUnits ≤ ratio * rankUnits := Nat.mul_le_mul_right _ (List.mem_range.mp member)
    rw [Nat.add_mul, Nat.one_mul, ← fill] at last
    rw [place, Nat.mul_div_cancel _ someRank, Nat.mul_mod_left, Nat.min_eq_left (by omega)]
  · rw [Nat.mul_comm] at fill
    have someRatio : 0 < ratio := by
      apply Nat.pos_of_ne_zero
      intro none
      rw [none, Nat.zero_mul] at fill
      omega
    have le : partUnits ≤ rankUnits := by
      rw [fill]
      exact Nat.le_mul_of_pos_left _ someRatio
    have steps : (partUnits + rankUnits - 1) / rankUnits = 1 := by
      apply Nat.div_eq_of_lt_le
      · omega
      · omega
    rw [steps]
    apply (tiles_many same fill inParts).congr
    intro index member
    obtain rfl : index = 0 := by simpa using member
    have owner : (part * partUnits + 0) / (ratio * partUnits) = part / ratio := block_of_piece somePart
    have start : (part * partUnits + 0) % (ratio * partUnits) = part % ratio * partUnits + 0 := offset_of_piece somePart
    rw [← fill] at owner start
    rw [Nat.zero_mul, owner, start, Nat.add_zero, Nat.sub_zero, Nat.min_eq_right le]

end KtKernel.Data
