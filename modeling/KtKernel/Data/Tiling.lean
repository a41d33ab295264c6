import Mathlib.Algebra.Order.Ring.Nat

namespace KtKernel.Data

/-! Tasks numbered by a place and a share, and ranges divided into blocks. -/

variable {index ith nth count column size block : Nat}

theorem pairIndex_lt (place : index < count) (share : ith < nth) : index * nth + ith < nth * count := by
  have whole := Nat.mul_le_mul_right nth (show index + 1 ≤ count from place)
  rw [Nat.add_mul, Nat.one_mul] at whole
  rw [Nat.mul_comm nth]
  omega

theorem pairIndex_div (index : Nat) (share : ith < nth) : (index * nth + ith) / nth = index := by
  rw [Nat.mul_comm, Nat.mul_add_div (by omega), Nat.div_eq_of_lt share, Nat.add_zero]

theorem pairIndex_mod (index : Nat) (share : ith < nth) : (index * nth + ith) % nth = ith := by
  rw [Nat.mul_comm, Nat.mul_add_mod, Nat.mod_eq_of_lt share]

theorem block_of_mem {offset other : Nat} (inside : offset < size) (above : other * size ≤ index * size + offset)
    (below : index * size + offset < (other + 1) * size) : other = index := by
  rcases Nat.lt_trichotomy other index with less | same | more
  · have gap : (other + 1) * size ≤ index * size := Nat.mul_le_mul_right _ less
    omega
  · exact same
  · have gap : (index + 1) * size ≤ other * size := Nat.mul_le_mul_right _ more
    rw [Nat.add_mul, Nat.one_mul] at gap
    omega

theorem div_lt_blocks (positive : 0 < block) (inside : column < size) :
    column / block < (size + block - 1) / block := by
  apply (Nat.le_div_iff_mul_le positive).mpr
  have split := Nat.div_add_mod' column block
  rw [Nat.succ_mul]
  omega

/-- A place is in the chunk that its quotient names, of which the last may be short. -/
theorem place_in_chunk (positive : 0 < block) (inside : column < size) :
    column / block * block ≤ column ∧ column < column / block * block + min block (size - column / block * block) := by
  have split := Nat.div_add_mod' column block
  have rest := Nat.mod_lt column positive
  omega

theorem mem_block_iff (positive : 0 < block) (inside : column < size) :
    (block * ith ≤ column ∧ column < min size (block * (ith + 1))) ↔ ith = column / block := by
  constructor
  · intro range
    symm
    apply Nat.div_eq_of_lt_le
    · rw [Nat.mul_comm]
      exact range.1
    · rw [Nat.mul_comm]
      exact range.2.trans_le (min_le_right _ _)
  · intro same
    subst same
    have split := Nat.div_add_mod column block
    have small := Nat.mod_lt column positive
    rw [Nat.mul_add, Nat.mul_one]
    omega

/-! ## Two divisions of one range

A range is divided into pieces, and `ratio` pieces make a block. -/

variable {ratio piece rank part offset : Nat}

theorem piece_in_block_iff (inside : offset < ratio * piece) :
    (rank * (ratio * piece) + offset) / piece = part ↔
      rank = part / ratio ∧ part % ratio * piece ≤ offset ∧ offset < part % ratio * piece + piece := by
  have positive : 0 < piece := Nat.pos_of_mul_pos_left (Nat.zero_lt_of_lt inside)
  have inRatio : offset / piece < ratio := by
    apply Nat.div_lt_of_lt_mul
    rw [Nat.mul_comm]
    exact inside
  have place : (rank * (ratio * piece) + offset) / piece = rank * ratio + offset / piece := by
    rw [← Nat.mul_assoc, Nat.mul_comm (rank * ratio), Nat.mul_add_div positive]
  have split := Nat.div_add_mod' offset piece
  have small := Nat.mod_lt offset positive
  rw [place]
  constructor
  · intro same
    subst same
    rw [pairIndex_div rank inRatio, pairIndex_mod rank inRatio]
    omega
  · intro range
    obtain ⟨same, above, below⟩ := range
    have within : offset / piece = part % ratio := by
      apply Nat.div_eq_of_lt_le above
      rw [Nat.add_mul, Nat.one_mul]
      exact below
    rw [same, within, Nat.div_add_mod']

/-- The block of a place, found from its piece. -/
theorem block_of_piece (inside : offset < piece) :
    (index * piece + offset) / (ratio * piece) = index / ratio := by
  rw [Nat.mul_comm ratio, ← Nat.div_div_eq_div_mul, pairIndex_div index inside]

theorem offset_of_piece (inside : offset < piece) :
    (index * piece + offset) % (ratio * piece) = index % ratio * piece + offset := by
  have window : (index * piece + offset) / (ratio * piece) = index / ratio := block_of_piece inside
  have split := Nat.div_add_mod' index ratio
  have product := congrArg (· * piece) split
  have whole := Nat.div_add_mod' (index * piece + offset) (ratio * piece)
  simp only [Nat.add_mul, Nat.mul_assoc] at product
  rw [window] at whole
  omega

/-- A part of a piece stays in the block of the piece. -/
theorem piece_fits (index : Nat) (some_ : 0 < ratio) (inside : offset < piece) (fits : offset + size ≤ piece) :
    (index * piece + offset) % (ratio * piece) + size ≤ ratio * piece := by
  have last : (index % ratio + 1) * piece ≤ ratio * piece := Nat.mul_le_mul_right _ (Nat.mod_lt _ some_)
  rw [Nat.add_mul, Nat.one_mul] at last
  rw [offset_of_piece inside]
  omega

/-! The sizes of the small configurations. -/

theorem three_positive : 0 < 3 := by decide

theorem vector_positive : 0 < 32 := by decide

theorem hidden_positive : 0 < 64 := by decide

theorem block_positive : 0 < 256 := by decide

theorem hidden_groups : 32 ∣ 64 := by decide

end KtKernel.Data
