import Mathlib.Algebra.BigOperators.Group.List.Basic
import Mathlib.Algebra.Order.Ring.Nat
import Mathlib.Algebra.Order.BigOperators.Group.List
import Mathlib.Data.List.GetD
import Mathlib.Data.Nat.Find

namespace KtKernel.Data

/-! Consecutive pieces of a range.

Pieces of the given sizes are cut from the start of a range one after another, as
a pool hands out memory or a dimension is divided between parts. -/

def pieceStart (sizes : List Nat) (index : Nat) : Nat :=
  (sizes.take index).sum

theorem pieceStart_zero (sizes : List Nat) : pieceStart sizes 0 = 0 := by
  simp only [pieceStart, List.take_zero, List.sum_nil]

theorem pieceStart_succ (sizes : List Nat) (index : Nat) :
    pieceStart sizes (index + 1) = pieceStart sizes index + sizes.getD index 0 := by
  rw [pieceStart, pieceStart]
  by_cases inside : index < sizes.length
  · rw [List.sum_take_succ _ _ inside, List.getD_eq_getElem _ _ inside]
  · rw [List.take_of_length_le (by omega), List.take_of_length_le (by omega),
      List.getD_eq_default _ _ (by omega)]
    rfl

theorem pieceStart_mono (sizes : List Nat) : Monotone (pieceStart sizes) := by
  apply monotone_nat_of_le_succ
  intro index
  rw [pieceStart_succ]
  exact Nat.le_add_right _ _

theorem pieceStart_length (sizes : List Nat) : pieceStart sizes sizes.length = sizes.sum := by
  rw [pieceStart, List.take_length]

theorem exists_piece (inside : position < sizes.sum) :
    ∃ index < sizes.length, pieceStart sizes index ≤ position ∧
      position < pieceStart sizes (index + 1) := by
  have beyond : ∃ bound, position < pieceStart sizes bound :=
    ⟨sizes.length, by rw [pieceStart_length]; exact inside⟩
  have least := Nat.find_spec beyond
  have positive : Nat.find beyond ≠ 0 := by
    intro zero
    rw [zero, pieceStart_zero] at least
    omega
  obtain ⟨index, next⟩ := Nat.exists_eq_succ_of_ne_zero positive
  have before : ¬ position < pieceStart sizes index := Nat.find_min beyond (by omega)
  have within : Nat.find beyond ≤ sizes.length :=
    Nat.find_min' beyond (by rw [pieceStart_length]; exact inside)
  refine ⟨index, by omega, by omega, ?_⟩
  rw [next] at least
  exact least

/-- No position belongs to two pieces. -/
theorem piece_unique (first : pieceStart sizes left ≤ position ∧ position < pieceStart sizes (left + 1))
    (second : pieceStart sizes right ≤ position ∧ position < pieceStart sizes (right + 1)) :
    left = right := by
  rcases Nat.lt_trichotomy left right with less | same | more
  · have order := pieceStart_mono sizes (show left + 1 ≤ right from less)
    omega
  · exact same
  · have order := pieceStart_mono sizes (show right + 1 ≤ left from more)
    omega

end KtKernel.Data
