import Mathlib.Algebra.BigOperators.Group.Finset.Piecewise
import Mathlib.Algebra.Order.BigOperators.Group.Finset
import Mathlib.Logic.Function.Basic

namespace KtKernel.Data

/-- How many of the first `total` entries satisfy the test. -/
def tally (total : Nat) (test : α → Bool) (entries : Nat → α) : Nat :=
  ∑ index ∈ Finset.range total, (test (entries index)).toNat

/-- Replacing one entry moves a tally by the difference at that entry. -/
theorem tally_update (test : α → Bool) (entries : Nat → α) {total index : Nat}
    (inside : index < total) (value : α) :
    tally total test (Function.update entries index value) + (test (entries index)).toNat =
      tally total test entries + (test value).toNat := by
  have member : index ∈ Finset.range total := Finset.mem_range.mpr inside
  have others : ∑ other ∈ (Finset.range total).erase index,
        (test (Function.update entries index value other)).toNat =
      ∑ other ∈ (Finset.range total).erase index, (test (entries other)).toNat := by
    refine Finset.sum_congr rfl fun other different => ?_
    rw [Function.update_of_ne (Finset.ne_of_mem_erase different)]
  unfold tally
  rw [← Finset.sum_erase_add _ _ member, ← Finset.sum_erase_add (Finset.range total) _ member,
    others, Function.update_self]
  omega

theorem tally_eq_zero {total : Nat} {test : α → Bool} {entries : Nat → α}
    (none : ∀ index < total, test (entries index) = false) : tally total test entries = 0 := by
  refine Finset.sum_eq_zero fun index member => ?_
  rw [none index (Finset.mem_range.mp member)]
  rfl

/-- An entry that fails the test leaves room in the tally. -/
theorem tally_lt {total : Nat} {test : α → Bool} {entries : Nat → α} {index : Nat}
    (inside : index < total) (fails : test (entries index) = false) :
    tally total test entries < total := by
  have member : index ∈ Finset.range total := Finset.mem_range.mpr inside
  have bound : ∑ other ∈ (Finset.range total).erase index, (test (entries other)).toNat ≤
      ((Finset.range total).erase index).card * 1 :=
    Finset.sum_le_card_nsmul _ _ _ fun other _ => Bool.toNat_le _
  rw [Finset.card_erase_of_mem member, Finset.card_range] at bound
  unfold tally
  rw [← Finset.sum_erase_add _ _ member, fails]
  simp only [Bool.toNat_false]
  omega

end KtKernel.Data
