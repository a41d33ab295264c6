import Mathlib.Data.List.Sort
import Mathlib.Data.Fintype.Card
import Mathlib.Data.List.FinRange

namespace KtKernel.Data

/-! The indices of the largest values of a vector, ties broken in any way. -/

variable {n : Nat} {α : Type}

/-- `indices` are distinct and hold `k` largest scores. -/
structure IsTopk [LE α] (scores : Fin n → α) (k : Nat) (indices : List (Fin n)) : Prop where
  length : indices.length = k
  distinct : indices.Nodup
  largest : ∀ index ∈ indices, ∀ other, other ∉ indices → scores other ≤ scores index

variable [LinearOrder α]

/-- The indices in the order of their scores, up to the `k`th. -/
def topk (scores : Fin n → α) (k : Nat) : List (Fin n) :=
  ((List.finRange n).insertionSort fun index other => scores other ≤ scores index).take k

namespace IsTopk

variable {scores : Fin n → α} {k : Nat} {indices : List (Fin n)} {index : Fin n}

omit [LinearOrder α] in
theorem card [LE α] {scores : Fin n → α} (topk : IsTopk scores k indices) : indices.toFinset.card = k := by
  rw [List.toFinset_card_of_nodup topk.distinct, topk.length]

/-- Where at least `k` scores are above a bound, only these are chosen. -/
theorem above (topk : IsTopk scores k indices) {bound : α}
    (many : k ≤ (Finset.univ.filter fun other => bound < scores other).card) (member : index ∈ indices) :
    bound < scores index := by
  by_contra below
  have chosen : (Finset.univ.filter fun other => bound < scores other) ⊆ indices.toFinset.erase index := by
    intro other inSet
    have greater : bound < scores other := (Finset.mem_filter.mp inSet).2
    apply Finset.mem_erase.mpr
    constructor
    · rintro rfl
      exact below greater
    · by_contra absent
      have le := topk.largest index member other fun inList => absent (List.mem_toFinset.mpr inList)
      exact below (lt_of_lt_of_le greater le)
  have counts := Finset.card_le_card chosen
  have one := Finset.card_erase_lt_of_mem (List.mem_toFinset.mpr member)
  rw [topk.card] at one
  omega

/-- The other indices change places with a chosen one of the same score. -/
theorem exchange (topk : IsTopk scores k indices) (member : index ∈ indices) {other : Fin n} (absent : other ∉ indices)
    (same : scores other = scores index) : IsTopk scores k (other :: indices.erase index) where
  length := by
    have positive := List.length_pos_of_mem member
    rw [List.length_cons, List.length_erase_of_mem member, topk.length]
    rw [topk.length] at positive
    omega
  distinct := by
    apply List.nodup_cons.mpr
    exact ⟨fun inRest => absent (List.mem_of_mem_erase inRest), topk.distinct.erase index⟩
  largest := by
    intro chosen inList rest outside
    obtain ⟨different, notErased⟩ : rest ≠ other ∧ rest ∉ indices.erase index := by
      simpa only [List.mem_cons, not_or] using outside
    have restLe : ∀ candidate ∈ indices, scores rest ≤ scores candidate := by
      intro candidate inIndices
      by_cases isIndex : rest = index
      · subst isIndex
        rw [← same]
        exact topk.largest candidate inIndices other absent
      · apply topk.largest candidate inIndices rest
        intro inRest
        exact notErased ((List.mem_erase_of_ne isIndex).mpr inRest)
    rcases List.mem_cons.mp inList with rfl | inRest
    · rw [same]
      exact restLe index member
    · exact restLe chosen (List.mem_of_mem_erase inRest)

end IsTopk

theorem topk_isTopk (scores : Fin n → α) {k : Nat} (le : k ≤ n) : IsTopk scores k (topk scores k) := by
  have perm := List.perm_insertionSort (fun index other => scores other ≤ scores index) (List.finRange n)
  have sorted : ((List.finRange n).insertionSort fun index other => scores other ≤ scores index).Pairwise
      fun index other => scores other ≤ scores index := by
    have total : Std.Total fun index other => scores other ≤ scores index := ⟨fun index other => le_total _ _⟩
    have trans : IsTrans (Fin n) fun index other => scores other ≤ scores index :=
      ⟨fun _ _ _ first second => le_trans second first⟩
    exact List.pairwise_insertionSort _ _
  have split := List.take_append_drop k ((List.finRange n).insertionSort fun index other => scores other ≤ scores index)
  refine ⟨?_, ?_, ?_⟩
  · rw [topk, List.length_take, perm.length_eq, List.length_finRange, Nat.min_eq_left le]
  · exact (perm.nodup_iff.mpr (List.nodup_finRange n)).sublist (List.take_sublist _ _)
  · intro index member other outside
    rw [← split] at sorted
    apply (List.pairwise_append.mp sorted).2.2 index member other
    have inAll : other ∈ (List.finRange n).insertionSort fun index other => scores other ≤ scores index :=
      perm.mem_iff.mpr (List.mem_finRange other)
    rw [← split, List.mem_append] at inAll
    exact inAll.resolve_left outside

/-- An index with less than `k` scores above its own may be chosen. -/
theorem exists_topk_mem (scores : Fin n → α) {k : Nat} (le : k ≤ n) {index : Fin n}
    (few : (Finset.univ.filter fun other => scores index < scores other).card < k) :
    ∃ indices, IsTopk scores k indices ∧ index ∈ indices := by
  have chosen := topk_isTopk scores le
  by_cases member : index ∈ topk scores k
  · exact ⟨_, chosen, member⟩
  · have least : ∃ other ∈ topk scores k, ¬scores index < scores other := by
      by_contra all
      have within : (topk scores k).toFinset ⊆ Finset.univ.filter fun other => scores index < scores other := by
        intro other inList
        refine Finset.mem_filter.mpr ⟨Finset.mem_univ other, ?_⟩
        by_contra below
        exact all ⟨other, List.mem_toFinset.mp inList, below⟩
      have counts := Finset.card_le_card within
      rw [chosen.card] at counts
      omega
    obtain ⟨other, inList, notAbove⟩ := least
    have same : scores index = scores other := le_antisymm (chosen.largest other inList index member) (not_lt.mp notAbove)
    exact ⟨_, chosen.exchange inList member same, .head _⟩

end KtKernel.Data
