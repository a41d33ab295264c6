import Mathlib.Algebra.BigOperators.Group.Finset.Basic
import Mathlib.Algebra.Ring.Defs
import Mathlib.Logic.Function.Basic

namespace KtKernel.Data

/-! Matrix products by a routine with several threads: `C = Aᵀ * B`, by rows of `A` and of `B`. -/

variable {R : Type}

/-- What a thread of a routine stores into `C`, by place and value. -/
abbrev Gemm (R : Type) :=
  (m n k : Nat) → (a : Nat → R) → (lda : Nat) → (b : Nat → R) → (ldb ldc ith nth : Nat) → List (Nat × R)

namespace Gemm

def stored (stores : List (Nat × R)) (memory : Nat → R) : Nat → R :=
  stores.foldl (fun memory store => Function.update memory store.1 store.2) memory

theorem stored_cons (store : Nat × R) (rest : List (Nat × R)) (memory : Nat → R) :
    stored (store :: rest) memory = stored rest (Function.update memory store.1 store.2) := rfl

theorem stored_agreed {stores : List (Nat × R)} {place : Nat} {value : R}
    (agreed : ∀ store ∈ stores, store.1 = place → store.2 = value) (memory : Nat → R)
    (present : memory place = value ∨ ∃ store ∈ stores, store.1 = place) : stored stores memory place = value := by
  induction stores generalizing memory with
  | nil =>
      rcases present with known | ⟨store, impossible, -⟩
      · exact known
      · cases impossible
  | cons store rest induction =>
      rw [stored_cons]
      apply induction (fun other member => agreed other (List.mem_cons_of_mem _ member))
      by_cases here : store.1 = place
      · left
        rw [← here, Function.update_self]
        exact agreed store List.mem_cons_self here
      · rcases present with known | ⟨other, member, isPlace⟩
        · left
          rw [Function.update_of_ne (Ne.symm here)]
          exact known
        · right
          rcases List.mem_cons.mp member with rfl | later
          · exact absurd isPlace here
          · exact ⟨other, later, isPlace⟩

variable [CommSemiring R]

/-- The entry of a row of `A` and a row of `B`. -/
def entry (k : Nat) (a : Nat → R) (lda : Nat) (b : Nat → R) (ldb row col : Nat) : R :=
  ∑ l ∈ Finset.range k, a (lda * row + l) * b (ldb * col + l)

/-- The threads store the entries of the product, all of them and nothing else. -/
structure Exact (gemm : Gemm R) : Prop where
  stores : ∀ m n k a lda b ldb ldc ith nth, ∀ store ∈ gemm m n k a lda b ldb ldc ith nth,
    ∃ row < m, ∃ col < n, store = (ldc * col + row, entry k a lda b ldb row col)
  complete : ∀ m n k a lda b ldb ldc nth, 0 < nth → ∀ row < m, ∀ col < n,
    ∃ ith < nth, (ldc * col + row, entry k a lda b ldb row col) ∈ gemm m n k a lda b ldb ldc ith nth

/-- A thread alone leaves the entries in its columns, whatever was there before. -/
theorem Exact.stored_entry {gemm : Gemm R} (exact_ : gemm.Exact) {m n k lda ldb ldc row col : Nat} {a b : Nat → R} (fits : m ≤ ldc)
    (inRows : row < m) (inCols : col < n) (memory : Nat → R) :
    stored (gemm m n k a lda b ldb ldc 0 1) memory (ldc * col + row) = entry k a lda b ldb row col := by
  apply stored_agreed
  · intro store member here
    obtain ⟨otherRow, inRows', otherCol, -, rfl⟩ := exact_.stores _ _ _ _ _ _ _ _ _ _ store member
    dsimp only at here
    have positive : 0 < ldc := Nat.zero_lt_of_lt (Nat.lt_of_lt_of_le inRows fits)
    have sameCol : otherCol = col := by
      have divided := congrArg (· / ldc) here
      rwa [Nat.mul_add_div positive, Nat.mul_add_div positive, Nat.div_eq_of_lt (Nat.lt_of_lt_of_le inRows' fits),
        Nat.div_eq_of_lt (Nat.lt_of_lt_of_le inRows fits), Nat.add_zero, Nat.add_zero] at divided
    rw [sameCol] at here
    rw [sameCol, Nat.add_left_cancel here]
  · right
    obtain ⟨ith, inThreads, member⟩ := exact_.complete m n k a lda b ldb ldc 1 Nat.one_pos row inRows col inCols
    obtain rfl : ith = 0 := Nat.lt_one_iff.mp inThreads
    exact ⟨_, member, rfl⟩

/-- A routine whose first thread stores every entry. -/
def reference : Gemm R := fun m n k a lda b ldb ldc ith _ =>
  if ith = 0 then (List.range n).flatMap fun col => (List.range m).map fun row => (ldc * col + row, entry k a lda b ldb row col) else []

theorem reference_exact : (reference : Gemm R).Exact where
  stores := by
    intro m n k a lda b ldb ldc ith nth store member
    rw [reference] at member
    by_cases first : ith = 0
    · rw [if_pos first] at member
      obtain ⟨col, inCols, member⟩ := List.mem_flatMap.mp member
      obtain ⟨row, inRows, rfl⟩ := List.mem_map.mp member
      exact ⟨row, List.mem_range.mp inRows, col, List.mem_range.mp inCols, rfl⟩
    · rw [if_neg first] at member
      cases member
  complete := by
    intro m n k a lda b ldb ldc nth some_ row inRows col inCols
    refine ⟨0, some_, ?_⟩
    rw [reference, if_pos rfl]
    exact List.mem_flatMap.mpr ⟨col, List.mem_range.mpr inCols, List.mem_map_of_mem (List.mem_range.mpr inRows)⟩

end Gemm

end KtKernel.Data
