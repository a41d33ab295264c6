import KtKernel.Data.Copies

namespace KtKernel.Data

/-! Copies that name the place they read.

What a list of such copies does with a cell is told by its origin: every copy that
covers the cell takes it from there, and one copy does.  Origins compose, so a program
that moves data in two stages is described by the origins of its last stage.
-/

/-- A copy of `length` cells from a place of one memory to a place of another. -/
structure Move (ρ σ : Type) where
  region : ρ
  start : Nat
  source : σ
  offset : Nat
  length : Nat
deriving DecidableEq, Repr

namespace Move

variable {ρ σ τ α κ : Type}

/-- The copy with the values of the memory that is read. -/
def copy (memory : σ × Nat → α) (move : Move ρ σ) : Copy ρ α :=
  ⟨move.region, move.start, move.length, fun inner => memory (move.source, move.offset + inner)⟩

def Covers (move : Move ρ σ) (cell : ρ × Nat) : Prop :=
  move.region = cell.1 ∧ move.start ≤ cell.2 ∧ cell.2 < move.start + move.length

/-- The place a cell of the move is taken from. -/
def origin (move : Move ρ σ) (cell : ρ × Nat) : σ × Nat :=
  (move.source, move.offset + (cell.2 - move.start))

structure Fetches (moves : List (Move ρ σ)) (cell : ρ × Nat) (place : σ × Nat) : Prop where
  covered : ∃ move ∈ moves, move.Covers cell
  only : ∀ move ∈ moves, move.Covers cell → move.origin cell = place

/-- The memory after the moves, run in some order. -/
def Performed [DecidableEq ρ] (moves : List (Move ρ σ)) (source : σ × Nat → α) (before left : ρ × Nat → α) : Prop :=
  Copy.Performed (moves.map (·.copy source)) before left

variable {moves : List (Move ρ σ)} {cell : ρ × Nat} {place : σ × Nat}

theorem performed_inOrder [DecidableEq ρ] (moves : List (Move ρ σ)) (source : σ × Nat → α) (before : ρ × Nat → α) :
    Performed moves source before (Copy.perform (moves.map (·.copy source)) before) :=
  Copy.performed_inOrder _ before

theorem Fetches.performed [DecidableEq ρ] {source : σ × Nat → α} {before left : ρ × Nat → α}
    (fetches : Fetches moves cell place) (performed : Performed moves source before left) :
    left cell = source place := by
  obtain ⟨move, member, covers⟩ := fetches.covered
  apply Copy.Performed.agreed performed
  · intro copy inCopies copyCovers
    obtain ⟨other, inMoves, rfl⟩ := List.mem_map.mp inCopies
    exact congrArg source (fetches.only other inMoves (Copy.covers_iff.mp copyCovers))
  · exact Copy.writes_pos (List.mem_map_of_mem member) (Copy.covers_iff.mpr covers)

theorem performed_uncovered [DecidableEq ρ] {source : σ × Nat → α} {before left : ρ × Nat → α}
    (untouched : ∀ move ∈ moves, ¬ move.Covers cell) (performed : Performed moves source before left) :
    left cell = before cell := by
  obtain ⟨order, same, rfl⟩ := performed
  apply Copy.perform_unwritten
  rw [Copy.writes_perm same]
  apply Copy.writes_eq_zero
  intro copy inCopies
  obtain ⟨move, inMoves, rfl⟩ := List.mem_map.mp inCopies
  by_contra covers
  exact untouched move inMoves (Copy.covers_iff.mp (Bool.of_not_eq_false covers))

/-- A cell keeps a value that every move that covers it brings as well. -/
theorem performed_constant [DecidableEq ρ] {source : σ × Nat → α} {before left : ρ × Nat → α} {value : α}
    (start : before cell = value) (brought : ∀ move ∈ moves, move.Covers cell → source (move.origin cell) = value)
    (performed : Performed moves source before left) : left cell = value := by
  by_cases covered : ∃ move ∈ moves, move.Covers cell
  · obtain ⟨move, member, covers⟩ := covered
    apply Copy.Performed.agreed performed
    · intro copy inCopies copyCovers
      obtain ⟨other, inMoves, rfl⟩ := List.mem_map.mp inCopies
      exact brought other inMoves (Copy.covers_iff.mp copyCovers)
    · exact Copy.writes_pos (List.mem_map_of_mem member) (Copy.covers_iff.mpr covers)
  · rw [← start]
    exact performed_uncovered (fun move member covers => covered ⟨move, member, covers⟩) performed

theorem Fetches.single {move : Move ρ σ} {offset : Nat} (inside : offset < move.length) :
    Fetches [move] (move.region, move.start + offset) (move.source, move.offset + offset) where
  covered := ⟨move, List.mem_singleton_self move, rfl, Nat.le_add_right _ _, Nat.add_lt_add_left inside _⟩
  only := by
    intro other member _
    obtain rfl := List.mem_singleton.mp member
    rw [origin, Nat.add_sub_cancel_left]

theorem Fetches.flatMap {indices : List κ} {owner : κ} {body : κ → List (Move ρ σ)} (member : owner ∈ indices)
    (fetches : Fetches (body owner) cell place)
    (others : ∀ index ∈ indices, ∀ move ∈ body index, move.Covers cell → move.origin cell = place) :
    Fetches (indices.flatMap body) cell place where
  covered := by
    obtain ⟨move, inBody, covers⟩ := fetches.covered
    exact ⟨move, List.mem_flatMap_of_mem member inBody, covers⟩
  only := by
    intro move inMoves
    obtain ⟨index, inIndices, inBody⟩ := List.mem_flatMap.mp inMoves
    exact others index inIndices move inBody

/-- Rows of one width from one matrix to another. -/
def rows (region : ρ) (start stride : Nat) (source : σ) (offset pitch width count : Nat) : List (Move ρ σ) :=
  (List.range count).flatMap fun row => [⟨region, start + row * stride, source, offset + row * pitch, width⟩]

variable {region : ρ} {source : σ} {start stride offset pitch width count row inner : Nat}

theorem mem_rows {move : Move ρ σ} :
    move ∈ rows region start stride source offset pitch width count ↔
      ∃ row < count, move = ⟨region, start + row * stride, source, offset + row * pitch, width⟩ := by
  simp only [rows, List.mem_flatMap, List.mem_range, List.mem_singleton]

theorem rows_fetches (fits : width ≤ stride) (inRows : row < count) (inWidth : inner < width) :
    Fetches (rows region start stride source offset pitch width count) (region, start + row * stride + inner)
      (source, offset + row * pitch + inner) := by
  apply Fetches.flatMap (List.mem_range.mpr inRows) (Fetches.single inWidth)
  intro other _ move member covers
  obtain rfl := List.mem_singleton.mp member
  obtain ⟨-, above, below⟩ := covers
  simp only at above below
  have same : other = row := by
    rcases Nat.lt_trichotomy other row with less | same | more
    · have gap : (other + 1) * stride ≤ row * stride := Nat.mul_le_mul_right _ less
      rw [Nat.add_mul, Nat.one_mul] at gap
      omega
    · exact same
    · have gap : (row + 1) * stride ≤ other * stride := Nat.mul_le_mul_right _ more
      rw [Nat.add_mul, Nat.one_mul] at gap
      omega
  subst same
  rw [origin, Nat.add_sub_cancel_left]

end Move

end KtKernel.Data
