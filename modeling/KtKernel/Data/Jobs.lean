import Mathlib.Data.List.Perm.Basic
import KtKernel.Data.Copies

namespace KtKernel.Data

/-! Jobs of copies as partial memories.

A job is correct when it writes a partial memory: each of its cells once, with its value,
and no other cell.  Jobs whose memories are disjoint compose.
-/

namespace Copy

variable {ρ α κ : Type} [DecidableEq ρ] {copies : List (Copy ρ α)} {target : ρ × Nat → Option α}

/-- The copies write the partial memory and nothing else, each cell once. -/
structure Exactly (copies : List (Copy ρ α)) (target : ρ × Nat → Option α) : Prop where
  inside : ∀ cell value, target cell = some value → Delivers copies cell value
  outside : ∀ cell, target cell = none → writes copies cell = 0

namespace Exactly

theorem congr {target' : ρ × Nat → Option α} (exactly : Exactly copies target) (same : ∀ cell, target cell = target' cell) :
    Exactly copies target' where
  inside := fun cell value found => exactly.inside cell value ((same cell).trans found)
  outside := fun cell none => exactly.outside cell ((same cell).trans none)

theorem nil : Exactly ([] : List (Copy ρ α)) fun _ => none where
  inside := fun _ _ found => by contradiction
  outside := fun cell _ => writes_nil cell

theorem empty (copied : ∀ copy ∈ copies, copy.length = 0) (nothing : ∀ cell, target cell = none) : Exactly copies target where
  inside := by
    intro cell value found
    rw [nothing cell] at found
    contradiction
  outside := by
    intro cell _
    apply writes_eq_zero
    intro copy member
    rw [Bool.eq_false_iff]
    intro covers
    obtain ⟨-, above, below⟩ := covers_iff.mp covers
    have none := copied copy member
    omega

theorem append {rest : List (Copy ρ α)} {second : ρ × Nat → Option α} (first : Exactly copies target)
    (last : Exactly rest second) (apart : ∀ cell, target cell = none ∨ second cell = none) :
    Exactly (copies ++ rest) fun cell => (target cell).or (second cell) where
  inside := by
    intro cell value found
    rcases apart cell with none | none
    · rw [none, Option.none_or] at found
      exact (last.inside cell value found).append_right (first.outside cell none)
    · rw [none, Option.or_none] at found
      exact (first.inside cell value found).append_left (last.outside cell none)
  outside := by
    intro cell none
    obtain ⟨noFirst, noSecond⟩ := Option.or_eq_none_iff.mp none
    rw [writes_append, first.outside cell noFirst, last.outside cell noSecond]

/-- A loop whose rounds write disjoint memories writes their union. -/
theorem flatMap {indices : List κ} {body : κ → List (Copy ρ α)} {round : κ → ρ × Nat → Option α}
    (distinct : indices.Nodup) (rounds : ∀ index ∈ indices, Exactly (body index) (round index))
    (every : ∀ cell value, target cell = some value → ∃ index ∈ indices, round index cell = some value)
    (only : ∀ index ∈ indices, ∀ cell value, round index cell = some value → target cell = some value)
    (apart : ∀ index ∈ indices, ∀ other ∈ indices, ∀ cell value, round index cell = some value → index ≠ other →
      round other cell = none) : Exactly (indices.flatMap body) target where
  inside := by
    intro cell value found
    obtain ⟨index, member, inRound⟩ := every cell value found
    apply Delivers.flatMap distinct member ((rounds index member).inside cell value inRound)
    intro other inIndices different
    exact (rounds other inIndices).outside cell
      (apart index member other inIndices cell value inRound (Ne.symm different))
  outside := by
    intro cell none
    apply writes_flatMap_zero
    intro index member
    apply (rounds index member).outside
    cases inRound : round index cell with
    | none => rfl
    | some value =>
        have found := only index member cell value inRound
        rw [none] at found
        contradiction

theorem range {count : Nat} {body : Nat → List (Copy ρ α)} {round : Nat → ρ × Nat → Option α}
    (rounds : ∀ index < count, Exactly (body index) (round index))
    (every : ∀ cell value, target cell = some value → ∃ index < count, round index cell = some value)
    (only : ∀ index < count, ∀ cell value, round index cell = some value → target cell = some value)
    (apart : ∀ index < count, ∀ other < count, ∀ cell value, round index cell = some value → index ≠ other →
      round other cell = none) : Exactly ((List.range count).flatMap body) target := by
  simp only [← List.mem_range] at rounds every only apart
  exact flatMap List.nodup_range rounds every only apart

theorem perm {order : List (Copy ρ α)} (exactly : Exactly copies target) (same : order.Perm copies) :
    Exactly order target where
  inside := fun cell value found => (exactly.inside cell value found).perm same
  outside := fun cell none => (writes_perm same cell).trans (exactly.outside cell none)

end Exactly

/-! ## Ranges and rows -/

variable {region : ρ} {base total : Nat}

/-- A range of a region. -/
def window (region : ρ) (base total : Nat) (value : Nat → α) (cell : ρ × Nat) : Option α :=
  if region = cell.1 ∧ base ≤ cell.2 ∧ cell.2 < base + total then some (value (cell.2 - base)) else none

theorem Carries.exactly {value : Nat → α} (carries : Carries copies region base total value) :
    Exactly copies (window region base total value) where
  inside := by
    intro cell value found
    rw [window] at found
    split at found
    · next inside =>
        obtain ⟨same, above, below⟩ := inside
        cases found
        have delivers := carries.place above below
        rw [same] at delivers
        exact delivers
    · contradiction
  outside := by
    intro cell none
    apply carries.within.writes_eq_zero
    intro inside
    rw [window, if_pos inside] at none
    contradiction

/-- Pieces of the rows of a region, one stride apart. -/
def lanes (region : ρ) (base stride first width count : Nat) (value : Nat → Nat → α) (cell : ρ × Nat) : Option α :=
  let offset := cell.2 - base
  if region = cell.1 ∧ base ≤ cell.2 ∧ cell.2 < base + count * stride ∧ first ≤ offset % stride ∧
      offset % stride < first + width then
    some (value (offset / stride) (offset % stride - first))
  else none

theorem strided_exactly {first width stride count : Nat} (region : ρ) (base : Nat) (value : Nat → Nat → α)
    (fits : first + width ≤ stride) :
    Exactly (strided region (base + first) stride width value count)
      (lanes region base stride first width count value) where
  inside := by
    intro cell result found
    simp only [lanes] at found
    split at found
    · next inside =>
        obtain ⟨rfl, above, below, lower, upper⟩ := inside
        cases found
        have inRows : (cell.2 - base) / stride < count := by
          apply Nat.div_lt_of_lt_mul
          rw [Nat.mul_comm]
          omega
        have inWidth : (cell.2 - base) % stride - first < width := by omega
        have whole := Nat.div_add_mod' (cell.2 - base) stride
        have narrow : width ≤ stride := by omega
        have delivers := strided_delivers cell.1 (base + first) value narrow inRows inWidth
        have place : base + first + (cell.2 - base) / stride * stride + ((cell.2 - base) % stride - first) = cell.2 := by
          omega
        rw [place] at delivers
        exact delivers
    · contradiction
  outside := by
    intro cell none
    apply writes_flatMap_zero
    intro row inRange
    have inRows := List.mem_range.mp inRange
    apply Within.writes_eq_zero (Within.single rfl (Nat.le_refl _) (Nat.le_refl _))
    intro covered
    obtain ⟨same, above, below⟩ := covered
    simp only at same above below
    have last : (row + 1) * stride ≤ count * stride := Nat.mul_le_mul_right _ inRows
    rw [Nat.add_mul, Nat.one_mul] at last
    have offset : cell.2 - base = row * stride + (cell.2 - base - row * stride) := by omega
    have small : cell.2 - base - row * stride < stride := by omega
    have rest : (cell.2 - base) % stride = cell.2 - base - row * stride := by
      rw [offset, Nat.mul_comm row, Nat.mul_add_mod, Nat.mod_eq_of_lt]
      · omega
      · rw [Nat.mul_comm stride]
        omega
    simp only [lanes] at none
    rw [if_pos ⟨same, by omega, by omega, by omega, by omega⟩] at none
    contradiction

end Copy

/-- Two nested loops the other way round. -/
theorem flatMap_swap {ι κ α : Type} (outer : List ι) (inner : List κ) (body : ι → κ → List α) :
    (outer.flatMap fun index => inner.flatMap (body index)).Perm
      (inner.flatMap fun other => outer.flatMap fun index => body index other) := by
  induction outer with
  | nil => simp
  | cons index rest induction =>
      simp only [List.flatMap_cons]
      exact (induction.append_left _).trans (List.flatMap_append_perm inner (body index) _)

end KtKernel.Data
