import Mathlib.Data.Nat.Notation

namespace KtKernel.Data

/-! Steps that overwrite part of a memory.

What such a step leaves in a cell does not depend on what was there.  The memory is
read through a function of the state, so one state can hold several arrays.
-/

variable {σ ι β : Type} {cell : ι} {value : β}

def runSteps (steps : List (σ → σ)) (state : σ) : σ :=
  steps.foldl (fun state step => step state) state

@[simp]
theorem runSteps_nil (state : σ) : runSteps [] state = state := rfl

@[simp]
theorem runSteps_cons (step : σ → σ) (rest : List (σ → σ)) (state : σ) :
    runSteps (step :: rest) state = runSteps rest (step state) := rfl

/-- A cell that no step writes keeps its value. -/
theorem runSteps_kept (read : σ → ι → β) {steps : List (σ → σ)} (kept : ∀ step ∈ steps, ∀ state, read (step state) cell = read state cell)
    (state : σ) : read (runSteps steps state) cell = read state cell := by
  induction steps generalizing state with
  | nil => rfl
  | cons step rest induction =>
      have later := induction (fun other member => kept other (.tail _ member)) (step state)
      exact later.trans (kept step (.head _) state)

/-- Steps that agree on a cell leave the value they agree on, when one writes it. -/
theorem runSteps_agreed (read : σ → ι → β) {steps : List (σ → σ)}
    (agreed : ∀ step ∈ steps, (∀ state, read (step state) cell = read state cell) ∨ ∀ state, read (step state) cell = value)
    (written : ∃ step ∈ steps, ∀ state, read (step state) cell = value) (state : σ) :
    read (runSteps steps state) cell = value := by
  induction steps generalizing state with
  | nil =>
      obtain ⟨step, member, -⟩ := written
      contradiction
  | cons step rest induction =>
      have later : ∀ other ∈ rest, (∀ state, read (other state) cell = read state cell) ∨
          ∀ state, read (other state) cell = value := fun other member => agreed other (.tail _ member)
      rw [runSteps_cons]
      by_cases again : ∃ other ∈ rest, ∀ state, read (other state) cell = value
      · exact induction later again _
      · obtain ⟨owner, member, writes⟩ := written
        have here : owner = step := by
          rcases List.mem_cons.mp member with same | inRest
          · exact same
          · exact absurd ⟨owner, inRest, writes⟩ again
        subst here
        have kept : ∀ other ∈ rest, ∀ state, read (other state) cell = read state cell := by
          intro other inRest
          rcases later other inRest with kept | writes
          · exact kept
          · exact absurd ⟨other, inRest, writes⟩ again
        exact (runSteps_kept read kept _).trans (writes state)

/-- The state after the steps of all shares, run in some order. -/
def Finished (count : Nat) (share : Nat → List (σ → σ)) (before after : σ) : Prop :=
  ∃ steps, steps.Perm ((List.range count).flatMap share) ∧ after = runSteps steps before

theorem finished_inOrder (count : Nat) (share : Nat → List (σ → σ)) (before : σ) :
    Finished count share before (runSteps ((List.range count).flatMap share) before) :=
  ⟨_, .refl _, rfl⟩

/-! ## Windows of an array -/

variable {α : Type} {start length offset : Nat}

/-- A store of a range of cells. -/
def put (start length : Nat) (value : Nat → α) (memory : Nat → α) : Nat → α :=
  fun cell => if start ≤ cell ∧ cell < start + length then value (cell - start) else memory cell

theorem put_inside (value memory : Nat → α) (inside : offset < length) :
    put start length value memory (start + offset) = value offset := by
  rw [put, if_pos ⟨Nat.le_add_right _ _, Nat.add_lt_add_left inside _⟩, Nat.add_sub_cancel_left]

theorem put_outside {cell : Nat} (value memory : Nat → α) (outside : cell < start ∨ start + length ≤ cell) :
    put start length value memory cell = memory cell := by
  rw [put, if_neg (by omega)]

theorem put_congr {one other : Nat → α} (same : ∀ offset < length, one offset = other offset) :
    put start length one = put start length other := by
  funext memory cell
  by_cases inside : start ≤ cell ∧ cell < start + length
  · rw [put, put, if_pos inside, if_pos inside, same]
    omega
  · rw [put, put, if_neg inside, if_neg inside]

/-- A store of values that are known by their cells. -/
theorem put_known {cell : Nat} {value : Nat → α} {known : α} (covered : start ≤ cell → cell < start + length → value (cell - start) = known) :
    (∀ memory, put start length value memory cell = memory cell) ∨ ∀ memory, put start length value memory cell = known := by
  by_cases inside : start ≤ cell ∧ cell < start + length
  · right
    intro memory
    rw [put, if_pos inside]
    exact covered inside.1 inside.2
  · left
    intro memory
    rw [put, if_neg inside]

structure Fills (step : (Nat → α) → Nat → α) (start length : Nat) (value : Nat → α) : Prop where
  inside : ∀ memory offset, offset < length → step memory (start + offset) = value offset
  outside : ∀ memory cell, cell < start ∨ start + length ≤ cell → step memory cell = memory cell

theorem put_fills (start length : Nat) (value : Nat → α) : Fills (put start length value) start length value where
  inside := fun memory _ inside => put_inside value memory inside
  outside := fun memory _ outside => put_outside value memory outside

/-! ## Rectangles of a matrix -/

variable {base pitch top left height width row column : Nat}

/-- Stores of the rows of a rectangle, in a matrix that lies row by row. -/
def putRows (base pitch top left height width : Nat) (value : Nat → Nat → α) : (Nat → α) → Nat → α :=
  runSteps ((List.range height).map fun row => put (base + ((top + row) * pitch + left)) width (value row))

/-- A row of the rectangle meets the other rows of the matrix nowhere. -/
theorem row_outside (fits : left + width ≤ pitch) (inPitch : column < pitch) {other : Nat}
    (apart : other = row → column < left ∨ left + width ≤ column) :
    row * pitch + column < other * pitch + left ∨ other * pitch + left + width ≤ row * pitch + column := by
  rcases Nat.lt_trichotomy other row with less | same | more
  · have gap : (other + 1) * pitch ≤ row * pitch := Nat.mul_le_mul_right _ less
    rw [Nat.add_mul, Nat.one_mul] at gap
    omega
  · have outside := apart same
    subst same
    omega
  · have gap : (row + 1) * pitch ≤ other * pitch := Nat.mul_le_mul_right _ more
    rw [Nat.add_mul, Nat.one_mul] at gap
    omega

theorem putRows_inside (base top : Nat) (value : Nat → Nat → α) (memory : Nat → α) (fits : left + width ≤ pitch) (inRows : row < height)
    (inColumns : column < width) :
    putRows base pitch top left height width value memory (base + ((top + row) * pitch + (left + column))) =
      value row column := by
  have written : ∀ memory, put (base + ((top + row) * pitch + left)) width (value row) memory
      (base + ((top + row) * pitch + (left + column))) = value row column := by
    intro memory
    have address : base + ((top + row) * pitch + (left + column)) = base + ((top + row) * pitch + left) + column := by omega
    rw [address]
    exact put_inside _ _ inColumns
  refine runSteps_agreed (fun memory => memory) ?_ ⟨_, List.mem_map_of_mem (List.mem_range.mpr inRows), written⟩ memory
  intro step member
  obtain ⟨other, _, rfl⟩ := List.mem_map.mp member
  by_cases same : other = row
  · subst same
    exact .inr written
  · left
    intro memory
    apply put_outside
    have apart : top + other = top + row → left + column < left ∨ left + width ≤ left + column := by omega
    have gap := row_outside fits (by omega) apart
    omega

theorem putRows_outside (base : Nat) (value : Nat → Nat → α) (memory : Nat → α) (fits : left + width ≤ pitch) (inPitch : column < pitch)
    (outside : ¬ (top ≤ row ∧ row < top + height ∧ left ≤ column ∧ column < left + width)) :
    putRows base pitch top left height width value memory (base + (row * pitch + column)) =
      memory (base + (row * pitch + column)) := by
  apply runSteps_kept fun memory => memory
  intro step member state
  obtain ⟨other, inRows, rfl⟩ := List.mem_map.mp member
  have bound := List.mem_range.mp inRows
  have apart : top + other = row → column < left ∨ left + width ≤ column := by omega
  have gap := row_outside fits inPitch apart
  apply put_outside
  omega

theorem putRows_beyond {cell : Nat} (value : Nat → Nat → α) (memory : Nat → α) (fits : left + width ≤ pitch)
    (beyond : cell < base + (top * pitch + left) ∨ base + (top + height) * pitch ≤ cell) :
    putRows base pitch top left height width value memory cell = memory cell := by
  apply runSteps_kept fun memory => memory
  intro step member state
  obtain ⟨other, inRows, rfl⟩ := List.mem_map.mp member
  have last : (top + other + 1) * pitch ≤ (top + height) * pitch :=
    Nat.mul_le_mul_right _ (Nat.add_lt_add_left (List.mem_range.mp inRows) top)
  have first : top * pitch ≤ (top + other) * pitch := Nat.mul_le_mul_right _ (Nat.le_add_right _ _)
  rw [Nat.add_mul _ 1, Nat.one_mul] at last
  apply put_outside
  omega

end KtKernel.Data
