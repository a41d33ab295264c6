import Mathlib.Data.List.Perm.Basic
import KtKernel.Data.Copies
import KtKernel.Data.Tiling

namespace KtKernel.Data

/-! Lines of cells.

A line is cut into windows of one width, and each window lies in a region of its
own.  Copies that lay a range of a line write the cells of the range, each once,
and nothing else. -/

structure Line (ρ : Type) where
  region : Nat → ρ
  base : Nat
  width : Nat
  distinct : Function.Injective region
  positive : 0 < width

def Line.cell {ρ : Type} (line : Line ρ) (index : Nat) : ρ × Nat :=
  (line.region (index / line.width), line.base + index % line.width)

section

variable {ρ α : Type} {line : Line ρ} {first middle last step count index offset : Nat} {value : Nat → α}

theorem Line.cell_injective (line : Line ρ) : Function.Injective line.cell := by
  intro index other same
  have windows := line.distinct (congrArg Prod.fst same)
  have offsets : index % line.width = other % line.width := Nat.add_left_cancel (congrArg Prod.snd same)
  rw [← Nat.div_add_mod index line.width, windows, offsets, Nat.div_add_mod]

/-- Inside of a window the cells follow each other. -/
theorem Line.cell_add (line : Line ρ) (fits : first % line.width + index < line.width) :
    line.cell (first + index) = ((line.cell first).1, (line.cell first).2 + index) := by
  have split := Nat.div_add_mod' first line.width
  have place : first + index = first / line.width * line.width + (first % line.width + index) := by omega
  have window : (first + index) / line.width = first / line.width := by
    rw [place, pairIndex_div _ fits]
  have offset : (first + index) % line.width = first % line.width + index := by
    rw [place, pairIndex_mod _ fits]
  simp only [Line.cell, window, offset, Nat.add_assoc]

variable [DecidableEq ρ]

structure Lays (copies : List (Copy ρ α)) (line : Line ρ) (first last : Nat) (value : Nat → α) : Prop where
  inside : ∀ index, first ≤ index → index < last → Copy.Delivers copies (line.cell index) (value index)
  outside : ∀ cell, (∀ index, first ≤ index → index < last → line.cell index ≠ cell) → Copy.writes copies cell = 0

namespace Lays

variable {copies : List (Copy ρ α)}

theorem nil (line : Line ρ) (first : Nat) (value : Nat → α) : Lays [] line first first value where
  inside := by
    intro index above below
    omega
  outside := by
    intro cell _
    rfl

/-- A copy inside of a window. -/
theorem single {copy : Copy ρ α} (place : (copy.region, copy.start) = line.cell first)
    (fits : first % line.width + copy.length ≤ line.width) (stop : first + copy.length = last)
    (values : ∀ inner < copy.length, copy.value inner = value (first + inner)) :
    Lays [copy] line first last value := by
  have carries : Copy.Carries [copy] copy.region copy.start copy.length copy.value :=
    Copy.single_carries copy.region copy.start copy.length copy.value
  have region := congrArg Prod.fst place
  have start := congrArg Prod.snd place
  simp only at region start
  have cell : ∀ inner < copy.length, line.cell (first + inner) = (copy.region, copy.start + inner) := by
    intro inner inCopy
    rw [line.cell_add (by omega), region, start]
  constructor
  · intro index above below
    obtain ⟨inner, rfl⟩ := Nat.exists_eq_add_of_le above
    have inCopy : inner < copy.length := by omega
    rw [cell inner inCopy, ← values inner inCopy]
    exact carries.delivers inner inCopy
  · intro other apart
    apply carries.within.writes_eq_zero
    intro covered
    obtain ⟨same, above, below⟩ := covered
    obtain ⟨inner, offset⟩ := Nat.exists_eq_add_of_le above
    apply apart (first + inner) (by omega) (by omega)
    rw [cell inner (by omega), same, ← offset]

theorem append {rest : List (Copy ρ α)} (early : Lays copies line first middle value)
    (late : Lays rest line middle last value) (ordered : first ≤ middle) (ordered' : middle ≤ last) :
    Lays (copies ++ rest) line first last value where
  inside := by
    intro index above below
    by_cases before : index < middle
    · apply (early.inside index above before).append_left
      apply late.outside
      intro other inLate _ same
      have equal := line.cell_injective same
      omega
    · apply (late.inside index (by omega) below).append_right
      apply early.outside
      intro other _ inEarly same
      have equal := line.cell_injective same
      omega
  outside := by
    intro cell apart
    have none := early.outside cell fun index above below => apart index above (by omega)
    have noneLate := late.outside cell fun index above below => apart index (by omega) below
    rw [Copy.writes_append, none, noneLate]

theorem range {body : Nat → List (Copy ρ α)}
    (rounds : ∀ round < count, Lays (body round) line (first + round * step) (first + (round + 1) * step) value) :
    Lays ((List.range count).flatMap body) line first (first + count * step) value := by
  induction count with
  | zero =>
      rw [Nat.zero_mul, Nat.add_zero]
      exact nil line first value
  | succ count induction =>
      have before := induction fun round inRange => rounds round (by omega)
      have last := rounds count (by omega)
      have grows : count * step ≤ (count + 1) * step := Nat.mul_le_mul_right _ (by omega)
      rw [List.range_succ, List.flatMap_append, List.flatMap_singleton]
      exact before.append last (by omega) (by omega)

theorem perm {order : List (Copy ρ α)} (lays : Lays copies line first last value) (same : order.Perm copies) :
    Lays order line first last value where
  inside := fun index above below => (lays.inside index above below).perm same
  outside := fun cell apart => (Copy.writes_perm same cell).trans (lays.outside cell apart)

/-- A cell of a window, when all windows are laid. -/
theorem window (lays : Lays copies line 0 (count * line.width) value) (inCount : index < count)
    (inside : offset < line.width) :
    Copy.Delivers copies (line.region index, line.base + offset) (value (index * line.width + offset)) := by
  have bound := pairIndex_lt inCount inside
  rw [Nat.mul_comm line.width] at bound
  have delivers := lays.inside (index * line.width + offset) (Nat.zero_le _) bound
  rwa [Line.cell, pairIndex_div index inside, pairIndex_mod index inside] at delivers

theorem outside_windows {cell : ρ × Nat} (lays : Lays copies line 0 (count * line.width) value)
    (apart : ∀ index < count, line.region index = cell.1 →
      ¬ (line.base ≤ cell.2 ∧ cell.2 < line.base + line.width)) : Copy.writes copies cell = 0 := by
  apply lays.outside
  intro index _ below same
  have region := congrArg Prod.fst same
  have offset := congrArg Prod.snd same
  have small := Nat.mod_lt index line.positive
  rw [Nat.mul_comm] at below
  apply apart (index / line.width) (Nat.div_lt_of_lt_mul below) region
  simp only [Line.cell] at offset
  omega

end Lays

end

theorem flatMap_congr_range {β : Type} {count : Nat} {body body' : Nat → List β}
    (same : ∀ index < count, body index = body' index) :
    (List.range count).flatMap body = (List.range count).flatMap body' := by
  apply List.flatMap_congr
  intro index member
  exact same index (List.mem_range.mp member)

/-! ## Rows of lines

Copies of several rows, in any order: each row lies in a line of its own. -/

section

variable {ρ α : Type} [DecidableEq ρ] {copies : List (Copy ρ α)} {rows count : Nat} {line : Nat → Line ρ}
  {first middle last : Nat → Nat} {value : Nat → Nat → α}

def Strips (copies : List (Copy ρ α)) (rows : Nat) (line : Nat → Line ρ) (first last : Nat → Nat)
    (value : Nat → Nat → α) : Prop :=
  ∃ body : Nat → List (Copy ρ α), copies.Perm ((List.range rows).flatMap body) ∧
    ∀ row < rows, Lays (body row) (line row) (first row) (last row) (value row)

namespace Strips

theorem nil (rows : Nat) (line : Nat → Line ρ) (first : Nat → Nat) (value : Nat → Nat → α) :
    Strips [] rows line first first value := by
  refine ⟨fun _ => [], ?_, ?_⟩
  · simp
  · intro row _
    exact Lays.nil (line row) (first row) (value row)

theorem append {rest : List (Copy ρ α)} (left : Strips copies rows line first middle value)
    (right : Strips rest rows line middle last value) (ordered : ∀ row < rows, first row ≤ middle row)
    (ordered' : ∀ row < rows, middle row ≤ last row) : Strips (copies ++ rest) rows line first last value := by
  obtain ⟨leftBody, leftPerm, leftLays⟩ := left
  obtain ⟨rightBody, rightPerm, rightLays⟩ := right
  refine ⟨fun row => leftBody row ++ rightBody row, ?_, ?_⟩
  · exact (leftPerm.append rightPerm).trans (List.flatMap_append_perm _ leftBody rightBody)
  · intro row inRows
    exact (leftLays row inRows).append (rightLays row inRows) (ordered row inRows) (ordered' row inRows)

/-- Rounds that go from one bound to the next. -/
theorem bounds {body : Nat → List (Copy ρ α)} (bound : Nat → Nat) (grows : ∀ round < count, bound round ≤ bound (round + 1))
    (rounds : ∀ round < count, Strips (body round) rows line (fun row => first row + bound round)
      (fun row => first row + bound (round + 1)) value) :
    Strips ((List.range count).flatMap body) rows line (fun row => first row + bound 0)
      (fun row => first row + bound count) value := by
  have monotone : ∀ round ≤ count, bound 0 ≤ bound round := by
    intro round inRange
    induction round with
    | zero => exact Nat.le_refl _
    | succ round induction => exact (induction (by omega)).trans (grows round (by omega))
  induction count with
  | zero => exact nil rows line _ value
  | succ count induction =>
      have before := induction (fun round inRange => grows round (by omega))
        (fun round inRange => rounds round (by omega)) (fun round inRange => monotone round (by omega))
      have less := monotone count (by omega)
      have more := grows count (by omega)
      rw [List.range_succ, List.flatMap_append, List.flatMap_singleton]
      apply before.append (rounds count (by omega))
      · intro row _
        omega
      · intro row _
        omega

theorem stack {body : Nat → List (Copy ρ α)} {height : Nat}
    (steps : ∀ step < count, Strips (body step) height (fun row => line (step * height + row))
      (fun row => first (step * height + row)) (fun row => last (step * height + row))
      fun row => value (step * height + row)) :
    Strips ((List.range count).flatMap body) (count * height) line first last value := by
  induction count with
  | zero =>
      rw [Nat.zero_mul]
      refine ⟨fun _ => [], List.Perm.refl _, ?_⟩
      intro row none
      omega
  | succ count induction =>
      obtain ⟨above, abovePerm, aboveLays⟩ := induction fun step inRange => steps step (by omega)
      obtain ⟨below, belowPerm, belowLays⟩ := steps count (by omega)
      rw [List.range_succ, List.flatMap_append, List.flatMap_singleton, Nat.add_mul, Nat.one_mul]
      have upper : (List.range (count * height)).flatMap above = (List.range (count * height)).flatMap fun row =>
          if row < count * height then above row else below (row - count * height) := by
        apply flatMap_congr_range
        intro row inRows
        rw [if_pos inRows]
      have lower : (List.range height).flatMap below = (List.range height).flatMap fun row =>
          if count * height + row < count * height then above (count * height + row)
          else below (count * height + row - count * height) := by
        apply flatMap_congr_range
        intro row _
        rw [if_neg (by omega), Nat.add_sub_cancel_left]
      refine ⟨fun row => if row < count * height then above row else below (row - count * height), ?_, ?_⟩
      · rw [List.range_add, List.flatMap_append, List.flatMap_map, ← upper, ← lower]
        exact abovePerm.append belowPerm
      · intro row inRows
        by_cases inAbove : row < count * height
        · simp only [if_pos inAbove]
          exact aboveLays row inAbove
        · obtain ⟨place, rfl⟩ := Nat.exists_eq_add_of_le (Nat.le_of_not_lt inAbove)
          simp only [if_neg inAbove, Nat.add_sub_cancel_left]
          exact belowLays place (by omega)

theorem window {windows offset : Nat} (strips : Strips copies rows line (fun _ => 0)
      (fun row => windows * (line row).width) value) (inRows : row < rows) (inCount : index < windows)
    (inside : offset < (line row).width)
    (apart : ∀ other < rows, other ≠ row → ∀ window < windows, (line other).region window = (line row).region index →
      ¬ ((line other).base ≤ (line row).base + offset ∧
        (line row).base + offset < (line other).base + (line other).width)) :
    Copy.Delivers copies ((line row).region index, (line row).base + offset)
      (value row (index * (line row).width + offset)) := by
  obtain ⟨body, same, rowLays⟩ := strips
  apply Copy.Delivers.perm same
  apply Copy.Delivers.range inRows
  · exact (rowLays row inRows).window inCount inside
  · intro other inOther different
    exact (rowLays other inOther).outside_windows (apart other inOther different)

theorem outside_windows {windows : Nat} {cell : ρ × Nat} (strips : Strips copies rows line (fun _ => 0)
      (fun row => windows * (line row).width) value)
    (apart : ∀ row < rows, ∀ window < windows, (line row).region window = cell.1 →
      ¬ ((line row).base ≤ cell.2 ∧ cell.2 < (line row).base + (line row).width)) :
    Copy.writes copies cell = 0 := by
  obtain ⟨body, same, rowLays⟩ := strips
  rw [Copy.writes_perm same]
  apply Copy.writes_flatMap_zero
  intro row member
  have inRows := List.mem_range.mp member
  exact (rowLays row inRows).outside_windows (apart row inRows)

theorem lays {line : Line ρ} {start width : Nat} {value : Nat → α}
    (strips : Strips copies rows (fun _ => line) (fun row => start + row * width)
      (fun row => start + (row + 1) * width) fun _ => value) :
    Lays copies line start (start + rows * width) value := by
  obtain ⟨body, same, rowLays⟩ := strips
  exact (Lays.range rowLays).perm same

end Strips

end

end KtKernel.Data
