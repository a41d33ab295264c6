import Mathlib.Data.List.Range
import Mathlib.Order.MinMax

namespace KtKernel.Data

/-! Memory copies into named regions.

A program that moves data around is a list of copies.  What matters of the list
is how often each cell is written and with what: a cell that one copy writes
holds that copy's value afterwards, in whatever order the copies run.
-/

/-- A copy of `length` cells to a place in a region.  `value` gives the source,
counted from the start of the copy. -/
structure Copy (ρ α : Type) where
  region : ρ
  start : Nat
  length : Nat
  value : Nat → α

namespace Copy

variable {ρ α κ : Type} [DecidableEq ρ]

def covers (copy : Copy ρ α) (cell : ρ × Nat) : Bool :=
  copy.region = cell.1 ∧ copy.start ≤ cell.2 ∧ cell.2 < copy.start + copy.length

/-- The number of times a cell is written. -/
def writes (copies : List (Copy ρ α)) (cell : ρ × Nat) : Nat :=
  copies.countP (·.covers cell)

def perform (copies : List (Copy ρ α)) (memory : ρ × Nat → α) : ρ × Nat → α :=
  copies.foldl (fun memory copy cell =>
    if copy.covers cell then copy.value (cell.2 - copy.start) else memory cell) memory

structure Delivers (copies : List (Copy ρ α)) (cell : ρ × Nat) (value : α) : Prop where
  once : writes copies cell = 1
  value : ∃ copy ∈ copies, copy.covers cell = true ∧ copy.value (cell.2 - copy.start) = value

variable {copies : List (Copy ρ α)} {cell : ρ × Nat} {value : α}

theorem covers_iff {copy : Copy ρ α} :
    copy.covers cell = true ↔
      copy.region = cell.1 ∧ copy.start ≤ cell.2 ∧ cell.2 < copy.start + copy.length := by
  simp only [covers, decide_eq_true_eq]

@[simp]
theorem writes_nil (cell : ρ × Nat) : writes ([] : List (Copy ρ α)) cell = 0 := rfl

@[simp]
theorem writes_append (first second : List (Copy ρ α)) (cell : ρ × Nat) :
    writes (first ++ second) cell = writes first cell + writes second cell :=
  List.countP_append

theorem writes_cons (copy : Copy ρ α) (rest : List (Copy ρ α)) (cell : ρ × Nat) :
    writes (copy :: rest) cell = writes rest cell + if copy.covers cell then 1 else 0 :=
  List.countP_cons

theorem writes_perm {order : List (Copy ρ α)} (same : order.Perm copies) (cell : ρ × Nat) :
    writes order cell = writes copies cell :=
  same.countP_eq _

theorem writes_eq_zero (none : ∀ copy ∈ copies, copy.covers cell = false) : writes copies cell = 0 := by
  apply List.countP_eq_zero.mpr
  intro copy member
  rw [none copy member]
  decide

theorem writes_pos {copy : Copy ρ α} (member : copy ∈ copies) (covers : copy.covers cell = true) :
    0 < writes copies cell :=
  List.countP_pos_iff.mpr ⟨copy, member, covers⟩

theorem writes_flatMap_zero {indices : List κ} {body : κ → List (Copy ρ α)}
    (none : ∀ index ∈ indices, writes (body index) cell = 0) : writes (indices.flatMap body) cell = 0 := by
  induction indices with
  | nil => rfl
  | cons index rest induction =>
      rw [List.flatMap_cons, writes_append, none index (.head _), induction]
      intro other member
      exact none other (.tail _ member)

/-- Only one round of the loop writes the cell. -/
theorem writes_flatMap_only {indices : List κ} {body : κ → List (Copy ρ α)} (distinct : indices.Nodup)
    (member : owner ∈ indices) (others : ∀ index ∈ indices, index ≠ owner → writes (body index) cell = 0) :
    writes (indices.flatMap body) cell = writes (body owner) cell := by
  induction indices with
  | nil => contradiction
  | cons index rest induction =>
      obtain ⟨absent, distinctRest⟩ := List.nodup_cons.mp distinct
      rw [List.flatMap_cons, writes_append]
      rcases List.mem_cons.mp member with rfl | inRest
      · rw [writes_flatMap_zero, Nat.add_zero]
        intro other inRest
        exact others other (.tail _ inRest) (fun same => absent (same ▸ inRest))
      · have different : index ≠ owner := fun same => absent (same ▸ inRest)
        rw [others index (.head _) different, Nat.zero_add]
        apply induction distinctRest inRest
        intro other member
        exact others other (.tail _ member)

theorem writes_flatMap_ge {indices : List κ} (cell : ρ × Nat) (body : κ → List (Copy ρ α))
    (member : index ∈ indices) :
    writes (body index) cell ≤ writes (indices.flatMap body) cell := by
  induction indices with
  | nil => contradiction
  | cons other rest induction =>
      rw [List.flatMap_cons, writes_append]
      rcases List.mem_cons.mp member with rfl | inRest
      · omega
      · have later := induction inRest
        omega

/-- Two rounds of the loop that write the cell are two writes. -/
theorem writes_flatMap_two {indices : List κ} {body : κ → List (Copy ρ α)} (one : first ∈ indices)
    (two : second ∈ indices) (different : first ≠ second) (firstWrites : 0 < writes (body first) cell)
    (secondWrites : 0 < writes (body second) cell) : 1 < writes (indices.flatMap body) cell := by
  induction indices with
  | nil => contradiction
  | cons index rest induction =>
      rw [List.flatMap_cons, writes_append]
      rcases List.mem_cons.mp one with rfl | oneRest
      · have twoRest := (List.mem_cons.mp two).resolve_left (Ne.symm different)
        have later := writes_flatMap_ge cell body twoRest
        omega
      · rcases List.mem_cons.mp two with rfl | twoRest
        · have later := writes_flatMap_ge cell body oneRest
          omega
        · have later := induction oneRest twoRest
          omega

/-! ## Deliveries -/

namespace Delivers

theorem single {copy : Copy ρ α} (covers : copy.covers cell = true)
    (same : copy.value (cell.2 - copy.start) = value) : Delivers [copy] cell value where
  once := by rw [writes_cons, writes_nil, if_pos covers]
  value := ⟨copy, .head _, covers, same⟩

theorem append_left {rest : List (Copy ρ α)} (delivers : Delivers copies cell value)
    (none : writes rest cell = 0) : Delivers (copies ++ rest) cell value := by
  obtain ⟨copy, member, holds⟩ := delivers.value
  refine ⟨?_, copy, List.mem_append_left _ member, holds⟩
  rw [writes_append, delivers.once, none]

theorem append_right {rest : List (Copy ρ α)} (delivers : Delivers copies cell value)
    (none : writes rest cell = 0) : Delivers (rest ++ copies) cell value := by
  obtain ⟨copy, member, holds⟩ := delivers.value
  refine ⟨?_, copy, List.mem_append_right _ member, holds⟩
  rw [writes_append, delivers.once, none]

theorem flatMap {indices : List κ} {body : κ → List (Copy ρ α)} (distinct : indices.Nodup)
    (member : owner ∈ indices) (delivers : Delivers (body owner) cell value)
    (others : ∀ index ∈ indices, index ≠ owner → writes (body index) cell = 0) :
    Delivers (indices.flatMap body) cell value := by
  obtain ⟨copy, inBody, holds⟩ := delivers.value
  refine ⟨?_, copy, List.mem_flatMap_of_mem member inBody, holds⟩
  rw [writes_flatMap_only distinct member others, delivers.once]

theorem range {count owner : Nat} {body : Nat → List (Copy ρ α)} (inside : owner < count)
    (delivers : Delivers (body owner) cell value)
    (others : ∀ index < count, index ≠ owner → writes (body index) cell = 0) :
    Delivers ((List.range count).flatMap body) cell value := by
  apply flatMap List.nodup_range (List.mem_range.mpr inside) delivers
  intro index member
  exact others index (List.mem_range.mp member)

theorem perm {order : List (Copy ρ α)} (same : order.Perm copies) (delivers : Delivers copies cell value) :
    Delivers order cell value := by
  obtain ⟨copy, member, holds⟩ := delivers.value
  exact ⟨(writes_perm same cell).trans delivers.once, copy, same.mem_iff.mpr member, holds⟩

end Delivers

theorem perform_unwritten (none : writes copies cell = 0) (memory : ρ × Nat → α) :
    perform copies memory cell = memory cell := by
  induction copies generalizing memory with
  | nil => rfl
  | cons copy rest induction =>
      rw [writes_cons] at none
      have misses : ¬ copy.covers cell = true := by
        intro covers
        rw [if_pos covers] at none
        omega
      exact (induction (by omega) _).trans (if_neg misses)

/-- A cell that is written once holds what was written. -/
theorem Delivers.perform (delivers : Delivers copies cell value) (memory : ρ × Nat → α) :
    perform copies memory cell = value := by
  induction copies generalizing memory with
  | nil =>
      obtain ⟨copy, member, -⟩ := delivers.value
      contradiction
  | cons copy rest induction =>
      obtain ⟨once, found, member, covers, same⟩ := delivers
      rw [writes_cons] at once
      by_cases here : copy.covers cell = true
      · rw [if_pos here] at once
        have later : writes rest cell = 0 := by omega
        have first : found = copy := by
          rcases List.mem_cons.mp member with first | inRest
          · exact first
          · have positive := writes_pos inRest covers
            omega
        subst first
        exact (perform_unwritten later _).trans ((if_pos here).trans same)
      · rw [if_neg here] at once
        have inRest : found ∈ rest := by
          rcases List.mem_cons.mp member with rfl | inRest
          · contradiction
          · exact inRest
        exact induction ⟨once, found, inRest, covers, same⟩ _

theorem Delivers.value_of_covers {copy : Copy ρ α} (delivers : Delivers copies cell value) (member : copy ∈ copies)
    (covers : copy.covers cell = true) : copy.value (cell.2 - copy.start) = value := by
  obtain ⟨once, found, inCopies, foundCovers, same⟩ := delivers
  induction copies with
  | nil => contradiction
  | cons head rest induction =>
      rw [writes_cons] at once
      rcases List.mem_cons.mp member with rfl | inRest
      · rw [if_pos covers] at once
        rcases List.mem_cons.mp inCopies with rfl | foundRest
        · exact same
        · have positive := writes_pos foundRest foundCovers
          omega
      · have positive := writes_pos inRest covers
        rcases List.mem_cons.mp inCopies with rfl | foundRest
        · rw [if_pos foundCovers] at once
          omega
        · exact induction inRest (by omega) foundRest

/-- Copies that agree about a cell may write it more than once. -/
theorem perform_agrees (agree : ∀ copy ∈ copies, copy.covers cell = true → copy.value (cell.2 - copy.start) = value)
    (memory : ρ × Nat → α) (written : 0 < writes copies cell ∨ memory cell = value) :
    perform copies memory cell = value := by
  induction copies generalizing memory with
  | nil => exact written.resolve_left (Nat.lt_irrefl 0)
  | cons copy rest induction =>
      apply induction
      · intro other member
        exact agree other (.tail _ member)
      · rw [writes_cons] at written
        by_cases covers : copy.covers cell = true
        · exact .inr ((if_pos covers).trans (agree copy (.head _) covers))
        · rw [if_neg covers, Nat.add_zero] at written
          exact written.imp_right (if_neg covers).trans

/-! ## Bounds -/

variable {region : ρ} {low high base stride width count row inner offset total size chunks : Nat}

/-- All copies stay inside a part of a region. -/
def Within (copies : List (Copy ρ α)) (region : ρ) (low high : Nat) : Prop :=
  ∀ copy ∈ copies, copy.region = region ∧ low ≤ copy.start ∧ copy.start + copy.length ≤ high

theorem Within.writes_eq_zero (within : Within copies region low high)
    (outside : ¬ (region = cell.1 ∧ low ≤ cell.2 ∧ cell.2 < high)) : writes copies cell = 0 := by
  apply Copy.writes_eq_zero
  intro copy member
  obtain ⟨same, above, below⟩ := within copy member
  by_contra covered
  rw [Bool.not_eq_false, covers_iff] at covered
  apply outside
  refine ⟨same.symm.trans covered.1, ?_, ?_⟩
  · omega
  · omega

theorem Delivers.bounds (delivers : Delivers copies cell value) (within : Within copies region low high) :
    region = cell.1 ∧ low ≤ cell.2 ∧ cell.2 < high := by
  by_contra outside
  have none := within.writes_eq_zero outside
  rw [delivers.once] at none
  contradiction

omit [DecidableEq ρ] in
theorem Within.flatMap {indices : List κ} {body : κ → List (Copy ρ α)}
    (within : ∀ index ∈ indices, Within (body index) region low high) :
    Within (indices.flatMap body) region low high := by
  intro copy member
  obtain ⟨index, inIndices, inBody⟩ := List.mem_flatMap.mp member
  exact within index inIndices copy inBody

omit [DecidableEq ρ] in
theorem Within.single {copy : Copy ρ α} (same : copy.region = region) (above : low ≤ copy.start)
    (below : copy.start + copy.length ≤ high) : Within [copy] region low high := by
  intro other member
  obtain rfl := List.mem_singleton.mp member
  exact ⟨same, above, below⟩

def strided (region : ρ) (base stride width : Nat) (value : Nat → Nat → α) (count : Nat) : List (Copy ρ α) :=
  (List.range count).flatMap fun row => [⟨region, base + row * stride, width, value row⟩]

omit [DecidableEq ρ] in
theorem strided_within (region : ρ) (value : Nat → Nat → α) (fits : width ≤ stride) :
    Within (strided region base stride width value count) region base (base + count * stride) := by
  apply Within.flatMap
  intro row member
  have whole : (row + 1) * stride ≤ count * stride :=
    Nat.mul_le_mul_right _ (List.mem_range.mp member)
  rw [Nat.add_mul, Nat.one_mul] at whole
  apply Within.single
  · rfl
  · exact Nat.le_add_right _ _
  · change base + row * stride + width ≤ base + count * stride
    omega

theorem strided_delivers (region : ρ) (base : Nat) (value : Nat → Nat → α) (fits : width ≤ stride) (inRows : row < count)
    (inWidth : inner < width) :
    Delivers (strided region base stride width value count) (region, base + row * stride + inner)
      (value row inner) := by
  apply Delivers.range inRows
  · apply Delivers.single
    · rw [covers_iff]
      exact ⟨rfl, Nat.le_add_right _ _, Nat.add_lt_add_left inWidth _⟩
    · simp only [Nat.add_sub_cancel_left]
  · intro other inside different
    apply Within.writes_eq_zero (Within.single rfl (Nat.le_refl _) (Nat.le_refl _))
    intro covered
    obtain ⟨-, above, below⟩ := covered
    simp only at above below
    apply different
    rcases Nat.lt_trichotomy other row with less | same | more
    · have gap : (other + 1) * stride ≤ row * stride := Nat.mul_le_mul_right _ less
      rw [Nat.add_mul, Nat.one_mul] at gap
      omega
    · exact same
    · have gap : (row + 1) * stride ≤ other * stride := Nat.mul_le_mul_right _ more
      rw [Nat.add_mul, Nat.one_mul] at gap
      omega

omit [DecidableEq ρ] in
theorem strided_within_blocks (region : ρ) (value : Nat → Nat → α) (fits : base + width ≤ stride) :
    Within (strided region base stride width value count) region 0 (count * stride) := by
  apply Within.flatMap
  intro row member
  have last : (row + 1) * stride ≤ count * stride := Nat.mul_le_mul_right _ (List.mem_range.mp member)
  rw [Nat.add_mul, Nat.one_mul] at last
  apply Within.single
  · rfl
  · exact Nat.zero_le _
  · simp only
    omega

/-- Between the rows nothing is written. -/
theorem strided_gap (region : ρ) (value : Nat → Nat → α) (fits : base + width ≤ stride)
    (gap : ¬ (base ≤ offset % stride ∧ offset % stride < base + width)) :
    writes (strided region base stride width value count) (region, offset) = 0 := by
  apply writes_flatMap_zero
  intro row _
  apply Within.writes_eq_zero (Within.single rfl (Nat.le_refl _) (Nat.le_refl _))
  intro covered
  obtain ⟨-, above, below⟩ := covered
  simp only at above below
  apply gap
  have place : offset = row * stride + (offset - row * stride) := by omega
  have small : offset - row * stride < stride := by omega
  have rest : offset % stride = offset - row * stride := by
    rw [place, Nat.mul_comm row, Nat.mul_add_mod, Nat.mod_eq_of_lt]
    · omega
    · rw [Nat.mul_comm stride]
      omega
  rw [rest]
  omega

def chunked (region : ρ) (base total size chunks : Nat) (value : Nat → α) : List (Copy ρ α) :=
  (List.range chunks).flatMap fun index =>
    let start := index * size
    let stop := min (start + size) total
    if start < stop then [⟨region, base + start, stop - start, fun inner => value (start + inner)⟩] else []

omit [DecidableEq ρ] in
theorem chunked_within (region : ρ) (base total size chunks : Nat) (value : Nat → α) :
    Within (chunked region base total size chunks value) region base (base + total) := by
  apply Within.flatMap
  intro index _
  simp only
  split
  · apply Within.single
    · rfl
    · exact Nat.le_add_right _ _
    · simp only
      omega
  · intro copy member
    contradiction

theorem chunked_delivers (region : ρ) (base : Nat) (value : Nat → α) (covered : total ≤ chunks * size)
    (inside : offset < total) :
    Delivers (chunked region base total size chunks value) (region, base + offset) (value offset) := by
  have positive : 0 < size := by
    apply Nat.pos_of_ne_zero
    intro empty
    rw [empty, Nat.mul_zero] at covered
    omega
  have split := Nat.div_add_mod' offset size
  have small := Nat.mod_lt offset positive
  have owner : offset / size < chunks := by
    apply Nat.div_lt_of_lt_mul
    rw [Nat.mul_comm]
    omega
  apply Delivers.range owner
  · simp only
    rw [if_pos (by omega)]
    apply Delivers.single
    · rw [covers_iff]
      refine ⟨rfl, ?_, ?_⟩
      · simp only
        omega
      · simp only
        omega
    · simp only
      congr 1
      omega
  · intro other _ different
    simp only
    by_cases some_ : other * size < min (other * size + size) total
    · rw [if_pos some_]
      apply Within.writes_eq_zero (Within.single rfl (Nat.le_refl _) (Nat.le_refl _))
      intro inChunk
      obtain ⟨-, above, below⟩ := inChunk
      simp only at above below
      apply different
      symm
      apply Nat.div_eq_of_lt_le
      · omega
      · rw [Nat.add_mul, Nat.one_mul]
        omega
    · rw [if_neg some_, writes_nil]

/-- The copies write a range of a region, each cell once. -/
structure Carries (copies : List (Copy ρ α)) (region : ρ) (base total : Nat) (value : Nat → α) : Prop where
  delivers : ∀ offset < total, Delivers copies (region, base + offset) (value offset)
  within : Within copies region base (base + total)

theorem chunked_carries (region : ρ) (base : Nat) (value : Nat → α) (covered : total ≤ chunks * size) :
    Carries (chunked region base total size chunks value) region base total value where
  delivers := fun _ inside => chunked_delivers region base value covered inside
  within := chunked_within region base total size chunks value

theorem single_carries (region : ρ) (base total : Nat) (value : Nat → α) :
    Carries [⟨region, base, total, value⟩] region base total value where
  delivers := by
    intro offset inside
    apply Delivers.single
    · rw [covers_iff]
      exact ⟨rfl, Nat.le_add_right _ _, Nat.add_lt_add_left inside _⟩
    · simp only [Nat.add_sub_cancel_left]
  within := Within.single rfl (Nat.le_refl _) (Nat.le_refl _)

/-- Rows without gaps. -/
theorem strided_carries (region : ρ) (base width count : Nat) (value : Nat → Nat → α) :
    Carries (strided region base width width value count) region base (count * width)
      fun offset => value (offset / width) (offset % width) where
  delivers := by
    intro offset inside
    have positive : 0 < width := Nat.pos_of_mul_pos_left (Nat.zero_lt_of_lt inside)
    have inRows : offset / width < count := by
      apply Nat.div_lt_of_lt_mul
      rwa [Nat.mul_comm]
    have delivers := strided_delivers region base value (Nat.le_refl width) inRows
      (Nat.mod_lt offset positive)
    rwa [Nat.add_assoc, Nat.div_add_mod'] at delivers
  within := strided_within region value (Nat.le_refl width)

theorem Carries.congr {value value' : Nat → α} (carries : Carries copies region base total value)
    (same : ∀ offset < total, value offset = value' offset) : Carries copies region base total value' where
  delivers := fun offset inside => same offset inside ▸ carries.delivers offset inside
  within := carries.within

/-- A cell of the range, by its place in the region. -/
theorem Carries.place {value : Nat → α} (carries : Carries copies region base total value) (above : base ≤ offset)
    (below : offset < base + total) : Delivers copies (region, offset) (value (offset - base)) := by
  have delivers := carries.delivers (offset - base) (by omega)
  rwa [Nat.add_sub_cancel' above] at delivers

/-- The memory after the copies of a job, run in some order. -/
def Performed (copies : List (Copy ρ α)) (before after : ρ × Nat → α) : Prop :=
  ∃ order, order.Perm copies ∧ after = perform order before

theorem performed_inOrder (copies : List (Copy ρ α)) (before : ρ × Nat → α) :
    Performed copies before (perform copies before) :=
  ⟨copies, .refl _, rfl⟩

theorem Performed.delivered {before after : ρ × Nat → α} (performed : Performed copies before after)
    (delivers : Delivers copies cell value) : after cell = value := by
  obtain ⟨order, same, rfl⟩ := performed
  exact (delivers.perm same).perform before

theorem Performed.agreed {before after : ρ × Nat → α} (performed : Performed copies before after)
    (agree : ∀ copy ∈ copies, copy.covers cell = true → copy.value (cell.2 - copy.start) = value)
    (written : 0 < writes copies cell) : after cell = value := by
  obtain ⟨order, same, rfl⟩ := performed
  apply perform_agrees
  · intro copy member
    exact agree copy (same.mem_iff.mp member)
  · exact .inl (by rwa [writes_perm same])

end Copy

def chunk (size count index : Nat) : List Nat :=
  List.range' (index * size) (min ((index + 1) * size) count - index * size)

theorem flatMap_chunk (size count : Nat) (chunks : Nat) :
    (List.range chunks).flatMap (chunk size count) = List.range (min (chunks * size) count) := by
  induction chunks with
  | zero => simp
  | succ chunks induction =>
      rw [List.range_succ, List.flatMap_append, induction, List.flatMap_singleton, chunk]
      have grows : chunks * size ≤ (chunks + 1) * size := Nat.mul_le_mul_right _ (by omega)
      by_cases full : chunks * size ≤ count
      · have joined := List.range'_append_1 (s := 0) (m := chunks * size)
          (n := min ((chunks + 1) * size) count - chunks * size)
        rw [Nat.zero_add] at joined
        rw [min_eq_left full, List.range_eq_range', List.range_eq_range', joined]
        congr 1
        omega
      · have empty : min ((chunks + 1) * size) count - chunks * size = 0 := by omega
        have same : min (chunks * size) count = min ((chunks + 1) * size) count := by omega
        rw [empty, same, List.range'_zero, List.append_nil]

/-- Tasks that take chunks of a range go through the range. -/
theorem flatMap_tasks {β : Type} {size count tasks : Nat} (covered : count ≤ tasks * size) (body : Nat → List β) :
    ((List.range tasks).flatMap fun task => (chunk size count task).flatMap body) =
      (List.range count).flatMap body := by
  rw [← List.flatMap_assoc, flatMap_chunk, min_eq_right covered]

end KtKernel.Data
