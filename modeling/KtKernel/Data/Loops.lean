import KtKernel.Data.Copies

namespace KtKernel.Data

/-! Loops that go up in steps. -/

variable {α : Type} {total block step value : Nat}

/-- The values of a loop variable that goes up to a bound in steps. -/
def upTo (total step : Nat) : List Nat :=
  (List.range ((total + step - 1) / step)).map (· * step)

theorem upTo_multiple (positive : 0 < step) (count : Nat) :
    upTo (count * step) step = (List.range count).map (· * step) := by
  have ceil : (count * step + step - 1) / step = count := by
    rw [Nat.add_sub_assoc (by omega), Nat.mul_comm, Nat.mul_add_div positive, Nat.div_eq_of_lt (by omega), Nat.add_zero]
  rw [upTo, ceil]

theorem mem_upTo (positive : 0 < step) : value ∈ upTo total step ↔ step ∣ value ∧ value < total := by
  have bound : ∀ index, index < (total + step - 1) / step ↔ index * step < total := by
    intro index
    rw [Nat.lt_iff_add_one_le, Nat.le_div_iff_mul_le positive, Nat.add_mul, Nat.one_mul]
    omega
  simp only [upTo, List.mem_map, List.mem_range, bound]
  constructor
  · intro found
    obtain ⟨index, inRange, rfl⟩ := found
    exact ⟨Nat.dvd_mul_left _ _, inRange⟩
  · intro known
    obtain ⟨⟨index, rfl⟩, inside⟩ := known
    rw [Nat.mul_comm] at inside
    exact ⟨index, inside, Nat.mul_comm _ _⟩

theorem upTo_nodup (positive : 0 < step) : (upTo total step).Nodup := by
  apply List.Pairwise.map _ _ List.nodup_range
  intro one other different same
  exact different (Nat.eq_of_mul_eq_mul_right positive same)

/-- A loop over blocks with a loop over the steps of a block goes through the steps. -/
theorem upTo_blocks (positive : 0 < step) (whole : step ∣ block) (some_ : 0 < block) (aligned : step ∣ total)
    (body : Nat → List α) :
    ((upTo total block).flatMap fun start => (upTo (min block (total - start)) step).flatMap fun inner => body (start + inner)) =
      (upTo total step).flatMap body := by
  obtain ⟨count, rfl⟩ := aligned
  obtain ⟨size, rfl⟩ := whole
  have someSize : 0 < size := Nat.pos_of_mul_pos_left some_
  have tasks : count ≤ (step * count + step * size - 1) / (step * size) * size := by
    have enough : step * count ≤ (step * count + step * size - 1) / (step * size) * (step * size) := by
      have split := Nat.div_add_mod' (step * count + step * size - 1) (step * size)
      have small := Nat.mod_lt (step * count + step * size - 1) some_
      omega
    rw [Nat.mul_left_comm] at enough
    exact Nat.le_of_mul_le_mul_left enough positive
  have inner : ∀ index, ((upTo (min (step * size) (step * count - index * (step * size))) step).flatMap fun inner =>
      body (index * (step * size) + inner)) = (chunk size count index).flatMap fun unit => body (unit * step) := by
    intro index
    have rows : min (step * size) (step * count - index * (step * size)) = min size (count - index * size) * step := by
      rw [Nat.mul_left_comm index, ← Nat.mul_sub, Nat.mul_min_mul_left, Nat.mul_comm]
    have bounds : min ((index + 1) * size) count - index * size = min size (count - index * size) := by
      rw [Nat.add_mul, Nat.one_mul]
      omega
    rw [rows, upTo_multiple positive, chunk, bounds, List.range'_eq_map_range, List.flatMap_map, List.flatMap_map]
    congr 1
    funext unit
    rw [Nat.add_mul, Nat.mul_comm step, ← Nat.mul_assoc]
  rw [Nat.mul_comm step count, upTo_multiple positive, Nat.mul_comm count, upTo, List.flatMap_map, List.flatMap_map]
  simp only [inner]
  exact flatMap_tasks tasks fun unit => body (unit * step)

theorem flatMap_bounds (bound : Nat → Nat) (rising : ∀ index, bound index ≤ bound (index + 1)) (threads : Nat)
    (body : Nat → List α) :
    ((List.range threads).flatMap fun ith => (List.range' (bound ith) (bound (ith + 1) - bound ith)).flatMap body) =
      (List.range' (bound 0) (bound threads - bound 0)).flatMap body := by
  have above : ∀ count, bound 0 ≤ bound count := by
    intro count
    induction count with
    | zero => exact Nat.le_refl _
    | succ count induction => exact induction.trans (rising count)
  induction threads with
  | zero => simp
  | succ threads induction =>
      have joined := List.range'_append_1 (s := bound 0) (m := bound threads - bound 0) (n := bound (threads + 1) - bound threads)
      have first := above threads
      have next := rising threads
      rw [Nat.add_sub_cancel' first] at joined
      rw [List.range_succ, List.flatMap_append, induction, List.flatMap_singleton, ← List.flatMap_append, joined]
      congr 2
      omega

end KtKernel.Data
