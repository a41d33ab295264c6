import Mathlib.Algebra.BigOperators.Intervals
import Mathlib.Algebra.Order.Ring.Abs
import Mathlib.Algebra.Order.Ring.Int
import Mathlib.Tactic.Abel

namespace KtKernel.Data

/-! Lanes of vector registers, and the sums that run over them.

A register is a function of the lane.  An accumulator with several lanes adds to each of
them on its own and is summed at the end.
-/

variable {α β ι : Type}

/-! ## Moving lanes -/

/-- Lanes of two registers in turn, from the lower halves of their blocks of `size` lanes. -/
def unpacklo (size : Nat) (a b : Nat → α) : Nat → α :=
  fun lane =>
    let place := lane / size * size + lane % size / 2
    if lane % 2 = 0 then a place else b place

/-- The same from the upper halves. -/
def unpackhi (size : Nat) (a b : Nat → α) : Nat → α :=
  fun lane =>
    let place := lane / size * size + size / 2 + lane % size / 2
    if lane % 2 = 0 then a place else b place

theorem unpacklo_first (a b : Nat → α) {size : Nat} (inside : lane < size) :
    unpacklo size a b lane = if lane % 2 = 0 then a (lane / 2) else b (lane / 2) := by
  simp only [unpacklo, Nat.div_eq_of_lt inside, Nat.mod_eq_of_lt inside, Nat.zero_mul, Nat.zero_add]

/-- A register of two halves. -/
def halves (size : Nat) (low high : Nat → α) : Nat → α :=
  fun lane => if lane < size then low lane else high (lane - size)

/-- Lanes unpacked from two registers, the lower ones and then the upper ones. -/
theorem halves_unpack (a b : Nat → α) {size : Nat} (even : size % 2 = 0) (inside : lane < 2 * size) :
    halves size (unpacklo size a b) (unpackhi size a b) lane = if lane % 2 = 0 then a (lane / 2) else b (lane / 2) := by
  by_cases low : lane < size
  · rw [halves, if_pos low, unpacklo_first a b low]
  · have upper : lane - size < size := by omega
    have place : size / 2 + (lane - size) / 2 = lane / 2 := by omega
    have parity : (lane - size) % 2 = lane % 2 := by omega
    simp only [halves, if_neg low, unpackhi, Nat.div_eq_of_lt upper, Nat.mod_eq_of_lt upper, Nat.zero_mul, Nat.zero_add, place, parity]

def words16 (bytes : Nat → BitVec 8) : Nat → BitVec 16 :=
  fun lane => bytes (2 * lane + 1) ++ bytes (2 * lane)

/-- A lookup of bytes in a table of 16, one table for each block of lanes. -/
def shuffleEpi8 (table : List (BitVec 8)) (index : Nat → BitVec 8) : Nat → BitVec 8 :=
  fun lane => if (index lane).msb then 0 else table.getD (index lane &&& 0x0F).toNat 0

theorem shuffleEpi8_nibble (table : List (BitVec 8)) {index : Nat → BitVec 8} (inTable : (index lane).toNat < 16) :
    shuffleEpi8 table index lane = table.getD (index lane).toNat 0 := by
  have mask : (0x0F : BitVec 8).toNat = 2 ^ 4 - 1 := by decide
  have low : (index lane).msb = false := by
    rw [BitVec.msb_eq_false_iff_two_mul_lt]
    omega
  rw [shuffleEpi8, low, if_neg (by decide), BitVec.toNat_and, mask, Nat.and_two_pow_sub_one_eq_mod, Nat.mod_eq_of_lt inTable]

theorem words16_unpacklo (low high : Nat → BitVec 8) (lane : Nat) :
    words16 (unpacklo 16 low high) lane = high (lane / 8 * 16 + lane % 8) ++ low (lane / 8 * 16 + lane % 8) := by
  have odd : (2 * lane + 1) / 16 * 16 + (2 * lane + 1) % 16 / 2 = lane / 8 * 16 + lane % 8 := by omega
  have even : 2 * lane / 16 * 16 + 2 * lane % 16 / 2 = lane / 8 * 16 + lane % 8 := by omega
  rw [words16, unpacklo, unpacklo, if_neg (by omega), if_pos (by omega), odd, even]

theorem words16_unpackhi (low high : Nat → BitVec 8) (lane : Nat) :
    words16 (unpackhi 16 low high) lane = high (lane / 8 * 16 + 8 + lane % 8) ++ low (lane / 8 * 16 + 8 + lane % 8) := by
  have odd : (2 * lane + 1) / 16 * 16 + 16 / 2 + (2 * lane + 1) % 16 / 2 = lane / 8 * 16 + 8 + lane % 8 := by omega
  have even : 2 * lane / 16 * 16 + 16 / 2 + 2 * lane % 16 / 2 = lane / 8 * 16 + 8 + lane % 8 := by omega
  rw [words16, unpackhi, unpackhi, if_neg (by omega), if_pos (by omega), odd, even]

def wordByte (words : Nat → BitVec 32) (place : Nat) : BitVec 8 :=
  (words (place / 4) >>> (8 * (place % 4))).truncate 8

/-- A shift of words of 16 bits in a register of bytes. -/
def srliEpi16 (a : Nat → BitVec 8) (count : Nat) : Nat → BitVec 8 :=
  fun lane =>
    let word : BitVec 16 := a (lane / 2 * 2 + 1) ++ a (lane / 2 * 2)
    (word >>> count >>> (8 * (lane % 2))).truncate 8

/-- What a shift brings in from the byte above is masked away. -/
theorem srliEpi16_nibble (a : Nat → BitVec 8) (lane : Nat) : srliEpi16 a 4 lane &&& (0x0F : BitVec 8) = a lane >>> 4 := by
  have mask : (0x0F : BitVec 8).toNat = 2 ^ 4 - 1 := by decide
  have low := (a (lane / 2 * 2)).isLt
  have high := (a (lane / 2 * 2 + 1)).isLt
  apply BitVec.eq_of_toNat_eq
  have word : (a (lane / 2 * 2 + 1) ++ a (lane / 2 * 2)).toNat = (a (lane / 2 * 2 + 1)).toNat * 2 ^ 8 + (a (lane / 2 * 2)).toNat := by
    rw [BitVec.toNat_append, ← Nat.shiftLeft_add_eq_or_of_lt low, Nat.shiftLeft_eq]
  rw [BitVec.toNat_and, mask, Nat.and_two_pow_sub_one_eq_mod, srliEpi16, BitVec.truncate_eq_setWidth, BitVec.toNat_setWidth,
    BitVec.toNat_ushiftRight, BitVec.toNat_ushiftRight, word, BitVec.toNat_ushiftRight]
  simp only [Nat.shiftRight_eq_div_pow]
  rcases Nat.mod_two_eq_zero_or_one lane with even | odd
  · have place : lane / 2 * 2 = lane := by omega
    rw [even, place] at *
    omega
  · have place : lane / 2 * 2 + 1 = lane := by omega
    rw [odd, place] at *
    omega

/-! ## Sums -/

section Sums

variable [AddCommMonoid α]

theorem foldl_range (f : Nat → α) (count : Nat) (start : α) :
    (List.range count).foldl (fun acc index => acc + f index) start = start + ∑ index ∈ Finset.range count, f index := by
  induction count with
  | zero => simp
  | succ count induction =>
      rw [List.range_succ, List.foldl_append, induction, Finset.sum_range_succ, List.foldl_cons, List.foldl_nil, add_assoc]

theorem foldl_lanes (f : Nat → Nat → α) (count : Nat) (start : Nat → α) (lane : Nat) :
    (List.range count).foldl (fun acc index lane => acc lane + f index lane) start lane =
      start lane + ∑ index ∈ Finset.range count, f index lane := by
  induction count with
  | zero => simp
  | succ count induction =>
      rw [List.range_succ, List.foldl_append, List.foldl_cons, List.foldl_nil, induction, Finset.sum_range_succ, add_assoc]

/-- Accumulators of lanes beside an accumulator of their own. -/
theorem foldl_lanes_beside (f : Nat → Nat → α) (h : Nat → α) (count : Nat) :
    (List.range count).foldl (fun (sums : (Nat → α) × α) index => (fun lane => sums.1 lane + f index lane, sums.2 + h index))
        (fun _ => 0, 0) =
      (fun lane => ∑ index ∈ Finset.range count, f index lane, ∑ index ∈ Finset.range count, h index) := by
  induction count with
  | zero => rfl
  | succ count induction =>
      rw [List.range_succ, List.foldl_append, induction, List.foldl_cons, List.foldl_nil, Finset.sum_range_succ]
      simp only [Finset.sum_range_succ]

theorem foldl_accumulators (f : Nat → Nat → Nat → α) (count register lane : Nat) :
    (List.range count).foldl (fun accs index register lane => accs register lane + f index register lane) (fun _ _ => 0) register lane =
      ∑ index ∈ Finset.range count, f index register lane := by
  induction count with
  | zero => rfl
  | succ count induction => rw [List.range_succ, List.foldl_append, List.foldl_cons, List.foldl_nil, induction, Finset.sum_range_succ]

theorem foldl_range' (f : Nat → α) (start count : Nat) (acc : α) :
    (List.range' start count).foldl (fun acc index => acc + f index) acc = acc + ∑ index ∈ Finset.range count, f (start + index) := by
  rw [List.range'_eq_map_range, List.foldl_map]
  exact foldl_range (fun index => f (start + index)) count acc

theorem sum_blocks (f : Nat → α) (count size : Nat) :
    ∑ place ∈ Finset.range (count * size), f place =
      ∑ block ∈ Finset.range count, ∑ offset ∈ Finset.range size, f (block * size + offset) := by
  induction count with
  | zero => simp
  | succ count induction => rw [Nat.succ_mul, Finset.sum_range_add, induction, Finset.sum_range_succ]

/-- A sum in blocks of which the last may be shorter. -/
theorem sum_chunks (f : Nat → α) {count size total : Nat} (covered : total ≤ count * size) :
    ∑ block ∈ Finset.range count, ∑ offset ∈ Finset.range (min size (total - block * size)), f (block * size + offset) =
      ∑ place ∈ Finset.range total, f place := by
  have inside : {place ∈ Finset.range (count * size) | place < total} = Finset.range total := by
    ext place
    simp only [Finset.mem_filter, Finset.mem_range]
    omega
  have block (index : Nat) :
      {offset ∈ Finset.range size | index * size + offset < total} = Finset.range (min size (total - index * size)) := by
    ext offset
    simp only [Finset.mem_filter, Finset.mem_range]
    omega
  have blocks := sum_blocks (fun place => if place < total then f place else 0) count size
  rw [← Finset.sum_filter, inside] at blocks
  rw [blocks]
  apply Finset.sum_congr rfl
  intro index _
  rw [← block, Finset.sum_filter]

/-- Steps of four registers, and of one register after them, go through the whole registers. -/
theorem registers_sum (f : Nat → α) (length : Nat) :
    ∑ lane ∈ Finset.range 8, (∑ step ∈ Finset.range (length / 32), ∑ register ∈ Finset.range 4, f (step * 32 + 8 * register + lane) +
        ∑ step ∈ Finset.range (length % 32 / 8), f (length / 32 * 32 + step * 8 + lane)) =
      ∑ place ∈ Finset.range (length / 8 * 8), f place := by
  have whole : length / 8 * 8 = length / 32 * 32 + length % 32 / 8 * 8 := by omega
  rw [Finset.sum_add_distrib, whole, Finset.sum_range_add]
  congr 1
  · rw [Finset.sum_comm, sum_blocks]
    apply Finset.sum_congr rfl
    intro step _
    rw [Finset.sum_comm, sum_blocks (fun place => f (step * 32 + place)) 4 8]
    simp only [Nat.add_assoc, Nat.mul_comm 8]
  · rw [Finset.sum_comm, sum_blocks]
    simp only [Nat.add_assoc]

end Sums

/-- The sum of eight lanes by an extraction of the upper half and two horizontal additions. -/
def hsumHadd (add : α → α → α) (v : Nat → α) : α :=
  let s := fun lane => add (v lane) (v (lane + 4))
  add (add (s 0) (s 1)) (add (s 2) (s 3))

theorem hsumHadd_eq [AddCommMonoid α] (v : Nat → α) : hsumHadd (· + ·) v = ∑ lane ∈ Finset.range 8, v lane := by
  simp only [hsumHadd, Finset.sum_range_succ, Finset.sum_range_zero, zero_add]
  abel

/-- The sum of eight lanes by an extraction of the upper half and two moves. -/
def hsumMovehl (add : α → α → α) (v : Nat → α) : α :=
  let s := fun lane => add (v lane) (v (lane + 4))
  add (add (s 0) (s 2)) (add (s 1) (s 3))

theorem hsumMovehl_eq [AddCommMonoid α] (v : Nat → α) : hsumMovehl (· + ·) v = ∑ lane ∈ Finset.range 8, v lane := by
  simp only [hsumMovehl, Finset.sum_range_succ, Finset.sum_range_zero, zero_add]
  abel

/-- An addition of 32 bits. -/
def wrapAdd (a b : Int) : Int :=
  (a + b).bmod (2 ^ 32)

theorem hsumHadd_wrap (v : Nat → Int) : hsumHadd wrapAdd v = (∑ lane ∈ Finset.range 8, v lane).bmod (2 ^ 32) := by
  rw [← hsumHadd_eq]
  simp only [hsumHadd, wrapAdd, Int.bmod_add_bmod, Int.add_bmod_bmod]

/-- A wrapping sum that stays in range is the sum. -/
theorem bmod_of_abs_lt {i : Int} (fits : |i| < 2 ^ 31) : i.bmod (2 ^ 32) = i := by
  obtain ⟨low, high⟩ := abs_lt.mp fits
  apply Int.bmod_eq_of_le
  · omega
  · omega

end KtKernel.Data
