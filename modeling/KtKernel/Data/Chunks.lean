import KtKernel.Data.Loops

namespace KtKernel.Data

/-! A list taken in chunks. -/

variable {α β : Type} {size : Nat}

theorem upTo_zero (positive : 0 < size) : upTo 0 size = [] := by
  rw [upTo, Nat.zero_add, Nat.div_eq_of_lt (by omega)]
  rfl

theorem upTo_cons {total : Nat} (positive : 0 < size) (some_ : 0 < total) :
    upTo total size = 0 :: (upTo (total - size) size).map (size + ·) := by
  have count : (total + size - 1) / size = (total - size + size - 1) / size + 1 := by
    by_cases more : size ≤ total
    · rw [← Nat.add_div_right _ positive]
      congr 1
      omega
    · rw [Nat.div_eq_of_lt (show total - size + size - 1 < size by omega),
        show total + size - 1 = total - 1 + size by omega, Nat.add_div_right _ positive, Nat.div_eq_of_lt (by omega)]
  rw [upTo, count, List.range_succ_eq_map, List.map_cons, Nat.zero_mul, List.map_map, upTo, List.map_map]
  congr 2
  funext index
  exact (Nat.succ_mul index size).trans (Nat.add_comm _ _)

/-- The slices of a number of items, one after the other. -/
def chunks (size : Nat) (items : List α) : List (List α) :=
  (upTo items.length size).map fun start => (items.drop start).take size

theorem chunks_nil (positive : 0 < size) : chunks size ([] : List α) = [] := by
  rw [chunks, List.length_nil, upTo_zero positive]
  rfl

theorem chunks_cons {items : List α} (positive : 0 < size) (some_ : items ≠ []) :
    chunks size items = items.take size :: chunks size (items.drop size) := by
  rw [chunks, upTo_cons positive (List.length_pos_iff.mpr some_), List.map_cons, List.drop_zero, List.map_map, chunks,
    List.length_drop]
  congr 2
  funext start
  exact congrArg (List.take size) List.drop_drop.symm

theorem getElem?_chunk (positive : 0 < size) (items : List α) (place : Nat) :
    ((items.drop (place / size * size)).take size)[place % size]? = items[place]? := by
  rw [List.getElem?_take_of_lt (Nat.mod_lt place positive), List.getElem?_drop, Nat.div_add_mod']

/-- What the chunks give, one result an item, at a place of the whole. -/
theorem getElem?_flatMap_chunks (positive : 0 < size) (out : List α → List β)
    (same : ∀ chunk, (out chunk).length = chunk.length) (items : List α) {place : Nat} (inside : place < items.length) :
    ((chunks size items).flatMap out)[place]? =
      (out ((items.drop (place / size * size)).take size))[place % size]? := by
  induction place using Nat.strong_induction_on generalizing items with
  | _ place induction =>
      have some_ : items ≠ [] := List.ne_nil_of_length_pos (by omega)
      rw [chunks_cons positive some_, List.flatMap_cons]
      by_cases first : place < size
      · have inFirst : place < (out (items.take size)).length := by
          rw [same, List.length_take]
          omega
        rw [List.getElem?_append_left inFirst, Nat.div_eq_of_lt first, Nat.mod_eq_of_lt first, Nat.zero_mul, List.drop_zero]
      · have full : (out (items.take size)).length = size := by
          rw [same, List.length_take]
          omega
        have whole : place / size * size = size + (place - size) / size * size := by
          have step : place / size = (place - size) / size + 1 := by
            rw [← Nat.add_div_right _ positive, Nat.sub_add_cancel (by omega)]
          rw [step, Nat.succ_mul, Nat.add_comm]
        rw [List.getElem?_append_right (by omega), full, induction (place - size) (by omega) (items.drop size)
          (by rw [List.length_drop]; omega), List.drop_drop, ← whole, ← Nat.mod_eq_sub_mod (by omega)]

theorem flatten_chunks (positive : 0 < size) (items : List α) : (chunks size items).flatten = items := by
  induction count : items.length using Nat.strong_induction_on generalizing items with
  | _ count_ induction =>
      by_cases none : items = []
      · rw [none, chunks_nil positive]
        rfl
      · have some_ := List.length_pos_iff.mpr none
        rw [chunks_cons positive none, List.flatten_cons,
          induction (count_ - size) (by omega) (items.drop size) (by rw [List.length_drop, count]), List.take_append_drop]

end KtKernel.Data
