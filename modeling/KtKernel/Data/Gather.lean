import Mathlib.Data.Nat.Notation

namespace KtKernel.Data

/-! Loops that give results and carry a state on.

What such a loop gives need not depend on the state, when the state is room for values in
between.  Its results are then known by what each round gives.
-/

variable {σ ι α : Type}

/-- The rounds of a loop, one after the other. -/
def gather (items : List ι) (round : ι → σ → List α × σ) (state : σ) : List α × σ :=
  match items with
  | [] => ([], state)
  | item :: rest =>
      let (first, next) := round item state
      let (others, last) := gather rest round next
      (first ++ others, last)

theorem mem_gather {items : List ι} {round : ι → σ → List α × σ} {result : α} (gives : ι → Prop)
    (known : ∀ item ∈ items, ∀ state, result ∈ (round item state).1 ↔ gives item) (state : σ) :
    result ∈ (gather items round state).1 ↔ ∃ item ∈ items, gives item := by
  induction items generalizing state with
  | nil => simp [gather]
  | cons item rest induction =>
      have first := known item (.head _) state
      have others := induction (fun other member => known other (.tail _ member)) (round item state).2
      rw [gather, List.mem_append, first, others]
      simp only [List.mem_cons, exists_eq_or_imp]

/-- A loop that takes four at a time, and then the rest one by one. -/
def byFours (start stop : Nat) (four one : Nat → σ → List α × σ) (state : σ) : List α × σ :=
  let (blocks, next) := gather ((List.range ((stop - start) / 4)).map (start + 4 * ·)) four state
  let (rest, last) := gather (List.range' (start + (stop - start) / 4 * 4) ((stop - start) % 4)) one next
  (blocks ++ rest, last)

theorem mem_byFours {start stop : Nat} {four one : Nat → σ → List α × σ} {result : α} (gives : Nat → Prop)
    (fours : ∀ place, start ≤ place → place + 4 ≤ stop → ∀ state, result ∈ (four place state).1 ↔ ∃ j < 4, gives (place + j))
    (ones : ∀ place, start ≤ place → place < stop → ∀ state, result ∈ (one place state).1 ↔ gives place) (state : σ) :
    result ∈ (byFours start stop four one state).1 ↔ ∃ place, start ≤ place ∧ place < stop ∧ gives place := by
  have blocks : ∀ state, result ∈ (gather ((List.range ((stop - start) / 4)).map (start + 4 * ·)) four state).1 ↔
      ∃ place ∈ (List.range ((stop - start) / 4)).map (start + 4 * ·), ∃ j < 4, gives (place + j) := by
    apply mem_gather fun place => ∃ j < 4, gives (place + j)
    intro place member
    obtain ⟨block, inRange, rfl⟩ := List.mem_map.mp member
    have inBlocks := List.mem_range.mp inRange
    exact fours (start + 4 * block) (by omega) (by omega)
  have rest : ∀ state, result ∈ (gather (List.range' (start + (stop - start) / 4 * 4) ((stop - start) % 4)) one state).1 ↔
      ∃ place ∈ List.range' (start + (stop - start) / 4 * 4) ((stop - start) % 4), gives place := by
    apply mem_gather gives
    intro place member
    have inRest := List.mem_range'_1.mp member
    exact ones place (by omega) (by omega)
  rw [byFours, List.mem_append, blocks, rest]
  constructor
  · rintro (⟨place, member, j, inFour, given⟩ | ⟨place, member, given⟩)
    · obtain ⟨block, inRange, rfl⟩ := List.mem_map.mp member
      have inBlocks := List.mem_range.mp inRange
      exact ⟨_, by omega, by omega, given⟩
    · have inRest := List.mem_range'_1.mp member
      exact ⟨place, by omega, by omega, given⟩
  · rintro ⟨place, above, below, given⟩
    by_cases inBlocks : place < start + (stop - start) / 4 * 4
    · have split : start + 4 * ((place - start) / 4) + (place - start) % 4 = place := by omega
      refine .inl ⟨_, List.mem_map_of_mem (List.mem_range.mpr (show (place - start) / 4 < _ by omega)), (place - start) % 4,
        Nat.mod_lt _ (by decide), ?_⟩
      rw [split]
      exact given
    · exact .inr ⟨place, List.mem_range'_1.mpr (by omega), given⟩

end KtKernel.Data
