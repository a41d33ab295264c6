import KtKernel.Fp8.Ranks

namespace KtKernel.Fp8

open KtKernel.Data
open KtKernel.Amx.ExpertFiles (Mat)
open KtKernel.K2 (Slot Target Destination)

/-! The copies of all parts, spread over the ranks. -/

/-- The sizes of what a rank gets: its rows of gate and up, and its columns of
down. -/
structure Share where
  ranks : Nat
  rankRows : Nat
  width : Nat
  downRows : Nat
  rankWidth : Nat
  rowsPositive : 0 < rankRows
  widthPositive : 0 < width
  columnsPositive : 0 < rankWidth

namespace Share

variable {α : Type} {share : Share} {gate up : Nat → α} {down : Nat → Nat → α} {copies : List (Copy Destination α)}

def half (share : Share) : Nat :=
  share.rankRows * share.width

theorem half_positive (share : Share) : 0 < share.half :=
  Nat.mul_pos share.rowsPositive share.widthPositive

def cells (share : Share) : Target → Nat
  | .w13 => 2 * share.half
  | .w2 => share.downRows * share.rankWidth

/-- The lines of gate, of up and of the rows of down are written once. -/
structure Spreads (share : Share) (gate up : Nat → α) (down : Nat → Nat → α) (gates ups downs : List (Copy Destination α)) :
    Prop where
  gate : Lays gates (w13Line 0 share.half share.half_positive) 0 (share.ranks * share.half) gate
  up : Lays ups (w13Line share.half share.half share.half_positive) 0 (share.ranks * share.half) up
  down : Strips downs share.downRows (fun row => w2Line (row * share.rankWidth) share.rankWidth share.columnsPositive)
    (fun _ => 0) (fun _ => share.ranks * share.rankWidth) down

variable {gates ups downs : List (Copy Destination α)} {rank offset row column : Nat} {target : Target}

theorem Spreads.gates_miss (spreads : share.Spreads gate up down gates ups downs)
    (miss : ¬ (target = .w13 ∧ rank < share.ranks ∧ offset < share.half)) :
    Copy.writes gates (⟨rank, target⟩, offset) = 0 := by
  apply spreads.gate.outside_windows
  intro index inCount same inside
  obtain ⟨rfl, rfl⟩ := Destination.mk.inj same
  apply miss
  refine ⟨rfl, inCount, ?_⟩
  have bound : offset < 0 + share.half := inside.2
  omega

theorem Spreads.ups_miss (spreads : share.Spreads gate up down gates ups downs)
    (miss : ¬ (target = .w13 ∧ rank < share.ranks ∧ share.half ≤ offset ∧ offset < 2 * share.half)) :
    Copy.writes ups (⟨rank, target⟩, offset) = 0 := by
  apply spreads.up.outside_windows
  intro index inCount same inside
  obtain ⟨rfl, rfl⟩ := Destination.mk.inj same
  apply miss
  have above : share.half ≤ offset := inside.1
  have below : offset < share.half + share.half := inside.2
  exact ⟨rfl, inCount, above, by omega⟩

theorem Spreads.downs_miss (spreads : share.Spreads gate up down gates ups downs)
    (miss : ¬ (target = .w2 ∧ rank < share.ranks ∧ offset < share.downRows * share.rankWidth)) :
    Copy.writes downs (⟨rank, target⟩, offset) = 0 := by
  apply spreads.down.outside_windows
  intro row inRows index inCount same inside
  obtain ⟨rfl, rfl⟩ := Destination.mk.inj same
  apply miss
  have last : (row + 1) * share.rankWidth ≤ share.downRows * share.rankWidth := Nat.mul_le_mul_right _ inRows
  have below : offset < row * share.rankWidth + share.rankWidth := inside.2
  rw [Nat.add_mul, Nat.one_mul] at last
  exact ⟨rfl, inCount, by omega⟩

theorem Spreads.gate_delivers (spreads : share.Spreads gate up down gates ups downs) (inRanks : rank < share.ranks)
    (inside : offset < share.half) :
    Copy.Delivers (gates ++ ups ++ downs) (⟨rank, .w13⟩, offset) (gate (rank * share.half + offset)) := by
  have delivers := spreads.gate.window inRanks inside
  simp only [w13Line, Nat.zero_add] at delivers
  rw [List.append_assoc]
  apply delivers.append_left
  rw [Copy.writes_append, spreads.ups_miss, spreads.downs_miss]
  · intro hit
    exact Target.noConfusion hit.1
  · intro hit
    omega

theorem Spreads.up_delivers (spreads : share.Spreads gate up down gates ups downs) (inRanks : rank < share.ranks)
    (inside : offset < share.half) :
    Copy.Delivers (gates ++ ups ++ downs) (⟨rank, .w13⟩, share.half + offset) (up (rank * share.half + offset)) := by
  apply Copy.Delivers.append_left
  · apply (spreads.up.window inRanks inside).append_right
    apply spreads.gates_miss
    intro hit
    have inGate : share.half + offset < share.half := hit.2.2
    omega
  · apply spreads.downs_miss
    intro hit
    exact Target.noConfusion hit.1

theorem Spreads.down_delivers (spreads : share.Spreads gate up down gates ups downs) (inRanks : rank < share.ranks)
    (inRows : row < share.downRows) (inColumns : column < share.rankWidth) :
    Copy.Delivers (gates ++ ups ++ downs) (⟨rank, .w2⟩, row * share.rankWidth + column)
      (down row (rank * share.rankWidth + column)) := by
  apply Copy.Delivers.append_right
  · apply spreads.down.window inRows inRanks inColumns
    intro other inOther different window _ _ inside
    obtain ⟨above, below⟩ := inside
    simp only [w2Line] at above below
    apply different
    apply block_of_mem inColumns above
    rw [Nat.add_mul, Nat.one_mul]
    exact below
  · rw [Copy.writes_append, spreads.gates_miss, spreads.ups_miss]
    · intro hit
      exact Target.noConfusion hit.1
    · intro hit
      exact Target.noConfusion hit.1

/-- Every cell of the buffers of the ranks is written once, and nothing else is. -/
theorem Spreads.writes (spreads : share.Spreads gate up down gates ups downs) (rank : Nat) (target : Target)
    (offset : Nat) :
    Copy.writes (gates ++ ups ++ downs) (⟨rank, target⟩, offset) =
      if rank < share.ranks ∧ offset < share.cells target then 1 else 0 := by
  split
  · next inside =>
      obtain ⟨inRanks, inCells⟩ := inside
      cases target with
      | w13 =>
          by_cases inGate : offset < share.half
          · exact (spreads.gate_delivers inRanks inGate).once
          · obtain ⟨place, rfl⟩ := Nat.exists_eq_add_of_le (Nat.le_of_not_lt inGate)
            simp only [cells] at inCells
            exact (spreads.up_delivers inRanks (by omega)).once
      | w2 =>
          have inRows : offset / share.rankWidth < share.downRows := by
            apply Nat.div_lt_of_lt_mul
            rw [Nat.mul_comm]
            exact inCells
          have delivers := spreads.down_delivers inRanks inRows (Nat.mod_lt offset share.columnsPositive)
          rw [Nat.div_add_mod'] at delivers
          exact delivers.once
  · next outside =>
      rw [Copy.writes_append, Copy.writes_append, spreads.gates_miss, spreads.ups_miss, spreads.downs_miss]
      · intro hit
        obtain ⟨rfl, inRanks, inCells⟩ := hit
        exact outside ⟨inRanks, inCells⟩
      · intro hit
        obtain ⟨rfl, inRanks, -, inCells⟩ := hit
        exact outside ⟨inRanks, inCells⟩
      · intro hit
        obtain ⟨rfl, inRanks, inGate⟩ := hit
        apply outside
        refine ⟨inRanks, ?_⟩
        simp only [cells]
        omega

end Share

end KtKernel.Fp8
