import KtKernel.Fp8.Export
import KtKernel.Fp8.Tables

namespace KtKernel.Fp8

open KtKernel.Data
open KtKernel.Amx.ExpertFiles (Mat)
open KtKernel.K2 (Slot Target Destination)

/-! The unpacked tiles, row by row. -/

section

variable {ρ α : Type} {rank : ρ} {start stride : Nat}

/-- The rows of a tile in the order in which they are unpacked. -/
def unpackedRows : List Nat :=
  (List.range 8).flatMap fun packed => (List.range 4).flatMap fun row => [rowMap packed + row]

theorem unpackedRows_perm : unpackedRows.Perm (List.range 32) := by decide

theorem rowMap_place : ∀ packed < 8, ∀ row < 4,
    matOffset ((rowMap packed + row) / 4) = packed ∧ (rowMap packed + row) % 4 = row := by decide

theorem flatMap_unpackedRows {β : Type} {body : Nat → Nat → List β} {rows : Nat → List β}
    (same : ∀ packed < 8, ∀ row < 4, body packed row = rows (rowMap packed + row)) :
    ((List.range 8).flatMap fun packed => (List.range 4).flatMap fun row => body packed row).Perm
      ((List.range 32).flatMap rows) := by
  have joined : ((List.range 8).flatMap fun packed => (List.range 4).flatMap fun row => body packed row) =
      unpackedRows.flatMap rows := by
    rw [unpackedRows, List.flatMap_assoc]
    apply flatMap_congr_range
    intro packed inPacked
    rw [List.flatMap_assoc]
    apply flatMap_congr_range
    intro row inRows
    rw [List.flatMap_singleton]
    exact same packed inPacked row inRows
  rw [joined]
  exact unpackedRows_perm.flatMap_right rows

def tileRow (source : Nat → α) (rank : ρ) (start row : Nat) : List (Copy ρ α) :=
  [⟨rank, start, 32, fun column => source (packedPlace row column)⟩]

theorem unpack4nkBlocks_perm (sources : Nat → Nat → α) (rank : ρ) (start stride : Nat) :
    (unpack4nkBlocks sources rank start stride).Perm ((List.range 32).flatMap fun row =>
      (List.range 4).flatMap fun block => tileRow (sources block) rank (start + row * stride + 32 * block) row) := by
  apply flatMap_unpackedRows
  intro packed inPacked row inRows
  obtain ⟨offset, place⟩ := rowMap_place packed inPacked row inRows
  simp only [tileRow, packedPlace, offset, place]

variable [DecidableEq ρ] {line : Nat → Line ρ} {first : Nat → Nat} {value : Nat → Nat → α}

theorem tileRow_lays {source : Nat → α} {row first : Nat} {line : Line ρ} {value : Nat → α}
    (place : (rank, start) = line.cell first) (fits : first % line.width + 32 ≤ line.width)
    (values : ∀ column < 32, source (packedPlace row column) = value (first + column)) :
    Lays (tileRow source rank start row) line first (first + 32) value :=
  Lays.single place fits rfl values

theorem unpack4nkBlocks_strips {sources : Nat → Nat → α}
    (place : ∀ row < 32, (rank, start + row * stride) = (line row).cell (first row))
    (fits : ∀ row < 32, first row % (line row).width + 128 ≤ (line row).width)
    (values : ∀ row < 32, ∀ tile < 4, ∀ column < 32,
      sources tile (packedPlace row column) = value row (first row + tile * 32 + column)) :
    Strips (unpack4nkBlocks sources rank start stride) 32 line first (fun row => first row + 128) value := by
  refine ⟨_, unpack4nkBlocks_perm sources rank start stride, ?_⟩
  intro row inRows
  have room := fits row inRows
  change Lays _ (line row) (first row) (first row + 4 * 32) (value row)
  apply Lays.range
  intro tile inTiles
  have inWindow : first row % (line row).width + 32 * tile < (line row).width := by omega
  have cell := (line row).cell_add inWindow
  rw [← place row inRows, Nat.mul_comm 32 tile] at cell
  have offset : (first row + tile * 32) % (line row).width = first row % (line row).width + tile * 32 := by
    rw [Nat.add_mod, Nat.mod_eq_of_lt (show tile * 32 < (line row).width by omega), Nat.mod_eq_of_lt (by omega)]
  rw [Nat.add_mul, Nat.one_mul, ← Nat.add_assoc]
  apply tileRow_lays
  · rw [cell, Nat.mul_comm 32 tile]
  · rw [offset]
    omega
  · exact values row inRows tile inTiles

end

end KtKernel.Fp8
