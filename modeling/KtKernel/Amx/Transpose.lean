import Mathlib.Algebra.Group.Nat.Defs
import Mathlib.Tactic.DeriveFintype

namespace KtKernel.Amx.Transpose

/-! The transpose of 16 by 16 dwords in vector registers. -/

/-- A vector register of 16 dwords. -/
abbrev Vector (α : Type) := Nat → α

variable {α β : Type}

/-- `_mm512_unpacklo_epi32` -/
def unpackloEpi32 (a b : Vector α) : Vector α :=
  fun lane => if lane % 2 = 0 then a (lane / 4 * 4 + lane % 4 / 2) else b (lane / 4 * 4 + lane % 4 / 2)

/-- `_mm512_unpackhi_epi32` -/
def unpackhiEpi32 (a b : Vector α) : Vector α :=
  fun lane => if lane % 2 = 0 then a (lane / 4 * 4 + 2 + lane % 4 / 2) else b (lane / 4 * 4 + 2 + lane % 4 / 2)

/-- `_mm512_unpacklo_epi64` -/
def unpackloEpi64 (a b : Vector α) : Vector α :=
  fun lane => if lane % 4 < 2 then a (lane / 4 * 4 + lane % 2) else b (lane / 4 * 4 + lane % 2)

/-- `_mm512_unpackhi_epi64` -/
def unpackhiEpi64 (a b : Vector α) : Vector α :=
  fun lane => if lane % 4 < 2 then a (lane / 4 * 4 + 2 + lane % 2) else b (lane / 4 * 4 + 2 + lane % 2)

/-- `_mm512_shuffle_i32x4`: two quarters of each operand, chosen by two bits each. -/
def shuffleI32x4 (a b : Vector α) (choice : Nat) : Vector α :=
  fun lane =>
    let quarter := choice / 4 ^ (lane / 4) % 4
    if lane / 4 < 2 then a (quarter * 4 + lane % 4) else b (quarter * 4 + lane % 4)

/-- `transpose_16x16_32bit`, on the registers by number. -/
def transpose16x16 (v : Nat → Vector α) : Nat → Vector α :=
  let pairs : Nat → Vector α := fun index =>
    if index % 2 = 0 then unpackloEpi32 (v (index / 2 * 2)) (v (index / 2 * 2 + 1))
    else unpackhiEpi32 (v (index / 2 * 2)) (v (index / 2 * 2 + 1))
  let quads : Nat → Vector α := fun index =>
    let first := index / 4 * 4 + index % 4 / 2
    if index % 2 = 0 then unpackloEpi64 (pairs first) (pairs (first + 2))
    else unpackhiEpi64 (pairs first) (pairs (first + 2))
  let halves : Nat → Vector α := fun index =>
    let first := index / 8 * 8 + index % 4
    shuffleI32x4 (quads first) (quads (first + 4)) (if index % 8 < 4 then 0x88 else 0xdd)
  fun index =>
    let first := index % 8
    shuffleI32x4 (halves first) (halves (first + 8)) (if index < 8 then 0x88 else 0xdd)

/-! ## The transpose moves dwords

The shuffles do not look at the dwords, so the network is known from one run on the
places themselves. -/

variable (f : α → β) (a b : Vector α)

theorem unpackloEpi32_map : unpackloEpi32 (f ∘ a) (f ∘ b) = f ∘ unpackloEpi32 a b := by
  funext lane
  simp only [unpackloEpi32, Function.comp_apply, apply_ite f]

theorem unpackhiEpi32_map : unpackhiEpi32 (f ∘ a) (f ∘ b) = f ∘ unpackhiEpi32 a b := by
  funext lane
  simp only [unpackhiEpi32, Function.comp_apply, apply_ite f]

theorem unpackloEpi64_map : unpackloEpi64 (f ∘ a) (f ∘ b) = f ∘ unpackloEpi64 a b := by
  funext lane
  simp only [unpackloEpi64, Function.comp_apply, apply_ite f]

theorem unpackhiEpi64_map : unpackhiEpi64 (f ∘ a) (f ∘ b) = f ∘ unpackhiEpi64 a b := by
  funext lane
  simp only [unpackhiEpi64, Function.comp_apply, apply_ite f]

theorem shuffleI32x4_map (choice : Nat) : shuffleI32x4 (f ∘ a) (f ∘ b) choice = f ∘ shuffleI32x4 a b choice := by
  funext lane
  simp only [shuffleI32x4, Function.comp_apply, apply_ite f]

theorem transpose16x16_map (v : Nat → Vector α) :
    transpose16x16 (fun row => f ∘ v row) = fun row => f ∘ transpose16x16 v row := by
  simp only [transpose16x16, unpackloEpi32_map, unpackhiEpi32_map, unpackloEpi64_map, unpackhiEpi64_map,
    shuffleI32x4_map, ← apply_ite (f ∘ ·)]

theorem transpose16x16_places : ∀ row < 16, ∀ lane < 16,
    transpose16x16 (fun row lane => (row, lane)) row lane = (lane, row) := by
  decide +kernel

theorem transpose16x16_apply {row lane : Nat} (v : Nat → Vector α) (inRows : row < 16) (inLanes : lane < 16) :
    transpose16x16 v row lane = v lane row := by
  have places := congrFun (congrFun (transpose16x16_map (fun place : Nat × Nat => v place.1 place.2)
    fun row lane => (row, lane)) row) lane
  rw [Function.comp_apply, transpose16x16_places row inRows lane inLanes] at places
  exact places

end KtKernel.Amx.Transpose
