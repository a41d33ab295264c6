import KtKernel.Fp8.Spread

namespace KtKernel.Fp8

open KtKernel.Data
open KtKernel.Amx.ExpertFiles (Mat)
open KtKernel.K2 (Slot Target Destination)

/-! When the export is a correct re-sharding. -/

namespace Export

section

variable {F : Type} {call : Export F} {part : Nat}

/-- The numbers of parts and ranks divide each other. -/
def LinesUp (call : Export F) : Prop :=
  call.gpuTpCount ∣ call.tpCount ∨ call.tpCount ∣ call.gpuTpCount

/-- A slice of a part lies in one rank. -/
def SlicesFit (call : Export F) (part : Nat) : Prop :=
  ∀ slice, slice * call.gpuPart < call.partSize →
    (part * call.partSize + slice * call.gpuPart) % call.gpuPart +
      (min (slice * call.gpuPart + call.gpuPart) call.partSize - slice * call.gpuPart) ≤ call.gpuPart

theorem gpuPart_of_parts {ratio : Nat} (divides : call.tpCount = call.gpuTpCount * ratio) :
    call.gpuPart = ratio * call.partSize := by
  have both := call.part_mul.trans call.gpuPart_mul.symm
  have some_ := call.intermediate_positive
  rw [← call.gpuPart_mul] at some_
  rw [divides, Nat.mul_assoc] at both
  exact (Nat.eq_of_mul_eq_mul_left (Nat.pos_of_mul_pos_right some_) both).symm

theorem partSize_of_ranks {ratio : Nat} (divides : call.gpuTpCount = call.tpCount * ratio) :
    call.partSize = ratio * call.gpuPart := by
  have both := call.part_mul.trans call.gpuPart_mul.symm
  have some_ := call.intermediate_positive
  rw [← call.part_mul] at some_
  rw [divides, Nat.mul_assoc] at both
  exact Nat.eq_of_mul_eq_mul_left (Nat.pos_of_mul_pos_right some_) both

theorem slicesFit_of_linesUp (linesUp : call.LinesUp) (part : Nat) : call.SlicesFit part := by
  intro slice inPart
  have positive := call.part_positive
  rcases linesUp with ⟨ratio, divides⟩ | ⟨ratio, divides⟩
  · have width := gpuPart_of_parts divides
    have some_ : 0 < ratio := by
      apply Nat.pos_of_ne_zero
      intro none
      have rankPositive := call.gpuPart_positive
      rw [width, none, Nat.zero_mul] at rankPositive
      contradiction
    have least : call.partSize ≤ call.gpuPart := by
      rw [width]
      exact Nat.le_mul_of_pos_left _ some_
    have first : slice = 0 := by
      by_contra more
      have big : 1 * call.gpuPart ≤ slice * call.gpuPart := Nat.mul_le_mul_right _ (by omega)
      omega
    subst first
    have last : (part % ratio + 1) * call.partSize ≤ ratio * call.partSize :=
      Nat.mul_le_mul_right _ (Nat.mod_lt _ some_)
    have place : part * call.partSize % call.gpuPart = part % ratio * call.partSize := by
      rw [width, Nat.mul_mod_mul_right]
    rw [Nat.add_mul, Nat.one_mul, ← width] at last
    simp only [Nat.zero_mul, Nat.add_zero, Nat.zero_add, Nat.sub_zero, place]
    omega
  · have width := partSize_of_ranks divides
    have whole : (part * call.partSize + slice * call.gpuPart) % call.gpuPart = 0 := by
      rw [width, ← Nat.mul_assoc, ← Nat.add_mul]
      exact Nat.mul_mod_left _ _
    omega

theorem slices_cover (call : Export F) : call.partSize ≤ divUp call.partSize call.gpuPart * call.gpuPart := by
  have positive := call.gpuPart_positive
  have split := Nat.div_add_mod' (call.partSize + call.gpuPart - 1) call.gpuPart
  have small := Nat.mod_lt (call.partSize + call.gpuPart - 1) positive
  simp only [divUp]
  omega

theorem slice_inPart (call : Export F) {slice : Nat} (inSlices : slice < divUp call.partSize call.gpuPart) :
    slice * call.gpuPart < call.partSize := by
  have positive := call.gpuPart_positive
  have more : (slice + 1) * call.gpuPart ≤ divUp call.partSize call.gpuPart * call.gpuPart :=
    Nat.mul_le_mul_right _ inSlices
  have split := Nat.div_add_mod' (call.partSize + call.gpuPart - 1) call.gpuPart
  rw [Nat.add_mul, Nat.one_mul] at more
  simp only [divUp] at more
  omega

/-! ## The weights -/

variable {weights : Slot × Nat → UInt8} {original : Mat → Nat → UInt8} {localN : Nat}

theorem w2Step_strips (table : call.Table original part weights) (fits : call.SlicesFit part)
    (rowSteps : nStep ∣ localN) (inRows : localN + 32 ≤ call.config.hiddenSize) :
    Strips (call.w2Step weights part localN) 32 (fun row => call.downLine (localN + row))
      (fun _ => part * call.partSize) (fun _ => part * call.partSize + call.partSize)
      fun row index => original .down ((localN + row) * call.config.intermediateSize + index) := by
  have partBlocks := call.block_dvd_part
  have rankBlocks := call.block_dvd_gpuPart
  have slices : Strips (call.w2Step weights part localN) 32 (fun row => call.downLine (localN + row))
      (fun _ => part * call.partSize + min (0 * call.gpuPart) call.partSize)
      (fun _ => part * call.partSize + min (divUp call.partSize call.gpuPart * call.gpuPart) call.partSize)
      fun row index => original .down ((localN + row) * call.config.intermediateSize + index) := by
    apply Strips.bounds fun slice => min (slice * call.gpuPart) call.partSize
    · intro slice _
      rw [Nat.add_mul, Nat.one_mul]
      omega
    · intro slice inSlices
      have inPart := call.slice_inPart inSlices
      have window := fits slice inPart
      have startBlocks : nBlock ∣ slice * call.gpuPart := Nat.dvd_trans rankBlocks (Nat.dvd_mul_left _ _)
      have endBlocks : nBlock ∣ min (slice * call.gpuPart + call.gpuPart) call.partSize := by
        rcases Nat.le_total (slice * call.gpuPart + call.gpuPart) call.partSize with less | more
        · rw [min_eq_left less]
          exact Nat.dvd_add startBlocks rankBlocks
        · rw [min_eq_right more]
          exact partBlocks
      have first : min (slice * call.gpuPart) call.partSize = slice * call.gpuPart := by omega
      have next : (slice + 1) * call.gpuPart = slice * call.gpuPart + call.gpuPart := by
        rw [Nat.add_mul, Nat.one_mul]
      rw [first, next]
      exact w2Tiles_strips table rowSteps inRows endBlocks (min_le_right _ _) window call.partSize
        (slice * call.gpuPart) startBlocks (Nat.le_refl _) (by omega) (by omega)
  have start : min (0 * call.gpuPart) call.partSize = 0 := by omega
  rw [start, min_eq_right call.slices_cover] at slices
  exact slices

/-- A part writes its columns of down. -/
theorem w2Weights_strips (table : call.Table original part weights) (fits : call.SlicesFit part) :
    Strips (taskSteps call.config.hiddenSize (call.w2Step weights part)) call.config.hiddenSize call.downLine
      (fun _ => part * call.partSize) (fun _ => part * call.partSize + call.partSize)
      fun row index => original .down (row * call.config.intermediateSize + index) := by
  have hiddenBlocks := call.hiddenBlocks
  have count : divUp call.config.hiddenSize nStep * 32 = call.config.hiddenSize := by
    simp only [divUp, nStep, nBlock] at *
    omega
  have stacked : Strips (taskSteps call.config.hiddenSize (call.w2Step weights part))
      (divUp call.config.hiddenSize nStep * 32) call.downLine
      (fun _ => part * call.partSize) (fun _ => part * call.partSize + call.partSize)
      fun row index => original .down (row * call.config.intermediateSize + index) := by
    rw [taskSteps_eq]
    apply Strips.stack
    intro step inSteps
    have more : (step + 1) * 32 ≤ divUp call.config.hiddenSize nStep * 32 := Nat.mul_le_mul_right _ inSteps
    rw [count, Nat.add_mul, Nat.one_mul] at more
    exact w2Step_strips table fits (Nat.dvd_mul_left nStep step) more
  rwa [count] at stacked

def weightShare (call : Export F) : Share :=
  ⟨call.gpuTpCount, call.gpuPart, call.config.hiddenSize, call.config.hiddenSize, call.gpuPart,
    call.gpuPart_positive, call.hidden_positive, call.gpuPart_positive⟩

end

/-- The copies of three matrices, part by part. -/
theorem parts_perm {α : Type} (count : Nat) (gate up down : Nat → List α) :
    ((List.range count).flatMap fun part => gate part ++ up part ++ down part).Perm
      ((List.range count).flatMap gate ++ (List.range count).flatMap up ++ (List.range count).flatMap down) := by
  have first := List.flatMap_append_perm (List.range count) gate up
  have second := List.flatMap_append_perm (List.range count) (fun part => gate part ++ up part) down
  exact second.symm.trans (List.Perm.append_right _ first.symm)

section

variable {F : Type} {call : Export F} {weights : Nat → Slot × Nat → UInt8} {original : Mat → Nat → UInt8}

theorem weights_spread (tables : ∀ part < call.tpCount, call.Table original part (weights part))
    (linesUp : call.LinesUp) :
    ∃ gates ups downs, (call.weightCopies weights).Perm (gates ++ ups ++ downs) ∧
      call.weightShare.Spreads (original .gate) (original .up)
        (fun row index => original .down (row * call.config.intermediateSize + index)) gates ups downs := by
  have total : call.gpuTpCount * (call.gpuPart * call.config.hiddenSize) =
      0 + call.tpCount * (call.partSize * call.config.hiddenSize) := by
    rw [← Nat.mul_assoc, call.gpuPart_mul, ← call.part_mul, Nat.mul_assoc, Nat.zero_add]
  refine ⟨_, _, _, parts_perm call.tpCount _ _ _, ?_, ?_, ?_⟩
  · change Lays _ (w13Line 0 (call.gpuPart * call.config.hiddenSize) call.half_positive) 0
      (call.gpuTpCount * (call.gpuPart * call.config.hiddenSize)) (original .gate)
    rw [total]
    apply Lays.range
    intro part inParts
    rw [Nat.zero_add, Nat.zero_add]
    exact w13Weights_lays (tables part inParts) (by decide) 0
  · change Lays _ (w13Line (call.gpuPart * call.config.hiddenSize) (call.gpuPart * call.config.hiddenSize)
      call.half_positive) 0 (call.gpuTpCount * (call.gpuPart * call.config.hiddenSize)) (original .up)
    rw [total]
    apply Lays.range
    intro part inParts
    rw [Nat.zero_add, Nat.zero_add]
    exact w13Weights_lays (tables part inParts) (by decide) _
  · change Strips _ call.config.hiddenSize call.downLine (fun _ => 0) (fun _ => call.gpuTpCount * call.gpuPart) _
    have columns : call.gpuTpCount * call.gpuPart = call.tpCount * call.partSize :=
      call.gpuPart_mul.trans call.part_mul.symm
    rw [columns]
    have rounds : ∀ part < call.tpCount,
        Strips (taskSteps call.config.hiddenSize (call.w2Step (weights part) part)) call.config.hiddenSize call.downLine
          (fun _ => 0 + part * call.partSize) (fun _ => 0 + (part + 1) * call.partSize)
          fun row index => original .down (row * call.config.intermediateSize + index) := by
      intro part inParts
      have strips := w2Weights_strips (tables part inParts) (slicesFit_of_linesUp linesUp part)
      simp only [Nat.zero_add, Nat.add_mul, Nat.one_mul]
      exact strips
    have all := Strips.bounds (fun part => part * call.partSize)
      (fun part _ => Nat.mul_le_mul_right _ (Nat.le_succ part)) rounds
    simp only [Nat.zero_mul, Nat.zero_add] at all
    exact all

end

end Export

end KtKernel.Fp8
