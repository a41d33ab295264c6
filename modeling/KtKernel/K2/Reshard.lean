import KtKernel.K2.Export
import KtKernel.K2.Tables

namespace KtKernel.K2

open KtKernel.Data
open KtKernel.Amx.ExpertFiles (Mat)

/-! What a correct export leaves in the buffers of the ranks. -/

namespace Export

variable {α : Type} {call : Export}

/-- The cells of a rank's gate rows. -/
def half (call : Export) (unit : call.shape.Unit) : Nat :=
  call.gpuPart * (call.shape.hiddenSize / unit.size)

/-- The cells of a rank in a row of down. -/
def rankWidth (call : Export) (unit : call.shape.Unit) : Nat :=
  call.gpuPart / unit.size

/-- The cells of a buffer. -/
def cells (call : Export) (unit : call.shape.Unit) : Target → Nat
  | .w13 => 2 * call.half unit
  | .w2 => call.shape.hiddenSize * call.gpuPart / unit.size

/-- What belongs into a cell: the gate rows and then the up rows of the rank, or
its columns of the rows of down. -/
def expected (call : Export) (unit : call.shape.Unit) (original : Mat → Nat → α) (rank : Nat) (target : Target)
    (offset : Nat) : α :=
  match target with
  | .w13 =>
      if offset < call.half unit then original .gate (rank * call.half unit + offset)
      else original .up (rank * call.half unit + (offset - call.half unit))
  | .w2 =>
      original .down (offset / call.rankWidth unit * (call.shape.intermediateSize / unit.size) +
        rank * call.rankWidth unit + offset % call.rankWidth unit)

def owner (call : Export) (unit : call.shape.Unit) (rank : Nat) (target : Target) (offset : Nat) : Nat :=
  match target with
  | .w13 => (rank * call.half unit + offset % call.half unit) / call.shape.partCells unit
  | .w2 => (rank * call.rankWidth unit + offset % call.rankWidth unit) / (call.shape.partSize / unit.size)

structure PartExact (call : Export) (unit : call.shape.Unit) (original : Mat → Nat → α) (part : Nat)
    (copies : List (Copy Destination α)) : Prop where
  inside : ∀ rank target offset, rank < call.gpuTpCount → offset < call.cells unit target →
    call.owner unit rank target offset = part →
      Copy.Delivers copies (⟨rank, target⟩, offset) (call.expected unit original rank target offset)
  foreign : ∀ rank target offset, rank < call.gpuTpCount → offset < call.cells unit target →
    call.owner unit rank target offset ≠ part → Copy.writes copies (⟨rank, target⟩, offset) = 0
  outside : ∀ rank target offset, ¬ (rank < call.gpuTpCount ∧ offset < call.cells unit target) →
    Copy.writes copies (⟨rank, target⟩, offset) = 0

/-- Every cell of every rank is written once, with what belongs there, and no
other memory is written. -/
structure Exact (call : Export) (unit : call.shape.Unit) (original : Mat → Nat → α)
    (copies : List (Copy Destination α)) : Prop where
  inside : ∀ rank target offset, rank < call.gpuTpCount → offset < call.cells unit target →
    Copy.Delivers copies (⟨rank, target⟩, offset) (call.expected unit original rank target offset)
  outside : ∀ rank target offset, ¬ (rank < call.gpuTpCount ∧ offset < call.cells unit target) →
    Copy.writes copies (⟨rank, target⟩, offset) = 0

/-! ## Sizes -/

theorem gpu_dvd (call : Export) : call.gpuTpCount ∣ call.shape.intermediateSize :=
  Nat.dvd_trans (Nat.dvd_mul_right _ _) call.gpuGroups

theorem gpuPart_mul (call : Export) : call.gpuTpCount * call.gpuPart = call.shape.intermediateSize :=
  Nat.mul_div_cancel' call.gpu_dvd

theorem intermediate_positive (call : Export) : 0 < call.shape.intermediateSize :=
  Nat.mul_pos call.shape.tpPositive call.shape.partPositive

theorem gpuPart_positive (call : Export) : 0 < call.gpuPart :=
  Nat.div_pos (Nat.le_of_dvd call.intermediate_positive call.gpu_dvd) call.gpuPositive

theorem group_dvd_gpuPart (call : Export) : call.shape.groupSize ∣ call.gpuPart :=
  (Nat.dvd_div_iff_mul_dvd call.gpu_dvd).mpr call.gpuGroups

theorem hidden_width_positive (call : Export) (unit : call.shape.Unit) :
    0 < call.shape.hiddenSize / unit.size :=
  Nat.div_pos (Nat.le_of_dvd call.shape.hiddenPositive unit.hidden) unit.positive

theorem part_width_positive (call : Export) (unit : call.shape.Unit) : 0 < call.shape.partSize / unit.size :=
  Nat.div_pos (Nat.le_of_dvd call.shape.partPositive unit.part) unit.positive

theorem half_positive (call : Export) (unit : call.shape.Unit) : 0 < call.half unit :=
  Nat.mul_pos call.gpuPart_positive (call.hidden_width_positive unit)

theorem partCells_positive (call : Export) (unit : call.shape.Unit) : 0 < call.shape.partCells unit :=
  Nat.mul_pos call.shape.partPositive (call.hidden_width_positive unit)

theorem rankWidth_positive (call : Export) {unit : call.shape.Unit} (whole : unit.size ∣ call.gpuPart) :
    0 < call.rankWidth unit :=
  Nat.div_pos (Nat.le_of_dvd call.gpuPart_positive whole) unit.positive

theorem gpu_mul_half (call : Export) (unit : call.shape.Unit) :
    call.gpuTpCount * call.half unit = call.shape.tpCount * call.shape.partCells unit := by
  rw [half, ← Nat.mul_assoc, gpuPart_mul, Shape.partCells, ← Nat.mul_assoc]
  rfl

theorem gpu_mul_rankWidth (call : Export) {unit : call.shape.Unit} (whole : unit.size ∣ call.gpuPart) :
    call.gpuTpCount * call.rankWidth unit = call.shape.tpCount * (call.shape.partSize / unit.size) := by
  rw [rankWidth, ← Nat.mul_div_assoc _ whole, gpuPart_mul, ← Nat.mul_div_assoc _ unit.part]
  rfl

theorem cells_w2 (call : Export) {unit : call.shape.Unit} (whole : unit.size ∣ call.gpuPart) :
    call.cells unit .w2 = call.shape.hiddenSize * call.rankWidth unit :=
  Nat.mul_div_assoc _ whole

theorem owner_lt (call : Export) {unit : call.shape.Unit} (whole : unit.size ∣ call.gpuPart)
    (inRanks : rank < call.gpuTpCount) (target : Target) (offset : Nat) :
    call.owner unit rank target offset < call.shape.tpCount := by
  cases target with
  | w13 =>
      have bound := pairIndex_lt inRanks (Nat.mod_lt offset (call.half_positive unit))
      rw [Nat.mul_comm (call.half unit), gpu_mul_half, Nat.mul_comm call.shape.tpCount] at bound
      exact Nat.div_lt_of_lt_mul bound
  | w2 =>
      have bound := pairIndex_lt inRanks (Nat.mod_lt offset (call.rankWidth_positive whole))
      rw [Nat.mul_comm (call.rankWidth unit), call.gpu_mul_rankWidth whole, Nat.mul_comm call.shape.tpCount] at bound
      exact Nat.div_lt_of_lt_mul bound

theorem exact_of_parts {unit : call.shape.Unit} {original : Mat → Nat → α} {body : Nat → List (Copy Destination α)}
    (whole : unit.size ∣ call.gpuPart)
    (parts : ∀ part < call.shape.tpCount, call.PartExact unit original part (body part)) :
    call.Exact unit original ((List.range call.shape.tpCount).flatMap body) where
  inside := by
    intro rank target offset inRanks inCells
    have known := call.owner_lt whole inRanks target offset
    apply Copy.Delivers.range known
    · exact (parts _ known).inside rank target offset inRanks inCells rfl
    · intro other inParts different
      exact (parts other inParts).foreign rank target offset inRanks inCells (Ne.symm different)
  outside := by
    intro rank target offset out
    apply Copy.writes_flatMap_zero
    intro part member
    exact (parts part (List.mem_range.mp member)).outside rank target offset out

end Export

end KtKernel.K2
