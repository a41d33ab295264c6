import KtKernel.Amx.Routing

namespace KtKernel.Sft

open KtKernel.Amx

/-! The (token, slot) pairs that the passes of a training kernel take.

The training passes compare an id with the number of experts on the GPU; the
serving passes and the K2 kernel look the id up in the mask of those experts.
-/

/-- The test of the training passes. -/
def trainingSkips (expertNum numGpuExperts : Nat) (expertId : Int) : Bool :=
  decide (expertId < numGpuExperts) || decide ((expertNum : Int) ≤ expertId)

/-- The id as the backward keeps it in an `int`. -/
def narrow (expertId : Int) : Int :=
  (expertId + 2 ^ 31) % 2 ^ 32 - 2 ^ 31

theorem narrow_eq (above : -2 ^ 31 ≤ expertId) (below : expertId < 2 ^ 31) : narrow expertId = expertId := by
  have small : (expertId + 2 ^ 31) % 2 ^ 32 = expertId + 2 ^ 31 :=
    Int.emod_eq_of_lt (by omega) (by omega)
  rw [narrow, small]
  omega

theorem shouldSkipExpert_iff (config : Instance) (expertId : Int) :
    config.shouldSkipExpert expertId = true ↔
      expertId < 0 ∨ (config.expertNum : Int) ≤ expertId ∨ config.gpuExpertsMask expertId.toNat = true := by
  simp only [Instance.shouldSkipExpert, Bool.or_eq_true, decide_eq_true_eq, or_assoc]

/-- The configuration whose mask is a prefix: there the two tests are one. -/
def prefixMask (config : Instance) (numGpuExperts : Nat) : Instance :=
  { config with gpuExpertsMask := fun expert => decide (expert < numGpuExperts) }

theorem trainingSkips_eq (config : Instance) (numGpuExperts : Nat) (expertId : Int) :
    trainingSkips config.expertNum numGpuExperts expertId =
      (prefixMask config numGpuExperts).shouldSkipExpert expertId := by
  rw [Bool.eq_iff_iff, shouldSkipExpert_iff]
  simp only [trainingSkips, prefixMask, Bool.or_eq_true, decide_eq_true_eq]
  omega

end KtKernel.Sft
