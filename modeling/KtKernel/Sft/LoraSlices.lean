import Mathlib.Data.List.Range
import Mathlib.Algebra.BigOperators.Group.List.Basic
import Mathlib.Tactic.Ring
import Mathlib.Tactic.Linarith
import Mathlib.Data.Int.ModEq
import KtKernel.Data.Tiling

namespace KtKernel.Sft.LoraSlices

open KtKernel.Data

/-! The slices of the LoRA weights and of their gradients that a part of an SFT backend
works on, counted in elements of the tensors of all experts. -/

/-- A sum or product of `int`s, which wraps. -/
def int32 (value : Int) : Int :=
  value.bmod (2 ^ 32)

structure Config where
  expertNum : Nat
  tpCount : Nat
  loraRank : Nat
  intermediateSize : Nat
  somePart : 0 < tpCount
  intSize : intermediateSize < 2 ^ 31

/-- `intermediate_size` of each part, unless the constructor throws. -/
def tpIntermediateSizes (config : Config) : Option (List Nat) :=
  if config.intermediateSize % config.tpCount ≠ 0 then none
  else some (List.replicate config.tpCount (config.intermediateSize / config.tpCount))

section

variable (config : Config) (sizes : List Nat)

/-- `tp_offset` of a part. -/
def tpOffset (part : Nat) : Nat :=
  (sizes.take part).sum

def blockRows (block size : Nat) : List Nat :=
  (List.range ((size + block - 1) / block)).flatMap fun index =>
    List.range' (index * block) (min size (index * block + block) - index * block)

/-- No product of `update_lora_weights` leaves the range of `int`. -/
def Fits : Prop :=
  ∀ expert < config.expertNum, expert * config.loraRank * config.intermediateSize < 2 ^ 31 ∧
    ∀ rank < config.loraRank, rank * config.intermediateSize < 2 ^ 31

end

section

variable {config : Config} {sizes : List Nat}

end

/-- Three experts of rank 4, in two parts. -/
def smallConfig : Config :=
  { expertNum := 3
    tpCount := 2
    loraRank := 4
    intermediateSize := 16
    somePart := Nat.two_pos
    intSize := by decide }

end KtKernel.Sft.LoraSlices
