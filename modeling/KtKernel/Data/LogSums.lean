import Mathlib.Analysis.SpecialFunctions.Log.Basic

namespace KtKernel.Data

/-! Weighted averages that are kept with the logarithm of their weight. -/

variable {ι : Type}

structure LogSum (ι : Type) where
  lse : ℝ
  output : ι → ℝ

namespace LogSum

noncomputable def weight (part : LogSum ι) : ℝ :=
  Real.exp part.lse

/-- The weighted sum whose average the part keeps. -/
noncomputable def total (part : LogSum ι) (channel : ι) : ℝ :=
  part.output channel * Real.exp part.lse

noncomputable def merge (acc part : LogSum ι) : LogSum ι :=
  let lse := acc.lse + Real.log (1 + Real.exp (part.lse - acc.lse))
  { lse := lse
    output := fun channel => acc.output channel * Real.exp (acc.lse - lse) + part.output channel * Real.exp (part.lse - lse) }

theorem weight_pos (part : LogSum ι) : 0 < part.weight :=
  Real.exp_pos _

theorem lse_eq (part : LogSum ι) : part.lse = Real.log part.weight :=
  (Real.log_exp _).symm

theorem output_eq (part : LogSum ι) (channel : ι) : part.output channel = part.total channel / part.weight :=
  (mul_div_cancel_right₀ _ (Real.exp_ne_zero _)).symm

theorem weight_merge (acc part : LogSum ι) : (merge acc part).weight = acc.weight + part.weight := by
  have positive : 0 < 1 + Real.exp (part.lse - acc.lse) := add_pos one_pos (Real.exp_pos _)
  rw [merge, weight, weight, weight, Real.exp_add, Real.exp_log positive, mul_add, mul_one, ← Real.exp_add, add_sub_cancel]

/-- Merging adds the weighted sums. -/
theorem total_merge (acc part : LogSum ι) (channel : ι) : (merge acc part).total channel = acc.total channel + part.total channel := by
  rw [merge, total, total, total, add_mul, mul_assoc, mul_assoc, ← Real.exp_add, ← Real.exp_add, sub_add_cancel, sub_add_cancel]

/-! ## Accumulators

An accumulator whose logarithm is near zero is taken for an empty one. -/

noncomputable def accumulate (limit : ℝ) (acc part : LogSum ι) : LogSum ι :=
  if |acc.lse| < limit then part else merge acc part

noncomputable def accumulateAll (limit : ℝ) (acc : LogSum ι) (parts : List (LogSum ι)) : LogSum ι :=
  parts.foldl (accumulate limit) acc

def empty : LogSum ι :=
  ⟨0, fun _ => 0⟩

variable {limit : ℝ} {acc : LogSum ι} {parts : List (LogSum ι)}

theorem accumulateAll_cons (limit : ℝ) (acc part : LogSum ι) (rest : List (LogSum ι)) :
    accumulateAll limit acc (part :: rest) = accumulateAll limit (accumulate limit acc part) rest := rfl

theorem accumulateAll_empty (positive : 0 < limit) (part : LogSum ι) (rest : List (LogSum ι)) :
    accumulateAll limit empty (part :: rest) = accumulateAll limit part rest := by
  have near : |(empty : LogSum ι).lse| < limit := by
    rw [empty, abs_zero]
    exact positive
  rw [accumulateAll_cons, accumulate, if_pos near]

theorem accumulate_weight_le (limit : ℝ) (acc part : LogSum ι) : (accumulate limit acc part).weight ≤ acc.weight + part.weight := by
  rw [accumulate]
  by_cases near : |acc.lse| < limit
  · rw [if_pos near]
    exact le_add_of_nonneg_left acc.weight_pos.le
  · rw [if_neg near, weight_merge]

/-- Nothing is counted twice. -/
theorem accumulateAll_weight_le (limit : ℝ) (acc : LogSum ι) (parts : List (LogSum ι)) :
    (accumulateAll limit acc parts).weight ≤ acc.weight + (parts.map weight).sum := by
  induction parts generalizing acc with
  | nil =>
      rw [List.map_nil, List.sum_nil, add_zero]
      exact le_refl _
  | cons part rest induction =>
      rw [accumulateAll_cons, List.map_cons, List.sum_cons, ← add_assoc]
      exact (induction _).trans (add_le_add_left (accumulate_weight_le limit acc part) _)

/-- No sum of some first weights, taken on before the last, has a logarithm near zero. -/
def Apart (limit : ℝ) (start : ℝ) (weights : List ℝ) : Prop :=
  ∀ count < weights.length, limit ≤ |Real.log (start + (weights.take count).sum)|

theorem apart_cons {start first : ℝ} {rest : List ℝ} :
    Apart limit start (first :: rest) ↔ limit ≤ |Real.log start| ∧ Apart limit (start + first) rest := by
  constructor
  · intro apart
    constructor
    · have here := apart 0 (Nat.zero_lt_succ _)
      rwa [List.take_zero, List.sum_nil, add_zero] at here
    · intro count inside
      have later := apart (count + 1) (Nat.succ_lt_succ inside)
      rwa [List.take_succ_cons, List.sum_cons, ← add_assoc] at later
  · rintro ⟨here, later⟩ count inside
    cases count with
    | zero => rwa [List.take_zero, List.sum_nil, add_zero]
    | succ count =>
        rw [List.take_succ_cons, List.sum_cons, ← add_assoc]
        exact later count (Nat.lt_of_succ_lt_succ inside)

theorem accumulateAll_kept (apart : Apart limit acc.weight (parts.map weight)) :
    (accumulateAll limit acc parts).weight = acc.weight + (parts.map weight).sum ∧
      ∀ channel, (accumulateAll limit acc parts).total channel = acc.total channel + (parts.map fun part => part.total channel).sum := by
  induction parts generalizing acc with
  | nil =>
      simp only [List.map_nil, List.sum_nil, add_zero]
      exact ⟨rfl, fun _ => rfl⟩
  | cons part rest induction =>
      rw [List.map_cons, apart_cons, ← lse_eq] at apart
      have merged : accumulate limit acc part = merge acc part := by rw [accumulate, if_neg (not_lt.mpr apart.1)]
      have later := apart.2
      rw [← weight_merge] at later
      obtain ⟨weights, totals⟩ := induction later
      rw [accumulateAll_cons, merged, weights, weight_merge, List.map_cons, List.sum_cons, add_assoc]
      refine ⟨rfl, ?_⟩
      intro channel
      rw [totals, total_merge, List.map_cons, List.sum_cons, add_assoc]

/-- What was taken for empty is missing from the weight. -/
theorem accumulateAll_lost (near : ¬ Apart limit acc.weight (parts.map weight)) :
    (accumulateAll limit acc parts).weight < acc.weight + (parts.map weight).sum := by
  induction parts generalizing acc with
  | nil => exact absurd (fun count impossible => absurd impossible (Nat.not_lt_zero count)) near
  | cons part rest induction =>
      rw [List.map_cons, apart_cons, ← lse_eq, not_and_or, not_le] at near
      rw [accumulateAll_cons, List.map_cons, List.sum_cons, ← add_assoc]
      by_cases here : |acc.lse| < limit
      · have replaced : accumulate limit acc part = part := by rw [accumulate, if_pos here]
        rw [replaced]
        calc (accumulateAll limit part rest).weight ≤ part.weight + (rest.map weight).sum := accumulateAll_weight_le limit part rest
          _ < acc.weight + part.weight + (rest.map weight).sum := by
            rw [add_assoc]
            exact lt_add_of_pos_left _ acc.weight_pos
      · have merged : accumulate limit acc part = merge acc part := by rw [accumulate, if_neg here]
        have later := near.resolve_left here
        rw [← weight_merge] at later
        rw [merged, ← weight_merge]
        exact induction later

/-- From an empty accumulator, the result is the average over all parts exactly when no sum of some
first weights is taken for an empty accumulator. -/
theorem accumulateAll_iff (positive : 0 < limit) : ((accumulateAll limit empty parts).lse = Real.log (parts.map weight).sum ∧
      ∀ channel, (accumulateAll limit empty parts).output channel = (parts.map fun part => part.total channel).sum / (parts.map weight).sum) ↔
    ∀ count, 0 < count → count < parts.length → limit ≤ |Real.log ((parts.map weight).take count).sum| := by
  cases parts with
  | nil =>
      refine ⟨fun _ count _ impossible => absurd impossible (Nat.not_lt_zero count), fun _ => ⟨?_, ?_⟩⟩
      · exact Real.log_zero.symm
      · intro channel
        exact (div_zero _).symm
  | cons part rest =>
      have sums : (∀ count, 0 < count → count < (part :: rest).length → limit ≤ |Real.log (((part :: rest).map weight).take count).sum|) ↔
          Apart limit part.weight (rest.map weight) := by
        constructor
        · intro apart count inside
          rw [List.length_map] at inside
          have here := apart (count + 1) (Nat.zero_lt_succ _) (Nat.succ_lt_succ inside)
          rwa [List.map_cons, List.take_succ_cons, List.sum_cons] at here
        · intro apart count some_ inside
          obtain ⟨count, rfl⟩ := Nat.exists_eq_succ_of_ne_zero some_.ne'
          rw [List.map_cons, List.take_succ_cons, List.sum_cons]
          apply apart count
          rw [List.length_map]
          exact Nat.lt_of_succ_lt_succ inside
      rw [sums, accumulateAll_empty positive]
      constructor
      · rintro ⟨lse, -⟩
        by_contra near
        have less := accumulateAll_lost near
        rw [List.map_cons, List.sum_cons] at lse
        have same : (accumulateAll limit part rest).weight = part.weight + (rest.map weight).sum := by
          rw [weight, lse, Real.exp_log ((weight_pos _).trans less)]
        exact less.ne same
      · intro apart
        obtain ⟨weights, totals⟩ := accumulateAll_kept apart
        rw [lse_eq, weights, List.map_cons, List.sum_cons]
        refine ⟨rfl, ?_⟩
        intro channel
        rw [output_eq, totals, weights, List.map_cons, List.sum_cons]

end LogSum

end KtKernel.Data
