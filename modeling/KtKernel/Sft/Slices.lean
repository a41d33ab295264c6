import Mathlib.Algebra.BigOperators.Group.Finset.Basic
import Mathlib.Algebra.BigOperators.Ring.List
import Mathlib.Data.List.GetD
import KtKernel.Sft.Backward

namespace KtKernel.Sft.Window

open KtKernel.Data

def ClearSeg.Covers (seg : ClearSeg) (cell : Cell) : Prop :=
  cell.pointer = seg.pointer ∧ seg.offset ≤ cell.position ∧ cell.position < seg.offset + seg.length

theorem clear_zero [Zero R] {segs : List ClearSeg} {memory : Cell → R}
    (covered : ∃ seg ∈ segs, ClearSeg.Covers seg cell) :
    Store.runAll (segs.map ClearSeg.memset) memory cell = 0 := by
  apply Store.runAll_agreed
  · intro store member
    obtain ⟨seg, -, rfl⟩ := List.mem_map.mp member
    by_cases covers : seg.Covers cell
    · exact .inr fun old => if_pos covers
    · exact .inl fun old => if_neg covers
  · obtain ⟨seg, member, covers⟩ := covered
    exact ⟨_, List.mem_map_of_mem member, fun old => if_pos covers⟩

theorem clear_kept [Zero R] {segs : List ClearSeg} {memory : Cell → R}
    (uncovered : ¬ ∃ seg ∈ segs, ClearSeg.Covers seg cell) :
    Store.runAll (segs.map ClearSeg.memset) memory cell = memory cell := by
  apply Store.runAll_skipped
  intro store member old
  obtain ⟨seg, inSegs, rfl⟩ := List.mem_map.mp member
  exact if_neg fun covers => uncovered ⟨seg, inSegs, covers⟩

/-- The chunks cover the range and nothing else. -/
theorem appendClearSegments_covers :
    (∃ seg ∈ appendClearSegments pointer offset elements, seg.Covers cell) ↔
      pointer = some cell.pointer ∧ offset ≤ cell.position ∧ cell.position < offset + elements := by
  cases pointer with
  | none => simp [appendClearSegments]
  | some pointer =>
      have chunked : 0 < chunkElements := by decide
      simp only [appendClearSegments, List.mem_map, List.mem_range, ClearSeg.Covers, Option.some.injEq]
      constructor
      · intro covered
        obtain ⟨seg, ⟨chunk, inside, rfl⟩, same, lower, upper⟩ := covered
        dsimp only at lower upper
        refine ⟨same.symm, by omega, ?_⟩
        have fits : chunk * chunkElements < elements := by
          have bound : (chunk + 1) * chunkElements ≤ elements + chunkElements - 1 :=
            (Nat.le_div_iff_mul_le chunked).mp inside
          rw [Nat.add_mul] at bound
          omega
        omega
      · intro within
        obtain ⟨same, lower, upper⟩ := within
        have split := Nat.div_add_mod' (cell.position - offset) chunkElements
        have small := Nat.mod_lt (cell.position - offset) chunked
        refine ⟨_, ⟨(cell.position - offset) / chunkElements, ?_, rfl⟩, same.symm, ?_, ?_⟩
        · apply (Nat.le_div_iff_mul_le chunked).mpr
          rw [Nat.succ_mul]
          omega
        · dsimp only
          omega
        · dsimp only
          omega

/-! ## The slices of a tensor -/

/-- An element of an expert's slice. -/
def Config.element (config : Config) (pointer : Nat) (tensor : Tensor) (expert offset : Nat) : Cell :=
  { pointer, position := expert * config.expertElements tensor + offset }

section

variable {config : Config} {call : Call config R} {state : State R}

theorem element_expert (inside : offset < config.expertElements tensor) :
    (config.element pointer tensor expert offset).position / config.expertElements tensor = expert := by
  rw [Config.element, Nat.mul_comm, Nat.mul_add_div (by omega), Nat.div_eq_of_lt inside, Nat.add_zero]

theorem element_offset (inside : offset < config.expertElements tensor) :
    (config.element pointer tensor expert offset).position % config.expertElements tensor = offset := by
  rw [Config.element, Nat.mul_comm, Nat.mul_add_mod, Nat.mod_eq_of_lt inside]

theorem clearWhole_covers (passed : call.outputs tensor = some pointer)
    (valid : expert < config.expertNum) (inside : offset < config.expertElements tensor) :
    (∃ seg ∈ clearWhole config call other, seg.Covers (config.element pointer tensor expert offset)) ↔
      other = tensor := by
  rw [clearWhole, appendClearSegments_covers]
  constructor
  · intro covered
    exact call.separate _ _ _ covered.1 passed
  · rintro rfl
    refine ⟨passed, Nat.zero_le _, ?_⟩
    have bound : (expert + 1) * config.expertElements other ≤
        config.expertNum * config.expertElements other := Nat.mul_le_mul_right _ valid
    rw [Nat.add_mul] at bound
    simp only [Config.element]
    omega

theorem clearExpert_covers (passed : call.outputs tensor = some pointer)
    (inside : offset < config.expertElements tensor) :
    (∃ seg ∈ clearExpert config call retired other,
        seg.Covers (config.element pointer tensor expert offset)) ↔
      other = tensor ∧ retired = expert := by
  rw [clearExpert, appendClearSegments_covers]
  constructor
  · intro covered
    have same := call.separate _ _ _ covered.1 passed
    subst same
    refine ⟨rfl, ?_⟩
    have here : (config.element pointer other expert offset).position /
        config.expertElements other = expert := element_expert inside
    rw [← here]
    symm
    apply Nat.div_eq_of_lt_le covered.2.1
    rw [Nat.succ_mul]
    exact covered.2.2
  · rintro ⟨rfl, rfl⟩
    refine ⟨passed, Nat.le_add_right _ _, ?_⟩
    simp only [Config.element]
    omega

/-- The call retires the expert's slices: all slices of a new set of tensors, or
those of the previous window that the kernels do not overwrite. -/
def Retires (call : Call config R) (state : State R) (tensor : Tensor) (expert : Nat) : Prop :=
  forceInitialization call state = true ∨
    effectiveAccumulate call state = false ∧ expert ∈ state.windowActiveExperts ∧
      (tensor.isBase = true → expert ∉ call.activeExpertMap)

theorem needs_of_hasAuthoritative (has : call.hasAuthoritative tensor = true) : call.needs tensor = true := by
  cases base : tensor.isBase with
  | true =>
      simp only [Call.hasAuthoritative, base, if_true, Call.hasAuthoritativeBaseGrads, Bool.and_eq_true] at has
      simp only [Call.needs, base, if_true, has.2]
  | false =>
      simp only [Call.hasAuthoritative, base, Bool.false_eq_true, if_false,
        Call.hasAuthoritativeLoraGrads, Bool.and_eq_true] at has
      simp only [Call.needs, base, Bool.false_eq_true, if_false, has.2]

theorem outputs_of_current (current : call.currentOptimizerGradPtrs tensor = some pointer) :
    call.outputs tensor = some pointer ∧ call.written tensor = some pointer ∧
      call.hasAuthoritative tensor = true := by
  simp only [Call.currentOptimizerGradPtrs] at current
  split at current
  case isTrue has =>
    refine ⟨current, ?_, has⟩
    rw [Call.written, if_pos (needs_of_hasAuthoritative has)]
    exact current
  case isFalse => contradiction

theorem exists_flatMap_covers {items : List α} {segs : α → List ClearSeg} :
    (∃ seg ∈ items.flatMap segs, seg.Covers cell) ↔
      ∃ item ∈ items, ∃ seg ∈ segs item, seg.Covers cell := by
  simp only [List.mem_flatMap]
  constructor
  · intro found
    obtain ⟨seg, ⟨item, inItems, inSegs⟩, covers⟩ := found
    exact ⟨item, inItems, seg, inSegs, covers⟩
  · intro found
    obtain ⟨item, inItems, seg, inSegs, covers⟩ := found
    exact ⟨seg, ⟨item, inItems, inSegs⟩, covers⟩

theorem clearTensors_whole_covers (passed : call.outputs tensor = some pointer)
    (valid : expert < config.expertNum) (inside : offset < config.expertElements tensor)
    (kind : Tensor → Bool) :
    (∃ seg ∈ (Tensor.all.filter kind).flatMap (clearWhole config call),
        seg.Covers (config.element pointer tensor expert offset)) ↔ kind tensor = true := by
  rw [exists_flatMap_covers]
  simp only [clearWhole_covers passed valid inside, List.mem_filter, Tensor.mem_all, true_and,
    exists_eq_right]

theorem clearTensors_experts_covers (expert : Nat) (passed : call.outputs tensor = some pointer)
    (inside : offset < config.expertElements tensor) (kind : Tensor → Bool) (experts : List Nat) :
    (∃ seg ∈ experts.flatMap fun retired => (Tensor.all.filter kind).flatMap (clearExpert config call retired),
        seg.Covers (config.element pointer tensor expert offset)) ↔
      kind tensor = true ∧ expert ∈ experts := by
  rw [exists_flatMap_covers]
  simp only [exists_flatMap_covers, clearExpert_covers passed inside, List.mem_filter, Tensor.mem_all,
    true_and]
  constructor
  · intro found
    obtain ⟨retired, member, other, kept, rfl, rfl⟩ := found
    exact ⟨kept, member⟩
  · intro found
    exact ⟨expert, found.2, tensor, found.1, rfl, rfl⟩

/-- The clearing job covers exactly the slices that the call retires. -/
theorem clearSegs_covers (current : call.currentOptimizerGradPtrs tensor = some pointer)
    (valid : expert < config.expertNum) (inside : offset < config.expertElements tensor) :
    (∃ seg ∈ clearSegs call state, seg.Covers (config.element pointer tensor expert offset)) ↔
      Retires call state tensor expert := by
  obtain ⟨passed, -, has⟩ := outputs_of_current current
  have whole := clearTensors_whole_covers passed valid inside
  have experts := clearTensors_experts_covers expert passed inside
  simp only [clearSegs, List.mem_append, or_and_right, exists_or, Retires]
  cases base : tensor.isBase with
  | true =>
      simp only [Call.hasAuthoritative, base, if_true, Call.hasAuthoritativeBaseGrads,
        Bool.and_eq_true] at has
      have other : ¬ ∃ seg ∈ loraClearSegs call state,
          seg.Covers (config.element pointer tensor expert offset) := by
        simp only [loraClearSegs]
        split_ifs
        · simp
        · rw [whole]
          simp [base]
        · rw [experts]
          simp [base]
        · simp
      simp only [other, or_false, baseClearSegs, has.1, has.2, Bool.not_true, Bool.false_or,
        Bool.false_eq_true, if_false]
      split_ifs with force overwrite
      · rw [whole]
        simp [base, force]
      · rw [experts]
        simp_all
      · simp_all
  | false =>
      simp only [Call.hasAuthoritative, base, Bool.false_eq_true, if_false] at has
      have other : ¬ ∃ seg ∈ baseClearSegs call state,
          seg.Covers (config.element pointer tensor expert offset) := by
        simp only [baseClearSegs]
        split_ifs
        · simp
        · rw [whole]
          simp [base]
        · rw [experts]
          simp [base]
        · simp
      simp only [other, false_or, loraClearSegs, has, Bool.not_true, Bool.false_eq_true, if_false]
      split_ifs with force overwrite
      · rw [whole]
        simp [base, force]
      · rw [experts]
        simp_all
      · simp_all

theorem outputs_of_written (written : call.written tensor = some pointer) :
    call.outputs tensor = some pointer := by
  simp only [Call.written] at written
  split at written
  · exact written
  · contradiction

theorem written_unique (first : call.written tensor = some pointer)
    (second : call.written other = some pointer) : other = tensor :=
  call.separate _ _ _ (outputs_of_written second) (outputs_of_written first)

theorem not_force_of_effective (effective : effectiveAccumulate call state = true) :
    forceInitialization call state = false := by
  simp only [effectiveAccumulate, Bool.and_eq_true, Bool.not_eq_true'] at effective
  exact effective.2

theorem supportsLora_of_current (current : call.currentOptimizerGradPtrs tensor = some pointer)
    (lora : tensor.isBase = false) : config.supportsAuthoritativeLoraGrads = true := by
  obtain ⟨-, -, has⟩ := outputs_of_current current
  simp only [Call.hasAuthoritative, lora, Bool.false_eq_true, if_false, Call.hasAuthoritativeLoraGrads,
    Bool.and_eq_true] at has
  exact has.1

theorem not_base_of_reduced {tensor : Tensor} (reduced : tensor.isReduced = true) : tensor.isBase = false := by
  cases tensor <;> first | rfl | contradiction

/-! ## The parts and the merge -/

variable [CommSemiring R]

/-- The gradient of an expert before scaling: each part contributes what it
holds. -/
def Call.total (call : Call config R) (tensor : Tensor) (expert offset : Nat) : R :=
  ∑ part ∈ Finset.range config.tpCount,
    if config.holds part tensor offset then call.contribution part tensor expert offset else 0

/-- What the call contributes to an element of a slice. -/
def Call.share (call : Call config R) (tensor : Tensor) (expert offset : Nat) : R :=
  if expert ∈ call.activeExpertMap then call.total tensor expert offset * call.scale else 0

theorem intermediate_lt (inside : offset < config.expertElements tensor) (split : tensor.isReduced = false) :
    config.intermediate offset tensor < config.intermediateSize := by
  have positive : 0 < config.expertElements tensor := by omega
  cases tensor <;> simp only [Config.expertElements, Config.intermediate] at inside positive ⊢
  case gateProj => exact Nat.div_lt_of_lt_mul (by rw [Nat.mul_comm]; exact inside)
  case upProj => exact Nat.div_lt_of_lt_mul (by rw [Nat.mul_comm]; exact inside)
  case downProj => exact Nat.mod_lt _ (Nat.pos_of_mul_pos_right positive)
  case gateLoraB => exact Nat.div_lt_of_lt_mul (by rw [Nat.mul_comm]; exact inside)
  case upLoraB => exact Nat.div_lt_of_lt_mul (by rw [Nat.mul_comm]; exact inside)
  case downLoraA => exact Nat.mod_lt _ (Nat.pos_of_mul_pos_left positive)
  all_goals contradiction

theorem exists_holder (covers : config.tpIntermediateSizes.sum = config.intermediateSize)
    (inside : offset < config.expertElements tensor) (split : tensor.isReduced = false) :
    ∃ owner < config.tpCount, config.holds owner tensor offset = true ∧
      ∀ part, config.holds part tensor offset = true → part = owner := by
  have within := intermediate_lt inside split
  rw [← covers] at within
  obtain ⟨owner, valid, lower, upper⟩ := exists_piece within
  refine ⟨owner, valid, ?_, ?_⟩
  · simp only [Config.holds, split, Bool.false_or, decide_eq_true_eq]
    exact ⟨lower, upper⟩
  · intro part holds
    simp only [Config.holds, split, Bool.false_or, decide_eq_true_eq] at holds
    exact piece_unique holds ⟨lower, upper⟩

theorem total_of_holder (valid : owner < config.tpCount)
    (holds : config.holds owner tensor offset = true)
    (unique : ∀ part, config.holds part tensor offset = true → part = owner) :
    call.total tensor expert offset = call.contribution owner tensor expert offset := by
  rw [Call.total, Finset.sum_eq_single owner]
  · rw [if_pos holds]
  · intro part _ different
    exact if_neg fun other => different (unique part other)
  · intro absent
    exact absurd (Finset.mem_range.mpr valid) absent

theorem partStores_kept {memory : Cell → R} (written : call.written tensor = some pointer)
    (inside : offset < config.expertElements tensor)
    (untouched : tensor.isReduced = true ∨ expert ∉ call.activeExpertMap) :
    Store.runAll (partStores call accumulate) memory (config.element pointer tensor expert offset) =
      memory (config.element pointer tensor expert offset) := by
  apply Store.runAll_skipped
  intro store member old
  obtain ⟨⟨part, other⟩, -, rfl⟩ := List.mem_map.mp member
  apply if_neg
  intro condition
  obtain ⟨same, -, split, active, -⟩ := condition
  have here := written_unique written same
  subst here
  rw [element_expert inside] at active
  rcases untouched with reduced | inactive
  · rw [reduced] at split
    contradiction
  · contradiction

theorem partStores_split {memory : Cell → R} (written : call.written tensor = some pointer)
    (covers : config.tpIntermediateSizes.sum = config.intermediateSize)
    (inside : offset < config.expertElements tensor) (split : tensor.isReduced = false)
    (active : expert ∈ call.activeExpertMap) :
    Store.runAll (partStores call accumulate) memory (config.element pointer tensor expert offset) =
      (if accumulate || config.alwaysAdds tensor then
        memory (config.element pointer tensor expert offset) else 0) + call.share tensor expert offset := by
  obtain ⟨owner, valid, holds, unique⟩ := exists_holder covers inside split
  have member : (owner, tensor) ∈ call.partOrder.product Tensor.all := by
    refine List.mem_product.mpr ⟨?_, Tensor.mem_all tensor⟩
    exact call.parts.mem_iff.mpr (List.mem_range.mpr valid)
  have distinct : (call.partOrder.product Tensor.all).Nodup :=
    List.Nodup.product (call.parts.nodup_iff.mpr List.nodup_range) (by decide)
  rw [partStores, Store.runAll_owned distinct member]
  · apply Store.run_written
    simp only [partStore, element_expert inside, element_offset inside]
    rw [if_pos ⟨written, by omega, split, active, holds⟩]
    simp only [Call.share, if_pos active, total_of_holder valid holds unique, Option.some.injEq]
    split_ifs
    · exact add_comm _ _
    · exact (zero_add _).symm
  · intro task _ different old
    apply if_neg
    intro condition
    obtain ⟨same, -, -, -, holder⟩ := condition
    have here := written_unique written same
    rw [here, element_offset inside] at holder
    exact different (Prod.ext (unique _ holder) here)

theorem mergeStores_kept {memory : Cell → R} (written : call.written tensor = some pointer)
    (inside : offset < config.expertElements tensor)
    (untouched : tensor.isReduced = false ∨ expert ∉ call.activeExpertMap) :
    Store.runAll (mergeStores call) memory (config.element pointer tensor expert offset) =
      memory (config.element pointer tensor expert offset) := by
  apply Store.runAll_skipped
  intro store member old
  obtain ⟨⟨other, task⟩, inTasks, rfl⟩ := List.mem_map.mp member
  have bound := List.mem_range.mp (List.mem_product.mp inTasks).2
  apply if_neg
  intro condition
  obtain ⟨same, -, reduced, mapped⟩ := condition
  have here := written_unique written same
  subst here
  rw [element_expert inside, List.getD_eq_getElem _ _ bound] at mapped
  rcases untouched with split | inactive
  · rw [split] at reduced
    contradiction
  · exact inactive (mapped ▸ List.getElem_mem bound)

theorem mergeStores_reduced {memory : Cell → R} (written : call.written tensor = some pointer)
    (inside : offset < config.expertElements tensor) (reduced : tensor.isReduced = true)
    (active : expert ∈ call.activeExpertMap)
    (supported : config.supportsAuthoritativeLoraGrads = true) :
    Store.runAll (mergeStores call) memory (config.element pointer tensor expert offset) =
      memory (config.element pointer tensor expert offset) + call.share tensor expert offset := by
  obtain ⟨task, bound, mapped⟩ := List.getElem_of_mem active
  have member : (tensor, task) ∈ Tensor.all.product (List.range call.activeExpertMap.length) :=
    List.mem_product.mpr ⟨Tensor.mem_all tensor, List.mem_range.mpr bound⟩
  have distinct : (Tensor.all.product (List.range call.activeExpertMap.length)).Nodup :=
    List.Nodup.product (by decide) List.nodup_range
  have found : call.activeExpertMap.getD task 0 = expert := by
    rw [List.getD_eq_getElem _ _ bound, mapped]
  rw [mergeStores, Store.runAll_owned distinct member]
  · apply Store.run_written
    simp only [mergeStore, element_expert inside, element_offset inside]
    rw [if_pos ⟨written, by omega, reduced, found.symm⟩]
    have sum : ((List.range config.tpCount).map fun part =>
        sparsePartial call part tensor task offset).sum = call.share tensor expert offset := by
      simp only [Call.share, if_pos active, Call.total, Config.holds, reduced, Bool.true_or, if_true,
        sparsePartial, found]
      rw [List.sum_map_mul_right]
      rfl
    rw [sum, if_pos supported, add_comm]
  · intro other inTasks different old
    have bounded := List.mem_range.mp (List.mem_product.mp inTasks).2
    apply if_neg
    intro condition
    obtain ⟨same, -, -, here⟩ := condition
    have tensors := written_unique written same
    rw [tensors, element_expert inside, ← mapped, List.getD_eq_getElem _ _ bounded] at here
    have tasks := (call.activeDistinct.getElem_inj_iff).mp here
    exact different (Prod.ext tensors tasks.symm)

theorem kept_of_effective (current : call.currentOptimizerGradPtrs tensor = some pointer)
    (valid : expert < config.expertNum) (inside : offset < config.expertElements tensor)
    (effective : effectiveAccumulate call state = true) :
    Store.runAll ((clearSegs call state).map ClearSeg.memset) state.memory
        (config.element pointer tensor expert offset) =
      state.memory (config.element pointer tensor expert offset) := by
  apply clear_kept
  rw [clearSegs_covers current valid inside]
  simp [Retires, effective, not_force_of_effective effective]

/-- The clearing job leaves zero, or what the call accumulates into, where the
kernels do not overwrite. -/
theorem cleared_element (current : call.currentOptimizerGradPtrs tensor = some pointer)
    (valid : expert < config.expertNum) (inside : offset < config.expertElements tensor)
    (stale : forceInitialization call state = false → expert ∉ state.windowActiveExperts →
      state.memory (config.element pointer tensor expert offset) = 0)
    (added : tensor.isBase = false ∨ expert ∉ call.activeExpertMap) :
    Store.runAll ((clearSegs call state).map ClearSeg.memset) state.memory
        (config.element pointer tensor expert offset) =
      if effectiveAccumulate call state then
        state.memory (config.element pointer tensor expert offset) else 0 := by
  cases effective : effectiveAccumulate call state with
  | true =>
      rw [if_pos rfl]
      exact kept_of_effective current valid inside effective
  | false =>
      simp only [Bool.false_eq_true, if_false]
      by_cases retires : Retires call state tensor expert
      · exact clear_zero ((clearSegs_covers current valid inside).mpr retires)
      · rw [clear_kept (mt (clearSegs_covers current valid inside).mp retires)]
        simp only [Retires, effective, true_and, not_or, not_and, Bool.not_eq_true] at retires
        apply stale retires.1
        intro member
        apply retires.2 member
        intro base
        rcases added with lora | inactive
        · rw [base] at lora
          contradiction
        · exact inactive

/-- What a call leaves in an element of a persistent gradient whose slice is zero
unless its expert is of the previous window. -/
theorem computed_element (current : call.currentOptimizerGradPtrs tensor = some pointer)
    (covers : config.tpIntermediateSizes.sum = config.intermediateSize)
    (valid : expert < config.expertNum) (inside : offset < config.expertElements tensor)
    (stale : forceInitialization call state = false → expert ∉ state.windowActiveExperts →
      state.memory (config.element pointer tensor expert offset) = 0) :
    computed call state (config.element pointer tensor expert offset) =
      (if effectiveAccumulate call state then
        state.memory (config.element pointer tensor expert offset) else 0) +
        call.share tensor expert offset := by
  obtain ⟨-, written, -⟩ := outputs_of_current current
  simp only [computed]
  by_cases active : expert ∈ call.activeExpertMap
  · cases reduced : tensor.isReduced with
    | true =>
        have lora := not_base_of_reduced reduced
        rw [mergeStores_reduced written inside reduced active (supportsLora_of_current current lora),
          partStores_kept written inside (.inl reduced), cleared_element current valid inside stale (.inl lora)]
    | false =>
        rw [mergeStores_kept written inside (.inl reduced),
          partStores_split written covers inside reduced active]
        cases base : tensor.isBase with
        | true =>
            cases effective : effectiveAccumulate call state with
            | true => simp [kept_of_effective current valid inside effective]
            | false => simp [Config.alwaysAdds, base]
        | false =>
            rw [cleared_element current valid inside stale (.inl base)]
            split_ifs <;> simp_all
  · rw [mergeStores_kept written inside (.inr active), partStores_kept written inside (.inr active),
      cleared_element current valid inside stale (.inr active), Call.share, if_neg active, add_zero]

end

end KtKernel.Sft.Window
