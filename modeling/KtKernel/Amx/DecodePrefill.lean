import Mathlib.Data.List.GetD
import KtKernel.Amx.DecodePools
import KtKernel.Amx.Forward
import KtKernel.Data.Tiling

namespace KtKernel.Amx

open KtKernel.Data

variable {config : Instance} {Q : Type} {kernels : Kernels Q} {schedule : Schedule} {tables : Tables}
  {k : Nat} {expertIds : Nat → Int}

theorem inSplitRange_iff (inside : column < n) :
    inSplitRange config n ith column = true ↔ ith = column / config.nBlock := by
  rw [inSplitRange, decide_eq_true_eq]
  exact mem_block_iff config.nBlockPositive inside

theorem share_lt (config : Instance) (inside : column < n) :
    column / config.nBlock < recommendedNth config n :=
  div_lt_blocks config.nBlockPositive inside

theorem taskExpert_mem (inside : task < nth * tables.expertIdMap.length) :
    taskExpert tables nth task ∈ tables.expertIdMap := by
  have place : task / nth < tables.expertIdMap.length := Nat.div_lt_of_lt_mul inside
  rw [taskExpert, List.getD_eq_getElem _ _ place]
  exact List.getElem_mem place

theorem taskExpert_at (found : tables.expertIdMap[index]? = some expert) (share : ith < nth) :
    taskExpert tables nth (index * nth + ith) = expert := by
  rw [taskExpert, pairIndex_div index share, List.getD_eq_getElem?_getD, found, Option.getD_some]

/-! ## The jobs -/

def Placed (tables : Tables) : Prop :=
  ∀ expert ∈ tables.expertIdMap, ∀ other ∈ tables.expertIdMap, expert ≠ other →
    Apart (tables.outputRow expert) (tables.localNum expert)
      (tables.outputRow other) (tables.localNum other)

theorem Placed.unique (placed : Placed tables) (member : expert ∈ tables.expertIdMap)
    (other_ : other ∈ tables.expertIdMap) (inside : row < tables.localNum expert)
    (owns : ownsRow tables other (tables.outputRow expert + row) = true) : other = expert := by
  by_contra different
  have apart := placed other other_ expert member different
  simp only [ownsRow, decide_eq_true_eq] at owns
  unfold Apart at apart
  omega

theorem ownsRow_self (inside : row < tables.localNum expert) :
    ownsRow tables expert (tables.outputRow expert + row) = true := by
  simp only [ownsRow, decide_eq_true_eq]
  omega

/-- The gate and up products of a row, in any order of the tasks. -/
theorem gateUp_row (placed : Placed tables) (member : expert ∈ tables.expertIdMap)
    (inside : row < tables.localNum expert) (within : column < config.intermediateSize) (doUp : Bool) :
    Store.runAll ((schedule.order 0 (recommendedNth config config.intermediateSize *
        tables.expertIdMap.length * 2)).map (gateUpStore config kernels tables
          (recommendedNth config config.intermediateSize) gateUpBa)) memory
        (doUp, tables.outputRow expert + row, column) =
      kernels.gateUpGemm doUp expert (gateUpBa expert row) column := by
  have share := share_lt config within
  generalize recommendedNth config config.intermediateSize = nth at *
  obtain ⟨index, place, found⟩ := List.getElem_of_mem member
  have at_ : tables.expertIdMap[index]? = some expert := by
    rw [List.getElem?_eq_getElem place, found]
  apply Store.runAll_agreed
  · intro store inStores
    obtain ⟨task, taken, rfl⟩ := List.mem_map.mp inStores
    have bound := Schedule.lt_of_mem_order taken
    have inMap : taskExpert tables nth (task / 2) ∈ tables.expertIdMap := taskExpert_mem (by omega)
    simp only [gateUpStore, Store.Skips]
    by_cases writes : doUp = decide (task % 2 = 1) ∧
        ownsRow tables (taskExpert tables nth (task / 2)) (tables.outputRow expert + row) ∧
        inSplitRange config config.intermediateSize (task / 2 % nth) column
    · right
      intro old
      have same := placed.unique member inMap inside writes.2.1
      rw [if_pos writes, same, ← writes.1, Nat.add_sub_cancel_left]
    · left
      intro old
      rw [if_neg writes]
  · have bound : 2 * (index * nth + column / config.nBlock) + doUp.toNat <
        nth * tables.expertIdMap.length * 2 := by
      have bound := pairIndex_lt place share
      have small := Bool.toNat_le doUp
      omega
    refine ⟨_, List.mem_map_of_mem (schedule.mem_order bound 0), ?_⟩
    · intro old
      have half : (2 * (index * nth + column / config.nBlock) + doUp.toNat) / 2 =
          index * nth + column / config.nBlock := by
        have small := Bool.toNat_le doUp
        omega
      have parity : doUp = decide ((2 * (index * nth + column / config.nBlock) + doUp.toNat) % 2 = 1) := by
        cases doUp with
        | true => simp
        | false => simp
      simp only [gateUpStore, half, taskExpert_at at_ share, pairIndex_mod index share]
      rw [if_pos ⟨parity, ownsRow_self inside, (inSplitRange_iff within).mpr rfl⟩, ← parity,
        Nat.add_sub_cancel_left]

theorem activation_row {up gate : Nat × Nat → ℚ} (placed : Placed tables)
    (distinct : tables.expertIdMap.Nodup) (member : expert ∈ tables.expertIdMap)
    (inside : row < tables.localNum expert) (within : column < config.intermediateSize) :
    Store.runAll ((schedule.order 1 (recommendedNth config config.intermediateSize *
        tables.expertIdMap.length)).map (activationStore config kernels tables
          (recommendedNth config config.intermediateSize) up)) gate
        (tables.outputRow expert + row, column) =
      kernels.actFn (gate (tables.outputRow expert + row, column))
        (up (tables.outputRow expert + row, column)) := by
  have share := share_lt config within
  generalize recommendedNth config config.intermediateSize = nth at *
  obtain ⟨index, place, found⟩ := List.getElem_of_mem member
  have found_ : tables.expertIdMap[index]? = some expert := by
    rw [List.getElem?_eq_getElem place, found]
  rw [Store.runAll_owned (schedule.order_nodup _ _) (schedule.mem_order (pairIndex_lt place share) 1)]
  · apply Store.run_written
    simp only [activationStore, taskExpert_at found_ share, pairIndex_mod index share]
    rw [if_pos ⟨ownsRow_self inside, (inSplitRange_iff within).mpr rfl⟩]
  · intro task taken different old
    have bound := Schedule.lt_of_mem_order taken
    apply if_neg
    intro writes
    have same := placed.unique member (taskExpert_mem bound) inside writes.1
    have ith := (inSplitRange_iff within).mp writes.2
    have other : task / nth < tables.expertIdMap.length := Nat.div_lt_of_lt_mul bound
    rw [taskExpert, List.getD_eq_getElem _ _ other, ← found] at same
    have places := distinct.getElem_inj_iff.mp same
    apply different
    rw [← places, ← ith, Nat.div_add_mod']

/-- The down product of a row, in any order of the tasks. -/
theorem down_row (placed : Placed tables) (member : expert ∈ tables.expertIdMap)
    (inside : row < tables.localNum expert) (within : column < config.hiddenSize) :
    Store.runAll ((schedule.order 2 (recommendedNth config config.hiddenSize *
        tables.expertIdMap.length)).map (downStore config kernels tables
          (recommendedNth config config.hiddenSize) downBa)) memory
        (tables.outputRow expert + row, column) =
      kernels.downGemm expert (downBa expert row) column := by
  have share := share_lt config within
  generalize recommendedNth config config.hiddenSize = nth at *
  obtain ⟨index, place, found⟩ := List.getElem_of_mem member
  have found_ : tables.expertIdMap[index]? = some expert := by
    rw [List.getElem?_eq_getElem place, found]
  apply Store.runAll_agreed
  · intro store inStores
    obtain ⟨task, taken, rfl⟩ := List.mem_map.mp inStores
    have bound := Schedule.lt_of_mem_order taken
    simp only [downStore, Store.Skips]
    by_cases writes : ownsRow tables (taskExpert tables nth task) (tables.outputRow expert + row) ∧
        inSplitRange config config.hiddenSize (task % nth) column
    · right
      intro old
      have same := placed.unique member (taskExpert_mem bound) inside writes.1
      rw [if_pos writes, same, Nat.add_sub_cancel_left]
    · left
      intro old
      rw [if_neg writes]
  · refine ⟨_, List.mem_map_of_mem (schedule.mem_order (pairIndex_lt place share) 2), ?_⟩
    intro old
    simp only [downStore, taskExpert_at found_ share, pairIndex_mod index share]
    rw [if_pos ⟨ownsRow_self inside, (inSplitRange_iff within).mpr rfl⟩, Nat.add_sub_cancel_left]

def expertRow (config : Instance) (kernels : Kernels Q) (expert : Nat) (packed : Q) : Nat → ℚ :=
  kernels.downGemm expert (kernels.fromGate fun column =>
    if column < config.intermediateSize then
      kernels.actFn (kernels.gateUpGemm false expert packed column)
        (kernels.gateUpGemm true expert packed column)
    else 0)

theorem runExperts_row {arrays : Arrays Q} (placed : Placed tables) (distinct : tables.expertIdMap.Nodup)
    (member : expert ∈ tables.expertIdMap) (inside : row < tables.localNum expert)
    (within : column < config.hiddenSize) :
    (runExperts config kernels schedule tables arrays).downOutput (tables.outputRow expert + row, column) =
      expertRow config kernels expert (arrays.gateUpBa expert row) column := by
  simp only [runExperts]
  rw [down_row placed member inside within, if_pos ⟨member, inside⟩, expertRow]
  congr 2
  funext gateColumn
  simp only [rowOf]
  by_cases gateWithin : gateColumn < config.intermediateSize
  · rw [if_pos gateWithin, if_pos gateWithin, activation_row placed distinct member inside gateWithin,
      gateUp_row placed member inside gateWithin, gateUp_row placed member inside gateWithin]
  · rw [if_neg gateWithin, if_neg gateWithin]

section

variable {qlen : Nat} {before : Memory Q} {weights : Nat → ℚ} {input : Nat × Nat → ℚ}

def tokenRow (config : Instance) (kernels : Kernels Q) (k : Nat) (expertIds : Nat → Int)
    (weights input : Nat → ℚ) (column : Nat) : ℚ :=
  ((List.range k).map fun slot =>
    if config.shouldSkipExpert (expertIds slot) then 0
    else expertRow config kernels (expertIds slot).toNat
      (kernels.fromInput fun column => if column < config.hiddenSize then input column else 0) column *
        weights slot).sum

theorem mem_slots (tokenInside : token < qlen) (slotInside : slot < k) : (token, slot) ∈ slots qlen k :=
  List.mem_product.mpr ⟨List.mem_range.mpr tokenInside, List.mem_range.mpr slotInside⟩

theorem copied_row (safe : RowsSafe config qlen k expertIds tables.inputRow tables)
    (tokenInside : token < qlen) (slotInside : slot < k)
    (live : config.shouldSkipExpert (expertIds (token * k + slot)) = false)
    (within : column < config.hiddenSize) :
    Store.runAll (((schedule.order 3 qlen).product (List.range k)).map
        (copyStore config tables k expertIds input)) memory
        (slotRow k expertIds tables.inputRow tables (token, slot), column) = input (token, column) := by
  apply Store.runAll_agreed
  · intro store inStores
    obtain ⟨⟨other, otherSlot⟩, taken, rfl⟩ := List.mem_map.mp inStores
    obtain ⟨otherInside, otherSlotInside⟩ := List.mem_product.mp taken
    have otherMember : (other, otherSlot) ∈ slots qlen k :=
      mem_slots (Schedule.lt_of_mem_order otherInside) (List.mem_range.mp otherSlotInside)
    simp only [copyStore, Store.Skips]
    cases skipped : config.shouldSkipExpert (expertIds (other * k + otherSlot)) with
    | true =>
        left
        intro old
        rfl
    | false =>
        simp only [Bool.false_eq_true, if_false]
        by_cases here : slotRow k expertIds tables.inputRow tables (token, slot) =
            slotRow k expertIds tables.inputRow tables (other, otherSlot)
        · right
          intro old
          rw [if_pos ⟨here, within⟩]
          have same : (token, slot) = (other, otherSlot) := by
            by_contra different
            exact safe.2.2.2 _ (mem_slots tokenInside slotInside) _ otherMember live skipped different here
          rw [(Prod.mk.inj same).1]
        · left
          intro old
          rw [if_neg fun writes => here writes.1]
  · refine ⟨_, List.mem_map_of_mem (List.mem_product.mpr
      ⟨schedule.mem_order tokenInside 3, List.mem_range.mpr slotInside⟩), ?_⟩
    intro old
    simp only [copyStore, live, Bool.false_eq_true, if_false]
    rw [if_pos ⟨trivial, within⟩]

theorem forwardPrefill_row (within : qlen ≤ config.maxLen) (fewer : k ≤ config.numExpertsPerTok)
    (tokenInside : token < qlen) (columnInside : column < config.hiddenSize) :
    forwardPrefill config kernels schedule qlen k expertIds weights input before token column =
      tokenRow config kernels k (fun slot => expertIds (token * k + slot))
        (fun slot => weights (token * k + slot)) (fun column => input (token, column)) column := by
  have safe : PrefillSafe config qlen k expertIds (prefillTables config qlen k expertIds before.tables) :=
    prefill_safe within fewer
  obtain ⟨-, -, inputSafe, outputSafe⟩ := safe
  have listed := prefill_expertIdMap config k expertIds qlen before.tables
  simp only [forwardPrefill, weightedSum, tokenRow]
  generalize prefillTables config qlen k expertIds before.tables = tables at *
  have distinct : tables.expertIdMap.Nodup := by
    rw [listed]
    exact List.nodup_range.filter _
  have active {expert : Nat} (member : expert ∈ tables.expertIdMap) : 0 < tables.localNum expert := by
    rw [listed, List.mem_filter, decide_eq_true_eq] at member
    exact member.2
  have placed : Placed tables := by
    intro expert member other otherMember different
    exact outputSafe.2.1 expert other (active member) (active otherMember) different
  congr 1
  apply List.map_congr_left
  intro slot slotMember
  have slotInside := List.mem_range.mp slotMember
  cases live : config.shouldSkipExpert (expertIds (token * k + slot)) with
  | true => rfl
  | false =>
      simp only [Bool.false_eq_true, if_false]
      have rowInside := outputSafe.2.2.1 (token, slot) (mem_slots tokenInside slotInside) live
      have member : (expertIds (token * k + slot)).toNat ∈ tables.expertIdMap := by
        rw [listed, List.mem_filter, List.mem_range, decide_eq_true_eq]
        exact ⟨(toNat_bound live).1, Nat.zero_lt_of_lt rowInside⟩
      rw [slotRow, runExperts_row placed distinct member rowInside columnInside]
      dsimp only
      rw [if_pos ⟨member, rowInside⟩]
      congr 2
      congr 1
      funext inputColumn
      simp only [rowOf]
      by_cases inputInside : inputColumn < config.hiddenSize
      · rw [if_pos inputInside, if_pos inputInside]
        exact copied_row inputSafe tokenInside slotInside live inputInside
      · rw [if_neg inputInside, if_neg inputInside]

end

section

variable {before : Memory Q} {weights input : Nat → ℚ}

theorem Handed.placed (handed : Handed config k expertIds tables) : Placed tables := by
  intro expert member other otherMember different
  rw [handed.expertIdMap] at member otherMember
  have rows := handed.row_ne member otherMember different
  rw [handed.one member, handed.one otherMember]
  unfold Apart
  omega

theorem Handed.slotRow_eq (handed : Handed config k expertIds tables) (inside : slot < k)
    (live : config.shouldSkipExpert (expertIds slot) = false) :
    slotRow k expertIds tables.outputRow tables (0, slot) = tables.outputRow (expertIds slot).toNat + 0 := by
  simp only [slotRow, Nat.zero_mul, Nat.zero_add]
  rw [handed.localPos slot inside live]

theorem forwardDecode_row (distinct : DistinctIds config k expertIds) (columnInside : column < config.hiddenSize) :
    forwardDecode config kernels schedule k expertIds weights input before column =
      tokenRow config kernels k expertIds weights input column := by
  have handed := decode_handed config k expertIds before.tables
  simp only [forwardDecode, weightedSum, tokenRow, Nat.zero_mul, Nat.zero_add]
  generalize decodeTables config k expertIds before.tables = tables at *
  have nodup : tables.expertIdMap.Nodup := by
    rw [handed.expertIdMap]
    exact routedExperts_nodup distinct
  congr 1
  apply List.map_congr_left
  intro slot slotMember
  have slotInside := List.mem_range.mp slotMember
  cases live : config.shouldSkipExpert (expertIds slot) with
  | true => rfl
  | false =>
      have routed : (expertIds slot).toNat ∈ routedExperts config k expertIds :=
        mem_routedExperts.mpr ⟨slot, slotInside, live, rfl⟩
      have member : (expertIds slot).toNat ∈ tables.expertIdMap := by
        rw [handed.expertIdMap]
        exact routed
      have rowInside : 0 < tables.localNum (expertIds slot).toNat := by
        rw [handed.one routed]
        exact Nat.one_pos
      simp only [Bool.false_eq_true, if_false]
      rw [handed.slotRow_eq slotInside live,
        runExperts_row handed.placed nodup member rowInside columnInside]
      dsimp only
      rw [if_pos ⟨member, Nat.one_pos⟩]

/-! ## Repeated ids -/

def countingKernels : Kernels ℚ where
  fromInput := fun _ => 0
  gateUpGemm := fun _ _ _ _ => 0
  actFn := fun gate _ => gate + 1
  fromGate := fun row => row 0
  downGemm := fun _ packed _ => packed

theorem distinct_of_nodup (nodup : (routedExperts config k expertIds).Nodup) :
    DistinctIds config k expertIds := by
  intro slot inside other otherInside live otherLive same
  apply List.inj_on_of_nodup_map nodup
  · simp [inside, live]
  · simp [otherInside, otherLive]
  · rw [same]

theorem sum_at_least_two {order : List Nat} {amount : Nat → ℚ} (nonneg : ∀ task, 0 ≤ amount task)
    (complete : order.Perm (List.range count)) (first : left < count) (second : right < count)
    (different : left ≠ right) (leftOne : amount left = 1) (rightOne : amount right = 1) :
    2 ≤ (order.map amount).sum := by
  have whole : (order.map amount).sum = ∑ task ∈ Finset.range count, amount task :=
    (complete.map amount).sum_eq
  rw [whole]
  calc (2 : ℚ) = ∑ task ∈ {left, right}, amount task := by
        rw [Finset.sum_pair different, leftOne, rightOne]
        norm_num
    _ ≤ _ := by
        apply Finset.sum_le_sum_of_subset_of_nonneg
        · intro task member
          rcases Finset.mem_insert.mp member with same | other
          · rw [same]
            exact Finset.mem_range.mpr first
          · rw [Finset.mem_singleton.mp other]
            exact Finset.mem_range.mpr second
        · intro task _ _
          exact nonneg task

theorem activated_twice {left right expert : Nat} {up gate : Nat × Nat → ℚ}
    (handed : Handed config k expertIds tables)
    (first : (routedExperts config k expertIds)[left]? = some expert)
    (second : (routedExperts config k expertIds)[right]? = some expert) (different : left ≠ right) :
    gate (tables.outputRow expert + 0, 0) + 2 ≤
      Store.runAll ((schedule.order 1 (recommendedNth config config.intermediateSize *
        tables.expertIdMap.length)).map (activationStore config countingKernels tables
          (recommendedNth config config.intermediateSize) up)) gate (tables.outputRow expert + 0, 0) := by
  have share := share_lt config config.intermediatePositive
  generalize recommendedNth config config.intermediateSize = nth at *
  have routed := List.mem_of_getElem? first
  have owned : 0 < tables.localNum expert := by
    rw [handed.one routed]
    exact Nat.one_pos
  rw [← handed.expertIdMap] at first second
  let touches (task : Nat) : Prop := ownsRow tables (taskExpert tables nth task) (tables.outputRow expert + 0) ∧
    inSplitRange config config.intermediateSize (task % nth) 0
  have touched {index : Nat} (found : tables.expertIdMap[index]? = some expert) :
      touches (index * nth + 0 / config.nBlock) := by
    refine ⟨?_, ?_⟩
    · rw [taskExpert_at found share]
      exact ownsRow_self owned
    · rw [pairIndex_mod index share]
      exact (inSplitRange_iff config.intermediatePositive).mpr rfl
  rw [Store.runAll_added (fun task => if touches task then (1 : ℚ) else 0)]
  · apply add_le_add_right
    apply sum_at_least_two _ (schedule.complete 1 _)
      (pairIndex_lt (List.getElem?_eq_some_iff.mp first).1 share)
      (pairIndex_lt (List.getElem?_eq_some_iff.mp second).1 share) _
      (if_pos (touched first)) (if_pos (touched second))
    · intro task
      split
      · exact zero_le_one
      · exact le_refl _
    · intro same
      have places := congrArg (· / nth) same
      simp only [pairIndex_div _ share] at places
      exact different places
  · intro task _
    by_cases writes : touches task
    · right
      intro old
      rw [if_pos writes]
      exact if_pos writes
    · left
      exact ⟨fun old => if_neg writes, if_neg writes⟩

theorem repeated_row {arrays : Arrays ℚ} {left right expert : Nat} (handed : Handed config k expertIds tables)
    (first : (routedExperts config k expertIds)[left]? = some expert)
    (second : (routedExperts config k expertIds)[right]? = some expert) (different : left ≠ right)
    (columnInside : column < config.hiddenSize) :
    2 ≤ (runExperts config countingKernels schedule tables arrays).downOutput
      (tables.outputRow expert + 0, column) := by
  have routed := List.mem_of_getElem? first
  have member : expert ∈ tables.expertIdMap := by
    rw [handed.expertIdMap]
    exact routed
  have owned : 0 < tables.localNum expert := by
    rw [handed.one routed]
    exact Nat.one_pos
  simp only [runExperts]
  rw [down_row handed.placed member owned columnInside, if_pos ⟨member, owned⟩]
  simp only [countingKernels, rowOf, if_pos config.intermediatePositive]
  refine le_trans ?_ (activated_twice handed first second different)
  rw [gateUp_row handed.placed member owned config.intermediatePositive]
  norm_num

def selecting (chosen slot : Nat) : ℚ :=
  if slot = chosen then 1 else 0

theorem sum_selecting {values : Nat → ℚ} (inside : chosen < k)
    (live : config.shouldSkipExpert (expertIds chosen) = false) :
    ((List.range k).map fun slot => if config.shouldSkipExpert (expertIds slot) then 0
      else values slot * selecting chosen slot).sum = values chosen := by
  have whole : ((List.range k).map fun slot => if config.shouldSkipExpert (expertIds slot) then 0
      else values slot * selecting chosen slot).sum =
      ∑ slot ∈ Finset.range k, if config.shouldSkipExpert (expertIds slot) then 0
        else values slot * selecting chosen slot := rfl
  rw [whole, Finset.sum_eq_single chosen]
  · simp [live, selecting]
  · intro slot _ different
    simp [selecting, different]
  · intro absent
    exact absurd (Finset.mem_range.mpr inside) absent

theorem tokenRow_counting (inside : chosen < k) (live : config.shouldSkipExpert (expertIds chosen) = false) :
    tokenRow config countingKernels k expertIds (selecting chosen) input column = 1 := by
  rw [tokenRow, sum_selecting inside live]
  simp [expertRow, countingKernels, config.intermediatePositive]

theorem distinct_of_agreement (schedule : Schedule) (input : Nat → ℚ) (columnInside : column < config.hiddenSize) (before : Memory ℚ)
    (agrees : ∀ weights : Nat → ℚ,
      forwardDecode config countingKernels schedule k expertIds weights input before column =
        tokenRow config countingKernels k expertIds weights input column) :
    DistinctIds config k expertIds := by
  apply distinct_of_nodup
  rw [List.nodup_iff_injective_getElem]
  intro left right same
  dsimp only at same
  by_contra different
  obtain ⟨slot, slotInside, live, found⟩ := mem_routedExperts.mp (List.getElem_mem left.2)
  have handed := decode_handed config k expertIds before.tables
  have agreed := agrees (selecting slot)
  rw [tokenRow_counting slotInside live, forwardDecode, weightedSum] at agreed
  simp only [Nat.zero_mul, Nat.zero_add] at agreed
  rw [sum_selecting slotInside live, handed.slotRow_eq slotInside live] at agreed
  have twice : (2 : ℚ) ≤ 1 := by
    rw [← agreed, found]
    exact repeated_row handed (List.getElem?_eq_getElem left.2)
      (by rw [same]; exact List.getElem?_eq_getElem right.2)
      (fun equal => different (Fin.ext equal)) columnInside
  norm_num at twice

end

/-! ## The two passes -/

def blankMemory : Memory ℚ where
  tables := blankTables
  arrays :=
    { localInput := fun _ => 0
      gateUpOutput := fun _ => 0
      downOutput := fun _ => 0
      gateUpBa := fun _ _ => 0
      downBa := fun _ _ => 0 }

/-- The output row of a token of a prefill is the output row of a decode, whatever
the kernels compute. -/
def TokenAgrees (config : Instance) (qlen k : Nat) (expertIds : Nat → Int) (token : Nat) : Prop :=
  ∀ (Q : Type) (kernels : Kernels Q) (schedule other : Schedule) (weights : Nat → ℚ)
    (input : Nat × Nat → ℚ) (before beforeOther : Memory Q), ∀ column < config.hiddenSize,
    forwardDecode config kernels schedule k (fun slot => expertIds (token * k + slot))
        (fun slot => weights (token * k + slot)) (fun column => input (token, column)) before column =
      forwardPrefill config kernels other qlen k expertIds weights input beforeOther token column

theorem tokenAgrees_iff (within : qlen ≤ config.maxLen) (fewer : k ≤ config.numExpertsPerTok)
    (tokenInside : token < qlen) :
    TokenAgrees config qlen k expertIds token ↔
      DistinctIds config k fun slot => expertIds (token * k + slot) := by
  constructor
  · intro agrees
    apply distinct_of_agreement Schedule.inOrder (fun _ => 0) config.hiddenPositive blankMemory
    intro weights
    have agreed := agrees ℚ countingKernels Schedule.inOrder Schedule.inOrder (fun slot => weights (slot - token * k))
      (fun _ => 0) blankMemory blankMemory 0 config.hiddenPositive
    rw [forwardPrefill_row within fewer tokenInside config.hiddenPositive] at agreed
    simpa only [Nat.add_sub_cancel_left] using agreed
  · intro distinct Q kernels schedule other weights input before beforeOther column columnInside
    rw [forwardPrefill_row within fewer tokenInside columnInside,
      forwardDecode_row distinct columnInside]

/-- A decode writes the row that a prefill of one token writes, and every row of
a prefill is the row of its decode, exactly for tokens with no repeated id. -/
theorem decode_eq_prefill_iff (config : Instance) (qlen k : Nat) (expertIds : Nat → Int)
    (within : qlen ≤ config.maxLen) (fewer : k ≤ config.numExpertsPerTok) :
    (1 ≤ config.maxLen → (TokenAgrees config 1 k expertIds 0 ↔ DistinctIds config k expertIds)) ∧
      ∀ token < qlen, (TokenAgrees config qlen k expertIds token ↔
        DistinctIds config k fun slot => expertIds (token * k + slot)) := by
  constructor
  · intro some_
    have one : TokenAgrees config 1 k expertIds 0 ↔
        DistinctIds config k fun slot => expertIds (0 * k + slot) :=
      tokenAgrees_iff some_ fewer Nat.one_pos
    simpa only [Nat.zero_mul, Nat.zero_add] using one
  · intro token tokenInside
    exact tokenAgrees_iff within fewer tokenInside

theorem decode_eq_prefill_iff_two_experts :
    TokenAgrees smallInstance 1 2 (fun slot => slot) 0 := by
  apply ((decode_eq_prefill_iff smallInstance 1 2 (fun slot => slot) (by decide) (by decide)).1
    (by decide)).mpr
  intro slot _ other _ _ _ same
  exact Int.ofNat.inj same

/-- Gated products of a row of ones. -/
def gatedKernels : Kernels ℚ where
  fromInput := fun row => row 0
  gateUpGemm := fun doUp _ packed _ => if doUp then 3 * packed else 2 * packed
  actFn := fun gate up => gate * up
  fromGate := fun row => row 0
  downGemm := fun _ packed _ => packed

/-- A token that names the first expert twice: the decode gates its row twice. -/
theorem repeated_id_gated_twice :
    forwardPrefill smallInstance gatedKernels Schedule.inOrder 1 2 (fun _ => 0) (fun _ => 1) (fun _ => 1)
        blankMemory 0 0 = 12 ∧
      forwardDecode smallInstance gatedKernels Schedule.inOrder 2 (fun _ => 0) (fun _ => 1) (fun _ => 1)
        blankMemory 0 = 36 := by
  decide +kernel

end KtKernel.Amx
