import Mathlib.Data.List.GetD
import KtKernel.Amx.PrefillPools
import KtKernel.Data.Tiling
import KtKernel.Sft.Partials

namespace KtKernel.Sft.Merge

open KtKernel.Data KtKernel.Amx

theorem vectorLoop_agreed (store : Store Nat ℚ) (member : store ∈ vectorLoop width start stop value) (cell : Nat) :
    store.Skips cell ∨ ∀ old, store cell old = some (value cell) := by
  rcases List.mem_append.mp member with inVectors | inTail
  · obtain ⟨vector, -, rfl⟩ := List.mem_map.mp inVectors
    by_cases inside : start + vector * width ≤ cell ∧ cell < start + vector * width + width
    · exact .inr fun _ => if_pos inside
    · exact .inl fun _ => if_neg inside
  · obtain ⟨index, -, rfl⟩ := List.mem_map.mp inTail
    by_cases inside : cell = start + (stop - start) / width * width + index
    · exact .inr fun _ => if_pos inside
    · exact .inl fun _ => if_neg inside

/-- The whole vectors and the tail together reach every cell. -/
theorem vectorLoop_covers (value : Nat → ℚ) (positive : 0 < width) (above : start ≤ cell) (below : cell < stop) :
    ∃ store ∈ vectorLoop width start stop value, ∀ old, store cell old = some (value cell) := by
  have whole := Nat.div_add_mod (stop - start) width
  rw [Nat.mul_comm] at whole
  by_cases inVectors : cell < start + (stop - start) / width * width
  · have split := Nat.div_add_mod (cell - start) width
    have rest := Nat.mod_lt (cell - start) positive
    rw [Nat.mul_comm] at split
    have vectorInside : (cell - start) / width < (stop - start) / width := by
      rw [Nat.div_lt_iff_lt_mul positive]
      omega
    have inside : start + (cell - start) / width * width ≤ cell ∧
        cell < start + (cell - start) / width * width + width := by omega
    refine ⟨_, List.mem_append_left _ (List.mem_map_of_mem (List.mem_range.mpr vectorInside)), ?_⟩
    exact fun _ => if_pos inside
  · have indexInside : cell - (start + (stop - start) / width * width) < (stop - start) % width := by omega
    refine ⟨_, List.mem_append_right _ (List.mem_map_of_mem (List.mem_range.mpr indexInside)), ?_⟩
    exact fun _ => if_pos (by omega)

/-- A job of vector loops leaves the values in the cells that some loop covers. -/
theorem vectorLoops_write {order : List Nat} {start stop : Nat → Nat} {value memory : Nat → ℚ}
    (positive : 0 < width) (member : task ∈ order) (above : start task ≤ cell) (below : cell < stop task) :
    Store.runAll (order.flatMap fun task => vectorLoop width (start task) (stop task) value) memory cell =
      value cell := by
  apply Store.runAll_agreed
  · intro store inLoops
    obtain ⟨other, -, inLoop⟩ := List.mem_flatMap.mp inLoops
    exact vectorLoop_agreed store inLoop cell
  · obtain ⟨store, inLoop, writes⟩ := vectorLoop_covers value positive above below
    exact ⟨store, List.mem_flatMap.mpr ⟨task, member, inLoop⟩, writes⟩

section

variable {config : Config} {call : Call} {input : Run}

theorem clearedPools_zero (schedule : Schedule) (pools : Nat × Nat → UInt8) (partInside : part < config.tpCount)
    (inside : byte < clearBytes config call) : clearedPools config call schedule pools (part, byte) = 0 := by
  have chunkPositive : 0 < chunkBytes := by decide
  apply Store.runAll_agreed
  · intro store member
    obtain ⟨task, -, rfl⟩ := List.mem_map.mp member
    generalize (clearSegs config call).getD task default = seg
    by_cases covered : part = seg.part ∧ seg.start ≤ byte ∧ byte < seg.start + seg.length
    · exact .inr fun _ => if_pos covered
    · exact .inl fun _ => if_neg covered
  · have chunkInside := div_lt_blocks chunkPositive inside
    have member : (⟨part, byte / chunkBytes * chunkBytes,
        min chunkBytes (clearBytes config call - byte / chunkBytes * chunkBytes)⟩ : ClearSeg) ∈
          clearSegs config call :=
      List.mem_flatMap.mpr ⟨part, List.mem_range.mpr partInside,
        List.mem_map.mpr ⟨_, List.mem_range.mpr chunkInside, rfl⟩⟩
    obtain ⟨task, taskInside, found⟩ := List.getElem_of_mem member
    refine ⟨_, List.mem_map_of_mem (schedule.mem_order taskInside 0), ?_⟩
    intro old
    rw [List.getD_eq_getElem _ _ taskInside, found]
    exact if_pos ⟨rfl, place_in_chunk chunkPositive inside⟩

theorem read_zero (formats : Formats) (pool : Nat → UInt8)
    (cleared : ∀ byte < width, pool (start + byte) = 0) : formats.read pool start width = 0 := by
  have zeros : (List.range width).map (fun byte => pool (start + byte)) = List.replicate width 0 := by
    apply List.eq_replicate_iff.mpr
    constructor
    · simp
    · intro byte member
      obtain ⟨index, inside, rfl⟩ := List.mem_map.mp member
      exact cleared index (List.mem_range.mp inside)
  rw [Formats.read, zeros, formats.zeros]

/-- The partial gradient of the input is zero when the kernel starts, unless the
kernel overwrites it. -/
theorem gradInputBefore_zero (input : Run) (clears : partialsOverwrite config = false) (partInside : part < config.tpCount)
    (inside : cell < call.qlen * config.hiddenSize) :
    gradInputBefore config call input.formats (fun byte =>
      clearedPools config call input.schedule input.pools (part, byte)) cell = 0 := by
  apply read_zero
  intro byte byteInside
  apply clearedPools_zero _ _ partInside
  have room := le_align64 (call.qlen * config.hiddenSize * 2)
  simp only [clearBytes, clears, Bool.false_eq_true, if_false, gradWeightsStart]
  omega

theorem gradWeightsBefore_zero (input : Run) (clears : partialsOverwrite config = false) (needed : call.needGradWeights = true)
    (partInside : part < config.tpCount) (inside : cell < call.qlen * config.numExpertsPerTok) :
    gradWeightsBefore config call input.formats (fun byte =>
      clearedPools config call input.schedule input.pools (part, byte)) cell = 0 := by
  apply read_zero
  intro byte byteInside
  apply clearedPools_zero _ _ partInside
  have room := le_align64 (call.qlen * config.numExpertsPerTok * 4)
  simp only [clearBytes, clears, needed, Bool.false_eq_true, if_false, if_true]
  omega

/-! ## The partials after the kernels -/

theorem foldl_slots (count : Nat) (skipped : Nat → Bool) (amount : Nat → ℚ) (old : ℚ) :
    (List.range count).foldl (fun current slot => if skipped slot then current else amount slot + current) old =
      old + ∑ slot ∈ Finset.range count, if skipped slot then 0 else amount slot := by
  induction count with
  | zero => simp
  | succ count induction =>
      rw [List.range_succ, List.foldl_append, induction, Finset.sum_range_succ, List.foldl_cons, List.foldl_nil]
      cases skipped count with
      | false =>
          simp only [Bool.false_eq_true, if_false]
          rw [add_comm, add_assoc]
      | true => simp

theorem scatter_cell (schedule : Schedule) (work : Work) (memory : Nat → ℚ) (pass : ℚ × Nat)
    (tokenInside : token < call.qlen) (columnInside : column < config.hiddenSize) :
    scatterToGradInput config call schedule work memory pass (token * config.hiddenSize + column) =
      memory (token * config.hiddenSize + column) + ∑ slot ∈ Finset.range config.numExpertsPerTok,
        if scatterSkips config call (token, slot) then 0
        else work.contribution pass.2 (token, slot) column * pass.1 := by
  rw [scatterToGradInput, Store.runAll_owned (schedule.order_nodup _ _) (schedule.mem_order tokenInside _)]
  · have inRow : token * config.hiddenSize ≤ token * config.hiddenSize + column ∧
        token * config.hiddenSize + column < token * config.hiddenSize + config.hiddenSize := by omega
    apply Store.run_written
    rw [scatterStore, if_pos inRow, Nat.add_sub_cancel_left, foldl_slots]
  · intro other _ different old
    apply if_neg
    intro range
    exact different (block_of_mem columnInside range.1 (by rw [Nat.add_mul, Nat.one_mul]; exact range.2))

theorem scatter_passes (schedule : Schedule) (work : Work) (passes : List (ℚ × Nat)) (memory : Nat → ℚ)
    (tokenInside : token < call.qlen) (columnInside : column < config.hiddenSize) :
    passes.foldl (scatterToGradInput config call schedule work) memory (token * config.hiddenSize + column) =
      memory (token * config.hiddenSize + column) + ∑ slot ∈ Finset.range config.numExpertsPerTok,
        if scatterSkips config call (token, slot) then 0
        else (passes.map fun pass => work.contribution pass.2 (token, slot) column * pass.1).sum := by
  induction passes generalizing memory with
  | nil => simp
  | cons pass rest induction =>
      rw [List.foldl_cons, induction, scatter_cell schedule work memory pass tokenInside columnInside, add_assoc,
        ← Finset.sum_add_distrib]
      congr 1
      apply Finset.sum_congr rfl
      intro slot _
      cases scatterSkips config call (token, slot) with
      | false => rfl
      | true => exact add_zero 0

/-- The slots that the kernel of a part passes over when it adds up the gradient
of the input. -/
def inputSkips (config : Config) (call : Call) (slot : Nat × Nat) : Bool :=
  match config.kernel with
  | .amx => scatterSkips config call slot
  | .k2 _ => skips config call slot

theorem partGradInput_cell (input : Run) (partInside : part < config.tpCount) (tokenInside : token < call.qlen)
    (columnInside : column < config.hiddenSize) :
    partGradInput config call input part (token * config.hiddenSize + column) =
      ∑ slot ∈ Finset.range config.numExpertsPerTok,
        if inputSkips config call (token, slot) then 0
        else slotGrad config (input.works part) (token, slot) column := by
  have inside := (pairIndex_lt tokenInside columnInside).trans_eq (Nat.mul_comm _ _)
  cases kernel : config.kernel with
  | amx =>
      have clears : partialsOverwrite config = false := by simp [partialsOverwrite, kernel]
      simp only [partGradInput, gradInputAfter, inputSkips, kernel]
      rw [scatter_passes _ _ _ _ tokenInside columnInside, gradInputBefore_zero input clears partInside inside,
        zero_add]
      rfl
  | k2 workspaceV2 =>
      have tokenOf : (token * config.hiddenSize + column) / config.hiddenSize = token := by
        rw [Nat.mul_comm, Nat.mul_add_div config.hiddenPositive, Nat.div_eq_of_lt columnInside, Nat.add_zero]
      have columnOf : (token * config.hiddenSize + column) % config.hiddenSize = column := by
        rw [Nat.mul_comm, Nat.mul_add_mod, Nat.mod_eq_of_lt columnInside]
      simp only [partGradInput, gradInputAfter, inputSkips, kernel]
      rw [if_pos inside, k2GradInput, tokenOf, columnOf]

theorem partGradWeights_cell (input : Run) (needed : call.needGradWeights = true) (partInside : part < config.tpCount)
    (tokenInside : token < call.qlen) (slotInside : slot < config.numExpertsPerTok) :
    partGradWeights config call input part (token * config.numExpertsPerTok + slot) =
      if skips config call (token, slot) then 0 else slotDot config (input.works part) (token, slot) := by
  have inside := (pairIndex_lt tokenInside slotInside).trans_eq (Nat.mul_comm _ _)
  have inTask : token * config.numExpertsPerTok ≤ token * config.numExpertsPerTok + slot ∧
      token * config.numExpertsPerTok + slot - token * config.numExpertsPerTok < config.numExpertsPerTok := by omega
  have zero : ∀ start : Nat → ℚ, start (token * config.numExpertsPerTok + slot) = 0 →
      Store.runAll ((input.schedule.order 5 call.qlen).map (gradWeightsStore config call (input.works part))) start
        (token * config.numExpertsPerTok + slot) =
      if skips config call (token, slot) then 0 else slotDot config (input.works part) (token, slot) := by
    intro start empty
    rw [Store.runAll_owned (input.schedule.order_nodup _ _) (input.schedule.mem_order tokenInside _)]
    · simp only [Store.run, gradWeightsStore]
      rw [if_pos inTask, Nat.add_sub_cancel_left]
      cases skips config call (token, slot) with
      | false => rfl
      | true => exact empty
    · intro other _ different old
      apply if_neg
      intro range
      exact different (block_of_mem slotInside range.1 (by rw [Nat.add_mul, Nat.one_mul]; omega))
  cases kernel : config.kernel with
  | amx =>
      have clears : partialsOverwrite config = false := by simp [partialsOverwrite, kernel]
      simp only [partGradWeights, gradWeightsAfter, kernel]
      exact zero _ (gradWeightsBefore_zero input clears needed partInside inside)
  | k2 workspaceV2 =>
      simp only [partGradWeights, gradWeightsAfter, kernel]
      exact zero _ (if_pos inside)

theorem namedParts_eq (part : Nat → ℚ) :
    namedParts config part = ∑ index ∈ Finset.range (min config.tpCount 4), part index := by
  have positive := config.tpPositive
  have cases_ : config.tpCount = 1 ∨ config.tpCount = 2 ∨ config.tpCount = 3 ∨ 4 ≤ config.tpCount := by omega
  rcases cases_ with one | two | three | more
  · simp [namedParts, one]
  · simp [namedParts, two, Finset.sum_range_succ]
  · simp [namedParts, three, Finset.sum_range_succ]
  · have second : 1 < config.tpCount := by omega
    have third : 2 < config.tpCount := by omega
    have fourth : 3 < config.tpCount := by omega
    simp [namedParts, second, third, fourth, Nat.min_eq_right more, Finset.sum_range_succ]

theorem gradInput_cell (input : Run) (output : Nat → ℚ) (tokenInside : token < call.qlen)
    (columnInside : column < config.hiddenSize) :
    gradInput config call input output (token * config.hiddenSize + column) =
      ∑ part ∈ Finset.range (min config.tpCount 4),
        partGradInput config call input part (token * config.hiddenSize + column) := by
  rw [gradInput, vectorLoops_write (by decide) (input.schedule.mem_order tokenInside 6) (Nat.le_add_right _ _)
    (Nat.add_lt_add_left columnInside _), namedParts_eq]

theorem gradWeights_cell (input : Run) (output : Nat → ℚ) (inside : cell < call.qlen * config.numExpertsPerTok) :
    gradWeights config call input output cell =
      ∑ part ∈ Finset.range (min config.tpCount 4), partGradWeights config call input part cell := by
  have taskInside : cell / 4096 < (call.qlen * config.numExpertsPerTok + 4096 - 1) / 4096 := by omega
  rw [gradWeights, vectorLoops_write (by decide) (input.schedule.mem_order taskInside 7) (by omega) (by omega),
    namedParts_eq]

/-! ## Every part is summed -/

def SumsEveryPart (config : Config) (call : Call) : Prop :=
  ∀ (input : Run) (output : Nat → ℚ), ∀ token < call.qlen,
    (∀ column < config.hiddenSize,
      gradInput config call input output (token * config.hiddenSize + column) =
        ∑ part ∈ Finset.range config.tpCount,
          partGradInput config call input part (token * config.hiddenSize + column)) ∧
    (call.needGradWeights = true → ∀ slot < config.numExpertsPerTok,
      gradWeights config call input output (token * config.numExpertsPerTok + slot) =
        ∑ part ∈ Finset.range config.tpCount,
          partGradWeights config call input part (token * config.numExpertsPerTok + slot))

/-- Only routed slots reach the partials. -/
def SkippedPairsAddNothing (config : Config) (call : Call) : Prop :=
  ∀ input : Run, ∀ part < config.tpCount, ∀ token < call.qlen,
    (∀ column < config.hiddenSize,
      partGradInput config call input part (token * config.hiddenSize + column) =
        ∑ slot ∈ Finset.range config.numExpertsPerTok,
          if skips config call (token, slot) then 0
          else slotGrad config (input.works part) (token, slot) column) ∧
    (call.needGradWeights = true → ∀ slot < config.numExpertsPerTok, skips config call (token, slot) = true →
      partGradWeights config call input part (token * config.numExpertsPerTok + slot) = 0)

def TakesNoPair (config : Config) (call : Call) : Prop :=
  ∀ token < call.qlen, ∀ slot < config.numExpertsPerTok, skips config call (token, slot) = true

/-- No skipped id turns into that of an expert with rows when it is narrowed. -/
def NarrowsToSkipped (config : Config) (call : Call) : Prop :=
  ∀ token < call.qlen, ∀ slot < config.numExpertsPerTok, skips config call (token, slot) = true →
    inputSkips config call (token, slot) = true

theorem inputSkips_of_taken (tokenInside : token < call.qlen) (slotInside : slot < config.numExpertsPerTok)
    (taken : skips config call (token, slot) = false) : inputSkips config call (token, slot) = false := by
  cases kernel : config.kernel with
  | amx =>
      have small := config.expertNumInt
      have test := taken
      simp only [skips, kernel, trainingSkips, Bool.or_eq_false_iff, decide_eq_false_iff_not] at test
      have same : narrow (slotId config call (token, slot)) = slotId config call (token, slot) :=
        narrow_eq (by omega) (by omega)
      have counted : 0 < localNum config call (slotId config call (token, slot)) := by
        apply List.countP_pos_iff.mpr
        refine ⟨(token, slot), List.mem_product.mpr ⟨List.mem_range.mpr tokenInside, List.mem_range.mpr slotInside⟩, ?_⟩
        simp [taken]
      have filled := counted.ne'
      simp only [inputSkips, kernel, scatterSkips, same, trainingSkips, Bool.or_eq_false_iff,
        decide_eq_false_iff_not, beq_eq_false_iff_ne]
      exact ⟨test, filled⟩
  | k2 workspaceV2 => simpa only [inputSkips, kernel] using taken

def probe (chosen : Nat × Nat) : Work where
  contribution := fun pass slot _ => if pass = 0 ∧ slot = chosen then 1 else 0
  gradOutput := fun _ _ => 0
  downOutput := fun _ _ => 0

def idle : Work where
  contribution := fun _ _ _ => 0
  gradOutput := fun _ _ => 0
  downOutput := fun _ _ => 0

def probeRun (works : Nat → Work) : Run where
  formats := ⟨fun _ => 0, fun _ => rfl⟩
  schedule := .inOrder
  pools := fun _ => 0
  works

theorem slotGrad_probe (config : Config) (chosen slot : Nat × Nat) (column : Nat) :
    slotGrad config (probe chosen) slot column = if slot = chosen then 1 else 0 := by
  by_cases noLora : config.loraRank = 0
  · simp [slotGrad, passScales, probe, noLora]
  · simp [slotGrad, passScales, probe, noLora]

theorem slotGrad_idle (config : Config) (slot : Nat × Nat) (column : Nat) : slotGrad config idle slot column = 0 := by
  simp [slotGrad, idle]

/-- The part sees its one contribution exactly when the test lets it through. -/
theorem probe_sum (test : Nat × Nat → Bool) (column : Nat) (slotInside : slot < config.numExpertsPerTok) :
    (∑ other ∈ Finset.range config.numExpertsPerTok, if test (token, other) then 0
      else slotGrad config (probe (token, slot)) (token, other) column) = if test (token, slot) then 0 else 1 := by
  rw [Finset.sum_eq_single slot]
  · rw [slotGrad_probe, if_pos rfl]
  · intro other _ different
    rw [slotGrad_probe, if_neg (fun same => different (Prod.ext_iff.mp same).2), ite_self]
  · intro outside
    exact absurd (Finset.mem_range.mpr slotInside) outside

theorem missing_part (more : 4 < config.tpCount) (tokenInside : token < call.qlen)
    (slotInside : slot < config.numExpertsPerTok) (taken : skips config call (token, slot) = false) :
    ¬ SumsEveryPart config call := by
  intro sums
  let works := fun part => if part = 4 then probe (token, slot) else idle
  have merged := (sums (probeRun works) (fun _ => 0) token tokenInside).1 0 config.hiddenPositive
  have idlePart {part : Nat} (inside : part < config.tpCount) (different : part ≠ 4) :
      partGradInput config call (probeRun works) part (token * config.hiddenSize + 0) = 0 := by
    rw [partGradInput_cell _ inside tokenInside config.hiddenPositive]
    apply Finset.sum_eq_zero
    intro other _
    simp only [probeRun, works, if_neg different, slotGrad_idle, ite_self]
  have fifth : partGradInput config call (probeRun works) 4 (token * config.hiddenSize + 0) = 1 := by
    rw [partGradInput_cell _ more tokenInside config.hiddenPositive]
    simp only [probeRun, works, if_true]
    rw [probe_sum _ _ slotInside, inputSkips_of_taken tokenInside slotInside taken]
    rfl
  rw [gradInput_cell _ _ tokenInside config.hiddenPositive, Finset.sum_eq_zero, Finset.sum_eq_single 4, fifth] at merged
  · exact absurd merged (by decide)
  · intro part member different
    exact idlePart (Finset.mem_range.mp member) different
  · intro outside
    exact absurd (Finset.mem_range.mpr more) outside
  · intro part member
    have inside := Finset.mem_range.mp member
    exact idlePart (by omega) (by omega)

theorem sums_of_few (few : config.tpCount ≤ 4) : SumsEveryPart config call := by
  intro input output token tokenInside
  constructor
  · intro column columnInside
    rw [gradInput_cell _ _ tokenInside columnInside, Nat.min_eq_left few]
  · intro _ slot slotInside
    have inside := (pairIndex_lt tokenInside slotInside).trans_eq (Nat.mul_comm _ _)
    rw [gradWeights_cell _ _ inside, Nat.min_eq_left few]

theorem sums_of_none (none : TakesNoPair config call) (narrows : NarrowsToSkipped config call) :
    SumsEveryPart config call := by
  intro input output token tokenInside
  have fewer : min config.tpCount 4 ≤ config.tpCount := Nat.min_le_left _ _
  constructor
  · intro column columnInside
    have zero {part : Nat} (inside : part < config.tpCount) :
        partGradInput config call input part (token * config.hiddenSize + column) = 0 := by
      rw [partGradInput_cell _ inside tokenInside columnInside]
      apply Finset.sum_eq_zero
      intro slot member
      have slotInside := Finset.mem_range.mp member
      rw [narrows token tokenInside slot slotInside (none token tokenInside slot slotInside), if_pos rfl]
    rw [gradInput_cell _ _ tokenInside columnInside, Finset.sum_eq_zero, Finset.sum_eq_zero]
    · intro part member
      exact zero (Finset.mem_range.mp member)
    · intro part member
      exact zero ((Finset.mem_range.mp member).trans_le fewer)
  · intro needed slot slotInside
    have inside := (pairIndex_lt tokenInside slotInside).trans_eq (Nat.mul_comm _ _)
    have zero {part : Nat} (partInside : part < config.tpCount) :
        partGradWeights config call input part (token * config.numExpertsPerTok + slot) = 0 := by
      rw [partGradWeights_cell _ needed partInside tokenInside slotInside, none token tokenInside slot slotInside,
        if_pos rfl]
    rw [gradWeights_cell _ _ inside, Finset.sum_eq_zero, Finset.sum_eq_zero]
    · intro part member
      exact zero (Finset.mem_range.mp member)
    · intro part member
      exact zero ((Finset.mem_range.mp member).trans_le fewer)

theorem skippedPairs_of_narrows (narrows : NarrowsToSkipped config call) : SkippedPairsAddNothing config call := by
  intro input part partInside token tokenInside
  constructor
  · intro column columnInside
    rw [partGradInput_cell _ partInside tokenInside columnInside]
    apply Finset.sum_congr rfl
    intro slot member
    have slotInside := Finset.mem_range.mp member
    cases test : skips config call (token, slot) with
    | false => rw [inputSkips_of_taken tokenInside slotInside test]
    | true => rw [narrows token tokenInside slot slotInside test]
  · intro needed slot slotInside skipped
    rw [partGradWeights_cell _ needed partInside tokenInside slotInside, skipped, if_pos rfl]

theorem narrows_of_skippedPairs (nothing : SkippedPairsAddNothing config call) : NarrowsToSkipped config call := by
  intro token tokenInside slot slotInside skipped
  have same := (nothing (probeRun fun _ => probe (token, slot)) 0 config.tpPositive token tokenInside).1 0
    config.hiddenPositive
  rw [partGradInput_cell _ config.tpPositive tokenInside config.hiddenPositive] at same
  simp only [probeRun] at same
  rw [probe_sum _ _ slotInside, probe_sum _ _ slotInside, skipped, if_pos rfl] at same
  cases test : inputSkips config call (token, slot) with
  | false =>
      rw [test] at same
      exact absurd same (by decide)
  | true => rfl

end

/-- The merges name the first four parts only.  They sum all parts exactly when
there are no more, or nothing is routed; and a skipped pair adds nothing exactly
when its narrowed id is skipped too. -/
theorem backward_sums_parts_iff (config : Config) (call : Call) :
    SumsEveryPart config call ∧ SkippedPairsAddNothing config call ↔
      (config.tpCount ≤ 4 ∨ TakesNoPair config call) ∧ NarrowsToSkipped config call := by
  constructor
  · intro ⟨sums, nothing⟩
    have narrows := narrows_of_skippedPairs nothing
    refine ⟨?_, narrows⟩
    by_cases few : config.tpCount ≤ 4
    · exact .inl few
    · right
      intro token tokenInside slot slotInside
      cases test : skips config call (token, slot) with
      | false => exact absurd sums (missing_part (by omega) tokenInside slotInside test)
      | true => rfl
  · intro ⟨small, narrows⟩
    rcases small with few | none
    · exact ⟨sums_of_few few, skippedPairs_of_narrows narrows⟩
    · exact ⟨sums_of_none none narrows, skippedPairs_of_narrows narrows⟩

def fiveParts : Config where
  expertNum := 4
  numExpertsPerTok := 1
  maxLen := 16
  hiddenSize := 64
  intermediateSize := 512
  groupSize := 32
  gpuExpertsMask := fun _ => false
  mStep := 32
  nBlock := 32
  bufferA := .bf16
  bufferC := .plain
  mStepPositive := vector_positive
  nBlockPositive := vector_positive
  hiddenPositive := hidden_positive
  intermediatePositive := by decide
  kernel := .amx
  numGpuExperts := 0
  tpCount := 5
  fullIntermediateSize := 2560
  loraRank := 8
  loraScaling := 2
  tpPositive := by decide
  divided := by decide
  expertNumInt := by decide

/-- One token routed to the first expert. -/
def oneToken : Call where
  qlen := 1
  expertIds := fun _ => 0
  activeCount := 1
  needGradWeights := true

theorem fifth_part_left_out :
    ¬ (SumsEveryPart fiveParts oneToken ∧ SkippedPairsAddNothing fiveParts oneToken) := by
  intro ⟨sums, _⟩
  have tokenInside : 0 < oneToken.qlen := by decide
  have slotInside : 0 < fiveParts.numExpertsPerTok := by decide
  have taken : skips fiveParts oneToken (0, 0) = false := by decide
  exact missing_part (by decide) tokenInside slotInside taken sums

end KtKernel.Sft.Merge
