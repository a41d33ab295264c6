import KtKernel.Amx.DecodePools
import KtKernel.Sft.DirectCache

namespace KtKernel.Sft.Forward

open KtKernel.Data KtKernel.Amx

/-! ## The routing -/

section

variable {config : Config} {V Q O : Type} {kernels : Kernels V Q O} {schedule : Schedule}
  {state : State V Q O} {call : Call V O}

/-- The instance that routes as the training passes do. -/
def Config.routing (config : Config) : Instance :=
  prefixMask config.toInstance config.numGpuExperts

theorem forwardTables_eq (qlen k : Nat) (expertIds : Nat → Int) (before : Tables) :
    forwardTables config qlen k expertIds before = prefillTables config.routing qlen k expertIds before := by
  have same : countSlot config k expertIds = Amx.countSlot config.routing k expertIds := by
    funext tables slot
    simp only [countSlot, Amx.countSlot, Config.routing]
    rw [trainingSkips_eq config.toInstance]
    rfl
  simp only [forwardTables, same]
  rfl

/-- A slot that the training passes take. -/
def Takes (config : Config) (call : Call V O) (token slot : Nat) : Prop :=
  trainingSkips config.expertNum config.numGpuExperts (call.expertIds (token * call.k + slot)) = false

theorem Takes.live (takes : Takes config call token slot) :
    Live config.routing call.k call.expertIds (token, slot) := by
  rw [Live, Config.routing, ← trainingSkips_eq config.toInstance]
  exact takes

structure Routed (config : Config) (call : Call V O) (tables : Tables) : Prop where
  distinct : tables.expertIdMap.Nodup
  placed : Placed tables
  inputs : RowsSafe config.routing call.qlen call.k call.expertIds tables.inputRow tables
  row : ∀ token < call.qlen, ∀ slot < call.k, Takes config call token slot →
    (call.expertIds (token * call.k + slot)).toNat ∈ tables.expertIdMap ∧
      tables.localPos (token, slot) < tables.localNum (call.expertIds (token * call.k + slot)).toNat

theorem forwardTables_routed (within : call.qlen ≤ config.maxLen) (fewer : call.k ≤ config.numExpertsPerTok)
    (before : Tables) : Routed config call (forwardTables config call.qlen call.k call.expertIds before) := by
  rw [forwardTables_eq]
  have safe : PrefillSafe config.routing call.qlen call.k call.expertIds
      (prefillTables config.routing call.qlen call.k call.expertIds before) := prefill_safe within fewer
  have listed := prefill_expertIdMap config.routing call.k call.expertIds call.qlen before
  generalize prefillTables config.routing call.qlen call.k call.expertIds before = tables at *
  obtain ⟨-, -, inputSafe, outputSafe⟩ := safe
  have active {expert : Nat} (member : expert ∈ tables.expertIdMap) : 0 < tables.localNum expert := by
    rw [listed, List.mem_filter, decide_eq_true_eq] at member
    exact member.2
  refine ⟨?_, ?_, inputSafe, ?_⟩
  · rw [listed]
    exact List.nodup_range.filter _
  · intro expert member other otherMember different
    exact outputSafe.2.1 expert other (active member) (active otherMember) different
  · intro token tokenInside slot slotInside takes
    have inside := outputSafe.2.2.1 (token, slot) (mem_slots tokenInside slotInside) takes.live
    refine ⟨?_, inside⟩
    rw [listed, List.mem_filter, List.mem_range, decide_eq_true_eq]
    exact ⟨(toNat_bound takes.live).1, Nat.zero_lt_of_lt inside⟩

/-! ## Scattering the input -/

theorem scatter_written {cells : Cell → V} {tables : Tables} (routed : Routed config call tables)
    (tokenInside : token < call.qlen) (slotInside : slot < call.k) (takes : Takes config call token slot)
    (columnInside : column < config.hiddenSize) :
    Store.runAll (((schedule.order 0 call.qlen).product (List.range call.k)).map
        (scatterStore config call.k call.expertIds call.input tables)) cells
        ⟨.localInput, slotRow call.k call.expertIds tables.inputRow tables (token, slot), column⟩ =
      call.input (token, column) := by
  apply Store.runAll_agreed
  · intro store inStores
    obtain ⟨⟨other, otherSlot⟩, chosen, rfl⟩ := List.mem_map.mp inStores
    obtain ⟨otherInside, otherSlotInside⟩ := List.mem_product.mp chosen
    have otherMember : (other, otherSlot) ∈ slots call.qlen call.k :=
      mem_slots (Schedule.lt_of_mem_order otherInside) (List.mem_range.mp otherSlotInside)
    simp only [scatterStore, Store.Skips]
    cases skipped : trainingSkips config.expertNum config.numGpuExperts
        (call.expertIds (other * call.k + otherSlot)) with
    | true =>
        left
        intro old
        rfl
    | false =>
        have otherTakes : Takes config call other otherSlot := skipped
        simp only [Bool.false_eq_true, if_false]
        by_cases here : slotRow call.k call.expertIds tables.inputRow tables (token, slot) =
            slotRow call.k call.expertIds tables.inputRow tables (other, otherSlot)
        · right
          intro old
          rw [if_pos ⟨trivial, here, columnInside⟩]
          have same : (token, slot) = (other, otherSlot) := by
            by_contra different
            exact routed.inputs.2.2.2 _ (mem_slots tokenInside slotInside) _ otherMember takes.live otherTakes.live
              different here
          rw [(Prod.mk.inj same).1]
        · left
          intro old
          rw [if_neg fun writes => here writes.2.1]
  · refine ⟨_, List.mem_map_of_mem (List.mem_product.mpr
      ⟨schedule.mem_order tokenInside 0, List.mem_range.mpr slotInside⟩), ?_⟩
    intro old
    have taken : trainingSkips config.expertNum config.numGpuExperts
        (call.expertIds (token * call.k + slot)) = false := takes
    simp only [scatterStore, taken, Bool.false_eq_true, if_false]
    rw [if_pos ⟨trivial, rfl, columnInside⟩]

theorem scatter_skipped {cells : Cell → V} {tables : Tables}
    (unused : ∀ token < call.qlen, ∀ slot < call.k, Takes config call token slot → ∀ column < config.hiddenSize,
      cell ≠ ⟨.localInput, slotRow call.k call.expertIds tables.inputRow tables (token, slot), column⟩) :
    Store.runAll (((schedule.order 0 call.qlen).product (List.range call.k)).map
        (scatterStore config call.k call.expertIds call.input tables)) cells cell = cells cell := by
  apply Store.runAll_skipped
  intro store inStores
  obtain ⟨⟨token, slot⟩, chosen, rfl⟩ := List.mem_map.mp inStores
  obtain ⟨tokenInside, slotInside⟩ := List.mem_product.mp chosen
  intro old
  simp only [scatterStore]
  cases skipped : trainingSkips config.expertNum config.numGpuExperts (call.expertIds (token * call.k + slot)) with
  | true => rfl
  | false =>
      simp only [Bool.false_eq_true, if_false]
      apply if_neg
      intro writes
      apply unused token (Schedule.lt_of_mem_order tokenInside) slot (List.mem_range.mp slotInside) skipped
        cell.column writes.2.2
      rw [slotRow, ← writes.2.1, ← writes.1]

/-- The order of the tasks does not matter for the local input. -/
theorem scatter_order {cells : Cell → V} {tables : Tables} {other : Schedule} (routed : Routed config call tables) :
    Store.runAll (((schedule.order 0 call.qlen).product (List.range call.k)).map
        (scatterStore config call.k call.expertIds call.input tables)) cells =
      Store.runAll (((other.order 0 call.qlen).product (List.range call.k)).map
        (scatterStore config call.k call.expertIds call.input tables)) cells := by
  funext cell
  by_cases used : ∃ token < call.qlen, ∃ slot < call.k, Takes config call token slot ∧ ∃ column < config.hiddenSize,
      cell = ⟨.localInput, slotRow call.k call.expertIds tables.inputRow tables (token, slot), column⟩
  · obtain ⟨token, tokenInside, slot, slotInside, takes, column, columnInside, rfl⟩ := used
    rw [scatter_written routed tokenInside slotInside takes columnInside,
      scatter_written routed tokenInside slotInside takes columnInside]
  · have unused : ∀ token < call.qlen, ∀ slot < call.k, Takes config call token slot → ∀ column < config.hiddenSize,
        cell ≠ ⟨.localInput, slotRow call.k call.expertIds tables.inputRow tables (token, slot), column⟩ := by
      intro token tokenInside slot slotInside takes column columnInside same
      exact used ⟨token, tokenInside, slot, slotInside, takes, column, columnInside, same⟩
    rw [scatter_skipped unused, scatter_skipped unused]

variable [Zero V]

theorem prepare_order (within : call.qlen ≤ config.maxLen) (fewer : call.k ≤ config.numExpertsPerTok)
    (schedule other : Schedule) :
    prepare config kernels schedule call state = prepare config kernels other call state := by
  have routed := forwardTables_routed within fewer state.tables
  simp only [prepare, scatterInput, carve]
  rw [scatter_order routed]

theorem prepare_inLocal (within : call.qlen ≤ config.maxLen) (fewer : call.k ≤ config.numExpertsPerTok) :
    InLocal (prepare config kernels schedule call state) := by
  have routed := forwardTables_routed within fewer state.tables
  exact ⟨routed.distinct, routed.placed, fun _ _ => rfl, fun _ => rfl⟩

/-- The merge over the down products of the prepared rows. -/
def mergeValue (config : Config) (kernels : Kernels V Q O) (call : Call V O) (prepared : State V Q O)
    (token column : Nat) : O :=
  (List.range call.k).foldl (fun sum slot =>
    let expertId := call.expertIds (token * call.k + slot)
    if trainingSkips config.expertNum config.numGpuExperts expertId then sum
    else kernels.fmadd
      (downValue config kernels prepared expertId.toNat (prepared.tables.localPos (token, slot)) column)
      (call.weights (token * call.k + slot)) sum) kernels.setzero

theorem merge_finished {final : State V Q O} (finished : Finished config kernels state final)
    (routed : Routed config call state.tables) (tokenInside : token < call.qlen)
    (columnInside : column < config.hiddenSize) :
    merge config kernels call.k call.expertIds call.weights final token column =
      mergeValue config kernels call state token column := by
  apply List.foldl_ext
  intro sum slot member
  dsimp only
  rw [finished.tables]
  cases skipped : trainingSkips config.expertNum config.numGpuExperts (call.expertIds (token * call.k + slot)) with
  | true => rfl
  | false =>
      obtain ⟨active, inside⟩ := routed.row token tokenInside slot (List.mem_range.mp member) skipped
      simp only [Bool.false_eq_true, if_false]
      rw [finished.down _ active _ inside column columnInside]

end

/-! ## The two paths -/

def Config.withoutLora (config : Config) (fullWeightGrad : Bool) : Config :=
  { config with fullWeightGrad, loraRank := 0 }

/-- Two cache entries hold the same call: the routing and, in the rows that the
call has used, the tensors. -/
structure SameEntry (config : Config) {V Q O : Type} (call : Call V O) (left right : State V Q O) : Prop where
  cacheStackTop : left.cacheStackTop = right.cacheStackTop
  metadata : left.metadata = right.metadata
  valid : left.valid = right.valid
  input : ∀ token < call.qlen, ∀ column < config.hiddenSize,
    left.cells ⟨.cache (left.cacheStackTop - 1) .input, token, column⟩ =
      right.cells ⟨.cache (left.cacheStackTop - 1) .input, token, column⟩
  intermediates : ∀ tensor, tensor = .gate ∨ tensor = .up ∨ tensor = .intermediate →
    ∀ row < cacheOffset left.tables left.tables.expertIdMap.length, ∀ column < config.intermediateSize,
      left.cells ⟨.cache (left.cacheStackTop - 1) tensor, row, column⟩ =
        right.cells ⟨.cache (left.cacheStackTop - 1) tensor, row, column⟩
  down : ∀ row < cacheOffset left.tables left.tables.expertIdMap.length, ∀ column < config.hiddenSize,
    left.cells ⟨.cache (left.cacheStackTop - 1) .down, row, column⟩ =
      right.cells ⟨.cache (left.cacheStackTop - 1) .down, row, column⟩

theorem exists_place {tables : Tables} (inside : row < cacheOffset tables tables.expertIdMap.length) :
    ∃ index < tables.expertIdMap.length, ∃ offset < tables.localNum (tables.expertIdMap.getD index 0),
      row = cacheOffset tables index + offset := by
  have length : (tables.expertIdMap.map tables.localNum).length = tables.expertIdMap.length := List.length_map _
  rw [cacheOffset_eq, ← length, pieceStart_length] at inside
  obtain ⟨index, place, above, below⟩ := exists_piece inside
  rw [length] at place
  have next := cacheOffset_succ place
  rw [← cacheOffset_eq] at above below
  exact ⟨index, place, row - cacheOffset tables index, by omega, by omega⟩

section

variable {config : Config} {V Q O : Type} [Zero V] {kernels : Kernels V Q O} {call : Call V O}

theorem Cached.sameEntry {prepared left right : State V Q O} (leftCached : Cached config kernels prepared call slot left)
    (rightCached : Cached config kernels prepared call slot right) (tables : left.tables = prepared.tables) :
    SameEntry config call left right := by
  have top : left.cacheStackTop - 1 = slot := by
    rw [leftCached.cacheStackTop]
    exact Nat.add_sub_cancel _ _
  constructor
  · rw [leftCached.cacheStackTop, rightCached.cacheStackTop]
  · rw [leftCached.metadata, rightCached.metadata]
  · rw [leftCached.valid, rightCached.valid]
  · rw [top]
    intro token tokenInside column columnInside
    rw [leftCached.input token tokenInside column columnInside, rightCached.input token tokenInside column columnInside]
  · rw [top, tables]
    intro tensor chosen row inside column columnInside
    obtain ⟨index, place, offset, offsetInside, rfl⟩ := exists_place inside
    rcases chosen with rfl | rfl | rfl
    · have leftCell := leftCached.gateUp index place offset offsetInside column columnInside false
      have rightCell := rightCached.gateUp index place offset offsetInside column columnInside false
      exact leftCell.trans rightCell.symm
    · have leftCell := leftCached.gateUp index place offset offsetInside column columnInside true
      have rightCell := rightCached.gateUp index place offset offsetInside column columnInside true
      exact leftCell.trans rightCell.symm
    · rw [leftCached.intermediate index place offset offsetInside column columnInside,
        rightCached.intermediate index place offset offsetInside column columnInside]
  · rw [top, tables]
    intro row inside column columnInside
    obtain ⟨index, place, offset, offsetInside, rfl⟩ := exists_place inside
    rw [leftCached.down index place offset offsetInside column columnInside,
      rightCached.down index place offset offsetInside column columnInside]

end

section

variable (config : Config) {V Q O : Type} (kernels : Kernels V Q O) (schedule : Schedule)

/-! The steps read neither field. -/

@[simp] theorem carve_withoutLora (full : Bool) :
    carve (V := V) (Q := Q) (O := O) (config.withoutLora full) = carve config := rfl

@[simp] theorem scatterInput_withoutLora (full : Bool) :
    scatterInput (V := V) (Q := Q) (O := O) (config.withoutLora full) schedule = scatterInput config schedule := rfl

@[simp] theorem gateUp_withoutLora (full : Bool) :
    gateUp (config.withoutLora full) kernels schedule = gateUp config kernels schedule := rfl

@[simp] theorem activate_withoutLora (full : Bool) :
    activate (config.withoutLora full) kernels schedule = activate config kernels schedule := rfl

@[simp] theorem down_withoutLora (full : Bool) :
    down (config.withoutLora full) kernels schedule = down config kernels schedule := rfl

@[simp] theorem merge_withoutLora (full : Bool) :
    merge (config.withoutLora full) kernels = merge config kernels := rfl

@[simp] theorem openEntry_withoutLora (full : Bool) :
    openEntry (V := V) (Q := Q) (O := O) (config.withoutLora full) = openEntry config := rfl

@[simp] theorem copyInputToCache_withoutLora (full : Bool) :
    copyInputToCache (V := V) (Q := Q) (O := O) (config.withoutLora full) schedule =
      copyInputToCache config schedule := rfl

@[simp] theorem saveToCache_withoutLora (full : Bool) :
    saveToCache (V := V) (Q := Q) (O := O) (config.withoutLora full) schedule = saveToCache config schedule := rfl

@[simp] theorem saveIntermediateToCache_withoutLora (full : Bool) :
    saveIntermediateToCache (V := V) (Q := Q) (O := O) (config.withoutLora full) schedule =
      saveIntermediateToCache config schedule := rfl

@[simp] theorem saveDownOutputToCache_withoutLora (full : Bool) :
    saveDownOutputToCache (V := V) (Q := Q) (O := O) (config.withoutLora full) schedule =
      saveDownOutputToCache config schedule := rfl

variable [Zero V]

@[simp] theorem packInput_withoutLora (full : Bool) :
    packInput (config.withoutLora full) kernels = packInput config kernels := rfl

@[simp] theorem packIntermediate_withoutLora (full : Bool) :
    packIntermediate (config.withoutLora full) kernels = packIntermediate config kernels := rfl

variable (call : Call V O) (state : State V Q O)

theorem forwardSft_direct :
    forwardSft (config.withoutLora true) kernels schedule call true state =
      (directPass config kernels schedule call (prepare config kernels schedule call state),
        merge config kernels call.k call.expertIds call.weights
          (directPass config kernels schedule call (prepare config kernels schedule call state))) := by
  have direct : useDirectFullftCache (config.withoutLora true) true = true := rfl
  simp only [forwardSft, direct, if_true, directPass, prepare, carve_withoutLora,
    scatterInput_withoutLora, packInput_withoutLora, gateUp_withoutLora, activate_withoutLora,
    packIntermediate_withoutLora, down_withoutLora, merge_withoutLora, openEntry_withoutLora,
    copyInputToCache_withoutLora]

theorem forwardSft_copied :
    forwardSft (config.withoutLora false) kernels schedule call true state =
      (savingPass config kernels schedule call (prepare config kernels schedule call state),
        merge config kernels call.k call.expertIds call.weights
          (savingPass config kernels schedule call (prepare config kernels schedule call state))) := by
  have copied : useDirectFullftCache (config.withoutLora false) true = false := rfl
  simp only [forwardSft, copied, Bool.false_eq_true, if_false, if_true, savingPass, prepare,
    carve_withoutLora, scatterInput_withoutLora, packInput_withoutLora,
    gateUp_withoutLora, activate_withoutLora, packIntermediate_withoutLora, down_withoutLora, merge_withoutLora,
    openEntry_withoutLora, saveToCache_withoutLora, saveIntermediateToCache_withoutLora,
    saveDownOutputToCache_withoutLora]

end

/-- With the direct cache a saving call writes the same output and leaves the same
cache entry as with the copies, whatever the orders of the tasks.  `_validate_forward_inputs`
checks the two bounds. -/
theorem direct_cache_agrees (config : Config) {V Q O : Type} [Zero V] (kernels : Kernels V Q O)
    (schedule other : Schedule) (call : Call V O) (state : State V Q O) (within : call.qlen ≤ config.maxLen)
    (fewer : call.k ≤ config.numExpertsPerTok) :
    let direct := forwardSft (config.withoutLora true) kernels schedule call true state
    let copied := forwardSft (config.withoutLora false) kernels other call true state
    (∀ token < call.qlen, ∀ column < config.hiddenSize, direct.2 token column = copied.2 token column) ∧
      SameEntry config call direct.1 copied.1 := by
  dsimp only
  have routed : Routed config call (prepare config kernels schedule call state).tables :=
    forwardTables_routed within fewer state.tables
  have inLocal : InLocal (prepare config kernels schedule call state) := prepare_inLocal within fewer
  rw [forwardSft_direct, forwardSft_copied, ← prepare_order within fewer schedule other]
  dsimp only
  generalize prepare config kernels schedule call state = prepared at routed inLocal ⊢
  have directResult : Finished config kernels prepared (directPass config kernels schedule call prepared) ∧
      Cached config kernels prepared call (openEntry config prepared).2
        (directPass config kernels schedule call prepared) := directPass_result inLocal.distinct call
  have copiedResult : Finished config kernels prepared (savingPass config kernels other call prepared) ∧
      Cached config kernels prepared call (openEntry config prepared).2
        (savingPass config kernels other call prepared) := savingPass_result inLocal call
  obtain ⟨directFinished, directCached⟩ := directResult
  obtain ⟨copiedFinished, copiedCached⟩ := copiedResult
  constructor
  · intro token tokenInside column columnInside
    rw [merge_finished directFinished routed tokenInside columnInside,
      merge_finished copiedFinished routed tokenInside columnInside]
  · exact directCached.sameEntry copiedCached directFinished.tables

/-- Two experts on the CPU and a cache of one entry. -/
def smallConfig : Config :=
  { smallInstance with
    numGpuExperts := 0
    maxCacheDepth := 1
    fullWeightGrad := true
    loraRank := 0 }

/-- Sums of small integers. -/
def integerKernels : Kernels Int Int Int where
  fromInput := fun row => row 0
  gateUpGemm := fun doUp expert packed column => if doUp then packed + column else expert * packed
  actFn := fun gate up => gate * up
  fromGate := fun row => row 1
  downGemm := fun _ packed column => packed - column
  setzero := 0
  fmadd := fun down weight sum => down * weight + sum

def blankState [Zero V] [Zero Q] : State V Q O where
  tables := blankTables
  cells := fun _ => 0
  gateUpPtr := fun doUp _ => ⟨.localGateUp doUp, 0⟩
  downPtr := fun _ => ⟨.localDown, 0⟩
  directCacheIntermediatePtrs := fun _ => ⟨.localDown, 0⟩
  gateUpBa := fun _ _ => 0
  downBa := fun _ _ => 0
  cacheStackTop := 0
  metadata := fun _ => ⟨0, 0, 0, 0, [], [], fun _ => 0, fun _ => 0, fun _ => 0⟩
  valid := fun _ => false

/-- One token routed to both experts. -/
def bothExperts : Call Int Int where
  qlen := 1
  k := 2
  expertIds := fun slot => slot
  weights := fun slot => slot + 1
  input := fun _ => 2
  seed := 1

theorem direct_cache_agrees_both_experts :
    SameEntry smallConfig bothExperts
      (forwardSft (smallConfig.withoutLora true) integerKernels Schedule.inOrder bothExperts true blankState).1
      (forwardSft (smallConfig.withoutLora false) integerKernels Schedule.inOrder bothExperts true blankState).1 :=
  (direct_cache_agrees smallConfig integerKernels Schedule.inOrder Schedule.inOrder bothExperts blankState
    (by decide) (by decide)).2

end KtKernel.Sft.Forward
