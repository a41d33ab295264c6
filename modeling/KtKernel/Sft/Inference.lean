import Mathlib.Tactic.Ring
import KtKernel.Amx.DecodePrefill
import KtKernel.Sft.CachePaths

namespace KtKernel.Sft.Forward

open KtKernel.Data KtKernel.Amx

/-! A training forward beside the inference forward of the same instance.

The training passes compare an id with the number of GPU experts at seven
places; three of them, in the backward, read the id into an `int` and also pass
over experts without rows. -/

def computeNumGpuExperts (config : Instance) : Nat :=
  (List.range config.expertNum).foldl
    (fun count expert => if config.gpuExpertsMask expert then count + 1 else count) 0

/-- The places of a training step that test an id. -/
inductive Place where
  | count
  | scatterInput
  | merge
  | gradWeights
  | restoreInput
  | scatterGradOutput
  | scatterToGradInput
deriving DecidableEq, Repr

/-- The `m_local_num_` of the backward is that of its forward. -/
def Place.skips (config : Config) (localNum : Nat → Nat) (expertId : Int) : Place → Bool
  | .count | .scatterInput | .merge | .gradWeights =>
    trainingSkips config.expertNum config.numGpuExperts expertId
  | .restoreInput | .scatterGradOutput | .scatterToGradInput =>
    trainingSkips config.expertNum config.numGpuExperts (narrow expertId) ||
      localNum (narrow expertId).toNat == 0

def FirstOnGpu (config : Instance) : Prop :=
  ∀ expert < config.expertNum, config.gpuExpertsMask expert = decide (expert < computeNumGpuExperts config)

theorem trainingSkips_iff (config : Instance) (numGpuExperts : Nat) :
    (∀ expertId, trainingSkips config.expertNum numGpuExperts expertId = config.shouldSkipExpert expertId) ↔
      ∀ expert < config.expertNum, config.gpuExpertsMask expert = decide (expert < numGpuExperts) := by
  constructor
  · intro agrees expert inside
    have agreed := agrees expert
    rw [Bool.eq_iff_iff, shouldSkipExpert_iff] at agreed
    simp only [trainingSkips, Bool.or_eq_true, decide_eq_true_eq, Int.toNat_natCast] at agreed
    rw [Bool.eq_iff_iff, decide_eq_true_eq]
    constructor
    · intro masked
      have skipped := agreed.mpr (.inr (.inr masked))
      omega
    · intro few
      rcases agreed.mp (.inl (by omega)) with negative | large | masked
      · omega
      · omega
      · exact masked
  · intro first expertId
    rw [Bool.eq_iff_iff, shouldSkipExpert_iff]
    simp only [trainingSkips, Bool.or_eq_true, decide_eq_true_eq]
    constructor
    · intro skipped
      by_cases routed : 0 ≤ expertId ∧ expertId < config.expertNum
      · right
        right
        rw [first expertId.toNat (by omega), decide_eq_true_eq]
        omega
      · omega
    · intro skipped
      rcases skipped with negative | large | masked
      · omega
      · exact .inr large
      · by_cases routed : 0 ≤ expertId ∧ expertId < config.expertNum
        · rw [first expertId.toNat (by omega), decide_eq_true_eq] at masked
          omega
        · omega

section

variable {config : Config} {V Q O : Type} {call : Call V O}

/-- An expert that a pair is routed to has rows, so the backward finds it. -/
theorem Place.skips_eq {tables : Tables} (routed : Routed config call tables)
    (tokenInside : token < call.qlen) (slotInside : slot < call.k)
    (above : -2 ^ 31 ≤ call.expertIds (token * call.k + slot))
    (below : call.expertIds (token * call.k + slot) < 2 ^ 31) (place : Place) :
    place.skips config tables.localNum (call.expertIds (token * call.k + slot)) =
      trainingSkips config.expertNum config.numGpuExperts (call.expertIds (token * call.k + slot)) := by
  have narrowed : (trainingSkips config.expertNum config.numGpuExperts (narrow (call.expertIds (token * call.k + slot))) ||
      tables.localNum (narrow (call.expertIds (token * call.k + slot))).toNat == 0) =
        trainingSkips config.expertNum config.numGpuExperts (call.expertIds (token * call.k + slot)) := by
    rw [narrow_eq above below]
    cases skipped : trainingSkips config.expertNum config.numGpuExperts
        (call.expertIds (token * call.k + slot)) with
    | true => rfl
    | false =>
        have rows := (routed.row token tokenInside slot slotInside skipped).2
        rw [Bool.false_or, beq_eq_false_iff_ne]
        omega
  cases place with
  | count => rfl
  | scatterInput => rfl
  | merge => rfl
  | gradWeights => rfl
  | restoreInput => exact narrowed
  | scatterGradOutput => exact narrowed
  | scatterToGradInput => exact narrowed

end

/-! ## The rows -/

/-- The kernels of the inference forward in the training forward. -/
def trainingKernels {Q : Type} (kernels : Amx.Kernels Q) : Kernels ℚ Q ℚ where
  fromInput := kernels.fromInput
  gateUpGemm := kernels.gateUpGemm
  actFn := kernels.actFn
  fromGate := kernels.fromGate
  downGemm := kernels.downGemm
  setzero := 0
  fmadd := fun down weight sum => down * weight + sum

/-- `forward` of the base class: one token is a decode. -/
def inferenceForward (config : Instance) {Q : Type} (kernels : Amx.Kernels Q) (schedule : Schedule) (call : Call ℚ ℚ)
    (before : Memory Q) (token column : Nat) : ℚ :=
  if 1 < call.qlen then
    forwardPrefill config kernels schedule call.qlen call.k call.expertIds call.weights call.input before token column
  else
    forwardDecode config kernels schedule call.k call.expertIds call.weights (fun column => call.input (0, column))
      before column

theorem foldl_add (terms : Nat → ℚ) (slots : List Nat) (start : ℚ) :
    slots.foldl (fun sum slot => terms slot + sum) start = start + (slots.map terms).sum := by
  induction slots generalizing start with
  | nil => simp
  | cons slot slots induction_ =>
      rw [List.foldl_cons, induction_, List.map_cons, List.sum_cons]
      ring

section

variable {config : Config} {Q : Type} {kernels : Amx.Kernels Q} {schedule : Schedule} {call : Call ℚ ℚ}
  {state : State ℚ Q ℚ}

/-- The row of a pair is packed from the input row of its token. -/
theorem prepare_gateUpBa (within : call.qlen ≤ config.maxLen) (fewer : call.k ≤ config.numExpertsPerTok)
    (tokenInside : token < call.qlen) (slotInside : slot < call.k) (takes : Takes config call token slot) :
    let prepared := prepare config (trainingKernels kernels) schedule call state
    prepared.gateUpBa (call.expertIds (token * call.k + slot)).toNat (prepared.tables.localPos (token, slot)) =
      kernels.fromInput fun column => if column < config.hiddenSize then call.input (token, column) else 0 := by
  intro prepared
  have routed : Routed config call prepared.tables := forwardTables_routed within fewer state.tables
  obtain ⟨active, inside⟩ := routed.row token tokenInside slot slotInside takes
  change (if _ ∈ prepared.tables.expertIdMap ∧ _ < prepared.tables.localNum _ then kernels.fromInput _ else _) = _
  rw [if_pos ⟨active, inside⟩]
  congr 1
  funext column
  simp only [rowAt]
  by_cases columnInside : column < config.hiddenSize
  · rw [if_pos columnInside, if_pos columnInside]
    exact scatter_written routed tokenInside slotInside takes columnInside
  · rw [if_neg columnInside, if_neg columnInside]

/-- Where the two tests agree, a training forward writes the weighted sums of the
inference forward. -/
theorem forwardSft_row (within : call.qlen ≤ config.maxLen) (fewer : call.k ≤ config.numExpertsPerTok)
    (agrees : ∀ expertId,
      trainingSkips config.expertNum config.numGpuExperts expertId = config.shouldSkipExpert expertId)
    (tokenInside : token < call.qlen) (columnInside : column < config.hiddenSize) :
    (forwardSft config (trainingKernels kernels) schedule call false state).2 token column =
      tokenRow config.toInstance kernels call.k (fun slot => call.expertIds (token * call.k + slot))
        (fun slot => call.weights (token * call.k + slot)) (fun column => call.input (token, column)) column := by
  have routed : Routed config call (prepare config (trainingKernels kernels) schedule call state).tables :=
    forwardTables_routed within fewer state.tables
  have finished : Finished config (trainingKernels kernels) (prepare config (trainingKernels kernels) schedule call state)
      (plainPass config (trainingKernels kernels) schedule (prepare config (trainingKernels kernels) schedule call state)) :=
    plainPass_finished (prepare_inLocal within fewer)
  have plain : (forwardSft config (trainingKernels kernels) schedule call false state).2 token column =
      mergeValue config (trainingKernels kernels) call (prepare config (trainingKernels kernels) schedule call state)
        token column := merge_finished finished routed tokenInside columnInside
  have summed := foldl_add (fun slot =>
    if config.shouldSkipExpert (call.expertIds (token * call.k + slot)) then 0
    else expertRow config.toInstance kernels (call.expertIds (token * call.k + slot)).toNat
      (kernels.fromInput fun column => if column < config.hiddenSize then call.input (token, column) else 0) column *
        call.weights (token * call.k + slot)) (List.range call.k) 0
  rw [plain, tokenRow, ← zero_add (List.sum _), ← summed]
  apply List.foldl_ext
  intro sum slot member
  dsimp only
  cases skipped : trainingSkips config.expertNum config.numGpuExperts (call.expertIds (token * call.k + slot)) with
  | true =>
      rw [← agrees, skipped, if_pos rfl, if_pos rfl, zero_add]
  | false =>
      have packed : (prepare config (trainingKernels kernels) schedule call state).gateUpBa _ _ = kernels.fromInput _ :=
        prepare_gateUpBa within fewer tokenInside (List.mem_range.mp member) skipped
      rw [← agrees, skipped, if_neg (by decide), if_neg (by decide), ← packed]
      rfl

theorem inferenceForward_row {before : Memory Q} (within : call.qlen ≤ config.maxLen)
    (fewer : call.k ≤ config.numExpertsPerTok)
    (distinct : call.qlen = 1 → DistinctIds config.toInstance call.k call.expertIds)
    (tokenInside : token < call.qlen) (columnInside : column < config.hiddenSize) :
    inferenceForward config.toInstance kernels schedule call before token column =
      tokenRow config.toInstance kernels call.k (fun slot => call.expertIds (token * call.k + slot))
        (fun slot => call.weights (token * call.k + slot)) (fun column => call.input (token, column)) column := by
  by_cases many : 1 < call.qlen
  · rw [inferenceForward, if_pos many, forwardPrefill_row within fewer tokenInside columnInside]
  · have first : token = 0 := by omega
    subst first
    rw [inferenceForward, if_neg many, forwardDecode_row (distinct (by omega)) columnInside]
    simp only [Nat.zero_mul, Nat.zero_add]

end

/-- The rows of each expert as the latest saving forward left them to the backward. -/
def cachedLocalNum (state : State ℚ Q ℚ) : Nat → Nat :=
  (state.metadata (state.cacheStackTop - 1)).localNumCache

theorem forwardSft_cachedLocalNum {config : Config} {Q : Type} {kernels : Amx.Kernels Q} {schedule : Schedule}
    {call : Call ℚ ℚ} {state : State ℚ Q ℚ} (within : call.qlen ≤ config.maxLen)
    (fewer : call.k ≤ config.numExpertsPerTok) :
    cachedLocalNum (forwardSft config (trainingKernels kernels) schedule call true state).1 =
      (forwardTables config call.qlen call.k call.expertIds state.tables).localNum := by
  have inLocal : InLocal (prepare config (trainingKernels kernels) schedule call state) :=
    prepare_inLocal within fewer
  have tables : (prepare config (trainingKernels kernels) schedule call state).tables =
      forwardTables config call.qlen call.k call.expertIds state.tables := rfl
  simp only [forwardSft, if_true]
  generalize prepare config (trainingKernels kernels) schedule call state = prepared at *
  have cached : Cached config (trainingKernels kernels) prepared call (openEntry config prepared).2
      (if useDirectFullftCache config true then directPass config (trainingKernels kernels) schedule call prepared
      else savingPass config (trainingKernels kernels) schedule call prepared) := by
    split
    · exact (directPass_result inLocal.distinct call).2
    · exact (savingPass_result inLocal call).2
  rw [cachedLocalNum, cached.cacheStackTop, cached.metadata, Nat.add_sub_cancel]
  simp only [prepareCacheMetadata, Function.update_self]
  rw [tables]

/-- The training passes and the inference forward skip the same pairs exactly when
the experts on the GPU are the first ones; then a training forward that saves
nothing writes the rows of the inference forward. -/
theorem training_routes_as_inference_iff (config : Config)
    (computed : config.numGpuExperts = computeNumGpuExperts config.toInstance) :
    ((∀ expertId, trainingSkips config.expertNum config.numGpuExperts expertId = config.shouldSkipExpert expertId) ↔
      FirstOnGpu config.toInstance) ∧
    (FirstOnGpu config.toInstance → ∀ {Q : Type} (kernels : Amx.Kernels Q) (schedule other : Schedule)
      (call : Call ℚ ℚ) (state : State ℚ Q ℚ) (before : Memory Q),
      call.qlen ≤ config.maxLen → call.k ≤ config.numExpertsPerTok →
      (∀ token < call.qlen, ∀ slot < call.k,
        -2 ^ 31 ≤ call.expertIds (token * call.k + slot) → call.expertIds (token * call.k + slot) < 2 ^ 31 →
        ∀ place : Place,
          place.skips config
            (cachedLocalNum (forwardSft config (trainingKernels kernels) schedule call true state).1)
            (call.expertIds (token * call.k + slot)) =
              config.shouldSkipExpert (call.expertIds (token * call.k + slot))) ∧
      ((call.qlen = 1 → DistinctIds config.toInstance call.k call.expertIds) →
        ∀ token < call.qlen, ∀ column < config.hiddenSize,
          (forwardSft config (trainingKernels kernels) schedule call false state).2 token column =
            inferenceForward config.toInstance kernels other call before token column)) := by
  have test := trainingSkips_iff config.toInstance config.numGpuExperts
  rw [computed] at test ⊢
  refine ⟨test, ?_⟩
  intro first Q kernels schedule other call state before within fewer
  have agrees := test.mpr first
  rw [← computed] at agrees
  constructor
  · intro token tokenInside slot slotInside above below place
    have routed : Routed config call (forwardTables config call.qlen call.k call.expertIds state.tables) :=
      forwardTables_routed within fewer state.tables
    rw [forwardSft_cachedLocalNum within fewer, place.skips_eq routed tokenInside slotInside above below, agrees]
  · intro distinct token tokenInside column columnInside
    rw [forwardSft_row within fewer agrees tokenInside columnInside,
      inferenceForward_row within fewer distinct tokenInside columnInside]

theorem training_routes_as_inference_iff_two_experts :
    (forwardSft smallConfig (trainingKernels gatedKernels) Schedule.inOrder
        ⟨1, 2, fun slot => slot, fun _ => 1, fun _ => 1, 0⟩ false
        blankState).2 0 0 =
      inferenceForward smallInstance gatedKernels Schedule.inOrder
        ⟨1, 2, fun slot => slot, fun _ => 1, fun _ => 1, 0⟩ blankMemory 0 0 := by
  have small := training_routes_as_inference_iff smallConfig rfl
  have first : FirstOnGpu smallInstance := by
    unfold FirstOnGpu
    decide
  refine (small.2 first gatedKernels _ _ _ _ _ (by decide) (by decide)).2 ?_ 0 Nat.one_pos 0 (by decide)
  intro _ slot _ other _ _ _ same
  exact Int.ofNat.inj same

def secondOnGpu : Config :=
  { smallInstance with
    gpuExpertsMask := fun expert => expert == 1
    numGpuExperts := 1
    maxCacheDepth := 1
    fullWeightGrad := true
    loraRank := 0 }

theorem second_on_gpu_routes_apart :
    secondOnGpu.numGpuExperts = computeNumGpuExperts secondOnGpu.toInstance ∧
      ¬ ∀ expertId, trainingSkips secondOnGpu.expertNum secondOnGpu.numGpuExperts expertId =
        secondOnGpu.shouldSkipExpert expertId := by
  refine ⟨by decide, ?_⟩
  intro agrees
  exact absurd (agrees 0) (by decide)

end KtKernel.Sft.Forward
