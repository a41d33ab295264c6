import KtKernel.KvCache.BlockAttention

namespace KtKernel.KvCache.Attention

open KtKernel.Data

/-! The attention to the selected blocks, by `attention_layer_` and `attention_kvhead_`.

A thread keeps the result of the blocks of one head, and merges it into the result of all threads
when it goes on to another head, and when it ends.
-/

/-- A sequence and a head of the cache. -/
structure Head where
  batchId : Nat
  headId : Nat
deriving DecidableEq, Repr

/-- What the retrieval has left, with the queries and the cache of the layer. -/
structure Call where
  batchSize : Nat
  maxBlockNum : Nat
  cacheSeqlens : Nat → Nat
  blockTable : Nat → Nat → Nat → Nat
  q : Nat → ℝ
  k : Nat → Nat → Nat → ℝ
  v : Nat → Nat → Nat → ℝ

/-- `attention_layer_` reads one table for all heads. -/
def attentionLayer (call : Call) (blockTable : Nat → Nat → Nat) : Call :=
  { call with blockTable := fun batchId blockId _ => blockTable batchId blockId }

/-- `attention_kvhead_` reads a table for each head. -/
def attentionKvhead (call : Call) (blockTable : Nat → Nat → Nat → Nat) : Call :=
  { call with blockTable := blockTable }

/-- What the buffers of a thread hold when a task begins. -/
structure Scratch where
  buffer : Nat → Nat → ℝ
  mask : Nat → Nat → BitVec 8

/-- The result that a thread keeps, beside the block ids it covers. -/
structure Current (config : Config) where
  head : Head
  blocks : List Nat
  parts : Nat → LogSum (Fin config.headDim)

section Code

variable (gemm : Gemm ℝ) (config : Config) (call : Call) (scratch : Scratch)

def taskNum : Nat :=
  call.batchSize * config.kvHeadNum * call.maxBlockNum

def taskHead (taskId : Nat) : Head :=
  ⟨taskId / (config.kvHeadNum * call.maxBlockNum), taskId % (config.kvHeadNum * call.maxBlockNum) / call.maxBlockNum⟩

def taskBlock (taskId : Nat) : Nat :=
  taskId % call.maxBlockNum

def headQueries (head : Head) (place : Nat) : ℝ :=
  call.q (head.batchId * config.kvHeadNum * config.nGqa * config.headDim + head.headId * config.nGqa * config.headDim + place)

/-- The result of a block, when it is not skipped. -/
noncomputable def blockPart (taskId : Nat) : Option (Nat → LogSum (Fin config.headDim)) :=
  let head := taskHead config call taskId
  let blockId := taskBlock call taskId
  let cacheLen := call.cacheSeqlens head.batchId
  if cacheLen / config.blockLen < blockId then none
  else
    let blockIdx := call.blockTable head.batchId blockId head.headId
    let attend := fun mask => attnWithKvcacheOneBlock gemm config (headQueries config call head) (call.k head.headId blockIdx)
      (call.v head.headId blockIdx) mask (scratch.buffer taskId)
    if cacheLen / config.blockLen = blockId then
      let seqLen := cacheLen % config.blockLen
      if seqLen = 0 then none else some (attend (some (lastMask config.blockLen seqLen (scratch.mask taskId))))
    else some (attend none)

/-- A task of a thread: what the thread keeps, and what it has merged. -/
noncomputable def taskStep (state : Option (Current config) × List (Current config)) (taskId : Nat) :
    Option (Current config) × List (Current config) :=
  match blockPart gemm config call scratch taskId with
  | none => state
  | some part =>
      let fresh : Current config := ⟨taskHead config call taskId, [taskBlock call taskId], part⟩
      match state.1 with
      | none => (some fresh, state.2)
      | some cur =>
          if cur.head = fresh.head then
            (some { cur with blocks := cur.blocks ++ fresh.blocks, parts := fun i => (cur.parts i).merge (part i) }, state.2)
          else (some fresh, state.2 ++ [cur])

/-- The merges of a thread, with the last one at its end. -/
noncomputable def threadMerges (tasks : List Nat) : List (Current config) :=
  let state := tasks.foldl (taskStep gemm config call scratch) (none, [])
  state.2 ++ state.1.toList

end Code

/-- A merge under the lock of the head. -/
noncomputable def mergeHead {config : Config} (results : Head → Nat → LogSum (Fin config.headDim)) (cur : Current config) :
    Head → Nat → LogSum (Fin config.headDim) :=
  Function.update results cur.head fun i => LogSum.accumulate (1 / 1000000) (results cur.head i) (cur.parts i)

noncomputable def mergeAll {config : Config} (merges : List (Current config)) : Head → Nat → LogSum (Fin config.headDim) :=
  merges.foldl mergeHead fun _ _ => LogSum.empty

def rowHead (config : Config) (row : Nat) : Head :=
  ⟨row / (config.kvHeadNum * config.nGqa), row / config.nGqa % config.kvHeadNum⟩

/-- A row of `output` with its entry of `attn_lse`. -/
noncomputable def result {config : Config} (merges : List (Current config)) (row : Nat) : LogSum (Fin config.headDim) :=
  mergeAll merges (rowHead config row) (row % config.nGqa)

/-- The tasks in any distribution over the threads, and their merges in any order. -/
structure Run (gemm : Gemm ℝ) (config : Config) (call : Call) where
  scratch : Scratch
  threadNum : Nat
  tasks : Nat → List Nat
  assigned : ((List.range threadNum).flatMap tasks).Perm (List.range (taskNum config call))
  merges : List (Current config)
  ordered : merges.Perm ((List.range threadNum).flatMap fun thread => threadMerges gemm config call scratch (tasks thread))

/-! ## The purpose -/

section Purpose

variable (config : Config) (call : Call) (row : Nat)

def IsToken (batchId blockId j : Nat) : Prop :=
  blockId * config.blockLen + j < call.cacheSeqlens batchId

instance (batchId blockId j : Nat) : Decidable (IsToken config call batchId blockId j) :=
  Nat.decLt _ _

/-- `q.k / sqrt(head_dim)` of a query head and a token of a block. -/
noncomputable def tokenScore (blockId j : Nat) : ℝ :=
  let head := rowHead config row
  (∑ l ∈ Finset.range config.headDim, call.q (row * config.headDim + l) *
    call.k head.headId (call.blockTable head.batchId blockId head.headId) (j * config.headDim + l)) / Real.sqrt config.headDim

/-- The sum of the exponentials of the scores of the tokens of a block. -/
noncomputable def blockWeight (blockId : Nat) : ℝ :=
  ∑ j ∈ Finset.range config.blockLen,
    if IsToken config call (rowHead config row).batchId blockId j then Real.exp (tokenScore config call row blockId j) else 0

noncomputable def weight : ℝ :=
  ∑ blockId ∈ Finset.range call.maxBlockNum, blockWeight config call row blockId

/-- The values of the tokens, with the softmax of their scores. -/
noncomputable def attention (channel : Nat) : ℝ :=
  ∑ blockId ∈ Finset.range call.maxBlockNum, ∑ j ∈ Finset.range config.blockLen,
    if IsToken config call (rowHead config row).batchId blockId j then
      Real.exp (tokenScore config call row blockId j) / weight config call row *
        call.v (rowHead config row).headId (call.blockTable (rowHead config row).batchId blockId (rowHead config row).headId)
          (channel * config.blockLen + j)
    else 0

end Purpose

/-- Every query head gets the plain attention. -/
def Attends {gemm : Gemm ℝ} {config : Config} {call : Call} (run : Run gemm config call) : Prop :=
  ∀ row < call.batchSize * (config.kvHeadNum * config.nGqa),
    (result run.merges row).lse = Real.log (weight config call row) ∧
      ∀ channel, (result run.merges row).output channel = attention config call row channel

/-- The blocks that each merge for the head of a row brings, in the order of the merges. -/
def broughtBlocks {config : Config} (merges : List (Current config)) (head : Head) : List (List Nat) :=
  (merges.filter fun cur => cur.head = head).map Current.blocks

/-- For no query head, the blocks of its first merges, without the last, have weights whose sum has a
logarithm within a millionth of zero. -/
def KeepsApart {gemm : Gemm ℝ} {config : Config} {call : Call} (run : Run gemm config call) : Prop :=
  ∀ row < call.batchSize * (config.kvHeadNum * config.nGqa),
    ∀ count, 0 < count → count < (broughtBlocks run.merges (rowHead config row)).length →
      1 / 1000000 ≤ |Real.log (((broughtBlocks run.merges (rowHead config row)).take count).flatten.map (blockWeight config call row)).sum|

/-! ## Blocks -/

section Blocks

variable {gemm : Gemm ℝ} {config : Config} {call : Call} {scratch : Scratch} {taskId row : Nat}

/-- The weighted values of the tokens of a block. -/
noncomputable def blockTotal (config : Config) (call : Call) (row channel blockId : Nat) : ℝ :=
  ∑ j ∈ Finset.range config.blockLen,
    (if IsToken config call (rowHead config row).batchId blockId j then Real.exp (tokenScore config call row blockId j) else 0) *
      call.v (rowHead config row).headId (call.blockTable (rowHead config row).batchId blockId (rowHead config row).headId)
        (channel * config.blockLen + j)

theorem row_place (config : Config) (row : Nat) :
    (rowHead config row).batchId * config.kvHeadNum * config.nGqa * config.headDim + (rowHead config row).headId * config.nGqa * config.headDim +
      row % config.nGqa * config.headDim = row * config.headDim := by
  have head : row / (config.kvHeadNum * config.nGqa) * config.kvHeadNum + row / config.nGqa % config.kvHeadNum = row / config.nGqa := by
    rw [Nat.mul_comm config.kvHeadNum, ← Nat.div_div_eq_div_mul, Nat.div_add_mod']
  calc (rowHead config row).batchId * config.kvHeadNum * config.nGqa * config.headDim + (rowHead config row).headId * config.nGqa * config.headDim +
        row % config.nGqa * config.headDim
      = ((row / (config.kvHeadNum * config.nGqa) * config.kvHeadNum + row / config.nGqa % config.kvHeadNum) * config.nGqa +
          row % config.nGqa) * config.headDim := by
        rw [rowHead]
        ring
    _ = row * config.headDim := by rw [head, Nat.div_add_mod']

theorem score_row (config : Config) (call : Call) (row blockId j : Nat) :
    score config (headQueries config call (rowHead config row))
      (call.k (rowHead config row).headId (call.blockTable (rowHead config row).batchId blockId (rowHead config row).headId)) (row % config.nGqa) j =
        tokenScore config call row blockId j := by
  have place := row_place config row
  rw [score, tokenScore]
  congr 1
  apply Finset.sum_congr rfl
  intro l _
  rw [headQueries, ← Nat.add_assoc, place]

theorem isToken_iff (config : Config) (call : Call) (batchId blockId : Nat) {j : Nat} (inside : j < config.blockLen) :
    IsToken config call batchId blockId j ↔ blockId < call.cacheSeqlens batchId / config.blockLen ∨
      blockId = call.cacheSeqlens batchId / config.blockLen ∧ j < call.cacheSeqlens batchId % config.blockLen := by
  have split := Nat.div_add_mod' (call.cacheSeqlens batchId) config.blockLen
  have small := Nat.mod_lt (call.cacheSeqlens batchId) config.tokens
  rw [IsToken]
  rcases Nat.lt_trichotomy blockId (call.cacheSeqlens batchId / config.blockLen) with less | same | more
  · have gap : (blockId + 1) * config.blockLen ≤ call.cacheSeqlens batchId / config.blockLen * config.blockLen := Nat.mul_le_mul_right _ less
    rw [Nat.add_mul, Nat.one_mul] at gap
    omega
  · rw [same]
    omega
  · have gap : (call.cacheSeqlens batchId / config.blockLen + 1) * config.blockLen ≤ blockId * config.blockLen := Nat.mul_le_mul_right _ more
    rw [Nat.add_mul, Nat.one_mul] at gap
    omega

theorem blockWeight_skipped (skipped : blockPart gemm config call scratch taskId = none) (own : taskHead config call taskId = rowHead config row) :
    blockWeight config call row (taskBlock call taskId) = 0 := by
  apply Finset.sum_eq_zero
  intro j inside
  rw [← own, if_neg]
  rw [isToken_iff config call _ _ (Finset.mem_range.mp inside)]
  simp only [blockPart] at skipped
  split at skipped
  · omega
  split at skipped
  · split at skipped
    · omega
    · cases skipped
  · cases skipped

theorem blockPart_sums (exact_ : gemm.Exact) (done : blockPart gemm config call scratch taskId = some part)
    (own : taskHead config call taskId = rowHead config row) (inGroup : 0 < config.nGqa) :
    (part (row % config.nGqa)).weight = blockWeight config call row (taskBlock call taskId) ∧
      ∀ channel, (part (row % config.nGqa)).total channel = blockTotal config call row channel (taskBlock call taskId) := by
  have inside := Nat.mod_lt row inGroup
  -- Whatever the mask is, it leaves the tokens of the block and there is one.
  have sums : ∀ mask, (∀ j < config.blockLen,
      (isMasked mask j = true ↔ ¬ IsToken config call (rowHead config row).batchId (taskBlock call taskId) j)) →
      (∃ j < config.blockLen, IsToken config call (rowHead config row).batchId (taskBlock call taskId) j) →
      (fun i => attnWithKvcacheOneBlock gemm config (headQueries config call (rowHead config row))
        (call.k (rowHead config row).headId (call.blockTable (rowHead config row).batchId (taskBlock call taskId) (rowHead config row).headId))
        (call.v (rowHead config row).headId (call.blockTable (rowHead config row).batchId (taskBlock call taskId) (rowHead config row).headId))
        mask (scratch.buffer taskId) i) = part →
      (part (row % config.nGqa)).weight = blockWeight config call row (taskBlock call taskId) ∧
        ∀ channel, (part (row % config.nGqa)).total channel = blockTotal config call row channel (taskBlock call taskId) := by
    rintro mask leaves ⟨j, inBlock, token⟩ rfl
    have shown : ∃ j < config.blockLen, isMasked mask j = false := by
      refine ⟨j, inBlock, ?_⟩
      rw [← Bool.not_eq_true, leaves j inBlock, not_not]
      exact token
    have scores : ∀ j ∈ Finset.range config.blockLen, (if isMasked mask j then (0 : ℝ) else
        Real.exp (score config (headQueries config call (rowHead config row))
          (call.k (rowHead config row).headId (call.blockTable (rowHead config row).batchId (taskBlock call taskId) (rowHead config row).headId))
          (row % config.nGqa) j)) =
        if IsToken config call (rowHead config row).batchId (taskBlock call taskId) j then
          Real.exp (tokenScore config call row (taskBlock call taskId) j) else 0 := by
      intro j inBlock
      rw [score_row]
      by_cases isToken : IsToken config call (rowHead config row).batchId (taskBlock call taskId) j
      · rw [if_pos isToken, if_neg (by rw [leaves j (Finset.mem_range.mp inBlock), not_not]; exact isToken)]
      · rw [if_neg isToken, if_pos ((leaves j (Finset.mem_range.mp inBlock)).mpr isToken)]
    obtain ⟨weight, total⟩ := oneBlock_sums exact_ (scratch.buffer taskId) inside shown
    refine ⟨weight.trans (Finset.sum_congr rfl scores), ?_⟩
    intro channel
    refine (total channel).trans (Finset.sum_congr rfl ?_)
    intro j inBlock
    rw [scores j inBlock]
  simp only [blockPart, own] at done
  split at done
  · cases done
  rename_i notAfter
  split at done
  · rename_i last
    split at done
    · cases done
    · rename_i some_
      apply sums _ _ _ (Option.some.inj done)
      · intro j inBlock
        rw [isMasked, masked_lastMask (Nat.dvd_trans (by decide) config.groups) inBlock, decide_eq_true_iff, isToken_iff config call _ _ inBlock]
        omega
      · refine ⟨0, config.tokens, ?_⟩
        rw [isToken_iff config call _ _ config.tokens]
        omega
  · rename_i before
    apply sums none _ _ (Option.some.inj done)
    · intro j inBlock
      rw [isMasked, isToken_iff config call _ _ inBlock]
      simp only [Bool.false_eq_true, false_iff, not_not]
      omega
    · refine ⟨0, config.tokens, ?_⟩
      rw [isToken_iff config call _ _ config.tokens]
      omega

end Blocks

/-! ## Threads -/

section Threads

variable (gemm : Gemm ℝ) (config : Config) (call : Call) (scratch : Scratch) (head : Head)

noncomputable def shownBlocks (taskId : Nat) : List Nat :=
  if taskHead config call taskId = head ∧ (blockPart gemm config call scratch taskId).isSome then [taskBlock call taskId] else []

def coveredBlocks {config : Config} (head : Head) (results : List (Current config)) : List Nat :=
  (results.filter fun cur => cur.head = head).flatMap Current.blocks

variable {config} in
theorem coveredBlocks_append (first second : List (Current config)) :
    coveredBlocks head (first ++ second) = coveredBlocks head first ++ coveredBlocks head second := by
  rw [coveredBlocks, List.filter_append, List.flatMap_append, coveredBlocks, coveredBlocks]

variable {config} in
theorem coveredBlocks_single (cur : Current config) : coveredBlocks head [cur] = if cur.head = head then cur.blocks else [] := by
  by_cases own : cur.head = head
  · rw [coveredBlocks, List.filter_cons_of_pos (by rwa [decide_eq_true_iff]), List.filter_nil, List.flatMap_singleton, if_pos own]
  · rw [coveredBlocks, List.filter_cons_of_neg (by rwa [decide_eq_true_iff]), List.filter_nil, List.flatMap_nil, if_neg own]

/-- What a thread has merged, and what it keeps. -/
def allResults {config : Config} (state : Option (Current config) × List (Current config)) : List (Current config) :=
  state.2 ++ state.1.toList

theorem taskStep_covered (state : Option (Current config) × List (Current config)) (taskId : Nat) :
    coveredBlocks head (allResults (taskStep gemm config call scratch state taskId)) =
      coveredBlocks head (allResults state) ++ shownBlocks gemm config call scratch head taskId := by
  obtain ⟨kept, merged⟩ := state
  cases done : blockPart gemm config call scratch taskId with
  | none => simp only [taskStep, done, shownBlocks, Option.isSome_none, Bool.false_eq_true, and_false, if_false, List.append_nil]
  | some part =>
      cases kept with
      | none =>
          simp only [taskStep, done, shownBlocks, allResults, Option.toList, coveredBlocks_append, coveredBlocks_single,
            Option.isSome_some, and_true, List.append_nil]
      | some cur =>
          simp only [taskStep, done]
          by_cases same : cur.head = taskHead config call taskId
          · rw [if_pos same]
            simp only [shownBlocks, done, allResults, Option.toList, coveredBlocks_append, coveredBlocks_single, Option.isSome_some, and_true,
              List.append_assoc]
            congr 1
            rw [same]
            by_cases own : taskHead config call taskId = head
            · rw [if_pos own, if_pos own, if_pos own]
            · rw [if_neg own, if_neg own, if_neg own]
              rfl
          · rw [if_neg same]
            simp only [shownBlocks, done, allResults, Option.toList, coveredBlocks_append, coveredBlocks_single, Option.isSome_some, and_true]

theorem threadMerges_covered (tasks : List Nat) :
    coveredBlocks head (threadMerges gemm config call scratch tasks) = tasks.flatMap (shownBlocks gemm config call scratch head) := by
  have run : ∀ state : Option (Current config) × List (Current config),
      coveredBlocks head (allResults (tasks.foldl (taskStep gemm config call scratch) state)) =
        coveredBlocks head (allResults state) ++ tasks.flatMap (shownBlocks gemm config call scratch head) := by
    induction tasks with
    | nil =>
        intro state
        rw [List.foldl_nil, List.flatMap_nil, List.append_nil]
    | cons taskId rest induction =>
        intro state
        rw [List.foldl_cons, induction, taskStep_covered, List.flatMap_cons, List.append_assoc]
  exact run (none, [])

/-- A result has the weight and the weighted values of the tokens of its blocks. -/
structure Genuine {config : Config} (call : Call) (cur : Current config) : Prop where
  weight : ∀ row, rowHead config row = cur.head → (cur.parts (row % config.nGqa)).weight = (cur.blocks.map (blockWeight config call row)).sum
  total : ∀ row, rowHead config row = cur.head → ∀ channel,
    (cur.parts (row % config.nGqa)).total channel = (cur.blocks.map (blockTotal config call row channel)).sum

variable {gemm} {config} {call} {scratch}

theorem taskStep_genuine (exact_ : gemm.Exact) (inGroup : 0 < config.nGqa) {state : Option (Current config) × List (Current config)}
    (genuine : ∀ cur ∈ allResults state, Genuine call cur) (taskId : Nat) :
    ∀ cur ∈ allResults (taskStep gemm config call scratch state taskId), Genuine call cur := by
  obtain ⟨kept, merged⟩ := state
  cases done : blockPart gemm config call scratch taskId with
  | none =>
      simp only [taskStep, done]
      exact genuine
  | some part =>
      have single : Genuine call (⟨taskHead config call taskId, [taskBlock call taskId], part⟩ : Current config) := by
        constructor
        · intro row own
          rw [List.map_singleton, List.sum_singleton]
          exact (blockPart_sums exact_ done own.symm inGroup).1
        · intro row own channel
          rw [List.map_singleton, List.sum_singleton]
          exact (blockPart_sums exact_ done own.symm inGroup).2 channel
      cases kept with
      | none =>
          simp only [taskStep, done, allResults, Option.toList, List.mem_append, List.mem_singleton]
          rintro cur (old | rfl)
          · exact genuine cur (List.mem_append_left _ old)
          · exact single
      | some before =>
          have ofBefore : Genuine call before := genuine before (List.mem_append_right _ (List.mem_singleton.mpr rfl))
          simp only [taskStep, done]
          by_cases same : before.head = taskHead config call taskId
          · rw [if_pos same]
            simp only [allResults, Option.toList, List.mem_append, List.mem_singleton]
            rintro cur (old | rfl)
            · exact genuine cur (List.mem_append_left _ old)
            · constructor
              · intro row own
                dsimp only
                rw [LogSum.weight_merge, ofBefore.weight row own, single.weight row (own.trans same), List.map_append, List.sum_append]
              · intro row own channel
                dsimp only
                rw [LogSum.total_merge, ofBefore.total row own, single.total row (own.trans same), List.map_append, List.sum_append]
          · rw [if_neg same]
            simp only [allResults, Option.toList, List.mem_append, List.mem_singleton]
            rintro cur ((old | rfl) | rfl)
            · exact genuine cur (List.mem_append_left _ old)
            · exact ofBefore
            · exact single

theorem threadMerges_genuine (exact_ : gemm.Exact) (inGroup : 0 < config.nGqa) (tasks : List Nat) :
    ∀ cur ∈ threadMerges gemm config call scratch tasks, Genuine call cur := by
  have run : ∀ state : Option (Current config) × List (Current config), (∀ cur ∈ allResults state, Genuine call cur) →
      ∀ cur ∈ allResults (tasks.foldl (taskStep gemm config call scratch) state), Genuine call cur := by
    induction tasks with
    | nil => exact fun state genuine => genuine
    | cons taskId rest induction => exact fun state genuine => induction _ (taskStep_genuine exact_ inGroup genuine taskId)
  apply run
  intro cur impossible
  cases impossible

end Threads

/-! ## All merges -/

theorem mergeAll_head {config : Config} (merges : List (Current config)) (head : Head) (i : Nat) :
    mergeAll merges head i = LogSum.accumulateAll (1 / 1000000) LogSum.empty
      ((merges.filter fun cur => cur.head = head).map fun cur => cur.parts i) := by
  have run : ∀ results : Head → Nat → LogSum (Fin config.headDim), merges.foldl mergeHead results head i =
      LogSum.accumulateAll (1 / 1000000) (results head i) ((merges.filter fun cur => cur.head = head).map fun cur => cur.parts i) := by
    induction merges with
    | nil => exact fun results => rfl
    | cons cur rest induction =>
        intro results
        rw [List.foldl_cons, induction]
        by_cases own : cur.head = head
        · rw [List.filter_cons_of_pos (by rwa [decide_eq_true_iff]), List.map_cons, LogSum.accumulateAll_cons, mergeHead, ← own, Function.update_self]
        · rw [List.filter_cons_of_neg (by rwa [decide_eq_true_iff]), mergeHead, Function.update_of_ne (Ne.symm own)]
  exact run _

section Runs

variable {gemm : Gemm ℝ} {config : Config} {call : Call} {row : Nat}

theorem task_place (config : Config) (unit : Nat) {blockId : Nat} (inside : blockId < call.maxBlockNum) :
    taskHead config call (unit * call.maxBlockNum + blockId) = ⟨unit / config.kvHeadNum, unit % config.kvHeadNum⟩ ∧
      taskBlock call (unit * call.maxBlockNum + blockId) = blockId := by
  have quotient : (unit * call.maxBlockNum + blockId) / call.maxBlockNum = unit := by
    rw [Nat.mul_comm, Nat.mul_add_div (Nat.zero_lt_of_lt inside), Nat.div_eq_of_lt inside, Nat.add_zero]
  constructor
  · rw [taskHead, Nat.mul_comm config.kvHeadNum, ← Nat.div_div_eq_div_mul, quotient, Nat.mod_mul_right_div_self, quotient]
  · rw [taskBlock, Nat.mul_comm, Nat.mul_add_mod, Nat.mod_eq_of_lt inside]

theorem rowHead_bounds (inRows : row < call.batchSize * (config.kvHeadNum * config.nGqa)) :
    0 < config.nGqa ∧ (rowHead config row).batchId < call.batchSize ∧ (rowHead config row).headId < config.kvHeadNum := by
  have some_ : 0 < config.kvHeadNum * config.nGqa := Nat.pos_of_mul_pos_left (Nat.zero_lt_of_lt inRows)
  refine ⟨Nat.pos_of_mul_pos_left some_, ?_, ?_⟩
  · rw [Nat.mul_comm] at inRows
    exact Nat.div_lt_of_lt_mul inRows
  · exact Nat.mod_lt _ (Nat.pos_of_mul_pos_right some_)

theorem unit_iff {unit : Nat} (head : Head) (inHeads : head.headId < config.kvHeadNum) :
    (⟨unit / config.kvHeadNum, unit % config.kvHeadNum⟩ : Head) = head ↔ unit = head.batchId * config.kvHeadNum + head.headId := by
  constructor
  · rintro rfl
    exact (Nat.div_add_mod' unit config.kvHeadNum).symm
  · rintro rfl
    rw [Nat.mul_comm, Nat.mul_add_div (Nat.zero_lt_of_lt inHeads), Nat.div_eq_of_lt inHeads, Nat.add_zero, Nat.mul_add_mod,
      Nat.mod_eq_of_lt inHeads]

theorem sum_shown (run : Run gemm config call) (inRows : row < call.batchSize * (config.kvHeadNum * config.nGqa)) (value : Nat → ℝ)
    (skipped : ∀ taskId, taskHead config call taskId = rowHead config row → blockPart gemm config call run.scratch taskId = none →
      value (taskBlock call taskId) = 0) :
    (((List.range (taskNum config call)).flatMap (shownBlocks gemm config call run.scratch (rowHead config row))).map value).sum =
      ∑ blockId ∈ Finset.range call.maxBlockNum, value blockId := by
  obtain ⟨-, inBatch, inHeads⟩ := rowHead_bounds inRows
  have each : ∀ taskId, ((shownBlocks gemm config call run.scratch (rowHead config row) taskId).map value).sum =
      if taskHead config call taskId = rowHead config row then value (taskBlock call taskId) else 0 := by
    intro taskId
    rw [shownBlocks]
    by_cases own : taskHead config call taskId = rowHead config row
    · cases done : blockPart gemm config call run.scratch taskId with
      | none =>
          rw [if_neg (by simp), if_pos own, skipped taskId own done]
          rfl
      | some part => rw [if_pos ⟨own, rfl⟩, if_pos own, List.map_singleton, List.sum_singleton]
    · rw [if_neg (fun both => own both.1), if_neg own]
      rfl
  have sums : (((List.range (taskNum config call)).flatMap (shownBlocks gemm config call run.scratch (rowHead config row))).map value).sum =
      ∑ taskId ∈ Finset.range (taskNum config call),
        if taskHead config call taskId = rowHead config row then value (taskBlock call taskId) else 0 := by
    rw [List.map_flatMap, List.flatMap, List.sum_flatten, List.map_map]
    simp only [Function.comp_def, each]
    rfl
  rw [sums, taskNum, sum_blocks]
  have units : ∀ unit ∈ Finset.range (call.batchSize * config.kvHeadNum),
      (∑ blockId ∈ Finset.range call.maxBlockNum, if taskHead config call (unit * call.maxBlockNum + blockId) = rowHead config row then
        value (taskBlock call (unit * call.maxBlockNum + blockId)) else 0) =
      if unit = (rowHead config row).batchId * config.kvHeadNum + (rowHead config row).headId then
        ∑ blockId ∈ Finset.range call.maxBlockNum, value blockId else 0 := by
    intro unit _
    by_cases own : unit = (rowHead config row).batchId * config.kvHeadNum + (rowHead config row).headId
    · rw [if_pos own]
      apply Finset.sum_congr rfl
      intro blockId inside
      obtain ⟨head, block⟩ := task_place config unit (Finset.mem_range.mp inside)
      rw [head, block, if_pos ((unit_iff _ inHeads).mpr own)]
    · rw [if_neg own]
      apply Finset.sum_eq_zero
      intro blockId inside
      obtain ⟨head, -⟩ := task_place config unit (Finset.mem_range.mp inside)
      rw [head, if_neg (mt (unit_iff _ inHeads).mp own)]
  have inUnits : (rowHead config row).batchId * config.kvHeadNum + (rowHead config row).headId < call.batchSize * config.kvHeadNum := by
    have next : ((rowHead config row).batchId + 1) * config.kvHeadNum ≤ call.batchSize * config.kvHeadNum := Nat.mul_le_mul_right _ inBatch
    rw [Nat.add_mul, Nat.one_mul] at next
    omega
  rw [Finset.sum_congr rfl units, Finset.sum_ite_eq' _ _ fun _ => ∑ blockId ∈ Finset.range call.maxBlockNum, value blockId,
    if_pos (Finset.mem_range.mpr inUnits)]

theorem merges_covered (run : Run gemm config call) (head : Head) :
    (coveredBlocks head run.merges).Perm ((List.range (taskNum config call)).flatMap (shownBlocks gemm config call run.scratch head)) := by
  have merged : (coveredBlocks head run.merges).Perm (coveredBlocks head
      ((List.range run.threadNum).flatMap fun thread => threadMerges gemm config call run.scratch (run.tasks thread))) :=
    (run.ordered.filter _).flatMap_right _
  have threads : ∀ threads : List Nat, coveredBlocks head (threads.flatMap fun thread => threadMerges gemm config call run.scratch (run.tasks thread)) =
      (threads.flatMap run.tasks).flatMap (shownBlocks gemm config call run.scratch head) := by
    intro threads
    induction threads with
    | nil => rfl
    | cons thread rest induction =>
        rw [List.flatMap_cons, coveredBlocks_append, induction, threadMerges_covered, List.flatMap_cons, List.flatMap_append]
  rw [threads] at merged
  exact merged.trans (run.assigned.flatMap_right _)

theorem merges_genuine (exact_ : gemm.Exact) (inGroup : 0 < config.nGqa) (run : Run gemm config call) : ∀ cur ∈ run.merges, Genuine call cur := by
  intro cur member
  obtain ⟨thread, -, ofThread⟩ := List.mem_flatMap.mp (run.ordered.mem_iff.mp member)
  exact threadMerges_genuine exact_ inGroup _ cur ofThread

theorem sum_map_flatten (value : Nat → ℝ) (lists : List (List Nat)) :
    (lists.flatten.map value).sum = (lists.map fun list => (list.map value).sum).sum := by
  rw [List.map_flatten, List.sum_flatten, List.map_map]
  rfl

theorem coveredBlocks_eq (merges : List (Current config)) (head : Head) : coveredBlocks head merges = (broughtBlocks merges head).flatten := by
  rw [coveredBlocks, broughtBlocks, List.flatMap]

theorem sum_brought (run : Run gemm config call) (inRows : row < call.batchSize * (config.kvHeadNum * config.nGqa)) (value : Nat → ℝ)
    (skipped : ∀ taskId, taskHead config call taskId = rowHead config row → blockPart gemm config call run.scratch taskId = none →
      value (taskBlock call taskId) = 0) :
    ((broughtBlocks run.merges (rowHead config row)).map fun blocks => (blocks.map value).sum).sum =
      ∑ blockId ∈ Finset.range call.maxBlockNum, value blockId := by
  rw [← sum_map_flatten, ← coveredBlocks_eq, ((merges_covered run (rowHead config row)).map value).sum_eq, sum_shown run inRows value skipped]

theorem blockTotal_skipped {scratch : Scratch} (skipped : blockPart gemm config call scratch taskId = none)
    (own : taskHead config call taskId = rowHead config row) (channel : Nat) : blockTotal config call row channel (taskBlock call taskId) = 0 := by
  apply Finset.sum_eq_zero
  intro j inside
  have weight := blockWeight_skipped skipped own
  rw [blockWeight, Finset.sum_eq_zero_iff_of_nonneg] at weight
  · rw [weight j inside, zero_mul]
  · intro other _
    split
    · exact (Real.exp_pos _).le
    · exact le_refl _

noncomputable def rowParts (merges : List (Current config)) (row : Nat) : List (LogSum (Fin config.headDim)) :=
  (merges.filter fun cur => cur.head = rowHead config row).map fun cur => cur.parts (row % config.nGqa)

theorem rowParts_sums (exact_ : gemm.Exact) (run : Run gemm config call) (inRows : row < call.batchSize * (config.kvHeadNum * config.nGqa)) :
    (rowParts run.merges row).map LogSum.weight =
        (broughtBlocks run.merges (rowHead config row)).map (fun blocks => (blocks.map (blockWeight config call row)).sum) ∧
      ∀ channel, (rowParts run.merges row).map (fun part => part.total channel) =
        (broughtBlocks run.merges (rowHead config row)).map fun blocks => (blocks.map (blockTotal config call row channel)).sum := by
  have genuine := merges_genuine exact_ (rowHead_bounds inRows).1 run
  constructor
  · rw [rowParts, broughtBlocks, List.map_map, List.map_map]
    apply List.map_congr_left
    intro cur member
    obtain ⟨isMerge, own⟩ := List.mem_filter.mp member
    exact (genuine cur isMerge).weight row (of_decide_eq_true own).symm
  · intro channel
    rw [rowParts, broughtBlocks, List.map_map, List.map_map]
    apply List.map_congr_left
    intro cur member
    obtain ⟨isMerge, own⟩ := List.mem_filter.mp member
    exact (genuine cur isMerge).total row (of_decide_eq_true own).symm channel

theorem attention_eq (config : Config) (call : Call) (row channel : Nat) :
    attention config call row channel =
      (∑ blockId ∈ Finset.range call.maxBlockNum, blockTotal config call row channel blockId) / weight config call row := by
  rw [attention, Finset.sum_div]
  apply Finset.sum_congr rfl
  intro blockId _
  rw [blockTotal, Finset.sum_div]
  apply Finset.sum_congr rfl
  intro j _
  by_cases token : IsToken config call (rowHead config row).batchId blockId j
  · rw [if_pos token, if_pos token, div_mul_eq_mul_div]
  · rw [if_neg token, if_neg token, zero_mul, zero_div]

theorem row_iff (exact_ : gemm.Exact) (run : Run gemm config call) (inRows : row < call.batchSize * (config.kvHeadNum * config.nGqa)) :
    ((result run.merges row).lse = Real.log (weight config call row) ∧
      ∀ channel, (result run.merges row).output channel = attention config call row channel) ↔
    ∀ count, 0 < count → count < (broughtBlocks run.merges (rowHead config row)).length →
      1 / 1000000 ≤ |Real.log (((broughtBlocks run.merges (rowHead config row)).take count).flatten.map (blockWeight config call row)).sum| := by
  obtain ⟨weights, totals⟩ := rowParts_sums exact_ run inRows
  have whole : ((rowParts run.merges row).map LogSum.weight).sum = weight config call row := by
    rw [weights, sum_brought run inRows _ fun taskId own skipped => blockWeight_skipped skipped own, weight]
  have values : ∀ channel : Fin config.headDim, ((rowParts run.merges row).map fun part => part.total channel).sum =
      ∑ blockId ∈ Finset.range call.maxBlockNum, blockTotal config call row channel blockId := by
    intro channel
    rw [totals, sum_brought run inRows _ fun taskId own skipped => blockTotal_skipped skipped own channel]
  have length : (rowParts run.merges row).length = (broughtBlocks run.merges (rowHead config row)).length := by
    rw [rowParts, broughtBlocks, List.length_map, List.length_map]
  have limit : (0 : ℝ) < 1 / 1000000 := by norm_num
  have iff_ : ((result run.merges row).lse = Real.log ((rowParts run.merges row).map LogSum.weight).sum ∧
      ∀ channel, (result run.merges row).output channel =
        ((rowParts run.merges row).map fun part => part.total channel).sum / ((rowParts run.merges row).map LogSum.weight).sum) ↔
      ∀ count, 0 < count → count < (rowParts run.merges row).length →
        1 / 1000000 ≤ |Real.log (((rowParts run.merges row).map LogSum.weight).take count).sum| := by
    rw [result, mergeAll_head]
    exact LogSum.accumulateAll_iff limit
  rw [whole, length, weights] at iff_
  simp only [values, ← attention_eq] at iff_
  rw [iff_]
  simp only [← List.map_take, ← sum_map_flatten]

/-- In both functions, every query head gets the plain attention exactly when no sum of the weights of
its first merges has a logarithm within a millionth of zero. -/
theorem attends_iff (exact_ : gemm.Exact) (call : Call) :
    (∀ table, ∀ run : Run gemm config (attentionLayer call table), Attends run ↔ KeepsApart run) ∧
      ∀ table, ∀ run : Run gemm config (attentionKvhead call table), Attends run ↔ KeepsApart run :=
  ⟨fun _ run => forall₂_congr fun _ inRows => row_iff exact_ run inRows, fun _ run => forall₂_congr fun _ inRows => row_iff exact_ run inRows⟩

end Runs

/-! Queries of zero, for one block of 32 tokens and a block with one token. -/

def zeroConfig : Config := ⟨1, 1, 32, 32, vector_positive, by decide⟩

def zeroQueries : Call where
  batchSize := 1
  maxBlockNum := 2
  cacheSeqlens _ := 33
  blockTable _ blockId _ := blockId
  q _ := 0
  k _ _ _ := 1
  v _ _ _ := 1

def blank : Scratch := ⟨fun _ _ => 0, fun _ _ => 0⟩

noncomputable def secondFirst : Run Gemm.reference zeroConfig (attentionLayer zeroQueries fun _ blockId => blockId) where
  scratch := blank
  threadNum := 2
  tasks thread := [thread]
  assigned := List.Perm.refl _
  merges := threadMerges Gemm.reference zeroConfig (attentionLayer zeroQueries fun _ blockId => blockId) blank [1] ++
    threadMerges Gemm.reference zeroConfig (attentionLayer zeroQueries fun _ blockId => blockId) blank [0]
  ordered := List.perm_append_comm

theorem attends_iff_secondFirst : Attends secondFirst ↔ KeepsApart secondFirst :=
  (attends_iff Gemm.reference_exact zeroQueries).1 (fun _ blockId => blockId) secondFirst

theorem broughtBlocks_secondFirst : broughtBlocks secondFirst.merges ⟨0, 0⟩ = [[1], [0]] := rfl

theorem not_attends : ¬ ∀ (gemm : Gemm ℝ) (config : Config) (call : Call), gemm.Exact → ∀ run : Run gemm config call, Attends run := by
  intro all
  have attends := all Gemm.reference zeroConfig _ Gemm.reference_exact secondFirst
  have inRows : 0 < (attentionLayer zeroQueries fun _ blockId => blockId).batchSize * (zeroConfig.kvHeadNum * zeroConfig.nGqa) := by decide
  have apart := (row_iff Gemm.reference_exact secondFirst inRows).mp (attends 0 inRows) 1 Nat.one_pos
  have head : rowHead zeroConfig 0 = ⟨0, 0⟩ := rfl
  have score : ∀ j, tokenScore zeroConfig (attentionLayer zeroQueries fun _ blockId => blockId) 0 1 j = 0 := by
    intro j
    simp [tokenScore, attentionLayer, zeroQueries]
  -- The block with one token has weight 1.
  have one : blockWeight zeroConfig (attentionLayer zeroQueries fun _ blockId => blockId) 0 1 = 1 := by
    simp only [blockWeight, score, Real.exp_zero]
    have token : ∀ j ∈ Finset.range zeroConfig.blockLen,
        (if IsToken zeroConfig (attentionLayer zeroQueries fun _ blockId => blockId) (rowHead zeroConfig 0).batchId 1 j then (1 : ℝ) else 0) =
          if j = 0 then 1 else 0 := by
      intro j _
      have first : IsToken zeroConfig (attentionLayer zeroQueries fun _ blockId => blockId) (rowHead zeroConfig 0).batchId 1 j ↔ j = 0 := by
        change 1 * 32 + j < 33 ↔ j = 0
        omega
      simp only [first]
    rw [Finset.sum_congr rfl token, Finset.sum_ite_eq', if_pos (Finset.mem_range.mpr zeroConfig.tokens)]
  rw [head, broughtBlocks_secondFirst] at apart
  have near := apart (by decide)
  simp only [List.take_succ_cons, List.take_zero, List.flatten_cons, List.flatten_nil, List.append_nil, List.map_singleton, List.sum_singleton,
    one, Real.log_one, abs_zero] at near
  norm_num at near

end KtKernel.KvCache.Attention
