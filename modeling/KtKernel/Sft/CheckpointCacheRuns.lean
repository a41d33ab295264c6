import KtKernel.Sft.CheckpointCache

namespace KtKernel.Sft.CheckpointCache

open KtKernel.Data

variable {T α β : Type} {state : State T} {call : LayerCall T}

/-! ## What each program does to a state -/

theorem bind_run (program : Program T α) (next : α → Program T β) (state : State T) :
    (program >>= next) state = match program state with
      | .ok value after => next value after
      | .error error after => .error error after := by
  change EStateM.bind program next state = _
  unfold EStateM.bind
  cases program state <;> rfl

theorem pure_run (value : α) (state : State T) : (pure value : Program T α) state = .ok value state := rfl

theorem change_run (update : State T → State T) (state : State T) :
    change update state = .ok () (update state) := rfl

theorem current_run (state : State T) : (current : Program T (State T)) state = .ok state state := rfl

theorem point_run (fails : Bool) (state : State T) :
    point fails state = if fails then .error () state else .ok () state := by
  cases fails <;> rfl

theorem poisonFor_run (applies : Bool) (state : State T) :
    poisonFor applies state = .ok () (if applies then poisoned state else state) := by
  cases applies <;> rfl

/-- The pending forward of a call once it is submitted. -/
def awaiting (call : LayerCall T) (state : State T) : State T :=
  { state with pending := some ⟨call.computed, call.qlen⟩ }

def delivered (state : State T) : State T :=
  { state with pending := none }

theorem submitForward_run (call : LayerCall T) (state : State T) : submitForward call state =
    if call.fails .submit then .error () state
    else if call.fails .enqueue then .error () (awaiting call state)
    else .ok () (awaiting call state) := by
  simp only [submitForward, bind_run, point_run, change_run]
  cases call.fails .submit <;> cases call.fails .enqueue <;> rfl

theorem syncForward_run (call : LayerCall T) (state : State T) : syncForward call (awaiting call state) =
    if call.fails .sync then .error () (awaiting call state)
    else if call.fails .returnOutput then .error () (delivered state)
    else .ok ⟨call.computed, call.qlen⟩ (delivered state) := by
  simp only [syncForward, bind_run, point_run, change_run, current_run, awaiting]
  cases call.fails .sync <;> cases call.fails .returnOutput <;> rfl

/-- Some step of a list raises. -/
def FailsIn (call : LayerCall T) (steps : List LayerStep) : Prop :=
  ∃ step ∈ steps, call.fails step = true

/-- The part of a call after its checks, for an action that submits. -/
def computed (call : LayerCall T) (handled : Bool) : Program T Unit := do
  point (call.fails .viewInputs)
  onError (submitForward call) (poisonFor handled)
  onError (point (call.fails .gpuExperts)) (poisonFor handled)

theorem computed_run (call : LayerCall T) (handled : Bool) (state : State T) :
    (computed call handled state = .ok () (awaiting call state) ∧
        ¬FailsIn call [.viewInputs, .submit, .enqueue, .gpuExperts]) ∨
      (computed call handled state = .error () state ∧ FailsIn call [.viewInputs]) ∨
      ∃ pending, computed call handled state =
          .error () (if handled then poisoned { state with pending := pending } else { state with pending := pending }) ∧
        FailsIn call [.submit, .enqueue, .gpuExperts] := by
  simp only [computed, bind_run, onError, submitForward_run, point_run, poisonFor_run]
  cases viewed : call.fails .viewInputs with
  | true => exact .inr (.inl ⟨by simp, .viewInputs, by simp, viewed⟩)
  | false =>
      cases submit : call.fails .submit with
      | true => exact .inr (.inr ⟨state.pending, by simp, .submit, by simp, submit⟩)
      | false =>
          cases enqueue : call.fails .enqueue with
          | true => exact .inr (.inr ⟨(awaiting call state).pending, by simp [awaiting], .enqueue, by simp, enqueue⟩)
          | false =>
              cases gpu : call.fails .gpuExperts with
              | true => exact .inr (.inr ⟨(awaiting call state).pending, by simp [awaiting], .gpuExperts, by simp, gpu⟩)
              | false => exact .inl ⟨by simp, by simp [FailsIn, viewed, submit, enqueue, gpu]⟩

/-- The result of a submitted call, by either way of waiting. -/
theorem synced_run (call : LayerCall T) (state : State T) :
    (syncForwardOutputNoAutograd call (awaiting call state) = .ok ⟨call.computed, call.qlen⟩ (delivered state) ∧
        call.fails .sync = false ∧ call.fails .returnOutput = false ∧ call.fails .reshape = false) ∨
      ∃ pending, syncForwardOutputNoAutograd call (awaiting call state) = .error () { state with pending := pending } ∧
        FailsIn call [.sync, .returnOutput, .reshape] := by
  simp only [syncForwardOutputNoAutograd, bind_run, syncForward_run, point_run, pure_run]
  cases sync : call.fails .sync with
  | true => exact .inr ⟨(awaiting call state).pending, by simp [awaiting], .sync, by simp, sync⟩
  | false =>
      cases out : call.fails .returnOutput with
      | true => exact .inr ⟨none, by simp [delivered], .returnOutput, by simp, out⟩
      | false =>
          cases reshape : call.fails .reshape with
          | true => exact .inr ⟨none, by simp [delivered], .reshape, by simp, reshape⟩
          | false => exact .inl ⟨by simp, rfl, rfl, rfl⟩

theorem FailsIn.mono {steps more : List LayerStep} (fails : FailsIn call steps) (sub : steps ⊆ more) :
    FailsIn call more := by
  obtain ⟨step, member, failed⟩ := fails
  exact ⟨step, sub member, failed⟩

theorem onError_pass (program : Program T α) (state : State T) :
    onError program (poisonFor false) state = program state := by
  rw [onError]
  cases program state <;> rfl

theorem submitAndComputeGpu_normal (normal : call.action = .normal) (state : State T) :
    submitAndComputeGpu call state =
      if call.fails .refreshBackendWeights then .error () state else computed call false state := by
  simp only [submitAndComputeGpu, normal, bind_run, point_run, computed, checkpoints]
  cases call.fails .refreshBackendWeights <;> rfl

theorem moeOutput_normal (normal : call.action = .normal) (state : State T) :
    moeOutput call state = syncForwardOutputNoAutograd call state := by
  rw [moeOutput]
  split
  · rw [functionForward, cpuOutput, normal, show checkpoints .normal = false from rfl, onError_pass]
    rfl
  · rfl

/-- A normal call touches nothing of the cache. -/
theorem layerForward_normal (normal : call.action = .normal) (state : State T) :
    (∃ output pending, layerForward call state = .ok output { state with pending := pending }) ∨
      ∃ pending, layerForward call state = .error () { state with pending := pending } ∧
        (call.fails .routing = true ∨ call.fails .refreshBackendWeights = true ∨
          FailsIn call (fromSubmit .normal) ∨ call.fails .addGpuOutput = true) := by
  simp only [layerForward, bind_run, point_run, pure_run, submitAndComputeGpu_normal normal,
    moeOutput_normal normal]
  cases routing : call.fails .routing with
  | true => exact .inr ⟨state.pending, by simp⟩
  | false =>
      cases refresh : call.fails .refreshBackendWeights with
      | true => exact .inr ⟨state.pending, by simp⟩
      | false =>
          rcases computed_run call false state with ⟨ran, -⟩ | ⟨ran, fails⟩ | ⟨pending, ran, fails⟩
          · rcases synced_run call state with ⟨synced, -⟩ | ⟨pending, synced, fails⟩
            · cases added : call.fails .addGpuOutput with
              | true => exact .inr ⟨none, by simp [ran, synced, delivered]⟩
              | false => exact .inl ⟨_, none, by simp [ran, synced, delivered, accept, change_run, normal]; rfl⟩
            · exact .inr ⟨pending, by simp [ran, synced], .inr (.inr (.inl (fails.mono (by decide))))⟩
          · exact .inr ⟨state.pending, by simp [ran], .inr (.inr (.inl (fails.mono (by decide))))⟩
          · exact .inr ⟨pending, by simp [ran], .inr (.inr (.inl (fails.mono (by decide))))⟩

/-! ## A first forward -/

/-- What a handler leaves. -/
structure Spoiled (before after : State T) : Prop where
  poisoned : after.cacheState = .poisoned
  nothing : after.outputCpu = none
  firsts : after.firsts = before.firsts

theorem validateCheckpointCacheEmpty_empty (empty : state.cacheState = .empty) (nothing : state.outputCpu = none) :
    validateCheckpointCacheEmpty state = .ok () state := by
  simp only [validateCheckpointCacheEmpty, bind_run, current_run, empty, nothing, pure_run]

theorem validateCheckpointCacheEmpty_live (live : state.cacheState ≠ .empty) :
    onError validateCheckpointCacheEmpty poisonCheckpointOutput state = .error () (poisoned state) := by
  obtain ⟨cacheState, outputCpu, outputQlen, pending, latest, firsts⟩ := state
  cases cacheState with
  | empty => contradiction
  | ready => rfl
  | poisoned => rfl

theorem layerForward_first_live (first : call.action = .cacheFirstForward) (live : state.cacheState ≠ .empty) :
    (layerForward call state = .error () state ∧
        (call.fails .routing = true ∨ call.fails .refreshBackendWeights = true)) ∨
      ∃ after, layerForward call state = .error () after ∧ Spoiled state after := by
  simp only [layerForward, bind_run, point_run, submitAndComputeGpu, first]
  cases routing : call.fails .routing with
  | true => exact .inl ⟨by simp, .inl rfl⟩
  | false =>
      cases refresh : call.fails .refreshBackendWeights with
      | true => exact .inl ⟨by simp, .inr rfl⟩
      | false =>
          refine .inr ⟨poisoned state, ?_, rfl, rfl, rfl⟩
          simp [validateCheckpointCacheEmpty_live live]

theorem cacheCheckpointOutput_empty (empty : state.cacheState = .empty) (tensor : T) (qlen : Nat) (fails : Bool) :
    cacheCheckpointOutput ⟨tensor, qlen⟩ qlen fails state =
      if fails then .error () (poisoned state) else .ok () (ready ⟨tensor, qlen⟩ qlen state) := by
  simp only [cacheCheckpointOutput, bind_run, onError, current_run, empty, pure_run, point_run, Nat.lt_irrefl,
    decide_false, change_run, poisonCheckpointOutput]
  cases fails <;> rfl

/-- The steps between the submission of a first forward and its result. -/
theorem functionForward_first (first : call.action = .cacheFirstForward) (empty : state.cacheState = .empty) :
    (functionForward call (awaiting call state) = .ok ⟨call.computed, call.qlen⟩
        (ready ⟨call.computed, call.qlen⟩ call.qlen (delivered state)) ∧
      ¬FailsIn call [.sync, .returnOutput, .keep, .toDevice, .reshape]) ∨
      ∃ after, functionForward call (awaiting call state) = .error () after ∧ Spoiled state after := by
  simp only [functionForward, cpuOutput, first, onError, bind_run, syncForward_run, point_run, checkpoints,
    poisonFor_run, pure_run, if_true]
  cases sync : call.fails .sync with
  | true => exact .inr ⟨poisoned (awaiting call state), by simp, rfl, rfl, rfl⟩
  | false =>
      cases out : call.fails .returnOutput with
      | true => exact .inr ⟨poisoned (delivered state), by simp, rfl, rfl, rfl⟩
      | false =>
          have emptied : (delivered state).cacheState = .empty := empty
          simp only [Bool.false_eq_true, if_false, cacheCheckpointOutput_empty emptied]
          cases keep : call.fails .keep with
          | true => exact .inr ⟨poisoned (delivered state), by simp [poisoned], rfl, rfl, rfl⟩
          | false =>
              cases device : call.fails .toDevice with
              | true =>
                  exact .inr ⟨poisoned (ready ⟨call.computed, call.qlen⟩ call.qlen (delivered state)), by simp,
                    rfl, rfl, rfl⟩
              | false =>
                  cases reshape : call.fails .reshape with
                  | true =>
                      exact .inr ⟨poisoned (ready ⟨call.computed, call.qlen⟩ call.qlen (delivered state)), by simp,
                        rfl, rfl, rfl⟩
                  | false => exact .inl ⟨by simp, by simp [FailsIn, sync, out, keep, device, reshape]⟩

theorem submitAndComputeGpu_first (first : call.action = .cacheFirstForward) (empty : state.cacheState = .empty)
    (nothing : state.outputCpu = none) :
    submitAndComputeGpu call state =
      if call.fails .refreshBackendWeights then .error () state else computed call true state := by
  simp only [submitAndComputeGpu, first, bind_run, point_run, computed, checkpoints, onError]
  cases call.fails .refreshBackendWeights with
  | true => rfl
  | false =>
      simp only [Bool.false_eq_true, if_false, validateCheckpointCacheEmpty_empty empty nothing]
      rfl

/-- A first forward on an empty cache stores its output, and what raises after its
checks is handled, but for the views of the inputs and the last step. -/
theorem layerForward_first_empty (first : call.action = .cacheFirstForward) (autograd : call.useAutogradPath = true)
    (empty : state.cacheState = .empty) (nothing : state.outputCpu = none) :
    (∃ output pending, layerForward call state = .ok output
        { ready ⟨call.computed, call.qlen⟩ call.qlen state with pending := pending, firsts := state.firsts + 1 }) ∨
      layerForward call state = .error () state ∨
      (∃ after, layerForward call state = .error () after ∧ Spoiled state after) ∨
      (call.fails .addGpuOutput = true ∧ call.fails .routing = false ∧
        call.fails .refreshBackendWeights = false ∧ ¬FailsIn call (fromSubmit .cacheFirstForward)) := by
  have submits := submitAndComputeGpu_first first empty nothing
  simp only [layerForward, bind_run, point_run, moeOutput, autograd, if_true]
  cases routing : call.fails .routing with
  | true => exact .inr (.inl (by simp))
  | false =>
      cases refresh : call.fails .refreshBackendWeights with
      | true => exact .inr (.inl (by simp [submits, refresh]))
      | false =>
          simp only [refresh, Bool.false_eq_true, if_false] at submits
          rcases computed_run call true state with ⟨ran, passed⟩ | ⟨ran, -⟩ | ⟨pending, ran, -⟩
          · rcases functionForward_first first empty with ⟨moved, delivers⟩ | ⟨after, moved, spoiled⟩
            · cases added : call.fails .addGpuOutput with
              | true =>
                  refine .inr (.inr (.inr ⟨rfl, rfl, rfl, ?_⟩))
                  rintro ⟨step, member, failed⟩
                  have split : step ∈ [LayerStep.viewInputs, .submit, .enqueue, .gpuExperts] ∨
                      step ∈ [LayerStep.sync, .returnOutput, .keep, .toDevice, .reshape] := by
                    simpa [fromSubmit, or_assoc] using member
                  rcases split with early | late
                  · exact passed ⟨step, early, failed⟩
                  · exact delivers ⟨step, late, failed⟩
              | false =>
                  exact .inl ⟨_, none, by
                    simp [submits, ran, moved, accept, change_run, first, ready, delivered]
                    rfl⟩
            · exact .inr (.inr (.inl ⟨after, by simp [submits, ran, moved], spoiled⟩))
          · exact .inr (.inl (by simp [submits, ran]))
          · exact .inr (.inr (.inl ⟨poisoned { state with pending := pending }, by simp [submits, ran], rfl, rfl, rfl⟩))

/-! ## A recompute -/

theorem validateCheckpointOutput_idle (idle : state.cacheState ≠ .ready) (qlen : Nat) :
    validateCheckpointOutput qlen state = .error () state := by
  obtain ⟨cacheState, outputCpu, outputQlen, pending, latest, firsts⟩ := state
  cases cacheState with
  | empty => rfl
  | ready => contradiction
  | poisoned => rfl

theorem validateCheckpointOutput_ready {output : Output T} (live : state.cacheState = .ready)
    (kept : state.outputCpu = some output) (qlen : Nat) :
    validateCheckpointOutput qlen state =
      if qlen = state.outputQlen then .ok () state else .error () (poisoned state) := by
  simp only [validateCheckpointOutput, bind_run, current_run, live, kept]
  split <;> rfl

/-- The checks before the cache is read. -/
theorem layerForward_reuse_idle (reuse : call.action = .reuseRecompute) (idle : state.cacheState ≠ .ready) :
    layerForward call state = .error () state := by
  simp only [layerForward, submitAndComputeGpu, reuse, bind_run, point_run]
  cases call.fails .routing with
  | true => rfl
  | false =>
      cases call.fails .refreshBackendWeights with
      | true => rfl
      | false =>
          cases call.fails .viewInputs with
          | true => rfl
          | false => simp [pure_run, validateCheckpointOutput_idle idle]

theorem getCheckpointOutput_ready {output : Output T} (live : state.cacheState = .ready)
    (kept : state.outputCpu = some output) (fails : Bool) :
    getCheckpointOutput state.outputQlen fails state =
      if fails then .error () (poisoned state) else .ok output state := by
  simp only [getCheckpointOutput, bind_run, validateCheckpointOutput_ready live kept, if_true, current_run, kept,
    onError, point_run]
  cases fails <;> rfl

theorem functionForward_reuse {output : Output T} (reuse : call.action = .reuseRecompute)
    (live : state.cacheState = .ready) (kept : state.outputCpu = some output) (fits : call.qlen = state.outputQlen) :
    (functionForward call state = .ok output state ∧ ¬FailsIn call [.toDevice, .reshape]) ∨
      ∃ after, functionForward call state = .error () after ∧ Spoiled state after := by
  simp only [functionForward, cpuOutput, reuse, onError, bind_run, fits, getCheckpointOutput_ready live kept,
    point_run, checkpoints, poisonFor_run, pure_run, if_true]
  cases device : call.fails .toDevice with
  | true => exact .inr ⟨poisoned (poisoned state), by simp, rfl, rfl, rfl⟩
  | false =>
      cases reshape : call.fails .reshape with
      | true => exact .inr ⟨poisoned state, by simp, rfl, rfl, rfl⟩
      | false => exact .inl ⟨by simp, by simp [FailsIn, device, reshape]⟩

/-- A recompute that returns has used the stored output, and leaves the cache as it is. -/
theorem layerForward_reuse_ready {output : Output T} (reuse : call.action = .reuseRecompute)
    (autograd : call.useAutogradPath = true) (live : state.cacheState = .ready)
    (kept : state.outputCpu = some output) :
    (call.qlen = state.outputQlen ∧ layerForward call state = .ok output state) ∨
      (∃ after, layerForward call state = .error () after ∧ Spoiled state after) ∨
      (layerForward call state = .error () state ∧
        (call.fails .routing = true ∨ call.fails .refreshBackendWeights = true ∨ call.fails .viewInputs = true ∨
          (call.qlen = state.outputQlen ∧ call.fails .addGpuOutput = true ∧
            ¬FailsIn call (fromSubmit .reuseRecompute)))) := by
  simp only [layerForward, submitAndComputeGpu, reuse, bind_run, point_run, moeOutput, autograd, if_true, pure_run,
    onError, checkpoints, poisonFor_run]
  cases routing : call.fails .routing with
  | true => exact .inr (.inr ⟨by simp, .inl rfl⟩)
  | false =>
  cases refresh : call.fails .refreshBackendWeights with
  | true => exact .inr (.inr ⟨by simp, .inr (.inl rfl)⟩)
  | false =>
  cases viewed : call.fails .viewInputs with
  | true => exact .inr (.inr ⟨by simp, .inr (.inr (.inl rfl))⟩)
  | false =>
      by_cases fits : call.qlen = state.outputQlen
      · simp only [Bool.false_eq_true, if_false, validateCheckpointOutput_ready live kept, fits, if_true]
        cases gpu : call.fails .gpuExperts with
        | true => exact .inr (.inl ⟨poisoned state, by simp, rfl, rfl, rfl⟩)
        | false =>
            rcases functionForward_reuse reuse live kept fits with ⟨moved, delivers⟩ | ⟨after, moved, spoiled⟩
            · cases added : call.fails .addGpuOutput with
              | true =>
                  refine .inr (.inr ⟨by simp [moved], .inr (.inr (.inr ⟨trivial, rfl, ?_⟩))⟩)
                  rintro ⟨step, member, failed⟩
                  rcases List.mem_cons.mp member with rfl | late
                  · simp [gpu] at failed
                  · exact delivers ⟨step, late, failed⟩
              | false => exact .inl ⟨trivial, by simp [moved, accept, change_run, reuse]⟩
            · exact .inr (.inl ⟨after, by simp [moved], spoiled⟩)
      · refine .inr (.inl ⟨poisoned state, ?_, rfl, rfl, rfl⟩)
        simp [validateCheckpointOutput_ready live kept, fits]

theorem clearCheckpointOutput_run (state : State T) : clearCheckpointOutput state = .ok () (cleared state) := rfl

theorem cpuBackward_run (backward : Backward) (state : State T) : cpuBackward backward state =
    if backward.fails .cpuBackward then
      if backward.fails .clear then .error () (if backward.retained then poisoned state else state)
      else .error () (cleared (if backward.retained then poisoned state else state))
    else if backward.fails .clear then .error () state else .ok () (cleared state) := by
  simp only [cpuBackward, andFinally, onError, bind_run, point_run, poisonFor_run, clearCheckpointOutput_run]
  cases backward.fails .cpuBackward <;> cases backward.fails .clear <;> rfl

/-- A careful backward never leaves an output behind. -/
theorem functionBackward_leaves {backward : Backward} (careful : CarefulBackward state backward) :
    ∃ after, (functionBackward backward state = .ok () after ∨ functionBackward backward state = .error () after) ∧
      (after = poisoned state ∨ after = cleared state ∨ (after = state ∧ state.cacheState ≠ .ready)) := by
  simp only [functionBackward, onError, bind_run, point_run, poisonFor_run, cpuBackward_run]
  cases recompute : backward.fails .recompute with
  | true =>
      cases retained : backward.retained with
      | true => exact ⟨poisoned state, .inr (by simp), .inl rfl⟩
      | false =>
          refine ⟨state, .inr (by simp), .inr (.inr ⟨rfl, fun live => ?_⟩)⟩
          simpa [retained] using (careful live).2.2 recompute
  | false =>
  cases viewed : backward.fails .viewGradOutput with
  | true =>
      refine ⟨state, .inr (by simp), .inr (.inr ⟨rfl, fun live => ?_⟩)⟩
      simpa [recompute] using (careful live).1 viewed
  | false =>
  cases clears : backward.fails .clear with
  | true =>
      cases computes : backward.fails .cpuBackward with
      | true =>
          cases retained : backward.retained with
          | true => exact ⟨poisoned state, .inr (by simp), .inl rfl⟩
          | false =>
              refine ⟨state, .inr (by simp), .inr (.inr ⟨rfl, fun live => ?_⟩)⟩
              simpa [retained] using (careful live).2.1 clears
      | false =>
          refine ⟨state, .inr (by simp), .inr (.inr ⟨rfl, fun live => ?_⟩)⟩
          simpa [recompute, computes] using (careful live).2.1 clears
  | false =>
      cases computes : backward.fails .cpuBackward with
      | true =>
          cases retained : backward.retained with
          | true => exact ⟨cleared (poisoned state), .inr (by simp), .inl rfl⟩
          | false => exact ⟨cleared state, .inr (by simp), .inr (.inl rfl)⟩
      | false =>
          refine ⟨cleared state, ?_, .inr (.inl rfl)⟩
          cases backward.fails .submitRepack with
          | true => exact .inr (by simp)
          | false => exact .inl (by simp)

/-! ## Runs -/

structure Inv (state : State T) : Prop where
  stored : state.cacheState = .ready ↔ state.outputCpu.isSome = true
  latest : state.cacheState = .ready → state.latest = state.outputCpu.map fun output => (output, state.outputQlen)
  once : state.firsts ≤ 1
  fresh : state.cacheState = .empty → state.firsts = 0

theorem Inv.nothing (inv : Inv state) (idle : state.cacheState ≠ .ready) : state.outputCpu = none := by
  cases kept : state.outputCpu with
  | none => rfl
  | some output => exact absurd (inv.stored.mpr (by rw [kept]; rfl)) idle

theorem Inv.keeps (inv : Inv state) (live : state.cacheState = .ready) : ∃ output, state.outputCpu = some output :=
  Option.isSome_iff_exists.mp (inv.stored.mp live)

theorem Inv.initial : Inv (initial : State T) where
  stored := by simp [CheckpointCache.initial]
  latest := by simp [CheckpointCache.initial]
  once := Nat.zero_le 1
  fresh _ := rfl

theorem Inv.ofPending (inv : Inv state) (pending : Option (Output T)) : Inv { state with pending := pending } :=
  ⟨inv.stored, inv.latest, inv.once, inv.fresh⟩

theorem Spoiled.inv {after : State T} (inv : Inv state) (spoiled : Spoiled state after) : Inv after where
  stored := by simp [spoiled.poisoned, spoiled.nothing]
  latest live := by simp [spoiled.poisoned] at live
  once := by rw [spoiled.firsts]; exact inv.once
  fresh empty := by simp [spoiled.poisoned] at empty

/-- What a careful call does. -/
inductive CallEffect (state : State T) (call : LayerCall T) : Prop where
  | passes (output : Output T) (pending : Option (Output T))
      (ran : layerForward call state = .ok output { state with pending := pending })
      (reused : call.action = .normal ∨ (call.action = .reuseRecompute ∧ state.cacheState = .ready ∧
        state.outputCpu = some output ∧ call.qlen = state.outputQlen))
  | stores (output : Output T) (pending : Option (Output T))
      (ran : layerForward call state = .ok output
        { ready ⟨call.computed, call.qlen⟩ call.qlen state with pending := pending, firsts := state.firsts + 1 })
      (first : call.action = .cacheFirstForward)
      (empty : state.cacheState = .empty)
  | spoils (after : State T) (ran : layerForward call state = .error () after) (spoiled : Spoiled state after)
  | refused (pending : Option (Output T))
      (ran : layerForward call state = .error () { state with pending := pending })
      (idle : state.cacheState ≠ .ready)

theorem callEffect_normal (normal : call.action = .normal) (careful : CarefulLayer state call) :
    CallEffect state call := by
  obtain ⟨-, checks, steps⟩ := careful
  rcases layerForward_normal normal state with ⟨output, pending, ran⟩ | ⟨pending, ran, fails⟩
  · exact .passes output pending ran (.inl normal)
  · refine .refused pending ran fun live => ?_
    rw [normal] at steps
    obtain ⟨quiet, added⟩ := steps live
    obtain ⟨routing, refresh⟩ := checks live
    rcases fails with failed | failed | ⟨step, member, failed⟩ | failed
    · simp [routing] at failed
    · simp [refresh] at failed
    · simp [quiet step member] at failed
    · simp [added] at failed

theorem callEffect_first (first : call.action = .cacheFirstForward) (inv : Inv state)
    (careful : CarefulLayer state call) : CallEffect state call := by
  obtain ⟨autograd, checks, steps⟩ := careful
  by_cases empty : state.cacheState = .empty
  · have idle : state.cacheState ≠ .ready := by simp [empty]
    rcases layerForward_first_empty first (autograd (by rw [first]; rfl)) empty (inv.nothing idle) with
      ⟨output, pending, ran⟩ | ran | ⟨after, ran, spoiled⟩ | ⟨added, routing, refresh, passed⟩
    · exact .stores output pending ran first empty
    · exact .refused state.pending ran idle
    · exact .spoils after ran spoiled
    · rw [first] at steps
      rcases steps empty added with failed | failed | failed
      · simp [routing] at failed
      · simp [refresh] at failed
      · exact absurd failed passed
  · rcases layerForward_first_live first empty with ⟨ran, fails⟩ | ⟨after, ran, spoiled⟩
    · refine .refused state.pending ran fun live => ?_
      obtain ⟨routing, refresh⟩ := checks live
      simp [routing, refresh] at fails
    · exact .spoils after ran spoiled

theorem callEffect_reuse (reuse : call.action = .reuseRecompute) (inv : Inv state)
    (careful : CarefulLayer state call) : CallEffect state call := by
  obtain ⟨autograd, checks, steps⟩ := careful
  by_cases live : state.cacheState = .ready
  · obtain ⟨output, kept⟩ := inv.keeps live
    rw [reuse] at steps
    obtain ⟨viewed, added⟩ := steps live
    obtain ⟨routing, refresh⟩ := checks live
    rcases layerForward_reuse_ready reuse (autograd (by rw [reuse]; rfl)) live kept with
      ⟨fits, ran⟩ | ⟨after, ran, spoiled⟩ | ⟨-, fails⟩
    · exact .passes output state.pending ran (.inr ⟨reuse, live, kept, fits⟩)
    · exact .spoils after ran spoiled
    · rcases fails with failed | failed | failed | ⟨fits, last, passed⟩
      · simp [routing] at failed
      · simp [refresh] at failed
      · simp [viewed] at failed
      · exact absurd (added fits last) passed
  · exact .refused state.pending (layerForward_reuse_idle reuse live) live

theorem callEffect (inv : Inv state) (careful : CarefulLayer state call) : CallEffect state call := by
  cases action : call.action with
  | normal => exact callEffect_normal action careful
  | cacheFirstForward => exact callEffect_first action inv careful
  | reuseRecompute => exact callEffect_reuse action inv careful

theorem perform_layer {output : Output T} {after : State T} (ran : layerForward call state = .ok output after) :
    perform state (.layer call) = (.returned (some output), after) := by
  rw [perform, ran]

theorem perform_layer_raised {after : State T} (ran : layerForward call state = .error () after) :
    perform state (.layer call) = (.raised, after) := by
  rw [perform, ran]

/-- A careful call uses a stored output and keeps the cache sound. -/
theorem layer_usedOnce (inv : Inv state) (careful : CarefulLayer state call) :
    UsedOnce state (.layer call) ∧ Inv (perform state (.layer call)).2 := by
  rcases callEffect inv careful with ⟨output, pending, ran, reused⟩ | ⟨output, pending, ran, first, empty⟩ |
    ⟨after, ran, spoiled⟩ | ⟨pending, ran, idle⟩
  · have performed := perform_layer ran
    have kept : Inv (perform state (.layer call)).2 := by
      rw [performed]
      exact inv.ofPending pending
    refine ⟨⟨?_, kept.stored, kept.latest, kept.once, ?_, ?_, ?_⟩, kept⟩
    · intro other used same reuse returned
      cases same
      rw [performed] at returned
      cases returned
      rcases reused with normal | ⟨-, live, stored, fits⟩
      · simp [normal] at reuse
      · rw [inv.latest live, stored, fits]
        rfl
    · intro poison
      rw [performed]
      exact poison
    · intro poison checkpointed
      rcases reused with normal | ⟨-, live, -⟩
      · simp [Action.checkpoints, normal, checkpoints] at checkpointed
      · simp [live] at poison
    · intro raises
      rw [performed] at raises
      cases raises
  · have performed := perform_layer ran
    have kept : Inv (perform state (.layer call)).2 := by
      rw [performed]
      exact ⟨by simp [ready], fun _ => by simp [ready], by simp [inv.fresh empty], fun other => by simp [ready] at other⟩
    refine ⟨⟨?_, kept.stored, kept.latest, kept.once, ?_, ?_, ?_⟩, kept⟩
    · intro other used same reuse returned
      cases same
      simp [first] at reuse
    · intro poison
      simp [empty] at poison
    · intro poison
      simp [empty] at poison
    · intro raises
      rw [performed] at raises
      cases raises
  · have performed := perform_layer_raised ran
    have kept : Inv (perform state (.layer call)).2 := by
      rw [performed]
      exact spoiled.inv inv
    refine ⟨⟨?_, kept.stored, kept.latest, kept.once, ?_, ?_, ?_⟩, kept⟩
    · intro other used same reuse returned
      rw [performed] at returned
      cases returned
    · intro _
      rw [performed]
      exact spoiled.poisoned
    · intro _ _
      rw [performed]
    · intro _
      simp [performed, spoiled.poisoned]
  · have performed := perform_layer_raised ran
    have kept : Inv (perform state (.layer call)).2 := by
      rw [performed]
      exact inv.ofPending pending
    refine ⟨⟨?_, kept.stored, kept.latest, kept.once, ?_, ?_, ?_⟩, kept⟩
    · intro other used same reuse returned
      rw [performed] at returned
      cases returned
    · intro poison
      rw [performed]
      exact poison
    · intro _ _
      rw [performed]
    · intro _
      rw [performed]
      exact idle

/-- A careful backward ends the record with no output stored. -/
theorem backward_usedOnce {backward : Backward} (inv : Inv state) (careful : CarefulBackward state backward) :
    UsedOnce state (.backward backward) ∧ Inv (perform state (.backward backward)).2 := by
  obtain ⟨after, ran, leaves⟩ := functionBackward_leaves careful
  have performed : (perform state (.backward backward)).2 = closeRecord after ∧
      ∀ used, (perform state (.backward backward)).1 ≠ .returned (some used) := by
    rcases ran with ran | ran
    · rw [perform, ran]
      exact ⟨rfl, fun used => by simp⟩
    · rw [perform, ran]
      exact ⟨rfl, fun used => by simp⟩
  have idle : after.cacheState ≠ .ready ∧ after.outputCpu = none ∧
      (state.cacheState = .poisoned → after.cacheState = .poisoned) := by
    rcases leaves with rfl | rfl | ⟨rfl, quiet⟩
    · simp [poisoned]
    · refine ⟨?_, rfl, fun poison => by simp [cleared, poison]⟩
      cases before : state.cacheState <;> simp [cleared, before]
    · exact ⟨quiet, inv.nothing quiet, id⟩
  obtain ⟨left, nothing, stays⟩ := idle
  have kept : Inv (perform state (.backward backward)).2 := by
    rw [performed.1]
    exact ⟨by simp [closeRecord, left, nothing], fun live => absurd live left, Nat.zero_le 1, fun _ => rfl⟩
  refine ⟨⟨?_, kept.stored, kept.latest, kept.once, ?_, ?_, ?_⟩, kept⟩
  · intro call used same
    cases same
  · intro poison
    rw [performed.1]
    exact stays poison
  · intro _ checkpointed
    cases checkpointed
  · intro _
    rw [performed.1]
    exact left

theorem Inv.usedOnce {action : Action T} (inv : Inv state) (careful : Careful state action) :
    UsedOnce state action ∧ Inv (perform state action).2 := by
  cases action with
  | layer call => exact layer_usedOnce inv careful
  | backward backward => exact backward_usedOnce inv careful

theorem inv_of_reachable (reached : (machine T).ReachableBy Careful state) : Inv state := by
  induction reached with
  | initial starts =>
      rw [starts]
      exact .initial
  | step _ fine moved induction =>
      cases moved
      exact (induction.usedOnce fine).2

/-- In a run of careful actions every checkpoint output is used once and never after a
failure. -/
theorem checkpoint_used_once (reached : (machine T).ReachableBy Careful state) (action : Action T)
    (careful : Careful state action) : UsedOnce state action :=
  ((inv_of_reachable reached).usedOnce careful).1

/-- A checkpointed call on eight tokens that no step of fails. -/
def sampleCall (action : CheckpointAction) : LayerCall Nat where
  action := action
  useAutogradPath := true
  qlen := 8
  computed := 5
  fails _ := false

def sampleBackward (broken : BackwardStep) : Backward where
  retained := true
  fails step := decide (step = broken)

theorem sampleCall_careful (state : State Nat) (action : CheckpointAction) :
    Careful state (.layer (sampleCall action)) := by
  cases action <;> simp [Careful, CarefulLayer, sampleCall]

theorem checkpoint_used_once_recompute :
    UsedOnce (perform initial (.layer (sampleCall .cacheFirstForward))).2 (.layer (sampleCall .reuseRecompute)) :=
  checkpoint_used_once (.step (.initial rfl) (sampleCall_careful initial .cacheFirstForward) rfl) _
    (sampleCall_careful _ .reuseRecompute)

/-- A gradient that has no view of the wanted shape: the backward raises outside its
handlers, and the stored output stays. -/
theorem view_of_gradient_keeps_output : ∃ state : State Nat, (machine Nat).Reachable state ∧
    ∃ action, ¬UsedOnce state action := by
  refine ⟨(perform initial (.layer (sampleCall .cacheFirstForward))).2, .step (.initial rfl) rfl,
    .backward (sampleBackward .viewGradOutput), fun used => ?_⟩
  exact used.spoils (by decide) (by decide)

end KtKernel.Sft.CheckpointCache
