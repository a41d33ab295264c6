import KtKernel.Data.Faults
import KtKernel.Data.Machine

namespace KtKernel.Sft.CheckpointCache

open KtKernel.Data

/-! The checkpoint output cache of a wrapper in a single process.

A layer call and a `KTMoEFunction` backward are programs over the wrapper; which of
their steps raise is part of the input.  The recompute of a checkpoint runs as layer
calls before the rest of the backward that set it off. -/

inductive CacheState where
  | empty
  | ready
  | poisoned
deriving DecidableEq, Repr

/-- A tensor on the CPU with its number of rows. -/
structure Output (T : Type) where
  tensor : T
  rows : Nat
deriving DecidableEq, Repr

/-- `pending` is the forward that `submit_forward` left for `sync_forward`.  `latest` and
`firsts` are only observed: what the latest first forward stored, with its token count, and
how many first forwards have returned, both since the last backward. -/
structure State (T : Type) where
  cacheState : CacheState
  outputCpu : Option (Output T)
  outputQlen : Nat
  pending : Option (Output T)
  latest : Option (Output T × Nat)
  firsts : Nat
deriving DecidableEq

inductive CheckpointAction where
  | normal
  | cacheFirstForward
  | reuseRecompute
deriving DecidableEq, Repr

/-- Where a layer call can raise by itself. -/
inductive LayerStep where
  | routing
  | refreshBackendWeights
  | viewInputs
  | submit
  | enqueue
  | gpuExperts
  | sync
  | returnOutput
  | keep
  | toDevice
  | reshape
  | addGpuOutput
deriving DecidableEq, Repr

inductive BackwardStep where
  | recompute
  | viewGradOutput
  | cpuBackward
  | clear
  | submitRepack
deriving DecidableEq, Repr

/-- `computed` is what the CPU experts give for the inputs of the call. -/
structure LayerCall (T : Type) where
  action : CheckpointAction
  useAutogradPath : Bool
  qlen : Nat
  computed : T
  fails : LayerStep → Bool

/-- `retained` is `ctx.cache_checkpoint_forward or ctx.reuse_cached_forward`. -/
structure Backward where
  retained : Bool
  fails : BackwardStep → Bool

inductive Action (T : Type) where
  | layer (call : LayerCall T)
  | backward (backward : Backward)

section

variable {T : Type}

def Program (T α : Type) : Type :=
  EStateM Unit (State T) α

instance : Monad (Program T) :=
  inferInstanceAs (Monad (EStateM Unit (State T)))

def raise : Program T α :=
  (throw () : EStateM Unit (State T) α)

def change (update : State T → State T) : Program T Unit :=
  (modify update : EStateM Unit (State T) Unit)

def current : Program T (State T) :=
  (get : EStateM Unit (State T) (State T))

/-- A step of the call that may raise. -/
def point (fails : Bool) : Program T Unit :=
  if fails then raise else pure ()

/-- `except Exception: handler; raise`. -/
def onError (program : Program T α) (handler : Program T Unit) : Program T α := fun state =>
  match program state with
  | .ok value after => .ok value after
  | .error _ after =>
      match handler after with
      | .ok _ handled => .error () handled
      | .error _ handled => .error () handled

/-- `finally: last`. -/
def andFinally (program : Program T α) (last : Program T Unit) : Program T α := fun state =>
  match program state with
  | .ok value after =>
      match last after with
      | .ok _ done => .ok value done
      | .error _ done => .error () done
  | .error _ after =>
      match last after with
      | .ok _ done => .error () done
      | .error _ done => .error () done

/-! ## The wrapper -/

def poisoned (state : State T) : State T :=
  { state with cacheState := .poisoned, outputCpu := none, outputQlen := 0 }

def ready (output : Output T) (qlen : Nat) (state : State T) : State T :=
  { state with
    cacheState := .ready
    outputCpu := some { output with rows := qlen }
    outputQlen := qlen
    latest := some ({ output with rows := qlen }, qlen) }

def cleared (state : State T) : State T :=
  { state with
    outputCpu := none
    outputQlen := 0
    cacheState := match state.cacheState with
      | .poisoned => .poisoned
      | _ => .empty }

def poisonCheckpointOutput : Program T Unit :=
  change poisoned

def validateCheckpointOutput (qlen : Nat) : Program T Unit := do
  let state ← current
  match state.cacheState, state.outputCpu with
  | .ready, some _ =>
      if qlen = state.outputQlen then pure ()
      else do
        poisonCheckpointOutput
        raise
  | _, _ => raise

def validateCheckpointCacheEmpty : Program T Unit := do
  let state ← current
  match state.cacheState, state.outputCpu with
  | .poisoned, _ => raise
  | .empty, none => pure ()
  | _, _ => do
      poisonCheckpointOutput
      raise

/-- `fails` is `contiguous` and what else can raise about the tensor itself. -/
def cacheCheckpointOutput (output : Output T) (qlen : Nat) (fails : Bool) : Program T Unit := do
  onError (do
    let state ← current
    match state.cacheState with
    | .poisoned => validateCheckpointOutput qlen
    | _ => pure ()
    let state ← current
    match state.cacheState with
    | .empty => pure ()
    | _ => raise
    point (decide (output.rows < qlen))
    point fails) poisonCheckpointOutput
  change (ready output qlen)

def getCheckpointOutput (qlen : Nat) (fails : Bool) : Program T (Output T) := do
  validateCheckpointOutput qlen
  let state ← current
  match state.outputCpu with
  | some output =>
      onError (do
        point fails
        pure output) poisonCheckpointOutput
  | none => raise

def clearCheckpointOutput : Program T Unit :=
  change cleared

/-- `submit` raises before the call is pending, `enqueue` after. -/
def submitForward (call : LayerCall T) : Program T Unit := do
  point (call.fails .submit)
  change fun state => { state with pending := some ⟨call.computed, call.qlen⟩ }
  point (call.fails .enqueue)

def syncForward (call : LayerCall T) : Program T (Output T) := do
  let state ← current
  match state.pending with
  | none => raise
  | some output =>
      point (call.fails .sync)
      change fun state => { state with pending := none }
      point (call.fails .returnOutput)
      pure output

/-! ## The layer -/

def checkpoints : CheckpointAction → Bool
  | .normal => false
  | .cacheFirstForward => true
  | .reuseRecompute => true

/-- A handler of the actions of a checkpoint only. -/
def poisonFor (applies : Bool) : Program T Unit :=
  if applies then poisonCheckpointOutput else pure ()

def submitAndComputeGpu (call : LayerCall T) : Program T Unit := do
  point (call.fails .refreshBackendWeights)
  match call.action with
  | .cacheFirstForward => onError validateCheckpointCacheEmpty poisonCheckpointOutput
  | _ => pure ()
  point (call.fails .viewInputs)
  match call.action with
  | .reuseRecompute => validateCheckpointOutput call.qlen
  | action =>
      onError (submitForward call) (poisonFor (decide (action = .cacheFirstForward)))
  onError (point (call.fails .gpuExperts)) (poisonFor (checkpoints call.action))

def cpuOutput (call : LayerCall T) : Program T (Output T) :=
  match call.action with
  | .reuseRecompute => getCheckpointOutput call.qlen (call.fails .toDevice)
  | .cacheFirstForward => do
      let cached ← syncForward call
      cacheCheckpointOutput cached call.qlen (call.fails .keep)
      point (call.fails .toDevice)
      pure cached
  | .normal => syncForward call

/-- `KTMoEFunction.forward`. -/
def functionForward (call : LayerCall T) : Program T (Output T) :=
  onError (do
    let output ← cpuOutput call
    point (call.fails .reshape)
    pure output) (poisonFor (checkpoints call.action))

/-- `_sync_forward_output_no_autograd`. -/
def syncForwardOutputNoAutograd (call : LayerCall T) : Program T (Output T) := do
  let output ← syncForward call
  point (call.fails .reshape)
  pure output

def moeOutput (call : LayerCall T) : Program T (Output T) :=
  if call.useAutogradPath then functionForward call else syncForwardOutputNoAutograd call

def accept (call : LayerCall T) : Program T Unit :=
  change fun state => { state with
    firsts := if call.action = .cacheFirstForward then state.firsts + 1 else state.firsts }

/-- The call and the CPU output it has used. -/
def layerForward (call : LayerCall T) : Program T (Output T) := do
  point (call.fails .routing)
  submitAndComputeGpu call
  let output ← moeOutput call
  point (call.fails .addGpuOutput)
  accept call
  pure output

def cpuBackward (backward : Backward) : Program T Unit :=
  andFinally
    (onError (point (backward.fails .cpuBackward)) (poisonFor backward.retained))
    (do
      point (backward.fails .clear)
      clearCheckpointOutput)

def functionBackward (backward : Backward) : Program T Unit := do
  onError (point (backward.fails .recompute)) (poisonFor backward.retained)
  point (backward.fails .viewGradOutput)
  cpuBackward backward
  point (backward.fails .submitRepack)

/-! ## Runs -/

/-- What the caller sees: the output used, where there is one, or an exception. -/
inductive Outcome (T : Type) where
  | returned (used : Option (Output T))
  | raised
deriving DecidableEq

/-- A backward closes the record, whether it returns or raises. -/
def closeRecord (state : State T) : State T :=
  { state with latest := none, firsts := 0 }

def perform (state : State T) : Action T → Outcome T × State T
  | .layer call =>
      match layerForward call state with
      | .ok output after => (.returned (some output), after)
      | .error _ after => (.raised, after)
  | .backward backward =>
      match functionBackward backward state with
      | .ok _ after => (.returned none, closeRecord after)
      | .error _ after => (.raised, closeRecord after)

def initial : State T where
  cacheState := .empty
  outputCpu := none
  outputQlen := 0
  pending := none
  latest := none
  firsts := 0

def machine (T : Type) : Machine (State T) (Action T) where
  initial state := state = initial
  step state action := some (perform state action).2

def Action.checkpoints : Action T → Bool
  | .layer call => CheckpointCache.checkpoints call.action
  | .backward _ => false

/-- One action of a run, seen with the states before and after it. -/
structure UsedOnce (before : State T) (action : Action T) : Prop where
  reuses : ∀ call used, action = .layer call → call.action = .reuseRecompute →
    (perform before action).1 = .returned (some used) → before.latest = some (used, call.qlen)
  stored : (perform before action).2.cacheState = .ready ↔ (perform before action).2.outputCpu.isSome = true
  keeps : (perform before action).2.cacheState = .ready →
    (perform before action).2.latest = (perform before action).2.outputCpu.map fun output =>
      (output, (perform before action).2.outputQlen)
  once : (perform before action).2.firsts ≤ 1
  stays : before.cacheState = .poisoned → (perform before action).2.cacheState = .poisoned
  refuses : before.cacheState = .poisoned → action.checkpoints = true → (perform before action).1 = .raised
  spoils : (perform before action).1 = .raised → (perform before action).2.cacheState ≠ .ready

/-- The steps of a call from its inputs to its result. -/
def fromSubmit : CheckpointAction → List LayerStep
  | .normal => [.viewInputs, .submit, .enqueue, .gpuExperts, .sync, .returnOutput, .reshape]
  | .cacheFirstForward => [.viewInputs, .submit, .enqueue, .gpuExperts, .sync, .returnOutput, .keep, .toDevice, .reshape]
  | .reuseRecompute => [.gpuExperts, .toDevice, .reshape]

/-- While an output is stored no step raises outside the handlers that poison the cache,
nor the last step of a call that is about to store one. -/
def CarefulLayer (state : State T) (call : LayerCall T) : Prop :=
  (checkpoints call.action = true → call.useAutogradPath = true) ∧
  (state.cacheState = .ready → call.fails .routing = false ∧ call.fails .refreshBackendWeights = false) ∧
  match call.action with
  | .normal => state.cacheState = .ready →
      (∀ step ∈ fromSubmit .normal, call.fails step = false) ∧ call.fails .addGpuOutput = false
  | .cacheFirstForward => state.cacheState = .empty → call.fails .addGpuOutput = true →
      call.fails .routing = true ∨ call.fails .refreshBackendWeights = true ∨
        ∃ step ∈ fromSubmit .cacheFirstForward, call.fails step = true
  | .reuseRecompute => state.cacheState = .ready → call.fails .viewInputs = false ∧
      (call.qlen = state.outputQlen → call.fails .addGpuOutput = true →
        ∃ step ∈ fromSubmit .reuseRecompute, call.fails step = true)

def CarefulBackward (state : State T) (backward : Backward) : Prop :=
  state.cacheState = .ready →
    (backward.fails .viewGradOutput = true → backward.retained = true ∧ backward.fails .recompute = true) ∧
    (backward.fails .clear = true → backward.retained = true ∧
      (backward.fails .recompute = true ∨ backward.fails .cpuBackward = true)) ∧
    (backward.fails .recompute = true → backward.retained = true)

def Careful (state : State T) : Action T → Prop
  | .layer call => CarefulLayer state call
  | .backward backward => CarefulBackward state backward

end

end KtKernel.Sft.CheckpointCache
