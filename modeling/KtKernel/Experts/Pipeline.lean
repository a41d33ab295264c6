import KtKernel.Data.Fifo
import Mathlib.Algebra.BigOperators.Fin
import Mathlib.Algebra.BigOperators.Intervals

namespace KtKernel.Experts

open KtKernel.Data

/-! Consecutive layers run through `submit_forward` and `sync_forward` on the
path that submits on the host thread.

The pinned buffers have depth two and are shared by all layers.  Copies between
the device and the buffers are queued on the device and run in order at any
time; `_wait_device` waits for all of them.  The worker of the queue takes a
task, reads its inputs, stores its output and retires it in separate steps.
-/

section

variable {batch width : Nat} {R W V : Type}

/-- `torch.topk(scores, k).indices` for every row. -/
abbrev TopK (batch width : Nat) (W : Type) :=
  (Fin batch → Fin width → W) → Nat → Fin batch → List (Fin width)

/-- The immediate and the deferred ids.  An expert protected by one token is
immediate for all of them. -/
def selectDeferredExperts (topk : TopK batch width W) (expertIds : Fin batch → Fin width → Int)
    (expertScores : Fin batch → Fin width → W) (protectedK : Int) :
    (Fin batch → Fin width → Int) × (Fin batch → Fin width → Int) :=
  let count := (max 0 (min protectedK width)).toNat
  if count = 0 then (fun _ _ => -1, expertIds)
  else
    let protectedIndices := topk expertScores count
    let protectedFlag (expert : Int) : Bool := (List.finRange batch).any fun token =>
      (protectedIndices token).any fun index => decide (expertIds token index = expert)
    (fun token index => if protectedFlag (expertIds token index) then expertIds token index else -1,
      fun token index => if protectedFlag (expertIds token index) then -1 else expertIds token index)

/-- The layers and the batch that goes through them.  `expert` is what one
expert of a layer contributes to a token, already weighted. -/
structure Model (batch width : Nat) (R W V : Type) where
  layers : Nat
  numExperts : Nat
  topk : TopK batch width W
  expert : Nat → R → Int → W → V
  hiddenStates : Nat → Fin batch → R
  topkIds : Nat → Fin batch → Fin width → Int
  topkWeights : Nat → Fin batch → Fin width → W
  maxDeferredExpertsPerToken : Nat → Int
  inRange : ∀ layer token index, 0 ≤ topkIds layer token index ∧ topkIds layer token index < numExperts

namespace Model

variable (model : Model batch width R W V)

def defers (layer : Nat) : Bool :=
  decide (0 < model.maxDeferredExpertsPerToken layer)

def selection (layer : Nat) : (Fin batch → Fin width → Int) × (Fin batch → Fin width → Int) :=
  selectDeferredExperts model.topk (model.topkIds layer) (model.topkWeights layer)
    (width - model.maxDeferredExpertsPerToken layer)

def immediateIds (layer : Nat) : Fin batch → Fin width → Int :=
  if model.defers layer then (model.selection layer).1 else model.topkIds layer

/-- Meaningful only where the layer defers; the source has `None` elsewhere. -/
def deferredIds (layer : Nat) : Fin batch → Fin width → Int :=
  (model.selection layer).2

end Model

/-- One of the two slots of the input buffers. -/
structure Slot (batch width : Nat) (R W : Type) where
  inputTensor : Fin batch → R
  weights : Fin batch → Fin width → W
  immediateExpertsIds : Fin batch → Fin width → Int
  deferredExpertsIds : Fin batch → Fin width → Int

/-- What `forward_task` was given: the layer, which ids, and `incremental`. -/
structure Task where
  layer : Nat
  deferred : Bool
  incremental : Bool
deriving DecidableEq, Repr

def bufferDepth : Nat :=
  2

def Task.slot (task : Task) : Nat :=
  task.layer % bufferDepth

/-- The output slot: the layer's own, or the next one for a deferred task. -/
def Task.target (task : Task) : Nat :=
  if task.deferred then (task.slot + 1) % bufferDepth else task.slot

/-- The forward pass of a layer on the contents of a slot; negative ids are
skipped. -/
def forward [AddCommMonoid V] (model : Model batch width R W V) (layer : Nat)
    (slot : Slot batch width R W) (ids : Fin batch → Fin width → Int) : Fin batch → V :=
  fun token => ∑ index, if 0 ≤ ids token index then
    model.expert layer (slot.inputTensor token) (ids token index) (slot.weights token index) else 0

namespace Pipeline

/-- Copies queued on the device. -/
inductive Copy where
  | input (layer : Nat)
  | weights (layer : Nat)
  | immediateIds (layer : Nat)
  | deferredIds (layer : Nat)
  | output (layer : Nat)
deriving DecidableEq, Repr

inductive Stage where
  | prepare
  | wait
  | submit
  | clearFlag
  | waitDeferred
  | submitDeferred
  | raiseFlag
  | sync
  | copyOutput
deriving DecidableEq, Repr

/-- What the worker has done of the task it runs. -/
inductive Progress (batch : Nat) (V : Type) where
  | idle
  | begun
  | loaded (value : Fin batch → V)
  | stored

structure State (batch width : Nat) (R W V : Type) where
  slots : Nat → Slot batch width R W
  output : Nat → Fin batch → V
  hasPendingDeferred : Nat → Bool
  queue : Fifo Task := {}
  progress : Progress batch V := .idle
  device : List Copy := []
  layer : Nat := 0
  stage : Stage := .prepare
  results : Nat → Option (Fin batch → V) := fun _ => none

inductive Action where
  | host
  | device
  | start
  | load
  | store
  | finish
deriving DecidableEq, Repr

def State.allowPending (state : State batch width R W V) : Nat :=
  if state.hasPendingDeferred state.layer then 1 else 0

/-- `_layer_has_pending_deferred.get(layer_idx - 1, False)`. -/
def State.incremental (state : State batch width R W V) : Bool :=
  match state.layer with
  | 0 => false
  | previous + 1 => state.hasPendingDeferred previous

def hostStep (model : Model batch width R W V) (state : State batch width R W V) :
    Option (State batch width R W V) :=
  match state.stage with
  | .prepare =>
      if state.layer < model.layers then
        some { state with
          device := state.device ++
            [.input state.layer, .weights state.layer, .immediateIds state.layer] ++
              if model.defers state.layer then [.deferredIds state.layer] else []
          stage := .wait }
      else none
  | .wait => if state.device = [] then some { state with stage := .submit } else none
  | .submit =>
      some { state with
        queue := state.queue.enqueue ⟨state.layer, false, state.incremental⟩
        stage := .clearFlag }
  | .clearFlag =>
      some { state with
        hasPendingDeferred := Function.update state.hasPendingDeferred state.layer false
        stage := if model.defers state.layer then .waitDeferred else .sync }
  | .waitDeferred =>
      if state.device = [] then some { state with stage := .submitDeferred } else none
  | .submitDeferred =>
      some { state with
        queue := state.queue.enqueue ⟨state.layer, true, false⟩
        stage := .raiseFlag }
  | .raiseFlag =>
      some { state with
        hasPendingDeferred := Function.update state.hasPendingDeferred state.layer true
        stage := .sync }
  | .sync =>
      if state.queue.Drained state.allowPending then some { state with stage := .copyOutput }
      else none
  | .copyOutput =>
      some { state with
        device := state.device ++ [.output state.layer]
        layer := state.layer + 1
        stage := .prepare }

/-- The device runs the first copy of its queue. -/
def deviceStep (model : Model batch width R W V) (state : State batch width R W V) :
    Option (State batch width R W V) :=
  let fill (layer : Nat) (change : Slot batch width R W → Slot batch width R W) :=
    Function.update state.slots (layer % bufferDepth) (change (state.slots (layer % bufferDepth)))
  match state.device with
  | [] => none
  | .input layer :: rest =>
      some { state with
        slots := fill layer fun slot => { slot with inputTensor := model.hiddenStates layer }
        device := rest }
  | .weights layer :: rest =>
      some { state with
        slots := fill layer fun slot => { slot with weights := model.topkWeights layer }
        device := rest }
  | .immediateIds layer :: rest =>
      some { state with
        slots := fill layer fun slot => { slot with immediateExpertsIds := model.immediateIds layer }
        device := rest }
  | .deferredIds layer :: rest =>
      some { state with
        slots := fill layer fun slot => { slot with deferredExpertsIds := model.deferredIds layer }
        device := rest }
  | .output layer :: rest =>
      some { state with
        results := Function.update state.results layer (some (state.output (layer % bufferDepth)))
        device := rest }

variable [AddCommMonoid V]

def workerStep (model : Model batch width R W V) (state : State batch width R W V) :
    Action → Option (State batch width R W V)
  | .start =>
      match state.progress with
      | .idle => state.queue.start?.map fun queue => { state with queue := queue, progress := .begun }
      | _ => none
  | .load =>
      match state.progress, state.queue.current? with
      | .begun, some task =>
          let slot := state.slots task.slot
          let ids := if task.deferred then slot.deferredExpertsIds else slot.immediateExpertsIds
          some { state with progress := .loaded (forward model task.layer slot ids) }
      | _, _ => none
  | .store =>
      match state.progress, state.queue.current? with
      | .loaded value, some task =>
          some { state with
            output := Function.update state.output task.target
              (if task.incremental then state.output task.target + value else value)
            progress := .stored }
      | _, _ => none
  | .finish =>
      match state.progress with
      | .stored => state.queue.finish?.map fun queue => { state with queue := queue, progress := .idle }
      | _ => none
  | _ => none

def step (model : Model batch width R W V) (state : State batch width R W V) :
    Action → Option (State batch width R W V)
  | .host => hostStep model state
  | .device => deviceStep model state
  | action => workerStep model state action

/-- A pass over all layers begins with an idle queue and device, and with any
contents of the buffers and of the flags. -/
def machine (model : Model batch width R W V) : Machine (State batch width R W V) Action where
  initial state := state.queue = {} ∧ state.device = [] ∧ state.layer = 0 ∧ state.stage = .prepare ∧
    (∀ layer, state.results layer = none) ∧
    match state.progress with
    | .idle => True
    | _ => False
  step := step model

end Pipeline

end

end KtKernel.Experts
