import KtKernel.Data.Machine
import KtKernel.Experts.PipelineInvariant

namespace KtKernel.Experts

open KtKernel.Data

/-! The two synchronous ways through a layer, on any sequence of layer indices.

`submitted` is `submit_forward` and `sync_forward` on the path that submits on
the host thread; `pinned` is `copy_inputs_to_cpu_buffers`, then
`run_pinned_forward_sync` in the callback behind those copies, then
`copy_forward_output_to_device`.  The data of a `Model` is taken by the number
of the call, and `layerIdx` gives the layer each call runs. -/

namespace Paths

inductive Path where
  | pinned
  | submitted
deriving DecidableEq, Repr

/-- The arguments of `forward_task`, by the number of the call. -/
structure Task where
  call : Nat
  deferred : Bool
  incremental : Bool
deriving DecidableEq, Repr

section

variable {batch width : Nat} {R W V : Type}

/-- `loaded` is what the worker has computed for the task at the head of the
queue.  `finished` is only observed. -/
structure State (batch width : Nat) (R W V : Type) where
  slots : Nat → Slot batch width R W
  output : Nat → Fin batch → V
  hasPendingDeferred : Nat → Bool := fun _ => false
  queue : List Task := []
  loaded : Option (Fin batch → V) := none
  device : List Pipeline.Copy := []
  call : Nat := 0
  stage : Pipeline.Stage := .prepare
  results : Nat → Option (Fin batch → V) := fun _ => none
  finished : List Task := []

inductive Action where
  | host
  | device
  | load
  | store
deriving DecidableEq, Repr

variable (layerIdx : Nat → Nat) (path : Path) (model : Model batch width R W V)

def slotOf (call : Nat) : Nat :=
  layerIdx call % bufferDepth

/-- The output slot: the call's own, or the next one for a deferred task. -/
def Task.target (task : Task) : Nat :=
  if task.deferred then (slotOf layerIdx task.call + 1) % bufferDepth else slotOf layerIdx task.call

/-- `_layer_has_pending_deferred.get(layer_idx - 1, False)`. -/
def State.incremental (state : State batch width R W V) : Bool :=
  match layerIdx state.call with
  | 0 => false
  | previous + 1 => state.hasPendingDeferred previous

def State.allowPending (state : State batch width R W V) : Nat :=
  if state.hasPendingDeferred (layerIdx state.call) then 1 else 0

/-- The test before the deferred task: the tensor, or what lies in the pinned ids. -/
def hasDeferred (state : State batch width R W V) : Bool :=
  match path with
  | .submitted => model.defers state.call
  | .pinned => model.defers state.call &&
      (List.finRange batch).any fun token => (List.finRange width).any fun index =>
        decide (0 ≤ (state.slots (slotOf layerIdx state.call)).deferredExpertsIds token index)

def hostStep (state : State batch width R W V) : Option (State batch width R W V) :=
  match state.stage with
  | .prepare =>
      if state.call < model.layers then
        some { state with
          device := state.device ++
            [.input state.call, .weights state.call, .immediateIds state.call] ++
              if model.defers state.call then [.deferredIds state.call] else []
          stage := .wait }
      else none
  | .wait => if state.device = [] then some { state with stage := .submit } else none
  | .submit =>
      some { state with
        queue := state.queue ++ [⟨state.call, false, state.incremental layerIdx⟩]
        stage := .clearFlag }
  | .clearFlag =>
      some { state with
        hasPendingDeferred := Function.update state.hasPendingDeferred (layerIdx state.call) false
        stage := if hasDeferred layerIdx path model state then
            match path with
            | .submitted => .waitDeferred
            | .pinned => .submitDeferred
          else .sync }
  | .waitDeferred =>
      if state.device = [] then some { state with stage := .submitDeferred } else none
  | .submitDeferred =>
      some { state with
        queue := state.queue ++ [⟨state.call, true, false⟩]
        stage := .raiseFlag }
  | .raiseFlag =>
      some { state with
        hasPendingDeferred := Function.update state.hasPendingDeferred (layerIdx state.call) true
        stage := .sync }
  | .sync =>
      if state.queue.length ≤ state.allowPending layerIdx then some { state with stage := .copyOutput }
      else none
  | .copyOutput =>
      some { state with
        device := state.device ++ [.output state.call]
        call := state.call + 1
        stage := .prepare }

/-- A copy of a call into its slot of the pinned buffers. -/
def fill (call : Nat) (change : Slot batch width R W → Slot batch width R W)
    (state : State batch width R W V) : Nat → Slot batch width R W :=
  Function.update state.slots (slotOf layerIdx call) (change (state.slots (slotOf layerIdx call)))

/-- The device runs the first copy of its queue. -/
def deviceStep (state : State batch width R W V) : Option (State batch width R W V) :=
  match state.device with
  | [] => none
  | .input call :: rest =>
      some { state with
        slots := fill layerIdx call (fun slot => { slot with inputTensor := model.hiddenStates call }) state
        device := rest }
  | .weights call :: rest =>
      some { state with
        slots := fill layerIdx call (fun slot => { slot with weights := model.topkWeights call }) state
        device := rest }
  | .immediateIds call :: rest =>
      some { state with
        slots := fill layerIdx call
          (fun slot => { slot with immediateExpertsIds := model.immediateIds call }) state
        device := rest }
  | .deferredIds call :: rest =>
      some { state with
        slots := fill layerIdx call
          (fun slot => { slot with deferredExpertsIds := model.deferredIds call }) state
        device := rest }
  | .output call :: rest =>
      some { state with
        results := Function.update state.results call (some (state.output (slotOf layerIdx call)))
        device := rest }

variable [AddCommMonoid V]

/-- What a task computes from the contents of its slot. -/
def valueIn (task : Task) (slot : Slot batch width R W) : Fin batch → V :=
  forward model task.call slot (if task.deferred then slot.deferredExpertsIds else slot.immediateExpertsIds)

def step (state : State batch width R W V) : Action → Option (State batch width R W V)
  | .host => hostStep layerIdx path model state
  | .device => deviceStep layerIdx model state
  | .load =>
      match state.queue, state.loaded with
      | task :: _, none =>
          some { state with loaded := some (valueIn model task (state.slots (slotOf layerIdx task.call))) }
      | _, _ => none
  | .store =>
      match state.queue, state.loaded with
      | task :: rest, some value =>
          some { state with
            output := Function.update state.output (task.target layerIdx)
              (if task.incremental then state.output (task.target layerIdx) + value else value)
            queue := rest
            loaded := none
            finished := state.finished ++ [task] }
      | _, _ => none

/-- The first call finds nothing queued and no flag, and any contents in the buffers. -/
def machine : Machine (State batch width R W V) Action where
  initial state := ∃ slots output, state = { slots := slots, output := output }
  step := step layerIdx path model

end

/-! ## Which deferred tasks matter -/

section

variable {batch width : Nat} {R W V : Type} (layerIdx : Nat → Nat) (model : Model batch width R W V)

/-- Some expert is deferred. -/
def selects (call : Nat) : Bool :=
  (List.finRange batch).any fun token => (List.finRange width).any fun index =>
    decide (0 ≤ model.deferredIds call token index)

def idle (call : Nat) : Bool :=
  model.defers call && !selects model call

/-- The last call of a layer among the first `calls`. -/
def lastCall (layer : Nat) : Nat → Option Nat
  | 0 => none
  | call + 1 => if layerIdx call = layer then some call else lastCall layer call

def previousCall (call : Nat) : Option Nat :=
  match layerIdx call with
  | 0 => none
  | previous + 1 => lastCall layerIdx previous call

/-- The task that wrote an output slot last. -/
inductive Write where
  | never
  | immediate (call : Nat)
  | deferred (call : Nat)
deriving DecidableEq, Repr

/-- `queues` says which calls have a deferred task. -/
def lastWrite (queues : Nat → Bool) (slot : Nat) : Nat → Write
  | 0 => .never
  | call + 1 =>
      if slotOf layerIdx call = slot then .immediate call
      else if queues call then .deferred call
      else lastWrite queues slot call

/-- The call does not take over what only one of the paths has written, nor what a
deferred task left whose inputs were replaced before it ran. -/
def Steady (call : Nat) : Prop :=
  match previousCall layerIdx call with
  | none => True
  | some previous =>
      model.defers previous = true →
        match lastWrite layerIdx model.defers (slotOf layerIdx call) call with
        | .never => True
        | .immediate _ => idle model previous = false
        | .deferred writer =>
            idle model writer = idle model previous ∧ (idle model writer = false → writer + 1 = call)

instance (call : Nat) : Decidable (Steady layerIdx model call) := by
  unfold Steady
  cases previousCall layerIdx call with
  | none => exact isTrue trivial
  | some previous =>
      cases lastWrite layerIdx model.defers (slotOf layerIdx call) call with
      | never => exact isTrue fun _ => trivial
      | immediate => exact inferInstanceAs (Decidable (_ → _))
      | deferred => exact inferInstanceAs (Decidable (_ → _))

end

end Paths

end KtKernel.Experts
