import KtKernel.TaskQueue.Invariant

namespace KtKernel.CpuInfer

open KtKernel.Data

/-! `CPUInfer` over its task queue: what becomes of a task that throws.

The threads are host threads and threads of the device runtime.  An exception
is named by the node of the task that threw it.  The sections under
`device_callback_error_mutex_` are single steps; those of the queue are the
steps of `TaskQueue`.
-/

/-- Where a thread stands.  `before` are the nodes whose `enqueue` had returned
when `CPUInfer::sync` began; the code does not read them. -/
inductive Call where
  | outside
  | checkFirst (allowNPending : Nat) (before : List Nat)
  | syncing (allowNPending : Nat) (before : List Nat)
  | checkLast (allowNPending : Nat) (before : List Nat)
  | returned (allowNPending : Nat) (before : List Nat)
  | rethrow
  | throwing (error : Nat)
  | callback (allowNPending : Nat)
  | recording (error : Nat)
deriving DecidableEq, Repr

/-- The queue, `device_callback_error_`, the threads and the history: the
tasks that threw in their order, the exception each of them stands under, and
the exceptions thrown out of a call. -/
structure State (ι : Type) where
  queue : TaskQueue.State ι Unit Nat
  deviceCallbackError : Option Nat
  calls : ι → Call
  threw : List Nat
  filed : Nat → Option Nat
  reported : List Nat

/-- `enqueue` is `submit` or the callback of `submit_with_cuda_stream`,
`rethrow` also the first statement of `sync_with_cuda_stream`, and
`syncCallback` the callback that function launches. -/
inductive Action (ι : Type) where
  | enqueue (thread : ι) (task : Option Unit)
  | sync (thread : ι) (allowNPending : Nat)
  | rethrow (thread : ι)
  | syncCallback (thread : ι) (allowNPending : Nat)
  | thread (thread : ι)
  | worker (throws : Bool)
deriving DecidableEq, Repr

def State.start : State ι where
  queue := TaskQueue.State.start
  deviceCallbackError := none
  calls _ := .outside
  threw := []
  filed _ := none
  reported := []

variable {ι : Type} [DecidableEq ι]

def State.moveCall (state : State ι) (thread : ι) (call : Call) : State ι :=
  { state with calls := Function.update state.calls thread call }

/-- `rethrow_device_callback_error`: the error is taken under the lock and thrown
after it; without one the call goes on. -/
def takeDeviceCallbackError (state : State ι) (thread : ι) (otherwise : State ι) : State ι :=
  match state.deviceCallbackError with
  | some error => { state with deviceCallbackError := none }.moveCall thread (.throwing error)
  | none => otherwise

/-- `record_device_callback_error_`: the first error is kept. -/
def recordDeviceCallbackError (state : State ι) (error : Nat) : State ι :=
  match state.deviceCallbackError with
  | none => { state with deviceCallbackError := some error }
  | some kept =>
      { state with
        filed := fun task => if state.filed task = some error then some kept else state.filed task }

/-- One step of a thread inside `TaskQueue`. -/
def queueStep (state : State ι) (thread : ι) : Option (State ι) :=
  (TaskQueue.callerStep state.queue thread).map fun queue => { state with queue := queue }

/-- The exception a finished `TaskQueue::sync` throws. -/
def syncResult (state : State ι) (thread : ι) : Option (Option Nat) :=
  match state.queue.callers thread with
  | .syncReturn _ _ _ raised => some raised
  | _ => none

def threadStep (state : State ι) (thread : ι) : Option (State ι) :=
  match state.calls thread with
  | .outside => queueStep state thread
  | .checkFirst allow before =>
      (TaskQueue.step state.queue (.sync thread allow)).map fun queue =>
        takeDeviceCallbackError state thread
          ({ state with queue := queue }.moveCall thread (.syncing allow before))
  | .syncing allow before =>
      match syncResult state thread with
      | some (some error) => (queueStep state thread).map (·.moveCall thread (.throwing error))
      | some none => (queueStep state thread).map (·.moveCall thread (.checkLast allow before))
      | none => queueStep state thread
  | .checkLast allow before =>
      some (takeDeviceCallbackError state thread (state.moveCall thread (.returned allow before)))
  | .returned _ _ => some (state.moveCall thread .outside)
  | .rethrow => some (takeDeviceCallbackError state thread (state.moveCall thread .outside))
  | .throwing error =>
      some ({ state with reported := state.reported ++ [error] }.moveCall thread .outside)
  | .callback _ =>
      match syncResult state thread with
      | some (some error) => (queueStep state thread).map (·.moveCall thread (.recording error))
      | some none => (queueStep state thread).map (·.moveCall thread .outside)
      | none => queueStep state thread
  | .recording error => some ((recordDeviceCallbackError state error).moveCall thread .outside)

/-- The task the worker runs throws or not; a failure that is captured stands
under the exception `first_exception` holds from then on. -/
def workerStep (state : State ι) (throws : Bool) : Option (State ι) :=
  match state.queue.worker with
  | .running _ next =>
      (TaskQueue.workerStep state.queue (if throws then some next else none)).map fun queue =>
        { state with queue := queue, threw := if throws then state.threw ++ [next] else state.threw }
  | .capture _ (some error) =>
      (TaskQueue.workerStep state.queue none).map fun queue =>
        { state with
          queue := queue
          filed := Function.update state.filed error (some (state.queue.firstException.getD error)) }
  | _ => (TaskQueue.workerStep state.queue none).map fun queue => { state with queue := queue }

def State.Free (state : State ι) (thread : ι) : Prop :=
  state.calls thread = .outside ∧ state.queue.callers thread = .idle

instance (state : State ι) (thread : ι) : Decidable (state.Free thread) :=
  inferInstanceAs (Decidable (_ ∧ _))

def step (state : State ι) : Action ι → Option (State ι)
  | .enqueue thread task =>
      if state.Free thread then
        (TaskQueue.step state.queue (.enqueue thread task)).map fun queue => { state with queue := queue }
      else none
  | .sync thread allow =>
      if state.Free thread then some (state.moveCall thread (.checkFirst allow state.queue.returned))
      else none
  | .rethrow thread => if state.Free thread then some (state.moveCall thread .rethrow) else none
  | .syncCallback thread allow =>
      if state.Free thread then
        (TaskQueue.step state.queue (.sync thread allow)).map fun queue =>
          { state with queue := queue }.moveCall thread (.callback allow)
      else none
  | .thread thread => threadStep state thread
  | .worker throws => workerStep state throws

/-- Between the constructor and the destructor. -/
def machine : Machine (State ι) (Action ι) where
  initial state := state = State.start
  step := step

end KtKernel.CpuInfer
