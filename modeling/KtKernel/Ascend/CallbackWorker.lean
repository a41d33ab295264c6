import Mathlib.Data.List.Sort
import KtKernel.Data.Machine

namespace KtKernel.Ascend

open KtKernel.Data

/-! The callback worker of the Ascend runtime: the threads that hold `g_mu`, one after the
other, and the worker thread.

A stream and a context are named by numbers, a null pointer is `none`.  What an ACL call
answers is part of the action of the thread that makes the call.
-/

abbrev Stream := Nat
abbrev Context := Nat

inductive Call where
  | ensureCallbackWorker (context : Option Context)
  | ensureStreamSubscribed (stream : Option Stream)
  | shutdownCallbackWorker
deriving DecidableEq, Repr

/-- What follows `start_worker_locked`. -/
inductive Next where
  | done
  | subscribe (stream : Option Stream)
deriving DecidableEq, Repr

/-- Where the thread that holds `g_mu` stands. -/
inductive Position where
  | entered (call : Call)
  | currentContext
  | anyContext (stream : Option Stream)
  | start (context : Option Context) (next : Next)
  | reset (context : Option Context) (next : Next)
  | spawn (context : Option Context) (next : Next)
  | identify (threadId : Nat) (next : Next)
  | barrier (next : Next)
  | resubscribe (left : List Stream) (next : Next)
  | subscribe (stream : Option Stream)
  | report (stream : Stream)
  | join
  | clear
  | unlock
  | terminated
deriving DecidableEq, Repr

def Next.position : Next → Position
  | .done => .unlock
  | .subscribe stream => .subscribe stream

/-- Where the worker thread stands in `worker_main`. -/
inductive Place where
  | entering (context : Option Context)
  | ready
  | loop
  | processing
  | draining
  | unsubscribing (left : List Stream)
  | exited
deriving DecidableEq, Repr

structure Thread where
  id : Nat
  place : Place
deriving DecidableEq, Repr

/-- The variables of the file, the subscriptions that ACL holds, and two facts about the calls
made since the last shutdown: whether the subscribe call of the latest
`ensure_stream_subscribed` of a stream succeeded or would have succeeded, and the streams
whose subscribe call failed. -/
structure State where
  subscribedStreams : List Stream
  stop : Bool
  started : Bool
  workerReady : Bool
  workerThreadId : Nat
  holder : Option Position
  worker : Option Thread
  reports : List (Nat × Stream)
  latest : Stream → Option Bool
  refused : List Stream

/-- What the runtime answers: the result of an ACL call, the context that
`aclrtGetCurrentContext` stores, and the handle of a new thread. -/
structure Reply where
  succeeds : Bool
  context : Option Context
  threadId : Nat
deriving DecidableEq, Repr

inductive Action where
  | call (call : Call)
  | holder (reply : Reply)
  | worker
deriving DecidableEq, Repr

def State.initial : State where
  subscribedStreams := []
  stop := false
  started := false
  workerReady := false
  workerThreadId := 0
  holder := none
  worker := none
  reports := []
  latest _ := none
  refused := []

def State.go (state : State) (position : Position) : State :=
  { state with holder := some position }

/-- `aclrtSubscribeReport(g_worker_thread_id, stream)` -/
def State.subscribeReport (state : State) (stream : Stream) (succeeds : Bool) : State :=
  if succeeds then { state with reports := (state.workerThreadId, stream) :: state.reports }
  else { state with refused := stream :: state.refused }

/-- `aclrtUnSubscribeReport(g_worker_thread_id, stream)` -/
def State.unSubscribeReport (state : State) (stream : Stream) : State :=
  { state with reports := state.reports.erase (state.workerThreadId, stream) }

def State.record (state : State) (stream : Stream) (succeeds : Bool) : State :=
  { state with latest := Function.update state.latest stream (some succeeds) }

/-- The next step of the thread that holds `g_mu`. -/
def holderStep (state : State) (reply : Reply) : Option State :=
  match state.holder with
  | none => none
  | some (.entered (.ensureCallbackWorker context)) =>
      if state.started then some (state.go .unlock)
      else if context.isSome then some (state.go (.start context .done))
      else some (state.go .currentContext)
  | some .currentContext =>
      if reply.succeeds ∧ reply.context.isSome then some (state.go (.start reply.context .done))
      else some (state.go .unlock)
  | some (.entered (.ensureStreamSubscribed stream)) =>
      if state.started then some (state.go (.subscribe stream)) else some (state.go (.anyContext stream))
  -- the error of this call is ignored
  | some (.anyContext stream) => some (state.go (.start reply.context (.subscribe stream)))
  | some (.start context next) =>
      if state.started then some (state.go next.position) else some (state.go (.reset context next))
  | some (.reset context next) =>
      some ({ state with
        stop := false
        workerReady := false }.go (.spawn context next))
  | some (.spawn context next) =>
      match state.worker with
      | none =>
          some ({ state with
            worker := some ⟨reply.threadId, .entering context⟩ }.go (.identify reply.threadId next))
      -- a `std::thread` that is assigned to must not be joinable
      | some _ => some (state.go .terminated)
  | some (.identify threadId next) =>
      some ({ state with
        workerThreadId := threadId
        started := true }.go (.barrier next))
  | some (.barrier next) =>
      if state.workerReady then some (state.go (.resubscribe state.subscribedStreams next)) else some state
  | some (.resubscribe [] next) => some (state.go next.position)
  | some (.resubscribe (stream :: left) next) =>
      some ((state.subscribeReport stream reply.succeeds).go (.resubscribe left next))
  | some (.subscribe none) => some (state.go .unlock)
  | some (.subscribe (some stream)) =>
      if stream ∈ state.subscribedStreams then some ((state.record stream reply.succeeds).go .unlock)
      else
        some ({ state with
          subscribedStreams := state.subscribedStreams.orderedInsert (· ≤ ·) stream }.go
            (if state.started then .report stream else .unlock))
  | some (.report stream) =>
      some (((state.subscribeReport stream reply.succeeds).record stream reply.succeeds).go .unlock)
  | some (.entered .shutdownCallbackWorker) =>
      if state.started then some ({ state with stop := true }.go .join) else some (state.go .unlock)
  | some .join =>
      match state.worker with
      | none => some (state.go .clear)
      | some thread =>
          if thread.place = .exited then some ({ state with worker := none }.go .clear) else none
  | some .clear =>
      some ({ state with
        subscribedStreams := []
        started := false
        workerReady := false
        workerThreadId := 0
        latest := fun _ => none
        refused := [] }.go .unlock)
  | some .unlock => some { state with holder := none }
  | some .terminated => none

def State.moveWorker (state : State) (id : Nat) (place : Place) : State :=
  { state with worker := some ⟨id, place⟩ }

/-- The next step of `worker_main`; `aclrtSetCurrentContext` and `aclrtProcessReport` change
nothing that is modelled here. -/
def workerStep (state : State) : Option State :=
  match state.worker with
  | none => none
  | some thread =>
      match thread.place with
      | .entering _ => some (state.moveWorker thread.id .ready)
      | .ready => some ({ state with workerReady := true }.moveWorker thread.id .loop)
      | .loop => some (state.moveWorker thread.id (if state.stop then .draining else .processing))
      | .processing => some (state.moveWorker thread.id .loop)
      | .draining => some (state.moveWorker thread.id (.unsubscribing state.subscribedStreams))
      | .unsubscribing [] => some (state.moveWorker thread.id .exited)
      | .unsubscribing (stream :: left) =>
          some ((state.unSubscribeReport stream).moveWorker thread.id (.unsubscribing left))
      | .exited => none

def step (state : State) : Action → Option State
  | .call call =>
      match state.holder with
      | none => some (state.go (.entered call))
      | some _ => none
  | .holder reply => holderStep state reply
  | .worker => workerStep state

def machine : Machine State Action where
  initial state := state = State.initial
  step := step

/-! ## Exact subscriptions -/

/-- The holder is about to call `aclrtSubscribeReport`. -/
def Position.Subscribes : Position → Prop
  | .resubscribe (_ :: _) _ => True
  | .report _ => True
  | _ => False

def Place.Reporting (place : Place) : Prop :=
  place = .loop ∨ place = .processing

structure Exact (state : State) : Prop where
  barrier : ∀ position, state.holder = some position → position.Subscribes →
    state.workerReady = true ∧ ∃ thread, state.worker = some thread ∧ thread.place.Reporting ∧
      thread.id = state.workerThreadId
  ready : ∀ entry ∈ state.reports, state.workerReady = true ∧
    ∃ thread, state.worker = some thread ∧ thread.id = entry.1
  latest : state.holder ≠ some .join → state.holder ≠ some .clear →
    ∀ stream, state.latest stream = some true → ∃ thread, state.worker = some thread ∧
      thread.place.Reporting ∧ (thread.id, stream) ∈ state.reports
  once : state.reports.Nodup
  unsubscribed : ∀ id stream left, state.worker = some ⟨id, .unsubscribing (stream :: left)⟩ →
    state.workerThreadId = id ∧ (id, stream) ∈ state.reports
  exited : ∀ id, state.worker = some ⟨id, .exited⟩ → state.reports = []

/-- No stream whose subscribe call to this worker failed is ensured again when ACL would
accept it, and none is left when the worker is shut down. -/
def Permits (refused : List Stream) (reply : Reply) : Option Position → Prop
  | some (.subscribe (some stream)) => reply.succeeds = true → stream ∉ refused
  | some (.entered .shutdownCallbackWorker) => refused = []
  | _ => True

instance (refused : List Stream) (reply : Reply) : ∀ position, Decidable (Permits refused reply position)
  | some (.subscribe (some stream)) => inferInstanceAs (Decidable (reply.succeeds = true → stream ∉ refused))
  | some (.entered .shutdownCallbackWorker) => inferInstanceAs (Decidable (refused = []))
  | none | some (.entered (.ensureCallbackWorker _)) | some (.entered (.ensureStreamSubscribed _))
  | some .currentContext | some (.anyContext _) | some (.start _ _) | some (.reset _ _) | some (.spawn _ _)
  | some (.identify _ _) | some (.barrier _) | some (.resubscribe _ _) | some (.subscribe none)
  | some (.report _) | some .join | some .clear | some .unlock | some .terminated => isTrue trivial

def Permitted (state : State) : Action → Prop
  | .holder reply => Permits state.refused reply state.holder
  | .call _ | .worker => True

instance (state : State) : ∀ action, Decidable (Permitted state action)
  | .holder reply => inferInstanceAs (Decidable (Permits state.refused reply state.holder))
  | .call _ | .worker => isTrue trivial

end KtKernel.Ascend
