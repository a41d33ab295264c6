import KtKernel.Data.Machine

namespace KtKernel.TaskQueue

open KtKernel.Data

/-! `TaskQueue` as a machine: any number of calling threads and one worker.

Every action is one shared access of the source.  A waiting `cv.wait` may
return at any time, as the standard allows, so a notification carries no
information beyond the moment at which the waiter looks again.
-/

structure Node (τ : Type) where
  task : Option τ
  next : Option Nat
deriving DecidableEq, Repr

inductive Owner (ι : Type) where
  | caller (thread : ι)
  | worker
deriving DecidableEq, Repr

/-- Where a thread stands inside `enqueue` or `sync`.  A `sync` carries the
nodes whose `enqueue` had returned when it began and, once its condition held,
the nodes exchanged by then; neither is read by the code. -/
inductive Caller (τ ε : Type) where
  | idle
  | counted (node : Nat) (task : Option τ)
  | created (node : Nat)
  | exchanged (node prev : Nat)
  | linked (node : Nat)
  | locked (node : Nat)
  | notify (node : Nat)
  | syncLock (allowNPending : Nat) (seen : List Nat)
  | syncCheck (allowNPending : Nat) (seen : List Nat)
  | syncWait (allowNPending : Nat) (seen : List Nat)
  | syncTake (allowNPending : Nat) (seen passed : List Nat)
  | syncReturn (allowNPending : Nat) (seen passed : List Nat) (raised : Option ε)
  | crashed
deriving DecidableEq, Repr

/-- Where the worker stands inside its loop. -/
inductive Worker (ε : Type) where
  | loop (curr : Nat)
  | load (curr : Nat)
  | call (curr next : Nat)
  | running (curr next : Nat)
  | release (curr next : Nat) (raised : Option ε)
  | publish (next : Nat) (raised : Option ε)
  | lock (next : Nat) (raised : Option ε)
  | capture (next : Nat) (raised : Option ε)
  | retire (next : Nat)
  | unlock (next : Nat)
  | notify (next : Nat)
  | sleepLock (curr : Nat)
  | sleepCheck (curr : Nat)
  | sleeping (curr : Nat)
  | exited
  | crashed
deriving DecidableEq, Repr

/-- The fields of the class, the threads, and the history the claims speak of:
how many enqueues were counted, the nodes in the order of their tail
exchanges, the nodes whose task was called, the nodes retired from `pending`
and the nodes whose `enqueue` returned. -/
structure State (ι τ ε : Type) where
  nodes : Nat → Option (Node τ)
  head : Nat
  tail : Nat
  done : Bool
  pending : Int
  mtx : Option (Owner ι)
  firstException : Option ε
  callers : ι → Caller τ ε
  worker : Worker ε
  started : Nat
  order : List Nat
  ran : List Nat
  finished : List Nat
  returned : List Nat

inductive Action (ι τ ε : Type) where
  | enqueue (thread : ι) (task : Option τ)
  | sync (thread : ι) (allowNPending : Nat)
  | caller (thread : ι)
  | worker (raised : Option ε)
deriving DecidableEq, Repr

/-- The dummy node of the constructor is node zero; the node of the `k`-th
counted enqueue is node `k`. -/
def State.start : State ι τ ε where
  nodes node := if node = 0 then some ⟨none, none⟩ else none
  head := 0
  tail := 0
  done := false
  pending := 0
  mtx := none
  firstException := none
  callers _ := .idle
  worker := .loop 0
  started := 0
  order := []
  ran := []
  finished := []
  returned := []

variable {ι τ ε : Type} [DecidableEq ι]

def State.moveCaller (state : State ι τ ε) (thread : ι) (position : Caller τ ε) : State ι τ ε :=
  { state with callers := Function.update state.callers thread position }

/-- The next step of a thread inside `enqueue` or `sync`. -/
def callerStep (state : State ι τ ε) (thread : ι) : Option (State ι τ ε) :=
  match state.callers thread with
  | .idle | .crashed => none
  | .counted node task =>
      some ({ state with
        nodes := Function.update state.nodes node (some ⟨task, none⟩) }.moveCaller thread (.created node))
  | .created node =>
      some ({ state with
        tail := node
        order := state.order ++ [node] }.moveCaller thread (.exchanged node state.tail))
  | .exchanged node prev =>
      match state.nodes prev with
      | some cell =>
          some ({ state with
            nodes := Function.update state.nodes prev
              (some { cell with next := some node }) }.moveCaller thread (.linked node))
      | none => some (state.moveCaller thread .crashed)
  | .linked node =>
      if state.mtx = none then
        some ({ state with mtx := some (.caller thread) }.moveCaller thread (.locked node))
      else none
  | .locked node => some ({ state with mtx := none }.moveCaller thread (.notify node))
  | .notify node =>
      some ({ state with returned := state.returned ++ [node] }.moveCaller thread .idle)
  | .syncLock allow seen =>
      if state.mtx = none then
        some ({ state with mtx := some (.caller thread) }.moveCaller thread (.syncCheck allow seen))
      else none
  | .syncCheck allow seen =>
      if state.pending ≤ allow ∨ state.done then
        some (state.moveCaller thread (.syncTake allow seen state.order))
      else
        some ({ state with mtx := none }.moveCaller thread (.syncWait allow seen))
  | .syncWait allow seen => some (state.moveCaller thread (.syncLock allow seen))
  | .syncTake allow seen passed =>
      some ({ state with
        firstException := none
        mtx := none }.moveCaller thread (.syncReturn allow seen passed state.firstException))
  | .syncReturn _ _ _ _ => some (state.moveCaller thread .idle)

/-- The next step of `worker`; `raised` is what a task body that ends in this
step threw. -/
def workerStep (state : State ι τ ε) (raised : Option ε) : Option (State ι τ ε) :=
  match state.worker with
  | .exited | .crashed => none
  | .loop curr =>
      some { state with worker := if state.done then .exited else .load curr }
  | .load curr =>
      match state.nodes curr with
      | none => some { state with worker := .crashed }
      | some cell =>
          match cell.next with
          | some next => some { state with worker := .call curr next }
          | none => some { state with worker := .sleepLock curr }
  | .call curr next =>
      match state.nodes next with
      | none => some { state with worker := .crashed }
      | some cell =>
          match cell.task with
          | some _ => some { state with ran := state.ran ++ [next], worker := .running curr next }
          -- an empty function has no body to run
          | none => some { state with ran := state.ran ++ [next], worker := .release curr next none }
  | .running curr next => some { state with worker := .release curr next raised }
  | .release curr next thrown =>
      some { state with
        nodes := Function.update state.nodes curr none
        worker := .publish next thrown }
  | .publish next thrown => some { state with head := next, worker := .lock next thrown }
  | .lock next thrown =>
      if state.mtx = none then
        some { state with mtx := some .worker, worker := .capture next thrown }
      else none
  | .capture next thrown =>
      some { state with
        firstException := if thrown.isSome ∧ state.firstException.isNone then thrown
          else state.firstException
        worker := .retire next }
  | .retire next =>
      some { state with
        pending := state.pending - 1
        finished := state.finished ++ [next]
        worker := .unlock next }
  | .unlock next => some { state with mtx := none, worker := .notify next }
  | .notify next => some { state with worker := .loop next }
  | .sleepLock curr =>
      if state.mtx = none then some { state with mtx := some .worker, worker := .sleepCheck curr }
      else none
  | .sleepCheck curr =>
      match state.nodes curr with
      | none => some { state with worker := .crashed }
      | some cell =>
          if cell.next ≠ none ∨ state.done then some { state with mtx := none, worker := .loop curr }
          else some { state with mtx := none, worker := .sleeping curr }
  | .sleeping curr => some { state with worker := .sleepLock curr }

def step (state : State ι τ ε) : Action ι τ ε → Option (State ι τ ε)
  | .enqueue thread task =>
      match state.callers thread with
      | .idle =>
          some ({ state with
            pending := state.pending + 1
            started := state.started + 1 }.moveCaller thread (.counted (state.started + 1) task))
      | _ => none
  | .sync thread allow =>
      match state.callers thread with
      | .idle => some (state.moveCaller thread (.syncLock allow state.returned))
      | _ => none
  | .caller thread => callerStep state thread
  | .worker raised => workerStep state raised

/-- The queue between its constructor and its destructor. -/
def machine : Machine (State ι τ ε) (Action ι τ ε) where
  initial state := state = State.start
  step := step

end KtKernel.TaskQueue
