import KtKernel.TaskQueue.Closing

namespace KtKernel.CpuInfer.Shutdown

open KtKernel.Data
open KtKernel.TaskQueue (Owner Caller Worker)

/-! The destructor of `CPUInfer`: it deletes the worker pool, then the task queue, whose worker
thread may be anywhere in its loop.

A task is the number of steps it makes on the worker pool, unless it throws before.  The thread
that runs the destructor is `none` among the callers of the queue, the threads in `sync` are the
others.
-/

inductive Destructor where
  | deleteBackend
  | lock
  | setDone
  | unlock
  | notify
  | join
  | free (node : Option Nat)
  | finished
  | crashed
deriving DecidableEq, Repr

/-- The queue, the pool steps that the running task has still to make, and the history: whether
a task has made a step on a pool that was deleted, the nodes freed, and for each `sync` that
returned what it allowed and how many tasks it answers for. -/
structure State (ι ε : Type) where
  queue : TaskQueue.State (Option ι) Nat ε
  poolSteps : Nat
  destructor : Destructor
  misused : Bool
  freed : List Nat
  taken : List (Nat × Nat)

inductive Action (ι ε : Type) where
  | caller (thread : ι)
  | worker (raised : Option ε)
  | destructor
deriving DecidableEq, Repr

variable {ι ε : Type} [DecidableEq ι]

/-- What a `sync` that returns without an exception answers for. -/
def answered : Caller Nat ε → List (Nat × Nat)
  | .syncReturn allow _ passed none => [(allow, passed.length)]
  | _ => []

/-- A step of a thread inside `sync`. -/
def callerStep (state : State ι ε) (thread : ι) : Option (State ι ε) :=
  (TaskQueue.callerStep state.queue (some thread)).map fun queue =>
    { state with
      queue := queue
      taken := answered (state.queue.callers (some thread)) ++ state.taken }

/-- A step of the queue worker; one of a running task that does not throw is a step on the
pool as long as it has any to make. -/
def workerStep (state : State ι ε) (raised : Option ε) : Option (State ι ε) :=
  match state.queue.worker with
  | .running _ _ =>
      if raised.isNone ∧ 0 < state.poolSteps then
        some { state with
          poolSteps := state.poolSteps - 1
          misused := state.misused || state.destructor != .deleteBackend }
      else (TaskQueue.workerStep state.queue raised).map fun queue => { state with queue := queue }
  | .call _ next =>
      (TaskQueue.workerStep state.queue raised).map fun queue =>
        { state with
          queue := queue
          poolSteps := ((state.queue.nodes next).bind TaskQueue.Node.task).getD 0 }
  | .release curr _ _ =>
      (TaskQueue.workerStep state.queue raised).map fun queue =>
        { state with
          queue := queue
          freed := state.freed ++ [curr] }
  | _ => (TaskQueue.workerStep state.queue raised).map fun queue => { state with queue := queue }

/-- `~CPUInfer`, then `~TaskQueue`. -/
def destructorStep (state : State ι ε) : Option (State ι ε) :=
  match state.destructor with
  | .deleteBackend => some { state with destructor := .lock }
  | .lock =>
      if state.queue.mtx = none then
        some { state with
          queue := { state.queue with mtx := some (.caller none) }
          destructor := .setDone }
      else none
  | .setDone =>
      some { state with
        queue := { state.queue with done := true }
        destructor := .unlock }
  | .unlock =>
      some { state with
        queue := { state.queue with mtx := none }
        destructor := .notify }
  | .notify => some { state with destructor := .join }
  | .join =>
      match state.queue.worker with
      | .exited => some { state with destructor := .free (some state.queue.head) }
      | _ => none
  | .free (some node) =>
      match state.queue.nodes node with
      | some cell =>
          some { state with
            queue := { state.queue with nodes := Function.update state.queue.nodes node none }
            freed := state.freed ++ [node]
            destructor := .free cell.next }
      | none => some { state with destructor := .crashed }
  | .free none => some { state with destructor := .finished }
  | .finished | .crashed => none

def step (state : State ι ε) : Action ι ε → Option (State ι ε)
  | .caller thread => callerStep state thread
  | .worker raised => workerStep state raised
  | .destructor => destructorStep state

/-- When the destructor starts, no thread is in `enqueue`. -/
structure Starts (state : State ι ε) : Prop where
  queue : TaskQueue.machine.Reachable state.queue
  syncs : ∀ thread, (state.queue.callers thread).Syncs
  own : state.queue.callers none = .idle
  destructor : state.destructor = .deleteBackend
  misused : state.misused = false
  freed : state.freed = state.queue.chain.take state.queue.released
  taken : state.taken = []

def machine (start : State ι ε) : Machine (State ι ε) (Action ι ε) where
  initial state := state = start
  step := step

/-! ## An orderly shutdown -/

/-- A `sync` returned for completion answers for tasks that have all been called, but for the
number it allows, when the worker is gone. -/
structure Orderly (state : State ι ε) : Prop where
  pool : state.misused = false
  once : state.freed.Nodup
  all : state.destructor = .finished → state.freed.Perm state.queue.chain
  intact : state.queue.worker ≠ .crashed ∧ state.destructor ≠ .crashed
  syncs : state.queue.worker = .exited → ∀ entry ∈ state.taken, entry.2 ≤ state.queue.ran.length + entry.1

/-- No task that runs or is queued has a step to make on the pool. -/
def PoolFree (state : State ι ε) : Prop :=
  (∀ curr next, state.queue.worker = .running curr next → state.poolSteps = 0) ∧
    ∀ node ∈ state.queue.chain, node ∉ state.queue.ran → ∀ cell, state.queue.nodes node = some cell →
      cell.task.getD 0 = 0

/-- The tasks called so far, with the one that the worker is past its last look at `done` for. -/
def committed (queue : TaskQueue.State (Option ι) Nat ε) : Nat :=
  match queue.worker with
  | .load _ | .call _ _ => min queue.order.length (queue.ran.length + 1)
  | _ => queue.ran.length

/-- Before the place in `sync` where the exception is taken. -/
def Takes : Caller Nat ε → Prop
  | .syncLock _ _ | .syncCheck _ _ | .syncWait _ _ | .syncTake _ _ _ => True
  | _ => False

/-- An exception is kept that only this thread can take. -/
def Protected (queue : TaskQueue.State (Option ι) Nat ε) (thread : Option ι) : Prop :=
  (queue.firstException.isSome ∨ ∃ next error, queue.worker = .capture next (some error)) ∧
    ∀ other ≠ thread, ¬ Takes (queue.callers other)

/-- Each thread that waits in `sync` allows for the tasks the worker is not committed to, or is
bound to throw. -/
def Covered (queue : TaskQueue.State (Option ι) Nat ε) : Prop :=
  ∀ thread allow, (queue.callers thread).waits = some allow →
    queue.order.length ≤ committed queue + allow ∨ Protected queue thread

end KtKernel.CpuInfer.Shutdown
