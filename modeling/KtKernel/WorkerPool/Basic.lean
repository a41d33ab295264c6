import Mathlib.Algebra.Group.Nat.Defs
import KtKernel.Data.Machine

namespace KtKernel.WorkerPool

open KtKernel.Data

/-! `InNumaPool` as a machine: one calling thread, which is thread zero of the
pool, and the pool's own threads `1 .. total - 1`.

Every action reads or writes one shared field.  The functions given to
`do_work_stealing_job` are known by the number of the job they came with, so
that a thread calling the function of another job is visible.  A sleeping
`cv.wait` is a thread that does not move.
-/

/-- The value of an `int` after wrapping. -/
def wrap (value : Int) : Int :=
  value.bmod (2 ^ 32)

/-- `ThreadStatus`; only the destructor stores `EXIT`. -/
inductive Status where
  | working
  | waiting
deriving DecidableEq, Repr

/-- The arguments of `do_work_stealing_job`; `task_num` is an `int` that is not
negative. -/
structure Job where
  taskNum : Nat
  hasInit : Bool := false
  hasFinalize : Bool := false
  fits : taskNum < 2 ^ 31
deriving DecidableEq, Repr

/-- Where a thread stands inside `process_tasks`. -/
inductive Position where
  | outside
  | init
  | inInit (func : Nat)
  | load
  | compare (old : Int)
  | divide
  | claim
  | check (taskId : Int)
  | recheck (taskId : Int)
  | compute (taskId : Int)
  | inCompute (func : Nat) (taskId : Int)
  | finalize
  | inFinalize (func : Nat)
  | store
  | crashed
deriving DecidableEq, Repr

/-- Where the calling thread stands inside `do_work_stealing_job`: the field it
writes next, the status it raises next, its own `process_tasks(0)`, or the
status it looks at next in `wait`. -/
inductive Stage where
  | initFunc
  | computeFunc
  | finalizeFunc
  | workerCount
  | curr
  | end_
  | raise (index : Nat)
  | process
  | wait (index : Nat)
deriving DecidableEq, Repr

inductive Caller where
  | idle
  | calling (job : Job) (stage : Stage)
deriving DecidableEq, Repr

inductive Call where
  | init
  | compute (taskId : Int)
  | finalize
deriving DecidableEq, Repr

/-- One call of a job's function: whose function, on which thread, and which
job was the last one begun. -/
structure Event where
  call : Call
  func : Nat
  during : Nat
  thread : Nat
deriving DecidableEq, Repr

/-- The fields of the class, the threads, and the history: the jobs begun, the
number of `fetch_add`s since `curr_` was reset, the calls made and the jobs
whose `do_work_stealing_job` returned normally. -/
structure State where
  workerCount : Nat := 0
  initFunc : Option Nat := none
  computeFunc : Option Nat := none
  finalizeFunc : Option Nat := none
  curr : Int := 0
  end_ : Int := 0
  status : Nat → Status := fun _ => .waiting
  threads : Nat → Position := fun _ => .outside
  caller : Caller := .idle
  jobs : List Job := []
  claims : Nat := 0
  log : List Event := []
  returned : List Nat := []

/-- The number of the last job begun. -/
def State.current (state : State) : Nat :=
  state.jobs.length - 1

def State.move (state : State) (thread : Nat) (position : Position) : State :=
  { state with threads := Function.update state.threads thread position }

def State.record (state : State) (thread : Nat) (call : Call) (func : Nat) : State :=
  { state with log := state.log ++ [⟨call, func, state.current, thread⟩] }

inductive Action where
  | call (job : Job)
  | caller
  | thread (index : Nat)
  | throw
deriving DecidableEq, Repr

/-- The next step of `process_tasks` on one thread. -/
def processTasks (state : State) (thread : Nat) : Option State :=
  match state.threads thread with
  | .outside | .crashed => none
  | .init =>
      match state.initFunc with
      | some func => some ((state.record thread .init func).move thread (.inInit func))
      | none => some (state.move thread .load)
  | .inInit _ => some (state.move thread .load)
  | .load => some (state.move thread (.compare state.curr))
  | .compare old =>
      if wrap (state.end_ - old) ≤ 0 then some (state.move thread .finalize)
      else some (state.move thread .divide)
  | .divide =>
      -- the quotient is overwritten by `block = 1`, but the division is made
      if state.workerCount = 0 then some (state.move thread .crashed)
      else some (state.move thread .claim)
  | .claim =>
      some ({ state with
        curr := wrap (state.curr + 1)
        claims := state.claims + 1 }.move thread (.check state.curr))
  | .check taskId =>
      if state.end_ ≤ taskId then some (state.move thread .finalize)
      else some (state.move thread (.recheck taskId))
  | .recheck taskId =>
      if state.end_ ≤ taskId then some (state.move thread .load)
      else some (state.move thread (.compute taskId))
  | .compute taskId =>
      match state.computeFunc with
      | some func =>
          some ((state.record thread (.compute taskId) func).move thread (.inCompute func taskId))
      -- calling an empty function
      | none => some (state.move thread .crashed)
  | .inCompute _ _ => some (state.move thread .load)
  | .finalize =>
      match state.finalizeFunc with
      | some func => some ((state.record thread .finalize func).move thread (.inFinalize func))
      | none => some (state.move thread .store)
  | .inFinalize _ => some (state.move thread .store)
  | .store =>
      some ({ state with
        status := Function.update state.status thread .waiting }.move thread .outside)

/-- The next step of `worker_thread` on a thread of the pool. -/
def workerThread (state : State) (thread : Nat) : Option State :=
  match state.threads thread with
  | .outside =>
      match state.status thread with
      | .working => some (state.move thread .init)
      | .waiting => none
  | _ => processTasks state thread

/-- The next step of the calling thread inside `do_work_stealing_job`. -/
def callerStep (total : Nat) (state : State) : Option State :=
  match state.caller with
  | .idle => none
  | .calling job stage =>
      match stage with
      | .initFunc =>
          some { state with
            initFunc := if job.hasInit then some state.current else none
            caller := .calling job .computeFunc }
      | .computeFunc =>
          some { state with
            computeFunc := some state.current
            caller := .calling job .finalizeFunc }
      | .finalizeFunc =>
          some { state with
            finalizeFunc := if job.hasFinalize then some state.current else none
            caller := .calling job .workerCount }
      | .workerCount =>
          some { state with
            workerCount := min total job.taskNum
            caller := .calling job .curr }
      | .curr => some { state with curr := 0, claims := 0, caller := .calling job .end_ }
      | .end_ => some { state with end_ := job.taskNum, caller := .calling job (.raise 0) }
      | .raise index =>
          if index < state.workerCount then
            some { state with
              status := Function.update state.status index .working
              caller := .calling job (.raise (index + 1)) }
          else some ({ state with caller := .calling job .process }.move 0 .init)
      | .process =>
          if state.threads 0 = .outside then some { state with caller := .calling job (.wait 0) }
          else processTasks state 0
      | .wait index =>
          if index < state.workerCount then
            if state.status index = .working then none
            else some { state with caller := .calling job (.wait (index + 1)) }
          else some { state with caller := .idle, returned := state.returned ++ [state.current] }

/-- `throw` ends a task of the calling thread by an exception, which leaves
`process_tasks(0)` and `do_work_stealing_job` at once. -/
def step (total : Nat) (state : State) : Action → Option State
  | .call job =>
      match state.caller with
      | .idle =>
          some { state with jobs := state.jobs ++ [job], caller := .calling job .initFunc }
      | .calling _ _ => none
  | .caller => callerStep total state
  | .thread index => if 0 < index ∧ index < total then workerThread state index else none
  | .throw =>
      match state.caller, state.threads 0 with
      | .calling _ .process, .inCompute _ _ => some ({ state with caller := .idle }.move 0 .outside)
      | _, _ => none

/-- A pool of `total` workers, the calling thread among them. -/
def machine (total : Nat) : Machine State Action where
  initial state := state = {}
  step := step total

end KtKernel.WorkerPool
