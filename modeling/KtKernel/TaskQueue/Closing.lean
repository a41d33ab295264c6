import KtKernel.TaskQueue.Order

namespace KtKernel.TaskQueue

open KtKernel.Data

/-! What a closing queue still needs: who holds the mutex, what `head` points to, and the list
that is left when no thread enqueues any more. -/

variable {ι τ ε : Type}

/-! ## The mutex and the head -/

def Worker.Locks : Worker ε → Prop
  | .capture _ _ | .retire _ | .unlock _ | .sleepCheck _ => True
  | _ => False

def Caller.Locks : Caller τ ε → Prop
  | .locked _ | .syncCheck _ _ | .syncTake _ _ _ => True
  | _ => False

/-- The node `head` points to, except between a `delete` and the store after it. -/
def Worker.atHead : Worker ε → Option Nat
  | .loop curr | .load curr | .call curr _ | .running curr _ | .release curr _ _ | .sleepLock curr
  | .sleepCheck curr | .sleeping curr => some curr
  | .lock next _ | .capture next _ | .retire next | .unlock next | .notify next => some next
  | .publish _ _ | .exited | .crashed => none

structure Owned (state : State ι τ ε) : Prop where
  worker : state.worker.Locks → state.mtx = some .worker
  callers : ∀ thread, (state.callers thread).Locks → state.mtx = some (.caller thread)
  head : ∀ node, state.worker.atHead = some node → state.head = node

theorem start_owned : Owned (State.start : State ι τ ε) where
  worker locks := locks.elim
  callers _ locks := locks.elim
  head _ same := Option.some.inj same

section

variable [DecidableEq ι] {state : State ι τ ε}

/-- A thread moves without a change of the mutex. -/
theorem Owned.keep (owned : Owned state) {left : State ι τ ε} {position : Caller τ ε} (worker : left.worker = state.worker)
    (mtx : left.mtx = state.mtx) (head : left.head = state.head)
    (callers : left.callers = Function.update state.callers thread position)
    (locks : position.Locks → (state.callers thread).Locks) : Owned left where
  worker := by
    rw [worker, mtx]
    exact owned.worker
  callers other := by
    rw [callers, mtx]
    by_cases same : other = thread
    · rw [same, Function.update_self]
      exact fun held => owned.callers thread (locks held)
    · rw [Function.update_of_ne same]
      exact owned.callers other
  head := by
    rw [worker, head]
    exact owned.head

/-- A thread takes the free mutex. -/
theorem Owned.acquire (owned : Owned state) (free : state.mtx = none) (position : Caller τ ε) :
    Owned ({ state with mtx := some (.caller thread) }.moveCaller thread position) where
  worker locks := by
    have held := owned.worker locks
    rw [free] at held
    contradiction
  callers other locks := by
    by_cases same : other = thread
    · rw [same]
      rfl
    · rw [moveCaller_other _ _ same] at locks
      have held := owned.callers other locks
      rw [free] at held
      contradiction
  head := owned.head

/-- The thread that holds the mutex gives it back. -/
theorem Owned.release (owned : Owned state) (holds : state.mtx = some (.caller thread))
    {left : State ι τ ε} {position : Caller τ ε} (worker : left.worker = state.worker) (head : left.head = state.head)
    (callers : left.callers = Function.update state.callers thread position) (outside : ¬ position.Locks) :
    Owned left where
  worker locks := by
    rw [worker] at locks
    have held := owned.worker locks
    rw [holds] at held
    cases held
  callers other locks := by
    rw [callers] at locks
    by_cases same : other = thread
    · rw [same, Function.update_self] at locks
      exact absurd locks outside
    · rw [Function.update_of_ne same] at locks
      have held := owned.callers other locks
      rw [holds] at held
      cases held
      exact absurd rfl same
  head := by
    rw [worker, head]
    exact owned.head

theorem Owned.callerStep (owned : Owned state) (moved : callerStep state thread = some left) : Owned left := by
  rw [TaskQueue.callerStep] at moved
  cases position : state.callers thread with
  | idle => rw [position] at moved; contradiction
  | crashed => rw [position] at moved; contradiction
  | counted node task =>
      rw [position] at moved
      cases moved
      exact owned.keep rfl rfl rfl rfl False.elim
  | created node =>
      rw [position] at moved
      cases moved
      exact owned.keep rfl rfl rfl rfl False.elim
  | exchanged node prev =>
      simp only [position] at moved
      split at moved
      · cases moved
        exact owned.keep rfl rfl rfl rfl False.elim
      · cases moved
        exact owned.keep rfl rfl rfl rfl False.elim
  | linked node =>
      simp only [position] at moved
      split at moved
      · cases moved
        exact owned.acquire ‹_› _
      · cases moved
  | locked node =>
      rw [position] at moved
      cases moved
      exact owned.release (owned.callers thread (by rw [position]; trivial)) rfl rfl rfl id
  | notify node =>
      rw [position] at moved
      cases moved
      exact owned.keep rfl rfl rfl rfl False.elim
  | syncLock allow seen =>
      simp only [position] at moved
      split at moved
      · cases moved
        exact owned.acquire ‹_› _
      · cases moved
  | syncCheck allow seen =>
      have holds := owned.callers thread (by rw [position]; trivial)
      simp only [position] at moved
      split at moved
      · cases moved
        exact owned.keep rfl rfl rfl rfl (fun _ => by rw [position]; trivial)
      · cases moved
        exact owned.release holds rfl rfl rfl id
  | syncWait allow seen =>
      rw [position] at moved
      cases moved
      exact owned.keep rfl rfl rfl rfl False.elim
  | syncTake allow seen passed =>
      rw [position] at moved
      cases moved
      exact owned.release (owned.callers thread (by rw [position]; trivial)) rfl rfl rfl id
  | syncReturn allow seen passed raised =>
      rw [position] at moved
      cases moved
      exact owned.keep rfl rfl rfl rfl False.elim

end

section

variable {state : State ι τ ε}

/-- The worker moves without a change of the mutex. -/
theorem Owned.keepWorker (owned : Owned state) {left : State ι τ ε} (mtx : left.mtx = state.mtx)
    (callers : left.callers = state.callers) (locks : left.worker.Locks → state.worker.Locks)
    (head : ∀ node, left.worker.atHead = some node → left.head = node) : Owned left where
  worker held := mtx.trans (owned.worker (locks held))
  callers thread := by
    rw [callers, mtx]
    exact owned.callers thread
  head := head

theorem Owned.acquireWorker (owned : Owned state) (free : state.mtx = none) {left : State ι τ ε}
    (mtx : left.mtx = some .worker) (callers : left.callers = state.callers)
    (head : ∀ node, left.worker.atHead = some node → left.head = node) : Owned left where
  worker _ := mtx
  callers thread locks := by
    rw [callers] at locks
    have held := owned.callers thread locks
    rw [free] at held
    contradiction
  head := head

theorem Owned.releaseWorker (owned : Owned state) (holds : state.worker.Locks) {left : State ι τ ε}
    (callers : left.callers = state.callers) (outside : ¬ left.worker.Locks)
    (head : ∀ node, left.worker.atHead = some node → left.head = node) : Owned left where
  worker locks := absurd locks outside
  callers thread locks := by
    rw [callers] at locks
    have held := owned.callers thread locks
    rw [owned.worker holds] at held
    cases held
  head := head

theorem Owned.workerStep {raised : Option ε} (owned : Owned state) (moved : workerStep state raised = some left) :
    Owned left := by
  have head := owned.head
  rw [TaskQueue.workerStep] at moved
  cases position : state.worker with
  | exited => rw [position] at moved; contradiction
  | crashed => rw [position] at moved; contradiction
  | loop curr =>
      simp only [position, Worker.atHead] at moved head
      cases moved
      refine owned.keepWorker rfl rfl ?_ ?_
      · split <;> exact False.elim
      · split
        · intro node same
          cases same
        · exact head
  | load curr =>
      simp only [position, Worker.atHead] at moved head
      split at moved
      · cases moved
        exact owned.keepWorker rfl rfl False.elim (by intro node same; cases same)
      · split at moved
        · cases moved
          exact owned.keepWorker rfl rfl False.elim head
        · cases moved
          exact owned.keepWorker rfl rfl False.elim head
  | call curr next =>
      simp only [position, Worker.atHead] at moved head
      split at moved
      · cases moved
        exact owned.keepWorker rfl rfl False.elim (by intro node same; cases same)
      · split at moved
        · cases moved
          exact owned.keepWorker rfl rfl False.elim head
        · cases moved
          exact owned.keepWorker rfl rfl False.elim head
  | running curr next =>
      simp only [position, Worker.atHead] at moved head
      cases moved
      exact owned.keepWorker rfl rfl False.elim head
  | release curr next thrown =>
      simp only [position] at moved
      cases moved
      exact owned.keepWorker rfl rfl False.elim (by intro node same; cases same)
  | publish next thrown =>
      simp only [position] at moved
      cases moved
      exact owned.keepWorker rfl rfl False.elim fun node same => Option.some.inj same
  | lock next thrown =>
      simp only [position, Worker.atHead] at moved head
      split at moved
      · cases moved
        exact owned.acquireWorker ‹_› rfl rfl head
      · cases moved
  | capture next thrown =>
      simp only [position, Worker.atHead] at moved head
      cases moved
      exact owned.keepWorker rfl rfl (fun _ => by rw [position]; trivial) head
  | retire next =>
      simp only [position, Worker.atHead] at moved head
      cases moved
      exact owned.keepWorker rfl rfl (fun _ => by rw [position]; trivial) head
  | unlock next =>
      simp only [position, Worker.atHead] at moved head
      cases moved
      exact owned.releaseWorker (by rw [position]; trivial) rfl id head
  | notify next =>
      simp only [position, Worker.atHead] at moved head
      cases moved
      exact owned.keepWorker rfl rfl False.elim head
  | sleepLock curr =>
      simp only [position, Worker.atHead] at moved head
      split at moved
      · cases moved
        exact owned.acquireWorker ‹_› rfl rfl head
      · cases moved
  | sleepCheck curr =>
      have holds : state.worker.Locks := by rw [position]; trivial
      simp only [position, Worker.atHead] at moved head
      split at moved
      · cases moved
        exact owned.keepWorker rfl rfl False.elim (by intro node same; cases same)
      · split at moved
        · cases moved
          exact owned.releaseWorker holds rfl id head
        · cases moved
          exact owned.releaseWorker holds rfl id head
  | sleeping curr =>
      simp only [position, Worker.atHead] at moved head
      cases moved
      exact owned.keepWorker rfl rfl False.elim head

end

theorem reachable_owned [DecidableEq ι] {state : State ι τ ε}
    (reached : (machine (ι := ι) (τ := τ) (ε := ε)).Reachable state) : Owned state := by
  refine reached.invariant ?_ ?_
  · intro state starts
    rw [show state = State.start from starts]
    exact start_owned
  · intro state action left owned moved
    cases action with
    | enqueue thread task =>
        simp only [machine, TaskQueue.step] at moved
        split at moved
        · cases moved
          exact owned.keep rfl rfl rfl rfl False.elim
        · cases moved
    | sync thread allow =>
        simp only [machine, TaskQueue.step] at moved
        split at moved
        · cases moved
          exact owned.keep rfl rfl rfl rfl False.elim
        · cases moved
    | caller thread => exact owned.callerStep moved
    | worker raised => exact owned.workerStep moved

/-- A thread does not touch a mutex that another holds. -/
theorem Owned.mtx_callerStep [DecidableEq ι] {state left : State ι τ ε} {thread : ι} {owner : Owner ι}
    (owned : Owned state) (moved : TaskQueue.callerStep state thread = some left) (held : state.mtx = some owner)
    (other : owner ≠ .caller thread) : left.mtx = some owner := by
  have outside : ¬ (state.callers thread).Locks := by
    intro locks
    rw [owned.callers thread locks] at held
    exact other (Option.some.inj held).symm
  rw [TaskQueue.callerStep] at moved
  cases position : state.callers thread with
  | idle | crashed => rw [position] at moved; contradiction
  | linked | syncLock =>
      simp only [position, held, reduceCtorEq, if_false] at moved
  | locked | syncCheck | syncTake =>
      rw [position] at outside
      exact absurd trivial outside
  | counted | created | notify | syncWait | syncReturn =>
      simp only [position] at moved
      cases moved
      exact held
  | exchanged =>
      simp only [position] at moved
      split at moved
      · cases moved
        exact held
      · cases moved
        exact held

theorem Owned.mtx_workerStep {state left : State ι τ ε} {raised : Option ε} {owner : Owner ι}
    (owned : Owned state) (moved : TaskQueue.workerStep state raised = some left) (held : state.mtx = some owner)
    (other : owner ≠ .worker) : left.mtx = some owner := by
  have outside : ¬ state.worker.Locks := by
    intro locks
    rw [owned.worker locks] at held
    exact other (Option.some.inj held).symm
  rw [TaskQueue.workerStep] at moved
  cases position : state.worker with
  | exited | crashed => rw [position] at moved; contradiction
  | lock | sleepLock =>
      simp only [position, held, reduceCtorEq, if_false] at moved
  | capture | retire | unlock | sleepCheck =>
      rw [position] at outside
      exact absurd trivial outside
  | loop | running | release | publish | notify | sleeping =>
      simp only [position] at moved
      cases moved
      exact held
  | load | call =>
      simp only [position] at moved
      split at moved
      · cases moved
        exact held
      · split at moved
        · cases moved
          exact held
        · cases moved
          exact held

/-! ## A queue that nobody enqueues to -/

/-- In no call, or somewhere in `sync`. -/
def Caller.Syncs : Caller τ ε → Prop
  | .idle | .syncLock _ _ | .syncCheck _ _ | .syncWait _ _ | .syncTake _ _ _ | .syncReturn _ _ _ _ => True
  | _ => False

/-- The queue without its closing flag and its callers: what the worker sees while it runs. -/
def State.still (state : State ι τ ε) : State ι τ ε :=
  { state with
    done := false
    callers := fun _ => .idle }

theorem Inv.still {state : State ι τ ε} (inv : Inv state) (quiet : ∀ thread, (state.callers thread).Syncs) :
    Inv state.still where
  opened := rfl
  nodup := inv.nodup
  tickets := inv.tickets
  tail := inv.tail
  counted := inv.counted
  retired := inv.retired
  returned := inv.returned
  worker := inv.worker
  callers _ := trivial
  distinct left right node held := by cases held
  links index node later found := by
    obtain ⟨cell, stored, linked | ⟨_, thread, next, _, owes⟩⟩ := inv.links index node later found
    · exact ⟨cell, stored, .inl linked⟩
    · have syncs := quiet thread
      rw [owes] at syncs
      exact syncs.elim

def Linked (nodes : Nat → Option (Node τ)) (chain : List Nat) (first : Nat) : Prop :=
  ∀ index node, first ≤ index → chain[index]? = some node →
    ∃ cell, nodes node = some cell ∧ cell.next = chain[index + 1]?

theorem Inv.linked {state : State ι τ ε} (inv : Inv state.still) : Linked state.nodes state.chain state.released := by
  intro index node later found
  obtain ⟨cell, stored, linked | ⟨_, _, _, _, owes⟩⟩ := inv.links index node later found
  · exact ⟨cell, stored, linked⟩
  · cases owes

/-- A step of the worker of a closing queue is the step it makes in an open one, or it looks
again instead of sleeping. -/
theorem workerStep_still {state left : State ι τ ε} {raised : Option ε} (moved : workerStep state raised = some left)
    (stays : left.worker ≠ .exited) :
    workerStep state.still raised = some left.still ∨
      ∃ curr, state.worker = .sleepCheck curr ∧ left.still = { state.still with mtx := none, worker := .loop curr } := by
  rw [workerStep] at moved ⊢
  cases position : state.worker with
  | loop curr =>
      simp only [position, State.still] at moved ⊢
      cases moved
      cases closing : state.done with
      | true => exact absurd (by simp [closing]) stays
      | false => exact .inl rfl
  | sleepCheck curr =>
      simp only [position, State.still] at moved ⊢
      split at moved
      · cases moved
        exact .inl rfl
      · rename_i cell stored
        split at moved
        · cases moved
          exact .inr ⟨curr, rfl, rfl⟩
        · rename_i unlinked
          cases moved
          refine .inl ?_
          rw [if_neg (fun wakes => unlinked (.inl (wakes.resolve_right (by decide))))]
  | load curr =>
      simp only [position, State.still] at moved ⊢
      split at moved
      · cases moved
        exact .inl rfl
      · split at moved
        · cases moved
          exact .inl rfl
        · cases moved
          exact .inl rfl
  | call curr next =>
      simp only [position, State.still] at moved ⊢
      split at moved
      · cases moved
        exact .inl rfl
      · split at moved
        · cases moved
          exact .inl rfl
        · cases moved
          exact .inl rfl
  | lock next thrown =>
      simp only [position, State.still] at moved ⊢
      split at moved
      · rename_i free
        cases moved
        exact .inl (if_pos free)
      · cases moved
  | sleepLock curr =>
      simp only [position, State.still] at moved ⊢
      split at moved
      · rename_i free
        cases moved
        exact .inl (if_pos free)
      · cases moved
  | running | release | publish | capture | retire | unlock | notify | sleeping =>
      simp only [position, State.still] at moved ⊢
      cases moved
      exact .inl rfl
  | exited => rw [position] at moved; contradiction
  | crashed => rw [position] at moved; contradiction

theorem Inv.still_workerStep {state left : State ι τ ε} {raised : Option ε} (inv : Inv state.still)
    (moved : TaskQueue.workerStep state raised = some left) (stays : left.worker ≠ .exited) : Inv left.still := by
  rcases workerStep_still moved stays with same | ⟨curr, position, same⟩
  · exact inv.workerStep same
  · rw [same]
    have worker := inv.worker
    simp only [WorkerPlaced, State.still, position] at worker
    have placed : WorkerPlaced { state.still with worker := .loop curr } := worker
    exact inv.quiet_worker placed (by simp [State.released, State.still, position])

/-- Only the look at `done` ends the worker. -/
theorem exit_of_workerStep {state left : State ι τ ε} {raised : Option ε} (moved : workerStep state raised = some left)
    (exited : left.worker = .exited) :
    ∃ curr, state.worker = .loop curr ∧ left = { state with worker := .exited } := by
  rw [workerStep] at moved
  cases position : state.worker with
  | loop curr =>
      simp only [position] at moved
      cases moved
      exact ⟨curr, rfl, by simp only at exited; rw [exited]⟩
  | exited | crashed => rw [position] at moved; contradiction
  | lock | sleepLock =>
      simp only [position] at moved
      split at moved
      · cases moved
        cases exited
      · cases moved
  | load | call | sleepCheck =>
      simp only [position] at moved
      split at moved
      · cases moved
        cases exited
      · split at moved
        · cases moved
          cases exited
        · cases moved
          cases exited
  | running | release | publish | capture | retire | unlock | notify | sleeping =>
      simp only [position] at moved
      cases moved
      cases exited

/-- A task begins to run where it is called. -/
theorem call_of_running {state left : State ι τ ε} {raised : Option ε} {curr next : Nat}
    (moved : workerStep state raised = some left) (running : left.worker = .running curr next) :
    state.worker = .call curr next ∧ left = { state with ran := state.ran ++ [next], worker := .running curr next } := by
  rw [workerStep] at moved
  cases position : state.worker with
  | call =>
      simp only [position] at moved
      split at moved
      · cases moved
        cases running
      · split at moved
        · cases moved
          cases running
          exact ⟨rfl, rfl⟩
        · cases moved
          cases running
  | loop =>
      simp only [position] at moved
      cases moved
      cases closing : state.done <;> simp [closing] at running
  | exited | crashed => rw [position] at moved; contradiction
  | lock | sleepLock =>
      simp only [position] at moved
      split at moved
      · cases moved
        cases running
      · cases moved
  | load | sleepCheck =>
      simp only [position] at moved
      split at moved
      · cases moved
        cases running
      · split at moved
        · cases moved
          cases running
        · cases moved
          cases running
  | running | release | publish | capture | retire | unlock | notify | sleeping =>
      simp only [position] at moved
      cases moved
      cases running

theorem workerStep_callers {state left : State ι τ ε} {raised : Option ε} (moved : workerStep state raised = some left) :
    left.callers = state.callers := by
  rw [workerStep] at moved
  cases position : state.worker with
  | exited | crashed => rw [position] at moved; contradiction
  | lock | sleepLock =>
      simp only [position] at moved
      split at moved
      · cases moved
        rfl
      · cases moved
  | load | call | sleepCheck =>
      simp only [position] at moved
      split at moved
      · cases moved
        rfl
      · split at moved
        · cases moved
          rfl
        · cases moved
          rfl
  | loop | running | release | publish | capture | retire | unlock | notify | sleeping =>
      simp only [position] at moved
      cases moved
      rfl

/-- The worker deletes nodes and calls tasks; what it captured or was kept stays until it is taken. -/
theorem workerStep_grows {state left : State ι τ ε} {raised : Option ε} (moved : workerStep state raised = some left) :
    (∀ node cell, left.nodes node = some cell → state.nodes node = some cell) ∧ state.ran ⊆ left.ran ∧
      (state.firstException.isSome ∨ (∃ next error, state.worker = .capture next (some error)) →
        left.firstException.isSome) := by
  rw [workerStep] at moved
  have same (kept : left.nodes = state.nodes) (ran : left.ran = state.ran)
      (exception : left.firstException = state.firstException)
      (capture : ∀ next error, state.worker ≠ .capture next (some error)) :
      (∀ node cell, left.nodes node = some cell → state.nodes node = some cell) ∧ state.ran ⊆ left.ran ∧
        (state.firstException.isSome ∨ (∃ next error, state.worker = .capture next (some error)) →
          left.firstException.isSome) := by
    rw [kept, ran, exception]
    exact ⟨fun _ _ stored => stored, List.Subset.refl _,
      fun excepted => excepted.resolve_right fun ⟨next, error, here⟩ => capture next error here⟩
  cases position : state.worker with
  | exited | crashed => rw [position] at moved; contradiction
  | lock | sleepLock =>
      rw [← position]
      simp only [position] at moved
      split at moved
      · cases moved
        exact same rfl rfl rfl (by simp [position])
      · cases moved
  | load | sleepCheck =>
      rw [← position]
      simp only [position] at moved
      split at moved
      · cases moved
        exact same rfl rfl rfl (by simp [position])
      · split at moved
        · cases moved
          exact same rfl rfl rfl (by simp [position])
        · cases moved
          exact same rfl rfl rfl (by simp [position])
  | loop | running | publish | retire | unlock | notify | sleeping =>
      rw [← position]
      simp only [position] at moved
      cases moved
      exact same rfl rfl rfl (by simp [position])
  | call curr next =>
      simp only [position] at moved
      have runs : state.ran ⊆ state.ran ++ [next] := List.subset_append_left _ _
      split at moved
      · cases moved
        exact ⟨fun _ _ stored => stored, List.Subset.refl _, fun excepted => excepted.resolve_right (by simp)⟩
      · split at moved
        · cases moved
          exact ⟨fun _ _ stored => stored, runs, fun excepted => excepted.resolve_right (by simp)⟩
        · cases moved
          exact ⟨fun _ _ stored => stored, runs, fun excepted => excepted.resolve_right (by simp)⟩
  | release curr next thrown =>
      simp only [position] at moved
      cases moved
      refine ⟨fun node cell stored => ?_, List.Subset.refl _, fun excepted => excepted.resolve_right (by simp)⟩
      by_cases here : node = curr
      · rw [here] at stored
        simp at stored
      · exact (Function.update_of_ne here _ _).symm.trans stored
  | capture next thrown =>
      simp only [position] at moved
      cases moved
      refine ⟨fun _ _ stored => stored, List.Subset.refl _, fun excepted => ?_⟩
      cases kept : state.firstException with
      | some error => simp [kept]
      | none =>
          rw [kept] at excepted
          obtain ⟨_, error, here⟩ := excepted.resolve_left (by simp)
          cases here
          simp [kept]

/-- The node that a step of the worker deletes. -/
def Worker.deletes : Worker ε → List Nat
  | .release curr _ _ => [curr]
  | _ => []

/-- The worker frees the chain from its front. -/
theorem Inv.take_released {state left : State ι τ ε} {raised : Option ε} (inv : Inv state.still)
    (moved : TaskQueue.workerStep state raised = some left) :
    left.order = state.order ∧
      left.chain.take left.released = state.chain.take state.released ++ state.worker.deletes := by
  have worker := inv.worker
  rw [TaskQueue.workerStep] at moved
  simp only [WorkerPlaced, State.still] at worker
  have same (kept : left.order = state.order) (released : left.released = state.released)
      (none : state.worker.deletes = []) :
      left.order = state.order ∧
        left.chain.take left.released = state.chain.take state.released ++ state.worker.deletes := by
    rw [none, List.append_nil, released, State.chain, State.chain, kept]
    exact ⟨rfl, rfl⟩
  cases position : state.worker with
  | release curr next thrown =>
      simp only [position] at moved worker
      cases moved
      refine ⟨rfl, ?_⟩
      have place : state.chain[state.released]? = some curr := by
        simp only [State.released, position]
        exact worker.1
      have here : state.released = state.finished.length := by simp [State.released, position]
      have one := List.take_add_one (l := state.chain) (i := state.released)
      rw [place] at one
      rw [here] at one ⊢
      exact one
  | exited | crashed => rw [position] at moved; contradiction
  | lock | sleepLock =>
      rw [← position]
      simp only [position] at moved
      split at moved
      · cases moved
        exact same rfl (by simp [State.released, position]) (by rw [position]; rfl)
      · cases moved
  | load | call | sleepCheck =>
      rw [← position]
      simp only [position] at moved
      split at moved
      · cases moved
        exact same rfl (by simp [State.released, position]) (by rw [position]; rfl)
      · split at moved
        · cases moved
          exact same rfl (by simp [State.released, position]) (by rw [position]; rfl)
        · cases moved
          exact same rfl (by simp [State.released, position]) (by rw [position]; rfl)
  | loop =>
      rw [← position]
      simp only [position] at moved
      cases moved
      refine same rfl ?_ (by rw [position]; rfl)
      cases state.done <;> simp [State.released, position]
  | running | publish | capture | retire | unlock | notify | sleeping =>
      rw [← position]
      simp only [position] at moved
      cases moved
      exact same rfl (by simp [State.released, position]) (by rw [position]; rfl)

/-- The mutex, the exception and the closing flag mean nothing to the chain. -/
theorem Inv.still_of_same {state left : State ι τ ε} (inv : Inv state.still)
    (same : left.still = { state.still with mtx := left.mtx, firstException := left.firstException }) :
    Inv left.still := by
  rw [same]
  exact inv.quiet_worker inv.worker rfl

/-- The number of pending tasks a thread that waits in `sync` allows. -/
def Caller.waits : Caller τ ε → Option Nat
  | .syncLock allow _ | .syncCheck allow _ | .syncWait allow _ => some allow
  | _ => none

/-- What a step of a thread in `sync` does. -/
inductive SyncStep [DecidableEq ι] (state : State ι τ ε) (thread : ι) : State ι τ ε → Prop
  | waits (mtx : Option (Owner ι)) (position : Caller τ ε) (allow : Nat)
      (waiting : (state.callers thread).waits = some allow) (still : position.waits = some allow) :
      SyncStep state thread ({ state with mtx := mtx }.moveCaller thread position)
  | passes (allow : Nat) (seen : List Nat) (waiting : state.callers thread = .syncCheck allow seen)
      (enough : state.pending ≤ allow ∨ state.done = true) :
      SyncStep state thread (state.moveCaller thread (.syncTake allow seen state.order))
  | takes (allow : Nat) (seen passed : List Nat) (position : state.callers thread = .syncTake allow seen passed) :
      SyncStep state thread
        ({ state with
          firstException := none
          mtx := none }.moveCaller thread (.syncReturn allow seen passed state.firstException))
  | returns (allow : Nat) (seen passed : List Nat) (raised : Option ε)
      (position : state.callers thread = .syncReturn allow seen passed raised) :
      SyncStep state thread (state.moveCaller thread .idle)

theorem callerStep_sync [DecidableEq ι] {state left : State ι τ ε} {thread : ι}
    (syncs : (state.callers thread).Syncs) (moved : callerStep state thread = some left) :
    SyncStep state thread left := by
  rw [callerStep] at moved
  cases position : state.callers thread with
  | idle => rw [position] at moved; contradiction
  | syncLock allow seen =>
      simp only [position] at moved
      split at moved
      · cases moved
        exact .waits (some (.caller thread)) _ allow (by rw [position]; rfl) rfl
      · cases moved
  | syncCheck allow seen =>
      simp only [position] at moved
      split at moved
      · rename_i enough
        cases moved
        exact .passes allow seen position enough
      · cases moved
        exact .waits none _ allow (by rw [position]; rfl) rfl
  | syncWait allow seen =>
      simp only [position] at moved
      cases moved
      exact .waits state.mtx _ allow (by rw [position]; rfl) rfl
  | syncTake allow seen passed =>
      simp only [position] at moved
      cases moved
      exact .takes allow seen passed position
  | syncReturn allow seen passed raised =>
      simp only [position] at moved
      cases moved
      exact .returns allow seen passed raised position
  | counted | created | exchanged | linked | locked | notify | crashed =>
      rw [position] at syncs
      exact syncs.elim

/-- A step of a thread in `sync` leaves the chain and the worker alone. -/
theorem SyncStep.frame [DecidableEq ι] {state left : State ι τ ε} {thread : ι} (stepped : SyncStep state thread left) :
    ∃ mtx firstException position, position.Syncs ∧ left =
      { state with mtx := mtx, firstException := firstException }.moveCaller thread position := by
  cases stepped with
  | waits mtx position allow waiting still =>
      refine ⟨mtx, state.firstException, position, ?_, rfl⟩
      cases position with
      | syncLock | syncCheck | syncWait => trivial
      | _ => cases still
  | passes allow seen waiting enough => exact ⟨state.mtx, state.firstException, .syncTake allow seen state.order, trivial, rfl⟩
  | takes allow seen passed position => exact ⟨none, none, .syncReturn allow seen passed state.firstException, trivial, rfl⟩
  | returns allow seen passed raised position => exact ⟨state.mtx, state.firstException, .idle, trivial, rfl⟩

end KtKernel.TaskQueue
