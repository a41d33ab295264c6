import KtKernel.CpuInfer.Shutdown

namespace KtKernel.CpuInfer.Shutdown

open KtKernel.Data
open KtKernel.TaskQueue (Owner Caller Worker Linked Owned SyncStep)

variable {ι ε : Type} {state left : State ι ε}

/-! ## The nodes -/

/-- The worker is gone when these steps are taken. -/
def Destructor.Frees : Destructor → Prop
  | .free _ | .finished | .crashed => True
  | _ => False

def Destructor.Locks : Destructor → Prop
  | .setDone | .unlock => True
  | _ => False

/-- The worker is gone and left the chain from the head on. -/
def Remains (state : State ι ε) : Prop :=
  state.queue.chain[state.queue.finished.length]? = some state.queue.head ∧
    state.freed = state.queue.chain.take state.queue.finished.length ∧
    Linked state.queue.nodes state.queue.chain state.queue.finished.length

/-- The nodes that the worker leaves to the destructor. -/
def Rest (state : State ι ε) : Prop :=
  match state.destructor with
  | .free (some node) =>
      ∃ index, state.queue.chain[index]? = some node ∧ state.freed = state.queue.chain.take index ∧
        Linked state.queue.nodes state.queue.chain index
  | .free none | .finished => state.freed = state.queue.chain
  | .crashed => False
  | _ => Remains state

theorem rest_iff (before : ¬ state.destructor.Frees) : Rest state ↔ Remains state := by
  rw [Rest]
  cases destructor : state.destructor with
  | free | finished | crashed =>
      rw [destructor] at before
      exact absurd trivial before
  | _ => exact Iff.rfl

structure Memory (state : State ι ε) : Prop where
  owned : Owned state.queue
  syncs : ∀ thread, (state.queue.callers thread).Syncs
  own : state.queue.callers none = .idle
  locked : state.destructor.Locks → state.queue.mtx = some (.caller none)
  nodup : state.queue.chain.Nodup
  alive : state.queue.worker ≠ .exited → TaskQueue.Inv state.queue.still ∧
    state.freed = state.queue.chain.take state.queue.released ∧ ¬ state.destructor.Frees
  gone : state.queue.worker = .exited → Rest state

theorem Starts.memory [DecidableEq ι] (starts : Starts state) : Memory state where
  owned := TaskQueue.reachable_owned starts.queue
  syncs := starts.syncs
  own := starts.own
  locked locks := by
    rw [starts.destructor] at locks
    exact locks.elim
  nodup := (TaskQueue.reachable_inv starts.queue).nodup
  alive _ := by
    refine ⟨(TaskQueue.reachable_inv starts.queue).still starts.syncs, starts.freed, ?_⟩
    rw [starts.destructor]
    exact id
  gone exited := by
    have worker := (TaskQueue.reachable_inv starts.queue).worker
    rw [TaskQueue.WorkerPlaced, exited] at worker
    exact worker.elim

theorem Memory.callerStep [DecidableEq ι] (memory : Memory state) (moved : callerStep state thread = some left) : Memory left := by
  rw [Shutdown.callerStep, Option.map_eq_some_iff] at moved
  obtain ⟨queue, moved, rfl⟩ := moved
  have owned := memory.owned.callerStep moved
  have locked : state.destructor.Locks → queue.mtx = some (.caller none) := fun locks =>
    memory.owned.mtx_callerStep moved (memory.locked locks) (by simp)
  obtain ⟨mtx, firstException, position, syncs, rfl⟩ :=
    (TaskQueue.callerStep_sync (memory.syncs (some thread)) moved).frame
  refine
    { owned := owned
      syncs := ?_
      own := ?_
      locked := locked
      nodup := memory.nodup
      alive := ?_
      gone := memory.gone }
  · intro other
    by_cases same : other = some thread
    · rw [same, TaskQueue.moveCaller_self]
      exact syncs
    · rw [TaskQueue.moveCaller_other _ _ same]
      exact memory.syncs other
  · rw [TaskQueue.moveCaller_other _ _ (by simp)]
    exact memory.own
  · intro alive
    obtain ⟨inv, freed, frees⟩ := memory.alive alive
    exact ⟨inv.still_of_same rfl, freed, frees⟩

/-- The worker leaves its loop with the head of the chain under it. -/
theorem rest_of_exit (memory : Memory state) {curr : Nat} (position : state.queue.worker = .loop curr)
    (steps : Nat) :
    Rest { state with queue := { state.queue with worker := .exited }, poolSteps := steps } := by
  obtain ⟨inv, freed, frees⟩ := memory.alive (by rw [position]; simp)
  have worker := inv.worker
  have linked := inv.linked
  have head := memory.owned.head
  simp only [position] at head
  simp only [TaskQueue.WorkerPlaced, TaskQueue.State.still, position] at worker
  have released : state.queue.released = state.queue.finished.length := by
    simp [TaskQueue.State.released, position]
  rw [released] at linked freed
  have place := worker.1
  rw [← head curr rfl] at place
  refine (rest_iff ?_).mpr ⟨place, freed, linked⟩
  exact frees

theorem workerStep_cases (moved : workerStep state raised = some left) :
    (∃ curr next, state.queue.worker = .running curr next ∧ 0 < state.poolSteps ∧
      left = { state with
        poolSteps := state.poolSteps - 1
        misused := state.misused || state.destructor != .deleteBackend }) ∨
    ∃ queue steps, TaskQueue.workerStep state.queue raised = some queue ∧
      left = { state with
        queue := queue
        poolSteps := steps
        freed := state.freed ++ state.queue.worker.deletes } ∧
      ∀ curr next, queue.worker = .running curr next →
        steps = ((state.queue.nodes next).bind TaskQueue.Node.task).getD 0 := by
  rw [workerStep] at moved
  have queued {queue : TaskQueue.State (Option ι) Nat ε}
      (stepped : TaskQueue.workerStep state.queue raised = some queue)
      (other : ∀ curr next, state.queue.worker ≠ .call curr next) (curr next : Nat)
      (running : queue.worker = .running curr next) :
      state.poolSteps = ((state.queue.nodes next).bind TaskQueue.Node.task).getD 0 :=
    absurd (TaskQueue.call_of_running stepped running).1 (other curr next)
  cases position : state.queue.worker with
  | running curr next =>
      simp only [position] at moved
      split at moved
      · rename_i steps
        cases moved
        exact .inl ⟨curr, next, rfl, steps.2, rfl⟩
      · rw [Option.map_eq_some_iff] at moved
        obtain ⟨queue, stepped, rfl⟩ := moved
        exact .inr ⟨queue, state.poolSteps, stepped, by simp [Worker.deletes], queued stepped (by simp [position])⟩
  | call curr next =>
      simp only [position, Option.map_eq_some_iff] at moved
      obtain ⟨queue, stepped, rfl⟩ := moved
      refine .inr ⟨queue, ((state.queue.nodes next).bind TaskQueue.Node.task).getD 0, stepped, by simp [Worker.deletes],
        fun other follows running => ?_⟩
      have called := (TaskQueue.call_of_running stepped running).1
      rw [position] at called
      cases called
      rfl
  | release curr next thrown =>
      simp only [position, Option.map_eq_some_iff] at moved
      obtain ⟨queue, stepped, rfl⟩ := moved
      exact .inr ⟨queue, state.poolSteps, stepped, by simp [Worker.deletes], queued stepped (by simp [position])⟩
  | loop | load | publish | lock | capture | retire | unlock | notify | sleepLock | sleepCheck | sleeping | exited
  | crashed =>
      simp only [position, Option.map_eq_some_iff] at moved
      obtain ⟨queue, stepped, rfl⟩ := moved
      exact .inr ⟨queue, state.poolSteps, stepped, by simp [Worker.deletes], queued stepped (by simp [position])⟩

theorem Memory.workerStep (memory : Memory state) (moved : workerStep state raised = some left) : Memory left := by
  rcases workerStep_cases moved with ⟨curr, next, position, -, rfl⟩ | ⟨queue, steps, stepped, rfl, -⟩
  · exact
      { owned := memory.owned
        syncs := memory.syncs
        own := memory.own
        locked := memory.locked
        nodup := memory.nodup
        alive := memory.alive
        gone := fun exited => by
          change state.queue.worker = .exited at exited
          rw [position] at exited
          cases exited }
  · have alive : state.queue.worker ≠ .exited := by
      intro exited
      rw [TaskQueue.workerStep, exited] at stepped
      cases stepped
    obtain ⟨inv, freed, frees⟩ := memory.alive alive
    obtain ⟨order, taken⟩ := inv.take_released stepped
    have callers := TaskQueue.workerStep_callers stepped
    exact
      { owned := memory.owned.workerStep stepped
        syncs := by
          simp only [callers]
          exact memory.syncs
        own := by
          simp only [callers]
          exact memory.own
        locked := fun locks => memory.owned.mtx_workerStep stepped (memory.locked locks) (by simp)
        nodup := by
          simp only [TaskQueue.State.chain, order]
          exact memory.nodup
        alive := fun stays => ⟨inv.still_workerStep stepped stays, by rw [taken, freed], frees⟩
        gone := fun exited => by
          obtain ⟨curr, position, rfl⟩ := TaskQueue.exit_of_workerStep stepped exited
          have rest := rest_of_exit memory position steps
          rw [position]
          simp only [Worker.deletes, List.append_nil]
          exact rest }

/-- Nobody is in a section while the destructor may take or holds the mutex. -/
theorem Memory.relock (memory : Memory state)
    (free : state.queue.mtx = none ∨ state.queue.mtx = some (.caller none)) (mtx : Option (Owner (Option ι))) :
    Owned { state.queue with mtx := mtx } where
  worker locks := by
    have held := memory.owned.worker locks
    rcases free with free | free
    · rw [free] at held
      cases held
    · rw [free] at held
      cases held
  callers thread locks := by
    have held := memory.owned.callers thread locks
    rcases free with free | free
    · rw [free] at held
      cases held
    · rw [free] at held
      cases held
      have idle := memory.own
      simp only at locks
      rw [idle] at locks
      exact locks.elim
  head := memory.owned.head

theorem Linked.delete {nodes : Nat → Option (TaskQueue.Node Nat)} {chain : List Nat} {index node : Nat}
    (linked : Linked nodes chain index) (nodup : chain.Nodup) (place : chain[index]? = some node) :
    Linked (Function.update nodes node none) chain (index + 1) := by
  intro later other beyond found
  have different : other ≠ node := by
    intro same
    rw [same] at found
    have position := (List.getElem?_inj (List.getElem?_eq_some_iff.mp found).1 nodup).mp (found.trans place.symm)
    omega
  rw [Function.update_of_ne different]
  exact linked later other (by omega) found

/-- The destructor frees the front of what is left. -/
theorem Rest.free {node index : Nat} {cell : TaskQueue.Node Nat} (nodup : state.queue.chain.Nodup)
    (place : state.queue.chain[index]? = some node) (freed : state.freed = state.queue.chain.take index)
    (linked : Linked state.queue.nodes state.queue.chain index) (stored : state.queue.nodes node = some cell) :
    Rest { state with
      queue := { state.queue with nodes := Function.update state.queue.nodes node none }
      freed := state.freed ++ [node]
      destructor := .free cell.next } := by
  obtain ⟨own, same, next⟩ := linked index node le_rfl place
  rw [stored] at same
  cases same
  have one := List.take_add_one (l := state.queue.chain) (i := index)
  rw [place, ← freed] at one
  have front : state.freed ++ [node] = state.queue.chain.take (index + 1) := one.symm
  rw [Rest, next]
  cases follows : state.queue.chain[index + 1]? with
  | none =>
      have short := List.getElem?_eq_none_iff.mp follows
      simp only
      rw [front]
      exact List.take_of_length_le short
  | some after_ => exact ⟨index + 1, follows, front, Linked.delete linked nodup place⟩

theorem Memory.onward (memory : Memory state) {queue : TaskQueue.State (Option ι) Nat ε} {destructor : Destructor}
    (owned : Owned queue) (same : queue = { state.queue with mtx := queue.mtx, done := queue.done })
    (locked : destructor.Locks → queue.mtx = some (.caller none))
    (before : ¬ state.destructor.Frees) (frees : ¬ destructor.Frees) :
    Memory { state with queue := queue, destructor := destructor } := by
  rw [same] at owned ⊢
  exact
    { owned := owned
      syncs := memory.syncs
      own := memory.own
      locked := locked
      nodup := memory.nodup
      alive := fun alive => by
        obtain ⟨inv, freed, _⟩ := memory.alive alive
        exact ⟨inv.still_of_same rfl, freed, frees⟩
      gone := fun exited => by
        have remains := (rest_iff before).mp (memory.gone exited)
        refine (rest_iff ?_).mpr remains
        exact frees }

/-- What the destructor does once the worker is gone. -/
theorem Memory.carry (memory : Memory state) {nodes : Nat → Option (TaskQueue.Node Nat)} {freed : List Nat}
    {destructor : Destructor} (exited : state.queue.worker = .exited) (locks : ¬ destructor.Locks)
    (rest : Rest { state with
      queue := { state.queue with nodes := nodes }
      freed := freed
      destructor := destructor }) :
    Memory { state with
      queue := { state.queue with nodes := nodes }
      freed := freed
      destructor := destructor } where
  owned := ⟨memory.owned.worker, memory.owned.callers, memory.owned.head⟩
  syncs := memory.syncs
  own := memory.own
  locked held := absurd held locks
  nodup := memory.nodup
  alive alive := absurd exited alive
  gone _ := rest

theorem Memory.destructorStep (memory : Memory state) (moved : destructorStep state = some left) : Memory left := by
  rw [Shutdown.destructorStep] at moved
  have gone : state.destructor.Frees → state.queue.worker = .exited := by
    intro frees
    by_contra alive
    exact (memory.alive alive).2.2 frees
  cases position : state.destructor with
  | deleteBackend =>
      simp only [position] at moved
      cases moved
      exact memory.onward memory.owned rfl False.elim (by rw [position]; exact id) id
  | lock =>
      simp only [position] at moved
      split at moved
      · rename_i free
        cases moved
        exact memory.onward (memory.relock (.inl free) _) rfl (fun _ => rfl) (by rw [position]; exact id) id
      · cases moved
  | setDone =>
      have held := memory.locked (by rw [position]; trivial)
      simp only [position] at moved
      cases moved
      exact memory.onward ⟨memory.owned.worker, memory.owned.callers, memory.owned.head⟩ rfl (fun _ => held)
        (by rw [position]; exact id) id
  | unlock =>
      have held := memory.locked (by rw [position]; trivial)
      simp only [position] at moved
      cases moved
      exact memory.onward (memory.relock (.inr held) _) rfl False.elim (by rw [position]; exact id) id
  | notify =>
      simp only [position] at moved
      cases moved
      exact memory.onward memory.owned rfl False.elim (by rw [position]; exact id) id
  | join =>
      simp only [position] at moved
      split at moved
      · rename_i exited
        obtain ⟨place, freed, linked⟩ := (rest_iff (by rw [position]; exact id)).mp (memory.gone exited)
        cases moved
        exact memory.carry exited id ⟨_, place, freed, linked⟩
      · cases moved
  | free node =>
      have exited := gone (by rw [position]; trivial)
      have rest := memory.gone exited
      cases node with
      | none =>
          simp only [position, Rest] at moved rest
          cases moved
          exact memory.carry exited id rest
      | some node =>
          simp only [position, Rest] at moved rest
          obtain ⟨index, place, freed, linked⟩ := rest
          split at moved
          · rename_i cell stored
            cases moved
            exact memory.carry exited id (Rest.free memory.nodup place freed linked stored)
          · rename_i missing
            obtain ⟨cell, stored, -⟩ := linked index node le_rfl place
            rw [missing] at stored
            cases stored
  | finished => rw [position] at moved; cases moved
  | crashed => rw [position] at moved; cases moved

theorem PoolFree.workerStep (memory : Memory state) (free : PoolFree state) (unused : state.misused = false)
    (moved : workerStep state raised = some left) : PoolFree left ∧ left.misused = false := by
  obtain ⟨idle, tasks⟩ := free
  rcases workerStep_cases moved with ⟨curr, next, position, steps, -⟩ | ⟨queue, steps, stepped, rfl, begins⟩
  · have none := idle curr next position
    omega
  · have alive : state.queue.worker ≠ .exited := by
      intro exited
      rw [TaskQueue.workerStep, exited] at stepped
      cases stepped
    obtain ⟨inv, -, -⟩ := memory.alive alive
    obtain ⟨nodes, ran, -⟩ := TaskQueue.workerStep_grows stepped
    have order := (inv.take_released stepped).1
    refine ⟨⟨fun curr next running => ?_, fun node member fresh cell stored => ?_⟩, unused⟩
    · rw [begins curr next running]
      obtain ⟨position, -⟩ := TaskQueue.call_of_running stepped running
      have worker := inv.worker
      simp only [TaskQueue.WorkerPlaced, TaskQueue.State.still, position] at worker
      obtain ⟨-, follows, -, called⟩ := worker
      cases stored : state.queue.nodes next with
      | none => rfl
      | some cell =>
          refine tasks next (List.mem_of_getElem? follows) (fun member => ?_) cell stored
          -- the node after the finished ones is none of them
          rw [called] at member
          obtain ⟨index, below, found⟩ := List.getElem_of_mem member
          have earlier : state.queue.chain[index + 1]? = some next := by
            rw [TaskQueue.State.chain, List.getElem?_cons_succ]
            obtain ⟨rest, whole⟩ := inv.retired
            change state.queue.finished ++ rest = state.queue.order at whole
            rw [← whole, List.getElem?_append_left below, ← found]
            exact List.getElem?_eq_getElem below
          have same := (List.getElem?_inj (List.getElem?_eq_some_iff.mp earlier).1 memory.nodup).mp
            (earlier.trans follows.symm)
          omega
    · simp only [TaskQueue.State.chain, order] at member
      exact tasks node member (fun called => fresh (ran called)) cell (nodes node cell stored)

theorem PoolFree.callerStep [DecidableEq ι] (memory : Memory state) (free : PoolFree state)
    (moved : callerStep state thread = some left) : PoolFree left ∧ left.misused = state.misused := by
  rw [Shutdown.callerStep, Option.map_eq_some_iff] at moved
  obtain ⟨queue, moved, rfl⟩ := moved
  obtain ⟨mtx, firstException, position, -, rfl⟩ :=
    (TaskQueue.callerStep_sync (memory.syncs (some thread)) moved).frame
  exact ⟨free, rfl⟩

theorem PoolFree.destructorStep (free : PoolFree state) (moved : destructorStep state = some left) :
    PoolFree left ∧ left.misused = state.misused := by
  rw [Shutdown.destructorStep] at moved
  cases position : state.destructor with
  | deleteBackend | setDone | unlock | notify =>
      simp only [position] at moved
      cases moved
      exact ⟨free, rfl⟩
  | lock | join =>
      simp only [position] at moved
      split at moved
      · cases moved
        exact ⟨free, rfl⟩
      · cases moved
  | free node =>
      cases node with
      | none =>
          simp only [position] at moved
          cases moved
          exact ⟨free, rfl⟩
      | some node =>
          simp only [position] at moved
          split at moved
          · cases moved
            refine ⟨⟨free.1, fun other member fresh cell stored => ?_⟩, rfl⟩
            by_cases here : other = node
            · rw [here] at stored
              simp at stored
            · exact free.2 other member fresh cell ((Function.update_of_ne here _ _).symm.trans stored)
          · cases moved
            exact ⟨free, rfl⟩
  | finished | crashed => rw [position] at moved; cases moved

/-! ## The threads in `sync` -/

theorem ran_le_committed {queue : TaskQueue.State (Option ι) Nat ε} (inv : TaskQueue.Inv queue.still) :
    queue.ran.length ≤ committed queue := by
  have called : queue.ran.length ≤ queue.order.length := inv.ran_prefix.1.length_le
  rw [committed]
  split
  · omega
  · omega
  · exact le_rfl

theorem committed_le {queue left : TaskQueue.State (Option ι) Nat ε} (inv : TaskQueue.Inv queue.still)
    (stepped : TaskQueue.workerStep queue raised = some left) : committed queue ≤ committed left := by
  have worker := inv.worker
  have called : queue.ran.length ≤ queue.order.length := inv.ran_prefix.1.length_le
  have linked := inv.linked
  rw [TaskQueue.workerStep] at stepped
  simp only [TaskQueue.WorkerPlaced, TaskQueue.State.still] at worker
  cases position : queue.worker with
  | exited | crashed => rw [position] at stepped; contradiction
  | loop curr =>
      simp only [position] at stepped
      cases stepped
      cases closing : queue.done with
      | true => simp [committed, position]
      | false =>
          simp only [committed, position, Bool.false_eq_true, if_false]
          omega
  | load curr =>
      simp only [position] at stepped worker
      obtain ⟨place, ran⟩ := worker
      obtain ⟨cell, stored, next⟩ := linked queue.finished.length curr (by simp [TaskQueue.State.released, position]) place
      simp only [stored] at stepped
      split at stepped
      · cases stepped
        simp only [committed, position]
        exact le_rfl
      · rename_i last
        cases stepped
        -- without a next node every task of the chain has been called
        rw [last] at next
        have short := List.getElem?_eq_none_iff.mp next.symm
        simp only [TaskQueue.State.chain, List.length_cons] at short
        simp only [committed, position]
        rw [ran]
        omega
  | call curr next =>
      simp only [position] at stepped worker
      obtain ⟨cell, stored, -⟩ := linked (queue.finished.length + 1) next
        (by simp [TaskQueue.State.released, position]) worker.2.1
      simp only [stored] at stepped
      split at stepped
      · cases stepped
        simp only [committed, position, List.length_append, List.length_singleton]
        omega
      · cases stepped
        simp only [committed, position, List.length_append, List.length_singleton]
        omega
  | lock | sleepLock =>
      simp only [position] at stepped
      split at stepped
      · cases stepped
        simp only [committed, position]
        exact le_rfl
      · cases stepped
  | sleepCheck =>
      simp only [position] at stepped
      split at stepped
      · cases stepped
        simp only [committed, position]
        exact le_rfl
      · split at stepped
        · cases stepped
          simp only [committed, position]
          exact le_rfl
        · cases stepped
          simp only [committed, position]
          exact le_rfl
  | running | release | publish | capture | retire | unlock | notify | sleeping =>
      simp only [position] at stepped
      cases stepped
      simp only [committed, position]
      exact le_rfl

structure Honest (queue : TaskQueue.State (Option ι) Nat ε) (taken : List (Nat × Nat)) : Prop where
  waits : Covered queue
  takes : ∀ thread allow seen passed, queue.callers thread = .syncTake allow seen passed →
    passed.length ≤ committed queue + allow ∨ Protected queue thread
  returns : ∀ thread allow seen passed, queue.callers thread = .syncReturn allow seen passed none →
    passed.length ≤ committed queue + allow
  answers : ∀ entry ∈ taken, entry.2 ≤ committed queue + entry.1

theorem Starts.honest [DecidableEq ι] (starts : Starts state) (covered : Covered state.queue) :
    Honest state.queue state.taken := by
  have inv := TaskQueue.reachable_inv starts.queue
  have least := ran_le_committed (inv.still starts.syncs)
  have finished : state.queue.finished.length ≤ state.queue.ran.length := by
    rcases inv.ran_prefix.2 with same | ⟨next, same⟩
    · rw [same]
    · simp [same]
  refine ⟨covered, ?_, ?_, ?_⟩
  · intro thread allow seen passed position
    have placed := inv.callers thread
    rw [position] at placed
    obtain ⟨-, -, bound⟩ := placed
    exact .inl (by omega)
  · intro thread allow seen passed position
    have placed := inv.callers thread
    rw [position] at placed
    obtain ⟨-, -, bound⟩ := placed
    omega
  · rw [starts.taken]
    simp

/-- What stands while the worker is no less committed and an exception that was kept still is. -/
theorem Honest.mono {queue left : TaskQueue.State (Option ι) Nat ε} {taken : List (Nat × Nat)} (honest : Honest queue taken)
    (callers : left.callers = queue.callers) (order : left.order = queue.order)
    (less : committed queue ≤ committed left)
    (kept : ∀ thread, Protected queue thread → Protected left thread) : Honest left taken where
  waits thread allow waiting := by
    rw [callers] at waiting
    rw [order]
    exact (honest.waits thread allow waiting).imp (fun bound => by omega) (kept thread)
  takes thread allow seen passed position := by
    rw [callers] at position
    exact (honest.takes thread allow seen passed position).imp (fun bound => by omega) (kept thread)
  returns thread allow seen passed position := by
    rw [callers] at position
    have bound := honest.returns thread allow seen passed position
    omega
  answers entry member := by
    have bound := honest.answers entry member
    omega

theorem Honest.workerStep {queue left : TaskQueue.State (Option ι) Nat ε} {taken : List (Nat × Nat)}
    (honest : Honest queue taken) (inv : TaskQueue.Inv queue.still) (stepped : TaskQueue.workerStep queue raised = some left) :
    Honest left taken := by
  have callers := TaskQueue.workerStep_callers stepped
  refine honest.mono callers (inv.take_released stepped).1 (committed_le inv stepped) fun thread kept => ?_
  rw [Protected, callers]
  exact ⟨.inl ((TaskQueue.workerStep_grows stepped).2.2 kept.1), kept.2⟩

theorem waits_takes {position : Caller Nat ε} (waiting : position.waits = some allow) : Takes position := by
  cases position with
  | syncLock | syncCheck | syncWait => trivial
  | _ => cases waiting

/-- Only the thread itself is protected while it is before the place where it takes. -/
theorem Protected.unique {queue : TaskQueue.State (Option ι) Nat ε} (kept : Protected queue other)
    (within : Takes (queue.callers thread)) : other = thread := by
  by_contra apart
  exact kept.2 thread (fun same => apart same.symm) within

theorem Protected.move [DecidableEq ι] {queue : TaskQueue.State (Option ι) Nat ε} {position : Caller Nat ε}
    (mtx : Option (Owner (Option ι))) (kept : Protected queue other)
    (within : other = thread ∨ ¬ Takes position) :
    Protected ({ queue with mtx := mtx }.moveCaller thread position) other := by
  refine ⟨kept.1, fun third apart => ?_⟩
  by_cases same : third = thread
  · rw [same, TaskQueue.moveCaller_self]
    exact within.resolve_left fun here => apart (same.trans here.symm)
  · rw [TaskQueue.moveCaller_other _ _ same]
    exact kept.2 third apart

/-- The clauses of the thread that moved, and the others'. -/
theorem Honest.moved [DecidableEq ι] {queue left : TaskQueue.State (Option ι) Nat ε} {taken answers : List (Nat × Nat)}
    {position : Caller Nat ε} (honest : Honest queue taken)
    (callers : left.callers = Function.update queue.callers thread position)
    (order : left.order = queue.order) (committed_eq : committed left = committed queue)
    (kept : ∀ other ≠ thread, Protected queue other → Protected left other)
    (waits : ∀ allow, position.waits = some allow →
      queue.order.length ≤ committed queue + allow ∨ Protected left thread)
    (takes : ∀ allow seen passed, position = .syncTake allow seen passed →
      passed.length ≤ committed queue + allow ∨ Protected left thread)
    (returns : ∀ allow seen passed, position = .syncReturn allow seen passed none →
      passed.length ≤ committed queue + allow)
    (answered : ∀ entry ∈ answers, entry.2 ≤ committed queue + entry.1) : Honest left answers := by
  rw [← committed_eq] at answered
  refine ⟨fun other allow wanted => ?_, fun other allow seen passed place => ?_,
    fun other allow seen passed place => ?_, answered⟩
  · rw [callers] at wanted
    rw [order, committed_eq]
    by_cases same : other = thread
    · rw [same, Function.update_self] at wanted
      rw [same]
      exact waits allow wanted
    · rw [Function.update_of_ne same] at wanted
      exact (honest.waits other allow wanted).imp_right (kept other same)
  · rw [callers] at place
    rw [committed_eq]
    by_cases same : other = thread
    · rw [same, Function.update_self] at place
      rw [same]
      exact takes allow seen passed place
    · rw [Function.update_of_ne same] at place
      exact (honest.takes other allow seen passed place).imp_right (kept other same)
  · rw [callers] at place
    rw [committed_eq]
    by_cases same : other = thread
    · rw [same, Function.update_self] at place
      exact returns allow seen passed place
    · rw [Function.update_of_ne same] at place
      exact honest.returns other allow seen passed place

theorem answered_of_takes {position : Caller Nat ε} (within : Takes position) : answered position = [] := by
  cases position with
  | syncReturn => exact within.elim
  | _ => rfl

theorem Honest.callerStep [DecidableEq ι] {queue left : TaskQueue.State (Option ι) Nat ε} {taken : List (Nat × Nat)}
    (honest : Honest queue taken) (owned : Owned queue) (stepped : SyncStep queue thread left) :
    Honest left (answered (queue.callers thread) ++ taken) := by
  cases stepped with
  | waits mtx position allow waiting still =>
      have within := waits_takes waiting
      rw [answered_of_takes within]
      have bound := honest.waits thread allow waiting
      refine honest.moved rfl rfl rfl (fun other apart kept => absurd (kept.unique within) apart)
        (fun allowed wanted => ?_) (fun allowed seen passed place => ?_) (fun allowed seen passed place => ?_)
        honest.answers
      · rw [still] at wanted
        cases wanted
        exact bound.imp_right fun kept => kept.move mtx (.inl rfl)
      · rw [place] at still
        cases still
      · rw [place] at still
        cases still
  | passes allow seen waiting enough =>
      have waits : (queue.callers thread).waits = some allow := by rw [waiting]; rfl
      have within := waits_takes waits
      rw [answered_of_takes within]
      have bound := honest.waits thread allow waits
      refine honest.moved rfl rfl rfl (fun other apart kept => absurd (kept.unique within) apart)
        (fun allowed wanted => by cases wanted) (fun allowed known passed place => ?_)
        (fun allowed known passed place => by cases place) honest.answers
      cases place
      exact bound.imp_right fun kept => kept.move queue.mtx (.inl rfl)
  | takes allow seen passed position =>
      have within : Takes (queue.callers thread) := by rw [position]; trivial
      rw [answered_of_takes within]
      refine honest.moved rfl rfl rfl (fun other apart kept => absurd (kept.unique within) apart)
        (fun allowed wanted => by cases wanted) (fun allowed known answer place => by cases place)
        (fun allowed known answer place => ?_) honest.answers
      injection place with first second third raised
      rw [← first, ← third]
      refine (honest.takes thread allow seen passed position).resolve_right fun kept => ?_
      -- this thread holds the mutex, so the worker is not about to store an exception
      rcases kept.1 with some | ⟨next, error, captures⟩
      · rw [raised] at some
        cases some
      · have mine := owned.callers thread (by rw [position]; trivial)
        rw [owned.worker (by rw [captures]; trivial)] at mine
        cases mine
  | returns allow seen passed raised position =>
      refine honest.moved rfl rfl rfl (fun other apart kept => kept.move queue.mtx (.inr id))
        (fun allowed wanted => by cases wanted) (fun allowed known answer place => by cases place)
        (fun allowed known answer place => by cases place) (fun entry member => ?_)
      rcases List.mem_append.mp member with new | old
      · rw [position] at new
        cases raised with
        | none =>
            rw [List.mem_singleton.mp new]
            exact honest.returns thread allow seen passed position
        | some error => cases new
      · exact honest.answers entry old

theorem Honest.destructorStep (honest : Honest state.queue state.taken) (moved : destructorStep state = some left) :
    Honest left.queue left.taken := by
  suffices same : left.taken = state.taken ∧ left.queue.worker = state.queue.worker ∧
      left.queue.order = state.queue.order ∧ left.queue.ran = state.queue.ran ∧
      left.queue.callers = state.queue.callers ∧ left.queue.firstException = state.queue.firstException by
    obtain ⟨taken, worker, order, ran, callers, exception⟩ := same
    have equal : committed left.queue = committed state.queue := by rw [committed, committed, worker, order, ran]
    rw [taken]
    refine honest.mono callers order (le_of_eq equal.symm) fun thread kept => ?_
    rw [Protected, exception, worker, callers]
    exact kept
  rw [Shutdown.destructorStep] at moved
  cases position : state.destructor with
  | deleteBackend | setDone | unlock | notify =>
      simp only [position] at moved
      cases moved
      exact ⟨rfl, rfl, rfl, rfl, rfl, rfl⟩
  | lock | join =>
      simp only [position] at moved
      split at moved
      · cases moved
        exact ⟨rfl, rfl, rfl, rfl, rfl, rfl⟩
      · cases moved
  | free node =>
      cases node with
      | none =>
          simp only [position] at moved
          cases moved
          exact ⟨rfl, rfl, rfl, rfl, rfl, rfl⟩
      | some node =>
          simp only [position] at moved
          split at moved
          · cases moved
            exact ⟨rfl, rfl, rfl, rfl, rfl, rfl⟩
          · cases moved
            exact ⟨rfl, rfl, rfl, rfl, rfl, rfl⟩
  | finished | crashed => rw [position] at moved; cases moved

/-! ## Every run -/

structure Inv (state : State ι ε) : Prop where
  memory : Memory state
  pool : PoolFree state
  unused : state.misused = false
  honest : Honest state.queue state.taken

theorem Inv.step [DecidableEq ι] (inv : Inv state) (moved : step state action = some left) : Inv left := by
  cases action with
  | caller thread =>
      have memory := inv.memory.callerStep moved
      obtain ⟨pool, unused⟩ := PoolFree.callerStep inv.memory inv.pool moved
      refine ⟨memory, pool, unused.trans inv.unused, ?_⟩
      change callerStep state thread = some left at moved
      rw [callerStep, Option.map_eq_some_iff] at moved
      obtain ⟨queue, moved, rfl⟩ := moved
      exact inv.honest.callerStep inv.memory.owned (TaskQueue.callerStep_sync (inv.memory.syncs (some thread)) moved)
  | worker raised =>
      have memory := inv.memory.workerStep moved
      obtain ⟨pool, unused⟩ := PoolFree.workerStep inv.memory inv.pool inv.unused moved
      refine ⟨memory, pool, unused, ?_⟩
      rcases workerStep_cases moved with ⟨curr, next, position, -, rfl⟩ | ⟨queue, steps, stepped, rfl, -⟩
      · exact inv.honest
      · have alive : state.queue.worker ≠ .exited := by
          intro exited
          rw [TaskQueue.workerStep, exited] at stepped
          cases stepped
        exact inv.honest.workerStep (inv.memory.alive alive).1 stepped
  | destructor =>
      have memory := inv.memory.destructorStep moved
      obtain ⟨pool, unused⟩ := PoolFree.destructorStep inv.pool moved
      exact ⟨memory, pool, unused.trans inv.unused, inv.honest.destructorStep moved⟩

theorem Rest.nodup (nodup : state.queue.chain.Nodup) (rest : Rest state) : state.freed.Nodup := by
  have front (index : Nat) : (state.queue.chain.take index).Nodup := nodup.sublist (List.take_sublist _ _)
  cases position : state.destructor with
  | free node =>
      cases node with
      | none =>
          simp only [Rest, position] at rest
          rw [rest]
          exact nodup
      | some node =>
          simp only [Rest, position] at rest
          obtain ⟨index, -, freed, -⟩ := rest
          rw [freed]
          exact front index
  | finished =>
      simp only [Rest, position] at rest
      rw [rest]
      exact nodup
  | crashed =>
      simp only [Rest, position] at rest
  | deleteBackend | lock | setDone | unlock | notify | join =>
      have remains := (rest_iff (by rw [position]; exact id)).mp rest
      rw [remains.2.1]
      exact front _

theorem Inv.orderly (inv : Inv state) : Orderly state := by
  have memory := inv.memory
  have gone : state.destructor.Frees → Rest state := by
    intro frees
    refine memory.gone ?_
    by_contra alive
    exact (memory.alive alive).2.2 frees
  refine ⟨inv.unused, ?_, fun finished => ?_, ⟨fun crashed => ?_, fun crashed => ?_⟩, fun exited entry member => ?_⟩
  · by_cases exited : state.queue.worker = .exited
    · exact (memory.gone exited).nodup memory.nodup
    · rw [(memory.alive exited).2.1]
      exact memory.nodup.sublist (List.take_sublist _ _)
  · have rest := gone (by rw [finished]; trivial)
    simp only [Rest, finished] at rest
    rw [rest]
  · have worker := (memory.alive (by rw [crashed]; simp)).1.worker
    simp only [TaskQueue.WorkerPlaced, TaskQueue.State.still, crashed] at worker
  · have rest := gone (by rw [crashed]; trivial)
    simp only [Rest, crashed] at rest
  · have bound := inv.honest.answers entry member
    simp only [committed, exited] at bound
    exact bound

/-- Shutdown is orderly if the tasks that are left make no step on the pool and every thread in
`sync` allows for the tasks that may never be called. -/
theorem shutdown_orderly [DecidableEq ι] {start : State ι ε} (starts : Starts start) (pool : PoolFree start)
    (covered : Covered start.queue) (reached : (machine start).Reachable state) : Orderly state := by
  refine Inv.orderly (reached.invariant ?_ fun _ _ _ inv moved => inv.step moved)
  intro state same
  rw [show state = start from same]
  exact ⟨starts.memory, pool, starts.misused, starts.honest covered⟩

/-- One task queued, of as many steps on the pool as given, and one thread about to wait in `sync`. -/
def queuedSchedule (steps : Nat) : List (TaskQueue.Action (Option Unit) Nat Unit) :=
  .enqueue (some ()) (some steps) :: List.replicate 6 (.caller (some ())) ++ [.sync (some ()) 1]

def queued (steps : Nat) : State Unit Unit where
  queue := (TaskQueue.machine.run TaskQueue.State.start (queuedSchedule steps)).getD TaskQueue.State.start
  poolSteps := 0
  destructor := .deleteBackend
  misused := false
  freed := []
  taken := []

theorem queued_starts (steps : Nat) : Starts (queued steps) where
  queue := by
    have ran : TaskQueue.machine.run TaskQueue.State.start (queuedSchedule steps) = some (queued steps).queue := rfl
    exact (Machine.Reachable.initial rfl).run ran
  syncs := by
    intro thread
    cases thread with
    | none => trivial
    | some _ => trivial
  own := rfl
  destructor := rfl
  misused := rfl
  freed := rfl
  taken := rfl

theorem queued_poolFree : PoolFree (queued 0) := by
  refine ⟨fun curr next running => ?_, fun node member _ cell stored => ?_⟩
  · cases running
  · have places : node ∈ [0, 1] := member
    rcases List.mem_cons.mp places with rfl | last
    · cases stored
      rfl
    · rw [List.mem_singleton.mp last] at stored
      cases stored
      rfl

theorem queued_covered (steps : Nat) : Covered (queued steps).queue := by
  intro thread allow waiting
  refine .inl ?_
  cases thread with
  | none => cases waiting
  | some _ =>
      cases waiting
      exact le_rfl

/-- The worker leaves with the task uncalled, and the `sync` allows for it. -/
def uncalledSchedule : List (Action Unit Unit) :=
  List.replicate 5 .destructor ++ [.worker none] ++ List.replicate 4 (.caller ()) ++ List.replicate 4 .destructor

theorem shutdown_orderly_uncalled :
    ∃ state : State Unit Unit, state.destructor = .finished ∧ state.freed = [0, 1] ∧ state.taken = [(1, 1)] ∧ Orderly state := by
  obtain ⟨state, reached, passed⟩ := (machine (queued 0)).exists_reachable_of_run (queued 0) uncalledSchedule rfl
    (fun state => state.destructor = .finished ∧ state.freed = [0, 1] ∧ state.taken = [(1, 1)]) (by decide +kernel)
  obtain ⟨finished, freed, taken⟩ := of_decide_eq_true passed
  exact ⟨state, finished, freed, taken, shutdown_orderly (queued_starts 0) queued_poolFree (queued_covered 0) reached⟩

/-- The pool is deleted first, and the worker then calls the queued task. -/
theorem task_uses_deleted_pool :
    Starts (queued 1) ∧ ∃ state, (machine (queued 1)).Reachable state ∧ state.misused = true ∧ ¬ Orderly state := by
  refine ⟨queued_starts 1, ?_⟩
  obtain ⟨state, reached, passed⟩ := (machine (queued 1)).exists_reachable_of_run (queued 1)
    (.destructor :: List.replicate 4 (.worker none)) rfl (fun state => state.misused) (by decide +kernel)
  refine ⟨state, reached, passed, fun orderly => ?_⟩
  rw [orderly.pool] at passed
  cases passed

end KtKernel.CpuInfer.Shutdown
