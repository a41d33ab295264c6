import KtKernel.Data.Fifo
import KtKernel.TaskQueue.Invariant

namespace KtKernel.TaskQueue

open KtKernel.Data

variable {ι τ ε : Type}

/-! ## What the invariant says of the history -/

/-- Tasks run in the order of the exchanges, and only the last one started can
be unfinished. -/
theorem Inv.ran_prefix {state : State ι τ ε} (inv : Inv state) :
    state.ran <+: state.order ∧
      (state.ran = state.finished ∨ ∃ next, state.ran = state.finished ++ [next]) := by
  have worker := inv.worker
  obtain ⟨rest, whole⟩ := inv.retired
  have extends_ : ∀ {next}, state.chain[state.finished.length + 1]? = some next →
      state.finished ++ [next] <+: state.order := by
    intro next follows
    rw [State.chain, List.getElem?_cons_succ, ← whole,
      List.getElem?_append_right (Nat.le_refl _), Nat.sub_self] at follows
    cases rest with
    | nil => simp at follows
    | cons first rest =>
        obtain rfl : first = next := by simpa using follows
        exact ⟨rest, by rw [← whole]; simp⟩
  unfold WorkerPlaced at worker
  cases position : state.worker <;> simp only [position] at worker
  case running | release =>
    rw [worker.2.2.2]
    exact ⟨extends_ worker.2.1, .inr ⟨_, rfl⟩⟩
  case publish | lock | capture | retire =>
    rw [worker.2]
    exact ⟨extends_ worker.1, .inr ⟨_, rfl⟩⟩
  case call =>
    rw [worker.2.2.2]
    exact ⟨inv.retired, .inl rfl⟩
  all_goals
    rw [worker.2]
    exact ⟨inv.retired, .inl rfl⟩

/-- The node under the worker when it looks for more work. -/
def Worker.idleAt : Worker ε → Option Nat
  | .loop curr | .load curr | .sleepLock curr | .sleepCheck curr | .sleeping curr => some curr
  | _ => none

/-- Nothing is skipped: a worker whose node has no successor has run every
exchanged task, or the next task's `enqueue` still owes its link. -/
theorem Inv.nothing_skipped {state : State ι τ ε} (inv : Inv state) {curr : Nat} {cell : Node τ}
    (idle : state.worker.idleAt = some curr) (stored : state.nodes curr = some cell)
    (unlinked : cell.next = none) :
    state.ran = state.order ∨ ∃ thread next, state.callers thread = .exchanged next curr ∧
      state.order[state.ran.length]? = some next := by
  have worker := inv.worker
  have placed : state.chain[state.finished.length]? = some curr ∧ state.ran = state.finished := by
    unfold WorkerPlaced at worker
    cases position : state.worker <;>
      simp only [position, Worker.idleAt, Option.some.injEq, reduceCtorEq] at worker idle
    all_goals
      rw [← idle]
      exact worker
  have unfreed : state.released ≤ state.finished.length := by
    unfold State.released
    cases position : state.worker <;> simp [position, Worker.idleAt] at idle ⊢
  obtain ⟨own, ownStored, link⟩ := inv.links _ curr unfreed placed.1
  obtain rfl : own = cell := Option.some.inj (ownStored.symm.trans stored)
  rw [placed.2]
  rcases link with linked | ⟨_, thread, next, follows, owes⟩
  · rw [unlinked, State.chain, List.getElem?_cons_succ, eq_comm, List.getElem?_eq_none_iff] at linked
    exact .inl (inv.retired.eq_of_length_le linked)
  · exact .inr ⟨thread, next, owes, by simpa [State.chain] using follows⟩

/-- The queue of any number of producers, sync callers and one worker: the
order of the runs, the exact count, and what a returning `sync` knows.  The
order a `sync` speaks of is the one at which its wait condition held. -/
theorem fifo_accounting [DecidableEq ι] {state : State ι τ ε}
    (reached : (machine (ι := ι) (τ := τ) (ε := ε)).Reachable state) :
    (state.order.Nodup ∧ state.ran <+: state.order ∧
      (state.ran = state.finished ∨ ∃ next, state.ran = state.finished ++ [next]) ∧
      (∀ curr cell, state.worker.idleAt = some curr → state.nodes curr = some cell →
        cell.next = none → state.ran = state.order ∨
          ∃ thread next, state.callers thread = .exchanged next curr ∧
            state.order[state.ran.length]? = some next)) ∧
    (state.pending = state.started - state.finished.length ∧ 0 ≤ state.pending) ∧
    (∀ thread allow seen passed raised,
      state.callers thread = .syncReturn allow seen passed raised →
        seen ⊆ passed ∧ passed <+: state.order ∧
          ∀ node ∈ seen, node ∉ passed.drop (passed.length - allow) → node ∈ state.finished) := by
  have inv := reachable_inv reached
  refine ⟨⟨(List.nodup_cons.mp inv.nodup).2, inv.ran_prefix.1, inv.ran_prefix.2, ?_⟩,
    ⟨inv.counted, ?_⟩, ?_⟩
  · intro curr cell idle stored unlinked
    exact inv.nothing_skipped idle stored unlinked
  · have counted := inv.counted
    have retired := inv.retired.length_le
    have issued := inv.order_le
    omega
  · intro thread allow seen passed raised returning
    have placed := inv.callers thread
    rw [returning] at placed
    obtain ⟨known, earlier, enough⟩ := placed
    refine ⟨known, earlier, fun node member outside => ?_⟩
    -- outside the last `allow` of `passed` means inside its retired beginning
    have early : node ∈ passed.take (passed.length - allow) := by
      have split : node ∈ passed.take (passed.length - allow) ++ passed.drop (passed.length - allow) := by
        rw [List.take_append_drop]
        exact known member
      exact (List.mem_append.mp split).resolve_right outside
    have within : passed.take (passed.length - allow) <+: state.finished := by
      refine List.prefix_of_prefix_length_le ((List.take_prefix _ _).trans earlier) inv.retired ?_
      rw [List.length_take]
      omega
    exact within.subset early

/-- One task run to its end before `sync(0)` returns. -/
def drainedSchedule : List (Action Bool Unit Unit) :=
  [.enqueue false (some ())] ++ List.replicate 6 (.caller false) ++ List.replicate 11 (.worker none) ++
    [.sync true 0] ++ List.replicate 3 (.caller true)

theorem fifo_accounting_drained :
    ∃ state : State Bool Unit Unit, machine.Reachable state ∧
      state.callers true = .syncReturn 0 [1] [1] none ∧ state.ran <+: state.order ∧
      0 ≤ state.pending ∧ 1 ∈ state.finished := by
  obtain ⟨state, reached, returned⟩ := Machine.exists_reachable_of_run
    machine State.start drainedSchedule rfl
    (fun state => decide (state.callers true = .syncReturn 0 [1] [1] none)) (by decide)
  have returned : state.callers true = .syncReturn 0 [1] [1] none := of_decide_eq_true returned
  obtain ⟨⟨_, ordered, _⟩, ⟨_, nonnegative⟩, syncs⟩ := fifo_accounting reached
  exact ⟨state, reached, returned, ordered, nonnegative,
    (syncs true 0 [1] [1] none returned).2.2 1 (by decide) (by decide)⟩

/-- A second task exchanged after the condition of `sync(1)` held and before
`sync(1)` returned. -/
def overtakenSchedule : List (Action Bool Unit Unit) :=
  [.enqueue false (some ())] ++ List.replicate 6 (.caller false) ++ [.sync false 1] ++
    List.replicate 2 (.caller false) ++ [.enqueue true (some ())] ++ List.replicate 2 (.caller true) ++
    [.caller false]

/-- The tasks a `sync(n)` leaves unfinished need not be among the last `n`
exchanged by the time it returns: its condition was read earlier. -/
theorem sync_return_overtaken :
    ∃ state : State Bool Unit Unit, machine.Reachable state ∧
      ∃ allow seen passed raised node, state.callers false = .syncReturn allow seen passed raised ∧
        node ∈ seen ∧ node ∉ state.order.drop (state.order.length - allow) ∧
        node ∉ state.finished := by
  obtain ⟨state, reached, shape⟩ := Machine.exists_reachable_of_run
    machine State.start overtakenSchedule rfl
    (fun state => decide (state.callers false = .syncReturn 1 [1] [1] none ∧
      state.order = [1, 2] ∧ state.finished = [])) (by decide)
  obtain ⟨returned, order, finished⟩ := of_decide_eq_true shape
  exact ⟨state, reached, 1, [1], [1], none, 1, returned, by decide, by rw [order]; decide,
    by rw [finished]; decide⟩

/-- No thread uses a freed node: nobody crashes, and every node that the worker
has not released is still there. -/
theorem nodes_outlive_uses [DecidableEq ι] {state : State ι τ ε}
    (reached : (machine (ι := ι) (τ := τ) (ε := ε)).Reachable state) :
    state.worker ≠ .crashed ∧ (∀ thread, state.callers thread ≠ .crashed) ∧
      ∀ node ∈ state.chain.drop state.released, state.nodes node ≠ none := by
  have inv := reachable_inv reached
  have worker := inv.worker
  refine ⟨?_, ?_, ?_⟩
  · intro crashed
    rw [WorkerPlaced, crashed] at worker
    exact worker
  · intro thread crashed
    have placed := inv.callers thread
    rw [crashed] at placed
    exact placed
  · intro node member
    obtain ⟨offset, found⟩ := List.mem_iff_getElem?.mp member
    rw [List.getElem?_drop] at found
    obtain ⟨cell, stored, _⟩ := inv.links _ node (Nat.le_add_right ..) found
    rw [stored]
    exact Option.some_ne_none cell

theorem nodes_outlive_uses_drained :
    ∃ state : State Bool Unit Unit, machine.Reachable state ∧ state.released = 1 ∧
      ∀ node ∈ state.chain.drop 1, state.nodes node ≠ none := by
  obtain ⟨state, reached, shape⟩ := Machine.exists_reachable_of_run
    machine State.start drainedSchedule rfl (fun state => decide (state.released = 1)) (by decide)
  have released : state.released = 1 := of_decide_eq_true shape
  exact ⟨state, reached, released, released ▸ (nodes_outlive_uses reached).2.2⟩

/-! ## The queue is a first-in first-out queue -/

/-- What the queue looks like to those who only wait for its tasks. -/
def State.view (state : State ι τ ε) : Fifo Nat where
  order := state.order
  finished := state.finished.length
  running := decide (state.finished.length < state.ran.length)

/-- The condition of `sync` implies the one of the abstract queue: enqueues
that are counted but not yet exchanged only make `sync` wait longer. -/
theorem Inv.drained {state : State ι τ ε} (inv : Inv state) {allow : Nat}
    (passes : state.pending ≤ allow) : state.view.Drained allow := by
  have counted := inv.counted
  have issued := inv.order_le
  simp only [Fifo.Drained, State.view]
  omega

theorem Inv.simulates_worker {before after : State ι τ ε} {raised : Option ε} (inv : Inv before)
    (moved : TaskQueue.workerStep before raised = some after) :
    after.view = before.view ∨ ∃ visible, Fifo.machine.step before.view visible = some after.view := by
  have worker := inv.worker
  unfold TaskQueue.workerStep at moved
  cases position : before.worker <;> simp only [position, WorkerPlaced] at moved worker
  case call curr next =>
    obtain ⟨_, follows, _, ran⟩ := worker
    have waiting : before.finished.length < before.order.length := by
      have below := (List.getElem?_eq_some_iff.mp follows).1
      simpa [State.chain] using below
    obtain ⟨cell, stored, _⟩ := inv.links _ next (by simp [State.released, position]) follows
    simp only [stored] at moved
    refine .inr ⟨.start, ?_⟩
    split at moved
    all_goals
      obtain rfl := Option.some.inj moved
      simp [Fifo.machine, Fifo.start?, State.view, ran, waiting]
  case retire next =>
    obtain rfl := Option.some.inj moved
    exact .inr ⟨.finish, by simp [Fifo.machine, Fifo.finish?, State.view, worker.2]⟩
  case load curr =>
    split at moved
    · obtain rfl := Option.some.inj moved
      exact .inl rfl
    · split at moved
      all_goals
        obtain rfl := Option.some.inj moved
        exact .inl rfl
  case sleepCheck curr =>
    split at moved
    · obtain rfl := Option.some.inj moved
      exact .inl rfl
    · split at moved
      all_goals
        obtain rfl := Option.some.inj moved
        exact .inl rfl
  case lock | sleepLock =>
    split at moved
    · obtain rfl := Option.some.inj moved
      exact .inl rfl
    · contradiction
  all_goals
    obtain rfl := Option.some.inj moved
    exact .inl rfl

theorem simulates_caller [DecidableEq ι] {before after : State ι τ ε} {thread : ι}
    (moved : callerStep before thread = some after) :
    after.view = before.view ∨ ∃ visible, Fifo.machine.step before.view visible = some after.view := by
  unfold TaskQueue.callerStep at moved
  cases position : before.callers thread <;> simp only [position] at moved
  case created node =>
    obtain rfl := Option.some.inj moved
    exact .inr ⟨.enqueue node, rfl⟩
  case exchanged | linked | syncLock | syncCheck =>
    split at moved
    all_goals
      first
        | contradiction
        | obtain rfl := Option.some.inj moved
          exact .inl rfl
  case idle | crashed => contradiction
  all_goals
    obtain rfl := Option.some.inj moved
    exact .inl rfl

/-- Every interleaving of the queue is a run of the first-in first-out queue
whose items are the nodes in the order of their exchanges, and a `sync` that
passes finds that queue drained. -/
theorem refines_fifo [DecidableEq ι] :
    Machine.Refines (machine (ι := ι) (τ := τ) (ε := ε)) Fifo.machine Inv State.view ∧
      ∀ state : State ι τ ε, machine.Reachable state → ∀ allow : Nat, state.pending ≤ allow →
        state.view.Drained allow := by
  refine ⟨⟨?_, fun _ reached => reachable_inv reached, ?_⟩, fun _ reached _ passes => (reachable_inv reached).drained passes⟩
  · intro state starts
    rw [show state = State.start from starts]
    rfl
  · intro before action after inv moved
    cases action with
    | enqueue thread task | sync thread allow =>
        simp only [machine, step] at moved
        split at moved
        · obtain rfl := Option.some.inj moved
          exact .inl rfl
        · contradiction
    | caller thread => exact simulates_caller moved
    | worker raised => exact inv.simulates_worker moved

end KtKernel.TaskQueue
