import KtKernel.TaskQueue.Basic
import Mathlib.Data.List.Nodup
import Mathlib.Data.List.Perm.Subperm
import Mathlib.Tactic.Linarith

namespace KtKernel.TaskQueue

open KtKernel.Data

variable {ι τ ε : Type}

/-- The list the queue is: the dummy node, then every node in the order of
the tail exchanges.  Its links may still be missing anywhere. -/
def State.chain (state : State ι τ ε) : List Nat :=
  0 :: state.order

/-- How many nodes of the chain the worker has freed. -/
def State.released (state : State ι τ ε) : Nat :=
  match state.worker with
  | .publish _ _ | .lock _ _ | .capture _ _ | .retire _ => state.finished.length + 1
  | _ => state.finished.length

/-- The node an enqueue holds before its link is stored. -/
def Caller.held : Caller τ ε → Option Nat
  | .counted node _ | .created node | .exchanged node _ => some node
  | _ => none

/-- Where the worker's two pointers lie on the chain, and what it has run. -/
def WorkerPlaced (state : State ι τ ε) : Prop :=
  match state.worker with
  | .loop curr | .load curr | .sleepLock curr | .sleepCheck curr | .sleeping curr =>
      state.chain[state.finished.length]? = some curr ∧ state.ran = state.finished
  | .unlock curr | .notify curr =>
      state.chain[state.finished.length]? = some curr ∧ state.ran = state.finished
  | .call curr next =>
      state.chain[state.finished.length]? = some curr ∧
        state.chain[state.finished.length + 1]? = some next ∧
        (∃ cell, state.nodes curr = some cell ∧ cell.next = some next) ∧
        state.ran = state.finished
  | .running curr next | .release curr next _ =>
      state.chain[state.finished.length]? = some curr ∧
        state.chain[state.finished.length + 1]? = some next ∧
        (∃ cell, state.nodes curr = some cell ∧ cell.next = some next) ∧
        state.ran = state.finished ++ [next]
  | .publish next _ | .lock next _ | .capture next _ | .retire next =>
      state.chain[state.finished.length + 1]? = some next ∧ state.ran = state.finished ++ [next]
  | .exited | .crashed => False

/-- What a thread's position says about the chain. -/
def CallerPlaced (state : State ι τ ε) : Caller τ ε → Prop
  | .idle => True
  | .counted node _ => node ∉ state.chain ∧ node ≤ state.started
  | .created node =>
      node ∉ state.chain ∧ node ≤ state.started ∧
        ∃ cell, state.nodes node = some cell ∧ cell.next = none
  | .exchanged node prev =>
      ∃ index cell, state.released ≤ index ∧ state.chain[index]? = some prev ∧
        state.chain[index + 1]? = some node ∧ state.nodes prev = some cell ∧ cell.next = none
  | .linked node | .locked node | .notify node => node ∈ state.order
  | .syncLock _ seen | .syncCheck _ seen | .syncWait _ seen => seen ⊆ state.order
  | .syncTake allow seen passed | .syncReturn allow seen passed _ =>
      seen ⊆ passed ∧ passed <+: state.order ∧ passed.length ≤ state.finished.length + allow
  | .crashed => False

/-- The invariant of the queue, half-finished enqueues included. -/
structure Inv (state : State ι τ ε) : Prop where
  opened : state.done = false
  nodup : state.chain.Nodup
  tickets : ∀ node ∈ state.chain, node ≤ state.started
  tail : state.chain.getLast? = some state.tail
  counted : state.pending = state.started - state.finished.length
  retired : state.finished <+: state.order
  returned : state.returned ⊆ state.order
  worker : WorkerPlaced state
  callers : ∀ thread, CallerPlaced state (state.callers thread)
  distinct : ∀ left right node, (state.callers left).held = some node →
    (state.callers right).held = some node → left = right
  links : ∀ index node, state.released ≤ index → state.chain[index]? = some node →
    ∃ cell, state.nodes node = some cell ∧
      (cell.next = state.chain[index + 1]? ∨
        cell.next = none ∧ ∃ thread next, state.chain[index + 1]? = some next ∧
          state.callers thread = .exchanged next node)

theorem start_inv : Inv (State.start : State ι τ ε) where
  opened := rfl
  nodup := by simp [State.chain, State.start]
  tickets := by simp [State.chain, State.start]
  tail := by simp [State.chain, State.start]
  counted := by simp [State.start]
  retired := by simp [State.start]
  returned := by simp [State.start]
  worker := by simp [WorkerPlaced, State.chain, State.start]
  callers := by simp [CallerPlaced, State.start]
  distinct := by simp [Caller.held, State.start]
  links := by
    intro index node _ found
    cases index with
    | zero =>
        simp only [State.chain, State.start, List.getElem?_cons_zero, Option.some.injEq] at found
        subst node
        exact ⟨⟨none, none⟩, by simp [State.start], .inl (by simp [State.chain, State.start])⟩
    | succ index => simp [State.chain, State.start] at found

/-! ## Steps of the calling threads -/

theorem Inv.held_le {state : State ι τ ε} (inv : Inv state) {thread : ι} {node : Nat}
    (held : (state.callers thread).held = some node) : node ≤ state.started := by
  have placed := inv.callers thread
  cases position : state.callers thread <;>
    simp only [position, Caller.held, Option.some.injEq, reduceCtorEq] at held
  all_goals subst held
  all_goals simp only [position, CallerPlaced] at placed
  · exact placed.2
  · exact placed.2.1
  · obtain ⟨index, _, _, _, follows, _⟩ := placed
    exact inv.tickets _ (List.mem_of_getElem? follows)

/-- Every exchanged node was counted before. -/
theorem Inv.order_le {state : State ι τ ε} (inv : Inv state) :
    state.order.length ≤ state.started := by
  obtain ⟨zeroAbsent, nodup⟩ := List.nodup_cons.mp inv.nodup
  have inside : state.order ⊆ (List.range state.started).map (· + 1) := by
    intro node member
    have positive : node ≠ 0 := fun zero => zeroAbsent (zero ▸ member)
    have bound := inv.tickets node (List.mem_cons_of_mem _ member)
    simp only [List.mem_map, List.mem_range]
    exact ⟨node - 1, by omega, by omega⟩
  simpa using (List.Nodup.subperm nodup inside).length_le

theorem Inv.released_le {state : State ι τ ε} (inv : Inv state) :
    state.released ≤ state.order.length := by
  have worker := inv.worker
  have retired := inv.retired.length_le
  have bounded : ∀ {index node}, state.chain[index]? = some node → index ≤ state.order.length := by
    intro index node found
    obtain ⟨below, _⟩ := List.getElem?_eq_some_iff.mp found
    simpa [State.chain, Nat.lt_succ_iff] using below
  unfold State.released WorkerPlaced at *
  cases position : state.worker <;> simp only [position] at worker ⊢
  case publish | lock | capture | retire => exact bounded worker.1
  all_goals exact retired

theorem Inv.tail_at {state : State ι τ ε} (inv : Inv state) :
    state.chain[state.order.length]? = some state.tail := by
  have last := inv.tail
  rw [List.getLast?_eq_getElem?] at last
  simpa [State.chain] using last

section Callers

variable [DecidableEq ι]

@[simp] theorem moveCaller_self (state : State ι τ ε) (thread : ι) (position : Caller τ ε) :
    (state.moveCaller thread position).callers thread = position := by
  simp [State.moveCaller]

theorem moveCaller_other (state : State ι τ ε) {thread other : ι} (position : Caller τ ε)
    (different : other ≠ thread) :
    (state.moveCaller thread position).callers other = state.callers other := by
  simp [State.moveCaller, different]

/-- Two threads never hold one node: what `distinct` needs of a move. -/
theorem Inv.distinct_move {state : State ι τ ε} (inv : Inv state) {thread : ι}
    {position : Caller τ ε}
    (fresh : ∀ node, position.held = some node → (state.callers thread).held = some node ∨
      ∀ other, (state.callers other).held ≠ some node) (left right : ι) (node : Nat)
    (leftHeld : (Function.update state.callers thread position left).held = some node)
    (rightHeld : (Function.update state.callers thread position right).held = some node) :
    left = right := by
  by_cases leftSame : left = thread <;> by_cases rightSame : right = thread
  · rw [leftSame, rightSame]
  · subst left
    rw [Function.update_self] at leftHeld
    rw [Function.update_of_ne rightSame] at rightHeld
    rcases fresh node leftHeld with held | unheld
    · exact inv.distinct _ _ node held rightHeld
    · exact absurd rightHeld (unheld right)
  · subst right
    rw [Function.update_self] at rightHeld
    rw [Function.update_of_ne leftSame] at leftHeld
    rcases fresh node rightHeld with held | unheld
    · exact inv.distinct _ _ node leftHeld held
    · exact absurd leftHeld (unheld left)
  · rw [Function.update_of_ne leftSame] at leftHeld
    rw [Function.update_of_ne rightSame] at rightHeld
    exact inv.distinct _ _ node leftHeld rightHeld

/-- A move of a thread that owes no link and touches neither the nodes nor
the order keeps the invariant when its new position is placed. -/
theorem Inv.quiet_caller {state : State ι τ ε} (inv : Inv state) {thread : ι}
    {position : Caller τ ε} {mtx : Option (Owner ι)} {firstException : Option ε}
    {returned : List Nat} (known : returned ⊆ state.order)
    (placed : CallerPlaced state position) (free : position.held = none)
    (owesNone : ∀ node prev, state.callers thread ≠ .exchanged node prev) :
    Inv ({ state with mtx, firstException, returned }.moveCaller thread position) where
  opened := inv.opened
  nodup := inv.nodup
  tickets := inv.tickets
  tail := inv.tail
  counted := inv.counted
  retired := inv.retired
  returned := known
  worker := inv.worker
  callers := by
    intro other
    by_cases same : other = thread
    · subst other
      rw [moveCaller_self]
      exact placed
    · rw [moveCaller_other _ _ same]
      exact inv.callers other
  distinct := inv.distinct_move (fun node held => by rw [free] at held; contradiction)
  links := by
    intro index node later found
    obtain ⟨cell, stored, linked | ⟨missing, owner, next, follows, owes⟩⟩ :=
      inv.links index node later found
    · exact ⟨cell, stored, .inl linked⟩
    · have other : owner ≠ thread := fun same => owesNone next node (same ▸ owes)
      exact ⟨cell, stored, .inr ⟨missing, owner, next, follows, by
        rw [moveCaller_other _ _ other]; exact owes⟩⟩

/-- `pending.fetch_add` hands the thread a ticket nobody has. -/
theorem Inv.enqueue {state : State ι τ ε} (inv : Inv state) {thread : ι} (task : Option τ)
    (idle : state.callers thread = .idle) :
    Inv ({ state with
      pending := state.pending + 1
      started := state.started + 1 }.moveCaller thread (.counted (state.started + 1) task)) where
  opened := inv.opened
  nodup := inv.nodup
  tickets node member := Nat.le_succ_of_le (inv.tickets node member)
  tail := inv.tail
  counted := by
    have counted := inv.counted
    simp only [State.moveCaller]
    push_cast
    omega
  retired := inv.retired
  returned := inv.returned
  worker := inv.worker
  callers := by
    intro other
    by_cases same : other = thread
    · subst other
      rw [moveCaller_self]
      refine ⟨fun member => ?_, Nat.le_refl _⟩
      have bound := inv.tickets _ member
      omega
    · rw [moveCaller_other _ _ same]
      have placed := inv.callers other
      cases position : state.callers other <;> simp only [position, CallerPlaced] at placed ⊢
      case counted => exact ⟨placed.1, Nat.le_succ_of_le placed.2⟩
      case created => exact ⟨placed.1, Nat.le_succ_of_le placed.2.1, placed.2.2⟩
      all_goals exact placed
  distinct := by
    refine inv.distinct_move (fun node held => .inr fun other otherHeld => ?_)
    have bound := inv.held_le otherHeld
    simp only [Caller.held, Option.some.injEq] at held
    omega
  links := by
    intro index node later found
    obtain ⟨cell, stored, linked | ⟨missing, owner, next, follows, owes⟩⟩ :=
      inv.links index node later found
    · exact ⟨cell, stored, .inl linked⟩
    · have other : owner ≠ thread := by
        rintro rfl
        rw [idle] at owes
        contradiction
      exact ⟨cell, stored, .inr ⟨missing, owner, next, follows, by
        rw [moveCaller_other _ _ other]; exact owes⟩⟩

/-- `new Node(task)` fills a node that is not on the chain. -/
theorem Inv.create {state : State ι τ ε} (inv : Inv state) {thread : ι} {node : Nat}
    {task : Option τ} (counted : state.callers thread = .counted node task) :
    Inv ({ state with
      nodes := Function.update state.nodes node (some ⟨task, none⟩) }.moveCaller
        thread (.created node)) := by
  have placed := inv.callers thread
  rw [counted] at placed
  obtain ⟨absent, bound⟩ := placed
  -- the nodes of the chain are other nodes, so their contents stand
  have kept : ∀ other ∈ state.chain, Function.update state.nodes node (some ⟨task, none⟩) other =
      state.nodes other := by
    intro other member
    have different : other ≠ node := fun same => absent (same ▸ member)
    exact Function.update_of_ne different _ _
  refine
    { opened := inv.opened
      nodup := inv.nodup
      tickets := inv.tickets
      tail := inv.tail
      counted := inv.counted
      retired := inv.retired
      returned := inv.returned
      worker := ?_
      callers := ?_
      distinct := inv.distinct_move fun other held => .inl ?_
      links := ?_ }
  · have worker := inv.worker
    unfold WorkerPlaced at worker ⊢
    simp only [State.moveCaller]
    cases position : state.worker <;> simp only [position] at worker ⊢
    case call | running | release =>
      obtain ⟨found, follows, ⟨cell, stored, linked⟩, ran⟩ := worker
      exact ⟨found, follows, ⟨cell, (kept _ (List.mem_of_getElem? found)).trans stored, linked⟩, ran⟩
    all_goals exact worker
  · intro other
    by_cases same : other = thread
    · subst other
      rw [moveCaller_self]
      exact ⟨absent, bound, ⟨task, none⟩, Function.update_self _ _ _, rfl⟩
    · rw [moveCaller_other _ _ same]
      have placed := inv.callers other
      cases position : state.callers other <;> simp only [position, CallerPlaced] at placed ⊢
      case created created =>
        obtain ⟨off, below, cell, stored, unlinked⟩ := placed
        have different : created ≠ node := by
          rintro rfl
          exact same (inv.distinct other thread created (by rw [position]; rfl) (by rw [counted]; rfl))
        exact ⟨off, below, cell, (Function.update_of_ne different _ _).trans stored, unlinked⟩
      case exchanged =>
        obtain ⟨index, cell, later, found, follows, stored, unlinked⟩ := placed
        exact ⟨index, cell, later, found, follows,
          (kept _ (List.mem_of_getElem? found)).trans stored, unlinked⟩
      all_goals exact placed
  · rw [counted]
    exact held
  · intro index other later found
    obtain ⟨cell, stored, link⟩ := inv.links index other later found
    refine ⟨cell, (kept _ (List.mem_of_getElem? found)).trans stored, ?_⟩
    rcases link with linked | ⟨missing, owner, next, follows, owes⟩
    · exact .inl linked
    · have different : owner ≠ thread := by
        rintro rfl
        rw [counted] at owes
        contradiction
      exact .inr ⟨missing, owner, next, follows, by
        rw [moveCaller_other _ _ different]; exact owes⟩

/-- `tail.exchange` appends the node to the chain; the link from the former
tail is now owed by this thread. -/
theorem Inv.exchange {state : State ι τ ε} (inv : Inv state) {thread : ι} {node : Nat}
    (created : state.callers thread = .created node) :
    Inv ({ state with
      tail := node
      order := state.order ++ [node] }.moveCaller thread (.exchanged node state.tail)) := by
  have placed := inv.callers thread
  rw [created] at placed
  obtain ⟨absent, bound, fresh, stored, unlinked⟩ := placed
  have longer : ({ state with tail := node, order := state.order ++ [node] } :
      State ι τ ε).chain = state.chain ++ [node] := rfl
  have size : state.chain.length = state.order.length + 1 := by simp [State.chain]
  have kept : ∀ {index other : Nat}, state.chain[index]? = some other →
      (state.chain ++ [node])[index]? = some other := by
    intro index other found
    rw [List.getElem?_append_left (List.getElem?_eq_some_iff.mp found).1, found]
  have unheld : ∀ {other : ι}, other ≠ thread → (state.callers other).held ≠ some node := by
    intro other different held
    exact different (inv.distinct other thread node held (by rw [created]; rfl))
  -- the former tail is the last node, and its link is empty
  obtain ⟨last, lastStored, lastLink⟩ := inv.links _ _ inv.released_le inv.tail_at
  have lastEmpty : last.next = none := by
    have beyond : state.chain[state.order.length + 1]? = none := by
      rw [List.getElem?_eq_none_iff, size]
    rcases lastLink with linked | ⟨missing, _⟩
    · rw [linked, beyond]
    · exact missing
  have added : (state.chain ++ [node])[state.order.length + 1]? = some node := by
    rw [← size]
    simp
  refine
    { opened := inv.opened
      nodup := ?_
      tickets := ?_
      tail := ?_
      counted := inv.counted
      retired := inv.retired.trans (List.prefix_append _ _)
      returned := fun other member => List.mem_append_left _ (inv.returned member)
      worker := ?_
      callers := ?_
      distinct := inv.distinct_move fun other held => .inl (by rw [created]; exact held)
      links := ?_ }
  · change (state.chain ++ [node]).Nodup
    exact inv.nodup.append (List.nodup_singleton _) (by simpa using absent)
  · intro other member
    rcases List.mem_append.mp (show other ∈ state.chain ++ [node] from member) with old | new
    · exact inv.tickets other old
    · rw [List.mem_singleton.mp new]
      exact bound
  · change (state.chain ++ [node]).getLast? = some node
    simp
  · have worker := inv.worker
    unfold WorkerPlaced at worker ⊢
    simp only [State.moveCaller]
    cases position : state.worker <;> simp only [position] at worker ⊢
    case call | running | release =>
      obtain ⟨found, follows, linked, ran⟩ := worker
      exact ⟨kept found, kept follows, linked, ran⟩
    all_goals exact ⟨kept worker.1, worker.2⟩
  · intro other
    by_cases same : other = thread
    · subst other
      rw [moveCaller_self]
      exact ⟨state.order.length, last, inv.released_le, kept inv.tail_at, added, lastStored, lastEmpty⟩
    · rw [moveCaller_other _ _ same]
      have placed := inv.callers other
      have different := unheld same
      cases position : state.callers other <;>
        simp only [position, CallerPlaced, Caller.held, ne_eq, Option.some.injEq] at placed different ⊢
      case counted waiting task =>
        exact ⟨fun member => (List.mem_append.mp member).elim placed.1
          (fun new => different (List.mem_singleton.mp new)), placed.2⟩
      case created waiting =>
        exact ⟨fun member => (List.mem_append.mp member).elim placed.1
          (fun new => different (List.mem_singleton.mp new)), placed.2⟩
      case exchanged =>
        obtain ⟨index, cell, later, found, follows, rest⟩ := placed
        exact ⟨index, cell, later, kept found, kept follows, rest⟩
      case linked | locked | notify => exact List.mem_append_left _ placed
      case syncLock | syncCheck | syncWait =>
        exact fun _ member => List.mem_append_left _ (placed member)
      case syncTake | syncReturn =>
        exact ⟨placed.1, placed.2.1.trans (List.prefix_append _ _), placed.2.2⟩
  · intro index other later found
    change (state.chain ++ [node])[index]? = some other at found
    change ∃ cell, state.nodes other = some cell ∧
      (cell.next = (state.chain ++ [node])[index + 1]? ∨ _)
    rcases Nat.lt_trichotomy index state.order.length with before | atTail | after
    · rw [List.getElem?_append_left (by omega)] at found
      obtain ⟨cell, stored, link⟩ := inv.links index other later found
      refine ⟨cell, stored, ?_⟩
      rw [List.getElem?_append_left (show index + 1 < state.chain.length by omega)]
      rcases link with linked | ⟨missing, owner, next, follows, owes⟩
      · exact .inl linked
      · have different : owner ≠ thread := by
          rintro rfl
          rw [created] at owes
          contradiction
        exact .inr ⟨missing, owner, next, by
          exact kept follows, by rw [moveCaller_other _ _ different]; exact owes⟩
    · subst atTail
      rw [List.getElem?_append_left (by omega), inv.tail_at] at found
      obtain rfl := Option.some.inj found
      exact ⟨last, lastStored, .inr ⟨lastEmpty, thread, node, added, moveCaller_self _ _ _⟩⟩
    · have atEnd : index = state.order.length + 1 := by
        have below := (List.getElem?_eq_some_iff.mp found).1
        simp only [List.length_append, List.length_singleton] at below
        omega
      subst atEnd
      rw [added] at found
      obtain rfl := Option.some.inj found
      refine ⟨fresh, stored, .inl ?_⟩
      rw [unlinked, eq_comm, List.getElem?_eq_none_iff]
      simp only [List.length_append, List.length_singleton]
      omega

/-- `prev->next.store(node)` pays the link that was owed. -/
theorem Inv.link {state : State ι τ ε} (inv : Inv state) {thread : ι} {node prev : Nat}
    {cell : Node τ} (exchanged : state.callers thread = .exchanged node prev)
    (found : state.nodes prev = some cell) :
    Inv ({ state with
      nodes := Function.update state.nodes prev (some { cell with next := some node }) }.moveCaller
        thread (.linked node)) := by
  have placed := inv.callers thread
  rw [exchanged] at placed
  obtain ⟨place, former, later, atPlace, follows, stored, unlinked⟩ := placed
  obtain rfl : former = cell := Option.some.inj (stored.symm.trans found)
  have chained : node ∈ state.order := by
    rw [State.chain, List.getElem?_cons_succ] at follows
    exact List.mem_of_getElem? follows
  -- a chain position is determined by its node
  have unique : ∀ {index}, state.chain[index]? = some prev → index = place := by
    intro index here
    obtain ⟨below, same⟩ := List.getElem?_eq_some_iff.mp here
    obtain ⟨below', same'⟩ := List.getElem?_eq_some_iff.mp atPlace
    exact (inv.nodup.getElem_inj_iff).mp (same.trans same'.symm)
  have others : ∀ {other : ι} {next from_ : Nat}, other ≠ thread →
      state.callers other = .exchanged next from_ → from_ ≠ prev := by
    rintro other next from_ different owes rfl
    have placed := inv.callers other
    rw [owes] at placed
    obtain ⟨index, _, _, here, after, _⟩ := placed
    obtain rfl := unique here
    obtain rfl : node = next := Option.some.inj (follows.symm.trans after)
    exact different (inv.distinct other thread node (by rw [owes]; rfl) (by rw [exchanged]; rfl))
  refine
    { opened := inv.opened
      nodup := inv.nodup
      tickets := inv.tickets
      tail := inv.tail
      counted := inv.counted
      retired := inv.retired
      returned := inv.returned
      worker := ?_
      callers := ?_
      distinct := inv.distinct_move fun other held => by contradiction
      links := ?_ }
  · have worker := inv.worker
    unfold WorkerPlaced at worker ⊢
    simp only [State.moveCaller]
    cases position : state.worker <;> simp only [position] at worker ⊢
    case call curr next | running curr next | release curr next raised =>
      obtain ⟨here, after, ⟨own, ownStored, linked⟩, ran⟩ := worker
      have different : curr ≠ prev := by
        rintro rfl
        rw [found] at ownStored
        obtain rfl := Option.some.inj ownStored
        rw [unlinked] at linked
        contradiction
      exact ⟨here, after, ⟨own, (Function.update_of_ne different _ _).trans ownStored, linked⟩, ran⟩
    all_goals exact worker
  · intro other
    by_cases same : other = thread
    · subst other
      rw [moveCaller_self]
      exact chained
    · rw [moveCaller_other _ _ same]
      have placed := inv.callers other
      cases position : state.callers other <;> simp only [position, CallerPlaced] at placed ⊢
      case created waiting =>
        obtain ⟨off, below, own, ownStored, empty⟩ := placed
        have different : waiting ≠ prev := fun equal => off (equal ▸ List.mem_of_getElem? atPlace)
        exact ⟨off, below, own, (Function.update_of_ne different _ _).trans ownStored, empty⟩
      case exchanged next from_ =>
        obtain ⟨index, own, after, here, next', ownStored, empty⟩ := placed
        have different := others same position
        exact ⟨index, own, after, here, next',
          (Function.update_of_ne different _ _).trans ownStored, empty⟩
      all_goals exact placed
  · intro index other after here
    by_cases equal : other = prev
    · subst other
      obtain rfl := unique here
      exact ⟨_, Function.update_self _ _ _, .inl follows.symm⟩
    · obtain ⟨own, ownStored, link⟩ := inv.links index other after here
      refine ⟨own, (Function.update_of_ne equal _ _).trans ownStored, ?_⟩
      rcases link with linked | ⟨missing, owner, next, next', owes⟩
      · exact .inl linked
      · have different : owner ≠ thread := by
          rintro rfl
          rw [exchanged] at owes
          exact equal (Caller.exchanged.inj owes).2.symm
        exact .inr ⟨missing, owner, next, next', by
          rw [moveCaller_other _ _ different]; exact owes⟩

/-- Every step of a thread inside a call keeps the invariant. -/
theorem Inv.callerStep {before after : State ι τ ε} {thread : ι} (inv : Inv before)
    (moved : callerStep before thread = some after) : Inv after := by
  have placed := inv.callers thread
  unfold TaskQueue.callerStep at moved
  cases position : before.callers thread <;> simp only [position, CallerPlaced] at moved placed
  case counted node task =>
    obtain rfl := Option.some.inj moved
    exact inv.create position
  case created node =>
    obtain rfl := Option.some.inj moved
    exact inv.exchange position
  case exchanged node prev =>
    obtain ⟨_, cell, _, _, _, stored, _⟩ := placed
    simp only [stored] at moved
    obtain rfl := Option.some.inj moved
    exact inv.link position stored
  case syncCheck allow seen =>
    split at moved
    · rename_i passes
      obtain rfl := Option.some.inj moved
      refine inv.quiet_caller inv.returned ⟨placed, List.prefix_refl _, ?_⟩ rfl (by simp [position])
      -- the condition bounds the counted enqueues, and every exchanged node was counted
      have counted := inv.counted
      have enough : before.pending ≤ allow := by simpa [inv.opened] using passes
      have issued := inv.order_le
      omega
    · obtain rfl := Option.some.inj moved
      exact inv.quiet_caller inv.returned placed rfl (by simp [position])
  case syncTake =>
    obtain rfl := Option.some.inj moved
    exact inv.quiet_caller inv.returned placed rfl (by simp [position])
  case syncReturn =>
    obtain rfl := Option.some.inj moved
    exact inv.quiet_caller inv.returned trivial rfl (by simp [position])
  case notify node =>
    obtain rfl := Option.some.inj moved
    refine inv.quiet_caller (fun other member => ?_) trivial rfl (by simp [position])
    rcases List.mem_append.mp member with old | new
    · exact inv.returned old
    · exact List.mem_singleton.mp new ▸ placed
  case linked | syncLock =>
    split at moved
    · obtain rfl := Option.some.inj moved
      exact inv.quiet_caller inv.returned placed rfl (by simp [position])
    · contradiction
  case locked | syncWait =>
    obtain rfl := Option.some.inj moved
    exact inv.quiet_caller inv.returned placed rfl (by simp [position])
  case idle => contradiction

end Callers

/-! ## Steps of the worker -/

/-- A worker move that frees nothing, with the new position placed. -/
theorem Inv.quiet_worker {state : State ι τ ε} (inv : Inv state) {position : Worker ε}
    {ran : List Nat} {head : Nat} {mtx : Option (Owner ι)} {firstException : Option ε}
    (placed : WorkerPlaced { state with worker := position, ran })
    (frees : ({ state with worker := position } : State ι τ ε).released = state.released) :
    Inv { state with worker := position, ran, head, mtx, firstException } := by
  have callers := inv.callers
  have links := inv.links
  rw [← frees] at links
  refine
    { opened := inv.opened
      nodup := inv.nodup
      tickets := inv.tickets
      tail := inv.tail
      counted := inv.counted
      retired := inv.retired
      returned := inv.returned
      worker := placed
      callers := fun thread => ?_
      distinct := inv.distinct
      links := links }
  have placed := callers thread
  cases position : state.callers thread <;> simp only [position, CallerPlaced] at placed ⊢
  case exchanged =>
    rw [← frees] at placed
    exact placed
  all_goals exact placed

/-- `delete curr` frees the one node no thread owes a link from. -/
theorem Inv.release {state : State ι τ ε} (inv : Inv state) {curr next : Nat}
    {raised : Option ε} (releasing : state.worker = .release curr next raised) :
    Inv { state with
      nodes := Function.update state.nodes curr none
      worker := .publish next raised } := by
  have worker := inv.worker
  simp only [WorkerPlaced, releasing] at worker
  obtain ⟨here, follows, ⟨cell, stored, linked⟩, ran⟩ := worker
  have released : state.released = state.finished.length := by simp [State.released, releasing]
  have unique : ∀ {index}, state.chain[index]? = some curr → index = state.finished.length := by
    intro index place
    obtain ⟨below, same⟩ := List.getElem?_eq_some_iff.mp place
    obtain ⟨below', same'⟩ := List.getElem?_eq_some_iff.mp here
    exact (inv.nodup.getElem_inj_iff).mp (same.trans same'.symm)
  refine
    { opened := inv.opened
      nodup := inv.nodup
      tickets := inv.tickets
      tail := inv.tail
      counted := inv.counted
      retired := inv.retired
      returned := inv.returned
      worker := ⟨follows, ran⟩
      callers := fun thread => ?_
      distinct := inv.distinct
      links := ?_ }
  · have placed := inv.callers thread
    cases position : state.callers thread <;> simp only [position, CallerPlaced] at placed ⊢
    case created waiting =>
      obtain ⟨off, below, own, ownStored, empty⟩ := placed
      have different : waiting ≠ curr := fun same => off (same ▸ List.mem_of_getElem? here)
      exact ⟨off, below, own, (Function.update_of_ne different _ _).trans ownStored, empty⟩
    case exchanged node prev =>
      obtain ⟨index, own, later, place, after, ownStored, empty⟩ := placed
      have different : prev ≠ curr := by
        rintro rfl
        rw [stored] at ownStored
        obtain rfl := Option.some.inj ownStored
        rw [empty] at linked
        contradiction
      have beyond : index ≠ state.finished.length := by
        rintro rfl
        exact different (Option.some.inj (place.symm.trans here))
      refine ⟨index, own, ?_, place, after, (Function.update_of_ne different _ _).trans ownStored, empty⟩
      simp only [State.released]
      omega
    all_goals exact placed
  · intro index node later place
    simp only [State.released] at later
    obtain ⟨own, ownStored, link⟩ := inv.links index node (by omega) place
    have different : node ≠ curr := by
      rintro rfl
      have := unique place
      omega
    exact ⟨own, (Function.update_of_ne different _ _).trans ownStored, link⟩

/-- `pending.fetch_sub` retires the node the worker just ran. -/
theorem Inv.retire {state : State ι τ ε} (inv : Inv state) {next : Nat}
    (retiring : state.worker = .retire next) :
    Inv { state with
      pending := state.pending - 1
      finished := state.finished ++ [next]
      worker := .unlock next } := by
  have worker := inv.worker
  simp only [WorkerPlaced, retiring] at worker
  obtain ⟨here, ran⟩ := worker
  have released : state.released = state.finished.length + 1 := by simp [State.released, retiring]
  have place : state.order[state.finished.length]? = some next := by
    simpa only [State.chain, List.getElem?_cons_succ] using here
  refine
    { opened := inv.opened
      nodup := inv.nodup
      tickets := inv.tickets
      tail := inv.tail
      counted := ?_
      retired := ?_
      returned := inv.returned
      worker := ⟨by simpa [State.chain] using place, ran⟩
      callers := fun thread => ?_
      distinct := inv.distinct
      links := fun index node later => inv.links index node (by rw [released]; simpa [State.released] using later) }
  · have counted := inv.counted
    simp only [List.length_append, List.length_singleton]
    push_cast
    omega
  · obtain ⟨rest, whole⟩ := inv.retired
    rw [← whole, List.getElem?_append_right (Nat.le_refl _), Nat.sub_self] at place
    cases rest with
    | nil => simp at place
    | cons first rest =>
        obtain rfl : first = next := by simpa using place
        exact ⟨rest, by rw [← whole]; simp⟩
  · have placed := inv.callers thread
    cases position : state.callers thread <;> simp only [position, CallerPlaced] at placed ⊢
    case exchanged =>
      rw [released] at placed
      obtain ⟨index, own, later, rest⟩ := placed
      exact ⟨index, own, by simpa [State.released] using later, rest⟩
    case syncTake | syncReturn =>
      refine ⟨placed.1, placed.2.1, ?_⟩
      simp only [List.length_append, List.length_singleton]
      omega
    all_goals exact placed

/-- Every step of the worker keeps the invariant. -/
theorem Inv.workerStep {before after : State ι τ ε} {raised : Option ε} (inv : Inv before)
    (moved : workerStep before raised = some after) : Inv after := by
  have worker := inv.worker
  unfold TaskQueue.workerStep at moved
  cases position : before.worker <;> simp only [position, WorkerPlaced] at moved worker
  case loop curr =>
    have continues : (if before.done = true then Worker.exited else Worker.load curr : Worker ε) =
        .load curr := by simp [inv.opened]
    rw [continues] at moved
    obtain rfl := Option.some.inj moved
    exact inv.quiet_worker worker (by simp [State.released, position])
  case load curr =>
    obtain ⟨cell, stored, link⟩ := inv.links _ curr (by simp [State.released, position]) worker.1
    simp only [stored] at moved
    split at moved
    · rename_i next linked
      obtain rfl := Option.some.inj moved
      have follows : before.chain[before.finished.length + 1]? = some next := by
        rcases link with same | ⟨missing, _⟩
        · rw [← same, linked]
        · rw [linked] at missing
          contradiction
      exact inv.quiet_worker ⟨worker.1, follows, ⟨cell, stored, linked⟩, worker.2⟩
        (by simp [State.released, position])
    · obtain rfl := Option.some.inj moved
      exact inv.quiet_worker worker (by simp [State.released, position])
  case call curr next =>
    obtain ⟨here, follows, linked, ran⟩ := worker
    obtain ⟨cell, stored, _⟩ := inv.links _ next (by simp [State.released, position]) follows
    simp only [stored] at moved
    split at moved
    all_goals
      obtain rfl := Option.some.inj moved
      exact inv.quiet_worker ⟨here, follows, linked, by rw [ran]⟩ (by simp [State.released, position])
  case running | publish | capture | unlock | notify | sleeping =>
    obtain rfl := Option.some.inj moved
    exact inv.quiet_worker worker (by simp [State.released, position])
  case lock | sleepLock =>
    split at moved
    · obtain rfl := Option.some.inj moved
      exact inv.quiet_worker worker (by simp [State.released, position])
    · contradiction
  case sleepCheck curr =>
    obtain ⟨cell, stored, _⟩ := inv.links _ curr (by simp [State.released, position]) worker.1
    simp only [stored] at moved
    split at moved
    all_goals
      obtain rfl := Option.some.inj moved
      exact inv.quiet_worker worker (by simp [State.released, position])
  case release curr next thrown =>
    obtain rfl := Option.some.inj moved
    exact inv.release position
  case retire next =>
    obtain rfl := Option.some.inj moved
    exact inv.retire position

theorem Inv.step [DecidableEq ι] {before after : State ι τ ε} {action : Action ι τ ε}
    (inv : Inv before) (moved : step before action = some after) : Inv after := by
  cases action with
  | enqueue thread task =>
      simp only [TaskQueue.step] at moved
      split at moved
      · obtain rfl := Option.some.inj moved
        exact inv.enqueue task ‹_›
      · contradiction
  | sync thread allow =>
      simp only [TaskQueue.step] at moved
      split at moved
      · rename_i idle
        obtain rfl := Option.some.inj moved
        exact inv.quiet_caller inv.returned inv.returned rfl (by simp [idle])
      · contradiction
  | caller thread => exact inv.callerStep moved
  | worker raised => exact inv.workerStep moved

/-- The invariant holds in every state any interleaving reaches. -/
theorem reachable_inv [DecidableEq ι] {state : State ι τ ε}
    (reached : (machine (ι := ι) (τ := τ) (ε := ε)).Reachable state) : Inv state := by
  refine reached.invariant ?_ fun _ _ _ inv moved => inv.step moved
  intro state starts
  rw [show state = State.start from starts]
  exact start_inv

end KtKernel.TaskQueue
