import KtKernel.CpuInfer.Basic
import KtKernel.Data.Custody

namespace KtKernel.CpuInfer

open KtKernel.Data

variable {ι : Type}

/-! ## Where an exception is -/

/-- `first_exception`, `device_callback_error_`, or a local variable of a call. -/
inductive Place (ι : Type) where
  | queue
  | callback
  | hand (thread : ι)
deriving DecidableEq

/-- The exception a call holds between the two locks. -/
def handOf : Call → TaskQueue.Caller Unit Nat → Option Nat
  | .throwing error, _ | .recording error, _ => some error
  | .syncing _ _, .syncReturn _ _ _ raised | .callback _, .syncReturn _ _ _ raised => raised
  | _, _ => none

def State.hand (state : State ι) (thread : ι) : Option Nat :=
  handOf (state.calls thread) (state.queue.callers thread)

def State.held (state : State ι) : Place ι → Option Nat
  | .queue => state.queue.firstException
  | .callback => state.deviceCallbackError
  | .hand thread => state.hand thread

def State.view (state : State ι) : Custody (Place ι) Nat :=
  ⟨state.held, state.threw, state.filed, state.reported⟩

/-- A task of `before` stands under an exception some call has taken and neither
recorded nor thrown. -/
def State.InTransit (state : State ι) (before : List Nat) : Prop :=
  ∃ thread error, state.hand thread = some error ∧ ∃ task ∈ before, state.filed task = some error

/-- Every task of `before` that threw stands under a reported exception, its own
or the one of a task that threw before it. -/
def State.AllReported (state : State ι) (before : List Nat) : Prop :=
  ∀ task ∈ before, task ∈ state.threw → ∃ error ∈ state.reported,
    state.filed task = some error ∧ state.threw.idxOf error ≤ state.threw.idxOf task

/-- A callback that finds an error recorded holds the exception of a task that
did not throw before the one of that error. -/
def Call.Keeps (threw : List Nat) : Call → Option Nat → Prop
  | .recording error, some kept => threw.idxOf kept ≤ threw.idxOf error
  | _, _ => True

instance (threw : List Nat) (call : Call) (slot : Option Nat) : Decidable (call.Keeps threw slot) := by
  unfold Call.Keeps
  split <;> infer_instance

def Timely (state : State ι) : Action ι → Prop
  | .thread thread => (state.calls thread).Keeps state.threw state.deviceCallbackError
  | _ => True

instance (state : State ι) (action : Action ι) : Decidable (Timely state action) :=
  match action with
  | .thread thread =>
      inferInstanceAs (Decidable ((state.calls thread).Keeps state.threw state.deviceCallbackError))
  | .enqueue _ _ | .sync _ _ | .rethrow _ | .syncCallback _ _ | .worker _ => instDecidableTrue

/-! ## What the steps of the queue do -/

/-- The exception of the task the worker has run and not captured yet. -/
def carried : TaskQueue.Worker Nat → Option Nat
  | .release _ _ raised | .publish _ raised | .lock _ raised | .capture _ raised => raised
  | _ => none

/-- The task the worker has run and not retired yet. -/
def ended : TaskQueue.Worker Nat → Option Nat
  | .release _ next _ | .publish next _ | .lock next _ | .capture next _ | .retire next => some next
  | _ => none

def Syncing : TaskQueue.Caller Unit Nat → Bool
  | .syncLock _ _ | .syncCheck _ _ | .syncWait _ _ | .syncTake _ _ _ | .syncReturn _ _ _ _ => true
  | _ => false

/-- A `sync` that has not taken the exception yet. -/
def Waiting (allow : Nat) (seen : List Nat) (position : TaskQueue.Caller Unit Nat) : Prop :=
  position = .syncLock allow seen ∨ position = .syncCheck allow seen ∨ position = .syncWait allow seen ∨
    ∃ passed, position = .syncTake allow seen passed

/-- How a thread inside the queue moves. -/
inductive Moved (first after : Option Nat) (position next : TaskQueue.Caller Unit Nat) : Prop
  | enqueue (same : after = first) (outside : Syncing position = false) (still : Syncing next = false)
  | wait (same : after = first) (allow : Nat) (seen : List Nat) (waiting : Waiting allow seen position)
      (still : Waiting allow seen next)
  | take (cleared : after = none) (allow : Nat) (seen passed : List Nat)
      (own : position = .syncTake allow seen passed) (taken : next = .syncReturn allow seen passed first)
  | leave (same : after = first) (allow : Nat) (seen passed : List Nat) (raised : Option Nat)
      (own : position = .syncReturn allow seen passed raised) (left : next = .idle)

/-- What the worker leaves alone. -/
structure WorkerFrame (before after : TaskQueue.State ι Unit Nat) : Prop where
  callers : after.callers = before.callers
  returned : after.returned = before.returned
  finished : before.finished ⊆ after.finished

theorem workerStep_frame {before after : TaskQueue.State ι Unit Nat}
    (moved : TaskQueue.workerStep before raised = some after) : WorkerFrame before after := by
  unfold TaskQueue.workerStep at moved
  cases position : before.worker <;> simp only [position] at moved
  case exited | crashed => contradiction
  case load | call | sleepCheck =>
    split at moved
    · obtain rfl := Option.some.inj moved
      exact ⟨rfl, rfl, List.Subset.refl _⟩
    · split at moved
      all_goals
        obtain rfl := Option.some.inj moved
        exact ⟨rfl, rfl, List.Subset.refl _⟩
  case lock | sleepLock =>
    split at moved
    · obtain rfl := Option.some.inj moved
      exact ⟨rfl, rfl, List.Subset.refl _⟩
    · contradiction
  case retire =>
    obtain rfl := Option.some.inj moved
    exact ⟨rfl, rfl, List.subset_append_left _ _⟩
  all_goals
    obtain rfl := Option.some.inj moved
    exact ⟨rfl, rfl, List.Subset.refl _⟩

/-- A step of the worker that neither ends a task nor captures an exception. -/
structure WorkerQuiet (before after : TaskQueue.State ι Unit Nat) : Prop where
  first : after.firstException = before.firstException
  carried : carried after.worker = carried before.worker
  finished : after.finished = before.finished ∨ CpuInfer.carried after.worker = none
  ended : ∀ task, task ∈ before.finished ∨ ended before.worker = some task →
    task ∈ after.finished ∨ CpuInfer.ended after.worker = some task

theorem WorkerQuiet.of_same {before after : TaskQueue.State ι Unit Nat}
    (first : after.firstException = before.firstException)
    (same : CpuInfer.carried after.worker = CpuInfer.carried before.worker)
    (finished : after.finished = before.finished)
    (last : ∀ task, CpuInfer.ended before.worker = some task → CpuInfer.ended after.worker = some task) :
    WorkerQuiet before after where
  first := first
  carried := same
  finished := .inl finished
  ended task present := by
    rw [finished]
    exact present.imp_right (last task)

theorem workerStep_quiet {before after : TaskQueue.State ι Unit Nat}
    (moved : TaskQueue.workerStep before none = some after)
    (stopped : ∀ curr next, before.worker ≠ .running curr next)
    (nothing : ∀ next error, before.worker ≠ .capture next (some error)) :
    WorkerQuiet before after := by
  unfold TaskQueue.workerStep at moved
  cases position : before.worker <;> simp only [position] at moved
  case exited | crashed => contradiction
  case running curr next => exact absurd position (stopped curr next)
  case load | call | sleepCheck =>
    split at moved
    · obtain rfl := Option.some.inj moved
      exact .of_same rfl (by simp [position, carried]) rfl (by simp [position, ended])
    · split at moved
      all_goals
        obtain rfl := Option.some.inj moved
        exact .of_same rfl (by simp [position, carried]) rfl (by simp [position, ended])
  case lock | sleepLock =>
    split at moved
    · obtain rfl := Option.some.inj moved
      exact .of_same rfl (by simp [position, carried]) rfl (by simp [position, ended])
    · contradiction
  case capture next thrown =>
    cases thrown with
    | some error => exact absurd position (nothing next error)
    | none =>
        obtain rfl := Option.some.inj moved
        exact .of_same (by simp) (by simp [position, carried]) rfl (by simp [position, ended])
  case loop =>
    obtain rfl := Option.some.inj moved
    refine .of_same rfl ?_ rfl ?_
    · rw [position]
      change carried (if before.done = true then _ else _) = _
      split <;> rfl
    · simp [position, ended]
  case retire next =>
    obtain rfl := Option.some.inj moved
    refine { first := rfl, carried := by simp [position, carried], finished := .inr rfl, ended := ?_ }
    intro task present
    left
    rcases present with old | last
    · exact List.mem_append_left _ old
    · simp only [position, ended, Option.some.injEq] at last
      exact List.mem_append_right _ (List.mem_singleton.mpr last.symm)
  all_goals
    obtain rfl := Option.some.inj moved
    exact .of_same rfl (by simp [position, carried]) rfl (by simp [position, ended])

section

variable [DecidableEq ι]

/-- What a thread inside the queue leaves alone. -/
structure CallerFrame (before after : TaskQueue.State ι Unit Nat) (thread : ι) : Prop where
  worker : after.worker = before.worker
  finished : after.finished = before.finished
  returned : before.returned ⊆ after.returned
  others : ∀ other ≠ thread, after.callers other = before.callers other

structure CallerStep (before after : TaskQueue.State ι Unit Nat) (thread : ι) : Prop where
  frame : CallerFrame before after thread
  moved : Moved before.firstException after.firstException (before.callers thread)
    (after.callers thread)

theorem CallerStep.of_move {before after : TaskQueue.State ι Unit Nat} {thread : ι}
    {position : TaskQueue.Caller Unit Nat} (worker : after.worker = before.worker)
    (finished : after.finished = before.finished) (returned : before.returned ⊆ after.returned)
    (callers : after.callers = before.callers)
    (moved : Moved before.firstException after.firstException (before.callers thread) position) :
    CallerStep before (after.moveCaller thread position) thread where
  frame :=
    { worker := worker
      finished := finished
      returned := returned
      others := fun other different => by
        rw [TaskQueue.moveCaller_other _ _ different, callers] }
  moved := by
    rw [TaskQueue.moveCaller_self]
    exact moved

theorem callerStep_cases {before after : TaskQueue.State ι Unit Nat} {thread : ι}
    (moved : TaskQueue.callerStep before thread = some after) : CallerStep before after thread := by
  unfold TaskQueue.callerStep at moved
  cases position : before.callers thread <;> simp only [position] at moved
  case counted | created | locked =>
    obtain rfl := Option.some.inj moved
    exact .of_move rfl rfl (List.Subset.refl _) rfl (by rw [position]; exact .enqueue rfl rfl rfl)
  case exchanged node prev =>
    split at moved
    all_goals
      obtain rfl := Option.some.inj moved
      exact .of_move rfl rfl (List.Subset.refl _) rfl (by rw [position]; exact .enqueue rfl rfl rfl)
  case linked =>
    split at moved
    · obtain rfl := Option.some.inj moved
      exact .of_move rfl rfl (List.Subset.refl _) rfl (by rw [position]; exact .enqueue rfl rfl rfl)
    · contradiction
  case notify =>
    obtain rfl := Option.some.inj moved
    exact .of_move rfl rfl (List.subset_append_left _ _) rfl
      (by rw [position]; exact .enqueue rfl rfl rfl)
  case syncLock allow seen =>
    split at moved
    · obtain rfl := Option.some.inj moved
      exact .of_move rfl rfl (List.Subset.refl _) rfl
        (by rw [position]; exact .wait rfl allow seen (.inl rfl) (.inr (.inl rfl)))
    · contradiction
  case syncCheck allow seen =>
    split at moved
    · obtain rfl := Option.some.inj moved
      exact .of_move rfl rfl (List.Subset.refl _) rfl
        (by rw [position]; exact .wait rfl allow seen (.inr (.inl rfl)) (.inr (.inr (.inr ⟨_, rfl⟩))))
    · obtain rfl := Option.some.inj moved
      exact .of_move rfl rfl (List.Subset.refl _) rfl
        (by rw [position]; exact .wait rfl allow seen (.inr (.inl rfl)) (.inr (.inr (.inl rfl))))
  case syncWait allow seen =>
    obtain rfl := Option.some.inj moved
    exact .of_move rfl rfl (List.Subset.refl _) rfl
      (by rw [position]; exact .wait rfl allow seen (.inr (.inr (.inl rfl))) (.inl rfl))
  case syncTake allow seen passed =>
    obtain rfl := Option.some.inj moved
    exact .of_move rfl rfl (List.Subset.refl _) rfl
      (by rw [position]; exact .take rfl allow seen passed rfl rfl)
  case syncReturn allow seen passed raised =>
    obtain rfl := Option.some.inj moved
    exact .of_move rfl rfl (List.Subset.refl _) rfl
      (by rw [position]; exact .leave rfl allow seen passed raised rfl rfl)
  case idle | crashed => contradiction

/-! ## The invariant -/

/-- What a thread's place in `CPUInfer` says about its place in the queue. -/
def Placed (state : State ι) : Call → TaskQueue.Caller Unit Nat → Prop
  | .outside, position => Syncing position = false
  | .checkFirst _ before, position => position = .idle ∧ before ⊆ state.queue.returned
  | .syncing allow before, position =>
      (∃ seen, Waiting allow seen position ∧ before ⊆ seen) ∨
        ∃ seen passed raised, position = .syncReturn allow seen passed raised ∧ before ⊆ seen ∧
          (allow = 0 → state.view.Away .queue before)
  | .checkLast allow before, position =>
      position = .idle ∧ (allow = 0 → before ⊆ state.queue.finished ∧ state.view.Away .queue before)
  | .callback _, position => Syncing position = true
  | _, position => position = .idle

structure Inv (state : State ι) : Prop where
  queue : TaskQueue.Inv state.queue
  sound : state.view.Sound
  ended : ∀ task ∈ state.threw, task ∈ state.queue.finished ∨ ended state.queue.worker = some task
  carried : ∀ error, carried state.queue.worker = some error →
    state.threw.getLast? = some error ∧ state.filed error = none ∧ error ∉ state.queue.finished
  complete : ∀ task ∈ state.threw, state.filed task ≠ none ∨ CpuInfer.carried state.queue.worker = some task
  placed : ∀ thread, Placed state (state.calls thread) (state.queue.callers thread)

/-- The step moves an exception, or none. -/
def Simulates (state after : State ι) (action : Action ι) : Prop :=
  after.view = state.view ∨ ∃ move, state.view.step move = some after.view ∧
    (Timely state action → move.Timely state.view) ∧
    ∀ tasks ⊆ state.queue.finished, move.Apart .queue tasks

variable {state after : State ι}

theorem Simulates.away (simulates : Simulates state after action) (sound : state.view.Sound)
    (finished : tasks ⊆ state.queue.finished) (away : state.view.Away .queue tasks) :
    after.view.Away .queue tasks := by
  rcases simulates with same | ⟨move, moved, _, apart⟩
  · rw [same]
    exact away
  · exact away.step sound moved (apart tasks finished)

theorem Simulates.sound (simulates : Simulates state after action) (sound : state.view.Sound) :
    after.view.Sound := by
  rcases simulates with same | ⟨move, moved, _, _⟩
  · rw [same]
    exact sound
  · exact sound.step moved

omit [DecidableEq ι] in
/-- What a `sync(0)` that has passed the queue waited for is finished. -/
theorem finished_of_syncReturn {queue : TaskQueue.State ι Unit Nat} (inv : TaskQueue.Inv queue)
    (position : queue.callers thread = .syncReturn 0 seen passed raised) : seen ⊆ queue.finished := by
  have placed := inv.callers thread
  simp only [position, TaskQueue.CallerPlaced] at placed
  obtain ⟨early, ordered, enough⟩ := placed
  have within : passed <+: queue.finished := by
    apply List.prefix_of_prefix_length_le ordered inv.retired
    omega
  exact List.Subset.trans early within.subset

omit [DecidableEq ι] in
theorem Placed.mono (placed : Placed state call position) (queue : TaskQueue.Inv state.queue)
    (own : position = state.queue.callers thread) (returned : state.queue.returned ⊆ after.queue.returned)
    (finished : state.queue.finished ⊆ after.queue.finished)
    (away : ∀ tasks ⊆ state.queue.finished, state.view.Away .queue tasks → after.view.Away .queue tasks) :
    Placed after call position := by
  cases call with
  | outside => exact placed
  | checkFirst allow before => exact ⟨placed.1, List.Subset.trans placed.2 returned⟩
  | syncing allow before =>
      rcases placed with waiting | ⟨seen, passed, raised, position, early, settled⟩
      · exact .inl waiting
      · refine .inr ⟨seen, passed, raised, position, early, ?_⟩
        intro zero
        subst allow
        have inside := finished_of_syncReturn queue (own.symm.trans position)
        exact away before (List.Subset.trans early inside) (settled rfl)
  | checkLast allow before =>
      refine ⟨placed.1, ?_⟩
      intro zero
      obtain ⟨inside, settled⟩ := placed.2 zero
      exact ⟨List.Subset.trans inside finished, away before inside settled⟩
  | returned allow before => exact placed
  | rethrow => exact placed
  | throwing error => exact placed
  | callback allow => exact placed
  | recording error => exact placed

/-! ## Steps of the threads -/

/-- What a step of one thread leaves alone. -/
structure ThreadFrame (state after : State ι) (thread : ι) : Prop where
  worker : after.queue.worker = state.queue.worker
  finished : after.queue.finished = state.queue.finished
  returned : state.queue.returned ⊆ after.queue.returned
  callers : ∀ other ≠ thread, after.queue.callers other = state.queue.callers other
  calls : ∀ other ≠ thread, after.calls other = state.calls other
  threw : after.threw = state.threw

omit [DecidableEq ι] in
theorem ThreadFrame.hand (frame : ThreadFrame state after thread) (different : other ≠ thread) :
    after.held (.hand other) = state.held (.hand other) := by
  simp only [State.held, State.hand, frame.calls other different, frame.callers other different]

omit [DecidableEq ι] in
theorem view_ext {custody : Custody (Place ι) Nat} (held : ∀ place, after.held place = custody.held place)
    (threw : after.threw = custody.failed) (filed : after.filed = custody.filed)
    (reported : after.reported = custody.reported) : after.view = custody := by
  obtain ⟨held', failed', filed', reported'⟩ := custody
  simp only [State.view, Custody.mk.injEq]
  exact ⟨funext held, threw, filed, reported⟩

/-- No exception moves. -/
theorem ThreadFrame.idle (frame : ThreadFrame state after thread)
    (first : after.queue.firstException = state.queue.firstException)
    (slot : after.deviceCallbackError = state.deviceCallbackError)
    (own : after.hand thread = state.hand thread) (filed : after.filed = state.filed)
    (reported : after.reported = state.reported) : Simulates state after action := by
  refine .inl (view_ext ?_ frame.threw filed reported)
  intro place
  cases place with
  | queue => exact first
  | callback => exact slot
  | hand other =>
      by_cases same : other = thread
      · subst other
        exact own
      · exact frame.hand same

/-- The exception of `source` moves to the empty `target`. -/
theorem ThreadFrame.pass (frame : ThreadFrame state after thread) (source target : Place ι)
    (full : state.held source = some error) (empty : state.held target = none)
    (apart : target ≠ .queue) (gone : after.held source = none)
    (arrived : after.held target = some error)
    (others : ∀ place, place ≠ source → place ≠ target → after.held place = state.held place)
    (filed : after.filed = state.filed) (reported : after.reported = state.reported) :
    Simulates state after action := by
  have moved : state.view.step (.pass source target) = some (state.view.pass source target) := by
    simp [Custody.step, State.view, full, empty]
  have same : after.view = state.view.pass source target := by
    refine view_ext ?_ frame.threw filed reported
    intro place
    simp only [Custody.pass, State.view]
    by_cases atTarget : place = target
    · subst place
      rw [Function.update_self, arrived, full]
    · rw [Function.update_of_ne atTarget]
      by_cases atSource : place = source
      · subst place
        rw [Function.update_self, gone]
      · rw [Function.update_of_ne atSource]
        exact others place atSource atTarget
  exact .inr ⟨.pass source target, by rw [moved, same], fun _ => trivial, fun _ _ => apart⟩

theorem ThreadFrame.emptied (frame : ThreadFrame state after thread)
    (first : after.queue.firstException = state.queue.firstException)
    (slot : after.deviceCallbackError = state.deviceCallbackError) (gone : after.hand thread = none)
    (place : Place ι) : after.held place = Function.update state.held (.hand thread) none place := by
  by_cases own : place = .hand thread
  · subst own
    rw [Function.update_self]
    exact gone
  · rw [Function.update_of_ne own]
    cases place with
    | queue => exact first
    | callback => exact slot
    | hand other => exact frame.hand fun same => own (by rw [same])

/-- `rethrow_device_callback_error`. -/
theorem take_simulates (frame : ThreadFrame state after thread) (empty : state.hand thread = none)
    (slot : state.deviceCallbackError = some error) (cleared : after.deviceCallbackError = none)
    (taken : after.hand thread = some error)
    (first : after.queue.firstException = state.queue.firstException) (filed : after.filed = state.filed)
    (reported : after.reported = state.reported) : Simulates state after action := by
  apply frame.pass .callback (.hand thread) slot empty nofun cleared taken _ filed
    reported
  intro place notSource notTarget
  cases place with
  | queue => exact first
  | callback => contradiction
  | hand other => exact frame.hand fun same => notTarget (by rw [same])

/-- The frame of a step that does not enter the queue. -/
theorem ThreadFrame.outside {error : Option Nat} {filed : Nat → Option Nat} {reported : List Nat}
    (state : State ι) (thread : ι) (call : Call) :
    ThreadFrame state
      ({ state with deviceCallbackError := error, filed, reported }.moveCall thread call) thread where
  worker := rfl
  finished := rfl
  returned := List.Subset.refl _
  callers _ _ := rfl
  calls _ different := Function.update_of_ne different ..
  threw := rfl

/-- The frame of a step inside the queue, and of one that enters or leaves it. -/
theorem ThreadFrame.inside {queue : TaskQueue.State ι Unit Nat}
    (frame : CallerFrame state.queue queue thread) (call : Call) :
    ThreadFrame state ({ state with queue := queue }.moveCall thread call) thread where
  worker := frame.worker
  finished := frame.finished
  returned := frame.returned
  callers := frame.others
  calls _ different := Function.update_of_ne different ..
  threw := rfl

omit [DecidableEq ι] in
theorem ThreadFrame.stay {queue : TaskQueue.State ι Unit Nat}
    (frame : CallerFrame state.queue queue thread) :
    ThreadFrame state { state with queue := queue } thread where
  worker := frame.worker
  finished := frame.finished
  returned := frame.returned
  callers := frame.others
  calls _ _ := rfl
  threw := rfl

structure ThreadStep (state after : State ι) (thread : ι) (action : Action ι) : Prop where
  frame : ThreadFrame state after thread
  simulates : Simulates state after action
  placed : Placed after (after.calls thread) (after.queue.callers thread)
  queue : TaskQueue.Inv after.queue
  filed : ∀ task, after.filed task = none ↔ state.filed task = none

theorem Inv.queueStep_cases (inv : Inv state) (moved : queueStep state thread = some after) :
    ∃ queue, after = { state with queue := queue } ∧ CallerFrame state.queue queue thread ∧
      Moved state.queue.firstException queue.firstException (state.queue.callers thread)
        (queue.callers thread) ∧ TaskQueue.Inv queue := by
  obtain ⟨queue, stepped, rfl⟩ := Option.map_eq_some_iff.mp moved
  obtain ⟨frame, moves⟩ := callerStep_cases stepped
  exact ⟨queue, rfl, frame, moves, inv.queue.callerStep stepped⟩

omit [DecidableEq ι] in
/-- A failure that is finished has been filed. -/
theorem Inv.filed_of_finished (inv : Inv state) (finished : task ∈ state.queue.finished)
    (failed : task ∈ state.threw) : state.filed task ≠ none := by
  rcases inv.complete task failed with filed | carried
  · exact filed
  · exact absurd finished (inv.carried task carried).2.2

theorem not_waiting_of_outside (outside : Syncing position = false) : ¬ Waiting allow seen position := by
  intro waiting
  rcases waiting with same | same | same | ⟨_, same⟩ <;> simp [same, Syncing] at outside

theorem handOf_syncing (waiting : Waiting allow seen position) :
    handOf (.syncing amount before) position = none := by
  rcases waiting with same | same | same | ⟨_, same⟩ <;> simp [same, handOf]

theorem handOf_callback (waiting : Waiting allow seen position) :
    handOf (.callback amount) position = none := by
  rcases waiting with same | same | same | ⟨_, same⟩ <;> simp [same, handOf]

/-- A thread enters `TaskQueue::sync`. -/
theorem sync_enters {queue after : TaskQueue.State ι Unit Nat} (inv : TaskQueue.Inv queue)
    (idle : queue.callers thread = .idle)
    (began : TaskQueue.step queue (.sync thread allow) = some after) :
    CallerFrame queue after thread ∧ after.callers thread = .syncLock allow queue.returned ∧
      after.firstException = queue.firstException ∧ TaskQueue.Inv after := by
  have kept := inv.step began
  simp only [TaskQueue.step, idle, Option.some.injEq] at began
  subst began
  refine ⟨?_, TaskQueue.moveCaller_self .., rfl, kept⟩
  exact
    { worker := rfl
      finished := rfl
      returned := List.Subset.refl _
      others := fun other different => TaskQueue.moveCaller_other _ _ different }

/-- A thread in no function of `CPUInfer` goes on with its `enqueue`. -/
theorem Inv.outside (inv : Inv state) (call : state.calls thread = .outside)
    (moved : queueStep state thread = some after) : ThreadStep state after thread action := by
  obtain ⟨queue, rfl, frame, moves, kept⟩ := inv.queueStep_cases moved
  have placed := inv.placed thread
  simp only [call, Placed] at placed
  have results : queue.firstException = state.queue.firstException ∧
      Syncing (queue.callers thread) = false := by
    cases moves with
    | enqueue same outside still => exact ⟨same, still⟩
    | wait same allow seen waiting still => exact absurd waiting (not_waiting_of_outside placed)
    | take cleared allow seen passed own taken => simp [own, Syncing] at placed
    | leave same allow seen passed raised own left => simp [own, Syncing] at placed
  refine
    { frame := .stay frame, simulates := ?_, placed := ?_, queue := kept, filed := fun _ => Iff.rfl }
  · refine (ThreadFrame.stay frame).idle results.1 rfl ?_ rfl rfl
    simp [State.hand, call, handOf]
  · simp only [call, Placed]
    exact results.2

/-- `TaskQueue::sync` takes the exception of the queue. -/
theorem take_first_simulates {queue : TaskQueue.State ι Unit Nat}
    (frame : CallerFrame state.queue queue thread) (empty : state.hand thread = none)
    (cleared : queue.firstException = none)
    (taken : State.hand { state with queue := queue } thread = state.queue.firstException) :
    Simulates state { state with queue := queue } action := by
  cases first : state.queue.firstException with
  | none =>
      rw [first] at taken
      exact (ThreadFrame.stay frame).idle (cleared.trans first.symm) rfl (taken.trans empty.symm) rfl rfl
  | some error =>
      rw [first] at taken
      apply (ThreadFrame.stay frame).pass .queue (.hand thread) first empty nofun
        cleared taken _ rfl rfl
      intro place notSource notTarget
      cases place with
      | queue => contradiction
      | callback => rfl
      | hand other => exact (ThreadFrame.stay frame).hand fun same => notTarget (by rw [same])

theorem waiting_unique (first : Waiting allow seen position) (second : Waiting other known position) :
    other = allow ∧ known = seen := by
  rcases first with same | same | same | ⟨_, same⟩ <;>
    rcases second with same' | same' | same' | ⟨_, same'⟩ <;> rw [same] at same' <;> cases same' <;>
    exact ⟨rfl, rfl⟩

theorem syncing_of_waiting (waiting : Waiting allow seen position) : Syncing position = true := by
  rcases waiting with same | same | same | ⟨_, same⟩ <;> simp [same, Syncing]

omit [DecidableEq ι] in
/-- After the queue's exception has been taken the tasks that are finished stand
under exceptions that are elsewhere. -/
theorem Inv.away_of_take (inv : Inv state) {queue : TaskQueue.State ι Unit Nat}
    (cleared : queue.firstException = none) (finished : before ⊆ state.queue.finished) :
    (State.view { state with queue := queue }).Away .queue before := by
  intro task member failed
  obtain ⟨error, filed⟩ := Option.ne_none_iff_exists'.mp (inv.filed_of_finished (finished member) failed)
  refine ⟨error, filed, ?_⟩
  change queue.firstException ≠ some error
  rw [cleared]
  nofun

/-- `CPUInfer::sync` inside the queue. -/
theorem Inv.syncing (inv : Inv state) (call : state.calls thread = .syncing allow before)
    (going : syncResult state thread = none) (moved : queueStep state thread = some after) :
    ThreadStep state after thread action := by
  obtain ⟨queue, rfl, frame, moves, kept⟩ := inv.queueStep_cases moved
  have placed := inv.placed thread
  simp only [call, Placed] at placed
  rcases placed with ⟨seen, waiting, early⟩ | ⟨_, _, _, own, _⟩
  · have empty : state.hand thread = none := by
      simp only [State.hand, call]
      exact handOf_syncing waiting
    cases moves with
    | enqueue same outside still => exact absurd waiting (not_waiting_of_outside outside)
    | wait same other known waiting' still =>
        obtain ⟨rfl, rfl⟩ := waiting_unique waiting waiting'
        refine
          { frame := .stay frame, simulates := ?_, placed := ?_, queue := kept
            filed := fun _ => Iff.rfl }
        · refine (ThreadFrame.stay frame).idle same rfl ?_ rfl rfl
          rw [empty]
          simp only [State.hand, call]
          exact handOf_syncing still
        · simp only [call, Placed]
          exact .inl ⟨_, still, early⟩
    | take cleared other known passed own taken =>
        obtain ⟨rfl, rfl⟩ := waiting_unique waiting (.inr (.inr (.inr ⟨passed, own⟩)))
        refine
          { frame := .stay frame, simulates := ?_, placed := ?_, queue := kept
            filed := fun _ => Iff.rfl }
        · apply take_first_simulates frame empty cleared
          simp [State.hand, call, taken, handOf]
        · simp only [call, Placed]
          refine .inr ⟨_, passed, _, taken, early, ?_⟩
          intro zero
          subst zero
          have inside := finished_of_syncReturn kept taken
          rw [frame.finished] at inside
          exact inv.away_of_take cleared (List.Subset.trans early inside)
    | leave same other known passed raised own left =>
        rcases waiting with same | same | same | ⟨_, same⟩ <;> simp [own] at same
  · simp [syncResult, own] at going

/-- `sync_callback_` inside the queue. -/
theorem Inv.callback (inv : Inv state) (call : state.calls thread = .callback allow)
    (going : syncResult state thread = none) (moved : queueStep state thread = some after) :
    ThreadStep state after thread action := by
  obtain ⟨queue, rfl, frame, moves, kept⟩ := inv.queueStep_cases moved
  have placed := inv.placed thread
  simp only [call, Placed] at placed
  cases moves with
  | enqueue same outside still => simp [outside] at placed
  | wait same other known waiting still =>
      refine
        { frame := .stay frame, simulates := ?_, placed := ?_, queue := kept, filed := fun _ => Iff.rfl }
      · refine (ThreadFrame.stay frame).idle same rfl ?_ rfl rfl
        simp only [State.hand, call]
        rw [handOf_callback still, handOf_callback waiting]
      · simp only [call, Placed]
        exact syncing_of_waiting still
  | take cleared other known passed own taken =>
      refine
        { frame := .stay frame, simulates := ?_, placed := ?_, queue := kept, filed := fun _ => Iff.rfl }
      · apply take_first_simulates frame _ cleared
        · simp [State.hand, call, taken, handOf]
        · simp [State.hand, call, own, handOf]
      · simp [call, Placed, taken, Syncing]
  | leave same other known passed raised own left => simp [syncResult, own] at going

/-- `TaskQueue::sync` returns or throws into the function that called it. -/
theorem Inv.leave (inv : Inv state) (result : syncResult state thread = some raised)
    (moved : queueStep state thread = some after) (call : Call)
    (same : handOf call .idle = state.hand thread)
    (fits : ∀ queue, queue.finished = state.queue.finished →
      queue.firstException = state.queue.firstException →
      Placed ({ state with queue := queue }.moveCall thread call) call .idle) :
    ThreadStep state (after.moveCall thread call) thread action := by
  obtain ⟨queue, rfl, frame, moves, kept⟩ := inv.queueStep_cases moved
  have results : queue.firstException = state.queue.firstException ∧ queue.callers thread = .idle := by
    cases moves with
    | enqueue same outside still =>
        simp only [syncResult] at result
        split at result
        · rename_i position
          simp [position, Syncing] at outside
        · contradiction
    | wait same other known waiting still =>
        rcases waiting with own | own | own | ⟨_, own⟩ <;> simp [syncResult, own] at result
    | take cleared other known passed own taken => simp [syncResult, own] at result
    | leave same other known passed raised own left => exact ⟨same, left⟩
  have own : ({ state with queue := queue }.moveCall thread call).calls thread = call :=
    Function.update_self ..
  refine
    { frame := .inside frame call, simulates := ?_, placed := ?_, queue := kept
      filed := fun _ => Iff.rfl }
  · refine (ThreadFrame.inside frame call).idle results.1 rfl ?_ rfl rfl
    rw [← same]
    simp only [State.hand, own]
    exact congrArg _ results.2
  · rw [own]
    have position : ({ state with queue := queue }.moveCall thread call).queue.callers thread = .idle :=
      results.2
    rw [position]
    exact fits queue frame.finished results.1

theorem moveCall_self (state : State ι) (thread : ι) (call : Call) :
    (state.moveCall thread call).calls thread = call :=
  Function.update_self ..

/-- A call that is not in the queue moves on without an exception. -/
theorem Inv.proceed (inv : Inv state) (position : state.queue.callers thread = .idle)
    (empty : state.hand thread = none) (call : Call) (nothing : handOf call .idle = none)
    (fits : Placed (state.moveCall thread call) call .idle) :
    ThreadStep state (state.moveCall thread call) thread action := by
  have frame : ThreadFrame state (state.moveCall thread call) thread := .outside state thread call
  refine { frame := frame, simulates := ?_, placed := ?_, queue := inv.queue, filed := fun _ => Iff.rfl }
  · refine frame.idle rfl rfl ?_ rfl rfl
    rw [empty]
    simp only [State.hand, moveCall_self]
    exact (congrArg _ position).trans nothing
  · rw [moveCall_self]
    exact position.symm ▸ fits

/-- `rethrow_device_callback_error` inside a call. -/
theorem Inv.takes (inv : Inv state) (position : state.queue.callers thread = .idle)
    (empty : state.hand thread = none) (slot : state.deviceCallbackError = some error) :
    ThreadStep state ({ state with deviceCallbackError := none }.moveCall thread (.throwing error))
      thread action := by
  have frame : ThreadFrame state
      ({ state with deviceCallbackError := none }.moveCall thread (.throwing error)) thread :=
    .outside state thread (.throwing error)
  refine { frame := frame, simulates := ?_, placed := ?_, queue := inv.queue, filed := fun _ => Iff.rfl }
  · refine take_simulates frame empty slot rfl ?_ rfl rfl rfl
    simp only [State.hand, moveCall_self, handOf]
  · rw [moveCall_self]
    exact position

/-- The exception leaves the call. -/
theorem Inv.throws (inv : Inv state) (call : state.calls thread = .throwing error) :
    ThreadStep state
      ({ state with reported := state.reported ++ [error] }.moveCall thread .outside) thread action := by
  have position := inv.placed thread
  simp only [call, Placed] at position
  have full : state.held (.hand thread) = some error := by
    simp only [State.held, State.hand, call, handOf]
  have frame : ThreadFrame state
      ({ state with reported := state.reported ++ [error] }.moveCall thread .outside) thread :=
    .outside state thread .outside
  refine { frame := frame, simulates := ?_, placed := ?_, queue := inv.queue, filed := fun _ => Iff.rfl }
  · refine .inr ⟨.report (.hand thread), ?_, fun _ => trivial, fun _ _ => trivial⟩
    simp only [Custody.step, State.view, full, Option.some.injEq]
    refine (view_ext (frame.emptied rfl rfl ?_) rfl rfl rfl).symm
    simp only [State.hand, moveCall_self, handOf]
  · rw [moveCall_self]
    change Syncing (state.queue.callers thread) = false
    rw [position]
    rfl

omit [DecidableEq ι] in
theorem record_empty (slot : state.deviceCallbackError = none) :
    recordDeviceCallbackError state error = { state with deviceCallbackError := some error } := by
  simp only [recordDeviceCallbackError, slot]

omit [DecidableEq ι] in
theorem record_full (slot : state.deviceCallbackError = some kept) :
    recordDeviceCallbackError state error = { state with
      filed := fun task => if state.filed task = some error then some kept else state.filed task } := by
  simp only [recordDeviceCallbackError, slot]

/-- `record_device_callback_error_`. -/
theorem Inv.records (inv : Inv state) (call : state.calls thread = .recording error) :
    ThreadStep state ((recordDeviceCallbackError state error).moveCall thread .outside) thread
      (.thread thread) := by
  have position := inv.placed thread
  simp only [call, Placed] at position
  have full : state.held (.hand thread) = some error := by
    simp only [State.held, State.hand, call, handOf]
  have placed : Syncing (state.queue.callers thread) = false := by
    rw [position]
    rfl
  cases slot : state.deviceCallbackError with
  | none =>
      rw [record_empty slot]
      have frame : ThreadFrame state
          ({ state with deviceCallbackError := some error }.moveCall thread .outside) thread :=
        .outside state thread .outside
      refine
        { frame := frame, simulates := ?_, placed := ?_, queue := inv.queue, filed := fun _ => Iff.rfl }
      · apply frame.pass (.hand thread) .callback full slot nofun _ rfl _ rfl rfl
        · simp only [State.held, State.hand, moveCall_self, handOf]
        · intro place notSource notTarget
          cases place with
          | queue => rfl
          | callback => contradiction
          | hand other => exact frame.hand fun same => notSource (by rw [same])
      · rw [moveCall_self]
        exact placed
  | some kept =>
      rw [record_full slot]
      have frame : ThreadFrame state ({ state with
          filed := fun task => if state.filed task = some error then some kept else state.filed task
          }.moveCall thread .outside) thread := .outside state thread .outside
      refine { frame := frame, simulates := ?_, placed := ?_, queue := inv.queue, filed := ?_ }
      · refine .inr ⟨.merge (.hand thread) .callback, ?_, ?_, fun _ _ => nofun⟩
        · have full : state.view.held (.hand thread) = some error := full
          have other : state.view.held .callback = some kept := slot
          simp only [Custody.step, full, other, reduceCtorEq, if_false, Option.some.injEq]
          refine (view_ext (frame.emptied rfl rfl ?_) rfl rfl rfl).symm
          simp only [State.hand, moveCall_self, handOf]
        · intro timely gone keeps held there
          change state.held (.hand thread) = some gone at held
          rw [full, Option.some.injEq] at held
          subst held
          change state.deviceCallbackError = some keeps at there
          simp only [Timely, Call.Keeps, call, there] at timely
          exact timely
      · rw [moveCall_self]
        exact placed
      · intro task
        change (if state.filed task = some error then some kept else state.filed task) = none ↔ _
        split
        · rename_i same
          simp [same]
        · rfl

theorem takes_nothing (slot : state.deviceCallbackError = none) :
    takeDeviceCallbackError state thread otherwise = otherwise := by
  simp only [takeDeviceCallbackError, slot]

theorem takes_error (slot : state.deviceCallbackError = some error) :
    takeDeviceCallbackError state thread otherwise =
      { state with deviceCallbackError := none }.moveCall thread (.throwing error) := by
  simp only [takeDeviceCallbackError, slot]

omit [DecidableEq ι] in
theorem syncReturn_of_result (result : syncResult state thread = some raised) :
    ∃ allow seen passed, state.queue.callers thread = .syncReturn allow seen passed raised := by
  unfold syncResult at result
  split at result
  · rename_i allow seen passed raised' position
    simp only [Option.some.injEq] at result
    exact ⟨allow, seen, passed, result ▸ position⟩
  · contradiction

omit [DecidableEq ι] in
/-- `TaskQueue::sync` has come to its end inside `CPUInfer::sync`. -/
theorem Inv.synced (inv : Inv state) (call : state.calls thread = .syncing allow before)
    (result : syncResult state thread = some raised) :
    ∃ seen passed, state.queue.callers thread = .syncReturn allow seen passed raised ∧
      before ⊆ seen ∧ (allow = 0 → state.view.Away .queue before) := by
  obtain ⟨amount, known, passed, position⟩ := syncReturn_of_result result
  have placed := inv.placed thread
  simp only [call, Placed] at placed
  rcases placed with ⟨seen, waiting, _⟩ | ⟨seen, passed', raised', own, early, settled⟩
  · rcases waiting with same | same | same | ⟨_, same⟩ <;> simp [position] at same
  · rw [position] at own
    cases own
    exact ⟨known, passed, position, early, settled⟩

/-- `CPUInfer::sync` begins: it rethrows, or enters the queue. -/
theorem Inv.begins {queue : TaskQueue.State ι Unit Nat} (inv : Inv state) (call : state.calls thread = .checkFirst allow before)
    (idle : state.queue.callers thread = .idle) (early : before ⊆ state.queue.returned)
    (began : TaskQueue.step state.queue (.sync thread allow) = some queue) :
    ThreadStep state (takeDeviceCallbackError state thread
      ({ state with queue := queue }.moveCall thread (.syncing allow before))) thread action := by
  have empty : state.hand thread = none := by simp only [State.hand, call, handOf]
  rcases Option.eq_none_or_eq_some state.deviceCallbackError with slot | ⟨error, slot⟩
  · rw [takes_nothing slot]
    obtain ⟨frame, position, first, kept⟩ := sync_enters inv.queue idle began
    have moves := ThreadFrame.inside frame (.syncing allow before)
    refine { frame := moves, simulates := ?_, placed := ?_, queue := kept, filed := fun _ => Iff.rfl }
    · refine moves.idle first rfl ?_ rfl rfl
      rw [empty]
      simp only [State.hand, moveCall_self]
      exact handOf_syncing (.inl position)
    · rw [moveCall_self]
      exact .inl ⟨_, .inl position, early⟩
  · rw [takes_error slot]
    exact inv.takes idle empty slot

theorem Inv.threadStep (inv : Inv state) (moved : threadStep state thread = some after) :
    ThreadStep state after thread (.thread thread) := by
  have placed := inv.placed thread
  unfold CpuInfer.threadStep at moved
  cases call : state.calls thread with
  | outside =>
      simp only [call] at moved
      exact inv.outside call moved
  | checkFirst allow before =>
      simp only [call] at moved
      obtain ⟨queue, began, rfl⟩ := Option.map_eq_some_iff.mp moved
      simp only [call, Placed] at placed
      exact inv.begins call placed.1 placed.2 began
  | syncing allow before =>
      simp only [call] at moved
      cases result : syncResult state thread with
      | none =>
          rw [result] at moved
          exact inv.syncing call result moved
      | some raised =>
          obtain ⟨seen, passed, position, early, settled⟩ := inv.synced call result
          cases raised with
          | none =>
              rw [result] at moved
              obtain ⟨middle, left, rfl⟩ := Option.map_eq_some_iff.mp moved
              apply inv.leave result left (.checkLast allow before)
              · simp only [State.hand, call, position, handOf]
              · intro queue finished first
                refine ⟨rfl, ?_⟩
                intro zero
                subst zero
                have inside := finished_of_syncReturn inv.queue position
                have done : before ⊆ state.queue.finished := List.Subset.trans early inside
                refine ⟨finished.symm ▸ done, ?_⟩
                intro task member failed
                obtain ⟨error, filed, elsewhere⟩ := settled rfl task member failed
                refine ⟨error, filed, ?_⟩
                change queue.firstException ≠ some error
                rw [first]
                exact elsewhere
          | some error =>
              rw [result] at moved
              obtain ⟨middle, left, rfl⟩ := Option.map_eq_some_iff.mp moved
              apply inv.leave result left (.throwing error)
              · simp only [State.hand, call, position, handOf]
              · intro queue _ _
                rfl
  | checkLast allow before =>
      simp only [call, Option.some.injEq] at moved
      simp only [call, Placed] at placed
      have empty : state.hand thread = none := by simp only [State.hand, call, handOf]
      subst moved
      cases slot : state.deviceCallbackError with
      | none =>
          rw [takes_nothing slot]
          exact inv.proceed placed.1 empty (.returned allow before) rfl rfl
      | some error =>
          rw [takes_error slot]
          exact inv.takes placed.1 empty slot
  | returned allow before =>
      simp only [call, Option.some.injEq] at moved
      simp only [call, Placed] at placed
      subst moved
      apply inv.proceed placed _ .outside rfl rfl
      simp only [State.hand, call, handOf]
  | rethrow =>
      simp only [call, Option.some.injEq] at moved
      simp only [call, Placed] at placed
      have empty : state.hand thread = none := by simp only [State.hand, call, handOf]
      subst moved
      cases slot : state.deviceCallbackError with
      | none =>
          rw [takes_nothing slot]
          exact inv.proceed placed empty .outside rfl rfl
      | some error =>
          rw [takes_error slot]
          exact inv.takes placed empty slot
  | throwing error =>
      simp only [call, Option.some.injEq] at moved
      exact moved ▸ inv.throws call
  | callback allow =>
      simp only [call] at moved
      cases result : syncResult state thread with
      | none =>
          rw [result] at moved
          exact inv.callback call result moved
      | some raised =>
          obtain ⟨amount, seen, passed, position⟩ := syncReturn_of_result result
          cases raised with
          | none =>
              rw [result] at moved
              obtain ⟨middle, left, rfl⟩ := Option.map_eq_some_iff.mp moved
              apply inv.leave result left .outside
              · simp only [State.hand, call, position, handOf]
              · intro queue _ _
                rfl
          | some error =>
              rw [result] at moved
              obtain ⟨middle, left, rfl⟩ := Option.map_eq_some_iff.mp moved
              apply inv.leave result left (.recording error)
              · simp only [State.hand, call, position, handOf]
              · intro queue _ _
                rfl
  | recording error =>
      simp only [call, Option.some.injEq] at moved
      exact moved ▸ inv.records call

theorem ThreadStep.inv (stepped : ThreadStep state after thread action) (inv : Inv state) :
    Inv after where
  queue := stepped.queue
  sound := stepped.simulates.sound inv.sound
  ended := by
    rw [stepped.frame.threw, stepped.frame.finished, stepped.frame.worker]
    exact inv.ended
  carried := by
    intro error found
    rw [stepped.frame.worker] at found
    rw [stepped.frame.threw, stepped.frame.finished, stepped.filed error]
    exact inv.carried error found
  complete := by
    intro task member
    rw [stepped.frame.threw] at member
    rw [stepped.frame.worker, Ne, stepped.filed task]
    exact inv.complete task member
  placed := by
    intro other
    by_cases same : other = thread
    · subst other
      exact stepped.placed
    · rw [stepped.frame.calls other same, stepped.frame.callers other same]
      refine (inv.placed other).mono inv.queue rfl stepped.frame.returned ?_ ?_
      · rw [stepped.frame.finished]
        exact List.Subset.refl _
      · intro tasks finished away
        exact stepped.simulates.away inv.sound finished away

/-! ## Steps of the worker -/

theorem Inv.worker_placed (inv : Inv state) (calls : after.calls = state.calls)
    (frame : WorkerFrame state.queue after.queue) (simulates : Simulates state after action)
    (thread : ι) : Placed after (after.calls thread) (after.queue.callers thread) := by
  rw [calls, frame.callers]
  refine (inv.placed thread).mono inv.queue rfl ?_ frame.finished ?_
  · rw [frame.returned]
    exact List.Subset.refl _
  · intro tasks finished away
    exact simulates.away inv.sound finished away

omit [DecidableEq ι] in
/-- The task the worker has just run is not finished. -/
theorem next_fresh {queue : TaskQueue.State ι Unit Nat} (inv : TaskQueue.Inv queue)
    (follows : queue.chain[queue.finished.length + 1]? = some next) : next ∉ queue.finished := by
  intro member
  obtain ⟨zeroAbsent, nodup⟩ := List.nodup_cons.mp inv.nodup
  have place : queue.order[queue.finished.length]? = some next := by
    simpa [TaskQueue.State.chain] using follows
  obtain ⟨index, below, found⟩ := List.mem_iff_getElem.mp member
  obtain ⟨rest, ordered⟩ := inv.retired
  have early : queue.order[index]? = some next := by
    rw [← ordered, List.getElem?_append_left below, List.getElem?_eq_getElem below, found]
  obtain ⟨bound, _⟩ := List.getElem?_eq_some_iff.mp early
  have same := (List.getElem?_inj bound nodup).mp (early.trans place.symm)
  omega

theorem Inv.runs {throws : Bool} {queue : TaskQueue.State ι Unit Nat} (inv : Inv state)
    (position : state.queue.worker = .running curr next)
    (moved : TaskQueue.workerStep state.queue (if throws then some next else none) = some queue) :
    Simulates state
        { state with queue := queue, threw := if throws then state.threw ++ [next] else state.threw }
        (.worker throws) ∧
      Inv { state with
        queue := queue, threw := if throws then state.threw ++ [next] else state.threw } := by
  have kept := inv.queue.workerStep moved
  have frame := workerStep_frame moved
  have placed := inv.queue.worker
  simp only [TaskQueue.WorkerPlaced, position] at placed
  have fresh := next_fresh inv.queue placed.2.1
  have unthrown : next ∉ state.threw := by
    intro member
    rcases inv.ended next member with finished | last
    · exact fresh finished
    · simp [position, CpuInfer.ended] at last
  simp only [TaskQueue.workerStep, position, Option.some.injEq] at moved
  subst moved
  cases throws with
  | false =>
      have same : Simulates state
          { state with queue := { state.queue with worker := .release curr next none } }
          (.worker false) := .inl rfl
      refine ⟨same, ?_⟩
      exact
        { queue := kept
          sound := inv.sound
          ended := fun task member => .inl ((inv.ended task member).resolve_right (by
            simp [position, CpuInfer.ended]))
          carried := by simp [CpuInfer.carried]
          complete := fun task member => .inl ((inv.complete task member).resolve_right (by
            simp [position, CpuInfer.carried]))
          placed := inv.worker_placed rfl frame same }
  | true =>
      have moves : Simulates state
          { state with
            queue := { state.queue with worker := .release curr next (some next) }
            threw := state.threw ++ [next] } (.worker true) := by
        refine .inr ⟨.fail next, ?_, fun _ => trivial, ?_⟩
        · simp only [Custody.step, State.view, unthrown, if_false]
          rfl
        · intro tasks finished member
          exact fresh (finished member)
      refine ⟨moves, ?_⟩
      exact
        { queue := kept
          sound := moves.sound inv.sound
          ended := by
            intro task member
            rcases List.mem_append.mp member with old | new
            · exact .inl ((inv.ended task old).resolve_right (by simp [position, CpuInfer.ended]))
            · exact .inr (congrArg some (List.mem_singleton.mp new).symm)
          carried := by
            intro error found
            obtain rfl := Option.some.inj (show some next = some error from found)
            refine ⟨by simp, ?_, fresh⟩
            apply Option.eq_none_iff_forall_ne_some.mpr
            intro under filed
            exact unthrown (inv.sound.known next under filed).1
          complete := by
            intro task member
            rcases List.mem_append.mp member with old | new
            · exact .inl ((inv.complete task old).resolve_right (by simp [position, CpuInfer.carried]))
            · exact .inr (congrArg some (List.mem_singleton.mp new).symm)
          placed := inv.worker_placed rfl frame moves }

theorem Inv.captures {throws : Bool} {queue : TaskQueue.State ι Unit Nat} (inv : Inv state)
    (position : state.queue.worker = .capture next (some error))
    (moved : TaskQueue.workerStep state.queue none = some queue) :
    Simulates state
        { state with
          queue := queue
          filed := Function.update state.filed error (some (state.queue.firstException.getD error)) }
        (.worker throws) ∧
      Inv { state with
        queue := queue
        filed := Function.update state.filed error (some (state.queue.firstException.getD error)) } := by
  have kept := inv.queue.workerStep moved
  have frame := workerStep_frame moved
  obtain ⟨newest, unfiled, unfinished⟩ := inv.carried error (by simp [position, CpuInfer.carried])
  simp only [TaskQueue.workerStep, position, Option.some.injEq] at moved
  have hands : ∀ thread, State.hand { state with
      queue := queue
      filed := Function.update state.filed error (some (state.queue.firstException.getD error)) } thread =
        state.hand thread := by
    intro thread
    simp only [State.hand, frame.callers]
  have first : queue.firstException = some (state.queue.firstException.getD error) := by
    rw [← moved]
    cases state.queue.firstException <;> simp
  have moves : Simulates state
      { state with
        queue := queue
        filed := Function.update state.filed error (some (state.queue.firstException.getD error)) }
      (.worker throws) := by
    right
    cases held : state.queue.firstException with
    | none =>
        have empty : state.view.held .queue = none := held
        refine ⟨.issue .queue error, ?_, fun _ => trivial, fun _ _ => trivial⟩
        have ready : state.view.failed.getLast? = some error ∧ state.view.filed error = none ∧
            state.view.held .queue = none := ⟨newest, unfiled, empty⟩
        rw [held] at first hands
        simp only [Custody.step, if_pos ready, Option.some.injEq]
        refine (view_ext ?_ rfl rfl rfl).symm
        intro place
        simp only [Custody.issue]
        cases place with
        | queue => exact first
        | callback => rfl
        | hand thread => exact hands thread
    | some keeps =>
        have full : state.view.held .queue = some keeps := held
        refine ⟨.join .queue error, ?_, fun _ => trivial, fun _ _ => trivial⟩
        have ready : state.view.failed.getLast? = some error ∧ state.view.filed error = none :=
          ⟨newest, unfiled⟩
        rw [held] at first hands
        simp only [Custody.step, full, if_pos ready, Option.some.injEq]
        refine (view_ext ?_ rfl rfl rfl).symm
        intro place
        cases place with
        | queue => exact first.trans held.symm
        | callback => rfl
        | hand thread => exact hands thread
  refine ⟨moves, ?_⟩
  have worker : queue.worker = .retire next := by rw [← moved]
  have finished : queue.finished = state.queue.finished := by rw [← moved]
  exact
    { queue := kept
      sound := moves.sound inv.sound
      ended := by
        intro task member
        rw [worker, finished]
        have last := inv.ended task member
        rw [position] at last
        exact last
      carried := by simp [worker, CpuInfer.carried]
      complete := by
        intro task member
        left
        have before : task = error ∨ state.view.filed task ≠ none := by
          rcases inv.complete task member with filed | last
          · exact .inr filed
          · rw [position] at last
            exact .inl (Option.some.inj last).symm
        exact Custody.filed_update_ne_none before
      placed := inv.worker_placed rfl frame moves }

theorem Inv.workerStep {throws : Bool} (inv : Inv state) (moved : workerStep state throws = some after) :
    Simulates state after (.worker throws) ∧ Inv after := by
  unfold CpuInfer.workerStep at moved
  split at moved
  · rename_i curr next position
    obtain ⟨queue, stepped, rfl⟩ := Option.map_eq_some_iff.mp moved
    exact inv.runs position stepped
  · rename_i next error position
    obtain ⟨queue, stepped, rfl⟩ := Option.map_eq_some_iff.mp moved
    exact inv.captures position stepped
  · rename_i notRunning notCapturing
    obtain ⟨queue, stepped, rfl⟩ := Option.map_eq_some_iff.mp moved
    have quiet := workerStep_quiet stepped notRunning notCapturing
    have frame := workerStep_frame stepped
    have same : Simulates state { state with queue := queue } (.worker throws) := by
      refine .inl (view_ext ?_ rfl rfl rfl)
      intro place
      cases place with
      | queue => exact quiet.first
      | callback => rfl
      | hand thread =>
          change State.hand { state with queue := queue } thread = state.hand thread
          simp only [State.hand, frame.callers]
    refine ⟨same, ?_⟩
    exact
      { queue := inv.queue.workerStep stepped
        sound := same.sound inv.sound
        ended := fun task member => quiet.ended task (inv.ended task member)
        carried := by
          intro error found
          rcases quiet.finished with finished | none
          · rw [quiet.carried] at found
            obtain ⟨newest, unfiled, unfinished⟩ := inv.carried error found
            exact ⟨newest, unfiled, finished ▸ unfinished⟩
          · change CpuInfer.carried queue.worker = some error at found
            rw [none] at found
            contradiction
        complete := by
          intro task member
          change _ ∨ CpuInfer.carried queue.worker = some task
          rw [quiet.carried]
          exact inv.complete task member
        placed := inv.worker_placed rfl frame same }

/-! ## Every step -/

theorem enqueue_enters {queue after : TaskQueue.State ι Unit Nat}
    (idle : queue.callers thread = .idle)
    (began : TaskQueue.step queue (.enqueue thread task) = some after) :
    CallerFrame queue after thread ∧ Syncing (after.callers thread) = false ∧
      after.firstException = queue.firstException := by
  simp only [TaskQueue.step, idle, Option.some.injEq] at began
  subst began
  refine ⟨?_, ?_, rfl⟩
  · exact
      { worker := rfl
        finished := rfl
        returned := List.Subset.refl _
        others := fun other different => TaskQueue.moveCaller_other _ _ different }
  · rw [TaskQueue.moveCaller_self]
    rfl

theorem Inv.step (inv : Inv state) (moved : step state action = some after) :
    Simulates state after action ∧ Inv after := by
  unfold CpuInfer.step at moved
  cases action with
  | enqueue thread task =>
      simp only at moved
      split at moved
      · rename_i free
        obtain ⟨queue, began, rfl⟩ := Option.map_eq_some_iff.mp moved
        obtain ⟨frame, position, first⟩ := enqueue_enters free.2 began
        have stepped : ThreadStep state { state with queue := queue } thread (.enqueue thread task) := by
          refine
            { frame := .stay frame, simulates := ?_, placed := ?_, queue := inv.queue.step began
              filed := fun _ => Iff.rfl }
          · refine (ThreadFrame.stay frame).idle first rfl ?_ rfl rfl
            simp [State.hand, free.1, handOf]
          · simp only [free.1, Placed]
            exact position
        exact ⟨stepped.simulates, stepped.inv inv⟩
      · contradiction
  | sync thread allow =>
      simp only at moved
      split at moved
      · rename_i free
        obtain rfl := Option.some.inj moved
        have empty : state.hand thread = none := by simp only [State.hand, free.1, handOf]
        have stepped : ThreadStep state
            (state.moveCall thread (.checkFirst allow state.queue.returned)) thread
            (.sync thread allow) := inv.proceed free.2 empty _ rfl ⟨rfl, List.Subset.refl _⟩
        exact ⟨stepped.simulates, stepped.inv inv⟩
      · contradiction
  | rethrow thread =>
      simp only at moved
      split at moved
      · rename_i free
        obtain rfl := Option.some.inj moved
        have empty : state.hand thread = none := by simp only [State.hand, free.1, handOf]
        have stepped : ThreadStep state (state.moveCall thread .rethrow) thread (.rethrow thread) :=
          inv.proceed free.2 empty _ rfl rfl
        exact ⟨stepped.simulates, stepped.inv inv⟩
      · contradiction
  | syncCallback thread allow =>
      simp only at moved
      split at moved
      · rename_i free
        obtain ⟨queue, began, rfl⟩ := Option.map_eq_some_iff.mp moved
        obtain ⟨frame, position, first, kept⟩ := sync_enters inv.queue free.2 began
        have moves := ThreadFrame.inside frame (.callback allow)
        have stepped : ThreadStep state ({ state with queue := queue }.moveCall thread (.callback allow))
            thread (.syncCallback thread allow) := by
          refine { frame := moves, simulates := ?_, placed := ?_, queue := kept, filed := fun _ => Iff.rfl }
          · refine moves.idle first rfl ?_ rfl rfl
            have empty : state.hand thread = none := by simp only [State.hand, free.1, handOf]
            rw [empty]
            simp only [State.hand, moveCall_self]
            exact handOf_callback (.inl position)
          · rw [moveCall_self]
            exact syncing_of_waiting (.inl position)
        exact ⟨stepped.simulates, stepped.inv inv⟩
      · contradiction
  | thread thread =>
      have stepped := inv.threadStep moved
      exact ⟨stepped.simulates, stepped.inv inv⟩
  | worker throws => exact inv.workerStep moved

theorem start_inv : Inv (State.start : State ι) where
  queue := TaskQueue.start_inv
  sound := by
    have starts : (State.start : State ι).view = ⟨fun _ => none, [], fun _ => none, []⟩ := by
      refine view_ext ?_ rfl rfl rfl
      intro place
      cases place <;> rfl
    rw [starts]
    exact Custody.reachable_sound (.initial rfl)
  ended := nofun
  carried := nofun
  complete := nofun
  placed _ := rfl

theorem reachable_inv (reached : (machine (ι := ι)).Reachable state) : Inv state := by
  refine reached.invariant ?_ fun _ _ _ inv moved => (inv.step moved).2
  intro state starts
  rw [show state = State.start from starts]
  exact start_inv

/-- Every exception is in one place at a time, in every interleaving. -/
theorem reachableBy_ordered (reached : (machine (ι := ι)).ReachableBy Timely state) :
    state.view.Ordered := by
  induction reached with
  | initial starts =>
      rw [show _ = State.start from starts]
      nofun
  | step earlier timely moved ordered =>
      have inv := reachable_inv earlier.reachable
      rcases (inv.step moved).1 with same | ⟨move, stepped, kept, _⟩
      · rw [same]
        exact ordered
      · exact ordered.step inv.sound stepped (kept timely)

/-! ## What a `sync(0)` that returns knows -/

/-- No exception is thrown by two calls.  Where a callback never drops the
exception of an earlier task for that of a later one, a `sync(0)` returns
normally with every failure of an earlier enqueue reported exactly when no call
holds the exception one of them stands under. -/
theorem failures_are_reported_iff (reached : (machine (ι := ι)).ReachableBy Timely state) :
    state.reported.Nodup ∧
      ∀ thread before after, state.calls thread = .checkLast 0 before →
        step state (.thread thread) = some after → after.calls thread = .returned 0 before →
        (after.AllReported before ↔ ¬ state.InTransit before) := by
  have inv := reachable_inv reached.reachable
  have ordered := reachableBy_ordered reached
  refine ⟨inv.sound.once, ?_⟩
  intro thread before after call moved returned
  have placed := inv.placed thread
  simp only [call, Placed] at placed
  obtain ⟨finished, away⟩ := placed.2 trivial
  simp only [step, threadStep, call, Option.some.injEq] at moved
  rcases Option.eq_none_or_eq_some state.deviceCallbackError with slot | ⟨error, slot⟩
  · rw [takes_nothing slot] at moved
    have reports : after.AllReported before ↔ state.AllReported before := by
      rw [← moved]
      rfl
    rw [reports]
    refine (inv.sound.reported_iff away ordered).trans ?_
    constructor
    · intro nowhere transit
      obtain ⟨other, error, held, task, member, filed⟩ := transit
      exact nowhere (.hand other) nofun task member error filed held
    · intro quiet place notQueue task member error filed held
      cases place with
      | queue => exact notQueue rfl
      | callback =>
          change state.deviceCallbackError = some error at held
          rw [slot] at held
          contradiction
      | hand other => exact quiet ⟨other, error, held, task, member, filed⟩
  · rw [takes_error slot] at moved
    rw [← moved, moveCall_self] at returned
    contradiction

/-- One task throws, one `sync` throws its exception and the next returns. -/
def reportedSchedule : List (Action Bool) :=
  [.enqueue false (some ())] ++ List.replicate 6 (.thread false) ++
    List.replicate 11 (.worker true) ++ [.sync false 0] ++ List.replicate 6 (.thread false) ++
    [.sync false 0] ++ List.replicate 5 (.thread false)

theorem failures_are_reported_once :
    ∃ state after : State Bool, (machine (ι := Bool)).ReachableBy Timely state ∧
      step state (.thread false) = some after ∧ after.calls false = .returned 0 [1] ∧
      after.threw = [1] ∧ after.AllReported [1] := by
  obtain ⟨state, reached, shape⟩ := Machine.exists_reachable_of_run
    (machine.restrict Timely) State.start reportedSchedule rfl
    (fun state => decide (state.calls false = .checkLast 0 [1] ∧ state.calls true = .outside ∧
      state.threw = [1] ∧ state.deviceCallbackError = none)) (by decide)
  obtain ⟨call, other, threw, slot⟩ := of_decide_eq_true shape
  have reached := Machine.reachableBy_of_restrict reached
  have moved : step state (.thread false) = some (state.moveCall false (.returned 0 [1])) := by
    simp only [step, threadStep, call, takes_nothing slot]
  have still : ¬ state.InTransit [1] := by
    intro transit
    obtain ⟨thread, error, held, _⟩ := transit
    cases thread <;> simp [State.hand, call, other, handOf] at held
  refine ⟨state, state.moveCall false (.returned 0 [1]), reached, moved, moveCall_self .., threw, ?_⟩
  exact ((failures_are_reported_iff reached).2 false [1] _ call moved (moveCall_self ..)).mpr still

/-- A callback takes the exception before a `sync` of the host begins and records
it after that `sync` has returned. -/
def overtakenSchedule : List (Action Bool) :=
  [.enqueue false (some ())] ++ List.replicate 6 (.thread false) ++
    List.replicate 11 (.worker true) ++ [.syncCallback true 0] ++ List.replicate 4 (.thread true) ++
    [.sync false 0] ++ List.replicate 6 (.thread false)

theorem failure_lost_in_transit :
    ∃ state : State Bool, (machine (ι := Bool)).Reachable state ∧
      state.calls false = .returned 0 [1] ∧ state.threw = [1] ∧ state.reported = [] ∧
      ¬ state.AllReported [1] := by
  obtain ⟨state, reached, shape⟩ := Machine.exists_reachable_of_run
    machine State.start overtakenSchedule rfl
    (fun state => decide (state.calls false = .returned 0 [1] ∧ state.threw = [1] ∧
      state.reported = [])) (by decide)
  obtain ⟨returned, threw, reported⟩ := of_decide_eq_true shape
  refine ⟨state, reached, returned, threw, reported, ?_⟩
  intro all
  obtain ⟨error, member, _⟩ := all 1 (by decide) (by rw [threw]; decide)
  rw [reported] at member
  contradiction

end

end KtKernel.CpuInfer
