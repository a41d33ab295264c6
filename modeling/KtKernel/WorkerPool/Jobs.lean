import KtKernel.WorkerPool.Steps

namespace KtKernel.WorkerPool

open KtKernel.Data

/-! ## The calls one thread makes for one job -/

def State.calls (state : State) (func thread : Nat) : List Call :=
  (state.log.filter fun event => event.func = func ∧ event.thread = thread).map Event.call

def Job.opening (job : Job) : List Call :=
  if job.hasInit then [.init] else []

def Job.closing (job : Job) : List Call :=
  if job.hasFinalize then [.finalize] else []

/-- The job's `init` before the tasks and its `finalize` after them, or nothing
at all. -/
def Job.Ordered (job : Job) (calls : List Call) : Prop :=
  calls = [] ∨ ∃ taskIds : List Int, calls = job.opening ++ taskIds.map .compute ++ job.closing

/-- The calls a thread has made for the current job, from where it stands. -/
def Sequenced (job : Job) (status : Status) (calls : List Call) : Position → Prop
  | .outside => (status = .working → calls = []) ∧ job.Ordered calls
  | .init => calls = []
  | .inFinalize _ | .store =>
      ∃ taskIds : List Int, calls = job.opening ++ taskIds.map .compute ++ job.closing
  | _ => ∃ taskIds : List Int, calls = job.opening ++ taskIds.map .compute

/-- The history of a run without exceptions. -/
structure Shaped (total : Nat) (state : State) : Prop where
  tagged : ∀ event ∈ state.log, event.func = event.during ∧ event.func < state.jobs.length ∧
    event.thread < total
  unbegun : ∀ job stage, state.caller = .calling job stage → stage ≠ .process →
    (∀ index, stage ≠ .wait index) → state.calls state.current 0 = []
  unraised : ∀ job stage, state.caller = .calling job stage → ∀ thread, 0 < thread →
    stage.raised state.workerCount ≤ thread → state.calls state.current thread = []
  placed : state.written = 6 → ∀ job, state.jobs.getLast? = some job → ∀ thread < total,
    Sequenced job (state.status thread) (state.calls state.current thread) (state.threads thread)
  returned : ∀ number ∈ state.returned, ∀ job, state.jobs[number]? = some job →
    ∀ thread < total, job.Ordered (state.calls number thread)
  complete : ∀ number < state.jobs.length, number ∈ state.returned ∨
    number = state.current ∧ state.caller ≠ .idle

theorem Rested.not_of_within (within : state.threads thread ≠ .outside) :
    ¬ Rested true state thread := by
  rintro (⟨outside, _⟩ | ⟨lenient, _⟩)
  · exact within outside
  · contradiction

/-- The history after one thread moved, with at most one call of the current
job's functions. -/
theorem Shaped.advance {before after : State} (shaped : Shaped total before)
    (inv : Inv true total before) (inside : thread < total)
    (within : before.threads thread ≠ .outside)
    (threads : after.threads = Function.update before.threads thread next)
    (caller : after.caller = before.caller) (jobs : after.jobs = before.jobs)
    (workerCount : after.workerCount = before.workerCount)
    (returned : after.returned = before.returned)
    (status : ∀ other, other ≠ thread → after.status other = before.status other)
    (log : after.log = before.log ++ events)
    (own : ∀ event ∈ events, event.func = before.current ∧ event.during = before.current ∧
      event.thread = thread)
    (placed : ∀ job, before.jobs.getLast? = some job → before.written = 6 →
      Sequenced job (before.status thread) (before.calls before.current thread)
        (before.threads thread) →
      Sequenced job (after.status thread)
        (before.calls before.current thread ++ events.map Event.call) next) :
    Shaped total after := by
  have active := Rested.not_of_within within
  obtain ⟨full, unreturned, job, last⟩ := inv.of_active inside within active
  have current : after.current = before.current := by rw [State.current, State.current, jobs]
  have length : before.current < before.jobs.length := by
    have nonempty : before.jobs ≠ [] := fun empty => by simp [empty] at last
    have positive := List.length_pos_of_ne_nil nonempty
    simp only [State.current]
    omega
  have elsewhere : ∀ func thread', (func ≠ before.current ∨ thread' ≠ thread) →
      after.calls func thread' = before.calls func thread' := by
    intro func thread' apart
    have nothing : events.filter (fun event => event.func = func ∧ event.thread = thread') = [] := by
      apply List.filter_eq_nil_iff.mpr
      intro event member same
      simp only [decide_eq_true_eq] at same
      obtain ⟨func', _, thread''⟩ := own event member
      rcases apart with different | different
      · exact different (same.1.symm.trans func')
      · exact different (same.2.symm.trans thread'')
    rw [State.calls, log, List.filter_append, nothing, List.append_nil]
    rfl
  have here : after.calls before.current thread =
      before.calls before.current thread ++ events.map Event.call := by
    have all : events.filter (fun event => event.func = before.current ∧ event.thread = thread) =
        events := by
      apply List.filter_eq_self.mpr
      intro event member
      obtain ⟨func, _, thread'⟩ := own event member
      simp only [func, thread', and_self, decide_true]
    rw [State.calls, log, List.filter_append, all, List.map_append]
    rfl
  refine
    { tagged := ?_
      unbegun := ?_
      unraised := ?_
      placed := ?_
      returned := ?_
      complete := ?_ }
  · intro event member
    rw [log] at member
    rw [jobs]
    rcases List.mem_append.mp member with old | new
    · exact shaped.tagged event old
    · obtain ⟨func, during, thread'⟩ := own event new
      exact ⟨func.trans during.symm, func ▸ length, thread' ▸ inside⟩
  · intro job' stage calling unprocessed unwaited
    rw [caller] at calling
    have different : (0 : Nat) ≠ thread := by
      rintro rfl
      exact within (inv.outside_of_not_process calling unprocessed)
    rw [current, elsewhere _ _ (.inr different)]
    exact shaped.unbegun job' stage calling unprocessed unwaited
  · intro job' stage calling thread' positive raised
    rw [caller] at calling
    rw [workerCount] at raised
    have different : thread' ≠ thread := by
      rintro rfl
      exact active (inv.quiet job' stage calling thread' positive inside raised)
    rw [current, elsewhere _ _ (.inr different)]
    exact shaped.unraised job' stage calling thread' positive raised
  · intro _ job' last' thread' below
    rw [jobs] at last'
    have old := shaped.placed full job' last' thread' below
    by_cases same : thread' = thread
    · subst same
      rw [threads, current, here, Function.update_self]
      exact placed job' last' full old
    · rw [threads, current, elsewhere _ _ (.inr same), status thread' same,
        Function.update_of_ne same]
      exact old
  · intro number member job' stored thread' below
    rw [returned] at member
    rw [jobs] at stored
    have different : number ≠ before.current := by
      rintro rfl
      exact unreturned member
    rw [elsewhere _ _ (.inl different)]
    exact shaped.returned number member job' stored thread' below
  · rw [jobs, returned, current, caller]
    exact shaped.complete

theorem Shaped.processTasks (shaped : Shaped total state) (inv : Inv true total state)
    (inside : thread < total) (moved : processTasks state thread = some after) :
    Shaped total after := by
  have within : state.threads thread ≠ .outside := by
    intro outside
    simp only [WorkerPool.processTasks, outside, reduceCtorEq] at moved
  obtain ⟨full, -, job, last⟩ := inv.of_active inside within (Rested.not_of_within within)
  have written := inv.written job last
  have initFunc := written.initFunc (by omega)
  have computeFunc := written.computeFunc (by omega)
  have finalizeFunc := written.finalizeFunc (by omega)
  -- the calls do not change, nor what the new position asks of them
  have silent : ∀ next, (Sequenced job (state.status thread)
        (state.calls state.current thread) (state.threads thread) →
        Sequenced job (state.status thread) (state.calls state.current thread) next) →
      Shaped total (state.move thread next) := by
    intro next keeps
    refine shaped.advance inv inside within rfl rfl rfl rfl rfl (fun _ _ => rfl)
      (List.append_nil _).symm (by nofun) ?_
    intro job' last' _ old
    obtain rfl : job' = job := Option.some.inj (last'.symm.trans last)
    rw [List.map_nil, List.append_nil]
    exact keeps old
  have calls : ∀ next call, (Sequenced job (state.status thread)
        (state.calls state.current thread) (state.threads thread) →
        Sequenced job (state.status thread) (state.calls state.current thread ++ [call]) next) →
      Shaped total ((state.record thread call state.current).move thread next) := by
    intro next call keeps
    refine shaped.advance inv inside within rfl rfl rfl rfl rfl (fun _ _ => rfl) rfl ?_ ?_
    · intro event member
      rw [List.mem_singleton.mp member]
      exact ⟨rfl, rfl, rfl⟩
    · intro job' last' _ old
      obtain rfl : job' = job := Option.some.inj (last'.symm.trans last)
      exact keeps old
  unfold WorkerPool.processTasks at moved
  cases position : state.threads thread <;> rw [position] at silent calls <;>
    simp only [position] at moved
  case outside | crashed => contradiction
  case claim =>
    obtain rfl := Option.some.inj moved
    refine shaped.advance inv inside within rfl rfl rfl rfl rfl (fun _ _ => rfl)
      (List.append_nil _).symm (by nofun) ?_
    intro job _ _ old
    rw [position] at old
    rw [List.map_nil, List.append_nil]
    exact old
  case store =>
    obtain rfl := Option.some.inj moved
    refine shaped.advance inv inside within rfl rfl rfl rfl rfl
      (fun other different => Function.update_of_ne different _ _) (List.append_nil _).symm
      (by nofun) ?_
    intro job _ _ old
    rw [position] at old
    rw [List.map_nil, List.append_nil]
    refine ⟨?_, .inr old⟩
    intro working
    simp [State.move] at working
  case init =>
    rw [initFunc] at moved
    cases begins : job.hasInit <;> simp only [begins, Bool.false_eq_true, if_true, if_false] at moved
    · obtain rfl := Option.some.inj moved
      apply silent
      intro old
      exact ⟨[], by rw [old]; simp [Job.opening, begins]⟩
    · obtain rfl := Option.some.inj moved
      apply calls
      intro old
      exact ⟨[], by rw [old]; simp [Job.opening, begins]⟩
  case compute held =>
    rw [computeFunc] at moved
    obtain rfl := Option.some.inj moved
    apply calls
    rintro ⟨taskIds, old⟩
    exact ⟨taskIds ++ [held], by rw [old, List.map_append, List.append_assoc]; rfl⟩
  case finalize =>
    rw [finalizeFunc] at moved
    cases ends : job.hasFinalize <;> simp only [ends, Bool.false_eq_true, if_true, if_false] at moved
    · obtain rfl := Option.some.inj moved
      apply silent
      rintro ⟨taskIds, old⟩
      exact ⟨taskIds, by rw [old]; simp [Job.closing, ends]⟩
    · obtain rfl := Option.some.inj moved
      apply calls
      rintro ⟨taskIds, old⟩
      exact ⟨taskIds, by rw [old]; simp [Job.closing, ends]⟩
  case compare | divide | check | recheck =>
    split at moved
    all_goals
      obtain rfl := Option.some.inj moved
      exact silent _ id
  all_goals
    obtain rfl := Option.some.inj moved
    exact silent _ id

theorem Shaped.enter (shaped : Shaped total state) (outside : state.threads thread = .outside)
    (working : state.status thread = .working) : Shaped total (state.move thread .init) := by
  refine { shaped with placed := ?_ }
  intro full job last thread' below
  have old := shaped.placed full job last thread' below
  simp only [State.move]
  by_cases same : thread' = thread
  · subst same
    rw [outside] at old
    rw [Function.update_self]
    exact old.1 working
  · rw [Function.update_of_ne same]
    exact old

theorem Shaped.restage {before after : State} (shaped : Shaped total before)
    (inv : Inv true total before) (calling : before.caller = .calling job stage)
    (caller : after.caller = .calling job stage') (jobs : after.jobs = before.jobs)
    (returned : after.returned = before.returned) (log : after.log = before.log)
    (unbegun : stage' ≠ .process → (∀ index, stage' ≠ .wait index) →
      before.calls before.current 0 = [])
    (unraised : ∀ thread, 0 < thread → stage'.raised after.workerCount ≤ thread →
      before.calls before.current thread = [])
    (placed : stage'.written = 6 → ∀ thread < total, Sequenced job (after.status thread)
      (before.calls before.current thread) (after.threads thread)) : Shaped total after := by
  have current : after.current = before.current := by rw [State.current, State.current, jobs]
  have calls : ∀ func thread, after.calls func thread = before.calls func thread := by
    intro func thread
    rw [State.calls, State.calls, log]
  refine
    { tagged := ?_
      unbegun := ?_
      unraised := ?_
      placed := ?_
      returned := ?_
      complete := ?_ }
  · rw [log, jobs]
    exact shaped.tagged
  · intro job' stage'' same unprocessed unwaited
    rw [caller] at same
    cases same
    rw [current, calls]
    exact unbegun unprocessed unwaited
  · intro job' stage'' same thread positive raised
    rw [caller] at same
    cases same
    rw [current, calls]
    exact unraised thread positive raised
  · intro full job' last thread below
    rw [jobs] at last
    obtain rfl : job' = job := Option.some.inj (last.symm.trans (inv.last job stage calling))
    rw [current, calls]
    apply placed _ thread below
    simpa only [State.written, caller] using full
  · intro number member job' stored thread below
    rw [calls]
    exact shaped.returned number (returned ▸ member) job' (jobs ▸ stored) thread below
  · intro number below
    rw [jobs] at below
    rw [returned, current, caller]
    exact (shaped.complete number below).imp id fun last => ⟨last.1, by intro idle; cases idle⟩

/-- Between two jobs every thread of a run without exceptions is outside. -/
theorem outside_of_rested {state : State} (zero : state.threads 0 = .outside)
    (rested : ∀ thread, 0 < thread → thread < total → Rested true state thread) :
    ∀ thread < total, state.threads thread = .outside := by
  intro thread below
  rcases Nat.eq_zero_or_pos thread with rfl | positive
  · exact zero
  · rcases rested thread positive below with ⟨outside, _⟩ | ⟨lenient, _⟩
    · exact outside
    · contradiction

theorem Shaped.finish (shaped : Shaped total state) (inv : Inv true total state)
    (calling : state.caller = .calling job (.wait index)) (beyond : state.workerCount ≤ index) :
    Shaped total { state with caller := .idle, returned := state.returned ++ [state.current] } := by
  have full : state.written = 6 := State.written_calling calling
  have last := inv.last job _ calling
  have outside := outside_of_rested (inv.outside_of_not_process calling (by nofun))
    (inv.rested_of_waited calling beyond)
  refine
    { tagged := shaped.tagged
      unbegun := by nofun
      unraised := by nofun
      placed := fun _ => shaped.placed full
      returned := ?_
      complete := ?_ }
  · intro number member job' stored thread below
    rcases List.mem_append.mp member with old | new
    · exact shaped.returned number old job' stored thread below
    · rw [List.mem_singleton.mp new] at stored ⊢
      have sequenced := shaped.placed full job last thread below
      rw [outside thread below] at sequenced
      rw [List.getLast?_eq_getElem?] at last
      obtain rfl : job' = job := Option.some.inj (stored.symm.trans last)
      exact sequenced.2
  · intro number below
    left
    rw [List.mem_append]
    rcases shaped.complete number below with old | ⟨last, _⟩
    · exact .inl old
    · exact .inr (List.mem_singleton.mpr last)

theorem Shaped.call (shaped : Shaped total state) (inv : Inv true total state)
    (idle : state.caller = .idle) :
    Shaped total { state with jobs := state.jobs ++ [job], caller := .calling job .initFunc } := by
  have unused : ∀ thread, state.calls state.jobs.length thread = [] := by
    intro thread
    rw [State.calls, List.map_eq_nil_iff, List.filter_eq_nil_iff]
    intro event member same
    simp only [decide_eq_true_eq] at same
    have below := (shaped.tagged event member).2.1
    omega
  have current : { state with
      jobs := state.jobs ++ [job]
      caller := .calling job .initFunc }.current = state.jobs.length := by
    simp [State.current]
  refine
    { tagged := ?_
      unbegun := ?_
      unraised := ?_
      placed := fun full => absurd full (show ¬ Stage.written .initFunc = 6 by decide)
      returned := ?_
      complete := ?_ }
  · intro event member
    obtain ⟨own, below, thread⟩ := shaped.tagged event member
    refine ⟨own, ?_, thread⟩
    rw [List.length_append]
    omega
  · intro _ _ _ _ _
    rw [current]
    exact unused 0
  · intro _ _ _ thread _ _
    rw [current]
    exact unused thread
  · intro number member job' stored thread below
    obtain ⟨_, older, _⟩ := inv.returned number member
    rw [List.getElem?_append_left (List.getElem?_eq_some_iff.mp older).1] at stored
    exact shaped.returned number member job' stored thread below
  · intro number below
    rw [List.length_append, List.length_singleton] at below
    by_cases old : number < state.jobs.length
    · rcases shaped.complete number old with done | ⟨_, busy⟩
      · exact .inl done
      · exact absurd idle busy
    · refine .inr ⟨?_, by intro idle; cases idle⟩
      rw [current]
      omega

theorem Shaped.callerStep (shaped : Shaped total state) (inv : Inv true total state)
    (positive : 0 < total) (moved : callerStep total state = some after) : Shaped total after := by
  unfold WorkerPool.callerStep at moved
  cases calling : state.caller with
  | idle => simp only [calling, reduceCtorEq] at moved
  | calling job stage =>
      have unraised := shaped.unraised job stage calling
      have unbegun := shaped.unbegun job stage calling
      have last := inv.last job stage calling
      cases stage <;> simp only [calling] at moved
      case initFunc | computeFunc | finalizeFunc | workerCount | curr =>
        obtain rfl := Option.some.inj moved
        refine shaped.restage inv calling rfl rfl rfl rfl ?_ ?_ (by nofun)
        · intro _ _
          exact unbegun (by nofun) (by nofun)
        · intro thread positive _
          exact unraised thread positive (Nat.zero_le _)
      case end_ =>
        obtain rfl := Option.some.inj moved
        refine shaped.restage inv calling rfl rfl rfl rfl ?_ ?_ ?_
        · intro _ _
          exact unbegun (by nofun) (by nofun)
        · intro thread positive _
          exact unraised thread positive (Nat.zero_le _)
        · intro _ thread below
          have outside := outside_of_rested (inv.outside_of_not_process calling (by nofun))
            (fun thread positive below =>
              inv.quiet job _ calling thread positive below (Nat.zero_le _)) thread below
          have empty : state.calls state.current thread = [] := by
            rcases Nat.eq_zero_or_pos thread with rfl | positive
            · exact unbegun (by nofun) (by nofun)
            · exact unraised thread positive (Nat.zero_le _)
          rw [outside, empty]
          exact ⟨fun _ => rfl, .inl rfl⟩
      case raise index =>
        have placed := shaped.placed (State.written_calling calling) job last
        have unprocessed : Stage.raise index ≠ .process := by intro clash; cases clash
        have begun := unbegun unprocessed (by intro _ clash; cases clash)
        split at moved
        · rename_i more
          obtain rfl := Option.some.inj moved
          refine shaped.restage inv calling rfl rfl rfl rfl ?_ ?_ ?_
          · intro _ _
            exact begun
          · intro thread positive raised
            apply unraised thread positive
            simp only [Stage.raised] at raised ⊢
            omega
          · intro _ thread below
            have old := placed thread below
            by_cases same : thread = index
            · subst same
              have empty : state.calls state.current thread = [] := by
                rcases Nat.eq_zero_or_pos thread with rfl | positive
                · exact begun
                · exact unraised thread positive (Nat.min_le_left _ _)
              have outside : state.threads thread = .outside := by
                rcases Nat.eq_zero_or_pos thread with rfl | positive
                · exact inv.outside_of_not_process calling unprocessed
                · rcases inv.quiet job _ calling thread positive below (Nat.min_le_left _ _) with
                    ⟨outside, _⟩ | ⟨lenient, _⟩
                  · exact outside
                  · contradiction
              rw [outside, empty]
              exact ⟨fun _ => rfl, .inl rfl⟩
            · simp only [Function.update_of_ne same]
              exact old
        · rename_i beyond
          obtain rfl := Option.some.inj moved
          refine shaped.restage inv calling rfl rfl rfl rfl (by simp) ?_ ?_
          · intro thread positive raised
            apply unraised thread positive
            simp only [Stage.raised, State.move] at raised ⊢
            omega
          · intro _ thread below
            have old := placed thread below
            simp only [State.move]
            by_cases same : thread = 0
            · subst same
              rw [Function.update_self]
              exact begun
            · rw [Function.update_of_ne same]
              exact old
      case process =>
        have placed := shaped.placed (State.written_calling calling) job last
        split at moved
        · obtain rfl := Option.some.inj moved
          exact shaped.restage inv calling rfl rfl rfl rfl (by simp) unraised (fun _ => placed)
        · exact shaped.processTasks inv positive moved
      case wait index =>
        have placed := shaped.placed (State.written_calling calling) job last
        split at moved
        · split at moved
          · contradiction
          · obtain rfl := Option.some.inj moved
            exact shaped.restage inv calling rfl rfl rfl rfl (by simp) unraised (fun _ => placed)
        · rename_i beyond
          obtain rfl := Option.some.inj moved
          exact shaped.finish inv calling (Nat.le_of_not_lt beyond)

theorem Shaped.step (shaped : Shaped total state) (inv : Inv true total state)
    (positive : 0 < total) (calm : action ≠ .throw)
    (moved : step total state action = some after) : Shaped total after := by
  cases action with
  | call job =>
      cases calling : state.caller <;> simp only [WorkerPool.step, calling] at moved
      · obtain rfl := Option.some.inj moved
        exact shaped.call inv calling
      · contradiction
  | caller => exact shaped.callerStep inv positive moved
  | thread index =>
      simp only [WorkerPool.step] at moved
      split at moved
      · rename_i bounds
        unfold WorkerPool.workerThread at moved
        split at moved
        · rename_i outside
          cases status : state.status index <;> simp only [status] at moved
          · obtain rfl := Option.some.inj moved
            exact shaped.enter outside status
          · contradiction
        · exact shaped.processTasks inv bounds.2 moved
      · contradiction
  | throw => exact absurd rfl calm

theorem start_shaped (total : Nat) : Shaped total {} where
  tagged := by simp
  unbegun := by nofun
  unraised := by nofun
  placed := by simp
  returned := by simp
  complete := by simp

/-! ## Runs without exceptions -/

def Calm (_ : State) (action : Action) : Prop :=
  action ≠ .throw

instance (state : State) (action : Action) : Decidable (Calm state action) :=
  inferInstanceAs (Decidable (¬ _))

theorem calm_inv (positive : 0 < total) (small : total < 2 ^ 31)
    (reached : ((machine total).restrict Calm).Reachable state) :
    Inv true total state ∧ Shaped total state := by
  induction reached with
  | initial starts =>
      cases starts
      exact ⟨start_inv true total, start_shaped total⟩
  | step _ moved induction =>
      obtain ⟨inv, shaped⟩ := induction
      obtain ⟨calm, moved⟩ := Machine.restrict_step moved
      refine ⟨inv.step positive small ?_ (fun _ => calm) moved,
        shaped.step inv positive calm moved⟩
      intro job begins
      subst begins
      apply inv.settled rfl
      simp only [machine, step] at moved
      split at moved
      · assumption
      · contradiction

/-- Every job that has returned ran each of its tasks once, with its own
functions and in their order, and nothing of it is left running; a job in
progress has not run any of its tasks twice. -/
theorem work_stealing_exactly_once (positive : 0 < total) (small : total < 2 ^ 31)
    (reached : ((machine total).restrict Calm).Reachable state) :
    (∀ number job, state.jobs[number]? = some job → ∀ taskId < job.taskNum,
      state.computed number taskId ≤ 1) ∧
    (∀ number ∈ state.returned, ∃ job, state.jobs[number]? = some job ∧
      (∀ taskId < job.taskNum, state.computed number taskId = 1) ∧
      ∀ thread < total, job.Ordered (state.calls number thread)) ∧
    (∀ event ∈ state.log, event.func = event.during ∧ event.thread < total) ∧
    (state.caller = .idle → (∀ number < state.jobs.length, number ∈ state.returned) ∧
      ∀ thread < total, state.threads thread = .outside) := by
  obtain ⟨inv, shaped⟩ := calm_inv positive small reached
  refine ⟨?_, ?_, ?_, ?_⟩
  · intro number job stored taskId below
    have known := (List.getElem?_eq_some_iff.mp stored).1
    rcases shaped.complete number known with done | ⟨rfl, _⟩
    · obtain ⟨job', stored', once⟩ := inv.returned number done
      obtain rfl : job' = job := Option.some.inj (stored'.symm.trans stored)
      exact (once taskId below).le
    · have last : state.jobs.getLast? = some job := by
        rw [List.getLast?_eq_getElem?]
        exact stored
      by_cases full : state.written = 6
      · have once := (inv.accounted full job last).once taskId below
        split at once <;> omega
      · have limit := state.written_le
        rw [inv.unused (by omega)]
        exact Nat.zero_le _
  · intro number member
    obtain ⟨job, stored, once⟩ := inv.returned number member
    exact ⟨job, stored, once, shaped.returned number member job stored⟩
  · intro event member
    obtain ⟨own, _, thread⟩ := shaped.tagged event member
    exact ⟨own, thread⟩
  · intro idle
    constructor
    · intro number below
      rcases shaped.complete number below with done | ⟨_, busy⟩
      · exact done
      · exact absurd idle busy
    · apply outside_of_rested _ (inv.settled rfl idle)
      by_contra inner
      obtain ⟨_, processing⟩ := inv.zero inner
      rw [idle] at processing
      contradiction

/-- Two tasks shared by the calling thread and one worker: the worker takes the
second one. -/
def sharedSchedule : List Action :=
  [.call { taskNum := 2, hasInit := true, fits := by decide }] ++ List.replicate 18 .caller ++
    List.replicate 10 (.thread 1) ++ List.replicate 6 .caller ++
    List.replicate 5 (.thread 1) ++ List.replicate 3 .caller

theorem work_stealing_exactly_once_shared :
    ∃ state, ((machine 2).restrict Calm).Reachable state ∧ state.returned = [0] ∧
      ∃ job, state.jobs[0]? = some job ∧ job.taskNum = 2 ∧ state.computed 0 1 = 1 ∧
        job.Ordered (state.calls 0 1) ∧ state.threads 1 = .outside := by
  obtain ⟨state, reached, shape⟩ := Machine.exists_reachable_of_run
    ((machine 2).restrict Calm) {} sharedSchedule rfl
    (fun state => decide (state.returned = [0] ∧ state.caller = .idle ∧
      state.jobs.map Job.taskNum = [2])) (by decide)
  obtain ⟨returned, idle, tasks⟩ := of_decide_eq_true shape
  obtain ⟨_, done, _, rest⟩ := work_stealing_exactly_once (by decide) (by decide) reached
  obtain ⟨job, stored, once, ordered⟩ := done 0 (by rw [returned]; exact List.mem_singleton.mpr rfl)
  have size : job.taskNum = 2 := by
    have mapped := congrArg (·[0]?) tasks
    simpa [stored] using mapped
  exact ⟨state, reached, returned, job, stored, size, once 1 (by omega), ordered 1 (by decide),
    (rest idle).2 1 (by decide)⟩

/-! ## Runs with exceptions -/

/-- A job begins only when every thread of the pool is waiting or past its task
loop.  Nothing in the code makes a caller wait for this after an exception. -/
def Settled (total : Nat) (state : State) : Action → Prop
  | .call _ => ∀ thread < total, 0 < thread → Rested false state thread
  | _ => True

instance (total : Nat) (state : State) (action : Action) : Decidable (Settled total state action) := by
  cases action <;> unfold Settled <;> infer_instance

theorem settled_inv (positive : 0 < total) (small : total < 2 ^ 31)
    (reached : ((machine total).restrict (Settled total)).Reachable state) :
    Inv false total state := by
  induction reached with
  | initial starts =>
      cases starts
      exact start_inv false total
  | step _ moved inv =>
      obtain ⟨settled, moved⟩ := Machine.restrict_step moved
      refine inv.step positive small ?_ (by nofun) moved
      intro job begins thread positive below
      subst begins
      exact settled thread below positive

/-- After any number of exceptions, a job that begins on a settled pool and
returns has run each of its tasks once and none of them is still running. -/
theorem settled_job_exactly_once (positive : 0 < total) (small : total < 2 ^ 31)
    (reached : ((machine total).restrict (Settled total)).Reachable state) :
    (∀ number ∈ state.returned, ∃ job, state.jobs[number]? = some job ∧
      (∀ taskId < job.taskNum, state.computed number taskId = 1) ∧
      ∀ thread < total, ∀ taskId, state.threads thread ≠ .inCompute number taskId) ∧
    ∀ event ∈ state.log, ∀ taskId, event.call = .compute taskId → event.func = event.during := by
  have inv := settled_inv positive small reached
  constructor
  · intro number member
    obtain ⟨job, stored, once⟩ := inv.returned number member
    refine ⟨job, stored, once, ?_⟩
    intro thread below taskId running
    obtain ⟨full, unreturned, job', last⟩ := inv.of_looping below (by rw [running]; rfl)
    have placed := (inv.accounted full job' last).placed thread below
    rw [running] at placed
    simp only [Position.Placed] at placed
    exact unreturned (placed ▸ member)
  · intro event member taskId called
    exact (inv.known event member taskId called).2

/-- The first job throws on the calling thread, its worker goes on to the end of
its loop, and only then the second job begins. -/
def settledSchedule : List Action :=
  [.call { taskNum := 2, fits := by decide }] ++ List.replicate 17 .caller ++
    List.replicate 12 (.thread 1) ++ [.throw, .call { taskNum := 2, fits := by decide }] ++
    List.replicate 9 .caller ++ List.replicate 2 (.thread 1) ++ List.replicate 25 .caller

theorem settled_job_exactly_once_after_throw :
    ∃ state, ((machine 2).restrict (Settled 2)).Reachable state ∧ state.returned = [1] ∧
      ∃ job, state.jobs[1]? = some job ∧ ∀ taskId < job.taskNum, state.computed 1 taskId = 1 := by
  obtain ⟨state, reached, shape⟩ := Machine.exists_reachable_of_run
    ((machine 2).restrict (Settled 2)) {} settledSchedule rfl
    (fun state => decide (state.returned = [1])) (by decide)
  have returned := of_decide_eq_true shape
  obtain ⟨done, _⟩ := settled_job_exactly_once (by decide) (by decide) reached
  obtain ⟨job, stored, once, _⟩ := done 1 (by rw [returned]; exact List.mem_singleton.mpr rfl)
  exact ⟨state, reached, returned, job, stored, once⟩

/-- The first job throws while its worker is in the task loop; the worker takes
the only task of the second job, which does not wait for it. -/
def strayedSchedule : List Action :=
  [.call { taskNum := 2, fits := by decide }] ++ List.replicate 17 .caller ++
    List.replicate 2 (.thread 1) ++ [.throw, .call { taskNum := 1, fits := by decide }] ++
    List.replicate 8 .caller ++ List.replicate 7 (.thread 1) ++ List.replicate 8 .caller

theorem job_after_throw_returns_early :
    ∃ state, (machine 2).Reachable state ∧ state.jobs.length = 2 ∧ state.returned = [1] ∧
      state.threads 1 = .inCompute 1 0 := by
  obtain ⟨state, reached, shape⟩ := Machine.exists_reachable_of_run (machine 2) {} strayedSchedule rfl
    (fun state => decide (state.jobs.length = 2 ∧ state.returned = [1] ∧
      state.threads 1 = .inCompute 1 0)) (by decide)
  exact ⟨state, reached, of_decide_eq_true shape⟩

end KtKernel.WorkerPool
