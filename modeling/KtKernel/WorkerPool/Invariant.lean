import KtKernel.Data.Counting
import KtKernel.WorkerPool.Basic

namespace KtKernel.WorkerPool

open KtKernel.Data

/-! ## Wrapping -/

theorem wrap_eq {value : Int} (low : -2 ^ 31 ≤ value) (high : value < 2 ^ 31) :
    wrap value = value := by
  unfold wrap
  exact Int.bmod_eq_of_le (by omega) (by omega)

theorem wrap_zero : wrap (0 : Nat) = 0 :=
  wrap_eq (by decide) (by decide)

theorem wrap_add_wrap (value other : Int) : wrap (wrap value + other) = wrap (value + other) := by
  unfold wrap
  simp

theorem wrap_sub_wrap (value other : Int) : wrap (value - wrap other) = wrap (value - other) := by
  unfold wrap
  simp

/-- Within one turn of the counter, the wrapped count is a small index only
when the count is. -/
theorem wrap_eq_iff {count index : Nat} (turn : count < 2 ^ 32) (small : index < 2 ^ 31) :
    wrap count = index ↔ count = index := by
  constructor
  · intro same
    unfold wrap at same
    rw [Int.bmod_def] at same
    split at same <;> omega
  · rintro rfl
    exact wrap_eq (by omega) (by omega)

/-! ## The phases of a thread -/

/-- Inside `process_tasks` and not yet past its task loop. -/
def Position.looping : Position → Bool
  | .init | .inInit _ | .load | .compare _ | .divide | .claim | .check _ | .recheck _
  | .compute _ | .inCompute _ _ => true
  | _ => false

/-- Past the task loop and still inside `process_tasks`. -/
def Position.leaving : Position → Bool
  | .finalize | .inFinalize _ | .store => true
  | _ => false

/-- Holding a task number that has not been passed to `compute_func_`. -/
def Position.pending (taskId : Nat) : Position → Bool
  | .check held | .recheck held | .compute held => decide (held = taskId)
  | _ => false

/-- Bound to take one more number from the counter. -/
def Position.eager (taskNum : Nat) : Position → Bool
  | .compare old => decide (0 < wrap (taskNum - old))
  | .divide | .claim => true
  | _ => false

/-- What a thread holds was read from the counter of this job. -/
def Position.Placed (taskNum current claims : Nat) : Position → Prop
  | .compare old => ∃ count : Nat, count ≤ claims ∧ old = wrap count
  | .divide => 0 < taskNum
  | .check held | .recheck held | .compute held => ∃ count : Nat, count < claims ∧ held = wrap count
  | .inCompute func _ => func = current
  | .crashed => False
  | _ => True

/-- A thread of the pool that will not touch the tasks of the next job unless
it is raised again.  The strict form also keeps out a thread that is past its
task loop but has not yet stored its status. -/
def Rested (strict : Bool) (state : State) (thread : Nat) : Prop :=
  (state.threads thread = .outside ∧ state.status thread = .waiting) ∨
    (strict = false ∧ (state.threads thread).leaving = true)

instance (strict : Bool) (state : State) (thread : Nat) : Decidable (Rested strict state thread) :=
  inferInstanceAs (Decidable (_ ∨ _))

theorem Rested.not_looping (rested : Rested strict state thread) :
    (state.threads thread).looping = false := by
  rcases rested with ⟨outside, _⟩ | ⟨_, leaving⟩
  · rw [outside]
    rfl
  · cases position : state.threads thread <;> simp_all [Position.looping, Position.leaving]

/-! ## The phases of the caller -/

/-- How many of the six fields hold the current job. -/
def Stage.written : Stage → Nat
  | .initFunc => 0
  | .computeFunc => 1
  | .finalizeFunc => 2
  | .workerCount => 3
  | .curr => 4
  | .end_ => 5
  | _ => 6

def State.written (state : State) : Nat :=
  match state.caller with
  | .idle => 6
  | .calling _ stage => stage.written

theorem State.written_calling {state : State} (calling : state.caller = .calling job stage) :
    state.written = stage.written := by
  unfold State.written
  rw [calling]

theorem State.written_le (state : State) : state.written ≤ 6 := by
  unfold State.written
  cases state.caller with
  | idle => exact Nat.le_refl _
  | calling job stage => cases stage <;> simp [Stage.written]

/-- The first thread the current job has not raised. -/
def Stage.raised (workerCount : Nat) : Stage → Nat
  | .raise index => min index workerCount
  | .process | .wait _ => workerCount
  | _ => 0

def State.Passed (state : State) : Prop :=
  match state.caller with
  | .calling _ .process => (state.threads 0).looping = false
  | .calling _ (.wait _) => True
  | _ => False

/-- How often the function of a job was called on a task. -/
def State.computed (state : State) (func taskId : Nat) : Nat :=
  state.log.countP fun event => event.call = .compute taskId ∧ event.func = func

/-- The fields written so far hold the current job. -/
structure Written (total : Nat) (state : State) (job : Job) : Prop where
  initFunc : 1 ≤ state.written → state.initFunc = if job.hasInit then some state.current else none
  computeFunc : 2 ≤ state.written → state.computeFunc = some state.current
  finalizeFunc : 3 ≤ state.written →
    state.finalizeFunc = if job.hasFinalize then some state.current else none
  workerCount : 4 ≤ state.written → state.workerCount = min total job.taskNum
  curr : 5 ≤ state.written → state.curr = wrap state.claims
  end_ : 6 ≤ state.written → state.end_ = job.taskNum

/-- Each task number below the counter is with exactly one thread or has been
passed to the function of the current job exactly once. -/
structure Accounted (total : Nat) (state : State) (job : Job) : Prop where
  bounded : state.claims + tally total (Position.eager job.taskNum) state.threads ≤ job.taskNum + total
  once : ∀ taskId < job.taskNum,
    tally total (Position.pending taskId) state.threads + state.computed state.current taskId =
      if taskId < state.claims then 1 else 0
  placed : ∀ thread < total, (state.threads thread).Placed job.taskNum state.current state.claims
  drained : state.Passed → job.taskNum ≤ state.claims

/-- Which threads may be where.  In its strict form it holds of runs without
exceptions, in the other of runs that begin a job only on a rested pool. -/
structure Frame (strict : Bool) (total : Nat) (state : State) : Prop where
  zero : state.threads 0 ≠ .outside → ∃ job, state.caller = .calling job .process
  inside : ∀ thread, 0 < thread → state.threads thread ≠ .outside → state.status thread = .working
  last : ∀ job stage, state.caller = .calling job stage → state.jobs.getLast? = some job
  fresh : state.jobs = [] → ∀ thread, state.threads thread = .outside ∧ state.status thread = .waiting
  quiet : ∀ job stage, state.caller = .calling job stage → ∀ thread, 0 < thread → thread < total →
    stage.raised state.workerCount ≤ thread → Rested strict state thread
  waited : ∀ job index, state.caller = .calling job (.wait index) →
    ∀ thread, 0 < thread → thread < index → Rested strict state thread
  finished : state.current ∈ state.returned → state.caller = .idle ∧
    ∀ thread, 0 < thread → thread < total → Rested strict state thread
  settled : strict = true → state.caller = .idle →
    ∀ thread, 0 < thread → thread < total → Rested strict state thread

structure Inv (strict : Bool) (total : Nat) (state : State) : Prop
    extends Frame strict total state where
  written : ∀ job, state.jobs.getLast? = some job → Written total state job
  cleared : state.written = 5 → state.claims = 0
  unused : state.written < 6 → ∀ taskId, state.computed state.current taskId = 0
  accounted : state.written = 6 → ∀ job, state.jobs.getLast? = some job → Accounted total state job
  returned : ∀ number ∈ state.returned, ∃ job, state.jobs[number]? = some job ∧
    ∀ taskId < job.taskNum, state.computed number taskId = 1
  known : ∀ event ∈ state.log, ∀ taskId, event.call = .compute taskId →
    event.func < state.jobs.length ∧ event.func = event.during

theorem computed_append (state : State) (events : List Event) (func taskId : Nat) :
    { state with log := state.log ++ events }.computed func taskId =
      state.computed func taskId +
        events.countP fun event => event.call = .compute taskId ∧ event.func = func := by
  simp only [State.computed, List.countP_append]

/-- A thread inside that is not rested means that all fields hold the current
job and that this job has not returned. -/
theorem Frame.of_active (frame : Frame strict total state) (inside : thread < total)
    (within : state.threads thread ≠ .outside) (active : ¬ Rested strict state thread) :
    state.written = 6 ∧ state.current ∉ state.returned ∧
      ∃ job, state.jobs.getLast? = some job := by
  refine ⟨?_, ?_, ?_⟩
  · unfold State.written
    cases position : state.caller with
    | idle => rfl
    | calling job stage =>
        rcases Nat.eq_zero_or_pos thread with rfl | positive
        · obtain ⟨_, processing⟩ := frame.zero within
          rw [position] at processing
          cases processing
          rfl
        · have quiet := frame.quiet job stage position thread positive inside
          cases stage <;> simp only [Stage.written]
          all_goals exact absurd (quiet (Nat.zero_le _)) active
  · intro member
    obtain ⟨idle, rested⟩ := frame.finished member
    rcases Nat.eq_zero_or_pos thread with rfl | positive
    · obtain ⟨_, processing⟩ := frame.zero within
      rw [idle] at processing
      contradiction
    · exact active (rested thread positive inside)
  · cases last : state.jobs.getLast? with
    | some job => exact ⟨job, rfl⟩
    | none => exact absurd (frame.fresh (List.getLast?_eq_none_iff.mp last) thread).1 within

theorem Frame.of_looping (frame : Frame strict total state) (inside : thread < total)
    (looping : (state.threads thread).looping = true) :
    state.written = 6 ∧ state.current ∉ state.returned ∧
      ∃ job, state.jobs.getLast? = some job := by
  apply frame.of_active inside
  · intro outside
    simp [outside, Position.looping] at looping
  · intro rested
    rw [rested.not_looping] at looping
    contradiction

theorem Rested.of_same {before after : State} (rested : Rested strict before thread)
    (sameThread : after.threads thread = before.threads thread)
    (sameStatus : after.status thread = before.status thread) : Rested strict after thread := by
  unfold Rested
  rw [sameThread, sameStatus]
  exact rested

/-- A thread that is inside and rested is past its task loop, and stays rested
while it goes on leaving. -/
theorem Rested.leave {before after : State} (rested : Rested strict before thread)
    (within : before.threads thread ≠ .outside)
    (leaves : (before.threads thread).leaving = true → (after.threads thread).leaving = true) :
    Rested strict after thread := by
  rcases rested with ⟨outside, _⟩ | ⟨lenient, leaving⟩
  · exact absurd outside within
  · exact .inr ⟨lenient, leaves leaving⟩

/-- What a step that takes nothing from the counter has to respect. -/
structure Advance (state : State) (thread : Nat) (events : List Event) (next : Position) : Prop where
  within : state.threads thread ≠ .outside
  leaves : (state.threads thread).leaving = true → next.leaving = true
  own : ∀ event ∈ events, ∀ taskId, event.call = .compute taskId →
    event.func = state.current ∧ event.during = state.current ∧
      (state.threads thread).looping = true
  keeps : state.written = 6 → ∀ job, state.jobs.getLast? = some job →
    (next.eager job.taskNum = true →
      (state.threads thread).eager job.taskNum = true ∨ state.claims < job.taskNum) ∧
    (∀ taskId < job.taskNum, (next.pending taskId).toNat +
        events.countP (fun event => event.call = .compute taskId ∧ event.func = state.current) =
      ((state.threads thread).pending taskId).toNat) ∧
    next.Placed job.taskNum state.current state.claims ∧
    (next.looping = false → (state.threads thread).looping = false ∨ job.taskNum ≤ state.claims)

/-- The frame after a step of one thread: what is left to show is about the
threads alone. -/
theorem Frame.map {before after : State} (frame : Frame strict total before)
    (caller : after.caller = before.caller) (jobs : after.jobs = before.jobs)
    (workerCount : after.workerCount = before.workerCount)
    (returned : after.returned = before.returned)
    (rests : ∀ thread, Rested strict before thread → Rested strict after thread)
    (zero : after.threads 0 ≠ .outside → before.threads 0 ≠ .outside)
    (inside : ∀ thread, 0 < thread → after.threads thread ≠ .outside → after.status thread = .working)
    (begun : before.jobs ≠ []) : Frame strict total after where
  zero inner := by
    rw [caller]
    exact frame.zero (zero inner)
  inside := inside
  last := by
    rw [caller, jobs]
    exact frame.last
  fresh empty := absurd (jobs ▸ empty) begun
  quiet := by
    rw [caller, workerCount]
    intro job stage calling thread positive below raised
    exact rests thread (frame.quiet job stage calling thread positive below raised)
  waited := by
    rw [caller]
    intro job index calling thread positive below
    exact rests thread (frame.waited job index calling thread positive below)
  finished := by
    rw [State.current, caller, jobs, returned]
    intro member
    obtain ⟨idle, rested⟩ := frame.finished member
    exact ⟨idle, fun thread positive below => rests thread (rested thread positive below)⟩
  settled := by
    rw [caller]
    intro strictly idle thread positive below
    exact rests thread (frame.settled strictly idle thread positive below)

theorem Frame.begun (frame : Frame strict total state) (within : state.threads thread ≠ .outside) :
    state.jobs ≠ [] :=
  fun empty => within (frame.fresh empty thread).1

/-- A thread that goes on inside `process_tasks` disturbs nobody. -/
theorem Frame.advance (frame : Frame strict total state)
    (within : state.threads thread ≠ .outside)
    (leaves : (state.threads thread).leaving = true → next.leaving = true)
    (log : List Event) (curr : Int) (claims : Nat) :
    Frame strict total
      ({ state with log := log, curr := curr, claims := claims }.move thread next) := by
  refine frame.map rfl rfl rfl rfl ?_ ?_ ?_ (frame.begun within)
  · intro thread' rested
    by_cases same : thread' = thread
    · subst same
      apply rested.leave within
      intro leaving
      simp only [State.move, Function.update_self, leaves leaving]
    · exact rested.of_same (Function.update_of_ne same _ _) rfl
  · intro outside
    by_cases same : 0 = thread
    · subst same
      exact within
    · simpa only [State.move, Function.update_of_ne same] using outside
  · intro thread' positive outside
    apply frame.inside thread' positive
    by_cases same : thread' = thread
    · subst same
      exact within
    · simpa only [State.move, Function.update_of_ne same] using outside

/-- The accounts after one thread moved and nothing was taken from the counter. -/
theorem Accounted.move {after : State} (accounted : Accounted total state job)
    (inside : thread < total) (threads : after.threads = Function.update state.threads thread next)
    (claims : after.claims = state.claims) (current : after.current = state.current)
    (eager : next.eager job.taskNum = true →
      (state.threads thread).eager job.taskNum = true ∨ state.claims < job.taskNum)
    (once : ∀ taskId < job.taskNum,
      (next.pending taskId).toNat + after.computed state.current taskId =
        ((state.threads thread).pending taskId).toNat + state.computed state.current taskId)
    (placed : next.Placed job.taskNum state.current state.claims)
    (passed : after.Passed → state.Passed ∨ job.taskNum ≤ state.claims) :
    Accounted total after job := by
  refine { bounded := ?_, once := ?_, placed := ?_, drained := ?_ }
  · have moved := tally_update (Position.eager job.taskNum) state.threads inside next
    have bounded := accounted.bounded
    rw [claims, threads]
    cases later : next.eager job.taskNum <;>
      cases earlier : (state.threads thread).eager job.taskNum <;>
      simp only [later, earlier, Bool.toNat_true, Bool.toNat_false] at moved
    · omega
    · omega
    · have room := tally_lt inside earlier
      have below : state.claims < job.taskNum := by
        rcases eager later with already | below
        · rw [earlier] at already
          contradiction
        · exact below
      omega
    · omega
  · intro taskId below
    have moved := tally_update (Position.pending taskId) state.threads inside next
    have before := accounted.once taskId below
    have shifted := once taskId below
    rw [claims, threads, current]
    omega
  · intro thread' below
    rw [claims, threads, current]
    by_cases same : thread' = thread
    · subst same
      rw [Function.update_self]
      exact placed
    · rw [Function.update_of_ne same]
      exact accounted.placed thread' below
  · intro reached
    rw [claims]
    rcases passed reached with already | enough
    · exact accounted.drained already
    · exact enough

/-- The accounts after a step of the caller that moved no thread. -/
theorem Accounted.same {after : State} (accounted : Accounted total state job)
    (threads : after.threads = state.threads) (claims : after.claims = state.claims)
    (current : after.current = state.current) (log : after.log = state.log)
    (passed : after.Passed → state.Passed) : Accounted total after job where
  bounded := by
    rw [threads, claims]
    exact accounted.bounded
  once taskId below := by
    rw [threads, claims, current, State.computed, log]
    exact accounted.once taskId below
  placed thread below := by
    rw [threads, claims, current]
    exact accounted.placed thread below
  drained reached := by
    rw [claims]
    exact accounted.drained (passed reached)

/-- Moving a thread that does not leave its task loop does not take the caller
past its own. -/
theorem Passed.of_move {before after : State} (passed : after.Passed)
    (threads : after.threads = Function.update before.threads thread next)
    (caller : after.caller = before.caller)
    (loops : next.looping = false → (before.threads thread).looping = false ∨ enough) : before.Passed ∨ enough := by
  unfold State.Passed at passed ⊢
  rw [caller, threads] at passed
  split at passed
  · by_cases same : 0 = thread
    · subst same
      rw [Function.update_self] at passed
      exact loops passed
    · rw [Function.update_of_ne same] at passed
      exact .inl passed
  · exact .inl trivial
  · contradiction

theorem Inv.advance (inv : Inv strict total state) (inside : thread < total)
    (step : Advance state thread events next) :
    Inv strict total ({ state with log := state.log ++ events }.move thread next) := by
  have counts : ∀ number taskId, (number ≠ state.current ∨
        (state.threads thread).looping = false) →
      ({ state with log := state.log ++ events }.move thread next).computed number taskId =
        state.computed number taskId := by
    intro number taskId apart
    refine (computed_append state events number taskId).trans ?_
    rw [List.countP_eq_zero.mpr, Nat.add_zero]
    intro event member called
    simp only [decide_eq_true_eq] at called
    obtain ⟨own, _, looping⟩ := step.own event member taskId called.1
    rcases apart with different | idle
    · exact different (called.2.symm.trans own)
    · rw [idle] at looping
      contradiction
  refine
    { toFrame := inv.toFrame.advance step.within step.leaves _ _ _
      written := fun job last => { inv.written job last with }
      cleared := inv.cleared
      unused := ?_
      accounted := ?_
      returned := ?_
      known := ?_ }
  · intro unwritten taskId
    have idle : (state.threads thread).looping = false := by
      by_contra looping
      have full := (inv.of_looping inside (by simpa using looping)).1
      have unwritten : state.written < 6 := unwritten
      omega
    exact (counts _ taskId (.inr idle)).trans (inv.unused unwritten taskId)
  · intro full job last
    obtain ⟨eager, pending, placed, leaving⟩ := step.keeps full job last
    refine (inv.accounted full job last).move inside rfl rfl rfl eager ?_ placed
      (fun passed => Passed.of_move passed rfl rfl leaving)
    intro taskId below
    have shifted := pending taskId below
    change _ + { state with log := state.log ++ events }.computed state.current taskId = _
    rw [computed_append]
    omega
  · intro number member
    obtain ⟨job, stored, once⟩ := inv.returned number member
    refine ⟨job, stored, fun taskId below => ?_⟩
    rw [counts number taskId, once taskId below]
    by_cases current : number = state.current
    · right
      by_contra looping
      exact (inv.of_looping inside (by simpa using looping)).2.1 (current ▸ member)
    · exact .inl current
  · intro event member taskId called
    rcases List.mem_append.mp member with old | new
    · exact inv.known event old taskId called
    · obtain ⟨own, during, looping⟩ := step.own event new taskId called
      obtain ⟨_, _, _, last⟩ := inv.of_looping inside looping
      have nonempty : state.jobs ≠ [] := fun empty => by simp [empty] at last
      have length := List.length_pos_of_ne_nil nonempty
      refine ⟨?_, own.trans during.symm⟩
      simp only [State.move, own, State.current]
      omega

theorem Position.Placed.mono {position : Position} (placed : position.Placed taskNum current claims)
    (later : claims ≤ claims') : position.Placed taskNum current claims' := by
  cases position <;> simp only [Position.Placed] at placed ⊢
  case compare old =>
    obtain ⟨count, below, same⟩ := placed
    exact ⟨count, by omega, same⟩
  case check held | recheck held | compute held =>
    obtain ⟨count, below, same⟩ := placed
    exact ⟨count, by omega, same⟩
  case divide | inCompute => exact placed

/-- The `fetch_add`: the number taken is the count before it, wrapped, and the
count stays within one turn of the counter. -/
theorem Inv.claim (inv : Inv strict total state) (small : total < 2 ^ 31) (inside : thread < total)
    (position : state.threads thread = .claim) :
    Inv strict total ({ state with
      curr := wrap (state.curr + 1)
      claims := state.claims + 1 }.move thread (.check state.curr)) := by
  obtain ⟨full, unreturned, job, last⟩ :=
    inv.of_looping inside (by rw [position]; rfl)
  have written := inv.written job last
  have accounted := inv.accounted full job last
  have counter : state.curr = wrap state.claims := written.curr (by omega)
  have fits := job.fits
  have bounded := accounted.bounded
  refine
    { toFrame := inv.toFrame.advance (by rw [position]; nofun)
        (by rw [position]; nofun) _ _ _
      written := ?_
      cleared := ?_
      unused := inv.unused
      accounted := ?_
      returned := inv.returned
      known := inv.known }
  · intro job' last'
    refine { inv.written job' last' with curr := fun _ => ?_ }
    simp only [State.move, counter, wrap_add_wrap, Int.natCast_add, Int.cast_ofNat_Int]
  · intro cleared
    have cleared : state.written = 5 := cleared
    omega
  · intro _ job' last'
    obtain rfl : job' = job := Option.some.inj (last'.symm.trans last)
    refine { bounded := ?_, once := ?_, placed := ?_, drained := ?_ }
    · have moved := tally_update (Position.eager job'.taskNum) state.threads inside
        (.check state.curr)
      simp only [position, Position.eager, Bool.toNat_true, Bool.toNat_false] at moved
      simp only [State.move]
      omega
    · intro taskId below
      have moved := tally_update (Position.pending taskId) state.threads inside
        (.check state.curr)
      have once := accounted.once taskId below
      have taken : state.curr = taskId ↔ state.claims = taskId := by
        rw [counter]
        exact wrap_eq_iff (by omega) (by omega)
      change tally total (Position.pending taskId)
        (Function.update state.threads thread (.check state.curr)) +
          state.computed state.current taskId = if taskId < state.claims + 1 then 1 else 0
      simp only [position, Position.pending, taken, Bool.toNat_false] at moved
      by_cases same : state.claims = taskId
      · simp only [same, decide_true, Bool.toNat_true] at moved
        rw [if_neg (by omega)] at once
        rw [if_pos (by omega)]
        omega
      · simp only [same, decide_false, Bool.toNat_false] at moved
        by_cases earlier : taskId < state.claims
        · rw [if_pos earlier] at once
          rw [if_pos (by omega)]
          omega
        · rw [if_neg earlier] at once
          rw [if_neg (by omega)]
          omega
    · intro thread' below
      simp only [State.move]
      by_cases same : thread' = thread
      · subst same
        rw [Function.update_self]
        exact ⟨state.claims, Nat.lt_succ_self _, counter⟩
      · rw [Function.update_of_ne same]
        exact (accounted.placed thread' below).mono (Nat.le_succ _)
    · intro passed
      have before : state.Passed ∨ False := Passed.of_move passed rfl rfl (by nofun)
      have enough := accounted.drained (before.resolve_right id)
      simp only [State.move]
      omega

/-- The final `WAITING` store. -/
theorem Inv.store (inv : Inv strict total state) (inside : thread < total)
    (position : state.threads thread = .store) :
    Inv strict total ({ state with
      status := Function.update state.status thread .waiting }.move thread .outside) := by
  have within : state.threads thread ≠ .outside := by
    rw [position]
    nofun
  refine
    { toFrame := inv.toFrame.map rfl rfl rfl rfl ?_ ?_ ?_ (inv.begun within)
      written := fun job last => { inv.written job last with }
      cleared := inv.cleared
      unused := inv.unused
      accounted := ?_
      returned := inv.returned
      known := inv.known }
  · intro thread' rested
    by_cases same : thread' = thread
    · subst same
      exact .inl ⟨Function.update_self .., Function.update_self ..⟩
    · exact rested.of_same (Function.update_of_ne same _ _) (Function.update_of_ne same _ _)
  · intro outside
    by_cases same : 0 = thread
    · subst same
      exact within
    · simpa only [State.move, Function.update_of_ne same] using outside
  · intro thread' positive outside
    by_cases same : thread' = thread
    · subst same
      simp [State.move] at outside
    · simp only [State.move, Function.update_of_ne same] at outside ⊢
      exact inv.inside thread' positive outside
  · intro full job last
    refine (inv.accounted full job last).move inside rfl rfl rfl (by nofun) ?_ trivial
      (fun passed => Passed.of_move passed rfl rfl fun _ => .inl (by rw [position]; rfl))
    intro taskId _
    rw [position]
    rfl

/-- A raised thread enters `process_tasks`. -/
theorem Inv.enter (inv : Inv strict total state) (positive : 0 < thread) (inside : thread < total)
    (outside : state.threads thread = .outside) (working : state.status thread = .working) :
    Inv strict total (state.move thread .init) := by
  have begun : state.jobs ≠ [] := by
    intro empty
    have waiting := (inv.fresh empty thread).2
    rw [working] at waiting
    contradiction
  refine
    { toFrame := inv.toFrame.map rfl rfl rfl rfl ?_ ?_ ?_ begun
      written := fun job last => { inv.written job last with }
      cleared := inv.cleared
      unused := inv.unused
      accounted := ?_
      returned := inv.returned
      known := inv.known }
  · intro thread' rested
    by_cases same : thread' = thread
    · subst same
      rcases rested with ⟨_, waiting⟩ | ⟨_, leaving⟩
      · rw [working] at waiting
        contradiction
      · rw [outside] at leaving
        contradiction
    · exact rested.of_same (Function.update_of_ne same _ _) rfl
  · intro inner
    simpa only [State.move, Function.update_of_ne (Nat.ne_of_lt positive)] using inner
  · intro thread' positive' inner
    by_cases same : thread' = thread
    · subst same
      exact working
    · simp only [State.move, Function.update_of_ne same] at inner
      exact inv.inside thread' positive' inner
  · intro full job last
    refine (inv.accounted full job last).move inside rfl rfl rfl (by nofun) ?_ trivial
      (fun passed => Passed.of_move passed rfl rfl (by nofun))
    intro taskId _
    rw [outside]
    rfl

end KtKernel.WorkerPool
