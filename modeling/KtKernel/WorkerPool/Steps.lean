import KtKernel.WorkerPool.Invariant

namespace KtKernel.WorkerPool

open KtKernel.Data

/-! ## Threads -/

theorem Inv.proceed (inv : Inv strict total state) (inside : thread < total)
    (step : Advance state thread [] next) : Inv strict total (state.move thread next) := by
  have advanced := inv.advance inside step
  rw [List.append_nil] at advanced
  exact advanced

/-- A step inside the task loop, where the current job is known. -/
theorem Advance.of_looping {state : State} {old next : Position}
    (position : state.threads thread = old) (looping : old.looping = true)
    (last : state.jobs.getLast? = some job)
    (own : ∀ event ∈ events, ∀ taskId, event.call = .compute taskId →
      event.func = state.current ∧ event.during = state.current)
    (eager : next.eager job.taskNum = true →
      old.eager job.taskNum = true ∨ state.claims < job.taskNum)
    (pending : ∀ taskId < job.taskNum, (next.pending taskId).toNat +
        events.countP (fun event => event.call = .compute taskId ∧ event.func = state.current) =
      (old.pending taskId).toNat)
    (placed : next.Placed job.taskNum state.current state.claims)
    (drained : next.looping = false → job.taskNum ≤ state.claims) :
    Advance state thread events next := by
  refine { within := ?_, leaves := ?_, own := ?_, keeps := ?_ }
  · intro outside
    rw [← position, outside] at looping
    contradiction
  · intro leaving
    rw [position] at leaving
    cases old <;> simp_all [Position.looping, Position.leaving]
  · intro event member taskId called
    obtain ⟨func, during⟩ := own event member taskId called
    exact ⟨func, during, by rw [position]; exact looping⟩
  · intro _ job' last'
    obtain rfl : job' = job := Option.some.inj (last'.symm.trans last)
    rw [position]
    exact ⟨eager, pending, placed, fun outside => .inr (drained outside)⟩

/-- What is left of the job is positive exactly when the counter was below its
end, whether or not the counter has wrapped. -/
theorem rem_pos_iff {taskNum total : Nat} (count : Nat) (fits : taskNum < 2 ^ 31) (small : total < 2 ^ 31)
    (bounded : count ≤ taskNum + total) : 0 < wrap (taskNum - wrap count) ↔ count < taskNum := by
  rw [wrap_sub_wrap, wrap_eq (by omega) (by omega)]
  omega

theorem le_claims_of_wrap {taskNum count claims : Nat} (fits : taskNum < 2 ^ 31)
    (taken : count < claims) (beyond : (taskNum : Int) ≤ wrap count) : taskNum ≤ claims := by
  by_contra short
  rw [wrap_eq (by omega) (by omega)] at beyond
  omega

theorem Inv.processTasks (inv : Inv strict total state) (small : total < 2 ^ 31)
    (inside : thread < total) (moved : processTasks state thread = some after) :
    Inv strict total after := by
  unfold WorkerPool.processTasks at moved
  cases position : state.threads thread <;> simp only [position] at moved
  case outside | crashed => contradiction
  case store =>
    obtain rfl := Option.some.inj moved
    exact inv.store inside position
  case claim =>
    obtain rfl := Option.some.inj moved
    exact inv.claim small inside position
  case finalize =>
    split at moved
    · obtain rfl := Option.some.inj moved
      apply inv.advance inside
      refine { within := ?_, leaves := ?_, own := ?_, keeps := ?_ } <;>
        simp [position, Position.looping, Position.leaving, Position.eager, Position.pending,
          Position.Placed]
    · obtain rfl := Option.some.inj moved
      apply inv.proceed inside
      refine { within := ?_, leaves := ?_, own := ?_, keeps := ?_ } <;>
        simp [position, Position.looping, Position.leaving, Position.eager, Position.pending,
          Position.Placed]
  case inFinalize =>
    obtain rfl := Option.some.inj moved
    apply inv.proceed inside
    refine { within := ?_, leaves := ?_, own := ?_, keeps := ?_ } <;>
      simp [position, Position.looping, Position.leaving, Position.eager, Position.pending,
        Position.Placed]
  all_goals
    obtain ⟨full, -, job, last⟩ := inv.of_looping inside (by rw [position]; rfl)
    have written := inv.written job last
    have accounted := inv.accounted full job last
    have placed := accounted.placed thread inside
    have ends := written.end_ (by omega)
    have fits := job.fits
    have bounded := accounted.bounded
    rw [position] at placed
    simp only [Position.Placed] at placed
  case init =>
    split at moved
    · obtain rfl := Option.some.inj moved
      apply inv.advance inside
      apply Advance.of_looping position rfl last <;>
        simp [Position.looping, Position.eager, Position.pending, Position.Placed]
    · obtain rfl := Option.some.inj moved
      apply inv.proceed inside
      apply Advance.of_looping position rfl last <;>
        simp [Position.looping, Position.eager, Position.pending, Position.Placed]
  case inInit | inCompute =>
    obtain rfl := Option.some.inj moved
    apply inv.proceed inside
    apply Advance.of_looping position rfl last <;>
      simp [Position.looping, Position.eager, Position.pending, Position.Placed]
  case load =>
    obtain rfl := Option.some.inj moved
    have counter : state.curr = wrap state.claims := written.curr (by omega)
    have remains := rem_pos_iff state.claims fits small (Nat.le_of_add_right_le bounded)
    apply inv.proceed inside
    apply Advance.of_looping position rfl last
    · intros; contradiction
    · intro eager
      simp only [Position.eager, counter, decide_eq_true_eq, remains] at eager
      exact .inr eager
    · intro taskId _
      rfl
    · exact ⟨state.claims, Nat.le_refl _, counter⟩
    · intros; contradiction
  case compare old =>
    obtain ⟨count, taken, same⟩ := placed
    have remains : 0 < wrap (job.taskNum - old) ↔ count < job.taskNum := by
      rw [same]
      exact rem_pos_iff count fits small (by omega)
    rw [ends] at moved
    split at moved
    · rename_i beyond
      obtain rfl := Option.some.inj moved
      apply inv.proceed inside
      apply Advance.of_looping position rfl last
      · intros; contradiction
      · intros; contradiction
      · intro taskId _
        rfl
      · trivial
      · intro _
        omega
    · rename_i under
      obtain rfl := Option.some.inj moved
      apply inv.proceed inside
      apply Advance.of_looping position rfl last
      · intros; contradiction
      · intro _
        simp only [Position.eager, decide_eq_true_eq]
        omega
      · intro taskId _
        rfl
      · simp only [Position.Placed]
        omega
      · intros; contradiction
  case divide =>
    have many : state.workerCount ≠ 0 := by
      rw [written.workerCount (by omega)]
      omega
    simp only [many, if_false] at moved
    obtain rfl := Option.some.inj moved
    apply inv.proceed inside
    apply Advance.of_looping position rfl last <;>
      simp [Position.looping, Position.eager, Position.pending, Position.Placed]
  case check held =>
    rw [ends] at moved
    split at moved
    · rename_i beyond
      obtain rfl := Option.some.inj moved
      apply inv.proceed inside
      apply Advance.of_looping position rfl last
      · intros; contradiction
      · intros; contradiction
      · intro taskId below
        simp only [Position.pending, Bool.toNat_false, List.countP_nil]
        rw [decide_eq_false (by omega)]
        rfl
      · trivial
      · intro _
        obtain ⟨count, taken, same⟩ := placed
        rw [same] at beyond
        exact le_claims_of_wrap fits taken beyond
    · obtain rfl := Option.some.inj moved
      apply inv.proceed inside
      apply Advance.of_looping position rfl last
      · intros; contradiction
      · intros; contradiction
      · intro taskId _
        rfl
      · exact placed
      · intros; contradiction
  case recheck held =>
    rw [ends] at moved
    split at moved
    · rename_i beyond
      obtain rfl := Option.some.inj moved
      apply inv.proceed inside
      apply Advance.of_looping position rfl last
      · intros; contradiction
      · intros; contradiction
      · intro taskId below
        simp only [Position.pending, Bool.toNat_false, List.countP_nil]
        rw [decide_eq_false (by omega)]
        rfl
      · trivial
      · intros; contradiction
    · obtain rfl := Option.some.inj moved
      apply inv.proceed inside
      apply Advance.of_looping position rfl last
      · intros; contradiction
      · intros; contradiction
      · intro taskId _
        rfl
      · exact placed
      · intros; contradiction
  case compute held =>
    simp only [written.computeFunc (by omega)] at moved
    obtain rfl := Option.some.inj moved
    apply inv.advance inside
    apply Advance.of_looping position rfl last
    · intro event member taskId _
      rw [List.mem_singleton.mp member]
      exact ⟨rfl, rfl⟩
    · intros; contradiction
    · intro taskId _
      by_cases same : held = taskId <;> simp [Position.pending, same]
    · simp only [Position.Placed]
    · intros; contradiction

theorem Inv.workerThread (inv : Inv strict total state) (small : total < 2 ^ 31)
    (positive : 0 < thread) (inside : thread < total)
    (moved : workerThread state thread = some after) : Inv strict total after := by
  unfold WorkerPool.workerThread at moved
  split at moved
  · rename_i outside
    cases status : state.status thread <;> simp only [status] at moved
    case working =>
      obtain rfl := Option.some.inj moved
      exact inv.enter positive inside outside status
    case waiting => contradiction
  · exact inv.processTasks small inside moved

/-! ## The caller -/

theorem Rested.same {before after : State} (rested : Rested strict before thread)
    (threads : after.threads = before.threads) (status : after.status = before.status) :
    Rested strict after thread :=
  rested.of_same (congrFun threads _) (congrFun status _)

theorem Frame.outside_of_not_process (frame : Frame strict total state)
    (calling : state.caller = .calling job stage) (other : stage ≠ .process) :
    state.threads 0 = .outside := by
  by_contra inner
  obtain ⟨_, processing⟩ := frame.zero inner
  rw [calling] at processing
  cases processing
  contradiction

theorem Frame.restage {before after : State} (frame : Frame strict total before)
    (calling : before.caller = .calling job stage) (caller : after.caller = .calling job stage')
    (jobs : after.jobs = before.jobs) (returned : after.returned = before.returned)
    (zero : after.threads 0 ≠ .outside → stage' = .process)
    (inside : ∀ thread, 0 < thread → after.threads thread ≠ .outside → after.status thread = .working)
    (quiet : ∀ thread, 0 < thread → thread < total → stage'.raised after.workerCount ≤ thread →
      Rested strict after thread)
    (waited : ∀ index, stage' = .wait index → ∀ thread, 0 < thread → thread < index →
      Rested strict after thread) : Frame strict total after where
  zero inner := ⟨job, by rw [caller, zero inner]⟩
  inside := inside
  last job' stage'' same := by
    rw [caller] at same
    cases same
    rw [jobs]
    exact frame.last job stage calling
  fresh empty := by
    have stored := frame.last job stage calling
    rw [← jobs, empty] at stored
    contradiction
  quiet job' stage'' same := by
    rw [caller] at same
    cases same
    exact quiet
  waited job' index same := by
    rw [caller] at same
    cases same
    exact waited index rfl
  finished member := by
    rw [State.current, jobs, returned] at member
    have idle := (frame.finished member).1
    rw [calling] at idle
    contradiction
  settled _ idle := by
    rw [caller] at idle
    contradiction

/-- Writing a field of the job: no thread of the pool is in its task loop. -/
theorem Frame.write {before after : State} (frame : Frame strict total before)
    (calling : before.caller = .calling job stage) (caller : after.caller = .calling job stage')
    (early : stage.written < 6) (fromStart : ∀ workerCount, stage.raised workerCount = 0)
    (unprocessed : ∀ index, stage' ≠ .wait index)
    (threads : after.threads = before.threads) (status : after.status = before.status)
    (jobs : after.jobs = before.jobs) (returned : after.returned = before.returned) :
    Frame strict total after := by
  have outside : before.threads 0 = .outside :=
    frame.outside_of_not_process calling (by rintro rfl; simp [Stage.written] at early)
  refine frame.restage calling caller jobs returned ?_ ?_ ?_ ?_
  · intro inner
    rw [threads] at inner
    exact absurd outside inner
  · rw [threads, status]
    exact frame.inside
  · intro thread positive below _
    apply Rested.same _ threads status
    apply frame.quiet job stage calling thread positive below
    rw [fromStart]
    exact Nat.zero_le _
  · intro index waiting
    exact absurd waiting (unprocessed index)

/-- Out of the task loop a thread neither holds nor wants a task number. -/
theorem Position.free {position : Position} (apart : position = .outside ∨ position.leaving = true) :
    (∀ taskId, position.pending taskId = false) ∧ (∀ taskNum, position.eager taskNum = false) ∧
      ∀ taskNum current claims, position.Placed taskNum current claims := by
  rcases apart with rfl | leaving
  · exact ⟨fun _ => rfl, fun _ => rfl, fun _ _ _ => trivial⟩
  · cases position <;> simp only [Position.leaving] at leaving
    all_goals first
      | contradiction
      | exact ⟨fun _ => rfl, fun _ => rfl, fun _ _ _ => trivial⟩

theorem Rested.apart (rested : Rested strict state thread) :
    state.threads thread = .outside ∨ (state.threads thread).leaving = true := by
  rcases rested with ⟨outside, _⟩ | ⟨_, leaving⟩
  · exact .inl outside
  · exact .inr leaving

/-- While the fields are written no thread of the pool is in its task loop. -/
theorem Frame.apart (frame : Frame strict total state)
    (calling : state.caller = .calling job stage) (other : stage ≠ .process)
    (rested : ∀ thread, 0 < thread → thread < total → Rested strict state thread) :
    ∀ thread < total, state.threads thread = .outside ∨ (state.threads thread).leaving = true := by
  intro thread below
  rcases Nat.eq_zero_or_pos thread with rfl | positive
  · exact .inl (frame.outside_of_not_process calling other)
  · exact (rested thread positive below).apart

/-- One of the six writes that install a job. -/
theorem Inv.write {after : State} (inv : Inv strict total state)
    (calling : state.caller = .calling job stage) (caller : after.caller = .calling job stage')
    (early : stage.written < 6) (next : stage'.written = stage.written + 1)
    (fromStart : ∀ workerCount, stage.raised workerCount = 0)
    (unpassed : ¬ after.Passed)
    (threads : after.threads = state.threads) (status : after.status = state.status)
    (jobs : after.jobs = state.jobs) (returned : after.returned = state.returned)
    (log : after.log = state.log) (written : Written total after job)
    (cleared : 5 ≤ stage'.written → after.claims = 0) : Inv strict total after := by
  have last := inv.last job stage calling
  have current : after.current = state.current := by rw [State.current, State.current, jobs]
  have computed : ∀ number taskId, after.computed number taskId = state.computed number taskId := by
    intro number taskId
    rw [State.computed, State.computed, log]
  have unused : ∀ taskId, state.computed state.current taskId = 0 :=
    inv.unused (by simpa [State.written, calling] using early)
  have rank : after.written = stage'.written := by simp only [State.written, caller]
  have unwaited : ∀ index, stage' ≠ .wait index := by
    rintro index rfl
    exact unpassed (by simp only [State.Passed, caller])
  refine
    { toFrame := inv.toFrame.write calling caller early fromStart unwaited threads status jobs
        returned
      written := ?_
      cleared := ?_
      unused := ?_
      accounted := ?_
      returned := ?_
      known := ?_ }
  · intro job' last'
    rw [jobs] at last'
    obtain rfl : job' = job := Option.some.inj (last'.symm.trans last)
    exact written
  · intro five
    exact cleared (by omega)
  · intro _ taskId
    rw [current, computed]
    exact unused taskId
  · intro six job' last'
    have reset : after.claims = 0 := cleared (by omega)
    have apart := inv.apart calling (by rintro rfl; simp [Stage.written] at early)
      (fun thread positive below => inv.quiet job stage calling thread positive below
        (by rw [fromStart]; exact Nat.zero_le _))
    refine { bounded := ?_, once := ?_, placed := ?_, drained := ?_ }
    · rw [reset, threads, tally_eq_zero fun thread below => (Position.free (apart thread below)).2.1 _]
      exact Nat.zero_le _
    · intro taskId _
      rw [threads, current, computed, unused, reset,
        tally_eq_zero fun thread below => (Position.free (apart thread below)).1 _]
      simp
    · intro thread below
      rw [threads]
      exact (Position.free (apart thread below)).2.2 _ _ _
    · intro passed
      exact absurd passed unpassed
  · intro number member
    rw [returned] at member
    simp only [jobs, computed]
    exact inv.returned number member
  · rw [log, jobs]
    exact inv.known

/-- All fields stay written while none of them changes. -/
theorem Written.full {before after : State} (written : Written total before job)
    (full : before.written = 6) (jobs : after.jobs = before.jobs)
    (initFunc : after.initFunc = before.initFunc) (computeFunc : after.computeFunc = before.computeFunc)
    (finalizeFunc : after.finalizeFunc = before.finalizeFunc)
    (workerCount : after.workerCount = before.workerCount) (curr : after.curr = before.curr)
    (claims : after.claims = before.claims) (end_ : after.end_ = before.end_) :
    Written total after job where
  initFunc _ := by
    rw [initFunc, State.current, jobs]
    exact written.initFunc (by omega)
  computeFunc _ := by
    rw [computeFunc, State.current, jobs]
    exact written.computeFunc (by omega)
  finalizeFunc _ := by
    rw [finalizeFunc, State.current, jobs]
    exact written.finalizeFunc (by omega)
  workerCount _ := by
    rw [workerCount]
    exact written.workerCount (by omega)
  curr _ := by
    rw [curr, claims]
    exact written.curr (by omega)
  end_ _ := by
    rw [end_]
    exact written.end_ (by omega)

/-- The loop that raises the statuses. -/
theorem Inv.raise (inv : Inv strict total state)
    (calling : state.caller = .calling job (.raise index)) (more : index < state.workerCount) :
    Inv strict total { state with
      status := Function.update state.status index .working
      caller := .calling job (.raise (index + 1)) } := by
  have last := inv.last job _ calling
  have full : state.written = 6 := State.written_calling calling
  have outside := inv.outside_of_not_process calling (by nofun)
  refine
    { toFrame := inv.toFrame.restage calling rfl rfl rfl ?_ ?_ ?_ (by nofun)
      written := ?_
      cleared := by nofun
      unused := by nofun
      accounted := ?_
      returned := inv.returned
      known := inv.known }
  · intro inner
    exact absurd outside inner
  · intro thread positive inner
    by_cases same : thread = index
    · subst same
      exact Function.update_self ..
    · exact (Function.update_of_ne same _ _).trans (inv.inside thread positive inner)
  · intro thread positive below raised
    have different : thread ≠ index := by
      simp only [Stage.raised] at raised
      omega
    refine (inv.quiet job _ calling thread positive below ?_).of_same rfl
      (Function.update_of_ne different _ _)
    simp only [Stage.raised] at raised ⊢
    omega
  · intro job' last'
    exact (inv.written job' last').full full rfl rfl rfl rfl rfl rfl rfl rfl
  · intro _ job' last'
    exact (inv.accounted full job' last').same rfl rfl rfl rfl (by nofun)

/-- The calling thread enters its own `process_tasks`. -/
theorem Inv.start (inv : Inv strict total state) (positive : 0 < total)
    (calling : state.caller = .calling job (.raise index)) (beyond : state.workerCount ≤ index) :
    Inv strict total ({ state with caller := .calling job .process }.move 0 .init) := by
  have full : state.written = 6 := State.written_calling calling
  have outside := inv.outside_of_not_process calling (by nofun)
  have other : ∀ {thread : Nat}, 0 < thread →
      Function.update state.threads 0 .init thread = state.threads thread :=
    fun positive => Function.update_of_ne (Nat.ne_of_gt positive) _ _
  refine
    { toFrame := inv.toFrame.restage calling rfl rfl rfl (fun _ => rfl) ?_ ?_ (by nofun)
      written := fun job' last' => (inv.written job' last').full full rfl rfl rfl rfl rfl rfl rfl rfl
      cleared := by nofun
      unused := by nofun
      accounted := ?_
      returned := inv.returned
      known := inv.known }
  · intro thread positive inner
    simp only [State.move, other positive] at inner
    exact inv.inside thread positive inner
  · intro thread positive below raised
    refine (inv.quiet job _ calling thread positive below ?_).of_same (other positive) rfl
    simp only [Stage.raised, State.move] at raised ⊢
    omega
  · intro _ job' last'
    refine (inv.accounted full job' last').move positive rfl rfl rfl (by intros; contradiction) ?_ trivial ?_
    · intro taskId _
      rw [outside]
      rfl
    · intro passed
      simp [State.Passed, State.move, Position.looping] at passed

/-- `process_tasks(0)` returned and `wait` begins. -/
theorem Inv.await (inv : Inv strict total state) (calling : state.caller = .calling job .process)
    (outside : state.threads 0 = .outside) :
    Inv strict total { state with caller := .calling job (.wait 0) } := by
  have full : state.written = 6 := State.written_calling calling
  refine
    { toFrame := inv.toFrame.restage calling rfl rfl rfl ?_ inv.inside ?_ ?_
      written := fun job' last' => (inv.written job' last').full full rfl rfl rfl rfl rfl rfl rfl rfl
      cleared := by nofun
      unused := by nofun
      accounted := ?_
      returned := inv.returned
      known := inv.known }
  · intro inner
    exact absurd outside inner
  · intro thread positive below raised
    exact (inv.quiet job _ calling thread positive below raised).same rfl rfl
  · intro index waiting thread _ below
    cases waiting
    omega
  · intro _ job' last'
    refine (inv.accounted full job' last').same rfl rfl rfl rfl fun _ => ?_
    simp only [State.Passed, calling, outside, Position.looping]

/-- `wait` saw that one more thread is not working. -/
theorem Inv.pass (inv : Inv strict total state) (calling : state.caller = .calling job (.wait index))
    (resting : state.status index ≠ .working) :
    Inv strict total { state with caller := .calling job (.wait (index + 1)) } := by
  have full : state.written = 6 := State.written_calling calling
  have outside := inv.outside_of_not_process calling (by nofun)
  refine
    { toFrame := inv.toFrame.restage calling rfl rfl rfl ?_ inv.inside ?_ ?_
      written := fun job' last' => (inv.written job' last').full full rfl rfl rfl rfl rfl rfl rfl rfl
      cleared := by nofun
      unused := by nofun
      accounted := ?_
      returned := inv.returned
      known := inv.known }
  · intro inner
    exact absurd outside inner
  · intro thread positive below raised
    exact (inv.quiet job _ calling thread positive below raised).same rfl rfl
  · intro index' waiting thread positive below
    cases waiting
    rcases Nat.lt_succ_iff_lt_or_eq.mp below with earlier | rfl
    · exact (inv.waited job index calling thread positive earlier).same rfl rfl
    · refine .inl ⟨?_, ?_⟩
      · by_contra inner
        exact resting (inv.inside thread positive inner)
      · cases status : state.status thread
        · exact absurd status resting
        · rfl
  · intro _ job' last'
    refine (inv.accounted full job' last').same rfl rfl rfl rfl fun _ => ?_
    simp only [State.Passed, calling]

theorem Frame.rested_of_waited (frame : Frame strict total state)
    (calling : state.caller = .calling job (.wait index)) (beyond : state.workerCount ≤ index) :
    ∀ thread, 0 < thread → thread < total → Rested strict state thread := by
  intro thread positive below
  by_cases waited : thread < index
  · exact frame.waited job index calling thread positive waited
  · exact frame.quiet job _ calling thread positive below (by simp only [Stage.raised]; omega)

/-- `do_work_stealing_job` returns: every thread is rested, so every number
below the counter has been passed to the function. -/
theorem Inv.finish (inv : Inv strict total state) (calling : state.caller = .calling job (.wait index))
    (beyond : state.workerCount ≤ index) :
    Inv strict total { state with caller := .idle, returned := state.returned ++ [state.current] } := by
  have full : state.written = 6 := State.written_calling calling
  have outside := inv.outside_of_not_process calling (by nofun)
  have last := inv.last job _ calling
  have accounted := inv.accounted full job last
  have rested := inv.rested_of_waited calling beyond
  have rested' : ∀ thread, 0 < thread → thread < total →
      Rested strict { state with caller := .idle, returned := state.returned ++ [state.current] }
        thread :=
    fun thread positive below => (rested thread positive below).same rfl rfl
  have apart := inv.apart calling (by nofun) rested
  have done : ∀ taskId < job.taskNum, state.computed state.current taskId = 1 := by
    intro taskId below
    have once := accounted.once taskId below
    have enough := accounted.drained (by simp only [State.Passed, calling])
    rw [tally_eq_zero fun thread below => (Position.free (apart thread below)).1 _,
      if_pos (by omega)] at once
    omega
  refine
    { zero := fun inner => absurd outside inner
      inside := inv.inside
      last := by nofun
      fresh := inv.fresh
      quiet := by nofun
      waited := by nofun
      finished := fun _ => ⟨rfl, rested'⟩
      settled := fun _ _ => rested'
      written := fun job' last' => (inv.written job' last').full full rfl rfl rfl rfl rfl rfl rfl rfl
      cleared := by nofun
      unused := by nofun
      accounted := fun _ job' last' => (inv.accounted full job' last').same rfl rfl rfl rfl (by nofun)
      returned := ?_
      known := inv.known }
  intro number member
  rcases List.mem_append.mp member with old | new
  · exact inv.returned number old
  · rw [List.mem_singleton.mp new]
    refine ⟨job, ?_, done⟩
    rw [← last, List.getLast?_eq_getElem?]
    rfl

theorem Inv.callerStep (inv : Inv strict total state) (positive : 0 < total) (small : total < 2 ^ 31)
    (moved : callerStep total state = some after) : Inv strict total after := by
  unfold WorkerPool.callerStep at moved
  cases calling : state.caller with
  | idle => simp only [calling, reduceCtorEq] at moved
  | calling job stage =>
      have last := inv.last job stage calling
      have written := inv.written job last
      have rank : state.written = stage.written := State.written_calling calling
      cases stage <;> simp only [calling] at moved
      case initFunc =>
        obtain rfl := Option.some.inj moved
        refine inv.write calling rfl (by decide) rfl (fun _ => rfl) (by nofun) rfl rfl rfl rfl rfl ?_
          (by nofun)
        exact
          { initFunc := fun _ => rfl
            computeFunc := by nofun
            finalizeFunc := by nofun
            workerCount := by nofun
            curr := by nofun
            end_ := by nofun }
      case computeFunc =>
        obtain rfl := Option.some.inj moved
        refine inv.write calling rfl (by decide) rfl (fun _ => rfl) (by nofun) rfl rfl rfl rfl rfl ?_
          (by nofun)
        exact
          { initFunc := fun _ => written.initFunc (by rw [rank]; decide)
            computeFunc := fun _ => rfl
            finalizeFunc := by nofun
            workerCount := by nofun
            curr := by nofun
            end_ := by nofun }
      case finalizeFunc =>
        obtain rfl := Option.some.inj moved
        refine inv.write calling rfl (by decide) rfl (fun _ => rfl) (by nofun) rfl rfl rfl rfl rfl ?_
          (by nofun)
        exact
          { initFunc := fun _ => written.initFunc (by rw [rank]; decide)
            computeFunc := fun _ => written.computeFunc (by rw [rank]; decide)
            finalizeFunc := fun _ => rfl
            workerCount := by nofun
            curr := by nofun
            end_ := by nofun }
      case workerCount =>
        obtain rfl := Option.some.inj moved
        refine inv.write calling rfl (by decide) rfl (fun _ => rfl) (by nofun) rfl rfl rfl rfl rfl ?_
          (by nofun)
        exact
          { initFunc := fun _ => written.initFunc (by rw [rank]; decide)
            computeFunc := fun _ => written.computeFunc (by rw [rank]; decide)
            finalizeFunc := fun _ => written.finalizeFunc (by rw [rank]; decide)
            workerCount := fun _ => rfl
            curr := by nofun
            end_ := by nofun }
      case curr =>
        obtain rfl := Option.some.inj moved
        refine inv.write calling rfl (by decide) rfl (fun _ => rfl) (by nofun) rfl rfl rfl rfl rfl ?_
          (fun _ => rfl)
        exact
          { initFunc := fun _ => written.initFunc (by rw [rank]; decide)
            computeFunc := fun _ => written.computeFunc (by rw [rank]; decide)
            finalizeFunc := fun _ => written.finalizeFunc (by rw [rank]; decide)
            workerCount := fun _ => written.workerCount (by rw [rank]; decide)
            curr := fun _ => wrap_zero.symm
            end_ := by nofun }
      case end_ =>
        obtain rfl := Option.some.inj moved
        refine inv.write calling rfl (by decide) rfl (fun _ => rfl) (by nofun) rfl rfl rfl rfl rfl ?_
          (fun _ => inv.cleared (by rw [rank]; rfl))
        exact
          { initFunc := fun _ => written.initFunc (by rw [rank]; decide)
            computeFunc := fun _ => written.computeFunc (by rw [rank]; decide)
            finalizeFunc := fun _ => written.finalizeFunc (by rw [rank]; decide)
            workerCount := fun _ => written.workerCount (by rw [rank]; decide)
            curr := fun _ => written.curr (by rw [rank]; decide)
            end_ := fun _ => rfl }
      case raise index =>
        split at moved
        · obtain rfl := Option.some.inj moved
          exact inv.raise calling ‹_›
        · obtain rfl := Option.some.inj moved
          exact inv.start positive calling (Nat.le_of_not_lt ‹_›)
      case process =>
        split at moved
        · obtain rfl := Option.some.inj moved
          exact inv.await calling ‹_›
        · exact inv.processTasks small positive moved
      case wait index =>
        split at moved
        · split at moved
          · contradiction
          · obtain rfl := Option.some.inj moved
            exact inv.pass calling ‹_›
        · obtain rfl := Option.some.inj moved
          exact inv.finish calling (Nat.le_of_not_lt ‹_›)

theorem written_start {state : State} (nothing : state.written = 0) : Written total state job := by
  constructor
  all_goals
    intro some_
    omega

theorem Inv.call (inv : Inv strict total state) (idle : state.caller = .idle)
    (rested : ∀ thread, 0 < thread → thread < total → Rested strict state thread) :
    Inv strict total { state with jobs := state.jobs ++ [job], caller := .calling job .initFunc } := by
  have below : ∀ number ∈ state.returned, number < state.jobs.length := by
    intro number member
    obtain ⟨_, stored, _⟩ := inv.returned number member
    exact (List.getElem?_eq_some_iff.mp stored).1
  refine
    { zero := ?_
      inside := inv.inside
      last := ?_
      fresh := by simp
      quiet := fun _ _ _ thread positive below _ => (rested thread positive below).same rfl rfl
      waited := by nofun
      finished := ?_
      settled := by nofun
      written := ?_
      cleared := by nofun
      unused := ?_
      accounted := by nofun
      returned := ?_
      known := ?_ }
  · intro inner
    obtain ⟨_, processing⟩ := inv.zero inner
    rw [idle] at processing
    contradiction
  · intro job' stage same
    cases same
    exact List.getLast?_concat
  · intro member
    have old := below _ member
    simp [State.current] at old
  · intro job' _
    exact written_start rfl
  · intro _ taskId
    apply List.countP_eq_zero.mpr
    intro event member called
    simp only [State.current, List.length_append, List.length_singleton, Nat.add_sub_cancel,
      decide_eq_true_eq] at called
    have old := (inv.known event member _ called.1).1
    omega
  · intro number member
    obtain ⟨job', stored, once⟩ := inv.returned number member
    refine ⟨job', ?_, once⟩
    rw [List.getElem?_append_left (below number member)]
    exact stored
  · intro event member taskId called
    obtain ⟨old, own⟩ := inv.known event member taskId called
    refine ⟨?_, own⟩
    rw [List.length_append]
    omega

/-- The exception leaves the other threads where they are. -/
theorem Inv.throw (inv : Inv false total state) (positive : 0 < total)
    (calling : state.caller = .calling job .process)
    (position : state.threads 0 = .inCompute func taskId) :
    Inv false total ({ state with caller := .idle }.move 0 .outside) := by
  have full : state.written = 6 := State.written_calling calling
  have other : ∀ {thread : Nat}, 0 < thread →
      Function.update state.threads 0 .outside thread = state.threads thread :=
    fun positive => Function.update_of_ne (Nat.ne_of_gt positive) _ _
  refine
    { zero := ?_
      inside := ?_
      last := by nofun
      fresh := ?_
      quiet := by nofun
      waited := by nofun
      finished := ?_
      settled := by nofun
      written := fun job' last' => (inv.written job' last').full full rfl rfl rfl rfl rfl rfl rfl rfl
      cleared := by nofun
      unused := by nofun
      accounted := ?_
      returned := inv.returned
      known := inv.known }
  · intro inner
    simp [State.move] at inner
  · intro thread positive inner
    simp only [State.move, other positive] at inner
    exact inv.inside thread positive inner
  · intro empty
    have outside := (inv.fresh empty 0).1
    rw [position] at outside
    contradiction
  · intro member
    have idle := (inv.finished member).1
    rw [calling] at idle
    contradiction
  · intro _ job' last'
    refine (inv.accounted full job' last').move positive rfl rfl rfl (by intros; contradiction) ?_ trivial
      (by intros; contradiction)
    intro taskId _
    rw [position]
    rfl

theorem start_inv (strict : Bool) (total : Nat) : Inv strict total {} where
  zero := by simp
  inside := by simp
  last := by nofun
  fresh := by simp
  quiet := by nofun
  waited := by nofun
  finished := by simp
  settled := fun _ _ _ _ _ => .inl ⟨rfl, rfl⟩
  written := by simp
  cleared := by nofun
  unused := by nofun
  accounted := by simp
  returned := by simp
  known := by simp

/-- What one action keeps: a job may begin only on a rested pool, and in the
strict form there is no exception. -/
theorem Inv.step (inv : Inv strict total state) (positive : 0 < total) (small : total < 2 ^ 31)
    (begins : ∀ job, action = .call job →
      ∀ thread, 0 < thread → thread < total → Rested strict state thread)
    (calm : strict = true → action ≠ .throw)
    (moved : step total state action = some after) : Inv strict total after := by
  cases action with
  | call job =>
      cases calling : state.caller <;> simp only [WorkerPool.step, calling] at moved
      · obtain rfl := Option.some.inj moved
        exact inv.call calling (begins job rfl)
      · contradiction
  | caller => exact inv.callerStep positive small moved
  | thread index =>
      simp only [WorkerPool.step] at moved
      split at moved
      · rename_i bounds
        exact inv.workerThread small bounds.1 bounds.2 moved
      · contradiction
  | throw =>
      cases strict with
      | true => exact absurd rfl (calm rfl)
      | false =>
          simp only [WorkerPool.step] at moved
          split at moved
          · rename_i calling position
            obtain rfl := Option.some.inj moved
            exact inv.throw positive calling position
          · contradiction

end KtKernel.WorkerPool
