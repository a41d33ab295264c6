import KtKernel.Ascend.CallbackWorker

namespace KtKernel.Ascend

open KtKernel.Data

/-! ## What the set of streams records -/

section

variable (streams : List Stream) (reports : List (Nat × Stream)) (latest : Stream → Option Bool)
  (refused : List Stream)

/-- No worker and nothing recorded. -/
structure Quiet : Prop where
  streams : streams = []
  reports : reports = []
  latest : ∀ stream, latest stream = none
  refused : refused = []

/-- The streams of the set are those subscribed to the worker and those it was refused for;
the subscribe call of a pending stream is still to come. -/
structure Books (id : Nat) (pending : Option Stream) : Prop where
  distinct : streams.Nodup
  once : reports.Nodup
  own : ∀ entry ∈ reports, entry.1 = id ∧ entry.2 ∈ streams ∧ pending ≠ some entry.2
  recorded : ∀ stream ∈ streams, pending ≠ some stream → stream ∈ refused ∨ (id, stream) ∈ reports
  latest : ∀ stream, latest stream = some true → (id, stream) ∈ reports

end

section

variable {streams : List Stream} {reports : List (Nat × Stream)} {latest : Stream → Option Bool}
  {refused : List Stream} {id : Nat}

theorem Quiet.books (quiet : Quiet streams reports latest refused) (id : Nat) :
    Books streams reports latest refused id none where
  distinct := by simp [quiet.streams]
  once := by simp [quiet.reports]
  own := by simp [quiet.reports]
  recorded := by simp [quiet.streams]
  latest stream succeeded := by
    rw [quiet.latest] at succeeded
    contradiction

theorem Books.insert (books : Books streams reports latest refused id none) (fresh : stream ∉ streams) :
    Books (streams.orderedInsert (· ≤ ·) stream) reports latest refused id (some stream) where
  distinct := by
    rw [(List.perm_orderedInsert (· ≤ ·) stream streams).nodup_iff, List.nodup_cons]
    exact ⟨fresh, books.distinct⟩
  once := books.once
  own entry member := by
    obtain ⟨own, known, -⟩ := books.own entry member
    refine ⟨own, (List.mem_orderedInsert (· ≤ ·)).mpr (.inr known), ?_⟩
    intro same
    rw [Option.some.inj same] at fresh
    exact fresh known
  recorded other member apart := by
    rcases (List.mem_orderedInsert (· ≤ ·)).mp member with same | known
    · exact absurd (congrArg some same.symm) apart
    · exact books.recorded other known (by simp)
  latest := books.latest

/-- The subscribe call of the pending stream succeeds. -/
theorem Books.accept (books : Books streams reports latest refused id (some stream)) (known : stream ∈ streams) :
    Books streams ((id, stream) :: reports) (Function.update latest stream (some true)) refused id none where
  distinct := books.distinct
  once := by
    rw [List.nodup_cons]
    exact ⟨fun member => (books.own _ member).2.2 rfl, books.once⟩
  own entry member := by
    cases List.mem_cons.mp member with
    | inl same => exact ⟨by rw [same], by rw [same]; exact known, by simp⟩
    | inr old => exact ⟨(books.own entry old).1, (books.own entry old).2.1, by simp⟩
  recorded other member _ := by
    by_cases same : other = stream
    · exact .inr (by rw [same]; exact List.mem_cons_self)
    · have recorded := books.recorded other member (fun pending => same (Option.some.inj pending).symm)
      exact recorded.imp_right (List.mem_cons_of_mem _)
  latest other succeeded := by
    by_cases same : other = stream
    · rw [same]
      exact List.mem_cons_self
    · rw [Function.update_of_ne same] at succeeded
      exact List.mem_cons_of_mem _ (books.latest other succeeded)

/-- The subscribe call of the pending stream fails. -/
theorem Books.refuse (books : Books streams reports latest refused id (some stream)) :
    Books streams reports (Function.update latest stream (some false)) (stream :: refused) id none where
  distinct := books.distinct
  once := books.once
  own entry member := ⟨(books.own entry member).1, (books.own entry member).2.1, by simp⟩
  recorded other member _ := by
    by_cases same : other = stream
    · exact .inl (by rw [same]; exact List.mem_cons_self)
    · have recorded := books.recorded other member (fun pending => same (Option.some.inj pending).symm)
      exact recorded.imp_left (List.mem_cons_of_mem _)
  latest other succeeded := by
    by_cases same : other = stream
    · rw [same, Function.update_self] at succeeded
      contradiction
    · rw [Function.update_of_ne same] at succeeded
      exact books.latest other succeeded

/-- A stream of the set is ensured again, without a call. -/
theorem Books.again (books : Books streams reports latest refused id none) (known : stream ∈ streams)
    (succeeds : Bool) (kept : succeeds = true → stream ∉ refused) :
    Books streams reports (Function.update latest stream (some succeeds)) refused id none where
  distinct := books.distinct
  once := books.once
  own := books.own
  recorded := books.recorded
  latest other succeeded := by
    by_cases same : other = stream
    · rw [same, Function.update_self] at succeeded
      rw [same]
      exact (books.recorded stream known (by simp)).resolve_left (kept (Option.some.inj succeeded))
    · rw [Function.update_of_ne same] at succeeded
      exact books.latest other succeeded

/-- Without a refused stream the set is what is subscribed. -/
theorem Books.exact (books : Books streams reports latest [] id none) (entry : Nat × Stream) :
    entry ∈ reports ↔ entry.1 = id ∧ entry.2 ∈ streams := by
  constructor
  · intro member
    exact ⟨(books.own entry member).1, (books.own entry member).2.1⟩
  · rintro ⟨own, known⟩
    have recorded := books.recorded entry.2 known (by simp)
    rw [← own] at recorded
    exact recorded.resolve_left List.not_mem_nil

end

/-! ## The phases of a worker -/

/-- The worker thread before shutdown: it has stored `g_worker_ready` or is about to. -/
def Rising (ready : Bool) (worker : Option Thread) (id : Nat) : Prop :=
  ∃ place, worker = some ⟨id, place⟩ ∧
    if ready then place.Reporting else place = .ready ∨ ∃ context, place = .entering context

def Leaving (state : State) : Place → Prop
  | .loop | .processing | .draining =>
      Books state.subscribedStreams state.reports state.latest [] state.workerThreadId none
  | .unsubscribing left =>
      left.Nodup ∧ state.reports.Nodup ∧
        ∀ entry, entry ∈ state.reports ↔ entry.1 = state.workerThreadId ∧ entry.2 ∈ left
  | .exited => state.reports = []
  | _ => False

/-- Where the holder may stand while no worker runs. -/
def Position.Down : Option Position → Prop
  | none => True
  | some (.entered _) | some .currentContext | some (.anyContext _) | some (.start _ _) | some (.reset _ _)
  | some .unlock => True
  | _ => False

/-- Where the holder may stand while a worker runs, between two subscribe calls. -/
def Position.Up : Option Position → Prop
  | none => True
  | some (.entered _) | some (.subscribe _) | some (.resubscribe [] _) | some .unlock => True
  | _ => False

structure Running (state : State) : Prop where
  started : state.started = true
  going : state.stop = false
  ready : state.workerReady = true
  rising : Rising true state.worker state.workerThreadId

inductive Phase (state : State) : Prop
  | down (stopped : state.started = false) (absent : state.worker = none)
      (quiet : Quiet state.subscribedStreams state.reports state.latest state.refused)
      (place : Position.Down state.holder)
  | spawning (context : Option Context) (next : Next) (held : state.holder = some (.spawn context next))
      (stopped : state.started = false) (going : state.stop = false) (notReady : state.workerReady = false)
      (absent : state.worker = none)
      (quiet : Quiet state.subscribedStreams state.reports state.latest state.refused)
  | spawned (id : Nat) (next : Next) (held : state.holder = some (.identify id next))
      (going : state.stop = false) (rising : Rising state.workerReady state.worker id)
      (quiet : Quiet state.subscribedStreams state.reports state.latest state.refused)
  | waiting (next : Next) (held : state.holder = some (.barrier next)) (started : state.started = true)
      (going : state.stop = false) (rising : Rising state.workerReady state.worker state.workerThreadId)
      (quiet : Quiet state.subscribedStreams state.reports state.latest state.refused)
  | up (running : Running state)
      (books : Books state.subscribedStreams state.reports state.latest state.refused state.workerThreadId none)
      (place : Position.Up state.holder)
  | reporting (stream : Stream) (held : state.holder = some (.report stream)) (running : Running state)
      (known : stream ∈ state.subscribedStreams)
      (books : Books state.subscribedStreams state.reports state.latest state.refused state.workerThreadId
        (some stream))
  | leaving (place : Place) (held : state.holder = some .join) (started : state.started = true)
      (stopping : state.stop = true) (ready : state.workerReady = true)
      (worker : state.worker = some ⟨state.workerThreadId, place⟩) (leaving : Leaving state place)
  | gone (held : state.holder = some .clear) (absent : state.worker = none) (reports : state.reports = [])

theorem Rising.step {ready : Bool} {id : Nat} (rising : Rising ready state.worker id) (flag : state.workerReady = ready)
    (going : state.stop = false) (moved : workerStep state = some left) :
    ∃ place risen, left = { state with workerReady := risen, worker := some ⟨id, place⟩ } ∧
      Rising risen (some ⟨id, place⟩) id ∧ (ready = true → risen = true) := by
  obtain ⟨place, worker, early⟩ := rising
  subst flag
  rw [workerStep, worker] at moved
  cases flag : state.workerReady with
  | true =>
      rw [flag, if_pos rfl] at early
      rcases early with rfl | rfl
      · rw [going] at moved
        cases moved
        exact ⟨.processing, state.workerReady, rfl, ⟨_, rfl, by rw [flag]; exact .inr rfl⟩, fun _ => flag⟩
      · cases moved
        exact ⟨.loop, state.workerReady, rfl, ⟨_, rfl, by rw [flag]; exact .inl rfl⟩, fun _ => flag⟩
  | false =>
      rw [flag, if_neg (by decide)] at early
      rcases early with rfl | ⟨context, rfl⟩
      · cases moved
        exact ⟨.loop, true, rfl, ⟨_, rfl, .inl rfl⟩, fun _ => rfl⟩
      · cases moved
        exact ⟨.ready, state.workerReady, rfl, ⟨_, rfl, by rw [flag]; exact .inl rfl⟩, fun same => by contradiction⟩

theorem Running.step (running : Running state) (moved : workerStep state = some left) :
    Running left ∧ left.holder = state.holder ∧ left.subscribedStreams = state.subscribedStreams ∧
      left.reports = state.reports ∧ left.latest = state.latest ∧ left.refused = state.refused ∧
      left.workerThreadId = state.workerThreadId := by
  obtain ⟨place, risen, rfl, rising, kept⟩ := running.rising.step running.ready running.going moved
  have flag : risen = true := kept rfl
  subst flag
  exact ⟨⟨running.started, running.going, rfl, rising⟩, rfl, rfl, rfl, rfl, rfl, rfl⟩

/-- A worker that leaves unsubscribes one stream after the other. -/
theorem Leaving.step {place : Place} (worker : state.worker = some ⟨state.workerThreadId, place⟩)
    (stopping : state.stop = true) (leaving : Leaving state place) (moved : workerStep state = some left) :
    ∃ next reports, left = { state with reports := reports, worker := some ⟨state.workerThreadId, next⟩ } ∧
      Leaving left next := by
  rw [workerStep, worker] at moved
  cases place with
  | entering context => exact leaving.elim
  | ready => exact leaving.elim
  | loop =>
      rw [stopping] at moved
      cases moved
      exact ⟨.draining, state.reports, rfl, leaving⟩
  | processing =>
      cases moved
      exact ⟨.loop, state.reports, rfl, leaving⟩
  | draining =>
      cases moved
      exact ⟨.unsubscribing state.subscribedStreams, state.reports, rfl, leaving.distinct, leaving.once,
        leaving.exact⟩
  | unsubscribing streams =>
      obtain ⟨distinct, once, exactly⟩ := leaving
      cases streams with
      | nil =>
          cases moved
          refine ⟨.exited, state.reports, rfl, ?_⟩
          refine List.eq_nil_iff_forall_not_mem.mpr fun entry member => ?_
          exact List.not_mem_nil ((exactly entry).mp member).2
      | cons stream rest =>
          cases moved
          refine ⟨.unsubscribing rest, _, rfl, (List.nodup_cons.mp distinct).2, once.erase _, fun entry => ?_⟩
          change entry ∈ state.reports.erase (state.workerThreadId, stream) ↔ _
          rw [once.mem_erase_iff, exactly, List.mem_cons]
          constructor
          · rintro ⟨apart, own, same | member⟩
            · exact absurd (Prod.ext own same) apart
            · exact ⟨own, member⟩
          · rintro ⟨own, member⟩
            refine ⟨?_, own, .inr member⟩
            rintro rfl
            exact (List.nodup_cons.mp distinct).1 member
  | exited => cases moved

theorem Phase.workerStep (phase : Phase state) (moved : workerStep state = some left) : Phase left := by
  cases phase with
  | down stopped absent quiet place =>
      rw [Ascend.workerStep, absent] at moved
      cases moved
  | spawning context next held stopped going notReady absent quiet =>
      rw [Ascend.workerStep, absent] at moved
      cases moved
  | spawned id next held going rising quiet =>
      obtain ⟨place, risen, rfl, rising, -⟩ := rising.step rfl going moved
      exact .spawned id next held going rising quiet
  | waiting next held started going rising quiet =>
      obtain ⟨place, risen, rfl, rising, -⟩ := rising.step rfl going moved
      exact .waiting next held started going rising quiet
  | up running books place =>
      obtain ⟨running, held, streams, reports, latest, refused, id⟩ := running.step moved
      rw [← streams, ← reports, ← latest, ← refused, ← id] at books
      rw [← held] at place
      exact .up running books place
  | reporting stream held running known books =>
      obtain ⟨running, same, streams, reports, latest, refused, id⟩ := running.step moved
      rw [← streams, ← reports, ← latest, ← refused, ← id] at books
      rw [← streams] at known
      exact .reporting stream (same.trans held) running known books
  | leaving place held started stopping ready worker leaving =>
      obtain ⟨next, reports, rfl, leaving⟩ := leaving.step worker stopping moved
      exact .leaving next held started stopping ready rfl leaving
  | gone held absent reports =>
      rw [Ascend.workerStep, absent] at moved
      cases moved

theorem Phase.callStep (phase : Phase state) (free : state.holder = none) (call : Call) :
    Phase (state.go (.entered call)) := by
  cases phase with
  | down stopped absent quiet _ => exact .down stopped absent quiet trivial
  | up running books _ => exact .up ⟨running.started, running.going, running.ready, running.rising⟩ books trivial
  | spawning _ _ held => rw [free] at held; contradiction
  | spawned _ _ held => rw [free] at held; contradiction
  | waiting _ held => rw [free] at held; contradiction
  | reporting _ held => rw [free] at held; contradiction
  | leaving _ held => rw [free] at held; contradiction
  | gone held => rw [free] at held; contradiction

theorem down_step (stopped : state.started = false) (absent : state.worker = none)
    (quiet : Quiet state.subscribedStreams state.reports state.latest state.refused)
    (place : Position.Down state.holder) (moved : holderStep state reply = some left) : Phase left := by
  rw [holderStep] at moved
  cases held : state.holder with
  | none => rw [held] at moved; contradiction
  | some position =>
      rw [held] at place moved
      cases position with
      | entered call =>
          cases call with
          | ensureCallbackWorker context =>
              simp only [stopped, Bool.false_eq_true, if_false] at moved
              split at moved
              · cases moved
                exact .down stopped absent quiet trivial
              · cases moved
                exact .down stopped absent quiet trivial
          | ensureStreamSubscribed stream =>
              simp only [stopped, Bool.false_eq_true, if_false] at moved
              cases moved
              exact .down stopped absent quiet trivial
          | shutdownCallbackWorker =>
              simp only [stopped, Bool.false_eq_true, if_false] at moved
              cases moved
              exact .down stopped absent quiet trivial
      | currentContext =>
          simp only at moved
          split at moved
          · cases moved
            exact .down stopped absent quiet trivial
          · cases moved
            exact .down stopped absent quiet trivial
      | anyContext stream =>
          cases moved
          exact .down stopped absent quiet trivial
      | start context next =>
          simp only [stopped, Bool.false_eq_true, if_false] at moved
          cases moved
          exact .down stopped absent quiet trivial
      | reset context next =>
          cases moved
          exact .spawning context next rfl stopped rfl rfl absent quiet
      | unlock =>
          cases moved
          exact .down stopped absent quiet trivial
      | spawn context next => exact place.elim
      | identify id next => exact place.elim
      | barrier next => exact place.elim
      | resubscribe streams next => cases streams <;> exact place.elim
      | subscribe stream => exact place.elim
      | report stream => exact place.elim
      | join => exact place.elim
      | clear => exact place.elim
      | terminated => exact place.elim

theorem up_step (running : Running state)
    (books : Books state.subscribedStreams state.reports state.latest state.refused state.workerThreadId none)
    (place : Position.Up state.holder) (fine : Permitted state (.holder reply))
    (moved : holderStep state reply = some left) : Phase left := by
  have still (position : Position) : Running (state.go position) :=
    ⟨running.started, running.going, running.ready, running.rising⟩
  have started := running.started
  rw [holderStep] at moved
  rw [Permitted] at fine
  cases held : state.holder with
  | none => rw [held] at moved; contradiction
  | some position =>
      rw [held] at place moved fine
      cases position with
      | entered call =>
          cases call with
          | ensureCallbackWorker context =>
              simp only [started, if_true] at moved
              cases moved
              exact .up (still .unlock) books trivial
          | ensureStreamSubscribed stream =>
              simp only [started, if_true] at moved
              cases moved
              exact .up (still (.subscribe stream)) books trivial
          | shutdownCallbackWorker =>
              simp only [started, if_true] at moved
              cases moved
              obtain ⟨place, worker, reporting⟩ := running.rising
              have none : state.refused = [] := fine
              rw [none] at books
              refine .leaving place rfl rfl rfl running.ready worker ?_
              rcases reporting with rfl | rfl
              · exact books
              · exact books
      | resubscribe streams next =>
          cases streams with
          | nil =>
              cases moved
              refine .up (still next.position) books ?_
              cases next <;> trivial
          | cons stream rest => exact place.elim
      | subscribe stream =>
          cases stream with
          | none =>
              cases moved
              exact .up (still .unlock) books trivial
          | some stream =>
              simp only at moved fine
              split at moved
              · rename_i known
                cases moved
                exact .up ⟨started, running.going, running.ready, running.rising⟩
                  (books.again known reply.succeeds fine) trivial
              · rename_i fresh
                simp only [started] at moved
                cases moved
                exact .reporting stream rfl ⟨rfl, running.going, running.ready, running.rising⟩
                  ((List.mem_orderedInsert (· ≤ ·)).mpr (.inl rfl)) (books.insert fresh)
      | unlock =>
          cases moved
          exact .up ⟨started, running.going, running.ready, running.rising⟩ books trivial
      | currentContext => exact place.elim
      | anyContext stream => exact place.elim
      | start context next => exact place.elim
      | reset context next => exact place.elim
      | spawn context next => exact place.elim
      | identify id next => exact place.elim
      | barrier next => exact place.elim
      | report stream => exact place.elim
      | join => exact place.elim
      | clear => exact place.elim
      | terminated => exact place.elim

theorem Phase.holderStep (phase : Phase state) (fine : Permitted state (.holder reply))
    (moved : holderStep state reply = some left) : Phase left := by
  cases phase with
  | down stopped absent quiet place => exact down_step stopped absent quiet place moved
  | spawning context next held stopped going notReady absent quiet =>
      simp only [Ascend.holderStep, held, absent] at moved
      cases moved
      refine .spawned reply.threadId next rfl going ⟨.entering context, rfl, ?_⟩ quiet
      rw [State.go, notReady]
      exact .inr ⟨context, rfl⟩
  | spawned id next held going rising quiet =>
      simp only [Ascend.holderStep, held] at moved
      cases moved
      exact .waiting next rfl rfl going rising quiet
  | waiting next held started going rising quiet =>
      simp only [Ascend.holderStep, held] at moved
      split at moved
      · rename_i ready
        cases moved
        rw [ready] at rising
        refine .up ⟨started, going, ready, rising⟩ (quiet.books _) ?_
        rw [State.go, quiet.streams]
        trivial
      · cases moved
        exact .waiting next held started going rising quiet
  | up running books place => exact up_step running books place fine moved
  | reporting stream held running known books =>
      simp only [Ascend.holderStep, held] at moved
      cases moved
      rw [State.subscribeReport]
      split
      · rename_i succeeds
        rw [succeeds]
        exact .up ⟨running.started, running.going, running.ready, running.rising⟩ (books.accept known) trivial
      · rename_i fails
        rw [Bool.eq_false_of_not_eq_true fails]
        exact .up ⟨running.started, running.going, running.ready, running.rising⟩ books.refuse trivial
  | leaving place held started stopping ready worker leaving =>
      simp only [Ascend.holderStep, held, worker] at moved
      split at moved
      · rename_i same
        cases moved
        rw [same] at leaving
        exact .gone rfl rfl leaving
      · cases moved
  | gone held absent reports =>
      simp only [Ascend.holderStep, held] at moved
      cases moved
      exact .down rfl absent ⟨rfl, reports, fun _ => rfl, rfl⟩ trivial

/-! ## Every run -/

def Early (worker : Option Thread) : Prop :=
  ∀ thread, worker = some thread → thread.place ≠ .exited ∧ ∀ left, thread.place ≠ .unsubscribing left

theorem Rising.early {ready : Bool} {id : Nat} (rising : Rising ready worker id) : Early worker := by
  obtain ⟨place, rfl, before⟩ := rising
  rintro thread same
  cases same
  cases ready with
  | true =>
      rcases before with rfl | rfl
      · exact ⟨by simp, by simp⟩
      · exact ⟨by simp, by simp⟩
  | false =>
      rcases before with rfl | ⟨context, rfl⟩
      · exact ⟨by simp, by simp⟩
      · exact ⟨by simp, by simp⟩

theorem exact_of_quiet (quiet : Quiet state.subscribedStreams state.reports state.latest state.refused)
    (early : Early state.worker) (place : ∀ position, state.holder = some position → ¬ position.Subscribes) :
    Exact state where
  barrier position held subscribes := absurd subscribes (place position held)
  ready entry member := by
    rw [quiet.reports] at member
    contradiction
  latest _ _ stream succeeded := by
    rw [quiet.latest] at succeeded
    contradiction
  once := by simp [quiet.reports]
  unsubscribed id stream left worker := absurd rfl ((early _ worker).2 (stream :: left))
  exited id worker := absurd rfl (early _ worker).1

theorem Running.exact {pending : Option Stream} (running : Running state)
    (books : Books state.subscribedStreams state.reports state.latest state.refused state.workerThreadId pending) :
    Exact state := by
  have early := running.rising.early
  obtain ⟨place, worker, reporting⟩ := running.rising
  exact
    { barrier := fun _ _ _ => ⟨running.ready, _, worker, reporting, rfl⟩
      ready := fun entry member => ⟨running.ready, _, worker, (books.own entry member).1.symm⟩
      latest := fun _ _ stream succeeded => ⟨_, worker, reporting, books.latest stream succeeded⟩
      once := books.once
      unsubscribed := fun _ stream left same => absurd rfl ((early _ same).2 (stream :: left))
      exited := fun _ same => absurd rfl (early _ same).1 }

theorem Leaving.exact {place : Place} (held : state.holder = some .join) (ready : state.workerReady = true)
    (worker : state.worker = some ⟨state.workerThreadId, place⟩) (leaving : Leaving state place) :
    Exact state where
  barrier position same subscribes := by
    rw [held] at same
    cases same
    exact subscribes.elim
  ready entry member := by
    refine ⟨ready, _, worker, ?_⟩
    cases place with
    | entering context => exact leaving.elim
    | ready => exact leaving.elim
    | loop => exact (Books.own leaving entry member).1.symm
    | processing => exact (Books.own leaving entry member).1.symm
    | draining => exact (Books.own leaving entry member).1.symm
    | unsubscribing left => exact ((leaving.2.2 entry).mp member).1.symm
    | exited =>
        have none : state.reports = [] := leaving
        rw [none] at member
        contradiction
  latest apart := absurd held apart
  once := by
    cases place with
    | entering context => exact leaving.elim
    | ready => exact leaving.elim
    | loop => exact Books.once leaving
    | processing => exact Books.once leaving
    | draining => exact Books.once leaving
    | unsubscribing left => exact leaving.2.1
    | exited =>
        have none : state.reports = [] := leaving
        simp [none]
  unsubscribed id stream left same := by
    rw [worker] at same
    cases same
    exact ⟨rfl, (leaving.2.2 _).mpr ⟨rfl, List.mem_cons_self⟩⟩
  exited id same := by
    rw [worker] at same
    cases same
    exact leaving

theorem Position.Down.not_subscribes (down : Position.Down (some position)) : ¬ position.Subscribes := by
  intro subscribes
  cases position with
  | resubscribe streams next => cases streams <;> exact down.elim
  | report stream => exact down.elim
  | _ => exact subscribes.elim

theorem Phase.exact (phase : Phase state) : Exact state := by
  have absent_early (absent : state.worker = none) : Early state.worker := by
    intro thread same
    rw [absent] at same
    contradiction
  cases phase with
  | down stopped absent quiet place =>
      refine exact_of_quiet quiet (absent_early absent) fun position held => ?_
      rw [held] at place
      exact place.not_subscribes
  | spawning context next held stopped going notReady absent quiet =>
      refine exact_of_quiet quiet (absent_early absent) fun position same subscribes => ?_
      rw [held] at same
      cases same
      exact subscribes
  | spawned id next held going rising quiet =>
      refine exact_of_quiet quiet rising.early fun position same subscribes => ?_
      rw [held] at same
      cases same
      exact subscribes
  | waiting next held started going rising quiet =>
      refine exact_of_quiet quiet rising.early fun position same subscribes => ?_
      rw [held] at same
      cases same
      exact subscribes
  | up running books place => exact running.exact books
  | reporting stream held running known books => exact running.exact books
  | leaving place held started stopping ready worker leaving => exact leaving.exact held ready worker
  | gone held absent reports =>
      exact
        { barrier := by
            intro position same subscribes
            rw [held] at same
            cases same
            exact subscribes.elim
          ready := by simp [reports]
          latest := fun _ apart => absurd held apart
          once := by simp [reports]
          unsubscribed := by simp [absent]
          exited := by simp [absent] }

theorem phase_of_reachable (reached : machine.ReachableBy Permitted state) : Phase state := by
  induction reached with
  | initial starts =>
      rw [starts]
      exact .down rfl rfl ⟨rfl, rfl, fun _ => rfl, rfl⟩ trivial
  | @step before action left _ fine moved induction =>
      cases action with
      | call call =>
          change step before (.call call) = some left at moved
          rw [step] at moved
          split at moved
          case h_1 free =>
              cases moved
              exact induction.callStep free call
          case h_2 => contradiction
      | holder reply => exact induction.holderStep fine moved
      | worker => exact induction.workerStep moved

/-- Subscriptions are exact in every run that does not come back to a stream that ACL refused
to subscribe. -/
theorem subscriptions_exact (reached : machine.ReachableBy Permitted state) : Exact state :=
  (phase_of_reachable reached).exact

def granted : Reply := ⟨true, some 1, 7⟩

/-- The first `ensure_stream_subscribed` of a stream, which starts the worker: all steps up to the
subscribe call. -/
def firstEnsure (stream : Stream) : List Action :=
  .call (.ensureStreamSubscribed (some stream)) :: List.replicate 6 (.holder granted) ++ [.worker, .worker] ++
    List.replicate 3 (.holder granted)

theorem subscriptions_exact_granted :
    ∃ state, state.latest 5 = some true ∧ state.holder = none ∧ state.reports = [(7, 5)] ∧ Exact state := by
  have run := (machine.restrict Permitted).exists_reachable_of_run State.initial
    (firstEnsure 5 ++ [.holder granted, .holder granted]) rfl
    (fun state => state.latest 5 = some true ∧ state.holder = none ∧ state.reports = [(7, 5)]) (by decide +kernel)
  obtain ⟨state, reached, passed⟩ := run
  obtain ⟨latest, free, reports⟩ := of_decide_eq_true passed
  exact ⟨state, latest, free, reports, subscriptions_exact (Machine.reachableBy_of_restrict reached)⟩

/-- The stream of a failed call is never subscribed, though ACL would accept it now. -/
theorem refused_stream_lost :
    ∃ state, machine.Reachable state ∧ state.holder = none ∧ state.latest 5 = some true ∧ state.reports = [] ∧
      ¬ Exact state := by
  have run := machine.exists_reachable_of_run State.initial
    (firstEnsure 5 ++ [.holder { granted with succeeds := false }, .holder granted] ++
      [.call (.ensureStreamSubscribed (some 5)), .holder granted, .holder granted, .holder granted]) rfl
    (fun state => state.latest 5 = some true ∧ state.holder = none ∧ state.reports = []) (by decide +kernel)
  obtain ⟨state, reached, passed⟩ := run
  obtain ⟨latest, free, reports⟩ := of_decide_eq_true passed
  refine ⟨state, reached, free, latest, reports, fun exactly => ?_⟩
  obtain ⟨thread, -, -, member⟩ := exactly.latest (by simp [free]) (by simp [free]) 5 latest
  rw [reports] at member
  contradiction

end KtKernel.Ascend
