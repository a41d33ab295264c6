import KtKernel.Experts.PathsInvariant

namespace KtKernel.Experts.Paths

open KtKernel.Data

variable {batch width : Nat} {R W V : Type} {layerIdx : Nat → Nat} {path : Path}
  {model : Model batch width R W V}

/-! ## Who wrote a slot last -/

theorem lastCall_lt (found : lastCall layerIdx layer calls = some call) :
    call < calls ∧ layerIdx call = layer := by
  induction calls with
  | zero => contradiction
  | succ calls induction =>
      rw [lastCall] at found
      split at found
      · cases found
        exact ⟨Nat.lt_succ_self _, ‹_›⟩
      · obtain ⟨early, own⟩ := induction found
        exact ⟨Nat.lt_succ_of_lt early, own⟩

theorem previousCall_lt (found : previousCall layerIdx call = some previous) :
    previous < call ∧ layerIdx previous + 1 = layerIdx call := by
  simp only [previousCall] at found
  split at found
  · contradiction
  · rename_i layer own
    obtain ⟨early, same⟩ := lastCall_lt found
    exact ⟨early, by rw [same, own]⟩

theorem lastWrite_ne_never (early : call < calls) (queued : tasks call = true) :
    lastWrite layerIdx tasks slot calls ≠ .never := by
  induction calls with
  | zero => contradiction
  | succ calls induction =>
      rw [lastWrite]
      split
      · simp
      · split
        · simp
        · rename_i none
          apply induction
          rcases Nat.lt_succ_iff_lt_or_eq.mp early with before | rfl
          · exact before
          · contradiction

theorem lastWrite_immediate (written : lastWrite layerIdx tasks slot calls = .immediate call) :
    call < calls ∧ slotOf layerIdx call = slot := by
  induction calls with
  | zero => contradiction
  | succ calls induction =>
      rw [lastWrite] at written
      split at written
      · cases written
        exact ⟨Nat.lt_succ_self _, ‹_›⟩
      · split at written
        · contradiction
        · obtain ⟨early, own⟩ := induction written
          exact ⟨Nat.lt_succ_of_lt early, own⟩

/-- Between a deferred task that wrote last and the end there are only calls of its
own parity without a deferred task. -/
theorem lastWrite_deferred (written : lastWrite layerIdx tasks slot calls = .deferred call) :
    slotOf layerIdx call ≠ slot ∧ tasks call = true ∧
      (call + 1 = calls ∨ (slotOf layerIdx (call + 1) ≠ slot ∧ tasks (call + 1) = false)) := by
  induction calls with
  | zero => contradiction
  | succ calls induction =>
      rw [lastWrite] at written
      split at written
      · contradiction
      · rename_i other
        split at written
        · rename_i queued
          cases written
          exact ⟨other, queued, .inl rfl⟩
        · rename_i none
          obtain ⟨own, queued, rfl | later⟩ := induction written
          · exact ⟨own, queued, .inr ⟨other, by simpa using none⟩⟩
          · exact ⟨own, queued, .inr later⟩

theorem lastWrite_fewer {fewer more : Nat → Bool} (implies : ∀ call, fewer call = true → more call = true)
    (written : lastWrite layerIdx more slot calls = .immediate call) :
    lastWrite layerIdx fewer slot calls = .immediate call := by
  induction calls with
  | zero => contradiction
  | succ calls induction =>
      rw [lastWrite] at written ⊢
      split at written
      · rename_i same
        rw [if_pos same]
        exact written
      · rename_i other
        rw [if_neg other]
        split at written
        · contradiction
        · rename_i none
          rw [if_neg (fun some => none (implies calls some))]
          exact induction written

variable [AddCommMonoid V]

theorem result_eq (call : Nat) : result layerIdx path model call =
    if incrementalAt layerIdx path model call then
      sum (contents layerIdx model (schedule layerIdx path model call) (slotOf layerIdx call))
        (some (model.immediate call))
    else some (model.immediate call) := by
  rw [result, contents_append, effect]
  have target : (immediateTask layerIdx path model call).target layerIdx = slotOf layerIdx call := rfl
  rw [target, Function.update_self]
  rfl

/-- The slots after the first `calls` hold what their last writers left. -/
theorem contents_schedule (calls : Nat) (small : slot < 2) :
    contents layerIdx model (schedule layerIdx path model calls) slot =
      match lastWrite layerIdx (queues path model) slot calls with
      | .never => none
      | .immediate call => result layerIdx path model call
      | .deferred call => known layerIdx model (deferredTask call) := by
  induction calls with
  | zero => rfl
  | succ calls induction =>
      have own := slotOf_lt layerIdx calls
      have first : schedule layerIdx path model (calls + 1) =
          schedule layerIdx path model calls ++ [immediateTask layerIdx path model calls] ++
            if queues path model calls then [deferredTask calls] else [] := by
        rw [schedule, tasksOf, List.append_cons]
      rw [first, lastWrite]
      by_cases same : slotOf layerIdx calls = slot
      · subst same
        rw [if_pos rfl]
        split
        · rw [contents_deferredTask]
          rfl
        · rw [List.append_nil]
          rfl
      · rw [if_neg same]
        have elsewhere : contents layerIdx model
              (schedule layerIdx path model calls ++ [immediateTask layerIdx path model calls]) slot =
            contents layerIdx model (schedule layerIdx path model calls) slot := by
          rw [contents_append, effect]
          exact Function.update_of_ne (Ne.symm same) _ _
        cases queued : queues path model calls with
        | true =>
            have target : (deferredTask calls).target layerIdx = slot := by
              simp only [Task.target, deferredTask, if_true, bufferDepth]
              omega
            rw [if_pos rfl, if_pos rfl, contents_append, effect, target, Function.update_self]
            rfl
        | false =>
            rw [if_neg Bool.false_ne_true, if_neg Bool.false_ne_true, List.append_nil, elsewhere, induction]

/-! ## Equal results -/

omit [AddCommMonoid V] in
theorem queues_pinned (defers : model.defers call = true) :
    queues .pinned model call = !idle model call := by
  simp only [queues, idle, defers, Bool.true_and, Bool.not_not]

omit [AddCommMonoid V] in
theorem queues_fewer (call : Nat) (queued : queues .pinned model call = true) :
    queues .submitted model call = true :=
  (Bool.and_eq_true _ _ ▸ queued).1

omit [AddCommMonoid V] in
theorem incrementalAt_of_previous (found : previousCall layerIdx call = some previous) :
    incrementalAt layerIdx path model call = queues path model previous := by
  simp only [incrementalAt, found]

theorem known_deferredTask (stays : kept layerIdx model call = true) :
    known layerIdx model (deferredTask call) = some (model.deferred call) :=
  if_pos stays

/-- A call that adds to nothing returns what its immediate experts give. -/
theorem result_fresh (alone : incrementalAt layerIdx path model call = false) :
    result layerIdx path model call = some (model.immediate call) := by
  rw [result_eq, alone, if_neg Bool.false_ne_true]

theorem result_added (adds : incrementalAt layerIdx path model call = true)
    (held : contents layerIdx model (schedule layerIdx path model call) (slotOf layerIdx call) = some carried) :
    result layerIdx path model call = some (carried + model.immediate call) := by
  rw [result_eq, adds, if_pos rfl, held, sum]

/-- The deferred task that the submitted path alone has queued has written zeros. -/
theorem result_idle (found : previousCall layerIdx call = some previous) (defers : model.defers previous = true)
    (written : lastWrite layerIdx model.defers (slotOf layerIdx call) call = .deferred writer)
    (quiet : idle model writer = true) :
    result layerIdx .submitted model call = some (model.immediate call) := by
  obtain ⟨other, -, next⟩ := lastWrite_deferred written
  have stays : kept layerIdx model writer = true := by
    rcases next with rfl | ⟨_, none⟩
    · simp [kept, other.symm]
    · simp [kept, quiet, none]
  have held : contents layerIdx model (schedule layerIdx .submitted model call) (slotOf layerIdx call) =
      some 0 := by
    rw [contents_schedule call (slotOf_lt layerIdx call), show queues .submitted model = model.defers from rfl,
      written]
    exact (known_deferredTask stays).trans (by rw [deferred_idle quiet])
  have adds : incrementalAt layerIdx .submitted model call = true :=
    (incrementalAt_of_previous found).trans defers
  rw [result_added adds held, zero_add]

/-- Both paths have queued the deferred task just before the call. -/
theorem contents_after_deferred (queued : queues path model writer = true)
    (other : slotOf layerIdx writer ≠ slotOf layerIdx (writer + 1)) :
    contents layerIdx model (schedule layerIdx path model (writer + 1)) (slotOf layerIdx (writer + 1)) =
      some (model.deferred writer) := by
  have stays : kept layerIdx model writer = true := by simp [kept, other.symm]
  rw [contents_schedule _ (slotOf_lt layerIdx _), lastWrite, if_neg other, if_pos queued]
  exact known_deferredTask stays

theorem results_agree (steady : ∀ earlier ≤ call, Steady layerIdx model earlier) :
    ∃ value, result layerIdx .pinned model call = some value ∧
      result layerIdx .submitted model call = some value := by
  induction call using Nat.strong_induction_on with
  | _ call induction =>
      have own := steady call le_rfl
      rw [Steady] at own
      cases found : previousCall layerIdx call with
      | none =>
          have alone (path : Path) : incrementalAt layerIdx path model call = false := by
            simp only [incrementalAt, found]
          exact ⟨_, result_fresh (alone _), result_fresh (alone _)⟩
      | some previous =>
          rw [found] at own
          cases defers : model.defers previous with
          | false =>
              have alone (path : Path) : incrementalAt layerIdx path model call = false := by
                rw [incrementalAt_of_previous found]
                cases path <;> simp [queues, defers]
              exact ⟨_, result_fresh (alone _), result_fresh (alone _)⟩
          | true =>
              have own := own defers
              have submits : incrementalAt layerIdx .submitted model call = true :=
                (incrementalAt_of_previous found).trans defers
              have pins : incrementalAt layerIdx .pinned model call = !idle model previous :=
                (incrementalAt_of_previous found).trans (queues_pinned defers)
              cases written : lastWrite layerIdx model.defers (slotOf layerIdx call) call with
              | never =>
                  exact absurd written (lastWrite_ne_never (previousCall_lt found).1 defers)
              | immediate writer =>
                  rw [written] at own
                  obtain ⟨early, same⟩ := lastWrite_immediate written
                  obtain ⟨value, first, second⟩ := induction writer early
                    (fun earlier before => steady earlier (before.trans early.le))
                  have held : contents layerIdx model (schedule layerIdx .pinned model call)
                      (slotOf layerIdx call) = some value := by
                    rw [contents_schedule call (slotOf_lt layerIdx call), lastWrite_fewer queues_fewer written]
                    exact first
                  have heldToo : contents layerIdx model (schedule layerIdx .submitted model call)
                      (slotOf layerIdx call) = some value := by
                    rw [contents_schedule call (slotOf_lt layerIdx call),
                      show queues .submitted model = model.defers from rfl, written]
                    exact second
                  exact ⟨_, result_added (pins.trans (by rw [own, Bool.not_false])) held, result_added submits heldToo⟩
              | deferred writer =>
                  rw [written] at own
                  obtain ⟨alike, next⟩ := own
                  cases quiet : idle model writer with
                  | true =>
                      have alone := pins.trans (by rw [← alike, quiet, Bool.not_true])
                      exact ⟨_, result_fresh alone, result_idle found defers written quiet⟩
                  | false =>
                      obtain rfl := next quiet
                      obtain ⟨other, deferring, -⟩ := lastWrite_deferred written
                      have queued : queues .pinned model writer = true := by
                        rw [queues_pinned deferring, quiet]
                        rfl
                      exact ⟨_,
                        result_added (pins.trans (by rw [← alike, quiet, Bool.not_false])) (contents_after_deferred queued other),
                        result_added submits (contents_after_deferred deferring other)⟩

/-! ## Every call returns -/

section

variable {state after : State batch width R W V}

/-- What is left to do: stages, copies, and two steps for every queued task. -/
def stageRank : Pipeline.Stage → Nat
  | .prepare => 20
  | .wait => 15
  | .submit => 14
  | .clearFlag => 11
  | .waitDeferred => 10
  | .submitDeferred => 9
  | .raiseFlag => 6
  | .sync => 5
  | .copyOutput => 4

def State.remaining (state : State batch width R W V) (calls : Nat) : Nat :=
  40 * (calls - state.call) + stageRank state.stage + state.device.length + 2 * state.queue.length +
    if state.loaded.isSome then 0 else 1

/-- Only the calls of the sequence are begun. -/
def Within (model : Model batch width R W V) (state : State batch width R W V) : Prop :=
  state.call ≤ model.layers ∧ (state.stage ≠ .prepare → state.call < model.layers)

omit [AddCommMonoid V] in
/-- The host queues at most four copies or one task in a stage. -/
theorem Within.hostStep (within : Within model state)
    (moved : hostStep layerIdx path model state = some after) :
    Within model after ∧ after.remaining model.layers < state.remaining model.layers := by
  obtain ⟨bound, begun⟩ := within
  cases stage : state.stage with
  | prepare =>
      simp only [Paths.hostStep, stage] at moved
      split at moved
      · rename_i early
        cases moved
        refine ⟨⟨bound, fun _ => early⟩, ?_⟩
        have copies : (if model.defers state.call then [Pipeline.Copy.deferredIds state.call] else []).length ≤ 1 := by
          split <;> simp
        simp only [State.remaining, stage, stageRank, List.length_append, List.length_cons, List.length_nil]
        omega
      · contradiction
  | wait =>
      simp only [Paths.hostStep, stage] at moved
      split at moved
      · cases moved
        exact ⟨⟨bound, fun _ => begun (by simp [stage])⟩, by simp only [State.remaining, stage, stageRank]; omega⟩
      · contradiction
  | clearFlag =>
      simp only [Paths.hostStep, stage, Option.some.injEq] at moved
      subst moved
      refine ⟨⟨bound, fun _ => begun (by simp [stage])⟩, ?_⟩
      simp only [State.remaining, stage]
      split
      · cases path <;> simp only [stageRank] <;> omega
      · simp only [stageRank]
        omega
  | waitDeferred =>
      simp only [Paths.hostStep, stage] at moved
      split at moved
      · cases moved
        exact ⟨⟨bound, fun _ => begun (by simp [stage])⟩, by simp only [State.remaining, stage, stageRank]; omega⟩
      · contradiction
  | sync =>
      simp only [Paths.hostStep, stage] at moved
      split at moved
      · cases moved
        exact ⟨⟨bound, fun _ => begun (by simp [stage])⟩, by simp only [State.remaining, stage, stageRank]; omega⟩
      · contradiction
  | copyOutput =>
      simp only [Paths.hostStep, stage, Option.some.injEq] at moved
      subst moved
      have early := begun (by simp [stage])
      refine ⟨⟨early, fun prepared => by contradiction⟩, ?_⟩
      simp only [State.remaining, stage, stageRank, List.length_append, List.length_cons, List.length_nil]
      omega
  | _ =>
      simp only [Paths.hostStep, stage, Option.some.injEq] at moved
      subst moved
      refine ⟨⟨bound, fun _ => begun (by simp [stage])⟩, ?_⟩
      simp only [State.remaining, stage, stageRank, List.length_append, List.length_cons, List.length_nil]
      omega

theorem Within.step (within : Within model state) (moved : step layerIdx path model state action = some after) :
    Within model after ∧ after.remaining model.layers < state.remaining model.layers := by
  cases action with
  | host => exact within.hostStep moved
  | device =>
      simp only [Paths.step, deviceStep] at moved
      split at moved
      · contradiction
      all_goals
        rename_i queued
        cases moved
        refine ⟨within, ?_⟩
        simp only [State.remaining, queued, List.length_cons]
        omega
  | load =>
      simp only [Paths.step] at moved
      split at moved
      · rename_i idle
        cases moved
        refine ⟨within, ?_⟩
        simp only [State.remaining, idle, Option.isSome_some, Option.isSome_none, if_true, Bool.false_eq_true, if_false]
        omega
      · contradiction
  | store =>
      simp only [Paths.step] at moved
      split at moved
      · rename_i queue loaded
        cases moved
        refine ⟨within, ?_⟩
        simp only [State.remaining, queue, loaded, List.length_cons, Option.isSome_some, Option.isSome_none,
          if_true, Bool.false_eq_true, if_false]
        omega
      · contradiction

/-- Before the last copy has run something can move. -/
theorem moves_on (unfinished : state.call < model.layers ∨ state.device ≠ []) :
    ∃ action after, step layerIdx path model state action = some after := by
  by_cases busy : state.device = []
  · have early : state.call < model.layers := unfinished.resolve_right (fun some => some busy)
    by_cases waits : state.queue = []
    · refine ⟨.host, ?_⟩
      cases stage : state.stage <;> simp [step, hostStep, stage, early, busy, waits]
    · obtain ⟨task, rest, queue⟩ := List.exists_cons_of_ne_nil waits
      cases loaded : state.loaded with
      | none => exact ⟨.load, _, by simp only [step, queue, loaded]; rfl⟩
      | some value => exact ⟨.store, _, by simp only [step, queue, loaded]; rfl⟩
  · obtain ⟨copy, rest, queued⟩ := List.exists_cons_of_ne_nil busy
    refine ⟨.device, ?_⟩
    cases copy <;> simp [step, deviceStep, queued]

/-- A run can always be carried on until every call has its result. -/
theorem runs_to_end (within : Within model state) : ∃ actions after,
    (machine layerIdx path model).run state actions = some after ∧ after.call = model.layers ∧
      after.device = [] := by
  induction remaining : state.remaining model.layers using Nat.strong_induction_on generalizing state with
  | _ remaining induction =>
      by_cases unfinished : state.call < model.layers ∨ state.device ≠ []
      · obtain ⟨action, next, moved⟩ := moves_on unfinished
        obtain ⟨kept, less⟩ := within.step moved
        obtain ⟨actions, after, ran, ended⟩ := induction _ (remaining ▸ less) kept rfl
        refine ⟨action :: actions, after, ?_, ended⟩
        rw [Machine.run, show (machine layerIdx path model).step state action = some next from moved]
        exact ran
      · simp only [not_or, not_lt, ne_eq, not_not] at unfinished
        exact ⟨[], state, rfl, le_antisymm within.1 unfinished.1, unfinished.2⟩

theorem within_of_reachable (reached : (machine layerIdx path model).Reachable state) : Within model state := by
  induction reached with
  | initial starts =>
      obtain ⟨slots, output, rfl⟩ := starts
      exact ⟨Nat.zero_le _, fun prepared => by contradiction⟩
  | step _ moved within => exact (within.step moved).1

end

section

variable {pinned submitted : State batch width R W V}

/-- What both paths return for a call is the same while the calls so far are steady. -/
theorem same_results (pinnedInv : Inv layerIdx .pinned model pinned)
    (submittedInv : Inv layerIdx .submitted model submitted)
    (steady : ∀ earlier ≤ call, Steady layerIdx model earlier) (first : pinned.results call = some value)
    (second : submitted.results call = some other) : value = other := by
  obtain ⟨expected, own, alike⟩ := results_agree steady
  rw [pinnedInv.left call value first expected own, submittedInv.left call other second expected alike]

/-- The flags differ where the last call of a layer may defer and defers nothing. -/
theorem flags_agree (pinnedInv : Inv layerIdx .pinned model pinned)
    (submittedInv : Inv layerIdx .submitted model submitted) (same : pinned.call = submitted.call)
    (pinnedDone : pinned.stage = .prepare) (submittedDone : submitted.stage = .prepare) (layer : Nat) :
    pinned.hasPendingDeferred layer = (submitted.hasPendingDeferred layer &&
      !(lastCall layerIdx layer submitted.call).any (idle model)) := by
  rw [pinnedInv.flags layer (.inr (.inl pinnedDone)), submittedInv.flags layer (.inr (.inl submittedDone)),
    same, flagAfter, flagAfter]
  cases lastCall layerIdx layer submitted.call with
  | none => rfl
  | some call =>
      simp only [queues, idle, Option.any_some]
      cases model.defers call <;> simp

/-- Both paths return every call; what they return for a call, and the flags they leave. -/
theorem paths_agree (pinnedReached : (machine layerIdx .pinned model).Reachable pinned)
    (submittedReached : (machine layerIdx .submitted model).Reachable submitted) :
    (∀ call value other, (∀ earlier ≤ call, Steady layerIdx model earlier) →
        pinned.results call = some value → submitted.results call = some other → value = other) ∧
      (pinned.call = submitted.call → pinned.stage = .prepare → submitted.stage = .prepare →
        ∀ layer, pinned.hasPendingDeferred layer = (submitted.hasPendingDeferred layer &&
          !(lastCall layerIdx layer submitted.call).any (idle model))) ∧
      (∃ actions after, (machine layerIdx .pinned model).run pinned actions = some after ∧
        ∀ call < model.layers, (after.results call).isSome = true) ∧
      ∃ actions after, (machine layerIdx .submitted model).run submitted actions = some after ∧
        ∀ call < model.layers, (after.results call).isSome = true := by
  have pinnedInv := inv_of_reachable pinnedReached
  have submittedInv := inv_of_reachable submittedReached
  have returns (path : Path) (state : State batch width R W V)
      (reached : (machine layerIdx path model).Reachable state) :
      ∃ actions after, (machine layerIdx path model).run state actions = some after ∧
        ∀ call < model.layers, (after.results call).isSome = true := by
    obtain ⟨actions, after, ran, ended, quiet⟩ := runs_to_end (within_of_reachable reached)
    have inv := inv_of_reachable (reached.run ran)
    refine ⟨actions, after, ran, fun call early => ?_⟩
    cases missing : after.results call with
    | some value => rfl
    | none =>
        have waits := inv.copied call (ended ▸ early) missing
        rw [quiet] at waits
        contradiction
  exact ⟨fun call value other steady => same_results pinnedInv submittedInv steady,
    flags_agree pinnedInv submittedInv, returns .pinned pinned pinnedReached,
    returns .submitted submitted submittedReached⟩

end

/-! ## A layer that may defer and does not -/

/-- The better scored of two experts. -/
def better (scores : Fin 2 → Fin 2 → Int) (count : Nat) (token : Fin 2) : List (Fin 2) :=
  if 1 < count then [0, 1] else if scores token 1 ≤ scores token 0 then [0] else [1]

/-- Each of two tokens protects one of the experts 1 and 2, so that layer 0 with
one deferred expert a token defers none; the other layers may not defer. -/
def sharedExperts : Model 2 2 Int Int Int where
  layers := 3
  numExperts := 4
  topk := better
  expert layer hidden id weight := hidden + weight * (id + layer)
  hiddenStates call token := 10 * call + token
  topkIds _ token index := if token = index then 1 else 2
  topkWeights _ _ index := 9 - index
  maxDeferredExpertsPerToken call := if call = 0 then 1 else 0
  inRange := by
    intro _ token index
    split <;> decide

/-- The layers of three calls: the second layer runs twice. -/
def repeated (call : Nat) : Nat :=
  min call 1

def quietCall (copies : Nat) : List Action :=
  .host :: List.replicate copies .device ++ [.host, .host, .host, .load, .store, .host, .host]

/-- With the deferred task of the submitted path, which runs after the results are queued. -/
def deferringCall (copies : Nat) : List Action :=
  .host :: List.replicate copies .device ++
    [.host, .host, .host, .host, .host, .host, .load, .store, .host, .host, .load, .store]

def pinnedSchedule : List Action :=
  quietCall 4 ++ quietCall 4 ++ quietCall 4 ++ [.device]

def submittedSchedule : List Action :=
  deferringCall 4 ++ quietCall 4 ++ quietCall 4 ++ [.device]

def start : State 2 2 Int Int Int where
  slots _ := ⟨fun _ => 0, fun _ _ => 0, fun _ _ => 0, fun _ _ => -1⟩
  output _ _ := 0

/-- What the two paths return for one call, seen at the first token. -/
def returned (call : Nat) (state : State 2 2 Int Int Int) : Option Int :=
  (state.results call).map (· 0)

/-- The second layer follows the first: both paths return the same for it. -/
theorem second_layer_agrees : ∃ pinned submitted,
    (machine repeated .pinned sharedExperts).Reachable pinned ∧
      (machine repeated .submitted sharedExperts).Reachable submitted ∧
      ∃ value, pinned.results 1 = some value ∧ submitted.results 1 = some value := by
  obtain ⟨pinned, pinnedReached, first⟩ := Machine.exists_reachable_of_run
    (machine repeated .pinned sharedExperts) start pinnedSchedule ⟨_, _, rfl⟩
    (fun state => (state.results 1).isSome) (by decide +kernel)
  obtain ⟨submitted, submittedReached, second⟩ := Machine.exists_reachable_of_run
    (machine repeated .submitted sharedExperts) start submittedSchedule ⟨_, _, rfl⟩
    (fun state => (state.results 1).isSome) (by decide +kernel)
  obtain ⟨value, own⟩ := Option.isSome_iff_exists.mp first
  obtain ⟨other, alike⟩ := Option.isSome_iff_exists.mp second
  have same := (paths_agree pinnedReached submittedReached).1 1 value other (by decide +kernel) own alike
  exact ⟨pinned, submitted, pinnedReached, submittedReached, value, own, same ▸ alike⟩

/-- The submitted path leaves the first layer's flag, and the second run of the second
layer adds to the first. -/
theorem paths_differ_after_idle_layer : ∃ pinned submitted,
    (machine repeated .pinned sharedExperts).Reachable pinned ∧
      (machine repeated .submitted sharedExperts).Reachable submitted ∧
      (pinned.call, submitted.call) = (3, 3) ∧
      pinned.hasPendingDeferred 0 ≠ submitted.hasPendingDeferred 0 ∧
      ∃ value other, pinned.results 2 = some value ∧ submitted.results 2 = some other ∧ value ≠ other := by
  obtain ⟨pinned, pinnedReached, first⟩ := Machine.exists_reachable_of_run
    (machine repeated .pinned sharedExperts) start pinnedSchedule ⟨_, _, rfl⟩
    (fun state => state.call == 3 && !state.hasPendingDeferred 0 && returned 2 state == some 99)
    (by decide +kernel)
  obtain ⟨submitted, submittedReached, second⟩ := Machine.exists_reachable_of_run
    (machine repeated .submitted sharedExperts) start submittedSchedule ⟨_, _, rfl⟩
    (fun state => state.call == 3 && state.hasPendingDeferred 0 && returned 2 state == some 161)
    (by decide +kernel)
  simp only [Bool.and_eq_true, beq_iff_eq, Bool.not_eq_true', returned, Option.map_eq_some_iff] at first second
  obtain ⟨⟨firstCall, lowered⟩, value, own, low⟩ := first
  obtain ⟨⟨secondCall, raised⟩, other, alike, high⟩ := second
  refine ⟨pinned, submitted, pinnedReached, submittedReached, by rw [firstCall, secondCall],
    by simp [lowered, raised], value, other, own, alike, ?_⟩
  intro same
  rw [same, high] at low
  contradiction

end KtKernel.Experts.Paths
