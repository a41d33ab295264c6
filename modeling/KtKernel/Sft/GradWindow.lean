import KtKernel.Sft.Wrapper

namespace KtKernel.Sft

open KtKernel.Data

/-- Every registered gradient is `None`. -/
def State.Closed (state : State) : Prop :=
  ∀ entry ∈ state.wrapper.entries, state.grad entry.parameter = none

/-- Every registered gradient is its own view. -/
def State.Open (state : State) : Prop :=
  ∀ entry ∈ state.wrapper.entries, state.grad entry.parameter = some entry.gradView

section

variable {state : State}

theorem countGrads_ok (counted : countGrads state entries noneCount aliasCount = .ok (nones, aliases)) :
    nones = noneCount + entries.countP (fun entry => decide (state.grad entry.parameter = none)) ∧
      aliases = aliasCount +
        entries.countP (fun entry => decide (state.grad entry.parameter = some entry.gradView)) := by
  induction entries generalizing noneCount aliasCount with
  | nil =>
      cases counted
      exact ⟨rfl, rfl⟩
  | cons entry rest induction =>
      simp only [countGrads] at counted
      split at counted
      case h_1 none =>
        obtain ⟨nones, aliases⟩ := induction counted
        simp only [List.countP_cons, none, decide_true, if_true, reduceCtorEq, decide_false]
        simp only [if_false]
        omega
      case h_2 grad found =>
        split at counted
        · subst_vars
          obtain ⟨nones, aliases⟩ := induction counted
          simp only [List.countP_cons, found, decide_true, if_true, reduceCtorEq, decide_false]
          simp only [if_false]
          omega
        · contradiction

/-- Validation succeeds only on gradients that are all `None` or all live, and
it says which. -/
theorem validate_ok (valid : validateAuthoritativeOptimizerGradState state = .ok phase)
    (used : state.wrapper.usesAuthoritative = true) :
    (phase = .opened ↔ state.live = true) ∧ (state.Closed ∨ state.Open) := by
  simp only [validateAuthoritativeOptimizerGradState] at valid
  split at valid
  case isTrue unused =>
    cases valid
    have empty : state.wrapper.entries = [] := by simpa [used] using unused
    simp [State.live, State.Closed, empty]
  case isFalse some =>
    have nonempty : state.wrapper.entries ≠ [] := fun empty => some (.inr empty)
    split at valid
    · contradiction
    · split at valid
      · contradiction
      · next nones aliases counted =>
        obtain ⟨rfl, rfl⟩ := countGrads_ok counted
        simp only [Nat.zero_add, List.countP_eq_length, decide_eq_true_eq] at valid
        split at valid
        case isTrue closed =>
          cases valid
          refine ⟨⟨by nofun, ?_⟩, .inl closed⟩
          intro live
          obtain ⟨entry, member⟩ := List.exists_mem_of_ne_nil _ nonempty
          have opened := (of_decide_eq_true live).2 entry member
          rw [closed entry member] at opened
          contradiction
        case isFalse =>
          split at valid
          case isTrue opened =>
            cases valid
            exact ⟨⟨fun _ => decide_eq_true ⟨nonempty, opened⟩, fun _ => rfl⟩, .inr opened⟩
          case isFalse => contradiction

/-! ## The steps of a backward -/

def State.prepared (state : State) : State :=
  { state with
    wrapper.submissionPending := true
    wrapper.pendingAccumulate := state.live }

/-- The entry of a backward either refuses and changes nothing, or it hands on
the state with a pending submission that accumulates exactly when all gradients
are live. -/
theorem entering_cases (scale : Scale) (fault : Fault) (state : State)
    (enter : Bool → State → Option Raised × State) :
    (∃ raised, entering scale fault state enter = (some raised, state)) ∨
    state.wrapper.usesAuthoritative = true ∧ state.wrapper.submissionPending = false ∧
      (state.Closed ∨ state.Open) ∧
      entering scale fault state enter = enter state.live state.prepared ∨
    state.wrapper.usesAuthoritative = false ∧ entering scale fault state enter = enter false state := by
  simp only [entering]
  split
  · exact .inl ⟨_, rfl⟩
  split
  · exact .inl ⟨_, rfl⟩
  next free =>
  split
  · exact .inl ⟨_, rfl⟩
  next valid =>
  split
  · exact .inl ⟨_, rfl⟩
  split
  case isTrue used =>
    have idle : state.wrapper.submissionPending = false := by simpa [used] using free
    simp only [prepareAuthoritativeOptimizerGradWrite, idle, Bool.false_eq_true, if_false, valid]
    cases checked : validateAuthoritativeOptimizerGradState state with
    | error raised => exact .inl ⟨raised, rfl⟩
    | ok phase =>
        obtain ⟨opened, whole⟩ := validate_ok checked used
        have same : decide (phase = .opened) = state.live := by
          rw [Bool.eq_iff_iff, decide_eq_true_eq]
          exact opened
        refine .inr (.inl ⟨used, trivial, whole, ?_⟩)
        simp only [same]
        rfl
  case isFalse unused => exact .inr (.inr ⟨by simpa using unused, rfl⟩)

/-- The gradients are the views and no submission is pending. -/
def State.published (state : State) : State :=
  { state with
    grad := assignGrads state.wrapper.entries state.grad
    wrapper.submissionPending := false
    wrapper.pendingAccumulate := false
    history.window := true }

/-- What a failed part of a backward leaves alone. -/
structure Kept (before after : State) : Prop where
  used : after.wrapper.usesAuthoritative = before.wrapper.usesAuthoritative
  submissions : after.history.submissions = before.history.submissions
  same : before.wrapper.usesAuthoritative = false → after = before

theorem publish_cases (fault : Fault) (used : state.wrapper.usesAuthoritative = true) :
    (∃ raised after, publishAuthoritativeOptimizerGrads fault state = (some raised, after) ∧
      Kept state after) ∨
    publishAuthoritativeOptimizerGrads fault state = (none, state.published) := by
  have kept {after : State} (same : after.wrapper.usesAuthoritative = state.wrapper.usesAuthoritative)
      (submissions : after.history.submissions = state.history.submissions) : Kept state after := by
    refine ⟨same, submissions, ?_⟩
    intro unused
    rw [used] at unused
    contradiction
  simp only [publishAuthoritativeOptimizerGrads]
  split
  · exact .inl ⟨_, _, rfl, kept rfl rfl⟩
  generalize (if state.wrapper.pendingAccumulate = true then Phase.opened else Phase.closed) = expected
  split
  · exact .inl ⟨_, _, rfl, kept rfl rfl⟩
  split
  · exact .inl ⟨_, _, rfl, kept rfl rfl⟩
  cases fault with
  | publish count => exact .inl ⟨_, _, rfl, kept rfl rfl⟩
  | _ => exact .inr rfl

theorem collect_cases (fault : Fault) (state : State) :
    (∃ raised after, collect fault state.wrapper.usesAuthoritative state = (some raised, after) ∧
      Kept state after) ∨
    state.wrapper.usesAuthoritative = true ∧
      collect fault state.wrapper.usesAuthoritative state = (none, state.published) ∨
    state.wrapper.usesAuthoritative = false ∧
      collect fault state.wrapper.usesAuthoritative state = (none, state) := by
  unfold collect
  split
  · exact .inl ⟨_, _, rfl, rfl, rfl, fun _ => rfl⟩
  split
  case isTrue used => exact (publish_cases fault used).imp_right fun done => .inl ⟨used, done⟩
  case isFalse unused => exact .inr (.inr ⟨by simpa using unused, rfl⟩)

theorem backwardBody_cases (fault : Fault) (accumulate : Bool) (state : State) :
    (∃ raised after, backwardBody fault accumulate state = (some raised, after) ∧
      (Kept state after ∨ Kept (state.submitted accumulate) after)) ∨
    state.wrapper.usesAuthoritative = true ∧
      backwardBody fault accumulate state = (none, (state.submitted accumulate).published) ∨
    state.wrapper.usesAuthoritative = false ∧
      backwardBody fault accumulate state = (none, state.submitted accumulate) := by
  unfold backwardBody
  split
  · exact .inl ⟨_, _, rfl, .inl ⟨rfl, rfl, fun _ => rfl⟩⟩
  split
  · exact .inl ⟨_, _, rfl, .inr ⟨rfl, rfl, fun _ => rfl⟩⟩
  rcases collect_cases fault (state.submitted accumulate) with ⟨raised, after, failed, kept⟩ | done
  · exact .inl ⟨raised, after, failed, .inr kept⟩
  · exact .inr done

/-! ## The invariant -/

/-- What every call keeps. -/
structure Inv (state : State) : Prop where
  unused : state.wrapper.usesAuthoritative = false →
    state.wrapper.entries = [] ∧ state.wrapper.submissionPending = false
  window : state.live = true → state.history.window = true
  pending : state.wrapper.submissionPending = true →
    state.wrapper.asyncUsesAuthoritative = true ∧ state.wrapper.asyncQlen ≠ none ∧
      state.history.outstanding = true
  asynchronous : state.wrapper.asyncUsesAuthoritative = true → state.wrapper.usesAuthoritative = true
  recorded : ∀ submission ∈ state.history.submissions,
    submission.accumulate = true ↔ submission.live = true ∧ submission.window = true

theorem closed_closeGrads (state : State) : state.closeGrads.Closed := by
  intro entry member
  exact if_pos ⟨entry, member, rfl⟩

theorem not_live_of_closed (closed : state.Closed) : state.live = false := by
  apply decide_eq_false
  rintro ⟨nonempty, opened⟩
  obtain ⟨entry, member⟩ := List.exists_mem_of_ne_nil _ nonempty
  have live := opened entry member
  rw [closed entry member] at live
  contradiction

/-- Every recorded submission accumulates exactly when all gradients were live
and nothing had closed the window. -/
def State.Recorded (state : State) : Prop :=
  ∀ submission ∈ state.history.submissions,
    submission.accumulate = true ↔ submission.live = true ∧ submission.window = true

theorem not_live_of_unused (inv : Inv state) (unused : state.wrapper.usesAuthoritative = false) :
    state.live = false := by
  have empty := (inv.unused unused).1
  apply decide_eq_false
  exact fun live => live.1 empty

theorem recorded_prepared (inv : Inv state) : (state.prepared.submitted state.live).Recorded := by
  intro submission member
  rcases List.mem_cons.mp member with rfl | member
  · exact ⟨fun live => ⟨live, inv.window live⟩, fun both => both.1⟩
  · exact inv.recorded submission member

theorem recorded_submitted (inv : Inv state) (same : accumulate = state.live) :
    (state.submitted accumulate).Recorded := by
  intro submission member
  rcases List.mem_cons.mp member with rfl | member
  · subst same
    exact ⟨fun live => ⟨live, inv.window live⟩, fun both => both.1⟩
  · exact inv.recorded submission member

/-- A failure closes the window. -/
theorem inv_abort (state : State) (used : state.wrapper.usesAuthoritative = true) (recorded : state.Recorded)
    (depth : Nat) :
    Inv { abortAuthoritativeOptimizerGradWrite state with wrapper.cacheDepth := depth } := by
  have dead := not_live_of_closed (closed_closeGrads state)
  refine ⟨fun unused => ?_, fun live => ?_, by nofun, fun _ => used, recorded⟩
  · have unused : state.wrapper.usesAuthoritative = false := unused
    rw [used] at unused
    contradiction
  · have live : state.closeGrads.live = true := live
    rw [dead] at live
    contradiction

theorem inv_published (state : State) (used : state.wrapper.usesAuthoritative = true) (recorded : state.Recorded) :
    Inv state.published := by
  refine ⟨fun unused => ?_, fun _ => rfl, by nofun, fun _ => used, recorded⟩
  have unused : state.wrapper.usesAuthoritative = false := unused
  rw [used] at unused
  contradiction

theorem inv_clearAsync (inv : Inv state) (idle : state.wrapper.submissionPending = false) :
    Inv state.clearAsync := by
  refine { inv with pending := fun pending => ?_, asynchronous := by nofun }
  have pending : state.wrapper.submissionPending = true := pending
  rw [idle] at pending
  contradiction

theorem Inv.cacheDepth (inv : Inv state) (depth : Nat) :
    Inv { state with wrapper.cacheDepth := depth } :=
  { inv with }

theorem Kept.recorded {before after : State} (kept : Kept before after) (recorded : before.Recorded) :
    after.Recorded := by
  unfold State.Recorded
  rw [kept.submissions]
  exact recorded

/-! ## Every call keeps it -/

theorem inv_failed (state : State) (used : state.wrapper.usesAuthoritative = true) (recorded : state.Recorded) :
    Inv state.failed := by
  rw [State.failed, if_pos used]
  exact inv_abort _ used recorded _

theorem failed_of_unused (state : State) (unused : state.wrapper.usesAuthoritative = false) :
    state.failed = state := by
  rw [State.failed, unused]
  rfl

theorem failed_idle (state : State) (used : state.wrapper.usesAuthoritative = true) :
    state.failed.wrapper.submissionPending = false := by
  rw [State.failed, if_pos used]
  rfl

theorem inv_submitted (inv : Inv state) (same : accumulate = state.live) :
    Inv (state.submitted accumulate) :=
  { inv with recorded := recorded_submitted inv same }

theorem inv_backward (inv : Inv state) (scale : Scale) (fault : Fault) :
    Inv (backward scale fault state).2 := by
  unfold backward
  rcases entering_cases scale fault state _ with
    ⟨raised, refused⟩ | ⟨used, idle, _, entered⟩ | ⟨unused, entered⟩
  · rw [refused]
    exact inv
  · rw [entered]
    have recorded := recorded_prepared inv
    rcases backwardBody_cases fault state.live state.prepared with
      ⟨raised, after, failed, kept | kept⟩ | ⟨_, done⟩ | ⟨unused, _⟩
    · rw [failed]
      exact inv_failed _ (kept.used.trans used) (kept.recorded inv.recorded)
    · rw [failed]
      exact inv_failed _ (kept.used.trans used) (kept.recorded recorded)
    · rw [done]
      exact (inv_published (state.prepared.submitted state.live) used recorded).cacheDepth _
    · have unused : state.wrapper.usesAuthoritative = false := unused
      rw [used] at unused
      contradiction
  · rw [entered]
    have submitted := inv_submitted inv (not_live_of_unused inv unused).symm
    rcases backwardBody_cases fault false state with
      ⟨raised, after, failed, kept | kept⟩ | ⟨used, _⟩ | ⟨_, done⟩
    · rw [failed, kept.same unused]
      dsimp only
      rw [failed_of_unused _ unused]
      exact inv
    · rw [failed, kept.same unused]
      dsimp only
      rw [failed_of_unused (state.submitted false) unused]
      exact submitted
    · rw [unused] at used
      contradiction
    · rw [done]
      exact submitted.cacheDepth _

theorem inv_submitBackwardAsync (inv : Inv state) (scale : Scale) (qlen : Nat) (fault : Fault) :
    Inv (submitBackwardAsync scale qlen fault state).2 := by
  unfold submitBackwardAsync
  rcases entering_cases scale fault state _ with
    ⟨raised, refused⟩ | ⟨used, idle, _, entered⟩ | ⟨unused, entered⟩
  · rw [refused]
    exact inv
  · rw [entered]
    have recorded := recorded_prepared inv
    dsimp only
    split
    · exact inv_clearAsync (inv_failed _ used inv.recorded) (failed_idle _ used)
    split
    · exact inv_clearAsync (inv_failed _ used recorded) (failed_idle _ used)
    · refine ⟨fun unused => ?_, inv.window, fun _ => ⟨used, by nofun, rfl⟩, fun _ => used, recorded⟩
      have unused : state.wrapper.usesAuthoritative = false := unused
      rw [used] at unused
      contradiction
  · rw [entered]
    have idle := (inv.unused unused).2
    have submitted := inv_submitted inv (not_live_of_unused inv unused).symm
    dsimp only
    split
    · rw [failed_of_unused _ unused]
      exact inv_clearAsync inv idle
    split
    · rw [failed_of_unused (state.submitted false) unused]
      exact inv_clearAsync submitted idle
    · refine { submitted with pending := fun pending => ?_, asynchronous := id }
      have pending : state.wrapper.submissionPending = true := pending
      rw [idle] at pending
      contradiction

/-- The task is taken from the queue. -/
def State.synced (state : State) : State :=
  { state with history.outstanding := false }

theorem inv_synced (inv : Inv state) (idle : state.wrapper.submissionPending = false) :
    Inv state.synced := by
  refine { inv with pending := fun pending => ?_ }
  have pending : state.wrapper.submissionPending = true := pending
  rw [idle] at pending
  contradiction

theorem inv_syncBackward (inv : Inv state) (fault : Fault) : Inv (syncBackward fault state).2 := by
  unfold syncBackward
  split
  · exact inv
  dsimp only
  cases uses : state.wrapper.asyncUsesAuthoritative with
  | true =>
      have used := inv.asynchronous uses
      have results := collect_cases fault state.synced
      rw [show state.synced.wrapper.usesAuthoritative = true from used] at results
      rcases results with ⟨raised, after, failed, kept⟩ | ⟨_, done⟩ | ⟨unused, _⟩
      · change collect fault true { state with history.outstanding := false } = _ at failed
        rw [failed]
        exact inv_clearAsync (inv_abort _ (kept.used.trans used) (kept.recorded inv.recorded) _) rfl
      · change collect fault true { state with history.outstanding := false } = _ at done
        rw [done]
        exact inv_clearAsync ((inv_published state.synced used inv.recorded).cacheDepth _) rfl
      · contradiction
  | false =>
      have idle : state.wrapper.submissionPending = false := by
        rw [← Bool.not_eq_true]
        intro pending
        rw [(inv.pending pending).1] at uses
        contradiction
      have synced := inv_synced inv idle
      by_cases failed : fault = .sync ∨ fault = .copy ∨ fault = .buffer
      · rw [collect, if_pos failed]
        exact inv_clearAsync synced idle
      · rw [collect, if_neg failed]
        exact inv_clearAsync (synced.cacheDepth _) idle

theorem inv_release (inv : Inv state) : Inv (releaseAuthoritativeOptimizerGrads state).2 := by
  unfold releaseAuthoritativeOptimizerGrads
  split
  · exact inv
  split
  · exact inv
  split
  · exact inv
  · refine { inv with window := fun live => ?_ }
    have live : state.closeGrads.live = true := live
    rw [not_live_of_closed (closed_closeGrads state)] at live
    contradiction

theorem inv_register (inv : Inv state) (name : String) (parameter gradView : Nat) :
    Inv (registerAuthoritativeOptimizerGrad name parameter gradView state).2 := by
  unfold registerAuthoritativeOptimizerGrad
  dsimp only
  split
  · exact inv
  next used =>
  split
  · exact inv
  split
  · exact inv
  split
  · exact inv
  · refine { inv with unused := fun unused => absurd unused used, window := fun live => ?_ }
    have opened := (of_decide_eq_true live).2 ⟨name, parameter, gradView, state.metadata gradView⟩ (by simp)
    simp at opened

theorem inv_zeroGrad (inv : Inv state) (parameters : List Nat) :
    Inv { state with
      grad := fun parameter => if parameter ∈ parameters then none else state.grad parameter } := by
  refine { inv with window := fun live => inv.window ?_ }
  obtain ⟨nonempty, opened⟩ := of_decide_eq_true live
  refine decide_eq_true ⟨nonempty, ?_⟩
  intro entry member
  have kept := opened entry member
  dsimp only at kept
  split at kept
  · contradiction
  · exact kept

theorem inv_perform (inv : Inv state) (action : Action) : Inv (perform state action).2 := by
  cases action with
  | register name parameter gradView => exact inv_register inv name parameter gradView
  | forward saves fails =>
      simp only [perform, forward]
      split
      · exact inv
      split
      · exact inv.cacheDepth 1
      · exact inv
  | backward scale fault => exact inv_backward inv scale fault
  | submitBackwardAsync scale qlen fault => exact inv_submitBackwardAsync inv scale qlen fault
  | syncBackward fault => exact inv_syncBackward inv fault
  | release => exact inv_release inv
  | zeroGrad parameters => exact inv_zeroGrad inv parameters
  | resize tensor metadata => exact { inv with }

theorem reachable_inv (reached : machine.Reachable state) : Inv state := by
  induction reached with
  | initial starts =>
      obtain ⟨used, wrapper, history⟩ := starts
      refine ⟨?_, ?_, ?_, ?_, ?_⟩ <;> simp [State.live, wrapper, history]
  | step _ moved inv =>
      cases moved
      exact inv_perform inv _

/-- The call raises and hands no task to the native code. -/
def Refused (state : State) (result : Option Raised × State) : Prop :=
  result.1 ≠ none ∧ result.2.history.submissions = state.history.submissions

theorem refused_of_mixed (inv : Inv state) (mixed : ¬state.Closed ∧ ¬state.Open) (scale : Scale)
    (fault : Fault) (enter : Bool → State → Option Raised × State) :
    Refused state (entering scale fault state enter) := by
  rcases entering_cases scale fault state enter with ⟨raised, refused⟩ | ⟨_, _, whole, _⟩ | ⟨unused, _⟩
  · rw [refused]
    exact ⟨by nofun, rfl⟩
  · exact absurd whole (not_or.mpr mixed)
  · refine absurd ?_ mixed.1
    intro entry member
    rw [(inv.unused unused).1] at member
    contradiction

/-- After every sequence of calls: the registered gradients are all `None`, or
all their own views, or both backward entry points raise without submitting a
task; every task submitted so far accumulates exactly when all gradients were
live views and no failure or release had closed the window; and a submission is
pending only while an asynchronous backward is outstanding. -/
theorem grad_lifecycle (reached : machine.Reachable state) :
    (state.Closed ∨ state.Open ∨ ∀ scale qlen fault, Refused state (backward scale fault state) ∧
      Refused state (submitBackwardAsync scale qlen fault state)) ∧
    (∀ submission ∈ state.history.submissions,
      submission.accumulate = true ↔ submission.live = true ∧ submission.window = true) ∧
    (state.wrapper.submissionPending = true → state.history.outstanding = true) := by
  have inv := reachable_inv reached
  refine ⟨?_, inv.recorded, fun pending => (inv.pending pending).2.2⟩
  by_cases closed : state.Closed
  · exact .inl closed
  by_cases opened : state.Open
  · exact .inr (.inl opened)
  · refine .inr (.inr fun scale qlen fault => ?_)
    exact ⟨refused_of_mixed inv ⟨closed, opened⟩ scale fault _,
      refused_of_mixed inv ⟨closed, opened⟩ scale fault _⟩

end

/-! Two backwards of one window, then one that fails in the native code after an
asynchronous submission. -/

def unitScale : Scale :=
  ⟨some 1, "1.0"⟩

def freshState : State where
  wrapper := { usesAuthoritative := true }
  metadata _ := ⟨"torch.bfloat16", "torch.strided", "cpu", -1, [4], [1], 0, 0⟩
  grad _ := none

def failedStep : List Action :=
  [.register "gate_proj" 0 10, .register "up_proj" 1 11, .forward true false, .backward unitScale .none,
    .forward true false, .backward unitScale .none, .forward true false,
    .submitBackwardAsync unitScale 8 .none, .syncBackward .sync]

theorem grad_lifecycle_failed_step :
    ∃ state, machine.Reachable state ∧ state.history.submissions.length = 3 ∧
      (state.grad 0 = none ∧ state.grad 1 = none) ∧
      ∀ submission ∈ state.history.submissions,
        submission.accumulate = true ↔ submission.live = true ∧ submission.window = true := by
  obtain ⟨state, reached, found⟩ := machine.exists_reachable_of_run freshState failedStep
    ⟨true, rfl, rfl⟩ (fun state => decide (state.history.submissions.length = 3 ∧
      (state.grad 0 = none ∧ state.grad 1 = none))) (by decide)
  obtain ⟨count, closed⟩ := of_decide_eq_true found
  exact ⟨state, reached, count, closed, (grad_lifecycle reached).2.1⟩

end KtKernel.Sft
