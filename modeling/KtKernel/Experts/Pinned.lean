import KtKernel.Data.Fifo

namespace KtKernel.Experts

open KtKernel.Data

/-! `forward_on_pinned_buffers` followed by `sync_forward` for one layer.

The queue is the first-in first-out view of `TaskQueue`.  Callbacks launched on
a stream fire in their order, each after any delay; nothing on the host waits
for one to fire, since `_wait_device` does not observe host callbacks.
-/

inductive Device where
  | cpu
  | cuda
  | npu
  | other
deriving DecidableEq, Repr

/-- What the process was started with, and the result of the probe of the
callback worker (`none` when the build has no probe). -/
structure Environment where
  forceSyncSubmit : Bool := false
  externalNpuReportSubscriber : Bool := false
  callbackWorkerRunning : Option Bool := none
deriving DecidableEq, Repr

def shouldBypassStreamCallback (environment : Environment) (device : Device) : Bool :=
  if environment.forceSyncSubmit then true
  else if device = .cpu then true
  else if device = .npu ∧ environment.externalNpuReportSubscriber = false ∧
      environment.callbackWorkerRunning = some false then true
  else false

/-- One call: where it runs, its batch and the ids in the deferred buffer. -/
structure Layer where
  environment : Environment := {}
  device : Device
  qlen : Nat
  chunkedPrefillSize : Nat
  maxDeferredExpertsPerToken : Int
  deferredExpertsIds : List (List Int)
deriving DecidableEq, Repr

namespace Layer

def bypass (layer : Layer) : Bool :=
  shouldBypassStreamCallback layer.environment layer.device

def hasDeferred (layer : Layer) : Bool :=
  decide (0 < layer.maxDeferredExpertsPerToken) &&
    layer.deferredExpertsIds.any fun row => row.any fun id => decide (0 ≤ id)

/-- The combination on which the `sync` of the host can run ahead of the
deferred task's callback. -/
def Overtaken (layer : Layer) : Prop :=
  layer.qlen ≤ layer.chunkedPrefillSize ∧ layer.device = .npu ∧ layer.bypass = false ∧
    layer.hasDeferred = true

end Layer

namespace Pinned

/-- Tasks of this layer, and those of other layers and callers. -/
inductive Task where
  | immediate
  | deferred
  | other
deriving DecidableEq, Repr

/-- A host callback on the stream; `own` marks the one of this layer's
`sync_forward`. -/
inductive Callback where
  | submit (task : Task)
  | sync (own : Bool) (allowPending : Nat)
deriving DecidableEq, Repr

/-- Where the host thread stands. -/
inductive Host where
  | check
  | submitImmediate
  | clearFlag
  | submitDeferred
  | raiseFlag
  | sync
  | done
  | raised
deriving DecidableEq, Repr

/-- `hasPendingDeferred` is this layer's entry of `_layer_has_pending_deferred`,
`immediate` the place of the immediate task in the queue, and `passed` says
that the `sync` of `sync_forward` returned. -/
structure State where
  queue : Fifo Task := {}
  stream : List Callback := []
  host : Host := .check
  hasPendingDeferred : Bool := false
  immediate : Option Nat := none
  passed : Bool := false
deriving DecidableEq, Repr

inductive Action where
  | host
  | start
  | finish
  | fire
  | enqueue
  | launchSubmit
  | launchSync (allowPending : Nat)
deriving DecidableEq, Repr

def State.allowPending (state : State) : Nat :=
  if state.hasPendingDeferred then 1 else 0

def hostStep (layer : Layer) (state : State) : Option State :=
  match state.host with
  | .check =>
      some { state with
        host := if layer.chunkedPrefillSize < layer.qlen then .raised else .submitImmediate }
  | .submitImmediate =>
      -- both branches of the source enqueue on this thread
      some { state with
        queue := state.queue.enqueue .immediate
        immediate := some state.queue.order.length
        host := .clearFlag }
  | .clearFlag =>
      some { state with
        hasPendingDeferred := false
        host := if layer.hasDeferred then .submitDeferred else .sync }
  | .submitDeferred =>
      if layer.bypass then
        some { state with queue := state.queue.enqueue .deferred, host := .raiseFlag }
      else
        some { state with stream := state.stream ++ [.submit .deferred], host := .raiseFlag }
  | .raiseFlag => some { state with hasPendingDeferred := true, host := .sync }
  | .sync =>
      if layer.bypass ∨ layer.device = .npu then
        if state.queue.Drained state.allowPending then
          some { state with passed := true, host := .done }
        else none
      else
        some { state with stream := state.stream ++ [.sync true state.allowPending], host := .done }
  | .done | .raised => none

def fire (state : State) : Option State :=
  match state.stream with
  | [] => none
  | .submit task :: rest => some { state with queue := state.queue.enqueue task, stream := rest }
  | .sync own allow :: rest =>
      if state.queue.Drained allow then
        some { state with stream := rest, passed := state.passed || own }
      else none

def step (layer : Layer) (state : State) : Action → Option State
  | .host => hostStep layer state
  | .start => state.queue.start?.map fun queue => { state with queue := queue }
  | .finish => state.queue.finish?.map fun queue => { state with queue := queue }
  | .fire => fire state
  | .enqueue => some { state with queue := state.queue.enqueue .other }
  | .launchSubmit => some { state with stream := state.stream ++ [.submit .other] }
  | .launchSync allow => some { state with stream := state.stream ++ [.sync false allow] }

/-- Callbacks of other layers. -/
def Callback.Foreign (callback : Callback) : Prop :=
  callback = .submit .other ∨ ∃ allow, callback = .sync false allow

/-- The call begins with any work of other layers queued and launched. -/
def machine (layer : Layer) : Machine State Action where
  initial state := state.host = .check ∧ state.passed = false ∧ state.immediate = none ∧
    ∀ callback ∈ state.stream, callback.Foreign
  step := step layer

/-! ## The immediate task when `sync` passes -/

def State.Submitted (state : State) : Prop :=
  ∃ index, state.immediate = some index ∧ index < state.queue.order.length

/-- Another task stands behind the immediate one. -/
def State.Followed (state : State) : Prop :=
  ∃ index, state.immediate = some index ∧ index + 1 < state.queue.order.length

def State.ImmediateDone (state : State) : Prop :=
  ∃ index, state.immediate = some index ∧ index < state.queue.finished

/-- The steps of the host after its first submission. -/
def Host.begun : Host → Bool
  | .check | .submitImmediate | .raised => false
  | _ => true

structure Inv (layer : Layer) (state : State) : Prop where
  fresh : state.host = .check ∨ state.host = .submitImmediate →
    state.passed = false ∧ ∀ callback ∈ state.stream, callback.Foreign
  fits : state.host ≠ .check → state.host ≠ .raised → layer.qlen ≤ layer.chunkedPrefillSize
  submitted : state.host.begun = true → state.Submitted
  callback : .submit .deferred ∈ state.stream → state.Submitted
  deferred : (state.host = .raiseFlag ∨
      ((state.host = .sync ∨ state.host = .done) ∧ state.hasPendingDeferred = true)) →
    layer.hasDeferred = true ∧
      (state.Followed ∨ layer.bypass = false ∧ .submit .deferred ∈ state.stream)
  chosen : state.host = .submitDeferred → layer.hasDeferred = true
  synced : ∀ earlier allow later, state.stream = earlier ++ .sync true allow :: later →
    state.Submitted ∧ (allow = 0 ∨ allow = 1 ∧ (state.Followed ∨ .submit .deferred ∈ earlier))
  passed : state.passed = true → state.ImmediateDone

/-- Nothing the layer relies on is taken back. -/
structure Grows (before after : State) : Prop where
  immediate : after.immediate = before.immediate
  order : before.queue.order.length ≤ after.queue.order.length
  finished : before.queue.finished ≤ after.queue.finished

theorem Grows.submitted (grows : Grows before after) (submitted : before.Submitted) :
    after.Submitted := by
  obtain ⟨index, stored, below⟩ := submitted
  exact ⟨index, grows.immediate.trans stored, Nat.lt_of_lt_of_le below grows.order⟩

theorem Grows.followed (grows : Grows before after) (followed : before.Followed) :
    after.Followed := by
  obtain ⟨index, stored, below⟩ := followed
  exact ⟨index, grows.immediate.trans stored, Nat.lt_of_lt_of_le below grows.order⟩

theorem Grows.done (grows : Grows before after) (done : before.ImmediateDone) :
    after.ImmediateDone := by
  obtain ⟨index, stored, below⟩ := done
  exact ⟨index, grows.immediate.trans stored, Nat.lt_of_lt_of_le below grows.finished⟩

/-- A callback that is not the layer's `sync` was launched behind it. -/
theorem sync_of_append {stream : List Callback} {callback : Callback}
    (different : callback ≠ .sync true allow)
    (split : stream ++ [callback] = earlier ++ .sync true allow :: later) :
    ∃ rest, stream = earlier ++ .sync true allow :: rest := by
  rcases List.eq_nil_or_concat later with rfl | ⟨rest, last, rfl⟩
  · have same := List.append_inj_right' split rfl
    simp only [List.cons.injEq, and_true] at same
    exact absurd same different
  · rw [List.concat_eq_append, ← List.cons_append, ← List.append_assoc] at split
    exact ⟨rest, List.append_inj_left' split rfl⟩

theorem Inv.launch (inv : Inv layer before) (grows : Grows before after)
    (host : after.host = before.host) (flag : after.hasPendingDeferred = before.hasPendingDeferred)
    (passed : after.passed = before.passed) (callback : Callback) (foreign : callback.Foreign)
    (stream : after.stream = before.stream ∨ after.stream = before.stream ++ [callback]) :
    Inv layer after := by
  have member : .submit .deferred ∈ before.stream → .submit .deferred ∈ after.stream := by
    intro member
    rcases stream with same | longer
    · exact same ▸ member
    · rw [longer]
      exact List.mem_append_left _ member
  have back : .submit .deferred ∈ after.stream → .submit .deferred ∈ before.stream := by
    intro member
    rcases stream with same | longer
    · exact same ▸ member
    · rw [longer] at member
      rcases List.mem_append.mp member with old | new
      · exact old
      · rw [← List.mem_singleton.mp new] at foreign
        rcases foreign with other | ⟨_, other⟩ <;> contradiction
  refine
    { fresh := ?_
      fits := by rw [host]; exact inv.fits
      submitted := ?_
      callback := fun launched => grows.submitted (inv.callback (back launched))
      deferred := ?_
      chosen := ?_
      synced := ?_
      passed := ?_ }
  · rw [host, passed]
    intro early
    obtain ⟨unpassed, all⟩ := inv.fresh early
    refine ⟨unpassed, ?_⟩
    rcases stream with same | longer
    · rw [same]
      exact all
    · rw [longer]
      intro other member
      rcases List.mem_append.mp member with old | new
      · exact all other old
      · rw [List.mem_singleton.mp new]
        exact foreign
  · rw [host]
    exact fun begun => grows.submitted (inv.submitted begun)
  · rw [host, flag]
    intro waiting
    obtain ⟨has, placed⟩ := inv.deferred waiting
    refine ⟨has, ?_⟩
    rcases placed with followed | ⟨direct, launched⟩
    · exact .inl (grows.followed followed)
    · exact .inr ⟨direct, member launched⟩
  · rw [host]
    exact inv.chosen
  · intro earlier allow later split
    have old : ∃ rest, before.stream = earlier ++ .sync true allow :: rest := by
      rcases stream with same | longer
      · exact ⟨later, same ▸ split⟩
      · rw [longer] at split
        refine sync_of_append ?_ split
        rintro rfl
        rcases foreign with other | ⟨_, other⟩ <;> cases other
    obtain ⟨rest, split⟩ := old
    obtain ⟨submitted, placed⟩ := inv.synced earlier allow rest split
    refine ⟨grows.submitted submitted, ?_⟩
    rcases placed with zero | ⟨one, followed | launched⟩
    · exact .inl zero
    · exact .inr ⟨one, .inl (grows.followed followed)⟩
    · exact .inr ⟨one, .inr launched⟩
  · rw [passed]
    exact fun done => grows.done (inv.passed done)

theorem drained_done {state : State} (allowed : allow = 0 ∧ state.Submitted ∨ allow = 1 ∧ state.Followed)
    (drained : state.queue.Drained allow) : state.ImmediateDone := by
  rcases allowed with ⟨rfl, index, stored, below⟩ | ⟨rfl, index, stored, below⟩
  · exact ⟨index, stored, drained.done below⟩
  · exact ⟨index, stored, drained.done below⟩

theorem Inv.fire (inv : Inv layer before) (moved : fire before = some after) :
    Inv layer after := by
  unfold Pinned.fire at moved
  cases launched : before.stream with
  | nil => simp only [launched, reduceCtorEq] at moved
  | cons callback rest =>
      have foreign : before.host = .check ∨ before.host = .submitImmediate →
          ∀ callback ∈ rest, callback.Foreign := by
        intro early other member
        apply (inv.fresh early).2
        rw [launched]
        exact List.mem_cons_of_mem _ member
      cases callback with
      | submit task =>
          simp only [launched] at moved
          obtain rfl := Option.some.inj moved
          have grows : Grows before
              { before with queue := before.queue.enqueue task, stream := rest } :=
            ⟨rfl, by simp [Fifo.enqueue], Nat.le_refl _⟩
          -- a deferred task that fires stands behind the immediate one
          have fired : task = .deferred → { before with
              queue := before.queue.enqueue task, stream := rest }.Followed := by
            rintro rfl
            obtain ⟨index, stored, below⟩ := inv.callback (by rw [launched]; exact List.mem_cons_self ..)
            exact ⟨index, stored, by simp only [Fifo.enqueue, List.length_append, List.length_singleton]; omega⟩
          have still : .submit .deferred ∈ before.stream → { before with
                queue := before.queue.enqueue task, stream := rest }.Followed ∨
              Callback.submit .deferred ∈ rest := by
            rw [launched]
            intro member
            rcases List.mem_cons.mp member with first | later
            · cases first
              exact .inl (fired rfl)
            · exact .inr later
          refine
            { fresh := fun early => ⟨(inv.fresh early).1, foreign early⟩
              fits := inv.fits
              submitted := fun begun => grows.submitted (inv.submitted begun)
              callback := ?_
              deferred := ?_
              chosen := inv.chosen
              synced := ?_
              passed := fun done => grows.done (inv.passed done) }
          · intro member
            apply grows.submitted (inv.callback _)
            rw [launched]
            exact List.mem_cons_of_mem _ member
          · intro waiting
            obtain ⟨has, placed⟩ := inv.deferred waiting
            refine ⟨has, ?_⟩
            rcases placed with followed | ⟨direct, member⟩
            · exact .inl (grows.followed followed)
            · exact (still member).imp id fun later => ⟨direct, later⟩
          · intro earlier allow later split
            obtain ⟨submitted, placed⟩ := inv.synced (.submit task :: earlier) allow later
              (by rw [launched]; exact congrArg _ split)
            refine ⟨grows.submitted submitted, ?_⟩
            rcases placed with zero | ⟨one, followed | member⟩
            · exact .inl zero
            · exact .inr ⟨one, .inl (grows.followed followed)⟩
            · refine .inr ⟨one, ?_⟩
              rcases List.mem_cons.mp member with first | later
              · cases first
                exact .inl (fired rfl)
              · exact .inr later
      | sync own allow =>
          simp only [launched] at moved
          split at moved
          · rename_i drained
            obtain rfl := Option.some.inj moved
            refine
              { fresh := ?_
                fits := inv.fits
                submitted := inv.submitted
                callback := ?_
                deferred := ?_
                chosen := inv.chosen
                synced := ?_
                passed := ?_ }
            · intro early
              refine ⟨?_, foreign early⟩
              have own : Callback.Foreign (.sync own allow) :=
                (inv.fresh early).2 _ (by rw [launched]; exact List.mem_cons_self ..)
              rcases own with other | ⟨_, other⟩
              · contradiction
              · cases other
                simp only [Bool.or_false]
                exact (inv.fresh early).1
            · intro member
              apply inv.callback
              rw [launched]
              exact List.mem_cons_of_mem _ member
            · intro waiting
              obtain ⟨has, placed⟩ := inv.deferred waiting
              refine ⟨has, placed.imp id fun direct => ⟨direct.1, ?_⟩⟩
              have member := direct.2
              rw [launched] at member
              exact (List.mem_cons.mp member).resolve_left (by nofun)
            · intro earlier allow' later split
              obtain ⟨submitted, placed⟩ := inv.synced (.sync own allow :: earlier) allow' later
                (by rw [launched]; exact congrArg _ split)
              refine ⟨submitted, placed.imp id fun one => ⟨one.1, one.2.imp id fun member => ?_⟩⟩
              exact (List.mem_cons.mp member).resolve_left (by nofun)
            · intro done
              cases own with
              | false =>
                  rw [Bool.or_false] at done
                  exact inv.passed done
              | true =>
                  obtain ⟨submitted, placed⟩ := inv.synced [] allow rest launched
                  apply drained_done _ drained
                  rcases placed with zero | ⟨one, followed | member⟩
                  · exact .inl ⟨zero, submitted⟩
                  · exact .inr ⟨one, followed⟩
                  · contradiction
          · contradiction

/-- Before the first submission nothing of this layer is on the stream. -/
theorem Inv.none_own (inv : Inv layer state)
    (early : state.host = .check ∨ state.host = .submitImmediate) :
    .submit .deferred ∉ state.stream ∧ ∀ allow, .sync true allow ∉ state.stream := by
  obtain ⟨_, all⟩ := inv.fresh early
  constructor
  · intro member
    rcases all _ member with other | ⟨_, other⟩ <;> contradiction
  · intro allow member
    rcases all _ member with other | ⟨_, other⟩ <;> cases other

theorem Inv.hostStep (inv : Inv layer before) (fine : ¬ layer.Overtaken)
    (moved : hostStep layer before = some after) : Inv layer after := by
  unfold Pinned.hostStep at moved
  cases stage : before.host <;> simp only [stage] at moved
  case done | raised => contradiction
  case check =>
    obtain ⟨undeferred, unsynced⟩ := inv.none_own (.inl stage)
    obtain rfl := Option.some.inj moved
    by_cases long : layer.chunkedPrefillSize < layer.qlen
    · simp only [long, if_true]
      exact
        { fresh := by nofun
          fits := fun _ raised => absurd rfl raised
          submitted := by nofun
          callback := fun member => absurd member undeferred
          deferred := by simp
          chosen := by nofun
          synced := inv.synced
          passed := inv.passed }
    · simp only [long, if_false]
      exact
        { fresh := fun _ => inv.fresh (.inl stage)
          fits := fun _ _ => Nat.le_of_not_lt long
          submitted := by nofun
          callback := fun member => absurd member undeferred
          deferred := by simp
          chosen := by nofun
          synced := inv.synced
          passed := inv.passed }
  case submitImmediate =>
    obtain ⟨undeferred, unsynced⟩ := inv.none_own (.inr stage)
    obtain rfl := Option.some.inj moved
    refine
      { fresh := by simp
        fits := fun _ _ => inv.fits (by rw [stage]; nofun) (by rw [stage]; nofun)
        submitted := fun _ => ⟨_, rfl, by simp [Fifo.enqueue]⟩
        callback := fun member => absurd member undeferred
        deferred := by simp
        chosen := by nofun
        synced := ?_
        passed := ?_ }
    · intro earlier allow later split
      apply absurd _ (unsynced allow)
      rw [show before.stream = _ from split]
      exact List.mem_append_right _ (List.mem_cons_self ..)
    · intro done
      have unpassed := (inv.fresh (.inr stage)).1
      rw [show before.passed = true from done] at unpassed
      contradiction
  case clearFlag =>
    have fits := inv.fits (by rw [stage]; nofun) (by rw [stage]; nofun)
    have submitted := inv.submitted (by rw [stage]; rfl)
    obtain rfl := Option.some.inj moved
    cases has : layer.hasDeferred with
    | false =>
        exact
          { fresh := by simp
            fits := fun _ _ => fits
            submitted := fun _ => submitted
            callback := inv.callback
            deferred := by simp
            chosen := by simp
            synced := inv.synced
            passed := inv.passed }
    | true =>
        exact
          { fresh := by simp
            fits := fun _ _ => fits
            submitted := fun _ => submitted
            callback := inv.callback
            deferred := by simp
            chosen := fun _ => has
            synced := inv.synced
            passed := inv.passed }
  case submitDeferred =>
    have fits := inv.fits (by rw [stage]; nofun) (by rw [stage]; nofun)
    have submitted := inv.submitted (by rw [stage]; rfl)
    have has := inv.chosen stage
    cases direct : layer.bypass <;> simp only [direct, Bool.false_eq_true, if_true, if_false] at moved
    · obtain rfl := Option.some.inj moved
      refine
        { fresh := by simp
          fits := fun _ _ => fits
          submitted := fun _ => submitted
          callback := fun _ => submitted
          deferred := ?_
          chosen := by nofun
          synced := ?_
          passed := inv.passed }
      · intro _
        exact ⟨has, .inr ⟨direct, List.mem_append_right _ (List.mem_singleton.mpr rfl)⟩⟩
      · intro earlier allow later split
        obtain ⟨rest, split⟩ := sync_of_append (by nofun) split
        exact inv.synced earlier allow rest split
    · obtain rfl := Option.some.inj moved
      have grows : Grows before
          { before with queue := before.queue.enqueue .deferred, host := .raiseFlag } :=
        ⟨rfl, by simp [Fifo.enqueue], Nat.le_refl _⟩
      refine
        { fresh := by simp
          fits := fun _ _ => fits
          submitted := fun _ => grows.submitted submitted
          callback := fun _ => grows.submitted submitted
          deferred := ?_
          chosen := by nofun
          synced := ?_
          passed := fun done => grows.done (inv.passed done) }
      · intro _
        obtain ⟨index, stored, below⟩ := submitted
        refine ⟨has, .inl ⟨index, stored, ?_⟩⟩
        simp only [Fifo.enqueue, List.length_append, List.length_singleton]
        omega
      · intro earlier allow later split
        obtain ⟨submitted, placed⟩ := inv.synced earlier allow later split
        exact ⟨grows.submitted submitted, placed.imp id fun one =>
          ⟨one.1, one.2.imp grows.followed id⟩⟩
  case raiseFlag =>
    have fits := inv.fits (by rw [stage]; nofun) (by rw [stage]; nofun)
    obtain rfl := Option.some.inj moved
    exact
      { fresh := by simp
        fits := fun _ _ => fits
        submitted := fun _ => inv.submitted (by rw [stage]; rfl)
        callback := inv.callback
        deferred := fun _ => inv.deferred (.inl stage)
        chosen := by nofun
        synced := inv.synced
        passed := inv.passed }
  case sync =>
    have fits := inv.fits (by rw [stage]; nofun) (by rw [stage]; nofun)
    have submitted := inv.submitted (by rw [stage]; rfl)
    have deferred := inv.deferred
    simp only [stage, reduceCtorEq, true_or, true_and, false_or] at deferred
    split at moved
    · rename_i onHost
      split at moved
      · rename_i drained
        obtain rfl := Option.some.inj moved
        refine
          { fresh := by simp
            fits := fun _ _ => fits
            submitted := fun _ => submitted
            callback := inv.callback
            deferred := fun waiting => deferred (by simpa using waiting)
            chosen := by nofun
            synced := inv.synced
            passed := ?_ }
        intro _
        apply drained_done _ drained
        cases flag : before.hasPendingDeferred with
        | false => exact .inl ⟨by simp [State.allowPending, flag], submitted⟩
        | true =>
            refine .inr ⟨by simp [State.allowPending, flag], ?_⟩
            obtain ⟨has, followed | ⟨indirect, _⟩⟩ := deferred flag
            · exact followed
            · rcases onHost with direct | npu
              · rw [indirect] at direct
                contradiction
              · exact absurd ⟨fits, npu, indirect, has⟩ fine
      · contradiction
    · obtain rfl := Option.some.inj moved
      refine
        { fresh := by simp
          fits := fun _ _ => fits
          submitted := fun _ => submitted
          callback := ?_
          deferred := ?_
          chosen := by nofun
          synced := ?_
          passed := inv.passed }
      · intro _
        exact submitted
      · intro waiting
        obtain ⟨has, placed⟩ := deferred (by simpa using waiting)
        exact ⟨has, placed.imp id fun direct => ⟨direct.1, List.mem_append_left _ direct.2⟩⟩
      · intro earlier allow later split
        rcases List.eq_nil_or_concat later with rfl | ⟨rest, last, rfl⟩
        · have same := List.append_inj_right' split rfl
          have streams := List.append_inj_left' split rfl
          simp only [List.cons.injEq, Callback.sync.injEq, true_and, and_true] at same
          subst same
          refine ⟨submitted, ?_⟩
          cases flag : before.hasPendingDeferred with
          | false => exact .inl (by simp [State.allowPending, flag])
          | true =>
              refine .inr ⟨by simp [State.allowPending, flag], ?_⟩
              obtain ⟨_, placed⟩ := deferred flag
              exact placed.imp id fun direct => streams ▸ direct.2
        · rw [List.concat_eq_append, ← List.cons_append, ← List.append_assoc] at split
          exact inv.synced earlier allow rest (List.append_inj_left' split rfl)

theorem start_inv (starts : (machine layer).initial state) : Inv layer state := by
  obtain ⟨host, unpassed, _, foreign⟩ := starts
  refine
    { fresh := fun _ => ⟨unpassed, foreign⟩
      fits := fun other => absurd host other
      submitted := by simp [host, Host.begun]
      callback := ?_
      deferred := by simp [host]
      chosen := by simp [host]
      synced := ?_
      passed := by simp [unpassed] }
  · intro member
    rcases foreign _ member with other | ⟨_, other⟩ <;> contradiction
  · intro earlier allow later split
    have member : .sync true allow ∈ state.stream := by
      rw [split]
      exact List.mem_append_right _ (List.mem_cons_self ..)
    rcases foreign _ member with other | ⟨_, other⟩ <;> cases other

theorem reachable_inv (fine : ¬ layer.Overtaken) (reached : (machine layer).Reachable state) :
    Inv layer state := by
  induction reached with
  | initial starts => exact start_inv starts
  | @step before action after _ moved inv =>
      cases action with
      | host => exact inv.hostStep fine moved
      | fire => exact inv.fire moved
      | start =>
          obtain ⟨queue, started, rfl⟩ := Option.map_eq_some_iff.mp moved
          simp only [Fifo.start?] at started
          split at started
          · obtain rfl := Option.some.inj started
            exact inv.launch ⟨rfl, Nat.le_refl _, Nat.le_refl _⟩ rfl rfl rfl (.submit .other) (.inl rfl)
              (.inl rfl)
          · contradiction
      | finish =>
          obtain ⟨queue, finished, rfl⟩ := Option.map_eq_some_iff.mp moved
          simp only [Fifo.finish?] at finished
          split at finished
          · obtain rfl := Option.some.inj finished
            exact inv.launch ⟨rfl, Nat.le_refl _, Nat.le_succ _⟩ rfl rfl rfl (.submit .other) (.inl rfl)
              (.inl rfl)
          · contradiction
      | enqueue =>
          obtain rfl := Option.some.inj moved
          exact inv.launch ⟨rfl, by simp [Fifo.enqueue], Nat.le_refl _⟩ rfl rfl rfl (.submit .other)
            (.inl rfl) (.inl rfl)
      | launchSubmit =>
          obtain rfl := Option.some.inj moved
          exact inv.launch ⟨rfl, Nat.le_refl _, Nat.le_refl _⟩ rfl rfl rfl (.submit .other) (.inl rfl)
            (.inr rfl)
      | launchSync allow =>
          obtain rfl := Option.some.inj moved
          exact inv.launch ⟨rfl, Nat.le_refl _, Nat.le_refl _⟩ rfl rfl rfl (.sync false allow)
            (.inr ⟨allow, rfl⟩) (.inr rfl)

/-- On an idle queue the overtaken combination lets `sync` pass with the
immediate task not even begun. -/
theorem overtaken_run (layer : Layer) (overtaken : layer.Overtaken) :
    ∃ state, (machine layer).Reachable state ∧ state.passed = true ∧ state.immediate = some 0 ∧
      state.queue.finished = 0 := by
  obtain ⟨fits, npu, indirect, has⟩ := overtaken
  have short : ¬ layer.chunkedPrefillSize < layer.qlen := Nat.not_lt.mpr fits
  have passes : ((machine layer).run {} (List.replicate 6 .host)).map (fun state =>
      decide (state.passed = true ∧ state.immediate = some 0 ∧ state.queue.finished = 0)) =
      some true := by
    simp [machine, Machine.run, step, hostStep, short, npu, indirect, has, Fifo.enqueue, Fifo.Drained,
      State.allowPending]
  obtain ⟨state, reached, shape⟩ := Machine.exists_reachable_of_run (machine layer) {}
    (List.replicate 6 .host) ⟨rfl, rfl, rfl, by intros; contradiction⟩ _ passes
  exact ⟨state, reached, of_decide_eq_true shape⟩

/-- Whenever `sync` has passed the immediate task is done, on every path but
one. -/
theorem immediate_done_iff (layer : Layer) :
    (∀ state, (machine layer).Reachable state → state.passed = true → state.ImmediateDone) ↔
      ¬ layer.Overtaken := by
  constructor
  · intro always overtaken
    obtain ⟨state, reached, passed, stored, unfinished⟩ := overtaken_run layer overtaken
    obtain ⟨index, stored', below⟩ := always state reached passed
    omega
  · intro fine state reached passed
    exact (reachable_inv fine reached).passed passed

/-- One token with one deferred expert on an accelerator whose callback worker
runs. -/
def deferredOnNpu : Layer :=
  { device := .npu
    qlen := 1
    chunkedPrefillSize := 16
    maxDeferredExpertsPerToken := 1
    deferredExpertsIds := [[3, -1]] }

theorem immediate_unfinished_on_npu :
    ∃ state, (machine deferredOnNpu).Reachable state ∧ state.passed = true ∧
      ¬ state.ImmediateDone := by
  obtain ⟨state, reached, passed, stored, unfinished⟩ := overtaken_run deferredOnNpu
    ⟨by decide, rfl, rfl, rfl⟩
  refine ⟨state, reached, passed, ?_⟩
  rintro ⟨index, stored', below⟩
  rw [unfinished] at below
  contradiction

end Pinned

end KtKernel.Experts
