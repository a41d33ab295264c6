import KtKernel.Experts.Paths

namespace KtKernel.Experts.Paths

open KtKernel.Data

variable {batch width : Nat} {R W V : Type}

/-! ## The tasks of a sequence of calls -/

section

variable (layerIdx : Nat → Nat) (path : Path) (model : Model batch width R W V)

/-- The calls with a deferred task. -/
def queues (call : Nat) : Bool :=
  match path with
  | .submitted => model.defers call
  | .pinned => model.defers call && selects model call

/-- The flag of a layer after the first `calls`. -/
def flagAfter (layer calls : Nat) : Bool :=
  match lastCall layerIdx layer calls with
  | none => false
  | some call => queues path model call

def incrementalAt (call : Nat) : Bool :=
  match previousCall layerIdx call with
  | none => false
  | some previous => queues path model previous

def immediateTask (call : Nat) : Task :=
  ⟨call, false, incrementalAt layerIdx path model call⟩

def deferredTask (call : Nat) : Task :=
  ⟨call, true, false⟩

def tasksOf (call : Nat) : List Task :=
  immediateTask layerIdx path model call :: if queues path model call then [deferredTask call] else []

def schedule : Nat → List Task
  | 0 => []
  | call + 1 => schedule call ++ tasksOf layerIdx path model call

def queuedAt (call : Nat) : Pipeline.Stage → List Task
  | .prepare | .wait | .submit => []
  | .clearFlag | .waitDeferred | .submitDeferred => [immediateTask layerIdx path model call]
  | .raiseFlag => [immediateTask layerIdx path model call, deferredTask call]
  | .sync | .copyOutput => tasksOf layerIdx path model call

theorem flagAfter_succ (layer call : Nat) : flagAfter layerIdx path model layer (call + 1) =
    if layerIdx call = layer then queues path model call else flagAfter layerIdx path model layer call := by
  by_cases same : layerIdx call = layer
  · simp only [flagAfter, lastCall, if_pos same]
  · simp only [flagAfter, lastCall, if_neg same]

theorem incrementalAt_eq (call : Nat) : incrementalAt layerIdx path model call =
    match layerIdx call with
    | 0 => false
    | previous + 1 => flagAfter layerIdx path model previous call := by
  simp only [incrementalAt, previousCall, flagAfter]
  cases layerIdx call <;> rfl

/-! ## What the output slots hold -/

/-- The inputs of a deferred task are there until it runs: the next call fills the
other slot, or every id the task reads is negative and stays so. -/
def kept (call : Nat) : Bool :=
  decide (slotOf layerIdx (call + 1) ≠ slotOf layerIdx call) || idle model call && !model.defers (call + 1)

variable [AddCommMonoid V]

def known (task : Task) : Option (Fin batch → V) :=
  if task.deferred then if kept layerIdx model task.call then some (model.deferred task.call) else none
  else some (model.immediate task.call)

def sum (carried added : Option (Fin batch → V)) : Option (Fin batch → V) :=
  match carried, added with
  | some carried, some added => some (carried + added)
  | _, _ => none

def effect (contents : Nat → Option (Fin batch → V)) (task : Task) : Nat → Option (Fin batch → V) :=
  Function.update contents (task.target layerIdx)
    (if task.incremental then sum (contents (task.target layerIdx)) (known layerIdx model task)
    else known layerIdx model task)

/-- What is known of the output slots once some tasks have run; a value that depends on
the schedule or on what the buffers held before is not. -/
def contents (tasks : List Task) : Nat → Option (Fin batch → V) :=
  tasks.foldl (effect layerIdx model) fun _ => none

/-- What a call copies out. -/
def result (call : Nat) : Option (Fin batch → V) :=
  contents layerIdx model (schedule layerIdx path model call ++ [immediateTask layerIdx path model call])
    (slotOf layerIdx call)

end

variable {layerIdx : Nat → Nat} {path : Path} {model : Model batch width R W V}

theorem selects_eq_false (none : selects model call = false) (token : Fin batch) (index : Fin width) :
    model.deferredIds call token index < 0 := by
  have every : ∀ token index, model.deferredIds call token index < 0 := by simpa [selects] using none
  exact every token index

theorem slotOf_lt (layerIdx : Nat → Nat) (call : Nat) : slotOf layerIdx call < 2 :=
  Nat.mod_lt _ (by decide)

/-- A deferred task writes the slot the calls of the other parity write. -/
theorem deferred_target {task : Task} (deferred : task.deferred = true) :
    task.target layerIdx ≠ slotOf layerIdx task.call := by
  have small := slotOf_lt layerIdx task.call
  simp only [Task.target, deferred, if_true, bufferDepth]
  omega

section

variable [AddCommMonoid V]

theorem deferred_idle (none : idle model call = true) : model.deferred call = 0 := by
  simp only [idle, Bool.and_eq_true, Bool.not_eq_true'] at none
  funext token
  rw [Model.deferred, forward, Pi.zero_apply]
  apply Finset.sum_eq_zero
  intro index _
  exact if_neg (not_le.mpr (selects_eq_false none.2 token index))

theorem contents_append (tasks : List Task) (task : Task) :
    contents layerIdx model (tasks ++ [task]) = effect layerIdx model (contents layerIdx model tasks) task := by
  simp [contents]

end

/-! ## The invariant -/

/-- The inputs a queued task will read. -/
def Ready (layerIdx : Nat → Nat) (model : Model batch width R W V) (slots : Nat → Slot batch width R W)
    (task : Task) : Prop :=
  let slot := slots (slotOf layerIdx task.call)
  if task.deferred then
    kept layerIdx model task.call = true →
      slot.deferredExpertsIds = model.deferredIds task.call ∧
        (idle model task.call = false → slot.inputTensor = model.hiddenStates task.call ∧
          slot.weights = model.topkWeights task.call)
  else
    slot.inputTensor = model.hiddenStates task.call ∧ slot.weights = model.topkWeights task.call ∧
      slot.immediateExpertsIds = model.immediateIds task.call

/-- Where the tasks of the queue come from. -/
def Backlog (call : Nat) (stage : Pipeline.Stage) (task : Task) : Prop :=
  match stage with
  | .prepare | .wait | .submit => task.deferred = true ∧ task.call + 1 = call
  | .copyOutput => task.deferred = true ∧ task.call = call
  | _ => (task.deferred = true ∧ task.call + 1 = call) ∨ task.call = call

/-- The copies that may be queued. -/
def Expected (model : Model batch width R W V) (call : Nat) (stage : Pipeline.Stage) (copy : Pipeline.Copy) :
    Prop :=
  match stage with
  | .prepare => ∃ previous, call = previous + 1 ∧ copy = .output previous
  | .wait => (∃ previous, call = previous + 1 ∧ copy = .output previous) ∨ copy = .input call ∨
      copy = .weights call ∨ copy = .immediateIds call ∨
      (copy = .deferredIds call ∧ model.defers call = true)
  | _ => False

/-- Each input of the call is in its slot or its copy is still queued. -/
structure Filling (layerIdx : Nat → Nat) (model : Model batch width R W V) (state : State batch width R W V) :
    Prop where
  input : .input state.call ∈ state.device ∨
    (state.slots (slotOf layerIdx state.call)).inputTensor = model.hiddenStates state.call
  weights : .weights state.call ∈ state.device ∨
    (state.slots (slotOf layerIdx state.call)).weights = model.topkWeights state.call
  immediateIds : .immediateIds state.call ∈ state.device ∨
    (state.slots (slotOf layerIdx state.call)).immediateExpertsIds = model.immediateIds state.call
  deferredIds : model.defers state.call = true → .deferredIds state.call ∈ state.device ∨
    (state.slots (slotOf layerIdx state.call)).deferredExpertsIds = model.deferredIds state.call

variable [AddCommMonoid V]

structure Inv (layerIdx : Nat → Nat) (path : Path) (model : Model batch width R W V)
    (state : State batch width R W V) : Prop where
  order : state.finished ++ state.queue =
    schedule layerIdx path model state.call ++ queuedAt layerIdx path model state.call state.stage
  backlog : ∀ task ∈ state.queue, Backlog state.call state.stage task
  deferring : state.stage.Deferring → queues path model state.call = true
  flags : ∀ layer, layer ≠ layerIdx state.call ∨ state.stage = .prepare ∨ state.stage = .wait ∨
    state.stage = .submit → state.hasPendingDeferred layer = flagAfter layerIdx path model layer state.call
  flag : state.stage = .sync ∨ state.stage = .copyOutput →
    state.hasPendingDeferred (layerIdx state.call) = queues path model state.call
  ready : ∀ task ∈ state.queue, Ready layerIdx model state.slots task
  loaded : ∀ value, state.loaded = some value →
    ∃ task ∈ state.queue.head?, ∀ expected, known layerIdx model task = some expected → value = expected
  filling : state.stage ≠ .prepare → Filling layerIdx model state
  copies : ∀ copy ∈ state.device, Expected model state.call state.stage copy
  outputs : ∀ slot value, contents layerIdx model state.finished slot = some value → state.output slot = value
  leaving : ∀ call, .output call ∈ state.device → ∀ value, result layerIdx path model call = some value →
    state.output (slotOf layerIdx call) = value
  left : ∀ call value, state.results call = some value → ∀ expected,
    result layerIdx path model call = some expected → value = expected
  copied : ∀ call < state.call, state.results call = none → .output call ∈ state.device

variable {state after : State batch width R W V}

/-- After the wait nothing is queued on the device. -/
theorem Inv.device_nil (inv : Inv layerIdx path model state) (prepared : state.stage ≠ .prepare)
    (waited : state.stage ≠ .wait) : state.device = [] := by
  apply List.eq_nil_iff_forall_not_mem.mpr
  intro copy member
  have expected := inv.copies copy member
  cases stage : state.stage <;> simp_all [Expected]

theorem Inv.filled (inv : Inv layerIdx path model state) (prepared : state.stage ≠ .prepare)
    (drained : state.device = []) :
    let slot := state.slots (slotOf layerIdx state.call)
    slot.inputTensor = model.hiddenStates state.call ∧ slot.weights = model.topkWeights state.call ∧
      slot.immediateExpertsIds = model.immediateIds state.call ∧
      (model.defers state.call = true → slot.deferredExpertsIds = model.deferredIds state.call) := by
  have filling := inv.filling prepared
  have absent : ∀ copy, copy ∉ state.device := by simp [drained]
  exact ⟨filling.input.resolve_left (absent _), filling.weights.resolve_left (absent _),
    filling.immediateIds.resolve_left (absent _),
    fun defers => (filling.deferredIds defers).resolve_left (absent _)⟩

/-- Both paths decide by what the selection defers, once the copies have run. -/
theorem Inv.hasDeferred_eq (inv : Inv layerIdx path model state) (prepared : state.stage ≠ .prepare)
    (drained : state.device = []) : hasDeferred layerIdx path model state = queues path model state.call := by
  cases path with
  | submitted => rfl
  | pinned =>
      cases defers : model.defers state.call with
      | false => simp only [hasDeferred, queues, defers, Bool.false_and]
      | true =>
          have ids := (inv.filled prepared drained).2.2.2 defers
          simp only [hasDeferred, queues, defers, Bool.true_and, ids, selects]

theorem forward_congr {slot other : Slot batch width R W} (input : slot.inputTensor = other.inputTensor)
    (weights : slot.weights = other.weights) (ids : Fin batch → Fin width → Int) :
    forward model call slot ids = forward model call other ids := by
  funext token
  rw [forward, forward, input, weights]

theorem valueIn_ready {task : Task} {slots : Nat → Slot batch width R W}
    (ready : Ready layerIdx model slots task) (expected : known layerIdx model task = some value) :
    valueIn model task (slots (slotOf layerIdx task.call)) = value := by
  obtain ⟨call, deferred, incremental⟩ := task
  cases deferred with
  | false =>
      simp only [known, Bool.false_eq_true, if_false, Option.some.injEq] at expected
      simp only [Ready, Bool.false_eq_true, if_false] at ready
      obtain ⟨input, weights, ids⟩ := ready
      subst expected
      simp only [valueIn, Bool.false_eq_true, if_false, ids]
      exact forward_congr input weights _
  | true =>
      simp only [known, if_true] at expected
      split at expected
      · rename_i stays
        simp only [Option.some.injEq] at expected
        simp only [Ready, if_true] at ready
        obtain ⟨ids, inputs⟩ := ready stays
        subst expected
        cases none : idle model call with
        | false =>
            obtain ⟨input, weights⟩ := inputs none
            simp only [valueIn, if_true, ids]
            exact forward_congr input weights _
        | true =>
            rw [deferred_idle none]
            simp only [idle, Bool.and_eq_true, Bool.not_eq_true'] at none
            funext token
            simp only [valueIn, if_true, forward, ids, Pi.zero_apply]
            apply Finset.sum_eq_zero
            intro index _
            exact if_neg (not_le.mpr (selects_eq_false none.2 token index))
      · contradiction

theorem initial_inv (slots : Nat → Slot batch width R W) (output : Nat → Fin batch → V) :
    Inv layerIdx path model { slots := slots, output := output } := by
  constructor <;>
    simp [schedule, queuedAt, flagAfter, lastCall, contents, Pipeline.Stage.Deferring]

theorem Inv.load (inv : Inv layerIdx path model state) {task : Task} {rest : List Task}
    (queue : state.queue = task :: rest) :
    Inv layerIdx path model
      { state with loaded := some (valueIn model task (state.slots (slotOf layerIdx task.call))) } :=
  { inv with
    filling := fun prepared =>
      let filling := inv.filling prepared
      ⟨filling.input, filling.weights, filling.immediateIds, filling.deferredIds⟩
    loaded := fun value same => by
      cases same
      refine ⟨task, by simp [queue], fun expected known => ?_⟩
      exact valueIn_ready (inv.ready task (by simp [queue])) known }

theorem Inv.store (inv : Inv layerIdx path model state) {task : Task} {rest : List Task}
    (queue : state.queue = task :: rest) (loaded : state.loaded = some value) :
    Inv layerIdx path model
      { state with
        output := Function.update state.output (task.target layerIdx)
          (if task.incremental then state.output (task.target layerIdx) + value else value)
        queue := rest
        loaded := none
        finished := state.finished ++ [task] } := by
  have later : ∀ other ∈ rest, other ∈ state.queue := fun other waits => by simp [queue, waits]
  have computed : ∀ expected, known layerIdx model task = some expected → value = expected := by
    obtain ⟨head, first, computed⟩ := inv.loaded value loaded
    rw [queue, List.head?_cons, Option.mem_some_iff] at first
    subst first
    exact computed
  exact { inv with
    order := by
      have order := inv.order
      rw [queue] at order
      simpa using order
    backlog := fun other waits => inv.backlog other (later other waits)
    ready := fun other waits => inv.ready other (later other waits)
    loaded := fun _ none => by contradiction
    filling := fun prepared =>
      let filling := inv.filling prepared
      ⟨filling.input, filling.weights, filling.immediateIds, filling.deferredIds⟩
    outputs := fun slot result held => by
      rw [contents_append, effect] at held
      by_cases same : slot = task.target layerIdx
      · subst same
        rw [Function.update_self] at held
        simp only [Function.update_self]
        cases adds : task.incremental with
        | false =>
            simp only [adds, Bool.false_eq_true, if_false] at held ⊢
            exact computed result held
        | true =>
            simp only [adds, if_true] at held ⊢
            simp only [sum] at held
            split at held
            · rename_i carried added before own
              cases held
              rw [inv.outputs _ carried before, computed added own]
            · contradiction
      · rw [Function.update_of_ne same] at held
        exact (Function.update_of_ne same _ _).trans (inv.outputs slot result held)
    leaving := fun call copy result held => by
      have differ : slotOf layerIdx call ≠ task.target layerIdx := by
        have expected := inv.copies _ copy
        have backlog := inv.backlog task (by simp [queue])
        have early : state.stage = .prepare ∨ state.stage = .wait := by
          cases stage : state.stage <;> simp_all [Expected]
        have previous : task.deferred = true ∧ task.call = call := by
          rcases early with stage | stage <;> simp only [stage, Expected, Backlog] at expected backlog <;>
            refine ⟨backlog.1, ?_⟩ <;> grind
        rw [← previous.2]
        exact (deferred_target previous.1).symm
      simp only [Function.update_of_ne differ]
      exact inv.leaving call copy result held }

omit [AddCommMonoid V] in
/-- A copy of the next call leaves alone what a deferred task still has to read. -/
theorem Ready.fill {change : Slot batch width R W → Slot batch width R W} {task : Task}
    (ready : Ready layerIdx model state.slots task) (deferred : task.deferred = true)
    (spares : model.defers (task.call + 1) = false →
      ∀ slot, (change slot).deferredExpertsIds = slot.deferredExpertsIds) :
    Ready layerIdx model (fill layerIdx (task.call + 1) change state) task := by
  simp only [Ready, deferred, if_true] at ready ⊢
  intro stays
  obtain ⟨ids, inputs⟩ := ready stays
  by_cases same : slotOf layerIdx task.call = slotOf layerIdx (task.call + 1)
  · have quiet : idle model task.call = true ∧ model.defers (task.call + 1) = false := by
      simpa [kept, same] using stays
    rw [Paths.fill, same, Function.update_self, spares quiet.2, ← same]
    exact ⟨ids, fun busy => by rw [quiet.1] at busy; contradiction⟩
  · rw [Paths.fill, Function.update_of_ne same]
    exact ⟨ids, inputs⟩

theorem Inv.deviceInput (inv : Inv layerIdx path model state) {copy : Pipeline.Copy}
    {rest : List Pipeline.Copy} {change : Slot batch width R W → Slot batch width R W}
    (queued : state.device = copy :: rest) (input : ∀ call, copy ≠ .output call)
    (spares : model.defers state.call = false → ∀ slot, (change slot).deferredExpertsIds = slot.deferredExpertsIds)
    (filling : Filling layerIdx model
      { state with slots := fill layerIdx state.call change state, device := rest }) :
    Inv layerIdx path model { state with slots := fill layerIdx state.call change state, device := rest } := by
  have member : copy ∈ state.device := by simp [queued]
  have waits : state.stage = .wait := by
    have expected := inv.copies copy member
    cases stage : state.stage <;> simp_all [Expected]
  have later : ∀ other ∈ rest, other ∈ state.device := fun other waits => by simp [queued, waits]
  have stays : ∀ call, .output call ∈ state.device → .output call ∈ rest := by
    intro call old
    rw [queued] at old
    exact (List.mem_cons.mp old).resolve_left (input call).symm
  exact { inv with
    ready := fun task queued => by
      have backlog := inv.backlog task queued
      simp only [waits, Backlog] at backlog
      have kept : Ready layerIdx model (fill layerIdx (task.call + 1) change state) task :=
        (inv.ready task queued).fill backlog.1 (by rwa [backlog.2])
      rwa [backlog.2] at kept
    filling := fun _ => filling
    copies := fun other waits => inv.copies other (later other waits)
    leaving := fun call waits => inv.leaving call (later _ waits)
    copied := fun call early none => stays call (inv.copied call early none) }

theorem Inv.current (inv : Inv layerIdx path model state) {copy : Pipeline.Copy} {rest : List Pipeline.Copy}
    (queued : state.device = copy :: rest) (input : ∀ call, copy ≠ .output call) :
    Filling layerIdx model state ∧ (copy = .input state.call ∨ copy = .weights state.call ∨
      copy = .immediateIds state.call ∨ (copy = .deferredIds state.call ∧ model.defers state.call = true)) := by
  have expected := inv.copies copy (by simp [queued])
  have waits : state.stage = .wait := by
    cases stage : state.stage <;> simp_all [Expected]
  simp only [waits, Expected] at expected
  obtain ⟨previous, -, same⟩ | inputs := expected
  · exact absurd same (input previous)
  · exact ⟨inv.filling (by simp [waits]), inputs⟩

theorem Inv.device (inv : Inv layerIdx path model state)
    (moved : deviceStep layerIdx model state = some after) : Inv layerIdx path model after := by
  simp only [deviceStep] at moved
  split at moved
  · contradiction
  · rename_i call rest queued
    cases moved
    obtain ⟨filling, expected⟩ := inv.current queued nofun
    obtain rfl : call = state.call := by simpa using expected
    exact inv.deviceInput queued nofun (fun _ _ => rfl) {
      input := .inr (by simp [fill])
      weights := by simpa [queued, fill] using filling.weights
      immediateIds := by simpa [queued, fill] using filling.immediateIds
      deferredIds := by simpa [queued, fill] using filling.deferredIds }
  · rename_i call rest queued
    cases moved
    obtain ⟨filling, expected⟩ := inv.current queued nofun
    obtain rfl : call = state.call := by simpa using expected
    exact inv.deviceInput queued nofun (fun _ _ => rfl) {
      input := by simpa [queued, fill] using filling.input
      weights := .inr (by simp [fill])
      immediateIds := by simpa [queued, fill] using filling.immediateIds
      deferredIds := by simpa [queued, fill] using filling.deferredIds }
  · rename_i call rest queued
    cases moved
    obtain ⟨filling, expected⟩ := inv.current queued nofun
    obtain rfl : call = state.call := by simpa using expected
    exact inv.deviceInput queued nofun (fun _ _ => rfl) {
      input := by simpa [queued, fill] using filling.input
      weights := by simpa [queued, fill] using filling.weights
      immediateIds := .inr (by simp [fill])
      deferredIds := by simpa [queued, fill] using filling.deferredIds }
  · rename_i call rest queued
    cases moved
    obtain ⟨filling, expected⟩ := inv.current queued nofun
    obtain ⟨rfl, defers⟩ : call = state.call ∧ model.defers state.call = true := by simpa using expected
    exact inv.deviceInput queued nofun (fun keeps => absurd keeps (by simp [defers])) {
      input := by simpa [queued, fill] using filling.input
      weights := by simpa [queued, fill] using filling.weights
      immediateIds := by simpa [queued, fill] using filling.immediateIds
      deferredIds := fun _ => .inr (by simp [fill]) }
  · rename_i call rest queued
    cases moved
    have later : ∀ other ∈ rest, other ∈ state.device := fun other waits => by simp [queued, waits]
    exact { inv with
      filling := fun prepared => by
        have filling := inv.filling prepared
        exact {
          input := by simpa [queued] using filling.input
          weights := by simpa [queued] using filling.weights
          immediateIds := by simpa [queued] using filling.immediateIds
          deferredIds := by simpa [queued] using filling.deferredIds }
      copies := fun other waits => inv.copies other (later other waits)
      leaving := fun other waits => inv.leaving other (later _ waits)
      left := fun other value same expected held => by
        by_cases own : other = call
        · subst own
          simp only [Function.update_self, Option.some.injEq] at same
          rw [← same]
          exact inv.leaving other (by simp [queued]) expected held
        · simp only [Function.update_of_ne own] at same
          exact inv.left other value same expected held
      copied := fun other early none => by
        by_cases own : other = call
        · subst own
          simp at none
        · simp only [Function.update_of_ne own] at none
          have waits := inv.copied other early none
          rw [queued] at waits
          exact (List.mem_cons.mp waits).resolve_left (by simpa using own) }

/-! ## The host -/

omit [AddCommMonoid V] in
theorem Filling.of_stage (filling : Filling layerIdx model state)
    (slots : after.slots = state.slots) (call : after.call = state.call) (device : after.device = state.device) :
    Filling layerIdx model after := by
  constructor <;> rw [slots, call, device]
  exacts [filling.input, filling.weights, filling.immediateIds, filling.deferredIds]

theorem Inv.prepare (inv : Inv layerIdx path model state) (stage : state.stage = .prepare) :
    Inv layerIdx path model { state with
      device := state.device ++ [.input state.call, .weights state.call, .immediateIds state.call] ++
        if model.defers state.call then [.deferredIds state.call] else []
      stage := .wait } where
  order := by simpa [stage, queuedAt] using inv.order
  backlog task queued := by simpa [stage, Backlog] using inv.backlog task queued
  deferring deferring := by contradiction
  flags layer _ := inv.flags layer (.inr (.inl stage))
  flag synced := by simp at synced
  ready := inv.ready
  loaded := inv.loaded
  filling _ := {
    input := by simp
    weights := by simp
    immediateIds := by simp
    deferredIds := fun defers => .inl (by simp [show model.defers state.call = true from defers]) }
  copies copy queued := by
    simp only [List.mem_append, List.mem_cons, List.not_mem_nil, or_false] at queued
    simp only [Expected]
    rcases queued with (old | rfl | rfl | rfl) | last
    · have expected := inv.copies copy old
      rw [stage] at expected
      exact .inl expected
    · simp
    · simp
    · simp
    · cases defers : model.defers state.call <;> simp_all
  outputs := inv.outputs
  leaving call queued := by
    have old : .output call ∈ state.device := by
      cases defers : model.defers state.call <;> simp_all
    exact inv.leaving call old
  left := inv.left
  copied call early none := by simp [inv.copied call early none]

theorem Inv.goOn (inv : Inv layerIdx path model state) (next : Pipeline.Stage) (hasPendingDeferred : Nat → Bool)
    (drained : state.device = []) (prepared : state.stage ≠ .prepare)
    (order : queuedAt layerIdx path model state.call next = queuedAt layerIdx path model state.call state.stage)
    (backlog : ∀ task ∈ state.queue, Backlog state.call next task)
    (deferring : next.Deferring → queues path model state.call = true)
    (flags : ∀ layer, layer ≠ layerIdx state.call ∨ next = .prepare ∨ next = .wait ∨ next = .submit →
      hasPendingDeferred layer = flagAfter layerIdx path model layer state.call)
    (flag : next = .sync ∨ next = .copyOutput →
      hasPendingDeferred (layerIdx state.call) = queues path model state.call) :
    Inv layerIdx path model { state with hasPendingDeferred := hasPendingDeferred, stage := next } :=
  { inv with
    order := inv.order.trans (by rw [order])
    backlog := backlog
    deferring := deferring
    flags := flags
    flag := flag
    filling := fun _ => (inv.filling prepared).of_stage rfl rfl rfl
    copies := fun copy queued => by
      rw [show state.device = [] from drained] at queued
      contradiction }

theorem Inv.submit (inv : Inv layerIdx path model state) (stage : state.stage = .submit) :
    Inv layerIdx path model { state with
      queue := state.queue ++ [⟨state.call, false, state.incremental layerIdx⟩]
      stage := .clearFlag } := by
  have drained : state.device = [] := inv.device_nil (by simp [stage]) (by simp [stage])
  have task : (⟨state.call, false, state.incremental layerIdx⟩ : Task) =
      immediateTask layerIdx path model state.call := by
    rw [immediateTask, incrementalAt_eq, State.incremental]
    cases layerIdx state.call with
    | zero => rfl
    | succ previous => simp only [inv.flags previous (.inr (.inr (.inr stage)))]
  rw [task]
  obtain ⟨input, weights, ids, -⟩ := inv.filled (by simp [stage]) drained
  exact { inv with
    order := by
      have order := inv.order
      simp only [stage, queuedAt, List.append_nil] at order
      simp only [queuedAt, ← List.append_assoc, order]
    backlog := fun other queued => by
      rcases List.mem_append.mp queued with old | new
      · have backlog := inv.backlog other old
        simp only [stage, Backlog] at backlog
        exact .inl backlog
      · rw [List.mem_singleton.mp new]
        exact .inr rfl
    deferring := fun deferring => by contradiction
    flags := fun layer other => inv.flags layer (.inr (.inr (.inr stage)))
    flag := fun synced => by simp at synced
    ready := fun other queued => by
      rcases List.mem_append.mp queued with old | new
      · exact inv.ready other old
      · rw [List.mem_singleton.mp new]
        exact ⟨input, weights, ids⟩
    loaded := fun value loaded => by
      obtain ⟨head, first, computed⟩ := inv.loaded value loaded
      refine ⟨head, ?_, computed⟩
      simp [Option.mem_def.mp first]
    filling := fun _ => (inv.filling (by simp [stage])).of_stage rfl rfl rfl
    copies := fun copy queued => by
      rw [show state.device = [] from drained] at queued
      contradiction }

theorem Inv.submitDeferred (inv : Inv layerIdx path model state) (stage : state.stage = .submitDeferred) :
    Inv layerIdx path model { state with
      queue := state.queue ++ [⟨state.call, true, false⟩]
      stage := .raiseFlag } := by
  have drained : state.device = [] := inv.device_nil (by simp [stage]) (by simp [stage])
  have queues : queues path model state.call = true := inv.deferring (by simp [stage, Pipeline.Stage.Deferring])
  have defers : model.defers state.call = true := by
    cases path with
    | submitted => exact queues
    | pinned => exact (Bool.and_eq_true _ _ ▸ queues).1
  obtain ⟨input, weights, -, ids⟩ := inv.filled (by simp [stage]) drained
  exact { inv with
    order := by
      have order := inv.order
      simp only [stage, queuedAt] at order
      simp only [queuedAt, ← List.append_assoc, order]
      simp [deferredTask]
    backlog := fun other queued => by
      rcases List.mem_append.mp queued with old | new
      · have backlog := inv.backlog other old
        simp only [stage, Backlog] at backlog
        exact backlog
      · rw [List.mem_singleton.mp new]
        exact .inr rfl
    deferring := fun _ => queues
    flags := fun layer other => inv.flags layer (.inl (by simpa using other))
    flag := fun synced => by simp at synced
    ready := fun other queued => by
      rcases List.mem_append.mp queued with old | new
      · exact inv.ready other old
      · rw [List.mem_singleton.mp new]
        exact fun _ => ⟨ids defers, fun _ => ⟨input, weights⟩⟩
    loaded := fun value loaded => by
      obtain ⟨head, first, computed⟩ := inv.loaded value loaded
      refine ⟨head, ?_, computed⟩
      simp [Option.mem_def.mp first]
    filling := fun _ => (inv.filling (by simp [stage])).of_stage rfl rfl rfl
    copies := fun copy queued => by
      rw [show state.device = [] from drained] at queued
      contradiction }

theorem Inv.clearFlag (stage : state.stage = .clearFlag) :
    Inv layerIdx path model state → Inv layerIdx path model { state with
      hasPendingDeferred := Function.update state.hasPendingDeferred (layerIdx state.call) false
      stage := if hasDeferred layerIdx path model state then
          match path with
          | .submitted => .waitDeferred
          | .pinned => .submitDeferred
        else .sync } := by
  intro inv
  have drained : state.device = [] := inv.device_nil (by simp [stage]) (by simp [stage])
  rw [inv.hasDeferred_eq (by simp [stage]) drained]
  have others : ∀ layer, layer ≠ layerIdx state.call →
      Function.update state.hasPendingDeferred (layerIdx state.call) false layer =
        flagAfter layerIdx path model layer state.call :=
    fun layer differ => (Function.update_of_ne differ _ _).trans (inv.flags layer (.inl differ))
  have backlog : ∀ task ∈ state.queue,
      (task.deferred = true ∧ task.call + 1 = state.call) ∨ task.call = state.call := by
    simpa only [stage, Backlog] using inv.backlog
  cases queues : queues path model state.call with
  | true =>
      cases path with
      | submitted =>
          exact inv.goOn .waitDeferred _ drained (by simp [stage]) (by rw [stage]; rfl) backlog
            (fun _ => queues) (fun layer other => others layer (by simpa using other))
            (fun synced => by simp at synced)
      | pinned =>
          exact inv.goOn .submitDeferred _ drained (by simp [stage]) (by rw [stage]; rfl) backlog
            (fun _ => queues) (fun layer other => others layer (by simpa using other))
            (fun synced => by simp at synced)
  | false =>
      exact inv.goOn .sync _ drained (by simp [stage]) (by simp [stage, queuedAt, tasksOf, queues]) backlog
        (fun deferring => by contradiction) (fun layer other => others layer (by simpa using other))
        (fun _ => by rw [Function.update_self, queues])

theorem Inv.raiseFlag (inv : Inv layerIdx path model state) (stage : state.stage = .raiseFlag) :
    Inv layerIdx path model { state with
      hasPendingDeferred := Function.update state.hasPendingDeferred (layerIdx state.call) true
      stage := .sync } := by
  have queues := inv.deferring (by simp [stage, Pipeline.Stage.Deferring])
  apply inv.goOn .sync _ (inv.device_nil (by simp [stage]) (by simp [stage])) (by simp [stage])
  · simp [stage, queuedAt, tasksOf, queues]
  · simpa only [stage, Backlog] using inv.backlog
  · exact fun deferring => by contradiction
  · intro layer other
    have differ : layer ≠ layerIdx state.call := by simpa using other
    exact (Function.update_of_ne differ _ _).trans (inv.flags layer (.inl differ))
  · exact fun _ => by rw [Function.update_self, queues]

theorem Inv.sync (inv : Inv layerIdx path model state) (stage : state.stage = .sync)
    (drained : state.queue.length ≤ state.allowPending layerIdx) :
    Inv layerIdx path model { state with stage := .copyOutput } := by
  have quiet : state.device = [] := inv.device_nil (by simp [stage]) (by simp [stage])
  have flag := inv.flag (.inl stage)
  apply inv.goOn .copyOutput state.hasPendingDeferred quiet (by simp [stage]) (by rw [stage]; rfl)
  · intro task queued
    have order := inv.order
    simp only [stage, queuedAt, tasksOf] at order
    simp only [State.allowPending, flag] at drained
    have single : state.queue = [task] := by
      have some := List.length_pos_of_mem queued
      have one : state.queue.length = 1 := by
        split at drained <;> omega
      obtain ⟨only, same⟩ := List.length_eq_one_iff.mp one
      rw [same, List.mem_singleton] at queued
      rw [same, queued]
    cases queues : queues path model state.call with
    | false =>
        rw [queues] at drained
        simp [single] at drained
    | true =>
        rw [single, queues, if_pos rfl] at order
        have last := congrArg List.getLast? order
        simp only [List.getLast?_append, List.getLast?_singleton, List.getLast?_cons_cons, Option.some_or,
          Option.some.injEq] at last
        rw [last]
        exact ⟨rfl, rfl⟩
  · exact fun deferring => by contradiction
  · exact fun layer other => inv.flags layer (.inl (by simpa using other))
  · exact fun _ => flag

theorem contents_deferredTask (tasks : List Task) (call : Nat) :
    contents layerIdx model (tasks ++ [deferredTask call]) (slotOf layerIdx call) =
      contents layerIdx model tasks (slotOf layerIdx call) := by
  have other : (deferredTask call).target layerIdx ≠ slotOf layerIdx (deferredTask call).call :=
    deferred_target rfl
  have target : slotOf layerIdx call ≠ (deferredTask call).target layerIdx := other.symm
  rw [contents_append, effect, Function.update_of_ne target]

/-- Whether or not the deferred task has run, the slot of the call holds its result. -/
theorem Inv.contents_copyOutput (inv : Inv layerIdx path model state) (stage : state.stage = .copyOutput) :
    contents layerIdx model state.finished (slotOf layerIdx state.call) =
      result layerIdx path model state.call := by
  have order := inv.order
  simp only [stage, queuedAt, tasksOf] at order
  rw [List.append_cons] at order
  rcases List.append_eq_append_iff.mp order with ⟨more, early, waits⟩ | ⟨more, late, tail⟩
  · cases more using List.reverseRecOn with
    | nil => rw [← List.append_nil state.finished, ← early, result]
    | append_singleton front last =>
        rw [← List.append_assoc] at early
        have same := (List.append_inj' early rfl).2
        have backlog := inv.backlog last (by simp [waits])
        simp only [stage, Backlog, ← List.singleton_inj.mp same] at backlog
        exact absurd backlog.1 (by simp [immediateTask])
  · cases more with
    | nil => rw [late, List.append_nil, result]
    | cons first rest =>
        have queues : queues path model state.call = true := by
          by_contra none
          simp [none] at tail
        rw [queues, if_pos rfl] at tail
        obtain ⟨rfl, nothing⟩ := List.cons.inj tail
        obtain ⟨rfl, -⟩ := List.append_eq_nil_iff.mp nothing.symm
        rw [late, contents_deferredTask, result]

theorem Inv.copyOutput (inv : Inv layerIdx path model state) (stage : state.stage = .copyOutput) :
    Inv layerIdx path model { state with
      device := state.device ++ [.output state.call]
      call := state.call + 1
      stage := .prepare } := by
  have quiet : state.device = [] := inv.device_nil (by simp [stage]) (by simp [stage])
  exact { inv with
    order := by
      have order := inv.order
      simp only [stage, queuedAt] at order
      simpa only [queuedAt, schedule, List.append_nil] using order
    backlog := fun task queued => by
      have backlog := inv.backlog task queued
      simp only [stage, Backlog] at backlog
      exact ⟨backlog.1, by rw [backlog.2]⟩
    deferring := fun deferring => by contradiction
    flags := fun layer _ => by
      rw [flagAfter_succ]
      split
      · rename_i same
        rw [← same]
        exact inv.flag (.inr stage)
      · rename_i differ
        exact inv.flags layer (.inl (fun same => differ same.symm))
    flag := fun synced => by simp at synced
    filling := fun prepared => by contradiction
    copies := fun copy queued => by
      rw [quiet] at queued
      exact ⟨state.call, rfl, List.mem_singleton.mp queued⟩
    leaving := fun call queued value known => by
      rw [quiet] at queued
      obtain rfl : call = state.call := by simpa using queued
      exact inv.outputs _ value ((inv.contents_copyOutput stage).trans known)
    copied := fun call early none => by
      rcases Nat.lt_succ_iff_lt_or_eq.mp early with before | rfl
      · have old := inv.copied call before none
        rw [quiet] at old
        contradiction
      · simp }

theorem Inv.host (inv : Inv layerIdx path model state)
    (moved : hostStep layerIdx path model state = some after) : Inv layerIdx path model after := by
  cases stage : state.stage with
  | prepare =>
      simp only [hostStep, stage] at moved
      split at moved
      · cases moved
        exact inv.prepare stage
      · contradiction
  | wait =>
      simp only [hostStep, stage] at moved
      split at moved
      · rename_i drained
        cases moved
        have backlog : ∀ task ∈ state.queue, Backlog state.call .submit task := by
          have backlog := inv.backlog
          rw [stage] at backlog
          exact backlog
        exact inv.goOn .submit state.hasPendingDeferred drained (by simp [stage]) (by rw [stage]; rfl) backlog
          (fun deferring => by contradiction) (fun layer _ => inv.flags layer (.inr (.inr (.inl stage))))
          (fun synced => by simp at synced)
      · contradiction
  | submit =>
      simp only [hostStep, stage, Option.some.injEq] at moved
      exact moved ▸ inv.submit stage
  | clearFlag =>
      simp only [hostStep, stage, Option.some.injEq] at moved
      exact moved ▸ Inv.clearFlag stage inv
  | waitDeferred =>
      simp only [hostStep, stage] at moved
      split at moved
      · rename_i drained
        cases moved
        have backlog : ∀ task ∈ state.queue, Backlog state.call .submitDeferred task := by
          have backlog := inv.backlog
          rw [stage] at backlog
          exact backlog
        exact inv.goOn .submitDeferred state.hasPendingDeferred drained (by simp [stage]) (by rw [stage]; rfl)
          backlog (fun _ => inv.deferring (by simp [stage, Pipeline.Stage.Deferring]))
          (fun layer other => inv.flags layer (.inl (by simpa using other))) (fun synced => by simp at synced)
      · contradiction
  | submitDeferred =>
      simp only [hostStep, stage, Option.some.injEq] at moved
      exact moved ▸ inv.submitDeferred stage
  | raiseFlag =>
      simp only [hostStep, stage, Option.some.injEq] at moved
      exact moved ▸ inv.raiseFlag stage
  | sync =>
      simp only [hostStep, stage] at moved
      split at moved
      · rename_i drained
        cases moved
        exact inv.sync stage drained
      · contradiction
  | copyOutput =>
      simp only [hostStep, stage, Option.some.injEq] at moved
      exact moved ▸ inv.copyOutput stage

theorem inv_of_reachable (reached : (machine layerIdx path model).Reachable state) :
    Inv layerIdx path model state := by
  induction reached with
  | initial starts =>
      obtain ⟨slots, output, rfl⟩ := starts
      exact initial_inv slots output
  | @step before action after _ moved inv =>
      cases action with
      | host => exact inv.host moved
      | device => exact inv.device moved
      | load =>
          simp only [machine, step] at moved
          split at moved
          · rename_i queue idle
            cases moved
            exact inv.load queue
          · contradiction
      | store =>
          simp only [machine, step] at moved
          split at moved
          · rename_i queue loaded
            cases moved
            exact inv.store queue loaded
          · contradiction

end KtKernel.Experts.Paths
