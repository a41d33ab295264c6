import KtKernel.Experts.Pipeline

namespace KtKernel.Experts

open KtKernel.Data

variable {batch width : Nat} {R W V : Type}

/-! ## The classification of the pairs -/

theorem selectDeferredExperts_split (topk : TopK batch width W)
    (expertIds : Fin batch → Fin width → Int) (expertScores : Fin batch → Fin width → W)
    (protectedK : Int) (token : Fin batch) (index : Fin width) :
    let ids := selectDeferredExperts topk expertIds expertScores protectedK
    (ids.1 token index = expertIds token index ∧ ids.2 token index = -1) ∨
      (ids.1 token index = -1 ∧ ids.2 token index = expertIds token index) := by
  unfold selectDeferredExperts
  dsimp only
  split
  · exact .inr ⟨rfl, rfl⟩
  · dsimp only
    split
    · exact .inl ⟨rfl, rfl⟩
    · exact .inr ⟨rfl, rfl⟩

namespace Model

variable (model : Model batch width R W V)

/-- The pair is computed by the layer's immediate task. -/
def isImmediate (layer : Nat) (token : Fin batch) (index : Fin width) : Bool :=
  decide (0 ≤ model.immediateIds layer token index)

/-- The pair is left to the layer's deferred task. -/
def isDeferred (layer : Nat) (token : Fin batch) (index : Fin width) : Bool :=
  model.defers layer && decide (0 ≤ model.deferredIds layer token index)

def contribution (layer : Nat) (token : Fin batch) (index : Fin width) : V :=
  model.expert layer (model.hiddenStates layer token) (model.topkIds layer token index)
    (model.topkWeights layer token index)

/-- Every pair is immediate or deferred at its layer and not both, with its own
id. -/
theorem classified (layer : Nat) (token : Fin batch) (index : Fin width) :
    (model.isImmediate layer token index = true ∧ model.isDeferred layer token index = false ∧
        model.immediateIds layer token index = model.topkIds layer token index) ∨
      (model.isImmediate layer token index = false ∧ model.isDeferred layer token index = true ∧
        model.deferredIds layer token index = model.topkIds layer token index) := by
  have range := model.inRange layer token index
  unfold isImmediate isDeferred immediateIds deferredIds
  cases defers : model.defers layer with
  | false =>
      left
      simpa using range.1
  | true =>
      simp only [if_true, Bool.true_and]
      rcases selectDeferredExperts_split model.topk (model.topkIds layer) (model.topkWeights layer)
        (width - model.maxDeferredExpertsPerToken layer) token index with ⟨own, other⟩ | ⟨other, own⟩
      · left
        refine ⟨?_, ?_, own⟩
        · simpa only [selection, own, decide_eq_true_eq] using range.1
        · simp only [selection, other]
          decide
      · right
        refine ⟨?_, ?_, own⟩
        · simp only [selection, other]
          decide
        · simpa only [selection, own, decide_eq_true_eq] using range.1

def slotOf (layer : Nat) : Slot batch width R W :=
  ⟨model.hiddenStates layer, model.topkWeights layer, model.immediateIds layer, model.deferredIds layer⟩

variable [AddCommMonoid V]

def immediate (layer : Nat) : Fin batch → V :=
  forward model layer (model.slotOf layer) (model.immediateIds layer)

def deferred (layer : Nat) : Fin batch → V :=
  forward model layer (model.slotOf layer) (model.deferredIds layer)

/-- The deferred output the layer's immediate task adds to. -/
def carried : Nat → Option (Fin batch → V)
  | 0 => none
  | previous + 1 => if model.defers previous then some (model.deferred previous) else none

/-- What the layer copies out. -/
def total (layer : Nat) : Fin batch → V :=
  match model.carried layer with
  | some value => value + model.immediate layer
  | none => model.immediate layer

theorem immediate_eq (layer : Nat) (token : Fin batch) :
    model.immediate layer token = ∑ index, if model.isImmediate layer token index then
      model.contribution layer token index else 0 := by
  unfold immediate forward
  apply Finset.sum_congr rfl
  intro index _
  rcases model.classified layer token index with ⟨immediate, _, own⟩ | ⟨other, _, _⟩
  · have active := of_decide_eq_true immediate
    rw [if_pos active, if_pos immediate, own]
    rfl
  · have inactive := of_decide_eq_false other
    rw [if_neg inactive, if_neg (by rw [other]; nofun)]

theorem deferred_eq (layer : Nat) (defers : model.defers layer = true) (token : Fin batch) :
    model.deferred layer token = ∑ index, if model.isDeferred layer token index then
      model.contribution layer token index else 0 := by
  unfold deferred forward
  apply Finset.sum_congr rfl
  intro index _
  have decided : model.isDeferred layer token index =
      decide (0 ≤ model.deferredIds layer token index) := by
    rw [isDeferred, defers, Bool.true_and]
  rcases model.classified layer token index with ⟨_, other, _⟩ | ⟨_, deferred, own⟩
  · have inactive := of_decide_eq_false (decided.symm.trans other)
    rw [if_neg inactive, if_neg (by rw [other]; nofun)]
  · have active := of_decide_eq_true (decided.symm.trans deferred)
    rw [if_pos active, if_pos deferred, own]
    rfl

end Model

namespace Pipeline

/-! ## The tasks of a pass in their order -/

section

variable (model : Model batch width R W V)

/-- The previous layer leaves a deferred task behind. -/
def pends : Nat → Bool
  | 0 => false
  | previous + 1 => model.defers previous

def immediateTask (layer : Nat) : Task :=
  ⟨layer, false, pends model layer⟩

def deferredTask (layer : Nat) : Task :=
  ⟨layer, true, false⟩

def tasksOf (layer : Nat) : List Task :=
  immediateTask model layer :: if model.defers layer then [deferredTask layer] else []

def schedule : Nat → List Task
  | 0 => []
  | layer + 1 => schedule layer ++ tasksOf model layer

/-- The tasks of the current layer already in the queue. -/
def submitted (layer : Nat) : Stage → List Task
  | .prepare | .wait | .submit => []
  | .clearFlag | .waitDeferred | .submitDeferred => [immediateTask model layer]
  | .raiseFlag => [immediateTask model layer, deferredTask layer]
  | .sync | .copyOutput => tasksOf model layer

def base (layer : Nat) : Nat :=
  (schedule model layer).length

theorem base_succ (layer : Nat) :
    base model (layer + 1) = base model layer + 1 + (model.defers layer).toNat := by
  simp only [base, schedule, tasksOf, List.length_append, List.length_cons]
  cases model.defers layer <;> simp

variable [AddCommMonoid V]

def valueOf (task : Task) : Fin batch → V :=
  if task.deferred then model.deferred task.layer else model.immediate task.layer

end

/-! ## The invariant -/

/-- How many tasks have stored their output. -/
def State.stored (state : State batch width R W V) : Nat :=
  state.queue.finished + match state.progress with
    | .stored => 1
    | _ => 0

def Stage.Deferring : Stage → Prop
  | .waitDeferred | .submitDeferred | .raiseFlag => True
  | _ => False

/-- The copies that may be queued while the host stands at a stage. -/
def Copy.Expected (layer : Nat) (stage : Stage) (copy : Copy) : Prop :=
  match stage with
  | .prepare => ∃ previous, layer = previous + 1 ∧ copy = .output previous
  | .wait => (∃ previous, layer = previous + 1 ∧ copy = .output previous) ∨ copy = .input layer ∨
      copy = .weights layer ∨ copy = .immediateIds layer ∨ copy = .deferredIds layer
  | _ => False

/-- Each input of the layer is in its slot or its copy is still queued. -/
structure Filling (model : Model batch width R W V) (state : State batch width R W V) : Prop where
  input : .input state.layer ∈ state.device ∨
    (state.slots (state.layer % bufferDepth)).inputTensor = model.hiddenStates state.layer
  weights : .weights state.layer ∈ state.device ∨
    (state.slots (state.layer % bufferDepth)).weights = model.topkWeights state.layer
  immediateIds : .immediateIds state.layer ∈ state.device ∨
    (state.slots (state.layer % bufferDepth)).immediateExpertsIds = model.immediateIds state.layer
  deferredIds : model.defers state.layer = true → .deferredIds state.layer ∈ state.device ∨
    (state.slots (state.layer % bufferDepth)).deferredExpertsIds = model.deferredIds state.layer

/-- The slot holds what the layer's deferred task reads. -/
structure Kept (model : Model batch width R W V) (layer : Nat) (slot : Slot batch width R W) :
    Prop where
  input : slot.inputTensor = model.hiddenStates layer
  weights : slot.weights = model.topkWeights layer
  deferredIds : slot.deferredExpertsIds = model.deferredIds layer

variable [AddCommMonoid V]

/-- What the output slots hold, from the number of tasks that have stored. -/
structure Outputs (model : Model batch width R W V) (state : State batch width R W V) : Prop where
  carried : ∀ value, model.carried state.layer = some value →
    state.stored = base model state.layer → state.output (state.layer % bufferDepth) = value
  own : base model state.layer < state.stored →
    state.output (state.layer % bufferDepth) = model.total state.layer
  next : model.defers state.layer = true → base model state.layer + 2 ≤ state.stored →
    state.output ((state.layer + 1) % bufferDepth) = model.deferred state.layer
  leaving : ∀ layer, .output layer ∈ state.device →
    state.output (layer % bufferDepth) = model.total layer
  left : ∀ layer value, state.results layer = some value → value = model.total layer

structure Inv (model : Model batch width R W V) (state : State batch width R W V) : Prop where
  order : state.queue.order = schedule model state.layer ++ submitted model state.layer state.stage
  deferring : state.stage.Deferring → model.defers state.layer = true
  flags : ∀ layer < state.layer, state.hasPendingDeferred layer = model.defers layer
  flag : state.stage = .sync ∨ state.stage = .copyOutput →
    state.hasPendingDeferred state.layer = model.defers state.layer
  retired : base model state.layer ≤ state.queue.finished + (pends model state.layer).toNat
  synced : state.stage = .copyOutput →
    base model (state.layer + 1) ≤ state.queue.finished + (model.defers state.layer).toNat
  running : state.queue.running = true → state.queue.finished < state.queue.order.length
  finished : state.queue.finished ≤ state.queue.order.length
  busy : match state.progress with
    | .idle => state.queue.running = false
    | _ => state.queue.running = true
  loaded : ∀ value, state.progress = .loaded value →
    ∃ task, state.queue.current? = some task ∧ value = valueOf model task
  previous : ∀ previous, state.layer = previous + 1 → state.queue.finished < base model state.layer →
    Kept model previous (state.slots (previous % bufferDepth))
  filling : state.stage ≠ .prepare → Filling model state
  copies : ∀ copy ∈ state.device, copy.Expected state.layer state.stage
  copied : ∀ layer < state.layer, state.results layer = none → .output layer ∈ state.device
  outputs : Outputs model state

/-- After the wait nothing is queued on the device. -/
theorem Inv.device_nil {model : Model batch width R W V} {state : State batch width R W V}
    (inv : Inv model state) (prepared : state.stage ≠ .prepare) (waited : state.stage ≠ .wait) :
    state.device = [] := by
  apply List.eq_nil_iff_forall_not_mem.mpr
  intro copy member
  have expected := inv.copies copy member
  cases stage : state.stage <;> simp only [stage, Copy.Expected] at expected
  · exact prepared stage
  · exact waited stage

theorem Inv.submitted_prefix {model : Model batch width R W V} {state : State batch width R W V}
    (inv : Inv model state) :
    submitted model state.layer state.stage <+: tasksOf model state.layer := by
  have deferring := inv.deferring
  cases stage : state.stage <;> simp only [stage, Stage.Deferring] at deferring <;>
    simp [submitted, tasksOf, deferring]

/-- The task under the worker, or the next one, is one of three. -/
inductive Current (model : Model batch width R W V) (state : State batch width R W V) : Task → Prop
  | previous (layer : state.layer = previous + 1) (defers : model.defers previous = true)
      (place : state.queue.finished + 1 = base model state.layer) :
      Current model state (deferredTask previous)
  | immediate (place : state.queue.finished = base model state.layer) (device : state.device = [])
      (filled : state.stage ≠ .prepare) : Current model state (immediateTask model state.layer)
  | deferred (defers : model.defers state.layer = true)
      (place : state.queue.finished = base model state.layer + 1) (device : state.device = [])
      (filled : state.stage ≠ .prepare) : Current model state (deferredTask state.layer)

theorem Inv.current {model : Model batch width R W V} {state : State batch width R W V}
    (inv : Inv model state) (found : state.queue.current? = some task) :
    Current model state task := by
  rw [Fifo.current?, inv.order] at found
  by_cases early : state.queue.finished < base model state.layer
  · rw [List.getElem?_append_left early] at found
    have retired := inv.retired
    cases layer : state.layer with
    | zero =>
        rw [layer] at early
        contradiction
    | succ previous =>
        rw [layer] at early retired found
        simp only [pends] at retired
        cases defers : model.defers previous <;> simp only [defers, Bool.toNat_true, Bool.toNat_false] at retired
        · omega
        · have length := base_succ model previous
          rw [defers, Bool.toNat_true] at length
          have place : state.queue.finished = base model previous + 1 := by omega
          rw [schedule, List.getElem?_append_right (by change base model previous ≤ _; omega),
            place] at found
          change (tasksOf model previous)[base model previous + 1 - base model previous]? = _ at found
          simp only [tasksOf, defers, if_true, Nat.add_sub_cancel_left, List.getElem?_cons_succ,
            List.getElem?_cons_zero, Option.some.injEq] at found
          subst found
          exact .previous layer defers (by rw [layer]; omega)
  · rw [List.getElem?_append_right (Nat.le_of_not_lt early)] at found
    change (submitted model state.layer state.stage)[state.queue.finished - base model state.layer]? = _
      at found
    have prepared : state.stage ≠ .prepare := by
      intro stage
      simp [stage, submitted] at found
    have waited : state.stage ≠ .wait := by
      intro stage
      simp [stage, submitted] at found
    have device := inv.device_nil prepared waited
    obtain ⟨rest, whole⟩ := inv.submitted_prefix
    have found : (tasksOf model state.layer)[state.queue.finished - base model state.layer]? =
        some task := by
      rw [← whole, List.getElem?_append_left (List.getElem?_eq_some_iff.mp found).1]
      exact found
    cases offset : state.queue.finished - base model state.layer with
    | zero =>
        rw [offset] at found
        obtain rfl := Option.some.inj found
        exact .immediate (by omega) device prepared
    | succ further =>
        rw [offset] at found
        cases defers : model.defers state.layer <;>
          simp only [tasksOf, defers, if_true, if_false, Bool.false_eq_true, List.getElem?_cons_succ,
            List.getElem?_nil, reduceCtorEq] at found
        cases further with
        | zero =>
            obtain rfl := Option.some.inj found
            exact .deferred defers (by omega) device prepared
        | succ more => simp at found

theorem slot_ne (layer : Nat) : (layer + 1) % bufferDepth ≠ layer % bufferDepth := by
  simp only [bufferDepth]
  omega

theorem target_deferredTask (layer : Nat) :
    (deferredTask layer).target = (layer + 1) % bufferDepth := by
  simp only [Task.target, deferredTask, Task.slot, bufferDepth, if_true]
  omega

section

variable {model : Model batch width R W V} {state : State batch width R W V}

/-- The inputs of the current task are in place, so it reads what its layer was
given. -/
theorem Inv.forward_eq (inv : Inv model state) (current : Current model state task) :
    forward model task.layer (state.slots task.slot)
      (if task.deferred then (state.slots task.slot).deferredExpertsIds
        else (state.slots task.slot).immediateExpertsIds) = valueOf model task := by
  cases current with
  | @previous previous layer defers place =>
      have kept := inv.previous previous layer (by omega)
      simp only [deferredTask, Task.slot, if_true, valueOf, Model.deferred, kept.deferredIds]
      unfold forward
      rw [kept.input, kept.weights]
      rfl
  | immediate place device prepared =>
      have filling := inv.filling prepared
      have input := filling.input.resolve_left (by rw [device]; nofun)
      have weights := filling.weights.resolve_left (by rw [device]; nofun)
      have ids := filling.immediateIds.resolve_left (by rw [device]; nofun)
      simp only [immediateTask, Task.slot, Bool.false_eq_true, if_false, valueOf, Model.immediate, ids]
      unfold forward
      rw [input, weights]
      rfl
  | deferred defers place device prepared =>
      have filling := inv.filling prepared
      have input := filling.input.resolve_left (by rw [device]; nofun)
      have weights := filling.weights.resolve_left (by rw [device]; nofun)
      have ids := (filling.deferredIds defers).resolve_left (by rw [device]; nofun)
      simp only [deferredTask, Task.slot, if_true, valueOf, Model.deferred, ids]
      unfold forward
      rw [input, weights]
      rfl

/-- The outputs after the worker moved on without storing. -/
theorem Outputs.of_stored {after : State batch width R W V} (outputs : Outputs model state)
    (layer : after.layer = state.layer) (output : after.output = state.output)
    (device : after.device = state.device) (results : after.results = state.results)
    (stored : after.stored = state.stored) : Outputs model after where
  carried := by
    rw [layer, output, stored]
    exact outputs.carried
  own := by
    rw [layer, output, stored]
    exact outputs.own
  next := by
    rw [layer, output, stored]
    exact outputs.next
  leaving := by
    rw [output, device]
    exact outputs.leaving
  left := by
    rw [results]
    exact outputs.left

theorem Inv.start (inv : Inv model state) (idle : state.progress = .idle)
    (waiting : state.queue.finished < state.queue.order.length) :
    Inv model { state with queue := { state.queue with running := true }, progress := .begun } where
  order := inv.order
  deferring := inv.deferring
  flags := inv.flags
  flag := inv.flag
  retired := inv.retired
  synced := inv.synced
  running _ := waiting
  finished := inv.finished
  busy := rfl
  loaded := by nofun
  previous := inv.previous
  filling prepared := { inv.filling prepared with }
  copies := inv.copies
  copied := inv.copied
  outputs := inv.outputs.of_stored rfl rfl rfl rfl (by simp only [State.stored, idle])

theorem Inv.load (inv : Inv model state) (begun : state.progress = .begun)
    (found : state.queue.current? = some task) :
    Inv model { state with progress := .loaded (forward model task.layer (state.slots task.slot)
      (if task.deferred then (state.slots task.slot).deferredExpertsIds
        else (state.slots task.slot).immediateExpertsIds)) } := by
  have busy := inv.busy
  rw [begun] at busy
  exact
    { order := inv.order
      deferring := inv.deferring
      flags := inv.flags
      flag := inv.flag
      retired := inv.retired
      synced := inv.synced
      running := inv.running
      finished := inv.finished
      busy := busy
      loaded := fun value same => ⟨task, found, by
        cases same
        exact inv.forward_eq (inv.current found)⟩
      previous := inv.previous
      filling := fun prepared => { inv.filling prepared with }
      copies := inv.copies
      copied := inv.copied
      outputs := inv.outputs.of_stored rfl rfl rfl rfl (by simp only [State.stored, begun]) }

theorem Inv.finish (inv : Inv model state) (stored : state.progress = .stored) :
    Inv model { state with
      queue := { state.queue with running := false, finished := state.queue.finished + 1 }
      progress := .idle } := by
  have busy := inv.busy
  rw [stored] at busy
  exact
    { order := inv.order
      deferring := inv.deferring
      flags := inv.flags
      flag := inv.flag
      retired := Nat.le_trans inv.retired (Nat.add_le_add_right (Nat.le_succ _) _)
      synced := fun stage =>
        Nat.le_trans (inv.synced stage) (Nat.add_le_add_right (Nat.le_succ _) _)
      running := by nofun
      finished := inv.running busy
      busy := rfl
      loaded := by nofun
      previous := fun previous layer early =>
        inv.previous previous layer (Nat.lt_of_succ_lt early)
      filling := fun prepared => { inv.filling prepared with }
      copies := inv.copies
      copied := inv.copied
      outputs := inv.outputs.of_stored rfl rfl rfl rfl (by simp only [State.stored, stored]) }

theorem carried_eq (model : Model batch width R W V) (layer : Nat) : (model.carried layer).isSome = pends model layer := by
  cases layer with
  | zero => rfl
  | succ previous =>
      simp only [Model.carried, pends]
      cases model.defers previous <;> rfl

theorem Inv.stored_outputs (inv : Inv model state) (current : Current model state task)
    (loaded : state.progress = .loaded value) (right : value = valueOf model task) :
    Outputs model { state with
      output := Function.update state.output task.target
        (if task.incremental then state.output task.target + value else value)
      progress := .stored } := by
  have outputs := inv.outputs
  have before : state.stored = state.queue.finished := by simp only [State.stored, loaded, Nat.add_zero]
  have after : ∀ output, State.stored { state with output := output, progress := .stored } =
      state.queue.finished + 1 := fun _ => rfl
  subst right
  cases current with
  | @previous previous layer defers place =>
      have target : (deferredTask previous).target = state.layer % bufferDepth := by
        rw [target_deferredTask, layer]
      refine { carried := ?_, own := ?_, next := ?_, leaving := ?_, left := outputs.left }
      · intro value carried _
        simp only [layer, Model.carried, defers, if_true, Option.some.injEq] at carried
        simp only [target, Function.update_self]
        simpa [deferredTask, valueOf] using carried
      · rw [after]
        intro later
        change base model state.layer < _ at later
        omega
      · rw [after]
        intro _ later
        change base model state.layer + 2 ≤ _ at later
        omega
      · intro copied member
        have expected := inv.copies _ member
        have own : copied = previous := by
          cases stage : state.stage <;> simp only [stage, Copy.Expected, reduceCtorEq, or_false] at expected
          all_goals
            obtain ⟨_, same, output⟩ := expected
            cases output
            omega
        have other : copied % bufferDepth ≠ state.layer % bufferDepth := by
          rw [own, layer]
          exact (slot_ne previous).symm
        simp only [target, Function.update_of_ne other]
        exact outputs.leaving copied member
  | immediate place device prepared =>
      have target : (immediateTask model state.layer).target = state.layer % bufferDepth := rfl
      refine { carried := ?_, own := ?_, next := ?_, leaving := ?_, left := outputs.left }
      · rw [after]
        intro _ _ same
        change _ = base model state.layer at same
        omega
      · intro _
        have adds := carried_eq model state.layer
        simp only [target, Function.update_self, Model.total]
        cases carried : model.carried state.layer with
        | none =>
            rw [carried, Option.isSome_none] at adds
            simp [immediateTask, valueOf, ← adds]
        | some value =>
            rw [carried, Option.isSome_some] at adds
            rw [outputs.carried value carried (by omega)]
            simp [immediateTask, valueOf, ← adds]
      · rw [after]
        intro _ later
        change base model state.layer + 2 ≤ _ at later
        omega
      · rw [device]
        nofun
  | deferred defers place device prepared =>
      have other : state.layer % bufferDepth ≠ (deferredTask state.layer).target := by
        rw [target_deferredTask]
        exact (slot_ne state.layer).symm
      refine { carried := ?_, own := ?_, next := ?_, leaving := ?_, left := outputs.left }
      · rw [after]
        intro _ _ same
        change _ = base model state.layer at same
        omega
      · intro _
        simp only [Function.update_of_ne other]
        exact outputs.own (by omega)
      · intro _ _
        simp only [← target_deferredTask, Function.update_self]
        rfl
      · rw [device]
        nofun

theorem Inv.store (inv : Inv model state) (loaded : state.progress = .loaded value)
    (found : state.queue.current? = some task) :
    Inv model { state with
      output := Function.update state.output task.target
        (if task.incremental then state.output task.target + value else value)
      progress := .stored } := by
  have busy := inv.busy
  rw [loaded] at busy
  obtain ⟨task', found', right⟩ := inv.loaded value loaded
  obtain rfl : task' = task := Option.some.inj (found'.symm.trans found)
  exact
    { order := inv.order
      deferring := inv.deferring
      flags := inv.flags
      flag := inv.flag
      retired := inv.retired
      synced := inv.synced
      running := inv.running
      finished := inv.finished
      busy := busy
      loaded := by nofun
      previous := inv.previous
      filling := fun prepared => { inv.filling prepared with }
      copies := inv.copies
      copied := inv.copied
      outputs := inv.stored_outputs (inv.current found) loaded right }

theorem mem_rest {copy other : Copy} {rest : List Copy} (queued : device = copy :: rest)
    (different : other ≠ copy) (member : other ∈ device) : other ∈ rest := by
  rw [queued] at member
  exact (List.mem_cons.mp member).resolve_left different

/-- A copy into the slot of the layer being prepared touches no task's
inputs. -/
theorem Inv.fill (inv : Inv model state) {copy : Copy} {slot : Slot batch width R W}
    (queued : state.device = copy :: rest)
    (input : ∀ layer, copy ≠ .output layer)
    (filling : Filling model { state with
      slots := Function.update state.slots (state.layer % bufferDepth) slot, device := rest }) :
    Inv model { state with
      slots := Function.update state.slots (state.layer % bufferDepth) slot, device := rest } where
  order := inv.order
  deferring := inv.deferring
  flags := inv.flags
  flag := inv.flag
  retired := inv.retired
  synced := inv.synced
  running := inv.running
  finished := inv.finished
  busy := inv.busy
  loaded := inv.loaded
  previous previous layer early := by
    have other : previous % bufferDepth ≠ state.layer % bufferDepth := by
      rw [layer]
      exact (slot_ne previous).symm
    simp only [Function.update_of_ne other]
    exact inv.previous previous layer early
  filling _ := filling
  copies other member := inv.copies other (by rw [queued]; exact List.mem_cons_of_mem _ member)
  copied layer earlier missing := mem_rest queued (input layer).symm (inv.copied layer earlier missing)
  outputs :=
    { carried := inv.outputs.carried
      own := inv.outputs.own
      next := inv.outputs.next
      leaving := fun layer member =>
        inv.outputs.leaving layer (by rw [queued]; exact List.mem_cons_of_mem _ member)
      left := inv.outputs.left }

theorem Inv.deviceStep (inv : Inv model state) (moved : deviceStep model state = some after) :
    Inv model after := by
  unfold Pipeline.deviceStep at moved
  cases queued : state.device with
  | nil => simp only [queued, reduceCtorEq] at moved
  | cons copy rest =>
      have expected := inv.copies copy (by rw [queued]; exact List.mem_cons_self ..)
      cases copy <;> simp only [queued] at moved
      case output copied =>
        obtain rfl := Option.some.inj moved
        exact
          { order := inv.order
            deferring := inv.deferring
            flags := inv.flags
            flag := inv.flag
            retired := inv.retired
            synced := inv.synced
            running := inv.running
            finished := inv.finished
            busy := inv.busy
            loaded := inv.loaded
            previous := inv.previous
            filling := fun prepared =>
              { input := (inv.filling prepared).input.imp (mem_rest queued (by nofun)) id
                weights := (inv.filling prepared).weights.imp (mem_rest queued (by nofun)) id
                immediateIds := (inv.filling prepared).immediateIds.imp (mem_rest queued (by nofun)) id
                deferredIds := fun defers =>
                  ((inv.filling prepared).deferredIds defers).imp (mem_rest queued (by nofun)) id }
            copies := fun other member =>
              inv.copies other (by rw [queued]; exact List.mem_cons_of_mem _ member)
            copied := fun layer earlier missing => by
              have other : layer ≠ copied := by
                rintro rfl
                simp at missing
              simp only [Function.update_of_ne other] at missing
              exact mem_rest queued (by simpa using other) (inv.copied layer earlier missing)
            outputs :=
              { carried := inv.outputs.carried
                own := inv.outputs.own
                next := inv.outputs.next
                leaving := fun layer member =>
                  inv.outputs.leaving layer (by rw [queued]; exact List.mem_cons_of_mem _ member)
                left := fun layer value stored => by
                  by_cases same : layer = copied
                  · subst same
                    simp only [Function.update_self, Option.some.injEq] at stored
                    rw [← stored]
                    exact inv.outputs.leaving layer (by rw [queued]; exact List.mem_cons_self ..)
                  · simp only [Function.update_of_ne same] at stored
                    exact inv.outputs.left layer value stored } }
      all_goals
        have stage : state.stage = .wait := by
          cases stage : state.stage <;> simp [stage, Copy.Expected] at expected ⊢
        have filling := inv.filling (by rw [stage]; nofun)
        rw [stage] at expected
        simp only [Copy.Expected, reduceCtorEq, and_false, exists_false, false_or, or_false,
          Copy.input.injEq, Copy.weights.injEq, Copy.immediateIds.injEq, Copy.deferredIds.injEq] at expected
        subst expected
        obtain rfl := Option.some.inj moved
        apply inv.fill queued (by nofun)
      case input =>
        exact
          { input := .inr (by simp only [Function.update_self])
            weights := filling.weights.imp (mem_rest queued (by nofun)) (by simp)
            immediateIds := filling.immediateIds.imp (mem_rest queued (by nofun)) (by simp)
            deferredIds := fun defers =>
              (filling.deferredIds defers).imp (mem_rest queued (by nofun)) (by simp) }
      case weights =>
        exact
          { input := filling.input.imp (mem_rest queued (by nofun)) (by simp)
            weights := .inr (by simp only [Function.update_self])
            immediateIds := filling.immediateIds.imp (mem_rest queued (by nofun)) (by simp)
            deferredIds := fun defers =>
              (filling.deferredIds defers).imp (mem_rest queued (by nofun)) (by simp) }
      case immediateIds =>
        exact
          { input := filling.input.imp (mem_rest queued (by nofun)) (by simp)
            weights := filling.weights.imp (mem_rest queued (by nofun)) (by simp)
            immediateIds := .inr (by simp only [Function.update_self])
            deferredIds := fun defers =>
              (filling.deferredIds defers).imp (mem_rest queued (by nofun)) (by simp) }
      case deferredIds =>
        exact
          { input := filling.input.imp (mem_rest queued (by nofun)) (by simp)
            weights := filling.weights.imp (mem_rest queued (by nofun)) (by simp)
            immediateIds := filling.immediateIds.imp (mem_rest queued (by nofun)) (by simp)
            deferredIds := fun _ => .inr (by simp only [Function.update_self]) }

/-! ## The host -/

theorem Inv.stored_le (inv : Inv model state) : state.stored ≤ state.queue.order.length := by
  have busy := inv.busy
  unfold State.stored
  cases progress : state.progress with
  | stored =>
      rw [progress] at busy
      exact inv.running busy
  | _ => exact inv.finished

theorem Inv.prepare (inv : Inv model state) (stage : state.stage = .prepare) :
    Inv model { state with
      device := state.device ++ [.input state.layer, .weights state.layer, .immediateIds state.layer] ++
        if model.defers state.layer then [.deferredIds state.layer] else []
      stage := .wait } where
  order := by
    have order := inv.order
    rw [stage] at order
    exact order
  deferring := by nofun
  flags := inv.flags
  flag := by nofun
  retired := inv.retired
  synced := by nofun
  running := inv.running
  finished := inv.finished
  busy := inv.busy
  loaded := inv.loaded
  previous := inv.previous
  filling _ :=
    { input := .inl (by simp)
      weights := .inl (by simp)
      immediateIds := .inl (by simp)
      deferredIds := fun defers => .inl (by simp only [defers]; simp) }
  copies copy member := by
    simp only [List.mem_append, List.mem_cons, List.not_mem_nil, or_false] at member
    rcases member with (old | own) | deferred
    · have expected := inv.copies copy old
      rw [stage] at expected
      exact .inl expected
    · simp only [Copy.Expected]
      tauto
    · cases defers : model.defers state.layer with
      | false => simp [defers] at deferred
      | true =>
          simp only [defers, if_true, List.mem_singleton] at deferred
          simp [Copy.Expected, deferred]
  copied layer earlier missing :=
    List.mem_append_left _ (List.mem_append_left _ (inv.copied layer earlier missing))
  outputs :=
    { carried := inv.outputs.carried
      own := inv.outputs.own
      next := inv.outputs.next
      leaving := fun layer member => by
        apply inv.outputs.leaving layer
        cases defers : model.defers state.layer <;> simpa [defers] using member
      left := inv.outputs.left }

/-- A stage in which the host changes nothing the worker or the device sees. -/
theorem Inv.advance (inv : Inv model state) (device : state.device = []) (filled : state.stage ≠ .prepare)
    (tasks : submitted model state.layer stage = submitted model state.layer state.stage)
    (flags : ∀ layer < state.layer, pending layer = state.hasPendingDeferred layer)
    (deferring : stage.Deferring → model.defers state.layer = true)
    (flagged : stage = .sync ∨ stage = .copyOutput → pending state.layer = model.defers state.layer)
    (synced : stage = .copyOutput →
      base model (state.layer + 1) ≤ state.queue.finished + (model.defers state.layer).toNat) :
    Inv model { state with hasPendingDeferred := pending, stage := stage } where
  order := by
    change _ = _ ++ submitted model state.layer stage
    rw [tasks]
    exact inv.order
  deferring := deferring
  flags layer earlier := (flags layer earlier).trans (inv.flags layer earlier)
  flag := flagged
  retired := inv.retired
  synced := synced
  running := inv.running
  finished := inv.finished
  busy := inv.busy
  loaded := inv.loaded
  previous := inv.previous
  filling _ := { inv.filling filled with }
  copies copy member := by
    change copy ∈ state.device at member
    rw [device] at member
    contradiction
  copied := inv.copied
  outputs := inv.outputs.of_stored rfl rfl rfl rfl rfl

theorem Inv.enqueue (inv : Inv model state) (device : state.device = []) (filled : state.stage ≠ .prepare)
    (tasks : submitted model state.layer stage = submitted model state.layer state.stage ++ [task])
    (deferring : stage.Deferring → model.defers state.layer = true)
    (early : stage ≠ .sync ∧ stage ≠ .copyOutput) :
    Inv model { state with queue := state.queue.enqueue task, stage := stage } where
  order := by
    change state.queue.order ++ [task] = _ ++ submitted model state.layer stage
    rw [tasks, ← List.append_assoc, ← inv.order]
  deferring := deferring
  flags := inv.flags
  flag last := absurd last (not_or.mpr early)
  retired := inv.retired
  synced last := absurd last early.2
  running busy := by
    have before := inv.running busy
    simp only [Fifo.enqueue, List.length_append]
    omega
  finished := by
    have before := inv.finished
    simp only [Fifo.enqueue, List.length_append]
    omega
  busy := inv.busy
  loaded value loaded := by
    obtain ⟨current, found, right⟩ := inv.loaded value loaded
    refine ⟨current, ?_, right⟩
    have bound := (List.getElem?_eq_some_iff.mp found).1
    simp only [Fifo.current?, Fifo.enqueue, List.getElem?_append_left bound]
    exact found
  previous := inv.previous
  filling _ := { inv.filling filled with }
  copies copy member := by
    change copy ∈ state.device at member
    rw [device] at member
    contradiction
  copied := inv.copied
  outputs := inv.outputs.of_stored rfl rfl rfl rfl rfl

/-- The flag of the previous layer says whether it left a deferred task. -/
theorem Inv.incremental_eq (inv : Inv model state) : state.incremental = pends model state.layer := by
  unfold State.incremental
  cases layer : state.layer with
  | zero => rfl
  | succ previous => exact inv.flags previous (by omega)

/-- All but the deferred task of the layer have retired, so its output and the
inputs of that task are final when the next layer begins. -/
theorem Inv.nextLayer (inv : Inv model state) (stage : state.stage = .copyOutput) :
    Inv model { state with
      device := state.device ++ [.output state.layer]
      layer := state.layer + 1
      stage := .prepare } := by
  have synced := inv.synced stage
  have length := base_succ model state.layer
  have device := inv.device_nil (by rw [stage]; nofun) (by rw [stage]; nofun)
  have filling := inv.filling (by rw [stage]; nofun)
  have order : state.queue.order = schedule model (state.layer + 1) := by
    rw [inv.order, stage]
    rfl
  have most : state.stored ≤ base model (state.layer + 1) := by
    rw [base, ← order]
    exact inv.stored_le
  have least : state.queue.finished ≤ state.stored := Nat.le_add_right ..
  refine
    { order := ?_, deferring := by nofun, flags := ?_, flag := by nofun, retired := synced
      synced := by nofun, running := inv.running, finished := inv.finished, busy := inv.busy
      loaded := inv.loaded, previous := ?_, filling := fun filled => absurd rfl filled
      copies := ?_, copied := ?_, outputs := ?_ }
  · rw [order]
    exact (List.append_nil _).symm
  · intro layer earlier
    rcases Nat.lt_succ_iff_lt_or_eq.mp earlier with earlier | rfl
    · exact inv.flags layer earlier
    · exact inv.flag (.inr stage)
  · intro previous same early
    obtain rfl := Nat.succ.inj same
    have defers : model.defers state.layer = true := by
      cases defers : model.defers state.layer with
      | true => rfl
      | false =>
          rw [defers] at synced
          exact absurd early (Nat.not_lt.mpr synced)
    exact
      { input := filling.input.resolve_left (by rw [device]; nofun)
        weights := filling.weights.resolve_left (by rw [device]; nofun)
        deferredIds := (filling.deferredIds defers).resolve_left (by rw [device]; nofun) }
  · intro copy member
    change copy ∈ state.device ++ [.output state.layer] at member
    rw [device, List.nil_append, List.mem_singleton] at member
    exact ⟨state.layer, rfl, member⟩
  · intro layer earlier missing
    rcases Nat.lt_succ_iff_lt_or_eq.mp earlier with earlier | rfl
    · exact List.mem_append_left _ (inv.copied layer earlier missing)
    · exact List.mem_append_right _ (List.mem_singleton_self _)
  · refine { carried := ?_, own := ?_, next := ?_, leaving := ?_, left := inv.outputs.left }
    · intro value carried reached
      change state.stored = base model (state.layer + 1) at reached
      cases defers : model.defers state.layer with
      | false => simp [Model.carried, defers] at carried
      | true =>
          simp only [Model.carried, defers, if_true, Option.some.injEq] at carried
          rw [defers, Bool.toNat_true] at length
          rw [← carried]
          exact inv.outputs.next defers (by omega)
    · intro later
      exact absurd most (Nat.not_le.mpr later)
    · intro _ later
      exact absurd (Nat.le_trans later most) (by change ¬base model (state.layer + 1) + 2 ≤ _; omega)
    · intro layer member
      change Copy.output layer ∈ state.device ++ [.output state.layer] at member
      rw [device, List.nil_append, List.mem_singleton, Copy.output.injEq] at member
      subst member
      exact inv.outputs.own (by omega)

theorem Inv.hostStep (inv : Inv model state) (moved : hostStep model state = some after) :
    Inv model after := by
  unfold Pipeline.hostStep at moved
  have quiet := inv.device_nil
  cases stage : state.stage <;> simp only [stage] at moved <;> rw [stage] at quiet
  case prepare =>
    split at moved
    · obtain rfl := Option.some.inj moved
      exact inv.prepare stage
    · contradiction
  case wait =>
    split at moved
    · obtain rfl := Option.some.inj moved
      exact inv.advance ‹_› (by rw [stage]; nofun) (by rw [stage]; rfl) (fun _ _ => rfl) (by nofun)
        (by nofun) (by nofun)
    · contradiction
  case submit =>
    obtain rfl := Option.some.inj moved
    have device := quiet (by nofun) (by nofun)
    refine inv.enqueue device (by rw [stage]; nofun) ?_ (by nofun) (by simp)
    rw [stage, inv.incremental_eq]
    rfl
  case clearFlag =>
    obtain rfl := Option.some.inj moved
    have device := quiet (by nofun) (by nofun)
    have others : ∀ layer < state.layer,
        Function.update state.hasPendingDeferred state.layer false layer =
          state.hasPendingDeferred layer :=
      fun layer earlier => Function.update_of_ne (Nat.ne_of_lt earlier) ..
    cases defers : model.defers state.layer with
    | false =>
        refine inv.advance device (by rw [stage]; nofun) ?_ others (by nofun) ?_ (by nofun)
        · simp [stage, submitted, tasksOf, defers]
        · simp [defers]
    | true =>
        exact inv.advance device (by rw [stage]; nofun) (by rw [stage]; rfl) others (fun _ => defers)
          (by nofun) (by nofun)
  case waitDeferred =>
    split at moved
    · obtain rfl := Option.some.inj moved
      have defers := inv.deferring (by rw [stage]; trivial)
      exact inv.advance ‹_› (by rw [stage]; nofun) (by rw [stage]; rfl) (fun _ _ => rfl)
        (fun _ => defers) (by nofun) (by nofun)
    · contradiction
  case submitDeferred =>
    obtain rfl := Option.some.inj moved
    have device := quiet (by nofun) (by nofun)
    have defers := inv.deferring (by rw [stage]; trivial)
    exact inv.enqueue device (by rw [stage]; nofun) (by rw [stage]; rfl) (fun _ => defers) (by simp)
  case raiseFlag =>
    obtain rfl := Option.some.inj moved
    have device := quiet (by nofun) (by nofun)
    have defers := inv.deferring (by rw [stage]; trivial)
    refine inv.advance device (by rw [stage]; nofun) ?_ ?_ (by nofun) ?_ (by nofun)
    · simp [stage, submitted, tasksOf, defers]
    · exact fun layer earlier => Function.update_of_ne (Nat.ne_of_lt earlier) ..
    · simp [defers]
  case sync =>
    split at moved
    case isTrue drained =>
      obtain rfl := Option.some.inj moved
      have device := quiet (by nofun) (by nofun)
      have flag := inv.flag (.inl stage)
      refine inv.advance device (by rw [stage]; nofun) (by rw [stage]; rfl) (fun _ _ => rfl) (by nofun)
        (fun _ => flag) ?_
      intro _
      have order : state.queue.order = schedule model (state.layer + 1) := by
        rw [inv.order, stage]
        rfl
      unfold Fifo.Drained State.allowPending at drained
      rw [order, flag] at drained
      cases defers : model.defers state.layer <;> simpa [defers, base] using drained
    case isFalse => contradiction
  case copyOutput =>
    obtain rfl := Option.some.inj moved
    exact inv.nextLayer stage

theorem Inv.workerStep (inv : Inv model state) (moved : workerStep model state action = some after) :
    Inv model after := by
  unfold Pipeline.workerStep at moved
  cases action <;> simp only [reduceCtorEq] at moved
  case start =>
    cases progress : state.progress <;> simp only [progress, reduceCtorEq] at moved
    obtain ⟨queue, started, rfl⟩ := Option.map_eq_some_iff.mp moved
    unfold Fifo.start? at started
    split at started
    case isTrue ready =>
      obtain rfl := Option.some.inj started
      exact inv.start progress ready.2
    case isFalse => contradiction
  case load =>
    split at moved
    · obtain rfl := Option.some.inj moved
      exact inv.load ‹_› ‹_›
    · contradiction
  case store =>
    split at moved
    · obtain rfl := Option.some.inj moved
      exact inv.store ‹_› ‹_›
    · contradiction
  case finish =>
    cases progress : state.progress <;> simp only [progress, reduceCtorEq] at moved
    obtain ⟨queue, finished, rfl⟩ := Option.map_eq_some_iff.mp moved
    unfold Fifo.finish? at finished
    split at finished
    · obtain rfl := Option.some.inj finished
      exact inv.finish progress
    · contradiction

theorem Inv.step (inv : Inv model state) (moved : step model state action = some after) :
    Inv model after := by
  unfold Pipeline.step at moved
  cases action with
  | host => exact inv.hostStep moved
  | device => exact inv.deviceStep moved
  | _ => exact inv.workerStep moved

theorem start_inv (starts : (machine model).initial state) : Inv model state := by
  obtain ⟨queue, device, layer, stage, results, progress⟩ := starts
  have idle : state.progress = .idle := by
    cases kind : state.progress with
    | idle => rfl
    | _ => rw [kind] at progress; contradiction
  have stored : state.stored = 0 := by simp [State.stored, queue, idle]
  refine
    { order := ?_, deferring := ?_, flags := ?_, flag := ?_, retired := ?_, synced := ?_
      running := ?_, finished := ?_, busy := ?_, loaded := ?_, previous := ?_, filling := ?_
      copies := ?_, copied := ?_, outputs := ?_ }
  · rw [queue, layer, stage]
    rfl
  · rw [stage]
    nofun
  · rw [layer]
    nofun
  · rw [stage]
    nofun
  · rw [layer]
    exact Nat.zero_le _
  · rw [stage]
    nofun
  · rw [queue]
    nofun
  · rw [queue]
    exact Nat.zero_le _
  · rw [idle, queue]
  · rw [idle]
    nofun
  · rw [layer]
    nofun
  · exact fun filled => absurd stage filled
  · rw [device]
    nofun
  · rw [layer]
    nofun
  · refine { carried := ?_, own := ?_, next := ?_, leaving := ?_, left := ?_ }
    · rw [layer]
      nofun
    · rw [stored]
      nofun
    · rw [stored]
      nofun
    · rw [device]
      nofun
    · intro layer value found
      rw [results] at found
      contradiction

theorem reachable_inv (reached : (machine model).Reachable state) : Inv model state :=
  reached.invariant (fun _ starts => start_inv starts) fun _ _ _ inv moved => inv.step moved

end

end Pipeline

end KtKernel.Experts
