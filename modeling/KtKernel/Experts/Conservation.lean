import KtKernel.Experts.PipelineInvariant

namespace KtKernel.Experts

open KtKernel.Data

variable {batch width : Nat} {R W V : Type}

/-! ## The sums of a pass -/

namespace Model

variable [AddCommMonoid V] (model : Model batch width R W V)

def immediateSum (layer : Nat) (token : Fin batch) : V :=
  ∑ index, if model.isImmediate layer token index then model.contribution layer token index else 0

def deferredSum (layer : Nat) (token : Fin batch) : V :=
  ∑ index, if model.isDeferred layer token index then model.contribution layer token index else 0

/-- What the layer takes over from the one before it. -/
def inheritedSum : Nat → Fin batch → V
  | 0, _ => 0
  | previous + 1, token => model.deferredSum previous token

theorem deferredSum_of_not_defers {layer : Nat} (kept : model.defers layer = false)
    (token : Fin batch) : model.deferredSum layer token = 0 := by
  apply Finset.sum_eq_zero
  intro index _
  simp [isDeferred, kept]

theorem total_eq (layer : Nat) (token : Fin batch) :
    model.total layer token = model.immediateSum layer token + model.inheritedSum layer token := by
  unfold total
  cases layer with
  | zero => simp [carried, inheritedSum, immediateSum, immediate_eq]
  | succ previous =>
      cases defers : model.defers previous with
      | false =>
          simp [carried, defers, inheritedSum, immediateSum, immediate_eq,
            model.deferredSum_of_not_defers defers]
      | true =>
          simp only [carried, defers, if_true, Pi.add_apply, immediate_eq,
            model.deferred_eq previous defers]
          exact add_comm _ _

/-- A layer's immediate and deferred pairs are all its pairs. -/
theorem immediateSum_add_deferredSum (layer : Nat) (token : Fin batch) :
    model.immediateSum layer token + model.deferredSum layer token =
      ∑ index, model.contribution layer token index := by
  unfold immediateSum deferredSum
  rw [← Finset.sum_add_distrib]
  apply Finset.sum_congr rfl
  intro index _
  rcases model.classified layer token index with ⟨immediate, deferred, _⟩ | ⟨immediate, deferred, _⟩
  · simp [immediate, deferred]
  · simp [immediate, deferred]

theorem sum_inheritedSum (layers : Nat) (token : Fin batch) :
    ∑ layer ∈ Finset.range (layers + 1), model.inheritedSum layer token =
      ∑ layer ∈ Finset.range layers, model.deferredSum layer token := by
  rw [Finset.sum_range_succ']
  exact add_zero _

theorem sum_total (last : model.defers (model.layers - 1) = false) (token : Fin batch) :
    ∑ layer ∈ Finset.range model.layers, model.total layer token =
      ∑ layer ∈ Finset.range model.layers, ∑ index, model.contribution layer token index := by
  simp only [total_eq, ← immediateSum_add_deferredSum, Finset.sum_add_distrib]
  congr 1
  cases layers : model.layers with
  | zero => rfl
  | succ previous =>
      rw [layers, Nat.add_sub_cancel] at last
      rw [sum_inheritedSum, Finset.sum_range_succ, model.deferredSum_of_not_defers last, add_zero]

end Model

namespace Pipeline

theorem base_mono (model : Model batch width R W V) : Monotone (base model) := by
  apply monotone_nat_of_le_succ
  intro layer
  have length := base_succ model layer
  omega

theorem getElem?_schedule (model : Model batch width R W V) (layers : Nat)
    (found : (schedule model layers)[index]? = some task) :
    task.layer < layers ∧ index = base model task.layer + task.deferred.toNat ∧
      task.incremental = (!task.deferred && pends model task.layer) := by
  induction layers with
  | zero => contradiction
  | succ layer induction =>
      rw [schedule] at found
      by_cases early : index < (schedule model layer).length
      · rw [List.getElem?_append_left early] at found
        obtain ⟨earlier, rest⟩ := induction found
        exact ⟨Nat.lt_succ_of_lt earlier, rest⟩
      · rw [List.getElem?_append_right (Nat.le_of_not_lt early)] at found
        have place : index = base model layer + (index - (schedule model layer).length) := by
          unfold base
          omega
        cases offset : index - (schedule model layer).length with
        | zero =>
            rw [offset] at found place
            obtain rfl := Option.some.inj found
            exact ⟨Nat.lt_succ_self _, place, rfl⟩
        | succ further =>
            rw [offset] at found place
            cases defers : model.defers layer <;>
              simp only [tasksOf, defers, if_true, if_false, Bool.false_eq_true,
                List.getElem?_cons_succ, List.getElem?_nil, reduceCtorEq] at found
            cases further with
            | zero =>
                obtain rfl := Option.some.inj found
                exact ⟨Nat.lt_succ_self _, place, rfl⟩
            | succ more => simp at found

theorem schedule_base (model : Model batch width R W V) (earlier : layer < layers) :
    (schedule model layers)[base model layer]? = some (immediateTask model layer) := by
  induction layers with
  | zero => contradiction
  | succ last induction =>
      rw [schedule]
      rcases Nat.lt_succ_iff_lt_or_eq.mp earlier with earlier | rfl
      · have found := induction earlier
        rw [List.getElem?_append_left (List.getElem?_eq_some_iff.mp found).1]
        exact found
      · rw [base, List.getElem?_append_right (Nat.le_refl _), Nat.sub_self]
        rfl

/-! ## The buffers are free when they are written -/

/-- The input slot a copy overwrites. -/
def Copy.fills : Copy → Option Nat
  | .input layer | .weights layer | .immediateIds layer | .deferredIds layer =>
      some (layer % bufferDepth)
  | .output _ => none

/-- The tasks that are queued or running. -/
def State.unfinished (state : State batch width R W V) : List Task :=
  state.queue.order.drop state.queue.finished

/-- The tasks whose output is in its slot. -/
def State.storedTasks [AddCommMonoid V] (state : State batch width R W V) : List Task :=
  state.queue.order.take state.stored

section

variable [AddCommMonoid V] {model : Model batch width R W V} {state : State batch width R W V}

/-- An output in the slot that is still to be copied to the device. -/
def State.ToCopy (state : State batch width R W V) (slot : Nat) : Prop :=
  ∃ task ∈ state.storedTasks, task.deferred = false ∧ task.target = slot ∧
    state.results task.layer = none

/-- A deferred output in the slot that the next layer's task is still to add
to. -/
def State.ToAdd (state : State batch width R W V) (slot : Nat) : Prop :=
  ∃ task ∈ state.storedTasks, task.deferred = true ∧ task.target = slot ∧
    ∀ other ∈ state.storedTasks, other.deferred = false → other.layer ≠ task.layer + 1

/-- The copy the device runs next fills a slot no queued or running task reads
from. -/
def State.InputsFree (state : State batch width R W V) : Prop :=
  ∀ copy rest slot, state.device = copy :: rest → copy.fills = some slot →
    ∀ task ∈ state.unfinished, task.slot ≠ slot

/-- The running task stores into a slot whose output has left, unless the task
adds to that output. -/
def State.OutputsFree (state : State batch width R W V) : Prop :=
  ∀ task value, state.queue.current? = some task → state.progress = .loaded value →
    ¬state.ToCopy task.target ∧ (state.ToAdd task.target → task.incremental = true)

theorem Inv.unfinished_of_wait (inv : Inv model state) (stage : state.stage = .wait)
    (member : task ∈ state.unfinished) : task.slot ≠ state.layer % bufferDepth := by
  have order : state.queue.order = schedule model state.layer := by
    rw [inv.order, stage]
    exact List.append_nil _
  obtain ⟨offset, found⟩ := List.mem_iff_getElem?.mp member
  rw [State.unfinished, List.getElem?_drop] at found
  have current := (List.getElem?_eq_some_iff.mp found).1
  have retired := inv.retired
  have length : state.queue.order.length = base model state.layer := by rw [order, base]
  cases pending : pends model state.layer with
  | false =>
      rw [pending, Bool.toNat_false] at retired
      omega
  | true =>
      rw [pending, Bool.toNat_true] at retired
      have first : offset = 0 := by omega
      subst first
      cases inv.current found with
      | @previous previous layer _ _ =>
          rw [layer]
          exact (slot_ne previous).symm
      | immediate place => omega
      | deferred _ place => omega

theorem Inv.inputsFree (inv : Inv model state) : state.InputsFree := by
  intro copy rest slot queued fills task member
  have expected := inv.copies copy (by rw [queued]; exact List.mem_cons_self ..)
  have stage : state.stage = .wait := by
    cases stage : state.stage <;> rw [stage] at expected <;> simp only [Copy.Expected] at expected
    · obtain ⟨_, _, rfl⟩ := expected
      contradiction
  have own : slot = state.layer % bufferDepth := by
    rw [stage] at expected
    rcases expected with ⟨_, _, rfl⟩ | rfl | rfl | rfl | rfl
    · contradiction
    all_goals exact (Option.some.inj fills).symm
  rw [own]
  exact inv.unfinished_of_wait stage member

theorem Inv.order_prefix (inv : Inv model state) :
    state.queue.order <+: schedule model (state.layer + 1) := by
  rw [inv.order, schedule]
  exact (List.prefix_append_right_inj _).mpr inv.submitted_prefix

theorem Inv.mem_storedTasks (inv : Inv model state) (member : task ∈ state.storedTasks) :
    task.layer ≤ state.layer ∧ base model task.layer + task.deferred.toNat < state.stored := by
  obtain ⟨index, found⟩ := List.mem_iff_getElem?.mp member
  rw [State.storedTasks, List.getElem?_take] at found
  split at found
  case isTrue early =>
    obtain ⟨rest, whole⟩ := inv.order_prefix
    have placed : (schedule model (state.layer + 1))[index]? = some task := by
      rw [← whole, List.getElem?_append_left (List.getElem?_eq_some_iff.mp found).1]
      exact found
    obtain ⟨earlier, place, _⟩ := getElem?_schedule model _ placed
    exact ⟨Nat.le_of_lt_succ earlier, by omega⟩
  case isFalse => contradiction

theorem Inv.immediate_mem_storedTasks (inv : Inv model state) (early : base model layer < state.stored)
    (bound : layer ≤ state.layer) : immediateTask model layer ∈ state.storedTasks := by
  obtain ⟨rest, whole⟩ := inv.order_prefix
  have placed := schedule_base model (Nat.lt_succ_of_le bound)
  rw [← whole, List.getElem?_append_left (Nat.lt_of_lt_of_le early inv.stored_le)] at placed
  apply List.mem_iff_getElem?.mpr
  refine ⟨base model layer, ?_⟩
  rw [State.storedTasks, List.getElem?_take, if_pos early]
  exact placed

/-- An output not yet copied is the one of the previous layer or of the current
one. -/
theorem Inv.uncopied (inv : Inv model state) (bound : layer < state.layer)
    (missing : state.results layer = none) : state.device ≠ [] ∧ state.layer = layer + 1 := by
  have queued := inv.copied layer bound missing
  refine ⟨List.ne_nil_of_mem queued, ?_⟩
  have expected := inv.copies _ queued
  cases stage : state.stage <;> simp only [stage, Copy.Expected, reduceCtorEq, or_false] at expected
  all_goals
    obtain ⟨previous, same, output⟩ := expected
    cases output
    exact same

theorem Inv.outputsFree (inv : Inv model state) : state.OutputsFree := by
  intro task value found loaded
  have stored : state.stored = state.queue.finished := by
    simp only [State.stored, loaded, Nat.add_zero]
  have mono := base_mono model
  refine ⟨?_, ?_⟩
  · rintro ⟨done, member, immediate, target, missing⟩
    obtain ⟨bound, early⟩ := inv.mem_storedTasks member
    have target : done.layer % bufferDepth = task.target := by
      rw [← target, Task.target, immediate]
      rfl
    rw [stored] at early
    rcases Nat.lt_or_eq_of_le bound with earlier | same
    · obtain ⟨waiting, next⟩ := inv.uncopied earlier missing
      cases inv.current found with
      | previous layer =>
          rw [target_deferredTask, ← layer, next] at target
          exact slot_ne _ target.symm
      | immediate _ device => exact waiting device
      | deferred _ _ device => exact waiting device
    · rw [same] at early target
      cases inv.current found with
      | previous _ _ place => omega
      | immediate place => omega
      | deferred =>
          rw [target_deferredTask] at target
          exact slot_ne _ target.symm
  · rintro ⟨done, member, deferred, target, waiting⟩
    obtain ⟨bound, early⟩ := inv.mem_storedTasks member
    have target : (done.layer + 1) % bufferDepth = task.target := by
      rw [← target, ← target_deferredTask]
      simp only [Task.target, Task.slot, deferredTask, deferred]
    rw [deferred, Bool.toNat_true] at early
    have unadded : done.layer + 1 ≤ state.layer → state.stored ≤ base model (done.layer + 1) := by
      intro reached
      by_contra added
      exact waiting _ (inv.immediate_mem_storedTasks (Nat.lt_of_not_le added) reached) rfl rfl
    cases inv.current found with
    | @previous previous layer defers place =>
        have before : done.layer < previous := by
          by_contra later
          have := mono (Nat.le_of_not_lt later)
          have length := base_succ model previous
          rw [defers, Bool.toNat_true, ← layer] at length
          omega
        have := unadded (by omega)
        have := mono (show done.layer + 1 ≤ previous from before)
        have length := base_succ model previous
        rw [defers, Bool.toNat_true, ← layer] at length
        omega
    | immediate place =>
        have before : done.layer < state.layer := by
          by_contra later
          have := mono (Nat.le_of_not_lt later)
          omega
        have next : state.layer = done.layer + 1 := by
          have later := unadded before
          have length := base_succ model (done.layer + 1)
          by_contra other
          have := mono (show done.layer + 1 + 1 ≤ state.layer by omega)
          omega
        have length := base_succ model done.layer
        rw [← next] at length
        change pends model state.layer = true
        rw [next, pends]
        cases defers : model.defers done.layer with
        | true => rfl
        | false =>
            rw [defers, Bool.toNat_false] at length
            omega
    | deferred defers place =>
        rw [target_deferredTask] at target
        have before : done.layer < state.layer := by
          by_contra later
          have := mono (Nat.le_of_not_lt later)
          omega
        have := unadded before
        have := mono (show done.layer + 1 ≤ state.layer from before)
        omega

/-- Under any speed of the worker and of the device, each layer copies out its
immediate contributions and the deferred ones of the layer before it.  The sums
are in any commutative monoid, so equal totals mean that every contribution is
added exactly once. -/
theorem deferred_pipeline_conservation (model : Model batch width R W V)
    (last : model.maxDeferredExpertsPerToken (model.layers - 1) = 0)
    (reached : (machine model).Reachable state) :
    (∀ layer token index,
      model.isImmediate layer token index = !model.isDeferred layer token index) ∧
    (∀ layer out, state.results layer = some out →
      ∀ token, out token = model.immediateSum layer token + model.inheritedSum layer token) ∧
    (∀ outs : Nat → Fin batch → V,
      (∀ layer < model.layers, state.results layer = some (outs layer)) →
        ∀ token, ∑ layer ∈ Finset.range model.layers, outs layer token =
          ∑ layer ∈ Finset.range model.layers, ∑ index, model.contribution layer token index) ∧
    state.InputsFree ∧ state.OutputsFree := by
  have inv := reachable_inv reached
  have total : ∀ layer out, state.results layer = some out → out = model.total layer :=
    inv.outputs.left
  refine ⟨?_, ?_, ?_, inv.inputsFree, inv.outputsFree⟩
  · intro layer token index
    rcases model.classified layer token index with ⟨immediate, deferred, _⟩ | ⟨immediate, deferred, _⟩
    · rw [immediate, deferred]
      rfl
    · rw [immediate, deferred]
      rfl
  · intro layer out found token
    rw [total layer out found]
    exact model.total_eq layer token
  · intro outs found token
    have kept : model.defers (model.layers - 1) = false := by simp [Model.defers, last]
    rw [← model.sum_total kept token]
    apply Finset.sum_congr rfl
    intro layer member
    rw [total layer _ (found layer (Finset.mem_range.mp member))]

/-- Two experts for one token; the first layer defers one of them. -/
def twoLayers : Model 1 2 Unit Unit Nat where
  layers := 2
  numExperts := 2
  topk _ count _ := (List.finRange 2).take count
  expert layer _ id _ := 10 ^ (2 * layer + id.toNat)
  hiddenStates _ _ := ()
  topkIds _ _ index := index.val
  topkWeights _ _ _ := ()
  maxDeferredExpertsPerToken layer := if layer = 0 then 1 else 0
  inRange _ _ index := ⟨Int.natCast_nonneg _, Int.ofNat_lt.mpr index.isLt⟩

def twoLayersStart : State 1 2 Unit Unit Nat where
  slots _ := ⟨fun _ => (), fun _ _ => (), fun _ _ => 0, fun _ _ => 0⟩
  output _ _ := 7
  hasPendingDeferred _ := true

/-- The second layer fills its inputs while the deferred task is running. -/
def overlapping : List Action :=
  [.host, .device, .device, .device, .device, .host, .host, .host, .host, .host, .host,
    .start, .load, .store, .finish, .host, .host, .start, .host, .device, .load, .device, .device,
    .device, .store, .host, .host, .host, .finish, .start, .load, .store, .finish, .host, .host, .device]

theorem deferred_pipeline_conservation_two_layers :
    ∃ state, (machine twoLayers).Reachable state ∧ state.results 0 = some (fun _ => 1) ∧
      state.results 1 = some (fun _ => 1110) ∧ state.InputsFree ∧ state.OutputsFree := by
  obtain ⟨state, reached, found⟩ := (machine twoLayers).exists_reachable_of_run twoLayersStart
    overlapping ⟨rfl, rfl, rfl, rfl, fun _ => rfl, trivial⟩
    (fun state => decide (state.results 0 = some (fun _ => 1) ∧
      state.results 1 = some (fun _ => 1110))) (by decide)
  obtain ⟨first, second⟩ := of_decide_eq_true found
  have safe := deferred_pipeline_conservation twoLayers rfl reached
  exact ⟨state, reached, first, second, safe.2.2.2⟩

/-! ## A pass completes -/

def Stage.rank : Stage → Nat
  | .prepare => 9
  | .wait => 8
  | .submit => 7
  | .clearFlag => 6
  | .waitDeferred => 5
  | .submitDeferred => 4
  | .raiseFlag => 3
  | .sync => 2
  | .copyOutput => 1

def Progress.rank : Progress batch V → Nat
  | .idle => 3
  | .begun => 2
  | .loaded _ => 1
  | .stored => 0

/-- Bounds the steps left: a host step pays for what it queues. -/
def State.remaining (model : Model batch width R W V) (state : State batch width R W V) : Nat :=
  5 * (9 * (model.layers - state.layer) + state.stage.rank) + state.device.length +
    (4 * (state.queue.order.length - state.queue.finished) + state.progress.rank)

/-- The host works on a layer that exists. -/
def State.Within (model : Model batch width R W V) (state : State batch width R W V) : Prop :=
  state.layer ≤ model.layers ∧ (state.stage ≠ .prepare → state.layer < model.layers)

omit [AddCommMonoid V] in
theorem hostStep_remaining (within : state.Within model)
    (moved : hostStep model state = some after) :
    after.Within model ∧ after.remaining model < state.remaining model := by
  obtain ⟨bound, strict⟩ := within
  unfold hostStep at moved
  unfold State.Within State.remaining
  cases stage : state.stage <;> simp only [stage] at moved
  case prepare =>
    split at moved
    · obtain rfl := Option.some.inj moved
      refine ⟨⟨bound, fun _ => ‹_›⟩, ?_⟩
      cases model.defers state.layer <;> simp [Stage.rank] <;> omega
    · contradiction
  case copyOutput =>
    have inside := strict (by rw [stage]; nofun)
    obtain rfl := Option.some.inj moved
    refine ⟨⟨inside, fun other => absurd rfl other⟩, ?_⟩
    simp only [Stage.rank, List.length_append, List.length_singleton]
    omega
  all_goals
    have inside := strict (by rw [stage]; nofun)
  case clearFlag =>
    obtain rfl := Option.some.inj moved
    refine ⟨⟨bound, fun _ => inside⟩, ?_⟩
    cases model.defers state.layer <;> simp [Stage.rank]
  case submit | submitDeferred =>
    obtain rfl := Option.some.inj moved
    refine ⟨⟨bound, fun _ => inside⟩, ?_⟩
    simp only [Stage.rank, Fifo.enqueue, List.length_append, List.length_singleton]
    omega
  case raiseFlag =>
    obtain rfl := Option.some.inj moved
    refine ⟨⟨bound, fun _ => inside⟩, ?_⟩
    simp only [Stage.rank]
    omega
  all_goals
    split at moved
    · obtain rfl := Option.some.inj moved
      refine ⟨⟨bound, fun _ => inside⟩, ?_⟩
      simp only [Stage.rank]
      omega
    · contradiction

omit [AddCommMonoid V] in
theorem deviceStep_remaining (within : state.Within model)
    (moved : deviceStep model state = some after) :
    after.Within model ∧ after.remaining model < state.remaining model := by
  unfold deviceStep at moved
  unfold State.remaining
  cases queued : state.device with
  | nil => simp only [queued, reduceCtorEq] at moved
  | cons copy rest =>
      cases copy <;> simp only [queued] at moved
      all_goals
        obtain rfl := Option.some.inj moved
        refine ⟨within, ?_⟩
        simp only [List.length_cons]
        omega

theorem workerStep_remaining (inv : Inv model state) (within : state.Within model)
    (moved : workerStep model state action = some after) :
    after.Within model ∧ after.remaining model < state.remaining model := by
  have busy := inv.busy
  have running := inv.running
  unfold workerStep at moved
  unfold State.remaining
  cases action <;> simp only [reduceCtorEq] at moved
  case start =>
    cases progress : state.progress <;> simp only [progress, reduceCtorEq] at moved
    obtain ⟨queue, started, rfl⟩ := Option.map_eq_some_iff.mp moved
    unfold Fifo.start? at started
    split at started
    · obtain rfl := Option.some.inj started
      exact ⟨within, by simp only [Progress.rank]; omega⟩
    · contradiction
  case load =>
    split at moved
    case h_1 progress _ =>
      obtain rfl := Option.some.inj moved
      exact ⟨within, by simp only [progress, Progress.rank]; omega⟩
    case h_2 => contradiction
  case store =>
    split at moved
    case h_1 progress _ =>
      obtain rfl := Option.some.inj moved
      exact ⟨within, by simp only [progress, Progress.rank]; omega⟩
    case h_2 => contradiction
  case finish =>
    cases progress : state.progress <;> simp only [progress, reduceCtorEq] at moved
    obtain ⟨queue, finished, rfl⟩ := Option.map_eq_some_iff.mp moved
    unfold Fifo.finish? at finished
    split at finished
    case isTrue serving =>
      have unfinished := running serving
      obtain rfl := Option.some.inj finished
      exact ⟨within, by simp only [Progress.rank]; omega⟩
    case isFalse => contradiction

theorem step_remaining (inv : Inv model state) (within : state.Within model)
    (moved : step model state action = some after) :
    after.Within model ∧ after.remaining model < state.remaining model := by
  unfold step at moved
  cases action with
  | host => exact hostStep_remaining within moved
  | device => exact deviceStep_remaining within moved
  | _ => exact workerStep_remaining inv within moved

theorem reachable_within (reached : (machine model).Reachable state) : state.Within model := by
  induction reached with
  | initial starts =>
      obtain ⟨_, _, layer, stage, _⟩ := starts
      exact ⟨by rw [layer]; exact Nat.zero_le _, fun other => absurd stage other⟩
  | step reached moved within => exact (step_remaining (reachable_inv reached) within moved).1

/-- The worker can move while a task is not done. -/
theorem Inv.worker_enabled (inv : Inv model state)
    (unfinished : state.queue.finished < state.queue.order.length) :
    ∃ action, Pipeline.step model state action ≠ none := by
  have busy := inv.busy
  have found : state.queue.current? = some (state.queue.order[state.queue.finished]) :=
    List.getElem?_eq_getElem unfinished
  cases progress : state.progress <;> rw [progress] at busy
  case idle => exact ⟨.start, by simp [Pipeline.step, Pipeline.workerStep, progress, Fifo.start?, busy, unfinished]⟩
  case begun => exact ⟨.load, by simp [Pipeline.step, Pipeline.workerStep, progress, found]⟩
  case loaded => exact ⟨.store, by simp [Pipeline.step, Pipeline.workerStep, progress, found]⟩
  case stored => exact ⟨.finish, by simp [Pipeline.step, Pipeline.workerStep, progress, Fifo.finish?, busy]⟩

theorem device_enabled (queued : state.device ≠ []) : step model state .device ≠ none := by
  unfold step deviceStep
  cases device : state.device with
  | nil => contradiction
  | cons copy rest => cases copy <;> simp

/-- No deadlock: a pass with no step left has copied out every layer. -/
theorem Inv.complete_of_stuck (inv : Inv model state)
    (stuck : ∀ action, Pipeline.step model state action = none) :
    ∀ layer < model.layers, state.results layer ≠ none := by
  have device : state.device = [] := by
    by_contra queued
    exact device_enabled queued (stuck .device)
  have drained : state.queue.order.length ≤ state.queue.finished := by
    by_contra unfinished
    obtain ⟨action, enabled⟩ := inv.worker_enabled (Nat.lt_of_not_le unfinished)
    exact enabled (stuck action)
  have host := stuck .host
  unfold Pipeline.step Pipeline.hostStep at host
  have last : model.layers ≤ state.layer := by
    cases stage : state.stage <;> simp only [stage, device, if_true, reduceCtorEq] at host
    · by_contra inside
      rw [if_pos (Nat.lt_of_not_le inside)] at host
      contradiction
    · have enough : state.queue.Drained state.allowPending :=
        Nat.le_trans drained (Nat.le_add_right ..)
      rw [if_pos enough] at host
      contradiction
  intro layer inside missing
  have queued := inv.copied layer (Nat.lt_of_lt_of_le inside last) missing
  rw [device] at queued
  contradiction

/-- Every pass ends, and it ends with all its outputs. -/
theorem pass_completes (model : Model batch width R W V) (reached : (machine model).Reachable state) :
    (∀ actions after, (machine model).run state actions = some after →
      actions.length ≤ state.remaining model) ∧
    ((∀ action, step model state action = none) →
      ∀ layer < model.layers, state.results layer ≠ none) := by
  refine ⟨?_, (reachable_inv reached).complete_of_stuck⟩
  intro actions
  induction actions generalizing state with
  | nil => exact fun _ _ => Nat.zero_le _
  | cons action rest induction =>
      intro after ran
      obtain ⟨middle, moved, ran⟩ := Option.bind_eq_some_iff.mp ran
      have fewer := (step_remaining (reachable_inv reached) (reachable_within reached) moved).2
      have tail := induction (.step reached moved) after ran
      rw [List.length_cons]
      omega

theorem pass_completes_two_layers :
    ∃ after, (machine twoLayers).run twoLayersStart overlapping = some after ∧
      overlapping.length ≤ twoLayersStart.remaining twoLayers := by
  obtain ⟨after, ran⟩ := Option.isSome_iff_exists.mp
    (show ((machine twoLayers).run twoLayersStart overlapping).isSome = true by decide)
  have reached : (machine twoLayers).Reachable twoLayersStart := .initial ⟨rfl, rfl, rfl, rfl, fun _ => rfl, trivial⟩
  exact ⟨after, ran, (pass_completes twoLayers reached).1 overlapping after ran⟩

/-! ## How far a pass runs ahead -/

/-- Of the layers before the current one, only the last deferred task can be
left. -/
theorem Inv.leftover (inv : Inv model state) :
    (schedule model state.layer).drop state.queue.finished = [] ∨
      ∃ previous, state.layer = previous + 1 ∧
        (schedule model state.layer).drop state.queue.finished = [deferredTask previous] := by
  have retired := inv.retired
  by_cases done : base model state.layer ≤ state.queue.finished
  · exact .inl (List.drop_eq_nil_iff.mpr done)
  · cases layer : state.layer with
    | zero => exact absurd (by rw [layer]; exact Nat.zero_le _) done
    | succ previous =>
        refine .inr ⟨previous, rfl, ?_⟩
        have length := base_succ model previous
        rw [layer, pends] at retired
        rw [layer] at done
        cases defers : model.defers previous <;> rw [defers] at retired length
        · exact absurd retired done
        · rw [Bool.toNat_true] at retired length
          rw [schedule, tasksOf, defers, show state.queue.finished = (schedule model previous).length + 1 by unfold base at *; omega,
            List.drop_length_add_append]
          rfl

/-- The queue holds at most the tasks of the current layer behind the deferred
one of the layer before it, and no earlier output is missing. -/
theorem lookahead_bounded (model : Model batch width R W V) (reached : (machine model).Reachable state) :
    state.unfinished.length ≤ 3 ∧
      (∀ task ∈ state.unfinished,
        task.layer = state.layer ∨ task.deferred = true ∧ task.layer + 1 = state.layer) ∧
      ∀ layer, layer + 1 < state.layer → state.results layer ≠ none := by
  have inv := reachable_inv reached
  have few : (tasksOf model state.layer).length ≤ 2 ∧ ∀ task ∈ tasksOf model state.layer, task.layer = state.layer := by
    cases defers : model.defers state.layer <;> simp [tasksOf, defers, immediateTask, deferredTask]
  have short := inv.submitted_prefix.length_le
  have later {count : Nat} {task : Task} (member : task ∈ (submitted model state.layer state.stage).drop count) :
      task.layer = state.layer :=
    few.2 task (inv.submitted_prefix.subset (List.mem_of_mem_drop member))
  have split : state.unfinished = (schedule model state.layer).drop state.queue.finished ++
      (submitted model state.layer state.stage).drop (state.queue.finished - base model state.layer) := by
    rw [State.unfinished, inv.order, List.drop_append]
    rfl
  refine ⟨?_, ?_, fun layer early missing => ?_⟩
  · rw [split, List.length_append, List.length_drop (l := submitted ..)]
    rcases inv.leftover with none | ⟨previous, -, one⟩
    · rw [none, List.length_nil]
      omega
    · rw [one, List.length_singleton]
      omega
  · intro task member
    rcases List.mem_append.mp (split ▸ member) with old | new
    · rcases inv.leftover with none | ⟨previous, next, one⟩
      · rw [none] at old
        contradiction
      · rw [one, List.mem_singleton] at old
        exact .inr (by rw [old, next]; exact ⟨rfl, rfl⟩)
    · exact .inl (later new)
  · have next := (inv.uncopied (by omega) missing).2
    omega

theorem lookahead_bounded_two_layers :
    ∃ state, (machine twoLayers).Reachable state ∧ state.unfinished.length ≤ 3 ∧ state.results 0 ≠ none := by
  obtain ⟨state, reached, found⟩ := (machine twoLayers).exists_reachable_of_run twoLayersStart
    overlapping ⟨rfl, rfl, rfl, rfl, fun _ => rfl, trivial⟩ (fun state => decide (state.layer = 2)) (by decide)
  have layer : state.layer = 2 := of_decide_eq_true found
  obtain ⟨few, _, present⟩ := lookahead_bounded twoLayers reached
  exact ⟨state, reached, few, present 0 (by rw [layer]; exact Nat.lt_succ_self 1)⟩

end

end Pipeline

end KtKernel.Experts
