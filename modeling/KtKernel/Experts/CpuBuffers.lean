import Mathlib.Algebra.Group.Nat.Defs
import KtKernel.Data.Machine

namespace KtKernel.Experts

open KtKernel.Data

/-! The staging buffers of `KExpertsCPUBuffer`.

One class keeps them for all wrappers of the process: a dictionary for the
captured batch sizes and the last tuple made.  Both are searched by the batch
size and the two output types.
-/

inductive Dtype where
  | bfloat16
  | float16
  | float32
  | int32
  | long
  | other (name : String)
deriving DecidableEq, Repr

inductive Place where
  | cpu
  | accelerator (kind : String) (index : Nat)
deriving DecidableEq, Repr

/-- A tensor as `torch.full` leaves it. -/
structure Tensor where
  shape : List Nat
  dtype : Dtype
  device : Place
  fill : Int
deriving DecidableEq, Repr

def Tensor.numel (tensor : Tensor) : Nat :=
  tensor.shape.prod

namespace CpuBuffers

def bufferDepth : Nat :=
  2

/-- The flat `hidden_states` and the other arguments of `get_buffer`. -/
structure Request where
  batchSize : Nat
  hiddenSize : Nat
  device : Place
  dtype : Dtype
  numExpertsPerTok : Nat
  outputDtype : Option Dtype
deriving DecidableEq, Repr

structure Key where
  batchSize : Nat
  cpuOutputDtype : Dtype
  deviceOutputDtype : Dtype
deriving DecidableEq, Repr

namespace Request

def cpuOutputDtype (request : Request) : Dtype :=
  match request.outputDtype with
  | none => .bfloat16
  | some dtype => dtype

def deviceOutputDtype (request : Request) : Dtype :=
  match request.outputDtype with
  | none => request.dtype
  | some dtype => dtype

def key (request : Request) : Key :=
  ⟨request.batchSize, request.cpuOutputDtype, request.deviceOutputDtype⟩

/-- What the key leaves out. -/
def Agrees (earlier request : Request) : Prop :=
  earlier.hiddenSize = request.hiddenSize ∧ earlier.numExpertsPerTok = request.numExpertsPerTok ∧
    earlier.device = request.device

end Request

/-- A tuple of tensors.  `serial` tells one allocation from another and
`origin` is the request it was made for; the source keeps neither. -/
structure Buffers where
  serial : Nat
  origin : Request
  inputTensorCpu : List Tensor
  immediateExpertsIdsCpu : List Tensor
  deferredExpertsIdsCpu : List Tensor
  weightsCpu : List Tensor
  outputCpu : List Tensor
  bszTensorCpu : List Tensor
  outputGpu : List Tensor
deriving DecidableEq, Repr

def create (serial : Nat) (request : Request) : Buffers :=
  let rows := request.batchSize
  let each (tensor : Tensor) := List.replicate bufferDepth tensor
  { serial := serial
    origin := request
    inputTensorCpu := each ⟨[rows, request.hiddenSize], .bfloat16, .cpu, 0⟩
    immediateExpertsIdsCpu := each ⟨[rows, request.numExpertsPerTok], .long, .cpu, 0⟩
    deferredExpertsIdsCpu := each ⟨[rows, request.numExpertsPerTok], .long, .cpu, -1⟩
    weightsCpu := each ⟨[rows, request.numExpertsPerTok], .float32, .cpu, 0⟩
    outputCpu := each ⟨[rows, request.hiddenSize], request.cpuOutputDtype, .cpu, 0⟩
    bszTensorCpu := each ⟨[1], .int32, .cpu, rows⟩
    outputGpu := each ⟨[rows, request.hiddenSize], request.deviceOutputDtype, request.device, 0⟩ }

/-- `temp` is `temp_key` with `temp_buffer`: they are set and cleared together. -/
structure State where
  captureBs : List Int := []
  captureBuffers : Key → Option Buffers := fun _ => none
  temp : Option (Key × Buffers) := none
  allocated : Nat := 0

/-- The tuple a request hits. -/
def State.cached (state : State) (key : Key) : Option Buffers :=
  match state.captureBuffers key with
  | some buffers => some buffers
  | none =>
      match state.temp with
      | some (tempKey, buffers) => if key = tempKey then some buffers else none
      | none => none

/-- The end of `get_buffer`: a new tuple is always the temporary one, and stays
when its batch size is captured. -/
def State.keep (state : State) (key : Key) (curBuffer : Buffers) : State :=
  { state with
    captureBuffers :=
      if (key.batchSize : Int) ∈ state.captureBs then
        Function.update state.captureBuffers key (some curBuffer)
      else state.captureBuffers
    temp := some (key, curBuffer)
    allocated := state.allocated + 1 }

def getBuffer (state : State) (request : Request) : Buffers × State :=
  match state.cached request.key with
  | some buffers => (buffers, state)
  | none =>
      let curBuffer := create state.allocated request
      (curBuffer, state.keep request.key curBuffer)

inductive Action where
  | getBuffer (request : Request)
  | setCaptureBatchSizes (captureBs : List Int)
  | clearBufferCache
deriving DecidableEq, Repr

def step (state : State) : Action → State
  | .getBuffer request => (getBuffer state request).2
  | .setCaptureBatchSizes captureBs => { state with captureBs := captureBs }
  | .clearBufferCache => { state with captureBuffers := fun _ => none, temp := none }

def machine : Machine State Action where
  initial state := state = {}
  step state action := some (step state action)

/-! ## What a request is promised -/

def Uniform (tensors : List Tensor) (tensor : Tensor) : Prop :=
  tensors.length = bufferDepth ∧ ∀ member ∈ tensors, member = tensor

theorem uniform_replicate_iff : Uniform (List.replicate bufferDepth made) wanted ↔ made = wanted := by
  constructor
  · intro uniform
    exact uniform.2 made (by simp [bufferDepth])
  · intro same
    subst made
    exact ⟨List.length_replicate, fun member found => List.eq_of_mem_replicate found⟩

/-- The tensors of the tuple have the shapes, types and devices of the request. -/
structure Buffers.Fits (buffers : Buffers) (request : Request) : Prop where
  inputTensorCpu : Uniform buffers.inputTensorCpu
    ⟨[request.batchSize, request.hiddenSize], .bfloat16, .cpu, 0⟩
  immediateExpertsIdsCpu : Uniform buffers.immediateExpertsIdsCpu
    ⟨[request.batchSize, request.numExpertsPerTok], .long, .cpu, 0⟩
  deferredExpertsIdsCpu : Uniform buffers.deferredExpertsIdsCpu
    ⟨[request.batchSize, request.numExpertsPerTok], .long, .cpu, -1⟩
  weightsCpu : Uniform buffers.weightsCpu
    ⟨[request.batchSize, request.numExpertsPerTok], .float32, .cpu, 0⟩
  outputCpu : Uniform buffers.outputCpu
    ⟨[request.batchSize, request.hiddenSize], request.cpuOutputDtype, .cpu, 0⟩
  bszTensorCpu : Uniform buffers.bszTensorCpu ⟨[1], .int32, .cpu, request.batchSize⟩
  outputGpu : Uniform buffers.outputGpu
    ⟨[request.batchSize, request.hiddenSize], request.deviceOutputDtype, request.device, 0⟩

/-- What `forward_task` addresses lies in the tensors it is given: it reads the
token count from `bsz` and the number of ids from the last dimension of the id
tensor, and takes the hidden size from the wrapper. -/
def Buffers.Covers (buffers : Buffers) (hiddenSize : Nat) : Prop :=
  ∀ bsz ∈ buffers.bszTensorCpu, ∀ ids ∈ buffers.immediateExpertsIdsCpu ++ buffers.deferredExpertsIdsCpu,
    ∀ weights ∈ buffers.weightsCpu, ∀ input ∈ buffers.inputTensorCpu, ∀ output ∈ buffers.outputCpu,
      bsz.fill.toNat * ids.shape.getLastD 0 ≤ ids.numel ∧
        bsz.fill.toNat * ids.shape.getLastD 0 ≤ weights.numel ∧
        bsz.fill.toNat * hiddenSize ≤ input.numel ∧ bsz.fill.toNat * hiddenSize ≤ output.numel

theorem Buffers.Fits.covers {buffers : Buffers} (fits : buffers.Fits request) :
    buffers.Covers request.hiddenSize := by
  intro bsz bszMember ids idsMember weights weightsMember input inputMember output outputMember
  have shape : ids.shape = [request.batchSize, request.numExpertsPerTok] := by
    rcases List.mem_append.mp idsMember with immediate | deferred
    · rw [fits.immediateExpertsIdsCpu.2 ids immediate]
    · rw [fits.deferredExpertsIdsCpu.2 ids deferred]
  rw [fits.bszTensorCpu.2 bsz bszMember, fits.weightsCpu.2 weights weightsMember,
    fits.inputTensorCpu.2 input inputMember, fits.outputCpu.2 output outputMember]
  simp [Tensor.numel, shape]

/-- A tuple made for one request fits another of its key when they agree. -/
theorem create_fits_iff (sameKey : earlier.key = request.key) :
    (create serial earlier).Fits request ↔ earlier.Agrees request := by
  simp only [Request.key, Key.mk.injEq] at sameKey
  obtain ⟨rows, cpuOutput, deviceOutput⟩ := sameKey
  constructor
  · intro fits
    have input := uniform_replicate_iff.mp fits.inputTensorCpu
    have ids := uniform_replicate_iff.mp fits.immediateExpertsIdsCpu
    have output := uniform_replicate_iff.mp fits.outputGpu
    simp only [Tensor.mk.injEq, List.cons.injEq, and_true] at input ids output
    exact ⟨input.2, ids.2, output.2.2⟩
  · intro agrees
    obtain ⟨hidden, topk, device⟩ := agrees
    exact
      { inputTensorCpu := uniform_replicate_iff.mpr (by rw [rows, hidden])
        immediateExpertsIdsCpu := uniform_replicate_iff.mpr (by rw [rows, topk])
        deferredExpertsIdsCpu := uniform_replicate_iff.mpr (by rw [rows, topk])
        weightsCpu := uniform_replicate_iff.mpr (by rw [rows, topk])
        outputCpu := uniform_replicate_iff.mpr (by rw [rows, hidden, cpuOutput])
        bszTensorCpu := uniform_replicate_iff.mpr (by rw [rows])
        outputGpu := uniform_replicate_iff.mpr (by rw [rows, hidden, deviceOutput, device]) }

/-! ## The caches -/

variable {state : State} {request : Request} {key : Key} {buffers : Buffers}

/-- The tuple was made by `create` for a request of this key. -/
def Made (allocated : Nat) (key : Key) (buffers : Buffers) : Prop :=
  buffers.serial < allocated ∧ buffers.origin.key = key ∧
    buffers = create buffers.serial buffers.origin

structure Inv (state : State) : Prop where
  captured : ∀ key buffers, state.captureBuffers key = some buffers →
    Made state.allocated key buffers
  temporary : ∀ key buffers, state.temp = some (key, buffers) → Made state.allocated key buffers

theorem Made.mono (made : Made fewer key buffers) (grown : fewer ≤ more) : Made more key buffers :=
  ⟨Nat.lt_of_lt_of_le made.1 grown, made.2⟩

theorem Inv.cached (inv : Inv state) (found : state.cached key = some buffers) :
    Made state.allocated key buffers := by
  unfold State.cached at found
  cases captured : state.captureBuffers key with
  | some kept =>
      simp only [captured, Option.some.injEq] at found
      exact found ▸ inv.captured key kept captured
  | none =>
      cases temporary : state.temp with
      | none => simp [captured, temporary] at found
      | some pair =>
          obtain ⟨tempKey, kept⟩ := pair
          simp only [captured, temporary] at found
          split at found
          · rename_i same
            simp only [Option.some.injEq] at found
            rw [same, ← found]
            exact inv.temporary tempKey kept temporary
          · contradiction

theorem getBuffer_hit (found : state.cached request.key = some buffers) :
    getBuffer state request = (buffers, state) := by
  simp only [getBuffer, found]

theorem getBuffer_miss (missing : state.cached request.key = none) :
    getBuffer state request =
      (create state.allocated request, state.keep request.key (create state.allocated request)) := by
  simp only [getBuffer, missing]

theorem uncaptured_of_missing (missing : state.cached key = none) :
    state.captureBuffers key = none := by
  cases captured : state.captureBuffers key with
  | none => rfl
  | some kept => simp [State.cached, captured] at missing

theorem cached_keep_self (missing : state.cached key = none) (curBuffer : Buffers) :
    (state.keep key curBuffer).cached key = some curBuffer := by
  have uncaptured := uncaptured_of_missing missing
  by_cases listed : (key.batchSize : Int) ∈ state.captureBs
  · simp [State.keep, State.cached, listed]
  · simp [State.keep, State.cached, listed, uncaptured]

theorem captureBuffers_keep_of_ne (different : key ≠ other) (curBuffer : Buffers) :
    (state.keep other curBuffer).captureBuffers key = state.captureBuffers key := by
  simp only [State.keep]
  split
  · exact Function.update_of_ne different ..
  · rfl

/-- A new tuple can take the temporary place of another key. -/
theorem cached_of_keep_of_ne (different : key ≠ other)
    (found : (state.keep other curBuffer).cached key = some buffers) :
    state.cached key = some buffers := by
  unfold State.cached at found ⊢
  rw [captureBuffers_keep_of_ne different] at found
  cases captured : state.captureBuffers key with
  | some kept =>
      rw [captured] at found
      exact found
  | none => simp [captured, State.keep, different] at found

/-- After a lookup the key holds what was returned. -/
theorem cached_getBuffer (state : State) (request : Request) :
    (getBuffer state request).2.cached request.key = some (getBuffer state request).1 := by
  cases found : state.cached request.key with
  | some buffers => rw [getBuffer_hit found, found]
  | none =>
      rw [getBuffer_miss found]
      exact cached_keep_self found _

theorem Inv.keep (inv : Inv state) (request : Request) :
    Inv (state.keep request.key (create state.allocated request)) := by
  have made : Made (state.allocated + 1) request.key (create state.allocated request) :=
    ⟨Nat.lt_succ_self _, rfl, rfl⟩
  constructor
  · intro key buffers kept
    by_cases same : key = request.key
    · subst same
      by_cases listed : (request.key.batchSize : Int) ∈ state.captureBs
      · simp only [State.keep, listed, if_true, Function.update_self, Option.some.injEq] at kept
        exact kept ▸ made
      · simp only [State.keep, listed, if_false] at kept
        exact (inv.captured _ buffers kept).mono (Nat.le_succ _)
    · rw [captureBuffers_keep_of_ne same] at kept
      exact (inv.captured key buffers kept).mono (Nat.le_succ _)
  · intro key buffers kept
    simp only [State.keep, Option.some.injEq, Prod.mk.injEq] at kept
    exact kept.1 ▸ kept.2 ▸ made

theorem Inv.getBuffer (inv : Inv state) (request : Request) : Inv (getBuffer state request).2 := by
  cases found : state.cached request.key with
  | some buffers =>
      rw [getBuffer_hit found]
      exact inv
  | none =>
      rw [getBuffer_miss found]
      exact inv.keep request

theorem empty_inv (uncaptured : state.captureBuffers = fun _ => none) (vacant : state.temp = none) :
    Inv state := by
  constructor
  · intro key buffers kept
    rw [uncaptured] at kept
    contradiction
  · intro key buffers kept
    rw [vacant] at kept
    contradiction

theorem Inv.step (inv : Inv state) (action : Action) : Inv (step state action) := by
  cases action with
  | getBuffer request => exact inv.getBuffer request
  | setCaptureBatchSizes captureBs => exact ⟨inv.captured, inv.temporary⟩
  | clearBufferCache => exact empty_inv rfl rfl

theorem reachable_inv (reached : machine.Reachable state) : Inv state := by
  refine reached.invariant ?_ ?_
  · intro state starts
    rw [show state = {} from starts]
    exact empty_inv rfl rfl
  · intro before action after inv moved
    obtain rfl := Option.some.inj moved
    exact inv.step action

/-- A returned tuple fits exactly when the tuple found was made for a request
that agrees. -/
theorem getBuffer_fits_iff (inv : Inv state) (request : Request) :
    (getBuffer state request).1.Fits request ↔
      ∀ buffers, state.cached request.key = some buffers → buffers.origin.Agrees request := by
  cases found : state.cached request.key with
  | some buffers =>
      obtain ⟨_, sameKey, made⟩ := inv.cached found
      rw [getBuffer_hit found]
      simp only [Option.some.injEq, forall_eq']
      rw [made]
      exact create_fits_iff sameKey
  | none =>
      rw [getBuffer_miss found]
      simp only [reduceCtorEq, false_implies, implies_true, iff_true]
      exact (create_fits_iff rfl).mpr ⟨rfl, rfl, rfl⟩

/-! ## Between two lookups of a call -/

def Action.Quiet (key : Key) : Action → Prop
  | .getBuffer request => request.key = key
  | _ => True

instance (key : Key) (action : Action) : Decidable (action.Quiet key) := by
  cases action <;> unfold Action.Quiet <;> infer_instance

def after (state : State) (actions : List Action) : State :=
  actions.foldl step state

theorem after_cons (state : State) (action : Action) (rest : List Action) :
    after state (action :: rest) = after (step state action) rest :=
  rfl

theorem cached_step (found : state.cached key = some buffers) (quiet : action.Quiet key)
    (kept : action ≠ .clearBufferCache) : (step state action).cached key = some buffers := by
  cases action with
  | getBuffer request =>
      obtain rfl : request.key = key := quiet
      rw [step, getBuffer_hit found]
      exact found
  | setCaptureBatchSizes captureBs => exact found
  | clearBufferCache => contradiction

theorem cached_after (found : state.cached key = some buffers)
    (quiet : ∀ action ∈ between, action.Quiet key) (kept : .clearBufferCache ∉ between) :
    (after state between).cached key = some buffers := by
  induction between generalizing state with
  | nil => exact found
  | cons action rest induction =>
      rw [List.mem_cons, not_or] at kept
      rw [List.forall_mem_cons] at quiet
      exact induction (cached_step found quiet.1 (Ne.symm kept.1)) quiet.2 kept.2

/-- Everything a key holds is newer than `bound`. -/
def Newer (bound : Nat) (state : State) : Prop :=
  bound ≤ state.allocated ∧
    ∀ key buffers, state.cached key = some buffers → bound ≤ buffers.serial

theorem allocated_getBuffer (state : State) (request : Request) :
    state.allocated ≤ (getBuffer state request).2.allocated := by
  cases found : state.cached request.key with
  | some buffers => exact Nat.le_of_eq (by rw [getBuffer_hit found])
  | none =>
      rw [getBuffer_miss found]
      exact Nat.le_succ _

theorem allocated_step (state : State) (action : Action) :
    state.allocated ≤ (step state action).allocated := by
  cases action with
  | getBuffer request => exact allocated_getBuffer state request
  | setCaptureBatchSizes captureBs => exact Nat.le_refl _
  | clearBufferCache => exact Nat.le_refl _

/-- What a key holds after a lookup it held before, or it was just made. -/
theorem cached_of_getBuffer (found : (getBuffer state request).2.cached key = some buffers) :
    state.cached key = some buffers ∨ buffers = create state.allocated request := by
  cases hit : state.cached request.key with
  | some kept =>
      rw [getBuffer_hit hit] at found
      exact .inl found
  | none =>
      rw [getBuffer_miss hit] at found
      by_cases same : key = request.key
      · subst key
        rw [cached_keep_self hit, Option.some.injEq] at found
        exact .inr found.symm
      · exact .inl (cached_of_keep_of_ne same found)

theorem cached_clear (state : State) (key : Key) : (step state .clearBufferCache).cached key = none :=
  rfl

theorem Newer.step (newer : Newer bound state) (action : Action) : Newer bound (step state action) := by
  refine ⟨Nat.le_trans newer.1 (allocated_step state action), ?_⟩
  cases action with
  | getBuffer request =>
      intro key buffers found
      rcases cached_of_getBuffer found with before | fresh
      · exact newer.2 key buffers before
      · rw [fresh]
        exact newer.1
  | setCaptureBatchSizes captureBs => exact newer.2
  | clearBufferCache =>
      intro key buffers found
      rw [cached_clear] at found
      contradiction

theorem Newer.after (newer : Newer bound state) (actions : List Action) :
    Newer bound (after state actions) := by
  induction actions generalizing state with
  | nil => exact newer
  | cons action rest induction =>
      rw [after_cons]
      exact induction (newer.step action)

/-- Once the cache has been cleared the key gets another tuple. -/
theorem newer_after_clear (inv : Inv state) (cleared : .clearBufferCache ∈ between) :
    Newer state.allocated (after state between) := by
  induction between generalizing state with
  | nil => contradiction
  | cons action rest induction =>
      rw [after_cons]
      rcases List.mem_cons.mp cleared with first | later
      · subst action
        have empty : Newer state.allocated (step state .clearBufferCache) := by
          refine ⟨Nat.le_refl _, fun key buffers found => ?_⟩
          rw [cached_clear] at found
          contradiction
        exact empty.after rest
      · have tail := induction (inv.step action) later
        have grown := allocated_step state action
        exact ⟨Nat.le_trans grown tail.1,
          fun key buffers found => Nat.le_trans grown (tail.2 key buffers found)⟩

theorem serial_getBuffer (newer : Newer bound state) (request : Request) :
    bound ≤ (getBuffer state request).1.serial := by
  cases found : state.cached request.key with
  | some buffers =>
      rw [getBuffer_hit found]
      exact newer.2 request.key buffers found
  | none =>
      rw [getBuffer_miss found]
      exact newer.1

/-- The next lookup of the call returns the same tuple unless the cache was
cleared in between. -/
theorem same_tuple_iff (inv : Inv state) (quiet : ∀ action ∈ between, action.Quiet request.key) :
    (getBuffer (after (getBuffer state request).2 between) request).1 = (getBuffer state request).1 ↔
      .clearBufferCache ∉ between := by
  have held := cached_getBuffer state request
  constructor
  · intro same cleared
    have later := serial_getBuffer (newer_after_clear (inv.getBuffer request) cleared) request
    have earlier := ((inv.getBuffer request).cached held).1
    rw [same] at later
    omega
  · intro kept
    rw [getBuffer_hit (cached_after held quiet kept)]

/-- In every run, what a layer call looks up fits it, covers what its tasks
address and stays the same tuple exactly when the tuple in the cache was made
for the same hidden size, top-k and device and the cache is not cleared between
the steps of the call. -/
theorem staging_buffers_fit_iff (reached : machine.Reachable state) (request : Request)
    (between : List Action) (quiet : ∀ action ∈ between, action.Quiet request.key) :
    ((getBuffer state request).1.Fits request ∧
        (getBuffer state request).1.Covers request.hiddenSize ∧
        (getBuffer (after (getBuffer state request).2 between) request).1 =
          (getBuffer state request).1) ↔
      (∀ buffers, state.cached request.key = some buffers → buffers.origin.Agrees request) ∧
        .clearBufferCache ∉ between := by
  have inv := reachable_inv reached
  rw [same_tuple_iff inv quiet, ← getBuffer_fits_iff inv request]
  constructor
  · intro all
    exact ⟨all.1, all.2.2⟩
  · intro all
    exact ⟨all.1, all.1.covers, all.2⟩

/-- Four tokens of a model with hidden size 8. -/
def narrow : Request :=
  ⟨4, 8, .accelerator "npu" 0, .bfloat16, 2, none⟩

def wide : Request :=
  { narrow with hiddenSize := 16 }

theorem staging_buffers_fit_after_capture :
    (getBuffer (step {} (.setCaptureBatchSizes [4])) narrow).1.Fits narrow ∧
      (getBuffer (step {} (.setCaptureBatchSizes [4])) narrow).1.Covers 8 ∧
      (getBuffer (after (getBuffer (step {} (.setCaptureBatchSizes [4])) narrow).2
          [.setCaptureBatchSizes []]) narrow).1 =
        (getBuffer (step {} (.setCaptureBatchSizes [4])) narrow).1 := by
  have moved : machine.step {} (.setCaptureBatchSizes [4]) =
      some (step {} (.setCaptureBatchSizes [4])) := rfl
  have reached : machine.Reachable (step {} (.setCaptureBatchSizes [4])) := .step (.initial rfl) moved
  exact (staging_buffers_fit_iff reached narrow [.setCaptureBatchSizes []] (by decide)).mpr
    ⟨by nofun, by decide⟩

/-- A second model with the same batch gets the tensors of the first. -/
theorem wide_request_gets_narrow_buffers :
    ∃ state, machine.Reachable state ∧ ¬ (getBuffer state wide).1.Fits wide ∧
      ¬ (getBuffer state wide).1.Covers wide.hiddenSize := by
  have moved : machine.step {} (.getBuffer narrow) = some (step {} (.getBuffer narrow)) := rfl
  refine ⟨step {} (.getBuffer narrow), .step (.initial rfl) moved, ?_, ?_⟩
  · intro fits
    have shape := fits.inputTensorCpu.2 ⟨[4, 8], .bfloat16, .cpu, 0⟩ (by decide)
    revert shape
    decide
  · unfold Buffers.Covers
    decide

end CpuBuffers

end KtKernel.Experts
