import KtKernel.Data.Machine
import Mathlib.Data.Fintype.Basic

namespace KtKernel.Sft.SharedBuffer

open KtKernel.Data

/-! The one `KExpertsSFTBuffer` of a process and the calls of the SFT wrappers on it.

A call copies its tensors into the shared buffer and queues a task that holds
raw pointers into it.  The worker reads the inputs at any time before the task
ends, while the calling thread goes on unless it waits in `sync`. -/

structure Shape where
  hiddenSize : Nat
  numExpertsPerTok : Nat
deriving DecidableEq, Repr

inductive Field where
  | input
  | expertIds
  | weights
  | output
  | gradOutput
  | gradInput
  | gradWeights
deriving DecidableEq, Repr

inductive Side where
  | forward
  | backward
deriving DecidableEq, Repr

def Shape.width (shape : Shape) : Field → Nat
  | .expertIds => shape.numExpertsPerTok
  | .weights => shape.numExpertsPerTok
  | .gradWeights => shape.numExpertsPerTok
  | .input => shape.hiddenSize
  | .output => shape.hiddenSize
  | .gradOutput => shape.hiddenSize
  | .gradInput => shape.hiddenSize

/-- The tensors a call copies, in the order of the copies. -/
def Side.inputs : Side → List Field
  | .forward => [.input, .expertIds, .weights]
  | .backward => [.gradOutput]

/-- The tensors a task writes. -/
def Side.outputs : Side → List Field
  | .forward => [.output]
  | .backward => [.gradInput, .gradWeights]

structure Wrapper where
  shape : Shape
  chunkedPrefillSize : Nat

/-- What a caller passes for each field, already in the type of the buffer. -/
def Values (V : Type) : Type :=
  Field → Nat → Nat → V

def table (rows width : Nat) (entry : Nat → Nat → V) : List (List V) :=
  (List.range rows).map fun row => (List.range width).map (entry row)

def tables (shape : Shape) (rows : Nat) (fields : List Field) (values : Values V) : List (List (List V)) :=
  fields.map fun field => table rows (shape.width field) (values field)

/-- A queued task with the buffer its pointers lead into.  `number` and `copied`
are only observed. -/
structure Task (ι V : Type) where
  number : Nat
  wrapper : ι
  side : Side
  buffer : Nat
  rows : Nat
  saveForBackward : Bool
  copied : List (List (List V))
deriving DecidableEq

/-- Each tensor is a row-major block.  `latest` is only observed: the last task of
each side that was queued on the buffer. -/
structure Buffer (ι V : Type) where
  qlen : Nat
  shape : Shape
  bsz : Nat
  cells : Field → Nat → V
  latest : Side → Option (Task ι V)

/-- The calls that wait for the queue. -/
inductive Waiting (ι V : Type) where
  | forward (task : Task ι V)
  | syncForward (task : Task ι V)
  | backward (task : Task ι V)
  | syncBackward (task : Task ι V)

/-- `pendingForward` has `_pending_buffer`, `_pending_qlen` and `_pending_save_for_backward`;
`asyncBwd` stands for `_async_bwd_qlen` and its task for the record only.  `cached` are
the tokens of the forward that the C++ instance keeps, and `running` those of the task
at the head of the queue once it has begun.  The last five fields are only observed. -/
structure State (ι V : Type) where
  buffers : Nat → Buffer ι V
  allocated : Nat
  shared : Option Nat
  cacheDepth : ι → Int
  pendingForward : ι → Option (Task ι V)
  asyncBwd : ι → Option (Task ι V)
  cached : ι → Option Nat
  queue : List (Task ι V)
  running : Option Nat
  failed : Bool
  waiting : Option (Waiting ι V)
  submitted : Nat
  lost : Nat → Bool
  wrote : Nat → Option (List (List (List V)))
  observed : List (Task ι V × List (List (List V)))
  returned : List (Task ι V × List (List (List V)))

inductive Call (ι V : Type) where
  | forward (wrapper : ι) (rows : Nat) (values : Values V) (saveForBackward : Bool)
  | submitForward (wrapper : ι) (rows : Nat) (values : Values V) (saveForBackward : Bool)
  | syncForward (wrapper : ι)
  | backward (wrapper : ι) (rows : Nat) (values : Values V)
  | submitBackwardAsync (wrapper : ι) (rows : Nat) (values : Values V)
  | syncBackward (wrapper : ι)

inductive Action (ι V : Type) where
  | call (call : Call ι V)
  | start
  | read
  | finish (results : Values V)
  | resume

/-! ## Buffers -/

namespace Buffer

/-- `found` is what `torch.empty` happens to find. -/
def create (qlen : Nat) (shape : Shape) (found : Field → Nat → V) : Buffer ι V :=
  ⟨qlen, shape, qlen, found, fun _ => none⟩

/-- The rows that lie at the start of a field, for a reader that takes rows to have `width` entries. -/
def rowsOf (buffer : Buffer ι V) (width : Field → Nat) : Values V :=
  fun field row column => buffer.cells field (row * width field + column)

def fill (field : Field) (rows width : Nat) (entry : Nat → Nat → V) (buffer : Buffer ι V) : Buffer ι V :=
  { buffer with
    cells := Function.update buffer.cells field fun index =>
      if index < rows * width then entry (index / width) (index % width) else buffer.cells field index }

/-- A task writes rows of its own width. -/
def fillAll (shape : Shape) (rows : Nat) (values : Values V) : List Field → Buffer ι V → Buffer ι V
  | [], buffer => buffer
  | field :: rest, buffer =>
      fillAll shape rows values rest (buffer.fill field rows (shape.width field) (values field))

/-- When `copy_` accepts a source: equal widths, or one column for all. -/
def Fits (own buffer : Shape) (field : Field) : Prop :=
  own.width field = buffer.width field ∨ own.width field = 1

instance (own buffer : Shape) (field : Field) : Decidable (Fits own buffer field) :=
  inferInstanceAs (Decidable (_ ∨ _))

/-- The copies of a call up to the one that raises. -/
def copyInputs (own : Shape) (rows : Nat) (values : Values V) :
    List Field → Buffer ι V → Buffer ι V × Bool
  | [], buffer => (buffer, true)
  | field :: rest, buffer =>
      if Fits own buffer.shape field then
        copyInputs own rows values rest
          (buffer.fill field rows (buffer.shape.width field) fun row column =>
            values field row (if own.width field = 1 then 0 else column))
      else (buffer, false)

/-- The end of `_copy_inputs_to_buffer`, and the task on record. -/
def queued (task : Task ι V) (buffer : Buffer ι V) : Buffer ι V :=
  { buffer with
    bsz := match task.side with
      | .forward => task.rows
      | .backward => buffer.bsz
    latest := Function.update buffer.latest task.side (some task) }

end Buffer

/-! ## Calls -/

section

variable {ι V : Type} [DecidableEq ι] (config : ι → Wrapper) (found : Nat → Field → Nat → V)

def initial : State ι V where
  buffers := fun number => Buffer.create 0 ⟨0, 0⟩ (found number)
  allocated := 0
  shared := none
  cacheDepth := fun _ => 0
  pendingForward := fun _ => none
  asyncBwd := fun _ => none
  cached := fun _ => none
  queue := []
  running := none
  failed := false
  waiting := none
  submitted := 0
  lost := fun _ => false
  wrote := fun _ => none
  observed := []
  returned := []

/-- The shared buffer, where `get_buffer` does not replace it. -/
def State.reuses (state : State ι V) (rows : Nat) : Option Nat :=
  match state.shared with
  | some number => if rows ≤ (state.buffers number).qlen then some number else none
  | none => none

def getBuffer (shape : Shape) (rows : Nat) (state : State ι V) : State ι V × Nat :=
  match state.reuses rows with
  | some number => (state, number)
  | none =>
      ({ state with
         buffers := Function.update state.buffers state.allocated
           (Buffer.create rows shape (found state.allocated))
         allocated := state.allocated + 1
         shared := some state.allocated }, state.allocated)

def newTask (side : Side) (wrapper : ι) (rows : Nat) (values : Values V) (saveForBackward : Bool)
    (number : Nat) (state : State ι V) : Task ι V where
  number := state.submitted
  wrapper := wrapper
  side := side
  buffer := number
  rows := rows
  saveForBackward := saveForBackward
  copied := tables (config wrapper).shape rows side.inputs values

/-- The task goes to the end of the queue. -/
def enqueue (task : Task ι V) (copied : Buffer ι V) (state : State ι V) : State ι V :=
  { state with
    buffers := Function.update state.buffers task.buffer (copied.queued task)
    queue := state.queue ++ [task]
    submitted := state.submitted + 1 }

/-- From `_get_buffer` to `cpu_infer.submit`; `none` where a copy raises. -/
def submit (side : Side) (wrapper : ι) (rows : Nat) (values : Values V) (saveForBackward : Bool)
    (state : State ι V) : State ι V × Option (Task ι V) :=
  let (state, number) := getBuffer found (config wrapper).shape rows state
  let (copied, passed) :=
    (state.buffers number).copyInputs (config wrapper).shape rows values side.inputs
  if passed then
    let task := newTask config side wrapper rows values saveForBackward number state
    (enqueue task copied state, some task)
  else ({ state with buffers := Function.update state.buffers number copied }, none)

/-- What a call does until it returns, raises or waits.  `forward` checks the token
count, `backward` the cache depth. -/
def perform (state : State ι V) : Call ι V → State ι V
  | .forward wrapper rows values saveForBackward =>
      if (config wrapper).chunkedPrefillSize < rows then state
      else match submit config found .forward wrapper rows values saveForBackward state with
        | (state, some task) => { state with waiting := some (.forward task) }
        | (state, none) => state
  | .submitForward wrapper rows values saveForBackward =>
      if (config wrapper).chunkedPrefillSize < rows then state
      else match submit config found .forward wrapper rows values saveForBackward state with
        | (state, some task) =>
            { state with pendingForward := Function.update state.pendingForward wrapper (some task) }
        | (state, none) => state
  | .syncForward wrapper =>
      match state.pendingForward wrapper with
      | some task => { state with waiting := some (.syncForward task) }
      | none => state
  | .backward wrapper rows values =>
      if state.cacheDepth wrapper ≤ 0 then state
      else match submit config found .backward wrapper rows values false state with
        | (state, some task) => { state with waiting := some (.backward task) }
        | (state, none) => state
  | .submitBackwardAsync wrapper rows values =>
      if state.cacheDepth wrapper ≤ 0 then state
      else match submit config found .backward wrapper rows values false state with
        | (state, some task) =>
            { state with asyncBwd := Function.update state.asyncBwd wrapper (some task) }
        | (state, none) => state
  | .syncBackward wrapper =>
      match state.asyncBwd wrapper with
      | some task => { state with waiting := some (.syncBackward task) }
      | none => state

/-- A forward reads `bsz_tensor`; a backward pops the cached forward and throws
where there is none. -/
def start (task : Task ι V) (rest : List (Task ι V)) (state : State ι V) : State ι V :=
  match task.side with
  | .forward => { state with running := some (state.buffers task.buffer).bsz }
  | .backward =>
      match state.cached task.wrapper with
      | some rows =>
          { state with
            running := some rows
            cached := Function.update state.cached task.wrapper none }
      | none =>
          { state with
            queue := rest
            failed := true
            lost := Function.update state.lost task.number true }

/-- What a task with `rows` tokens finds in its inputs. -/
def inputsOf (task : Task ι V) (rows : Nat) (state : State ι V) : List (List (List V)) :=
  tables (config task.wrapper).shape rows task.side.inputs
    ((state.buffers task.buffer).rowsOf (config task.wrapper).shape.width)

def finish (task : Task ι V) (rest : List (Task ι V)) (rows : Nat) (results : Values V)
    (state : State ι V) : State ι V :=
  { state with
    buffers := Function.update state.buffers task.buffer
      ((state.buffers task.buffer).fillAll (config task.wrapper).shape rows results task.side.outputs)
    cached := match task.side with
      | .forward =>
          if task.saveForBackward then Function.update state.cached task.wrapper (some rows) else state.cached
      | .backward => state.cached
    queue := rest
    running := none
    wrote := Function.update state.wrote task.number
      (some (tables (config task.wrapper).shape rows task.side.outputs results)) }

/-! ## After `cpu_infer.sync` -/

/-- `_return_output` and `_return_grads`: `[:qlen]` of the buffer's tensors. -/
def giveBack (task : Task ι V) (number : Nat) (state : State ι V) : State ι V :=
  let buffer := state.buffers number
  { state with
    waiting := none
    returned := (task, tables buffer.shape task.rows task.side.outputs (buffer.rowsOf buffer.shape.width)) ::
      state.returned }

def deepen (task : Task ι V) (state : State ι V) : State ι V :=
  { state with
    cacheDepth := if task.saveForBackward ∧ state.cacheDepth task.wrapper = 0 then
        Function.update state.cacheDepth task.wrapper 1
      else state.cacheDepth }

def shallower (task : Task ι V) (state : State ι V) : State ι V :=
  { state with
    cacheDepth := Function.update state.cacheDepth task.wrapper (state.cacheDepth task.wrapper - 1) }

/-- `sync` raises what the queue kept and forgets it. -/
def raised (waiting : Waiting ι V) (state : State ι V) : State ι V :=
  { state with
    failed := false
    waiting := none
    asyncBwd := match waiting with
      | .syncBackward task => Function.update state.asyncBwd task.wrapper none
      | _ => state.asyncBwd }

def resume (waiting : Waiting ι V) (state : State ι V) : State ι V :=
  if state.failed then raised waiting state
  else match waiting with
    | .forward task => giveBack task task.buffer (deepen task state)
    | .syncForward task =>
        giveBack task task.buffer
          { deepen task state with pendingForward := Function.update state.pendingForward task.wrapper none }
    | .backward task => giveBack task task.buffer (shallower task state)
    | .syncBackward task =>
        let (state, number) := getBuffer found (config task.wrapper).shape task.rows state
        giveBack task number
          { shallower task state with asyncBwd := Function.update state.asyncBwd task.wrapper none }

def step (state : State ι V) : Action ι V → Option (State ι V)
  | .call call =>
      match state.waiting with
      | none => some (perform config found state call)
      | some _ => none
  | .start =>
      match state.queue, state.running with
      | task :: rest, none => some (start task rest state)
      | _, _ => none
  | .read =>
      match state.queue, state.running with
      | task :: _, some rows =>
          some { state with observed := (task, inputsOf config task rows state) :: state.observed }
      | _, _ => none
  | .finish results =>
      match state.queue, state.running with
      | task :: rest, some rows => some (finish config task rest rows results state)
      | _, _ => none
  | .resume =>
      match state.queue, state.waiting with
      | [], some waiting => some (resume config found waiting state)
      | _, _ => none

def machine : Machine (State ι V) (Action ι V) where
  initial state := state = initial found
  step := step config found

/-- Who keeps a buffer from being freed. -/
def Referenced (shared : Option Nat) (pendingForward : ι → Option (Task ι V)) (number : Nat) : Prop :=
  shared = some number ∨ ∃ wrapper, (pendingForward wrapper).map Task.buffer = some number

/-- Every task reads what its call copied, its buffer is there and as large as what
it reads and writes, and a call returns what its task wrote. -/
structure OwnResults (state : State ι V) : Prop where
  reads : ∀ task found, (task, found) ∈ state.observed → found = task.copied
  room : ∀ task rest rows, state.queue = task :: rest → state.running = some rows →
    Referenced state.shared state.pendingForward task.buffer ∧
      rows ≤ (state.buffers task.buffer).qlen ∧
      ∀ field ∈ task.side.inputs ++ task.side.outputs,
        (config task.wrapper).shape.width field ≤ (state.buffers task.buffer).shape.width field
  returns : ∀ task given, (task, given) ∈ state.returned → state.wrote task.number = some given

/-- Nothing that an unfinished task still needs is overwritten or dropped, and the
buffer has the shape of the wrapper unless a copy raises. -/
def Submits (side : Side) (wrapper : ι) (rows : Nat) (pendingForward : ι → Option (Task ι V))
    (state : State ι V) : Prop :=
  match state.reuses rows with
  | some number =>
      let own := (config wrapper).shape
      let shape := (state.buffers number).shape
      (Buffer.Fits own shape .input →
        ∀ task ∈ state.queue, task.buffer = number → task.side ≠ side) ∧
      ((∀ field ∈ side.inputs, Buffer.Fits own shape field) →
        own = shape ∧ ∀ task ∈ state.queue, Referenced state.shared pendingForward task.buffer)
  | none => ∀ task ∈ state.queue, Referenced none pendingForward task.buffer

def Careful (state : State ι V) : Action ι V → Prop
  | .call (.forward wrapper rows _ _) =>
      (config wrapper).chunkedPrefillSize < rows ∨
        Submits config .forward wrapper rows state.pendingForward state
  | .call (.submitForward wrapper rows _ _) =>
      (config wrapper).chunkedPrefillSize < rows ∨
        Submits config .forward wrapper rows (Function.update state.pendingForward wrapper none) state
  | .call (.backward wrapper rows _) =>
      state.cacheDepth wrapper ≤ 0 ∨ Submits config .backward wrapper rows state.pendingForward state
  | .call (.submitBackwardAsync wrapper rows _) =>
      state.cacheDepth wrapper ≤ 0 ∨ Submits config .backward wrapper rows state.pendingForward state
  | .start =>
      ∀ task ∈ state.queue.head?, task.side = .backward →
        ∀ rows ∈ state.cached task.wrapper, rows = task.rows
  | .resume =>
      match state.waiting with
      | some (.syncForward task) =>
          state.failed = true ∨
            (state.buffers task.buffer).latest .forward = some task
      | some (.syncBackward task) =>
          state.failed = true ∨
            (state.shared = some task.buffer ∧ state.lost task.number = false ∧
              (state.buffers task.buffer).latest .backward = some task)
      | _ => True
  | _ => True

end

end KtKernel.Sft.SharedBuffer
