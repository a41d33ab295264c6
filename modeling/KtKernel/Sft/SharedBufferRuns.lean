import KtKernel.Data.Tiling
import KtKernel.Sft.SharedBuffer

namespace KtKernel.Sft.SharedBuffer

open KtKernel.Data

variable {ι V : Type}

/-! ## Tables -/

theorem tables_congr {shape : Shape} {rows : Nat} {fields : List Field} {values other : Values V}
    (same : ∀ field ∈ fields, ∀ row < rows, ∀ column < shape.width field,
      values field row column = other field row column) :
    tables shape rows fields values = tables shape rows fields other := by
  simp only [tables, table, List.map_inj_left, List.mem_range]
  exact same

theorem inputs_apart {side other : Side} (differ : other ≠ side) :
    ∀ field ∈ side.inputs, field ∉ other.inputs := by
  cases side <;> cases other <;> first | contradiction | decide

theorem inputs_not_written (side other : Side) : ∀ field ∈ side.inputs, field ∉ other.outputs := by
  cases side <;> cases other <;> decide

theorem outputs_not_copied (side other : Side) : ∀ field ∈ side.outputs, field ∉ other.inputs := by
  cases side <;> cases other <;> decide

theorem outputs_apart {side other : Side} (differ : other ≠ side) :
    ∀ field ∈ side.outputs, field ∉ other.outputs := by
  cases side <;> cases other <;> first | contradiction | decide

theorem inputs_nodup (side : Side) : side.inputs.Nodup := by
  cases side <;> decide

theorem outputs_nodup (side : Side) : side.outputs.Nodup := by
  cases side <;> decide

namespace Buffer

variable {buffer : Buffer ι V} {own : Shape} {rows : Nat} {values : Values V} {fields : List Field}

theorem fill_other {width : Nat} {entry : Nat → Nat → V} (differ : field ≠ filled) :
    (buffer.fill filled rows width entry).cells field = buffer.cells field :=
  Function.update_of_ne differ _ _

theorem fill_at {width row column : Nat} {entry : Nat → Nat → V} (inRows : row < rows)
    (inWidth : column < width) :
    (buffer.fill field rows width entry).cells field (row * width + column) = entry row column := by
  have inside : row * width + column < rows * width := by
    rw [Nat.mul_comm rows]
    exact pairIndex_lt inRows inWidth
  simp only [fill, Function.update_self, if_pos inside, pairIndex_div row inWidth, pairIndex_mod row inWidth]

theorem fill_congr {width : Nat} {entry other : Nat → Nat → V}
    (same : ∀ row column, column < width → entry row column = other row column) :
    buffer.fill field rows width entry = buffer.fill field rows width other := by
  have contents : (fun index => if index < rows * width then entry (index / width) (index % width)
        else buffer.cells field index) =
      fun index => if index < rows * width then other (index / width) (index % width)
        else buffer.cells field index := by
    funext index
    split
    · rename_i inside
      have wide : 0 < width := Nat.pos_of_ne_zero (fun none => by simp [none] at inside)
      exact same _ _ (Nat.mod_lt _ wide)
    · rfl
  rw [fill, fill, contents]

/-- The tensors of the two buffers differ in cells of `fields` at most. -/
structure Frame (fields : List Field) (before after : Buffer ι V) : Prop where
  qlen : after.qlen = before.qlen
  shape : after.shape = before.shape
  cells : ∀ field, field ∉ fields → after.cells field = before.cells field

theorem Frame.refl (fields : List Field) (buffer : Buffer ι V) : Frame fields buffer buffer :=
  ⟨rfl, rfl, fun _ _ => rfl⟩

theorem Frame.trans {middle after : Buffer ι V} (first : Frame fields buffer middle)
    (second : Frame fields middle after) : Frame fields buffer after where
  qlen := second.qlen.trans first.qlen
  shape := second.shape.trans first.shape
  cells field absent := (second.cells field absent).trans (first.cells field absent)

theorem Frame.widen {after : Buffer ι V} (frame : Frame fields buffer after) (field : Field) :
    Frame (field :: fields) buffer after :=
  { frame with cells := fun other absent => frame.cells other (fun member => absent (.tail _ member)) }

theorem fill_frame (field : Field) (fields : List Field) (rows width : Nat) (entry : Nat → Nat → V)
    (buffer : Buffer ι V) : Frame (field :: fields) buffer (buffer.fill field rows width entry) where
  qlen := rfl
  shape := rfl
  cells _ absent := fill_other (fun same => absent (same ▸ .head _))

theorem fillAll_frame (own : Shape) (rows : Nat) (values : Values V) (fields : List Field)
    (buffer : Buffer ι V) : Frame fields buffer (buffer.fillAll own rows values fields) := by
  induction fields generalizing buffer with
  | nil => exact .refl _ _
  | cons field rest induction =>
      exact (fill_frame field rest rows _ _ buffer).trans ((induction _).widen field)

theorem copyInputs_frame (own : Shape) (rows : Nat) (values : Values V) (fields : List Field)
    (buffer : Buffer ι V) : Frame fields buffer (buffer.copyInputs own rows values fields).1 := by
  induction fields generalizing buffer with
  | nil => exact .refl _ _
  | cons field rest induction =>
      rw [copyInputs]
      split
      · exact (fill_frame field rest rows _ _ buffer).trans ((induction _).widen field)
      · exact .refl _ _

/-- Neither a copy nor a task touches `bsz_tensor` or the record. -/
theorem fillAll_record (own : Shape) (rows : Nat) (values : Values V) (fields : List Field)
    (buffer : Buffer ι V) : (buffer.fillAll own rows values fields).bsz = buffer.bsz ∧
      (buffer.fillAll own rows values fields).latest = buffer.latest := by
  induction fields generalizing buffer with
  | nil => exact ⟨rfl, rfl⟩
  | cons field rest induction => exact induction (buffer.fill field rows _ _)

theorem copyInputs_record (own : Shape) (rows : Nat) (values : Values V) (fields : List Field)
    (buffer : Buffer ι V) : (buffer.copyInputs own rows values fields).1.bsz = buffer.bsz ∧
      (buffer.copyInputs own rows values fields).1.latest = buffer.latest := by
  induction fields generalizing buffer with
  | nil => exact ⟨rfl, rfl⟩
  | cons field rest induction =>
      rw [copyInputs]
      split
      · exact induction (buffer.fill field rows _ _)
      · exact ⟨rfl, rfl⟩

theorem copyInputs_passed : (buffer.copyInputs own rows values fields).2 = true ↔
    ∀ field ∈ fields, Fits own buffer.shape field := by
  induction fields generalizing buffer with
  | nil => simp [copyInputs]
  | cons field rest induction =>
      rw [copyInputs]
      split
      · rename_i fits
        rw [induction]
        simp [fits, fill]
      · rename_i fits
        simp [fits]

/-- A copy that raises at once leaves the buffer as it was. -/
theorem copyInputs_refused {field : Field} {rest : List Field} (refused : ¬Fits own buffer.shape field) :
    (buffer.copyInputs own rows values (field :: rest)).1 = buffer := by
  rw [copyInputs, if_neg refused]

/-- Into a buffer of its own shape a call copies its tensors as they are. -/
theorem copyInputs_own (same : own = buffer.shape) :
    buffer.copyInputs own rows values fields = (buffer.fillAll own rows values fields, true) := by
  induction fields generalizing buffer with
  | nil => rfl
  | cons field rest induction =>
      have entries : buffer.fill field rows (own.width field)
            (fun row column => values field row (if own.width field = 1 then 0 else column)) =
          buffer.fill field rows (own.width field) (values field) := by
        apply fill_congr
        intro row column inWidth
        split
        · rw [show column = 0 by omega]
        · rfl
      rw [copyInputs, if_pos (.inl (congrArg (Shape.width · field) same)), ← same, entries, fillAll]
      exact induction same

theorem fillAll_at (distinct : fields.Nodup) (member : field ∈ fields) (inRows : row < rows)
    (inWidth : column < own.width field) :
    (buffer.fillAll own rows values fields).rowsOf own.width field row column = values field row column := by
  induction fields generalizing buffer with
  | nil => contradiction
  | cons first rest induction =>
      obtain ⟨absent, distinct⟩ := List.nodup_cons.mp distinct
      cases member with
      | head =>
          have kept := (fillAll_frame own rows values rest
            (buffer.fill field rows (own.width field) (values field))).cells field absent
          rw [fillAll, rowsOf, kept]
          exact fill_at inRows inWidth
      | tail _ member => exact induction distinct member

theorem tables_fillAll (distinct : fields.Nodup) :
    tables own rows fields ((buffer.fillAll own rows values fields).rowsOf own.width) =
      tables own rows fields values := by
  apply tables_congr
  intro field member row inRows column inWidth
  exact fillAll_at distinct member inRows inWidth

/-- What a reader finds depends on the cells of its fields only. -/
theorem tables_of_cells {after : Buffer ι V}
    (same : ∀ field ∈ fields, after.cells field = buffer.cells field) :
    tables own rows fields (after.rowsOf own.width) = tables own rows fields (buffer.rowsOf own.width) := by
  apply tables_congr
  intro field member row _ column _
  simp only [rowsOf, same field member]

end Buffer

/-! ## The invariant -/

section

variable {config : ι → Wrapper} {found : Nat → Field → Nat → V} {state : State ι V}

/-- What the buffer of an unfinished task holds. -/
structure Served (config : ι → Wrapper) (buffer : Buffer ι V) (task : Task ι V) : Prop where
  shape : (config task.wrapper).shape = buffer.shape
  rows : task.rows ≤ buffer.qlen
  bsz : task.side = .forward → buffer.bsz = task.rows
  inputs : tables (config task.wrapper).shape task.rows task.side.inputs
    (buffer.rowsOf (config task.wrapper).shape.width) = task.copied
  latest : buffer.latest task.side = some task

/-- What the last task of a side left, or will leave, in its buffer. -/
structure Recorded (config : ι → Wrapper) (state : State ι V) (number : Nat) (side : Side)
    (task : Task ι V) : Prop where
  onBuffer : task.buffer = number
  onSide : task.side = side
  shape : (config task.wrapper).shape = (state.buffers number).shape
  rows : task.rows ≤ (state.buffers number).qlen
  older : task.number < state.submitted
  ended : task ∈ state.queue ∨ (side = .backward ∧ state.lost task.number = true) ∨
    state.wrote task.number = some (tables (config task.wrapper).shape task.rows side.outputs
      ((state.buffers number).rowsOf (config task.wrapper).shape.width))

/-- What holds while the calling thread waits in `sync`. -/
def WaitsFor (state : State ι V) : Waiting ι V → Prop
  | .forward task =>
      task.side = .forward ∧ (state.buffers task.buffer).latest .forward = some task
  | .syncForward task => task.side = .forward
  | .backward task =>
      task.side = .backward ∧ (state.buffers task.buffer).latest .backward = some task ∧
        (state.lost task.number = true → state.failed = true)
  | .syncBackward task => task.side = .backward

structure Inv (config : ι → Wrapper) (state : State ι V) : Prop where
  shared : ∀ number, state.shared = some number → number < state.allocated
  placed : ∀ task ∈ state.queue, task.buffer < state.allocated
  referenced : ∀ task ∈ state.queue, Referenced state.shared state.pendingForward task.buffer
  served : ∀ task ∈ state.queue, Served config (state.buffers task.buffer) task
  fresh : ∀ task ∈ state.queue, task.number < state.submitted ∧ state.wrote task.number = none
  distinct : (state.queue.map Task.number).Nodup
  recorded : ∀ number side task, (state.buffers number).latest side = some task →
    Recorded config state number side task
  known : ∀ number, state.lost number = true → number < state.submitted
  unwritten : ∀ number, state.submitted ≤ number → state.wrote number = none
  running : ∀ rows, state.running = some rows → ∃ task ∈ state.queue.head?, rows = task.rows
  pending : ∀ wrapper task, state.pendingForward wrapper = some task → task.side = .forward
  async : ∀ wrapper task, state.asyncBwd wrapper = some task → task.side = .backward
  waits : ∀ waiting, state.waiting = some waiting → WaitsFor state waiting
  observed : ∀ task found, (task, found) ∈ state.observed → found = task.copied
  returned : ∀ task given, (task, given) ∈ state.returned → state.wrote task.number = some given

theorem Inv.ownResults (inv : Inv config state) : OwnResults config state where
  reads := inv.observed
  room task rest rows queue running := by
    have member : task ∈ state.queue := by simp [queue]
    have served := inv.served task member
    obtain ⟨first, head, same⟩ := inv.running rows running
    rw [queue, List.head?_cons, Option.mem_some_iff] at head
    subst head
    exact ⟨inv.referenced task member, same ▸ served.rows, fun field _ => le_of_eq (by rw [served.shape])⟩
  returns := inv.returned

theorem initial_inv (config : ι → Wrapper) (found : Nat → Field → Nat → V) :
    Inv config (initial found : State ι V) := by
  constructor <;> simp [initial, Buffer.create]

theorem Referenced.mono {shared : Option Nat} {pending wider : ι → Option (Task ι V)}
    (more : ∀ wrapper task, pending wrapper = some task → wider wrapper = some task)
    (referenced : Referenced shared pending number) : Referenced shared wider number := by
  cases referenced with
  | inl last => exact .inl last
  | inr held =>
      obtain ⟨wrapper, held⟩ := held
      obtain ⟨task, kept, same⟩ := Option.map_eq_some_iff.mp held
      exact .inr ⟨wrapper, by rw [more wrapper task kept, Option.map_some, same]⟩

theorem Referenced.shared {pending : ι → Option (Task ι V)} (referenced : Referenced none pending number)
    (shared : Option Nat) : Referenced shared pending number := by
  cases referenced with
  | inl last => contradiction
  | inr held => exact .inr held

theorem Served.frame {before after : Buffer ι V} {task : Task ι V} (served : Served config before task)
    (frame : Buffer.Frame fields before after) (apart : ∀ field ∈ task.side.inputs, field ∉ fields)
    (bsz : task.side = .forward → after.bsz = before.bsz)
    (latest : after.latest task.side = before.latest task.side) : Served config after task where
  shape := served.shape.trans frame.shape.symm
  rows := frame.qlen ▸ served.rows
  bsz forward := (bsz forward).trans (served.bsz forward)
  inputs := (Buffer.tables_of_cells fun field member => frame.cells field (apart field member)).trans
    served.inputs
  latest := latest.trans served.latest

/-- A record outlives a change of the state that leaves the outputs of its side alone. -/
theorem Recorded.frame {before after : State ι V} (recorded : Recorded config before number side task)
    (frame : Buffer.Frame fields (before.buffers number) (after.buffers number))
    (apart : ∀ field ∈ side.outputs, field ∉ fields) (later : before.submitted ≤ after.submitted)
    (ended : task ∈ before.queue → task ∈ after.queue)
    (lost : before.lost task.number = true → after.lost task.number = true)
    (wrote : ∀ given, before.wrote task.number = some given → after.wrote task.number = some given) :
    Recorded config after number side task where
  onBuffer := recorded.onBuffer
  onSide := recorded.onSide
  shape := recorded.shape.trans frame.shape.symm
  rows := frame.qlen ▸ recorded.rows
  older := recorded.older.trans_le later
  ended := by
    rcases recorded.ended with waits | ⟨backward, missed⟩ | written
    · exact .inl (ended waits)
    · exact .inr (.inl ⟨backward, lost missed⟩)
    · have kept : tables (config task.wrapper).shape task.rows side.outputs
            ((after.buffers number).rowsOf (config task.wrapper).shape.width) =
          tables (config task.wrapper).shape task.rows side.outputs
            ((before.buffers number).rowsOf (config task.wrapper).shape.width) :=
        Buffer.tables_of_cells fun field member => frame.cells field (apart field member)
      exact .inr (.inr (by rw [kept]; exact wrote _ written))

/-! ## A call queues its task -/

theorem mem_enqueue {task other : Task ι V} {copied : Buffer ι V} :
    other ∈ (enqueue task copied state).queue ↔ other ∈ state.queue ∨ other = task := by
  simp [enqueue]

/-- What the end of a submission has made sure of. -/
structure Submitted (config : ι → Wrapper) (state : State ι V) (task : Task ι V) (copied : Buffer ι V) :
    Prop where
  free : state.waiting = none
  shared : state.shared = some task.buffer
  numbered : task.number = state.submitted
  frame : Buffer.Frame task.side.inputs (state.buffers task.buffer) copied
  bsz : copied.bsz = (state.buffers task.buffer).bsz
  latest : copied.latest = (state.buffers task.buffer).latest
  own : (config task.wrapper).shape = (state.buffers task.buffer).shape
  rows : task.rows ≤ (state.buffers task.buffer).qlen
  inputs : tables (config task.wrapper).shape task.rows task.side.inputs
    (copied.rowsOf (config task.wrapper).shape.width) = task.copied
  alone : ∀ other ∈ state.queue, other.buffer = task.buffer → other.side ≠ task.side

theorem Submitted.queued {task : Task ι V} {copied : Buffer ι V}
    (submitted : Submitted config state task copied) :
    Buffer.Frame task.side.inputs (state.buffers task.buffer) (copied.queued task) :=
  ⟨submitted.frame.qlen, submitted.frame.shape, submitted.frame.cells⟩

theorem Submitted.served {task : Task ι V} {copied : Buffer ι V} (inv : Inv config state)
    (submitted : Submitted config state task copied) (member : other ∈ (enqueue task copied state).queue) :
    Served config ((enqueue task copied state).buffers other.buffer) other := by
  have frame := submitted.frame
  rcases mem_enqueue.mp member with old | rfl
  · have served := inv.served other old
    by_cases same : other.buffer = task.buffer
    · have differ := submitted.alone other old same
      rw [same] at served
      simp only [enqueue, same, Function.update_self]
      apply served.frame submitted.queued (inputs_apart differ.symm)
      · intro forward
        cases side : task.side with
        | forward => exact absurd (forward.trans side.symm) differ
        | backward => simp only [Buffer.queued, side, submitted.bsz]
      · simp only [Buffer.queued, Function.update_of_ne differ, submitted.latest]
    · simpa only [enqueue, Function.update_of_ne same] using served
  · simp only [enqueue, Function.update_self]
    exact {
      shape := submitted.own.trans frame.shape.symm
      rows := submitted.rows.trans frame.qlen.ge
      bsz := fun forward => by simp only [Buffer.queued, forward]
      inputs := submitted.inputs
      latest := Function.update_self _ _ _ }

theorem Submitted.recorded {task : Task ι V} {copied : Buffer ι V} (inv : Inv config state)
    (submitted : Submitted config state task copied)
    (latest : ((enqueue task copied state).buffers number).latest side = some other) :
    Recorded config (enqueue task copied state) number side other := by
  have frame := submitted.frame
  have stays : other ∈ state.queue → other ∈ (enqueue task copied state).queue :=
    fun old => mem_enqueue.mpr (.inl old)
  by_cases same : number = task.buffer
  · subst same
    have after : (enqueue task copied state).buffers task.buffer = copied.queued task :=
      Function.update_self _ _ _
    rw [after] at latest
    simp only [Buffer.queued] at latest
    by_cases differ : side = task.side
    · subst differ
      rw [Function.update_self] at latest
      cases latest
      exact {
        onBuffer := rfl
        onSide := rfl
        shape := by rw [after]; exact submitted.own.trans frame.shape.symm
        rows := by rw [after]; exact submitted.rows.trans frame.qlen.ge
        older := submitted.numbered ▸ Nat.lt_succ_self _
        ended := .inl (mem_enqueue.mpr (.inr rfl)) }
    · rw [Function.update_of_ne differ, submitted.latest] at latest
      have before := inv.recorded _ side other latest
      apply before.frame _ (outputs_not_copied side task.side) (Nat.le_succ _) stays id (fun _ => id)
      rw [after]
      exact submitted.queued
  · have unchanged : (enqueue task copied state).buffers number = state.buffers number :=
      Function.update_of_ne same _ _
    rw [unchanged] at latest
    have before := inv.recorded _ side other latest
    have same : Buffer.Frame [] (state.buffers number) ((enqueue task copied state).buffers number) :=
      unchanged.symm ▸ .refl _ _
    exact before.frame same (fun _ _ => List.not_mem_nil) (Nat.le_succ _) stays id (fun _ => id)

/-- The inputs are copied over nothing that an unfinished task reads. -/
theorem Inv.enqueue (inv : Inv config state) {task : Task ι V} {copied : Buffer ι V}
    (submitted : Submitted config state task copied) :
    Inv config (SharedBuffer.enqueue task copied state) where
  shared := inv.shared
  placed other member := by
    rcases mem_enqueue.mp member with old | rfl
    · exact inv.placed other old
    · exact inv.shared _ submitted.shared
  referenced other member := by
    rcases mem_enqueue.mp member with old | rfl
    · exact inv.referenced other old
    · exact .inl submitted.shared
  served other member := submitted.served inv member
  fresh other member := by
    rcases mem_enqueue.mp member with old | rfl
    · obtain ⟨older, unwritten⟩ := inv.fresh other old
      exact ⟨Nat.lt_succ_of_lt older, unwritten⟩
    · exact ⟨submitted.numbered ▸ Nat.lt_succ_self _, inv.unwritten _ submitted.numbered.ge⟩
  distinct := by
    simp only [SharedBuffer.enqueue, List.map_append, List.map_cons, List.map_nil]
    have absent : task.number ∉ state.queue.map Task.number := by
      intro member
      obtain ⟨other, member, same⟩ := List.mem_map.mp member
      have older := (inv.fresh other member).1
      have last := submitted.numbered
      omega
    simpa [List.nodup_append, inv.distinct] using absent
  recorded number side other latest := submitted.recorded inv latest
  known number lost := Nat.lt_succ_of_lt (inv.known number lost)
  unwritten number later := inv.unwritten number (Nat.le_of_succ_le later)
  running rows running := by
    obtain ⟨first, head, same⟩ := inv.running rows running
    refine ⟨first, ?_, same⟩
    simp only [SharedBuffer.enqueue, List.head?_append, Option.mem_def.mp head, Option.some_or, Option.mem_some]
  pending := inv.pending
  async := inv.async
  waits waiting waits := by
    have busy : state.waiting = some waiting := waits
    rw [submitted.free] at busy
    contradiction
  observed := inv.observed
  returned := inv.returned

/-- A record is about the tensors of its buffer only. -/
theorem Recorded.unchanged {before after : State ι V} (recorded : Recorded config before number side task)
    (same : after.buffers number = before.buffers number) (later : before.submitted ≤ after.submitted)
    (ended : task ∈ before.queue → task ∈ after.queue)
    (lost : before.lost task.number = true → after.lost task.number = true)
    (wrote : ∀ given, before.wrote task.number = some given → after.wrote task.number = some given) :
    Recorded config after number side task := by
  have frame : Buffer.Frame [] (before.buffers number) (after.buffers number) := same.symm ▸ .refl _ _
  exact recorded.frame frame (fun _ _ => List.not_mem_nil) later ended lost wrote

/-- What `get_buffer` leaves when the caller is careful. -/
structure Placed (config : ι → Wrapper) (state grown : State ι V) (side : Side) (own : Shape) (rows : Nat)
    (pending : ι → Option (Task ι V)) (number : Nat) : Prop where
  inv : Inv config grown
  shared : grown.shared = some number
  rows : rows ≤ (grown.buffers number).qlen
  held : grown.pendingForward = state.pendingForward
  waiting : grown.waiting = state.waiting
  alone : Buffer.Fits own (grown.buffers number).shape .input →
    ∀ task ∈ grown.queue, task.buffer = number → task.side ≠ side
  fitting : (∀ field ∈ side.inputs, Buffer.Fits own (grown.buffers number).shape field) →
    own = (grown.buffers number).shape ∧
      ∀ task ∈ grown.queue, Referenced grown.shared pending task.buffer

theorem reuses_some (reused : state.reuses rows = some number) :
    state.shared = some number ∧ rows ≤ (state.buffers number).qlen := by
  simp only [State.reuses] at reused
  split at reused
  · rename_i last shared
    split at reused
    · cases reused
      exact ⟨shared, ‹_›⟩
    · contradiction
  · contradiction

/-- The old buffer may go: whatever still runs on it is held by a wrapper. -/
theorem Inv.replace (inv : Inv config state) (own : Shape) (rows : Nat)
    (found : Nat → Field → Nat → V) (free : state.waiting = none)
    (kept : ∀ task ∈ state.queue, Referenced none state.pendingForward task.buffer) :
    Inv config { state with
      buffers := Function.update state.buffers state.allocated (Buffer.create rows own (found state.allocated))
      allocated := state.allocated + 1
      shared := some state.allocated } where
  shared number last := by
    cases last
    exact Nat.lt_succ_self _
  placed task member := Nat.lt_succ_of_lt (inv.placed task member)
  referenced task member := (kept task member).shared _
  served task member := by
    have older : task.buffer ≠ state.allocated := (inv.placed task member).ne
    simpa only [Function.update_of_ne older] using inv.served task member
  fresh := inv.fresh
  distinct := inv.distinct
  recorded number side task latest := by
    by_cases new : number = state.allocated
    · subst new
      simp [Buffer.create] at latest
    · simp only [Function.update_of_ne new] at latest
      exact (inv.recorded number side task latest).unchanged (Function.update_of_ne new _ _) le_rfl id id
        (fun _ => id)
  known := inv.known
  unwritten := inv.unwritten
  running := inv.running
  pending := inv.pending
  async := inv.async
  waits waiting waits := by
    have busy : state.waiting = some waiting := waits
    rw [free] at busy
    contradiction
  observed := inv.observed
  returned := inv.returned

theorem Inv.getBuffer (inv : Inv config state) {pending : ι → Option (Task ι V)}
    (free : state.waiting = none) (careful : Submits config side wrapper rows pending state)
    (fewer : ∀ wrapper task, pending wrapper = some task → state.pendingForward wrapper = some task) :
    Placed config state (SharedBuffer.getBuffer found (config wrapper).shape rows state).1 side
      (config wrapper).shape rows pending
      (SharedBuffer.getBuffer found (config wrapper).shape rows state).2 := by
  simp only [Submits] at careful
  simp only [SharedBuffer.getBuffer]
  split at careful
  · rename_i number reused
    dsimp only
    obtain ⟨shared, room⟩ := reuses_some reused
    exact ⟨inv, shared, room, rfl, rfl, careful.1, careful.2⟩
  · dsimp only
    have kept : ∀ task ∈ state.queue, Referenced none state.pendingForward task.buffer :=
      fun task member => (careful task member).mono fewer
    exact {
      inv := inv.replace _ rows found free kept
      shared := rfl
      rows := by simp [Buffer.create]
      held := rfl
      waiting := rfl
      alone := fun _ task member same => absurd same (inv.placed task member).ne
      fitting := fun _ => ⟨by simp [Buffer.create], fun task member => (careful task member).shared _⟩ }

/-- The copies before one that raises. -/
theorem Inv.refuse (inv : Inv config state) {copied : Buffer ι V} (free : state.waiting = none)
    (frame : Buffer.Frame side.inputs (state.buffers number) copied)
    (bsz : copied.bsz = (state.buffers number).bsz) (latest : copied.latest = (state.buffers number).latest)
    (alone : ∀ task ∈ state.queue, task.buffer = number → task.side ≠ side) :
    Inv config { state with buffers := Function.update state.buffers number copied } where
  shared := inv.shared
  placed := inv.placed
  referenced := inv.referenced
  served task member := by
    have served := inv.served task member
    by_cases same : task.buffer = number
    · subst same
      have differ := alone task member rfl
      simp only [Function.update_self]
      exact served.frame frame (inputs_apart differ.symm) (fun _ => bsz) (congrFun latest _)
    · simpa only [Function.update_of_ne same] using served
  fresh := inv.fresh
  distinct := inv.distinct
  recorded other own task last := by
    by_cases same : other = number
    · subst same
      simp only [Function.update_self, latest] at last
      have copies : Buffer.Frame side.inputs (state.buffers other)
          (Function.update state.buffers other copied other) :=
        (Function.update_self other copied state.buffers).symm ▸ frame
      exact (inv.recorded _ own task last).frame copies (outputs_not_copied own side) le_rfl id id
        (fun _ => id)
    · simp only [Function.update_of_ne same] at last
      exact (inv.recorded _ own task last).unchanged (Function.update_of_ne same _ _) le_rfl id id
        (fun _ => id)
  known := inv.known
  unwritten := inv.unwritten
  running := inv.running
  pending := inv.pending
  async := inv.async
  waits waiting waits := by
    have busy : state.waiting = some waiting := waits
    rw [free] at busy
    contradiction
  observed := inv.observed
  returned := inv.returned

/-- What `cpu_infer.submit` leaves. -/
structure Accepted (config : ι → Wrapper) (state after : State ι V) (side : Side)
    (pending : ι → Option (Task ι V)) (task : Task ι V) : Prop where
  inv : Inv config after
  waiting : after.waiting = none
  held : after.pendingForward = state.pendingForward
  onSide : task.side = side
  latest : (after.buffers task.buffer).latest side = some task
  unlost : after.lost task.number = true → after.failed = true
  referenced : ∀ other ∈ after.queue, Referenced after.shared pending other.buffer

theorem Inv.submit (inv : Inv config state) {pending : ι → Option (Task ι V)}
    (free : state.waiting = none) (careful : Submits config side wrapper rows pending state)
    (fewer : ∀ wrapper task, pending wrapper = some task → state.pendingForward wrapper = some task)
    (submitted : submit config found side wrapper rows values saveForBackward state = (after, queued)) :
    (∀ task, queued = some task → Accepted config state after side pending task) ∧
      (queued = none → Inv config after) := by
  have placed : Placed config state (SharedBuffer.getBuffer found (config wrapper).shape rows state).1 side
      (config wrapper).shape rows pending
      (SharedBuffer.getBuffer found (config wrapper).shape rows state).2 :=
    inv.getBuffer free careful fewer
  simp only [SharedBuffer.submit] at submitted
  generalize (SharedBuffer.getBuffer found (config wrapper).shape rows state).1 = grown at placed submitted
  generalize (SharedBuffer.getBuffer found (config wrapper).shape rows state).2 = number at placed submitted
  have idle : grown.waiting = none := placed.waiting.trans free
  have frame := Buffer.copyInputs_frame (config wrapper).shape rows values side.inputs (grown.buffers number)
  obtain ⟨bsz, latest⟩ := Buffer.copyInputs_record (config wrapper).shape rows values side.inputs
    (grown.buffers number)
  split at submitted
  · rename_i passed
    cases submitted
    have fits := Buffer.copyInputs_passed.mp passed
    obtain ⟨own, referenced⟩ := placed.fitting fits
    have first : Buffer.Fits (config wrapper).shape (grown.buffers number).shape .input :=
      .inl (by rw [own])
    have whole : (grown.buffers number).copyInputs (config wrapper).shape rows values side.inputs =
        ((grown.buffers number).fillAll (config wrapper).shape rows values side.inputs, true) :=
      Buffer.copyInputs_own own
    refine ⟨?_, fun refused => by contradiction⟩
    rintro _ ⟨⟩
    have ready : Submitted config grown
        (newTask config side wrapper rows values saveForBackward number grown)
        ((grown.buffers number).copyInputs (config wrapper).shape rows values side.inputs).1 := {
      free := idle
      shared := placed.shared
      numbered := rfl
      frame := frame
      bsz := bsz
      latest := latest
      own := own
      rows := placed.rows
      inputs := by
        rw [whole]
        exact Buffer.tables_fillAll (inputs_nodup side)
      alone := placed.alone first }
    exact {
      inv := placed.inv.enqueue ready
      waiting := idle
      held := placed.held
      onSide := rfl
      latest := by simp only [SharedBuffer.enqueue, newTask, Function.update_self, Buffer.queued]
      unlost := fun lost => absurd (placed.inv.known _ lost) (lt_irrefl _)
      referenced := fun other member => by
        rcases mem_enqueue.mp member with old | rfl
        · exact referenced other old
        · exact .inl placed.shared }
  · cases submitted
    refine ⟨fun task accepted => by contradiction, fun _ => ?_⟩
    by_cases first : Buffer.Fits (config wrapper).shape (grown.buffers number).shape .input
    · exact placed.inv.refuse idle frame bsz latest (placed.alone first)
    · have untouched : ((grown.buffers number).copyInputs (config wrapper).shape rows values side.inputs).1 =
          grown.buffers number := by
        cases side with
        | forward => exact Buffer.copyInputs_refused first
        | backward => exact Buffer.copyInputs_refused first
      rw [untouched, Function.update_eq_self]
      exact placed.inv

/-! ## Every action -/

theorem Inv.wait (inv : Inv config state) (waits : WaitsFor state waiting) :
    Inv config { state with waiting := some waiting } :=
  { inv with
    recorded := fun number side task latest =>
      (inv.recorded number side task latest).unchanged rfl le_rfl id id (fun _ => id)
    waits := fun other begun => by
      cases begun
      exact waits }

theorem Inv.hold (inv : Inv config state) {pending : ι → Option (Task ι V)}
    (kept : ∀ task ∈ state.queue, Referenced state.shared pending task.buffer)
    (forwards : ∀ wrapper task, pending wrapper = some task → task.side = .forward) :
    Inv config { state with pendingForward := pending } :=
  { inv with
    referenced := kept
    recorded := fun number side task latest =>
      (inv.recorded number side task latest).unchanged rfl le_rfl id id (fun _ => id)
    pending := forwards }

theorem Inv.keepAsync (inv : Inv config state) {async : ι → Option (Task ι V)}
    (backwards : ∀ wrapper task, async wrapper = some task → task.side = .backward) :
    Inv config { state with asyncBwd := async } :=
  { inv with
    recorded := fun number side task latest =>
      (inv.recorded number side task latest).unchanged rfl le_rfl id id (fun _ => id)
    async := backwards }

variable [DecidableEq ι]

omit [DecidableEq ι] in
/-- A call that goes on only when its task was accepted. -/
theorem Inv.submitting (inv : Inv config state) {pending : ι → Option (Task ι V)}
    (free : state.waiting = none) (careful : Submits config side wrapper rows pending state)
    (fewer : ∀ wrapper task, pending wrapper = some task → state.pendingForward wrapper = some task)
    {next : State ι V → Task ι V → State ι V}
    (kept : ∀ after task, Accepted config state after side pending task → Inv config (next after task)) :
    Inv config (match SharedBuffer.submit config found side wrapper rows values saveForBackward state with
      | (after, some task) => next after task
      | (after, none) => after) := by
  generalize outcome : SharedBuffer.submit config found side wrapper rows values saveForBackward state = result
  obtain ⟨after, queued⟩ := result
  obtain ⟨accepted, refused⟩ := inv.submit free careful fewer outcome
  cases queued with
  | none => exact refused rfl
  | some task => exact kept after task (accepted task rfl)

theorem update_some {held : ι → Option (Task ι V)}
    (others : ∀ wrapper task, held wrapper = some task → task.side = side)
    (own : ∀ task, given = some task → task.side = side) :
    ∀ wrapper task, Function.update held changed given wrapper = some task → task.side = side := by
  intro wrapper task kept
  by_cases same : wrapper = changed
  · subst same
    rw [Function.update_self] at kept
    exact own task kept
  · rw [Function.update_of_ne same] at kept
    exact others wrapper task kept

theorem held_of_update {held : ι → Option (Task ι V)}
    (kept : Function.update held wrapper none other = some task) : other ≠ wrapper ∧ held other = some task := by
  by_cases same : other = wrapper
  · subst same
    simp at kept
  · rw [Function.update_of_ne same] at kept
    exact ⟨same, kept⟩

theorem Inv.perform (inv : Inv config state) (free : state.waiting = none) (call : Call ι V)
    (careful : Careful config state (.call call)) : Inv config (perform config found state call) := by
  cases call with
  | forward wrapper rows values saveForBackward =>
      simp only [SharedBuffer.perform]
      split
      · exact inv
      · rename_i admitted
        apply inv.submitting free (careful.resolve_left admitted) (fun _ _ => id)
        intro after task accepted
        exact accepted.inv.wait ⟨accepted.onSide, accepted.latest⟩
  | submitForward wrapper rows values saveForBackward =>
      simp only [SharedBuffer.perform]
      split
      · exact inv
      · rename_i admitted
        apply inv.submitting free (careful.resolve_left admitted) (fun _ _ kept => (held_of_update kept).2)
        intro after task accepted
        apply accepted.inv.hold
        · intro other member
          apply (accepted.referenced other member).mono
          intro holder held kept
          obtain ⟨differ, before⟩ := held_of_update kept
          rw [Function.update_of_ne differ, accepted.held, before]
        · apply update_some accepted.inv.pending
          rintro _ ⟨⟩
          exact accepted.onSide
  | syncForward wrapper =>
      simp only [SharedBuffer.perform]
      split
      · rename_i task held
        exact inv.wait (inv.pending wrapper task held)
      · exact inv
  | backward wrapper rows values =>
      simp only [SharedBuffer.perform]
      split
      · exact inv
      · rename_i admitted
        apply inv.submitting free (careful.resolve_left admitted) (fun _ _ => id)
        intro after task accepted
        exact accepted.inv.wait ⟨accepted.onSide, accepted.latest, accepted.unlost⟩
  | submitBackwardAsync wrapper rows values =>
      simp only [SharedBuffer.perform]
      split
      · exact inv
      · rename_i admitted
        apply inv.submitting free (careful.resolve_left admitted) (fun _ _ => id)
        intro after task accepted
        apply accepted.inv.keepAsync
        apply update_some accepted.inv.async
        rintro _ ⟨⟩
        exact accepted.onSide
  | syncBackward wrapper =>
      simp only [SharedBuffer.perform]
      split
      · rename_i task held
        exact inv.wait (inv.async wrapper task held)
      · exact inv

theorem Inv.start (inv : Inv config state) {task : Task ι V} {rest : List (Task ι V)}
    (queue : state.queue = task :: rest) (idle : state.running = none)
    (careful : Careful config state .start) : Inv config (start task rest state) := by
  have member : task ∈ state.queue := by simp [queue]
  simp only [SharedBuffer.start]
  split
  · rename_i forward
    exact { inv with
      recorded := fun number side other latest =>
        (inv.recorded number side other latest).unchanged rfl le_rfl id id (fun _ => id)
      running := fun rows running => by
        cases running
        exact ⟨task, by simp [queue], (inv.served task member).bsz forward⟩ }
  · rename_i backward
    split
    · rename_i rows cached
      have exact_rows := careful task (by simp [queue]) backward rows cached
      exact { inv with
        recorded := fun number side other latest =>
          (inv.recorded number side other latest).unchanged rfl le_rfl id id (fun _ => id)
        running := fun rows running => by
          cases running
          exact ⟨task, by simp [queue], exact_rows⟩ }
    · have waiting : ∀ other ∈ rest, other ∈ state.queue := fun other later => by simp [queue, later]
      have stays : ∀ number, state.lost number = true →
          Function.update state.lost task.number true number = true := by
        intro number lost
        by_cases same : number = task.number
        · rw [same, Function.update_self]
        · rwa [Function.update_of_ne same]
      exact {
        shared := inv.shared
        placed := fun other later => inv.placed other (waiting other later)
        referenced := fun other later => inv.referenced other (waiting other later)
        served := fun other later => inv.served other (waiting other later)
        fresh := fun other later => inv.fresh other (waiting other later)
        distinct := by
          have distinct := inv.distinct
          rw [queue] at distinct
          exact (List.nodup_cons.mp distinct).2
        recorded := fun number side other latest => by
          have before := inv.recorded number side other latest
          exact {
            onBuffer := before.onBuffer
            onSide := before.onSide
            shape := before.shape
            rows := before.rows
            older := before.older
            ended := by
              rcases before.ended with waits | ⟨onSide, lost⟩ | written
              · rw [queue] at waits
                cases waits with
                | head => exact .inr (.inl ⟨before.onSide.symm.trans backward, Function.update_self _ _ _⟩)
                | tail _ later => exact .inl later
              · exact .inr (.inl ⟨onSide, stays _ lost⟩)
              · exact .inr (.inr written) }
        known := fun number lost => by
          by_cases same : number = task.number
          · rw [same]
            exact (inv.fresh task member).1
          · simp only [Function.update_of_ne same] at lost
            exact inv.known number lost
        unwritten := inv.unwritten
        running := fun rows running => by
          have none : state.running = some rows := running
          rw [idle] at none
          contradiction
        pending := inv.pending
        async := inv.async
        waits := fun waiting begun => by
          have before := inv.waits waiting begun
          cases waiting with
          | forward => exact before
          | syncForward => exact before
          | backward => exact ⟨before.1, before.2.1, fun _ => rfl⟩
          | syncBackward => exact before
        observed := inv.observed
        returned := inv.returned }

omit [DecidableEq ι] in
theorem Inv.read (inv : Inv config state) {task : Task ι V} {rest : List (Task ι V)}
    (queue : state.queue = task :: rest) (running : state.running = some rows) :
    Inv config { state with observed := (task, inputsOf config task rows state) :: state.observed } :=
  { inv with
    recorded := fun number side other latest =>
      (inv.recorded number side other latest).unchanged rfl le_rfl id id (fun _ => id)
    observed := fun other seen member => by
      cases member with
      | head =>
          obtain ⟨first, head, same⟩ := inv.running rows running
          rw [queue, List.head?_cons, Option.mem_some_iff] at head
          subst head same
          exact (inv.served task (by simp [queue])).inputs
      | tail _ older => exact inv.observed other seen older }

theorem finish_latest (task : Task ι V) (rest : List (Task ι V)) (rows : Nat) (results : Values V)
    (number : Nat) : ((finish config task rest rows results state).buffers number).latest =
      (state.buffers number).latest := by
  by_cases same : number = task.buffer
  · subst same
    simp only [finish, Function.update_self, Buffer.fillAll_record]
  · simp only [finish, Function.update_of_ne same]

/-- What was written before is not written again. -/
theorem Inv.finish_wrote (inv : Inv config state) {task : Task ι V} {rest : List (Task ι V)}
    {results : Values V} (member : task ∈ state.queue) (wrote : state.wrote number = some given) :
    (finish config task rest rows results state).wrote number = some given := by
  have differ : number ≠ task.number := by
    rintro rfl
    rw [(inv.fresh task member).2] at wrote
    contradiction
  exact (Function.update_of_ne differ _ _).trans wrote

theorem Inv.finish_recorded (inv : Inv config state) {task : Task ι V} {rest : List (Task ι V)}
    {results : Values V} (queue : state.queue = task :: rest)
    (last : (state.buffers number).latest side = some other) :
    Recorded config (finish config task rest task.rows results state) number side other := by
  have member : task ∈ state.queue := by simp [queue]
  have served := inv.served task member
  have before := inv.recorded number side other last
  have frame := Buffer.fillAll_frame (config task.wrapper).shape task.rows results task.side.outputs
    (state.buffers task.buffer)
  have after : (finish config task rest task.rows results state).buffers task.buffer =
      (state.buffers task.buffer).fillAll (config task.wrapper).shape task.rows results task.side.outputs :=
    Function.update_self _ _ _
  by_cases own : other = task
  · subst own
    obtain rfl := before.onBuffer
    obtain rfl := before.onSide
    exact {
      onBuffer := rfl
      onSide := rfl
      shape := by rw [after]; exact before.shape.trans frame.shape.symm
      rows := by rw [after]; exact before.rows.trans frame.qlen.ge
      older := before.older
      ended := by
        rw [after, Buffer.tables_fillAll (outputs_nodup _)]
        exact .inr (.inr (Function.update_self _ _ _)) }
  · have stays : other ∈ state.queue → other ∈ rest := by
      intro waits
      rw [queue] at waits
      exact (List.mem_cons.mp waits).resolve_left own
    by_cases same : number = task.buffer
    · subst same
      have differ : task.side ≠ side := by
        rintro rfl
        rw [served.latest] at last
        exact own (Option.some.inj last).symm
      exact before.frame (after.symm ▸ frame) (outputs_apart differ) le_rfl stays id
        (fun _ => inv.finish_wrote member)
    · exact before.unchanged (Function.update_of_ne same _ _) le_rfl stays id
        (fun _ => inv.finish_wrote member)

theorem Inv.finish (inv : Inv config state) {task : Task ι V} {rest : List (Task ι V)} {results : Values V}
    (queue : state.queue = task :: rest) (running : state.running = some rows) :
    Inv config (finish config task rest rows results state) := by
  have member : task ∈ state.queue := by simp [queue]
  have later : ∀ other ∈ rest, other ∈ state.queue := fun other later => by simp [queue, later]
  have distinct := inv.distinct
  rw [queue, List.map_cons, List.nodup_cons] at distinct
  obtain ⟨absent, distinct⟩ := distinct
  have whole : rows = task.rows := by
    obtain ⟨first, head, same⟩ := inv.running rows running
    rw [queue, List.head?_cons, Option.mem_some_iff] at head
    subst head
    exact same
  subst whole
  have frame := Buffer.fillAll_frame (config task.wrapper).shape task.rows results task.side.outputs
    (state.buffers task.buffer)
  obtain ⟨bsz, latest⟩ := Buffer.fillAll_record (config task.wrapper).shape task.rows results
    task.side.outputs (state.buffers task.buffer)
  exact {
    shared := inv.shared
    placed := fun other waits => inv.placed other (later other waits)
    referenced := fun other waits => inv.referenced other (later other waits)
    served := fun other waits => by
      have before := inv.served other (later other waits)
      by_cases same : other.buffer = task.buffer
      · rw [same] at before
        simp only [SharedBuffer.finish, same, Function.update_self]
        exact before.frame frame (inputs_not_written other.side task.side) (fun _ => bsz) (congrFun latest _)
      · simpa only [SharedBuffer.finish, Function.update_of_ne same] using before
    fresh := fun other waits => by
      have differ : other.number ≠ task.number := fun same =>
        absent (same ▸ List.mem_map_of_mem waits)
      obtain ⟨older, unwritten⟩ := inv.fresh other (later other waits)
      exact ⟨older, (Function.update_of_ne differ _ _).trans unwritten⟩
    distinct := distinct
    recorded := fun number side other last => inv.finish_recorded queue (by rwa [finish_latest] at last)
    known := inv.known
    unwritten := fun number past => by
      have differ : number ≠ task.number := by
        have older := (inv.fresh task member).1
        have bound : state.submitted ≤ number := past
        omega
      exact (Function.update_of_ne differ _ _).trans (inv.unwritten number past)
    running := fun _ running => by contradiction
    pending := inv.pending
    async := inv.async
    waits := fun waiting begun => by
      have before := inv.waits waiting begun
      cases waiting with
      | forward => exact ⟨before.1, (congrFun (finish_latest ..) _).trans before.2⟩
      | syncForward => exact before
      | backward => exact ⟨before.1, (congrFun (finish_latest ..) _).trans before.2.1, before.2.2⟩
      | syncBackward => exact before
    observed := inv.observed
    returned := fun other given old => inv.finish_wrote member (inv.returned other given old) }

omit [DecidableEq ι] in
/-- A call may take its results from the buffer when its task was the last of its side there. -/
theorem Inv.giveBack (inv : Inv config state) {task : Task ι V} (drained : state.queue = [])
    (latest : (state.buffers number).latest task.side = some task)
    (ran : task.side = .backward → state.lost task.number = false) :
    Inv config (giveBack task number state) :=
  { inv with
    recorded := fun number side other last =>
      (inv.recorded number side other last).unchanged rfl le_rfl id id (fun _ => id)
    waits := fun _ begun => by contradiction
    returned := fun other given member => by
      cases member with
      | tail _ older => exact inv.returned other given older
      | head =>
          have recorded := inv.recorded number task.side task latest
          rcases recorded.ended with waits | ⟨backward, lost⟩ | written
          · rw [drained] at waits
            contradiction
          · rw [ran backward] at lost
            contradiction
          · rw [← recorded.shape]
            exact written }

omit [DecidableEq ι] in
theorem Inv.depths (inv : Inv config state) (depths : ι → Int) :
    Inv config { state with cacheDepth := depths } :=
  { inv with
    recorded := fun number side task last =>
      (inv.recorded number side task last).unchanged rfl le_rfl id id (fun _ => id) }

theorem Inv.raised (inv : Inv config state) (waiting : Waiting ι V) :
    Inv config (raised waiting state) :=
  { inv with
    recorded := fun number side task last =>
      (inv.recorded number side task last).unchanged rfl le_rfl id id (fun _ => id)
    waits := fun _ begun => by contradiction
    async := by
      cases waiting with
      | syncBackward task => exact update_some inv.async (fun _ none => by contradiction)
      | _ => exact inv.async }

omit [DecidableEq ι] in
theorem Inv.getBuffer_again (inv : Inv config state) {task : Task ι V} (shared : state.shared = some task.buffer)
    (latest : (state.buffers task.buffer).latest side = some task) (own : Shape) :
    SharedBuffer.getBuffer found own task.rows state = (state, task.buffer) := by
  have room := (inv.recorded _ _ _ latest).rows
  simp only [SharedBuffer.getBuffer, State.reuses, shared, if_pos room]

theorem Inv.resume (inv : Inv config state) (drained : state.queue = [])
    (begun : state.waiting = some waiting) (careful : Careful config state .resume) :
    Inv config (resume config found waiting state) := by
  have waits := inv.waits waiting begun
  simp only [Careful, begun] at careful
  simp only [SharedBuffer.resume]
  split
  · exact inv.raised waiting
  · rename_i quiet
    cases waiting with
    | forward task =>
        obtain ⟨onSide, latest⟩ := waits
        exact (inv.depths _).giveBack drained (onSide ▸ latest) (fun backward => by simp [onSide] at backward)
    | syncForward task =>
        have latest := careful.resolve_left quiet
        have onSide : task.side = .forward := waits
        have released : Inv config { deepen task state with
            pendingForward := Function.update state.pendingForward task.wrapper none } := by
          apply (inv.depths _).hold
          · intro other member
            rw [show state.queue = [] from drained] at member
            contradiction
          · exact update_some inv.pending (fun _ none => by contradiction)
        exact released.giveBack drained (onSide ▸ latest) (fun backward => by simp [onSide] at backward)
    | backward task =>
        obtain ⟨onSide, latest, reported⟩ := waits
        have ran : state.lost task.number = false :=
          Bool.eq_false_iff.mpr (fun lost => quiet (reported lost))
        exact (inv.depths _).giveBack drained (onSide ▸ latest) (fun _ => ran)
    | syncBackward task =>
        obtain ⟨shared, ran, latest⟩ := careful.resolve_left quiet
        have onSide : task.side = .backward := waits
        simp only [inv.getBuffer_again shared latest]
        have released : Inv config { shallower task state with
            asyncBwd := Function.update state.asyncBwd task.wrapper none } :=
          (inv.depths _).keepAsync (update_some inv.async (fun _ none => by contradiction))
        exact released.giveBack drained (onSide ▸ latest) (fun _ => ran)

theorem Inv.step (inv : Inv config state) (careful : Careful config state action)
    (moved : step config found state action = some after) : Inv config after := by
  cases action with
  | call call =>
      simp only [SharedBuffer.step] at moved
      split at moved
      · rename_i free
        cases moved
        exact inv.perform free call careful
      · contradiction
  | start =>
      simp only [SharedBuffer.step] at moved
      split at moved
      · rename_i queue idle
        cases moved
        exact inv.start queue idle careful
      · contradiction
  | read =>
      simp only [SharedBuffer.step] at moved
      split at moved
      · rename_i queue running
        cases moved
        exact inv.read queue running
      · contradiction
  | finish results =>
      simp only [SharedBuffer.step] at moved
      split at moved
      · rename_i queue running
        cases moved
        exact inv.finish queue running
      · contradiction
  | resume =>
      simp only [SharedBuffer.step] at moved
      split at moved
      · rename_i drained begun
        cases moved
        exact inv.resume drained begun careful
      · contradiction

/-- While every call and every task meets the conditions, no result is another's. -/
theorem results_from_own_task
    (reached : (machine config found).ReachableBy (Careful config) state) : OwnResults config state := by
  have inv : Inv config state := by
    induction reached with
    | initial starts =>
        cases starts
        exact initial_inv config found
    | step _ fine moved induction => exact induction.step fine moved
  exact inv.ownResults

/-! ## Two layers -/

instance [Fintype ι] (shared : Option Nat) (pending : ι → Option (Task ι V)) (number : Nat) :
    Decidable (Referenced shared pending number) :=
  inferInstanceAs (Decidable (_ ∨ _))

instance [Fintype ι] (side : Side) (wrapper : ι) (rows : Nat) (pending : ι → Option (Task ι V))
    (state : State ι V) : Decidable (Submits config side wrapper rows pending state) :=
  match reused : state.reuses rows with
  | some number =>
      decidable_of_iff
        ((Buffer.Fits (config wrapper).shape (state.buffers number).shape .input →
            ∀ task ∈ state.queue, task.buffer = number → task.side ≠ side) ∧
          ((∀ field ∈ side.inputs, Buffer.Fits (config wrapper).shape (state.buffers number).shape field) →
            (config wrapper).shape = (state.buffers number).shape ∧
              ∀ task ∈ state.queue, Referenced state.shared pending task.buffer))
        (by simp only [Submits, reused])
  | none =>
      decidable_of_iff (∀ task ∈ state.queue, Referenced none pending task.buffer)
        (by simp only [Submits, reused])

instance [Fintype ι] [DecidableEq V] (state : State ι V) (action : Action ι V) :
    Decidable (Careful config state action) :=
  match action with
  | .call (.forward ..) => inferInstanceAs (Decidable (_ ∨ _))
  | .call (.submitForward ..) => inferInstanceAs (Decidable (_ ∨ _))
  | .call (.backward ..) => inferInstanceAs (Decidable (_ ∨ _))
  | .call (.submitBackwardAsync ..) => inferInstanceAs (Decidable (_ ∨ _))
  | .call (.syncForward _) => isTrue trivial
  | .call (.syncBackward _) => isTrue trivial
  | .start =>
      inferInstanceAs (Decidable (∀ task ∈ state.queue.head?, task.side = .backward →
        ∀ rows ∈ state.cached task.wrapper, rows = task.rows))
  | .read => isTrue trivial
  | .finish _ => isTrue trivial
  | .resume =>
      match begun : state.waiting with
      | some (.syncForward task) =>
          decidable_of_iff
            (state.failed = true ∨ (state.buffers task.buffer).latest .forward = some task)
            (by simp only [Careful, begun])
      | some (.syncBackward task) =>
          decidable_of_iff
            (state.failed = true ∨ (state.shared = some task.buffer ∧ state.lost task.number = false ∧
              (state.buffers task.buffer).latest .backward = some task))
            (by simp only [Careful, begun])
      | some (.forward _) => isTrue (by simp only [Careful, begun])
      | some (.backward _) => isTrue (by simp only [Careful, begun])
      | none => isTrue (by simp only [Careful, begun])

/-- The layer `true` picks one expert for a token, the layer `false` `topK`. -/
def twoLayers (topK : Nat) (layer : Bool) : Wrapper :=
  ⟨⟨2, if layer then 1 else topK⟩, 8⟩

def numbers (first : Nat) : Values Nat :=
  fun _ row column => first + 10 * row + column

def zeros (_ : Nat) (_ : Field) (_ : Nat) : Nat :=
  0

def runTask (first : Nat) : List (Action Bool Nat) :=
  [.start, .read, .finish (numbers first)]

/-- Layers of one shape that train in turns, one of them asynchronously. -/
def trainingSchedule : List (Action Bool Nat) :=
  [.call (.submitForward false 2 (numbers 100) true)] ++ runTask 200 ++
  [.call (.syncForward false), .resume, .call (.forward true 1 (numbers 300) true)] ++ runTask 400 ++
  [.resume, .call (.backward true 1 (numbers 500))] ++ runTask 600 ++
  [.resume, .call (.submitBackwardAsync false 2 (numbers 700))] ++ runTask 800 ++
  [.call (.syncBackward false), .resume]

theorem own_results_of_training : ∃ state,
    (machine (twoLayers 1) zeros).ReachableBy (Careful (twoLayers 1)) state ∧
      (state.observed.length = 4 ∧ state.returned.length = 4) ∧ OwnResults (twoLayers 1) state := by
  obtain ⟨state, reached, passed⟩ := Machine.exists_reachable_of_run
    ((machine (twoLayers 1) zeros).restrict (Careful (twoLayers 1))) (initial zeros) trainingSchedule rfl
    (fun state => decide (state.observed.length = 4 ∧ state.returned.length = 4)) (by decide +kernel)
  have reached := Machine.reachableBy_of_restrict reached
  exact ⟨state, reached, of_decide_eq_true passed, results_from_own_task reached⟩

/-- A layer with a larger batch and fewer experts for a token runs between the
forward and the backward of another. -/
def mixedSchedule : List (Action Bool Nat) :=
  [.call (.forward false 1 (numbers 100) true)] ++ runTask 200 ++
  [.resume, .call (.forward true 2 (numbers 300) true)] ++ runTask 400 ++
  [.resume, .call (.backward false 1 (numbers 500)), .start]

/-- A backward waits with more experts to a token than its buffer has. -/
def overruns (state : State Bool Nat) : Bool :=
  match state.queue, state.running with
  | task :: _, some _ => decide (task.side = .backward) &&
      decide (((state.buffers task.buffer).shape.numExpertsPerTok <
        (twoLayers 3 task.wrapper).shape.numExpertsPerTok))
  | _, _ => false

/-- The gradient of the weights has three entries for a token where the buffer has one. -/
theorem backward_overruns_narrow_buffer :
    ¬∀ state, (machine (twoLayers 3) zeros).Reachable state → OwnResults (twoLayers 3) state := by
  intro always
  obtain ⟨state, reached, overrun⟩ := Machine.exists_reachable_of_run (machine (twoLayers 3) zeros)
    (initial zeros) mixedSchedule rfl overruns (by decide +kernel)
  unfold overruns at overrun
  split at overrun
  · rename_i task rest rows queue running
    simp only [Bool.and_eq_true, decide_eq_true_eq] at overrun
    have room := ((always state reached).room task rest rows queue running).2.2 .gradWeights
      (by simp [overrun.1, Side.outputs])
    exact absurd room (by simpa only [Shape.width, not_le] using overrun.2)
  · contradiction

end

end KtKernel.Sft.SharedBuffer
