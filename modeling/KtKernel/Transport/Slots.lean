import KtKernel.Transport.Epochs

namespace KtKernel.Transport

open KtKernel.Data

/-! Host slots, sequence numbers and the copies out of the slots.

A slot is rewritten only when every rank has acknowledged the sequence number
last published in it.  So a rank that has seen a number it has not
acknowledged finds the slot, and the cells that describe it, as they were
published.
-/

/-- The copies of the first experts of a layer, in order. -/
def transfers (cfg : Config) (rank epoch count : Nat) : List Transfer :=
  (List.range count).flatMap fun expert =>
    (List.range bufferKinds).map (transferOf cfg rank epoch expert)

theorem transfers_succ (cfg : Config) (rank epoch count : Nat) :
    transfers cfg rank epoch (count + 1) = transfers cfg rank epoch count ++
      (List.range bufferKinds).map (transferOf cfg rank epoch count) := by
  simp [transfers, List.range_succ, List.flatMap_append]

/-- Every rank has acknowledged what the slot was last published with. -/
def Shared.Acked (cfg : Config) (shared : Shared) (slot : Nat) : Prop :=
  ∀ rank < cfg.tpSize, shared.control.ackSequence rank slot = (shared.control.ready slot).sequence

/-- The rank has been told about the slot and not acknowledged it. -/
def Shared.Owes (shared : Shared) (rank slot : Nat) : Prop :=
  shared.control.ackSequence rank slot < (shared.control.ready slot).sequence

def Shared.Describes (shared : Shared) (slot epoch expert : Nat) : Prop :=
  (shared.control.ready slot).epoch = epoch ∧ (shared.control.ready slot).expertId = expert

theorem Shared.Acked.ne_of_owes {shared : Shared} (acked : shared.Acked cfg slot)
    (inside : rank < cfg.tpSize) (owes : shared.Owes rank index) : index ≠ slot := by
  rintro rfl
  have same := acked rank inside
  unfold Shared.Owes at owes
  omega

structure Slots (cfg : Config) (shared : Shared) : Prop where
  ack_le : ∀ rank slot, shared.control.ackSequence rank slot ≤ (shared.control.ready slot).sequence
  drawn : ∀ slot, (shared.control.ready slot).sequence ≤ shared.control.nextSequence
  last : ∀ rank slot, shared.lastReadySequence rank slot = shared.control.ackSequence rank slot
  content : ∀ rank < cfg.tpSize, ∀ slot, shared.Owes rank slot → shared.host rank slot =
    some ((shared.control.ready slot).epoch, (shared.control.ready slot).expertId)
  flying : ∀ rank, ∀ transfer ∈ shared.stream rank, rank < cfg.tpSize ∧
    shared.Owes rank (slotOf transfer.expert) ∧
    shared.Describes (slotOf transfer.expert) transfer.epoch transfer.expert ∧
    shared.control.consumerDoneEpoch rank < transfer.epoch ∧
    transfer.epoch ≤ shared.control.activeEpoch
  told : ∀ rank < cfg.tpSize, ∀ slot, shared.Owes rank slot →
    shared.history.told (shared.control.ready slot).sequence =
      ((shared.control.ready slot).epoch, (shared.control.ready slot).expertId)
  acked : ∀ rank slot, shared.control.ackSequence rank slot ≠ 0 →
    (shared.history.told (shared.control.ackSequence rank slot)).2 <
      shared.history.acked rank (shared.history.told (shared.control.ackSequence rank slot)).1
  produced : shared.control.producerDoneEpoch ≠ 0 → ∀ rank < cfg.tpSize,
    shared.history.counts shared.control.producerDoneEpoch ≤
      shared.history.acked rank shared.control.producerDoneEpoch
  future : ∀ rank epoch, shared.control.activeEpoch < epoch →
    shared.history.copied rank epoch = [] ∧ shared.history.acked rank epoch = 0
  done : ∀ rank, shared.control.consumerDoneEpoch rank ≠ 0 →
    (shared.history.copied rank (shared.control.consumerDoneEpoch rank)).map Prod.fst =
      transfers cfg rank (shared.control.consumerDoneEpoch rank)
        (shared.history.counts (shared.control.consumerDoneEpoch rank))
  intact : ∀ rank epoch, ∀ entry ∈ shared.history.copied rank epoch,
    entry.2 = some (epoch, entry.1.expert)
  returned : ∀ entry ∈ shared.history.returns,
    entry.epoch ≤ shared.control.consumerDoneEpoch entry.rank ∧
      (shared.history.copied entry.rank entry.epoch).map Prod.fst =
        transfers cfg entry.rank entry.epoch (shared.history.counts entry.epoch)

/-- What the producer knows of the slots before it writes an expert. -/
structure Shared.Published (cfg : Config) (shared : Shared) (layer : Layer) (published : Nat → Nat)
    (expert : Nat) : Prop where
  current : ∀ slot, published slot ≠ 0 → published slot = (shared.control.ready slot).sequence
  unused : ∀ slot, published slot = 0 → shared.Acked cfg slot
  outside : ∀ slot, hostSlots ≤ slot → published slot = 0
  previous : ∀ previous, expert = previous + 1 → published (slotOf previous) ≠ 0 ∧
    shared.history.told (published (slotOf previous)) = (layer.epoch, previous)

def Shared.Filled (cfg : Config) (shared : Shared) (slot epoch expert : Nat) : Prop :=
  ∀ rank < cfg.tpSize, shared.host rank slot = some (epoch, expert)

/-- A drawn sequence number that is not published yet. -/
def Shared.Fresh (shared : Shared) (sequence : Nat) : Prop :=
  (∀ slot, (shared.control.ready slot).sequence < sequence) ∧ sequence ≤ shared.control.nextSequence

def ProduceAt (cfg : Config) (shared : Shared) (layer : Layer) (published : Nat → Nat) : Produce → Prop
  | .matchActive | .matchLayerId | .matchExpertCount | .matchJoin | .scanJoined _ =>
      published = fun _ => 0
  | .acquire expert next => shared.Published cfg layer published expert ∧
      ∀ rank < next, shared.control.ackSequence rank (slotOf expert) =
        (shared.control.ready (slotOf expert)).sequence
  | .write expert | .writing expert =>
      shared.Published cfg layer published expert ∧ shared.Acked cfg (slotOf expert)
  | .draw expert => shared.Published cfg layer published expert ∧ shared.Acked cfg (slotOf expert) ∧
      shared.Filled cfg (slotOf expert) layer.epoch expert
  | .storeEpoch expert sequence => shared.Published cfg layer published expert ∧
      shared.Acked cfg (slotOf expert) ∧ shared.Filled cfg (slotOf expert) layer.epoch expert ∧
      shared.Fresh sequence
  | .storeExpert expert sequence => shared.Published cfg layer published expert ∧
      shared.Acked cfg (slotOf expert) ∧ shared.Filled cfg (slotOf expert) layer.epoch expert ∧
      shared.Fresh sequence ∧ (shared.control.ready (slotOf expert)).epoch = layer.epoch
  | .storeSequence expert sequence => shared.Published cfg layer published expert ∧
      shared.Acked cfg (slotOf expert) ∧ shared.Filled cfg (slotOf expert) layer.epoch expert ∧
      shared.Fresh sequence ∧ shared.Describes (slotOf expert) layer.epoch expert
  | .drain slot next =>
      (∃ expert, layer.expertCount ≤ expert ∧ shared.Published cfg layer published expert) ∧
      (∀ earlier < slot, shared.Acked cfg earlier) ∧
      ∀ rank < next, shared.control.ackSequence rank slot = (shared.control.ready slot).sequence
  | .storeDone =>
      (∃ expert, layer.expertCount ≤ expert ∧ shared.Published cfg layer published expert) ∧
      ∀ slot, shared.Acked cfg slot

/-- The copies made and queued for the layer so far. -/
def Shared.Logged (cfg : Config) (shared : Shared) (rank epoch expert kind : Nat) : Prop :=
  (shared.history.copied rank epoch).map Prod.fst ++ shared.stream rank =
    transfers cfg rank epoch expert ++ (List.range kind).map (transferOf cfg rank epoch expert)

/-- The sequence number the consumer has seen is the current one. -/
def Shared.Observed (shared : Shared) (rank expert sequence : Nat) : Prop :=
  sequence = (shared.control.ready (slotOf expert)).sequence ∧ shared.Owes rank (slotOf expert)

/-- The consumer has acknowledged all experts before its current one. -/
def Shared.Working (shared : Shared) (rank : Nat) (batch : Batch) : Prop :=
  shared.history.acked rank batch.epoch = batch.expert ∧ batch.expert < batch.expertCount

def Shared.Found (shared : Shared) (rank : Nat) (batch : Batch) (sequence : Nat) : Prop :=
  shared.Observed rank batch.expert sequence ∧
    shared.Describes (slotOf batch.expert) batch.epoch batch.expert

def ConsumeAt (cfg : Config) (shared : Shared) (rank : Nat) (batch : Batch) : Consume → Prop
  | .awaitActive | .awaitSequence =>
      shared.Working rank batch ∧ shared.Logged cfg rank batch.epoch batch.expert 0
  | .compareEpoch sequence => shared.Working rank batch ∧
      shared.Logged cfg rank batch.epoch batch.expert 0 ∧ shared.Observed rank batch.expert sequence
  | .compareExpert sequence => shared.Working rank batch ∧
      shared.Logged cfg rank batch.epoch batch.expert 0 ∧ shared.Observed rank batch.expert sequence ∧
      (shared.control.ready (slotOf batch.expert)).epoch = batch.epoch
  | .clearReady sequence => shared.Working rank batch ∧
      shared.Logged cfg rank batch.epoch batch.expert 0 ∧ shared.Found rank batch sequence
  | .issue sequence kind => shared.Working rank batch ∧
      shared.Logged cfg rank batch.epoch batch.expert kind ∧ shared.Found rank batch sequence ∧
      kind ≤ bufferKinds
  | .awaitEvent sequence => shared.Working rank batch ∧
      shared.Logged cfg rank batch.epoch batch.expert bufferKinds ∧ shared.Found rank batch sequence
  | .clearEvent sequence | .acknowledge sequence => shared.Working rank batch ∧
      shared.Logged cfg rank batch.epoch batch.expert bufferKinds ∧ shared.Found rank batch sequence ∧
      shared.stream rank = []
  | .storeDone =>
      shared.Logged cfg rank batch.epoch batch.expertCount 0 ∧ shared.stream rank = []

/-- Nothing of the active layer is copied yet. -/
def Shared.Untouched (shared : Shared) (rank : Nat) : Prop :=
  shared.stream rank = [] ∧
    (shared.control.consumerDoneEpoch rank < shared.control.activeEpoch →
      shared.history.copied rank shared.control.activeEpoch = [] ∧
        shared.history.acked rank shared.control.activeEpoch = 0)

/-- A producer that has not failed may hold unacknowledged slots. -/
def Position.producing : Position → Bool
  | .produce _ _ stage =>
      match stage with
      | .matchActive | .matchLayerId | .matchExpertCount | .matchJoin | .scanJoined _ => false
      | _ => true
  | .caught _ | .publish .claim _ .catches | .publish .claim _ .rethrows => true
  | _ => false

/-- Outside the producer's loop all slots are acknowledged, or the transport
is poisoned. -/
def QuietAt (cfg : Config) (shared : Shared) (party : Party) (position : Position) : Prop :=
  party = ⟨.caller, 0⟩ → position.producing = false →
    shared.healthy = false ∨ ∀ slot, shared.Acked cfg slot

def SlotsAt (cfg : Config) (shared : Shared) (party : Party) : Position → Prop
  | .produce layer published stage => 0 < layer.expertCount ∧ ProduceAt cfg shared layer published stage
  | .wait epoch _ stage => stage ≠ .readJoin → epoch ≠ 0
  | .poll _ => shared.Untouched party.rank
  | .consume batch stage => ConsumeAt cfg shared party.rank batch stage
  | .report _ _ => shared.healthy = false
  | .publish stage _ _ => stage ≠ .claim → shared.healthy = false
  | _ => True

def slotsOutline (cfg : Config) : Outline Shared Party Position where
  memory := Slots cfg
  asserts shared party position :=
    SlotsAt cfg shared party position ∧ QuietAt cfg shared party position

/-! ## Non-interference -/

structure ProducerRely (before after : Shared) : Prop where
  ready : after.control.ready = before.control.ready
  told : after.history.told = before.history.told
  drawn : after.control.nextSequence = before.control.nextSequence
  host : after.host = before.host
  ack : ∀ rank slot, before.control.ackSequence rank slot ≤ after.control.ackSequence rank slot

structure ConsumerRely (cfg : Config) (rank : Nat) (before after : Shared) : Prop where
  ack : after.control.ackSequence rank = before.control.ackSequence rank
  acked : after.history.acked rank = before.history.acked rank
  copied : after.history.copied rank = before.history.copied rank
  stream : after.stream rank = before.stream rank
  done : after.control.consumerDoneEpoch rank = before.control.consumerDoneEpoch rank
  active : after.control.activeEpoch = before.control.activeEpoch ∨
    before.control.activeEpoch < after.control.activeEpoch
  ready : rank < cfg.tpSize → ∀ slot, before.Owes rank slot →
    after.control.ready slot = before.control.ready slot

structure SlotsRely (cfg : Config) (party : Party) (before after : Shared) : Prop where
  sick : before.healthy = false → after.healthy = false
  producer : party = ⟨.caller, 0⟩ → ProducerRely before after
  consumer : party.role = .consumer → ConsumerRely cfg party.rank before after

section

variable {cfg : Config} {before after : Shared} {sequence : Nat}

theorem ProducerRely.ack_eq (rely : ProducerRely before after) (slots : Slots cfg after)
    (same : before.control.ackSequence rank slot = (before.control.ready slot).sequence) :
    after.control.ackSequence rank slot = (after.control.ready slot).sequence := by
  have grows := rely.ack rank slot
  have bounded := slots.ack_le rank slot
  rw [rely.ready] at bounded ⊢
  omega

theorem ProducerRely.acked (rely : ProducerRely before after) (slots : Slots cfg after)
    (acked : before.Acked cfg slot) : after.Acked cfg slot :=
  fun rank inside => rely.ack_eq slots (acked rank inside)

theorem ProducerRely.published (rely : ProducerRely before after) (slots : Slots cfg after)
    (published : before.Published cfg layer numbers expert) :
    after.Published cfg layer numbers expert where
  current slot used := by
    rw [rely.ready]
    exact published.current slot used
  unused slot unused := rely.acked slots (published.unused slot unused)
  outside := published.outside
  previous earlier same := by
    rw [rely.told]
    exact published.previous earlier same

theorem ProducerRely.filled (rely : ProducerRely before after)
    (filled : before.Filled cfg slot epoch expert) : after.Filled cfg slot epoch expert := by
  unfold Shared.Filled
  rw [rely.host]
  exact filled

theorem ProducerRely.fresh (rely : ProducerRely before after) (fresh : before.Fresh sequence) :
    after.Fresh sequence := by
  unfold Shared.Fresh
  rw [rely.ready, rely.drawn]
  exact fresh

theorem ProduceAt.stable (rely : ProducerRely before after) (slots : Slots cfg after)
    (holds : ProduceAt cfg before layer published stage) : ProduceAt cfg after layer published stage := by
  cases stage with
  | acquire expert index =>
      exact ⟨rely.published slots holds.1, fun rank bound => rely.ack_eq slots (holds.2 rank bound)⟩
  | write expert | writing expert =>
      exact ⟨rely.published slots holds.1, rely.acked slots holds.2⟩
  | draw expert =>
      exact ⟨rely.published slots holds.1, rely.acked slots holds.2.1, rely.filled holds.2.2⟩
  | storeEpoch expert sequence =>
      exact ⟨rely.published slots holds.1, rely.acked slots holds.2.1, rely.filled holds.2.2.1,
        rely.fresh holds.2.2.2⟩
  | storeExpert expert sequence =>
      exact ⟨rely.published slots holds.1, rely.acked slots holds.2.1, rely.filled holds.2.2.1,
        rely.fresh holds.2.2.2.1, by rw [rely.ready]; exact holds.2.2.2.2⟩
  | storeSequence expert sequence =>
      refine ⟨rely.published slots holds.1, rely.acked slots holds.2.1, rely.filled holds.2.2.1,
        rely.fresh holds.2.2.2.1, ?_⟩
      unfold Shared.Describes
      rw [rely.ready]
      exact holds.2.2.2.2
  | drain slot index =>
      obtain ⟨⟨expert, last, published⟩, acked, scanned⟩ := holds
      exact ⟨⟨expert, last, rely.published slots published⟩,
        fun earlier bound => rely.acked slots (acked earlier bound),
        fun rank bound => rely.ack_eq slots (scanned rank bound)⟩
  | storeDone =>
      obtain ⟨⟨expert, last, published⟩, acked⟩ := holds
      exact ⟨⟨expert, last, rely.published slots published⟩, fun slot => rely.acked slots (acked slot)⟩
  | _ => exact holds

theorem ConsumerRely.working (rely : ConsumerRely cfg rank before after)
    (working : before.Working rank batch) : after.Working rank batch := by
  unfold Shared.Working
  rw [rely.acked]
  exact working

theorem ConsumerRely.logged (rely : ConsumerRely cfg rank before after)
    (logged : before.Logged cfg rank epoch expert kind) : after.Logged cfg rank epoch expert kind := by
  unfold Shared.Logged
  rw [rely.copied, rely.stream]
  exact logged

theorem ConsumerRely.observed (rely : ConsumerRely cfg rank before after) (inside : rank < cfg.tpSize)
    (observed : before.Observed rank expert sequence) : after.Observed rank expert sequence := by
  have ready := rely.ready inside _ observed.2
  unfold Shared.Observed Shared.Owes
  rw [ready, rely.ack]
  exact observed

theorem ConsumerRely.found (rely : ConsumerRely cfg rank before after) (inside : rank < cfg.tpSize)
    (found : before.Found rank batch sequence) : after.Found rank batch sequence := by
  refine ⟨rely.observed inside found.1, ?_⟩
  unfold Shared.Describes
  rw [rely.ready inside _ found.1.2]
  exact found.2

theorem ConsumeAt.stable (rely : ConsumerRely cfg rank before after) (inside : rank < cfg.tpSize)
    (holds : ConsumeAt cfg before rank batch stage) : ConsumeAt cfg after rank batch stage := by
  cases stage with
  | awaitActive | awaitSequence => exact ⟨rely.working holds.1, rely.logged holds.2⟩
  | compareEpoch sequence =>
      exact ⟨rely.working holds.1, rely.logged holds.2.1, rely.observed inside holds.2.2⟩
  | compareExpert sequence =>
      refine ⟨rely.working holds.1, rely.logged holds.2.1, rely.observed inside holds.2.2.1, ?_⟩
      rw [rely.ready inside _ holds.2.2.1.2]
      exact holds.2.2.2
  | clearReady sequence =>
      exact ⟨rely.working holds.1, rely.logged holds.2.1, rely.found inside holds.2.2⟩
  | issue sequence kind =>
      exact ⟨rely.working holds.1, rely.logged holds.2.1, rely.found inside holds.2.2.1, holds.2.2.2⟩
  | awaitEvent sequence =>
      exact ⟨rely.working holds.1, rely.logged holds.2.1, rely.found inside holds.2.2⟩
  | clearEvent sequence | acknowledge sequence =>
      exact ⟨rely.working holds.1, rely.logged holds.2.1, rely.found inside holds.2.2.1,
        rely.stream.trans holds.2.2.2⟩
  | storeDone => exact ⟨rely.logged holds.1, rely.stream.trans holds.2⟩

theorem ConsumerRely.untouched (rely : ConsumerRely cfg rank before after) (slots : Slots cfg before)
    (untouched : before.Untouched rank) : after.Untouched rank := by
  refine ⟨rely.stream.trans untouched.1, ?_⟩
  rw [rely.copied, rely.acked, rely.done]
  rcases rely.active with same | later
  · rw [same]
    exact untouched.2
  · intro _
    exact slots.future rank _ later

theorem slots_silent {position : Position} (slots : Slots cfg before) (kept : Slots cfg after)
    (rely : SlotsRely cfg party before after)
    (epochs : (epochsOutline cfg).asserts before party position)
    (holds : (slotsOutline cfg).asserts before party position) :
    (slotsOutline cfg).asserts after party position := by
  obtain ⟨holds, quiet⟩ := holds
  refine ⟨?_, ?_⟩
  · cases position with
    | wait epoch stats stage => exact holds
    | produce layer published stage =>
        exact ⟨holds.1, holds.2.stable (rely.producer epochs.1) kept⟩
    | poll stage => exact (rely.consumer epochs.1).untouched slots holds
    | consume batch stage => exact holds.stable (rely.consumer epochs.1) epochs.2.1.1
    | report stage next => exact rely.sick holds
    | publish stage error next => exact fun claimed => rely.sick (holds claimed)
    | _ => trivial
  · intro own settled
    have producer := rely.producer own
    rcases quiet own settled with sick | acked
    · exact .inl (rely.sick sick)
    · exact .inr fun slot => producer.acked kept (acked slot)

end

end KtKernel.Transport
