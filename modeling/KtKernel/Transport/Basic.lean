import Mathlib.Algebra.Group.Nat.Defs
import KtKernel.Data.Machine

namespace KtKernel.Transport

open KtKernel.Data

/-! The layerwise transport of expert weights between processes.

Every rank has a thread that makes the calls, a thread that may close the
transport and a consumer.  The threads share one control region and each of
their steps reads or writes one cell of it.  A wait that polls may be left at
any time through poison, `stopping_` or its timeout.

The counters are 64 bits wide in the source and unbounded here.
-/

def hostSlots : Nat :=
  2

def bufferKinds : Nat :=
  4

structure Config where
  tpSize : Nat
  numExperts : Nat
  timeoutMs : Nat
  expertNbytes : Nat → Nat
  localGpuPtrs : Nat → Nat → Nat

inductive ErrorCode where
  | none
  | protocol
  | timeout
  | cudaInitialization
  | cudaCopy
  | writer
  | closedWhileActive
deriving DecidableEq, Repr

def ErrorCode.value : ErrorCode → Nat
  | .none => 0
  | .protocol => 1
  | .timeout => 2
  | .cudaInitialization => 3
  | .cudaCopy => 4
  | .writer => 5
  | .closedWhileActive => 6

structure ErrorRecord where
  code : ErrorCode
  rank : Int
  message : String
deriving DecidableEq, Repr

/-- `poison_state`: 0, `UINT64_MAX` and 1. -/
inductive Poison where
  | healthy
  | claimed
  | poisoned
deriving DecidableEq, Repr

structure ReadySlot where
  sequence : Nat := 0
  epoch : Nat := 0
  expertId : Nat := 0
deriving DecidableEq, Repr

structure Control where
  poisonState : Poison := .healthy
  errorCode : ErrorCode := .none
  errorRank : Int := -1
  errorMessage : String := ""
  activeEpoch : Nat := 0
  layerId : Int := 0
  expertCount : Nat := 0
  nextSequence : Nat := 0
  producerDoneEpoch : Nat := 0
  joinEpoch : Nat → Nat := fun _ => 0
  consumerDoneEpoch : Nat → Nat := fun _ => 0
  waitReturnedEpoch : Nat → Nat := fun _ => 0
  ready : Nat → ReadySlot := fun _ => {}
  ackSequence : Nat → Nat → Nat := fun _ _ => 0

/-- The arguments of `join` and `run_producer`.  A negative count is rejected
like zero. -/
structure Layer where
  epoch : Nat
  layerId : Int
  expertCount : Nat
deriving DecidableEq, Repr

inductive Call where
  | join (layer : Layer)
  | wait (epoch : Nat)
  | runProducer (layer : Layer)
deriving DecidableEq, Repr

/-- What `wait` returns, without the timings. -/
structure Stats where
  layerId : Int := -1
  expertCount : Nat := 0
  poison : Poison := .healthy
  error : ErrorRecord := ⟨.none, -1, ""⟩
deriving DecidableEq, Repr

def Stats.poisoned (stats : Stats) : Bool :=
  decide (stats.poison ≠ .healthy)

/-- The consumer's loop over the experts of a layer. -/
structure Batch where
  epoch : Nat
  expertCount : Nat
  expert : Nat
deriving DecidableEq, Repr

def slotOf (expert : Nat) : Nat :=
  expert % hostSlots

/-- One asynchronous copy from a host slot to the device. -/
structure Transfer where
  epoch : Nat
  expert : Nat
  kind : Nat
  destination : Nat
deriving DecidableEq, Repr

/-- What the writer left in a host slot: the epoch and the expert, or nothing
usable while it writes. -/
abbrev Content := Option (Nat × Nat)

/-- Where control goes after an exception or after `publish_poison`. -/
inductive Next where
  | throws
  | catches
  | rethrows
  | handles
  | exits
  | closes
deriving DecidableEq, Repr

inductive PublishStage where
  | claim
  | code
  | rank
  | message
  | release
deriving DecidableEq, Repr

/-- `poison_message`: wait for the publication, then read the three fields. -/
inductive ReportStage where
  | settle
  | code
  | rank (code : ErrorCode)
  | message (code : ErrorCode) (rank : Int)
deriving DecidableEq, Repr

inductive Join where
  | readActive
  | scanReturned (previous next : Nat)
  | storeLayerId
  | storeExpertCount
  | storeActive
  | awaitActive
  | clearActive
  | compareLayerId
  | compareExpertCount
  | storeJoin
deriving DecidableEq, Repr

inductive Wait where
  | readJoin
  | awaitDone
  | awaitProduced
  | clear
  | readLayerId
  | readExpertCount
  | readPoison
  | readCode
  | readRank
  | readMessage
  | storeReturned
deriving DecidableEq, Repr

inductive Produce where
  | matchActive
  | matchLayerId
  | matchExpertCount
  | matchJoin
  | scanJoined (next : Nat)
  | acquire (expert next : Nat)
  | write (expert : Nat)
  | writing (expert : Nat)
  | draw (expert : Nat)
  | storeEpoch (expert sequence : Nat)
  | storeExpert (expert sequence : Nat)
  | storeSequence (expert sequence : Nat)
  | drain (slot next : Nat)
  | storeDone
deriving DecidableEq, Repr

inductive Close where
  | begin
  | readActive
  | readDone (active : Nat)
  | readPoison
  | stop
  | joinWorker
deriving DecidableEq, Repr

inductive Consume where
  | awaitActive
  | awaitSequence
  | compareEpoch (sequence : Nat)
  | compareExpert (sequence : Nat)
  | clearReady (sequence : Nat)
  | issue (sequence kind : Nat)
  | awaitEvent (sequence : Nat)
  | clearEvent (sequence : Nat)
  | acknowledge (sequence : Nat)
  | storeDone
deriving DecidableEq, Repr

inductive Poll where
  | checkStopping
  | readActive
  | readJoin (epoch : Nat)
  | clear
  | readCount (epoch : Nat)
deriving DecidableEq, Repr

inductive Position where
  | idle
  | enter (call : Call)
  | check (call : Call)
  | join (layer : Layer) (stage : Join)
  | wait (epoch : Nat) (stats : Stats) (stage : Wait)
  | produce (layer : Layer) (published : Nat → Nat) (stage : Produce)
  | caught (what : String)
  | finish (threw : Bool)
  | close (stage : Close)
  | poll (stage : Poll)
  | consume (batch : Batch) (stage : Consume)
  | failed (what : String)
  | publish (stage : PublishStage) (error : ErrorRecord) (next : Next)
  | report (stage : ReportStage) (next : Next)
  | exited

inductive Role where
  | caller
  | closer
  | consumer
deriving DecidableEq, Repr

structure Party where
  role : Role
  rank : Nat
deriving DecidableEq, Repr

/-- What made a rank give up. -/
inductive Cause where
  | writer
  | copy
  | published (code : ErrorCode)
deriving DecidableEq, Repr

/-- A failure with the producer's progress at its time. -/
structure Failure where
  cause : Cause
  rank : Nat
  epoch : Nat
  produced : Nat
deriving DecidableEq, Repr

structure Return where
  rank : Nat
  epoch : Nat
  poisoned : Bool
deriving DecidableEq, Repr

structure Outcome where
  rank : Nat
  late : Bool
  threw : Bool
deriving DecidableEq, Repr

/-- What happened so far.  No step reads it. -/
structure History where
  first : Option ErrorRecord := none
  seen : List ErrorRecord := []
  told : Nat → Nat × Nat := fun _ => (0, 0)
  acked : Nat → Nat → Nat := fun _ _ => 0
  counts : Nat → Nat := fun _ => 0
  late : Nat → Bool := fun _ => false
  copied : Nat → Nat → List (Transfer × Content) := fun _ _ => []
  returns : List Return := []
  failures : List Failure := []
  outcomes : List Outcome := []

/-- All but the positions of the threads. -/
structure Shared where
  control : Control := {}
  closed : Nat → Bool := fun _ => false
  stopping : Nat → Bool := fun _ => false
  lastReadySequence : Nat → Nat → Nat := fun _ _ => 0
  completedEpoch : Nat → Nat := fun _ => 0
  host : Nat → Nat → Content := fun _ _ => none
  stream : Nat → List Transfer := fun _ => []
  history : History := {}

structure State where
  shared : Shared := {}
  position : Party → Position

/-- How a step goes on where the environment decides. -/
inductive Choice where
  | go
  | poisoned
  | stopping
  | timeout
  | fail (what : String)
deriving DecidableEq, Repr

inductive Action where
  | call (rank : Nat) (call : Call)
  | move (party : Party) (choice : Choice)
  | device (rank : Nat)
deriving DecidableEq, Repr

/-- What a step writes. -/
inductive Effect where
  | none
  | storeLayerId (layerId : Int)
  | storeExpertCount (expertCount : Nat)
  | storeActive (layer : Layer)
  | storeJoin (epoch : Nat)
  | storeReturned (epoch : Nat) (poisoned : Bool)
  | draw
  | storeReadyEpoch (slot epoch : Nat)
  | storeReadyExpert (slot expert : Nat)
  | storeReadySequence (slot sequence : Nat)
  | storeProduced (epoch : Nat)
  | beginWrite (slot : Nat)
  | endWrite (slot epoch expert : Nat)
  | issue (transfer : Transfer)
  | acknowledge (epoch expert sequence : Nat)
  | storeDone (epoch : Nat)
  | claim (error : ErrorRecord)
  | storeCode (code : ErrorCode)
  | storeRank (rank : Int)
  | storeMessage (message : String)
  | release
  | markClosed
  | markStopping
  | fail (cause : Cause) (epoch : Nat)
  | see (record : ErrorRecord)
  | settle (threw : Bool)

/-- `snprintf` into 256 bytes. -/
def truncate (message : String) : String :=
  String.ofList (message.toList.take 255)

def ErrorRecord.stored (error : ErrorRecord) : ErrorRecord :=
  { error with message := truncate error.message }

/-- `all_rank_host_ptrs`: the writer writes the slot of every rank. -/
def Shared.write (cfg : Config) (shared : Shared) (slot : Nat) (content : Content) : Nat → Nat → Content :=
  fun rank => if rank < cfg.tpSize then Function.update (shared.host rank) slot content else shared.host rank

def Shared.apply (cfg : Config) (shared : Shared) (rank : Nat) : Effect → Shared
  | .none => shared
  | .storeLayerId layerId => { shared with control.layerId := layerId }
  | .storeExpertCount expertCount => { shared with control.expertCount := expertCount }
  | .storeActive layer =>
      { shared with
        control.activeEpoch := layer.epoch
        history.counts := Function.update shared.history.counts layer.epoch layer.expertCount }
  | .storeJoin epoch =>
      { shared with control.joinEpoch := Function.update shared.control.joinEpoch rank epoch }
  | .storeReturned epoch poisoned =>
      { shared with
        control.waitReturnedEpoch := Function.update shared.control.waitReturnedEpoch rank epoch
        history.returns := ⟨rank, epoch, poisoned⟩ :: shared.history.returns }
  | .draw => { shared with control.nextSequence := shared.control.nextSequence + 1 }
  | .storeReadyEpoch slot epoch =>
      { shared with
        control.ready := Function.update shared.control.ready slot
          { shared.control.ready slot with epoch := epoch } }
  | .storeReadyExpert slot expert =>
      { shared with
        control.ready := Function.update shared.control.ready slot
          { shared.control.ready slot with expertId := expert } }
  | .storeReadySequence slot sequence =>
      { shared with
        control.ready := Function.update shared.control.ready slot
          { shared.control.ready slot with sequence := sequence }
        history.told := Function.update shared.history.told sequence
          ((shared.control.ready slot).epoch, (shared.control.ready slot).expertId) }
  | .storeProduced epoch => { shared with control.producerDoneEpoch := epoch }
  | .beginWrite slot => { shared with host := shared.write cfg slot none }
  | .endWrite slot epoch expert => { shared with host := shared.write cfg slot (some (epoch, expert)) }
  | .issue transfer =>
      { shared with stream := Function.update shared.stream rank (shared.stream rank ++ [transfer]) }
  | .acknowledge epoch expert sequence =>
      { shared with
        lastReadySequence := Function.update shared.lastReadySequence rank
          (Function.update (shared.lastReadySequence rank) (slotOf expert) sequence)
        control.ackSequence := Function.update shared.control.ackSequence rank
          (Function.update (shared.control.ackSequence rank) (slotOf expert) sequence)
        history.acked := Function.update shared.history.acked rank
          (Function.update (shared.history.acked rank) epoch (expert + 1)) }
  | .storeDone epoch =>
      { shared with
        control.consumerDoneEpoch := Function.update shared.control.consumerDoneEpoch rank epoch
        completedEpoch := Function.update shared.completedEpoch rank epoch }
  | .claim error =>
      { shared with
        control.poisonState :=
          if shared.control.poisonState = .healthy then .claimed else shared.control.poisonState
        history.first := shared.history.first <|> some error.stored
        history.failures :=
          ⟨.published error.code, rank, shared.control.activeEpoch, shared.control.producerDoneEpoch⟩ ::
            shared.history.failures }
  | .storeCode code => { shared with control.errorCode := code }
  | .storeRank errorRank => { shared with control.errorRank := errorRank }
  | .storeMessage message => { shared with control.errorMessage := truncate message }
  | .release => { shared with control.poisonState := .poisoned }
  | .markClosed => { shared with closed := Function.update shared.closed rank true }
  | .markStopping => { shared with stopping := Function.update shared.stopping rank true }
  | .fail cause epoch =>
      { shared with
        history.failures := ⟨cause, rank, epoch, shared.control.producerDoneEpoch⟩ :: shared.history.failures }
  | .see record => { shared with history.seen := record :: shared.history.seen }
  | .settle threw =>
      { shared with
        history.outcomes := ⟨rank, shared.history.late rank, threw⟩ :: shared.history.outcomes }

/-- The device runs the first copy of a rank's stream. -/
def Shared.copy (shared : Shared) (rank : Nat) : Option Shared :=
  match shared.stream rank with
  | [] => none
  | transfer :: rest =>
      some { shared with
        stream := Function.update shared.stream rank rest
        history.copied := Function.update shared.history.copied rank
          (Function.update (shared.history.copied rank) transfer.epoch
            (shared.history.copied rank transfer.epoch ++
              [(transfer, shared.host rank (slotOf transfer.expert))])) }

/-- An exception, or the end of `publish_poison`, with the text at hand. -/
def Next.resume (what : String) : Next → Position
  | .throws | .rethrows => .finish true
  | .catches => .caught what
  | .handles => .failed what
  | .exits => .exited
  | .closes => .close .stop

section

variable (cfg : Config) (shared : Shared) (rank : Nat)

def Shared.healthy : Bool :=
  decide (shared.control.poisonState = .healthy)

/-- `poison_and_throw`. -/
def poisonAndThrow (code : ErrorCode) (message : String) (next : Next) : Position × Effect :=
  (.publish .claim ⟨code, rank, message⟩ next, .none)

/-- `throw_if_poisoned`, then on. -/
def throwIfPoisoned (next : Next) (clear : Position) : Position × Effect :=
  if shared.healthy then (clear, .none) else (.report .settle next, .none)

/-- The ways out of the loop of `wait_until`. -/
def interrupt (next : Next) (description : String) : Choice → Option (Position × Effect)
  | .poisoned => if shared.healthy then none else some (.report .settle next, .none)
  | .stopping =>
      if shared.stopping rank then some (next.resume "FP8 layerwise transport is stopping", .none)
      else none
  | .timeout => some (poisonAndThrow rank .timeout ("timed out after " ++ toString cfg.timeoutMs ++
      " ms without progress while waiting for " ++ description) next)
  | _ => none

def Layer.invalid (layer : Layer) : Bool :=
  decide (layer.epoch = 0 ∨ layer.layerId < 0 ∨ layer.expertCount = 0 ∨
    cfg.numExperts < layer.expertCount)

/-- After `ensure_open` and `throw_if_poisoned`. -/
def dispatch : Call → Position
  | .join layer =>
      if layer.invalid cfg then .finish true
      else .join layer (if rank = 0 then .readActive else .awaitActive)
  | .wait epoch => .wait epoch {} .readJoin
  | .runProducer layer =>
      if rank ≠ 0 ∨ layer.invalid cfg then .finish true
      else .produce layer (fun _ => 0) .matchActive

def joinNext (layer : Layer) : Join → Choice → Option (Position × Effect)
  | .readActive, .go =>
      if layer.epoch ≤ shared.control.activeEpoch then
        some (poisonAndThrow rank .protocol
          "rank zero attempted to reuse or decrease a layerwise epoch" .throws)
      else if shared.control.activeEpoch = 0 then some (.join layer .storeLayerId, .none)
      else some (.join layer (.scanReturned shared.control.activeEpoch 0), .none)
  | .scanReturned previous next, .go =>
      if next < cfg.tpSize then
        if shared.control.waitReturnedEpoch next < previous then
          some (.join layer (.scanReturned previous 0), .none)
        else some (.join layer (.scanReturned previous (next + 1)), .none)
      else some (throwIfPoisoned shared .throws (.join layer .storeLayerId))
  | .scanReturned _ _, choice =>
      interrupt cfg shared rank .throws "all ranks returning from the previous layer" choice
  | .storeLayerId, .go => some (.join layer .storeExpertCount, .storeLayerId layer.layerId)
  | .storeExpertCount, .go => some (.join layer .storeActive, .storeExpertCount layer.expertCount)
  | .storeActive, .go => some (.join layer .storeJoin, .storeActive layer)
  | .awaitActive, .go =>
      if layer.epoch < shared.control.activeEpoch then
        some (poisonAndThrow rank .protocol "rank joined an epoch older than the active epoch" .throws)
      else if shared.control.activeEpoch = layer.epoch then some (.join layer .clearActive, .none)
      else some (.join layer .awaitActive, .none)
  | .awaitActive, choice =>
      interrupt cfg shared rank .throws "rank zero publishing the requested epoch" choice
  | .clearActive, .go => some (throwIfPoisoned shared .throws (.join layer .compareLayerId))
  | .compareLayerId, .go =>
      if shared.control.layerId = layer.layerId then some (.join layer .compareExpertCount, .none)
      else some (poisonAndThrow rank .protocol
        "ranks supplied inconsistent layer_id or expert_count" .throws)
  | .compareExpertCount, .go =>
      if shared.control.expertCount = layer.expertCount then some (.join layer .storeJoin, .none)
      else some (poisonAndThrow rank .protocol
        "ranks supplied inconsistent layer_id or expert_count" .throws)
  | .storeJoin, .go => some (.finish false, .storeJoin layer.epoch)
  | _, _ => none

def waitNext (epoch : Nat) (stats : Stats) : Wait → Choice → Option (Position × Effect)
  | .readJoin, .go =>
      if epoch = 0 ∨ shared.control.joinEpoch rank ≠ epoch then
        some (poisonAndThrow rank .protocol "wait called before this rank joined the epoch" .throws)
      else some (.wait epoch stats .awaitDone, .none)
  | .awaitDone, .go =>
      if epoch ≤ shared.control.consumerDoneEpoch rank then
        some (.wait epoch stats .awaitProduced, .none)
      else some (.wait epoch stats .awaitDone, .none)
  | .awaitProduced, .go =>
      if epoch ≤ shared.control.producerDoneEpoch then some (.wait epoch stats .clear, .none)
      else some (.wait epoch stats .awaitDone, .none)
  | .awaitDone, choice | .awaitProduced, choice =>
      interrupt cfg shared rank .throws "local H2D consumer and producer completion" choice
  | .clear, .go => some (throwIfPoisoned shared .throws (.wait epoch stats .readLayerId))
  | .readLayerId, .go =>
      some (.wait epoch { stats with layerId := shared.control.layerId } .readExpertCount, .none)
  | .readExpertCount, .go =>
      some (.wait epoch { stats with expertCount := shared.control.expertCount } .readPoison, .none)
  | .readPoison, .go =>
      some (.wait epoch { stats with poison := shared.control.poisonState } .readCode, .none)
  | .readCode, .go =>
      some (.wait epoch { stats with error.code := shared.control.errorCode } .readRank, .none)
  | .readRank, .go =>
      some (.wait epoch { stats with error.rank := shared.control.errorRank } .readMessage, .none)
  | .readMessage, .go =>
      let error := { stats.error with message := shared.control.errorMessage }
      some (.wait epoch { stats with error := error } .storeReturned,
        if stats.poison = .poisoned then .see error else .none)
  | .storeReturned, .go => some (.finish false, .storeReturned epoch stats.poisoned)
  | _, _ => none

/-- The head of the loop over the experts, and the waits behind it. -/
def drainFrom (published : Nat → Nat) : Nat → Produce
  | 0 => if published 0 ≠ 0 then .drain 0 0 else if published 1 ≠ 0 then .drain 1 0 else .storeDone
  | 1 => if published 1 ≠ 0 then .drain 1 0 else .storeDone
  | _ => .storeDone

def loopHead (layer : Layer) (published : Nat → Nat) (expert : Nat) : Position :=
  .produce layer published
    (if expert < layer.expertCount then
      if published (slotOf expert) ≠ 0 then .acquire expert 0 else .write expert
    else drainFrom published 0)

def produceNext (layer : Layer) (published : Nat → Nat) : Produce → Choice → Option (Position × Effect)
  | .matchActive, .go =>
      if shared.control.activeEpoch = layer.epoch then some (.produce layer published .matchLayerId, .none)
      else some (poisonAndThrow rank .protocol "producer arguments do not match the joined layer" .throws)
  | .matchLayerId, .go =>
      if shared.control.layerId = layer.layerId then some (.produce layer published .matchExpertCount, .none)
      else some (poisonAndThrow rank .protocol "producer arguments do not match the joined layer" .throws)
  | .matchExpertCount, .go =>
      if shared.control.expertCount = layer.expertCount then some (.produce layer published .matchJoin, .none)
      else some (poisonAndThrow rank .protocol "producer arguments do not match the joined layer" .throws)
  | .matchJoin, .go =>
      if shared.control.joinEpoch 0 = layer.epoch then some (.produce layer published (.scanJoined 0), .none)
      else some (poisonAndThrow rank .protocol "producer arguments do not match the joined layer" .throws)
  | .scanJoined next, .go =>
      if next < cfg.tpSize then
        if shared.control.joinEpoch next = layer.epoch then
          some (.produce layer published (.scanJoined (next + 1)), .none)
        else some (.produce layer published (.scanJoined 0), .none)
      else some (throwIfPoisoned shared .catches (loopHead layer published 0))
  | .scanJoined _, choice => interrupt cfg shared rank .catches "all ranks joining the layer" choice
  | .acquire expert next, .go =>
      if next < cfg.tpSize then
        if shared.control.ackSequence next (slotOf expert) < published (slotOf expert) then
          some (.produce layer published (.acquire expert 0), .none)
        else some (.produce layer published (.acquire expert (next + 1)), .none)
      else some (throwIfPoisoned shared .catches (.produce layer published (.write expert)))
  | .acquire _ _, choice =>
      interrupt cfg shared rank .catches "all ranks acknowledging a reused host slot" choice
  | .write expert, .go => some (.produce layer published (.writing expert), .beginWrite (slotOf expert))
  | .writing expert, .go =>
      some (.produce layer published (.draw expert), .endWrite (slotOf expert) layer.epoch expert)
  | .writing _, .fail what => some (.caught what, .fail .writer layer.epoch)
  | .draw expert, .go =>
      some (.produce layer published (.storeEpoch expert (shared.control.nextSequence + 1)), .draw)
  | .storeEpoch expert sequence, .go =>
      some (.produce layer published (.storeExpert expert sequence),
        .storeReadyEpoch (slotOf expert) layer.epoch)
  | .storeExpert expert sequence, .go =>
      some (.produce layer published (.storeSequence expert sequence),
        .storeReadyExpert (slotOf expert) expert)
  | .storeSequence expert sequence, .go =>
      some (loopHead layer (Function.update published (slotOf expert) sequence) (expert + 1),
        .storeReadySequence (slotOf expert) sequence)
  | .drain slot next, .go =>
      if next < cfg.tpSize then
        if shared.control.ackSequence next slot < published slot then
          some (.produce layer published (.drain slot 0), .none)
        else some (.produce layer published (.drain slot (next + 1)), .none)
      else some (throwIfPoisoned shared .catches (.produce layer published (drainFrom published (slot + 1))))
  | .drain _ _, choice =>
      interrupt cfg shared rank .catches "all ranks acknowledging a reused host slot" choice
  | .storeDone, .go => some (.finish false, .storeProduced layer.epoch)
  | _, _ => none

def closeNext (worker : Position) : Close → Choice → Option (Position × Effect)
  | .begin, .go =>
      if shared.closed rank then some (.exited, .none) else some (.close .readActive, .markClosed)
  | .readActive, .go => some (.close (.readDone shared.control.activeEpoch), .none)
  | .readDone active, .go =>
      if active ≠ 0 ∧ shared.control.consumerDoneEpoch rank < active then some (.close .readPoison, .none)
      else some (.close .stop, .none)
  | .readPoison, .go =>
      if shared.healthy then
        some (poisonAndThrow rank .closedWhileActive "transport closed while a layer was active" .closes)
      else some (.close .stop, .none)
  | .stop, .go => some (.close .joinWorker, .markStopping)
  | .joinWorker, .go =>
      match worker with
      | .exited => some (.exited, .none)
      | _ => none
  | _, _ => none

def pollNext : Poll → Choice → Option (Position × Effect)
  | .checkStopping, .go =>
      if shared.stopping rank then some (.exited, .none) else some (.poll .readActive, .none)
  | .readActive, .go =>
      if shared.control.activeEpoch = 0 ∨ shared.control.activeEpoch ≤ shared.completedEpoch rank then
        some (.poll .clear, .none)
      else some (.poll (.readJoin shared.control.activeEpoch), .none)
  | .readJoin epoch, .go =>
      if shared.control.joinEpoch rank = epoch then some (.poll (.readCount epoch), .none)
      else some (.poll .clear, .none)
  | .clear, .go => some (throwIfPoisoned shared .handles (.poll .checkStopping))
  | .readCount epoch, .go =>
      if shared.control.expertCount = 0 ∨ cfg.numExperts < shared.control.expertCount then
        some (poisonAndThrow rank .protocol "consumer observed an invalid expert_count" .handles)
      else some (.consume ⟨epoch, shared.control.expertCount, 0⟩ .awaitActive, .none)
  | _, _ => none

/-- The largest `uintptr_t`. -/
def pointerMax : Nat :=
  2 ^ 64 - 1

def transferOf (epoch expert kind : Nat) : Transfer :=
  ⟨epoch, expert, kind, cfg.localGpuPtrs rank kind + expert * cfg.expertNbytes kind⟩

def consumeNext (batch : Batch) : Consume → Choice → Option (Position × Effect)
  | .awaitActive, .go =>
      if batch.epoch < shared.control.activeEpoch then
        some (poisonAndThrow rank .protocol "active epoch advanced before consumer completed" .handles)
      else some (.consume batch .awaitSequence, .none)
  | .awaitSequence, .go =>
      let sequence := (shared.control.ready (slotOf batch.expert)).sequence
      if sequence = shared.lastReadySequence rank (slotOf batch.expert) then
        some (.consume batch .awaitActive, .none)
      else some (.consume batch (.compareEpoch sequence), .none)
  | .compareEpoch sequence, .go =>
      if (shared.control.ready (slotOf batch.expert)).epoch = batch.epoch then
        some (.consume batch (.compareExpert sequence), .none)
      else some (.consume batch .awaitActive, .none)
  | .compareExpert sequence, .go =>
      if (shared.control.ready (slotOf batch.expert)).expertId = batch.expert then
        some (.consume batch (.clearReady sequence), .none)
      else some (.consume batch .awaitActive, .none)
  | .awaitActive, choice | .awaitSequence, choice =>
      interrupt cfg shared rank .handles "the next expert generation" choice
  | .clearReady sequence, .go =>
      some (throwIfPoisoned shared .handles (.consume batch (.issue sequence 0)))
  | .issue sequence kind, .go =>
      if kind < bufferKinds then
        if pointerMax / cfg.numExperts < cfg.expertNbytes kind then
          some (.failed "FP8 layerwise GPU expert offset overflows uintptr_t", .fail .copy batch.epoch)
        else some (.consume batch (.issue sequence (kind + 1)),
          .issue (transferOf cfg rank batch.epoch batch.expert kind))
      else some (.consume batch (.awaitEvent sequence), .none)
  | .issue _ _, .fail what => some (.failed what, .fail .copy batch.epoch)
  | .awaitEvent sequence, .go =>
      if shared.stream rank = [] then some (.consume batch (.clearEvent sequence), .none)
      else some (.consume batch (.awaitEvent sequence), .none)
  | .awaitEvent _, .fail what => some (.failed what, .fail .copy batch.epoch)
  | .awaitEvent _, choice =>
      interrupt cfg shared rank .handles "the local H2D completion event" choice
  | .clearEvent sequence, .go =>
      some (throwIfPoisoned shared .handles (.consume batch (.acknowledge sequence)))
  | .acknowledge sequence, .go =>
      some (if batch.expert + 1 < batch.expertCount then
          .consume { batch with expert := batch.expert + 1 } .awaitActive
        else .consume batch .storeDone,
        .acknowledge batch.epoch batch.expert sequence)
  | .storeDone, .go => some (.poll .checkStopping, .storeDone batch.epoch)
  | _, _ => none

def publishNext (error : ErrorRecord) (next : Next) : PublishStage → Choice → Option (Position × Effect)
  | .claim, .go =>
      some (if shared.healthy then .publish .code error next else next.resume error.message, .claim error)
  | .code, .go => some (.publish .rank error next, .storeCode error.code)
  | .rank, .go => some (.publish .message error next, .storeRank error.rank)
  | .message, .go => some (.publish .release error next, .storeMessage error.message)
  | .release, .go => some (next.resume error.message, .release)
  | _, _ => none

def poisonText (record : ErrorRecord) : String :=
  "FP8 layerwise transport poisoned (code=" ++ toString record.code.value ++ ", rank=" ++
    toString record.rank ++ ")" ++
    if record.message.isEmpty then "" else ": " ++ record.message

def reportNext (next : Next) : ReportStage → Choice → Option (Position × Effect)
  | .settle, .go =>
      if shared.control.poisonState = .claimed then some (.report .settle next, .none)
      else some (.report .code next, .none)
  | .settle, .timeout =>
      if shared.control.poisonState = .claimed then
        some (next.resume ("FP8 layerwise transport poisoned, but poison publication did not " ++
          "complete (claim owner may have died)"), .none)
      else some (.report .code next, .none)
  | .code, .go => some (.report (.rank shared.control.errorCode) next, .none)
  | .rank code, .go => some (.report (.message code shared.control.errorRank) next, .none)
  | .message code rank, .go =>
      let record := ⟨code, rank, shared.control.errorMessage⟩
      some (next.resume (poisonText record), .see record)
  | _, _ => none

def threadNext (worker : Position) (choice : Choice) : Position → Option (Position × Effect)
  | .idle | .exited => none
  | .enter call => some (if shared.closed rank then .finish true else .check call, .none)
  | .check call => some (throwIfPoisoned shared .throws (dispatch cfg rank call))
  | .join layer stage => joinNext cfg shared rank layer stage choice
  | .wait epoch stats stage => waitNext cfg shared rank epoch stats stage choice
  | .produce layer published stage => produceNext cfg shared rank layer published stage choice
  | .caught what =>
      some (if shared.healthy then poisonAndThrow rank .writer what .rethrows else (.finish true, .none))
  | .finish threw => some (.idle, .settle threw)
  | .close stage => closeNext shared rank worker stage choice
  | .poll stage => pollNext cfg shared rank stage choice
  | .consume batch stage => consumeNext cfg shared rank batch stage choice
  | .failed what =>
      some (if shared.stopping rank then (.exited, .none)
        else poisonAndThrow rank .cudaCopy what .exits)
  | .publish stage error next => publishNext shared error next stage choice
  | .report stage next => reportNext shared next stage choice

end

def step (cfg : Config) (state : State) : Action → Option State
  | .call rank call =>
      match state.position ⟨.caller, rank⟩ with
      | .idle =>
          if rank < cfg.tpSize then
            some
              { shared := { state.shared with
                  history.late := Function.update state.shared.history.late rank (!state.shared.healthy) }
                position := Function.update state.position ⟨.caller, rank⟩ (.enter call) }
          else none
      | _ => none
  | .move party choice =>
      if party.rank < cfg.tpSize then
        (threadNext cfg state.shared party.rank (state.position ⟨.consumer, party.rank⟩) choice
          (state.position party)).map fun (position, effect) =>
          { shared := state.shared.apply cfg party.rank effect
            position := Function.update state.position party position }
      else none
  | .device rank => (state.shared.copy rank).map fun shared => { state with shared := shared }

/-- After `initialize_fp8_layerwise_control` and the constructors. -/
def start : State where
  position party :=
    match party.role with
    | .caller => .idle
    | .closer => .close .begin
    | .consumer => .poll .checkStopping

def machine (cfg : Config) : Machine State Action where
  initial state := state = start
  step := step cfg

end KtKernel.Transport
