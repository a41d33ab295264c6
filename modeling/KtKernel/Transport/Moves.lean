import KtKernel.Data.Outline
import KtKernel.Transport.Basic

namespace KtKernel.Transport

open KtKernel.Data

/-! What one step of a thread can do, as a relation with the facts the step has
read.  The ways out of a wait and the failed checks are the same for all
positions with the same handler.
-/

/-- Where an exception thrown at a position goes. -/
def Position.handler : Position → Option Next
  | .check _ => some .throws
  | .join _ stage =>
      match stage with
      | .storeLayerId | .storeExpertCount | .storeActive | .storeJoin => none
      | _ => some .throws
  | .wait _ _ stage =>
      match stage with
      | .readJoin | .awaitDone | .awaitProduced | .clear => some .throws
      | _ => none
  | .produce _ _ stage =>
      match stage with
      | .matchActive | .matchLayerId | .matchExpertCount | .matchJoin => some .throws
      | .scanJoined _ | .acquire _ _ | .drain _ _ => some .catches
      | _ => none
  | .poll _ => some .handles
  | .consume _ stage =>
      match stage with
      | .acknowledge _ | .storeDone => none
      | _ => some .handles
  | _ => none

/-- Where a failed check that is no exception publishes. -/
def Position.publisher : Position → Option Next
  | .caught _ => some .rethrows
  | .failed _ => some .exits
  | .close .readPoison => some .closes
  | .check _ => none
  | position => position.handler

inductive Move (cfg : Config) (shared : Shared) (rank : Nat) : Position → Position → Effect → Prop
  | refuse : Move cfg shared rank (.enter call) (.finish true) .none
  | enter : Move cfg shared rank (.enter call) (.check call) .none
  | reject : Move cfg shared rank (.check call) (.finish true) .none
  | beginJoin (healthy : shared.healthy = true) (first : rank = 0) :
      Move cfg shared rank (.check (.join layer)) (.join layer .readActive) .none
  | beginAwait (healthy : shared.healthy = true) :
      Move cfg shared rank (.check (.join layer)) (.join layer .awaitActive) .none
  | beginWait (healthy : shared.healthy = true) :
      Move cfg shared rank (.check (.wait epoch)) (.wait epoch {} .readJoin) .none
  | beginProduce (healthy : shared.healthy = true) (first : rank = 0) (counted : 0 < layer.expertCount) :
      Move cfg shared rank (.check (.runProducer layer)) (.produce layer (fun _ => 0) .matchActive) .none
  | poisoned (handler : position.handler = some next) (sick : shared.healthy = false) :
      Move cfg shared rank position (.report .settle next) .none
  | stopping (handler : position.handler = some next) (stopping : shared.stopping rank = true) :
      Move cfg shared rank position (next.resume what) .none
  | abort (handler : position.publisher = some next) :
      Move cfg shared rank position (.publish .claim error next) .none
  | joinFirst (later : shared.control.activeEpoch < layer.epoch) (fresh : shared.control.activeEpoch = 0) :
      Move cfg shared rank (.join layer .readActive) (.join layer .storeLayerId) .none
  | joinScan (later : shared.control.activeEpoch < layer.epoch) :
      Move cfg shared rank (.join layer .readActive)
        (.join layer (.scanReturned shared.control.activeEpoch 0)) .none
  | returnedAgain : Move cfg shared rank (.join layer (.scanReturned previous index))
      (.join layer (.scanReturned previous 0)) .none
  | returnedNext (inside : index < cfg.tpSize)
      (returned : previous ≤ shared.control.waitReturnedEpoch index) :
      Move cfg shared rank (.join layer (.scanReturned previous index))
        (.join layer (.scanReturned previous (index + 1))) .none
  | returnedAll (all : cfg.tpSize ≤ index) (healthy : shared.healthy = true) :
      Move cfg shared rank (.join layer (.scanReturned previous index)) (.join layer .storeLayerId) .none
  | storeLayerId : Move cfg shared rank (.join layer .storeLayerId) (.join layer .storeExpertCount)
      (.storeLayerId layer.layerId)
  | storeExpertCount : Move cfg shared rank (.join layer .storeExpertCount) (.join layer .storeActive)
      (.storeExpertCount layer.expertCount)
  | storeActive : Move cfg shared rank (.join layer .storeActive) (.join layer .storeJoin)
      (.storeActive layer)
  | activeAgain : Move cfg shared rank (.join layer .awaitActive) (.join layer .awaitActive) .none
  | activeFound (found : shared.control.activeEpoch = layer.epoch) :
      Move cfg shared rank (.join layer .awaitActive) (.join layer .clearActive) .none
  | activeClear (healthy : shared.healthy = true) :
      Move cfg shared rank (.join layer .clearActive) (.join layer .compareLayerId) .none
  | sameLayerId : Move cfg shared rank (.join layer .compareLayerId) (.join layer .compareExpertCount) .none
  | sameExpertCount (same : shared.control.expertCount = layer.expertCount) :
      Move cfg shared rank (.join layer .compareExpertCount) (.join layer .storeJoin) .none
  | storeJoin : Move cfg shared rank (.join layer .storeJoin) (.finish false) (.storeJoin layer.epoch)
  | joined (used : epoch ≠ 0) (same : shared.control.joinEpoch rank = epoch) :
      Move cfg shared rank (.wait epoch stats .readJoin) (.wait epoch stats .awaitDone) .none
  | waitAgain (polling : stage = .awaitDone ∨ stage = .awaitProduced) :
      Move cfg shared rank (.wait epoch stats stage) (.wait epoch stats .awaitDone) .none
  | consumed (done : epoch ≤ shared.control.consumerDoneEpoch rank) :
      Move cfg shared rank (.wait epoch stats .awaitDone) (.wait epoch stats .awaitProduced) .none
  | produced (done : epoch ≤ shared.control.producerDoneEpoch) :
      Move cfg shared rank (.wait epoch stats .awaitProduced) (.wait epoch stats .clear) .none
  | waitClear (healthy : shared.healthy = true) :
      Move cfg shared rank (.wait epoch stats .clear) (.wait epoch stats .readLayerId) .none
  | readLayerId : Move cfg shared rank (.wait epoch stats .readLayerId)
      (.wait epoch { stats with layerId := shared.control.layerId } .readExpertCount) .none
  | readExpertCount : Move cfg shared rank (.wait epoch stats .readExpertCount)
      (.wait epoch { stats with expertCount := shared.control.expertCount } .readPoison) .none
  | readPoison : Move cfg shared rank (.wait epoch stats .readPoison)
      (.wait epoch { stats with poison := shared.control.poisonState } .readCode) .none
  | readCode : Move cfg shared rank (.wait epoch stats .readCode)
      (.wait epoch { stats with error.code := shared.control.errorCode } .readRank) .none
  | readRank : Move cfg shared rank (.wait epoch stats .readRank)
      (.wait epoch { stats with error.rank := shared.control.errorRank } .readMessage) .none
  | readMessage (clean : stats.poison ≠ .poisoned) :
      Move cfg shared rank (.wait epoch stats .readMessage)
        (.wait epoch { stats with error.message := shared.control.errorMessage } .storeReturned) .none
  | readMessageSeen (sick : stats.poison = .poisoned) :
      Move cfg shared rank (.wait epoch stats .readMessage)
        (.wait epoch { stats with error.message := shared.control.errorMessage } .storeReturned)
        (.see { stats.error with message := shared.control.errorMessage })
  | storeReturned : Move cfg shared rank (.wait epoch stats .storeReturned) (.finish false)
      (.storeReturned epoch stats.poisoned)
  | matchActive (same : shared.control.activeEpoch = layer.epoch) :
      Move cfg shared rank (.produce layer published .matchActive)
        (.produce layer published .matchLayerId) .none
  | matchLayerId : Move cfg shared rank (.produce layer published .matchLayerId)
      (.produce layer published .matchExpertCount) .none
  | matchExpertCount (same : shared.control.expertCount = layer.expertCount) :
      Move cfg shared rank (.produce layer published .matchExpertCount)
        (.produce layer published .matchJoin) .none
  | matchJoin : Move cfg shared rank (.produce layer published .matchJoin)
      (.produce layer published (.scanJoined 0)) .none
  | joinedAgain : Move cfg shared rank (.produce layer published (.scanJoined index))
      (.produce layer published (.scanJoined 0)) .none
  | joinedNext (joined : shared.control.joinEpoch index = layer.epoch) :
      Move cfg shared rank (.produce layer published (.scanJoined index))
        (.produce layer published (.scanJoined (index + 1))) .none
  | joinedAll (healthy : shared.healthy = true) :
      Move cfg shared rank (.produce layer published (.scanJoined index)) (loopHead layer published 0) .none
  | acquireAgain : Move cfg shared rank (.produce layer published (.acquire expert index))
      (.produce layer published (.acquire expert 0)) .none
  | acquireNext (inside : index < cfg.tpSize)
      (acked : published (slotOf expert) ≤ shared.control.ackSequence index (slotOf expert)) :
      Move cfg shared rank (.produce layer published (.acquire expert index))
        (.produce layer published (.acquire expert (index + 1))) .none
  | acquireAll (all : cfg.tpSize ≤ index) (healthy : shared.healthy = true) :
      Move cfg shared rank (.produce layer published (.acquire expert index))
        (.produce layer published (.write expert)) .none
  | write : Move cfg shared rank (.produce layer published (.write expert))
      (.produce layer published (.writing expert)) (.beginWrite (slotOf expert))
  | written : Move cfg shared rank (.produce layer published (.writing expert))
      (.produce layer published (.draw expert)) (.endWrite (slotOf expert) layer.epoch expert)
  | writerFailed : Move cfg shared rank (.produce layer published (.writing expert)) (.caught what)
      (.fail .writer layer.epoch)
  | draw : Move cfg shared rank (.produce layer published (.draw expert))
      (.produce layer published (.storeEpoch expert (shared.control.nextSequence + 1))) .draw
  | storeEpoch {sequence : Nat} : Move cfg shared rank (.produce layer published (.storeEpoch expert sequence))
      (.produce layer published (.storeExpert expert sequence))
      (.storeReadyEpoch (slotOf expert) layer.epoch)
  | storeExpert {sequence : Nat} : Move cfg shared rank (.produce layer published (.storeExpert expert sequence))
      (.produce layer published (.storeSequence expert sequence))
      (.storeReadyExpert (slotOf expert) expert)
  | storeSequence {sequence : Nat} : Move cfg shared rank (.produce layer published (.storeSequence expert sequence))
      (loopHead layer (Function.update published (slotOf expert) sequence) (expert + 1))
      (.storeReadySequence (slotOf expert) sequence)
  | drainAgain : Move cfg shared rank (.produce layer published (.drain slot index))
      (.produce layer published (.drain slot 0)) .none
  | drainNext (inside : index < cfg.tpSize) (acked : published slot ≤ shared.control.ackSequence index slot) :
      Move cfg shared rank (.produce layer published (.drain slot index))
        (.produce layer published (.drain slot (index + 1))) .none
  | drainAll (all : cfg.tpSize ≤ index) (healthy : shared.healthy = true) :
      Move cfg shared rank (.produce layer published (.drain slot index))
        (.produce layer published (drainFrom published (slot + 1))) .none
  | storeProduced : Move cfg shared rank (.produce layer published .storeDone) (.finish false)
      (.storeProduced layer.epoch)
  | rethrow (sick : shared.healthy = false) : Move cfg shared rank (.caught what) (.finish true) .none
  | settle : Move cfg shared rank (.finish threw) .idle (.settle threw)
  | closedAlready : Move cfg shared rank (.close .begin) .exited .none
  | markClosed : Move cfg shared rank (.close .begin) (.close .readActive) .markClosed
  | closeOn (on : after ≠ .begin) : Move cfg shared rank (.close stage) (.close after) .none
  | markStopping : Move cfg shared rank (.close .stop) (.close .joinWorker) .markStopping
  | closeDone : Move cfg shared rank (.close .joinWorker) .exited .none
  | leave (stopping : shared.stopping rank = true) :
      Move cfg shared rank (.poll .checkStopping) .exited .none
  | pollOn (stage : Poll) (plain : after = .readActive ∨ after = .clear ∨ after = .checkStopping) :
      Move cfg shared rank (.poll stage) (.poll after) .none
  | pollActive (later : shared.completedEpoch rank < shared.control.activeEpoch) :
      Move cfg shared rank (.poll .readActive) (.poll (.readJoin shared.control.activeEpoch)) .none
  | pollJoined (joined : shared.control.joinEpoch rank = epoch) :
      Move cfg shared rank (.poll (.readJoin epoch)) (.poll (.readCount epoch)) .none
  | beginConsume (counted : 0 < shared.control.expertCount) (within : shared.control.expertCount ≤ cfg.numExperts) :
      Move cfg shared rank (.poll (.readCount epoch))
        (.consume ⟨epoch, shared.control.expertCount, 0⟩ .awaitActive) .none
  | consumeAgain (polling : stage = .awaitSequence ∨ (∃ sequence, stage = .compareEpoch sequence) ∨
        ∃ sequence, stage = .compareExpert sequence) :
      Move cfg shared rank (.consume batch stage) (.consume batch .awaitActive) .none
  | consumeOn : Move cfg shared rank (.consume batch .awaitActive) (.consume batch .awaitSequence) .none
  | sequenceFound (new : (shared.control.ready (slotOf batch.expert)).sequence ≠
        shared.lastReadySequence rank (slotOf batch.expert)) :
      Move cfg shared rank (.consume batch .awaitSequence)
        (.consume batch (.compareEpoch (shared.control.ready (slotOf batch.expert)).sequence)) .none
  | sameEpoch {sequence : Nat} (same : (shared.control.ready (slotOf batch.expert)).epoch = batch.epoch) :
      Move cfg shared rank (.consume batch (.compareEpoch sequence))
        (.consume batch (.compareExpert sequence)) .none
  | sameExpert {sequence : Nat} (same : (shared.control.ready (slotOf batch.expert)).expertId = batch.expert) :
      Move cfg shared rank (.consume batch (.compareExpert sequence))
        (.consume batch (.clearReady sequence)) .none
  | readyClear {sequence : Nat} : Move cfg shared rank (.consume batch (.clearReady sequence))
      (.consume batch (.issue sequence 0)) .none
  | issue {sequence : Nat} (inside : kind < bufferKinds) : Move cfg shared rank (.consume batch (.issue sequence kind))
      (.consume batch (.issue sequence (kind + 1)))
      (.issue (transferOf cfg rank batch.epoch batch.expert kind))
  | copyFailed (copying : (∃ sequence kind, stage = .issue sequence kind) ∨
        ∃ sequence, stage = .awaitEvent sequence) :
      Move cfg shared rank (.consume batch stage) (.failed what) (.fail .copy batch.epoch)
  | record {sequence : Nat} (all : bufferKinds ≤ kind) : Move cfg shared rank (.consume batch (.issue sequence kind))
      (.consume batch (.awaitEvent sequence)) .none
  | eventAgain {sequence : Nat} : Move cfg shared rank (.consume batch (.awaitEvent sequence))
      (.consume batch (.awaitEvent sequence)) .none
  | eventDone {sequence : Nat} (drained : shared.stream rank = []) :
      Move cfg shared rank (.consume batch (.awaitEvent sequence))
        (.consume batch (.clearEvent sequence)) .none
  | eventClear {sequence : Nat} : Move cfg shared rank (.consume batch (.clearEvent sequence))
      (.consume batch (.acknowledge sequence)) .none
  | acknowledge {sequence : Nat} (more : batch.expert + 1 < batch.expertCount) :
      Move cfg shared rank (.consume batch (.acknowledge sequence))
        (.consume { batch with expert := batch.expert + 1 } .awaitActive)
        (.acknowledge batch.epoch batch.expert sequence)
  | acknowledgeLast {sequence : Nat} (last : batch.expertCount ≤ batch.expert + 1) :
      Move cfg shared rank (.consume batch (.acknowledge sequence)) (.consume batch .storeDone)
        (.acknowledge batch.epoch batch.expert sequence)
  | storeDone : Move cfg shared rank (.consume batch .storeDone) (.poll .checkStopping)
      (.storeDone batch.epoch)
  | abandon (stopping : shared.stopping rank = true) : Move cfg shared rank (.failed what) .exited .none
  | claim (healthy : shared.healthy = true) :
      Move cfg shared rank (.publish .claim error next) (.publish .code error next) (.claim error)
  | claimLost (sick : shared.healthy = false) :
      Move cfg shared rank (.publish .claim error next) (next.resume error.message) (.claim error)
  | storeCode : Move cfg shared rank (.publish .code error next) (.publish .rank error next)
      (.storeCode error.code)
  | storeRank : Move cfg shared rank (.publish .rank error next) (.publish .message error next)
      (.storeRank error.rank)
  | storeMessage : Move cfg shared rank (.publish .message error next) (.publish .release error next)
      (.storeMessage error.message)
  | release : Move cfg shared rank (.publish .release error next) (next.resume error.message) .release
  | settleAgain : Move cfg shared rank (.report .settle next) (.report .settle next) .none
  | settled (published : shared.control.poisonState ≠ .claimed) :
      Move cfg shared rank (.report .settle next) (.report .code next) .none
  | unsettled (claimed : shared.control.poisonState = .claimed) :
      Move cfg shared rank (.report .settle next) (next.resume what) .none
  | reportCode : Move cfg shared rank (.report .code next)
      (.report (.rank shared.control.errorCode) next) .none
  | reportRank : Move cfg shared rank (.report (.rank code) next)
      (.report (.message code shared.control.errorRank) next) .none
  | reportMessage : Move cfg shared rank (.report (.message code errorRank) next)
      (next.resume (poisonText ⟨code, errorRank, shared.control.errorMessage⟩))
      (.see ⟨code, errorRank, shared.control.errorMessage⟩)

section

variable {cfg : Config} {shared : Shared} {rank : Nat}

theorem interrupt_move (handler : position.handler = some next)
    (publisher : position.publisher = some next)
    (moved : interrupt cfg shared rank next description choice = some (reached, effect)) :
    Move cfg shared rank position reached effect := by
  cases choice <;> simp only [interrupt, reduceCtorEq] at moved
  case poisoned =>
    split at moved <;> cases moved
    exact .poisoned handler (Bool.eq_false_iff.mpr ‹_›)
  case stopping =>
    split at moved <;> cases moved
    exact .stopping handler ‹_›
  case timeout =>
    cases moved
    exact .abort publisher

theorem throwIfPoisoned_move (handler : position.handler = some next)
    (clear : shared.healthy = true → Move cfg shared rank position reached .none) :
    Move cfg shared rank position (throwIfPoisoned shared next reached).1
      (throwIfPoisoned shared next reached).2 := by
  unfold throwIfPoisoned
  cases healthy : shared.healthy with
  | true => exact clear healthy
  | false => exact .poisoned handler healthy

theorem joinNext_move (moved : joinNext cfg shared rank layer stage choice = some (reached, effect)) :
    Move cfg shared rank (.join layer stage) reached effect := by
  cases stage with
  | readActive =>
      cases choice <;> simp only [joinNext, reduceCtorEq] at moved
      split at moved
      · cases moved
        exact .abort rfl
      · split at moved
        · cases moved
          exact .joinFirst (by omega) ‹_›
        · cases moved
          exact .joinScan (by omega)
  | scanReturned previous index =>
      cases choice <;> simp only [joinNext] at moved
      case go =>
        split at moved
        · split at moved
          · cases moved
            exact .returnedAgain
          · cases moved
            exact .returnedNext ‹_› (by omega)
        · obtain ⟨rfl, rfl⟩ := Prod.mk.inj (Option.some.inj moved)
          exact throwIfPoisoned_move rfl fun healthy => .returnedAll (by omega) healthy
      all_goals exact interrupt_move rfl rfl moved
  | storeLayerId =>
      cases choice <;> cases moved
      exact .storeLayerId
  | storeExpertCount =>
      cases choice <;> cases moved
      exact .storeExpertCount
  | storeActive =>
      cases choice <;> cases moved
      exact .storeActive
  | awaitActive =>
      cases choice <;> simp only [joinNext] at moved
      case go =>
        split at moved
        · cases moved
          exact .abort rfl
        · split at moved
          · cases moved
            exact .activeFound ‹_›
          · cases moved
            exact .activeAgain
      all_goals exact interrupt_move rfl rfl moved
  | clearActive =>
      cases choice <;> simp only [joinNext, reduceCtorEq] at moved
      obtain ⟨rfl, rfl⟩ := Prod.mk.inj (Option.some.inj moved)
      exact throwIfPoisoned_move rfl .activeClear
  | compareLayerId =>
      cases choice <;> simp only [joinNext, reduceCtorEq] at moved
      split at moved <;> cases moved
      · exact .sameLayerId
      · exact .abort rfl
  | compareExpertCount =>
      cases choice <;> simp only [joinNext, reduceCtorEq] at moved
      split at moved <;> cases moved
      · exact .sameExpertCount ‹_›
      · exact .abort rfl
  | storeJoin =>
      cases choice <;> cases moved
      exact .storeJoin

theorem waitNext_move (moved : waitNext cfg shared rank epoch stats stage choice = some (reached, effect)) :
    Move cfg shared rank (.wait epoch stats stage) reached effect := by
  cases stage with
  | readJoin =>
      cases choice <;> simp only [waitNext, reduceCtorEq] at moved
      split at moved
      · cases moved
        exact .abort rfl
      · cases moved
        have joined := not_or.mp ‹_›
        exact .joined joined.1 (not_not.mp joined.2)
  | awaitDone =>
      cases choice <;> simp only [waitNext] at moved
      case go =>
        split at moved <;> cases moved
        · exact .consumed ‹_›
        · exact .waitAgain (.inl rfl)
      all_goals exact interrupt_move rfl rfl moved
  | awaitProduced =>
      cases choice <;> simp only [waitNext] at moved
      case go =>
        split at moved <;> cases moved
        · exact .produced ‹_›
        · exact .waitAgain (.inr rfl)
      all_goals exact interrupt_move rfl rfl moved
  | clear =>
      cases choice <;> simp only [waitNext, reduceCtorEq] at moved
      obtain ⟨rfl, rfl⟩ := Prod.mk.inj (Option.some.inj moved)
      exact throwIfPoisoned_move rfl .waitClear
  | readLayerId =>
      cases choice <;> cases moved
      exact .readLayerId
  | readExpertCount =>
      cases choice <;> cases moved
      exact .readExpertCount
  | readPoison =>
      cases choice <;> cases moved
      exact .readPoison
  | readCode =>
      cases choice <;> cases moved
      exact .readCode
  | readRank =>
      cases choice <;> cases moved
      exact .readRank
  | readMessage =>
      cases choice <;> simp only [waitNext, reduceCtorEq] at moved
      obtain ⟨rfl, rfl⟩ := Prod.mk.inj (Option.some.inj moved)
      split
      · exact .readMessageSeen ‹_›
      · exact .readMessage ‹_›
  | storeReturned =>
      cases choice <;> cases moved
      exact .storeReturned

theorem produceNext_move
    (moved : produceNext cfg shared rank layer published stage choice = some (reached, effect)) :
    Move cfg shared rank (.produce layer published stage) reached effect := by
  cases stage with
  | matchActive =>
      cases choice <;> simp only [produceNext, reduceCtorEq] at moved
      split at moved <;> cases moved
      · exact .matchActive ‹_›
      · exact .abort rfl
  | matchLayerId =>
      cases choice <;> simp only [produceNext, reduceCtorEq] at moved
      split at moved <;> cases moved
      · exact .matchLayerId
      · exact .abort rfl
  | matchExpertCount =>
      cases choice <;> simp only [produceNext, reduceCtorEq] at moved
      split at moved <;> cases moved
      · exact .matchExpertCount ‹_›
      · exact .abort rfl
  | matchJoin =>
      cases choice <;> simp only [produceNext, reduceCtorEq] at moved
      split at moved <;> cases moved
      · exact .matchJoin
      · exact .abort rfl
  | scanJoined index =>
      cases choice <;> simp only [produceNext] at moved
      case go =>
        split at moved
        · split at moved <;> cases moved
          · exact .joinedNext ‹_›
          · exact .joinedAgain
        · obtain ⟨rfl, rfl⟩ := Prod.mk.inj (Option.some.inj moved)
          exact throwIfPoisoned_move rfl .joinedAll
      all_goals exact interrupt_move rfl rfl moved
  | acquire expert index =>
      cases choice <;> simp only [produceNext] at moved
      case go =>
        split at moved
        · split at moved <;> cases moved
          · exact .acquireAgain
          · exact .acquireNext ‹_› (by omega)
        · obtain ⟨rfl, rfl⟩ := Prod.mk.inj (Option.some.inj moved)
          exact throwIfPoisoned_move rfl (.acquireAll (by omega))
      all_goals exact interrupt_move rfl rfl moved
  | write expert =>
      cases choice <;> cases moved
      exact .write
  | writing expert =>
      cases choice <;> cases moved
      · exact .written
      · exact .writerFailed
  | draw expert =>
      cases choice <;> cases moved
      exact .draw
  | storeEpoch expert sequence =>
      cases choice <;> cases moved
      exact .storeEpoch
  | storeExpert expert sequence =>
      cases choice <;> cases moved
      exact .storeExpert
  | storeSequence expert sequence =>
      cases choice <;> cases moved
      exact .storeSequence
  | drain slot index =>
      cases choice <;> simp only [produceNext] at moved
      case go =>
        split at moved
        · split at moved <;> cases moved
          · exact .drainAgain
          · exact .drainNext ‹_› (by omega)
        · obtain ⟨rfl, rfl⟩ := Prod.mk.inj (Option.some.inj moved)
          exact throwIfPoisoned_move rfl (.drainAll (by omega))
      all_goals exact interrupt_move rfl rfl moved
  | storeDone =>
      cases choice <;> cases moved
      exact .storeProduced

theorem closeNext_move (moved : closeNext shared rank worker stage choice = some (reached, effect)) :
    Move cfg shared rank (.close stage) reached effect := by
  cases stage <;> cases choice <;> simp only [closeNext, reduceCtorEq] at moved
  case begin.go =>
    split at moved <;> cases moved
    · exact .closedAlready
    · exact .markClosed
  case readActive.go =>
    cases moved
    exact .closeOn (by nofun)
  case readDone.go =>
    split at moved <;> cases moved
    · exact .closeOn (by nofun)
    · exact .closeOn (by nofun)
  case readPoison.go =>
    split at moved <;> cases moved
    · exact .abort rfl
    · exact .closeOn (by nofun)
  case stop.go =>
    cases moved
    exact .markStopping
  case joinWorker.go =>
    split at moved <;> cases moved
    exact .closeDone

theorem pollNext_move (moved : pollNext cfg shared rank stage choice = some (reached, effect)) :
    Move cfg shared rank (.poll stage) reached effect := by
  cases stage <;> cases choice <;> simp only [pollNext, reduceCtorEq] at moved
  case checkStopping.go =>
    split at moved <;> cases moved
    · exact .leave ‹_›
    · exact .pollOn _ (.inl rfl)
  case readActive.go =>
    split at moved <;> cases moved
    · exact .pollOn _ (.inr (.inl rfl))
    · exact .pollActive (by omega)
  case readJoin.go =>
    split at moved <;> cases moved
    · exact .pollJoined ‹_›
    · exact .pollOn _ (.inr (.inl rfl))
  case clear.go =>
    obtain ⟨rfl, rfl⟩ := Prod.mk.inj (Option.some.inj moved)
    exact throwIfPoisoned_move rfl fun _ => .pollOn _ (.inr (.inr rfl))
  case readCount.go =>
    split at moved <;> cases moved
    · exact .abort rfl
    · exact .beginConsume (by omega) (by omega)

theorem consumeNext_move
    (moved : consumeNext cfg shared rank batch stage choice = some (reached, effect)) :
    Move cfg shared rank (.consume batch stage) reached effect := by
  cases stage with
  | awaitActive =>
      cases choice <;> simp only [consumeNext] at moved
      case go =>
        split at moved <;> cases moved
        · exact .abort rfl
        · exact .consumeOn
      all_goals exact interrupt_move rfl rfl moved
  | awaitSequence =>
      cases choice <;> simp only [consumeNext] at moved
      case go =>
        split at moved <;> cases moved
        · exact .consumeAgain (.inl rfl)
        · exact .sequenceFound ‹_›
      all_goals exact interrupt_move rfl rfl moved
  | compareEpoch sequence =>
      cases choice <;> simp only [consumeNext, reduceCtorEq] at moved
      split at moved <;> cases moved
      · exact .sameEpoch ‹_›
      · exact .consumeAgain (.inr (.inl ⟨_, rfl⟩))
  | compareExpert sequence =>
      cases choice <;> simp only [consumeNext, reduceCtorEq] at moved
      split at moved <;> cases moved
      · exact .sameExpert ‹_›
      · exact .consumeAgain (.inr (.inr ⟨_, rfl⟩))
  | clearReady sequence =>
      cases choice <;> simp only [consumeNext, reduceCtorEq] at moved
      obtain ⟨rfl, rfl⟩ := Prod.mk.inj (Option.some.inj moved)
      exact throwIfPoisoned_move rfl fun _ => .readyClear
  | issue sequence kind =>
      cases choice <;> simp only [consumeNext, reduceCtorEq] at moved
      case go =>
        split at moved
        · split at moved <;> cases moved
          · exact .copyFailed (.inl ⟨_, _, rfl⟩)
          · exact .issue ‹_›
        · cases moved
          exact .record (by omega)
      case fail =>
        cases moved
        exact .copyFailed (.inl ⟨_, _, rfl⟩)
  | awaitEvent sequence =>
      cases choice <;> simp only [consumeNext] at moved
      case go =>
        split at moved <;> cases moved
        · exact .eventDone ‹_›
        · exact .eventAgain
      case fail =>
        cases moved
        exact .copyFailed (.inr ⟨_, rfl⟩)
      all_goals exact interrupt_move rfl rfl moved
  | clearEvent sequence =>
      cases choice <;> simp only [consumeNext, reduceCtorEq] at moved
      obtain ⟨rfl, rfl⟩ := Prod.mk.inj (Option.some.inj moved)
      exact throwIfPoisoned_move rfl fun _ => .eventClear
  | acknowledge sequence =>
      cases choice <;> simp only [consumeNext, reduceCtorEq] at moved
      obtain ⟨rfl, rfl⟩ := Prod.mk.inj (Option.some.inj moved)
      split
      · exact .acknowledge ‹_›
      · exact .acknowledgeLast (by omega)
  | storeDone =>
      cases choice <;> cases moved
      exact .storeDone

theorem publishNext_move (moved : publishNext shared error next stage choice = some (reached, effect)) :
    Move cfg shared rank (.publish stage error next) reached effect := by
  cases stage <;> cases choice <;> simp only [publishNext, reduceCtorEq] at moved
  case claim.go =>
    cases healthy : shared.healthy <;> simp only [healthy, if_true, Bool.false_eq_true, if_false] at moved <;>
      cases moved
    · exact .claimLost healthy
    · exact .claim healthy
  all_goals cases moved
  · exact .storeCode
  · exact .storeRank
  · exact .storeMessage
  · exact .release

theorem reportNext_move (moved : reportNext shared next stage choice = some (reached, effect)) :
    Move cfg shared rank (.report stage next) reached effect := by
  cases stage <;> cases choice <;> simp only [reportNext, reduceCtorEq] at moved
  case settle.go =>
    split at moved <;> cases moved
    · exact .settleAgain
    · exact .settled ‹_›
  case settle.timeout =>
    split at moved <;> cases moved
    · exact .unsettled ‹_›
    · exact .settled ‹_›
  all_goals cases moved
  · exact .reportCode
  · exact .reportRank
  · exact .reportMessage

/-- A call that passed the checks of its entry. -/
theorem dispatch_move (healthy : shared.healthy = true) :
    Move cfg shared rank (.check call) (dispatch cfg rank call) .none := by
  cases call with
  | join layer =>
      simp only [dispatch]
      split
      · exact .reject
      · split
        · exact .beginJoin healthy ‹_›
        · exact .beginAwait healthy
  | wait epoch => exact .beginWait healthy
  | runProducer layer =>
      simp only [dispatch]
      split
      · exact .reject
      · have valid := not_or.mp ‹_›
        have valid : layer.expertCount ≠ 0 := by
          have := valid.2
          simp only [Layer.invalid, decide_eq_true_eq, not_or] at this
          exact this.2.2.1
        exact .beginProduce healthy (by omega) (by omega)

theorem threadNext_move
    (moved : threadNext cfg shared rank worker choice position = some (reached, effect)) :
    Move cfg shared rank position reached effect := by
  cases position <;> simp only [threadNext, reduceCtorEq] at moved
  case enter call =>
    split at moved <;> cases moved
    · exact .refuse
    · exact .enter
  case check call =>
    obtain ⟨rfl, rfl⟩ := Prod.mk.inj (Option.some.inj moved)
    exact throwIfPoisoned_move rfl dispatch_move
  case join => exact joinNext_move moved
  case wait => exact waitNext_move moved
  case produce => exact produceNext_move moved
  case caught what =>
    cases healthy : shared.healthy <;> simp only [healthy, if_true, Bool.false_eq_true, if_false] at moved <;>
      cases moved
    · exact .rethrow healthy
    · exact .abort rfl
  case finish =>
    cases moved
    exact .settle
  case close => exact closeNext_move moved
  case poll => exact pollNext_move moved
  case consume => exact consumeNext_move moved
  case failed what =>
    split at moved <;> cases moved
    · exact .abandon ‹_›
    · exact .abort rfl
  case publish => exact publishNext_move moved
  case report => exact reportNext_move moved

theorem step_move (moved : step cfg state (.move party choice) = some after) :
    party.rank < cfg.tpSize ∧ ∃ reached effect,
      Move cfg state.shared party.rank (state.position party) reached effect ∧
      after = ⟨state.shared.apply cfg party.rank effect, Function.update state.position party reached⟩ := by
  unfold step at moved
  dsimp only at moved
  split at moved
  · obtain ⟨⟨reached, effect⟩, found, rfl⟩ := Option.map_eq_some_iff.mp moved
    exact ⟨‹_›, reached, effect, threadNext_move found, rfl⟩
  · contradiction

end

end KtKernel.Transport
