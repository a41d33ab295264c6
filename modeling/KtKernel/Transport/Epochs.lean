import KtKernel.Transport.Moves

namespace KtKernel.Transport

open KtKernel.Data

/-! ## Which thread stands where -/

/-- The threads whose exceptions and publications go on there. -/
def Next.Suits (party : Party) : Next → Prop
  | .throws => party.role = .caller
  | .catches | .rethrows => party = ⟨.caller, 0⟩
  | .handles | .exits => party.role = .consumer
  | .closes => party.role = .closer

def Position.Suits (party : Party) : Position → Prop
  | .idle | .enter _ | .check _ | .wait _ _ _ | .finish _ => party.role = .caller
  | .join _ stage =>
      match stage with
      | .readActive | .scanReturned _ _ | .storeLayerId | .storeExpertCount | .storeActive =>
          party = ⟨.caller, 0⟩
      | _ => party.role = .caller
  | .produce _ _ _ | .caught _ => party = ⟨.caller, 0⟩
  | .close _ => party.role = .closer
  | .poll _ | .consume _ _ | .failed _ => party.role = .consumer
  | .publish _ _ next | .report _ next => next.Suits party
  | .exited => party.role ≠ .caller

theorem suits_resume {next : Next} (suits : next.Suits party) (what : String) : (next.resume what).Suits party := by
  cases next <;> simp_all [Next.resume, Next.Suits, Position.Suits]

theorem suits_handler {position : Position} (suits : position.Suits party)
    (handler : position.handler = some next) : next.Suits party := by
  cases position with
  | check call =>
      cases handler
      exact suits
  | join layer stage =>
      cases stage <;> cases handler <;> first | exact suits | exact suits ▸ rfl
  | wait epoch stats stage => cases stage <;> cases handler <;> exact suits
  | produce layer published stage =>
      cases suits
      cases stage <;> cases handler <;> rfl
  | poll stage =>
      cases handler
      exact suits
  | consume batch stage => cases stage <;> cases handler <;> exact suits
  | _ => cases handler

theorem suits_publisher {position : Position} (suits : position.Suits party)
    (publisher : position.publisher = some next) : next.Suits party := by
  unfold Position.publisher at publisher
  split at publisher
  · cases publisher
    exact suits
  · cases publisher
    exact suits
  · cases publisher
    exact suits
  · cases publisher
  · exact suits_handler suits publisher

theorem suits_move {position : Position} (suits : position.Suits party)
    (move : Move cfg shared party.rank position reached effect) : reached.Suits party := by
  cases move with
  | poisoned handler => exact suits_handler suits handler
  | stopping handler => exact suits_resume (suits_handler suits handler) _
  | abort publisher => exact suits_publisher suits publisher
  | claimLost => exact suits_resume suits _
  | release => exact suits_resume suits _
  | unsettled => exact suits_resume suits _
  | reportMessage => exact suits_resume suits _
  | beginJoin _ first =>
      obtain ⟨role, rank⟩ := party
      cases suits
      cases first
      rfl
  | beginProduce _ first =>
      obtain ⟨role, rank⟩ := party
      cases suits
      cases first
      rfl
  | _ => first | exact suits | simp_all [Position.Suits]

/-! ## The order of the epochs -/

/-- The cells that say how far every rank has come. -/
structure Epochs (cfg : Config) (shared : Shared) : Prop where
  returned_le : ∀ rank, shared.control.waitReturnedEpoch rank ≤ shared.control.consumerDoneEpoch rank
  done_le : ∀ rank, shared.control.consumerDoneEpoch rank ≤ shared.control.joinEpoch rank
  join_le : ∀ rank, shared.control.joinEpoch rank ≤ shared.control.activeEpoch
  returned_produced : ∀ rank,
    shared.control.waitReturnedEpoch rank ≤ shared.control.producerDoneEpoch
  produced_le : shared.control.producerDoneEpoch ≤ shared.control.activeEpoch
  completed : ∀ rank, shared.completedEpoch rank = shared.control.consumerDoneEpoch rank
  counted : shared.control.expertCount = shared.history.counts shared.control.activeEpoch ∨
    ∀ rank < cfg.tpSize, shared.control.activeEpoch ≤ shared.control.waitReturnedEpoch rank

def Shared.AllReturned (cfg : Config) (shared : Shared) : Prop :=
  ∀ rank < cfg.tpSize, shared.control.activeEpoch ≤ shared.control.waitReturnedEpoch rank

def Shared.Consuming (shared : Shared) (rank epoch : Nat) : Prop :=
  shared.control.activeEpoch = epoch ∧ shared.control.consumerDoneEpoch rank < epoch

def EpochsAt (cfg : Config) (shared : Shared) (party : Party) : Position → Prop
  | .join layer stage =>
      match stage with
      | .scanReturned previous next => previous = shared.control.activeEpoch ∧
          shared.control.activeEpoch < layer.epoch ∧
          ∀ rank < next, shared.control.activeEpoch ≤ shared.control.waitReturnedEpoch rank
      | .storeLayerId | .storeExpertCount =>
          shared.control.activeEpoch < layer.epoch ∧ shared.AllReturned cfg
      | .storeActive => shared.control.activeEpoch < layer.epoch ∧ shared.AllReturned cfg ∧
          shared.control.expertCount = layer.expertCount
      | .clearActive | .compareLayerId | .compareExpertCount | .storeJoin =>
          shared.control.joinEpoch party.rank ≤ layer.epoch ∧
            layer.epoch ≤ shared.control.activeEpoch
      | _ => True
  | .wait epoch _ stage =>
      match stage with
      | .readJoin => True
      | .awaitDone => shared.control.joinEpoch party.rank = epoch
      | .awaitProduced => shared.control.joinEpoch party.rank = epoch ∧
          epoch ≤ shared.control.consumerDoneEpoch party.rank
      | _ => shared.control.joinEpoch party.rank = epoch ∧
          epoch ≤ shared.control.consumerDoneEpoch party.rank ∧
          epoch ≤ shared.control.producerDoneEpoch
  | .produce layer _ stage =>
      match stage with
      | .matchActive => True
      | .matchLayerId | .matchExpertCount => shared.control.activeEpoch = layer.epoch
      | _ => shared.control.activeEpoch = layer.epoch ∧
          shared.history.counts layer.epoch = layer.expertCount
  | .poll stage =>
      match stage with
      | .readJoin epoch => party.rank < cfg.tpSize ∧ shared.Consuming party.rank epoch
      | .readCount epoch => party.rank < cfg.tpSize ∧ shared.Consuming party.rank epoch ∧
          epoch ≤ shared.control.joinEpoch party.rank
      | _ => True
  | .consume batch _ => party.rank < cfg.tpSize ∧ shared.Consuming party.rank batch.epoch ∧
      batch.epoch ≤ shared.control.joinEpoch party.rank ∧
      batch.expertCount = shared.history.counts batch.epoch ∧ 0 < batch.expertCount
  | _ => True

/-- The new count is stored and the new epoch is not. -/
def Position.counting : Position → Bool
  | .join _ .storeActive => true
  | _ => false

/-- The first rank alone writes the count of the active layer. -/
def CountedAt (shared : Shared) (party : Party) (position : Position) : Prop :=
  party = ⟨.caller, 0⟩ → position.counting = false →
    shared.control.expertCount = shared.history.counts shared.control.activeEpoch

def epochsOutline (cfg : Config) : Outline Shared Party Position where
  memory := Epochs cfg
  asserts shared party position := position.Suits party ∧ EpochsAt cfg shared party position ∧
    CountedAt shared party position

/-- What a thread may rely on while the others move. -/
structure EpochsRely (cfg : Config) (party : Party) (before after : Shared) : Prop where
  join : ∀ rank, before.control.joinEpoch rank ≤ after.control.joinEpoch rank
  ownJoin : party.role = .caller →
    after.control.joinEpoch party.rank = before.control.joinEpoch party.rank
  done : ∀ rank, before.control.consumerDoneEpoch rank ≤ after.control.consumerDoneEpoch rank
  ownDone : party.role = .consumer →
    after.control.consumerDoneEpoch party.rank = before.control.consumerDoneEpoch party.rank
  returned : ∀ rank, before.control.waitReturnedEpoch rank ≤ after.control.waitReturnedEpoch rank
  produced : before.control.producerDoneEpoch ≤ after.control.producerDoneEpoch
  active : after.control.activeEpoch = before.control.activeEpoch ∨
    party ≠ ⟨.caller, 0⟩ ∧ before.control.activeEpoch ≤ after.control.activeEpoch ∧
      before.AllReturned cfg
  count : party = ⟨.caller, 0⟩ → after.control.expertCount = before.control.expertCount
  counts : ∀ epoch ≤ before.control.activeEpoch, after.history.counts epoch = before.history.counts epoch

section

variable {cfg : Config} {party : Party} {before after : Shared}

theorem EpochsRely.active_le (rely : EpochsRely cfg party before after) :
    before.control.activeEpoch ≤ after.control.activeEpoch := by
  rcases rely.active with same | ⟨_, later, _⟩
  · exact Nat.le_of_eq same.symm
  · exact later

theorem EpochsRely.own_active (rely : EpochsRely cfg ⟨.caller, 0⟩ before after) :
    after.control.activeEpoch = before.control.activeEpoch := by
  rcases rely.active with same | ⟨other, _⟩
  · exact same
  · exact absurd rfl other

theorem EpochsRely.allReturned (rely : EpochsRely cfg ⟨.caller, 0⟩ before after)
    (returned : before.AllReturned cfg) : after.AllReturned cfg := by
  intro rank inside
  rw [rely.own_active]
  exact Nat.le_trans (returned rank inside) (rely.returned rank)

/-- The active layer does not change under a consumer that works on it. -/
theorem EpochsRely.consuming (epochs : Epochs cfg before) (rely : EpochsRely cfg party before after)
    (role : party.role = .consumer) (inside : party.rank < cfg.tpSize)
    (consuming : before.Consuming party.rank epoch) : after.Consuming party.rank epoch := by
  have undone := consuming.2
  have active := consuming.1
  refine ⟨?_, ?_⟩
  · rcases rely.active with same | ⟨_, _, returned⟩
    · rw [same, active]
    · have returned := returned party.rank inside
      have early := epochs.returned_le party.rank
      omega
  · rw [rely.ownDone role]
    exact undone

theorem EpochsAt.stable {position : Position} (epochs : Epochs cfg before)
    (rely : EpochsRely cfg party before after) (suits : position.Suits party)
    (holds : EpochsAt cfg before party position) : EpochsAt cfg after party position := by
  cases position with
  | join layer stage =>
      cases stage with
      | scanReturned previous next =>
          cases suits
          obtain ⟨same, later, returned⟩ := holds
          have active := rely.own_active
          refine ⟨by rw [active, same], by rw [active]; exact later, ?_⟩
          intro rank inside
          rw [active]
          exact Nat.le_trans (returned rank inside) (rely.returned rank)
      | storeLayerId =>
          cases suits
          exact ⟨by rw [rely.own_active]; exact holds.1, rely.allReturned holds.2⟩
      | storeExpertCount =>
          cases suits
          exact ⟨by rw [rely.own_active]; exact holds.1, rely.allReturned holds.2⟩
      | storeActive =>
          cases suits
          exact ⟨by rw [rely.own_active]; exact holds.1, rely.allReturned holds.2.1,
            by rw [rely.count rfl]; exact holds.2.2⟩
      | clearActive =>
          exact ⟨by rw [rely.ownJoin suits]; exact holds.1, Nat.le_trans holds.2 rely.active_le⟩
      | compareLayerId =>
          exact ⟨by rw [rely.ownJoin suits]; exact holds.1, Nat.le_trans holds.2 rely.active_le⟩
      | compareExpertCount =>
          exact ⟨by rw [rely.ownJoin suits]; exact holds.1, Nat.le_trans holds.2 rely.active_le⟩
      | storeJoin =>
          have role : party.role = .caller := suits
          exact ⟨by rw [rely.ownJoin role]; exact holds.1, Nat.le_trans holds.2 rely.active_le⟩
      | _ => trivial
  | wait epoch stats stage =>
      have join := rely.ownJoin suits
      have done := rely.done party.rank
      cases stage with
      | readJoin => trivial
      | awaitDone => exact join.trans holds
      | awaitProduced => exact ⟨join.trans holds.1, Nat.le_trans holds.2 done⟩
      | _ => exact ⟨join.trans holds.1, Nat.le_trans holds.2.1 done, Nat.le_trans holds.2.2 rely.produced⟩
  | produce layer published stage =>
      cases suits
      cases stage with
      | matchActive => trivial
      | matchLayerId | matchExpertCount => exact rely.own_active.trans holds
      | _ =>
          refine ⟨rely.own_active.trans holds.1, ?_⟩
          rw [rely.counts _ (Nat.le_of_eq holds.1.symm)]
          exact holds.2
  | poll stage =>
      cases stage with
      | readJoin epoch => exact ⟨holds.1, rely.consuming epochs suits holds.1 holds.2⟩
      | readCount epoch =>
          exact ⟨holds.1, rely.consuming epochs suits holds.1 holds.2.1,
            Nat.le_trans holds.2.2 (rely.join _)⟩
      | _ => trivial
  | consume batch stage =>
      obtain ⟨inside, consuming, joined, counted, some⟩ := holds
      refine ⟨inside, rely.consuming epochs suits inside consuming,
        Nat.le_trans joined (rely.join _), ?_, some⟩
      rw [counted, rely.counts _ (Nat.le_of_eq consuming.1.symm)]
  | _ => trivial

/-- What holds of the cells when a thread writes one of them. -/
def EpochsGuard (cfg : Config) (shared : Shared) (party : Party) : Effect → Prop
  | .storeExpertCount _ => party = ⟨.caller, 0⟩ ∧ shared.AllReturned cfg
  | .storeActive layer => party = ⟨.caller, 0⟩ ∧ shared.control.activeEpoch < layer.epoch ∧
      shared.AllReturned cfg ∧ shared.control.expertCount = layer.expertCount
  | .storeJoin epoch => party.role = .caller ∧ shared.control.joinEpoch party.rank ≤ epoch ∧
      epoch ≤ shared.control.activeEpoch
  | .storeReturned epoch _ => shared.control.joinEpoch party.rank = epoch ∧
      epoch ≤ shared.control.consumerDoneEpoch party.rank ∧ epoch ≤ shared.control.producerDoneEpoch
  | .storeProduced epoch => shared.control.activeEpoch = epoch
  | .storeDone epoch => party.role = .consumer ∧ shared.Consuming party.rank epoch ∧
      epoch ≤ shared.control.joinEpoch party.rank
  | _ => True

theorem Epochs.apply (epochs : Epochs cfg shared) (guard : EpochsGuard cfg shared party effect) :
    Epochs cfg (shared.apply cfg party.rank effect) := by
  cases effect with
  | storeExpertCount count =>
      exact { epochs with counted := .inr guard.2 }
  | storeActive layer =>
      obtain ⟨_, later, _, same⟩ := guard
      refine { epochs with join_le := ?_, produced_le := ?_, counted := ?_ }
      · exact fun rank => Nat.le_trans (epochs.join_le rank) (Nat.le_of_lt later)
      · exact Nat.le_trans epochs.produced_le (Nat.le_of_lt later)
      · left
        simp only [Shared.apply, Function.update_self]
        exact same
  | storeJoin epoch =>
      obtain ⟨_, early, late⟩ := guard
      refine { epochs with done_le := ?_, join_le := ?_ }
      · intro rank
        have before := epochs.done_le rank
        simp only [Shared.apply, Function.update_apply]
        split
        · subst_vars
          omega
        · exact before
      · intro rank
        have before := epochs.join_le rank
        simp only [Shared.apply, Function.update_apply]
        split <;> simp_all
  | storeReturned epoch poisoned =>
      obtain ⟨_, done, produced⟩ := guard
      refine { epochs with returned_le := ?_, returned_produced := ?_, counted := ?_ }
      · intro rank
        have before := epochs.returned_le rank
        simp only [Shared.apply, Function.update_apply]
        split <;> simp_all
      · intro rank
        have before := epochs.returned_produced rank
        simp only [Shared.apply, Function.update_apply]
        split <;> simp_all
      · refine epochs.counted.imp id ?_
        intro returned rank inside
        have before := returned rank inside
        have early := epochs.returned_le party.rank
        simp only [Shared.apply, Function.update_apply]
        split
        · subst_vars
          have := epochs.done_le party.rank
          omega
        · exact before
  | storeProduced epoch =>
      have produced := epochs.produced_le
      refine { epochs with returned_produced := ?_, produced_le := Nat.le_of_eq guard.symm }
      intro rank
      have before := epochs.returned_produced rank
      change shared.control.waitReturnedEpoch rank ≤ epoch
      have := guard
      simp only [EpochsGuard] at this
      omega
  | storeDone epoch =>
      obtain ⟨_, consuming, joined⟩ := guard
      have undone := consuming.2
      refine { epochs with returned_le := ?_, done_le := ?_, completed := ?_ }
      · intro rank
        have before := epochs.returned_le rank
        simp only [Shared.apply, Function.update_apply]
        split
        · subst_vars
          omega
        · exact before
      · intro rank
        have before := epochs.done_le rank
        simp only [Shared.apply, Function.update_apply]
        split <;> simp_all
      · intro rank
        have before := epochs.completed rank
        simp only [Shared.apply, Function.update_apply]
        split <;> simp_all
  | _ => exact { epochs with }

theorem EpochsRely.refl (same : after.control.joinEpoch = before.control.joinEpoch)
    (done : after.control.consumerDoneEpoch = before.control.consumerDoneEpoch)
    (returned : after.control.waitReturnedEpoch = before.control.waitReturnedEpoch)
    (produced : after.control.producerDoneEpoch = before.control.producerDoneEpoch)
    (active : after.control.activeEpoch = before.control.activeEpoch)
    (count : party = ⟨.caller, 0⟩ → after.control.expertCount = before.control.expertCount)
    (counts : after.history.counts = before.history.counts) : EpochsRely cfg party before after where
  join rank := Nat.le_of_eq (congrFun same rank).symm
  ownJoin _ := congrFun same _
  done rank := Nat.le_of_eq (congrFun done rank).symm
  ownDone _ := congrFun done _
  returned rank := Nat.le_of_eq (congrFun returned rank).symm
  produced := Nat.le_of_eq produced.symm
  active := .inl active
  count := count
  counts epoch _ := by rw [counts]

theorem rank_ne {other party : Party} (differ : other ≠ party) (same : other.role = party.role) :
    other.rank ≠ party.rank := by
  intro rank
  cases other
  cases party
  simp_all

theorem le_update {cells : Nat → Nat} {rank value : Nat} (grows : cells rank ≤ value) (index : Nat) :
    cells index ≤ Function.update cells rank value index := by
  by_cases same : index = rank
  · subst same
    rw [Function.update_self]
    exact grows
  · exact Nat.le_of_eq (Function.update_of_ne same value cells).symm

theorem EpochsGuard.rely (epochs : Epochs cfg shared) (guard : EpochsGuard cfg shared party effect)
    (differ : other ≠ party) : EpochsRely cfg other shared (shared.apply cfg party.rank effect) := by
  have keeps : EpochsRely cfg other shared shared := .refl rfl rfl rfl rfl rfl (fun _ => rfl) rfl
  cases effect with
  | storeExpertCount count =>
      refine .refl rfl rfl rfl rfl rfl ?_ rfl
      intro own
      exact absurd (own.trans guard.1.symm) differ
  | storeActive layer =>
      obtain ⟨own, later, returned, _⟩ := guard
      exact
        { keeps with
          active := .inr ⟨fun same => differ (same.trans own.symm), Nat.le_of_lt later, returned⟩
          counts := fun epoch early => Function.update_of_ne
            (Nat.ne_of_lt (Nat.lt_of_le_of_lt early later)) .. }
  | storeJoin epoch =>
      obtain ⟨role, early, _⟩ := guard
      exact
        { keeps with
          join := le_update early
          ownJoin := fun caller => Function.update_of_ne (rank_ne differ (caller.trans role.symm)) .. }
  | storeReturned epoch poisoned =>
      obtain ⟨joined, _, _⟩ := guard
      have early := Nat.le_trans (epochs.returned_le party.rank) (epochs.done_le party.rank)
      exact
        { keeps with
          returned := le_update (Nat.le_trans early (Nat.le_of_eq joined)) }
  | storeProduced epoch =>
      have active : shared.control.activeEpoch = epoch := guard
      exact
        { keeps with
          produced := active ▸ epochs.produced_le }
  | storeDone epoch =>
      obtain ⟨role, consuming, _⟩ := guard
      exact
        { keeps with
          done := le_update (Nat.le_of_lt consuming.2)
          ownDone := fun consumer =>
            Function.update_of_ne (rank_ne differ (consumer.trans role.symm)) .. }
  | _ => exact .refl rfl rfl rfl rfl rfl (fun _ => rfl) rfl

theorem epochsAt_resume (next : Next) (what : String) :
    EpochsAt cfg shared party (next.resume what) := by
  cases next <;> trivial

theorem epochsAt_produce (active : shared.control.activeEpoch = layer.epoch ∧
      shared.history.counts layer.epoch = layer.expertCount) (published : Nat → Nat) (stage : Produce) :
    EpochsAt cfg shared party (.produce layer published stage) := by
  cases stage with
  | matchActive => trivial
  | matchLayerId | matchExpertCount => exact active.1
  | _ => exact active

/-- A step of a thread writes under its guard and establishes the assertion of
its next position. -/
theorem EpochsAt.move {position : Position} (epochs : Epochs cfg shared)
    (inside : party.rank < cfg.tpSize) (suits : position.Suits party)
    (holds : EpochsAt cfg shared party position) (counted : CountedAt shared party position)
    (move : Move cfg shared party.rank position reached effect) :
    EpochsGuard cfg shared party effect ∧
      EpochsAt cfg (shared.apply cfg party.rank effect) party reached := by
  cases move with
  | stopping | claimLost | release | unsettled | reportMessage => exact ⟨trivial, epochsAt_resume _ _⟩
  | joinFirst later fresh =>
      refine ⟨trivial, later, ?_⟩
      intro rank _
      exact fresh ▸ Nat.zero_le _
  | joinScan later => exact ⟨trivial, rfl, later, by nofun⟩
  | returnedAgain => exact ⟨trivial, holds.1, holds.2.1, by nofun⟩
  | returnedNext _ returned =>
      obtain ⟨same, later, earlier⟩ := holds
      refine ⟨trivial, same, later, ?_⟩
      intro rank bound
      rcases Nat.lt_succ_iff_lt_or_eq.mp bound with bound | rfl
      · exact earlier rank bound
      · exact same ▸ returned
  | returnedAll all =>
      refine ⟨trivial, holds.2.1, ?_⟩
      exact fun rank bound => holds.2.2 rank (Nat.lt_of_lt_of_le bound all)
  | storeLayerId => exact ⟨trivial, holds⟩
  | storeExpertCount => exact ⟨⟨suits, holds.2⟩, holds.1, holds.2, rfl⟩
  | storeActive =>
      obtain ⟨later, returned, same⟩ := holds
      refine ⟨⟨suits, later, returned, same⟩, ?_, Nat.le_refl _⟩
      exact Nat.le_trans (epochs.join_le party.rank) (Nat.le_of_lt later)
  | activeFound found =>
      exact ⟨trivial, found ▸ epochs.join_le party.rank, Nat.le_of_eq found.symm⟩
  | activeClear => exact ⟨trivial, holds⟩
  | sameLayerId => exact ⟨trivial, holds⟩
  | sameExpertCount => exact ⟨trivial, holds⟩
  | storeJoin => exact ⟨⟨suits, holds⟩, trivial⟩
  | joined _ same => exact ⟨trivial, same⟩
  | waitAgain polling =>
      rcases polling with rfl | rfl
      · exact ⟨trivial, holds⟩
      · exact ⟨trivial, holds.1⟩
  | consumed done => exact ⟨trivial, holds, done⟩
  | produced done => exact ⟨trivial, holds.1, holds.2, done⟩
  | waitClear | readLayerId | readExpertCount | readPoison | readCode | readRank | readMessage
  | readMessageSeen => exact ⟨trivial, holds⟩
  | storeReturned => exact ⟨holds, trivial⟩
  | matchActive same => exact ⟨trivial, same⟩
  | joinedAll | drainAll | storeSequence =>
      refine ⟨trivial, epochsAt_produce ?_ _ _⟩
      exact holds
  | storeProduced => exact ⟨holds.1, trivial⟩
  | pollOn _ plain => rcases plain with rfl | rfl | rfl <;> exact ⟨trivial, trivial⟩
  | pollActive later =>
      rw [epochs.completed] at later
      exact ⟨trivial, inside, rfl, later⟩
  | pollJoined joined => exact ⟨trivial, holds.1, holds.2, Nat.le_of_eq joined.symm⟩
  | beginConsume some =>
      obtain ⟨_, consuming, joined⟩ := holds
      refine ⟨trivial, inside, consuming, joined, ?_, some⟩
      rcases epochs.counted with same | returned
      · rw [← consuming.1]
        exact same
      · have returned := returned party.rank inside
        have early := epochs.returned_le party.rank
        have undone := consuming.2
        have active := consuming.1
        omega
  | storeDone => exact ⟨⟨suits, holds.2.1, holds.2.2.1⟩, trivial⟩
  | consumeAgain | consumeOn | sequenceFound | sameEpoch | sameExpert | readyClear | issue | record
  | eventAgain | eventDone | eventClear | acknowledge | acknowledgeLast => exact ⟨trivial, holds⟩
  | matchExpertCount same =>
      refine ⟨trivial, holds, ?_⟩
      have counted := counted suits rfl
      rw [← same, counted]
      exact congrArg _ holds.symm
  | matchLayerId | matchJoin | joinedAgain | joinedNext | acquireAgain | acquireNext
  | acquireAll | write | written | draw | storeEpoch | storeExpert | drainAgain | drainNext =>
      exact ⟨trivial, holds⟩
  | _ => exact ⟨trivial, trivial⟩

theorem CountedAt.stable {position : Position} (rely : EpochsRely cfg party before after)
    (holds : CountedAt before party position) : CountedAt after party position := by
  intro own settled
  have same := holds own settled
  subst own
  rw [rely.count rfl, rely.own_active, rely.counts _ (Nat.le_refl _)]
  exact same

theorem not_counting {position : Position} (handler : position.handler = some next) :
    position.counting = false := by
  cases position with
  | join layer stage => cases stage <;> first | rfl | cases handler
  | _ => rfl

theorem not_counting_of_publisher {position : Position} (publisher : position.publisher = some next) :
    position.counting = false := by
  cases position with
  | join layer stage => exact not_counting publisher
  | _ => rfl

theorem CountedAt.move {position : Position} (assertion : EpochsAt cfg shared party position)
    (holds : CountedAt shared party position)
    (move : Move cfg shared party.rank position reached effect) :
    CountedAt (shared.apply cfg party.rank effect) party reached := by
  intro own settled
  cases move with
  | storeActive =>
      simp only [Shared.apply, Function.update_self]
      exact assertion.2.2
  | storeExpertCount => contradiction
  | poisoned handler | stopping handler => exact holds own (not_counting handler)
  | abort publisher => exact holds own (not_counting_of_publisher publisher)
  | _ => exact holds own rfl

theorem epochs_silent {position : Position} (epochs : Epochs cfg before)
    (rely : EpochsRely cfg party before after)
    (holds : (epochsOutline cfg).asserts before party position) :
    (epochsOutline cfg).asserts after party position :=
  ⟨holds.1, holds.2.1.stable epochs rely holds.1, holds.2.2.stable rely⟩

end

/-- A call changes only what the caller will be reported for. -/
theorem step_call (moved : step cfg state (.call rank call) = some after) :
    rank < cfg.tpSize ∧ state.position ⟨.caller, rank⟩ = .idle ∧
      after = ⟨{ state.shared with
          history.late := Function.update state.shared.history.late rank (!state.shared.healthy) },
        Function.update state.position ⟨.caller, rank⟩ (.enter call)⟩ := by
  unfold step at moved
  dsimp only at moved
  split at moved
  case h_1 idle =>
    split at moved
    · exact ⟨‹_›, idle, (Option.some.inj moved).symm⟩
    · contradiction
  case h_2 => contradiction

theorem step_device (moved : step cfg state (.device rank) = some after) :
    ∃ transfer rest, state.shared.stream rank = transfer :: rest ∧
      after = ⟨{ state.shared with
          stream := Function.update state.shared.stream rank rest
          history.copied := Function.update state.shared.history.copied rank
            (Function.update (state.shared.history.copied rank) transfer.epoch
              (state.shared.history.copied rank transfer.epoch ++
                [(transfer, state.shared.host rank (slotOf transfer.expert))])) }, state.position⟩ := by
  simp only [step, Shared.copy] at moved
  cases stream : state.shared.stream rank with
  | nil => simp [stream] at moved
  | cons transfer rest =>
      rw [stream] at moved
      exact ⟨transfer, rest, rfl, (Option.some.inj moved).symm⟩

theorem epochs_step (holds : (epochsOutline cfg).Holds state.shared state.position)
    (moved : step cfg state action = some after) :
    (epochsOutline cfg).Holds after.shared after.position := by
  have epochs := holds.1
  cases action with
  | call rank call =>
      obtain ⟨_, idle, rfl⟩ := step_call moved
      have rely (party : Party) : EpochsRely cfg party state.shared
          { state.shared with
            history.late := Function.update state.shared.history.late rank (!state.shared.healthy) } :=
        .refl rfl rfl rfl rfl rfl (fun _ => rfl) rfl
      have before := holds.2 ⟨.caller, rank⟩
      rw [idle] at before
      refine holds.move { epochs with } ⟨rfl, trivial, ?_⟩ fun other _ => epochs_silent epochs (rely other)
      exact fun own _ => before.2.2 own rfl
  | move party choice =>
      obtain ⟨inside, reached, effect, move, rfl⟩ := step_move moved
      obtain ⟨suits, assertion, counted⟩ := holds.2 party
      obtain ⟨guard, own⟩ := assertion.move epochs inside suits counted move
      exact holds.move (epochs.apply guard) ⟨suits_move suits move, own, counted.move assertion move⟩
        fun other differ => epochs_silent epochs (guard.rely epochs differ)
  | device rank =>
      obtain ⟨transfer, rest, _, rfl⟩ := step_device moved
      exact holds.silent { epochs with } fun other =>
        epochs_silent epochs (.refl rfl rfl rfl rfl rfl (fun _ => rfl) rfl)

theorem epochs_start (cfg : Config) : (epochsOutline cfg).Holds start.shared start.position := by
  refine ⟨?_, ?_⟩
  · exact
      { returned_le := fun _ => Nat.le_refl _, done_le := fun _ => Nat.le_refl _
        join_le := fun _ => Nat.le_refl _, returned_produced := fun _ => Nat.le_refl _
        produced_le := Nat.le_refl _, completed := fun _ => rfl, counted := .inl rfl }
  · rintro ⟨role, rank⟩
    cases role <;> exact ⟨rfl, trivial, fun _ _ => rfl⟩

theorem reachable_epochs (reached : (machine cfg).Reachable state) :
    (epochsOutline cfg).Holds state.shared state.position := by
  induction reached with
  | initial starts =>
      cases starts
      exact epochs_start cfg
  | step _ moved holds => exact epochs_step holds moved

end KtKernel.Transport
