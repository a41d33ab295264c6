import KtKernel.Transport.Poison

namespace KtKernel.Transport

open KtKernel.Data

/-! A layer that has failed does not return.

A failure that is recorded before the producer has published the completion of
the layer keeps that completion away, or it poisons the transport before any
`wait` for the layer has passed its last check.
-/

/-- The failure came before the producer had published its layer. -/
def Failure.Early (failure : Failure) : Prop :=
  failure.produced < failure.epoch

/-- The rank has not acknowledged the active layer. -/
def Shared.Stalled (cfg : Config) (shared : Shared) (rank epoch : Nat) : Prop :=
  rank < cfg.tpSize ∧ shared.Consuming rank epoch ∧
    shared.history.acked rank epoch < shared.history.counts epoch

structure Fates (cfg : Config) (shared : Shared) : Prop where
  returned : ∀ entry ∈ shared.history.returns, entry.epoch ≤ shared.control.producerDoneEpoch
  published : ∀ failure ∈ shared.history.failures, ∀ code, failure.cause = .published code →
    shared.healthy = false
  copy : ∀ failure ∈ shared.history.failures, failure.cause = .copy →
    failure.Early ∧ shared.Stalled cfg failure.rank failure.epoch
  barred : ∀ failure ∈ shared.history.failures, failure.Early →
    shared.healthy = false ∨ shared.control.producerDoneEpoch < failure.epoch
  lost : ∀ failure ∈ shared.history.failures, failure.Early →
    ∀ entry ∈ shared.history.returns, entry.epoch ≠ failure.epoch
  late : ∀ rank, shared.history.late rank = true → shared.healthy = false
  threw : ∀ outcome ∈ shared.history.outcomes, outcome.late = true → outcome.threw = true

/-- The stages of `wait` behind its last check. -/
def Wait.passed : Wait → Bool
  | .readJoin | .awaitDone | .awaitProduced | .clear => false
  | _ => true

/-- No early failure of a layer while a `wait` for it is behind its last
check. -/
def ReturningAt (shared : Shared) : Position → Prop
  | .wait epoch _ stage => stage.passed = true →
      ∀ failure ∈ shared.history.failures, failure.Early → epoch ≠ failure.epoch
  | _ => True

def Next.serving : Next → Bool
  | .handles => true
  | _ => false

/-- The consumer still works. -/
def Position.serving : Position → Bool
  | .poll _ | .consume _ _ => true
  | .publish _ _ next | .report _ next => next.serving
  | _ => false

def ServingAt (shared : Shared) (party : Party) (position : Position) : Prop :=
  party.role = .consumer → position.serving = true →
    ∀ failure ∈ shared.history.failures, failure.cause = .copy → failure.rank ≠ party.rank

/-- The producer handles an exception and has not claimed the poison. -/
def Position.handling : Position → Bool
  | .caught _ | .publish .claim _ .rethrows => true
  | _ => false

def HandlingAt (shared : Shared) (party : Party) (position : Position) : Prop :=
  party = ⟨.caller, 0⟩ → position.handling = false →
    ∀ failure ∈ shared.history.failures, failure.cause = .writer → shared.healthy = false

/-- Where a call that started too late may stand. -/
def Position.refusing : Position → Bool
  | .idle | .enter _ | .check _ | .report _ .throws | .finish true => true
  | _ => false

def LateAt (shared : Shared) (party : Party) (position : Position) : Prop :=
  party.role = .caller → shared.history.late party.rank = true → position.refusing = true

def fatesOutline (cfg : Config) : Outline Shared Party Position where
  memory := Fates cfg
  asserts shared party position := ReturningAt shared position ∧ ServingAt shared party position ∧
    HandlingAt shared party position ∧ LateAt shared party position

section

variable {cfg : Config} {shared before after : Shared} {party : Party} {effect : Effect}
  {failure : Failure} {entry : Return}

/-- The steps only a working consumer takes. -/
def Effect.serves : Effect → Bool
  | .acknowledge _ _ _ | .storeDone _ => true
  | _ => false

/-- What holds of the failures when a thread writes. -/
def FatesGuard (cfg : Config) (shared : Shared) (party : Party) : Effect → Prop
  | .storeReturned epoch _ => ∀ failure ∈ shared.history.failures, failure.Early → epoch ≠ failure.epoch
  | .storeProduced _ => ∀ failure ∈ shared.history.failures, failure.cause = .writer →
      shared.healthy = false
  | .fail cause epoch =>
      match cause with
      | .writer => party = ⟨.caller, 0⟩
      | .copy => party.role = .consumer ∧ shared.Stalled cfg party.rank epoch
      | .published _ => False
  | .settle threw => shared.history.late party.rank = true → threw = true
  | .acknowledge _ _ _ | .storeDone _ =>
      ∀ failure ∈ shared.history.failures, failure.cause = .copy → failure.rank ≠ party.rank
  | _ => True

/-- A stalled rank keeps the completion of the layer away. -/
theorem Shared.Stalled.early (epochs : Epochs cfg shared) (slots : Slots cfg shared)
    (stalled : shared.Stalled cfg rank epoch) : shared.control.producerDoneEpoch < epoch := by
  obtain ⟨inside, ⟨active, undone⟩, unacked⟩ := stalled
  have bound := epochs.produced_le
  by_contra later
  have same : shared.control.producerDoneEpoch = epoch := by omega
  have acked := slots.produced (by omega) rank inside
  rw [same] at acked
  omega

/-- A stalled rank stays so unless its consumer goes on. -/
theorem Shared.Stalled.apply (epochs : Epochs cfg shared) (stalled : shared.Stalled cfg rank epoch)
    (guard : EpochsGuard cfg shared party effect)
    (still : effect.serves = true → rank ≠ party.rank) :
    (shared.apply cfg party.rank effect).Stalled cfg rank epoch := by
  obtain ⟨inside, ⟨active, undone⟩, unacked⟩ := stalled
  cases effect with
  | storeActive layer =>
      have returned := guard.2.2.1 rank inside
      have early := epochs.returned_le rank
      omega
  | acknowledge acked expert sequence =>
      refine ⟨inside, ⟨active, undone⟩, ?_⟩
      simp only [Shared.apply, Function.update_of_ne (still rfl)]
      exact unacked
  | storeDone done =>
      refine ⟨inside, ⟨active, ?_⟩, unacked⟩
      simp only [Shared.apply, Function.update_of_ne (still rfl)]
      exact undone
  | _ => exact ⟨inside, ⟨active, undone⟩, unacked⟩

def Effect.recorded (shared : Shared) (rank : Nat) : Effect → Option Failure
  | .claim error =>
      some ⟨.published error.code, rank, shared.control.activeEpoch, shared.control.producerDoneEpoch⟩
  | .fail cause epoch => some ⟨cause, rank, epoch, shared.control.producerDoneEpoch⟩
  | _ => Option.none

theorem failures_apply (cfg : Config) (shared : Shared) (rank : Nat) (effect : Effect) :
    (shared.apply cfg rank effect).history.failures =
      (effect.recorded shared rank).toList ++ shared.history.failures := by
  cases effect <;> rfl

theorem mem_failures_apply
    (member : failure ∈ (shared.apply cfg rank effect).history.failures) :
    effect.recorded shared rank = some failure ∨ failure ∈ shared.history.failures := by
  rw [failures_apply, List.mem_append, Option.mem_toList] at member
  exact member

theorem produced_of_failure (written : effect.recorded shared rank = some failure) :
    failure.produced = shared.control.producerDoneEpoch ∧ failure.rank = rank := by
  cases effect <;> cases written <;> exact ⟨rfl, rfl⟩

theorem healthy_claim (cfg : Config) (rank : Nat) (error : ErrorRecord) :
    (shared.apply cfg rank (.claim error)).healthy = false := by
  cases healthy : shared.healthy with
  | false => exact healthy_apply cfg rank _ healthy
  | true =>
      have poison := of_decide_eq_true healthy
      simp [Shared.apply, Shared.healthy, poison]

theorem returns_apply
    (member : entry ∈ (shared.apply cfg rank effect).history.returns) :
    (∃ poisoned, effect = .storeReturned entry.epoch poisoned) ∨ entry ∈ shared.history.returns := by
  cases effect with
  | storeReturned epoch poisoned =>
      rcases List.mem_cons.mp member with rfl | member
      · exact .inl ⟨poisoned, rfl⟩
      · exact .inr member
  | _ => exact .inr member

/-- The producer's progress grows, and only by its last step. -/
theorem produced_apply (cfg : Config) (shared : Shared) (rank : Nat) (effect : Effect) :
    effect = .storeProduced (shared.apply cfg rank effect).control.producerDoneEpoch ∨
      (shared.apply cfg rank effect).control.producerDoneEpoch = shared.control.producerDoneEpoch := by
  cases effect with
  | storeProduced epoch => exact .inl rfl
  | _ => exact .inr rfl

theorem Fates.copy_apply (epochs : Epochs cfg shared) (slots : Slots cfg shared)
    (fates : Fates cfg shared) (guard : FatesGuard cfg shared party effect)
    (epochsGuard : EpochsGuard cfg shared party effect)
    (member : failure ∈ (shared.apply cfg party.rank effect).history.failures)
    (cause : failure.cause = .copy) :
    failure.Early ∧ (shared.apply cfg party.rank effect).Stalled cfg failure.rank failure.epoch := by
  rcases mem_failures_apply member with recorded | member
  · cases effect with
    | fail failed epoch =>
        cases recorded
        cases cause
        obtain ⟨_, stalled⟩ := guard
        exact ⟨stalled.early epochs slots, stalled⟩
    | claim error =>
        cases recorded
        contradiction
    | _ => contradiction
  · obtain ⟨early, stalled⟩ := fates.copy failure member cause
    refine ⟨early, stalled.apply epochs epochsGuard ?_⟩
    intro serves
    cases effect with
    | acknowledge | storeDone => exact guard failure member cause
    | _ => contradiction

/-- The producer does not complete a layer that failed early. -/
theorem Fates.barred_apply (fates : Fates cfg shared) (guard : FatesGuard cfg shared party effect)
    (epochsGuard : EpochsGuard cfg shared party effect)
    (slotsGuard : SlotsGuard cfg shared party effect)
    (member : failure ∈ (shared.apply cfg party.rank effect).history.failures)
    (early : failure.Early) :
    (shared.apply cfg party.rank effect).healthy = false ∨
      (shared.apply cfg party.rank effect).control.producerDoneEpoch < failure.epoch := by
  rcases mem_failures_apply member with recorded | member
  · cases effect with
    | claim error => exact .inl (healthy_claim cfg _ error)
    | fail cause epoch =>
        cases recorded
        exact .inr early
    | _ => contradiction
  · rcases produced_apply cfg shared party.rank effect with produced | same
    · rw [produced] at guard epochsGuard slotsGuard
      left
      apply healthy_apply
      cases cause : failure.cause with
      | writer => exact guard failure member cause
      | published code => exact fates.published failure member code cause
      | copy =>
          obtain ⟨_, inside, consuming, unacked⟩ := fates.copy failure member cause
          have acked := slotsGuard failure.rank inside
          rw [← epochsGuard, consuming.1] at acked
          omega
    · rw [same]
      exact (fates.barred failure member early).imp_left (healthy_apply cfg party.rank effect)

theorem Fates.lost_apply (fates : Fates cfg shared) (guard : FatesGuard cfg shared party effect)
    (epochsGuard : EpochsGuard cfg shared party effect)
    (member : failure ∈ (shared.apply cfg party.rank effect).history.failures)
    (early : failure.Early)
    (returned : entry ∈ (shared.apply cfg party.rank effect).history.returns) :
    entry.epoch ≠ failure.epoch := by
  rcases returns_apply returned with ⟨poisoned, rfl⟩ | returned
  · exact guard failure member early
  · rcases mem_failures_apply member with recorded | member
    · have bound := fates.returned entry returned
      have progress := (produced_of_failure recorded).1
      unfold Failure.Early at early
      omega
    · exact fates.lost failure member early entry returned

theorem Fates.apply (epochs : Epochs cfg shared) (slots : Slots cfg shared)
    (fates : Fates cfg shared) (guard : FatesGuard cfg shared party effect)
    (epochsGuard : EpochsGuard cfg shared party effect)
    (slotsGuard : SlotsGuard cfg shared party effect) :
    Fates cfg (shared.apply cfg party.rank effect) where
  returned entry member := by
    have grown : shared.control.producerDoneEpoch ≤
        (shared.apply cfg party.rank effect).control.producerDoneEpoch := by
      rcases produced_apply cfg shared party.rank effect with produced | same
      · have bound := epochs.produced_le
        rw [produced] at epochsGuard
        have active : shared.control.activeEpoch = _ := epochsGuard
        omega
      · exact Nat.le_of_eq same.symm
    rcases returns_apply member with ⟨poisoned, rfl⟩ | member
    · exact epochsGuard.2.2
    · exact Nat.le_trans (fates.returned entry member) grown
  published failure member code cause := by
    rcases mem_failures_apply member with recorded | member
    · cases effect with
      | claim error => exact healthy_claim cfg _ error
      | fail failed epoch =>
          cases recorded
          cases cause
          exact guard.elim
      | _ => contradiction
    · exact healthy_apply cfg _ _ (fates.published failure member code cause)
  copy _ := fates.copy_apply epochs slots guard epochsGuard
  barred _ := fates.barred_apply guard epochsGuard slotsGuard
  lost _ member early _ := fates.lost_apply guard epochsGuard member early
  late rank late := by
    refine healthy_apply cfg _ _ (fates.late rank ?_)
    cases effect <;> exact late
  threw outcome member late := by
    cases effect with
    | settle threw =>
        rcases List.mem_cons.mp member with rfl | member
        · exact guard late
        · exact fates.threw outcome member late
    | _ => exact fates.threw outcome member late

/-! ## Non-interference -/

theorem ReturningAt.apply {position : Position} (standing : EpochsAt cfg shared other position)
    (holds : ReturningAt shared position) : ReturningAt (shared.apply cfg party.rank effect) position := by
  cases position with
  | wait epoch stats stage =>
      intro passed failure member early
      rcases mem_failures_apply member with recorded | member
      · have produced : epoch ≤ shared.control.producerDoneEpoch := by
          cases stage <;> first | contradiction | exact standing.2.2
        have progress := (produced_of_failure recorded).1
        unfold Failure.Early at early
        omega
      · exact holds passed failure member early
  | _ => trivial

theorem ServingAt.apply {position : Position} (guard : FatesGuard cfg shared party effect)
    (differ : other ≠ party) (holds : ServingAt shared other position) :
    ServingAt (shared.apply cfg party.rank effect) other position := by
  intro role serving failure member cause
  rcases mem_failures_apply member with recorded | member
  · cases effect with
    | fail failed epoch =>
        cases recorded
        cases cause
        obtain ⟨otherRole, otherRank⟩ := other
        obtain ⟨partyRole, partyRank⟩ := party
        obtain ⟨consumer, _⟩ := guard
        cases role
        cases consumer
        rintro rfl
        exact differ rfl
    | claim error =>
        cases recorded
        contradiction
    | _ => contradiction
  · exact holds role serving failure member cause

theorem HandlingAt.apply {position : Position} (guard : FatesGuard cfg shared party effect)
    (differ : other ≠ party) (holds : HandlingAt shared other position) :
    HandlingAt (shared.apply cfg party.rank effect) other position := by
  intro own settled failure member cause
  rcases mem_failures_apply member with recorded | member
  · cases effect with
    | fail failed epoch =>
        cases recorded
        cases cause
        exact absurd (own.trans guard.symm) differ
    | claim error => exact healthy_claim cfg _ error
    | _ => contradiction
  · exact healthy_apply cfg _ _ (holds own settled failure member cause)

theorem late_apply (cfg : Config) (shared : Shared) (rank : Nat) (effect : Effect) :
    (shared.apply cfg rank effect).history.late = shared.history.late := by
  cases effect <;> rfl

theorem fates_silent {position : Position} (guard : FatesGuard cfg shared party effect)
    (differ : other ≠ party) (standing : EpochsAt cfg shared other position)
    (holds : (fatesOutline cfg).asserts shared other position) :
    (fatesOutline cfg).asserts (shared.apply cfg party.rank effect) other position := by
  obtain ⟨returning, serving, handling, late⟩ := holds
  refine ⟨returning.apply standing, serving.apply guard differ, handling.apply guard differ, ?_⟩
  unfold LateAt
  rw [late_apply]
  exact late

/-! ## The step of a thread -/

theorem FatesGuard.of_move {position : Position} (suits : position.Suits party)
    (inside : party.rank < cfg.tpSize)
    (standing : EpochsAt cfg shared party position) (slots : SlotsAt cfg shared party position)
    (holds : (fatesOutline cfg).asserts shared party position)
    (move : Move cfg shared party.rank position reached effect) :
    FatesGuard cfg shared party effect := by
  obtain ⟨returning, serving, handling, late⟩ := holds
  cases move with
  | storeReturned => exact returning rfl
  | storeProduced => exact handling suits rfl
  | writerFailed => exact suits
  | copyFailed copying =>
      obtain ⟨_, consuming, _, counted, _⟩ := standing
      refine ⟨suits, inside, consuming, ?_⟩
      rw [← counted]
      rcases copying with ⟨sequence, kind, rfl⟩ | ⟨sequence, rfl⟩
      · have working := slots.1
        rw [working.1]
        exact working.2
      · have working := slots.1
        rw [working.1]
        exact working.2
  | acknowledge | acknowledgeLast | storeDone => exact serving suits rfl
  | settle =>
      intro started
      have refusing := late suits started
      cases ‹Bool› with
      | false => contradiction
      | true => rfl
  | _ => trivial

theorem returningAt_resume (next : Next) (what : String) : ReturningAt shared (next.resume what) := by
  cases next <;> trivial

theorem ReturningAt.move {position : Position} (fates : Fates cfg shared)
    (standing : EpochsAt cfg shared party position) (holds : ReturningAt shared position)
    (move : Move cfg shared party.rank position reached effect) :
    ReturningAt (shared.apply cfg party.rank effect) reached := by
  cases move with
  | waitClear healthy =>
      intro _ failure member early
      have produced := standing.2.2
      rcases fates.barred failure member early with sick | before
      · rw [healthy] at sick
        contradiction
      · omega
  | readLayerId | readExpertCount | readPoison | readCode | readRank | readMessage
  | readMessageSeen => exact fun _ => holds rfl
  | beginWait | joined | waitAgain | consumed | produced => exact fun passed => by contradiction
  | stopping | claimLost | release | unsettled | reportMessage => exact returningAt_resume _ _
  | _ => trivial

theorem serving_resume (next : Next) (what : String) : (next.resume what).serving = false := by
  cases next <;> rfl

theorem serving_handler {position : Position} (handler : position.handler = some next)
    (serving : next.serving = true) : position.serving = true := by
  cases position with
  | poll | consume => rfl
  | check =>
      cases handler
      contradiction
  | join layer stage => cases stage <;> cases handler <;> contradiction
  | wait epoch stats stage => cases stage <;> cases handler <;> contradiction
  | produce layer published stage => cases stage <;> cases handler <;> contradiction
  | _ => cases handler

theorem serving_publisher {position : Position} (publisher : position.publisher = some next)
    (serving : next.serving = true) : position.serving = true := by
  unfold Position.publisher at publisher
  split at publisher
  case h_5 => exact serving_handler publisher serving
  all_goals cases publisher
  all_goals contradiction

/-- A consumer that works worked before the step. -/
theorem serving_of_move {position : Position} (serving : reached.serving = true)
    (move : Move cfg shared rank position reached effect) : position.serving = true := by
  cases move with
  | poisoned handler => exact serving_handler handler serving
  | abort publisher => exact serving_publisher publisher serving
  | stopping | claimLost | release | unsettled | reportMessage =>
      rw [serving_resume] at serving
      contradiction
  | claim | storeCode | storeRank | storeMessage | settleAgain | settled | reportCode | reportRank =>
      exact serving
  | _ => first | rfl | contradiction

theorem ServingAt.move {position : Position} (holds : ServingAt shared party position)
    (move : Move cfg shared party.rank position reached effect) :
    ServingAt (shared.apply cfg party.rank effect) party reached := by
  intro role serving failure member cause
  rcases mem_failures_apply member with recorded | member
  · cases move with
    | copyFailed | writerFailed => contradiction
    | claim | claimLost =>
        cases recorded
        contradiction
    | _ => contradiction
  · exact holds role (serving_of_move serving move) failure member cause

theorem HandlingAt.move {position : Position} (holds : HandlingAt shared party position)
    (move : Move cfg shared party.rank position reached effect) :
    HandlingAt (shared.apply cfg party.rank effect) party reached := by
  intro own settled failure member cause
  cases move with
  | writerFailed => contradiction
  | copyFailed =>
      rcases mem_failures_apply member with recorded | member
      · cases recorded
        contradiction
      · exact holds own rfl failure member cause
  | rethrow sick => exact sick
  | stopping handler =>
      refine holds own ?_ failure member cause
      cases position <;> first | rfl | cases handler
  | poisoned _ sick => exact sick
  | abort publisher =>
      refine holds own ?_ failure member cause
      cases position with
      | caught what =>
          cases publisher
          contradiction
      | publish stage error next => cases publisher
      | _ => rfl
  | claim | claimLost => exact healthy_claim cfg _ _
  | release => rfl
  | _ => exact holds own rfl failure member cause

theorem LateAt.move {position : Position} (fates : Fates cfg shared)
    (holds : LateAt shared party position)
    (move : Move cfg shared party.rank position reached effect) :
    LateAt (shared.apply cfg party.rank effect) party reached := by
  intro role started
  rw [late_apply] at started
  have sick := fates.late party.rank started
  have refusing := holds role started
  cases position with
  | enter call =>
      cases move with
      | poisoned handler | stopping handler => cases handler
      | abort publisher => cases publisher
      | _ => rfl
  | check call =>
      cases move with
      | poisoned handler | stopping handler =>
          cases handler
          rfl
      | abort publisher => cases publisher
      | reject => rfl
      | beginJoin healthy | beginAwait healthy | beginWait healthy | beginProduce healthy =>
          rw [healthy] at sick
          contradiction
  | report stage next =>
      cases next <;> first | contradiction | skip
      cases move with
      | poisoned handler | stopping handler => cases handler
      | abort publisher => cases publisher
      | _ => rfl
  | finish threw =>
      cases move with
      | poisoned handler | stopping handler => cases handler
      | abort publisher => cases publisher
      | settle => rfl
  | idle =>
      cases move with
      | poisoned handler | stopping handler => cases handler
      | abort publisher => cases publisher
  | _ => contradiction

/-! ## Runs -/

theorem fates_step {state after : State} (epochs : (epochsOutline cfg).Holds state.shared state.position)
    (slots : (slotsOutline cfg).Holds state.shared state.position)
    (holds : (fatesOutline cfg).Holds state.shared state.position)
    (moved : step cfg state action = some after) :
    (fatesOutline cfg).Holds after.shared after.position := by
  have fates := holds.1
  cases action with
  | call rank call =>
      obtain ⟨_, idle, rfl⟩ := step_call moved
      have before := holds.2 ⟨.caller, rank⟩
      rw [idle] at before
      refine holds.move { fates with late := ?_ } ⟨trivial, by nofun, ?_, fun _ _ => rfl⟩ ?_
      · intro other
        simp only [Function.update_apply]
        split
        · exact fun late => Bool.not_eq_true' _ ▸ late
        · exact fates.late other
      · exact fun own _ => before.2.2.1 own rfl
      · intro other differ standing
        obtain ⟨returning, serving, handling, late⟩ := standing
        refine ⟨returning, serving, handling, ?_⟩
        intro role
        have apart : other.rank ≠ rank := by
          obtain ⟨otherRole, otherRank⟩ := other
          cases role
          rintro rfl
          exact differ rfl
        simp only [Function.update_of_ne apart]
        exact late role
  | move party choice =>
      obtain ⟨inside, reached, effect, move, rfl⟩ := step_move moved
      obtain ⟨suits, assertion, counted⟩ := epochs.2 party
      obtain ⟨standing, quiet⟩ := slots.2 party
      have asserted := holds.2 party
      have guard := FatesGuard.of_move suits inside assertion standing asserted move
      obtain ⟨epochsGuard, _⟩ := assertion.move epochs.1 inside suits counted move
      obtain ⟨slotsGuard, _⟩ := standing.move epochs.1 slots.1 suits assertion quiet move
      obtain ⟨returning, serving, handling, late⟩ := asserted
      exact holds.move (fates.apply epochs.1 slots.1 guard epochsGuard slotsGuard)
        ⟨returning.move fates assertion move, serving.move move, handling.move move, late.move fates move⟩
        fun other differ => fates_silent guard differ (epochs.2 other).2.1
  | device rank =>
      obtain ⟨transfer, rest, _, rfl⟩ := step_device moved
      exact holds.silent { fates with } fun other standing => standing

theorem fates_start (cfg : Config) : (fatesOutline cfg).Holds start.shared start.position := by
  refine ⟨⟨by nofun, by nofun, by nofun, by nofun, by nofun, by nofun, by nofun⟩, ?_⟩
  rintro ⟨role, rank⟩
  cases role <;> exact ⟨trivial, by nofun, by nofun, by nofun⟩

theorem reachable_fates (reached : (machine cfg).Reachable state) :
    (fatesOutline cfg).Holds state.shared state.position := by
  induction reached with
  | initial starts =>
      cases starts
      exact fates_start cfg
  | step reached moved holds =>
      exact fates_step (reachable_epochs reached) (reachable_slots reached) holds moved

/-- In every run: a copy fails before its layer is complete; once a writer call,
a copy or a published error has failed before the producer published the
completion of the active layer, no `wait` for that layer returns; a call that
starts after the poison is claimed throws; and whoever reads the record of a
published poison reads that of the first publisher. -/
theorem transport_fails_together (reached : (machine cfg).Reachable state) :
    (∀ failure ∈ state.shared.history.failures, failure.cause = .copy → failure.Early) ∧
    (∀ failure ∈ state.shared.history.failures, failure.Early →
      ∀ entry ∈ state.shared.history.returns, entry.epoch ≠ failure.epoch) ∧
    (∀ outcome ∈ state.shared.history.outcomes, outcome.late = true → outcome.threw = true) ∧
    ∀ record ∈ state.shared.history.seen, state.shared.history.first = some record := by
  have fates := (reachable_fates reached).1
  refine ⟨?_, fates.lost, fates.threw, (reachable_record reached).memory.seen⟩
  exact fun failure member cause => (fates.copy failure member cause).1

end

/-! The second rank closes the transport before it has acknowledged the expert.
Its check of `poison_state` is the last one before all ranks acknowledge, and
the first rank returns before the poison is claimed. -/

def oneExpert : Layer :=
  ⟨1, 0, 1⟩

def closing : List Action :=
  [.call 0 (.join oneExpert)] ++ go .caller 0 8 ++ [.call 1 (.join oneExpert)] ++ go .caller 1 8 ++
    [.call 0 (.runProducer oneExpert)] ++ go .caller 0 15 ++ go .closer 1 4

def returning : List Action :=
  go .consumer 0 4 ++ go .consumer 1 4 ++ copyExpert 0 ++ copyExpert 1 ++ go .consumer 1 1 ++
    go .consumer 0 1 ++ go .caller 0 5 ++ [.call 0 (.wait 1)] ++ go .caller 0 13 ++ go .closer 1 1

/-- The rank's `close` has found its consumer behind. -/
def State.closes (state : State) (rank : Nat) : Bool :=
  match state.position ⟨.closer, rank⟩ with
  | .publish .claim error .closes => error.code = .closedWhileActive
  | _ => false

/-- A schedule of which a first part and the whole pass their tests. -/
def passes (cfg : Config) (first second : List Action) (middle last : State → Bool) : Bool :=
  match (machine cfg).run start first with
  | some state => middle state &&
      match (machine cfg).run state second with
      | some state => last state
      | none => false
  | none => false

theorem exists_of_passes (passed : passes cfg first second middle last = true) :
    ∃ before after, (machine cfg).Reachable before ∧ middle before = true ∧
      (machine cfg).run before second = some after ∧ last after = true := by
  unfold passes at passed
  split at passed
  case h_1 before ran =>
    rw [Bool.and_eq_true] at passed
    obtain ⟨tested, passed⟩ := passed
    split at passed
    case h_1 after ranOn => exact ⟨before, after, (Machine.Reachable.initial rfl).run ran, tested, ranOn, passed⟩
    case h_2 => contradiction
  case h_2 => contradiction

set_option maxRecDepth 10000 in
/-- A clean return beside a rank that closed before it had acknowledged. -/
theorem close_overtaken :
    ∃ before after, (machine twoRanks).Reachable before ∧ before.closes 1 = true ∧
      before.shared.history.acked 1 1 < before.shared.history.counts 1 ∧
      (machine twoRanks).run before returning = some after ∧
      ⟨0, 1, false⟩ ∈ after.shared.history.returns ∧
      ⟨.published .closedWhileActive, 1, 1, 1⟩ ∈ after.shared.history.failures := by
  obtain ⟨before, after, reached, tested, ran, found⟩ := exists_of_passes
    (show passes twoRanks closing returning
      (fun state => state.closes 1 && decide (state.shared.history.acked 1 1 < state.shared.history.counts 1))
      (fun state => decide (⟨0, 1, false⟩ ∈ state.shared.history.returns ∧
        ⟨.published .closedWhileActive, 1, 1, 1⟩ ∈ state.shared.history.failures)) = true by decide)
  rw [Bool.and_eq_true] at tested
  exact ⟨before, after, reached, tested.1, of_decide_eq_true tested.2, ran, of_decide_eq_true found⟩

/-- The writer fails on the only expert; the other rank's `wait` throws. -/
def failing : List Action :=
  [.call 0 (.join oneExpert)] ++ go .caller 0 8 ++ [.call 1 (.join oneExpert)] ++ go .caller 1 8 ++
    [.call 0 (.runProducer oneExpert)] ++ go .caller 0 10 ++ [.move ⟨.caller, 0⟩ (.fail "disk")] ++
    go .caller 0 7 ++ [.call 1 (.wait 1)] ++ go .caller 1 7

set_option maxRecDepth 10000 in
theorem transport_fails_together_writer :
    ∃ state, (machine twoRanks).Reachable state ∧
      ⟨.writer, 0, 1, 0⟩ ∈ state.shared.history.failures ∧
      ⟨1, true, true⟩ ∈ state.shared.history.outcomes ∧
      ∀ entry ∈ state.shared.history.returns, entry.epoch ≠ 1 := by
  obtain ⟨state, reached, found⟩ := (machine twoRanks).exists_reachable_of_run start failing rfl
    (fun state => decide (⟨.writer, 0, 1, 0⟩ ∈ state.shared.history.failures ∧
      ⟨1, true, true⟩ ∈ state.shared.history.outcomes)) (by decide)
  obtain ⟨failed, threw⟩ := of_decide_eq_true found
  refine ⟨state, reached, failed, threw, ?_⟩
  exact (transport_fails_together reached).2.1 _ failed (show 0 < 1 by decide)

end KtKernel.Transport
