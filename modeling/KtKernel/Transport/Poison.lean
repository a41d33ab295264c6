import KtKernel.Transport.Delivery

namespace KtKernel.Transport

open KtKernel.Data

/-! ## The record of the first publisher -/

structure Recorded (shared : Shared) : Prop where
  clean : shared.control.poisonState = .healthy ↔ shared.history.first = none
  published : shared.control.poisonState = .poisoned → shared.history.first =
    some ⟨shared.control.errorCode, shared.control.errorRank, shared.control.errorMessage⟩
  seen : ∀ record ∈ shared.history.seen, shared.history.first = some record

def Shared.Held (shared : Shared) (error : ErrorRecord) : Prop :=
  shared.control.poisonState = .claimed ∧ shared.history.first = some error.stored

def RecordedAt (shared : Shared) : Position → Prop
  | .publish stage error _ =>
      match stage with
      | .claim => True
      | .code => shared.Held error
      | .rank => shared.Held error ∧ shared.control.errorCode = error.code
      | .message => shared.Held error ∧ shared.control.errorCode = error.code ∧
          shared.control.errorRank = error.rank
      | .release => shared.Held error ∧ shared.control.errorCode = error.code ∧
          shared.control.errorRank = error.rank ∧
          shared.control.errorMessage = truncate error.message
  | .report stage _ =>
      match stage with
      | .settle => shared.control.poisonState ≠ .healthy
      | .code => shared.control.poisonState = .poisoned
      | .rank code => shared.control.poisonState = .poisoned ∧ code = shared.control.errorCode
      | .message code rank => shared.control.poisonState = .poisoned ∧
          code = shared.control.errorCode ∧ rank = shared.control.errorRank
  | .wait _ stats stage =>
      match stage with
      | .readCode => stats.poison = .poisoned → shared.control.poisonState = .poisoned
      | .readRank => stats.poison = .poisoned → shared.control.poisonState = .poisoned ∧
          stats.error.code = shared.control.errorCode
      | .readMessage => stats.poison = .poisoned → shared.control.poisonState = .poisoned ∧
          stats.error.code = shared.control.errorCode ∧ stats.error.rank = shared.control.errorRank
      | _ => True
  | _ => True

/-- The thread writes the record. -/
def Position.publishing : Position → Bool
  | .publish .claim _ _ => false
  | .publish _ _ _ => true
  | _ => false

structure RecordInv (state : State) : Prop where
  memory : Recorded state.shared
  standing : ∀ party, RecordedAt state.shared (state.position party)
  single : ∀ one other, (state.position one).publishing = true →
    (state.position other).publishing = true → one = other

section

variable {cfg : Config} {shared before after : Shared} {party : Party}

theorem RecordedAt.held {position : Position} (publishing : position.publishing = true)
    (holds : RecordedAt shared position) : shared.control.poisonState = .claimed := by
  cases position with
  | publish stage error next =>
      cases stage with
      | claim => contradiction
      | code => exact holds.1
      | rank | message | release => exact holds.1.1
  | _ => contradiction

/-- What a thread that does not publish keeps while another one moves: a
published record does not change. -/
theorem RecordedAt.stable {position : Position} (quiet : position.publishing = false)
    (sick : before.control.poisonState ≠ .healthy → after.control.poisonState ≠ .healthy)
    (kept : before.control.poisonState = .poisoned → after.control.poisonState = .poisoned ∧
      after.control.errorCode = before.control.errorCode ∧
      after.control.errorRank = before.control.errorRank)
    (holds : RecordedAt before position) : RecordedAt after position := by
  cases position with
  | publish stage error next =>
      cases stage with
      | claim => trivial
      | _ => contradiction
  | report stage next =>
      cases stage with
      | settle => exact sick holds
      | code => exact (kept holds).1
      | rank code =>
          obtain ⟨poisoned, code, rank⟩ := kept holds.1
          exact ⟨poisoned, holds.2.trans code.symm⟩
      | message code rank =>
          obtain ⟨poisoned, code, rank⟩ := kept holds.1
          exact ⟨poisoned, holds.2.1.trans code.symm, holds.2.2.trans rank.symm⟩
  | wait epoch stats stage =>
      cases stage with
      | readCode => exact fun saw => (kept (holds saw)).1
      | readRank =>
          intro saw
          obtain ⟨poisoned, code, rank⟩ := kept (holds saw).1
          exact ⟨poisoned, (holds saw).2.trans code.symm⟩
      | readMessage =>
          intro saw
          obtain ⟨poisoned, code, rank⟩ := kept (holds saw).1
          exact ⟨poisoned, (holds saw).2.1.trans code.symm, (holds saw).2.2.trans rank.symm⟩
      | _ => trivial
  | _ => trivial

theorem recordedAt_resume (next : Next) (what : String) : RecordedAt shared (next.resume what) := by
  cases next <;> trivial

theorem publishing_resume (next : Next) (what : String) : (next.resume what).publishing = false := by
  cases next <;> rfl

theorem poison_of_sick (sick : shared.healthy = false) : shared.control.poisonState ≠ .healthy :=
  of_decide_eq_false sick

/-- The two memories hold the same record. -/
structure SameRecord (before after : Shared) : Prop where
  poison : after.control.poisonState = before.control.poisonState
  code : after.control.errorCode = before.control.errorCode
  rank : after.control.errorRank = before.control.errorRank
  message : after.control.errorMessage = before.control.errorMessage
  first : after.history.first = before.history.first

theorem SameRecord.at {position : Position} (same : SameRecord before after)
    (holds : RecordedAt before position) : RecordedAt after position := by
  obtain ⟨poison, code, rank, message, first⟩ := same
  unfold RecordedAt Shared.Held at holds ⊢
  rw [poison, code, rank, message, first]
  exact holds

theorem SameRecord.recorded (same : SameRecord before after) (recorded : Recorded before)
    (seen : ∀ record ∈ after.history.seen, record ∈ before.history.seen ∨
      before.history.first = some record) : Recorded after where
  clean := by
    rw [same.poison, same.first]
    exact recorded.clean
  published := by
    rw [same.poison, same.first, same.code, same.rank, same.message]
    exact recorded.published
  seen record member := by
    rw [same.first]
    exact (seen record member).elim (recorded.seen record) id

/-- The moves that write the record. -/
def Effect.records : Effect → Bool
  | .claim _ | .storeCode _ | .storeRank _ | .storeMessage _ | .release => true
  | _ => false

theorem SameRecord.apply (rank : Nat) {effect : Effect} (reads : effect.records = false) :
    SameRecord shared (shared.apply cfg rank effect) := by
  cases effect <;> first | exact ⟨rfl, rfl, rfl, rfl, rfl⟩ | contradiction

theorem seen_apply (rank : Nat) {effect : Effect}
    (shown : ∀ record, effect = .see record → shared.history.first = some record) :
    ∀ record ∈ (shared.apply cfg rank effect).history.seen, record ∈ shared.history.seen ∨
      shared.history.first = some record := by
  intro record member
  cases effect with
  | see shownRecord =>
      rcases List.mem_cons.mp member with rfl | member
      · exact .inr (shown _ rfl)
      · exact .inl member
  | _ => exact .inl member

theorem RecordedAt.read {position : Position} (recorded : Recorded shared)
    (holds : RecordedAt shared position) (reads : effect.records = false)
    (move : Move cfg shared rank position reached effect) :
    RecordedAt shared reached ∧ reached.publishing = false ∧
      ∀ record, effect = .see record → shared.history.first = some record := by
  cases move with
  | poisoned _ sick => exact ⟨poison_of_sick sick, rfl, by nofun⟩
  | stopping => exact ⟨recordedAt_resume _ _, publishing_resume _ _, by nofun⟩
  | unsettled => exact ⟨recordedAt_resume _ _, publishing_resume _ _, by nofun⟩
  | readPoison => exact ⟨id, rfl, by nofun⟩
  | readCode => exact ⟨fun saw => ⟨holds saw, rfl⟩, rfl, by nofun⟩
  | readRank => exact ⟨fun saw => ⟨(holds saw).1, (holds saw).2, rfl⟩, rfl, by nofun⟩
  | readMessageSeen saw =>
      refine ⟨trivial, rfl, ?_⟩
      intro record shown
      cases shown
      obtain ⟨poisoned, code, rank⟩ := holds saw
      rw [recorded.published poisoned, ← code, ← rank]
  | settleAgain => exact ⟨holds, rfl, by nofun⟩
  | settled published =>
      refine ⟨?_, rfl, by nofun⟩
      have sick : shared.control.poisonState ≠ .healthy := holds
      change shared.control.poisonState = .poisoned
      cases poison : shared.control.poisonState with
      | healthy => exact absurd poison sick
      | claimed => exact absurd poison published
      | poisoned => rfl
  | reportCode => exact ⟨⟨holds, rfl⟩, rfl, by nofun⟩
  | reportRank => exact ⟨⟨holds.1, holds.2, rfl⟩, rfl, by nofun⟩
  | reportMessage =>
      refine ⟨recordedAt_resume _ _, publishing_resume _ _, ?_⟩
      intro record shown
      cases shown
      obtain ⟨poisoned, code, rank⟩ := holds
      rw [recorded.published poisoned, ← code, ← rank]
  | joinedAll | storeSequence | drainAll => exact ⟨trivial, rfl, by nofun⟩
  | _ => first | exact ⟨trivial, rfl, by nofun⟩ | contradiction

/-- A thread moves to a position where it does not publish. -/
theorem RecordInv.goto {state : State} (inv : RecordInv state) (recorded : Recorded after)
    (own : RecordedAt after reached) (quiet : reached.publishing = false)
    (others : ∀ other, other ≠ party → RecordedAt state.shared (state.position other) →
      RecordedAt after (state.position other)) :
    RecordInv ⟨after, Function.update state.position party reached⟩ where
  memory := recorded
  standing other := by
    by_cases same : other = party
    · subst same
      simp only [Function.update_self]
      exact own
    · simp only [Function.update_of_ne same]
      exact others other same (inv.standing other)
  single one other := by
    have unmoved (thread : Party)
        (publishing : (Function.update state.position party reached thread).publishing = true) :
        (state.position thread).publishing = true := by
      by_cases same : thread = party
      · subst same
        rw [Function.update_self, quiet] at publishing
        contradiction
      · rw [Function.update_of_ne same] at publishing
        exact publishing
    exact fun first second => inv.single one other (unmoved one first) (unmoved other second)

theorem RecordInv.write {state : State} (inv : RecordInv state) (recorded : Recorded after)
    (publisher : ∀ other, (state.position other).publishing = true → other = party)
    (own : RecordedAt after reached)
    (sick : after.control.poisonState ≠ .healthy)
    (unpublished : state.shared.control.poisonState ≠ .poisoned) :
    RecordInv ⟨after, Function.update state.position party reached⟩ where
  memory := recorded
  standing other := by
    by_cases same : other = party
    · subst same
      simp only [Function.update_self]
      exact own
    · simp only [Function.update_of_ne same]
      refine (inv.standing other).stable ?_ (fun _ => sick) fun poisoned => absurd poisoned unpublished
      exact Bool.eq_false_iff.mpr fun publishing => same (publisher other publishing)
  single one other first second := by
    have alone (thread : Party)
        (publishing : (Function.update state.position party reached thread).publishing = true) :
        thread = party := by
      by_cases same : thread = party
      · exact same
      · rw [Function.update_of_ne same] at publishing
        exact publisher thread publishing
    exact (alone one first).trans (alone other second).symm

/-- The publisher writes one field of the record it has claimed. -/
theorem RecordInv.store {state : State} (inv : RecordInv state) (held : state.shared.Held error)
    (publisher : ∀ other, (state.position other).publishing = true → other = party)
    (poison : after.control.poisonState = state.shared.control.poisonState)
    (first : after.history.first = state.shared.history.first)
    (seen : after.history.seen = state.shared.history.seen) (own : RecordedAt after reached) :
    RecordInv ⟨after, Function.update state.position party reached⟩ := by
  have claimed : after.control.poisonState = .claimed := poison.trans held.1
  refine inv.write ⟨?_, ?_, ?_⟩ publisher own ?_ ?_
  · rw [poison, first]
    exact inv.memory.clean
  · intro poisoned
    rw [claimed] at poisoned
    contradiction
  · rw [first, seen]
    exact inv.memory.seen
  · rw [claimed]
    nofun
  · rw [held.1]
    nofun

theorem RecordInv.move {state : State} (inv : RecordInv state)
    (move : Move cfg state.shared party.rank (state.position party) reached effect) :
    RecordInv ⟨state.shared.apply cfg party.rank effect, Function.update state.position party reached⟩ := by
  have standing := inv.standing party
  cases reads : effect.records with
  | false =>
      have same : SameRecord state.shared (state.shared.apply cfg party.rank effect) := .apply _ reads
      obtain ⟨own, quiet, shown⟩ := standing.read inv.memory reads move
      exact inv.goto (same.recorded inv.memory (seen_apply _ shown)) (same.at own) quiet
        fun other _ holds => same.at holds
  | true =>
      have single := inv.single party
      cases position : state.position party with
      | publish stage error next =>
          rw [position] at move standing single
          have publisher (later : stage ≠ .claim) : ∀ other,
              (state.position other).publishing = true → other = party := by
            intro other publishing
            refine (single other ?_ publishing).symm
            cases stage <;> first | rfl | exact absurd rfl later
          cases move with
          | claim healthy =>
              have poison := of_decide_eq_true healthy
              have none := inv.memory.clean.mp poison
              refine inv.write ?_ ?_ ?_ ?_ ?_
              · exact
                  { clean := by simp [Shared.apply, poison, none]
                    published := by simp [Shared.apply, poison]
                    seen := fun record member => by
                      have first := inv.memory.seen record member
                      rw [none] at first
                      contradiction }
              · intro other publishing
                have claimed := (inv.standing other).held publishing
                rw [poison] at claimed
                contradiction
              · exact ⟨by simp [Shared.apply, poison], by simp [Shared.apply, none]⟩
              · simp [Shared.apply, poison]
              · rw [poison]
                intro clash
                cases clash
          | claimLost sick =>
              have poison := poison_of_sick sick
              obtain ⟨record, first⟩ := Option.ne_none_iff_exists'.mp
                (fun none => poison (inv.memory.clean.mpr none))
              have same : SameRecord state.shared (state.shared.apply cfg party.rank (.claim error)) :=
                ⟨by simp [Shared.apply, poison], rfl, rfl, rfl, by simp [Shared.apply, first]⟩
              exact inv.goto (same.recorded inv.memory fun record member => .inl member)
                (recordedAt_resume _ _) (publishing_resume _ _) fun other _ holds => same.at holds
          | storeCode =>
              exact inv.store standing (publisher (by intro clash; cases clash)) rfl rfl rfl ⟨standing, rfl⟩
          | storeRank =>
              obtain ⟨held, code⟩ := standing
              exact inv.store held (publisher (by intro clash; cases clash)) rfl rfl rfl ⟨held, code, rfl⟩
          | storeMessage =>
              obtain ⟨held, code, rank⟩ := standing
              exact inv.store held (publisher (by intro clash; cases clash)) rfl rfl rfl ⟨held, code, rank, rfl⟩
          | release =>
              obtain ⟨held, code, rank, message⟩ := standing
              refine inv.write ?_ (publisher (by intro clash; cases clash)) (recordedAt_resume _ _)
                (by intro clash; cases clash) ?_
              · exact
                  { clean := by simp [Shared.apply, held.2]
                    published := fun _ => by
                      simp only [Shared.apply, held.2, code, rank, message]
                      rfl
                    seen := inv.memory.seen }
              · rw [held.1]
                intro clash
                cases clash
          | _ => contradiction
      | _ =>
          rw [position] at move
          cases move <;> contradiction

theorem RecordInv.step {state after : State} (inv : RecordInv state)
    (moved : Transport.step cfg state action = some after) :
    RecordInv after := by
  cases action with
  | call rank call =>
      obtain ⟨_, idle, rfl⟩ := step_call moved
      exact inv.goto { inv.memory with } trivial rfl fun other _ holds =>
        SameRecord.at ⟨rfl, rfl, rfl, rfl, rfl⟩ holds
  | move party choice =>
      obtain ⟨_, reached, effect, move, rfl⟩ := step_move moved
      exact inv.move move
  | device rank =>
      obtain ⟨transfer, rest, _, rfl⟩ := step_device moved
      exact
        { memory := { inv.memory with }
          standing := fun party => SameRecord.at ⟨rfl, rfl, rfl, rfl, rfl⟩ (inv.standing party)
          single := inv.single }

theorem reachable_record (reached : (machine cfg).Reachable state) : RecordInv state := by
  induction reached with
  | initial starts =>
      cases starts
      refine ⟨⟨by simp [start], by nofun, by nofun⟩, ?_, ?_⟩
      · rintro ⟨role, rank⟩
        cases role <;> trivial
      · rintro ⟨role, rank⟩ other publishing
        cases role <;> contradiction
  | step _ moved inv => exact inv.step moved

end

end KtKernel.Transport
