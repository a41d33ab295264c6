import KtKernel.Transport.Slots

namespace KtKernel.Transport

open KtKernel.Data

/-! ## What a step writes and when -/

def SlotsGuard (cfg : Config) (shared : Shared) (party : Party) : Effect → Prop
  | .draw => party = ⟨.caller, 0⟩
  | .storeReadyEpoch slot _ | .storeReadyExpert slot _ | .beginWrite slot | .endWrite slot _ _ =>
      party = ⟨.caller, 0⟩ ∧ shared.Acked cfg slot
  | .storeReadySequence slot sequence => party = ⟨.caller, 0⟩ ∧ shared.Acked cfg slot ∧
      shared.Fresh sequence ∧ ∃ epoch expert, shared.Describes slot epoch expert ∧
        shared.Filled cfg slot epoch expert
  | .storeProduced epoch => ∀ rank < cfg.tpSize,
      shared.history.counts epoch ≤ shared.history.acked rank epoch
  | .issue transfer => party.role = .consumer ∧ party.rank < cfg.tpSize ∧
      shared.Owes party.rank (slotOf transfer.expert) ∧
      shared.Describes (slotOf transfer.expert) transfer.epoch transfer.expert ∧
      shared.control.consumerDoneEpoch party.rank < transfer.epoch ∧
      transfer.epoch ≤ shared.control.activeEpoch
  | .acknowledge epoch expert sequence => party.role = .consumer ∧ party.rank < cfg.tpSize ∧
      shared.Observed party.rank expert sequence ∧
      shared.Describes (slotOf expert) epoch expert ∧ shared.stream party.rank = [] ∧
      shared.history.acked party.rank epoch = expert ∧ epoch ≤ shared.control.activeEpoch
  | .storeDone epoch => party.role = .consumer ∧ shared.stream party.rank = [] ∧
      shared.control.consumerDoneEpoch party.rank ≤ epoch ∧
      (shared.history.copied party.rank epoch).map Prod.fst =
        transfers cfg party.rank epoch (shared.history.counts epoch)
  | .storeActive layer => shared.control.activeEpoch < layer.epoch
  | .storeReturned epoch _ =>
      epoch ≠ 0 ∧ shared.control.consumerDoneEpoch party.rank = epoch
  | _ => True

section

variable {cfg : Config} {shared : Shared} {party : Party} {sequence : Nat}

theorem sequence_update {ready : Nat → ReadySlot} {change : ReadySlot}
    (same : change.sequence = (ready slot).sequence) (index : Nat) :
    (Function.update ready slot change index).sequence = (ready index).sequence := by
  by_cases own : index = slot
  · subst own
    rw [Function.update_self]
    exact same
  · rw [Function.update_of_ne own]

/-- The cells that describe a slot change only while nobody owes it. -/
theorem Slots.describe (slots : Slots cfg shared) (acked : shared.Acked cfg slot) {change : ReadySlot}
    (same : change.sequence = (shared.control.ready slot).sequence) :
    Slots cfg { shared with control.ready := Function.update shared.control.ready slot change } := by
  have sequence := sequence_update same
  have other : ∀ rank < cfg.tpSize, ∀ index, shared.Owes rank index →
      Function.update shared.control.ready slot change index = shared.control.ready index := by
    intro rank inside index owes
    exact Function.update_of_ne (acked.ne_of_owes inside owes) ..
  have owed (rank index : Nat)
      (owes : Shared.Owes { shared with control.ready := Function.update shared.control.ready slot change }
        rank index) : shared.Owes rank index := by
    unfold Shared.Owes at owes ⊢
    rw [← sequence]
    exact owes
  refine { slots with ack_le := ?_, drawn := ?_, content := ?_, flying := ?_, told := ?_ }
  · intro rank index
    simp only [sequence]
    exact slots.ack_le rank index
  · intro index
    simp only [sequence]
    exact slots.drawn index
  · intro rank inside index owes
    have owes := owed rank index owes
    simp only [other rank inside index owes]
    exact slots.content rank inside index owes
  · intro rank transfer member
    obtain ⟨inside, owes, describes, rest⟩ := slots.flying rank transfer member
    refine ⟨inside, ?_, ?_, rest⟩
    · unfold Shared.Owes
      simp only [sequence]
      exact owes
    · unfold Shared.Describes
      simp only [other rank inside _ owes]
      exact describes
  · intro rank inside index owes
    have owes := owed rank index owes
    simp only [other rank inside index owes]
    exact slots.told rank inside index owes

theorem Slots.write (slots : Slots cfg shared) (acked : shared.Acked cfg slot) (content : Content) :
    Slots cfg { shared with host := shared.write cfg slot content } := by
  refine { slots with content := ?_ }
  intro rank inside index owes
  have differ := acked.ne_of_owes inside owes
  simp only [Shared.write, inside, if_true, Function.update_of_ne differ]
  exact slots.content rank inside index owes

theorem Slots.publish (slots : Slots cfg shared) (acked : shared.Acked cfg slot)
    (fresh : shared.Fresh sequence) (describes : shared.Describes slot epoch expert)
    (filled : shared.Filled cfg slot epoch expert) :
    Slots cfg (shared.apply cfg rank (.storeReadySequence slot sequence)) := by
  obtain ⟨newer, drawn⟩ := fresh
  have old (rank index : Nat) : shared.control.ackSequence rank index < sequence :=
    Nat.lt_of_le_of_lt (slots.ack_le rank index) (newer index)
  refine { slots with ack_le := ?_, drawn := ?_, content := ?_, flying := ?_, told := ?_, acked := ?_ }
  · intro rank index
    by_cases own : index = slot
    · subst own
      simp only [Shared.apply, Function.update_self]
      exact Nat.le_of_lt (old rank index)
    · simp only [Shared.apply, Function.update_of_ne own]
      exact slots.ack_le rank index
  · intro index
    by_cases own : index = slot
    · subst own
      simp only [Shared.apply, Function.update_self]
      exact drawn
    · simp only [Shared.apply, Function.update_of_ne own]
      exact slots.drawn index
  · intro rank inside index owes
    by_cases own : index = slot
    · subst own
      simp only [Shared.apply, Function.update_self]
      rw [describes.1, describes.2]
      exact filled rank inside
    · simp only [Shared.apply, Shared.Owes, Function.update_of_ne own] at owes ⊢
      exact slots.content rank inside index owes
  · intro rank transfer member
    obtain ⟨inside, owes, described, rest⟩ := slots.flying rank transfer member
    have own := acked.ne_of_owes inside owes
    refine ⟨inside, ?_, ?_, rest⟩
    · simp only [Shared.apply, Shared.Owes, Function.update_of_ne own]
      exact owes
    · simp only [Shared.apply, Shared.Describes, Function.update_of_ne own]
      exact described
  · intro rank inside index owes
    by_cases own : index = slot
    · subst own
      simp only [Shared.apply, Function.update_self]
    · have differ := Nat.ne_of_lt (newer index)
      simp only [Shared.apply, Shared.Owes, Function.update_of_ne own, Function.update_of_ne differ] at owes ⊢
      exact slots.told rank inside index owes
  · intro rank index used
    have differ := Nat.ne_of_lt (old rank index)
    simp only [Shared.apply, Function.update_of_ne differ] at used ⊢
    exact slots.acked rank index used

theorem Slots.acknowledge (slots : Slots cfg shared) (inside : rank < cfg.tpSize)
    (observed : shared.Observed rank expert sequence)
    (describes : shared.Describes (slotOf expert) epoch expert) (drained : shared.stream rank = [])
    (next : shared.history.acked rank epoch = expert) (early : epoch ≤ shared.control.activeEpoch) :
    Slots cfg (shared.apply cfg rank (.acknowledge epoch expert sequence)) := by
  obtain ⟨current, owes⟩ := observed
  have told : shared.history.told sequence = (epoch, expert) := by
    rw [current, slots.told rank inside _ owes, describes.1, describes.2]
  -- the acknowledged number is the published one, so no cell passes it
  have ack (index slot : Nat) :
      Function.update shared.control.ackSequence rank
        (Function.update (shared.control.ackSequence rank) (slotOf expert) sequence) index slot =
      if index = rank ∧ slot = slotOf expert then sequence else shared.control.ackSequence index slot := by
    by_cases same : index = rank
    · subst same
      by_cases own : slot = slotOf expert <;> simp [own]
    · simp [same]
  have grows (index layer : Nat) : shared.history.acked index layer ≤
      Function.update shared.history.acked rank
        (Function.update (shared.history.acked rank) epoch (expert + 1)) index layer := by
    by_cases same : index = rank
    · subst same
      rw [Function.update_self]
      exact le_update (Nat.le_trans (Nat.le_of_eq next) (Nat.le_succ _)) layer
    · exact Nat.le_of_eq (congrFun (Function.update_of_ne same _ _).symm layer)
  have owed (index slot : Nat)
      (still : (shared.apply cfg rank (.acknowledge epoch expert sequence)).Owes index slot) :
      shared.Owes index slot := by
    simp only [Shared.apply, Shared.Owes, ack] at still ⊢
    split at still
    case isTrue own => rw [own.1, own.2]; exact owes
    case isFalse => exact still
  refine
    { slots with
      ack_le := ?_, last := ?_, content := ?_, flying := ?_, told := ?_, acked := ?_, produced := ?_
      future := ?_ }
  · intro index slot
    simp only [Shared.apply, ack]
    split
    case isTrue own => exact Nat.le_of_eq (by rw [current, own.2])
    case isFalse => exact slots.ack_le index slot
  · intro index slot
    by_cases same : index = rank
    · subst same
      by_cases own : slot = slotOf expert
      · simp [Shared.apply, own]
      · simp [Shared.apply, Function.update_of_ne own, slots.last]
    · simp [Shared.apply, Function.update_of_ne same, slots.last]
  · intro index bound slot still
    exact slots.content index bound slot (owed index slot still)
  · intro index transfer member
    have other : index ≠ rank := by
      rintro rfl
      change transfer ∈ shared.stream index at member
      rw [drained] at member
      contradiction
    obtain ⟨bound, flying, rest⟩ := slots.flying index transfer member
    refine ⟨bound, ?_, rest⟩
    simp only [Shared.apply, Shared.Owes, Function.update_of_ne other]
    exact flying
  · intro index bound slot still
    exact slots.told index bound slot (owed index slot still)
  · intro index slot used
    simp only [Shared.apply, ack] at used ⊢
    split at used
    case isTrue own =>
      rw [if_pos own, told, own.1]
      simp
    case isFalse other =>
      rw [if_neg other]
      exact Nat.lt_of_lt_of_le (slots.acked index slot used) (grows index _)
  · intro done index bound
    exact Nat.le_trans (slots.produced done index bound) (grows index _)
  · intro index layer later
    refine ⟨(slots.future index layer later).1, ?_⟩
    have differ : layer ≠ epoch := by
      change shared.control.activeEpoch < layer at later
      omega
    by_cases same : index = rank
    · subst same
      simp only [Shared.apply, Function.update_self, Function.update_of_ne differ]
      exact (slots.future index layer later).2
    · simp only [Shared.apply, Function.update_of_ne same]
      exact (slots.future index layer later).2

theorem Slots.storeDone (slots : Slots cfg shared) (drained : shared.stream rank = [])
    (grows : shared.control.consumerDoneEpoch rank ≤ epoch)
    (copied : (shared.history.copied rank epoch).map Prod.fst =
      transfers cfg rank epoch (shared.history.counts epoch)) :
    Slots cfg (shared.apply cfg rank (.storeDone epoch)) := by
  refine { slots with flying := ?_, done := ?_, returned := ?_ }
  · intro index transfer member
    have other : index ≠ rank := by
      rintro rfl
      change transfer ∈ shared.stream index at member
      rw [drained] at member
      contradiction
    simp only [Shared.apply, Function.update_of_ne other]
    exact slots.flying index transfer member
  · intro index used
    by_cases same : index = rank
    · subst same
      simp only [Shared.apply, Function.update_self]
      exact copied
    · simp only [Shared.apply, Function.update_of_ne same] at used ⊢
      exact slots.done index used
  · intro entry member
    obtain ⟨early, whole⟩ := slots.returned entry member
    exact ⟨Nat.le_trans early (le_update grows _), whole⟩

theorem Slots.storeActive (epochs : Epochs cfg shared) (slots : Slots cfg shared)
    (later : shared.control.activeEpoch < layer.epoch) :
    Slots cfg (shared.apply cfg rank (.storeActive layer)) := by
  have done (index : Nat) : shared.control.consumerDoneEpoch index ≤ shared.control.activeEpoch :=
    Nat.le_trans (epochs.done_le index) (epochs.join_le index)
  have counts (epoch : Nat) (early : epoch ≤ shared.control.activeEpoch) :
      Function.update shared.history.counts layer.epoch layer.expertCount epoch =
        shared.history.counts epoch :=
    Function.update_of_ne (Nat.ne_of_lt (Nat.lt_of_le_of_lt early later)) ..
  refine { slots with flying := ?_, produced := ?_, future := ?_, done := ?_, returned := ?_ }
  · intro index transfer member
    obtain ⟨inside, owes, describes, fresh, early⟩ := slots.flying index transfer member
    exact ⟨inside, owes, describes, fresh, Nat.le_trans early (Nat.le_of_lt later)⟩
  · intro used index inside
    simp only [Shared.apply, counts _ epochs.produced_le]
    exact slots.produced used index inside
  · intro index epoch after
    exact slots.future index epoch (Nat.lt_trans later after)
  · intro index used
    simp only [Shared.apply, counts _ (done index)]
    exact slots.done index used
  · intro entry member
    obtain ⟨early, whole⟩ := slots.returned entry member
    simp only [Shared.apply, counts _ (Nat.le_trans early (done _))]
    exact ⟨early, whole⟩

theorem Slots.apply (epochs : Epochs cfg shared) (slots : Slots cfg shared)
    (guard : SlotsGuard cfg shared party effect) : Slots cfg (shared.apply cfg party.rank effect) := by
  cases effect with
  | draw =>
      exact { slots with drawn := fun slot => Nat.le_trans (slots.drawn slot) (Nat.le_succ _) }
  | storeReadyEpoch slot epoch => exact slots.describe guard.2 rfl
  | storeReadyExpert slot expert => exact slots.describe guard.2 rfl
  | storeReadySequence slot sequence =>
      obtain ⟨_, acked, fresh, epoch, expert, describes, filled⟩ := guard
      exact slots.publish acked fresh describes filled
  | beginWrite slot => exact slots.write guard.2 _
  | endWrite slot epoch expert => exact slots.write guard.2 _
  | storeProduced epoch => exact { slots with produced := fun _ => guard }
  | issue transfer =>
      obtain ⟨_, inside, owes, rest⟩ := guard
      refine { slots with flying := ?_ }
      intro index other member
      by_cases same : index = party.rank
      · subst same
        simp only [Shared.apply, Function.update_self, List.mem_append, List.mem_singleton] at member
        rcases member with member | rfl
        · exact slots.flying _ other member
        · exact ⟨inside, owes, rest⟩
      · simp only [Shared.apply, Function.update_of_ne same] at member
        exact slots.flying index other member
  | acknowledge epoch expert sequence =>
      obtain ⟨_, inside, observed, describes, drained, next, early⟩ := guard
      exact slots.acknowledge inside observed describes drained next early
  | storeDone epoch =>
      obtain ⟨_, drained, grows, copied⟩ := guard
      exact slots.storeDone drained grows copied
  | storeActive layer => exact slots.storeActive epochs guard
  | storeReturned epoch poisoned =>
      obtain ⟨used, done⟩ := guard
      refine { slots with returned := ?_ }
      intro entry member
      rcases List.mem_cons.mp member with rfl | member
      · refine ⟨Nat.le_of_eq done.symm, ?_⟩
        have whole := slots.done party.rank (by rw [done]; exact used)
        rw [done] at whole
        exact whole
      · exact slots.returned entry member
  | _ => exact { slots with }

/-! ## Who sees a write -/

theorem ProducerRely.refl {before after : Shared} (ready : after.control.ready = before.control.ready)
    (told : after.history.told = before.history.told)
    (drawn : after.control.nextSequence = before.control.nextSequence) (host : after.host = before.host)
    (ack : after.control.ackSequence = before.control.ackSequence) : ProducerRely before after where
  ready := ready
  told := told
  drawn := drawn
  host := host
  ack rank slot := Nat.le_of_eq (congrFun₂ ack rank slot).symm

theorem ConsumerRely.refl (cfg : Config) (rank : Nat) (shared : Shared) :
    ConsumerRely cfg rank shared shared where
  ack := rfl
  acked := rfl
  copied := rfl
  stream := rfl
  done := rfl
  active := .inl rfl
  ready _ _ _ := rfl

theorem healthy_apply (cfg : Config) (rank : Nat) (effect : Effect) (sick : shared.healthy = false) :
    (shared.apply cfg rank effect).healthy = false := by
  cases effect with
  | claim error =>
      have poisoned := of_decide_eq_false sick
      simp only [Shared.apply, Shared.healthy, if_neg poisoned]
      exact sick
  | release => rfl
  | _ => exact sick

/-- Only the producer writes what the producer relies on. -/
theorem producerRely_apply (slots : Slots cfg shared) (guard : SlotsGuard cfg shared party effect)
    (differ : party ≠ ⟨.caller, 0⟩) : ProducerRely shared (shared.apply cfg party.rank effect) := by
  cases effect with
  | draw => exact absurd guard differ
  | storeReadyEpoch | storeReadyExpert | storeReadySequence | beginWrite | endWrite =>
      exact absurd guard.1 differ
  | acknowledge epoch expert sequence =>
      refine { ProducerRely.refl rfl rfl rfl rfl rfl with ack := ?_ }
      have grows : shared.control.ackSequence party.rank (slotOf expert) ≤ sequence := by
        rw [guard.2.2.1.1]
        exact slots.ack_le _ _
      intro rank slot
      by_cases same : rank = party.rank
      · subst same
        simp only [Shared.apply, Function.update_self]
        exact le_update grows slot
      · simp only [Shared.apply, Function.update_of_ne same]
        exact Nat.le_refl _
  | _ => exact .refl rfl rfl rfl rfl rfl

/-- Only the consumer writes its cells, and the producer leaves a slot it owes
alone. -/
theorem consumerRely_apply (guard : SlotsGuard cfg shared party effect)
    (differ : other ≠ party) (role : other.role = .consumer) :
    ConsumerRely cfg other.rank shared (shared.apply cfg party.rank effect) := by
  have keeps := ConsumerRely.refl cfg other.rank shared
  cases effect with
  | storeActive layer => exact { keeps with active := .inr guard }
  | storeReadyEpoch slot | storeReadyExpert slot =>
      refine { keeps with ready := ?_ }
      intro inside index owes
      exact Function.update_of_ne (guard.2.ne_of_owes inside owes) ..
  | storeReadySequence slot =>
      refine { keeps with ready := ?_ }
      intro inside index owes
      exact Function.update_of_ne (guard.2.1.ne_of_owes inside owes) ..
  | issue =>
      have rank := rank_ne differ (role.trans guard.1.symm)
      exact { keeps with stream := Function.update_of_ne rank .. }
  | acknowledge =>
      have rank := rank_ne differ (role.trans guard.1.symm)
      exact { keeps with ack := Function.update_of_ne rank .., acked := Function.update_of_ne rank .. }
  | storeDone =>
      have rank := rank_ne differ (role.trans guard.1.symm)
      exact { keeps with done := Function.update_of_ne rank .. }
  | _ => exact { keeps with }

theorem SlotsGuard.rely (slots : Slots cfg shared) (guard : SlotsGuard cfg shared party effect)
    (differ : other ≠ party) : SlotsRely cfg other shared (shared.apply cfg party.rank effect) where
  sick := healthy_apply cfg party.rank effect
  producer own := producerRely_apply slots guard fun same => differ (own.trans same.symm)
  consumer role := consumerRely_apply guard differ role

/-! ## The assertions along a thread -/

theorem slotsAt_resume (next : Next) (what : String) : SlotsAt cfg shared party (next.resume what) := by
  cases next <;> trivial

section

variable {layer : Layer} {published : Nat → Nat}

theorem Shared.Published.same {after : Shared} (known : shared.Published cfg layer published expert)
    (sequence : ∀ slot, (after.control.ready slot).sequence = (shared.control.ready slot).sequence)
    (ack : after.control.ackSequence = shared.control.ackSequence)
    (told : after.history.told = shared.history.told) : after.Published cfg layer published expert where
  current slot used := by
    rw [sequence]
    exact known.current slot used
  unused slot unused rank inside := by
    rw [sequence, ack]
    exact known.unused slot unused rank inside
  outside := known.outside
  previous earlier same := by
    rw [told]
    exact known.previous earlier same

theorem Shared.Acked.same {after : Shared} (acked : shared.Acked cfg slot)
    (sequence : ∀ slot, (after.control.ready slot).sequence = (shared.control.ready slot).sequence)
    (ack : after.control.ackSequence = shared.control.ackSequence) : after.Acked cfg slot := by
  intro rank inside
  rw [sequence, ack]
  exact acked rank inside

theorem Shared.Fresh.same {after : Shared} (fresh : shared.Fresh number)
    (sequence : ∀ slot, (after.control.ready slot).sequence = (shared.control.ready slot).sequence)
    (drawn : after.control.nextSequence = shared.control.nextSequence) : after.Fresh number := by
  refine ⟨?_, by rw [drawn]; exact fresh.2⟩
  intro slot
  rw [sequence]
  exact fresh.1 slot

/-- A rank whose acknowledgement has reached what was published is up to
date. -/
theorem Shared.Published.ack_eq (slots : Slots cfg shared)
    (known : shared.Published cfg layer published expert) (inside : rank < cfg.tpSize)
    (acked : published slot ≤ shared.control.ackSequence rank slot) :
    shared.control.ackSequence rank slot = (shared.control.ready slot).sequence := by
  by_cases used : published slot = 0
  · exact known.unused slot used rank inside
  · have current := known.current slot used
    have bounded := slots.ack_le rank slot
    omega

theorem produceAt_drainFrom (last : layer.expertCount ≤ expert)
    (known : shared.Published cfg layer published expert)
    (acked : ∀ earlier < slot, shared.Acked cfg earlier) :
    ProduceAt cfg shared layer published (drainFrom published slot) := by
  have done (acked : ∀ earlier < hostSlots, shared.Acked cfg earlier) :
      ProduceAt cfg shared layer published .storeDone := by
    refine ⟨⟨expert, last, known⟩, ?_⟩
    intro slot
    by_cases inside : slot < hostSlots
    · exact acked slot inside
    · exact known.unused slot (known.outside slot (Nat.le_of_not_lt inside))
  have second (acked : shared.Acked cfg 0) :
      ProduceAt cfg shared layer published (if published 1 ≠ 0 then .drain 1 0 else .storeDone) := by
    split
    · refine ⟨⟨expert, last, known⟩, ?_, by nofun⟩
      intro earlier bound
      obtain rfl : earlier = 0 := by omega
      exact acked
    · have unused := known.unused 1 (not_not.mp ‹_›)
      apply done
      intro earlier bound
      unfold hostSlots at bound
      obtain rfl | rfl : earlier = 0 ∨ earlier = 1 := by omega
      · exact acked
      · exact unused
  match slot with
  | 0 =>
      simp only [drainFrom]
      split
      · exact ⟨⟨expert, last, known⟩, by nofun, by nofun⟩
      · exact second (known.unused 0 (not_not.mp ‹_›))
  | 1 => exact second (acked 0 (by omega))
  | further + 2 =>
      apply done
      intro earlier bound
      unfold hostSlots at bound
      exact acked earlier (by omega)

theorem slotsAt_loopHead (some : 0 < layer.expertCount)
    (known : shared.Published cfg layer published expert) :
    SlotsAt cfg shared party (loopHead layer published expert) := by
  refine ⟨some, ?_⟩
  split
  · split
    · exact ⟨known, by nofun⟩
    · exact ⟨known, known.unused _ (not_not.mp ‹_›)⟩
  · exact produceAt_drainFrom (Nat.le_of_not_lt ‹_›) known (by nofun)

theorem Shared.Published.publish (known : shared.Published cfg layer published expert) (fresh : shared.Fresh sequence)
    (describes : shared.Describes (slotOf expert) layer.epoch expert) :
    (shared.apply cfg rank (.storeReadySequence (slotOf expert) sequence)).Published cfg layer
      (Function.update published (slotOf expert) sequence) (expert + 1) := by
  have used : sequence ≠ 0 := by
    have newer := fresh.1 0
    omega
  refine { current := ?_, unused := ?_, outside := ?_, previous := ?_ }
  · intro slot numbered
    by_cases own : slot = slotOf expert
    · subst own
      simp only [Shared.apply, Function.update_self]
    · simp only [Shared.apply, Function.update_of_ne own] at numbered ⊢
      exact known.current slot numbered
  · intro slot unused rank inside
    have own : slot ≠ slotOf expert := by
      rintro rfl
      rw [Function.update_self] at unused
      exact used unused
    rw [Function.update_of_ne own] at unused
    simp only [Shared.apply, Function.update_of_ne own]
    exact known.unused slot unused rank inside
  · intro slot outside
    have own : slot ≠ slotOf expert := by
      have inside : slotOf expert < hostSlots := Nat.mod_lt _ (by decide)
      omega
    rw [Function.update_of_ne own]
    exact known.outside slot outside
  · intro earlier same
    obtain rfl : earlier = expert := by omega
    simp only [Shared.apply, Function.update_self]
    exact ⟨used, Prod.ext describes.1 describes.2⟩

theorem ProduceAt.all_acked (slots : Slots cfg shared) (some : 0 < layer.expertCount)
    (holds : ProduceAt cfg shared layer published .storeDone) (inside : rank < cfg.tpSize) :
    layer.expertCount ≤ shared.history.acked rank layer.epoch := by
  obtain ⟨⟨expert, last, known⟩, acked⟩ := holds
  obtain ⟨previous, rfl⟩ : ∃ previous, expert = previous + 1 := ⟨expert - 1, by omega⟩
  obtain ⟨used, told⟩ := known.previous previous rfl
  have current := known.current _ used
  have ack := acked (slotOf previous) rank inside
  have counted := slots.acked rank (slotOf previous) (by omega)
  rw [ack, ← current, told] at counted
  dsimp only at counted
  omega

end

theorem SlotsAt.produce_move {layer : Layer} {published : Nat → Nat} {stage : Produce}
    (slots : Slots cfg shared) (suits : party = ⟨.caller, 0⟩)
    (assertion : EpochsAt cfg shared party (.produce layer published stage))
    (quiet : QuietAt cfg shared party (.produce layer published stage))
    (holds : SlotsAt cfg shared party (.produce layer published stage))
    (move : Move cfg shared party.rank (.produce layer published stage) reached effect) :
    SlotsGuard cfg shared party effect ∧
      SlotsAt cfg (shared.apply cfg party.rank effect) party reached := by
  obtain ⟨some, holds⟩ := holds
  cases move with
  | poisoned _ sick => exact ⟨trivial, sick⟩
  | stopping => exact ⟨trivial, slotsAt_resume _ _⟩
  | abort => exact ⟨trivial, fun claimed => absurd rfl claimed⟩
  | matchActive | matchLayerId | matchExpertCount | matchJoin | joinedAgain | joinedNext =>
      exact ⟨trivial, some, holds⟩
  | joinedAll healthy =>
      have acked := (quiet suits rfl).resolve_left (by rw [healthy]; intro clash; cases clash)
      have unused : published = fun _ => 0 := holds
      refine ⟨trivial, slotsAt_loopHead some ?_⟩
      subst unused
      exact
        { current := fun _ used => absurd rfl used
          unused := fun slot _ => acked slot
          outside := fun _ _ => rfl
          previous := by intros; contradiction }
  | acquireAgain => exact ⟨trivial, some, holds.1, by intros; contradiction⟩
  | acquireNext inside acked =>
      refine ⟨trivial, some, holds.1, ?_⟩
      intro rank bound
      rcases Nat.lt_succ_iff_lt_or_eq.mp bound with bound | rfl
      · exact holds.2 rank bound
      · exact holds.1.ack_eq slots inside acked
  | acquireAll all =>
      exact ⟨trivial, some, holds.1, fun rank inside => holds.2 rank (Nat.lt_of_lt_of_le inside all)⟩
  | write => exact ⟨⟨suits, holds.2⟩, some, holds.1.same (fun _ => rfl) rfl rfl, holds.2⟩
  | @written _ _ expert =>
      refine ⟨⟨suits, holds.2⟩, some, holds.1.same (fun _ => rfl) rfl rfl, holds.2, ?_⟩
      intro rank inside
      simp only [Shared.apply, Shared.write, inside, if_true, Function.update_self]
  | writerFailed => exact ⟨trivial, trivial⟩
  | draw =>
      refine ⟨suits, some, holds.1.same (fun _ => rfl) rfl rfl, holds.2.1, holds.2.2, ?_, Nat.le_refl _⟩
      exact fun slot => Nat.lt_succ_of_le (slots.drawn slot)
  | @storeEpoch _ _ expert sequence =>
      obtain ⟨known, acked, filled, fresh⟩ := holds
      have sequence : ∀ slot, ((shared.apply cfg party.rank
          (.storeReadyEpoch (slotOf expert) layer.epoch)).control.ready slot).sequence =
            (shared.control.ready slot).sequence := sequence_update rfl
      refine ⟨⟨suits, acked⟩, some, known.same sequence rfl rfl, acked.same sequence rfl, filled,
        fresh.same sequence rfl, ?_⟩
      simp only [Shared.apply, Function.update_self]
  | @storeExpert _ _ expert sequence =>
      obtain ⟨known, acked, filled, fresh, epoch⟩ := holds
      have sequence : ∀ slot, ((shared.apply cfg party.rank
          (.storeReadyExpert (slotOf expert) expert)).control.ready slot).sequence =
            (shared.control.ready slot).sequence := sequence_update rfl
      refine ⟨⟨suits, acked⟩, some, known.same sequence rfl rfl, acked.same sequence rfl, filled,
        fresh.same sequence rfl, ?_⟩
      simp only [Shared.apply, Shared.Describes, Function.update_self]
      exact ⟨epoch, trivial⟩
  | storeSequence =>
      obtain ⟨known, acked, filled, fresh, describes⟩ := holds
      exact ⟨⟨suits, acked, fresh, _, _, describes, filled⟩,
        slotsAt_loopHead some (known.publish fresh describes)⟩
  | drainAgain => exact ⟨trivial, some, holds.1, holds.2.1, by intros; contradiction⟩
  | drainNext inside acked =>
      obtain ⟨⟨expert, last, known⟩, earlier, scanned⟩ := holds
      refine ⟨trivial, some, ⟨expert, last, known⟩, earlier, ?_⟩
      intro rank bound
      rcases Nat.lt_succ_iff_lt_or_eq.mp bound with bound | rfl
      · exact scanned rank bound
      · exact known.ack_eq slots inside acked
  | drainAll all =>
      obtain ⟨⟨expert, last, known⟩, earlier, scanned⟩ := holds
      refine ⟨trivial, some, produceAt_drainFrom last known ?_⟩
      intro slot bound
      rcases Nat.lt_succ_iff_lt_or_eq.mp bound with bound | rfl
      · exact earlier slot bound
      · exact fun rank inside => scanned rank (Nat.lt_of_lt_of_le inside all)
  | storeProduced =>
      refine ⟨?_, trivial⟩
      intro rank inside
      rw [assertion.2]
      exact holds.all_acked slots some inside

theorem Slots.owes_of_new (slots : Slots cfg shared) (expert : Nat)
    (new : (shared.control.ready (slotOf expert)).sequence ≠
      shared.lastReadySequence rank (slotOf expert)) :
    shared.Observed rank expert (shared.control.ready (slotOf expert)).sequence := by
  have bounded := slots.ack_le rank (slotOf expert)
  rw [slots.last] at new
  exact ⟨rfl, by unfold Shared.Owes; omega⟩

theorem SlotsAt.consume_move {batch : Batch} {stage : Consume} (slots : Slots cfg shared)
    (suits : party.role = .consumer)
    (assertion : EpochsAt cfg shared party (.consume batch stage))
    (holds : SlotsAt cfg shared party (.consume batch stage))
    (move : Move cfg shared party.rank (.consume batch stage) reached effect) :
    SlotsGuard cfg shared party effect ∧
      SlotsAt cfg (shared.apply cfg party.rank effect) party reached := by
  obtain ⟨inside, consuming, joined, counted, _⟩ := assertion
  have early : batch.epoch ≤ shared.control.activeEpoch := Nat.le_of_eq consuming.1.symm
  cases move with
  | poisoned _ sick => exact ⟨trivial, sick⟩
  | stopping => exact ⟨trivial, slotsAt_resume _ _⟩
  | abort => exact ⟨trivial, fun claimed => absurd rfl claimed⟩
  | copyFailed => exact ⟨trivial, trivial⟩
  | consumeAgain polling =>
      rcases polling with rfl | ⟨_, rfl⟩ | ⟨_, rfl⟩
      · exact ⟨trivial, holds⟩
      · exact ⟨trivial, holds.1, holds.2.1⟩
      · exact ⟨trivial, holds.1, holds.2.1⟩
  | consumeOn => exact ⟨trivial, holds⟩
  | sequenceFound new => exact ⟨trivial, holds.1, holds.2, slots.owes_of_new _ new⟩
  | sameEpoch same => exact ⟨trivial, holds.1, holds.2.1, holds.2.2, same⟩
  | sameExpert same =>
      obtain ⟨working, logged, observed, epoch⟩ := holds
      exact ⟨trivial, working, logged, observed, epoch, same⟩
  | readyClear => exact ⟨trivial, holds.1, holds.2.1, holds.2.2, Nat.zero_le _⟩
  | @issue kind _ sequence bound =>
      obtain ⟨working, logged, found, _⟩ := holds
      refine ⟨⟨suits, inside, found.1.2, found.2, consuming.2, early⟩, working, ?_, found, bound⟩
      simp only [Shared.apply, Shared.Logged, Function.update_self, List.range_succ, List.map_append,
        List.map_singleton, ← List.append_assoc]
      rw [logged]
  | record all =>
      obtain ⟨working, logged, found, bound⟩ := holds
      obtain rfl := Nat.le_antisymm bound all
      exact ⟨trivial, working, logged, found⟩
  | eventAgain => exact ⟨trivial, holds⟩
  | eventDone drained => exact ⟨trivial, holds.1, holds.2.1, holds.2.2, drained⟩
  | eventClear => exact ⟨trivial, holds⟩
  | acknowledge more =>
      obtain ⟨working, logged, found, drained⟩ := holds
      refine ⟨⟨suits, inside, found.1, found.2, drained, working.1, early⟩, ⟨?_, more⟩, ?_⟩
      · simp only [Shared.apply, Function.update_self]
      · change _ ++ _ = _ ++ _ at logged
        change _ ++ _ = transfers cfg party.rank batch.epoch (batch.expert + 1) ++ _
        rw [transfers_succ, ← logged]
        exact (List.append_nil _).symm
  | acknowledgeLast last =>
      obtain ⟨working, logged, found, drained⟩ := holds
      refine ⟨⟨suits, inside, found.1, found.2, drained, working.1, early⟩, ?_, drained⟩
      have whole : batch.expertCount = batch.expert + 1 := by
        have := working.2
        omega
      change _ ++ _ = _ ++ _ at logged
      change _ ++ _ = transfers cfg party.rank batch.epoch batch.expertCount ++ _
      rw [whole, transfers_succ, ← logged]
      exact (List.append_nil _).symm
  | storeDone =>
      obtain ⟨logged, drained⟩ := holds
      refine ⟨⟨suits, drained, Nat.le_of_lt consuming.2, ?_⟩, drained, ?_⟩
      · unfold Shared.Logged at logged
        rw [drained, List.append_nil, counted] at logged
        simpa using logged
      · intro later
        simp only [Shared.apply, Function.update_self] at later
        rw [consuming.1] at later
        exact absurd later (Nat.lt_irrefl _)

theorem SlotsAt.poll_move {stage : Poll}
    (assertion : EpochsAt cfg shared party (.poll stage))
    (holds : SlotsAt cfg shared party (.poll stage))
    (move : Move cfg shared party.rank (.poll stage) reached effect) :
    SlotsGuard cfg shared party effect ∧
      SlotsAt cfg (shared.apply cfg party.rank effect) party reached := by
  cases move with
  | poisoned _ sick => exact ⟨trivial, sick⟩
  | stopping => exact ⟨trivial, slotsAt_resume _ _⟩
  | abort => exact ⟨trivial, fun claimed => absurd rfl claimed⟩
  | leave => exact ⟨trivial, trivial⟩
  | pollOn | pollActive | pollJoined => exact ⟨trivial, holds⟩
  | beginConsume some =>
      obtain ⟨_, ⟨active, undone⟩, _⟩ := assertion
      obtain ⟨drained, untouched⟩ := holds
      rw [active] at untouched
      obtain ⟨copied, acked⟩ := untouched undone
      refine ⟨trivial, ⟨acked, some⟩, ?_⟩
      simp only [Shared.apply, Shared.Logged, copied, drained]
      rfl

theorem SlotsAt.wait_move {epoch : Nat} {stats : Stats} {stage : Wait} (epochs : Epochs cfg shared)
    (assertion : EpochsAt cfg shared party (.wait epoch stats stage))
    (holds : SlotsAt cfg shared party (.wait epoch stats stage))
    (move : Move cfg shared party.rank (.wait epoch stats stage) reached effect) :
    SlotsGuard cfg shared party effect ∧
      SlotsAt cfg (shared.apply cfg party.rank effect) party reached := by
  cases move with
  | poisoned _ sick => exact ⟨trivial, sick⟩
  | stopping => exact ⟨trivial, slotsAt_resume _ _⟩
  | abort => exact ⟨trivial, fun claimed => absurd rfl claimed⟩
  | joined used => exact ⟨trivial, fun _ => used⟩
  | waitAgain polling =>
      refine ⟨trivial, fun _ => holds ?_⟩
      rcases polling with rfl | rfl <;> nofun
  | storeReturned =>
      obtain ⟨joined, done, _⟩ := assertion
      have bounded := epochs.done_le party.rank
      exact ⟨⟨holds (by nofun), by omega⟩, trivial⟩
  | _ => exact ⟨trivial, fun _ => holds (by nofun)⟩

theorem SlotsAt.move {position : Position} (epochs : Epochs cfg shared) (slots : Slots cfg shared)
    (suits : position.Suits party)
    (assertion : EpochsAt cfg shared party position) (quiet : QuietAt cfg shared party position)
    (holds : SlotsAt cfg shared party position)
    (move : Move cfg shared party.rank position reached effect) :
    SlotsGuard cfg shared party effect ∧
      SlotsAt cfg (shared.apply cfg party.rank effect) party reached := by
  cases position with
  | produce layer published stage => exact holds.produce_move slots suits assertion quiet move
  | consume batch stage => exact holds.consume_move slots suits assertion move
  | poll stage => exact holds.poll_move assertion move
  | wait epoch stats stage => exact holds.wait_move epochs assertion move
  | check call =>
      cases move with
      | poisoned _ sick => exact ⟨trivial, sick⟩
      | stopping => exact ⟨trivial, slotsAt_resume _ _⟩
      | abort => exact ⟨trivial, fun claimed => absurd rfl claimed⟩
      | beginWait => exact ⟨trivial, fun started => absurd rfl started⟩
      | beginProduce _ _ some => exact ⟨trivial, some, rfl⟩
      | _ => exact ⟨trivial, trivial⟩
  | join layer stage =>
      cases move with
      | poisoned _ sick => exact ⟨trivial, sick⟩
      | stopping => exact ⟨trivial, slotsAt_resume _ _⟩
      | abort => exact ⟨trivial, fun claimed => absurd rfl claimed⟩
      | storeActive => exact ⟨assertion.1, trivial⟩
      | _ => exact ⟨trivial, trivial⟩
  | publish stage error next =>
      cases move with
      | poisoned handler => cases handler
      | stopping handler => cases handler
      | abort publisher => cases publisher
      | claim healthy =>
          refine ⟨trivial, fun _ => ?_⟩
          have poison := of_decide_eq_true healthy
          simp [Shared.apply, Shared.healthy, poison]
      | claimLost => exact ⟨trivial, slotsAt_resume _ _⟩
      | release => exact ⟨trivial, slotsAt_resume _ _⟩
      | _ => exact ⟨trivial, fun _ => holds (by intro clash; cases clash)⟩
  | report stage next =>
      cases move with
      | poisoned handler => cases handler
      | stopping handler => cases handler
      | abort publisher => cases publisher
      | unsettled => exact ⟨trivial, slotsAt_resume _ _⟩
      | reportMessage => exact ⟨trivial, slotsAt_resume _ _⟩
      | _ => exact ⟨trivial, holds⟩
  | _ =>
      cases move with
      | poisoned handler => cases handler
      | stopping handler => cases handler
      | abort => exact ⟨trivial, fun claimed => absurd rfl claimed⟩
      | _ => exact ⟨trivial, trivial⟩

theorem producing_drainFrom (published : Nat → Nat) (slot : Nat) :
    (Position.produce layer published (drainFrom published slot)).producing = true := by
  match slot with
  | 0 =>
      simp only [drainFrom]
      split
      · rfl
      · split <;> rfl
  | 1 =>
      simp only [drainFrom]
      split <;> rfl
  | further + 2 => rfl

theorem producing_loopHead (layer : Layer) (published : Nat → Nat) (expert : Nat) :
    (loopHead layer published expert).producing = true := by
  unfold loopHead
  split
  · split <;> rfl
  · exact producing_drainFrom published 0

theorem catches_of_producing {position : Position} (handler : position.handler = some next)
    (producing : position.producing = true) : next = .catches := by
  cases position with
  | produce layer published stage => cases stage <;> cases handler <;> first | rfl | cases producing
  | publish stage error exit => cases handler
  | caught what => cases handler
  | _ => cases producing

theorem producing_publisher {position : Position} (publisher : position.publisher = some next)
    (producing : position.producing = true) : next = .catches ∨ next = .rethrows := by
  cases position with
  | produce layer published stage =>
      have handler : (Position.produce layer published stage).handler = some next := publisher
      exact .inl (catches_of_producing handler producing)
  | publish stage error exit => cases publisher
  | caught what => exact .inr (Option.some.inj publisher).symm
  | _ => cases producing

theorem QuietAt.move {position : Position} (suits : position.Suits party)
    (holds : SlotsAt cfg shared party position) (quiet : QuietAt cfg shared party position)
    (move : Move cfg shared party.rank position reached effect) :
    QuietAt cfg (shared.apply cfg party.rank effect) party reached := by
  intro own settled
  cases move with
  | poisoned _ sick => exact .inl sick
  | stopping handler =>
      cases producing : position.producing with
      | false => exact quiet own producing
      | true =>
          obtain rfl := catches_of_producing handler producing
          contradiction
  | abort publisher =>
      cases producing : position.producing with
      | false => exact quiet own producing
      | true =>
          obtain rfl | rfl := producing_publisher publisher producing
          · contradiction
          · contradiction
  | joinedAll => exact absurd settled (by rw [producing_loopHead]; intro clash; cases clash)
  | storeSequence => exact absurd settled (by rw [producing_loopHead]; intro clash; cases clash)
  | drainAll => exact absurd settled (by rw [producing_drainFrom]; intro clash; cases clash)
  | storeProduced => exact .inr holds.2.2
  | rethrow sick => exact .inl sick
  | claim healthy =>
      have poison := of_decide_eq_true healthy
      exact .inl (by simp [Shared.apply, Shared.healthy, poison])
  | claimLost sick => exact .inl (healthy_apply cfg party.rank _ sick)
  | release => exact .inl rfl
  | storeCode | storeRank | storeMessage => exact .inl (holds (by intro clash; cases clash))
  | acknowledge | acknowledgeLast =>
      rw [own] at suits
      contradiction
  | _ => first | exact quiet own rfl | contradiction

/-! ## Runs -/

theorem slots_move {state : State} (epochs : (epochsOutline cfg).Holds state.shared state.position)
    (holds : (slotsOutline cfg).Holds state.shared state.position)
    (move : Move cfg state.shared party.rank (state.position party) reached effect) :
    (slotsOutline cfg).Holds (state.shared.apply cfg party.rank effect)
      (Function.update state.position party reached) := by
  have slots := holds.1
  obtain ⟨suits, assertion, _⟩ := epochs.2 party
  obtain ⟨standing, quiet⟩ := holds.2 party
  obtain ⟨guard, own⟩ := standing.move epochs.1 slots suits assertion quiet move
  have kept := slots.apply epochs.1 guard
  exact holds.move kept ⟨own, quiet.move suits standing move⟩ fun other differ =>
    slots_silent slots kept (guard.rely slots differ) (epochs.2 other)

theorem mem_transfers (member : transfer ∈ transfers cfg rank epoch count) : transfer.epoch = epoch := by
  simp only [transfers, List.mem_flatMap, List.mem_map] at member
  obtain ⟨expert, _, kind, _, rfl⟩ := member
  rfl

/-- The memory after the device ran the first copy of a stream. -/
def Shared.copied (shared : Shared) (rank : Nat) (transfer : Transfer) (rest : List Transfer) : Shared :=
  { shared with
    stream := Function.update shared.stream rank rest
    history.copied := Function.update shared.history.copied rank
      (Function.update (shared.history.copied rank) transfer.epoch
        (shared.history.copied rank transfer.epoch ++
          [(transfer, shared.host rank (slotOf transfer.expert))])) }

theorem copied_of_ne (shared : Shared) {rest : List Transfer} (other : index ≠ rank ∨ epoch ≠ transfer.epoch) :
    (shared.copied rank transfer rest).history.copied index epoch = shared.history.copied index epoch := by
  by_cases same : index = rank
  · subst same
    simp only [Shared.copied, Function.update_self]
    exact Function.update_of_ne (other.resolve_left (fun differ => differ rfl)) ..
  · simp only [Shared.copied, Function.update_of_ne same]

theorem Slots.device (slots : Slots cfg shared)
    (queued : shared.stream rank = transfer :: rest) : Slots cfg (shared.copied rank transfer rest) := by
  obtain ⟨inside, owes, describes, undone, early⟩ :=
    slots.flying rank transfer (by rw [queued]; exact List.mem_cons_self ..)
  have content := slots.content rank inside _ owes
  rw [describes.1, describes.2] at content
  refine { slots with flying := ?_, future := ?_, done := ?_, intact := ?_, returned := ?_ }
  · intro index other member
    apply slots.flying index other
    by_cases same : index = rank
    · subst same
      simp only [Shared.copied, Function.update_self] at member
      rw [queued]
      exact List.mem_cons_of_mem _ member
    · simp only [Shared.copied, Function.update_of_ne same] at member
      exact member
  · intro index epoch later
    change shared.control.activeEpoch < epoch at later
    rw [copied_of_ne shared (.inr (by omega))]
    exact slots.future index epoch later
  · intro index used
    have other : index ≠ rank ∨ shared.control.consumerDoneEpoch index ≠ transfer.epoch := by
      by_cases same : index = rank
      · subst same
        exact .inr (Nat.ne_of_lt undone)
      · exact .inl same
    change ((shared.copied rank transfer rest).history.copied index
      (shared.control.consumerDoneEpoch index)).map Prod.fst = _
    rw [copied_of_ne shared other]
    exact slots.done index used
  · intro index epoch entry member
    by_cases same : index = rank ∧ epoch = transfer.epoch
    · obtain ⟨rfl, rfl⟩ := same
      simp only [Shared.copied, Function.update_self, List.mem_append, List.mem_singleton] at member
      rcases member with member | rfl
      · exact slots.intact index _ entry member
      · exact content
    · rw [copied_of_ne shared (not_and_or.mp same)] at member
      exact slots.intact index epoch entry member
  · intro entry member
    obtain ⟨done, whole⟩ := slots.returned entry member
    have other : entry.rank ≠ rank ∨ entry.epoch ≠ transfer.epoch := by
      by_cases same : entry.rank = rank
      · subst same
        exact .inr (by omega)
      · exact .inl same
    rw [copied_of_ne shared other]
    exact ⟨done, whole⟩

/-- The device moves a copy from the queue to the log, so what was issued stays
the same. -/
theorem Shared.Logged.device (queued : shared.stream rank = transfer :: rest)
    (logged : shared.Logged cfg index epoch expert kind) :
    (shared.copied rank transfer rest).Logged cfg index epoch expert kind := by
  by_cases same : index = rank
  · subst same
    unfold Shared.Logged at logged ⊢
    have own : transfer.epoch = epoch := by
      have member : transfer ∈ transfers cfg index epoch expert ++
          (List.range kind).map (transferOf cfg index epoch expert) := by
        rw [← logged, queued]
        exact List.mem_append_right _ (List.mem_cons_self ..)
      rcases List.mem_append.mp member with member | member
      · exact mem_transfers member
      · obtain ⟨_, _, rfl⟩ := List.mem_map.mp member
        rfl
    subst own
    simp only [Shared.copied, Function.update_self, List.map_append, List.map_singleton,
      List.append_assoc, List.singleton_append]
    rw [← queued]
    exact logged
  · unfold Shared.Logged at logged ⊢
    rw [copied_of_ne shared (.inl same)]
    simp only [Shared.copied, Function.update_of_ne same]
    exact logged

theorem ConsumeAt.device {stage : Consume} (queued : shared.stream rank = transfer :: rest)
    (holds : ConsumeAt cfg shared index batch stage) :
    ConsumeAt cfg (shared.copied rank transfer rest) index batch stage := by
  have drained : shared.stream index = [] → (shared.copied rank transfer rest).stream index = [] := by
    intro empty
    have other : index ≠ rank := by
      rintro rfl
      rw [empty] at queued
      contradiction
    simp only [Shared.copied, Function.update_of_ne other]
    exact empty
  cases stage with
  | awaitActive | awaitSequence => exact ⟨holds.1, holds.2.device queued⟩
  | compareEpoch | compareExpert | clearReady | issue | awaitEvent =>
      exact ⟨holds.1, holds.2.1.device queued, holds.2.2⟩
  | clearEvent | acknowledge =>
      exact ⟨holds.1, holds.2.1.device queued, holds.2.2.1, drained holds.2.2.2⟩
  | storeDone => exact ⟨holds.1.device queued, drained holds.2⟩

theorem slots_device {position : Position} (slots : Slots cfg shared)
    (queued : shared.stream rank = transfer :: rest)
    (holds : (slotsOutline cfg).asserts shared party position) :
    (slotsOutline cfg).asserts (shared.copied rank transfer rest) party position := by
  refine ⟨?_, holds.2⟩
  obtain ⟨holds, _⟩ := holds
  cases position with
  | produce layer published stage =>
      refine ⟨holds.1, ?_⟩
      have rely : ProducerRely shared (shared.copied rank transfer rest) := .refl rfl rfl rfl rfl rfl
      exact holds.2.stable rely (slots.device queued)
  | poll stage =>
      have other : party.rank ≠ rank := by
        intro same
        rw [← same, holds.1] at queued
        contradiction
      refine ⟨?_, ?_⟩
      · simp only [Shared.copied, Function.update_of_ne other]
        exact holds.1
      · intro undone
        rw [copied_of_ne shared (.inl other)]
        exact holds.2 undone
  | consume batch stage => exact holds.device queued
  | _ => exact holds

theorem slots_step {state : State} (epochs : (epochsOutline cfg).Holds state.shared state.position)
    (holds : (slotsOutline cfg).Holds state.shared state.position)
    (moved : step cfg state action = some after) :
    (slotsOutline cfg).Holds after.shared after.position := by
  have slots := holds.1
  cases action with
  | call rank call =>
      obtain ⟨_, idle, rfl⟩ := step_call moved
      have kept : Slots cfg { state.shared with
          history.late := Function.update state.shared.history.late rank (!state.shared.healthy) } :=
        { slots with }
      have before := holds.2 ⟨.caller, rank⟩
      rw [idle] at before
      refine holds.move kept ⟨trivial, fun own _ => before.2 own rfl⟩ fun other _ =>
        slots_silent slots kept ?_ (epochs.2 other)
      exact
        { sick := id
          producer := fun _ => .refl rfl rfl rfl rfl rfl
          consumer := fun _ => { ConsumerRely.refl cfg other.rank state.shared with } }
  | move party choice =>
      obtain ⟨_, reached, effect, move, rfl⟩ := step_move moved
      exact slots_move epochs holds move
  | device rank =>
      obtain ⟨transfer, rest, queued, rfl⟩ := step_device moved
      exact holds.silent (slots.device queued) fun other => slots_device slots queued

theorem slots_start (cfg : Config) : (slotsOutline cfg).Holds start.shared start.position := by
  have acked (slot : Nat) : start.shared.Acked cfg slot := fun _ _ => rfl
  have clean (rank slot : Nat) : ¬start.shared.Owes rank slot := Nat.lt_irrefl 0
  refine ⟨?_, ?_⟩
  · exact
      { ack_le := fun _ _ => Nat.le_refl _, drawn := fun _ => Nat.le_refl _, last := fun _ _ => rfl
        content := fun rank _ slot owes => absurd owes (clean rank slot), flying := by nofun
        told := fun rank _ slot owes => absurd owes (clean rank slot)
        acked := fun _ _ used => absurd rfl used, produced := fun used => absurd rfl used
        future := fun _ _ _ => ⟨rfl, rfl⟩, done := fun _ used => absurd rfl used
        intact := by nofun, returned := by nofun }
  · rintro ⟨role, rank⟩
    cases role with
    | caller => exact ⟨trivial, fun _ _ => .inr acked⟩
    | closer => exact ⟨trivial, fun own => by cases own⟩
    | consumer => exact ⟨⟨rfl, fun undone => absurd undone (Nat.lt_irrefl 0)⟩, fun own => by cases own⟩

theorem reachable_slots (reached : (machine cfg).Reachable state) :
    (slotsOutline cfg).Holds state.shared state.position := by
  induction reached with
  | initial starts =>
      cases starts
      exact slots_start cfg
  | step reached moved holds => exact slots_step (reachable_epochs reached) holds moved

/-- In every run, whatever the calls and the failures: a copy, when it is made
and while it is queued, finds what the writer wrote for its expert; the writer
writes no slot that a rank has been told about and not acknowledged; and a rank
whose `wait` returned has copied every expert of the layer once, in order, each
to an extent of its own. -/
theorem transport_delivers (reached : (machine cfg).Reachable state) :
    (∀ rank, ∀ transfer ∈ state.shared.stream rank,
      state.shared.host rank (slotOf transfer.expert) = some (transfer.epoch, transfer.expert)) ∧
    (∀ rank epoch, ∀ entry ∈ state.shared.history.copied rank epoch,
      entry.2 = some (epoch, entry.1.expert)) ∧
    (∀ layer published expert,
      state.position ⟨.caller, 0⟩ = .produce layer published (.writing expert) →
        ∀ rank < cfg.tpSize, ¬state.shared.Owes rank (slotOf expert)) ∧
    (∀ entry ∈ state.shared.history.returns,
      (state.shared.history.copied entry.rank entry.epoch).map Prod.fst =
        transfers cfg entry.rank entry.epoch (state.shared.history.counts entry.epoch)) ∧
    ∀ rank epoch kind earlier later, earlier < later →
      (transferOf cfg rank epoch earlier kind).destination + cfg.expertNbytes kind ≤
        (transferOf cfg rank epoch later kind).destination := by
  obtain ⟨slots, standing⟩ := reachable_slots reached
  refine ⟨?_, slots.intact, ?_, fun entry member => (slots.returned entry member).2, ?_⟩
  · intro rank transfer queued
    obtain ⟨inside, owes, describes, _⟩ := slots.flying rank transfer queued
    rw [slots.content rank inside _ owes, describes.1, describes.2]
  · intro layer published expert writing rank inside owes
    have holds := (standing ⟨.caller, 0⟩).1
    rw [writing] at holds
    exact holds.2.2.ne_of_owes inside owes rfl
  · intro rank epoch kind earlier later order
    have bound : (earlier + 1) * cfg.expertNbytes kind ≤ later * cfg.expertNbytes kind :=
      Nat.mul_le_mul_right _ order
    rw [Nat.succ_mul] at bound
    simp only [transferOf]
    omega

end

/-! A run with three experts on two ranks: the third expert reuses the first
host slot. -/

def go (role : Role) (rank count : Nat) : List Action :=
  List.replicate count (.move ⟨role, rank⟩ .go)

/-- The consumer's steps for one expert and the copies of the device. -/
def copyExpert (rank : Nat) : List Action :=
  go .consumer rank 10 ++ List.replicate bufferKinds (.device rank) ++ go .consumer rank 3

def twoRanks : Config where
  tpSize := 2
  numExperts := 4
  timeoutMs := 60000
  expertNbytes _ := 16
  localGpuPtrs _ kind := 1024 * kind

def threeExperts : Layer :=
  ⟨1, 0, 3⟩

def reusedSlot : List Action :=
  [.call 0 (.join threeExperts)] ++ go .caller 0 8 ++ [.call 1 (.join threeExperts)] ++ go .caller 1 8 ++
    [.call 0 (.runProducer threeExperts)] ++ go .caller 0 21 ++ go .consumer 0 4 ++ go .consumer 1 4 ++
    copyExpert 0 ++ copyExpert 1 ++ go .caller 0 9 ++ copyExpert 0 ++ copyExpert 0 ++ copyExpert 1 ++
    copyExpert 1 ++ go .consumer 0 1 ++ go .consumer 1 1 ++ go .caller 0 8 ++ [.call 1 (.wait 1)] ++
    go .caller 1 13

set_option maxRecDepth 10000 in
theorem transport_delivers_two_ranks :
    ∃ state, (machine twoRanks).Reachable state ∧ ⟨1, 1, false⟩ ∈ state.shared.history.returns ∧
      (state.shared.history.copied 1 1).map Prod.fst = transfers twoRanks 1 1 3 := by
  obtain ⟨state, reached, found⟩ := (machine twoRanks).exists_reachable_of_run start reusedSlot rfl
    (fun state => decide (⟨1, 1, false⟩ ∈ state.shared.history.returns ∧
      state.shared.history.counts 1 = 3)) (by decide)
  obtain ⟨returned, count⟩ := of_decide_eq_true found
  have whole := (transport_delivers reached).2.2.2.1 _ returned
  rw [count] at whole
  exact ⟨state, reached, returned, whole⟩

/-- A new layer becomes active only when every rank has returned from the last
one: no copy of it is queued any more and all its copies are made. -/
theorem layers_advance_together (reached : (machine cfg).Reachable state)
    (moved : step cfg state action = some after)
    (advances : after.shared.control.activeEpoch ≠ state.shared.control.activeEpoch) :
    state.shared.control.activeEpoch < after.shared.control.activeEpoch ∧
      ∀ rank < cfg.tpSize, state.shared.stream rank = [] ∧
        (state.shared.control.activeEpoch ≠ 0 →
          (state.shared.history.copied rank state.shared.control.activeEpoch).map Prod.fst =
            transfers cfg rank state.shared.control.activeEpoch
              (state.shared.history.counts state.shared.control.activeEpoch)) := by
  obtain ⟨epochs, standing⟩ := reachable_epochs reached
  obtain ⟨slots, _⟩ := reachable_slots reached
  cases action with
  | call rank call =>
      obtain ⟨_, _, rfl⟩ := step_call moved
      exact absurd rfl advances
  | device rank =>
      obtain ⟨_, _, _, rfl⟩ := step_device moved
      exact absurd rfl advances
  | move party choice =>
      obtain ⟨inside, reached, effect, move, rfl⟩ := step_move moved
      obtain ⟨suits, assertion, counted⟩ := standing party
      have guard := (assertion.move epochs inside suits counted move).1
      cases effect with
      | storeActive layer =>
          obtain ⟨_, later, returned, _⟩ := guard
          refine ⟨later, fun rank within => ?_⟩
          have through := Nat.le_trans (returned rank within) (epochs.returned_le rank)
          constructor
          · apply List.eq_nil_iff_forall_not_mem.mpr
            intro transfer queued
            obtain ⟨_, _, _, early, bound⟩ := slots.flying rank transfer queued
            omega
          · intro started
            have same := Nat.le_antisymm (Nat.le_trans (epochs.done_le rank) (epochs.join_le rank)) through
            rw [← same] at started ⊢
            exact slots.done rank started
      | _ => exact absurd rfl advances

/-- Rank 0 waits for the first layer and joins the second. -/
def secondLayer : List Action :=
  reusedSlot ++ [.call 0 (.wait 1)] ++ go .caller 0 14 ++ [.call 0 (.join ⟨2, 1, 3⟩)] ++ go .caller 0 8

set_option maxRecDepth 10000 in
theorem layers_advance_together_two_ranks :
    ∃ state, (machine twoRanks).Reachable state ∧ state.shared.control.activeEpoch = 1 ∧
      state.shared.stream 1 = [] := by
  obtain ⟨state, reached, found⟩ := (machine twoRanks).exists_reachable_of_run start secondLayer rfl
    (fun state : State => decide (state.shared.control.activeEpoch = 1 ∧
      (step twoRanks state (.move ⟨.caller, 0⟩ .go)).map (fun after : State => after.shared.control.activeEpoch) = some 2)) (by decide)
  obtain ⟨active, moves⟩ := of_decide_eq_true found
  obtain ⟨after, moved, next⟩ := Option.map_eq_some_iff.mp moves
  have together := layers_advance_together reached moved (by rw [next, active]; exact Nat.succ_ne_self 1)
  exact ⟨state, reached, active, (together.2 1 (Nat.lt_succ_self 1)).1⟩

end KtKernel.Transport
