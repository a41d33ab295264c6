import Mathlib.Algebra.Order.Field.Rat
import Mathlib.Tactic.Linarith
import Mathlib.Tactic.NormNum
import KtKernel.Sft.CacheStack

namespace KtKernel.Sft.Dropout

/-! The masks of LoRA dropout over a training step.

A channel is dropped by a hash of the seed and its place.  Every forward of an
instance draws the next seed; a saving forward keeps it in the cache entry for
the backward.  A rate is a float below one. -/

def loraDropoutMix (value : UInt64) : UInt64 :=
  let value := value + 0x9e3779b97f4a7c15
  let value := (value ^^^ (value >>> 30)) * 0xbf58476d1ce4e5b9
  let value := (value ^^^ (value >>> 27)) * 0x94d049bb133111eb
  value ^^^ (value >>> 31)

structure Config where
  layers : Nat
  tpCount : Nat
  expertNum : Nat
  hiddenSize : Nat
  intermediateSize : Nat → Nat
  maxCacheDepth : Nat
  loraDropout : ℚ
  someLayer : 0 < layers
  somePart : 0 < tpCount
  someExpert : 0 < expertNum
  someChannel : 0 < hiddenSize
  nonnegative : 0 ≤ loraDropout
  belowOne : loraDropout ≤ 1 - 1 / 2 ^ 24

/-- A channel of the input of a projection: gate and up read the hidden row, down
the intermediate row. -/
structure Channel where
  expertIdx : Nat
  projection : Nat
  feature : Nat

def Config.Holds (config : Config) (part : Nat) (channel : Channel) : Prop :=
  channel.expertIdx < config.expertNum ∧ channel.projection < 3 ∧
    channel.feature < if channel.projection = 2 then config.intermediateSize part else config.hiddenSize

instance : Decidable (Config.Holds config part channel) :=
  inferInstanceAs (Decidable (_ ∧ _ ∧ _))

def placeKey (layerIdx : Nat) (channel : Channel) : UInt64 :=
  UInt64.ofNat (layerIdx + 1) * 0x9e3779b97f4a7c15 ^^^ UInt64.ofNat (channel.expertIdx + 1) * 0xbf58476d1ce4e5b9 ^^^
    UInt64.ofNat (channel.projection + 1) * 0x94d049bb133111eb ^^^
      UInt64.ofNat (channel.feature + 1) * 0xd6e8feb86659fd93

def uniform (seed : UInt64) (layerIdx : Nat) (channel : Channel) : ℚ :=
  (loraDropoutMix (seed ^^^ placeKey layerIdx channel) >>> 11).toNat * (1 / 9007199254740992)

/-- The factor of a channel of `lora_A`. -/
def loraDropoutChannelScale (loraDropout : ℚ) (seed : UInt64) (layerIdx : Nat) (channel : Channel) : ℚ :=
  if loraDropout ≤ 0 then 1
  else if uniform seed layerIdx channel < loraDropout then 0
  else 1 / (1 - loraDropout)

/-! ## The passes -/

/-- One part of a layer; an entry of its cache is known by its seed. -/
structure Instance where
  loraDropoutSequence : UInt64
  activeLoraDropoutSeed : UInt64
  cache : CacheStack UInt64

def Instance.forwardSft (maxCacheDepth : Nat) (saveForBackward : Bool) (instance_ : Instance) : Instance :=
  let seed := instance_.loraDropoutSequence + 1
  { loraDropoutSequence := seed
    activeLoraDropoutSeed := seed
    cache := if saveForBackward then instance_.cache.save maxCacheDepth seed else instance_.cache }

/-- Without an entry the backward throws and changes nothing. -/
def Instance.backward (instance_ : Instance) : Instance :=
  match instance_.cache.popCache with
  | some (_, rest) => { instance_ with cache := rest }
  | none => instance_

inductive Event where
  | forward (layer : Nat) (saveForBackward : Bool)
  | backward (layer : Nat)

def Event.layer : Event → Nat
  | .forward layer _ => layer
  | .backward layer => layer

/-- The parts of every layer. -/
abbrev State := Nat → Nat → Instance

def initial : State := fun _ _ => ⟨0, 0, ⟨0, fun _ => 0⟩⟩

/-- Every part of the layer runs the pass. -/
def step (config : Config) (state : State) : Event → State
  | .forward layer saveForBackward =>
    Function.update state layer fun part => (state layer part).forwardSft config.maxCacheDepth saveForBackward
  | .backward layer => Function.update state layer fun part => (state layer part).backward

def run (config : Config) (events : List Event) (state : State) : State :=
  events.foldl (step config) state

/-! ## A training step -/

/-- A forward of a layer and its backward, with a recomputing forward in between
under gradient checkpointing.  Only other layers run meanwhile. -/
structure TrainingStep (config : Config) (checkpointing : Bool) where
  past : List Event
  layer : Nat
  saveForBackward : Bool
  meanwhile : List Event
  afterwards : List Event
  layerInside : layer < config.layers
  meanwhileOthers : ∀ event ∈ meanwhile, event.layer ≠ layer
  afterwardsOthers : ∀ event ∈ afterwards, event.layer ≠ layer
  saves : checkpointing = false → saveForBackward = true

namespace TrainingStep

variable {config : Config} {checkpointing : Bool} (training : TrainingStep config checkpointing)

def afterFirst : State :=
  run config (training.past ++ [.forward training.layer training.saveForBackward]) initial

/-- The state after the forward that the backward follows. -/
def afterLatest : State :=
  run config (training.meanwhile ++ if checkpointing then [.forward training.layer true] else []) training.afterFirst

def beforeBackward : State :=
  run config training.afterwards training.afterLatest

/-- The masks of the latest forward of the layer. -/
def mask (state : State) (part : Nat) (channel : Channel) : ℚ :=
  loraDropoutChannelScale config.loraDropout (state training.layer part).activeLoraDropoutSeed training.layer channel

def backwardSeed (part : Nat) : Option UInt64 :=
  ((training.beforeBackward training.layer part).cache.popCache).map Prod.fst

/-- The masks of the step are those of its first forward, and the parts of a
forward use one seed. -/
def Consistent : Prop :=
  (∀ part < config.tpCount, ∀ other < config.tpCount,
      (training.afterFirst training.layer part).activeLoraDropoutSeed =
          (training.afterFirst training.layer other).activeLoraDropoutSeed ∧
        (training.afterLatest training.layer part).activeLoraDropoutSeed =
          (training.afterLatest training.layer other).activeLoraDropoutSeed) ∧
    ∀ part < config.tpCount, ∃ seed, training.backwardSeed part = some seed ∧
      ∀ channel, config.Holds part channel →
        training.mask training.afterLatest part channel = training.mask training.afterFirst part channel ∧
          loraDropoutChannelScale config.loraDropout seed training.layer channel =
            training.mask training.afterFirst part channel

end TrainingStep

section

variable {config : Config}

theorem run_append (first second : List Event) (state : State) :
    run config (first ++ second) state = run config second (run config first state) := by
  simp only [run, List.foldl_append]

/-- The passes of a layer leave the other layers alone. -/
theorem run_others (others : ∀ event ∈ events, Event.layer event ≠ layer) (state : State) :
    run config events state layer = state layer := by
  induction events generalizing state with
  | nil => rfl
  | cons event events rest =>
      have kept : step config state event layer = state layer := by
        have other := others event List.mem_cons_self
        cases event with
        | forward eventLayer save => exact Function.update_of_ne (Ne.symm other) _ _
        | backward eventLayer => exact Function.update_of_ne (Ne.symm other) _ _
      have after := rest (fun other member => others other (List.mem_cons_of_mem _ member)) (step config state event)
      exact after.trans kept

theorem run_parts (alike : ∀ layer part other, state layer part = state layer other) (events : List Event) :
    ∀ layer part other, run config events state layer part = run config events state layer other := by
  induction events generalizing state with
  | nil => exact alike
  | cons event events rest =>
      apply rest
      intro layer part other
      cases event with
      | forward eventLayer save =>
          by_cases same : layer = eventLayer
          · subst same
            simp only [step, Function.update_self]
            rw [alike layer part other]
          · simp only [step, Function.update_of_ne same]
            exact alike layer part other
      | backward eventLayer =>
          by_cases same : layer = eventLayer
          · subst same
            simp only [step, Function.update_self]
            rw [alike layer part other]
          · simp only [step, Function.update_of_ne same]
            exact alike layer part other

/-- The seeds are the numbers of the forwards. -/
theorem run_forwards (count layer part : Nat) :
    (run config (List.replicate count (.forward layer false)) initial layer part).loraDropoutSequence =
      UInt64.ofNat count := by
  induction count with
  | zero => rfl
  | succ count counted =>
      rw [List.replicate_succ', run_append]
      change (step config _ (.forward layer false) layer part).loraDropoutSequence = _
      simp only [step, Function.update_self, Instance.forwardSft]
      rw [counted, UInt64.ofNat_add]
      rfl

end

/-! ## The backward follows the latest forward -/

namespace TrainingStep

variable {config : Config} {checkpointing : Bool} (training : TrainingStep config checkpointing)

theorem afterFirst_layer (part : Nat) :
    training.afterFirst training.layer part =
      (run config training.past initial training.layer part).forwardSft config.maxCacheDepth
        training.saveForBackward := by
  rw [afterFirst, run_append]
  change step config _ (.forward training.layer training.saveForBackward) training.layer part = _
  simp only [step, Function.update_self]

theorem afterLatest_recompute (training : TrainingStep config true) (part : Nat) :
    training.afterLatest training.layer part =
      (training.afterFirst training.layer part).forwardSft config.maxCacheDepth true := by
  rw [afterLatest, if_pos rfl, run_append]
  change step config _ (.forward training.layer true) training.layer part = _
  simp only [step, Function.update_self]
  rw [run_others training.meanwhileOthers]

theorem afterLatest_first (training : TrainingStep config false) :
    training.afterLatest training.layer = training.afterFirst training.layer := by
  rw [afterLatest, if_neg Bool.false_ne_true, List.append_nil, run_others training.meanwhileOthers]

theorem latest_saves (part : Nat) :
    ∃ before : Instance, training.afterLatest training.layer part = before.forwardSft config.maxCacheDepth true := by
  cases checkpointing with
  | true => exact ⟨_, afterLatest_recompute training part⟩
  | false =>
      rw [afterLatest_first, afterFirst_layer, training.saves rfl]
      exact ⟨_, rfl⟩

theorem backwardSeed_eq (part : Nat) :
    training.backwardSeed part = some (training.afterLatest training.layer part).activeLoraDropoutSeed := by
  obtain ⟨before, latest⟩ := training.latest_saves part
  rw [backwardSeed, beforeBackward, run_others training.afterwardsOthers, latest]
  simp only [Instance.forwardSft, if_true]
  obtain ⟨rest, popped⟩ := CacheStack.popCache_save config.maxCacheDepth (before.loraDropoutSequence + 1) before.cache
  rw [popped]
  rfl

theorem parts_alike (part other : Nat) :
    training.afterFirst training.layer part = training.afterFirst training.layer other ∧
      training.afterLatest training.layer part = training.afterLatest training.layer other := by
  have first : ∀ layer part other, training.afterFirst layer part = training.afterFirst layer other :=
    run_parts (fun _ _ _ => rfl) _
  exact ⟨first _ _ _, run_parts first _ _ _ _⟩

theorem consistent_iff :
    training.Consistent ↔ ∀ part < config.tpCount, ∀ channel, config.Holds part channel →
      training.mask training.afterLatest part channel = training.mask training.afterFirst part channel := by
  constructor
  · intro consistent part inside channel holds
    obtain ⟨seed, -, masks⟩ := consistent.2 part inside
    exact (masks channel holds).1
  · intro repeats
    constructor
    · intro part _ other _
      obtain ⟨first, latest⟩ := training.parts_alike part other
      rw [first, latest]
      exact ⟨rfl, rfl⟩
    · intro part inside
      refine ⟨_, training.backwardSeed_eq part, ?_⟩
      intro channel holds
      have same := repeats part inside channel holds
      exact ⟨same, same⟩

end TrainingStep

/-! ## The masks of two seeds -/

theorem scale_zero (seed : UInt64) (layerIdx : Nat) (channel : Channel) :
    loraDropoutChannelScale 0 seed layerIdx channel = 1 :=
  if_pos le_rfl

/-- Some seed drops the channel and another keeps it. -/
theorem exists_dropped (positive : 0 < loraDropout) (layerIdx : Nat) (channel : Channel) :
    ∃ seed, uniform seed layerIdx channel < loraDropout := by
  refine ⟨0x61c8864680b583eb ^^^ placeKey layerIdx channel, ?_⟩
  have mixed : loraDropoutMix 0x61c8864680b583eb = 0 := by decide
  rw [uniform, UInt64.xor_assoc, UInt64.xor_self, UInt64.xor_zero, mixed]
  simpa using positive

theorem exists_kept (below : loraDropout ≤ 1 - 1 / 2 ^ 24) (layerIdx : Nat) (channel : Channel) :
    ∃ seed, ¬ uniform seed layerIdx channel < loraDropout := by
  refine ⟨0x31628af67b2131ab ^^^ placeKey layerIdx channel, ?_⟩
  have mixed : loraDropoutMix 0x31628af67b2131ab = 0xffffffffffffffff := by decide
  have shifted : ((0xffffffffffffffff : UInt64) >>> 11).toNat = 9007199254740991 := by decide
  rw [uniform, UInt64.xor_assoc, UInt64.xor_self, UInt64.xor_zero, mixed, shifted]
  have large : (1 - 1 / 2 ^ 24 : ℚ) ≤ ((9007199254740991 : ℕ) : ℚ) * (1 / 9007199254740992) := by norm_num
  linarith

theorem exists_change {test : Nat → Bool} (different : test left ≠ test right) (leftPositive : 0 < left)
    (rightPositive : 0 < right) : ∃ count, 0 < count ∧ test count ≠ test (count + 1) := by
  by_contra none
  have constant : ∀ count, test (count + 1) = test 1 := by
    intro count
    induction count with
    | zero => rfl
    | succ count same =>
        by_contra changes
        apply none
        refine ⟨count + 1, Nat.succ_pos count, ?_⟩
        rw [same]
        exact Ne.symm changes
  apply different
  have leftSame := constant (left - 1)
  have rightSame := constant (right - 1)
  rw [Nat.sub_add_cancel leftPositive] at leftSame
  rw [Nat.sub_add_cancel rightPositive] at rightSame
  rw [leftSame, rightSame]

theorem scale_eq_iff (config : Config) (positive : 0 < config.loraDropout) :
    loraDropoutChannelScale config.loraDropout left layerIdx channel =
        loraDropoutChannelScale config.loraDropout right layerIdx channel ↔
      (uniform left layerIdx channel < config.loraDropout ↔ uniform right layerIdx channel < config.loraDropout) := by
  have factor : 1 / (1 - config.loraDropout) ≠ 0 := by
    have below := config.belowOne
    have gap : (0 : ℚ) < 1 / 2 ^ 24 := by norm_num
    apply one_div_ne_zero
    linarith
  simp only [loraDropoutChannelScale, if_neg (not_le.mpr positive)]
  by_cases leftDropped : uniform left layerIdx channel < config.loraDropout
  · by_cases rightDropped : uniform right layerIdx channel < config.loraDropout
    · simp only [leftDropped, rightDropped]
    · simp only [leftDropped, rightDropped, if_true, if_false]
      exact iff_of_false (Ne.symm factor) fun same => same.mp trivial
  · by_cases rightDropped : uniform right layerIdx channel < config.loraDropout
    · simp only [leftDropped, rightDropped, if_true, if_false]
      exact iff_of_false factor fun same => same.mpr trivial
    · simp only [leftDropped, rightDropped]

/-- Two forwards in a row may differ on a channel. -/
theorem exists_differ (config : Config) (positive : config.loraDropout ≠ 0) (layerIdx : Nat) (channel : Channel) :
    ∃ count, 0 < count ∧
      loraDropoutChannelScale config.loraDropout (UInt64.ofNat (count + 1)) layerIdx channel ≠
        loraDropoutChannelScale config.loraDropout (UInt64.ofNat count) layerIdx channel := by
  have above : 0 < config.loraDropout := lt_of_le_of_ne config.nonnegative (Ne.symm positive)
  obtain ⟨droppedSeed, dropped⟩ := exists_dropped above layerIdx channel
  obtain ⟨keptSeed, kept⟩ := exists_kept config.belowOne layerIdx channel
  let test (count : Nat) : Bool := decide (uniform (UInt64.ofNat count) layerIdx channel < config.loraDropout)
  have wrapped (seed : UInt64) : UInt64.ofNat (seed.toNat + 2 ^ 64) = seed := by
    rw [← UInt64.toNat_inj, UInt64.toNat_ofNat']
    have bound := seed.toNat_lt
    omega
  have different : test (droppedSeed.toNat + 2 ^ 64) ≠ test (keptSeed.toNat + 2 ^ 64) := by
    simp only [test, wrapped, decide_eq_true dropped, decide_eq_false kept]
    decide
  obtain ⟨count, some_, changes⟩ := exists_change different (by omega) (by omega)
  refine ⟨count, some_, ?_⟩
  rw [Ne, scale_eq_iff config above]
  intro same
  apply changes
  exact decide_eq_decide.mpr same.symm

/-- Every training step keeps its masks exactly when nothing is dropped or nothing
is recomputed. -/
theorem lora_dropout_consistent_iff (config : Config) (checkpointing : Bool) :
    (∀ training : TrainingStep config checkpointing, training.Consistent) ↔
      config.loraDropout = 0 ∨ checkpointing = false := by
  constructor
  · intro consistent
    by_contra neither
    rw [not_or, Bool.not_eq_false] at neither
    obtain ⟨positive, rfl⟩ := neither
    obtain ⟨count, some_, differ⟩ := exists_differ config positive 0 ⟨0, 0, 0⟩
    let training : TrainingStep config true :=
      { past := List.replicate (count - 1) (.forward 0 false)
        layer := 0
        saveForBackward := false
        meanwhile := []
        afterwards := []
        layerInside := config.someLayer
        meanwhileOthers := nofun
        afterwardsOthers := nofun
        saves := nofun }
    have repeats := training.consistent_iff.mp (consistent training) 0 config.somePart ⟨0, 0, 0⟩
      ⟨config.someExpert, by decide, config.someChannel⟩
    have past : (run config training.past initial training.layer 0).loraDropoutSequence = UInt64.ofNat (count - 1) :=
      run_forwards (count - 1) 0 0
    have first : (training.afterFirst training.layer 0).activeLoraDropoutSeed = UInt64.ofNat count ∧
        (training.afterFirst training.layer 0).loraDropoutSequence = UInt64.ofNat count := by
      rw [training.afterFirst_layer]
      simp only [Instance.forwardSft]
      rw [past]
      have next : UInt64.ofNat (count - 1) + 1 = UInt64.ofNat count := by
        rw [← Nat.sub_add_cancel some_, UInt64.ofNat_add]
        rfl
      exact ⟨next, next⟩
    have latest : (training.afterLatest training.layer 0).activeLoraDropoutSeed = UInt64.ofNat (count + 1) := by
      rw [training.afterLatest_recompute]
      simp only [Instance.forwardSft]
      rw [first.2, UInt64.ofNat_add]
      rfl
    simp only [TrainingStep.mask] at repeats
    rw [latest, first.1] at repeats
    exact differ repeats
  · intro condition training
    rw [training.consistent_iff]
    intro part _ channel _
    rcases condition with none | rfl
    · simp only [TrainingStep.mask, none, scale_zero]
    · simp only [TrainingStep.mask, training.afterLatest_first]

def halfDropped : Config where
  layers := 1
  tpCount := 1
  expertNum := 1
  hiddenSize := 1
  intermediateSize := fun _ => 1
  maxCacheDepth := 1
  loraDropout := 1 / 2
  someLayer := Nat.one_pos
  somePart := Nat.one_pos
  someExpert := Nat.one_pos
  someChannel := Nat.one_pos
  nonnegative := by norm_num
  belowOne := by norm_num

def recomputed : TrainingStep halfDropped true where
  past := []
  layer := 0
  saveForBackward := false
  meanwhile := []
  afterwards := []
  layerInside := by decide
  meanwhileOthers := nofun
  afterwardsOthers := nofun
  saves := nofun

theorem recomputation_drops_another_channel :
    recomputed.mask recomputed.afterFirst 0 ⟨0, 0, 0⟩ = 2 ∧ recomputed.mask recomputed.afterLatest 0 ⟨0, 0, 0⟩ = 0 ∧
      ¬ recomputed.Consistent := by
  have kept : recomputed.mask recomputed.afterFirst 0 ⟨0, 0, 0⟩ = 2 := by decide +kernel
  have dropped : recomputed.mask recomputed.afterLatest 0 ⟨0, 0, 0⟩ = 0 := by decide +kernel
  refine ⟨kept, dropped, ?_⟩
  intro consistent
  have repeats := recomputed.consistent_iff.mp consistent 0 Nat.one_pos ⟨0, 0, 0⟩ (by decide)
  rw [kept, dropped] at repeats
  norm_num at repeats

end KtKernel.Sft.Dropout
