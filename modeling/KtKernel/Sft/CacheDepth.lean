import KtKernel.Sft.CacheStack

namespace KtKernel.Sft.CacheDepth

/-! `_cache_depth` of a layer wrapper beside the cache stacks of its parts.

The queue runs the tasks of the wrapper in order, so a task takes effect where
it is submitted; what it threw is raised by the next `sync`. -/

structure Config where
  parts : Nat
  maxCacheDepth : Nat
  usesAuthoritativeOptimizerGrads : Bool
  somePart : 0 < parts

/-- An entry: the forward that opened it last, whether it may be read, and whether
that forward wrote all of it. -/
structure Entry where
  writer : Nat
  valid : Bool
  complete : Bool
deriving DecidableEq, Repr

/-- How far a part of a saving forward got. -/
inductive ForwardPoint where
  | beforeEntry
  | inEntry (valid : Bool)
  | finished
deriving DecidableEq, Repr

structure ForwardTask (config : Config) where
  saveForBackward : Bool
  reached : Nat → ForwardPoint
  throws : Bool
  finishes : throws = false → ∀ part < config.parts, reached part = .finished

/-- What a backward task does, the copies of its results included. -/
structure BackwardTask (config : Config) where
  pops : Nat → Bool
  throws : Bool
  finishes : throws = false → ∀ part < config.parts, pops part = true

inductive Kind where
  | forward
  | backward
deriving DecidableEq, Repr

/-- `failed` is the queue's first exception.  The last two fields are only
observed: the task that no `sync` has waited for, and the latest saving forward
that did not throw, unless a backward took an entry since. -/
structure State where
  cacheDepth : Int
  submissionPending : Bool
  pendingSaveForBackward : Option Bool
  asyncBwdUsesAuthoritative : Option Bool
  failed : Bool
  cacheStacks : Nat → CacheStack Entry
  forwards : Nat
  unsynced : Option Kind
  unconsumed : Option Nat

inductive Call (config : Config) where
  | forward (task : ForwardTask config)
  | submitForward (task : ForwardTask config)
  | syncForward
  | backward (task : BackwardTask config)
  | submitBackwardAsync (task : BackwardTask config)
  | syncBackward

def initial : State where
  cacheDepth := 0
  submissionPending := false
  pendingSaveForBackward := none
  asyncBwdUsesAuthoritative := none
  failed := false
  cacheStacks := fun _ => ⟨0, fun _ => ⟨0, false, false⟩⟩
  forwards := 0
  unsynced := none
  unconsumed := none

section

variable (config : Config)

/-! ## Tasks -/

def writeEntry (writer : Nat) (reached : ForwardPoint) (stack : CacheStack Entry) : CacheStack Entry :=
  match reached with
  | .beforeEntry => stack
  | .inEntry valid => stack.save config.maxCacheDepth ⟨writer, valid, false⟩
  | .finished => stack.save config.maxCacheDepth ⟨writer, true, true⟩

def runForward (task : ForwardTask config) (state : State) : State :=
  { state with
    failed := state.failed || task.throws
    cacheStacks := fun part =>
      if task.saveForBackward then writeEntry config state.forwards (task.reached part) (state.cacheStacks part)
      else state.cacheStacks part
    forwards := state.forwards + 1
    unconsumed := if task.saveForBackward && !task.throws then some state.forwards else state.unconsumed }

/-- A part cannot go on without an entry, or with one that is not valid. -/
def stops (stack : CacheStack Entry) : Bool :=
  match stack.popCache with
  | some (entry, _) => !entry.valid
  | none => true

def popped (stack : CacheStack Entry) : CacheStack Entry :=
  match stack.popCache with
  | some (_, rest) => rest
  | none => stack

def takesEntry (task : BackwardTask config) (state : State) : Bool :=
  (List.range config.parts).any fun part => task.pops part && (state.cacheStacks part).popCache.isSome

def backwardThrows (task : BackwardTask config) (state : State) : Bool :=
  task.throws || (List.range config.parts).any fun part => task.pops part && stops (state.cacheStacks part)

def runBackward (task : BackwardTask config) (state : State) : State :=
  { state with
    failed := state.failed || backwardThrows config task state
    cacheStacks := fun part => if task.pops part then popped (state.cacheStacks part) else state.cacheStacks part
    unconsumed := if takesEntry config task state then none else state.unconsumed }

/-! ## Calls -/

/-- The checks before a backward is submitted. -/
def letsThrough (state : State) : Bool :=
  decide (0 < state.cacheDepth) && !(config.usesAuthoritativeOptimizerGrads && state.submissionPending)

def deepen (saveForBackward : Bool) (state : State) : State :=
  { state with
    cacheDepth := if saveForBackward ∧ state.cacheDepth = 0 then state.cacheDepth + 1 else state.cacheDepth }

/-- What `sync` raises is forgotten. -/
def synced (state : State) : State :=
  { state with failed := false, unsynced := none }

def giveUp (authoritative : Bool) (state : State) : State :=
  if authoritative then
    { state with submissionPending := false, cacheDepth := max 0 (state.cacheDepth - 1) }
  else state

def finishBackward (authoritative : Bool) (state : State) : State :=
  { state with
    submissionPending := if authoritative then false else state.submissionPending
    cacheDepth := state.cacheDepth - 1 }

def step (state : State) : Call config → State
  | .forward task =>
    let run := runForward config task state
    if run.failed then synced run else deepen task.saveForBackward (synced run)
  | .submitForward task =>
    { runForward config task state with
      pendingSaveForBackward := some task.saveForBackward
      unsynced := some .forward }
  | .syncForward =>
    match state.pendingSaveForBackward with
    | none => state
    | some saveForBackward =>
      if state.failed then synced state
      else { deepen saveForBackward (synced state) with pendingSaveForBackward := none }
  | .backward task =>
    if letsThrough config state then
      let run := runBackward config task state
      if run.failed then giveUp config.usesAuthoritativeOptimizerGrads (synced run)
      else finishBackward config.usesAuthoritativeOptimizerGrads (synced run)
    else state
  | .submitBackwardAsync task =>
    if letsThrough config state then
      { runBackward config task state with
        submissionPending := config.usesAuthoritativeOptimizerGrads
        asyncBwdUsesAuthoritative := some config.usesAuthoritativeOptimizerGrads
        unsynced := some .backward }
    else state
  | .syncBackward =>
    match state.asyncBwdUsesAuthoritative with
    | none => state
    | some authoritative =>
      let done := { synced state with asyncBwdUsesAuthoritative := none }
      if state.failed then giveUp authoritative done else finishBackward authoritative done

def run (calls : List (Call config)) (state : State) : State :=
  calls.foldl (step config) state

/-- The backward of every part would take the whole entry of a forward. -/
def Offers (state : State) (writer : Nat) : Prop :=
  ∀ part < config.parts, ∃ rest, (state.cacheStacks part).popCache = some (⟨writer, true, true⟩, rest)

/-- The depth lets a backward through exactly when every part offers it the latest
saving forward that succeeded and is not consumed. -/
structure Agrees (state : State) : Prop where
  offers : letsThrough config state = true → ∃ writer, state.unconsumed = some writer ∧ Offers config state writer
  offered : state.unconsumed ≠ none → letsThrough config state = true

def Call.isBackward : Call config → Bool
  | .backward _ => true
  | .submitBackwardAsync _ => true
  | _ => false

def Agreeing (calls : List (Call config)) : Prop :=
  ∀ past call rest, calls = past ++ call :: rest → call.isBackward = true → Agrees config (run config past initial)

/-- A saving forward that throws while an entry waits has opened none. -/
def ForwardTask.Harmless (task : ForwardTask config) (state : State) : Prop :=
  task.saveForBackward = true → task.throws = true → 0 < state.cacheDepth →
    ∀ part < config.parts, task.reached part = .beforeEntry

/-- A backward that throws has taken an entry on some part if gradients are
authoritative, and on none otherwise. -/
def BackwardTask.Harmless (task : BackwardTask config) : Prop :=
  task.throws = true → ((∃ part < config.parts, task.pops part = true) ↔ config.usesAuthoritativeOptimizerGrads = true)

/-- No call comes between a submission and its `sync`. -/
def Meets (state : State) : Call config → Prop
  | .forward task => state.unsynced = none ∧ task.Harmless config state
  | .submitForward task => state.unsynced = none ∧ task.Harmless config state
  | .syncForward => state.pendingSaveForBackward = none ∨ state.unsynced = some .forward
  | .backward task => state.unsynced = none ∧ (letsThrough config state = true → task.Harmless config)
  | .submitBackwardAsync task =>
    state.unsynced = none ∧ (letsThrough config state = true → task.Harmless config)
  | .syncBackward => state.asyncBwdUsesAuthoritative = none ∨ state.unsynced = some .backward

def MeetsAll : List (Call config) → State → Prop
  | [], _ => True
  | call :: calls, state => Meets config state call ∧ MeetsAll calls (step config state call)

end

section

variable {config : Config} {state : State}

inductive Settled (config : Config) (state : State) : Prop where
  | empty (depth : state.cacheDepth = 0) (consumed : state.unconsumed = none)
  | full (writer : Nat) (depth : state.cacheDepth = 1) (latest : state.unconsumed = some writer)
      (offers : Offers config state writer)

/-- What holds between calls that do not overlap, by the task that is not yet
waited for. -/
structure Invariant (config : Config) (state : State) : Prop where
  idle : state.unsynced = none → state.failed = false ∧ state.submissionPending = false ∧ Settled config state
  forwarding : state.unsynced = some .forward → state.submissionPending = false ∧
    ∃ saveForBackward, state.pendingSaveForBackward = some saveForBackward ∧
      (if state.failed then Settled config state else Settled config (deepen saveForBackward state))
  going : state.unsynced = some .backward →
    state.submissionPending = config.usesAuthoritativeOptimizerGrads ∧
    state.asyncBwdUsesAuthoritative = some config.usesAuthoritativeOptimizerGrads ∧
      if state.failed then Settled config (giveUp config.usesAuthoritativeOptimizerGrads state)
      else Settled config (finishBackward config.usesAuthoritativeOptimizerGrads state)

theorem initial_invariant : Invariant config initial where
  idle := fun _ => ⟨rfl, rfl, .empty rfl rfl⟩
  forwarding := nofun
  going := nofun

theorem Settled.agrees (settled : Settled config state) (open_ : state.submissionPending = false) :
    Agrees config state := by
  cases settled with
  | empty depth consumed =>
      constructor
      · intro lets
        simp [letsThrough, depth] at lets
      · intro some_
        exact absurd consumed some_
  | full writer depth latest offers =>
      constructor
      · intro _
        exact ⟨writer, latest, offers⟩
      · intro _
        simp [letsThrough, depth, open_]

/-! ## Tasks -/

/-- The depth is that of the calls, so a forward that does not throw is settled
once the depth follows. -/
theorem runForward_settled {task : ForwardTask config} (settled : Settled config state)
    (harmless : task.Harmless config state) (throws : task.throws = true) :
    Settled config (runForward config task state) := by
  have latest : (runForward config task state).unconsumed = state.unconsumed := by
    simp [runForward, throws]
  cases settled with
  | empty depth consumed => exact .empty depth (latest.trans consumed)
  | full writer depth found offers =>
      refine .full writer depth (latest.trans found) ?_
      intro part inside
      have kept : (runForward config task state).cacheStacks part = state.cacheStacks part := by
        simp only [runForward]
        cases saves : task.saveForBackward with
        | false => rfl
        | true =>
            rw [if_pos rfl, harmless saves throws (by omega) part inside]
            rfl
      rw [kept]
      exact offers part inside

theorem runForward_offers {task : ForwardTask config} (throws : task.throws = false)
    (saves : task.saveForBackward = true) : Offers config (runForward config task state) state.forwards := by
  intro part inside
  have written : (runForward config task state).cacheStacks part =
      (state.cacheStacks part).save config.maxCacheDepth ⟨state.forwards, true, true⟩ := by
    simp only [runForward, saves, if_true, task.finishes throws part inside]
    rfl
  rw [written]
  exact CacheStack.popCache_save _ _ _

theorem runForward_deepen {task : ForwardTask config} (settled : Settled config state)
    (throws : task.throws = false) :
    Settled config (deepen task.saveForBackward (runForward config task state)) := by
  cases saves : task.saveForBackward with
  | true =>
      have latest : (runForward config task state).unconsumed = some state.forwards := by
        simp [runForward, saves, throws]
      have offers : Offers config (runForward config task state) state.forwards := runForward_offers throws saves
      cases settled with
      | empty depth consumed =>
          have zero : (runForward config task state).cacheDepth = 0 := depth
          refine .full state.forwards ?_ latest offers
          simp [deepen, zero]
      | full writer depth found _ =>
          have one : (runForward config task state).cacheDepth = 1 := depth
          refine .full state.forwards ?_ latest offers
          simp [deepen, one]
  | false =>
      have kept : (runForward config task state).cacheStacks = state.cacheStacks ∧
          (runForward config task state).unconsumed = state.unconsumed := by
        simp [runForward, saves]
      have same : (deepen false (runForward config task state)).cacheDepth = state.cacheDepth := by
        simp [deepen, runForward]
      cases settled with
      | empty depth consumed => exact .empty (same.trans depth) (kept.2.trans consumed)
      | full writer depth found offers =>
          refine .full writer (same.trans depth) (kept.2.trans found) ?_
          intro part inside
          change ∃ rest, ((runForward config task state).cacheStacks part).popCache = _
          rw [kept.1]
          exact offers part inside

theorem offers_goes (offers : Offers config state writer) (inside : part < config.parts) :
    stops (state.cacheStacks part) = false ∧ (state.cacheStacks part).popCache.isSome = true := by
  obtain ⟨rest, found⟩ := offers part inside
  rw [stops, found]
  exact ⟨rfl, rfl⟩

theorem backwardThrows_eq {task : BackwardTask config} (offers : Offers config state writer) :
    backwardThrows config task state = task.throws := by
  have none : ((List.range config.parts).any fun part => task.pops part && stops (state.cacheStacks part)) = false := by
    rw [List.any_eq_false]
    intro part member
    rw [(offers_goes offers (List.mem_range.mp member)).1, Bool.and_false]
    exact Bool.false_ne_true
  rw [backwardThrows, none, Bool.or_false]

theorem takesEntry_iff {task : BackwardTask config} (offers : Offers config state writer) :
    takesEntry config task state = true ↔ ∃ part < config.parts, task.pops part = true := by
  rw [takesEntry, List.any_eq_true]
  constructor
  · intro ⟨part, member, pops⟩
    rw [Bool.and_eq_true] at pops
    exact ⟨part, List.mem_range.mp member, pops.1⟩
  · intro ⟨part, inside, pops⟩
    refine ⟨part, List.mem_range.mpr inside, ?_⟩
    rw [pops, (offers_goes offers inside).2]
    rfl

theorem runBackward_finished {task : BackwardTask config} (depth : state.cacheDepth = 1)
    (offers : Offers config state writer) (throws : task.throws = false) :
    Settled config (finishBackward config.usesAuthoritativeOptimizerGrads (runBackward config task state)) := by
  have takes : takesEntry config task state = true :=
    (takesEntry_iff offers).mpr ⟨0, config.somePart, task.finishes throws 0 config.somePart⟩
  apply Settled.empty
  · simp [finishBackward, runBackward, depth]
  · simp [finishBackward, runBackward, takes]

theorem runBackward_given_up {task : BackwardTask config} (depth : state.cacheDepth = 1)
    (latest : state.unconsumed = some writer) (offers : Offers config state writer)
    (harmless : task.Harmless config) (throws : task.throws = true) :
    Settled config (giveUp config.usesAuthoritativeOptimizerGrads (runBackward config task state)) := by
  have takes : takesEntry config task state = true ↔ ∃ part < config.parts, task.pops part = true :=
    takesEntry_iff offers
  rw [harmless throws] at takes
  cases authoritative : config.usesAuthoritativeOptimizerGrads with
  | true =>
      have taken : takesEntry config task state = true := takes.mpr authoritative
      apply Settled.empty
      · simp [giveUp, runBackward, depth]
      · simp [giveUp, runBackward, taken]
  | false =>
      have kept : takesEntry config task state = false := by
        rw [authoritative] at takes
        exact Bool.eq_false_iff.mpr fun taken => Bool.false_ne_true (takes.mp taken)
      have none : ∀ part < config.parts, task.pops part = false := by
        intro part inside
        cases pops : task.pops part with
        | true =>
            have impossible := (harmless throws).mp ⟨part, inside, pops⟩
            rw [authoritative] at impossible
            exact impossible.symm
        | false => rfl
      refine .full writer ?_ ?_ ?_
      · exact depth
      · simp [giveUp, runBackward, kept, latest]
      · intro part inside
        simp only [giveUp, runBackward, Bool.false_eq_true, if_false, none part inside]
        exact offers part inside

/-! ## Calls -/

theorem Settled.of_eq {other : State} (settled : Settled config state) (depth : other.cacheDepth = state.cacheDepth)
    (latest : other.unconsumed = state.unconsumed) (cacheStacks : other.cacheStacks = state.cacheStacks) :
    Settled config other := by
  cases settled with
  | empty zero consumed => exact .empty (depth.trans zero) (latest.trans consumed)
  | full writer one found offers =>
      refine .full writer (depth.trans one) (latest.trans found) ?_
      intro part inside
      rw [cacheStacks]
      exact offers part inside

theorem giveUp_synced (authoritative : Bool) : giveUp authoritative (synced state) = synced (giveUp authoritative state) := by
  cases authoritative with
  | true => rfl
  | false => rfl

theorem Settled.synced (settled : Settled config state) : Settled config (synced state) :=
  settled.of_eq rfl rfl rfl

theorem Settled.invariant (settled : Settled config state) (noFailure : state.failed = false)
    (open_ : state.submissionPending = false) (unsynced : state.unsynced = none) : Invariant config state where
  idle := fun _ => ⟨noFailure, open_, settled⟩
  forwarding := by
    rw [unsynced]
    exact nofun
  going := by
    rw [unsynced]
    exact nofun

theorem step_invariant (invariant : Invariant config state) (call : Call config) (meets : Meets config state call) :
    Invariant config (step config state call) := by
  cases call with
  | forward task =>
      obtain ⟨noFailure, open_, settled⟩ := invariant.idle meets.1
      cases throws : task.throws with
      | true =>
          have failed : (runForward config task state).failed = true := by simp [runForward, throws]
          simp only [step, failed, if_true]
          exact (runForward_settled settled meets.2 throws).synced.invariant rfl open_ rfl
      | false =>
          have failed : (runForward config task state).failed = false := by simp [runForward, throws, noFailure]
          simp only [step, failed, Bool.false_eq_true, if_false]
          exact (runForward_deepen settled throws).synced.invariant rfl open_ rfl
  | submitForward task =>
      obtain ⟨noFailure, open_, settled⟩ := invariant.idle meets.1
      refine ⟨nofun, ?_, nofun⟩
      intro _
      refine ⟨open_, task.saveForBackward, rfl, ?_⟩
      cases throws : task.throws with
      | true =>
          rw [if_pos (by simp [step, runForward, throws])]
          exact (runForward_settled settled meets.2 throws).of_eq rfl rfl rfl
      | false =>
          rw [if_neg (by simp [step, runForward, throws, noFailure])]
          exact (runForward_deepen settled throws).of_eq rfl rfl rfl
  | syncForward =>
      rcases meets with none | waited
      · simp only [step, none]
        exact invariant
      · obtain ⟨open_, saveForBackward, pending, settled⟩ := invariant.forwarding waited
        simp only [step, pending]
        cases failed : state.failed with
        | true =>
            rw [failed, if_pos rfl] at settled
            rw [if_pos rfl]
            exact settled.synced.invariant rfl open_ rfl
        | false =>
            rw [failed, if_neg Bool.false_ne_true] at settled
            rw [if_neg Bool.false_ne_true]
            refine Settled.invariant ?_ rfl open_ rfl
            exact settled.of_eq rfl rfl rfl
  | backward task =>
      simp only [step]
      by_cases lets : letsThrough config state = true
      · rw [if_pos lets]
        obtain ⟨noFailure, open_, settled⟩ := invariant.idle meets.1
        cases settled with
        | empty depth _ => simp [letsThrough, depth] at lets
        | full writer depth latest offers =>
            cases throws : task.throws with
            | true =>
                have failed : (runBackward config task state).failed = true := by
                  simp [runBackward, backwardThrows, throws]
                have settled := runBackward_given_up depth latest offers (meets.2 lets) throws
                rw [if_pos failed, giveUp_synced]
                refine settled.synced.invariant rfl ?_ rfl
                cases config.usesAuthoritativeOptimizerGrads with
                | true => rfl
                | false => exact open_
            | false =>
                have failed : (runBackward config task state).failed = false := by
                  simp only [runBackward]
                  rw [backwardThrows_eq offers, throws, noFailure]
                  rfl
                rw [if_neg (by rw [failed]; exact Bool.false_ne_true)]
                have settled := runBackward_finished depth offers throws
                refine Settled.invariant ?_ rfl ?_ rfl
                · exact settled.of_eq rfl rfl rfl
                cases config.usesAuthoritativeOptimizerGrads with
                | true => rfl
                | false => exact open_
      · rw [if_neg lets]
        exact invariant
  | submitBackwardAsync task =>
      simp only [step]
      by_cases lets : letsThrough config state = true
      · rw [if_pos lets]
        obtain ⟨noFailure, open_, settled⟩ := invariant.idle meets.1
        cases settled with
        | empty depth _ => simp [letsThrough, depth] at lets
        | full writer depth latest offers =>
            refine ⟨nofun, nofun, ?_⟩
            intro _
            refine ⟨rfl, rfl, ?_⟩
            cases throws : task.throws with
            | true =>
                rw [if_pos (by simp [runBackward, backwardThrows, throws])]
                have settled := runBackward_given_up depth latest offers (meets.2 lets) throws
                cases authoritative : config.usesAuthoritativeOptimizerGrads with
                | true =>
                    rw [authoritative] at settled
                    exact settled.of_eq rfl rfl rfl
                | false =>
                    rw [authoritative] at settled
                    exact settled.of_eq rfl rfl rfl
            | false =>
                have failed : (runBackward config task state).failed = false := by
                  simp only [runBackward]
                  rw [backwardThrows_eq offers, throws, noFailure]
                  rfl
                rw [if_neg (by rw [failed]; exact Bool.false_ne_true)]
                exact (runBackward_finished depth offers throws).of_eq rfl rfl rfl
      · rw [if_neg lets]
        exact invariant
  | syncBackward =>
      rcases meets with none | waited
      · simp only [step, none]
        exact invariant
      · obtain ⟨submitted, pending, settled⟩ := invariant.going waited
        simp only [step, pending]
        generalize config.usesAuthoritativeOptimizerGrads = authoritative at *
        cases failed : state.failed with
        | true =>
            rw [failed, if_pos rfl] at settled
            rw [if_pos rfl]
            cases authoritative with
            | true =>
                refine Settled.invariant ?_ rfl rfl rfl
                exact settled.of_eq rfl rfl rfl
            | false =>
                refine Settled.invariant ?_ rfl submitted rfl
                exact settled.of_eq rfl rfl rfl
        | false =>
            rw [failed, if_neg Bool.false_ne_true] at settled
            rw [if_neg Bool.false_ne_true]
            refine Settled.invariant ?_ rfl ?_ rfl
            · exact settled.of_eq rfl rfl rfl
            · cases authoritative with
              | true => rfl
              | false => exact submitted

theorem run_invariant (invariant : Invariant config state) (calls : List (Call config))
    (meets : MeetsAll config calls state) : Invariant config (run config calls state) := by
  induction calls generalizing state with
  | nil => exact invariant
  | cons call calls rest => exact rest (step_invariant invariant call meets.1) meets.2

theorem meetsAll_append (past rest : List (Call config)) :
    MeetsAll config (past ++ rest) state ↔ MeetsAll config past state ∧ MeetsAll config rest (run config past state) := by
  induction past generalizing state with
  | nil => simp only [List.nil_append, MeetsAll, run, List.foldl_nil, true_and]
  | cons call past induction_ =>
      rw [List.cons_append, MeetsAll, MeetsAll, induction_, and_assoc]
      rfl

end

/-- Python and the kernels agree before every backward of a run whose calls do not
overlap and whose failures are harmless. -/
theorem cache_depth_agrees (config : Config) (calls : List (Call config)) (meets : MeetsAll config calls initial) :
    Agreeing config calls := by
  intro past call rest parts isBackward
  subst parts
  obtain ⟨before, here, -⟩ := (meetsAll_append past (call :: rest)).mp meets
  have invariant := run_invariant initial_invariant past before
  have unsynced : (run config past initial).unsynced = none := by
    cases call with
    | forward task => exact absurd isBackward Bool.false_ne_true
    | submitForward task => exact absurd isBackward Bool.false_ne_true
    | syncForward => exact absurd isBackward Bool.false_ne_true
    | backward task => exact here.1
    | submitBackwardAsync task => exact here.1
    | syncBackward => exact absurd isBackward Bool.false_ne_true
  obtain ⟨-, open_, settled⟩ := invariant.idle unsynced
  exact settled.agrees open_

/-- One part, with or without authoritative gradients. -/
def onePart (authoritative : Bool) : Config where
  parts := 1
  maxCacheDepth := 2
  usesAuthoritativeOptimizerGrads := authoritative
  somePart := Nat.one_pos

def saves (authoritative : Bool) : ForwardTask (onePart authoritative) where
  saveForBackward := true
  reached := fun _ => .finished
  throws := false
  finishes := fun _ _ _ => rfl

/-- A backward that takes the entry and throws. -/
def popsAndThrows (authoritative : Bool) : BackwardTask (onePart authoritative) where
  pops := fun _ => true
  throws := true
  finishes := nofun

theorem cache_depth_agrees_after_failure :
    Agreeing (onePart true) [.forward (saves true), .backward (popsAndThrows true), .submitForward (saves true),
      .syncForward, .submitBackwardAsync (popsAndThrows true), .syncBackward] := by
  have harmless : (popsAndThrows true).Harmless (onePart true) := by
    intro _
    exact ⟨fun _ => rfl, fun _ => ⟨0, Nat.one_pos, rfl⟩⟩
  have whole (state : State) : (saves true).Harmless (onePart true) state := nofun
  apply cache_depth_agrees
  exact ⟨⟨rfl, whole _⟩, ⟨rfl, fun _ => harmless⟩, ⟨rfl, whole _⟩, .inr rfl, ⟨rfl, fun _ => harmless⟩, .inr rfl, trivial⟩

/-- After a backward that threw, the next is let through to an empty stack. -/
theorem failed_backward_lets_another_through :
    ¬ Agreeing (onePart false) [.forward (saves false), .backward (popsAndThrows false),
      .backward (popsAndThrows false)] := by
  intro agreeing
  have agrees := agreeing [.forward (saves false), .backward (popsAndThrows false)] (.backward (popsAndThrows false)) []
    rfl rfl
  obtain ⟨writer, latest, -⟩ := agrees.offers (by decide)
  have consumed : (run (onePart false) [.forward (saves false), .backward (popsAndThrows false)] initial).unconsumed =
      none := by decide
  rw [consumed] at latest
  cases latest

end KtKernel.Sft.CacheDepth
