import KtKernel.Data.Machine
import KtKernel.Sft.Rawint4Staging

namespace KtKernel.Sft

open KtKernel.Data

/-! The runs of the staging: the jobs of the parts, the copies of their tasks in any order, and
what happens when some part throws.

The exception of a task may leave other tasks of the part behind, which go on copying.
-/

namespace Rawint4

variable {α : Type} {config : Config α}

/-! ## The slices -/

namespace Config

structure Slice (config : Config α) (part : PartConfig) (rowOffset : Nat) : Prop where
  hidden : part.hiddenSize = config.hiddenSize
  experts : part.expertNum = config.expertNum
  some_ : 0 < part.intermediateSize
  groups : config.quantConfig.groupSize ∣ part.intermediateSize
  offset : config.quantConfig.groupSize ∣ rowOffset

def Owns (parts : List PartConfig) (offsets : List Nat) (row i : Nat) : Prop :=
  ∃ part rowOffset, parts[i]? = some part ∧ offsets[i]? = some rowOffset ∧ rowOffset ≤ row ∧
    row < rowOffset + part.intermediateSize

theorem intermediateOffsets_ok {start : Nat} {parts : List PartConfig} {offsets : List Nat}
    (checked : config.intermediateOffsets start parts = .ok offsets) (aligned : config.quantConfig.groupSize ∣ start) :
    offsets.length = parts.length ∧ config.quantConfig.groupSize ∣ config.intermediateSize ∧ start ≤ config.intermediateSize ∧
      (∀ (i : Nat) part rowOffset, parts[i]? = some part → offsets[i]? = some rowOffset →
        config.Slice part rowOffset ∧ start ≤ rowOffset ∧ rowOffset + part.intermediateSize ≤ config.intermediateSize) ∧
      ∀ row, start ≤ row → row < config.intermediateSize →
        ∃ i, Owns parts offsets row i ∧ ∀ other, Owns parts offsets row other → other = i := by
  induction parts generalizing start offsets with
  | nil =>
      rw [intermediateOffsets, require_bind_ok] at checked
      obtain ⟨same, made⟩ := checked
      cases made
      have whole := of_decide_eq_true same
      refine ⟨rfl, whole ▸ aligned, whole.le, ?_, ?_⟩
      · intro i part rowOffset known
        cases known
      · intro row above below
        omega
  | cons part rest induction =>
      rw [intermediateOffsets, require_bind_ok] at checked
      obtain ⟨passed, checked⟩ := checked
      obtain ⟨later, others, made⟩ := bind_ok.mp checked
      cases made
      simp only [Bool.and_eq_true, decide_eq_true_eq] at passed
      obtain ⟨⟨⟨⟨hidden, experts⟩, some_⟩, groups⟩, -⟩ := passed
      have groups := Nat.dvd_of_mod_eq_zero groups
      obtain ⟨length, whole, inside, slices, owners⟩ := induction others (Nat.dvd_add aligned groups)
      refine ⟨by rw [List.length_cons, List.length_cons, length], whole, by omega, ?_, ?_⟩
      · intro i other rowOffset isPart isOffset
        cases i with
        | zero =>
            cases isPart
            cases isOffset
            exact ⟨⟨hidden, experts, some_, groups, aligned⟩, Nat.le_refl _, inside⟩
        | succ i =>
            obtain ⟨slice, above, below⟩ := slices i other rowOffset isPart isOffset
            exact ⟨slice, by omega, below⟩
      · intro row above below
        by_cases own : row < start + part.intermediateSize
        · refine ⟨0, ⟨part, start, rfl, rfl, above, own⟩, ?_⟩
          rintro (_ | other) ⟨other_, rowOffset, isPart, isOffset, first, -⟩
          · rfl
          · have later := (slices other other_ rowOffset isPart isOffset).2.1
            omega
        · obtain ⟨i, owns, only⟩ := owners row (by omega) below
          refine ⟨i + 1, owns, ?_⟩
          rintro (_ | other) ⟨other_, rowOffset, isPart, isOffset, first, last⟩
          · cases isPart
            cases isOffset
            omega
          · rw [only other ⟨other_, rowOffset, isPart, isOffset, first, last⟩]

theorem check_ok {parts : List PartConfig} {offsets : List Nat} (checked : config.check parts = .ok offsets) :
    config.quantConfig = ⟨4, 32, false⟩ ∧ config.intermediateOffsets 0 parts = .ok offsets := by
  obtain ⟨_, passed, checked⟩ := bind_ok.mp checked
  simp only [checkSource] at passed
  exact ⟨of_decide_eq_true (require_bind_ok.mp passed).1, checked⟩

/-- The slices of a configuration whose parts have been constructed. -/
theorem aligned_of_check {parts : List PartConfig} {offsets : List Nat} (checked : config.check parts = .ok offsets)
    (built : ∀ part ∈ parts, validateK2KgroupContract part = .ok ()) {i rowOffset : Nat} {part : PartConfig}
    (isPart : parts[i]? = some part) (isOffset : offsets[i]? = some rowOffset) : config.Aligned part rowOffset := by
  obtain ⟨quant, checked⟩ := check_ok checked
  obtain ⟨-, whole, -, slices, -⟩ := intermediateOffsets_ok checked (Nat.dvd_zero _)
  obtain ⟨slice, -, -⟩ := slices i part rowOffset isPart isOffset
  have constructed := built part (List.mem_of_getElem? isPart)
  simp only [validateK2KgroupContract] at constructed
  obtain ⟨ownQuant, constructed⟩ := require_bind_ok.mp constructed
  obtain ⟨positive, constructed⟩ := require_bind_ok.mp constructed
  have groups := require_ok.mp constructed
  have ownQuant := of_decide_eq_true ownQuant
  simp only [Bool.and_eq_true, decide_eq_true_eq] at positive groups
  rw [ownQuant] at groups
  have size : config.quantConfig.groupSize = 32 := by rw [quant]
  obtain ⟨hidden, experts, some_, own, offset⟩ := slice
  rw [size] at own offset whole
  exact
    { groupSize := size
      hidden := hidden
      experts := experts
      hiddenGroups := hidden ▸ Nat.dvd_of_mod_eq_zero groups.1
      groups := own
      offset := offset
      allGroups := whole
      someHidden := hidden ▸ positive.1.1
      some_ := some_ }

end Config

/-! ## The machine -/

/-- Where the six pointers of a part lead. -/
inductive Pointers where
  | null
  | source
  | staged (part : Nat)
deriving DecidableEq, Repr

inductive PartStatus where
  | staging
  | published
  | loaded
  | failed
deriving DecidableEq, Repr

inductive Phase where
  | staging
  | loading
  | unwinding
  | cleared
  | freed
deriving DecidableEq, Repr

structure State (α : Type) where
  phase : Phase
  status : Nat → PartStatus
  /-- The copies that the tasks have yet to run. -/
  left : Nat → Nat → List (Copy StageArray α)
  /-- The copies that were run, in their order. -/
  written : Nat → List (Copy StageArray α)
  pointers : Nat → Pointers

inductive Action where
  /-- A thread runs the next copy of a task. -/
  | copy (part expert : Nat)
  /-- The staging of a part throws, on a null pointer or for want of memory. -/
  | throws (part : Nat)
  | publish (part : Nat)
  /-- `run_numa_job_checked` has waited for all parts. -/
  | join
  | load (part : Nat)
  | loadThrows (part : Nat)
  | leave
  /-- There is no memory for the exceptions of the parts: nothing is run. -/
  | raise
  /-- `~RawInt4StagedPointerGuard` -/
  | clear
  | free
deriving DecidableEq, Repr

/-- The parts of a call that has passed its checks. -/
structure Call (α : Type) where
  config : Config α
  parts : List PartConfig
  offsets : List Nat
  checked : config.check parts = .ok offsets
  /-- The parts have been constructed. -/
  built : ∀ part ∈ parts, validateK2KgroupContract part = .ok ()

namespace Call

variable (call : Call α)

def task (i e : Nat) : Except String (List (Copy StageArray α)) :=
  match call.parts[i]?, call.offsets[i]? with
  | some part, some rowOffset => if e < call.config.expertNum then call.config.stageExpert part rowOffset e else .ok []
  | _, _ => .ok []

/-- The copies of a task that finds its sources. -/
def copies (i e : Nat) : List (Copy StageArray α) :=
  match call.task i e with
  | .ok copies => copies
  | .error _ => []

def finds (i e : Nat) : Bool :=
  match call.task i e with
  | .ok _ => true
  | .error _ => false

/-- The steps of the call between its checks and its end. -/
def machine : Machine (State α) Action where
  initial state := state.phase = .staging ∧ state.status = (fun _ => .staging) ∧ state.left = call.copies ∧
    state.written = (fun _ => []) ∧ ∀ i other, state.pointers i ≠ .staged other
  step state
    | .copy i e =>
        match state.left i e with
        | [] => none
        | copy :: rest =>
            if (state.status i = .staging ∨ state.status i = .failed) ∧ state.phase ≠ .freed then
              some
                { state with
                  left := Function.update state.left i (Function.update (state.left i) e rest)
                  written := Function.update state.written i (state.written i ++ [copy]) }
            else none
    | .throws i =>
        if state.phase = .staging ∧ state.status i = .staging then
          some { state with status := Function.update state.status i .failed }
        else none
    | .publish i =>
        if state.phase = .staging ∧ state.status i = .staging ∧ i < call.parts.length ∧
            ∀ e < call.config.expertNum, call.finds i e = true ∧ (state.left i e).isEmpty = true then
          some
            { state with
              status := Function.update state.status i .published
              pointers := Function.update state.pointers i (.staged i) }
        else none
    | .join =>
        if state.phase = .staging ∧ ∀ i < call.parts.length, state.status i ≠ .staging then
          if ∃ i < call.parts.length, state.status i = .failed then some { state with phase := .unwinding }
          else some { state with phase := .loading }
        else none
    | .load i =>
        if state.phase = .loading ∧ state.status i = .published then
          some { state with status := Function.update state.status i .loaded }
        else none
    | .loadThrows i =>
        if state.phase = .loading ∧ state.status i = .published then
          some { state with status := Function.update state.status i .failed }
        else none
    | .leave =>
        if state.phase = .loading ∧ ∀ i < call.parts.length, state.status i ≠ .published then
          some { state with phase := .unwinding }
        else none
    | .raise =>
        if state.phase = .staging ∧ (∀ i < call.parts.length, state.status i = .staging) ∨
            state.phase = .loading ∧ ∀ i < call.parts.length, state.status i = .published then
          some { state with phase := .unwinding }
        else none
    | .clear =>
        if state.phase = .unwinding then some { state with phase := .cleared, pointers := fun _ => .null } else none
    | .free => if state.phase = .cleared then some { state with phase := .freed } else none

variable {call} {before after : State α}

/-- What a step does. -/
inductive Moved (call : Call α) (before : State α) : Action → State α → Prop where
  | copy (i e copy rest) (next : before.left i e = copy :: rest)
      (runs : before.status i = .staging ∨ before.status i = .failed) :
      Moved call before (.copy i e)
        { before with
          left := Function.update before.left i (Function.update (before.left i) e rest)
          written := Function.update before.written i (before.written i ++ [copy]) }
  | throws (i) (phase : before.phase = .staging) (status : before.status i = .staging) :
      Moved call before (.throws i) { before with status := Function.update before.status i .failed }
  | publish (i) (phase : before.phase = .staging) (inside : i < call.parts.length)
      (ready : ∀ e < call.config.expertNum, call.finds i e = true ∧ before.left i e = []) :
      Moved call before (.publish i)
        { before with
          status := Function.update before.status i .published
          pointers := Function.update before.pointers i (.staged i) }
  | phase (action) (phase : Phase) (opened : before.phase = .staging ∨ before.phase = .loading)
      (kept : phase = .loading ∨ phase = .unwinding) : Moved call before action { before with phase := phase }
  | load (i) (phase : before.phase = .loading) (status : before.status i = .published) :
      Moved call before (.load i) { before with status := Function.update before.status i .loaded }
  | loadThrows (i) (phase : before.phase = .loading) (status : before.status i = .published) :
      Moved call before (.loadThrows i) { before with status := Function.update before.status i .failed }
  | clear : Moved call before .clear { before with phase := .cleared, pointers := fun _ => .null }
  | free (phase : before.phase = .cleared) : Moved call before .free { before with phase := .freed }

theorem moved_of_step {action : Action} (moved : call.machine.step before action = some after) :
    Moved call before action after := by
  cases action with
  | copy i e =>
      simp only [machine] at moved
      split at moved
      · cases moved
      · next copy rest next =>
          split at moved
          · next runs =>
              cases moved
              exact .copy i e copy rest next runs.1
          · cases moved
  | throws i =>
      simp only [machine, Option.ite_none_right_eq_some] at moved
      obtain ⟨⟨phase, status⟩, made⟩ := moved
      cases made
      exact .throws i phase status
  | publish i =>
      simp only [machine, Option.ite_none_right_eq_some] at moved
      obtain ⟨⟨phase, -, inside, ready⟩, made⟩ := moved
      cases made
      exact .publish i phase inside fun e isExpert => ⟨(ready e isExpert).1, List.isEmpty_iff.mp (ready e isExpert).2⟩
  | join =>
      simp only [machine, Option.ite_none_right_eq_some] at moved
      obtain ⟨⟨phase, -⟩, moved⟩ := moved
      split at moved
      · cases moved
        exact .phase _ _ (.inl phase) (.inr rfl)
      · cases moved
        exact .phase _ _ (.inl phase) (.inl rfl)
  | load i =>
      simp only [machine, Option.ite_none_right_eq_some] at moved
      obtain ⟨⟨phase, status⟩, made⟩ := moved
      cases made
      exact .load i phase status
  | loadThrows i =>
      simp only [machine, Option.ite_none_right_eq_some] at moved
      obtain ⟨⟨phase, status⟩, made⟩ := moved
      cases made
      exact .loadThrows i phase status
  | leave =>
      simp only [machine, Option.ite_none_right_eq_some] at moved
      obtain ⟨⟨phase, -⟩, made⟩ := moved
      cases made
      exact .phase _ _ (.inr phase) (.inr rfl)
  | raise =>
      simp only [machine, Option.ite_none_right_eq_some] at moved
      obtain ⟨phase, made⟩ := moved
      cases made
      exact .phase _ _ (phase.imp And.left And.left) (.inr rfl)
  | clear =>
      simp only [machine, Option.ite_none_right_eq_some] at moved
      obtain ⟨-, made⟩ := moved
      cases made
      exact .clear
  | free =>
      simp only [machine, Option.ite_none_right_eq_some] at moved
      obtain ⟨phase, made⟩ := moved
      cases made
      exact .free phase

/-! ## Runs -/

/-- One copy less is due in one of the tasks. -/
theorem flatMap_update {count e : Nat} {left : Nat → List (Copy StageArray α)} {copy : Copy StageArray α}
    {rest : List (Copy StageArray α)} (inside : e < count) (next : left e = copy :: rest) :
    ((List.range count).flatMap left).Perm (copy :: (List.range count).flatMap (Function.update left e rest)) := by
  obtain ⟨earlier, later, split_⟩ := List.append_of_mem (List.mem_range.mpr inside)
  have distinct := List.nodup_range (n := count)
  rw [split_, List.nodup_append] at distinct
  obtain ⟨-, distinct, apart⟩ := distinct
  have kept : ∀ other, other ≠ e → Function.update left e rest other = left other := fun other different =>
    Function.update_of_ne different rest left
  have before : earlier.flatMap (Function.update left e rest) = earlier.flatMap left :=
    List.flatMap_congr fun other member => kept other (apart other member e List.mem_cons_self)
  have after : later.flatMap (Function.update left e rest) = later.flatMap left :=
    List.flatMap_congr fun other member => kept other fun same => (List.nodup_cons.mp distinct).1 (same ▸ member)
  rw [split_, List.flatMap_append, List.flatMap_cons, List.flatMap_append, List.flatMap_cons, before, after, next,
    Function.update_self]
  exact List.perm_middle

/-- What holds of every state of a run. -/
structure Inv (call : Call α) (state : State α) : Prop where
  order : ∀ i, (state.written i ++ (List.range call.config.expertNum).flatMap (state.left i)).Perm
    ((List.range call.config.expertNum).flatMap (call.copies i))
  tasks : ∀ i e, call.config.expertNum ≤ e → state.left i e = []
  ready : ∀ i, state.status i = .published ∨ state.status i = .loaded → i < call.parts.length ∧
    ∀ e < call.config.expertNum, call.finds i e = true ∧ state.left i e = []
  pointers : state.phase = .staging ∨ state.phase = .loading → ∀ i, state.status i = .published ∨ state.status i = .loaded →
    state.pointers i = .staged i
  cleared : state.phase = .cleared ∨ state.phase = .freed → ∀ i other, state.pointers i ≠ .staged other

theorem inv_initial {state : State α} (starts : call.machine.initial state) : Inv call state := by
  obtain ⟨phase, status, left, written, pointers⟩ := starts
  constructor
  · intro i
    rw [written, left]
    exact List.Perm.refl _
  · intro i e outside
    rw [left, copies, task]
    split
    · next known =>
        split at known
        · rw [if_neg (by omega)] at known
          exact (Except.ok.inj known).symm
        · exact (Except.ok.inj known).symm
    · rfl
  · intro i done
    rw [status] at done
    rcases done with impossible | impossible <;> cases impossible
  · intro _ i done
    rw [status] at done
    rcases done with impossible | impossible <;> cases impossible
  · exact fun _ => pointers

theorem finished_of_update (status : Nat → PartStatus) (i : Nat) (new : PartStatus)
    (own : new = .published ∨ new = .loaded → status i = .published ∨ status i = .loaded) (other : Nat)
    (finished : Function.update status i new other = .published ∨ Function.update status i new other = .loaded) :
    status other = .published ∨ status other = .loaded := by
  by_cases same : other = i
  · subst same
    rw [Function.update_self] at finished
    exact own finished
  · rw [Function.update_of_ne same] at finished
    exact finished

theorem inv_moved {action : Action} (inv : Inv call before) (moved : Moved call before action after) : Inv call after := by
  cases moved with
  | copy i e copy rest next runs =>
      have isTask : e < call.config.expertNum := by
        by_contra outside
        rw [inv.tasks i e (by omega)] at next
        cases next
      have different : ∀ other, before.status other = .published ∨ before.status other = .loaded → other ≠ i := by
        rintro other done rfl
        rcases runs with staging | failed
        · rw [staging] at done
          rcases done with impossible | impossible <;> cases impossible
        · rw [failed] at done
          rcases done with impossible | impossible <;> cases impossible
      refine ⟨?_, ?_, ?_, inv.pointers, inv.cleared⟩
      · intro other
        dsimp only
        by_cases same : other = i
        · subst same
          rw [Function.update_self, Function.update_self, List.append_assoc]
          exact ((flatMap_update isTask next).symm.append_left _).trans (inv.order other)
        · rw [Function.update_of_ne same, Function.update_of_ne same]
          exact inv.order other
      · intro other e' outside
        dsimp only
        by_cases same : other = i
        · subst same
          rw [Function.update_self, Function.update_of_ne (by omega)]
          exact inv.tasks other e' outside
        · rw [Function.update_of_ne same]
          exact inv.tasks other e' outside
      · intro other done
        dsimp only
        rw [Function.update_of_ne (different other done)]
        exact inv.ready other done
  | throws i phase status =>
      have kept := finished_of_update before.status i .failed (fun done => by rcases done with impossible | impossible <;> cases impossible)
      exact ⟨inv.order, inv.tasks, fun other done => inv.ready other (kept other done),
        fun opened other done => inv.pointers opened other (kept other done), inv.cleared⟩
  | publish i phase inside ready =>
      refine ⟨inv.order, inv.tasks, ?_, ?_, ?_⟩
      · intro other done
        dsimp only at done
        by_cases same : other = i
        · subst same
          exact ⟨inside, ready⟩
        · rw [Function.update_of_ne same] at done
          exact inv.ready other done
      · intro opened other done
        dsimp only at done ⊢
        by_cases same : other = i
        · subst same
          rw [Function.update_self]
        · rw [Function.update_of_ne same] at done ⊢
          exact inv.pointers opened other done
      · rintro (cleared | freed)
        · cases phase.symm.trans cleared
        · cases phase.symm.trans freed
  | phase action phase opened kept =>
      refine ⟨inv.order, inv.tasks, inv.ready, fun _ => inv.pointers opened, ?_⟩
      dsimp only
      rintro closed
      rcases kept with rfl | rfl
      · rcases closed with impossible | impossible <;> cases impossible
      · rcases closed with impossible | impossible <;> cases impossible
  | load i phase status =>
      have kept := finished_of_update before.status i .loaded (fun _ => .inl status)
      exact ⟨inv.order, inv.tasks, fun other done => inv.ready other (kept other done),
        fun opened other done => inv.pointers opened other (kept other done), inv.cleared⟩
  | loadThrows i phase status =>
      have kept := finished_of_update before.status i .failed (fun _ => .inl status)
      exact ⟨inv.order, inv.tasks, fun other done => inv.ready other (kept other done),
        fun opened other done => inv.pointers opened other (kept other done), inv.cleared⟩
  | clear =>
      refine ⟨inv.order, inv.tasks, inv.ready, ?_, fun _ i other same => by cases same⟩
      rintro (impossible | impossible) <;> cases impossible
  | free phase =>
      refine ⟨inv.order, inv.tasks, inv.ready, ?_, fun _ => inv.cleared (.inl phase)⟩
      rintro (impossible | impossible) <;> cases impossible

theorem inv_reachable {state : State α} (reached : call.machine.Reachable state) : Inv call state :=
  reached.invariant (fun _ => inv_initial) fun _ _ _ inv moved => inv_moved inv (moved_of_step moved)

/-! ## Loads -/

structure LoadsSlices (call : Call α) (state : State α) (i : Nat) (part : PartConfig) (rowOffset : Nat) : Prop where
  pointers : state.pointers i = .staged i
  once : ∀ cell, cell.2 < call.config.stageSize part cell.1 → Copy.writes (state.written i) cell = 1
  inside : ∀ cell, call.config.stageSize part cell.1 ≤ cell.2 → Copy.writes (state.written i) cell = 0
  slices : ∀ memory, call.config.HoldsSlices part rowOffset (Copy.perform (state.written i) memory)

theorem loadsSlices {state : State α} {i rowOffset : Nat} {part : PartConfig} (inv : Inv call state)
    (permutes : call.config.Permutes) (phase : state.phase = .loading) (status : state.status i = .published)
    (isPart : call.parts[i]? = some part) (isOffset : call.offsets[i]? = some rowOffset) :
    call.LoadsSlices state i part rowOffset := by
  have aligned := Config.aligned_of_check call.checked call.built isPart isOffset
  obtain ⟨-, ready⟩ := inv.ready i (.inl status)
  have found : ∀ e < call.config.expertNum, call.config.stageExpert part rowOffset e = .ok (call.copies i e) := by
    intro e inside
    have finds := (ready e inside).1
    rw [Call.finds, task, isPart, isOffset] at finds
    dsimp only at finds
    rw [if_pos inside] at finds
    rw [copies, task, isPart, isOffset]
    dsimp only
    rw [if_pos inside]
    split at finds
    · next known => rw [known]
    · cases finds
  have empty : (List.range call.config.expertNum).flatMap (state.left i) = [] := by
    rw [List.flatMap_eq_nil_iff]
    exact fun e member => (ready e (List.mem_range.mp member)).2
  have order := inv.order i
  rw [empty, List.append_nil] at order
  have exactly := (Config.part_exactly aligned permutes found).perm order
  have sources : ∀ e < call.config.expertNum, ∃ copies, call.config.stageExpert part rowOffset e = .ok copies :=
    fun e inside => ⟨_, found e inside⟩
  refine ⟨inv.pointers (.inr phase) i (.inl status), ?_, ?_, ?_⟩
  · intro cell inside
    obtain ⟨value, known⟩ := Option.isSome_iff_exists.mp (Config.staged_isSome aligned permutes sources inside)
    exact (exactly.inside cell value known).once
  · intro cell beyond
    exact exactly.outside cell (Config.staged_beyond aligned beyond)
  · intro memory
    apply Config.holdsSlices aligned permutes sources
    intro cell value known
    exact (exactly.inside cell value known).perform memory

/-- The parts divide the rows; a part that loads finds its slices, each cell written once; and
when the staging memory has been freed, no part has a pointer into it. -/
theorem staging_exact (call : Call α) (permutes : call.config.Permutes) :
    (∀ row < call.config.intermediateSize,
      ∃ i, Config.Owns call.parts call.offsets row i ∧ ∀ other, Config.Owns call.parts call.offsets row other → other = i) ∧
    ∀ state, call.machine.Reachable state →
      (state.phase = .freed → ∀ i other, state.pointers i ≠ .staged other) ∧
      ∀ i after, call.machine.step state (.load i) = some after →
        ∃ part rowOffset, call.parts[i]? = some part ∧ call.offsets[i]? = some rowOffset ∧ call.LoadsSlices state i part rowOffset := by
  obtain ⟨quant, checked⟩ := Config.check_ok call.checked
  obtain ⟨length, -, -, -, owners⟩ := Config.intermediateOffsets_ok checked (Nat.dvd_zero _)
  refine ⟨fun row inside => owners row (Nat.zero_le _) inside, ?_⟩
  intro state reached
  have inv := inv_reachable reached
  refine ⟨fun freed => inv.cleared (.inr freed), ?_⟩
  intro i after moved
  simp only [machine, Option.ite_none_right_eq_some] at moved
  obtain ⟨⟨phase, status⟩, -⟩ := moved
  have isPart := (inv.ready i (.inl status)).1
  have isOffset : i < call.offsets.length := by omega
  exact ⟨call.parts[i], call.offsets[i], List.getElem?_eq_getElem isPart, List.getElem?_eq_getElem isOffset,
    loadsSlices inv permutes phase status (List.getElem?_eq_getElem isPart) (List.getElem?_eq_getElem isOffset)⟩

/-- Two parts of one group of rows each. -/
def twoParts : Call ℕ where
  config :=
    { quantConfig := ⟨4, 32, false⟩
      numGpuExperts := 0
      expertNum := 2
      hiddenSize := 32
      intermediateSize := 64
      physicalToLogicalMap := some fun e => 1 - e
      projs := fun _ => []
      proj := fun _ => some id }
  parts := [⟨⟨4, 32, false⟩, 2, 32, 32⟩, ⟨⟨4, 32, false⟩, 2, 32, 32⟩]
  offsets := [0, 32]
  checked := by decide
  built := by decide

theorem staging_exact_two_parts :
    (∀ row < twoParts.config.intermediateSize,
      ∃ i, Config.Owns twoParts.parts twoParts.offsets row i ∧
        ∀ other, Config.Owns twoParts.parts twoParts.offsets row other → other = i) ∧
    ∀ state, twoParts.machine.Reachable state →
      (state.phase = .freed → ∀ i other, state.pointers i ≠ .staged other) ∧
      ∀ i after, twoParts.machine.step state (.load i) = some after →
        ∃ part rowOffset, twoParts.parts[i]? = some part ∧ twoParts.offsets[i]? = some rowOffset ∧
          twoParts.LoadsSlices state i part rowOffset :=
  staging_exact twoParts ⟨by decide, by decide⟩

end Call

end Rawint4

end KtKernel.Sft
