import Mathlib.Algebra.Ring.Int.Defs
import KtKernel.Sft.Slices

namespace KtKernel.Sft.Window

open KtKernel.Data

section

variable {config : Config} {call : Call config R} {state : State R}

/-! ## Windows -/

structure Config.Authoritative (config : Config) : Prop where
  enabled : config.authoritativeOptimizerGrads = true
  allOnCpu : config.numGpuExperts = 0
  supported : config.backend ≠ .other

theorem hasAuthoritative_of_needs (authoritative : config.Authoritative)
    (needs : call.needs tensor = true) : call.hasAuthoritative tensor = true := by
  cases base : tensor.isBase with
  | true =>
      simp only [Call.needs, base, if_true] at needs
      have full : config.fullWeightGrad = true := by
        simp only [Call.needBaseWeightGrad, Bool.and_eq_true] at needs
        exact needs.1.1.1
      have kernel : config.backend = .bf16 :=
        (config.fullWeightGradSupported full).resolve_right authoritative.supported
      simp [Call.hasAuthoritative, base, Call.hasAuthoritativeBaseGrads, needs,
        Config.supportsAuthoritativeBaseGrads, authoritative.enabled, authoritative.allOnCpu, kernel]
  | false =>
      simp only [Call.needs, base, Bool.false_eq_true, if_false] at needs
      have lora : config.skipLora = false := by
        simp only [Call.needLoraWeightGrad, Bool.and_eq_true, Bool.not_eq_true'] at needs
        exact needs.1.1.1.1.1.1.1
      simp [Call.hasAuthoritative, base, Call.hasAuthoritativeLoraGrads, needs,
        Config.supportsAuthoritativeLoraGrads, authoritative.enabled, authoritative.allOnCpu,
        authoritative.supported, lora]

theorem current_of_written (authoritative : config.Authoritative)
    (written : call.written tensor = some pointer) :
    call.currentOptimizerGradPtrs tensor = some pointer := by
  have passed := outputs_of_written written
  simp only [Call.written] at written
  split at written
  case isTrue needs =>
    rw [Call.currentOptimizerGradPtrs, if_pos (hasAuthoritative_of_needs authoritative needs)]
    exact passed
  case isFalse => contradiction

theorem hasAuthoritativeOptimizerGrads_of_current
    (current : call.currentOptimizerGradPtrs tensor = some pointer) :
    call.hasAuthoritativeOptimizerGrads = true := by
  obtain ⟨-, -, has⟩ := outputs_of_current current
  simp only [Call.hasAuthoritative] at has
  rw [Call.hasAuthoritativeOptimizerGrads]
  cases base : tensor.isBase with
  | true =>
      simp only [base, if_true] at has
      simp [has]
  | false =>
      simp only [base, Bool.false_eq_true, if_false] at has
      simp [has]

theorem not_written_of_not_has (authoritative : config.Authoritative)
    (without : call.hasAuthoritativeOptimizerGrads = false) (tensor : Tensor) :
    call.written tensor = none := by
  cases written : call.written tensor with
  | none => rfl
  | some pointer =>
      have has := hasAuthoritativeOptimizerGrads_of_current (current_of_written authoritative written)
      rw [without] at has
      contradiction

def Ending.isRefusal : Ending R → Bool
  | .refuses => true
  | _ => false

/-- The invocation passes gradients and marks their window invalid. -/
def marks (event : Call config R × Ending R) : Bool :=
  event.1.hasAuthoritativeOptimizerGrads && !event.2.isRefusal

/-- The invocation returns. -/
def succeeds (event : Call config R × Ending R) : Bool :=
  match event.2 with
  | .returns => decide (config.tpIntermediateSizes.sum = config.intermediateSize)
  | _ => false

def continues (call : Call config R) (window : List (Call config R)) : Bool :=
  window.head?.any fun latest =>
    decide (latest.currentOptimizerGradPtrs = call.currentOptimizerGradPtrs)

/-- The successful calls of the open window, the latest first.  An exception
closes the window; an overwriting call and a call with other tensors start one. -/
def follow (window : List (Call config R)) (event : Call config R × Ending R) : List (Call config R) :=
  if marks event then
    if succeeds event then
      if event.1.accumulate && continues event.1 window then event.1 :: window else [event.1]
    else []
  else window

def windowOf (events : List (Call config R × Ending R)) : List (Call config R) :=
  events.foldl follow []

/-- The latest invocation that marked the window. -/
def latestMarked (events : List (Call config R × Ending R)) : Option (Call config R × Ending R) :=
  (events.filter marks).getLast?

theorem head_windowOf (events : List (Call config R × Ending R)) :
    (windowOf events).head? =
      (latestMarked events).bind fun latest => if succeeds latest then some latest.1 else none := by
  induction events using List.reverseRecOn with
  | nil => rfl
  | append_singleton earlier event induction =>
      simp only [windowOf, latestMarked, List.foldl_append, List.foldl_cons, List.foldl_nil,
        List.filter_append, List.getLast?_append] at induction ⊢
      cases marked : marks event with
      | false => simpa [follow, marked] using induction
      | true =>
          cases succeeded : succeeds event with
          | false => simp [follow, marked, succeeded]
          | true =>
              simp only [follow, marked, succeeded, if_true]
              split <;> simp [marked, succeeded]

/-- After a failed call and after a call with other tensors, a call starts a
window. -/
theorem not_continues_of_latest {earlier : List (Call config R × Ending R)}
    (fresh : ∀ latest, latestMarked earlier = some latest →
      succeeds latest = false ∨ latest.1.currentOptimizerGradPtrs ≠ call.currentOptimizerGradPtrs) :
    continues call (windowOf earlier) = false := by
  rw [continues, head_windowOf]
  cases found : latestMarked earlier with
  | none => rfl
  | some latest =>
      rcases fresh latest found with failed | different
      · simp [failed]
      · cases succeeded : succeeds latest with
        | false => simp [succeeded]
        | true => simp [succeeded, different]

variable [CommSemiring R]

def windowSum (window : List (Call config R)) (tensor : Tensor) (expert offset : Nat) : R :=
  (window.map fun call => call.share tensor expert offset).sum

/-- The native state stands for the window. -/
structure Exact (window : List (Call config R)) (state : State R) : Prop where
  valid : state.outputsInitialized = !window.isEmpty
  pointers : ∀ call ∈ window, call.currentOptimizerGradPtrs = state.outputPtrs
  experts : window ≠ [] → ∀ expert < config.expertNum,
    (expert ∈ state.windowActiveExperts ↔ ∃ call ∈ window, expert ∈ call.activeExpertMap)
  slices : window ≠ [] → ∀ tensor pointer expert offset, state.outputPtrs tensor = some pointer →
    expert < config.expertNum → offset < config.expertElements tensor →
    state.memory (config.element pointer tensor expert offset) = windowSum window tensor expert offset

theorem Exact.empty (without : state.outputsInitialized = false) : Exact ([] : List (Call config R)) state := by
  refine ⟨without, ?_, ?_, ?_⟩
  · intro call member
    contradiction
  · intro nonempty
    contradiction
  · intro nonempty
    contradiction

theorem Exact.effective {window : List (Call config R)} (exact_ : Exact window state)
    (has : call.hasAuthoritativeOptimizerGrads = true) :
    effectiveAccumulate call state = (call.accumulate && continues call window) := by
  have valid := exact_.valid
  cases window with
  | nil =>
      simp only [List.isEmpty_nil, Bool.not_true] at valid
      simp [effectiveAccumulate, forceInitialization, has, valid, continues]
  | cons latest rest =>
      simp only [List.isEmpty_cons, Bool.not_false] at valid
      have same := exact_.pointers latest (.head _)
      simp only [effectiveAccumulate, forceInitialization, has, valid, continues, ← same, List.head?_cons,
        Option.any_some, Bool.not_true, Bool.false_or, Bool.true_and, decide_not, Bool.not_not]
      congr 1
      exact decide_eq_decide.mpr eq_comm

theorem windowSum_cons (window : List (Call config R)) :
    windowSum (call :: window) tensor expert offset =
      call.share tensor expert offset + windowSum window tensor expert offset := by
  simp only [windowSum, List.map_cons, List.sum_cons]

theorem windowSum_inactive {window : List (Call config R)}
    (inactive : ∀ call ∈ window, expert ∉ call.activeExpertMap) :
    windowSum window tensor expert offset = 0 := by
  apply List.sum_eq_zero
  intro value member
  obtain ⟨call, inWindow, rfl⟩ := List.mem_map.mp member
  exact if_neg (inactive call inWindow)

theorem Exact.nonempty {window : List (Call config R)} (exact_ : Exact window state)
    (has : call.hasAuthoritativeOptimizerGrads = true) (kept : forceInitialization call state = false) :
    window ≠ [] ∧ state.outputPtrs = call.currentOptimizerGradPtrs := by
  have valid := exact_.valid
  simp only [forceInitialization, has, Bool.true_and, Bool.or_eq_false_iff, Bool.not_eq_false',
    decide_eq_false_iff_not, ne_eq, Decidable.not_not] at kept
  refine ⟨?_, kept.2.symm⟩
  intro none
  rw [none, kept.1] at valid
  contradiction

/-- Outside the experts of the window a slice is zero. -/
theorem Exact.stale {window : List (Call config R)} (exact_ : Exact window state)
    (current : call.currentOptimizerGradPtrs tensor = some pointer)
    (inRange : expert < config.expertNum) (inside : offset < config.expertElements tensor)
    (kept : forceInitialization call state = false) (absent : expert ∉ state.windowActiveExperts) :
    state.memory (config.element pointer tensor expert offset) = 0 := by
  obtain ⟨nonempty, same⟩ := exact_.nonempty (hasAuthoritativeOptimizerGrads_of_current current) kept
  rw [exact_.slices nonempty tensor pointer expert offset (by rw [same]; exact current) inRange inside]
  apply windowSum_inactive
  intro call inWindow active
  exact absent ((exact_.experts nonempty expert inRange).mpr ⟨call, inWindow, active⟩)

theorem Exact.returns {window : List (Call config R)} (exact_ : Exact window state)
    (has : call.hasAuthoritativeOptimizerGrads = true)
    (covers : config.tpIntermediateSizes.sum = config.intermediateSize) :
    Exact (if call.accumulate && continues call window then call :: window else [call])
      { commit call state with memory := computed call state } := by
  have agree := exact_.effective has
  rw [← agree]
  have computes : ∀ tensor pointer expert offset, call.currentOptimizerGradPtrs tensor = some pointer →
      expert < config.expertNum → offset < config.expertElements tensor →
      computed call state (config.element pointer tensor expert offset) =
        (if effectiveAccumulate call state then
          state.memory (config.element pointer tensor expert offset) else 0) +
          call.share tensor expert offset := by
    intro tensor pointer expert offset current inRange inside
    exact computed_element current covers inRange inside (exact_.stale current inRange inside)
  simp only [commit, has, if_true]
  cases effective : effectiveAccumulate call state with
  | true =>
      obtain ⟨nonempty, same⟩ := exact_.nonempty has (not_force_of_effective effective)
      simp only [effective, if_true] at computes ⊢
      refine ⟨rfl, ?_, ?_, ?_⟩
      · intro other member
        rcases List.mem_cons.mp member with rfl | inWindow
        · rfl
        · rw [exact_.pointers other inWindow, same]
      · intro _ expert inRange
        simp only [List.mem_filter, List.mem_range, inRange, true_and, decide_eq_true_eq,
          exact_.experts nonempty expert inRange, List.exists_mem_cons_iff]
        exact or_comm
      · intro _ tensor pointer expert offset passed inRange inside
        dsimp only at passed ⊢
        rw [computes tensor pointer expert offset passed inRange inside, windowSum_cons, add_comm,
          exact_.slices nonempty tensor pointer expert offset (by rw [same]; exact passed) inRange inside]
  | false =>
      simp only [effective, Bool.false_eq_true, if_false] at computes ⊢
      refine ⟨rfl, ?_, ?_, ?_⟩
      · intro other member
        rw [List.mem_singleton.mp member]
      · intro _ expert inRange
        simp [List.mem_dedup]
      · intro _ tensor pointer expert offset passed inRange inside
        dsimp only at passed ⊢
        rw [computes tensor pointer expert offset passed inRange inside]
        simp [windowSum]

/-- A call that passes no gradients leaves the persistent ones alone. -/
theorem backward_without (authoritative : config.Authoritative)
    (without : call.hasAuthoritativeOptimizerGrads = false) (ending : Ending R) :
    (backward call ending state).2 = state := by
  have none := not_written_of_not_has authoritative without
  simp only [Call.hasAuthoritativeOptimizerGrads, Bool.or_eq_false_iff] at without
  have base : call.needBaseWeightGrad = false := by
    rw [Bool.eq_false_iff]
    intro needed
    have has : call.hasAuthoritative .gateProj = true := hasAuthoritative_of_needs authoritative needed
    exact absurd has (Bool.eq_false_iff.mp without.1)
  have abandons (contents : Cell → R) : abandoned call contents state = state := by
    simp [abandoned, none, Call.hasAuthoritativeOptimizerGrads, without]
  have computes : computed call state = state.memory := by
    funext cell
    have segs : clearSegs call state = [] := by
      simp [clearSegs, baseClearSegs, loraClearSegs, base, without.2]
    have merged : ∀ store ∈ mergeStores call, store.Skips cell := by
      intro store member old
      obtain ⟨task, -, rfl⟩ := List.mem_map.mp member
      simp [mergeStore, none]
    have stored : ∀ store ∈ partStores call (effectiveAccumulate call state), store.Skips cell := by
      intro store member old
      obtain ⟨task, -, rfl⟩ := List.mem_map.mp member
      simp [partStore, none]
    simp only [computed, segs, List.map_nil, Store.runAll_nil]
    rw [Store.runAll_skipped merged, Store.runAll_skipped stored]
  cases ending with
  | refuses => rfl
  | throws contents => exact abandons contents
  | returns =>
      simp only [backward]
      split
      · exact abandons _
      · simp [commit, Call.hasAuthoritativeOptimizerGrads, without, computes]

theorem Exact.step {window : List (Call config R)} (authoritative : config.Authoritative)
    (exact_ : Exact window state) (event : Call config R × Ending R) :
    Exact (follow window event) (backward event.1 event.2 state).2 := by
  obtain ⟨call, ending⟩ := event
  cases has : call.hasAuthoritativeOptimizerGrads with
  | false =>
      rw [backward_without authoritative has]
      simpa [follow, marks, has] using exact_
  | true =>
      have closed (contents : Cell → R) : Exact ([] : List (Call config R)) (abandoned call contents state) := by
        apply Exact.empty
        simp [abandoned, has]
      cases ending with
      | refuses => simpa [follow, marks, has, Ending.isRefusal, backward] using exact_
      | throws contents =>
          simpa [follow, marks, has, Ending.isRefusal, succeeds, backward] using closed contents
      | returns =>
          by_cases covers : config.tpIntermediateSizes.sum = config.intermediateSize
          · simpa [follow, marks, has, Ending.isRefusal, succeeds, backward, covers] using
              exact_.returns has covers
          · simpa [follow, marks, has, Ending.isRefusal, succeeds, backward, covers] using closed _

theorem runCalls_exact (authoritative : config.Authoritative) (memory : Cell → R)
    (events : List (Call config R × Ending R)) :
    Exact (windowOf events) (runCalls events { memory }) := by
  induction events using List.reverseRecOn with
  | nil => exact Exact.empty rfl
  | append_singleton earlier event induction =>
      simp only [windowOf, runCalls, List.foldl_append, List.foldl_cons, List.foldl_nil]
      exact induction.step authoritative event

/-- In every run of calls, a call that returns leaves in each slice of its
gradients the sum of the scaled contributions of its window. -/
theorem optimizer_window_exact (authoritative : config.Authoritative) (memory : Cell → R)
    (earlier : List (Call config R × Ending R)) (call : Call config R)
    (returned : (backward call .returns (runCalls earlier { memory })).1 = true) :
    let after := (backward call .returns (runCalls earlier { memory })).2
    let window := windowOf (earlier ++ [(call, .returns)])
    (∀ tensor pointer, call.written tensor = some pointer →
      ∀ expert < config.expertNum, ∀ offset < config.expertElements tensor,
        after.memory (config.element pointer tensor expert offset) =
          (window.map fun counted =>
            if expert ∈ counted.activeExpertMap then counted.total tensor expert offset * counted.scale
            else 0).sum ∧
        ((∀ counted ∈ window, expert ∉ counted.activeExpertMap) →
          after.memory (config.element pointer tensor expert offset) = 0)) ∧
    (call.hasAuthoritativeOptimizerGrads = true →
      (call.accumulate = false → window = [call]) ∧
      ((∀ latest, latestMarked earlier = some latest →
          succeeds latest = false ∨
            latest.1.currentOptimizerGradPtrs ≠ call.currentOptimizerGradPtrs) →
        window = [call]) ∧
      (call.accumulate = true → (∃ latest, latestMarked earlier = some latest ∧
          succeeds latest = true ∧
            latest.1.currentOptimizerGradPtrs = call.currentOptimizerGradPtrs) →
        window = call :: windowOf earlier)) := by
  intro after window
  have covers : config.tpIntermediateSizes.sum = config.intermediateSize := by
    by_contra uncovered
    simp [backward, uncovered] at returned
  have shape (has : call.hasAuthoritativeOptimizerGrads = true) :
      window = if call.accumulate && continues call (windowOf earlier) then
        call :: windowOf earlier else [call] := by
    simp only [window, windowOf, List.foldl_append, List.foldl_cons, List.foldl_nil]
    simp [follow, marks, has, Ending.isRefusal, succeeds, covers]
  have exact_ : Exact window after := by
    have whole := runCalls_exact authoritative memory (earlier ++ [(call, .returns)])
    simp only [runCalls, List.foldl_append, List.foldl_cons, List.foldl_nil] at whole
    exact whole
  constructor
  · intro tensor pointer written expert inRange offset inside
    have current := current_of_written authoritative written
    have has := hasAuthoritativeOptimizerGrads_of_current current
    have nonempty : window ≠ [] := by
      rw [shape has]
      split <;> simp
    have member : call ∈ window := by
      rw [shape has]
      split <;> simp
    have slice := exact_.slices nonempty tensor pointer expert offset
      (by rw [← exact_.pointers call member]; exact current) inRange inside
    refine ⟨slice, ?_⟩
    intro inactive
    rw [slice]
    exact windowSum_inactive inactive
  · intro has
    refine ⟨?_, ?_, ?_⟩
    · intro overwrites
      rw [shape has, overwrites]
      rfl
    · intro fresh
      rw [shape has, not_continues_of_latest fresh, Bool.and_false]
      rfl
    · intro accumulates carried
      obtain ⟨latest, found, succeeded, same⟩ := carried
      have continued : continues call (windowOf earlier) = true := by
        rw [continues, head_windowOf]
        simp [found, succeeded, same]
      rw [shape has, accumulates, continued]
      rfl

end

/-- Two parts, two experts, and all nine gradients. -/
def smallConfig : Config where
  backend := .bf16
  skipLora := false
  fullWeightGrad := true
  authoritativeOptimizerGrads := true
  loraRank := 1
  hiddenSize := 1
  intermediateSize := 2
  expertNum := 2
  numGpuExperts := 0
  tpIntermediateSizes := [1, 1]
  fullWeightGradSupported := fun _ => .inl rfl

/-- A call that activates the second expert. -/
def smallCall (accumulate : Bool) : Call smallConfig Int where
  outputs tensor := some (Tensor.all.idxOf tensor)
  activeExpertMap := [1]
  accumulate := accumulate
  scale := 3
  contribution part _ _ _ := part + 1
  partOrder := [1, 0]
  separate first second pointer firstPassed secondPassed := by
    have same := firstPassed.trans secondPassed.symm
    cases first <;> cases second <;> first | rfl | exact absurd same (by decide)
  activeDistinct := by decide
  activeBounded := by decide
  parts := by decide

theorem optimizer_window_exact_after_failure :
    (backward (smallCall true) .returns (runCalls
        [(smallCall false, .returns), (smallCall true, .throws fun _ => 5)] { memory := fun _ => 7 })).2.memory
      (smallConfig.element 3 .gateLoraA 1 0) = 9 := by
  have window := optimizer_window_exact ⟨rfl, rfl, by decide⟩ (fun _ => 7)
    [(smallCall false, .returns), (smallCall true, .throws fun _ => 5)] (smallCall true) (by decide)
  have latest : latestMarked [(smallCall false, .returns), (smallCall true, .throws fun _ => 5)] =
      some (smallCall true, .throws fun _ => 5) := rfl
  have fresh := (window.2 (by decide)).2.1 (by
    intro found is
    rw [latest, Option.some.injEq] at is
    rw [← is]
    exact .inl rfl)
  have slice := (window.1 .gateLoraA 3 (by decide) 1 (by decide) 0 (by decide)).1
  rw [fresh] at slice
  rw [slice]
  decide

end KtKernel.Sft.Window
