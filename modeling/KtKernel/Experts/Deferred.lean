import Mathlib.Data.Fin.VecNotation
import KtKernel.Data.Topk

namespace KtKernel.Experts

open KtKernel.Data

/-! The choice of the experts that a layer defers. -/

namespace Deferred

variable {batch width : Nat} {α : Type}

abbrev Ids (batch width : Nat) := Fin batch → Fin width → Int

/-- `torch.topk` of the rows, with the number of indices to choose. -/
abbrev Topk (batch width : Nat) (α : Type) := (Fin batch → Fin width → α) → Nat → Fin batch → List (Fin width)

structure Wrapper where
  numExperts : Nat
  numExpertsPerTok : Nat
  maxDeferredExpertsPerToken : Int
  chunkedPrefillSize : Nat

/-- `scatter_` of ones into a table of zeros. -/
def scatter (ids : List Int) : Int → Int :=
  ids.foldl (fun flag id => Function.update flag id 1) fun _ => 0

/-- The immediate and the deferred ids.  `none` is an index out of the flag table. -/
def selectDeferredExperts (wrapper : Wrapper) (topk : Topk batch width α) (expertIds : Ids batch width)
    (expertScores : Fin batch → Fin width → α) (protectedK : Int) : Option (Ids batch width × Ids batch width) :=
  let protectedK := (max 0 (min protectedK width)).toNat
  if protectedK = 0 then some (fun _ _ => -1, expertIds)
  else if ∃ token index, expertIds token index < 0 ∨ (wrapper.numExperts : Int) ≤ expertIds token index then none
  else
    let protectedIndices := topk expertScores protectedK
    let protectedIds := (List.finRange batch).flatMap fun token => (protectedIndices token).map (expertIds token)
    let protectedFlag := scatter protectedIds
    some (fun token index => if protectedFlag (expertIds token index) ≠ 0 then expertIds token index else -1,
      fun token index => if protectedFlag (expertIds token index) ≠ 0 then -1 else expertIds token index)

/-- The ids that `_prepare_forward_cpu_buffers` copies into the rows of the pinned buffers,
which have `num_experts_per_tok` columns.  A single column would fill them all. -/
def prepareExpertIds (wrapper : Wrapper) (topk : Topk batch width α) (topkIds : Ids batch width)
    (topkWeights : Fin batch → Fin width → α) : Option (Ids batch width × Option (Ids batch width)) :=
  if batch > wrapper.chunkedPrefillSize then none
  else if width ≠ wrapper.numExpertsPerTok ∧ width ≠ 1 then none
  else if wrapper.maxDeferredExpertsPerToken > 0 then
    (selectDeferredExperts wrapper topk topkIds topkWeights
      (wrapper.numExpertsPerTok - wrapper.maxDeferredExpertsPerToken)).map fun selected => (selected.1, some selected.2)
  else some (topkIds, none)

/-- The slots of a token that hold an id. -/
def filled (ids : Ids batch width) (token : Fin batch) : Finset (Fin width) :=
  Finset.univ.filter fun index => ids token index ≠ -1

/-- Every id is in one of the two results, an expert is in one of them for all tokens, and
every token keeps as many of its largest scores as are protected. -/
structure Partitions [LE α] (expertIds : Ids batch width) (expertScores : Fin batch → Fin width → α) (protectedK : Nat)
    (immediate deferred : Ids batch width) : Prop where
  split : ∀ token index, (immediate token index = expertIds token index ∧ deferred token index = -1) ∨
    (immediate token index = -1 ∧ deferred token index = expertIds token index)
  apart : ∀ token index token' index', immediate token index ≠ -1 → deferred token' index' ≠ -1 →
    immediate token index ≠ deferred token' index'
  protects : ∀ token, ∃ slots, IsTopk (expertScores token) protectedK slots ∧ ∀ index ∈ slots, index ∈ filled immediate token

/-- The two results of `select_deferred_experts`, for any number of protected scores, and
the bound of `_prepare_forward_cpu_buffers`. -/
structure Defers [LE α] (wrapper : Wrapper) (topk : Topk batch width α) (expertIds : Ids batch width)
    (expertScores : Fin batch → Fin width → α) : Prop where
  selects : ∀ protectedK, ∃ immediate deferred,
    selectDeferredExperts wrapper topk expertIds expertScores protectedK = some (immediate, deferred) ∧
      Partitions expertIds expertScores (min (max protectedK 0) width).toNat immediate deferred ∧
      ∀ token, min (max protectedK 0) width ≤ (filled immediate token).card
  bounded : ∀ immediate deferred, prepareExpertIds wrapper topk expertIds expertScores = some (immediate, some deferred) →
    ∀ token, ((filled deferred token).card : Int) ≤ wrapper.maxDeferredExpertsPerToken

theorem scatter_append (ids : List Int) (id : Int) : scatter (ids ++ [id]) = Function.update (scatter ids) id 1 := by
  rw [scatter, scatter, List.foldl_append]
  rfl

theorem scatter_ne_zero_iff (ids : List Int) (id : Int) : scatter ids id ≠ 0 ↔ id ∈ ids := by
  induction ids using List.reverseRecOn with
  | nil => simp [scatter]
  | append_singleton rest last induction =>
      rw [scatter_append, List.mem_append, List.mem_singleton]
      by_cases same : id = last
      · subst same
        simp
      · rw [Function.update_of_ne same, induction]
        simp [same]

/-! ## The two results -/

variable [LE α] {topk : Topk batch width α} {wrapper : Wrapper} {expertIds immediate deferred : Ids batch width}
  {expertScores : Fin batch → Fin width → α} {protectedK : Nat}

theorem Partitions.card_immediate (partition_ : Partitions expertIds expertScores protectedK immediate deferred)
    (token : Fin batch) : protectedK ≤ (filled immediate token).card := by
  obtain ⟨slots, chosen, inFilled⟩ := partition_.protects token
  rw [← chosen.card]
  apply Finset.card_le_card
  intro index member
  exact inFilled index (List.mem_toFinset.mp member)

/-- The slots that are not immediate are the deferred ones. -/
theorem Partitions.card_deferred (partition_ : Partitions expertIds expertScores protectedK immediate deferred)
    (token : Fin batch) : (filled deferred token).card ≤ width - protectedK := by
  have apart : Disjoint (filled immediate token) (filled deferred token) := by
    apply Finset.disjoint_left.mpr
    intro index inImmediate inDeferred
    have some_ := (Finset.mem_filter.mp inImmediate).2
    have other := (Finset.mem_filter.mp inDeferred).2
    rcases partition_.split token index with ⟨-, none⟩ | ⟨none, -⟩
    · exact other none
    · exact some_ none
  have counts := Finset.card_le_univ (filled immediate token ∪ filled deferred token)
  rw [Finset.card_union_of_disjoint apart, Fintype.card_fin] at counts
  have least := partition_.card_immediate token
  omega

theorem select_partitions (lawful : ∀ scores k, k ≤ width → ∀ token, IsTopk (scores token) k (topk scores k token))
    (inTable : ∀ token index, 0 ≤ expertIds token index ∧ expertIds token index < wrapper.numExperts)
    (expertScores : Fin batch → Fin width → α) (protectedK : Int) :
    ∃ immediate deferred, selectDeferredExperts wrapper topk expertIds expertScores protectedK = some (immediate, deferred) ∧
      Partitions expertIds expertScores (min protectedK.toNat width) immediate deferred := by
  have clamped : (max 0 (min protectedK width)).toNat = min protectedK.toNat width := by omega
  simp only [selectDeferredExperts, clamped]
  by_cases none : min protectedK.toNat width = 0
  · rw [if_pos none, none]
    refine ⟨_, _, rfl, ⟨fun _ _ => .inr ⟨rfl, rfl⟩, fun _ _ _ _ some_ => absurd rfl some_, fun token => ?_⟩⟩
    refine ⟨[], ⟨rfl, List.nodup_nil, fun _ member => by contradiction⟩, fun _ member => by contradiction⟩
  · have inside : ¬∃ token index, expertIds token index < 0 ∨ (wrapper.numExperts : Int) ≤ expertIds token index := by
      rintro ⟨token, index, outside⟩
      have bounds := inTable token index
      omega
    rw [if_neg none, if_neg inside]
    refine ⟨_, _, rfl, ?_, ?_, ?_⟩
    · intro token index
      by_cases flagged : scatter ((List.finRange batch).flatMap fun token =>
          (topk expertScores (min protectedK.toNat width) token).map (expertIds token)) (expertIds token index) ≠ 0
      · exact .inl ⟨if_pos flagged, if_pos flagged⟩
      · exact .inr ⟨if_neg flagged, if_neg flagged⟩
    · intro token index token' index' some_ other same
      split at some_
      · next flagged =>
          split at other
          · contradiction
          · next notFlagged =>
              rw [if_pos flagged, if_neg notFlagged] at same
              rw [same] at flagged
              exact notFlagged flagged
      · contradiction
    · intro token
      refine ⟨_, lawful expertScores _ (Nat.min_le_right _ _) token, fun index member => ?_⟩
      have flagged : scatter ((List.finRange batch).flatMap fun token =>
          (topk expertScores (min protectedK.toNat width) token).map (expertIds token)) (expertIds token index) ≠ 0 :=
        (scatter_ne_zero_iff _ _).mpr
          (List.mem_flatMap.mpr ⟨token, List.mem_finRange token, List.mem_map_of_mem member⟩)
      apply Finset.mem_filter.mpr
      refine ⟨Finset.mem_univ index, ?_⟩
      have bounds := inTable token index
      simp only [if_pos flagged]
      omega

/-- A deferred result of a call has at most as many ids for a token as the wrapper
defers. -/
theorem card_deferred_le (lawful : ∀ scores k, k ≤ width → ∀ token, IsTopk (scores token) k (topk scores k token))
    (inTable : ∀ token index, 0 ≤ expertIds token index ∧ expertIds token index < wrapper.numExperts)
    (prepared : prepareExpertIds wrapper topk expertIds expertScores = some (immediate, some deferred)) (token : Fin batch) :
    ((filled deferred token).card : Int) ≤ wrapper.maxDeferredExpertsPerToken := by
  rw [prepareExpertIds] at prepared
  split at prepared
  · contradiction
  · split at prepared
    · contradiction
    · next fits =>
        split at prepared
        · next defers =>
            obtain ⟨first, second, selected, partition_⟩ := select_partitions lawful inTable expertScores
              (wrapper.numExpertsPerTok - wrapper.maxDeferredExpertsPerToken)
            rw [selected] at prepared
            cases prepared
            have most := partition_.card_deferred token
            change ((filled second token).card : Int) ≤ _
            omega
        · cases prepared

/-- The choice is a partition, whatever the overlap of the tokens' choices. -/
theorem defers (wrapper : Wrapper) (topk : Topk batch width α) (expertIds : Ids batch width)
    (lawful : ∀ scores k, k ≤ width → ∀ token, IsTopk (scores token) k (topk scores k token))
    (inTable : ∀ token index, 0 ≤ expertIds token index ∧ expertIds token index < wrapper.numExperts)
    (expertScores : Fin batch → Fin width → α) : Defers wrapper topk expertIds expertScores where
  selects := by
    intro protectedK
    obtain ⟨immediate, deferred, selected, partition_⟩ := select_partitions lawful inTable expertScores protectedK
    have clamped : min protectedK.toNat width = (min (max protectedK 0) width).toNat := by omega
    rw [clamped] at partition_
    refine ⟨immediate, deferred, selected, partition_, fun token => ?_⟩
    have least := partition_.card_immediate token
    omega
  bounded := fun _ _ prepared token => card_deferred_le lawful inTable prepared token

/-- Two tokens that share an expert, which only the first protects. -/
theorem defers_shared :
    Defers ⟨3, 2, 1, 4⟩ (fun scores k token => Data.topk (scores token) k) ![![0, 1], ![2, 0]] ![![5, 3], ![7, 6]] :=
  defers ⟨3, 2, 1, 4⟩ _ _ (fun scores _ le token => topk_isTopk (scores token) le) (by decide) _

/-- The shared expert is immediate for both tokens. -/
example : (selectDeferredExperts ⟨3, 2, 1, 4⟩ (fun scores k token => Data.topk (scores token) k) ![![0, 1], ![2, 0]]
    ![![5, 3], ![7, 6]] 1).map (fun selected => (selected.1 1 1, selected.2 0 1)) = some (0, 1) := by
  decide

end Deferred

end KtKernel.Experts
