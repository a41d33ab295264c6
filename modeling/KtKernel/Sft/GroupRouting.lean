import Mathlib.Algebra.Field.Basic
import Mathlib.Algebra.BigOperators.Group.List.Basic
import Mathlib.Logic.Equiv.Fin.Basic
import Mathlib.Tactic.NormNum
import KtKernel.Data.Topk

namespace KtKernel.Sft

open KtKernel.Data

/-! The group-limited routing of `_compute_routing`: the best groups by the sum of their
two best corrected scores, and the best experts within them. -/

namespace GroupRouting

variable {K : Type} [Field K] [LinearOrder K]

/-- The functions of one number that the routing applies. -/
structure Torch (K : Type) where
  sigmoid : K → K
  toBFloat16 : K → K

structure Spec (K : Type) where
  expertNum : Int
  nGroup : Int
  topkGroup : Int
  topK : Int
  normTopkProb : Bool
  routedScalingFactor : K

def positiveInt (name : String) (value : Int) : Except String Int :=
  if value ≤ 0 then .error ("DeepSeek routing metadata " ++ name ++ " must be a positive integer, got " ++ toString value)
  else .ok value

/-- `DeepSeekRoutingSpec.from_modules`, from the values of the metadata. -/
def Spec.fromModules (nGroup topkGroup routedExpertNum topK : Int) (normTopkProb : Bool) (routedScalingFactor : K)
    (expertNum : Int) : Except String (Spec K) := do
  let nGroup ← positiveInt "n_group" nGroup
  let topkGroup ← positiveInt "topk_group" topkGroup
  let routedExpertNum ← positiveInt "n_routed_experts" routedExpertNum
  let topK ← positiveInt "top_k" topK
  if routedScalingFactor ≤ 0 then
    throw "DeepSeek routed_scaling_factor must be finite and positive"
  if routedExpertNum ≠ expertNum then
    throw ("DeepSeek routed expert count does not match the KT architecture: routing=" ++ toString routedExpertNum ++
      ", kt=" ++ toString expertNum)
  if expertNum ≤ 0 ∨ expertNum % nGroup ≠ 0 then
    throw ("DeepSeek expert_num must be positive and divisible by n_group, got expert_num=" ++ toString expertNum ++
      ", n_group=" ++ toString nGroup)
  let expertsPerGroup := expertNum / nGroup
  if expertsPerGroup < 2 then
    throw "DeepSeek group-top2 routing requires at least two experts per group"
  if topkGroup > nGroup then
    throw ("DeepSeek topk_group=" ++ toString topkGroup ++ " exceeds n_group=" ++ toString nGroup)
  if topK > topkGroup * expertsPerGroup then
    throw ("DeepSeek top_k=" ++ toString topK ++ " exceeds the " ++ toString (topkGroup * expertsPerGroup) ++
      " experts available in selected groups")
  return ⟨expertNum, nGroup, topkGroup, topK, normTopkProb, routedScalingFactor⟩

inductive RouterType where
  | deepseekGate
  | glm4MoeGate
deriving DecidableEq, Repr

/-- A router whose selected groups hold `top_k` experts.  The experts are the places of
`nGroup` rows of `groupSize` each. -/
structure Router (K : Type) [Field K] [LinearOrder K] where
  routerType : RouterType
  nGroup : Nat
  groupSize : Nat
  topkGroup : Nat
  topK : Nat
  normTopkProb : Bool
  routedScalingFactor : K
  correctionBias : Option (Fin (nGroup * groupSize) → K)
  accepted : routerType = .deepseekGate → ∃ spec, Spec.fromModules (nGroup : Int) (topkGroup : Int)
    ((nGroup * groupSize : Nat) : Int) (topK : Int) normTopkProb routedScalingFactor ((nGroup * groupSize : Nat) : Int) = .ok spec
  holds : topK ≤ topkGroup * groupSize

/-- What the calls of `torch.topk` return for a token. -/
structure Choices (nGroup groupSize : Nat) where
  pairs : Fin nGroup → List (Fin groupSize)
  groups : List (Fin nGroup)
  topkIds : List (Fin (nGroup * groupSize))

namespace Router

variable (torch : Torch K) (router : Router K)

abbrev Expert (router : Router K) := Fin (router.nGroup * router.groupSize)

def routerProbs (logits : router.Expert → K) (expert : router.Expert) : K :=
  torch.sigmoid (logits expert)

def scoresForChoice (logits : router.Expert → K) (expert : router.Expert) : K :=
  match router.correctionBias with
  | none => router.routerProbs torch logits expert
  | some bias => router.routerProbs torch logits expert + bias expert

/-- The scores of a group, a row of the view. -/
def inGroup (scores : router.Expert → K) (group : Fin router.nGroup) (index : Fin router.groupSize) : K :=
  scores (finProdFinEquiv (group, index))

def groupScores (scores : router.Expert → K) (pairs : Fin router.nGroup → List (Fin router.groupSize))
    (group : Fin router.nGroup) : K :=
  ((pairs group).map (router.inGroup scores group)).sum

def masked (scores : router.Expert → K) (groups : List (Fin router.nGroup)) (expert : router.Expert) : K :=
  if expert.divNat ∈ groups then scores expert else 0

def topkWeights (logits : router.Expert → K) (topkIds : List router.Expert) : List K :=
  let gathered := topkIds.map (router.routerProbs torch logits)
  let normed := if router.normTopkProb then gathered.map (· / (gathered.sum + 1 / 10 ^ 20)) else gathered
  (normed.map (· * router.routedScalingFactor)).map torch.toBFloat16

/-- The calls that raise: a DeepSeek gate without its bias, no group to divide by, and more
indices than values. -/
def Raises : Prop :=
  (router.routerType = .deepseekGate ∧ router.correctionBias = none) ∨ router.nGroup = 0 ∨ router.groupSize < 2 ∨
    router.topkGroup > router.nGroup ∨ router.topK > router.nGroup * router.groupSize

instance : Decidable router.Raises :=
  inferInstanceAs (Decidable (_ ∨ _ ∨ _ ∨ _ ∨ _))

def computeRouting (logits : router.Expert → K) (choices : Choices router.nGroup router.groupSize) :
    Option (List router.Expert × List K) :=
  if router.Raises then none else some (choices.topkIds, router.topkWeights torch logits choices.topkIds)

/-- The groups that the sums of the two best scores select. -/
def Selects (scores : router.Expert → K) (pairs : Fin router.nGroup → List (Fin router.groupSize))
    (groups : List (Fin router.nGroup)) : Prop :=
  (∀ group, IsTopk (router.inGroup scores group) 2 (pairs group)) ∧
    IsTopk (router.groupScores scores pairs) router.topkGroup groups

/-- The calls of `torch.topk` return distinct indices of largest values. -/
structure Possible (logits : router.Expert → K) (choices : Choices router.nGroup router.groupSize) : Prop where
  selects : router.Selects (router.scoresForChoice torch logits) choices.pairs choices.groups
  topkIds : IsTopk (router.masked (router.scoresForChoice torch logits) choices.groups) router.topK choices.topkIds

/-- The ids are largest scores within the groups, and the weights are theirs. -/
structure Respects (logits : router.Expert → K) (groups : List (Fin router.nGroup)) (topkIds : List router.Expert)
    (topkWeights : List K) : Prop where
  selected : ∃ pairs, router.Selects (router.scoresForChoice torch logits) pairs groups
  count : topkIds.length = router.topK
  distinct : topkIds.Nodup
  inGroups : ∀ expert ∈ topkIds, expert.divNat ∈ groups
  largest : ∀ expert ∈ topkIds, ∀ other : router.Expert, other.divNat ∈ groups → other ∉ topkIds →
    router.scoresForChoice torch logits other ≤ router.scoresForChoice torch logits expert
  weights : topkWeights = topkIds.map fun expert =>
    let total := (topkIds.map (router.routerProbs torch logits)).sum
    let prob := router.routerProbs torch logits expert
    torch.toBFloat16
      ((if router.normTopkProb then prob / (total + 1 / 10 ^ 20) else prob) * router.routedScalingFactor)

/-- Every way to choose groups and experts respects the groups, or the call raises. -/
def RespectsGroups (logits : router.Expert → K) : Prop :=
  ∀ choices, router.Possible torch logits choices → ∀ topkIds topkWeights,
    router.computeRouting torch logits choices = some (topkIds, topkWeights) →
      router.Respects torch logits choices.groups topkIds topkWeights

/-- No group is left out, or the selected groups have `top_k` experts with a positive
score. -/
def EnoughPositive (logits : router.Expert → K) : Prop :=
  router.Raises ∨ router.topkGroup = router.nGroup ∨ router.topK = 0 ∨
    ∀ pairs groups, router.Selects (router.scoresForChoice torch logits) pairs groups →
      router.topK ≤ (Finset.univ.filter fun expert : router.Expert =>
        expert.divNat ∈ groups ∧ 0 < router.scoresForChoice torch logits expert).card

variable {torch router} {logits : router.Expert → K} {choices : Choices router.nGroup router.groupSize}

theorem masked_pos_iff {scores : router.Expert → K} {groups : List (Fin router.nGroup)} {expert : router.Expert} :
    0 < router.masked scores groups expert ↔ expert.divNat ∈ groups ∧ 0 < scores expert := by
  rw [masked]
  split
  · next inside => simp only [inside, true_and]
  · next outside => simp only [outside, false_and, lt_irrefl]

theorem inGroups_of_enough (enough : router.EnoughPositive torch logits) (returns : ¬router.Raises)
    (possible : router.Possible torch logits choices) {expert : router.Expert} (member : expert ∈ choices.topkIds) :
    expert.divNat ∈ choices.groups := by
  rcases enough with raises | all | none | many
  · contradiction
  · have every := possible.selects.2.card
    rw [all] at every
    have whole : choices.groups.toFinset = Finset.univ := (Finset.card_eq_iff_eq_univ _).mp (by rw [every, Fintype.card_fin])
    rw [← List.mem_toFinset, whole]
    exact Finset.mem_univ _
  · have empty := possible.topkIds.length
    rw [none] at empty
    rw [List.length_eq_zero_iff.mp empty] at member
    contradiction
  · have least := many _ _ possible.selects
    simp only [← masked_pos_iff] at least
    exact (masked_pos_iff.mp (possible.topkIds.above least member)).1

theorem respects_of_enough (enough : router.EnoughPositive torch logits) : router.RespectsGroups torch logits := by
  intro choices possible topkIds topkWeights routed
  rw [computeRouting] at routed
  split at routed
  · contradiction
  · next returns =>
      cases routed
      have inGroups : ∀ expert ∈ choices.topkIds, expert.divNat ∈ choices.groups :=
        fun expert member => inGroups_of_enough enough returns possible member
      refine ⟨⟨_, possible.selects⟩, possible.topkIds.length, possible.topkIds.distinct, inGroups, ?_, ?_⟩
      · intro expert member other inside outside
        have le := possible.topkIds.largest expert member other outside
        rwa [masked, if_pos inside, masked, if_pos (inGroups expert member)] at le
      · rw [Router.topkWeights]
        cases router.normTopkProb with
        | true => simp only [if_true, List.map_map]; rfl
        | false => simp only [Bool.false_eq_true, if_false, List.map_map]; rfl

/-! ## An expert of another group -/

theorem enough_of_respects (respects : router.RespectsGroups torch logits) : router.EnoughPositive torch logits := by
  by_contra few
  simp only [EnoughPositive, not_or, not_forall, not_le] at few
  obtain ⟨returns, notAll, some_, pairs, groups, selects, few⟩ := few
  have sizes := returns
  simp only [Raises, not_or] at sizes
  obtain ⟨-, someGroup, someSize, fits, fitsAll⟩ := sizes
  -- a group that is not selected
  have left : ∃ group, group ∉ groups := by
    by_contra all
    have whole : groups.toFinset = Finset.univ := by
      apply Finset.eq_univ_of_forall
      intro group
      by_contra absent
      exact all ⟨group, fun member => absent (List.mem_toFinset.mpr member)⟩
    have count := selects.2.card
    rw [whole, Finset.card_univ, Fintype.card_fin] at count
    exact notAll count.symm
  obtain ⟨group, absent⟩ := left
  have first : 0 < router.groupSize := by omega
  have inOther : (finProdFinEquiv (group, ⟨0, first⟩) : router.Expert).divNat = group :=
    congrArg Prod.fst (finProdFinEquiv.symm_apply_apply (group, (⟨0, first⟩ : Fin router.groupSize)))
  have zero : router.masked (router.scoresForChoice torch logits) groups (finProdFinEquiv (group, ⟨0, first⟩)) = 0 := by
    rw [masked, inOther, if_neg absent]
  have above : (Finset.univ.filter fun other : router.Expert =>
      router.masked (router.scoresForChoice torch logits) groups (finProdFinEquiv (group, ⟨0, first⟩)) <
        router.masked (router.scoresForChoice torch logits) groups other).card < router.topK := by
    simp only [zero, masked_pos_iff]
    exact few
  obtain ⟨topkIds, chosen, member⟩ := exists_topk_mem _ (not_lt.mp fitsAll) above
  have respected := respects ⟨pairs, groups, topkIds⟩ ⟨selects, chosen⟩ topkIds _ (if_neg returns)
  apply absent
  rw [← inOther]
  exact respected.inGroups _ member

/-- The routing respects the groups exactly where zero is no score to win by. -/
theorem respects_iff (torch : Torch K) (router : Router K) (logits : router.Expert → K) :
    router.RespectsGroups torch logits ↔ router.EnoughPositive torch logits :=
  ⟨enough_of_respects, respects_of_enough⟩

end Router

/-- Two groups of two experts whose bias makes every score negative. -/
def negative : Router ℚ where
  routerType := .deepseekGate
  nGroup := 2
  groupSize := 2
  topkGroup := 1
  topK := 1
  normTopkProb := true
  routedScalingFactor := 1
  correctionBias := some fun _ => -10
  accepted := fun _ => ⟨_, rfl⟩
  holds := by decide

/-- A sigmoid that is one half everywhere, as at logits of zero. -/
def halves : Torch ℚ :=
  ⟨fun _ => 1 / 2, id⟩

theorem negative_misrouted : ¬negative.RespectsGroups halves fun _ => 0 := by
  intro respects
  have scores : ∀ expert, negative.scoresForChoice halves (fun _ => 0) expert = -19 / 2 := by
    intro expert
    change (1 / 2 : ℚ) + -10 = -19 / 2
    norm_num
  rcases Router.enough_of_respects respects with raises | all | none | many
  · exact absurd raises (by decide)
  · exact absurd all (by decide)
  · exact absurd none (by decide)
  · have least := many (fun group => topk (negative.inGroup (negative.scoresForChoice halves fun _ => 0) group) 2) _
      ⟨fun group => topk_isTopk _ (by decide), topk_isTopk _ (by decide)⟩
    have empty : (Finset.univ.filter fun expert : negative.Expert => expert.divNat ∈
        topk (negative.groupScores (negative.scoresForChoice halves fun _ => 0)
          fun group => topk (negative.inGroup (negative.scoresForChoice halves fun _ => 0) group) 2) negative.topkGroup ∧
          0 < negative.scoresForChoice halves (fun _ => 0) expert).card = 0 := by
      apply Finset.card_eq_zero.mpr
      apply Finset.filter_eq_empty_iff.mpr
      intro expert _ inside
      rw [scores] at inside
      exact absurd inside.2 (by norm_num)
    rw [empty] at least
    exact absurd least (by decide)

end GroupRouting

end KtKernel.Sft
