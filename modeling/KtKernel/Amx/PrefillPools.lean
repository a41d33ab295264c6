import Mathlib.Algebra.BigOperators.Group.Finset.Piecewise
import Mathlib.Algebra.Order.BigOperators.Group.Finset
import Mathlib.Algebra.BigOperators.Ring.Finset
import Mathlib.Data.List.Range
import Mathlib.Tactic.Ring
import KtKernel.Amx.Routing

namespace KtKernel.Amx

variable {config : Instance} {k : Nat} {expertIds : Nat → Int}

/-! ## Sizes -/

theorem requiredSize_eq (config : Instance) (maxM : Nat) (pool : Pool) :
    config.requiredSize maxM pool = maxM * config.requiredSize 1 pool := by
  cases pool <;> simp only [Instance.requiredSize, BufferA.requiredSize, BufferC.requiredSize]
  case gateUpBa => cases config.bufferA <;> ring
  case downBa => cases config.bufferA <;> ring
  all_goals cases config.bufferC <;> ring

theorem le_align64 (bytes : Nat) : bytes ≤ align64 bytes := by
  unfold align64
  omega

theorem align64_le (bytes : Nat) : align64 bytes ≤ bytes + 63 := by
  unfold align64
  omega

theorem le_paddedRows (config : Instance) (rows : Nat) : rows ≤ config.paddedRows rows := by
  have positive := config.mStepPositive
  have split := Nat.div_add_mod' (rows + config.mStep - 1) config.mStep
  have small := Nat.mod_lt (rows + config.mStep - 1) positive
  unfold Instance.paddedRows
  omega

theorem paddedRows_le (config : Instance) (rows : Nat) : config.paddedRows rows ≤ rows + config.mStep := by
  have split := Nat.div_add_mod' (rows + config.mStep - 1) config.mStep
  unfold Instance.paddedRows
  omega

theorem paddedRows_one (config : Instance) : config.paddedRows 1 = config.mStep := by
  have positive := config.mStepPositive
  rw [Instance.paddedRows, Nat.add_sub_cancel_left, Nat.div_self positive, Nat.one_mul]

/-- Aligning a region costs less than the allowance for its rows. -/
theorem region_le (pool : Pool) (filled : 0 < maxM) :
    align64 (config.requiredSize maxM pool) ≤ maxM * (config.requiredSize 1 pool + 64) := by
  have aligned := align64_le (config.requiredSize maxM pool)
  rw [requiredSize_eq] at aligned ⊢
  rw [Nat.mul_add]
  omega

theorem poolBytes_eq (config : Instance) (pool : Pool) :
    config.poolBytes pool = config.poolCount * (config.requiredSize 1 pool + 64) := by
  rw [Instance.poolBytes, requiredSize_eq, Nat.mul_add]

theorem bytes_le_of_rows_le (pool : Pool) (bytes : used ≤ rows * (config.requiredSize 1 pool + 64))
    (fits : rows ≤ config.poolCount) : used ≤ config.poolBytes pool := by
  rw [poolBytes_eq]
  exact bytes.trans (Nat.mul_le_mul_right _ fits)

theorem sum_range_apart (sizes : Nat → Nat) (before : left < right) :
    ∑ index ∈ Finset.range left, sizes index + sizes left ≤ ∑ index ∈ Finset.range right, sizes index := by
  rw [← Finset.sum_range_succ]
  exact Finset.sum_le_sum_of_subset (Finset.range_mono before)

/-- Pieces cut one after another do not meet, even when each keeps only a part
of its room. -/
theorem apart_of_sums {sizes lengths : Nat → Nat} (within : ∀ index, lengths index ≤ sizes index)
    (different : left ≠ right) :
    Apart (∑ index ∈ Finset.range left, sizes index) (lengths left)
      (∑ index ∈ Finset.range right, sizes index) (lengths right) := by
  have leftWithin := within left
  have rightWithin := within right
  rcases Nat.lt_or_gt_of_ne different with before | after
  · have order := sum_range_apart sizes before
    exact .inl (by omega)
  · have order := sum_range_apart sizes after
    exact .inr (by omega)

/-! ## Counting the slots -/

def slotExpert (k : Nat) (expertIds : Nat → Int) (slot : Nat × Nat) : Nat :=
  (expertIds (slot.1 * k + slot.2)).toNat

theorem Live.bound (live : Live config k expertIds slot) : slotExpert k expertIds slot < config.expertNum := by
  simp only [Live, Instance.shouldSkipExpert, Bool.or_eq_false_iff, decide_eq_false_iff_not] at live
  unfold slotExpert
  omega

structure Counted (config : Instance) (k : Nat) (expertIds : Nat → Int) (passed : List (Nat × Nat))
    (tables : Tables) : Prop where
  below : ∀ slot ∈ passed, Live config k expertIds slot →
    tables.localPos slot < tables.localNum (slotExpert k expertIds slot)
  separate : ∀ slot ∈ passed, ∀ other ∈ passed, Live config k expertIds slot →
    Live config k expertIds other → slotExpert k expertIds slot = slotExpert k expertIds other →
    slot ≠ other → tables.localPos slot ≠ tables.localPos other
  total : ∑ expert ∈ Finset.range config.expertNum, tables.localNum expert ≤ passed.length
  bounded : ∀ expert, 0 < tables.localNum expert → expert < config.expertNum

theorem sum_increment (counts : Nat → Nat) (inside : expert < total) :
    ∑ index ∈ Finset.range total, Function.update counts expert (counts expert + 1) index =
      ∑ index ∈ Finset.range total, counts index + 1 := by
  have member : expert ∈ Finset.range total := Finset.mem_range.mpr inside
  rw [Finset.sum_update_of_mem member, ← Finset.add_sum_erase _ counts member,
    Finset.sdiff_singleton_eq_erase]
  omega

theorem Counted.step {tables : Tables} (counted : Counted config k expertIds passed tables)
    (fresh : slot ∉ passed) :
    Counted config k expertIds (passed ++ [slot]) (countSlot config k expertIds tables slot) := by
  by_cases live : Live config k expertIds slot
  · have inside := live.bound
    have shape : countSlot config k expertIds tables slot =
        { tables with
          localPos := Function.update tables.localPos slot
            (tables.localNum (slotExpert k expertIds slot))
          localNum := Function.update tables.localNum (slotExpert k expertIds slot)
            (tables.localNum (slotExpert k expertIds slot) + 1) } := by
      simp only [Live] at live
      simp only [countSlot, live, Bool.false_eq_true, if_false, slotExpert]
    rw [shape]
    have grown (expert : Nat) : tables.localNum expert ≤
        Function.update tables.localNum (slotExpert k expertIds slot)
          (tables.localNum (slotExpert k expertIds slot) + 1) expert := by
      by_cases same : expert = slotExpert k expertIds slot
      · rw [same, Function.update_self]
        exact Nat.le_succ _
      · rw [Function.update_of_ne same]
    have kept {other : Nat × Nat} (member : other ∈ passed) :
        Function.update tables.localPos slot (tables.localNum (slotExpert k expertIds slot)) other =
          tables.localPos other := by
      apply Function.update_of_ne
      intro same
      exact fresh (same ▸ member)
    constructor
    · intro other member otherLive
      rcases List.mem_append.mp member with inPassed | isLast
      · dsimp only
        rw [kept inPassed]
        exact (counted.below other inPassed otherLive).trans_le (grown _)
      · rw [List.mem_singleton.mp isLast]
        simp only [Function.update_self]
        exact Nat.lt_succ_self _
    · intro first firstMember second secondMember firstLive secondLive sameExpert different
      dsimp only
      rcases List.mem_append.mp firstMember with firstPassed | firstLast
      · rw [kept firstPassed]
        rcases List.mem_append.mp secondMember with secondPassed | secondLast
        · rw [kept secondPassed]
          exact counted.separate _ firstPassed _ secondPassed firstLive secondLive sameExpert different
        · rw [List.mem_singleton.mp secondLast] at sameExpert ⊢
          rw [Function.update_self, ← sameExpert]
          exact (counted.below first firstPassed firstLive).ne
      · rw [List.mem_singleton.mp firstLast] at sameExpert different ⊢
        rw [Function.update_self]
        rcases List.mem_append.mp secondMember with secondPassed | secondLast
        · rw [kept secondPassed, sameExpert]
          exact (counted.below second secondPassed secondLive).ne'
        · exact absurd (List.mem_singleton.mp secondLast).symm different
    · dsimp only
      rw [sum_increment _ inside, List.length_append, List.length_singleton]
      exact Nat.add_le_add_right counted.total 1
    · intro expert counts
      by_cases same : expert = slotExpert k expertIds slot
      · rw [same]
        exact inside
      · dsimp only at counts
        rw [Function.update_of_ne same] at counts
        exact counted.bounded expert counts
  · have shape : countSlot config k expertIds tables slot = tables := by
      simp only [Live, Bool.not_eq_false] at live
      simp only [countSlot, live, if_true]
    rw [shape]
    have earlier {other : Nat × Nat} (member : other ∈ passed ++ [slot])
        (otherLive : Live config k expertIds other) : other ∈ passed := by
      rcases List.mem_append.mp member with inPassed | isLast
      · exact inPassed
      · rw [List.mem_singleton.mp isLast] at otherLive
        exact absurd otherLive live
    constructor
    · intro other member otherLive
      exact counted.below other (earlier member otherLive) otherLive
    · intro first firstMember second secondMember firstLive secondLive
      exact counted.separate _ (earlier firstMember firstLive) _ (earlier secondMember secondLive)
        firstLive secondLive
    · rw [List.length_append]
      exact counted.total.trans (Nat.le_add_right _ _)
    · exact counted.bounded

theorem Counted.congr {tables other : Tables} (counted : Counted config k expertIds passed tables)
    (positions : other.localPos = tables.localPos) (counts : other.localNum = tables.localNum) :
    Counted config k expertIds passed other := by
  constructor
  · rw [positions, counts]
    exact counted.below
  · rw [positions]
    exact counted.separate
  · rw [counts]
    exact counted.total
  · rw [counts]
    exact counted.bounded

theorem counted_foldl {tables : Tables} (distinct : passed.Nodup)
    (none : ∀ expert, tables.localNum expert = 0) :
    Counted config k expertIds passed (passed.foldl (countSlot config k expertIds) tables) := by
  induction passed using List.reverseRecOn with
  | nil =>
      refine ⟨nofun, nofun, ?_, ?_⟩
      · simp [none]
      · intro expert counts
        rw [List.foldl_nil, none] at counts
        contradiction
  | append_singleton earlier slot induction =>
      rw [List.foldl_append]
      have parts := List.nodup_append.mp distinct
      apply (induction parts.1).step
      intro member
      exact parts.2.2 slot member slot (List.mem_singleton_self slot) rfl

theorem slots_nodup (qlen k : Nat) : (slots qlen k).Nodup :=
  List.Nodup.product List.nodup_range List.nodup_range

theorem slots_length (qlen k : Nat) : (slots qlen k).length = qlen * k := by
  exact (List.length_product _ _).trans (by rw [List.length_range, List.length_range])

/-! ## Prefill -/

/-- The bytes that an expert takes from a pool. -/
def regionBytes (config : Instance) (pool : Pool) (rows : Nat) : Nat :=
  if rows = 0 then 0 else align64 (config.requiredSize (config.paddedRows rows) pool)

structure Carved (config : Instance) (counts : Nat → Nat) (passed : Nat) (tables : Tables) : Prop where
  counts_eq : tables.localNum = counts
  offset : tables.offset = ∑ expert ∈ Finset.range passed, counts expert
  inputRow : ∀ expert < passed, tables.inputRow expert = ∑ earlier ∈ Finset.range expert, counts earlier
  outputRow : ∀ expert < passed, tables.outputRow expert = ∑ earlier ∈ Finset.range expert, counts earlier
  maxM : ∀ expert < passed, counts expert ≠ 0 → tables.maxM expert = config.paddedRows (counts expert)
  data : ∀ expert < passed, counts expert ≠ 0 → ∀ pool, tables.data pool expert =
    ∑ earlier ∈ Finset.range expert, regionBytes config pool (counts earlier)
  usedM : tables.usedM = ∑ expert ∈ Finset.range passed,
    if counts expert = 0 then 0 else config.paddedRows (counts expert)
  usedBytes : ∀ pool, tables.usedBytes pool =
    ∑ expert ∈ Finset.range passed, regionBytes config pool (counts expert)

theorem update_passed {value : Nat} {entries : Nat → Nat} (start : Nat → Nat)
    (earlier : ∀ expert < passed, entries expert = start expert) (last : value = start passed) :
    ∀ expert < passed + 1, Function.update entries passed value expert = start expert := by
  intro expert inside
  by_cases same : expert = passed
  · rw [same, Function.update_self, last]
  · rw [Function.update_of_ne same]
    exact earlier expert (by omega)

theorem Carved.step {tables : Tables} (carved : Carved config counts passed tables) :
    Carved config counts (passed + 1) (carveExpert config tables passed) := by
  have rows := congrFun carved.counts_eq passed
  have inputRow := update_passed _ carved.inputRow carved.offset
  have outputRow := update_passed _ carved.outputRow carved.offset
  have offset : tables.offset + counts passed = ∑ expert ∈ Finset.range (passed + 1), counts expert := by
    rw [Finset.sum_range_succ, carved.offset]
  simp only [carveExpert, rows]
  by_cases empty : counts passed = 0
  · have before {expert : Nat} (inside : expert < passed + 1) (filled : counts expert ≠ 0) :
        expert < passed := by
      have different : expert ≠ passed := fun same => filled (same ▸ empty)
      omega
    rw [if_pos empty]
    refine ⟨carved.counts_eq, offset, inputRow, outputRow, ?_, ?_, ?_, ?_⟩
    · intro expert inside filled
      exact carved.maxM expert (before inside filled) filled
    · intro expert inside filled pool
      exact carved.data expert (before inside filled) filled pool
    · rw [Finset.sum_range_succ, if_pos empty, ← carved.usedM]
      rfl
    · intro pool
      rw [Finset.sum_range_succ, regionBytes, if_pos empty, ← carved.usedBytes]
      rfl
  · rw [if_neg empty]
    refine ⟨carved.counts_eq, offset, inputRow, outputRow, ?_, ?_, ?_, ?_⟩
    · intro expert inside filled
      simp only [carvePools]
      by_cases same : expert = passed
      · rw [same, Function.update_self]
      · rw [Function.update_of_ne same]
        exact carved.maxM expert (by omega) filled
    · intro expert inside filled pool
      simp only [carvePools]
      by_cases same : expert = passed
      · rw [same, Function.update_self, carved.usedBytes]
      · rw [Function.update_of_ne same]
        exact carved.data expert (by omega) filled pool
    · rw [Finset.sum_range_succ, if_neg empty, ← carved.usedM]
      rfl
    · intro pool
      rw [Finset.sum_range_succ, regionBytes, if_neg empty, ← carved.usedBytes]
      rfl

theorem carved_foldl (tables : Tables) (offset : tables.offset = 0) (usedM : tables.usedM = 0)
    (usedBytes : ∀ pool, tables.usedBytes pool = 0) (passed : Nat) :
    Carved config tables.localNum passed ((List.range passed).foldl (carveExpert config) tables) := by
  induction passed with
  | zero => exact ⟨rfl, offset, nofun, nofun, nofun, nofun, usedM, usedBytes⟩
  | succ passed induction =>
      rw [List.range_succ, List.foldl_append]
      exact induction.step

theorem foldl_keeps (step : Tables → α → Tables) (field : Tables → β)
    (keeps : ∀ tables item, field (step tables item) = field tables) (items : List α) (tables : Tables) :
    field (items.foldl step tables) = field tables := by
  induction items generalizing tables with
  | nil => rfl
  | cons item rest induction => rw [List.foldl_cons, induction, keeps]

theorem countSlot_keeps (field : Tables → β)
    (keeps : ∀ tables localPos localNum, field { tables with localPos, localNum } = field tables)
    (tables : Tables) (slot : Nat × Nat) :
    field (countSlot config k expertIds tables slot) = field tables := by
  simp only [countSlot]
  split
  · rfl
  · exact keeps _ _ _

theorem carveExpert_keeps (field : Tables → β)
    (rows : ∀ tables inputRow outputRow offset,
      field { tables with inputRow, outputRow, offset } = field tables)
    (pools : ∀ tables maxM data usedM usedBytes,
      field { tables with maxM, data, usedM, usedBytes } = field tables)
    (tables : Tables) (expert : Nat) : field (carveExpert config tables expert) = field tables := by
  simp only [carveExpert]
  split
  · exact rows _ _ _ _
  · exact (pools _ _ _ _ _).trans (rows _ _ _ _)

theorem prefill_counted (config : Instance) (k : Nat) (expertIds : Nat → Int) (qlen : Nat) (before : Tables) :
    Counted config k expertIds (slots qlen k) (prefillTables config qlen k expertIds before) ∧
      Carved config (prefillTables config qlen k expertIds before).localNum config.expertNum
        (prefillTables config qlen k expertIds before) := by
  have counted : Counted config k expertIds (slots qlen k)
      ((slots qlen k).foldl (countSlot config k expertIds) before.cleared) :=
    counted_foldl (slots_nodup qlen k) fun _ => rfl
  have offset : ((slots qlen k).foldl (countSlot config k expertIds) before.cleared).offset = 0 :=
    foldl_keeps _ Tables.offset (countSlot_keeps _ fun _ _ _ => rfl) _ _
  have usedM : ((slots qlen k).foldl (countSlot config k expertIds) before.cleared).usedM = 0 :=
    foldl_keeps _ Tables.usedM (countSlot_keeps _ fun _ _ _ => rfl) _ _
  have usedBytes : ((slots qlen k).foldl (countSlot config k expertIds) before.cleared).usedBytes =
      fun _ => 0 :=
    foldl_keeps _ Tables.usedBytes (countSlot_keeps _ fun _ _ _ => rfl) _ _
  simp only [prefillTables]
  generalize (slots qlen k).foldl (countSlot config k expertIds) before.cleared = tables at *
  have carved : Carved config tables.localNum config.expertNum
      ((List.range config.expertNum).foldl (carveExpert config) (mapExperts config tables)) :=
    carved_foldl (mapExperts config tables) offset usedM (fun pool => congrFun usedBytes pool) config.expertNum
  have positions : ((List.range config.expertNum).foldl (carveExpert config)
      (mapExperts config tables)).localPos = tables.localPos :=
    foldl_keeps _ Tables.localPos
      (carveExpert_keeps _ (fun _ _ _ _ => rfl) fun _ _ _ _ _ => rfl) _ _
  generalize (List.range config.expertNum).foldl (carveExpert config) (mapExperts config tables) =
    final at *
  refine ⟨counted.congr positions carved.counts_eq, ?_⟩
  rw [carved.counts_eq]
  exact carved

/-- The activated experts of a prefill are those with rows. -/
theorem prefill_expertIdMap (config : Instance) (k : Nat) (expertIds : Nat → Int) (qlen : Nat)
    (before : Tables) :
    (prefillTables config qlen k expertIds before).expertIdMap =
      (List.range config.expertNum).filter fun expert =>
        decide (0 < (prefillTables config qlen k expertIds before).localNum expert) := by
  have counts : (prefillTables config qlen k expertIds before).localNum =
      ((slots qlen k).foldl (countSlot config k expertIds) before.cleared).localNum :=
    foldl_keeps _ Tables.localNum
      (carveExpert_keeps _ (fun _ _ _ _ => rfl) fun _ _ _ _ _ => rfl) _ _
  rw [counts]
  exact foldl_keeps _ Tables.expertIdMap
    (carveExpert_keeps _ (fun _ _ _ _ => rfl) fun _ _ _ _ _ => rfl) _ _

section

variable {before tables : Tables}

/-- Every assert and every region is safe when the carving has followed the
counts and the counts fit the routing. -/
theorem Carved.fits (carved : Carved config counts config.expertNum tables)
    (total : ∑ expert ∈ Finset.range config.expertNum, counts expert ≤
      config.maxLen * config.numExpertsPerTok) : Fits config tables := by
  have rows : ∑ expert ∈ Finset.range config.expertNum,
      (if counts expert = 0 then 0 else config.paddedRows (counts expert)) ≤ config.poolCount := by
    calc _ ≤ ∑ expert ∈ Finset.range config.expertNum, (counts expert + config.mStep) := by
          apply Finset.sum_le_sum
          intro expert _
          split
          · exact Nat.zero_le _
          · exact paddedRows_le config _
      _ = ∑ expert ∈ Finset.range config.expertNum, counts expert + config.expertNum * config.mStep := by
          rw [Finset.sum_add_distrib, Finset.sum_const_nat fun _ _ => rfl, Finset.card_range]
      _ ≤ config.poolCount := Nat.add_le_add_right total _
  refine ⟨carved.usedM ▸ rows, ?_⟩
  intro pool
  rw [carved.usedBytes]
  refine bytes_le_of_rows_le pool ?_ rows
  rw [Finset.sum_mul]
  apply Finset.sum_le_sum
  intro expert _
  rw [regionBytes]
  split
  · exact Nat.zero_le _
  · have padded := le_paddedRows config (counts expert)
    exact region_le pool (by omega)

theorem Carved.regionsSafe (carved : Carved config counts config.expertNum tables)
    (bounded : ∀ expert, 0 < counts expert → expert < config.expertNum) (fits : Fits config tables) :
    RegionsSafe config tables := by
  rw [RegionsSafe, carved.counts_eq]
  have within (pool : Pool) (expert : Nat) : (if counts expert = 0 then 0 else
      config.requiredSize (config.paddedRows (counts expert)) pool) ≤
        regionBytes config pool (counts expert) := by
    rw [regionBytes]
    split
    · exact Nat.le_refl _
    · exact le_align64 _
  constructor
  · intro expert pool counted
    have filled : counts expert ≠ 0 := by omega
    have inside := bounded expert counted
    rw [carved.maxM expert inside filled, carved.data expert inside filled]
    refine ⟨le_paddedRows config _, ?_⟩
    have used := fits.2 pool
    rw [carved.usedBytes] at used
    have piece := sum_range_apart (fun expert => regionBytes config pool (counts expert)) inside
    have small := within pool expert
    rw [if_neg filled] at small
    omega
  · intro expert other pool expertCounted otherCounted different
    have expertFilled : counts expert ≠ 0 := by omega
    have otherFilled : counts other ≠ 0 := by omega
    have expertInside := bounded expert expertCounted
    have otherInside := bounded other otherCounted
    rw [carved.maxM expert expertInside expertFilled, carved.data expert expertInside expertFilled,
      carved.maxM other otherInside otherFilled, carved.data other otherInside otherFilled]
    have apart := apart_of_sums (within pool) different
    rw [if_neg expertFilled, if_neg otherFilled] at apart
    exact apart

theorem rowsSafe_of_counted {rows : Nat → Nat} (counted : Counted config k expertIds (slots qlen k) tables)
    (cut : ∀ expert < config.expertNum, rows expert =
      ∑ earlier ∈ Finset.range expert, tables.localNum earlier)
    (total : ∑ expert ∈ Finset.range config.expertNum, tables.localNum expert ≤ config.localRows) :
    RowsSafe config qlen k expertIds rows tables := by
  have apart {expert other : Nat} (expertInside : expert < config.expertNum)
      (otherInside : other < config.expertNum) (different : expert ≠ other) :
      Apart (rows expert) (tables.localNum expert) (rows other) (tables.localNum other) := by
    rw [cut expert expertInside, cut other otherInside]
    exact apart_of_sums (fun _ => Nat.le_refl _) different
  refine ⟨?_, ?_, counted.below, ?_⟩
  · intro expert active
    have inside := counted.bounded expert active
    have piece := sum_range_apart tables.localNum inside
    rw [cut expert inside]
    omega
  · intro expert other expertActive otherActive different
    exact apart (counted.bounded _ expertActive) (counted.bounded _ otherActive) different
  · intro slot member other otherMember live otherLive different same
    have below := counted.below slot member live
    have otherBelow := counted.below other otherMember otherLive
    simp only [slotRow] at same
    by_cases sameExpert : slotExpert k expertIds slot = slotExpert k expertIds other
    · have separate := counted.separate _ member _ otherMember live otherLive sameExpert different
      simp only [slotExpert] at sameExpert
      rw [sameExpert] at same
      omega
    · have separate := apart live.bound otherLive.bound sameExpert
      simp only [slotExpert] at below otherBelow separate
      unfold Apart at separate
      omega

/-- What a prefill has to carve. -/
def PrefillSafe (config : Instance) (qlen k : Nat) (expertIds : Nat → Int) (tables : Tables) : Prop :=
  Fits config tables ∧ RegionsSafe config tables ∧
    RowsSafe config qlen k expertIds tables.inputRow tables ∧
    RowsSafe config qlen k expertIds tables.outputRow tables

theorem prefill_safe (within : qlen ≤ config.maxLen) (fewer : k ≤ config.numExpertsPerTok) :
    PrefillSafe config qlen k expertIds (prefillTables config qlen k expertIds before) := by
  obtain ⟨counted, carved⟩ := prefill_counted config k expertIds qlen before
  have total := counted.total
  rw [slots_length] at total
  have room : qlen * k ≤ config.maxLen * config.numExpertsPerTok := Nat.mul_le_mul within fewer
  have fits := carved.fits (total.trans room)
  have rows : ∑ expert ∈ Finset.range config.expertNum,
      (prefillTables config qlen k expertIds before).localNum expert ≤ config.localRows := by
    rw [Instance.localRows, Nat.mul_comm]
    exact total.trans room
  exact ⟨fits, carved.regionsSafe counted.bounded fits,
    rowsSafe_of_counted counted carved.inputRow rows, rowsSafe_of_counted counted carved.outputRow rows⟩

end

end KtKernel.Amx
