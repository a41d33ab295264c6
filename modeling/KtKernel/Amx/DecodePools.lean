import KtKernel.Amx.PrefillPools

namespace KtKernel.Amx

variable {config : Instance} {k : Nat} {expertIds : Nat → Int}

/-! ## Decode -/

/-- The routed ids of one token are pairwise different. -/
def DistinctIds (config : Instance) (k : Nat) (expertIds : Nat → Int) : Prop :=
  ∀ slot < k, ∀ other < k, config.shouldSkipExpert (expertIds slot) = false →
    config.shouldSkipExpert (expertIds other) = false → expertIds slot = expertIds other → slot = other

def routedExperts (config : Instance) (k : Nat) (expertIds : Nat → Int) : List Nat :=
  ((List.range k).filter fun slot => !config.shouldSkipExpert (expertIds slot)).map fun slot =>
    (expertIds slot).toNat

theorem routedExperts_succ (config : Instance) (k : Nat) (expertIds : Nat → Int) :
    routedExperts config (k + 1) expertIds = routedExperts config k expertIds ++
      if config.shouldSkipExpert (expertIds k) then [] else [(expertIds k).toNat] := by
  simp only [routedExperts, List.range_succ, List.filter_append, List.map_append]
  cases skipped : config.shouldSkipExpert (expertIds k) with
  | true => simp [skipped]
  | false => simp [skipped]

theorem mem_routedExperts :
    expert ∈ routedExperts config k expertIds ↔
      ∃ slot < k, config.shouldSkipExpert (expertIds slot) = false ∧ (expertIds slot).toNat = expert := by
  simp only [routedExperts, List.mem_map, List.mem_filter, List.mem_range, Bool.not_eq_true', and_assoc]

theorem toNat_bound (live : config.shouldSkipExpert expertId = false) :
    expertId.toNat < config.expertNum ∧ (expertId.toNat : Int) = expertId := by
  simp only [Instance.shouldSkipExpert, Bool.or_eq_false_iff, decide_eq_false_iff_not] at live
  omega

theorem routedExperts_nodup (distinct : DistinctIds config k expertIds) :
    (routedExperts config k expertIds).Nodup := by
  apply List.Nodup.map_on
  · intro slot member other otherMember same
    simp only [List.mem_filter, List.mem_range, Bool.not_eq_true'] at member otherMember
    apply distinct slot member.1 other otherMember.1 member.2 otherMember.2
    rw [← (toNat_bound member.2).2, ← (toNat_bound otherMember.2).2, same]
  · exact List.nodup_range.filter _

theorem routedExperts_bound (member : expert ∈ routedExperts config k expertIds) :
    expert < config.expertNum := by
  obtain ⟨slot, -, live, rfl⟩ := mem_routedExperts.mp member
  exact (toNat_bound live).1

/-- What the first loop of a decode has recorded. -/
structure Recorded (config : Instance) (expertIds : Nat → Int) (passed : Nat) (tables : Tables) : Prop where
  expertIdMap : tables.expertIdMap = routedExperts config passed expertIds
  localNum : ∀ expert, tables.localNum expert =
    if expert ∈ routedExperts config passed expertIds then 1 else 0
  localPos : ∀ slot < passed, config.shouldSkipExpert (expertIds slot) = false →
    tables.localPos (0, slot) = 0
  offset : tables.offset = 0
  usedM : tables.usedM = 0
  usedBytes : ∀ pool, tables.usedBytes pool = 0

theorem Recorded.step {tables : Tables} (recorded : Recorded config expertIds passed tables) :
    Recorded config expertIds (passed + 1) (recordSlot config expertIds tables passed) := by
  have next := routedExperts_succ config passed expertIds
  cases skipped : config.shouldSkipExpert (expertIds passed) with
  | true =>
      rw [skipped, if_pos rfl, List.append_nil] at next
      have shape : recordSlot config expertIds tables passed = tables := by
        simp only [recordSlot, skipped, if_true]
      rw [shape]
      refine { recorded with expertIdMap := ?_, localNum := ?_, localPos := ?_ }
      · rw [next]
        exact recorded.expertIdMap
      · rw [next]
        exact recorded.localNum
      · intro slot inside live
        have different : slot ≠ passed := by
          intro same
          rw [same, skipped] at live
          contradiction
        exact recorded.localPos slot (by omega) live
  | false =>
      rw [skipped] at next
      simp only [Bool.false_eq_true, if_false] at next
      simp only [recordSlot, skipped, Bool.false_eq_true, if_false]
      refine { recorded with expertIdMap := ?_, localNum := ?_, localPos := ?_ }
      · dsimp only
        rw [next, recorded.expertIdMap]
      · intro expert
        dsimp only
        rw [next]
        by_cases same : expert = (expertIds passed).toNat
        · rw [same, Function.update_self, if_pos (List.mem_append_right _ (List.mem_singleton_self _))]
        · rw [Function.update_of_ne same, recorded.localNum]
          simp only [List.mem_append, List.mem_singleton, same, or_false]
      · intro slot inside live
        dsimp only
        by_cases same : slot = passed
        · rw [same, Function.update_self]
        · rw [Function.update_of_ne (fun equal => same (Prod.mk.inj equal).2)]
          exact recorded.localPos slot (by omega) live

theorem recorded_foldl (config : Instance) (expertIds : Nat → Int) (before : Tables) (k : Nat) :
    Recorded config expertIds k ((List.range k).foldl (recordSlot config expertIds) before.cleared) := by
  induction k with
  | zero =>
      refine ⟨rfl, ?_, nofun, rfl, rfl, fun _ => rfl⟩
      intro expert
      simp [routedExperts, Tables.cleared]
  | succ k induction =>
      rw [List.range_succ, List.foldl_append]
      exact induction.step

/-- A loop that hands out pieces of one size to the experts of a list. -/
theorem foldl_handed (step : Tables → Nat → Tables) (entry : Tables → Nat → Nat) (counter : Tables → Nat)
    (size : Nat) (enters : ∀ tables expert, entry (step tables expert) =
      Function.update (entry tables) expert (counter tables))
    (counts : ∀ tables expert, counter (step tables expert) = counter tables + size)
    (start : Tables) (none : counter start = 0) {experts : List Nat} (distinct : experts.Nodup) :
    counter (experts.foldl step start) = experts.length * size ∧
      ∀ index expert, experts[index]? = some expert →
        entry (experts.foldl step start) expert = index * size := by
  induction experts using List.reverseRecOn with
  | nil => exact ⟨by rw [List.foldl_nil, none, List.length_nil, Nat.zero_mul], nofun⟩
  | append_singleton earlier last induction =>
      have parts := List.nodup_append.mp distinct
      obtain ⟨counted, entered⟩ := induction parts.1
      rw [List.foldl_append, List.foldl_cons, List.foldl_nil, counts, enters, counted]
      constructor
      · rw [List.length_append, List.length_singleton, Nat.add_mul, Nat.one_mul]
      · intro index expert found
        rw [List.getElem?_append] at found
        split at found
        case isTrue inside =>
          have member := List.mem_of_getElem? found
          have different : expert ≠ last := parts.2.2 expert member last (List.mem_singleton_self last)
          rw [Function.update_of_ne different]
          exact entered index expert found
        case isFalse beyond =>
          obtain ⟨bound, same⟩ := List.getElem?_eq_some_iff.mp found
          rw [List.length_singleton] at bound
          have position : index = earlier.length := by omega
          rw [List.getElem_singleton] at same
          rw [← same, Function.update_self, position]

/-- What a decode leaves for the experts it routes to. -/
structure Handed (config : Instance) (k : Nat) (expertIds : Nat → Int) (tables : Tables) : Prop where
  expertIdMap : tables.expertIdMap = routedExperts config k expertIds
  localNum : ∀ expert, tables.localNum expert =
    if expert ∈ routedExperts config k expertIds then 1 else 0
  localPos : ∀ slot < k, config.shouldSkipExpert (expertIds slot) = false → tables.localPos (0, slot) = 0
  outputRow : ∀ expert ∈ routedExperts config k expertIds,
    (routedExperts config k expertIds)[tables.outputRow expert]? = some expert
  data : DistinctIds config k expertIds → ∀ index expert,
    (routedExperts config k expertIds)[index]? = some expert → ∀ pool,
      tables.data pool expert = index * align64 (config.requiredSize config.mStep pool)
  maxM : ∀ expert ∈ routedExperts config k expertIds, tables.maxM expert = config.mStep
  usedM : DistinctIds config k expertIds →
    tables.usedM = (routedExperts config k expertIds).length * config.mStep
  usedBytes : DistinctIds config k expertIds → ∀ pool, tables.usedBytes pool =
    (routedExperts config k expertIds).length * align64 (config.requiredSize config.mStep pool)

theorem foldl_placeRow (experts : List Nat) (start : Tables) (none : start.offset = 0) :
    (experts.foldl placeRow start).offset = experts.length ∧
      ∀ expert ∈ experts, experts[(experts.foldl placeRow start).outputRow expert]? = some expert := by
  induction experts using List.reverseRecOn with
  | nil => exact ⟨none, nofun⟩
  | append_singleton earlier last induction =>
      rw [List.foldl_append, List.foldl_cons, List.foldl_nil, placeRow]
      dsimp only
      constructor
      · rw [induction.1, List.length_append, List.length_singleton]
      · intro expert member
        by_cases same : expert = last
        · rw [same, Function.update_self, induction.1, List.getElem?_append_right (Nat.le_refl _),
            Nat.sub_self]
          rfl
        · rw [Function.update_of_ne same]
          have inEarlier : expert ∈ earlier := by
            rcases List.mem_append.mp member with inEarlier | isLast
            · exact inEarlier
            · exact absurd (List.mem_singleton.mp isLast) same
          have found := induction.2 expert inEarlier
          obtain ⟨bound, -⟩ := List.getElem?_eq_some_iff.mp found
          rw [List.getElem?_append_left bound, found]

theorem foldl_carvePools_maxM (experts : List Nat) (tables : Tables) (member : expert ∈ experts) :
    (experts.foldl (carvePools config maxM) tables).maxM expert = maxM := by
  induction experts using List.reverseRecOn with
  | nil => contradiction
  | append_singleton earlier last induction =>
      rw [List.foldl_append, List.foldl_cons, List.foldl_nil]
      simp only [carvePools]
      by_cases same : expert = last
      · rw [same, Function.update_self]
      · rw [Function.update_of_ne same]
        apply induction
        rcases List.mem_append.mp member with inEarlier | isLast
        · exact inEarlier
        · exact absurd (List.mem_singleton.mp isLast) same

theorem foldl_usedM (experts : List Nat) (tables : Tables) :
    (experts.foldl (carvePools config maxM) tables).usedM = tables.usedM + experts.length * maxM := by
  induction experts generalizing tables with
  | nil => simp
  | cons expert rest induction =>
      rw [List.foldl_cons, induction, carvePools, List.length_cons, Nat.add_mul]
      dsimp only
      omega

theorem decode_handed (config : Instance) (k : Nat) (expertIds : Nat → Int) (before : Tables) :
    Handed config k expertIds (decodeTables config k expertIds before) := by
  have recorded := recorded_foldl config expertIds before k
  simp only [decodeTables, paddedRows_one]
  generalize (List.range k).foldl (recordSlot config expertIds) before.cleared = tables at *
  rw [recorded.expertIdMap]
  have mapped : (List.foldl placeRow tables (routedExperts config k expertIds)).expertIdMap =
      routedExperts config k expertIds :=
    (foldl_keeps placeRow Tables.expertIdMap (fun _ _ => rfl) _ _).trans recorded.expertIdMap
  rw [mapped]
  have none (pool : Pool) : (List.foldl placeRow tables (routedExperts config k expertIds)).usedBytes pool = 0 := by
    rw [foldl_keeps placeRow Tables.usedBytes fun _ _ => rfl]
    exact recorded.usedBytes pool
  have handed (distinct : DistinctIds config k expertIds) (pool : Pool) :=
    foldl_handed (carvePools config config.mStep) (fun tables => tables.data pool)
      (fun tables => tables.usedBytes pool) _ (fun _ _ => rfl) (fun _ _ => rfl) _ (none pool)
      (routedExperts_nodup distinct)
  constructor
  · exact (foldl_keeps (carvePools config config.mStep) Tables.expertIdMap (fun _ _ => rfl) _ _).trans mapped
  · intro expert
    rw [← recorded.localNum, foldl_keeps (carvePools config config.mStep) Tables.localNum fun _ _ => rfl,
      foldl_keeps placeRow Tables.localNum fun _ _ => rfl]
  · intro slot inside live
    rw [foldl_keeps (carvePools config config.mStep) Tables.localPos fun _ _ => rfl,
      foldl_keeps placeRow Tables.localPos fun _ _ => rfl]
    exact recorded.localPos slot inside live
  · rw [foldl_keeps (carvePools config config.mStep) Tables.outputRow fun _ _ => rfl]
    exact (foldl_placeRow _ tables recorded.offset).2
  · intro distinct index expert found pool
    exact (handed distinct pool).2 index expert found
  · intro expert member
    exact foldl_carvePools_maxM _ _ member
  · intro distinct
    rw [foldl_usedM, foldl_keeps placeRow Tables.usedM fun _ _ => rfl, recorded.usedM, Nat.zero_add]
  · intro distinct pool
    exact (handed distinct pool).1

section

variable {tables : Tables}

theorem routedExperts_length_le (distinct : DistinctIds config k expertIds) :
    (routedExperts config k expertIds).length ≤ config.expertNum := by
  have sub : routedExperts config k expertIds ⊆ List.range config.expertNum := by
    intro expert member
    exact List.mem_range.mpr (routedExperts_bound member)
  have length := ((routedExperts_nodup distinct).subperm sub).length_le
  rwa [List.length_range] at length

theorem routedExperts_length_le_slots (config : Instance) (k : Nat) (expertIds : Nat → Int) :
    (routedExperts config k expertIds).length ≤ k := by
  have length := List.length_filter_le
    (fun slot => !config.shouldSkipExpert (expertIds slot)) (List.range k)
  rwa [List.length_range, ← List.length_map (f := fun slot => (expertIds slot).toNat)] at length

theorem Handed.routed (handed : Handed config k expertIds tables) (active : 0 < tables.localNum expert) :
    expert ∈ routedExperts config k expertIds := by
  rw [handed.localNum] at active
  by_contra absent
  rw [if_neg absent] at active
  contradiction

theorem Handed.fits (handed : Handed config k expertIds tables) (distinct : DistinctIds config k expertIds) :
    Fits config tables := by
  have rows : (routedExperts config k expertIds).length * config.mStep ≤ config.poolCount := by
    have fewer := Nat.mul_le_mul_right config.mStep (routedExperts_length_le distinct)
    unfold Instance.poolCount
    omega
  refine ⟨(handed.usedM distinct).trans_le rows, ?_⟩
  intro pool
  rw [handed.usedBytes distinct pool]
  apply bytes_le_of_rows_le pool _ rows
  rw [Nat.mul_assoc]
  exact Nat.mul_le_mul_left _ (region_le pool config.mStepPositive)

theorem exists_place (member : expert ∈ routedExperts config k expertIds) :
    ∃ index < (routedExperts config k expertIds).length,
      (routedExperts config k expertIds)[index]? = some expert := by
  obtain ⟨index, inside, found⟩ := List.getElem_of_mem member
  exact ⟨index, inside, by rw [List.getElem?_eq_getElem inside, found]⟩

theorem Handed.regionsSafe (handed : Handed config k expertIds tables)
    (distinct : DistinctIds config k expertIds) (fits : Fits config tables) :
    RegionsSafe config tables := by
  constructor
  · intro expert pool active
    have routed := handed.routed active
    obtain ⟨index, inside, found⟩ := exists_place routed
    rw [handed.maxM expert routed, handed.data distinct index expert found pool, handed.localNum,
      if_pos routed]
    refine ⟨config.mStepPositive, ?_⟩
    have used := fits.2 pool
    rw [handed.usedBytes distinct pool] at used
    have aligned := le_align64 (config.requiredSize config.mStep pool)
    have piece := Nat.mul_le_mul_right (align64 (config.requiredSize config.mStep pool))
      (show index + 1 ≤ (routedExperts config k expertIds).length from inside)
    rw [Nat.add_mul, Nat.one_mul] at piece
    omega
  · intro expert other pool active otherActive different
    have routed := handed.routed active
    have otherRouted := handed.routed otherActive
    obtain ⟨index, inside, found⟩ := exists_place routed
    obtain ⟨otherIndex, otherInside, otherFound⟩ := exists_place otherRouted
    rw [handed.maxM expert routed, handed.data distinct index expert found pool,
      handed.maxM other otherRouted, handed.data distinct otherIndex other otherFound pool]
    have places : index ≠ otherIndex := by
      intro same
      rw [same, otherFound] at found
      exact different (Option.some.inj found).symm
    have within (_ : Nat) : config.requiredSize config.mStep pool ≤
        align64 (config.requiredSize config.mStep pool) := le_align64 _
    have apart := apart_of_sums within places
    simpa only [Finset.sum_const_nat fun _ _ => rfl, Finset.card_range] using apart

theorem slots_one (member : slot ∈ slots 1 k) : ∃ column < k, slot = (0, column) := by
  obtain ⟨row, column⟩ := slot
  obtain ⟨rowMember, columnMember⟩ := List.mem_product.mp member
  have first := List.mem_range.mp rowMember
  refine ⟨column, List.mem_range.mp columnMember, ?_⟩
  rw [Prod.mk.injEq]
  exact ⟨by omega, rfl⟩

theorem Handed.one (handed : Handed config k expertIds tables)
    (routed : expert ∈ routedExperts config k expertIds) : tables.localNum expert = 1 := by
  rw [handed.localNum, if_pos routed]

theorem Handed.row_lt (handed : Handed config k expertIds tables)
    (routed : expert ∈ routedExperts config k expertIds) :
    tables.outputRow expert < (routedExperts config k expertIds).length :=
  (List.getElem?_eq_some_iff.mp (handed.outputRow expert routed)).1

theorem Handed.row_ne (handed : Handed config k expertIds tables)
    (routed : expert ∈ routedExperts config k expertIds)
    (otherRouted : other ∈ routedExperts config k expertIds) (different : expert ≠ other) :
    tables.outputRow expert ≠ tables.outputRow other := by
  intro same
  have found := handed.outputRow expert routed
  rw [same, handed.outputRow other otherRouted] at found
  exact different (Option.some.inj found).symm

theorem Handed.rowsSafe (handed : Handed config k expertIds tables)
    (distinct : DistinctIds config k expertIds) (some_ : 1 ≤ config.maxLen)
    (fewer : k ≤ config.numExpertsPerTok) :
    RowsSafe config 1 k expertIds tables.outputRow tables := by
  refine ⟨?_, ?_, ?_, ?_⟩
  · intro expert active
    have routed := handed.routed active
    have inside := handed.row_lt routed
    rw [handed.one routed]
    have length := routedExperts_length_le_slots config k expertIds
    have rows : config.numExpertsPerTok * 1 ≤ config.localRows := Nat.mul_le_mul_left _ some_
    omega
  · intro expert other active otherActive different
    have routed := handed.routed active
    have otherRouted := handed.routed otherActive
    have rows := handed.row_ne routed otherRouted different
    rw [handed.one routed, handed.one otherRouted]
    unfold Apart
    omega
  · intro slot member live
    obtain ⟨column, inside, rfl⟩ := slots_one member
    simp only [Live, Nat.zero_mul, Nat.zero_add] at live ⊢
    rw [handed.localPos column inside live,
      handed.one (mem_routedExperts.mpr ⟨column, inside, live, rfl⟩)]
    exact Nat.one_pos
  · intro slot member other otherMember live otherLive different
    obtain ⟨column, inside, rfl⟩ := slots_one member
    obtain ⟨otherColumn, otherInside, rfl⟩ := slots_one otherMember
    simp only [Live, slotRow, Nat.zero_mul, Nat.zero_add] at live otherLive ⊢
    rw [handed.localPos column inside live, handed.localPos otherColumn otherInside otherLive]
    apply handed.row_ne (mem_routedExperts.mpr ⟨column, inside, live, rfl⟩)
      (mem_routedExperts.mpr ⟨otherColumn, otherInside, otherLive, rfl⟩)
    intro same
    apply different
    rw [Prod.mk.injEq]
    refine ⟨rfl, distinct column inside otherColumn otherInside live otherLive ?_⟩
    rw [← (toNat_bound live).2, ← (toNat_bound otherLive).2, same]

/-- Two slots with the same id have the same row. -/
theorem Handed.distinct (handed : Handed config k expertIds tables)
    (safe : RowsSafe config 1 k expertIds tables.outputRow tables) : DistinctIds config k expertIds := by
  intro slot inside other otherInside live otherLive same
  by_contra different
  have member {column : Nat} (bound : column < k) : (0, column) ∈ slots 1 k :=
    List.mem_product.mpr ⟨List.mem_range.mpr Nat.one_pos, List.mem_range.mpr bound⟩
  apply safe.2.2.2 (0, slot) (member inside) (0, other) (member otherInside)
  · simpa only [Live, Nat.zero_mul, Nat.zero_add] using live
  · simpa only [Live, Nat.zero_mul, Nat.zero_add] using otherLive
  · intro equal
    exact different (Prod.mk.inj equal).2
  · simp only [slotRow, Nat.zero_mul, Nat.zero_add]
    rw [handed.localPos slot inside live, handed.localPos other otherInside otherLive, same]

end

/-- What a decode has to carve; it reads its input in place. -/
def DecodeSafe (config : Instance) (k : Nat) (expertIds : Nat → Int) (tables : Tables) : Prop :=
  Fits config tables ∧ RegionsSafe config tables ∧
    RowsSafe config 1 k expertIds tables.outputRow tables

/-- The carving of a prefill is safe for every routing, and the carving of a
decode exactly when no routed id is repeated. -/
theorem pool_carving_safe_iff (config : Instance) (qlen k : Nat) (expertIds : Nat → Int)
    (before : Tables) (some_ : 1 ≤ qlen) (within : qlen ≤ config.maxLen)
    (fewer : k ≤ config.numExpertsPerTok) :
    PrefillSafe config qlen k expertIds (prefillTables config qlen k expertIds before) ∧
      (DecodeSafe config k expertIds (decodeTables config k expertIds before) ↔
        DistinctIds config k expertIds) := by
  refine ⟨prefill_safe within fewer, ?_⟩
  have handed := decode_handed config k expertIds before
  constructor
  · intro safe
    exact handed.distinct safe.2.2
  · intro distinct
    have fits := handed.fits distinct
    exact ⟨fits, handed.regionsSafe distinct fits, handed.rowsSafe distinct (some_.trans within) fewer⟩

/-- Two experts, two slots for each token, and buffers of the plain INT8 kernel. -/
def smallInstance : Instance where
  expertNum := 2
  numExpertsPerTok := 2
  maxLen := 32
  hiddenSize := 32
  intermediateSize := 32
  groupSize := 32
  gpuExpertsMask := fun _ => false
  mStep := 32
  nBlock := 256
  bufferA := .int8
  bufferC := .plain
  mStepPositive := by decide
  nBlockPositive := by decide
  hiddenPositive := by decide
  intermediatePositive := by decide

def blankTables : Tables where
  localNum := fun _ => 0
  localPos := fun _ => 0
  expertIdMap := []
  inputRow := fun _ => 0
  outputRow := fun _ => 0
  offset := 0
  maxM := fun _ => 0
  data := fun _ _ => 0
  usedM := 0
  usedBytes := fun _ => 0

theorem pool_carving_safe_iff_two_experts :
    DecodeSafe smallInstance 2 (fun slot => slot)
      (decodeTables smallInstance 2 (fun slot => slot) blankTables) := by
  apply (pool_carving_safe_iff smallInstance 1 2 (fun slot => slot) blankTables (by decide) (by decide)
    (by decide)).2.mpr
  intro slot _ other _ _ _ same
  exact Int.ofNat.inj same

/-- Both slots of a token that names the first expert twice use row one. -/
theorem repeated_id_shares_row :
    ¬ DecodeSafe smallInstance 2 (fun _ => 0) (decodeTables smallInstance 2 (fun _ => 0) blankTables) := by
  intro safe
  exact safe.2.2.2.2.2 (0, 0) (by decide) (0, 1) (by decide) rfl rfl (by decide) (by decide)

end KtKernel.Amx
