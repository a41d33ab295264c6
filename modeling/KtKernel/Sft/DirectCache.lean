import KtKernel.Sft.RowJobs

namespace KtKernel.Sft.Forward

open KtKernel.Data KtKernel.Amx

section

variable {config : Config} {V Q O : Type} {kernels : Kernels V Q O} {schedule : Schedule}
  {state : State V Q O}

theorem saveJob_input {row : Nat} (slot : Nat) (input : Nat × Nat → V) (inside : row < qlen) (within : column < config.hiddenSize) :
    (saveJob config slot qlen input state).run schedule 5 state.cells
        ((Pointer.mk (.cache slot .input) 0).cell row column) = input (row, column) := by
  have first : 0 < (saveJob config slot qlen input state).count := by
    simp only [saveJob]
    omega
  apply RowJob.run_written (saveJob config slot qlen input state) schedule 5 state.cells 0 row column first inside
  · exact decide_eq_true within
  · intro other _ holds _
    by_contra different
    have region := holds.1
    simp only [saveJob, if_neg different, if_true, Pointer.cell, Region.cache.injEq] at region
    cases kind : decide ((other - 1) % 2 = 1) with
    | false => simp [kind] at region
    | true => simp [kind] at region

variable (state) in
theorem saveJob_gateUp {row : Nat} (slot qlen : Nat) (input : Nat × Nat → V) (place : index < state.tables.expertIdMap.length)
    (inside : row < state.tables.localNum (state.tables.expertIdMap.getD index 0))
    (within : column < config.intermediateSize) (doUp : Bool) :
    (saveJob config slot qlen input state).run schedule 5 state.cells
        ((Pointer.mk (.cache slot (if doUp then .up else .gate)) (cacheOffset state.tables index)).cell row column) =
      state.cells ((state.gateUpPtr doUp (state.tables.expertIdMap.getD index 0)).cell row column) := by
  obtain ⟨bit, small, kind⟩ : ∃ bit < 2, decide (bit = 1) = doUp := by
    cases doUp with
    | false => exact ⟨0, by decide, rfl⟩
    | true => exact ⟨1, by decide, rfl⟩
  have positive : 1 + index * 2 + bit ≠ 0 := by omega
  have half : (1 + index * 2 + bit - 1) / 2 = index := by omega
  have parity : (1 + index * 2 + bit - 1) % 2 = bit := by omega
  have key : (saveJob config slot qlen input state).key (1 + index * 2 + bit) = some (doUp, index) := by
    simp only [saveJob, if_neg positive, half, parity, kind]
  have inJob : 1 + index * 2 + bit < (saveJob config slot qlen input state).count := by
    simp only [saveJob]
    omega
  have written := RowJob.run_written (saveJob config slot qlen input state) schedule 5 state.cells _ row column inJob
  rw [key] at written
  apply written inside
  · simp only [saveJob, if_neg positive]
    exact decide_eq_true within
  · intro other otherInside holds _
    simp only [saveJob] at otherInside holds
    by_cases first : other = 0
    · have region := holds.1
      rw [if_pos first] at region
      simp only [Pointer.cell, Region.cache.injEq] at region
      cases doUp with
      | false => simp at region
      | true => simp at region
    · rw [if_neg first] at holds
      dsimp only at holds
      have region := holds.1
      simp only [Pointer.cell, Region.cache.injEq, true_and] at region
      have sameIndex : (other - 1) / 2 = index := by
        refine cachePlace_unique ?_ place holds (Pointer.holds_cell _ _ inside)
        omega
      have sameKind : decide ((other - 1) % 2 = 1) = doUp := by
        cases otherKind : decide ((other - 1) % 2 = 1) with
        | false =>
            cases doUp with
            | false => rfl
            | true => simp [otherKind] at region
        | true =>
            cases doUp with
            | false => simp [otherKind] at region
            | true => rfl
      have sameBit : (other - 1) % 2 = 1 ↔ bit = 1 := by
        rw [← kind] at sameKind
        exact decide_eq_decide.mp sameKind
      omega

variable (schedule state) in
/-- The chunks of the direct copy cover the input. -/
theorem copyInput_cell {row : Nat} (slot : Nat) (input : Nat × Nat → V) (inside : row < qlen) (within : column < config.hiddenSize) :
    (copyInputToCache config schedule slot qlen input state).cells
        ((Pointer.mk (.cache slot .input) 0).cell row column) = input (row, column) := by
  have place : row * config.hiddenSize + column < config.hiddenSize * qlen := pairIndex_lt inside within
  have chunkPositive : 0 < chunkBytes := by decide
  have total : qlen * config.hiddenSize = config.hiddenSize * qlen := Nat.mul_comm _ _
  have byteInside : (row * config.hiddenSize + column) * 2 < config.hiddenSize * qlen * 2 := by
    omega
  simp only [copyInputToCache, Pointer.cell, Nat.zero_add, total]
  apply Store.runAll_agreed
  · intro store member
    obtain ⟨chunk, -, rfl⟩ := List.mem_map.mp member
    simp only [chunkStore, Store.Skips]
    split
    · exact .inr fun _ => rfl
    · exact .inl fun _ => rfl
  · refine ⟨_, List.mem_map_of_mem (schedule.mem_order (div_lt_blocks chunkPositive byteInside) 4), ?_⟩
    intro old
    apply if_pos
    rw [total]
    exact ⟨rfl, within, place_in_chunk chunkPositive byteInside⟩

/-! ## What the steps leave alone -/

theorem gateUp_kept (elsewhere : ∀ expert ∈ state.tables.expertIdMap, ∀ doUp,
    cell.region ≠ (state.gateUpPtr doUp expert).region) :
    (gateUp config kernels schedule state).cells cell = state.cells cell := by
  apply RowJob.run_kept
  intro task taskInside
  simp only [gateUpJob] at taskInside
  exact elsewhere _ (taskExpert_mem (by omega)) _

theorem activate_kept {destination : Nat → Pointer} (elsewhere : ∀ expert ∈ state.tables.expertIdMap,
    cell.region ≠ (destination expert).region) :
    (activate config kernels schedule destination state).cells cell = state.cells cell := by
  apply RowJob.run_kept
  intro task taskInside
  exact elsewhere _ (taskExpert_mem taskInside)

theorem down_kept (elsewhere : ∀ expert ∈ state.tables.expertIdMap, cell.region ≠ (state.downPtr expert).region) :
    (down config kernels schedule state).cells cell = state.cells cell := by
  apply RowJob.run_kept
  intro task taskInside
  exact elsewhere _ (taskExpert_mem taskInside)

theorem saveJob_kept (slot qlen : Nat) (input : Nat × Nat → V) (elsewhere : ∀ tensor, cell.region ≠ .cache slot tensor) :
    (saveJob config slot qlen input state).run schedule 5 state.cells cell = state.cells cell := by
  apply RowJob.run_kept
  intro task _
  simp only [saveJob]
  split
  · exact elsewhere _
  · exact elsewhere _

theorem copyJob_kept (slot width : Nat) (tensor : Tensor) (source : Nat → Pointer) (number : Nat)
    (elsewhere : cell.region ≠ .cache slot tensor) :
    (copyJob slot width tensor source state).run schedule number state.cells cell = state.cells cell := by
  apply RowJob.run_kept
  intro task _
  exact elsewhere

theorem index_of_mem (tables : Tables) (member : expert ∈ tables.expertIdMap) :
    ∃ index < tables.expertIdMap.length, tables.expertIdMap.getD index 0 = expert := by
  obtain ⟨index, place, found⟩ := List.getElem_of_mem member
  exact ⟨index, place, by rw [List.getD_eq_getElem _ _ place, found]⟩

/-- After some rounds of the binding loop the pointers of the experts passed name
the entry, and nothing else has changed. -/
theorem bind_rounds (distinct : state.tables.expertIdMap.Nodup) (slot : Nat) (within : count ≤ state.tables.expertIdMap.length) :
    ∃ gateUpPtr downPtr directCacheIntermediatePtrs,
      (List.range count).foldl (bindOne slot) state =
        { state with gateUpPtr, downPtr, directCacheIntermediatePtrs } ∧
      ∀ index < count,
        (∀ doUp, gateUpPtr doUp (state.tables.expertIdMap.getD index 0) =
          ⟨.cache slot (if doUp then .up else .gate), cacheOffset state.tables index⟩) ∧
        downPtr (state.tables.expertIdMap.getD index 0) = ⟨.cache slot .down, cacheOffset state.tables index⟩ ∧
        directCacheIntermediatePtrs (state.tables.expertIdMap.getD index 0) =
          ⟨.cache slot .intermediate, cacheOffset state.tables index⟩ := by
  induction count with
  | zero => exact ⟨_, _, _, rfl, nofun⟩
  | succ count induction =>
      obtain ⟨gateUpPtr, downPtr, intermediatePtrs, shape, bound⟩ := induction (by omega)
      rw [List.range_succ, List.foldl_append, shape, List.foldl_cons, List.foldl_nil]
      refine ⟨_, _, _, rfl, ?_⟩
      intro index inside
      dsimp only
      by_cases last : index = count
      · subst last
        simp only [Function.update_self, implies_true, and_self]
      · have earlier : index < count := by omega
        have different : state.tables.expertIdMap.getD index 0 ≠ state.tables.expertIdMap.getD count 0 := by
          rw [List.getD_eq_getElem _ _ (by omega), List.getD_eq_getElem _ _ (by omega)]
          intro same
          exact last ((List.Nodup.getElem_inj_iff distinct).mp same)
        simp only [Function.update_of_ne different]
        exact bound index earlier

end

/-! ## What the products are -/

section

variable (config : Config) {V Q O : Type} [Zero V] (kernels : Kernels V Q O) (prepared : State V Q O)

def gateUpValue (doUp : Bool) (expert row column : Nat) : V :=
  kernels.gateUpGemm doUp expert (prepared.gateUpBa expert row) column

def intermediateValue (expert row column : Nat) : V :=
  kernels.actFn (gateUpValue kernels prepared false expert row column) (gateUpValue kernels prepared true expert row column)

def downValue (expert row : Nat) : Nat → V :=
  kernels.downGemm expert (kernels.fromGate fun column =>
    if column < config.intermediateSize then intermediateValue kernels prepared expert row column else 0)

/-- The merge reads the down products of the prepared rows. -/
structure Finished (final : State V Q O) : Prop where
  tables : final.tables = prepared.tables
  down : ∀ expert ∈ prepared.tables.expertIdMap, ∀ row < prepared.tables.localNum expert,
    ∀ column < config.hiddenSize,
      final.cells ((final.downPtr expert).cell row column) = downValue config kernels prepared expert row column

/-- What a saving call leaves in the cache entry. -/
structure Cached (call : Call V O) (slot : Nat) (final : State V Q O) : Prop where
  input : ∀ token < call.qlen, ∀ column < config.hiddenSize,
    final.cells ⟨.cache slot .input, token, column⟩ = call.input (token, column)
  gateUp : ∀ index < prepared.tables.expertIdMap.length,
    ∀ row < prepared.tables.localNum (prepared.tables.expertIdMap.getD index 0),
      ∀ column < config.intermediateSize, ∀ doUp,
        final.cells ⟨.cache slot (if doUp then .up else .gate), cacheOffset prepared.tables index + row, column⟩ =
          gateUpValue kernels prepared doUp (prepared.tables.expertIdMap.getD index 0) row column
  intermediate : ∀ index < prepared.tables.expertIdMap.length,
    ∀ row < prepared.tables.localNum (prepared.tables.expertIdMap.getD index 0),
      ∀ column < config.intermediateSize,
        final.cells ⟨.cache slot .intermediate, cacheOffset prepared.tables index + row, column⟩ =
          intermediateValue kernels prepared (prepared.tables.expertIdMap.getD index 0) row column
  down : ∀ index < prepared.tables.expertIdMap.length,
    ∀ row < prepared.tables.localNum (prepared.tables.expertIdMap.getD index 0),
      ∀ column < config.hiddenSize,
        final.cells ⟨.cache slot .down, cacheOffset prepared.tables index + row, column⟩ =
          downValue config kernels prepared (prepared.tables.expertIdMap.getD index 0) row column
  metadata : final.metadata =
    (prepareCacheMetadata call.seed call.qlen call.k call.expertIds call.weights slot prepared).metadata
  valid : final.valid = Function.update prepared.valid slot true
  cacheStackTop : final.cacheStackTop = slot + 1

end

/-! ## The passes -/

section

variable {config : Config} {V Q O : Type} {kernels : Kernels V Q O} {schedule : Schedule}
  {state : State V Q O}

/-- In place or not, the activation is that of the gate and up outputs. -/
theorem activate_cell {destination : Nat → Pointer} (distinct : state.tables.expertIdMap.Nodup)
    (spread : Spread state.tables destination) (member : expert ∈ state.tables.expertIdMap)
    (inside : row < state.tables.localNum expert) (within : column < config.intermediateSize) :
    (activate config kernels schedule destination state).cells ((destination expert).cell row column) =
      kernels.actFn (state.cells ((state.gateUpPtr false expert).cell row column))
        (state.cells ((state.gateUpPtr true expert).cell row column)) := by
  have written := expertJob_cell (activationJob config kernels destination state) schedule rfl rfl rfl rfl distinct
    spread member inside within 2 state.cells
  refine written.trans ?_
  simp only [activationJob]
  by_cases inPlace : destination expert = state.gateUpPtr false expert
  · rw [if_pos inPlace, inPlace]
  · rw [if_neg inPlace]

theorem openEntry_shape (config : Config) (state : State V Q O) :
    (openEntry config state).1 = { state with cacheStackTop := (openEntry config state).2 + 1 } := by
  simp only [openEntry]
  by_cases filled : 0 < state.cacheStackTop
  · rw [if_pos filled]
    dsimp only
    rw [Nat.sub_add_cancel filled]
  · rw [if_neg filled]

theorem openEntry_slot {other : State V Q O} (same : state.cacheStackTop = other.cacheStackTop) :
    (openEntry config state).2 = (openEntry config other).2 := by
  simp only [openEntry, same]
  split
  · rfl
  · rfl

theorem spread_cache {tables : Tables} {pointers : Nat → Pointer}
    (placed : ∀ index < tables.expertIdMap.length,
      pointers (tables.expertIdMap.getD index 0) = ⟨region, cacheOffset tables index⟩) : Spread tables pointers := by
  intro expert member other otherMember cell holds otherHolds
  obtain ⟨index, place, rfl⟩ := index_of_mem _ member
  obtain ⟨otherIndex, otherPlace, rfl⟩ := index_of_mem _ otherMember
  rw [placed index place] at holds
  rw [placed otherIndex otherPlace] at otherHolds
  rw [cachePlace_unique place otherPlace holds otherHolds]

/-- The pointers of the activated experts name the tensors of an entry. -/
structure InEntry (state : State V Q O) (slot : Nat) : Prop where
  gateUp : ∀ index < state.tables.expertIdMap.length, ∀ doUp,
    state.gateUpPtr doUp (state.tables.expertIdMap.getD index 0) =
      ⟨.cache slot (if doUp then .up else .gate), cacheOffset state.tables index⟩
  down : ∀ index < state.tables.expertIdMap.length,
    state.downPtr (state.tables.expertIdMap.getD index 0) = ⟨.cache slot .down, cacheOffset state.tables index⟩
  intermediate : ∀ index < state.tables.expertIdMap.length,
    state.directCacheIntermediatePtrs (state.tables.expertIdMap.getD index 0) =
      ⟨.cache slot .intermediate, cacheOffset state.tables index⟩

theorem InEntry.bound (placed : InEntry state slot) (distinct : state.tables.expertIdMap.Nodup) : Bound state where
  distinct
  gateUp := fun doUp => spread_cache fun index place => placed.gateUp index place doUp
  down := spread_cache placed.down
  regions := by
    intro expert member other otherMember
    obtain ⟨index, place, rfl⟩ := index_of_mem _ member
    obtain ⟨otherIndex, otherPlace, rfl⟩ := index_of_mem _ otherMember
    rw [placed.gateUp index place, placed.gateUp otherIndex otherPlace]
    simp

/-- Binding moves pointers only. -/
theorem bind_inEntry (distinct : state.tables.expertIdMap.Nodup) (slot : Nat) :
    InEntry (bindDirectCacheOutputs slot state) slot ∧
      bindDirectCacheOutputs slot state =
        { state with
          gateUpPtr := (bindDirectCacheOutputs slot state).gateUpPtr
          downPtr := (bindDirectCacheOutputs slot state).downPtr
          directCacheIntermediatePtrs := (bindDirectCacheOutputs slot state).directCacheIntermediatePtrs } := by
  obtain ⟨gateUpPtr, downPtr, intermediatePtrs, shape, placed⟩ := bind_rounds distinct slot (Nat.le_refl _)
  rw [bindDirectCacheOutputs, shape]
  exact ⟨⟨fun index place => (placed index place).1, fun index place => (placed index place).2.1,
    fun index place => (placed index place).2.2⟩, rfl⟩

variable [Zero V]

theorem down_cell (distinct : state.tables.expertIdMap.Nodup) (spread : Spread state.tables state.downPtr)
    (member : expert ∈ state.tables.expertIdMap) (inside : row < state.tables.localNum expert)
    (within : column < config.hiddenSize) :
    (down config kernels schedule (packIntermediate config kernels state)).cells
        ((state.downPtr expert).cell row column) =
      kernels.downGemm expert
        (kernels.fromGate (rowAt config.intermediateSize state.cells (state.gateUpPtr false expert) row)) column := by
  have written := expertJob_cell (downJob config kernels (packIntermediate config kernels state)) schedule
    rfl rfl rfl rfl distinct spread member inside within 3 state.cells
  refine written.trans ?_
  simp only [downJob, packIntermediate]
  rw [if_pos ⟨member, inside⟩]

theorem down_of_intermediate {prepared : State V Q O} (distinct : state.tables.expertIdMap.Nodup)
    (spread : Spread state.tables state.downPtr) (member : expert ∈ state.tables.expertIdMap)
    (inside : row < state.tables.localNum expert)
    (intermediate : ∀ column < config.intermediateSize,
      state.cells ((state.gateUpPtr false expert).cell row column) =
        intermediateValue kernels prepared expert row column) (within : column < config.hiddenSize) :
    (down config kernels schedule (packIntermediate config kernels state)).cells
        ((state.downPtr expert).cell row column) = downValue config kernels prepared expert row column := by
  rw [down_cell distinct spread member inside within, downValue]
  congr 2
  funext gateColumn
  simp only [rowAt]
  by_cases gateWithin : gateColumn < config.intermediateSize
  · rw [if_pos gateWithin, if_pos gateWithin, intermediate gateColumn gateWithin]
  · rw [if_neg gateWithin, if_neg gateWithin]

/-- The products with the outputs bound to an entry. -/
def boundProducts (config : Config) (kernels : Kernels V Q O) (schedule : Schedule) (state : State V Q O) :
    State V Q O :=
  let products := gateUp config kernels schedule state
  down config kernels schedule (packIntermediate config kernels
    (adoptIntermediate (activate config kernels schedule products.directCacheIntermediatePtrs products)))

variable (config kernels schedule) in
theorem boundProducts_cells (placed : InEntry state slot) (distinct : state.tables.expertIdMap.Nodup)
    (place : index < state.tables.expertIdMap.length)
    (inside : row < state.tables.localNum (state.tables.expertIdMap.getD index 0)) :
    (∀ column < config.intermediateSize, ∀ doUp,
      (boundProducts config kernels schedule state).cells
          ⟨.cache slot (if doUp then .up else .gate), cacheOffset state.tables index + row, column⟩ =
        gateUpValue kernels state doUp (state.tables.expertIdMap.getD index 0) row column) ∧
    (∀ column < config.intermediateSize,
      (boundProducts config kernels schedule state).cells
          ⟨.cache slot .intermediate, cacheOffset state.tables index + row, column⟩ =
        intermediateValue kernels state (state.tables.expertIdMap.getD index 0) row column) ∧
    (∀ column < config.hiddenSize,
      (boundProducts config kernels schedule state).cells
          ⟨.cache slot .down, cacheOffset state.tables index + row, column⟩ =
        downValue config kernels state (state.tables.expertIdMap.getD index 0) row column) := by
  have bound := placed.bound distinct
  have member : state.tables.expertIdMap.getD index 0 ∈ state.tables.expertIdMap := by
    rw [List.getD_eq_getElem _ _ place]
    exact List.getElem_mem place
  let products := gateUp config kernels schedule state
  let activated := adoptIntermediate (activate config kernels schedule products.directCacheIntermediatePtrs products)
  have gateUpCell {column : Nat} (within : column < config.intermediateSize) (doUp : Bool) :
      products.cells ((state.gateUpPtr doUp (state.tables.expertIdMap.getD index 0)).cell row column) =
        gateUpValue kernels state doUp (state.tables.expertIdMap.getD index 0) row column :=
    gateUp_cell bound member inside within doUp
  -- The activation writes the intermediate tensor and the down products the down tensor.
  have activatedKept {cell : Cell} (elsewhere : cell.region ≠ .cache slot .intermediate) :
      activated.cells cell = products.cells cell := by
    apply activate_kept
    intro expert expertMember
    obtain ⟨other, otherPlace, rfl⟩ := index_of_mem state.tables expertMember
    change cell.region ≠ (state.directCacheIntermediatePtrs _).region
    rw [placed.intermediate other otherPlace]
    exact elsewhere
  have finalKept {cell : Cell} (elsewhere : cell.region ≠ .cache slot .down) :
      (boundProducts config kernels schedule state).cells cell = activated.cells cell := by
    apply down_kept
    intro expert expertMember
    obtain ⟨other, otherPlace, rfl⟩ := index_of_mem state.tables expertMember
    change cell.region ≠ (state.downPtr _).region
    rw [placed.down other otherPlace]
    exact elsewhere
  have intermediateCell {column : Nat} (within : column < config.intermediateSize) :
      activated.cells ⟨.cache slot .intermediate, cacheOffset state.tables index + row, column⟩ =
        intermediateValue kernels state (state.tables.expertIdMap.getD index 0) row column := by
    have written : activated.cells ((state.directCacheIntermediatePtrs _).cell row column) =
        kernels.actFn (products.cells ((state.gateUpPtr false _).cell row column))
          (products.cells ((state.gateUpPtr true _).cell row column)) :=
      activate_cell distinct (spread_cache placed.intermediate) member inside within
    rw [placed.intermediate index place, gateUpCell within, gateUpCell within] at written
    exact written
  refine ⟨?_, ?_, ?_⟩
  · intro column within doUp
    have cell := gateUpCell within doUp
    rw [placed.gateUp index place] at cell
    rw [finalKept (by cases doUp <;> simp), activatedKept (by cases doUp <;> simp)]
    exact cell
  · intro column within
    rw [finalKept (by simp)]
    exact intermediateCell within
  · intro column within
    have gatePtr : activated.gateUpPtr false (state.tables.expertIdMap.getD index 0) =
        ⟨.cache slot .intermediate, cacheOffset state.tables index⟩ := by
      change (if false = false ∧ _ then state.directCacheIntermediatePtrs _ else _) = _
      rw [if_pos ⟨rfl, member⟩, placed.intermediate index place]
    have downPtr : activated.downPtr (state.tables.expertIdMap.getD index 0) =
        ⟨.cache slot .down, cacheOffset state.tables index⟩ := placed.down index place
    have written : (boundProducts config kernels schedule state).cells
        ((activated.downPtr (state.tables.expertIdMap.getD index 0)).cell row column) =
          downValue config kernels state (state.tables.expertIdMap.getD index 0) row column := by
      refine down_of_intermediate distinct bound.down member inside ?_ within
      intro gateColumn gateWithin
      rw [gatePtr]
      exact intermediateCell gateWithin
    rw [downPtr] at written
    exact written

theorem boundProducts_input (placed : InEntry state slot) (token column : Nat) :
    (boundProducts config kernels schedule state).cells ⟨.cache slot .input, token, column⟩ =
      state.cells ⟨.cache slot .input, token, column⟩ := by
  have elsewhere (tensor : Tensor) (different : tensor ≠ .input) :
      (Region.cache slot .input) ≠ .cache slot tensor := by
    intro same
    exact different (Region.cache.inj same).2.symm
  have afterDown : (boundProducts config kernels schedule state).cells ⟨.cache slot .input, token, column⟩ =
      (activate config kernels schedule state.directCacheIntermediatePtrs
        (gateUp config kernels schedule state)).cells ⟨.cache slot .input, token, column⟩ := by
    apply down_kept
    intro expert member
    obtain ⟨index, place, rfl⟩ := index_of_mem state.tables member
    change _ ≠ (state.downPtr _).region
    rw [placed.down index place]
    exact elsewhere .down (by decide)
  rw [afterDown, activate_kept, gateUp_kept]
  · intro expert member doUp
    obtain ⟨index, place, rfl⟩ := index_of_mem state.tables member
    rw [placed.gateUp index place]
    cases doUp with
    | false => exact elsewhere .gate (by decide)
    | true => exact elsewhere .up (by decide)
  · intro expert member
    obtain ⟨index, place, rfl⟩ := index_of_mem state.tables member
    rw [placed.intermediate index place]
    exact elsewhere .intermediate (by decide)

theorem directPass_result (distinct : state.tables.expertIdMap.Nodup) (call : Call V O) :
    Finished config kernels state (directPass config kernels schedule call state) ∧
      Cached config kernels state call (openEntry config state).2 (directPass config kernels schedule call state) := by
  have opened := openEntry_shape config state
  simp only [directPass]
  generalize (openEntry config state).2 = slot at *
  rw [opened]
  let prepared := prepareCacheMetadata call.seed call.qlen call.k call.expertIds call.weights slot
    { state with cacheStackTop := slot + 1 }
  obtain ⟨inBound, boundIs⟩ := bind_inEntry (show prepared.tables.expertIdMap.Nodup from distinct) slot
  change Finished config kernels state (boundProducts config kernels schedule (copyInputToCache config schedule slot
    call.qlen call.input (markValid slot (bindDirectCacheOutputs slot prepared)))) ∧ Cached config kernels state call slot
      (boundProducts config kernels schedule (copyInputToCache config schedule slot call.qlen call.input
        (markValid slot (bindDirectCacheOutputs slot prepared))))
  generalize bindDirectCacheOutputs slot prepared = bound at *
  rw [boundIs] at inBound ⊢
  let copied := copyInputToCache config schedule slot call.qlen call.input (markValid slot
    { prepared with
      gateUpPtr := bound.gateUpPtr
      downPtr := bound.downPtr
      directCacheIntermediatePtrs := bound.directCacheIntermediatePtrs })
  have inEntry : InEntry copied slot := ⟨inBound.gateUp, inBound.down, inBound.intermediate⟩
  have cells {index row : Nat} (place : index < state.tables.expertIdMap.length)
      (inside : row < state.tables.localNum (state.tables.expertIdMap.getD index 0)) :=
    boundProducts_cells config kernels schedule inEntry distinct place inside
  constructor
  · refine ⟨rfl, ?_⟩
    intro expert member row inside column within
    obtain ⟨index, place, rfl⟩ := index_of_mem state.tables member
    have pointer : copied.downPtr (state.tables.expertIdMap.getD index 0) =
        ⟨.cache slot .down, cacheOffset state.tables index⟩ := inEntry.down index place
    change (boundProducts config kernels schedule copied).cells ((copied.downPtr _).cell row column) = _
    rw [pointer]
    exact (cells place inside).2.2 column within
  · refine ⟨?_, ?_, ?_, ?_, rfl, rfl, rfl⟩
    · intro token tokenInside column within
      rw [boundProducts_input inEntry]
      have copiedInput := copyInput_cell schedule (markValid slot
        { prepared with
          gateUpPtr := bound.gateUpPtr
          downPtr := bound.downPtr
          directCacheIntermediatePtrs := bound.directCacheIntermediatePtrs }) slot call.input tokenInside within
      rw [Pointer.cell, Nat.zero_add] at copiedInput
      exact copiedInput
    · intro index place row inside column within doUp
      exact (cells place inside).1 column within doUp
    · intro index place row inside column within
      exact (cells place inside).2.1 column within
    · intro index place row inside column within
      exact (cells place inside).2.2 column within

/-- The pointers name the local arrays. -/
structure InLocal (state : State V Q O) : Prop where
  distinct : state.tables.expertIdMap.Nodup
  placed : Placed state.tables
  gateUp : ∀ doUp expert, state.gateUpPtr doUp expert = ⟨.localGateUp doUp, state.tables.outputRow expert⟩
  down : ∀ expert, state.downPtr expert = ⟨.localDown, state.tables.outputRow expert⟩

theorem spread_local {tables : Tables} {pointers : Nat → Pointer} (placed : Placed tables)
    (located : ∀ expert, pointers expert = ⟨region, tables.outputRow expert⟩) : Spread tables pointers := by
  intro expert member other otherMember cell holds otherHolds
  by_contra different
  have apart := placed expert member other otherMember different
  rw [located] at holds otherHolds
  simp only [Pointer.Holds] at holds otherHolds
  unfold Apart at apart
  omega

omit [Zero V] in
theorem InLocal.bound (inLocal : InLocal state) : Bound state where
  distinct := inLocal.distinct
  gateUp := fun doUp => spread_local inLocal.placed (inLocal.gateUp doUp)
  down := spread_local inLocal.placed inLocal.down
  regions := by
    intro expert _ other _
    rw [inLocal.gateUp, inLocal.gateUp]
    simp

omit [Zero V] in
/-- In the local arrays, whatever the copies into the cache did in between. -/
theorem local_intermediate {between : State V Q O} (inLocal : InLocal state)
    (tables : between.tables = state.tables) (pointers : between.gateUpPtr = state.gateUpPtr)
    (same : ∀ cell, (∀ slot tensor, cell.region ≠ .cache slot tensor) →
      between.cells cell = (gateUp config kernels schedule state).cells cell)
    (member : expert ∈ state.tables.expertIdMap) (inside : row < state.tables.localNum expert)
    (within : column < config.intermediateSize) :
    (activate config kernels schedule (between.gateUpPtr false) between).cells
        ((state.gateUpPtr false expert).cell row column) = intermediateValue kernels state expert row column := by
  have bound := inLocal.bound
  have local_ (doUp : Bool) : between.cells ((state.gateUpPtr doUp expert).cell row column) =
      gateUpValue kernels state doUp expert row column := by
    rw [same, gateUp_cell bound member inside within]
    · rfl
    · intro slot tensor
      rw [inLocal.gateUp]
      exact nofun
  have written : (activate config kernels schedule (between.gateUpPtr false) between).cells
      ((between.gateUpPtr false expert).cell row column) =
        kernels.actFn (between.cells ((between.gateUpPtr false expert).cell row column))
          (between.cells ((between.gateUpPtr true expert).cell row column)) := by
    apply activate_cell
    · rw [tables]
      exact inLocal.distinct
    · rw [tables, pointers]
      exact bound.gateUp false
    · rw [tables]
      exact member
    · rw [tables]
      exact inside
    · exact within
  rw [pointers, local_, local_] at written
  rw [pointers]
  exact written

theorem plainPass_finished (inLocal : InLocal state) :
    Finished config kernels state (plainPass config kernels schedule state) := by
  refine ⟨rfl, ?_⟩
  intro expert member row inside column within
  refine down_of_intermediate inLocal.distinct inLocal.bound.down member inside ?_ within
  intro gateColumn gateWithin
  have cell : (activate config kernels schedule ((gateUp config kernels schedule state).gateUpPtr false)
      (gateUp config kernels schedule state)).cells ((state.gateUpPtr false expert).cell row gateColumn) =
        intermediateValue kernels state expert row gateColumn :=
    local_intermediate inLocal rfl rfl (fun _ _ => rfl) member inside gateWithin
  exact cell

theorem savingPass_result (inLocal : InLocal state) (call : Call V O) :
    Finished config kernels state (savingPass config kernels schedule call state) ∧
      Cached config kernels state call (openEntry config state).2 (savingPass config kernels schedule call state) := by
  have bound := inLocal.bound
  have opened := openEntry_shape config (gateUp config kernels schedule state)
  have sameSlot : (openEntry config (gateUp config kernels schedule state)).2 = (openEntry config state).2 :=
    openEntry_slot rfl
  simp only [savingPass]
  rw [opened, sameSlot]
  generalize (openEntry config state).2 = slot
  let products := gateUp config kernels schedule state
  let saved := saveToCache config schedule call.seed call.qlen call.k call.expertIds call.weights call.input slot
    { products with cacheStackTop := slot + 1 }
  let activated := activate config kernels schedule (saved.gateUpPtr false) saved
  let kept := saveIntermediateToCache config schedule slot activated
  let finished := down config kernels schedule (packIntermediate config kernels kept)
  let final := saveDownOutputToCache config schedule slot finished
  change Finished config kernels state final ∧ Cached config kernels state call slot final
  have savedKept (cell : Cell) (elsewhere : ∀ slot tensor, cell.region ≠ .cache slot tensor) :
      saved.cells cell = products.cells cell :=
    saveJob_kept slot call.qlen call.input (elsewhere slot)
  have activatedKept {cell : Cell} (elsewhere : cell.region ≠ .localGateUp false) :
      activated.cells cell = saved.cells cell := by
    apply activate_kept
    intro expert _
    change cell.region ≠ (state.gateUpPtr false expert).region
    rw [inLocal.gateUp]
    exact elsewhere
  have keptKept {cell : Cell} (elsewhere : cell.region ≠ .cache slot .intermediate) :
      kept.cells cell = activated.cells cell := copyJob_kept slot _ _ _ _ elsewhere
  have finishedKept {cell : Cell} (elsewhere : cell.region ≠ .localDown) : finished.cells cell = kept.cells cell := by
    apply down_kept
    intro expert _
    change cell.region ≠ (state.downPtr expert).region
    rw [inLocal.down]
    exact elsewhere
  have finalKept {cell : Cell} (elsewhere : cell.region ≠ .cache slot .down) :
      final.cells cell = finished.cells cell := copyJob_kept slot _ _ _ _ elsewhere
  have intermediateCell {expert row column : Nat} (member : expert ∈ state.tables.expertIdMap)
      (inside : row < state.tables.localNum expert) (within : column < config.intermediateSize) :
      activated.cells ((state.gateUpPtr false expert).cell row column) =
        intermediateValue kernels state expert row column :=
    local_intermediate inLocal rfl rfl savedKept member inside within
  have downCell {expert row column : Nat} (member : expert ∈ state.tables.expertIdMap)
      (inside : row < state.tables.localNum expert) (within : column < config.hiddenSize) :
      finished.cells ((state.downPtr expert).cell row column) = downValue config kernels state expert row column := by
    refine down_of_intermediate inLocal.distinct bound.down member inside ?_ within
    intro gateColumn gateWithin
    change kept.cells ((state.gateUpPtr false expert).cell row gateColumn) = _
    rw [keptKept]
    · exact intermediateCell member inside gateWithin
    · rw [inLocal.gateUp]
      exact nofun
  have member {index : Nat} (place : index < state.tables.expertIdMap.length) :
      state.tables.expertIdMap.getD index 0 ∈ state.tables.expertIdMap := by
    rw [List.getD_eq_getElem _ _ place]
    exact List.getElem_mem place
  constructor
  · refine ⟨rfl, ?_⟩
    intro expert expertMember row inside column within
    change final.cells ((state.downPtr expert).cell row column) = _
    rw [finalKept]
    · exact downCell expertMember inside within
    · rw [inLocal.down]
      exact nofun
  · refine ⟨?_, ?_, ?_, ?_, rfl, rfl, rfl⟩
    · intro token tokenInside column within
      rw [finalKept (by simp), finishedKept (by simp), keptKept (by simp), activatedKept (by simp)]
      have savedInput : saved.cells ((Pointer.mk (.cache slot .input) 0).cell token column) = _ :=
        saveJob_input slot call.input tokenInside within
      rw [Pointer.cell, Nat.zero_add] at savedInput
      exact savedInput
    · intro index place row inside column within doUp
      rw [finalKept (by cases doUp <;> simp), finishedKept (by simp), keptKept (by cases doUp <;> simp),
        activatedKept (by simp)]
      have copied : saved.cells ((Pointer.mk (.cache slot (if doUp then .up else .gate))
          (cacheOffset state.tables index)).cell row column) =
            products.cells ((state.gateUpPtr doUp (state.tables.expertIdMap.getD index 0)).cell row column) :=
        saveJob_gateUp { products with cacheStackTop := slot + 1 } slot call.qlen call.input place inside within doUp
      exact copied.trans (gateUp_cell bound (member place) inside within doUp)
    · intro index place row inside column within
      rw [finalKept (by simp), finishedKept (by simp)]
      have copied : kept.cells ((Pointer.mk (.cache slot .intermediate)
          (cacheOffset state.tables index)).cell row column) =
            activated.cells ((state.gateUpPtr false (state.tables.expertIdMap.getD index 0)).cell row column) :=
        copyJob_cell activated place inside within slot .intermediate _ 6
      exact copied.trans (intermediateCell (member place) inside within)
    · intro index place row inside column within
      have copied : final.cells ((Pointer.mk (.cache slot .down)
          (cacheOffset state.tables index)).cell row column) =
            finished.cells ((state.downPtr (state.tables.expertIdMap.getD index 0)).cell row column) :=
        copyJob_cell finished place inside within slot .down _ 7
      exact copied.trans (downCell (member place) inside within)

end

end KtKernel.Sft.Forward
