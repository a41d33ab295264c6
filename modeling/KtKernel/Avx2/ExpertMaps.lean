import KtKernel.Avx2.NativeSlots

namespace KtKernel.Avx2

open KtKernel.Data
open KtKernel.Amx.ExpertFiles (Mat)

/-! The expert map of a native load: which logical expert is in a slot. -/

/-- A load that is accepted, with a permutation of the experts. -/
structure Load where
  backend : Backend
  config : Config
  map : Nat → Nat
  pools : 0 < config.tpCount
  given : config.physicalToLogicalMap = some map
  permutes : Set.BijOn map (Set.Iio config.expertNum) (Set.Iio config.expertNum)
  accepted : backend.accepts config = .ok ()

namespace Load

/-- The logical expert whose slice the load puts into a slot.  The four backends that
stage by logical expert and do not hand the map on place every expert under its own
number, and the flat mode of MXFP4 goes through the map twice. -/
def chosen (load : Load) (slot : Nat) : Nat :=
  match load.backend, load.config.form with
  | .rawInt4, _ => load.map slot
  | .mxfp4, .perExpert => load.map slot
  | .mxfp4, .flat => load.map (load.map slot)
  | _, _ => slot

/-- The slot holds the part's slice of an expert: for every intermediate channel of the
part the cell of that channel, and the channel at its place in the cell. -/
def HoldsSlice (load : Load) (source : Origin × Nat → Cell) (part : Nat) (buffers : Buffers) (slot expert : Nat) : Prop :=
  ∀ table ∈ load.backend.tables, ∀ channel < load.config.partSize,
    ∀ other < (load.backend.grid load.config table).across,
      let grid := load.backend.grid load.config table
      let size := load.config.partSize
      channel / grid.channels < grid.count size ∧
        (grid.packed = true → (part * size + channel) % grid.channels = channel % grid.channels) ∧
        buffers.read source ⟨table, slot⟩ (grid.place size (channel / grid.channels) other) =
          load.backend.convert table.kind (source (load.backend.address load.config table expert
            (grid.place load.config.intermediateSize ((part * size + channel) / grid.channels) other)))

/-- Every slot that is not a GPU expert's holds the part's slice of the expert that the
map names. -/
def Honours (load : Load) : Prop :=
  ∀ source part buffers, part < load.config.tpCount → Loaded load.backend load.config source part buffers →
    ∀ slot < load.config.expertNum, load.config.shouldSkipExpert slot = false →
      load.HoldsSlice source part buffers slot (load.map slot)

/-- The slices of the parts begin at whole cells. -/
def Aligned (load : Load) : Prop :=
  match load.backend with
  | .fp8 => load.config.tpCount = 1 ∨ load.config.groupSize ∣ load.config.partSize
  | .gptqInt4 => 8 ∣ load.config.partSize ∧ load.config.groupSize ∣ load.config.partSize
  | _ => True

variable {load : Load} {table : Table} {part index unit other : Nat}

/-! ## What an accepted load has checked -/

theorem constructed (load : Load) : load.backend.construct load.config = .ok () := by
  have accepted := load.accepted
  rw [Backend.accepts] at accepted
  cases made : load.backend.construct load.config with
  | error reason =>
      rw [made] at accepted
      contradiction
  | ok done => rfl

theorem checked (load : Load) : load.backend.loadChecks load.config = .ok () := by
  have accepted := load.accepted
  rw [Backend.accepts, load.constructed] at accepted
  exact accepted

theorem divides (load : Load) : load.config.tpCount * load.config.partSize = load.config.intermediateSize := by
  have constructed := load.constructed
  rw [Backend.construct] at constructed
  split at constructed
  · contradiction
  · next even => exact Nat.mul_div_cancel' (Nat.dvd_of_mod_eq_zero (not_not.mp even))

theorem partConstructed (load : Load) : load.backend.constructPart load.config = .ok () := by
  have constructed := load.constructed
  rw [Backend.construct] at constructed
  split at constructed
  · contradiction
  · split at constructed
    · contradiction
    · next same => exact same

theorem bind_ok {ε α β : Type} {first : Except ε α} {next : α → Except ε β} {result : β} (ok : first >>= next = .ok result) :
    ∃ value, first = .ok value ∧ next value = .ok result := by
  cases first with
  | error reason => contradiction
  | ok value => exact ⟨value, rfl, ok⟩

theorem initialized (load : Load) : load.backend.derivedInit load.config = .ok () := by
  have part := load.partConstructed
  rw [Backend.constructPart] at part
  split at part
  · obtain ⟨_, _, sliced⟩ := bind_ok part
    obtain ⟨_, _, initialized⟩ := bind_ok sliced
    exact initialized
  · exact part

theorem buffersMade (load : Load) (some_ : load.config.expertNum ≠ 0) :
    load.backend.makeBufferB load.config load.config.hiddenSize = .ok () ∧
      load.backend.makeBufferB load.config load.config.partSize = .ok () := by
  have part := load.partConstructed
  rw [Backend.constructPart, if_pos some_] at part
  obtain ⟨_, hidden, sliced⟩ := bind_ok part
  obtain ⟨_, made, _⟩ := bind_ok sliced
  exact ⟨hidden, made⟩

theorem groups (load : Load) (quantized : load.backend ≠ .bf16) : 0 < load.config.groupSize := by
  have initialized := load.initialized
  apply Nat.pos_of_ne_zero
  intro none
  cases backend : load.backend <;> simp [backend, Backend.derivedInit, none] at initialized quantized

theorem whole_of_made {backend : Backend} {config : Config} {k : Nat} (packed : backend = .rawInt4 ∨ backend = .mxfp4)
    (made : backend.makeBufferB config k = .ok ()) : config.groupSize ∣ k ∧ 8 ∣ k := by
  have steps : k % config.groupSize = 0 ∧ k % 8 = 0 := by
    rcases packed with rfl | rfl
    · rw [Backend.makeBufferB] at made
      split at made
      · contradiction
      · omega
    · rw [Backend.makeBufferB] at made
      split at made
      · contradiction
      · omega
  exact ⟨Nat.dvd_of_mod_eq_zero steps.1, Nat.dvd_of_mod_eq_zero steps.2⟩

theorem nibbles (load : Load) (some_ : load.config.expertNum ≠ 0)
    (packed : load.backend = .rawInt4 ∨ load.backend = .mxfp4) :
    load.config.groupSize ∣ load.config.partSize ∧ 8 ∣ load.config.partSize :=
  whole_of_made packed (load.buffersMade some_).2

theorem exponents (load : Load) (bytes : load.backend = .mxfp8) : load.config.groupSize ∣ load.config.partSize := by
  have initialized := load.initialized
  rw [bytes, Backend.derivedInit] at initialized
  split at initialized
  · contradiction
  · split at initialized
    · contradiction
    · apply Nat.dvd_of_mod_eq_zero
      omega

theorem onePool (load : Load) (pointers : load.backend = .rawInt4) (form : load.config.form = .perExpert) :
    load.config.tpCount = 1 := by
  have checked := load.checked
  have pools := load.pools
  simp only [pointers, form, Backend.loadChecks] at checked
  split at checked
  · contradiction
  · omega

/-! ## The channels of a part -/

/-- The cells of a part are the cells of its channels. -/
structure Regular (grid : Grid) (size part : Nat) : Prop where
  stored : ∀ channel < size, channel / grid.channels < grid.count size
  inPlace : grid.packed = true → ∀ channel < size, (part * size + channel) % grid.channels = channel % grid.channels
  moved : ∀ channel < size, grid.start size part + channel / grid.channels = (part * size + channel) / grid.channels

theorem regular_whole {grid : Grid} {size part : Nat} (positive : 0 < grid.channels) (whole : grid.channels ∣ size)
    (count : size / grid.channels ≤ grid.count size) (start : grid.start size part = part * (size / grid.channels)) :
    Regular grid size part := by
  obtain ⟨units, same⟩ := whole
  have quotient : size / grid.channels = units := by rw [same, Nat.mul_div_cancel_left _ positive]
  have offset : part * size = grid.channels * (part * units) := by rw [same, Nat.mul_left_comm]
  rw [quotient] at count start
  constructor
  · intro channel inside
    apply Nat.lt_of_lt_of_le _ count
    apply Nat.div_lt_of_lt_mul
    rwa [← same]
  · intro _ channel _
    rw [offset, Nat.mul_add_mod]
  · intro channel _
    rw [start, offset, Nat.mul_add_div positive]

theorem divUp_of_dvd {count size : Nat} (positive : 0 < size) (whole : size ∣ count) : divUp count size = count / size := by
  obtain ⟨blocks, rfl⟩ := whole
  rw [divUp, Nat.mul_div_cancel_left _ positive, Nat.add_sub_assoc positive, Nat.mul_add_div positive,
    Nat.div_eq_of_lt (Nat.sub_one_lt (Nat.ne_of_gt positive)), Nat.add_zero]

theorem regular_one {grid : Grid} {size : Nat} (part : Nat) (one : grid.channels = 1) (count : grid.count size = size)
    (start : grid.start size part = part * size) : Regular grid size part := by
  apply regular_whole
  · rw [one]
    exact Nat.one_pos
  · rw [one]
    exact Nat.one_dvd size
  · rw [one, Nat.div_one, count]
  · rw [one, Nat.div_one, start]

/-- Weights with a cell for every channel. -/
theorem regular_bf16 (config : Config) (table : Table) (part : Nat) :
    Regular (bf16Grid config table) config.partSize part :=
  regular_one part rfl rfl rfl

theorem regular_fp8 (load : Load) (backend : load.backend = .fp8) (aligned : load.Aligned)
    (inParts : part < load.config.tpCount) (table : Table) :
    Regular (fp8Grid load.config table) load.config.partSize part := by
  obtain ⟨mat, kind⟩ := table
  have positive : 0 < load.config.groupSize := by
    apply load.groups
    rw [backend]
    decide
  rw [Aligned, backend] at aligned
  cases kind with
  | weight => exact regular_bf16 load.config ⟨mat, .weight⟩ part
  | scale =>
      rcases aligned with one | whole
      · obtain rfl : part = 0 := by omega
        have stored : ∀ channel < load.config.partSize,
            channel / load.config.groupSize < divUp load.config.partSize load.config.groupSize := by
          intro channel inside
          apply Nat.div_lt_of_lt_mul
          rw [Nat.mul_comm]
          exact inside.trans_le (le_divUp_mul _ positive)
        cases mat with
        | down => exact ⟨stored, by simp [fp8Grid], by simp [fp8Grid]⟩
        | gate => exact ⟨stored, by simp [fp8Grid], by simp [fp8Grid]⟩
        | up => exact ⟨stored, by simp [fp8Grid], by simp [fp8Grid]⟩
      · have blocks := divUp_of_dvd positive whole
        cases mat with
        | down => exact regular_whole positive whole (Nat.le_of_eq blocks.symm) (Nat.mul_div_assoc _ whole)
        | gate => exact regular_whole positive whole (Nat.le_of_eq blocks.symm) (congrArg _ blocks)
        | up => exact regular_whole positive whole (Nat.le_of_eq blocks.symm) (congrArg _ blocks)

theorem regular_mxfp8 (load : Load) (backend : load.backend = .mxfp8) (part : Nat) (table : Table) :
    Regular (mxfp8Grid load.config table) load.config.partSize part := by
  obtain ⟨mat, kind⟩ := table
  have positive : 0 < load.config.groupSize := by
    apply load.groups
    rw [backend]
    decide
  have whole := load.exponents backend
  cases kind with
  | weight => exact regular_bf16 load.config ⟨mat, .weight⟩ part
  | scale =>
      cases mat with
      | down => exact regular_whole positive whole (Nat.le_refl _) (Nat.mul_div_assoc _ whole)
      | gate => exact regular_one part rfl rfl rfl
      | up => exact regular_one part rfl rfl rfl

theorem regular_gptqInt4 (load : Load) (backend : load.backend = .gptqInt4) (aligned : load.Aligned) (part : Nat)
    (table : Table) : Regular (gptqInt4Grid load.config table) load.config.partSize part := by
  obtain ⟨mat, kind⟩ := table
  have positive : 0 < load.config.groupSize := by
    apply load.groups
    rw [backend]
    decide
  rw [Aligned, backend] at aligned
  obtain ⟨words, whole⟩ := aligned
  cases mat with
  | down =>
      cases kind with
      | weight => exact regular_whole (show 0 < 8 by decide) words (Nat.le_refl _) rfl
      | scale => exact regular_whole positive whole (Nat.le_refl _) rfl
  | gate => exact regular_one part rfl rfl rfl
  | up => exact regular_one part rfl rfl rfl

theorem regular_rawInt4 (load : Load) (some_ : load.config.expertNum ≠ 0)
    (packed : load.backend = .rawInt4 ∨ load.backend = .mxfp4) (part : Nat) (table : Table) :
    Regular (rawInt4Grid load.config table) load.config.partSize part := by
  obtain ⟨mat, kind⟩ := table
  have positive : 0 < load.config.groupSize := by
    apply load.groups
    rcases packed with same | same
    · rw [same]
      decide
    · rw [same]
      decide
  obtain ⟨whole, bytes⟩ := load.nibbles some_ packed
  cases mat with
  | down =>
      cases kind with
      | weight =>
          exact regular_whole (show 0 < 2 by decide) (Nat.dvd_trans (show 2 ∣ 8 by decide) bytes) (Nat.le_refl _) rfl
      | scale => exact regular_whole positive whole (Nat.le_refl _) rfl
  | gate => exact regular_one part rfl rfl rfl
  | up => exact regular_one part rfl rfl rfl

theorem regular (load : Load) (some_ : load.config.expertNum ≠ 0) (aligned : load.Aligned)
    (inParts : part < load.config.tpCount) (table : Table) :
    Regular (load.backend.grid load.config table) load.config.partSize part := by
  cases backend : load.backend with
  | bf16 => exact regular_bf16 load.config table part
  | fp8 => exact load.regular_fp8 backend aligned inParts table
  | mxfp8 => exact load.regular_mxfp8 backend part table
  | gptqInt4 => exact load.regular_gptqInt4 backend aligned part table
  | rawInt4 => exact load.regular_rawInt4 some_ (.inl backend) part table
  | mxfp4 => exact load.regular_rawInt4 some_ (.inr backend) part table

/-! ## The expert of a slot -/

theorem map_lt (load : Load) (inSlots : index < load.config.expertNum) : load.map index < load.config.expertNum :=
  load.permutes.mapsTo inSlots

theorem staging_task (load : Load) (inSlots : index < load.config.expertNum)
    (staged : load.config.form = .flat ∨ (load.backend ≠ .rawInt4 ∧ load.backend ≠ .mxfp4)) :
    ∃ task < load.config.expertNum,
      load.backend.stagePlace load.config task = expertMap (load.backend.partMap load.config) index ∧
        expertMap load.config.physicalToLogicalMap task = load.chosen index := by
  have byNumber : ∃ task < load.config.expertNum, load.map task = index := load.permutes.surjOn inSlots
  rw [chosen]
  simp only [load.given]
  cases backend : load.backend with
  | rawInt4 => exact ⟨index, inSlots, by simp [Backend.stagePlace, Backend.partMap], rfl⟩
  | mxfp4 =>
      have flat : load.config.form = .flat := by
        rcases staged with flat | other
        · exact flat
        · exact absurd backend other.2
      rw [flat]
      exact ⟨load.map index, load.map_lt inSlots, by simp [Backend.stagePlace, Backend.partMap, load.given, expertMap], rfl⟩
  | bf16 => simpa [Backend.stagePlace, Backend.partMap, load.given, expertMap] using byNumber
  | fp8 => simpa [Backend.stagePlace, Backend.partMap, load.given, expertMap] using byNumber
  | mxfp8 => simpa [Backend.stagePlace, Backend.partMap, load.given, expertMap] using byNumber
  | gptqInt4 => simpa [Backend.stagePlace, Backend.partMap, load.given, expertMap] using byNumber

def Filled (load : Load) (slot : Nat) : Prop :=
  match load.backend, load.config.form with
  | .rawInt4, .flat => load.config.shouldSkipExpert slot = false
  | .mxfp4, _ => load.config.shouldSkipExpert slot = false
  | _, _ => True

theorem filled_of_cpu (cpu : load.config.shouldSkipExpert index = false) : load.Filled index := by
  rw [Filled]
  split
  · exact cpu
  · exact cpu
  · trivial

theorem skips_eq_false_iff (staged : load.config.form = .flat ∨ (load.backend ≠ .rawInt4 ∧ load.backend ≠ .mxfp4)) :
    load.backend.skips load.config index = false ↔ load.Filled index := by
  rw [Filled]
  cases backend : load.backend with
  | rawInt4 =>
      have flat : load.config.form = .flat := staged.resolve_right fun other => other.1 backend
      simp only [flat, Backend.skips]
  | mxfp4 => rfl
  | bf16 => simp [Backend.skips]
  | fp8 => simp [Backend.skips]
  | mxfp8 => simp [Backend.skips]
  | gptqInt4 => simp [Backend.skips]

theorem address_table (backend : Backend) (config : Config) (table : Table) (expert offset : Nat) :
    (backend.address config table expert offset).1.table = table := by
  rw [Backend.address]
  split
  · rfl
  · rfl

theorem start_zero (backend : Backend) (config : Config) (table : Table) (size : Nat) :
    (backend.grid config table).start size 0 = 0 := by
  obtain ⟨mat, kind⟩ := table
  cases backend <;> cases mat <;> cases kind <;>
    simp [Backend.grid, bf16Grid, fp8Grid, mxfp8Grid, gptqInt4Grid, rawInt4Grid]

/-- What a slot holds: the slice of the chosen expert, as the copies cut it out. -/
theorem slot_reads (load : Load) {source : Origin × Nat → Cell} {buffers : Buffers}
    (inParts : part < load.config.tpCount) (loaded : Loaded load.backend load.config source part buffers)
    (inSlots : index < load.config.expertNum) (filled : load.Filled index) (inTables : table ∈ load.backend.tables)
    (inCount : unit < (load.backend.grid load.config table).count load.config.partSize)
    (inAcross : other < (load.backend.grid load.config table).across) :
    buffers.read source ⟨table, index⟩ ((load.backend.grid load.config table).place load.config.partSize unit other) =
      load.backend.convert table.kind (source (load.backend.address load.config table (load.chosen index)
        ((load.backend.grid load.config table).place load.config.intermediateSize
          ((load.backend.grid load.config table).start load.config.partSize part + unit) other))) := by
  have inside := Grid.place_lt inCount inAcross
  cases loaded with
  | staged form stages loads =>
      obtain ⟨task, inTasks, place, expert⟩ := load.staging_task inSlots form
      have loadsCell := (Backend.loadMoves_fetches inTables inSlots ((skips_eq_false_iff form).mpr filled)
        (fun blocks => load.groups (by rw [blocks]; decide)) inside).performed loads
      have stagesCell := (Backend.stageMoves_fetches part inTasks inTables inCount inAcross).performed stages
      rw [place, expert] at stagesCell
      rw [stagesCell] at loadsCell
      exact loadsCell
  | direct only form loads =>
      have cpu : load.config.shouldSkipExpert index = false := by
        rw [Filled, only] at filled
        exact filled
      have loadsCell := (Backend.directMoves_fetches part inTables inSlots cpu inCount inAcross).performed loads
      have expert : expertMap load.config.physicalToLogicalMap index = load.chosen index := by
        rw [chosen, only, form, load.given]
        rfl
      rw [expert] at loadsCell
      rw [address_table] at loadsCell
      exact loadsCell
  | pointed only form loads =>
      have one := load.onePool only form
      obtain rfl : part = 0 := by omega
      have whole : load.config.partSize = load.config.intermediateSize := by
        rw [← load.divides, one, Nat.one_mul]
      have expert : expertMap load.config.physicalToLogicalMap index = load.chosen index := by
        rw [chosen, only, load.given]
        rfl
      rw [start_zero, Nat.zero_add, ← whole]
      obtain ⟨mat, kind⟩ := table
      cases kind with
      | scale =>
          have loadsCell := (Backend.scaleMoves_fetches mat inSlots inside).performed loads
          rw [expert, address_table] at loadsCell
          exact loadsCell
      | weight =>
          have pointer : load.backend.weightPointer load.config 0 ⟨⟨mat, .weight⟩, index⟩ =
              load.backend.address load.config ⟨mat, .weight⟩ (load.chosen index) 0 := by
            rw [← expert]
            cases mat <;> simp [Backend.weightPointer]
          rw [Buffers.read]
          simp only [inSlots, and_self, if_true, pointer]
          rw [only]
          exact congrArg source (Backend.address_add .rawInt4 load.config ⟨mat, .weight⟩ _ _).symm

/-- Where the map is honoured. -/
def Faithful (load : Load) : Prop :=
  load.config.hiddenSize = 0 ∨ load.config.partSize = 0 ∨
    ∀ slot < load.config.expertNum, load.config.shouldSkipExpert slot = false →
      load.chosen slot = load.map slot ∧ load.Aligned

theorem across_zero (load : Load) (empty : load.config.hiddenSize = 0) (table : Table) :
    (load.backend.grid load.config table).across = 0 := by
  obtain ⟨mat, kind⟩ := table
  have groups := load.groups
  cases backend : load.backend with
  | fp8 =>
      have positive : 0 < load.config.groupSize := groups (by rw [backend]; decide)
      have none : divUp 0 load.config.groupSize = 0 := by
        rw [divUp, Nat.zero_add]
        exact Nat.div_eq_of_lt (Nat.sub_one_lt (Nat.ne_of_gt positive))
      cases kind <;> cases mat <;> simp [Backend.grid, fp8Grid, bf16Grid, empty, none]
  | bf16 => exact empty
  | mxfp8 => cases kind <;> cases mat <;> simp [Backend.grid, mxfp8Grid, bf16Grid, empty]
  | gptqInt4 => cases kind <;> cases mat <;> simp [Backend.grid, gptqInt4Grid, empty]
  | rawInt4 => cases kind <;> cases mat <;> simp [Backend.grid, rawInt4Grid, empty]
  | mxfp4 => cases kind <;> cases mat <;> simp [Backend.grid, rawInt4Grid, empty]

theorem honours_of_faithful (load : Load) (faithful : load.Faithful) : load.Honours := by
  intro source part buffers inParts loaded slot inSlots cpu table inTables channel inChannels other inAcross
  have some_ : load.config.expertNum ≠ 0 := Nat.ne_of_gt (Nat.zero_lt_of_lt inSlots)
  rcases faithful with hidden | size | faithful
  · rw [load.across_zero hidden] at inAcross
    contradiction
  · rw [size] at inChannels
    contradiction
  · obtain ⟨same, aligned⟩ := faithful slot inSlots cpu
    have regular := load.regular some_ aligned inParts table
    have inCount := regular.stored channel inChannels
    refine ⟨inCount, fun packed => regular.inPlace packed channel inChannels, ?_⟩
    rw [load.slot_reads inParts loaded inSlots (filled_of_cpu cpu) inTables inCount inAcross, regular.moved channel inChannels, same]

/-! ## Where the map is not honoured -/

theorem exists_loaded (load : Load) (source : Origin × Nat → Cell) (part : Nat) :
    ∃ buffers, Loaded load.backend load.config source part buffers := by
  have blank : Slot × Nat → Cell := fun _ => 0
  by_cases staged : load.config.form = .flat ∨ (load.backend ≠ .rawInt4 ∧ load.backend ≠ .mxfp4)
  · exact ⟨_, .staged staged (Move.performed_inOrder _ _ fun _ => 0) (Move.performed_inOrder _ _ blank)⟩
  · have form : load.config.form = .perExpert := by
      cases form : load.config.form with
      | perExpert => rfl
      | flat => exact absurd (.inl form) staged
    by_cases pointers : load.backend = .rawInt4
    · exact ⟨_, .pointed pointers form (Move.performed_inOrder _ _ blank)⟩
    · have copies : load.backend = .mxfp4 := by
        by_contra other
        exact staged (.inr ⟨pointers, other⟩)
      exact ⟨_, .direct copies form (Move.performed_inOrder _ _ blank)⟩

/-- A slot that the load does not fill holds what it held before. -/
theorem exists_unfilled (load : Load) (unfilled : ¬load.Filled index) (source : Origin × Nat → Cell) (part : Nat)
    (value : Cell) : ∃ buffers, Loaded load.backend load.config source part buffers ∧
      ∀ table offset, buffers.read source ⟨table, index⟩ offset = value := by
  by_cases staged : load.config.form = .flat ∨ (load.backend ≠ .rawInt4 ∧ load.backend ≠ .mxfp4)
  · refine ⟨_, .staged staged (Move.performed_inOrder _ _ fun _ => 0) (Move.performed_inOrder _ _ fun _ => value), ?_⟩
    intro table offset
    apply Move.performed_uncovered _ (Move.performed_inOrder _ _ fun _ => value)
    intro move member covers
    obtain ⟨table', _, inTable⟩ := List.mem_flatMap.mp member
    obtain ⟨task, _, inTask⟩ := List.mem_flatMap.mp inTable
    simp only at inTask
    split at inTask
    · contradiction
    · next filled =>
        have region := (Backend.fromMat_origin inTask covers).1
        have same : task / load.backend.recommendedNth (Backend.outputs load.config table'.mat) = index :=
          congrArg Slot.index region
        rw [same, Bool.not_eq_true] at filled
        exact unfilled ((skips_eq_false_iff staged).mp filled)
  · have form : load.config.form = .perExpert := by
      cases form : load.config.form with
      | perExpert => rfl
      | flat => exact absurd (.inl form) staged
    have copies : load.backend = .mxfp4 := by
      by_contra other
      apply unfilled
      unfold Filled
      cases backend : load.backend <;> simp [form]
      exact absurd backend other
    refine ⟨_, .direct copies form (Move.performed_inOrder _ _ fun _ => value), ?_⟩
    intro table offset
    apply Move.performed_uncovered _ (Move.performed_inOrder _ _ fun _ => value)
    intro move member covers
    obtain ⟨slot, _, inSlot⟩ := List.mem_flatMap.mp member
    split at inSlot
    · contradiction
    · next filled =>
        obtain ⟨table', _, inTable⟩ := List.mem_flatMap.mp inSlot
        have region := (Grid.slice_within inTable covers).1
        have same : slot = index := congrArg Slot.index region
        rw [same, Bool.not_eq_true] at filled
        exact unfilled (filled_of_cpu filled)

/-- A source with one cell that is not zero. -/
def marked (place : Origin × Nat) : Origin × Nat → Cell :=
  fun cell => if cell = place then 1 else 0

theorem convert_marked (backend : Backend) (kind : Kind) {place cell : Origin × Nat}
    (same : backend.convert kind (marked place cell) = backend.convert kind (marked place place)) : cell = place := by
  by_contra different
  rw [marked, if_neg different, marked, if_pos rfl] at same
  cases backend <;> cases kind <;> exact absurd same (by decide)

/-- Where a slot holds the slice, the copies took it from the right address. -/
theorem address_of_honours (load : Load) (honours : load.Honours) (inParts : part < load.config.tpCount)
    (inSlots : index < load.config.expertNum) (cpu : load.config.shouldSkipExpert index = false)
    (inTables : table ∈ load.backend.tables) {channel : Nat} (inChannels : channel < load.config.partSize)
    (inAcross : other < (load.backend.grid load.config table).across) :
    let grid := load.backend.grid load.config table
    channel / grid.channels < grid.count load.config.partSize ∧
      load.backend.address load.config table (load.chosen index)
          (grid.place load.config.intermediateSize
            (grid.start load.config.partSize part + channel / grid.channels) other) =
        load.backend.address load.config table (load.map index)
          (grid.place load.config.intermediateSize ((part * load.config.partSize + channel) / grid.channels) other) := by
  intro grid
  obtain ⟨buffers, loaded⟩ := load.exists_loaded (marked (load.backend.address load.config table (load.map index)
    (grid.place load.config.intermediateSize ((part * load.config.partSize + channel) / grid.channels) other))) part
  obtain ⟨inCount, -, held⟩ := honours _ part buffers inParts loaded index inSlots cpu table inTables channel inChannels
    other inAcross
  rw [load.slot_reads inParts loaded inSlots (filled_of_cpu cpu) inTables inCount inAcross] at held
  exact ⟨inCount, convert_marked _ _ held⟩

theorem mem_down (backend : Backend) : (⟨.down, .weight⟩ : Table) ∈ backend.tables := by
  cases backend <;> decide

theorem across_down (backend : Backend) (config : Config) :
    (backend.grid config ⟨.down, .weight⟩).across = config.hiddenSize := by
  cases backend <;> rfl

theorem count_mono (backend : Backend) (config : Config) {size full : Nat} (le : size ≤ full) :
    (backend.grid config ⟨.down, .weight⟩).count size ≤ (backend.grid config ⟨.down, .weight⟩).count full := by
  cases backend with
  | gptqInt4 => exact Nat.div_le_div_right le
  | rawInt4 => exact Nat.div_le_div_right le
  | mxfp4 => exact Nat.div_le_div_right le
  | bf16 => exact le
  | fp8 => exact le
  | mxfp8 => exact le

theorem dvd_of_last {size unit : Nat} (positive : 0 < unit) (some_ : 0 < size) (last : (size - 1) / unit < size / unit) :
    unit ∣ size := by
  have whole := Nat.div_add_mod' size unit
  have small := Nat.mod_lt size positive
  by_contra rest
  have more : 0 < size % unit := Nat.pos_of_ne_zero fun none => rest (Nat.dvd_of_mod_eq_zero none)
  have same : size / unit * unit ≤ size - 1 := by omega
  have least := (Nat.le_div_iff_mul_le positive).mpr same
  omega

/-- The block rows of gate are counted from a whole number of blocks. -/
theorem blocks_of_honours (load : Load) (honours : load.Honours) (backend : load.backend = .fp8)
    (inSlots : index < load.config.expertNum) (cpu : load.config.shouldSkipExpert index = false)
    (expert : load.chosen index = load.map index) (someHidden : 0 < load.config.hiddenSize)
    (someSize : 0 < load.config.partSize) : load.config.tpCount = 1 ∨ load.config.groupSize ∣ load.config.partSize := by
  have pools := load.pools
  by_cases one : load.config.tpCount = 1
  · exact .inl one
  right
  have positive : 0 < load.config.groupSize := by
    apply load.groups
    rw [backend]
    decide
  have across : 0 < divUp load.config.hiddenSize load.config.groupSize := by
    have covered := le_divUp_mul load.config.hiddenSize positive
    exact Nat.pos_of_mul_pos_right (someHidden.trans_le covered)
  have second : 1 < load.config.tpCount := by omega
  have inTables : (⟨.gate, .scale⟩ : Table) ∈ load.backend.tables := by
    rw [backend]
    decide
  have inAcross : 0 < (load.backend.grid load.config ⟨.gate, .scale⟩).across := by
    rw [backend]
    exact across
  have found := load.address_of_honours honours second inSlots cpu inTables someSize inAcross
  rw [expert] at found
  have places := Backend.offset_of_address found.2
  rw [backend] at places
  have blocks : (1 * divUp load.config.partSize load.config.groupSize + 0 / load.config.groupSize) *
        divUp load.config.hiddenSize load.config.groupSize + 0 =
      (1 * load.config.partSize + 0) / load.config.groupSize *
        divUp load.config.hiddenSize load.config.groupSize + 0 := places
  simp only [Nat.one_mul, Nat.zero_div, Nat.add_zero] at blocks
  have same := Nat.eq_of_mul_eq_mul_right across blocks
  have covered := le_divUp_mul load.config.partSize positive
  rw [same] at covered
  have whole := Nat.div_mul_le_self load.config.partSize load.config.groupSize
  exact Dvd.intro_left _ (Nat.le_antisymm whole covered)

/-- The words and the groups of down hold all channels. -/
theorem words_of_honours (load : Load) (honours : load.Honours) (backend : load.backend = .gptqInt4)
    (inSlots : index < load.config.expertNum) (cpu : load.config.shouldSkipExpert index = false)
    (someHidden : 0 < load.config.hiddenSize) (someSize : 0 < load.config.partSize) :
    8 ∣ load.config.partSize ∧ load.config.groupSize ∣ load.config.partSize := by
  have positive : 0 < load.config.groupSize := by
    apply load.groups
    rw [backend]
    decide
  have last : load.config.partSize - 1 < load.config.partSize := Nat.sub_one_lt (Nat.ne_of_gt someSize)
  have inTables (kind : Kind) : (⟨.down, kind⟩ : Table) ∈ load.backend.tables := by
    rw [backend]
    cases kind <;> decide
  have inAcross (kind : Kind) : 0 < (load.backend.grid load.config ⟨.down, kind⟩).across := by
    rw [backend]
    exact someHidden
  constructor
  · have found := load.address_of_honours honours load.pools inSlots cpu (inTables .weight) last (inAcross .weight)
    rw [backend] at found
    exact dvd_of_last (by decide) someSize found.1
  · have found := load.address_of_honours honours load.pools inSlots cpu (inTables .scale) last (inAcross .scale)
    rw [backend] at found
    exact dvd_of_last positive someSize found.1

theorem faithful_of_honours (load : Load) (honours : load.Honours) : load.Faithful := by
  by_cases hidden : load.config.hiddenSize = 0
  · exact .inl hidden
  by_cases size : load.config.partSize = 0
  · exact .inr (.inl size)
  refine .inr (.inr fun slot inSlots cpu => ?_)
  have someSize : 0 < load.config.partSize := Nat.pos_of_ne_zero size
  have someHidden : 0 < (load.backend.grid load.config ⟨.down, .weight⟩).across := by
    rw [across_down]
    exact Nat.pos_of_ne_zero hidden
  have expert : load.chosen slot = load.map slot := by
    obtain ⟨inCount, same⟩ := load.address_of_honours honours load.pools inSlots cpu (mem_down load.backend) someSize
      someHidden
    rw [start_zero, Nat.zero_mul, Nat.zero_add, Nat.zero_div] at same
    have le : load.config.partSize ≤ load.config.intermediateSize := by
      rw [← load.divides]
      exact Nat.le_mul_of_pos_left _ load.pools
    have inFull := Grid.place_lt ((Nat.zero_div _ ▸ inCount).trans_le (count_mono load.backend load.config le)) someHidden
    exact (Backend.address_inj inFull inFull same).1
  refine ⟨expert, ?_⟩
  rw [Aligned]
  cases backend : load.backend with
  | fp8 =>
      exact load.blocks_of_honours honours backend inSlots cpu expert (Nat.pos_of_ne_zero hidden) someSize
  | gptqInt4 =>
      exact load.words_of_honours honours backend inSlots cpu (Nat.pos_of_ne_zero hidden) someSize
  | bf16 => trivial
  | mxfp8 => trivial
  | rawInt4 => trivial
  | mxfp4 => trivial

/-- The map is honoured exactly where the expert that the load chooses is the map's, and
the slices begin at whole cells. -/
theorem honours_iff (load : Load) : load.Honours ↔ load.Faithful :=
  ⟨load.faithful_of_honours, load.honours_of_faithful⟩

/-- Two experts that change places, with BF16 weights and two parts. -/
def swapped : Load where
  backend := .bf16
  config := ⟨2, 4, 4, 0, false, 2, none, .perExpert, some (1 - ·)⟩
  map := (1 - ·)
  pools := by decide
  given := rfl
  permutes := by
    refine ⟨fun slot inside => ?_, fun slot inside other inOther same => ?_, fun slot inside => ⟨1 - slot, ?_, ?_⟩⟩
    · simp only [Set.mem_Iio] at inside ⊢
      omega
    · simp only [Set.mem_Iio] at inside inOther same
      omega
    · simp only [Set.mem_Iio] at inside ⊢
      omega
    · simp only [Set.mem_Iio] at inside ⊢
      omega
  accepted := rfl

theorem swapped_unfaithful : ¬ swapped.Honours := by
  intro honours
  rcases swapped.faithful_of_honours honours with hidden | size | faithful
  · exact absurd hidden (by decide)
  · exact absurd size (by decide)
  · exact absurd (faithful 0 (by decide) rfl).1 (by decide)

end Load

end KtKernel.Avx2
