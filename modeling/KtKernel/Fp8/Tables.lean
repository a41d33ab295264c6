import KtKernel.Fp8.Tiles
import KtKernel.K2.Tables

namespace KtKernel.Fp8

open KtKernel.Data
open KtKernel.Amx.ExpertFiles (Mat)
open KtKernel.K2 (Slot mats mem_mats mats_nodup)

/-! What the slots of a part hold after the load. -/

/-- The place of a cell of a part's slice in the full matrix. -/
def sliceOffset (hidden intermediate offset : Nat) (mat : Mat) (row column : Nat) : Nat :=
  match mat with
  | .down => row * intermediate + (offset + column)
  | _ => (offset + row) * hidden + column

section

variable {α : Type} {hidden intermediate local_ offset expert row column : Nat} {mat : Mat} {source : Nat → α}

theorem rows_mul_columns (hidden part : Nat) (mat : Mat) : rows hidden part mat * columns hidden part mat = part * hidden := by
  cases mat with
  | down => exact Nat.mul_comm _ _
  | up => rfl
  | gate => rfl

theorem inMatrix (inRow : row < rows hidden local_ mat) (inColumn : column < columns hidden local_ mat) :
    row * columns hidden local_ mat + column < local_ * hidden := by
  rw [← rows_mul_columns hidden local_ mat, Nat.mul_comm (rows hidden local_ mat)]
  exact pairIndex_lt inRow inColumn

theorem stageMatrix_within (source : Nat → α) (hidden intermediate local_ offset expert : Nat) (mat : Mat) :
    Copy.Within (stageMatrix source hidden intermediate local_ offset expert mat) mat (expert * (local_ * hidden))
      ((expert + 1) * (local_ * hidden)) := by
  rw [Nat.add_mul, Nat.one_mul]
  cases mat with
  | down =>
      have bound : Copy.Within (stageMatrix source hidden intermediate local_ offset expert .down) .down
          (expert * (local_ * hidden)) (expert * (local_ * hidden) + hidden * local_) :=
        Copy.strided_within Mat.down (fun row inner => source (row * intermediate + offset + inner)) (Nat.le_refl local_)
      rwa [Nat.mul_comm hidden] at bound
  | up => exact Copy.Within.single rfl (Nat.le_refl _) (Nat.le_refl _)
  | gate => exact Copy.Within.single rfl (Nat.le_refl _) (Nat.le_refl _)

theorem stageMatrix_delivers (source : Nat → α) (hidden intermediate local_ offset expert : Nat)
    (inRow : row < rows hidden local_ mat) (inColumn : column < columns hidden local_ mat) :
    Copy.Delivers (stageMatrix source hidden intermediate local_ offset expert mat)
      (mat, expert * (local_ * hidden) + (row * columns hidden local_ mat + column))
      (source (sliceOffset hidden intermediate offset mat row column)) := by
  have inside := inMatrix inRow inColumn
  have whole : ∀ mat' : Mat, columns hidden local_ mat = hidden → Copy.Delivers
      [⟨mat', expert * (local_ * hidden), local_ * hidden, fun inner => source (offset * hidden + inner)⟩]
      (mat', expert * (local_ * hidden) + (row * columns hidden local_ mat + column))
      (source ((offset + row) * hidden + column)) := by
    intro mat' width
    apply Copy.Delivers.single
    · rw [Copy.covers_iff]
      exact ⟨rfl, Nat.le_add_right _ _, Nat.add_lt_add_left inside _⟩
    · simp only [Nat.add_sub_cancel_left, width]
      congr 1
      ring
  cases mat with
  | down =>
      rw [← Nat.add_assoc]
      have delivers := Copy.strided_delivers Mat.down (expert * (local_ * hidden))
        (fun row inner => source (row * intermediate + offset + inner)) (Nat.le_refl local_) inRow inColumn
      rw [Nat.add_assoc (row * intermediate)] at delivers
      exact delivers
  | up => exact whole .up rfl
  | gate => exact whole .gate rfl

def stagedCopies (source : Mat → Nat → Nat → α) (hidden intermediate local_ offset : Nat) (experts : List Nat) :
    List (Copy Mat α) :=
  experts.flatMap fun expert => mats.flatMap fun mat =>
    stageMatrix (source mat expert) hidden intermediate local_ offset expert mat

/-- An expert that is staged more than once is staged the same way. -/
theorem staged_cell {source : Mat → Nat → Nat → α} {experts : List Nat} (known : expert ∈ experts)
    (inRow : row < rows hidden local_ mat) (inColumn : column < columns hidden local_ mat)
    (performed : Copy.Performed (stagedCopies source hidden intermediate local_ offset experts) undefined staged) :
    staged (mat, expert * (local_ * hidden) + (row * columns hidden local_ mat + column)) =
      source mat expert (sliceOffset hidden intermediate offset mat row column) := by
  have delivers := stageMatrix_delivers (source mat expert) hidden intermediate local_ offset expert inRow inColumn
  apply performed.agreed
  · intro copy member covers
    obtain ⟨other, -, inExpert⟩ := List.mem_flatMap.mp member
    obtain ⟨otherMat, -, inStage⟩ := List.mem_flatMap.mp inExpert
    obtain ⟨region, above, below⟩ :=
      stageMatrix_within (source otherMat other) hidden intermediate local_ offset other otherMat copy inStage
    obtain ⟨same, start, stop⟩ := Copy.covers_iff.mp covers
    have sameMat : otherMat = mat := region.symm.trans same
    have sameExpert : other = expert :=
      block_of_mem (inMatrix inRow inColumn) (above.trans start) (stop.trans_le below)
    rw [sameMat, sameExpert] at inStage
    exact delivers.value_of_covers inStage covers
  · obtain ⟨copy, inStage, covers, -⟩ := delivers.value
    apply Copy.writes_pos _ covers
    exact List.mem_flatMap_of_mem known (List.mem_flatMap_of_mem (mem_mats mat) inStage)

end

/-! ## The staging job -/

section

variable {F : Type} [Inhabited F] {config : Config F} {tpCount part : Nat} {map : Nat → Nat}

/-- A loop that throws nothing did what each round does. -/
theorem mapM_ok {ε κ β : Type} {body : κ → Except ε β} {result : κ → β} {items : List κ} {outcome : List β}
    (rounds : ∀ item value, body item = .ok value → value = result item) (run : items.mapM body = .ok outcome) :
    outcome = items.map result := by
  induction items generalizing outcome with
  | nil =>
      rw [List.mapM_nil] at run
      cases run
      rfl
  | cons item rest induction =>
      rw [List.mapM_cons] at run
      cases head : body item with
      | error message =>
          rw [head] at run
          contradiction
      | ok value =>
          cases tail : rest.mapM body with
          | error message =>
              rw [head, tail] at run
              contradiction
          | ok values =>
              rw [head, tail] at run
              cases run
              rw [List.map_cons, ← rounds item value head, ← induction tail]

theorem stageBlockFp8TpExpert_ok {local_ offset expert : Nat} {staging : Staging} {staged : Staged F}
    (run : stageBlockFp8TpExpert config local_ offset expert staging = .ok staged) :
    staged = {
      weights := mats.flatMap fun mat =>
        stageMatrix (config.weight mat expert) config.hiddenSize config.intermediateSize local_ offset expert mat
      scales := mats.flatMap fun mat =>
        stageMatrix (config.scale mat expert) (config.hiddenSize / config.groupSize)
          (config.intermediateSize / config.groupSize) (local_ / config.groupSize) (offset / config.groupSize)
          expert mat } := by
  unfold stageBlockFp8TpExpert at run
  simp only at run
  split at run
  · contradiction
  · split at run
    · contradiction
    · split at run
      · contradiction
      · cases run
        rfl

theorem stageJob_ok {staged : Staged F} (run : stageJob config tpCount map part = .ok staged) :
    staged.weights = stagedCopies config.weight config.hiddenSize config.intermediateSize (config.partSize tpCount)
      (part * config.partSize tpCount) ((List.range config.expertNum).map map) ∧
    staged.scales = stagedCopies config.scale (config.hiddenSize / config.groupSize)
      (config.intermediateSize / config.groupSize) (config.partSize tpCount / config.groupSize)
      (part * config.partSize tpCount / config.groupSize) ((List.range config.expertNum).map map) := by
  unfold stageJob at run
  simp only at run
  split at run
  · contradiction
  · cases allocation : allocate config.expertNum config.hiddenSize (config.partSize tpCount) config.groupSize with
    | error message =>
        rw [allocation] at run
        contradiction
    | ok staging =>
        rw [allocation] at run
        cases loop : (List.range config.expertNum).mapM (fun expert => stageBlockFp8TpExpert config
            (config.partSize tpCount) (part * config.partSize tpCount) (map expert) staging) with
        | error message =>
            simp only [bind, Except.bind, loop] at run
            contradiction
        | ok experts =>
            have all := mapM_ok (fun expert value => stageBlockFp8TpExpert_ok) loop
            simp only [bind, Except.bind, loop] at run
            cases run
            subst all
            simp only [stagedCopies, List.flatMap_map]
            exact ⟨trivial, trivial⟩

theorem stageBlockFp8TpExpert_succeeds {local_ offset expert : Nat} {staging : Staging} (some_ : local_ ≠ 0)
    (inside : offset + local_ ≤ config.intermediateSize) (groups : config.groupSize ∣ local_)
    (aligned : config.groupSize ∣ offset) (known : expert < config.expertNum)
    (shape : staging = ⟨config.hiddenSize * local_,
      config.hiddenSize / config.groupSize * (local_ / config.groupSize)⟩) :
    ∃ staged, stageBlockFp8TpExpert config local_ offset expert staging = .ok staged := by
  have sizes : staging.weightElems = local_ * config.hiddenSize ∧
      staging.scaleElems = local_ / config.groupSize * (config.hiddenSize / config.groupSize) := by
    rw [shape]
    exact ⟨Nat.mul_comm _ _, Nat.mul_comm _ _⟩
  have wholeLocal := Nat.mod_eq_zero_of_dvd groups
  have wholeOffset := Nat.mod_eq_zero_of_dvd aligned
  unfold stageBlockFp8TpExpert
  simp only
  rw [if_neg (by omega), if_neg (by omega), if_neg (by omega)]
  exact ⟨_, rfl⟩

theorem mapM_succeeds {ε κ β : Type} {body : κ → Except ε β} {items : List κ}
    (rounds : ∀ item ∈ items, ∃ value, body item = .ok value) : ∃ outcome, items.mapM body = .ok outcome := by
  induction items with
  | nil => exact ⟨[], rfl⟩
  | cons item rest induction =>
      obtain ⟨value, head⟩ := rounds item (.head _)
      obtain ⟨values, tail⟩ := induction fun other member => rounds other (.tail _ member)
      refine ⟨value :: values, ?_⟩
      rw [List.mapM_cons, head, tail]
      rfl

end

section

variable {α F : Type} {config : Config F} {partSize slot row column : Nat} {map : Nat → Nat} {mat : Mat}
  {staged : Mat × Nat → α}

theorem share_lt (inRows : row < n) : row / nBlock < recommendedNth n :=
  div_lt_blocks (by decide) inRows

/-- Shares of one kind of a matrix: the share of a row delivers, and no other share
or slot writes the cell. -/
theorem loadJob_delivers {fromMatrix : Slot → (n k : Nat) → (Nat → α) → Nat → List (Copy Slot α)} {elems ith : Nat}
    {place : Nat} {value : α} (inSlots : slot < config.expertNum)
    (inShares : ith < recommendedNth (rows config.hiddenSize partSize mat))
    (shares : ∀ source : Nat → α, (∀ offset, source offset = staged (mat, map slot * elems + offset)) →
      Copy.Delivers (fromMatrix ⟨mat, slot⟩ (rows config.hiddenSize partSize mat)
        (columns config.hiddenSize partSize mat) source ith) (⟨mat, slot⟩, place) value)
    (others : ∀ (source : Nat → α) other, other < recommendedNth (rows config.hiddenSize partSize mat) → other ≠ ith →
      Copy.writes (fromMatrix ⟨mat, slot⟩ (rows config.hiddenSize partSize mat)
        (columns config.hiddenSize partSize mat) source other) (⟨mat, slot⟩, place) = 0)
    (regions : ∀ target n k source share, ∀ copy ∈ fromMatrix target n k source share, copy.region = target) :
    Copy.Delivers (loadJob config partSize map staged elems fromMatrix) (⟨mat, slot⟩, place) value := by
  have elsewhere : ∀ target n k source share, target ≠ ⟨mat, slot⟩ →
      Copy.writes (fromMatrix target n k source share) (⟨mat, slot⟩, place) = 0 := by
    intro target n k source share different
    apply Copy.writes_eq_zero
    intro copy member
    by_contra covered
    rw [Bool.not_eq_false, Copy.covers_iff] at covered
    exact different ((regions target n k source share copy member).symm.trans covered.1)
  apply Copy.Delivers.flatMap mats_nodup (mem_mats mat)
  · apply Copy.Delivers.range (pairIndex_lt inSlots inShares)
    · simp only [pairIndex_div slot inShares, pairIndex_mod slot inShares]
      exact shares _ fun _ => rfl
    · intro task inTasks different
      by_cases sameSlot : task / recommendedNth (rows config.hiddenSize partSize mat) = slot
      · simp only [sameSlot]
        apply others
        · exact Nat.mod_lt _ (Nat.zero_lt_of_lt inShares)
        · intro sameShare
          apply different
          rw [← Nat.div_add_mod' task (recommendedNth (rows config.hiddenSize partSize mat)), sameSlot, sameShare]
      · apply elsewhere
        intro same
        exact sameSlot (congrArg Slot.index same)
  · intro other _ different
    apply Copy.writes_flatMap_zero
    intro task _
    apply elsewhere
    intro same
    exact different (congrArg Slot.mat same)

theorem fromMatScales_share (slot : Slot) (rowBlocks : nBlock ∣ n) (columnBlocks : nBlock ∣ k) (source : Nat → α)
    (inShares : ith < n / nBlock) :
    fromMatScales slot n k nBlock source ith =
      [⟨slot, ith * (k / nBlock), k / nBlock, fun inner => source (ith * (k / nBlock) + inner)⟩] := by
  obtain ⟨blocks, rfl⟩ := rowBlocks
  obtain ⟨width, rfl⟩ := columnBlocks
  have some_ : 0 < nBlock := by decide
  rw [Nat.mul_div_cancel_left _ some_] at inShares
  have stop : min (nBlock * blocks) (nBlock * (ith + 1)) = nBlock * (ith + 1) :=
    min_eq_right (Nat.mul_le_mul_left _ inShares)
  have start : nBlock * ith / nBlock = ith := Nat.mul_div_cancel_left _ some_
  have columns : (nBlock * width + nBlock - 1) / nBlock = width := by
    simp only [nBlock]
    omega
  have next : (nBlock * (ith + 1) + nBlock - 1) / nBlock = ith + 1 := by
    simp only [nBlock]
    omega
  simp only [fromMatScales, stop, start, columns, next, Nat.mul_div_cancel_left _ some_, Nat.add_sub_cancel_left,
    Nat.one_mul]

theorem fromMat_regions (target : Slot) (n k : Nat) (source : Nat → α) (share : Nat) :
    ∀ copy ∈ fromMat target n k source share, copy.region = target := by
  intro copy member
  obtain ⟨nBegin, -, inRows⟩ := List.mem_flatMap.mp member
  obtain ⟨kBlockBegin, -, inBlocks⟩ := List.mem_flatMap.mp inRows
  obtain ⟨kBegin, -, inTile⟩ := List.mem_flatMap.mp inBlocks
  exact (packTile_within target _ k _ copy inTile).1

end

/-! ## The tables -/

section

variable {F : Type} {config : Config F} {tpCount part slot row column : Nat} {map : Nat → Nat} {mat : Mat}
  {weights : Slot × Nat → UInt8} {floats : Slot × Nat → F}

/-- Whole blocks of 128 rows and columns. -/
structure Blocks (config : Config F) (partSize : Nat) : Prop where
  group : config.groupSize = nBlock
  hidden : nBlock ∣ config.hiddenSize
  part : nBlock ∣ partSize

theorem Blocks.rows {partSize : Nat} (blocks : Blocks config partSize) (mat : Mat) :
    nBlock ∣ rows config.hiddenSize partSize mat := by
  cases mat with
  | down => exact blocks.hidden
  | up => exact blocks.part
  | gate => exact blocks.part

theorem Blocks.columns {partSize : Nat} (blocks : Blocks config partSize) (mat : Mat) :
    nBlock ∣ columns config.hiddenSize partSize mat := by
  cases mat with
  | down => exact blocks.part
  | up => exact blocks.hidden
  | gate => exact blocks.hidden

theorem recommendedNth_blocks (rowBlocks : nBlock ∣ n) : recommendedNth n = n / nBlock := by
  obtain ⟨blocks, rfl⟩ := rowBlocks
  simp only [recommendedNth, nBlock]
  omega

theorem mem_experts (map : Nat → Nat) (inSlots : slot < config.expertNum) :
    map slot ∈ (List.range config.expertNum).map map :=
  List.mem_map_of_mem (List.mem_range.mpr inSlots)

/-- A source that passes the check. -/
theorem valid_sizes (valid : validateBlockFp8TpSource config = .ok ()) :
    config.hiddenSize ≠ 0 ∧ config.intermediateSize ≠ 0 ∧ config.expertNum ≠ 0 ∧ config.groupSize ≠ 0 := by
  unfold validateBlockFp8TpSource at valid
  split at valid
  · contradiction
  · split at valid
    · contradiction
    · omega

variable [Inhabited F]

/-- A slot holds the weights of the slice of its logical expert. -/
theorem Loaded.weight (loaded : Loaded config tpCount map part weights floats)
    (blocks : Blocks config (config.partSize tpCount)) (inSlots : slot < config.expertNum)
    (inRow : row < rows config.hiddenSize (config.partSize tpCount) mat)
    (inColumn : column < columns config.hiddenSize (config.partSize tpCount) mat) :
    weights (⟨mat, slot⟩, address (rows config.hiddenSize (config.partSize tpCount) mat)
        (columns config.hiddenSize (config.partSize tpCount) mat) row column) =
      config.weight mat (map slot) (sliceOffset config.hiddenSize config.intermediateSize
        (part * config.partSize tpCount) mat row column) := by
  obtain ⟨staged, job, ⟨undefined, cells, blank, stageRun, loadRun⟩, -⟩ := loaded.run
  rw [(stageJob_ok job).1] at stageRun
  rw [← staged_cell (mem_experts map inSlots) inRow inColumn stageRun]
  have rowBlocks := blocks.rows mat
  have columnSteps : kStep ∣ columns config.hiddenSize (config.partSize tpCount) mat :=
    Nat.dvd_trans (by decide) (blocks.columns mat)
  apply loadRun.delivered
  apply loadJob_delivers inSlots (share_lt inRow)
  · intro source same
    rw [← same]
    exact fromMat_delivers ⟨mat, slot⟩ rowBlocks columnSteps source inRow inColumn
  · intro source other inShares different
    rw [recommendedNth_blocks rowBlocks] at inShares
    have here := (fromMat_delivers ⟨mat, slot⟩ rowBlocks columnSteps source inRow inColumn).bounds
      (fromMat_within ⟨mat, slot⟩ rowBlocks columnSteps source (Nat.div_lt_div_of_lt_of_dvd rowBlocks inRow))
    apply (fromMat_within ⟨mat, slot⟩ rowBlocks columnSteps source inShares).writes_eq_zero
    intro covered
    apply different
    obtain ⟨-, above, below⟩ := covered
    obtain ⟨-, above', below'⟩ := here
    simp only at above below above' below'
    obtain ⟨offset, place⟩ := Nat.exists_eq_add_of_le above'
    rw [place] at above below below'
    rw [Nat.add_mul (row / nBlock), Nat.one_mul] at below'
    exact block_of_mem (by omega) above below
  · exact fromMat_regions

/-- A slot holds the block scales of the slice of its logical expert. -/
theorem Loaded.float (loaded : Loaded config tpCount map part weights floats)
    (blocks : Blocks config (config.partSize tpCount)) (inSlots : slot < config.expertNum)
    (inRow : row < rows (config.hiddenSize / nBlock) (config.partSize tpCount / nBlock) mat)
    (inColumn : column < columns (config.hiddenSize / nBlock) (config.partSize tpCount / nBlock) mat) :
    floats (⟨mat, slot⟩, row * columns (config.hiddenSize / nBlock) (config.partSize tpCount / nBlock) mat + column) =
      config.scale mat (map slot) (sliceOffset (config.hiddenSize / nBlock) (config.intermediateSize / nBlock)
        (part * config.partSize tpCount / nBlock) mat row column) := by
  obtain ⟨staged, job, -, undefined, cells, blank, stageRun, loadRun⟩ := loaded.run
  rw [(stageJob_ok job).2, blocks.group] at stageRun
  rw [← staged_cell (mem_experts map inSlots) inRow inColumn stageRun]
  have rowBlocks := blocks.rows mat
  have columnBlocks := blocks.columns mat
  have rowsEq : rows (config.hiddenSize / nBlock) (config.partSize tpCount / nBlock) mat =
      rows config.hiddenSize (config.partSize tpCount) mat / nBlock := by
    cases mat with
    | down => rfl
    | up => rfl
    | gate => rfl
  have columnsEq : columns (config.hiddenSize / nBlock) (config.partSize tpCount / nBlock) mat =
      columns config.hiddenSize (config.partSize tpCount) mat / nBlock := by
    cases mat with
    | down => rfl
    | up => rfl
    | gate => rfl
  rw [rowsEq] at inRow
  rw [columnsEq] at inColumn
  rw [blocks.group] at loadRun
  apply loadRun.delivered
  rw [columnsEq]
  have inShares : row < recommendedNth (rows config.hiddenSize (config.partSize tpCount) mat) := by
    rwa [recommendedNth_blocks rowBlocks]
  apply loadJob_delivers inSlots inShares
  · intro source same
    rw [fromMatScales_share ⟨mat, slot⟩ rowBlocks columnBlocks source inRow]
    apply Copy.Delivers.single
    · rw [Copy.covers_iff]
      exact ⟨rfl, Nat.le_add_right _ _, Nat.add_lt_add_left inColumn _⟩
    · simp only [Nat.add_sub_cancel_left, same, Nat.mul_comm (config.hiddenSize / nBlock)]
  · intro source other inShares different
    rw [recommendedNth_blocks rowBlocks] at inShares
    rw [fromMatScales_share ⟨mat, slot⟩ rowBlocks columnBlocks source inShares]
    apply (Copy.Within.single rfl (Nat.le_refl _) (Nat.le_refl _)).writes_eq_zero
    intro covered
    obtain ⟨-, above, below⟩ := covered
    simp only at above below
    apply different
    apply block_of_mem inColumn above
    rw [Nat.add_mul, Nat.one_mul]
    exact below
  · intro target n k source share copy member
    obtain rfl := List.mem_singleton.mp member
    rfl

/-- The load of whole blocks from a source that passes the check throws nothing. -/
theorem exists_loaded (valid : validateBlockFp8TpSource config = .ok ())
    (blocks : Blocks config (config.partSize tpCount))
    (covers : tpCount * config.partSize tpCount = config.intermediateSize) (inParts : part < tpCount)
    (known : ∀ slot < config.expertNum, map slot < config.expertNum) :
    ∃ weights floats, Loaded config tpCount map part weights floats := by
  obtain ⟨someHidden, someColumns, someExperts, someGroup⟩ := valid_sizes valid
  have somePart : config.partSize tpCount ≠ 0 := by
    intro none
    rw [none, Nat.mul_zero] at covers
    exact someColumns covers.symm
  have groups : config.groupSize ∣ config.partSize tpCount := by
    rw [blocks.group]
    exact blocks.part
  have inside : part * config.partSize tpCount + config.partSize tpCount ≤ config.intermediateSize := by
    have last : (part + 1) * config.partSize tpCount ≤ tpCount * config.partSize tpCount :=
      Nat.mul_le_mul_right _ inParts
    rwa [Nat.add_mul, Nat.one_mul, covers] at last
  have allocation : allocate config.expertNum config.hiddenSize (config.partSize tpCount) config.groupSize =
      .ok ⟨config.hiddenSize * config.partSize tpCount,
        config.hiddenSize / config.groupSize * (config.partSize tpCount / config.groupSize)⟩ := by
    unfold allocate
    rw [if_neg (by omega)]
  obtain ⟨experts, loop⟩ := mapM_succeeds
    (fun expert member => stageBlockFp8TpExpert_succeeds somePart inside groups
      (Nat.dvd_trans groups (Nat.dvd_mul_left _ _)) (known expert (List.mem_range.mp member)) rfl)
  have job : ∃ staged, stageJob config tpCount map part = .ok staged := by
    unfold stageJob
    simp only
    rw [if_neg (by omega), allocation]
    simp only [bind, Except.bind, loop]
    exact ⟨_, rfl⟩
  obtain ⟨staged, job⟩ := job
  exact ⟨_, _, valid, staged, job,
    ⟨fun _ => 0, _, fun _ => 0, Copy.performed_inOrder _ _, Copy.performed_inOrder _ _⟩,
    fun _ => default, _, fun _ => default, Copy.performed_inOrder _ _, Copy.performed_inOrder _ _⟩

end

end KtKernel.Fp8
