import KtKernel.K2.ExportExact

namespace KtKernel.K2

open KtKernel.Data
open KtKernel.Amx.ExpertFiles (Mat)

/-! Counts that do not line up: some cell is written twice or not at all, or memory
outside of the buffers is written. -/

namespace Export

variable {call : Export} {S F : Type} {conversion : Conversion S F} {map : Nat → Nat} {bytes : Source UInt8}
  {scales : Source S} {weights : Nat → Slot × Nat → UInt8} {floats : Nat → Slot × Nat → F}

/-- The last part goes past the last rank. -/
theorem many_outside (weights : Nat → Slot × Nat → UInt8) (kind : call.layout = .linear)
    (more : call.shape.tpCount ≥ call.gpuTpCount) (rest : ¬ call.gpuTpCount ∣ call.shape.tpCount) :
    ∃ rank offset, call.gpuTpCount ≤ rank ∧ 0 < Copy.writes (call.weightCopies weights) (⟨rank, .w13⟩, offset) := by
  have some_ := call.shape.tpPositive
  have positive : 0 < call.ratio := Nat.div_pos more call.gpuPositive
  have split := Nat.div_add_mod call.shape.tpCount call.gpuTpCount
  have left : call.shape.tpCount % call.gpuTpCount ≠ 0 := fun zero => rest (Nat.dvd_of_mod_eq_zero zero)
  have cells := call.partCells_positive call.shape.byte
  refine ⟨(call.shape.tpCount - 1) / call.ratio,
    (call.shape.tpCount - 1) % call.ratio * call.shape.partCells call.shape.byte, ?_, ?_⟩
  · rw [Nat.le_div_iff_mul_le positive]
    unfold ratio
    omega
  · have inParts : call.shape.tpCount - 1 ∈ List.range call.shape.tpCount := List.mem_range.mpr (by omega)
    apply Nat.lt_of_lt_of_le _ (Copy.writes_flatMap_ge _ _ inParts)
    simp only [partWeights, kind, if_pos more, manyWeights, cpuTpWeightBytes_eq, Copy.writes_append]
    have first := Copy.chunked_delivers (Destination.mk ((call.shape.tpCount - 1) / call.ratio) .w13)
      ((call.shape.tpCount - 1) % call.ratio * call.shape.partCells call.shape.byte)
      (fun inner => weights (call.shape.tpCount - 1) (⟨.gate, call.slot⟩, inner))
      (le_weightChunks (call.shape.partCells call.shape.byte)) cells
    have once := first.once
    rw [Nat.add_zero] at once
    omega

/-- The ranks that the parts do not reach. -/
theorem one_unwritten (weights : Nat → Slot × Nat → UInt8) (kind : call.layout = .linear)
    (less : ¬ call.shape.tpCount ≥ call.gpuTpCount) (rest : ¬ call.shape.tpCount ∣ call.gpuTpCount) (target : Target)
    (offset : Nat) :
    Copy.writes (call.weightCopies weights) (⟨call.gpuTpCount - 1, target⟩, offset) = 0 := by
  have split := Nat.div_add_mod call.gpuTpCount call.shape.tpCount
  have left : call.gpuTpCount % call.shape.tpCount ≠ 0 := fun zero => rest (Nat.dvd_of_mod_eq_zero zero)
  apply Copy.writes_flatMap_zero
  intro part member
  simp only [partWeights, kind, if_neg less, oneWeights]
  apply Copy.writes_flatMap_zero
  intro local_ inRanks
  have reached : part * call.ranksPerPart + local_ ≠ call.gpuTpCount - 1 := by
    have bound := pairIndex_lt (List.mem_range.mp member) (List.mem_range.mp inRanks)
    rw [Nat.mul_comm call.ranksPerPart, ranksPerPart] at bound
    unfold ranksPerPart
    omega
  rw [downColumns_eq, Copy.writes_append, Copy.writes_append, (Copy.chunked_within _ _ _ _ _ _).writes_eq_zero,
    (Copy.chunked_within _ _ _ _ _ _).writes_eq_zero, Copy.writes_flatMap_zero]
  · intro column _
    apply (Copy.Within.single rfl (Nat.le_refl _) (Nat.le_refl _)).writes_eq_zero
    intro covered
    exact reached (congrArg Destination.rank covered.1)
  · intro covered
    exact reached (congrArg Destination.rank covered.1)
  · intro covered
    exact reached (congrArg Destination.rank covered.1)

/-- Rows of an odd number of weights are cut to whole bytes. -/
theorem one_short (weights : Nat → Slot × Nat → UInt8) (kind : call.layout = .linear)
    (less : ¬ call.shape.tpCount ≥ call.gpuTpCount) (divides : call.shape.tpCount ∣ call.gpuTpCount)
    (odd : ¬ 2 ∣ call.gpuPart) (rank : Nat) :
    Copy.writes (call.weightCopies weights) (⟨rank, .w2⟩, call.cells call.shape.byte .w2 - 1) = 0 := by
  have ratioEq : call.gpuTpCount = call.shape.tpCount * call.ranksPerPart := (Nat.mul_div_cancel' divides).symm
  have perColumn : call.shape.partSize / call.ranksPerPart / 2 = call.gpuPart / 2 := by
    rw [partSize_of_ratio ratioEq, Nat.mul_div_cancel_left _ (ranksPerPart_positive ratioEq)]
  have hidden : 32 ≤ call.shape.hiddenSize := Nat.le_of_dvd call.shape.hiddenPositive call.shape.hiddenSteps
  have last : call.shape.hiddenSize * (call.gpuPart / 2) ≤ call.cells call.shape.byte .w2 - 1 := by
    have parts : call.gpuPart = call.gpuPart / 2 * 2 + 1 := by omega
    have spread : call.shape.hiddenSize * call.gpuPart =
        call.shape.hiddenSize * (call.gpuPart / 2) * 2 + call.shape.hiddenSize := by
      nth_rewrite 1 [parts]
      ring
    change _ ≤ call.shape.hiddenSize * call.gpuPart / 2 - 1
    rw [spread]
    omega
  apply Copy.writes_flatMap_zero
  intro part _
  simp only [partWeights, kind, if_neg less, oneWeights, perColumn]
  apply Copy.writes_flatMap_zero
  intro local_ _
  rw [downColumns_eq, Copy.writes_append, Copy.writes_append, (Copy.chunked_within _ _ _ _ _ _).writes_eq_zero,
    (Copy.chunked_within _ _ _ _ _ _).writes_eq_zero, Copy.writes_flatMap_zero]
  · intro column inColumns
    apply (Copy.Within.single rfl (Nat.le_refl _) (Nat.le_refl _)).writes_eq_zero
    intro covered
    have below := covered.2.2
    have next : (column + 1) * (call.gpuPart / 2) ≤ call.shape.hiddenSize * (call.gpuPart / 2) :=
      Nat.mul_le_mul_right _ (List.mem_range.mp inColumns)
    rw [Nat.add_mul, Nat.one_mul] at next
    simp only at below
    omega
  · intro covered
    have same := congrArg Destination.target covered.1
    contradiction
  · intro covered
    have same := congrArg Destination.target covered.1
    contradiction

/-! ## The blocked layout -/

theorem copyWeightRow_writes (weights : Slot × Nat → UInt8) (slot : Slot) (n k row kStart : Nat) {kCount tile : Nat}
    (rank : Destination) {start offset : Nat} (inTiles : tile < (kCount + 63) / 64)
    (above : start + tile * 32 ≤ offset) (below : offset < start + tile * 32 + 32) :
    0 < Copy.writes (copyWeightRow weights slot n k row kStart kCount rank start) (rank, offset) := by
  have place : tile * 64 / 2 = tile * 32 := by omega
  apply Copy.writes_pos (List.mem_flatMap_of_mem (List.mem_range.mpr inTiles) (List.mem_singleton_self _))
  rw [Copy.covers_iff]
  simp only [place]
  exact ⟨trivial, above, below⟩

/-- The first piece of a row, for a part that starts in the first rank. -/
theorem first_segment (early : part * call.shape.partSize < call.gpuPart) :
    ⟨0, 0, part * call.shape.partSize, min call.shape.partSize (call.gpuPart - part * call.shape.partSize)⟩ ∈
      call.segments part call.shape.partSize 0 := by
  have positive := call.shape.partPositive
  obtain ⟨rounds, count⟩ := Nat.exists_eq_succ_of_ne_zero (Nat.ne_of_gt positive)
  have place : (part * call.shape.partSize + 0) % call.gpuPart = part * call.shape.partSize :=
    Nat.mod_eq_of_lt early
  have rank : (part * call.shape.partSize + 0) / call.gpuPart = 0 := Nat.div_eq_of_lt early
  have unrolled : call.segments part (rounds + 1) 0 =
      ⟨0, 0, part * call.shape.partSize, min call.shape.partSize (call.gpuPart - part * call.shape.partSize)⟩ ::
        call.segments part rounds
          (0 + min call.shape.partSize (call.gpuPart - part * call.shape.partSize)) := by
    simp only [segments, if_pos positive, place, rank, Nat.sub_zero]
  have same : call.segments part call.shape.partSize 0 = call.segments part (rounds + 1) 0 :=
    congrArg (fun most => call.segments part most 0) count
  rw [same, unrolled]
  exact List.mem_cons_self

def downRow (call : Export) (weights : Slot × Nat → UInt8) (part row : Nat) : List (Copy Destination UInt8) :=
  (call.segments part call.shape.partSize 0).flatMap fun segment =>
    copyWeightRow weights ⟨.down, call.slot⟩ call.shape.hiddenSize call.shape.partSize row segment.kLocal
      segment.kCount ⟨segment.rank, .w2⟩ (row * call.gpuPart / 2 + segment.kInGpu / 2)

theorem partWeights_downRows (weights : Slot × Nat → UInt8) (kind : call.layout = .blocked) (part : Nat) :
    ∃ gateUp, call.partWeights weights part =
      gateUp ++ (List.range call.shape.hiddenSize).flatMap (call.downRow weights part) := by
  have tasks : call.shape.hiddenSize ≤ numRowTasks * ((call.shape.hiddenSize + numRowTasks - 1) / numRowTasks) :=
    le_mul_ceil (by decide)
  simp only [partWeights, kind, blockedWeights, taskRows]
  exact ⟨_, congrArg _ (flatMap_tasks tasks (call.downRow weights part))⟩

theorem downRow_writes (weights : Slot × Nat → UInt8) (row tile : Nat)
    (early : part * call.shape.partSize < call.gpuPart)
    (inTiles : tile < (min call.shape.partSize (call.gpuPart - part * call.shape.partSize) + 63) / 64)
    (above : row * call.gpuPart / 2 + part * call.shape.partSize / 2 + tile * 32 ≤ offset)
    (below : offset < row * call.gpuPart / 2 + part * call.shape.partSize / 2 + tile * 32 + 32) :
    0 < Copy.writes (call.downRow weights part row) (⟨0, .w2⟩, offset) := by
  apply Nat.lt_of_lt_of_le _ (Copy.writes_flatMap_ge _ _ (first_segment early))
  exact copyWeightRow_writes weights _ _ _ row _ _ inTiles above below

/-- The part in which the first rank ends. -/
theorem last_part (kind : call.layout = .blocked) (uneven : ¬ 64 ∣ call.gpuPart) :
    call.gpuPart / call.shape.partSize < call.shape.tpCount ∧ 64 ∣ call.shape.partSize := by
  have accepts := call.accepts
  simp only [kind, Layout.Accepts] at accepts
  have whole : call.gpuPart ≤ call.shape.tpCount * call.shape.partSize :=
    Nat.div_le_self call.shape.intermediateSize call.gpuTpCount
  have inside : call.gpuPart < call.shape.tpCount * call.shape.partSize := by
    apply Nat.lt_of_le_of_ne whole
    intro same
    apply uneven
    rw [same]
    exact Nat.dvd_trans accepts.2 (Nat.dvd_mul_left _ _)
  refine ⟨?_, accepts.2⟩
  apply Nat.div_lt_of_lt_mul
  rwa [Nat.mul_comm]

/-- The end of the first row and the start of the second meet in a byte of the
first rank. -/
theorem blocked_twice (weights : Nat → Slot × Nat → UInt8) (kind : call.layout = .blocked)
    (uneven : ¬ 64 ∣ call.gpuPart) :
    1 < Copy.writes (call.weightCopies weights) (⟨0, .w2⟩, call.gpuPart / 2) := by
  obtain ⟨inParts, tiles⟩ := last_part kind uneven
  have rows : 32 ≤ call.shape.hiddenSize := Nat.le_of_dvd call.shape.hiddenPositive call.shape.hiddenSteps
  have split := Nat.div_add_mod' call.gpuPart call.shape.partSize
  have small := Nat.mod_lt call.gpuPart call.shape.partPositive
  have aligned : 64 ∣ call.gpuPart / call.shape.partSize * call.shape.partSize :=
    Nat.dvd_trans tiles (Nat.dvd_mul_left _ _)
  have positive := call.gpuPart_positive
  have partPositive := call.shape.partPositive
  have endOfRow : 0 < Copy.writes (call.downRow (weights (call.gpuPart / call.shape.partSize))
      (call.gpuPart / call.shape.partSize) 0) (⟨0, .w2⟩, call.gpuPart / 2) := by
    generalize call.gpuPart / call.shape.partSize = last at *
    apply downRow_writes _ 0 (call.gpuPart % call.shape.partSize / 64)
    · omega
    · omega
    · omega
    · omega
  have startOfRow : 0 < Copy.writes (call.downRow (weights 0) 0 1) (⟨0, .w2⟩, call.gpuPart / 2) := by
    apply downRow_writes _ 1 0
    · omega
    · omega
    · omega
    · omega
  have inFirst : 0 < call.shape.tpCount := call.shape.tpPositive
  by_cases same : call.gpuPart / call.shape.partSize = 0
  · rw [same] at endOfRow
    apply Nat.lt_of_lt_of_le _ (Copy.writes_flatMap_ge _ _ (List.mem_range.mpr inFirst))
    obtain ⟨gateUp, rowsOf⟩ := partWeights_downRows (weights 0) kind 0
    have twice := Copy.writes_flatMap_two (List.mem_range.mpr (show 0 < call.shape.hiddenSize by omega))
      (List.mem_range.mpr (show 1 < call.shape.hiddenSize by omega)) (by decide) endOfRow startOfRow
    rw [rowsOf, Copy.writes_append]
    omega
  · have ofRow : ∀ part row, row < call.shape.hiddenSize →
        Copy.writes (call.downRow (weights part) part row) (⟨0, .w2⟩, call.gpuPart / 2) ≤
          Copy.writes (call.partWeights (weights part) part) (⟨0, .w2⟩, call.gpuPart / 2) := by
      intro part row inRow
      obtain ⟨gateUp, rowsOf⟩ := partWeights_downRows (weights part) kind part
      have one := Copy.writes_flatMap_ge (⟨0, .w2⟩, call.gpuPart / 2) (call.downRow (weights part) part)
        (List.mem_range.mpr inRow)
      rw [rowsOf, Copy.writes_append]
      omega
    exact Copy.writes_flatMap_two (List.mem_range.mpr inParts) (List.mem_range.mpr inFirst) same
      (Nat.lt_of_lt_of_le endOfRow (ofRow _ 0 (by omega))) (Nat.lt_of_lt_of_le startOfRow (ofRow 0 1 (by omega)))

theorem two_le_cells (call : Export) : 2 ≤ call.shape.hiddenSize * call.gpuPart := by
  have rows : 32 ≤ call.shape.hiddenSize := Nat.le_of_dvd call.shape.hiddenPositive call.shape.hiddenSteps
  have product := Nat.mul_le_mul rows call.gpuPart_positive
  omega

theorem linesUp_of_resharded (resharded : call.Resharded conversion map bytes scales weights floats) :
    call.LinesUp := by
  have once := resharded.weightsOnce
  have positive := call.gpuPositive
  have firstCell : 0 < call.cells call.shape.byte .w13 := by
    have half := call.half_positive call.shape.byte
    simp only [cells]
    omega
  cases kind : call.layout with
  | linear =>
      simp only [LinesUp, kind]
      by_contra apart
      rw [not_or, not_and] at apart
      obtain ⟨notParts, notRanks⟩ := apart
      by_cases more : call.shape.tpCount ≥ call.gpuTpCount
      · obtain ⟨rank, offset, past, written⟩ := many_outside weights kind more notParts
        rw [once, if_neg (by omega)] at written
        contradiction
      · by_cases divides : call.shape.tpCount ∣ call.gpuTpCount
        · have none := one_short weights kind more divides (notRanks divides) 0
          have lastCell : 0 < call.cells call.shape.byte .w2 := 
            Nat.div_pos (two_le_cells call) call.shape.byte.positive
          rw [once, if_pos ⟨positive, by omega⟩] at none
          contradiction
        · have none := one_unwritten weights kind more divides .w13 0
          rw [once, if_pos ⟨by omega, firstCell⟩] at none
          contradiction
  | blocked =>
      simp only [LinesUp, kind]
      by_contra uneven
      have twice := blocked_twice weights kind uneven
      rw [once] at twice
      split at twice <;> omega

/-- The export re-shards an expert if and only if the counts line up. -/
theorem resharded_iff (loads : Loads call conversion map bytes scales weights floats) :
    call.Resharded conversion map bytes scales weights floats ↔ call.LinesUp := by
  constructor
  · intro resharded
    exact linesUp_of_resharded resharded
  · intro linesUp
    exact resharded_of_linesUp loads linesUp

end Export

/-! ## Two parts and three ranks -/

/-- A number without a low half is its own rounding. -/
theorem rounded_shift {number : Nat} (small : number < 2 ^ 16) :
    ((number * 2 ^ 16 % 2 ^ 32 + 32767) % 2 ^ 32 + number * 2 ^ 16 % 2 ^ 32 / 2 ^ 16 % 2) % 2 ^ 32 / 2 ^ 16 % 2 ^ 16 =
      number := by
  have parity : number % 2 < 2 := Nat.mod_lt _ (by decide)
  have most : number * 2 ^ 16 ≤ (2 ^ 16 - 1) * 2 ^ 16 := Nat.mul_le_mul_right _ (by omega)
  have wide : number * 2 ^ 16 < 2 ^ 32 := Nat.lt_of_le_of_lt most (by decide)
  have rounded : number * 2 ^ 16 + 32767 + number % 2 < 2 ^ 32 :=
    Nat.lt_of_le_of_lt (Nat.add_le_add (Nat.add_le_add_right most _) (Nat.le_of_lt parity)) (by decide)
  have quotient : (number * 2 ^ 16 + 32767 + number % 2) / 2 ^ 16 = number := by
    rw [Nat.add_assoc, Nat.mul_comm, Nat.mul_add_div (by decide), Nat.div_eq_of_lt (by omega), Nat.add_zero]
  rw [Nat.mod_eq_of_lt wide, Nat.mul_div_cancel _ (by decide), Nat.mod_add_mod, Nat.mod_eq_of_lt rounded, quotient]
  exact Nat.mod_eq_of_lt small

/-- bf16 numbers and floats as bits.  The way back rounds to even, or drops the
low half. -/
def bits : Conversion UInt16 UInt32 where
  widen := fun scale => scale.toUInt32 <<< 16
  narrow := fun float => ((float + (0x7fff : UInt32) + ((float >>> 16) &&& 1)) >>> 16).toUInt16
  narrowFast := fun float => (float >>> 16).toUInt16
  narrow_widen := by
    intro scale
    have small := scale.toNat_lt
    have shift : 16 % 2 ^ 32 % 32 = 16 := by omega
    have half : 32767 % 2 ^ 32 = 32767 := by omega
    have one : 1 % 2 ^ 32 = 1 := by omega
    apply UInt16.toNat_inj.mp
    simp only [UInt32.toNat_toUInt16, UInt32.toNat_shiftRight, UInt32.toNat_add, UInt32.toNat_and,
      UInt32.toNat_shiftLeft, UInt16.toNat_toUInt32, UInt32.toNat_ofNat, Nat.shiftLeft_eq,
      Nat.shiftRight_eq_div_pow, shift, half, one, Nat.and_one_is_mod]
    exact rounded_shift small
  narrowFast_widen := by
    intro scale
    have small := scale.toNat_lt
    apply UInt16.toNat_inj.mp
    simp [Nat.shiftLeft_eq, Nat.shiftRight_eq_div_pow]
    omega

def twoParts : Shape :=
  ⟨1, 2, 64, 96, 32, Nat.two_pos, hidden_positive, by decide, vector_positive, hidden_groups, by decide, hidden_groups,
    by decide⟩

/-- The call passes every check: 192 columns are six groups, two to a rank. -/
def threeRanks : Export :=
  ⟨twoParts, .linear, 3, 0, trivial, three_positive, by decide, by decide⟩

def sequence (count : Nat) : UInt8 :=
  UInt8.ofNat count

theorem exists_loads (call : Export) (map : Nat → Nat) (bytes : Source UInt8) (scales : Source UInt16) :
    ∃ weights floats, Loads call bits map bytes scales weights floats := by
  have tables := fun part => exists_loaded call.shape call.layout map bits.widen bytes scales part
  choose weights floats loaded using tables
  exact ⟨weights, floats, fun part _ => loaded part⟩

theorem resharded_iff_three_ranks : ∃ weights floats,
    Loads threeRanks bits id (.perExpert fun _ _ => sequence) (.perExpert fun _ _ _ => 0x3f80) weights floats ∧
      (threeRanks.Resharded bits id (.perExpert fun _ _ => sequence) (.perExpert fun _ _ _ => 0x3f80) weights floats ↔
        threeRanks.LinesUp) := by
  obtain ⟨weights, floats, loads⟩ := exists_loads threeRanks id (.perExpert fun _ _ => sequence)
    (.perExpert fun _ _ _ => 0x3f80)
  exact ⟨weights, floats, loads, Export.resharded_iff loads⟩

/-- Nothing is written to the last of three ranks. -/
theorem three_ranks_unwritten : ∃ weights floats,
    Loads threeRanks bits id (.perExpert fun _ _ => sequence) (.perExpert fun _ _ _ => 0x3f80) weights floats ∧
      ¬ threeRanks.Resharded bits id (.perExpert fun _ _ => sequence) (.perExpert fun _ _ _ => 0x3f80) weights floats ∧
      ∀ target offset, Copy.writes (threeRanks.weightCopies weights) (⟨2, target⟩, offset) = 0 := by
  obtain ⟨weights, floats, loads⟩ := exists_loads threeRanks id (.perExpert fun _ _ => sequence)
    (.perExpert fun _ _ _ => 0x3f80)
  refine ⟨weights, floats, loads, ?_, ?_⟩
  · intro resharded
    have linesUp := Export.linesUp_of_resharded resharded
    simp only [Export.LinesUp, threeRanks] at linesUp
    revert linesUp
    decide
  · exact Export.one_unwritten weights rfl (by decide) (by decide)

end KtKernel.K2
