import KtKernel.K2.Linear

namespace KtKernel.K2

open KtKernel.Data
open KtKernel.Amx.ExpertFiles (Mat)

/-! The export from the blocked layout, row by row. -/

namespace Export

variable {α : Type} {call : Export} {unit : call.shape.Unit} {original : Mat → Nat → α} {part inner : Nat}

/-! ## The rows of gate and up -/

/-- The row of the expert that a cell of a rank belongs to. -/
def globalRow (call : Export) (unit : call.shape.Unit) (rank offset : Nat) : Nat :=
  rank * call.gpuPart + offset % call.half unit / (call.shape.hiddenSize / unit.size)

theorem owner_w13 (call : Export) (unit : call.shape.Unit) (rank offset : Nat) :
    call.owner unit rank .w13 offset = call.globalRow unit rank offset / call.shape.partSize := by
  have width := call.hidden_width_positive unit
  simp only [owner, globalRow, half, Shape.partCells]
  rw [Nat.mul_comm call.shape.partSize, ← Nat.div_div_eq_div_mul, ← Nat.mul_assoc,
    Nat.mul_comm (rank * call.gpuPart), Nat.mul_add_div width]

theorem globalRow_split (call : Export) (unit : call.shape.Unit) (rank offset : Nat) :
    call.globalRow unit rank offset / call.gpuPart = rank ∧
      call.globalRow unit rank offset % call.gpuPart =
        offset % call.half unit / (call.shape.hiddenSize / unit.size) := by
  have inPart : offset % call.half unit / (call.shape.hiddenSize / unit.size) < call.gpuPart := by
    apply Nat.div_lt_of_lt_mul
    rw [Nat.mul_comm]
    exact Nat.mod_lt _ (call.half_positive unit)
  exact ⟨pairIndex_div rank inPart, pairIndex_mod rank inPart⟩

structure RowCarries (call : Export) (unit : call.shape.Unit) (original : Mat → Nat → α) (globalN : Nat)
    (gate up : List (Copy Destination α)) : Prop where
  gate : Copy.Carries gate ⟨globalN / call.gpuPart, .w13⟩
    (globalN % call.gpuPart * (call.shape.hiddenSize / unit.size)) (call.shape.hiddenSize / unit.size)
    fun inner => original .gate (globalN * (call.shape.hiddenSize / unit.size) + inner)
  up : Copy.Carries up ⟨globalN / call.gpuPart, .w13⟩
    (call.half unit + globalN % call.gpuPart * (call.shape.hiddenSize / unit.size))
    (call.shape.hiddenSize / unit.size)
    fun inner => original .up (globalN * (call.shape.hiddenSize / unit.size) + inner)

theorem row_within_half (call : Export) (unit : call.shape.Unit) (globalN : Nat) :
    globalN % call.gpuPart * (call.shape.hiddenSize / unit.size) + call.shape.hiddenSize / unit.size ≤
      call.half unit := by
  have last : (globalN % call.gpuPart + 1) * (call.shape.hiddenSize / unit.size) ≤ call.half unit :=
    Nat.mul_le_mul_right _ (Nat.mod_lt _ call.gpuPart_positive)
  rwa [Nat.add_mul, Nat.one_mul] at last

theorem RowCarries.writes {gate up : List (Copy Destination α)} {globalN : Nat}
    (carries : call.RowCarries unit original globalN gate up)
    (lacks : ¬ (target = .w13 ∧ offset < call.cells unit .w13 ∧ call.globalRow unit rank offset = globalN)) :
    Copy.writes (gate ++ up) (⟨rank, target⟩, offset) = 0 := by
  have bound := call.row_within_half unit globalN
  have width := call.hidden_width_positive unit
  have place : ∀ inner, inner < call.half unit →
      globalN % call.gpuPart * (call.shape.hiddenSize / unit.size) ≤ inner →
      inner < globalN % call.gpuPart * (call.shape.hiddenSize / unit.size) + call.shape.hiddenSize / unit.size →
      globalN / call.gpuPart * call.gpuPart + inner / (call.shape.hiddenSize / unit.size) = globalN := by
    intro inner _ above below
    have row : inner / (call.shape.hiddenSize / unit.size) = globalN % call.gpuPart := by
      apply Nat.div_eq_of_lt_le above
      rw [Nat.add_mul, Nat.one_mul]
      exact below
    rw [row, Nat.div_add_mod']
  rw [Copy.writes_append, carries.gate.within.writes_eq_zero, carries.up.within.writes_eq_zero]
  · intro covered
    obtain ⟨same, above, below⟩ := covered
    obtain ⟨rfl, rfl⟩ := Destination.mk.inj same
    simp only at above below
    apply lacks
    refine ⟨rfl, ?_, ?_⟩
    · simp only [cells]
      omega
    · have wrap : offset % call.half unit = offset - call.half unit := by
        rw [Nat.mod_eq_sub_mod (by omega), Nat.mod_eq_of_lt (by omega)]
      rw [globalRow, wrap]
      exact place _ (by omega) (by omega) (by omega)
  · intro covered
    obtain ⟨same, above, below⟩ := covered
    obtain ⟨rfl, rfl⟩ := Destination.mk.inj same
    simp only at above below
    have first : offset < call.half unit := by omega
    apply lacks
    refine ⟨rfl, ?_, ?_⟩
    · simp only [cells]
      omega
    · rw [globalRow, Nat.mod_eq_of_lt first]
      exact place _ first above below

theorem RowCarries.delivers {gate_ up_ : List (Copy Destination α)}
    (carries : call.RowCarries unit original (call.globalRow unit rank offset) gate_ up_)
    (inCells : offset < call.cells unit .w13) :
    Copy.Delivers (gate_ ++ up_) (⟨rank, .w13⟩, offset) (call.expected unit original rank .w13 offset) := by
  obtain ⟨rankEq, rowEq⟩ := call.globalRow_split unit rank offset
  have split := Nat.div_add_mod' (offset % call.half unit) (call.shape.hiddenSize / unit.size)
  have small := Nat.mod_lt (offset % call.half unit) (call.hidden_width_positive unit)
  have source : call.globalRow unit rank offset * (call.shape.hiddenSize / unit.size) =
      rank * call.half unit + offset % call.half unit / (call.shape.hiddenSize / unit.size) *
        (call.shape.hiddenSize / unit.size) := by
    rw [globalRow, Nat.add_mul, half, ← Nat.mul_assoc]
  have gate := carries.gate
  have up := carries.up
  rw [rankEq, rowEq, source] at gate up
  simp only [cells] at inCells
  by_cases first : offset < call.half unit
  · have zero : Copy.writes up_ (⟨rank, .w13⟩, offset) = 0 := by
      apply up.within.writes_eq_zero
      intro covered
      have above := covered.2.1
      simp only at above
      omega
    rw [Nat.mod_eq_of_lt first] at gate split small
    apply Copy.Delivers.append_left _ zero
    have lower : offset / (call.shape.hiddenSize / unit.size) * (call.shape.hiddenSize / unit.size) ≤ offset := by
      omega
    have upper : offset < offset / (call.shape.hiddenSize / unit.size) * (call.shape.hiddenSize / unit.size) +
        call.shape.hiddenSize / unit.size := by omega
    have delivers := gate.place lower upper
    rw [expected, if_pos first]
    convert delivers using 2
    omega
  · have wrap : offset % call.half unit = offset - call.half unit := by
      rw [Nat.mod_eq_sub_mod (by omega), Nat.mod_eq_of_lt (by omega)]
    rw [wrap] at up gate split small
    have zero : Copy.writes gate_ (⟨rank, .w13⟩, offset) = 0 := by
      apply gate.within.writes_eq_zero
      intro covered
      have below := covered.2.2
      have bound := call.row_within_half unit (call.globalRow unit rank offset)
      rw [rowEq, wrap] at bound
      simp only at below
      omega
    apply Copy.Delivers.append_right _ zero
    have lower : call.half unit + (offset - call.half unit) / (call.shape.hiddenSize / unit.size) *
        (call.shape.hiddenSize / unit.size) ≤ offset := by omega
    have upper : offset < call.half unit + (offset - call.half unit) / (call.shape.hiddenSize / unit.size) *
        (call.shape.hiddenSize / unit.size) + call.shape.hiddenSize / unit.size := by omega
    have delivers := up.place lower upper
    rw [expected, if_neg first]
    convert delivers using 2
    omega

theorem rows_exact {gate up : Nat → List (Copy Destination α)} (inParts : part < call.shape.tpCount)
    (carries : ∀ row < call.shape.partSize,
      call.RowCarries unit original (part * call.shape.partSize + row) (gate row) (up row)) :
    (∀ rank offset, rank < call.gpuTpCount → offset < call.cells unit .w13 →
      call.owner unit rank .w13 offset = part →
      Copy.Delivers ((List.range call.shape.partSize).flatMap fun row => gate row ++ up row)
        (⟨rank, .w13⟩, offset) (call.expected unit original rank .w13 offset)) ∧
    (∀ rank target offset, ¬ (target = Target.w13 ∧ rank < call.gpuTpCount ∧ offset < call.cells unit .w13 ∧
      call.owner unit rank .w13 offset = part) →
      Copy.writes ((List.range call.shape.partSize).flatMap fun row => gate row ++ up row)
        (⟨rank, target⟩, offset) = 0) := by
  constructor
  · intro rank offset inRanks inCells owned
    rw [owner_w13] at owned
    have split := Nat.div_add_mod' (call.globalRow unit rank offset) call.shape.partSize
    have small := Nat.mod_lt (call.globalRow unit rank offset) call.shape.partPositive
    rw [owned] at split
    apply Copy.Delivers.range small
    · have row := carries _ small
      rw [split] at row
      exact row.delivers inCells
    · intro other inRows different
      apply (carries other inRows).writes
      intro has
      have same := has.2.2
      omega
  · intro rank target offset lacks
    apply Copy.writes_flatMap_zero
    intro row member
    have inRows := List.mem_range.mp member
    apply (carries row inRows).writes
    intro has
    obtain ⟨rfl, inCells, same⟩ := has
    apply lacks
    refine ⟨rfl, ?_, inCells, ?_⟩
    · have rankEq := (call.globalRow_split unit rank offset).1
      have bound : part * call.shape.partSize + row < call.gpuPart * call.gpuTpCount := by
        rw [Nat.mul_comm call.gpuPart, gpuPart_mul, Shape.intermediateSize, Nat.mul_comm call.shape.tpCount]
        exact pairIndex_lt inParts inRows
      rw [← rankEq, same]
      exact Nat.div_lt_of_lt_mul bound
    · rw [owner_w13, same, pairIndex_div part inRows]

/-! ## The rows of down -/

/-- A piece of a row of down, with ends on multiples of a step. -/
structure Segment.Valid (segment : Segment) (call : Export) (part step : Nat) : Prop where
  kLocal : step ∣ segment.kLocal
  kInGpu : step ∣ segment.kInGpu
  kCount : step ∣ segment.kCount
  some_ : 0 < segment.kCount
  inPart : segment.kLocal + segment.kCount ≤ call.shape.partSize
  inRank : segment.kInGpu + segment.kCount ≤ call.gpuPart
  place : part * call.shape.partSize + segment.kLocal = segment.rank * call.gpuPart + segment.kInGpu

/-- The round of the loop that starts at a column. -/
def segmentAt (call : Export) (part kLocal : Nat) : Segment :=
  let globalK := part * call.shape.partSize + kLocal
  let kInGpu := globalK % call.gpuPart
  ⟨kLocal, globalK / call.gpuPart, kInGpu, min (call.shape.partSize - kLocal) (call.gpuPart - kInGpu)⟩

theorem segmentAt_valid (part : Nat) {step kLocal : Nat} (partSteps : step ∣ call.shape.partSize) (rankSteps : step ∣ call.gpuPart)
    (aligned : step ∣ kLocal) (inPart : kLocal < call.shape.partSize) :
    (call.segmentAt part kLocal).Valid call part step := by
  have inRank := Nat.mod_lt (part * call.shape.partSize + kLocal) call.gpuPart_positive
  have within : step ∣ (part * call.shape.partSize + kLocal) % call.gpuPart :=
    (Nat.dvd_mod_iff rankSteps).mpr ((Nat.dvd_add_right (Dvd.dvd.mul_left partSteps part)).mpr aligned)
  have left : step ∣ call.shape.partSize - kLocal := Nat.dvd_sub partSteps aligned
  have right : step ∣ call.gpuPart - (part * call.shape.partSize + kLocal) % call.gpuPart :=
    Nat.dvd_sub rankSteps within
  refine ⟨aligned, within, ?_, ?_, ?_, ?_, ?_⟩
  · simp only [segmentAt]
    rcases min_choice (call.shape.partSize - kLocal)
      (call.gpuPart - (part * call.shape.partSize + kLocal) % call.gpuPart) with first | second
    · rw [first]
      exact left
    · rw [second]
      exact right
  · simp only [segmentAt]
    omega
  · simp only [segmentAt]
    omega
  · simp only [segmentAt]
    omega
  · simp only [segmentAt]
    exact (Nat.div_add_mod' _ _).symm

theorem segments_step (call : Export) (part rounds kLocal : Nat) (inPart : kLocal < call.shape.partSize) :
    call.segments part (rounds + 1) kLocal =
      call.segmentAt part kLocal ::
        call.segments part rounds (kLocal + (call.segmentAt part kLocal).kCount) := by
  rw [segments, if_pos inPart]
  rfl

theorem segments_done (call : Export) (part rounds kLocal : Nat) (past : ¬ kLocal < call.shape.partSize) :
    call.segments part rounds kLocal = [] := by
  cases rounds with
  | zero => rfl
  | succ rounds => rw [segments, if_neg past]

/-- The pieces of a row go to their places in the ranks. -/
def SegmentsCarry (call : Export) (unit : call.shape.Unit) (original : Mat → Nat → α) (part step row : Nat)
    (body : Segment → List (Copy Destination α)) : Prop :=
  ∀ segment : Segment, segment.Valid call part step →
    Copy.Carries (body segment) ⟨segment.rank, .w2⟩ (row * call.rankWidth unit + segment.kInGpu / unit.size)
      (segment.kCount / unit.size) fun inner =>
        original .down (row * (call.shape.intermediateSize / unit.size) +
          (part * (call.shape.partSize / unit.size) + segment.kLocal / unit.size + inner))

/-- A piece in cells: where it starts in the expert, and that it stays in its rank. -/
theorem Segment.Valid.cells {segment : Segment} {step : Nat} (valid : segment.Valid call part step)
    (units : unit.size ∣ step) (whole : unit.size ∣ call.gpuPart) :
    part * (call.shape.partSize / unit.size) + segment.kLocal / unit.size =
        segment.rank * call.rankWidth unit + segment.kInGpu / unit.size ∧
      segment.kInGpu / unit.size + segment.kCount / unit.size ≤ call.rankWidth unit ∧
      (segment.kLocal + segment.kCount) / unit.size = segment.kLocal / unit.size + segment.kCount / unit.size := by
  have positive := unit.positive
  obtain ⟨size, sizeEq⟩ := unit.part
  obtain ⟨width, widthEq⟩ := whole
  obtain ⟨start, startEq⟩ := Nat.dvd_trans units valid.kLocal
  obtain ⟨place, placeEq⟩ := Nat.dvd_trans units valid.kInGpu
  obtain ⟨count, countEq⟩ := Nat.dvd_trans units valid.kCount
  have same := valid.place
  have bound := valid.inRank
  rw [sizeEq, widthEq, startEq, placeEq] at same
  rw [placeEq, widthEq, countEq, ← Nat.mul_add] at bound
  have sum : unit.size * (part * size + start) = unit.size * (segment.rank * width + place) := by
    rw [Nat.mul_add, Nat.mul_add, Nat.mul_left_comm, Nat.mul_left_comm unit.size segment.rank]
    exact same
  rw [rankWidth, sizeEq, widthEq, startEq, placeEq, countEq, ← Nat.mul_add]
  simp only [Nat.mul_div_cancel_left _ positive]
  exact ⟨Nat.eq_of_mul_eq_mul_left positive sum, Nat.le_of_mul_le_mul_left bound positive, trivial⟩

/-- What copies do to a row of down: they write the cells of the expert from `first`
up to `last`, each once, and stay in the row. -/
structure RowExact (call : Export) (unit : call.shape.Unit) (original : Mat → Nat → α) (row first last : Nat)
    (copies : List (Copy Destination α)) : Prop where
  inside : ∀ rank inner, inner < call.rankWidth unit → first ≤ rank * call.rankWidth unit + inner →
    rank * call.rankWidth unit + inner < last →
    Copy.Delivers copies (⟨rank, .w2⟩, row * call.rankWidth unit + inner)
      (original .down (row * (call.shape.intermediateSize / unit.size) + (rank * call.rankWidth unit + inner)))
  outside : ∀ rank inner, inner < call.rankWidth unit →
    ¬ (first ≤ rank * call.rankWidth unit + inner ∧ rank * call.rankWidth unit + inner < last) →
    Copy.writes copies (⟨rank, .w2⟩, row * call.rankWidth unit + inner) = 0
  within : ∀ copy ∈ copies, copy.region.target = .w2 ∧ row * call.rankWidth unit ≤ copy.start ∧
    copy.start + copy.length ≤ row * call.rankWidth unit + call.rankWidth unit

theorem segment_rowExact {segment : Segment} {step row : Nat} {body : Segment → List (Copy Destination α)}
    (units : unit.size ∣ step) (whole : unit.size ∣ call.gpuPart)
    (carry : call.SegmentsCarry unit original part step row body) (valid : segment.Valid call part step) :
    call.RowExact unit original row
      (part * (call.shape.partSize / unit.size) + segment.kLocal / unit.size)
      (part * (call.shape.partSize / unit.size) + (segment.kLocal + segment.kCount) / unit.size)
      (body segment) := by
  have carries := carry segment valid
  obtain ⟨start, bound, sum⟩ := valid.cells units whole
  rw [sum, ← Nat.add_assoc]
  simp only [start] at carries ⊢
  generalize segment.kInGpu / unit.size = place at *
  generalize segment.kCount / unit.size = count at *
  refine ⟨?_, ?_, ?_⟩
  · intro rank inner inWidth above below
    have bySegment : (rank * call.rankWidth unit + inner) / call.rankWidth unit = segment.rank := by
      apply Nat.div_eq_of_lt_le
      · omega
      · rw [Nat.add_mul, Nat.one_mul]
        omega
    have same : rank = segment.rank := (pairIndex_div rank inWidth).symm.trans bySegment
    subst same
    have lower : row * call.rankWidth unit + place ≤ row * call.rankWidth unit + inner := by omega
    have upper : row * call.rankWidth unit + inner < row * call.rankWidth unit + place + count := by omega
    have delivers := carries.place lower upper
    convert delivers using 2
    omega
  · intro rank inner inWidth lacks
    apply carries.within.writes_eq_zero
    intro covered
    obtain ⟨same, above, below⟩ := covered
    obtain ⟨rfl, -⟩ := Destination.mk.inj same
    simp only at above below
    apply lacks
    omega
  · intro copy member
    obtain ⟨region, above, below⟩ := carries.within copy member
    rw [region]
    refine ⟨rfl, ?_, ?_⟩
    · omega
    · omega

theorem RowExact.empty (call : Export) (unit : call.shape.Unit) (original : Mat → Nat → α) (row place : Nat) :
    call.RowExact unit original row place place [] := by
  refine ⟨?_, ?_, ?_⟩
  · intro rank inner _ above below
    omega
  · intro rank inner _ _
    rfl
  · intro copy member
    contradiction

theorem RowExact.append {first middle last : Nat} {copies rest : List (Copy Destination α)}
    (begin_ : call.RowExact unit original row first middle copies)
    (end_ : call.RowExact unit original row middle last rest) (ordered : first ≤ middle) (ordered' : middle ≤ last) :
    call.RowExact unit original row first last (copies ++ rest) := by
  refine ⟨?_, ?_, ?_⟩
  · intro rank inner inWidth above below
    by_cases early : rank * call.rankWidth unit + inner < middle
    · exact (begin_.inside rank inner inWidth above early).append_left (end_.outside rank inner inWidth (by omega))
    · exact (end_.inside rank inner inWidth (by omega) below).append_right
        (begin_.outside rank inner inWidth (by omega))
  · intro rank inner inWidth lacks
    rw [Copy.writes_append, begin_.outside rank inner inWidth (by omega), end_.outside rank inner inWidth (by omega)]
  · intro copy member
    rcases List.mem_append.mp member with early | late
    · exact begin_.within copy early
    · exact end_.within copy late

/-- The loop over the pieces writes the columns from where it starts. -/
theorem segments_rowExact {step row : Nat} {body : Segment → List (Copy Destination α)} (units : unit.size ∣ step)
    (whole : unit.size ∣ call.gpuPart) (partSteps : step ∣ call.shape.partSize) (rankSteps : step ∣ call.gpuPart)
    (carry : call.SegmentsCarry unit original part step row body) (rounds kLocal : Nat) (aligned : step ∣ kLocal)
    (inPart : kLocal ≤ call.shape.partSize) (enough : call.shape.partSize ≤ kLocal + rounds) :
    call.RowExact unit original row (part * (call.shape.partSize / unit.size) + kLocal / unit.size)
      (part * (call.shape.partSize / unit.size) + call.shape.partSize / unit.size)
      ((call.segments part rounds kLocal).flatMap body) := by
  induction rounds generalizing kLocal with
  | zero =>
      have done : kLocal = call.shape.partSize := by omega
      rw [done]
      exact RowExact.empty call unit original row _
  | succ rounds induction =>
      by_cases past : kLocal < call.shape.partSize
      · have valid := segmentAt_valid part partSteps rankSteps aligned past
        have some_ := valid.some_
        have bound := valid.inPart
        have next := induction (kLocal + (call.segmentAt part kLocal).kCount)
          (Nat.dvd_add aligned valid.kCount) bound (by omega)
        rw [segments_step call part rounds kLocal past, List.flatMap_cons]
        apply (segment_rowExact units whole carry valid).append next
        · exact Nat.add_le_add_left (Nat.div_le_div_right (Nat.le_add_right _ _)) _
        · exact Nat.add_le_add_left (Nat.div_le_div_right bound) _
      · have done : kLocal = call.shape.partSize := by omega
        rw [segments_done call part _ kLocal past, done]
        exact RowExact.empty call unit original row _

theorem all_segments_rowExact {step row : Nat} {body : Segment → List (Copy Destination α)}
    (units : unit.size ∣ step) (whole : unit.size ∣ call.gpuPart) (partSteps : step ∣ call.shape.partSize)
    (rankSteps : step ∣ call.gpuPart) (carry : call.SegmentsCarry unit original part step row body) :
    call.RowExact unit original row (part * (call.shape.partSize / unit.size))
      (part * (call.shape.partSize / unit.size) + call.shape.partSize / unit.size)
      ((call.segments part call.shape.partSize 0).flatMap body) := by
  have all := segments_rowExact units whole partSteps rankSteps carry call.shape.partSize 0 (Nat.dvd_zero _)
    (Nat.zero_le _) (by omega)
  rwa [Nat.zero_div, Nat.add_zero] at all

theorem RowExact.elsewhere {copies : List (Copy Destination α)}
    (exact_ : call.RowExact unit original row first last copies)
    (other : ¬ (target = .w2 ∧ row * call.rankWidth unit ≤ offset ∧
      offset < row * call.rankWidth unit + call.rankWidth unit)) :
    Copy.writes copies (⟨rank, target⟩, offset) = 0 := by
  apply Copy.writes_eq_zero
  intro copy member
  obtain ⟨region, above, below⟩ := exact_.within copy member
  by_contra covered
  rw [Bool.not_eq_false, Copy.covers_iff] at covered
  obtain ⟨same, lower, upper⟩ := covered
  apply other
  rw [same] at region
  refine ⟨region, ?_, ?_⟩
  · exact above.trans lower
  · exact upper.trans_le below

theorem owner_w2_iff (call : Export) (unit : call.shape.Unit) (rank offset : Nat) :
    call.owner unit rank .w2 offset = part ↔
      part * (call.shape.partSize / unit.size) ≤ rank * call.rankWidth unit + offset % call.rankWidth unit ∧
        rank * call.rankWidth unit + offset % call.rankWidth unit <
          part * (call.shape.partSize / unit.size) + call.shape.partSize / unit.size := by
  have positive := call.part_width_positive unit
  rw [owner, Nat.div_eq_iff positive]
  generalize call.shape.partSize / unit.size = width at *
  omega

theorem columns_exact {body : Nat → List (Copy Destination α)} (whole : unit.size ∣ call.gpuPart)
    (inParts : part < call.shape.tpCount)
    (rows : ∀ row < call.shape.hiddenSize, call.RowExact unit original row
      (part * (call.shape.partSize / unit.size))
      (part * (call.shape.partSize / unit.size) + call.shape.partSize / unit.size) (body row)) :
    (∀ rank offset, offset < call.cells unit .w2 → call.owner unit rank .w2 offset = part →
      Copy.Delivers ((List.range call.shape.hiddenSize).flatMap body) (⟨rank, .w2⟩, offset)
        (call.expected unit original rank .w2 offset)) ∧
    (∀ rank target offset, ¬ (target = Target.w2 ∧ rank < call.gpuTpCount ∧ offset < call.cells unit .w2 ∧
      call.owner unit rank .w2 offset = part) →
      Copy.writes ((List.range call.shape.hiddenSize).flatMap body) (⟨rank, target⟩, offset) = 0) := by
  have width := call.rankWidth_positive whole
  rw [call.cells_w2 whole]
  constructor
  · intro rank offset inCells owned
    have inRows : offset / call.rankWidth unit < call.shape.hiddenSize := by
      apply Nat.div_lt_of_lt_mul
      rwa [Nat.mul_comm]
    have split := Nat.div_add_mod' offset (call.rankWidth unit)
    have small := Nat.mod_lt offset width
    obtain ⟨above, below⟩ := (call.owner_w2_iff unit rank offset).mp owned
    apply Copy.Delivers.range inRows
    · have delivers := (rows _ inRows).inside rank _ small above below
      rw [split] at delivers
      rwa [expected, Nat.add_assoc]
    · intro other inRows' different
      apply (rows other inRows').elsewhere
      intro here
      obtain ⟨-, lower, upper⟩ := here
      apply different
      symm
      apply Nat.div_eq_of_lt_le lower
      rw [Nat.add_mul, Nat.one_mul]
      exact upper
  · intro rank target offset lacks
    apply Copy.writes_flatMap_zero
    intro row member
    have inRows := List.mem_range.mp member
    by_cases here : target = .w2 ∧ row * call.rankWidth unit ≤ offset ∧
        offset < row * call.rankWidth unit + call.rankWidth unit
    · obtain ⟨rfl, lower, upper⟩ := here
      have place : offset % call.rankWidth unit = offset - row * call.rankWidth unit := by
        rw [Nat.mod_eq_sub_div_mul, Nat.div_eq_of_lt_le lower]
        rw [Nat.add_mul, Nat.one_mul]
        exact upper
      have last : (row + 1) * call.rankWidth unit ≤ call.shape.hiddenSize * call.rankWidth unit :=
        Nat.mul_le_mul_right _ inRows
      rw [Nat.add_mul, Nat.one_mul] at last
      have zero := (rows row inRows).outside rank (offset - row * call.rankWidth unit) (by omega)
      rw [Nat.add_sub_cancel' lower] at zero
      apply zero
      intro inPart
      apply lacks
      rw [← place] at inPart
      have owned := (call.owner_w2_iff unit rank offset).mpr inPart
      refine ⟨rfl, ?_, by omega, owned⟩
      by_contra past
      have total : call.shape.tpCount * (call.shape.partSize / unit.size) ≤ rank * call.rankWidth unit := by
        rw [← call.gpu_mul_rankWidth whole]
        exact Nat.mul_le_mul_right _ (by omega)
      have mine : (part + 1) * (call.shape.partSize / unit.size) ≤
          call.shape.tpCount * (call.shape.partSize / unit.size) := Nat.mul_le_mul_right _ inParts
      rw [Nat.add_mul, Nat.one_mul] at mine
      have below := inPart.2
      omega
    · exact (rows row inRows).elsewhere here

theorem blocked_partExact {gate up body : Nat → List (Copy Destination α)} (whole : unit.size ∣ call.gpuPart)
    (inParts : part < call.shape.tpCount)
    (carries : ∀ row < call.shape.partSize,
      call.RowCarries unit original (part * call.shape.partSize + row) (gate row) (up row))
    (rows : ∀ row < call.shape.hiddenSize, call.RowExact unit original row
      (part * (call.shape.partSize / unit.size))
      (part * (call.shape.partSize / unit.size) + call.shape.partSize / unit.size) (body row)) :
    call.PartExact unit original part
      (((List.range call.shape.partSize).flatMap fun row => gate row ++ up row) ++
        (List.range call.shape.hiddenSize).flatMap body) := by
  obtain ⟨rowsIn, rowsOut⟩ := rows_exact inParts carries
  obtain ⟨columnsIn, columnsOut⟩ := columns_exact whole inParts rows
  refine ⟨?_, ?_, ?_⟩
  · intro rank target offset inRanks inCells owned
    cases target with
    | w13 => exact (rowsIn rank offset inRanks inCells owned).append_left (columnsOut _ _ _ (by simp))
    | w2 => exact (columnsIn rank offset inCells owned).append_right (rowsOut _ _ _ (by simp))
  · intro rank target offset inRanks inCells different
    rw [Copy.writes_append, rowsOut, columnsOut]
    · intro has
      obtain ⟨rfl, -, -, owned⟩ := has
      exact different owned
    · intro has
      obtain ⟨rfl, -, -, owned⟩ := has
      exact different owned
  · intro rank target offset out
    rw [Copy.writes_append, rowsOut, columnsOut]
    · intro has
      obtain ⟨rfl, inRanks, inCells, -⟩ := has
      exact out ⟨inRanks, inCells⟩
    · intro has
      obtain ⟨rfl, inRanks, inCells, -⟩ := has
      exact out ⟨inRanks, inCells⟩

/-- The blocks of a part's buffers are its slice of the expert. -/
def BlockedTable (call : Export) (bytes : Mat → Nat → UInt8) (part : Nat) (weights : Slot × Nat → UInt8) : Prop :=
  ∀ mat row byte, row < call.shape.rows mat → byte < call.shape.width call.shape.byte mat →
    weights (⟨mat, call.slot⟩, Layout.blocked.address (call.shape.rows mat) (call.shape.columns mat) row byte) =
      bytes mat (sliceOffset call.shape call.shape.byte part mat row byte)

section

variable {weights : Slot × Nat → UInt8} {bytes : Mat → Nat → UInt8}

/-- Whole tiles of a row go to consecutive places. -/
theorem copyWeightRow_carries (weights : Slot × Nat → UInt8) (slot : Slot) (n k row : Nat) {kStart kCount : Nat}
    (aligned : 64 ∣ kStart) (tiles : 64 ∣ kCount) (rank : Destination) (start : Nat) :
    Copy.Carries (copyWeightRow weights slot n k row kStart kCount rank start) rank start (kCount / 2) fun inner =>
      weights (slot, Layout.blocked.address n k row (kStart / 2 + inner)) := by
  obtain ⟨first, rfl⟩ := aligned
  obtain ⟨count, rfl⟩ := tiles
  have half : 64 * count / 2 = count * 32 := by omega
  have rounds : (64 * count + 63) / 64 = count := by omega
  have places : ∀ tile, tile * 64 / 2 = tile * 32 := by
    intro tile
    omega
  simp only [copyWeightRow, half, rounds, places]
  apply (Copy.strided_carries rank start 32 count _).congr
  intro inner inside
  have tile : (64 * first / 2 + inner) / 32 * 64 = 64 * first + inner / 32 * 64 := by omega
  have rest : (64 * first / 2 + inner) % 32 = inner % 32 := by omega
  simp only [Layout.address, tile, rest]

theorem blockedWeights_exact (tiles : 64 ∣ call.gpuPart) (hiddenTiles : 64 ∣ call.shape.hiddenSize)
    (partTiles : 64 ∣ call.shape.partSize) (inParts : part < call.shape.tpCount)
    (table : call.BlockedTable bytes part weights) :
    call.PartExact call.shape.byte bytes part (call.blockedWeights weights part) := by
  have pair : 2 ∣ 64 := by decide
  have even : call.shape.byte.size ∣ call.gpuPart := Nat.dvd_trans pair tiles
  have hiddenHalf : ∀ rows, rows * call.shape.hiddenSize / 2 = rows * (call.shape.hiddenSize / 2) := fun rows =>
    Nat.mul_div_assoc _ call.shape.byte.hidden
  have rankHalf : ∀ rows, rows * call.gpuPart / 2 = rows * (call.gpuPart / 2) := fun rows =>
    Nat.mul_div_assoc _ even
  have tasks : ∀ rows, rows ≤ numRowTasks * ((rows + numRowTasks - 1) / numRowTasks) := fun rows =>
    le_mul_ceil (by decide)
  simp only [blockedWeights, taskRows, flatMap_tasks (tasks _), hiddenHalf, rankHalf]
  apply blocked_partExact even inParts
  · intro row inRow
    constructor
    · apply (copyWeightRow_carries weights _ _ _ row (Nat.dvd_zero 64) hiddenTiles _ _).congr
      intro inner inside
      rw [Nat.zero_div, Nat.zero_add]
      exact table .gate row inner inRow inside
    · apply (copyWeightRow_carries weights _ _ _ row (Nat.dvd_zero 64) hiddenTiles _ _).congr
      intro inner inside
      rw [Nat.zero_div, Nat.zero_add]
      exact table .up row inner inRow inside
  · intro row inRow
    apply all_segments_rowExact pair even partTiles tiles
    intro segment valid
    apply (copyWeightRow_carries weights _ _ _ row valid.kLocal valid.kCount _ _).congr
    intro inner inside
    have half := (valid.cells pair even).2.2
    have bound : (segment.kLocal + segment.kCount) / call.shape.byte.size ≤
        call.shape.partSize / call.shape.byte.size := Nat.div_le_div_right valid.inPart
    rw [half] at bound
    have inWidth : segment.kLocal / call.shape.byte.size + inner < call.shape.partSize / call.shape.byte.size :=
      (Nat.add_lt_add_left inside _).trans_le bound
    have value := table .down row (segment.kLocal / 2 + inner) inRow inWidth
    rw [sliceOffset, Nat.add_assoc, ← Nat.add_assoc (part * _)] at value
    exact value

end

section

variable {S F : Type} {conversion : Conversion S F} {floats : Slot × Nat → F} {scales : Mat → Nat → S}

theorem LinearTable.row_gateUp {value : Mat → Nat → α} (table : call.LinearTable unit original part value)
    (notDown : mat ≠ .down) (inRow : row < call.shape.partSize)
    (inside : inner < call.shape.hiddenSize / unit.size) :
    value mat (row * (call.shape.hiddenSize / unit.size) + inner) =
      original mat ((part * call.shape.partSize + row) * (call.shape.hiddenSize / unit.size) + inner) := by
  rw [table.gateUp mat notDown]
  · congr 1
    rw [Shape.partCells]
    ring
  · rw [Shape.partCells, Nat.mul_comm call.shape.partSize]
    exact pairIndex_lt inRow inside

theorem blockedScales_exact (inParts : part < call.shape.tpCount)
    (table : call.LinearTable call.shape.group (fun mat offset => conversion.widen (scales mat offset)) part
      fun mat inner => floats (⟨mat, call.slot⟩, inner)) :
    call.PartExact call.shape.group scales part (call.blockedScales conversion floats part) := by
  have whole : call.shape.group.size ∣ call.gpuPart := call.group_dvd_gpuPart
  have itself : call.shape.group.size ∣ call.shape.groupSize := Nat.dvd_refl _
  have tasks : ∀ rows, rows ≤ numRowTasks * ((rows + numRowTasks - 1) / numRowTasks) := fun rows =>
    le_mul_ceil (by decide)
  simp only [blockedScales, taskRows, flatMap_tasks (tasks _)]
  apply blocked_partExact whole inParts
  · intro row inRow
    constructor
    · apply (Copy.single_carries _ _ _ _).congr
      intro inner inside
      exact (congrArg conversion.narrow (table.row_gateUp (by decide) inRow inside)).trans
        (conversion.narrow_widen _)
    · apply (Copy.single_carries _ _ _ _).congr
      intro inner inside
      exact (congrArg conversion.narrow (table.row_gateUp (by decide) inRow inside)).trans
        (conversion.narrow_widen _)
  · intro row inRow
    apply all_segments_rowExact itself whole call.shape.partGroups whole
    intro segment valid
    apply (Copy.single_carries _ _ _ _).congr
    intro inner inside
    have groups := (valid.cells itself whole).2.2
    have bound : (segment.kLocal + segment.kCount) / call.shape.group.size ≤
        call.shape.partSize / call.shape.group.size := Nat.div_le_div_right valid.inPart
    rw [groups] at bound
    have inWidth : segment.kLocal / call.shape.group.size + inner < call.shape.partSize / call.shape.group.size :=
      (Nat.add_lt_add_left inside _).trans_le bound
    have value := table.down row _ inRow inWidth
    rw [Nat.add_assoc, ← Nat.add_assoc (row * _), ← Nat.add_assoc (part * _)] at value
    exact (congrArg conversion.narrow value).trans (conversion.narrow_widen _)

end

end Export

end KtKernel.K2
