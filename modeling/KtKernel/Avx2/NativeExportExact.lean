import KtKernel.Avx2.NativeExportShares

namespace KtKernel.Avx2

open KtKernel.Data
open KtKernel.Amx.ExpertFiles (Mat)

/-! Which calls re-shard exactly. -/

namespace Export

variable {call : Export} {source : Origin × Nat → Cell} {buffers : Nat → Buffers} {read : Slot → Nat → Cell} {part : Nat}
  {table : Table}

def Empty (call : Export) : Prop :=
  call.hidden = 0 ∨ call.config.intermediateSize = 0

/-- Where the call re-shards exactly or throws.  RAWINT4 and MXFP4 check the expert. -/
def Meets (call : Export) : Prop :=
  match call.backend with
  | .gptqInt4 => True
  | .rawInt4 | .mxfp4 => ¬call.InRange ∨ call.Empty ∨ (call.load.Filled call.expertId.toNat ∧ call.Counts)
  | _ => call.InRange ∧ (call.Empty ∨ call.Nested)

theorem walks_or_divides (exports : call.backend ≠ .gptqInt4) : call.Walks ∨ call.Divides := by
  unfold Walks Divides
  cases backend : call.backend <;> simp [backend] at exports ⊢

theorem copies_inRange (exports : call.backend ≠ .gptqInt4) (inRange : call.InRange) (read : Nat → Slot → Nat → Cell) :
    call.copies read = .ok (some ((List.range call.config.tpCount).flatMap fun part => call.partCopies (read part) part)) := by
  have inside : ¬(call.expertId < 0 ∨ (call.config.expertNum : Int) ≤ call.expertId) := by
    obtain ⟨nonneg, below⟩ := inRange
    omega
  unfold copies
  cases backend : call.backend with
  | gptqInt4 => exact absurd backend exports
  | bf16 => simp only [if_neg inside]
  | fp8 => simp only [if_neg inside]
  | mxfp8 => simp only [if_neg inside]
  | rawInt4 => simp only [if_neg inside]
  | mxfp4 => simp only [if_neg inside]

theorem partCopies_walks (walks : call.Walks) (read : Slot → Nat → Cell) (part : Nat) :
    call.partCopies read part = call.rowCopies read part := by
  unfold partCopies
  rcases walks with backend | backend | backend <;> rw [backend]

theorem partCopies_divides (divides : call.Divides) (read : Slot → Nat → Cell) (part : Nat) :
    call.partCopies read part =
      if call.config.tpCount ≥ call.gpuTpCount then call.manyCopies read part else call.oneCopies read part := by
  unfold partCopies
  rcases divides with backend | backend <;> rw [backend]

theorem exactly_of_walks (walks : call.Walks) (ready : call.Ready source buffers) (nested : call.Nested)
    (someSize : 0 < call.config.intermediateSize) :
    Copy.Exactly ((List.range call.config.tpCount).flatMap fun part => call.partCopies ((buffers part).read source) part)
      (call.expected source) := by
  have someRank : 0 < call.gpuPart := by
    rw [← call.ranks_whole] at someSize
    exact Nat.pos_of_mul_pos_left someSize
  have somePart : 0 < call.partSize := by
    rw [← call.parts_whole] at someSize
    exact Nat.pos_of_mul_pos_left someSize
  apply exactly_of_jobs ready.exports (some_experts ready.inRange) (bytes_of_walks walks)
  · intro part _
    rw [partCopies_walks walks]
    exact rowCopies_perm walks _ part
  · intro table inTables part inParts
    exact walkJob_exactly walks ready inParts nested someRank somePart inTables

theorem exactly_of_divides (divides : call.Divides) (ready : call.Ready source buffers) (counts : call.Counts)
    (someHidden : 0 < call.hidden) :
    Copy.Exactly ((List.range call.config.tpCount).flatMap fun part => call.partCopies ((buffers part).read source) part)
      (call.expected source) := by
  have some_ := some_experts ready.inRange
  have bytes := bytes_of_counts some_ counts
  by_cases many : call.config.tpCount ≥ call.gpuTpCount
  · have divided : call.gpuTpCount ∣ call.config.tpCount := by
      rcases counts with divided | ⟨other, -⟩
      · exact divided
      · have le := Nat.le_of_dvd call.ranks other
        rw [Nat.le_antisymm le many]
    have ratio : call.config.tpCount = call.gpuTpCount * call.ratio := (Nat.mul_div_cancel' divided).symm
    apply exactly_of_jobs ready.exports some_ bytes
    · intro part _
      rw [partCopies_divides divides, if_pos many]
      exact manyCopies_perm divides _ part
    · intro table _ part inParts
      exact manyJob_exactly divides ready inParts ratio table
  · have divided : call.config.tpCount ∣ call.gpuTpCount := by
      rcases counts with other | ⟨divided, -⟩
      · exact absurd (Nat.le_of_dvd call.load.pools other) many
      · exact divided
    have ratio : call.gpuTpCount = call.config.tpCount * call.ranksPerPart := (Nat.mul_div_cancel' divided).symm
    have someRatio : 0 < call.ranksPerPart := by
      have ranks := call.ranks
      rw [ratio] at ranks
      exact Nat.pos_of_mul_pos_left ranks
    apply exactly_of_jobs ready.exports some_ bytes
    · intro part _
      rw [partCopies_divides divides, if_neg many]
      exact oneCopies_perm divides _ part
    · intro table _ part inParts
      exact oneJob_exactly divides ready inParts bytes someHidden someRatio ratio table

/-! ## Calls on nothing -/

theorem matrixSize_empty (exports : call.backend ≠ .gptqInt4) (empty : call.Empty) (table : Table) :
    call.matrixSize table = 0 := by
  have elems : (call.grid table).elems call.gpuPart = 0 := by
    rw [Grid.elems]
    rcases empty with hidden | size
    · have across : (call.grid table).across = 0 := call.load.across_zero hidden table
      rw [across, Nat.mul_zero]
    · have none : call.gpuPart = 0 := by rw [gpuPart, size, Nat.zero_div]
      rw [none, count_eq exports (Nat.dvd_zero _), Nat.zero_div, Nat.zero_mul]
  have bytes : call.gpuTpWeightBytes = 0 := by
    rw [gpuTpWeightBytes]
    rcases empty with hidden | size
    · rw [hidden, Nat.mul_zero, Nat.zero_div, Nat.zero_div]
    · rw [size, Nat.zero_mul, Nat.zero_div, Nat.zero_div]
  unfold matrixSize
  split
  · exact bytes
  · exact bytes
  · exact elems

theorem expected_empty (exports : call.backend ≠ .gptqInt4) (empty : call.Empty) (source : Origin × Nat → Cell)
    (cell : Destination × Nat) : call.expected source cell = none := by
  apply List.findSome?_eq_none_iff.mpr
  intro table _
  rw [expectedOf, matrixSize_empty exports empty, if_neg]
  intro inside
  omega

theorem partSize_empty (size : call.config.intermediateSize = 0) : call.partSize = 0 := by
  rw [partSize, Config.partSize, size, Nat.zero_div]

theorem divUp_zero (width : Nat) : divUp 0 width = 0 := by
  rw [divUp, Nat.zero_add]
  rcases Nat.eq_zero_or_pos width with rfl | positive
  · rfl
  · exact Nat.div_eq_of_lt (Nat.sub_one_lt (Nat.ne_of_gt positive))

theorem steps_zero (width : Nat) : steps 0 width = [] := by
  rw [steps, divUp_zero]
  rfl

theorem w13_empty (hidden : call.hidden = 0) {mat : Mat} {row : Nat} {copy : Copy Destination Cell}
    (member : copy ∈ call.w13Weight read part mat row ∨ copy ∈ call.w13Scale read part mat row) : copy.length = 0 := by
  rcases member with weight | scale
  · obtain rfl := List.mem_singleton.mp weight
    exact hidden
  · unfold w13Scale at scale
    cases backend : call.backend with
    | fp8 =>
        simp only [backend, hidden, divUp_zero] at scale
        split at scale
        · obtain rfl := List.mem_singleton.mp scale
          rfl
        · contradiction
    | mxfp8 =>
        simp only [backend, hidden, Nat.zero_div] at scale
        obtain rfl := List.mem_singleton.mp scale
        rfl
    | bf16 => simp [backend] at scale
    | gptqInt4 => simp [backend] at scale
    | rawInt4 => simp [backend] at scale
    | mxfp4 => simp [backend] at scale

theorem walkJob_empty (empty : call.Empty) {copy : Copy Destination Cell} (member : copy ∈ call.walkJob read part table) :
    copy.length = 0 := by
  obtain ⟨mat, kind⟩ := table
  rcases empty with hidden | size
  · have rows {mat : Mat} {copies : Nat → List (Copy Destination Cell)}
        (inJob : copy ∈ (List.range call.partSize).flatMap copies)
        (each : ∀ row, copy ∈ copies row → copy ∈ call.w13Weight read part mat row ∨ copy ∈ call.w13Scale read part mat row) :
        copy.length = 0 := by
      obtain ⟨row, -, inRow⟩ := List.mem_flatMap.mp inJob
      exact w13_empty hidden (each row inRow)
    cases mat with
    | down => cases kind <;> simp [walkJob, hidden] at member
    | gate =>
        cases kind with
        | weight => exact rows member fun _ => .inl
        | scale => exact rows member fun _ => .inr
    | up =>
        cases kind with
        | weight => exact rows member fun _ => .inl
        | scale => exact rows member fun _ => .inr
  · have none := partSize_empty size
    cases mat <;> cases kind <;> simp [walkJob, none, steps_zero] at member

theorem rowsCopy_empty {kind : Kind} {region : Destination} {start total : Nat} {value : Nat → Cell} (none : total = 0)
    {copy : Copy Destination Cell} (member : copy ∈ rowsCopy kind region start total value) : copy.length = 0 := by
  obtain ⟨_, above, below⟩ := (rowsCopy_carries kind region start total value).within copy member
  omega

theorem partCells_empty (empty : call.Empty) (kind : Kind) : call.partCells kind = 0 := by
  rw [partCells]
  rcases empty with hidden | size
  · rw [hidden, Nat.mul_zero, Nat.zero_div]
  · rw [partSize_empty size, Nat.zero_mul, Nat.zero_div]

theorem manyJob_empty (empty : call.Empty) {copy : Copy Destination Cell} (member : copy ∈ call.manyJob read part table) :
    copy.length = 0 := by
  obtain ⟨mat, kind⟩ := table
  by_cases columns : mat = .down
  · subst columns
    obtain ⟨column, inHidden, inRow⟩ := List.mem_flatMap.mp member
    obtain rfl := List.mem_singleton.mp inRow
    rcases empty with hidden | size
    · rw [hidden] at inHidden
      contradiction
    · simp only [partSize_empty size, Nat.zero_div]
  · rw [manyJob_rows columns] at member
    exact rowsCopy_empty (partCells_empty empty kind) member

theorem oneJob_empty (empty : call.Empty) {local_ : Nat} {copy : Copy Destination Cell}
    (member : copy ∈ call.oneJob read part local_ table) : copy.length = 0 := by
  obtain ⟨mat, kind⟩ := table
  by_cases columns : mat = .down
  · subst columns
    obtain ⟨column, inHidden, inRow⟩ := List.mem_flatMap.mp member
    obtain rfl := List.mem_singleton.mp inRow
    rcases empty with hidden | size
    · rw [hidden] at inHidden
      contradiction
    · simp only [partSize_empty size, Nat.zero_div]
  · rw [oneJob_rows columns] at member
    apply rowsCopy_empty _ member
    rw [partCells_empty empty, Nat.zero_div]

theorem mem_partCopies (exports : call.backend ≠ .gptqInt4) {copy : Copy Destination Cell} :
    copy ∈ call.partCopies read part ↔ ∃ table ∈ call.backend.tables,
      if call.backend = .rawInt4 ∨ call.backend = .mxfp4 then
        if call.config.tpCount ≥ call.gpuTpCount then copy ∈ call.manyJob read part table
        else ∃ local_ < call.ranksPerPart, copy ∈ call.oneJob read part local_ table
      else copy ∈ call.walkJob read part table := by
  rcases walks_or_divides exports with walks | divides
  · have other : ¬(call.backend = .rawInt4 ∨ call.backend = .mxfp4) := by
      rcases walks with backend | backend | backend <;> rw [backend] <;> decide
    simp only [if_neg other, partCopies_walks walks, (rowCopies_perm walks read part).mem_iff, List.mem_flatMap]
  · simp only [if_pos (show call.backend = .rawInt4 ∨ call.backend = .mxfp4 from divides), partCopies_divides divides]
    split
    · simp only [(manyCopies_perm divides read part).mem_iff, List.mem_flatMap]
    · simp only [(oneCopies_perm divides read part).mem_iff, List.mem_flatMap, List.mem_range]

theorem exactly_of_empty (exports : call.backend ≠ .gptqInt4) (empty : call.Empty) (source : Origin × Nat → Cell)
    (read : Nat → Slot → Nat → Cell) :
    Copy.Exactly ((List.range call.config.tpCount).flatMap fun part => call.partCopies (read part) part)
      (call.expected source) := by
  apply Copy.Exactly.empty
  · intro copy member
    obtain ⟨part, -, inPart⟩ := List.mem_flatMap.mp member
    obtain ⟨table, -, inTable⟩ := (mem_partCopies exports).mp inPart
    split at inTable
    · split at inTable
      · exact manyJob_empty empty inTable
      · obtain ⟨_, -, inShare⟩ := inTable
        exact oneJob_empty empty inShare
    · exact walkJob_empty empty inTable
  · exact expected_empty exports empty source

theorem filled_of_walks (walks : call.Walks) (slot : Nat) : call.load.Filled slot := by
  unfold Load.Filled
  rcases walks with backend | backend | backend <;> rw [show call.load.backend = _ from backend] <;> trivial

theorem reshards_of_meets (call : Export) (meets : call.Meets) : call.Reshards := by
  intro source buffers typed loaded copies returned
  by_cases gptq : call.backend = .gptqInt4
  · rw [Export.copies, gptq] at returned
    contradiction
  rcases walks_or_divides gptq with walks | divides
  · have conditions : call.InRange ∧ (call.Empty ∨ call.Nested) := by
      unfold Meets at meets
      rcases walks with backend | backend | backend <;> rwa [backend] at meets
    obtain ⟨inRange, sizes⟩ := conditions
    rw [copies_inRange gptq inRange] at returned
    cases returned
    refine ⟨_, rfl, ?_⟩
    by_cases empty : call.Empty
    · exact exactly_of_empty gptq empty source _
    · have someSize : 0 < call.config.intermediateSize := Nat.pos_of_ne_zero fun none => empty (.inr none)
      exact exactly_of_walks walks ⟨gptq, inRange, filled_of_walks walks _, typed, loaded⟩ (sizes.resolve_left empty) someSize
  · have conditions : ¬call.InRange ∨ call.Empty ∨ (call.load.Filled call.expertId.toNat ∧ call.Counts) := by
      unfold Meets at meets
      rcases divides with backend | backend <;> rwa [backend] at meets
    by_cases inRange : call.InRange
    · rw [copies_inRange gptq inRange] at returned
      cases returned
      refine ⟨_, rfl, ?_⟩
      by_cases empty : call.Empty
      · exact exactly_of_empty gptq empty source _
      · have someHidden : 0 < call.hidden := Nat.pos_of_ne_zero fun none => empty (.inl none)
        obtain ⟨filled, counts⟩ := (conditions.resolve_left (not_not.mpr inRange)).resolve_left empty
        exact exactly_of_divides divides ⟨gptq, inRange, filled, typed, loaded⟩ counts someHidden
    · have outside : call.expertId < 0 ∨ (call.config.expertNum : Int) ≤ call.expertId := by
        unfold InRange at inRange
        omega
      unfold Export.copies at returned
      rcases divides with backend | backend
      · rw [backend] at returned
        simp only [if_pos outside] at returned
        contradiction
      · rw [backend] at returned
        simp only [if_pos outside] at returned
        contradiction

/-! ## Calls that do not re-shard -/

theorem typed_zero (call : Export) : call.Typed fun _ => 0 := by
  intro cell _
  cases call.backend <;> first | trivial | exact (by decide : (0 : Cell) < 0x100) | exact (by decide : (0 : Cell) < 0x10000)

/-- What a re-sharding call does on a source of zeros, from any buffers. -/
theorem list_of_reshards (reshards : call.Reshards) (buffers : Nat → Buffers)
    (loaded : ∀ part < call.config.tpCount, Loaded call.backend call.config (fun _ => 0) part (buffers part))
    (exports : call.backend ≠ .gptqInt4) (inRange : call.InRange) :
    Copy.Exactly ((List.range call.config.tpCount).flatMap fun part =>
      call.partCopies ((buffers part).read fun _ => 0) part) (call.expected fun _ => 0) := by
  obtain ⟨list, same, exactly⟩ := reshards (fun _ => 0) buffers call.typed_zero loaded _
    (copies_inRange exports inRange _)
  rw [Option.some.inj same]
  exact exactly

theorem inRange_of_reshards (walks : call.Walks) (reshards : call.Reshards) : call.InRange := by
  by_contra inRange
  have outside : call.expertId < 0 ∨ (call.config.expertNum : Int) ≤ call.expertId := by
    unfold InRange at inRange
    omega
  choose buffers loaded using fun part => call.load.exists_loaded (fun _ => 0) part
  have returned : call.copies (fun part => (buffers part).read fun _ => 0) = .ok none := by
    unfold Export.copies
    rcases walks with backend | backend | backend <;> rw [backend] <;> simp only [if_pos outside]
  obtain ⟨list, same, -⟩ := reshards (fun _ => 0) buffers call.typed_zero (fun part _ => loaded part) _ returned
  contradiction

/-- A copy that writes outside of what the ranks should hold. -/
theorem not_outside {call : Export} {source : Origin × Nat → Cell} {read : Nat → Slot → Nat → Cell}
    (exactly : Copy.Exactly ((List.range call.config.tpCount).flatMap fun part => call.partCopies (read part) part)
      (call.expected source)) (inParts : part < call.config.tpCount) {copy : Copy Destination Cell}
    (member : copy ∈ call.partCopies (read part) part) {cell : Destination × Nat} (covers : copy.covers cell = true)
    (outside : call.expected source cell = none) : False := by
  have written : 0 < Copy.writes
      ((List.range call.config.tpCount).flatMap fun part => call.partCopies (read part) part) cell :=
    Copy.writes_pos (List.mem_flatMap.mpr ⟨part, List.mem_range.mpr inParts, member⟩) covers
  rw [exactly.outside cell outside] at written
  contradiction

theorem expected_past (call : Export) (source : Origin × Nat → Cell) {cell : Destination × Nat}
    (past : ∀ table ∈ call.backend.tables, buffer table = cell.1.2 → cell.1.1 < call.gpuTpCount →
      call.base table + call.matrixSize table ≤ cell.2) : call.expected source cell = none := by
  apply List.findSome?_eq_none_iff.mpr
  intro table member
  rw [expectedOf, if_neg]
  intro inside
  have bound := past table member inside.1.symm inside.2.1
  omega

/-- Where the widths do not nest, some slice of a row of down crosses the end of a rank's
row. -/
theorem exists_crossing (call : Export) (crossed : ¬call.Nested) (someSize : 0 < call.config.intermediateSize) :
    ∃ part < call.config.tpCount,
      call.gpuPart < part * call.partSize % call.gpuPart + min call.gpuPart call.partSize := by
  have ranks := call.ranks_whole
  have parts := call.parts_whole
  have pools : 0 < call.config.tpCount := call.load.pools
  have someRank : 0 < call.gpuPart := by
    rw [← ranks] at someSize
    exact Nat.pos_of_mul_pos_left someSize
  have somePart : 0 < call.partSize := by
    rw [← parts] at someSize
    exact Nat.pos_of_mul_pos_left someSize
  have same : call.partSize * call.config.tpCount = call.gpuPart * call.gpuTpCount := by
    rw [Nat.mul_comm, parts, Nat.mul_comm, ranks]
  have notMany : ¬call.partSize ∣ call.gpuPart := fun many => crossed (.inl (dvd_of_counts somePart same many))
  have notOne : ¬call.gpuPart ∣ call.partSize := fun one => crossed (.inr (dvd_of_counts someRank same.symm one))
  rcases Nat.lt_or_ge call.partSize call.gpuPart with less | more
  · refine ⟨call.gpuPart / call.partSize, ?_, ?_⟩
    · have floor := Nat.div_mul_le_self call.gpuPart call.partSize
      have whole : call.gpuPart / call.partSize * call.partSize ≠ call.gpuPart :=
        fun exact_ => notMany (Dvd.intro_left _ exact_)
      have le : call.gpuPart ≤ call.gpuTpCount * call.gpuPart := Nat.le_mul_of_pos_left _ call.ranks
      rw [ranks, ← parts] at le
      exact Nat.lt_of_mul_lt_mul_right (lt_of_lt_of_le (lt_of_le_of_ne floor whole) le)
    · have floor := Nat.div_mul_le_self call.gpuPart call.partSize
      have whole : call.gpuPart / call.partSize * call.partSize ≠ call.gpuPart :=
        fun exact_ => notMany (Dvd.intro_left _ exact_)
      have next := Nat.lt_div_mul_add somePart (a := call.gpuPart)
      rw [Nat.mod_eq_of_lt (lt_of_le_of_ne floor whole), Nat.min_eq_right less.le]
      exact next
  · have someRest : 0 < call.partSize % call.gpuPart :=
      Nat.pos_of_ne_zero fun none => notOne (Nat.dvd_of_mod_eq_zero none)
    refine ⟨1, ?_, ?_⟩
    · have several : call.config.tpCount ≠ 1 := by
        intro one
        exact crossed (.inr (by rw [one]; exact Nat.one_dvd _))
      omega
    · rw [Nat.one_mul, Nat.min_eq_left more]
      omega

theorem nested_of_reshards (walks : call.Walks) (reshards : call.Reshards) (someHidden : 0 < call.hidden)
    (someSize : 0 < call.config.intermediateSize) : call.Nested := by
  by_contra crossed
  have exports := exports_of_walks walks
  have inRange := inRange_of_reshards walks reshards
  obtain ⟨part, inParts, crosses⟩ := call.exists_crossing crossed someSize
  choose buffers loaded using fun part => call.load.exists_loaded (fun _ => 0) part
  have exactly := list_of_reshards reshards buffers (fun part _ => loaded part) exports inRange
  have someRank : 0 < call.gpuPart := by
    rw [← call.ranks_whole] at someSize
    exact Nat.pos_of_mul_pos_left someSize
  have somePart : 0 < call.partSize := by
    rw [← call.parts_whole] at someSize
    exact Nat.pos_of_mul_pos_left someSize
  -- the slice of the last row at the part's first column
  have inSteps : 0 ∈ steps call.partSize call.gpuPart := by
    apply List.mem_map.mpr
    refine ⟨0, List.mem_range.mpr ?_, Nat.zero_mul _⟩
    exact Nat.div_pos (by omega) someRank
  have inJob : ∀ copy ∈ call.w2Weight ((buffers part).read fun _ => 0) part (call.hidden - 1) 0,
      copy ∈ call.partCopies ((buffers part).read fun _ => 0) part := by
    intro copy member
    rw [partCopies_walks walks, (rowCopies_perm walks _ part).mem_iff]
    refine List.mem_flatMap.mpr ⟨⟨.down, .weight⟩, Load.mem_down call.backend, ?_⟩
    exact List.mem_flatMap.mpr ⟨0, inSteps, List.mem_flatMap.mpr ⟨call.hidden - 1, List.mem_range.mpr (by omega), member⟩⟩
  have lastRow : (call.hidden - 1) * call.gpuPart + call.gpuPart = call.hidden * call.gpuPart := by
    rw [← Nat.succ_mul, Nat.succ_eq_add_one, Nat.sub_add_cancel someHidden]
  have small := Nat.mod_lt (part * call.partSize) someRank
  have outside : call.expected (fun _ => 0)
      (((part * call.partSize + 0) / call.gpuPart, ⟨.w2, .weight⟩), call.hidden * call.gpuPart) = none := by
    apply expected_past
    intro table _ region _
    obtain rfl : table = ⟨.down, .weight⟩ := by
      obtain ⟨mat, kind⟩ := table
      cases mat <;> cases kind <;> simp [buffer] at region
      rfl
    have size := call.matrixSize_eq (some_experts inRange) (bytes_of_walks walks) ⟨.down, .weight⟩
    rw [grid_weight walks] at size
    rw [size, base, Nat.zero_add, Grid.elems, Nat.mul_comm]
    exact Nat.le_refl _
  apply not_outside exactly inParts (inJob _ (List.mem_singleton_self _)) _ outside
  rw [Copy.covers_iff]
  refine ⟨rfl, ?_, ?_⟩
  · simp only [Nat.add_zero]
    omega
  · simp only [Nat.add_zero, Nat.sub_zero]
    omega

/-! ## Divided counts -/

theorem mem_manyCopies (divides : call.Divides) (many : call.config.tpCount ≥ call.gpuTpCount)
    {copy : Copy Destination Cell} : copy ∈ call.partCopies read part ↔ ∃ table, copy ∈ call.manyJob read part table := by
  rw [mem_partCopies (exports_of_divides divides)]
  simp only [if_pos (show call.backend = .rawInt4 ∨ call.backend = .mxfp4 from divides), if_pos many]
  exact ⟨fun ⟨table, _, member⟩ => ⟨table, member⟩, fun ⟨table, member⟩ => ⟨table, mem_tables divides table, member⟩⟩

theorem mem_oneCopies (divides : call.Divides) (one : ¬call.config.tpCount ≥ call.gpuTpCount) {copy : Copy Destination Cell} :
    copy ∈ call.partCopies read part ↔ ∃ table, ∃ local_ < call.ranksPerPart, copy ∈ call.oneJob read part local_ table := by
  rw [mem_partCopies (exports_of_divides divides)]
  simp only [if_pos (show call.backend = .rawInt4 ∨ call.backend = .mxfp4 from divides), if_neg one]
  exact ⟨fun ⟨table, _, member⟩ => ⟨table, member⟩, fun ⟨table, member⟩ => ⟨table, mem_tables divides table, member⟩⟩

/-- The rank of the copies of a part, where a rank has several parts. -/
theorem manyJob_region {copy : Copy Destination Cell} (member : copy ∈ call.manyJob read part table) :
    copy.region = (part / call.ratio, buffer table) := by
  obtain ⟨mat, kind⟩ := table
  by_cases columns : mat = .down
  · subst columns
    obtain ⟨column, -, inRow⟩ := List.mem_flatMap.mp member
    rw [List.mem_singleton.mp inRow]
    rfl
  · rw [manyJob_rows columns] at member
    rw [buffer_w13 columns]
    exact ((rowsCopy_carries _ _ _ _ _).within copy member).1

theorem oneJob_region {local_ : Nat} {copy : Copy Destination Cell} (member : copy ∈ call.oneJob read part local_ table) :
    copy.region = (part * call.ranksPerPart + local_, buffer table) := by
  obtain ⟨mat, kind⟩ := table
  by_cases columns : mat = .down
  · subst columns
    obtain ⟨column, -, inRow⟩ := List.mem_flatMap.mp member
    rw [List.mem_singleton.mp inRow]
    rfl
  · rw [oneJob_rows columns] at member
    rw [buffer_w13 columns]
    exact ((rowsCopy_carries _ _ _ _ _).within copy member).1

/-- A cell that the ranks should hold comes out of a copy. -/
theorem copy_of_expected {call : Export} {source : Origin × Nat → Cell} {read : Nat → Slot → Nat → Cell}
    (exactly : Copy.Exactly ((List.range call.config.tpCount).flatMap fun part => call.partCopies (read part) part)
      (call.expected source)) {cell : Destination × Nat} {value : Cell} (found : call.expected source cell = some value) :
    ∃ part < call.config.tpCount, ∃ copy ∈ call.partCopies (read part) part,
      copy.covers cell = true ∧ copy.value (cell.2 - copy.start) = value := by
  obtain ⟨copy, member, covers, same⟩ := (exactly.inside cell value found).value
  obtain ⟨part, inParts, inPart⟩ := List.mem_flatMap.mp member
  exact ⟨part, List.mem_range.mp inParts, copy, inPart, covers, same⟩

theorem expected_some (call : Export) (source : Origin × Nat → Cell) {cell : Destination × Nat} {table : Table}
    (inTables : table ∈ call.backend.tables) (region : cell.1.2 = buffer table) (inRanks : cell.1.1 < call.gpuTpCount)
    (above : call.base table ≤ cell.2) (below : cell.2 < call.base table + call.matrixSize table) :
    ∃ value, call.expected source cell = some value := by
  apply Option.isSome_iff_exists.mp
  apply List.findSome?_isSome_iff.mpr
  refine ⟨table, inTables, ?_⟩
  rw [expectedOf, if_pos ⟨region, inRanks, above, below⟩]
  rfl

theorem rank_sizes (someSize : 0 < call.config.intermediateSize) : 0 < call.partSize ∧ 0 < call.gpuPart := by
  constructor
  · rw [← call.parts_whole] at someSize
    exact Nat.pos_of_mul_pos_left someSize
  · rw [← call.ranks_whole] at someSize
    exact Nat.pos_of_mul_pos_left someSize

/-- The scales of a row are there. -/
theorem some_scales (divides : call.Divides) (some_ : call.config.expertNum ≠ 0) (someHidden : 0 < call.hidden) :
    0 < call.hidden / call.group := by
  have whole := unit_dvd_hidden divides some_ .scale
  exact Nat.div_pos (Nat.le_of_dvd someHidden whole) (call.group_pos (quantized_of_divides divides))

/-- Where the ranks' count does not divide the parts', the last part goes past the
ranks. -/
theorem many_of_exactly (divides : call.Divides) (inRange : call.InRange) (someHidden : 0 < call.hidden)
    (someSize : 0 < call.config.intermediateSize) (many : call.config.tpCount ≥ call.gpuTpCount)
    {source : Origin × Nat → Cell} {read : Nat → Slot → Nat → Cell}
    (exactly : Copy.Exactly ((List.range call.config.tpCount).flatMap fun part => call.partCopies (read part) part)
      (call.expected source)) : call.gpuTpCount ∣ call.config.tpCount := by
  by_contra rest
  have some_ := some_experts inRange
  obtain ⟨somePart, -⟩ := rank_sizes someSize
  have whole := Nat.div_add_mod' call.config.tpCount call.gpuTpCount
  have left : call.config.tpCount % call.gpuTpCount ≠ 0 := fun none => rest (Nat.dvd_of_mod_eq_zero none)
  have someRatio : 0 < call.ratio := Nat.div_pos many call.ranks
  have ratioEq : call.config.tpCount / call.gpuTpCount = call.ratio := rfl
  rw [ratioEq, Nat.mul_comm] at whole
  have inParts : call.config.tpCount - 1 < call.config.tpCount := Nat.sub_one_lt (Nat.ne_of_gt call.load.pools)
  have past : call.gpuTpCount ≤ (call.config.tpCount - 1) / call.ratio := by
    apply (Nat.le_div_iff_mul_le someRatio).mpr
    omega
  have cells : 0 < call.partCells .scale := by
    rw [partCells_eq divides some_]
    exact Nat.mul_pos somePart (some_scales divides some_ someHidden)
  have outside : call.expected source (((call.config.tpCount - 1) / call.ratio, ⟨.w13, .scale⟩),
      (call.config.tpCount - 1) % call.ratio * call.partCells .scale) = none := by
    apply expected_past
    intro table _ _ inRanks
    simp only at inRanks
    omega
  have inPart : ∀ copy ∈ call.manyJob (read (call.config.tpCount - 1)) (call.config.tpCount - 1) ⟨.gate, .scale⟩,
      copy ∈ call.partCopies (read (call.config.tpCount - 1)) (call.config.tpCount - 1) :=
    fun copy member => (mem_manyCopies divides many).mpr ⟨_, member⟩
  apply not_outside exactly inParts (inPart _ (List.mem_singleton_self _)) _ outside
  rw [Copy.covers_iff]
  exact ⟨rfl, Nat.le_refl _, Nat.lt_add_of_pos_right cells⟩

/-- Where the parts' count does not divide the ranks', the last rank gets nothing. -/
theorem one_of_exactly (divides : call.Divides) (inRange : call.InRange) (someHidden : 0 < call.hidden)
    (someSize : 0 < call.config.intermediateSize) (one : ¬call.config.tpCount ≥ call.gpuTpCount)
    {source : Origin × Nat → Cell} {read : Nat → Slot → Nat → Cell}
    (exactly : Copy.Exactly ((List.range call.config.tpCount).flatMap fun part => call.partCopies (read part) part)
      (call.expected source)) : call.config.tpCount ∣ call.gpuTpCount := by
  by_contra rest
  have some_ := some_experts inRange
  obtain ⟨-, someRank⟩ := rank_sizes someSize
  have whole := Nat.div_add_mod' call.gpuTpCount call.config.tpCount
  have left : call.gpuTpCount % call.config.tpCount ≠ 0 := fun none => rest (Nat.dvd_of_mod_eq_zero none)
  have ratioEq : call.gpuTpCount / call.config.tpCount = call.ranksPerPart := rfl
  rw [ratioEq, Nat.mul_comm] at whole
  have size : call.matrixSize ⟨.gate, .scale⟩ = call.gpuPart * (call.hidden / call.group) := by
    have scales : call.matrixSize ⟨.gate, .scale⟩ = (call.grid ⟨.gate, .scale⟩).elems call.gpuPart := by
      unfold matrixSize
      rcases divides with backend | backend <;> rw [backend]
    rw [scales, gridRows divides (by decide)]
    rfl
  obtain ⟨value, found⟩ := call.expected_some source (mem_tables divides ⟨.gate, .scale⟩)
    (show (((call.gpuTpCount - 1, ⟨.w13, .scale⟩), 0) : Destination × Nat).1.2 = buffer ⟨.gate, .scale⟩ from rfl)
    (Nat.sub_one_lt (Nat.ne_of_gt call.ranks)) (Nat.le_refl _) (by
      rw [size]
      exact Nat.lt_add_left _ (Nat.mul_pos someRank (some_scales divides some_ someHidden)))
  obtain ⟨part, inParts, copy, member, covers, -⟩ := copy_of_expected exactly found
  obtain ⟨table, local_, inShare, inJob⟩ := (mem_oneCopies divides one).mp member
  have region := (Copy.covers_iff.mp covers).1
  rw [oneJob_region inJob] at region
  have rank : part * call.ranksPerPart + local_ = call.gpuTpCount - 1 := congrArg Prod.fst region
  have inRanks := pairIndex_lt inParts inShare
  rw [Nat.mul_comm call.ranksPerPart] at inRanks
  omega

/-- Where the ranks' columns are odd, the last byte of down gets nothing. -/
theorem bytes_of_exactly (divides : call.Divides) (inRange : call.InRange) (someHidden : 0 < call.hidden)
    (one : ¬call.config.tpCount ≥ call.gpuTpCount) (divided : call.config.tpCount ∣ call.gpuTpCount)
    {source : Origin × Nat → Cell} {read : Nat → Slot → Nat → Cell}
    (exactly : Copy.Exactly ((List.range call.config.tpCount).flatMap fun part => call.partCopies (read part) part)
      (call.expected source)) : 2 ∣ call.gpuPart := by
  by_contra odd
  have some_ := some_experts inRange
  have bytes := (call.half_hidden some_ divides).2
  have fill : call.partSize = call.ranksPerPart * call.gpuPart := by
    have both := call.ranks_whole.trans call.parts_whole.symm
    rw [show call.gpuTpCount = call.config.tpCount * call.ranksPerPart from (Nat.mul_div_cancel' divided).symm,
      Nat.mul_assoc] at both
    exact (Nat.eq_of_mul_eq_mul_left call.load.pools both).symm
  have size : call.matrixSize ⟨.down, .weight⟩ = call.gpuPart * call.hidden / 2 := by
    have weights : call.matrixSize ⟨.down, .weight⟩ = call.gpuTpWeightBytes := by
      unfold matrixSize
      rcases divides with backend | backend <;> rw [backend]
    rw [weights, gpuTpWeightBytes, Nat.mul_div_right_comm call.ranks_dvd]
    rfl
  obtain ⟨half, hidden⟩ := (show 2 ∣ 8 by decide).trans bytes
  have odd_ : call.gpuPart = 2 * (call.gpuPart / 2) + 1 := by omega
  have total : call.gpuPart * call.hidden / 2 = call.hidden * (call.gpuPart / 2) + half := by
    have product : call.gpuPart * call.hidden = 2 * (call.hidden * (call.gpuPart / 2) + half) := by
      conv_lhs => rw [odd_, hidden]
      rw [hidden]
      ring
    rw [product, Nat.mul_div_cancel_left _ Nat.two_pos]
  obtain ⟨value, found⟩ := call.expected_some source (mem_tables divides ⟨.down, .weight⟩)
    (show (((0, ⟨.w2, .weight⟩), call.hidden * (call.gpuPart / 2)) : Destination × Nat).1.2 = buffer ⟨.down, .weight⟩ from rfl)
    call.ranks (Nat.zero_le _) (by
      rw [size, total, base, Nat.zero_add]
      exact Nat.lt_add_of_pos_right (by omega))
  obtain ⟨part, inParts, copy, member, covers, -⟩ := copy_of_expected exactly found
  obtain ⟨table, local_, inShare, inJob⟩ := (mem_oneCopies divides one).mp member
  have place := Copy.covers_iff.mp covers
  have region := place.1
  rw [oneJob_region inJob] at region
  have target : buffer table = ⟨.w2, .weight⟩ := congrArg Prod.snd region
  obtain rfl : table = ⟨.down, .weight⟩ := by
    obtain ⟨mat, kind⟩ := table
    cases mat <;> cases kind <;> simp [buffer] at target
    rfl
  obtain ⟨column, inColumns, inRow⟩ := List.mem_flatMap.mp inJob
  obtain rfl := List.mem_singleton.mp inRow
  have width : call.partSize / call.ranksPerPart / call.unit .weight = call.gpuPart / 2 := by
    rw [fill, Nat.mul_div_cancel_left _ (Nat.zero_lt_of_lt inShare)]
    rfl
  have below := place.2.2
  simp only [width] at below
  have last : (column + 1) * (call.gpuPart / 2) ≤ call.hidden * (call.gpuPart / 2) :=
    Nat.mul_le_mul_right _ (List.mem_range.mp inColumns)
  rw [Nat.add_mul, Nat.one_mul] at last
  omega

theorem counts_of_exactly (divides : call.Divides) (inRange : call.InRange) (someHidden : 0 < call.hidden)
    (someSize : 0 < call.config.intermediateSize) {source : Origin × Nat → Cell} {read : Nat → Slot → Nat → Cell}
    (exactly : Copy.Exactly ((List.range call.config.tpCount).flatMap fun part => call.partCopies (read part) part)
      (call.expected source)) : call.Counts := by
  by_cases many : call.config.tpCount ≥ call.gpuTpCount
  · exact .inl (many_of_exactly divides inRange someHidden someSize many exactly)
  · have divided := one_of_exactly divides inRange someHidden someSize many exactly
    exact .inr ⟨divided, bytes_of_exactly divides inRange someHidden many divided exactly⟩

theorem rowsCopy_value {kind : Kind} {region : Destination} {start total : Nat} {value : Nat → Cell}
    {copy : Copy Destination Cell} (member : copy ∈ rowsCopy kind region start total value) (inner : Nat) :
    ∃ offset, copy.value inner = value offset := by
  cases kind with
  | weight =>
      obtain ⟨index, -, inChunk⟩ := List.mem_flatMap.mp member
      simp only at inChunk
      split at inChunk
      · rw [List.mem_singleton.mp inChunk]
        exact ⟨_, rfl⟩
      · contradiction
  | scale =>
      rw [List.mem_singleton.mp member]
      exact ⟨_, rfl⟩

theorem kind_of_buffer (table : Table) : (buffer table).kind = table.kind := by
  unfold buffer
  split
  · rfl
  · rfl

/-- The weights that a call copies out of constant buffers are that constant. -/
theorem value_of_const (divides : call.Divides) {value : Cell}
    (const : ∀ table offset, read ⟨table, call.expertId.toNat⟩ offset = value) {copy : Copy Destination Cell}
    (member : copy ∈ call.partCopies read part) (weight : copy.region.2.kind = .weight) (inner : Nat) :
    copy.value inner = value := by
  by_cases many : call.config.tpCount ≥ call.gpuTpCount
  · obtain ⟨⟨mat, kind⟩, inJob⟩ := (mem_manyCopies divides many).mp member
    rw [manyJob_region inJob, kind_of_buffer] at weight
    obtain rfl : kind = .weight := weight
    by_cases columns : mat = .down
    · subst columns
      obtain ⟨column, -, inRow⟩ := List.mem_flatMap.mp inJob
      rw [List.mem_singleton.mp inRow]
      exact (narrow_weight call _).trans (const _ _)
    · rw [manyJob_rows columns] at inJob
      obtain ⟨offset, same⟩ := rowsCopy_value inJob inner
      rw [same]
      exact (narrow_weight call _).trans (const _ _)
  · obtain ⟨⟨mat, kind⟩, local_, -, inJob⟩ := (mem_oneCopies divides many).mp member
    rw [oneJob_region inJob, kind_of_buffer] at weight
    obtain rfl : kind = .weight := weight
    by_cases columns : mat = .down
    · subst columns
      obtain ⟨column, -, inRow⟩ := List.mem_flatMap.mp inJob
      rw [List.mem_singleton.mp inRow]
      exact (narrow_weight call _).trans (const _ _)
    · rw [oneJob_rows columns] at inJob
      obtain ⟨offset, same⟩ := rowsCopy_value inJob inner
      rw [same]
      exact (narrow_weight call _).trans (const _ _)

theorem filled_of_reshards (divides : call.Divides) (reshards : call.Reshards) (inRange : call.InRange)
    (someHidden : 0 < call.hidden) (someSize : 0 < call.config.intermediateSize) : call.load.Filled call.expertId.toNat := by
  by_contra unfilled
  have exports := exports_of_divides divides
  have some_ := some_experts inRange
  have bytes := (call.half_hidden some_ divides).2
  obtain ⟨-, someRank⟩ := rank_sizes someSize
  have size : call.matrixSize ⟨.gate, .weight⟩ = call.gpuPart * call.hidden / 2 := by
    have weights : call.matrixSize ⟨.gate, .weight⟩ = call.gpuTpWeightBytes := by
      unfold matrixSize
      rcases divides with backend | backend <;> rw [backend]
    rw [weights, gpuTpWeightBytes, Nat.mul_div_right_comm call.ranks_dvd]
    rfl
  have positive : 0 < call.gpuPart * call.hidden / 2 := by
    have least : 1 * call.hidden ≤ call.gpuPart * call.hidden := Nat.mul_le_mul_right _ someRank
    omega
  obtain ⟨first, found⟩ := call.expected_some (fun _ => 0) (mem_tables divides ⟨.gate, .weight⟩)
    (show (((0, ⟨.w13, .weight⟩), 0) : Destination × Nat).1.2 = buffer ⟨.gate, .weight⟩ from rfl) call.ranks (Nat.zero_le _) (by
      rw [size]
      exact Nat.lt_add_left _ positive)
  -- the cell is what the buffers held before the load, whatever that was
  have constant (value : Cell) : value = first := by
    choose buffers loaded const using fun part => call.load.exists_unfilled unfilled (fun _ => 0) part value
    have exactly := list_of_reshards reshards buffers (fun part _ => loaded part) exports inRange
    obtain ⟨part, inParts, copy, member, covers, same⟩ := copy_of_expected exactly found
    have region := (Copy.covers_iff.mp covers).1
    rw [value_of_const divides (const part) member (by rw [region])] at same
    exact same
  have zero := constant 0
  have one := constant 1
  rw [← zero] at one
  exact absurd one (by decide)

/-! ## The condition -/

theorem meets_of_reshards (call : Export) (reshards : call.Reshards) : call.Meets := by
  by_cases gptq : call.backend = .gptqInt4
  · rw [Meets, gptq]
    trivial
  have sizes (empty : ¬call.Empty) : 0 < call.hidden ∧ 0 < call.config.intermediateSize :=
    ⟨Nat.pos_of_ne_zero fun none => empty (.inl none), Nat.pos_of_ne_zero fun none => empty (.inr none)⟩
  rcases walks_or_divides gptq with walks | divides
  · have conditions : call.InRange ∧ (call.Empty ∨ call.Nested) := by
      refine ⟨inRange_of_reshards walks reshards, ?_⟩
      by_cases empty : call.Empty
      · exact .inl empty
      · exact .inr (nested_of_reshards walks reshards (sizes empty).1 (sizes empty).2)
    unfold Meets
    rcases walks with backend | backend | backend <;> rwa [backend]
  · have conditions : ¬call.InRange ∨ call.Empty ∨ (call.load.Filled call.expertId.toNat ∧ call.Counts) := by
      by_cases inRange : call.InRange
      · by_cases empty : call.Empty
        · exact .inr (.inl empty)
        · obtain ⟨someHidden, someSize⟩ := sizes empty
          choose buffers loaded using fun part => call.load.exists_loaded (fun _ => 0) part
          have exactly := list_of_reshards reshards buffers (fun part _ => loaded part) gptq inRange
          exact .inr (.inr ⟨filled_of_reshards divides reshards inRange someHidden someSize,
            counts_of_exactly divides inRange someHidden someSize exactly⟩)
      · exact .inl inRange
    unfold Meets
    rcases divides with backend | backend <;> rwa [backend]

/-- The calls that re-shard exactly. -/
theorem reshards_iff (call : Export) : call.Reshards ↔ call.Meets :=
  ⟨call.meets_of_reshards, call.reshards_of_meets⟩

/-- The high half of a float. -/
def truncated : Rounding where
  fp32ToBf16 cell := cell >>> 16
  exact_ := by
    intro half small _
    have below : half.toNat < 65536 := small
    rw [← UInt32.toNat_inj]
    have shifted : half.toNat * 65536 % 4294967296 = half.toNat * 65536 := Nat.mod_eq_of_lt (by omega)
    simp only [UInt32.toNat_shiftRight, UInt32.toNat_shiftLeft, UInt32.reduceToNat, Nat.reduceMod, Nat.shiftLeft_eq,
      Nat.reducePow, shifted, Nat.shiftRight_eq_div_pow, Nat.mul_div_cancel half.toNat (Nat.succ_pos 65535)]

/-- Two parts and three ranks. -/
def crossed : Export where
  load :=
    { backend := .bf16
      config := ⟨1, 1, 6, 0, false, 2, none, .perExpert, some id⟩
      map := id
      pools := by decide
      given := rfl
      permutes := Set.bijOn_id _
      accepted := rfl }
  rounding := truncated
  gpuTpCount := 3
  expertId := 0
  ranks := by decide
  partGroups := by decide
  rankGroups := by decide

theorem crossed_inexact : ¬crossed.Reshards := by
  intro reshards
  have meets : crossed.InRange ∧ (crossed.Empty ∨ crossed.Nested) := crossed.meets_of_reshards reshards
  rcases meets.2 with (hidden | size) | (many | one)
  · exact absurd hidden (by decide)
  · exact absurd size (by decide)
  · exact absurd many (by decide)
  · exact absurd one (by decide)

end Export

end KtKernel.Avx2
