import KtKernel.Avx2.NativeExportWalks

namespace KtKernel.Avx2

open KtKernel.Data
open KtKernel.Amx.ExpertFiles (Mat)

/-! RAWINT4 and MXFP4: the parts of a rank, or the ranks of a part, from the quotient of
the counts. -/

namespace Export

/-- The backends that divide the counts. -/
def Divides (call : Export) : Prop :=
  call.backend = .rawInt4 ∨ call.backend = .mxfp4

/-- The counts for which the quotient is exact and the ranks have whole bytes. -/
def Counts (call : Export) : Prop :=
  call.gpuTpCount ∣ call.config.tpCount ∨ (call.config.tpCount ∣ call.gpuTpCount ∧ 2 ∣ call.gpuPart)

variable {call : Export} {source : Origin × Nat → Cell} {buffers : Nat → Buffers} {read : Slot → Nat → Cell} {part : Nat}
  {mat : Mat} {kind : Kind} {table : Table}

/-- The weights in a cell, along a row. -/
def unit (call : Export) : Kind → Nat
  | .weight => 2
  | .scale => call.group

/-- The cells of a part's slice. -/
def partCells (call : Export) (kind : Kind) : Nat :=
  call.partSize * call.hidden / call.unit kind

/-- The cells of a rank's slice. -/
def rankCells (call : Export) (kind : Kind) : Nat :=
  call.config.intermediateSize * call.hidden / call.gpuTpCount / call.unit kind

/-- Consecutive cells: weights in chunks, scales at once. -/
def rowsCopy (kind : Kind) (region : Destination) (start total : Nat) (value : Nat → Cell) : List (Copy Destination Cell) :=
  match kind with
  | .weight => Copy.chunked region start total (weightChunkSize total) numWeightTasks value
  | .scale => [⟨region, start, total, value⟩]

theorem rowsCopy_carries (kind : Kind) (region : Destination) (start total : Nat) (value : Nat → Cell) :
    Copy.Carries (rowsCopy kind region start total value) region start total value := by
  cases kind with
  | weight =>
      apply Copy.chunked_carries
      unfold weightChunkSize numWeightTasks KtKernel.Amx.align64
      omega
  | scale => exact Copy.single_carries _ _ _ _

/-! ## The copies of one array -/

def manyJob (call : Export) (read : Slot → Nat → Cell) (part : Nat) (table : Table) : List (Copy Destination Cell) :=
  match table with
  | ⟨.down, kind⟩ => (List.range call.hidden).flatMap fun column =>
      [⟨(part / call.ratio, ⟨.w2, kind⟩),
        column * (call.gpuPart / call.unit kind) + part % call.ratio * (call.partSize / call.unit kind),
        call.partSize / call.unit kind, fun inner =>
          call.narrow kind (read (call.slot .down kind) (column * (call.partSize / call.unit kind) + inner))⟩]
  | ⟨mat, kind⟩ =>
      rowsCopy kind (part / call.ratio, ⟨.w13, kind⟩)
        (part % call.ratio * call.partCells kind + if mat = .up then call.rankCells kind else 0) (call.partCells kind)
        fun inner => call.narrow kind (read (call.slot mat kind) inner)

theorem manyJob_rows (rows : mat ≠ .down) (read : Slot → Nat → Cell) (part : Nat) (kind : Kind) :
    call.manyJob read part ⟨mat, kind⟩ = rowsCopy kind (part / call.ratio, ⟨.w13, kind⟩)
      (part % call.ratio * call.partCells kind + if mat = .up then call.rankCells kind else 0) (call.partCells kind)
      fun inner => call.narrow kind (read (call.slot mat kind) inner) := by
  cases mat with
  | down => contradiction
  | gate => rfl
  | up => rfl

/-- The first cell of a row of down in a part. -/
def rowStart (call : Export) (column : Nat) : Kind → Nat
  | .weight => column * call.partSize / 2
  | .scale => column * (call.partSize / call.group)

def oneJob (call : Export) (read : Slot → Nat → Cell) (part local_ : Nat) (table : Table) : List (Copy Destination Cell) :=
  match table with
  | ⟨.down, kind⟩ => (List.range call.hidden).flatMap fun column =>
      [⟨(part * call.ranksPerPart + local_, ⟨.w2, kind⟩), column * (call.partSize / call.ranksPerPart / call.unit kind),
        call.partSize / call.ranksPerPart / call.unit kind, fun inner =>
          call.narrow kind (read (call.slot .down kind) (call.rowStart column kind +
            local_ * (call.partCells kind / call.ranksPerPart) / call.hidden + inner))⟩]
  | ⟨mat, kind⟩ =>
      rowsCopy kind (part * call.ranksPerPart + local_, ⟨.w13, kind⟩) (if mat = .up then call.rankCells kind else 0)
        (call.partCells kind / call.ranksPerPart)
        fun inner => call.narrow kind (read (call.slot mat kind) (local_ * (call.partCells kind / call.ranksPerPart) + inner))

theorem oneJob_rows (rows : mat ≠ .down) (read : Slot → Nat → Cell) (part local_ : Nat) (kind : Kind) :
    call.oneJob read part local_ ⟨mat, kind⟩ = rowsCopy kind (part * call.ranksPerPart + local_, ⟨.w13, kind⟩)
      (if mat = .up then call.rankCells kind else 0) (call.partCells kind / call.ranksPerPart)
      fun inner => call.narrow kind (read (call.slot mat kind)
        (local_ * (call.partCells kind / call.ranksPerPart) + inner)) := by
  cases mat with
  | down => contradiction
  | gate => rfl
  | up => rfl

theorem downColumns_eq {α : Type} (call : Export) (body : Nat → List (Copy Destination α)) :
    call.downColumns body = (List.range call.hidden).flatMap body := by
  apply flatMap_tasks
  have some_ : 0 < call.numDownTasks := by
    unfold numDownTasks
    omega
  have whole := Nat.div_add_mod' (call.hidden + call.numDownTasks - 1) call.numDownTasks
  have small := Nat.mod_lt (call.hidden + call.numDownTasks - 1) some_
  rw [Nat.mul_comm]
  omega

theorem perm_of_shares {κ α : Type} (first second : List α) (rows : List κ) (column column' : κ → α) (scale scale' : α) :
    (first ++ second ++ (rows.flatMap fun row => [column row, column' row]) ++ [scale, scale']).Perm
      (first ++ (second ++ ((rows.flatMap fun row => [column row]) ++
        ([scale] ++ ([scale'] ++ rows.flatMap fun row => [column' row]))))) := by
  have columns : (rows.flatMap fun row => [column row, column' row]).Perm
      ((rows.flatMap fun row => [column row]) ++ rows.flatMap fun row => [column' row]) :=
    (List.flatMap_append_perm rows (fun row => [column row]) fun row => [column' row]).symm
  apply ((columns.append_left (first ++ second)).append_right [scale, scale']).trans
  change (_ ++ ([scale] ++ [scale'])).Perm _
  generalize [scale] = scales, [scale'] = scales'
  rw [← Multiset.coe_eq_coe]
  simp only [← Multiset.coe_add]
  abel

theorem tables_of_divides (divides : call.Divides) :
    call.backend.tables = [⟨.gate, .weight⟩, ⟨.up, .weight⟩, ⟨.down, .weight⟩, ⟨.gate, .scale⟩, ⟨.up, .scale⟩, ⟨.down, .scale⟩] := by
  rcases divides with backend | backend <;> rw [backend] <;> rfl

theorem manyCopies_perm (divides : call.Divides) (read : Slot → Nat → Cell) (part : Nat) :
    (call.manyCopies read part).Perm (call.backend.tables.flatMap (call.manyJob read part)) := by
  rw [tables_of_divides divides, manyCopies]
  simp only [downColumns_eq]
  apply (perm_of_shares _ _ _ _ _ _ _).trans
  simp only [List.flatMap_cons, List.flatMap_nil, List.append_nil, manyJob, narrow_weight]
  exact List.Perm.refl _

theorem oneCopies_perm (divides : call.Divides) (read : Slot → Nat → Cell) (part : Nat) :
    (call.oneCopies read part).Perm (call.backend.tables.flatMap fun table =>
      (List.range call.ranksPerPart).flatMap fun local_ => call.oneJob read part local_ table) := by
  apply List.Perm.trans _ (flatMap_swap _ _ _)
  rw [oneCopies]
  apply List.Perm.flatMap_left
  intro local_ _
  rw [tables_of_divides divides]
  simp only [downColumns_eq]
  apply (perm_of_shares _ _ _ _ _ _ _).trans
  simp only [List.flatMap_cons, List.flatMap_nil, List.append_nil, oneJob, narrow_weight]
  exact List.Perm.refl _

/-! ## Sizes -/

theorem exports_of_divides (divides : call.Divides) : call.backend ≠ .gptqInt4 := by
  rcases divides with backend | backend <;> rw [backend] <;> decide

theorem quantized_of_divides (divides : call.Divides) : call.backend ≠ .bf16 := by
  rcases divides with backend | backend <;> rw [backend] <;> decide

theorem bytes_of_counts (some_ : call.config.expertNum ≠ 0) (counts : call.Counts) : call.WholeBytes := by
  intro packed
  rcases counts with many | ⟨-, bytes⟩
  · have nests := dvd_of_counts call.ranks (call.ranks_whole.trans call.parts_whole.symm) many
    exact ((show 2 ∣ 8 by decide).trans (call.load.nibbles some_ packed).2).trans nests
  · exact bytes

theorem gridRows (divides : call.Divides) (rows : mat ≠ .down) (kind : Kind) : call.grid ⟨mat, kind⟩ =
    ⟨1, kind = .weight, false, id, call.hidden / call.unit kind, fun size part => part * size⟩ := by
  rw [grid]
  rcases divides with backend | backend
  · rw [backend]
    cases mat <;> first | contradiction | (cases kind <;> rfl)
  · rw [backend]
    cases mat <;> first | contradiction | (cases kind <;> rfl)

theorem gridColumns (divides : call.Divides) (kind : Kind) : call.grid ⟨.down, kind⟩ =
    ⟨call.unit kind, kind = .weight, true, fun size => size / call.unit kind, call.hidden,
      fun size part => part * (size / call.unit kind)⟩ := by
  rw [grid]
  rcases divides with backend | backend
  · rw [backend]
    cases kind <;> rfl
  · rw [backend]
    cases kind <;> rfl

theorem mem_tables (divides : call.Divides) (table : Table) : table ∈ call.backend.tables := by
  rw [tables_of_divides divides]
  obtain ⟨mat, kind⟩ := table
  cases mat <;> cases kind <;> decide

theorem unit_dvd_hidden (divides : call.Divides) (some_ : call.config.expertNum ≠ 0) (kind : Kind) :
    call.unit kind ∣ call.hidden := by
  obtain ⟨group, bytes⟩ := call.half_hidden some_ divides
  cases kind with
  | weight => exact (show 2 ∣ 8 by decide).trans bytes
  | scale => exact group

theorem unit_dvd_gpuPart (divides : call.Divides) (bytes : call.WholeBytes) (kind : Kind) : call.unit kind ∣ call.gpuPart := by
  cases kind with
  | weight => exact bytes divides
  | scale => exact call.group_dvd_gpuPart (quantized_of_divides divides)

theorem unit_dvd_partSize (divides : call.Divides) (some_ : call.config.expertNum ≠ 0) (kind : Kind) :
    call.unit kind ∣ call.partSize := by
  obtain ⟨group, bytes⟩ := call.load.nibbles some_ divides
  cases kind with
  | weight => exact (show 2 ∣ 8 by decide).trans bytes
  | scale => exact group

theorem partCells_eq (divides : call.Divides) (some_ : call.config.expertNum ≠ 0) (kind : Kind) :
    call.partCells kind = call.partSize * (call.hidden / call.unit kind) :=
  Nat.mul_div_assoc _ (unit_dvd_hidden divides some_ kind)

theorem rankCells_eq (divides : call.Divides) (some_ : call.config.expertNum ≠ 0) (kind : Kind) :
    call.rankCells kind = call.gpuPart * (call.hidden / call.unit kind) := by
  rw [rankCells, Nat.mul_div_right_comm call.ranks_dvd]
  exact Nat.mul_div_assoc _ (unit_dvd_hidden divides some_ kind)

theorem base_rows (divides : call.Divides) (some_ : call.config.expertNum ≠ 0) (bytes : call.WholeBytes) (rows : mat ≠ .down)
    (kind : Kind) : call.base ⟨mat, kind⟩ = if mat = .up then call.rankCells kind else 0 := by
  cases mat with
  | up =>
      have size := call.matrixSize_eq some_ bytes ⟨.up, kind⟩
      rw [gridRows divides rows] at size
      rw [if_pos rfl, rankCells_eq divides some_]
      exact size
  | gate => rfl
  | down => contradiction

theorem single_round {α : Type} (body : List α) : ((List.range 1).flatMap fun _ => body) = body := by
  simp

theorem many_columns (divides : call.Divides) (ready : call.Ready source buffers) (inParts : part < call.config.tpCount)
    (many : call.config.tpCount = call.gpuTpCount * call.ratio) (fill : call.gpuPart = call.ratio * call.partSize)
    (kind : Kind) : Copy.Exactly (call.manyJob ((buffers part).read source) part ⟨.down, kind⟩)
      ((call.shard source ⟨.down, kind⟩).ofPart part) := by
  have some_ := some_experts ready.inRange
  have bytes := bytes_of_counts some_ (.inl ⟨call.ratio, many⟩)
  have same := call.units_same ready.exports some_ bytes ⟨.down, kind⟩
  have gridEq := gridColumns divides kind
  have inner : (call.grid ⟨.down, kind⟩).inner = true := by rw [gridEq]
  have fillUnits : (call.grid ⟨.down, kind⟩).count call.gpuPart = call.ratio * (call.grid ⟨.down, kind⟩).count call.partSize := by
    rw [gridEq, fill]
    exact Nat.mul_div_assoc _ (unit_dvd_partSize divides some_ kind)
  rw [← single_round (call.manyJob _ part _)]
  apply column_pieces ready inParts (mem_tables divides _) inner List.nodup_range (tiles_many same fillUnits inParts)
  intro _ _
  rw [gridEq, manyJob, Copy.strided]
  congr 1
  funext column
  simp only [base, Nat.zero_add, Nat.add_comm (column * _)]
  rfl

theorem many_rows (divides : call.Divides) (ready : call.Ready source buffers) (inParts : part < call.config.tpCount)
    (many : call.config.tpCount = call.gpuTpCount * call.ratio) (fill : call.gpuPart = call.ratio * call.partSize)
    (rows : mat ≠ .down) (kind : Kind) : Copy.Exactly (call.manyJob ((buffers part).read source) part ⟨mat, kind⟩)
      ((call.shard source ⟨mat, kind⟩).ofPart part) := by
  have some_ := some_experts ready.inRange
  have bytes := bytes_of_counts some_ (.inl ⟨call.ratio, many⟩)
  have same := call.units_same ready.exports some_ bytes ⟨mat, kind⟩
  have gridEq := gridRows divides rows kind
  have outer : (call.grid ⟨mat, kind⟩).inner = false := by rw [gridEq]
  have fillUnits : (call.grid ⟨mat, kind⟩).count call.gpuPart = call.ratio * (call.grid ⟨mat, kind⟩).count call.partSize := by
    rw [gridEq]
    exact fill
  rw [← single_round (call.manyJob _ part _)]
  apply row_pieces ready inParts (mem_tables divides _) outer List.nodup_range (tiles_many same fillUnits inParts)
  intro _ _
  rw [manyJob_rows rows, base_rows divides some_ bytes rows, buffer_w13 rows, gridEq]
  simp only [id, Nat.zero_mul, Nat.zero_add]
  rw [Nat.mul_assoc, ← partCells_eq divides some_, Nat.add_comm _ (part % call.ratio * call.partCells kind)]
  exact rowsCopy_carries _ _ _ _ _

theorem manyJob_exactly (divides : call.Divides) (ready : call.Ready source buffers) (inParts : part < call.config.tpCount)
    (many : call.config.tpCount = call.gpuTpCount * call.ratio) (table : Table) :
    Copy.Exactly (call.manyJob ((buffers part).read source) part table) ((call.shard source table).ofPart part) := by
  have fill : call.gpuPart = call.ratio * call.partSize := by
    have both := call.ranks_whole.trans call.parts_whole.symm
    rw [many, Nat.mul_assoc] at both
    exact Nat.eq_of_mul_eq_mul_left call.ranks both
  obtain ⟨mat, kind⟩ := table
  by_cases columns : mat = .down
  · subst columns
    exact many_columns divides ready inParts many fill kind
  · exact many_rows divides ready inParts many fill columns kind

theorem one_columns (divides : call.Divides) (ready : call.Ready source buffers) (inParts : part < call.config.tpCount)
    (bytes : call.WholeBytes) (someHidden : 0 < call.hidden) (someRatio : 0 < call.ranksPerPart)
    (fill : call.partSize = call.ranksPerPart * call.gpuPart) (kind : Kind) :
    Copy.Exactly ((List.range call.ranksPerPart).flatMap fun local_ =>
        call.oneJob ((buffers part).read source) part local_ ⟨.down, kind⟩)
      ((call.shard source ⟨.down, kind⟩).ofPart part) := by
  have some_ := some_experts ready.inRange
  have same := call.units_same ready.exports some_ bytes ⟨.down, kind⟩
  have gridEq := gridColumns divides kind
  have inner : (call.grid ⟨.down, kind⟩).inner = true := by rw [gridEq]
  have whole := unit_dvd_gpuPart divides bytes kind
  have inHidden := unit_dvd_hidden divides some_ kind
  have fillUnits : (call.grid ⟨.down, kind⟩).count call.partSize =
      call.ranksPerPart * (call.grid ⟨.down, kind⟩).count call.gpuPart := by
    rw [gridEq, fill]
    exact Nat.mul_div_assoc _ whole
  have width : call.partSize / call.ranksPerPart = call.gpuPart := by
    rw [fill, Nat.mul_div_cancel_left _ someRatio]
  have cells : call.partCells kind / call.ranksPerPart = call.gpuPart / call.unit kind * call.hidden := by
    rw [partCells_eq divides some_, fill, Nat.mul_assoc, Nat.mul_div_cancel_left _ someRatio, ← Nat.mul_div_assoc _ inHidden,
      Nat.div_mul_right_comm whole]
  have starts (column : Nat) : call.rowStart column kind = column * (call.partSize / call.unit kind) := by
    cases kind with
    | weight => exact Nat.mul_div_assoc column (unit_dvd_partSize divides some_ .weight)
    | scale => rfl
  apply column_pieces ready inParts (mem_tables divides _) inner List.nodup_range (tiles_one same fillUnits inParts)
  intro local_ _
  rw [gridEq, oneJob, Copy.strided, width, cells]
  congr 1
  funext column
  rw [starts, ← Nat.mul_assoc, Nat.mul_div_cancel _ someHidden]
  simp only [base, Nat.zero_add, Nat.add_zero, Nat.add_assoc]
  rfl

theorem one_rows (divides : call.Divides) (ready : call.Ready source buffers) (inParts : part < call.config.tpCount)
    (bytes : call.WholeBytes) (someRatio : 0 < call.ranksPerPart) (fill : call.partSize = call.ranksPerPart * call.gpuPart)
    (rows : mat ≠ .down) (kind : Kind) :
    Copy.Exactly ((List.range call.ranksPerPart).flatMap fun local_ =>
        call.oneJob ((buffers part).read source) part local_ ⟨mat, kind⟩)
      ((call.shard source ⟨mat, kind⟩).ofPart part) := by
  have some_ := some_experts ready.inRange
  have same := call.units_same ready.exports some_ bytes ⟨mat, kind⟩
  have gridEq := gridRows divides rows kind
  have outer : (call.grid ⟨mat, kind⟩).inner = false := by rw [gridEq]
  have fillUnits : (call.grid ⟨mat, kind⟩).count call.partSize =
      call.ranksPerPart * (call.grid ⟨mat, kind⟩).count call.gpuPart := by
    rw [gridEq]
    exact fill
  have cells : call.partCells kind / call.ranksPerPart = call.gpuPart * (call.hidden / call.unit kind) := by
    rw [partCells_eq divides some_, fill, Nat.mul_assoc, Nat.mul_div_cancel_left _ someRatio]
  apply row_pieces ready inParts (mem_tables divides _) outer List.nodup_range (tiles_one same fillUnits inParts)
  intro local_ _
  rw [oneJob_rows rows, base_rows divides some_ bytes rows, buffer_w13 rows, gridEq, cells]
  simp only [id, Nat.zero_mul, Nat.add_zero, Nat.mul_assoc]
  exact rowsCopy_carries _ _ _ _ _

theorem oneJob_exactly (divides : call.Divides) (ready : call.Ready source buffers) (inParts : part < call.config.tpCount)
    (bytes : call.WholeBytes) (someHidden : 0 < call.hidden) (someRatio : 0 < call.ranksPerPart)
    (one : call.gpuTpCount = call.config.tpCount * call.ranksPerPart) (table : Table) :
    Copy.Exactly ((List.range call.ranksPerPart).flatMap fun local_ =>
        call.oneJob ((buffers part).read source) part local_ table)
      ((call.shard source table).ofPart part) := by
  have fill : call.partSize = call.ranksPerPart * call.gpuPart := by
    have both := call.ranks_whole.trans call.parts_whole.symm
    rw [one, Nat.mul_assoc] at both
    exact (Nat.eq_of_mul_eq_mul_left call.load.pools both).symm
  obtain ⟨mat, kind⟩ := table
  by_cases columns : mat = .down
  · subst columns
    exact one_columns divides ready inParts bytes someHidden someRatio fill kind
  · exact one_rows divides ready inParts bytes someRatio fill columns kind

end Export

end KtKernel.Avx2
