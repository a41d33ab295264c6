import Mathlib.Data.Multiset.AddSub
import Mathlib.Tactic.Abel
import KtKernel.Avx2.NativeRanks

namespace KtKernel.Avx2

open KtKernel.Data
open KtKernel.Amx.ExpertFiles (Mat)

/-! BF16, FP8 and MXFP8: every row of gate and up finds its rank, and every row of down
is cut at the ranks' width from the part's first column on. -/

namespace Export

/-- The backends that find a rank for every row. -/
def Walks (call : Export) : Prop :=
  call.backend = .bf16 ∨ call.backend = .fp8 ∨ call.backend = .mxfp8

variable {call : Export} {source : Origin × Nat → Cell} {buffers : Nat → Buffers} {read : Slot → Nat → Cell} {part : Nat}
  {mat : Mat} {table : Table}

/-! ## The copies of one array -/

def w13Weight (call : Export) (read : Slot → Nat → Cell) (part : Nat) (mat : Mat) (row : Nat) : List (Copy Destination Cell) :=
  [⟨((part * call.partSize + row) / call.gpuPart, ⟨.w13, .weight⟩),
    (if mat = .up then call.gpuPart * call.hidden else 0) + (part * call.partSize + row) % call.gpuPart * call.hidden,
    call.hidden, fun inner => read (call.slot mat .weight) (row * call.hidden + inner)⟩]

def w13Scale (call : Export) (read : Slot → Nat → Cell) (part : Nat) (mat : Mat) (row : Nat) : List (Copy Destination Cell) :=
  let rank := (part * call.partSize + row) / call.gpuPart
  let nInGpu := (part * call.partSize + row) % call.gpuPart
  match call.backend with
  | .fp8 =>
      let width := divUp call.hidden call.group
      let scaleOff := if mat = .up then divUp call.gpuPart call.group * width else 0
      if row % call.group = 0 then
        [⟨(rank, ⟨.w13, .scale⟩), scaleOff + nInGpu / call.group * width, width, fun inner =>
          read (call.slot mat .scale) (row / call.group * width + inner)⟩]
      else []
  | .mxfp8 =>
      let width := call.hidden / call.group
      let scaleOff := if mat = .up then call.gpuPart * width else 0
      [⟨(rank, ⟨.w13, .scale⟩), scaleOff + nInGpu * width, width, fun inner =>
        call.narrow .scale (read (call.slot mat .scale) (row * width + inner))⟩]
  | _ => []

theorem w13Row_eq (call : Export) (read : Slot → Nat → Cell) (part : Nat) (mat : Mat) (row : Nat) :
    call.w13Row read part mat row = call.w13Weight read part mat row ++ call.w13Scale read part mat row := by
  unfold w13Row w13Weight w13Scale
  cases call.backend <;> simp

def w2Weight (call : Export) (read : Slot → Nat → Cell) (part row kStart : Nat) : List (Copy Destination Cell) :=
  [⟨((part * call.partSize + kStart) / call.gpuPart, ⟨.w2, .weight⟩),
    row * call.gpuPart + (part * call.partSize + kStart) % call.gpuPart, min call.gpuPart (call.partSize - kStart),
    fun inner => read (call.slot .down .weight) (row * call.partSize + kStart + inner)⟩]

def w2Scale (call : Export) (read : Slot → Nat → Cell) (part row kStart : Nat) : List (Copy Destination Cell) :=
  let rank := (part * call.partSize + kStart) / call.gpuPart
  let kInGpu := (part * call.partSize + kStart) % call.gpuPart
  match call.backend with
  | .fp8 =>
      let cpuBlocks := divUp call.partSize call.group
      let gpuBlocks := divUp call.gpuPart call.group
      let kBlockStart := kInGpu / call.group
      if row % call.group = 0 then
        [⟨(rank, ⟨.w2, .scale⟩), row / call.group * gpuBlocks + kBlockStart, min cpuBlocks (gpuBlocks - kBlockStart),
          fun inner => read (call.slot .down .scale) (row / call.group * cpuBlocks + kStart / call.group + inner)⟩]
      else []
  | .mxfp8 =>
      [⟨(rank, ⟨.w2, .scale⟩), row * (call.gpuPart / call.group) + kInGpu / call.group,
        min call.gpuPart (call.partSize - kStart) / call.group, fun inner =>
          call.narrow .scale (read (call.slot .down .scale)
            (row * (call.partSize / call.group) + kStart / call.group + inner))⟩]
  | _ => []

theorem w2Row_eq (call : Export) (read : Slot → Nat → Cell) (part row : Nat) :
    call.w2Row read part row = (steps call.partSize call.gpuPart).flatMap fun kStart =>
      call.w2Weight read part row kStart ++ call.w2Scale read part row kStart := by
  unfold w2Row w2Weight w2Scale
  congr 1
  funext kStart
  cases call.backend <;> simp

/-- The copies of an array. -/
def walkJob (call : Export) (read : Slot → Nat → Cell) (part : Nat) (table : Table) : List (Copy Destination Cell) :=
  match table with
  | ⟨.down, .weight⟩ => (steps call.partSize call.gpuPart).flatMap fun kStart =>
      (List.range call.hidden).flatMap fun row => call.w2Weight read part row kStart
  | ⟨.down, .scale⟩ => (steps call.partSize call.gpuPart).flatMap fun kStart =>
      (List.range call.hidden).flatMap fun row => call.w2Scale read part row kStart
  | ⟨mat, .weight⟩ => (List.range call.partSize).flatMap (call.w13Weight read part mat)
  | ⟨mat, .scale⟩ => (List.range call.partSize).flatMap (call.w13Scale read part mat)

theorem taskRows_eq {α : Type} (rows : Nat) (body : Nat → List (Copy Destination α)) :
    taskRows rows body = (List.range rows).flatMap body := by
  apply flatMap_tasks
  unfold numTasks
  omega

theorem perm_of_blocks {α : Type} (first first' second second' third third' : List α) :
    (first ++ first' ++ (second ++ second') ++ (third ++ third')).Perm
      (first ++ (second ++ (third ++ (first' ++ (second' ++ third'))))) := by
  rw [← Multiset.coe_eq_coe]
  simp only [← Multiset.coe_add]
  abel

/-- The copies of a part, array by array. -/
theorem rowCopies_perm (walks : call.Walks) (read : Slot → Nat → Cell) (part : Nat) :
    (call.rowCopies read part).Perm (call.backend.tables.flatMap (call.walkJob read part)) := by
  have rows (mat : Mat) : (taskRows call.partSize (call.w13Row read part mat)).Perm
      ((List.range call.partSize).flatMap (call.w13Weight read part mat) ++
        (List.range call.partSize).flatMap (call.w13Scale read part mat)) := by
    rw [taskRows_eq, show call.w13Row read part mat = _ from funext (call.w13Row_eq read part mat)]
    exact (List.flatMap_append_perm _ _ _).symm
  have columns : (taskRows call.hidden (call.w2Row read part)).Perm
      (call.walkJob read part ⟨.down, .weight⟩ ++ call.walkJob read part ⟨.down, .scale⟩) := by
    rw [taskRows_eq, show call.w2Row read part = _ from funext (call.w2Row_eq read part)]
    apply (flatMap_swap _ _ _).trans
    have each : ∀ kStart ∈ steps call.partSize call.gpuPart,
        ((List.range call.hidden).flatMap fun row => call.w2Weight read part row kStart ++ call.w2Scale read part row kStart).Perm
          (((List.range call.hidden).flatMap fun row => call.w2Weight read part row kStart) ++
            (List.range call.hidden).flatMap fun row => call.w2Scale read part row kStart) := by
      intro kStart _
      exact (List.flatMap_append_perm _ _ _).symm
    exact (List.Perm.flatMap_left _ each).trans (List.flatMap_append_perm _ _ _).symm
  have blocks := (((rows .gate).append (rows .up)).append columns).trans (perm_of_blocks _ _ _ _ _ _)
  apply blocks.trans
  rcases walks with backend | backend | backend
  · have none (mat : Mat) : (List.range call.partSize).flatMap (call.w13Scale read part mat) = [] := by
      simp [w13Scale, backend]
    have noColumns : call.walkJob read part ⟨.down, .scale⟩ = [] := by
      simp [walkJob, w2Scale, backend]
    rw [none, none, noColumns, backend]
    simp [Backend.tables, walkJob]
  · rw [backend]
    simp [Backend.tables, walkJob]
  · rw [backend]
    simp [Backend.tables, walkJob]

/-! ## Rows -/

theorem exports_of_walks (walks : call.Walks) : call.backend ≠ .gptqInt4 := by
  rcases walks with backend | backend | backend <;> rw [backend] <;> decide

theorem bytes_of_walks (walks : call.Walks) : call.WholeBytes := by
  intro packed
  rcases walks with backend | backend | backend <;> rw [backend] at packed <;> simp at packed

theorem narrow_weight (call : Export) (cell : Cell) : call.narrow .weight cell = cell := by
  unfold narrow
  cases call.backend <;> rfl

/-- The units of an array, each copied to its rank. -/
theorem unit_rows (ready : call.Ready source buffers) (bytes : call.WholeBytes) (inParts : part < call.config.tpCount)
    (inTables : table ∈ call.backend.tables) (outer : (call.grid table).inner = false) :
    Copy.Exactly
      ((List.range ((call.grid table).count call.partSize)).flatMap fun unit =>
        [⟨((part * (call.grid table).count call.partSize + unit) / (call.grid table).count call.gpuPart, buffer table),
          call.base table + (part * (call.grid table).count call.partSize + unit) % (call.grid table).count call.gpuPart *
            (call.grid table).across,
          (call.grid table).across, fun inner =>
            call.narrow table.kind ((buffers part).read source (call.slot table.mat table.kind)
              (unit * (call.grid table).across + inner))⟩])
      ((call.shard source table).ofPart part) := by
  have same := call.units_same ready.exports (some_experts ready.inRange) bytes table
  apply row_pieces ready inParts inTables outer List.nodup_range (tiles_units same inParts)
  intro unit _
  rw [Nat.one_mul]
  exact Copy.single_carries _ _ _ _

/-- Every row of the array is cut at the ranks' width, where the widths of the parts and of
the ranks nest. -/
theorem walk_columns (ready : call.Ready source buffers) (bytes : call.WholeBytes) (inParts : part < call.config.tpCount)
    (inTables : table ∈ call.backend.tables) (inner : (call.grid table).inner = true)
    (someRank : 0 < (call.grid table).count call.gpuPart) (somePart : 0 < (call.grid table).count call.partSize)
    (nested : (call.grid table).count call.gpuPart ∣ (call.grid table).count call.partSize ∨
      (call.grid table).count call.partSize ∣ (call.grid table).count call.gpuPart) :
    Copy.Exactly
      ((steps ((call.grid table).count call.partSize) ((call.grid table).count call.gpuPart)).flatMap fun start =>
        (List.range (call.grid table).across).flatMap fun row =>
          [⟨((part * (call.grid table).count call.partSize + start) / (call.grid table).count call.gpuPart, buffer table),
            call.base table + (row * (call.grid table).count call.gpuPart +
              (part * (call.grid table).count call.partSize + start) % (call.grid table).count call.gpuPart),
            min ((call.grid table).count call.gpuPart) ((call.grid table).count call.partSize - start), fun inner =>
              call.narrow table.kind ((buffers part).read source (call.slot table.mat table.kind)
                (row * (call.grid table).count call.partSize + start + inner))⟩])
      ((call.shard source table).ofPart part) := by
  have same := call.units_same ready.exports (some_experts ready.inRange) bytes table
  rw [steps, List.flatMap_map]
  apply column_pieces ready inParts inTables inner List.nodup_range (tiles_walk same inParts someRank somePart nested)
  intro index _
  rw [Copy.strided]
  congr 1
  funext row
  simp only [Nat.add_assoc, Nat.add_comm (row * (call.grid table).count call.gpuPart)]

/-- A loop that acts on the first row of every block. -/
theorem flatMap_blocks {α : Type} {size : Nat} (positive : 0 < size) (count : Nat) (body : Nat → List α) :
    ((List.range count).flatMap fun row => if row % size = 0 then body (row / size) else []) =
      (List.range (divUp count size)).flatMap body := by
  induction count with
  | zero =>
      have none : divUp 0 size = 0 := by
        rw [divUp, Nat.zero_add]
        exact Nat.div_eq_of_lt (Nat.sub_one_lt (Nat.ne_of_gt positive))
      rw [none]
      rfl
  | succ count induction =>
      rw [List.range_succ, List.flatMap_append, induction, List.flatMap_singleton]
      have whole := Nat.div_add_mod' count size
      have small := Nat.mod_lt count positive
      by_cases first : count % size = 0
      · have before : divUp count size = count / size := Load.divUp_of_dvd positive (Nat.dvd_of_mod_eq_zero first)
        have after : divUp (count + 1) size = count / size + 1 := by
          apply Nat.div_eq_of_lt_le
          · rw [Nat.add_mul, Nat.one_mul]
            omega
          · rw [Nat.add_mul, Nat.add_mul, Nat.one_mul]
            omega
        rw [if_pos first, before, after, List.range_succ, List.flatMap_append, List.flatMap_singleton]
      · have before : divUp count size = count / size + 1 := by
          apply Nat.div_eq_of_lt_le
          · rw [Nat.add_mul, Nat.one_mul]
            omega
          · rw [Nat.add_mul, Nat.add_mul, Nat.one_mul]
            omega
        have after : divUp (count + 1) size = count / size + 1 := by
          apply Nat.div_eq_of_lt_le
          · rw [Nat.add_mul, Nat.one_mul]
            omega
          · rw [Nat.add_mul, Nat.add_mul, Nat.one_mul]
            omega
        rw [if_neg first, before, after, List.append_nil]

theorem divUp_mul {size : Nat} (positive : 0 < size) (count width : Nat) :
    divUp (size * count) (size * width) = divUp count width := by
  rw [divUp, divUp, ← Nat.div_div_eq_div_mul, ← Nat.mul_add]
  congr 1
  rcases Nat.eq_zero_or_pos (count + width) with none | some_
  · rw [none, Nat.mul_zero, Nat.zero_sub, Nat.zero_div]
  · have least : size * 1 ≤ size * (count + width) := Nat.mul_le_mul_left size some_
    have split : size * (count + width) - 1 = size * (count + width - 1) + (size - 1) := by
      rw [Nat.mul_sub]
      omega
    rw [split, Nat.mul_add_div positive, Nat.div_eq_of_lt (Nat.sub_one_lt (Nat.ne_of_gt positive)), Nat.add_zero]

theorem steps_mul {size : Nat} (positive : 0 < size) (count width : Nat) :
    steps (size * count) (size * width) = (steps count width).map (size * ·) := by
  rw [steps, steps, divUp_mul positive, List.map_map]
  congr 1
  funext index
  exact Nat.mul_left_comm index size width

theorem block_place {size : Nat} (positive : 0 < size) (part count width block : Nat) :
    (part * (size * count) + size * block) / (size * width) = (part * count + block) / width ∧
      (part * (size * count) + size * block) % (size * width) / size = (part * count + block) % width := by
  rw [Nat.mul_left_comm, ← Nat.mul_add]
  constructor
  · exact Nat.mul_div_mul_left _ _ positive
  · rw [Nat.mul_mod_mul_left, Nat.mul_div_cancel_left _ positive]

/-! ## The arrays of the walks -/

theorem grid_weight (walks : call.Walks) (mat : Mat) : call.grid ⟨mat, .weight⟩ = bf16Grid call.config ⟨mat, .weight⟩ := by
  rw [grid]
  rcases walks with backend | backend | backend <;> rw [backend] <;> rfl

theorem base_w13 (walks : call.Walks) (inRange : call.InRange) (kind : Kind) :
    call.base ⟨mat, kind⟩ = if mat = .up then (call.grid ⟨mat, kind⟩).elems call.gpuPart else 0 := by
  cases mat with
  | up => exact call.matrixSize_eq (some_experts inRange) (bytes_of_walks walks) ⟨.up, kind⟩
  | gate => rfl
  | down => rfl

theorem buffer_w13 (rows : mat ≠ .down) (kind : Kind) : buffer ⟨mat, kind⟩ = ⟨.w13, kind⟩ := by
  cases mat with
  | down => contradiction
  | gate => rfl
  | up => rfl

theorem w13Weight_exactly (walks : call.Walks) (ready : call.Ready source buffers) (inParts : part < call.config.tpCount)
    (rows : mat ≠ .down) (inTables : (⟨mat, .weight⟩ : Table) ∈ call.backend.tables) :
    Copy.Exactly ((List.range call.partSize).flatMap (call.w13Weight ((buffers part).read source) part mat))
      ((call.shard source ⟨mat, .weight⟩).ofPart part) := by
  have outer : (call.grid ⟨mat, .weight⟩).inner = false := by
    rw [grid_weight walks]
    exact decide_eq_false rows
  have job := unit_rows ready (bytes_of_walks walks) inParts inTables outer
  rw [base_w13 walks ready.inRange, buffer_w13 rows, grid_weight walks] at job
  simp only [narrow_weight] at job
  exact job

theorem exists_groups (quantized : call.backend ≠ .bf16) :
    ∃ count width, call.partSize = call.group * count ∧ call.gpuPart = call.group * width := by
  obtain ⟨count, inPart⟩ := call.group_dvd_partSize quantized
  obtain ⟨width, inRank⟩ := call.group_dvd_gpuPart quantized
  exact ⟨count, width, inPart, inRank⟩

theorem divUp_cancel {size : Nat} (positive : 0 < size) (count : Nat) : divUp (size * count) size = count := by
  rw [Load.divUp_of_dvd positive (Nat.dvd_mul_right _ _), Nat.mul_div_cancel_left _ positive]

theorem narrow_fp8 (backend : call.backend = .fp8) (kind : Kind) (cell : Cell) : call.narrow kind cell = cell := by
  unfold narrow
  rw [backend]

theorem fp8_w13Scale (backend : call.backend = .fp8) (ready : call.Ready source buffers) (inParts : part < call.config.tpCount)
    (rows : mat ≠ .down) : Copy.Exactly
      ((List.range call.partSize).flatMap (call.w13Scale ((buffers part).read source) part mat))
      ((call.shard source ⟨mat, .scale⟩).ofPart part) := by
  have walks : call.Walks := .inr (.inl backend)
  have quantized : call.backend ≠ .bf16 := by
    rw [backend]
    decide
  have positive := call.group_pos quantized
  obtain ⟨count, width, inPart, inRank⟩ := exists_groups quantized
  have gridEq : call.grid ⟨mat, .scale⟩ = ⟨call.group, false, false, fun size => divUp size call.group,
      divUp call.hidden call.group, fun size part => part * divUp size call.group⟩ := by
    rw [grid, backend]
    cases mat with
    | down => contradiction
    | gate => rfl
    | up => rfl
  have inTables : (⟨mat, .scale⟩ : Table) ∈ call.backend.tables := by
    rw [backend]
    cases mat <;> decide
  have outer : (call.grid ⟨mat, .scale⟩).inner = false := by rw [gridEq]
  have job := unit_rows ready (bytes_of_walks walks) inParts inTables outer
  rw [base_w13 walks ready.inRange, buffer_w13 rows, gridEq] at job
  simp only [narrow_fp8 backend, Grid.elems] at job
  rw [← flatMap_blocks positive call.partSize] at job
  convert job using 2
  funext row
  rw [w13Scale, backend]
  by_cases first : row % call.group = 0
  · obtain ⟨block, inBlocks⟩ := Nat.dvd_of_mod_eq_zero first
    have place := block_place positive part count width block
    simp only [if_pos first]
    rw [inBlocks, inPart, inRank, place.1, place.2, divUp_cancel positive, divUp_cancel positive,
      Nat.mul_div_cancel_left _ positive]
  · simp only [if_neg first]

theorem mxfp8_w13Scale (backend : call.backend = .mxfp8) (ready : call.Ready source buffers)
    (inParts : part < call.config.tpCount) (rows : mat ≠ .down) : Copy.Exactly
      ((List.range call.partSize).flatMap (call.w13Scale ((buffers part).read source) part mat))
      ((call.shard source ⟨mat, .scale⟩).ofPart part) := by
  have walks : call.Walks := .inr (.inr backend)
  have gridEq : call.grid ⟨mat, .scale⟩ = ⟨1, false, false, id, call.hidden / call.group, fun size part => part * size⟩ := by
    rw [grid, backend]
    cases mat with
    | down => contradiction
    | gate => rfl
    | up => rfl
  have inTables : (⟨mat, .scale⟩ : Table) ∈ call.backend.tables := by
    rw [backend]
    cases mat <;> decide
  have outer : (call.grid ⟨mat, .scale⟩).inner = false := by rw [gridEq]
  have job := unit_rows ready (bytes_of_walks walks) inParts inTables outer
  rw [base_w13 walks ready.inRange, buffer_w13 rows, gridEq] at job
  simp only [Grid.elems, id] at job
  convert job using 2
  funext row
  rw [w13Scale, backend]

/-- The widths of the parts and of the ranks nest. -/
def Nested (call : Export) : Prop :=
  call.gpuTpCount ∣ call.config.tpCount ∨ call.config.tpCount ∣ call.gpuTpCount

theorem dvd_of_counts {count other size width : Nat} (some_ : 0 < count) (same : count * size = other * width)
    (divides : count ∣ other) : width ∣ size := by
  obtain ⟨ratio, rfl⟩ := divides
  rw [Nat.mul_assoc] at same
  exact ⟨ratio, (Nat.eq_of_mul_eq_mul_left some_ same).trans (Nat.mul_comm _ _)⟩

theorem sizes_nest (nested : call.Nested) : call.gpuPart ∣ call.partSize ∨ call.partSize ∣ call.gpuPart := by
  have same := call.ranks_whole.trans call.parts_whole.symm
  rcases nested with many | one
  · exact .inr (dvd_of_counts call.ranks same many)
  · exact .inl (dvd_of_counts call.load.pools same.symm one)

theorem w2Weight_exactly (walks : call.Walks) (ready : call.Ready source buffers) (inParts : part < call.config.tpCount)
    (nested : call.Nested) (someRank : 0 < call.gpuPart) (somePart : 0 < call.partSize) :
    Copy.Exactly (call.walkJob ((buffers part).read source) part ⟨.down, .weight⟩)
      ((call.shard source ⟨.down, .weight⟩).ofPart part) := by
  have gridEq := grid_weight walks .down
  have inner : (call.grid ⟨.down, .weight⟩).inner = true := by
    rw [gridEq]
    rfl
  have counts (size : Nat) : (call.grid ⟨.down, .weight⟩).count size = size := by
    rw [gridEq]
    rfl
  have job := walk_columns ready (bytes_of_walks walks) inParts (Load.mem_down call.backend) inner
    (by rwa [counts]) (by rwa [counts]) (by simpa only [counts] using sizes_nest nested)
  rw [gridEq] at job
  simp only [narrow_weight, base, Nat.zero_add] at job
  exact job

theorem counts_nest {size count width : Nat} (positive : 0 < size)
    (nested : size * width ∣ size * count ∨ size * count ∣ size * width) : width ∣ count ∨ count ∣ width := by
  rcases nested with one | many
  · exact .inl (Nat.dvd_of_mul_dvd_mul_left positive one)
  · exact .inr (Nat.dvd_of_mul_dvd_mul_left positive many)

/-- The source takes the length of a piece from the blocks that are left in the rank. -/
theorem blocks_length {part count width start : Nat} (nested : width ∣ count ∨ count ∣ width) (somePart : 0 < count)
    (member : start ∈ steps count width) :
    min count (width - (part * count + start) % width) = min width (count - start) := by
  obtain ⟨index, inSteps, rfl⟩ := List.mem_map.mp member
  have inCount : index < divUp count width := List.mem_range.mp inSteps
  have someRank : 0 < width := by
    apply Nat.pos_of_ne_zero
    intro none
    rw [none, divUp, Nat.div_zero] at inCount
    contradiction
  rcases nested with ⟨ratio, rfl⟩ | ⟨ratio, rfl⟩
  · rw [divUp_cancel someRank] at inCount
    have last : width * (index + 1) ≤ width * ratio := Nat.mul_le_mul_left _ inCount
    rw [Nat.mul_add, Nat.mul_one, Nat.mul_comm] at last
    rw [Nat.mul_left_comm, Nat.mul_comm index, ← Nat.mul_add, Nat.mul_mod_right]
    rw [Nat.mul_comm index] at last
    omega
  · have someRatio : 0 < ratio := Nat.pos_of_mul_pos_left someRank
    have inOne : index * (count * ratio) < count := lt_divUp someRank inCount
    have le : count * 1 ≤ count * ratio := Nat.mul_le_mul_left _ someRatio
    obtain rfl : index = 0 := by
      apply Nat.eq_zero_of_not_pos
      intro more
      have least : 1 * (count * ratio) ≤ index * (count * ratio) := Nat.mul_le_mul_right _ more
      omega
    have start : (part * count + 0) % (ratio * count) = part % ratio * count + 0 := offset_of_piece somePart
    have last : (part % ratio + 1) * count ≤ ratio * count := Nat.mul_le_mul_right _ (Nat.mod_lt part someRatio)
    rw [Nat.add_mul, Nat.one_mul] at last
    rw [Nat.zero_mul, Nat.mul_comm count, start]
    omega

theorem fp8_w2Scale (backend : call.backend = .fp8) (ready : call.Ready source buffers) (inParts : part < call.config.tpCount)
    (nested : call.Nested) (someRank : 0 < call.gpuPart) (somePart : 0 < call.partSize) :
    Copy.Exactly (call.walkJob ((buffers part).read source) part ⟨.down, .scale⟩)
      ((call.shard source ⟨.down, .scale⟩).ofPart part) := by
  have quantized : call.backend ≠ .bf16 := by
    rw [backend]
    decide
  have positive := call.group_pos quantized
  obtain ⟨count, width, inPart, inRank⟩ := exists_groups quantized
  have gridEq : call.grid ⟨.down, .scale⟩ = ⟨call.group, false, true, fun size => divUp size call.group,
      divUp call.hidden call.group, fun size part => part * size / call.group⟩ := by
    rw [grid, backend]
    rfl
  have inTables : (⟨.down, .scale⟩ : Table) ∈ call.backend.tables := by
    rw [backend]
    decide
  have inner : (call.grid ⟨.down, .scale⟩).inner = true := by rw [gridEq]
  have ofPart : (call.grid ⟨.down, .scale⟩).count call.partSize = count := by
    rw [gridEq, inPart]
    exact divUp_cancel positive count
  have ofRank : (call.grid ⟨.down, .scale⟩).count call.gpuPart = width := by
    rw [gridEq, inRank]
    exact divUp_cancel positive width
  have sizes := sizes_nest nested
  rw [inPart] at sizes somePart
  rw [inRank] at sizes someRank
  have nest := counts_nest positive sizes
  have someCount : 0 < count := Nat.pos_of_mul_pos_left somePart
  have job := walk_columns ready (bytes_of_walks (.inr (.inl backend))) inParts inTables inner
    (by rw [ofRank]; exact Nat.pos_of_mul_pos_left someRank) (by rwa [ofPart]) (by rwa [ofPart, ofRank])
  rw [ofPart, ofRank, gridEq] at job
  have steps_ : steps call.partSize call.gpuPart = (steps count width).map (call.group * ·) := by
    rw [inPart, inRank, steps_mul positive]
  rw [walkJob, steps_, List.flatMap_map]
  convert job using 1
  apply List.flatMap_congr
  intro start member
  have length : min count (width - (part * count + start) % width) = min width (count - start) :=
    blocks_length nest someCount member
  rw [← flatMap_blocks positive call.hidden]
  congr 1
  funext row
  have place := block_place positive part count width start
  rw [w2Scale, backend]
  by_cases first : row % call.group = 0
  · simp only [if_pos first]
    rw [inPart, inRank, place.1, place.2, divUp_cancel positive, divUp_cancel positive, length,
      Nat.mul_div_cancel_left _ positive]
    simp only [narrow_fp8 backend, base, Nat.zero_add]
    rfl
  · simp only [if_neg first]

theorem mxfp8_w2Scale (backend : call.backend = .mxfp8) (ready : call.Ready source buffers) (inParts : part < call.config.tpCount)
    (nested : call.Nested) (someRank : 0 < call.gpuPart) (somePart : 0 < call.partSize) :
    Copy.Exactly (call.walkJob ((buffers part).read source) part ⟨.down, .scale⟩)
      ((call.shard source ⟨.down, .scale⟩).ofPart part) := by
  have quantized : call.backend ≠ .bf16 := by
    rw [backend]
    decide
  have positive := call.group_pos quantized
  obtain ⟨count, width, inPart, inRank⟩ := exists_groups quantized
  have gridEq : call.grid ⟨.down, .scale⟩ = ⟨call.group, false, true, fun size => size / call.group, call.hidden,
      fun size part => part * size / call.group⟩ := by
    rw [grid, backend]
    rfl
  have inTables : (⟨.down, .scale⟩ : Table) ∈ call.backend.tables := by
    rw [backend]
    decide
  have inner : (call.grid ⟨.down, .scale⟩).inner = true := by rw [gridEq]
  have ofPart : (call.grid ⟨.down, .scale⟩).count call.partSize = count := by
    rw [gridEq, inPart]
    exact Nat.mul_div_cancel_left count positive
  have ofRank : (call.grid ⟨.down, .scale⟩).count call.gpuPart = width := by
    rw [gridEq, inRank]
    exact Nat.mul_div_cancel_left width positive
  have sizes := sizes_nest nested
  rw [inPart] at sizes somePart
  rw [inRank] at sizes someRank
  have nest := counts_nest positive sizes
  have job := walk_columns ready (bytes_of_walks (.inr (.inr backend))) inParts inTables inner
    (by rw [ofRank]; exact Nat.pos_of_mul_pos_left someRank) (by rw [ofPart]; exact Nat.pos_of_mul_pos_left somePart)
    (by rwa [ofPart, ofRank])
  rw [ofPart, ofRank, gridEq] at job
  have steps_ : steps call.partSize call.gpuPart = (steps count width).map (call.group * ·) := by
    rw [inPart, inRank, steps_mul positive]
  rw [walkJob, steps_, List.flatMap_map]
  convert job using 2
  funext start
  congr 1
  funext row
  have place := block_place positive part count width start
  have length : min (call.group * width) (call.group * count - call.group * start) / call.group =
      min width (count - start) := by
    rw [← Nat.mul_sub, Nat.mul_min_mul_left, Nat.mul_div_cancel_left _ positive]
  rw [w2Scale, backend]
  simp only [base, Nat.zero_add]
  rw [inPart, inRank, place.1, place.2, length, Nat.mul_div_cancel_left _ positive, Nat.mul_div_cancel_left _ positive,
    Nat.mul_div_cancel_left _ positive]
  rfl

/-- Where the widths nest, every array of a part goes to its place. -/
theorem walkJob_exactly (walks : call.Walks) (ready : call.Ready source buffers) (inParts : part < call.config.tpCount)
    (nested : call.Nested) (someRank : 0 < call.gpuPart) (somePart : 0 < call.partSize)
    (inTables : table ∈ call.backend.tables) :
    Copy.Exactly (call.walkJob ((buffers part).read source) part table) ((call.shard source table).ofPart part) := by
  obtain ⟨mat, kind⟩ := table
  cases kind with
  | weight =>
      cases mat with
      | down => exact w2Weight_exactly walks ready inParts nested someRank somePart
      | gate => exact w13Weight_exactly walks ready inParts (by decide) inTables
      | up => exact w13Weight_exactly walks ready inParts (by decide) inTables
  | scale =>
      rcases walks with backend | backend | backend
      · rw [backend] at inTables
        simp [Backend.tables] at inTables
      · cases mat with
        | down => exact fp8_w2Scale backend ready inParts nested someRank somePart
        | gate => exact fp8_w13Scale backend ready inParts (by decide)
        | up => exact fp8_w13Scale backend ready inParts (by decide)
      · cases mat with
        | down => exact mxfp8_w2Scale backend ready inParts nested someRank somePart
        | gate => exact mxfp8_w13Scale backend ready inParts (by decide)
        | up => exact mxfp8_w13Scale backend ready inParts (by decide)

end Export

end KtKernel.Avx2
