import KtKernel.Avx2.PackedGemm
import KtKernel.Data.Loops
import KtKernel.Data.Panels
import Mathlib.Data.List.Perm.Lattice
import Mathlib.Data.Nat.Find
import Mathlib.Tactic.Ring

namespace KtKernel.Avx2

open KtKernel.Data

/-! ## Where the shares begin -/

/-- The start of a share of a balanced split. -/
def splitStart (total nth ith : Nat) : Nat :=
  ith * (total / nth) + min ith (total % nth)

theorem splitStart_succ (total nth ith : Nat) :
    splitStart total nth (ith + 1) =
      splitStart total nth ith + (total / nth + if ith < total % nth then 1 else 0) := by
  rw [splitStart, splitStart, Nat.succ_mul]
  split
  · omega
  · omega

theorem splitRange_eq (total ith nth : Nat) :
    splitRange total ith nth = (splitStart total nth ith, splitStart total nth (ith + 1)) := by
  rw [splitStart_succ, ← Nat.add_assoc]
  rfl

theorem splitRangeJb_eq (n ith nth : Nat) :
    splitRangeJb n ith nth = (8 * splitStart (n / 8) nth ith, 8 * splitStart (n / 8) nth (ith + 1)) := by
  rw [splitStart_succ, Nat.mul_add, Nat.mul_comm 8, Nat.mul_comm 8]
  rfl

theorem splitStart_last (total : Nat) (positive : 0 < nth) : splitStart total nth nth = total := by
  have small := Nat.mod_lt total positive
  have whole := Nat.div_add_mod total nth
  rw [splitStart]
  omega

theorem splitStart_mono (total nth : Nat) {first second : Nat} (le : first ≤ second) :
    splitStart total nth first ≤ splitStart total nth second := by
  have product := Nat.mul_le_mul_right (total / nth) le
  rw [splitStart, splitStart]
  omega

theorem exists_share (total nth : Nat) (inside : place < total) (positive : 0 < nth) :
    ∃ ith < nth, splitStart total nth ith ≤ place ∧ place < splitStart total nth (ith + 1) := by
  have beyond : ∃ ith, place < splitStart total nth ith := ⟨nth, by rw [splitStart_last total positive]; exact inside⟩
  have found := Nat.find_spec beyond
  have least (ith : Nat) := Nat.find_min (m := ith) beyond
  cases first : Nat.find beyond with
  | zero =>
      rw [first, splitStart] at found
      omega
  | succ ith =>
      rw [first] at found least
      refine ⟨ith, ?_, Nat.le_of_not_lt (least ith (Nat.lt_succ_self ith)), found⟩
      by_contra late
      have more := splitStart_mono total nth (Nat.le_of_not_lt late)
      rw [splitStart_last total positive] at more
      have notYet := least ith (Nat.lt_succ_self ith)
      omega

/-- Shares do not meet. -/
theorem share_unique (total nth : Nat) {first second : Nat}
    (lower : splitStart total nth first ≤ place) (upper : place < splitStart total nth (first + 1))
    (lower' : splitStart total nth second ≤ place) (upper' : place < splitStart total nth (second + 1)) :
    first = second := by
  rcases Nat.lt_trichotomy first second with less | same | more
  · have gap : splitStart total nth (first + 1) ≤ splitStart total nth second := splitStart_mono total nth less
    omega
  · exact same
  · have gap : splitStart total nth (second + 1) ≤ splitStart total nth first := splitStart_mono total nth more
    omega

/-- Elements column by column are elements row by row. -/
theorem columns_perm {α : Type} (m n : Nat) (value : Nat → Nat → α) :
    ((List.range n).flatMap fun ni => (List.range m).map fun mi => (mi * n + ni, value mi ni)).Perm
      ((List.range (m * n)).map fun cell => (cell, value (cell / n) (cell % n))) := by
  apply (List.perm_ext_iff_of_nodup _ _).mpr
  · intro element
    simp only [List.mem_flatMap, List.mem_map, List.mem_range]
    constructor
    · rintro ⟨ni, inColumns, mi, inRows, rfl⟩
      refine ⟨mi * n + ni, ?_, ?_⟩
      · rw [Nat.mul_comm m]
        exact pairIndex_lt inRows inColumns
      · rw [pairIndex_div mi inColumns, pairIndex_mod mi inColumns]
    · rintro ⟨cell, inside, rfl⟩
      have positive : 0 < n := Nat.pos_of_mul_pos_left (Nat.zero_lt_of_lt inside)
      refine ⟨cell % n, Nat.mod_lt _ positive, cell / n, Nat.div_lt_of_lt_mul (by rwa [Nat.mul_comm]), ?_⟩
      rw [Nat.div_add_mod']
  · rw [List.nodup_flatMap]
    constructor
    · intro ni inRange
      have inColumns := List.mem_range.mp inRange
      apply List.Nodup.map _ List.nodup_range
      intro one other same
      exact (split_unique inColumns inColumns (congrArg Prod.fst same)).1
    · apply List.nodup_range.imp_of_mem
      intro one other first second different element inOne inOther
      obtain ⟨mi, -, rfl⟩ := List.mem_map.mp inOne
      obtain ⟨row, -, same⟩ := List.mem_map.mp inOther
      exact different (split_unique (List.mem_range.mp second) (List.mem_range.mp first) (congrArg Prod.fst same)).2.symm
  · apply List.Nodup.map _ List.nodup_range
    intro one other same
    exact congrArg Prod.fst same

/-- Threads that divide the columns go through all of them. -/
theorem shares_eq {α : Type} (m : Nat) (value : Nat → Nat → α) {nth : Nat} (positive : 0 < nth) (n : Nat) :
    ((List.range nth).flatMap fun ith =>
        (List.range' (splitStart n nth ith) (splitStart n nth (ith + 1) - splitStart n nth ith)).flatMap fun ni =>
          (List.range m).map fun mi => (mi * n + ni, value mi ni)) =
      (List.range n).flatMap fun ni => (List.range m).map fun mi => (mi * n + ni, value mi ni) := by
  rw [flatMap_bounds (splitStart n nth) (fun index => splitStart_mono n nth (Nat.le_succ index)), splitStart_last n positive]
  simp [splitStart, List.range_eq_range']

/-! ## The two splits -/

theorem recommendedNth_pos (n : Nat) : 0 < recommendedNth n := by
  rw [recommendedNth]
  omega

/-- Whole blocks for every share: both splits are the same. -/
theorem splitStart_of_dvd (positive : 0 < nth) (divides : 8 * nth ∣ n) (ith : Nat) :
    splitStart n nth ith = 8 * splitStart (n / 8) nth ith := by
  obtain ⟨count, rfl⟩ := divides
  have blocks : 8 * nth * count / 8 = nth * count := by
    rw [Nat.mul_assoc, Nat.mul_div_cancel_left _ (by decide)]
  have elements : 8 * nth * count = nth * (8 * count) := by ring
  rw [blocks, elements, splitStart, splitStart, Nat.mul_div_cancel_left _ positive, Nat.mul_mod_right,
    Nat.mul_div_cancel_left _ positive, Nat.mul_mod_right]
  ring_nf
  omega

/-- Few blocks are left over for the number of shares. -/
theorem leftover_le {blocks nth : Nat} (shares : blocks / 8 = nth) (positive : 0 < nth) :
    8 * (blocks % nth) ≤ 7 * nth := by
  have small := Nat.mod_lt blocks positive
  have few : blocks % nth ≤ 7 := by
    have whole := Nat.div_add_mod blocks 8
    rw [shares, Nat.mul_comm] at whole
    rw [← whole, Nat.mul_add_mod]
    have less := Nat.mod_le (blocks % 8) nth
    omega
  omega

/-- With blocks left over, the first share of the elements ends before that of the blocks. -/
theorem splitStart_one_lt {blocks nth : Nat} (shares : blocks / 8 = nth) (positive : 0 < nth)
    (uneven : blocks % nth ≠ 0) : splitStart (8 * blocks) nth 1 < 8 * splitStart blocks nth 1 := by
  have leftover := leftover_le shares positive
  have elements := Nat.div_add_mod (8 * blocks) nth
  have whole := Nat.div_add_mod blocks nth
  have bound : 8 * blocks ≤ nth * (8 * (blocks / nth) + 7) := by
    calc
      8 * blocks = 8 * (nth * (blocks / nth)) + 8 * (blocks % nth) := by rw [← Nat.mul_add, whole]
      _ ≤ 8 * (nth * (blocks / nth)) + 7 * nth := by omega
      _ = nth * (8 * (blocks / nth) + 7) := by ring
  have first : 8 * blocks / nth + min 1 (8 * blocks % nth) ≤ 8 * (blocks / nth) + 7 := by
    rcases Nat.eq_zero_or_pos (8 * blocks % nth) with none | some
    · rw [none, Nat.min_zero, Nat.add_zero]
      exact Nat.div_le_of_le_mul bound
    · have strict : 8 * blocks / nth < 8 * (blocks / nth) + 7 := by
        by_contra many
        have product := Nat.mul_le_mul_left nth (Nat.le_of_not_lt many)
        omega
      omega
  rw [splitStart, splitStart, Nat.one_mul, Nat.one_mul]
  omega

/-- Where the splits differ, some share converts a column that it does not compute. -/
theorem exists_stray {n : Nat} (uneven : ¬ 8 * recommendedNth n ∣ n) :
    ∃ ith < recommendedNth n, ∃ column < n,
      splitStart n (recommendedNth n) ith ≤ column ∧ column < splitStart n (recommendedNth n) (ith + 1) ∧
        ¬ (8 * splitStart (n / 8) (recommendedNth n) ith ≤ column ∧
          column < 8 * splitStart (n / 8) (recommendedNth n) (ith + 1)) := by
  have positive := recommendedNth_pos n
  by_cases tail : n % 8 = 0
  · have blocks : n = 8 * (n / 8) := by omega
    have odd : n / 8 % recommendedNth n ≠ 0 := by
      intro even
      apply uneven
      have divides := Nat.mul_dvd_mul_left 8 (Nat.dvd_of_mod_eq_zero even)
      rw [← blocks] at divides
      exact divides
    have several : recommendedNth n ≠ 1 := by
      intro one
      rw [one, Nat.mod_one] at odd
      exact odd rfl
    have shares : n / 8 / 8 = recommendedNth n := by
      rw [recommendedNth] at several ⊢
      omega
    have early := splitStart_one_lt shares positive odd
    rw [← blocks] at early
    have second : splitStart n (recommendedNth n) 1 < splitStart n (recommendedNth n) 2 := by
      have many : 0 < n / recommendedNth n := by
        apply Nat.div_pos _ positive
        rw [recommendedNth] at several ⊢
        omega
      rw [splitStart_succ n (recommendedNth n) 1]
      omega
    have last := splitStart_mono n (recommendedNth n) (show 2 ≤ recommendedNth n by omega)
    rw [splitStart_last n positive] at last
    exact ⟨1, by omega, splitStart n (recommendedNth n) 1, by omega, le_rfl, second, fun own => by omega⟩
  · have final : n - 1 < n := by omega
    obtain ⟨ith, within, lower, upper⟩ := exists_share n (recommendedNth n) final positive
    refine ⟨ith, within, n - 1, by omega, lower, upper, fun own => ?_⟩
    have last := splitStart_mono (n / 8) (recommendedNth n) (show ith + 1 ≤ recommendedNth n from within)
    rw [splitStart_last (n / 8) positive] at last
    omega

/-! ## The programs of the tasks -/

section

variable {n projection m ith nth row column : Nat}

theorem store_mem_gemm :
    Op.store p row column ∈ gemm n projection m ith nth ↔
      p = projection ∧ row < m ∧ 8 * splitStart (n / 8) nth ith ≤ column ∧
        column < 8 * splitStart (n / 8) nth (ith + 1) := by
  rw [gemm, splitRangeJb_eq]
  simp only [Nat.mul_div_cancel_left _ (show 0 < 8 by decide), List.mem_flatMap, List.mem_map, List.mem_range,
    List.mem_range'_1]
  constructor
  · rintro ⟨jb, ⟨above, below⟩, row', inside, j, small, same⟩
    cases same
    refine ⟨rfl, inside, ?_, ?_⟩
    · omega
    · omega
  · rintro ⟨rfl, inside, above, below⟩
    refine ⟨column / 8, ?_, row, inside, column % 8, Nat.mod_lt _ (by decide), ?_⟩
    · omega
    · rw [Nat.div_add_mod']

theorem mem_gemm (member : op ∈ gemm n projection m ith nth) : ∃ row column, op = .store projection row column := by
  rw [gemm] at member
  simp only [List.mem_flatMap, List.mem_map] at member
  obtain ⟨jb, _, row, _, j, _, rfl⟩ := member
  exact ⟨row, _, rfl⟩

theorem mem_toMat (member : op ∈ toMat n projection m ith nth) :
    (∃ row column, op = .convert8 projection row column ∧ row < m ∧ splitStart n nth ith ≤ column ∧
      column + 8 ≤ splitStart n nth (ith + 1)) ∨
    ∃ row column, op = .convert1 projection row column ∧ splitStart n nth ith ≤ column ∧
      column < splitStart n nth (ith + 1) ∧ (splitStart n nth (ith + 1) - splitStart n nth ith) % 8 ≠ 0 := by
  rw [toMat, splitRange_eq] at member
  simp only [List.mem_flatMap, List.mem_append, List.mem_map, List.mem_range, List.mem_range'_1] at member
  obtain ⟨row, within, vector | single⟩ := member
  · obtain ⟨vector, inside, rfl⟩ := vector
    exact .inl ⟨row, _, rfl, within, by omega, by omega⟩
  · obtain ⟨column, inside, rfl⟩ := single
    exact .inr ⟨row, column, rfl, by omega, by omega, by omega⟩

theorem exists_convert (projection : Nat) (inside : row < m) (lower : splitStart n nth ith ≤ column)
    (upper : column < splitStart n nth (ith + 1)) :
    (∃ first, Op.convert8 projection row first ∈ toMat n projection m ith nth ∧ first ≤ column ∧ column < first + 8) ∨
      Op.convert1 projection row column ∈ toMat n projection m ith nth := by
  rw [toMat, splitRange_eq]
  simp only [List.mem_flatMap, List.mem_append, List.mem_map, List.mem_range, List.mem_range'_1]
  by_cases whole : column < splitStart n nth ith + 8 * ((splitStart n nth (ith + 1) - splitStart n nth ith) / 8)
  · refine .inl ⟨splitStart n nth ith + 8 * ((column - splitStart n nth ith) / 8), ⟨row, inside, .inl ?_⟩, ?_, ?_⟩
    · exact ⟨(column - splitStart n nth ith) / 8, by omega, rfl⟩
    · omega
    · omega
  · exact .inr ⟨row, inside, .inr ⟨column, by omega, rfl⟩⟩

end

section

variable {hardware : Hardware} {job : Job} {own : Projection} {projection row column : Nat}

theorem program_eq (found : job.projections[projection]? = some own) (share : ith < recommendedNth job.n) :
    job.program (projection, ith) =
      gemm job.n projection own.m ith (recommendedNth job.n) ++ toMat job.n projection own.m ith (recommendedNth job.n) := by
  rw [Job.program, found]
  exact if_pos share

theorem mem_program (member : op ∈ job.program task) :
    ∃ own, job.projections[task.1]? = some own ∧ task.2 < recommendedNth job.n := by
  rw [Job.program] at member
  split at member
  · rename_i own found
    split at member
    · exact ⟨own, found, ‹_›⟩
    · cases member
  · cases member

theorem result_eq (found : job.projections[projection]? = some own) :
    job.result hardware projection row column = gemmElement hardware job.k job.groupSize own row column := by
  rw [Job.result, found]

def Op.Converts (projection row column : Nat) : Op → Prop
  | .store _ _ _ => False
  | .convert8 p r first => p = projection ∧ r = row ∧ first ≤ column ∧ column < first + 8
  | .convert1 p r j => p = projection ∧ r = row ∧ j = column

theorem exec_c (apart : op ≠ .store projection row column) (memory : Memory) :
    (job.exec hardware op memory).c projection row column = memory.c projection row column := by
  cases op with
  | store p r j =>
      rw [Job.exec]
      refine if_neg fun same => apart ?_
      rw [same.1, same.2.1, same.2.2]
  | convert8 p r j => rfl
  | convert1 p r j => rfl

theorem exec_dst (apart : ¬ op.Converts projection row column) (memory : Memory) :
    (job.exec hardware op memory).dst projection row column = memory.dst projection row column := by
  cases op with
  | store p r j => rfl
  | convert8 p r j => exact if_neg fun same => apart ⟨same.1.symm, same.2.1.symm, same.2.2⟩
  | convert1 p r j => exact if_neg fun same => apart ⟨same.1.symm, same.2.1.symm, same.2.2.symm⟩

/-- A conversion rounds what is in `BufferC`, on one of the two paths. -/
theorem exec_converts (converts : op.Converts projection row column) (memory : Memory) :
    (job.exec hardware op memory).dst projection row column = storeFp32ToBf16 (memory.c projection row column) ∨
      (job.exec hardware op memory).dst projection row column =
        hardware.ggmlFp32ToBf16 (memory.c projection row column) := by
  cases op with
  | store p r j => exact converts.elim
  | convert8 p r j => exact .inl (if_pos ⟨converts.1.symm, converts.2.1.symm, converts.2.2⟩)
  | convert1 p r j => exact .inr (if_pos ⟨converts.1.symm, converts.2.1.symm, converts.2.2.symm⟩)

/-! ## The same columns for the product and the conversion -/

/-- What an operation establishes when each share converts what it computes. -/
def Established (hardware : Hardware) (job : Job) : Op → Memory → Prop
  | .store p row column, memory => memory.c p row column = job.result hardware p row column
  | .convert8 p row first, memory => ∀ column, first ≤ column → column < first + 8 →
      memory.dst p row column = storeFp32ToBf16 (job.result hardware p row column)
  | .convert1 _ _ _, _ => True

theorem no_convert1 (divides : 8 * recommendedNth job.n ∣ job.n) {task : Nat × Nat} {p r j : Nat} :
    Op.convert1 p r j ∉ job.program task := by
  intro member
  obtain ⟨own, found, share⟩ := mem_program member
  rw [show task = (task.1, task.2) from rfl, program_eq found share] at member
  rcases List.mem_append.mp member with inGemm | inToMat
  · obtain ⟨_, _, same⟩ := mem_gemm inGemm
    cases same
  · rcases mem_toMat inToMat with ⟨_, _, same, _⟩ | ⟨_, _, _, _, _, uneven⟩
    · cases same
    · rw [splitStart_of_dvd (recommendedNth_pos _) divides, splitStart_of_dvd (recommendedNth_pos _) divides] at uneven
      omega

/-- What a vector conversion reads has been computed before by the same task. -/
theorem computed_before (divides : 8 * recommendedNth job.n ∣ job.n) {task : Nat × Nat} {p r first : Nat}
    (split : job.program task = earlier ++ .convert8 p r first :: later)
    (lower : first ≤ column) (upper : column < first + 8) : Op.store p r column ∈ earlier := by
  have member : Op.convert8 p r first ∈ job.program task := by simp [split]
  obtain ⟨own, found, share⟩ := mem_program member
  rw [show task = (task.1, task.2) from rfl, program_eq found share] at member split
  have outside : Op.convert8 p r first ∉ gemm job.n task.1 own.m task.2 (recommendedNth job.n) := by
    intro inGemm
    obtain ⟨_, _, same⟩ := mem_gemm inGemm
    cases same
  have stored : Op.store p r column ∈ gemm job.n task.1 own.m task.2 (recommendedNth job.n) := by
    rcases mem_toMat ((List.mem_append.mp member).resolve_left outside) with
      ⟨_, _, same, row, above, below⟩ | ⟨_, _, same, _⟩
    · cases same
      rw [splitStart_of_dvd (recommendedNth_pos _) divides] at above below
      exact store_mem_gemm.mpr ⟨rfl, row, by omega, by omega⟩
    · cases same
  rcases List.append_eq_append_iff.mp split with ⟨middle, front, _⟩ | ⟨middle, front, back⟩
  · rw [front]
    exact List.mem_append_left _ stored
  · cases middle with
    | nil =>
        rw [List.append_nil] at front
        rw [← front]
        exact stored
    | cons op rest =>
        rw [List.cons_append] at back
        cases back
        exact absurd (by rw [front]; simp) outside

theorem established (divides : 8 * recommendedNth job.n ∣ job.n)
    (reached : (job.machine hardware).Reachable state) (task : Nat × Nat) :
    ∃ earlier, job.program task = earlier ++ state.left task ∧
      ∀ op ∈ earlier, Established hardware job op state.memory := by
  refine Interleaved.done_of_reachable (fun task earlier op later split memory before => ?_)
    (fun task earlier op later split memory before third other member holds => ?_) reached task
  · cases op with
    | store p r j => exact if_pos ⟨rfl, rfl, rfl⟩
    | convert8 p r first =>
        intro column lower upper
        have computed := before _ (computed_before divides split lower upper)
        rw [← (show memory.c p r column = job.result hardware p r column from computed)]
        exact if_pos ⟨rfl, rfl, lower, upper⟩
    | convert1 p r j => trivial
  · cases other with
    | store p r j =>
        by_cases same : op = .store p r j
        · rw [same]
          exact if_pos ⟨rfl, rfl, rfl⟩
        · exact (exec_c same memory).trans holds
    | convert8 p r first =>
        intro column lower upper
        by_cases converts : op.Converts p r column
        · cases op with
          | store _ _ _ => exact converts.elim
          | convert8 p' r' first' =>
              obtain ⟨rfl, rfl, lower', upper'⟩ := converts
              have computed := before _ (computed_before divides split lower' upper')
              rw [← (show memory.c p' r' column = job.result hardware p' r' column from computed)]
              exact if_pos ⟨rfl, rfl, lower', upper'⟩
          | convert1 p' r' j =>
              have inside : Op.convert1 p' r' j ∈ job.program task := by rw [split]; simp
              exact absurd inside (no_convert1 divides)
        · exact (exec_dst converts memory).trans (holds column lower upper)
    | convert1 p r j => trivial

theorem orderIndependent_of_dvd (divides : 8 * recommendedNth job.n ∣ job.n) : OrderIndependent hardware job := by
  intro state reached ended projection own found row inside column within
  obtain ⟨ith, share, lower, upper⟩ := exists_share job.n (recommendedNth job.n) within (recommendedNth_pos _)
  obtain ⟨earlier, split, holds⟩ := established divides reached (projection, ith)
  rw [ended, List.append_nil] at split
  rw [← split, program_eq found share] at holds
  rw [← result_eq found]
  rcases exists_convert projection inside lower upper with ⟨first, member, start, stop⟩ | single
  · exact holds _ (List.mem_append_right _ member) column start stop
  · have member : Op.convert1 projection row column ∈ job.program (projection, ith) := by
      rw [program_eq found share]
      exact List.mem_append_right _ single
    exact absurd member (no_convert1 divides)

theorem foldl_dst {ops : List Op} (none : ∀ op ∈ ops, ¬ op.Converts projection row column) (memory : Memory) :
    (ops.foldl (fun memory op => job.exec hardware op memory) memory).dst projection row column =
      memory.dst projection row column := by
  induction ops generalizing memory with
  | nil => rfl
  | cons op rest induction =>
      rw [List.foldl_cons, induction fun other member => none other (List.mem_cons_of_mem _ member)]
      exact exec_dst (none op List.mem_cons_self) memory

/-- Operations that do not compute an element convert what was there. -/
theorem foldl_stale {ops : List Op} {bits : Float32} {top : Bf16} (vector : storeFp32ToBf16 bits = top)
    (scalar : hardware.ggmlFp32ToBf16 bits = top) (unstored : ∀ op ∈ ops, op ≠ .store projection row column)
    (memory : Memory) (stale : memory.c projection row column = bits)
    (converted : memory.dst projection row column = top ∨ ∃ op ∈ ops, op.Converts projection row column) :
    (ops.foldl (fun memory op => job.exec hardware op memory) memory).dst projection row column = top := by
  induction ops generalizing memory with
  | nil => simpa using converted
  | cons op rest induction =>
      rw [List.foldl_cons]
      have kept : (job.exec hardware op memory).c projection row column = bits :=
        (exec_c (unstored op List.mem_cons_self) memory).trans stale
      refine induction (fun other member => unstored other (List.mem_cons_of_mem _ member)) _ kept ?_
      by_cases now : op.Converts projection row column
      · left
        rcases exec_converts now memory with same | same
        · rw [same, stale, vector]
        · rw [same, stale, scalar]
      · rw [exec_dst now]
        refine converted.imp_right fun ⟨other, member, later⟩ => ?_
        rcases List.mem_cons.mp member with same | inRest
        · rw [same] at later
          exact absurd later now
        · exact ⟨other, inRest, later⟩

theorem share_of_converts {task : Nat × Nat} (member : op ∈ job.program task)
    (converts : op.Converts projection row column) :
    task.1 = projection ∧ splitStart job.n (recommendedNth job.n) task.2 ≤ column ∧
      column < splitStart job.n (recommendedNth job.n) (task.2 + 1) := by
  obtain ⟨own, found, share⟩ := mem_program member
  rw [show task = (task.1, task.2) from rfl, program_eq found share] at member
  rcases List.mem_append.mp member with inGemm | inToMat
  · obtain ⟨_, _, rfl⟩ := mem_gemm inGemm
    exact converts.elim
  · rcases mem_toMat inToMat with ⟨_, _, rfl, _, above, below⟩ | ⟨_, _, rfl, above, below, _⟩
    · obtain ⟨same, -, start, stop⟩ := converts
      exact ⟨same, by omega, by omega⟩
    · obtain ⟨same, -, rfl⟩ := converts
      exact ⟨same, above, below⟩

end

/-! ## Every order of the tasks -/

/-- A zero or a normal number. -/
def Bf16.Normal (top : Bf16) : Prop :=
  top = 0 ∨ 0 < top.toNat / 128 % 256 ∧ top.toNat / 128 % 256 < 255

def Bf16.toFp32 (top : Bf16) : Float32 :=
  top.zeroExtend 32 <<< 16

/-- The scalar conversion keeps the numbers that BF16 represents. -/
def Hardware.KeepsBf16 (hardware : Hardware) : Prop :=
  ∀ top : Bf16, Bf16.Normal top → hardware.ggmlFp32ToBf16 (Bf16.toFp32 top) = top

theorem exists_stale {hardware : Hardware} (keeps : hardware.KeepsBf16) (result : Bf16) :
    ∃ bits top, storeFp32ToBf16 bits = top ∧ hardware.ggmlFp32ToBf16 bits = top ∧ top ≠ result := by
  by_cases zero : result = 0
  · subst zero
    exact ⟨Bf16.toFp32 0x3F80, 0x3F80, by decide, keeps 0x3F80 (.inr (by decide)), by decide⟩
  · exact ⟨Bf16.toFp32 0, 0, by decide, keeps 0 (.inl rfl), fun same => zero same.symm⟩

section

variable {hardware : Hardware} {job : Job} {own : Projection} {projection : Nat}

def Job.otherTasks (job : Job) (task : Nat × Nat) : List (Nat × Nat) :=
  (List.range job.projections.length ×ˢ List.range (recommendedNth job.n)).filter (· ≠ task)

theorem ne_of_mem_otherTasks {task other : Nat × Nat} (member : other ∈ job.otherTasks task) : other ≠ task := by
  have different := (List.mem_filter.mp member).2
  simpa using different

theorem nodup_tasks (task : Nat × Nat) : (task :: job.otherTasks task).Nodup := by
  rw [List.nodup_cons]
  exact ⟨fun member => ne_of_mem_otherTasks member rfl, (List.nodup_range.product List.nodup_range).filter _⟩

theorem program_eq_nil {task other : Nat × Nat} (absent : other ∉ task :: job.otherTasks task) :
    job.program other = [] := by
  refine List.eq_nil_iff_forall_not_mem.mpr fun op member => absent ?_
  obtain ⟨_, place, inside⟩ := mem_program member
  have listed : (other.1, other.2) ∈ List.range job.projections.length ×ˢ List.range (recommendedNth job.n) :=
    List.pair_mem_product.mpr
      ⟨List.mem_range.mpr (List.getElem?_eq_some_iff.mp place).1, List.mem_range.mpr inside⟩
  by_cases same : other = task
  · rw [same]
    exact List.mem_cons_self
  · exact List.mem_cons_of_mem _ (List.mem_filter.mpr ⟨listed, by simpa using same⟩)

theorem exists_run_first (hardware : Hardware) (job : Job) (task : Nat × Nat) (memory : Memory) :
    ∃ state, (job.machine hardware).Reachable state ∧ (∀ other, state.left other = []) ∧
      state.memory = ((job.otherTasks task).flatMap job.program).foldl (fun memory op => job.exec hardware op memory)
        ((job.program task).foldl (fun memory op => job.exec hardware op memory) memory) := by
  have whole : ∃ schedule final, (job.machine hardware).run { left := job.program, memory := memory } schedule =
      some final ∧ (∀ other ∈ task :: job.otherTasks task, final.left other = []) ∧
      (∀ other ∉ task :: job.otherTasks task, final.left other = job.program other) ∧
      final.memory = ((task :: job.otherTasks task).flatMap job.program).foldl
        (fun memory op => job.exec hardware op memory) memory :=
    Interleaved.run_tasks _ (nodup_tasks task) _
  obtain ⟨schedule, final, ran, ended, kept, result⟩ := whole
  have started : (job.machine hardware).Reachable { left := job.program, memory := memory } :=
    .initial ⟨rfl, trivial⟩
  refine ⟨final, started.run ran, fun other => ?_, ?_⟩
  · by_cases listed : other ∈ task :: job.otherTasks task
    · exact ended other listed
    · rw [kept other listed]
      exact program_eq_nil listed
  · rw [result, List.flatMap_cons, List.foldl_append]

/-- The task that converts a stray column runs first. -/
theorem not_orderIndependent (keeps : hardware.KeepsBf16) (found : job.projections[projection]? = some own)
    (rows : 0 < own.m) (uneven : ¬ 8 * recommendedNth job.n ∣ job.n) : ¬ OrderIndependent hardware job := by
  intro independent
  obtain ⟨ith, share, column, within, lower, upper, stray⟩ := exists_stray uneven
  obtain ⟨bits, top, vector, scalar, wrong⟩ :=
    exists_stale keeps (storeFp32ToBf16 (gemmElement hardware job.k job.groupSize own 0 column))
  obtain ⟨state, reached, ended, memory⟩ :=
    exists_run_first hardware job (projection, ith) ⟨fun _ _ _ => bits, fun _ _ _ => 0⟩
  have value := independent state reached ended projection own found 0 rows column within
  have unstored : ∀ op ∈ job.program (projection, ith), op ≠ .store projection 0 column := by
    intro op member same
    rw [same, program_eq found share] at member
    rcases List.mem_append.mp member with inGemm | inToMat
    · exact stray (store_mem_gemm.mp inGemm).2.2
    · rcases mem_toMat inToMat with ⟨_, _, other, _⟩ | ⟨_, _, other, _⟩
      · cases other
      · cases other
  have converted : ∃ op ∈ job.program (projection, ith), op.Converts projection 0 column := by
    rw [program_eq found share]
    rcases exists_convert projection rows lower upper with ⟨first, member, start, stop⟩ | single
    · exact ⟨.convert8 projection 0 first, List.mem_append_right _ member, rfl, rfl, start, stop⟩
    · exact ⟨.convert1 projection 0 column, List.mem_append_right _ single, rfl, rfl, rfl⟩
  have untouched : ∀ op ∈ (job.otherTasks (projection, ith)).flatMap job.program, ¬ op.Converts projection 0 column := by
    intro op member converts
    obtain ⟨task, listed, member⟩ := List.mem_flatMap.mp member
    obtain ⟨same, above, below⟩ := share_of_converts member converts
    exact ne_of_mem_otherTasks listed (Prod.ext same (share_unique _ _ above below lower upper))
  rw [memory, foldl_dst untouched, foldl_stale vector scalar unstored _ rfl (.inr converted)] at value
  exact wrong value

/-- The output of a job does not depend on the order of its tasks exactly where the columns
are whole blocks for every share, or there is no row. -/
theorem order_independent_iff (keeps : hardware.KeepsBf16) :
    OrderIndependent hardware job ↔ (∀ own ∈ job.projections, own.m = 0) ∨ 8 * recommendedNth job.n ∣ job.n := by
  constructor
  · intro independent
    by_contra neither
    obtain ⟨full, uneven⟩ := not_or.mp neither
    simp only [not_forall] at full
    obtain ⟨own, member, rows⟩ := full
    obtain ⟨place, found⟩ := List.getElem?_of_mem member
    exact not_orderIndependent keeps found (Nat.pos_of_ne_zero rows) uneven independent
  · rintro (empty | divides)
    · intro state _ _ projection own found row inside
      rw [empty own (List.mem_of_getElem? found)] at inside
      exact absurd inside (Nat.not_lt_zero row)
    · exact orderIndependent_of_dvd divides

end

/-! ## One job of each kind -/

/-- The conversion of the GGML library, and instructions that are only right on zeros. -/
def zeroHardware : Hardware where
  mul _ _ := 0
  add _ _ := 0
  sub _ _ := 0
  fmadd _ _ _ := 0
  cvtepi32 _ := 0
  ggmlFp32ToBf16 bits :=
    if 0x7F800000 < bits &&& 0x7FFFFFFF then (bits >>> 16).truncate 16 ||| 64 else storeFp32ToBf16 bits

theorem store_toFp32 (top : Bf16) : storeFp32ToBf16 (Bf16.toFp32 top) = top := by
  apply BitVec.eq_of_toNat_eq
  have small := top.isLt
  have wide : top.toNat * 65536 % 4294967296 = top.toNat * 65536 := Nat.mod_eq_of_lt (by omega)
  have rounded : (top.toNat * 65536 + (32767 + top.toNat % 2)) % 4294967296 =
      top.toNat * 65536 + (32767 + top.toNat % 2) := Nat.mod_eq_of_lt (by omega)
  have high : (top.toNat * 65536 + (32767 + top.toNat % 2)) / 65536 = top.toNat := by
    apply Nat.div_eq_of_lt_le
    · omega
    · omega
  simp [storeFp32ToBf16, Bf16.toFp32, Nat.shiftLeft_eq, Nat.shiftRight_eq_div_pow, wide, rounded, high]
  exact small

theorem zeroHardware_keeps : zeroHardware.KeepsBf16 := by
  intro top normal
  have number : ¬ (0x7F800000 < Bf16.toFp32 top &&& 0x7FFFFFFF) := by
    have small := top.isLt
    have wide : top.toNat * 65536 % 4294967296 = top.toNat * 65536 := Nat.mod_eq_of_lt (by omega)
    have mask (value : Nat) : value &&& 2147483647 = value % 2147483648 := Nat.and_two_pow_sub_one_eq_mod value 31
    simp only [BitVec.lt_def, BitVec.toNat_and, Bf16.toFp32, Nat.not_lt]
    simp [Nat.shiftLeft_eq, wide, mask]
    rcases normal with zero | ⟨-, finite⟩
    · simp [zero]
    · omega
  exact (if_neg number).trans (store_toFp32 top)

def zeroProjection : Projection where
  m := 1
  data _ _ := 128
  aScales _ _ := 0x3F800000
  qweight _ _ := 0x88888888
  scales _ _ := 0
  c2 _ _ := 0

/-- One expert with zero weights. -/
def zeroJob (n : Nat) : Job where
  projections := [zeroProjection, zeroProjection]
  n := n
  k := 64
  groupSize := 32
  group := by decide
  whole := by decide

theorem order_independent_iff_even :
    OrderIndependent zeroHardware (zeroJob 192) ↔ (∀ own ∈ (zeroJob 192).projections, own.m = 0) ∨
      8 * recommendedNth (zeroJob 192).n ∣ (zeroJob 192).n :=
  order_independent_iff zeroHardware_keeps

/-- Twenty-eight blocks in three shares: a share converts columns that another computes. -/
theorem uneven_shares_depend_on_order : ¬ OrderIndependent zeroHardware (zeroJob 224) := by
  have first : (zeroJob 224).projections[0]? = some zeroProjection := rfl
  exact not_orderIndependent zeroHardware_keeps first (by decide) (by decide)

end KtKernel.Avx2
