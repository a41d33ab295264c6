import KtKernel.Avx2.ExpertMaps
import KtKernel.Avx2.NativeGemm
import Mathlib.Algebra.BigOperators.Ring.Finset
import Mathlib.Data.Nat.ModEq

namespace KtKernel.Avx2

open KtKernel.Data
open KtKernel.Amx.ExpertFiles (Mat)

/-! What the parts compute, where every part has whole groups. -/

variable {m n k groupSize lane : Nat}

/-! ## The kernels -/

theorem dequant_eq (packed : Cell) (scale : ℚ) (lane : Nat) :
    gptqSymDequant8x4bit packed scale lane = (((packed.toNat / 16 ^ lane % 16 : Nat) : ℚ) - 8) * scale := by
  have mask : (0xF : BitVec 32).toNat = 2 ^ 4 - 1 := by decide
  have power : 2 ^ (4 * lane) = 16 ^ lane := by rw [Nat.pow_mul]
  rw [gptqSymDequant8x4bit, BitVec.toNat_and, mask, Nat.and_two_pow_sub_one_eq_mod, BitVec.toNat_ushiftRight,
    Nat.shiftRight_eq_div_pow, power]
  rfl

/-- A group goes on to the end of its last word. -/
def groupWidth (groupSize : Nat) : Nat :=
  (groupSize + 7) / 8 * 8

theorem gptqSum_eq (n k groupSize : Nat) (aRow : Nat → ℚ) (qweight : Nat → Cell) (scales : Nat → ℚ) (ni : Nat) :
    gptqSum n k groupSize aRow qweight scales ni =
      ∑ g ∈ Finset.range (k / groupSize), ∑ i ∈ Finset.range (groupWidth groupSize),
        aRow (g * groupSize + i) *
          ((((qweight ((g * groupSize / 8 + i / 8) * n + ni)).toNat / 16 ^ (i % 8) % 16 : Nat) : ℚ) - 8) * scales (g * n + ni) := by
  rw [gptqSum]
  simp only [foldl_range, zero_add, hsumMovehl_eq, upTo, List.foldl_map, foldl_lanes]
  apply Finset.sum_congr rfl
  intro g _
  rw [Finset.sum_comm, groupWidth, sum_blocks]
  apply Finset.sum_congr rfl
  intro word _
  apply Finset.sum_congr rfl
  intro lane inLanes
  have inside := Finset.mem_range.mp inLanes
  have place : (g * groupSize + word * 8) / 8 = g * groupSize / 8 + word := Nat.add_mul_div_right _ _ (by decide)
  have words : (word * 8 + lane) / 8 = word := pairIndex_div word inside
  have lanes : (word * 8 + lane) % 8 = lane := pairIndex_mod word inside
  rw [dequant_eq, place, words, lanes, Nat.add_assoc, mul_assoc]

theorem gptqSum_whole (words : 8 ∣ groupSize) (groups : groupSize ∣ k) (aRow : Nat → ℚ) (qweight : Nat → Cell)
    (scales : Nat → ℚ) (ni : Nat) :
    gptqSum n k groupSize aRow qweight scales ni =
      ∑ place ∈ Finset.range k, aRow place * ((((qweight (place / 8 * n + ni)).toNat / 16 ^ (place % 8) % 16 : Nat) : ℚ) - 8) *
        scales (place / groupSize * n + ni) := by
  have width : groupWidth groupSize = groupSize := by
    rw [groupWidth]
    omega
  have blocks := sum_blocks (fun place => aRow place * ((((qweight (place / 8 * n + ni)).toNat / 16 ^ (place % 8) % 16 : Nat) : ℚ) - 8) *
    scales (place / groupSize * n + ni)) (k / groupSize) groupSize
  rw [Nat.div_mul_cancel groups] at blocks
  rw [gptqSum_eq, width, blocks]
  apply Finset.sum_congr rfl
  intro g _
  apply Finset.sum_congr rfl
  intro i inGroup
  have start : 8 ∣ g * groupSize := Nat.dvd_mul_left_of_dvd words g
  have word : (g * groupSize + i) / 8 = g * groupSize / 8 + i / 8 := by omega
  have lanes : (g * groupSize + i) % 8 = i % 8 := by omega
  rw [word, lanes, pairIndex_div g (Finset.mem_range.mp inGroup)]

/-- A block of the sum: whole registers, and single weights after them. -/
theorem block_sum (term : Nat → ℚ) (length : Nat) :
    ∑ lane ∈ Finset.range 8, (∑ step ∈ Finset.range (length / 32), term (step * 32 + 8 * 0 + lane) +
        ∑ step ∈ Finset.range (length % 32 / 8), term (length / 32 * 32 + step * 8 + lane) +
        ∑ step ∈ Finset.range (length / 32), term (step * 32 + 8 * 2 + lane) +
        (∑ step ∈ Finset.range (length / 32), term (step * 32 + 8 * 1 + lane) +
          ∑ step ∈ Finset.range (length / 32), term (step * 32 + 8 * 3 + lane))) +
      ∑ i ∈ Finset.range (length - length / 8 * 8), term (length / 8 * 8 + i) = ∑ i ∈ Finset.range length, term i := by
  have whole : length = length / 8 * 8 + (length - length / 8 * 8) := by omega
  have split := Finset.sum_range_add term (length / 8 * 8) (length - length / 8 * 8)
  rw [← whole, ← registers_sum] at split
  rw [split]
  congr 1
  apply Finset.sum_congr rfl
  intro lane _
  simp only [Finset.sum_range_succ _ 3, Finset.sum_range_succ _ 2, Finset.sum_range_succ _ 1, Finset.sum_range_one,
    Finset.sum_add_distrib]
  ring

theorem fp8Sum_eq (positive : 0 < groupSize) (k : Nat) (aRow : Nat → ℚ) (bRow : Nat → Cell) (scales : Nat → ℚ) (ni : Nat) :
    fp8Sum k groupSize aRow bRow scales ni =
      ∑ place ∈ Finset.range k, aRow place * fp8Lut (bRow place).toNat *
        scales (ni / groupSize * divUp k groupSize + place / groupSize) := by
  have chunks := sum_chunks (fun place => aRow place * fp8Lut (bRow place).toNat *
    scales (ni / groupSize * divUp k groupSize + place / groupSize)) (le_divUp_mul k positive)
  rw [fp8Sum, ← chunks]
  simp only [upTo, List.foldl_map, foldl_accumulators, foldl_lanes, foldl_range', hsumMovehl_eq, foldl_range, zero_add]
  apply Finset.sum_congr rfl
  intro index _
  have sum := block_sum (fun i => aRow (index * groupSize + i) * fp8Lut (bRow (index * groupSize + i)).toNat)
    (min groupSize (k - index * groupSize))
  rw [sum, Finset.sum_mul]
  apply Finset.sum_congr rfl
  intro i inBlock
  have inside : i < groupSize := lt_of_lt_of_le (Finset.mem_range.mp inBlock) (Nat.min_le_left _ _)
  rw [pairIndex_div index inside, Nat.mul_div_cancel _ positive]

/-- The stores of a thread, from the values that it computes. -/
def columnStores (m n : Nat) (value : Nat → Nat → ℚ) (nth ith : Nat) : List (Nat × ℚ) :=
  (List.range' (splitStart n nth ith) (splitStart n nth (ith + 1) - splitStart n nth ith)).flatMap fun ni =>
    (List.range m).map fun mi => (mi * n + ni, value mi ni)

namespace Grouped

theorem stores_iff {computed value : Nat → Nat → ℚ} :
    Stores (columnStores m n computed) m n value ↔ ∀ mi < m, ∀ ni < n, computed mi ni = value mi ni := by
  have all (nth : Nat) (positive : 0 < nth) := (shares_eq m computed positive n ▸ columns_perm m n computed :
    ((List.range nth).flatMap (columnStores m n computed nth)).Perm _)
  constructor
  · intro stores mi inRows ni inColumns
    have same := (all 1 (by decide)).symm.trans (stores 1 (by decide))
    have inside : mi * n + ni < m * n := by
      rw [Nat.mul_comm m]
      exact pairIndex_lt inRows inColumns
    have member := same.mem_iff.mp (List.mem_map_of_mem (List.mem_range.mpr inside))
    obtain ⟨cell, -, found⟩ := List.mem_map.mp member
    obtain ⟨rfl, values⟩ := Prod.mk.inj found
    rw [pairIndex_div mi inColumns, pairIndex_mod mi inColumns] at values
    exact values.symm
  · intro same nth positive
    refine (all nth positive).trans (.of_eq ?_)
    apply List.map_congr_left
    intro cell inRange
    have inside := List.mem_range.mp inRange
    have someColumns : 0 < n := Nat.pos_of_mul_pos_left (Nat.zero_lt_of_lt inside)
    rw [same (cell / n) (Nat.div_lt_of_lt_mul (by rwa [Nat.mul_comm])) (cell % n) (Nat.mod_lt _ someColumns)]

/-! ## What the kernels read -/

variable {grouped : Grouped} {config : Config} {source : Origin × Nat → Cell} {buffers : Buffers} {part expert unit other ni : Nat}
  {mat : Mat} {kind : Kind} {table : Table}

theorem mem_tables (grouped : Grouped) (table : Table) : table ∈ grouped.backend.tables := by
  obtain ⟨mat, kind⟩ := table
  cases grouped <;> cases mat <;> cases kind <;> decide

structure Ready (grouped : Grouped) (config : Config) (source : Origin × Nat → Cell) (part expert : Nat) (buffers : Buffers) : Prop where
  positive : 0 < config.groupSize
  loaded : Loaded grouped.backend config source part buffers
  inSlots : expert < config.expertNum
  named : ∃ task < config.expertNum, expertMap config.physicalToLogicalMap task = expert

/-- A slot holds the part's slice of the expert of its own number, as the copies cut it out. -/
theorem slot_holds (ready : grouped.Ready config source part expert buffers)
    (inCount : unit < (grouped.backend.grid config table).count config.partSize)
    (inAcross : other < (grouped.backend.grid config table).across) :
    buffers.read source ⟨table, expert⟩ ((grouped.backend.grid config table).place config.partSize unit other) =
      source (grouped.backend.address config table expert ((grouped.backend.grid config table).place config.intermediateSize
        ((grouped.backend.grid config table).start config.partSize part + unit) other)) := by
  obtain ⟨positive, loaded, inSlots, task, inTasks, rfl⟩ := ready
  have place : grouped.backend.stagePlace config task = expertMap config.physicalToLogicalMap task := by cases grouped <;> rfl
  have map : grouped.backend.partMap config = none := by cases grouped <;> rfl
  have filled : grouped.backend.skips config (expertMap config.physicalToLogicalMap task) = false := by cases grouped <;> rfl
  have kept : ∀ cell, grouped.backend.convert table.kind cell = cell := by
    intro cell
    cases grouped <;> rfl
  cases loaded with
  | staged form stages loads =>
      have loadsCell := (Backend.loadMoves_fetches (grouped.mem_tables table) inSlots filled (fun _ => positive)
        (Grid.place_lt inCount inAcross)).performed loads
      have stagesCell := (Backend.stageMoves_fetches part inTasks (grouped.mem_tables table) inCount inAcross).performed stages
      rw [map, expertMap, ← place, stagesCell, kept] at loadsCell
      rw [place] at loadsCell
      exact loadsCell
  | direct only => cases grouped <;> contradiction
  | pointed only => cases grouped <;> contradiction

/-- The unit of an array along the reduced axis. -/
def gptqUnit (config : Config) : Kind → Nat
  | .weight => 8
  | .scale => config.groupSize

theorem gptq_read_columns (ready : Ready .gptqInt4 config source part expert buffers) (kind : Kind) (notDown : mat ≠ .down) (inColumns : ni < config.partSize) (inRows : unit < config.hiddenSize / gptqUnit config kind) :
    buffers.read source ⟨⟨mat, kind⟩, expert⟩ (unit * config.partSize + ni) =
      source (Backend.gptqInt4.address config ⟨mat, kind⟩ expert
        (unit * config.intermediateSize + (part * config.partSize + ni))) := by
  have held := @slot_holds .gptqInt4 config source buffers part expert ni unit ⟨mat, kind⟩ ready
  cases mat with
  | down => exact absurd rfl notDown
  | gate => cases kind <;> exact held inColumns inRows
  | up => cases kind <;> exact held inColumns inRows

theorem gptq_read_rows (ready : Ready .gptqInt4 config source part expert buffers) (kind : Kind) (inColumns : ni < config.hiddenSize) (inRows : unit < config.partSize / gptqUnit config kind) :
    buffers.read source ⟨⟨.down, kind⟩, expert⟩ (unit * config.hiddenSize + ni) =
      source (Backend.gptqInt4.address config ⟨.down, kind⟩ expert
        ((part * (config.partSize / gptqUnit config kind) + unit) * config.hiddenSize + ni)) := by
  have held := @slot_holds .gptqInt4 config source buffers part expert unit ni ⟨.down, kind⟩ ready
  cases kind <;> exact held inRows inColumns

theorem fp8_read_weights (ready : Ready .fp8 config source part expert buffers) (notDown : mat ≠ .down) (inRows : ni < config.partSize) (inColumns : other < config.hiddenSize) :
    buffers.read source ⟨⟨mat, .weight⟩, expert⟩ (ni * config.hiddenSize + other) =
      source (Backend.fp8.address config ⟨mat, .weight⟩ expert ((part * config.partSize + ni) * config.hiddenSize + other)) := by
  have held := @slot_holds .fp8 config source buffers part expert ni other ⟨mat, .weight⟩ ready
  cases mat with
  | down => exact absurd rfl notDown
  | gate => exact held inRows inColumns
  | up => exact held inRows inColumns

theorem fp8_read_scales (ready : Ready .fp8 config source part expert buffers) (notDown : mat ≠ .down) (inRows : unit < divUp config.partSize config.groupSize)
    (inColumns : other < divUp config.hiddenSize config.groupSize) :
    buffers.read source ⟨⟨mat, .scale⟩, expert⟩ (unit * divUp config.hiddenSize config.groupSize + other) =
      source (Backend.fp8.address config ⟨mat, .scale⟩ expert
        ((part * divUp config.partSize config.groupSize + unit) * divUp config.hiddenSize config.groupSize + other)) := by
  have held := @slot_holds .fp8 config source buffers part expert unit other ⟨mat, .scale⟩ ready
  cases mat with
  | down => exact absurd rfl notDown
  | gate => exact held inRows inColumns
  | up => exact held inRows inColumns

theorem fp8_read_down (ready : Ready .fp8 config source part expert buffers) (inRows : ni < config.hiddenSize) (inColumns : other < config.partSize) :
    buffers.read source ⟨⟨.down, .weight⟩, expert⟩ (ni * config.partSize + other) =
      source (Backend.fp8.address config ⟨.down, .weight⟩ expert (ni * config.intermediateSize + (part * config.partSize + other))) :=
  @slot_holds .fp8 config source buffers part expert other ni ⟨.down, .weight⟩ ready inColumns inRows

theorem fp8_read_down_scales (ready : Ready .fp8 config source part expert buffers) (inRows : other < divUp config.hiddenSize config.groupSize) (inColumns : unit < divUp config.partSize config.groupSize) :
    buffers.read source ⟨⟨.down, .scale⟩, expert⟩ (other * divUp config.partSize config.groupSize + unit) =
      source (Backend.fp8.address config ⟨.down, .scale⟩ expert (other * divUp config.intermediateSize config.groupSize +
        (part * config.partSize / config.groupSize + unit))) :=
  @slot_holds .fp8 config source buffers part expert unit other ⟨.down, .scale⟩ ready inColumns inRows

/-! ## What the parts compute -/

/-- The value of an element in a part. -/
def computed (grouped : Grouped) (config : Config) (read : Slot → Nat → Cell) (expert : Nat) (mat : Mat) (a : Nat → ℚ) (mi ni : Nat) : ℚ :=
  let k := inputs config mat
  let aRow := fun i => a (mi * k + i)
  let weights := read ⟨⟨mat, .weight⟩, expert⟩
  let scales := fun place => scaleValue (read ⟨⟨mat, .scale⟩, expert⟩ place)
  match grouped with
  | .gptqInt4 => gptqSum (Backend.outputs config mat) k config.groupSize aRow weights scales ni
  | .fp8 => fp8Sum k config.groupSize aRow (fun i => weights (ni * k + i)) scales ni

theorem gemm_eq (grouped : Grouped) (config : Config) (read : Slot → Nat → Cell) (expert : Nat) (mat : Mat) (m : Nat) (a : Nat → ℚ) :
    grouped.gemm config read expert mat m a =
      columnStores m (Backend.outputs config mat) (grouped.computed config read expert mat a) := by
  funext nth ith
  cases grouped with
  | gptqInt4 =>
      simp only [gemm, gemmGptqSymInt4, splitRange_eq]
      rfl
  | fp8 =>
      simp only [gemm, gemmFp8, splitRange_eq]
      rfl

/-- Nothing is summed over an empty axis. -/
theorem computed_empty (positive : 0 < config.groupSize) (empty : inputs config mat = 0) (read : Slot → Nat → Cell) (a : Nat → ℚ)
    (mi ni : Nat) : grouped.computed config read expert mat a mi ni = 0 := by
  cases grouped with
  | gptqInt4 =>
      simp only [computed, empty]
      rw [gptqSum_eq, Nat.zero_div, Finset.range_zero, Finset.sum_empty]
  | fp8 =>
      simp only [computed, empty]
      rw [fp8Sum_eq positive, Finset.range_zero, Finset.sum_empty]

/-- The sizes for which every part is whole groups of its own. -/
def Whole (grouped : Grouped) (hidden intermediate groupSize tpCount : Nat) : Prop :=
  match grouped with
  | .gptqInt4 => 8 ∣ groupSize ∧ groupSize ∣ hidden ∧ groupSize ∣ intermediate / tpCount
  | .fp8 => tpCount = 1 ∨ groupSize ∣ intermediate / tpCount

theorem block_of_part (size : Nat) {group : Nat} (positive : 0 < group) (inParts : part < config.tpCount)
    (whole : config.tpCount = 1 ∨ group ∣ size) (place : Nat) :
    part * size / group + place / group = (part * size + place) / group ∧
      (place < size → part * divUp size group + place / group = (part * size + place) / group) := by
  rcases whole with one | groups
  · obtain rfl : part = 0 := by omega
    simp
  · have start : group ∣ part * size := Nat.dvd_mul_left_of_dvd groups part
    have blocks : part * divUp size group = part * size / group := by
      rw [Load.divUp_of_dvd positive groups, Nat.mul_div_assoc _ groups]
    have split := Nat.add_div_of_dvd_right (b := place) start
    rw [blocks, split]
    exact ⟨rfl, fun _ => rfl⟩

theorem inputs_of_not_down (config : Config) (notDown : mat ≠ .down) :
    inputs config mat = config.hiddenSize ∧ depth config mat = config.hiddenSize ∧
      Backend.outputs config mat = config.partSize ∧ columns config mat = config.intermediateSize := by
  cases mat with
  | down => exact absurd rfl notDown
  | gate => exact ⟨rfl, rfl, rfl, rfl⟩
  | up => exact ⟨rfl, rfl, rfl, rfl⟩

theorem joined (ready : grouped.Ready config source part expert buffers) (inParts : part < config.tpCount) (whole : grouped.Whole config.hiddenSize config.intermediateSize config.groupSize config.tpCount)
    (notDown : mat ≠ .down) (a : Nat → ℚ) (mi : Nat) (inColumns : ni < config.partSize) :
    grouped.computed config (buffers.read source) expert mat a mi ni =
      grouped.product config source expert mat (fun place => a (mi * config.hiddenSize + place)) (part * config.partSize + ni) := by
  have positive := ready.positive
  obtain ⟨axis, full, width, pitch⟩ := inputs_of_not_down config notDown
  cases grouped with
  | gptqInt4 =>
      obtain ⟨words, groups, -⟩ := whole
      simp only [computed, product, weight, scale, axis, full, width, pitch]
      rw [gptqSum_whole words groups]
      apply Finset.sum_congr rfl
      intro place inRange
      have inRow := Finset.mem_range.mp inRange
      have inWords : place / 8 < config.hiddenSize / 8 := Nat.div_lt_div_of_lt_of_dvd (words.trans groups) inRow
      have inGroups : place / config.groupSize < config.hiddenSize / config.groupSize := Nat.div_lt_div_of_lt_of_dvd groups inRow
      rw [gptq_read_columns ready .weight notDown inColumns inWords, gptq_read_columns ready .scale notDown inColumns inGroups]
      rfl
  | fp8 =>
      simp only [computed, product, weight, scale, axis, full]
      rw [fp8Sum_eq positive]
      apply Finset.sum_congr rfl
      intro place inRange
      have inRow := Finset.mem_range.mp inRange
      rw [fp8_read_weights ready notDown inColumns inRow,
        fp8_read_scales ready notDown (div_lt_blocks positive inColumns) (div_lt_blocks positive inRow), (block_of_part config.partSize positive inParts whole ni).2 inColumns]
      rfl

/-- The sum over the slice of a part. -/
theorem computed_down (ready : grouped.Ready config source part expert buffers) (inParts : part < config.tpCount)
    (whole : grouped.Whole config.hiddenSize config.intermediateSize config.groupSize config.tpCount) (a : Nat → ℚ) (mi : Nat) (inColumns : ni < config.hiddenSize) :
    grouped.computed config (buffers.read source) expert .down a mi ni = ∑ place ∈ Finset.range config.partSize,
      a (mi * config.partSize + place) * grouped.weight config source expert .down (part * config.partSize + place) ni *
        grouped.scale config source expert .down (part * config.partSize + place) ni := by
  have positive := ready.positive
  cases grouped with
  | gptqInt4 =>
      obtain ⟨words, -, whole⟩ := whole
      have groups : config.groupSize ∣ config.partSize := whole
      simp only [computed, weight, scale, inputs, columns]
      rw [gptqSum_whole words groups]
      apply Finset.sum_congr rfl
      intro place inRange
      have inRow := Finset.mem_range.mp inRange
      have eights := words.trans groups
      have inWords : place / 8 < config.partSize / 8 := Nat.div_lt_div_of_lt_of_dvd eights inRow
      have inGroups : place / config.groupSize < config.partSize / config.groupSize := Nat.div_lt_div_of_lt_of_dvd groups inRow
      have word : (part * config.partSize + place) / 8 = part * (config.partSize / 8) + place / 8 := by
        rw [Nat.add_div_of_dvd_right (Nat.dvd_mul_left_of_dvd eights part), Nat.mul_div_assoc _ eights]
      have lanes : (part * config.partSize + place) % 8 = place % 8 := by
        obtain ⟨count, same⟩ := Nat.dvd_mul_left_of_dvd eights part
        rw [same, Nat.mul_add_mod]
      have group : (part * config.partSize + place) / config.groupSize =
          part * (config.partSize / config.groupSize) + place / config.groupSize := by
        rw [Nat.add_div_of_dvd_right (Nat.dvd_mul_left_of_dvd groups part), Nat.mul_div_assoc _ groups]
      have weights := gptq_read_rows ready .weight inColumns inWords
      have scales := gptq_read_rows ready .scale inColumns inGroups
      rw [word, lanes, group]
      simp only [Backend.outputs]
      rw [weights, scales]
      rfl
  | fp8 =>
      simp only [computed, weight, scale, inputs, depth]
      rw [fp8Sum_eq positive]
      apply Finset.sum_congr rfl
      intro place inRange
      have inRow := Finset.mem_range.mp inRange
      rw [fp8_read_down ready inColumns inRow, fp8_read_down_scales ready (div_lt_blocks positive inColumns) (div_lt_blocks positive inRow),
        (block_of_part config.partSize positive inParts whole place).1]
      rfl

theorem summed {all : Nat → Buffers} (ready : ∀ part < config.tpCount, grouped.Ready config source part expert (all part))
    (divides : config.tpCount * config.partSize = config.intermediateSize) (whole : grouped.Whole config.hiddenSize config.intermediateSize config.groupSize config.tpCount) (a : Nat → Nat → ℚ)
    (mi : Nat) (inColumns : ni < config.hiddenSize) :
    ∑ part ∈ Finset.range config.tpCount, grouped.computed config ((all part).read source) expert .down (a part) mi ni =
      grouped.product config source expert .down
        (fun place => a (place / config.partSize) (mi * config.partSize + place % config.partSize)) ni := by
  have blocks := sum_blocks (fun place => a (place / config.partSize) (mi * config.partSize + place % config.partSize) *
    grouped.weight config source expert .down place ni * grouped.scale config source expert .down place ni) config.tpCount config.partSize
  rw [divides] at blocks
  rw [product, depth, blocks]
  apply Finset.sum_congr rfl
  intro part inRange
  have inParts := Finset.mem_range.mp inRange
  rw [computed_down (ready part inParts) inParts whole (a part) mi inColumns]
  apply Finset.sum_congr rfl
  intro place inRow
  have inside := Finset.mem_range.mp inRow
  rw [pairIndex_div part inside, pairIndex_mod part inside]

theorem accepted_sizes (accepted : grouped.backend.accepts config = .ok ()) :
    config.intermediateSize % config.tpCount = 0 ∧ 0 < config.groupSize := by
  obtain ⟨_, constructed, checked⟩ := Load.bind_ok accepted
  constructor
  · rw [Backend.construct] at constructed
    split at constructed
    · contradiction
    · next even => exact not_not.mp even
  · apply Nat.pos_of_ne_zero
    intro none
    cases grouped <;> simp [backend, Backend.loadChecks, none] at checked

variable {hidden intermediate tpCount : Nat}

theorem keeps_of_whole (shape : hidden = 0 ∨ intermediate = 0 ∨ grouped.Whole hidden intermediate groupSize tpCount) :
    grouped.KeepsScales hidden intermediate groupSize tpCount := by
  rintro config rfl rfl rfl rfl accepted source buffers loaded expert inSlots named
  obtain ⟨even, positive⟩ := accepted_sizes accepted
  have divides : config.tpCount * config.partSize = config.intermediateSize := Nat.mul_div_cancel' (Nat.dvd_of_mod_eq_zero even)
  have ready : ∀ part < config.tpCount, grouped.Ready config source part expert (buffers part) :=
    fun part inParts => ⟨positive, loaded part inParts, inSlots, named⟩
  constructor
  · intro mat notDown part inParts m a
    obtain ⟨axis, full, width, -⟩ := inputs_of_not_down config notDown
    rw [gemm_eq, width]
    apply stores_iff.mpr
    intro mi _ ni inColumns
    rcases shape with none | none | whole
    · rw [computed_empty positive (axis.trans none), product, full, none, Finset.range_zero, Finset.sum_empty]
    · rw [Config.partSize, none, Nat.zero_div] at inColumns
      contradiction
    · exact joined (ready part inParts) inParts whole notDown a mi inColumns
  · intro m a
    refine ⟨fun part => grouped.computed config ((buffers part).read source) expert .down (a part), ?_, ?_⟩
    · intro part _
      rw [gemm_eq]
      exact stores_iff.mpr fun _ _ _ _ => rfl
    · intro mi _ ni inColumns
      rcases shape with none | none | whole
      · rw [none] at inColumns
        contradiction
      · have empty : inputs config .down = 0 := by rw [inputs, Config.partSize, none, Nat.zero_div]
        rw [product, depth, none, Finset.range_zero, Finset.sum_empty]
        exact Finset.sum_eq_zero fun part _ => computed_empty positive empty _ _ mi ni
      · exact summed ready divides whole a mi inColumns

end Grouped

end KtKernel.Avx2
