import Mathlib.Data.List.Perm.Basic
import KtKernel.Avx2.NativeExport
import KtKernel.Data.Shards

namespace KtKernel.Avx2

open KtKernel.Data
open KtKernel.Amx.ExpertFiles (Mat)

/-! What belongs into the buffers of the ranks, and the copies of one array that put it
there. -/

namespace Export

def grid (call : Export) (table : Table) : Grid :=
  call.backend.grid call.config table

/-- The logical expert whose weights the load has put under the expert's number. -/
def expert (call : Export) : Nat :=
  call.load.chosen call.expertId.toNat

/-- The cells of a rank's slice of an array. -/
def matrixSize (call : Export) (table : Table) : Nat :=
  match call.backend, table.kind with
  | .rawInt4, .weight => call.gpuTpWeightBytes
  | .mxfp4, .weight => call.gpuTpWeightBytes
  | _, _ => (call.grid table).elems call.gpuPart

def buffer (table : Table) : Buffer :=
  match table.mat with
  | .down => ⟨.w2, table.kind⟩
  | _ => ⟨.w13, table.kind⟩

/-- The rows of up are behind those of gate. -/
def base (call : Export) (table : Table) : Nat :=
  match table.mat with
  | .up => call.matrixSize table
  | _ => 0

/-- A cell of the source in the buffers: the cell itself, but a half that is a signalling
NaN has gone through the conversions. -/
def exported (call : Export) (kind : Kind) (cell : Cell) : Cell :=
  match call.backend, kind with
  | .rawInt4, .scale => if Quiet cell then cell else call.rounding.fp32ToBf16 (cell <<< 16)
  | .mxfp4, .scale => if Quiet cell then cell else call.rounding.fp32ToBf16 (cell <<< 16)
  | _, _ => cell

/-- The expert's cell, by its place along the intermediate axis and along the hidden
axis. -/
def sourceCell (call : Export) (source : Origin × Nat → Cell) (table : Table) (unit other : Nat) : Cell :=
  call.exported table.kind (source (call.backend.address call.config table call.expert
    ((call.grid table).place call.config.intermediateSize unit other)))

/-- A cell of a rank's slice: the rows of gate and up, or the columns of down, from the
rank's first one on. -/
def held (call : Export) (source : Origin × Nat → Cell) (table : Table) (rank offset : Nat) : Cell :=
  let grid := call.grid table
  let first := rank * grid.count call.gpuPart
  if grid.inner then
    call.sourceCell source table (first + offset % grid.count call.gpuPart) (offset / grid.count call.gpuPart)
  else call.sourceCell source table (first + offset / grid.across) (offset % grid.across)

/-- The slices of one array. -/
def expectedOf (call : Export) (source : Origin × Nat → Cell) (cell : Destination × Nat) (table : Table) : Option Cell :=
  if cell.1.2 = buffer table ∧ cell.1.1 < call.gpuTpCount ∧ call.base table ≤ cell.2 ∧
      cell.2 < call.base table + call.matrixSize table then
    some (call.held source table cell.1.1 (cell.2 - call.base table))
  else none

/-- What the buffers of the ranks hold after an exact call. -/
def expected (call : Export) (source : Origin × Nat → Cell) (cell : Destination × Nat) : Option Cell :=
  call.backend.tables.findSome? (call.expectedOf source cell)

/-- Exponent bytes and halves are what the source has for scales. -/
def Typed (call : Export) (source : Origin × Nat → Cell) : Prop :=
  ∀ cell : Origin × Nat, cell.1.table.kind = .scale →
    match call.backend with
    | .mxfp8 => source cell < 0x100
    | .rawInt4 => source cell < 0x10000
    | .mxfp4 => source cell < 0x10000
    | _ => True

/-- The call throws, or every cell of the ranks' buffers is written once, with the
expert's weights and scales, and no other cell. -/
def Reshards (call : Export) : Prop :=
  ∀ (source : Origin × Nat → Cell) (buffers : Nat → Buffers), call.Typed source →
    (∀ part < call.config.tpCount, Loaded call.backend call.config source part (buffers part)) →
    ∀ copies, call.copies (fun part => (buffers part).read source) = .ok copies →
      ∃ list, copies = some list ∧ Copy.Exactly list (call.expected source)

def InRange (call : Export) : Prop :=
  0 ≤ call.expertId ∧ call.expertId < call.config.expertNum

instance (call : Export) : Decidable call.InRange :=
  inferInstanceAs (Decidable (_ ∧ _))

variable {call : Export} {source : Origin × Nat → Cell} {table : Table} {part : Nat}

/-! ## Whole cells -/

/-- A byte of a rank's rows of down has two columns of that rank. -/
def WholeBytes (call : Export) : Prop :=
  call.backend = .rawInt4 ∨ call.backend = .mxfp4 → 2 ∣ call.gpuPart

theorem parts_whole (call : Export) : call.config.tpCount * call.partSize = call.config.intermediateSize :=
  call.load.divides

theorem ranks_dvd (call : Export) : call.gpuTpCount ∣ call.config.intermediateSize :=
  Nat.dvd_trans (Nat.dvd_mul_right _ _) call.rankGroups

theorem ranks_whole (call : Export) : call.gpuTpCount * call.gpuPart = call.config.intermediateSize :=
  Nat.mul_div_cancel' call.ranks_dvd

theorem group_pos (quantized : call.backend ≠ .bf16) : 0 < call.group :=
  call.load.groups quantized

theorem group_dvd_partSize (quantized : call.backend ≠ .bf16) : call.group ∣ call.partSize := by
  have whole := call.partGroups
  rw [if_neg (show call.load.backend ≠ .bf16 from quantized), ← call.load.divides] at whole
  exact Nat.dvd_of_mul_dvd_mul_left call.load.pools whole

theorem group_dvd_gpuPart (quantized : call.backend ≠ .bf16) : call.group ∣ call.gpuPart := by
  have whole := call.rankGroups
  rw [if_neg (show call.load.backend ≠ .bf16 from quantized), show call.load.config.intermediateSize = _ from
    call.ranks_whole.symm] at whole
  exact Nat.dvd_of_mul_dvd_mul_left call.ranks whole

theorem channels_cases (exports : call.backend ≠ .gptqInt4) (table : Table) :
    (call.grid table).channels = 1 ∨ (call.backend ≠ .bf16 ∧ (call.grid table).channels = call.group) ∨
      ((call.backend = .rawInt4 ∨ call.backend = .mxfp4) ∧ (call.grid table).channels = 2) := by
  obtain ⟨mat, kind⟩ := table
  rw [grid]
  cases backend : call.backend with
  | bf16 => exact .inl rfl
  | fp8 => cases mat <;> cases kind <;> simp [Backend.grid, fp8Grid, bf16Grid, group]
  | mxfp8 => cases mat <;> cases kind <;> simp [Backend.grid, mxfp8Grid, bf16Grid, group]
  | gptqInt4 => exact absurd backend exports
  | rawInt4 => cases mat <;> cases kind <;> simp [Backend.grid, rawInt4Grid, group]
  | mxfp4 => cases mat <;> cases kind <;> simp [Backend.grid, rawInt4Grid, group]

theorem channels_pos (exports : call.backend ≠ .gptqInt4) (table : Table) : 0 < (call.grid table).channels := by
  rcases call.channels_cases exports table with one | ⟨quantized, same⟩ | ⟨-, two⟩
  · omega
  · rw [same]
    exact call.group_pos quantized
  · omega

/-- Whole groups and whole bytes are whole cells of every array. -/
theorem channels_dvd {size : Nat} (exports : call.backend ≠ .gptqInt4) (groups : call.backend ≠ .bf16 → call.group ∣ size)
    (bytes : call.backend = .rawInt4 ∨ call.backend = .mxfp4 → 2 ∣ size) (table : Table) :
    (call.grid table).channels ∣ size := by
  rcases call.channels_cases exports table with one | ⟨quantized, same⟩ | ⟨packed, two⟩
  · rw [one]
    exact Nat.one_dvd size
  · rw [same]
    exact groups quantized
  · rw [two]
    exact bytes packed

theorem count_eq {size : Nat} (exports : call.backend ≠ .gptqInt4) (whole : (call.grid table).channels ∣ size) :
    (call.grid table).count size = size / (call.grid table).channels := by
  have positive := call.channels_pos exports table
  obtain ⟨mat, kind⟩ := table
  rw [grid] at whole positive ⊢
  cases backend : call.backend <;> cases mat <;> cases kind <;> rw [backend] at whole positive <;>
    first | exact (Nat.div_one size).symm | rfl | exact Load.divUp_of_dvd positive whole

theorem start_eq {size : Nat} (exports : call.backend ≠ .gptqInt4) (whole : (call.grid table).channels ∣ size) (part : Nat) :
    (call.grid table).start size part = part * (size / (call.grid table).channels) := by
  have positive := call.channels_pos exports table
  obtain ⟨mat, kind⟩ := table
  rw [grid] at whole positive ⊢
  cases backend : call.backend <;> cases mat <;> cases kind <;> rw [backend] at whole positive <;>
    first
      | exact congrArg (part * ·) (Nat.div_one size).symm
      | rfl
      | exact Nat.mul_div_assoc part whole
      | exact congrArg (part * ·) (Load.divUp_of_dvd positive whole)

theorem half_hidden (some_ : call.config.expertNum ≠ 0) (packed : call.backend = .rawInt4 ∨ call.backend = .mxfp4) :
    call.group ∣ call.hidden ∧ 8 ∣ call.hidden :=
  Load.whole_of_made packed (call.load.buffersMade some_).1

/-- The cells of a part's slice of every array are whole. -/
theorem part_whole (exports : call.backend ≠ .gptqInt4) (some_ : call.config.expertNum ≠ 0) (table : Table) :
    (call.grid table).channels ∣ call.partSize := by
  apply channels_dvd exports group_dvd_partSize
  intro packed
  exact Nat.dvd_trans (show 2 ∣ 8 by decide) (call.load.nibbles some_ packed).2

theorem rank_whole (exports : call.backend ≠ .gptqInt4) (bytes : call.WholeBytes) (table : Table) :
    (call.grid table).channels ∣ call.gpuPart :=
  channels_dvd exports group_dvd_gpuPart bytes table

theorem units_same (exports : call.backend ≠ .gptqInt4) (some_ : call.config.expertNum ≠ 0) (bytes : call.WholeBytes)
    (table : Table) : call.gpuTpCount * (call.grid table).count call.gpuPart =
      call.config.tpCount * (call.grid table).count call.partSize := by
  have inParts := call.part_whole exports some_ table
  have inRanks := call.rank_whole exports bytes table
  rw [count_eq exports inParts, count_eq exports inRanks, ← Nat.mul_div_assoc _ inParts, ← Nat.mul_div_assoc _ inRanks,
    call.parts_whole, call.ranks_whole]

theorem matrixSize_eq (some_ : call.config.expertNum ≠ 0) (bytes : call.WholeBytes) (table : Table) :
    call.matrixSize table = (call.grid table).elems call.gpuPart := by
  obtain ⟨mat, kind⟩ := table
  rw [matrixSize]
  have bytesOf (packed : call.backend = .rawInt4 ∨ call.backend = .mxfp4) :
      call.gpuTpWeightBytes = (rawInt4Grid call.config ⟨mat, .weight⟩).elems call.gpuPart := by
    rw [gpuTpWeightBytes, Nat.mul_div_right_comm call.ranks_dvd]
    have halves : 2 ∣ call.hidden := Nat.dvd_trans (show 2 ∣ 8 by decide) (call.half_hidden some_ packed).2
    cases mat with
    | down => exact Nat.mul_div_right_comm (bytes packed) call.hidden
    | gate => exact Nat.mul_div_assoc call.gpuPart halves
    | up => exact Nat.mul_div_assoc call.gpuPart halves
  cases backend : call.backend with
  | rawInt4 =>
      cases kind with
      | weight =>
          rw [grid, backend]
          exact bytesOf (.inl backend)
      | scale => rfl
  | mxfp4 =>
      cases kind with
      | weight =>
          rw [grid, backend]
          exact bytesOf (.inr backend)
      | scale => rfl
  | bf16 => rfl
  | fp8 => rfl
  | mxfp8 => rfl
  | gptqInt4 => rfl

/-! ## One array in the ranks -/

/-- The ranks' slices of an array, cut out of the parts. -/
def shard (call : Export) (source : Origin × Nat → Cell) (table : Table) : Shard Buffer Cell where
  tag := buffer table
  base := call.base table
  ranks := call.gpuTpCount
  rankUnits := (call.grid table).count call.gpuPart
  partUnits := (call.grid table).count call.partSize
  across := (call.grid table).across
  inner := (call.grid table).inner
  value := fun part unit other =>
    call.sourceCell source table (part * (call.grid table).count call.partSize + unit) other

theorem content_eq (call : Export) (source : Origin × Nat → Cell) (table : Table) (cell : Destination × Nat) :
    (call.shard source table).content cell = call.held source table cell.1.1 (cell.2 - call.base table) := by
  have value : (call.shard source table).content cell = call.sourceCell source table
      ((call.shard source table).whole cell) ((call.shard source table).other (cell.2 - call.base table)) :=
    congrArg (call.sourceCell source table · _) (Nat.div_add_mod' _ _)
  rw [value, Shard.whole, Shard.unit, Shard.other, held]
  by_cases inner : (call.grid table).inner = true
  · have inRows : (call.shard source table).inner = true := inner
    rw [if_pos inRows, if_pos inRows]
    simp only [if_pos inner]
    rfl
  · have areRows : ¬(call.shard source table).inner = true := inner
    rw [if_neg areRows, if_neg areRows]
    simp only [if_neg inner]
    rfl

theorem all_eq (source : Origin × Nat → Cell) (sizes : call.matrixSize table = (call.grid table).elems call.gpuPart)
    (cell : Destination × Nat) : (call.shard source table).all cell = call.expectedOf source cell table := by
  rw [Shard.all, expectedOf, content_eq, sizes]
  rfl

/-- Two arrays share no cell. -/
theorem table_of_expectedOf (sizes : ∀ kind, call.matrixSize ⟨.gate, kind⟩ = call.matrixSize ⟨.up, kind⟩) {table' : Table}
    {cell : Destination × Nat} {value value' : Cell} (found : call.expectedOf source cell table = some value)
    (found' : call.expectedOf source cell table' = some value') : table = table' := by
  rw [expectedOf] at found found'
  split at found
  · split at found'
    · next inside inside' =>
        obtain ⟨region, -, above, below⟩ := inside
        obtain ⟨region', -, above', below'⟩ := inside'
        obtain ⟨mat, kind⟩ := table
        obtain ⟨mat', kind'⟩ := table'
        have same := region.symm.trans region'
        have kinds : kind = kind' := by
          cases mat <;> cases mat' <;> simp [buffer] at same <;> exact same
        subst kinds
        have gateUp := sizes kind
        cases mat <;> cases mat' <;> simp [buffer] at same <;> simp only [base] at above above' below below' <;>
          first | rfl | omega
    · contradiction
  · contradiction

/-- A call is exact when its copies are, array by array and part by part, the cells that
the part has of the array. -/
theorem exactly_of_jobs (exports : call.backend ≠ .gptqInt4) (some_ : call.config.expertNum ≠ 0) (bytes : call.WholeBytes)
    {body : Nat → List (Copy Destination Cell)} {job : Nat → Table → List (Copy Destination Cell)}
    (same : ∀ part < call.config.tpCount, (body part).Perm (call.backend.tables.flatMap (job part)))
    (each : ∀ table ∈ call.backend.tables, ∀ part < call.config.tpCount,
      Copy.Exactly (job part table) ((call.shard source table).ofPart part)) :
    Copy.Exactly ((List.range call.config.tpCount).flatMap body) (call.expected source) := by
  have sizes : ∀ table, call.matrixSize table = (call.grid table).elems call.gpuPart := call.matrixSize_eq some_ bytes
  have equal : ∀ kind, call.matrixSize ⟨.gate, kind⟩ = call.matrixSize ⟨.up, kind⟩ := by
    intro kind
    rw [sizes, sizes, grid, grid]
    cases call.backend <;> cases kind <;> rfl
  have jobs : Copy.Exactly
      (call.backend.tables.flatMap fun table => (List.range call.config.tpCount).flatMap fun part => job part table)
      (call.expected source) := by
    apply Copy.Exactly.flatMap
    · cases call.backend <;> decide
    · intro table member
      exact Shard.exactly_of_parts (call.units_same exports some_ bytes table) (each table member)
    · intro cell value found
      obtain ⟨table, member, inTable⟩ := List.exists_of_findSome?_eq_some found
      exact ⟨table, member, (all_eq source (sizes table) cell).trans inTable⟩
    · intro table member cell value found
      rw [all_eq source (sizes table)] at found
      cases first : call.expected source cell with
      | none => exact absurd (List.findSome?_eq_none_iff.mp first table member) (by rw [found]; exact Option.some_ne_none _)
      | some other =>
          obtain ⟨table', -, found'⟩ := List.exists_of_findSome?_eq_some first
          obtain rfl := table_of_expectedOf equal found found'
          rw [← found', found]
    · intro table member other _ cell value found different
      rw [all_eq source (sizes table)] at found
      rw [all_eq source (sizes other)]
      cases found' : call.expectedOf source cell other with
      | none => rfl
      | some value' => exact absurd (table_of_expectedOf equal found found') different
  apply jobs.perm
  have parts : ((List.range call.config.tpCount).flatMap body).Perm
      ((List.range call.config.tpCount).flatMap fun part => call.backend.tables.flatMap (job part)) := by
    apply List.Perm.flatMap_left
    intro part member
    exact same part (List.mem_range.mp member)
  exact parts.trans (flatMap_swap _ _ _)

/-! ## The cells of a part -/

structure Ready (call : Export) (source : Origin × Nat → Cell) (buffers : Nat → Buffers) : Prop where
  exports : call.backend ≠ .gptqInt4
  inRange : call.InRange
  filled : call.load.Filled call.expertId.toNat
  typed : call.Typed source
  loaded : ∀ part < call.config.tpCount, Loaded call.backend call.config source part (buffers part)

variable {buffers : Nat → Buffers}

theorem inSlots (inRange : call.InRange) : call.expertId.toNat < call.config.expertNum := by
  obtain ⟨nonneg, below⟩ := inRange
  omega

theorem some_experts (inRange : call.InRange) : call.config.expertNum ≠ 0 :=
  Nat.ne_of_gt (Nat.zero_lt_of_lt (inSlots inRange))

/-- An exponent byte goes through the float and comes back. -/
theorem exponent_back {byte : Cell} (small : byte < 0x100) : byte <<< 23 >>> 23 &&& 0xFF = byte := by
  rw [← UInt32.toNat_inj]
  have below : byte.toNat < 256 := small
  have mask : byte.toNat % 2 ^ 8 = byte.toNat &&& 255 := (Nat.and_two_pow_sub_one_eq_mod _ 8).symm
  have shifted : byte.toNat * 8388608 % 4294967296 = byte.toNat * 8388608 := Nat.mod_eq_of_lt (by omega)
  simp only [UInt32.toNat_and, UInt32.toNat_shiftRight, UInt32.toNat_shiftLeft, UInt32.reduceToNat, Nat.reduceMod,
    Nat.shiftLeft_eq, Nat.reducePow, shifted, Nat.shiftRight_eq_div_pow, Nat.mul_div_cancel byte.toNat (Nat.succ_pos 8388607),
    ← mask]
  omega

theorem narrow_convert (typed : call.Typed source) (cell : Origin × Nat) :
    call.narrow cell.1.table.kind (call.backend.convert cell.1.table.kind (source cell)) =
      call.exported cell.1.table.kind (source cell) := by
  have scale := typed cell
  unfold narrow exported
  cases kind : cell.1.table.kind with
  | weight => cases backend : call.backend <;> rfl
  | scale =>
      have bound := scale kind
      cases backend : call.backend with
      | bf16 => rfl
      | fp8 => rfl
      | gptqInt4 => rfl
      | mxfp8 =>
          rw [backend] at bound
          exact exponent_back bound
      | rawInt4 =>
          rw [backend] at bound
          by_cases quiet : Quiet (source cell)
          · rw [if_pos quiet]
            exact call.rounding.exact_ _ bound quiet
          · rw [if_neg quiet]
            rfl
      | mxfp4 =>
          rw [backend] at bound
          by_cases quiet : Quiet (source cell)
          · rw [if_pos quiet]
            exact call.rounding.exact_ _ bound quiet
          · rw [if_neg quiet]
            rfl

theorem value_read (ready : call.Ready source buffers) (inParts : part < call.config.tpCount)
    (inTables : table ∈ call.backend.tables) {unit other : Nat} (inCount : unit < (call.grid table).count call.partSize)
    (inAcross : other < (call.grid table).across) :
    call.narrow table.kind ((buffers part).read source (call.slot table.mat table.kind)
        ((call.grid table).place call.partSize unit other)) =
      (call.shard source table).value part unit other := by
  have some_ := some_experts ready.inRange
  have whole := call.part_whole ready.exports some_ table
  have held := call.load.slot_reads inParts (ready.loaded part inParts) (inSlots ready.inRange) ready.filled inTables
    inCount inAcross
  have start : (call.load.backend.grid call.load.config table).start call.load.config.partSize part = _ :=
    start_eq ready.exports whole part
  rw [start, ← count_eq ready.exports whole] at held
  have kept := narrow_convert ready.typed (call.backend.address call.config table call.expert
    ((call.grid table).place call.config.intermediateSize (part * (call.grid table).count call.partSize + unit) other))
  rw [Load.address_table] at kept
  exact (congrArg (call.narrow table.kind) held).trans kept

/-- An array whose rows are the units: every piece is a range of the source and of the
buffer. -/
theorem row_pieces {κ : Type} {indices : List κ} {pieces : κ → Piece} {copies : κ → List (Copy Destination Cell)}
    (ready : call.Ready source buffers) (inParts : part < call.config.tpCount) (inTables : table ∈ call.backend.tables)
    (outer : (call.grid table).inner = false) (distinct : indices.Nodup)
    (tiles : Tiles call.gpuTpCount ((call.grid table).count call.gpuPart) ((call.grid table).count call.partSize) part indices
      pieces)
    (each : ∀ index ∈ indices, Copy.Carries (copies index) ((pieces index).rank, buffer table)
      (call.base table + (pieces index).start * (call.grid table).across)
      ((pieces index).length * (call.grid table).across) fun inner =>
        call.narrow table.kind ((buffers part).read source (call.slot table.mat table.kind)
          ((pieces index).offset * (call.grid table).across + inner))) :
    Copy.Exactly (indices.flatMap copies) ((call.shard source table).ofPart part) := by
  apply Shard.part_of_pieces distinct tiles
  intro index member
  apply Shard.outer_exactly outer (fun some_ => (tiles.fits index member some_).2)
  apply (each index member).congr
  intro inner inside
  have positive : 0 < (call.grid table).across := Nat.pos_of_mul_pos_left (Nat.zero_lt_of_lt inside)
  have inPiece : inner / (call.grid table).across < (pieces index).length := by
    apply Nat.div_lt_of_lt_mul
    rwa [Nat.mul_comm]
  have inPart := (tiles.placed index member _ inPiece).2
  have value := value_read ready inParts inTables inPart (Nat.mod_lt inner positive)
  have place : (call.grid table).place call.partSize ((pieces index).offset + inner / (call.grid table).across)
      (inner % (call.grid table).across) = (pieces index).offset * (call.grid table).across + inner := by
    rw [Grid.place, outer, if_neg Bool.false_ne_true, Nat.add_mul, Nat.add_assoc, Nat.div_add_mod']
  rw [place] at value
  exact value

/-- An array whose rows hold the units: every piece is a piece of every row. -/
theorem column_pieces {κ : Type} {indices : List κ} {pieces : κ → Piece} {copies : κ → List (Copy Destination Cell)}
    (ready : call.Ready source buffers) (inParts : part < call.config.tpCount) (inTables : table ∈ call.backend.tables)
    (inner : (call.grid table).inner = true) (distinct : indices.Nodup)
    (tiles : Tiles call.gpuTpCount ((call.grid table).count call.gpuPart) ((call.grid table).count call.partSize) part indices
      pieces)
    (each : ∀ index ∈ indices, copies index =
      Copy.strided ((pieces index).rank, buffer table) (call.base table + (pieces index).start)
        ((call.grid table).count call.gpuPart) (pieces index).length (fun row column =>
          call.narrow table.kind ((buffers part).read source (call.slot table.mat table.kind)
            (row * (call.grid table).count call.partSize + ((pieces index).offset + column))))
        (call.grid table).across) :
    Copy.Exactly (indices.flatMap copies) ((call.shard source table).ofPart part) := by
  apply Shard.part_of_pieces distinct tiles
  intro index member
  rw [each index member]
  have fits (some_ : 0 < (pieces index).length) := (tiles.fits index member some_).2
  apply Shard.inner_exactly (show (call.shard source table).inner = true from inner) fits
  intro row inAcross column inPiece
  have inPart := (tiles.placed index member _ inPiece).2
  have value := value_read ready inParts inTables inPart inAcross
  rw [Grid.place, if_pos inner] at value
  exact value

end Export

end KtKernel.Avx2
