import Mathlib.Data.List.Infix
import Mathlib.Algebra.Field.Rat
import Mathlib.Algebra.GroupWithZero.Defs
import Mathlib.Data.List.Dedup
import Mathlib.Data.List.Sort
import KtKernel.Data.Checks
import KtKernel.Data.Chunks
import KtKernel.Data.Tiling

namespace KtKernel.Convert

open KtKernel.Data

/-! The experts that `OnlineQuantConverter` reads from a checkpoint and hands to the backend.

Numbers are exact, so a conversion to bfloat16 changes none of them.  What is raised depends
on the keys and shapes of the checkpoint; the stacks are functions of its entries.
-/

inductive InputType where
  | fp8
  | fp16
  | bf16
  | awq
deriving DecidableEq, Repr

inductive Proj where
  | gate
  | up
  | down
deriving DecidableEq, Repr

def Proj.name : Proj → String
  | .gate => "gate_proj"
  | .up => "up_proj"
  | .down => "down_proj"

/-- The part of a key after `.mlp.experts.`: the number of an expert, or a name. -/
inductive Segment where
  | id (expertId : Nat)
  | name (text : String)
deriving DecidableEq, Repr

def Segment.text : Segment → String
  | .id expertId => toString expertId
  | .name text => text

/-- The keys `model.layers.{layer}.mlp.experts.{first}.{rest}`, and all others. -/
inductive TensorKey where
  | experts (layerIdx : Nat) (first : Segment) (rest : List String)
  | other (name : String)
deriving DecidableEq, Repr

def TensorKey.text : TensorKey → String
  | .experts layerIdx first rest =>
      rest.foldl (fun text part => text ++ "." ++ part)
        ("model.layers." ++ toString layerIdx ++ ".mlp.experts." ++ first.text)
  | .other name => name

def mentions (word text : String) : Bool :=
  decide (word.toList <:+: text.toList)

inductive Shape where
  | matrix (rows columns : Nat)
  | cube (first second third : Nat)
  | other (dims : List Nat)
deriving DecidableEq, Repr

def Shape.Sized : Shape → Prop
  | .matrix rows columns => 0 < rows ∧ 0 < columns
  | .cube first second third => 0 < first ∧ 0 < second ∧ 0 < third
  | .other dims => ∀ dim ∈ dims, 0 < dim

/-- The tensors of a checkpoint.  None is empty. -/
structure Checkpoint where
  tensors : List (TensorKey × Shape)
  sized : ∀ tensor ∈ tensors, tensor.2.Sized

inductive ConvertError where
  | keyError
  | valueError
  | runtimeError
deriving DecidableEq, Repr

namespace Checkpoint

def keys (checkpoint : Checkpoint) : List TensorKey :=
  checkpoint.tensors.map Prod.fst

/-- The shape of the tensor under a key, `none` when there is none. -/
def shape (checkpoint : Checkpoint) (key : TensorKey) : Option Shape :=
  checkpoint.tensors.lookup key

end Checkpoint

/-! ## The layers and their experts -/

/-- `layout` with what `_find_expert_layers` returns. -/
inductive Layers where
  | fused (layers : List Nat)
  | base (layers : List (Nat × List Nat))
deriving DecidableEq, Repr

def isMainModelLayer (numHiddenLayers : Option Nat) (layerIdx : Nat) : Bool :=
  numHiddenLayers.all fun count => layerIdx < count

def expertLayers (numHiddenLayers : Option Nat) (keys : List TensorKey) : List Nat :=
  (keys.filterMap fun
    | .experts layerIdx _ _ => if isMainModelLayer numHiddenLayers layerIdx then some layerIdx else none
    | .other _ => none).dedup

def expertIds (layerIdx : Nat) (keys : List TensorKey) : List Nat :=
  ((keys.filterMap fun
    | .experts other (.id expertId) _ => if other = layerIdx then some expertId else none
    | .experts _ (.name _) _ => none
    | .other _ => none).dedup).insertionSort (· ≤ ·)

/-- `int(parts[5])` of every key with experts. -/
def checkIds (keys : List TensorKey) : Except ConvertError Unit :=
  keys.forM fun
    | .experts _ (.name _) _ => .error .valueError
    | .experts _ (.id _) _ => pure ()
    | .other _ => pure ()

/-- `_find_expert_layers` -/
def findExpertLayers (numHiddenLayers : Option Nat) (keys : List TensorKey) : Except ConvertError Layers := do
  if keys.any fun key => mentions "mlp.experts" key.text && mentions "gate_up" key.text then
    return .fused ((expertLayers numHiddenLayers keys).insertionSort (· ≤ ·))
  checkIds keys
  return .base ((expertLayers numHiddenLayers keys).map fun layerIdx => (layerIdx, expertIds layerIdx keys))

/-! ## Dequantisation -/

variable {K : Type}

abbrev Entries (K : Type) := TensorKey → List Nat → K

/-- The matrices of the experts that are passed on, by their place. -/
structure Stack (K : Type) where
  rows : Nat
  columns : Nat
  experts : List (Nat → Nat → K)

def cdiv (total block : Nat) : Nat :=
  (total + block - 1) / block

section

variable [Zero K] [Mul K]

/-- One program of `weight_dequant_kernel`. -/
def weightDequantKernel (x : Nat → Nat → K) (s : Nat → K) (M N blockSize pidM pidN : Nat) (y : Nat → Nat → K) : Nat → Nat → K :=
  let n := cdiv N blockSize
  fun offsM offsN =>
    if (pidM * blockSize ≤ offsM ∧ offsM < pidM * blockSize + blockSize) ∧
        (pidN * blockSize ≤ offsN ∧ offsN < pidN * blockSize + blockSize) ∧ offsM < M ∧ offsN < N then
      x offsM offsN * s (pidM * n + pidN)
    else y offsM offsN

/-- The programs of the grid. -/
def weightDequant (x : Nat → Nat → K) (s : Nat → K) (M N blockSize : Nat) : Nat → Nat → K :=
  ((List.range (cdiv M blockSize)).flatMap fun pidM => (List.range (cdiv N blockSize)).map fun pidN => (pidM, pidN)).foldl
    (fun y pid => weightDequantKernel x s M N blockSize pid.1 pid.2 y) fun _ _ => 0

def weightKey (layerIdx : Nat) (proj : Proj) (expertId : Nat) : TensorKey :=
  .experts layerIdx (.id expertId) [proj.name, "weight"]

def scaleKey (layerIdx : Nat) (proj : Proj) (expertId : Nat) : TensorKey :=
  .experts layerIdx (.id expertId) [proj.name, "weight_scale_inv"]

/-- A chunk of `[C, M, N]` weights and `[C, sm, sn]` scales, flattened to `[C * M, N]` and
`[C * sm, sn]`, and the `[C, M, N]` matrices that come back. -/
def dequantChunk (entries : Entries K) (layerIdx : Nat) (proj : Proj) (M N sm sn : Nat) (ids : List Nat) :
    List (Nat → Nat → K) :=
  let flatFp8 (row column : Nat) := entries (weightKey layerIdx proj (ids.getD (row / M) 0)) [row % M, column]
  let flatScale (place : Nat) :=
    entries (scaleKey layerIdx proj (ids.getD (place / sn / sm) 0)) [place / sn % sm, place % sn]
  let flatBf16 := weightDequant flatFp8 flatScale (ids.length * M) N 128
  (List.range ids.length).map fun c m n => flatBf16 (c * M + m) n

/-- The common shape of the matrices that `torch.stack` is given. -/
def stackShape (checkpoint : Checkpoint) (keys : List TensorKey) : Except ConvertError (Nat × Nat) :=
  match keys with
  | [] => .error .runtimeError
  | key :: rest =>
      match checkpoint.shape key with
      | some (.matrix rows columns) =>
          if rest.all fun other => checkpoint.shape other = some (.matrix rows columns) then .ok (rows, columns)
          else .error .runtimeError
      | some _ => .error .valueError
      | none => .error .keyError

def fp8Chunk : Nat :=
  64

def chunkShape (checkpoint : Checkpoint) (layerIdx : Nat) (proj : Proj) (ids : List Nat) :
    Except ConvertError (List Nat × (Nat × Nat) × (Nat × Nat)) := do
  let weights ← stackShape checkpoint (ids.map (weightKey layerIdx proj))
  let scales ← stackShape checkpoint (ids.map (scaleKey layerIdx proj))
  return (ids, weights, scales)

/-- `_batch_dequant` -/
def batchDequant (checkpoint : Checkpoint) (layerIdx : Nat) (ids : List Nat) (proj : Proj) :
    Except ConvertError (Entries K → Stack K) := do
  let shapes ← (chunks fp8Chunk ids).mapM (chunkShape checkpoint layerIdx proj)
  match shapes with
  | [] => .error .runtimeError
  | first :: rest =>
      -- `torch.cat` of the chunks
      if rest.all fun chunk => chunk.2.1 = first.2.1 then
        return fun entries =>
          { rows := first.2.1.1
            columns := first.2.1.2
            experts := shapes.flatMap fun chunk =>
              dequantChunk entries layerIdx proj chunk.2.1.1 chunk.2.1.2 chunk.2.2.1 chunk.2.2.2 chunk.1 }
      else .error .runtimeError

omit [Zero K] [Mul K] in
def stackWeights (checkpoint : Checkpoint) (layerIdx : Nat) (ids : List Nat) (proj : Proj) :
    Except ConvertError (Entries K → Stack K) := do
  let shape ← stackShape checkpoint (ids.map (weightKey layerIdx proj))
  return fun entries =>
    { rows := shape.1
      columns := shape.2
      experts := ids.map fun expertId m n => entries (weightKey layerIdx proj expertId) [m, n] }

/-- The keys that are looked for before anything is read. -/
def validateKeys (checkpoint : Checkpoint) (inputType : InputType) (layerIdx : Nat) (ids : List Nat) :
    Except ConvertError Unit :=
  ids.forM fun expertId => do
    for proj in [Proj.gate, Proj.up, Proj.down] do
      discard (expectSome (checkpoint.shape (weightKey layerIdx proj expertId)) ConvertError.keyError)
    if inputType = .fp8 then
      for proj in [Proj.gate, Proj.up, Proj.down] do
        discard (expectSome (checkpoint.shape (scaleKey layerIdx proj expertId)) ConvertError.keyError)

def stackExperts (checkpoint : Checkpoint) (inputType : InputType) (layerIdx : Nat) (ids : List Nat) (proj : Proj) :
    Except ConvertError (Entries K → Stack K) :=
  match inputType with
  | .fp8 => batchDequant checkpoint layerIdx ids proj
  | .fp16 | .bf16 => stackWeights checkpoint layerIdx ids proj
  | .awq => .error .valueError

def convertBase (checkpoint : Checkpoint) (inputType : InputType) (layerIdx : Nat) (ids : List Nat) :
    Except ConvertError (Entries K → Proj → Stack K) := do
  validateKeys checkpoint inputType layerIdx ids
  let gate ← stackExperts checkpoint inputType layerIdx ids .gate
  let up ← stackExperts checkpoint inputType layerIdx ids .up
  let down ← stackExperts checkpoint inputType layerIdx ids .down
  return fun entries proj => match proj with
    | .gate => gate entries
    | .up => up entries
    | .down => down entries

def fusedKey (layerIdx : Nat) (projection : Segment) : TensorKey :=
  .experts layerIdx projection []

/-- The sorted projection names of a layer. -/
def fusedProjs (layerIdx : Nat) (keys : List TensorKey) : List Segment :=
  ((keys.filterMap fun
    | .experts other first _ => if other = layerIdx then some first else none
    | .other _ => none).dedup).insertionSort (fun first second => first.text ≤ second.text)

omit [Zero K] [Mul K] in
/-- The first tensor is taken for `[E, I, H]` down weights, the second for `[E, H, 2I]` gate
and up weights. -/
def convertFused (checkpoint : Checkpoint) (inputType : InputType) (layerIdx : Nat) :
    Except ConvertError (Entries K → Proj → Stack K) :=
  if inputType ≠ .bf16 ∧ inputType ≠ .fp16 then .error .valueError
  else
    match fusedProjs layerIdx checkpoint.keys with
    | [] | [_] => .error .valueError
    | downKey :: gateUpKey :: rest =>
        if (downKey :: gateUpKey :: rest).all fun projection => (checkpoint.shape (fusedKey layerIdx projection)).isSome then
          match checkpoint.shape (fusedKey layerIdx downKey), checkpoint.shape (fusedKey layerIdx gateUpKey) with
          | some (.cube downE downI downH), some (.cube E H twoI) =>
              if twoI % 2 ≠ 0 then .error .valueError
              else if downE ≠ E then .error .valueError
              else
                let I := twoI / 2
                .ok fun entries proj => match proj with
                  | .gate =>
                      { rows := I
                        columns := H
                        experts := (List.range E).map fun e i h => entries (fusedKey layerIdx gateUpKey) [e, h, i] }
                  | .up =>
                      { rows := I
                        columns := H
                        experts := (List.range E).map fun e i h => entries (fusedKey layerIdx gateUpKey) [e, h, I + i] }
                  | .down =>
                      { rows := downH
                        columns := downI
                        experts := (List.range E).map fun e h i => entries (fusedKey layerIdx downKey) [e, i, h] }
          | _, _ => .error .valueError
        else .error .keyError

/-- The part of `_convert_layer_experts` that makes the stacks for
`load_weights_from_tensors`. -/
def convertLayerExperts (checkpoint : Checkpoint) (inputType : InputType) (layers : Layers) (layerIdx : Nat) :
    Except ConvertError (Entries K → Proj → Stack K) :=
  match layers with
  | .fused _ => convertFused checkpoint inputType layerIdx
  | .base layers => convertBase checkpoint inputType layerIdx ((layers.lookup layerIdx).getD [])

end

/-! ## The weights of the checkpoint -/

structure Weights (K : Type) where
  rows : Nat
  columns : Nat
  entry : Nat → Nat → K

def downKey (layerIdx : Nat) : TensorKey :=
  fusedKey layerIdx (.name "down_proj")

def gateUpKey (layerIdx : Nat) : TensorKey :=
  fusedKey layerIdx (.name "gate_up_proj")

/-- The weights that an expert has in the checkpoint: its own matrix with, for fp8, its own
scale grid, or its part of the two fused tensors. -/
def checkpointExpert [Mul K] (checkpoint : Checkpoint) (inputType : InputType) (layers : Layers) (layerIdx : Nat)
    (entries : Entries K) (proj : Proj) (expertId : Nat) : Option (Weights K) :=
  match layers with
  | .base _ =>
      match checkpoint.shape (weightKey layerIdx proj expertId) with
      | some (.matrix rows columns) => some
          { rows := rows
            columns := columns
            entry := fun m n =>
              if inputType = .fp8 then
                entries (weightKey layerIdx proj expertId) [m, n] * entries (scaleKey layerIdx proj expertId) [m / 128, n / 128]
              else entries (weightKey layerIdx proj expertId) [m, n] }
      | _ => none
  | .fused _ =>
      match proj, checkpoint.shape (downKey layerIdx), checkpoint.shape (gateUpKey layerIdx) with
      | .gate, _, some (.cube E H twoI) =>
          if expertId < E then some ⟨twoI / 2, H, fun i h => entries (gateUpKey layerIdx) [expertId, h, i]⟩ else none
      | .up, _, some (.cube E H twoI) =>
          if expertId < E then some ⟨twoI / 2, H, fun i h => entries (gateUpKey layerIdx) [expertId, h, twoI / 2 + i]⟩ else none
      | .down, some (.cube E I H), _ =>
          if expertId < E then some ⟨H, I, fun h i => entries (downKey layerIdx) [expertId, i, h]⟩ else none
      | _, _, _ => none

structure Stack.Holds (stack : Stack K) (place : Nat) (weights : Weights K) : Prop where
  rows : stack.rows = weights.rows
  columns : stack.columns = weights.columns
  entry : ∃ matrix, stack.experts[place]? = some matrix ∧
    ∀ m < weights.rows, ∀ n < weights.columns, matrix m n = weights.entry m n

/-- Whatever the entries of the checkpoint are, place `e` of every stack holds expert `e`. -/
def Decodes [Mul K] (checkpoint : Checkpoint) (inputType : InputType) (layers : Layers) (layerIdx numExperts : Nat)
    (passed : Entries K → Proj → Stack K) : Prop :=
  ∀ entries, ∀ expertId < numExperts, ∀ proj, ∃ weights,
    checkpointExpert checkpoint inputType layers layerIdx entries proj expertId = some weights ∧
      (passed entries proj).Holds expertId weights

def Gridded (checkpoint : Checkpoint) (layerIdx : Nat) : Prop :=
  ∀ proj expertId M N, checkpoint.shape (weightKey layerIdx proj expertId) = some (.matrix M N) →
    ∀ grid, checkpoint.shape (scaleKey layerIdx proj expertId) = some grid → grid = .matrix (cdiv M 128) (cdiv N 128)

/-- The rows of every expert of the layer end at the end of a block. -/
def Aligned (checkpoint : Checkpoint) (layerIdx : Nat) : Prop :=
  ∀ proj expertId M N, checkpoint.shape (weightKey layerIdx proj expertId) = some (.matrix M N) → 128 ∣ M

/-- The ids have no gap below the number of experts, and the blocks of two experts do not
meet; the fused tensors are the first two by name and have as many experts. -/
def Decodable (checkpoint : Checkpoint) (inputType : InputType) (layers : Layers) (layerIdx numExperts : Nat) : Prop :=
  match layers with
  | .base layers =>
      (∀ expertId < numExperts, expertId ∈ (layers.lookup layerIdx).getD []) ∧
        (inputType = .fp8 → numExperts ≤ 1 ∨ Aligned checkpoint layerIdx)
  | .fused _ =>
      numExperts = 0 ∨
        (fusedProjs layerIdx checkpoint.keys).take 2 = [.name "down_proj", .name "gate_up_proj"] ∧
          ∀ E H twoI, checkpoint.shape (gateUpKey layerIdx) = some (.cube E H twoI) → numExperts ≤ E

section

variable [Zero K] [Mul K] {x : Nat → Nat → K} {s : Nat → K} {M N blockSize m n : Nat}

omit [Zero K] in
theorem weightDequantKernel_eq (positive : 0 < blockSize) (inRows : m < M) (inColumns : n < N) (pid : Nat × Nat)
    (y : Nat → Nat → K) :
    weightDequantKernel x s M N blockSize pid.1 pid.2 y m n =
      if pid = (m / blockSize, n / blockSize) then x m n * s (m / blockSize * cdiv N blockSize + n / blockSize) else y m n := by
  have block : ∀ place index, (index * blockSize ≤ place ∧ place < index * blockSize + blockSize) ↔ index = place / blockSize := by
    intro place index
    rw [eq_comm, Nat.div_eq_iff positive]
    omega
  simp only [weightDequantKernel, block, inRows, inColumns, and_true]
  by_cases own : pid = (m / blockSize, n / blockSize)
  · rw [if_pos own, if_pos (by rw [own]; exact ⟨rfl, rfl⟩), own]
  · rw [if_neg own, if_neg (fun both => own (Prod.ext both.1 both.2))]

/-- Every entry is scaled by the scale of its block. -/
theorem weightDequant_eq (positive : 0 < blockSize) (inRows : m < M) (inColumns : n < N) :
    weightDequant x s M N blockSize m n = x m n * s (m / blockSize * cdiv N blockSize + n / blockSize) := by
  have written : ∀ pids : List (Nat × Nat), (m / blockSize, n / blockSize) ∈ pids →
      pids.foldl (fun y pid => weightDequantKernel x s M N blockSize pid.1 pid.2 y) (fun _ _ => 0) m n =
        x m n * s (m / blockSize * cdiv N blockSize + n / blockSize) := by
    intro pids member
    induction pids using List.reverseRecOn with
    | nil => cases member
    | append_singleton earlier last induction =>
        rw [List.foldl_append, List.foldl_cons, List.foldl_nil, weightDequantKernel_eq positive inRows inColumns]
        split
        · rfl
        · next other =>
            rcases List.mem_append.mp member with before | here
            · exact induction before
            · exact absurd (List.mem_singleton.mp here).symm other
  apply written
  simp only [List.mem_flatMap, List.mem_map, List.mem_range]
  exact ⟨m / blockSize, div_lt_blocks positive inRows, n / blockSize, div_lt_blocks positive inColumns, rfl⟩

/-- A place of a chunk: the weights of its expert, and the scale that the flattened grid
has for the flattened row. -/
theorem dequantChunk_getElem? (entries : Entries K) (layerIdx : Nat) (proj : Proj) (M N : Nat) {ids : List Nat} {place : Nat}
    (inside : place < ids.length) :
    ∃ matrix, (dequantChunk entries layerIdx proj M N (cdiv M 128) (cdiv N 128) ids)[place]? = some matrix ∧
      ∀ m < M, ∀ n < N, matrix m n = entries (weightKey layerIdx proj (ids.getD place 0)) [m, n] *
        entries (scaleKey layerIdx proj (ids.getD ((place * M + m) / 128 / cdiv M 128) 0))
          [(place * M + m) / 128 % cdiv M 128, n / 128] := by
  refine ⟨_, by rw [dequantChunk, List.getElem?_map, List.getElem?_range inside]; rfl, ?_⟩
  intro m inRows n inColumns
  have last : (place + 1) * M ≤ ids.length * M := Nat.mul_le_mul_right _ inside
  rw [Nat.add_mul, Nat.one_mul] at last
  have column : n / 128 < cdiv N 128 := div_lt_blocks (by decide) inColumns
  dsimp only
  rw [weightDequant_eq (by decide) (show place * M + m < ids.length * M by omega) inColumns, pairIndex_div place inRows,
    pairIndex_mod place inRows, pairIndex_div _ column, pairIndex_mod _ column]

end

/-! ## What a conversion that raises nothing has checked -/

section

variable {checkpoint : Checkpoint} {layerIdx : Nat} {proj : Proj} {ids : List Nat}

theorem stackShape_ok {keys : List TensorKey} {shape : Nat × Nat} (stacked : stackShape checkpoint keys = .ok shape) :
    keys ≠ [] ∧ ∀ key ∈ keys, checkpoint.shape key = some (.matrix shape.1 shape.2) := by
  cases keys with
  | nil => cases stacked
  | cons key rest =>
      rw [stackShape] at stacked
      split at stacked
      · next rows columns known =>
          split at stacked
          · next same =>
              cases stacked
              refine ⟨List.cons_ne_nil _ _, ?_⟩
              simp only [List.all_eq_true, decide_eq_true_eq] at same
              exact List.forall_mem_cons.mpr ⟨known, same⟩
          · cases stacked
      · cases stacked
      · cases stacked

theorem chunkShape_ok {shape : List Nat × (Nat × Nat) × (Nat × Nat)} (gridded : Gridded checkpoint layerIdx)
    (shaped : chunkShape checkpoint layerIdx proj ids = .ok shape) :
    (∀ expertId ∈ ids, checkpoint.shape (weightKey layerIdx proj expertId) = some (.matrix shape.2.1.1 shape.2.1.2)) ∧
      shape = (ids, shape.2.1, (cdiv shape.2.1.1 128, cdiv shape.2.1.2 128)) := by
  obtain ⟨⟨M, N⟩, stacked, shaped⟩ := bind_ok.mp shaped
  obtain ⟨⟨sm, sn⟩, scaled, shaped⟩ := bind_ok.mp shaped
  cases shaped
  obtain ⟨some_, matrices⟩ := stackShape_ok stacked
  obtain ⟨-, grids⟩ := stackShape_ok scaled
  simp only [List.mem_map, forall_exists_index, and_imp, forall_apply_eq_imp_iff₂] at matrices grids
  refine ⟨matrices, ?_⟩
  obtain ⟨expertId, member⟩ := List.exists_mem_of_ne_nil ids (fun none => some_ (by rw [none]; rfl))
  have grid := gridded proj expertId M N (matrices expertId member) _ (grids expertId member)
  rw [Shape.matrix.injEq] at grid
  rw [grid.1, grid.2]

/-- The chunks all have the shapes of the first. -/
theorem batchDequant_ok [Zero K] [Mul K] {stack : Entries K → Stack K} (gridded : Gridded checkpoint layerIdx)
    (converted : batchDequant checkpoint layerIdx ids proj = .ok stack) :
    ∃ M N, ids ≠ [] ∧ (∀ expertId ∈ ids, checkpoint.shape (weightKey layerIdx proj expertId) = some (.matrix M N)) ∧
      ∀ entries, stack entries = ⟨M, N, (chunks fp8Chunk ids).flatMap
        (dequantChunk entries layerIdx proj M N (cdiv M 128) (cdiv N 128))⟩ := by
  obtain ⟨shapes, each, converted⟩ := bind_ok.mp converted
  rw [mapM_ok] at each
  cases shapes with
  | nil => cases converted
  | cons first rest =>
      dsimp only at converted
      split at converted
      · next same =>
          simp only [List.all_eq_true, decide_eq_true_eq] at same
          have common : ∀ shape ∈ first :: rest, shape.2.1 = first.2.1 := List.forall_mem_cons.mpr ⟨rfl, same⟩
          have shapes : ∀ items shapes, List.Forall₂ (fun ids shape => chunkShape checkpoint layerIdx proj ids = .ok shape) items shapes →
              (∀ shape ∈ shapes, shape.2.1 = first.2.1) →
              shapes = items.map fun ids => (ids, first.2.1, (cdiv first.2.1.1 128, cdiv first.2.1.2 128)) := by
            intro items shapes each common
            induction each with
            | nil => rfl
            | cons shaped others induction =>
                have own := (chunkShape_ok gridded shaped).2
                rw [common _ List.mem_cons_self] at own
                rw [List.map_cons, ← induction fun shape member => common shape (List.mem_cons_of_mem _ member), ← own]
          have shapes := shapes _ _ each common
          refine ⟨first.2.1.1, first.2.1.2, ?_, ?_, ?_⟩
          · rintro rfl
            rw [chunks_nil (by decide)] at shapes
            cases shapes
          · intro expertId member
            rw [← flatten_chunks (show 0 < fp8Chunk by decide) ids, List.mem_flatten] at member
            obtain ⟨chunk, isChunk, member⟩ := member
            obtain ⟨shape, inShapes, shaped⟩ := result_of_mem each isChunk
            have known := (chunkShape_ok gridded shaped).1 expertId member
            rw [common shape inShapes] at known
            exact known
          · intro entries
            cases converted
            dsimp only
            rw [shapes, List.flatMap_map]
      · cases converted

theorem stackWeights_ok {stack : Entries K → Stack K} (converted : stackWeights checkpoint layerIdx ids proj = .ok stack) :
    ∃ M N, ids ≠ [] ∧ (∀ expertId ∈ ids, checkpoint.shape (weightKey layerIdx proj expertId) = some (.matrix M N)) ∧
      ∀ entries, stack entries = ⟨M, N, ids.map fun expertId m n => entries (weightKey layerIdx proj expertId) [m, n]⟩ := by
  obtain ⟨⟨M, N⟩, stacked, converted⟩ := bind_ok.mp converted
  cases converted
  obtain ⟨some_, matrices⟩ := stackShape_ok stacked
  simp only [List.mem_map, forall_exists_index, and_imp, forall_apply_eq_imp_iff₂] at matrices
  exact ⟨M, N, fun none => some_ (by rw [none]; rfl), matrices, fun entries => rfl⟩

theorem stackExperts_ok [Zero K] [Mul K] {inputType : InputType} {stack : Entries K → Stack K}
    (gridded : Gridded checkpoint layerIdx) (converted : stackExperts checkpoint inputType layerIdx ids proj = .ok stack) :
    ∃ M N, ids ≠ [] ∧ (∀ expertId ∈ ids, checkpoint.shape (weightKey layerIdx proj expertId) = some (.matrix M N)) ∧
      ∀ entries, stack entries = ⟨M, N,
        if inputType = .fp8 then
          (chunks fp8Chunk ids).flatMap (dequantChunk entries layerIdx proj M N (cdiv M 128) (cdiv N 128))
        else ids.map fun expertId m n => entries (weightKey layerIdx proj expertId) [m, n]⟩ := by
  cases inputType with
  | fp8 => exact batchDequant_ok gridded converted
  | fp16 => exact stackWeights_ok converted
  | bf16 => exact stackWeights_ok converted
  | awq => cases converted

theorem convertBase_ok [Zero K] [Mul K] {inputType : InputType} {passed : Entries K → Proj → Stack K}
    (gridded : Gridded checkpoint layerIdx) (converted : convertBase checkpoint inputType layerIdx ids = .ok passed)
    (proj : Proj) :
    ∃ M N, ids ≠ [] ∧ (∀ expertId ∈ ids, checkpoint.shape (weightKey layerIdx proj expertId) = some (.matrix M N)) ∧
      ∀ entries, passed entries proj = ⟨M, N,
        if inputType = .fp8 then
          (chunks fp8Chunk ids).flatMap (dequantChunk entries layerIdx proj M N (cdiv M 128) (cdiv N 128))
        else ids.map fun expertId m n => entries (weightKey layerIdx proj expertId) [m, n]⟩ := by
  obtain ⟨-, -, converted⟩ := bind_ok.mp converted
  obtain ⟨gate, gateConverted, converted⟩ := bind_ok.mp converted
  obtain ⟨up, upConverted, converted⟩ := bind_ok.mp converted
  obtain ⟨down, downConverted, converted⟩ := bind_ok.mp converted
  cases converted
  cases proj with
  | gate => exact stackExperts_ok gridded gateConverted
  | up => exact stackExperts_ok gridded upConverted
  | down => exact stackExperts_ok gridded downConverted

end

theorem mem_expertIds {layerIdx expertId : Nat} {keys : List TensorKey} :
    expertId ∈ expertIds layerIdx keys ↔ ∃ rest, TensorKey.experts layerIdx (.id expertId) rest ∈ keys := by
  rw [expertIds, List.mem_insertionSort, List.mem_dedup, List.mem_filterMap]
  constructor
  · rintro ⟨key, member, named⟩
    match key, named with
    | .experts other (.id expertId) rest, named =>
        dsimp only at named
        split at named
        · next same =>
            cases named
            exact ⟨rest, same ▸ member⟩
        · cases named
  · rintro ⟨rest, member⟩
    exact ⟨_, member, if_pos rfl⟩

theorem expertIds_sorted (layerIdx : Nat) (keys : List TensorKey) : (expertIds layerIdx keys).Pairwise (· < ·) := by
  have sorted : (expertIds layerIdx keys).Pairwise (· ≤ ·) := List.pairwise_insertionSort _ _
  have distinct : (expertIds layerIdx keys).Pairwise (· ≠ ·) :=
    (List.perm_insertionSort _ _).nodup_iff.mpr (List.nodup_dedup _)
  exact (sorted.and distinct).imp fun both => lt_of_le_of_ne both.1 both.2

theorem Checkpoint.mem_keys {checkpoint : Checkpoint} {key : TensorKey} {shape : Shape} (known : checkpoint.shape key = some shape) :
    key ∈ checkpoint.keys := by
  obtain ⟨earlier, later, split_, -⟩ := List.lookup_eq_some_iff.mp known
  exact List.mem_map.mpr ⟨(key, shape), by rw [split_]; simp, rfl⟩

theorem getElem?_of_no_gap {ids : List Nat} {count : Nat} (sorted : ids.Pairwise (· < ·)) (all : ∀ id < count, id ∈ ids)
    {id : Nat} (inside : id < count) : ids[id]? = some id := by
  have increasing := List.pairwise_iff_getElem.mp sorted
  have atLeast : ∀ place (here : place < ids.length), place ≤ ids[place] := by
    intro place here
    induction place with
    | zero => exact Nat.zero_le _
    | succ place induction =>
        have before := induction (by omega)
        have step := increasing place (place + 1) (by omega) here (by omega)
        omega
  induction id using Nat.strong_induction_on with
  | _ id induction =>
      obtain ⟨place, here, found⟩ := List.mem_iff_getElem.mp (all id inside)
      have upper := atLeast place here
      have lower : ¬ place < id := by
        intro earlier
        have own := induction place earlier (by omega)
        rw [List.getElem?_eq_getElem here, found, Option.some.injEq] at own
        omega
      have same : place = id := by omega
      subst same
      rw [List.getElem?_eq_getElem here, found]

/-! ## The places of the fp8 stacks -/

section

variable {place M m : Nat}

/-- Counted from the top of a chunk, the row blocks of an expert are those of its own grid. -/
theorem rowBlock_own (own : place = 0 ∨ 128 ∣ M) : (place * M + m) / 128 = place * cdiv M 128 + m / 128 := by
  rcases own with rfl | ⟨blocks, rfl⟩
  · rw [Nat.zero_mul, Nat.zero_mul, Nat.zero_add, Nat.zero_add]
  · have whole : cdiv (128 * blocks) 128 = blocks := by
      rw [cdiv]
      omega
    rw [whole, Nat.mul_left_comm, Nat.mul_add_div (by decide)]

/-- The first row of the second expert falls into the last block of the first, when that
is not full. -/
theorem rowBlock_shared (short : ¬ 128 ∣ M) : M / 128 / cdiv M 128 = 0 := by
  apply Nat.div_eq_of_lt
  rw [cdiv]
  omega

end

section

variable {K : Type} [Zero K] [Mul K] (entries : Entries K) (layerIdx : Nat) (proj : Proj) (M N : Nat) {ids : List Nat} {place : Nat}

theorem batch_getElem? (inside : place < ids.length) :
    ∃ matrix, ((chunks fp8Chunk ids).flatMap (dequantChunk entries layerIdx proj M N (cdiv M 128) (cdiv N 128)))[place]? =
        some matrix ∧
      ∀ m < M, ∀ n < N, matrix m n = entries (weightKey layerIdx proj (ids.getD place 0)) [m, n] *
        entries (scaleKey layerIdx proj (((ids.drop (place / fp8Chunk * fp8Chunk)).take fp8Chunk).getD
            ((place % fp8Chunk * M + m) / 128 / cdiv M 128) 0))
          [(place % fp8Chunk * M + m) / 128 % cdiv M 128, n / 128] := by
  have inChunk : place % fp8Chunk < ((ids.drop (place / fp8Chunk * fp8Chunk)).take fp8Chunk).length := by
    rw [List.length_take, List.length_drop, fp8Chunk]
    omega
  obtain ⟨matrix, found, scaled⟩ := dequantChunk_getElem? entries layerIdx proj M N inChunk
  refine ⟨matrix, ?_, ?_⟩
  · rw [getElem?_flatMap_chunks (by decide) _ (fun chunk => by rw [dequantChunk, List.length_map, List.length_range]) ids inside]
    exact found
  · intro m inRows n inColumns
    rw [scaled m inRows n inColumns, List.getD_eq_getElem?_getD, getElem?_chunk (by decide), ← List.getD_eq_getElem?_getD]

/-- An expert whose blocks are its own has its own scales. -/
theorem batch_own (inside : place < ids.length) (own : place = 0 ∨ 128 ∣ M) :
    ∃ matrix, ((chunks fp8Chunk ids).flatMap (dequantChunk entries layerIdx proj M N (cdiv M 128) (cdiv N 128)))[place]? =
        some matrix ∧
      ∀ m < M, ∀ n < N, matrix m n = entries (weightKey layerIdx proj (ids.getD place 0)) [m, n] *
        entries (scaleKey layerIdx proj (ids.getD place 0)) [m / 128, n / 128] := by
  obtain ⟨matrix, found, scaled⟩ := batch_getElem? entries layerIdx proj M N inside
  refine ⟨matrix, found, ?_⟩
  intro m inRows n inColumns
  have block : m / 128 < cdiv M 128 := div_lt_blocks (by decide) inRows
  have ownPlace : place % fp8Chunk = 0 ∨ 128 ∣ M := by
    rcases own with rfl | whole
    · exact .inl rfl
    · exact .inr whole
  rw [scaled m inRows n inColumns, rowBlock_own ownPlace, pairIndex_div _ block, pairIndex_mod _ block,
    List.getD_eq_getElem?_getD (l := List.take _ _), getElem?_chunk (by decide), ← List.getD_eq_getElem?_getD]

/-- The first row of the second expert has a scale of the first. -/
theorem batch_second (short : ¬ 128 ∣ M) (two : 1 < ids.length) (someRow : 0 < M) {n : Nat} (inColumns : n < N) :
    ∃ matrix, ((chunks fp8Chunk ids).flatMap (dequantChunk entries layerIdx proj M N (cdiv M 128) (cdiv N 128)))[1]? =
        some matrix ∧
      matrix 0 n = entries (weightKey layerIdx proj (ids.getD 1 0)) [0, n] *
        entries (scaleKey layerIdx proj (ids.getD 0 0)) [M / 128 % cdiv M 128, n / 128] := by
  obtain ⟨matrix, found, scaled⟩ := batch_getElem? entries layerIdx proj M N two
  refine ⟨matrix, found, ?_⟩
  rw [scaled 0 someRow n inColumns, show 1 % fp8Chunk = 1 from rfl, show 1 / fp8Chunk * fp8Chunk = 0 from rfl, Nat.one_mul,
    Nat.add_zero, rowBlock_shared short, List.drop_zero, List.getD_eq_getElem?_getD (l := List.take _ _),
    List.getElem?_take_of_lt (by decide), ← List.getD_eq_getElem?_getD]

end

/-! ## Which conversions decode every expert -/

theorem Checkpoint.sized_of_shape {checkpoint : Checkpoint} {key : TensorKey} {shape : Shape}
    (known : checkpoint.shape key = some shape) : shape.Sized := by
  obtain ⟨earlier, later, split_, -⟩ := List.lookup_eq_some_iff.mp known
  exact checkpoint.sized (key, shape) (by rw [split_]; simp)

/-- The numbers of experts of a layer that `_find_expert_layers` has found. -/
theorem layerIds_of_found {numHiddenLayers : Option Nat} {keys : List TensorKey} {layers : List (Nat × List Nat)}
    (found : findExpertLayers numHiddenLayers keys = .ok (.base layers)) (layerIdx : Nat) :
    (layers.lookup layerIdx).getD [] = [] ∨ (layers.lookup layerIdx).getD [] = expertIds layerIdx keys := by
  have made : layers = (expertLayers numHiddenLayers keys).map fun layerIdx => (layerIdx, expertIds layerIdx keys) := by
    simp only [findExpertLayers] at found
    split at found
    · cases found
    · obtain ⟨-, -, found⟩ := bind_ok.mp found
      cases found
      rfl
  cases known : layers.lookup layerIdx with
  | none => exact .inl rfl
  | some ids =>
      right
      obtain ⟨earlier, later, split_, -⟩ := List.lookup_eq_some_iff.mp known
      have member : (layerIdx, ids) ∈ layers := by rw [split_]; simp
      rw [made, List.mem_map] at member
      obtain ⟨other, -, same⟩ := member
      cases same
      rfl

section

variable {K : Type} {checkpoint : Checkpoint} {inputType : InputType} {layerIdx numExperts : Nat}

section

variable {layers : List (Nat × List Nat)} {ids : List Nat} {passed : Entries K → Proj → Stack K}

theorem checkpointExpert_base [Mul K] {entries : Entries K} {proj : Proj} {expertId M N : Nat}
    (known : checkpoint.shape (weightKey layerIdx proj expertId) = some (.matrix M N)) :
    checkpointExpert checkpoint inputType (.base layers) layerIdx entries proj expertId = some ⟨M, N, fun m n =>
      if inputType = .fp8 then
        entries (weightKey layerIdx proj expertId) [m, n] * entries (scaleKey layerIdx proj expertId) [m / 128, n / 128]
      else entries (weightKey layerIdx proj expertId) [m, n]⟩ := by
  simp only [checkpointExpert, known]

theorem decodes_base [Zero K] [Mul K] (gridded : Gridded checkpoint layerIdx) (sorted : ids.Pairwise (· < ·))
    (converted : convertBase checkpoint inputType layerIdx ids = .ok passed) (all : ∀ expertId < numExperts, expertId ∈ ids)
    (own : inputType = .fp8 → numExperts ≤ 1 ∨ Aligned checkpoint layerIdx) :
    Decodes checkpoint inputType (.base layers) layerIdx numExperts passed := by
  intro entries expertId inside proj
  obtain ⟨M, N, some_, matrices, shapes⟩ := convertBase_ok gridded converted proj
  have place := getElem?_of_no_gap sorted all inside
  obtain ⟨inIds, -⟩ := List.getElem?_eq_some_iff.mp place
  have known := matrices expertId (all expertId inside)
  refine ⟨_, checkpointExpert_base known, ?_⟩
  rw [shapes entries]
  refine ⟨rfl, rfl, ?_⟩
  dsimp only
  by_cases fp8 : inputType = .fp8
  · rw [if_pos fp8]
    simp only [if_pos fp8]
    have ownBlocks : expertId = 0 ∨ 128 ∣ M := by
      rcases own fp8 with one | aligned
      · exact .inl (by omega)
      · exact .inr (aligned proj expertId M N known)
    have scaled := batch_own entries layerIdx proj M N inIds ownBlocks
    rw [List.getD_eq_getElem?_getD, place, Option.getD_some] at scaled
    exact scaled
  · rw [if_neg fp8]
    simp only [if_neg fp8]
    exact ⟨_, by rw [List.getElem?_map, place, Option.map_some], fun m _ n _ => rfl⟩

/-- The entries that are all one, except for the scales of the first expert. -/
def firstUnscaled [Zero K] [One K] (layerIdx : Nat) (proj : Proj) : Entries K :=
  fun key _ => if key = scaleKey layerIdx proj 0 then 0 else 1

theorem not_decodes_short [MulZeroOneClass K] [Nontrivial K] (gridded : Gridded checkpoint layerIdx) (sorted : ids.Pairwise (· < ·))
    (converted : convertBase checkpoint .fp8 layerIdx ids = .ok passed) (all : ∀ expertId < numExperts, expertId ∈ ids)
    (two : 1 < numExperts) {proj : Proj} {M N : Nat}
    (matrices : ∀ expertId ∈ ids, checkpoint.shape (weightKey layerIdx proj expertId) = some (.matrix M N)) (short : ¬ 128 ∣ M) :
    ¬ Decodes checkpoint .fp8 (.base layers) layerIdx numExperts passed := by
  intro decodes
  have first := getElem?_of_no_gap sorted all (show 0 < numExperts by omega)
  have second := getElem?_of_no_gap sorted all two
  obtain ⟨inIds, -⟩ := List.getElem?_eq_some_iff.mp second
  have known := matrices 1 (all 1 two)
  obtain ⟨someRow, someColumn⟩ : 0 < M ∧ 0 < N := Checkpoint.sized_of_shape known
  obtain ⟨weights, own, holds⟩ := decodes (firstUnscaled layerIdx proj) 1 two proj
  rw [checkpointExpert_base known] at own
  cases own
  obtain ⟨M', N', -, matrices', shapes⟩ := convertBase_ok gridded converted proj
  have same := (matrices' 1 (all 1 two)).symm.trans known
  rw [Option.some.injEq, Shape.matrix.injEq] at same
  obtain ⟨rfl, rfl⟩ := same
  obtain ⟨matrix, found, scaled⟩ := batch_second (firstUnscaled (K := K) layerIdx proj) layerIdx proj M' N' short inIds someRow someColumn
  obtain ⟨held, inStack, right⟩ := holds.entry
  rw [shapes] at inStack
  dsimp only at inStack
  rw [if_pos rfl, found] at inStack
  cases inStack
  have equal := right 0 someRow 0 someColumn
  rw [scaled, List.getD_eq_getElem?_getD, List.getD_eq_getElem?_getD, first, second] at equal
  simp [firstUnscaled, weightKey, scaleKey] at equal

theorem decodes_base_iff [MulZeroOneClass K] [Nontrivial K] (gridded : Gridded checkpoint layerIdx)
    (isLayer : (layers.lookup layerIdx).getD [] = [] ∨ (layers.lookup layerIdx).getD [] = expertIds layerIdx checkpoint.keys)
    (converted : convertBase checkpoint inputType layerIdx ((layers.lookup layerIdx).getD []) = .ok passed) :
    Decodes checkpoint inputType (.base layers) layerIdx numExperts passed ↔
      Decodable checkpoint inputType (.base layers) layerIdx numExperts := by
  have ids : (layers.lookup layerIdx).getD [] = expertIds layerIdx checkpoint.keys := by
    rcases isLayer with none | ids
    · obtain ⟨-, -, some_, -⟩ := convertBase_ok gridded converted .gate
      exact absurd none some_
    · exact ids
  rw [Decodable, ids]
  rw [ids] at converted
  have sorted := expertIds_sorted layerIdx checkpoint.keys
  constructor
  · intro decodes
    have all : ∀ expertId < numExperts, expertId ∈ expertIds layerIdx checkpoint.keys := by
      intro expertId inside
      obtain ⟨weights, own, -⟩ := decodes (fun _ _ => 0) expertId inside .gate
      simp only [checkpointExpert] at own
      split at own
      · next known => exact mem_expertIds.mpr ⟨_, Checkpoint.mem_keys known⟩
      · cases own
    refine ⟨all, ?_⟩
    rintro rfl
    by_contra! bad
    obtain ⟨two, unaligned⟩ := bad
    simp only [Aligned, not_forall] at unaligned
    obtain ⟨proj, expertId, M, N, known, short⟩ := unaligned
    obtain ⟨M', N', -, matrices, -⟩ := convertBase_ok gridded converted proj
    have same := (matrices expertId (mem_expertIds.mpr ⟨_, Checkpoint.mem_keys known⟩)).symm.trans known
    rw [Option.some.injEq, Shape.matrix.injEq] at same
    obtain ⟨rfl, rfl⟩ := same
    exact not_decodes_short gridded sorted converted all two matrices short decodes
  · rintro ⟨all, own⟩
    exact decodes_base gridded sorted converted all own

end

end

/-! ## The fused stacks -/

section

variable {K : Type} {checkpoint : Checkpoint} {inputType : InputType} {layerIdx numExperts : Nat} {layers : List Nat}
  {passed : Entries K → Proj → Stack K}

theorem convertFused_ok (converted : convertFused checkpoint inputType layerIdx = .ok passed) :
    ∃ downProj gateUpProj rest E downI downH H I, fusedProjs layerIdx checkpoint.keys = downProj :: gateUpProj :: rest ∧
      checkpoint.shape (fusedKey layerIdx downProj) = some (.cube E downI downH) ∧
      checkpoint.shape (fusedKey layerIdx gateUpProj) = some (.cube E H (I * 2)) ∧
      ∀ entries, passed entries .gate = ⟨I, H, (List.range E).map fun e i h => entries (fusedKey layerIdx gateUpProj) [e, h, i]⟩ ∧
        passed entries .up = ⟨I, H, (List.range E).map fun e i h => entries (fusedKey layerIdx gateUpProj) [e, h, I + i]⟩ ∧
        passed entries .down = ⟨downH, downI, (List.range E).map fun e h i => entries (fusedKey layerIdx downProj) [e, i, h]⟩ := by
  rw [convertFused] at converted
  split at converted
  · cases converted
  · split at converted
    · cases converted
    · cases converted
    · next downProj gateUpProj rest names =>
        split at converted
        · split at converted
          · next downE downI downH E H twoI down gateUp =>
              split at converted
              · cases converted
              · next odd =>
                  split at converted
                  · cases converted
                  · next same =>
                      cases converted
                      have even : twoI / 2 * 2 = twoI := by omega
                      rw [not_not] at same
                      refine ⟨downProj, gateUpProj, rest, E, downI, downH, H, twoI / 2, names, same ▸ down, ?_, ?_⟩
                      · rw [even]
                        exact gateUp
                      · intro entries
                        exact ⟨rfl, rfl, rfl⟩
          · cases converted
        · cases converted

theorem getElem?_map_range {α : Type} {count place : Nat} {out : Nat → α} {value : α}
    (found : ((List.range count).map out)[place]? = some value) : value = out place := by
  rw [List.getElem?_map] at found
  obtain ⟨index, inside, rfl⟩ := Option.map_eq_some_iff.mp found
  obtain ⟨here, rfl⟩ := List.getElem?_eq_some_iff.mp inside
  rw [List.getElem_range]

def onlyIn [Zero K] [One K] (key : TensorKey) : Entries K :=
  fun other _ => if other = key then 1 else 0

theorem fusedKey_inj {first second : Segment} (same : fusedKey layerIdx first = fusedKey layerIdx second) : first = second := by
  cases same
  rfl

theorem decodes_fused [Mul K] {E I downH H downI : Nat}
    (down : checkpoint.shape (downKey layerIdx) = some (.cube E downI downH))
    (gateUp : checkpoint.shape (gateUpKey layerIdx) = some (.cube E H (I * 2))) (enough : numExperts ≤ E)
    (shapes : ∀ entries, passed entries .gate = ⟨I, H, (List.range E).map fun e i h => entries (gateUpKey layerIdx) [e, h, i]⟩ ∧
      passed entries .up = ⟨I, H, (List.range E).map fun e i h => entries (gateUpKey layerIdx) [e, h, I + i]⟩ ∧
      passed entries .down = ⟨downH, downI, (List.range E).map fun e h i => entries (downKey layerIdx) [e, i, h]⟩) :
    Decodes checkpoint inputType (.fused layers) layerIdx numExperts passed := by
  intro entries expertId inside proj
  have inTensor : expertId < E := by omega
  have half : I * 2 / 2 = I := Nat.mul_div_cancel _ (by decide)
  obtain ⟨gate, up, down_⟩ := shapes entries
  have inRange := List.getElem?_range inTensor
  cases proj with
  | gate =>
      rw [gate]
      refine ⟨_, by simp only [checkpointExpert, gateUp, if_pos inTensor, half]; rfl, rfl, rfl, ?_⟩
      exact ⟨_, by rw [List.getElem?_map, inRange, Option.map_some], fun i _ h _ => rfl⟩
  | up =>
      rw [up]
      refine ⟨_, by simp only [checkpointExpert, gateUp, if_pos inTensor, half]; rfl, rfl, rfl, ?_⟩
      exact ⟨_, by rw [List.getElem?_map, inRange, Option.map_some], fun i _ h _ => rfl⟩
  | down =>
      rw [down_]
      refine ⟨_, by simp only [checkpointExpert, down, if_pos inTensor]; rfl, rfl, rfl, ?_⟩
      exact ⟨_, by rw [List.getElem?_map, inRange, Option.map_some], fun h _ i _ => rfl⟩

theorem checkpointExpert_down [Mul K] {entries : Entries K} {expertId : Nat} {weights : Weights K}
    (own : checkpointExpert checkpoint inputType (.fused layers) layerIdx entries .down expertId = some weights) :
    ∃ I H, weights = ⟨H, I, fun h i => entries (downKey layerIdx) [expertId, i, h]⟩ := by
  simp only [checkpointExpert] at own
  split at own
  · next wrong _ => cases wrong
  · next wrong _ => cases wrong
  · next E I H _ _ =>
      split at own
      · cases own
        exact ⟨I, H, rfl⟩
      · cases own
  · cases own

theorem checkpointExpert_gate [Mul K] {entries : Entries K} {expertId : Nat} {weights : Weights K}
    (own : checkpointExpert checkpoint inputType (.fused layers) layerIdx entries .gate expertId = some weights) :
    ∃ I H, weights = ⟨I, H, fun i h => entries (gateUpKey layerIdx) [expertId, h, i]⟩ := by
  simp only [checkpointExpert] at own
  split at own
  · next E H twoI _ _ =>
      split at own
      · cases own
        exact ⟨twoI / 2, H, rfl⟩
      · cases own
  · next wrong _ => cases wrong
  · next wrong _ => cases wrong
  · cases own

/-- What the first expert has decides which tensors were read. -/
theorem names_of_decodes [MulZeroOneClass K] [Nontrivial K] {downProj gateUpProj : Segment} {E I downH H downI : Nat}
    (shapes : ∀ entries, passed entries .gate = ⟨I, H, (List.range E).map fun e i h => entries (fusedKey layerIdx gateUpProj) [e, h, i]⟩ ∧
      passed entries .up = ⟨I, H, (List.range E).map fun e i h => entries (fusedKey layerIdx gateUpProj) [e, h, I + i]⟩ ∧
      passed entries .down = ⟨downH, downI, (List.range E).map fun e h i => entries (fusedKey layerIdx downProj) [e, i, h]⟩)
    (gateUpSized : 0 < H ∧ 0 < I) (downSized : 0 < downI ∧ 0 < downH) (someExpert : 0 < numExperts)
    (decodes : Decodes checkpoint inputType (.fused layers) layerIdx numExperts passed) :
    downProj = .name "down_proj" ∧ gateUpProj = .name "gate_up_proj" := by
  constructor
  · by_contra other
    obtain ⟨weights, own, holds⟩ := decodes (onlyIn (downKey layerIdx)) 0 someExpert .down
    obtain ⟨-, -, down⟩ := shapes (onlyIn (downKey layerIdx))
    rw [down] at holds
    obtain ⟨matrix, found, right⟩ := holds.entry
    have equal := right 0 (holds.rows ▸ downSized.2) 0 (holds.columns ▸ downSized.1)
    rw [getElem?_map_range found] at equal
    obtain ⟨_, _, rfl⟩ := checkpointExpert_down own
    have elsewhere : fusedKey layerIdx downProj ≠ downKey layerIdx := fun same => other (fusedKey_inj same)
    simp [onlyIn, elsewhere] at equal
  · by_contra other
    obtain ⟨weights, own, holds⟩ := decodes (onlyIn (gateUpKey layerIdx)) 0 someExpert .gate
    obtain ⟨gate, -, -⟩ := shapes (onlyIn (gateUpKey layerIdx))
    rw [gate] at holds
    obtain ⟨matrix, found, right⟩ := holds.entry
    have equal := right 0 (holds.rows ▸ gateUpSized.2) 0 (holds.columns ▸ gateUpSized.1)
    rw [getElem?_map_range found] at equal
    obtain ⟨_, _, rfl⟩ := checkpointExpert_gate own
    have elsewhere : fusedKey layerIdx gateUpProj ≠ gateUpKey layerIdx := fun same => other (fusedKey_inj same)
    simp [onlyIn, elsewhere] at equal

theorem enough_of_decodes [MulZeroOneClass K] {E H twoI : Nat}
    (gateUp : checkpoint.shape (gateUpKey layerIdx) = some (.cube E H twoI))
    (decodes : Decodes checkpoint inputType (.fused layers) layerIdx numExperts passed) : numExperts ≤ E := by
  by_contra fewer
  obtain ⟨weights, own, -⟩ := decodes (fun _ _ => 0) E (by omega) .gate
  simp only [checkpointExpert, gateUp, lt_irrefl, if_false] at own
  cases own

theorem decodes_fused_iff [MulZeroOneClass K] [Nontrivial K] (converted : convertFused checkpoint inputType layerIdx = .ok passed) :
    Decodes checkpoint inputType (.fused layers) layerIdx numExperts passed ↔
      Decodable checkpoint inputType (.fused layers) layerIdx numExperts := by
  obtain ⟨downProj, gateUpProj, rest, E, downI, downH, H, I, names, down, gateUp, shapes⟩ := convertFused_ok converted
  rw [Decodable, names]
  constructor
  · intro decodes
    by_cases none : numExperts = 0
    · exact .inl none
    · obtain ⟨-, downISized, downHSized⟩ : 0 < E ∧ 0 < downI ∧ 0 < downH := Checkpoint.sized_of_shape down
      obtain ⟨-, HSized, twoISized⟩ : 0 < E ∧ 0 < H ∧ 0 < I * 2 := Checkpoint.sized_of_shape gateUp
      obtain ⟨rfl, rfl⟩ := names_of_decodes shapes ⟨HSized, by omega⟩ ⟨downISized, downHSized⟩ (Nat.pos_of_ne_zero none) decodes
      refine .inr ⟨rfl, ?_⟩
      intro E' H' twoI known
      exact enough_of_decodes known decodes
  · rintro (rfl | ⟨own, enough⟩)
    · intro entries expertId inside
      omega
    · cases own
      exact decodes_fused down gateUp (enough E H (I * 2) gateUp) shapes

end

/-! ## Conversions -/

/-- A layer is converted to the weights of its own experts exactly when no id is missing below
the number of experts and, for fp8, no block holds rows of two of them; of fused tensors, when
the first two by name are those of the experts. -/
theorem convert_decodes_iff {K : Type} [MulZeroOneClass K] [Nontrivial K] (checkpoint : Checkpoint) (inputType : InputType)
    (numHiddenLayers : Option Nat) (layers : Layers) (layerIdx numExperts : Nat) (passed : Entries K → Proj → Stack K)
    (found : findExpertLayers numHiddenLayers checkpoint.keys = .ok layers) (gridded : Gridded checkpoint layerIdx)
    (converted : convertLayerExperts checkpoint inputType layers layerIdx = .ok passed) :
    Decodes checkpoint inputType layers layerIdx numExperts passed ↔
      Decodable checkpoint inputType layers layerIdx numExperts := by
  cases layers with
  | base layers => exact decodes_base_iff gridded (layerIds_of_found found layerIdx) converted
  | fused layers => exact decodes_fused_iff converted

/-- Two fp8 experts of a single column. -/
def twoExperts (rows : Nat) (positive : 0 < rows) : Checkpoint where
  tensors := [0, 1].flatMap fun expertId => [Proj.gate, .up, .down].flatMap fun proj =>
    [(weightKey 0 proj expertId, .matrix rows 1), (scaleKey 0 proj expertId, .matrix (cdiv rows 128) 1)]
  sized := by
    have blocks : 0 < cdiv rows 128 := by
      rw [cdiv]
      omega
    simp [Shape.Sized, positive, blocks]

def twoExpertsLayers : Layers :=
  .base [(0, [0, 1])]

theorem mem_twoExperts {rows : Nat} {positive : 0 < rows} {key : TensorKey} {shape : Shape}
    (known : (twoExperts rows positive).shape key = some shape) :
    (∃ proj expertId, key = weightKey 0 proj expertId ∧ shape = .matrix rows 1) ∨
      ∃ proj expertId, key = scaleKey 0 proj expertId ∧ shape = .matrix (cdiv rows 128) 1 := by
  obtain ⟨earlier, later, split_, -⟩ := List.lookup_eq_some_iff.mp known
  have member : (key, shape) ∈ (twoExperts rows positive).tensors := by rw [split_]; simp
  simp only [twoExperts, List.mem_flatMap, List.mem_cons, List.not_mem_nil, or_false, Prod.mk.injEq] at member
  obtain ⟨expertId, -, proj, -, own | own⟩ := member
  · exact .inl ⟨proj, expertId, own⟩
  · exact .inr ⟨proj, expertId, own⟩

theorem weights_twoExperts {rows : Nat} {positive : 0 < rows} {proj : Proj} {expertId M N : Nat}
    (known : (twoExperts rows positive).shape (weightKey 0 proj expertId) = some (.matrix M N)) : M = rows ∧ N = 1 := by
  rcases mem_twoExperts known with ⟨_, _, -, own⟩ | ⟨_, _, same, -⟩
  · exact Shape.matrix.inj own
  · simp [weightKey, scaleKey] at same

theorem gridded_twoExperts (rows : Nat) (positive : 0 < rows) : Gridded (twoExperts rows positive) 0 := by
  intro proj expertId M N weights grid scales
  obtain ⟨rfl, rfl⟩ := weights_twoExperts weights
  rcases mem_twoExperts scales with ⟨_, _, same, -⟩ | ⟨_, _, -, own⟩
  · simp [weightKey, scaleKey] at same
  · exact own

/-- The layers are read off the names alone. -/
theorem found_twoExperts (rows : Nat) (positive : 0 < rows) :
    findExpertLayers none (twoExperts rows positive).keys = .ok twoExpertsLayers := by
  have names : (twoExperts rows positive).keys = (twoExperts 128 (by decide)).keys := rfl
  rw [names]
  decide +kernel

theorem convert_decodes_iff_full_block : ∃ passed : Entries ℚ → Proj → Stack ℚ,
    convertLayerExperts (twoExperts 128 (by decide)) .fp8 twoExpertsLayers 0 = .ok passed ∧
      Decodes (twoExperts 128 (by decide)) .fp8 twoExpertsLayers 0 2 passed := by
  have found := found_twoExperts 128 (by decide)
  refine ⟨_, rfl, ?_⟩
  rw [convert_decodes_iff _ _ none _ 0 2 _ found (gridded_twoExperts 128 (by decide)) rfl]
  refine ⟨by decide, fun _ => .inr ?_⟩
  intro proj expertId M N known
  rw [(weights_twoExperts known).1]

/-- With one and a half blocks of rows, the second expert starts with a scale of the first. -/
theorem half_block_decodes_wrong : ∃ passed : Entries ℚ → Proj → Stack ℚ,
    findExpertLayers none (twoExperts 192 (by decide)).keys = .ok twoExpertsLayers ∧
      Gridded (twoExperts 192 (by decide)) 0 ∧
      convertLayerExperts (twoExperts 192 (by decide)) .fp8 twoExpertsLayers 0 = .ok passed ∧
      ¬ Decodes (twoExperts 192 (by decide)) .fp8 twoExpertsLayers 0 2 passed := by
  have found := found_twoExperts 192 (by decide)
  refine ⟨_, found, gridded_twoExperts 192 (by decide), rfl, ?_⟩
  rw [twoExpertsLayers, decodes_base_iff (gridded_twoExperts 192 (by decide)) (layerIds_of_found found 0) rfl]
  rintro ⟨-, own⟩
  rcases own rfl with one | aligned
  · omega
  · have whole := aligned .gate 0 192 1 (by decide)
    omega

end KtKernel.Convert
