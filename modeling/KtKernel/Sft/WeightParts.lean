import Mathlib.Algebra.Ring.Int.Defs
import Mathlib.Tactic.Ring
import KtKernel.Data.Checks
import KtKernel.Data.Tensors
import KtKernel.Sft.WeightNames

namespace KtKernel.Sft

open KtKernel.Data

/-! The INT8 experts that are put together from the parts of the NUMA nodes. -/

namespace WeightParts

/-- A part of a key between two dots: a number, or any other text. -/
inductive Segment where
  | number (value : Nat)
  | text (text : String)
deriving DecidableEq, Repr

/-- The keys `blk.{layer}.ffn_{proj}_exps.{expert}.numa.{numa}.{rest}`, and all others. -/
inductive Key where
  | part (layerIdx : Nat) (proj : Projection) (expertIdx : Nat) (numaIdx : Segment) (rest : List String)
  | other (name : String)
deriving DecidableEq, Repr

def weightKey (layerIdx : Nat) (proj : Projection) (expertIdx numaIdx : Nat) : Key :=
  .part layerIdx proj expertIdx (.number numaIdx) ["weight"]

def scaleKey (layerIdx : Nat) (proj : Projection) (expertIdx numaIdx : Nat) : Key :=
  .part layerIdx proj expertIdx (.number numaIdx) ["scale"]

inductive LoadError where
  | fileNotFoundError
  | valueError
  | safetensorError
  | runtimeError
deriving DecidableEq, Repr

/-- A safetensors file. -/
structure File (α : Type) where
  keys : List Key
  getTensor : Key → Option (Tensor α)
  listed : ∀ key, key ∈ keys ↔ (getTensor key).isSome

variable {α : Type}

/-- `_load_kt_weight_index`: the last file with a key wins. -/
def indexedFile (files : List (File α)) (key : Key) : Option (File α) :=
  files.reverse.find? fun file => key ∈ file.keys

def numaIndices (layerIdx : Nat) (keys : List Key) : List Segment :=
  keys.filterMap fun
    | .part layer proj expertIdx numaIdx rest =>
        if layer = layerIdx ∧ proj = .gate ∧ expertIdx = 0 ∧ rest.getLast? = some "weight" then some numaIdx else none
    | .other _ => none

/-- `int` of the number of a part. -/
def numaNumber : Segment → Except LoadError Nat
  | .number numaIdx => .ok numaIdx
  | .text _ => .error .valueError

def countNuma (layerIdx : Nat) (keys : List Key) : Except LoadError Nat := do
  let indices ← (numaIndices layerIdx keys).mapM numaNumber
  return indices.foldl (fun numaCount numaIdx => max numaCount (numaIdx + 1)) 0

def loadPart (files : List (File α)) (layerIdx : Nat) (proj : Projection) (expertIdx numaIdx : Nat) :
    Except LoadError (Tensor α × Tensor α) := do
  let wKey := weightKey layerIdx proj expertIdx numaIdx
  let sKey := scaleKey layerIdx proj expertIdx numaIdx
  let f ← expectSome (indexedFile files wKey) LoadError.fileNotFoundError
  let w ← expectSome (f.getTensor wKey) LoadError.safetensorError
  let s ← expectSome (f.getTensor sKey) LoadError.safetensorError
  return (w, s)

/-- A projection of an expert: its weights and its scales. -/
def loadProjection (files : List (File α)) (layerIdx numaCount : Nat) (proj : Projection) (rows columns expertIdx : Nat) :
    Except LoadError (Tensor α × Tensor α) := do
  let parts ← (List.range numaCount).mapM (loadPart files layerIdx proj expertIdx)
  let w ← expectSome (Tensor.cat (parts.map Prod.fst)) LoadError.runtimeError
  let s ← expectSome (Tensor.cat (parts.map Prod.snd)) LoadError.runtimeError
  let w ← expectSome (w.view [rows, columns]) LoadError.runtimeError
  return (w, s)

structure ExpertParts (α : Type) where
  gate : Tensor α × Tensor α
  up : Tensor α × Tensor α
  down : Tensor α × Tensor α

structure INT8ExpertWeights (α : Type) where
  gateProj : Tensor α
  gateScale : Tensor α
  upProj : Tensor α
  upScale : Tensor α
  downProj : Tensor α
  downScale : Tensor α

/-- `load_experts_from_kt_weight_path` for the files of a directory. -/
def loadExperts (files : List (File α)) (layerIdx numExperts hiddenSize intermediateSize : Nat) :
    Except LoadError (INT8ExpertWeights α) := do
  require (!files.isEmpty) LoadError.fileNotFoundError
  let numaCount ← countNuma layerIdx (files.flatMap File.keys)
  require (numaCount ≠ 0) LoadError.fileNotFoundError
  let experts ← (List.range numExperts).mapM fun expertIdx => do
    let gate ← loadProjection files layerIdx numaCount .gate intermediateSize hiddenSize expertIdx
    let up ← loadProjection files layerIdx numaCount .up intermediateSize hiddenSize expertIdx
    let down ← loadProjection files layerIdx numaCount .down hiddenSize intermediateSize expertIdx
    return ({ gate, up, down } : ExpertParts α)
  let gateProj ← expectSome (Tensor.stack (experts.map fun expert => expert.gate.1)) LoadError.runtimeError
  let gateScale ← expectSome (Tensor.stack (experts.map fun expert => expert.gate.2)) LoadError.runtimeError
  let upProj ← expectSome (Tensor.stack (experts.map fun expert => expert.up.1)) LoadError.runtimeError
  let upScale ← expectSome (Tensor.stack (experts.map fun expert => expert.up.2)) LoadError.runtimeError
  let downProj ← expectSome (Tensor.stack (experts.map fun expert => expert.down.1)) LoadError.runtimeError
  let downScale ← expectSome (Tensor.stack (experts.map fun expert => expert.down.2)) LoadError.runtimeError
  return { gateProj, gateScale, upProj, upScale, downProj, downScale }

/-! ## The experts that were divided -/

/-- The dimensions of a layer and its division. -/
structure Division where
  numExperts : Nat
  hiddenSize : Nat
  intermediateSize : Nat
  numaCount : Nat
  divides : numaCount ∣ intermediateSize

/-- The experts before the division, with a scale for every row that a part stores. -/
structure Experts (α : Type) where
  weight : Projection → Nat → Nat → Nat → α
  scale : Projection → Nat → Nat → Nat → α

namespace Division

variable (division : Division)

/-- The share of a part. -/
def share : Nat :=
  division.intermediateSize / division.numaCount

def rows : Projection → Nat
  | .gate | .up => division.intermediateSize
  | .down => division.hiddenSize

def columns : Projection → Nat
  | .gate | .up => division.hiddenSize
  | .down => division.intermediateSize

def partRows : Projection → Nat
  | .gate | .up => division.share
  | .down => division.hiddenSize

def partColumns : Projection → Nat
  | .gate | .up => division.hiddenSize
  | .down => division.share

def partEntry (experts : Experts α) (proj : Projection) (expertIdx numaIdx row column : Nat) : α :=
  match proj with
  | .gate | .up => experts.weight proj expertIdx (numaIdx * division.share + row) column
  | .down => experts.weight proj expertIdx row (numaIdx * division.share + column)

/-- The shape of a part, with one dimension or with two. -/
def partShape (flat : Bool) (proj : Projection) : List Nat :=
  if flat then [division.partRows proj * division.partColumns proj] else [division.partRows proj, division.partColumns proj]

/-- Two tensors hold a part in row-major order and its scales. -/
structure Part (flat : Bool) (experts : Experts α) (proj : Projection) (expertIdx numaIdx : Nat) (w s : Tensor α) : Prop where
  shape : w.shape = division.partShape flat proj
  entry : ∀ row < division.partRows proj, ∀ column < division.partColumns proj,
    w.data[row * division.partColumns proj + column]? = some (division.partEntry experts proj expertIdx numaIdx row column)
  scaleShape : s.shape = [division.partRows proj]
  scale : ∀ row < division.partRows proj, s.data[row]? = some (experts.scale proj expertIdx numaIdx row)

/-- The files hold the parts of the experts, and no others of the first expert. -/
structure Stored (layerIdx : Nat) (flat : Bool) (experts : Experts α) (files : List (File α)) : Prop where
  found : ∀ proj, ∀ expertIdx < division.numExperts, ∀ numaIdx < division.numaCount, ∃ file w s,
    indexedFile files (weightKey layerIdx proj expertIdx numaIdx) = some file ∧
      file.getTensor (weightKey layerIdx proj expertIdx numaIdx) = some w ∧
      file.getTensor (scaleKey layerIdx proj expertIdx numaIdx) = some s ∧ division.Part flat experts proj expertIdx numaIdx w s
  only : ∀ numaIdx ∈ numaIndices layerIdx (files.flatMap File.keys), ∃ value < division.numaCount, numaIdx = .number value

end Division

/-! ## The number of parts -/

theorem foldl_max_le {bound : Nat} {indices : List Nat} (each : ∀ index ∈ indices, index < bound) :
    ∀ start ≤ bound, indices.foldl (fun count index => max count (index + 1)) start ≤ bound := by
  induction indices with
  | nil => exact fun start inside => inside
  | cons index indices induction =>
      intro start inside
      have first := each index List.mem_cons_self
      exact induction (fun index member => each index (List.mem_cons_of_mem _ member)) _ (Nat.max_le.mpr ⟨inside, first⟩)

theorem le_foldl_max (indices : List Nat) : ∀ start, start ≤ indices.foldl (fun count index => max count (index + 1)) start := by
  induction indices with
  | nil => exact fun start => Nat.le_refl start
  | cons index indices induction =>
      intro start
      exact (Nat.le_max_left start (index + 1)).trans (induction _)

theorem lt_foldl_max {index : Nat} {indices : List Nat} (member : index ∈ indices) :
    ∀ start, index < indices.foldl (fun count index => max count (index + 1)) start := by
  induction indices with
  | nil => cases member
  | cons first indices induction =>
      intro start
      rcases List.mem_cons.mp member with rfl | later
      · exact (Nat.le_max_right start (index + 1)).trans (le_foldl_max indices _)
      · exact induction later _

namespace Division

variable {division : Division} {layerIdx : Nat} {flat : Bool} {experts : Experts α} {files : List (File α)}

theorem mem_keys_of_index {key : Key} {file : File α} (found : indexedFile files key = some file) :
    key ∈ files.flatMap File.keys := by
  rw [indexedFile] at found
  have member := List.mem_reverse.mp (List.mem_of_find?_eq_some found)
  have listed := List.find?_some found
  exact List.mem_flatMap.mpr ⟨file, member, of_decide_eq_true listed⟩

theorem Stored.countNuma (stored : division.Stored layerIdx flat experts files) (some_ : 0 < division.numExperts) :
    countNuma layerIdx (files.flatMap File.keys) = .ok division.numaCount := by
  have numbers : ∃ indices, (numaIndices layerIdx (files.flatMap File.keys)).mapM numaNumber = .ok indices ∧
      List.Forall₂ (fun numaIdx index => index < division.numaCount ∧ numaIdx = .number index)
        (numaIndices layerIdx (files.flatMap File.keys)) indices := by
    apply mapM_results
    intro numaIdx member
    obtain ⟨value, inside, rfl⟩ := stored.only numaIdx member
    exact ⟨value, rfl, inside, rfl⟩
  obtain ⟨indices, read, each⟩ := numbers
  rw [WeightParts.countNuma, read]
  apply congrArg Except.ok
  have bounded : ∀ index ∈ indices, index < division.numaCount := by
    intro index member
    obtain ⟨_, -, inside, -⟩ := item_of_mem each member
    exact inside
  apply Nat.le_antisymm (foldl_max_le bounded 0 (Nat.zero_le _))
  by_cases none : division.numaCount = 0
  · omega
  · obtain ⟨file, -, -, found, -⟩ := stored.found .gate 0 some_ (division.numaCount - 1) (by omega)
    have listed : Segment.number (division.numaCount - 1) ∈ numaIndices layerIdx (files.flatMap File.keys) :=
      List.mem_filterMap.mpr ⟨_, mem_keys_of_index found, if_pos ⟨rfl, rfl, rfl, rfl⟩⟩
    obtain ⟨index, member, -, same⟩ := result_of_mem each listed
    have last := lt_foldl_max member 0
    rw [← Segment.number.inj same] at last
    omega

/-! ## The parts of a projection -/

theorem results_of_range {kind : Nat → β → Prop} {count : Nat} {results : List β}
    (each : List.Forall₂ kind (List.range count) results) :
    results.length = count ∧ ∀ place < count, ∃ result, results[place]? = some result ∧ kind place result := by
  have length := each.length_eq
  rw [List.length_range] at length
  refine ⟨length.symm, ?_⟩
  intro place inside
  have here : place < results.length := by omega
  refine ⟨results[place], List.getElem?_eq_getElem here, ?_⟩
  have own := (List.forall₂_iff_get.mp each).2 place (by rw [List.length_range]; exact inside) here
  rw [List.get_eq_getElem, List.getElem_range, List.get_eq_getElem] at own
  exact own

theorem partSize_mul (division : Division) (proj : Projection) :
    division.numaCount * (division.partRows proj * division.partColumns proj) = division.rows proj * division.columns proj := by
  have whole : division.numaCount * division.share = division.intermediateSize := Nat.mul_div_cancel' division.divides
  cases proj with
  | gate =>
      change division.numaCount * (division.share * division.hiddenSize) = division.intermediateSize * division.hiddenSize
      rw [← Nat.mul_assoc, whole]
  | up =>
      change division.numaCount * (division.share * division.hiddenSize) = division.intermediateSize * division.hiddenSize
      rw [← Nat.mul_assoc, whole]
  | down =>
      change division.numaCount * (division.hiddenSize * division.share) = division.hiddenSize * division.intermediateSize
      rw [Nat.mul_left_comm, whole]

theorem partShape_prod (division : Division) (flat : Bool) (proj : Projection) :
    (division.partShape flat proj).prod = division.partRows proj * division.partColumns proj := by
  cases flat with
  | false => rw [partShape, if_neg Bool.false_ne_true, List.prod_cons, List.prod_singleton]
  | true => rw [partShape, if_pos rfl, List.prod_singleton]

theorem cat_parts {proj : Projection} {parts : List (Tensor α)} (some_ : parts ≠ [])
    (shapes : ∀ part ∈ parts, part.shape = division.partShape flat proj) :
    ∃ whole, Tensor.cat parts = some whole ∧
      whole.shape.prod = parts.length * (division.partRows proj * division.partColumns proj) ∧
      whole.data = (parts.map Tensor.data).flatten := by
  cases flat with
  | false =>
      obtain ⟨whole, joined, shape, data⟩ := Tensor.cat_some some_ shapes
      refine ⟨whole, joined, ?_, data⟩
      rw [shape, List.prod_cons, List.prod_singleton, Nat.mul_assoc]
  | true =>
      obtain ⟨whole, joined, shape, data⟩ := Tensor.cat_some some_ shapes
      refine ⟨whole, joined, ?_, data⟩
      rw [shape, List.prod_singleton]

theorem pairIndex_lt_mul {row rows column columns : Nat} (inRows : row < rows) (inColumns : column < columns) :
    row * columns + column < rows * columns := by
  rw [Nat.mul_comm rows]
  exact pairIndex_lt inRows inColumns

structure Joined (division : Division) (experts : Experts α) (proj : Projection) (expertIdx : Nat) (w s : Tensor α) : Prop where
  shape : w.shape = [division.rows proj, division.columns proj]
  entry : ∀ numaIdx < division.numaCount, ∀ row < division.partRows proj, ∀ column < division.partColumns proj,
    w.data[numaIdx * (division.partRows proj * division.partColumns proj) + (row * division.partColumns proj + column)]? =
      some (division.partEntry experts proj expertIdx numaIdx row column)
  scaleShape : s.shape = [division.numaCount * division.partRows proj]
  scale : ∀ numaIdx < division.numaCount, ∀ row < division.partRows proj,
    s.data[numaIdx * division.partRows proj + row]? = some (experts.scale proj expertIdx numaIdx row)

theorem Stored.loadProjection (stored : division.Stored layerIdx flat experts files) (someParts : 0 < division.numaCount)
    (proj : Projection) {expertIdx : Nat} (inside : expertIdx < division.numExperts) :
    ∃ loaded, loadProjection files layerIdx division.numaCount proj (division.rows proj) (division.columns proj) expertIdx =
      .ok loaded ∧ division.Joined experts proj expertIdx loaded.1 loaded.2 := by
  simp only [WeightParts.loadProjection]
  have each : ∃ parts, (List.range division.numaCount).mapM (loadPart files layerIdx proj expertIdx) = .ok parts ∧
      List.Forall₂ (fun numaIdx part => division.Part flat experts proj expertIdx numaIdx part.1 part.2)
        (List.range division.numaCount) parts := by
    apply mapM_results
    intro numaIdx member
    obtain ⟨file, w, s, found, weights, scales, part⟩ :=
      stored.found proj expertIdx inside numaIdx (List.mem_range.mp member)
    refine ⟨(w, s), ?_, part⟩
    simp only [loadPart]
    rw [found, expectSome_bind_ok]
    refine ⟨file, rfl, ?_⟩
    rw [expectSome_bind_ok]
    refine ⟨w, weights, ?_⟩
    rw [expectSome_bind_ok]
    exact ⟨s, scales, rfl⟩
  obtain ⟨parts, read, each⟩ := each
  obtain ⟨count, places⟩ := results_of_range each
  have isPart : ∀ part ∈ parts, ∃ numaIdx, division.Part flat experts proj expertIdx numaIdx part.1 part.2 := by
    intro part member
    obtain ⟨numaIdx, -, own⟩ := item_of_mem each member
    exact ⟨numaIdx, own⟩
  have weights : ∀ part ∈ parts.map Prod.fst, part.shape = division.partShape flat proj := by
    intro part member
    obtain ⟨both, inParts, rfl⟩ := List.mem_map.mp member
    obtain ⟨_, own⟩ := isPart both inParts
    exact own.shape
  have scales : ∀ part ∈ parts.map Prod.snd, part.shape = [division.partRows proj] := by
    intro part member
    obtain ⟨both, inParts, rfl⟩ := List.mem_map.mp member
    obtain ⟨_, own⟩ := isPart both inParts
    exact own.scaleShape
  have someWeights : parts.map Prod.fst ≠ [] := List.ne_nil_of_length_pos (by rw [List.length_map]; omega)
  have someScales : parts.map Prod.snd ≠ [] := List.ne_nil_of_length_pos (by rw [List.length_map]; omega)
  obtain ⟨w, wCat, wSize, wData⟩ := cat_parts someWeights weights
  obtain ⟨s, sCat, sShape, sData⟩ := Tensor.cat_some someScales scales
  rw [List.length_map, count] at wSize sShape
  obtain ⟨viewed, isView, viewShape, viewData⟩ := Tensor.view_some [division.rows proj, division.columns proj]
    (wSize.trans (by rw [partSize_mul, List.prod_cons, List.prod_singleton]))
  refine ⟨(viewed, s), ?_, viewShape, ?_, sShape, ?_⟩
  · rw [read]
    refine expectSome_bind_ok.mpr ⟨w, wCat, expectSome_bind_ok.mpr ⟨s, sCat, expectSome_bind_ok.mpr ⟨viewed, isView, rfl⟩⟩⟩
  · intro numaIdx isNuma row inRows column inColumns
    obtain ⟨part, here, own⟩ := places numaIdx isNuma
    have known : (parts.map Prod.fst)[numaIdx]? = some part.1 := by rw [List.getElem?_map, here, Option.map_some]
    have size : ∀ part ∈ parts.map Prod.fst, part.data.length = division.partRows proj * division.partColumns proj := by
      intro part member
      rw [part.sized, weights part member, partShape_prod]
    rw [viewData, wData, Tensor.getElem?_flatten size known (pairIndex_lt_mul inRows inColumns)]
    exact own.entry row inRows column inColumns
  · intro numaIdx isNuma row inRows
    obtain ⟨part, here, own⟩ := places numaIdx isNuma
    have known : (parts.map Prod.snd)[numaIdx]? = some part.2 := by rw [List.getElem?_map, here, Option.map_some]
    have size : ∀ part ∈ parts.map Prod.snd, part.data.length = division.partRows proj := by
      intro part member
      rw [part.sized, scales part member, List.prod_singleton]
    rw [sData, Tensor.getElem?_flatten size known inRows]
    exact own.scale row inRows

structure Stacked (division : Division) (experts : Experts α) (proj : Projection) (w s : Tensor α) : Prop where
  shape : w.shape = [division.numExperts, division.rows proj, division.columns proj]
  entry : ∀ e < division.numExperts, ∀ numaIdx < division.numaCount, ∀ row < division.partRows proj,
    ∀ column < division.partColumns proj,
    w.data[e * (division.rows proj * division.columns proj) +
        (numaIdx * (division.partRows proj * division.partColumns proj) + (row * division.partColumns proj + column))]? =
      some (division.partEntry experts proj e numaIdx row column)
  scaleShape : s.shape = [division.numExperts, division.numaCount * division.partRows proj]
  scale : ∀ e < division.numExperts, ∀ numaIdx < division.numaCount, ∀ row < division.partRows proj,
    s.data[e * (division.numaCount * division.partRows proj) + (numaIdx * division.partRows proj + row)]? =
      some (experts.scale proj e numaIdx row)

theorem stack_joined (experts : Experts α) (proj : Projection) (loaded : List (Tensor α × Tensor α)) (count : loaded.length = division.numExperts)
    (some_ : 0 < division.numExperts)
    (each : ∀ e < division.numExperts, ∃ both, loaded[e]? = some both ∧ division.Joined experts proj e both.1 both.2) :
    ∃ w s, Tensor.stack (loaded.map Prod.fst) = some w ∧ Tensor.stack (loaded.map Prod.snd) = some s ∧
      division.Stacked experts proj w s := by
  have joined : ∀ both ∈ loaded, ∃ e, division.Joined experts proj e both.1 both.2 := by
    intro both member
    obtain ⟨e, inside, here⟩ := List.mem_iff_getElem.mp member
    obtain ⟨other, known, own⟩ := each e (by omega)
    rw [List.getElem?_eq_getElem inside, here] at known
    cases known
    exact ⟨e, own⟩
  have weights : ∀ w ∈ loaded.map Prod.fst, w.shape = [division.rows proj, division.columns proj] := by
    intro w member
    obtain ⟨both, inLoaded, rfl⟩ := List.mem_map.mp member
    obtain ⟨_, own⟩ := joined both inLoaded
    exact own.shape
  have scales : ∀ s ∈ loaded.map Prod.snd, s.shape = [division.numaCount * division.partRows proj] := by
    intro s member
    obtain ⟨both, inLoaded, rfl⟩ := List.mem_map.mp member
    obtain ⟨_, own⟩ := joined both inLoaded
    exact own.scaleShape
  obtain ⟨w, wStack, wShape, wData⟩ := Tensor.stack_some (List.ne_nil_of_length_pos (by rw [List.length_map]; omega)) weights
  obtain ⟨s, sStack, sShape, sData⟩ := Tensor.stack_some (List.ne_nil_of_length_pos (by rw [List.length_map]; omega)) scales
  rw [List.length_map, count] at wShape sShape
  refine ⟨w, s, wStack, sStack, wShape, ?_, sShape, ?_⟩
  · intro e inside numaIdx isNuma row inRows column inColumns
    obtain ⟨both, here, own⟩ := each e inside
    have known : (loaded.map Prod.fst)[e]? = some both.1 := by rw [List.getElem?_map, here, Option.map_some]
    have size : ∀ w ∈ loaded.map Prod.fst, w.data.length = division.rows proj * division.columns proj := by
      intro w member
      rw [w.sized, weights w member, List.prod_cons, List.prod_singleton]
    have inData : numaIdx * (division.partRows proj * division.partColumns proj) + (row * division.partColumns proj + column) <
        division.rows proj * division.columns proj := by
      rw [← partSize_mul]
      exact pairIndex_lt_mul isNuma (pairIndex_lt_mul inRows inColumns)
    rw [wData, Tensor.getElem?_flatten size known inData]
    exact own.entry numaIdx isNuma row inRows column inColumns
  · intro e inside numaIdx isNuma row inRows
    obtain ⟨both, here, own⟩ := each e inside
    have known : (loaded.map Prod.snd)[e]? = some both.2 := by rw [List.getElem?_map, here, Option.map_some]
    have size : ∀ s ∈ loaded.map Prod.snd, s.data.length = division.numaCount * division.partRows proj := by
      intro s member
      rw [s.sized, scales s member, List.prod_singleton]
    rw [sData, Tensor.getElem?_flatten size known (pairIndex_lt_mul isNuma inRows)]
    exact own.scale numaIdx isNuma row inRows

theorem Stored.loadExperts (stored : division.Stored layerIdx flat experts files) (some_ : 0 < division.numExperts)
    (someParts : 0 < division.numaCount) :
    ∃ weights, loadExperts files layerIdx division.numExperts division.hiddenSize division.intermediateSize = .ok weights ∧
      division.Stacked experts .gate weights.gateProj weights.gateScale ∧
      division.Stacked experts .up weights.upProj weights.upScale ∧
      division.Stacked experts .down weights.downProj weights.downScale := by
  have someFiles : files ≠ [] := by
    rintro rfl
    obtain ⟨file, -, -, found, -⟩ := stored.found .gate 0 some_ 0 someParts
    cases found
  have loaded : ∃ loaded, (List.range division.numExperts).mapM (fun expertIdx => do
      let gate ← WeightParts.loadProjection files layerIdx division.numaCount .gate division.intermediateSize division.hiddenSize expertIdx
      let up ← WeightParts.loadProjection files layerIdx division.numaCount .up division.intermediateSize division.hiddenSize expertIdx
      let down ← WeightParts.loadProjection files layerIdx division.numaCount .down division.hiddenSize division.intermediateSize expertIdx
      return ({ gate, up, down } : ExpertParts α)) = .ok loaded ∧
      List.Forall₂ (fun e expert => division.Joined experts .gate e expert.gate.1 expert.gate.2 ∧
        division.Joined experts .up e expert.up.1 expert.up.2 ∧ division.Joined experts .down e expert.down.1 expert.down.2)
        (List.range division.numExperts) loaded := by
    apply mapM_results
    intro e member
    have inside := List.mem_range.mp member
    obtain ⟨gate, gateLoaded, gateJoined⟩ := stored.loadProjection someParts .gate inside
    obtain ⟨up, upLoaded, upJoined⟩ := stored.loadProjection someParts .up inside
    obtain ⟨down, downLoaded, downJoined⟩ := stored.loadProjection someParts .down inside
    exact ⟨⟨gate, up, down⟩, bind_ok.mpr ⟨gate, gateLoaded, bind_ok.mpr ⟨up, upLoaded, bind_ok.mpr ⟨down, downLoaded, rfl⟩⟩⟩,
      gateJoined, upJoined, downJoined⟩
  obtain ⟨loaded, read, each⟩ := loaded
  obtain ⟨count, places⟩ := results_of_range each
  have stack : ∀ proj (select : ExpertParts α → Tensor α × Tensor α),
      (∀ e expert, (division.Joined experts .gate e expert.gate.1 expert.gate.2 ∧
        division.Joined experts .up e expert.up.1 expert.up.2 ∧ division.Joined experts .down e expert.down.1 expert.down.2) →
        division.Joined experts proj e (select expert).1 (select expert).2) →
      ∃ w s, Tensor.stack (loaded.map fun expert => (select expert).1) = some w ∧
        Tensor.stack (loaded.map fun expert => (select expert).2) = some s ∧ division.Stacked experts proj w s := by
    intro proj select own
    have joined : ∀ e < division.numExperts, ∃ both, (loaded.map select)[e]? = some both ∧
        division.Joined experts proj e both.1 both.2 := by
      intro e inside
      obtain ⟨expert, here, joined⟩ := places e inside
      exact ⟨select expert, by rw [List.getElem?_map, here, Option.map_some], own e expert joined⟩
    have selected := stack_joined experts proj (loaded.map select) (by rw [List.length_map, count]) some_ joined
    rw [List.map_map, List.map_map] at selected
    exact selected
  obtain ⟨gateProj, gateScale, gateStack, gateScaleStack, gate⟩ := stack .gate ExpertParts.gate fun _ _ own => own.1
  obtain ⟨upProj, upScale, upStack, upScaleStack, up⟩ := stack .up ExpertParts.up fun _ _ own => own.2.1
  obtain ⟨downProj, downScale, downStack, downScaleStack, down⟩ := stack .down ExpertParts.down fun _ _ own => own.2.2
  refine ⟨⟨gateProj, gateScale, upProj, upScale, downProj, downScale⟩, ?_, gate, up, down⟩
  rw [WeightParts.loadExperts, require_bind_ok]
  refine ⟨by simp [someFiles], bind_ok.mpr ⟨_, stored.countNuma some_, ?_⟩⟩
  rw [require_bind_ok]
  refine ⟨decide_eq_true (Nat.ne_of_gt someParts), bind_ok.mpr ⟨loaded, read, ?_⟩⟩
  rw [gateStack, gateScaleStack, upStack, upScaleStack, downStack, downScaleStack]
  rfl

/-- The divisions whose concatenation is the matrix. -/
def Whole (division : Division) : Prop :=
  division.numaCount = 1 ∨ division.hiddenSize ≤ 1 ∨ division.intermediateSize = 0

end Division

/-! ## Loads -/

end WeightParts

end KtKernel.Sft
