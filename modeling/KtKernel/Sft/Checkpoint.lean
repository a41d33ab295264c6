import Mathlib.Data.Char
import Mathlib.Data.List.Lex
import Mathlib.Data.List.Sort
import Mathlib.Logic.Function.Basic
import KtKernel.Data.Checks
import KtKernel.Data.Faults
import KtKernel.Data.Json
import KtKernel.Sft.WeightNames

namespace KtKernel.Sft.Checkpoint

open KtKernel.Data

/-! Checkpoints of the full expert weights.

`save_full_weight_checkpoint` and `load_full_weight_checkpoint` on one directory.  Every
step on the file system takes a verdict: it is done, it raises, or the process is killed. -/

def formatName : List Char := "kt_full_experts".toList

def versionNumber : Int := 1

def indexName : Name := "kt_full_experts.index.json".toList

def dtypeName : List Char := "BF16".toList

def bufferName : Projection → List Char
  | .gate => "gate_proj".toList
  | .up => "up_proj".toList
  | .down => "down_proj".toList

def projections : List Projection := [.gate, .up, .down]

/-! ## Tensors and wrappers -/

structure Tensor (T : Type) where
  shape : List Nat
  dtype : List Char
  data : T

structure Parameter (T : Type) where
  tensor : Tensor T
  onCpu : Bool
  isContiguous : Bool
  requiresGrad : Bool

structure Wrapper (T : Type) where
  layerIdx : Int
  fullWeightGrad : Bool
  expertNum : Nat
  intermediateSize : Nat
  hiddenSize : Nat
  backend : Option (Projection → Option (Parameter T))

/-- A file of safetensors. -/
structure Archive (T : Type) where
  tensors : List (List Char × Tensor T)
  metadata : List (List Char × List Char)

/-- The contents of files: JSON texts and archives, both read back as they were written. -/
structure Storage (C T : Type) where
  size : C → Nat
  dump : Json → C
  load : C → Option Json
  pack : Archive T → C
  unpack : C → Option (Archive T)
  encodes : Name → Bool
  encodes_ascii : ∀ name, (∀ char ∈ name, 0 < char.toNat ∧ char.toNat < 128) → encodes name = true
  load_dump : ∀ json, load (dump json) = some json
  unpack_pack : ∀ archive, unpack (pack archive) = some archive
  size_pack : ∀ archive, 0 < size (pack archive)

inductive Error where
  | negativeLayer (layer : Int)
  | duplicateLayer (layer : Int)
  | backend (layer : Int)
  | parameter (layer : Int) (projection : Projection)
  | shape (layer : Int) (projection : Projection)
  | dtype (layer : Int) (projection : Projection)
  | device (layer : Int) (projection : Projection)
  | contiguous (layer : Int) (projection : Projection)
  | gradients (layer : Int) (projection : Projection)
  | indexMissing
  | indexUnreadable
  | indexFormat
  | indexVersion
  | indexDtype
  | indexGeneration
  | indexLayers
  | layerKey (key : List Char)
  | layerSet
  | entry (layer : Int)
  | shardName (layer : Int)
  | shardMissing (layer : Int)
  | shardSize (layer : Int)
  | shardKeys (layer : Int)
  | shardMetadata (layer : Int)
  | fileNotFound
  | osError
  | valueError

namespace Wrapper

variable {T : Type}

def expectedShape (wrapper : Wrapper T) : Projection → List Nat
  | .gate => [wrapper.expertNum, wrapper.intermediateSize, wrapper.hiddenSize]
  | .up => [wrapper.expertNum, wrapper.intermediateSize, wrapper.hiddenSize]
  | .down => [wrapper.expertNum, wrapper.hiddenSize, wrapper.intermediateSize]

/-- `_backend_parameters`. -/
def backendParameters (wrapper : Wrapper T) : Except Error (List (Projection × Parameter T)) := do
  let backend ← expectSome wrapper.backend (.backend wrapper.layerIdx)
  projections.mapM fun projection => do
    let parameter ← expectSome (backend projection) (.parameter wrapper.layerIdx projection)
    pure (projection, parameter)

/-- `_validate_parameter_set`. -/
def validateParameter (wrapper : Wrapper T) (named : Projection × Parameter T) : Except Error Unit := do
  require (named.2.tensor.shape == wrapper.expectedShape named.1) (.shape wrapper.layerIdx named.1)
  require (named.2.tensor.dtype == dtypeName) (.dtype wrapper.layerIdx named.1)
  require named.2.onCpu (.device wrapper.layerIdx named.1)
  require named.2.isContiguous (.contiguous wrapper.layerIdx named.1)
  require named.2.requiresGrad (.gradients wrapper.layerIdx named.1)

/-- The parameters of a wrapper that passes its checks. -/
def parameters (wrapper : Wrapper T) : Except Error (List (Projection × Parameter T)) := do
  let named ← wrapper.backendParameters
  let _ ← named.mapM wrapper.validateParameter
  pure named

end Wrapper

def fullWeightWrappers {T : Type} (wrappers : List (Wrapper T)) : List (Wrapper T) :=
  wrappers.filter fun wrapper => wrapper.fullWeightGrad

/-! ## Names -/

/-- `uuid4().hex`. -/
structure Generation where
  text : List Char
  isHex : text.length = 32 ∧ text.all fun char => char.isDigit || decide ('a' ≤ char ∧ char ≤ 'f')

def shardName (generation : Generation) (layer : Nat) : Name :=
  "kt_full_experts-".toList ++ generation.text ++ "-layer-".toList ++ (decimal layer).leftpad 5 '0' ++
    ".safetensors".toList

def temporaryName (generation : Generation) (layer : Nat) : Name :=
  shardName generation layer ++ ".tmp".toList

def temporaryIndexName (generation : Generation) : Name :=
  indexName ++ ['.'] ++ generation.text ++ ".tmp".toList

/-- The text is the name of a file of the directory. -/
def isBasename (text : List Char) : Bool :=
  text ≠ [] && !text.contains '/'

/-! ## The directory -/

/-- A link is known by the content of the file it leads to, if it leads to one. -/
inductive Entry (C : Type) where
  | file (content : C)
  | directory
  | link (target : Option C)

/-- A missing directory has no entries either. -/
abbrev Directory (C : Type) := Name → Option (Entry C)

section

variable {C : Type}

def contentOf (files : Directory C) (name : Name) : Option C :=
  match files name with
  | some (.file content) => some content
  | some (.link target) => target
  | _ => none

/-- What becomes of a step: a step that writes may leave a part of its content. -/
inductive Verdict (C : Type) where
  | done
  | raises (left : Option C)
  | killed (left : Option C)

inductive Stop where
  | raised (error : Error)
  | killed

/-- `undo` has the verdicts of the removals of the error path; `published` says that the
replacement of the index took place. -/
structure Process (C : Type) where
  files : Directory C
  verdicts : List (Verdict C)
  undo : List (Verdict C)
  temporary : List Name
  created : List Name
  published : Bool

abbrev Program (C α : Type) := EStateM Stop (Process C) α

def raise {α : Type} (error : Error) : Program C α :=
  throw (.raised error)

def lift {α : Type} : Except Error α → Program C α
  | .ok value => pure value
  | .error error => raise error

def put (name : Name) (entry : Option (Entry C)) : Program C Unit :=
  modify fun process => { process with files := Function.update process.files name entry }

def nextVerdict : Program C (Verdict C) := fun process =>
  match process.verdicts with
  | [] => .ok (.killed none) process
  | verdict :: rest => .ok verdict { process with verdicts := rest }

def nextUndo : Program C (Verdict C) := fun process =>
  match process.undo with
  | [] => .ok (.killed none) process
  | verdict :: rest => .ok verdict { process with undo := rest }

def leave (name : Name) : Option C → Program C Unit
  | some left => put name (some (.file left))
  | none => pure ()

def createFile (name : Name) (content : C) : Program C Unit := do
  match ← nextVerdict with
  | .done => put name (some (.file content))
  | .raises left =>
      leave name left
      raise .osError
  | .killed left =>
      leave name left
      throw .killed

/-- A step that writes no file. -/
def passStep : Program C Unit := do
  match ← nextVerdict with
  | .done => pure ()
  | .raises _ => raise .osError
  | .killed _ => throw .killed

def moveEntry (source target : Name) : Program C Unit := fun process =>
  match process.files source, process.files target with
  | none, _ => .error (.raised .fileNotFound) process
  | _, some .directory => .error (.raised .osError) process
  | some entry, _ =>
      .ok () { process with files := Function.update (Function.update process.files source none) target (some entry) }

/-- `os.replace`. -/
def replace (source target : Name) : Program C Unit := do
  passStep
  moveEntry source target

def dropEntry (name : Name) : Program C Unit := fun process =>
  match process.files name with
  | none => .error (.raised .fileNotFound) process
  | some .directory => .error (.raised .osError) process
  | some _ => .ok () { process with files := Function.update process.files name none }

/-- `os.remove`, with the verdict given. -/
def removeWith (encodes : Name → Bool) (name : Name) (verdict : Verdict C) : Program C Unit :=
  if encodes name then
    match verdict with
    | .done => dropEntry name
    | .raises _ => raise .osError
    | .killed _ => throw .killed
  else
    raise .valueError

/-- The errors that are passed over. -/
def ignoring (ignored : Error → Bool) (program : Program C Unit) : Program C Unit := fun process =>
  match program process with
  | .error (.raised error) after => if ignored error then .ok () after else .error (.raised error) after
  | result => result

def isFileNotFound : Error → Bool
  | .fileNotFound => true
  | _ => false

/-- `FileNotFoundError` is an `OSError`. -/
def isOsError : Error → Bool
  | .fileNotFound => true
  | .osError => true
  | _ => false

end

/-! ## The index -/

section

variable {C T : Type} (storage : Storage C T)

abbrev Fields := List (List Char × Json)

def asObject : Json → Option Fields
  | .object fields => some fields
  | _ => none

def asText : Json → Option (List Char)
  | .string text => some text
  | _ => none

/-- An `int`, which a `bool` is. -/
def asPyInt : Json → Option Int
  | .int value => some value
  | .bool value => some (if value then 1 else 0)
  | _ => none

/-- `_read_index`, with the generation and the layers of the index. -/
def readIndex (files : Directory C) : Except Error (List Char × Fields) := do
  let content ← expectSome (contentOf files indexName) .indexMissing
  let index ← expectSome ((storage.load content).bind asObject) .indexUnreadable
  require ((Json.get "format".toList index).equalsText formatName) .indexFormat
  require ((Json.get "version".toList index).equalsInt versionNumber) .indexVersion
  require ((Json.get "dtype".toList index).equalsText dtypeName) .indexDtype
  let generation ← expectSome (asText (Json.get "generation".toList index)) .indexGeneration
  require (!generation.isEmpty) .indexGeneration
  let layers ← expectSome (asObject (Json.get "layers".toList index)) .indexLayers
  pure (generation, layers)

/-- `_safe_shard_path`. -/
def safeShardName (value : Json) : Option Name :=
  (asText value).bind fun text => if isBasename text then some text else none

def shapeEntry (shape : List Nat) : Json :=
  .array (shape.map fun (extent : Nat) => Json.int extent)

/-- The object lists the projections' shapes and nothing else; keys are sorted. -/
def shapesEntry (shape : Projection → List Nat) : Json :=
  .object [("down_proj".toList, shapeEntry (shape .down)), ("gate_proj".toList, shapeEntry (shape .gate)),
    ("up_proj".toList, shapeEntry (shape .up))]

def equalsShape (shape : List Nat) : Json → Bool
  | .array items => items.length == shape.length &&
      (items.zip shape).all fun pair => pair.1.equalsInt pair.2
  | _ => false

def equalsShapes (shape : Projection → List Nat) : Json → Bool
  | .object fields => fields.length == projections.length &&
      projections.all fun projection => equalsShape (shape projection) (Json.get (bufferName projection) fields)
  | _ => false

/-! ## Saving -/

/-- What the loop over the wrappers has gathered. -/
structure Progress where
  seen : List Int
  entries : List (Nat × Json)

def metadata (generation : Generation) (layer : Nat) : List (List Char × List Char) :=
  [("format".toList, formatName), ("version".toList, intText versionNumber), ("generation".toList, generation.text),
    ("layer_idx".toList, decimal layer)]

def archive (generation : Generation) (layer : Nat) (named : List (Projection × Parameter T)) : Archive T :=
  { tensors := named.map fun (projection, parameter) => (bufferName projection, parameter.tensor)
    metadata := metadata generation layer }

/-- The entry of a layer, with sorted keys. -/
def layerEntry (file : Name) (size : Nat) (shape : Projection → List Nat) : Json :=
  .object [("file".toList, .string file), ("shapes".toList, shapesEntry shape), ("size_bytes".toList, .int size)]

def shapeOf (named : List (Projection × Parameter T)) (projection : Projection) : List Nat :=
  (named.lookup projection).elim [] fun parameter => parameter.tensor.shape

def saveLayer (generation : Generation) (progress : Progress) (wrapper : Wrapper T) : Program C Progress := do
  lift (require (decide (0 ≤ wrapper.layerIdx)) (.negativeLayer wrapper.layerIdx))
  lift (require (!progress.seen.contains wrapper.layerIdx) (.duplicateLayer wrapper.layerIdx))
  let named ← lift wrapper.parameters
  let layer := wrapper.layerIdx.toNat
  let file := shardName generation layer
  modify fun process => { process with temporary := process.temporary ++ [temporaryName generation layer] }
  createFile (temporaryName generation layer) (storage.pack (archive generation layer named))
  replace (temporaryName generation layer) file
  modify fun process =>
    { process with
      temporary := process.temporary.erase (temporaryName generation layer)
      created := process.created ++ [file] }
  passStep
  let process ← get
  let content ← lift (expectSome (contentOf process.files file) .fileNotFound)
  pure
    { seen := wrapper.layerIdx :: progress.seen
      entries := progress.entries ++ [(layer, layerEntry file (storage.size content) (shapeOf named))] }

def layerFields (entries : List (Nat × Json)) : Fields :=
  (entries.map fun entry => (decimal entry.1, entry.2)).insertionSort fun left right => left.1 ≤ right.1

/-- The index, with sorted keys. -/
def indexFields (generation : Generation) (entries : List (Nat × Json)) : Fields :=
  [("dtype".toList, .string dtypeName), ("format".toList, .string formatName),
    ("generation".toList, .string generation.text), ("layers".toList, .object (layerFields entries)),
    ("version".toList, .int versionNumber)]

def indexOf (generation : Generation) (entries : List (Nat × Json)) : Json :=
  .object (indexFields generation entries)

def saveBody (generation : Generation) (wrappers : List (Wrapper T)) : Program C Unit := do
  let progress ← (wrappers.insertionSort fun left right => left.layerIdx ≤ right.layerIdx).foldlM
    (saveLayer storage generation) ⟨[], []⟩
  modify fun process => { process with temporary := process.temporary ++ [temporaryIndexName generation] }
  createFile (temporaryIndexName generation) (storage.dump (indexOf generation progress.entries))
  replace (temporaryIndexName generation) indexName
  modify fun process =>
    { process with
      temporary := process.temporary.erase (temporaryIndexName generation)
      published := true }

def removeUndone (name : Name) : Program C Unit :=
  ignoring isFileNotFound do
    removeWith storage.encodes name (← nextUndo)

/-- The error path of the source: its own files go, then the error is raised again. -/
def undoing (body : Program C Unit) : Program C Unit := fun process =>
  match body process with
  | .error (.raised error) after =>
      (do
        after.temporary.forM (removeUndone storage)
        after.created.forM (removeUndone storage)
        raise error) after
  | result => result

/-- The shard that an entry of the previous index names, if it is to be removed. -/
def supersededName (created : List Name) (entry : Json) : Option Name :=
  ((asObject entry).bind fun fields => safeShardName (Json.get "file".toList fields)).bind fun name =>
    if created.contains name then none else some name

def removeSuperseded (entry : Json) : Program C Unit := do
  let process ← get
  match supersededName process.created entry with
  | none => pure ()
  | some name =>
      ignoring isOsError do
        removeWith storage.encodes name (← nextVerdict)

def layersOf (index : Except Error (List Char × Fields)) : Fields :=
  match index with
  | .ok (_, layers) => layers
  | .error _ => []

/-- The layers of the index that the directory has; one that cannot be read is passed over. -/
def previousLayers : Program C Fields := do
  let process ← get
  match contentOf process.files indexName with
  | none => pure []
  | some _ =>
      match ← nextVerdict with
      | .done => pure (layersOf (readIndex storage process.files))
      | .raises _ => pure []
      | .killed _ => throw .killed

def saveFullWeightCheckpoint (wrappers : List (Wrapper T)) (rank : Nat) (generation : Generation) : Program C Bool := do
  let full := fullWeightWrappers wrappers
  if full.isEmpty then
    pure false
  else if rank ≠ 0 then
    pure false
  else
    passStep
    let previous ← previousLayers storage
    undoing storage (saveBody storage generation full)
    (previous.map Prod.snd).forM (removeSuperseded storage)
    pure true

/-! ## Loading -/

def archiveMetadata (archive : Archive T) (key : String) : Option (List Char) :=
  archive.metadata.lookup key.toList

def inspectTensor (layer : Int) (archive : Archive T) (shape : Projection → List Nat) (projection : Projection) :
    Except Error (Projection × Tensor T) := do
  let tensor ← expectSome (archive.tensors.lookup (bufferName projection)) (.shardKeys layer)
  require (tensor.shape == shape projection) (.shape layer projection)
  require (tensor.dtype == dtypeName) (.dtype layer projection)
  pure (projection, tensor)

/-- `_inspect_layer_shard`, with the tensors that are copied afterwards. -/
def inspectLayerShard (files : Directory C) (layer : Int) (entry : Json) (shape : Projection → List Nat)
    (generation : List Char) : Except Error (List (Projection × Tensor T)) := do
  let fields ← expectSome (asObject entry) (.entry layer)
  require (equalsShapes shape (Json.get "shapes".toList fields)) (.entry layer)
  let file ← expectSome (safeShardName (Json.get "file".toList fields)) (.shardName layer)
  let content ← expectSome (contentOf files file) (.shardMissing layer)
  let size ← expectSome (asPyInt (Json.get "size_bytes".toList fields)) (.shardSize layer)
  require (decide (0 < size)) (.shardSize layer)
  require (decide (size = storage.size content)) (.shardSize layer)
  let archive ← expectSome (storage.unpack content) (.shardMissing layer)
  require (archive.tensors.all (fun named => projections.any fun projection => bufferName projection == named.1) &&
    projections.all fun projection => (archive.tensors.lookup (bufferName projection)).isSome) (.shardKeys layer)
  require (archiveMetadata archive "format" == some formatName) (.shardMetadata layer)
  require (archiveMetadata archive "version" == some (intText versionNumber)) (.shardMetadata layer)
  require (archiveMetadata archive "generation" == some generation) (.shardMetadata layer)
  require (archiveMetadata archive "layer_idx" == some (intText layer)) (.shardMetadata layer)
  projections.mapM (inspectTensor layer archive shape)

/-- The layer that a key of the index names: `int` of it, when `str` gives the key back. -/
def layerOfKey (key : List Char) : Option Nat :=
  if decimal (intOf key) = key then some (intOf key) else none

/-- What a load copies into the parameters of a wrapper. -/
abbrev Restored (T : Type) := Int × List (Projection × Tensor T)

def loadLayer (files : Directory C) (generation : List Char) (layers : Fields) (wrapper : Wrapper T) :
    Except Error (Restored T) := do
  let tensors ← inspectLayerShard storage files wrapper.layerIdx (Json.get (intText wrapper.layerIdx) layers)
    wrapper.expectedShape generation
  pure (wrapper.layerIdx, tensors)

def registerWrapper (seen : List Int) (wrapper : Wrapper T) : Except Error (List Int) := do
  require (!seen.contains wrapper.layerIdx) (.duplicateLayer wrapper.layerIdx)
  let _ ← wrapper.parameters
  pure (wrapper.layerIdx :: seen)

def registerKey (seen : List Int) (entry : List Char × Json) : Except Error (List Int) := do
  let layer ← expectSome (layerOfKey entry.1) (.layerKey entry.1)
  require (!seen.contains (layer : Int)) (.layerKey entry.1)
  pure (layer :: seen)

def loadFullWeightCheckpoint (files : Directory C) (wrappers : List (Wrapper T)) : Except Error (List (Restored T)) := do
  let full := fullWeightWrappers wrappers
  let (generation, layers) ← readIndex storage files
  let expected ← full.foldlM registerWrapper []
  let saved ← layers.foldlM registerKey []
  require (saved.all (expected.contains ·) && expected.all (saved.contains ·)) .layerSet
  full.mapM (loadLayer storage files generation layers)

end

end KtKernel.Sft.Checkpoint
