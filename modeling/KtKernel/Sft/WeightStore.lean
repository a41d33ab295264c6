import KtKernel.Data.Checks
import KtKernel.Data.Faults
import KtKernel.Data.Machine
import KtKernel.Data.PathTree
import KtKernel.Sft.Ephemeral
import KtKernel.Sft.WeightManifest

namespace KtKernel.Sft.WeightStore

open KtKernel.Data
open Ephemeral (Call Format FileRecord LayerRecord RootStat manifestName temporaryName validateOwnedRoot)
open WeightManifest (asArray asObject asText)

/-! `EphemeralKTWeightStore` on the tree of a published root.

Paths are relative to the root.  Before each step a signal may arrive, whose handler
runs a cleanup and then returns or raises; inside a cleanup the handler finds the store
closed. -/

inductive Signal where
  | none
  | returns
  | exits
deriving DecidableEq, Repr

inductive Stop where
  | raised
  | exited
deriving DecidableEq, Repr

/-- `fields` is the loaded manifest but for the records of its layers, `clock` counts the
points where a signal may arrive.  `deleted` and `cleaned` are only observed: the files
deleted so far, and whether some cleanup has run to its end. -/
structure World (C : Type) where
  tree : PathTree C
  fields : List (List Char × Json)
  layers : List LayerRecord
  closed : Bool
  clock : Nat
  deleted : List (List Name)
  cleaned : Bool

def ready : List Char := "ready".toList

def consuming : List Char := "consuming".toList

def consumed : List Char := "consumed".toList

def layerDir (layer : LayerRecord) : List Name :=
  [layerName layer.index]

def numaDir (layer : LayerRecord) (numa : Nat) : List Name :=
  [layerName layer.index, numaName numa]

def paths (layer : LayerRecord) : List (List Name) :=
  layer.files.map FileRecord.path

def listed (layers : List LayerRecord) : List (List Name) :=
  layers.flatMap paths

/-- A path that is absolute is none. -/
def fileRecord (item : Json) : Option FileRecord := do
  let fields ← asObject item
  let relative ← asText (Json.get "path".toList fields)
  let size ← (Json.get "size_bytes".toList fields).asInt
  if relative.head? = some '/' then none else some ⟨pathParts relative, size.toNat⟩

def layerRecord (item : Json) : Option LayerRecord := do
  let fields ← asObject item
  let index ← (Json.get "index".toList fields).asInt
  let numaCount ← (Json.get "numa_count".toList fields).asInt
  let state ← asText (Json.get "state".toList fields)
  let items ← asArray (Json.get "files".toList fields)
  let files ← items.mapM fileRecord
  let bytes ← (Json.get "bytes".toList fields).asInt
  pure ⟨index, numaCount.toNat, state, files, bytes.toNat⟩

inductive Error where
  | manifestFile
  | manifestText
  | root (error : Ephemeral.Error)
  | metadata (key : List Char)
  | layers
  | layerSet
  | partialConsumption
  | noFiles
  | duplicate (path : List Name)
  | outsideLayer (path : List Name)
  | missingFile (path : List Name)
  | fileSize (path : List Name)
  | fileSet
  | layerBytes
  | rootEntries
deriving DecidableEq

section

variable {C : Type} (format : Format C)

/-! ## The checks of a layer -/

/-- What the manifest says of a path. -/
def checkPath (layer : LayerRecord) (seen : List (List Name)) (file : FileRecord) : Except Error Unit := do
  require (!seen.contains file.path) (.duplicate file.path)
  require (!file.path.contains "..".toList && file.path.head? == some (layerName layer.index))
    (.outsideLayer file.path)

def checkPresent (tree : PathTree C) (file : FileRecord) : Except Error Unit :=
  require (tree.isRegular file.path) (.missingFile file.path)

def checkSize (tree : PathTree C) (file : FileRecord) : Except Error Unit :=
  match tree.find file.path with
  | some (.file content) =>
      require (decide (0 < file.sizeBytes) && format.size content == file.sizeBytes) (.fileSize file.path)
  | _ => .error (.fileSize file.path)

def checkFileSet (tree : PathTree C) (layer : LayerRecord) : Except Error Unit := do
  require (Listing.sameNames ((tree.walk (layerDir layer)).map posix) ((paths layer).map posix)) .fileSet
  require ((layer.files.map FileRecord.sizeBytes).sum == layer.bytes) .layerBytes

def validateManifestLayer (tree : PathTree C) (layer : LayerRecord) : Except Error Unit := do
  require (!layer.files.isEmpty) .noFiles
  let _ ← layer.files.foldlM (fun (seen : List (List Name)) file => do
    checkPath layer seen file
    checkPresent tree file
    checkSize format tree file
    pure (file.path :: seen)) []
  checkFileSet tree layer

/-! ## Opening -/

def expectedMetadata (call : Call) : List (List Char × Json) :=
  [("schema_version".toList, .int Ephemeral.schemaVersion), ("state".toList, .string ready),
    ("owner_uid".toList, .int call.uid), ("expert_weight_format".toList, .string "int8".toList),
    ("backend".toList, .string "AMXINT8".toList), ("threadpool_count".toList, .int call.numaCount),
    ("expert_num".toList, .int call.expertNum), ("hidden_size".toList, .int call.hiddenSize),
    ("intermediate_size".toList, .int call.intermediateSize)]

/-- `==` of a field with an expected integer or text. -/
def agrees : Json → Json → Bool
  | .int expected, actual => actual.equalsInt expected
  | .string expected, actual => actual.equalsText expected
  | _, _ => false

def checkMetadata (call : Call) (fields : List (List Char × Json)) : Except Error Unit :=
  (expectedMetadata call).forM fun expected =>
    require (agrees expected.2 (Json.get expected.1 fields)) (.metadata expected.1)

/-- What the root itself holds. -/
def rootEntries (node : Node C) : List Name :=
  match node with
  | .directory entries => Listing.names entries
  | _ => []

def openStore (call : Call) (root : RootStat) (node : Option (Node C)) : Except Error (World C) := do
  let entry ← expectSome node .manifestFile
  let tree := entry.paths []
  let content ← expectSome (match tree.find [manifestName] with
    | some (.file content) => some content
    | _ => none) .manifestFile
  let fields ← expectSome ((format.load content).bind asObject) .manifestText
  let runId := (asText (Json.get "run_id".toList fields)).getD []
  match validateOwnedRoot runId call.uid false root node with
  | .error error => .error (.root error)
  | .ok () => pure ()
  checkMetadata call fields
  let items ← expectSome (asArray (Json.get "layers".toList fields)) .layers
  let layers ← expectSome (items.mapM layerRecord) .layers
  let expected := Ephemeral.uniqueLayers call.layerIndices
  require ((layers.map LayerRecord.index).insertionSort (· ≤ ·) == expected) .layerSet
  layers.forM fun layer => do
    require (layer.state == ready) .partialConsumption
    validateManifestLayer format tree layer
  require (Listing.sameNames (rootEntries entry) (manifestName :: expected.map layerName)) .rootEntries
  pure
    { tree
      fields
      layers
      closed := false
      clock := 0
      deleted := []
      cleaned := false }

/-! ## Steps -/

abbrev Program (C α : Type) := EStateM Stop (World C) α

variable (signals : Nat → Signal)

def raise : Program C α :=
  throw .raised

/-- What arrives before the next step. -/
def tick : Program C Signal := do
  let world ← get
  set { world with clock := world.clock + 1 }
  pure (signals world.clock)

/-- A check that raises. -/
def need (holds : World C → Bool) : Program C Unit := do
  let world ← get
  if holds world then pure () else raise

def unlinkable (path : List Name) (world : World C) : Bool :=
  (world.tree.find path).isSome && !world.tree.isDirectory path

def dropFile (path : List Name) (world : World C) : World C :=
  { world with
    tree := world.tree.remove path
    deleted := path :: world.deleted }

def unlink (path : List Name) : Program C Unit := do
  need (unlinkable path)
  modify (dropFile path)

/-- Whether a directory can be removed. -/
def removable (path : List Name) (world : World C) : Bool :=
  world.tree.isDirectory path && world.tree.isEmpty path

def dropDirectory (path : List Name) (world : World C) : World C :=
  { world with tree := world.tree.remove path }

def rmdir (path : List Name) : Program C Unit := do
  need (removable path)
  modify (dropDirectory path)

/-- `try: rmdir except OSError: pass`. -/
def tryRmdir (path : List Name) : Program C Unit :=
  modify fun world => if removable path world then dropDirectory path world else world

/-! ## The cleanup -/

/-- A point inside a cleanup: the handler's own cleanup returns at once. -/
def quietPoint : Program C Unit := do
  let signal ← tick signals
  match signal with
  | .exits => throw .exited
  | _ => pure ()

def cleanupFile (path : List Name) : Program C Unit := do
  quietPoint signals
  let world ← get
  if world.tree.isRegular path then do
    quietPoint signals
    unlink path
  else pure ()

def cleanupDir (path : List Name) : Program C Unit := do
  quietPoint signals
  let world ← get
  if world.tree.isDirectory path then do
    quietPoint signals
    tryRmdir path
  else pure ()

def cleanupLayer (layer : LayerRecord) : Program C Unit :=
  if layer.state = consumed then pure ()
  else do
    layer.files.forM fun file =>
      if file.path.contains "..".toList then pure () else cleanupFile signals file.path
    (List.range layer.numaCount).reverse.forM fun numa => cleanupDir signals (numaDir layer numa)
    cleanupDir signals (layerDir layer)

variable (pid : Nat)

def cleanup : Program C Unit := do
  let world ← get
  if world.closed then pure ()
  else do
    set { world with closed := true }
    world.layers.forM (cleanupLayer signals)
    [[manifestName], [temporaryName pid]].forM (cleanupFile signals)
    quietPoint signals
    tryRmdir []
    modify fun world => { world with cleaned := true }

/-! ## The other calls -/

/-- A point outside a cleanup. -/
def point : Program C Unit := do
  let signal ← tick signals
  match signal with
  | .none => pure ()
  | .returns => cleanup signals pid
  | .exits => do
      cleanup signals pid
      throw .exited

/-- The manifest in memory, with the records as they stand. -/
def currentManifest (world : World C) : Json :=
  .object (world.fields.map fun field =>
    if field.1 = "layers".toList then (field.1, .array (world.layers.map LayerRecord.toJson)) else field)

def temporaryPath : List Name :=
  [temporaryName pid]

/-- Opening fails over a temporary that exists, and in a root that is gone. -/
def openTemporary : Program C Unit := do
  need fun world => (world.tree.find (temporaryPath pid)).isNone && (world.tree.find []).isSome
  modify fun world =>
    { world with tree := world.tree.put (temporaryPath pid) (.file (format.dump (currentManifest world))) }

def replaceManifest : Program C Unit := do
  let world ← get
  match world.tree.find (temporaryPath pid) with
  | some entry => set { world with
      tree := (world.tree.remove (temporaryPath pid)).put [manifestName] entry }
  | none => raise

/-- The temporary holds its text from its opening on: nothing reads it before it is
renamed. -/
def atomicWriteManifest : Program C Unit := do
  point signals pid
  openTemporary format pid
  point signals pid
  point signals pid
  replaceManifest pid

def setState (index : Int) (state : List Char) : Program C Unit :=
  modify fun world => { world with
    layers := world.layers.map fun layer => if layer.index = index then { layer with state := state } else layer }

def checked (check : PathTree C → Except Error Unit) : Program C Unit := do
  point signals pid
  need fun world => (check world.tree).isOk

def validateFile (layer : LayerRecord) (seen : List (List Name)) (file : FileRecord) :
    Program C (List (List Name)) := do
  need fun _ => (checkPath layer seen file).isOk
  checked signals pid fun tree => checkPresent tree file
  checked signals pid fun tree => checkSize format tree file
  pure (file.path :: seen)

/-- `_validate_manifest_layer` while signals may arrive. -/
def validateLayer (layer : LayerRecord) : Program C Unit := do
  need fun _ => !layer.files.isEmpty
  let _ ← layer.files.foldlM (validateFile format signals pid layer) []
  checked signals pid fun tree => checkFileSet tree layer

def deleteFile (path : List Name) : Program C Unit := do
  point signals pid
  need fun world => world.tree.isRegular path
  point signals pid
  unlink path

def deleteDir (path : List Name) : Program C Unit := do
  point signals pid
  rmdir path

def consumeLayer (layerIdx : Int) : Program C Unit := do
  need fun world => !world.closed
  let world ← get
  match world.layers.find? fun layer => layer.index = layerIdx with
  | none => raise
  | some layer => do
      need fun _ => layer.state == ready
      validateLayer format signals pid layer
      setState layerIdx consuming
      atomicWriteManifest format signals pid
      layer.files.forM fun file => deleteFile signals pid file.path
      (List.range layer.numaCount).reverse.forM fun numa => deleteDir signals pid (numaDir layer numa)
      deleteDir signals pid (layerDir layer)
      setState layerIdx consumed
      atomicWriteManifest format signals pid

def finish : Program C Unit := do
  need fun world => world.layers.all fun layer => layer.state == consumed
  point signals pid
  unlink [manifestName]
  point signals pid
  rmdir []
  modify fun world => { world with closed := true }

/-! ## Runs -/

inductive Action where
  | consumeLayer (layerIdx : Int)
  | finish
  | cleanup
deriving DecidableEq, Repr

def Action.program : Action → Program C Unit
  | .consumeLayer layerIdx => WeightStore.consumeLayer format signals pid layerIdx
  | .finish => WeightStore.finish signals pid
  | .cleanup => WeightStore.cleanup signals pid

/-- Whether the call returns, and what it leaves. -/
def perform (world : World C) (action : Action) : Bool × World C :=
  match action.program format signals pid world with
  | .ok _ after => (true, after)
  | .error _ after => (false, after)

def Opened (world : World C) : Prop :=
  ∃ faults call root shm published name,
    (∀ node, shm.staging = some node → node.WellFormed) ∧
      Ephemeral.publish format faults call shm = (published, .ok name) ∧
      openStore format call root published.ready = .ok world

def machine : Machine (World C) Action where
  initial world := Opened format world
  step world action := some (perform format signals pid world action).2

end

end KtKernel.Sft.WeightStore
