import Mathlib.Data.List.Dedup
import Mathlib.Data.List.Sort
import KtKernel.Data.Checks
import KtKernel.Data.Json
import KtKernel.Sft.WeightNames

namespace KtKernel.Sft.WeightManifest

open KtKernel.Data

/-! `validate_persistent_int8_weights`: the checks of a tree of pre-quantised INT8
weights against its manifest. -/

def manifestName : Name := "kt-weight-manifest.json".toList

def legacyManifestName : Name := "kt-ephemeral-manifest.json".toList

def int8WeightLayout : List Char := "kt-int8-n32-k64-vnni-v1".toList

def isSha256 (text : List Char) : Bool :=
  text.length == 64 && text.all fun char => char.isDigit || decide ('a' ≤ char ∧ char ≤ 'f')

/-- The contents of files: what the checks read of them. -/
structure Format (C : Type) where
  size : C → Nat
  load : C → Option Json
  sha256 : C → List Char
  isReadable : C → Bool
  isDigest : ∀ content, isSha256 (sha256 content) = true

structure Root (C : Type) where
  isAbsolute : Bool
  node : Option (Node C)
  wellFormed : ∀ directory, node = some directory → directory.WellFormed

structure Call where
  layerIndices : List Int
  numaCount : Int
  expertNum : Int
  hiddenSize : Int
  intermediateSize : Int
  verifyHashes : Option Bool

inductive Error where
  | positive (name : List Char)
  | intermediateSize
  | layerIndices
  | root
  | manifestCount
  | manifestFile
  | manifestText
  | schemaVersion
  | schemaName
  | metadata (key : List Char)
  | backend
  | layout
  | layers
  | layerIndex
  | duplicateLayers
  | layerSet
  | layerState (layer : Int)
  | layerNuma (layer : Int)
  | layerDirectory (layer : Int)
  | outsideNuma (layer : Int)
  | numaDirectories (layer : Int)
  | nonRegular (layer : Int) (name : Name)
  | fileCount (layer : Int)
  | fileObject (layer : Int)
  | path (layer : Int)
  | unsafePath (path : List Char)
  | depth (path : List Char)
  | outsideLayer (path : List Char)
  | numaPath (path : List Char)
  | filename (path : List Char)
  | expertRange (path : List Char)
  | duplicateIdentity (path : List Char)
  | missingFile (path : List Char)
  | unreadable (path : List Char)
  | sizeContract (path : List Char)
  | fileSize (path : List Char)
  | digest (path : List Char)
  | inventory (layer : Int)
  | fileSet (layer : Int)
  | layerBytes (layer : Int)
  | totalBytes
  | rootSymlinks
  | rootEntries

/-! ## Reading the manifest -/

def positiveInt (value : Json) : Option Nat :=
  value.asInt.bind fun value => if 0 < value then some value.toNat else none

def nonnegativeInt (value : Json) : Option Int :=
  value.asInt.bind fun value => if 0 ≤ value then some value else none

def asObject : Json → Option (List (List Char × Json))
  | .object fields => some fields
  | _ => none

def asArray : Json → Option (List Json)
  | .array items => some items
  | _ => none

def asText : Json → Option (List Char)
  | .string text => some text
  | _ => none

def onlyItem : List α → Option α
  | [item] => some item
  | _ => none

def asTriple : List Name → Option (Name × Name × Name)
  | [first, second, third] => some (first, second, third)
  | _ => none

def takeSection (text : List Char) : Option (Section × List Char) :=
  [Section.quant, .scale].findSome? fun kind => (after kind.text text).map (kind, ·)

/-- `_KT_FILE_RE`: the projection, the texts of the expert and the byte count, and
the kind. -/
def matchFile (name : Name) : Option (Projection × List Char × List Char × Section) := do
  let rest ← after "INT8_".toList name
  let (projection, rest) ← takeProjection rest
  let rest ← after "_".toList rest
  let (expert, rest) ← takeDigits rest
  let rest ← after "_".toList rest
  let (bytes, rest) ← takeDigits rest
  let rest ← after "Byte_".toList rest
  let (kind, rest) ← takeSection rest
  if rest = "_.kt".toList then some (projection, expert, bytes, kind) else none

def matchNuma (name : Name) : Option Nat := do
  let rest ← after "_numa_".toList name
  let (digits, rest) ← takeDigits rest
  if rest = [] then some (intOf digits) else none

def projectionSize (hiddenSize intermediatePerNuma : Nat) : Projection → Section → Nat
  | _, .quant => hiddenSize * intermediatePerNuma
  | .down, .scale => hiddenSize * 4
  | _, .scale => intermediatePerNuma * 4

section

variable {C : Type} (format : Format C)

/-! ## A layer -/

/-- The numbers that a layer is checked against. -/
structure Context where
  schemaVersion : Int
  numaCount : Nat
  expertNum : Nat
  hiddenSize : Nat
  intermediateSize : Nat
  verifyHashes : Bool

/-- What the loop over the listed files has gathered. -/
structure Seen where
  paths : List (List Char)
  identities : List Identity
  bytes : Nat

def collectFile (layer : Int) (numa : Nat) (entry : Name × Node C) : Except Error (List Char × C) :=
  match entry.2 with
  | .file content => .ok (posix [layerName layer, numaName numa, entry.1], content)
  | _ => .error (.nonRegular layer entry.1)

/-- The files of a part, by their paths. -/
def collectNuma (layer : Int) (entries : Listing C) (numa : Nat) : Except Error (List (List Char × C)) :=
  match entries.find (numaName numa) with
  | some (.directory files) => files.mapM (collectFile layer numa)
  | _ => .error (.numaDirectories layer)

def validateFile (context : Context) (layer : Int) (actual : List (List Char × C)) (seen : Seen) (item : Json) :
    Except Error Seen := do
  let fields ← expectSome (asObject item) (.fileObject layer)
  let relative ← expectSome (asText (Json.get "path".toList fields)) (.path layer)
  require (!seen.paths.contains relative) (.path layer)
  require (relative.head? != some '/' && !(pathParts relative).contains "..".toList) (.unsafePath relative)
  let (layerPart, numaPart, name) ← expectSome (asTriple (pathParts relative)) (.depth relative)
  require (layerPart == layerName layer) (.outsideLayer relative)
  let numa ← expectSome (matchNuma numaPart) (.numaPath relative)
  require (decide (numa < context.numaCount)) (.numaPath relative)
  let (projection, expert, bytes, kind) ← expectSome (matchFile name) (.filename relative)
  require (decide (intOf expert < context.expertNum)) (.expertRange relative)
  let identity := (numa, projection, intOf expert, kind)
  require (!seen.identities.contains identity) (.duplicateIdentity relative)
  let content ← expectSome (actual.lookup relative) (.missingFile relative)
  require (format.isReadable content) (.unreadable relative)
  let declared ← expectSome (positiveInt (Json.get "size_bytes".toList fields)) (.positive relative)
  let expected := projectionSize context.hiddenSize (context.intermediateSize / context.numaCount) projection kind
  require (intOf bytes == expected && declared == expected) (.sizeContract relative)
  require (format.size content == declared) (.fileSize relative)
  let digest := asText (Json.get "sha256".toList fields)
  require (decide (context.schemaVersion < 2) || digest.any isSha256) (.digest relative)
  require (!context.verifyHashes || digest == some (format.sha256 content)) (.digest relative)
  pure
    { paths := relative :: seen.paths
      identities := identity :: seen.identities
      bytes := seen.bytes + format.size content }

def isDirectory : Node C → Bool
  | .directory _ => true
  | _ => false

def directoryEntries : Node C → Option (Listing C)
  | .directory entries => some entries
  | _ => none

def fileContent : Node C → Option C
  | .file content => some content
  | _ => none

/-- The numbers of files and bytes of a layer. -/
def validateLayer (context : Context) (root : Listing C) (item : Json) : Except Error (Nat × Nat) := do
  let fields ← expectSome (asObject item) .layers
  let layer ← expectSome (nonnegativeInt (Json.get "index".toList fields)) .layerIndex
  require ((Json.get "state".toList fields).equalsText "ready".toList) (.layerState layer)
  let numaCount ← expectSome (positiveInt (Json.get "numa_count".toList fields)) (.layerNuma layer)
  require (numaCount == context.numaCount) (.layerNuma layer)
  let entries ← expectSome ((root.find (layerName layer)).bind directoryEntries) (.layerDirectory layer)
  require (entries.all fun entry => isDirectory entry.2) (.outsideNuma layer)
  require (Listing.sameNames entries.names ((List.range context.numaCount).map numaName)) (.numaDirectories layer)
  let parts ← (List.range context.numaCount).mapM (collectNuma layer entries)
  let actual := parts.flatten
  let files ← expectSome (asArray (Json.get "files".toList fields)) (.fileCount layer)
  require (files.length == context.numaCount * context.expertNum * 3 * 2) (.fileCount layer)
  let seen ← files.foldlM (validateFile format context layer actual) ⟨[], [], 0⟩
  let identities := expectedIdentities context.numaCount context.expertNum
  require (identities.all (seen.identities.contains ·) && seen.identities.all (identities.contains ·))
    (.inventory layer)
  require (Listing.sameNames (actual.map Prod.fst) seen.paths) (.fileSet layer)
  let bytes ← expectSome (positiveInt (Json.get "bytes".toList fields)) (.layerBytes layer)
  require (seen.bytes == bytes) (.layerBytes layer)
  pure (files.length, seen.bytes)

/-! ## The tree -/

/-- The file that a name or a link of a root names, if it is no link. -/
def loadManifest (entries : Listing C) : Except Error (Name × List (List Char × Json) × Int) := do
  let candidates := [manifestName, legacyManifestName].filter fun name => (entries.find name).isSome
  let name ← expectSome (onlyItem candidates) .manifestCount
  let content ← expectSome ((entries.find name).bind fileContent) .manifestFile
  let manifest ← expectSome ((format.load content).bind asObject) .manifestText
  let version ← expectSome (Json.get "schema_version".toList manifest).asInt .schemaVersion
  require (version == 1 || version == 2) .schemaVersion
  require (version != 1 || name == legacyManifestName) .schemaName
  require (version != 2 || name == manifestName) .schemaName
  pure (name, manifest, version)

def isSpace (char : Char) : Bool :=
  [0x9, 0xa, 0xb, 0xc, 0xd, 0x1c, 0x1d, 0x1e, 0x1f, 0x20, 0x85, 0xa0, 0x1680, 0x2000, 0x2001, 0x2002, 0x2003, 0x2004,
    0x2005, 0x2006, 0x2007, 0x2008, 0x2009, 0x200a, 0x2028, 0x2029, 0x202f, 0x205f, 0x3000].contains char.toNat

/-- `strip().lower()`, as far as texts of small ASCII letters can tell. -/
def normalized (text : List Char) : List Char :=
  (((text.dropWhile isSpace).reverse.dropWhile isSpace).reverse).map Char.toLower

/-- The texts of a backend field; `str` of anything but a string is none of them. -/
def backendIs (allowed : List (List Char)) : Json → Bool
  | .string text => allowed.contains (normalized text)
  | _ => false

def backendLayoutOk (manifest : List (List Char × Json)) (version : Int) : Except Error Unit :=
  if version = 1 then
    require (backendIs ["amxint8".toList, "int8".toList] (Json.get "backend".toList manifest)) .backend
  else do
    require ((Json.get "layout".toList manifest).equalsText int8WeightLayout) .layout
    require ((manifest.lookup "backend".toList).all (backendIs ["auto".toList, "int8".toList])) .backend

def layerIndexOf (item : Json) : Option Int :=
  (asObject item).bind fun fields => nonnegativeInt (Json.get "index".toList fields)

def sortedSet (indices : List Int) : List Int :=
  indices.dedup.insertionSort (· ≤ ·)

/-- The schema version and the numbers of files and bytes of an accepted tree. -/
def validate (call : Call) (root : Root C) : Except Error (Int × Nat × Nat) := do
  require (decide (0 < call.numaCount)) (.positive "threadpool_count".toList)
  require (decide (0 < call.expertNum)) (.positive "expert_num".toList)
  require (decide (0 < call.hiddenSize)) (.positive "hidden_size".toList)
  require (decide (0 < call.intermediateSize)) (.positive "intermediate_size".toList)
  require (decide (call.intermediateSize % call.numaCount = 0)) .intermediateSize
  let layers := sortedSet call.layerIndices
  require (!layers.isEmpty && layers.all fun layer => decide (0 ≤ layer)) .layerIndices
  require root.isAbsolute .root
  let entries ← expectSome (root.node.bind directoryEntries) .root
  let (name, manifest, version) ← loadManifest format entries
  require ((Json.get "state".toList manifest).equalsText "ready".toList) (.metadata "state".toList)
  require ((Json.get "expert_weight_format".toList manifest).equalsText "int8".toList)
    (.metadata "expert_weight_format".toList)
  require ((Json.get "threadpool_count".toList manifest).equalsInt call.numaCount)
    (.metadata "threadpool_count".toList)
  require ((Json.get "expert_num".toList manifest).equalsInt call.expertNum) (.metadata "expert_num".toList)
  require ((Json.get "hidden_size".toList manifest).equalsInt call.hiddenSize) (.metadata "hidden_size".toList)
  require ((Json.get "intermediate_size".toList manifest).equalsInt call.intermediateSize)
    (.metadata "intermediate_size".toList)
  backendLayoutOk manifest version
  let items ← expectSome (asArray (Json.get "layers".toList manifest)) .layers
  let indices ← items.mapM fun item => expectSome (layerIndexOf item) .layerIndex
  require (decide indices.Nodup) .duplicateLayers
  require (indices.insertionSort (· ≤ ·) == layers) .layerSet
  let context : Context :=
    { schemaVersion := version
      numaCount := call.numaCount.toNat
      expertNum := call.expertNum.toNat
      hiddenSize := call.hiddenSize.toNat
      intermediateSize := call.intermediateSize.toNat
      verifyHashes := call.verifyHashes.getD (decide (2 ≤ version)) }
  let counts ← items.mapM (validateLayer format context entries)
  let bytes ← expectSome (positiveInt (Json.get "bytes".toList manifest)) .totalBytes
  require ((counts.map Prod.snd).sum == bytes) .totalBytes
  require (entries.all fun entry => !entry.2.isSymlink) .rootSymlinks
  require (Listing.sameNames entries.names (name :: layers.map layerName)) .rootEntries
  pure (version, (counts.map Prod.fst).sum, (counts.map Prod.snd).sum)

/-! ## What an accepted entry says -/

/-- An entry of the listed files, taken apart. -/
structure Entry (C : Type) where
  fields : List (List Char × Json)
  relative : List Char
  numaPart : Name
  name : Name
  numa : Nat
  projection : Projection
  expert : List Char
  bytes : List Char
  kind : Section
  content : C

def Entry.identity (entry : Entry C) : Identity :=
  (entry.numa, entry.projection, intOf entry.expert, entry.kind)

def Context.size (context : Context) (projection : Projection) (kind : Section) : Nat :=
  projectionSize context.hiddenSize (context.intermediateSize / context.numaCount) projection kind

structure Listed (context : Context) (layer : Int) (actual : List (List Char × C)) (item : Json) (entry : Entry C) :
    Prop where
  object : asObject item = some entry.fields
  path : asText (Json.get "path".toList entry.fields) = some entry.relative
  isRelative : entry.relative.head? ≠ some '/' ∧ "..".toList ∉ pathParts entry.relative
  parts : pathParts entry.relative = [layerName layer, entry.numaPart, entry.name]
  numa : matchNuma entry.numaPart = some entry.numa
  numaBound : entry.numa < context.numaCount
  filename : matchFile entry.name = some (entry.projection, entry.expert, entry.bytes, entry.kind)
  expertBound : intOf entry.expert < context.expertNum
  found : actual.lookup entry.relative = some entry.content
  readable : format.isReadable entry.content = true
  declared : positiveInt (Json.get "size_bytes".toList entry.fields) = some (format.size entry.content)
  encoded : intOf entry.bytes = context.size entry.projection entry.kind
  size : format.size entry.content = context.size entry.projection entry.kind
  digest : context.schemaVersion < 2 ∨ (asText (Json.get "sha256".toList entry.fields)).any isSha256 = true
  hash : context.verifyHashes = true →
    asText (Json.get "sha256".toList entry.fields) = some (format.sha256 entry.content)

def Seen.add (seen : Seen) (entry : Entry C) : Seen :=
  { paths := entry.relative :: seen.paths
    identities := entry.identity :: seen.identities
    bytes := seen.bytes + format.size entry.content }

variable {format} {context : Context} {layer : Int} {actual : List (List Char × C)}

theorem asTriple_eq_some {parts : List Name} : asTriple parts = some (first, second, third) ↔ parts = [first, second, third] := by
  constructor
  · intro same
    rw [asTriple.eq_def] at same
    split at same
    · obtain ⟨rfl, rfl, rfl⟩ : _ ∧ _ ∧ _ := by simpa using same
      rfl
    · cases same
  · rintro rfl
    rfl

theorem validateFile_ok {seen next : Seen} {item : Json} :
    validateFile format context layer actual seen item = .ok next ↔
      ∃ entry, Listed format context layer actual item entry ∧ entry.relative ∉ seen.paths ∧
        entry.identity ∉ seen.identities ∧ next = seen.add format entry := by
  simp only [validateFile, require_bind_ok, expectSome_bind_ok, pure_ok, Bool.not_eq_true', Bool.and_eq_true,
    List.contains_eq_mem, decide_eq_false_iff_not, decide_eq_true_eq, beq_iff_eq, bne_iff_ne, Bool.or_eq_true]
  constructor
  · rintro ⟨fields, object, relative, path, fresh, isRelative, ⟨layerPart, numaPart, name⟩, parts, outside, numa, isNuma,
      numaBound, ⟨projection, expert, bytes, kind⟩, filename, expertBound, unseen, content, found, readable, declared,
      isDeclared, ⟨encoded, expected⟩, size, digest, hash, rfl⟩
    subst outside
    exact ⟨⟨fields, relative, numaPart, name, numa, projection, expert, bytes, kind, content⟩,
      { object, path, isRelative, numaBound, filename, expertBound, found, readable, encoded, digest
        parts := asTriple_eq_some.mp parts
        numa := isNuma
        declared := size ▸ isDeclared
        size := size.trans expected
        hash := fun verify => hash.resolve_left (by simp [verify]) },
      fresh, unseen, rfl⟩
  · rintro ⟨entry, listed, fresh, unseen, rfl⟩
    refine ⟨entry.fields, listed.object, entry.relative, listed.path, fresh, listed.isRelative,
      (layerName layer, entry.numaPart, entry.name), asTriple_eq_some.mpr listed.parts, rfl, entry.numa, listed.numa,
      listed.numaBound, (entry.projection, entry.expert, entry.bytes, entry.kind), listed.filename, listed.expertBound,
      unseen, entry.content, listed.found, listed.readable, format.size entry.content, listed.declared,
      ⟨listed.encoded, listed.size⟩, rfl, listed.digest, ?_, rfl⟩
    cases verify : context.verifyHashes with
    | false => exact .inl rfl
    | true => exact .inr (listed.hash verify)

@[simp]
theorem paths_foldl (entries : List (Entry C)) (seen : Seen) :
    (entries.foldl (Seen.add format) seen).paths = (entries.map Entry.relative).reverse ++ seen.paths := by
  induction entries generalizing seen with
  | nil => rfl
  | cons entry entries rest =>
      rw [List.foldl_cons, rest, List.map_cons, List.reverse_cons, List.append_assoc]
      rfl

@[simp]
theorem identities_foldl (entries : List (Entry C)) (seen : Seen) :
    (entries.foldl (Seen.add format) seen).identities = (entries.map Entry.identity).reverse ++ seen.identities := by
  induction entries generalizing seen with
  | nil => rfl
  | cons entry entries rest =>
      rw [List.foldl_cons, rest, List.map_cons, List.reverse_cons, List.append_assoc]
      rfl

@[simp]
theorem bytes_foldl (entries : List (Entry C)) (seen : Seen) :
    (entries.foldl (Seen.add format) seen).bytes = seen.bytes + (entries.map (format.size ·.content)).sum := by
  induction entries generalizing seen with
  | nil => rfl
  | cons entry entries rest =>
      rw [List.foldl_cons, rest, List.map_cons, List.sum_cons]
      exact Nat.add_assoc _ _ _

/-- A new item is apart from the later ones as they are apart from it. -/
theorem fresh_cons_iff {α : Type} {item : α} {items seen : List α} :
    (item :: items).Nodup ∧ (item :: items).Disjoint seen ↔ item ∉ seen ∧ items.Nodup ∧ items.Disjoint (item :: seen) := by
  rw [List.nodup_cons, List.disjoint_cons_left, List.disjoint_cons_right]
  tauto

theorem validateFiles_ok {items : List Json} {seen next : Seen} :
    items.foldlM (validateFile format context layer actual) seen = .ok next ↔
      ∃ entries, List.Forall₂ (Listed format context layer actual) items entries ∧
        ((entries.map Entry.relative).Nodup ∧ (entries.map Entry.relative).Disjoint seen.paths) ∧
        ((entries.map Entry.identity).Nodup ∧ (entries.map Entry.identity).Disjoint seen.identities) ∧
        next = entries.foldl (Seen.add format) seen := by
  induction items generalizing seen with
  | nil =>
      rw [List.foldlM_nil, pure_ok]
      constructor
      · rintro rfl
        exact ⟨[], .nil, ⟨List.nodup_nil, List.disjoint_nil_left _⟩, ⟨List.nodup_nil, List.disjoint_nil_left _⟩, rfl⟩
      · rintro ⟨entries, listed, -, -, rfl⟩
        cases listed
        rfl
  | cons item items rest =>
      rw [List.foldlM_cons, bind_ok]
      constructor
      · rintro ⟨middle, first, others⟩
        obtain ⟨entry, listed, fresh, unseen, rfl⟩ := validateFile_ok.mp first
        obtain ⟨entries, each, paths, identities, rfl⟩ := rest.mp others
        exact ⟨entry :: entries, .cons listed each, fresh_cons_iff.mpr ⟨fresh, paths⟩,
          fresh_cons_iff.mpr ⟨unseen, identities⟩, rfl⟩
      · rintro ⟨entries, each, paths, identities, rfl⟩
        cases each with
        | cons listed each =>
            obtain ⟨fresh, paths⟩ := fresh_cons_iff.mp paths
            obtain ⟨unseen, identities⟩ := fresh_cons_iff.mp identities
            exact ⟨_, validateFile_ok.mpr ⟨_, listed, fresh, unseen, rfl⟩, rest.mpr ⟨_, each, paths, identities, rfl⟩⟩

/-! ## What an accepted layer says -/

/-- An accepted layer, taken apart. -/
structure Layer (C : Type) where
  fields : List (List Char × Json)
  index : Int
  parts : Listing C
  groups : List (List (List Char × C))
  files : List Json
  entries : List (Entry C)

def Layer.found (layer : Layer C) : List (List Char × C) :=
  layer.groups.flatten

variable (format) in
def Layer.bytes (layer : Layer C) : Nat :=
  (layer.entries.map (format.size ·.content)).sum

structure LayerListed (format : Format C) (context : Context) (root : Listing C) (item : Json) (layer : Layer C) :
    Prop where
  object : asObject item = some layer.fields
  index : nonnegativeInt (Json.get "index".toList layer.fields) = some layer.index
  state : (Json.get "state".toList layer.fields).equalsText "ready".toList = true
  numaCount : positiveInt (Json.get "numa_count".toList layer.fields) = some context.numaCount
  directory : root.find (layerName layer.index) = some (.directory layer.parts)
  directories : ∀ entry ∈ layer.parts, isDirectory entry.2 = true
  numaNames : Listing.sameNames layer.parts.names ((List.range context.numaCount).map numaName) = true
  groups : (List.range context.numaCount).mapM (collectNuma layer.index layer.parts) = .ok layer.groups
  files : asArray (Json.get "files".toList layer.fields) = some layer.files
  fileCount : layer.files.length = context.numaCount * context.expertNum * 3 * 2
  entries : List.Forall₂ (Listed format context layer.index layer.found) layer.files layer.entries
  distinctPaths : (layer.entries.map Entry.relative).Nodup
  distinctIdentities : (layer.entries.map Entry.identity).Nodup
  inventory : ∀ identity, identity ∈ layer.entries.map Entry.identity ↔
    identity ∈ expectedIdentities context.numaCount context.expertNum
  paths : ∀ path, path ∈ layer.found.map Prod.fst ↔ path ∈ layer.entries.map Entry.relative
  bytes : positiveInt (Json.get "bytes".toList layer.fields) = some (layer.bytes format)

theorem bind_directoryEntries {found : Option (Node C)} {entries : Listing C} :
    found.bind directoryEntries = some entries ↔ found = some (.directory entries) := by
  rcases found with - | (content | listing | leadsTo)
  all_goals simp [directoryEntries]

theorem bind_fileContent {found : Option (Node C)} {content : C} :
    found.bind fileContent = some content ↔ found = some (.file content) := by
  rcases found with - | (other | listing | leadsTo)
  all_goals simp [fileContent]

theorem onlyItem_eq_some {items : List α} : onlyItem items = some item ↔ items = [item] := by
  rcases items with - | ⟨first, - | ⟨second, items⟩⟩
  all_goals simp [onlyItem]

theorem validateLayer_ok {root : Listing C} {item : Json} {counts : Nat × Nat} :
    validateLayer format context root item = .ok counts ↔
      ∃ layer, LayerListed format context root item layer ∧ counts = (layer.files.length, layer.bytes format) := by
  simp only [validateLayer, bind_ok, require_ok, expectSome_ok, exists_const, pure_ok, validateFiles_ok, Bool.and_eq_true,
    List.all_eq_true, beq_iff_eq, List.contains_iff_mem]
  constructor
  · rintro ⟨fields, object, index, isIndex, state, numa, numaCount, rfl, parts, directory, directories, numaNames, groups,
      isGroups, files, isFiles, fileCount, seen, ⟨entries, listed, ⟨distinctPaths, -⟩, ⟨distinct, -⟩, rfl⟩,
      ⟨complete, only⟩, paths, total, isTotal, rfl, rfl⟩
    simp only [identities_foldl, paths_foldl, bytes_foldl, List.append_nil, List.mem_reverse, Listing.sameNames_iff,
      Nat.zero_add] at complete only paths isTotal ⊢
    exact ⟨⟨fields, index, parts, groups, files, entries⟩,
      { object, state, numaCount, directories, numaNames, fileCount, distinctPaths, paths
        index := isIndex
        directory := bind_directoryEntries.mp directory
        groups := isGroups
        files := isFiles
        entries := listed
        distinctIdentities := distinct
        inventory := fun identity => ⟨only identity, complete identity⟩
        bytes := isTotal },
      rfl⟩
  · rintro ⟨layer, listed, rfl⟩
    refine ⟨layer.fields, listed.object, layer.index, listed.index, listed.state, _, listed.numaCount, rfl, layer.parts,
      bind_directoryEntries.mpr listed.directory, listed.directories, listed.numaNames, layer.groups, listed.groups,
      layer.files, listed.files, listed.fileCount, _,
      ⟨layer.entries, listed.entries, ⟨listed.distinctPaths, List.disjoint_nil_right _⟩,
        ⟨listed.distinctIdentities, List.disjoint_nil_right _⟩, rfl⟩, ?_⟩
    simp only [identities_foldl, paths_foldl, bytes_foldl, List.append_nil, List.mem_reverse, Listing.sameNames_iff,
      Nat.zero_add]
    exact ⟨⟨fun identity => (listed.inventory identity).mpr, fun identity => (listed.inventory identity).mp⟩,
      listed.paths, _, listed.bytes, rfl, rfl⟩

end

/-! ## What an accepted tree says -/

section

variable {C : Type} {format : Format C}

def Call.layers (call : Call) : List Int :=
  sortedSet call.layerIndices

def Call.context (call : Call) (version : Int) : Context :=
  { schemaVersion := version
    numaCount := call.numaCount.toNat
    expertNum := call.expertNum.toNat
    hiddenSize := call.hiddenSize.toNat
    intermediateSize := call.intermediateSize.toNat
    verifyHashes := call.verifyHashes.getD (decide (2 ≤ version)) }

/-- The numbers that a call may ask for. -/
structure Call.Valid (call : Call) : Prop where
  numaCount : 0 < call.numaCount
  expertNum : 0 < call.expertNum
  hiddenSize : 0 < call.hiddenSize
  intermediateSize : 0 < call.intermediateSize
  divides : call.intermediateSize % call.numaCount = 0
  layers : call.layers ≠ []
  nonnegative : ∀ layer ∈ call.layers, 0 ≤ layer

/-- An accepted manifest, taken apart. -/
structure Manifest (C : Type) where
  entries : Listing C
  name : Name
  fields : List (List Char × Json)
  version : Int
  items : List Json
  indices : List Int
  counts : List (Nat × Nat)

structure MetadataListed (call : Call) (fields : List (List Char × Json)) : Prop where
  state : (Json.get "state".toList fields).equalsText "ready".toList = true
  weightFormat : (Json.get "expert_weight_format".toList fields).equalsText "int8".toList = true
  threadpoolCount : (Json.get "threadpool_count".toList fields).equalsInt call.numaCount = true
  expertNum : (Json.get "expert_num".toList fields).equalsInt call.expertNum = true
  hiddenSize : (Json.get "hidden_size".toList fields).equalsInt call.hiddenSize = true
  intermediateSize : (Json.get "intermediate_size".toList fields).equalsInt call.intermediateSize = true

structure TreeListed (format : Format C) (call : Call) (root : Root C) (manifest : Manifest C) : Prop where
  valid : call.Valid
  isAbsolute : root.isAbsolute = true
  directory : root.node = some (.directory manifest.entries)
  loaded : loadManifest format manifest.entries = .ok (manifest.name, manifest.fields, manifest.version)
  metadata : MetadataListed call manifest.fields
  backend : backendLayoutOk manifest.fields manifest.version = .ok ()
  items : asArray (Json.get "layers".toList manifest.fields) = some manifest.items
  indices : List.Forall₂ (fun item index => layerIndexOf item = some index) manifest.items manifest.indices
  distinct : manifest.indices.Nodup
  layers : manifest.indices.insertionSort (· ≤ ·) = call.layers
  counts : List.Forall₂ (fun item counts => validateLayer format (call.context manifest.version) manifest.entries item =
    .ok counts) manifest.items manifest.counts
  bytes : positiveInt (Json.get "bytes".toList manifest.fields) = some (manifest.counts.map Prod.snd).sum
  symlinks : ∀ entry ∈ manifest.entries, entry.2.isSymlink = false
  names : Listing.sameNames manifest.entries.names (manifest.name :: call.layers.map layerName) = true

theorem validate_ok {call : Call} {root : Root C} {result : Int × Nat × Nat} :
    validate format call root = .ok result ↔ ∃ manifest, TreeListed format call root manifest ∧
      result = (manifest.version, (manifest.counts.map Prod.fst).sum, (manifest.counts.map Prod.snd).sum) := by
  simp only [validate, bind_ok, require_ok, expectSome_ok, mapM_ok, exists_const, pure_ok, Bool.and_eq_true,
    List.all_eq_true, beq_iff_eq, Bool.not_eq_true', List.isEmpty_eq_false_iff, decide_eq_true_eq]
  constructor
  · rintro ⟨numaCount, expertNum, hiddenSize, intermediateSize, divides, ⟨layers, nonnegative⟩, isAbsolute, entries,
      directory, ⟨name, fields, version⟩, loaded, state, weightFormat, threadpoolCount, experts, hidden, intermediate, ⟨⟩,
      backend, items, isItems, indices, isIndices, distinct, sorted, counts, isCounts, total, bytes, isTotal, symlinks,
      names, rfl⟩
    subst isTotal
    exact ⟨⟨entries, name, fields, version, items, indices, counts⟩,
      { isAbsolute, loaded, backend, distinct, bytes, symlinks, names
        valid := { numaCount, expertNum, hiddenSize, intermediateSize, divides, layers, nonnegative }
        directory := bind_directoryEntries.mp directory
        metadata := ⟨state, weightFormat, threadpoolCount, experts, hidden, intermediate⟩
        items := isItems
        indices := isIndices
        layers := sorted
        counts := isCounts },
      rfl⟩
  · rintro ⟨manifest, listed, rfl⟩
    exact ⟨listed.valid.numaCount, listed.valid.expertNum, listed.valid.hiddenSize, listed.valid.intermediateSize,
      listed.valid.divides, ⟨listed.valid.layers, listed.valid.nonnegative⟩, listed.isAbsolute, manifest.entries,
      bind_directoryEntries.mpr listed.directory, (manifest.name, manifest.fields, manifest.version), listed.loaded,
      listed.metadata.state, listed.metadata.weightFormat, listed.metadata.threadpoolCount, listed.metadata.expertNum,
      listed.metadata.hiddenSize, listed.metadata.intermediateSize, (), listed.backend, manifest.items, listed.items,
      manifest.indices, listed.indices, listed.distinct, listed.layers, manifest.counts, listed.counts, _, listed.bytes,
      rfl, listed.symlinks, listed.names, rfl⟩

end

end KtKernel.Sft.WeightManifest
