import KtKernel.Sft.WeightManifest

namespace KtKernel.Sft.WeightManifest

open KtKernel.Data

/-! The files that the loader of `AMX_MOE_TP` opens, against those that
`validate_persistent_int8_weights` accepts. -/

/-! ## The loader -/

/-- `BufferB::required_size` of a matrix of `n` rows and `k` columns. -/
def requiredSize (n k : Nat) : Nat :=
  n * k + n * 4

def scaleSize (n : Nat) : Nat :=
  n * 4

/-- Rows and columns of a matrix of a part. -/
def matrixShape (hiddenSize intermediatePerNuma : Nat) : Projection → Nat × Nat
  | .down => (hiddenSize, intermediatePerNuma)
  | _ => (intermediatePerNuma, hiddenSize)

/-- The bytes that `read_weights` reads from a file. -/
def readSize (hiddenSize intermediatePerNuma : Nat) (projection : Projection) (kind : Section) : Nat :=
  let (n, k) := matrixShape hiddenSize intermediatePerNuma projection
  match kind with
  | .quant => requiredSize n k - scaleSize n
  | .scale => scaleSize n

def matClass : Projection → List Char
  | .gate => "_gate_".toList
  | .up => "_up_".toList
  | .down => "_down_".toList

def readSuffix : Section → List Char
  | .quant => "Byte_quant_.kt".toList
  | .scale => "Byte_scale_.kt".toList

/-- The name of a file that `read_weights` opens. -/
def readName (projection : Projection) (expert bytes : Nat) (kind : Section) : Name :=
  "INT8".toList ++ matClass projection ++ decimal expert ++ ['_'] ++ decimal bytes ++ readSuffix kind

namespace Call

/-- The bytes of a file of a part. -/
def readSize (call : Call) (identity : Identity) : Nat :=
  WeightManifest.readSize call.hiddenSize.toNat (call.intermediateSize.toNat / call.numaCount.toNat) identity.2.1
    identity.2.2.2

def fileName (call : Call) (identity : Identity) : Name :=
  readName identity.2.1 identity.2.2.1 (call.readSize identity) identity.2.2.2

def readPath (call : Call) (layer : Int) (identity : Identity) : List Name :=
  [layerName layer, numaName identity.1, call.fileName identity]

def identities (call : Call) : List Identity :=
  expectedIdentities call.numaCount.toNat call.expertNum.toNat

end Call

theorem readSize_eq (hiddenSize intermediatePerNuma : Nat) (projection : Projection) (kind : Section) :
    readSize hiddenSize intermediatePerNuma projection kind =
      projectionSize hiddenSize intermediatePerNuma projection kind := by
  have packed (n k : Nat) : requiredSize n k - scaleSize n = n * k := Nat.add_sub_cancel _ _
  cases kind with
  | quant =>
      cases projection with
      | gate => exact (packed _ _).trans (Nat.mul_comm _ _)
      | up => exact (packed _ _).trans (Nat.mul_comm _ _)
      | down => exact packed _ _
  | scale =>
      cases projection with
      | gate => rfl
      | up => rfl
      | down => rfl

/-! ## The grammar of the names -/

theorem takeSection_append (kind : Section) (rest : List Char) : takeSection (kind.text ++ rest) = some (kind, rest) := by
  cases kind with
  | quant => rfl
  | scale => rfl

theorem takeSection_eq_some (found : takeSection text = some (kind, rest)) : text = kind.text ++ rest := by
  rw [takeSection] at found
  obtain ⟨candidate, -, matched⟩ := List.exists_of_findSome?_eq_some found
  obtain ⟨tail, isAfter, same⟩ := Option.map_eq_some_iff.mp matched
  rw [Prod.mk.injEq] at same
  rw [← same.1, ← same.2]
  exact after_eq_some.mp isAfter

/-- A name of the grammar from its parts. -/
def fileName (projection : Projection) (expert bytes : List Char) (kind : Section) : Name :=
  "INT8_".toList ++ (projection.text ++ ("_".toList ++ (expert ++ ("_".toList ++ (bytes ++ ("Byte_".toList ++
    (kind.text ++ "_.kt".toList)))))))

theorem readName_eq (projection : Projection) (expert bytes : Nat) (kind : Section) :
    readName projection expert bytes kind = fileName projection (decimal expert) (decimal bytes) kind := by
  have tail : readSuffix kind = "Byte_".toList ++ (kind.text ++ "_.kt".toList) := by
    cases kind
    all_goals rfl
  have head : "INT8".toList ++ matClass projection = "INT8_".toList ++ (projection.text ++ "_".toList) := by
    cases projection
    all_goals rfl
  unfold readName
  rw [List.append_assoc, List.append_assoc, List.append_assoc]
  refine (congrArg₂ (fun first last => first ++ (decimal expert ++ (['_'] ++ (decimal bytes ++ last)))) head tail).trans ?_
  beta_reduce
  unfold fileName
  rw [List.append_assoc, List.append_assoc]
  rfl

theorem matchFile_eq_some (matched : matchFile name = some (projection, expert, bytes, kind)) :
    name = fileName projection expert bytes kind := by
  simp only [matchFile, Option.bind_eq_bind, Option.bind_eq_some_iff] at matched
  obtain ⟨_, prefixed, ⟨_, _⟩, isProjection, _, first, ⟨_, _⟩, isExpert, _, second, ⟨_, _⟩, isBytes, _, byte, ⟨_, _⟩,
    isKind, ends⟩ := matched
  dsimp only at first second byte ends
  split at ends
  · rename_i suffix
    obtain ⟨rfl, rfl, rfl, rfl⟩ : _ ∧ _ ∧ _ ∧ _ := by simpa using ends
    rw [after_eq_some.mp prefixed, takeProjection_eq_some isProjection, after_eq_some.mp first,
      (takeDigits_eq_some isExpert).1, after_eq_some.mp second, (takeDigits_eq_some isBytes).1, after_eq_some.mp byte,
      takeSection_eq_some isKind, suffix, fileName]
  · cases ends

theorem matchFile_readName (projection : Projection) (expert bytes : Nat) (kind : Section) :
    matchFile (readName projection expert bytes kind) = some (projection, decimal expert, decimal bytes, kind) := by
  have digits (n : Nat) (char : Char) (stop : isDecimal char = false) (rest : List Char) :
      takeDigits (decimal n ++ char :: rest) = some (decimal n, char :: rest) :=
    takeDigits_append (decimal n) (decimal_ne_nil n) (fun _ => isDecimal_of_mem_decimal) stop rest
  have afterExpert (rest : List Char) : takeDigits (decimal expert ++ ("_".toList ++ rest)) =
      some (decimal expert, "_".toList ++ rest) := digits expert '_' (by decide) rest
  have afterBytes (rest : List Char) : takeDigits (decimal bytes ++ ("Byte_".toList ++ rest)) =
      some (decimal bytes, "Byte_".toList ++ rest) := digits bytes 'B' (by decide) ("yte_".toList ++ rest)
  rw [readName_eq]
  unfold fileName matchFile
  simp only [after_append, takeProjection_append, afterExpert, afterBytes, takeSection_append, Option.bind_eq_bind,
    Option.bind_some, if_true]

theorem matchNuma_numaName (numa : Nat) : matchNuma (numaName numa) = some numa := by
  have taken : takeDigits (decimal numa) = some (decimal numa, []) := by
    have all : ∀ char ∈ decimal numa, isDecimal char = true := fun _ => isDecimal_of_mem_decimal
    simp only [takeDigits, List.takeWhile_eq_self_iff.mpr all, List.dropWhile_eq_nil_iff.mpr all, decimal_ne_nil,
      if_false]
  unfold matchNuma numaName
  simp only [after_append, taken, Option.bind_eq_bind, Option.bind_some, if_true, intOf_decimal]

/-! ## The files of a layer -/

section

variable {C : Type} {format : Format C} {context : Context} {layer : Int} {parts : Listing C}

theorem collectFile_ok {entry : Name × Node C} {file : List Char × C} :
    collectFile layer numa entry = .ok file ↔
      entry.2 = .file file.2 ∧ file.1 = posix [layerName layer, numaName numa, entry.1] := by
  obtain ⟨name, node⟩ := entry
  obtain ⟨path, content⟩ := file
  cases node with
  | file other =>
      simp only [collectFile, Except.ok.injEq, Prod.mk.injEq, Node.file.injEq]
      exact and_comm.trans (and_congr Iff.rfl eq_comm)
  | directory entries => simp [collectFile]
  | link leadsTo => simp [collectFile]

theorem collectNuma_ok {group : List (List Char × C)} : collectNuma layer parts numa = .ok group ↔
    ∃ files, parts.find (numaName numa) = some (.directory files) ∧
      List.Forall₂ (fun entry file => collectFile layer numa entry = .ok file) files group := by
  rw [collectNuma]
  split
  · rename_i files found
    rw [mapM_ok]
    constructor
    · intro each
      exact ⟨files, found, each⟩
    · rintro ⟨other, same, each⟩
      obtain rfl : files = other := by simpa using found.symm.trans same
      exact each
  · rename_i other
    constructor
    · intro impossible
      cases impossible
    · rintro ⟨files, found, -⟩
      exact absurd found (other files)

/-- A file that has been found is one of a part. -/
theorem mem_found {numaCount : Nat} {groups : List (List (List Char × C))}
    (collected : (List.range numaCount).mapM (collectNuma layer parts) = .ok groups)
    (member : (path, content) ∈ groups.flatten) :
    ∃ numa < numaCount, ∃ files name, parts.find (numaName numa) = some (.directory files) ∧
      (name, .file content) ∈ files ∧ path = posix [layerName layer, numaName numa, name] := by
  obtain ⟨group, isGroup, inGroup⟩ := List.mem_flatten.mp member
  obtain ⟨numa, bound, ofNuma⟩ := item_of_mem (mapM_ok.mp collected) isGroup
  obtain ⟨files, found, each⟩ := collectNuma_ok.mp ofNuma
  obtain ⟨⟨name, node⟩, isFile, ofFile⟩ := item_of_mem each inGroup
  obtain ⟨isContent, isPath⟩ := collectFile_ok.mp ofFile
  dsimp only at isContent isPath
  rw [isContent] at isFile
  exact ⟨numa, List.mem_range.mp bound, files, name, found, isFile, isPath⟩

theorem found_of_mem {numaCount : Nat} {groups : List (List (List Char × C))}
    (collected : (List.range numaCount).mapM (collectNuma layer parts) = .ok groups)
    (bound : numa < numaCount) {files : Listing C} (found : parts.find (numaName numa) = some (.directory files))
    (member : entry ∈ files) :
    ∃ content, entry.2 = .file content ∧
      (posix [layerName layer, numaName numa, entry.1], content) ∈ groups.flatten := by
  obtain ⟨group, isGroup, ofNuma⟩ := result_of_mem (mapM_ok.mp collected) (List.mem_range.mpr bound)
  obtain ⟨others, same, each⟩ := collectNuma_ok.mp ofNuma
  obtain rfl : files = others := by simpa using found.symm.trans same
  obtain ⟨⟨path, content⟩, inGroup, ofFile⟩ := result_of_mem each member
  obtain ⟨isFile, rfl⟩ := collectFile_ok.mp ofFile
  exact ⟨content, isFile, List.mem_flatten.mpr ⟨group, isGroup, inGroup⟩⟩

theorem parts_posix {name : Name} (isName : Node.IsName name) (layer : Int) (numa : Nat) :
    pathParts (posix [layerName layer, numaName numa, name]) = [layerName layer, numaName numa, name] := by
  apply pathParts_posix (List.cons_ne_nil _ _)
  simp only [List.forall_mem_cons, List.not_mem_nil, false_imp_iff, implies_true, and_true]
  exact ⟨isName_layerName layer, isName_numaName numa, isName⟩

theorem Listed.eq_of_relative {actual : List (List Char × C)} {numa : Nat} {name : Name} {entry : Entry C}
    (listed : Listed format context layer actual item entry) (isName : Node.IsName name)
    (same : entry.relative = posix [layerName layer, numaName numa, name]) : numa = entry.numa ∧ name = entry.name := by
  have split := listed.parts
  rw [same, parts_posix isName] at split
  obtain ⟨numaPart, isSame⟩ : numaName numa = entry.numaPart ∧ name = entry.name := by simpa using split
  have isNuma := listed.numa
  rw [← numaPart, matchNuma_numaName, Option.some.injEq] at isNuma
  exact ⟨isNuma, isSame⟩

theorem Listed.located {groups : List (List (List Char × C))} {entry : Entry C}
    (listed : Listed format context layer groups.flatten item entry) (wellFormed : (Node.directory parts).WellFormed)
    (collected : (List.range context.numaCount).mapM (collectNuma layer parts) = .ok groups) :
    ∃ files, parts.find (numaName entry.numa) = some (.directory files) ∧ (entry.name, .file entry.content) ∈ files ∧
      entry.relative = posix [layerName layer, numaName entry.numa, entry.name] := by
  obtain ⟨numa, bound, files, name, found, member, same⟩ := mem_found collected (mem_of_lookup listed.found)
  have inFiles : Node.AllWellFormed files := by
    have directory := (Node.AllWellFormed.of_mem wellFormed.2 (Listing.mem_of_find found)).2
    exact directory.2
  have isName : Node.IsName name := (Node.AllWellFormed.of_mem inFiles member).1
  obtain ⟨rfl, rfl⟩ := listed.eq_of_relative isName same
  exact ⟨files, found, member, same⟩

end

/-! ## Accepted trees -/

section

variable {C : Type} {format : Format C} {call : Call} {root : Root C} {manifest : Manifest C} {tree : Listing C}
  {layer version : Int}

/-- The loader opens each of its files at its size, and the root holds no other. -/
structure LoaderOpens (format : Format C) (call : Call) (entries : Listing C) : Prop where
  opens : ∀ layer ∈ call.layers, ∀ identity ∈ call.identities, ∃ content,
    (call.readPath layer identity, some content) ∈ Node.leavesOf [] entries ∧
      format.size content = call.readSize identity
  only : ∀ leaf ∈ Node.leavesOf [] entries, leaf.1 = [manifestName] ∨ leaf.1 = [legacyManifestName] ∨
    ∃ layer ∈ call.layers, ∃ identity ∈ call.identities, leaf.1 = call.readPath layer identity

/-- The numbers in the names of the grammar are written as `std::to_string` does. -/
def CanonicalNames (entries : Listing C) : Prop :=
  ∀ leaf ∈ Node.leavesOf [] entries, ∀ layer numa name, leaf.1 = [layer, numa, name] →
    ∀ projection expert bytes kind, matchFile name = some (projection, expert, bytes, kind) →
      expert = decimal (intOf expert) ∧ bytes = decimal (intOf bytes)

theorem canonical_of_loaderOpens {entries : Listing C} (opened : LoaderOpens format call entries) :
    CanonicalNames entries := by
  intro leaf member layer numa name path projection expert bytes kind matched
  rcases opened.only leaf member with root | root | ⟨listed, -, identity, -, same⟩
  · cases path.symm.trans root
  · cases path.symm.trans root
  · obtain ⟨-, -, rfl⟩ : layer = _ ∧ numa = _ ∧ name = _ := by
      simpa [Call.readPath] using path.symm.trans same
    rw [Call.fileName, matchFile_readName, Option.some.injEq, Prod.mk.injEq, Prod.mk.injEq, Prod.mk.injEq] at matched
    obtain ⟨-, rfl, rfl, -⟩ := matched
    rw [intOf_decimal, intOf_decimal]
    exact ⟨rfl, rfl⟩

theorem loadManifest_ok {entries : Listing C} :
    loadManifest format entries = .ok (name, fields, version) ↔
      ([manifestName, legacyManifestName].filter fun name => (entries.find name).isSome) = [name] ∧
      ∃ content, entries.find name = some (.file content) ∧ (format.load content).bind asObject = some fields ∧
        (Json.get "schema_version".toList fields).asInt = some version ∧ (version = 1 ∨ version = 2) ∧
        (version = 1 → name = legacyManifestName) ∧ (version = 2 → name = manifestName) := by
  simp only [loadManifest, bind_ok, require_ok, expectSome_ok, exists_const, pure_ok, Bool.or_eq_true, beq_iff_eq,
    bne_iff_ne, onlyItem_eq_some, bind_fileContent, ← imp_iff_not_or]
  constructor
  · rintro ⟨_, only, content, isFile, _, loaded, _, isVersion, supported, legacy, current, same⟩
    obtain ⟨rfl, rfl, rfl⟩ : _ ∧ _ ∧ _ := by simpa using same
    exact ⟨only, content, isFile, loaded, isVersion, supported, legacy, current⟩
  · rintro ⟨only, content, isFile, loaded, isVersion, supported, legacy, current⟩
    exact ⟨name, only, content, isFile, fields, loaded, version, isVersion, supported, legacy, current, rfl⟩

theorem TreeListed.has_layer (listed : TreeListed format call root manifest) (member : layer ∈ call.layers) :
    ∃ item, ∃ found : Layer C, LayerListed format (call.context manifest.version) manifest.entries item found ∧
      found.index = layer := by
  rw [← listed.layers, List.mem_insertionSort] at member
  obtain ⟨item, isItem, isIndex⟩ := item_of_mem listed.indices member
  obtain ⟨counts, -, accepted⟩ := result_of_mem listed.counts isItem
  obtain ⟨found, isLayer, -⟩ := validateLayer_ok.mp accepted
  refine ⟨item, found, isLayer, ?_⟩
  rw [layerIndexOf, isLayer.object, Option.bind_some, isLayer.index] at isIndex
  exact Option.some.inj isIndex

theorem TreeListed.wellFormed (listed : TreeListed format call root manifest) :
    (Node.directory manifest.entries).WellFormed :=
  root.wellFormed _ listed.directory

theorem LayerListed.wellFormed {found : Layer C} (listed : LayerListed format context tree item found)
    (wellFormed : (Node.directory tree).WellFormed) :
    (Node.directory found.parts).WellFormed :=
  (Node.AllWellFormed.of_mem wellFormed.2 (Listing.mem_of_find listed.directory)).2

/-- A file of a part stands below the root. -/
theorem mem_leaves {layer : Name} {parts files : Listing C} (isLayer : tree.find layer = some (.directory parts))
    (isPart : parts.find numa = some (.directory files)) (isFile : (name, Node.file content) ∈ files) :
    ([layer, numa, name], some content) ∈ Node.leavesOf [] tree := by
  refine Node.mem_leavesOf.mpr ⟨_, Listing.mem_of_find isLayer, ?_⟩
  rw [Node.leaves]
  refine Node.mem_leavesOf.mpr ⟨_, Listing.mem_of_find isPart, ?_⟩
  rw [Node.leaves]
  exact Node.mem_leavesOf.mpr ⟨_, isFile, List.mem_singleton_self _⟩

/-- The name of a listed file is the loader's when its numbers are written as the loader writes them. -/
theorem Listed.path_eq {entry : Entry C} (listed : Listed format (call.context version) layer actual item entry)
    (expert : entry.expert = decimal (intOf entry.expert)) (bytes : entry.bytes = decimal (intOf entry.bytes)) :
    [layerName layer, numaName entry.numa, entry.name] = call.readPath layer entry.identity := by
  have size : intOf entry.bytes = call.readSize entry.identity := by
    rw [listed.encoded, Call.readSize, readSize_eq]
    rfl
  rw [matchFile_eq_some listed.filename, Call.readPath, Call.fileName, readName_eq, ← size]
  dsimp only [Entry.identity]
  rw [← expert, ← bytes]

theorem LayerListed.opens {found : Layer C}
    (listed : LayerListed format (call.context version) tree item found)
    (wellFormed : (Node.directory tree).WellFormed) (canonical : CanonicalNames tree)
    (member : identity ∈ call.identities) :
    ∃ content, (call.readPath found.index identity, some content) ∈ Node.leavesOf [] tree ∧
      format.size content = call.readSize identity := by
  obtain ⟨entry, isEntry, rfl⟩ := List.mem_map.mp ((listed.inventory identity).mpr member)
  obtain ⟨_, -, isListed⟩ := item_of_mem listed.entries isEntry
  obtain ⟨files, isPart, isFile, -⟩ := isListed.located (listed.wellFormed wellFormed) listed.groups
  have leaf := mem_leaves listed.directory isPart isFile
  obtain ⟨expert, bytes⟩ := canonical _ leaf _ _ _ rfl _ _ _ _ isListed.filename
  rw [isListed.path_eq expert bytes] at leaf
  refine ⟨entry.content, leaf, ?_⟩
  rw [isListed.size, Call.readSize, readSize_eq]
  rfl

theorem LayerListed.only {found : Layer C}
    (listed : LayerListed format (call.context version) tree item found)
    (wellFormed : (Node.directory tree).WellFormed) (canonical : CanonicalNames tree)
    (member : leaf ∈ Node.leavesOf [layerName found.index] found.parts) :
    ∃ identity ∈ call.identities, leaf.1 = call.readPath found.index identity := by
  obtain ⟨⟨numaPart, node⟩, isPart, below⟩ := Node.mem_leavesOf.mp member
  have partsWellFormed := listed.wellFormed wellFormed
  have isNuma : numaPart ∈ (List.range (call.context version).numaCount).map numaName :=
    (Listing.sameNames_iff.mp listed.numaNames numaPart).mp (List.mem_map.mpr ⟨_, isPart, rfl⟩)
  obtain ⟨numa, bound, rfl⟩ := List.mem_map.mp isNuma
  have directory := listed.directories _ isPart
  cases node with
  | file content => cases directory
  | link leadsTo => cases directory
  | directory files =>
      have isFound := Listing.find_of_mem partsWellFormed.1 isPart
      rw [Node.leaves] at below
      obtain ⟨⟨name, node⟩, isFile, atFile⟩ := Node.mem_leavesOf.mp below
      obtain ⟨content, rfl, collected⟩ := found_of_mem listed.groups (List.mem_range.mp bound) isFound isFile
      obtain ⟨entry, isEntry, same⟩ := List.mem_map.mp ((listed.paths _).mp (List.mem_map.mpr ⟨_, collected, rfl⟩))
      obtain ⟨_, -, isListed⟩ := item_of_mem listed.entries isEntry
      have inFiles := (Node.AllWellFormed.of_mem partsWellFormed.2 isPart).2
      obtain ⟨rfl, rfl⟩ := isListed.eq_of_relative (Node.AllWellFormed.of_mem inFiles.2 isFile).1 same
      obtain ⟨expert, bytes⟩ := canonical _ (mem_leaves listed.directory isFound isFile) _ _ _ rfl _ _ _ _
        isListed.filename
      refine ⟨entry.identity, (listed.inventory _).mp (List.mem_map.mpr ⟨_, isEntry, rfl⟩), ?_⟩
      rw [Node.leaves, List.mem_singleton] at atFile
      rw [atFile, ← isListed.path_eq expert bytes]
      rfl

theorem TreeListed.loaderOpens (listed : TreeListed format call root manifest)
    (canonical : CanonicalNames manifest.entries) : LoaderOpens format call manifest.entries := by
  have wellFormed := listed.wellFormed
  obtain ⟨only, record, isRecord, -⟩ := loadManifest_ok.mp listed.loaded
  constructor
  · intro layer member identity isIdentity
    obtain ⟨item, found, isLayer, rfl⟩ := listed.has_layer member
    exact isLayer.opens wellFormed canonical isIdentity
  · intro leaf member
    obtain ⟨⟨name, node⟩, isEntry, below⟩ := Node.mem_leavesOf.mp member
    have isName := (Listing.sameNames_iff.mp listed.names name).mp (List.mem_map.mpr ⟨_, isEntry, rfl⟩)
    have isFound := Listing.find_of_mem wellFormed.1 isEntry
    rcases List.mem_cons.mp isName with rfl | isLayerName
    · -- the manifest itself
      obtain rfl : node = .file record := Option.some.inj (isFound.symm.trans isRecord)
      rw [Node.leaves, List.mem_singleton] at below
      have candidate : manifest.name ∈ [manifestName, legacyManifestName] := by
        apply List.mem_of_mem_filter (p := fun name => (manifest.entries.find name).isSome)
        rw [only]
        exact List.mem_cons_self
      rw [below]
      rcases List.mem_cons.mp candidate with same | other
      · rw [same]
        exact .inl rfl
      · rw [List.mem_singleton.mp other]
        exact .inr (.inl rfl)
    · obtain ⟨layer, isLayer, rfl⟩ := List.mem_map.mp isLayerName
      obtain ⟨item, found, layerListed, rfl⟩ := listed.has_layer isLayer
      obtain rfl : node = .directory found.parts := Option.some.inj (isFound.symm.trans layerListed.directory)
      rw [Node.leaves] at below
      obtain ⟨identity, isIdentity, same⟩ := layerListed.only wellFormed canonical below
      exact .inr (.inr ⟨_, isLayer, identity, isIdentity, same⟩)

end

end KtKernel.Sft.WeightManifest
