import Mathlib.Tactic.Ring
import KtKernel.Sft.WeightTrees

namespace KtKernel.Sft.WeightManifest

open KtKernel.Data

/-! The trees that the save path of `AMX_MOE_TP` writes, and the manifests that list them
truthfully. -/

/-- The experts that a saving run writes: the buffers are saved under the numbers that the
physical-to-logical map gives. -/
def Call.writtenExperts (call : Call) (expertMap : Nat → Nat) : List Nat :=
  ((List.range call.expertNum.toNat).map expertMap).dedup

def Call.written (call : Call) (expertMap : Nat → Nat) : List Identity :=
  (List.range call.numaCount.toNat).product ([Projection.gate, .up, .down].product
    ((call.writtenExperts expertMap).product [Section.quant, .scale]))

/-- Every expert is saved. -/
def Call.Covers (call : Call) (expertMap : Nat → Nat) : Prop :=
  ∀ expert < call.expertNum.toNat, ∃ physical < call.expertNum.toNat, expertMap physical = expert

section

variable {C : Type} (format : Format C) (call : Call) (expertMap : Nat → Nat)

structure WrittenLayer (parts : Listing C) (contents : Identity → C) : Prop where
  names : ∀ name, name ∈ parts.names ↔ ∃ numa < call.numaCount.toNat, name = numaName numa
  files : ∀ numa < call.numaCount.toNat, ∃ files, parts.find (numaName numa) = some (.directory files) ∧
    ∀ name node, (name, node) ∈ files ↔ ∃ identity ∈ call.written expertMap, identity.1 = numa ∧
      name = call.fileName identity ∧ node = .file (contents identity)
  sizes : ∀ identity ∈ call.written expertMap, format.size (contents identity) = call.readSize identity
  readable : ∀ identity ∈ call.written expertMap, format.isReadable (contents identity) = true

/-- A saving run has written the layers below a root that holds the manifest besides. -/
structure Written (root : Root C) (tree : Listing C) (manifest : Name) (record : C) (contents : Int → Identity → C) :
    Prop where
  valid : call.Valid
  isAbsolute : root.isAbsolute = true
  directory : root.node = some (.directory tree)
  names : ∀ name, name ∈ tree.names ↔ name = manifest ∨ ∃ layer ∈ call.layers, name = layerName layer
  record : tree.find manifest = some (.file record)
  layers : ∀ layer ∈ call.layers, ∃ parts, tree.find (layerName layer) = some (.directory parts) ∧
    WrittenLayer format call expertMap parts (contents layer)

/-- An entry that tells the path, the size and, where digests are asked for, the digest of a file. -/
structure TruthfulFile (context : Context) (layer : Int) (contents : Identity → C) (item : Json) (identity : Identity) :
    Prop where
  fields : ∃ fields, item = .object fields ∧
    Json.get "path".toList fields = .string (posix (call.readPath layer identity)) ∧
    Json.get "size_bytes".toList fields = .int (format.size (contents identity)) ∧
    (2 ≤ context.schemaVersion ∨ context.verifyHashes = true →
      Json.get "sha256".toList fields = .string (format.sha256 (contents identity)))

def writtenBytes (contents : Identity → C) : Nat :=
  ((call.written expertMap).map fun identity => format.size (contents identity)).sum

structure TruthfulLayer (context : Context) (contents : Int → Identity → C) (item : Json) (layer : Int) : Prop where
  fields : ∃ fields items order, item = .object fields ∧ Json.get "index".toList fields = .int layer ∧
    Json.get "state".toList fields = .string "ready".toList ∧
    Json.get "numa_count".toList fields = .int call.numaCount ∧ Json.get "files".toList fields = .array items ∧
    Json.get "bytes".toList fields = .int (writtenBytes format call expertMap (contents layer)) ∧
    order.Perm (call.written expertMap) ∧
    List.Forall₂ (TruthfulFile format call context layer (contents layer)) items order

structure Truthful (contents : Int → Identity → C) (manifest : Name) (record : C) : Prop where
  fields : ∃ fields version items order, format.load record = some (.object fields) ∧
    Json.get "schema_version".toList fields = .int version ∧
    (version = 1 ∧ manifest = legacyManifestName ∧
        (∃ backend ∈ ["AMXINT8".toList, "INT8".toList], Json.get "backend".toList fields = .string backend) ∨
      version = 2 ∧ manifest = manifestName ∧ Json.get "layout".toList fields = .string int8WeightLayout ∧
        (fields.lookup "backend".toList = none ∨
          ∃ backend ∈ ["auto".toList, "INT8".toList], fields.lookup "backend".toList = some (.string backend))) ∧
    Json.get "state".toList fields = .string "ready".toList ∧
    Json.get "expert_weight_format".toList fields = .string "int8".toList ∧
    Json.get "threadpool_count".toList fields = .int call.numaCount ∧
    Json.get "expert_num".toList fields = .int call.expertNum ∧
    Json.get "hidden_size".toList fields = .int call.hiddenSize ∧
    Json.get "intermediate_size".toList fields = .int call.intermediateSize ∧
    Json.get "layers".toList fields = .array items ∧
    Json.get "bytes".toList fields =
      .int ((call.layers.map fun layer => writtenBytes format call expertMap (contents layer)).sum : Nat) ∧
    order.Perm call.layers ∧
    List.Forall₂ (TruthfulLayer format call expertMap (call.context version) contents) items order

end

/-! ## The files of a saving run -/

section

variable {C : Type} {format : Format C} {call : Call} {expertMap : Nat → Nat}

theorem mem_written {identity : Identity} : identity ∈ call.written expertMap ↔
    identity.1 < call.numaCount.toNat ∧ ∃ physical < call.expertNum.toNat, expertMap physical = identity.2.2.1 := by
  obtain ⟨numa, projection, expert, kind⟩ := identity
  have projections : projection ∈ [Projection.gate, .up, .down] := by
    cases projection
    all_goals decide
  have kinds : kind ∈ [Section.quant, .scale] := by
    cases kind
    all_goals decide
  simp only [Call.written, Call.writtenExperts, List.pair_mem_product, List.mem_range, projections, kinds, true_and,
    and_true, List.mem_dedup, List.mem_map]

theorem written_perm (covers : call.Covers expertMap) : (call.written expertMap).Perm call.identities := by
  have included : (List.range call.expertNum.toNat).Subperm (call.writtenExperts expertMap) := by
    apply List.subperm_of_subset List.nodup_range
    intro expert member
    obtain ⟨physical, bound, same⟩ := covers expert (List.mem_range.mp member)
    exact List.mem_dedup.mpr (List.mem_map.mpr ⟨physical, List.mem_range.mpr bound, same⟩)
  have short : (call.writtenExperts expertMap).length ≤ (List.range call.expertNum.toNat).length := by
    have deduped := (List.dedup_sublist ((List.range call.expertNum.toNat).map expertMap)).length_le
    rw [List.length_map] at deduped
    exact deduped
  have experts := (included.perm_of_length_le short).symm
  exact (((experts.product_right _).product_left _).product_left _)

theorem written_nodup : (call.written expertMap).Nodup :=
  List.nodup_range.product ((by decide : [Projection.gate, .up, .down].Nodup).product
    ((List.nodup_dedup _).product (by decide)))

theorem identities_length : call.identities.length = call.numaCount.toNat * call.expertNum.toNat * 3 * 2 := by
  have kinds : ((List.range call.expertNum.toNat).product [Section.quant, .scale]).length = call.expertNum.toNat * 2 := by
    refine (List.length_product _ _).trans ?_
    rw [List.length_range]
    rfl
  have projections : ([Projection.gate, .up, .down].product ((List.range call.expertNum.toNat).product
      [Section.quant, .scale])).length = 3 * (call.expertNum.toNat * 2) := by
    refine (List.length_product _ _).trans ?_
    rw [kinds]
    rfl
  refine (List.length_product _ _).trans ?_
  rw [projections, List.length_range]
  ring

namespace Call.Valid

variable (valid : call.Valid)

include valid

theorem part_pos : 0 < call.intermediateSize.toNat / call.numaCount.toNat := by
  have numa := valid.numaCount
  have intermediate := valid.intermediateSize
  have divides : call.numaCount ∣ call.intermediateSize := Int.dvd_of_emod_eq_zero valid.divides
  have bound : call.numaCount ≤ call.intermediateSize := Int.le_of_dvd intermediate divides
  exact Nat.div_pos (by omega) (by omega)

theorem size_pos (identity : Identity) : 0 < call.readSize identity := by
  have part := valid.part_pos
  have hidden : 0 < call.hiddenSize.toNat := by
    have hiddenSize := valid.hiddenSize
    omega
  obtain ⟨numa, projection, expert, kind⟩ := identity
  rw [Call.readSize, readSize_eq]
  cases kind with
  | quant => exact Nat.mul_pos hidden part
  | scale =>
      cases projection with
      | gate => exact Nat.mul_pos part (by decide)
      | up => exact Nat.mul_pos part (by decide)
      | down => exact Nat.mul_pos hidden (by decide)

theorem bytes_pos {contents : Identity → C}
    (sizes : ∀ identity ∈ call.written expertMap, format.size (contents identity) = call.readSize identity) :
    0 < writtenBytes format call expertMap contents := by
  have numa := valid.numaCount
  have experts := valid.expertNum
  have member : (0, Projection.gate, expertMap 0, Section.quant) ∈ call.written expertMap :=
    mem_written.mpr ⟨by omega, 0, by omega, rfl⟩
  refine List.sum_pos_iff_exists_pos_nat.mpr ⟨_, List.mem_map.mpr ⟨_, member, rfl⟩, ?_⟩
  rw [sizes _ member]
  exact valid.size_pos _

end Call.Valid

theorem positiveInt_int {value : Int} (positive : 0 < value) : positiveInt (.int value) = some value.toNat := by
  rw [positiveInt, Json.asInt, Option.bind_some, if_pos positive]

theorem positiveInt_nat {value : Nat} (positive : 0 < value) : positiveInt (.int value) = some value :=
  positiveInt_int (Int.natCast_pos.mpr positive)

/-! ## Where the written files are -/

variable {parts : Listing C} {contents : Identity → C} {layer : Int}

theorem WrittenLayer.isName (written : WrittenLayer format call expertMap parts contents)
    (wellFormed : (Node.directory parts).WellFormed) (member : identity ∈ call.written expertMap) :
    Node.IsName (call.fileName identity) := by
  obtain ⟨files, isPart, each⟩ := written.files identity.1 (mem_written.mp member).1
  have inFiles := (Node.AllWellFormed.of_mem wellFormed.2 (Listing.mem_of_find isPart)).2
  exact (Node.AllWellFormed.of_mem inFiles.2 ((each _ _).mpr ⟨identity, member, rfl, rfl, rfl⟩)).1

theorem fileName_inj {left right : Identity} (part : left.1 = right.1) (same : call.fileName left = call.fileName right) :
    left = right := by
  obtain ⟨numa, projection, expert, kind⟩ := left
  obtain ⟨numa', projection', expert', kind'⟩ := right
  have matched := congrArg matchFile same
  rw [Call.fileName, matchFile_readName, Call.fileName, matchFile_readName, Option.some.injEq, Prod.mk.injEq,
    Prod.mk.injEq, Prod.mk.injEq] at matched
  obtain ⟨rfl, sameExpert, -, rfl⟩ := matched
  obtain rfl := decimal_injective sameExpert
  obtain rfl : numa = numa' := part
  rfl

theorem WrittenLayer.collected (written : WrittenLayer format call expertMap parts contents) (layer : Int) :
    ∃ groups, (List.range call.numaCount.toNat).mapM (collectNuma layer parts) = .ok groups := by
  apply mapM_exists
  intro numa member
  obtain ⟨files, isPart, each⟩ := written.files numa (List.mem_range.mp member)
  have all : ∃ group, files.mapM (collectFile layer numa) = .ok group := by
    apply mapM_exists
    rintro ⟨name, node⟩ isFile
    obtain ⟨identity, -, -, -, rfl⟩ := (each name node).mp isFile
    exact ⟨_, rfl⟩
  obtain ⟨group, collected⟩ := all
  exact ⟨group, collectNuma_ok.mpr ⟨files, isPart, mapM_ok.mp collected⟩⟩

theorem WrittenLayer.mem_found_iff (written : WrittenLayer format call expertMap parts contents)
    {groups : List (List (List Char × C))}
    (collected : (List.range call.numaCount.toNat).mapM (collectNuma layer parts) = .ok groups) :
    (path, content) ∈ groups.flatten ↔ ∃ identity ∈ call.written expertMap,
      path = posix (call.readPath layer identity) ∧ content = contents identity := by
  constructor
  · intro member
    obtain ⟨numa, bound, files, name, isPart, isFile, rfl⟩ := mem_found collected member
    obtain ⟨others, isOther, each⟩ := written.files numa bound
    obtain rfl : files = others := by simpa using isPart.symm.trans isOther
    obtain ⟨identity, isWritten, rfl, rfl, same⟩ := (each _ _).mp isFile
    exact ⟨identity, isWritten, rfl, Node.file.inj same⟩
  · rintro ⟨identity, isWritten, rfl, rfl⟩
    have bound := (mem_written.mp isWritten).1
    obtain ⟨files, isPart, each⟩ := written.files identity.1 bound
    obtain ⟨content, same, member⟩ := found_of_mem collected bound isPart
      ((each _ _).mpr ⟨identity, isWritten, rfl, rfl, rfl⟩)
    rw [Node.file.inj same]
    exact member

theorem readPath_parts (isName : Node.IsName (call.fileName identity)) (layer : Int) :
    pathParts (posix (call.readPath layer identity)) = call.readPath layer identity :=
  parts_posix isName layer identity.1

theorem posix_readPath_inj {left right : Identity} (leftName : Node.IsName (call.fileName left))
    (rightName : Node.IsName (call.fileName right))
    (same : posix (call.readPath layer left) = posix (call.readPath layer right)) : left = right := by
  have parts := congrArg pathParts same
  rw [readPath_parts leftName, readPath_parts rightName] at parts
  obtain ⟨part, name⟩ : numaName left.1 = numaName right.1 ∧ call.fileName left = call.fileName right := by
    simpa [Call.readPath] using parts
  exact fileName_inj (numaName_injective part) name

/-! ## Truthful entries are accepted -/

def writtenEntry (call : Call) (layer : Int) (contents : Identity → C) (fields : List (List Char × Json))
    (identity : Identity) : Entry C :=
  { fields
    relative := posix (call.readPath layer identity)
    numaPart := numaName identity.1
    name := call.fileName identity
    numa := identity.1
    projection := identity.2.1
    expert := decimal identity.2.2.1
    bytes := decimal (call.readSize identity)
    kind := identity.2.2.2
    content := contents identity }

@[simp]
theorem identity_writtenEntry (fields : List (List Char × Json)) (identity : Identity) :
    (writtenEntry call layer contents fields identity).identity = identity := by
  rw [Entry.identity, writtenEntry, intOf_decimal]

theorem posix_isRelative (isName : Node.IsName (call.fileName identity)) (layer : Int) :
    (posix (call.readPath layer identity)).head? ≠ some '/' ∧
      "..".toList ∉ pathParts (posix (call.readPath layer identity)) := by
  constructor
  · intro same
    cases same
  · rw [readPath_parts isName, Call.readPath, Call.fileName, readName_eq]
    intro member
    rcases List.mem_cons.mp member with same | member
    · cases same
    · rcases List.mem_cons.mp member with same | member
      · cases same
      · cases List.mem_singleton.mp member

theorem TruthfulFile.listed {version : Int} {actual : List (List Char × C)} (valid : call.Valid)
    (supported : version = 1 ∨ version = 2)
    (truthful : TruthfulFile format call (call.context version) layer contents item identity)
    (isName : Node.IsName (call.fileName identity)) (member : identity ∈ call.identities)
    (found : actual.lookup (posix (call.readPath layer identity)) = some (contents identity))
    (readable : format.isReadable (contents identity) = true)
    (size : format.size (contents identity) = call.readSize identity) :
    ∃ entry, Listed format (call.context version) layer actual item entry ∧ entry.identity = identity ∧
      entry.relative = posix (call.readPath layer identity) ∧ entry.content = contents identity := by
  obtain ⟨fields, rfl, path, declared, digest⟩ := truthful.fields
  obtain ⟨numaBound, expertBound⟩ := mem_expectedIdentities.mp member
  have isSize : (call.context version).size identity.2.1 identity.2.2.2 = call.readSize identity := by
    rw [Call.readSize, readSize_eq]
    rfl
  have positive : 0 < format.size (contents identity) := by
    rw [size]
    exact valid.size_pos identity
  refine ⟨writtenEntry call layer contents fields identity, ?_, identity_writtenEntry fields identity, rfl, rfl⟩
  exact
    { object := rfl
      path := congrArg asText path
      isRelative := posix_isRelative isName layer
      parts := readPath_parts isName layer
      numa := matchNuma_numaName identity.1
      numaBound := numaBound
      filename := matchFile_readName _ _ _ _
      expertBound := (intOf_decimal identity.2.2.1).symm ▸ expertBound
      found := found
      readable := readable
      declared := (congrArg positiveInt declared).trans (positiveInt_nat positive)
      encoded := (intOf_decimal (call.readSize identity)).trans isSize.symm
      size := size.trans isSize.symm
      digest := by
        rcases supported with rfl | rfl
        · exact .inl (by decide : (1 : Int) < 2)
        · refine .inr ?_
          rw [writtenEntry, digest (.inl (le_refl (2 : Int)))]
          exact format.isDigest _
      hash := fun verify => congrArg asText (digest (.inr verify)) }

theorem TruthfulLayer.accepted {tree : Listing C} {version : Int} {contents : Int → Identity → C} (valid : call.Valid)
    (covers : call.Covers expertMap) (supported : version = 1 ∨ version = 2) (wellFormed : (Node.directory tree).WellFormed)
    (nonnegative : 0 ≤ layer) (isLayer : tree.find (layerName layer) = some (.directory parts))
    (written : WrittenLayer format call expertMap parts (contents layer))
    (truthful : TruthfulLayer format call expertMap (call.context version) contents item layer) :
    ∃ count, validateLayer format (call.context version) tree item =
      .ok (count, writtenBytes format call expertMap (contents layer)) := by
  obtain ⟨fields, items, order, rfl, isIndex, isState, isCount, isFiles, isBytes, perm, each⟩ := truthful.fields
  have inParts : (Node.directory parts).WellFormed := (Node.AllWellFormed.of_mem wellFormed.2 (Listing.mem_of_find isLayer)).2
  obtain ⟨groups, collected⟩ := written.collected layer
  have all := written_perm covers
  have isName : ∀ identity ∈ call.written expertMap, Node.IsName (call.fileName identity) := fun _ =>
    written.isName inParts
  have found : ∀ identity ∈ call.written expertMap,
      groups.flatten.lookup (posix (call.readPath layer identity)) = some (contents layer identity) := by
    intro identity member
    apply lookup_of_unique ((written.mem_found_iff collected).mpr ⟨identity, member, rfl, rfl⟩)
    intro other isOther
    obtain ⟨same, isWritten, path, rfl⟩ := (written.mem_found_iff collected).mp isOther
    rw [posix_readPath_inj (isName _ member) (isName _ isWritten) path]
  obtain ⟨entries, listed, identities⟩ : ∃ entries : List (Entry C), List.Forall₂ (fun item entry =>
      Listed format (call.context version) layer groups.flatten item entry ∧
        entry.relative = posix (call.readPath layer entry.identity) ∧ entry.content = contents layer entry.identity)
      items entries ∧ entries.map Entry.identity = order := by
    apply exists_results each
    intro item identity inOrder isTruthful
    have member := perm.mem_iff.mp inOrder
    obtain ⟨entry, isListed, rfl, path, content⟩ := isTruthful.listed valid supported (isName _ member)
      (all.mem_iff.mp member) (found _ member) (written.readable _ member) (written.sizes _ member)
    exact ⟨entry, ⟨isListed, path, content⟩, rfl⟩
  have paths : entries.map Entry.relative = order.map fun identity => posix (call.readPath layer identity) := by
    rw [← identities, List.map_map]
    apply List.map_congr_left
    intro entry isEntry
    obtain ⟨_, -, -, path, -⟩ := item_of_mem listed isEntry
    exact path
  have bytes : (entries.map (format.size ·.content)).sum = writtenBytes format call expertMap (contents layer) := by
    have same : entries.map (format.size ·.content) = order.map fun identity => format.size (contents layer identity) := by
      rw [← identities, List.map_map]
      apply List.map_congr_left
      intro entry isEntry
      obtain ⟨_, -, -, -, content⟩ := item_of_mem listed isEntry
      rw [content]
      rfl
    rw [same]
    exact (perm.map _).sum_nat
  have layerListed : LayerListed format (call.context version) tree (.object fields)
      ⟨fields, layer, parts, groups, items, entries⟩ :=
    { object := rfl
      index := by
        rw [isIndex, nonnegativeInt, Json.asInt, Option.bind_some, if_pos nonnegative]
      state := by
        rw [isState]
        exact Json.equalsText_string _
      numaCount := by
        rw [isCount]
        exact positiveInt_int valid.numaCount
      directory := isLayer
      directories := by
        rintro ⟨name, node⟩ isEntry
        obtain ⟨numa, bound, rfl⟩ := (written.names name).mp (List.mem_map.mpr ⟨_, isEntry, rfl⟩)
        obtain ⟨files, isPart, -⟩ := written.files numa bound
        obtain rfl := Option.some.inj ((Listing.find_of_mem inParts.1 isEntry).symm.trans isPart)
        rfl
      numaNames := by
        rw [Listing.sameNames_iff]
        intro name
        rw [written.names, List.mem_map]
        constructor
        · rintro ⟨numa, bound, rfl⟩
          exact ⟨numa, List.mem_range.mpr bound, rfl⟩
        · rintro ⟨numa, member, rfl⟩
          exact ⟨numa, List.mem_range.mp member, rfl⟩
      groups := collected
      files := by
        rw [isFiles]
        rfl
      fileCount := by
        dsimp only
        rw [each.length_eq, perm.length_eq, all.length_eq, identities_length]
        rfl
      entries := listed.imp fun _ _ each => each.1
      distinctPaths := by
        dsimp only
        rw [paths]
        apply List.Nodup.map_on
        · intro left isLeft right isRight same
          exact posix_readPath_inj (isName _ (perm.mem_iff.mp isLeft)) (isName _ (perm.mem_iff.mp isRight)) same
        · exact perm.nodup_iff.mpr written_nodup
      distinctIdentities := by
        dsimp only
        rw [identities]
        exact perm.nodup_iff.mpr written_nodup
      inventory := by
        intro identity
        dsimp only
        rw [identities, perm.mem_iff, all.mem_iff]
        rfl
      paths := by
        intro path
        dsimp only [Layer.found]
        rw [paths, List.mem_map, List.mem_map]
        constructor
        · rintro ⟨⟨_, content⟩, member, rfl⟩
          obtain ⟨identity, isWritten, same, -⟩ := (written.mem_found_iff collected).mp member
          exact ⟨identity, perm.mem_iff.mpr isWritten, same.symm⟩
        · rintro ⟨identity, member, rfl⟩
          exact ⟨_, (written.mem_found_iff collected).mpr ⟨identity, perm.mem_iff.mp member, rfl, rfl⟩, rfl⟩
      bytes := by
        rw [isBytes]
        refine (positiveInt_nat (valid.bytes_pos written.sizes)).trans ?_
        rw [← bytes]
        rfl }
  exact ⟨_, validateLayer_ok.mpr ⟨_, layerListed, Prod.ext rfl bytes.symm⟩⟩

variable {root : Root C} {tree : Listing C} {manifest : Name} {record : C} {contents : Int → Identity → C}

/-- An accepted tree names every expert, which a saving run does when its map does. -/
theorem Written.covers (written : Written format call expertMap root tree manifest record contents)
    (accepted : validate format call root = .ok result) : call.Covers expertMap := by
  intro expert bound
  obtain ⟨accepted, listed, -⟩ := validate_ok.mp accepted
  obtain ⟨layer, isLayer⟩ := List.exists_mem_of_ne_nil _ written.valid.layers
  obtain ⟨item, found, layerListed, rfl⟩ := listed.has_layer isLayer
  obtain rfl : accepted.entries = tree := by simpa using listed.directory.symm.trans written.directory
  obtain ⟨parts, isParts, writtenLayer⟩ := written.layers _ isLayer
  obtain rfl : found.parts = parts := by simpa using layerListed.directory.symm.trans isParts
  have numa := written.valid.numaCount
  have expected : (0, Projection.gate, expert, Section.quant) ∈ call.identities :=
    mem_expectedIdentities.mpr ⟨by omega, bound⟩
  obtain ⟨entry, isEntry, same⟩ := List.mem_map.mp ((layerListed.inventory _).mpr expected)
  obtain ⟨_, -, isListed⟩ := item_of_mem layerListed.entries isEntry
  obtain ⟨files, isPart, isFile, -⟩ := isListed.located (layerListed.wellFormed listed.wellFormed) layerListed.groups
  obtain ⟨others, isOther, each⟩ := writtenLayer.files entry.numa isListed.numaBound
  obtain rfl : files = others := by simpa using isPart.symm.trans isOther
  obtain ⟨identity, isWritten, -, name, -⟩ := (each _ _).mp isFile
  obtain ⟨-, physical, below, isExpert⟩ := mem_written.mp isWritten
  have matched := isListed.filename
  rw [name, Call.fileName, matchFile_readName, Option.some.injEq, Prod.mk.injEq, Prod.mk.injEq] at matched
  rw [Entry.identity, ← matched.2.1, intOf_decimal, Prod.mk.injEq, Prod.mk.injEq, Prod.mk.injEq] at same
  exact ⟨physical, below, isExpert.trans same.2.2.1⟩

theorem manifest_ne_layerName (name : Name) (isManifest : name ∈ [manifestName, legacyManifestName]) (layer : Int) :
    name ≠ layerName layer := by
  rintro rfl
  rcases List.mem_cons.mp isManifest with same | other
  · cases same
  · cases List.mem_singleton.mp other

theorem Written.candidates (written : Written format call expertMap root tree manifest record contents)
    (isManifest : manifest ∈ [manifestName, legacyManifestName]) :
    ([manifestName, legacyManifestName].filter fun name => (tree.find name).isSome) = [manifest] := by
  have present : ∀ name ∈ [manifestName, legacyManifestName], (tree.find name).isSome = decide (name = manifest) := by
    intro name isCandidate
    rw [Bool.eq_iff_iff, decide_eq_true_eq, ← Option.ne_none_iff_isSome, ne_eq, Listing.find_none_iff, not_not,
      written.names]
    constructor
    · rintro (same | ⟨layer, -, same⟩)
      · exact same
      · exact absurd same (manifest_ne_layerName name isCandidate layer)
    · exact .inl
  rw [List.filter_congr present]
  rcases List.mem_cons.mp isManifest with rfl | other
  · rfl
  · rw [List.mem_singleton.mp other]
    rfl

theorem Written.loaded (written : Written format call expertMap root tree manifest record contents)
    (isManifest : manifest ∈ [manifestName, legacyManifestName]) (text : format.load record = some (.object fields))
    (isVersion : Json.get "schema_version".toList fields = .int version)
    (schema : version = 1 ∧ manifest = legacyManifestName ∨ version = 2 ∧ manifest = manifestName) :
    loadManifest format tree = .ok (manifest, fields, version) := by
  refine loadManifest_ok.mpr ⟨written.candidates isManifest, record, written.record, ?_, ?_, ?_, ?_, ?_⟩
  · rw [text]
    rfl
  · rw [isVersion]
    rfl
  · exact schema.imp And.left And.left
  · rintro rfl
    rcases schema with ⟨-, same⟩ | ⟨different, -⟩
    · exact same
    · cases different
  · rintro rfl
    rcases schema with ⟨different, -⟩ | ⟨-, same⟩
    · cases different
    · exact same

theorem Written.wellFormed (written : Written format call expertMap root tree manifest record contents) :
    (Node.directory tree).WellFormed :=
  root.wellFormed _ written.directory

theorem Written.symlinks (written : Written format call expertMap root tree manifest record contents) :
    ∀ entry ∈ tree, entry.2.isSymlink = false := by
  rintro ⟨name, node⟩ member
  have found := Listing.find_of_mem written.wellFormed.1 member
  rcases (written.names name).mp (List.mem_map.mpr ⟨_, member, rfl⟩) with rfl | ⟨layer, isLayer, rfl⟩
  · obtain rfl := Option.some.inj (found.symm.trans written.record)
    rfl
  · obtain ⟨parts, isParts, -⟩ := written.layers layer isLayer
    obtain rfl := Option.some.inj (found.symm.trans isParts)
    rfl

theorem Written.bytes_pos (written : Written format call expertMap root tree manifest record contents) :
    0 < (call.layers.map fun layer => writtenBytes format call expertMap (contents layer)).sum := by
  obtain ⟨layer, isLayer⟩ := List.exists_mem_of_ne_nil _ written.valid.layers
  obtain ⟨parts, -, writtenLayer⟩ := written.layers layer isLayer
  exact List.sum_pos_iff_exists_pos_nat.mpr ⟨_, List.mem_map.mpr ⟨layer, isLayer, rfl⟩,
    written.valid.bytes_pos writtenLayer.sizes⟩

theorem Truthful.accepted (truthful : Truthful format call expertMap contents manifest record)
    (written : Written format call expertMap root tree manifest record contents) (covers : call.Covers expertMap) :
    ∃ result, validate format call root = .ok result := by
  obtain ⟨fields, version, items, order, text, isVersion, schema, state, weightFormat, threadpoolCount, expertNum,
    hiddenSize, intermediateSize, isItems, isBytes, perm, each⟩ := truthful.fields
  have supported : version = 1 ∨ version = 2 := schema.imp And.left And.left
  have named : version = 1 ∧ manifest = legacyManifestName ∨ version = 2 ∧ manifest = manifestName :=
    schema.imp (fun old => ⟨old.1, old.2.1⟩) fun new => ⟨new.1, new.2.1⟩
  have isManifest : manifest ∈ [manifestName, legacyManifestName] := by
    rcases named with ⟨-, rfl⟩ | ⟨-, rfl⟩
    · exact List.mem_cons_of_mem _ List.mem_cons_self
    · exact List.mem_cons_self
  have backend : backendLayoutOk fields version = .ok () := by
    rcases schema with ⟨rfl, -, text, isText, backend⟩ | ⟨rfl, -, layout, backend⟩
    · rw [backendLayoutOk, if_pos rfl, backend, require_ok]
      rcases List.mem_cons.mp isText with rfl | other
      · decide
      · rw [List.mem_singleton.mp other]
        decide
    · rw [backendLayoutOk, if_neg (by decide), require_bind_ok, require_ok, layout]
      refine ⟨Json.equalsText_string _, ?_⟩
      rcases backend with absent | ⟨text, isText, present⟩
      · rw [absent]
        rfl
      · rw [present]
        rcases List.mem_cons.mp isText with rfl | other
        · decide
        · rw [List.mem_singleton.mp other]
          decide
  -- each entry of the manifest with its layer and its counts
  obtain ⟨results, listed, layers⟩ : ∃ results : List (Int × Nat × Nat), List.Forall₂ (fun item result =>
      layerIndexOf item = some result.1 ∧
        validateLayer format (call.context version) tree item = .ok result.2 ∧
        result.2.2 = writtenBytes format call expertMap (contents result.1)) items results ∧
      results.map Prod.fst = order := by
    apply exists_results each
    intro item layer inOrder isTruthful
    have isLayer := perm.mem_iff.mp inOrder
    obtain ⟨parts, isParts, writtenLayer⟩ := written.layers layer isLayer
    have nonnegative := written.valid.nonnegative layer isLayer
    obtain ⟨count, accepted⟩ := isTruthful.accepted written.valid covers supported written.wellFormed nonnegative isParts
      writtenLayer
    refine ⟨(layer, count, _), ⟨?_, accepted, rfl⟩, rfl⟩
    obtain ⟨layerFields, _, _, rfl, isIndex, -⟩ := isTruthful.fields
    rw [layerIndexOf, asObject, Option.bind_some, isIndex, nonnegativeInt, Json.asInt, Option.bind_some,
      if_pos nonnegative]
  have total : ((results.map Prod.snd).map Prod.snd).sum =
      (call.layers.map fun layer => writtenBytes format call expertMap (contents layer)).sum := by
    have same : (results.map Prod.snd).map Prod.snd =
        order.map fun layer => writtenBytes format call expertMap (contents layer) := by
      rw [← layers, List.map_map, List.map_map]
      apply List.map_congr_left
      intro result isResult
      obtain ⟨_, -, -, -, bytes⟩ := item_of_mem listed isResult
      exact bytes
    rw [same]
    exact (perm.map _).sum_nat
  have sorted : order.insertionSort (· ≤ ·) = call.layers := by
    have sortedOrder : (order.insertionSort (· ≤ ·)).Pairwise (· ≤ ·) := List.pairwise_insertionSort (· ≤ ·) order
    have sortedLayers : call.layers.Pairwise (· ≤ ·) := List.pairwise_insertionSort (· ≤ ·) call.layerIndices.dedup
    exact ((List.perm_insertionSort (· ≤ ·) order).trans perm).eq_of_pairwise' sortedOrder sortedLayers
  have distinct : call.layers.Nodup :=
    (List.perm_insertionSort (· ≤ ·) call.layerIndices.dedup).nodup_iff.mpr (List.nodup_dedup _)
  have treeListed : TreeListed format call root ⟨tree, manifest, fields, version, items, order, results.map Prod.snd⟩ :=
    { valid := written.valid
      isAbsolute := written.isAbsolute
      directory := written.directory
      loaded := written.loaded isManifest text isVersion named
      metadata :=
        { state := state ▸ Json.equalsText_string _
          weightFormat := weightFormat ▸ Json.equalsText_string _
          threadpoolCount := threadpoolCount ▸ Json.equalsInt_int _
          expertNum := expertNum ▸ Json.equalsInt_int _
          hiddenSize := hiddenSize ▸ Json.equalsInt_int _
          intermediateSize := intermediateSize ▸ Json.equalsInt_int _ }
      backend := backend
      items := congrArg asArray isItems
      indices := by
        dsimp only
        rw [← layers, List.forall₂_map_right_iff]
        exact listed.imp fun _ _ each => each.1
      distinct := perm.nodup_iff.mpr distinct
      layers := sorted
      counts := by
        dsimp only
        rw [List.forall₂_map_right_iff]
        exact listed.imp fun _ _ each => each.2.1
      bytes := by
        dsimp only
        rw [isBytes, total]
        exact positiveInt_nat written.bytes_pos
      symlinks := written.symlinks
      names := by
        rw [Listing.sameNames_iff]
        intro name
        dsimp only
        rw [written.names, List.mem_cons, List.mem_map]
        exact or_congr Iff.rfl (exists_congr fun layer => and_congr Iff.rfl eq_comm) }
  exact ⟨_, validate_ok.mpr ⟨_, treeListed, rfl⟩⟩

/-- An accepted tree is what the loader opens exactly when the numbers in its names are
written as the loader writes them; a written tree that its manifest lists truthfully is
accepted exactly when the run has saved every expert. -/
theorem validated_tree_is_loaded (format : Format C) (call : Call) (root : Root C) :
    (∀ result, validate format call root = .ok result →
      ∃ tree, root.node = some (.directory tree) ∧ (LoaderOpens format call tree ↔ CanonicalNames tree)) ∧
      ∀ expertMap tree manifest record contents, Written format call expertMap root tree manifest record contents →
        Truthful format call expertMap contents manifest record →
        ((∃ result, validate format call root = .ok result) ↔ call.Covers expertMap) := by
  constructor
  · intro result accepted
    obtain ⟨manifest, listed, -⟩ := validate_ok.mp accepted
    exact ⟨manifest.entries, listed.directory, canonical_of_loaderOpens, listed.loaderOpens⟩
  · intro expertMap tree manifest record contents written truthful
    constructor
    · rintro ⟨result, accepted⟩
      exact written.covers accepted
    · exact truthful.accepted written

end

/-! A tree of one layer, one part and one expert: the name of the quantised gate matrix
has the expert's number in the given text. -/

abbrev SampleContent := Nat × Option Json

def sampleFormat : Format SampleContent :=
  { size := Prod.fst
    load := Prod.snd
    sha256 := fun _ => List.replicate 64 '0'
    isReadable := fun _ => true
    isDigest := fun _ => by decide }

def sampleCall : Call :=
  { layerIndices := [0]
    numaCount := 1
    expertNum := 1
    hiddenSize := 64
    intermediateSize := 64
    verifyHashes := none }

def sampleName (expert : List Char) (identity : Identity) : Name :=
  fileName identity.2.1 (if identity = (0, .gate, 0, .quant) then expert else decimal identity.2.2.1)
    (decimal (sampleCall.readSize identity)) identity.2.2.2

def sampleFile (expert : List Char) (identity : Identity) : Json :=
  .object [("path".toList, .string (posix [layerName 0, numaName identity.1, sampleName expert identity])),
    ("size_bytes".toList, .int (sampleCall.readSize identity)), ("sha256".toList, .string (List.replicate 64 '0'))]

def sampleLayer (expert : List Char) : Json :=
  .object [("index".toList, .int 0), ("state".toList, .string "ready".toList), ("numa_count".toList, .int 1),
    ("files".toList, .array (sampleCall.identities.map (sampleFile expert))), ("bytes".toList, .int 13056)]

def sampleManifest (expert : List Char) : Json :=
  .object [("schema_version".toList, .int 2), ("layout".toList, .string int8WeightLayout),
    ("state".toList, .string "ready".toList), ("expert_weight_format".toList, .string "int8".toList),
    ("threadpool_count".toList, .int 1), ("expert_num".toList, .int 1), ("hidden_size".toList, .int 64),
    ("intermediate_size".toList, .int 64), ("layers".toList, .array [sampleLayer expert]), ("bytes".toList, .int 13056)]

def sampleContents (_ : Int) (identity : Identity) : SampleContent :=
  (sampleCall.readSize identity, none)

def sampleParts (expert : List Char) : Listing SampleContent :=
  [(numaName 0, .directory (sampleCall.identities.map fun identity =>
    (sampleName expert identity, .file (sampleContents 0 identity))))]

def sampleTree (expert : List Char) : Listing SampleContent :=
  [(manifestName, .file (0, some (sampleManifest expert))), (layerName 0, .directory (sampleParts expert))]

/-- The number as the loader writes it, and with a leading zero. -/
def sampleTexts : List (List Char) := [['0'], ['0', '0']]

theorem sampleTree_wellFormed : ∀ expert ∈ sampleTexts, (Node.directory (sampleTree expert)).WellFormed := by
  decide +kernel

def sampleRoot (expert : List Char) (isSample : expert ∈ sampleTexts) : Root SampleContent :=
  { isAbsolute := true
    node := some (.directory (sampleTree expert))
    wellFormed := by
      intro directory same
      rw [← Option.some.inj same]
      exact sampleTree_wellFormed expert isSample }

theorem ok_of_isOk {checked : Except ε α} (passed : checked.isOk = true) : ∃ result, checked = .ok result := by
  cases checked with
  | error error => cases passed
  | ok result => exact ⟨result, rfl⟩

/-- A tree whose name for expert 0 is written `00` is accepted, and the loader's file does not exist. -/
theorem leading_zero_is_accepted :
    (∃ result, validate sampleFormat sampleCall (sampleRoot ['0', '0'] (by decide)) = .ok result) ∧
      ∀ content, (sampleCall.readPath 0 (0, .gate, 0, .quant), some content) ∉
        Node.leavesOf [] (sampleTree ['0', '0']) := by
  constructor
  · exact ok_of_isOk (by decide +kernel)
  · have absent : sampleCall.readPath 0 (0, .gate, 0, .quant) ∉
        (Node.leavesOf [] (sampleTree ['0', '0'])).map Prod.fst := by decide +kernel
    intro content member
    exact absent (List.mem_map.mpr ⟨_, member, rfl⟩)

theorem sample_written : Written sampleFormat sampleCall id (sampleRoot ['0'] (by decide)) (sampleTree ['0']) manifestName
    (0, some (sampleManifest ['0'])) sampleContents := by
  have all : sampleCall.written id = sampleCall.identities := by decide +kernel
  have named : ∀ identity ∈ sampleCall.identities,
      sampleName ['0'] identity = sampleCall.fileName identity ∧ identity.1 = 0 := by
    decide +kernel
  have onlyLayer : sampleCall.layers = [0] := by decide
  constructor
  · exact ⟨by decide, by decide, by decide, by decide, by decide, by decide, by decide⟩
  · rfl
  · rfl
  · intro name
    rw [onlyLayer]
    simp [sampleTree, Listing.names]
  · rfl
  · intro layer isLayer
    rw [onlyLayer, List.mem_singleton] at isLayer
    subst isLayer
    refine ⟨sampleParts ['0'], by rfl, ?_, ?_, ?_, ?_⟩
    · intro name
      simp [sampleParts, sampleCall, Listing.names]
    · intro numa bound
      obtain rfl : numa = 0 := Nat.lt_one_iff.mp bound
      refine ⟨_, rfl, ?_⟩
      intro name node
      rw [all, List.mem_map]
      constructor
      · rintro ⟨identity, member, same⟩
        rw [Prod.mk.injEq] at same
        exact ⟨identity, member, (named identity member).2, same.1 ▸ (named identity member).1, same.2.symm⟩
      · rintro ⟨identity, member, -, rfl, rfl⟩
        exact ⟨identity, member, by rw [(named identity member).1]⟩
    · intro identity member
      rfl
    · intro identity member
      rfl

theorem sample_truthful : Truthful sampleFormat sampleCall id sampleContents manifestName (0, some (sampleManifest ['0'])) := by
  have named : ∀ identity ∈ sampleCall.identities, sampleName ['0'] identity = sampleCall.fileName identity := by
    decide +kernel
  have layer : TruthfulLayer sampleFormat sampleCall id (sampleCall.context 2) sampleContents (sampleLayer ['0']) 0 := by
    refine ⟨_, sampleCall.identities.map (sampleFile ['0']), sampleCall.identities, rfl, rfl, rfl, rfl, rfl, ?_,
      (written_perm fun expert bound => ⟨expert, bound, rfl⟩).symm, ?_⟩
    · exact congrArg Json.int (by decide +kernel)
    · rw [List.forall₂_map_left_iff, List.forall₂_same]
      intro identity member
      refine ⟨_, rfl, ?_, rfl, fun _ => rfl⟩
      rw [Call.readPath, ← named identity member]
      rfl
  refine ⟨_, 2, [sampleLayer ['0']], [0], rfl, rfl, .inr ⟨rfl, rfl, rfl, .inl (by decide)⟩, rfl, rfl, rfl, rfl, rfl, rfl, rfl, ?_,
    ?_, .cons layer .nil⟩
  · exact congrArg Json.int (by decide +kernel)
  · decide

theorem sample_tree_is_loaded :
    ∃ tree, (sampleRoot ['0'] (by decide)).node = some (.directory tree) ∧
      (LoaderOpens sampleFormat sampleCall tree ↔ CanonicalNames tree) := by
  obtain ⟨opens, accepted⟩ := validated_tree_is_loaded sampleFormat sampleCall (sampleRoot ['0'] (by decide))
  obtain ⟨result, done⟩ := (accepted id _ _ _ _ sample_written sample_truthful).mpr fun expert bound => ⟨expert, bound, rfl⟩
  exact opens result done

end KtKernel.Sft.WeightManifest
