import KtKernel.Sft.WeightStoreRuns

namespace KtKernel.Sft.WeightStore

open KtKernel.Data
open Ephemeral (Call Faults Format FileRecord LayerRecord Shm manifestName temporaryName inspect publish scanLayer staged
  uniqueLayers)

variable {C : Type} {format : Format C} {faults : Faults C} {call : Call} {shm published : Shm C} {world : World C}
  {layers : List LayerRecord} {layer : LayerRecord}

/-! ## What a scan says of a layer -/

/-- The directory of a scanned layer: its parts and nothing else, each with files only. -/
structure Scanned (root : Listing C) (numaCount : Nat) (record : LayerRecord) : Prop where
  isReady : record.state = ready
  count : record.numaCount = numaCount
  directory : ∃ entries : Listing C, root.find (layerName record.index) = some (.directory entries) ∧
    (∀ name ∈ Listing.names entries, ∃ numa < numaCount, name = numaName numa) ∧
    ∀ numa < numaCount, ∃ files, entries.find (numaName numa) = some (.directory files) ∧
      ∀ entry ∈ files, ∃ content, entry.2 = .file content

/-- Each step of a fold that succeeds has succeeded. -/
theorem foldlM_each {ε σ : Type} {step : σ → α → Except ε σ} {items : List α} {first last : σ}
    (ran : items.foldlM step first = .ok last) (member : item ∈ items) : ∃ before after, step before item = .ok after := by
  induction items generalizing first with
  | nil => cases member
  | cons head items rest =>
      rw [List.foldlM_cons, bind_ok] at ran
      obtain ⟨next, stepped, later⟩ := ran
      rcases List.mem_cons.mp member with rfl | inside
      · exact ⟨first, next, stepped⟩
      · exact rest later inside

theorem scanFile_file (scanned : Ephemeral.scanFile format index numa expertNum found entry = .ok result) :
    ∃ content, entry.2 = .file content := by
  obtain ⟨name, node⟩ := entry
  cases node with
  | file content => exact ⟨content, rfl⟩
  | directory entries => cases scanned
  | link leadsTo => cases scanned

theorem scanNuma_directory {entries : Listing C}
    (scanned : Ephemeral.scanNuma format index expertNum entries found numa = .ok result) :
    ∃ files, entries.find (numaName numa) = some (.directory files) ∧
      ∀ entry ∈ files, ∃ content, entry.2 = .file content := by
  rw [Ephemeral.scanNuma] at scanned
  split at scanned
  · rename_i files directory
    refine ⟨files, directory, fun entry member => ?_⟩
    obtain ⟨before, after, stepped⟩ := foldlM_each scanned member
    exact scanFile_file stepped
  · cases scanned

theorem scanLayer_scanned {root : Listing C} (scanned : scanLayer format root numaCount expertNum index = .ok record) :
    record.index = index ∧ Scanned root numaCount record := by
  rw [scanLayer] at scanned
  split at scanned
  · rename_i entries found
    split at scanned
    · cases scanned
    · split at scanned
      · cases scanned
      · rename_i same
        split at scanned
        · cases scanned
        · rename_i observed files folded
          split at scanned
          · cases scanned
          · rw [← Except.ok.inj scanned]
            refine ⟨rfl, rfl, rfl, entries, found, fun name member => ?_, fun numa inside => ?_⟩
            · have known := (Listing.sameNames_iff.mp (by simpa using same) name).mp member
              obtain ⟨numa, inside, rfl⟩ := List.mem_map.mp known
              exact ⟨numa, List.mem_range.mp inside, rfl⟩
            · obtain ⟨before, after, stepped⟩ := foldlM_each folded (List.mem_range.mpr inside)
              exact scanNuma_directory stepped
  · cases scanned

theorem publish_ok (ran : publish format faults call shm = (published, .ok name)) :
    ∃ layers, inspect format faults call (staged shm) = .ok layers ∧
      published.ready = some (.directory ((staged shm).create manifestName
        (format.dump (Ephemeral.manifest call layers)))) := by
  cases checked : Ephemeral.checkCall format call shm with
  | error error =>
      rw [publish, checked] at ran
      cases ran
  | ok admitted =>
      obtain ⟨before, lease⟩ := admitted
      by_cases removes : lease = true ∧ faults.unlinkLease = true
      · rw [publish, checked] at ran
        dsimp only at ran
        rw [if_pos removes] at ran
        cases ran
      · rw [Ephemeral.publish_eq checked removes] at ran
        cases inspected : inspect format faults call (staged shm) with
        | error error =>
            rw [inspected] at ran
            cases ran
        | ok layers =>
            rw [← Ephemeral.publish_eq checked removes] at ran
            refine ⟨layers, rfl, ?_⟩
            cases opens : faults.openTemporary with
            | true =>
                rw [Ephemeral.publish_unopened checked removes inspected opens] at ran
                cases ran
            | false =>
                by_cases goes : Ephemeral.Goes faults shm
                · rw [Ephemeral.publish_done checked removes inspected opens goes, Prod.mk.injEq] at ran
                  rw [← ran.1]
                · obtain ⟨other, content, error, -, left⟩ :=
                    Ephemeral.publish_leaves checked removes inspected opens goes
                  rw [left, Prod.mk.injEq] at ran
                  cases ran.2

theorem indices_of_scanned {root : Listing C}
    (each : List.Forall₂ (fun index record => scanLayer format root numaCount expertNum index = .ok record)
      indices records) : records.map LayerRecord.index = indices := by
  induction each with
  | nil => rfl
  | cons first _ rest => rw [List.map_cons, rest, (scanLayer_scanned first).1]

theorem inspect_scanned (inspected : inspect format faults call (staged shm) = .ok layers) :
    (∀ name, name ∈ (staged shm).names ↔ ∃ record ∈ layers, name = layerName record.index) ∧
      (layers.map LayerRecord.index).Nodup ∧
      ∀ record ∈ layers, Scanned (staged shm) call.numaCount.toNat record ∧
        scanLayer format (staged shm) call.numaCount.toNat call.expertNum.toNat record.index = .ok record := by
  simp only [inspect] at inspected
  split at inspected
  · cases inspected
  · split at inspected
    · cases inspected
    · rename_i same
      simp only [Bool.not_eq_true, Bool.not_eq_false'] at same
      cases scanned : (uniqueLayers call.layerIndices).mapM
          (scanLayer format (staged shm) call.numaCount.toNat call.expertNum.toNat) with
      | error error =>
          rw [scanned] at inspected
          cases inspected
      | ok records =>
          rw [scanned] at inspected
          have found : records = layers := by
            cases records with
            | nil => cases inspected
            | cons record records => exact Except.ok.inj inspected
          subst found
          have each := mapM_ok.mp scanned
          have indices := indices_of_scanned each
          refine ⟨fun name => ?_, ?_, fun record member => ?_⟩
          · rw [Listing.sameNames_iff.mp same name, ← indices, List.map_map]
            simp only [List.mem_map, Function.comp]
            exact exists_congr fun record => and_congr_right' eq_comm
          · rw [indices]
            exact Ephemeral.uniqueLayers_nodup call.layerIndices
          · obtain ⟨index, -, here⟩ := item_of_mem each member
            obtain ⟨named, facts⟩ := scanLayer_scanned here
            rw [← named] at here
            exact ⟨facts, here⟩

/-- The paths below a layer: its directory, its parts and the files of its record. -/
theorem entryAt_scanned {root : Listing C} (scanned : Scanned root numaCount record)
    (listed_ : (Ephemeral.listed record.files).Perm
      (Ephemeral.sized format ((root.find (layerName record.index)).elim [] (Node.leaves [layerName record.index]))))
    (rest : List Name) :
    (Node.directory root).entryAt (layerName record.index :: rest) ≠ none →
      rest = [] ∨ (∃ numa < numaCount, rest = [numaName numa]) ∨
        ∃ numa < numaCount, ∃ name, rest = [numaName numa, name] ∧
          layerName record.index :: rest ∈ paths record := by
  intro present
  obtain ⟨entries, found, names, parts⟩ := scanned.directory
  rw [Node.entryAt, found] at present
  cases rest with
  | nil => exact .inl rfl
  | cons part rest =>
      rw [Option.bind_some, Node.entryAt] at present
      have known : part ∈ Listing.names entries := by
        by_contra absent
        rw [Listing.find_none_iff.mpr absent] at present
        exact present rfl
      obtain ⟨numa, inside, rfl⟩ := names part known
      obtain ⟨files, here, only⟩ := parts numa inside
      rw [here, Option.bind_some] at present
      cases rest with
      | nil => exact .inr (.inl ⟨numa, inside, rfl⟩)
      | cons name rest =>
          rw [Node.entryAt] at present
          cases entry : Listing.find name files with
          | none =>
              rw [entry] at present
              exact absurd rfl present
          | some node =>
              obtain ⟨content, isFile⟩ := only (name, node) (Listing.mem_of_find entry)
              have isFile : node = .file content := isFile
              subst isFile
              rw [entry, Option.bind_some] at present
              cases rest with
              | cons deeper rest => exact absurd rfl present
              | nil =>
                  refine .inr (.inr ⟨numa, inside, name, rfl, ?_⟩)
                  have leaf : ([layerName record.index, numaName numa, name], some content) ∈
                      Node.leaves [layerName record.index] (.directory entries) := by
                    rw [Node.leaves, Node.mem_leavesOf]
                    refine ⟨_, Listing.mem_of_find here, ?_⟩
                    rw [Node.leaves, Node.mem_leavesOf]
                    refine ⟨_, Listing.mem_of_find entry, ?_⟩
                    rw [Node.leaves]
                    exact List.mem_singleton_self _
                  rw [found] at listed_
                  have sized_ := listed_.mem_iff.mpr (List.mem_map_of_mem
                    (f := fun leaf => (leaf.1, leaf.2.map format.size)) leaf)
                  obtain ⟨file, own, same⟩ := List.mem_map.mp sized_
                  exact List.mem_map.mpr ⟨file, own, (Prod.mk.inj same).1⟩

theorem file_of_scanned {root : Listing C} (wellFormed : Node.AllWellFormed root)
    (scanned : Scanned root numaCount record)
    (listed_ : (Ephemeral.listed record.files).Perm
      (Ephemeral.sized format ((root.find (layerName record.index)).elim [] (Node.leaves [layerName record.index]))))
    (own : file ∈ record.files) :
    ∃ numa < numaCount, ∃ name content, file.path = [layerName record.index, numaName numa, name] ∧
      Node.IsName name ∧ format.size content = file.sizeBytes ∧
      (Node.directory root).entryAt file.path = some (.file content) := by
  obtain ⟨entries, found, names, parts⟩ := scanned.directory
  rw [found] at listed_
  have leaf := listed_.mem_iff.mp (List.mem_map_of_mem (f := fun file => (file.path, some file.sizeBytes)) own)
  obtain ⟨⟨path, content⟩, inside, same⟩ := List.mem_map.mp leaf
  obtain ⟨here, size⟩ := Prod.mk.inj same
  change (path, content) ∈ Node.leaves [layerName record.index] (.directory entries) at inside
  rw [Node.leaves, Node.mem_leavesOf] at inside
  obtain ⟨⟨part, node⟩, member, below⟩ := inside
  obtain ⟨numa, within, rfl⟩ := names part (List.mem_map_of_mem member)
  obtain ⟨files, there, only⟩ := parts numa within
  have own := (wellFormed.of_mem (Listing.mem_of_find found)).2
  rw [Node.WellFormed] at own
  have same := (Listing.find_of_mem own.1 member).symm.trans there
  rw [Option.some.injEq] at same
  subst same
  have inner := (own.2.of_mem member).2
  rw [Node.WellFormed] at inner
  rw [Node.leaves, Node.mem_leavesOf] at below
  obtain ⟨⟨name, node⟩, inFiles, leaf⟩ := below
  obtain ⟨bytes, isFile⟩ := only _ inFiles
  change node = .file bytes at isFile
  subst isFile
  rw [Node.leaves, List.mem_singleton, Prod.mk.injEq] at leaf
  obtain ⟨rfl, rfl⟩ := leaf
  have sizes : format.size bytes = file.sizeBytes := Option.some.inj size
  refine ⟨numa, within, name, bytes, here.symm, (inner.2.of_mem inFiles).1, sizes, ?_⟩
  rw [← here]
  change (Node.directory root).entryAt [layerName record.index, numaName numa, name] = _
  rw [Node.entryAt, found, Option.bind_some, Node.entryAt, there, Option.bind_some, Node.entryAt,
    Listing.find_of_mem inner.1 inFiles]
  rfl

/-! ## Reading the manifest back -/

/-- A path that its text gives back. -/
def ReadsBack (path : List Name) : Prop :=
  pathParts (posix path) = path ∧ (posix path).head? ≠ some '/'

theorem readsBack_layer (isName : Node.IsName name) : ReadsBack [layerName index, numaName numa, name] := by
  constructor
  · refine pathParts_posix (List.cons_ne_nil _ _) fun part member => ?_
    simp only [List.mem_cons, List.not_mem_nil, or_false] at member
    rcases member with rfl | rfl | rfl
    · exact isName_layerName index
    · exact isName_numaName numa
    · exact isName
  · exact fun same => by cases same

theorem fileRecord_toJson {file : FileRecord} (reads : ReadsBack file.path) : fileRecord file.toJson = some file := by
  change (if (posix file.path).head? = some '/' then none
    else some (⟨pathParts (posix file.path), (Int.ofNat file.sizeBytes).toNat⟩ : FileRecord)) = _
  rw [if_neg reads.2, reads.1]
  rfl

theorem fileRecords_toJson {files : List FileRecord} (reads : ∀ file ∈ files, ReadsBack file.path) :
    (files.map FileRecord.toJson).mapM fileRecord = some files := by
  induction files with
  | nil => rfl
  | cons file files rest =>
      rw [List.map_cons, List.mapM_cons, fileRecord_toJson (reads file List.mem_cons_self),
        rest fun other member => reads other (List.mem_cons_of_mem _ member)]
      rfl

theorem layerRecord_toJson {record : LayerRecord} (reads : ∀ file ∈ record.files, ReadsBack file.path) :
    layerRecord record.toJson = some record := by
  have files := fileRecords_toJson reads
  change ((record.files.map FileRecord.toJson).mapM fileRecord).bind (fun files =>
    some (⟨record.index, (Int.ofNat record.numaCount).toNat, record.state, files, (Int.ofNat record.bytes).toNat⟩ :
      LayerRecord)) = _
  rw [files]
  rfl

theorem layerRecords_toJson (reads : ∀ record ∈ layers, ∀ file ∈ record.files, ReadsBack file.path) :
    (layers.map LayerRecord.toJson).mapM layerRecord = some layers := by
  induction layers with
  | nil => rfl
  | cons record layers rest =>
      rw [List.map_cons, List.mapM_cons, layerRecord_toJson (reads record List.mem_cons_self),
        rest fun other member => reads other (List.mem_cons_of_mem _ member)]
      rfl

/-! ## What opening has checked -/

theorem checkPath_ok (checked : checkPath layer seen file = .ok ()) :
    file.path ∉ seen ∧ "..".toList ∉ file.path := by
  rw [checkPath, require_bind_ok, require_ok] at checked
  obtain ⟨unseen, inside⟩ := checked
  rw [Bool.and_eq_true] at inside
  exact ⟨by simpa using unseen, by simpa using inside.1⟩

theorem checkSize_ok {tree : PathTree C} (checked : checkSize format tree file = .ok ()) : 0 < file.sizeBytes := by
  rw [checkSize] at checked
  split at checked
  · rw [require_ok, Bool.and_eq_true, decide_eq_true_eq] at checked
    exact checked.1
  · cases checked

theorem validateFiles_ok {tree : PathTree C} {files : List FileRecord} {seen last : List (List Name)}
    (ran : files.foldlM (fun (seen : List (List Name)) file => do
      checkPath layer seen file
      checkPresent tree file
      checkSize format tree file
      pure (file.path :: seen)) seen = .ok last) :
    (files.map FileRecord.path).Nodup ∧ (∀ file ∈ files, file.path ∉ seen) ∧
      ∀ file ∈ files, "..".toList ∉ file.path ∧ 0 < file.sizeBytes := by
  induction files generalizing seen with
  | nil => exact ⟨List.nodup_nil, by simp, by simp⟩
  | cons file files rest =>
      rw [List.foldlM_cons, bind_ok] at ran
      obtain ⟨next, stepped, later⟩ := ran
      rw [bind_ok] at stepped
      obtain ⟨_, path, stepped⟩ := stepped
      rw [bind_ok] at stepped
      obtain ⟨_, present, stepped⟩ := stepped
      rw [bind_ok] at stepped
      obtain ⟨_, size, stepped⟩ := stepped
      rw [pure_ok] at stepped
      subst stepped
      obtain ⟨distinct, unseen, each⟩ := rest later
      obtain ⟨fresh, plain⟩ := checkPath_ok path
      refine ⟨List.nodup_cons.mpr ⟨fun member => ?_, distinct⟩, ?_, ?_⟩
      · obtain ⟨other, inside, same⟩ := List.mem_map.mp member
        exact unseen other inside (same ▸ List.mem_cons_self)
      · intro other member
        rcases List.mem_cons.mp member with rfl | inside
        · exact fresh
        · exact fun before => unseen other inside (List.mem_cons_of_mem _ before)
      · intro other member
        rcases List.mem_cons.mp member with rfl | inside
        · exact ⟨plain, checkSize_ok size⟩
        · exact each other inside

/-- What the checks of a layer leave to rely on. -/
structure Validated (layer : LayerRecord) : Prop where
  nonempty : layer.files ≠ []
  distinct : (paths layer).Nodup
  each : ∀ file ∈ layer.files, "..".toList ∉ file.path ∧ 0 < file.sizeBytes
  bytes : (layer.files.map FileRecord.sizeBytes).sum = layer.bytes

theorem validateManifestLayer_ok {tree : PathTree C} (ran : validateManifestLayer format tree layer = .ok ()) :
    Validated layer := by
  rw [validateManifestLayer, require_bind_ok, bind_ok] at ran
  obtain ⟨some_, last, files, sets⟩ := ran
  obtain ⟨distinct, -, each⟩ := validateFiles_ok files
  rw [checkFileSet, require_bind_ok, require_ok] at sets
  exact ⟨by simpa using some_, distinct, each, by simpa using sets.2⟩

theorem forM_ok {ε : Type} {body : α → Except ε Unit} {items : List α} (ran : items.forM body = .ok ()) :
    ∀ item ∈ items, body item = .ok () := by
  induction items with
  | nil => simp
  | cons head items rest =>
      change (body head >>= fun _ => items.forM body) = .ok () at ran
      rw [bind_ok] at ran
      obtain ⟨_, first, later⟩ := ran
      intro item member
      rcases List.mem_cons.mp member with rfl | inside
      · exact first
      · exact rest later item inside

/-- A store that opening returns. -/
structure Returned (format : Format C) (node : Node C) (world : World C) : Prop where
  tree : world.tree = node.paths []
  manifest : ∃ content fields items, world.tree.find [manifestName] = some (.file content) ∧
    format.load content = some (.object fields) ∧ Json.get "layers".toList fields = .array items ∧
    items.mapM layerRecord = some world.layers
  checked : ∀ layer ∈ world.layers, Validated layer
  closed : world.closed = false
  deleted : world.deleted = []
  cleaned : world.cleaned = false

theorem asArray_some (found : WeightManifest.asArray item = some items) : item = .array items := by
  cases item with
  | array values => rw [Option.some.inj found]
  | _ => cases found

theorem asObject_some (found : WeightManifest.asObject item = some fields) : item = .object fields := by
  cases item with
  | object values => rw [Option.some.inj found]
  | _ => cases found

theorem openStore_ok {root : Ephemeral.RootStat} {node : Option (Node C)}
    (opened : openStore format call root node = .ok world) : ∃ entry, node = some entry ∧ Returned format entry world := by
  rw [openStore, expectSome_bind_ok] at opened
  obtain ⟨entry, rfl, opened⟩ := opened
  refine ⟨entry, rfl, ?_⟩
  dsimp only at opened
  rw [expectSome_bind_ok] at opened
  obtain ⟨content, found, opened⟩ := opened
  rw [expectSome_bind_ok] at opened
  obtain ⟨fields, loads, opened⟩ := opened
  split at opened
  · cases opened
  · change (checkMetadata call fields >>= _) = _ at opened
    rw [bind_ok] at opened
    obtain ⟨_, -, opened⟩ := opened
    rw [expectSome_bind_ok] at opened
    obtain ⟨items, isArray, opened⟩ := opened
    rw [expectSome_bind_ok] at opened
    obtain ⟨layers, records, opened⟩ := opened
    rw [require_bind_ok, bind_ok] at opened
    obtain ⟨-, _, each, opened⟩ := opened
    rw [require_bind_ok, pure_ok] at opened
    obtain ⟨-, rfl⟩ := opened
    have loaded : format.load content = some (.object fields) := by
      cases loads_ : format.load content with
      | none => simp [loads_] at loads
      | some json =>
          rw [loads_, Option.bind_some] at loads
          rw [asObject_some loads]
    refine ⟨rfl, ⟨content, fields, items, ?_, loaded, asArray_some isArray, records⟩, fun layer member => ?_, rfl, rfl,
      rfl⟩
    · split at found
      · rename_i here
        rw [← Option.some.inj found]
        exact here
      · cases found
    · have checked := forM_ok each layer member
      rw [require_bind_ok] at checked
      exact validateManifestLayer_ok checked.2

/-! ## An opened store -/

theorem find_create_self {entries : Listing C} (absent : name ∉ entries.names) (content : C) :
    (entries.create name content).find name = some (.file content) := by
  have missing := Listing.find_none_iff.mpr absent
  rw [Listing.find, Listing.create, List.lookup_append]
  rw [Listing.find] at missing
  rw [missing]
  simp

theorem find_create_of_ne {entries : Listing C} (different : other ≠ name) (content : C) :
    (entries.create name content).find other = entries.find other := by
  have unlike : (other == name) = false := beq_eq_false_iff_ne.mpr different
  rw [Listing.find, Listing.create, List.lookup_append, Listing.find]
  cases entries.lookup other with
  | some node => rfl
  | none => simp [List.lookup_cons, unlike]

theorem allWellFormed_create {entries : Listing C} (all : Node.AllWellFormed entries) (isName : Node.IsName name)
    (content : C) : Node.AllWellFormed (entries.create name content) := by
  induction entries with
  | nil => exact ⟨isName, trivial, trivial⟩
  | cons entry entries rest =>
      obtain ⟨first, node⟩ := entry
      rw [Node.AllWellFormed] at all
      exact ⟨all.1, all.2.1, rest all.2.2⟩

structure Fresh (format : Format C) (layers : List LayerRecord) (tree : PathTree C) : Prop where
  root : tree.find [] = some .directory
  manifest : tree.isRegular [manifestName] = true
  shaped : Shaped layers
  isReady : ∀ layer ∈ layers, layer.state = ready
  intact : ∀ layer ∈ layers, Intact format tree layer
  within : ∀ path, tree.find path ≠ none →
    path = [] ∨ path = [manifestName] ∨ ∃ layer ∈ layers, layerDir layer <+: path

theorem manifest_absent (inspected : inspect format faults call (staged shm) = .ok layers) :
    manifestName ∉ (staged shm).names := by
  intro member
  obtain ⟨record, -, same⟩ := ((inspect_scanned inspected).1 _).mp member
  exact (Ephemeral.layerName_ne record.index).1 same.symm

theorem find_published (wellFormed : ∀ node, shm.staging = some node → node.WellFormed)
    (inspected : inspect format faults call (staged shm) = .ok layers) (content : C) (path : List Name) :
    PathTree.find path ((Node.directory ((staged shm).create manifestName content)).paths []) =
      (Node.directory ((staged shm).create manifestName content)).entryAt path := by
  obtain ⟨distinct, all⟩ := Ephemeral.staged_wellFormed wellFormed
  refine Node.find_paths [] path _ ?_
  rw [Node.WellFormed]
  refine ⟨?_, allWellFormed_create all (by decide) content⟩
  change (Listing.names _).Nodup
  rw [Listing.names_create]
  refine List.nodup_append.mpr ⟨distinct, List.nodup_singleton _, ?_⟩
  intro left member right other
  rw [List.mem_singleton] at other
  rintro rfl
  exact manifest_absent inspected (other ▸ member)

theorem fresh_published {content : C} (wellFormed : ∀ node, shm.staging = some node → node.WellFormed)
    (inspected : inspect format faults call (staged shm) = .ok layers)
    (validated : ∀ layer ∈ layers, Validated layer) :
    Fresh format layers ((Node.directory ((staged shm).create manifestName content)).paths []) := by
  obtain ⟨distinct, all⟩ := Ephemeral.staged_wellFormed wellFormed
  obtain ⟨names, indices, records⟩ := inspect_scanned inspected
  have absent := manifest_absent inspected
  have find := find_published wellFormed inspected content
  have below (record : LayerRecord) (rest : List Name) :
      (Node.directory ((staged shm).create manifestName content)).entryAt (layerName record.index :: rest) =
        (Node.directory (staged shm)).entryAt (layerName record.index :: rest) := by
    rw [Node.entryAt, Node.entryAt, find_create_of_ne (Ephemeral.layerName_ne record.index).1]
  have files : ∀ record ∈ layers, ∀ file ∈ record.files, ∃ numa < record.numaCount, ∃ name bytes,
      file.path = [layerName record.index, numaName numa, name] ∧ format.size bytes = file.sizeBytes ∧
        PathTree.find file.path ((Node.directory ((staged shm).create manifestName content)).paths []) =
          some (.file bytes) := by
    intro record member file own
    obtain ⟨scanned, ran⟩ := records record member
    obtain ⟨numa, inside, name, bytes, path, -, size, found⟩ :=
      file_of_scanned all scanned (Ephemeral.scanLayer_ok all ran) own
    refine ⟨numa, scanned.count ▸ inside, name, bytes, path, size, ?_⟩
    rw [find, path, below, ← path]
    exact found
  have shaped : Shaped layers := by
    refine ⟨indices, fun record member path own => ?_, fun record member => (validated record member).distinct⟩
    obtain ⟨file, inside, rfl⟩ := List.mem_map.mp own
    obtain ⟨numa, within, name, bytes, path, -, -⟩ := files record member file inside
    exact ⟨numa, within, name, path, ((validated record member).each file inside).1⟩
  refine ⟨?_, ?_, shaped, fun record member => (records record member).1.isReady, fun record member => ?_, ?_⟩
  · rw [find]
    rfl
  · rw [PathTree.isRegular, find, Node.entryAt, find_create_self absent]
    rfl
  · obtain ⟨scanned, ran⟩ := records record member
    obtain ⟨entries, found, -, parts⟩ := scanned.directory
    refine
      { whole := ⟨fun path own => ?_, fun numa inside => ?_, fun _ => ?_, fun path inside present => ?_⟩
        sizes := fun file own => ?_
        bytes := (validated record member).bytes
        nonempty := (validated record member).nonempty }
    · obtain ⟨file, inside, rfl⟩ := List.mem_map.mp own
      obtain ⟨_, _, _, bytes, _, _, there⟩ := files record member file inside
      exact PathTree.isRegular_iff.mpr ⟨bytes, there⟩
    · obtain ⟨listing, here, -⟩ := parts numa (scanned.count ▸ List.mem_range.mp inside)
      rw [find, numaDir, below, Node.entryAt, found, Option.bind_some, Node.entryAt, here]
      rfl
    · rw [find, layerDir, below, Node.entryAt, found]
      rfl
    · obtain ⟨rest, rfl⟩ := inside
      rw [find] at present
      change (Node.directory _).entryAt (layerName record.index :: rest) ≠ none at present
      rw [below] at present
      rcases entryAt_scanned scanned (Ephemeral.scanLayer_ok all ran) rest present with
        rfl | ⟨numa, inside, rfl⟩ | ⟨numa, inside, name, rfl, own⟩
      · exact .inr (.inr ⟨rfl, rfl⟩)
      · exact .inr (.inl ⟨numa, List.mem_range.mpr (scanned.count ▸ inside), rfl⟩)
      · exact .inl own
    · obtain ⟨_, _, _, bytes, _, size, there⟩ := files record member file own
      exact ⟨bytes, there, size, ((validated record member).each file own).2⟩
  · intro path present
    rw [find] at present
    cases path with
    | nil => exact .inl rfl
    | cons name rest =>
        by_cases here : name = manifestName
        · subst here
          rw [Node.entryAt, find_create_self absent] at present
          cases rest with
          | nil => exact .inr (.inl rfl)
          | cons deeper rest => exact absurd rfl present
        · rw [Node.entryAt, find_create_of_ne here] at present
          have known : name ∈ (staged shm).names := by
            by_contra missing
            rw [Listing.find_none_iff.mpr missing] at present
            exact present rfl
          obtain ⟨record, member, rfl⟩ := (names name).mp known
          exact .inr (.inr ⟨record, member, by simp [layerDir]⟩)

theorem Opened.fresh (faithful : ∀ json, format.load (format.dump json) = some json) (opened : Opened format world) :
    Fresh format world.layers world.tree ∧ world.closed = false ∧ world.deleted = [] ∧ world.cleaned = false := by
  obtain ⟨faults, call, root, shm, published, name, wellFormed, ran, opens⟩ := opened
  obtain ⟨layers, inspected, readyRoot⟩ := publish_ok ran
  obtain ⟨entry, same, returned⟩ := openStore_ok opens
  rw [readyRoot, Option.some.injEq] at same
  subst same
  obtain ⟨distinct, all⟩ := Ephemeral.staged_wellFormed wellFormed
  obtain ⟨content, fields, items, found, loads, isArray, read⟩ := returned.manifest
  have text : content = format.dump (Ephemeral.manifest call layers) := by
    rw [returned.tree, find_published wellFormed inspected, Node.entryAt,
      find_create_self (manifest_absent inspected)] at found
    cases found
    rfl
  rw [text, faithful] at loads
  have sameFields : Json.object fields = Ephemeral.manifest call layers := (Option.some.inj loads).symm
  have records : Json.array items = .array (layers.map LayerRecord.toJson) := by
    rw [← isArray]
    cases sameFields
    rfl
  cases records
  have reads : ∀ record ∈ layers, ∀ file ∈ record.files, ReadsBack file.path := by
    intro record member file own
    obtain ⟨scanned, ran⟩ := (inspect_scanned inspected).2.2 record member
    obtain ⟨numa, -, name, bytes, path, isName, -⟩ :=
      file_of_scanned all scanned (Ephemeral.scanLayer_ok all ran) own
    rw [path]
    exact readsBack_layer isName
  rw [layerRecords_toJson reads] at read
  have sameLayers : world.layers = layers := (Option.some.inj read).symm
  refine ⟨?_, returned.closed, returned.deleted, returned.cleaned⟩
  rw [returned.tree, sameLayers]
  exact fresh_published wellFormed inspected fun layer member => returned.checked layer (sameLayers ▸ member)

/-- A store that was just opened is sound and in order. -/
theorem Opened.rests (faithful : ∀ json, format.load (format.dump json) = some json) (opened : Opened format world)
    (pid : Nat) : Sound pid world ∧ Tidy format world := by
  obtain ⟨fresh, closed, deleted, cleaned⟩ := opened.fresh faithful
  have alive : ∀ layer ∈ world.layers, layer.state ≠ consumed := by
    intro layer member
    rw [fresh.isReady layer member]
    decide
  constructor
  · exact
      { current := rfl
        shaped := fresh.shaped
        back := fun layer member => ⟨layer, member, .refl layer⟩
        forth := fun layer member => ⟨layer, member, .refl layer⟩
        regular := fun path member => by
          obtain ⟨layer, inside, own⟩ := mem_listed.mp member
          exact .inr ((fresh.intact layer inside).whole.regular path own)
        absent := fun path _ known => by simp [deleted] at known
        once := by
          rw [deleted]
          exact List.nodup_nil
        only := fun path member => by simp [deleted] at member
        deletes := fun path member => .inl member
        consumed := fun layer member done => absurd done (alive layer member)
        cleaned := fun done => by simp [cleaned] at done
        closes := id }
  · exact
      { current := rfl
        shaped := fresh.shaped
        root := fresh.root
        manifest := fresh.manifest
        settled := fun layer member _ => .inl ⟨fresh.isReady layer member, fresh.intact layer member⟩
        within := fresh.within }

/-! ## Runs -/

theorem reachable_perform (reached : (machine format signals pid).Reachable world) (action : Action) :
    (machine format signals pid).Reachable (perform format signals pid world action).2 :=
  .step reached (rfl : (machine format signals pid).step world action = some _)

theorem reachable_rests (faithful : ∀ json, format.load (format.dump json) = some json)
    (reached : (machine format signals pid).Reachable world) : Sound pid world ∧ Rests format world := by
  induction reached with
  | initial opened =>
      obtain ⟨sound, tidy⟩ := Opened.rests faithful opened pid
      exact ⟨sound, .inr tidy⟩
  | step _ moved induction =>
      obtain ⟨sound, rests⟩ := induction
      cases moved
      refine ⟨?_, rests_perform rests _⟩
      obtain ⟨layers, gone, kept⟩ := sound.tracked _
      exact kept.sound

/-- The life cycle of a store that was opened on a published root. -/
theorem store_life_cycle (faithful : ∀ json, format.load (format.dump json) = some json)
    (reached : (machine format signals pid).Reachable world) (action : Action) :
    LifeCycle format signals pid world action (perform format signals pid world action).1
      (perform format signals pid world action).2 := by
  obtain ⟨sound, rests⟩ := reachable_rests faithful reached
  exact lifeCycle sound rests action

/-- A staging root with one layer of one expert. -/
def sampleShm : Shm Json :=
  ⟨some (.directory [Ephemeral.smallLayer]), none⟩

def sampleRoot : Ephemeral.RootStat :=
  { Ephemeral.smallCall.root with name := "kt-int8-run-00".toList }

def samplePublished : Shm Json :=
  (publish Ephemeral.smallFormat Ephemeral.noFaults Ephemeral.smallCall sampleShm).1

def sampleWorld : World Json :=
  match openStore Ephemeral.smallFormat Ephemeral.smallCall sampleRoot samplePublished.ready with
  | .ok world => world
  | .error _ => ⟨[], [], [], true, 0, [], true⟩

theorem sampleWorld_opened : Opened Ephemeral.smallFormat sampleWorld := by
  refine ⟨Ephemeral.noFaults, Ephemeral.smallCall, sampleRoot, sampleShm, samplePublished, "kt-int8-run-00".toList, ?_,
    rfl, rfl⟩
  intro node found
  rw [← Option.some.inj found]
  decide

/-- No signal arrives. -/
def calm : Nat → Signal := fun _ => .none

/-- A store that is consumed and finished refuses a second finish; a cleanup that was cut
off leaves files that the next cleanup does not look at. -/
theorem closed_store_keeps_no_promise :
    (∃ world, (machine Ephemeral.smallFormat calm 42).Reachable world ∧ AllConsumed world ∧
        (perform Ephemeral.smallFormat calm 42 world .finish).1 = false) ∧
      ∃ world, (machine Ephemeral.smallFormat (fun _ => .exits) 42).Reachable world ∧
        (perform Ephemeral.smallFormat (fun _ => .exits) 42 world .cleanup).1 = true ∧
        ∃ path ∈ listed world.layers,
          (perform Ephemeral.smallFormat (fun _ => .exits) 42 world .cleanup).2.tree.isRegular path = true := by
  constructor
  · refine ⟨_, reachable_perform (reachable_perform (.initial sampleWorld_opened) (.consumeLayer 3)) .finish, ?_, ?_⟩
    · rw [AllConsumed]
      decide +kernel
    · decide +kernel
  · refine ⟨_, reachable_perform (.initial sampleWorld_opened) .cleanup, ?_, ?_⟩
    · decide +kernel
    · decide +kernel

theorem store_life_cycle_small :
    LifeCycle Ephemeral.smallFormat calm 42 sampleWorld (.consumeLayer 3)
      (perform Ephemeral.smallFormat calm 42 sampleWorld (.consumeLayer 3)).1
      (perform Ephemeral.smallFormat calm 42 sampleWorld (.consumeLayer 3)).2 :=
  store_life_cycle (fun _ => rfl) (.initial sampleWorld_opened) _

end KtKernel.Sft.WeightStore
