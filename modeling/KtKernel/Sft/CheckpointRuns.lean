import KtKernel.Sft.CheckpointSave

namespace KtKernel.Sft.Checkpoint

open KtKernel.Data

/-! Runs of saves on one directory, and what a load finds after them. -/

section

variable {C T : Type} {storage : Storage C T} {generation : Generation} {files : Directory C} {saved : List (SavedLayer T)}

theorem Indexed.read (indexed : Indexed storage generation saved files) :
    readIndex storage files = .ok (generation.text, layerFields (saved.map (entryOf storage generation))) := by
  have content : contentOf files indexName =
      some (storage.dump (indexOf generation (saved.map (entryOf storage generation)))) := by
    rw [contentOf, indexed.index]
  have nonempty : generation.text.isEmpty = false := by
    have length := generation.isHex.1
    cases isText : generation.text with
    | nil =>
        rw [isText] at length
        cases length
    | cons char rest => rfl
  simp only [readIndex, bind_ok, require_ok, expectSome_ok, exists_const, pure_ok]
  refine ⟨_, content, indexFields generation _, ?_, ?_, ?_, ?_, generation.text, ?_, ?_, _, rfl, rfl⟩
  · rw [storage.load_dump]
    rfl
  · exact Json.equalsText_string _
  · exact Json.equalsInt_int _
  · exact Json.equalsText_string _
  · rfl
  · rw [nonempty]
    rfl

theorem layerFields_perm (entries : List (Nat × Json)) :
    (layerFields entries).Perm (entries.map fun entry => (decimal entry.1, entry.2)) :=
  List.perm_insertionSort _ _

theorem mem_layerFields {entry : List Char × Json} : entry ∈ layerFields (saved.map (entryOf storage generation)) ↔
    ∃ layer ∈ saved, entry = (decimal layer.1, (entryOf storage generation layer).2) := by
  rw [(layerFields_perm _).mem_iff, List.map_map, List.mem_map]
  exact exists_congr fun layer => and_congr Iff.rfl eq_comm

/-- The index of a save names only its own shards. -/
theorem Indexed.safe (indexed : Indexed storage generation saved files) : SafeIndex storage files := by
  intro text layers read entry member fields name isObject isName
  rw [indexed.read] at read
  obtain ⟨rfl, rfl⟩ : generation.text = text ∧ layerFields (saved.map (entryOf storage generation)) = layers := by simpa using read
  obtain ⟨layer, -, rfl⟩ := mem_layerFields.mp member
  have own := own_shardName generation layer.1
  have same : name = shardName generation layer.1 := by
    obtain rfl := Option.some.inj isObject
    rw [show Json.get "file".toList _ = Json.string (shardName generation layer.1) from rfl] at isName
    rw [safeShardName, asText, Option.bind_some, if_pos (isBasename_shardName generation layer.1)] at isName
    exact (Option.some.inj isName).symm
  rw [same]
  exact ⟨fun isIndex => indexName_not_own generation (isIndex ▸ own), encodes_own own⟩

/-- A wrapper that passes its checks has its three parameters, of the expected shapes. -/
theorem parameters_ok {wrapper : Wrapper T} {named : List (Projection × Parameter T)}
    (valid : wrapper.parameters = .ok named) :
    ∃ parameter : Projection → Parameter T, named = projections.map (fun projection => (projection, parameter projection)) ∧
      ∀ projection, (parameter projection).tensor.shape = wrapper.expectedShape projection ∧
        (parameter projection).tensor.dtype = dtypeName := by
  simp only [Wrapper.parameters, Wrapper.backendParameters, bind_ok, mapM_ok, expectSome_ok, pure_ok] at valid
  obtain ⟨found, ⟨backend, -, each⟩, units, checked, rfl⟩ := valid
  have three : ∃ parameter : Projection → Parameter T,
      found = projections.map fun projection => (projection, parameter projection) := by
    rcases each with - | ⟨⟨gate, -, rfl⟩, - | ⟨⟨up, -, rfl⟩, - | ⟨⟨down, -, rfl⟩, each⟩⟩⟩
    cases each
    exact ⟨Projection.rec gate up down, rfl⟩
  obtain ⟨parameter, rfl⟩ := three
  refine ⟨parameter, rfl, fun projection => ?_⟩
  have member : (projection, parameter projection) ∈ projections.map fun projection => (projection, parameter projection) := by
    cases projection
    all_goals simp [projections]
  obtain ⟨_, -, passed⟩ := result_of_mem checked member
  simp only [Wrapper.validateParameter, require_bind_ok, beq_iff_eq] at passed
  exact ⟨passed.1, passed.2.1⟩

theorem shapeOf_map (parameter : Projection → Parameter T) (projection : Projection) :
    shapeOf (projections.map fun projection => (projection, parameter projection)) projection =
      (parameter projection).tensor.shape := by
  cases projection
  all_goals rfl

/-! ## Reading a shard -/

theorem equalsShape_shapeEntry (shape : List Nat) : equalsShape shape (shapeEntry shape) = true := by
  rw [shapeEntry, equalsShape, Bool.and_eq_true, beq_iff_eq, List.length_map]
  refine ⟨rfl, ?_⟩
  rw [List.all_eq_true]
  rintro ⟨item, extent⟩ member
  rw [List.zip_map_left, List.mem_map] at member
  obtain ⟨⟨left, right⟩, isPair, same⟩ := member
  have equal : left = right := by
    obtain ⟨index, bound, isItem⟩ := List.mem_iff_getElem.mp isPair
    rw [List.getElem_zip, Prod.mk.injEq] at isItem
    exact isItem.1.symm.trans isItem.2
  rw [Prod.mk.injEq] at same
  obtain ⟨rfl, rfl⟩ := same
  rw [equal]
  exact Json.equalsInt_int _

theorem equalsShapes_shapesEntry {left right : Projection → List Nat} (same : ∀ projection, left projection = right projection) :
    equalsShapes left (shapesEntry right) = true := by
  obtain rfl : left = right := funext same
  simp only [equalsShapes, shapesEntry, projections, List.all_cons, List.all_nil, Bool.and_true, Bool.and_eq_true]
  exact ⟨rfl, equalsShape_shapeEntry _, equalsShape_shapeEntry _, equalsShape_shapeEntry _⟩

/-- What a load takes from the shard of a layer. -/
def tensorsOf (named : List (Projection × Parameter T)) : List (Projection × Tensor T) :=
  named.map fun (projection, parameter) => (projection, parameter.tensor)

theorem inspectTensor_archive {layer : Nat} {wrapper : Wrapper T} {parameter : Projection → Parameter T}
    {shape : Projection → List Nat}
    (shapes : ∀ projection, (parameter projection).tensor.shape = wrapper.expectedShape projection ∧
      (parameter projection).tensor.dtype = dtypeName)
    (same : ∀ projection, wrapper.expectedShape projection = shape projection) (projection : Projection) :
    inspectTensor layer (archive generation layer (projections.map fun projection => (projection, parameter projection)))
      shape projection = .ok (projection, (parameter projection).tensor) := by
  have found : (archive generation layer (projections.map fun projection =>
      (projection, parameter projection))).tensors.lookup (bufferName projection) = some (parameter projection).tensor := by
    cases projection
    all_goals rfl
  simp only [inspectTensor, bind_ok, require_ok, expectSome_ok, exists_const, pure_ok, beq_iff_eq]
  exact ⟨_, found, (shapes projection).1.trans (same projection), (shapes projection).2, rfl⟩

theorem inspect_stored {wrapper : Wrapper T} {layer : SavedLayer T} (as : SavedAs wrapper layer)
    (isStored : files (shardName generation layer.1) = some (.file (packed storage generation layer)))
    {shape : Projection → List Nat} (same : ∀ projection, wrapper.expectedShape projection = shape projection) :
    inspectLayerShard storage files layer.1 (entryOf storage generation layer).2 shape generation.text =
      .ok (tensorsOf layer.2) := by
  obtain ⟨number, named⟩ := layer
  obtain ⟨parameter, rfl, shapes⟩ := parameters_ok as.2
  have content : contentOf files (shardName generation number) = some (packed storage generation
      (number, projections.map fun projection => (projection, parameter projection))) := by
    rw [contentOf, isStored]
  simp only [inspectLayerShard, bind_ok, require_ok, expectSome_ok, exists_const, mapM_ok]
  refine ⟨_, rfl, ?_, shardName generation number, ?_, _, content, storage.size _, rfl, ?_, ?_, archive generation number _,
    storage.unpack_pack _, ?_, ?_, ?_, ?_, ?_, ?_⟩
  · refine equalsShapes_shapesEntry fun projection => ?_
    rw [← same, ← (shapes projection).1]
    exact (shapeOf_map parameter projection).symm
  · rw [show Json.get "file".toList _ = Json.string (shardName generation number) from rfl]
    rw [safeShardName, asText, Option.bind_some, if_pos (isBasename_shardName generation number)]
  · rw [decide_eq_true_eq]
    exact Int.natCast_pos.mpr (storage.size_pack _)
  · rw [decide_eq_true_eq]
  · rfl
  · exact beq_self_eq_true _
  · exact beq_self_eq_true _
  · exact beq_self_eq_true _
  · exact beq_self_eq_true _
  · have each : ∀ projection, inspectTensor number (archive generation number _) shape projection =
        .ok (projection, (parameter projection).tensor) := inspectTensor_archive shapes same
    exact .cons (each .gate) (.cons (each .up) (.cons (each .down) .nil))

/-! ## A load -/

theorem registerWrapper_fold {targets : List (Wrapper T)} {seen : List Int}
    (valid : ∀ target ∈ targets, ∃ named, target.parameters = .ok named) (distinct : (targets.map Wrapper.layerIdx).Nodup)
    (unseen : ∀ target ∈ targets, target.layerIdx ∉ seen) :
    targets.foldlM registerWrapper seen = .ok ((targets.map Wrapper.layerIdx).reverse ++ seen) := by
  induction targets generalizing seen with
  | nil => rfl
  | cons target targets rest =>
      rw [List.map_cons, List.nodup_cons] at distinct
      obtain ⟨named, isValid⟩ := valid target List.mem_cons_self
      rw [List.foldlM_cons, bind_ok]
      refine ⟨target.layerIdx :: seen, ?_, ?_⟩
      · simp only [registerWrapper, bind_ok, require_ok, exists_const, pure_ok, Bool.not_eq_true', List.contains_eq_mem,
          decide_eq_false_iff_not]
        exact ⟨unseen target List.mem_cons_self, named, isValid, trivial⟩
      · rw [rest (fun other member => valid other (List.mem_cons_of_mem _ member)) distinct.2, List.map_cons,
          List.reverse_cons, List.append_assoc]
        · rfl
        · intro other member isSeen
          rcases List.mem_cons.mp isSeen with same | old
          · exact distinct.1 (same ▸ List.mem_map.mpr ⟨other, member, rfl⟩)
          · exact unseen other (List.mem_cons_of_mem _ member) old

theorem registerKey_fold {layers : List Nat} {entries : Fields} {seen : List Int}
    (keys : entries.map Prod.fst = layers.map decimal) (distinct : layers.Nodup)
    (unseen : ∀ layer ∈ layers, (layer : Int) ∉ seen) :
    entries.foldlM registerKey seen = .ok ((layers.map Int.ofNat).reverse ++ seen) := by
  induction entries generalizing layers seen with
  | nil =>
      obtain rfl := List.map_eq_nil_iff.mp keys.symm
      rfl
  | cons entry entries rest =>
      obtain ⟨layer, others, rfl, isKey, keys⟩ := List.map_eq_cons_iff.mp keys.symm
      rw [List.nodup_cons] at distinct
      rw [List.foldlM_cons, bind_ok]
      refine ⟨layer :: seen, ?_, ?_⟩
      · simp only [registerKey, bind_ok, require_ok, expectSome_ok, exists_const, pure_ok, Bool.not_eq_true',
          List.contains_eq_mem, decide_eq_false_iff_not]
        refine ⟨layer, ?_, unseen layer List.mem_cons_self, rfl⟩
        rw [layerOfKey, ← isKey, intOf_decimal, if_pos rfl]
      · rw [rest keys.symm distinct.2, List.map_cons, List.reverse_cons, List.append_assoc]
        · rfl
        · intro other member isSeen
          rcases List.mem_cons.mp isSeen with same | old
          · exact distinct.1 (Int.ofNat.inj same ▸ member)
          · exact unseen other (List.mem_cons_of_mem _ member) old

/-- The wrappers of a load have the layers and the shapes of a save. -/
structure SameLayers (wrappers targets : List (Wrapper T)) : Prop where
  distinct : (targets.map Wrapper.layerIdx).Nodup
  valid : ∀ target ∈ targets, ∃ named, target.parameters = .ok named
  isSaved : ∀ target ∈ targets, ∃ wrapper ∈ wrappers, wrapper.layerIdx = target.layerIdx ∧
    ∀ projection, wrapper.expectedShape projection = target.expectedShape projection
  isLoaded : ∀ wrapper ∈ wrappers, ∃ target ∈ targets, target.layerIdx = wrapper.layerIdx

/-- What a load of the targets restores: the tensors that the save took from its wrappers. -/
def Restores (wrappers targets : List (Wrapper T)) (restored : List (Restored T)) : Prop :=
  List.Forall₂ (fun target copied => copied.1 = target.layerIdx ∧ ∃ wrapper ∈ wrappers,
    wrapper.layerIdx = target.layerIdx ∧ ∃ named, wrapper.parameters = .ok named ∧ copied.2 = tensorsOf named)
    targets restored

theorem mem_sortedWrappers {wrappers : List (Wrapper T)} : wrapper ∈ sortedWrappers wrappers ↔ wrapper ∈ wrappers :=
  List.mem_insertionSort _

/-- The keys of the index are the layers' numbers, in some order. -/
theorem layerFields_keys (storage : Storage C T) (generation : Generation) (saved : List (SavedLayer T)) :
    ∃ layers : List Nat, layers.Perm (saved.map Prod.fst) ∧
      (layerFields (saved.map (entryOf storage generation))).map Prod.fst = layers.map decimal := by
  have perm := (layerFields_perm (saved.map (entryOf storage generation))).map Prod.fst
  have keys : ((saved.map (entryOf storage generation)).map fun entry => (decimal entry.1, entry.2)).map Prod.fst =
      (saved.map Prod.fst).map decimal := by
    rw [List.map_map, List.map_map, List.map_map]
    rfl
  rw [keys] at perm
  refine ⟨((layerFields (saved.map (entryOf storage generation))).map Prod.fst).map intOf, ?_, ?_⟩
  · have back : ((saved.map Prod.fst).map decimal).map intOf = saved.map Prod.fst := by
      rw [List.map_map, show intOf ∘ decimal = id from funext intOf_decimal, List.map_id]
    exact (perm.map intOf).trans (.of_eq back)
  · rw [List.map_map]
    refine (List.map_id _).symm.trans (List.map_congr_left ?_)
    intro key member
    obtain ⟨layer, -, rfl⟩ := List.mem_map.mp (perm.mem_iff.mp member)
    exact congrArg decimal (intOf_decimal layer).symm

theorem lookup_layer (distinct : (saved.map Prod.fst).Nodup) {layer : SavedLayer T} (member : layer ∈ saved) :
    Json.get (intText layer.1) (layerFields (saved.map (entryOf storage generation))) =
      (entryOf storage generation layer).2 := by
  have found : (layerFields (saved.map (entryOf storage generation))).lookup (decimal layer.1) =
      some (entryOf storage generation layer).2 := by
    apply lookup_of_unique (mem_layerFields.mpr ⟨layer, member, rfl⟩)
    intro other isOther
    obtain ⟨same, isSame, equal⟩ := mem_layerFields.mp isOther
    rw [Prod.mk.injEq] at equal
    have number := decimal_injective equal.1
    rw [equal.2, List.inj_on_of_nodup_map distinct isSame member number.symm]
  rw [Json.get, show intText layer.1 = decimal layer.1 from rfl, found]
  rfl

/-- A load that has the layers of the save of an index restores the tensors of that save. -/
theorem Indexed.load {wrappers targets : List (Wrapper T)} (indexed : Indexed storage generation saved files)
    (saves : Saves wrappers saved) (same : SameLayers wrappers (fullWeightWrappers targets)) :
    ∃ restored, loadFullWeightCheckpoint storage files targets = .ok restored ∧
      Restores wrappers (fullWeightWrappers targets) restored := by
  obtain ⟨layers, perm, keys⟩ := layerFields_keys storage generation saved
  have distinctLayers : layers.Nodup := perm.nodup_iff.mpr saves.distinct
  have registered : (fullWeightWrappers targets).foldlM registerWrapper [] = .ok
      (((fullWeightWrappers targets).map Wrapper.layerIdx).reverse ++ []) :=
    registerWrapper_fold same.valid same.distinct fun _ _ => List.not_mem_nil
  have registeredKeys : (layerFields (saved.map (entryOf storage generation))).foldlM registerKey [] =
      .ok ((layers.map Int.ofNat).reverse ++ []) :=
    registerKey_fold keys distinctLayers fun _ _ => List.not_mem_nil
  -- the layers of the index are those of the wrappers that were saved
  have isLayer (index : Int) : index ∈ layers.map Int.ofNat ↔ ∃ wrapper ∈ wrappers, wrapper.layerIdx = index := by
    rw [List.mem_map]
    constructor
    · rintro ⟨layer, member, rfl⟩
      obtain ⟨entry, isEntry, rfl⟩ := List.mem_map.mp (perm.mem_iff.mp member)
      obtain ⟨wrapper, isWrapper, as⟩ := item_of_mem saves.layers isEntry
      exact ⟨wrapper, mem_sortedWrappers.mp isWrapper, as.1⟩
    · rintro ⟨wrapper, isWrapper, rfl⟩
      obtain ⟨entry, isEntry, as⟩ := result_of_mem saves.layers (mem_sortedWrappers.mpr isWrapper)
      exact ⟨entry.1, perm.mem_iff.mpr (List.mem_map.mpr ⟨entry, isEntry, rfl⟩), as.1.symm⟩
  have loaded : ∃ restored, (fullWeightWrappers targets).mapM
      (loadLayer storage files generation.text (layerFields (saved.map (entryOf storage generation)))) = .ok restored ∧
      Restores wrappers (fullWeightWrappers targets) restored := by
    apply mapM_results
    intro target isTarget
    obtain ⟨wrapper, isWrapper, layerIdx, shapes⟩ := same.isSaved target isTarget
    obtain ⟨entry, isEntry, as⟩ := result_of_mem saves.layers (mem_sortedWrappers.mpr isWrapper)
    have isNumber : target.layerIdx = entry.1 := layerIdx.symm.trans as.1
    refine ⟨(target.layerIdx, tensorsOf entry.2), ?_, rfl, wrapper, isWrapper, layerIdx, entry.2, as.2, rfl⟩
    simp only [loadLayer, bind_ok, pure_ok]
    refine ⟨tensorsOf entry.2, ?_, rfl⟩
    rw [isNumber, lookup_layer saves.distinct isEntry]
    exact inspect_stored as (indexed.stored entry isEntry) shapes
  obtain ⟨restored, done, restores⟩ := loaded
  refine ⟨restored, ?_, restores⟩
  simp only [loadFullWeightCheckpoint, bind_ok, require_ok, exists_const]
  refine ⟨_, indexed.read, _, registered, _, registeredKeys, ?_, done⟩
  simp only [List.append_nil, Bool.and_eq_true, List.all_eq_true, List.contains_iff_mem, List.mem_reverse, isLayer,
    List.mem_map]
  exact ⟨fun index ⟨wrapper, isWrapper, isIndex⟩ => isIndex ▸ same.isLoaded wrapper isWrapper,
    fun index ⟨target, isTarget, isIndex⟩ => by
      obtain ⟨wrapper, isWrapper, layerIdx, -⟩ := same.isSaved target isTarget
      exact ⟨wrapper, isWrapper, layerIdx.trans isIndex⟩⟩

/-! ## Runs -/

/-- A call of `save_full_weight_checkpoint` and what the file system answers to it. -/
structure Save (C T : Type) where
  wrappers : List (Wrapper T)
  rank : Nat
  generation : Generation
  verdicts : List (Verdict C)
  undo : List (Verdict C)

def Save.run (storage : Storage C T) (files : Directory C) (save : Save C T) : EStateM.Result Stop (Process C) Bool :=
  saveFullWeightCheckpoint storage save.wrappers save.rank save.generation
    ⟨files, save.verdicts, save.undo, [], [], false⟩

/-- Where a save has got to, however it ends. -/
def reached {α : Type} : EStateM.Result Stop (Process C) α → Process C
  | .ok _ process => process
  | .error _ process => process

def Save.after (storage : Storage C T) (files : Directory C) (save : Save C T) : Process C :=
  reached (save.run storage files)

/-- Saves one after the other, each with a generation of its own, and the last one whose index
replacement took place. -/
inductive Run (storage : Storage C T) (before : Directory C) : Directory C → Option (Save C T) → Prop where
  | start : Run storage before before none
  | save {current : Directory C} {last : Option (Save C T)} (run : Run storage before current last) (next : Save C T)
      (fresh : Fresh next.generation current) (unrefused : Unrefused next.undo) :
      Run storage before (next.after storage current).files
        (if (next.after storage current).published then some next else last)

theorem Save.run_cases (save : Save C T) (fresh : Fresh save.generation files) (safe : SafeIndex storage files)
    (unrefused : Unrefused save.undo) :
    match save.run storage files with
    | .ok _ process => Returned storage save.generation files save.wrappers process
    | .error stop process => Stopped storage save.generation files save.wrappers stop process := by
  have meets := save_meets fresh safe unrefused save.wrappers save.rank
    ⟨files, save.verdicts, save.undo, [], [], false⟩ ⟨rfl, rfl, rfl, rfl, rfl⟩
  cases ran : save.run storage files with
  | ok value process =>
      rw [Save.run] at ran
      rw [ran] at meets
      exact meets
  | error stop process =>
      rw [Save.run] at ran
      rw [ran] at meets
      exact meets

/-- However a save ends, either its index is published or the directory differs in its own files only. -/
theorem Save.after_cases (save : Save C T) (fresh : Fresh save.generation files) (safe : SafeIndex storage files)
    (unrefused : Unrefused save.undo) :
    Unpublished save.generation files (save.after storage files) ∨
      ∃ saved, Saves (fullWeightWrappers save.wrappers) saved ∧
        PublishedAs storage save.generation saved (save.after storage files) := by
  have cases_ := save.run_cases fresh safe unrefused
  rw [Save.after]
  cases ran : save.run storage files with
  | ok value process =>
      rw [ran] at cases_
      rcases cases_ with ⟨same, published⟩ | published
      · exact .inl ⟨fun name _ => congrFun same name, published⟩
      · exact .inr published
  | error stop process =>
      rw [ran] at cases_
      rcases cases_ with ⟨unpublished, -⟩ | ⟨-, published⟩
      · exact .inl unpublished
      · exact .inr published

def Kept (storage : Storage C T) (files : Directory C) (last : Option (Save C T)) : Prop :=
  ∀ save, last = some save → ∃ saved, Saves (fullWeightWrappers save.wrappers) saved ∧
    Indexed storage save.generation saved files

theorem Unpublished.kept {process : Process C} (unpublished : Unpublished generation files process)
    (fresh : Fresh generation files) {old : Generation} (indexed : Indexed storage old saved files) :
    Indexed storage old saved process.files where
  index := (unpublished.elsewhere indexName (indexName_not_own generation)).trans indexed.index
  stored := by
    intro layer member
    have present := indexed.stored layer member
    have notOwn : ¬Own generation (shardName old layer.1) := by
      intro own
      rw [fresh _ own] at present
      cases present
    rw [unpublished.elsewhere _ notOwn]
    exact present

theorem Run.invariant {before : Directory C} {last : Option (Save C T)} (safe : SafeIndex storage before)
    (run : Run storage before files last) : SafeIndex storage files ∧ Kept storage files last := by
  induction run with
  | start => exact ⟨safe, fun save impossible => by cases impossible⟩
  | save run next fresh unrefused invariant =>
      obtain ⟨safe, kept⟩ := invariant
      rcases next.after_cases fresh safe unrefused with unpublished | ⟨saved, saves, published⟩
      · constructor
        · intro text layers read
          apply safe text layers
          rw [← read, readIndex, readIndex, contentOf, contentOf,
            unpublished.elsewhere indexName (indexName_not_own next.generation)]
        · intro save isLast
          rw [unpublished.published, if_neg Bool.false_ne_true] at isLast
          obtain ⟨saved, saves, indexed⟩ := kept save isLast
          exact ⟨saved, saves, unpublished.kept fresh indexed⟩
      · constructor
        · exact published.toIndexed.safe
        · intro save isLast
          rw [published.published, if_pos rfl, Option.some.injEq] at isLast
          subst isLast
          exact ⟨saved, saves, published.toIndexed⟩

/-- From a directory whose index names neither itself nor a name that cannot be encoded: a load finds the
tensors of the last published save, a save that raises leaves the directory as it was, and a
published save keeps its index and its shards. -/
theorem checkpoints_are_atomic {before : Directory C} {last : Option (Save C T)} (safe : SafeIndex storage before)
    (run : Run storage before files last) :
    (∀ save, last = some save → ∀ targets,
      SameLayers (fullWeightWrappers save.wrappers) (fullWeightWrappers targets) →
        ∃ restored, loadFullWeightCheckpoint storage files targets = .ok restored ∧
          Restores (fullWeightWrappers save.wrappers) (fullWeightWrappers targets) restored) ∧
      ∀ next : Save C T, Fresh next.generation files → Unrefused next.undo →
        (∀ error process, next.run storage files = .error (.raised error) process → process.files = files) ∧
          ((next.after storage files).published = true → ∃ saved, Saves (fullWeightWrappers next.wrappers) saved ∧
            Indexed storage next.generation saved (next.after storage files).files) := by
  obtain ⟨safeFiles, kept⟩ := run.invariant safe
  refine ⟨?_, fun next fresh unrefused => ⟨?_, ?_⟩⟩
  · intro save isLast targets same
    obtain ⟨saved, saves, indexed⟩ := kept save isLast
    exact indexed.load saves same
  · intro error process raised
    have stopped := next.run_cases fresh safeFiles unrefused
    rw [raised] at stopped
    rcases stopped with ⟨-, killed | same⟩ | ⟨killed, -⟩
    · cases killed
    · exact same
    · cases killed
  · intro published
    rcases next.after_cases fresh safeFiles unrefused with unpublished | ⟨saved, saves, indexed⟩
    · rw [unpublished.published] at published
      cases published
    · exact ⟨saved, saves, indexed.toIndexed⟩

end

/-! One layer with one expert, saved to directories of JSON texts and archives. -/

abbrev SampleContent := Json ⊕ Archive Unit

def sampleStorage : Storage SampleContent Unit :=
  { size := fun _ => 1
    dump := .inl
    load := Sum.getLeft?
    pack := .inr
    unpack := Sum.getRight?
    encodes := fun name => name.all fun char => decide (0 < char.toNat)
    encodes_ascii := by
      intro name ascii
      rw [List.all_eq_true]
      exact fun char member => decide_eq_true (ascii char member).1
    load_dump := fun _ => rfl
    unpack_pack := fun _ => rfl
    size_pack := fun _ => Nat.zero_lt_one }

def sampleGeneration : Generation :=
  { text := List.replicate 32 'a'
    isHex := by decide }

def sampleParameter : Parameter Unit :=
  { tensor := ⟨[1, 1, 1], dtypeName, ()⟩
    onCpu := true
    isContiguous := true
    requiresGrad := true }

def sampleWrapper : Wrapper Unit :=
  { layerIdx := 0
    fullWeightGrad := true
    expertNum := 1
    intermediateSize := 1
    hiddenSize := 1
    backend := some fun _ => some sampleParameter }

def sampleSave : Save SampleContent Unit :=
  { wrappers := [sampleWrapper]
    rank := 0
    generation := sampleGeneration
    verdicts := List.replicate 12 .done
    undo := [] }

/-- One save into an empty directory, and a load after it. -/
theorem checkpoint_of_empty_directory :
    ∃ restored, loadFullWeightCheckpoint sampleStorage (sampleSave.after sampleStorage fun _ => none).files
      [sampleWrapper] = .ok restored ∧ Restores [sampleWrapper] [sampleWrapper] restored := by
  have safe : SafeIndex sampleStorage fun _ => none := by
    intro text layers read
    cases read
  have run : Run sampleStorage (fun _ => none) (sampleSave.after sampleStorage fun _ => none).files
      (if (sampleSave.after sampleStorage fun _ => none).published then some sampleSave else none) :=
    Run.start.save sampleSave (fun _ _ => rfl) fun verdict member => by cases member
  have published : (sampleSave.after sampleStorage fun _ => none).published = true := by decide +kernel
  have same : SameLayers [sampleWrapper] [sampleWrapper] :=
    { distinct := by simp
      valid := by
        intro target member
        rw [List.mem_singleton.mp member]
        exact ⟨_, rfl⟩
      isSaved := fun target member => ⟨target, member, rfl, fun _ => rfl⟩
      isLoaded := fun wrapper member => ⟨wrapper, member, rfl⟩ }
  rw [published, if_pos rfl] at run
  exact (checkpoints_are_atomic safe run).1 sampleSave rfl [sampleWrapper] same

def selfNamingIndex : Json :=
  .object [("format".toList, .string formatName), ("version".toList, .int versionNumber),
    ("dtype".toList, .string dtypeName), ("generation".toList, .string ['g']),
    ("layers".toList, .object [(['0'], .object [("file".toList, .string indexName)])])]

def selfNamingDirectory : Directory SampleContent := fun name =>
  if name = indexName then some (.file (.inl selfNamingIndex)) else none

/-- The index is accepted, the save returns with its index published, and has removed that index. -/
theorem save_removes_its_own_index :
    (readIndex sampleStorage selfNamingDirectory).isOk = true ∧
      (∃ process, sampleSave.run sampleStorage selfNamingDirectory = .ok true process) ∧
      (sampleSave.after sampleStorage selfNamingDirectory).published = true ∧
      (sampleSave.after sampleStorage selfNamingDirectory).files indexName = none ∧
      (loadFullWeightCheckpoint sampleStorage (sampleSave.after sampleStorage selfNamingDirectory).files
        [sampleWrapper]).isOk = false := by
  refine ⟨by decide +kernel, ?_, by decide +kernel, Option.isNone_iff_eq_none.mp (by decide +kernel), by decide +kernel⟩
  have value : (match sampleSave.run sampleStorage selfNamingDirectory with
      | .ok value _ => value
      | .error _ _ => false) = true := by decide +kernel
  cases ran : sampleSave.run sampleStorage selfNamingDirectory with
  | ok result process =>
      rw [ran] at value
      exact ⟨process, by rw [show result = true from value]⟩
  | error stop process =>
      rw [ran] at value
      cases value

end KtKernel.Sft.Checkpoint
