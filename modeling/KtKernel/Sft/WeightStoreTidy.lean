import KtKernel.Sft.WeightStoreSafety

namespace KtKernel.Sft.WeightStore

open KtKernel.Data
open Ephemeral (Format FileRecord LayerRecord manifestName temporaryName)

variable {C : Type} {format : Format C} {signals : Nat → Signal} {pid : Nat} {start world : World C}
  {layers : List LayerRecord} {layer : LayerRecord}

/-! ## What is left of a layer -/

/-- The files, parts and directory of a layer that are still there, and nothing else. -/
structure Part (tree : PathTree C) (layer : LayerRecord) (files : List (List Name)) (numas : List Nat) (dir : Bool) :
    Prop where
  regular : ∀ path ∈ files, tree.isRegular path = true
  parts : ∀ numa ∈ numas, tree.find (numaDir layer numa) = some .directory
  directory : dir = true → tree.find (layerDir layer) = some .directory
  only : ∀ path, layerDir layer <+: path → tree.find path ≠ none →
    path ∈ files ∨ (∃ numa ∈ numas, path = numaDir layer numa) ∨ (dir = true ∧ path = layerDir layer)

/-- A layer as it was published. -/
structure Intact (format : Format C) (tree : PathTree C) (layer : LayerRecord) : Prop where
  whole : Part tree layer (paths layer) (List.range layer.numaCount) true
  sizes : ∀ file ∈ layer.files, ∃ content, tree.find file.path = some (.file content) ∧
    format.size content = file.sizeBytes ∧ 0 < file.sizeBytes
  bytes : (layer.files.map FileRecord.sizeBytes).sum = layer.bytes
  nonempty : layer.files ≠ []

/-- A layer between two calls. -/
def Settled (format : Format C) (tree : PathTree C) (layer : LayerRecord) : Prop :=
  (layer.state = ready ∧ Intact format tree layer) ∨ (layer.state = consumed ∧ Part tree layer [] [] false)

theorem Part.congr {files : List (List Name)} {numas : List Nat} {dir : Bool} {tree other : PathTree C}
    (part : Part tree layer files numas dir) (below : ∀ path ∈ files, layerDir layer <+: path)
    (same : ∀ path, layerDir layer <+: path → other.find path = tree.find path) : Part other layer files numas dir where
  regular path member := by
    rw [PathTree.isRegular, same path (below path member)]
    exact part.regular path member
  parts numa member := by
    rw [same _ (by simp [layerDir, numaDir])]
    exact part.parts numa member
  directory kept := by
    rw [same _ List.prefix_rfl]
    exact part.directory kept
  only path inside found := part.only path inside (by rwa [← same path inside])

theorem Shaped.below (shaped : Shaped layers) (member : layer ∈ layers) (own : path ∈ paths layer) :
    layerDir layer <+: path := by
  obtain ⟨numa, -, name, rfl, -⟩ := shaped.files layer member path own
  simp [layerDir]

theorem Settled.congr {tree other : PathTree C} (settled : Settled format tree layer)
    (below : ∀ path ∈ paths layer, layerDir layer <+: path)
    (same : ∀ path, layerDir layer <+: path → other.find path = tree.find path) : Settled format other layer := by
  rcases settled with ⟨isReady, intact⟩ | ⟨done, part⟩
  · refine .inl ⟨isReady, { intact with
      whole := intact.whole.congr below same
      sizes := fun file member => ?_ }⟩
    rw [same _ (below _ (List.mem_map_of_mem member))]
    exact intact.sizes file member
  · exact .inr ⟨done, part.congr (by simp) same⟩

/-- Two layers have no path in common. -/
theorem layerDir_apart {left right : LayerRecord} (different : left.index ≠ right.index)
    (first : layerDir left <+: path) : ¬layerDir right <+: path := by
  intro second
  cases path with
  | nil => simp [layerDir] at first
  | cons name rest =>
      simp only [layerDir, List.cons_prefix_cons, List.nil_prefix, and_true] at first second
      exact different (layerName_injective (first.trans second.symm))

theorem layerDir_manifest (layer : LayerRecord) : ¬layerDir layer <+: [manifestName] := by
  simpa [layerDir] using (Ephemeral.layerName_ne layer.index).1

theorem layerDir_temporary (layer : LayerRecord) (pid : Nat) : ¬layerDir layer <+: temporaryPath pid := by
  simpa [layerDir, temporaryPath] using (Ephemeral.layerName_ne layer.index).2.2 pid

/-! ## An open store -/

/-- The world of an open store, where the layer `index` is set apart. -/
structure Orderly (format : Format C) (layers : List LayerRecord) (index : Option Int) (world : World C) : Prop where
  current : world.layers = layers
  shaped : Shaped layers
  root : world.tree.find [] = some .directory
  manifest : world.tree.isRegular [manifestName] = true
  settled : ∀ layer ∈ layers, some layer.index ≠ index → Settled format world.tree layer
  within : ∀ path, world.tree.find path ≠ none →
    path = [] ∨ path = [manifestName] ∨ ∃ layer ∈ layers, layerDir layer <+: path

/-- The store between two calls. -/
def Tidy (format : Format C) (world : World C) : Prop :=
  Orderly format world.layers none world

/-- The store while a layer is consumed. -/
structure Working (format : Format C) (layers : List LayerRecord) (layer : LayerRecord) (files : List (List Name))
    (numas : List Nat) (dir : Bool) (world : World C) : Prop where
  orderly : Orderly format layers (some layer.index) world
  part : Part world.tree layer files numas dir
  below : ∀ path ∈ files, layerDir layer <+: path
  once : files.Nodup
  distinct : numas.Nodup

variable {index : Option Int}

theorem Orderly.temporary (orderly : Orderly format layers index world) (pid : Nat) :
    world.tree.find (temporaryPath pid) = none := by
  by_contra present
  rcases orderly.within _ present with empty | same | ⟨layer, -, inside⟩
  · cases empty
  · have names : temporaryName pid = manifestName := by simpa [temporaryPath] using same
    have heads := congrArg List.head? names
    cases heads
  · exact layerDir_temporary layer pid inside

/-- Nothing has changed but the text of the manifest. -/
theorem Orderly.rewrite (orderly : Orderly format layers index world) {tree : PathTree C}
    (same : ∀ path, path ≠ [manifestName] → tree.find path = world.tree.find path)
    (regular : tree.isRegular [manifestName] = true) : Orderly format layers index { world with tree := tree } where
  current := orderly.current
  shaped := orderly.shaped
  root := (same [] (by simp)).trans orderly.root
  manifest := regular
  settled layer member other := by
    refine (orderly.settled layer member other).congr (fun path own => orderly.shaped.below member own) ?_
    intro path inside
    refine same path ?_
    rintro rfl
    exact layerDir_manifest layer inside
  within path found := by
    by_cases here : path = [manifestName]
    · exact .inr (.inl here)
    · refine orderly.within path ?_
      rwa [← same path here]

theorem Orderly.removed (orderly : Orderly format layers (some layer.index) world) (below : layerDir layer <+: path) :
    Orderly format layers (some layer.index) { world with tree := world.tree.remove path } where
  current := orderly.current
  shaped := orderly.shaped
  root := by
    rw [PathTree.find_remove_of_ne]
    · exact orderly.root
    · rintro rfl
      simp [layerDir] at below
  manifest := by
    rw [PathTree.isRegular, PathTree.find_remove_of_ne]
    · exact orderly.manifest
    · rintro rfl
      exact layerDir_manifest layer below
  settled other member different := by
    refine (orderly.settled other member different).congr (fun path own => orderly.shaped.below member own) ?_
    intro inner inside
    refine PathTree.find_remove_of_ne ?_
    rintro rfl
    exact layerDir_apart (by simpa using different) inside below
  within other found := by
    refine orderly.within other fun absent => found ?_
    exact PathTree.find_remove_of_none absent

/-! ## Closed stores stay closed -/

def IsClosed (world : World C) : Prop :=
  world.closed = true

abbrev StaysClosed (program : Program C α) : Prop :=
  Meets IsClosed program (fun _ => IsClosed) (fun _ => IsClosed)

theorem need_closed (holds : World C → Bool) : StaysClosed (need holds) :=
  (need_meets holds).weaken (fun _ _ both => both.1) fun _ _ closed => closed

theorem quietPoint_closed : StaysClosed (C := C) (quietPoint signals) := by
  refine Meets.bind (tick_meets fun world (closed : IsClosed world) => closed) fun signal => ?_
  cases signal with
  | none => exact fun _ closed => closed
  | returns => exact fun _ closed => closed
  | exits => exact fun _ closed => closed

theorem unlink_closed (path : List Name) : StaysClosed (C := C) (unlink path) :=
  Meets.bind (need_closed _) fun _ _ closed => closed

theorem tryRmdir_closed (path : List Name) : StaysClosed (C := C) (tryRmdir path) := by
  intro world closed
  change IsClosed (if removable path world then dropDirectory path world else world)
  split
  · exact closed
  · exact closed

theorem cleanupFile_closed (path : List Name) : StaysClosed (C := C) (cleanupFile signals path) := by
  refine Meets.bind quietPoint_closed fun _ => Meets.bind Meets.get fun found => ?_
  split
  · exact (Meets.bind quietPoint_closed fun _ => unlink_closed path).strengthen fun _ both => both.2
  · exact fun _ both => both.2

theorem cleanupDir_closed (path : List Name) : StaysClosed (C := C) (cleanupDir signals path) := by
  refine Meets.bind quietPoint_closed fun _ => Meets.bind Meets.get fun found => ?_
  split
  · exact (Meets.bind quietPoint_closed fun _ => tryRmdir_closed path).strengthen fun _ both => both.2
  · exact fun _ both => both.2

theorem forM_closed {α : Type} {items : List α} {body : α → Program C Unit}
    (round : ∀ item, StaysClosed (body item)) : StaysClosed (items.forM body) :=
  Meets.forM (fun _ => IsClosed) items fun _ item _ _ => round item

theorem cleanupLayer_closed (layer : LayerRecord) : StaysClosed (C := C) (cleanupLayer signals layer) := by
  rw [cleanupLayer]
  split
  · exact fun _ closed => closed
  · refine Meets.bind (forM_closed fun file => ?_) fun _ =>
      Meets.bind (forM_closed fun numa => cleanupDir_closed _) fun _ => cleanupDir_closed _
    split
    · exact fun _ closed => closed
    · exact cleanupFile_closed _

theorem cleanupBody_closed (layers : List LayerRecord) : StaysClosed (C := C) (cleanupBody signals pid layers) :=
  Meets.bind (forM_closed cleanupLayer_closed) fun _ => Meets.bind (forM_closed cleanupFile_closed) fun _ =>
    Meets.bind quietPoint_closed fun _ => Meets.bind (tryRmdir_closed []) fun _ _ closed => closed

/-- However a cleanup ends, the store is closed. -/
theorem cleanup_closes {pre : World C → Prop} :
    Meets pre (cleanup signals pid) (fun _ => IsClosed) (fun _ => IsClosed) := by
  intro world _
  rw [cleanup_run]
  by_cases closed : world.closed = true
  · rw [if_pos closed]
    exact closed
  · rw [if_neg closed]
    exact cleanupBody_closed world.layers _ rfl

/-! ## Steps of an open store

A step of an open store goes as in a run without signals, or a cleanup has closed it. -/

abbrev WhileOpen (pre : World C → Prop) (program : Program C α) (post : World C → Prop) : Prop :=
  Meets (fun world => IsClosed world ∨ pre world) program (fun _ world => IsClosed world ∨ post world)
    (fun _ => IsClosed)

variable {pre post : World C → Prop}

theorem point_open (steady : ∀ world, pre world → pre { world with clock := world.clock + 1 }) :
    WhileOpen pre (point signals pid) pre := by
  refine Meets.bind (tick_meets fun world holds => holds.imp_right (steady world)) fun signal => ?_
  cases signal with
  | none => exact fun _ holds => holds
  | returns => exact cleanup_closes.weaken (fun _ _ closed => .inl closed) fun _ _ closed => closed
  | exits => exact Meets.bind cleanup_closes fun _ _ closed => closed

theorem need_run {holds : World C → Bool} (passes : holds world = true) : need holds world = .ok () world := by
  change (if holds world then (pure () : Program C Unit) else raise) world = _
  rw [if_pos passes]
  rfl

theorem need_open {holds : World C → Bool} (passes : ∀ world, pre world → holds world = true) :
    WhileOpen pre (need holds) pre := by
  intro world before
  rcases before with closed | open_
  · exact ((need_closed holds).weaken (fun _ _ done => .inl done) fun _ _ done => done) world closed
  · rw [need_run (passes world open_)]
    exact .inr open_

theorem modify_open {change : World C → World C} (closes : ∀ world, (change world).closed = world.closed)
    (moves : ∀ world, pre world → post (change world)) : WhileOpen pre (modify change) post := by
  intro world before
  rcases before with closed | open_
  · exact .inl ((closes world).trans closed)
  · exact .inr (moves world open_)

theorem checked_open {check : PathTree C → Except Error Unit}
    (steady : ∀ world, pre world → pre { world with clock := world.clock + 1 })
    (passes : ∀ world, pre world → (check world.tree).isOk = true) :
    WhileOpen pre (checked signals pid check) pre :=
  Meets.bind (point_open steady) fun _ => need_open passes

/-! ## Rewriting the manifest -/

/-- What does not depend on the text of the manifest. -/
structure Rewritable (pid : Nat) (holds : World C → Prop) : Prop where
  ticks : ∀ world, holds world → holds { world with clock := world.clock + 1 }
  fresh : ∀ world, holds world →
    world.tree.find (temporaryPath pid) = none ∧ world.tree.find [] = some .directory
  rewrite : ∀ world, holds world → ∀ tree : PathTree C,
    (∀ path, path ≠ [manifestName] → tree.find path = world.tree.find path) →
      tree.isRegular [manifestName] = true → holds { world with tree := tree }

/-- The temporary stands beside the tree that the rewrite began with. -/
def Rewriting (pid : Nat) (holds : World C → Prop) (world : World C) : Prop :=
  ∃ tree content, holds { world with tree := tree } ∧ world.tree = tree.put (temporaryPath pid) (.file content)

/-- What `replaceManifest` does once it has found the temporary. -/
def putManifest (world : World C) (pid : Nat) : Option (Entry C) → Program C Unit
  | some entry => set { world with tree := (world.tree.remove (temporaryPath pid)).put [manifestName] entry }
  | none => raise

theorem replaceManifest_run (found : world.tree.find (temporaryPath pid) = some entry) :
    replaceManifest pid world =
      .ok () { world with tree := (world.tree.remove (temporaryPath pid)).put [manifestName] entry } := by
  change putManifest world pid (world.tree.find (temporaryPath pid)) world = _
  rw [found]
  rfl

theorem replaceManifest_closed : StaysClosed (C := C) (replaceManifest pid) := by
  refine Meets.bind Meets.get fun found => ?_
  split
  · rintro world ⟨rfl, closed⟩
    exact closed
  · exact fun _ both => both.2

theorem replaceManifest_open (rewritable : Rewritable pid pre) :
    WhileOpen (Rewriting pid pre) (replaceManifest pid) pre := by
  intro world before
  rcases before with closed | ⟨tree, content, holds, same⟩
  · exact (replaceManifest_closed.weaken (fun _ _ done => .inl done) fun _ _ done => done) world closed
  · have found : world.tree.find (temporaryPath pid) = some (.file content) := by
      rw [same]
      exact PathTree.find_put_self
    rw [replaceManifest_run found]
    obtain ⟨absent, -⟩ := rewritable.fresh _ holds
    refine .inr (rewritable.rewrite _ holds _ (fun path other => ?_) ?_)
    · rw [PathTree.find_put_of_ne other, PathTree.find_remove]
      split
      · rename_i here
        rw [here]
        exact absent.symm
      · rename_i different
        rw [same]
        exact PathTree.find_put_of_ne different
    · rw [PathTree.isRegular_iff]
      exact ⟨content, PathTree.find_put_self⟩

theorem openTemporary_open (rewritable : Rewritable pid pre) :
    WhileOpen pre (openTemporary format pid) (Rewriting pid pre) := by
  refine Meets.bind (need_open fun world holds => ?_) fun _ => modify_open (fun _ => rfl) fun world holds => ?_
  · obtain ⟨absent, present⟩ := rewritable.fresh world holds
    simp [absent, present]
  · exact ⟨world.tree, _, holds, rfl⟩

theorem atomicWriteManifest_open (rewritable : Rewritable pid pre) :
    WhileOpen pre (atomicWriteManifest format signals pid) pre := by
  have steady : ∀ world, Rewriting pid pre world → Rewriting pid pre { world with clock := world.clock + 1 } := by
    rintro world ⟨tree, content, holds, same⟩
    exact ⟨tree, content, rewritable.ticks _ holds, same⟩
  exact Meets.bind (point_open rewritable.ticks) fun _ => Meets.bind (openTemporary_open rewritable) fun _ =>
    Meets.bind (point_open steady) fun _ => Meets.bind (point_open steady) fun _ => replaceManifest_open rewritable

theorem Orderly.rewritable : Rewritable pid (Orderly format layers index) where
  ticks _ orderly := { orderly with }
  fresh _ orderly := ⟨orderly.temporary pid, orderly.root⟩
  rewrite _ orderly _ same regular := orderly.rewrite same regular

theorem Working.rewritable {files : List (List Name)} {numas : List Nat} {dir : Bool} :
    Rewritable pid (Working format layers layer files numas dir) where
  ticks _ working := { working with orderly := { working.orderly with } }
  fresh _ working := ⟨working.orderly.temporary pid, working.orderly.root⟩
  rewrite _ working tree same regular :=
    { working with
      orderly := working.orderly.rewrite same regular
      part := working.part.congr working.below fun path inside => same path fun here =>
        layerDir_manifest layer (here ▸ inside) }

/-! ## The checks of a layer that is ready -/

theorem Orderly.intact (orderly : Orderly format layers none world) (member : layer ∈ layers)
    (isReady : layer.state = ready) : Intact format world.tree layer := by
  rcases orderly.settled layer member (by simp) with ⟨-, intact⟩ | ⟨done, -⟩
  · exact intact
  · rw [isReady] at done
    exact absurd done (by decide)

theorem checkPath_isOk (shaped : Shaped layers) (member : layer ∈ layers) (own : file ∈ layer.files)
    (fresh : file.path ∉ seen) : (checkPath layer seen file).isOk = true := by
  obtain ⟨numa, -, name, shape, plain⟩ := shaped.files layer member file.path (List.mem_map_of_mem own)
  have unseen : seen.contains file.path = false := by simpa using fresh
  have local_ : file.path.contains "..".toList = false := by simpa using plain
  rw [checkPath, unseen, local_, shape]
  simp [require, bind, Except.bind, Except.isOk, Except.toBool]

theorem Intact.checkPresent {tree : PathTree C} (intact : Intact format tree layer) (own : file ∈ layer.files) :
    (checkPresent tree file).isOk = true := by
  rw [WeightStore.checkPresent, intact.whole.regular file.path (List.mem_map_of_mem own)]
  rfl

theorem Intact.checkSize {tree : PathTree C} (intact : Intact format tree layer) (own : file ∈ layer.files) :
    (checkSize format tree file).isOk = true := by
  obtain ⟨content, found, size, positive⟩ := intact.sizes file own
  rw [WeightStore.checkSize, found]
  simp [size, positive, require, Except.isOk, Except.toBool]

theorem Intact.mem_walk {tree : PathTree C} (intact : Intact format tree layer) (shaped : Shaped layers)
    (member : layer ∈ layers) : path ∈ tree.walk (layerDir layer) ↔ path ∈ paths layer := by
  rw [PathTree.mem_walk]
  constructor
  · rintro ⟨inside, different, leaf⟩
    have present : tree.find path ≠ none := by
      intro absent
      simp [PathTree.isLeaf, absent] at leaf
    rcases intact.whole.only path inside present with own | ⟨numa, within, rfl⟩ | ⟨-, same⟩
    · exact own
    · simp [PathTree.isLeaf, intact.whole.parts numa within] at leaf
    · exact absurd same different
  · intro own
    obtain ⟨content, found⟩ := PathTree.isRegular_iff.mp (intact.whole.regular path own)
    refine ⟨shaped.below member own, ?_, by simp [PathTree.isLeaf, found]⟩
    obtain ⟨numa, -, name, rfl, -⟩ := shaped.files layer member path own
    simp [layerDir]

theorem Intact.checkFileSet {tree : PathTree C} (intact : Intact format tree layer) (shaped : Shaped layers)
    (member : layer ∈ layers) : (checkFileSet tree layer).isOk = true := by
  have same : Listing.sameNames ((tree.walk (layerDir layer)).map posix) ((paths layer).map posix) = true := by
    rw [Listing.sameNames_iff]
    intro name
    simp only [List.mem_map, intact.mem_walk shaped member]
  rw [WeightStore.checkFileSet, same, intact.bytes]
  simp [require, bind, Except.bind, Except.isOk, Except.toBool]

section

variable (shaped : Shaped layers) (member : layer ∈ layers) (isReady : layer.state = ready)

include shaped member isReady

theorem validateFile_open (own : file ∈ layer.files) (fresh : file.path ∉ seen) :
    Meets (fun world => IsClosed world ∨ Orderly format layers none world)
      (validateFile format signals pid layer seen file)
      (fun value world => value = file.path :: seen ∧ (IsClosed world ∨ Orderly format layers none world))
      (fun _ => IsClosed) := by
  have steady : ∀ world : World C, Orderly format layers none world →
      Orderly format layers none { world with clock := world.clock + 1 } := fun _ orderly => { orderly with }
  exact Meets.bind (need_open fun _ _ => checkPath_isOk shaped member own fresh) fun _ =>
    Meets.bind (checked_open steady fun _ orderly => (orderly.intact member isReady).checkPresent own) fun _ =>
    Meets.bind (checked_open steady fun _ orderly => (orderly.intact member isReady).checkSize own) fun _ =>
    fun _ holds => ⟨rfl, holds⟩

theorem validateLayer_open (some_ : layer.files ≠ []) :
    WhileOpen (Orderly format layers none) (validateLayer format signals pid layer) (Orderly format layers none) := by
  have files : Meets (fun world => IsClosed world ∨ Orderly format layers none world)
      (layer.files.foldlM (validateFile format signals pid layer) [])
      (fun _ world => IsClosed world ∨ Orderly format layers none world) (fun _ => IsClosed) := by
    refine Meets.weaken (Meets.strengthen (Meets.foldlM (fun done seen world =>
      seen = (done.map FileRecord.path).reverse ∧ (IsClosed world ∨ Orderly format layers none world))
      layer.files [] ?_) fun _ holds => ⟨rfl, holds⟩) (fun _ _ both => both.2) fun _ _ closed => closed
    rintro done file rest seen whole world ⟨rfl, holds⟩
    have own : file ∈ layer.files := whole ▸ List.mem_append_right done List.mem_cons_self
    have once := shaped.once layer member
    rw [paths, whole, List.map_append, List.map_cons] at once
    have fresh : file.path ∉ (done.map FileRecord.path).reverse := by
      rw [List.mem_reverse]
      exact fun inside => (List.nodup_append.mp once).2.2 _ inside _ List.mem_cons_self rfl
    refine ((validateFile_open shaped member isReady own fresh).weaken (fun value after done => ?_)
      fun _ _ closed => closed) world holds
    refine ⟨?_, done.2⟩
    rw [done.1]
    simp
  refine Meets.bind (need_open fun _ _ => by simpa using some_) fun _ => Meets.bind files fun _ =>
    checked_open (fun _ orderly => { orderly with }) fun _ orderly => ?_
  exact (orderly.intact member isReady).checkFileSet shaped member

end

/-! ## Taking a layer apart -/

theorem layerDir_withState (index : Int) (state : List Char) (layer : LayerRecord) :
    layerDir (if layer.index = index then { layer with state := state } else layer) = layerDir layer := by
  split <;> rfl

/-- The record of the layer that is set apart may change its state. -/
theorem Orderly.setState (orderly : Orderly format layers index world) (free : index = none ∨ index = some layerIdx)
    (state : List Char) :
    Orderly format (withState layerIdx state layers) (some layerIdx)
      { world with layers := withState layerIdx state world.layers } where
  current := congrArg (withState layerIdx state) orderly.current
  shaped := orderly.shaped.withState layerIdx state
  root := orderly.root
  manifest := orderly.manifest
  settled other member different := by
    obtain ⟨before, inside, rfl⟩ := List.mem_map.mp member
    by_cases here : before.index = layerIdx
    · simp [here] at different
    · rw [if_neg here]
      refine orderly.settled before inside ?_
      rcases free with rfl | rfl
      · exact Option.some_ne_none _
      · simpa using here
  within path found := by
    rcases orderly.within path found with root | manifest | ⟨before, inside, below⟩
    · exact .inl root
    · exact .inr (.inl manifest)
    · refine .inr (.inr ⟨_, List.mem_map_of_mem inside, ?_⟩)
      rwa [layerDir_withState]

theorem Orderly.whole (orderly : Orderly format layers (some layerIdx) world)
    (settled : ∀ layer ∈ layers, layer.index = layerIdx → Settled format world.tree layer) :
    Orderly format layers none world :=
  { orderly with
    settled := fun layer member _ => by
      by_cases here : layer.index = layerIdx
      · exact settled layer member here
      · exact orderly.settled layer member (by simpa using here) }

/-- Nothing but the numbers of the parts counts. -/
theorem Part.renumber {files : List (List Name)} {numas others : List Nat} {dir : Bool} {tree : PathTree C}
    (part : Part tree layer files numas dir) (same : ∀ numa, numa ∈ others ↔ numa ∈ numas) :
    Part tree layer files others dir where
  regular := part.regular
  parts numa member := part.parts numa ((same numa).mp member)
  directory := part.directory
  only path inside found := by
    rcases part.only path inside found with own | ⟨numa, member, here⟩ | root
    · exact .inl own
    · exact .inr (.inl ⟨numa, (same numa).mpr member, here⟩)
    · exact .inr (.inr root)

variable {files : List (List Name)} {numas : List Nat} {dir : Bool}

theorem begin_open (shaped : Shaped layers) (member : layer ∈ layers) (isReady : layer.state = ready) :
    WhileOpen (Orderly format layers none) (setState layer.index consuming)
      (Working format (withState layer.index consuming layers) layer (paths layer)
        (List.range layer.numaCount).reverse true) := by
  refine modify_open (fun _ => rfl) fun world orderly => ?_
  exact
    { orderly := orderly.setState (.inl rfl) consuming
      part := (orderly.intact member isReady).whole.renumber fun numa => List.mem_reverse
      below := fun path own => shaped.below member own
      once := shaped.once layer member
      distinct := List.nodup_reverse.mpr List.nodup_range }

theorem deleteFile_open (path : List Name) (files : List (List Name)) :
    WhileOpen (Working format layers layer (path :: files) numas dir) (deleteFile signals pid path)
      (Working format layers layer files numas dir) := by
  have steady : ∀ world : World C, Working format layers layer (path :: files) numas dir world →
      Working format layers layer (path :: files) numas dir { world with clock := world.clock + 1 } :=
    fun _ working => { working with orderly := { working.orderly with } }
  have regular : ∀ world : World C, Working format layers layer (path :: files) numas dir world →
      world.tree.isRegular path = true := fun _ working => working.part.regular path List.mem_cons_self
  refine Meets.bind (point_open steady) fun _ => Meets.bind (need_open regular) fun _ =>
    Meets.bind (point_open steady) fun _ => Meets.bind (need_open fun world working => ?_) fun _ =>
    modify_open (fun _ => rfl) fun world working => ?_
  · obtain ⟨content, found⟩ := PathTree.isRegular_iff.mp (regular world working)
    simp [unlinkable, PathTree.isDirectory, found]
  · have inside := working.below path List.mem_cons_self
    obtain ⟨absent, once⟩ := List.nodup_cons.mp working.once
    have orderly := working.orderly.removed inside
    refine
      { orderly := { orderly with }
        part := ?_
        below := fun other member => working.below other (List.mem_cons_of_mem _ member)
        once := once
        distinct := working.distinct }
    have file := regular world working
    refine
      { regular := fun other member => ?_
        parts := fun numa member => ?_
        directory := fun kept => ?_
        only := fun other below found => ?_ }
    · change (world.tree.remove path).isRegular other = true
      rw [PathTree.isRegular, PathTree.find_remove_of_ne fun (same : other = path) => absent (same ▸ member)]
      exact working.part.regular other (List.mem_cons_of_mem _ member)
    · have kind := working.part.parts numa member
      change (world.tree.remove path).find _ = _
      rw [PathTree.find_remove_of_ne]
      · exact kind
      · rintro rfl
        simp [PathTree.isRegular, kind] at file
    · have kind := working.part.directory kept
      change (world.tree.remove path).find _ = _
      rw [PathTree.find_remove_of_ne]
      · exact kind
      · rintro rfl
        simp [PathTree.isRegular, kind] at file
    · change (world.tree.remove path).find other ≠ none at found
      rw [PathTree.find_remove] at found
      split at found
      · contradiction
      · rename_i different
        rcases working.part.only other below found with own | rest
        · rcases List.mem_cons.mp own with same | later
          · exact absurd same different
          · exact .inl later
        · exact .inr rest

theorem numaDir_injective (same : numaDir layer left = numaDir layer right) : left = right := by
  simp only [numaDir, List.cons.injEq, and_true, true_and] at same
  exact numaName_injective same

theorem deleteNuma_open (numa : Nat) (numas : List Nat) :
    WhileOpen (Working format layers layer [] (numa :: numas) dir) (deleteDir signals pid (numaDir layer numa))
      (Working format layers layer [] numas dir) := by
  refine Meets.bind (point_open fun _ working => { working with orderly := { working.orderly with } }) fun _ =>
    Meets.bind (need_open fun world working => ?_) fun _ => modify_open (fun _ => rfl) fun world working => ?_
  · have here := working.part.parts numa List.mem_cons_self
    have empty : world.tree.isEmpty (numaDir layer numa) = true := by
      rw [PathTree.isEmpty_iff]
      intro below inside different
      by_contra present
      have under : layerDir layer <+: below := by
        refine List.IsPrefix.trans ?_ inside
        simp [layerDir, numaDir]
      rcases working.part.only below under present with own | ⟨other, member, rfl⟩ | ⟨-, rfl⟩
      · cases own
      · exact different (inside.eq_of_length rfl).symm
      · simpa [layerDir, numaDir] using inside.length_le
    simp [removable, PathTree.isDirectory, here, empty]
  · have inside : layerDir layer <+: numaDir layer numa := by simp [layerDir, numaDir]
    obtain ⟨absent, distinct⟩ := List.nodup_cons.mp working.distinct
    refine
      { orderly := working.orderly.removed inside
        part := ?_
        below := by simp
        once := List.nodup_nil
        distinct := distinct }
    refine
      { regular := by simp
        parts := fun other member => ?_
        directory := fun kept => ?_
        only := fun other below found => ?_ }
    · change (world.tree.remove _).find _ = _
      rw [PathTree.find_remove_of_ne]
      · exact working.part.parts other (List.mem_cons_of_mem _ member)
      · intro same
        exact absent (numaDir_injective same ▸ member)
    · change (world.tree.remove _).find _ = _
      rw [PathTree.find_remove_of_ne]
      · exact working.part.directory kept
      · simp [layerDir, numaDir]
    · change (world.tree.remove _).find other ≠ none at found
      rw [PathTree.find_remove] at found
      split at found
      · contradiction
      · rename_i different
        rcases working.part.only other below found with own | ⟨number, member, here⟩ | rest
        · cases own
        · rcases List.mem_cons.mp member with rfl | later
          · exact absurd here different
          · exact .inr (.inl ⟨number, later, here⟩)
        · exact .inr (.inr rest)

theorem deleteLayerDir_open :
    WhileOpen (Working format layers layer [] [] true) (deleteDir signals pid (layerDir layer))
      (Working format layers layer [] [] false) := by
  have only : ∀ world : World C, Working format layers layer [] [] true world → ∀ path, layerDir layer <+: path →
      world.tree.find path ≠ none → path = layerDir layer := by
    intro world working path below found
    rcases working.part.only path below found with own | ⟨numa, member, -⟩ | ⟨-, same⟩
    · cases own
    · cases member
    · exact same
  refine Meets.bind (point_open fun _ working => { working with orderly := { working.orderly with } }) fun _ =>
    Meets.bind (need_open fun world working => ?_) fun _ => modify_open (fun _ => rfl) fun world working => ?_
  · have here := working.part.directory rfl
    have empty : world.tree.isEmpty (layerDir layer) = true := by
      rw [PathTree.isEmpty_iff]
      intro below inside different
      by_contra present
      exact different (only world working below inside present)
    simp [removable, PathTree.isDirectory, here, empty]
  · refine
      { orderly := working.orderly.removed List.prefix_rfl
        part := ?_
        below := by simp
        once := List.nodup_nil
        distinct := List.nodup_nil }
    refine
      { regular := by simp
        parts := by simp
        directory := fun impossible => by cases impossible
        only := fun other below found => ?_ }
    change (world.tree.remove _).find other ≠ none at found
    rw [PathTree.find_remove] at found
    split at found
    · contradiction
    · rename_i different
      exact absurd (only world working other below found) different

theorem end_open (only : ∀ other ∈ layers, other.index = layer.index → paths other = paths layer) :
    WhileOpen (Working format layers layer [] [] false) (setState layer.index consumed)
      (Orderly format (withState layer.index consumed layers) none) := by
  refine modify_open (fun _ => rfl) fun world working => ?_
  refine (working.orderly.setState (.inr rfl) consumed).whole fun other member same => ?_
  obtain ⟨before, inside, rfl⟩ := List.mem_map.mp member
  have here : before.index = layer.index := by
    split at same
    · exact same
    · exact same
  rw [if_pos here]
  have dirs : layerDir { before with state := consumed } = layerDir layer := by
    simp [layerDir, here]
  refine .inr ⟨rfl, ?_⟩
  exact
    { regular := by simp
      parts := by simp
      directory := fun impossible => by cases impossible
      only := fun path below found => by
        rcases working.part.only path (dirs ▸ below) found with own | ⟨numa, own, -⟩ | ⟨impossible, -⟩
        · cases own
        · cases own
        · cases impossible }

end KtKernel.Sft.WeightStore
