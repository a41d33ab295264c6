import KtKernel.Sft.WeightStore

namespace KtKernel.Sft.WeightStore

open KtKernel.Data
open Ephemeral (Format FileRecord LayerRecord manifestName temporaryName)

variable {C : Type} {format : Format C} {signals : Nat → Signal} {pid : Nat} {start world : World C}

/-! ## The records of the layers -/

/-- The listed files lie two directories below the root, each layer in its own. -/
structure Shaped (layers : List LayerRecord) : Prop where
  distinct : (layers.map LayerRecord.index).Nodup
  files : ∀ layer ∈ layers, ∀ path ∈ paths layer, ∃ numa < layer.numaCount, ∃ name,
    path = [layerName layer.index, numaName numa, name] ∧ "..".toList ∉ path
  once : ∀ layer ∈ layers, (paths layer).Nodup

theorem mem_listed {layers : List LayerRecord} {path : List Name} :
    path ∈ listed layers ↔ ∃ layer ∈ layers, path ∈ paths layer :=
  List.mem_flatMap

theorem Shaped.length {layers : List LayerRecord} (shaped : Shaped layers) (member : path ∈ listed layers) :
    path.length = 3 := by
  obtain ⟨layer, inside, own⟩ := mem_listed.mp member
  obtain ⟨numa, -, name, rfl, -⟩ := shaped.files layer inside path own
  rfl

theorem Shaped.ne_manifest {layers : List LayerRecord} (shaped : Shaped layers) (member : path ∈ listed layers) :
    path ≠ [manifestName] := by
  rintro rfl
  have three := shaped.length member
  simp at three

theorem Shaped.ne_temporary {layers : List LayerRecord} (shaped : Shaped layers) (member : path ∈ listed layers)
    (pid : Nat) : path ≠ temporaryPath pid := by
  rintro rfl
  have three := shaped.length member
  simp [temporaryPath] at three

structure Follows (old layer : LayerRecord) : Prop where
  index : layer.index = old.index
  files : layer.files = old.files
  consumed : old.state = consumed → layer.state = consumed

theorem Follows.paths {old layer : LayerRecord} (follows : Follows old layer) : paths layer = paths old := by
  rw [WeightStore.paths, follows.files]
  rfl

theorem Follows.refl (layer : LayerRecord) : Follows layer layer :=
  ⟨rfl, rfl, id⟩

def withState (index : Int) (state : List Char) (layers : List LayerRecord) : List LayerRecord :=
  layers.map fun layer => if layer.index = index then { layer with state := state } else layer

theorem paths_withState (index : Int) (state : List Char) (layer : LayerRecord) :
    paths (if layer.index = index then { layer with state := state } else layer) = paths layer := by
  split <;> rfl

theorem listed_withState (index : Int) (state : List Char) (layers : List LayerRecord) :
    listed (withState index state layers) = listed layers := by
  rw [listed, withState, List.flatMap_map]
  exact congrArg (List.flatMap · layers) (funext fun layer => paths_withState index state layer)

theorem Shaped.withState {layers : List LayerRecord} (shaped : Shaped layers) (index : Int) (state : List Char) :
    Shaped (withState index state layers) where
  distinct := by
    have same : (WeightStore.withState index state layers).map LayerRecord.index = layers.map LayerRecord.index := by
      rw [WeightStore.withState, List.map_map]
      refine List.map_congr_left fun layer _ => ?_
      simp only [Function.comp]
      split <;> rfl
    rw [same]
    exact shaped.distinct
  files := by
    intro layer member path own
    obtain ⟨old, inside, rfl⟩ := List.mem_map.mp member
    rw [paths_withState] at own
    have shape := shaped.files old inside path own
    split
    · exact shape
    · exact shape
  once := by
    intro layer member
    obtain ⟨old, inside, rfl⟩ := List.mem_map.mp member
    rw [paths_withState]
    exact shaped.once old inside

/-! ## What every step keeps -/

/-- What a call may delete: its own two manifests, and the files of layers that were
not consumed when it began. -/
def MayDelete (pid : Nat) (start : World C) (path : List Name) : Prop :=
  path = [manifestName] ∨ path = temporaryPath pid ∨
    ∃ layer ∈ start.layers, layer.state ≠ consumed ∧ path ∈ paths layer

/-- The world inside a call that began at `start`, with the records `layers` and the
listed files `gone` deleted. -/
structure Kept (pid : Nat) (start : World C) (layers : List LayerRecord) (gone : List (List Name)) (world : World C) :
    Prop where
  current : world.layers = layers
  shaped : Shaped layers
  back : ∀ layer ∈ layers, ∃ old ∈ start.layers, Follows old layer
  forth : ∀ old ∈ start.layers, ∃ layer ∈ layers, Follows old layer
  regular : ∀ path ∈ listed layers, world.tree.find path = none ∨ world.tree.isRegular path = true
  absent : ∀ path ∈ listed layers, path ∈ gone ∨ path ∈ world.deleted → world.tree.find path = none
  once : (world.deleted.filter fun path => decide (path ∈ listed layers)).Nodup
  only : ∀ path ∈ world.deleted, path ∈ listed layers ∨ path = [manifestName] ∨ path = temporaryPath pid
  deletes : ∀ path ∈ world.deleted, path ∈ start.deleted ∨ MayDelete pid start path
  consumed : ∀ layer ∈ layers, layer.state = WeightStore.consumed → ∀ path ∈ paths layer, world.tree.find path = none
  cleaned : world.cleaned = true → ∀ path ∈ listed layers, world.tree.find path = none
  closes : start.closed = true → world.closed = true

/-- What holds of a store between two calls. -/
def Sound (pid : Nat) (world : World C) : Prop :=
  Kept pid world world.layers [] world

variable {layers : List LayerRecord} {gone : List (List Name)}

theorem Kept.forget (kept : Kept pid start layers gone world) : Kept pid start layers [] world :=
  { kept with absent := fun path member deleted => kept.absent path member (.inr (by simpa using deleted)) }

theorem Kept.sound (kept : Kept pid start layers gone world) : Sound pid world := by
  have here := kept.current
  subst here
  exact
    { kept.forget with
      back := fun layer member => ⟨layer, member, .refl layer⟩
      forth := fun layer member => ⟨layer, member, .refl layer⟩
      deletes := fun path member => .inl member
      closes := id }

/-- Steps that change nothing but the tree, and nothing about the listed files but that
some are gone. -/
theorem Kept.retree (kept : Kept pid start layers gone world) {tree : PathTree C}
    (same : ∀ path ∈ listed layers, tree.find path = none ∨ tree.find path = world.tree.find path) :
    Kept pid start layers gone { world with tree := tree } := by
  have stays : ∀ path ∈ listed layers, world.tree.find path = none → tree.find path = none := by
    intro path member absent
    rcases same path member with left | left
    · exact left
    · rw [left, absent]
  refine
    { kept with
      regular := ?_
      absent := fun path member deleted => stays path member (kept.absent path member deleted)
      consumed := ?_
      cleaned := fun clean path member => stays path member (kept.cleaned clean path member) }
  · intro path member
    rcases same path member with left | left
    · exact .inl left
    · rcases kept.regular path member with missing | regular
      · exact .inl (left.trans missing)
      · refine .inr ?_
        rw [PathTree.isRegular, left]
        exact regular
  · intro layer member done path own
    exact stays path (mem_listed.mpr ⟨layer, member, own⟩) (kept.consumed layer member done path own)

theorem Kept.remove (kept : Kept pid start layers gone world) (path : List Name) :
    Kept pid start layers gone { world with tree := world.tree.remove path } := by
  refine kept.retree fun other _ => ?_
  rw [PathTree.find_remove]
  split
  · exact .inl rfl
  · exact .inr rfl

/-! ## Rules for the steps -/

theorem tick_meets {pre : World C → Prop}
    (steady : ∀ world, pre world → pre { world with clock := world.clock + 1 }) {fault : Stop → World C → Prop} :
    Meets pre (tick signals) (fun _ => pre) fault := fun world holds => steady world holds

theorem Kept.ticked (kept : Kept pid start layers gone world) :
    Kept pid start layers gone { world with clock := world.clock + 1 } :=
  { kept with }

theorem need_meets {pre : World C → Prop} (holds : World C → Bool) :
    Meets pre (need holds) (fun _ world => pre world ∧ holds world = true) (fun _ => pre) := by
  intro world before
  have ran : need holds world = if holds world then .ok () world else .error .raised world := by
    change (if holds world then (pure () : Program C Unit) else raise) world = _
    split <;> rfl
  rw [ran]
  by_cases passes : holds world = true
  · rw [if_pos passes]
    exact ⟨before, passes⟩
  · rw [if_neg passes]
    exact before

/-- A step that keeps what a call keeps, whether it returns or raises. -/
abbrev Keeps (pid : Nat) (start : World C) (layers : List LayerRecord) (gone after : List (List Name))
    (program : Program C Unit) : Prop :=
  Meets (Kept pid start layers gone) program (fun _ => Kept pid start layers after)
    (fun _ world => ∃ gone, Kept pid start layers gone world)

theorem need_keeps (holds : World C → Bool) : Keeps pid start layers gone gone (need holds) :=
  (need_meets holds).weaken (fun _ _ both => both.1) fun _ _ kept => ⟨gone, kept⟩

theorem quietPoint_keeps : Keeps pid start layers gone gone (quietPoint signals) := by
  refine Meets.bind (tick_meets fun world kept => Kept.ticked kept) fun signal => ?_
  cases signal with
  | none => exact fun _ kept => kept
  | returns => exact fun _ kept => kept
  | exits => exact fun _ kept => ⟨gone, kept⟩

theorem unlink_keeps {path : List Name} (allowed : MayDelete pid start path)
    (known : path ∈ listed layers ∨ path = [manifestName] ∨ path = temporaryPath pid) :
    Keeps pid start layers gone (path :: gone) (unlink path) := by
  refine Meets.bind ((need_meets (unlinkable path)).weaken (fun _ _ both => both) fun _ _ kept => ⟨gone, kept⟩)
    fun _ => ?_
  rintro world ⟨kept, present⟩
  have found : world.tree.find path ≠ none := by
    intro absent
    simp [unlinkable, absent] at present
  have less := kept.remove path
  change Kept pid start layers (path :: gone) (dropFile path world)
  refine { less with
    absent := ?_
    once := ?_
    only := ?_
    deletes := ?_ }
  · intro other member deleted
    by_cases same : other = path
    · subst same
      exact PathTree.find_remove_self
    · exact less.absent other member (by simpa [same, dropFile] using deleted)
  · rw [dropFile, List.filter_cons]
    split
    · rename_i inside
      refine List.nodup_cons.mpr ⟨fun member => ?_, kept.once⟩
      have before := (List.mem_filter.mp member).1
      exact found (kept.absent path (by simpa using inside) (.inr before))
    · exact kept.once
  · intro other member
    rcases List.mem_cons.mp member with rfl | before
    · exact known
    · exact kept.only other before
  · intro other member
    rcases List.mem_cons.mp member with rfl | before
    · exact .inr allowed
    · exact kept.deletes other before

theorem rmdir_keeps (path : List Name) : Keeps pid start layers gone gone (rmdir path) := by
  refine Meets.bind (need_keeps (removable path)) fun _ => ?_
  exact fun world kept => kept.remove path

theorem tryRmdir_keeps (path : List Name) : Keeps pid start layers gone gone (tryRmdir path) := by
  intro world kept
  change Kept pid start layers gone (if removable path world then dropDirectory path world else world)
  split
  · exact kept.remove path
  · exact kept

/-! ## A cleanup -/

theorem Kept.regone {after : List (List Name)} (kept : Kept pid start layers gone world)
    (fewer : ∀ path ∈ listed layers, path ∈ after → path ∈ gone ∨ world.tree.find path = none) :
    Kept pid start layers after world := by
  refine { kept with absent := fun path member known => ?_ }
  rcases known with deleted | before
  · rcases fewer path member deleted with inside | missing
    · exact kept.absent path member (.inl inside)
    · exact missing
  · exact kept.absent path member (.inr before)

theorem cleanupFile_keeps {path : List Name} (allowed : MayDelete pid start path)
    (known : path ∈ listed layers ∨ path = [manifestName] ∨ path = temporaryPath pid) :
    Keeps pid start layers gone (path :: gone) (cleanupFile signals path) := by
  refine Meets.bind quietPoint_keeps fun _ => Meets.bind Meets.get fun found => ?_
  split
  · exact (Meets.bind quietPoint_keeps fun _ => unlink_keeps allowed known).strengthen fun _ both => both.2
  · rename_i special
    rintro world ⟨rfl, kept⟩
    refine kept.regone fun other member deleted => ?_
    rcases List.mem_cons.mp deleted with rfl | before
    · exact .inr ((kept.regular other member).resolve_right special)
    · exact .inl before

theorem cleanupDir_keeps (path : List Name) : Keeps pid start layers gone gone (cleanupDir signals path) := by
  refine Meets.bind quietPoint_keeps fun _ => Meets.bind Meets.get fun found => ?_
  split
  · exact (Meets.bind quietPoint_keeps fun _ => tryRmdir_keeps path).strengthen fun _ both => both.2
  · exact fun _ both => both.2

theorem forM_keeps {α : Type} {items : List α} {body : α → Program C Unit}
    (round : ∀ item ∈ items, Keeps pid start layers gone gone (body item)) :
    Keeps pid start layers gone gone (items.forM body) := by
  refine Meets.forM (fun _ => Kept pid start layers gone) items fun done item rest whole => ?_
  exact round item (whole ▸ List.mem_append_right done List.mem_cons_self)

/-- A loop over files, each of which is gone after its round. -/
theorem forM_deletes {α : Type} {items : List α} {body : α → Program C Unit} (path : α → List Name)
    (round : ∀ item ∈ items, ∀ gone, Keeps pid start layers gone (path item :: gone) (body item)) :
    Keeps pid start layers gone (items.map path ++ gone) (items.forM body) := by
  refine Meets.forM (fun done => Kept pid start layers (done.map path ++ gone)) items fun done item rest whole => ?_
  have inside : item ∈ items := whole ▸ List.mem_append_right done List.mem_cons_self
  refine (round item inside (done.map path ++ gone)).weaken (fun _ world kept => ?_) fun _ _ kept => kept
  refine kept.regone fun other _ known => .inl ?_
  simp only [List.map_append, List.map_cons, List.map_nil, List.mem_append, List.mem_cons, List.not_mem_nil,
    or_false] at known ⊢
  tauto

theorem Kept.mayDelete (kept : Kept pid start layers gone world) (member : layer ∈ layers)
    (unfinished : layer.state ≠ WeightStore.consumed) (own : path ∈ paths layer) : MayDelete pid start path := by
  obtain ⟨old, inside, follows⟩ := kept.back layer member
  exact .inr (.inr ⟨old, inside, fun done => unfinished (follows.consumed done), follows.paths ▸ own⟩)

/-- The files that a cleanup deletes of a layer. -/
def droppedPaths (layer : LayerRecord) : List (List Name) :=
  if layer.state = consumed then [] else paths layer

theorem cleanupLayer_keeps (member : layer ∈ layers) :
    Keeps pid start layers gone (droppedPaths layer ++ gone) (cleanupLayer signals layer) := by
  intro world kept
  revert world
  rw [cleanupLayer, droppedPaths]
  split
  · exact fun _ kept => kept
  · rename_i unfinished
    intro world kept
    have allowed : ∀ path ∈ paths layer, MayDelete pid start path := fun path own =>
      kept.mayDelete member unfinished own
    have shape := kept.shaped.files layer member
    have deletes : Keeps pid start layers gone (paths layer ++ gone)
        (layer.files.forM fun file =>
          if file.path.contains "..".toList then pure () else cleanupFile signals file.path) := by
      refine forM_deletes FileRecord.path fun file inside gone => ?_
      have own : file.path ∈ paths layer := List.mem_map_of_mem inside
      obtain ⟨numa, -, name, -, plain⟩ := shape file.path own
      rw [if_neg (by simpa using plain)]
      exact cleanupFile_keeps (allowed _ own) (.inl (mem_listed.mpr ⟨layer, member, own⟩))
    exact (Meets.bind deletes fun _ => Meets.bind (forM_keeps fun numa _ => cleanupDir_keeps (numaDir layer numa))
      fun _ => cleanupDir_keeps (layerDir layer)) world kept

theorem cleanupLayers_keeps :
    Keeps pid start layers gone (layers.flatMap droppedPaths ++ gone) (layers.forM (cleanupLayer signals)) := by
  refine Meets.forM (fun done => Kept pid start layers (done.flatMap droppedPaths ++ gone)) layers
    fun done layer rest whole => ?_
  have inside : layer ∈ layers := by
    rw [whole]
    exact List.mem_append_right done List.mem_cons_self
  refine (cleanupLayer_keeps inside).weaken (fun _ world kept => ?_) fun _ _ kept => kept
  refine kept.regone fun other _ known => .inl ?_
  simp only [List.flatMap_append, List.flatMap_cons, List.flatMap_nil, List.append_nil, List.mem_append] at known ⊢
  tauto

/-- What is left to do once the store is closed. -/
def cleanupBody (signals : Nat → Signal) (pid : Nat) (layers : List LayerRecord) : Program C Unit := do
  layers.forM (cleanupLayer signals)
  [[manifestName], [temporaryName pid]].forM (cleanupFile signals)
  quietPoint signals
  tryRmdir []
  modify fun world => { world with cleaned := true }

theorem cleanup_run (world : World C) : cleanup signals pid world =
    if world.closed then .ok () world else cleanupBody signals pid world.layers { world with closed := true } := by
  change (if world.closed then (pure () : Program C Unit) else _) world = _
  split <;> rfl

theorem cleanupBody_keeps : Keeps pid start layers gone gone (cleanupBody signals pid layers) := by
  have manifests : Keeps pid start layers (layers.flatMap droppedPaths ++ gone) (layers.flatMap droppedPaths ++ gone)
      ([[manifestName], [temporaryName pid]].forM (cleanupFile signals)) := by
    refine forM_keeps fun path member => ?_
    have own : path = [manifestName] ∨ path = temporaryPath pid := by
      simpa [temporaryPath] using member
    have allowed : MayDelete pid start path := own.imp_right .inl
    refine (cleanupFile_keeps allowed (.inr own)).weaken (fun _ world kept => ?_) fun _ _ kept => kept
    exact kept.regone fun other _ inside => .inl (List.mem_cons_of_mem _ inside)
  refine Meets.bind cleanupLayers_keeps fun _ => Meets.bind manifests fun _ => Meets.bind quietPoint_keeps
    fun _ => Meets.bind (tryRmdir_keeps []) fun _ => ?_
  intro world kept
  change Kept pid start layers gone { world with cleaned := true }
  have fewer : Kept pid start layers gone world :=
    kept.regone fun other _ inside => .inl (List.mem_append_right _ inside)
  refine { fewer with cleaned := fun _ path member => ?_ }
  obtain ⟨layer, inside, own⟩ := mem_listed.mp member
  by_cases done : layer.state = WeightStore.consumed
  · exact kept.consumed layer inside done path own
  · refine kept.absent path member (.inl (List.mem_append_left _ (List.mem_flatMap.mpr ⟨layer, inside, ?_⟩)))
    rwa [droppedPaths, if_neg done]

theorem cleanup_keeps : Keeps pid start layers gone gone (cleanup signals pid) := by
  intro world kept
  rw [cleanup_run]
  by_cases closed : world.closed = true
  · rw [if_pos closed]
    exact kept
  · rw [if_neg closed]
    have here := kept.current
    subst here
    exact cleanupBody_keeps { world with closed := true } { kept with closes := fun _ => rfl }

theorem point_keeps : Keeps pid start layers gone gone (point signals pid) := by
  refine Meets.bind (tick_meets fun world kept => Kept.ticked kept) fun signal => ?_
  cases signal with
  | none => exact fun _ kept => kept
  | returns => exact cleanup_keeps
  | exits => exact Meets.bind cleanup_keeps fun _ _ kept => ⟨gone, kept⟩

/-! ## The other calls -/

theorem openTemporary_keeps : Keeps pid start layers gone gone (openTemporary format pid) := by
  refine Meets.bind (need_keeps _) fun _ => ?_
  intro world kept
  exact kept.retree fun path member => .inr (PathTree.find_put_of_ne (kept.shaped.ne_temporary member pid))

theorem replaceManifest_keeps : Keeps pid start layers gone gone (replaceManifest pid : Program C Unit) := by
  refine Meets.bind Meets.get fun found => ?_
  split
  · rintro world ⟨rfl, kept⟩
    refine (kept.remove (temporaryPath pid)).retree fun path member => .inr ?_
    exact PathTree.find_put_of_ne (kept.shaped.ne_manifest member)
  · exact fun world both => ⟨gone, both.2⟩

theorem atomicWriteManifest_keeps :
    Keeps pid start layers gone gone (atomicWriteManifest format signals pid) :=
  Meets.bind point_keeps fun _ => Meets.bind openTemporary_keeps fun _ => Meets.bind point_keeps fun _ =>
    Meets.bind point_keeps fun _ => replaceManifest_keeps

theorem setState_keeps {index : Int} {state : List Char}
    (fine : state = consumed ∨ ∀ layer ∈ layers, layer.index = index → layer.state ≠ consumed)
    (done : state = consumed → ∀ layer ∈ layers, layer.index = index → ∀ path ∈ paths layer, path ∈ gone) :
    Meets (Kept pid start layers gone) (setState index state : Program C Unit)
      (fun _ => Kept pid start (withState index state layers) gone)
      (fun _ world => ∃ layers gone, Kept pid start layers gone world) := by
  intro world kept
  have same := listed_withState index state layers
  have follows : ∀ layer ∈ layers, ∀ old, Follows old layer →
      Follows old (if layer.index = index then { layer with state := state } else layer) := by
    intro layer member old follow
    split
    · rename_i here
      refine ⟨follow.index, follow.files, fun before => ?_⟩
      rcases fine with closing | live
      · exact closing
      · exact absurd (follow.consumed before) (live layer member here)
    · exact follow
  change Kept pid start (withState index state layers) gone { world with
    layers := withState index state world.layers }
  rw [kept.current]
  refine
    { current := rfl
      shaped := kept.shaped.withState index state
      back := ?_
      forth := ?_
      regular := same ▸ kept.regular
      absent := same ▸ kept.absent
      once := same ▸ kept.once
      only := same ▸ kept.only
      deletes := kept.deletes
      consumed := ?_
      cleaned := same ▸ kept.cleaned
      closes := kept.closes }
  · intro layer member
    obtain ⟨before, inside, rfl⟩ := List.mem_map.mp member
    obtain ⟨old, first, follow⟩ := kept.back before inside
    exact ⟨old, first, follows before inside old follow⟩
  · intro old first
    obtain ⟨before, inside, follow⟩ := kept.forth old first
    exact ⟨_, List.mem_map_of_mem inside, follows before inside old follow⟩
  · intro layer member finished path own
    obtain ⟨before, inside, rfl⟩ := List.mem_map.mp member
    rw [paths_withState] at own
    have known : path ∈ listed layers := mem_listed.mpr ⟨before, inside, own⟩
    split at finished
    · rename_i here
      exact kept.absent path known (.inl (done finished before inside here path own))
    · exact kept.consumed before inside finished path own

theorem checked_keeps (check : PathTree C → Except Error Unit) :
    Keeps pid start layers gone gone (checked signals pid check) :=
  Meets.bind point_keeps fun _ => need_keeps _

theorem validateFile_keeps (layer : LayerRecord) (seen : List (List Name)) (file : FileRecord) :
    Meets (Kept pid start layers gone) (validateFile format signals pid layer seen file)
      (fun _ => Kept pid start layers gone) (fun _ world => ∃ gone, Kept pid start layers gone world) :=
  Meets.bind (need_keeps _) fun _ => Meets.bind (checked_keeps _) fun _ => Meets.bind (checked_keeps _)
    fun _ _ kept => kept

theorem validateLayer_keeps (layer : LayerRecord) :
    Keeps pid start layers gone gone (validateLayer format signals pid layer) := by
  refine Meets.bind (need_keeps _) fun _ => Meets.bind ?_ fun _ => checked_keeps _
  exact Meets.foldlM (fun _ _ => Kept pid start layers gone) layer.files [] fun _ file _ seen _ =>
    validateFile_keeps layer seen file

theorem deleteFile_keeps {path : List Name} (allowed : MayDelete pid start path) (known : path ∈ listed layers) :
    Keeps pid start layers gone (path :: gone) (deleteFile signals pid path) :=
  Meets.bind point_keeps fun _ => Meets.bind (need_keeps _) fun _ => Meets.bind point_keeps fun _ =>
    unlink_keeps allowed (.inl known)

theorem deleteDir_keeps (path : List Name) : Keeps pid start layers gone gone (deleteDir signals pid path) :=
  Meets.bind point_keeps fun _ => rmdir_keeps path

/-- The world inside a call. -/
def Tracked (pid : Nat) (start world : World C) : Prop :=
  ∃ layers gone, Kept pid start layers gone world

theorem Keeps.tracks {after : List (List Name)} {program : Program C Unit}
    (keeps : Keeps pid start layers gone after program) :
    Meets (Kept pid start layers gone) program (fun _ => Kept pid start layers after) (fun _ => Tracked pid start) :=
  keeps.weaken (fun _ _ kept => kept) fun _ _ ⟨gone, kept⟩ => ⟨layers, gone, kept⟩

theorem consumeReady_keeps {layer : LayerRecord} (member : layer ∈ layers) (isReady : layer.state = ready) :
    Meets (Kept pid start layers []) (do
        validateLayer format signals pid layer
        setState layer.index consuming
        atomicWriteManifest format signals pid
        layer.files.forM fun file => deleteFile signals pid file.path
        (List.range layer.numaCount).reverse.forM fun numa => deleteDir signals pid (numaDir layer numa)
        deleteDir signals pid (layerDir layer)
        setState layer.index consumed
        atomicWriteManifest format signals pid)
      (fun _ => Tracked pid start) (fun _ => Tracked pid start) := by
  intro world kept
  have only : ∀ other ∈ layers, other.index = layer.index → other = layer := fun other inside same =>
    List.inj_on_of_nodup_map kept.shaped.distinct inside member same
  have unfinished : layer.state ≠ consumed := by
    rw [isReady]
    decide
  have allowed : ∀ path ∈ paths layer, MayDelete pid start path := fun path own => kept.mayDelete member unfinished own
  have known : ∀ path ∈ paths layer, path ∈ listed (withState layer.index consuming layers) := fun path own => by
    rw [listed_withState]
    exact mem_listed.mpr ⟨layer, member, own⟩
  have begins : Meets (Kept pid start layers []) (setState layer.index consuming : Program C Unit)
      (fun _ => Kept pid start (withState layer.index consuming layers) []) (fun _ => Tracked pid start) := by
    refine setState_keeps (.inr fun other inside same => ?_) fun impossible => absurd impossible (by decide)
    rw [only other inside same]
    exact unfinished
  have deletes : Keeps pid start (withState layer.index consuming layers) [] (paths layer ++ [])
      (layer.files.forM fun file => deleteFile signals pid file.path) :=
    forM_deletes FileRecord.path fun file inside gone =>
      deleteFile_keeps (allowed _ (List.mem_map_of_mem inside)) (known _ (List.mem_map_of_mem inside))
  have ends : Meets (Kept pid start (withState layer.index consuming layers) (paths layer ++ []))
      (setState layer.index consumed : Program C Unit)
      (fun _ => Kept pid start (withState layer.index consumed (withState layer.index consuming layers))
        (paths layer ++ [])) (fun _ => Tracked pid start) := by
    refine setState_keeps (.inl rfl) fun _ other inside same path own => ?_
    obtain ⟨before, first, rfl⟩ := List.mem_map.mp inside
    rw [paths_withState] at own
    have here : before.index = layer.index := by
      split at same
      · exact same
      · exact same
    rw [only before first here] at own
    exact List.mem_append_left _ own
  exact (Meets.bind (validateLayer_keeps layer).tracks fun _ => Meets.bind begins fun _ =>
    Meets.bind atomicWriteManifest_keeps.tracks fun _ => Meets.bind deletes.tracks fun _ =>
    Meets.bind (forM_keeps fun numa _ => deleteDir_keeps (numaDir layer numa)).tracks fun _ =>
    Meets.bind (deleteDir_keeps (layerDir layer)).tracks fun _ => Meets.bind ends fun _ =>
    (atomicWriteManifest_keeps.tracks).weaken (fun _ _ kept => ⟨_, _, kept⟩) fun _ _ tracked => tracked) world kept

theorem consumeLayer_keeps (layerIdx : Int) :
    Meets (Kept pid start layers []) (consumeLayer format signals pid layerIdx)
      (fun _ => Tracked pid start) (fun _ => Tracked pid start) := by
  refine Meets.bind (need_keeps _).tracks fun _ => Meets.bind Meets.get fun found => ?_
  suffices rest : Meets (fun world => Kept pid start layers [] world ∧ found.layers = layers) _
      (fun _ => Tracked pid start) (fun _ => Tracked pid start) by
    refine rest.strengthen ?_
    rintro world ⟨rfl, kept⟩
    exact ⟨kept, kept.current⟩
  · refine Meets.assume fun same => ?_
    rw [same]
    split
    · exact fun world kept => ⟨layers, [], kept⟩
    · rename_i layer here
      have named : layer.index = layerIdx := by simpa using List.find?_some here
      refine Meets.bind ((need_meets (fun _ => layer.state == ready)).weaken (fun _ _ both => both)
        fun _ _ kept => ⟨layers, [], kept⟩) fun _ => Meets.assume fun isReady => ?_
      subst named
      exact consumeReady_keeps (List.mem_of_find?_eq_some here) (by simpa using isReady)

theorem finish_keeps : Keeps pid start layers gone gone (finish signals pid) := by
  have manifest : Keeps pid start layers gone gone (unlink [manifestName]) :=
    (unlink_keeps (.inl rfl) (.inr (.inl rfl))).weaken
      (fun _ world kept => kept.regone fun other _ inside => .inl (List.mem_cons_of_mem _ inside)) fun _ _ kept => kept
  exact Meets.bind (need_keeps _) fun _ => Meets.bind point_keeps fun _ => Meets.bind manifest fun _ =>
    Meets.bind point_keeps fun _ => Meets.bind (rmdir_keeps []) fun _ world kept => { kept with closes := fun _ => rfl }

/-- Every call keeps what a call keeps. -/
theorem Sound.tracked (sound : Sound pid world) (action : Action) :
    Tracked pid world (perform format signals pid world action).2 := by
  have meets : Meets (Kept pid world world.layers []) (action.program format signals pid)
      (fun _ => Tracked pid world) (fun _ => Tracked pid world) := by
    cases action with
    | consumeLayer layerIdx => exact consumeLayer_keeps layerIdx
    | finish => exact finish_keeps.tracks.weaken (fun _ _ kept => ⟨_, _, kept⟩) fun _ _ tracked => tracked
    | cleanup => exact cleanup_keeps.tracks.weaken (fun _ _ kept => ⟨_, _, kept⟩) fun _ _ tracked => tracked
  have done := meets world sound
  rw [perform]
  split
  · rename_i same
    rw [same] at done
    exact done
  · rename_i same
    rw [same] at done
    exact done

end KtKernel.Sft.WeightStore
