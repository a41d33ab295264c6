import KtKernel.Sft.WeightStoreTidy

namespace KtKernel.Sft.WeightStore

open KtKernel.Data
open Ephemeral (Format FileRecord LayerRecord manifestName temporaryName)

variable {C : Type} {format : Format C} {signals : Nat → Signal} {pid : Nat} {start world : World C}
  {layers : List LayerRecord} {layer : LayerRecord}

theorem Shaped.only (shaped : Shaped layers) (member : layer ∈ layers) (inside : other ∈ layers)
    (same : other.index = layer.index) : other = layer :=
  List.inj_on_of_nodup_map shaped.distinct inside member same

theorem consumeReady_open (shaped : Shaped layers) (member : layer ∈ layers) (isReady : layer.state = ready)
    (some_ : layer.files ≠ []) :
    Meets (fun world => IsClosed world ∨ Orderly format layers none world) (do
        validateLayer format signals pid layer
        setState layer.index consuming
        atomicWriteManifest format signals pid
        layer.files.forM fun file => deleteFile signals pid file.path
        (List.range layer.numaCount).reverse.forM fun numa => deleteDir signals pid (numaDir layer numa)
        deleteDir signals pid (layerDir layer)
        setState layer.index consumed
        atomicWriteManifest format signals pid)
      (fun _ world => IsClosed world ∨ Tidy format world) (fun _ => IsClosed) := by
  have files : Meets (fun world => IsClosed world ∨ Working format (withState layer.index consuming layers) layer
        (paths layer) (List.range layer.numaCount).reverse true world)
      (layer.files.forM fun file => deleteFile signals pid file.path)
      (fun _ world => IsClosed world ∨ Working format (withState layer.index consuming layers) layer []
        (List.range layer.numaCount).reverse true world) (fun _ => IsClosed) :=
    Meets.forM_remaining (fun rest world => IsClosed world ∨
      Working format (withState layer.index consuming layers) layer (rest.map FileRecord.path)
        (List.range layer.numaCount).reverse true world)
      (fun file rest => deleteFile_open file.path (rest.map FileRecord.path)) layer.files
  have numas : Meets (fun world => IsClosed world ∨ Working format (withState layer.index consuming layers) layer []
        (List.range layer.numaCount).reverse true world)
      ((List.range layer.numaCount).reverse.forM fun numa => deleteDir signals pid (numaDir layer numa))
      (fun _ world => IsClosed world ∨ Working format (withState layer.index consuming layers) layer [] [] true world)
      (fun _ => IsClosed) :=
    Meets.forM_remaining (fun rest world => IsClosed world ∨
      Working format (withState layer.index consuming layers) layer [] rest true world)
      (fun numa rest => deleteNuma_open numa rest) (List.range layer.numaCount).reverse
  have only : ∀ other ∈ withState layer.index consuming layers, other.index = layer.index →
      paths other = paths layer := by
    intro other inside same
    obtain ⟨before, first, rfl⟩ := List.mem_map.mp inside
    have here : before.index = layer.index := by
      split at same
      · exact same
      · exact same
    rw [paths_withState, shaped.only member first here]
  exact Meets.bind (validateLayer_open shaped member isReady some_) fun _ =>
    Meets.bind (begin_open shaped member isReady) fun _ =>
    Meets.bind (atomicWriteManifest_open Working.rewritable) fun _ => Meets.bind files fun _ =>
    Meets.bind numas fun _ => Meets.bind deleteLayerDir_open fun _ => Meets.bind (end_open only) fun _ =>
    (atomicWriteManifest_open Orderly.rewritable).weaken
      (fun _ _ holds => holds.imp_right fun orderly => by rw [Tidy, orderly.current]; exact orderly)
      fun _ _ closed => closed

/-- Between two calls the store is closed or in order. -/
def Rests (format : Format C) (world : World C) : Prop :=
  IsClosed world ∨ Tidy format world

theorem consumeLayer_rests (layerIdx : Int) :
    Meets (Rests format) (consumeLayer format signals pid layerIdx) (fun _ => Rests format) (fun _ => Rests format) := by
  refine Meets.bind ((need_meets _).weaken (fun _ _ both => both) fun _ _ rests => rests) fun _ =>
    Meets.bind Meets.get fun found => ?_
  rintro world ⟨rfl, rests, open_⟩
  have tidy : Tidy format found := rests.resolve_left (by simpa [IsClosed] using open_)
  cases here : found.layers.find? fun layer => layer.index = layerIdx with
  | none => exact .inr tidy
  | some layer =>
      have named : layer.index = layerIdx := by simpa using List.find?_some here
      have member := List.mem_of_find?_eq_some here
      subst named
      have checks : Meets (fun world => world = found) (need fun _ => layer.state == ready)
          (fun _ world => world = found ∧ (layer.state == ready) = true) (fun _ => Rests format) :=
        (need_meets _).weaken (fun _ _ both => both) fun _ _ same => .inr (same ▸ tidy)
      refine Meets.bind checks (fun _ => Meets.assume fun isReady => ?_) found rfl
      have isReady : layer.state = ready := by simpa using isReady
      suffices rest : Meets (fun world => IsClosed world ∨ Orderly format found.layers none world) _
          (fun _ => Rests format) (fun _ => Rests format) by
        refine rest.strengthen ?_
        rintro world rfl
        exact .inr tidy
      exact (consumeReady_open tidy.shaped member isReady (tidy.intact member isReady).nonempty).weaken
        (fun _ _ rests => rests) fun _ _ closed => .inl closed

/-! ## Finishing -/

/-- Only the root is left. -/
def Bare (world : World C) : Prop :=
  world.tree.find [] = some .directory ∧ ∀ path, path ≠ [] → world.tree.find path = none

theorem Tidy.bare (tidy : Tidy format world) (done : ∀ layer ∈ world.layers, layer.state = consumed) :
    Bare (dropFile [manifestName] world) := by
  refine ⟨(PathTree.find_remove_of_ne (by simp)).trans tidy.root, fun path below => ?_⟩
  by_contra present
  change (world.tree.remove [manifestName]).find path ≠ none at present
  rw [PathTree.find_remove] at present
  split at present
  · contradiction
  · rename_i different
    rcases tidy.within path present with root | manifest | ⟨layer, member, inside⟩
    · exact below root
    · exact different manifest
    · rcases tidy.settled layer member (by simp) with ⟨isReady, -⟩ | ⟨-, part⟩
      · rw [done layer member] at isReady
        exact absurd isReady (by decide)
      · rcases part.only path inside present with own | ⟨numa, own, -⟩ | ⟨impossible, -⟩
        · cases own
        · cases own
        · cases impossible

/-- The store is in order and all of it consumed. -/
def Emptied (format : Format C) (world : World C) : Prop :=
  Tidy format world ∧ ∀ layer ∈ world.layers, layer.state = consumed

theorem Emptied.unlinkable (emptied : Emptied format world) : unlinkable [manifestName] world = true := by
  obtain ⟨content, found⟩ := PathTree.isRegular_iff.mp emptied.1.manifest
  simp [WeightStore.unlinkable, PathTree.isDirectory, found]

theorem Bare.removable (bare : Bare world) : removable [] world = true := by
  have empty : world.tree.isEmpty [] = true := by
    rw [PathTree.isEmpty_iff]
    exact fun path _ below => bare.2 path below
  simp [WeightStore.removable, PathTree.isDirectory, bare.1, empty]

/-- The steps after the check of the layers. -/
def finishBody (signals : Nat → Signal) (pid : Nat) : Program C Unit := do
  point signals pid
  unlink [manifestName]
  point signals pid
  rmdir []
  modify fun world => { world with closed := true }

theorem need_stops {holds : World C → Bool} (fails : ¬holds world = true) :
    need holds world = .error .raised world := by
  change (if holds world then (pure () : Program C Unit) else raise) world = _
  rw [if_neg fails]
  rfl

theorem bind_ok_run {program : Program C α} {next : α → Program C β} {left : World C}
    (ran : program world = .ok value left) : (program >>= next) world = next value left := by
  change EStateM.bind program next world = _
  rw [EStateM.bind, ran]

theorem bind_error_run {program : Program C α} {next : α → Program C β} {left : World C}
    (ran : program world = .error stop left) : (program >>= next) world = .error stop left := by
  change EStateM.bind program next world = _
  rw [EStateM.bind, ran]

def AllConsumed (world : World C) : Prop :=
  ∀ layer ∈ world.layers, layer.state = consumed

theorem finish_run (done : AllConsumed world) : finish signals pid world = finishBody signals pid world :=
  bind_ok_run (need_run (by simpa [AllConsumed] using done))

theorem finish_refused (unfinished : ¬AllConsumed world) : finish signals pid world = .error .raised world :=
  bind_error_run (need_stops (by simpa [AllConsumed] using unfinished))

/-- Where a signal may arrive but does not. -/
theorem point_quiet (quiet : signals world.clock = .none) :
    point signals pid world = .ok () { world with clock := world.clock + 1 } := by
  have ticked : tick signals world = .ok (signals world.clock) { world with clock := world.clock + 1 } := rfl
  refine (bind_ok_run ticked).trans ?_
  rw [quiet]
  rfl

theorem unlink_run {path : List Name} (there : unlinkable path world = true) :
    unlink path world = .ok () (dropFile path world) :=
  bind_ok_run (need_run there)

theorem rmdir_run {path : List Name} (there : removable path world = true) :
    rmdir path world = .ok () (dropDirectory path world) :=
  bind_ok_run (need_run there)

/-- A finish that nothing interrupts. -/
theorem finish_quiet (tidy : Tidy format world) (done : AllConsumed world) (first : signals world.clock = .none)
    (second : signals (world.clock + 1) = .none) : ∃ after, finish signals pid world = .ok () after := by
  have emptied : Emptied format { world with clock := world.clock + 1 } := ⟨{ tidy with }, done⟩
  have listed := emptied.unlinkable
  have bare : Bare (dropFile [manifestName] world) := tidy.bare done
  rw [finish_run done]
  refine ⟨_, (bind_ok_run (point_quiet first)).trans ((bind_ok_run (unlink_run listed)).trans
    ((bind_ok_run (point_quiet ?_)).trans ((bind_ok_run (rmdir_run ?_)).trans rfl)))⟩
  · exact second
  · exact Bare.removable bare

/-- A finish of an orderly store closes it, or leaves it as it was. -/
theorem finish_rests : Meets (Rests format) (finish signals pid) (fun _ => Rests format) (fun _ => Rests format) := by
  intro world rests
  by_cases done : AllConsumed world
  · rw [finish_run done]
    have steady : ∀ world : World C, Emptied format world →
        Emptied format { world with clock := world.clock + 1 } := fun _ emptied => ⟨{ emptied.1 with }, emptied.2⟩
    have unlinks : WhileOpen (Emptied format) (unlink [manifestName]) Bare :=
      Meets.bind (need_open fun _ emptied => emptied.unlinkable) fun _ =>
        modify_open (fun _ => rfl) fun _ emptied => emptied.1.bare emptied.2
    have removes : WhileOpen Bare (rmdir ([] : List Name) : Program C Unit) (fun _ => True) :=
      Meets.bind (need_open fun _ bare => bare.removable) fun _ => modify_open (fun _ => rfl) fun _ _ => trivial
    have meets : WhileOpen (Emptied format) (finishBody signals pid) (fun _ => False) :=
      Meets.bind (point_open steady) fun _ => Meets.bind unlinks fun _ =>
        Meets.bind (point_open fun _ bare => bare) fun _ => Meets.bind removes fun _ world _ => .inl rfl
    exact (meets.weaken (fun _ _ closed => closed.imp_right False.elim) fun _ _ closed => .inl closed) world
      (rests.imp_right fun tidy => ⟨tidy, done⟩)
  · rw [finish_refused done]
    exact rests

theorem cleanup_rests : Meets (Rests format) (cleanup signals pid) (fun _ => Rests format) (fun _ => Rests format) :=
  cleanup_closes.weaken (fun _ _ closed => .inl closed) fun _ _ closed => .inl closed

/-! ## What each call says -/

theorem meets_true {pre : World C → Prop} {program : Program C α} :
    Meets pre program (fun _ _ => True) (fun _ _ => True) := by
  intro world _
  split
  · trivial
  · trivial

/-- A finish that succeeds has removed the root and closed the store. -/
theorem finishBody_ends : Meets (fun _ => True) (finishBody signals pid : Program C Unit)
    (fun _ world => world.tree.find [] = none ∧ IsClosed world) (fun _ _ => True) := by
  refine Meets.bind meets_true fun _ => Meets.bind meets_true fun _ => Meets.bind meets_true fun _ =>
    Meets.bind (Meets.bind meets_true fun _ world _ => ?_) fun _ world root => ⟨root, rfl⟩
  exact PathTree.find_remove_self

theorem cleanupBody_ends (layers : List LayerRecord) :
    Meets (fun _ => True) (cleanupBody signals pid layers : Program C Unit) (fun _ world => world.cleaned = true)
      (fun _ _ => True) :=
  Meets.bind meets_true fun _ => Meets.bind meets_true fun _ => Meets.bind meets_true fun _ =>
    Meets.bind meets_true fun _ _ _ => rfl

theorem cleanup_idle (closed : IsClosed world) : cleanup signals pid world = .ok () world := by
  rw [cleanup_run]
  exact if_pos closed

/-- In a closed store no call deletes a listed file. -/
def DeletesLittle (start world : World C) : Prop :=
  IsClosed world ∧ ∀ path ∈ world.deleted, path ∈ start.deleted ∨ path = [manifestName]

theorem point_little : Meets (DeletesLittle start) (point signals pid) (fun _ => DeletesLittle start)
    (fun _ => DeletesLittle start) := by
  have cleans : Meets (DeletesLittle start) (cleanup signals pid) (fun _ => DeletesLittle start)
      (fun _ => DeletesLittle start) := by
    intro world little
    rw [cleanup_idle little.1]
    exact little
  refine Meets.bind (tick_meets fun world (little : DeletesLittle start world) => little) fun signal => ?_
  cases signal with
  | none => exact fun _ little => little
  | returns => exact cleans
  | exits => exact Meets.bind cleans fun _ _ little => little

/-- What a call meets either way holds of what it leaves. -/
theorem perform_leaves {action : Action} {pre leaves : World C → Prop}
    (meets : Meets pre (action.program format signals pid) (fun _ => leaves) (fun _ => leaves)) (holds : pre world) :
    leaves (perform format signals pid world action).2 := by
  have done := meets world holds
  rw [perform]
  split
  · rename_i ran
    rw [ran] at done
    exact done
  · rename_i ran
    rw [ran] at done
    exact done

theorem consumeLayer_refused (closed : IsClosed world) (layerIdx : Int) :
    consumeLayer format signals pid layerIdx world = .error .raised world :=
  bind_error_run (need_stops (by simpa [IsClosed] using closed))

theorem closed_little (closed : IsClosed world) (action : Action) :
    DeletesLittle world (perform format signals pid world action).2 := by
  have here : DeletesLittle world world := ⟨closed, fun _ member => .inl member⟩
  have kept (holds : World C → Bool) :
      Meets (DeletesLittle world) (need holds) (fun _ => DeletesLittle world) (fun _ => DeletesLittle world) :=
    (need_meets holds).weaken (fun _ _ both => both.1) fun _ _ little => little
  suffices meets : Meets (DeletesLittle world) (action.program format signals pid) (fun _ => DeletesLittle world)
      (fun _ => DeletesLittle world) from
    perform_leaves meets here
  cases action with
  | consumeLayer layerIdx =>
      intro world little
      rw [Action.program, consumeLayer_refused little.1]
      exact little
  | cleanup =>
      intro world little
      rw [Action.program, cleanup_idle little.1]
      exact little
  | finish =>
      have unlinks : Meets (DeletesLittle world) (unlink [manifestName]) (fun _ => DeletesLittle world)
          (fun _ => DeletesLittle world) := by
        refine Meets.bind (kept _) fun _ world little => ⟨little.1, fun path member => ?_⟩
        rcases List.mem_cons.mp member with same | before
        · exact .inr same
        · exact little.2 path before
      have removes : Meets (DeletesLittle world) (rmdir []) (fun _ => DeletesLittle world)
          (fun _ => DeletesLittle world) := Meets.bind (kept _) fun _ _ little => little
      exact Meets.bind (kept _) fun _ => Meets.bind point_little fun _ => Meets.bind unlinks fun _ =>
        Meets.bind point_little fun _ => Meets.bind removes fun _ _ little => ⟨rfl, little.2⟩

/-! ## The life cycle -/

/-- One call of a run, seen with the worlds before and after it. -/
structure LifeCycle (format : Format C) (signals : Nat → Signal) (pid : Nat) (before : World C) (action : Action)
    (done : Bool) (left : World C) : Prop where
  once : (left.deleted.filter fun path => decide (path ∈ listed left.layers)).Nodup
  only : ∀ path ∈ left.deleted, path ∈ listed left.layers ∨ path = [manifestName] ∨ path = temporaryPath pid
  wasReady : ∀ path ∈ left.deleted, path ∉ before.deleted → ∀ layer ∈ before.layers, path ∈ paths layer →
    before.closed = false ∧ layer.state = ready
  finished : action = .finish → done = true → AllConsumed before ∧ left.tree.find [] = none
  finishes : action = .finish → before.closed = false → signals before.clock = .none →
    signals (before.clock + 1) = .none → AllConsumed before → done = true
  cleaned : left.cleaned = true → ∀ path ∈ listed left.layers, left.tree.find path = none
  cleans : action = .cleanup → before.closed = false → done = true → left.cleaned = true
  closes : action = .cleanup ∨ (action = .finish ∧ done = true) → left.closed = true
  stays : before.closed = true → left.closed = true
  refuses : before.closed = true → ∀ layerIdx, action = .consumeLayer layerIdx → done = false

theorem Shaped.unique (shaped : Shaped layers) (member : layer ∈ layers) (inside : other ∈ layers)
    (own : path ∈ paths layer) (too : path ∈ paths other) : other = layer := by
  obtain ⟨numa, -, name, rfl, -⟩ := shaped.files layer member path own
  obtain ⟨number, -, text, same, -⟩ := shaped.files other inside _ too
  exact shaped.only member inside (layerName_injective (List.cons.inj same).1).symm

theorem rests_perform (rests : Rests format world) (action : Action) :
    Rests format (perform format signals pid world action).2 := by
  suffices meets : Meets (Rests format) (action.program format signals pid) (fun _ => Rests format)
      (fun _ => Rests format) from perform_leaves meets rests
  cases action with
  | consumeLayer layerIdx => exact consumeLayer_rests layerIdx
  | finish => exact finish_rests
  | cleanup => exact cleanup_rests

theorem finish_succeeds (done : (perform format signals pid world .finish).1 = true) :
    AllConsumed world ∧ (perform format signals pid world .finish).2.tree.find [] = none ∧
      IsClosed (perform format signals pid world .finish).2 := by
  by_cases all : AllConsumed world
  · have ends : Meets (fun _ => True) (finishBody signals pid : Program C Unit)
        (fun _ left => true = true → left.tree.find [] = none ∧ IsClosed left)
        (fun _ left => false = true → left.tree.find [] = none ∧ IsClosed left) :=
      finishBody_ends.weaken (fun _ _ both _ => both) fun _ _ _ impossible => by cases impossible
    refine ⟨all, ?_⟩
    have ran := ends world trivial
    rw [← finish_run all] at ran
    revert done
    rw [perform]
    change _ = true → _
    simp only [Action.program]
    split
    · rename_i same
      rw [same] at ran
      exact fun _ => ran rfl
    · exact fun impossible => by cases impossible
  · rw [perform, Action.program, finish_refused all] at done
    cases done

theorem cleanup_succeeds (open_ : world.closed = false)
    (done : (perform format signals pid world .cleanup).1 = true) :
    (perform format signals pid world .cleanup).2.cleaned = true := by
  have ends : Meets (fun _ => True) (cleanupBody signals pid world.layers : Program C Unit)
      (fun _ left => left.cleaned = true) (fun _ _ => True) := cleanupBody_ends world.layers
  have ran := ends { world with closed := true } trivial
  have same : cleanup signals pid world = cleanupBody signals pid world.layers { world with closed := true } := by
    rw [cleanup_run, if_neg (by simp [open_])]
  rw [← same] at ran
  revert done
  rw [perform]
  simp only [Action.program]
  split
  · rename_i here
    rw [here] at ran
    exact fun _ => ran
  · exact fun impossible => by cases impossible

/-- Every call of a sound and orderly store. -/
theorem lifeCycle (sound : Sound pid world) (rests : Rests format world) (action : Action) :
    LifeCycle format signals pid world action (perform format signals pid world action).1
      (perform format signals pid world action).2 := by
  obtain ⟨layers, gone, kept⟩ : Tracked pid world (perform format signals pid world action).2 := sound.tracked action
  have current := kept.current
  subst current
  refine
    { once := kept.once
      only := kept.only
      wasReady := ?_
      finished := ?_
      finishes := ?_
      cleaned := kept.cleaned
      cleans := ?_
      closes := ?_
      stays := kept.closes
      refuses := ?_ }
  · intro path deleted fresh layer member own
    have listed_ : path ∈ listed world.layers := mem_listed.mpr ⟨layer, member, own⟩
    have other := sound.shaped.ne_manifest listed_
    have open_ : world.closed = false := by
      by_contra closed
      have closed : IsClosed world := by simpa [IsClosed] using closed
      rcases (closed_little closed action).2 path deleted with before | manifest
      · exact fresh before
      · exact other manifest
    refine ⟨open_, ?_⟩
    rcases kept.deletes path deleted with before | manifest | temporary | ⟨found, inside, unfinished, too⟩
    · exact absurd before fresh
    · exact absurd manifest other
    · exact absurd temporary (sound.shaped.ne_temporary listed_ pid)
    · have tidy : Tidy format world := rests.resolve_left (by simp [IsClosed, open_])
      rw [sound.shaped.unique member inside own too] at unfinished
      rcases tidy.settled layer member (by simp) with ⟨isReady, -⟩ | ⟨done, -⟩
      · exact isReady
      · exact absurd done unfinished
  · rintro rfl done
    obtain ⟨all, root, -⟩ := finish_succeeds done
    exact ⟨all, root⟩
  · rintro rfl open_ first second all
    have tidy : Tidy format world := rests.resolve_left (by simp [IsClosed, open_])
    obtain ⟨left, ran⟩ : ∃ left, finish signals pid world = .ok () left := finish_quiet tidy all first second
    rw [perform, Action.program, ran]
  · rintro rfl open_ done
    exact cleanup_succeeds open_ done
  · rintro (rfl | ⟨rfl, done⟩)
    · have closes : Meets (fun _ => True) (cleanup signals pid : Program C Unit) (fun _ => IsClosed)
        (fun _ => IsClosed) := cleanup_closes
      have program : Action.cleanup.program format signals pid = cleanup signals pid := rfl
      rw [← program] at closes
      exact perform_leaves closes trivial
    · exact (finish_succeeds done).2.2
  · rintro closed layerIdx rfl
    rw [perform, Action.program, consumeLayer_refused closed]

end KtKernel.Sft.WeightStore
