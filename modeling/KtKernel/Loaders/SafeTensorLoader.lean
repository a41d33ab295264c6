import Mathlib.Data.List.Induction
import Mathlib.Data.List.Pairwise
import Mathlib.Data.List.Sort
import Mathlib.Logic.Function.Basic
import KtKernel.Data.Checks

namespace KtKernel.Loaders

open KtKernel.Data

/-! The map from keys to tensors that `SafeTensorLoader` makes of the files below a folder. -/

variable {T : Type}

/-- What `safe_open` and `keys` make of a file. -/
inductive Content (T : Type) where
  | closed
  | unlisted
  | listed (tensors : List (String × T))

namespace Content

def opens : Content T → Bool
  | .closed => false
  | .unlisted => true
  | .listed _ => true

def keys : Content T → List String
  | .closed => []
  | .unlisted => []
  | .listed tensors => tensors.map Prod.fst

/-- `get_tensor` -/
def tensor (key : String) : Content T → Option T
  | .closed => none
  | .unlisted => none
  | .listed tensors => tensors.lookup key

end Content

inductive Folder (T : Type) where
  | mk (files : List (String × Content T)) (folders : List (String × Folder T))

namespace Folder

mutual

/-- The files in the order in which `os.walk` goes through the folders. -/
def walk : Folder T → List (String × Content T)
  | .mk files folders => files.insertionSort (fun first second => first.1 ≤ second.1) ++ walkAll folders

def walkAll : List (String × Folder T) → List (String × Content T)
  | [] => []
  | (_, folder) :: rest => folder.walk ++ walkAll rest

end

end Folder

/-- What a path leads to: a file stands for the folder it lies in. -/
inductive Place (T : Type) where
  | missing
  | file (parent : Folder T)
  | folder (folder : Folder T)

inductive LoaderError where
  | fileNotFound
  | keyError (key : String)
  | valueError
  | safetensorError
deriving DecidableEq, Repr

structure SafeTensorLoader (T : Type) where
  tensorFileMap : String → Option String
  fileHandleMap : String → Option (Content T)

namespace SafeTensorLoader

def empty : SafeTensorLoader T where
  tensorFileMap _ := none
  fileHandleMap _ := none

def isSafetensor (file : String) : Bool :=
  ".safetensors".toList.isSuffixOf file.toList

/-- A name that has a handle is not opened again. -/
def openFile (loader : SafeTensorLoader T) (file : String × Content T) : SafeTensorLoader T :=
  if (loader.fileHandleMap file.1).isNone && file.2.opens then
    { loader with fileHandleMap := Function.update loader.fileHandleMap file.1 (some file.2) }
  else loader

/-- A file of the walk: the keys are those of the handle of its name. -/
def loadFile (loader : SafeTensorLoader T) (file : String × Content T) : SafeTensorLoader T :=
  if isSafetensor file.1 then
    let loader := loader.openFile file
    match loader.fileHandleMap file.1 with
    | none => loader
    | some handle =>
        { loader with
          tensorFileMap := handle.keys.foldl (fun map key => Function.update map key (some file.1)) loader.tensorFileMap }
  else loader

/-- `__load_tensor_file_map` -/
def loadTensorFileMap (place : Place T) : Except LoaderError (SafeTensorLoader T) :=
  match place with
  | .missing => .error .fileNotFound
  | .file folder | .folder folder =>
      if folder.walk.any fun file => isSafetensor file.1 then .ok (folder.walk.foldl loadFile empty)
      else .error .fileNotFound

def hasTensor (loader : SafeTensorLoader T) (name : String) : Bool :=
  (loader.tensorFileMap name).isSome

def loadTensor (loader : SafeTensorLoader T) (key : String) : Except LoaderError T := do
  let file ← expectSome (loader.tensorFileMap key) (.keyError key)
  let handle ← expectSome (loader.fileHandleMap file) .fileNotFound
  expectSome (handle.tensor key) .safetensorError

end SafeTensorLoader

inductive Projection where
  | up
  | gate
  | down
deriving DecidableEq, Repr

inductive Part where
  | weight
  | scale
deriving DecidableEq, Repr

inductive Direction where
  | forward
  | backward
deriving DecidableEq, Repr

def Projection.name : Projection → String
  | .up => "up"
  | .gate => "gate"
  | .down => "down"

def Direction.suffix : Direction → String
  | .forward => "_exps."
  | .backward => "_bwd_exps."

def Part.name : Part → String
  | .weight => "weight"
  | .scale => "scale"

def expertKey (baseKey : String) (direction : Direction) (projection : Projection) (part : Part) (expertId numaId : Nat) :
    String :=
  baseKey ++ ".ffn_" ++ projection.name ++ direction.suffix ++ toString expertId ++ ".numa." ++ toString numaId ++ "." ++
    part.name

/-- The lists of a direction, by part and expert. -/
abbrev Tables (T : Type) := Projection → Part → List (List T)

structure Experts (T : Type) where
  forward : Tables T
  backward : Option (Tables T)

namespace SafeTensorLoader

/-- Counts up from a number for as long as the test holds; `none` is a count that has not
ended. -/
def probe (has : Nat → Bool) : (fuel : Nat) → Nat → Option Nat
  | 0, _ => none
  | fuel + 1, count => if has count then probe has fuel (count + 1) else some count

/-- The six tensors of an expert, in the order in which they are read. -/
def loadExpert (loader : SafeTensorLoader T) (baseKey : String) (direction : Direction) (expertId numaId : Nat) :
    Except LoaderError (Projection → Part → T) := do
  let load (projection : Projection) (part : Part) :=
    loader.loadTensor (expertKey baseKey direction projection part expertId numaId)
  let (up, gate) ← match direction with
    | .forward => do
        let up ← load .up .weight
        let gate ← load .gate .weight
        pure (up, gate)
    | .backward => do
        let gate ← load .gate .weight
        let up ← load .up .weight
        pure (up, gate)
  let down ← load .down .weight
  let (upScale, gateScale) ← match direction with
    | .forward => do
        let upScale ← load .up .scale
        let gateScale ← load .gate .scale
        pure (upScale, gateScale)
    | .backward => do
        let gateScale ← load .gate .scale
        let upScale ← load .up .scale
        pure (upScale, gateScale)
  let downScale ← load .down .scale
  return fun
    | .up, .weight => up
    | .gate, .weight => gate
    | .down, .weight => down
    | .up, .scale => upScale
    | .gate, .scale => gateScale
    | .down, .scale => downScale

def tables (grid : List (List (Projection → Part → T))) : Tables T :=
  fun projection part => grid.map fun experts => experts.map fun tensors => tensors projection part

/-- The experts of a layer.  `none` is a probe that has not ended. -/
def loadExperts (loader : SafeTensorLoader T) (fuel : Nat) (baseKey : String) : Option (Except LoaderError (Experts T)) := do
  let has (direction : Direction) (projection : Projection) (expertId numaId : Nat) :=
    loader.hasTensor (expertKey baseKey direction projection .weight expertId numaId)
  let expertCount ← probe (fun expertId => has .forward .up expertId 0) fuel 0
  if expertCount = 0 then return .error .valueError
  let numaCount ← probe (fun numaId => has .forward .up 0 numaId) fuel 0
  let hasBwd := has .backward .gate 0 0
  let grid := (List.range numaCount).mapM fun numaId => (List.range expertCount).mapM fun expertId => do
    let forward ← loader.loadExpert baseKey .forward expertId numaId
    let backward ← if hasBwd then (loader.loadExpert baseKey .backward expertId numaId).map some else pure none
    pure (forward, backward)
  return grid.map fun grid =>
    ⟨tables (grid.map fun experts => experts.map Prod.fst),
      if hasBwd then some (tables (grid.map fun experts => experts.filterMap Prod.snd)) else none⟩

end SafeTensorLoader

/-! ## A faithful lookup -/

def Place.files : Place T → List (String × Content T)
  | .missing => []
  | .file parent => parent.walk.filter fun file => SafeTensorLoader.isSafetensor file.1
  | .folder root => root.walk.filter fun file => SafeTensorLoader.isSafetensor file.1

/-- A readable file of the tree holds a tensor under a key. -/
def Stored (place : Place T) (key : String) (tensor : T) : Prop :=
  ∃ file ∈ place.files, file.2.tensor key = some tensor

/-- No two readable files share a key. -/
def DisjointKeys (place : Place T) : Prop :=
  place.files.Pairwise fun first second => ∀ key ∈ first.2.keys, key ∉ second.2.keys

instance (place : Place T) : Decidable (DisjointKeys place) :=
  inferInstanceAs (Decidable (List.Pairwise _ place.files))

def HoldsExperts (place : Place T) (baseKey : String) (direction : Direction) (expertCount numaCount : Nat) : Prop :=
  ∀ projection part expertId numaId, (∃ tensor, Stored place (expertKey baseKey direction projection part expertId numaId) tensor) ↔
    expertId < expertCount ∧ numaId < numaCount

def HoldsNone (place : Place T) (baseKey : String) (direction : Direction) : Prop :=
  ∀ projection part expertId numaId tensor, ¬Stored place (expertKey baseKey direction projection part expertId numaId) tensor

/-- Entry by entry the tables are the stored tensors. -/
def Shows (place : Place T) (baseKey : String) (direction : Direction) (expertCount numaCount : Nat) (tables : Tables T) :
    Prop :=
  ∀ projection part, (tables projection part).length = numaCount ∧ ∀ numaId < numaCount,
    ∃ row, (tables projection part)[numaId]? = some row ∧ row.length = expertCount ∧ ∀ expertId < expertCount,
      ∃ tensor, row[expertId]? = some tensor ∧
        Stored place (expertKey baseKey direction projection part expertId numaId) tensor

/-- Every key is known and leads to its own tensor, and a layer of experts is found whole. -/
structure Faithful (place : Place T) (loader : SafeTensorLoader T) : Prop where
  known : ∀ file ∈ place.files, ∀ key ∈ file.2.keys, loader.hasTensor key = true
  loads : ∀ key tensor, Stored place key tensor → loader.loadTensor key = .ok tensor
  experts : ∀ baseKey expertCount numaCount, 0 < expertCount → 0 < numaCount →
    HoldsExperts place baseKey .forward expertCount numaCount →
      (HoldsNone place baseKey .backward → ∃ enough tables, ∀ fuel ≥ enough,
        loader.loadExperts fuel baseKey = some (.ok ⟨tables, none⟩) ∧
          Shows place baseKey .forward expertCount numaCount tables) ∧
      (HoldsExperts place baseKey .backward expertCount numaCount → ∃ enough tables backward, ∀ fuel ≥ enough,
        loader.loadExperts fuel baseKey = some (.ok ⟨tables, some backward⟩) ∧
          Shows place baseKey .forward expertCount numaCount tables ∧
          Shows place baseKey .backward expertCount numaCount backward)

/-- A file with keys comes before every other file of its name that can be opened. -/
def NamesApart (place : Place T) : Prop :=
  ∀ before file after, place.files = before ++ file :: after → file.2.keys ≠ [] →
    ∀ other ∈ before, other.1 = file.1 → other.2.opens = false

namespace SafeTensorLoader

/-! ## The handle of a name -/

/-- The file that a name stands for: the first one that can be opened. -/
def winner (files : List (String × Content T)) (name : String) : Option (Content T) :=
  (files.find? fun file => file.1 = name ∧ file.2.opens = true).map Prod.snd

structure Reads (files : List (String × Content T)) (loader : SafeTensorLoader T) : Prop where
  handles : ∀ name, loader.fileHandleMap name = winner files name
  sound : ∀ key name, loader.tensorFileMap key = some name → ∃ handle, winner files name = some handle ∧ key ∈ handle.keys
  complete : ∀ key name handle, winner files name = some handle → key ∈ handle.keys → (loader.tensorFileMap key).isSome

theorem winner_append (files : List (String × Content T)) (file : String × Content T) (name : String) :
    winner (files ++ [file]) name =
      (winner files name).or (if file.1 = name ∧ file.2.opens = true then some file.2 else none) := by
  rw [winner, winner, List.find?_append]
  cases files.find? fun file => file.1 = name ∧ file.2.opens = true with
  | some found => rfl
  | none =>
      by_cases wins : file.1 = name ∧ file.2.opens = true
      · simp [wins]
      · simp [wins]

/-- The keys of a handle are filed under its name, the others stay. -/
theorem foldl_update (keys : List String) (map : String → Option String) (file key : String) :
    (keys.foldl (fun map key => Function.update map key (some file)) map) key = if key ∈ keys then some file else map key := by
  induction keys using List.reverseRecOn with
  | nil => simp
  | append_singleton keys last induction =>
      rw [List.foldl_append, List.foldl_cons, List.foldl_nil]
      by_cases same : key = last
      · simp [same]
      · simp [same, induction]

theorem openFile_handles (loader : SafeTensorLoader T) (file : String × Content T) (name : String) :
    (loader.openFile file).fileHandleMap name =
      (loader.fileHandleMap name).or (if file.1 = name ∧ file.2.opens = true then some file.2 else none) := by
  rw [openFile]
  by_cases same : name = file.1
  · subst same
    cases held : loader.fileHandleMap file.1 with
    | some handle => simp [held]
    | none => cases opened : file.2.opens <;> simp [held]
  · have others : ¬(file.1 = name ∧ file.2.opens = true) := fun both => same both.1.symm
    rw [if_neg others, Option.or_none]
    split
    · exact Function.update_of_ne same _ _
    · rfl

theorem openFile_tensorFileMap (loader : SafeTensorLoader T) (file : String × Content T) :
    (loader.openFile file).tensorFileMap = loader.tensorFileMap := by
  rw [openFile]
  split <;> rfl

theorem loadFile_handles (loader : SafeTensorLoader T) {file : String × Content T} (suffix : isSafetensor file.1 = true) :
    (loader.loadFile file).fileHandleMap = (loader.openFile file).fileHandleMap := by
  rw [loadFile, if_pos suffix]
  dsimp only
  split <;> rfl

theorem loadFile_tensorFileMap (loader : SafeTensorLoader T) {file : String × Content T}
    (suffix : isSafetensor file.1 = true) (key : String) :
    (loader.loadFile file).tensorFileMap key =
      match (loader.openFile file).fileHandleMap file.1 with
      | none => loader.tensorFileMap key
      | some handle => if key ∈ handle.keys then some file.1 else loader.tensorFileMap key := by
  rw [loadFile, if_pos suffix, ← openFile_tensorFileMap loader file]
  dsimp only
  cases (loader.openFile file).fileHandleMap file.1 with
  | none => rfl
  | some handle => exact foldl_update _ _ _ _

theorem Reads.step {files : List (String × Content T)} {loader : SafeTensorLoader T} (reads : Reads files loader)
    {file : String × Content T} (suffix : isSafetensor file.1 = true) : Reads (files ++ [file]) (loader.loadFile file) := by
  have opened : ∀ name, (loader.openFile file).fileHandleMap name = winner (files ++ [file]) name := by
    intro name
    rw [openFile_handles, winner_append, reads.handles]
  have handles : ∀ name, (loader.loadFile file).fileHandleMap name = winner (files ++ [file]) name := by
    intro name
    rw [loadFile_handles loader suffix, opened]
  have filed := loadFile_tensorFileMap loader suffix
  simp only [opened] at filed
  refine ⟨handles, ?_, ?_⟩
  · intro key name known
    rw [filed] at known
    have older : loader.tensorFileMap key = some name → ∃ handle, winner (files ++ [file]) name = some handle ∧ key ∈ handle.keys := by
      intro known
      obtain ⟨handle, won, listed⟩ := reads.sound key name known
      exact ⟨handle, by rw [winner_append, won, Option.some_or], listed⟩
    split at known
    · exact older known
    · next handle won =>
        split at known
        · next listed => exact ⟨handle, by rw [← Option.some.inj known]; exact won, listed⟩
        · exact older known
  · intro key name handle won listed
    rw [filed]
    have older : (loader.tensorFileMap key).isSome → (match winner (files ++ [file]) file.1 with
        | none => loader.tensorFileMap key
        | some handle => if key ∈ handle.keys then some file.1 else loader.tensorFileMap key).isSome := by
      intro known
      split
      · exact known
      · split
        · rfl
        · exact known
    by_cases same : name = file.1
    · rw [← same, won]
      simp [listed]
    · have others : ¬(file.1 = name ∧ file.2.opens = true) := fun both => same both.1.symm
      rw [winner_append, if_neg others, Option.or_none] at won
      exact older (reads.complete key name handle won listed)

theorem foldl_reads (files : List (String × Content T)) :
    Reads (files.filter fun file => isSafetensor file.1) (files.foldl loadFile empty) := by
  induction files using List.reverseRecOn with
  | nil =>
      refine ⟨fun _ => rfl, ?_, ?_⟩
      · intro key name known
        cases known
      · intro key name handle won
        cases won
  | append_singleton earlier last induction =>
      rw [List.foldl_append, List.foldl_cons, List.foldl_nil, List.filter_append]
      cases suffix : isSafetensor last.1 with
      | true =>
          rw [List.filter_singleton, suffix]
          exact induction.step suffix
      | false =>
          rw [List.filter_singleton, suffix, loadFile, suffix]
          simpa using induction

theorem made_reads {place : Place T} {loader : SafeTensorLoader T} (made : loadTensorFileMap place = .ok loader) :
    Reads place.files loader := by
  cases place with
  | missing => cases made
  | file parent =>
      rw [loadTensorFileMap] at made
      split at made
      · cases made
        exact foldl_reads parent.walk
      · cases made
  | folder root =>
      rw [loadTensorFileMap] at made
      split at made
      · cases made
        exact foldl_reads root.walk
      · cases made

/-! ## The files that are lost -/

section

variable {files : List (String × Content T)} {place : Place T} {loader : SafeTensorLoader T} {key name : String}

theorem opens_of_key {content : Content T} (listed : key ∈ content.keys) : content.opens = true := by
  cases content with
  | closed => cases listed
  | unlisted => cases listed
  | listed tensors => rfl

theorem mem_keys_iff {content : Content T} : key ∈ content.keys ↔ ∃ tensor, content.tensor key = some tensor := by
  cases content with
  | closed => simp [Content.keys, Content.tensor]
  | unlisted => simp [Content.keys, Content.tensor]
  | listed tensors =>
      rw [Content.keys, Content.tensor, ← Option.isSome_iff_exists]
      induction tensors with
      | nil => simp
      | cons first rest induction =>
          rw [List.map_cons, List.mem_cons, induction, List.lookup_cons]
          by_cases same : key = first.1
          · simp [same]
          · simp only [same, false_or, beq_eq_false_iff_ne.mpr same]

theorem winner_mem {handle : Content T} (won : winner files name = some handle) :
    ∃ file ∈ files, file.1 = name ∧ file.2 = handle := by
  obtain ⟨file, found, rfl⟩ := Option.map_eq_some_iff.mp won
  have wins := List.find?_some found
  simp only [decide_eq_true_eq] at wins
  exact ⟨file, List.mem_of_find?_eq_some found, wins.1, rfl⟩

/-- A file that can be opened stands for its name when none before it does. -/
theorem winner_first {before after : List (String × Content T)} {file : String × Content T} (opened : file.2.opens = true)
    (others : ∀ other ∈ before, other.1 = file.1 → other.2.opens = false) :
    winner (before ++ file :: after) file.1 = some file.2 := by
  have none_ : before.find? (fun other => other.1 = file.1 ∧ other.2.opens = true) = none := by
    apply List.find?_eq_none.mpr
    intro other member wins
    simp only [decide_eq_true_eq] at wins
    rw [others other member wins.1] at wins
    exact Bool.false_ne_true wins.2
  rw [winner, List.find?_append, none_, Option.none_or, List.find?_cons_of_pos (by simp [opened])]
  rfl

/-- A file before it takes the name away. -/
theorem winner_before {before rest : List (String × Content T)} {other : String × Content T} (member : other ∈ before)
    (same : other.1 = name) (opened : other.2.opens = true) : ∃ first ∈ before, winner (before ++ rest) name = some first.2 := by
  cases found : before.find? (fun other => other.1 = name ∧ other.2.opens = true) with
  | none => exact absurd (List.find?_eq_none.mp found other member) (by simp [same, opened])
  | some first =>
      refine ⟨first, List.mem_of_find?_eq_some found, ?_⟩
      rw [winner, List.find?_append, found]
      rfl

theorem DisjointKeys.unique (disjoint : DisjointKeys place) {first second : String × Content T}
    (inFirst : first ∈ place.files) (inSecond : second ∈ place.files) (listed : key ∈ first.2.keys)
    (also : key ∈ second.2.keys) : first = second := by
  by_contra different
  have symmetric : Std.Symm fun first second : String × Content T => ∀ key ∈ first.2.keys, key ∉ second.2.keys :=
    ⟨fun first second apart key listed also => apart key also listed⟩
  exact List.Pairwise.forall disjoint inFirst inSecond different key listed also

theorem Reads.winner_of_known (reads : Reads place.files loader) (disjoint : DisjointKeys place) {file : String × Content T}
    (member : file ∈ place.files) (listed : key ∈ file.2.keys) (known : loader.hasTensor key = true) :
    loader.tensorFileMap key = some file.1 ∧ winner place.files file.1 = some file.2 := by
  obtain ⟨name, filed⟩ := Option.isSome_iff_exists.mp known
  obtain ⟨handle, won, shown⟩ := reads.sound key name filed
  obtain ⟨other, inFiles, rfl, rfl⟩ := winner_mem won
  rw [DisjointKeys.unique disjoint member inFiles listed shown]
  exact ⟨filed, won⟩

theorem Reads.loads (reads : Reads place.files loader) (disjoint : DisjointKeys place)
    (known : ∀ file ∈ place.files, ∀ key ∈ file.2.keys, loader.hasTensor key = true) {tensor : T}
    (stored : Stored place key tensor) : loader.loadTensor key = .ok tensor := by
  obtain ⟨file, member, holds⟩ := stored
  have listed := mem_keys_iff.mpr ⟨tensor, holds⟩
  obtain ⟨filed, won⟩ := reads.winner_of_known disjoint member listed (known file member key listed)
  rw [loadTensor, filed]
  have held : loader.fileHandleMap file.1 = some file.2 := by rw [reads.handles, won]
  simp only [expectSome, bind, Except.bind, held, holds]

theorem Reads.known (reads : Reads place.files loader) (apart : NamesApart place) :
    ∀ file ∈ place.files, ∀ key ∈ file.2.keys, loader.hasTensor key = true := by
  intro file member key listed
  obtain ⟨before, after, split⟩ := List.append_of_mem member
  have won : winner place.files file.1 = some file.2 := by
    rw [split]
    exact winner_first (opens_of_key listed) (apart before file after split (List.ne_nil_of_mem listed))
  exact reads.complete key file.1 file.2 won listed

theorem Reads.namesApart (reads : Reads place.files loader) (disjoint : DisjointKeys place)
    (known : ∀ file ∈ place.files, ∀ key ∈ file.2.keys, loader.hasTensor key = true) : NamesApart place := by
  intro before file after split some_ other earlier same
  by_contra opened
  rw [Bool.not_eq_false] at opened
  obtain ⟨key, listed⟩ := List.exists_mem_of_ne_nil _ some_
  have member : file ∈ place.files := by
    rw [split]
    exact List.mem_append_right _ List.mem_cons_self
  obtain ⟨-, won⟩ := reads.winner_of_known disjoint member listed (known file member key listed)
  obtain ⟨first, inBefore, taken⟩ : ∃ first ∈ before, winner (before ++ file :: after) file.1 = some first.2 :=
    winner_before earlier same opened
  rw [← split, won] at taken
  rw [DisjointKeys, split] at disjoint
  have apart := (List.pairwise_append.mp disjoint).2.2 first inBefore file List.mem_cons_self key
  rw [← Option.some.inj taken] at apart
  exact apart listed listed

end

/-! ## The experts of a layer -/

theorem probe_eq {has : Nat → Bool} {count : Nat} (below : ∀ index < count, has index = true) (stop : has count = false)
    (fuel start : Nat) (before : start ≤ count) (enough : count < start + fuel) : probe has fuel start = some count := by
  induction fuel generalizing start with
  | zero => omega
  | succ fuel induction =>
      rw [probe]
      by_cases same : start = count
      · rw [same, stop]
        rfl
      · rw [if_pos (below start (by omega))]
        exact induction (start + 1) (by omega) (by omega)

theorem loadExpert_ok {loader : SafeTensorLoader T} {baseKey : String} {direction : Direction} {expertId numaId : Nat}
    {value : Projection → Part → T}
    (loads : ∀ projection part,
      loader.loadTensor (expertKey baseKey direction projection part expertId numaId) = .ok (value projection part)) :
    loader.loadExpert baseKey direction expertId numaId = .ok value := by
  have same : (fun
      | .up, .weight => value .up .weight
      | .gate, .weight => value .gate .weight
      | .down, .weight => value .down .weight
      | .up, .scale => value .up .scale
      | .gate, .scale => value .gate .scale
      | .down, .scale => value .down .scale : Projection → Part → T) = value := by
    funext projection part
    cases projection <;> cases part <;> rfl
  cases direction with
  | forward =>
      simp only [loadExpert, loads, bind, Except.bind, pure, Except.pure]
      exact congrArg Except.ok same
  | backward =>
      simp only [loadExpert, loads, bind, Except.bind, pure, Except.pure]
      exact congrArg Except.ok same

section

variable {place : Place T} {loader : SafeTensorLoader T} {baseKey : String} {direction : Direction}
  {expertCount numaCount : Nat}

theorem shows_of_stored {grid : List (List (Projection → Part → T))} {value : Nat → Nat → Projection → Part → T}
    (made : grid = (List.range numaCount).map fun numaId => (List.range expertCount).map fun expertId => value expertId numaId)
    (stored : ∀ expertId < expertCount, ∀ numaId < numaCount, ∀ projection part,
      Stored place (expertKey baseKey direction projection part expertId numaId) (value expertId numaId projection part)) :
    Shows place baseKey direction expertCount numaCount (tables grid) := by
  intro projection part
  rw [made, tables]
  refine ⟨by simp, ?_⟩
  intro numaId inNuma
  refine ⟨(List.range expertCount).map fun expertId => value expertId numaId projection part, ?_, by simp, ?_⟩
  · simp [inNuma]
  · intro expertId inExperts
    exact ⟨value expertId numaId projection part, by simp [inExperts], stored expertId inExperts numaId inNuma projection part⟩

theorem exists_values (some_ : 0 < expertCount ∧ 0 < numaCount) (holds : HoldsExperts place baseKey direction expertCount numaCount) :
    ∃ value : Nat → Nat → Projection → Part → T, ∀ expertId < expertCount, ∀ numaId < numaCount, ∀ projection part,
      Stored place (expertKey baseKey direction projection part expertId numaId) (value expertId numaId projection part) := by
  obtain ⟨first, -⟩ := (holds .up .weight 0 0).mpr some_
  have each : ∀ expertId numaId projection part, ∃ tensor, expertId < expertCount → numaId < numaCount →
      Stored place (expertKey baseKey direction projection part expertId numaId) tensor := by
    intro expertId numaId projection part
    by_cases inside : expertId < expertCount ∧ numaId < numaCount
    · obtain ⟨tensor, stored⟩ := (holds projection part expertId numaId).mpr inside
      exact ⟨tensor, fun _ _ => stored⟩
    · exact ⟨first, fun inExperts inNuma => absurd ⟨inExperts, inNuma⟩ inside⟩
  choose value stored using each
  exact ⟨value, fun expertId inExperts numaId inNuma projection part => stored expertId numaId projection part inExperts inNuma⟩

theorem hasTensor_iff (reads : Reads place.files loader)
    (known : ∀ file ∈ place.files, ∀ key ∈ file.2.keys, loader.hasTensor key = true) {key : String} :
    loader.hasTensor key = true ↔ ∃ tensor, Stored place key tensor := by
  constructor
  · intro has
    obtain ⟨name, filed⟩ := Option.isSome_iff_exists.mp has
    obtain ⟨handle, won, listed⟩ := reads.sound key name filed
    obtain ⟨file, member, -, rfl⟩ := winner_mem won
    obtain ⟨tensor, holds⟩ := mem_keys_iff.mp listed
    exact ⟨tensor, file, member, holds⟩
  · rintro ⟨tensor, file, member, holds⟩
    exact known file member key (mem_keys_iff.mpr ⟨tensor, holds⟩)

theorem probes_end (reads : Reads place.files loader)
    (known : ∀ file ∈ place.files, ∀ key ∈ file.2.keys, loader.hasTensor key = true) (some_ : 0 < expertCount ∧ 0 < numaCount)
    (holds : HoldsExperts place baseKey .forward expertCount numaCount) {fuel : Nat} (enough : expertCount + numaCount < fuel) :
    probe (fun expertId => loader.hasTensor (expertKey baseKey .forward .up .weight expertId 0)) fuel 0 = some expertCount ∧
      probe (fun numaId => loader.hasTensor (expertKey baseKey .forward .up .weight 0 numaId)) fuel 0 = some numaCount := by
  have has : ∀ expertId numaId, loader.hasTensor (expertKey baseKey .forward .up .weight expertId numaId) = true ↔
      expertId < expertCount ∧ numaId < numaCount := by
    intro expertId numaId
    rw [hasTensor_iff reads known, holds]
  constructor
  · apply probe_eq _ _ fuel 0 (Nat.zero_le _) (by omega)
    · intro expertId inside
      exact (has expertId 0).mpr ⟨inside, some_.2⟩
    · rw [← Bool.not_eq_true, has]
      omega
  · apply probe_eq _ _ fuel 0 (Nat.zero_le _) (by omega)
    · intro numaId inside
      exact (has 0 numaId).mpr ⟨some_.1, inside⟩
    · rw [← Bool.not_eq_true, has]
      omega

/-- A layer of experts is found whole when every key is known. -/
theorem loadExperts_ok (reads : Reads place.files loader) (disjoint : DisjointKeys place)
    (known : ∀ file ∈ place.files, ∀ key ∈ file.2.keys, loader.hasTensor key = true) (some_ : 0 < expertCount ∧ 0 < numaCount)
    (holds : HoldsExperts place baseKey .forward expertCount numaCount) :
    (HoldsNone place baseKey .backward → ∃ enough tables, ∀ fuel ≥ enough,
      loader.loadExperts fuel baseKey = some (.ok ⟨tables, none⟩) ∧
        Shows place baseKey .forward expertCount numaCount tables) ∧
    (HoldsExperts place baseKey .backward expertCount numaCount → ∃ enough tables backward, ∀ fuel ≥ enough,
      loader.loadExperts fuel baseKey = some (.ok ⟨tables, some backward⟩) ∧
        Shows place baseKey .forward expertCount numaCount tables ∧
        Shows place baseKey .backward expertCount numaCount backward) := by
  obtain ⟨value, stored⟩ := exists_values some_ holds
  have forward : ∀ expertId < expertCount, ∀ numaId < numaCount,
      loader.loadExpert baseKey .forward expertId numaId = .ok (value expertId numaId) := fun expertId inExperts numaId inNuma =>
    loadExpert_ok fun projection part => reads.loads disjoint known (stored expertId inExperts numaId inNuma projection part)
  constructor
  · intro none_
    refine ⟨expertCount + numaCount + 1, _, fun fuel enough => ⟨?_, shows_of_stored rfl stored⟩⟩
    obtain ⟨experts, parts⟩ := probes_end reads known some_ holds enough
    have noBwd : loader.hasTensor (expertKey baseKey .backward .gate .weight 0 0) = false := by
      rw [← Bool.not_eq_true, hasTensor_iff reads known]
      rintro ⟨tensor, held⟩
      exact none_ _ _ _ _ _ held
    rw [loadExperts]
    simp only [experts, parts, noBwd, bind, Option.bind, Nat.pos_iff_ne_zero.mp some_.1, if_false, Bool.false_eq_true]
    have rows : ∀ numaId ∈ List.range numaCount,
        ((List.range expertCount).mapM fun expertId => (loader.loadExpert baseKey .forward expertId numaId).bind fun forward =>
          (pure none : Except LoaderError (Option (Projection → Part → T))).bind fun backward => pure (forward, backward)) =
            .ok ((List.range expertCount).map fun expertId => (value expertId numaId, none)) := by
      intro numaId inNuma
      apply mapM_values
      intro expertId inExperts
      rw [forward expertId (List.mem_range.mp inExperts) numaId (List.mem_range.mp inNuma)]
      rfl
    rw [mapM_values rows]
    simp only [Except.map, pure, List.map_map, Function.comp_def]
  · intro both
    obtain ⟨valueBwd, storedBwd⟩ := exists_values some_ both
    have backward : ∀ expertId < expertCount, ∀ numaId < numaCount,
        loader.loadExpert baseKey .backward expertId numaId = .ok (valueBwd expertId numaId) :=
      fun expertId inExperts numaId inNuma => loadExpert_ok fun projection part =>
        reads.loads disjoint known (storedBwd expertId inExperts numaId inNuma projection part)
    refine ⟨expertCount + numaCount + 1, _, _, fun fuel enough => ⟨?_, shows_of_stored rfl stored, shows_of_stored rfl storedBwd⟩⟩
    obtain ⟨experts, parts⟩ := probes_end reads known some_ holds enough
    have hasBwd : loader.hasTensor (expertKey baseKey .backward .gate .weight 0 0) = true :=
      (hasTensor_iff reads known).mpr ((both _ _ _ _).mpr some_)
    rw [loadExperts]
    simp only [experts, parts, hasBwd, bind, Option.bind, Nat.pos_iff_ne_zero.mp some_.1, if_false, if_true]
    have rows : ∀ numaId ∈ List.range numaCount,
        ((List.range expertCount).mapM fun expertId => (loader.loadExpert baseKey .forward expertId numaId).bind fun forward =>
          ((loader.loadExpert baseKey .backward expertId numaId).map some).bind fun backward => pure (forward, backward)) =
            .ok ((List.range expertCount).map fun expertId => (value expertId numaId, some (valueBwd expertId numaId))) := by
      intro numaId inNuma
      apply mapM_values
      intro expertId inExperts
      rw [forward expertId (List.mem_range.mp inExperts) numaId (List.mem_range.mp inNuma),
        backward expertId (List.mem_range.mp inExperts) numaId (List.mem_range.mp inNuma)]
      rfl
    have kept : ∀ numaId, ((List.range expertCount).filterMap fun expertId => some (valueBwd expertId numaId)) =
        (List.range expertCount).map fun expertId => valueBwd expertId numaId :=
      fun numaId => congrFun List.filterMap_eq_map _
    rw [mapM_values rows]
    simp only [Except.map, pure, List.map_map, Function.comp_def, List.filterMap_map, kept]

end

/-- The lookup is faithful exactly when no file with keys has the bare name of a file that
comes before it in the walk and can be opened. -/
theorem lookup_faithful_iff {place : Place T} {loader : SafeTensorLoader T} (made : loadTensorFileMap place = .ok loader)
    (disjoint : DisjointKeys place) : Faithful place loader ↔ NamesApart place := by
  have reads := made_reads made
  constructor
  · intro faithful
    exact reads.namesApart disjoint faithful.known
  · intro apart
    have known := reads.known apart
    refine ⟨known, fun key tensor stored => reads.loads disjoint known stored, ?_⟩
    intro baseKey expertCount numaCount someExperts someParts holds
    exact loadExperts_ok reads disjoint known ⟨someExperts, someParts⟩ holds

/-- Two sub-folders with a file each. -/
def twoFolders (first second : String) : Place Nat :=
  .folder (.mk [] [("a", .mk [(first, .listed [("blk.0.ffn_up_exps.0.numa.0.weight", 1)])] []),
    ("b", .mk [(second, .listed [("blk.1.ffn_up_exps.0.numa.0.weight", 2)])] [])])

theorem lookup_faithful_iff_two_folders :
    ∃ loader, loadTensorFileMap (twoFolders "layer0.safetensors" "layer1.safetensors") = .ok loader ∧
      (Faithful (twoFolders "layer0.safetensors" "layer1.safetensors") loader ↔
        NamesApart (twoFolders "layer0.safetensors" "layer1.safetensors")) :=
  ⟨_, rfl, lookup_faithful_iff rfl (by decide)⟩

/-- The file of the second folder is lost when both have one name. -/
theorem same_name_loses_file :
    ∃ loader, loadTensorFileMap (twoFolders "model.safetensors" "model.safetensors") = .ok loader ∧
      DisjointKeys (twoFolders "model.safetensors" "model.safetensors") ∧
      loader.hasTensor "blk.1.ffn_up_exps.0.numa.0.weight" = false ∧
      ¬Faithful (twoFolders "model.safetensors" "model.safetensors") loader := by
  refine ⟨_, rfl, by decide, by decide, ?_⟩
  intro faithful
  have known := faithful.known ("model.safetensors", .listed [("blk.1.ffn_up_exps.0.numa.0.weight", 2)])
    (List.mem_cons_of_mem _ List.mem_cons_self) _ List.mem_cons_self
  exact Bool.false_ne_true known

end SafeTensorLoader

end KtKernel.Loaders
