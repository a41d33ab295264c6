import Mathlib.Data.List.Infix
import KtKernel.Data.Cells
import KtKernel.Data.Machine

namespace KtKernel.Experts

open KtKernel.Data

/-! The loaders of `NativeMoEWrapper` and `AMXMoEWrapper`: one class variable each, filled by
the first wrapper that needs it.

A path stands for the folder it leads to.  What the files, the tensors and the backend make of
a call is part of the event: an exception that is raised at some point, or none.
-/

namespace WeightSources

inductive PyError where
  | valueError
  | keyError
  | attributeError
  | notImplementedError
  | other
deriving DecidableEq, Repr

inductive LoaderClass where
  | safeTensorLoader
  | compressedSafeTensorLoader
  | fp8SafeTensorLoader
  | bf16SafeTensorLoader
  | gptqSafeTensorLoader
  | mxfp4SafeTensorLoader
  | nvfp4SafeTensorLoader
  | mxfp8SafeTensorLoader
deriving DecidableEq, Repr

/-- The methods of `NativeMoEWrapper`. -/
inductive Method where
  | rawInt4
  | fp8
  | fp8PerChannel
  | bf16
  | gptqInt4
  | syclGptqInt4
  | mxfp4
  | nvfp4
  | mxfp8
  | unsupported (name : String)
deriving DecidableEq, Repr

structure Loader (Path : Type) where
  loaderClass : LoaderClass
  filePath : Path
  scaleSuffix : Option String
deriving DecidableEq, Repr

def Method.loaderClass : Method → Option LoaderClass
  | .rawInt4 => some .compressedSafeTensorLoader
  | .fp8 => some .fp8SafeTensorLoader
  | .fp8PerChannel => some .fp8SafeTensorLoader
  | .bf16 => some .bf16SafeTensorLoader
  | .gptqInt4 => some .gptqSafeTensorLoader
  | .syclGptqInt4 => some .gptqSafeTensorLoader
  | .mxfp4 => some .mxfp4SafeTensorLoader
  | .nvfp4 => some .nvfp4SafeTensorLoader
  | .mxfp8 => some .mxfp8SafeTensorLoader
  | .unsupported _ => none

def Method.scaleSuffix : Method → Option String
  | .fp8PerChannel => some "weight_scale"
  | _ => none

variable {Path : Type}

/-- `NativeMoEWrapper._create_loader`; `raised` is what the constructor of the loader raises. -/
def createLoader (method : Method) (weightPath : Path) (raised : Option PyError) : Except PyError (Loader Path) :=
  match method.loaderClass, raised with
  | none, _ => .error .notImplementedError
  | some _, some error => .error error
  | some loaderClass, none => .ok ⟨loaderClass, weightPath, method.scaleSuffix⟩

structure NativeWrapper (Path : Type) where
  layerIdx : Nat
  method : Method
  weightPath : Path
deriving DecidableEq, Repr

/-- The keys that `load_weights` tries one after the other. -/
def NativeWrapper.candidates (wrapper : NativeWrapper Path) : List String :=
  ["model.layers." ++ toString wrapper.layerIdx, "language_model.model.layers." ++ toString wrapper.layerIdx,
    "model.language_model.layers." ++ toString wrapper.layerIdx]

/-- `AMXMoEWrapper` keeps the loader that it found when it was made. -/
structure AmxWrapper (Path : Type) where
  layerIdx : Nat
  weightPath : Path
  cpuSave : Bool
  loadMergedWeight : Bool
  safetensorLoader : Option (Loader Path)
deriving DecidableEq, Repr

/-- One look at the tensors of a layer: the class of the loader, `none` for the files that the
backend reads by itself, and the path that it reads under. -/
structure Read (Path : Type) where
  loaderClass : Option LoaderClass
  filePath : Path
  key : String
deriving DecidableEq, Repr

/-- A call of `load_weights`: the path and the loader class of its wrapper, what it read, and
what it raised. -/
structure Load (Path : Type) where
  weightPath : Path
  loaderClass : Option LoaderClass
  reads : List (Read Path)
  raised : Option PyError
deriving DecidableEq, Repr

/-- What a construction meets: the checks with the base class, the search for merged files
(`AMXMoEWrapper` only), and the constructor of the loader. -/
structure Construction where
  checks : Option PyError
  merged : Bool
  opens : Option PyError

/-- What a load meets: the constructor of the loader, `load_experts` for each key, the steps
from the scales to the end of the task of the backend, and those after the release. -/
structure Loading where
  opens : Option PyError
  loadExperts : String → Option PyError
  prepares : Option PyError
  finishes : Option PyError

/-- The keys that are tried until one is found, and the exception if none is. -/
def findExperts (loadExperts : String → Option PyError) : List String → List String × Option PyError
  | [] => ([], some .valueError)
  | key :: rest =>
      match loadExperts key with
      | none => ([key], none)
      | some error =>
          if error = .valueError ∨ error = .keyError then
            let found := findExperts loadExperts rest
            (key :: found.1, found.2)
          else ([key], some error)

structure Process (Path : Type) where
  nativeLoader : Option (Loader Path)
  safetensorLoader : Option (Loader Path)
  natives : List (NativeWrapper Path)
  amxs : List (AmxWrapper Path)
  loads : List (Load Path)
deriving DecidableEq, Repr

inductive Event (Path : Type) where
  | construct (wrapper : NativeWrapper Path) (meets : Construction)
  | loadWeights (wrapper : NativeWrapper Path) (meets : Loading)
  | forceReleaseLoader
  | constructAmx (layerIdx : Nat) (weightPath : Path) (cpuSave : Bool) (meets : Construction)
  | loadWeightsAmx (wrapper : AmxWrapper Path) (meets : Loading)

namespace Process

def initial : Process Path where
  nativeLoader := none
  safetensorLoader := none
  natives := []
  amxs := []
  loads := []

/-- The class variable, or a new loader. -/
def nativeLoaderFor (process : Process Path) (method : Method) (weightPath : Path) (raised : Option PyError) :
    Except PyError (Loader Path) :=
  match process.nativeLoader with
  | some loader => .ok loader
  | none => createLoader method weightPath raised

/-- `NativeMoEWrapper.__init__` -/
def construct (process : Process Path) (wrapper : NativeWrapper Path) (meets : Construction) : Process Path :=
  match meets.checks with
  | some _ => process
  | none =>
      match process.nativeLoaderFor wrapper.method wrapper.weightPath meets.opens with
      | .error _ => process
      | .ok loader =>
          { process with
            nativeLoader := some loader
            natives := wrapper :: process.natives }

/-- No backend is made for a method that has none. -/
def prepare (wrapper : NativeWrapper Path) (meets : Loading) : Option PyError :=
  match wrapper.method.loaderClass with
  | none => some .attributeError
  | some _ => meets.prepares

/-- `NativeMoEWrapper.load_weights` -/
def loadWeights (process : Process Path) (wrapper : NativeWrapper Path) (meets : Loading) : Process Path :=
  let load : Load Path := ⟨wrapper.weightPath, wrapper.method.loaderClass, [], none⟩
  match process.nativeLoaderFor wrapper.method wrapper.weightPath meets.opens with
  | .error error => { process with loads := { load with raised := some error } :: process.loads }
  | .ok loader =>
      let found := findExperts meets.loadExperts wrapper.candidates
      let reads := found.1.map fun key => ⟨some loader.loaderClass, loader.filePath, key⟩
      match found.2.or (prepare wrapper meets) with
      | some error =>
          { process with
            nativeLoader := some loader
            loads := { load with reads := reads, raised := some error } :: process.loads }
      -- the loader is released when the weights are loaded
      | none =>
          { process with
            nativeLoader := none
            loads := { load with reads := reads, raised := meets.finishes } :: process.loads }

/-- `AMXMoEWrapper.__init__` -/
def constructAmx (process : Process Path) (layerIdx : Nat) (weightPath : Path) (cpuSave : Bool) (meets : Construction) :
    Process Path :=
  match meets.checks with
  | some _ => process
  | none =>
      if meets.merged then
        match process.safetensorLoader, meets.opens with
        | some loader, _ => { process with amxs := ⟨layerIdx, weightPath, cpuSave, true, some loader⟩ :: process.amxs }
        | none, some _ => process
        | none, none =>
            let loader : Loader Path := ⟨.safeTensorLoader, weightPath, none⟩
            { process with
              safetensorLoader := some loader
              amxs := ⟨layerIdx, weightPath, cpuSave, true, some loader⟩ :: process.amxs }
      else { process with amxs := ⟨layerIdx, weightPath, cpuSave, false, none⟩ :: process.amxs }

/-- The reads of `AMXMoEWrapper.load_weights` and what it raises.  The experts that
`load_experts` returns have no `gate_weight`, which `cpu_save` asks for. -/
def readAmx (wrapper : AmxWrapper Path) (meets : Loading) : List (Read Path) × Option PyError :=
  let look (loader : Loader Path) (key : String) : Read Path := ⟨some loader.loaderClass, loader.filePath, key⟩
  let saved (loader : Loader Path) : List (Read Path) × Option PyError :=
    let found := findExperts meets.loadExperts
      ["model.layers." ++ toString wrapper.layerIdx, "model.language_model.layers." ++ toString wrapper.layerIdx]
    (found.1.map (look loader), some (found.2.getD .keyError))
  let files : Read Path := ⟨none, wrapper.weightPath, "_layer_" ++ toString wrapper.layerIdx⟩
  match wrapper.loadMergedWeight, wrapper.safetensorLoader with
  | true, some loader =>
      let key := "blk." ++ toString wrapper.layerIdx
      match meets.loadExperts key with
      | some error => ([look loader key], some error)
      | none =>
          if wrapper.cpuSave then (look loader key :: (saved loader).1, (saved loader).2)
          else ([look loader key], meets.prepares)
  | true, none => ([], some .attributeError)
  | false, _ =>
      if wrapper.cpuSave then ([], some .attributeError)
      else ([files], meets.prepares)

/-- `AMXMoEWrapper.load_weights` -/
def loadWeightsAmx (process : Process Path) (wrapper : AmxWrapper Path) (meets : Loading) : Process Path :=
  let result := readAmx wrapper meets
  { process with
    loads := ⟨wrapper.weightPath, if wrapper.loadMergedWeight then some .safeTensorLoader else none, result.1,
      result.2.or meets.finishes⟩ :: process.loads }

/-- A call of a wrapper that was not made is not a step. -/
def step [DecidableEq Path] (process : Process Path) : Event Path → Option (Process Path)
  | .construct wrapper meets => some (process.construct wrapper meets)
  | .loadWeights wrapper meets =>
      if wrapper ∈ process.natives then some (process.loadWeights wrapper meets) else none
  | .forceReleaseLoader => some { process with nativeLoader := none }
  | .constructAmx layerIdx weightPath cpuSave meets => some (process.constructAmx layerIdx weightPath cpuSave meets)
  | .loadWeightsAmx wrapper meets =>
      if wrapper ∈ process.amxs then some (process.loadWeightsAmx wrapper meets) else none

end Process

def machine (Path : Type) [DecidableEq Path] : Machine (Process Path) (Event Path) where
  initial process := process = Process.initial
  step := Process.step

/-! ## Isolation -/

/-- The load read nothing but the files of its wrapper, through the loader of its method. -/
def Load.Own (load : Load Path) : Prop :=
  ∀ read ∈ load.reads, read.filePath = load.weightPath ∧ read.loaderClass = load.loaderClass

def Process.Isolated (process : Process Path) : Prop :=
  ∀ load ∈ process.loads, load.raised = none → load.Own

instance [DecidableEq Path] (load : Load Path) : Decidable load.Own :=
  inferInstanceAs (Decidable (∀ read ∈ load.reads, _))

instance [DecidableEq Path] (process : Process Path) : Decidable process.Isolated :=
  inferInstanceAs (Decidable (∀ load ∈ process.loads, _))

/-- The load gets through when it finds a loader. -/
def Loading.Passes (meets : Loading) (wrapper : NativeWrapper Path) : Prop :=
  (findExperts meets.loadExperts wrapper.candidates).2.or (Process.prepare wrapper meets) = none

instance (meets : Loading) (wrapper : NativeWrapper Path) : Decidable (meets.Passes wrapper) :=
  inferInstanceAs (Decidable (_ = none))

/-- What an event does to the class variable of `NativeMoEWrapper`: a wrapper that is made
or loaded brings its own method and path, and a load that gets through releases. -/
def nativeTouches : Event Path → List (Touch (Method × Path))
  | .construct wrapper meets =>
      if meets.checks = none then
        [.acquire (wrapper.method, wrapper.weightPath) (meets.opens = none ∧ wrapper.method.loaderClass ≠ none)]
      else []
  | .loadWeights wrapper meets =>
      .acquire (wrapper.method, wrapper.weightPath) (meets.opens = none ∧ wrapper.method.loaderClass ≠ none) ::
        if meets.Passes wrapper then [.release] else []
  | .forceReleaseLoader => [.release]
  | .constructAmx _ _ _ _ => []
  | .loadWeightsAmx _ _ => []

/-- What an event does to the class variable of `AMXMoEWrapper`. -/
def amxTouches : Event Path → List (Touch Path)
  | .constructAmx _ weightPath _ meets =>
      if meets.checks = none ∧ meets.merged then [.acquire weightPath (meets.opens = none)] else []
  | .construct _ _ => []
  | .loadWeights _ _ => []
  | .forceReleaseLoader => []
  | .loadWeightsAmx _ _ => []

/-- The method and the path of the first wrapper that brought a loader after the last release. -/
def nativeSource (past : List (Event Path)) : Option (Method × Path) :=
  firstKey (past.flatMap nativeTouches)

/-- The path of the first wrapper that was made over merged files. -/
def amxSource (past : List (Event Path)) : Option Path :=
  firstKey (past.flatMap amxTouches)

/-- A load that is going to succeed has the path, and a native one the loader class, of the
wrapper that brought the loader. -/
def SameSource (past : List (Event Path)) : Event Path → Prop
  | .loadWeights wrapper meets =>
      meets.Passes wrapper → meets.finishes = none → ∀ source ∈ nativeSource past,
        source.2 = wrapper.weightPath ∧ source.1.loaderClass = wrapper.method.loaderClass
  | .loadWeightsAmx wrapper meets =>
      wrapper.loadMergedWeight = true → wrapper.cpuSave = false →
        meets.loadExperts ("blk." ++ toString wrapper.layerIdx) = none → meets.prepares = none → meets.finishes = none →
          ∀ source ∈ amxSource past, source = wrapper.weightPath
  | .construct _ _ => True
  | .forceReleaseLoader => True
  | .constructAmx _ _ _ _ => True

/-- Every load of the run has the source that its history has left behind. -/
def SameSources (events : List (Event Path)) : Prop :=
  ∀ past event, past ++ [event] <+: events → SameSource past event

/-! ## What the class variables hold -/

theorem createLoader_ok {method : Method} {weightPath : Path} {raised : Option PyError} {loader : Loader Path} :
    createLoader method weightPath raised = .ok loader ↔
      raised = none ∧ loader.filePath = weightPath ∧ method.loaderClass = some loader.loaderClass ∧
        loader.scaleSuffix = method.scaleSuffix := by
  cases raised with
  | some error => cases named : method.loaderClass <;> simp [createLoader, named]
  | none =>
      cases named : method.loaderClass with
      | none => simp [createLoader, named]
      | some loaderClass =>
          obtain ⟨own, filePath, scaleSuffix⟩ := loader
          simp only [createLoader, named, Except.ok.injEq, Loader.mk.injEq, true_and, Option.some.injEq]
          constructor
          · rintro ⟨rfl, rfl, rfl⟩
            exact ⟨rfl, rfl, rfl⟩
          · rintro ⟨rfl, rfl, rfl⟩
            exact ⟨rfl, rfl, rfl⟩

theorem createLoader_error {method : Method} {weightPath : Path} {raised : Option PyError} {error : PyError}
    (failed : createLoader method weightPath raised = .error error) :
    ¬(raised = none ∧ method.loaderClass ≠ none) := by
  rintro ⟨rfl, supported⟩
  cases named : method.loaderClass with
  | none => exact supported named
  | some loaderClass =>
      simp [createLoader, named] at failed

def Backs : Option (Loader Path) → Option (Method × Path) → Prop
  | none, none => True
  | some loader, some source => createLoader source.1 source.2 none = .ok loader
  | none, some _ => False
  | some _, none => False

theorem Backs.filled {process : Process Path} {source : Option (Method × Path)} (backs : Backs process.nativeLoader source)
    (method : Method) (weightPath : Path) (raised : Option PyError) :
    (∃ error, process.nativeLoaderFor method weightPath raised = .error error ∧ process.nativeLoader = none ∧
      source.or (Touch.acquire (method, weightPath) (raised = none ∧ method.loaderClass ≠ none)).brought = none) ∨
    ∃ loader, process.nativeLoaderFor method weightPath raised = .ok loader ∧
      Backs (some loader) (source.or (Touch.acquire (method, weightPath) (raised = none ∧ method.loaderClass ≠ none)).brought) := by
  cases held : process.nativeLoader with
  | some loader =>
      rw [held] at backs
      cases source with
      | none => exact backs.elim
      | some source => exact .inr ⟨loader, by rw [Process.nativeLoaderFor, held], backs⟩
  | none =>
      rw [held] at backs
      cases source with
      | some source => exact backs.elim
      | none =>
          rw [Process.nativeLoaderFor, held, Option.none_or]
          cases created : createLoader method weightPath raised with
          | error error =>
              refine .inl ⟨error, rfl, rfl, ?_⟩
              rw [decide_eq_false (createLoader_error created)]
              rfl
          | ok loader =>
              obtain ⟨none_, same, named, suffix⟩ := createLoader_ok.mp created
              refine .inr ⟨loader, rfl, ?_⟩
              have supported : raised = none ∧ method.loaderClass ≠ none := ⟨none_, by simp [named]⟩
              rw [decide_eq_true supported]
              exact createLoader_ok.mpr ⟨rfl, same, named, suffix⟩

def merged (weightPath : Path) : Loader Path :=
  ⟨.safeTensorLoader, weightPath, none⟩

/-- The class variables and the wrappers hold what the history has brought. -/
structure Traces (past : List (Event Path)) (process : Process Path) : Prop where
  native : Backs process.nativeLoader (nativeSource past)
  amx : process.safetensorLoader = (amxSource past).map merged
  wrappers : ∀ wrapper ∈ process.amxs, wrapper.loadMergedWeight = true →
    ∃ source, amxSource past = some source ∧ wrapper.safetensorLoader = some (merged source)

theorem nativeSource_append (past : List (Event Path)) (event : Event Path) :
    nativeSource (past ++ [event]) = (nativeTouches event).foldl Touch.apply (nativeSource past) := by
  rw [nativeSource, List.flatMap_append, firstKey_append]
  simp [nativeSource]

theorem amxSource_append (past : List (Event Path)) (event : Event Path) :
    amxSource (past ++ [event]) = (amxTouches event).foldl Touch.apply (amxSource past) := by
  rw [amxSource, List.flatMap_append, firstKey_append]
  simp [amxSource]

section

variable {past : List (Event Path)} {process : Process Path}

theorem Backs.construct (backs : Backs process.nativeLoader (nativeSource past)) (wrapper : NativeWrapper Path)
    (meets : Construction) :
    Backs (process.construct wrapper meets).nativeLoader (nativeSource (past ++ [.construct wrapper meets])) := by
  rw [nativeSource_append, nativeTouches, Process.construct]
  cases checked : meets.checks with
  | some error => exact backs
  | none =>
      rw [if_pos rfl]
      rcases backs.filled _ _ _ with ⟨error, failed, empty, none_⟩ | ⟨loader, found, backs⟩
      · rw [failed]
        change Backs process.nativeLoader (Option.or _ _)
        rw [none_, empty]
        trivial
      · rw [found]
        exact backs

theorem Backs.loadWeights (backs : Backs process.nativeLoader (nativeSource past)) (wrapper : NativeWrapper Path)
    (meets : Loading) :
    Backs (process.loadWeights wrapper meets).nativeLoader (nativeSource (past ++ [.loadWeights wrapper meets])) := by
  rw [nativeSource_append, nativeTouches, Process.loadWeights, List.foldl_cons]
  by_cases passes : meets.Passes wrapper
  · rw [if_pos passes]
    rcases backs.filled _ _ _ with ⟨error, failed, empty, -⟩ | ⟨loader, found, -⟩
    · rw [failed]
      change Backs process.nativeLoader none
      rw [empty]
      trivial
    · rw [Loading.Passes] at passes
      simp only [found, passes]
      trivial
  · rw [if_neg passes]
    rcases backs.filled _ _ _ with ⟨error, failed, empty, none_⟩ | ⟨loader, found, backs⟩
    · rw [failed]
      change Backs process.nativeLoader (Option.or _ _)
      rw [none_, empty]
      trivial
    · obtain ⟨error, raised⟩ := Option.ne_none_iff_exists'.mp passes
      simp only [found, raised]
      exact backs

theorem Traces.constructAmx (traces : Traces past process) (layerIdx : Nat) (weightPath : Path) (cpuSave : Bool)
    (meets : Construction) :
    Traces (past ++ [.constructAmx layerIdx weightPath cpuSave meets])
      (process.constructAmx layerIdx weightPath cpuSave meets) := by
  have native : nativeSource (past ++ [.constructAmx layerIdx weightPath cpuSave meets]) = nativeSource past := by
    rw [nativeSource_append]
    rfl
  have amx := amxSource_append past (.constructAmx layerIdx weightPath cpuSave meets)
  rw [amxTouches] at amx
  cases checked : meets.checks with
  | some error =>
      rw [checked, if_neg (by simp)] at amx
      simp only [Process.constructAmx, checked]
      exact ⟨by rw [native]; exact traces.native, by rw [amx]; exact traces.amx, by rw [amx]; exact traces.wrappers⟩
  | none =>
      cases found : meets.merged with
      | false =>
          rw [checked, found, if_neg (by simp)] at amx
          simp only [Process.constructAmx, checked, found, Bool.false_eq_true, if_false]
          refine ⟨by rw [native]; exact traces.native, by rw [amx]; exact traces.amx, ?_⟩
          intro wrapper member mergedWeight
          rw [amx]
          cases List.mem_cons.mp member with
          | inl same => rw [same] at mergedWeight; contradiction
          | inr old => exact traces.wrappers wrapper old mergedWeight
      | true =>
          rw [checked, found, if_pos (by simp)] at amx
          have held := traces.amx
          simp only [Process.constructAmx, checked, found, if_true]
          cases source : amxSource past with
          | some first =>
              rw [source] at amx held
              simp only [held, Option.map_some]
              refine ⟨by rw [native]; exact traces.native, ?_, ?_⟩
              · rw [amx]
                rfl
              · intro wrapper member mergedWeight
                cases List.mem_cons.mp member with
                | inl same => exact ⟨first, amx, by rw [same]⟩
                | inr old =>
                    obtain ⟨known, has, holds⟩ := traces.wrappers wrapper old mergedWeight
                    rw [source] at has
                    exact ⟨known, by rw [← has]; exact amx, holds⟩
          | none =>
              have unmade : ∀ wrapper ∈ process.amxs, wrapper.loadMergedWeight ≠ true := by
                intro wrapper member mergedWeight
                obtain ⟨known, has, -⟩ := traces.wrappers wrapper member mergedWeight
                rw [source] at has
                contradiction
              rw [source] at amx held
              cases opened : meets.opens with
              | some error =>
                  rw [opened] at amx
                  simp only [held, Option.map_none]
                  refine ⟨by rw [native]; exact traces.native, by rw [amx]; exact held, ?_⟩
                  intro wrapper member mergedWeight
                  exact absurd mergedWeight (unmade wrapper member)
              | none =>
                  rw [opened] at amx
                  simp only [held, Option.map_none]
                  refine ⟨by rw [native]; exact traces.native, by rw [amx]; rfl, ?_⟩
                  intro wrapper member mergedWeight
                  cases List.mem_cons.mp member with
                  | inl same => exact ⟨weightPath, amx, by rw [same]; rfl⟩
                  | inr old => exact absurd mergedWeight (unmade wrapper old)

end

/-! ## Isolated runs -/

theorem findExperts_found {loadExperts : String → Option PyError} {keys : List String}
    (found : (findExperts loadExperts keys).2 = none) : (findExperts loadExperts keys).1 ≠ [] := by
  induction keys with
  | nil => simp [findExperts] at found
  | cons key rest induction =>
      rw [findExperts]
      split
      · simp
      · split <;> simp

theorem own_iff {load : Load Path} {loader : Loader Path} {keys : List String} (some_ : keys ≠ [])
    (reads : load.reads = keys.map fun key => ⟨some loader.loaderClass, loader.filePath, key⟩) :
    load.Own ↔ loader.filePath = load.weightPath ∧ some loader.loaderClass = load.loaderClass := by
  rw [Load.Own, reads]
  constructor
  · intro own
    obtain ⟨key, member⟩ := List.exists_mem_of_ne_nil keys some_
    exact own _ (List.mem_map_of_mem member)
  · rintro own read member
    obtain ⟨key, -, rfl⟩ := List.mem_map.mp member
    exact own

section

variable {past : List (Event Path)} {process : Process Path}

/-- The load that a call of `NativeMoEWrapper.load_weights` records. -/
theorem loadWeights_own (backs : Backs process.nativeLoader (nativeSource past)) (wrapper : NativeWrapper Path)
    (meets : Loading) :
    ∃ load, (process.loadWeights wrapper meets).loads = load :: process.loads ∧
      ((load.raised = none → load.Own) ↔ SameSource past (.loadWeights wrapper meets)) := by
  rw [Process.loadWeights, SameSource]
  rcases backs.filled wrapper.method wrapper.weightPath meets.opens with
    ⟨error, failed, -, none_⟩ | ⟨loader, found, filled⟩
  · simp only [failed]
    refine ⟨_, rfl, ?_⟩
    rw [(Option.or_eq_none_iff.mp none_).1]
    simp
  · simp only [found]
    cases passes : (findExperts meets.loadExperts wrapper.candidates).2.or (Process.prepare wrapper meets) with
    | some error =>
        refine ⟨_, rfl, ?_⟩
        simp [Loading.Passes, passes]
    | none =>
        refine ⟨_, rfl, ?_⟩
        have some_ := findExperts_found (Option.or_eq_none_iff.mp passes).1
        rw [own_iff some_ rfl]
        simp only [Loading.Passes, passes, forall_const]
        apply imp_congr_right
        intro _
        cases source : nativeSource past with
        | none =>
            -- the wrapper brings the loader by itself
            rw [source, Option.none_or] at filled
            cases brought : (Touch.acquire (wrapper.method, wrapper.weightPath)
                (decide (meets.opens = none ∧ wrapper.method.loaderClass ≠ none))).brought with
            | none => rw [brought] at filled; exact filled.elim
            | some key =>
                rw [brought] at filled
                have same : key = (wrapper.method, wrapper.weightPath) := by
                  cases fills : decide (meets.opens = none ∧ wrapper.method.loaderClass ≠ none) with
                  | false => rw [fills] at brought; cases brought
                  | true => rw [fills] at brought; cases brought; rfl
                obtain ⟨-, ownPath, ownClass, -⟩ := createLoader_ok.mp filled
                rw [same] at ownPath ownClass
                simp [ownPath, ownClass]
        | some source_ =>
            rw [source, Option.some_or] at filled
            obtain ⟨-, ownPath, ownClass, -⟩ := createLoader_ok.mp filled
            rw [ownPath, ← ownClass]
            simp

/-- The load that a call of `AMXMoEWrapper.load_weights` records. -/
theorem loadWeightsAmx_own (traces : Traces past process) {wrapper : AmxWrapper Path} (made : wrapper ∈ process.amxs)
    (meets : Loading) :
    ∃ load, (process.loadWeightsAmx wrapper meets).loads = load :: process.loads ∧
      ((load.raised = none → load.Own) ↔ SameSource past (.loadWeightsAmx wrapper meets)) := by
  rw [Process.loadWeightsAmx, SameSource]
  refine ⟨_, rfl, ?_⟩
  cases kind : wrapper.loadMergedWeight with
  | false =>
      simp only [Bool.false_eq_true, if_false, false_implies, iff_true]
      intro raised read member
      rw [Process.readAmx, kind] at raised member
      cases saves : wrapper.cpuSave with
      | true => simp [saves] at raised
      | false =>
          simp only [saves, Bool.false_eq_true, if_false, List.mem_singleton] at member
          rw [member]
          exact ⟨rfl, rfl⟩
  | true =>
      obtain ⟨source, first, held⟩ := traces.wrappers wrapper made kind
      simp only [Process.readAmx, kind, held, if_true, forall_const, first, Option.mem_some_iff, forall_eq']
      cases looked : meets.loadExperts ("blk." ++ toString wrapper.layerIdx) with
      | some error => simp
      | none =>
          cases saves : wrapper.cpuSave with
          | true => simp
          | false =>
              simp only [Bool.false_eq_true, if_false, forall_const, Option.or_eq_none_iff, and_imp]
              apply imp_congr_right
              intro _
              apply imp_congr_right
              intro _
              simp [Load.Own, merged]

/-- One step: what the state holds goes on, and a new load is its own as its source is. -/
theorem step_traces [DecidableEq Path] {event : Event Path} {after : Process Path} (traces : Traces past process)
    (moved : process.step event = some after) :
    Traces (past ++ [event]) after ∧ (after.Isolated ↔ process.Isolated ∧ SameSource past event) := by
  cases event with
  | construct wrapper meets =>
      simp only [Process.step, Option.some.injEq] at moved
      have same : after.safetensorLoader = process.safetensorLoader ∧ after.amxs = process.amxs ∧
          after.loads = process.loads := by
        rw [← moved, Process.construct]
        split
        · exact ⟨rfl, rfl, rfl⟩
        · split <;> exact ⟨rfl, rfl, rfl⟩
      have amx : amxSource (past ++ [.construct wrapper meets]) = amxSource past := by
        rw [amxSource_append]
        rfl
      refine ⟨⟨by rw [← moved]; exact traces.native.construct wrapper meets, ?_, ?_⟩, ?_⟩
      · rw [same.1, amx]
        exact traces.amx
      · rw [same.2.1, amx]
        exact traces.wrappers
      · simp [Process.Isolated, same.2.2, SameSource]
  | loadWeights wrapper meets =>
      simp only [Process.step, Option.ite_none_right_eq_some, Option.some.injEq] at moved
      obtain ⟨-, moved⟩ := moved
      have same : after.safetensorLoader = process.safetensorLoader ∧ after.amxs = process.amxs := by
        rw [← moved, Process.loadWeights]
        split
        · exact ⟨rfl, rfl⟩
        · dsimp only
          split <;> exact ⟨rfl, rfl⟩
      have amx : amxSource (past ++ [.loadWeights wrapper meets]) = amxSource past := by
        rw [amxSource_append]
        rfl
      refine ⟨⟨by rw [← moved]; exact traces.native.loadWeights wrapper meets, ?_, ?_⟩, ?_⟩
      · rw [same.1, amx]
        exact traces.amx
      · rw [same.2, amx]
        exact traces.wrappers
      · obtain ⟨load, loads, own⟩ := loadWeights_own traces.native wrapper meets
        rw [moved] at loads
        rw [Process.Isolated, loads, List.forall_mem_cons, own, and_comm]
        rfl
  | forceReleaseLoader =>
      cases moved
      have native : nativeSource (past ++ [.forceReleaseLoader]) = none := by
        rw [nativeSource_append]
        rfl
      have amx : amxSource (past ++ [.forceReleaseLoader]) = amxSource past := by
        rw [amxSource_append]
        rfl
      refine ⟨⟨by rw [native]; trivial, by rw [amx]; exact traces.amx, by rw [amx]; exact traces.wrappers⟩, ?_⟩
      simp [Process.Isolated, SameSource]
  | constructAmx layerIdx weightPath cpuSave meets =>
      cases moved
      have loads : (process.constructAmx layerIdx weightPath cpuSave meets).loads = process.loads := by
        rw [Process.constructAmx]
        split
        · rfl
        · split
          · split <;> rfl
          · rfl
      refine ⟨traces.constructAmx layerIdx weightPath cpuSave meets, ?_⟩
      simp [Process.Isolated, loads, SameSource]
  | loadWeightsAmx wrapper meets =>
      simp only [Process.step, Option.ite_none_right_eq_some, Option.some.injEq] at moved
      obtain ⟨made, rfl⟩ := moved
      have native : nativeSource (past ++ [.loadWeightsAmx wrapper meets]) = nativeSource past := by
        rw [nativeSource_append]
        rfl
      have amx : amxSource (past ++ [.loadWeightsAmx wrapper meets]) = amxSource past := by
        rw [amxSource_append]
        rfl
      refine ⟨⟨by rw [native]; exact traces.native, by rw [amx]; exact traces.amx, by rw [amx]; exact traces.wrappers⟩, ?_⟩
      obtain ⟨load, loads, own⟩ := loadWeightsAmx_own traces made meets
      rw [Process.Isolated, loads, List.forall_mem_cons, own, and_comm]
      rfl

end

theorem run_traces [DecidableEq Path] {events : List (Event Path)} {process : Process Path}
    (ran : (machine Path).run .initial events = some process) :
    Traces events process ∧ (process.Isolated ↔ SameSources events) := by
  induction events using List.reverseRecOn generalizing process with
  | nil =>
      cases ran
      refine ⟨⟨trivial, rfl, by simp [Process.initial]⟩, ?_⟩
      simp [Process.Isolated, Process.initial, SameSources]
  | append_singleton past event induction =>
      rw [Machine.run_append] at ran
      obtain ⟨before, ran, moved⟩ := Option.bind_eq_some_iff.mp ran
      obtain ⟨traces, isolated⟩ := induction ran
      obtain ⟨next, moved, last⟩ := Option.bind_eq_some_iff.mp moved
      cases last
      obtain ⟨traces, also⟩ := step_traces traces moved
      refine ⟨traces, ?_⟩
      rw [also, isolated]
      constructor
      · rintro ⟨earlier, latest⟩ past' event' known
        rcases List.prefix_concat_iff.mp known with whole | earlier_
        · obtain ⟨rfl, same⟩ := List.append_inj' whole rfl
          cases same
          exact latest
        · exact earlier past' event' earlier_
      · intro all
        exact ⟨fun past' event' known => all past' event' (known.trans (List.prefix_append _ _)), all past event List.prefix_rfl⟩

/-- Every load of a run that succeeds has read nothing but the files under the path of its
wrapper, through the loader class of its method, exactly when the wrapper that brought the
loader after the last release has that path and that class. -/
theorem weight_sources_isolated_iff [DecidableEq Path] {events : List (Event Path)} {process : Process Path}
    (ran : (machine Path).run .initial events = some process) : process.Isolated ↔ SameSources events :=
  (run_traces ran).2

/-- A wrapper that is loaded alone, then one over another path after it. -/
theorem weight_sources_isolated_after_release :
    ∃ process : Process String, (machine String).run .initial
        [.construct ⟨0, .fp8, "main"⟩ ⟨none, false, none⟩, .loadWeights ⟨0, .fp8, "main"⟩ ⟨none, fun _ => none, none, none⟩,
          .construct ⟨0, .bf16, "draft"⟩ ⟨none, false, none⟩,
          .loadWeights ⟨0, .bf16, "draft"⟩ ⟨none, fun _ => none, none, none⟩] = some process ∧
      (process.Isolated ↔ SameSources
        [.construct ⟨0, .fp8, "main"⟩ ⟨none, false, none⟩, .loadWeights ⟨0, .fp8, "main"⟩ ⟨none, fun _ => none, none, none⟩,
          .construct ⟨0, .bf16, "draft"⟩ ⟨none, false, none⟩,
          .loadWeights ⟨0, .bf16, "draft"⟩ ⟨none, fun _ => none, none, none⟩]) ∧ process.Isolated :=
  ⟨_, rfl, weight_sources_isolated_iff rfl, by decide⟩

/-- The second of two wrappers that are made before any is loaded reads the files of the first. -/
theorem second_wrapper_reads_first_path :
    ∃ process : Process String, (machine String).run .initial
        [.construct ⟨0, .fp8, "main"⟩ ⟨none, false, none⟩, .construct ⟨0, .fp8, "draft"⟩ ⟨none, false, none⟩,
          .loadWeights ⟨0, .fp8, "draft"⟩ ⟨none, fun _ => none, none, none⟩] = some process ∧
      process.loads.map (fun load => (load.weightPath, load.reads.map Read.filePath, load.raised)) =
        [("draft", ["main"], none)] ∧
      ¬process.Isolated :=
  ⟨_, rfl, rfl, by decide⟩

end WeightSources

end KtKernel.Experts
