import KtKernel.Sft.Checkpoint

namespace KtKernel.Sft.Checkpoint

open KtKernel.Data

/-! What a save of a checkpoint does to the directory. -/

/-! ## The names of a save -/

/-- The files that a save writes besides the index. -/
def Own (generation : Generation) (name : Name) : Prop :=
  (∃ layer, name = shardName generation layer ∨ name = temporaryName generation layer) ∨
    name = temporaryIndexName generation

theorem intOf_leftpad (width : Nat) (text : List Char) : intOf (text.leftpad width '0') = intOf text := by
  have zeros (count : Nat) : intOf (List.replicate count '0' ++ text) = intOf text := by
    induction count with
    | zero => rfl
    | succ count rest =>
        rw [← rest]
        rfl
  exact zeros _

theorem shardName_injective (generation : Generation) : Function.Injective (shardName generation) := by
  intro left right same
  have padded := List.append_cancel_left (List.append_cancel_right same)
  rw [← intOf_decimal left, ← intOf_decimal right, ← intOf_leftpad 5, padded, intOf_leftpad]

theorem getLast?_append_of_some {front tail : List Char} (ends : tail.getLast? = some char) :
    (front ++ tail).getLast? = some char := by
  rw [List.getLast?_append, ends, Option.some_or]

theorem shardName_getLast (generation : Generation) (layer : Nat) : (shardName generation layer).getLast? = some 's' :=
  getLast?_append_of_some (by decide)

theorem temporaryName_getLast (generation : Generation) (layer : Nat) :
    (temporaryName generation layer).getLast? = some 'p' :=
  getLast?_append_of_some (by decide)

theorem temporaryIndexName_getLast (generation : Generation) : (temporaryIndexName generation).getLast? = some 'p' :=
  getLast?_append_of_some (by decide)

theorem temporaryName_ne_shardName (generation : Generation) (layer other : Nat) :
    temporaryName generation layer ≠ shardName generation other := by
  intro same
  have last := temporaryName_getLast generation layer
  rw [same, shardName_getLast] at last
  cases last

theorem temporaryIndexName_ne_shardName (generation : Generation) (layer : Nat) :
    temporaryIndexName generation ≠ shardName generation layer := by
  intro same
  have last := temporaryIndexName_getLast generation
  rw [same, shardName_getLast] at last
  cases last

theorem indexName_not_own (generation : Generation) : ¬Own generation indexName := by
  rintro (⟨layer, same | same⟩ | same)
  · have dash := congrArg (fun name => name[15]?) same
    cases dash
  · have dash := congrArg (fun name => name[15]?) same
    cases dash
  · have longer := congrArg List.length same
    rw [temporaryIndexName, List.length_append, List.length_append, List.length_append, List.length_singleton] at longer
    omega

/-- Neither a separator nor a character that a file system may not encode. -/
def Plain (char : Char) : Prop :=
  char ≠ '/' ∧ 0 < char.toNat ∧ char.toNat < 128

instance (char : Char) : Decidable (Plain char) :=
  inferInstanceAs (Decidable (_ ∧ _))

theorem plain_of_bounds {char : Char} (low : 47 < char.toNat) (high : char.toNat < 128) : Plain char := by
  refine ⟨?_, by omega, high⟩
  rintro rfl
  exact absurd low (by decide)

theorem plain_of_mem_hex {generation : Generation} (member : char ∈ generation.text) : Plain char := by
  have hex := List.all_eq_true.mp generation.isHex.2 char member
  rw [Bool.or_eq_true, decide_eq_true_eq, Char.isDigit, Bool.and_eq_true, decide_eq_true_eq, decide_eq_true_eq] at hex
  rcases hex with digit | letter
  · have range : 48 ≤ char.toNat ∧ char.toNat ≤ 57 := digit
    exact plain_of_bounds (by omega) (by omega)
  · have range : 97 ≤ char.toNat ∧ char.toNat ≤ 102 := letter
    exact plain_of_bounds (by omega) (by omega)

theorem plain_of_mem_decimal (member : char ∈ decimal n) : Plain char := by
  have digit : char.isDigit = true := Nat.isDigit_of_mem_toDigits (by decide) (by decide) member
  rw [Char.isDigit, Bool.and_eq_true, decide_eq_true_eq, decide_eq_true_eq] at digit
  have range : 48 ≤ char.toNat ∧ char.toNat ≤ 57 := digit
  exact plain_of_bounds (by omega) (by omega)

/-- A literal is checked character by character. -/
theorem plain_of_all {text : List Char} (all : text.all (fun char => decide (Plain char)) = true) :
    ∀ char ∈ text, Plain char := by
  intro char member
  exact of_decide_eq_true (List.all_eq_true.mp all char member)

theorem plain_shardName (generation : Generation) (layer : Nat) : ∀ char ∈ shardName generation layer, Plain char := by
  have padded : ∀ char ∈ (decimal layer).leftpad 5 '0', Plain char := by
    rw [List.leftpad, List.forall_mem_append]
    refine ⟨?_, fun _ => plain_of_mem_decimal⟩
    intro char member
    rw [List.eq_of_mem_replicate member]
    decide
  unfold shardName
  simp only [List.forall_mem_append]
  exact ⟨⟨⟨⟨plain_of_all rfl, fun _ => plain_of_mem_hex⟩, plain_of_all rfl⟩, padded⟩, plain_of_all rfl⟩

theorem plain_temporaryName (generation : Generation) (layer : Nat) :
    ∀ char ∈ temporaryName generation layer, Plain char := by
  unfold temporaryName
  exact List.forall_mem_append.mpr ⟨plain_shardName generation layer, plain_of_all rfl⟩

theorem plain_temporaryIndexName (generation : Generation) : ∀ char ∈ temporaryIndexName generation, Plain char := by
  unfold temporaryIndexName
  simp only [List.forall_mem_append]
  exact ⟨⟨⟨plain_of_all rfl, plain_of_all rfl⟩, fun _ => plain_of_mem_hex⟩, plain_of_all rfl⟩

theorem plain_of_own (own : Own generation name) (member : char ∈ name) : Plain char := by
  rcases own with ⟨layer, same | same⟩ | same
  · rw [same] at member
    exact plain_shardName _ _ char member
  · rw [same] at member
    exact plain_temporaryName _ _ char member
  · rw [same] at member
    exact plain_temporaryIndexName _ char member

variable {C T : Type} {storage : Storage C T} {generation : Generation}

theorem encodes_own (own : Own generation name) : storage.encodes name = true :=
  storage.encodes_ascii name fun _ member => (plain_of_own own member).2

theorem isBasename_shardName (generation : Generation) (layer : Nat) : isBasename (shardName generation layer) = true := by
  have noSlash : '/' ∉ shardName generation layer := fun member => (plain_shardName _ _ _ member).1 rfl
  have nonempty : shardName generation layer ≠ [] := by
    intro empty
    have last := shardName_getLast generation layer
    rw [empty] at last
    cases last
  rw [isBasename, Bool.and_eq_true, decide_eq_true_eq, Bool.not_eq_true', ← Bool.not_eq_true, List.contains_iff_mem]
  exact ⟨nonempty, noSlash⟩

section

variable {name source target : Name} {content : C} {pre : Process C → Prop} {post : Unit → Process C → Prop}
  {fault : Stop → Process C → Prop}

theorem createFile_meets
    (done : ∀ process, pre process → ∀ verdicts,
      post () { process with verdicts, files := Function.update process.files name (some (.file content)) })
    (part : ∀ process, pre process → ∀ verdicts stop left,
      fault stop { process with verdicts, files := Function.update process.files name (some (.file left)) })
    (unchanged : ∀ process, pre process → ∀ verdicts stop, fault stop { process with verdicts }) :
    Meets pre (createFile name content) post fault := by
  rintro ⟨files, verdicts, undo, temporary, created, published⟩ holds
  rcases verdicts with - | ⟨verdict, rest⟩
  · exact unchanged _ holds [] .killed
  · cases verdict with
    | done => exact done _ holds rest
    | raises left =>
        cases left with
        | none => exact unchanged _ holds rest (.raised .osError)
        | some left => exact part _ holds rest (.raised .osError) left
    | killed left =>
        cases left with
        | none => exact unchanged _ holds rest .killed
        | some left => exact part _ holds rest .killed left

theorem passStep_meets (done : ∀ process, pre process → ∀ verdicts, post () { process with verdicts })
    (unchanged : ∀ process, pre process → ∀ verdicts stop, fault stop { process with verdicts }) :
    Meets pre passStep post fault := by
  rintro ⟨files, verdicts, undo, temporary, created, published⟩ holds
  rcases verdicts with - | ⟨verdict, rest⟩
  · exact unchanged _ holds [] .killed
  · cases verdict with
    | done => exact done _ holds rest
    | raises left => exact unchanged _ holds rest (.raised .osError)
    | killed left => exact unchanged _ holds rest .killed

theorem lift_meets {α : Type} {checked : Except Error α} {post : α → Process C → Prop}
    (done : ∀ process, pre process → ∀ value, checked = .ok value → post value process)
    (raised : ∀ process, pre process → ∀ error, fault (.raised error) process) : Meets pre (lift checked) post fault := by
  intro process holds
  cases checked with
  | ok value => exact done process holds value rfl
  | error error => exact raised process holds error

theorem replace_meets (entry : ∀ process, pre process → ∃ content, process.files source = some (.file content))
    (done : ∀ process, pre process → ∀ verdicts content, process.files source = some (.file content) →
      post () { process with
        verdicts
        files := Function.update (Function.update process.files source none) target (some (.file content)) })
    (unchanged : ∀ process, pre process → ∀ verdicts stop, fault stop { process with verdicts }) :
    Meets pre (replace source target) post fault := by
  rintro ⟨files, verdicts, undo, temporary, created, published⟩ holds
  rcases verdicts with - | ⟨verdict, rest⟩
  · exact unchanged _ holds [] .killed
  · cases verdict with
    | raises left => exact unchanged _ holds rest (.raised .osError)
    | killed left => exact unchanged _ holds rest .killed
    | done =>
        obtain ⟨content, isFile⟩ := entry _ holds
        dsimp only at isFile
        have ran : replace source target ⟨files, .done :: rest, undo, temporary, created, published⟩ =
            moveEntry source target ⟨files, rest, undo, temporary, created, published⟩ := rfl
        have moved := done _ holds rest content isFile
        rw [ran]
        cases isTarget : files target with
        | none =>
            simp only [moveEntry, isFile, isTarget]
            exact moved
        | some other =>
            cases other with
            | directory =>
                simp only [moveEntry, isFile, isTarget]
                exact unchanged _ holds rest (.raised .osError)
            | file old =>
                simp only [moveEntry, isFile, isTarget]
                exact moved
            | link old =>
                simp only [moveEntry, isFile, isTarget]
                exact moved

end

/-! ## What is left to undo -/

/-- No file of the directory has a name of the save. -/
def Fresh (generation : Generation) (before : Directory C) : Prop :=
  ∀ name, Own generation name → before name = none

/-- Until the index is replaced, what differs from the directory before is listed. -/
structure Tracked (generation : Generation) (before : Directory C) (undo : List (Verdict C)) (process : Process C) :
    Prop where
  temporary : ∀ name ∈ process.temporary, Own generation name
  created : ∀ name ∈ process.created, Own generation name
  others : ∀ name, name ∉ process.temporary → name ∉ process.created → process.files name = before name
  plain : ∀ name, Own generation name → process.files name = none ∨ ∃ content, process.files name = some (.file content)
  undo : process.undo = undo
  published : process.published = false

namespace Tracked

variable {before : Directory C} {undo : List (Verdict C)} {process : Process C} {name : Name}

theorem start (fresh : Fresh generation before) (verdicts : List (Verdict C)) :
    Tracked generation before undo ⟨before, verdicts, undo, [], [], false⟩ where
  temporary := by simp
  created := by simp
  others := fun _ _ _ => rfl
  plain := fun name own => .inl (fresh name own)
  undo := rfl
  published := rfl

theorem verdicts (tracked : Tracked generation before undo process) (verdicts : List (Verdict C)) :
    Tracked generation before undo { process with verdicts } :=
  { tracked with }

theorem listTemporary (tracked : Tracked generation before undo process) (own : Own generation name) :
    Tracked generation before undo { process with temporary := process.temporary ++ [name] } :=
  { tracked with
    temporary := by
      intro other member
      rcases List.mem_append.mp member with old | new
      · exact tracked.temporary other old
      · rw [List.mem_singleton.mp new]
        exact own
    others := by
      intro other notTemporary notCreated
      exact tracked.others other (fun member => notTemporary (List.mem_append_left _ member)) notCreated }

theorem put (tracked : Tracked generation before undo process) (listed : name ∈ process.temporary) (content : C) :
    Tracked generation before undo
      { process with files := Function.update process.files name (some (.file content)) } :=
  { tracked with
    others := by
      intro other notTemporary notCreated
      have different : other ≠ name := fun same => notTemporary (same ▸ listed)
      dsimp only
      rw [Function.update_of_ne different]
      exact tracked.others other notTemporary notCreated
    plain := by
      intro other own
      dsimp only
      by_cases same : other = name
      · rw [same, Function.update_self]
        exact .inr ⟨content, rfl⟩
      · rw [Function.update_of_ne same]
        exact tracked.plain other own }

/-- A temporary file has got its name. -/
theorem rename (tracked : Tracked generation before undo process) (fresh : Fresh generation before) {target : Name}
    (own : Own generation name) (ownTarget : Own generation target) (content : C) :
    Tracked generation before undo
      { process with
        files := Function.update (Function.update process.files name none) target (some (.file content))
        created := process.created ++ [target] } :=
  { tracked with
    created := by
      intro other member
      rcases List.mem_append.mp member with old | new
      · exact tracked.created other old
      · rw [List.mem_singleton.mp new]
        exact ownTarget
    others := by
      intro other notTemporary notCreated
      rw [List.mem_append, not_or, List.mem_singleton] at notCreated
      dsimp only
      rw [Function.update_of_ne notCreated.2]
      by_cases same : other = name
      · rw [same, Function.update_self, fresh name own]
      · rw [Function.update_of_ne same]
        exact tracked.others other notTemporary notCreated.1
    plain := by
      intro other own
      dsimp only
      by_cases isTarget : other = target
      · rw [isTarget, Function.update_self]
        exact .inr ⟨content, rfl⟩
      · rw [Function.update_of_ne isTarget]
        by_cases same : other = name
        · rw [same, Function.update_self]
          exact .inl rfl
        · rw [Function.update_of_ne same]
          exact tracked.plain other own }

/-- What is not the save's own is as it was. -/
theorem elsewhere (tracked : Tracked generation before undo process) (notOwn : ¬Own generation name) :
    process.files name = before name :=
  tracked.others name (fun member => notOwn (tracked.temporary name member))
    fun member => notOwn (tracked.created name member)

end Tracked

/-! ## A layer -/

abbrev SavedLayer (T : Type) := Nat × List (Projection × Parameter T)

def SavedAs (wrapper : Wrapper T) (saved : SavedLayer T) : Prop :=
  wrapper.layerIdx = saved.1 ∧ wrapper.parameters = .ok saved.2

variable (storage) in
def packed (generation : Generation) (saved : SavedLayer T) : C :=
  storage.pack (archive generation saved.1 saved.2)

variable (storage) in
def entryOf (generation : Generation) (saved : SavedLayer T) : Nat × Json :=
  (saved.1, layerEntry (shardName generation saved.1) (storage.size (packed storage generation saved))
    (shapeOf saved.2))

def Stored (storage : Storage C T) (generation : Generation) (saved : List (SavedLayer T)) (files : Directory C) : Prop :=
  ∀ layer ∈ saved, files (shardName generation layer.1) = some (.file (packed storage generation layer))

/-- Some wrappers have been saved. -/
structure Progressed (storage : Storage C T) (generation : Generation) (before : Directory C) (undo : List (Verdict C))
    (done : List (Wrapper T)) (saved : List (SavedLayer T)) (progress : Progress) (process : Process C) : Prop extends
    Tracked generation before undo process where
  noTemporary : process.temporary = []
  layers : List.Forall₂ SavedAs done saved
  seen : progress.seen = (saved.map fun layer => (layer.1 : Int)).reverse
  entries : progress.entries = saved.map (entryOf storage generation)
  shards : process.created = saved.map fun layer => shardName generation layer.1
  distinct : (saved.map Prod.fst).Nodup
  stored : Stored storage generation saved process.files

section

variable {before : Directory C} {undo : List (Verdict C)} {process : Process C} {done : List (Wrapper T)}
  {saved : List (SavedLayer T)} {progress : Progress}

theorem own_shardName (generation : Generation) (layer : Nat) : Own generation (shardName generation layer) :=
  .inl ⟨layer, .inl rfl⟩

theorem own_temporaryName (generation : Generation) (layer : Nat) : Own generation (temporaryName generation layer) :=
  .inl ⟨layer, .inr rfl⟩

/-- A layer that the loop has not seen becomes the last saved one. -/
theorem Progressed.push (progressed : Progressed storage generation before undo done saved progress process)
    (fresh : Fresh generation before) {wrapper : Wrapper T} {layer : SavedLayer T} (as : SavedAs wrapper layer)
    (unseen : wrapper.layerIdx ∉ progress.seen) (verdicts : List (Verdict C)) (size : Nat)
    (isSize : size = storage.size (packed storage generation layer)) :
    Progressed storage generation before undo (done ++ [wrapper]) (saved ++ [layer])
      { seen := wrapper.layerIdx :: progress.seen
        entries := progress.entries ++
          [(layer.1, layerEntry (shardName generation layer.1) size (shapeOf layer.2))] }
      { process with
        verdicts
        files := Function.update (Function.update process.files (temporaryName generation layer.1) none)
          (shardName generation layer.1) (some (.file (packed storage generation layer)))
        created := process.created ++ [shardName generation layer.1] } := by
  have new : layer.1 ∉ saved.map Prod.fst := by
    intro member
    obtain ⟨old, isOld, same⟩ := List.mem_map.mp member
    apply unseen
    rw [progressed.seen, List.mem_reverse, List.mem_map, as.1]
    exact ⟨old, isOld, by rw [same]⟩
  exact
    { ((progressed.toTracked.rename fresh (own_temporaryName generation layer.1) (own_shardName generation layer.1)
        (packed storage generation layer)).verdicts verdicts) with
      noTemporary := progressed.noTemporary
      layers := by
        have last : List.Forall₂ SavedAs [wrapper] [layer] := .cons as .nil
        exact List.rel_append progressed.layers last
      seen := by
        rw [List.map_append, List.reverse_append, progressed.seen, as.1]
        rfl
      entries := by
        rw [List.map_append, progressed.entries, isSize]
        rfl
      shards := by
        rw [List.map_append, progressed.shards]
        rfl
      distinct := by
        rw [List.map_append, List.nodup_append]
        refine ⟨progressed.distinct, List.nodup_singleton _, ?_⟩
        intro old isOld other isOther same
        exact new (List.mem_singleton.mp isOther ▸ same ▸ isOld)
      stored := by
        intro old member
        dsimp only
        rcases List.mem_append.mp member with member | member
        · have different : shardName generation old.1 ≠ shardName generation layer.1 := by
            intro same
            exact new (shardName_injective generation same ▸ List.mem_map.mpr ⟨old, member, rfl⟩)
          rw [Function.update_of_ne different,
            Function.update_of_ne (temporaryName_ne_shardName generation layer.1 old.1).symm]
          exact progressed.stored old member
        · rw [List.mem_singleton.mp member, Function.update_self] }

/-- The state while a layer is written: `files` is what has become of the directory. -/
def Writing (storage : Storage C T) (generation : Generation) (before : Directory C) (undo : List (Verdict C))
    (done : List (Wrapper T)) (progress : Progress) (name : Name) (files : Directory C → Directory C)
    (process : Process C) : Prop :=
  ∃ saved base verdicts, Progressed storage generation before undo done saved progress base ∧
    process = { base with verdicts, temporary := [name], files := files base.files }

theorem Writing.tracked {name : Name} (own : Own generation name)
    (writing : Writing storage generation before undo done progress name id process) :
    Tracked generation before undo process := by
  obtain ⟨saved, base, verdicts, progressed, rfl⟩ := writing
  have tracked := (progressed.toTracked.listTemporary own).verdicts verdicts
  rw [progressed.noTemporary] at tracked
  exact tracked

theorem Writing.part {name : Name} (own : Own generation name)
    (writing : Writing storage generation before undo done progress name id process) (content : C) :
    Tracked generation before undo
      { process with files := Function.update process.files name (some (.file content)) } := by
  have listed : name ∈ process.temporary := by
    obtain ⟨saved, base, verdicts, progressed, rfl⟩ := writing
    exact List.mem_singleton_self name
  exact (writing.tracked own).put listed content

theorem createFile_writing {name : Name} (own : Own generation name) (content : C) :
    Meets (Writing storage generation before undo done progress name id) (createFile name content)
      (fun _ => Writing storage generation before undo done progress name
        fun files => Function.update files name (some (.file content)))
      fun _ => Tracked generation before undo := by
  apply createFile_meets
  · rintro process ⟨saved, base, verdicts, progressed, rfl⟩ rest
    exact ⟨saved, base, rest, progressed, rfl⟩
  · intro process writing rest stop left
    exact (writing.part own left).verdicts rest
  · intro process writing rest stop
    exact (writing.tracked own).verdicts rest

theorem Writing.written_tracked {name : Name} {content : C} (own : Own generation name)
    (writing : Writing storage generation before undo done progress name
      (fun files => Function.update files name (some (.file content))) process) :
    Tracked generation before undo process := by
  obtain ⟨saved, base, verdicts, progressed, rfl⟩ := writing
  have started : Writing storage generation before undo done progress name id
      { base with verdicts, temporary := [name] } := ⟨saved, base, verdicts, progressed, rfl⟩
  exact started.part own content

theorem list_writing (name : Name) :
    Meets (fun process => ∃ saved, Progressed storage generation before undo done saved progress process)
      (modify fun process => { process with temporary := process.temporary ++ [name] })
      (fun _ => Writing storage generation before undo done progress name id)
      fun (_ : Stop) => Tracked generation before undo := by
  refine Meets.modify.strengthen ?_
  rintro process ⟨saved, progressed⟩
  refine ⟨saved, process, process.verdicts, progressed, ?_⟩
  rw [progressed.noTemporary]
  rfl

theorem replace_writing {name : Name} (own : Own generation name) (target : Name) (content : C) :
    Meets (Writing storage generation before undo done progress name
        fun files => Function.update files name (some (.file content)))
      (replace name target)
      (fun _ => Writing storage generation before undo done progress name fun files =>
        Function.update (Function.update files name none) target (some (.file content)))
      fun _ => Tracked generation before undo := by
  have written : ∀ process, Writing storage generation before undo done progress name
      (fun files => Function.update files name (some (.file content))) process →
      process.files name = some (.file content) := by
    rintro process ⟨saved, base, verdicts, progressed, rfl⟩
    exact Function.update_self _ _ _
  apply replace_meets
  · intro process writing
    exact ⟨_, written process writing⟩
  · intro process writing rest other isContent
    obtain rfl : content = other := by simpa using (written process writing).symm.trans isContent
    obtain ⟨saved, base, verdicts, progressed, rfl⟩ := writing
    refine ⟨saved, base, rest, progressed, ?_⟩
    dsimp only
    rw [Function.update_idem]
  · intro process writing rest stop
    exact (writing.written_tracked own).verdicts rest

/-- The shard of the layer has its name and is listed. -/
def Renamed (storage : Storage C T) (generation : Generation) (before : Directory C) (undo : List (Verdict C))
    (done : List (Wrapper T)) (progress : Progress) (layer : SavedLayer T) (process : Process C) : Prop :=
  ∃ saved base verdicts, Progressed storage generation before undo done saved progress base ∧
    process = { base with
      verdicts
      files := Function.update (Function.update base.files (temporaryName generation layer.1) none)
        (shardName generation layer.1) (some (.file (packed storage generation layer)))
      created := base.created ++ [shardName generation layer.1] }

namespace Renamed

variable {layer : SavedLayer T}

theorem verdicts (renamed : Renamed storage generation before undo done progress layer process)
    (verdicts : List (Verdict C)) :
    Renamed storage generation before undo done progress layer { process with verdicts } := by
  obtain ⟨saved, base, _, progressed, rfl⟩ := renamed
  exact ⟨saved, base, verdicts, progressed, rfl⟩

theorem tracked (renamed : Renamed storage generation before undo done progress layer process)
    (fresh : Fresh generation before) : Tracked generation before undo process := by
  obtain ⟨saved, base, verdicts, progressed, rfl⟩ := renamed
  exact (progressed.toTracked.rename fresh (own_temporaryName generation layer.1) (own_shardName generation layer.1)
    _).verdicts verdicts

theorem shard (renamed : Renamed storage generation before undo done progress layer process) :
    process.files (shardName generation layer.1) = some (.file (packed storage generation layer)) := by
  obtain ⟨saved, base, verdicts, progressed, rfl⟩ := renamed
  exact Function.update_self _ _ _

end Renamed

theorem saveLayer_meets (fresh : Fresh generation before) (wrapper : Wrapper T) :
    Meets (fun process => ∃ saved, Progressed storage generation before undo done saved progress process)
      (saveLayer storage generation progress wrapper)
      (fun next process => ∃ saved, Progressed storage generation before undo (done ++ [wrapper]) saved next process)
      fun _ => Tracked generation before undo := by
  have checked {α : Type} (check : Except Error α) :
      Meets (fun process => ∃ saved, Progressed storage generation before undo done saved progress process) (lift check)
        (fun value process => (∃ saved, Progressed storage generation before undo done saved progress process) ∧
          check = .ok value)
        fun _ => Tracked generation before undo := by
    apply lift_meets
    · intro process holds value done
      exact ⟨holds, done⟩
    · rintro process ⟨saved, progressed⟩ error
      exact progressed.toTracked
  rw [saveLayer]
  refine (checked _).bind fun _ => .assume fun nonnegative => ?_
  refine (checked _).bind fun _ => .assume fun unseen => ?_
  refine (checked _).bind fun named => .assume fun parameters => ?_
  rw [require_ok, decide_eq_true_eq] at nonnegative
  rw [require_ok, Bool.not_eq_true', ← Bool.not_eq_true, List.contains_iff_mem] at unseen
  have as : SavedAs wrapper (wrapper.layerIdx.toNat, named) := ⟨(Int.toNat_of_nonneg nonnegative).symm, parameters⟩
  have own := own_temporaryName generation wrapper.layerIdx.toNat
  refine (list_writing _).bind fun _ => (createFile_writing own _).bind fun _ => (replace_writing own _ _).bind fun _ => ?_
  have noted : Meets (Writing storage generation before undo done progress
        (temporaryName generation wrapper.layerIdx.toNat) fun files =>
          Function.update (Function.update files (temporaryName generation wrapper.layerIdx.toNat) none)
            (shardName generation wrapper.layerIdx.toNat)
            (some (.file (packed storage generation (wrapper.layerIdx.toNat, named)))))
      (modify fun process =>
        { process with
          temporary := process.temporary.erase (temporaryName generation wrapper.layerIdx.toNat)
          created := process.created ++ [shardName generation wrapper.layerIdx.toNat] })
      (fun _ => Renamed storage generation before undo done progress (wrapper.layerIdx.toNat, named))
      fun (_ : Stop) => Tracked generation before undo := by
    refine Meets.modify.strengthen ?_
    rintro process ⟨saved, base, verdicts, progressed, rfl⟩
    refine ⟨saved, base, verdicts, progressed, ?_⟩
    dsimp only
    rw [List.erase_cons_head, progressed.noTemporary]
  refine noted.bind fun _ => ?_
  have passed : Meets (Renamed storage generation before undo done progress (wrapper.layerIdx.toNat, named)) passStep
      (fun _ => Renamed storage generation before undo done progress (wrapper.layerIdx.toNat, named))
      fun _ => Tracked generation before undo := by
    apply passStep_meets
    · intro process renamed rest
      exact renamed.verdicts rest
    · intro process renamed rest stop
      exact (renamed.tracked fresh).verdicts rest
  refine passed.bind fun _ => Meets.get.bind fun reached => ?_
  have read : Meets (fun process => reached = process ∧
        Renamed storage generation before undo done progress (wrapper.layerIdx.toNat, named) process)
      (lift (expectSome (contentOf reached.files (shardName generation wrapper.layerIdx.toNat)) .fileNotFound))
      (fun content process => Renamed storage generation before undo done progress (wrapper.layerIdx.toNat, named)
        process ∧ content = packed storage generation (wrapper.layerIdx.toNat, named))
      fun _ => Tracked generation before undo := by
    apply lift_meets
    · rintro process ⟨rfl, renamed⟩ content found
      refine ⟨renamed, ?_⟩
      rw [expectSome_ok, contentOf, renamed.shard] at found
      exact (Option.some.inj found).symm
    · rintro process ⟨-, renamed⟩ error
      exact renamed.tracked fresh
  refine read.bind fun content => .assume fun isContent => ?_
  rintro process ⟨saved, base, verdicts, progressed, rfl⟩
  exact ⟨_, progressed.push fresh as unseen verdicts _ (congrArg storage.size isContent)⟩

/-! ## The index -/

/-- The index of a save and the shards that it names are in the directory. -/
structure Indexed (storage : Storage C T) (generation : Generation) (saved : List (SavedLayer T)) (files : Directory C) :
    Prop where
  index : files indexName = some (.file (storage.dump (indexOf generation (saved.map (entryOf storage generation)))))
  stored : Stored storage generation saved files

def sortedWrappers (wrappers : List (Wrapper T)) : List (Wrapper T) :=
  wrappers.insertionSort fun left right => left.layerIdx ≤ right.layerIdx

/-- The layers that a save of the wrappers stores. -/
structure Saves (wrappers : List (Wrapper T)) (saved : List (SavedLayer T)) : Prop where
  layers : List.Forall₂ SavedAs (sortedWrappers wrappers) saved
  distinct : (saved.map Prod.fst).Nodup

structure PublishedAs (storage : Storage C T) (generation : Generation) (saved : List (SavedLayer T))
    (process : Process C) : Prop extends Indexed storage generation saved process.files where
  shards : process.created = saved.map fun layer => shardName generation layer.1
  published : process.published = true

theorem Progressed.indexed (progressed : Progressed storage generation before undo done saved progress process)
    (verdicts : List (Verdict C)) :
    PublishedAs storage generation saved
      { process with
        verdicts
        files := Function.update (Function.update process.files (temporaryIndexName generation) none) indexName
          (some (.file (storage.dump (indexOf generation progress.entries))))
        published := true } where
  index := by
    dsimp only
    rw [Function.update_self, progressed.entries]
  stored := by
    intro layer member
    have notIndex : shardName generation layer.1 ≠ indexName := fun same =>
      indexName_not_own generation (same ▸ own_shardName generation layer.1)
    dsimp only
    rw [Function.update_of_ne notIndex, Function.update_of_ne (temporaryIndexName_ne_shardName generation layer.1).symm]
    exact progressed.stored layer member
  shards := progressed.shards
  published := rfl

theorem saveBody_meets (fresh : Fresh generation before) (wrappers : List (Wrapper T)) :
    Meets (fun process => process.files = before ∧ process.undo = undo ∧ process.temporary = [] ∧ process.created = [] ∧
        process.published = false)
      (saveBody storage generation wrappers)
      (fun _ process => ∃ saved, Saves wrappers saved ∧ PublishedAs storage generation saved process)
      fun _ => Tracked generation before undo := by
  have own : Own generation (temporaryIndexName generation) := .inr rfl
  have loop : Meets
      (fun process => ∃ saved, Progressed storage generation before undo [] saved ⟨[], []⟩ process)
      ((sortedWrappers wrappers).foldlM (saveLayer storage generation) ⟨[], []⟩)
      (fun progress process =>
        ∃ saved, Progressed storage generation before undo (sortedWrappers wrappers) saved progress process)
      fun _ => Tracked generation before undo :=
    Meets.foldlM (fun done progress process =>
        ∃ saved, Progressed storage generation before undo done saved progress process) (sortedWrappers wrappers) ⟨[], []⟩
      fun _ wrapper _ _ _ => saveLayer_meets fresh wrapper
  rw [saveBody]
  refine (loop.strengthen ?_).bind fun progress => ?_
  · rintro ⟨files, verdicts, undo, temporary, created, published⟩ ⟨rfl, rfl, rfl, rfl, rfl⟩
    exact ⟨[], { Tracked.start fresh verdicts with
      noTemporary := rfl
      layers := .nil
      seen := rfl
      entries := rfl
      shards := rfl
      distinct := List.nodup_nil
      stored := by simp [Stored] }⟩
  refine (list_writing _).bind fun _ => (createFile_writing own _).bind fun _ => (replace_writing own _ _).bind fun _ => ?_
  refine Meets.modify.strengthen ?_
  rintro process ⟨saved, base, verdicts, progressed, rfl⟩
  refine ⟨saved, ⟨progressed.layers, progressed.distinct⟩, ?_⟩
  have indexed := progressed.indexed verdicts
  exact ⟨indexed.toIndexed, indexed.shards, indexed.published⟩

/-! ## The error path -/

/-- No removal of the error path is refused. -/
def Unrefused (undo : List (Verdict C)) : Prop :=
  ∀ verdict ∈ undo, ∀ left, verdict ≠ .raises left

/-- The save's own files may be there, and the index is the old one. -/
structure Unpublished (generation : Generation) (before : Directory C) (process : Process C) : Prop where
  elsewhere : ∀ name, ¬Own generation name → process.files name = before name
  published : process.published = false

structure Undoing (generation : Generation) (before : Directory C) (left : List Name) (process : Process C) : Prop where
  listed : ∀ name ∈ left, Own generation name
  others : ∀ name, name ∉ left → process.files name = before name
  plain : ∀ name, Own generation name → process.files name = none ∨ ∃ content, process.files name = some (.file content)
  unrefused : Unrefused process.undo
  published : process.published = false

theorem Undoing.unpublished {left : List Name} (undoing : Undoing generation before left process) :
    Unpublished generation before process where
  elsewhere := fun name notOwn => undoing.others name fun member => notOwn (undoing.listed name member)
  published := undoing.published

theorem Tracked.undoing (tracked : Tracked generation before undo process) (unrefused : Unrefused undo) :
    Undoing generation before (process.temporary ++ process.created) process where
  listed := by
    intro name member
    rcases List.mem_append.mp member with isTemporary | isCreated
    · exact tracked.temporary name isTemporary
    · exact tracked.created name isCreated
  others := by
    intro name notMember
    rw [List.mem_append, not_or] at notMember
    exact tracked.others name notMember.1 notMember.2
  plain := tracked.plain
  unrefused := tracked.undo ▸ unrefused
  published := tracked.published

/-- A removal of the error path is done, or the process is killed at it. -/
theorem removeUndone_meets (fresh : Fresh generation before) {name : Name} {left : List Name} :
    Meets (Undoing generation before (name :: left)) (removeUndone storage name) (fun _ => Undoing generation before left)
      fun stop process => stop = .killed ∧ Unpublished generation before process := by
  rintro ⟨files, verdicts, undo, temporary, created, published⟩ undoing
  have own := undoing.listed name List.mem_cons_self
  have encodes : storage.encodes name = true := encodes_own own
  have removed (rest : List (Verdict C)) (isRest : ∀ verdict ∈ rest, verdict ∈ undo) :
      Undoing generation before left
        ⟨Function.update files name none, verdicts, rest, temporary, created, published⟩ :=
    { listed := fun other member => undoing.listed other (List.mem_cons_of_mem _ member)
      others := by
        intro other notMember
        dsimp only
        by_cases same : other = name
        · rw [same, Function.update_self, fresh name own]
        · rw [Function.update_of_ne same]
          exact undoing.others other (by simp [same, notMember])
      plain := by
        intro other isOwn
        dsimp only
        by_cases same : other = name
        · rw [same, Function.update_self]
          exact .inl rfl
        · rw [Function.update_of_ne same]
          exact undoing.plain other isOwn
      unrefused := fun verdict member => undoing.unrefused verdict (isRest verdict member)
      published := undoing.published }
  rcases undo with - | ⟨verdict, rest⟩
  · have run : removeUndone storage name ⟨files, verdicts, [], temporary, created, published⟩ =
        ignoring isFileNotFound (removeWith storage.encodes name (.killed none))
          ⟨files, verdicts, [], temporary, created, published⟩ := rfl
    rw [run, removeWith.eq_def, if_pos encodes]
    exact ⟨rfl, undoing.unpublished⟩
  · have run : removeUndone storage name ⟨files, verdicts, verdict :: rest, temporary, created, published⟩ =
        ignoring isFileNotFound (removeWith storage.encodes name verdict)
          ⟨files, verdicts, rest, temporary, created, published⟩ := rfl
    rw [run, removeWith.eq_def, if_pos encodes]
    cases verdict with
    | raises part => exact absurd rfl (undoing.unrefused _ List.mem_cons_self part)
    | killed part => exact ⟨rfl, ⟨undoing.unpublished.elsewhere, undoing.published⟩⟩
    | done =>
        have gone := removed rest fun verdict member => List.mem_cons_of_mem _ member
        rcases undoing.plain name own with absent | ⟨content, isFile⟩
        · dsimp only at absent
          simp only [ignoring, dropEntry, absent, isFileNotFound, if_true]
          rw [← absent, Function.update_eq_self] at gone
          exact gone
        · dsimp only at isFile
          simp only [ignoring, dropEntry, isFile]
          exact gone

theorem removeAllUndone_meets (fresh : Fresh generation before) (names left : List Name) :
    Meets (Undoing generation before (names ++ left)) (names.forM (removeUndone storage))
      (fun _ => Undoing generation before left)
      fun stop process => stop = .killed ∧ Unpublished generation before process := by
  induction names with
  | nil => exact fun _ holds => holds
  | cons name names rest => exact (removeUndone_meets fresh).bind fun _ => rest

/-- An error of the body leaves the directory as it was. -/
theorem undoing_meets {pre : Process C → Prop} {post : Unit → Process C → Prop} {body : Program C Unit}
    (fresh : Fresh generation before) (unrefused : Unrefused undo)
    (meets : Meets pre body post fun _ => Tracked generation before undo) :
    Meets pre (undoing storage body) post fun stop process => Unpublished generation before process ∧
      (stop = .killed ∨ process.files = before) := by
  intro process holds
  have ran := meets process holds
  rw [undoing]
  cases result : body process with
  | ok value after =>
      rw [result] at ran
      exact ran
  | error stop after =>
      rw [result] at ran
      cases stop with
      | killed =>
          refine ⟨⟨fun name notOwn => ?_, ran.published⟩, .inl rfl⟩
          exact ran.elsewhere notOwn
      | raised error =>
          have undone : Meets (Undoing generation before (after.temporary ++ (after.created ++ [])))
              (do
                after.temporary.forM (removeUndone storage)
                after.created.forM (removeUndone storage)
                raise error : Program C Unit)
              post
              fun stop process => Unpublished generation before process ∧ (stop = .killed ∨ process.files = before) := by
            have removed (names left : List Name) :
                Meets (Undoing generation before (names ++ left)) (names.forM (removeUndone storage))
                  (fun _ => Undoing generation before left)
                  fun stop process => Unpublished generation before process ∧
                    (stop = .killed ∨ process.files = before) :=
              (removeAllUndone_meets fresh names left).weaken (fun _ _ holds => holds)
                fun stop process faulted => ⟨faulted.2, .inl faulted.1⟩
            refine (removed _ _).bind fun _ => (removed _ _).bind fun _ => ?_
            refine Meets.throw.strengthen ?_
            intro process undoing
            exact ⟨undoing.unpublished, .inr (funext fun name => undoing.others name List.not_mem_nil)⟩
          have start := ran.undoing unrefused
          rw [← List.append_nil after.created] at start
          exact undone after start

/-! ## Superseded shards -/

/-- A file name that may be removed: not the index's own, and one that the file system can encode. -/
def SafeEntry (storage : Storage C T) (entry : Json) : Prop :=
  ∀ fields name, asObject entry = some fields → safeShardName (Json.get "file".toList fields) = some name →
    name ≠ indexName ∧ storage.encodes name = true

/-- No entry of the index, when it can be read, names the index itself or a name that cannot be encoded. -/
def SafeIndex (storage : Storage C T) (files : Directory C) : Prop :=
  ∀ generation layers, readIndex storage files = .ok (generation, layers) → ∀ entry ∈ layers, SafeEntry storage entry.2

theorem PublishedAs.drop (published : PublishedAs storage generation saved process) {name : Name}
    (notCreated : name ∉ process.created) (notIndex : name ≠ indexName) :
    PublishedAs storage generation saved { process with files := Function.update process.files name none } where
  index := by
    dsimp only
    rw [Function.update_of_ne notIndex.symm]
    exact published.index
  stored := by
    intro layer member
    have different : shardName generation layer.1 ≠ name := by
      rintro rfl
      exact notCreated (published.shards ▸ List.mem_map.mpr ⟨layer, member, rfl⟩)
    dsimp only
    rw [Function.update_of_ne different]
    exact published.stored layer member
  shards := published.shards
  published := published.published

theorem PublishedAs.verdicts (published : PublishedAs storage generation saved process) (verdicts : List (Verdict C)) :
    PublishedAs storage generation saved { process with verdicts } :=
  { published with }

theorem supersededName_eq_some {created : List Name} {entry : Json} (found : supersededName created entry = some name) :
    name ∉ created ∧ ∃ fields, asObject entry = some fields ∧
      safeShardName (Json.get "file".toList fields) = some name := by
  rw [supersededName, Option.bind_eq_some_iff] at found
  obtain ⟨candidate, named, kept⟩ := found
  obtain ⟨fields, isObject, isName⟩ := Option.bind_eq_some_iff.mp named
  split at kept
  · cases kept
  · rename_i notCreated
    obtain rfl := Option.some.inj kept
    exact ⟨fun member => notCreated (List.contains_iff_mem.mpr member), fields, isObject, isName⟩

/-- What `removeSuperseded` does once the name is known. -/
def removeNamed (storage : Storage C T) : Option (List Char) → Program C Unit
  | none => pure ()
  | some name => ignoring isOsError do removeWith storage.encodes name (← nextVerdict)

theorem removeSuperseded_meets {entry : Json} (safe : SafeEntry storage entry) :
    Meets (PublishedAs storage generation saved) (removeSuperseded storage entry)
      (fun _ => PublishedAs storage generation saved)
      fun stop process => stop = .killed ∧ PublishedAs storage generation saved process := by
  rintro ⟨files, verdicts, undo, temporary, created, published⟩ holds
  cases named : supersededName created entry with
  | none =>
      have run : removeSuperseded storage entry ⟨files, verdicts, undo, temporary, created, published⟩ =
          .ok () ⟨files, verdicts, undo, temporary, created, published⟩ := by
        change removeNamed storage (supersededName created entry) _ = _
        rw [named]
        rfl
      rw [run]
      exact holds
  | some name =>
      obtain ⟨notCreated, fields, isObject, isName⟩ := supersededName_eq_some named
      obtain ⟨notIndex, encodes⟩ := safe fields name isObject isName
      have run : removeSuperseded storage entry ⟨files, verdicts, undo, temporary, created, published⟩ =
          ignoring isOsError (do removeWith storage.encodes name (← nextVerdict))
            ⟨files, verdicts, undo, temporary, created, published⟩ := by
        change removeNamed storage (supersededName created entry) _ = _
        rw [named]
        rfl
      rw [run]
      rcases verdicts with - | ⟨verdict, rest⟩
      · have killed : (do removeWith storage.encodes name (← nextVerdict) : Program C Unit)
            ⟨files, [], undo, temporary, created, published⟩ =
            removeWith storage.encodes name (.killed none) ⟨files, [], undo, temporary, created, published⟩ := rfl
        rw [ignoring, killed, removeWith.eq_def, if_pos encodes]
        exact ⟨rfl, holds⟩
      · have next : (do removeWith storage.encodes name (← nextVerdict) : Program C Unit)
            ⟨files, verdict :: rest, undo, temporary, created, published⟩ =
            removeWith storage.encodes name verdict ⟨files, rest, undo, temporary, created, published⟩ := rfl
        rw [ignoring, next, removeWith.eq_def, if_pos encodes]
        have kept := holds.verdicts rest
        cases verdict with
        | raises part => exact kept
        | killed part => exact ⟨rfl, kept⟩
        | done =>
            have dropped := kept.drop notCreated notIndex
            cases found : files name with
            | none =>
                simp only [dropEntry, found, isOsError, if_true]
                exact kept
            | some old =>
                cases old with
                | directory =>
                    simp only [dropEntry, found, isOsError, if_true]
                    exact kept
                | file content =>
                    simp only [dropEntry, found]
                    exact dropped
                | link target =>
                    simp only [dropEntry, found]
                    exact dropped

theorem removeAllSuperseded_meets {entries : List Json} (safe : ∀ entry ∈ entries, SafeEntry storage entry) :
    Meets (PublishedAs storage generation saved) (entries.forM (removeSuperseded storage))
      (fun _ => PublishedAs storage generation saved)
      fun stop process => stop = .killed ∧ PublishedAs storage generation saved process := by
  induction entries with
  | nil => exact fun _ holds => holds
  | cons entry entries rest =>
      exact (removeSuperseded_meets (safe entry List.mem_cons_self)).bind fun _ =>
        rest fun other member => safe other (List.mem_cons_of_mem _ member)

/-! ## A whole save -/

/-- A process before its save. -/
def Starting (before : Directory C) (undo : List (Verdict C)) (process : Process C) : Prop :=
  process.files = before ∧ process.undo = undo ∧ process.temporary = [] ∧ process.created = [] ∧ process.published = false

theorem Starting.unpublished (starting : Starting before undo process) : Unpublished generation before process where
  elsewhere := fun name _ => by rw [starting.1]
  published := starting.2.2.2.2

/-- What `previousLayers` does once it has looked for the index. -/
def layersFrom (storage : Storage C T) (files : Directory C) : Option C → Program C Fields
  | none => pure []
  | some _ => do
      match ← nextVerdict with
      | .done => pure (layersOf (readIndex storage files))
      | .raises _ => pure []
      | .killed _ => throw .killed

theorem previousLayers_meets (safe : SafeIndex storage before) :
    Meets (Starting before undo) (previousLayers storage)
      (fun layers process => Starting before undo process ∧ ∀ entry ∈ layers.map Prod.snd, SafeEntry storage entry)
      fun stop process => stop = .killed ∧ Starting before undo process := by
  rintro ⟨files, verdicts, undo, _, _, _⟩ ⟨rfl, rfl, rfl, rfl, rfl⟩
  have run : previousLayers storage ⟨files, verdicts, undo, [], [], false⟩ =
      layersFrom storage files (contentOf files indexName) ⟨files, verdicts, undo, [], [], false⟩ := rfl
  have safeLayers : ∀ entry ∈ (layersOf (readIndex storage files)).map Prod.snd, SafeEntry storage entry := by
    intro entry member
    cases index : readIndex storage files with
    | error error =>
        rw [index] at member
        cases member
    | ok found =>
        rw [index] at member
        obtain ⟨named, isLayer, rfl⟩ := List.mem_map.mp member
        exact safe found.1 found.2 index named isLayer
  rw [run]
  cases contentOf files indexName with
  | none => exact ⟨⟨rfl, rfl, rfl, rfl, rfl⟩, by simp⟩
  | some content =>
      rcases verdicts with - | ⟨verdict, rest⟩
      · exact ⟨rfl, rfl, rfl, rfl, rfl, rfl⟩
      · cases verdict with
        | raises left => exact ⟨⟨rfl, rfl, rfl, rfl, rfl⟩, by simp⟩
        | killed left => exact ⟨rfl, rfl, rfl, rfl, rfl, rfl⟩
        | done => exact ⟨⟨rfl, rfl, rfl, rfl, rfl⟩, safeLayers⟩

/-- What a save has done when it returns. -/
def Returned (storage : Storage C T) (generation : Generation) (before : Directory C) (wrappers : List (Wrapper T))
    (process : Process C) : Prop :=
  (process.files = before ∧ process.published = false) ∨
    ∃ saved, Saves (fullWeightWrappers wrappers) saved ∧ PublishedAs storage generation saved process

/-- What a save has done when it raises or is killed. -/
def Stopped (storage : Storage C T) (generation : Generation) (before : Directory C) (wrappers : List (Wrapper T))
    (stop : Stop) (process : Process C) : Prop :=
  (Unpublished generation before process ∧ (stop = .killed ∨ process.files = before)) ∨
    (stop = .killed ∧ ∃ saved, Saves (fullWeightWrappers wrappers) saved ∧
      PublishedAs storage generation saved process)

theorem save_meets (fresh : Fresh generation before) (safe : SafeIndex storage before) (unrefused : Unrefused undo)
    (wrappers : List (Wrapper T)) (rank : Nat) :
    Meets (Starting before undo) (saveFullWeightCheckpoint storage wrappers rank generation)
      (fun _ => Returned storage generation before wrappers)
      (Stopped storage generation before wrappers) := by
  have nothing : Meets (Starting before undo) (pure false : Program C Bool)
      (fun _ => Returned storage generation before wrappers) (Stopped storage generation before wrappers) :=
    fun process starting => .inl ⟨starting.1, starting.2.2.2.2⟩
  rw [saveFullWeightCheckpoint]
  split
  · exact nothing
  · split
    · exact nothing
    · have started : Meets (Starting before undo) passStep (fun _ => Starting before undo)
          (Stopped storage generation before wrappers) := by
        apply passStep_meets
        · intro process starting rest
          exact starting
        · intro process starting rest stop
          exact .inl ⟨⟨starting.unpublished.elsewhere, starting.2.2.2.2⟩, .inr starting.1⟩
      have read : Meets (Starting before undo) (previousLayers storage)
          (fun layers process => Starting before undo process ∧
            ∀ entry ∈ layers.map Prod.snd, SafeEntry storage entry)
          (Stopped storage generation before wrappers) :=
        (previousLayers_meets safe).weaken (fun _ _ holds => holds)
          fun stop process faulted => .inl ⟨faulted.2.unpublished, .inl faulted.1⟩
      have body : Meets (Starting before undo)
          (undoing storage (saveBody storage generation (fullWeightWrappers wrappers)))
          (fun _ process => ∃ saved, Saves (fullWeightWrappers wrappers) saved ∧
            PublishedAs storage generation saved process)
          (Stopped storage generation before wrappers) :=
        (undoing_meets fresh unrefused (saveBody_meets fresh _)).weaken (fun _ _ holds => holds)
          fun stop process faulted => .inl faulted
      have cleaned {entries : List Json} (safe : ∀ entry ∈ entries, SafeEntry storage entry) :
          Meets (fun process => ∃ saved, Saves (fullWeightWrappers wrappers) saved ∧
              PublishedAs storage generation saved process)
            (entries.forM (removeSuperseded storage))
            (fun _ process => ∃ saved, Saves (fullWeightWrappers wrappers) saved ∧
              PublishedAs storage generation saved process)
            (Stopped storage generation before wrappers) := by
        rintro process ⟨saved, saves, published⟩
        have meets := (removeAllSuperseded_meets safe).weaken
          (fun _ process holds => (⟨saved, saves, holds⟩ : ∃ saved, Saves (fullWeightWrappers wrappers) saved ∧
            PublishedAs storage generation saved process))
          fun stop process faulted => (.inr ⟨faulted.1, saved, saves, faulted.2⟩ :
            Stopped storage generation before wrappers stop process)
        exact meets process published
      refine started.bind fun _ => read.bind fun previous => .assume fun safeLayers => body.bind fun _ =>
        (cleaned safeLayers).bind fun _ => ?_
      exact fun process published => .inr published

end

end KtKernel.Sft.Checkpoint
