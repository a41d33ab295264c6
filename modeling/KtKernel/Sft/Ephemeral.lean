import Mathlib.Data.Char
import Mathlib.Data.List.Lex
import Mathlib.Data.List.Dedup
import Mathlib.Data.List.Sort
import KtKernel.Data.Json
import KtKernel.Sft.WeightNames

namespace KtKernel.Sft.Ephemeral

open KtKernel.Data

/-! `publish_ephemeral_int8_weights` on the entries of `/dev/shm`.

The steps that may fail outside the program (removing the lease, listing the
tree, creating, writing and renaming the manifest, renaming the root) are known
by whether they do. -/

def manifestName : Name := "kt-ephemeral-manifest.json".toList

def stagingLeaseName : Name := "kt-ephemeral-staging-lease.json".toList

def temporaryName (pid : Nat) : Name :=
  ".kt-ephemeral-manifest.json.".toList ++ decimal pid ++ ".tmp".toList

def schemaVersion : Int := 1

/-- The contents of files: their sizes and Python's `json` on them. -/
structure Format (C : Type) where
  size : C → Nat
  load : C → Option Json
  dump : Json → C

inductive Error where
  | dimensions
  | runId
  | notAbsolute
  | rootName
  | rootSymlink
  | rootMissing
  | notDirectChild
  | owner
  | writable
  | unsafeLease
  | leaseText
  | leaseMismatch (key : List Char)
  | rootEntries
  | unsafeLayer (layer : Int)
  | outsideNuma (layer : Int)
  | numaDirectories (layer : Int)
  | numaSymlink (layer : Int) (numa : Nat)
  | nonRegular (name : Name)
  | filename (name : Name)
  | expertRange (layer : Int) (expert : Nat)
  | duplicate (layer : Int) (name : Name)
  | emptyFile (name : Name)
  | missing (layer : Int)
  | noLayer
  | readyExists
  | os
deriving DecidableEq, Repr

/-- What the checks of a root look at besides its entries. -/
structure RootStat where
  isAbsolute : Bool
  name : Name
  isSymlink : Bool
  isDirectChild : Bool
  uid : Nat
  isGroupOrWorldWritable : Bool

/-- The staging root and the ready root of a run. -/
structure Shm (C : Type) where
  staging : Option (Node C)
  ready : Option (Node C)

structure Call where
  root : RootStat
  runId : List Char
  layerIndices : List Int
  numaCount : Int
  expertNum : Int
  hiddenSize : Int
  intermediateSize : Int
  uid : Nat
  pid : Nat
  timeNs : Nat

structure Faults (C : Type) where
  unlinkLease : Bool
  readTree : Bool
  openTemporary : Bool
  writeTemporary : Option C
  replaceManifest : Bool
  replaceRoot : Bool

/-! ## The checks before the first step -/

def isRunIdStart (char : Char) : Bool :=
  char.isAlphanum

def isRunIdChar (char : Char) : Bool :=
  char.isAlphanum || char == '.' || char == '_' || char == '-'

def isRunId (runId : List Char) : Bool :=
  match runId with
  | [] => false
  | char :: rest => isRunIdStart char && decide (5 ≤ rest.length ∧ rest.length ≤ 127) && rest.all isRunIdChar

def rootName (runId : List Char) (staging : Bool) : Name :=
  "kt-int8-".toList ++ runId ++ if staging then ".staging".toList else []

def validateOwnedRoot (runId : List Char) (uid : Nat) (staging : Bool) (root : RootStat) (node : Option (Node C)) :
    Except Error Unit :=
  if !isRunId runId then .error .runId
  else if !root.isAbsolute then .error .notAbsolute
  else if root.name ≠ rootName runId staging then .error .rootName
  else if root.isSymlink then .error .rootSymlink
  else if node.isNone then .error .rootMissing
  else if !root.isDirectChild then .error .notDirectChild
  else if root.uid ≠ uid then .error .owner
  else if root.isGroupOrWorldWritable then .error .writable
  else .ok ()

section

variable {C : Type} (format : Format C)

/-- Whether there is a lease to remove. -/
def checkLease (runId : List Char) (uid : Nat) (entries : Listing C) : Except Error Bool :=
  match entries.find stagingLeaseName with
  | none => .ok false
  | some (.file content) =>
    match format.load content with
    | some (.object lease) =>
      if !(Json.get "schema_version".toList lease).equalsInt schemaVersion then
        .error (.leaseMismatch "schema_version".toList)
      else if !(Json.get "run_id".toList lease).equalsText runId then .error (.leaseMismatch "run_id".toList)
      else if !(Json.get "owner_uid".toList lease).equalsInt uid then .error (.leaseMismatch "owner_uid".toList)
      else .ok true
    | _ => .error .leaseText
  | some _ => .error .unsafeLease

/-- The entries of a staging root whose call may go ahead, and whether there is a
lease to remove. -/
def checkCall (call : Call) (shm : Shm C) : Except Error (Listing C × Bool) := do
  if call.numaCount ≤ 0 ∨ call.expertNum ≤ 0 ∨ call.hiddenSize ≤ 0 ∨ call.intermediateSize ≤ 0 then .error .dimensions
  validateOwnedRoot call.runId call.uid true call.root shm.staging
  match shm.staging with
  | some (.directory entries) =>
    let lease ← checkLease format call.runId call.uid entries
    pure (entries, lease)
  | _ => .error .os

/-! ## The scan -/

structure FileRecord where
  path : List Name
  sizeBytes : Nat
deriving DecidableEq, Repr

structure LayerRecord where
  index : Int
  numaCount : Nat
  state : List Char
  files : List FileRecord
  bytes : Nat

/-- The end of a file name: anything on one line, then the kind. -/
def takeSuffix (text : List Char) : Option Section :=
  [Section.quant, .scale].find? fun kind =>
    let suffix := "Byte_".toList ++ kind.text ++ "_.kt".toList
    suffix.isSuffixOf text && !(text.take (text.length - suffix.length)).contains '\n'

/-- `_KT_FILE_RE`. -/
def matchFile (name : Name) : Option (Projection × List Char × Section) := do
  let rest ← after "INT8_".toList name
  let (projection, rest) ← takeProjection rest
  let rest ← after "_".toList rest
  let (digits, rest) ← takeDigits rest
  let rest ← after "_".toList rest
  let kind ← takeSuffix rest
  pure (projection, digits, kind)

def scanFile (layer : Int) (numa expertNum : Nat) (found : List Identity × List FileRecord) (entry : Name × Node C) :
    Except Error (List Identity × List FileRecord) :=
  match entry.2 with
  | .file content =>
    match matchFile entry.1 with
    | none => .error (.filename entry.1)
    | some (projection, digits, kind) =>
      let identity := (numa, projection, intOf digits, kind)
      if expertNum ≤ intOf digits then .error (.expertRange layer (intOf digits))
      else if identity ∈ found.1 then .error (.duplicate layer entry.1)
      else if format.size content = 0 then .error (.emptyFile entry.1)
      else .ok (identity :: found.1, found.2 ++ [⟨[layerName layer, numaName numa, entry.1], format.size content⟩])
  | _ => .error (.nonRegular entry.1)

def scanNuma (layer : Int) (expertNum : Nat) (entries : Listing C) (found : List Identity × List FileRecord)
    (numa : Nat) : Except Error (List Identity × List FileRecord) :=
  match entries.find (numaName numa) with
  | some (.directory files) => files.foldlM (scanFile format layer numa expertNum) found
  | _ => .error (.numaSymlink layer numa)

def sortedByPath (files : List FileRecord) : List FileRecord :=
  files.insertionSort fun left right => posix left.path ≤ posix right.path

def scanLayer (root : Listing C) (numaCount expertNum : Nat) (layer : Int) : Except Error LayerRecord :=
  match root.find (layerName layer) with
  | some (.directory entries) =>
    if entries.any fun entry => !entry.2.isDir then .error (.outsideNuma layer)
    else if !Listing.sameNames (Listing.names entries) ((List.range numaCount).map numaName) then
      .error (.numaDirectories layer)
    else
      match (List.range numaCount).foldlM (scanNuma format layer expertNum entries) ([], []) with
      | .error error => .error error
      | .ok (observed, files) =>
        if (expectedIdentities numaCount expertNum).any (! observed.contains ·) then .error (.missing layer)
        else
          .ok
            { index := layer
              numaCount
              state := "ready".toList
              files := sortedByPath files
              bytes := (files.map FileRecord.sizeBytes).sum }
  | _ => .error (.unsafeLayer layer)

def uniqueLayers (layers : List Int) : List Int :=
  layers.dedup.insertionSort (· ≤ ·)

/-- The records of the layers of a staging root without its lease. -/
def inspect (faults : Faults C) (call : Call) (entries : Listing C) : Except Error (List LayerRecord) :=
  let layers := uniqueLayers call.layerIndices
  if faults.readTree then .error .os
  else if !Listing.sameNames entries.names (layers.map layerName) then .error .rootEntries
  else
    match layers.mapM (scanLayer format entries call.numaCount.toNat call.expertNum.toNat) with
    | .error error => .error error
    | .ok [] => .error .noLayer
    | .ok records => .ok records

def FileRecord.toJson (file : FileRecord) : Json :=
  .object [("path".toList, .string (posix file.path)), ("size_bytes".toList, .int file.sizeBytes)]

def LayerRecord.toJson (layer : LayerRecord) : Json :=
  .object
    [("index".toList, .int layer.index), ("numa_count".toList, .int layer.numaCount),
      ("state".toList, .string layer.state), ("files".toList, .array (layer.files.map FileRecord.toJson)),
      ("bytes".toList, .int layer.bytes)]

def manifest (call : Call) (layers : List LayerRecord) : Json :=
  .object
    [("schema_version".toList, .int schemaVersion), ("state".toList, .string "ready".toList),
      ("run_id".toList, .string call.runId), ("owner_uid".toList, .int call.uid),
      ("producer_pid".toList, .int call.pid), ("created_unix_ns".toList, .int call.timeNs),
      ("expert_weight_format".toList, .string "int8".toList), ("backend".toList, .string "AMXINT8".toList),
      ("threadpool_count".toList, .int call.numaCount), ("expert_num".toList, .int call.expertNum),
      ("hidden_size".toList, .int call.hiddenSize), ("intermediate_size".toList, .int call.intermediateSize),
      ("layers".toList, .array (layers.map LayerRecord.toJson)),
      ("bytes".toList, .int (layers.map LayerRecord.bytes).sum)]

/-- `_atomic_write_manifest`: what is left in the root, and whether the write
came through. -/
def atomicWriteManifest (faults : Faults C) (pid : Nat) (content : C) (entries : Listing C) : Listing C × Bool :=
  if faults.openTemporary ∨ (entries.find (temporaryName pid)).isSome then (entries, false)
  else
    match faults.writeTemporary with
    | some part => (entries.create (temporaryName pid) part, false)
    | none =>
      if faults.replaceManifest then (entries.create (temporaryName pid) content, false)
      else (((entries.create (temporaryName pid) content).unlink (temporaryName pid)).create manifestName content, true)

def publish (faults : Faults C) (call : Call) (shm : Shm C) : Shm C × Except Error Name :=
  match checkCall format call shm with
  | .error error => (shm, .error error)
  | .ok (before, lease) =>
    if lease ∧ faults.unlinkLease then (shm, .error .os)
    else
      let entries := if lease then before.unlink stagingLeaseName else before
      match inspect format faults call entries with
      | .error error => ({ shm with staging := some (.directory entries) }, .error error)
      | .ok layers =>
        let (written, done) :=
          atomicWriteManifest faults call.pid (format.dump (manifest call layers)) entries
        if !done then ({ shm with staging := some (.directory written) }, .error .os)
        else if shm.ready.isSome then ({ shm with staging := some (.directory written) }, .error .readyExists)
        else if faults.replaceRoot then ({ shm with staging := some (.directory written) }, .error .os)
        else ({ staging := none, ready := some (.directory written) }, .ok (rootName call.runId false))

end

/-! ## What a scan finds -/

section

variable {C : Type} {format : Format C} {faults : Faults C} {call : Call}

def sized (format : Format C) (leaves : List (List Name × Option C)) : List (List Name × Option Nat) :=
  leaves.map fun leaf => (leaf.1, leaf.2.map format.size)

def listed (files : List FileRecord) : List (List Name × Option Nat) :=
  files.map fun file => (file.path, some file.sizeBytes)

theorem sized_append (left right : List (List Name × Option C)) :
    sized format (left ++ right) = sized format left ++ sized format right :=
  List.map_append

theorem listed_append (left right : List FileRecord) : listed (left ++ right) = listed left ++ listed right :=
  List.map_append

theorem scanFile_ok (scanned : scanFile format layer numa expertNum found entry = .ok result) :
    listed result.2 =
      listed found.2 ++ sized format (entry.2.leaves ([layerName layer, numaName numa] ++ [entry.1])) := by
  obtain ⟨name, node⟩ := entry
  cases node with
  | file content =>
      simp only [scanFile] at scanned
      split at scanned
      · cases scanned
      · split at scanned
        · cases scanned
        · split at scanned
          · cases scanned
          · split at scanned
            · cases scanned
            · rw [← Except.ok.inj scanned, listed_append, Node.leaves]
              rfl
  | directory entries => cases scanned
  | link leadsTo => cases scanned

theorem scanFiles_ok {files : Listing C} (scanned : files.foldlM (scanFile format layer numa expertNum) found = .ok result) :
    listed result.2 =
      listed found.2 ++ sized format (Node.leavesOf [layerName layer, numaName numa] files) := by
  induction files generalizing found with
  | nil =>
      rw [← Except.ok.inj scanned, Node.leavesOf]
      exact (List.append_nil _).symm
  | cons entry files rest =>
      rw [List.foldlM_cons] at scanned
      cases first : scanFile format layer numa expertNum found entry with
      | error error =>
          rw [first] at scanned
          cases scanned
      | ok next =>
          rw [first] at scanned
          rw [rest scanned, scanFile_ok first, Node.leavesOf, sized_append, List.append_assoc]

theorem scanNumas_ok {entries : Listing C} {numas : List Nat}
    (scanned : numas.foldlM (scanNuma format layer expertNum entries) found = .ok result) :
    listed result.2 = listed found.2 ++ sized format (numas.flatMap fun numa =>
      (entries.find (numaName numa)).elim [] (Node.leaves ([layerName layer] ++ [numaName numa]))) := by
  induction numas generalizing found with
  | nil =>
      rw [← Except.ok.inj scanned]
      exact (List.append_nil _).symm
  | cons numa numas rest =>
      rw [List.foldlM_cons] at scanned
      cases first : scanNuma format layer expertNum entries found numa with
      | error error =>
          rw [first] at scanned
          cases scanned
      | ok next =>
          rw [first] at scanned
          rw [rest scanned, List.flatMap_cons, sized_append, ← List.append_assoc]
          congr 1
          simp only [scanNuma] at first
          split at first
          · rename_i files directory
            rw [directory, scanFiles_ok first]
            rfl
          · cases first

theorem sortedByPath_perm (files : List FileRecord) : (listed (sortedByPath files)).Perm (listed files) :=
  (List.perm_insertionSort _ files).map _

theorem scanLayer_ok {root : Listing C} (wellFormed : Node.AllWellFormed root)
    (scanned : scanLayer format root numaCount expertNum layer = .ok record) :
    (listed record.files).Perm (sized format ((root.find (layerName layer)).elim [] (Node.leaves [layerName layer]))) := by
  rw [scanLayer] at scanned
  split at scanned
  · rename_i entries found
    have distinct : (Listing.names entries).Nodup := by
      have own := (wellFormed.of_mem (Listing.mem_of_find found)).2
      rw [Node.WellFormed] at own
      exact own.1
    rw [found]
    split at scanned
    · cases scanned
    · split at scanned
      · cases scanned
      · rename_i same
        split at scanned
        · cases scanned
        · rename_i observed files folded
          split at scanned
          · cases scanned
          · rw [← Except.ok.inj scanned]
            refine (sortedByPath_perm files).trans ?_
            have counted := scanNumas_ok folded
            dsimp only at counted
            rw [counted]
            change (sized format _).Perm (sized format (Node.leavesOf [layerName layer] entries))
            refine List.Perm.map _ (List.Perm.symm ?_)
            have perm := Listing.leavesOf_perm distinct
              (List.nodup_range.map numaName_injective) (by simpa using same) [layerName layer]
            rw [List.flatMap_map] at perm
            exact perm
  · cases scanned

end

/-! ## The names of a root -/

theorem layerName_ne (index : Int) : layerName index ≠ manifestName ∧ layerName index ≠ stagingLeaseName ∧
    ∀ pid, layerName index ≠ temporaryName pid := by
  have head : (layerName index).head? = some '_' := rfl
  refine ⟨?_, ?_, ?_⟩
  · intro same
    rw [same] at head
    exact absurd head (by decide)
  · intro same
    rw [same] at head
    exact absurd head (by decide)
  · intro pid same
    rw [same] at head
    cases head

theorem uniqueLayers_nodup (layers : List Int) : (uniqueLayers layers).Nodup :=
  (List.perm_insertionSort _ _).nodup_iff.mpr (List.nodup_dedup layers)

section

variable {C : Type} {format : Format C} {faults : Faults C} {call : Call}

/-- What a successful inspection says of the staged entries. -/
structure Inspected (format : Format C) (call : Call) (entries : Listing C) (layers : List LayerRecord) : Prop where
  names : ∀ name ∈ entries.names, ∃ index, name = layerName index
  listed : entries.names.Nodup → Node.AllWellFormed entries →
    (listed (layers.flatMap LayerRecord.files)).Perm (sized format (Node.leavesOf [] entries))

theorem scanLayers_ok {root : Listing C} (wellFormed : Node.AllWellFormed root) {indices : List Int}
    (scanned : indices.mapM (scanLayer format root numaCount expertNum) = .ok layers) :
    (listed (layers.flatMap LayerRecord.files)).Perm (sized format (indices.flatMap fun index =>
      (root.find (layerName index)).elim [] (Node.leaves [layerName index]))) := by
  induction indices generalizing layers with
  | nil =>
      rw [← Except.ok.inj scanned]
      exact .refl _
  | cons index indices rest =>
      rw [List.mapM_cons] at scanned
      cases first : scanLayer format root numaCount expertNum index with
      | error error =>
          rw [first] at scanned
          cases scanned
      | ok record =>
          rw [first] at scanned
          cases others : indices.mapM (scanLayer format root numaCount expertNum) with
          | error error =>
              rw [others] at scanned
              cases scanned
          | ok records =>
              rw [others] at scanned
              rw [← Except.ok.inj scanned, List.flatMap_cons, List.flatMap_cons, listed_append, sized_append]
              exact (scanLayer_ok wellFormed first).append (rest others)

theorem inspect_ok {entries : Listing C} (inspected : inspect format faults call entries = .ok layers) :
    Inspected format call entries layers := by
  simp only [inspect] at inspected
  split at inspected
  · cases inspected
  · split at inspected
    · cases inspected
    · rename_i same
      simp only [Bool.not_eq_true, Bool.not_eq_false'] at same
      constructor
      · intro name member
        obtain ⟨index, -, rfl⟩ := List.mem_map.mp ((Listing.sameNames_iff.mp same name).mp member)
        exact ⟨index, rfl⟩
      · intro distinct wellFormed
        cases scanned : (uniqueLayers call.layerIndices).mapM
            (scanLayer format entries call.numaCount.toNat call.expertNum.toNat) with
        | error error =>
            rw [scanned] at inspected
            cases inspected
        | ok records =>
            rw [scanned] at inspected
            have found : records = layers := by
              cases records with
              | nil => cases inspected
              | cons record records => exact Except.ok.inj inspected
            subst found
            refine (scanLayers_ok wellFormed scanned).trans (List.Perm.map _ (List.Perm.symm ?_))
            have perm := Listing.leavesOf_perm distinct
              ((uniqueLayers_nodup call.layerIndices).map layerName_injective) same []
            rw [List.flatMap_map] at perm
            exact perm

end

/-! ## All or nothing -/

section

variable {C : Type} (format : Format C) (faults : Faults C) (call : Call) (shm : Shm C)

def staged : Listing C :=
  match shm.staging with
  | some (.directory entries) => Listing.unlink stagingLeaseName entries
  | _ => []

/-- The ready root holds the staged layers and a manifest that lists each of their
files with its size. -/
structure Published (after : Shm C) : Prop where
  staging : after.staging = none
  ready : ∃ layers,
    after.ready =
        some (.directory ((staged shm).create manifestName (format.dump (manifest call layers)))) ∧
      (listed (layers.flatMap LayerRecord.files)).Perm (sized format (Node.leavesOf [] (staged shm)))

def AllOrNothing : Prop :=
  match (publish format faults call shm).2 with
  | .ok _ => Published format call shm (publish format faults call shm).1
  | .error _ => (publish format faults call shm).1 = shm

/-- The checks after the lease pass. -/
def Passes : Prop :=
  ∃ layers, inspect format faults call (staged shm) = .ok layers

/-- The call fails before it removes a lease, or there is no lease and it fails
before the temporary manifest exists, or nothing fails. -/
def Meets : Prop :=
  match checkCall format call shm with
  | .error _ => True
  | .ok (_, lease) =>
    (lease = true ∧ faults.unlinkLease = true) ∨
      (lease = false ∧ (¬ Passes format faults call shm ∨ faults.openTemporary = true)) ∨
        (Passes format faults call shm ∧ faults.openTemporary = false ∧ faults.writeTemporary = none ∧
          faults.replaceManifest = false ∧ shm.ready = none ∧ faults.replaceRoot = false)

end

section

variable {C : Type} {format : Format C} {faults : Faults C} {call : Call} {shm : Shm C}

theorem unlink_absent {entries : Listing C} (absent : name ∉ entries.names) : entries.unlink name = entries := by
  apply List.filter_eq_self.mpr
  intro entry member
  rw [decide_eq_true_eq]
  rintro rfl
  exact absent (List.mem_map_of_mem member)

theorem checkLease_ok {entries : Listing C} (checked : checkLease format runId uid entries = .ok lease) :
    lease = true ↔ stagingLeaseName ∈ entries.names := by
  rw [checkLease] at checked
  split at checked
  · rename_i absent
    rw [← Except.ok.inj checked]
    simpa using Listing.find_none_iff.mp absent
  · rename_i content found
    have present : stagingLeaseName ∈ entries.names :=
      List.mem_map_of_mem (f := Prod.fst) (Listing.mem_of_find found)
    split at checked
    · split at checked
      · cases checked
      · split at checked
        · cases checked
        · split at checked
          · cases checked
          · rw [← Except.ok.inj checked]
            exact ⟨fun _ => present, fun _ => rfl⟩
    · cases checked
  · cases checked

theorem checkCall_ok (checked : checkCall format call shm = .ok (entries, lease)) :
    shm.staging = some (.directory entries) ∧ (lease = true ↔ stagingLeaseName ∈ Listing.names entries) := by
  simp only [checkCall, bind, Except.bind, pure, Except.pure] at checked
  split at checked
  · cases checked
  · split at checked
    · cases checked
    · split at checked
      · rename_i directory found
        split at checked
        · cases checked
        · rename_i leaseFound leaseChecked
          have same := Except.ok.inj checked
          rw [Prod.mk.injEq] at same
          obtain ⟨rfl, rfl⟩ := same
          exact ⟨found, checkLease_ok leaseChecked⟩
      · cases checked

/-- What is staged once the lease is gone. -/
theorem staged_eq (checked : checkCall format call shm = .ok (entries, lease)) :
    (if lease then Listing.unlink stagingLeaseName entries else entries) = staged shm ∧
      stagingLeaseName ∉ (staged shm).names := by
  obtain ⟨found, present⟩ := checkCall_ok checked
  have unlinked : staged shm = Listing.unlink stagingLeaseName entries := by
    rw [staged, found]
  constructor
  · rw [unlinked]
    cases lease with
    | true => rfl
    | false =>
        have absent : stagingLeaseName ∉ Listing.names entries := fun member =>
          Bool.false_ne_true (present.mpr member)
        exact (unlink_absent absent).symm
  · rw [unlinked, Listing.mem_names_unlink]
    exact fun member => member.2 rfl

theorem temporary_absent {entries : Listing C} (names : ∀ name ∈ entries.names, ∃ index, name = layerName index)
    (pid : Nat) : temporaryName pid ∉ entries.names := by
  intro member
  obtain ⟨index, same⟩ := names _ member
  exact (layerName_ne index).2.2 pid same.symm

/-- What writing the manifest leaves in a root with no such files. -/
theorem atomicWriteManifest_eq {entries : Listing C} (pid : Nat) (content : C)
    (absent : temporaryName pid ∉ entries.names) :
    atomicWriteManifest faults pid content entries =
      if faults.openTemporary then (entries, false)
      else
        match faults.writeTemporary with
        | some part => (entries.create (temporaryName pid) part, false)
        | none =>
          if faults.replaceManifest then (entries.create (temporaryName pid) content, false)
          else (entries.create manifestName content, true) := by
  have missing : (entries.find (temporaryName pid)).isSome = false := by
    rw [Listing.find_none_iff.mpr absent]
    rfl
  have removed : (entries.create (temporaryName pid) content).unlink (temporaryName pid) = entries := by
    have kept := unlink_absent absent
    simp only [Listing.unlink, Listing.create, List.filter_append] at kept ⊢
    rw [kept]
    simp
  rw [atomicWriteManifest, missing, removed]
  simp only [Bool.false_eq_true, or_false]

end

section

variable {C : Type} {format : Format C} {faults : Faults C} {call : Call} {shm : Shm C}

theorem restaged_iff (found : shm.staging = some (.directory before)) (entries : Listing C) :
    { shm with staging := some (.directory entries) } = shm ↔ entries = before := by
  constructor
  · intro same
    have staging := congrArg Shm.staging same
    rw [found] at staging
    exact Node.directory.inj (Option.some.inj staging)
  · rintro rfl
    rw [← found]

theorem staged_eq_iff (checked : checkCall format call shm = .ok (before, lease)) :
    staged shm = before ↔ lease = false := by
  obtain ⟨same, absent⟩ := staged_eq checked
  obtain ⟨-, present⟩ := checkCall_ok checked
  constructor
  · intro equal
    rw [equal] at absent
    exact Bool.eq_false_iff.mpr fun leased => absent (present.mp leased)
  · rintro rfl
    exact same.symm

/-- A root with a new file is not the root before the call. -/
theorem create_ne (checked : checkCall format call shm = .ok (before, lease)) (other : name ≠ stagingLeaseName)
    (content : C) : (staged shm).create name content ≠ before := by
  obtain ⟨same, absent⟩ := staged_eq checked
  obtain ⟨-, present⟩ := checkCall_ok checked
  intro equal
  cases lease with
  | true =>
      have member := present.mp rfl
      rw [← equal, Listing.names_create, List.mem_append, List.mem_singleton] at member
      rcases member with old | new
      · exact absent old
      · exact other new.symm
  | false =>
      have sameBefore : before = staged shm := same
      have length := congrArg List.length equal
      rw [sameBefore] at length
      simp [Listing.create] at length

theorem staged_wellFormed (wellFormed : ∀ node, shm.staging = some node → node.WellFormed) :
    (staged shm).names.Nodup ∧ Node.AllWellFormed (staged shm) := by
  have filtered : ∀ {entries : Listing C}, Node.AllWellFormed entries →
      Node.AllWellFormed (entries.unlink stagingLeaseName) := by
    intro entries all
    induction entries with
    | nil => exact all
    | cons entry entries rest =>
        rw [Node.AllWellFormed] at all
        simp only [Listing.unlink, List.filter_cons]
        split
        · rw [Node.AllWellFormed]
          exact ⟨all.1, all.2.1, rest all.2.2⟩
        · exact rest all.2.2
  rw [staged]
  split
  · rename_i entries found
    have own := wellFormed _ found
    rw [Node.WellFormed] at own
    exact ⟨Listing.names_unlink_nodup own.1 _, filtered own.2⟩
  · exact ⟨List.nodup_nil, by rw [Node.AllWellFormed]; trivial⟩

theorem publish_eq (checked : checkCall format call shm = .ok (before, lease))
    (removes : ¬ (lease = true ∧ faults.unlinkLease = true)) :
    publish format faults call shm =
      match inspect format faults call (staged shm) with
      | .error error => ({ shm with staging := some (.directory (staged shm)) }, .error error)
      | .ok layers =>
        let (written, done) :=
          atomicWriteManifest faults call.pid (format.dump (manifest call layers)) (staged shm)
        if !done then ({ shm with staging := some (.directory written) }, .error .os)
        else if shm.ready.isSome then ({ shm with staging := some (.directory written) }, .error .readyExists)
        else if faults.replaceRoot then ({ shm with staging := some (.directory written) }, .error .os)
        else ({ staging := none, ready := some (.directory written) }, .ok (rootName call.runId false)) := by
  rw [publish, checked]
  dsimp only
  rw [if_neg removes, (staged_eq checked).1]

/-- Every step after the creation of the temporary manifest succeeds. -/
def Goes (faults : Faults C) (shm : Shm C) : Prop :=
  faults.writeTemporary = none ∧ faults.replaceManifest = false ∧ shm.ready = none ∧ faults.replaceRoot = false

section

variable {before : Listing C} {lease : Bool} {layers : List LayerRecord}
  (checked : checkCall format call shm = .ok (before, lease))
  (removes : ¬ (lease = true ∧ faults.unlinkLease = true))
  (inspected : inspect format faults call (staged shm) = .ok layers)

include checked removes inspected

theorem publish_unopened (opens : faults.openTemporary = true) :
    publish format faults call shm = ({ shm with staging := some (.directory (staged shm)) }, .error .os) := by
  have absent := temporary_absent (inspect_ok inspected).names call.pid
  rw [publish_eq checked removes, inspected]
  dsimp only
  rw [atomicWriteManifest_eq _ _ absent, if_pos opens]
  rfl

/-- A failure after the temporary manifest was opened leaves a new file. -/
theorem publish_leaves (opens : faults.openTemporary = false) (fails : ¬ Goes faults shm) :
    ∃ name content error, name ≠ stagingLeaseName ∧
      publish format faults call shm =
        ({ shm with staging := some (.directory ((staged shm).create name content)) }, .error error) := by
  have absent := temporary_absent (inspect_ok inspected).names call.pid
  have temporaryOther : temporaryName call.pid ≠ stagingLeaseName := by
    intro same
    have head := congrArg List.head? same
    cases head
  have manifestOther : manifestName ≠ stagingLeaseName := by decide
  rw [publish_eq checked removes, inspected]
  dsimp only
  rw [atomicWriteManifest_eq _ _ absent, opens, if_neg Bool.false_ne_true]
  cases writes : faults.writeTemporary with
  | some part => exact ⟨_, part, .os, temporaryOther, rfl⟩
  | none =>
      cases replaces : faults.replaceManifest with
      | true => exact ⟨_, _, .os, temporaryOther, rfl⟩
      | false =>
          cases ready : shm.ready with
          | some node => exact ⟨_, _, .readyExists, manifestOther, rfl⟩
          | none =>
              cases renames : faults.replaceRoot with
              | true => exact ⟨_, _, .os, manifestOther, rfl⟩
              | false => exact absurd ⟨writes, replaces, ready, renames⟩ fails

theorem publish_done (opens : faults.openTemporary = false) (goes : Goes faults shm) :
    publish format faults call shm =
      ({ staging := none
         ready := some (.directory ((staged shm).create manifestName (format.dump (manifest call layers)))) },
        .ok (rootName call.runId false)) := by
  have absent := temporary_absent (inspect_ok inspected).names call.pid
  obtain ⟨writes, replaces, ready, renames⟩ := goes
  rw [publish_eq checked removes, inspected]
  dsimp only
  rw [atomicWriteManifest_eq _ _ absent, opens, if_neg Bool.false_ne_true, writes]
  dsimp only
  rw [replaces, if_neg Bool.false_ne_true, ready, renames]
  rfl

end

/-- A publication is all or nothing exactly when it fails before its first change
of the tree, or not at all. -/
theorem publish_all_or_nothing_iff (format : Format C) (faults : Faults C) (call : Call) (shm : Shm C)
    (wellFormed : ∀ node, shm.staging = some node → node.WellFormed) :
    AllOrNothing format faults call shm ↔ Meets format faults call shm := by
  rw [Meets]
  cases checked : checkCall format call shm with
  | error error =>
      have stopped : publish format faults call shm = (shm, .error error) := by rw [publish, checked]
      rw [AllOrNothing, stopped]
      exact ⟨fun _ => trivial, fun _ => rfl⟩
  | ok admitted =>
      obtain ⟨before, lease⟩ := admitted
      obtain ⟨found, -⟩ := checkCall_ok checked
      have unleased := staged_eq_iff checked
      dsimp only
      by_cases removes : lease = true ∧ faults.unlinkLease = true
      · have stopped : publish format faults call shm = (shm, .error .os) := by
          rw [publish, checked]
          exact if_pos removes
        rw [AllOrNothing, stopped]
        exact ⟨fun _ => .inl removes, fun _ => rfl⟩
      · cases inspected : inspect format faults call (staged shm) with
        | error error =>
            have fails : ¬ Passes format faults call shm := by
              rintro ⟨layers, passes⟩
              rw [inspected] at passes
              cases passes
            rw [AllOrNothing, publish_eq checked removes, inspected]
            dsimp only
            rw [restaged_iff found, unleased]
            simp only [removes, fails, not_false_eq_true, true_or, and_true, false_and, or_false, false_or]
        | ok layers =>
            have passes : Passes format faults call shm := ⟨layers, inspected⟩
            cases opens : faults.openTemporary with
            | true =>
                rw [AllOrNothing, publish_unopened checked removes inspected opens]
                dsimp only
                rw [restaged_iff found, unleased]
                simp [removes]
            | false =>
                by_cases goes : Goes faults shm
                · rw [AllOrNothing, publish_done checked removes inspected opens goes]
                  obtain ⟨distinct, all⟩ := staged_wellFormed wellFormed
                  constructor
                  · intro _
                    exact .inr (.inr ⟨passes, rfl, goes⟩)
                  · intro _
                    exact ⟨rfl, layers, rfl, (inspect_ok inspected).listed distinct all⟩
                · obtain ⟨name, content, error, other, left⟩ :=
                    publish_leaves checked removes inspected opens goes
                  rw [AllOrNothing, left]
                  dsimp only
                  rw [restaged_iff found]
                  constructor
                  · intro same
                    exact absurd same (create_ne checked other content)
                  · rintro (removed | ⟨-, failed | opened⟩ | ⟨-, -, meets⟩)
                    · exact absurd removed removes
                    · exact absurd passes failed
                    · cases opened
                    · exact absurd meets goes

end

/-- Files of one byte. -/
def smallFormat : Format Json where
  size := fun _ => 1
  load := some
  dump := id

def smallCall : Call where
  root :=
    { isAbsolute := true
      name := "kt-int8-run-00.staging".toList
      isSymlink := false
      isDirectChild := true
      uid := 7
      isGroupOrWorldWritable := false }
  runId := "run-00".toList
  layerIndices := [3]
  numaCount := 1
  expertNum := 1
  hiddenSize := 1
  intermediateSize := 1
  uid := 7
  pid := 42
  timeNs := 0

def noFaults : Faults Json :=
  ⟨false, false, false, none, false, false⟩

def smallLease : Name × Node Json :=
  (stagingLeaseName, .file (.object
    [("schema_version".toList, .int 1), ("run_id".toList, .string "run-00".toList), ("owner_uid".toList, .int 7),
      ("producer_pid".toList, .int 42)]))

/-- One layer with a part of one expert. -/
def smallLayer : Name × Node Json :=
  ("_layer_3".toList, .directory [("_numa_0".toList, .directory
    (["INT8_gate_0_1Byte_quant_.kt", "INT8_gate_0_4Byte_scale_.kt", "INT8_up_0_1Byte_quant_.kt",
      "INT8_up_0_4Byte_scale_.kt", "INT8_down_0_1Byte_quant_.kt", "INT8_down_0_4Byte_scale_.kt"].map
        fun name => (name.toList, Node.file Json.null)))])

theorem publish_all_or_nothing_small :
    AllOrNothing smallFormat noFaults smallCall ⟨some (.directory [smallLease, smallLayer]), none⟩ := by
  refine (publish_all_or_nothing_iff smallFormat noFaults smallCall _ ?_).mpr ?_
  · intro node found
    rw [← Option.some.inj found]
    have files : Node.AllWellFormed ((["INT8_gate_0_1Byte_quant_.kt", "INT8_gate_0_4Byte_scale_.kt",
        "INT8_up_0_1Byte_quant_.kt", "INT8_up_0_4Byte_scale_.kt", "INT8_down_0_1Byte_quant_.kt",
        "INT8_down_0_4Byte_scale_.kt"].map String.toList).map fun name => (name, Node.file Json.null)) :=
      Node.allWellFormed_files (by decide)
    exact And.intro (by decide) (And.intro (by decide) (And.intro trivial (And.intro (by decide)
      (And.intro (And.intro (by decide) (And.intro (by decide) (And.intro (And.intro (by decide) files) trivial)))
        trivial))))
  · have checked : checkCall smallFormat smallCall ⟨some (.directory [smallLease, smallLayer]), none⟩ =
        .ok ([smallLease, smallLayer], true) := rfl
    rw [Meets, checked]
    exact .inr (.inr ⟨⟨_, rfl⟩, rfl, rfl, rfl, rfl, rfl⟩)

/-- A staging root whose layer is missing loses its lease. -/
theorem failed_publish_removes_lease :
    (publish smallFormat noFaults smallCall ⟨some (.directory [smallLease]), none⟩).2 = .error .rootEntries ∧
      ¬ AllOrNothing smallFormat noFaults smallCall ⟨some (.directory [smallLease]), none⟩ := by
  have failed : publish smallFormat noFaults smallCall ⟨some (.directory [smallLease]), none⟩ =
      (⟨some (.directory []), none⟩, .error .rootEntries) := rfl
  rw [AllOrNothing, failed]
  refine ⟨rfl, ?_⟩
  intro same
  cases congrArg Shm.staging same

end KtKernel.Sft.Ephemeral
