import Mathlib.Data.List.Nodup
import Mathlib.Data.List.Perm.Basic

namespace KtKernel.Data

/-! Trees of files.

A directory lists its entries by name.  A link is known by what it leads to: a
directory, a file or nothing. -/

abbrev Name := List Char

theorem mem_of_lookup {items : List (Name × α)} (found : items.lookup name = some value) : (name, value) ∈ items := by
  induction items with
  | nil => cases found
  | cons item items rest =>
      rw [List.lookup_cons] at found
      split at found
      · rename_i same
        rw [beq_iff_eq] at same
        rw [same, ← Option.some.inj found]
        exact List.mem_cons_self
      · exact List.mem_cons_of_mem _ (rest found)

theorem lookup_of_mem {items : List (Name × α)} (distinct : (items.map Prod.fst).Nodup) (member : (name, value) ∈ items) :
    items.lookup name = some value := by
  induction items with
  | nil => cases member
  | cons item items rest =>
      rw [List.map_cons, List.nodup_cons] at distinct
      rw [List.lookup_cons]
      rcases List.mem_cons.mp member with rfl | later
      · rw [beq_self_eq_true]
      · have different : (name == item.1) = false := by
          rw [beq_eq_false_iff_ne]
          rintro rfl
          exact distinct.1 (List.mem_map.mpr ⟨_, later, rfl⟩)
        rw [different]
        exact rest distinct.2 later

theorem lookup_of_unique {items : List (Name × α)} (member : (name, value) ∈ items)
    (unique : ∀ other, (name, other) ∈ items → other = value) : items.lookup name = some value := by
  cases found : items.lookup name with
  | none =>
      rw [List.lookup_eq_none_iff] at found
      exact absurd (found _ member) (by simp)
  | some other => rw [unique other (mem_of_lookup found)]

inductive Node (C : Type) where
  | file (content : C)
  | directory (entries : List (Name × Node C))
  | link (leadsTo : Option Bool)

/-- What a directory lists. -/
abbrev Listing (C : Type) := List (Name × Node C)

namespace Node

variable {C : Type}

def isSymlink : Node C → Bool
  | .link _ => true
  | _ => false

/-- Links are followed. -/
def isDir : Node C → Bool
  | .directory _ => true
  | .link (some toDirectory) => toDirectory
  | _ => false

def isFile : Node C → Bool
  | .file _ => true
  | .link (some toDirectory) => !toDirectory
  | _ => false

mutual

def leaves (path : List Name) : Node C → List (List Name × Option C)
  | .file content => [(path, some content)]
  | .directory entries => leavesOf path entries
  | .link _ => [(path, none)]

def leavesOf (path : List Name) : List (Name × Node C) → List (List Name × Option C)
  | [] => []
  | (name, node) :: entries => node.leaves (path ++ [name]) ++ leavesOf path entries

end

/-- A part of a path that leads to an entry of its directory. -/
def IsName (name : Name) : Prop :=
  name ≠ [] ∧ name ≠ ['.'] ∧ '/' ∉ name

instance (name : Name) : Decidable (IsName name) :=
  inferInstanceAs (Decidable (_ ∧ _))

mutual

/-- No directory lists a name twice, and names are no paths. -/
def WellFormed : Node C → Prop
  | .file _ => True
  | .directory entries => (entries.map Prod.fst).Nodup ∧ AllWellFormed entries
  | .link _ => True

def AllWellFormed : List (Name × Node C) → Prop
  | [] => True
  | (name, node) :: entries => IsName name ∧ node.WellFormed ∧ AllWellFormed entries

end

mutual

def decideWellFormed : (node : Node C) → Decidable node.WellFormed
  | .file _ => .isTrue trivial
  | .directory entries =>
      have := decideAllWellFormed entries
      inferInstanceAs (Decidable ((entries.map Prod.fst).Nodup ∧ AllWellFormed entries))
  | .link _ => .isTrue trivial

def decideAllWellFormed : (entries : List (Name × Node C)) → Decidable (AllWellFormed entries)
  | [] => .isTrue trivial
  | (name, node) :: entries =>
      have := decideWellFormed node
      have := decideAllWellFormed entries
      inferInstanceAs (Decidable (IsName name ∧ node.WellFormed ∧ AllWellFormed entries))

end

instance (node : Node C) : Decidable node.WellFormed :=
  decideWellFormed node

theorem leavesOf_eq (path : List Name) (entries : Listing C) :
    leavesOf path entries = entries.flatMap fun entry => entry.2.leaves (path ++ [entry.1]) := by
  induction entries with
  | nil => rw [leavesOf, List.flatMap_nil]
  | cons entry entries rest => rw [leavesOf, rest, List.flatMap_cons]

theorem mem_leavesOf {entries : Listing C} :
    leaf ∈ leavesOf path entries ↔ ∃ entry ∈ entries, leaf ∈ entry.2.leaves (path ++ [entry.1]) := by
  rw [leavesOf_eq, List.mem_flatMap]

theorem AllWellFormed.of_mem {entries : Listing C} (all : AllWellFormed entries) (member : entry ∈ entries) :
    IsName entry.1 ∧ entry.2.WellFormed := by
  induction entries with
  | nil => cases member
  | cons first entries rest =>
      rw [AllWellFormed] at all
      rcases List.mem_cons.mp member with rfl | later
      · exact ⟨all.1, all.2.1⟩
      · exact rest all.2.2 later

theorem allWellFormed_files {names : List Name} {content : C} (each : ∀ name ∈ names, IsName name) :
    AllWellFormed (names.map fun name => (name, Node.file content)) := by
  induction names with
  | nil => trivial
  | cons name names rest =>
      exact ⟨each name List.mem_cons_self, trivial, rest fun other member => each other (List.mem_cons_of_mem _ member)⟩

end Node

namespace Listing

variable {C : Type}

def find (name : Name) (entries : Listing C) : Option (Node C) :=
  entries.lookup name

def names (entries : Listing C) : List Name :=
  entries.map Prod.fst

def unlink (name : Name) (entries : Listing C) : Listing C :=
  entries.filter fun entry => entry.1 ≠ name

/-- A new name is listed last. -/
def create (name : Name) (content : C) (entries : Listing C) : Listing C :=
  entries ++ [(name, .file content)]

/-- The two lists name the same entries. -/
def sameNames (left right : List Name) : Bool :=
  left.all (right.contains ·) && right.all (left.contains ·)

variable {entries : Listing C}

theorem sameNames_iff {left right : List Name} : sameNames left right = true ↔ ∀ name, name ∈ left ↔ name ∈ right := by
  simp only [sameNames, Bool.and_eq_true, List.all_eq_true, List.contains_iff_mem]
  constructor
  · intro ⟨forth, back⟩ name
    exact ⟨forth name, back name⟩
  · intro same
    exact ⟨fun name => (same name).mp, fun name => (same name).mpr⟩

theorem find_none_iff : entries.find name = none ↔ name ∉ entries.names := by
  rw [find, List.lookup_eq_none_iff]
  simp only [names, List.mem_map, not_exists, not_and, bne_iff_ne]
  constructor
  · intro different entry member same
    exact different entry member same.symm
  · intro absent entry member same
    exact absent entry member same.symm

theorem mem_of_find (found : entries.find name = some node) : (name, node) ∈ entries :=
  mem_of_lookup found

theorem find_of_mem (distinct : entries.names.Nodup) (member : (name, node) ∈ entries) :
    entries.find name = some node :=
  lookup_of_mem distinct member

@[simp]
theorem names_create (name : Name) (content : C) : (entries.create name content).names = entries.names ++ [name] := by
  simp [create, names]

@[simp]
theorem mem_names_unlink {other : Name} : other ∈ (entries.unlink name).names ↔ other ∈ entries.names ∧ other ≠ name := by
  simp only [unlink, names, List.mem_map, List.mem_filter, decide_eq_true_eq]
  constructor
  · rintro ⟨entry, ⟨member, different⟩, rfl⟩
    exact ⟨⟨entry, member, rfl⟩, different⟩
  · rintro ⟨⟨entry, member, rfl⟩, different⟩
    exact ⟨entry, ⟨member, different⟩, rfl⟩

theorem names_unlink_nodup (distinct : entries.names.Nodup) (name : Name) : (entries.unlink name).names.Nodup :=
  distinct.sublist (List.filter_sublist.map _)

theorem eq_map_find (distinct : entries.names.Nodup) :
    entries = entries.names.filterMap fun name => (entries.find name).map (name, ·) := by
  have each : ∀ entry ∈ entries, (entries.find entry.1).map (entry.1, ·) = some entry := by
    intro entry member
    rw [find_of_mem distinct member]
    rfl
  have same : entries.filterMap ((fun name => (entries.find name).map (name, ·)) ∘ Prod.fst) =
      entries.filterMap some := List.filterMap_congr each
  rw [names, List.filterMap_map, same, List.filterMap_some]

theorem perm_of_sameNames {expected : List Name} (distinct : entries.names.Nodup) (expectedDistinct : expected.Nodup)
    (same : sameNames entries.names expected = true) :
    entries.Perm (expected.filterMap fun name => (entries.find name).map (name, ·)) := by
  have names : entries.names.Perm expected :=
    (List.perm_ext_iff_of_nodup distinct expectedDistinct).mpr (sameNames_iff.mp same)
  conv => lhs; rw [eq_map_find distinct]
  exact names.filterMap _

theorem leavesOf_perm {expected : List Name} (distinct : entries.names.Nodup) (expectedDistinct : expected.Nodup)
    (same : sameNames entries.names expected = true) (path : List Name) :
    (Node.leavesOf path entries).Perm
      (expected.flatMap fun name => (entries.find name).elim [] (Node.leaves (path ++ [name]))) := by
  have perm := (perm_of_sameNames distinct expectedDistinct same).flatMap_right
    fun entry => entry.2.leaves (path ++ [entry.1])
  rw [← Node.leavesOf_eq] at perm
  refine perm.trans (.of_eq ?_)
  clear perm same expectedDistinct
  induction expected with
  | nil => rfl
  | cons name expected rest =>
      rw [List.filterMap_cons, List.flatMap_cons, ← rest]
      cases entries.find name with
      | none => rfl
      | some node => rfl

end Listing

end KtKernel.Data
