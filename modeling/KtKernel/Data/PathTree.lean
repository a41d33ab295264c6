import KtKernel.Data.FileTree

namespace KtKernel.Data

/-! A tree of files as the list of its paths.

Below a link there is nothing. -/

inductive Entry (C : Type) where
  | file (content : C)
  | directory
  | link (leadsTo : Option Bool)

abbrev PathTree (C : Type) := List (List Name × Entry C)

namespace Node

variable {C : Type}

mutual

def paths (path : List Name) : Node C → PathTree C
  | .file content => [(path, .file content)]
  | .directory entries => (path, .directory) :: pathsOf path entries
  | .link leadsTo => [(path, .link leadsTo)]

def pathsOf (path : List Name) : List (Name × Node C) → PathTree C
  | [] => []
  | (name, node) :: entries => node.paths (path ++ [name]) ++ pathsOf path entries

end

def entry : Node C → Entry C
  | .file content => .file content
  | .directory _ => .directory
  | .link leadsTo => .link leadsTo

/-- What a path leads to. -/
def entryAt : List Name → Node C → Option (Entry C)
  | [], node => some node.entry
  | name :: rest, .directory entries => (Listing.find name entries).bind (entryAt rest)
  | _ :: _, _ => none

end Node

namespace PathTree

variable {C : Type}

def find (path : List Name) (tree : PathTree C) : Option (Entry C) :=
  tree.lookup path

def remove (path : List Name) (tree : PathTree C) : PathTree C :=
  tree.filter fun entry => entry.1 ≠ path

def put (path : List Name) (entry : Entry C) (tree : PathTree C) : PathTree C :=
  (path, entry) :: remove path tree

/-- A file that is no link. -/
def isRegular (path : List Name) (tree : PathTree C) : Bool :=
  match tree.find path with
  | some (.file _) => true
  | _ => false

/-- A directory that is no link. -/
def isDirectory (path : List Name) (tree : PathTree C) : Bool :=
  match tree.find path with
  | some .directory => true
  | _ => false

/-- Nothing is below the path. -/
def isEmpty (path : List Name) (tree : PathTree C) : Bool :=
  tree.all fun entry => !path.isPrefixOf entry.1 || entry.1 == path

/-- No directory, nor a link to one. -/
def isLeaf (path : List Name) (tree : PathTree C) : Bool :=
  match tree.find path with
  | some (.file _) => true
  | some (.link leadsTo) => leadsTo != some true
  | _ => false

/-- The paths below a directory that are no directories. -/
def walk (path : List Name) (tree : PathTree C) : List (List Name) :=
  (tree.map Prod.fst).filter fun below => path.isPrefixOf below && below != path && tree.isLeaf below

variable {tree : PathTree C} {path other : List Name} {entry : Entry C}

theorem find_remove : find path (remove other tree) = if path = other then none else find path tree := by
  induction tree with
  | nil => simp [find, remove]
  | cons first tree rest =>
      rw [find, remove] at rest ⊢
      rw [List.filter_cons]
      by_cases removed : first.1 = other
      · rw [if_neg (by simpa using removed), rest]
        split
        · rfl
        · rename_i different
          have unlike : (path == first.1) = false := by
            rw [beq_eq_false_iff_ne, removed]
            exact different
          rw [find, find, List.lookup_cons, unlike]
      · rw [if_pos (by simpa using removed), List.lookup_cons]
        by_cases here : path = first.1
        · subst here
          rw [if_neg removed, beq_self_eq_true, find, List.lookup_cons, beq_self_eq_true]
        · have unlike : (path == first.1) = false := beq_eq_false_iff_ne.mpr here
          rw [unlike, rest, find, find, List.lookup_cons, unlike]

@[simp]
theorem find_remove_self : find path (remove path tree) = none := by
  rw [find_remove, if_pos rfl]

theorem find_remove_of_ne (different : path ≠ other) : find path (remove other tree) = find path tree := by
  rw [find_remove, if_neg different]

/-- Nothing comes back. -/
theorem find_remove_of_none (absent : find path tree = none) : find path (remove other tree) = none := by
  rw [find_remove]
  split
  · rfl
  · exact absent

@[simp]
theorem find_put_self : find path (put path entry tree) = some entry := by
  rw [find, put, List.lookup_cons, beq_self_eq_true]

theorem find_put_of_ne (different : path ≠ other) : find path (put other entry tree) = find path tree := by
  have unlike : (path == other) = false := beq_eq_false_iff_ne.mpr different
  rw [find, put, List.lookup_cons, unlike]
  exact find_remove_of_ne different

theorem find_isSome_iff : (∃ entry, find path tree = some entry) ↔ path ∈ tree.map Prod.fst := by
  rw [← Option.isSome_iff_exists, find]
  induction tree with
  | nil => simp
  | cons first tree rest =>
      rw [List.map_cons, List.mem_cons, ← rest, List.lookup_cons]
      cases same : path == first.1 with
      | true => simp [beq_iff_eq.mp same]
      | false => simp [beq_eq_false_iff_ne.mp same]

theorem isRegular_iff : isRegular path tree = true ↔ ∃ content, find path tree = some (.file content) := by
  rw [isRegular]
  cases found : find path tree with
  | none => simp
  | some entry => cases entry <;> simp

theorem isEmpty_iff : isEmpty path tree = true ↔ ∀ below, path <+: below → below ≠ path → find below tree = none := by
  rw [isEmpty, List.all_eq_true]
  constructor
  · intro empty below inside different
    cases found : find below tree with
    | none => rfl
    | some entry =>
        obtain ⟨item, member, rfl⟩ := List.mem_map.mp (find_isSome_iff.mp ⟨entry, found⟩)
        have here := empty item member
        simp [List.isPrefixOf_iff_prefix.mpr inside, different] at here
  · intro nothing item member
    by_cases inside : path <+: item.1
    · by_cases same : item.1 = path
      · simp [same]
      · obtain ⟨entry, found⟩ := find_isSome_iff.mpr (List.mem_map_of_mem (f := Prod.fst) member)
        rw [nothing item.1 inside same] at found
        cases found
    · have outside : path.isPrefixOf item.1 = false := by
        rw [← Bool.not_eq_true, List.isPrefixOf_iff_prefix]
        exact inside
      simp [outside]

theorem mem_walk : other ∈ walk path tree ↔ path <+: other ∧ other ≠ path ∧ isLeaf other tree = true := by
  rw [walk, List.mem_filter, Bool.and_eq_true, Bool.and_eq_true, List.isPrefixOf_iff_prefix, bne_iff_ne]
  constructor
  · rintro ⟨-, ⟨inside, different⟩, leaf⟩
    exact ⟨inside, different, leaf⟩
  · rintro ⟨inside, different, leaf⟩
    refine ⟨find_isSome_iff.mp ?_, ⟨inside, different⟩, leaf⟩
    cases found : find other tree with
    | none => simp [isLeaf, found] at leaf
    | some entry => exact ⟨entry, rfl⟩

theorem find_append_left {left right : PathTree C} (absent : path ∉ left.map Prod.fst) :
    find path (left ++ right) = find path right := by
  induction left with
  | nil => rfl
  | cons first left rest =>
      rw [List.map_cons, List.mem_cons, not_or] at absent
      have unlike : (path == first.1) = false := beq_eq_false_iff_ne.mpr absent.1
      rw [List.cons_append, find, List.lookup_cons, unlike]
      exact rest absent.2

theorem find_append_right {left right : PathTree C} (absent : path ∉ right.map Prod.fst) :
    find path (left ++ right) = find path left := by
  induction left with
  | nil =>
      rw [List.nil_append, find, find, List.lookup_nil, List.lookup_eq_none_iff]
      intro item member
      simp only [bne_iff_ne, ne_eq]
      rintro rfl
      exact absent (List.mem_map_of_mem member)
  | cons first left rest =>
      rw [List.cons_append, find, find, List.lookup_cons, List.lookup_cons]
      split
      · rfl
      · exact rest

end PathTree

namespace Node

variable {C : Type}

mutual

theorem prefix_of_paths (path : List Name) (node : Node C) (item : List Name × Entry C)
    (member : item ∈ node.paths path) : path <+: item.1 := by
  cases node with
  | file content =>
      rw [paths, List.mem_singleton] at member
      subst member
      exact List.prefix_rfl
  | link leadsTo =>
      rw [paths, List.mem_singleton] at member
      subst member
      exact List.prefix_rfl
  | directory entries =>
      rw [paths] at member
      rcases List.mem_cons.mp member with same | below
      · subst same
        exact List.prefix_rfl
      · obtain ⟨name, -, inside⟩ := prefix_of_pathsOf path entries item below
        exact (List.prefix_append path [name]).trans inside

theorem prefix_of_pathsOf (path : List Name) (entries : List (Name × Node C)) (item : List Name × Entry C)
    (member : item ∈ pathsOf path entries) : ∃ name ∈ entries.map Prod.fst, path ++ [name] <+: item.1 := by
  cases entries with
  | nil => simp [pathsOf] at member
  | cons entry entries =>
      obtain ⟨name, node⟩ := entry
      rw [pathsOf] at member
      rcases List.mem_append.mp member with here | later
      · exact ⟨name, List.mem_cons_self, prefix_of_paths (path ++ [name]) node item here⟩
      · obtain ⟨other, listed, inside⟩ := prefix_of_pathsOf path entries item later
        exact ⟨other, List.mem_cons_of_mem _ listed, inside⟩

end

/-- A path goes through the entry that it names. -/
theorem not_mem_pathsOf {entries : List (Name × Node C)} (unlisted : name ∉ entries.map Prod.fst)
    (base rest : List Name) : base ++ name :: rest ∉ (pathsOf base entries).map Prod.fst := by
  intro member
  obtain ⟨item, inside, same⟩ := List.mem_map.mp member
  obtain ⟨other, listed, below⟩ := prefix_of_pathsOf base entries item inside
  rw [same, List.prefix_append_right_inj, List.cons_prefix_cons] at below
  exact unlisted (below.1 ▸ listed)

theorem not_mem_paths {node : Node C} (different : name ≠ other) (base rest : List Name) :
    base ++ name :: rest ∉ (node.paths (base ++ [other])).map Prod.fst := by
  intro member
  obtain ⟨item, inside, same⟩ := List.mem_map.mp member
  have below := prefix_of_paths (base ++ [other]) node item inside
  rw [same, List.prefix_append_right_inj, List.cons_prefix_cons] at below
  exact different below.1.symm

mutual

theorem find_paths (base path : List Name) (node : Node C) (wellFormed : node.WellFormed) :
    PathTree.find (base ++ path) (node.paths base) = node.entryAt path := by
  cases node with
  | file content =>
      cases path with
      | nil => simp [paths, entryAt, PathTree.find, entry]
      | cons name rest => simp [paths, entryAt, PathTree.find]
  | link leadsTo =>
      cases path with
      | nil => simp [paths, entryAt, PathTree.find, entry]
      | cons name rest => simp [paths, entryAt, PathTree.find]
  | directory entries =>
      rw [WellFormed] at wellFormed
      cases path with
      | nil => simp [paths, entryAt, PathTree.find, entry]
      | cons name rest =>
          have below : (base ++ name :: rest == base) = false := by simp
          rw [paths, entryAt, PathTree.find, List.lookup_cons, below]
          exact find_pathsOf base name rest entries wellFormed.1 wellFormed.2

theorem find_pathsOf (base : List Name) (name : Name) (rest : List Name) (entries : List (Name × Node C))
    (distinct : (entries.map Prod.fst).Nodup) (wellFormed : AllWellFormed entries) :
    PathTree.find (base ++ name :: rest) (pathsOf base entries) =
      (Listing.find name entries).bind (entryAt rest) := by
  cases entries with
  | nil => simp [pathsOf, PathTree.find, Listing.find]
  | cons first entries =>
      obtain ⟨other, node⟩ := first
      rw [AllWellFormed] at wellFormed
      rw [List.map_cons, List.nodup_cons] at distinct
      rw [pathsOf]
      by_cases same : name = other
      · subst same
        rw [PathTree.find_append_right (not_mem_pathsOf distinct.1 base rest), ← List.singleton_append,
          ← List.append_assoc, find_paths (base ++ [name]) rest node wellFormed.2.1]
        simp [Listing.find]
      · rw [PathTree.find_append_left (not_mem_paths same base rest),
          find_pathsOf base name rest entries distinct.2 wellFormed.2.2]
        have unlike : (name == other) = false := beq_eq_false_iff_ne.mpr same
        rw [Listing.find, Listing.find, List.lookup_cons, unlike]

end

end Node

end KtKernel.Data
