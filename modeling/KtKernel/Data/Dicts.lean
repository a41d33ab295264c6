import Mathlib.Data.List.Nodup

namespace KtKernel.Data

/-! Dictionaries that keep the order in which their keys were first set. -/

variable {κ α : Type}

/-- The entries of a dictionary, in order. -/
abbrev Dict (κ α : Type) := List (κ × α)

namespace Dict

def keys (dict : Dict κ α) : List κ :=
  dict.map Prod.fst

variable [DecidableEq κ]

def set (dict : Dict κ α) (key : κ) (value : α) : Dict κ α :=
  match dict with
  | [] => [(key, value)]
  | entry :: rest => if entry.1 = key then (key, value) :: rest else entry :: set rest key value

def update (dict entries : Dict κ α) : Dict κ α :=
  entries.foldl (fun dict entry => dict.set entry.1 entry.2) dict

def ofList (entries : Dict κ α) : Dict κ α :=
  update [] entries

/-- The value under a key. -/
def get? (dict : Dict κ α) (key : κ) : Option α :=
  dict.lookup key

theorem get?_cons (entry : κ × α) (rest : Dict κ α) (key : κ) :
    get? (entry :: rest) key = if entry.1 = key then some entry.2 else get? rest key := by
  by_cases same : entry.1 = key
  · rw [if_pos same, get?, List.lookup_cons, ← same, beq_self_eq_true]
  · rw [if_neg same, get?, List.lookup_cons, beq_false_of_ne (Ne.symm same)]
    rfl

theorem get?_set_same (dict : Dict κ α) (key : κ) (value : α) : (dict.set key value).get? key = some value := by
  induction dict with
  | nil => rw [set, get?_cons, if_pos rfl]
  | cons entry rest induction =>
      rw [set]
      by_cases same : entry.1 = key
      · rw [if_pos same, get?_cons, if_pos rfl]
      · rw [if_neg same, get?_cons, if_neg same, induction]

theorem get?_set_other (dict : Dict κ α) {key other : κ} (different : key ≠ other) (value : α) :
    (dict.set key value).get? other = dict.get? other := by
  induction dict with
  | nil => rw [set, get?_cons, if_neg different]
  | cons entry rest induction =>
      rw [set]
      by_cases same : entry.1 = key
      · rw [if_pos same, get?_cons, get?_cons, if_neg different, same, if_neg different]
      · rw [if_neg same, get?_cons, get?_cons, induction]

/-- What holds of every value set under a key holds of the value kept. -/
theorem update_value {kind : α → Prop} {dict entries : Dict κ α} {key : κ}
    (known : (∃ value, dict.get? key = some value ∧ kind value) ∨
      (∃ entry ∈ entries, entry.1 = key) ∧ ∀ value, dict.get? key = some value → kind value)
    (each : ∀ entry ∈ entries, entry.1 = key → kind entry.2) : ∃ value, (dict.update entries).get? key = some value ∧ kind value := by
  induction entries generalizing dict with
  | nil =>
      rcases known with found | ⟨⟨entry, impossible, -⟩, -⟩
      · exact found
      · cases impossible
  | cons entry rest induction =>
      rw [update, List.foldl_cons]
      apply induction _ fun other member => each other (List.mem_cons_of_mem _ member)
      by_cases same : entry.1 = key
      · refine .inl ⟨entry.2, ?_, each entry List.mem_cons_self same⟩
        rw [same, get?_set_same]
      · rw [get?_set_other dict same]
        rcases known with found | ⟨⟨other, member, isKey⟩, old⟩
        · exact .inl found
        · rcases List.mem_cons.mp member with rfl | later
          · exact absurd isKey same
          · exact .inr ⟨⟨other, later, isKey⟩, old⟩

theorem ofList_value {kind : α → Prop} {entries : Dict κ α} {key : κ} (present : ∃ entry ∈ entries, entry.1 = key)
    (each : ∀ entry ∈ entries, entry.1 = key → kind entry.2) : ∃ value, (ofList entries).get? key = some value ∧ kind value := by
  refine update_value (.inr ⟨present, ?_⟩) each
  intro value impossible
  cases impossible

theorem set_fresh {dict : Dict κ α} {key : κ} (fresh : key ∉ keys dict) (value : α) : dict.set key value = dict ++ [(key, value)] := by
  induction dict with
  | nil => rfl
  | cons entry rest induction =>
      rw [keys, List.map_cons, List.mem_cons, not_or] at fresh
      rw [set, if_neg (Ne.symm fresh.1), induction fresh.2]
      rfl

/-- New keys come after the old ones. -/
theorem update_fresh {dict entries : Dict κ α} (distinct : (keys (dict ++ entries)).Nodup) : dict.update entries = dict ++ entries := by
  induction entries generalizing dict with
  | nil => exact (List.append_nil dict).symm
  | cons entry rest induction =>
      have split : dict ++ entry :: rest = dict ++ [entry] ++ rest := List.append_cons dict entry rest
      rw [split] at distinct
      have first : (keys (dict ++ [entry])).Nodup := by
        rw [keys, List.map_append] at distinct
        exact distinct.of_append_left
      have fresh : entry.1 ∉ keys dict := by
        rw [keys, List.map_append, List.map_singleton] at first
        intro member
        exact List.disjoint_of_nodup_append first member (List.mem_singleton.mpr rfl)
      rw [update, List.foldl_cons, set_fresh fresh, split]
      exact induction distinct

theorem ofList_distinct {entries : Dict κ α} (distinct : (keys entries).Nodup) : ofList entries = entries :=
  update_fresh distinct

end Dict

end KtKernel.Data
