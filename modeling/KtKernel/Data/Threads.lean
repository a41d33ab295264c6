import KtKernel.Data.Interleaving
import KtKernel.Data.Stores
import Mathlib.Algebra.BigOperators.Intervals

namespace KtKernel.Data

/-! What threads without synchronisation leave in a place of their memory. -/

variable {α β ι μ : Type} {threads : Nat} {program : Nat → List α} {exec : α → μ → μ} {before after : μ}

def Ran (threads : Nat) (program : Nat → List α) (exec : α → μ → μ) (before after : μ) : Prop :=
  ∃ state : Interleaved Nat α μ,
    (interleaving (fun ith => if ith < threads then program ith else []) exec (· = before)).Reachable state ∧
      (∀ ith, state.left ith = []) ∧ state.memory = after

theorem ran_inOrder (threads : Nat) (program : Nat → List α) (exec : α → μ → μ) (before : μ) :
    Ran threads program exec before
      (((List.range threads).flatMap program).foldl (fun memory op => exec op memory) before) := by
  let start : Interleaved Nat α μ := { left := fun ith => if ith < threads then program ith else [], memory := before }
  have begins : (interleaving (fun ith => if ith < threads then program ith else []) exec (· = before)).initial start := ⟨rfl, rfl⟩
  obtain ⟨schedule, final, ran, ended, kept, memory⟩ :=
    @Interleaved.run_tasks _ _ _ _ _ exec (· = before) (List.range threads) List.nodup_range start
  refine ⟨final, (Machine.Reachable.initial begins).run ran, ?_, ?_⟩
  · intro ith
    by_cases inside : ith < threads
    · exact ended ith (List.mem_range.mpr inside)
    · rw [kept ith (mt List.mem_range.mp inside)]
      exact if_neg inside
  · rw [memory]
    congr 1
    apply List.flatMap_congr
    intro ith inside
    exact if_pos (List.mem_range.mp inside)

/-- Steps that agree on a place leave the value they agree on, when one of them writes it. -/
theorem Ran.agreed (read : μ → β) {value : β}
    (agreed : ∀ ith < threads, ∀ op ∈ program ith,
      (∀ memory, read (exec op memory) = read memory) ∨ ∀ memory, read (exec op memory) = value)
    (written : ∃ ith < threads, ∃ op ∈ program ith, ∀ memory, read (exec op memory) = value)
    (ran : Ran threads program exec before after) : read after = value := by
  obtain ⟨owner, inside, op, member, writes⟩ := written
  obtain ⟨state, reached, ended, rfl⟩ := ran
  have steps : ∀ {task : Nat} {op : α}, op ∈ (if task < threads then program task else []) →
      (∀ memory, read (exec op memory) = read memory) ∨ ∀ memory, read (exec op memory) = value := by
    intro task op member
    split at member
    · next inside => exact agreed task inside op member
    · contradiction
  have taken : ∃ earlier, (if owner < threads then program owner else []) = earlier ++ state.left owner ∧
      ∀ op ∈ earlier, (∀ memory, read (exec op memory) = value) → read state.memory = value := by
    refine @Interleaved.done_of_reachable _ _ _ _ _ _ _ _
      (fun op memory => (∀ memory, read (exec op memory) = value) → read memory = value)
      (fun _ _ _ _ _ memory _ writes => writes memory)
      (fun task earlier op later split memory _ third other _ held writes => ?_) reached owner
    rcases steps (split ▸ List.mem_append_right earlier List.mem_cons_self) with kept | value
    · rw [kept]
      exact held writes
    · exact value memory
  obtain ⟨earlier, done, left⟩ := taken
  rw [ended, List.append_nil, if_pos inside] at done
  exact left op (done ▸ member) writes

/-! ## Cells of one thread -/

theorem Store.runAll_cell {stores : List (Store ι β)} {memory other : ι → β} (same : memory cell = other cell) :
    Store.runAll stores memory cell = Store.runAll stores other cell := by
  induction stores generalizing memory other with
  | nil => exact same
  | cons store rest induction =>
      rw [Store.runAll_cons, Store.runAll_cons]
      apply induction
      simp only [Store.run, same]

/-- Of the parts of a program only one writes the cell. -/
theorem Store.runAll_flatMap_owned {items : List κ} {body : κ → List (Store ι β)} {own : κ} (distinct : items.Nodup)
    (member : own ∈ items) (others : ∀ other ∈ items, other ≠ own → ∀ store ∈ body other, store.Skips cell) (memory : ι → β) :
    Store.runAll (items.flatMap body) memory cell = Store.runAll (body own) memory cell := by
  induction items generalizing memory with
  | nil => contradiction
  | cons item rest induction =>
      obtain ⟨absent, distinctRest⟩ := List.nodup_cons.mp distinct
      rw [List.flatMap_cons, Store.runAll_append]
      by_cases here : item = own
      · subst here
        apply Store.runAll_skipped
        intro store inRest
        obtain ⟨other, inside, inBody⟩ := List.mem_flatMap.mp inRest
        exact others other (.tail _ inside) (fun same => absent (same ▸ inside)) store inBody
      · have later := (List.mem_cons.mp member).resolve_left (Ne.symm here)
        rw [induction distinctRest later fun other inside => others other (.tail _ inside)]
        apply Store.runAll_cell
        exact Store.runAll_skipped (others item List.mem_cons_self here)

/-- Each part of a program adds to the cell. -/
theorem Store.runAll_flatMap_added [AddCommMonoid β] {body : Nat → List (Store ι β)} (amount : Nat → β) (count : Nat)
    (adds : ∀ index < count, ∀ memory, Store.runAll (body index) memory cell = memory cell + amount index) (memory : ι → β) :
    Store.runAll ((List.range count).flatMap body) memory cell = memory cell + ∑ index ∈ Finset.range count, amount index := by
  induction count with
  | zero => simp
  | succ count induction =>
      rw [List.range_succ, List.flatMap_append, Store.runAll_append, List.flatMap_singleton, adds count (Nat.lt_succ_self count),
        induction fun index inside => adds index (by omega), Finset.sum_range_succ, add_assoc]

theorem Interleaved.left_suffix {program : ι → List α} [DecidableEq ι] {starts : μ → Prop} {state : Interleaved ι α μ}
    (reached : (interleaving program exec starts).Reachable state) (task : ι) : state.left task <:+ program task := by
  have taken : ∃ earlier, program task = earlier ++ state.left task ∧ ∀ op ∈ earlier, True :=
    @Interleaved.done_of_reachable _ _ _ _ _ _ _ _ (fun _ _ => True) (fun _ _ _ _ _ _ _ => trivial)
      (fun _ _ _ _ _ _ _ _ _ _ _ => trivial) reached task
  obtain ⟨earlier, split_, -⟩ := taken
  exact ⟨earlier, split_.symm⟩

/-- A cell that only one thread writes holds what that thread alone would leave there. -/
theorem Interleaved.owned {program : κ → List (Store ι β)} [DecidableEq κ] {starts : (ι → β) → Prop} {owner : κ}
    (others : ∀ task ≠ owner, ∀ store ∈ program task, store.Skips cell) {state : Interleaved κ (Store ι β) (ι → β)}
    (reached : (interleaving program Store.run starts).Reachable state) :
    ∃ memory earlier, starts memory ∧ program owner = earlier ++ state.left owner ∧
      state.memory cell = Store.runAll earlier memory cell := by
  induction reached with
  | initial begins =>
      obtain ⟨left, memory⟩ := begins
      exact ⟨_, [], memory, by rw [left, List.nil_append], rfl⟩
  | @step before active after reached moved induction =>
      obtain ⟨memory, earlier, begins, split_, same⟩ := induction
      have own := left_suffix reached active
      simp only [interleaving] at moved
      split at moved
      · contradiction
      · next store rest first =>
          cases moved
          rw [first] at own
          by_cases here : owner = active
          · subst here
            refine ⟨memory, earlier ++ [store], begins, ?_, ?_⟩
            · simp only [Function.update_self, List.append_assoc, List.singleton_append, split_, first]
            · rw [Store.runAll_append]
              change Store.runAll [store] before.memory cell = _
              exact Store.runAll_cell same
          · refine ⟨memory, earlier, begins, ?_, ?_⟩
            · simp only [Function.update_of_ne here, split_]
            · exact (Store.run_skipped (others active (Ne.symm here) store (own.mem List.mem_cons_self))).trans same

theorem Ran.owned {program : Nat → List (Store ι β)} {before after : ι → β} {owner : Nat} (inside : owner < threads)
    (others : ∀ ith < threads, ith ≠ owner → ∀ store ∈ program ith, store.Skips cell)
    (ran : Ran threads program Store.run before after) : after cell = Store.runAll (program owner) before cell := by
  obtain ⟨state, reached, ended, rfl⟩ := ran
  have apart : ∀ ith ≠ owner, ∀ store ∈ (if ith < threads then program ith else []), store.Skips cell := by
    intro ith different store member
    split at member
    · next within => exact others ith within different store member
    · contradiction
  obtain ⟨memory, earlier, rfl, done, left⟩ := Interleaved.owned apart reached
  rw [ended, List.append_nil, if_pos inside] at done
  rw [left, done]

end KtKernel.Data
