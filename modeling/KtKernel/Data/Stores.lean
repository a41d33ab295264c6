import Mathlib.Algebra.BigOperators.Group.List.Basic

namespace KtKernel.Data

/-! Tasks that write a memory.

A task looks at each cell on its own: it leaves the cell alone, or it computes
the new value from the old one.  A job runs its tasks in some order; what a cell
holds afterwards depends only on the tasks that write it.
-/

/-- What a task does to a cell that holds a value. -/
def Store (ι α : Type) := ι → α → Option α

namespace Store

def run (store : Store ι α) (memory : ι → α) : ι → α :=
  fun cell => (store cell (memory cell)).getD (memory cell)

def runAll (stores : List (Store ι α)) (memory : ι → α) : ι → α :=
  stores.foldl (fun memory store => store.run memory) memory

/-- The task leaves the cell alone. -/
def Skips (store : Store ι α) (cell : ι) : Prop :=
  ∀ old, store cell old = none

@[simp]
theorem runAll_nil (memory : ι → α) : runAll [] memory = memory := rfl

@[simp]
theorem runAll_cons (store : Store ι α) (rest : List (Store ι α)) (memory : ι → α) :
    runAll (store :: rest) memory = runAll rest (store.run memory) := rfl

theorem runAll_append (first second : List (Store ι α)) (memory : ι → α) :
    runAll (first ++ second) memory = runAll second (runAll first memory) := by
  simp only [runAll, List.foldl_append]

theorem run_skipped {store : Store ι α} (skipped : store.Skips cell) :
    store.run memory cell = memory cell := by
  simp only [run, skipped (memory cell), Option.getD_none]

theorem run_written {store : Store ι α} (written : store cell (memory cell) = some value) :
    store.run memory cell = value := by
  simp only [run, written, Option.getD_some]

theorem runAll_skipped {stores : List (Store ι α)} (skipped : ∀ store ∈ stores, store.Skips cell) :
    runAll stores memory cell = memory cell := by
  induction stores generalizing memory with
  | nil => rfl
  | cons store rest induction =>
      rw [runAll_cons, induction (fun other member => skipped other (.tail _ member))]
      exact run_skipped (skipped store (.head _))

/-- Tasks that agree on the value of a cell leave it there, in any order. -/
theorem runAll_agreed {stores : List (Store ι α)}
    (agreed : ∀ store ∈ stores, store.Skips cell ∨ ∀ old, store cell old = some value)
    (written : ∃ store ∈ stores, ∀ old, store cell old = some value) :
    runAll stores memory cell = value := by
  induction stores generalizing memory with
  | nil =>
      obtain ⟨store, member, -⟩ := written
      contradiction
  | cons store rest induction =>
      rw [runAll_cons]
      have later : ∀ other ∈ rest, other.Skips cell ∨ ∀ old, other cell old = some value :=
        fun other member => agreed other (.tail _ member)
      by_cases again : ∃ other ∈ rest, ∀ old, other cell old = some value
      · exact induction later again
      · obtain ⟨first, member, writes⟩ := written
        have here : first = store := by
          rcases List.mem_cons.mp member with same | inRest
          · exact same
          · exact absurd ⟨first, inRest, writes⟩ again
        subst here
        rw [runAll_skipped]
        · exact run_written (writes _)
        · intro other inRest
          rcases later other inRest with skipped | writes
          · exact skipped
          · exact absurd ⟨other, inRest, writes⟩ again

/-- A cell that only one task of a job writes gets that task's value, in any
order of the tasks. -/
theorem runAll_owned {order : List κ} {task : κ → Store ι α} (distinct : order.Nodup)
    (member : owner ∈ order) (others : ∀ index ∈ order, index ≠ owner → (task index).Skips cell) :
    runAll (order.map task) memory cell = (task owner).run memory cell := by
  induction order generalizing memory with
  | nil => contradiction
  | cons index rest induction =>
      obtain ⟨absent, distinctRest⟩ := List.nodup_cons.mp distinct
      rw [List.map_cons, runAll_cons]
      rcases List.mem_cons.mp member with rfl | inRest
      · apply runAll_skipped
        intro store inMap
        obtain ⟨other, inRest, rfl⟩ := List.mem_map.mp inMap
        exact others other (.tail _ inRest) (fun same => absent (same ▸ inRest))
      · have different : index ≠ owner := fun same => absent (same ▸ inRest)
        rw [induction distinctRest inRest (fun other inRest => others other (.tail _ inRest))]
        have kept : (task index).run memory cell = memory cell :=
          run_skipped (others index (.head _) different)
        simp only [run] at kept ⊢
        rw [kept]

theorem runAll_added [AddCommMonoid α] {order : List κ} {task : κ → Store ι α} (amount : κ → α)
    (adds : ∀ index ∈ order, (task index).Skips cell ∧ amount index = 0 ∨
      ∀ old, task index cell old = some (old + amount index)) :
    runAll (order.map task) memory cell = memory cell + (order.map amount).sum := by
  induction order generalizing memory with
  | nil => simp
  | cons index rest induction =>
      rw [List.map_cons, runAll_cons, induction (fun other member => adds other (.tail _ member)),
        List.map_cons, List.sum_cons, ← add_assoc]
      congr 1
      rcases adds index (.head _) with ⟨skipped, zero⟩ | writes
      · rw [run_skipped skipped, zero, add_zero]
      · exact run_written (writes _)

end Store

/-- An order in which the tasks of each job run. -/
structure Schedule where
  order : Nat → Nat → List Nat
  complete : ∀ job count, (order job count).Perm (List.range count)

namespace Schedule

/-- The tasks in the order of their numbers. -/
def inOrder : Schedule where
  order := fun _ count => List.range count
  complete := fun _ _ => .refl _

theorem mem_order (schedule : Schedule) {task count : Nat} (inside : task < count) (job : Nat) :
    task ∈ schedule.order job count :=
  (schedule.complete job count).mem_iff.mpr (List.mem_range.mpr inside)

theorem lt_of_mem_order {schedule : Schedule} {task job count : Nat}
    (member : task ∈ schedule.order job count) : task < count :=
  List.mem_range.mp ((schedule.complete job count).mem_iff.mp member)

theorem order_nodup (schedule : Schedule) (job count : Nat) : (schedule.order job count).Nodup :=
  (schedule.complete job count).nodup_iff.mpr List.nodup_range

end Schedule

end KtKernel.Data
