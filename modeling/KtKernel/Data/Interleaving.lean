import Mathlib.Data.List.Nodup
import KtKernel.Data.Machine

namespace KtKernel.Data

/-! Tasks without synchronisation: each task is a list of operations on one memory, and any
task may make the next step. -/

structure Interleaved (ι α μ : Type) where
  left : ι → List α
  memory : μ

variable {ι α μ : Type} [DecidableEq ι]

def interleaving (program : ι → List α) (exec : α → μ → μ) (starts : μ → Prop) : Machine (Interleaved ι α μ) ι where
  initial state := state.left = program ∧ starts state.memory
  step state task :=
    match state.left task with
    | [] => none
    | op :: rest =>
        some
          { left := Function.update state.left task rest
            memory := exec op state.memory }

namespace Interleaved

variable {program : ι → List α} {exec : α → μ → μ} {starts : μ → Prop} {state : Interleaved ι α μ}

/-- What the operations establish, each after the earlier ones of its task, holds of all that were
taken, if no operation that is due takes it back. -/
theorem done_of_reachable {holds : α → μ → Prop}
    (establish : ∀ task earlier op later, program task = earlier ++ op :: later → ∀ memory,
      (∀ other ∈ earlier, holds other memory) → holds op (exec op memory))
    (stable : ∀ task earlier op later, program task = earlier ++ op :: later → ∀ memory,
      (∀ other ∈ earlier, holds other memory) → ∀ third, ∀ other ∈ program third,
        holds other memory → holds other (exec op memory))
    (reached : (interleaving program exec starts).Reachable state) (task : ι) :
    ∃ earlier, program task = earlier ++ state.left task ∧ ∀ op ∈ earlier, holds op state.memory := by
  induction reached generalizing task with
  | initial begins =>
      refine ⟨[], ?_, by simp⟩
      rw [begins.1]
      rfl
  | @step before active left _ moved induction =>
      simp only [interleaving] at moved
      split at moved
      · cases moved
      · rename_i op rest ahead
        cases moved
        obtain ⟨earlier, split_, established⟩ := induction active
        rw [ahead] at split_
        by_cases same : task = active
        · subst same
          refine ⟨earlier ++ [op], by simp [split_], fun other member => ?_⟩
          rcases List.mem_append.mp member with old | new
          · have inside : other ∈ program task := by
              rw [split_]
              exact List.mem_append_left _ old
            exact stable task earlier op rest split_ _ established task other inside (established other old)
          · rw [List.mem_singleton.mp new]
            exact establish task earlier op rest split_ _ established
        · obtain ⟨own, ownSplit, ownEstablished⟩ := induction task
          refine ⟨own, by simp [ownSplit, same], fun other member => ?_⟩
          have inside : other ∈ program task := by
            rw [ownSplit]
            exact List.mem_append_left _ member
          exact stable active earlier op rest split_ _ established task other inside (ownEstablished other member)

theorem run_task (task : ι) (ops : List α) (state : Interleaved ι α μ) (ahead : state.left task = ops) :
    (interleaving program exec starts).run state (List.replicate ops.length task) =
      some
        { left := Function.update state.left task []
          memory := ops.foldl (fun memory op => exec op memory) state.memory } := by
  induction ops generalizing state with
  | nil =>
      have same : Function.update state.left task [] = state.left := by
        rw [← ahead]
        exact Function.update_eq_self task state.left
      simp [Machine.run, same]
  | cons op rest induction =>
      rw [List.length_cons, List.replicate_succ, Machine.run]
      have moved : (interleaving program exec starts).step state task =
          some
            { left := Function.update state.left task rest
              memory := exec op state.memory } := by
        simp only [interleaving, ahead]
      rw [moved, Option.bind_some, induction _ (Function.update_self _ _ _)]
      simp

/-- Whole tasks in any order are one of the interleavings. -/
theorem run_tasks (tasks : List ι) (distinct : tasks.Nodup) (state : Interleaved ι α μ) :
    ∃ schedule final, (interleaving program exec starts).run state schedule = some final ∧
      (∀ task ∈ tasks, final.left task = []) ∧ (∀ task ∉ tasks, final.left task = state.left task) ∧
      final.memory = (tasks.flatMap state.left).foldl (fun memory op => exec op memory) state.memory := by
  induction tasks generalizing state with
  | nil => exact ⟨[], state, rfl, by simp, fun _ _ => rfl, rfl⟩
  | cons task rest induction =>
      obtain ⟨fresh, distinct⟩ := List.nodup_cons.mp distinct
      have first : (interleaving program exec starts).run state (List.replicate (state.left task).length task) = _ :=
        run_task task (state.left task) state rfl
      obtain ⟨schedule, final, ran, ended, kept, memory⟩ := induction distinct
        { left := Function.update state.left task []
          memory := (state.left task).foldl (fun memory op => exec op memory) state.memory }
      refine ⟨List.replicate (state.left task).length task ++ schedule, final, ?_, fun other member => ?_,
        fun other absent => ?_, ?_⟩
      · rw [Machine.run_append, first, Option.bind_some]
        exact ran
      · rcases List.mem_cons.mp member with same | later
        · rw [same, kept task fresh]
          exact Function.update_self _ _ _
        · exact ended other later
      · rw [List.mem_cons, not_or] at absent
        rw [kept other absent.2]
        exact Function.update_of_ne absent.1 _ _
      · rw [memory, List.flatMap_cons, List.foldl_append]
        congr 1
        refine List.flatMap_congr fun other member => ?_
        have apart : other ≠ task := by
          intro same
          rw [same] at member
          exact fresh member
        exact Function.update_of_ne apart _ _

end Interleaved

end KtKernel.Data
