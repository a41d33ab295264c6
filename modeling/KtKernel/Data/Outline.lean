import KtKernel.Data.Machine

namespace KtKernel.Data

/-- A proof outline of threads over shared memory: what always holds of the
memory, and what holds of it when a thread stands at a position. -/
structure Outline (σ : Type u) (ι : Type v) (π : Type w) where
  memory : σ → Prop
  asserts : σ → ι → π → Prop

namespace Outline

variable {σ : Type u} {ι : Type v} {π : Type w}

def Holds (outline : Outline σ ι π) (shared : σ) (position : ι → π) : Prop :=
  outline.memory shared ∧ ∀ thread, outline.asserts shared thread (position thread)

/-- A step of one thread keeps the outline when it establishes its own new
assertion and does not interfere with the assertions of the others. -/
theorem Holds.move [DecidableEq ι] {outline : Outline σ ι π} {before after : σ}
    {position : ι → π} (holds : outline.Holds before position) (memory : outline.memory after)
    (own : outline.asserts after thread reached)
    (others : ∀ other, other ≠ thread → outline.asserts before other (position other) →
      outline.asserts after other (position other)) :
    outline.Holds after (Function.update position thread reached) := by
  refine ⟨memory, ?_⟩
  intro other
  by_cases same : other = thread
  · subst same
    rw [Function.update_self]
    exact own
  · rw [Function.update_of_ne same]
    exact others other same (holds.2 other)

/-- A step of the memory alone. -/
theorem Holds.silent {outline : Outline σ ι π} {before after : σ} {position : ι → π}
    (holds : outline.Holds before position) (memory : outline.memory after)
    (others : ∀ other, outline.asserts before other (position other) →
      outline.asserts after other (position other)) : outline.Holds after position :=
  ⟨memory, fun other => others other (holds.2 other)⟩

end Outline

end KtKernel.Data
