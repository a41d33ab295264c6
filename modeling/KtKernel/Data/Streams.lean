import Mathlib.Algebra.Group.Nat.Defs
import Mathlib.Data.List.Nodup
import Mathlib.Logic.Function.Basic

namespace KtKernel.Data

/-! Buffers that are filled one after the other from a stream. -/

variable {κ β : Type} {slots : List κ} {value : κ → List β} {memory : κ → List β} {rest : List β}

/-- A read into a buffer.  What the stream has not keeps the old bytes. -/
def fill (old stream : List β) : List β :=
  stream.take old.length ++ old.drop stream.length

theorem length_fill (old stream : List β) : (fill old stream).length = old.length := by
  rw [fill, List.length_append, List.length_take, List.length_drop]
  omega

theorem fill_append {old bytes : List β} (same : bytes.length = old.length) : fill old (bytes ++ rest) = bytes := by
  have nothing : old.drop (bytes ++ rest).length = [] := by
    apply List.drop_eq_nil_of_le
    rw [List.length_append]
    omega
  rw [fill, nothing, List.append_nil, ← same, List.take_left]

theorem nodup_flatMap_keyed {ι : Type} {rounds : List ι} {body : ι → List κ} (key : κ → ι) (distinct : rounds.Nodup)
    (each : ∀ round ∈ rounds, (body round).Nodup) (keyed : ∀ round ∈ rounds, ∀ slot ∈ body round, key slot = round) :
    (rounds.flatMap body).Nodup := by
  rw [List.nodup_flatMap]
  refine ⟨each, ?_⟩
  apply distinct.imp_of_mem
  intro one other isOne isOther apart slot inOne inOther
  exact apart ((keyed one isOne slot inOne).symm.trans (keyed other isOther slot inOther))

variable [DecidableEq κ]

def readSlot (state : (κ → List β) × List β) (slot : κ) : (κ → List β) × List β :=
  (Function.update state.1 slot (fill (state.1 slot) state.2), state.2.drop (state.1 slot).length)

def readSlots (slots : List κ) (state : (κ → List β) × List β) : (κ → List β) × List β :=
  slots.foldl readSlot state

theorem readSlot_length (state : (κ → List β) × List β) (slot other : κ) : ((readSlot state slot).1 other).length = (state.1 other).length := by
  rw [readSlot]
  dsimp only
  by_cases same : other = slot
  · rw [same, Function.update_self, length_fill]
  · rw [Function.update_of_ne same]

theorem readSlots_length (slots : List κ) (state : (κ → List β) × List β) (other : κ) :
    ((readSlots slots state).1 other).length = (state.1 other).length := by
  induction slots generalizing state with
  | nil => rfl
  | cons slot slots induction =>
      rw [readSlots, List.foldl_cons]
      exact (induction _).trans (readSlot_length state slot other)

/-- Reading back what was written for distinct buffers of the same sizes, in the same order. -/
theorem readSlots_written (distinct : slots.Nodup) (sized : ∀ slot ∈ slots, (value slot).length = (memory slot).length) :
    readSlots slots (memory, slots.flatMap value ++ rest) = (fun slot => if slot ∈ slots then value slot else memory slot, rest) := by
  induction slots generalizing memory with
  | nil =>
      simp only [List.not_mem_nil, if_false]
      rfl
  | cons slot slots induction =>
      obtain ⟨fresh, distinct⟩ := List.nodup_cons.mp distinct
      have size := sized slot List.mem_cons_self
      have step : readSlot (memory, (slot :: slots).flatMap value ++ rest) slot =
          (Function.update memory slot (value slot), slots.flatMap value ++ rest) := by
        rw [readSlot, List.flatMap_cons, List.append_assoc, fill_append size, ← size, List.drop_left]
      have others : ∀ other ∈ slots, (value other).length = (Function.update memory slot (value slot) other).length := by
        intro other member
        have apart : other ≠ slot := fun same => fresh (same ▸ member)
        rw [Function.update_of_ne apart]
        exact sized other (List.mem_cons_of_mem _ member)
      rw [readSlots, List.foldl_cons, step]
      refine (induction distinct others).trans ?_
      rw [Prod.mk.injEq]
      refine ⟨?_, rfl⟩
      funext other
      by_cases same : other = slot
      · rw [same, if_neg fresh, Function.update_self, if_pos List.mem_cons_self]
      · have member : other ∈ slot :: slots ↔ other ∈ slots := by
          rw [List.mem_cons]
          exact or_iff_right same
        rw [Function.update_of_ne same]
        simp only [member]

end KtKernel.Data
