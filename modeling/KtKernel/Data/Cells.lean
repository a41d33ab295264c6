import Mathlib.Data.List.Induction

namespace KtKernel.Data

/-! A shared cell.

Whoever finds the cell empty fills it with a key of his own, and it keeps that key
until it is emptied.
-/

inductive Touch (κ : Type) where
  | acquire (key : κ) (fills : Bool)
  | release
deriving DecidableEq

namespace Touch

variable {κ : Type}

/-- The key that an acquisition brings to an empty cell. -/
def brought : Touch κ → Option κ
  | .acquire key true => some key
  | .acquire _ false => none
  | .release => none

def isAcquire : Touch κ → Bool
  | .acquire _ _ => true
  | .release => false

def apply (cell : Option κ) : Touch κ → Option κ
  | .acquire key fills => cell.or (Touch.acquire key fills).brought
  | .release => none

end Touch

variable {κ : Type}

def sinceRelease (touches : List (Touch κ)) : List (Touch κ) :=
  (touches.reverse.takeWhile Touch.isAcquire).reverse

def firstKey (touches : List (Touch κ)) : Option κ :=
  (sinceRelease touches).findSome? Touch.brought

@[simp]
theorem firstKey_nil : firstKey ([] : List (Touch κ)) = none :=
  rfl

@[simp]
theorem firstKey_release (touches : List (Touch κ)) : firstKey (touches ++ [.release]) = none := by
  simp [firstKey, sinceRelease, Touch.isAcquire]

@[simp]
theorem firstKey_acquire (touches : List (Touch κ)) (key : κ) (fills : Bool) :
    firstKey (touches ++ [.acquire key fills]) = (firstKey touches).or (Touch.acquire key fills).brought := by
  have kept : Touch.isAcquire (.acquire key fills) = true := rfl
  rw [firstKey, sinceRelease, List.reverse_concat, List.takeWhile_cons_of_pos kept, List.reverse_cons,
    List.findSome?_append, List.findSome?_singleton]
  rfl

/-- The cell holds the first key that was brought after the last release. -/
theorem foldl_apply_eq_firstKey (touches : List (Touch κ)) : touches.foldl Touch.apply none = firstKey touches := by
  induction touches using List.reverseRecOn with
  | nil => rfl
  | append_singleton earlier last induction =>
      rw [List.foldl_append, induction]
      cases last with
      | acquire key fills => exact (firstKey_acquire earlier key fills).symm
      | release => exact (firstKey_release earlier).symm

/-- One more run of touches, on the cell that the earlier ones leave. -/
theorem firstKey_append (earlier later : List (Touch κ)) :
    firstKey (earlier ++ later) = later.foldl Touch.apply (firstKey earlier) := by
  rw [← foldl_apply_eq_firstKey, List.foldl_append, foldl_apply_eq_firstKey]

end KtKernel.Data
