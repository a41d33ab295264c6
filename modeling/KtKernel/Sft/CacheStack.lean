import Mathlib.Logic.Function.Basic

namespace KtKernel.Sft

/-! The stack of forward caches of an instance.

A saving forward writes the top entry and opens one only where there is none;
the backward takes the top entry off before it computes. -/

structure CacheStack (E : Type) where
  cacheStackTop : Nat
  cacheStack : Nat → E

namespace CacheStack

variable {E : Type}

/-- A full stack wraps around. -/
def pushCache (maxCacheDepth : Nat) (stack : CacheStack E) : CacheStack E × Nat :=
  let top := if maxCacheDepth ≤ stack.cacheStackTop then 0 else stack.cacheStackTop
  ({ stack with cacheStackTop := top + 1 }, top)

def openEntry (maxCacheDepth : Nat) (stack : CacheStack E) : CacheStack E × Nat :=
  if 0 < stack.cacheStackTop then (stack, stack.cacheStackTop - 1) else stack.pushCache maxCacheDepth

def write (slot : Nat) (entry : E) (stack : CacheStack E) : CacheStack E :=
  { stack with cacheStack := Function.update stack.cacheStack slot entry }

/-- The cache of a saving forward. -/
def save (maxCacheDepth : Nat) (entry : E) (stack : CacheStack E) : CacheStack E :=
  (stack.openEntry maxCacheDepth).1.write (stack.openEntry maxCacheDepth).2 entry

def popCache (stack : CacheStack E) : Option (E × CacheStack E) :=
  match stack.cacheStackTop with
  | 0 => none
  | top + 1 => some (stack.cacheStack top, { stack with cacheStackTop := top })

variable {stack : CacheStack E}

/-- Whatever the stack held, the entry is the one below its top. -/
theorem openEntry_top (maxCacheDepth : Nat) (stack : CacheStack E) :
    (stack.openEntry maxCacheDepth).1.cacheStackTop = (stack.openEntry maxCacheDepth).2 + 1 := by
  rw [openEntry]
  split
  · dsimp only
    omega
  · rfl

@[simp]
theorem write_top (slot : Nat) (entry : E) : (stack.write slot entry).cacheStackTop = stack.cacheStackTop := rfl

theorem popCache_some (top : stack.cacheStackTop = slot + 1) :
    stack.popCache = some (stack.cacheStack slot, { stack with cacheStackTop := slot }) := by
  simp only [popCache, top]

theorem popCache_save (maxCacheDepth : Nat) (entry : E) (stack : CacheStack E) :
    ∃ rest, (stack.save maxCacheDepth entry).popCache = some (entry, rest) := by
  have top : (stack.save maxCacheDepth entry).cacheStackTop = (stack.openEntry maxCacheDepth).2 + 1 :=
    openEntry_top maxCacheDepth stack
  have written : (stack.save maxCacheDepth entry).cacheStack (stack.openEntry maxCacheDepth).2 = entry :=
    Function.update_self _ _ _
  rw [popCache_some top, written]
  exact ⟨_, rfl⟩

end CacheStack

end KtKernel.Sft
