import Mathlib.Algebra.Group.Nat.Defs
import KtKernel.Data.Machine

namespace KtKernel.SharedMemory

open KtKernel.Data

/-! Scratch buffers that many owners share.

An owner registers the pointers it keeps into the buffer.  When a request does
not fit, the buffer is freed and allocated anew, and the stored functions move
the pointers of all live owners.  The process has one buffer for each NUMA
node; a buffer that is not created yet behaves like an empty one.
-/

/-- One more than the largest `size_t` and the largest address. -/
def word : Nat :=
  2 ^ 64

/-- The functions of a request write one pointer each. -/
structure MemoryRequest where
  entries : List (Nat × Nat) := []
deriving DecidableEq, Repr

namespace MemoryRequest

def appendFunction (request : MemoryRequest) (slot size : Nat) : MemoryRequest :=
  ⟨request.entries ++ [(slot, size)]⟩

def totalSize (request : MemoryRequest) : Nat :=
  request.entries.foldl (fun total entry => (total + entry.2) % word) 0

/-- The loop of `update_base_ptr` from an offset on. -/
def placeFrom (base : Nat) : Nat → List (Nat × Nat) → (Nat → Nat) → Nat → Nat
  | _, [], slots => slots
  | offset, (slot, size) :: rest, slots =>
      placeFrom base ((offset + size) % word) rest
        (Function.update slots slot ((base + offset) % word))

def updateBasePtr (request : MemoryRequest) (base : Nat) (slots : Nat → Nat) : Nat → Nat :=
  placeFrom base 0 request.entries slots

def slots (request : MemoryRequest) : List Nat :=
  request.entries.map Prod.fst

end MemoryRequest

/-- `object_requests`, in the order of the owners' addresses. -/
abbrev Registry := List (Nat × List MemoryRequest)

namespace Registry

/-- `object_requests[object].push_back(requests)`. -/
def push (owner : Nat) (request : MemoryRequest) : Registry → Registry
  | [] => [(owner, [request])]
  | (key, held) :: rest =>
      if owner = key then (key, held ++ [request]) :: rest
      else if owner < key then (owner, [request]) :: (key, held) :: rest
      else (key, held) :: push owner request rest

def erase (owner : Nat) (registry : Registry) : Registry :=
  registry.filter fun entry => entry.1 ≠ owner

/-- The requests of one owner, in the order they were made. -/
def rebaseOwner (base : Nat) (held : List MemoryRequest) (slots : Nat → Nat) : Nat → Nat :=
  held.foldl (fun slots request => request.updateBasePtr base slots) slots

def rebase (base : Nat) (registry : Registry) (slots : Nat → Nat) : Nat → Nat :=
  registry.foldl (fun slots entry => rebaseOwner base entry.2 slots) slots

end Registry

/-- The null pointer is address zero. -/
structure SharedMemBuffer where
  buffer : Nat := 0
  size : Nat := 0
  objectRequests : Registry := []
deriving DecidableEq, Repr

/-- The buffers and the pointers of all owners. -/
structure State where
  numaMem : Nat → SharedMemBuffer := fun _ => {}
  slots : Nat → Nat := fun _ => 0

/-- What `posix_memalign` promises of a block. -/
def Granted (address size : Nat) : Prop :=
  address ≠ 0 ∧ address % 64 = 0 ∧ address + size < word

instance (address size : Nat) : Decidable (Granted address size) :=
  inferInstanceAs (Decidable (_ ∧ _ ∧ _))

/-- An allocation comes with the block the system would give.  Without one the
process exits. -/
inductive Action where
  | alloc (numa object : Nat) (requests : MemoryRequest) (newbuf : Option Nat)
  | dealloc (numa object : Nat)
deriving DecidableEq, Repr

/-- Free the buffer, allocate a larger one and move all pointers. -/
def grow (mem : SharedMemBuffer) (slots : Nat → Nat) (totalSize : Nat) (newbuf : Option Nat) :
    Option (SharedMemBuffer × (Nat → Nat)) :=
  match newbuf with
  | none => none
  | some address =>
      if Granted address totalSize then
        some ({ mem with buffer := address, size := totalSize }, mem.objectRequests.rebase address slots)
      else none

def SharedMemBuffer.alloc (mem : SharedMemBuffer) (slots : Nat → Nat) (object : Nat)
    (requests : MemoryRequest) (newbuf : Option Nat) : Option (SharedMemBuffer × (Nat → Nat)) :=
  (if mem.size < requests.totalSize then grow mem slots requests.totalSize newbuf
    else some (mem, slots)).map fun (mem, slots) =>
    ({ mem with objectRequests := mem.objectRequests.push object requests },
      requests.updateBasePtr mem.buffer slots)

def SharedMemBuffer.dealloc (mem : SharedMemBuffer) (object : Nat) : SharedMemBuffer :=
  { mem with objectRequests := mem.objectRequests.erase object }

def step (state : State) : Action → Option State
  | .alloc numa object requests newbuf =>
      ((state.numaMem numa).alloc state.slots object requests newbuf).map fun (mem, slots) =>
        ⟨Function.update state.numaMem numa mem, slots⟩
  | .dealloc numa object =>
      some { state with
        numaMem := Function.update state.numaMem numa ((state.numaMem numa).dealloc object) }

def machine : Machine State Action where
  initial state := state = {}
  step := step

end KtKernel.SharedMemory
