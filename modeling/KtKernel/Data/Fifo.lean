import KtKernel.Data.Machine

namespace KtKernel.Data

/-- A queue served by one worker in order of arrival.  Items are never
removed, only counted: the first `finished` of them are done and, when
`running`, the next one is being served. -/
structure Fifo (τ : Type u) where
  order : List τ := []
  finished : Nat := 0
  running : Bool := false
deriving DecidableEq, Repr

namespace Fifo

inductive Action (τ : Type u) where
  | enqueue (item : τ)
  | start
  | finish

def enqueue (queue : Fifo τ) (item : τ) : Fifo τ :=
  { queue with order := queue.order ++ [item] }

/-- The item the worker serves or will serve next. -/
def current? (queue : Fifo τ) : Option τ :=
  queue.order[queue.finished]?

def start? (queue : Fifo τ) : Option (Fifo τ) :=
  if queue.running = false ∧ queue.finished < queue.order.length then
    some { queue with running := true }
  else none

def finish? (queue : Fifo τ) : Option (Fifo τ) :=
  if queue.running = true then
    some { queue with running := false, finished := queue.finished + 1 }
  else none

/-- At most `allow` items are not done: the condition `sync` waits for. -/
def Drained (queue : Fifo τ) (allow : Nat) : Prop :=
  queue.order.length ≤ queue.finished + allow

instance (queue : Fifo τ) (allow : Nat) : Decidable (queue.Drained allow) :=
  inferInstanceAs (Decidable (_ ≤ _))

def machine : Machine (Fifo τ) (Action τ) where
  initial queue := queue = {}
  step queue
    | .enqueue item => some (queue.enqueue item)
    | .start => queue.start?
    | .finish => queue.finish?

/-- What is not done is a suffix: an item with `allow` items behind it is
done once the queue is drained to `allow`. -/
theorem Drained.done {queue : Fifo τ} {allow index : Nat} (drained : queue.Drained allow)
    (behind : index + allow < queue.order.length) : index < queue.finished := by
  unfold Drained at drained
  omega

end Fifo

end KtKernel.Data
