import Mathlib.Algebra.BigOperators.Group.List.Basic
import KtKernel.Data.Tiling

namespace KtKernel.Data

/-! Tensors in row-major order. -/

structure Tensor (α : Type) where
  shape : List Nat
  data : List α
  sized : data.length = shape.prod

namespace Tensor

variable {α : Type} {parts : List (Tensor α)} {rows count size : Nat} {tail : List Nat}

theorem length_flatten {heads : Tensor α → Nat} (each : ∀ part ∈ parts, part.data.length = heads part * size) :
    (parts.map data).flatten.length = (parts.map heads).sum * size := by
  induction parts with
  | nil => rw [List.map_nil, List.map_nil, List.flatten_nil, List.sum_nil, Nat.zero_mul, List.length_nil]
  | cons part parts induction =>
      rw [List.map_cons, List.map_cons, List.flatten_cons, List.length_append, List.sum_cons, Nat.add_mul,
        each part List.mem_cons_self, induction fun part member => each part (List.mem_cons_of_mem _ member)]

/-- `torch.cat` along the first dimension: all others have to agree. -/
def cat (parts : List (Tensor α)) : Option (Tensor α) :=
  match parts with
  | [] => none
  | first :: rest =>
      if same : ∀ part ∈ first :: rest, part.shape = part.shape.headD 0 :: first.shape.tail then
        some
          { shape := ((first :: rest).map fun part => part.shape.headD 0).sum :: first.shape.tail
            data := ((first :: rest).map data).flatten
            sized := by
              rw [List.prod_cons]
              apply length_flatten
              intro part member
              rw [part.sized, same part member, List.prod_cons, List.headD_cons] }
      else none

/-- `torch.stack` along a new first dimension: all shapes have to agree. -/
def stack (parts : List (Tensor α)) : Option (Tensor α) :=
  match parts with
  | [] => none
  | first :: rest =>
      if same : ∀ part ∈ first :: rest, part.shape = first.shape then
        some
          { shape := (first :: rest).length :: first.shape
            data := ((first :: rest).map data).flatten
            sized := by
              have count : ((first :: rest).map fun _ => 1).sum = (first :: rest).length := by
                rw [List.map_const', List.sum_replicate_nat, Nat.mul_one]
              rw [List.prod_cons, ← count]
              apply length_flatten
              intro part member
              rw [part.sized, same part member, Nat.one_mul] }
      else none

/-- `view`: other dimensions for the same entries. -/
def view (tensor : Tensor α) (shape : List Nat) : Option (Tensor α) :=
  if same : tensor.shape.prod = shape.prod then some ⟨shape, tensor.data, tensor.sized.trans same⟩ else none

theorem cat_some (nonempty : parts ≠ []) (each : ∀ part ∈ parts, part.shape = rows :: tail) :
    ∃ whole, cat parts = some whole ∧ whole.shape = parts.length * rows :: tail ∧ whole.data = (parts.map data).flatten := by
  cases parts with
  | nil => exact absurd rfl nonempty
  | cons first rest =>
      have heads : (first :: rest).map (fun part => part.shape.headD 0) = (first :: rest).map fun _ => rows := by
        apply List.map_congr_left
        intro part member
        rw [each part member, List.headD_cons]
      have tail_ : first.shape.tail = tail := by rw [each first List.mem_cons_self, List.tail_cons]
      have same : ∀ part ∈ first :: rest, part.shape = part.shape.headD 0 :: first.shape.tail := by
        intro part member
        rw [each part member, List.headD_cons, tail_]
      refine ⟨_, dif_pos same, ?_, rfl⟩
      dsimp only
      rw [heads, tail_, List.map_const', List.sum_replicate_nat]

theorem stack_some {shape : List Nat} (nonempty : parts ≠ []) (each : ∀ part ∈ parts, part.shape = shape) :
    ∃ whole, stack parts = some whole ∧ whole.shape = parts.length :: shape ∧ whole.data = (parts.map data).flatten := by
  cases parts with
  | nil => exact absurd rfl nonempty
  | cons first rest =>
      have own := each first List.mem_cons_self
      have same : ∀ part ∈ first :: rest, part.shape = first.shape := by
        intro part member
        rw [each part member, own]
      refine ⟨_, dif_pos same, ?_, rfl⟩
      dsimp only
      rw [own]

theorem view_some {tensor : Tensor α} (shape : List Nat) (same : tensor.shape.prod = shape.prod) :
    ∃ viewed, tensor.view shape = some viewed ∧ viewed.shape = shape ∧ viewed.data = tensor.data :=
  ⟨_, dif_pos same, rfl, rfl⟩

theorem getElem?_flatten {part : Tensor α} {place index : Nat} (each : ∀ part ∈ parts, part.data.length = size)
    (known : parts[place]? = some part) (inside : index < size) :
    (parts.map data).flatten[place * size + index]? = part.data[index]? := by
  induction parts generalizing place with
  | nil => cases known
  | cons first rest induction =>
      have own := each first List.mem_cons_self
      rw [List.map_cons, List.flatten_cons]
      cases place with
      | zero =>
          cases known
          rw [Nat.zero_mul, Nat.zero_add, List.getElem?_append_left (by omega)]
      | succ place =>
          have behind : (place + 1) * size + index - size = place * size + index := by
            rw [Nat.succ_mul]
            omega
          rw [List.getElem?_append_right (by rw [own, Nat.succ_mul]; omega), own, behind]
          exact induction (fun part member => each part (List.mem_cons_of_mem _ member)) known

end Tensor

end KtKernel.Data
