import KtKernel.Data.Dicts
import KtKernel.Sft.WeightNames
import Mathlib.Data.List.Count
import Mathlib.Data.List.Sublists

namespace KtKernel.Convert.Merge

open KtKernel.Data

/-! The shards that `merge_cpu_weights` makes of the layers. -/

variable {κ τ : Type} {maxTensors : Nat}

structure Writer (κ τ : Type) where
  accumulated : Dict κ τ
  shard : Nat
  saved : List (Nat × Dict κ τ)

/-- The name of the file of a number, with five digits at least. -/
def shardFile (number : Nat) : List Char :=
  "model-".toList ++ (List.replicate (5 - (Sft.decimal number).length) '0' ++ Sft.decimal number) ++ ".safetensors".toList

namespace Writer

def start : Writer κ τ :=
  ⟨[], 1, []⟩

/-- `save_file` to the file of a number. -/
def saveFile (writer : Writer κ τ) (number : Nat) (batch : Dict κ τ) : Writer κ τ :=
  { writer with saved := writer.saved ++ [(number, batch)] }

variable [DecidableEq κ]

def writeShards (maxTensors : Nat) (keepRemainder : Bool) (writer : Writer κ τ) : Writer κ τ :=
  if writer.accumulated = [] then writer
  else
    let totalTensors := writer.accumulated.length
    if totalTensors ≤ maxTensors then
      if !keepRemainder then
        { writer.saveFile writer.shard writer.accumulated with shard := writer.shard + 1, accumulated := [] }
      else writer
    else
      let fullShards := totalTensors / maxTensors
      let remainder := totalTensors % maxTensors
      let items := writer.accumulated
      let currentShard := writer.shard
      let writer := (List.range fullShards).foldl (fun writer i =>
        writer.saveFile (currentShard + i) (Dict.ofList ((items.drop (i * maxTensors)).take maxTensors))) writer
      let currentShard := currentShard + fullShards
      if keepRemainder && remainder > 0 then
        { writer with accumulated := Dict.ofList (items.drop (fullShards * maxTensors)), shard := currentShard }
      else if remainder > 0 then
        { writer.saveFile currentShard (Dict.ofList (items.drop (fullShards * maxTensors))) with
          accumulated := [], shard := currentShard + 1 }
      else { writer with shard := currentShard }

/-- A round of the loop over the layers. -/
def layer (maxTensors : Nat) (writer : Writer κ τ) (layerTensors : Dict κ τ) : Writer κ τ :=
  let writer := { writer with accumulated := writer.accumulated.update layerTensors }
  if writer.accumulated.length ≥ maxTensors then writer.writeShards maxTensors true else writer

def finish (maxTensors : Nat) (writer : Writer κ τ) : Writer κ τ :=
  if writer.accumulated = [] then writer else writer.writeShards maxTensors false

end Writer

def merge [DecidableEq κ] (maxTensors : Nat) (layers : List (Dict κ τ)) : Writer κ τ :=
  (layers.foldl (Writer.layer maxTensors) Writer.start).finish maxTensors

/-- Each tensor is in one shard, the shards are neither empty nor too large, their numbers go
up from one, and no file is written twice. -/
structure WritesOnce [DecidableEq κ] (maxTensors : Nat) (layers : List (Dict κ τ)) : Prop where
  once : ((merge maxTensors layers).saved.flatMap Prod.snd).Perm layers.flatten
  sizes : ∀ shard ∈ (merge maxTensors layers).saved, 1 ≤ shard.2.length ∧ shard.2.length ≤ maxTensors
  numbers : (merge maxTensors layers).saved.map Prod.fst = List.range' 1 (merge maxTensors layers).saved.length
  apart : ((merge maxTensors layers).saved.map fun shard => shardFile shard.1).Nodup

/-- A layer that ends on a multiple of the size of a shard fills less than a shard itself, or
is the first shard. -/
def EndsWell (maxTensors before count : Nat) : Prop :=
  maxTensors ∣ before + count → count < maxTensors ∨ before = 0 ∧ count = maxTensors

def AllEndWell (maxTensors : Nat) : Nat → List Nat → Prop
  | _, [] => True
  | before, count :: rest => EndsWell maxTensors before count ∧ AllEndWell maxTensors (before + count) rest

theorem shardFile_injective : Function.Injective shardFile := by
  intro number other same
  have digits := List.append_cancel_left (List.append_cancel_right same)
  have zeros : ∀ count (text : List Char), Sft.intOf (List.replicate count '0' ++ text) = Sft.intOf text := by
    intro count text
    induction count with
    | zero => rfl
    | succ count induction => exact induction
  have numbers := congrArg Sft.intOf digits
  rwa [zeros, zeros, Sft.intOf_decimal, Sft.intOf_decimal] at numbers

/-! ## Counts -/

/-- The number of tensors that are held when nothing was written twice. -/
def pending (maxTensors before : Nat) : Nat :=
  if before = 0 then 0 else (before - 1) % maxTensors + 1

theorem pred_mod (positive : 0 < maxTensors) {count : Nat} (uneven : count % maxTensors ≠ 0) : (count - 1) % maxTensors + 1 = count % maxTensors := by
  have split := Nat.div_add_mod' count maxTensors
  have place : count - 1 = count / maxTensors * maxTensors + (count % maxTensors - 1) := by omega
  have less := Nat.mod_lt count positive
  have small : count % maxTensors - 1 < maxTensors := by omega
  rw [place, Nat.mul_comm, Nat.mul_add_mod, Nat.mod_eq_of_lt small]
  omega

theorem pending_eq (positive : 0 < maxTensors) {before : Nat} (some_ : before ≠ 0) :
    1 ≤ pending maxTensors before ∧ pending maxTensors before ≤ maxTensors ∧
      (before - 1) / maxTensors * maxTensors + pending maxTensors before = before := by
  have split := Nat.div_add_mod' (before - 1) maxTensors
  have small := Nat.mod_lt (before - 1) positive
  rw [pending, if_neg some_]
  omega

/-- The tensors that are held count like all of them. -/
theorem pending_mod (positive : 0 < maxTensors) (before count : Nat) :
    (pending maxTensors before + count) % maxTensors = (before + count) % maxTensors := by
  by_cases none : before = 0
  · rw [none]
    rfl
  · obtain ⟨-, -, split⟩ := pending_eq positive none
    have total : before + count = maxTensors * ((before - 1) / maxTensors) + (pending maxTensors before + count) := by
      rw [Nat.mul_comm]
      omega
    rw [total, Nat.mul_add_mod]

/-- What is held after a layer that ends well. -/
theorem pending_add (positive : 0 < maxTensors) {before count : Nat} (ends : EndsWell maxTensors before count) :
    pending maxTensors (before + count) =
      if pending maxTensors before + count ≤ maxTensors then pending maxTensors before + count
      else (pending maxTensors before + count) % maxTensors := by
  by_cases none : before + count = 0
  · have nothing : before = 0 ∧ count = 0 := by omega
    have held : pending maxTensors 0 + 0 = 0 := rfl
    rw [nothing.1, nothing.2, held, if_pos (Nat.zero_le _)]
    rfl
  · rw [pending, if_neg none]
    split
    next fits =>
      by_cases first : before = 0
      · have held : pending maxTensors before = 0 := if_pos first
        rw [held] at fits ⊢
        rw [first, Nat.mod_eq_of_lt (by omega)]
        omega
      · obtain ⟨some_, -, split⟩ := pending_eq positive first
        have place : before + count - 1 = maxTensors * ((before - 1) / maxTensors) + (pending maxTensors before + count - 1) := by
          rw [Nat.mul_comm]
          omega
        rw [place, Nat.mul_add_mod, Nat.mod_eq_of_lt (by omega)]
        omega
    next more =>
      have uneven : (before + count) % maxTensors ≠ 0 := by
        intro even
        have divides := Nat.dvd_of_mod_eq_zero even
        have held : (pending maxTensors before + count) % maxTensors = 0 := by rw [pending_mod positive, even]
        rcases ends divides with few | ⟨first, exact_⟩
        · by_cases first : before = 0
          · have zero : pending maxTensors before = 0 := if_pos first
            omega
          · obtain ⟨-, fits, -⟩ := pending_eq positive first
            rw [Nat.mod_eq_sub_mod (by omega), Nat.mod_eq_of_lt (by omega)] at held
            omega
        · have zero : pending maxTensors before = 0 := if_pos first
          omega
      rw [pred_mod positive uneven, pending_mod positive]

/-- A layer that does not end well fills shards without a remainder. -/
theorem whole_of_not_ends (positive : 0 < maxTensors) {before count : Nat} (ends : ¬ EndsWell maxTensors before count) :
    maxTensors < pending maxTensors before + count ∧ (pending maxTensors before + count) % maxTensors = 0 := by
  simp only [EndsWell, Classical.not_imp, not_or, not_and, Nat.not_lt] at ends
  obtain ⟨divides, many, other⟩ := ends
  refine ⟨?_, by rw [pending_mod positive, Nat.mod_eq_zero_of_dvd divides]⟩
  by_cases first : before = 0
  · have different := other first
    omega
  · obtain ⟨some_, -, -⟩ := pending_eq positive first
    omega

/-! ## Batches -/

/-- The batches of the whole shards. -/
def fullBatches (maxTensors : Nat) (items : Dict κ τ) (count : Nat) : List (Dict κ τ) :=
  (List.range count).map fun i => (items.drop (i * maxTensors)).take maxTensors

theorem flatten_fullBatches (maxTensors : Nat) (items : Dict κ τ) (count : Nat) :
    (fullBatches maxTensors items count).flatten = items.take (count * maxTensors) := by
  induction count with
  | zero => rw [Nat.zero_mul, List.take_zero]; rfl
  | succ count induction =>
      rw [fullBatches] at induction ⊢
      rw [List.range_succ, List.map_append, List.flatten_append, induction, List.map_singleton, List.flatten_singleton, Nat.succ_mul,
        List.take_add]

theorem fullBatches_length (positive : 0 < maxTensors) (items : Dict κ τ) :
    ∀ batch ∈ fullBatches maxTensors items (items.length / maxTensors), 1 ≤ batch.length ∧ batch.length ≤ maxTensors := by
  intro batch member
  obtain ⟨i, inRange, rfl⟩ := List.mem_map.mp member
  have last := Nat.mul_le_mul_right maxTensors (show i + 1 ≤ items.length / maxTensors from List.mem_range.mp inRange)
  have whole := Nat.div_mul_le_self items.length maxTensors
  rw [Nat.succ_mul] at last
  rw [List.length_take, List.length_drop]
  omega

namespace Writer

variable {writer : Writer κ τ} {batches : List (Dict κ τ)}

/-- Batches saved to the files from the next number on. -/
def saveAll (writer : Writer κ τ) (batches : List (Dict κ τ)) (held : Dict κ τ) : Writer κ τ where
  accumulated := held
  shard := writer.shard + batches.length
  saved := writer.saved ++ (List.range' writer.shard batches.length).zip batches

theorem saveAll_saved (writer : Writer κ τ) (batches : List (Dict κ τ)) (held : Dict κ τ) :
    (writer.saveAll batches held).saved.flatMap Prod.snd = writer.saved.flatMap Prod.snd ++ batches.flatten := by
  have contents : ((List.range' writer.shard batches.length).zip batches).map Prod.snd = batches :=
    List.map_snd_zip (by rw [List.length_range'])
  have saved : ((List.range' writer.shard batches.length).zip batches).flatMap Prod.snd = batches.flatten := by
    rw [List.flatMap_def, contents]
  rw [saveAll, List.flatMap_append, saved]

def taking (writer : Writer κ τ) (layerTensors : Dict κ τ) : Writer κ τ :=
  { writer with accumulated := writer.accumulated ++ layerTensors }

def tensors (writer : Writer κ τ) : List (κ × τ) :=
  writer.saved.flatMap Prod.snd ++ writer.accumulated

theorem tensors_taking (writer : Writer κ τ) (layerTensors : Dict κ τ) :
    (writer.taking layerTensors).tensors = writer.tensors ++ layerTensors := by
  rw [tensors, tensors, List.append_assoc]
  rfl

/-- Numbers go up from one, and the batches fit. -/
structure Fine (maxTensors : Nat) (writer : Writer κ τ) : Prop where
  numbers : writer.saved.map Prod.fst = List.range' 1 writer.saved.length
  next : writer.shard = 1 + writer.saved.length
  sizes : ∀ shard ∈ writer.saved, 1 ≤ shard.2.length ∧ shard.2.length ≤ maxTensors

theorem fine_start (maxTensors : Nat) : (start : Writer κ τ).Fine maxTensors where
  numbers := rfl
  next := rfl
  sizes := fun _ member => (List.not_mem_nil member).elim

theorem saveAll_fine (fine : writer.Fine maxTensors) (fits : ∀ batch ∈ batches, 1 ≤ batch.length ∧ batch.length ≤ maxTensors)
    (held : Dict κ τ) : (writer.saveAll batches held).Fine maxTensors where
  numbers := by
    have numbers : ((List.range' writer.shard batches.length).zip batches).map Prod.fst = List.range' writer.shard batches.length :=
      List.map_fst_zip (by rw [List.length_range'])
    rw [saveAll, List.map_append, numbers, fine.numbers, fine.next, List.length_append, List.length_zip, List.length_range', Nat.min_self,
      List.range'_append_1]
  next := by
    rw [saveAll, fine.next, List.length_append, List.length_zip, List.length_range', Nat.min_self, Nat.add_assoc]
  sizes := by
    intro shard member
    rcases List.mem_append.mp member with old | new
    · exact fine.sizes shard old
    · exact fits shard.2 (List.of_mem_zip new).2

theorem Fine.taking (fine : writer.Fine maxTensors) (layerTensors : Dict κ τ) : (writer.taking layerTensors).Fine maxTensors :=
  ⟨fine.numbers, fine.next, fine.sizes⟩

/-- A tensor is saved or held a second time. -/
def Doubled (writer : Writer κ τ) : Prop :=
  ¬ writer.tensors.Nodup

theorem Doubled.mono {after : Writer κ τ} (doubled : writer.Doubled) (kept : writer.tensors.Subperm after.tensors) : after.Doubled := by
  intro once
  obtain ⟨part, same, inside⟩ := kept
  exact doubled (same.nodup_iff.mp (once.sublist inside))

/-- Saving what is held, and holding some of it still, loses nothing. -/
theorem tensors_saveAll {held : Dict κ τ} (all : writer.accumulated.Subperm (batches.flatten ++ held)) :
    writer.tensors.Subperm (writer.saveAll batches held).tensors := by
  rw [tensors, tensors, saveAll_saved, List.append_assoc]
  exact (List.Subperm.refl _).append all

variable [DecidableEq κ]

theorem fullShards_eq (distinct : (Dict.keys writer.accumulated).Nodup) (maxTensors count : Nat) :
    (List.range count).foldl (fun after i => after.saveFile (writer.shard + i)
        (Dict.ofList ((writer.accumulated.drop (i * maxTensors)).take maxTensors))) writer =
      { writer with saved := writer.saved ++ (List.range' writer.shard count).zip (fullBatches maxTensors writer.accumulated count) } := by
  rw [fullBatches, List.range'_eq_map_range, List.zip_map']
  induction count with
  | zero => rw [List.range_zero, List.foldl_nil, List.map_nil, List.append_nil]
  | succ count induction =>
      have inside : (Dict.keys ((writer.accumulated.drop (count * maxTensors)).take maxTensors)).Nodup :=
        distinct.sublist (((List.take_sublist _ _).trans (List.drop_sublist _ _)).map Prod.fst)
      rw [List.range_succ, List.foldl_append, induction, List.foldl_cons, List.foldl_nil, saveFile, Dict.ofList_distinct inside,
        List.map_append, List.append_assoc]
      rfl

/-- A write with a remainder to keep saves more than a shard up to the last whole one, but
takes nothing from the accumulator when nothing remains. -/
theorem writeShards_keep (distinct : (Dict.keys writer.accumulated).Nodup) (more : maxTensors < writer.accumulated.length) :
    writer.writeShards maxTensors true =
      writer.saveAll (fullBatches maxTensors writer.accumulated (writer.accumulated.length / maxTensors))
        (if writer.accumulated.length % maxTensors = 0 then writer.accumulated
          else writer.accumulated.drop (writer.accumulated.length / maxTensors * maxTensors)) := by
  have some_ : writer.accumulated ≠ [] := List.ne_nil_of_length_pos (by omega)
  have rest : (Dict.keys (writer.accumulated.drop (writer.accumulated.length / maxTensors * maxTensors))).Nodup :=
    distinct.sublist ((List.drop_sublist _ _).map Prod.fst)
  have count : (fullBatches maxTensors writer.accumulated (writer.accumulated.length / maxTensors)).length =
      writer.accumulated.length / maxTensors := by rw [fullBatches, List.length_map, List.length_range]
  rw [writeShards, if_neg some_, saveAll, count]
  simp only [if_neg (Nat.not_le.mpr more), fullShards_eq distinct, Dict.ofList_distinct rest]
  by_cases none : writer.accumulated.length % maxTensors = 0
  · rw [if_pos none, none]
    rfl
  · rw [if_neg none, decide_eq_true (Nat.pos_of_ne_zero none)]
    rfl

/-- The last write saves all that is held. -/
theorem writeShards_all (positive : 0 < maxTensors) (distinct : (Dict.keys writer.accumulated).Nodup) (some_ : writer.accumulated ≠ []) :
    ∃ batches held, writer.writeShards maxTensors false = writer.saveAll batches held ∧ batches.flatten = writer.accumulated ∧
      ∀ batch ∈ batches, 1 ≤ batch.length ∧ batch.length ≤ maxTensors := by
  have nonempty := List.length_pos_iff.mpr some_
  rw [writeShards, if_neg some_]
  by_cases fits : writer.accumulated.length ≤ maxTensors
  · refine ⟨[writer.accumulated], [], ?_, List.flatten_singleton, ?_⟩
    · rw [if_pos fits]
      rfl
    · intro batch member
      rw [List.mem_singleton.mp member]
      exact ⟨nonempty, fits⟩
  · have rest : (Dict.keys (writer.accumulated.drop (writer.accumulated.length / maxTensors * maxTensors))).Nodup :=
      distinct.sublist ((List.drop_sublist _ _).map Prod.fst)
    have count : (fullBatches maxTensors writer.accumulated (writer.accumulated.length / maxTensors)).length =
        writer.accumulated.length / maxTensors := by rw [fullBatches, List.length_map, List.length_range]
    have split := Nat.div_add_mod' writer.accumulated.length maxTensors
    have small := Nat.mod_lt writer.accumulated.length positive
    have whole := fullBatches_length positive writer.accumulated
    simp only [if_neg fits, fullShards_eq distinct, Dict.ofList_distinct rest, Bool.false_and, Bool.false_eq_true, if_false]
    by_cases none : writer.accumulated.length % maxTensors = 0
    · refine ⟨_, writer.accumulated, ?_, ?_, whole⟩
      · rw [none, saveAll, count]
        rfl
      · rw [flatten_fullBatches, List.take_of_length_le (by omega)]
    · refine ⟨fullBatches maxTensors writer.accumulated (writer.accumulated.length / maxTensors) ++
        [writer.accumulated.drop (writer.accumulated.length / maxTensors * maxTensors)], [], ?_, ?_, ?_⟩
      · rw [if_pos (Nat.pos_of_ne_zero none), saveAll, List.length_append, count, List.length_singleton, List.range'_concat,
          List.zip_append (by rw [List.length_range', count]), saveFile, List.append_assoc, Nat.one_mul]
        rfl
      · rw [List.flatten_append, flatten_fullBatches, List.flatten_singleton, List.take_append_drop]
      · intro batch member
        rcases List.mem_append.mp member with inWhole | last
        · exact whole batch inWhole
        · rw [List.mem_singleton.mp last, List.length_drop]
          omega

theorem layer_eq {layerTensors : Dict κ τ} (distinct : (Dict.keys (writer.accumulated ++ layerTensors)).Nodup) :
    writer.layer maxTensors layerTensors =
      if (writer.taking layerTensors).accumulated.length ≤ maxTensors then writer.taking layerTensors
      else (writer.taking layerTensors).saveAll
        (fullBatches maxTensors (writer.taking layerTensors).accumulated ((writer.taking layerTensors).accumulated.length / maxTensors))
        (if (writer.taking layerTensors).accumulated.length % maxTensors = 0 then (writer.taking layerTensors).accumulated
          else (writer.taking layerTensors).accumulated.drop ((writer.taking layerTensors).accumulated.length / maxTensors * maxTensors)) := by
  rw [layer, Dict.update_fresh distinct]
  show (if (writer.taking layerTensors).accumulated.length ≥ maxTensors then (writer.taking layerTensors).writeShards maxTensors true
    else writer.taking layerTensors) = _
  by_cases more : maxTensors < (writer.taking layerTensors).accumulated.length
  · rw [if_pos (Nat.le_of_lt more), if_neg (Nat.not_le.mpr more)]
    exact writeShards_keep distinct more
  · rw [if_pos (Nat.le_of_not_lt more)]
    split
    · rw [writeShards, if_pos (Nat.le_of_not_lt more)]
      split
      · rfl
      · rfl
    · rfl

/-- The tensors up to here are saved or held, each once and in order. -/
structure Exact (maxTensors : Nat) (processed : List (κ × τ)) (writer : Writer κ τ) : Prop where
  tensors : writer.tensors = processed
  held : writer.accumulated.length = pending maxTensors processed.length
  fine : writer.Fine maxTensors

variable {processed : List (κ × τ)} {layerTensors : Dict κ τ}

/-- A round of the loop, on what was saved exactly and on what was doubled. -/
theorem layer_step (positive : 0 < maxTensors) (held : writer.accumulated.Sublist processed)
    (distinct : (Dict.keys (processed ++ layerTensors)).Nodup) :
    (writer.layer maxTensors layerTensors).accumulated.Sublist (processed ++ layerTensors) ∧
      (writer.Doubled → (writer.layer maxTensors layerTensors).Doubled) ∧
      (writer.Exact maxTensors processed →
        (EndsWell maxTensors processed.length layerTensors.length →
          (writer.layer maxTensors layerTensors).Exact maxTensors (processed ++ layerTensors)) ∧
        (¬ EndsWell maxTensors processed.length layerTensors.length → (writer.layer maxTensors layerTensors).Doubled)) := by
  have taken : (writer.taking layerTensors).accumulated.Sublist (processed ++ layerTensors) := held.append (.refl _)
  have apart : (Dict.keys (writer.accumulated ++ layerTensors)).Nodup := distinct.sublist (taken.map Prod.fst)
  have grown : writer.tensors.Subperm (writer.taking layerTensors).tensors := by
    rw [tensors_taking]
    exact (List.sublist_append_left _ _).subperm
  have count : (writer.taking layerTensors).accumulated.length = writer.accumulated.length + layerTensors.length := List.length_append
  rw [layer_eq apart]
  by_cases fits : (writer.taking layerTensors).accumulated.length ≤ maxTensors
  · rw [if_pos fits]
    refine ⟨taken, fun doubled => doubled.mono grown, ?_⟩
    intro exact_
    rw [count, exact_.held] at fits
    constructor
    · intro ends
      refine ⟨by rw [tensors_taking, exact_.tensors], ?_, exact_.fine.taking layerTensors⟩
      rw [count, exact_.held, List.length_append, pending_add positive ends, if_pos fits]
    · intro ends
      exact absurd fits (Nat.not_le.mpr (whole_of_not_ends positive ends).1)
  · rw [if_neg fits]
    have batches := fullBatches_length positive (writer.taking layerTensors).accumulated
    have contents := flatten_fullBatches maxTensors (writer.taking layerTensors).accumulated
      ((writer.taking layerTensors).accumulated.length / maxTensors)
    have split := Nat.div_add_mod' (writer.taking layerTensors).accumulated.length maxTensors
    by_cases even : (writer.taking layerTensors).accumulated.length % maxTensors = 0
    · rw [if_pos even]
      have all : (fullBatches maxTensors (writer.taking layerTensors).accumulated
          ((writer.taking layerTensors).accumulated.length / maxTensors)).flatten = (writer.taking layerTensors).accumulated := by
        rw [contents, List.take_of_length_le (by omega)]
      refine ⟨taken, fun doubled => ?_, fun exact_ => ⟨fun ends => ?_, fun _ => ?_⟩⟩
      · apply (doubled.mono grown).mono
        apply tensors_saveAll
        rw [all]
        exact (List.sublist_append_left _ _).subperm
      · rw [count, exact_.held] at even fits
        have mismatch := pending_add positive ends
        rw [if_neg fits, even] at mismatch
        have none : processed.length + layerTensors.length = 0 := by
          by_contra some_
          rw [pending, if_neg some_] at mismatch
          omega
        have zero : pending maxTensors processed.length = 0 := if_pos (by omega)
        omega
      · intro once
        rw [tensors, saveAll_saved, all, List.append_assoc] at once
        have twice := once.of_append_right
        have first : (writer.taking layerTensors).accumulated ≠ [] := List.ne_nil_of_length_pos (by omega)
        obtain ⟨entry, member⟩ := List.exists_mem_of_ne_nil _ first
        exact List.disjoint_of_nodup_append twice member member
    · rw [if_neg even]
      have all : (fullBatches maxTensors (writer.taking layerTensors).accumulated
          ((writer.taking layerTensors).accumulated.length / maxTensors)).flatten ++ (writer.taking layerTensors).accumulated.drop
            ((writer.taking layerTensors).accumulated.length / maxTensors * maxTensors) = (writer.taking layerTensors).accumulated := by
        rw [contents, List.take_append_drop]
      refine ⟨(List.drop_sublist _ _).trans taken, fun doubled => ?_, fun exact_ => ⟨fun ends => ?_, fun ends => ?_⟩⟩
      · apply (doubled.mono grown).mono
        apply tensors_saveAll
        rw [all]
      · refine ⟨?_, ?_, saveAll_fine (exact_.fine.taking layerTensors) batches _⟩
        · have whole := tensors_taking writer layerTensors
          rw [exact_.tensors] at whole
          rw [tensors, saveAll_saved, List.append_assoc, ← whole, tensors]
          exact congrArg _ all
        · have left : ((writer.taking layerTensors).accumulated.drop
              ((writer.taking layerTensors).accumulated.length / maxTensors * maxTensors)).length =
              (writer.taking layerTensors).accumulated.length % maxTensors := by
            rw [List.length_drop]
            omega
          rw [count, exact_.held] at fits
          show List.length (List.drop _ _) = _
          rw [left, count, exact_.held, List.length_append, pending_add positive ends, if_neg fits]
      · rw [count, exact_.held] at even
        exact absurd (whole_of_not_ends positive ends).2 even

/-- The loop over the layers. -/
theorem run_layers (positive : 0 < maxTensors) (layers : List (Dict κ τ)) (held : writer.accumulated.Sublist processed)
    (distinct : (Dict.keys (processed ++ layers.flatten)).Nodup) :
    (layers.foldl (Writer.layer maxTensors) writer).accumulated.Sublist (processed ++ layers.flatten) ∧
      (writer.Doubled → (layers.foldl (Writer.layer maxTensors) writer).Doubled) ∧
      (writer.Exact maxTensors processed →
        (AllEndWell maxTensors processed.length (layers.map List.length) →
          (layers.foldl (Writer.layer maxTensors) writer).Exact maxTensors (processed ++ layers.flatten)) ∧
        (¬ AllEndWell maxTensors processed.length (layers.map List.length) → (layers.foldl (Writer.layer maxTensors) writer).Doubled)) := by
  induction layers generalizing writer processed with
  | nil =>
      rw [List.flatten_nil, List.append_nil, List.foldl_nil]
      exact ⟨held, id, fun exact_ => ⟨fun _ => exact_, fun ends => absurd trivial ends⟩⟩
  | cons first rest induction =>
      rw [List.flatten_cons, ← List.append_assoc] at distinct ⊢
      have firstDistinct : (Dict.keys (processed ++ first)).Nodup := distinct.sublist ((List.sublist_append_left _ _).map Prod.fst)
      obtain ⟨heldNext, doubledNext, exactNext⟩ := layer_step positive held firstDistinct
      obtain ⟨heldLast, doubledLast, exactLast⟩ := induction heldNext distinct
      rw [List.foldl_cons, List.map_cons, AllEndWell]
      refine ⟨heldLast, fun doubled => doubledLast (doubledNext doubled), fun exact_ => ?_⟩
      obtain ⟨good, bad⟩ := exactNext exact_
      by_cases ends : EndsWell maxTensors processed.length first.length
      · obtain ⟨goodLast, badLast⟩ := exactLast (good ends)
        rw [List.length_append] at goodLast badLast
        exact ⟨fun all => goodLast all.2, fun fails => badLast fun rest => fails ⟨ends, rest⟩⟩
      · exact ⟨fun all => absurd all.1 ends, fun _ => doubledLast (bad ends)⟩

theorem layer_kept (positive : 0 < maxTensors) (held : writer.accumulated.Sublist processed)
    (distinct : (Dict.keys (processed ++ layerTensors)).Nodup) (kept : processed.Subperm writer.tensors) (fine : writer.Fine maxTensors) :
    (processed ++ layerTensors).Subperm (writer.layer maxTensors layerTensors).tensors ∧ (writer.layer maxTensors layerTensors).Fine maxTensors := by
  have grown : (processed ++ layerTensors).Subperm (writer.taking layerTensors).tensors := by
    rw [tensors_taking]
    exact kept.append (.refl _)
  rw [layer_eq (distinct.sublist ((held.append (.refl _)).map Prod.fst))]
  split
  · exact ⟨grown, fine.taking _⟩
  · refine ⟨grown.trans (tensors_saveAll ?_), saveAll_fine (fine.taking _) (fullBatches_length positive _) _⟩
    have split := Nat.div_add_mod' (writer.taking layerTensors).accumulated.length maxTensors
    rw [flatten_fullBatches]
    split
    · rw [List.take_of_length_le (by omega)]
      exact (List.sublist_append_left _ _).subperm
    · rw [List.take_append_drop]

theorem run_kept (positive : 0 < maxTensors) (layers : List (Dict κ τ)) (held : writer.accumulated.Sublist processed)
    (distinct : (Dict.keys (processed ++ layers.flatten)).Nodup) (kept : processed.Subperm writer.tensors) (fine : writer.Fine maxTensors) :
    (processed ++ layers.flatten).Subperm (layers.foldl (Writer.layer maxTensors) writer).tensors ∧
      (layers.foldl (Writer.layer maxTensors) writer).Fine maxTensors := by
  induction layers generalizing writer processed with
  | nil =>
      rw [List.flatten_nil, List.append_nil]
      exact ⟨kept, fine⟩
  | cons first rest induction =>
      rw [List.flatten_cons, ← List.append_assoc] at distinct ⊢
      have apart : (Dict.keys (processed ++ first)).Nodup := distinct.sublist ((List.sublist_append_left _ _).map Prod.fst)
      obtain ⟨keptNext, fineNext⟩ := layer_kept positive held apart kept fine
      exact induction (layer_step positive held apart).1 distinct keptNext fineNext

theorem finish_saved (positive : 0 < maxTensors) (distinct : (Dict.keys writer.accumulated).Nodup) :
    (writer.finish maxTensors).saved.flatMap Prod.snd = writer.tensors ∧
      (writer.Fine maxTensors → (writer.finish maxTensors).Fine maxTensors) := by
  rw [finish]
  split
  next none => exact ⟨by rw [tensors, none, List.append_nil], id⟩
  next some_ =>
    obtain ⟨batches, held, wrote, all, fits⟩ := writeShards_all positive distinct some_
    rw [wrote, saveAll_saved, all]
    exact ⟨rfl, fun fine => saveAll_fine fine fits held⟩

end Writer

/-- The shards hold every tensor once, when every layer ends well. -/
theorem writesOnce_iff [DecidableEq κ] (positive : 0 < maxTensors) (layers : List (Dict κ τ)) (distinct : (Dict.keys layers.flatten).Nodup) :
    WritesOnce maxTensors layers ↔ AllEndWell maxTensors 0 (layers.map List.length) := by
  have exactStart : (Writer.start : Writer κ τ).Exact maxTensors [] := ⟨rfl, rfl, Writer.fine_start maxTensors⟩
  have apart : (Dict.keys ([] ++ layers.flatten)).Nodup := distinct
  obtain ⟨held, -, run⟩ := Writer.run_layers positive layers (List.Sublist.refl (Writer.start : Writer κ τ).accumulated) apart
  obtain ⟨good, bad⟩ := run exactStart
  obtain ⟨saved, fine⟩ := Writer.finish_saved positive (distinct.sublist (held.map Prod.fst))
  constructor
  · intro once
    by_contra fails
    apply bad fails
    rw [← saved]
    exact once.once.nodup_iff.mpr (distinct.of_map Prod.fst)
  · intro ends
    obtain ⟨tensors, -, written⟩ := good ends
    have last : (merge maxTensors layers).Fine maxTensors := fine written
    refine ⟨?_, last.sizes, last.numbers, ?_⟩
    · rw [merge, saved, tensors]
      exact .refl _
    · have names : (merge maxTensors layers).saved.map (fun shard => shardFile shard.1) =
          ((merge maxTensors layers).saved.map Prod.fst).map shardFile := by
        rw [List.map_map]
        rfl
      rw [names, last.numbers]
      exact List.Nodup.map shardFile_injective List.nodup_range'

/-- Three layers of three tensors, in shards of four. -/
theorem writesOnce_threes : WritesOnce 4 [[(0, 'a'), (1, 'b'), (2, 'c')], [(3, 'd'), (4, 'e'), (5, 'f')], [(6, 'g'), (7, 'h'), (8, 'i')]] :=
  (writesOnce_iff (by decide) _ (by decide)).mpr
    ⟨fun _ => .inl (by decide), fun _ => .inl (by decide), fun _ => .inl (by decide), trivial⟩

/-- One layer of four tensors, in shards of two. -/
theorem not_writesOnce : ¬ WritesOnce 2 [[(0, 'a'), (1, 'b'), (2, 'c'), (3, 'd')]] := by
  intro once
  have lengths := once.once.length_eq
  exact absurd lengths (by decide)

/-- Whatever the layers' sizes, no tensor is lost, and the shards are fine. -/
theorem merge_keeps [DecidableEq κ] (positive : 0 < maxTensors) (layers : List (Dict κ τ)) (distinct : (Dict.keys layers.flatten).Nodup) :
    layers.flatten.Subperm ((merge maxTensors layers).saved.flatMap Prod.snd) ∧ (merge maxTensors layers).Fine maxTensors := by
  have apart : (Dict.keys ([] ++ layers.flatten)).Nodup := distinct
  have held := (Writer.run_layers positive layers (List.Sublist.refl (Writer.start : Writer κ τ).accumulated) apart).1
  obtain ⟨saved, fine⟩ := Writer.finish_saved positive (distinct.sublist (held.map Prod.fst))
  obtain ⟨kept, written⟩ := Writer.run_kept positive layers (List.Sublist.refl _) apart (.refl _) (Writer.fine_start maxTensors)
  rw [merge, saved]
  exact ⟨kept, fine written⟩

theorem merge_keeps_doubled : [(0, 'a'), (1, 'b')].Subperm ((merge 1 [[(0, 'a'), (1, 'b')]]).saved.flatMap Prod.snd) :=
  (merge_keeps (by decide) [[(0, 'a'), (1, 'b')]] (by decide)).1

end KtKernel.Convert.Merge
