import KtKernel.Amx.ExpertTables
import KtKernel.K2.Tables
import KtKernel.Llamafile.Slots

namespace KtKernel.Backends

open KtKernel.Data
open KtKernel.Amx.ExpertFiles (Mat SlotByte rotation_permutes)

/-! Which expert the backends serve from a slot.

The AMX and K2 backends gather: slot `p` gets the expert `map p`.  The llamafile
backend scatters: slot `map p` gets the expert `p`. -/

/-- The backends of a layer, one tensor-parallel part of each. -/
structure Layer (W : Type) where
  expertNum : Nat
  amx : Amx.ExpertFiles.Config
  kernel : Amx.ExpertFiles.Kernel W
  k2 : K2.Shape
  layout : K2.Layout
  k2Part : Nat
  llamafile : Llamafile.Part
  amxExperts : amx.expertNum = expertNum
  k2Experts : k2.expertNum = expertNum
  llamafileExperts : llamafile.expertNum = expertNum
  k2Accepts : layout.Accepts k2
  llamafileAccepts : llamafile.checkBlocks = .ok ()

/-- The weights of the logical experts, in the format of each backend. -/
structure Checkpoint (S : Type) where
  projs : Mat → Nat → Nat → UInt8
  amxScales : Mat → Nat → Nat → UInt8
  k2Bytes : K2.Source UInt8
  k2Scales : K2.Source S
  gguf : Mat × Nat → UInt8

/-- The slots of the backends. -/
structure Tables (F : Type) where
  amx : Mat → SlotByte → UInt8
  k2Weights : K2.Slot × Nat → UInt8
  k2Floats : K2.Slot × Nat → F
  llamafile : Mat × Nat → UInt8

variable {W S F : Type}

structure Loaded (layer : Layer W) (convert : S → F) (map : Nat → Nat) (checkpoint : Checkpoint S)
    (tables : Tables F) : Prop where
  amx : ∃ schedule blank, ∀ mat, tables.amx mat = Amx.ExpertFiles.loaderTable layer.amx layer.kernel map schedule
    checkpoint.projs checkpoint.amxScales blank mat
  k2 : K2.Loaded layer.k2 layer.layout map convert checkpoint.k2Bytes checkpoint.k2Scales layer.k2Part
    tables.k2Weights tables.k2Floats
  llamafile : layer.llamafile.Loaded (some fun physical => (map physical : Int)) checkpoint.gguf tables.llamafile

def AmxHolds (layer : Layer W) (checkpoint : Checkpoint S) (tables : Tables F) (slot expert : Nat) : Prop :=
  ∀ mat offset,
    (layer.amx.inScales layer.kernel mat offset = true →
      tables.amx mat ⟨slot, offset⟩ =
        checkpoint.amxScales mat expert (offset - layer.amx.scaleOffset layer.kernel mat)) ∧
    (layer.amx.inScales layer.kernel mat offset = false →
      offset < layer.kernel.requiredSize (layer.amx.rows mat) (layer.amx.columns mat) - 4 * layer.amx.rows mat →
      tables.amx mat ⟨slot, offset⟩ = checkpoint.projs mat expert offset)

def K2Holds (layer : Layer W) (convert : S → F) (checkpoint : Checkpoint S) (tables : Tables F)
    (slot expert : Nat) : Prop :=
  ∀ mat row, row < layer.k2.rows mat →
    (∀ byte < layer.k2.width layer.k2.byte mat,
      tables.k2Weights (⟨mat, slot⟩, layer.layout.address (layer.k2.rows mat) (layer.k2.columns mat) row byte) =
        checkpoint.k2Bytes.cell layer.k2 layer.k2.byte mat expert
          (K2.sliceOffset layer.k2 layer.k2.byte layer.k2Part mat row byte)) ∧
    (∀ group < layer.k2.width layer.k2.group mat,
      tables.k2Floats (⟨mat, slot⟩, row * layer.k2.width layer.k2.group mat + group) =
        convert (checkpoint.k2Scales.cell layer.k2 layer.k2.group mat expert
          (K2.sliceOffset layer.k2 layer.k2.group layer.k2Part mat row group)))

def LlamafileHolds (layer : Layer W) (checkpoint : Checkpoint S) (tables : Tables F) (slot expert : Nat) : Prop :=
  layer.llamafile.Holds checkpoint.gguf tables.llamafile slot expert

def SameExpert (layer : Layer W) (convert : S → F) (checkpoint : Checkpoint S) (tables : Tables F)
    (slot : Nat) : Prop :=
  ∃ expert < layer.expertNum, AmxHolds layer checkpoint tables slot expert ∧
    K2Holds layer convert checkpoint tables slot expert ∧ LlamafileHolds layer checkpoint tables slot expert

variable {layer : Layer W} {convert : S → F} {map : Nat → Nat} {checkpoint : Checkpoint S} {tables : Tables F}
  {slot : Nat}

theorem amx_holds (loaded : Loaded layer convert map checkpoint tables) (inSlots : slot < layer.expertNum) :
    AmxHolds layer checkpoint tables slot (map slot) := by
  obtain ⟨schedule, blank, same⟩ := loaded.amx
  have owned : ∀ mat offset, tables.amx mat ⟨slot, offset⟩ =
      (Amx.ExpertFiles.loaderStore layer.amx layer.kernel map checkpoint.projs checkpoint.amxScales mat slot).run
        blank ⟨slot, offset⟩ := by
    intro mat offset
    rw [same mat]
    apply Store.runAll_owned (schedule.order_nodup _ _) (schedule.mem_order (layer.amxExperts ▸ inSlots) 4)
    intro other _ different old
    simp only [Amx.ExpertFiles.loaderStore]
    rw [if_pos (Ne.symm different)]
  intro mat offset
  constructor
  · intro scales
    rw [owned mat offset]
    apply Store.run_written
    simp [Amx.ExpertFiles.loaderStore, scales]
  · intro scales inside
    rw [owned mat offset]
    apply Store.run_written
    simp [Amx.ExpertFiles.loaderStore, scales, inside]

theorem k2_holds (loaded : Loaded layer convert map checkpoint tables) (inSlots : slot < layer.expertNum) :
    K2Holds layer convert checkpoint tables slot (map slot) := by
  rw [← layer.k2Experts] at inSlots
  intro mat row inRow
  constructor
  · intro byte inByte
    exact loaded.k2.weight layer.k2Accepts inSlots inRow inByte
  · intro group inGroup
    exact loaded.k2.float inSlots inRow inGroup

theorem llamafile_holds (loaded : Loaded layer convert map checkpoint tables)
    (permuted : Set.BijOn map (Set.Iio layer.expertNum) (Set.Iio layer.expertNum))
    (known : physical < layer.expertNum) (onCpu : layer.llamafile.onGpu (map physical) = false) :
    LlamafileHolds layer checkpoint tables (map physical) physical := by
  rw [← layer.llamafileExperts] at permuted known
  exact Llamafile.Part.loaded_holds permuted layer.llamafileAccepts loaded.llamafile known onCpu

theorem exists_loaded [Inhabited S] [Inhabited F] (layer : Layer W) (convert : S → F) (checkpoint : Checkpoint S)
    (permuted : Set.BijOn map (Set.Iio layer.expertNum) (Set.Iio layer.expertNum)) :
    ∃ tables : Tables F, Loaded layer convert map checkpoint tables := by
  rw [← layer.llamafileExperts] at permuted
  obtain ⟨local_, llamafile⟩ := Llamafile.Part.exists_loaded permuted layer.llamafileAccepts checkpoint.gguf
  obtain ⟨weights, floats, k2⟩ := K2.exists_loaded layer.k2 layer.layout map convert checkpoint.k2Bytes
    checkpoint.k2Scales layer.k2Part
  exact ⟨⟨_, weights, floats, local_⟩, ⟨.inOrder, fun _ => 0, fun mat => rfl⟩, k2, llamafile⟩

/-! ## When the conventions agree -/

def marked [Inhabited S] (layer : Layer W) (expert : Nat) : Checkpoint S where
  projs := fun _ _ _ => 0
  amxScales := fun _ _ _ => 0
  k2Bytes := .perExpert fun _ other _ => if other = expert then 1 else 0
  k2Scales := .perExpert fun _ _ _ => default
  gguf := fun cell =>
    if cell = (.gate, layer.llamafile.sourceBase .gate + expert * layer.llamafile.sourceStride .gate) then 1 else 0

theorem k2_marked [Inhabited S]
    (loaded : Loaded layer convert map (marked layer (map slot)) tables) (inSlots : slot < layer.expertNum)
    (holds : K2Holds layer convert (marked layer (map slot)) tables slot expert) : expert = map slot := by
  have first : 0 < layer.k2.rows .gate := layer.k2.partPositive
  have some_ : 0 < layer.k2.width layer.k2.byte .gate :=
    Nat.div_pos (Nat.le_of_dvd layer.k2.hiddenPositive layer.k2.byte.hidden) layer.k2.byte.positive
  have here := (k2_holds loaded inSlots .gate 0 first).1 0 some_
  have there := (holds .gate 0 first).1 0 some_
  rw [here] at there
  simp only [marked, K2.Source.cell, if_true] at there
  by_contra different
  rw [if_neg different] at there
  contradiction

theorem llamafile_marked [Inhabited S] (permuted : Set.BijOn map (Set.Iio layer.expertNum) (Set.Iio layer.expertNum))
    (loaded : Loaded layer convert map (marked layer expert) tables) (known : physical < layer.expertNum)
    (onCpu : layer.llamafile.onGpu (map physical) = false)
    (holds : LlamafileHolds layer (marked (S := S) layer expert) tables (map physical) expert) :
    physical = expert := by
  obtain ⟨some_, stride⟩ := Llamafile.Part.gate_strides_positive layer.llamafileAccepts
  have here := llamafile_holds loaded permuted known onCpu .gate 0 some_
  have there := holds .gate 0 some_
  rw [here] at there
  simp only [marked, Llamafile.Part.sliceByte, Nat.add_zero, if_true, Prod.mk.injEq, true_and] at there
  by_contra different
  rw [if_neg] at there
  · contradiction
  · intro same
    exact different (Nat.eq_of_mul_eq_mul_right stride (Nat.add_left_cancel same))

theorem same_expert_of_involution (permuted : Set.BijOn map (Set.Iio layer.expertNum) (Set.Iio layer.expertNum))
    (loaded : Loaded layer convert map checkpoint tables) (inSlots : slot < layer.expertNum)
    (onCpu : layer.llamafile.onGpu slot = false) (twice : map (map slot) = slot) :
    SameExpert layer convert checkpoint tables slot := by
  have known : map slot < layer.expertNum := permuted.mapsTo inSlots
  refine ⟨map slot, known, amx_holds loaded inSlots, k2_holds loaded inSlots, ?_⟩
  have scattered := llamafile_holds loaded permuted known (twice.symm ▸ onCpu)
  rwa [twice] at scattered

theorem involution_of_same_expert [Inhabited S]
    (permuted : Set.BijOn map (Set.Iio layer.expertNum) (Set.Iio layer.expertNum))
    (loaded : Loaded layer convert map (marked layer (map slot)) tables) (inSlots : slot < layer.expertNum)
    (onCpu : layer.llamafile.onGpu slot = false)
    (same : SameExpert layer convert (marked layer (map slot)) tables slot) : map (map slot) = slot := by
  obtain ⟨expert, -, -, k2, llamafile⟩ := same
  obtain ⟨physical, known, place⟩ := permuted.surjOn inSlots
  have gathered := k2_marked loaded inSlots k2
  subst place gathered
  have scattered := llamafile_marked permuted loaded known onCpu llamafile
  exact congrArg map scattered.symm

/-- The conventions of the backends.  AMX and K2 gather and the llamafile backend
scatters, so that they agree on every slot of the CPU, whatever the weights,
exactly when the map is its own inverse there. -/
theorem backends_conventions [Inhabited S] [Inhabited F] (layer : Layer W) (convert : S → F)
    (permuted : Set.BijOn map (Set.Iio layer.expertNum) (Set.Iio layer.expertNum)) :
    (∀ checkpoint, ∃ tables : Tables F, Loaded layer convert map checkpoint tables) ∧
    (∀ checkpoint tables, Loaded layer convert map checkpoint tables →
      (∀ slot < layer.expertNum, AmxHolds layer checkpoint tables slot (map slot) ∧
        K2Holds layer convert checkpoint tables slot (map slot)) ∧
      (∀ expert < layer.expertNum, layer.llamafile.onGpu (map expert) = false →
        LlamafileHolds layer checkpoint tables (map expert) expert)) ∧
    ((∀ checkpoint tables, Loaded layer convert map checkpoint tables →
        ∀ slot < layer.expertNum, layer.llamafile.onGpu slot = false →
          SameExpert layer convert checkpoint tables slot) ↔
      ∀ slot < layer.expertNum, layer.llamafile.onGpu slot = false → map (map slot) = slot) := by
  refine ⟨?_, ?_, ?_⟩
  · intro checkpoint
    exact exists_loaded layer convert checkpoint permuted
  · intro checkpoint tables loaded
    constructor
    · intro slot inSlots
      exact ⟨amx_holds loaded inSlots, k2_holds loaded inSlots⟩
    · intro expert known onCpu
      exact llamafile_holds loaded permuted known onCpu
  · constructor
    · intro agree slot inSlots onCpu
      obtain ⟨tables, loaded⟩ := exists_loaded layer convert (marked layer (map slot)) permuted
      exact involution_of_same_expert permuted loaded inSlots onCpu (agree _ tables loaded slot inSlots onCpu)
    · intro involution checkpoint tables loaded slot inSlots onCpu
      exact same_expert_of_involution permuted loaded inSlots onCpu (involution slot inSlots onCpu)

/-- Three experts on the CPU: INT8, packed INT4 in groups of 32, and Q8_0. -/
def threeExperts : Layer Bool where
  expertNum := 3
  amx := Amx.ExpertFiles.threeExperts
  kernel := Amx.ExpertFiles.int8OfBits
  k2 := ⟨3, 2, 64, 64, 32, Nat.two_pos, hidden_positive, hidden_positive, vector_positive, hidden_groups, hidden_groups,
    hidden_groups, hidden_groups⟩
  layout := .linear
  k2Part := 0
  llamafile := ⟨3, 64, 256, 512, 0, fun _ => ⟨32, 34, vector_positive, by decide⟩, fun _ => false, hidden_positive,
    block_positive, by decide⟩
  amxExperts := rfl
  k2Experts := rfl
  llamafileExperts := rfl
  k2Accepts := trivial
  llamafileAccepts := by decide

/-- A bf16 number as a float. -/
def widen (bits : UInt16) : UInt32 :=
  bits.toUInt32 <<< 16

theorem backends_conventions_rotation :
    Set.BijOn Amx.ExpertFiles.rotation (Set.Iio threeExperts.expertNum) (Set.Iio threeExperts.expertNum) ∧
      ((∀ checkpoint tables, Loaded threeExperts widen Amx.ExpertFiles.rotation checkpoint tables →
          ∀ slot < threeExperts.expertNum, threeExperts.llamafile.onGpu slot = false →
            SameExpert threeExperts widen checkpoint tables slot) ↔
        ∀ slot < threeExperts.expertNum, threeExperts.llamafile.onGpu slot = false →
          Amx.ExpertFiles.rotation (Amx.ExpertFiles.rotation slot) = slot) :=
  ⟨rotation_permutes, (backends_conventions threeExperts widen rotation_permutes).2.2⟩

/-- With the rotation slot 0 holds expert 1 in the AMX and K2 backends, and expert 2
in the llamafile backend. -/
theorem rotation_backends_differ :
    ∃ checkpoint tables, Loaded threeExperts widen Amx.ExpertFiles.rotation checkpoint tables ∧
      ¬ SameExpert threeExperts widen checkpoint tables 0 := by
  obtain ⟨tables, loaded⟩ := exists_loaded threeExperts widen (marked threeExperts (Amx.ExpertFiles.rotation 0)) rotation_permutes
  refine ⟨marked threeExperts (Amx.ExpertFiles.rotation 0), tables, loaded, ?_⟩
  intro same
  have twice := involution_of_same_expert rotation_permutes loaded (by decide) rfl same
  contradiction

end KtKernel.Backends
