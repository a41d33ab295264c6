import KtKernel.Data.Tiling
import KtKernel.Llamafile.Load

namespace KtKernel.Llamafile

open KtKernel.Data
open KtKernel.Amx.ExpertFiles (Mat)

/-! The expert in each slot after `load_weights`. -/

variable {part : Part} {map : Nat → Nat} {source local_ : Mat × Nat → UInt8} {physical slot expert inner : Nat}
  {mat : Mat}

namespace Part

def sliceByte (part : Part) (source : Mat × Nat → UInt8) (expert : Nat) (mat : Mat) (inner : Nat) : UInt8 :=
  let base := part.sourceBase mat + expert * part.sourceStride mat
  match mat with
  | .down =>
      let width := (part.format .down).bytes part.intermediateSize
      source (.down, base + inner / width * (part.format .down).bytes part.completeSize + inner % width)
  | mat => source (mat, base + inner)

def Holds (part : Part) (source local_ : Mat × Nat → UInt8) (slot expert : Nat) : Prop :=
  ∀ mat, ∀ inner < part.targetStride mat,
    local_ (mat, slot * part.targetStride mat + inner) = part.sliceByte source expert mat inner

/-- The check accepts a permutation and recognises the identity. -/
theorem scanMap_permutation {expertNum : Nat} {map : Nat → Int} {seen : Int → Bool} {identity : Bool} {rest : List Nat}
    (distinct : rest.Nodup) (inside : ∀ physical ∈ rest, 0 ≤ map physical ∧ map physical < expertNum)
    (injective : ∀ first ∈ rest, ∀ second ∈ rest, map first = map second → first = second)
    (fresh : ∀ physical ∈ rest, seen (map physical) = false) :
    scanMap expertNum map rest seen identity = .ok (identity && rest.all fun physical => map physical = physical) := by
  induction rest generalizing seen identity with
  | nil => simp [scanMap]
  | cons physical rest induction =>
      obtain ⟨absent, distinctRest⟩ := List.nodup_cons.mp distinct
      have bounds := inside physical (.head _)
      have unseen := fresh physical (.head _)
      have accepted : ¬ (map physical < 0 ∨ map physical ≥ expertNum ∨ seen (map physical) = true) := by
        rw [unseen]
        simp only [Bool.false_eq_true, or_false]
        omega
      rw [scanMap, if_neg accepted, induction distinctRest]
      · rw [List.all_cons, Bool.and_assoc]
      · intro other member
        exact inside other (.tail _ member)
      · intro first inFirst second inSecond
        exact injective first (.tail _ inFirst) second (.tail _ inSecond)
      · intro other member
        have different : map other ≠ map physical := by
          intro same
          exact absent (injective other (.tail _ member) physical (.head _) same ▸ member)
        simp only [Bool.or_eq_false_iff, decide_eq_false_iff_not]
        exact ⟨different, fresh other (.tail _ member)⟩

theorem identityMapping_permutation (permuted : Set.BijOn map (Set.Iio part.expertNum) (Set.Iio part.expertNum)) :
    part.identityMapping (some fun physical => (map physical : Int)) =
      .ok ((List.range part.expertNum).all fun physical => map physical = physical) := by
  rw [identityMapping, scanMap_permutation List.nodup_range]
  · simp only [Bool.true_and, Int.natCast_inj]
  · intro physical member
    have bound : map physical < part.expertNum := permuted.mapsTo (List.mem_range.mp member)
    omega
  · intro first inFirst second inSecond same
    exact permuted.injOn (List.mem_range.mp inFirst) (List.mem_range.mp inSecond) (Int.natCast_inj.mp same)
  · intro physical _
    rfl

/-! ## The copies -/

theorem copyMat_within (part : Part) (source : Mat × Nat → UInt8) (physical logical : Nat) (mat : Mat) :
    Copy.Within (part.copyMat source physical logical mat) mat (logical * part.targetStride mat)
      ((logical + 1) * part.targetStride mat) := by
  rw [Nat.add_mul, Nat.one_mul]
  cases mat with
  | down => exact Copy.strided_within _ _ (Nat.le_refl _)
  | up => exact Copy.Within.single rfl (Nat.le_refl _) (Nat.le_refl _)
  | gate => exact Copy.Within.single rfl (Nat.le_refl _) (Nat.le_refl _)

theorem copyMat_delivers (part : Part) (source : Mat × Nat → UInt8) (physical logical : Nat)
    (inside : inner < part.targetStride mat) :
    Copy.Delivers (part.copyMat source physical logical mat) (mat, logical * part.targetStride mat + inner)
      (part.sliceByte source physical mat inner) := by
  have whole : ∀ value : Nat → UInt8,
      Copy.Delivers [⟨mat, logical * part.targetStride mat, part.targetStride mat, value⟩]
        (mat, logical * part.targetStride mat + inner) (value inner) := by
    intro value
    apply Copy.Delivers.single
    · rw [Copy.covers_iff]
      exact ⟨rfl, Nat.le_add_right _ _, Nat.add_lt_add_left inside _⟩
    · simp only [Nat.add_sub_cancel_left]
  cases mat with
  | down =>
      have width : 0 < (part.format .down).bytes part.intermediateSize := by
        apply Nat.pos_of_ne_zero
        intro empty
        rw [targetStride, empty, Nat.mul_zero] at inside
        omega
      have inRow : inner / (part.format .down).bytes part.intermediateSize < part.hiddenSize := by
        apply Nat.div_lt_of_lt_mul
        rw [Nat.mul_comm]
        exact inside
      have split := Nat.div_add_mod' inner ((part.format .down).bytes part.intermediateSize)
      have row : Copy.Delivers (part.copyMat source physical logical .down)
          (.down, logical * part.targetStride .down +
            inner / (part.format .down).bytes part.intermediateSize *
              (part.format .down).bytes part.intermediateSize +
            inner % (part.format .down).bytes part.intermediateSize)
          (part.sliceByte source physical .down inner) :=
        Copy.strided_delivers _ _ _ (Nat.le_refl _) inRow (Nat.mod_lt inner width)
      rw [Nat.add_assoc, split] at row
      exact row
  | up => exact whole _
  | gate => exact whole _

theorem copyExpert_mapped (part : Part) (map : Nat → Nat) (source : Mat × Nat → UInt8) (physical : Nat) :
    part.copyExpert (some fun physical => (map physical : Int)) source physical =
      if part.shouldSkipExpert (map physical) then []
      else [.gate, .up, .down].flatMap (part.copyMat source physical (map physical)) := rfl

/-- Copying puts the slice of a source expert into the slot that the map names. -/
theorem copies_deliver (permuted : Set.BijOn map (Set.Iio part.expertNum) (Set.Iio part.expertNum))
    (source : Mat × Nat → UInt8) (known : physical < part.expertNum) (onCpu : part.onGpu (map physical) = false)
    (inside : inner < part.targetStride mat) :
    Copy.Delivers ((List.range part.expertNum).flatMap
        (part.copyExpert (some fun physical => (map physical : Int)) source))
      (mat, map physical * part.targetStride mat + inner) (part.sliceByte source physical mat inner) := by
  have bound : map physical < part.expertNum := permuted.mapsTo known
  have kept : part.shouldSkipExpert (map physical : Int) = false := by
    simp only [shouldSkipExpert, Int.toNat_natCast, onCpu, Bool.or_false, Bool.or_eq_false_iff,
      decide_eq_false_iff_not]
    omega
  have inMats : mat ∈ [Mat.gate, Mat.up, Mat.down] := by
    cases mat with
    | up => decide
    | gate => decide
    | down => decide
  apply Copy.Delivers.range known
  · rw [copyExpert_mapped, kept, if_neg (by decide)]
    apply Copy.Delivers.flatMap (by decide) inMats (part.copyMat_delivers source physical (map physical) inside)
    intro other _ different
    apply (part.copyMat_within source physical (map physical) other).writes_eq_zero
    intro covered
    exact different covered.1
  · intro other inExperts different
    rw [copyExpert_mapped]
    by_cases skipped : part.shouldSkipExpert (map other : Int) = true
    · rw [if_pos skipped]
      rfl
    · rw [if_neg skipped]
      apply Copy.writes_flatMap_zero
      intro otherMat _
      apply (part.copyMat_within source other (map other) otherMat).writes_eq_zero
      intro covered
      obtain ⟨same, above, below⟩ := covered
      simp only at same above below
      subst same
      exact different (permuted.injOn inExperts known (block_of_mem inside above below))

/-- The aliased checkpoint holds every expert in its own slot. -/
theorem alias_holds (whole : part.completeSize = part.intermediateSize) (start : part.offset = 0)
    (source : Mat × Nat → UInt8) (slot : Nat) : part.Holds source source slot slot := by
  have base : ∀ mat, part.sourceBase mat = 0 := by
    intro mat
    cases mat with
    | down => simp [sourceBase, Format.bytes, start]
    | up => simp [sourceBase, Format.bytes, start]
    | gate => simp [sourceBase, Format.bytes, start]
  have stride : ∀ mat, part.sourceStride mat = part.targetStride mat := by
    intro mat
    cases mat with
    | down => simp [sourceStride, targetStride, whole]
    | up => simp [sourceStride, targetStride, whole]
    | gate => simp [sourceStride, targetStride, whole]
  intro mat inner inside
  simp only [sliceByte, base, stride, whole, Nat.zero_add]
  cases mat with
  | down => rw [Nat.add_assoc, Nat.div_add_mod']
  | up => rfl
  | gate => rfl

def aliases (part : Part) (map : Nat → Nat) : Bool :=
  (List.range part.expertNum).all (fun physical => map physical = physical) && part.offset == 0 &&
    part.completeSize == part.intermediateSize

theorem loadWeights_permutation (permuted : Set.BijOn map (Set.Iio part.expertNum) (Set.Iio part.expertNum))
    (checked : part.checkBlocks = .ok ()) (source : Mat × Nat → UInt8) :
    part.loadWeights (some fun physical => (map physical : Int)) source =
      .ok (if part.aliases map then .alias
        else .copy ((List.range part.expertNum).flatMap
          (part.copyExpert (some fun physical => (map physical : Int)) source))) := by
  unfold loadWeights
  rw [checked, identityMapping_permutation permuted]
  exact (apply_ite Except.ok _ _ _).symm

/-- Whatever the branch, the slot that the map names holds the source expert. -/
theorem loaded_holds (permuted : Set.BijOn map (Set.Iio part.expertNum) (Set.Iio part.expertNum))
    (checked : part.checkBlocks = .ok ())
    (loaded : part.Loaded (some fun physical => (map physical : Int)) source local_)
    (known : physical < part.expertNum) (onCpu : part.onGpu (map physical) = false) :
    part.Holds source local_ (map physical) physical := by
  unfold Part.Loaded at loaded
  rw [loadWeights_permutation permuted checked] at loaded
  by_cases aliased : part.aliases map = true
  · rw [if_pos aliased] at loaded
    simp only [aliases, Bool.and_eq_true, beq_iff_eq, List.all_eq_true, decide_eq_true_eq] at aliased
    obtain ⟨⟨identity, start⟩, whole⟩ := aliased
    rw [loaded, identity physical (List.mem_range.mpr known)]
    exact alias_holds whole start source physical
  · rw [if_neg aliased] at loaded
    obtain ⟨blank, performed⟩ := loaded
    intro mat inner inside
    exact performed.delivered (copies_deliver permuted source known onCpu inside)

theorem exists_loaded (permuted : Set.BijOn map (Set.Iio part.expertNum) (Set.Iio part.expertNum))
    (checked : part.checkBlocks = .ok ()) (source : Mat × Nat → UInt8) :
    ∃ local_, part.Loaded (some fun physical => (map physical : Int)) source local_ := by
  unfold Part.Loaded
  rw [loadWeights_permutation permuted checked]
  by_cases aliased : part.aliases map = true
  · rw [if_pos aliased]
    exact ⟨source, rfl⟩
  · rw [if_neg aliased]
    exact ⟨_, fun _ => 0, Copy.performed_inOrder _ _⟩

theorem gate_blocks (checked : part.checkBlocks = .ok ()) :
    (part.format .gate).blockSize ∣ part.intermediateSize * part.hiddenSize := by
  unfold checkBlocks at checked
  split at checked
  · contradiction
  · split at checked
    · contradiction
    · split at checked
      · contradiction
      · next aligned =>
          apply Nat.dvd_of_mod_eq_zero
          omega

theorem bytes_positive {format : Format} {elements : Nat} (some_ : format.blockSize ≤ elements) :
    0 < format.bytes elements := by
  apply Nat.div_pos
  · exact some_.trans (Nat.le_mul_of_pos_right _ format.typePositive)
  · exact format.blockPositive

theorem gate_strides_positive (checked : part.checkBlocks = .ok ()) :
    0 < part.targetStride .gate ∧ 0 < part.sourceStride .gate := by
  have some_ := Nat.le_of_dvd (Nat.mul_pos part.intermediatePositive part.hiddenPositive) (gate_blocks checked)
  have smaller : part.intermediateSize * part.hiddenSize ≤ part.completeSize * part.hiddenSize := by
    have inside := part.inside
    exact Nat.mul_le_mul_right _ (by omega)
  exact ⟨bytes_positive some_, bytes_positive (some_.trans smaller)⟩

end Part

end KtKernel.Llamafile
