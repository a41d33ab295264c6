import KtKernel.Avx2.Mxfp4Paths

namespace KtKernel.Avx2.Mxfp4

open KtKernel.Data

/-! The shapes for which every path of the MXFP4 product computes the product. -/

variable {m n k : Nat}

theorem aPerm_inOrder (a stale : Nat → ℚ) (whole : k % 32 = 0) {mi : Nat} (inRows : mi < m) :
    InOrder k (fun i => a (mi * k + i)) fun i => aPerm m k a stale (mi * k + i) := by
  intro i inRow
  have blocks : k / 32 * 32 = k := by omega
  apply runSteps_agreed fun memory => memory
  · intro store member
    obtain ⟨row, -, inRow'⟩ := List.mem_flatMap.mp member
    obtain ⟨g, inRange, rfl⟩ := List.mem_map.mp inRow'
    have inGroups := List.mem_range.mp inRange
    apply put_known
    intro above below
    have place : mi * k + i = row * k + (g * 32 + (mi * k + i - (row * k + g * 32))) := by omega
    obtain ⟨rfl, column⟩ := split_unique inRow (show g * 32 + (mi * k + i - (row * k + g * 32)) < k by omega) place
    have block : i / 32 = g := by omega
    have offset : mi * k + i - (mi * k + g * 32) = i % 32 := by omega
    rw [block, offset]
  · refine ⟨put (mi * k + i / 32 * 32) 32 fun j => a (mi * k + (i / 32 * 32 + kPerm.getD j 0)), ?_, ?_⟩
    · apply List.mem_flatMap.mpr
      exact ⟨mi, List.mem_range.mpr inRows, List.mem_map.mpr ⟨i / 32, List.mem_range.mpr (by omega), rfl⟩⟩
    · intro memory
      have place : mi * k + i = mi * k + i / 32 * 32 + i % 32 := by omega
      dsimp only
      rw [place]
      exact put_inside _ memory (Nat.mod_lt _ (by decide))

theorem tokens_eq (m n ni : Nat) (block single : Nat → ℚ) :
    tokens m n ni block single = (List.range m).map fun mi => (mi * n + ni, if mi < m / 4 * 4 then block mi else single mi) := by
  have blocks (count : Nat) : ((List.range count).flatMap fun mi => (List.range 4).map fun token =>
      ((mi * 4 + token) * n + ni, block (mi * 4 + token))) = (List.range (count * 4)).map fun mi => (mi * n + ni, block mi) := by
    induction count with
    | zero => rfl
    | succ count induction =>
        have last : List.range (count + 1) = List.range count ++ [count] := List.range_succ
        rw [last, List.flatMap_append, induction, List.flatMap_singleton, Nat.succ_mul, List.range_add, List.map_append, List.map_map]
        rfl
  have rows : m = m / 4 * 4 + (m - m / 4 * 4) := by omega
  have whole : List.range m = List.range (m / 4 * 4) ++ (List.range (m - m / 4 * 4)).map (m / 4 * 4 + ·) := by
    rw [← List.range_add, ← rows]
  rw [tokens, blocks, whole, List.map_append, List.range'_eq_map_range, List.map_map, List.map_map]
  congr 1
  · apply List.map_congr_left
    intro mi inRange
    rw [if_pos (List.mem_range.mp inRange)]
  · apply List.map_congr_left
    intro mi _
    dsimp only [Function.comp]
    rw [if_neg (by omega)]

/-- The value that a thread stores for an element. -/
def stored (m : Nat) (b : BufferB) (weights : Nat → BitVec 8) (a stale : Nat → ℚ) (mi ni : Nat) : ℚ :=
  let bRow := fun i => weights (ni * (b.k / 2) + i)
  let bScales := fun g => b.d (ni * b.kGroupCount + g)
  let p := fun i => aPerm m b.k a stale (mi * b.k + i)
  let aRow := fun i => a (mi * b.k + i)
  if b.kGroupSize = 32 ∧ b.k % 32 = 0 ∧ m * b.k ≤ 4 * 2 ^ 20 then
    if mi < m / 4 * 4 then fast32Block p bRow bScales b.kGroupCount else fast32Single p bRow bScales b.kGroupCount
  else if b.kGroupSize = 16 ∧ b.k % 32 = 0 ∧ m * b.k ≤ 4 * 2 ^ 20 then
    if mi < m / 4 * 4 then fast16Block p bRow bScales (b.k / 32) else fast16Single p bRow bScales (b.k / 32)
  else if mi < m / 4 * 4 then genericBlock aRow bRow bScales b.kGroupCount b.kGroupSize
  else genericSingle aRow bRow bScales b.kGroupCount b.kGroupSize

variable {b : BufferB} {weights : Nat → BitVec 8}

theorem gemmMxfp4_ok (loaded : b.b = some weights) (m : Nat) (a stale : Nat → ℚ) (nth ith : Nat) :
    gemmMxfp4 m b.n b.k a b stale nth ith =
      .ok ((List.range' (splitStart b.n nth ith) (splitStart b.n nth (ith + 1) - splitStart b.n nth ith)).flatMap fun ni =>
        (List.range m).map fun mi => (mi * b.n + ni, stored m b weights a stale mi ni)) := by
  simp only [gemmMxfp4, loaded, expectSome, splitRange_eq, tokens_eq]
  refine congrArg Except.ok (List.flatMap_congr fun ni _ => ?_)
  simp only [stored]
  split
  · rfl
  · split
    · rfl
    · rfl

/-! ## The shapes that are right -/

theorem init_ok {groupSize : Int} {held : Option (Nat → BitVec 8)} {d : Nat → ℚ} :
    BufferB.init n k groupSize held d = .ok b ↔
      (0 < groupSize ∧ (k : Int) % groupSize = 0 ∧ k % 8 = 0) ∧ b = ⟨held, d, n, k, groupSize.toNat⟩ := by
  rw [BufferB.init, require_bind_ok]
  have shape : (!(groupSize ≤ 0 || (k : Int) % groupSize ≠ 0 || k % 8 ≠ 0)) = true ↔
      0 < groupSize ∧ (k : Int) % groupSize = 0 ∧ k % 8 = 0 := by
    simp
    tauto
  constructor
  · rintro ⟨accepted, built⟩
    cases built
    exact ⟨shape.mp accepted, rfl⟩
  · rintro ⟨accepted, rfl⟩
    exact ⟨shape.mpr accepted, rfl⟩

theorem rowProduct_eq (k groupSize : Nat) (a : Nat → ℚ) (weights : Nat → BitVec 8) (d : Nat → ℚ) (mi ni : Nat) :
    rowProduct (fun i => a (mi * k + i)) (fun i => weights (ni * (k / 2) + i)) (fun g => d (ni * (k / groupSize) + g))
      (k / groupSize) groupSize = product k groupSize a weights d mi ni := rfl

/-- The group sizes for which the path of a row is right. -/
def Aligned (m groupSize : Nat) : Prop :=
  groupSize % 8 = 0 ∨ m < 4 ∧ (groupSize % 2 = 0 ∨ groupSize < 8)

theorem genericSingle_right {groupSize : Nat} (aligned : groupSize % 2 = 0 ∨ groupSize < 8) (a : Nat → ℚ) (bRow : Nat → BitVec 8)
    (bScales : Nat → ℚ) (groupCount : Nat) : genericSingle a bRow bScales groupCount groupSize = rowProduct a bRow bScales groupCount groupSize := by
  rw [genericSingle_eq, rowProduct]
  apply Finset.sum_congr rfl
  intro g _
  have whole : groupSize = groupSize / 8 * 8 + (groupSize - groupSize / 8 * 8) := by omega
  have split := Finset.sum_range_add (fun i => term a bRow (g * groupSize + i)) (groupSize / 8 * 8) (groupSize - groupSize / 8 * 8)
  rw [← whole] at split
  have vectors : vectorPart a bRow (g * groupSize) groupSize =
      ∑ i ∈ Finset.range (groupSize / 8 * 8), term a bRow (g * groupSize + i) := by
    rcases aligned with even | small
    · exact Finset.sum_congr rfl fun place _ => stepTerm_even (by rw [Nat.mul_mod, even, Nat.mul_zero]) place
    · have none : groupSize / 8 * 8 = 0 := by omega
      rw [vectorPart, none]
      rfl
  rw [split, vectors]

theorem genericBlock_right {groupSize : Nat} (whole : groupSize % 8 = 0) (a : Nat → ℚ) (bRow : Nat → BitVec 8)
    (bScales : Nat → ℚ) (groupCount : Nat) : genericBlock a bRow bScales groupCount groupSize = rowProduct a bRow bScales groupCount groupSize := by
  have vectors : groupSize / 8 * 8 = groupSize := by omega
  have even : groupSize % 2 = 0 := by omega
  rw [genericBlock_eq, rowProduct]
  apply Finset.sum_congr rfl
  intro g _
  rw [vectorPart, vectors]
  congr 1
  exact Finset.sum_congr rfl fun place _ => stepTerm_even (by rw [Nat.mul_mod, even, Nat.mul_zero]) place

theorem stored_right (shape : b.k = 0 ∨ Aligned m b.kGroupSize) (weights : Nat → BitVec 8) (a stale : Nat → ℚ)
    {mi : Nat} (inRows : mi < m) (ni : Nat) : stored m b weights a stale mi ni = product b.k b.kGroupSize a weights b.d mi ni := by
  rw [← rowProduct_eq]
  simp only [stored]
  split
  next fast =>
    have inOrder := aPerm_inOrder a stale fast.2.1 inRows
    have whole : b.kGroupCount * 32 = b.k := by
      rw [BufferB.kGroupCount, fast.1]
      omega
    rw [fast32Block_eq inOrder whole, fast32Single_eq inOrder whole, ite_self, BufferB.kGroupCount, fast.1]
  next =>
    split
    next fast =>
      have inOrder := aPerm_inOrder a stale fast.2.1 inRows
      have whole : b.k / 32 * 32 = b.k := by omega
      have count : b.k / 32 * 2 = b.k / 16 := by omega
      rw [fast16Block_eq inOrder whole, fast16Single_eq inOrder whole, ite_self, BufferB.kGroupCount, fast.1, count]
    next =>
      rcases shape with none | whole | few
      · have count : b.kGroupCount = 0 := by rw [BufferB.kGroupCount, none, Nat.zero_div]
        rw [genericBlock_eq, genericSingle_eq, ← BufferB.kGroupCount, count, rowProduct, Finset.range_zero, Finset.sum_empty,
          Finset.sum_empty, Finset.sum_empty, ite_self]
      · rw [genericBlock_right whole, genericSingle_right (.inl (by omega)), ite_self]
        rfl
      · rw [if_neg (by omega), genericSingle_right few.2]
        rfl

theorem computes_of_stored (loaded : b.b = some weights) {nth : Nat} (positive : 0 < nth) {a : Nat → ℚ} {stale : Nat → Nat → ℚ}
    (right : ∀ ith mi ni, mi < m → ni < b.n → stored m b weights a (stale ith) mi ni = product b.k b.kGroupSize a weights b.d mi ni) :
    Computes m b weights nth a stale := by
  refine ⟨_, fun ith _ => gemmMxfp4_ok loaded m a (stale ith) nth ith, ?_⟩
  have columns := columns_perm m b.n (product b.k b.kGroupSize a weights b.d)
  rw [← shares_eq m _ positive] at columns
  refine List.Perm.trans (.of_eq ?_) columns
  apply List.flatMap_congr
  intro ith inRange
  apply List.flatMap_congr
  intro ni inShare
  apply List.map_congr_left
  intro mi inRows
  have last := splitStart_mono b.n nth (show ith + 1 ≤ nth from List.mem_range.mp inRange)
  rw [splitStart_last b.n positive] at last
  have inColumns := List.mem_range'_1.mp inShare
  rw [right ith mi ni (List.mem_range.mp inRows) (by omega)]

/-! ## The shapes that are not -/

theorem stored_of_computes (loaded : b.b = some weights) (someRows : 0 < m) (someColumns : 0 < b.n) {a : Nat → ℚ} {stale : Nat → Nat → ℚ}
    (computes : Computes m b weights 1 a stale) :
    stored m b weights a (stale 0) 0 0 = product b.k b.kGroupSize a weights b.d 0 0 := by
  obtain ⟨stores, ran, elements⟩ := computes
  have first := (ran 0 (by decide)).symm.trans (gemmMxfp4_ok loaded m a (stale 0) 1 0)
  have bounds := splitStart_last b.n (show 0 < 1 by decide)
  have start : splitStart b.n 1 0 = 0 := by rw [splitStart, Nat.zero_mul, Nat.zero_add, Nat.zero_min]
  have member : (0 * b.n + 0, stored m b weights a (stale 0) 0 0) ∈ (List.range 1).flatMap stores := by
    apply List.mem_flatMap.mpr
    refine ⟨0, List.mem_range.mpr (by decide), ?_⟩
    rw [Except.ok.inj first, start, bounds]
    apply List.mem_flatMap.mpr
    exact ⟨0, List.mem_range'_1.mpr ⟨Nat.le_refl 0, by omega⟩, List.mem_map.mpr ⟨0, List.mem_range.mpr someRows, rfl⟩⟩
  obtain ⟨cell, _, same⟩ := List.mem_map.mp (elements.mem_iff.mp member)
  obtain ⟨place, value⟩ := Prod.mk.inj same
  rw [Nat.zero_mul, Nat.add_zero] at place
  rw [← value, place, Nat.zero_div, Nat.zero_mod]

theorem stored_generic (unaligned : b.kGroupSize % 8 ≠ 0) (weights : Nat → BitVec 8) (a stale : Nat → ℚ) :
    stored m b weights a stale 0 0 = if 4 ≤ m then genericBlock a weights b.d b.kGroupCount b.kGroupSize
      else genericSingle a weights b.d b.kGroupCount b.kGroupSize := by
  have block : 0 < m / 4 * 4 ↔ 4 ≤ m := by omega
  have not32 : ¬ (b.kGroupSize = 32 ∧ b.k % 32 = 0 ∧ m * b.k ≤ 4 * 2 ^ 20) := by omega
  have not16 : ¬ (b.kGroupSize = 16 ∧ b.k % 32 = 0 ∧ m * b.k ≤ 4 * 2 ^ 20) := by omega
  simp only [stored, if_neg not32, if_neg not16, block, Nat.zero_mul, Nat.zero_add]

/-- Codes of one, without a tail. -/
theorem genericBlock_wrong {groupSize groupCount : Nat} (unaligned : groupSize % 8 ≠ 0) (some_ : 0 < groupCount) :
    genericBlock (fun _ => 1) (fun _ => 0x22) (fun _ => 1) groupCount groupSize ≠
      rowProduct (fun _ => 1) (fun _ => 0x22) (fun _ => 1) groupCount groupSize := by
  have one : ∀ place, code (fun _ => 0x22) place = 1 := by
    intro place
    rw [code, nibbleOf]
    split
    · exact e2m1_two
    · exact e2m1_two
  have less : groupSize / 8 * 8 < groupSize := by omega
  have fewer : groupCount * (groupSize / 8 * 8) < groupCount * groupSize := Nat.mul_lt_mul_of_pos_left less some_
  rw [genericBlock_eq, rowProduct]
  simp only [vectorPart, stepTerm, term, one, mul_one, one_mul, Finset.sum_const, Finset.card_range, nsmul_eq_mul]
  norm_cast
  exact fewer.ne

/-- One activation in the second group, and codes of one at the even places. -/
theorem genericSingle_wrong {groupSize groupCount : Nat} (odd : groupSize % 2 = 1) (large : 8 ≤ groupSize) (several : 2 ≤ groupCount) :
    genericSingle (fun i => if i = groupSize + 1 then 1 else 0) (fun _ => 0x02) (fun _ => 1) groupCount groupSize ≠
      rowProduct (fun i => if i = groupSize + 1 then 1 else 0) (fun _ => 0x02) (fun _ => 1) groupCount groupSize := by
  have codes : ∀ place, code (fun _ => 0x02) place = if place % 2 = 0 then 1 else 0 := by
    intro place
    rw [code, nibbleOf]
    split
    · exact e2m1_two
    · exact e2m1_zero
  have second : ∀ g place, place < groupSize → g * groupSize + place = groupSize + 1 → g = 1 ∧ place = 1 := by
    intro g place inside same
    rw [← Nat.one_mul groupSize, ← Nat.mul_assoc, Nat.mul_one] at same
    exact split_unique inside (by omega) same
  have computed : genericSingle (fun i => if i = groupSize + 1 then 1 else 0) (fun _ => 0x02) (fun _ => 1) groupCount groupSize = 0 := by
    rw [genericSingle_eq]
    apply Finset.sum_eq_zero
    intro g _
    rw [vectorPart, Finset.sum_eq_zero, Finset.sum_eq_zero, add_zero, mul_zero]
    · intro i inTail
      have inside := Finset.mem_range.mp inTail
      rw [term, if_neg, zero_mul]
      intro same
      have place := second g (groupSize / 8 * 8 + i) (by omega) same
      omega
    · intro i inVectors
      have inside := Finset.mem_range.mp inVectors
      rw [stepTerm]
      split
      next same =>
        obtain ⟨rfl, rfl⟩ := second g i (by omega) same
        rw [codes, if_neg (by omega), mul_zero]
      next => rw [zero_mul]
  have wanted : rowProduct (fun i => if i = groupSize + 1 then 1 else 0) (fun _ => 0x02) (fun _ => 1) groupCount groupSize = 1 := by
    have inRow : groupSize + 1 < groupCount * groupSize := by
      have groups := Nat.mul_le_mul_right groupSize several
      omega
    simp only [rowProduct, one_mul]
    rw [← sum_blocks (term _ _), Finset.sum_eq_single (groupSize + 1)]
    · rw [term, if_pos rfl, codes, if_pos (by omega), mul_one]
    · intro place _ other
      rw [term, if_neg other, zero_mul]
    · intro outside
      exact absurd (Finset.mem_range.mpr inRow) outside
  rw [computed, wanted]
  exact zero_ne_one

theorem product_first (size : Nat) (a : Nat → ℚ) (weights : Nat → BitVec 8) (d : Nat → ℚ) :
    product k size a weights d 0 0 = rowProduct a weights d (k / size) size := by
  have row := rowProduct_eq k size a weights d 0 0
  simp only [Nat.zero_mul, Nat.zero_add] at row
  exact row.symm

/-- What holds of all weights and activations holds of the first element of a generic path. -/
theorem generic_right {size : Nat} (positive : 0 < size) (groups : (k : Int) % size = 0) (eights : k % 8 = 0) (odd : size % 8 ≠ 0)
    (someRows : 0 < m) (someColumns : 0 < n) (agree : AllPathsAgree m n k size) (weights : Nat → BitVec 8) (d a : Nat → ℚ) :
    (if 4 ≤ m then genericBlock a weights d (k / size) size else genericSingle a weights d (k / size) size) =
      rowProduct a weights d (k / size) size := by
  have accepted : BufferB.init n k size (some weights) d = .ok ⟨some weights, d, n, k, size⟩ :=
    init_ok.mpr ⟨⟨Int.natCast_pos.mpr positive, groups, eights⟩, rfl⟩
  have computes := agree weights d _ accepted 1 (by decide) a fun _ _ => 0
  have first := stored_of_computes rfl someRows someColumns computes
  rw [stored_generic odd, product_first] at first
  exact first

/-- Every path computes the product, for the shapes whose groups are whole eights, or for
few tokens whose groups begin on a byte or have no vector. -/
theorem allPathsAgree_iff {groupSize : Int} (positive : 0 < groupSize) (groups : (k : Int) % groupSize = 0) (eights : k % 8 = 0) :
    AllPathsAgree m n k groupSize ↔ m = 0 ∨ n = 0 ∨ k = 0 ∨ Aligned m groupSize.toNat := by
  obtain ⟨size, rfl⟩ := Int.eq_ofNat_of_zero_le positive.le
  have someSize : 0 < size := by omega
  have whole : k % size = 0 := by exact_mod_cast groups
  rw [Int.toNat_natCast]
  constructor
  · intro agree
    by_contra misses
    simp only [not_or] at misses
    obtain ⟨someRows, someColumns, someWidth, unaligned⟩ := misses
    have odd : size % 8 ≠ 0 := fun even => unaligned (.inl even)
    have count : k / size * size = k := Nat.div_mul_cancel (Nat.dvd_of_mod_eq_zero whole)
    have someGroups : 0 < k / size := Nat.div_pos (Nat.le_of_dvd (by omega) (Nat.dvd_of_mod_eq_zero whole)) someSize
    have agreed := generic_right someSize groups eights odd (by omega) (by omega) agree
    by_cases block : 4 ≤ m
    · have wrong := agreed (fun _ => 0x22) (fun _ => 1) fun _ => 1
      rw [if_pos block] at wrong
      exact genericBlock_wrong odd someGroups wrong
    · have several : size % 2 = 1 ∧ 8 ≤ size := by
        by_contra small
        exact unaligned (.inr ⟨by omega, by omega⟩)
      have groupsOf : 2 ≤ k / size := by
        by_contra few
        have one : k / size = 1 := by omega
        rw [one, Nat.one_mul] at count
        omega
      have wrong := agreed (fun _ => 0x02) (fun _ => 1) fun i => if i = size + 1 then 1 else 0
      rw [if_neg block] at wrong
      exact genericSingle_wrong several.1 several.2 groupsOf wrong
  · intro shape weights d b built nth someThreads a stale
    obtain ⟨-, rfl⟩ := init_ok.mp built
    apply computes_of_stored rfl someThreads
    intro ith mi ni inRows inColumns
    rcases shape with rfl | rfl | rfl | aligned
    · exact absurd inRows (Nat.not_lt_zero _)
    · exact absurd inColumns (Nat.not_lt_zero _)
    · exact stored_right (.inl rfl) weights a (stale ith) inRows ni
    · exact stored_right (.inr aligned) weights a (stale ith) inRows ni

theorem allPathsAgree_tails : AllPathsAgree 3 2 24 12 :=
  (allPathsAgree_iff (by decide) (by decide) (by decide)).mpr (.inr (.inr (.inr (.inr ⟨by decide, .inl (by decide)⟩))))

/-- Four tokens, and groups of four. -/
theorem not_allPathsAgree : ¬ AllPathsAgree 4 1 8 4 := by
  intro agree
  have wrong := generic_right (by decide) (by decide) (by decide) (by decide) (by decide) (by decide) agree (fun _ => 0x22)
    (fun _ => 1) fun _ => 1
  rw [if_pos (by decide)] at wrong
  exact genericBlock_wrong (by decide) (by decide) wrong

end KtKernel.Avx2.Mxfp4
