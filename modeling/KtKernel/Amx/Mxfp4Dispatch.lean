import KtKernel.Amx.Mxfp4Agree

namespace KtKernel.Amx.Mxfp4

open KtKernel.Data

/-! The order of the activations over the forwards of an expert, and the shapes for which the
MXFP4 kernels agree. -/

variable {m n k : Nat}

/-! ## The order of the activations -/

namespace Config

variable {config : Config}

/-- A decode dispatches to the kernels of one token. -/
def FewPerTok (config : Config) : Prop :=
  config.numExpertsPerTok ≤ 4 * config.expertNum

theorem one_le_threshold : config.FewPerTok ↔ ¬ 1 > 4 * config.expertNum / config.numExpertsPerTok := by
  rw [FewPerTok, Nat.not_lt, Nat.le_div_iff_mul_le config.someExperts, Nat.one_mul]

structure Flagged (config : Config) (m : Nat) (ba : BufferA) : Prop where
  flagged : ba.stored = .natural → ba.naturalOrder = true
  single : ba.stored = .natural → config.avx512Bf16 = true ∧ config.groupSize = 32 ∧ m = 1

theorem fromMat_flagged (config : Config) (ba : BufferA) (m k : Nat) (src : Nat → BitVec 16) : config.Flagged m (ba.fromMat m k src) where
  flagged := fun natural => Order.noConfusion natural
  single := fun natural => Order.noConfusion natural

theorem reads_order {ba : BufferA} (qlen : Nat) (flagged : config.Flagged m ba) (wide : k % 32 = 0)
    (dispatch : ba.stored = .natural → ¬ qlen > 4 * config.expertNum / config.numExpertsPerTok) :
    ∀ read ∈ config.reads m k qlen ba, read.stored = .natural → read.expects = .natural := by
  intro read member natural
  rw [reads] at member
  split at member
  next => exact (List.not_mem_nil member).elim
  next =>
    obtain rfl := List.mem_singleton.mp member
    obtain ⟨build, size, single⟩ := flagged.single natural
    have kernel : config.gemm m k qlen ba = .natural := by
      rw [gemm, if_neg (dispatch natural), vecMulKgroup, build, single, size, wide, flagged.flagged natural]
      rfl
    show (config.gemm m k qlen ba).expects = .natural
    rw [kernel, Kernel.expects]

theorem prepareDecodeGateInput_flagged (config : Config) (hidden : Nat) (input : Nat → BitVec 16) (ba : BufferA) :
    config.Flagged 1 (config.prepareDecodeGateInput hidden 1 input ba) := by
  rw [prepareDecodeGateInput]
  split
  next chosen =>
    simp only [Bool.and_eq_true, decide_eq_true_eq] at chosen
    rw [BufferA.fromMatNatural]
    split
    next build => exact ⟨fun _ => rfl, fun _ => ⟨build, chosen.1.2, rfl⟩⟩
    next => exact fromMat_flagged config ba 1 hidden input
  next => exact fromMat_flagged config ba 1 hidden input

/-- The tasks of the activation leave the down buffer as one of them does, when there is one. -/
theorem applyDecodeActivation_natural {intermediate : Nat} (build : config.avx512Bf16 = true) (size : config.groupSize = 32)
    (wide : intermediate % 32 = 0) (some_ : 0 < intermediate) (activated : Nat → BitVec 16) (ba : BufferA) :
    (config.applyDecodeActivation intermediate 1 activated ba).naturalOrder = true ∧
      (config.applyDecodeActivation intermediate 1 activated ba).stored = .natural := by
  obtain ⟨last, count⟩ : ∃ last, recommendedNth intermediate = last + 1 :=
    Nat.exists_eq_succ_of_ne_zero (by rw [recommendedNth, nBlock]; omega)
  have chosen : ¬ ((!config.avx512Bf16 || decide ((1 : Nat) ≠ 1) || decide (config.groupSize ≠ 32) || decide (intermediate % 32 ≠ 0)) = true) := by
    rw [build, size, wide]
    decide
  rw [applyDecodeActivation, if_neg chosen, count, List.range_succ, List.foldl_append, List.foldl_cons, List.foldl_nil]
  exact ⟨rfl, rfl⟩

theorem decode_down_flagged (config : Config) {intermediate : Nat} (some_ : 0 < intermediate) (activated : Nat → BitVec 16) (ba : BufferA) :
    config.Flagged 1 (config.prepareDecodeDownInput intermediate 1 activated (config.applyDecodeActivation intermediate 1 activated ba)) := by
  rw [prepareDecodeDownInput]
  split
  next => exact fromMat_flagged config _ 1 intermediate activated
  next chosen =>
    simp only [Bool.or_eq_true, Bool.not_eq_true', decide_eq_true_eq, not_or, ne_eq, not_not, Bool.not_eq_false] at chosen
    obtain ⟨⟨⟨build, -⟩, size⟩, wide⟩ := chosen
    obtain ⟨flag, stored⟩ := applyDecodeActivation_natural build size wide some_ activated ba
    exact ⟨fun _ => flag, fun _ => ⟨build, size, rfl⟩⟩

/-- The build, the group size or the number of experts keep natural order from the logical kernels. -/
def Keeps (config : Config) : Prop :=
  config.avx512Bf16 = false ∨ config.groupSize ≠ 32 ∨ config.FewPerTok

theorem Keeps.dispatch {ba : BufferA} (keeps : config.Keeps) (flagged : config.Flagged 1 ba) (natural : ba.stored = .natural) :
    ¬ 1 > 4 * config.expertNum / config.numExpertsPerTok := by
  obtain ⟨build, size, -⟩ := flagged.single natural
  rcases keeps with other | other | few
  · rw [build] at other
    exact Bool.noConfusion other
  · exact absurd size other
  · exact one_le_threshold.mp few

theorem forward_order {hidden intermediate : Nat} (keeps : config.Keeps) (wide : hidden % 32 = 0) (wide' : intermediate % 32 = 0)
    (forward : Forward) (expert : Expert) :
    ∀ read ∈ (config.forward hidden intermediate forward expert).1, read.stored = .natural → read.expects = .natural := by
  cases forward with
  | prefill qlen m input activated gatePool downPool =>
      have gate := fun ba => reads_order qlen (fromMat_flagged config ba m hidden input) wide
        fun natural => Order.noConfusion natural
      have down := fun ba => reads_order qlen (fromMat_flagged config ba m intermediate activated) wide'
        fun natural => Order.noConfusion natural
      intro read member
      rcases List.mem_append.mp member with inGates | inDown
      · rcases List.mem_append.mp inGates with inGate | inUp
        · exact gate _ read inGate
        · exact gate _ read inUp
      · exact down _ read inDown
  | decode input activated gatePool downPool =>
      have gateFlagged := prepareDecodeGateInput_flagged config hidden input (expert.gateUp.setData gatePool.a gatePool.left)
      have gate := reads_order 1 gateFlagged wide (keeps.dispatch gateFlagged)
      intro read member
      rcases List.mem_append.mp member with inGates | inDown
      · rcases List.mem_append.mp inGates with inGate | inUp
        · exact gate read inGate
        · exact gate read inUp
      · by_cases none : intermediate = 0
        · rw [reads, none, if_pos (by decide)] at inDown
          exact (List.not_mem_nil inDown).elim
        · have downFlagged := decode_down_flagged config (Nat.pos_of_ne_zero none) activated
            (expert.down.setData downPool.a downPool.left)
          exact reads_order 1 downFlagged wide' (keeps.dispatch downFlagged) read inDown

theorem run_order {hidden intermediate : Nat} (keeps : config.Keeps) (wide : hidden % 32 = 0) (wide' : intermediate % 32 = 0)
    (forwards : List Forward) (expert : Expert) :
    ∀ read ∈ (gather forwards (config.forward hidden intermediate) expert).1, read.stored = .natural → read.expects = .natural := by
  induction forwards generalizing expert with
  | nil => exact fun read member => (List.not_mem_nil member).elim
  | cons first rest induction =>
      intro read member
      rcases List.mem_append.mp member with now | later
      · exact forward_order keeps wide wide' first expert read now
      · exact induction _ read later

theorem not_order (build : config.avx512Bf16 = true) (size : config.groupSize = 32) (many : ¬ config.FewPerTok) :
    ∃ expert forward, ∃ read ∈ (config.forward 32 32 forward expert).1, read.stored = .natural ∧ read.expects ≠ .natural := by
  have dispatch : 1 > 4 * config.expertNum / config.numExpertsPerTok := by
    by_contra few
    exact many (one_le_threshold.mpr few)
  let buffer : BufferA := ⟨fun _ => 0, false, .logical⟩
  refine ⟨⟨buffer, buffer⟩, .decode (fun _ => 0) (fun _ => 0) ⟨fun _ => 0, .logical⟩ ⟨fun _ => 0, .logical⟩, ⟨.natural, .logical⟩, ?_, rfl,
    Order.noConfusion⟩
  apply List.mem_append_left
  apply List.mem_append_left
  have chosen : ((1 : Nat) = 1 && config.groupSize = 32 && 32 % 32 = 0) = true := by
    rw [size]
    decide
  have written : (config.prepareDecodeGateInput 32 1 (fun _ => 0) (buffer.setData (fun _ => 0) .logical)).stored = .natural := by
    rw [prepareDecodeGateInput, if_pos chosen, BufferA.fromMatNatural, if_pos build]
  have kernel := fun ba => show config.gemm 1 32 1 ba = .matMat from if_pos dispatch
  rw [reads, if_neg (by decide), written, kernel]
  exact List.mem_singleton.mpr rfl

end Config

/-! ## Shapes that are wrong -/

theorem append_byte_toNat {width : Nat} (high : BitVec width) (low : BitVec 8) :
    (high ++ low).toNat = high.toNat * 2 ^ 8 + low.toNat := by
  rw [BitVec.toNat_append, ← Nat.shiftLeft_add_eq_or_of_lt low.isLt, Nat.shiftLeft_eq]

theorem loadFloat_wordByte (words : Nat → BitVec 32) (i : Nat) : loadFloat (wordByte words) i = words i := by
  have small := (words i).isLt
  have byte : ∀ j < 4, (wordByte words (4 * i + j)).toNat = (words i).toNat / 2 ^ (8 * j) % 2 ^ 8 := by
    intro j inWord
    have word : (4 * i + j) / 4 = i := by omega
    have place : (4 * i + j) % 4 = j := by omega
    rw [wordByte, word, place, BitVec.truncate_eq_setWidth, BitVec.toNat_setWidth, BitVec.toNat_ushiftRight, Nat.shiftRight_eq_div_pow]
  have first := byte 0 (by decide)
  rw [Nat.add_zero] at first
  apply BitVec.eq_of_toNat_eq
  rw [loadFloat, append_byte_toNat, append_byte_toNat, append_byte_toNat, byte 3 (by decide), byte 2 (by decide), byte 1 (by decide), first]
  omega

theorem weight_ones (k ni place : Nat) : weight k (fun _ => 0x22) ni place = 1 := by
  rw [weight, nibbleOf]
  split
  · exact e2m1_two
  · exact e2m1_two

theorem fromMat_constant (m k : Nat) (value : BitVec 16) (naturalOrder : Bool) (stored : Order) :
    ((⟨fun _ => value, naturalOrder, stored⟩ : BufferA).fromMat m k fun _ => value).a = fun _ => value := by
  have kept : ∀ steps : List ((Nat → BitVec 16) → Nat → BitVec 16), (∀ step ∈ steps, step (fun _ => value) = fun _ => value) →
      runSteps steps (fun _ => value) = fun _ => value := by
    intro steps same
    induction steps with
    | nil => rfl
    | cons step rest induction =>
        rw [runSteps_cons, same step (.head _)]
        exact induction fun other member => same other (.tail _ member)
  apply kept
  intro step member
  obtain ⟨row, -, inRow⟩ := List.mem_flatMap.mp member
  obtain ⟨block, -, inBlock⟩ := List.mem_flatMap.mp inRow
  obtain ⟨kBegin, -, rfl⟩ := List.mem_map.mp inBlock
  funext cell
  rw [put, ite_self]

/-- A scale of three for the first group, and none for the others. -/
def firstScale (i : Nat) : BitVec 32 :=
  if i = 0 then 0x40400000 else 0

theorem floatValue_firstScale (i : Nat) : floatValue (firstScale i) = if i = 0 then 3 else 0 := by
  rw [firstScale]
  split
  · decide +kernel
  · decide +kernel

/-- With ones everywhere, the first scale counts the activations that it is taken for. -/
theorem first_sum {count : Nat} (some_ : 0 < count) (size : Nat) :
    ∑ g ∈ Finset.range count, floatValue (firstScale g) * ∑ _place ∈ Finset.range size, ((1 : ℚ) * 1) = 3 * size := by
  rw [Finset.sum_eq_single 0]
  · rw [floatValue_firstScale, if_pos rfl, Finset.sum_const, Finset.card_range, mul_one, nsmul_eq_mul, mul_one]
  · intro g _ other
    rw [floatValue_firstScale, if_neg other, zero_mul]
  · intro outside
    exact absurd (Finset.mem_range.mpr some_) outside

theorem not_computes {groupSize : Nat} (someRows : 0 < m) (someColumns : 0 < n) (some_ : 0 < k) (rows : n % 32 = 0) (whole : k % 32 = 0)
    (groups : k % groupSize = 0) (other : groupSize ≠ 32) (avx512Bf16 : Bool) :
    ∃ bb, BufferB.init n k groupSize (fun _ => 0x22) (wordByte firstScale) = .ok bb ∧
      ¬ Kernel.matVec.Computes avx512Bf16 m n k bb.finalizeScaleE8 (fun _ => 0x3F80)
        (product k groupSize (fun _ => 0x3F80) (fun _ => 0x22) (wordByte firstScale)) := by
  refine ⟨_, BufferB.init_ok.mpr ⟨⟨rows, whole, groups⟩, rfl⟩, ?_⟩
  generalize original : (⟨fun _ => 0x22, wordByte firstScale, n, k, groupSize, k / groupSize, false⟩ : BufferB) = bb
  have positive : 0 < groupSize := by
    by_contra none
    have zero : groupSize = 0 := by omega
    rw [zero, Nat.mod_zero] at groups
    omega
  have count : k / groupSize * groupSize = k := Nat.div_mul_cancel (Nat.dvd_of_mod_eq_zero groups)
  have someGroups : 0 < k / groupSize := Nat.div_pos (Nat.le_of_dvd some_ (Nat.dvd_of_mod_eq_zero groups)) positive
  have invalid : bb.finalizeScaleE8.scaleE8Valid = false := by
    apply Bool.eq_false_of_not_eq_true
    intro valid
    have first := BufferB.finalize_valid.mp valid 0 (by rw [← original]; exact Nat.mul_pos someColumns someGroups)
    rw [← original, loadFloat_wordByte] at first
    exact absurd first (by decide)
  have scales : bb.finalizeScaleE8.d = wordByte firstScale := by rw [BufferB.finalize_rejected invalid, ← original]
  have weights : bb.finalizeScaleE8.b = fun _ => 0x22 := by rw [bb.finalize_same.1, ← original]
  have one : bf16Value 0x3F80 = 1 := by decide +kernel
  intro computes
  let ba : BufferA := ⟨fun _ => 0x3F80, false, .logical⟩
  have shown := scalesShown_floats (k := k) invalid
  have finished := finished_inOrder (recommendedNth n) (fun ith =>
    (fp4MatVecKgroup avx512Bf16 m n k (ba.fromMat m k fun _ => 0x3F80) bb.finalizeScaleE8 ith ⟨fun _ => 0, 0⟩).1.map fun store =>
      put store.1 1 fun _ => store.2) (fun _ => 0)
  have wanted := computes ba (fun _ _ => 0) (fun _ => ⟨fun _ => 0, 0⟩) _ _ finished 0 someRows 0 someColumns
  have left := finished_elements _ (fun ith store => mem_matVec shown avx512Bf16 _ ith _ store) finished someRows someColumns
  have kernel : stored m k (ba.fromMat m k fun _ => 0x3F80) bb.finalizeScaleE8
      (fun nPos g => loadFloat bb.finalizeScaleE8.d (nPos * (k / bb.finalizeScaleE8.kGroupSize) + g)) 0 0 = 3 * 32 := by
    rw [stored, groupSum, fromMat_constant, weights, scales]
    simp only [Nat.zero_mul, Nat.zero_add, loadFloat_wordByte, weight_ones, one]
    exact first_sum (show 0 < k / 32 by omega) 32
  have product : product k groupSize (fun _ => 0x3F80) (fun _ => 0x22) (wordByte firstScale) 0 0 = 3 * groupSize := by
    have blocks := sum_blocks (fun place => bf16Value 0x3F80 * weight k (fun _ => 0x22) 0 place *
      floatValue (loadFloat (wordByte firstScale) (0 * (k / groupSize) + place / groupSize))) (k / groupSize) groupSize
    rw [count] at blocks
    rw [Mxfp4.product, blocks, ← first_sum someGroups groupSize]
    apply Finset.sum_congr rfl
    intro g _
    rw [Finset.mul_sum]
    apply Finset.sum_congr rfl
    intro place inGroup
    rw [Nat.mul_comm g, Nat.mul_add_div positive, Nat.div_eq_of_lt (Finset.mem_range.mp inGroup), Nat.add_zero, Nat.zero_mul, Nat.zero_add,
      loadFloat_wordByte, weight_ones, one, mul_comm]
  rw [left, kernel, product] at wanted
  have sizes : (32 : ℚ) = groupSize := mul_left_cancel₀ three_ne_zero wanted
  exact other (by exact_mod_cast sizes.symm)

/-- Scales of one for the first row, and of two for the others. -/
def rowScales (groupCount i : Nat) : BitVec 32 :=
  if i < groupCount then 0x3F800000 else 0x40000000

/-- The second row of scales is written over the end of the first. -/
theorem not_pointsToOwn {groupSize : Nat} (rows : n % 32 = 0) (whole : k % 32 = 0) (groups : k % groupSize = 0) (someRows : 0 < n)
    (many : maxGroupCount < k / groupSize) (b : Nat → BitVec 8) :
    ∃ bb, BufferB.init n k groupSize b (wordByte (rowScales (k / groupSize))) = .ok bb ∧
      ¬ bb.finalizeScaleE8.PointsToOwn (wordByte (rowScales (k / groupSize))) := by
  refine ⟨_, BufferB.init_ok.mpr ⟨⟨rows, whole, groups⟩, rfl⟩, ?_⟩
  generalize original : (⟨b, wordByte (rowScales (k / groupSize)), n, k, groupSize, k / groupSize, false⟩ : BufferB) = bb
  have same := bb.finalize_same
  have count : bb.finalizeScaleE8.kGroupCount = k / groupSize := by rw [same.2.2.2.2, ← original]
  have width : bb.finalizeScaleE8.k / bb.finalizeScaleE8.kGroupSize = k / groupSize := by rw [same.2.2.1, same.2.2.2.1, ← original]
  have height : bb.finalizeScaleE8.n = n := by rw [same.2.1, ← original]
  have valid : bb.finalizeScaleE8.scaleE8Valid = true := by
    apply BufferB.finalize_valid.mpr
    intro i _
    rw [← original, loadFloat_wordByte, rowScales]
    split
    · decide
    · decide
  have second : expandExponent (bb.finalizeScaleE8.d ((0 + 1) * bb.finalizeScaleE8.kGroupCount + 0)) = 0x40000000 := by
    have inside : (0 + 1) * bb.kGroupCount + 0 < bb.n * bb.kGroupCount := by
      rw [← original]
      have twice := Nat.mul_le_mul_right (k / groupSize) (show 2 ≤ n by omega)
      show (0 + 1) * (k / groupSize) + 0 < n * (k / groupSize)
      omega
    rw [same.2.2.2.2, bb.compacts.1 valid _ inside, ← original, loadFloat_wordByte, rowScales, if_neg (by dsimp only; omega)]
  intro points
  let scratch : Scratch := ⟨fun _ => 0, 0⟩
  obtain ⟨pointers, cells⟩ := BufferB.getScales_byte valid 0 bb.finalizeScaleE8.k scratch
  have first : ((bb.finalizeScaleE8.getScales 0 bb.finalizeScaleE8.k scratch).1 0).read bb.finalizeScaleE8
      (bb.finalizeScaleE8.getScales 0 bb.finalizeScaleE8.k scratch).2.cells maxGroupCount =
        loadFloat (wordByte (rowScales (k / groupSize))) ((0 + 0) * bb.finalizeScaleE8.kGroupCount + maxGroupCount) :=
    points 0 (by rw [height]; omega) scratch 0 (by decide) maxGroupCount (by rw [count]; exact many)
  have place : ((0 : BitVec 32).toNat + 0) % 4 * maxGroupCount + maxGroupCount = ((0 : BitVec 32).toNat + 1) % 4 * maxGroupCount + 0 := rfl
  rw [pointers 0 (by decide), cells, ScalePtr.read, width, place, loadFloat_wordByte, rowScales, if_pos (by omega)] at first
  simp only [expandFour] at first
  rw [expand_outside _ _ (.inl (by decide)), expand_outside _ _ (.inl (by decide)), expand_inside _ _ (Nat.zero_lt_of_lt many), second] at first
  exact absurd first (by decide)

theorem computes_none {b d : Nat → BitVec 8} {bb : BufferB} {kernel : Kernel} (logical : kernel ≠ .natural) (avx512Bf16 : Bool)
    (src : Nat → BitVec 16) (groupSize : Nat) : kernel.Computes avx512Bf16 m n 0 bb src (product 0 groupSize src b d) := by
  have shown : ScalesShown bb 0 bb.scale :=
    ⟨fun _ _ _ _ g inside => absurd inside (Nat.not_lt_zero g), fun _ _ g inside => absurd inside (Nat.not_lt_zero g)⟩
  intro held stack scratch before after
  cases kernel with
  | natural => exact absurd rfl logical
  | matVec =>
      intro ba finished mi inRows ni inColumns
      exact finished_elements _ (fun ith store => mem_matVec shown avx512Bf16 _ ith _ store) finished inRows inColumns
  | matMat =>
      intro ba finished mi inRows ni inColumns
      exact finished_elements _ (fun ith store => mem_matMat shown avx512Bf16 _ ith _ store) finished inRows inColumns

/-- The kernels agree for groups of 32 in one block of columns, unless a decode dispatches to
the kernel of many tokens. -/
theorem kernelsAgree_iff (config : Config) (rows : n % 32 = 0) (columns : k % 32 = 0) (groups : k % config.groupSize = 0) :
    config.KernelsAgree m n k ↔
      (m = 0 ∨ n = 0 ∨ k = 0 ∨ config.groupSize = 32 ∧ k ≤ 7168) ∧
        (config.avx512Bf16 = false ∨ config.groupSize ≠ 32 ∨ config.numExpertsPerTok ≤ 4 * config.expertNum) := by
  constructor
  · intro agree
    constructor
    · by_contra misses
      simp only [not_or] at misses
      obtain ⟨someRows, someColumns, someWidth, outside⟩ := misses
      by_cases size : config.groupSize = 32
      · have wide : maxGroupCount < k / config.groupSize := by
          rw [size]
          show 7168 / 32 < k / 32
          omega
        obtain ⟨bb, built, wrong⟩ := not_pointsToOwn rows columns groups (Nat.pos_of_ne_zero someColumns) wide fun _ => 0
        exact wrong (agree.pointsToOwn (Nat.pos_of_ne_zero someRows) _ _ bb built)
      · obtain ⟨bb, built, wrong⟩ := not_computes (Nat.pos_of_ne_zero someRows) (Nat.pos_of_ne_zero someColumns)
          (Nat.pos_of_ne_zero someWidth) rows columns groups size config.avx512Bf16
        exact wrong (agree.computes _ _ bb built .matVec (fun other => Kernel.noConfusion other) _)
    · by_contra misses
      simp only [not_or, not_not] at misses
      obtain ⟨build, size, many⟩ := misses
      obtain ⟨expert, forward, read, member, stored, expects⟩ := Config.not_order (Bool.eq_true_of_not_eq_false build) size many
      have built : ∃ bb, BufferB.init 32 32 config.groupSize (fun _ => 0) (fun _ => 0) = .ok bb :=
        ⟨_, BufferB.init_ok.mpr ⟨⟨by decide, by decide, by rw [size]⟩, rfl⟩⟩
      obtain ⟨bb, built⟩ := built
      apply expects
      apply agree.order 32 32 _ _ _ _ bb bb built built expert [forward] read _ stored
      exact List.mem_append_left _ member
  · rintro ⟨shape, keeps⟩
    constructor
    · intro b d bb built kernel allowed src
      rcases shape with rfl | rfl | rfl | ⟨size, fits⟩
      · exact fun _ _ _ _ _ _ mi inRows => absurd inRows (Nat.not_lt_zero mi)
      · exact fun _ _ _ _ _ _ _ _ ni inColumns => absurd inColumns (Nat.not_lt_zero ni)
      · by_cases natural : kernel = .natural
        · obtain ⟨build, single, size⟩ := allowed natural
          rw [size] at built ⊢
          exact computes_of_fits built (Nat.zero_le _) (fun _ => ⟨build, single⟩) src
        · exact computes_none natural config.avx512Bf16 src config.groupSize
      · rw [size] at built ⊢
        exact computes_of_fits built fits (fun natural => ⟨(allowed natural).1, (allowed natural).2.1⟩) src
    · exact fun _ _ bb _ => bb.compacts
    · intro someRows b d bb built
      rcases shape with rfl | rfl | rfl | ⟨size, fits⟩
      · exact absurd someRows (Nat.lt_irrefl 0)
      · intro nPos inRows
        obtain ⟨-, rfl⟩ := BufferB.init_ok.mp built
        rw [(BufferB.finalize_same _).2.1] at inRows
        exact absurd inRows (Nat.not_succ_le_zero _)
      · exact pointsToOwn_of_fits built (by rw [Nat.zero_div]; exact Nat.zero_le _)
      · apply pointsToOwn_of_fits built
        rw [size]
        show k / 32 ≤ 7168 / 32
        omega
    · intro hidden intermediate b b' d d' gateBb downBb gate down expert forwards
      obtain ⟨⟨intermediateWide, hiddenWide, -⟩, -⟩ := BufferB.init_ok.mp gate
      exact Config.run_order keeps hiddenWide intermediateWide forwards expert

/-- Eight of 256 experts for a token, in groups of 32. -/
theorem kernelsAgree_groups : Config.KernelsAgree ⟨true, 32, 256, 8, by decide⟩ 5 2048 7168 :=
  (kernelsAgree_iff _ (by decide) (by decide) (by decide)).mpr
    ⟨.inr (.inr (.inr ⟨rfl, by decide⟩)), .inr (.inr (by decide))⟩

/-- One token against rows of 64 in one group. -/
theorem not_kernelsAgree : ¬ Config.KernelsAgree ⟨true, 64, 256, 8, by decide⟩ 1 32 64 := by
  intro agree
  obtain ⟨bb, built, wrong⟩ := @not_computes 1 32 64 64 (by decide) (by decide) (by decide) (by decide) (by decide) (by decide) (by decide) true
  exact wrong (agree.computes _ _ bb built .matVec (fun other => Kernel.noConfusion other) _)

end KtKernel.Amx.Mxfp4
