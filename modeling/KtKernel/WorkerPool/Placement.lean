import Mathlib.Algebra.BigOperators.Intervals
import Mathlib.Algebra.Order.BigOperators.Group.Finset
import Mathlib.Data.List.Nodup
import Mathlib.Data.List.Range

namespace KtKernel.WorkerPool

/-! Which NUMA node and core each thread of the pools asks for.

The vectors of the source are indexed without a check and its `int` arithmetic
is undefined when it overflows; both are `none` here.
-/

def Fits (value : Int) : Prop :=
  -2147483648 ≤ value ∧ value < 2147483648

instance (value : Int) : Decidable (Fits value) :=
  inferInstanceAs (Decidable (_ ∧ _))

def int? (value : Int) : Option Int :=
  if Fits value then some value else none

theorem int?_eq_some (fits : Fits value) : int? value = some value :=
  if_pos fits

theorem int?_eq_none (beyond : ¬ Fits value) : int? value = none :=
  if_neg beyond

structure WorkerPoolConfig where
  subpoolCount : Int
  subpoolNumaMap : List Int
  subpoolThreadCount : List Int
deriving DecidableEq, Repr

/-- The bindings take C integers only. -/
def WorkerPoolConfig.Convertible (config : WorkerPoolConfig) : Prop :=
  Fits config.subpoolCount ∧ (∀ node ∈ config.subpoolNumaMap, Fits node) ∧
    ∀ count ∈ config.subpoolThreadCount, Fits count

instance (config : WorkerPoolConfig) : Decidable config.Convertible :=
  inferInstanceAs (Decidable (_ ∧ _ ∧ _))

inductive ConfigError where
  | value (message : String)
  | conversion
deriving DecidableEq, Repr

def WorkerPoolConfig.convert (config : WorkerPoolConfig) : Except ConfigError WorkerPoolConfig :=
  if config.Convertible then .ok config else .error .conversion

theorem WorkerPoolConfig.eq_of_convert {config converted : WorkerPoolConfig}
    (accepted : config.convert = .ok converted) : config = converted := by
  unfold convert at accepted
  split at accepted
  · exact Except.ok.inj accepted
  · contradiction

/-- The nodes of the subpools: those given, one for each, or the first ones. -/
def numaMap (numaNodes : Option (List Int)) (threadpoolCount : Int) : Except ConfigError (List Int) :=
  match numaNodes with
  | some nodes =>
      if (nodes.length : Int) ≠ threadpoolCount then
        .error (.value s!"numa_nodes length ({nodes.length}) must match threadpool_count ({threadpoolCount})")
      else .ok nodes
  | none => .ok ((List.range threadpoolCount.toNat).map Int.ofNat)

/-- `_get_cpu_infer`: the configuration of the one instance, made by the first
call. -/
def getCpuInfer (created : Option WorkerPoolConfig) (cpuinferThreads threadpoolCount : Int)
    (numaNodes : Option (List Int)) : Except ConfigError WorkerPoolConfig :=
  match created with
  | some config => .ok config
  | none => do
      let subpoolNumaMap ← numaMap numaNodes threadpoolCount
      let subpoolThreadCount := (List.range threadpoolCount.toNat).map fun index =>
        cpuinferThreads.fdiv threadpoolCount +
          if Int.ofNat index < cpuinferThreads.fmod threadpoolCount then 1 else 0
      WorkerPoolConfig.convert ⟨threadpoolCount, subpoolNumaMap, subpoolThreadCount⟩

theorem getCpuInfer_none (cpuinferThreads threadpoolCount : Int) (numaNodes : Option (List Int)) :
    getCpuInfer none cpuinferThreads threadpoolCount numaNodes =
      numaMap numaNodes threadpoolCount >>= fun nodes => WorkerPoolConfig.convert
        ⟨threadpoolCount, nodes, (List.range threadpoolCount.toNat).map fun index =>
          cpuinferThreads.fdiv threadpoolCount +
            if Int.ofNat index < cpuinferThreads.fmod threadpoolCount then 1 else 0⟩ :=
  rfl

def readCount (numaThreadsCount : List Int) (numa : Int) : Option Int :=
  if 0 ≤ numa then numaThreadsCount[numa.toNat]? else none

def addCount (numaThreadsCount : List Int) (numa amount : Int) : Option (List Int) := do
  let old ← readCount numaThreadsCount numa
  let sum ← int? (old + amount)
  return numaThreadsCount.set numa.toNat sum

structure Subpool where
  threadCount : Int
  numaId : Int
  threadsIdStart : Int
deriving DecidableEq, Repr

/-- The node and core the constructor of `InNumaPool` asks for each of the
threads it creates. -/
def Subpool.requests (subpool : Subpool) : Option (List (Int × Int)) :=
  (List.range' 1 (subpool.threadCount.toNat - 1)).mapM fun index =>
    (int? (Int.ofNat index + subpool.threadsIdStart)).map fun core => (subpool.numaId, core)

structure Placement where
  numaThreadsCount : List Int
  subpools : List Subpool := []
  requests : List (Int × Int) := []
deriving DecidableEq, Repr

/-- One turn of the loop of `WorkerPool::init`. -/
def placeSubpool (config : WorkerPoolConfig) (placement : Placement) (index : Nat) :
    Option Placement := do
  let thisNuma ← config.subpoolNumaMap[index]?
  let thisThreadCount ← config.subpoolThreadCount[index]?
  let thisThreadIdStart ← readCount placement.numaThreadsCount thisNuma
  let subpool : Subpool := ⟨thisThreadCount, thisNuma, thisThreadIdStart⟩
  let requests ← subpool.requests
  let numaThreadsCount ← addCount placement.numaThreadsCount thisNuma thisThreadCount
  return ⟨numaThreadsCount, placement.subpools ++ [subpool], placement.requests ++ requests⟩

def initWorkerPool (config : WorkerPoolConfig) : Option Placement :=
  (List.range config.subpoolCount.toNat).foldlM (placeSubpool config)
    { numaThreadsCount := List.replicate config.subpoolCount.toNat 0 }

/-- One turn of the loop of `NumaJobDistributor::init`.  A node or core that
`hwloc` does not find skips the rest of the turn. -/
def placeDistributor (found : Int → Int → Bool) (config : WorkerPoolConfig)
    (numaThreadsCount : List Int) (index : Nat) : Option (List Int) := do
  let thisNuma ← config.subpoolNumaMap[index]?
  let startId ← readCount numaThreadsCount thisNuma
  if found thisNuma startId then
    let threadCount ← config.subpoolThreadCount[index]?
    addCount numaThreadsCount thisNuma threadCount
  else return numaThreadsCount

def initDistributor (found : Int → Int → Bool) (config : WorkerPoolConfig) : Option (List Int) :=
  (List.range config.subpoolNumaMap.length).foldlM (placeDistributor found config)
    (List.replicate config.subpoolNumaMap.length 0)

/-- Both classes stay within their vectors, every subpool has a worker, and no
two created threads ask for the same core of the same node. -/
def WellPlaced (config : WorkerPoolConfig) : Prop :=
  ∃ placement, initWorkerPool config = some placement ∧
    (∀ found, (initDistributor found config).isSome) ∧
    (∀ subpool ∈ placement.subpools, 1 ≤ subpool.threadCount) ∧ placement.requests.Nodup

/-! ## The counts in closed form -/

section

variable (numa : Nat → Int) (threads : Nat → Nat)

/-- The threads the first subpools put on a node. -/
def usage (count : Nat) (node : Int) : Nat :=
  ∑ index ∈ Finset.range count, if numa index = node then threads index else 0

theorem usage_succ (count : Nat) (node : Int) :
    usage numa threads (count + 1) node =
      usage numa threads count node + if numa count = node then threads count else 0 :=
  Finset.sum_range_succ _ _

theorem usage_mono {before after : Nat} (later : before ≤ after) (node : Int) :
    usage numa threads before node ≤ usage numa threads after node := by
  induction later with
  | refl => exact Nat.le_refl _
  | step _ induction =>
      rw [usage_succ]
      omega

def table (size count : Nat) : List Int :=
  (List.range size).map fun node : Nat => (usage numa threads count node : Int)

theorem readCount_table (size count : Nat) (node : Int) :
    readCount (table numa threads size count) node =
      if 0 ≤ node ∧ node < size then some (usage numa threads count node : Int) else none := by
  unfold readCount table
  by_cases nonnegative : 0 ≤ node
  · by_cases below : node < size
    · have inside : node.toNat < size := by omega
      simp [nonnegative, below, inside]
    · simp only [nonnegative, below, and_false, if_true, if_false, List.getElem?_eq_none_iff,
        List.length_map, List.length_range]
      omega
  · simp [nonnegative]

theorem addCount_table (size count : Nat) :
    addCount (table numa threads size count) (numa count) (threads count) =
      if (0 ≤ numa count ∧ numa count < size) ∧
          usage numa threads (count + 1) (numa count) < 2147483648 then
        some (table numa threads size (count + 1))
      else none := by
  unfold addCount
  rw [readCount_table]
  by_cases inside : 0 ≤ numa count ∧ numa count < size
  · rw [if_pos inside]
    have total := usage_succ numa threads count (numa count)
    rw [if_pos rfl] at total
    by_cases small : usage numa threads (count + 1) (numa count) < 2147483648
    · have fits : Fits ((usage numa threads count (numa count) : Int) + threads count) := by
        constructor <;> omega
      rw [if_pos ⟨inside, small⟩, Option.bind_eq_bind, Option.bind_some, int?_eq_some fits,
        Option.bind_some]
      refine congrArg some ?_
      apply List.ext_getElem
      · simp [table]
      · intro index _ below
        have below : index < size := by simpa [table] using below
        simp only [table, List.getElem_set, List.getElem_map, List.getElem_range, usage_succ]
        by_cases same : (numa count).toNat = index
        · have exact : (index : Int) = numa count := by omega
          simp [same, exact]
        · have other : numa count ≠ index := by omega
          simp [same, other]
    · have beyond : ¬ Fits ((usage numa threads count (numa count) : Int) + threads count) := by
        intro fits
        have high := fits.2
        omega
      rw [if_neg (fun both => small both.2), Option.bind_eq_bind, Option.bind_some,
        int?_eq_none beyond]
      rfl
  · rw [if_neg inside, if_neg (fun both => inside both.1)]
    rfl

/-- The first subpools name nodes inside the vector and their sums are integers
the code can hold. -/
def Fitting (size count : Nat) : Prop :=
  ∀ index < count, (0 ≤ numa index ∧ numa index < size) ∧
    usage numa threads (index + 1) (numa index) < 2147483648

def subpoolAt (index : Nat) : Subpool :=
  ⟨threads index, numa index, usage numa threads index (numa index)⟩

def pairsAt (index : Nat) : List (Int × Int) :=
  (List.range' 1 (threads index - 1)).map fun core : Nat =>
    (numa index, (core : Int) + usage numa threads index (numa index))

def placed (size count : Nat) : Placement :=
  ⟨table numa threads size count, (List.range count).map (subpoolAt numa threads),
    (List.range count).flatMap (pairsAt numa threads)⟩

theorem mapM_eq_some {test : α → Option β} {value : α → β} {items : List α}
    (each : ∀ item ∈ items, test item = some (value item)) :
    items.mapM test = some (items.map value) := by
  induction items with
  | nil => rfl
  | cons item rest induction =>
      rw [List.mapM_cons, each item (List.mem_cons_self ..),
        induction fun other member => each other (List.mem_cons_of_mem _ member)]
      rfl

theorem requests_subpoolAt (index : Nat)
    (small : usage numa threads (index + 1) (numa index) < 2147483648) :
    (subpoolAt numa threads index).requests = some (pairsAt numa threads index) := by
  rw [usage_succ, if_pos rfl] at small
  apply mapM_eq_some
  intro core member
  rw [List.mem_range'_1] at member
  simp only [subpoolAt, Int.toNat_natCast] at member
  have fits : Fits (Int.ofNat core + (subpoolAt numa threads index).threadsIdStart) := by
    simp only [subpoolAt, Int.ofNat_eq_natCast]
    constructor <;> omega
  rw [int?_eq_some fits]
  rfl

/-- The configuration as functions of the subpool's number. -/
structure Listed (config : WorkerPoolConfig) (count : Nat) : Prop where
  pools : config.subpoolCount = count
  nodes : config.subpoolNumaMap = (List.range count).map numa
  shares : config.subpoolThreadCount = (List.range count).map fun index => (threads index : Int)

variable {numa threads}

theorem Listed.at (listed : Listed numa threads config count) (below : index < count) :
    config.subpoolNumaMap[index]? = some (numa index) ∧
      config.subpoolThreadCount[index]? = some (threads index : Int) := by
  rw [listed.nodes, listed.shares]
  simp [below]

theorem placeSubpool_placed {size : Nat} (listed : Listed numa threads config count) (below : index < count)
    (fits : (0 ≤ numa index ∧ numa index < size) ∧
      usage numa threads (index + 1) (numa index) < 2147483648) :
    placeSubpool config (placed numa threads size index) index =
      some (placed numa threads size (index + 1)) := by
  obtain ⟨node, share⟩ := listed.at below
  have start : readCount (placed numa threads size index).numaThreadsCount (numa index) =
      some (usage numa threads index (numa index) : Int) := by
    rw [placed, readCount_table, if_pos fits.1]
  have requests : Subpool.requests ⟨threads index, numa index, usage numa threads index (numa index)⟩ =
      some (pairsAt numa threads index) := requests_subpoolAt numa threads index fits.2
  have added : addCount (placed numa threads size index).numaThreadsCount (numa index) (threads index) =
      some (table numa threads size (index + 1)) := by
    rw [placed, addCount_table, if_pos fits]
  unfold placeSubpool
  rw [node, share]
  simp only [Option.bind_eq_bind, Option.bind_some, start, requests, added]
  simp [placed, List.range_succ, subpoolAt]

theorem placeSubpool_fits {size : Nat} (listed : Listed numa threads config count) (below : index < count)
    (moved : placeSubpool config (placed numa threads size index) index = some after) :
    (0 ≤ numa index ∧ numa index < size) ∧
      usage numa threads (index + 1) (numa index) < 2147483648 := by
  obtain ⟨node, share⟩ := listed.at below
  unfold placeSubpool at moved
  rw [node, share] at moved
  simp only [Option.bind_eq_bind, Option.bind_some, Option.bind_eq_some_iff] at moved
  obtain ⟨_, _, _, _, counts, added, _⟩ := moved
  rw [placed, addCount_table] at added
  by_contra unfit
  rw [if_neg unfit] at added
  contradiction

theorem foldlM_range_succ (turn : β → Nat → Option β) (start : β) (count : Nat) :
    (List.range (count + 1)).foldlM turn start =
      ((List.range count).foldlM turn start).bind (turn · count) := by
  rw [List.range_succ, List.foldlM_append]
  congr 1
  funext reached
  cases result : turn reached count <;> simp [result]

theorem foldlM_placed (listed : Listed numa threads config count) (reached : index ≤ count)
    (fitting : Fitting numa threads size index) :
    (List.range index).foldlM (placeSubpool config) (placed numa threads size 0) =
      some (placed numa threads size index) := by
  induction index with
  | zero => rfl
  | succ index induction =>
      rw [foldlM_range_succ, induction (by omega) fun earlier below => fitting earlier (by omega),
        Option.bind_some]
      exact placeSubpool_placed listed (by omega) (fitting index (Nat.lt_succ_self _))

theorem fitting_of_foldlM (listed : Listed numa threads config count) (reached : index ≤ count)
    (placement : (List.range index).foldlM (placeSubpool config) (placed numa threads size 0) =
      some after) : Fitting numa threads size index := by
  induction index generalizing after with
  | zero =>
      intro index below
      omega
  | succ index induction =>
      rw [foldlM_range_succ, Option.bind_eq_some_iff] at placement
      obtain ⟨middle, earlier, last⟩ := placement
      have fitting := induction (by omega) earlier
      rw [foldlM_placed listed (by omega) fitting] at earlier
      obtain rfl := Option.some.inj earlier
      have fits := placeSubpool_fits listed (by omega) last
      intro other below
      rcases Nat.lt_succ_iff_lt_or_eq.mp below with before | rfl
      · exact fitting other before
      · exact fits

/-- Cores of one node are handed out in increasing order, so no two subpools
ask for the same one. -/
theorem pairsAt_nodup (count : Nat) : ((List.range count).flatMap (pairsAt numa threads)).Nodup := by
  rw [List.nodup_flatMap]
  constructor
  · intro index _
    refine List.Nodup.map ?_ List.nodup_range'
    intro core other same
    simp only [Prod.mk.injEq, true_and] at same
    omega
  · refine List.pairwise_lt_range.imp ?_
    intro before after later pair first second
    simp only [pairsAt, List.mem_map, List.mem_range'_1] at first second
    obtain ⟨core, bounds, rfl⟩ := first
    obtain ⟨core', bounds', same⟩ := second
    simp only [Prod.mk.injEq] at same
    have total := usage_succ numa threads before (numa before)
    rw [if_pos rfl] at total
    have grown := usage_mono numa threads (Nat.succ_le_of_lt later) (numa before)
    rw [Nat.succ_eq_add_one] at grown
    rw [same.1] at same
    omega

/-- The counts of the distributor never exceed those of the pool. -/
def Counted (numa : Nat → Int) (threads : Nat → Nat) (size index : Nat) (counts : List Int) : Prop :=
  counts.length = size ∧ ∀ node < size, ∃ value : Nat,
    counts[node]? = some (value : Int) ∧ value ≤ usage numa threads index node

theorem placeDistributor_counted {size : Nat} (listed : Listed numa threads config count)
    (below : index < count) (fits : (0 ≤ numa index ∧ numa index < size) ∧
      usage numa threads (index + 1) (numa index) < 2147483648)
    (counted : Counted numa threads size index counts) :
    ∃ after, placeDistributor found config counts index = some after ∧
      Counted numa threads size (index + 1) after := by
  obtain ⟨node, share⟩ := listed.at below
  obtain ⟨length, bounded⟩ := counted
  obtain ⟨value, stored, limit⟩ := bounded (numa index).toNat (by omega)
  have named : ((numa index).toNat : Int) = numa index := by omega
  rw [named] at limit
  have total := usage_succ numa threads index (numa index)
  rw [if_pos rfl] at total
  have start : readCount counts (numa index) = some (value : Int) := by
    rw [readCount, if_pos fits.1.1, stored]
  have held : Fits ((value : Int) + threads index) := by
    constructor <;> omega
  have added : addCount counts (numa index) (threads index) =
      some (counts.set (numa index).toNat ((value : Int) + threads index)) := by
    rw [addCount, start, Option.bind_eq_bind, Option.bind_some, int?_eq_some held, Option.bind_some]
    rfl
  unfold placeDistributor
  rw [node, share, Option.bind_eq_bind, Option.bind_some, start, Option.bind_some]
  cases found (numa index) value with
  | false =>
      refine ⟨counts, rfl, length, ?_⟩
      intro other inside
      obtain ⟨value', stored', limit'⟩ := bounded other inside
      exact ⟨value', stored', limit'.trans (usage_mono numa threads (Nat.le_succ _) _)⟩
  | true =>
      refine ⟨_, added, by rw [List.length_set]; exact length, ?_⟩
      intro other inside
      obtain ⟨value', stored', limit'⟩ := bounded other inside
      by_cases same : (numa index).toNat = other
      · subst same
        refine ⟨value + threads index, ?_, ?_⟩
        · rw [List.getElem?_set_self (by omega)]
          simp
        · rw [named, total]
          omega
      · refine ⟨value', ?_, limit'.trans (usage_mono numa threads (Nat.le_succ _) _)⟩
        rw [List.getElem?_set_ne same]
        exact stored'

theorem initDistributor_isSome (listed : Listed numa threads config count)
    (fitting : Fitting numa threads count count) (found : Int → Int → Bool) :
    (initDistributor found config).isSome := by
  have length : config.subpoolNumaMap.length = count := by
    rw [listed.nodes, List.length_map, List.length_range]
  have runs : ∀ index ≤ count, ∃ counts,
      (List.range index).foldlM (placeDistributor found config) (List.replicate count 0) =
        some counts ∧ Counted numa threads count index counts := by
    intro index reached
    induction index with
    | zero =>
        refine ⟨_, rfl, List.length_replicate, ?_⟩
        intro node inside
        exact ⟨0, by simp [inside], Nat.zero_le _⟩
    | succ index induction =>
        obtain ⟨counts, earlier, counted⟩ := induction (by omega)
        obtain ⟨after, moved, counted⟩ := placeDistributor_counted listed (by omega)
          (fitting index (by omega)) counted
        refine ⟨after, ?_, counted⟩
        rw [foldlM_range_succ, earlier]
        exact moved
  obtain ⟨counts, result, _⟩ := runs count (Nat.le_refl _)
  rw [initDistributor, length, result]
  rfl

/-- Exactly when the placement of a listed configuration is well defined. -/
theorem wellPlaced_iff (listed : Listed numa threads config count) :
    WellPlaced config ↔ Fitting numa threads count count ∧ ∀ index < count, 1 ≤ threads index := by
  have pool : initWorkerPool config =
      (List.range count).foldlM (placeSubpool config) (placed numa threads count 0) := by
    rw [initWorkerPool, listed.pools, Int.toNat_natCast]
    congr 1
    simp [placed, table, usage, List.map_const']
  constructor
  · rintro ⟨placement, result, _, workers, _⟩
    rw [pool] at result
    have fitting := fitting_of_foldlM listed (Nat.le_refl _) result
    rw [foldlM_placed listed (Nat.le_refl _) fitting] at result
    obtain rfl := Option.some.inj result
    refine ⟨fitting, fun index below => ?_⟩
    have worker := workers (subpoolAt numa threads index)
      (List.mem_map_of_mem (List.mem_range.mpr below))
    simp only [subpoolAt] at worker
    omega
  · rintro ⟨fitting, workers⟩
    refine ⟨_, pool.trans (foldlM_placed listed (Nat.le_refl _) fitting),
      initDistributor_isSome listed fitting, ?_, pairsAt_nodup count⟩
    intro subpool member
    obtain ⟨index, below, rfl⟩ := List.mem_map.mp member
    have worker := workers index (List.mem_range.mp below)
    simp only [subpoolAt]
    omega

end

/-! ## The configuration of `_get_cpu_infer` -/

def numaOf (numaNodes : Option (List Int)) (index : Nat) : Int :=
  match numaNodes with
  | some nodes => nodes.getD index 0
  | none => index

def shareOf (cpuinferThreads threadpoolCount index : Nat) : Nat :=
  cpuinferThreads / threadpoolCount + if index < cpuinferThreads % threadpoolCount then 1 else 0

theorem except_bind_eq_ok {first : Except ε α} {next : α → Except ε β}
    (result : (first >>= next) = .ok value) : ∃ middle, first = .ok middle ∧ next middle = .ok value := by
  cases first with
  | error raised => contradiction
  | ok middle => exact ⟨middle, rfl, result⟩

theorem getCpuInfer_listed {cpuinferThreads threadpoolCount : Nat}
    (accepted : getCpuInfer none cpuinferThreads threadpoolCount numaNodes = .ok config) :
    Listed (numaOf numaNodes) (shareOf cpuinferThreads threadpoolCount) config threadpoolCount ∧
      ∀ nodes, numaNodes = some nodes → nodes.length = threadpoolCount := by
  have shares : ((List.range (threadpoolCount : Int).toNat).map fun index =>
      (cpuinferThreads : Int).fdiv threadpoolCount +
        if Int.ofNat index < (cpuinferThreads : Int).fmod threadpoolCount then (1 : Int) else 0) =
      (List.range threadpoolCount).map fun index =>
        (shareOf cpuinferThreads threadpoolCount index : Int) := by
    rw [Int.toNat_natCast]
    apply List.map_congr_left
    intro index _
    rw [Int.fmod_eq_emod_of_nonneg _ (Int.natCast_nonneg _), ← Int.ofNat_fdiv, ← Int.natCast_emod]
    by_cases extra : index < cpuinferThreads % threadpoolCount
    · have extra' : Int.ofNat index < (cpuinferThreads % threadpoolCount : Nat) := by
        simp only [Int.ofNat_eq_natCast]
        omega
      rw [if_pos extra', shareOf, if_pos extra]
      omega
    · have none : ¬ Int.ofNat index < (cpuinferThreads % threadpoolCount : Nat) := by
        simp only [Int.ofNat_eq_natCast]
        omega
      rw [if_neg none, shareOf, if_neg extra]
      omega
  rw [getCpuInfer_none] at accepted
  obtain ⟨nodes, mapped, converted⟩ := except_bind_eq_ok accepted
  rw [shares] at converted
  obtain rfl := WorkerPoolConfig.eq_of_convert converted
  clear converted accepted
  cases numaNodes with
  | none =>
      obtain rfl := Except.ok.inj mapped
      refine ⟨⟨rfl, ?_, rfl⟩, by nofun⟩
      rw [Int.toNat_natCast]
      rfl
  | some given =>
      simp only [numaMap] at mapped
      split at mapped
      · contradiction
      · rename_i length
        obtain rfl := Except.ok.inj mapped
        have length : given.length = threadpoolCount := by omega
        refine ⟨⟨rfl, ?_, rfl⟩, fun _ same => Option.some.inj same ▸ length⟩
        apply List.ext_getElem
        · simp [length]
        · intro index below _
          simp [numaOf, below]

theorem share_pos_iff {cpuinferThreads threadpoolCount : Nat} (pools : 1 ≤ threadpoolCount) :
    (∀ index < threadpoolCount, 1 ≤ shareOf cpuinferThreads threadpoolCount index) ↔
      threadpoolCount ≤ cpuinferThreads := by
  have remainder := Nat.mod_lt cpuinferThreads pools
  constructor
  · intro shares
    have last := shares (threadpoolCount - 1) (by omega)
    rw [shareOf, if_neg (by omega), Nat.add_zero] at last
    exact (Nat.div_pos_iff.mp last).2
  · intro enough index _
    have quotient : 1 ≤ cpuinferThreads / threadpoolCount := Nat.div_pos enough pools
    unfold shareOf
    omega

theorem numaOf_inside_iff {threadpoolCount : Nat}
    (length : ∀ nodes, numaNodes = some nodes → nodes.length = threadpoolCount) :
    (∀ index < threadpoolCount, 0 ≤ numaOf numaNodes index ∧ numaOf numaNodes index < threadpoolCount) ↔
      ∀ nodes, numaNodes = some nodes → ∀ node ∈ nodes, 0 ≤ node ∧ node < threadpoolCount := by
  cases numaNodes with
  | none =>
      refine ⟨by nofun, fun _ index below => ?_⟩
      simp only [numaOf]
      omega
  | some nodes =>
      have sized := length nodes rfl
      constructor
      · intro inside nodes' same node member
        cases same
        obtain ⟨index, below, rfl⟩ := List.mem_iff_getElem.mp member
        simpa [numaOf, below] using inside index (by omega)
      · intro inside index below
        simp only [numaOf, List.getD_eq_getElem?_getD, List.getElem?_eq_getElem (sized.symm ▸ below),
          Option.getD_some]
        exact inside nodes rfl _ (List.getElem_mem _)

/-- The sums the code forms stay small exactly when the totals of the nodes do. -/
theorem usage_lt {numa : Nat → Int} {threads : Nat → Nat} {limit : Nat} (positive : 0 < limit)
    (each : ∀ index < count, usage numa threads (index + 1) (numa index) < limit) (node : Int) :
    usage numa threads count node < limit := by
  induction count with
  | zero => exact positive
  | succ count induction =>
      by_cases same : numa count = node
      · subst same
        exact each count (Nat.lt_succ_self _)
      · rw [usage_succ, if_neg same, Nat.add_zero]
        exact induction fun index below => each index (by omega)

/-- The placement is well defined exactly when every requested node is the
number of a subpool, there are threads for all subpools, and no node gets more
of them than an `int` counts. -/
theorem placement_well_defined_iff {cpuinferThreads threadpoolCount : Nat}
    (pools : 1 ≤ threadpoolCount)
    (accepted : getCpuInfer none cpuinferThreads threadpoolCount numaNodes = .ok config) :
    WellPlaced config ↔
      (∀ nodes, numaNodes = some nodes → ∀ node ∈ nodes, 0 ≤ node ∧ node < threadpoolCount) ∧
        threadpoolCount ≤ cpuinferThreads ∧
        ∀ node, usage (numaOf numaNodes) (shareOf cpuinferThreads threadpoolCount) threadpoolCount node <
          2147483648 := by
  obtain ⟨listed, length⟩ := getCpuInfer_listed accepted
  rw [wellPlaced_iff listed, share_pos_iff pools, ← numaOf_inside_iff length]
  constructor
  · rintro ⟨fitting, enough⟩
    exact ⟨fun index below => (fitting index below).1, enough,
      usage_lt (by decide) fun index below => (fitting index below).2⟩
  · rintro ⟨inside, enough, small⟩
    refine ⟨fun index below => ⟨inside index below, ?_⟩, enough⟩
    exact (usage_mono _ _ (Nat.succ_le_of_lt below) _).trans_lt (small _)

theorem placement_well_defined_default :
    ∃ config, getCpuInfer none 5 2 none = .ok config ∧ WellPlaced config := by
  have accepted : getCpuInfer none ((5 : Nat) : Int) ((2 : Nat) : Int) none =
      .ok ⟨2, [0, 1], [3, 2]⟩ := by decide
  refine ⟨_, accepted, (placement_well_defined_iff (by decide) accepted).mpr ⟨by nofun, by decide, ?_⟩⟩
  apply usage_lt (by decide)
  decide

/-- One pool on the second node of a machine indexes past its vector. -/
theorem placement_undefined_second_node :
    ∃ config, getCpuInfer none 4 1 (some [1]) = .ok config ∧ initWorkerPool config = none ∧
      ¬ WellPlaced config := by
  refine ⟨⟨1, [1], [4]⟩, by decide, by decide, ?_⟩
  rintro ⟨placement, result, _⟩
  have undefined : initWorkerPool ⟨1, [1], [4]⟩ = none := by decide
  rw [undefined] at result
  contradiction

end KtKernel.WorkerPool
