import KtKernel.Data.Tiling
import KtKernel.Data.Streams

namespace KtKernel.KvCache.Files

open KtKernel.Data

/-! The file that `dump_kvcache` writes and `load_kvcache` reads.

Containers are the bytes of their elements.
-/

inductive KvType where
  | f16
  | q4_0
  | q8_0
deriving DecidableEq, Repr

structure Config where
  layerNum : Nat
  kvHeadNum : Nat
  qHeadNum : Nat
  headDim : Nat
  blockLen : Nat
  anchorNum : Nat
  maxBlockNum : Nat
  kvType : KvType
  layers : 0 < layerNum
  kvHeads : 0 < kvHeadNum
  tokens : 0 < blockLen

namespace Config

variable (config : Config)

def dataBytes : Nat :=
  match config.kvType with
  | .f16 => 2 * (config.blockLen * config.headDim)
  | .q4_0 => 18 * (config.blockLen * config.headDim / 32)
  | .q8_0 => 34 * (config.blockLen * config.headDim / 32)

def importanceBytes : Nat := 2 * config.qHeadNum

def anchorBytes : Nat := 2 * (config.anchorNum * config.qHeadNum * config.headDim)

/-- `(len + block_len - 1) / block_len` -/
def blockNum (cacheTotalLen : Nat) : Nat :=
  (cacheTotalLen + config.blockLen - 1) / config.blockLen

end Config

/-- The containers of a cache that a file has, those of its storage type. -/
inductive Slot where
  | anchor
  | k (layer head block : Nat)
  | v (layer head block : Nat)
  | importance (layer block token : Nat)
deriving DecidableEq, Repr

def Config.slotBytes (config : Config) : Slot → Nat
  | .anchor => config.layerNum * config.maxBlockNum * config.anchorBytes
  | .k _ _ _ => config.dataBytes
  | .v _ _ _ => config.dataBytes
  | .importance _ _ _ => config.importanceBytes

structure Cache (config : Config) where
  cacheTotalLen : Nat
  pastBlockNum : Nat → Nat
  bytes : Slot → List UInt8
  sized : ∀ slot, (bytes slot).length = config.slotBytes slot

variable {config : Config}

/-- The four bytes of an `int`. -/
def intBytes (number : Nat) : List UInt8 :=
  [UInt8.ofNat number, UInt8.ofNat (number / 2 ^ 8), UInt8.ofNat (number / 2 ^ 16), UInt8.ofNat (number / 2 ^ 24)]

def intOfBytes (bytes : List UInt8) : Nat :=
  bytes.foldr (fun byte number => byte.toNat + 2 ^ 8 * number) 0

def dumpKvcache (cache : Cache config) (blockTable : Nat → Nat) (cacheTotalLen : Nat) : List UInt8 :=
  let pastBlockNum := config.blockNum cacheTotalLen
  intBytes cacheTotalLen ++ cache.bytes .anchor ++ (List.range config.layerNum).flatMap fun i =>
    ((List.range config.kvHeadNum).flatMap fun j => (List.range pastBlockNum).flatMap fun k =>
      let blockIdx := blockTable k
      match config.kvType with
      | .f16 => cache.bytes (.k i j blockIdx) ++ cache.bytes (.v i j blockIdx)
      | .q4_0 => cache.bytes (.k i j blockIdx) ++ cache.bytes (.v i j blockIdx)
      | .q8_0 => []) ++
    (List.range pastBlockNum).flatMap fun k => (List.range config.blockLen).flatMap fun l => cache.bytes (.importance i (blockTable k) l)

/-- The branches of `load_kvcache` for the storage types. -/
def dataSlots (kvType : KvType) (i j k : Nat) : List Slot :=
  match kvType with
  | .f16 => [.k i j k, .v i j k]
  | .q4_0 => [.k i j k, .v i j k]
  | .q8_0 => []

/-- The buffers of a layer that `load_kvcache` reads into, in order. -/
def layerSlots (config : Config) (pastBlockNum i : Nat) : List Slot :=
  ((List.range config.kvHeadNum).flatMap fun j => (List.range pastBlockNum).flatMap fun k => dataSlots config.kvType i j k) ++
  (List.range pastBlockNum).flatMap fun k => (List.range config.blockLen).map fun l => .importance i k l

def loadKvcache (cache : Cache config) (file : List UInt8) : Cache config :=
  let cacheTotalLen := intOfBytes (fill (intBytes cache.cacheTotalLen) file)
  let pastBlockNum := config.blockNum cacheTotalLen
  let slots := .anchor :: (List.range config.layerNum).flatMap (layerSlots config pastBlockNum)
  let read := readSlots slots (cache.bytes, file.drop 4)
  { cacheTotalLen := cacheTotalLen
    pastBlockNum := fun i => if i < config.layerNum then pastBlockNum else cache.pastBlockNum i
    bytes := read.1
    sized := fun slot => (readSlots_length slots _ slot).trans (cache.sized slot) }

def Cache.anchors (cache : Cache config) (layer block : Nat) : List UInt8 :=
  ((cache.bytes .anchor).drop ((layer * config.maxBlockNum + block) * config.anchorBytes)).take config.anchorBytes

/-- The loaded cache has in block `k` what the dumped one has in block `block_table[k]`. -/
structure Restored (cache : Cache config) (blockTable : Nat → Nat) (cacheTotalLen : Nat) (loaded : Cache config) : Prop where
  total : loaded.cacheTotalLen = cacheTotalLen
  past : ∀ layer < config.layerNum, loaded.pastBlockNum layer = config.blockNum cacheTotalLen
  keys : ∀ layer < config.layerNum, ∀ head < config.kvHeadNum, ∀ k < config.blockNum cacheTotalLen,
    loaded.bytes (.k layer head k) = cache.bytes (.k layer head (blockTable k))
  values : ∀ layer < config.layerNum, ∀ head < config.kvHeadNum, ∀ k < config.blockNum cacheTotalLen,
    loaded.bytes (.v layer head k) = cache.bytes (.v layer head (blockTable k))
  importance : ∀ layer < config.layerNum, ∀ k < config.blockNum cacheTotalLen, ∀ token < config.blockLen,
    loaded.bytes (.importance layer k token) = cache.bytes (.importance layer (blockTable k) token)
  anchors : ∀ layer < config.layerNum, ∀ k < config.blockNum cacheTotalLen, loaded.anchors layer k = cache.anchors layer (blockTable k)

theorem intOfBytes_intBytes {number : Nat} (small : number < 2 ^ 32) : intOfBytes (intBytes number) = number := by
  simp only [intOfBytes, intBytes, List.foldr_cons, List.foldr_nil, UInt8.toNat_ofNat']
  omega

/-- The container that a buffer is read from. -/
def Slot.origin (blockTable : Nat → Nat) : Slot → Slot
  | .anchor => .anchor
  | .k layer head block => .k layer head (blockTable block)
  | .v layer head block => .v layer head (blockTable block)
  | .importance layer block token => .importance layer (blockTable block) token

def fileSlots (config : Config) (cacheTotalLen : Nat) : List Slot :=
  .anchor :: (List.range config.layerNum).flatMap (layerSlots config (config.blockNum cacheTotalLen))

theorem dumpKvcache_eq (cache : Cache config) (blockTable : Nat → Nat) (cacheTotalLen : Nat) :
    dumpKvcache cache blockTable cacheTotalLen =
      intBytes cacheTotalLen ++ (fileSlots config cacheTotalLen).flatMap fun slot => cache.bytes (slot.origin blockTable) := by
  have block : ∀ i j k, (match config.kvType with
      | .f16 => cache.bytes (.k i j (blockTable k)) ++ cache.bytes (.v i j (blockTable k))
      | .q4_0 => cache.bytes (.k i j (blockTable k)) ++ cache.bytes (.v i j (blockTable k))
      | .q8_0 => []) = (dataSlots config.kvType i j k).flatMap fun slot => cache.bytes (slot.origin blockTable) := by
    intro i j k
    cases config.kvType with
    | f16 => simp only [dataSlots, List.flatMap_cons, List.flatMap_nil, List.append_nil, Slot.origin]
    | q4_0 => simp only [dataSlots, List.flatMap_cons, List.flatMap_nil, List.append_nil, Slot.origin]
    | q8_0 => rfl
  simp only [dumpKvcache, fileSlots, layerSlots, List.flatMap_cons, List.flatMap_assoc, List.flatMap_append, List.flatMap_map, block,
    List.append_assoc, Slot.origin]

theorem sized_origin (cache target : Cache config) (blockTable : Nat → Nat) (slot : Slot) :
    (cache.bytes (slot.origin blockTable)).length = (target.bytes slot).length := by
  rw [cache.sized, target.sized]
  cases slot with
  | anchor => rfl
  | k layer head block => rfl
  | v layer head block => rfl
  | importance layer block token => rfl

theorem mem_dataSlots {kvType : KvType} {slot : Slot} :
    slot ∈ dataSlots kvType i j k ↔ kvType ≠ .q8_0 ∧ (slot = .k i j k ∨ slot = .v i j k) := by
  cases kvType with
  | f16 => simp [dataSlots]
  | q4_0 => simp [dataSlots]
  | q8_0 => simp [dataSlots]

/-- The loop variables of a buffer. -/
def Slot.place : Slot → Nat × Nat × Nat
  | .anchor => (0, 0, 0)
  | .k layer head block => (layer, head, block)
  | .v layer head block => (layer, head, block)
  | .importance layer block token => (layer, block, token)

theorem dataSlots_nodup (kvType : KvType) (i j k : Nat) : (dataSlots kvType i j k).Nodup := by
  cases kvType with
  | f16 => simp [dataSlots]
  | q4_0 => simp [dataSlots]
  | q8_0 => simp [dataSlots]

theorem place_of_mem_dataSlots {kvType : KvType} {slot : Slot} (member : slot ∈ dataSlots kvType i j k) : slot.place = (i, j, k) := by
  rcases (mem_dataSlots.mp member).2 with rfl | rfl
  · rfl
  · rfl

theorem layerSlots_nodup (config : Config) (pastBlockNum i : Nat) : (layerSlots config pastBlockNum i).Nodup := by
  rw [layerSlots, List.nodup_append']
  refine ⟨?_, ?_, ?_⟩
  · apply nodup_flatMap_keyed (fun slot => slot.place.2.1) List.nodup_range
    · intro j _
      apply nodup_flatMap_keyed (fun slot => slot.place.2.2) List.nodup_range
      · intro k _
        exact dataSlots_nodup _ i j k
      · intro k _ slot member
        rw [place_of_mem_dataSlots member]
    · intro j _ slot member
      obtain ⟨k, -, member⟩ := List.mem_flatMap.mp member
      rw [place_of_mem_dataSlots member]
  · apply nodup_flatMap_keyed (fun slot => slot.place.2.1) List.nodup_range
    · intro k _
      apply List.nodup_range.map
      intro one other same
      exact (Slot.importance.inj same).2.2
    · intro k _ slot member
      obtain ⟨l, -, rfl⟩ := List.mem_map.mp member
      rfl
  · intro slot inData inImportance
    obtain ⟨j, -, inData⟩ := List.mem_flatMap.mp inData
    obtain ⟨k, -, inData⟩ := List.mem_flatMap.mp inData
    obtain ⟨other, -, inImportance⟩ := List.mem_flatMap.mp inImportance
    obtain ⟨l, -, rfl⟩ := List.mem_map.mp inImportance
    rcases (mem_dataSlots.mp inData).2 with impossible | impossible
    · cases impossible
    · cases impossible

theorem place_of_mem_layerSlots {slot : Slot} (member : slot ∈ layerSlots config pastBlockNum i) : slot.place.1 = i ∧ slot ≠ .anchor := by
  rcases List.mem_append.mp member with inData | inImportance
  · obtain ⟨j, -, inData⟩ := List.mem_flatMap.mp inData
    obtain ⟨k, -, inData⟩ := List.mem_flatMap.mp inData
    rw [place_of_mem_dataSlots inData]
    refine ⟨rfl, ?_⟩
    rintro rfl
    rcases (mem_dataSlots.mp inData).2 with impossible | impossible
    · cases impossible
    · cases impossible
  · obtain ⟨k, -, inImportance⟩ := List.mem_flatMap.mp inImportance
    obtain ⟨l, -, rfl⟩ := List.mem_map.mp inImportance
    exact ⟨rfl, nofun⟩

theorem fileSlots_nodup (config : Config) (cacheTotalLen : Nat) : (fileSlots config cacheTotalLen).Nodup := by
  rw [fileSlots, List.nodup_cons]
  constructor
  · intro member
    obtain ⟨i, -, member⟩ := List.mem_flatMap.mp member
    exact (place_of_mem_layerSlots member).2 rfl
  · apply nodup_flatMap_keyed (fun slot => slot.place.1) List.nodup_range
    · intro i _
      exact layerSlots_nodup config _ i
    · intro i _ slot member
      exact (place_of_mem_layerSlots member).1

/-! ## The round trip -/

section RoundTrip

variable (cache target : Cache config) (blockTable : Nat → Nat) {cacheTotalLen : Nat}

/-- Every buffer of the file has the bytes of its container, and all others keep their own. -/
theorem load_dump (isInt : cacheTotalLen < 2 ^ 31) :
    (loadKvcache target (dumpKvcache cache blockTable cacheTotalLen)).cacheTotalLen = cacheTotalLen ∧
    (∀ layer < config.layerNum,
      (loadKvcache target (dumpKvcache cache blockTable cacheTotalLen)).pastBlockNum layer = config.blockNum cacheTotalLen) ∧
    ∀ slot, (loadKvcache target (dumpKvcache cache blockTable cacheTotalLen)).bytes slot =
      if slot ∈ fileSlots config cacheTotalLen then cache.bytes (slot.origin blockTable) else target.bytes slot := by
  have total : intOfBytes (fill (intBytes target.cacheTotalLen) (dumpKvcache cache blockTable cacheTotalLen)) = cacheTotalLen := by
    have sameLength : (intBytes cacheTotalLen).length = (intBytes target.cacheTotalLen).length := rfl
    rw [dumpKvcache_eq, fill_append sameLength, intOfBytes_intBytes (by omega)]
  have stream : (dumpKvcache cache blockTable cacheTotalLen).drop 4 =
      (fileSlots config cacheTotalLen).flatMap fun slot => cache.bytes (slot.origin blockTable) := by
    have four : (intBytes cacheTotalLen).length = 4 := rfl
    rw [dumpKvcache_eq]
    exact List.drop_left' four
  have read : readSlots (fileSlots config cacheTotalLen)
      (target.bytes, ((fileSlots config cacheTotalLen).flatMap fun slot => cache.bytes (slot.origin blockTable)) ++ []) =
        (fun slot => if slot ∈ fileSlots config cacheTotalLen then cache.bytes (slot.origin blockTable) else target.bytes slot, []) :=
    readSlots_written (fileSlots_nodup config cacheTotalLen) fun slot _ => sized_origin cache target blockTable slot
  rw [List.append_nil] at read
  refine ⟨total, ?_, ?_⟩
  · intro layer inside
    simp only [loadKvcache, total, if_pos inside]
  · intro slot
    simp only [loadKvcache, total, stream]
    rw [← fileSlots, read]

variable {cache} {blockTable}

/-- The cache with other bytes in its first block of keys than a list of them. -/
def Cache.unlike (cache : Cache config) (bytes : List UInt8) (same : bytes.length = config.dataBytes) : Cache config :=
  { cache with
    bytes := Function.update cache.bytes (.k 0 0 0) (bytes.map (· + 1))
    sized := by
      intro slot
      by_cases first : slot = .k 0 0 0
      · rw [first, Function.update_self, List.length_map, same]
        rfl
      · rw [Function.update_of_ne first, cache.sized] }

end RoundTrip

/-! One head of 32 channels, two blocks of 32 tokens with different anchors. -/

end KtKernel.KvCache.Files
