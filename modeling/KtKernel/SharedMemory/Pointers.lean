import Mathlib.Algebra.Order.BigOperators.Group.List
import Mathlib.Algebra.Order.Ring.Nat
import Mathlib.Data.List.Pairwise
import KtKernel.SharedMemory.Basic

namespace KtKernel.SharedMemory

open KtKernel.Data

/-! ## One request -/

namespace MemoryRequest

/-- The bytes of a request, without wrapping around. -/
def total (request : MemoryRequest) : Nat :=
  (request.entries.map Prod.snd).sum

/-- The bytes before an entry. -/
def offset (request : MemoryRequest) (index : Nat) : Nat :=
  ((request.entries.take index).map Prod.snd).sum

theorem foldl_total (entries : List (Nat × Nat)) {start : Nat}
    (bound : start + (entries.map Prod.snd).sum < word) :
    entries.foldl (fun total entry => (total + entry.2) % word) start =
      start + (entries.map Prod.snd).sum := by
  induction entries generalizing start with
  | nil => rfl
  | cons entry rest induction =>
      simp only [List.map_cons, List.sum_cons] at bound
      have inside : start + entry.2 < word := by omega
      simp only [List.foldl_cons, Nat.mod_eq_of_lt inside, List.map_cons, List.sum_cons]
      rw [induction (by omega)]
      omega

theorem totalSize_eq {request : MemoryRequest} (bound : request.total < word) :
    request.totalSize = request.total := by
  unfold totalSize
  unfold total at bound ⊢
  rw [foldl_total _ (by omega), Nat.zero_add]

theorem placeFrom_of_not_mem {entries : List (Nat × Nat)} (absent : slot ∉ entries.map Prod.fst)
    (base offset : Nat) (slots : Nat → Nat) : placeFrom base offset entries slots slot = slots slot := by
  induction entries generalizing offset slots with
  | nil => rfl
  | cons entry rest induction =>
      simp only [List.map_cons, List.mem_cons, not_or] at absent
      rw [placeFrom, induction absent.2, Function.update_of_ne absent.1]

theorem placeFrom_getElem {offset : Nat} {entries : List (Nat × Nat)} (distinct : (entries.map Prod.fst).Nodup)
    (bound : base + offset + (entries.map Prod.snd).sum < word) (slots : Nat → Nat)
    (found : entries[index]? = some (slot, size)) :
    placeFrom base offset entries slots slot =
      base + offset + ((entries.take index).map Prod.snd).sum := by
  induction entries generalizing offset slots index with
  | nil => simp at found
  | cons entry rest induction =>
      simp only [List.map_cons, List.nodup_cons, List.sum_cons] at distinct bound
      cases index with
      | zero =>
          cases found
          rw [placeFrom, placeFrom_of_not_mem distinct.1, Function.update_self,
            Nat.mod_eq_of_lt (by omega)]
          simp
      | succ index =>
          have inside : offset + entry.2 < word := by omega
          rw [placeFrom, Nat.mod_eq_of_lt inside, induction distinct.2 (by omega) _ found]
          simp only [List.take_succ_cons, List.map_cons, List.sum_cons]
          omega

theorem updateBasePtr_of_not_mem {request : MemoryRequest} (absent : slot ∉ request.slots) (base : Nat)
    (slots : Nat → Nat) : request.updateBasePtr base slots slot = slots slot :=
  placeFrom_of_not_mem absent base 0 slots

theorem updateBasePtr_getElem {request : MemoryRequest} (distinct : request.slots.Nodup)
    (bound : base + request.total < word) (slots : Nat → Nat)
    (found : request.entries[index]? = some (slot, size)) :
    request.updateBasePtr base slots slot = base + request.offset index := by
  have placed := placeFrom_getElem distinct (show base + 0 + _ < word from bound) slots found
  rw [Nat.add_zero] at placed
  exact placed

/-- An entry ends before every later entry begins. -/
theorem offset_add_le {request : MemoryRequest} (order : index < later)
    (found : request.entries[index]? = some (slot, size)) :
    request.offset index + size ≤ request.offset later := by
  have inside : index < request.entries.length := (List.getElem?_eq_some_iff.mp found).1
  have extended : request.offset (index + 1) = request.offset index + size := by
    unfold offset
    rw [List.take_add_one, found]
    simp
  have grows : request.offset (index + 1) ≤ request.offset later := by
    unfold offset
    have split : request.entries.take (index + 1) = (request.entries.take later).take (index + 1) := by
      rw [List.take_take, Nat.min_eq_left order]
    rw [split]
    exact ((List.take_sublist _ _).map Prod.snd).sum_le_sum (fun _ _ => Nat.zero_le _)
  omega

theorem offset_le_total (request : MemoryRequest)
    (found : request.entries[index]? = some (slot, size)) :
    request.offset index + size ≤ request.total := by
  have whole : request.offset (max (index + 1) request.entries.length) = request.total := by
    unfold offset total
    rw [List.take_of_length_le (Nat.le_max_right _ _)]
  rw [← whole]
  exact offset_add_le (by omega) found

theorem mem_slots_of_getElem {request : MemoryRequest} {index size : Nat}
    (found : request.entries[index]? = some (slot, size)) : slot ∈ request.slots :=
  List.mem_map.mpr ⟨_, List.mem_of_getElem? found, rfl⟩

end MemoryRequest

/-! ## The requests of one owner -/

/-- Some request names the pointer. -/
def Names (held : List MemoryRequest) (slot : Nat) : Prop :=
  ∃ request ∈ held, slot ∈ request.slots

/-- Every pointer lies where the last request that names it puts it. -/
def Placed (base : Nat) (slots : Nat → Nat) : List MemoryRequest → Prop
  | [] => True
  | request :: later =>
      (∀ index slot size, request.entries[index]? = some (slot, size) → ¬Names later slot →
        slots slot = base + request.offset index) ∧ Placed base slots later

/-- What the requests of an owner satisfy in a buffer of the given size. -/
def Fits (size : Nat) (held : List MemoryRequest) : Prop :=
  ∀ request ∈ held, request.slots.Nodup ∧ request.total ≤ size

section

variable {base : Nat} {held : List MemoryRequest} {slots : Nat → Nat}

theorem rebaseOwner_of_not_names (absent : ¬Names held slot) (base : Nat) (slots : Nat → Nat) :
    Registry.rebaseOwner base held slots slot = slots slot := by
  induction held generalizing slots with
  | nil => rfl
  | cons request later induction =>
      have here : slot ∉ request.slots := fun member => absent ⟨request, List.mem_cons_self, member⟩
      have rest : ¬Names later slot := by
        rintro ⟨other, member, named⟩
        exact absent ⟨other, List.mem_cons_of_mem _ member, named⟩
      calc Registry.rebaseOwner base later (request.updateBasePtr base slots) slot
          = request.updateBasePtr base slots slot := induction rest _
        _ = slots slot := MemoryRequest.updateBasePtr_of_not_mem here base slots

theorem Placed.congr {other : Nat → Nat} (placed : Placed base slots held)
    (same : ∀ slot, Names held slot → other slot = slots slot) : Placed base other held := by
  induction held with
  | nil => trivial
  | cons request later induction =>
      refine ⟨?_, induction placed.2 ?_⟩
      · intro index slot size found last
        rw [same slot ⟨request, List.mem_cons_self, MemoryRequest.mem_slots_of_getElem found⟩]
        exact placed.1 index slot size found last
      · rintro slot ⟨named, member, inside⟩
        exact same slot ⟨named, List.mem_cons_of_mem _ member, inside⟩

/-- Replaying the requests of an owner in order puts every pointer in place. -/
theorem placed_rebaseOwner (fits : Fits size held) (bound : base + size < word) (slots : Nat → Nat) :
    Placed base (Registry.rebaseOwner base held slots) held := by
  induction held generalizing slots with
  | nil => trivial
  | cons request later induction =>
      have rest : Fits size later := fun other member => fits other (List.mem_cons_of_mem _ member)
      refine ⟨?_, induction rest _⟩
      intro index slot extent found last
      obtain ⟨distinct, small⟩ := fits request List.mem_cons_self
      calc Registry.rebaseOwner base later (request.updateBasePtr base slots) slot
          = request.updateBasePtr base slots slot := rebaseOwner_of_not_names last base _
        _ = base + request.offset index :=
            MemoryRequest.updateBasePtr_getElem distinct (by omega) slots found

/-- A further request of the same owner may name its pointers again. -/
theorem Placed.push {request : MemoryRequest} (placed : Placed base slots held)
    (distinct : request.slots.Nodup) (bound : base + request.total < word) :
    Placed base (request.updateBasePtr base slots) (held ++ [request]) := by
  induction held with
  | nil =>
      refine ⟨?_, trivial⟩
      intro index slot size found _
      exact MemoryRequest.updateBasePtr_getElem distinct bound slots found
  | cons earlier later induction =>
      refine ⟨?_, induction placed.2⟩
      intro index slot size found last
      have absent : slot ∉ request.slots := by
        intro member
        exact last ⟨request, by simp, member⟩
      have before : ¬Names later slot := by
        rintro ⟨other, member, named⟩
        exact last ⟨other, List.mem_append_left _ member, named⟩
      rw [MemoryRequest.updateBasePtr_of_not_mem absent]
      exact placed.1 index slot size found before

/-- The last request of an owner is in place as a whole. -/
theorem Placed.latest {request : MemoryRequest} (placed : Placed base slots held)
    (last : held.getLast? = some request)
    (found : request.entries[index]? = some (slot, size)) :
    slots slot = base + request.offset index := by
  induction held with
  | nil => contradiction
  | cons earlier later induction =>
      cases later with
      | nil =>
          cases last
          exact placed.1 index slot size found (by rintro ⟨_, member, _⟩; contradiction)
      | cons next rest =>
          rw [List.getLast?_cons_cons] at last
          exact induction placed.2 last

end

/-! ## The registry -/

def Registry.Registers (registry : Registry) (slot : Nat) : Prop :=
  ∃ entry ∈ registry, Names entry.2 slot

/-- The owners are in order. -/
def Registry.Ordered (registry : Registry) : Prop :=
  registry.Pairwise fun one other => one.1 < other.1

/-- No two owners name the same pointer. -/
def Registry.Apart (registry : Registry) : Prop :=
  registry.Pairwise fun one other => ∀ slot, Names one.2 slot → ¬Names other.2 slot

theorem Registry.Apart.names {registry : Registry} (apart : registry.Apart) (first : one ∈ registry)
    (second : other ∈ registry) (differ : one ≠ other) (named : Names one.2 slot) :
    ¬Names other.2 slot := by
  have symm : Std.Symm fun one other : Nat × List MemoryRequest =>
      ∀ slot, Names one.2 slot → ¬Names other.2 slot :=
    ⟨fun _ _ apart slot named again => apart slot again named⟩
  exact apart.forall first second differ slot named

section

variable {registry : Registry} {entry : Nat × List MemoryRequest} {request : MemoryRequest}

theorem mem_push (ordered : registry.Ordered) (member : entry ∈ registry.push owner request) :
    entry.1 = owner ∧ (entry.2 = [request] ∨
        ∃ held, (owner, held) ∈ registry ∧ entry.2 = held ++ [request]) ∨
      entry.1 ≠ owner ∧ entry ∈ registry := by
  induction registry with
  | nil =>
      cases List.mem_singleton.mp member
      exact .inl ⟨rfl, .inl rfl⟩
  | cons first rest induction =>
      obtain ⟨key, held⟩ := first
      obtain ⟨least, ordered⟩ := List.pairwise_cons.mp ordered
      simp only [Registry.push] at member
      split at member
      · subst_vars
        rcases List.mem_cons.mp member with rfl | member
        · exact .inl ⟨rfl, .inr ⟨held, List.mem_cons_self, rfl⟩⟩
        · exact .inr ⟨Nat.ne_of_gt (least entry member), List.mem_cons_of_mem _ member⟩
      · split at member
        · rcases List.mem_cons.mp member with rfl | member
          · exact .inl ⟨rfl, .inl rfl⟩
          · refine .inr ⟨?_, member⟩
            rcases List.mem_cons.mp member with rfl | member
            · exact Ne.symm ‹_›
            · have later := least entry member
              dsimp only at later
              omega
        · rcases List.mem_cons.mp member with rfl | member
          · exact .inr ⟨Ne.symm ‹_›, List.mem_cons_self⟩
          · rcases induction ordered member with ⟨same, made⟩ | ⟨other, member⟩
            · refine .inl ⟨same, made.imp_right ?_⟩
              rintro ⟨earlier, inside, made⟩
              exact ⟨earlier, List.mem_cons_of_mem _ inside, made⟩
            · exact .inr ⟨other, List.mem_cons_of_mem _ member⟩

theorem ordered_push (ordered : registry.Ordered) (owner : Nat) (request : MemoryRequest) :
    (registry.push owner request).Ordered := by
  induction registry with
  | nil => exact List.pairwise_singleton _ _
  | cons first rest induction =>
      obtain ⟨key, held⟩ := first
      obtain ⟨least, after⟩ := List.pairwise_cons.mp ordered
      simp only [Registry.push]
      split
      · exact List.pairwise_cons.mpr ⟨least, after⟩
      · split
        · refine List.pairwise_cons.mpr ⟨?_, ordered⟩
          intro entry member
          rcases List.mem_cons.mp member with rfl | member
          · assumption
          · exact Nat.lt_trans ‹_› (least entry member)
        · refine List.pairwise_cons.mpr ⟨?_, induction after⟩
          intro entry member
          rcases mem_push after member with ⟨same, _⟩ | ⟨_, member⟩
          · dsimp only
            omega
          · exact least entry member

theorem names_append_singleton :
    Names (held ++ [request]) slot ↔ Names held slot ∨ slot ∈ request.slots := by
  constructor
  · rintro ⟨other, member, named⟩
    rcases List.mem_append.mp member with member | member
    · exact .inl ⟨other, member, named⟩
    · cases List.mem_singleton.mp member
      exact .inr named
  · rintro (⟨other, member, named⟩ | named)
    · exact ⟨other, List.mem_append_left _ member, named⟩
    · exact ⟨request, by simp, named⟩

theorem names_singleton : Names [request] slot ↔ slot ∈ request.slots := by
  simp [Names]

theorem registers_push (ordered : registry.Ordered)
    (registered : (registry.push owner request).Registers slot) :
    slot ∈ request.slots ∨ registry.Registers slot := by
  obtain ⟨entry, member, named⟩ := registered
  rcases mem_push ordered member with ⟨_, made | ⟨held, inside, made⟩⟩ | ⟨_, member⟩
  · rw [made, names_singleton] at named
    exact .inl named
  · rw [made, names_append_singleton] at named
    exact named.symm.imp_right fun named => ⟨_, inside, named⟩
  · exact .inr ⟨entry, member, named⟩

theorem rebase_of_not_registers (absent : ¬registry.Registers slot) (base : Nat) (slots : Nat → Nat) :
    registry.rebase base slots slot = slots slot := by
  induction registry generalizing slots with
  | nil => rfl
  | cons first rest induction =>
      have here : ¬Names first.2 slot := fun named => absent ⟨first, List.mem_cons_self, named⟩
      have others : ¬Registry.Registers rest slot := by
        rintro ⟨entry, member, named⟩
        exact absent ⟨entry, List.mem_cons_of_mem _ member, named⟩
      calc Registry.rebase base rest (Registry.rebaseOwner base first.2 slots) slot
          = Registry.rebaseOwner base first.2 slots slot := induction others _
        _ = slots slot := rebaseOwner_of_not_names here base slots

/-- Moving the pointers of one owner after the other puts all of them in place. -/
theorem placed_rebase (apart : registry.Apart) (fits : ∀ entry ∈ registry, Fits size entry.2)
    (bound : base + size < word) (slots : Nat → Nat) (member : entry ∈ registry) :
    Placed base (registry.rebase base slots) entry.2 := by
  induction registry generalizing slots with
  | nil => contradiction
  | cons first rest induction =>
      obtain ⟨alone, apart⟩ := List.pairwise_cons.mp apart
      rcases List.mem_cons.mp member with rfl | member
      · refine (placed_rebaseOwner (fits _ List.mem_cons_self) bound slots).congr ?_
        intro slot named
        change Registry.rebase base rest (Registry.rebaseOwner base entry.2 slots) slot = _
        refine rebase_of_not_registers ?_ base _
        rintro ⟨other, inside, shared⟩
        exact alone other inside slot named shared
      · exact induction apart (fun other inside => fits other (List.mem_cons_of_mem _ inside)) _ member

def Foreign (registry : Registry) (owner : Nat) (request : MemoryRequest) : Prop :=
  ∀ entry ∈ registry, entry.1 ≠ owner → ∀ slot ∈ request.slots, ¬Names entry.2 slot

theorem apart_push (ordered : registry.Ordered) (apart : registry.Apart)
    (foreign : Foreign registry owner request) : (registry.push owner request).Apart := by
  induction registry with
  | nil => exact List.pairwise_singleton _ _
  | cons first rest induction =>
      obtain ⟨key, held⟩ := first
      obtain ⟨least, after⟩ := List.pairwise_cons.mp ordered
      obtain ⟨alone, others⟩ := List.pairwise_cons.mp apart
      have further : Foreign rest owner request :=
        fun entry member => foreign entry (List.mem_cons_of_mem _ member)
      simp only [Registry.push]
      split
      · subst_vars
        refine List.pairwise_cons.mpr ⟨?_, others⟩
        intro entry member slot named
        rcases names_append_singleton.mp named with named | inside
        · exact alone entry member slot named
        · exact further entry member (Nat.ne_of_gt (least entry member)) slot inside
      · split
        · refine List.pairwise_cons.mpr ⟨?_, apart⟩
          intro entry member slot named
          refine foreign entry member ?_ slot (names_singleton.mp named)
          rcases List.mem_cons.mp member with rfl | member
          · exact Ne.symm ‹_›
          · have later := least entry member
            dsimp only at later
            omega
        · refine List.pairwise_cons.mpr ⟨?_, induction after others further⟩
          intro entry member slot named
          rcases mem_push after member with ⟨same, made | ⟨earlier, inside, made⟩⟩ | ⟨_, member⟩
          · rw [made, names_singleton]
            exact fun inside => foreign _ List.mem_cons_self (Ne.symm ‹_›) slot inside named
          · rw [made, names_append_singleton]
            rintro (shared | shared)
            · exact alone _ inside slot named shared
            · exact foreign _ List.mem_cons_self (Ne.symm ‹_›) slot shared named
          · exact alone entry member slot named

end

/-! ## The buffers -/

/-- The pointers of all owners lie in the current buffer. -/
structure Valid (mem : SharedMemBuffer) (slots : Nat → Nat) : Prop where
  ordered : mem.objectRequests.Ordered
  apart : mem.objectRequests.Apart
  fits : ∀ entry ∈ mem.objectRequests, Fits mem.size entry.2
  placed : ∀ entry ∈ mem.objectRequests, Placed mem.buffer slots entry.2
  bound : mem.buffer + mem.size < word

theorem Valid.congr {mem : SharedMemBuffer} {slots other : Nat → Nat} (valid : Valid mem slots)
    (same : ∀ slot, mem.objectRequests.Registers slot → other slot = slots slot) : Valid mem other :=
  { valid with
    placed := fun entry member =>
      (valid.placed entry member).congr fun slot named => same slot ⟨entry, member, named⟩ }

/-- A call is proper when its request has no pointer twice, does not wrap around
and names no pointer of another live owner. -/
def Proper (state : State) : Action → Prop
  | .alloc numa object requests _ =>
      requests.slots.Nodup ∧ requests.total < word ∧
        Foreign (state.numaMem numa).objectRequests object requests ∧
        ∀ other, other ≠ numa → ∀ slot ∈ requests.slots,
          ¬(state.numaMem other).objectRequests.Registers slot
  | .dealloc _ _ => True

/-- What an allocation does: it grows the buffer or not, then places the new
request. -/
theorem alloc_cases {mem after : SharedMemBuffer}
    (moved : mem.alloc slots object requests newbuf = some (after, moved')) :
    ∃ (grown : SharedMemBuffer) (rebased : Nat → Nat),
      grown.objectRequests = mem.objectRequests ∧
      (mem.size < requests.totalSize ∧ Granted grown.buffer requests.totalSize ∧
          grown.size = requests.totalSize ∧
          rebased = mem.objectRequests.rebase grown.buffer slots ∨
        requests.totalSize ≤ mem.size ∧ grown = mem ∧ rebased = slots) ∧
      after = { grown with objectRequests := grown.objectRequests.push object requests } ∧
      moved' = requests.updateBasePtr grown.buffer rebased := by
  obtain ⟨⟨grown, rebased⟩, got, made⟩ := Option.map_eq_some_iff.mp moved
  cases made
  split at got
  · cases newbuf with
    | none => contradiction
    | some address =>
        simp only [grow] at got
        split at got
        · cases got
          exact ⟨⟨address, _, mem.objectRequests⟩, _, rfl, .inl ⟨‹_›, ‹_›, rfl, rfl⟩, rfl, rfl⟩
        · contradiction
  · cases got
    exact ⟨mem, slots, rfl, .inr ⟨by omega, rfl, rfl⟩, rfl, rfl⟩

section

variable {mem : SharedMemBuffer} {slots : Nat → Nat} {requests : MemoryRequest}

theorem Valid.grow (valid : Valid mem slots) (larger : mem.size ≤ size)
    (bound : address + size < word) :
    Valid ⟨address, size, mem.objectRequests⟩ (mem.objectRequests.rebase address slots) := by
  have fits : ∀ entry ∈ mem.objectRequests, Fits size entry.2 := by
    intro entry member request inside
    obtain ⟨distinct, small⟩ := valid.fits entry member request inside
    exact ⟨distinct, Nat.le_trans small larger⟩
  exact
    { ordered := valid.ordered, apart := valid.apart, fits := fits, bound := bound
      placed := fun entry member => placed_rebase valid.apart fits bound slots member }

theorem Valid.push (valid : Valid mem slots) (distinct : requests.slots.Nodup)
    (small : requests.total ≤ mem.size) (foreign : Foreign mem.objectRequests object requests) :
    Valid { mem with objectRequests := mem.objectRequests.push object requests }
      (requests.updateBasePtr mem.buffer slots) := by
  have bound := valid.bound
  refine ⟨ordered_push valid.ordered _ _, apart_push valid.ordered valid.apart foreign, ?_, ?_, bound⟩
  · intro entry member
    rcases mem_push valid.ordered member with ⟨_, made | ⟨held, inside, made⟩⟩ | ⟨_, member⟩
    · rw [made]
      intro request inside
      cases List.mem_singleton.mp inside
      exact ⟨distinct, small⟩
    · rw [made]
      intro request member
      rcases List.mem_append.mp member with member | member
      · exact valid.fits _ inside request member
      · cases List.mem_singleton.mp member
        exact ⟨distinct, small⟩
    · exact valid.fits entry member
  · intro entry member
    rcases mem_push valid.ordered member with ⟨_, made | ⟨held, inside, made⟩⟩ | ⟨other, member⟩
    · rw [made]
      have nothing : Placed mem.buffer slots [] := trivial
      exact nothing.push distinct (by omega)
    · rw [made]
      exact (valid.placed _ inside).push distinct (by omega)
    · refine (valid.placed entry member).congr ?_
      intro slot named
      refine MemoryRequest.updateBasePtr_of_not_mem ?_ _ _
      exact fun inside => foreign entry member other slot inside named

theorem Valid.alloc (valid : Valid mem slots) (distinct : requests.slots.Nodup)
    (wraps : requests.total < word) (foreign : Foreign mem.objectRequests object requests)
    (moved : mem.alloc slots object requests newbuf = some (after, pointers)) :
    Valid after pointers := by
  have exact_total := MemoryRequest.totalSize_eq wraps
  obtain ⟨⟨address, size, registry⟩, rebased, same, made, rfl, rfl⟩ := alloc_cases moved
  dsimp only at same made ⊢
  rcases made with ⟨larger, granted, rfl, rfl⟩ | ⟨small, rfl, rfl⟩
  · subst same
    have kept := valid.grow (Nat.le_of_lt larger) granted.2.2
    exact kept.push distinct (Nat.le_of_eq exact_total.symm) foreign
  · exact valid.push distinct (by omega) foreign

/-- An allocation writes only pointers that are registered afterwards. -/
theorem alloc_frame (moved : mem.alloc slots object requests newbuf = some (after, pointers))
    (unnamed : slot ∉ requests.slots) (unregistered : ¬mem.objectRequests.Registers slot) :
    pointers slot = slots slot := by
  obtain ⟨grown, rebased, _, made, rfl, rfl⟩ := alloc_cases moved
  rw [MemoryRequest.updateBasePtr_of_not_mem unnamed]
  rcases made with ⟨_, _, _, rfl⟩ | ⟨_, _, rfl⟩
  · exact rebase_of_not_registers unregistered _ _
  · rfl

theorem registers_alloc (ordered : mem.objectRequests.Ordered)
    (moved : mem.alloc slots object requests newbuf = some (after, pointers))
    (registered : after.objectRequests.Registers slot) :
    slot ∈ requests.slots ∨ mem.objectRequests.Registers slot := by
  obtain ⟨grown, rebased, same, _, rfl, rfl⟩ := alloc_cases moved
  dsimp only at registered
  rw [same] at registered
  exact registers_push ordered registered

theorem Valid.dealloc (valid : Valid mem slots) (object : Nat) : Valid (mem.dealloc object) slots where
  ordered := valid.ordered.filter _
  apart := valid.apart.filter _
  fits entry member := valid.fits entry (List.mem_of_mem_filter member)
  placed entry member := valid.placed entry (List.mem_of_mem_filter member)
  bound := valid.bound

theorem registers_dealloc (registered : (mem.dealloc object).objectRequests.Registers slot) :
    mem.objectRequests.Registers slot := by
  obtain ⟨entry, member, named⟩ := registered
  exact ⟨entry, List.mem_of_mem_filter member, named⟩

end

/-! ## Runs -/

structure Inv (state : State) : Prop where
  valid : ∀ numa, Valid (state.numaMem numa) state.slots
  separate : ∀ one other, one ≠ other → ∀ slot, (state.numaMem one).objectRequests.Registers slot →
    ¬(state.numaMem other).objectRequests.Registers slot

theorem Inv.alloc {state : State} (inv : Inv state)
    (proper : Proper state (.alloc numa object requests newbuf))
    (moved : (state.numaMem numa).alloc state.slots object requests newbuf = some (mem, slots)) :
    Inv ⟨Function.update state.numaMem numa mem, slots⟩ := by
  obtain ⟨distinct, wraps, foreign, elsewhere⟩ := proper
  have ordered := (inv.valid numa).ordered
  have outside {slot : Nat} (other : Nat) (differ : other ≠ numa)
      (registered : (state.numaMem other).objectRequests.Registers slot) :
      slot ∉ requests.slots ∧ ¬(state.numaMem numa).objectRequests.Registers slot :=
    ⟨fun inside => elsewhere other differ slot inside registered,
      inv.separate other numa differ slot registered⟩
  refine ⟨?_, ?_⟩
  · intro other
    by_cases same : other = numa
    · subst same
      simp only [Function.update_self]
      exact (inv.valid other).alloc distinct wraps foreign moved
    · simp only [Function.update_of_ne same]
      refine (inv.valid other).congr ?_
      intro slot registered
      obtain ⟨unnamed, unregistered⟩ := outside other same registered
      exact alloc_frame moved unnamed unregistered
  · intro one other differ slot
    by_cases first : one = numa
    · subst first
      simp only [Function.update_self, Function.update_of_ne (Ne.symm differ)]
      intro registered again
      obtain ⟨unnamed, unregistered⟩ := outside other (Ne.symm differ) again
      exact (registers_alloc ordered moved registered).elim unnamed unregistered
    · by_cases second : other = numa
      · subst second
        simp only [Function.update_self, Function.update_of_ne first]
        intro registered again
        obtain ⟨unnamed, unregistered⟩ := outside one first registered
        exact (registers_alloc ordered moved again).elim unnamed unregistered
      · simp only [Function.update_of_ne first, Function.update_of_ne second]
        exact inv.separate one other differ slot

theorem Inv.dealloc {state : State} (inv : Inv state) (numa object : Nat) :
    Inv { state with
      numaMem := Function.update state.numaMem numa ((state.numaMem numa).dealloc object) } := by
  have kept (other slot : Nat)
      (registered : (Function.update state.numaMem numa ((state.numaMem numa).dealloc object)
        other).objectRequests.Registers slot) :
      (state.numaMem other).objectRequests.Registers slot := by
    by_cases same : other = numa
    · subst same
      rw [Function.update_self] at registered
      exact registers_dealloc registered
    · rw [Function.update_of_ne same] at registered
      exact registered
  refine ⟨?_, ?_⟩
  · intro other
    by_cases same : other = numa
    · subst same
      simp only [Function.update_self]
      exact (inv.valid other).dealloc object
    · simp only [Function.update_of_ne same]
      exact inv.valid other
  · intro one other differ slot registered again
    exact inv.separate one other differ slot (kept one slot registered) (kept other slot again)

theorem Inv.step {state after : State} (inv : Inv state) (proper : Proper state action)
    (moved : SharedMemory.step state action = some after) : Inv after := by
  cases action with
  | alloc numa object requests newbuf =>
      obtain ⟨⟨mem, slots⟩, allocated, rfl⟩ := Option.map_eq_some_iff.mp moved
      exact inv.alloc proper allocated
  | dealloc numa object =>
      cases moved
      exact inv.dealloc numa object

/-- The states at the end of runs of proper calls. -/
inductive Reachable : State → Prop
  | start : Reachable {}
  | step (reached : Reachable before) (proper : Proper before action)
      (moved : step before action = some after) : Reachable after

theorem reachable_inv (reached : Reachable state) : Inv state := by
  induction reached with
  | start =>
      refine ⟨fun _ => ?_, ?_⟩
      · exact ⟨.nil, .nil, by nofun, by nofun, show 0 < word by decide⟩
      · rintro _ _ _ _ ⟨_, member, _⟩
        contradiction
  | step _ proper moved inv => exact inv.step proper moved

/-- The call names the pointer. -/
def Action.Names (slot : Nat) : Action → Prop
  | .alloc _ _ requests _ => slot ∈ requests.slots
  | .dealloc _ _ => False

/-- No live owner names the pointer. -/
def State.Free (state : State) (slot : Nat) : Prop :=
  ∀ numa, ¬(state.numaMem numa).objectRequests.Registers slot

theorem State.Free.step {state after : State} (inv : Inv state) (free : state.Free slot)
    (unnamed : ¬action.Names slot) (moved : SharedMemory.step state action = some after) :
    after.slots slot = state.slots slot ∧ after.Free slot := by
  cases action with
  | alloc numa object requests newbuf =>
      obtain ⟨⟨mem, slots⟩, allocated, rfl⟩ := Option.map_eq_some_iff.mp moved
      refine ⟨alloc_frame allocated unnamed (free numa), ?_⟩
      intro other
      by_cases same : other = numa
      · subst same
        simp only [Function.update_self]
        intro registered
        exact (registers_alloc (inv.valid other).ordered allocated registered).elim unnamed (free other)
      · simp only [Function.update_of_ne same]
        exact free other
  | dealloc numa object =>
      cases moved
      refine ⟨rfl, ?_⟩
      intro other
      by_cases same : other = numa
      · subst same
        simp only [Function.update_self]
        exact fun registered => free other (registers_dealloc registered)
      · simp only [Function.update_of_ne same]
        exact free other

/-- Runs of proper calls that do not name a pointer. -/
inductive Avoids (slot : Nat) : State → State → Prop
  | refl : Avoids slot state state
  | step (ran : Avoids slot first before) (proper : Proper before action)
      (unnamed : ¬action.Names slot) (moved : step before action = some after) : Avoids slot first after

theorem State.Free.run {first last : State} (inv : Inv first) (free : first.Free slot)
    (ran : Avoids slot first last) :
    last.slots slot = first.slots slot ∧ last.Free slot ∧ Inv last := by
  induction ran with
  | refl => exact ⟨rfl, free, inv⟩
  | step _ proper unnamed moved induction =>
      obtain ⟨same, free, inv⟩ := induction
      obtain ⟨kept, free⟩ := free.step inv unnamed moved
      exact ⟨kept.trans same, free, inv.step proper moved⟩

/-- The pointers of an owner are free after its `dealloc`. -/
theorem free_of_dealloc {state : State} (inv : Inv state)
    (member : (object, held) ∈ (state.numaMem numa).objectRequests) (named : Names held slot)
    (moved : step state (.dealloc numa object) = some after) : after.Free slot := by
  cases moved
  have registered : (state.numaMem numa).objectRequests.Registers slot := ⟨_, member, named⟩
  intro other
  by_cases same : other = numa
  · subst same
    simp only [Function.update_self]
    rintro ⟨entry, inside, again⟩
    obtain ⟨kept, differ⟩ := List.mem_filter.mp inside
    have others : entry ≠ (object, held) := by
      rintro rfl
      simp at differ
    exact (inv.valid other).apart.names kept member others again named
  · simp only [Function.update_of_ne same]
    exact inv.separate numa other (Ne.symm same) slot registered

/-- After every run of proper calls: each pointer of the latest request of a live
owner is the current base plus the bytes before it, with its extent inside the
buffer and apart from the others of the request; no live request is larger than
the buffer; and a pointer of a deallocated owner keeps its value until a call
names it again. -/
theorem shared_pointers_valid (reached : Reachable state) :
    (∀ numa object held, (object, held) ∈ (state.numaMem numa).objectRequests →
      (∀ request ∈ held, request.total ≤ (state.numaMem numa).size) ∧
      ∀ request, held.getLast? = some request →
        (∀ index slot size, request.entries[index]? = some (slot, size) →
          state.slots slot = (state.numaMem numa).buffer + request.offset index ∧
          state.slots slot + size ≤ (state.numaMem numa).buffer + (state.numaMem numa).size) ∧
        ∀ (index later slot size next extent : Nat), index < later →
          request.entries[index]? = some (slot, size) → request.entries[later]? = some (next, extent) →
          state.slots slot + size ≤ state.slots next) ∧
    ∀ numa object held slot after last, (object, held) ∈ (state.numaMem numa).objectRequests →
      Names held slot → step state (.dealloc numa object) = some after → Avoids slot after last →
      last.slots slot = state.slots slot := by
  have inv := reachable_inv reached
  refine ⟨?_, ?_⟩
  · intro numa object held member
    have valid := inv.valid numa
    refine ⟨fun request inside => (valid.fits _ member request inside).2, ?_⟩
    intro request last
    have small : request.total ≤ (state.numaMem numa).size :=
      (valid.fits _ member request (List.mem_of_getLast? last)).2
    have placed (index slot size : Nat) (found : request.entries[index]? = some (slot, size)) :
        state.slots slot = (state.numaMem numa).buffer + request.offset index :=
      (valid.placed _ member).latest last found
    refine ⟨?_, ?_⟩
    · intro index slot size found
      have inside := request.offset_le_total found
      have address := placed index slot size found
      exact ⟨address, by omega⟩
    · intro index later slot size next extent order found foundNext
      have apart := MemoryRequest.offset_add_le order found
      rw [placed index slot size found, placed later next extent foundNext]
      omega
  · intro numa object held slot after last member named moved ran
    have free := free_of_dealloc inv member named moved
    have proper : Proper state (.dealloc numa object) := trivial
    obtain ⟨same, _⟩ := free.run (inv.step proper moved) ran
    rw [same]
    cases moved
    rfl

/-! An owner that registers its first pointer twice, as the llamafile experts
do, and another owner whose request moves the buffer. -/

def decodeRequest : MemoryRequest :=
  MemoryRequest.appendFunction {} 1 16

def prefillRequest : MemoryRequest :=
  decodeRequest.appendFunction 2 32

def otherRequest : MemoryRequest :=
  MemoryRequest.appendFunction {} 3 128

instance : Decidable (Names held slot) :=
  inferInstanceAs (Decidable (∃ request ∈ held, slot ∈ request.slots))

instance : Decidable (Foreign registry owner request) :=
  inferInstanceAs (Decidable (∀ entry ∈ registry, entry.1 ≠ owner → ∀ slot ∈ request.slots,
    ¬Names entry.2 slot))

/-- A process that uses the buffer of one node only. -/
def State.single (mem : SharedMemBuffer) (slots : Nat → Nat) : State :=
  ⟨Function.update (fun _ => {}) 0 mem, slots⟩

theorem Reachable.alloc (reached : Reachable (.single mem slots)) (object : Nat)
    (requests : MemoryRequest) (newbuf : Option Nat) (distinct : requests.slots.Nodup)
    (small : requests.total < word) (foreign : Foreign mem.objectRequests object requests)
    (moved : mem.alloc slots object requests newbuf = some (after, pointers)) :
    Reachable (.single after pointers) := by
  have here : (State.single mem slots).numaMem 0 = mem := by simp [State.single]
  refine reached.step (show Proper _ (.alloc 0 object requests newbuf) from ?_) ?_
  · refine ⟨distinct, small, by rw [here]; exact foreign, ?_⟩
    rintro other differ slot _ ⟨entry, member, _⟩
    simp [State.single, Function.update_of_ne differ] at member
  · simp only [SharedMemory.step, here]
    rw [show (State.single mem slots).slots = slots from rfl, moved]
    simp [State.single]

theorem shared_pointers_valid_moved :
    ∃ state, Reachable state ∧ (100, [decodeRequest, prefillRequest]) ∈ (state.numaMem 0).objectRequests ∧
      state.slots 2 = (state.numaMem 0).buffer + 16 ∧
      state.slots 2 + 32 ≤ (state.numaMem 0).buffer + (state.numaMem 0).size := by
  have fresh : Reachable (.single {} fun _ => 0) := by
    rw [State.single, Function.update_eq_self]
    exact .start
  have decode := fresh.alloc 100 decodeRequest (some 64) (by decide) (by decide) (by decide) rfl
  have prefill := decode.alloc 100 prefillRequest (some 128) (by decide) (by decide) (by decide) rfl
  have moved := prefill.alloc 200 otherRequest (some 4096) (by decide) (by decide) (by decide) rfl
  have valid := (shared_pointers_valid moved).1 0 100 [decodeRequest, prefillRequest] (by decide)
  exact ⟨_, moved, by decide, (valid.2 prefillRequest rfl).1 1 2 32 rfl⟩

/-- Two halves of the address space, whose sum wraps around to zero. -/
def wrappingRequest : MemoryRequest :=
  (MemoryRequest.appendFunction {} 1 (2 ^ 63)).appendFunction 2 (2 ^ 63)

/-- A pointer registered twice in one request. -/
def repeatedRequest : MemoryRequest :=
  (MemoryRequest.appendFunction {} 1 16).appendFunction 1 16

/-- The calls the conditions leave out: a request that wraps around reaches
beyond the buffer, and a pointer named twice, in one request or by two owners,
can be in one place only. -/
theorem improper_calls_misplace :
    (∃ state, machine.Reachable state ∧
      (100, [wrappingRequest]) ∈ (state.numaMem 0).objectRequests ∧
      wrappingRequest.entries[1]? = some (2, 2 ^ 63) ∧
      (state.numaMem 0).buffer + (state.numaMem 0).size < state.slots 2 + 2 ^ 63 ∧
      (state.numaMem 0).size < wrappingRequest.total) ∧
    (∃ state, machine.Reachable state ∧
      (100, [repeatedRequest]) ∈ (state.numaMem 0).objectRequests ∧
      repeatedRequest.entries[0]? = some (1, 16) ∧ state.slots 1 ≠ (state.numaMem 0).buffer) ∧
    ∃ state, machine.Reachable state ∧
      (100, [prefillRequest]) ∈ (state.numaMem 0).objectRequests ∧
      prefillRequest.entries[1]? = some (2, 32) ∧ state.slots 2 ≠ (state.numaMem 0).buffer + 16 := by
  refine ⟨?_, ?_, ?_⟩
  · obtain ⟨state, reached, found⟩ := machine.exists_reachable_of_run {}
      [.alloc 0 100 wrappingRequest none] rfl
      (fun state => decide ((100, [wrappingRequest]) ∈ (state.numaMem 0).objectRequests ∧
        wrappingRequest.entries[1]? = some (2, 2 ^ 63) ∧
        (state.numaMem 0).buffer + (state.numaMem 0).size < state.slots 2 + 2 ^ 63 ∧
        (state.numaMem 0).size < wrappingRequest.total)) (by decide)
    exact ⟨state, reached, of_decide_eq_true found⟩
  · obtain ⟨state, reached, found⟩ := machine.exists_reachable_of_run {}
      [.alloc 0 100 repeatedRequest (some 64)] rfl
      (fun state => decide ((100, [repeatedRequest]) ∈ (state.numaMem 0).objectRequests ∧
        repeatedRequest.entries[0]? = some (1, 16) ∧ state.slots 1 ≠ (state.numaMem 0).buffer)) (by decide)
    exact ⟨state, reached, of_decide_eq_true found⟩
  · obtain ⟨state, reached, found⟩ := machine.exists_reachable_of_run {}
      [.alloc 0 100 prefillRequest (some 64), .alloc 0 200 (MemoryRequest.appendFunction {} 2 8) none] rfl
      (fun state => decide ((100, [prefillRequest]) ∈ (state.numaMem 0).objectRequests ∧
        prefillRequest.entries[1]? = some (2, 32) ∧
        state.slots 2 ≠ (state.numaMem 0).buffer + 16)) (by decide)
    exact ⟨state, reached, of_decide_eq_true found⟩

end KtKernel.SharedMemory
