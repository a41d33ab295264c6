import KtKernel.Amx.DecodePrefill
import KtKernel.Data.Carving
import KtKernel.Sft.Forward

namespace KtKernel.Sft.Forward

open KtKernel.Data KtKernel.Amx

theorem Pointer.holds_cell {row rows : Nat} (pointer : Pointer) (column : Nat) (inside : row < rows) :
    pointer.Holds rows (pointer.cell row column) :=
  ⟨rfl, Nat.le_add_right _ _, Nat.add_lt_add_left inside _⟩

section

variable {κ V : Type} (job : RowJob κ V) (schedule : Schedule) (number : Nat) (cells : Cell → V)

theorem RowJob.run_written (task row column : Nat) (taskInside : task < job.count) (inside : row < job.rows (job.key task))
    (takes : job.takes task column = true)
    (alone : ∀ other < job.count, (job.destination (job.key other)).Holds (job.rows (job.key other))
      ((job.destination (job.key task)).cell row column) → job.takes other column = true → other = task) :
    job.run schedule number cells ((job.destination (job.key task)).cell row column) =
      job.value (job.key task) row column (cells ((job.destination (job.key task)).cell row column)) := by
  rw [RowJob.run, Store.runAll_owned (schedule.order_nodup _ _) (schedule.mem_order taskInside _)]
  · apply Store.run_written
    have writes : (job.destination (job.key task)).Holds (job.rows (job.key task))
        ((job.destination (job.key task)).cell row column) ∧
          job.takes task ((job.destination (job.key task)).cell row column).column = true :=
      ⟨Pointer.holds_cell _ _ inside, takes⟩
    rw [RowJob.store, if_pos writes]
    simp only [Pointer.cell, Nat.add_sub_cancel_left]
  · intro other member different old
    apply if_neg
    intro writes
    exact different (alone other (Schedule.lt_of_mem_order member) writes.1 writes.2)

/-- A job leaves the arrays alone that none of its pointers names. -/
theorem RowJob.run_kept (elsewhere : ∀ task < job.count, cell.region ≠ (job.destination (job.key task)).region) :
    job.run schedule number cells cell = cells cell := by
  apply Store.runAll_skipped
  intro store member
  obtain ⟨task, inOrder, rfl⟩ := List.mem_map.mp member
  intro old
  apply if_neg
  intro writes
  exact elsewhere task (Schedule.lt_of_mem_order inOrder) writes.1.1

end

/-! ## Jobs over the shares of the experts -/

section

variable {config : Instance} {tables : Tables}

theorem shareTask_unique (distinct : tables.expertIdMap.Nodup) (leftInside : left < nth * tables.expertIdMap.length)
    (rightInside : right < nth * tables.expertIdMap.length)
    (sameExpert : taskExpert tables nth left = taskExpert tables nth right) (sameShare : left % nth = right % nth) :
    left = right := by
  have leftPlace : left / nth < tables.expertIdMap.length := Nat.div_lt_of_lt_mul leftInside
  have rightPlace : right / nth < tables.expertIdMap.length := Nat.div_lt_of_lt_mul rightInside
  rw [taskExpert, taskExpert, List.getD_eq_getElem _ _ leftPlace, List.getD_eq_getElem _ _ rightPlace] at sameExpert
  have samePlace := (List.Nodup.getElem_inj_iff distinct).mp sameExpert
  calc left = nth * (left / nth) + left % nth := (Nat.div_add_mod _ _).symm
    _ = nth * (right / nth) + right % nth := by rw [samePlace, sameShare]
    _ = right := Nat.div_add_mod _ _

theorem exists_shareTask (config : Instance) (member : expert ∈ tables.expertIdMap) (within : column < n) :
    ∃ task < recommendedNth config n * tables.expertIdMap.length,
      taskExpert tables (recommendedNth config n) task = expert ∧
        inSplitRange config n (task % recommendedNth config n) column = true := by
  obtain ⟨index, place, found⟩ := List.getElem_of_mem member
  have share := share_lt config within
  refine ⟨index * recommendedNth config n + column / config.nBlock, pairIndex_lt place share, ?_, ?_⟩
  · exact taskExpert_at (List.getElem?_eq_some_iff.mpr ⟨place, found⟩) share
  · rw [pairIndex_mod index share]
    exact (inSplitRange_iff within).mpr rfl

theorem share_unique (within : column < n) (first : inSplitRange config n left column = true)
    (second : inSplitRange config n right column = true) : left = right :=
  ((inSplitRange_iff within).mp first).trans ((inSplitRange_iff within).mp second).symm

/-- The rows of different activated experts do not meet. -/
def Spread (tables : Tables) (pointers : Nat → Pointer) : Prop :=
  ∀ expert ∈ tables.expertIdMap, ∀ other ∈ tables.expertIdMap, ∀ cell,
    (pointers expert).Holds (tables.localNum expert) cell → (pointers other).Holds (tables.localNum other) cell →
      expert = other

end

section

variable {config : Config} {V Q O : Type} {kernels : Kernels V Q O} {schedule : Schedule}
  {state : State V Q O}

/-- The outputs of gate and up are in different arrays, and those of each expert
in rows of their own. -/
structure Bound (state : State V Q O) : Prop where
  distinct : state.tables.expertIdMap.Nodup
  gateUp : ∀ doUp, Spread state.tables (state.gateUpPtr doUp)
  down : Spread state.tables state.downPtr
  regions : ∀ expert ∈ state.tables.expertIdMap, ∀ other ∈ state.tables.expertIdMap,
    (state.gateUpPtr false expert).region ≠ (state.gateUpPtr true other).region

theorem gateUp_cell (bound : Bound state) (member : expert ∈ state.tables.expertIdMap)
    (inside : row < state.tables.localNum expert) (within : column < config.intermediateSize) (doUp : Bool) :
    (gateUp config kernels schedule state).cells ((state.gateUpPtr doUp expert).cell row column) =
      kernels.gateUpGemm doUp expert (state.gateUpBa expert row) column := by
  obtain ⟨task, taskInside, named, takes⟩ := exists_shareTask config.toInstance member within
  obtain ⟨bit, small, kind⟩ : ∃ bit < 2, decide (bit = 1) = doUp := by
    cases doUp with
    | false => exact ⟨0, by decide, rfl⟩
    | true => exact ⟨1, by decide, rfl⟩
  have half : (task * 2 + bit) / 2 = task := by omega
  have parity : (task * 2 + bit) % 2 = bit := by omega
  have key : (gateUpJob config kernels state).key (task * 2 + bit) = (doUp, expert) := by
    simp only [gateUpJob, parity, half, named, kind]
  have inJob : task * 2 + bit < (gateUpJob config kernels state).count := by
    simp only [gateUpJob]
    omega
  have written := RowJob.run_written (gateUpJob config kernels state) schedule 1 state.cells _ row column inJob
  rw [key] at written
  apply written
  · exact inside
  · simp only [gateUpJob, half]
    exact takes
  · intro other otherInside holds otherTakes
    simp only [gateUpJob] at otherInside holds otherTakes
    have otherMember : taskExpert state.tables (recommendedNth config.toInstance config.intermediateSize) (other / 2) ∈
        state.tables.expertIdMap := taskExpert_mem (by omega)
    have self := Pointer.holds_cell (state.gateUpPtr doUp expert) column inside
    have sameKind : decide (other % 2 = 1) = doUp := by
      have region := holds.1
      cases otherKind : decide (other % 2 = 1) with
      | false =>
          cases doUp with
          | false => rfl
          | true =>
              rw [otherKind] at region
              exact absurd region.symm (bound.regions _ otherMember _ member)
      | true =>
          cases doUp with
          | false =>
              rw [otherKind] at region
              exact absurd region (bound.regions _ member _ otherMember)
          | true => rfl
    rw [sameKind] at holds
    have sameExpert := bound.gateUp doUp _ otherMember _ member _ holds self
    have sameShare := share_unique within otherTakes takes
    have sameTask := shareTask_unique bound.distinct (by omega) taskInside (sameExpert.trans named.symm) sameShare
    have sameBit : other % 2 = 1 ↔ bit = 1 := by
      rw [← kind] at sameKind
      exact decide_eq_decide.mp sameKind
    omega

/-- A job over the shares of the activated experts. -/
theorem expertJob_cell (job : RowJob Nat V) (schedule : Schedule) {tables : Tables} (count : job.count = recommendedNth config.toInstance n *
      tables.expertIdMap.length) (key : job.key = taskExpert tables (recommendedNth config.toInstance n))
    (rows : job.rows = tables.localNum)
    (takes : job.takes = fun task column =>
      inSplitRange config.toInstance n (task % recommendedNth config.toInstance n) column)
    (distinct : tables.expertIdMap.Nodup) (spread : Spread tables job.destination)
    (member : expert ∈ tables.expertIdMap) (inside : row < tables.localNum expert) (within : column < n)
    (number : Nat) (cells : Cell → V) :
    job.run schedule number cells ((job.destination expert).cell row column) =
      job.value expert row column (cells ((job.destination expert).cell row column)) := by
  obtain ⟨task, taskInside, named, share⟩ := exists_shareTask config.toInstance member within
  have keyed : job.key task = expert := by rw [key, named]
  have written := RowJob.run_written job schedule number cells task row column (by rw [count]; exact taskInside)
  rw [keyed, rows, takes] at written
  apply written inside share
  intro other otherInside holds otherShare
  rw [count] at otherInside
  rw [key] at holds
  have otherMember := taskExpert_mem otherInside
  have self := Pointer.holds_cell (job.destination expert) column inside
  have sameExpert := spread _ otherMember _ member _ holds self
  exact shareTask_unique distinct otherInside taskInside (sameExpert.trans named.symm)
    (share_unique within otherShare share)

theorem cacheOffset_eq (tables : Tables) (index : Nat) :
    cacheOffset tables index = pieceStart (tables.expertIdMap.map tables.localNum) index := by
  rw [cacheOffset, pieceStart, List.map_take]

theorem cacheOffset_succ {tables : Tables} (place : index < tables.expertIdMap.length) :
    cacheOffset tables (index + 1) =
      cacheOffset tables index + tables.localNum (tables.expertIdMap.getD index 0) := by
  have mapped : index < (tables.expertIdMap.map tables.localNum).length := by
    rw [List.length_map]
    exact place
  rw [cacheOffset_eq, cacheOffset_eq, pieceStart_succ, List.getD_eq_getElem _ _ mapped, List.getElem_map,
    List.getD_eq_getElem _ _ place]

/-- The places of the activated experts in a tensor of an entry do not meet. -/
theorem cachePlace_unique {tables : Tables} (leftPlace : left < tables.expertIdMap.length)
    (rightPlace : right < tables.expertIdMap.length)
    (inLeft : (Pointer.mk region (cacheOffset tables left)).Holds
      (tables.localNum (tables.expertIdMap.getD left 0)) cell)
    (inRight : (Pointer.mk other (cacheOffset tables right)).Holds
      (tables.localNum (tables.expertIdMap.getD right 0)) cell) : left = right := by
  have leftEnd := cacheOffset_succ leftPlace
  have rightEnd := cacheOffset_succ rightPlace
  have leftRows := inLeft.2
  have rightRows := inRight.2
  dsimp only at leftRows rightRows
  rw [← leftEnd] at leftRows
  rw [← rightEnd] at rightRows
  simp only [cacheOffset_eq] at leftRows rightRows
  exact piece_unique leftRows rightRows

variable (state) in
theorem copyJob_cell (place : index < state.tables.expertIdMap.length)
    (inside : row < state.tables.localNum (state.tables.expertIdMap.getD index 0)) (within : column < width)
    (slot : Nat) (tensor : Tensor) (source : Nat → Pointer) (number : Nat) :
    (copyJob slot width tensor source state).run schedule number state.cells
        ((Pointer.mk (.cache slot tensor) (cacheOffset state.tables index)).cell row column) =
      state.cells ((source (state.tables.expertIdMap.getD index 0)).cell row column) := by
  apply RowJob.run_written (copyJob slot width tensor source state) schedule number state.cells index row column
    place inside
  · exact decide_eq_true within
  · intro other otherPlace holds _
    exact cachePlace_unique otherPlace place holds (Pointer.holds_cell _ _ inside)

end

end KtKernel.Sft.Forward
