import Mathlib.Data.List.Nodup

namespace KtKernel.Data

/-! Checks that raise.

A run of checks succeeds exactly when each of them does. -/

variable {ε α β σ : Type}

def require (holds : Bool) (error : ε) : Except ε Unit :=
  if holds then .ok () else .error error

def expectSome (value : Option α) (error : ε) : Except ε α :=
  match value with
  | some value => .ok value
  | none => .error error

theorem bind_ok {checked : Except ε α} {next : α → Except ε β} :
    (checked >>= next) = .ok result ↔ ∃ value, checked = .ok value ∧ next value = .ok result := by
  cases checked with
  | error error =>
      constructor
      · intro impossible
        cases impossible
      · rintro ⟨value, impossible, -⟩
        cases impossible
  | ok value =>
      constructor
      · intro done
        exact ⟨value, rfl, done⟩
      · rintro ⟨other, same, done⟩
        rw [Except.ok.inj same]
        exact done

theorem require_ok {error : ε} : require holds error = .ok value ↔ holds = true := by
  cases holds with
  | true => exact ⟨fun _ => rfl, fun _ => rfl⟩
  | false =>
      constructor
      · intro impossible
        cases impossible
      · intro impossible
        cases impossible

theorem require_bind_ok {error : ε} {next : Unit → Except ε β} :
    (require holds error >>= next) = .ok result ↔ holds = true ∧ next () = .ok result := by
  rw [bind_ok]
  constructor
  · rintro ⟨value, passed, done⟩
    exact ⟨require_ok.mp passed, done⟩
  · rintro ⟨passed, done⟩
    exact ⟨(), require_ok.mpr passed, done⟩

theorem expectSome_ok {value : Option α} {error : ε} : expectSome value error = .ok found ↔ value = some found := by
  cases value with
  | none =>
      constructor
      · intro impossible
        cases impossible
      · intro impossible
        cases impossible
  | some value =>
      constructor
      · intro same
        rw [Except.ok.inj same]
      · intro same
        rw [Option.some.inj same]
        rfl

theorem expectSome_bind_ok {value : Option α} {error : ε} {next : α → Except ε β} :
    (expectSome value error >>= next) = .ok result ↔ ∃ found, value = some found ∧ next found = .ok result := by
  rw [bind_ok]
  simp only [expectSome_ok]

theorem pure_ok {value result : β} : (pure value : Except ε β) = .ok result ↔ value = result := by
  constructor
  · exact Except.ok.inj
  · rintro rfl
    rfl

/-- A map whose function may raise gives the results of the items in order. -/
theorem mapM_ok {check : α → Except ε β} {items : List α} {results : List β} :
    items.mapM check = .ok results ↔ List.Forall₂ (fun item result => check item = .ok result) items results := by
  induction items generalizing results with
  | nil =>
      rw [List.mapM_nil, pure_ok, List.forall₂_nil_left_iff]
      exact eq_comm
  | cons item items rest =>
      rw [List.mapM_cons, bind_ok]
      constructor
      · rintro ⟨value, first, others⟩
        rw [bind_ok] at others
        obtain ⟨values, done, same⟩ := others
        rw [pure_ok] at same
        rw [← same]
        exact .cons first (rest.mp done)
      · intro each
        cases each with
        | cons first others =>
            refine ⟨_, first, ?_⟩
            rw [bind_ok]
            exact ⟨_, rest.mpr others, rfl⟩

theorem mapM_values {check : α → Except ε β} {value : α → β} {items : List α}
    (each : ∀ item ∈ items, check item = .ok (value item)) : items.mapM check = .ok (items.map value) := by
  rw [mapM_ok, List.forall₂_map_right_iff, List.forall₂_same]
  exact each

/-! Items and results that correspond. -/

theorem result_of_mem {R : α → β → Prop} {items : List α} {results : List β} (each : List.Forall₂ R items results)
    (member : item ∈ items) : ∃ result ∈ results, R item result := by
  induction each with
  | nil => cases member
  | cons first others rest =>
      rcases List.mem_cons.mp member with rfl | later
      · exact ⟨_, List.mem_cons_self, first⟩
      · obtain ⟨result, isResult, related⟩ := rest later
        exact ⟨result, List.mem_cons_of_mem _ isResult, related⟩

theorem item_of_mem {R : α → β → Prop} {items : List α} {results : List β} (each : List.Forall₂ R items results)
    (member : result ∈ results) : ∃ item ∈ items, R item result :=
  result_of_mem each.flip member

theorem exists_results {R : α → β → Prop} {S : α → σ → Prop} {value : σ → β} {items : List α} {values : List β}
    (each : List.Forall₂ R items values)
    (build : ∀ item, ∀ expected ∈ values, R item expected → ∃ result, S item result ∧ value result = expected) :
    ∃ results, List.Forall₂ S items results ∧ results.map value = values := by
  induction each with
  | nil => exact ⟨[], .nil, rfl⟩
  | cons first others rest =>
      obtain ⟨result, done, rfl⟩ := build _ _ List.mem_cons_self first
      obtain ⟨results, all, rfl⟩ := rest fun item expected member =>
        build item expected (List.mem_cons_of_mem _ member)
      exact ⟨result :: results, .cons done all, rfl⟩

theorem mapM_results {check : α → Except ε β} {kind : α → β → Prop} {items : List α}
    (each : ∀ item ∈ items, ∃ result, check item = .ok result ∧ kind item result) :
    ∃ results, items.mapM check = .ok results ∧ List.Forall₂ kind items results := by
  simp only [mapM_ok]
  induction items with
  | nil => exact ⟨[], .nil, .nil⟩
  | cons item items rest =>
      obtain ⟨result, done, isKind⟩ := each item List.mem_cons_self
      obtain ⟨results, all, areKind⟩ := rest fun other member => each other (List.mem_cons_of_mem _ member)
      exact ⟨result :: results, .cons done all, .cons isKind areKind⟩

theorem mapM_exists {check : α → Except ε β} {items : List α} (each : ∀ item ∈ items, ∃ result, check item = .ok result) :
    ∃ results, items.mapM check = .ok results := by
  have results : ∃ results, items.mapM check = .ok results ∧ List.Forall₂ (fun _ _ => True) items results := by
    apply mapM_results
    intro item member
    obtain ⟨result, done⟩ := each item member
    exact ⟨result, done, trivial⟩
  obtain ⟨values, done, -⟩ := results
  exact ⟨values, done⟩

end KtKernel.Data
