import Mathlib.Data.List.Basic

namespace KtKernel.Data

/-! Programs that may fail.

A program changes a state and ends with a value or with an error; the state that it
has reached is kept in both cases. -/

variable {ε σ α β : Type}

/-- From a state of `pre` the program ends in `post` or fails in `fault`. -/
def Meets (pre : σ → Prop) (program : EStateM ε σ α) (post : α → σ → Prop) (fault : ε → σ → Prop) : Prop :=
  ∀ state, pre state → match program state with
    | .ok value after => post value after
    | .error error after => fault error after

namespace Meets

variable {pre : σ → Prop} {post : α → σ → Prop} {fault : ε → σ → Prop} {program : EStateM ε σ α}

theorem strengthen {weaker : σ → Prop} (meets : Meets weaker program post fault) (stronger : ∀ state, pre state → weaker state) :
    Meets pre program post fault := fun state holds => meets state (stronger state holds)

theorem weaken {post' : α → σ → Prop} {fault' : ε → σ → Prop} (meets : Meets pre program post fault)
    (value : ∀ value state, post value state → post' value state)
    (error : ∀ error state, fault error state → fault' error state) : Meets pre program post' fault' := by
  intro state holds
  have done := meets state holds
  split
  · rename_i result after same
    rw [same] at done
    exact value _ _ done
  · rename_i result after same
    rw [same] at done
    exact error _ _ done

theorem pure {value : α} : Meets (post value) (pure value : EStateM ε σ α) post fault := fun _ holds => holds

theorem throw {error : ε} : Meets (fault error) (throw error : EStateM ε σ α) post fault := fun _ holds => holds

theorem modify {change : σ → σ} {post : Unit → σ → Prop} :
    Meets (fun state => post () (change state)) (modify change : EStateM ε σ Unit) post fault := fun _ holds => holds

theorem get {fault : ε → σ → Prop} :
    Meets pre (get : EStateM ε σ σ) (fun value state => value = state ∧ pre state) fault := fun _ holds => ⟨rfl, holds⟩

/-- What the state before says beside its own condition may be assumed. -/
theorem assume {fact : Prop} (meets : fact → Meets pre program post fault) :
    Meets (fun state => pre state ∧ fact) program post fault := fun state holds => meets holds.2 state holds.1

theorem bind {next : α → EStateM ε σ β} {middle : α → σ → Prop} {post : β → σ → Prop}
    (first : Meets pre program middle fault) (rest : ∀ value, Meets (middle value) (next value) post fault) :
    Meets pre (program >>= next) post fault := by
  intro state holds
  have done := first state holds
  change match EStateM.bind program next state with
    | .ok value after => post value after
    | .error error after => fault error after
  rw [EStateM.bind]
  cases ran : program state with
  | ok value after =>
      rw [ran] at done
      exact rest value after done
  | error error after =>
      rw [ran] at done
      exact done

/-- A loop keeps what each round keeps. -/
theorem foldlM {body : β → α → EStateM ε σ β} (invariant : List α → β → σ → Prop) (items : List α) (start : β)
    (round : ∀ done item rest value, items = done ++ item :: rest →
      Meets (invariant done value) (body value item) (invariant (done ++ [item])) fault) :
    Meets (invariant [] start) (items.foldlM body start) (invariant items) fault := by
  have from_ : ∀ rest done value, items = done ++ rest →
      Meets (invariant done value) (rest.foldlM body value) (invariant items) fault := by
    intro rest
    induction rest with
    | nil =>
        intro done value whole
        rw [whole, List.append_nil, List.foldlM_nil]
        exact pure
    | cons item rest later =>
        intro done value whole
        rw [List.foldlM_cons]
        refine bind (round done item rest value whole) fun next => later (done ++ [item]) next ?_
        rw [whole, List.append_assoc]
        rfl
  exact from_ items [] start rfl

theorem forM {body : α → EStateM ε σ PUnit} (invariant : List α → σ → Prop) (items : List α)
    (round : ∀ done item rest, items = done ++ item :: rest →
      Meets (invariant done) (body item) (fun _ => invariant (done ++ [item])) fault) :
    Meets (invariant []) (items.forM body) (fun _ => invariant items) fault := by
  have from_ : ∀ rest done, items = done ++ rest →
      Meets (invariant done) (rest.forM body) (fun _ => invariant items) fault := by
    intro rest
    induction rest with
    | nil =>
        intro done whole
        rw [whole, List.append_nil]
        exact fun _ holds => holds
    | cons item rest later =>
        intro done whole
        change Meets _ (body item >>= fun _ => rest.forM body) _ _
        refine bind (round done item rest whole) fun _ => later (done ++ [item]) ?_
        rw [whole, List.append_assoc]
        rfl
  exact from_ items [] rfl

/-- A loop seen by what is still to do. -/
theorem forM_remaining {body : α → EStateM ε σ PUnit} (invariant : List α → σ → Prop)
    (round : ∀ item rest, Meets (invariant (item :: rest)) (body item) (fun _ => invariant rest) fault) :
    ∀ items : List α, Meets (invariant items) (items.forM body) (fun _ => invariant []) fault
  | [] => fun _ holds => holds
  | item :: rest => bind (round item rest) fun _ => forM_remaining invariant round rest

end Meets

end KtKernel.Data
