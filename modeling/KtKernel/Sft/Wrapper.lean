import Mathlib.Data.Rat.Init
import KtKernel.Data.Machine

namespace KtKernel.Sft

open KtKernel.Data

/-! The optimizer gradients of the fine-tuning wrapper.

The native backward writes the registered gradient tensors.  `Parameter.grad`
either is the registered tensor, while an optimizer window is open, or `None`.
Tensors and parameters are named by numbers, so that identity is equality.
-/

/-- What `_authoritative_grad_metadata` reads of a tensor. -/
structure Metadata where
  dtype : String
  layout : String
  deviceType : String
  deviceIndex : Int
  shape : List Nat
  stride : List Nat
  storageOffset : Nat
  dataPtr : Nat
deriving DecidableEq, Repr

structure AuthoritativeOptimizerGrad where
  name : String
  parameter : Nat
  gradView : Nat
  metadata : Metadata
deriving DecidableEq, Repr

/-- The kind and the text of an exception.  The last kind is raised outside the
wrapper. -/
inductive Raised where
  | valueError (text : String)
  | runtimeError (text : String)
  | outside
deriving DecidableEq, Repr

structure Wrapper where
  usesAuthoritative : Bool
  entries : List AuthoritativeOptimizerGrad := []
  submissionPending : Bool := false
  pendingAccumulate : Bool := false
  cacheDepth : Nat := 0
  asyncQlen : Option Nat := none
  asyncUsesAuthoritative : Bool := false

/-- A task handed to the native code, with the gradients at that time. -/
structure Submission where
  accumulate : Bool
  live : Bool
  window : Bool
deriving DecidableEq, Repr

/-- What happened so far.  No call reads it. -/
structure History where
  outstanding : Bool := false
  window : Bool := false
  submissions : List Submission := []

structure State where
  wrapper : Wrapper
  metadata : Nat → Metadata
  grad : Nat → Option Nat
  history : History := {}

/-- A float: none when it is not finite. -/
structure Scale where
  value : Option Rat
  text : String

def Scale.invalid (scale : Scale) : Bool :=
  match scale.value with
  | none => true
  | some value => decide (value ≤ 0)

/-- Where a call fails for reasons outside the wrapper.  `publish` fails before
the given assignment. -/
inductive Fault where
  | none
  | buffer
  | construct
  | repack
  | submit
  | sync
  | copy
  | publish (count : Nat)
deriving DecidableEq, Repr

/-- A Python tuple. -/
def tupleText (items : List Nat) : String :=
  match items with
  | [item] => "(" ++ toString item ++ ",)"
  | items => "(" ++ ", ".intercalate (items.map toString) ++ ")"

def deviceText (metadata : Metadata) : String :=
  if metadata.deviceIndex < 0 then metadata.deviceType
  else metadata.deviceType ++ ":" ++ toString metadata.deviceIndex

/-- `parameter.device == grad_view.device`. -/
def Metadata.sameDevice (one other : Metadata) : Bool :=
  decide (one.deviceType = other.deviceType ∧ one.deviceIndex = other.deviceIndex)

def registerAuthoritativeOptimizerGrad (name : String) (parameter gradView : Nat) (state : State) :
    Option Raised × State :=
  let target := state.metadata parameter
  let view := state.metadata gradView
  if state.wrapper.usesAuthoritative = false then (none, state)
  else if target.shape ≠ view.shape then
    (some (.valueError (name ++ ": Parameter/grad shape mismatch: " ++ tupleText target.shape ++ " != " ++
      tupleText view.shape)), state)
  else if target.dtype ≠ view.dtype ∨ target.sameDevice view = false then
    (some (.valueError (name ++ ": Parameter/grad dtype or device mismatch: " ++ target.dtype ++ "/" ++
      deviceText target ++ " != " ++ view.dtype ++ "/" ++ deviceText view)), state)
  else
    match state.wrapper.entries.find? fun entry =>
      entry.parameter = parameter ∨ entry.gradView = gradView with
    | some entry =>
        (some (.runtimeError (if entry.parameter = parameter then
            name ++ ": Parameter is already registered as " ++ entry.name
          else name ++ ": grad view is already registered as " ++ entry.name)), state)
    | none =>
        (none, { state with
          grad := Function.update state.grad parameter none
          wrapper.entries := state.wrapper.entries ++ [⟨name, parameter, gradView, view⟩] })

/-- The first entry whose tensors have changed, and how. -/
def changedMetadata (state : State) (entry : AuthoritativeOptimizerGrad) : Option Raised :=
  let target := state.metadata entry.parameter
  let view := state.metadata entry.gradView
  if view ≠ entry.metadata then
    some (.runtimeError (entry.name ++ ": authoritative grad view metadata changed; " ++
      "replacing or resizing a C++ gradient buffer is unsupported"))
  else if target.shape ≠ view.shape ∨ target.dtype ≠ view.dtype then
    some (.runtimeError (entry.name ++
      ": Parameter metadata no longer matches its authoritative grad view"))
  else if target.sameDevice view = false then
    some (.runtimeError (entry.name ++
      ": Parameter device no longer matches its authoritative grad view"))
  else none

def validateAuthoritativeGradMetadata (state : State) : Option Raised :=
  state.wrapper.entries.findSome? (changedMetadata state)

inductive Phase where
  | empty
  | closed
  | opened
deriving DecidableEq, Repr

def Phase.text : Phase → String
  | .empty => "empty"
  | .closed => "closed"
  | .opened => "open"

/-- The loop that counts the gradients. -/
def countGrads (state : State) :
    List AuthoritativeOptimizerGrad → Nat → Nat → Except Raised (Nat × Nat)
  | [], noneCount, aliasCount => .ok (noneCount, aliasCount)
  | entry :: rest, noneCount, aliasCount =>
      match state.grad entry.parameter with
      | none => countGrads state rest (noneCount + 1) aliasCount
      | some grad =>
          if grad = entry.gradView then countGrads state rest noneCount (aliasCount + 1)
          else .error (.runtimeError (entry.name ++ ": Parameter.grad was externally replaced; " ++
            "expected None or the registered authoritative grad view"))

def validateAuthoritativeOptimizerGradState (state : State) : Except Raised Phase :=
  if state.wrapper.usesAuthoritative = false ∨ state.wrapper.entries = [] then .ok .empty
  else
    match validateAuthoritativeGradMetadata state with
    | some raised => .error raised
    | none =>
        match countGrads state state.wrapper.entries 0 0 with
        | .error raised => .error raised
        | .ok (noneCount, aliasCount) =>
            if noneCount = state.wrapper.entries.length then .ok .closed
            else if aliasCount = state.wrapper.entries.length then .ok .opened
            else .error (.runtimeError ("Mixed authoritative optimizer-gradient state: some KT " ++
              "Parameter.grad values are None while others still alias their C++ buffers"))

def alreadyPending : Raised :=
  .runtimeError "An authoritative optimizer-gradient backward submission is already pending"

def Scale.rejected (scale : Scale) : Raised :=
  .valueError ("optimizer_grad_scale must be finite and positive, got " ++ scale.text)

def prepareAuthoritativeOptimizerGradWrite (scale : Scale) (state : State) :
    Except Raised Bool × State :=
  if state.wrapper.submissionPending then (.error alreadyPending, state)
  else if scale.invalid then (.error scale.rejected, state)
  else
    match validateAuthoritativeOptimizerGradState state with
    | .error raised => (.error raised, state)
    | .ok phase =>
        let accumulate := decide (phase = .opened)
        (.ok accumulate, { state with
          wrapper.submissionPending := true
          wrapper.pendingAccumulate := accumulate })

/-- All registered gradients set to `None`. -/
def State.closeGrads (state : State) : State :=
  { state with
    grad := fun parameter =>
      if ∃ entry ∈ state.wrapper.entries, entry.parameter = parameter then none
      else state.grad parameter }

def abortAuthoritativeOptimizerGradWrite (state : State) : State :=
  { state.closeGrads with
    wrapper.submissionPending := false
    wrapper.pendingAccumulate := false
    history.window := false }

/-- The loop of `_publish_authoritative_optimizer_grads`, up to a failure. -/
def assignGrads (entries : List AuthoritativeOptimizerGrad) (grad : Nat → Option Nat) : Nat → Option Nat :=
  entries.foldl (fun grad entry => Function.update grad entry.parameter (some entry.gradView)) grad

def publishAuthoritativeOptimizerGrads (fault : Fault) (state : State) : Option Raised × State :=
  if state.wrapper.submissionPending = false then
    (some (.runtimeError "No authoritative optimizer-gradient backward submission is pending"), state)
  else
    let expected := if state.wrapper.pendingAccumulate then Phase.opened else Phase.closed
    match validateAuthoritativeOptimizerGradState state with
    | .error raised => (some raised, abortAuthoritativeOptimizerGradWrite state)
    | .ok phase =>
        if phase ≠ .empty ∧ phase ≠ expected then
          (some (.runtimeError ("Authoritative optimizer-gradient state changed during C++ backward: " ++
            "expected " ++ expected.text ++ ", got " ++ phase.text)),
            abortAuthoritativeOptimizerGradWrite state)
        else
          match fault with
          | .publish count =>
              (some .outside, abortAuthoritativeOptimizerGradWrite
                { state with grad := assignGrads (state.wrapper.entries.take count) state.grad })
          | _ =>
              (none, { state with
                grad := assignGrads state.wrapper.entries state.grad
                wrapper.submissionPending := false
                wrapper.pendingAccumulate := false
                history.window := true })

def releaseAuthoritativeOptimizerGrads (state : State) : Option Raised × State :=
  if state.wrapper.usesAuthoritative = false then (none, state)
  else if state.wrapper.submissionPending then
    (some (.runtimeError "Cannot release authoritative gradients while C++ backward is pending"), state)
  else
    match validateAuthoritativeOptimizerGradState state with
    | .error raised => (some raised, state)
    | .ok _ => (none, { state.closeGrads with history.window := false })

/-- Some gradient is registered and every one is its own view. -/
def State.live (state : State) : Bool :=
  decide (state.wrapper.entries ≠ [] ∧
    ∀ entry ∈ state.wrapper.entries, state.grad entry.parameter = some entry.gradView)

/-- `cpu_infer.submit` of a backward task. -/
def State.submitted (state : State) (accumulate : Bool) : State :=
  { state with
    history.submissions := ⟨accumulate, state.live, state.history.window⟩ :: state.history.submissions }

/-- After a failure the forward cache counts as used. -/
def State.failed (state : State) : State :=
  if state.wrapper.usesAuthoritative then
    { abortAuthoritativeOptimizerGradWrite state with
      wrapper.cacheDepth := state.wrapper.cacheDepth - 1 }
  else state

def State.clearAsync (state : State) : State :=
  { state with
    wrapper.asyncQlen := none
    wrapper.asyncUsesAuthoritative := false }

/-- The checks of both backward entry points, and what they do after them. -/
def entering (scale : Scale) (fault : Fault) (state : State)
    (enter : Bool → State → Option Raised × State) : Option Raised × State :=
  if state.wrapper.cacheDepth = 0 then
    (some (.runtimeError
      "No forward cache available. Call forward(save_for_backward=True) first."), state)
  else if state.wrapper.usesAuthoritative ∧ state.wrapper.submissionPending then
    (some alreadyPending, state)
  else if scale.invalid then (some scale.rejected, state)
  else if fault = .buffer then (some .outside, state)
  else if state.wrapper.usesAuthoritative then
    match prepareAuthoritativeOptimizerGradWrite scale state with
    | (.error raised, state) => (some raised, state)
    | (.ok accumulate, state) => enter accumulate state
  else enter false state

/-- From the results on: copy them out, then publish. -/
def collect (fault : Fault) (usesAuthoritative : Bool) (state : State) : Option Raised × State :=
  if fault = .sync ∨ fault = .copy ∨ fault = .buffer then (some .outside, state)
  else if usesAuthoritative then publishAuthoritativeOptimizerGrads fault state
  else (none, state)

def backwardBody (fault : Fault) (accumulate : Bool) (state : State) : Option Raised × State :=
  if fault = .construct ∨ fault = .repack then (some .outside, state)
  else if fault = .submit then (some .outside, state.submitted accumulate)
  else collect fault state.wrapper.usesAuthoritative (state.submitted accumulate)

def backward (scale : Scale) (fault : Fault) (state : State) : Option Raised × State :=
  entering scale fault state fun accumulate state =>
    match backwardBody fault accumulate state with
    | (some raised, state) => (some raised, state.failed)
    | (none, state) => (none, { state with wrapper.cacheDepth := state.wrapper.cacheDepth - 1 })

def submitBackwardAsync (scale : Scale) (qlen : Nat) (fault : Fault) (state : State) :
    Option Raised × State :=
  entering scale fault state fun accumulate state =>
    if fault = .construct ∨ fault = .repack then (some .outside, state.failed.clearAsync)
    else if fault = .submit then (some .outside, (state.submitted accumulate).failed.clearAsync)
    else
      let state := state.submitted accumulate
      (none, { state with
        wrapper.asyncQlen := some qlen
        wrapper.asyncUsesAuthoritative := state.wrapper.usesAuthoritative
        history.outstanding := true })

def syncBackward (fault : Fault) (state : State) : Option Raised × State :=
  if state.wrapper.asyncQlen = none then
    (some (.runtimeError "No pending backward. Call submit_backward_async() first."), state)
  else
    let usesAuthoritative := state.wrapper.asyncUsesAuthoritative
    match collect fault usesAuthoritative { state with history.outstanding := false } with
    | (some raised, state) =>
        (some raised, (if usesAuthoritative then
          { abortAuthoritativeOptimizerGradWrite state with
            wrapper.cacheDepth := state.wrapper.cacheDepth - 1 } else state).clearAsync)
    | (none, state) =>
        (none, { state with wrapper.cacheDepth := state.wrapper.cacheDepth - 1 }.clearAsync)

/-- A forward that saves for backward; on failure nothing is kept. -/
def forward (saves fails : Bool) (state : State) : Option Raised × State :=
  if fails then (some .outside, state)
  else if saves ∧ state.wrapper.cacheDepth = 0 then
    (none, { state with wrapper.cacheDepth := 1 })
  else (none, state)

inductive Action where
  | register (name : String) (parameter gradView : Nat)
  | forward (saves fails : Bool)
  | backward (scale : Scale) (fault : Fault)
  | submitBackwardAsync (scale : Scale) (qlen : Nat) (fault : Fault)
  | syncBackward (fault : Fault)
  | release
  /-- The optimizer sets the gradients of some parameters to `None`. -/
  | zeroGrad (parameters : List Nat)
  /-- A tensor is replaced or resized in place. -/
  | resize (tensor : Nat) (metadata : Metadata)

def perform (state : State) : Action → Option Raised × State
  | .register name parameter gradView => registerAuthoritativeOptimizerGrad name parameter gradView state
  | .forward saves fails => forward saves fails state
  | .backward scale fault => backward scale fault state
  | .submitBackwardAsync scale qlen fault => submitBackwardAsync scale qlen fault state
  | .syncBackward fault => syncBackward fault state
  | .release => releaseAuthoritativeOptimizerGrads state
  | .zeroGrad parameters =>
      (none, { state with
        grad := fun parameter => if parameter ∈ parameters then none else state.grad parameter })
  | .resize tensor metadata =>
      (none, { state with metadata := Function.update state.metadata tensor metadata })

def machine : Machine State Action where
  initial state := ∃ usesAuthoritative, state.wrapper = { usesAuthoritative } ∧ state.history = {}
  step state action := some (perform state action).2

end KtKernel.Sft
