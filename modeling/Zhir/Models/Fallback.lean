import Zhir.Core.Session
import Zhir.Models.Marker

/-!
A model that opens its sessions at one of several candidates, and wraps the bindings and the
recovery references of a session so that they name the candidate.
-/

set_option autoImplicit false
set_option relaxedAutoImplicit false

namespace Zhir.Models

open Zhir.Core

/-- An open session: the binding its control reports, and the answer to each `receive`. -/
structure Session where
  binding : Option ModelBinding
  receive : Nat → Result (Option SessionEventBody)

/-- `dyn Model`. What it does may depend on the state of the world. -/
structure DynModel (σ : Type) where
  negotiate : ModelRequest → σ → Result NegotiatedProfile
  openSession : SessionOpen → σ → Result Session × σ

structure FallbackCandidate (σ : Type) where
  id : String
  model : DynModel σ

structure FallbackRecovery where
  candidate : String
  reference : RecoveryRef
  deriving DecidableEq, Repr

structure FallbackBinding where
  candidate : String
  inner : Option ModelBinding
  deriving DecidableEq, Repr

def fallbackAdapter : String := "zhir.fallback"

/-- The fields of a structure that takes no others, from an object or from an array of them all. -/
def structFields (names : List String) : Value → Option (List (Option Value))
  | .object fields =>
    if ∀ f ∈ fields, f.1 ∈ names then some (names.map fun n => fields.lookup n) else none
  | .array items => if items.length = names.length then some (items.map some) else none
  | _ => none

def bindingValue (b : ModelBinding) : Value :=
  .object [("adapter", .string b.adapter), ("data", b.data)]

def bindingOf (v : Value) : Option ModelBinding :=
  match structFields ["adapter", "data"] v with
  | some [some (.string adapter), some data] => some ⟨adapter, data⟩
  | _ => none

def recoveryValue (r : RecoveryRef) : Value :=
  .object [("adapter", .string r.adapter), ("data", r.data)]

def recoveryOf (v : Value) : Option RecoveryRef :=
  match structFields ["adapter", "data"] v with
  | some [some (.string adapter), some data] => some ⟨adapter, data⟩
  | _ => none

def FallbackBinding.toValue (b : FallbackBinding) : Value :=
  .object [("candidate", .string b.candidate), ("inner", (b.inner.map bindingValue).getD .null)]

def FallbackBinding.ofValue (v : Value) : Option FallbackBinding :=
  match structFields ["candidate", "inner"] v with
  | some [some (.string candidate), inner] =>
    match inner with
    | none => some ⟨candidate, none⟩
    | some .null => some ⟨candidate, none⟩
    | some v => (bindingOf v).map fun b => ⟨candidate, some b⟩
  | _ => none

def FallbackRecovery.toValue (r : FallbackRecovery) : Value :=
  .object [("candidate", .string r.candidate), ("reference", recoveryValue r.reference)]

def FallbackRecovery.ofValue (v : Value) : Option FallbackRecovery :=
  match structFields ["candidate", "reference"] v with
  | some [some (.string candidate), some v] =>
    (recoveryOf v).map fun reference => ⟨candidate, reference⟩
  | _ => none

private theorem bindingOf_value (b : ModelBinding) : bindingOf (bindingValue b) = some b := by
  simp [bindingOf, bindingValue, structFields, List.lookup_cons]

private theorem recoveryOf_value (r : RecoveryRef) : recoveryOf (recoveryValue r) = some r := by
  simp [recoveryOf, recoveryValue, structFields, List.lookup_cons]

theorem FallbackBinding.ofValue_toValue (b : FallbackBinding) :
    FallbackBinding.ofValue b.toValue = some b := by
  obtain ⟨candidate, inner⟩ := b
  cases inner with
  | none => simp [FallbackBinding.ofValue, FallbackBinding.toValue, structFields, List.lookup_cons]
  | some b =>
    have hvalue : structFields ["candidate", "inner"]
        (FallbackBinding.toValue ⟨candidate, some b⟩) =
          some [some (.string candidate), some (bindingValue b)] := by
      simp [FallbackBinding.toValue, structFields, List.lookup_cons]
    unfold FallbackBinding.ofValue
    rw [hvalue]
    simp only [bindingValue]
    change (bindingOf (bindingValue b)).map _ = _
    rw [bindingOf_value]
    rfl

theorem FallbackRecovery.ofValue_toValue (r : FallbackRecovery) :
    FallbackRecovery.ofValue r.toValue = some r := by
  have hvalue : structFields ["candidate", "reference"] r.toValue =
      some [some (.string r.candidate), some (recoveryValue r.reference)] := by
    simp [FallbackRecovery.toValue, structFields, List.lookup_cons]
  unfold FallbackRecovery.ofValue
  rw [hvalue]
  simp only [recoveryOf_value]
  rfl

/-- `BoundControl::binding`. -/
def boundBinding (candidate : String) (inner : Option ModelBinding) : ModelBinding :=
  ⟨fallbackAdapter, FallbackBinding.toValue ⟨candidate, inner⟩⟩

def boundRecovery (candidate : String) (reference : RecoveryRef) : RecoveryRef :=
  ⟨fallbackAdapter, FallbackRecovery.toValue ⟨candidate, reference⟩⟩

/-- `BoundEvents::receive`, of one event. -/
def boundEvent (candidate : String) : SessionEventBody → SessionEventBody
  | .acknowledged id (some reference) => .acknowledged id (some (boundRecovery candidate reference))
  | .recovery reference => .recovery (boundRecovery candidate reference)
  | body => body

def FallbackModel.bind (session : Session) (candidate : String) : Session where
  binding := some (boundBinding candidate session.binding)
  receive n := (session.receive n).map fun event => event.map (boundEvent candidate)

def heldBinding (b : ModelBinding) : Result FallbackBinding :=
  if b.adapter ≠ fallbackAdapter then
    .error (.invalid "binding does not belong to this fallback adapter")
  else
    match FallbackBinding.ofValue b.data with
    | some held => .ok held
    | none => .error (.invalid "invalid fallback binding")

def heldRecovery (r : RecoveryRef) : Result FallbackRecovery :=
  if r.adapter ≠ fallbackAdapter then
    .error (.invalid "recovery does not belong to this fallback adapter")
  else
    match FallbackRecovery.ofValue r.data with
    | some held => .ok held
    | none => .error (.invalid "invalid fallback recovery")

def boundCandidate (binding : Option FallbackBinding) (recovery : Option FallbackRecovery) :
    Result (Option String) :=
  match binding, recovery with
  | none, none => .ok none
  | some b, none => .ok (some b.candidate)
  | none, some r => .ok (some r.candidate)
  | some b, some r =>
    if b.candidate ≠ r.candidate then
      .error (.invalid "recovery differs from the bound candidate")
    else .ok (some b.candidate)

/-- What an opening request holds for this adapter: the candidate it names, and the request
for that candidate. -/
def FallbackModel.held (opening : SessionOpen) : Result (Option String × SessionOpen) := do
  let binding ← opening.binding.mapM heldBinding
  let recovery ← opening.recovery.mapM heldRecovery
  let candidate ← boundCandidate binding recovery
  return (candidate,
    { opening with
      binding := binding.bind FallbackBinding.inner
      recovery := recovery.map FallbackRecovery.reference })

variable {σ : Type}

/-- The candidates in order, for a session that is new; `check` is the cancellation. -/
def openFirst (check : σ → Result Unit × σ) (opening : SessionOpen) :
    List (FallbackCandidate σ) → Error → σ → Result Session × σ
  | [], error, s => (.error error, s)
  | candidate :: rest, error, s =>
    match check s with
    | (.error e, s) => (.error e, s)
    | (.ok (), s) =>
      match candidate.model.negotiate opening.request s with
      | .error _ => openFirst check opening rest error s
      | .ok _ =>
        match candidate.model.openSession opening s with
        | (.ok session, s) => (.ok (FallbackModel.bind session candidate.id), s)
        | (.error e, s) =>
          match e with
          | .model failure =>
            if failure.retryable then openFirst check opening rest (.model failure) s
            else (.error e, s)
          | _ => (.error e, s)

def openBound (opening : SessionOpen) (models : List (FallbackCandidate σ)) (id : String) (s : σ) :
    Result Session × σ :=
  match models.find? fun candidate => candidate.id = id with
  | none => (.error (.invalid "original fallback candidate is unavailable"), s)
  | some candidate =>
    match candidate.model.openSession opening s with
    | (.ok session, s) => (.ok (FallbackModel.bind session candidate.id), s)
    | (.error e, s) => (.error e, s)

namespace FallbackModel

def openSession (check : σ → Result Unit × σ) (models : List (FallbackCandidate σ))
    (opening : SessionOpen) (s : σ) : Result Session × σ :=
  match check s with
  | (.error e, s) => (.error e, s)
  | (.ok (), s) =>
    match FallbackModel.held opening with
    | .error e => (.error e, s)
    | .ok (some id, opening) => openBound opening models id s
    | .ok (none, opening) =>
      openFirst check opening models (.invalid "no model satisfies request") s

def negotiate (models : List (FallbackCandidate σ)) (request : ModelRequest) (s : σ) :
    Result NegotiatedProfile :=
  match models.findSome? fun candidate => (candidate.model.negotiate request s).toOption with
  | some profile => .ok profile
  | none => .error (.invalid "no model satisfies request")

/-- The candidates that `FallbackModel::new` takes. -/
def checkCandidates (ids : List String) : Result Unit := do
  require ((∀ id ∈ ids, id ≠ "") ∧ ids.Nodup)
    (.invalid "fallback candidates require unique nonempty identities")
  require (ids ≠ []) (.invalid "fallback requires models")

def model (check : σ → Result Unit × σ) (models : List (FallbackCandidate σ)) : DynModel σ where
  negotiate := negotiate models
  openSession := openSession check models

end FallbackModel

end Zhir.Models
