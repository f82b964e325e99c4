import Zhir.Policies.Negotiation

/-!
The endpoint mappings of negotiated values, and a request with the negotiated fidelity in the
place of what its resources asked for.
-/

set_option autoImplicit false
set_option relaxedAutoImplicit false

namespace Zhir.Core

/-- `Keys.resourceFidelity` of something. -/
def Keys.isResourceFidelity (key : String) : Bool :=
  match List.isPrefixOf? "resource.".toList key.toList with
  | none => false
  | some subject =>
    match List.isSuffixOf? ".fidelity".toList subject with
    | none => false
    | some subject => subject ≠ []

def Fidelity.ofName (name : String) : Option Fidelity :=
  if name = "economy" then some .economy
  else if name = "high" then some .high
  else if name = "original" then some .original
  else none

def Fidelity.ofValue : Value → Option Fidelity
  | .string name => ofName name
  | .object [(name, .null)] => ofName name
  | _ => none

end Zhir.Core

namespace Zhir.Models

open Zhir.Core Zhir.Library

def reservedFields : List String :=
  ["model", "messages", "input", "tools", "stream"]

structure ProfileMapping where
  key : String
  value : Value
  field : String
  wireValue : Value
  valid : key ≠ "" ∧ field ≠ "" ∧ field ∉ reservedFields

def checkMapping (mappings : List ProfileMapping) (images : Bool) (entry : String × Value) :
    Result Unit :=
  if entry.1 = Keys.interaction ∧ entry.2 = .string "turn_based" then .ok ()
  else if images = true ∧ Keys.isResourceFidelity entry.1 = true then .ok ()
  else require (∃ mapping ∈ mappings, mapping.key = entry.1 ∧ mapping.value = entry.2)
    (.invalid ("negotiated " ++ entry.1 ++ " has no endpoint mapping"))

def negotiate (request : ModelRequest) (caps : CapabilitySet) (mappings : List ProfileMapping)
    (images : Bool) : Result NegotiatedProfile := do
  let selected ← Policies.negotiate request caps
  validateAll (checkMapping mappings images) selected.selected
  return selected

/-- What `apply` puts in the place of a fidelity that was asked for. -/
def appliedFidelity (selected : NegotiatedProfile) (id : String) :
    Result (Option (Requirement Fidelity)) :=
  match selected.selected.lookup (Keys.resourceFidelity id) with
  | none => .ok none
  | some value =>
    match Fidelity.ofValue value with
    | some f => .ok (some (.required f))
    | none => .error (.invalid "not a fidelity")

def applyContent (selected : NegotiatedProfile) (content : Content) : Result Content :=
  match content with
  | .resource input =>
    if input.fidelity.isSome then do
      let fidelity ← appliedFidelity selected input.resource.id
      return .resource { input with fidelity }
    else .ok content
  | _ => .ok content

def applyOutput (selected : NegotiatedProfile) (item : Output) : Result Output :=
  match item with
  | .content content => do
    let content ← applyContent selected content
    return .content content
  | _ => .ok item

def applyOutcome (selected : NegotiatedProfile) (outcome : OperationOutcome) :
    Result OperationOutcome :=
  match outcome with
  | .success contents structured => do
    let contents ← contents.mapM (applyContent selected)
    return .success contents structured
  | _ => .ok outcome

def applyMessage (selected : NegotiatedProfile) (message : Message) : Result Message :=
  match message with
  | .system contents => do
    let contents ← contents.mapM (applyContent selected)
    return .system contents
  | .user contents => do
    let contents ← contents.mapM (applyContent selected)
    return .user contents
  | .external contents => do
    let contents ← contents.mapM (applyContent selected)
    return .external contents
  | .assistant output providerData => do
    let output ← output.mapM (applyOutput selected)
    return .assistant output providerData
  | .delegationResult id outcome => do
    let outcome ← applyOutcome selected outcome
    return .delegationResult id outcome
  | .runtimeTool callId name outcome => do
    let outcome ← applyOutcome selected outcome
    return .runtimeTool callId name outcome

def apply (request : ModelRequest) (selected : NegotiatedProfile) : Result ModelRequest := do
  let messages ← request.messages.mapM (applyMessage selected)
  return { request with messages }

end Zhir.Models
