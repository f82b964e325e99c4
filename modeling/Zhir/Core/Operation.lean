import Std.Data.ExtTreeMap
import Zhir.Core.Message

/-!
Operation records: durable identity and lifecycle of host and provider work.
-/

set_option autoImplicit false
set_option relaxedAutoImplicit false

namespace Zhir.Core

structure CallRef where
  sessionId : String
  itemId : String
  generationId : Option String
  callerId : String
  callId : String
  deriving DecidableEq, Repr

/-- Operation identities. Host operations carry a generated id; a provider operation is
named by `provider:` and the JSON array of these four fields, so equal names mean equal
fields. -/
inductive OperationId
  | host (id : String)
  | provider (sessionId : String) (generationId : Option String) (callerId callId : String)
  deriving DecidableEq, Repr

namespace OperationId

def key : OperationId → List String
  | .host id => [id]
  | .provider s g c k => ["provider", s, c, k] ++ g.toList

/-- The identity as text; quoted parts are shown without escapes. -/
def text : OperationId → String
  | .host id => id
  | .provider s g c k =>
    "provider:[\"" ++ s ++ "\"," ++ (g.elim "null" fun g => "\"" ++ g ++ "\"") ++ ",\"" ++ c ++
      "\",\"" ++ k ++ "\"]"

theorem key_injective : Function.Injective key := by
  intro a b h
  cases a with
  | host i => cases b <;> simp_all [key]
  | provider s g c k =>
    cases b with
    | host i => simp [key] at h
    | provider s' g' c' k' => cases g <;> cases g' <;> simp_all [key]

instance : Ord OperationId := ⟨fun a b => compare a.key b.key⟩

instance : Std.TransOrd OperationId :=
  inferInstanceAs (Std.TransCmp (compareOn OperationId.key))

instance : Std.LawfulEqOrd OperationId where
  eq_of_compare h := key_injective (Std.LawfulEqOrd.eq_of_compare (α := List String) h)
  compare_self := Std.ReflOrd.compare_self (α := List String)

end OperationId

/-- `provider_operation_id`: the item identity takes no part in it. -/
def providerOperationId (origin : CallRef) : OperationId :=
  .provider origin.sessionId origin.generationId origin.callerId origin.callId

inductive OperationState
  | queued | running | waiting | cancelling | succeeded | failed | cancelled | unknown
  deriving DecidableEq, Repr

namespace OperationState

def terminal : OperationState → Bool
  | .succeeded | .failed | .cancelled => true
  | _ => false

def ofOutcome : OperationOutcome → OperationState
  | .success _ _ => .succeeded
  | .failure _ => .failed
  | .cancelled _ => .cancelled

@[simp] theorem terminal_ofOutcome (o : OperationOutcome) : (ofOutcome o).terminal = true := by
  cases o <;> rfl

end OperationState

structure RecoveryRef where
  adapter : String
  data : Value
  deriving DecidableEq, Repr

inductive OperationOwner
  | runtimeTool (name : String)
  | provider (provider : String)
  | delegation
  deriving DecidableEq, Repr

namespace OperationOwner

/-- Work executed by the host: runtime tools and delegations. -/
def host : OperationOwner → Bool
  | .provider _ => false
  | _ => true

def isRuntimeTool : OperationOwner → Bool
  | .runtimeTool _ => true
  | _ => false

theorem isRuntimeTool_iff {owner : OperationOwner} :
    owner.isRuntimeTool = true ↔ ∃ name, owner = .runtimeTool name := by
  cases owner <;> simp [isRuntimeTool]

end OperationOwner

inductive OperationUpdate
  | context (content : List Content)
  | running (recovery : Option RecoveryRef)
  | waiting (prompt : Value) (recovery : Option RecoveryRef)
  | progress (value : Value)
  | finished (outcome : OperationOutcome)
  | unknown (reason : String)
  deriving DecidableEq, Repr

structure OperationEvent where
  sequence : Nat
  update : OperationUpdate
  deriving DecidableEq, Repr

structure OperationRecord where
  id : OperationId
  origin : CallRef
  owner : OperationOwner
  state : OperationState
  callEntry : Nat
  resultEntry : Option Nat
  recovery : Option RecoveryRef
  lastSequence : Option Nat
  lastUpdate : Option OperationUpdate
  wait : Option Value
  deriving DecidableEq, Repr

namespace OperationRecord

/-- The record with which `record_output` admits a call. -/
def admitted (id : OperationId) (origin : CallRef) (owner : OperationOwner)
    (state : OperationState) (callEntry : Nat) : OperationRecord :=
  { id, origin, owner, state, callEntry, resultEntry := none, recovery := none,
    lastSequence := none, lastUpdate := none, wait := none }

def validate (op : OperationRecord) : Result Unit :=
  if op.id = .host "" ∨ op.origin.sessionId = "" ∨ op.origin.itemId = "" ∨
      op.origin.generationId = some "" ∨ op.origin.callerId = "" ∨ op.origin.callId = "" then
    .error (.invalid "empty operation identity")
  else if op.lastSequence.isSome ≠ op.lastUpdate.isSome then
    .error (.invalid "operation cursor requires its acknowledged update")
  else if op.state.terminal ≠ op.resultEntry.isSome then
    .error (.invalid "operation terminal state and result disagree")
  else if op.recovery.any (fun r => r.adapter = "") then
    .error (.invalid "empty recovery adapter")
  else .ok ()

/-- A host operation the kernel counts as running: started and neither waiting nor
settled. -/
def active (op : OperationRecord) : Bool :=
  op.owner.host && (op.state == .running || op.state == .cancelling)

end OperationRecord

inductive RecoveryResolution
  | attach (operationId : OperationId) (reference : RecoveryRef)
  | complete (operationId : OperationId) (outcome : OperationOutcome)
  | abandon (operationId : OperationId) (reason : String)
  | abandonGeneration (generationId reason : String)
  deriving DecidableEq, Repr

abbrev Operations := Std.ExtTreeMap OperationId OperationRecord

end Zhir.Core
