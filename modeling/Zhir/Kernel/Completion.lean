import Zhir.Kernel.Commands

/-!
Final results of operations.
-/

set_option autoImplicit false
set_option relaxedAutoImplicit false

namespace Zhir.Kernel

open Zhir.Core
open Zhir.Library (Program)

variable (cfg : Config)

/-- `same_outcome`: the message already reports this outcome. -/
def sameOutcome (message : Message) (outcome : OperationOutcome) : Bool :=
  match message with
  | .runtimeTool _ _ previous => decide (previous = outcome)
  | .delegationResult _ previous => decide (previous = outcome)
  | .assistant output _ => output.any fun
    | .providerToolCall call => call.matchesOutcome outcome
    | _ => false
  | _ => false

/-- The settled record; a cursor is only advanced by a sequenced completion. -/
def settled (op : OperationRecord) (outcome : OperationOutcome) (sequence : Option Nat)
    (index : Nat) : OperationRecord :=
  { op with
    state := .ofOutcome outcome
    lastSequence := sequence.or op.lastSequence
    lastUpdate := (sequence.map fun _ => .finished outcome).or op.lastUpdate
    resultEntry := some index
    wait := none }

def resultEntry (id : OperationId) (record : OperationRecord) (outcome : OperationOutcome) :
    HistoryEntry where
  id := .result id
  origin := some record.origin
  message := match record.owner with
    | .runtimeTool name => .runtimeTool record.origin.callId name outcome
    | _ => .delegationResult record.origin.callId outcome

def putOperation (id : OperationId) (op : OperationRecord) (next : Checkpoint) : Checkpoint :=
  { next with active.operations := next.active.operations.insert id op }

/-- Result entry, terminal record and delivery command in one checkpoint. -/
def stageFinish (id : OperationId) (record : OperationRecord) (outcome : OperationOutcome)
    (sequence : Option Nat) (commandId : String) (c : Checkpoint) : Result Checkpoint := do
  let history ← c.history.append [resultEntry id record outcome]
  let next := putOperation id (settled record outcome sequence c.history.len) { c with history }
  return appendCommand commandId c.history.len .submitted (some id) next

def providerCall (output : List Output) : Option ProviderToolCall :=
  output.findSome? fun
    | .providerToolCall call => some call
    | _ => none

/-- The provider call with its settlement; its native data is kept. -/
def settledCall (call : ProviderToolCall) (outcome : OperationOutcome) : ProviderToolCall :=
  { call with
    status := .ofOutcome (.ofOutcome outcome)
    output := outcome.content
    outcome := some (.ofOutcome outcome) }

def providerEntry (record : OperationRecord) (outcome : OperationOutcome) (c : Checkpoint) :
    Result HistoryEntry :=
  match c.history.get record.callEntry with
  | some { message := .assistant output _, .. } =>
    match providerCall output with
    | some call => .ok
      { id := .result record.id
        origin := some record.origin
        message := .assistant [.providerToolCall (settledCall call outcome)] .null }
    | none => .error (.protocol "provider call missing")
  | _ => .error (.protocol "provider call entry mismatch")

def stageFinishProvider (record : OperationRecord) (outcome : OperationOutcome)
    (sequence : Option Nat) (commandId : String) (entry : HistoryEntry) (c : Checkpoint) :
    Result Checkpoint := do
  let history ← c.history.append [entry]
  let next := putOperation record.id (settled record outcome sequence c.history.len)
    { c with history }
  return appendCommand commandId c.history.len .accepted none next

def Engine.forget (id : OperationId) (e : Engine) : Engine :=
  { e with
    tokens := e.tokens.filter (· ≠ id)
    operationControls := e.operationControls.filter (· ≠ id) }

def finishProvider (record : OperationRecord) (outcome : OperationOutcome)
    (sequence : Option Nat) : Handler Unit := do
  let e ← Program.read
  let entry ← Program.lift (providerEntry record outcome e.current)
  let commandId ← newId cfg
  let next ← Program.lift (stageFinishProvider record outcome sequence commandId entry e.current)
  commit cfg next (.operation record.id (.ofOutcome outcome)) (.append [entry])

def finishHost (id : OperationId) (record : OperationRecord) (outcome : OperationOutcome)
    (sequence : Option Nat) : Handler Unit := do
  let e ← Program.read
  let commandId ← newId cfg
  let next ← Program.lift (stageFinish id record outcome sequence commandId e.current)
  commit cfg next (.operation id (.ofOutcome outcome)) (.append [resultEntry id record outcome])
  Program.modify (Engine.forget id)

/-- The result entry of an operation that is no longer recorded. -/
def resolvedAs (id : OperationId) (outcome : OperationOutcome) (c : Checkpoint) : Bool :=
  (c.history.byId (.result id)).any fun entry => sameOutcome entry.message outcome

def finishedAs (record : OperationRecord) (outcome : OperationOutcome) (c : Checkpoint) : Bool :=
  (record.resultEntry.bind c.history.get).any fun entry => sameOutcome entry.message outcome

def finishAt (id : OperationId) (outcome : OperationOutcome) (sequence : Option Nat) :
    Handler Unit := do
  Program.lift outcome.validate
  let e ← Program.read
  match e.current.active.operations[id]? with
  | none =>
    Program.require (resolvedAs id outcome e.current = true)
      (.protocol "unknown or conflicting operation completion")
  | some record =>
    if record.state.terminal then
      Program.require (finishedAs record outcome e.current = true)
        (.protocol "conflicting operation completion")
    else if record.owner.host then finishHost cfg id record outcome sequence
    else finishProvider cfg record outcome sequence

def finish (id : OperationId) (outcome : OperationOutcome) : Handler Unit :=
  finishAt cfg id outcome none

end Zhir.Kernel
