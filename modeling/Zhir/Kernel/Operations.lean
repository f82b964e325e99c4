import Zhir.Kernel.Completion

/-!
Worker events and kernel-local transitions of operation records.
-/

set_option autoImplicit false
set_option relaxedAutoImplicit false

namespace Zhir.Kernel

open Zhir.Core
open Zhir.Library (Program)

variable (cfg : Config)

/-- How an event relates to the cursor of its operation. -/
inductive Delivery
  | fresh
  /-- Already applied: an earlier sequence, or the recorded one repeating its update. -/
  | replay
  | conflict
  deriving DecidableEq, Repr

def delivery (op : OperationRecord) (event : OperationEvent) : Delivery :=
  match op.lastSequence with
  | none => .fresh
  | some previous =>
    if event.sequence = previous then
      if op.lastUpdate = some event.update then .replay else .conflict
    else if event.sequence < previous then .replay
    else .fresh

def advanceCursor (op : OperationRecord) (event : OperationEvent) : OperationRecord :=
  { op with lastSequence := some event.sequence, lastUpdate := some event.update }

/-- The record after a `Running`, `Waiting` or `Unknown` update. -/
def applyUpdate (op : OperationRecord) (event : OperationEvent) : OperationRecord :=
  let op := advanceCursor op event
  match event.update with
  | .running recovery =>
      { op with state := .running, recovery := recovery.or op.recovery, wait := none }
  | .waiting prompt recovery =>
    { op with state := .waiting, wait := some prompt, recovery := recovery.or op.recovery }
  | .unknown reason => { op with state := .unknown, wait := some (Value.reason reason) }
  | _ => op

/-- Delegation context is committed with the command that delivers it. -/
def stageContext (id : OperationId) (op : OperationRecord) (event : OperationEvent)
    (content : List Content) (commandId : String) (c : Checkpoint) : Checkpoint :=
  pushCommand commandId (.delegationContext id content) false
    (putOperation id (advanceCursor op event) c)

def contextEvent (id : OperationId) (event : OperationEvent) (content : List Content) :
    Handler Unit := do
  let e ← Program.read
  match e.current.active.operations[id]? with
  | none => Program.fail (.protocol "unknown context operation")
  | some record => do
    Program.require (record.owner = .delegation ∧ record.state.terminal = false)
      (.protocol "context requires an active delegation")
    match delivery record event with
    | .replay => pure ()
    | .conflict => Program.fail (.protocol "conflicting delegation context")
    | .fresh => do
      Program.lift (validateAll Content.validate content)
      let commandId ← newId cfg
      commit cfg (stageContext id record event content commandId e.current)
        (.operation id record.state) .unchanged

def updateEvent (id : OperationId) (event : OperationEvent) : Handler Unit := do
  let e ← Program.read
  match e.current.active.operations[id]? with
  | none => Program.fail (.protocol "unknown operation event")
  | some record => do
    Program.require (record.state.terminal = false) (.protocol "update follows terminal operation")
    let record := applyUpdate record event
    commit cfg (putOperation id record e.current) (.operation id record.state) .unchanged

/-- An event that is not a replay. Progress is only observed. -/
def freshEvent (id : OperationId) (event : OperationEvent) : Handler Unit :=
  match event.update with
  | .finished outcome => finishAt cfg id outcome (some event.sequence)
  | .progress _ => do
    let e ← Program.read
    Program.require (id ∈ e.current.active.operations) (.protocol "unknown operation event")
  | _ => updateEvent cfg id event

def operationEvent (id : OperationId) (event : OperationEvent) : Handler Unit :=
  match event.update with
  | .context content => contextEvent cfg id event content
  | _ => do
    let e ← Program.read
    match (e.current.active.operations[id]?).map (delivery · event) with
    | some .replay => pure ()
    | some .conflict => Program.fail (.protocol "conflicting operation event sequence")
    | _ => freshEvent cfg id event

/-- A transition of the kernel itself; the event cursor does not move. -/
def localOperationUpdate (id : OperationId) (state : OperationState) (wait : Option Value) :
    Handler Unit := do
  let e ← Program.read
  match e.current.active.operations[id]? with
  | none => Program.fail (.protocol "unknown operation")
  | some op => do
    Program.require (op.state.terminal = false) (.protocol "update follows terminal operation")
    commit cfg (putOperation id { op with state, wait } e.current) (.operation id state) .unchanged

def unknown (id : OperationId) (reason : String) : Handler Unit :=
  localOperationUpdate cfg id .unknown (some (Value.reason reason))

/-- The worker's control is kept, its stream is forwarded, and a cancellation asked for
while it started reaches it now. -/
def Engine.install (id : OperationId) (state : OperationState) (e : Engine) : Engine :=
  { e with
    operationControls := id :: e.operationControls
    tasks := e.tasks ++
      (if state = .cancelling then [.cancel id false] else []) ++ [.events id] }

def installOperation (id : OperationId) (handle : OperationHandle) : Handler Unit := do
  let e ← Program.read
  match e.current.active.operations[id]? with
  | none => Program.fail (.protocol "unknown started operation")
  | some op => do
    commit cfg (putOperation id { op with recovery := handle.recovery.or op.recovery } e.current)
      (.operation id op.state) .unchanged
    Program.modify (Engine.install id op.state)

end Zhir.Kernel
