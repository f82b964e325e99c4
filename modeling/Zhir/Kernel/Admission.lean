import Mathlib.Data.List.Sort
import Zhir.Kernel.Operations

/-!
Admission of queued operations, approval, and recovery of started ones.
-/

set_option autoImplicit false
set_option relaxedAutoImplicit false

namespace Zhir.Kernel

open Zhir.Core
open Zhir.Library (Program)

variable (cfg : Config)

/-- `SelectedCatalog::bind`: the specification of the binding of a call. -/
def Catalog.bind (catalog : Catalog) (answer : Nat) (call : RuntimeToolCall) :
    Result RuntimeToolSpec := do
  call.validate
  match catalog.specs.find? (fun spec => spec.name = call.name) with
  | none => throw (.arguments ("runtime tool is not selected: " ++ call.name))
  | some spec =>
    let bound ← catalog.inner answer call
    if bound ≠ spec then
      throw (.arguments ("catalog binding changed specification: " ++ call.name))
    else return spec

def bindCall (call : RuntimeToolCall) : Handler (Result RuntimeToolSpec) := do
  let e ← Program.read
  ask fun answer => e.catalog.bind answer call

/-- `Engine::call`: the call a runtime tool operation was admitted for. -/
def callOf (op : OperationRecord) (c : Checkpoint) : Result RuntimeToolCall :=
  match c.history.get op.callEntry with
  | none => .error (.protocol "missing operation call")
  | some entry =>
    let found := match entry.message with
      | .assistant output _ => output.findSome? fun
        | .runtimeToolCall call => if call.id = op.origin.callId then some call else none
        | _ => none
      | _ => none
    match found with
    | some call => .ok call
    | none => .error (.protocol "operation call entry mismatch")

/-- Handles of a worker that is about to be started or recovered. -/
def Engine.launch (id : OperationId) (task : Task) (e : Engine) : Engine :=
  { e with
    pendingStarts := id :: e.pendingStarts
    tokens := id :: e.tokens
    tasks := e.tasks ++ [task] }

def spawnTool (id : OperationId) (task : Task) : Handler Unit := do
  check cfg
  Program.modify (Engine.launch id task)

def activeCount (c : Checkpoint) : Nat :=
  c.active.operations.toList.countP fun (_, op) => op.active

def delegationRequest (record : OperationRecord) (c : Checkpoint) : Option DelegationRequest :=
  match c.history.get record.callEntry with
  | some { message := .assistant output _, .. } => output.findSome? fun
    | .delegation request => some request
    | _ => none
  | _ => none

def queuedDelegations (c : Checkpoint) : List OperationRecord :=
  (c.active.operations.toList.map Prod.snd).filter fun op =>
    op.owner = .delegation && op.state = .queued

def delegate (record : OperationRecord) : Handler Unit := do
  if cfg.delegation = false then
    finish cfg record.id
      (.failure ⟨"delegation_unavailable", "no delegation handler registered", false⟩)
  else do
    let e ← Program.read
    match delegationRequest record e.current with
    | none => Program.fail (.protocol "delegation request missing")
    | some request => do
      localOperationUpdate cfg record.id .running none
      Program.modify (Engine.launch record.id (.delegate record.id request false))

/-- A queued call under its operation's identity, as schedulers see it. -/
structure Candidate where
  id : OperationId
  call : RuntimeToolCall
  deriving DecidableEq

def Candidate.shown (c : Candidate) : RuntimeToolCall := { c.call with id := c.id.text }

def emitted (a b : OperationRecord) : Bool :=
  a.callEntry < b.callEntry || (a.callEntry = b.callEntry && (compare a.id b.id).isLE)

def queuedCalls (c : Checkpoint) : List OperationRecord :=
  ((c.active.operations.toList.map Prod.snd).filter fun op =>
    op.state = .queued && op.owner.isRuntimeTool).insertionSort fun a b => emitted a b = true

def candidates (c : Checkpoint) : List OperationRecord → Result (List Candidate)
  | [] => .ok []
  | record :: rest => do
    let call ← callOf record c
    let others ← candidates c rest
    return ⟨record.id, call⟩ :: others

/-- A tool whose selected specification allows parallel execution. -/
def Catalog.parallel (catalog : Catalog) (name : String) : Bool :=
  (catalog.specs.find? (fun spec => spec.name = name)).any RuntimeToolSpec.parallel

def serialActive (catalog : Catalog) (c : Checkpoint) : Bool :=
  c.active.operations.toList.any fun (_, op) => op.active && match op.owner with
    | .runtimeTool name => !catalog.parallel name
    | _ => false

def Engine.reserve (id : OperationId) (e : Engine) : Engine :=
  { e with admitting := id :: e.admitting }

/-- The selection loop of admission. `bindings` are the calls accepted so far. -/
def selectCalls (available : List Candidate) (parallel : Bool) (running : Nat)
    (selected : List String) (bindings : List Binding) :
    List RuntimeToolCall → Handler (List Binding)
  | [] => return bindings
  | shown :: rest =>
    match available.find? (fun c => c.shown = shown) with
    | none => Program.fail (.invalid "scheduler returned duplicate or unknown call")
    | some candidate => do
      Program.require (shown.id ∉ selected)
        (.invalid "scheduler returned duplicate or unknown call")
      let bound ← bindCall candidate.call
      match bound with
      | .error error => do
        finish cfg candidate.id (.failure error.failure)
        selectCalls available parallel running (shown.id :: selected) bindings rest
      | .ok spec => do
        let e ← Program.read
        if (running > 0 ∨ bindings ≠ []) ∧ (parallel = false ∨ spec.parallel = false) then
          return bindings
        else if running > 0 ∧ serialActive e.catalog e.current then return bindings
        else do
          Program.modify (Engine.reserve candidate.id)
          selectCalls available parallel running (shown.id :: selected)
            (bindings ++ [⟨candidate.id, candidate.call⟩]) rest

def admitCalls (running : Nat) : Handler Unit := do
  let e ← Program.read
  let available ← Program.lift (candidates e.current (queuedCalls e.current))
  if available = [] then pure ()
  else do
    let admission ← Program.lift (cfg.scheduler (available.map Candidate.shown) e.catalog.specs)
    let bindings ← selectCalls cfg available admission.parallel running [] []
      (admission.calls.take (e.current.options.limits.maxOperationConcurrency - running))
    Program.when (bindings ≠ []) (Program.modify fun e => e.spawn (.approval bindings))

/-- The source's `Engine::admit`. A batch awaiting approval keeps its slots and its place in
emission order. -/
def admitQueued : Handler Unit := do
  let e ← Program.read
  let running := activeCount e.current
  let limits := e.current.options.limits
  if e.admitting ≠ [] then pure ()
  else if running + e.current.active.commands.length ≥ limits.maxControlCommands ∨
      running ≥ limits.maxOperationConcurrency then pure ()
  else
    let delegated := (queuedDelegations e.current).take (limits.maxOperationConcurrency - running)
    if delegated ≠ [] then Program.forEach (delegate cfg) delegated
    else admitCalls cfg running

def stageAdmitted (id : OperationId) (op : OperationRecord) (c : Checkpoint) : Checkpoint :=
  putOperation id { op with state := .running }
    { c with metrics.runtimeToolCalls := c.metrics.runtimeToolCalls + 1 }

def queuedRecord (id : OperationId) (c : Checkpoint) : Option OperationRecord :=
  (c.active.operations[id]?).filter fun op => op.state = .queued

def startAdmitted (binding : Binding) (op : OperationRecord) : Handler Unit := do
  let e ← Program.read
  commit cfg (stageAdmitted binding.id op e.current) (.operation binding.id .running) .unchanged
  spawnTool cfg binding.id (.start binding.id binding.call false)

def limitRun (reason : LimitReason) : Handler Unit := do
  let e ← Program.read
  commit cfg (setState (.limited reason) e.current) (.control .limited) .unchanged

/-- The decision loop of `admitted`. A spent call budget ends it. -/
def applyDecisions : List (Binding × ApprovalDecision) → Handler Unit
  | [] => pure ()
  | (binding, decision) :: rest => do
    let e ← Program.read
    match queuedRecord binding.id e.current with
    | none => applyDecisions rest
    | some op =>
      match decision with
      | .allow => do
        check cfg
        if e.current.metrics.runtimeToolCalls ≥ e.current.options.limits.maxRuntimeToolCalls then
          limitRun cfg .runtimeToolCalls
        else do
          startAdmitted cfg binding op
          applyDecisions rest
      | .deny reason => do
        finish cfg binding.id (.failure ⟨"approval_denied", reason, false⟩)
        applyDecisions rest
      | .suspend _ => applyDecisions rest

def ApprovalDecision.suspension : ApprovalDecision → Option Suspension
  | .suspend suspension => some suspension
  | _ => none

def Engine.release (ids : List OperationId) (e : Engine) : Engine :=
  { e with admitting := e.admitting.filter (· ∉ ids) }

def admitted (bindings : List Binding) (decisions : Result (List ApprovalDecision)) :
    Handler Unit := do
  let decisions ← Program.lift decisions
  Program.require (decisions.length = bindings.length)
    (.protocol "approval decision count differs from requests")
  Program.modify (Engine.release (bindings.map Binding.id))
  let e ← Program.read
  match decisions.findSome? ApprovalDecision.suspension with
  | some suspension =>
    commit cfg (setState (.suspended suspension) e.current) (.control .suspended) .unchanged
  | none => applyDecisions cfg (bindings.zip decisions)

def recovering (c : Checkpoint) : List OperationRecord :=
  (c.active.operations.toList.map Prod.snd).filter fun op =>
    op.state = .running || op.state = .waiting || op.state = .cancelling

def recoverOperation (record : OperationRecord) : Handler Unit :=
  match record.owner with
  | .delegation =>
    if cfg.delegation then Program.modify (Engine.launch record.id (.recover record false))
    else unknown cfg record.id "delegation handler unavailable"
  | .runtimeTool _ => do
    let e ← Program.read
    let call ← Program.lift (callOf record e.current)
    let bound ← bindCall call
    match bound with
    | .ok _ => spawnTool cfg record.id (.recover record false)
    | .error error => unknown cfg record.id ("recovery binding failed: " ++ error.text)
  | .provider _ => pure ()

def recoverOperations : Handler Unit := do
  let e ← Program.read
  Program.forEach (recoverOperation cfg) (recovering e.current)

/-- `recovery_failed`: a failed recovery says nothing about the external work. -/
def recoveryFailed (error : Error) : Error := .protocol ("recovery failed: " ++ error.text)

/-- `DefaultScheduling`: the leading serial call alone, or the leading run of parallel
calls. -/
def defaultScheduling (calls : List RuntimeToolCall) (specs : List RuntimeToolSpec) :
    Result Admission :=
  let parallel (call : RuntimeToolCall) : Bool :=
    (specs.find? (fun spec => spec.name = call.name)).any RuntimeToolSpec.parallel
  match calls with
  | [] => .ok ⟨[], false⟩
  | first :: _ =>
    if parallel first then .ok ⟨calls.takeWhile parallel, true⟩ else .ok ⟨[first], false⟩

end Zhir.Kernel
