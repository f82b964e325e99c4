import Zhir.Kernel.Session
import Zhir.Kernel.Workers

/-!
The main loop of an execution, its completion, and its settlement.
-/

set_option autoImplicit false
set_option relaxedAutoImplicit false

namespace Zhir.Kernel

open Zhir.Core
open Zhir.Library (Program)

variable (cfg : Config)

structure WorkStatus where
  busy : Bool
  hostBusy : Bool
  unknown : Bool
  progressing : Bool
  deriving DecidableEq, Repr

def WorkStatus.read (operations : Operations) : WorkStatus :=
  let unfinished := (operations.toList.map Prod.snd).filter fun op => !op.state.terminal
  { busy := !unfinished.isEmpty
    hostBusy := unfinished.any fun op => op.owner.host
    unknown := unfinished.any fun op => op.state = .unknown
    progressing := unfinished.any fun op => op.state ≠ .waiting && op.state ≠ .unknown }

namespace Engine

def status (e : Engine) : WorkStatus := WorkStatus.read e.current.active.operations

def canAdvance (e : Engine) : Bool :=
  let session := e.current.active.session
  let providerContinuation := session.needsGeneration && !e.status.hostBusy &&
    session.responseStatus = some .continuation
  (!e.status.busy || providerContinuation) && session.ready &&
    (session.generationId.isNone || session.responseStatus.isSome) &&
    e.current.active.commands.isEmpty && !e.sending

def inputFinished (e : Engine) : Bool :=
  let session := e.current.active.session
  (!e.supports cfg .responseEvents || Checkpoint.covered session) &&
    (e.current.options.mode = .task || session.inputClosed)

def waitingForInput (e : Engine) : Bool :=
  e.status.busy && e.current.active.commands.isEmpty && !e.sending && !e.status.progressing &&
    (e.current.options.mode = .task || e.status.unknown) && e.pendingReplies.isEmpty &&
    e.pendingStarts.isEmpty && e.current.active.session.responseStatus.isSome

end Engine

def resultContent (c : Checkpoint) : List Content :=
  let start := if c.options.mode = .interactive then c.active.session.runStart
    else c.active.session.responseStart
  (conversation (c.history.entries.drop start)).flatMap fun
    | .assistant output _ => visibleContent output
    | _ => []

def complete : Handler Unit := do
  let e ← Program.read
  commit cfg (setState (.completed (resultContent e.current)) e.current) (.control .finished)
    .unchanged

/-- `finish_or_drain`: whether something was committed. -/
def finishOrDrain : Handler Bool := do
  let e ← Program.read
  if e.current.active.session.closure = none then
    if e.current.active.session.closing = false ∧ e.inputSending = false then do
      let _ ← prepareCommand cfg .close
      return true
    else return false
  else if e.mediaPending ∨ e.inputSending then return false
  else do
    complete cfg
    return true

/-- The part of `advance` before suspension is considered. -/
def advanceRun : Handler Bool := do
  let e ← Program.read
  if e.canAdvance then
    if e.current.active.session.needsGeneration ∧ e.supports cfg .explicitGeneration then do
      generate cfg
      return true
    else if e.inputFinished cfg then finishOrDrain cfg
    else return false
  else return false

def suspendWaiting : Handler Bool := do
  let e ← Program.read
  if e.waitingForInput then do
    suspend cfg (if e.status.unknown then .recovery else .input)
    return true
  else return false

def advance : Handler Bool := do
  let advanced ← advanceRun cfg
  if advanced then return true else suspendWaiting cfg

inductive Stage
  /-- The catalog is being opened. -/
  | catalog (request : Request)
  /-- The model session is being opened. -/
  | opening (session : SessionOpen)
  /-- At the top of the main loop. -/
  | pass
  /-- Waiting for work. -/
  | receive
  | ended

/-- `run` from the opened catalog to the call that opens the session. -/
def catalogOpened (request : Request) (opened : Result Catalog) : Handler Stage := do
  openCatalog opened
  applyRecovery cfg request
  let e ← Program.read
  if e.current.state.active then do
    let session ← beginOpening cfg
    return .opening session
  else return .ended

/-- `run` from the opened session to the main loop. -/
def sessionOpened (session : SessionOpen) (result : Result ModelSession) : Handler Stage := do
  finishOpening cfg session result
  let e ← Program.read
  if e.current.state.active then do
    recoverOperations cfg
    return .pass
  else return .ended

/-- One pass of the main loop up to `receive_work`. -/
def loopPass : Handler Stage := do
  check cfg
  let before ← Program.read
  dispatchCommands cfg
  admitQueued cfg
  let advanced ← advance cfg
  let after ← Program.read
  if advanced ∨ after.current.revision ≠ before.current.revision then return .pass
  else return .receive

def Engine.take (work : Work) (e : Engine) : Engine := { e with handling := some work }

def Engine.drop (e : Engine) : Engine := { e with handling := none }

def handleWork (work : Work) : Handler Stage := do
  Program.modify (Engine.take work)
  handle cfg work
  Program.modify Engine.drop
  return .pass

/-- `receive_work` with a work item: the stashed one first. -/
def receiveWork : Handler Stage := do
  let e ← Program.read
  match e.stashed with
  | some work => do
    Program.modify fun e => { e with stashed := none }
    handleWork cfg work
  | none =>
    match e.queue with
    | [] => return .receive
    | work :: rest => do
      Program.modify (Engine.setQueue rest)
      handleWork cfg work

/-- `receive_work` with a host packet: the held one first. -/
def receivePacket : Handler Stage := do
  let e ← Program.read
  if e.stashed.isSome ∨ e.modelMediaInput = false ∨ e.inputSending then return .receive
  else match e.heldInput with
    | some packet => do
      inputMedia cfg packet
      return .pass
    | none =>
      match e.media with
      | [] => return .receive
      | packet :: rest => do
        Program.modify fun e => { e with media := rest }
        inputMedia cfg packet
        return .pass

/-- A control is taken from its queue only when no stashed work or held packet is due. -/
def receiveControl (body : ControlBody) (stage : Stage) : Handler Stage := do
  let e ← Program.read
  if e.stashed.isSome ∨ (e.heldInput.isSome ∧ e.modelMediaInput ∧ e.inputSending = false) then
    return stage
  else do
    control cfg body
    return match stage with
      | .receive => .pass
      | stage => stage

def settledState : Error → State × ControlAction
  | .cancelled => (.cancelled, .cancelled)
  | .deadline => (.limited .deadline, .limited)
  | error => (.failed error.failure, .failed)

/-- Host or provider work that was running is left with an unknown outcome. -/
def abandonRunning (op : OperationRecord) : OperationRecord :=
  if op.state = .running ∨ op.state = .cancelling then { op with state := .unknown } else op

def stageSettled (state : State) (c : Checkpoint) : Checkpoint :=
  { c with state, active.operations := c.active.operations.map fun _ op => abandonRunning op }

/-- `settle` after a failure. An infrastructure failure commits nothing. -/
def settle (error : Error) : Handler Unit :=
  if error.infrastructure then pure ()
  else do
    let e ← Program.read
    commit cfg (stageSettled (settledState error).1 e.current) (.control (settledState error).2)
      .unchanged

end Zhir.Kernel
