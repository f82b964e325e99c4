import Zhir.Kernel.Admission
import Zhir.Kernel.Media
import Zhir.Kernel.ModelEvents

/-!
Dispatch of the work items that tasks report.
-/

set_option autoImplicit false
set_option relaxedAutoImplicit false

namespace Zhir.Kernel

open Zhir.Core
open Zhir.Library (Program)

variable (cfg : Config)

def unfinishedOperation (id : OperationId) (c : Checkpoint) : Bool :=
  (c.active.operations[id]?).any fun op => !op.state.terminal

def inState (id : OperationId) (state : OperationState) (c : Checkpoint) : Bool :=
  (c.active.operations[id]?).any fun op => op.state = state

def loseWorker (id : OperationId) (reason : String) : Handler Unit := do
  let e ← Program.read
  Program.when (unfinishedOperation id e.current = true) (unknown cfg id reason)

/-- A start error settles the operation unless the external effect is left unknown. -/
def startFailed (id : OperationId) (error : Error) : Handler Unit := do
  let e ← Program.read
  match error with
  | .cancelled =>
    if inState id .cancelling e.current then finish cfg id (.cancelled "operation cancelled")
    else unknown cfg id error.text
  | .uncertain _ | .storage _ | .conflict _ _ | .protocol _ | .deadline =>
    unknown cfg id error.text
  | error => finish cfg id (.failure error.failure)

def started (id : OperationId) : Result ToolExecution → Handler Unit
  | .ok (.finished outcome) => finish cfg id outcome
  | .ok (.active handle) => installOperation cfg id handle
  | .error error => startFailed cfg id error

def modelEnded : Handler Unit := do
  let e ← Program.read
  Program.when (e.current.active.session.closure = none) (suspend cfg .recovery)

def Error.isUncertain : Error → Bool
  | .uncertain _ => true
  | _ => false

def modelFailed (error : Error) : Handler Unit := do
  let e ← Program.read
  if Error.isUncertain error ∨ e.current.active.session.recovery.isSome ∨ e.current.unfinished then
    suspend cfg .recovery
  else Program.fail error

/-- The engine's decision reaches the media task that waits for it. -/
def Task.decided (input : Bool) : Task → Task
  | .mediaInput segment .waiting =>
    if input then .mediaInput segment .sending else .mediaInput segment .waiting
  | .mediaOutput .waiting => if input then .mediaOutput .waiting else .mediaOutput .sealing
  | task => task

def decideMedia (input : Bool) (valid : Bool) (segment : SealedMedia) (reference : ResourceRef) :
    Handler Unit := do
  Program.when (valid = true)
    (sealCursor cfg (if input then "input" else "output") segment reference)
  Program.modify fun e => { e with tasks := e.tasks.map (Task.decided input) }

def mediaReady (segment : SealedMedia) (reference : ResourceRef) : Handler Unit := do
  let e ← Program.read
  let session := e.current.active.session
  decideMedia cfg false (segment.epoch = session.outputEpoch && session.id = segment.sessionId)
    segment reference

def inputReady (segment : SealedMedia) (reference : ResourceRef) : Handler Unit := do
  let e ← Program.read
  decideMedia cfg true (segment.epoch = 0 && e.current.active.session.id = segment.sessionId)
    segment reference

/-- Sends whose outcome is an error leave the session uncertain. -/
def sentResult : Result Unit → Handler Unit
  | .ok () => pure ()
  | .error _ => suspend cfg .recovery

def replyDone (id : OperationId) (result : Result Unit) : Handler Unit := do
  Program.modify fun e => { e with pendingReplies := e.pendingReplies.filter (· ≠ id) }
  let e ← Program.read
  Program.when (inState id .unknown e.current = true) <| match result with
    | .error error => unknown cfg id error.text
    | .ok () => localOperationUpdate cfg id .running none

def handle : Work → Handler Unit
  | .model (.ok (some event)) => modelEvent cfg event
  | .model (.ok none) => modelEnded cfg
  | .model (.error error) => modelFailed cfg error
  | .started id result => do
    Program.modify fun e => { e with pendingStarts := e.pendingStarts.filter (· ≠ id) }
    started cfg id result
  | .cancelFailed id error => loseWorker cfg id ("cancel failed: " ++ error.text)
  | .operation id (.ok (some event)) => operationEvent cfg id event
  | .operation id _ => loseWorker cfg id "operation stream ended without a final result"
  | .admitted bindings decisions => admitted cfg bindings decisions
  | .mediaReady segment reference => mediaReady cfg segment reference
  | .inputReady segment reference => inputReady cfg segment reference
  | .inputSent result => do
    Program.modify fun e => { e with inputSending := false }
    sentResult cfg result
  | .mediaDone => Program.modify fun e => { e with mediaPending := false }
  | .replyDone id result => replyDone cfg id result
  | .progress _ _ => pure ()
  | .mediaError error => Program.fail error
  | .commandSent result => do
    Program.modify fun e => { e with sending := false }
    sentResult cfg result

end Zhir.Kernel
