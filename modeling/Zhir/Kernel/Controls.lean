import Zhir.Kernel.Operations

/-!
Host controls and recovery resolutions.
-/

set_option autoImplicit false
set_option relaxedAutoImplicit false

namespace Zhir.Kernel

open Zhir.Core
open Zhir.Library (Program)

variable (cfg : Config)

inductive ControlBody
  | pause (suspension : Suspension)
  | input (message : Message) (source : String)
  | cancelOperation (id : OperationId)
  | replyOperation (id : OperationId) (value : Value)
  | updateProfile (profile : RequestProfile)
  | interruptOutput
  | flushInput
  | setInputAudio (enabled : Bool)
  | sealUserInput
  deriving DecidableEq, Repr

inductive Request
  | start (history : History) (context : RunContext) (options : RunOptions)
  | recover (checkpoint : Checkpoint) (messages : List Message)
      (resolutions : List RecoveryResolution) (metadata : List (String × Value))

/-- `Attach`: the host names the external work and the operation runs again. -/
def stageAttach (id : OperationId) (op : OperationRecord) (reference : RecoveryRef)
    (c : Checkpoint) : Checkpoint :=
  putOperation id { op with recovery := some reference, state := .running } c

def attach (id : OperationId) (reference : RecoveryRef) : Handler Unit := do
  let e ← Program.read
  match e.current.active.operations[id]? with
  | none => Program.fail (.invalid "unknown operation resolution")
  | some op => do
    Program.require (op.state.terminal = false) (.invalid "cannot attach terminal work")
    commit cfg (stageAttach id op reference e.current) (.operation id .running) .unchanged

/-- An unfinished provider operation that this generation started. -/
def ownsProviderWork (generationId : String) (c : Checkpoint) : Bool :=
  c.active.operations.toList.any fun (_, op) =>
    !op.state.terminal && !op.owner.host && op.origin.generationId = some generationId

def CommandIntent.generates (generationId : String) : CommandIntent → Bool
  | .generate id _ _ _ => id = generationId
  | _ => false

/-- The model is called again, as after a continuation response. -/
def stageAbandon (generationId : String) (c : Checkpoint) : Checkpoint :=
  { c with
    active.commands := c.active.commands.filter fun command =>
      !CommandIntent.generates generationId command.intent
    active.session.responseStatus := some .continuation
    active.session.needsGeneration := true }

def abandonGeneration (generationId reason : String) : Handler Unit := do
  let e ← Program.read
  Program.require (e.current.supports .localProjection = true)
    (.invalid "only a local projection session can abandon a generation")
  Program.require (e.current.active.session.generationId = some generationId ∧
      e.current.active.session.responseStatus = none)
    (.invalid "generation resolution has no matching unfinished generation")
  Program.require (ownsProviderWork generationId e.current = false)
    (.invalid "settle the abandoned generation's provider operations first")
  commit cfg (stageAbandon generationId e.current) (.generationAbandoned generationId reason)
    .unchanged

def resolve : RecoveryResolution → Handler Unit
  | .complete id outcome => finish cfg id outcome
  | .abandon id reason => finish cfg id (.cancelled reason)
  | .attach id reference => attach cfg id reference
  | .abandonGeneration generationId reason => abandonGeneration cfg generationId reason

/-- Entry, admitted position and delivery command of one input. -/
def stageInsert (entry : HistoryEntry) (commandId : String) (c : Checkpoint) :
    Result Checkpoint := do
  let history ← c.history.append [entry]
  return appendCommand commandId c.history.len .submitted none
    { c with
      history
      active.session.inputPosition := c.active.session.inputPosition + 1
      active.session.needsGeneration := true }

def insert (message : Message) (source : String) : Handler String := do
  let e ← Program.read
  Program.require
    (¬ ((e.current.active.session.inputClosed ∧ message.isUser) ∨
      e.current.active.session.closing))
    (.invalid "user input is sealed")
  Program.lift message.validate
  let id ← newId cfg
  let commandId ← newId cfg
  let entry : HistoryEntry := ⟨.inserted id, none, message⟩
  let next ← Program.lift (stageInsert entry commandId e.current)
  commit cfg next (.conversationInsert source) (.append [entry])
  return id

def pause (suspension : Suspension) : Handler String := do
  let e ← Program.read
  commit cfg (setState (.suspended suspension) e.current) (.control .suspended) .unchanged
  newId cfg

/-- One above the latest revision that is pending or acknowledged. -/
def nextProfileRevision (c : Checkpoint) : Nat :=
  let pending := c.active.commands.filterMap fun command =>
    match command.intent with
    | .updateProfile revision _ => some revision
    | _ => none
  pending.max?.getD c.active.session.profileRevision + 1

def updateProfile (profile : RequestProfile) : Handler String := do
  let e ← Program.read
  Program.require (e.supports cfg .profileUpdates = true)
    (.invalid "model does not support running profile updates")
  let request := { e.modelRequest e.current.history.entries with profile }
  let _ ← Program.lift (e.negotiate cfg request)
  prepareCommand cfg (.updateProfile (nextProfileRevision e.current) profile)

def interruptOutput : Handler String := do
  let e ← Program.read
  Program.require (e.supports cfg .interruptOutput = true)
    (.invalid "model does not support native interruption")
  match e.current.active.session.generationId with
  | none => Program.fail (.invalid "no generation to interrupt")
  | some generationId => do
    let epoch := e.current.active.session.outputEpoch + 1
    Program.require (epoch ≤ maxU64) (.invalid "output epoch overflow")
    prepareCommand cfg (.interruptOutput generationId epoch)

/-- Controls of open input: a declared capability, and input not closed. -/
def inputControl (capability : Capability) (unsupported : String) (intent : CommandIntent) :
    Handler String := do
  let e ← Program.read
  Program.require (e.supports cfg capability = true) (.invalid unsupported)
  Program.require (e.current.active.session.inputClosed = false) (.invalid "input is closed")
  prepareCommand cfg intent

def flushInput : Handler String :=
  inputControl cfg .flushInput "session does not support input flushing" .flushInput

def setInputAudio (enabled : Bool) : Handler String :=
  inputControl cfg .inputAudioControl "session does not support audio input control"
    (.setInputAudio enabled)

def perform (effect : Effect) (e : Engine) : Engine :=
  { e with world.trace := effect :: e.world.trace }

/-- Cancellation reaches the running worker through its token and its control. -/
def Engine.requestCancel (id : OperationId) (e : Engine) : Engine :=
  let e := if id ∈ e.tokens then perform (.cancelled id) e else e
  if id ∈ e.operationControls then e.spawn (.cancel id true) else e

theorem Engine.requestCancel_eq (id : OperationId) (e : Engine) :
    e.requestCancel id =
      { e with
        world.trace := if id ∈ e.tokens then .cancelled id :: e.world.trace else e.world.trace
        tasks := if id ∈ e.operationControls then e.tasks ++ [.cancel id true] else e.tasks } := by
  unfold Engine.requestCancel
  by_cases ht : id ∈ e.tokens
  · by_cases hc : id ∈ e.operationControls <;> simp [ht, hc, perform, Engine.spawn]
  · by_cases hc : id ∈ e.operationControls <;> simp [ht, hc, Engine.spawn]

def cancelOperation (id : OperationId) : Handler OperationId := do
  let e ← Program.read
  match e.current.active.operations[id]? with
  | none => Program.fail (.invalid "unknown operation")
  | some record =>
    if record.state.terminal then return id
    else if record.state = .queued then do
      finish cfg id (.cancelled "cancelled before dispatch")
      return id
    else do
      commit cfg (putOperation id { record with state := .cancelling } e.current)
        (.operation id .cancelling) .unchanged
      Program.modify (Engine.requestCancel id)
      return id

def Engine.awaitReply (id : OperationId) (value : Value) (e : Engine) : Engine :=
  { e with pendingReplies := id :: e.pendingReplies, tasks := e.tasks ++ [.reply id value] }

def replyOperation (id : OperationId) (value : Value) : Handler OperationId := do
  let e ← Program.read
  Program.require (id ∈ e.operationControls) (.invalid "operation has no input channel")
  -- The reply is an external effect behind a durable uncertain boundary.
  unknown cfg id "reply awaiting external confirmation"
  Program.modify (Engine.awaitReply id value)
  return id

/-- What a receipt names: the command or entry of the intent, or the operation it is about. -/
inductive IntentId
  | command (id : String)
  | operation (id : OperationId)
  deriving DecidableEq, Repr

structure ControlReceipt where
  commandId : IntentId
  revision : Nat
  deriving DecidableEq, Repr

def controlBody : ControlBody → Handler IntentId
  | .input message source => do return .command (← insert cfg message source)
  | .pause suspension => do return .command (← pause cfg suspension)
  | .updateProfile profile => do return .command (← updateProfile cfg profile)
  | .interruptOutput => do return .command (← interruptOutput cfg)
  | .flushInput => do return .command (← flushInput cfg)
  | .setInputAudio enabled => do return .command (← setInputAudio cfg enabled)
  | .sealUserInput => do return .command (← prepareCommand cfg .sealUserInput)
  | .cancelOperation id => do return .operation (← cancelOperation cfg id)
  | .replyOperation id value => do return .operation (← replyOperation cfg id value)

/-- The reply to the caller: an error, or a receipt with the revision of the checkpoint. -/
def controlReply (body : ControlBody) : Handler (Result ControlReceipt) := do
  let result ← (controlBody cfg body).attempt
  let e ← Program.read
  return result.map fun commandId => ⟨commandId, e.current.revision⟩

/-- A refused control is reported to its caller; only an infrastructure failure stops the
execution. -/
def control (body : ControlBody) : Handler Unit := do
  let reply ← controlReply cfg body
  match reply with
  | .error error => if error.infrastructure then Program.fail error else pure ()
  | .ok _ => pure ()

/-- What recovery leaves uncertain about the session itself. -/
def uncertainSession (e : Engine) : Bool :=
  let session := e.current.active.session
  session.busyGeneration || e.current.active.commands.any PendingCommand.sent ||
    !e.current.active.media.isEmpty ||
    (decide (session.establishment ≠ .new) && !e.localProjection cfg)

def hasUnknown (c : Checkpoint) : Bool :=
  c.active.operations.toList.any fun (_, op) => op.state = .unknown

def applyRecovery : Request → Handler Unit
  | .start .. => pure ()
  | .recover _ messages resolutions _ => do
    Program.forEach (resolve cfg) resolutions
    Program.forEach (fun message => do let _ ← insert cfg message "resume") messages
    let e ← Program.read
    if hasUnknown e.current then suspend cfg .recovery
    else if e.current.active.session.recovery.isSome then pure ()
    else if uncertainSession cfg e then suspend cfg .recovery
    else pure ()

end Zhir.Kernel
