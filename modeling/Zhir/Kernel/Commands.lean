import Zhir.Kernel.Engine

/-!
The command outbox: preparing commands, and submitting them in order.
-/

set_option autoImplicit false
set_option relaxedAutoImplicit false

namespace Zhir.Kernel

open Zhir.Core
open Zhir.Library (Program)

variable (cfg : Config)

def pushCommand (id : String) (intent : CommandIntent) (sent : Bool) (next : Checkpoint) :
    Checkpoint :=
  { next with active.commands := next.active.commands ++ [⟨id, intent, sent⟩] }

/-- `append_command`: the entry becomes the next context revision. -/
def appendCommand (commandId : String) (entry : Nat) (source : AppendSource)
    (operationId : Option OperationId) (next : Checkpoint) : Checkpoint :=
  let revision := next.active.session.contextRevision + 1
  pushCommand commandId
    (.append entry revision next.active.session.inputPosition source operationId) false
    { next with active.session.contextRevision := revision }

/-- `archive_media`: the stream's segment chain moves behind the archive reference. -/
def archiveMedia (next : Checkpoint) : Handler Checkpoint := do
  Program.require (cfg.resources = true) (.invalid "media archive requires resource storage")
  let written ← ask cfg.archive
  let reference ← Program.lift written
  return { next with active.session.mediaArchive := some reference }

/-- Archive the given streams one after the other, dropping their cursors. -/
def retireStreams (next : Checkpoint) : List String → Handler Checkpoint
  | [] => pure next
  | key :: rest => do
    let next ← archiveMedia cfg next
    retireStreams { next with active.media := next.active.media.erase key } rest

/-- `ended_stream`: remember archived streams once the archive has been read. -/
def Engine.endStreams (keys : List String) (e : Engine) : Engine :=
  { e with endedStreams := e.endedStreams.map fun ended => keys ++ ended }

def Engine.closeMedia (e : Engine) : Engine := { e with mediaClosed := true }

/-- Session fields a command changes when its intent is committed. -/
def stageIntent (intent : CommandIntent) (next : Checkpoint) : Checkpoint :=
  match intent with
  | .close => { next with active.session.closing := true }
  | .interruptOutput _ outputEpoch => { next with active.session.outputEpoch := outputEpoch }
  | .sealUserInput => { next with active.session.inputClosed := true }
  | .setInputAudio enabled => { next with active.session.inputAudioEnabled := enabled }
  | _ => next

/-- Output streams end with the epoch an interruption retires. -/
def retiredStreams (intent : CommandIntent) (c : Checkpoint) : List String :=
  match intent with
  | .interruptOutput _ _ =>
    (c.active.media.toList.map Prod.fst).filter fun key => "output:".isPrefixOf key
  | _ => []

def prepareCommand (intent : CommandIntent) : Handler String := do
  let e ← Program.read
  Program.require
    (e.current.active.commands.length < e.current.options.limits.maxControlCommands)
    (.invalid "pending command capacity exceeded")
  let id ← newId cfg
  let archived := retiredStreams intent e.current
  let next ← retireStreams cfg (stageIntent intent e.current) archived
  commit cfg (pushCommand id intent false next) (.command id) .unchanged
  Program.modify (Engine.endStreams archived)
  Program.when (intent = .sealUserInput) (Program.modify Engine.closeMedia)
  return id

namespace Engine

def canSend (e : Engine) (command : PendingCommand) : Bool :=
  let busy := e.current.active.session.busyGeneration
  if command.id ∈ e.sent then false
  else match command.intent with
    | .sealUserInput | .close | .flushInput =>
      !e.inputSending && e.heldInput.isNone && e.media.isEmpty
    | .append _ _ _ source operationId =>
      if operationId.isSome && busy && !e.supports cfg .replaceContext then
        e.supports cfg .asyncResults
      else if source = .submitted && busy && !e.supports cfg .replaceContext then
        e.supports cfg .steering
      else true
    | _ => true

def commandBody (e : Engine) (intent : CommandIntent) : Result SessionCommandBody :=
  match intent with
  | .delegationContext operationId content =>
    match e.current.active.operations[operationId]? with
    | none => .error (.protocol "delegation context origin missing")
    | some op => .ok (.delegationContext operationId op.origin content)
  | .generate generationId contextRevision inputPosition profileRevision =>
    .ok (.generate generationId contextRevision inputPosition profileRevision)
  | .append entry contextRevision inputPosition source _ =>
    match e.current.history.get entry with
    | none => .error (.protocol "missing input entry")
    | some entry => .ok (.append entry contextRevision inputPosition source)
  | .replaceContext contextRevision =>
    .ok (.replaceContext e.current.history.entries contextRevision)
  | .updateProfile revision profile => .ok (.updateProfile revision profile)
  | .interruptOutput generationId outputEpoch => .ok (.interruptOutput generationId outputEpoch)
  | .flushInput => .ok .flushInput
  | .setInputAudio enabled => .ok (.setInputAudio enabled)
  | .sealUserInput => .ok .sealUserInput
  | .close => .ok .close

/-- Commands not yet submitted in this execution, in outbox order. -/
def unsent (e : Engine) : List PendingCommand :=
  e.current.active.commands.filter fun command => command.id ∉ e.sent

def nextCommand (e : Engine) : Option PendingCommand :=
  (e.unsent.head?).filter (e.canSend cfg)

/-- Local commands that follow the first one and need no durable boundary. -/
def localBatch (e : Engine) : List PendingCommand → Result (List SessionCommand)
  | [] => .ok []
  | next :: rest =>
    if next.intent.isGenerate || !e.canSend cfg next then .ok []
    else do
      let body ← e.commandBody next.intent
      let batch ← localBatch e rest
      return ⟨next.id, body⟩ :: batch

/-- Hand the batch to a task; its commands count as submitted from here on. -/
def submit (projection : Bool) (batch : List SessionCommand) (e : Engine) : Engine :=
  { e with
    sent := batch.map SessionCommand.id ++ e.sent
    sending := true
    tasks := e.tasks ++ [.submit projection batch] }

end Engine

def markSent (id : String) (next : Checkpoint) : Checkpoint :=
  { next with
    active.commands := next.active.commands.map fun c =>
      if c.id = id then { c with sent := true } else c }

/-- Everything but a local projection's own commands needs a durable send boundary; a
generation may have reached a service even there. -/
def durableSend (control : SessionControl) (command : PendingCommand) : Bool :=
  command.intent.isGenerate || !control.projection

def commitSent (command : PendingCommand) : Handler Unit := do
  let e ← Program.read
  commit cfg (markSent command.id e.current) (.command command.id) .unchanged

def followers (durable : Bool) (first : String) (e : Engine) : Result (List SessionCommand) :=
  if durable then .ok [] else e.localBatch cfg (e.unsent.filter fun c => c.id ≠ first)

def sendCommand (control : SessionControl) (command : PendingCommand) : Handler Unit := do
  let e ← Program.read
  let durable := durableSend control command
  let body ← Program.lift (e.commandBody command.intent)
  -- A crash after this commit is an uncertain send, never an implicit retry.
  Program.when (durable = true ∧ command.sent = false) (commitSent cfg command)
  check cfg
  let e ← Program.read
  let rest ← Program.lift (followers cfg durable command.id e)
  Program.modify (Engine.submit control.projection (⟨command.id, body⟩ :: rest))

def dispatchCommands : Handler Unit := do
  let e ← Program.read
  match e.sessionControl with
  | none => pure ()
  | some control =>
    if e.sending = true ∨ e.current.active.session.ready = false then pure ()
    else match e.nextCommand cfg with
      | none => pure ()
      | some command => sendCommand cfg control command

end Zhir.Kernel
