import Zhir.Kernel.Operations

/-!
Session events: staging them on a checkpoint, batching them, and committing the batch.
-/

set_option autoImplicit false
set_option relaxedAutoImplicit false

namespace Zhir.Kernel

open Zhir.Core
open Zhir.Library (Program)

variable (cfg : Config)

def stageReady (contextRevision : Nat) (next : Checkpoint) : Result Checkpoint :=
  if next.active.session.ready then .error (.protocol "duplicate session ready")
  else if contextRevision ≠ next.active.session.acknowledgedContextRevision then
    .error (.protocol "initial projection revision mismatch")
  else .ok
    { next with active.session.ready := true, active.session.establishment := .established }

/-- A session without explicit generation opens its generations by itself. -/
def openGeneration (generationId : String) (inputPosition : Nat) (next : Checkpoint) :
    Result Checkpoint :=
  if generationId = "" ∨ inputPosition > next.active.session.inputPosition ∨
      next.active.session.busyGeneration then
    .error (.protocol "overlapping or invalid automatic generation")
  else .ok
    { next with
      active.session.generationId := some generationId
      active.session.generatedInputPosition := inputPosition
      active.session.generationStarted := false
      active.session.responseStatus := none
      active.session.responseStart := next.history.len }

/-- A streaming task's user input ends with the start of its response. -/
def sealsInput (capabilities : CapabilitySet) (next : Checkpoint) : Bool :=
  next.options.mode = .task && capabilities.supports .streamingInput

def stageStarted (capabilities : CapabilitySet) (generationId : String) (inputPosition : Nat)
    (commandId : String) (next : Checkpoint) : Result Checkpoint := do
  if capabilities.supports .responseEvents = false then
    throw (.protocol "undeclared response events")
  let next ←
    if capabilities.supports .explicitGeneration then .ok next
    else openGeneration generationId inputPosition next
  if next.active.session.generationStarted ∨
      next.active.session.generationId ≠ some generationId ∨
      next.active.session.generatedInputPosition ≠ inputPosition then
    throw (.protocol "unexpected response start")
  let next := { next with active.session.generationStarted := true }
  if sealsInput capabilities next then
    return pushCommand commandId .sealUserInput false
      { next with active.session.inputClosed := true }
  else return next

def Output.isContent : Output → Bool
  | .content _ => true
  | _ => false

/-- Whole messages of a user, or of an assistant with nothing but content. -/
def conversational : Message → Bool
  | .user _ => true
  | .assistant output _ => output.all Output.isContent
  | _ => false

/-- `stage_entries`: canonical entries of an explicitly generating session are echoed back
into its context. -/
def stageEntry (capabilities : CapabilitySet) (commandId : String) (entry : HistoryEntry)
    (next : Checkpoint) : Result Checkpoint := do
  let history ← next.history.append [entry]
  if capabilities.supports .explicitGeneration then
    return appendCommand commandId next.history.len .accepted none { next with history }
  else return { next with history }

def stageConversationItem (capabilities : CapabilitySet) (itemId : String) (message : Message)
    (commandId : String) (next : Checkpoint) : Result Checkpoint := do
  if capabilities.supports .conversationItems = false ∨ itemId = "" ∨
      conversational message = false then
    throw (.protocol "invalid conversation item")
  message.validate
  let entry : HistoryEntry :=
    ⟨.conversation next.active.session.id itemId, none, message⟩
  match next.history.byId entry.id with
  | some previous =>
    if previous ≠ entry then throw (.protocol "conflicting conversation item") else return next
  | none => stageEntry capabilities commandId entry next

/-- Retire the acknowledged command with what its kind settles. -/
def settleCommand (negotiated : List HistoryEntry → RequestProfile → Result NegotiatedProfile)
    (intent : CommandIntent) (next : Checkpoint) : Result Checkpoint :=
  let contextual (revision : Nat) (next : Checkpoint) : Result Checkpoint :=
    if revision ≠ next.active.session.acknowledgedContextRevision + 1 then
      .error (.protocol "out-of-order projection acknowledgement")
    else .ok { next with active.session.acknowledgedContextRevision := revision }
  match intent with
  | .append _ contextRevision _ _ operationId =>
    contextual contextRevision <| match operationId with
      | some id => { next with active.operations := next.active.operations.erase id }
      | none => next
  | .replaceContext contextRevision => contextual contextRevision next
  | .updateProfile revision profile => do
    let negotiated ← negotiated next.history.entries profile
    return { next with
      active.session.negotiated := negotiated
      active.session.effective := negotiated.unconfirmed
      active.session.profileRevision := revision
      active.session.profile := profile }
  | _ => .ok next

def stageAcknowledged
    (negotiated : List HistoryEntry → RequestProfile → Result NegotiatedProfile)
    (commandId : String) (recovery : Option RecoveryRef) (next : Checkpoint) :
    Result Checkpoint := do
  match next.active.commands.find? (fun c => c.id = commandId) with
  | none => throw (.protocol "acknowledgement has no pending command")
  | some command =>
    let next ← settleCommand negotiated command.intent
      { next with active.commands := next.active.commands.eraseP fun c => c.id = commandId }
    return { next with
      active.session.recovery := recovery.or next.active.session.recovery }

def Output.callId (itemId : String) : Output → String
  | .delegation request => request.id
  | .runtimeToolCall call => call.id
  | .providerToolCall call => call.id
  | .content _ => itemId

/-- The unfinished provider operation a provider call report continues. -/
def continuedOperation (output : Output) (callerId : String) (next : Checkpoint) :
    Option OperationRecord :=
  match output with
  | .providerToolCall call =>
    (next.active.operations.toList.map Prod.snd).find? fun op =>
      !op.state.terminal && op.origin.callId = call.id && op.origin.callerId = callerId &&
        op.owner = .provider call.provider
  | _ => none

def providerState : ProviderToolStatus → OperationState
  | .pending | .running => .running
  | .failed | .incomplete => .failed
  | .cancelled => .cancelled
  | .completed => .succeeded

def unfinishedCount (next : Checkpoint) : Nat :=
  next.active.operations.toList.countP fun (_, op) => !op.state.terminal

/-- `record_output`: calls become operations. -/
def recordOutput (capabilities : CapabilitySet) (output : Output) (origin : CallRef)
    (operationId : String) (next : Checkpoint) : Result Checkpoint :=
  match output with
  | .delegation _ =>
    if capabilities.supports .delegation = false then
      .error (.protocol "undeclared delegation capability")
    else if next.active.operations.size ≥ next.options.limits.maxInflightOperations then
      .error (.invalid "inflight operation capacity exceeded")
    else
      let id := OperationId.host operationId
      .ok (putOperation id (.admitted id origin .delegation .queued next.history.len) next)
  | .runtimeToolCall call =>
    if unfinishedCount next ≥ next.options.limits.maxInflightOperations then
      .error (.invalid "inflight operation capacity exceeded")
    else
      let id := OperationId.host operationId
      .ok (putOperation id
        (.admitted id origin (.runtimeTool call.name) .queued next.history.len) next)
  | .providerToolCall call =>
    let id := providerOperationId origin
    let state := providerState call.status
    let record := next.active.operations[id]?.getD
      (.admitted id origin (.provider call.provider) state next.history.len)
    .ok (putOperation id
      { record with
        state
        resultEntry := if state.terminal then some next.history.len else none } next)
  | .content _ => .ok next

structure OutputEvent where
  generationId : Option String
  itemId : String
  callerId : String
  output : Output

def OutputEvent.origin (o : OutputEvent) (next : Checkpoint) : CallRef :=
  match continuedOperation o.output o.callerId next with
  | some existing => existing.origin
  | none =>
    { sessionId := next.active.session.id
      itemId := o.itemId
      generationId := o.generationId
      callerId := o.callerId
      callId := Output.callId o.itemId o.output }

def OutputEvent.entry (o : OutputEvent) (next : Checkpoint) : HistoryEntry :=
  let origin := o.origin next
  { id := .output next.active.session.id o.generationId origin.callerId o.itemId
    origin := some origin
    message := .assistant [o.output] .null }

/-- Output of a generation that is not the one being answered. -/
def OutputEvent.foreign (o : OutputEvent) (next : Checkpoint) : Bool :=
  o.generationId.isSome &&
    (next.active.session.generationId ≠ o.generationId ||
      next.active.session.responseStatus.isSome || !next.active.session.generationStarted)

/-- `stage_output`. A repeated item changes nothing. -/
def stageOutput (capabilities : CapabilitySet) (o : OutputEvent) (operationId commandId : String)
    (next : Checkpoint) : Result Checkpoint := do
  if o.foreign next then throw (.protocol "output belongs to another generation")
  validateOutput [o.output]
  if o.itemId = "" ∨ o.callerId = "" then
    throw (.protocol "output requires nonempty item and caller identities")
  match next.history.byId (o.entry next).id with
  | some previous =>
    if previous ≠ o.entry next then throw (.protocol "conflicting output identity")
    else return next
  | none =>
    let recorded ← recordOutput capabilities o.output (o.origin next) operationId next
    stageEntry capabilities commandId (o.entry next) recorded

def OutputEvent.late (o : OutputEvent) (next : Checkpoint) : Bool :=
  (next.history.byId (o.entry next).id).isNone && next.active.session.closing &&
    !Output.isContent o.output

def optionalText : Option String → Value
  | some text => .string text
  | none => .null

/-- Completion metadata is kept beside the provider's own data. -/
def completionData (r : ResponseCompletion) : Value :=
  let completion := Value.object
    [("finish_reason", optionalText r.finishReason), ("model_id", optionalText r.modelId),
      ("response_id", optionalText r.responseId)]
  match r.providerData with
  | .object fields => .object (Value.insertField fields "completion" completion)
  | data => .object [("completion", completion), ("native", data)]

def completionEntry (r : ResponseCompletion) (next : Checkpoint) : HistoryEntry where
  id := .finished next.active.session.id r.generationId
  origin := some
    { sessionId := next.active.session.id
      itemId := r.generationId ++ ":finished"
      generationId := some r.generationId
      callerId := "model"
      callId := "completion" }
  message := .assistant [] (completionData r)

/-- Terminal provider operations leave with the response that reported them. -/
def retainOperations (operations : Operations) : Operations :=
  (operations.toList.filter fun (_, op) => !op.owner.host && op.state.terminal).foldl
    (fun kept entry => kept.erase entry.1) operations

def responseState (status : ResponseStatus) (metrics : Metrics) (limit : Option Nat)
    (state : State) : State :=
  if limit.any (fun limit => metrics.usage.totalTokens.any fun tokens => tokens ≥ limit) then
    .limited .totalTokens
  else match status with
    | .failed | .incomplete =>
      .failed ⟨"generation_failed", "model response did not finish successfully", false⟩
    | .cancelled => .cancelled
    | _ => state

/-- The checkpoint with the response settled, before its completion entry. -/
def settleResponse (r : ResponseCompletion) (next : Checkpoint) : Checkpoint :=
  let session := next.active.session
  let metrics := { next.metrics with
    usage := next.metrics.usage.add r.usage
    observedResponses := some (next.metrics.observedResponses.getD 0 + 1) }
  { next with
    active.session.generatedInputPosition := r.inputPosition
    active.session.responseStatus := some r.responseStatus
    active.session.effective :=
      EffectiveProfile.extend session.negotiated.unconfirmed r.effective
    active.session.needsGeneration :=
      r.responseStatus = .continuation || r.responseStatus = .requiresResults ||
        session.inputPosition > r.inputPosition
    active.operations := retainOperations next.active.operations
    metrics
    state := responseState r.responseStatus metrics next.options.limits.maxTotalTokens next.state }

/-- `complete_response` followed by its entry. -/
def stageFinished (capabilities : CapabilitySet) (r : ResponseCompletion) (commandId : String)
    (next : Checkpoint) : Result Checkpoint := do
  let session := next.active.session
  if session.generationId ≠ some r.generationId ∨ session.responseStatus.isSome ∨
      session.generationStarted = false then
    throw (.protocol "duplicate or foreign response completion")
  if r.inputPosition < session.generatedInputPosition ∨ r.inputPosition > session.inputPosition then
    throw (.protocol "response input position is outside its admitted range")
  stageEntry capabilities commandId (completionEntry r next) (settleResponse r next)

def stageRecovery (reference : RecoveryRef) (next : Checkpoint) : Checkpoint :=
  { next with active.session.recovery := some reference }

def stageClosed (reason : String) (providerData : Value) (next : Checkpoint) :
    Result Checkpoint :=
  if reason = "" ∨ next.active.session.closure.isSome then
    .error (.protocol "invalid or duplicate session closure")
  else .ok
    { next with
      active.session.closure := some ⟨reason, providerData⟩
      active.session.inputClosed := true }

/-- What staging one event asks for once its batch is committed. -/
structure EventEffects where
  sealUserInput : Bool := false
  suspend : Bool := false
  providerState : Bool := false
  deriving DecidableEq, Repr

/-- A closed session that still owes something needs recovery. -/
def closedWithWork (next : Checkpoint) : Bool :=
  next.active.session.closure.isSome &&
    (next.unfinished || !next.active.commands.isEmpty || next.active.session.busyGeneration)

def withSequence (sequence : Nat) (next : Checkpoint) : Checkpoint :=
  { next with active.session.lastSequence := some sequence }

def Engine.negotiated (e : Engine) (entries : List HistoryEntry) (profile : RequestProfile) :
    Result NegotiatedProfile :=
  e.negotiate cfg { e.modelRequest entries with profile }

/-- The staged checkpoint an event leads to. `operationId` and `commandId` are the
identities it may use up. -/
def stageEvent (e : Engine) (body : SessionEventBody) (operationId commandId : String)
    (next : Checkpoint) : Result Checkpoint :=
  let capabilities := e.capabilities cfg
  match body with
  | .ready contextRevision => stageReady contextRevision next
  | .responseStarted generationId inputPosition =>
    stageStarted capabilities generationId inputPosition commandId next
  | .conversationItem itemId message =>
    stageConversationItem capabilities itemId message commandId next
  | .acknowledged id recovery => stageAcknowledged (e.negotiated cfg) id recovery next
  | .output generationId itemId callerId output =>
    stageOutput capabilities ⟨generationId, itemId, callerId, output⟩ operationId commandId next
  | .responseFinished completion => stageFinished capabilities completion commandId next
  | .recovery reference => .ok (stageRecovery reference next)
  | .closed reason providerData => stageClosed reason providerData next
  | .operation _ _ | .delta _ _ => .ok next

/-- The checkpoint whose closure decides about suspension: a completion entry is staged
only afterwards. -/
def beforeEntry (body : SessionEventBody) (before after : Checkpoint) : Checkpoint :=
  match body with
  | .responseFinished completion => settleResponse completion before
  | .conversationItem _ _ => before
  | _ => after

def eventEffects (capabilities : CapabilitySet) (body : SessionEventBody)
    (before after : Checkpoint) : EventEffects :=
  match body with
  | .output generationId itemId callerId output =>
    { suspend := OutputEvent.late ⟨generationId, itemId, callerId, output⟩ before
      providerState := match output with
        | .providerToolCall _ => true
        | _ => false }
  | .responseStarted _ _ =>
    { sealUserInput := sealsInput capabilities before
      suspend := closedWithWork after }
  | _ => { suspend := closedWithWork (beforeEntry body before after) }

/-- In-memory traces of a staged event: an acknowledged command may not be sent again, and
a closed session takes no more host media. -/
def Engine.noteEvent (body : SessionEventBody) (e : Engine) : Engine :=
  match body with
  | .acknowledged commandId _ => { e with sent := e.sent.filter (· ≠ commandId) }
  | .closed _ _ => e.closeMedia
  | _ => e

def applyEvent (sequence : Nat) (body : SessionEventBody) (next : Checkpoint) :
    Handler (Checkpoint × EventEffects) := do
  let operationId ← newId cfg
  let commandId ← newId cfg
  let e ← Program.read
  let before := withSequence sequence next
  let after ← Program.lift (stageEvent cfg e body operationId commandId before)
  Program.modify (Engine.noteEvent body)
  return (after, eventEffects (e.capabilities cfg) body before after)

/-- Whether the event is new rather than a replay of a committed one. -/
def freshSequence (sequence : Nat) : Handler Bool := do
  let e ← Program.read
  Program.require (e.sessionSequence.all (fun previous => sequence > previous))
    (.protocol "session event sequence did not increase")
  Program.modify fun e => { e with sessionSequence := some sequence }
  return e.current.active.session.lastSequence.all fun previous => sequence > previous

/-- Session events applied to one checkpoint and committed together. -/
structure SessionBatch where
  staged : Option (Checkpoint × Nat) := none
  events : Nat := 0
  effects : EventEffects := {}

namespace SessionBatch

/-- Sealing, suspending, leaving the running state or touching a provider operation ends
the batch before any later event. -/
def closed (b : SessionBatch) : Bool :=
  b.effects.sealUserInput || b.effects.suspend || b.effects.providerState ||
    b.staged.any fun s => !s.1.state.active

def add (b : SessionBatch) (sequence : Nat) (result : Checkpoint × EventEffects) :
    SessionBatch where
  staged := some (result.1, sequence)
  events := b.events + 1
  effects :=
    { sealUserInput := b.effects.sealUserInput || result.2.sealUserInput
      suspend := b.effects.suspend || result.2.suspend
      providerState := b.effects.providerState || result.2.providerState }

def base (b : SessionBatch) (current : Checkpoint) : Checkpoint :=
  (b.staged.map Prod.fst).getD current

end SessionBatch

/-- Deltas and provider operation events are handled on their own. -/
def batchable : SessionEventBody → Bool
  | .delta _ _ | .operation _ _ => false
  | _ => true

def batchableEvent : Work → Option SessionEvent
  | .model (.ok (some event)) => if batchable event.body then some event else none
  | _ => none

def Engine.setQueue (queue : List Work) (e : Engine) : Engine := { e with queue }

def Engine.setStash (work : Work) (e : Engine) : Engine := { e with stashed := some work }

/-- The inner loop of `collect` over the queued work. A failure keeps what was staged. -/
def collectQueued (batch : SessionBatch) : List Work → Handler (SessionBatch × Result Unit)
  | [] => return (batch, .ok ())
  | work :: rest => do
    let e ← Program.read
    if batch.closed = true ∨ batch.events ≥ e.current.options.limits.maxSessionEvents then
      return (batch, .ok ())
    else do
      Program.modify (Engine.setQueue rest)
      match batchableEvent work with
      | none => do
        Program.modify (Engine.setStash work)
        return (batch, .ok ())
      | some event => do
        let fresh ← (freshSequence event.sequence).attempt
        match fresh with
        | .error error => return (batch, .error error)
        | .ok false => collectQueued batch rest
        | .ok true => do
          let applied ← (applyEvent cfg event.sequence event.body (batch.base e.current)).attempt
          match applied with
          | .error error => return (batch, .error error)
          | .ok result => collectQueued (batch.add event.sequence result) rest

/-- `collect`: the first event, then the session events queued behind it. -/
def collect (sequence : Nat) (body : SessionEventBody) :
    Handler (SessionBatch × Result Unit) := do
  let e ← Program.read
  let applied ← (applyEvent cfg sequence body e.current).attempt
  match applied with
  | .error error => return ({}, .error error)
  | .ok result => collectQueued cfg (SessionBatch.add {} sequence result) e.queue

def batchDelta (entries : List HistoryEntry) : HistoryDelta :=
  if entries.isEmpty then .unchanged else .append entries

def commitSession (next : Checkpoint) (sequence : Nat) : Handler Unit := do
  let e ← Program.read
  let entries ← Program.lift (next.history.appendedSince e.current.history)
  commit cfg next (.session e.current.active.session.id sequence) (batchDelta entries)

def commitBatch (batch : SessionBatch) : Handler Unit :=
  match batch.staged with
  | some (next, sequence) => commitSession cfg next sequence
  | none => pure ()

def sessionBatch (sequence : Nat) (body : SessionEventBody) : Handler Unit := do
  let (batch, staged) ← collect cfg sequence body
  commitBatch cfg batch
  Program.lift staged
  Program.when (batch.effects.sealUserInput = true) (Program.modify Engine.closeMedia)
  Program.when (batch.effects.suspend = true) (suspend cfg .recovery)

/-- The session cursor moves behind a provider event in a commit of its own. -/
def commitSequence (sequence : Nat) : Handler Unit := do
  let e ← Program.read
  commit cfg (withSequence sequence e.current)
    (.session e.current.active.session.id sequence) .unchanged

def operationOf (origin : CallRef) (c : Checkpoint) : Option OperationRecord :=
  (c.active.operations.toList.map Prod.snd).find? fun op => op.origin = origin

def providerEvent (sequence : Nat) (origin : CallRef) (event : OperationEvent) :
    Handler Unit := do
  let e ← Program.read
  match operationOf origin e.current with
  | none =>
    match event.update with
    | .finished outcome => do
      finish cfg (providerOperationId origin) outcome
      commitSequence cfg sequence
    | _ => Program.fail (.protocol "provider operation has no call")
  | some record => do
    Program.require (record.owner.host = false) (.protocol "model cannot own local tool operations")
    Program.require (record.id ∈ e.current.active.operations)
      (.protocol "provider operation must be introduced by an output item")
    operationEvent cfg record.id event
    commitSequence cfg sequence

/-- `model_event`. Deltas are observations only. -/
def modelEvent (event : SessionEvent) : Handler Unit := do
  let fresh ← freshSequence event.sequence
  if fresh then
    match event.body with
    | .delta _ _ => pure ()
    | .operation origin operationEvent => providerEvent cfg event.sequence origin operationEvent
    | body => sessionBatch cfg event.sequence body
  else pure ()

end Zhir.Kernel
