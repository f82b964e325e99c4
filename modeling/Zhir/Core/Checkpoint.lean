import Zhir.Core.History
import Zhir.Core.Model

/-!
Checkpoints: the complete durable state of a run, and their validation.
-/

set_option autoImplicit false
set_option relaxedAutoImplicit false

namespace Zhir.Core

structure RunContext where
  runId : String
  startedAtMs : Nat
  deadlineAtMs : Option Nat
  parentRunId : Option String
  parentRuntimeToolCallId : Option String
  metadata : List (String × Value)
  deriving DecidableEq, Repr

structure Suspension where
  reason : String
  source : String
  waitId : Option String
  metadata : List (String × Value)
  deriving DecidableEq, Repr

def Suspension.validate (s : Suspension) : Result Unit :=
  if s.reason = "" ∨ s.source = "" ∨ s.waitId = some "" then
    .error (.invalid "invalid suspension identity")
  else .ok ()

inductive LimitReason
  | deadline | generationRequests | runtimeToolCalls | totalTokens
  deriving DecidableEq, Repr

inductive State
  | running
  | suspended (suspension : Suspension)
  | completed (content : List Content)
  | failed (error : Failure)
  | cancelled
  | limited (reason : LimitReason)
  deriving DecidableEq, Repr

namespace State

def active : State → Bool
  | .running => true
  | _ => false

def terminal : State → Bool
  | .running | .suspended _ => false
  | _ => true

def isSuspended : State → Bool
  | .suspended _ => true
  | _ => false

def isCompleted : State → Bool
  | .completed _ => true
  | _ => false

def validate : State → Result Unit
  | .suspended suspension => suspension.validate
  | .completed content => validateAll Content.validate content
  | _ => .ok ()

end State

inductive CommandIntent
  | delegationContext (operationId : OperationId) (content : List Content)
  | generate (generationId : String) (contextRevision inputPosition profileRevision : Nat)
  | append (entry contextRevision inputPosition : Nat) (source : AppendSource)
      (operationId : Option OperationId)
  | replaceContext (contextRevision : Nat)
  | updateProfile (revision : Nat) (profile : RequestProfile)
  | interruptOutput (generationId : String) (outputEpoch : Nat)
  | flushInput
  | setInputAudio (enabled : Bool)
  | sealUserInput
  | close
  deriving DecidableEq, Repr

def CommandIntent.isGenerate : CommandIntent → Bool
  | .generate .. => true
  | _ => false

structure PendingCommand where
  id : String
  intent : CommandIntent
  sent : Bool
  deriving DecidableEq, Repr

inductive SessionEstablishment
  | new | opening | established
  deriving DecidableEq, Repr

structure SessionClosure where
  reason : String
  providerData : Value
  deriving DecidableEq, Repr

structure SessionSnapshot where
  binding : Option ModelBinding
  capabilities : Option CapabilitySet
  id : String
  generationId : Option String
  establishment : SessionEstablishment
  ready : Bool
  generationStarted : Bool
  contextRevision : Nat
  acknowledgedContextRevision : Nat
  reducedContextRevision : Option Nat
  inputPosition : Nat
  generatedInputPosition : Nat
  needsGeneration : Bool
  responseStart : Nat
  runStart : Nat
  lastSequence : Option Nat
  responseStatus : Option ResponseStatus
  recovery : Option RecoveryRef
  outputEpoch : Nat
  mediaArchive : Option ResourceRef
  inputClosed : Bool
  inputAudioEnabled : Bool
  closing : Bool
  closure : Option SessionClosure
  profileRevision : Nat
  profile : RequestProfile
  negotiated : NegotiatedProfile
  effective : EffectiveProfile
  deriving DecidableEq

/-- A generation was requested or started and its response is outstanding. -/
def SessionSnapshot.busyGeneration (s : SessionSnapshot) : Bool :=
  s.responseStatus.isNone && s.generationId.isSome

structure StreamCursor where
  sequence : Nat
  epoch : Nat
  sealed : ResourceRef
  deriving DecidableEq, Repr

/-- Media cursors by `{direction}:{stream}:{epoch}`. -/
abbrev MediaCursors := Std.ExtTreeMap String StreamCursor

structure ActiveState where
  session : SessionSnapshot
  operations : Operations
  commands : List PendingCommand
  media : MediaCursors
  deriving DecidableEq

structure Limits where
  maxGenerationRequests : Nat
  maxRuntimeToolCalls : Nat
  maxInflightOperations : Nat
  maxControlCommands : Nat
  maxSessionEvents : Nat
  maxMediaStreams : Nat
  maxMediaChunkBytes : Nat
  maxBufferedMediaBytes : Nat
  maxBufferedMediaPackets : Nat
  maxOperationConcurrency : Nat
  maxObserverEvents : Nat
  maxTotalTokens : Option Nat
  elapsedMs : Option Nat
  commitTimeoutMs : Nat
  deriving DecidableEq, Repr

def Limits.validate (l : Limits) : Result Unit :=
  if l.maxInflightOperations = 0 ∨ l.maxControlCommands = 0 ∨ l.maxSessionEvents = 0 ∨
      l.maxObserverEvents = 0 ∨ l.maxMediaStreams = 0 ∨ l.maxBufferedMediaPackets = 0 ∨
      (∃ size ∈ [l.maxControlCommands, l.maxSessionEvents, l.maxObserverEvents,
        l.maxBufferedMediaPackets], size > maxU32) ∨
      l.maxBufferedMediaBytes > maxU32 ∨ l.maxMediaChunkBytes = 0 ∨
      l.maxBufferedMediaBytes < l.maxMediaChunkBytes ∨ l.maxOperationConcurrency = 0 ∨
      l.commitTimeoutMs = 0 then
    .error (.invalid "invalid queue, media, concurrency or commit limits")
  else .ok ()

inductive RuntimeToolSelection
  | all
  | only (names : List String)
  | none
  deriving DecidableEq, Repr

def RuntimeToolSelection.validateNames (seen : List String) : List String → Result Unit
  | [] => .ok ()
  | name :: rest =>
    if name = "" then .error (.arguments "empty runtime tool name")
    else if name ∈ seen then
      .error (.arguments ("duplicate runtime tool " ++ name ++ " in [\"selection\"]"))
    else validateNames (name :: seen) rest

def RuntimeToolSelection.validate : RuntimeToolSelection → Result Unit
  | .only names => validateNames [] names
  | _ => .ok ()

structure RunOptions where
  runtimeTools : RuntimeToolSelection
  limits : Limits
  profile : RequestProfile
  mode : RunMode
  providerTools : List ProviderToolSpec
  toolChoice : ToolChoice
  responseFormat : Option ResponseFormat
  stream : Bool
  deriving DecidableEq, Repr

def RunOptions.validate (o : RunOptions) : Result Unit := do
  o.limits.validate
  o.runtimeTools.validate
  if o.profile.finiteTemperature = false then
    throw (.invalid "nonfinite model temperature")
  let identities := o.providerTools.map fun t => (t.provider, t.name)
  if (o.providerTools.any fun t => t.provider = "" || t.name = "") ∨ ¬ identities.Nodup then
    throw (.invalid "provider declarations require unique nonempty identities")
  match o.toolChoice with
  | .providerTool provider name =>
    if (provider, name) ∈ identities then return ()
    else throw (.invalid "selected provider tool is unavailable")
  | _ => return ()

structure Metrics where
  generationRequests : Nat := 0
  observedResponses : Option Nat := none
  runtimeToolCalls : Nat := 0
  usage : Usage := {}
  deriving DecidableEq, Repr

inductive ControlAction
  | finished | failed | limited | suspended | cancelled
  deriving DecidableEq, Repr

inductive Fact
  | started
  | attached
  | session (sessionId : String) (sequence : Nat)
  | operation (operationId : OperationId) (state : OperationState)
  | command (commandId : String)
  | conversationInsert (source : String)
  | historyRewrite (reason : String)
  | control (action : ControlAction)
  | media (streamId : String) (sequence : Nat)
  | generationAbandoned (generationId reason : String)
  deriving DecidableEq, Repr

def Fact.isHistoryRewrite : Fact → Bool
  | .historyRewrite _ => true
  | _ => false

structure Checkpoint where
  options : RunOptions
  id : String
  parentId : Option String
  revision : Nat
  context : RunContext
  history : History
  state : State
  active : ActiveState
  metrics : Metrics
  fact : Fact
  deriving DecidableEq

structure HistoryRewrite where
  entries : List HistoryEntry
  reason : String
  deriving DecidableEq, Repr

def firstError (raise : String → Error) : List (Bool × String) → Result Unit
  | [] => .ok ()
  | (violated, message) :: rest =>
    if violated then .error (raise message) else firstError raise rest

def firstViolation : List (Bool × String) → Result Unit := firstError .invalid

theorem firstError_ok {raise : String → Error} {checks : List (Bool × String)}
    (h : firstError raise checks = .ok ()) : ∀ c ∈ checks, c.1 = false := by
  induction checks with
  | nil => simp
  | cons c rest ih =>
    obtain ⟨violated, message⟩ := c
    cases violated with
    | true => simp [firstError] at h
    | false =>
      simp only [firstError, Bool.false_eq_true, if_false] at h
      simpa using ih h

theorem firstError_of {raise : String → Error} {checks : List (Bool × String)}
    (h : ∀ c ∈ checks, c.1 = false) : firstError raise checks = .ok () := by
  induction checks with
  | nil => rfl
  | cons c rest ih =>
    obtain ⟨violated, message⟩ := c
    have hnot : violated = false := h _ List.mem_cons_self
    subst hnot
    exact ih fun c hc => h c (List.mem_cons_of_mem _ hc)

namespace Checkpoint

def supports (c : Checkpoint) (capability : Capability) : Bool :=
  c.active.session.capabilities.any (fun caps => caps.supports capability)

/-- Checks of one pending command against the rest of the checkpoint. -/
def validateCommand (c : Checkpoint) (command : PendingCommand) : Result Unit :=
  let session := c.active.session
  match command.intent with
  | .generate generationId contextRevision _ _ =>
    if contextRevision > session.contextRevision ∨ session.generationId ≠ some generationId then
      .error (.invalid "invalid turn command")
    else .ok ()
  | .interruptOutput generationId outputEpoch =>
    if session.generationId ≠ some generationId ∨ outputEpoch = 0 ∨
        outputEpoch > session.outputEpoch then
      .error (.invalid "invalid interrupt output epoch or turn")
    else .ok ()
  | .append entry _ _ _ operationId =>
    if (c.history.get entry).isNone then .error (.invalid "invalid input command")
    else match operationId with
      | none => .ok ()
      | some id =>
        match c.active.operations[id]? with
        | none => .error (.invalid "invalid result command")
        | some op =>
          if op.state.terminal = false ∨ op.resultEntry ≠ some entry then
            .error (.invalid "invalid result command")
          else .ok ()
  | .delegationContext operationId content =>
    match c.active.operations[operationId]? with
    | none => .error (.invalid "invalid delegation context command")
    | some op =>
      if op.owner ≠ .delegation then .error (.invalid "invalid delegation context command")
      else validateAll Content.validate content
  | .updateProfile revision _ =>
    if revision ≤ session.profileRevision then
      .error (.invalid "non-increasing profile revision")
    else .ok ()
  | _ => .ok ()

def callMatches (message : Message) (op : OperationRecord) (name : String) : Bool :=
  match message with
  | .assistant output _ => output.any fun
    | .runtimeToolCall call => call.name = name && call.id = op.origin.callId
    | _ => false
  | _ => false

def resultMatches (entry : HistoryEntry) (op : OperationRecord) (name : String) : Bool :=
  match entry.message with
  | .runtimeTool callId resultName outcome =>
    entry.origin = some op.origin && name = resultName && callId = op.origin.callId &&
      op.state = .ofOutcome outcome
  | _ => false

def delegationMatches (message : Message) (op : OperationRecord) : Bool :=
  match message with
  | .assistant output _ => output.any fun
    | .delegation request => request.id = op.origin.callId
    | _ => false
  | _ => false

def delegationResultMatches (entry : HistoryEntry) (op : OperationRecord) : Bool :=
  match entry.message with
  | .delegationResult id outcome =>
    entry.origin = some op.origin && id = op.origin.callId && op.state = .ofOutcome outcome
  | _ => false

/-- What an operation of each owner requires of its call entry, and of its result entry
once it has one. -/
def ownerViolations (c : Checkpoint) (op : OperationRecord) (callEntry : HistoryEntry) :
    List (Bool × String) :=
  let mismatched (matched : HistoryEntry → Bool) : Bool :=
    op.resultEntry.any fun i => !(c.history.get i).any matched
  match op.owner with
  | .runtimeTool name =>
    [(!callMatches callEntry.message op name, "operation call mismatch"),
      (mismatched fun e => resultMatches e op name, "operation outcome mismatch")]
  | .delegation =>
    [(!delegationMatches callEntry.message op, "delegation call mismatch"),
      (mismatched fun e => delegationResultMatches e op, "delegation outcome mismatch")]
  | .provider _ => []

def validateOperation (c : Checkpoint) (id : OperationId) (op : OperationRecord) :
    Result Unit := do
  op.validate
  match c.history.get op.callEntry with
  | none => throw (.invalid "missing operation call")
  | some callEntry => do
    firstViolation [(callEntry.origin ≠ some op.origin, "operation origin differs from history")]
    firstViolation (c.ownerViolations op callEntry)
    firstViolation [(id ≠ op.id || op.callEntry ≥ c.history.len ||
      op.resultEntry.any (fun i => i ≥ c.history.len), "operation history reference mismatch")]

def hasDelegation (c : Checkpoint) (origin : CallRef) : Bool :=
  c.active.operations.toList.any fun (_, op) =>
    op.origin = origin && op.owner = .delegation && !op.state.terminal

def hasCall (c : Checkpoint) (origin : CallRef) (name : String) : Bool :=
  c.active.operations.toList.any fun (_, op) =>
    op.origin = origin && !op.state.terminal && op.owner = .runtimeTool name

def validateOperations (c : Checkpoint) : Result Unit := do
  firstViolation [
    (c.history.pendingDelegations.any fun origin => !c.hasDelegation origin,
      "pending delegation has no active operation"),
    (c.history.pendingCalls.any fun (origin, call) => !c.hasCall origin call.name,
      "pending call has no active operation")]
  validateAll (fun (id, op) => c.validateOperation id op) c.active.operations.toList

/-- The response of a response-capable session covers all admitted input. -/
def covered (s : SessionSnapshot) : Bool :=
  s.responseStatus = some .completed && !s.needsGeneration &&
    s.generatedInputPosition = s.inputPosition

def unfinished (c : Checkpoint) : Bool :=
  c.active.operations.toList.any fun (_, op) => !op.state.terminal

def validate (c : Checkpoint) : Result Unit := do
  let session := c.active.session
  c.options.validate
  firstViolation [
    (c.id = "" || c.context.runId = "", "empty checkpoint identity"),
    ((c.revision == 0) != c.parentId.isNone, "revision and parent disagree")]
  c.state.validate
  firstViolation [
    (session.binding.any (fun b => b.adapter = ""), "empty model binding adapter"),
    (c.state.isCompleted && c.supports .responseEvents && !covered session,
      "completed run lacks current response coverage")]
  c.history.validate
  firstViolation [
    (session.responseStart > c.history.len || session.runStart > c.history.len,
      "turn start exceeds history"),
    (session.id = "", "empty session identity"),
    (session.acknowledgedContextRevision > session.contextRevision ||
      session.generatedInputPosition > session.inputPosition,
      "session acknowledgement exceeds admitted context"),
    (c.active.commands.any (fun command => command.id = "") ||
      !decide (c.active.commands.map PendingCommand.id).Nodup,
      "invalid pending command identity"),
    (c.active.commands.length > c.options.limits.maxControlCommands ||
      c.active.operations.size > c.options.limits.maxInflightOperations ||
      c.active.media.size > c.options.limits.maxMediaStreams,
      "active capacity exceeded")]
  validateAll c.validateCommand c.active.commands
  validateAll ResourceRef.validate session.mediaArchive.toList
  c.validateOperations
  firstViolation [
    (c.state.isCompleted && (!c.active.commands.isEmpty || session.closure.isNone),
      "completed run has pending session work"),
    (c.state.isCompleted && c.unfinished, "completed run has unfinished operations")]

end Checkpoint

end Zhir.Core
