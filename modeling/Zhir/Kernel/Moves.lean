import Zhir.Core.Validity
import Zhir.Kernel.System

/-!
What one step of the engine can do. `Change` lists every checkpoint the engine commits
after its first one, `Move` every change of its own state. That the handlers are chains of
moves is shown in the modules that follow.
-/

set_option autoImplicit false
set_option relaxedAutoImplicit false

namespace Zhir.Kernel

open Zhir.Core
open Zhir.Library (Program)

variable (cfg : Config)

/-- Only supplies were used: identities were generated, outside answers taken. -/
structure World.Counted (w w' : World) : Prop where
  head : w'.head = w.head
  trace : w'.trace = w.trace
  names : w.names ≤ w'.names
  checkpoints : w.checkpoints ≤ w'.checkpoints

namespace World.Counted

theorem refl (w : World) : w.Counted w := ⟨rfl, rfl, le_rfl, le_rfl⟩

theorem trans {w₁ w₂ w₃ : World} (h : w₁.Counted w₂) (h' : w₂.Counted w₃) : w₁.Counted w₃ :=
  ⟨h'.head.trans h.head, h'.trace.trans h.trace, h.names.trans h'.names,
    h.checkpoints.trans h'.checkpoints⟩

theorem tick {w w' : World} (h : w.Counted w') : w.Counted w'.tick :=
  ⟨h.head, h.trace, h.names, h.checkpoints⟩

end World.Counted

namespace Engine

def inWorld (w : World) (e : Engine) : Engine := { e with world := w }

/-- The engine after the store confirmed a staged checkpoint. -/
def saved (w : World) (next : Checkpoint) (fact : Fact) (e : Engine) : Engine :=
  let c := stamp cfg w e.current next fact
  { e with
    world := { w with checkpoints := w.checkpoints + 1 }.tick.record c
    current := c }

end Engine

/-- The store's validator accepts the staged checkpoint after its head. -/
def Accepts (w : World) (current next : Checkpoint) (fact : Fact) (delta : HistoryDelta) : Prop :=
  (Commit.mk (stamp cfg w current next fact) delta).validateAgainst w.head = .ok ()

/-- Session events applied one after the other to a staged checkpoint, each with two
identities of its own. -/
inductive Staged (e : Engine) : Nat → Checkpoint → List SessionEvent → Nat → Checkpoint → Prop
  | nil {n m : Nat} {c : Checkpoint} (hm : n ≤ m) : Staged e n c [] m c
  | cons {n k m : Nat} {c c' c'' : Checkpoint} {event : SessionEvent} {rest : List SessionEvent}
      (hk : n ≤ k)
      (hstage : stageEvent cfg e event.body (cfg.name k) (cfg.name (k + 1))
        (withSequence event.sequence c) = .ok c')
      (hrest : Staged e (k + 2) c' rest m c'') :
      Staged e n c (event :: rest) m c''

def reportsProvider : SessionEventBody → Bool
  | .output _ _ _ (.providerToolCall _) => true
  | _ => false

/-- A batch: events staged while it was open, and the last one, whatever it ends. -/
inductive Batched (e : Engine) (n : Nat) (c : Checkpoint) : List SessionEvent → Checkpoint → Prop
  | last {before : List SessionEvent} {event : SessionEvent} {k : Nat} {c' c'' : Checkpoint}
      (hbefore : Staged cfg e n c before k c') (hopen : before ≠ [] → c'.state.active = true)
      (hquiet : ∀ event ∈ before, reportsProvider event.body = false)
      (hstage : stageEvent cfg e event.body (cfg.name k) (cfg.name (k + 1))
        (withSequence event.sequence c') = .ok c'') :
      Batched e n c (before ++ [event]) c''

def acknowledgedIds (events : List SessionEvent) : List String :=
  events.filterMap fun event =>
    match event.body with
    | .acknowledged commandId _ => some commandId
    | _ => none

/-- What a handler was called for, beyond the work item it handles. -/
inductive Cause
  /-- The main loop itself, or a work item. -/
  | loop
  | control (body : ControlBody)
  | recovery (resolutions : List RecoveryResolution)
  deriving DecidableEq

def Work.about (id : OperationId) : Work → Bool
  | .started i _ | .cancelFailed i _ | .operation i _ | .replyDone i _ => i = id
  | _ => false

/-- The operation has been started: it is recorded as such, its control is kept, or its
worker is being handled. -/
def Engine.Begun (id : OperationId) (record : OperationRecord) (e : Engine) : Prop :=
  record.state ≠ .queued ∨ id ∈ e.operationControls ∨ e.handling.any (Work.about id) = true

/-- Intents that reach the outbox through `prepare_command`. -/
inductive Prepared (e : Engine) : CommandIntent → Prop
  | close (hadvance : e.canAdvance = true) (hinput : e.inputFinished cfg = true)
      (hclosure : e.current.active.session.closure = none)
      (hclosing : e.current.active.session.closing = false) : Prepared e .close
  | interruptOutput {generationId : String} (hcap : e.supports cfg .interruptOutput = true)
      (hgeneration : e.current.active.session.generationId = some generationId) :
      Prepared e (.interruptOutput generationId (e.current.active.session.outputEpoch + 1))
  | updateProfile {profile : RequestProfile} (hcap : e.supports cfg .profileUpdates = true) :
      Prepared e (.updateProfile (nextProfileRevision e.current) profile)
  | flushInput (hcap : e.supports cfg .flushInput = true) : Prepared e .flushInput
  | setInputAudio {enabled : Bool} (hcap : e.supports cfg .inputAudioControl = true) :
      Prepared e (.setInputAudio enabled)
  | sealUserInput : Prepared e .sealUserInput

/-- The identity `n` was generated after the engine state was reached. -/
def Generated (e : Engine) (w : World) (n : Nat) : Prop := e.world.names ≤ n ∧ n < w.names

/-- Every checkpoint an engine commits by itself, before it is stamped. -/
inductive Change (cause : Cause) (e : Engine) (w : World) : Checkpoint → Fact → HistoryDelta → Prop
  | suspend {suspension : Suspension} :
      Change cause e w (setState (.suspended suspension) e.current) (.control .suspended)
        .unchanged
  | limit {reason : LimitReason}
      (hreason : reason = .generationRequests ∨ reason = .runtimeToolCalls) :
      Change cause e w (setState (.limited reason) e.current) (.control .limited) .unchanged
  | complete (hadvance : e.canAdvance = true) (hinput : e.inputFinished cfg = true)
      (hclosure : e.current.active.session.closure.isSome)
      (hmedia : e.mediaPending = false ∧ e.inputSending = false) :
      Change cause e w (setState (.completed (resultContent e.current)) e.current)
        (.control .finished) .unchanged
  | prepare {intent : CommandIntent} {archive : Option ResourceRef} {media : MediaCursors}
      {n : Nat} (hprepared : Prepared cfg e intent) (hn : Generated e w n) :
      Change cause e w
        (pushCommand (cfg.name n) intent false
          { stageIntent intent e.current with
            active.session.mediaArchive := archive, active.media := media })
        (.command (cfg.name n)) .unchanged
  | markSent {command : PendingCommand} (hmem : command ∈ e.current.active.commands)
      (hunsent : command.id ∉ e.sent) :
      Change cause e w (markSent command.id e.current) (.command command.id) .unchanged
  | finish {id : OperationId} {record : OperationRecord} {outcome : OperationOutcome}
      {sequence : Option Nat} {n : Nat} {next : Checkpoint}
      (hrecord : e.current.active.operations[id]? = some record)
      (hstate : record.state.terminal = false) (hhost : record.owner.host = true)
      (hn : Generated e w n)
      (hstage : stageFinish id record outcome sequence (cfg.name n) e.current = .ok next) :
      Change cause e w next (.operation id (.ofOutcome outcome))
        (.append [resultEntry id record outcome])
  | finishProvider {id : OperationId} {record : OperationRecord} {outcome : OperationOutcome}
      {sequence : Option Nat} {n : Nat} {entry : HistoryEntry} {next : Checkpoint}
      (hrecord : e.current.active.operations[id]? = some record)
      (hstate : record.state.terminal = false) (hhost : record.owner.host = false)
      (hn : Generated e w n)
      (hentry : providerEntry record outcome e.current = .ok entry)
      (hstage :
        stageFinishProvider record outcome sequence (cfg.name n) entry e.current = .ok next) :
      Change cause e w next (.operation record.id (.ofOutcome outcome)) (.append [entry])
  | context {id : OperationId} {record : OperationRecord} {event : OperationEvent}
      {content : List Content} {n : Nat}
      (hrecord : e.current.active.operations[id]? = some record)
      (howner : record.owner = .delegation) (hstate : record.state.terminal = false)
      (hn : Generated e w n) :
      Change cause e w (stageContext id record event content (cfg.name n) e.current)
        (.operation id record.state) .unchanged
  /-- A worker's `Running`, `Waiting` or `Unknown` update. -/
  | update {id : OperationId} {record : OperationRecord} {event : OperationEvent}
      (hrecord : e.current.active.operations[id]? = some record)
      (hstate : record.state.terminal = false) (hfresh : delivery record event = .fresh)
      (hworker : record.owner.host = true →
        e.handling = some (.operation id (.ok (some event)))) :
      Change cause e w (putOperation id (applyUpdate record event) e.current)
        (.operation id (applyUpdate record event).state) .unchanged
  | lose {id : OperationId} {record : OperationRecord} {reason : String}
      (hrecord : e.current.active.operations[id]? = some record)
      (hstate : record.state.terminal = false) (hbegun : e.Begun id record) :
      Change cause e w
        (putOperation id
          { record with state := .unknown, wait := some (Value.reason reason) } e.current)
        (.operation id .unknown) .unchanged
  | replied {id : OperationId} {record : OperationRecord}
      (hrecord : e.current.active.operations[id]? = some record)
      (hstate : record.state = .unknown) (hhandling : e.handling = some (.replyDone id (.ok ()))) :
      Change cause e w
        (putOperation id { record with state := .running, wait := none } e.current)
        (.operation id .running) .unchanged
  | install {id : OperationId} {record : OperationRecord} {handle : OperationHandle}
      (hrecord : e.current.active.operations[id]? = some record)
      (hhandling : e.handling = some (.started id (.ok (.active handle)))) :
      Change cause e w
        (putOperation id { record with recovery := handle.recovery.or record.recovery } e.current)
        (.operation id record.state) .unchanged
  | attach {id : OperationId} {record : OperationRecord} {reference : RecoveryRef}
      {resolutions : List RecoveryResolution} (hcause : cause = .recovery resolutions)
      (hmem : .attach id reference ∈ resolutions)
      (hrecord : e.current.active.operations[id]? = some record)
      (hstate : record.state.terminal = false) :
      Change cause e w (stageAttach id record reference e.current) (.operation id .running)
        .unchanged
  | abandon {generationId reason : String} {resolutions : List RecoveryResolution}
      (hcause : cause = .recovery resolutions)
      (hlocal : e.current.supports .localProjection = true)
      (hgeneration : e.current.active.session.generationId = some generationId)
      (hresponse : e.current.active.session.responseStatus = none)
      (hprovider : ownsProviderWork generationId e.current = false) :
      Change cause e w (stageAbandon generationId e.current)
        (.generationAbandoned generationId reason) .unchanged
  | insert {message : Message} {source : String} {n k : Nat} {next : Checkpoint}
      (hsealed : ¬ ((e.current.active.session.inputClosed ∧ message.isUser) ∨
        e.current.active.session.closing))
      (hn : Generated e w n) (hk : Generated e w k) (hnk : n < k)
      (hstage : stageInsert ⟨.inserted (cfg.name n), none, message⟩ (cfg.name k) e.current =
        .ok next) :
      Change cause e w next (.conversationInsert source)
        (.append [⟨.inserted (cfg.name n), none, message⟩])
  | cancelling {id : OperationId} {record : OperationRecord}
      (hcause : cause = .control (.cancelOperation id))
      (hrecord : e.current.active.operations[id]? = some record)
      (hstate : record.state.terminal = false) (hqueued : record.state ≠ .queued) :
      Change cause e w (putOperation id { record with state := .cancelling } e.current)
        (.operation id .cancelling) .unchanged
  | generate {n k : Nat} (hadvance : e.canAdvance = true)
      (hneeds : e.current.active.session.needsGeneration = true)
      (hexplicit : e.supports cfg .explicitGeneration = true)
      (hn : Generated e w n) (hk : Generated e w k) (hnk : n < k) :
      Change cause e w (stageGenerate (cfg.name n) (cfg.name k) (e.localProjection cfg) e.current)
        (.command (cfg.name k)) .unchanged
  | rewrite {reduce : Nat → Checkpoint → Result (Option HistoryRewrite)}
      {rewrite : HistoryRewrite} {answer n : Nat} {next : Checkpoint}
      (hadvance : e.canAdvance = true)
      (hneeds : e.current.active.session.needsGeneration = true)
      (hreducer : cfg.historyReducer = some reduce)
      (hanswer : reduce answer e.current = .ok (some rewrite))
      (hreducible : reducible e.current = true) (hn : Generated e w n)
      (hstage : stageRewrite rewrite (cfg.name n) e.current = .ok next) :
      Change cause e w next (.historyRewrite rewrite.reason) (.replace rewrite.entries)
  | opening {commandId : String} (hremote : e.localProjection cfg = false)
      (hunbound : e.sessionControl = none) :
      Change cause e w (stageOpening e.current) (.command commandId) .unchanged
  | sequence {sequence : Nat} :
      Change cause e w (withSequence sequence e.current)
        (.session e.current.active.session.id sequence) .unchanged
  | media {archive : Option ResourceRef} {media : MediaCursors} {streamId : String}
      {sequence : Nat} :
      Change cause e w
        { e.current with active.session.mediaArchive := archive, active.media := media }
        (.media streamId sequence) .unchanged

/-- Commands handed to a submission task: the first unsubmitted ones in outbox order, each
with a durable mark where it needs one. -/
structure Submission (e : Engine) (control : SessionControl) (first : PendingCommand)
    (commands : List PendingCommand) (batch : List SessionCommand) : Prop where
  bound : e.sessionControl = some control
  idle : e.sending = false
  ready : e.current.active.session.ready = true
  head : e.unsent.head? = some first
  order : commands <+: e.unsent.filter fun c => c.id ≠ first.id
  local_rest : commands ≠ [] → durableSend control first = false ∧
    ∀ c ∈ commands, durableSend control c = false
  sendable : ∀ c ∈ first :: commands, e.canSend cfg c = true
  marked : durableSend control first = true → first.sent = true
  bodies : List.Forall₂ (fun c s => s.id = c.id ∧ e.commandBody c.intent = .ok s.body)
    (first :: commands) batch
  handling : e.handling = none

def Task.isMedia : Task → Bool
  | .mediaInput _ _ | .mediaOutput _ => true
  | _ => false

/-- A media task is waiting to hear about the segment of this work item. -/
def Work.decides (input : Bool) : Work → Bool
  | .inputReady _ _ => input
  | .mediaReady _ _ => !input
  | _ => false

def archiveRead (c : Checkpoint) (ended : List String) : Prop :=
  match c.active.session.mediaArchive with
  | none => ended = []
  | some reference => ∃ n, cfg.archivedStreams n reference = .ok ended

def Engine.buffer (media : List MediaChunk) (heldInput : Option MediaChunk) (e : Engine) : Engine :=
  { e with media, heldInput }

def Engine.startOutput (e : Engine) : Engine :=
  { e with mediaPending := true, tasks := e.tasks ++ [.mediaOutput .sealing] }

def activeOperation (id : OperationId) (c : Checkpoint) : Bool :=
  (c.active.operations[id]?).any OperationRecord.active

def Engine.Looping (e : Engine) : Prop := e.sessionControl.isSome = true ∧ e.handling = none

def Task.batch : Task → Option (List Binding)
  | .approval bindings => some bindings
  | _ => none

def Work.batch : Work → Option (List Binding)
  | .admitted bindings _ => some bindings
  | _ => none

/-- The batches of calls that wait for a decision or for it to be handled. -/
def Engine.batches (e : Engine) : List (List Binding) :=
  e.tasks.filterMap Task.batch ++ (e.stashed.toList ++ e.queue).filterMap Work.batch

/-- The record of a runtime tool call that has not been started. -/
def QueuedCall (c : Checkpoint) (id : OperationId) (op : OperationRecord) : Prop :=
  c.active.operations[id]? = some op ∧ op.state = .queued ∧ ∃ name, op.owner = .runtimeTool name

/-- It is the turn of this call: those before it in its batch have left the queue. -/
def Engine.Due (bindings : List Binding) (binding : Binding) (e : Engine) : Prop :=
  ∃ before after, bindings = before ++ binding :: after ∧
    ∀ b ∈ before, ∀ op, ¬ QueuedCall e.current b.id op

/-- What admission under the default scheduler has established about a selected call. -/
structure Leading (e : Engine) (record : OperationRecord) : Prop where
  /-- The queued calls emitted before it are parallel. -/
  earlier : ∀ (id : OperationId) (other : OperationRecord) (name : String),
    e.current.active.operations[id]? = some other → other.state = .queued →
      other.owner = .runtimeTool name → other.callEntry < record.callEntry →
        e.catalog.parallel name = true
  /-- So are the calls selected before it. -/
  selected : ∀ id ∈ e.admitting, ∀ (other : OperationRecord) (name : String),
    e.current.active.operations[id]? = some other → other.owner = .runtimeTool name →
      e.catalog.parallel name = true
  /-- The queued calls emitted before it have been selected. -/
  before : ∀ (id : OperationId) (other : OperationRecord), QueuedCall e.current id other →
    other.callEntry < record.callEntry → id ∈ e.admitting

inductive Move (cause : Cause) : Engine → Engine → Prop
  | count {e : Engine} {w : World} (hw : e.world.Counted w) : Move cause e (e.inWorld w)
  | save {e : Engine} {w : World} {next : Checkpoint} {fact : Fact} {delta : HistoryDelta}
      (hw : e.world.Counted w) (hchange : Change cfg cause e w next fact delta)
      (haccepts : Accepts cfg w e.current next fact delta) :
      Move cause e (e.saved cfg w next fact)
  | submit {e : Engine} {control : SessionControl} {first : PendingCommand}
      {commands : List PendingCommand} {batch : List SessionCommand}
      (h : Submission cfg e control first commands batch) :
      Move cause e (e.submit control.projection batch)
  | sentDone {e : Engine} {result : Result Unit}
      (hhandling : e.handling = some (.commandSent result)) :
      Move cause e { e with sending := false }
  | forget {e : Engine} {id : OperationId} : Move cause e (e.forget id)
  | install {e : Engine} {id : OperationId} {record : OperationRecord} {handle : OperationHandle}
      (hrecord : e.current.active.operations[id]? = some record)
      (hhandling : e.handling = some (.started id (.ok (.active handle)))) :
      Move cause e (e.install id record.state)
  | requestCancel {e : Engine} {id : OperationId} : Move cause e (e.requestCancel id)
  | awaitReply {e : Engine} {id : OperationId} {value : Value}
      (hcontrol : id ∈ e.operationControls) : Move cause e (e.awaitReply id value)
  | replyDone {e : Engine} {id : OperationId} {result : Result Unit}
      (hhandling : e.handling = some (.replyDone id result)) :
      Move cause e { e with pendingReplies := e.pendingReplies.filter (· ≠ id) }
  | returned {e : Engine} {id : OperationId} {result : Result ToolExecution}
      (hhandling : e.handling = some (.started id result)) :
      Move cause e { e with pendingStarts := e.pendingStarts.filter (· ≠ id) }
  /-- An approved call: marked running, then started. -/
  | start {e : Engine} {w w' : World} {binding : Binding} {bindings : List Binding}
      {decisions : Result (List ApprovalDecision)} {record : OperationRecord}
      (hw : e.world.Counted w)
      (hrecord : e.current.active.operations[binding.id]? = some record)
      (hqueued : record.state = .queued) (hdue : e.Due bindings binding)
      (hhandling : e.handling = some (.admitted bindings decisions))
      (haccepts : Accepts cfg w e.current (stageAdmitted binding.id record e.current)
        (.operation binding.id .running) .unchanged)
      (hw' : (e.saved cfg w (stageAdmitted binding.id record e.current)
        (.operation binding.id .running)).world.Counted w') :
      Move cause e (((e.saved cfg w (stageAdmitted binding.id record e.current)
        (.operation binding.id .running)).inWorld w').launch binding.id
          (.start binding.id binding.call false))
  /-- A delegation: marked running, then started. -/
  | delegate {e : Engine} {w : World} {id : OperationId} {record : OperationRecord}
      {request : DelegationRequest} (hw : e.world.Counted w)
      (hrecord : e.current.active.operations[id]? = some record)
      (howner : record.owner = .delegation) (hqueued : record.state = .queued)
      (hlooping : e.Looping) (hadmitting : e.admitting = [])
      (hroom : activeCount e.current < e.current.options.limits.maxOperationConcurrency)
      (haccepts : Accepts cfg w e.current
        (putOperation id { record with state := .running, wait := none } e.current)
        (.operation id .running) .unchanged) :
      Move cause e ((e.saved cfg w
        (putOperation id { record with state := .running, wait := none } e.current)
        (.operation id .running)).launch id (.delegate id request false))
  /-- A started operation is attached to again after a restart. -/
  | recover {e : Engine} {record : OperationRecord}
      (hrecord : e.current.active.operations[record.id]? = some record)
      (hstate : record.state = .running ∨ record.state = .waiting ∨ record.state = .cancelling) :
      Move cause e (e.launch record.id (.recover record false))
  /-- A queued call is selected for approval. -/
  | reserve {e : Engine} {id : OperationId} {record : OperationRecord} {name : String}
      (hrecord : e.current.active.operations[id]? = some record)
      (howner : record.owner = .runtimeTool name) (hqueued : record.state = .queued)
      (hlooping : e.Looping) (hid : id ∉ e.admitting)
      (hroom : activeCount e.current + e.admitting.length <
        e.current.options.limits.maxOperationConcurrency)
      (hserial : serialActive e.catalog e.current = false)
      (halone : e.catalog.parallel name = false →
        activeCount e.current = 0 ∧ e.admitting = [])
      (hleading : cfg.scheduler = defaultScheduling → Leading e record)
      (hnone : e.batches = []) : Move cause e (e.reserve id)
  | approval {e : Engine} {bindings : List Binding} (hlooping : e.Looping)
      (hreserved : e.admitting = (bindings.map Binding.id).reverse) (hsome : bindings ≠ [])
      (hnone : e.batches = []) : Move cause e (e.spawn (.approval bindings))
  | release {e : Engine} {bindings : List Binding} {decisions : Result (List ApprovalDecision)}
      (hhandling : e.handling = some (.admitted bindings decisions)) :
      Move cause e (e.release (bindings.map Binding.id))
  | catalog {e : Engine} {catalog : Catalog} (hunbound : e.sessionControl = none) :
      Move cause e { e with catalog }
  | opening {e : Engine} (hunbound : e.sessionControl = none) :
      Move cause e (perform (.opening e.sessionOpen) e)
  /-- The opened session is committed and bound. -/
  | bind {e : Engine} {w : World} {session : ModelSession} {negotiated : NegotiatedProfile}
      {commandId : String} (hw : e.world.Counted w) (hunbound : e.sessionControl = none)
      (hcapabilities : capabilitiesChanged session.control e.current = false)
      (haccepts : Accepts cfg w e.current (stageOpened session.control negotiated e.current)
        (.command commandId) .unchanged) :
      Move cause e ((e.saved cfg w (stageOpened session.control negotiated e.current)
        (.command commandId)).bind session)
  /-- A batch of session events is committed. -/
  | batch {e : Engine} {w : World} {events : List SessionEvent} {next : Checkpoint}
      {fact : Fact} {delta : HistoryDelta} {queue : List Work} {stashed : Option Work}
      {sequence : Option Nat} {mediaClosed : Bool} {first : SessionEvent}
      (hw : e.world.Counted w)
      (hstaged : Staged cfg e e.world.names e.current events w.names next)
      (haccepts : Accepts cfg w e.current next fact delta)
      (hbatched : Batched cfg e e.world.names e.current events next)
      (hfact : ∃ n, fact = .session e.current.active.session.id n)
      (hhandling : e.handling = some (.model (.ok (some first))))
      (hqueue : ∃ taken, e.queue = taken ++ stashed.toList ++ queue ∧
        ∀ work ∈ taken, ∃ event, work = .model (.ok (some event)))
      (hstashed : e.stashed = none) :
      Move cause e { e.saved cfg w next fact with
        sent := e.sent.filter (· ∉ acknowledgedIds events), queue, stashed
        sessionSequence := sequence, mediaClosed }
  | sequence {e : Engine} {sequence : Option Nat} :
      Move cause e { e with sessionSequence := sequence }
  | endStreams {e : Engine} {keys : List String} : Move cause e (e.endStreams keys)
  | closeMedia {e : Engine} : Move cause e e.closeMedia
  | loadEnded {e : Engine} {ended : List String} (hunread : e.endedStreams = none)
      (hread : archiveRead cfg e.current ended) :
      Move cause e { e with endedStreams := some ended }
  | decide {e : Engine} {input : Bool} {work : Work} (hhandling : e.handling = some work)
      (hdecides : work.decides input = true) :
      Move cause e { e with tasks := e.tasks.map (Task.decided input) }
  | inputSent {e : Engine} {result : Result Unit}
      (hhandling : e.handling = some (.inputSent result)) :
      Move cause e { e with inputSending := false }
  | mediaDone {e : Engine} (hhandling : e.handling = some .mediaDone) :
      Move cause e { e with mediaPending := false }
  | buffer {e : Engine} {media : List MediaChunk} {heldInput : Option MediaChunk}
      (hlooping : e.Looping) : Move cause e (e.buffer media heldInput)
  | sendInput {e : Engine} {segment : List MediaChunk} (hlooping : e.Looping)
      (hidle : e.inputSending = false) : Move cause e (e.sendInput segment)
  | startOutput {e : Engine} (hlooping : e.Looping) (hpending : e.mediaPending = false)
      (hfresh : ∀ task ∈ e.tasks, task.isMedia = false) : Move cause e e.startOutput

/-- How a handler can fail. Traces of staged events may be left in the engine's memory, but
nothing durable changes unless a commit landed unconfirmed, or an approved call was marked
running and not started. -/
inductive Fault (cause : Cause) : Engine → Error → Engine → Prop
  | stopped {e e' : Engine} {error : Error} (hcurrent : e'.current = e.current)
      (htasks : e'.tasks = e.tasks) (hworld : e.world.Counted e'.world) : Fault cause e error e'
  | unconfirmed {e e' e'' : Engine} (hmove : Move cfg cause e e'')
      (hcurrent : e'.current = e.current) (htasks : e'.tasks = e.tasks)
      (hworld : e'.world = e''.world) : Fault cause e commitTimeout e'
  | unstarted {e e' : Engine} {w : World} {binding : Binding} {bindings : List Binding}
      {decisions : Result (List ApprovalDecision)} {record : OperationRecord} {error : Error}
      (hw : e.world.Counted w)
      (hrecord : e.current.active.operations[binding.id]? = some record)
      (hqueued : record.state = .queued) (hdue : e.Due bindings binding)
      (hhandling : e.handling = some (.admitted bindings decisions))
      (haccepts : Accepts cfg w e.current (stageAdmitted binding.id record e.current)
        (.operation binding.id .running) .unchanged)
      (hcurrent : e'.current = (e.saved cfg w (stageAdmitted binding.id record e.current)
        (.operation binding.id .running)).current)
      (htasks : e'.tasks = e.tasks)
      (hworld : (e.saved cfg w (stageAdmitted binding.id record e.current)
        (.operation binding.id .running)).world.Counted e'.world) : Fault cause e error e'

/-- What the handler of a work item has seen to when it returns. -/
def Done (e : Engine) : Work → Prop
  | .started id _ => activeOperation id e.current = true → Task.events id ∈ e.tasks
  | .operation id event => continues event = false → activeOperation id e.current = false
  | _ => True

/-- One step of the main loop: a move, or the beginning and end of a work item. -/
inductive Turn (cause : Cause) : Engine → Engine → Prop
  | move {e e' : Engine} (h : Move cfg cause e e') : Turn cause e e'
  | take {e : Engine} {work : Work} {queue : List Work} (hlooping : e.Looping)
      (hworks : e.stashed.toList ++ e.queue = work :: queue) :
      Turn cause e ({ e with stashed := none, queue }.take work)
  | drop {e : Engine} {work : Work} (hhandling : e.handling = some work) (hdone : Done e work) :
      Turn cause e e.drop

/-- A failing host control leaves the engine where moves led it, or the store has failed. -/
inductive Refused (cause : Cause) : Engine → Error → Engine → Prop
  | clean {e : Engine} {error : Error} : Refused cause e error e
  | unconfirmed {e e'' : Engine} (hmove : Move cfg cause e e'') :
      Refused cause e commitTimeout { e with world := e''.world }

variable {cfg}

/-- A move never ends the handling of a work item. -/
theorem Move.handling {cause : Cause} {e e' : Engine} (h : Move cfg cause e e') :
    e'.handling = e.handling := by
  cases h with
  | requestCancel =>
    rw [Engine.requestCancel_eq]
  | _ => rfl

theorem Move.bound {cause : Cause} {e e' : Engine} (h : Move cfg cause e e')
    (hbound : e.sessionControl.isSome = true) : e'.sessionControl.isSome = true := by
  cases h with
  | requestCancel =>
    rw [Engine.requestCancel_eq]
    exact hbound
  | bind => rfl
  | _ => exact hbound

theorem Move.looping {cause : Cause} {e e' : Engine} (h : Move cfg cause e e')
    (hlooping : e.Looping) : e'.Looping :=
  ⟨h.bound hlooping.1, h.handling.trans hlooping.2⟩

theorem Accepts.valid {w : World} {current next : Checkpoint} {fact : Fact}
    {delta : HistoryDelta} (h : Accepts cfg w current next fact delta) :
    (stamp cfg w current next fact).Valid :=
  Checkpoint.valid_of_validate (Commit.valid_of_ok h)

theorem Move.valid {cause : Cause} {e e' : Engine} (h : Move cfg cause e e')
    (hvalid : e.current.Valid) : e'.current.Valid := by
  cases h with
  | save _ _ haccepts => exact haccepts.valid
  | start _ _ _ _ _ haccepts => exact haccepts.valid
  | delegate _ _ _ _ _ _ _ haccepts => exact haccepts.valid
  | bind _ _ _ haccepts => exact haccepts.valid
  | batch _ _ haccepts => exact haccepts.valid
  | requestCancel =>
    rw [Engine.requestCancel_eq]
    exact hvalid
  | _ => exact hvalid

/-- Before its session is bound an execution handles no work and moves no media. -/
structure Engine.Unbound (e : Engine) : Prop where
  control : e.sessionControl = none
  handling : e.handling = none
  pending : e.mediaPending = false
  sending : e.inputSending = false
  tasks : ∀ task ∈ e.tasks, task.isMedia = false

theorem Engine.Unbound.spawned {e e' : Engine} {added : List Task} (h : e.Unbound)
    (hcontrol : e'.sessionControl = e.sessionControl) (hhandling : e'.handling = e.handling)
    (hpending : e'.mediaPending = e.mediaPending) (hsending : e'.inputSending = e.inputSending)
    (htasks : e'.tasks = e.tasks ++ added) (hadded : ∀ task ∈ added, task.isMedia = false) :
    e'.Unbound := by
  refine ⟨hcontrol.trans h.control, hhandling.trans h.handling, hpending.trans h.pending,
    hsending.trans h.sending, ?_⟩
  intro task htask
  rw [htasks, List.mem_append] at htask
  exact htask.elim (h.tasks task) (hadded task)

theorem Move.unbound {cause : Cause} {e e' : Engine} (h : Move cfg cause e e')
    (hunbound : e.Unbound) (hcontrol : e'.sessionControl = none) : e'.Unbound := by
  have hlooping : ¬ e.Looping := fun hlooping => by
    have hbound := hlooping.1
    rw [hunbound.control] at hbound
    cases hbound
  have hhandling : ∀ work, e.handling ≠ some work := fun work hwork => by
    rw [hunbound.handling] at hwork
    cases hwork
  cases h with
  | bind => cases hcontrol
  | install _ hwork => exact absurd hwork (hhandling _)
  | decide hwork => exact absurd hwork (hhandling _)
  | inputSent hwork => exact absurd hwork (hhandling _)
  | mediaDone hwork => exact absurd hwork (hhandling _)
  | start _ _ _ _ hwork => exact absurd hwork (hhandling _)
  | buffer h => exact absurd h hlooping
  | sendInput h => exact absurd h hlooping
  | startOutput h => exact absurd h hlooping
  | delegate _ _ _ _ h => exact absurd h hlooping
  | approval h => exact absurd h hlooping
  | submit h =>
    have hbound := h.bound
    rw [hunbound.control] at hbound
    cases hbound
  | @requestCancel id =>
    rw [Engine.requestCancel_eq]
    have hadded : ∀ task ∈ [Task.cancel id true], task.isMedia = false := by simp [Task.isMedia]
    by_cases hmem : id ∈ e.operationControls
    · exact hunbound.spawned rfl rfl rfl rfl (if_pos hmem) hadded
    · have hnone : ∀ task ∈ ([] : List Task), task.isMedia = false := by simp
      refine hunbound.spawned rfl rfl rfl rfl ?_ hnone
      simp only [hmem, if_false, List.append_nil]
  | awaitReply _ => exact hunbound.spawned rfl rfl rfl rfl rfl (by simp [Task.isMedia])
  | recover _ _ => exact hunbound.spawned rfl rfl rfl rfl rfl (by simp [Task.isMedia])
  | _ =>
    exact ⟨hunbound.control, hunbound.handling, hunbound.pending, hunbound.sending, hunbound.tasks⟩

end Zhir.Kernel
