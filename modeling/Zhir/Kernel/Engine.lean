import Zhir.Core.Commit
import Zhir.Core.Conversation
import Zhir.Core.Session
import Zhir.Library.Program

/-!
The engine's state, the world it acts on, and the commit path every handler shares.
-/

set_option autoImplicit false
set_option relaxedAutoImplicit false

namespace Zhir.Kernel

open Zhir.Core
open Zhir.Library (Program)

/-- What the store does with one commit that reaches it. -/
inductive Verdict
  | accepted
  /-- Nothing is written and the store reports this error. -/
  | refused (error : Error)
  /-- The write lands but its confirmation is lost; the kernel times out. -/
  | unconfirmed
  deriving DecidableEq, Repr

/-- Why `check` stops an execution. -/
inductive Interruption
  | deadline | cancelled
  deriving DecidableEq, Repr

def Interruption.error : Interruption → Error
  | .deadline => .deadline
  | .cancelled => .cancelled

structure Admission where
  calls : List RuntimeToolCall
  parallel : Bool
  deriving DecidableEq, Repr

/-- The host configuration together with the answers of everything outside the kernel.
An answer may depend on how many answers were given before (`clock`). Generated
identities never repeat. -/
structure Config where
  name : Nat → String
  name_injective : Function.Injective name
  name_ne_empty : ∀ n, name n ≠ ""
  checkpointName : Nat → String
  checkpointName_injective : Function.Injective checkpointName
  checkpointName_ne_empty : ∀ n, checkpointName n ≠ ""
  verdict : Nat → Verdict
  interruption : Nat → Option Interruption
  capabilities : CapabilitySet
  negotiate : ModelRequest → Result NegotiatedProfile
  delegation : Bool
  approval : Bool
  resources : Bool
  scheduler : List RuntimeToolCall → List RuntimeToolSpec → Result Admission
  historyReducer : Option (Nat → Checkpoint → Result (Option HistoryRewrite))
  /-- Reference of the archive node written for a media stream. -/
  archive : Nat → Result ResourceRef
  /-- Stream keys found in the archive chain that starts at a reference. -/
  archivedStreams : Nat → ResourceRef → Result (List String)

structure SessionControl where
  binding : Option ModelBinding
  capabilities : CapabilitySet
  negotiate : ModelRequest → Result NegotiatedProfile

def SessionControl.projection (control : SessionControl) : Bool :=
  control.capabilities.supports .localProjection

/-- `SelectedCatalog`: the selected specifications, and the specification of the binding
the host's catalog returns for a call. -/
structure Catalog where
  specs : List RuntimeToolSpec
  inner : Nat → RuntimeToolCall → Result RuntimeToolSpec

def Catalog.empty : Catalog where
  specs := []
  inner _ call := .error (.arguments ("runtime tool not found: " ++ call.name))

inductive ApprovalDecision
  | allow
  | deny (reason : String)
  | suspend (suspension : Suspension)
  deriving DecidableEq, Repr

/-- Of an operation handle only the recovery reference is data; its control and event
endpoints are the tasks and controls the engine keeps for it. -/
structure OperationHandle where
  recovery : Option RecoveryRef
  deriving DecidableEq, Repr

inductive ToolExecution
  | finished (outcome : OperationOutcome)
  | active (handle : OperationHandle)
  deriving DecidableEq, Repr

/-- A bound runtime tool call, under its operation's identity. -/
structure Binding where
  id : OperationId
  call : RuntimeToolCall
  deriving DecidableEq, Repr

inductive Work
  | model (event : Result (Option SessionEvent))
  | started (id : OperationId) (result : Result ToolExecution)
  | cancelFailed (id : OperationId) (error : Error)
  | operation (id : OperationId) (event : Result (Option OperationEvent))
  | admitted (bindings : List Binding) (decisions : Result (List ApprovalDecision))
  | mediaReady (segment : SealedMedia) (reference : ResourceRef)
  | inputReady (segment : SealedMedia) (reference : ResourceRef)
  | inputSent (result : Result Unit)
  | mediaDone
  | replyDone (id : OperationId) (result : Result Unit)
  | progress (id : OperationId) (value : Value)
  | mediaError (error : Error)
  | commandSent (result : Result Unit)

/-- Where a media task stands with its current segment. -/
inductive MediaPhase
  | sealing
  /-- Sealed and reported; the engine has not decided yet. -/
  | waiting
  | sending
  deriving DecidableEq, Repr

/-- A spawned task, with what it still has to do. -/
inductive Task
  /-- Submits the commands in order to a session, which may be a local projection, then
  reports `commandSent`. -/
  | submit (projection : Bool) (batch : List SessionCommand)
  | approval (bindings : List Binding)
  /-- Runs `start` of a tool; `invoked` once it has been polled. -/
  | start (id : OperationId) (call : RuntimeToolCall) (invoked : Bool)
  | delegate (id : OperationId) (request : DelegationRequest) (invoked : Bool)
  | recover (record : OperationRecord) (invoked : Bool)
  /-- Forwards an operation's events until its stream ends. -/
  | events (id : OperationId)
  /-- Asks the worker to cancel; only some callers listen for a failure. -/
  | cancel (id : OperationId) (report : Bool)
  | reply (id : OperationId) (value : Value)
  /-- Forwards the session's events until its stream ends. -/
  | session
  /-- Seals one segment of host media and sends it on once it is committed. -/
  | mediaInput (segment : List MediaChunk) (phase : MediaPhase)
  /-- Seals the segments of model media one after the other. -/
  | mediaOutput (phase : MediaPhase)
  deriving DecidableEq

/-- Acts of the kernel that reach the outside, and commits that became durable. -/
inductive Effect
  | committed (checkpoint : Checkpoint)
  | opening (session : SessionOpen)
  | submitted (projection : Bool) (command : SessionCommand)
  | started (id : OperationId)
  | recovered (id : OperationId)
  | cancelled (id : OperationId)
  | replied (id : OperationId) (value : Value)

/-- What outlives an execution: the durable head, the acts performed so far (latest
first) and the supplies of identities and outside answers. -/
structure World where
  head : Option Checkpoint
  trace : List Effect
  names : Nat
  checkpoints : Nat
  clock : Nat

namespace World

def start : World := { head := none, trace := [], names := 0, checkpoints := 0, clock := 0 }

def record (w : World) (c : Checkpoint) : World :=
  { w with head := some c, trace := .committed c :: w.trace }

def tick (w : World) : World := { w with clock := w.clock + 1 }

end World

structure Engine where
  world : World
  current : Checkpoint
  catalog : Catalog
  queue : List Work := []
  stashed : Option Work := none
  /-- The work item being handled. -/
  handling : Option Work := none
  tasks : List Task := []
  sessionControl : Option SessionControl := none
  modelMediaInput : Bool := false
  operationControls : List OperationId := []
  tokens : List OperationId := []
  admitting : List OperationId := []
  sent : List String
  sending : Bool := false
  inputSending : Bool := false
  heldInput : Option MediaChunk := none
  media : List MediaChunk := []
  mediaClosed : Bool := false
  endedStreams : Option (List String) := none
  mediaPending : Bool := false
  pendingReplies : List OperationId := []
  pendingStarts : List OperationId := []
  sessionSequence : Option Nat := none

abbrev Handler (α : Type) := Program Engine Error α

namespace Engine

def tick (e : Engine) : Engine := { e with world := e.world.tick }

def spawn (e : Engine) (task : Task) : Engine := { e with tasks := e.tasks ++ [task] }

end Engine

variable (cfg : Config)

def newId : Handler String := fun e =>
  (.ok (cfg.name e.world.names), { e with world.names := e.world.names + 1 })

def check : Handler Unit := fun e =>
  match cfg.interruption e.world.clock with
  | none => (.ok (), e.tick)
  | some interruption => (.error interruption.error, e.tick)

def ask {α : Type} (answer : Nat → α) : Handler α := fun e => (.ok (answer e.world.clock), e.tick)

def commitTimeout : Error :=
  .storage "checkpoint commit timed out; reload the durable head before retrying"

def persist (w : World) (commit : Commit) : Result Unit × World :=
  match cfg.verdict w.clock, commit.validateAgainst w.head with
  | .refused error, _ => (.error error, w.tick)
  | .accepted, .error error => (.error error, w.tick)
  | .accepted, .ok () => (.ok (), w.tick.record commit.checkpoint)
  | .unconfirmed, .error _ => (.error commitTimeout, w.tick)
  | .unconfirmed, .ok () => (.error commitTimeout, w.tick.record commit.checkpoint)

/-- The checkpoint as it is written: with its own identity after the current one. -/
def stamp (w : World) (current next : Checkpoint) (fact : Fact) : Checkpoint :=
  { next with
    id := cfg.checkpointName w.checkpoints
    parentId := some current.id
    revision := current.revision + 1
    fact }

def commit (next : Checkpoint) (fact : Fact) (history : HistoryDelta) : Handler Unit := fun e =>
  let next := stamp cfg e.world e.current next fact
  let w := { e.world with checkpoints := e.world.checkpoints + 1 }
  match persist cfg w ⟨next, history⟩ with
  | (.ok (), w) => (.ok (), { e with world := w, current := next })
  | (.error error, w) => (.error error, { e with world := w })

inductive WaitReason
  | recovery | input
  deriving DecidableEq, Repr

def WaitReason.text : WaitReason → String
  | .recovery => "RecoveryRequired"
  | .input => "InputRequired"

def setState (state : State) (c : Checkpoint) : Checkpoint := { c with state }

def suspend (reason : WaitReason) : Handler Unit := do
  let e ← Program.read
  let suspension : Suspension :=
    { reason := reason.text, source := "runtime", waitId := none, metadata := [] }
  commit cfg (setState (.suspended suspension) e.current) (.control .suspended) .unchanged

namespace Engine

/-- `session_capabilities`. -/
def capabilities (e : Engine) : CapabilitySet :=
  match e.sessionControl with
  | some control => control.capabilities
  | none => e.current.active.session.capabilities.getD cfg.capabilities

def supports (e : Engine) (capability : Capability) : Bool :=
  (e.capabilities cfg).supports capability

def localProjection (e : Engine) : Bool := e.supports cfg .localProjection

def negotiate (e : Engine) (request : ModelRequest) : Result NegotiatedProfile :=
  match e.sessionControl with
  | some control => control.negotiate request
  | none => cfg.negotiate request

def modelRequest (e : Engine) (entries : List HistoryEntry) : ModelRequest where
  messages := conversation entries
  runtimeTools := e.catalog.specs
  providerTools := e.current.options.providerTools
  profile := e.current.active.session.profile
  toolChoice := e.current.options.toolChoice
  responseFormat := e.current.options.responseFormat
  stream := e.current.options.stream

end Engine

end Zhir.Kernel
