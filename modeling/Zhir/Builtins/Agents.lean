import Zhir.Kernel.Replay
import Zhir.Library.Permits

/-!
Child agents. Every child is a run of the same runtime, driven by a worker that reports to the
parent's operation, and all workers of a backend share its permits.
-/

set_option autoImplicit false
set_option relaxedAutoImplicit false

namespace Zhir.Builtins

open Zhir.Core Zhir.Library
open Zhir.Kernel (Request UpdateStream isFinal startRequest recoverRequest updateState)

/-- `RunCompletion`: a validated checkpoint of a settled invocation. -/
structure Completion where
  checkpoint : Checkpoint
  valid : checkpoint.validate = .ok ()
  settled : checkpoint.state.active = false

/-- `{reason:?}`. -/
def debugLimit : LimitReason → String
  | .deadline => "Deadline"
  | .generationRequests => "GenerationRequests"
  | .runtimeToolCalls => "RuntimeToolCalls"
  | .totalTokens => "TotalTokens"

def settledOutcome (state : State) (h : state.terminal = true) : OperationOutcome :=
  match state, h with
  | .completed content, _ => .success content .null
  | .failed error, _ => .failure error
  | .cancelled, _ => .cancelled "child cancelled"
  | .limited reason, _ => .failure ⟨"child_limit", debugLimit reason, false⟩

def suspensionValue (s : Suspension) : Value :=
  .object [("metadata", .object s.metadata), ("reason", .string s.reason),
    ("source", .string s.source), ("wait_id", s.waitId.elim .null .string)]

def waitingPrompt (id : String) (s : Suspension) : Value :=
  .object [("run_id", .string id), ("suspension", suspensionValue s)]

def recoveryOf (id : String) : RecoveryRef := ⟨"agent_run", .object [("run_id", .string id)]⟩

structure ChildReply where
  messages : List Message
  resolutions : List RecoveryResolution

inductive ChildCommand
  | reply (reply : ChildReply)
  | cancel

namespace ChildCommand

def content : ChildCommand → ChildReply
  | .reply answer => answer
  | .cancel => ⟨[], []⟩

def answer : ChildCommand → Option ChildReply
  | .reply answer => some answer
  | .cancel => none

/-- The request that a command makes of a suspended completion. -/
def request (completion : Completion) (command : ChildCommand) : Result Request :=
  recoverRequest completion.checkpoint command.content.messages command.content.resolutions []

end ChildCommand

inductive Phase
  /-- In `wait_completion`. -/
  | running
  /-- Its run is suspended, and the parent has not been told. -/
  | asking (completion : Completion)
  /-- The parent has been told. -/
  | listening (completion : Completion)
  /-- Its run has been resumed with a reply, and the parent has not been told. -/
  | answering
  /-- The parent is gone, and the run is being paused. -/
  | detaching
  /-- Out of the loop with its last update, the permit dropped. -/
  | ending (update : OperationUpdate)
  | ended

/-- `ChildWorker`, with its two channels and what the parent has taken from one of them. -/
structure Worker where
  id : String
  sequence : Nat
  phase : Phase := .running
  permit : Bool := true
  /-- The current invocation is cancelled. -/
  cancelled : Bool := false
  commands : List ChildCommand := []
  events : List OperationEvent := []
  received : List OperationEvent := []
  /-- The parent has dropped the events. -/
  detached : Bool := false
  /-- What the runtime was asked to execute. -/
  requests : List Request

def channelRoom : Nat := 16

namespace Worker

/-- `child::attach`, with a permit. -/
def attach (id : String) (sequence : Nat) (request : Request) : Worker :=
  { id, sequence, requests := [request] }

def leave (update : OperationUpdate) (w : Worker) : Worker :=
  { w with phase := .ending update, permit := false }

def stop (w : Worker) : Worker := { w with phase := .ended, permit := false }

/-- `emit`, once there is room. -/
def emit (update : OperationUpdate) (next : Phase) (w : Worker) : Worker :=
  { w with
    events := w.events ++ [⟨w.sequence, update⟩]
    sequence := w.sequence + 1
    phase := next }

/-- What a worker is about to tell the parent, and what comes after. -/
def pending (w : Worker) : Option (OperationUpdate × Phase) :=
  match w.phase with
  | .asking completion =>
    match completion.checkpoint.state with
    | .suspended suspension =>
      some (.waiting (waitingPrompt w.id suspension) (some (recoveryOf w.id)),
        .listening completion)
    | _ => none
  | .answering => some (.running (some (recoveryOf w.id)), .running)
  | .ending update => some (update, .ended)
  | _ => none

/-- A result of the run: `Err`, a terminal checkpoint or a suspended one. -/
def settle (result : Result Completion) (w : Worker) : Worker :=
  match result with
  | .error error => w.leave (.unknown error.text)
  | .ok completion =>
    if h : completion.checkpoint.state.terminal = true then
      w.leave (.finished (settledOutcome completion.checkpoint.state h))
    else { w with phase := .asking completion }

/-- `resume_after_input` from the command on. -/
def resume (completion : Completion) (command : ChildCommand) (w : Worker) : Worker :=
  match command.request completion with
  | .error error => w.leave (.unknown error.text)
  | .ok request =>
    { w with
      requests := w.requests ++ [request]
      cancelled := command.answer.isNone
      phase := if command.answer.isSome then .answering else .running }

end Worker

inductive ChildAction
  /-- The invocation settles. -/
  | settled (result : Result Completion)
  /-- The worker sees that the parent has dropped the events. -/
  | noticed
  /-- The paused invocation settles. -/
  | paused
  /-- The pending update is sent. -/
  | sent
  /-- It cannot be, since nobody receives. -/
  | unsent
  /-- The next command is taken. -/
  | commanded
  /-- `ChildControl::reply`, with room for the command. -/
  | reply (reply : ChildReply)
  /-- `ChildControl::cancel`. -/
  | cancel
  /-- The parent receives an event. -/
  | receive
  /-- The parent drops the events. -/
  | detach

namespace Worker

def isOver (w : Worker) : Bool :=
  match w.phase with
  | .ended => true
  | _ => false

def queue (command : ChildCommand) (w : Worker) : Worker :=
  { w with commands := w.commands ++ [command] }

def step (w : Worker) : ChildAction → Option Worker
  | .settled result =>
    match w.phase with
    | .running => some (w.settle result)
    | _ => none
  | .noticed =>
    if w.detached = false then none
    else match w.phase with
      | .running => some { w with phase := .detaching }
      | .listening _ => some w.stop
      | _ => none
  | .paused =>
    match w.phase with
    | .detaching => some w.stop
    | _ => none
  | .sent =>
    if w.detached = true ∨ w.events.length ≥ channelRoom then none
    else w.pending.map fun (update, next) => w.emit update next
  | .unsent =>
    if w.detached = false then none
    else match w.phase with
      | .asking _ | .answering => some (w.leave (.unknown Error.cancelled.text))
      | .ending _ => some w.stop
      | _ => none
  | .commanded =>
    match w.phase, w.commands with
    | .listening completion, command :: rest =>
      some ({ w with commands := rest }.resume completion command)
    | _, _ => none
  | .reply reply =>
    if w.isOver = true ∨ w.commands.length ≥ channelRoom then none
    else some (w.queue (.reply reply))
  | .cancel =>
    if w.isOver = true ∨ w.commands.length ≥ channelRoom then some { w with cancelled := true }
    else some ({ w with cancelled := true }.queue .cancel)
  | .receive =>
    match w.events with
    | [] => none
    | event :: rest =>
      if w.detached = true then none
      else some { w with events := rest, received := w.received ++ [event] }
  | .detach => some { w with detached := true }

def Moves (w : Worker) (action : ChildAction) (w' : Worker) : Prop := w.step action = some w'

def told (w : Worker) : List OperationEvent := w.received ++ w.events

end Worker

structure RuntimeAgentBackend where
  maxRunning : Nat
  systemPrompt : String
  defaults : RunOptions
  positive : 0 < maxRunning

namespace RuntimeAgentBackend

def childId (runId operationId : String) : String := runId ++ ":child:" ++ operationId

/-- `attach`: the new worker takes a permit, if there is one. -/
def attach (id : String) (sequence : Nat) (request : Request) (pool : Pool Worker) :
    Result (Pool Worker) :=
  if pool.free = 0 then
    .error (.runtimeTool ⟨"agent_capacity", "child concurrency limit reached", false⟩)
  else .ok ⟨pool.free - 1, pool.parties ++ [.attach id sequence request]⟩

/-- `start`. The context is that of the parent's call, which may be cancelled. -/
def start (b : RuntimeAgentBackend) (prompt : String) (parent : RunContext) (cancelled : Bool)
    (operationId : String) (now : Nat) (pool : Pool Worker) : Result (Pool Worker) := do
  checkCancelled cancelled
  let id := childId parent.runId operationId
  let context : RunContext :=
    { runId := id
      startedAtMs := now
      deadlineAtMs := parent.deadlineAtMs
      parentRunId := some parent.runId
      parentRuntimeToolCallId := some operationId
      metadata := [] }
  let system := if b.systemPrompt = "" then [] else [Message.system [.text b.systemPrompt]]
  let request ← startRequest (system ++ [.user [.text prompt]]) context b.defaults
  attach id 0 request pool

/-- The first sequence number of an operation that is attached to again. -/
def nextSequence (operation : OperationRecord) : Nat := operation.lastSequence.elim 0 (· + 1)

/-- What `recover` returns: a worker in the pool, or the one event of a settled child. -/
inductive Recovered
  | attached (pool : Pool Worker)
  | settled (event : OperationEvent)

def foreignReference (id : String) (reference : RecoveryRef) : Bool :=
  reference.adapter ≠ "agent_run" || match reference.data with
    | .object fields => fields.lookup "run_id" ≠ some (.string id)
    | _ => true

/-- `recover`, with what the store holds of the child. -/
def recover (operation : OperationRecord) (id : String) (stored : Result (Option Checkpoint))
    (pool : Pool Worker) : Result Recovered :=
  if operation.recovery.any (foreignReference id) then
    .error (.invalid "child recovery identity mismatch")
  else match stored with
    | .error error => .error error
    | .ok none =>
      .error (.invalid "child checkpoint missing; explicit recovery resolution required")
    | .ok (some checkpoint) =>
      if h : checkpoint.state.terminal = true then
        .ok (.settled
          ⟨nextSequence operation, .finished (settledOutcome checkpoint.state h)⟩)
      else do
        let request ← recoverRequest checkpoint [] [] []
        let pool' ← attach id (nextSequence operation) request pool
        return .attached pool'

end RuntimeAgentBackend

namespace Worker

def held (w : Worker) : Nat := if w.permit then 1 else 0

def busy (w : Worker) : Bool :=
  match w.phase with
  | .ending _ | .ended => false
  | _ => true

end Worker

inductive BackendAction
  | start (prompt : String) (parent : RunContext) (cancelled : Bool) (operationId : String)
    (now : Nat)
  | recover (operation : OperationRecord) (id : String) (stored : Result (Option Checkpoint))
  | worker (index : Nat) (action : ChildAction)

/-- The workers of a backend after one call or one step of a worker. -/
def RuntimeAgentBackend.step (b : RuntimeAgentBackend) (pool : Pool Worker) :
    BackendAction → Pool Worker
  | .start prompt parent cancelled operationId now =>
    match b.start prompt parent cancelled operationId now pool with
    | .ok pool' => pool'
    | .error _ => pool
  | .recover operation id stored =>
    match recover operation id stored pool with
    | .ok (.attached pool') => pool'
    | .ok (.settled _) | .error _ => pool
  | .worker index action =>
    match pool.parties[index]? with
    | none => pool
    | some w =>
      match w.step action with
      | none => pool
      | some w' => ⟨pool.free + w.held - w'.held, pool.parties.set index w'⟩

def RuntimeAgentBackend.Moves (b : RuntimeAgentBackend) (pool : Pool Worker)
    (action : BackendAction) (pool' : Pool Worker) : Prop := b.step pool action = pool'

namespace Worker

inductive Stepped (w : Worker) : ChildAction → Worker → Prop
  | settled (result : Result Completion) (h : w.phase = .running) :
      Stepped w (.settled result) (w.settle result)
  | pausing (hdetached : w.detached = true) (h : w.phase = .running) :
      Stepped w .noticed { w with phase := .detaching }
  | deserted {completion : Completion} (hdetached : w.detached = true)
      (h : w.phase = .listening completion) : Stepped w .noticed w.stop
  | paused (h : w.phase = .detaching) : Stepped w .paused w.stop
  | sent {update : OperationUpdate} {next : Phase} (hdetached : w.detached = false)
      (h : w.pending = some (update, next)) : Stepped w .sent (w.emit update next)
  | unsent (hdetached : w.detached = true)
      (h : (∃ completion, w.phase = .asking completion) ∨ w.phase = .answering) :
      Stepped w .unsent (w.leave (.unknown Error.cancelled.text))
  | unsentLast {update : OperationUpdate} (hdetached : w.detached = true)
      (h : w.phase = .ending update) : Stepped w .unsent w.stop
  | commanded {completion : Completion} {command : ChildCommand} {rest : List ChildCommand}
      (h : w.phase = .listening completion) (hcommands : w.commands = command :: rest) :
      Stepped w .commanded ({ w with commands := rest }.resume completion command)
  | reply (reply : ChildReply) (hover : w.isOver = false) :
      Stepped w (.reply reply) (w.queue (.reply reply))
  | cancelUnheard : Stepped w .cancel { w with cancelled := true }
  | cancel : Stepped w .cancel ({ w with cancelled := true }.queue .cancel)
  | receive {event : OperationEvent} {rest : List OperationEvent} (h : w.events = event :: rest) :
      Stepped w .receive { w with events := rest, received := w.received ++ [event] }
  | detach : Stepped w .detach { w with detached := true }

theorem step_cases {w w' : Worker} {action : ChildAction} (h : w.Moves action w') :
    w.Stepped action w' := by
  unfold Moves at h
  cases action with
  | settled result =>
    simp only [step] at h
    split at h
    · next hphase =>
      cases h
      exact .settled result hphase
    · cases h
  | noticed =>
    simp only [step] at h
    split at h
    · cases h
    · next hdetached =>
      rw [Bool.not_eq_false] at hdetached
      split at h
      · next hphase =>
        cases h
        exact .pausing hdetached hphase
      · next hphase =>
        cases h
        exact .deserted hdetached hphase
      · cases h
  | paused =>
    simp only [step] at h
    split at h
    · next hphase =>
      cases h
      exact .paused hphase
    · cases h
  | sent =>
    simp only [step] at h
    split at h
    · cases h
    · next hopen =>
      obtain ⟨⟨update, next⟩, hpending, rfl⟩ := Option.map_eq_some_iff.mp h
      exact .sent (by simpa using fun hd => hopen (.inl hd)) hpending
  | unsent =>
    simp only [step] at h
    split at h
    · cases h
    · next hdetached =>
      rw [Bool.not_eq_false] at hdetached
      split at h
      · next completion hphase =>
        cases h
        exact .unsent hdetached (.inl ⟨completion, hphase⟩)
      · next hphase =>
        cases h
        exact .unsent hdetached (.inr hphase)
      · next hphase =>
        cases h
        exact .unsentLast hdetached hphase
      · cases h
  | commanded =>
    simp only [step] at h
    split at h
    · next hphase hcommands =>
      cases h
      exact .commanded hphase hcommands
    · cases h
  | reply reply =>
    simp only [step] at h
    split at h
    · cases h
    · next hopen =>
      cases h
      exact .reply reply (by simpa using fun ho => hopen (.inl ho))
  | cancel =>
    simp only [step] at h
    split at h
    · cases h
      exact .cancelUnheard
    · cases h
      exact .cancel
  | receive =>
    simp only [step] at h
    split at h
    · cases h
    · next hevents =>
      split at h
      · cases h
      · cases h
        exact .receive hevents
  | detach =>
    cases h
    exact .detach

variable {w w' : Worker} {action : ChildAction} {actions : List ChildAction}

theorem settle_cases (result : Result Completion) :
    (∃ error, result = .error error ∧ w.settle result = w.leave (.unknown error.text)) ∨
    (∃ (completion : Completion) (h : completion.checkpoint.state.terminal = true),
      result = .ok completion ∧
        w.settle result = w.leave (.finished (settledOutcome completion.checkpoint.state h))) ∨
    ∃ completion, result = .ok completion ∧ w.settle result = { w with phase := .asking completion }
    := by
  cases result with
  | error error => exact .inl ⟨error, rfl, rfl⟩
  | ok completion =>
    by_cases h : completion.checkpoint.state.terminal = true
    · exact .inr (.inl ⟨completion, h, rfl, by simp only [settle, h, dite_true]⟩)
    · exact .inr (.inr ⟨completion, rfl, by simp [settle, h]⟩)

theorem resume_cases (completion : Completion) (command : ChildCommand) :
    (∃ error, command.request completion = .error error ∧
      w.resume completion command = w.leave (.unknown error.text)) ∨
    ∃ request, command.request completion = .ok request ∧
      w.resume completion command = { w with
        requests := w.requests ++ [request]
        cancelled := command.answer.isNone
        phase := if command.answer.isSome then .answering else .running } := by
  unfold resume
  cases hrequest : command.request completion with
  | error error => exact .inl ⟨error, rfl, rfl⟩
  | ok request => exact .inr ⟨request, rfl, rfl⟩

theorem pending_cases {update : OperationUpdate} {next : Phase}
    (h : w.pending = some (update, next)) :
    (∃ completion suspension, w.phase = .asking completion ∧
      completion.checkpoint.state = .suspended suspension ∧ next = .listening completion ∧
      update = .waiting (waitingPrompt w.id suspension) (some (recoveryOf w.id))) ∨
    (w.phase = .answering ∧ next = .running ∧ update = .running (some (recoveryOf w.id))) ∨
    (w.phase = .ending update ∧ next = .ended) := by
  unfold pending at h
  split at h
  · next completion hphase =>
    split at h
    · next suspension hstate =>
      cases h
      exact .inl ⟨completion, suspension, hphase, hstate, rfl, rfl⟩
    · cases h
  · next hphase =>
    cases h
    exact .inr (.inl ⟨hphase, rfl, rfl⟩)
  · next hphase =>
    cases h
    exact .inr (.inr ⟨hphase, rfl⟩)
  · cases h

@[simp] theorem told_emit (update : OperationUpdate) (next : Phase) :
    (w.emit update next).told = w.told ++ [⟨w.sequence, update⟩] :=
  (List.append_assoc _ _ _).symm

private theorem settle_quiet (result : Result Completion) :
    (w.settle result).told = w.told ∧ (w.settle result).sequence = w.sequence ∧
      (w.settle result).id = w.id := by
  rcases settle_cases result with ⟨error, -, h⟩ | ⟨completion, hterminal, -, h⟩ | ⟨completion, -, h⟩
  all_goals
    rw [h]
    exact ⟨rfl, rfl, rfl⟩

private theorem resume_quiet (completion : Completion) (command : ChildCommand) :
    (w.resume completion command).told = w.told ∧
      (w.resume completion command).sequence = w.sequence ∧
      (w.resume completion command).id = w.id := by
  rcases resume_cases completion command with ⟨error, -, h⟩ | ⟨request, -, h⟩
  all_goals
    rw [h]
    exact ⟨rfl, rfl, rfl⟩

theorem Stepped.told_cases (h : w.Stepped action w') :
    (w'.told = w.told ∧ w'.sequence = w.sequence ∧ w'.id = w.id) ∨
    ∃ update next, w.pending = some (update, next) ∧ w' = w.emit update next := by
  cases h with
  | settled result h => exact .inl (settle_quiet result)
  | @sent update next hdetached h => exact .inr ⟨update, next, h, rfl⟩
  | commanded h hcommands => exact .inl (resume_quiet _ _)
  | @receive event rest h =>
    refine .inl ⟨?_, rfl, rfl⟩
    rw [told, told, h, List.append_assoc]
    rfl
  | _ => exact .inl ⟨rfl, rfl, rfl⟩

end Worker

end Zhir.Builtins
