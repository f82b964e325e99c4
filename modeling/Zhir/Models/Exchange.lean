import Zhir.Core.Conversation
import Zhir.Core.Session
import Zhir.Library.Machine
import Zhir.Models.Decoding

/-!
The session of a model that only knows exchanges: one task that takes commands, polls the running
exchange and sends its events through a bounded channel, and the receiver of these events.
-/

set_option autoImplicit false
set_option relaxedAutoImplicit false

namespace Zhir.Models.Exchange

open Zhir.Core
open Zhir.Library (Machine)

/-- What the session takes from its model: the negotiation, and the reading of the effective
profile in the provider data of a response. -/
structure Adapter where
  negotiate : ModelRequest → Result NegotiatedProfile
  effective : Value → Result (List (String × Core.Confirmation))

def validate (response : GenerationOutput) : Result Unit := do
  validateOutput response.output
  require (¬ (response.output.any unfinishedCall ∧ response.status ≠ .continuation))
    (.protocol "unfinished provider call requires continuation")

def responseStatus (response : GenerationOutput) : ResponseStatus :=
  if response.status ≠ .completed then response.status
  else if response.output.any (fun item => item matches .runtimeToolCall _) then .requiresResults
  else .completed

/-- An event before it has its sequence. `answers` names the generation that an acknowledgement
is of; the code does not keep it. -/
structure Emitted where
  body : SessionEventBody
  answers : Option String := none
  deriving DecidableEq, Repr

inductive Emission
  | control | start | output | finish
  deriving DecidableEq, Repr

/-- `Emission::control`. -/
def Emission.isControl : Emission → Bool
  | .control | .start => true
  | .output | .finish => false

structure FinishEvents where
  generationId : String
  index : Nat
  output : List Output
  finished : Option ResponseCompletion
  deriving DecidableEq, Repr

namespace FinishEvents

def new (adapter : Adapter) (generationId : String) (inputPosition : Nat)
    (response : GenerationOutput) : Result FinishEvents := do
  let effective ← match response.providerData.field "effective" with
    | some v => adapter.effective v
    | none => .ok []
  return {
    generationId
    index := 0
    output := response.output
    finished := some {
      generationId
      inputPosition
      responseStatus := responseStatus response
      usage := response.usage
      modelId := response.modelId
      responseId := response.responseId
      finishReason := response.finishReason
      providerData := response.providerData
      effective } }

def outputEvent (generationId : String) (index : Nat) (output : Output) : Emitted :=
  ⟨.output (some generationId) (generationId ++ ":" ++ toString index) "model" output, none⟩

/-- `FinishEvents::next`; there is no event where the completion has been taken before. -/
def next (f : FinishEvents) : Option (Emitted × Emission × FinishEvents) :=
  match f.output with
  | output :: rest =>
    some (outputEvent f.generationId f.index output, .output,
      { f with index := f.index + 1, output := rest })
  | [] => f.finished.map fun completion =>
    (⟨.responseFinished completion, none⟩, .finish, { f with finished := none })

def remaining (f : FinishEvents) : List Emitted :=
  f.output.mapIdx (fun i output => outputEvent f.generationId (f.index + i) output) ++
    f.finished.toList.map fun completion => ⟨.responseFinished completion, none⟩

end FinishEvents

/-- `SessionTask`, less its event port. `active` is the exchange that runs. -/
structure Task where
  request : ModelRequest
  seed : List Message
  history : History
  contextRevision : Nat
  inputPosition : Nat
  profileRevision : Nat
  userSealed : Bool
  active : Option (String × Nat)

namespace Task

def isUser : Message → Bool
  | .user _ => true
  | _ => false

/-- `SessionTask::command`, with the cancellation already checked. -/
def command (adapter : Adapter) (t : Task) (c : SessionCommand) (busy : Bool) :
    Result (Task × List Emitted) := do
  require (c.id ≠ "") (.invalid "empty command identity")
  let acknowledge : SessionEventBody := .acknowledged c.id none
  match c.body with
  | .generate generationId contextRevision inputPosition profileRevision =>
    require (¬ (busy ∨ generationId = "" ∨ contextRevision ≠ t.contextRevision ∨
        inputPosition ≠ t.inputPosition ∨ profileRevision ≠ t.profileRevision))
      (.protocol
        "generation does not match the acknowledged projection or another generation is active")
    let request := { t.request with messages := t.seed ++ conversation t.history.entries }
    let _ ← adapter.negotiate request
    return ({ t with request := request, active := some (generationId, inputPosition) },
      [⟨acknowledge, some generationId⟩, ⟨.responseStarted generationId inputPosition, none⟩])
  | .append entry contextRevision inputPosition source =>
    require (¬ (source = .submitted ∧ t.userSealed ∧ isUser entry.message))
      (.invalid "user input is sealed")
    require (¬ (contextRevision ≠ t.contextRevision + 1 ∨ inputPosition < t.inputPosition))
      (.protocol "non-contiguous context revision")
    entry.validate
    let history ← t.history.append [entry]
    return ({ t with history, contextRevision, inputPosition }, [⟨acknowledge, none⟩])
  | .replaceContext entries contextRevision =>
    require (¬ (busy ∨ contextRevision ≠ t.contextRevision + 1))
      (.protocol "context replacement crosses a generation or revision")
    let replaced ← History.fromEntries entries
    return ({ t with seed := conversation replaced.entries, history := .empty, contextRevision },
      [⟨acknowledge, none⟩])
  | .updateProfile revision profile =>
    require (revision = t.profileRevision + 1) (.protocol "non-contiguous profile revision")
    let request := { t.request with profile }
    let _ ← adapter.negotiate request
    return ({ t with request := request, profileRevision := revision }, [⟨acknowledge, none⟩])
  | .sealUserInput => return ({ t with userSealed := true }, [⟨acknowledge, none⟩])
  | .close =>
    require (¬ busy) (.protocol "cannot close an active generation")
    return (t, [⟨acknowledge, none⟩, ⟨.closed "host_request" .null, none⟩])
  | .delegationContext _ _ _ | .interruptOutput _ _ | .flushInput | .setInputAudio _ =>
    .error (.invalid "unsupported exchange session command")

end Task

/-- What the task leaves in the terminal port; a task that panics leaves nothing. -/
inductive Terminal
  | returned (result : Result Unit)
  | lost

/-- The error that the receiver makes of the terminal result. -/
def Terminal.error : Terminal → Option Error
  | .returned (.error e) => some e
  | .returned (.ok _) => none
  | .lost => some (.protocol "exchange driver lost its terminal result")

inductive Phase
  | top | waiting | returned
  deriving DecidableEq, Repr

/-- What `receive` returns. -/
inductive Reply
  | event (e : SessionEvent)
  | ended
  | failed (error : Error)
  deriving DecidableEq, Repr

structure Generation where
  generationId : String
  inputPosition : Nat
  commandId : String
  /-- The events of its response, once the exchange has completed. -/
  response : Option FinishEvents

/-- The task with its port, the receiver, and what has happened: every event that entered the
channel, every accepted generation and every reply of the receiver. -/
structure Session where
  task : Task
  controls : List Emitted
  sending : Option Emitted := none
  emission : Emission := .control
  generating : Bool := false
  finishing : Option FinishEvents := none
  closing : Bool := false
  phase : Phase := .top
  capacity : Nat
  queue : List (Nat × Emitted) := []
  sequence : Nat := 0
  /-- The generations whose callback has been invoked, and so has a sink for deltas. -/
  invoked : List String := []
  terminal : Option Terminal := none
  stopped : Bool := false
  error : Option Error := none
  emitted : List (Nat × Emitted) := []
  generations : List Generation := []
  replies : List Reply := []

inductive Action
  /-- The top of the loop, with the outcome of its check of cancellation and deadline. -/
  | stage (check : Option Error)
  /-- The pending emission enters the channel. -/
  | sent
  /-- The running exchange completes. -/
  | exchanged (result : Result GenerationOutput)
  /-- A command arrives, or every control handle is gone. -/
  | command (c : Option SessionCommand)
  /-- Cancellation, deadline or a dropped receiver end the wait. -/
  | interrupted (error : Error)
  | panicked
  /-- A callback emits through its sink. -/
  | delta (generationId : String) (delta : Value)
  | receive

namespace Session

variable (adapter : Adapter) (s : Session)

def finish (t : Terminal) : Session :=
  { s with
    phase := .returned
    terminal := some t
    task.active := none
    generating := false }

/-- `Events::send` where there is room. -/
def push (e : Emitted) : Session :=
  { s with
    queue := s.queue ++ [(s.sequence, e)]
    emitted := s.emitted ++ [(s.sequence, e)]
    sequence := s.sequence + 1 }

def isStarted (e : Emitted) : Bool := e.body matches .responseStarted _ _

/-- The loop up to its `select!`. -/
def stage (check : Option Error) : Session :=
  match check with
  | some e => s.finish (.returned (.error e))
  | none =>
    match s.sending, s.controls, s.finishing with
    | some _, _, _ => { s with phase := .waiting }
    | none, e :: rest, _ =>
      { s with
        controls := rest
        sending := some e
        emission := if isStarted e then .start else .control
        phase := .waiting }
    | none, [], some f =>
      match f.next with
      | some (e, emission, f) =>
        { s with finishing := some f, sending := some e, emission := emission, phase := .waiting }
      | none => s.finish .lost
    | none, [], none =>
      if s.closing then s.finish (.returned (.ok ())) else { s with phase := .waiting }

def delivered : Session :=
  let s := { s with sending := none, phase := .top }
  match s.emission with
  | .start =>
    { s with generating := true, invoked := s.invoked ++ s.task.active.toList.map Prod.fst }
  | .finish => { s with finishing := none }
  | .control | .output => s

def settled (generations : List Generation) (f : FinishEvents) : List Generation :=
  generations.dropLast ++ generations.getLast?.toList.map fun g => { g with response := some f }

def exchanged (result : Result GenerationOutput) : Session :=
  match s.task.active with
  | none => s.finish .lost
  | some (generationId, inputPosition) =>
    let finishing : Result FinishEvents := do
      let response ← result
      validate response
      FinishEvents.new adapter generationId inputPosition response
    match finishing with
    | .error e => s.finish (.returned (.error e))
    | .ok f =>
      { s with
        task.active := none
        generating := false
        finishing := some f
        generations := settled s.generations f
        phase := .top }

def accepted (c : SessionCommand) : List Generation :=
  match c.body with
  | .generate generationId _ inputPosition _ =>
    s.generations ++ [⟨generationId, inputPosition, c.id, none⟩]
  | _ => s.generations

def command (c : SessionCommand) : Session :=
  let busy := s.task.active.isSome || s.finishing.isSome
  match s.task.command adapter c busy with
  | .error e => s.finish (.returned (.error e))
  | .ok (task, events) =>
    { s with
      task
      controls := events
      closing := decide (c.body = .close)
      generations := s.accepted c
      phase := .top }

def settle (t : Terminal) : Session :=
  { s with stopped := true, error := t.error }

/-- `receive` looks at the terminal port first. -/
def awake : Session :=
  match s.stopped, s.terminal with
  | false, some t => s.settle t
  | _, _ => s

/-- The next event, or what comes after all of them; nothing where `receive` has to wait. -/
def answer : Session :=
  match s.queue with
  | (sequence, e) :: rest =>
    { s with queue := rest, replies := s.replies ++ [.event ⟨sequence, e.body⟩] }
  | [] =>
    if s.stopped then
      match s.error with
      | some e => { s with error := none, replies := s.replies ++ [.failed e] }
      | none => { s with replies := s.replies ++ [.ended] }
    else s

/-- One completed `receive`. -/
def receive : Session := s.awake.answer

def step (s : Session) : Action → Session
  | .stage check => if s.phase = .top then s.stage check else s
  | .sent =>
    match s.sending with
    | some e =>
      if s.phase = .waiting ∧ s.queue.length < s.capacity then (s.push e).delivered else s
    | none => s
  | .exchanged result =>
    if s.phase = .waiting ∧ s.generating then s.exchanged adapter result else s
  | .command c =>
    if s.phase = .waiting ∧ s.closing = false ∧ s.controls = [] ∧
        (s.sending = none ∨ s.emission.isControl = false) then
      match c with
      | some c => s.command adapter c
      | none => s.finish (.returned (.error .cancelled))
    else s
  | .interrupted e => if s.phase = .waiting then s.finish (.returned (.error e)) else s
  | .panicked => if s.phase = .returned then s else s.finish .lost
  | .delta generationId v =>
    -- a sink may be kept after its exchange has completed, and used at any time
    if generationId ∈ s.invoked ∧ s.queue.length < s.capacity ∧ s.stopped = false then
      s.push ⟨.delta (some generationId) v, none⟩
    else s
  | .receive => s.receive

def machine : Machine Session Action Unit where
  step s a := (step adapter s a, ())

end Session

/-- `open`: the session at its start. -/
def openSession (adapter : Adapter) (capabilities : CapabilitySet) (o : SessionOpen) :
    Result Session := do
  require (¬ [Capability.duplex, .conversationItems, .delegation, .interruptOutput, .flushInput,
      .inputAudioControl, .steering, .asyncResults, .resume].any capabilities.supports)
    (.invalid "exchange session advertises unsupported session capabilities")
  o.limits.validate
  let _ ← adapter.negotiate o.request
  require (o.binding = none) (.invalid "binding does not belong to an exchange adapter")
  require (o.recovery = none) (.protocol "exchange session has no persistent session resume")
  return {
    task := {
      request := o.request
      seed := o.request.messages
      history := .empty
      contextRevision := o.contextRevision
      inputPosition := o.inputPosition
      profileRevision := o.profileRevision
      userSealed := false
      active := none }
    controls := [⟨.ready o.contextRevision, none⟩]
    capacity := o.limits.maxSessionEvents }

section Steps

variable {adapter : Adapter} {s : Session}

/-- What an accepted command adds to the controls. -/
inductive Commanded (t : Task) (c : SessionCommand) (busy : Bool) : Task → List Emitted → Prop
  | generate {t' : Task} (generationId : String) (contextRevision inputPosition : Nat)
      (profileRevision : Nat)
      (hbody : c.body = .generate generationId contextRevision inputPosition profileRevision)
      (hbusy : busy = false) (hactive : t'.active = some (generationId, inputPosition)) :
      Commanded t c busy t' [⟨.acknowledged c.id none, some generationId⟩,
        ⟨.responseStarted generationId inputPosition, none⟩]
  | close (hbody : c.body = .close) (hbusy : busy = false) :
      Commanded t c busy t [⟨.acknowledged c.id none, none⟩, ⟨.closed "host_request" .null, none⟩]
  | other {t' : Task} (hgenerate : ∀ g r p v, c.body ≠ .generate g r p v)
      (hclose : c.body ≠ .close) (hactive : t'.active = t.active) :
      Commanded t c busy t' [⟨.acknowledged c.id none, none⟩]

theorem Task.commanded {t t' : Task} {c : SessionCommand} {busy : Bool} {events : List Emitted}
    (h : t.command adapter c busy = .ok (t', events)) : Commanded t c busy t' events := by
  obtain ⟨id, body⟩ := c
  obtain ⟨_, -, h⟩ := Result.bind_ok h
  cases body with
  | generate generationId contextRevision inputPosition profileRevision =>
    obtain ⟨_, hmatch, h⟩ := Result.bind_ok h
    obtain ⟨_, -, h⟩ := Result.bind_ok h
    cases h
    have hbusy : busy = false := by
      have hnot := require_ok hmatch
      exact eq_false_of_ne_true fun h => hnot (.inl h)
    exact .generate generationId contextRevision inputPosition profileRevision rfl hbusy rfl
  | append entry contextRevision inputPosition source =>
    obtain ⟨_, -, h⟩ := Result.bind_ok h
    obtain ⟨_, -, h⟩ := Result.bind_ok h
    obtain ⟨_, -, h⟩ := Result.bind_ok h
    obtain ⟨_, -, h⟩ := Result.bind_ok h
    cases h
    exact .other (fun _ _ _ _ h => nomatch h) (fun h => nomatch h) rfl
  | replaceContext entries contextRevision =>
    obtain ⟨_, -, h⟩ := Result.bind_ok h
    obtain ⟨_, -, h⟩ := Result.bind_ok h
    cases h
    exact .other (fun _ _ _ _ h => nomatch h) (fun h => nomatch h) rfl
  | updateProfile revision profile =>
    obtain ⟨_, -, h⟩ := Result.bind_ok h
    obtain ⟨_, -, h⟩ := Result.bind_ok h
    cases h
    exact .other (fun _ _ _ _ h => nomatch h) (fun h => nomatch h) rfl
  | sealUserInput =>
    cases h
    exact .other (fun _ _ _ _ h => nomatch h) (fun h => nomatch h) rfl
  | close =>
    obtain ⟨_, hbusy, h⟩ := Result.bind_ok h
    cases h
    exact .close rfl (eq_false_of_ne_true (require_ok hbusy))
  | delegationContext _ _ _ => cases h
  | interruptOutput _ _ => cases h
  | flushInput => cases h
  | setInputAudio _ => cases h

theorem Session.awake_eq (s : Session) :
    s.awake = s ∨ ∃ t, s.stopped = false ∧ s.terminal = some t ∧ s.awake = s.settle t := by
  obtain hterminal | ⟨t, hterminal⟩ := Option.eq_none_or_eq_some s.terminal
  · left
    cases hstopped : s.stopped <;> simp only [Session.awake, hterminal, hstopped]
  · by_cases hstopped : s.stopped = false
    · right
      refine ⟨t, hstopped, hterminal, ?_⟩
      simp only [Session.awake, hstopped, hterminal]
    · left
      have hstopped := eq_true_of_ne_false hstopped
      simp only [Session.awake, hstopped]

theorem Session.answer_eq (s : Session) :
    (∃ e rest, s.queue = e :: rest ∧ s.answer =
      { s with queue := rest, replies := s.replies ++ [.event ⟨e.1, e.2.body⟩] }) ∨
    (s.queue = [] ∧ s.stopped = true ∧ ∃ e, s.error = some e ∧ s.answer =
      { s with error := none, replies := s.replies ++ [.failed e] }) ∨
    (s.queue = [] ∧ s.stopped = true ∧ s.error = none ∧ s.answer =
      { s with replies := s.replies ++ [.ended] }) ∨
    (s.queue = [] ∧ s.stopped = false ∧ s.answer = s) := by
  unfold Session.answer
  cases hqueue : s.queue with
  | cons e rest => exact .inl ⟨e, rest, rfl, rfl⟩
  | nil =>
    right
    by_cases hstopped : s.stopped = true
    · rw [if_pos hstopped]
      obtain herror | ⟨e, herror⟩ := Option.eq_none_or_eq_some s.error
      · refine .inr (.inl ⟨rfl, hstopped, herror, ?_⟩)
        simp only [herror]
      · refine .inl ⟨rfl, hstopped, e, herror, ?_⟩
        simp only [herror]
    · rw [if_neg hstopped]
      exact .inr (.inr ⟨rfl, eq_false_of_ne_true hstopped, rfl⟩)

/-- A `receive` touches the receiver's end only. -/
theorem Session.receive_eq (s : Session) : ∃ queue stopped error replies,
    s.receive =
      { s with queue := queue, stopped := stopped, error := error, replies := replies } := by
  have hawake : ∃ stopped error, s.awake = { s with stopped := stopped, error := error } := by
    rcases s.awake_eq with h | ⟨t, -, -, h⟩
    · exact ⟨_, _, h⟩
    · exact ⟨_, _, h⟩
  obtain ⟨stopped, error, hawake⟩ := hawake
  unfold Session.receive
  rcases s.awake.answer_eq with ⟨e, rest, -, h⟩ | ⟨-, -, e, -, h⟩ | ⟨-, -, -, h⟩ | ⟨-, -, h⟩ <;>
    · rw [h, hawake]
      exact ⟨_, _, _, _, rfl⟩

inductive Stepped (adapter : Adapter) (s : Session) : Action → Session → Prop
  | idle (a : Action) : Stepped adapter s a s
  | ended (a : Action) (t : Terminal) (hphase : s.phase ≠ .returned) :
      Stepped adapter s a (s.finish t)
  | waits (a : Action) (hphase : s.phase = .top) : Stepped adapter s a { s with phase := .waiting }
  | staged {e : Emitted} {rest : List Emitted} (a : Action) (hphase : s.phase = .top)
      (hsending : s.sending = none) (hcontrols : s.controls = e :: rest) :
      Stepped adapter s a
        { s with
          controls := rest
          sending := some e
          emission := if Session.isStarted e then .start else .control
          phase := .waiting }
  | next {f f' : FinishEvents} {e : Emitted} {emission : Emission} (a : Action)
      (hphase : s.phase = .top) (hsending : s.sending = none) (hcontrols : s.controls = [])
      (hfinishing : s.finishing = some f) (hnext : f.next = some (e, emission, f')) :
      Stepped adapter s a
        { s with finishing := some f', sending := some e, emission := emission, phase := .waiting }
  | sent {e : Emitted} (hphase : s.phase = .waiting) (hsending : s.sending = some e) :
      Stepped adapter s .sent (s.push e).delivered
  | exchanged {generationId : String} {inputPosition : Nat} {r : GenerationOutput}
      {f : FinishEvents} (result : Result GenerationOutput) (hphase : s.phase = .waiting)
      (hgenerating : s.generating = true)
      (hactive : s.task.active = some (generationId, inputPosition)) (hvalid : validate r = .ok ())
      (hnew : FinishEvents.new adapter generationId inputPosition r = .ok f) :
      Stepped adapter s (.exchanged result)
        { s with
          task.active := none
          generating := false
          finishing := some f
          generations := Session.settled s.generations f
          phase := .top }
  | commanded {c : SessionCommand} {task : Task} {events : List Emitted}
      (hphase : s.phase = .waiting) (hclosing : s.closing = false) (hcontrols : s.controls = [])
      (hsending : s.sending = none ∨ s.emission.isControl = false)
      (hcommand : Commanded s.task c (s.task.active.isSome || s.finishing.isSome) task events) :
      Stepped adapter s (.command (some c))
        { s with
          task
          controls := events
          closing := decide (c.body = .close)
          generations := s.accepted c
          phase := .top }
  | delta {generationId : String} (v : Value) (hinvoked : generationId ∈ s.invoked)
      (hstopped : s.stopped = false) :
      Stepped adapter s (.delta generationId v) (s.push ⟨.delta (some generationId) v, none⟩)
  | received : Stepped adapter s .receive s.receive

private theorem Session.stage_some {e : Emitted} (hsending : s.sending = some e) :
    s.stage none = { s with phase := .waiting } := by
  simp only [Session.stage, hsending]

private theorem Session.stage_cons {e : Emitted} {rest : List Emitted} (hsending : s.sending = none)
    (hcontrols : s.controls = e :: rest) :
    s.stage none = { s with
      controls := rest
      sending := some e
      emission := if Session.isStarted e then .start else .control
      phase := .waiting } := by
  simp only [Session.stage, hsending, hcontrols]

private theorem Session.stage_finishing {f : FinishEvents} (hsending : s.sending = none)
    (hcontrols : s.controls = []) (hfinishing : s.finishing = some f) :
    s.stage none = match f.next with
      | some (e, emission, f) =>
        { s with finishing := some f, sending := some e, emission := emission, phase := .waiting }
      | none => s.finish .lost := by
  simp only [Session.stage, hsending, hcontrols, hfinishing]

private theorem Session.stage_idle (hsending : s.sending = none) (hcontrols : s.controls = [])
    (hfinishing : s.finishing = none) :
    s.stage none =
      if s.closing then s.finish (.returned (.ok ())) else { s with phase := .waiting } := by
  simp only [Session.stage, hsending, hcontrols, hfinishing]

private theorem Session.stage_stepped (a : Action) (check : Option Error)
    (hphase : s.phase = .top) :
    Stepped adapter s a (s.stage check) := by
  have hrunning : s.phase ≠ .returned := by
    rw [hphase]
    exact fun h => nomatch h
  cases check with
  | some e => exact .ended a _ hrunning
  | none =>
    obtain hsending | ⟨e, hsending⟩ := Option.eq_none_or_eq_some s.sending
    · cases hcontrols : s.controls with
      | cons e rest =>
        rw [Session.stage_cons hsending hcontrols]
        exact .staged a hphase hsending hcontrols
      | nil =>
        obtain hfinishing | ⟨f, hfinishing⟩ := Option.eq_none_or_eq_some s.finishing
        · rw [Session.stage_idle hsending hcontrols hfinishing]
          by_cases hclosing : s.closing = true
          · rw [if_pos hclosing]
            exact .ended a _ hrunning
          · rw [if_neg hclosing]
            exact .waits a hphase
        · rw [Session.stage_finishing hsending hcontrols hfinishing]
          cases hnext : f.next with
          | none => exact .ended a _ hrunning
          | some parts => exact .next a hphase hsending hcontrols hfinishing hnext
    · rw [Session.stage_some hsending]
      exact .waits a hphase

private theorem Session.exchanged_stepped (result : Result GenerationOutput)
    (hphase : s.phase = .waiting)
    (hgenerating : s.generating = true) :
    Stepped adapter s (.exchanged result) (s.exchanged adapter result) := by
  have hrunning : s.phase ≠ .returned := by
    rw [hphase]
    exact fun h => nomatch h
  unfold Session.exchanged
  cases hactive : s.task.active with
  | none => exact .ended _ _ hrunning
  | some generation =>
    obtain ⟨generationId, inputPosition⟩ := generation
    cases result with
    | error e => exact .ended _ _ hrunning
    | ok r =>
      cases hvalid : validate r with
      | error e =>
        simp only [bind, Except.bind, hvalid]
        exact .ended _ _ hrunning
      | ok _ =>
        cases hnew : FinishEvents.new adapter generationId inputPosition r with
        | error e =>
          simp only [bind, Except.bind, hvalid, hnew]
          exact .ended _ _ hrunning
        | ok f =>
          simp only [bind, Except.bind, hvalid, hnew]
          exact .exchanged _ hphase hgenerating hactive hvalid hnew

theorem Session.stepped (adapter : Adapter) (s : Session) (a : Action) :
    Stepped adapter s a (s.step adapter a) := by
  cases a with
  | stage check =>
    by_cases hphase : s.phase = .top
    · simp only [Session.step, if_pos hphase]
      exact Session.stage_stepped _ check hphase
    · simp only [Session.step, if_neg hphase]
      exact .idle _
  | sent =>
    cases hsending : s.sending with
    | none =>
      simp only [Session.step, hsending]
      exact .idle _
    | some e =>
      simp only [Session.step, hsending]
      by_cases hroom : s.phase = .waiting ∧ s.queue.length < s.capacity
      · rw [if_pos hroom]
        exact .sent hroom.1 hsending
      · rw [if_neg hroom]
        exact .idle _
  | exchanged result =>
    by_cases hphase : s.phase = .waiting ∧ s.generating = true
    · simp only [Session.step, if_pos hphase]
      exact Session.exchanged_stepped result hphase.1 hphase.2
    · simp only [Session.step, if_neg hphase]
      exact .idle _
  | command c =>
    by_cases hguard : s.phase = .waiting ∧ s.closing = false ∧ s.controls = [] ∧
        (s.sending = none ∨ s.emission.isControl = false)
    · simp only [Session.step, if_pos hguard]
      obtain ⟨hphase, hclosing, hcontrols, hsending⟩ := hguard
      have hrunning : s.phase ≠ .returned := by
        rw [hphase]
        exact fun h => nomatch h
      cases c with
      | none => exact .ended _ _ hrunning
      | some c =>
        unfold Session.command
        cases hcommand : s.task.command adapter c (s.task.active.isSome || s.finishing.isSome) with
        | error e =>
          simp only [hcommand]
          exact .ended _ _ hrunning
        | ok parts =>
          simp only [hcommand]
          exact .commanded hphase hclosing hcontrols hsending (Task.commanded hcommand)
    · simp only [Session.step, if_neg hguard]
      exact .idle _
  | interrupted e =>
    by_cases hphase : s.phase = .waiting
    · simp only [Session.step, if_pos hphase]
      refine .ended _ _ ?_
      rw [hphase]
      exact fun h => nomatch h
    · simp only [Session.step, if_neg hphase]
      exact .idle _
  | panicked =>
    by_cases hphase : s.phase = .returned
    · simp only [Session.step, if_pos hphase]
      exact .idle _
    · simp only [Session.step, if_neg hphase]
      exact .ended _ _ hphase
  | delta generationId v =>
    by_cases hguard : generationId ∈ s.invoked ∧ s.queue.length < s.capacity ∧ s.stopped = false
    · simp only [Session.step, if_pos hguard]
      exact .delta v hguard.1 hguard.2.2
    · simp only [Session.step, if_neg hguard]
      exact .idle _
  | receive => exact .received

end Steps

end Zhir.Models.Exchange
