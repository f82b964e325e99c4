import Zhir.MiniMax.Tts

/-!
A synthesis session at work: the driver between the kernel's outbox and the service, with
every order of inputs, commands and service messages.
-/

set_option autoImplicit false
set_option relaxedAutoImplicit false

namespace Zhir.MiniMax

open Zhir.Core
open Zhir.Models (asString)

/-- `Driver`, with the frames it has written and what it has reported. -/
structure Driver where
  session : Session
  closing : Bool := false
  socketClosed : Bool := false
  /-- Its loop has returned. -/
  stopped : Bool := false
  sent : List Value := []
  emitted : List SessionEventBody := []
  played : List MediaChunk := []
  deriving DecidableEq, Repr

namespace Driver

def perform (d : Driver) (action : WireAction) : Driver :=
  if d.stopped then d
  else match action with
    | .send frame => { d with sent := d.sent ++ [frame] }
    | .event body => { d with emitted := d.emitted ++ [body] }
    | .observe data => { d with emitted := d.emitted ++ [.delta d.session.generation data] }
    | .media chunk => { d with played := d.played ++ [chunk] }
    | .fail _ => { d with stopped := true }
    | .close => { d with closing := true }

/-- The actions in order, up to the first that a write or a full port makes fail. -/
def performs (failing : Option Nat) (actions : List WireAction) (d : Driver) : Driver :=
  match failing with
  | none => actions.foldl perform d
  | some n => { (actions.take n).foldl perform d with stopped := true }

/-- The session took the stimulus, or the driver ends with its error. -/
def react (failing : Option Nat) (result : Result (List WireAction × Session)) (d : Driver) :
    Driver :=
  match result with
  | .error _ => { d with stopped := true }
  | .ok (actions, session) => { d with session }.performs failing actions

def takesCommands (d : Driver) : Bool :=
  !d.stopped && !d.closing && d.session.commandsAllowed

def takesMessages (d : Driver) : Bool := !d.stopped && !d.closing && !d.socketClosed

def disconnected (d : Driver) : Driver :=
  if d.session.isFinished then { d with socketClosed := true } else { d with stopped := true }

def expire (now : Nat) (d : Driver) : Driver :=
  match d.session.confirmation.check now with
  | .error _ => { d with stopped := true }
  | .ok () => d

end Driver

/-- The kernel's side of a session: its outbox, the commands the session has taken from it, the
inputs admitted with their positions, and the revision and position it has come to. -/
structure Dialogue where
  driver : Driver
  outbox : List SessionCommand
  taken : List SessionCommandBody
  admitted : List (Nat × Message)
  contextRevision : Nat
  inputPosition : Nat
  deriving DecidableEq, Repr

/-- Inputs of the host take a position of their own; results and the model's items do not. -/
def isInput (source : AppendSource) (message : Message) : Bool :=
  decide (source = .submitted) && (message.isUser || message.isExternal)

inductive Stimulus
  /-- The kernel admits an entry into the context. -/
  | admitEntry (commandId : String) (entry : HistoryEntry) (source : AppendSource)
  /-- The kernel prepares a command that admits nothing. -/
  | prepare (command : SessionCommand)
  /-- The driver takes the next command. -/
  | deliver (now : Nat) (failing : Option Nat)
  | receive (now : Nat) (message : WireMessage) (failing : Option Nat)
  | disconnect
  | expire (now : Nat)
  /-- Cancellation, a deadline, or a failing port. -/
  | stop

def isAppend : SessionCommandBody → Bool
  | .append .. => true
  | _ => false

namespace Dialogue

def admitEntry (commandId : String) (entry : HistoryEntry) (source : AppendSource) (d : Dialogue) :
    Dialogue :=
  let position := if isInput source entry.message then d.inputPosition + 1 else d.inputPosition
  { d with
    contextRevision := d.contextRevision + 1
    inputPosition := position
    outbox := d.outbox ++
      [⟨commandId, .append entry (d.contextRevision + 1) position source⟩]
    admitted := if isInput source entry.message then d.admitted ++ [(position, entry.message)]
      else d.admitted }

def step (d : Dialogue) : Stimulus → Dialogue
  | .admitEntry commandId entry source => d.admitEntry commandId entry source
  | .prepare command =>
    if isAppend command.body then d else { d with outbox := d.outbox ++ [command] }
  | .deliver now failing =>
    match d.outbox with
    | [] => d
    | command :: rest =>
      if d.driver.takesCommands then
        { d with
          outbox := rest
          taken := if (d.driver.session.command now command).isOk then d.taken ++ [command.body]
            else d.taken
          driver := d.driver.react failing (d.driver.session.command now command) }
      else d
  | .receive now message failing =>
    if d.driver.takesMessages then
      { d with driver := d.driver.react failing (d.driver.session.receive now message) }
    else d
  | .disconnect =>
    if d.driver.takesMessages then { d with driver := d.driver.disconnected } else d
  | .expire now => if d.driver.stopped then d else { d with driver := d.driver.expire now }
  | .stop => { d with driver.stopped := true }

/-- The session as the driver starts it: connected, and waiting for the service. -/
def opening (config : TtsConfig) (now : Nat) (o : SessionOpen) : Result Dialogue := do
  let session ← Session.opening config now o
  let session ← session.connected now
  return {
    driver := { session }
    outbox := []
    taken := []
    admitted := []
    contextRevision := o.contextRevision
    inputPosition := o.inputPosition }

def run (d : Dialogue) (stimuli : List Stimulus) : Dialogue := stimuli.foldl step d

end Dialogue

/-- What a session opened with `o` can come to. -/
def Reachable (o : SessionOpen) (d : Dialogue) : Prop :=
  ∃ config now start stimuli, Dialogue.opening config now o = .ok start ∧ d = start.run stimuli

def spokenText (frame : Value) : Option String :=
  if Value.field "event" frame = some (.string "task_continue") then
    (Value.field "text" frame).bind asString
  else none

def spokenTexts (sent : List Value) : List String := sent.filterMap spokenText

theorem spokenText_startFrame (config : TtsConfig) (sessionId : String) :
    spokenText (startFrame config sessionId) = none := rfl

theorem spokenTexts_append (xs ys : List Value) :
    spokenTexts (xs ++ ys) = spokenTexts xs ++ spokenTexts ys := List.filterMap_append

namespace Driver

private theorem perform_stopped {d : Driver} (h : d.stopped = true) (action : WireAction) :
    d.perform action = d := if_pos h

theorem foldl_stopped {d : Driver} (h : d.stopped = true) (actions : List WireAction) :
    actions.foldl perform d = d := by
  induction actions with
  | nil => rfl
  | cons action rest ih =>
    rw [List.foldl_cons, perform_stopped h]
    exact ih

@[simp] theorem perform_session (d : Driver) (action : WireAction) :
    (d.perform action).session = d.session := by
  unfold perform
  split
  · rfl
  · cases action <;> rfl

end Driver

end Zhir.MiniMax
