import Zhir.Core.Session
import Zhir.Models.Codec
import Zhir.Models.Confirmation

/-!
A Live session: how commands and server events move it, and the delegations it has open.
-/

set_option autoImplicit false
set_option relaxedAutoImplicit false

namespace Zhir.OpenAI

open Zhir.Core
open Zhir.Models (Confirmation JsonText)

/-- `text`. -/
def messageText (message : Message) : Result String := do
  let parts ← match message with
    | .user content | .system content | .external content => .ok content
    | .assistant output _ => output.mapM fun
      | .content content => .ok content
      | _ => .error (.invalid "Live history accepts conversation text only")
    | _ => .error (.invalid "Live history accepts conversation text only")
  let texts ← parts.mapM fun
    | .text text => .ok text
    | _ => .error (.invalid "Live history accepts text only")
  return String.join texts

def contextText (content : List Content) : Result String := do
  let texts ← content.mapM fun
    | .text text => .ok text
    | _ => .error (.invalid "Live delegation context requires text")
  return String.join texts

def outcomeText (json : JsonText) : OperationOutcome → Result String
  | .success content structured => do
    let text ← contextText content
    if structured.isNull then return text
    else if text = "" then return json.print structured
    else return text ++ "\n" ++ json.print structured
  | .failure error => .ok ("Task failed: " ++ error.message)
  | .cancelled reason => .ok ("Task cancelled: " ++ reason)

def role : Message → Option String
  | .system _ => some "developer"
  | .user _ | .external _ => some "user"
  | .assistant .. => some "assistant"
  | _ => none

def initialItem (message : Message) : Result Value := do
  match role message with
  | none => throw (.invalid "unsupported Live initial message")
  | some role => do
    let text ← messageText message
    let kind := if role = "assistant" then "output_text" else "input_text"
    return .object
      [("content", .array [.object [("text", .string text), ("type", .string kind)]]),
        ("role", .string role), ("type", .string "message")]

def initialItems (request : ModelRequest) : Result (List Value) := request.messages.mapM initialItem

/-- The endpoint limits a context fragment to 500 bytes; characters stay whole. -/
def fragmentBytes : Nat := 500

/-- Fragments of a text, the first of which has `room` left beside `current`. -/
def fragments (room : Nat) (current : List Char) : List Char → List (List Char)
  | [] => [current]
  | c :: rest =>
    if c.utf8Size ≤ room then fragments (room - c.utf8Size) (current ++ [c]) rest
    else current :: fragments (fragmentBytes - c.utf8Size) [c] rest

def contextFrame (kind id channel : String) (delegation : Option String) (index : Nat)
    (text : List Char) : Value :=
  .object
    ([("channel", .string channel),
      ("content", .array
        [.object [("text", .string (String.ofList text)), ("type", .string "input_text")]])] ++
    (delegation.map fun id => ("delegation_item_id", Value.string id)).toList ++
    [("event_id", .string (id ++ ":" ++ toString index)), ("type", .string kind)])

def contextFrames (kind id channel text : String) (delegation : Option String) : List Value :=
  (fragments fragmentBytes [] text.toList).mapIdx (contextFrame kind id channel delegation)

structure LiveTurn where
  id : String
  role : String
  transcript : String
  deriving DecidableEq, Repr

structure TextPart where
  kind : String
  text : String
  deriving DecidableEq, Repr

structure DelegationItem where
  kind : String
  id : String
  target : String
  content : List TextPart
  deriving DecidableEq, Repr

inductive ServerEvent
  | started (session : Value)
  | audioPaused
  | audioResumed
  | turn (turn : LiveTurn)
  | delegation (item : DelegationItem)
  | closed (reason : String) (usage : Value)
  | error (code message : String)
  | observation
  deriving DecidableEq, Repr

inductive Frame
  | unreadable
  | unknownFields
  | event (value : Value) (event : ServerEvent)
  deriving DecidableEq, Repr

structure LiveConfig where
  model : String
  instructions : String
  voice : String
  connectTimeout : Nat
  commandTimeout : Nat
  deriving DecidableEq, Repr

structure Adapter where
  config : LiveConfig
  /-- `negotiate`, which also encodes the initial items. -/
  negotiate : ModelRequest → Result NegotiatedProfile
  json : JsonText

inductive Phase
  | idle
  | starting
  | active
  | draining (reason : String) (usage : Value)
  | finished
  | closed
  deriving DecidableEq, Repr

inductive Pending
  | start
  | audio (id : String) (enabled : Bool)
  | close (id : String)
  deriving DecidableEq, Repr

def Pending.debug : Pending → String
  | .start => "Start"
  | .audio id enabled => "Audio \x7b id: \"" ++ id ++ "\", enabled: " ++ toString enabled ++ " \x7d"
  | .close id => "Close(\"" ++ id ++ "\")"

/-- `Protocol`. -/
structure Live where
  adapter : Adapter
  phase : Phase
  request : ModelRequest
  contextRevision : Nat
  confirmation : Confirmation Pending
  endId : Option String
  closeId : Option String
  remoteSession : Value
  /-- A set: no identity occurs twice. -/
  delegations : List String
  maxDelegations : Nat

inductive Action
  | connect (payload : Value) (deadline : Nat)
  | send (frame : Value)
  | drainInput
  | event (body : SessionEventBody)
  | disconnect
  | fail (error : Error)
  deriving DecidableEq, Repr

def acknowledge (commandId : String) : Action := .event (.acknowledged commandId none)

def observation (data : Value) : Action := .event (.delta none data)

/-- `append`. -/
def appendText (kind id channel text : String) (delegation : Option String) : List Action :=
  (contextFrames kind id channel text delegation).map .send

namespace Live

def opening (adapter : Adapter) (maxDelegations : Nat) (request : ModelRequest)
    (contextRevision : Nat) : Live where
  adapter
  phase := .idle
  request
  contextRevision
  confirmation := {}
  endId := none
  closeId := none
  remoteSession := .null
  delegations := []
  maxDelegations

def startPayload (adapter : Adapter) (items : List Value) : Value :=
  .object
    [("audio", .object [("output", .object [("voice", .string adapter.config.voice)])]),
      ("delegation", .object [("ack_filler", .bool false), ("type", .string "client")]),
      ("initial_items", .array items),
      ("instructions", .string adapter.config.instructions),
      ("model", .string adapter.config.model)]

def initial (now : Nat) (p : Live) : Result (List Action × Live) := do
  let _ ← p.adapter.negotiate p.request
  let items ← initialItems p.request
  let timeout := p.adapter.config.connectTimeout
  let confirmation ← p.confirmation.start now timeout .start "session.started"
  return ([.connect (startPayload p.adapter items) (now + timeout)],
    { p with confirmation, phase := .starting })

def commandsAllowed (p : Live) : Bool :=
  (match p.phase with
    | .idle | .active | .finished => true
    | _ => false) && p.confirmation.pending.isNone

def inputAllowed (p : Live) : Bool :=
  decide (p.phase = .active) && p.endId.isNone && p.closeId.isNone

def draining (p : Live) : Bool :=
  match p.phase with
  | .draining .. => true
  | _ => false

def finished (p : Live) : Bool :=
  match p.phase with
  | .finished | .closed => true
  | _ => false

def requireDelegation (id : String) (p : Live) : Result Unit :=
  require (id ∈ p.delegations) (.protocol "unknown or completed Live delegation")

def closeRemote (now : Nat) (p : Live) : Result (Action × Live) := do
  match p.closeId.or p.endId with
  | none => throw (.protocol "Live close has no command identity")
  | some id => do
    let confirmation ← p.confirmation.start now p.adapter.config.commandTimeout (.close id)
      "session.closed"
    return (.send (.object [("type", .string "session.close")]), { p with confirmation })

def requireOutputPhase (p : Live) : Result Unit :=
  require (p.phase = .active ∨ p.draining = true)
    (.protocol "Live output outside an active session")

def unsupported {α : Type} : Result α :=
  .error (.invalid "unsupported Live command or command order")

def append (commandId : String) (message : Message) (p : Live) : Result (List Action × Live) :=
  match message with
  | .user _ | .external _ =>
    if p.inputAllowed = true then do
      let text ← messageText message
      -- Nothing echoes the command; it counts as taken once every fragment is sent.
      return (appendText "session.context.append" commandId "commentary" text none ++
        [acknowledge commandId], p)
    else unsupported
  | .delegationResult id outcome =>
    if p.phase = .active then do
      p.requireDelegation id
      let text ← outcomeText p.adapter.json outcome
      return (appendText "delegation.context.append" commandId "speakable" text (some id) ++
        [acknowledge commandId], { p with delegations := p.delegations.filter (· ≠ id) })
    else unsupported
  | _ => unsupported

def command (now : Nat) (command : SessionCommand) (p : Live) : Result (List Action × Live) := do
  require (command.id ≠ "" ∧ p.commandsAllowed = true)
    (.invalid "invalid Live command identity or order")
  match command.body with
  | .append _ _ _ .accepted => return ([acknowledge command.id], p)
  | .append entry _ _ .submitted => p.append command.id entry.message
  | .delegationContext _ origin content =>
    if p.phase = .active then do
      p.requireDelegation origin.callId
      let text ← contextText content
      return (appendText "delegation.context.append" command.id "commentary" text
        (some origin.callId) ++ [acknowledge command.id], p)
    else unsupported
  | .setInputAudio enabled =>
    if p.inputAllowed = true then do
      let confirmation ← p.confirmation.start now p.adapter.config.commandTimeout
        (.audio command.id enabled)
        (if enabled then "input_audio.resumed" else "input_audio.paused")
      let kind := if enabled then "input_audio.resume" else "input_audio.pause"
      return ([.send (.object [("event_id", .string command.id), ("type", .string kind)])],
        { p with confirmation })
    else unsupported
  | .sealUserInput =>
    if p.inputAllowed = true then
      return ([.drainInput, acknowledge command.id], { p with endId := some command.id })
    else unsupported
  | .close =>
    if p.phase = .finished then return ([acknowledge command.id], { p with phase := .closed })
    else if p.phase = .active then do
      let (action, p) ← { p with closeId := some command.id }.closeRemote now
      return ([action], p)
    else unsupported
  | _ => unsupported

def started (now : Nat) (session : Value) (p : Live) : Result (List Action × Live) := do
  require (p.phase = .starting) (.protocol "unexpected or duplicate Live start")
  require (((Value.field "id" session).bind Models.asString).any (· ≠ ""))
    (.protocol "Live start lacks a remote session identity")
  let (pending, confirmation) ← p.confirmation.complete Pending.debug now
  require (pending = .start) (.protocol "unexpected Live start confirmation")
  return ([.event (.ready p.contextRevision)],
    { p with confirmation, remoteSession := session, phase := .active })

def audioControlled (now : Nat) (enabled : Bool) (p : Live) : Result (List Action × Live) := do
  match p.confirmation.waiting with
  | some (.audio id expected) => do
    require (expected = enabled) (.protocol "Live audio input acknowledgement mismatch")
    let (_, confirmation) ← p.confirmation.complete Pending.debug now
    return ([acknowledge id], { p with confirmation })
  | _ => throw (.protocol "Live audio input acknowledgement mismatch")

def turned (turn : LiveTurn) (p : Live) : Result (List Action × Live) := do
  p.requireOutputPhase
  require (turn.id ≠ "") (.protocol "empty Live conversation identity")
  if turn.role = "user" then
    return ([.event (.conversationItem turn.id (.user [.text turn.transcript]))], p)
  else if turn.role = "assistant" then
    return ([.event (.conversationItem turn.id
      (.assistant [.content (.text turn.transcript)] .null))], p)
  else throw (.protocol "invalid Live speaker")

def reported (item : DelegationItem) : Action :=
  .event (.output none item.id "live"
    (.delegation ⟨item.id, String.join (item.content.map TextPart.text)⟩))

def delegated (item : DelegationItem) (p : Live) : Result (List Action × Live) := do
  p.requireOutputPhase
  require (item.id ≠ "" ∧ item.kind = "delegation" ∧ item.target = "client" ∧
      ∀ part ∈ item.content, part.kind = "input_text")
    (.protocol "unsupported Live delegation")
  require (item.id ∈ p.delegations ∨ p.delegations.length < p.maxDelegations)
    (.protocol "Live delegation capacity exceeded")
  require (¬ (p.draining = true ∧ p.closeId = none))
    (.uncertain "Live closed with an unfinished delegation")
  return ([reported item], { p with delegations := p.delegations.insert item.id })

def remoteClosed (now : Nat) (reason : String) (usage : Value) (p : Live) :
    Result (List Action × Live) := do
  require (¬ (p.finished = true ∨ p.draining = true)) (.protocol "duplicate Live closure")
  let closing := match p.confirmation.waiting with
    | some (.close _) => true
    | _ => false
  require (¬ (reason = "connection_lost" ∨ (p.delegations ≠ [] ∧ p.closeId = none) ∨
      (closing = true ∧ reason ≠ "client_request")))
    (.uncertain ("Live closed without confirming requested completion: " ++ reason))
  match p.confirmation.waiting with
  | some (.close id) => do
    require (p.closeId.or p.endId = some id)
      (.uncertain "Live closed before pending command confirmation")
    let (_, confirmation) ← p.confirmation.complete Pending.debug now
    return ([.disconnect], { p with confirmation, phase := .draining reason usage })
  | none => do
    require (p.phase = .active) (.uncertain "Live closed before pending command confirmation")
    return ([.disconnect], { p with phase := .draining reason usage })
  | some _ => throw (.uncertain "Live closed before pending command confirmation")

def receive (now : Nat) (frame : Frame) (p : Live) : Result (List Action × Live) := do
  p.confirmation.check Pending.debug now
  match frame with
  | .unreadable => throw (.protocol "invalid Live event JSON")
  | .unknownFields => throw (.protocol "invalid Live event fields")
  | .event value event =>
    match event with
    | .started session => p.started now session
    | .audioPaused => p.audioControlled now false
    | .audioResumed => p.audioControlled now true
    | .turn turn => p.turned turn
    | .delegation item => p.delegated item
    | .closed reason usage => p.remoteClosed now reason usage
    | .error code message => return ([observation value, .fail (.model ⟨code, message, false⟩)], p)
    | .observation => return ([observation value], p)

def finalize (p : Live) : Result (List Action × Live) :=
  match p.phase with
  | .draining reason usage =>
    .ok ((p.closeId.map acknowledge).toList ++
        [.event (.closed reason
          (.object [("session", p.remoteSession), ("session_usage", usage)]))],
      { p with
        phase := if p.closeId.isSome then .closed else .finished
        endId := none
        closeId := none })
  | _ => .error (.protocol "Live finalized before remote closure")

end Live

end Zhir.OpenAI
