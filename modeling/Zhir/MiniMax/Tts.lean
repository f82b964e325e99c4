import Zhir.MiniMax.Audio
import Zhir.Models.Marker

/-!
The synthesis task over a WebSocket: how session commands and service events move it
through its phases.
-/

set_option autoImplicit false
set_option relaxedAutoImplicit false

namespace Zhir.MiniMax

open Zhir.Core
open Zhir.Models (asString decimal)

/-- `native::Confirmation`: one remote barrier at a time, with its deadline. -/
structure RemoteConfirmation where
  pending : Option (Option String × Nat × String) := none
  deriving DecidableEq, Repr

namespace RemoteConfirmation

def start (now timeout : Nat) (value : Option String) (expected : String)
    (r : RemoteConfirmation) : Result RemoteConfirmation := do
  require (r.pending = none) (.protocol "remote confirmation already pending")
  require (timeout ≠ 0) (.invalid "invalid confirmation timeout")
  return ⟨some (value, now + timeout, expected)⟩

private def debugValue : Option String → String
  | none => "None"
  | some id => "Some(\"" ++ id ++ "\")"

def check (now : Nat) (r : RemoteConfirmation) : Result Unit :=
  match r.pending with
  | some (value, deadline, expected) =>
    if now ≥ deadline then
      .error (.uncertain ("remote confirmation timed out: expected " ++ expected ++ ", pending " ++
        debugValue value))
    else .ok ()
  | none => .ok ()

def complete (now : Nat) (r : RemoteConfirmation) :
    Result (Option String × RemoteConfirmation) := do
  r.check now
  match r.pending with
  | some (value, _, _) => return (value, ⟨none⟩)
  | none => throw (.protocol "unsolicited remote confirmation")

end RemoteConfirmation

inductive AudioFormat
  | mp3 | pcm | flac | wav | pcmuRaw | pcmuWav
  deriving DecidableEq, Repr

def AudioFormat.name : AudioFormat → String
  | .mp3 => "mp3"
  | .pcm => "pcm"
  | .flac => "flac"
  | .wav => "wav"
  | .pcmuRaw => "pcmu_raw"
  | .pcmuWav => "pcmu_wav"

structure AudioSettings where
  format : AudioFormat
  sampleRate : Nat
  bitrate : Nat
  channels : Nat
  deriving DecidableEq, Repr

def AudioSettings.mediaType (a : AudioSettings) : String :=
  match a.format with
  | .mp3 => "audio/mpeg"
  | .pcm => "audio/pcm;encoding=s16le;rate=" ++ toString a.sampleRate ++ ";channels=" ++
      toString a.channels
  | .flac => "audio/flac"
  | .wav | .pcmuWav => "audio/wav"
  | .pcmuRaw => "audio/PCMU;rate=8000;channels=" ++ toString a.channels

structure TtsConfig where
  commandTimeout : Nat
  model : String
  voice : Value
  audio : AudioSettings
  languageBoost : Option String
  pronunciationDictionary : List String
  timbreWeights : List Value
  voiceEffects : Option Value
  subtitles : Option String
  continuousSound : Bool
  deriving DecidableEq, Repr

/-- A field that is only written when there is something to write. -/
def optionalField (name : String) (value : Option Value) : List (String × Value) :=
  (value.map fun v => (name, v)).toList

/-- `task_start`, with its fields in key order. -/
def startFrame (config : TtsConfig) (sessionId : String) : Value :=
  let bitrate := if config.audio.format = .mp3 then some (decimal config.audio.bitrate) else none
  .object
    ([("audio_setting", .object (optionalField "bitrate" bitrate ++
        [("channel", decimal config.audio.channels), ("format", .string config.audio.format.name),
          ("sample_rate", decimal config.audio.sampleRate)])),
      ("continuous_sound", .bool config.continuousSound), ("event", .string "task_start")] ++
    optionalField "language_boost" (config.languageBoost.map .string) ++
    [("model", .string config.model)] ++
    optionalField "pronunciation_dict"
      (if config.pronunciationDictionary = [] then none
        else some (.object [("tone", .array (config.pronunciationDictionary.map .string))])) ++
    [("session_id", .string sessionId)] ++
    optionalField "subtitle_enable" (config.subtitles.map fun _ => .bool true) ++
    optionalField "subtitle_type" (config.subtitles.map .string) ++
    optionalField "timbre_weights"
      (if config.timbreWeights = [] then none else some (.array config.timbreWeights)) ++
    optionalField "voice_modify" config.voiceEffects ++
    [("voice_setting", config.voice)])

def eventFrame (event : String) : Value := .object [("event", .string event)]

def continueFrame (text : String) : Value :=
  .object [("event", .string "task_continue"), ("text", .string text)]

def userText : Message → Result String
  | .user content => do
    require (content.all fun c => match c with | .text _ => true | _ => false)
      (.invalid "MiniMax TTS accepts text only")
    let text := String.join (content.filterMap fun c =>
      match c with
      | .text text => some text
      | _ => none)
    require (¬ (text = "" ∨ text.length > 10000))
      (.invalid "MiniMax TTS input must contain 1–10000 characters")
    return text
  | _ => .error (.invalid "MiniMax TTS accepts user text only")

def latestUser (messages : List Message) : Option Message := messages.reverse.find? Message.isUser

def latestText (messages : List Message) : Result String :=
  match latestUser messages with
  | some message => userText message
  | none => .error (.invalid "MiniMax TTS needs a user text message")

inductive Phase
  | connecting
  | ready
  | starting (text : String)
  | speaking
  | interrupting (epoch : Nat)
  | flushing
  | finishing
  | finished
  deriving DecidableEq, Repr

def Phase.synthesizes : Phase → Bool
  | .speaking | .interrupting _ | .flushing | .finishing => true
  | _ => false

structure Session where
  config : TtsConfig
  sessionId : String
  phase : Phase
  generation : Option String
  request : ModelRequest
  contextRevision : Nat
  inputPosition : Nat
  audio : Audio
  confirmation : RemoteConfirmation
  metadata : Value
  deriving DecidableEq, Repr

inductive WireAction
  | send (frame : Value)
  | event (body : SessionEventBody)
  | observe (data : Value)
  | media (chunk : MediaChunk)
  | fail (error : Error)
  | close
  deriving DecidableEq, Repr

/-- A received frame; a text frame as far as it is JSON. -/
inductive WireMessage
  | text (value : Option Value)
  | binary
  deriving DecidableEq, Repr

namespace Session

/-- `Adapter::open`. -/
def opening (config : TtsConfig) (now : Nat) (o : SessionOpen) : Result Session := do
  require (o.recovery = none ∧ o.afterSequence = none)
    (protocolError "MiniMax adapter has no verified session recovery mechanism")
  return {
    config
    sessionId := o.sessionId
    phase := .connecting
    generation := none
    request := o.request
    contextRevision := o.contextRevision
    inputPosition := o.inputPosition
    audio := Audio.new o.outputEpoch o.limits.maxMediaChunkBytes now config.audio.mediaType
    confirmation := {}
    metadata := .null }

/-- A barrier begins: the confirmation that is expected, and the phase until it comes. -/
def begins (now : Nat) (command : Option String) (expected : String) (phase : Phase)
    (s : Session) : Result Session := do
  let confirmation ← s.confirmation.start now s.config.commandTimeout command expected
  return { s with confirmation, phase }

def connected (now : Nat) (s : Session) : Result Session :=
  s.begins now none "connected_success" s.phase

def commandsAllowed (s : Session) : Bool :=
  s.confirmation.pending.isNone && match s.phase with
    | .ready | .speaking | .finished => true
    | _ => false

def isFinished (s : Session) : Bool := decide (s.phase = .finished)

def acknowledge (commandId : String) : WireAction := .event (.acknowledged commandId none)

def generate (now : Nat) (commandId generationId : String)
    (contextRevision inputPosition profileRevision : Nat) (s : Session) :
    Result (List WireAction × Session) := do
  require (generationId ≠ "") (protocolError "empty generation identity")
  require (contextRevision = s.contextRevision ∧ inputPosition = s.inputPosition ∧
      profileRevision = 0)
    (protocolError "generation projection mismatch")
  let text ← latestText s.request.messages
  let s ← { s with generation := some generationId }.begins now (some commandId) "task_started"
    (.starting text)
  return ([.send (startFrame s.config s.sessionId)], s)

def append (commandId : String) (entry : HistoryEntry) (contextRevision inputPosition : Nat)
    (source : AppendSource) (s : Session) : Result (List WireAction × Session) := do
  require (contextRevision = s.contextRevision + 1)
    (protocolError "non-contiguous context revision")
  let s := { s with contextRevision, inputPosition }
  if source = .accepted then return ([acknowledge commandId], s)
  else if s.phase = .ready then
    return ([acknowledge commandId],
      { s with request.messages := s.request.messages ++ [entry.message] })
  else do
    require (s.phase = .speaking) (protocolError "input outside synthesis")
    -- There is no remote receipt for an input; it counts as accepted once it is sent.
    let text ← userText entry.message
    return ([.send (continueFrame text), acknowledge commandId], s)

def interrupt (now : Nat) (commandId generationId : String) (outputEpoch : Nat) (s : Session) :
    Result (List WireAction × Session) := do
  require (s.generation = some generationId) (protocolError "interrupt generation mismatch")
  s.audio.validateEpoch outputEpoch
  let s ← s.begins now (some commandId) "task_canceled" (.interrupting outputEpoch)
  return ([.send (eventFrame "task_cancel")], s)

def command (now : Nat) (command : SessionCommand) (s : Session) :
    Result (List WireAction × Session) := do
  require (command.id ≠ "") (protocolError "empty command identity")
  match command.body, s.phase with
  | .generate generationId contextRevision inputPosition profileRevision, .ready =>
    s.generate now command.id generationId contextRevision inputPosition profileRevision
  | .append entry contextRevision inputPosition source, _ =>
    s.append command.id entry contextRevision inputPosition source
  | .interruptOutput generationId outputEpoch, .speaking =>
    s.interrupt now command.id generationId outputEpoch
  | .flushInput, .speaking => do
    let s ← s.begins now (some command.id) "task_flushed" .flushing
    return ([.send (eventFrame "task_flush")], s)
  | .sealUserInput, .speaking => do
    let s ← s.begins now (some command.id) "task_finished" .finishing
    return ([.send (eventFrame "task_finish")], s)
  | .close, _ =>
    return ([acknowledge command.id, .event (.closed "host_request" .null), .close], s)
  | _, _ => throw (protocolError "unsupported command or command order")

def asI64 : Value → Option Int
  | .number literal =>
    literal.toInt?.filter fun n => decide (-9223372036854775808 ≤ n ∧ n ≤ 9223372036854775807)
  | _ => none

def optionalString (name : String) (v : Value) : Result (Option String) :=
  match Value.field name v with
  | none => .ok none
  | some (.string s) => .ok (some s)
  | some _ => .error (protocolError "invalid event field type")

def rejection (base : Value) : Result (Option Error) := do
  match (Value.field "status_code" base).bind asI64 with
  | none => throw (protocolError "invalid service status code")
  | some 0 => return none
  | some code =>
    match (Value.field "status_msg" base).bind asString with
    | none => throw (protocolError "invalid service status message")
    | some message =>
      if code = 2205 then
        return some (.uncertain
          ("MiniMax TTS input queue rejected an uncorrelated command (2205): " ++ message))
      else return some (.model ⟨"minimax_" ++ toString code, message, false⟩)

def validateAudioMetadata (v : Value) (s : Session) : Result Unit :=
  let audio := s.config.audio
  validateAll (fun (expected : String × Value) =>
      require ((Value.field expected.1 v).all fun actual => actual = expected.2)
        (protocolError ("provider " ++ expected.1 ++ " differs from requested audio settings")))
    [("audio_format", .string audio.format.name), ("audio_sample_rate", decimal audio.sampleRate),
      ("audio_channel", decimal audio.channels)]

def confirmedCommand (now : Nat) (s : Session) : Result (String × Session) := do
  let (value, confirmation) ← s.confirmation.complete now
  match value with
  | some id => return (id, { s with confirmation })
  | none => throw (protocolError "missing command confirmation")

def openGeneration (s : Session) : Result String :=
  match s.generation with
  | some id => .ok id
  | none => .error (protocolError "missing generation")

def completion (generationId : String) (value : Value) (s : Session) : ResponseCompletion where
  generationId
  inputPosition := s.inputPosition
  responseStatus := .completed
  usage := {}
  modelId := some s.config.model
  responseId := (Value.field "session_id" value).bind asString
  finishReason := some "task_finished"
  providerData := .object [("extra_info", s.metadata)]
  effective := []

def serviceEvent (now : Nat) (value : Value) (event audio : Option String) (s : Session) :
    Result (List WireAction × Session) :=
  match event, s.phase with
  | some "connected_success", .connecting => do
    let (_, confirmation) ← s.confirmation.complete now
    return ([.event (.ready s.contextRevision)], { s with confirmation, phase := .ready })
  | some "task_started", .starting text => do
    let (id, s) ← { s with phase := .speaking }.confirmedCommand now
    let generationId ← s.openGeneration
    return ([.send (continueFrame text), acknowledge id,
      .event (.responseStarted generationId s.inputPosition)], s)
  | some "task_canceled", .interrupting epoch => do
    let (id, s) ← { s with phase := .speaking }.confirmedCommand now
    let audio ← s.audio.cancel epoch
    return ([acknowledge id], { s with audio })
  | some "task_flushed", .flushing => do
    let (id, s) ← s.confirmedCommand now
    return ([acknowledge id], { s with phase := .speaking })
  | some "task_finished", .finishing => do
    let (id, s) ← s.confirmedCommand now
    s.audio.finish
    let generationId ← s.openGeneration
    return ([acknowledge id, .event (.responseFinished (s.completion generationId value))],
      { s with phase := .finished })
  | some "sentence_start", phase => do
    require (phase.synthesizes = true) (protocolError "unexpected event or event order")
    let audio ← s.audio.start
    return ([], { s with audio })
  | some "sentence_end", phase => do
    require (phase.synthesizes = true) (protocolError "unexpected event or event order")
    let (chunk, audio) ← s.audio.close now s.sessionId
    return ([.media chunk], { s with audio })
  | some "task_continued", phase => do
    require (audio.isSome ∧ phase.synthesizes = true)
      (protocolError "unexpected event or event order")
    return ([], s)
  | none, phase => do
    require (audio.isSome ∧ phase.synthesizes = true)
      (protocolError "unexpected event or event order")
    return ([], s)
  | _, _ => .error (protocolError "unexpected event or event order")

/-- Audio is taken before terminal markers, so that a last payload keeps its tail. -/
def takeAudio (now : Nat) (audio : Option String) (s : Session) :
    Result (List WireAction × Session) :=
  match audio with
  | none | some "" => .ok ([], s)
  | some hex => do
    require (s.phase.synthesizes = true) (protocolError "audio outside a synthesis task")
    let (chunk, audio) ← s.audio.push now s.sessionId hex
    return ([.media chunk], { s with audio })

def takeMetadata (value : Value) (s : Session) : Result Session :=
  match Value.field "extra_info" value with
  | none => .ok s
  | some metadata => do
    s.validateAudioMetadata metadata
    return { s with metadata }

def audioField (value : Value) : Result (Option String) :=
  match Value.field "data" value with
  | none => .ok none
  | some data => do
    require (data.isObject = true) (protocolError "invalid event data")
    optionalString "audio" data

def receiveEvent (now : Nat) (value : Value) (s : Session) :
    Result (List WireAction × Session) := do
  let event ← optionalString "event" value
  let audio ← audioField value
  let s ← s.takeMetadata value
  let (media, s) ← s.takeAudio now audio
  let (actions, s) ← s.serviceEvent now value event audio
  return (.observe value :: media ++ actions, s)

def receive (now : Nat) (message : WireMessage) (s : Session) :
    Result (List WireAction × Session) := do
  s.confirmation.check now
  match message with
  | .binary => throw (protocolError "expected a JSON text frame")
  | .text none => throw (protocolError "invalid JSON event")
  | .text (some value) => do
    require (value.isObject = true) (protocolError "event must be a JSON object")
    match Value.field "base_resp" value with
    | none => s.receiveEvent now value
    | some base => do
      match ← rejection base with
      | some failure => return ([.observe value, .fail failure], s)
      | none => s.receiveEvent now value

end Session

end Zhir.MiniMax
