import Zhir.Models.Native

/-!
The WebRTC session driver: one loop over the effects of commands and of received frames, one
write in flight, audio input that can be drained, and the transport's queues.
-/

set_option autoImplicit false
set_option relaxedAutoImplicit false

namespace Zhir.Models

open Zhir.Core

inductive Action
  | connect (payload : Value) (timeout : Error)
  | send (text : String)
  | drainInput
  | event (body : SessionEventBody)
  | disconnect
  | fail (error : Error)
  deriving DecidableEq

structure AudioPacket where
  payload : List UInt8
  timestamp : Nat
  sequence : Nat
  ssrc : Nat
  deriving DecidableEq, Repr

structure ConnectionStatus where
  commandsAllowed : Bool
  inputAllowed : Bool
  deriving DecidableEq, Repr

/-- What an adapter injects: protocol, media mapping and connection policy, with their states
`ρ`, `μ` and the transport's connection values `κ`. -/
structure WebRtcSession (ρ μ κ : Type) where
  sessionId : String
  audioInput : Bool
  commandHeadroom : Nat
  chunkLimit : Nat
  initial : ρ → Result (List Action × ρ)
  commandsAllowed : ρ → Bool
  inputAllowed : ρ → Bool
  draining : ρ → Bool
  finished : ρ → Bool
  closed : ρ → Bool
  command : SessionCommand → ρ → Result (List Action × ρ)
  receive : String → ρ → Result (List Action × ρ)
  finalize : ρ → Result (List Action × ρ)
  input : MediaChunk → μ → Result (Option Nat × μ)
  receiveAudio : AudioPacket → μ → Result (Option MediaChunk × μ)
  finish : μ → Option MediaChunk × μ
  evaluate : κ → (queuedEvents : Bool) → Result ConnectionStatus

/-- Which call of the protocol returned an effect. -/
inductive Source
  | initial
  | command
  | frame
  | finalize
  deriving DecidableEq, Repr

/-- A queued effect. The driver looks at the action only; the rest says where in which batch
it was returned. -/
structure Effect where
  batch : Nat
  index : Nat
  source : Source
  action : Action
  deriving DecidableEq

/-- The effects of one call, in the order the protocol returned them. -/
def effects (batch : Nat) (source : Source) (actions : List Action) : List Effect :=
  actions.mapIdx fun index action => ⟨batch, index, source, action⟩

inductive Write
  | control (effect : Effect)
  | audio (chunk : MediaChunk)
  deriving DecidableEq

structure Peer (κ : Type) where
  events : List String
  audio : List (AudioPacket × Nat)
  failure : Option Error
  connection : κ

/-- `batches` counts the protocol's calls that returned effects, `initial` being the first;
`finished` ends the loop of `run`. -/
structure Driver (ρ μ κ : Type) where
  protocol : ρ
  media : μ
  input : List MediaChunk
  inputClosed : Bool
  outputs : Outputs
  minEpoch : Nat
  peer : Option (Peer κ)
  stopped : Bool
  drainTail : Option (List Effect)
  actions : List Effect
  observations : List Effect
  write : Option Write
  batches : Nat
  finished : Bool

namespace Driver

variable {ρ μ κ : Type}

def opened (limits : Limits) (epoch : Nat) (protocol : ρ) (media : μ) : Driver ρ μ κ where
  protocol
  media
  input := []
  inputClosed := false
  outputs := (ports limits epoch).outputs
  minEpoch := epoch
  peer := none
  stopped := false
  drainTail := none
  actions := []
  observations := []
  write := none
  batches := 0
  finished := false

def sendAudio (s : WebRtcSession ρ μ κ) (chunk : MediaChunk) (d : Driver ρ μ κ) :
    Result (Driver ρ μ κ) := do
  let (duration, media) ← s.input chunk d.media
  let d := { d with media }
  if duration.isSome then
    require d.peer.isSome .cancelled
    return { d with write := some (.audio chunk) }
  else return d

def disconnect (d : Driver ρ μ κ) : Result (Driver ρ μ κ) := do
  require (¬ (d.drainTail.isSome ∧ (d.input ≠ [] ∨ d.write.isSome)))
    (.uncertain "WebRTC closed before accepted input drained")
  return { d with stopped := true }

/-- The checks of `advance` that leave the effect in its queue. -/
def holds (s : WebRtcSession ρ μ κ) (action : Action) (d : Driver ρ μ κ) : Result Bool :=
  match action, d.peer with
  | .send _, some peer =>
    if d.write.isSome then .ok true
    else if d.stopped then .ok false
    else do
      let status ← s.evaluate peer.connection (!peer.events.isEmpty)
      return !status.commandsAllowed
  | .send _, none | .connect .., _ | .drainInput, _ => .ok d.write.isSome
  | _, _ => .ok false

/-- The effect is executed. `d` has it popped, `rest` is what is behind it in its queue, and
`drained` is the driver with that taken as well. -/
def perform (connected : Result (Peer κ)) (effect : Effect) (rest : List Effect)
    (d drained : Driver ρ μ κ) : Result (Driver ρ μ κ) :=
  match effect.action with
  | .connect _ _ => do
    require (¬ d.peer.isSome) (.protocol "WebRTC peer already created")
    let peer ← connected
    return { d with peer := some peer }
  | .send _ => do
    require d.peer.isSome .cancelled
    return { d with write := some (.control effect) }
  | .drainInput => do
    require (¬ d.drainTail.isSome) (.protocol "overlapping WebRTC input drains")
    require (¬ (d.peer.isNone ∧ d.input ≠ []))
      (.protocol "cannot drain accepted audio without a WebRTC peer")
    return { drained with inputClosed := true, drainTail := some rest }
  | .event body => do
    let outputs ← d.outputs.event body
    return { d with outputs }
  | .disconnect => d.disconnect
  | .fail error => .error error

/-- `advance`: the effect that was executed, if one was. `connected` is what signalling comes
to when the effect is to connect. -/
def advance (s : WebRtcSession ρ μ κ) (connected : Result (Peer κ)) (d : Driver ρ μ κ) :
    Result (Option (Effect × Driver ρ μ κ)) :=
  match d.observations with
  | effect :: rest => do
    if ← d.holds s effect.action then return none
    let d ← perform connected effect rest { d with observations := rest }
      { d with observations := [] }
    return some (effect, d)
  | [] =>
    if d.drainTail.isSome ∨ d.write.isSome then .ok none
    else match d.actions with
      | effect :: rest => do
        if ← d.holds s effect.action then return none
        let d ← perform connected effect rest { d with actions := rest } { d with actions := [] }
        return some (effect, d)
      | [] => .ok none

def resumable (d : Driver ρ μ κ) : Bool :=
  d.write.isNone && d.input.isEmpty && d.drainTail.isSome

def idle (d : Driver ρ μ κ) : Bool :=
  d.write.isNone && d.drainTail.isNone && d.actions.isEmpty && d.observations.isEmpty

def boundary (s : WebRtcSession ρ μ κ) (d : Driver ρ μ κ) : Bool :=
  s.draining d.protocol && d.idle && !d.outputs.pending &&
    d.peer.all fun peer => peer.audio.isEmpty && peer.events.isEmpty

def done (s : WebRtcSession ρ μ κ) (d : Driver ρ μ κ) : Bool :=
  s.closed d.protocol && d.idle && !d.outputs.pending

def remoteOpen (s : WebRtcSession ρ μ κ) (d : Driver ρ μ κ) : Bool :=
  !s.finished d.protocol && !d.stopped

/-- What the connection allows; without a peer there is no input to take. -/
def status (s : WebRtcSession ρ μ κ) (d : Driver ρ μ κ) : Result ConnectionStatus :=
  match d.peer with
  | none => .ok ⟨true, false⟩
  | some peer =>
    if d.remoteOpen s then
      match (if peer.events.isEmpty then peer.failure else none) with
      | some error => .error error
      | none => s.evaluate peer.connection (!peer.events.isEmpty)
    else .ok ⟨true, false⟩

/-- The loop runs and has come to its `select!`. -/
structure Selecting (s : WebRtcSession ρ μ κ) (d : Driver ρ μ κ) : Prop where
  started : 0 < d.batches
  running : d.finished = false
  resumed : d.resumable = false
  advanced : ∀ connected, d.advance s connected = .ok none
  halted : s.draining d.protocol = true → d.stopped = true
  inside : d.boundary s = false
  undone : d.done s = false

def returned (source : Source) (actions : List Action) (d : Driver ρ μ κ) : List Effect :=
  effects d.batches source actions

end Driver

inductive Happened
  | nothing
  | returned (effects : List Effect)
  | performed (effect : Effect)
  | accepted (chunk : MediaChunk)
  | taken (chunk : MediaChunk)
  | discarded (chunk : MediaChunk)
  | written (write : Write)
  | finished
  deriving DecidableEq

section

variable {ρ μ κ : Type} (s : WebRtcSession ρ μ κ)

/-- The steps of the driver, of its transport and of the host's audio. A step that fails ends
the driver, and nothing follows it. -/
inductive Acts : Driver ρ μ κ → Happened → Driver ρ μ κ → Prop
  | accept {d : Driver ρ μ κ} {chunk : MediaChunk} (hport : s.audioInput = true)
      (hrunning : d.finished = false) (hopen : d.inputClosed = false)
      (hvalid : chunk.validate s.chunkLimit = .ok ()) :
      Acts d (.accepted chunk) { d with input := d.input ++ [chunk] }
  | arrive {d : Driver ρ μ κ} {peer peer' : Peer κ} (hpeer : d.peer = some peer)
      (hevents : ∃ events, peer'.events = peer.events ++ events)
      (haudio : ∃ audio, peer'.audio = peer.audio ++ audio) :
      Acts d .nothing { d with peer := some peer' }
  | initial {d : Driver ρ μ κ} {actions : List Action} {protocol : ρ}
      (hstart : d.batches = 0) (hinitial : s.initial d.protocol = .ok (actions, protocol)) :
      Acts d (.returned (d.returned .initial actions))
        { d with
          protocol
          actions := d.returned .initial actions
          batches := d.batches + 1 }
  | resume {d : Driver ρ μ κ} {tail : List Effect} (hstarted : 0 < d.batches)
      (hrunning : d.finished = false) (hresumable : d.resumable = true)
      (htail : d.drainTail = some tail) :
      Acts d .nothing { d with drainTail := none, actions := tail ++ d.actions }
  | advance {d d' : Driver ρ μ κ} {connected : Result (Peer κ)} {effect : Effect}
      (hstarted : 0 < d.batches) (hrunning : d.finished = false)
      (hresumed : d.resumable = false)
      (hadvance : d.advance s connected = .ok (some (effect, d'))) :
      Acts d (.performed effect) d'
  | halt {d d' : Driver ρ μ κ} (hstarted : 0 < d.batches) (hrunning : d.finished = false)
      (hresumed : d.resumable = false)
      (hadvanced : ∀ connected, d.advance s connected = .ok none)
      (hdraining : s.draining d.protocol = true) (hopen : d.stopped = false)
      (hhalt : d.disconnect = .ok d') : Acts d .nothing d'
  | finalize {d : Driver ρ μ κ} {outputs : Outputs} {actions : List Action} {protocol : ρ}
      (hstarted : 0 < d.batches) (hrunning : d.finished = false)
      (hhalted : s.draining d.protocol = true → d.stopped = true)
      (hboundary : d.boundary s = true)
      (hmedia : ((s.finish d.media).1.elim (.ok d.outputs) fun chunk =>
        d.outputs.queueMedia d.minEpoch chunk none) = .ok outputs)
      (hfinalize : s.finalize d.protocol = .ok (actions, protocol)) :
      Acts d (.returned (d.returned .finalize actions))
        { d with
          media := (s.finish d.media).2
          outputs := outputs.endMedia
          protocol
          actions := d.returned .finalize actions
          batches := d.batches + 1 }
  | finish {d : Driver ρ μ κ} (hstarted : 0 < d.batches) (hrunning : d.finished = false)
      (hhalted : s.draining d.protocol = true → d.stopped = true)
      (hinside : d.boundary s = false) (hdone : d.done s = true) :
      Acts d .finished { d with finished := true }
  | command {d : Driver ρ μ κ} {status : ConnectionStatus} {command : SessionCommand}
      {actions : List Action} {protocol : ρ} (hselect : d.Selecting s)
      (hstatus : d.status s = .ok status) (hidle : d.idle = true)
      (hallowed : status.commandsAllowed = true ∧ s.commandsAllowed d.protocol = true ∧
        d.outputs.commandsAllowed s.commandHeadroom = true)
      (hcommand : s.command command d.protocol = .ok (actions, protocol)) :
      Acts d (.returned (d.returned .command actions))
        { d with
          protocol
          actions := d.returned .command actions
          batches := d.batches + 1 }
  | receive {d : Driver ρ μ κ} {status : ConnectionStatus} {peer : Peer κ} {text : String}
      {rest : List String} {actions : List Action} {protocol : ρ} (hselect : d.Selecting s)
      (hstatus : d.status s = .ok status) (hpeer : d.peer = some peer)
      (hreceiving : s.finished d.protocol = false) (hempty : d.observations = [])
      (hevents : peer.events = text :: rest)
      (hreceive : s.receive text d.protocol = .ok (actions, protocol)) :
      Acts d (.returned (d.returned .frame actions))
        { d with
          protocol
          peer := some { peer with events := rest }
          observations := d.returned .frame actions
          batches := d.batches + 1 }
  | audio {d : Driver ρ μ κ} {status : ConnectionStatus} {peer : Peer κ}
      {packet : AudioPacket × Nat} {rest : List (AudioPacket × Nat)}
      {chunk : Option MediaChunk} {media : μ} {outputs : Outputs} (hselect : d.Selecting s)
      (hstatus : d.status s = .ok status) (hpeer : d.peer = some peer)
      (hreceiving : s.finished d.protocol = false) (hroom : d.outputs.canReceiveMedia = true)
      (haudio : peer.audio = packet :: rest)
      (hmap : s.receiveAudio packet.1 d.media = .ok (chunk, media))
      (hsize : ∀ c ∈ chunk, c.bytes.length ≤ packet.1.payload.length)
      (hqueue : (chunk.elim (.ok d.outputs) fun c =>
        d.outputs.queueMedia d.minEpoch c (some packet.2)) = .ok outputs) :
      Acts d .nothing
        { d with media, outputs, peer := some { peer with audio := rest } }
  | input {d d' : Driver ρ μ κ} {status : ConnectionStatus} {chunk : MediaChunk}
      {rest : List MediaChunk} (hselect : d.Selecting s) (hstatus : d.status s = .ok status)
      (hwrite : d.write = none) (hallowed : status.inputAllowed = true)
      (hopen : d.drainTail.isSome = true ∨
        (d.idle = true ∧ s.audioInput = true ∧ s.inputAllowed d.protocol = true))
      (hinput : d.input = chunk :: rest)
      (hsend : ({ d with input := rest }).sendAudio s chunk = .ok d') :
      Acts d (if d'.write.isSome then .taken chunk else .discarded chunk) d'
  | written {d : Driver ρ μ κ} {status : ConnectionStatus} {write : Write}
      (hselect : d.Selecting s) (hstatus : d.status s = .ok status)
      (hwrite : d.write = some write) :
      Acts d (.written write) { d with write := none }
  | flushedEvent {d : Driver ρ μ κ} {status : ConnectionStatus} {event : SessionEvent}
      {rest : List SessionEvent} (hselect : d.Selecting s) (hstatus : d.status s = .ok status)
      (hfront : d.outputs.pendingEvents = event :: rest) :
      Acts d .nothing { d with outputs := d.outputs.flushedEvent rest }
  | flushedMedia {d : Driver ρ μ κ} {status : ConnectionStatus} {packet : PendingMedia}
      {rest : List PendingMedia} (hselect : d.Selecting s) (hstatus : d.status s = .ok status)
      (hfront : d.outputs.pendingMedia = packet :: rest) :
      Acts d .nothing { d with outputs := d.outputs.flushedMedia packet.chunk rest }

end

end Zhir.Models
