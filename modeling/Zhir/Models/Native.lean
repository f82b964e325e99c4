import Mathlib.Algebra.GroupWithZero.Nat
import Zhir.Core.Session
import Zhir.Library.Trace

/-!
The ports between a native driver and its session: bounded output scheduling, the media
budget, and the hand-over when the worker ends.
-/

set_option autoImplicit false
set_option relaxedAutoImplicit false

namespace Zhir.Models

open Zhir.Core

/-- `MAX_BUFFERED_CHUNKS`. -/
def maxBufferedChunks : Nat := 4096

structure MediaBudget where
  bytes : Nat
  slots : Nat
  limit : Nat
  deriving DecidableEq, Repr

namespace MediaBudget

def new (limit : Nat) : MediaBudget := ⟨limit, maxBufferedChunks, limit⟩

def size (size : Nat) (b : MediaBudget) : Result Nat := do
  require (¬ size > b.limit) (.invalid "media payload exceeds buffer budget")
  require (size ≤ maxU32) (.invalid "media payload too large")
  return size

/-- Dropping a reservation of so many bytes gives back its slot as well. -/
def release (size : Nat) (b : MediaBudget) : MediaBudget :=
  { b with bytes := b.bytes + size, slots := b.slots + 1 }

def tryReserve (size : Nat) (b : MediaBudget) : Result MediaBudget := do
  let size ← b.size size
  require (b.slots > 0) (.uncertain "native media receive budget exceeded")
  require (b.bytes ≥ size) (.uncertain "native media receive budget exceeded")
  return { b with bytes := b.bytes - size, slots := b.slots - 1 }

end MediaBudget

/-- A chunk that waits for the flush; `reservation` holds the bytes reserved at ingress. -/
structure PendingMedia where
  chunk : MediaChunk
  reservation : Option Nat
  deriving DecidableEq, Repr

structure Buffered where
  value : MediaChunk
  reservation : Nat
  deriving DecidableEq, Repr

/-- The driver's side; the channels and the epoch it shares are in `Native`. -/
structure Outputs where
  mediaOpen : Bool
  pendingEvents : List SessionEvent
  pendingMedia : List PendingMedia
  sequence : Nat
  eventLimit : Nat
  mediaLimit : Nat
  chunkLimit : Nat
  mediaBytes : Nat
  mediaEnding : Bool
  deriving DecidableEq, Repr

namespace Outputs

def event (body : SessionEventBody) (o : Outputs) : Result Outputs := do
  require (¬ o.pendingEvents.length ≥ o.eventLimit) (.uncertain "native event capacity exceeded")
  require (o.sequence < maxU64) (.protocol "session event sequence overflow")
  return { o with
    sequence := o.sequence + 1
    pendingEvents := o.pendingEvents ++ [⟨o.sequence, body⟩] }

/-- `queue_media`, also for a packet whose reservation was made at ingress. -/
def queueMedia (minEpoch : Nat) (chunk : MediaChunk) (reservation : Option Nat) (o : Outputs) :
    Result Outputs := do
  chunk.validate o.chunkLimit
  if chunk.epoch < minEpoch then return o
  require (¬ o.mediaEnding) (.protocol "media after native output closure")
  let size := chunk.bytes.length
  require (¬ (size > o.mediaLimit - o.mediaBytes ∨ o.pendingMedia.length ≥ maxBufferedChunks))
    (.uncertain "native media capacity exceeded")
  return { o with
    mediaBytes := o.mediaBytes + size
    pendingMedia := o.pendingMedia ++ [⟨chunk, reservation⟩] }

def pendingSize (o : Outputs) : Nat := (o.pendingMedia.map fun p => p.chunk.bytes.length).sum

def invalidateBefore (epoch : Nat) (o : Outputs) : Outputs :=
  let kept := o.pendingMedia.filter fun p => epoch ≤ p.chunk.epoch
  { o with
    pendingMedia := kept
    mediaBytes := (kept.map fun p => p.chunk.bytes.length).sum }

def endMedia (o : Outputs) : Outputs :=
  { o with
    mediaEnding := true
    mediaOpen := o.mediaOpen && !o.pendingMedia.isEmpty }

def pending (o : Outputs) : Bool := !o.pendingEvents.isEmpty || !o.pendingMedia.isEmpty

def commandsAllowed (headroom : Nat) (o : Outputs) : Bool :=
  o.pendingEvents.length < o.eventLimit - headroom

def canReceiveMedia (o : Outputs) : Bool := o.pendingMedia.isEmpty

def flushedEvent (rest : List SessionEvent) (o : Outputs) : Outputs :=
  { o with pendingEvents := rest }

/-- A flushed chunk leaves the queue; the last one closes an ending channel. -/
def flushedMedia (chunk : MediaChunk) (rest : List PendingMedia) (o : Outputs) : Outputs :=
  { o with
    pendingMedia := rest
    mediaBytes := o.mediaBytes - chunk.bytes.length
    mediaOpen := o.mediaOpen && !(o.mediaEnding && rest.isEmpty) }

end Outputs

/-- How far `reserve` has got for the chunk at the front. -/
inductive Reserving
  | waiting
  | slot
  | reserved (bytes : Nat)
  deriving DecidableEq, Repr

/-- A call of `flush_one` that is being awaited. -/
structure Flush where
  permit : Bool := false
  reserving : Reserving := .waiting
  deriving DecidableEq, Repr

def Flush.release (f : Flush) (b : MediaBudget) : MediaBudget :=
  match f.reserving with
  | .waiting => b
  | .slot => { b with slots := b.slots + 1 }
  | .reserved bytes => b.release bytes

structure Terminal where
  events : List SessionEvent
  result : Result Unit
  deriving DecidableEq

/-- `dropped`: the worker's task ended without settling. -/
inductive Worker
  | running
  | settled (terminal : Terminal)
  | dropped
  deriving DecidableEq

/-- `Events` without its channel; `waiting` while the terminal port is not taken. -/
structure Consumer where
  waiting : Bool := true
  remaining : List SessionEvent := []
  result : Option (Result Unit) := none
  deriving DecidableEq

/-- The ports of one session, with both channels. `ingress` lists the reservations of packets
that the transport received and the driver did not queue yet. -/
structure Native where
  outputs : Outputs
  minEpoch : Nat
  budget : MediaBudget
  capacity : Nat
  events : List SessionEvent
  media : List Buffered
  ingress : List Nat
  flushing : Option Flush
  worker : Worker
  consumer : Consumer
  deriving DecidableEq

def ports (limits : Limits) (epoch : Nat) : Native where
  outputs :=
    { mediaOpen := true
      pendingEvents := []
      pendingMedia := []
      sequence := 0
      eventLimit := limits.maxSessionEvents + limits.maxControlCommands + 8
      mediaLimit := limits.maxBufferedMediaBytes
      chunkLimit := limits.maxMediaChunkBytes
      mediaBytes := 0
      mediaEnding := false }
  minEpoch := epoch
  budget := .new limits.maxBufferedMediaBytes
  capacity := limits.maxSessionEvents
  events := []
  media := []
  ingress := []
  flushing := none
  worker := .running
  consumer := {}

/-- What a step of the ports shows: what the driver got accepted, and what the consumers were
answered. -/
inductive Shown
  | nothing
  | accepted (event : SessionEvent)
  | acceptedMedia (chunk : MediaChunk)
  | delivered (event : SessionEvent)
  | deliveredMedia (chunk : MediaChunk)
  | reported (error : Error)
  | ended
  | mediaEnded
  deriving DecidableEq

/-- `Events::receive` once the terminal port is taken. -/
def Consumer.next (c : Consumer) : Shown × Consumer :=
  match c.remaining with
  | event :: rest => (.delivered event, { c with remaining := rest })
  | [] =>
    match c.result with
    | some (.error error) => (.reported error, { c with result := none })
    | some (.ok ()) => (.ended, { c with result := none })
    | none => (.ended, c)

namespace Native

/-- `Events::receive`; `none` while it has to wait. -/
def receive (n : Native) : Option (Shown × Native) :=
  if n.consumer.waiting then
    match n.events with
    | event :: rest => some (.delivered event, { n with events := rest })
    | [] =>
      match n.worker with
      | .running => none
      | .settled t =>
        let (shown, consumer) := Consumer.next ⟨false, t.events, some t.result⟩
        some (shown, { n with consumer })
      | .dropped =>
        some (.reported (.uncertain "native session worker stopped without settlement"),
          { n with consumer := ⟨false, [], none⟩ })
  else
    let (shown, consumer) := n.consumer.next
    some (shown, { n with consumer })

/-- One turn of the loop of `AudioOutput::receive`; the packet's reservation is dropped. -/
def receiveMedia (n : Native) : Option (Shown × Native) :=
  match n.media with
  | packet :: rest =>
    let n := { n with media := rest, budget := n.budget.release packet.reservation }
    if packet.value.epoch ≥ n.minEpoch then some (.deliveredMedia packet.value, n)
    else some (.nothing, n)
  | [] => if n.outputs.mediaOpen ∧ n.worker = .running then none else some (.mediaEnded, n)

/-- The driver runs and is not inside `flush_one`. -/
def Free (n : Native) : Prop := n.worker = .running ∧ n.flushing = none

/-- The end of a `flush_one` that got a permit for the first event. -/
def sendEvent (f : Flush) (event : SessionEvent) (rest : List SessionEvent) (n : Native) :
    Native :=
  { n with
    outputs := n.outputs.flushedEvent rest
    events := n.events ++ [event]
    flushing := none
    budget := f.release n.budget }

/-- The end of a `flush_one` whose first chunk has its reservation. -/
def sendMedia (packet : PendingMedia) (reservation : Nat) (rest : List PendingMedia)
    (n : Native) : Native :=
  { n with
    outputs := n.outputs.flushedMedia packet.chunk rest
    media := n.media ++ [⟨packet.chunk, reservation⟩]
    flushing := none }

end Native

/-- The steps of driver, worker and consumers. The driver's calls exclude each other; a
`flush_one` that is awaited can be cancelled at any of its waits. -/
inductive Delivery : Native → Shown → Native → Prop
  | event {n : Native} {body : SessionEventBody} {outputs : Outputs} (hfree : n.Free)
      (hevent : n.outputs.event body = .ok outputs) :
      Delivery n (.accepted ⟨n.outputs.sequence, body⟩) { n with outputs }
  | media {n : Native} {chunk : MediaChunk} {outputs : Outputs} (hfree : n.Free)
      (hmedia : n.outputs.queueMedia n.minEpoch chunk none = .ok outputs) :
      Delivery n (.acceptedMedia chunk) { n with outputs }
  | ingress {n : Native} {size : Nat} {budget : MediaBudget} (hrunning : n.worker = .running)
      (hreserve : n.budget.tryReserve size = .ok budget) :
      Delivery n .nothing { n with budget, ingress := n.ingress ++ [size] }
  | discard {n : Native} {size : Nat} (hmem : size ∈ n.ingress) :
      Delivery n .nothing
        { n with budget := n.budget.release size, ingress := n.ingress.erase size }
  | receivedMedia {n : Native} {size : Nat} {chunk : MediaChunk} {outputs : Outputs}
      (hfree : n.Free) (hmem : size ∈ n.ingress) (hcurrent : n.minEpoch ≤ chunk.epoch)
      (hmedia : n.outputs.queueMedia n.minEpoch chunk (some size) = .ok outputs) :
      Delivery n (.acceptedMedia chunk) { n with outputs, ingress := n.ingress.erase size }
  | receivedStale {n : Native} {size : Nat} {chunk : MediaChunk} {outputs : Outputs}
      (hfree : n.Free) (hmem : size ∈ n.ingress) (hstale : chunk.epoch < n.minEpoch)
      (hmedia : n.outputs.queueMedia n.minEpoch chunk (some size) = .ok outputs) :
      Delivery n (.acceptedMedia chunk)
        { n with
          outputs
          budget := n.budget.release size
          ingress := n.ingress.erase size }
  | invalidate {n : Native} {epoch : Nat} (hfree : n.Free) :
      Delivery n .nothing
        { n with
          minEpoch := max n.minEpoch epoch
          outputs := n.outputs.invalidateBefore epoch
          budget := ((n.outputs.pendingMedia.filter fun p => ¬ epoch ≤ p.chunk.epoch).filterMap
            PendingMedia.reservation).foldl (fun b size => b.release size) n.budget }
  | endMedia {n : Native} (hfree : n.Free) :
      Delivery n .nothing { n with outputs := n.outputs.endMedia }
  | flush {n : Native} (hfree : n.Free) (hpending : n.outputs.pending = true) :
      Delivery n .nothing { n with flushing := some {} }
  | permit {n : Native} {f : Flush} (hrunning : n.worker = .running)
      (hflush : n.flushing = some f) (hpending : n.outputs.pendingEvents ≠ [])
      (hroom : n.events.length < n.capacity) :
      Delivery n .nothing { n with flushing := some { f with permit := true } }
  | slot {n : Native} {f : Flush} {packet : PendingMedia} {rest : List PendingMedia} {size : Nat}
      (hrunning : n.worker = .running) (hflush : n.flushing = some f)
      (hwaiting : f.reserving = .waiting) (hfront : n.outputs.pendingMedia = packet :: rest)
      (hnone : packet.reservation = none)
      (hsize : n.budget.size packet.chunk.bytes.length = .ok size) (hslot : n.budget.slots > 0) :
      Delivery n .nothing
        { n with
          flushing := some { f with reserving := .slot }
          budget := { n.budget with slots := n.budget.slots - 1 } }
  | bytes {n : Native} {f : Flush} {packet : PendingMedia} {rest : List PendingMedia}
      (hrunning : n.worker = .running) (hflush : n.flushing = some f)
      (hslot : f.reserving = .slot) (hfront : n.outputs.pendingMedia = packet :: rest)
      (hbytes : n.budget.bytes ≥ packet.chunk.bytes.length) :
      Delivery n .nothing
        { n with
          flushing := some { f with reserving := .reserved packet.chunk.bytes.length }
          budget := { n.budget with bytes := n.budget.bytes - packet.chunk.bytes.length } }
  | sendEvent {n : Native} {f : Flush} {event : SessionEvent} {rest : List SessionEvent}
      (hrunning : n.worker = .running) (hflush : n.flushing = some f) (hpermit : f.permit = true)
      (hfront : n.outputs.pendingEvents = event :: rest) :
      Delivery n .nothing (n.sendEvent f event rest)
  | sendMedia {n : Native} {f : Flush} {packet : PendingMedia} {rest : List PendingMedia}
      {bytes : Nat} (hrunning : n.worker = .running) (hflush : n.flushing = some f)
      (hreserved : f.reserving = .reserved bytes)
      (hfront : n.outputs.pendingMedia = packet :: rest) :
      Delivery n .nothing (n.sendMedia packet bytes rest)
  | sendReceived {n : Native} {f : Flush} {packet : PendingMedia} {rest : List PendingMedia}
      {bytes : Nat} (hrunning : n.worker = .running) (hflush : n.flushing = some f)
      (hfront : n.outputs.pendingMedia = packet :: rest)
      (hreservation : packet.reservation = some bytes) :
      Delivery n .nothing (n.sendMedia packet bytes rest)
  | cancel {n : Native} {f : Flush} (hflush : n.flushing = some f) :
      Delivery n .nothing { n with flushing := none, budget := f.release n.budget }
  | settle {n : Native} (hfree : n.Free) (result : Result Unit) :
      Delivery n .nothing
        { n with
          worker := .settled ⟨n.outputs.pendingEvents, result⟩
          outputs := { n.outputs with pendingEvents := [] } }
  | drop {n : Native} (hfree : n.Free) : Delivery n .nothing { n with worker := .dropped }
  | receive {n n' : Native} {shown : Shown} (hreceive : n.receive = some (shown, n')) :
      Delivery n shown n'
  | receiveMedia {n n' : Native} {shown : Shown} (hreceive : n.receiveMedia = some (shown, n')) :
      Delivery n shown n'

end Zhir.Models
