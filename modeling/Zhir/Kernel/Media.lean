import Zhir.Kernel.Commands

/-!
Media cursors and host media input.
-/

set_option autoImplicit false
set_option relaxedAutoImplicit false

namespace Zhir.Kernel

open Zhir.Core
open Zhir.Library (Program)

variable (cfg : Config)

def mediaKey (direction streamId : String) (epoch : Nat) : String :=
  direction ++ ":" ++ streamId ++ ":" ++ toString epoch

def increasing : Option Nat → List SealedChunk → Bool
  | _, [] => true
  | previous, chunk :: rest =>
    previous.all (fun p => p < chunk.sequence) && increasing (some chunk.sequence) rest

def loadEnded : Handler (List String) := do
  let e ← Program.read
  match e.endedStreams with
  | some ended => return ended
  | none =>
    match e.current.active.session.mediaArchive with
    | none => do
      Program.modify fun e => { e with endedStreams := some [] }
      return []
    | some reference => do
      let answer ← ask fun n => cfg.archivedStreams n reference
      let ended ← Program.lift answer
      Program.modify fun e => { e with endedStreams := some ended }
      return ended

def ensureNewStream (key : String) : Handler Unit :=
  Program.when (cfg.resources = true) do
    let ended ← loadEnded cfg
    Program.require (key ∉ ended) (.protocol "media after stream end")

/-- The cursor of a segment, or its archive node when the stream ends with it. -/
def stageCursor (key : String) (segment : SealedMedia) (last : SealedChunk)
    (reference : ResourceRef) (c : Checkpoint) : Handler Checkpoint :=
  if last.endOfStream then retireStreams cfg c [key]
  else return { c with
    active.media := c.active.media.insert key ⟨last.sequence, segment.epoch, reference⟩ }

def sealCursor (direction : String) (segment : SealedMedia) (reference : ResourceRef) :
    Handler Unit := do
  let e ← Program.read
  match segment.chunks.getLast? with
  | none => Program.fail (.protocol "empty media segment")
  | some last => do
    let key := mediaKey direction segment.streamId segment.epoch
    let cursor := e.current.active.media[key]?
    Program.require (increasing (cursor.map StreamCursor.sequence) segment.chunks = true)
      (.protocol "media sequence did not increase")
    Program.when (cursor = none) (ensureNewStream cfg key)
    let next ← stageCursor cfg key segment last reference e.current
    commit cfg next (.media segment.streamId last.sequence) .unchanged
    Program.when (last.endOfStream = true) (Program.modify (Engine.endStreams [key]))

/-- A queued chunk continues a segment of its stream, epoch and media type. -/
def joins (last next : MediaChunk) : Bool :=
  !last.endOfStream && last.streamId = next.streamId && last.sessionId = next.sessionId &&
    last.epoch = next.epoch && last.mediaType = next.mediaType

/-- The segment that starts with `last`, the packet that does not join it, and the rest. -/
def takeSegment : Nat → MediaChunk → List MediaChunk →
    List MediaChunk × Option MediaChunk × List MediaChunk
  | 0, last, queue => ([last], none, queue)
  | _ + 1, last, [] => ([last], none, [])
  | room + 1, last, next :: queue =>
    if joins last next then
      let (segment, held, rest) := takeSegment room next queue
      (last :: segment, held, rest)
    else ([last], some next, queue)

def maxSegmentChunks : Nat := 1024

def checkPacket (c : Checkpoint) (chunk : MediaChunk) : Result Unit := do
  chunk.validate c.options.limits.maxMediaChunkBytes
  if chunk.epoch ≠ 0 ∨ c.active.session.id ≠ chunk.sessionId then
    throw (.invalid "foreign media turn or epoch")

def Engine.sendInput (segment : List MediaChunk) (e : Engine) : Engine :=
  { e with inputSending := true, tasks := e.tasks ++ [.mediaInput segment .sealing] }

def inputMedia (first : MediaChunk) : Handler Unit := do
  let e ← Program.read
  let room := min e.current.options.limits.maxBufferedMediaPackets maxSegmentChunks - 1
  let (segment, held, rest) := takeSegment room first e.media
  Program.modify fun e => { e with media := rest, heldInput := held }
  Program.lift (validateAll (checkPacket e.current) segment)
  Program.require (cfg.resources = true) (.invalid "media input requires resource storage")
  Program.require (e.modelMediaInput = true) (.invalid "model has no media input")
  Program.modify (Engine.sendInput segment)

end Zhir.Kernel
