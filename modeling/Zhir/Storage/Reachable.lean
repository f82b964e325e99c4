import Zhir.Core.Resource
import Zhir.Core.Session
import Zhir.Models.Marker

/-!
`reachable`: the stored resources of a checkpoint, its media chains included.
-/

set_option autoImplicit false
set_option relaxedAutoImplicit false

namespace Zhir.Storage

open Zhir.Core
open Zhir.Models (record asString asNat asArray refOfValue)

def asBool : Value → Option Bool
  | .bool b => some b
  | _ => none

/-- An optional reference; a missing field is an absent one. -/
def asOptionalRef : Option Value → Option (Option ResourceRef)
  | none | some .null => some none
  | some v => (refOfValue v).map some

def sealedChunkOfValue (v : Value) : Option SealedChunk := do
  let get ← record ["sequence", "timestamp_us", "offset", "length", "end"] v
  let sequence ← asNat maxU64 (← get "sequence")
  let timestampUs ← asNat maxU64 (← get "timestamp_us")
  let offset ← asNat maxU64 (← get "offset")
  let length ← asNat maxU64 (← get "length")
  let endOfStream ← asBool (← get "end")
  return { sequence, timestampUs, offset, length, endOfStream }

def sealedOfValue (v : Value) : Option SealedMedia := do
  let get ← record ["stream_id", "session_id", "epoch", "chunks", "resource", "previous"] v
  let streamId ← asString (← get "stream_id")
  let sessionId ← asString (← get "session_id")
  let epoch ← asNat maxU64 (← get "epoch")
  let chunks ← (← asArray (← get "chunks")).mapM sealedChunkOfValue
  let resource ← refOfValue (← get "resource")
  let previous ← asOptionalRef (get "previous")
  return { streamId, sessionId, epoch, chunks, resource, previous }

def archivedOfValue (v : Value) : Option ArchivedMedia := do
  let get ← record ["stream_key", "sealed", "complete", "previous"] v
  let streamKey ← asString (← get "stream_key")
  let sealed ← refOfValue (← get "sealed")
  let complete ← asBool (← get "complete")
  let previous ← asOptionalRef (get "previous")
  return { streamKey, sealed, complete, previous }

def messageContents : Message → List Content
  | .system content => content
  | .user content => content
  | .external content => content
  | .assistant output _ => output.flatMap fun
    | .content content => [content]
    | .providerToolCall call => call.output
    | .delegation _ | .runtimeToolCall _ => []
  | .delegationResult _ outcome => outcome.content
  | .runtimeTool _ _ outcome => outcome.content

def contentSource : Content → Option ResourceRef
  | .resource input => some input.resource
  | _ => none

/-- `Reachable`: keys listed, media nodes followed, and the references found. -/
structure Reachable where
  keys : List String := []
  walked : List String := []
  resources : List ResourceRef := []
  deriving DecidableEq

namespace Reachable

def insert (reference : ResourceRef) (f : Reachable) : Reachable :=
  match reference.source with
  | .stored key =>
    if key ∈ f.keys then f
    else { f with keys := f.keys ++ [key], resources := f.resources ++ [reference] }
  | _ => f

/-- Lists a media node; whether its links still need following. -/
def walk (reference : ResourceRef) (f : Reachable) : Bool × Reachable :=
  let f := f.insert reference
  match reference.source with
  | .stored key =>
    if key ∈ f.walked then (false, f) else (true, { f with walked := key :: f.walked })
  | _ => (false, f)

def contents (content : List Content) (f : Reachable) : Reachable :=
  (content.filterMap contentSource).foldl (fun f reference => f.insert reference) f

end Reachable

def nodeLimit : Nat := 1048576

section

variable {σ : Type} (store : ResourceStore σ) (parse : List UInt8 → Result Value) (s : σ)

def readNode {τ : Type} (decode : Value → Option τ) (reference : ResourceRef) : Result τ := do
  let bytes ← store.read reference s
  require (bytes.length ≤ nodeLimit) (.invalid "media node exceeds 1 MiB")
  let v ← parse bytes
  match decode v with
  | some node => return node
  | none => throw (.invalid "invalid media node")

def andThen {α β : Type} (r : Option (Result α)) (f : α → Option (Result β)) :
    Option (Result β) :=
  match r with
  | none => none
  | some (.error error) => some (.error error)
  | some (.ok a) => f a

namespace Reachable

/-- Follows a media chain until it reaches a node already followed. -/
def follow {τ : Type} (read : ResourceRef → Result τ) (previous : τ → Option ResourceRef)
    (visit : τ → Reachable → Option (Result Reachable)) :
    Nat → Option ResourceRef → Reachable → Option (Result Reachable)
  | _, none, f => some (.ok f)
  | 0, some _, _ => none
  | rounds + 1, some reference, f =>
    let (new, f) := f.walk reference
    if new then
      match read reference with
      | .error error => some (.error error)
      | .ok node => andThen (visit node f) (follow read previous visit rounds (previous node))
    else some (.ok f)

def sealed : Nat → Option ResourceRef → Reachable → Option (Result Reachable) :=
  follow (readNode store parse s sealedOfValue) SealedMedia.previous fun node f =>
    some (.ok (f.insert node.resource))

def cursors (rounds : Nat) : List ResourceRef → Reachable → Option (Result Reachable)
  | [], f => some (.ok f)
  | reference :: rest, f =>
    andThen (sealed store parse s rounds (some reference) f) (cursors rounds rest)

/-- The archive chain, with the sealed chain of each of its streams. -/
def archive (all : Nat) : Nat → Option ResourceRef → Reachable → Option (Result Reachable) :=
  follow (readNode store parse s archivedOfValue) ArchivedMedia.previous fun node f =>
    sealed store parse s all (some node.sealed) f

end Reachable

def checkpointContents (c : Checkpoint) : List Content :=
  c.history.entries.flatMap (fun entry => messageContents entry.message) ++
    (match c.state with
      | .completed content => content
      | _ => []) ++
    c.active.commands.flatMap (fun command =>
      match command.intent with
      | .delegationContext _ content => content
      | _ => []) ++
    c.active.operations.toList.flatMap fun operation =>
      match operation.2.lastUpdate with
      | some (.context content) => content
      | _ => []

/-- `reachable`, with a bound on the rounds of each loop. -/
def reachable (rounds : Nat) (c : Checkpoint) : Option (Result Reachable) :=
  let found := Reachable.contents (checkpointContents c) {}
  let nodes := c.active.media.toList.map fun cursor => cursor.2.sealed
  andThen (Reachable.cursors store parse s rounds nodes found)
    (Reachable.archive store parse s rounds rounds c.active.session.mediaArchive)

end

end Zhir.Storage
