import Zhir.Core.Checkpoint

/-!
What the kernel hands to a model session: the opening request and the commands.
-/

set_option autoImplicit false
set_option relaxedAutoImplicit false

namespace Zhir.Core

structure SessionOpen where
  binding : Option ModelBinding
  sessionId : String
  afterSequence : Option Nat
  outputEpoch : Nat
  contextRevision : Nat
  inputPosition : Nat
  profileRevision : Nat
  mode : RunMode
  limits : Limits
  request : ModelRequest
  recovery : Option RecoveryRef
  deriving DecidableEq, Repr

inductive SessionCommandBody
  | delegationContext (operationId : OperationId) (origin : CallRef) (content : List Content)
  | generate (generationId : String) (contextRevision inputPosition profileRevision : Nat)
  | append (entry : HistoryEntry) (contextRevision inputPosition : Nat) (source : AppendSource)
  | replaceContext (entries : List HistoryEntry) (contextRevision : Nat)
  | updateProfile (revision : Nat) (profile : RequestProfile)
  | interruptOutput (generationId : String) (outputEpoch : Nat)
  | flushInput
  | setInputAudio (enabled : Bool)
  | sealUserInput
  | close
  deriving DecidableEq, Repr

structure SessionCommand where
  id : String
  body : SessionCommandBody
  deriving DecidableEq, Repr

structure MediaChunk where
  sessionId : String
  streamId : String
  epoch : Nat
  sequence : Nat
  timestampUs : Nat
  mediaType : String
  bytes : List UInt8
  endOfStream : Bool
  deriving DecidableEq, Repr

def MediaChunk.validate (chunk : MediaChunk) (maxBytes : Nat) : Result Unit :=
  if chunk.streamId = "" ∨ chunk.sessionId = "" ∨ chunk.mediaType = "" ∨
      chunk.bytes.length > maxBytes then
    .error (.invalid "invalid media chunk or chunk limit exceeded")
  else .ok ()

/-- One chunk of a sealed segment; its bytes are in the segment's resource. -/
structure SealedChunk where
  sequence : Nat
  timestampUs : Nat
  offset : Nat
  length : Nat
  endOfStream : Bool
  deriving DecidableEq, Repr

structure SealedMedia where
  streamId : String
  sessionId : String
  epoch : Nat
  chunks : List SealedChunk
  resource : ResourceRef
  previous : Option ResourceRef
  deriving DecidableEq, Repr

structure ArchivedMedia where
  streamKey : String
  sealed : ResourceRef
  complete : Bool
  previous : Option ResourceRef
  deriving DecidableEq, Repr

end Zhir.Core
