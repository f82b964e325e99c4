import Zhir.Models.Adapter
import Zhir.Models.Chat
import Zhir.Models.Messages
import Zhir.Models.Responses

/-!
The response of a model, decoded by its protocol.
-/

set_option autoImplicit false
set_option relaxedAutoImplicit false

namespace Zhir.Models

open Zhir.Core

structure GenerationOutput where
  output : List Output
  usage : Usage
  status : ResponseStatus
  providerData : Value
  modelId : Option String
  responseId : Option String
  finishReason : Option String
  deriving DecidableEq, Repr

def unfinishedCall : Output → Bool
  | .providerToolCall call => call.status = .pending ∨ call.status = .running
  | _ => false

def responseStatus (finishReason : Option String) (pending : Bool) : ResponseStatus :=
  if finishReason = some "failed" then .failed
  else if finishReason = some "cancelled" then .cancelled
  else if finishReason ∈ [some "incomplete", some "length", some "max_tokens",
      some "content_filter"] then .incomplete
  else if pending then .continuation
  else .completed

def generationOutput (protocol : Protocol) (v : Value) (decoded : Decoded) : GenerationOutput :=
  let finishReason := (protocol.finishReason v).bind asString
  { output := decoded.output
    usage := protocol.usage ((v.field "usage").getD .null)
    status := responseStatus finishReason
      (decoded.pending || decoded.output.any unfinishedCall)
    providerData := .object [("protocol", .string protocol.key), ("response", decoded.replay)]
    modelId := (v.field "model").bind asString
    responseId := (v.field "id").bind asString
    finishReason }

section

variable {σ : Type}

/-- `decode` of the adapters. -/
def Protocol.decode (json : JsonText) (extension : Option (ProtocolExtension σ)) (v : Value)
    (s : σ) : Protocol → Result (Decoded × σ)
  | .chat => do
    let decoded ← Chat.decode json v
    return (decoded, s)
  | .responses => Responses.decode json extension v s
  | .messages => Messages.decode extension v s

def decode (json : JsonText) (protocol : Protocol) (v : Value)
    (extension : Option (ProtocolExtension σ)) (s : σ) : Result (GenerationOutput × σ) := do
  match (v.field "error").filter fun e => e ≠ .null with
  | some e => .error (.protocol (json.print e))
  | none =>
    let (decoded, s) ← protocol.decode json extension v s
    return (generationOutput protocol v decoded, s)

end

end Zhir.Models
