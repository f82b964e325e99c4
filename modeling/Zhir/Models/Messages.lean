import Zhir.Models.Codec

/-!
The Messages codec: conversations as messages of a request, results gathered in user messages,
and a response as a turn.
-/

set_option autoImplicit false
set_option relaxedAutoImplicit false

namespace Zhir.Models.Messages

open Zhir.Core

def content : Content → Result Value
  | .text text => .ok (.object [("text", .string text), ("type", .string "text")])
  | .opaqueData _ data => .ok data
  | .resource input => do
    let r := input.resource
    let source ← match r.source with
      | .url url => .ok (Value.object [("type", .string "url"), ("url", .string url)])
      | .inline bytes => .ok (.object [("data", .string (base64 bytes)),
          ("media_type", .string r.mediaType), ("type", .string "base64")])
      | _ => .error (.invalid "resource must be resolved before encoding")
    let fields ←
      if modality r = "image" then .ok [("source", source), ("type", .string "image")]
      else if modality r = "file" then
        .ok [("source", source), ("title", optionalName r.name), ("type", .string "document")]
      else .error (.invalid "unsupported resource modality")
    resourceExtensions input "messages" fields

def toolUse (call : RuntimeToolCall) (input : Value) : Value := .object [
  ("id", .string call.id), ("input", input), ("name", .string call.name),
  ("type", .string "tool_use")]

section

variable {σ : Type}

def outputBlocks (extension : Option (ProtocolExtension σ)) (output : Output) (s : σ) :
    Result (List Value × σ) :=
  match output with
  | .delegation _ => .error (.invalid "protocol does not accept delegation calls")
  | .content value => do
    let value ← content value
    return ([value], s)
  | .runtimeToolCall call =>
    match call.input with
    | .structured input => .ok ([toolUse call input], s)
    | .freeform _ => .error (.invalid "Anthropic requires structured tools")
  | .providerToolCall call => providerHistory .messages extension call s

/-- `assistant`: the content blocks of a turn. -/
def assistant (extension : Option (ProtocolExtension σ)) :
    List Output → σ → Result (List Value × σ)
  | [], s => .ok ([], s)
  | output :: rest, s => do
    let (values, s) ← outputBlocks extension output s
    let (others, s) ← assistant extension rest s
    return (values ++ others, s)

/-- A request while its messages are gone through; results wait for the next other message. -/
structure Request where
  messages : List Value := []
  results : List Value := []
  system : List Value := []

def flushResults (r : Request) : Request :=
  if r.results = [] then r
  else { r with
    messages := r.messages ++
      [.object [("content", .array r.results), ("role", .string "user")]]
    results := [] }

def isError : OperationOutcome → Bool
  | .failure _ => true
  | _ => false

def encodeTurn (extension : Option (ProtocolExtension σ)) (output : List Output)
    (providerData : Value) (s : σ) : Result (List Value × σ) := do
  let (recorded, s) ← assistantReplay .messages extension output providerData s
  match recorded with
  | some values => return (values, s)
  | none => assistant extension output s

def addMessage (extension : Option (ProtocolExtension σ)) (r : Request) (message : Message)
    (s : σ) : Result (Request × σ) :=
  match message with
  | .delegationResult _ _ => .error (.invalid "protocol does not accept delegation history")
  | .system values => do
    let r := flushResults r
    let values ← parts content values
    return ({ r with system := r.system ++ values }, s)
  | .user values | .external values => do
    let r := flushResults r
    let values ← parts content values
    return ({ r with messages := r.messages ++
      [.object [("content", .array values), ("role", .string "user")]] }, s)
  | .assistant output providerData => do
    let r := flushResults r
    let (values, s) ← encodeTurn extension output providerData s
    return ({ r with messages := r.messages ++
      [.object [("content", .array values), ("role", .string "assistant")]] }, s)
  | .runtimeTool callId _ outcome => do
    let values ← parts content (outcomeContent outcome)
    return ({ r with results := r.results ++ [.object [("content", .array values),
      ("is_error", .bool (isError outcome)), ("tool_use_id", .string callId),
      ("type", .string "tool_result")]] }, s)

def addMessages (extension : Option (ProtocolExtension σ)) :
    Request → List Message → σ → Result (Request × σ)
  | r, [], s => .ok (r, s)
  | r, message :: rest, s => do
    let (r, s) ← addMessage extension r message s
    addMessages extension r rest s

/-- `encode`, the messages and the system blocks of the request. -/
def encode (extension : Option (ProtocolExtension σ)) (messages : List Message) (s : σ) :
    Result (Request × σ) := do
  let (r, s) ← addMessages extension {} messages s
  return (flushResults r, s)

end

def decodeItem (item : Value) : Result (List Output) := do
  let kind := ((item.field "type").bind asString).getD ""
  if kind = "tool_use" then
    let id ← textField item "id"
    let name ← textField item "name"
    match item.field "input" with
    | none => .error (.protocol "missing tool input")
    | some input => return [.runtimeToolCall ⟨id, name, .structured input⟩]
  else if kind ∈ ["text", "thinking", "redacted_thinking", "image", "document"] then
    let output ← parseContent "anthropic" item
    return [output]
  else if kind = "server_tool_use" ∨ kind.endsWith "_tool_result" then
    .error (.protocol ("unmapped execution item: " ++ kind))
  else .error (.protocol ("unmapped execution or content item: " ++ kind))

/-- `decode`: a paused turn is to be continued. -/
def decode {σ : Type} (extension : Option (ProtocolExtension σ)) (v : Value) (s : σ) :
    Result (Decoded × σ) := do
  let (decoded, s) ← decodeItems .messages "content" v extension decodeItem s
  let paused := (v.field "stop_reason").bind asString = some "pause_turn"
  return ({ decoded with pending := paused }, s)

end Zhir.Models.Messages
