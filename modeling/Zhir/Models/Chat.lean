import Zhir.Models.Codec

/-!
The Chat codec: conversations as messages of a request, and a completion as a turn.
-/

set_option autoImplicit false
set_option relaxedAutoImplicit false

namespace Zhir.Models.Chat

open Zhir.Core

def subtype (mediaType : String) : String :=
  String.ofList (mediaType.toList.reverse.takeWhile (· ≠ '/')).reverse

def content : Content → Result Value
  | .text text => .ok (.object [("text", .string text), ("type", .string "text")])
  | .opaqueData _ data => .ok data
  | .resource input => do
    let r := input.resource
    let fields ←
      if modality r = "image" then do
        let url ← dataUrl r
        let image := [("url", Value.string url)]
        let image := match fidelity input with
          | some detail => Value.insertField image "detail" (.string detail)
          | none => image
        pure [("image_url", .object image), ("type", .string "image_url")]
      else if modality r = "file" then do
        let data ← dataUrl r
        pure [("file", .object [("file_data", .string data), ("filename", optionalName r.name)]),
          ("type", .string "file")]
      else if modality r = "audio" then
        match r.source with
        | .inline bytes => .ok [("input_audio", .object [("data", .string (base64 bytes)),
            ("format", .string (subtype r.mediaType))]), ("type", .string "input_audio")]
        | _ => .error (.invalid "chat audio requires inline binary input")
      else .error (.invalid "unsupported resource modality")
    resourceExtensions input "chat" fields

def callValue (json : JsonText) (call : RuntimeToolCall) : Value := .object [
  ("function", .object [
    ("arguments", .string (callInput json call)), ("name", .string call.name)]),
  ("id", .string call.id), ("type", .string "function")]

/-- A turn while its outputs are gone through: contents, calls, and provider history. -/
structure Turn where
  contents : List Value := []
  calls : List Value := []
  values : List Value := []

section

variable {σ : Type}

def addOutput (json : JsonText) (extension : Option (ProtocolExtension σ)) (turn : Turn)
    (output : Output) (s : σ) : Result (Turn × σ) :=
  match output with
  | .delegation _ => .error (.invalid "protocol does not accept delegation calls")
  | .content value => do
    let value ← content value
    return ({ turn with contents := turn.contents ++ [value] }, s)
  | .runtimeToolCall call => .ok ({ turn with calls := turn.calls ++ [callValue json call] }, s)
  | .providerToolCall call => do
    let (values, s) ← providerHistory .chat extension call s
    return ({ turn with values := turn.values ++ values }, s)

def addOutputs (json : JsonText) (extension : Option (ProtocolExtension σ)) :
    Turn → List Output → σ → Result (Turn × σ)
  | turn, [], s => .ok (turn, s)
  | turn, output :: rest, s => do
    let (turn, s) ← addOutput json extension turn output s
    addOutputs json extension turn rest s

/-- The message of a turn: calls are left out when there are none. -/
def Turn.message (turn : Turn) : Value :=
  let fields := [("content", Value.array turn.contents), ("role", .string "assistant")]
  .object (if turn.calls = [] then fields
    else Value.insertField fields "tool_calls" (.array turn.calls))

/-- `assistant`: provider history first, then the one message of the turn. -/
def assistant (json : JsonText) (extension : Option (ProtocolExtension σ)) (output : List Output)
    (s : σ) : Result (List Value × σ) := do
  let (turn, s) ← addOutputs json extension {} output s
  return (turn.values ++ [turn.message], s)

def encodeMessage (json : JsonText) (extension : Option (ProtocolExtension σ)) (message : Message)
    (s : σ) : Result (List Value × σ) :=
  match message with
  | .delegationResult _ _ => .error (.invalid "protocol does not accept delegation history")
  | .system values => do
    let values ← parts content values
    return ([.object [("content", .array values), ("role", .string "system")]], s)
  | .user values | .external values => do
    let values ← parts content values
    return ([.object [("content", .array values), ("role", .string "user")]], s)
  | .assistant output providerData => do
    let (recorded, s) ← assistantReplay .chat extension output providerData s
    match recorded with
    | some values => return (values, s)
    | none => assistant json extension output s
  | .runtimeTool callId _ outcome => do
    let value ← resultContent content outcome
    return ([.object [("content", value), ("role", .string "tool"),
      ("tool_call_id", .string callId)]], s)

/-- `encode`, the messages of the request. -/
def encode (json : JsonText) (extension : Option (ProtocolExtension σ)) :
    List Message → σ → Result (List Value × σ)
  | [], s => .ok ([], s)
  | message :: rest, s => do
    let (values, s) ← encodeMessage json extension message s
    let (others, s) ← encode json extension rest s
    return (values ++ others, s)

end

def decodeContent : Option Value → Result (List Output)
  | some (.string text) => .ok [.content (.text text)]
  | some (.array parts) => parts.mapM (parseContent "openai")
  | _ => .ok []

def decodeReasoning (message : Value) : List Output :=
  match (message.field "reasoning_content").bind asString with
  | some reasoning => [.content (.opaqueData "openai" (.object [
      ("text", .string reasoning), ("type", .string "reasoning")]))]
  | none => []

def decodeCall (json : JsonText) (call : Value) : Result Output :=
  match call.field "function" with
  | none => .error (.protocol "missing function")
  | some function => do
    let id ← textField call "id"
    let name ← textField function "name"
    let arguments ← textField function "arguments"
    match json.parse arguments with
    | .error message => .error (.protocol message)
    | .ok v => return .runtimeToolCall ⟨id, name, .structured v⟩

def decode (json : JsonText) (v : Value) : Result Decoded :=
  match v.pointer ["choices", "0", "message"] with
  | none => .error (.protocol "missing chat message")
  | some message => do
    let content ← decodeContent (message.field "content")
    let calls := ((message.field "tool_calls").bind asArray).getD []
    let calls ← calls.mapM (decodeCall json)
    return ⟨decodeReasoning message ++ content ++ calls, v, false⟩

end Zhir.Models.Chat
