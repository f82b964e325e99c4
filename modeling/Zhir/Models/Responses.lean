import Zhir.Models.Codec

/-!
The Responses codec: turns as input items, and output items as turns.
-/

set_option autoImplicit false
set_option relaxedAutoImplicit false

namespace Zhir.Models.Responses

open Zhir.Core

def content (output : Bool) : Content → Result Value
  | .text text => .ok (.object [
      ("text", .string text), ("type", .string (if output then "output_text" else "input_text"))])
  | .opaqueData _ data => .ok data
  | .resource input => do
    let r := input.resource
    let fields ←
      if modality r = "image" then do
        let url ← dataUrl r
        let fields := [("image_url", Value.string url), ("type", .string "input_image")]
        pure (match fidelity input with
          | some detail => Value.insertField fields "detail" (.string detail)
          | none => fields)
      else if modality r = "file" then
        match r.source with
        | .url url => .ok [("file_url", Value.string url), ("type", .string "input_file")]
        | .provider _ reference => .ok [("file_id", reference), ("type", .string "input_file")]
        | _ => do
          let data ← dataUrl r
          pure [("file_data", Value.string data), ("filename", optionalName r.name),
            ("type", .string "input_file")]
      else .error (.invalid "unsupported resource modality")
    resourceExtensions input "responses" fields

def messageItem (role : String) (values : List Value) : Value :=
  .object [("content", .array values), ("role", .string role), ("type", .string "message")]

def callItem (json : JsonText) (call : RuntimeToolCall) : Value :=
  match call.input with
  | .structured _ => .object [("arguments", .string (callInput json call)),
      ("call_id", .string call.id), ("name", .string call.name), ("type", .string "function_call")]
  | .freeform input => .object [("call_id", .string call.id), ("input", .string input),
      ("name", .string call.name), ("type", .string "custom_tool_call")]

section

variable {σ : Type}

def outputItems (json : JsonText) (extension : Option (ProtocolExtension σ)) (output : Output)
    (s : σ) : Result (List Value × σ) :=
  match output with
  | .delegation _ => .error (.invalid "protocol does not accept delegation calls")
  | .content value => do
    let part ← content true value
    return ([messageItem "assistant" [part]], s)
  | .runtimeToolCall call => .ok ([callItem json call], s)
  | .providerToolCall call => providerHistory .responses extension call s

/-- `assistant`: the items of a turn that has no record. -/
def assistant (json : JsonText) (extension : Option (ProtocolExtension σ)) :
    List Output → σ → Result (List Value × σ)
  | [], s => .ok ([], s)
  | output :: rest, s => do
    let (values, s) ← outputItems json extension output s
    let (others, s) ← assistant json extension rest s
    return (values ++ others, s)

def freeformCalls (output : List Output) : List String :=
  output.filterMap fun
    | .runtimeToolCall ⟨id, _, .freeform _⟩ => some id
    | _ => none

def encodeTurn (json : JsonText) (extension : Option (ProtocolExtension σ)) (output : List Output)
    (providerData : Value) (s : σ) : Result (List Value × σ) := do
  let (recorded, s) ← assistantReplay .responses extension output providerData s
  match recorded with
  | some values => return (values, s)
  | none => assistant json extension output s

/-- One message; `freeform` are the free-form calls of the turns before it. -/
def encodeMessage (json : JsonText) (extension : Option (ProtocolExtension σ)) (message : Message)
    (freeform : List String) (s : σ) : Result (List Value × σ) :=
  match message with
  | .delegationResult _ _ => .error (.invalid "protocol does not accept delegation history")
  | .system values => do
    let values ← parts (content false) values
    return ([.object [("content", .array values), ("role", .string "system")]], s)
  | .user values | .external values => do
    let values ← parts (content false) values
    return ([.object [("content", .array values), ("role", .string "user")]], s)
  | .assistant output providerData => encodeTurn json extension output providerData s
  | .runtimeTool callId _ outcome => do
    let output ← resultContent (content false) outcome
    let type := if callId ∈ freeform then "custom_tool_call_output" else "function_call_output"
    return ([.object [("call_id", .string callId), ("output", output),
      ("type", .string type)]], s)

/-- `encode`, the input of the request. -/
def encode (json : JsonText) (extension : Option (ProtocolExtension σ)) :
    List Message → (freeform : List String) → σ → Result (List Value × σ)
  | [], _, s => .ok ([], s)
  | message :: rest, freeform, s => do
    let freeform := match message with
      | .assistant output _ => freeformCalls output ++ freeform
      | _ => freeform
    let (values, s) ← encodeMessage json extension message freeform s
    let (others, s) ← encode json extension rest freeform s
    return (values ++ others, s)

end

def decodeParts : List Value → Result (List Output)
  | [] => .ok []
  | part :: rest => do
    let output ← parseContent "openai" part
    let outputs ← decodeParts rest
    return output :: outputs

def decodeItem (json : JsonText) (item : Value) : Result (List Output) := do
  let kind ← textField item "type"
  if kind = "message" then
    match (item.field "content").bind asArray with
    | none => .error (.protocol "missing message content")
    | some parts => decodeParts parts
  else if kind = "function_call" then
    let id ← textField item "call_id"
    let name ← textField item "name"
    let arguments ← textField item "arguments"
    match json.parse arguments with
    | .error message => .error (.protocol message)
    | .ok v => return [.runtimeToolCall ⟨id, name, .structured v⟩]
  else if kind = "custom_tool_call" then
    let id ← textField item "call_id"
    let name ← textField item "name"
    let input ← textField item "input"
    return [.runtimeToolCall ⟨id, name, .freeform input⟩]
  else if kind = "reasoning" ∨ kind = "compaction" then
    return [.content (.opaqueData "openai" item)]
  else .error (.protocol ("unmapped execution or output item: " ++ kind))

def decode {σ : Type} (json : JsonText) (extension : Option (ProtocolExtension σ)) (v : Value)
    (s : σ) : Result (Decoded × σ) :=
  decodeItems .responses "output" v extension (decodeItem json) s

end Zhir.Models.Responses
