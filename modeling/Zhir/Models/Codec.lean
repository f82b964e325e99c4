import Zhir.Models.Marker
import Zhir.Models.Resources

/-!
What the codecs of the HTTP protocols share: reading fields, the parts of a message, the replay
of recorded items, and the loop that decodes output items.
-/

set_option autoImplicit false
set_option relaxedAutoImplicit false

namespace Zhir.Models

open Zhir.Core

inductive Protocol
  | chat | responses | messages
  deriving DecidableEq, Repr

def Protocol.key : Protocol → String
  | .chat => "chat"
  | .responses => "responses"
  | .messages => "messages"

/-- `serde_json` between documents and their texts. -/
structure JsonText where
  parse : String → Except String Value
  print : Value → String

/-- The hooks of `ProtocolExtension` for items, over the state of one invocation. -/
structure ProtocolExtension (σ : Type) where
  decodeOutputItem : Protocol → (item response : Value) → σ → Result (Option (List Output) × σ)
  encodeProviderHistory : Protocol → ProviderToolCall → σ → Result (Option (List Value) × σ)

/-- `text`. -/
def textField (v : Value) (key : String) : Result String :=
  match (v.field key).bind asString with
  | some s => .ok s
  | none => .error (.protocol ("missing " ++ key))

/-- `ResourceRef::modality`, by the type before the slash. -/
def modality (r : ResourceRef) : String :=
  let type := String.ofList (r.mediaType.toList.takeWhile (· ≠ '/'))
  if type = "image" ∨ type = "audio" ∨ type = "video" then type else "file"

def dataUrl (r : ResourceRef) : Result String :=
  match r.source with
  | .url url => .ok url
  | .inline bytes => .ok ("data:" ++ r.mediaType ++ ";base64," ++ base64 bytes)
  | _ => .error (.invalid "resource requires resolution or provider-native encoding")

def fidelity (input : ResourceInput) : Option String :=
  input.fidelity.map fun r => match r.value with
    | .economy => "low"
    | .high => "high"
    | .original => "original"

def optionalName : Option String → Value
  | some name => .string name
  | none => .null

def addExtensions : List (String × Value) → List (String × Value) → Result Value
  | [], fields => .ok (.object fields)
  | (key, value) :: rest, fields =>
    if (fields.lookup key).isSome then
      .error (.invalid ("resource extension overrides controlled field " ++ key))
    else addExtensions rest (Value.insertField fields key value)

/-- `resource_extensions`, onto the fields of an encoded resource. -/
def resourceExtensions (input : ResourceInput) (protocol : String)
    (fields : List (String × Value)) : Result Value :=
  addExtensions ((input.extensions.lookup protocol).getD []) fields

/-- `parts`, for the encoder of one content. -/
def parts (encode : Content → Result Value) : List Content → Result (List Value)
  | [] => .ok []
  | content :: rest => do
    let value ← encode content
    let values ← parts encode rest
    return value :: values

def callInput (json : JsonText) (call : RuntimeToolCall) : String :=
  match call.input with
  | .structured v => json.print v
  | .freeform s => s

def outcomeContent : OperationOutcome → List Content
  | .failure error => [.text error.message]
  | outcome => outcome.content

def asText : Content → Option String
  | .text text => some text
  | _ => none

/-- `result_content`: joined when it is all text. -/
def resultContent (encode : Content → Result Value) (outcome : OperationOutcome) : Result Value :=
  let content := outcomeContent outcome
  if content.all (fun c => (asText c).isSome) then
    .ok (.string (String.intercalate "\n" (content.filterMap asText)))
  else do
    let values ← parts encode content
    return .array values

def parseContent (provider : String) (v : Value) : Result Output := do
  let type := ((v.field "type").bind asString).getD ""
  if type = "text" ∨ type = "output_text" then
    let s ← textField v "text"
    return .content (.text s)
  else if type = "refusal" then
    let s ← textField v "refusal"
    return .content (.text s)
  else return .content (.opaqueData provider v)

section

variable {σ : Type}

def providerHistory (protocol : Protocol) (extension : Option (ProtocolExtension σ))
    (call : ProviderToolCall) (s : σ) : Result (List Value × σ) :=
  let missing := Error.invalid ("no replay adapter for " ++ call.provider ++ "/" ++ call.name)
  match extension with
  | none => .error missing
  | some e => do
    let (values, s) ← e.encodeProviderHistory protocol call s
    match values with
    | some values => return (values, s)
    | none => .error missing

/-- `POSITION`. -/
def positionKey : String := "$zhir_provider_calls"

/-- The provider calls of a turn by id; of two with one id the later counts. -/
def providerCalls (output : List Output) : List (String × ProviderToolCall) :=
  (output.filterMap fun
    | .providerToolCall call => some (call.id, call)
    | _ => none).reverse

def replayCalls (protocol : Protocol) (extension : Option (ProtocolExtension σ))
    (calls : List (String × ProviderToolCall)) :
    List Value → List String → σ → Result (List Value × List String × σ)
  | [], emitted, s => .ok ([], emitted, s)
  | v :: rest, emitted, s =>
    match asString v with
    | none => .error (.protocol "provider replay call id must be a string")
    | some id =>
      match calls.lookup id with
      | none => .error (.protocol "provider replay mapping references an absent call")
      | some call => do
        require (id ∉ emitted) (.protocol "provider call has multiple native replay positions")
        let (values, s) ← providerHistory protocol extension call s
        let (others, emitted, s) ← replayCalls protocol extension calls rest (id :: emitted) s
        return (values ++ others, emitted, s)

/-- The loop of `replay_items`: an item is repeated as it is, unless it marks a position. -/
def replayLoop (protocol : Protocol) (extension : Option (ProtocolExtension σ))
    (calls : List (String × ProviderToolCall)) :
    List Value → List String → σ → Result (List Value × List String × σ)
  | [], emitted, s => .ok ([], emitted, s)
  | item :: rest, emitted, s =>
    match item.field positionKey with
    | none => do
      let (others, emitted, s) ← replayLoop protocol extension calls rest emitted s
      return (item :: others, emitted, s)
    | some ids => do
      require ((asObject item).any (fun fields => fields.length = 1) = true)
        (.protocol "invalid provider replay position")
      match asArray ids with
      | none => .error (.protocol "provider replay mapping must contain call ids")
      | some ids =>
        let (values, emitted, s) ← replayCalls protocol extension calls ids emitted s
        let (others, emitted, s) ← replayLoop protocol extension calls rest emitted s
        return (values ++ others, emitted, s)

def replayItems (protocol : Protocol) (extension : Option (ProtocolExtension σ))
    (items : List Value) (output : List Output) (s : σ) : Result (List Value × σ) := do
  let calls := providerCalls output
  let (values, emitted, s) ← replayLoop protocol extension calls items [] s
  require (emitted.length = (calls.map Prod.fst).dedup.length)
    (.protocol "provider call has no native replay position")
  return (values, s)

/-- `replay_items` of the adapters: where a protocol keeps its output items. -/
def Protocol.replayItems : Protocol → Value → Option (List Value)
  | .chat, response => (response.pointer ["choices", "0", "message"]).map fun message => [message]
  | .responses, response => (response.field "output").bind asArray
  | .messages, response => (response.field "content").bind asArray

/-- The recorded items of a turn, when its data is of the protocol. -/
def recordedItems (protocol : Protocol) (data : Value) : Option (List Value) :=
  if (data.field "protocol").bind asString = some protocol.key then
    protocol.replayItems ((data.field "response").getD .null)
  else none

def assistantReplay (protocol : Protocol) (extension : Option (ProtocolExtension σ))
    (output : List Output) (data : Value) (s : σ) : Result (Option (List Value) × σ) :=
  match recordedItems protocol data with
  | none => .ok (none, s)
  | some items => do
    let (values, s) ← replayItems protocol extension items output s
    return (some values, s)

/-- `validate_output_item` of the adapters. -/
def Protocol.validateOutputItem : Protocol → Value → Result Unit
  | .responses, item => do
    let _ ← textField item "type"
  | _, _ => .ok ()

/-- `mark_position`: what the item of mapped output is replaced by in the record. -/
def markPosition (output : List Output) (item : Value) : Result Value :=
  let ids := output.filterMap fun
    | .providerToolCall call => some (Value.string call.id)
    | _ => none
  if ids = [] ∧ output ≠ [] then .ok item
  else if ids.length ≠ output.length then
    .error (.protocol "one native item cannot mix provider and other output ownership")
  else .ok (.object [(positionKey, .array ids)])

structure Decoded where
  output : List Output
  replay : Value
  pending : Bool
  deriving DecidableEq, Repr

def mapItem (protocol : Protocol) (extension : Option (ProtocolExtension σ)) (item v : Value)
    (s : σ) : Result (Option (List Output) × σ) :=
  match extension with
  | none => .ok (none, s)
  | some e => e.decodeOutputItem protocol item v s

/-- One item: its outputs, and what is recorded in its place. -/
def readItem (protocol : Protocol) (extension : Option (ProtocolExtension σ)) (v : Value)
    (native : Value → Result (List Output)) (item : Value) (s : σ) :
    Result (List Output × Value × σ) := do
  protocol.validateOutputItem item
  let (mapped, s) ← mapItem protocol extension item v s
  match mapped with
  | some output => do
    let recorded ← markPosition output item
    return (output, recorded, s)
  | none => do
    let output ← native item
    return (output, item, s)

/-- The loop of `decode_items`: the outputs, and the items as they are recorded. -/
def decodeLoop (protocol : Protocol) (extension : Option (ProtocolExtension σ)) (v : Value)
    (native : Value → Result (List Output)) :
    List Value → σ → Result (List Output × List Value × σ)
  | [], s => .ok ([], [], s)
  | item :: rest, s => do
    let (output, recorded, s) ← readItem protocol extension v native item s
    let (outputs, others, s) ← decodeLoop protocol extension v native rest s
    return (output ++ outputs, recorded :: others, s)

def setMember (v : Value) (key : String) (w : Value) : Value :=
  match v with
  | .object fields => .object (Value.setField key w fields)
  | v => v

def decodeItems (protocol : Protocol) (key : String) (v : Value)
    (extension : Option (ProtocolExtension σ)) (native : Value → Result (List Output)) (s : σ) :
    Result (Decoded × σ) :=
  match (v.field key).bind asArray with
  | none => .error (.protocol ("missing " ++ key))
  | some items => do
    let (output, recorded, s) ← decodeLoop protocol extension v native items s
    return (⟨output, setMember v key (.array recorded), false⟩, s)

end

end Zhir.Models
