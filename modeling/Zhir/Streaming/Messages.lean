import Std.Data.ExtTreeMap
import Zhir.Streaming.Http

/-!
The stream of a Messages response: blocks that are opened, extended and closed by their index.
-/

set_option autoImplicit false
set_option relaxedAutoImplicit false

namespace Zhir.Streaming.Messages

open Std (ExtTreeMap)
open Zhir.Core
open Zhir.Models

structure State where
  value : Value
  blocks : ExtTreeMap Nat Value
  partials : ExtTreeMap Nat String
  done : Bool

def State.new : State where
  value := .object [("content", .array []), ("usage", .object [])]
  blocks := ∅
  partials := ∅
  done := false

def index (v : Value) : Nat := ((v.field "index").bind (asNat maxU64)).getD 0

def textAt (v : Value) (key : String) : String := ((v.field key).bind asString).getD ""

/-- `value["type"]`, as a text. -/
def kindOf (v : Value) : String := textAt v "type"

/-- `value["delta"]`. -/
def deltaOf (v : Value) : Value := (v.field "delta").getD .null

/-- `append` to the block under an index. -/
def State.appendText (s : State) (index : Nat) (block : Value) (key text : String) :
    Checked State := do
  let block ← append block key text
  return { s with blocks := s.blocks.insert index block }

def State.blockDelta (s : State) (index : Nat) (delta : Value) :
    Checked (State × List ModelDelta) :=
  match s.blocks[index]? with
  | none => refuse (.protocol "delta before block start")
  | some block =>
    if kindOf delta = "text_delta" then do
      let s ← s.appendText index block "text" (textAt delta "text")
      return (s, [.text index (textAt delta "text")])
    else if kindOf delta = "thinking_delta" then do
      let s ← s.appendText index block "thinking" (textAt delta "thinking")
      return (s, [.reasoning index (textAt delta "thinking")])
    else if kindOf delta = "signature_delta" then do
      let s ← s.appendText index block "signature" (textAt delta "signature")
      return (s, [])
    else if kindOf delta = "input_json_delta" then
      let input := textAt delta "partial_json"
      .ok ({ s with partials := s.partials.insert index ((s.partials[index]?).getD "" ++ input) },
        [.runtimeTool index ((block.field "id").bind asString) ((block.field "name").bind asString)
          input])
    else .ok (s, [])

/-- `stop_block`: partial input is read as a whole. -/
def State.stopBlock (json : JsonText) (s : State) (index : Nat) : Checked State :=
  match s.partials[index]? with
  | none => .ok s
  | some raw =>
    match s.blocks[index]? with
    | none => refuse (.protocol "unknown block stop")
    | some block =>
      match json.parse raw with
      | .error message => refuse (.protocol message)
      | .ok input => do
        let block ← block.assign "input" input
        return { s with
          blocks := s.blocks.insert index block
          partials := s.partials.erase index }

def fieldsOf (v : Value) (key : String) : Option (List (String × Value)) :=
  (v.field key).bind asObject

/-- `value["usage"][name] = w` for each of the counters. -/
def putUsage (counters : List (String × Value)) (v : Value) : Checked Value :=
  counters.foldlM (fun v f => v.modifyField "usage" fun usage => usage.assign f.1 f.2) v

def State.messageDelta (s : State) (v : Value) : Checked (State × List ModelDelta) := do
  let value ← ((fieldsOf v "delta").getD []).foldlM (fun value f => value.assign f.1 f.2) s.value
  match fieldsOf v "usage" with
  | none => return ({ s with value }, [])
  | some counters => do
    let value ← putUsage counters value
    return ({ s with value },
      [.usage (Protocol.messages.usage ((value.field "usage").getD .null))])

def State.push (json : JsonText) (v : Value) (s : State) : Checked (State × List ModelDelta) :=
  if kindOf v = "message_start" then
    match v.field "message" with
    | none => refuse (.protocol "missing streamed message")
    | some message => .ok ({ s with value := message }, [])
  else if kindOf v = "content_block_start" then
    match v.field "content_block" with
    | none => refuse (.protocol "missing content block")
    | some block =>
      if (s.blocks[index v]?).isSome then refuse (.protocol "duplicate content block")
      else .ok ({ s with blocks := s.blocks.insert (index v) block }, [])
  else if kindOf v = "content_block_delta" then
    s.blockDelta (index v) (deltaOf v)
  else if kindOf v = "content_block_stop" then do
    let s ← s.stopBlock json (index v)
    return (s, [])
  else if kindOf v = "message_delta" then s.messageDelta v
  else if kindOf v = "message_stop" then .ok ({ s with done := true }, [])
  else .ok (s, [])

/-- `finish`: the blocks in the order of their indices. -/
def State.finish (s : State) : Checked Value :=
  if s.done ∧ s.partials.isEmpty then
    s.value.assign "content" (.array (s.blocks.toList.map Prod.snd))
  else refuse incomplete

def stream (json : JsonText) : StreamState State where
  new := .new
  push := State.push json
  finish := State.finish
  done := fun s => s

end Zhir.Streaming.Messages
