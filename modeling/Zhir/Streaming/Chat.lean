import Std.Data.ExtTreeMap
import Zhir.Streaming.Http

/-!
The stream of a Chat completion: deltas of one message, and its tool calls by their index.
-/

set_option autoImplicit false
set_option relaxedAutoImplicit false

namespace Zhir.Streaming.Chat

open Std (ExtTreeMap)
open Zhir.Core
open Zhir.Models

structure State where
  value : Value
  calls : ExtTreeMap Nat Value
  done : Bool

def State.new : State where
  value := .object [("choices", .array [.object [
    ("finish_reason", .null),
    ("message", .object [("content", .string ""), ("role", .string "assistant")])]])]
  calls := ∅
  done := false

/-- A change behind `&mut value["choices"][0]`. -/
def modifyChoice (v : Value) (change : Value → Checked Value) : Checked Value :=
  v.modifyField "choices" fun choices => choices.modifyItem 0 change

def isArray : Value → Bool
  | .array _ => true
  | _ => false

/-- A field becomes an array unless it is one. -/
def openTokens (target : Value) (key : String) : Checked Value :=
  if (target.field key).any isArray then .ok target else target.assign key (.array [])

/-- `as_array_mut`, which is expected to find an array, and `extend`. -/
def extendTokens (tokens : List Value) : Value → Checked Value
  | .array before => .ok (.array (before ++ tokens))
  | _ => .error .panic

/-- One field of `merge_logprobs`: tokens are added to those before. -/
def mergeLogprob (target : Value) (field : String × Value) : Checked Value :=
  match field.2 with
  | .array tokens => do
    let target ← openTokens target field.1
    target.modifyField field.1 (extendTokens tokens)
  | .null => .ok target
  | v => target.assign field.1 v

def mergeLogprobs (target source : Value) : Checked Value :=
  match source with
  | .object fields => fields.foldlM mergeLogprob target
  | _ => .ok target

/-- One key of `text`. -/
def textOf (delta : Value) (key : String) (report : String → ModelDelta) (v : Value) :
    Checked (Value × List ModelDelta) :=
  match (delta.field key).bind asString with
  | none => .ok (v, [])
  | some text => do
    let v ← modifyChoice v fun choice =>
      choice.modifyField "message" fun message => append message key text
    return (v, [report text])

def text (delta v : Value) : Checked (Value × List ModelDelta) := do
  let (v, contents) ← textOf delta "content" (.text 0) v
  let (v, reasoning) ← textOf delta "reasoning_content" (.reasoning 0) v
  return (v, contents ++ reasoning)

def emptyCall : Value := .object [
  ("function", .object [("arguments", .string ""), ("name", .string "")]),
  ("type", .string "function")]

/-- `index + 1`; where overflow is checked, the largest index has no successor. -/
def nextIndex (overflowChecks : Bool) (index : Nat) : Checked Nat :=
  if index < maxU64 then .ok (index + 1)
  else if overflowChecks then .error .panic
  else .ok 0

def callIndex (call : Value) : Option Nat := (call.field "index").bind (asNat maxU64)

/-- The id of a call is that of its last fragment that has one. -/
def setId (entry : Value) : Option Value → Checked Value
  | some id => entry.assign "id" id
  | none => .ok entry

def addName (entry : Value) : Option String → Checked Value
  | some name => entry.modifyField "function" fun function => append function "name" name
  | none => .ok entry

def nameOf (fragment : Value) : Option String :=
  (fragment.pointer ["function", "name"]).bind asString

def argumentsOf (fragment : Value) : String :=
  ((fragment.pointer ["function", "arguments"]).bind asString).getD ""

def extendCall (entry fragment : Value) : Checked Value := do
  let entry ← setId entry (fragment.field "id")
  let entry ← addName entry (nameOf fragment)
  entry.modifyField "function" fun function => append function "arguments" (argumentsOf fragment)

def call (overflowChecks : Bool) (fragment : Value) (calls : ExtTreeMap Nat Value) :
    Checked (ExtTreeMap Nat Value × ModelDelta) :=
  match callIndex fragment with
  | none => refuse (.protocol "stream tool call missing index")
  | some index => do
    let entry ← extendCall (calls[index]?.getD emptyCall) fragment
    let outputIndex ← nextIndex overflowChecks index
    return (calls.insert index entry, .runtimeTool outputIndex ((fragment.field "id").bind asString)
      (nameOf fragment) (argumentsOf fragment))

def addCalls (overflowChecks : Bool) :
    List Value → ExtTreeMap Nat Value → Checked (ExtTreeMap Nat Value × List ModelDelta)
  | [], calls => .ok (calls, [])
  | fragment :: rest, calls => do
    let (calls, delta) ← call overflowChecks fragment calls
    let (calls, deltas) ← addCalls overflowChecks rest calls
    return (calls, delta :: deltas)

def usageDelta (v : Value) : List ModelDelta :=
  match v.field "usage" with
  | none | some .null => []
  | some usage => [.usage (Protocol.chat.usage usage)]

/-- The token probabilities of a choice, where they are an object. -/
def logprobs (choice : Value) : Option Value :=
  (choice.field "logprobs").filter Value.isObject

def State.pushDelta (overflowChecks : Bool) (s : State) (delta : Value) :
    Checked (State × List ModelDelta) := do
  let (value, texts) ← text delta s.value
  let fragments := ((delta.field "tool_calls").bind asArray).getD []
  let (calls, deltas) ← addCalls overflowChecks fragments s.calls
  return ({ s with value, calls }, texts ++ deltas)

def addLogprobs (v : Value) : Option Value → Checked Value
  | some source => modifyChoice v fun choice =>
      choice.modifyField "logprobs" fun target => mergeLogprobs target source
  | none => .ok v

def mergeChoice (v choice : Value) : Checked Value := do
  let v ← modifyChoice v fun target => copyFields target choice ["delta", "logprobs"]
  addLogprobs v (logprobs choice)

def State.pushChoice (overflowChecks : Bool) (s : State) (choice : Value) :
    Checked (State × List ModelDelta) := do
  let value ← mergeChoice s.value choice
  match choice.field "delta" with
  | none => return ({ s with value }, [])
  | some delta => State.pushDelta overflowChecks { s with value } delta

def State.push (overflowChecks : Bool) (v : Value) (s : State) :
    Checked (State × List ModelDelta) := do
  let value ← copyFields s.value v ["choices"]
  match v.pointer ["choices", "0"] with
  | none => return ({ s with value }, usageDelta v)
  | some choice => do
    let (s, deltas) ← State.pushChoice overflowChecks { s with value } choice
    return (s, usageDelta v ++ deltas)

/-- `finish`: the calls in the order of their indices. -/
def State.finish (s : State) : Checked Value :=
  if s.done then
    if s.calls.isEmpty then .ok s.value
    else modifyChoice s.value fun choice =>
      choice.modifyField "message" fun message =>
        message.assign "tool_calls" (.array (s.calls.toList.map Prod.snd))
  else refuse incomplete

/-- The accumulator of a build with or without checks of overflow. -/
def stream (overflowChecks : Bool) : StreamState State where
  new := .new
  push := State.push overflowChecks
  finish := State.finish
  done := fun s => { s with done := true }

end Zhir.Streaming.Chat
