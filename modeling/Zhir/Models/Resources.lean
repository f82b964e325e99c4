import Zhir.Core.Resource
import Zhir.Models.Marker

/-!
Sealing inline resources before they reach the kernel, and resolving stored ones before they
reach the model.
-/

set_option autoImplicit false
set_option relaxedAutoImplicit false

namespace Zhir.Models

open Zhir.Core

/-- The digests of the model crate: the key of a resource, and of a base64 payload. -/
structure Hashes (η : Type) where
  key : (mediaType : String) → List UInt8 → String
  payload : String → η

def base64Digit (n : Nat) : Char :=
  if n < 26 then Char.ofNat ('A'.toNat + n)
  else if n < 52 then Char.ofNat ('a'.toNat + (n - 26))
  else if n < 62 then Char.ofNat ('0'.toNat + (n - 52))
  else if n = 62 then '+' else '/'

def base64Chars : List UInt8 → List Char
  | a :: b :: c :: rest =>
    let n := a.toNat * 65536 + b.toNat * 256 + c.toNat
    base64Digit (n / 262144) :: base64Digit (n / 4096 % 64) :: base64Digit (n / 64 % 64) ::
      base64Digit (n % 64) :: base64Chars rest
  | [a, b] =>
    let n := a.toNat * 65536 + b.toNat * 256
    [base64Digit (n / 262144), base64Digit (n / 4096 % 64), base64Digit (n / 64 % 64), '=']
  | [a] =>
    let n := a.toNat * 65536
    [base64Digit (n / 262144), base64Digit (n / 4096 % 64), '=', '=']
  | [] => []

def base64 (bytes : List UInt8) : String := String.ofList (base64Chars bytes)

/-- The store, and the references to what sealing wrote to it. -/
structure Sealing (σ : Type) where
  store : σ
  written : List ResourceRef

mutual

def contains (payload : String) : Value → Bool
  | .string s => s = payload
  | .array items => containsItem payload items
  | .object fields => containsField payload fields
  | _ => false

def containsItem (payload : String) : List Value → Bool
  | [] => false
  | v :: rest => contains payload v || containsItem payload rest

def containsField (payload : String) : List (String × Value) → Bool
  | [] => false
  | (_, v) :: rest => contains payload v || containsField payload rest

end

mutual

def containsSealedPayload {η : Type} [DecidableEq η] (hashes : Hashes η) (payloads : List η) :
    Value → Bool
  | .string s => decide (hashes.payload s ∈ payloads)
  | .array items => containsSealedItem hashes payloads items
  | .object fields => containsSealedField hashes payloads fields
  | _ => false

def containsSealedItem {η : Type} [DecidableEq η] (hashes : Hashes η) (payloads : List η) :
    List Value → Bool
  | [] => false
  | v :: rest =>
    containsSealedPayload hashes payloads v || containsSealedItem hashes payloads rest

def containsSealedField {η : Type} [DecidableEq η] (hashes : Hashes η) (payloads : List η) :
    List (String × Value) → Bool
  | [] => false
  | (_, v) :: rest =>
    containsSealedPayload hashes payloads v || containsSealedField hashes payloads rest

end

section Sealing

variable {σ η : Type} (store : ResourceStore σ) (hashes : Hashes η)

/-- `save_content`: inline bytes move to the store. A payload and its reference come back. -/
def saveContent (content : Content) (s : Sealing σ) :
    Result (Content × Option (String × ResourceRef) × Sealing σ) :=
  match content with
  | .resource input =>
    match input.resource.source with
    | .inline bytes => do
      let mediaType := input.resource.mediaType
      let (reference, next) ← store.put (hashes.key mediaType bytes) mediaType bytes s.store
      reference.validate
      require (reference.mediaType = mediaType) (.protocol "resource store changed media type")
      match reference.source with
      | .inline _ => throw (.protocol "resource store did not seal output")
      | source =>
        let resource := { input.resource with source }
        return (.resource { input with resource }, some (base64 bytes, resource),
          ⟨next, s.written ++ [resource]⟩)
    | _ => return (content, none, s)
  | _ => return (content, none, s)

/-- The bindings of a replay record by content index, each pointing into its items. -/
def bindings : List MediaBinding → Result (List (Nat × String))
  | [] => .ok []
  | binding :: rest => do
    let others ← bindings rest
    if ¬ "/items/".toList <+: binding.pointer.toList ∨
        binding.contentIndex ∈ others.map Prod.fst then
      throw (.protocol "invalid or duplicate resource replay binding")
    else return (binding.contentIndex, binding.pointer) :: others

/-- The call while its output is sealed: the data, the bindings left, the payloads so far. -/
structure CallSealing where
  data : Value
  bindings : List (Nat × String)
  payloads : List String

def bindingPath (pointer : String) : Option (List String) :=
  Value.tokens ("/" ++ replayKey ++ pointer)

/-- A sealed payload in the data is replaced by a marker where it is bound, and must not
appear where it is not. -/
def bindPayload (index : Nat) (payload : String) (reference : ResourceRef) (c : CallSealing) :
    Result CallSealing :=
  let payloads := c.payloads ++ [payload]
  match c.bindings.lookup index with
  | some pointer =>
    match (bindingPath pointer).bind fun path => (c.data.pointer path).map fun v => (path, v) with
    | none => .error (.protocol "resource replay pointer not found")
    | some (path, target) =>
      if target ≠ .string payload then .error (.protocol "resource replay payload mismatch")
      else .ok {
        data := c.data.setPointer path (marker reference)
        bindings := c.bindings.filter fun b => b.1 ≠ index
        payloads }
  | none =>
    if contains payload c.data then
      .error (.protocol "unbound resource remains in provider replay")
    else .ok { c with payloads }

def bindSaved (index : Nat) (saved : Option (String × ResourceRef)) (c : CallSealing) :
    Result CallSealing :=
  match saved with
  | some (payload, reference) => bindPayload index payload reference c
  | none => .ok c

def saveContents (index : Nat) : List Content → CallSealing → Sealing σ →
    Result (List Content × CallSealing × Sealing σ)
  | [], c, s => .ok ([], c, s)
  | content :: rest, c, s => do
    let (content, saved, s) ← saveContent store hashes content s
    let c ← bindSaved index saved c
    let (rest, c, s) ← saveContents (index + 1) rest c s
    return (content :: rest, c, s)

def saveCall (call : ProviderToolCall) (s : Sealing σ) : Result (ProviderToolCall × Sealing σ) := do
  let replay ← replay call
  let bindings ← bindings ((replay.map Replay.media).getD [])
  let (output, c, s) ← saveContents store hashes 0 call.output ⟨call.data, bindings, []⟩ s
  require (¬ c.payloads.any fun payload => payload ≠ "" && contains payload c.data)
    (.protocol "unbound resource remains in provider replay")
  require (c.bindings = []) (.protocol "resource binding has no inline output")
  return ({ call with output, data := c.data }, s)

def saveOutput (output : Output) (s : Sealing σ) : Result (Output × Sealing σ) :=
  match output with
  | .content content => do
    let (content, _, s) ← saveContent store hashes content s
    return (.content content, s)
  | .providerToolCall call => do
    let (call, s) ← saveCall store hashes call s
    return (.providerToolCall call, s)
  | _ => return (output, s)

def outputContents : Output → List Content
  | .content content => [content]
  | .providerToolCall call => call.output
  | _ => []

def payloadOf : Content → Option String
  | .resource input =>
    match input.resource.source with
    | .inline bytes => some (base64 bytes)
    | _ => none
  | _ => none

def saveOutputs : List Output → Sealing σ → Result (List Output × Sealing σ)
  | [], s => .ok ([], s)
  | output :: rest, s => do
    let (output, s) ← saveOutput store hashes output s
    let (rest, s) ← saveOutputs rest s
    return (output :: rest, s)

/-- `SealedEvents` over one turn: its outputs in order, then the data of its end. -/
def sealTurn [DecidableEq η] (output : List Output) (providerData : Value) (s : Sealing σ) :
    Result (List Output × Sealing σ) := do
  let payloads := (output.flatMap outputContents).filterMap payloadOf
  let (output, s) ← saveOutputs store hashes output s
  require (containsSealedPayload hashes (payloads.map hashes.payload) providerData = false)
    (.protocol "inline resource remains in native turn data; declare its replay binding")
  return (output, s)

end Sealing

/-- The bytes that may still be loaded, and what was loaded. -/
structure Loads where
  budget : Nat
  loaded : List ResourceRef
  deriving DecidableEq

section Resolving

variable {σ : Type} (store : ResourceStore σ) (s : σ)

/-- `load`: all bytes of a stored resource, within the budget. -/
def load (reference : ResourceRef) (l : Loads) : Result (List UInt8 × Loads) := do
  reference.validate
  let bytes ← store.read reference s
  require (bytes.length ≤ l.budget)
    (.invalid "resource exceeds input materialization limit; use media streaming")
  return (bytes, ⟨l.budget - bytes.length, l.loaded ++ [reference]⟩)

def resolveContent (content : Content) (l : Loads) : Result (Content × Loads) :=
  match content with
  | .resource input =>
    match input.resource.source with
    | .stored _ => do
      let (bytes, l) ← load store s input.resource l
      return (.resource { input with resource := { input.resource with source := .inline bytes } },
        l)
    | .inline bytes => do
      require (bytes.length ≤ l.budget)
        (.invalid "resource exceeds input materialization limit")
      return (content, { l with budget := l.budget - bytes.length })
    | _ => return (content, l)
  | _ => return (content, l)

def resolveContents : List Content → Loads → Result (List Content × Loads)
  | [], l => .ok ([], l)
  | content :: rest, l => do
    let (content, l) ← resolveContent store s content l
    let (rest, l) ← resolveContents rest l
    return (content :: rest, l)

mutual

/-- `resolve_value`: markers become base64 payloads, wherever they are. -/
def resolveValue : Value → Loads → Result (Value × Loads)
  | .object fields, l =>
    match fields.lookup markerKey with
    | some reference =>
      if fields.length ≠ 1 then .error (.protocol "invalid resource replay marker")
      else
        match refOfValue reference with
        | none => .error (.protocol "invalid resource reference")
        | some reference => do
          let (bytes, l) ← load store s reference l
          return (.string (base64 bytes), l)
    | none => do
      let (fields, l) ← resolveFields fields l
      return (.object fields, l)
  | .array items, l => do
    let (items, l) ← resolveItems items l
    return (.array items, l)
  | v, l => .ok (v, l)

def resolveItems : List Value → Loads → Result (List Value × Loads)
  | [], l => .ok ([], l)
  | v :: rest, l => do
    let (v, l) ← resolveValue v l
    let (rest, l) ← resolveItems rest l
    return (v :: rest, l)

def resolveFields : List (String × Value) → Loads → Result (List (String × Value) × Loads)
  | [], l => .ok ([], l)
  | (name, v) :: rest, l => do
    let (v, l) ← resolveValue v l
    let (rest, l) ← resolveFields rest l
    return ((name, v) :: rest, l)

end

def resolveOutput (output : Output) (l : Loads) : Result (Output × Loads) :=
  match output with
  | .content content => do
    let (content, l) ← resolveContent store s content l
    return (.content content, l)
  | .providerToolCall call => do
    let (output, l) ← resolveContents store s call.output l
    let (data, l) ← resolveValue store s call.data l
    return (.providerToolCall { call with output, data }, l)
  | _ => return (output, l)

def resolveOutputs : List Output → Loads → Result (List Output × Loads)
  | [], l => .ok ([], l)
  | output :: rest, l => do
    let (output, l) ← resolveOutput store s output l
    let (rest, l) ← resolveOutputs rest l
    return (output :: rest, l)

def resolveOutcome (outcome : OperationOutcome) (l : Loads) : Result (OperationOutcome × Loads) :=
  match outcome with
  | .success content structured => do
    let (content, l) ← resolveContents store s content l
    return (.success content structured, l)
  | _ => return (outcome, l)

def resolveMessage (message : Message) (l : Loads) : Result (Message × Loads) :=
  match message with
  | .system content => do
    let (content, l) ← resolveContents store s content l
    return (.system content, l)
  | .user content => do
    let (content, l) ← resolveContents store s content l
    return (.user content, l)
  | .external content => do
    let (content, l) ← resolveContents store s content l
    return (.external content, l)
  | .assistant output providerData => do
    let (output, l) ← resolveOutputs store s output l
    let (providerData, l) ← resolveValue store s providerData l
    return (.assistant output providerData, l)
  | .delegationResult id outcome => do
    let (outcome, l) ← resolveOutcome store s outcome l
    return (.delegationResult id outcome, l)
  | .runtimeTool callId name outcome => do
    let (outcome, l) ← resolveOutcome store s outcome l
    return (.runtimeTool callId name outcome, l)

end Resolving

end Zhir.Models
