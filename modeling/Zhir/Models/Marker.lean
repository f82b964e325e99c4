import Mathlib.Data.List.Nodup
import Zhir.Core.Message
import Zhir.Models.Pointer

/-!
Resource references as JSON: the marker that takes the place of a sealed payload, and the
replay record that says where payloads are.
-/

set_option autoImplicit false
set_option relaxedAutoImplicit false

namespace Zhir.Models

open Zhir.Core

/-- The fields of a record type without unknown fields: an object, or all values in order. -/
def record (names : List String) : Value → Option (String → Option Value)
  | .object fields =>
    if fields.all (fun f => f.1 ∈ names) then some fun name => fields.lookup name else none
  | .array items =>
    if items.length = names.length then some fun name => (names.zip items).lookup name else none
  | _ => none

def asString : Value → Option String
  | .string s => some s
  | _ => none

def asObject : Value → Option (List (String × Value))
  | .object fields => some fields
  | _ => none

/-- An unsigned number, written without sign, fraction or exponent. -/
def asNat (max : Nat) : Value → Option Nat
  | .number literal =>
    let digits := literal.toList
    if digits = [] ∨ ¬ digits.all Char.isDigit then none
    else
      let n := digits.foldl (fun n c => 10 * n + (c.toNat - '0'.toNat)) 0
      if n ≤ max then some n else none
  | _ => none

def asBytes : Value → Option (List UInt8)
  | .array items => items.mapM fun v => (asNat 255 v).map UInt8.ofNat
  | _ => none

def asOptionalString : Option Value → Option (Option String)
  | none | some .null => some none
  | some (.string s) => some (some s)
  | _ => none

def decimal (n : Nat) : Value := .number (Nat.repr n)

theorem asNat_decimal {max n : Nat} (h : n ≤ max) : asNat max (decimal n) = some n := by
  have hdigits : (Nat.repr n).toList = Nat.toDigits 10 n := by
    unfold Nat.repr
    exact String.toList_ofList
  have hne : Nat.toDigits 10 n ≠ [] := List.length_pos_iff.mp Nat.length_toDigits_pos
  have hall : (Nat.toDigits 10 n).all Char.isDigit = true :=
    List.all_eq_true.mpr fun c hc => Nat.isDigit_of_mem_toDigits (by decide) (by decide) hc
  have hvalue : (Nat.toDigits 10 n).foldl (fun n c => 10 * n + (c.toNat - '0'.toNat)) 0 = n :=
    Nat.ofDigitChars_toDigits (by decide) (by decide)
  unfold asNat decimal
  simp only [hdigits, hall, hvalue]
  simp [hne, h]

def sourceToValue : ResourceSource → Value
  | .inline bytes => .object [("bytes", .array (bytes.map fun b => decimal b.toNat)),
      ("kind", .string "inline")]
  | .url url => .object [("kind", .string "url"), ("url", .string url)]
  | .stored key => .object [("key", .string key), ("kind", .string "stored")]
  | .provider provider reference => .object [("kind", .string "provider"),
      ("provider", .string provider), ("reference", reference)]

/-- The fields of one kind of source. -/
def sourceOf (kind : String) (content : List String → Option (String → Option Value)) :
    Option ResourceSource :=
  if kind = "inline" then do
    let get ← content ["bytes"]
    return .inline (← asBytes (← get "bytes"))
  else if kind = "url" then do
    let get ← content ["url"]
    return .url (← asString (← get "url"))
  else if kind = "stored" then do
    let get ← content ["key"]
    return .stored (← asString (← get "key"))
  else if kind = "provider" then do
    let get ← content ["provider", "reference"]
    return .provider (← asString (← get "provider")) (← get "reference")
  else none

def sourceOfValue : Value → Option ResourceSource
  | .object fields => do
    let kind ← asString (← fields.lookup "kind")
    sourceOf kind fun names => record names (.object (fields.filter fun f => f.1 ≠ "kind"))
  | .array (tag :: items) => do
    let kind ← asString tag
    sourceOf kind fun names => record names (.array items)
  | _ => none

/-- `ResourceRef` as JSON. -/
def refToValue (r : ResourceRef) : Value := .object [
  ("id", .string r.id),
  ("media_type", .string r.mediaType),
  ("metadata", .object r.metadata),
  ("name", match r.name with | some name => .string name | none => .null),
  ("source", sourceToValue r.source)]

def refOfValue (v : Value) : Option ResourceRef := do
  let get ← record ["id", "media_type", "name", "source", "metadata"] v
  let id ← asString (← get "id")
  let mediaType ← asString (← get "media_type")
  let name ← asOptionalString (get "name")
  let source ← sourceOfValue (← get "source")
  let metadata ← asObject (← get "metadata")
  return { id, mediaType, name, source, metadata }

def markerKey : String := "$zhir_resource"

def marker (r : ResourceRef) : Value := .object [(markerKey, refToValue r)]

structure MediaBinding where
  contentIndex : Nat
  pointer : String
  deriving DecidableEq, Repr

def replayKey : String := "$zhir_provider_replay"

def bindingOfValue (v : Value) : Option MediaBinding := do
  let get ← record ["content_index", "pointer"] v
  let contentIndex ← asNat maxU64 (← get "content_index")
  let pointer ← asString (← get "pointer")
  return { contentIndex, pointer }

def asArray : Value → Option (List Value)
  | .array items => some items
  | _ => none

structure Replay where
  items : List Value
  media : List MediaBinding

def replayOfValue (v : Value) : Option Replay := do
  let get ← record ["items", "media"] v
  let items ← asArray (← get "items")
  let media ← (← asArray (← get "media")).mapM bindingOfValue
  return { items, media }

def replay (call : ProviderToolCall) : Result (Option Replay) :=
  match call.data.field replayKey with
  | none => .ok none
  | some v =>
    match replayOfValue v with
    | some replay => .ok (some replay)
    | none => .error (.protocol "invalid provider replay")

theorem asString_some {v : Value} {text : String} (h : asString v = some text) :
    v = .string text := by
  cases v with
  | string s => exact congrArg Value.string (Option.some.inj h)
  | _ => cases h

theorem record_object {names : List String} {fields : List (String × Value)}
    {get : String → Option Value} (h : record names (.object fields) = some get) :
    (∀ f ∈ fields, f.1 ∈ names) ∧ get = fun name => fields.lookup name := by
  simp only [record] at h
  split at h
  · rename_i hall
    refine ⟨?_, (Option.some.inj h).symm⟩
    intro f hf
    exact of_decide_eq_true (List.all_eq_true.mp hall f hf)
  · cases h

theorem mem_of_lookup {α β : Type} [DecidableEq α] {fields : List (α × β)} {name : α} {v : β}
    (h : fields.lookup name = some v) : (name, v) ∈ fields := by
  obtain ⟨before, after, rfl, -⟩ := List.lookup_eq_some_iff.mp h
  exact List.mem_append_right before List.mem_cons_self

theorem lookup_of_mem {α β : Type} [DecidableEq α] {entries : List (α × β)} {entry : α × β}
    (hkeys : (entries.map Prod.fst).Nodup) (h : entry ∈ entries) :
    entries.lookup entry.1 = some entry.2 := by
  obtain ⟨before, after, rfl⟩ := List.append_of_mem h
  refine List.lookup_eq_some_iff.mpr ⟨before, after, rfl, ?_⟩
  intro other hother
  rw [List.map_append, List.map_cons] at hkeys
  have hne := (List.nodup_append.mp hkeys).2.2 other.1 (List.mem_map_of_mem hother) entry.1
    List.mem_cons_self
  exact bne_iff_ne.mpr (Ne.symm hne)

end Zhir.Models
