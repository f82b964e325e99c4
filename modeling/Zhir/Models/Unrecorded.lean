import Mathlib.Data.List.Forall2
import Zhir.Models.Responses

/-!
Turns that are encoded without a record of their items: which Responses items survive being
decoded and encoded again.
-/

set_option autoImplicit false
set_option relaxedAutoImplicit false

namespace Zhir.Models.Responses

open Zhir.Core

inductive Kind
  | message | functionCall | customToolCall | data
  deriving DecidableEq, Repr

def typeOf (item : Value) : Option String := (item.field "type").bind asString

def kindOf (item : Value) : Option Kind :=
  match typeOf item with
  | none => none
  | some type =>
    if type = "message" then some .message
    else if type = "function_call" then some .functionCall
    else if type = "custom_tool_call" then some .customToolCall
    else if type = "reasoning" ∨ type = "compaction" then some .data
    else none

def partsOf (item : Value) : Option (List Value) := (item.field "content").bind asArray

def partText (part : Value) : Option String :=
  let type := (typeOf part).getD ""
  if type = "text" ∨ type = "output_text" then (part.field "text").bind asString
  else if type = "refusal" then (part.field "refusal").bind asString
  else none

inductive SamePart : Value → Value → Prop
  | text {a b : Value} (text : String) : partText a = some text → partText b = some text →
      SamePart a b
  | data (v : Value) : SamePart v v

/-- Items of one kind with the same identity, name, arguments, text and data. -/
inductive SameItem (json : JsonText) : Value → Value → Prop
  | message {a b : Value} (parts others : List Value) :
      kindOf a = some .message → kindOf b = some .message →
      partsOf a = some parts → partsOf b = some others → List.Forall₂ SamePart parts others →
      SameItem json a b
  | functionCall {a b : Value} (id name text other : String) (arguments : Value) :
      kindOf a = some .functionCall → kindOf b = some .functionCall →
      textField a "call_id" = .ok id → textField b "call_id" = .ok id →
      textField a "name" = .ok name → textField b "name" = .ok name →
      textField a "arguments" = .ok text → textField b "arguments" = .ok other →
      json.parse text = .ok arguments → json.parse other = .ok arguments → SameItem json a b
  | customToolCall {a b : Value} (id name input : String) :
      kindOf a = some .customToolCall → kindOf b = some .customToolCall →
      textField a "call_id" = .ok id → textField b "call_id" = .ok id →
      textField a "name" = .ok name → textField b "name" = .ok name →
      textField a "input" = .ok input → textField b "input" = .ok input → SameItem json a b
  | data (v : Value) : kindOf v = some .data →
      SameItem json v v

section

variable {σ : Type} (json : JsonText) (extension : Option (ProtocolExtension σ))

/-- Encoding the outputs without a record gives the items back, and these decode to the outputs. -/
def Preserved (items : List Value) (outputs : List Output) (s : σ) : Prop :=
  ∃ values, encode json extension [.assistant outputs .null] [] s = .ok (values, s) ∧
    List.Forall₂ (SameItem json) items values ∧
    ∀ again, (again.field "output").bind asArray = some values → ∃ decoded,
      decode json (none : Option (ProtocolExtension σ)) again s = .ok (decoded, s) ∧
        decoded.output = outputs

/-- The items that survive: a message of one part, a function call whose arguments are read back
as they are printed, and any custom tool call. -/
inductive Survives (item : Value) : Prop
  | message (part : Value) : kindOf item = some .message → partsOf item = some [part] →
      Survives item
  | functionCall (text : String) (arguments : Value) : kindOf item = some .functionCall →
      textField item "arguments" = .ok text → json.parse text = .ok arguments →
      json.parse (json.print arguments) = .ok arguments → Survives item
  | customToolCall : kindOf item = some .customToolCall → Survives item

end

theorem SameItem.kind {json : JsonText} {a b : Value} (h : SameItem json a b) :
    kindOf a = kindOf b := by
  cases h with
  | message _ _ ha hb => exact ha.trans hb.symm
  | functionCall _ _ _ _ _ ha hb => exact ha.trans hb.symm
  | customToolCall _ _ _ ha hb => exact ha.trans hb.symm
  | data _ => rfl

private theorem textField_ok {v : Value} {key text : String} :
    textField v key = .ok text ↔ (v.field key).bind asString = some text := by
  unfold textField
  cases (v.field key).bind asString with
  | none => simp
  | some s => simp

private theorem typeOf_ok {v : Value} {type : String} :
    textField v "type" = .ok type ↔ typeOf v = some type := textField_ok

private theorem kindOf_of_typeOf {v : Value} {type : String} (h : typeOf v = some type) :
    kindOf v = if type = "message" then some .message
      else if type = "function_call" then some .functionCall
      else if type = "custom_tool_call" then some .customToolCall
      else if type = "reasoning" ∨ type = "compaction" then some .data
      else none := by
  unfold kindOf
  rw [h]

inductive ReadsPart (part : Value) : Output → Prop
  | text (text : String) : partText part = some text → ReadsPart part (.content (.text text))
  | data : parseContent "openai" part = .ok (.content (.opaqueData "openai" part)) →
      ReadsPart part (.content (.opaqueData "openai" part))

private theorem readsPart_of_parseContent {part : Value} {output : Output}
    (h : parseContent "openai" part = .ok output) : ReadsPart part output := by
  have hparsed := h
  unfold parseContent at h
  dsimp only at h
  split at h
  · rename_i htype
    obtain ⟨text, htext, h⟩ := Result.bind_ok h
    cases h
    refine .text text ?_
    unfold partText typeOf
    rw [if_pos htype]
    exact textField_ok.mp htext
  · rename_i hother
    split at h
    · rename_i htype
      obtain ⟨text, htext, h⟩ := Result.bind_ok h
      cases h
      refine .text text ?_
      unfold partText typeOf
      rw [if_neg hother, if_pos htype]
      exact textField_ok.mp htext
    · cases h
      exact .data hparsed

private theorem parseContent_text (text : String) :
    parseContent "openai" (.object [("text", .string text), ("type", .string "output_text")]) =
      .ok (.content (.text text)) := by
  simp [parseContent, Value.field, List.lookup_cons, asString, textField, bind, Except.bind, pure,
    Except.pure]

private theorem partText_text (text : String) :
    partText (.object [("text", .string text), ("type", .string "output_text")]) = some text := by
  simp [partText, typeOf, Value.field, List.lookup_cons, asString]

inductive ReadsItem (json : JsonText) (item : Value) : List Output → Prop
  | message (parts : List Value) (outputs : List Output) : kindOf item = some .message →
      partsOf item = some parts → List.Forall₂ ReadsPart parts outputs →
      ReadsItem json item outputs
  | functionCall (id name text : String) (arguments : Value) :
      kindOf item = some .functionCall → textField item "call_id" = .ok id →
      textField item "name" = .ok name → textField item "arguments" = .ok text →
      json.parse text = .ok arguments →
      ReadsItem json item [.runtimeToolCall ⟨id, name, .structured arguments⟩]
  | customToolCall (id name input : String) :
      kindOf item = some .customToolCall → textField item "call_id" = .ok id →
      textField item "name" = .ok name → textField item "input" = .ok input →
      ReadsItem json item [.runtimeToolCall ⟨id, name, .freeform input⟩]
  | data : kindOf item = some .data →
      ReadsItem json item [.content (.opaqueData "openai" item)]

private theorem readsParts_of_decodeParts {parts : List Value} {outputs : List Output}
    (h : decodeParts parts = .ok outputs) : List.Forall₂ ReadsPart parts outputs := by
  induction parts generalizing outputs with
  | nil =>
    cases h
    exact .nil
  | cons part rest ih =>
    obtain ⟨output, hpart, h⟩ := Result.bind_ok h
    obtain ⟨others, hrest, h⟩ := Result.bind_ok h
    cases h
    exact .cons (readsPart_of_parseContent hpart) (ih hrest)

section

variable {json : JsonText}

private theorem readsItem_of_decodeItem {item : Value} {outputs : List Output}
    (h : decodeItem json item = .ok outputs) : ReadsItem json item outputs := by
  obtain ⟨type, htype, h⟩ := Result.bind_ok h
  have hkind := kindOf_of_typeOf (typeOf_ok.mp htype)
  split at h
  · rename_i hmessage
    rw [if_pos hmessage] at hkind
    split at h
    · cases h
    · rename_i parts hparts
      exact .message parts outputs hkind hparts (readsParts_of_decodeParts h)
  rename_i hmessage
  rw [if_neg hmessage] at hkind
  split at h
  · rename_i hcall
    rw [if_pos hcall] at hkind
    obtain ⟨id, hid, h⟩ := Result.bind_ok h
    obtain ⟨name, hname, h⟩ := Result.bind_ok h
    obtain ⟨text, htext, h⟩ := Result.bind_ok h
    split at h
    · cases h
    · rename_i arguments hparse
      cases h
      exact .functionCall id name text arguments hkind hid hname htext hparse
  rename_i hcall
  rw [if_neg hcall] at hkind
  split at h
  · rename_i hcustom
    rw [if_pos hcustom] at hkind
    obtain ⟨id, hid, h⟩ := Result.bind_ok h
    obtain ⟨name, hname, h⟩ := Result.bind_ok h
    obtain ⟨input, hinput, h⟩ := Result.bind_ok h
    cases h
    exact .customToolCall id name input hkind hid hname hinput
  rename_i hcustom
  rw [if_neg hcustom] at hkind
  split at h
  · rename_i hdata
    rw [if_pos hdata] at hkind
    cases h
    exact .data hkind
  · cases h

def Decodes (json : JsonText) (items : List Value) (outputs : List Output) : Prop :=
  ∃ reports, List.Forall₂ (fun item report => decodeItem json item = .ok report) items reports ∧
    outputs = reports.flatten

private theorem validate_of_decodeItem {item : Value} {outputs : List Output}
    (h : decodeItem json item = .ok outputs) :
    Protocol.responses.validateOutputItem item = .ok () := by
  obtain ⟨kind, hkind, -⟩ := Result.bind_ok h
  exact Result.bind_of_ok hkind rfl

private theorem readItem_ok {σ : Type} {v item recorded : Value} {outputs : List Output} {s s' : σ}
    (h : readItem .responses none v (decodeItem json) item s = .ok (outputs, recorded, s')) :
    decodeItem json item = .ok outputs ∧ s = s' := by
  obtain ⟨_, -, h⟩ := Result.bind_ok h
  obtain ⟨⟨mapped, s₁⟩, hmapped, h⟩ := Result.bind_ok h
  cases hmapped
  obtain ⟨report, hreport, h⟩ := Result.bind_ok h
  cases h
  exact ⟨hreport, rfl⟩

private theorem readItem_native {σ : Type} {v item : Value} {outputs : List Output} {s : σ}
    (h : decodeItem json item = .ok outputs) :
    readItem .responses none v (decodeItem json) item s = .ok (outputs, item, s) := by
  refine Result.bind_of_ok (validate_of_decodeItem h) ?_
  exact Result.bind_of_ok rfl (Result.bind_of_ok h rfl)

private theorem decodes_of_decodeLoop {σ : Type} {v : Value} {items recorded : List Value}
    {outputs : List Output} {s s' : σ}
    (h : decodeLoop .responses none v (decodeItem json) items s = .ok (outputs, recorded, s')) :
    s = s' ∧ Decodes json items outputs := by
  induction items generalizing outputs recorded with
  | nil =>
    cases h
    exact ⟨rfl, [], .nil, rfl⟩
  | cons item rest ih =>
    obtain ⟨⟨report, item', s₁⟩, hitem, h⟩ := Result.bind_ok h
    obtain ⟨hreport, rfl⟩ := readItem_ok hitem
    obtain ⟨⟨others, recorded', s₂⟩, hrest, h⟩ := Result.bind_ok h
    cases h
    obtain ⟨rfl, reports, hreports, rfl⟩ := ih hrest
    exact ⟨rfl, report :: reports, .cons hreport hreports, rfl⟩

private theorem decodeLoop_of_decodes {σ : Type} {v : Value} {items : List Value}
    {outputs : List Output}
    (s : σ) (h : Decodes json items outputs) :
    decodeLoop .responses none v (decodeItem json) items s = .ok (outputs, items, s) := by
  obtain ⟨reports, hreports, rfl⟩ := h
  induction hreports with
  | nil => rfl
  | cons hitem _ ih =>
    exact Result.bind_of_ok (readItem_native hitem) (Result.bind_of_ok ih rfl)

private theorem decode_iff {σ : Type} {v : Value} {items : List Value} {outputs : List Output}
    {s : σ}
    (hitems : (v.field "output").bind asArray = some items) :
    (∃ decoded, decode json (none : Option (ProtocolExtension σ)) v s = .ok (decoded, s) ∧
      decoded.output = outputs) ↔ Decodes json items outputs := by
  unfold decode decodeItems
  rw [hitems]
  constructor
  · rintro ⟨decoded, h, rfl⟩
    obtain ⟨⟨outputs, recorded, s'⟩, hloop, h⟩ := Result.bind_ok h
    cases h
    exact (decodes_of_decodeLoop hloop).2
  · intro h
    exact ⟨_, Result.bind_of_ok (decodeLoop_of_decodes s h) rfl, rfl⟩

end

/-- An output that items are decoded to, and the item it is encoded as. -/
inductive Encodes (json : JsonText) : Output → Value → Prop
  | text (text : String) : Encodes json (.content (.text text)) (messageItem "assistant"
      [.object [("text", .string text), ("type", .string "output_text")]])
  | data (v : Value) : parseContent "openai" v = .ok (.content (.opaqueData "openai" v)) →
      Encodes json (.content (.opaqueData "openai" v)) (messageItem "assistant" [v])
  | call (call : RuntimeToolCall) : Encodes json (.runtimeToolCall call) (callItem json call)

section

variable {json : JsonText}

private theorem kindOf_messageItem (role : String) (parts : List Value) :
    kindOf (messageItem role parts) = some .message := by
  simp [kindOf, typeOf, messageItem, Value.field, List.lookup_cons, asString]

private theorem partsOf_messageItem (role : String) (parts : List Value) :
    partsOf (messageItem role parts) = some parts := by
  simp [partsOf, messageItem, Value.field, asArray]

private theorem callItem_structured (id name : String) (arguments : Value) :
    let item := callItem json ⟨id, name, .structured arguments⟩
    kindOf item = some .functionCall ∧ textField item "call_id" = .ok id ∧
      textField item "name" = .ok name ∧
      textField item "arguments" = .ok (json.print arguments) := by
  simp [kindOf, typeOf, textField, callItem, callInput, Value.field, List.lookup_cons, asString]

private theorem callItem_freeform (id name input : String) :
    let item := callItem json ⟨id, name, .freeform input⟩
    kindOf item = some .customToolCall ∧ textField item "call_id" = .ok id ∧
      textField item "name" = .ok name ∧ textField item "input" = .ok input := by
  simp [kindOf, typeOf, textField, callItem, Value.field, List.lookup_cons, asString]

theorem ReadsPart.encodes {part : Value} {output : Output} (h : ReadsPart part output) :
    ∃ item, Encodes json output item := by
  cases h with
  | text text => exact ⟨_, .text text⟩
  | data hparsed => exact ⟨_, .data part hparsed⟩

private theorem parseContent_data {item : Value} (h : kindOf item = some .data) :
    parseContent "openai" item = .ok (.content (.opaqueData "openai" item)) := by
  cases htype : typeOf item with
  | none =>
    unfold kindOf at h
    rw [htype] at h
    cases h
  | some type =>
    have htext : ¬ (type = "text" ∨ type = "output_text") ∧ type ≠ "refusal" := by
      rw [kindOf_of_typeOf htype] at h
      refine ⟨?_, ?_⟩
      · rintro (rfl | rfl)
        · cases h
        · cases h
      · rintro rfl
        cases h
    unfold parseContent
    change (item.field "type").bind asString = some type at htype
    rw [htype]
    dsimp only [Option.getD_some]
    rw [if_neg htext.1, if_neg htext.2]
    rfl

theorem ReadsItem.encodes {item : Value} {outputs : List Output}
    (h : ReadsItem json item outputs) : ∃ values, List.Forall₂ (Encodes json) outputs values := by
  cases h with
  | message parts _ _ _ hparts =>
    clear * - hparts
    induction hparts with
    | nil => exact ⟨[], .nil⟩
    | cons hpart _ ih =>
      obtain ⟨value, hvalue⟩ := hpart.encodes
      obtain ⟨values, hvalues⟩ := ih
      exact ⟨value :: values, .cons hvalue hvalues⟩
  | functionCall => exact ⟨_, .cons (.call _) .nil⟩
  | customToolCall => exact ⟨_, .cons (.call _) .nil⟩
  | data hkind => exact ⟨_, .cons (.data item (parseContent_data hkind)) .nil⟩

theorem Decodes.encodes {items : List Value} {outputs : List Output}
    (h : Decodes json items outputs) : ∃ values, List.Forall₂ (Encodes json) outputs values := by
  obtain ⟨reports, hreports, rfl⟩ := h
  induction hreports with
  | nil => exact ⟨[], .nil⟩
  | cons hitem _ ih =>
    obtain ⟨values, hvalues⟩ := (readsItem_of_decodeItem hitem).encodes
    obtain ⟨others, hothers⟩ := ih
    exact ⟨values ++ others, List.rel_append hvalues hothers⟩

private theorem assistant_encodes {σ : Type} {extension : Option (ProtocolExtension σ)}
    {outputs : List Output} {values : List Value} (s : σ)
    (h : List.Forall₂ (Encodes json) outputs values) :
    assistant json extension outputs s = .ok (values, s) := by
  induction h with
  | nil => rfl
  | cons hone _ ih =>
    cases hone with
    | text text => exact Result.bind_of_ok rfl (Result.bind_of_ok ih rfl)
    | data v _ => exact Result.bind_of_ok rfl (Result.bind_of_ok ih rfl)
    | call call => exact Result.bind_of_ok rfl (Result.bind_of_ok ih rfl)

private theorem encode_unrecorded {σ : Type} {extension : Option (ProtocolExtension σ)}
    {outputs : List Output} {values : List Value} {s : σ}
    (h : assistant json extension outputs s = .ok (values, s)) :
    encode json extension [.assistant outputs .null] [] s = .ok (values, s) := by
  have hone : encode json extension [.assistant outputs .null] [] s = .ok (values ++ [], s) :=
    Result.bind_of_ok (Result.bind_of_ok rfl h) rfl
  rwa [List.append_nil] at hone

private theorem Encodes.shape {output : Output} {item : Value} (h : Encodes json output item) :
    (kindOf item = some .message ∧ ∃ part, partsOf item = some [part]) ∨
      kindOf item = some .functionCall ∨ kindOf item = some .customToolCall := by
  cases h with
  | text text => exact .inl ⟨kindOf_messageItem _ _, _, partsOf_messageItem _ _⟩
  | data v _ => exact .inl ⟨kindOf_messageItem _ _, _, partsOf_messageItem _ _⟩
  | call call =>
    obtain ⟨id, name, input⟩ := call
    cases input with
    | structured arguments => exact .inr (.inl (callItem_structured id name arguments).1)
    | freeform input => exact .inr (.inr (callItem_freeform id name input).1)

theorem ReadsItem.single {item value : Value} {outputs : List Output} {output : Output}
    (h : ReadsItem json item outputs) (hsame : SameItem json item value)
    (hvalue : Encodes json output value) : ∃ o, outputs = [o] := by
  cases h with
  | message parts outputs hkind hparts hreads =>
    cases hsame with
    | message parts' others _ hkind' hparts' hothers hparallel =>
      rw [hparts] at hparts'
      cases hparts'
      have hone : ∃ part, partsOf value = some [part] := by
        rcases hvalue.shape with ⟨-, hone⟩ | hcall | hcall
        · exact hone
        · cases hkind'.symm.trans hcall
        · cases hkind'.symm.trans hcall
      obtain ⟨part, hpart⟩ := hone
      rw [hothers] at hpart
      cases hpart
      cases hparallel with
      | cons _ hrest =>
        cases hrest
        cases hreads with
        | cons _ hrest =>
          cases hrest
          exact ⟨_, rfl⟩
    | functionCall _ _ _ _ _ hkind' => cases hkind.symm.trans hkind'
    | customToolCall _ _ _ hkind' => cases hkind.symm.trans hkind'
    | data hkind' => cases hkind.symm.trans hkind'
  | functionCall => exact ⟨_, rfl⟩
  | customToolCall => exact ⟨_, rfl⟩
  | data => exact ⟨_, rfl⟩

theorem ReadsItem.survives {item value : Value} {output : Output}
    (h : ReadsItem json item [output]) (hvalue : Encodes json output value)
    (hsame : SameItem json item value) : Survives json item := by
  cases hsame with
  | message parts others hkind hkind' hparts hothers hparallel =>
    have hone : ∃ part, partsOf value = some [part] := by
      rcases hvalue.shape with ⟨-, hone⟩ | hcall | hcall
      · exact hone
      · cases hkind'.symm.trans hcall
      · cases hkind'.symm.trans hcall
    obtain ⟨part, hpart⟩ := hone
    rw [hothers] at hpart
    cases hpart
    cases hparallel with
    | cons _ hrest =>
      cases hrest
      exact .message _ hkind hparts
  | functionCall id name text other arguments hkind _ _ _ _ _ htext hother hparse hparse' =>
    cases h with
    | functionCall id' name' text' arguments' _ _ _ htext' hparsed =>
      rw [htext] at htext'
      cases htext'
      rw [hparse] at hparsed
      cases hparsed
      cases hvalue with
      | call =>
        rw [(callItem_structured id' name' arguments).2.2.2] at hother
        cases hother
        exact .functionCall text arguments hkind htext hparse hparse'
    | message _ _ hkind' => cases hkind.symm.trans hkind'
    | customToolCall _ _ _ hkind' => cases hkind.symm.trans hkind'
    | data hkind' => cases hkind.symm.trans hkind'
  | customToolCall _ _ _ hkind => exact .customToolCall hkind
  | data hkind =>
    rcases hvalue.shape with ⟨hother, -⟩ | hother | hother
    · cases hkind.symm.trans hother
    · cases hkind.symm.trans hother
    · cases hkind.symm.trans hother

theorem ReadsPart.again {part : Value} {output : Output} (h : ReadsPart part output) :
    ∃ other, Encodes json output (messageItem "assistant" [other]) ∧ SamePart part other ∧
      parseContent "openai" other = .ok output := by
  cases h with
  | text text hpart =>
    exact ⟨_, .text text, .text text hpart (partText_text text), parseContent_text text⟩
  | data hparsed => exact ⟨part, .data part hparsed, .data part, hparsed⟩

private theorem decodeItem_message {part : Value} {output : Output} (role : String)
    (hpart : parseContent "openai" part = .ok output) :
    decodeItem json (messageItem role [part]) = .ok [output] := by
  have htype : textField (messageItem role [part]) "type" = .ok "message" := by
    simp [textField, messageItem, Value.field, List.lookup_cons, asString]
  refine Result.bind_of_ok htype ?_
  rw [if_pos rfl]
  have hparts := partsOf_messageItem role [part]
  unfold partsOf at hparts
  rw [hparts]
  exact Result.bind_of_ok hpart rfl

private theorem decodeItem_structured {id name : String} {arguments : Value}
    (hprint : json.parse (json.print arguments) = .ok arguments) :
    decodeItem json (callItem json ⟨id, name, .structured arguments⟩) =
      .ok [.runtimeToolCall ⟨id, name, .structured arguments⟩] := by
  have htype : textField (callItem json ⟨id, name, .structured arguments⟩) "type" =
      .ok "function_call" := by
    simp [textField, callItem, Value.field, List.lookup_cons, asString]
  obtain ⟨-, hid, hname, harguments⟩ := @callItem_structured json id name arguments
  refine Result.bind_of_ok htype ?_
  rw [if_neg (by decide), if_pos rfl]
  refine Result.bind_of_ok hid (Result.bind_of_ok hname (Result.bind_of_ok harguments ?_))
  simp only [hprint]
  rfl

private theorem decodeItem_freeform (id name input : String) :
    decodeItem json (callItem json ⟨id, name, .freeform input⟩) =
      .ok [.runtimeToolCall ⟨id, name, .freeform input⟩] := by
  have htype : textField (callItem json ⟨id, name, .freeform input⟩) "type" =
      .ok "custom_tool_call" := by
    simp [textField, callItem, Value.field, List.lookup_cons, asString]
  obtain ⟨-, hid, hname, hinput⟩ := @callItem_freeform json id name input
  refine Result.bind_of_ok htype ?_
  rw [if_neg (by decide), if_neg (by decide), if_pos rfl]
  exact Result.bind_of_ok hid (Result.bind_of_ok hname (Result.bind_of_ok hinput rfl))

theorem ReadsItem.again {item : Value} {outputs : List Output} (h : ReadsItem json item outputs)
    (hsurvives : Survives json item) : ∃ output value, outputs = [output] ∧
      Encodes json output value ∧ SameItem json item value ∧
      decodeItem json value = .ok [output] := by
  cases h with
  | message parts outputs hkind hparts hreads =>
    cases hsurvives with
    | message part _ hone =>
      rw [hparts] at hone
      cases hone
      cases hreads with
      | cons hpart hrest =>
        cases hrest
        obtain ⟨other, hencodes, hsame, hother⟩ := @ReadsPart.again json _ _ hpart
        have hkind' := kindOf_messageItem "assistant" [other]
        have hparts' := partsOf_messageItem "assistant" [other]
        exact ⟨_, _, rfl, hencodes, .message _ _ hkind hkind' hparts hparts' (.cons hsame .nil),
          decodeItem_message "assistant" hother⟩
    | functionCall _ _ hkind' => cases hkind.symm.trans hkind'
    | customToolCall hkind' => cases hkind.symm.trans hkind'
  | functionCall id name text arguments hkind hid hname htext hparse =>
    cases hsurvives with
    | message _ hkind' => cases hkind.symm.trans hkind'
    | functionCall text' arguments' _ htext' hparse' hprint =>
      rw [htext] at htext'
      cases htext'
      rw [hparse] at hparse'
      cases hparse'
      obtain ⟨hkind', hid', hname', harguments'⟩ :=
        @callItem_structured json id name arguments
      exact ⟨_, _, rfl, .call _, .functionCall id name text _ arguments hkind hkind' hid hid' hname
        hname' htext harguments' hparse hprint, decodeItem_structured hprint⟩
    | customToolCall hkind' => cases hkind.symm.trans hkind'
  | customToolCall id name input hkind hid hname hinput =>
    obtain ⟨hkind', hid', hname', hinput'⟩ := @callItem_freeform json id name input
    exact ⟨_, _, rfl, .call _, .customToolCall id name input hkind hkind' hid hid' hname hname'
      hinput hinput', decodeItem_freeform id name input⟩
  | data hkind =>
    cases hsurvives with
    | message _ hkind' => cases hkind.symm.trans hkind'
    | functionCall _ _ hkind' => cases hkind.symm.trans hkind'
    | customToolCall hkind' => cases hkind.symm.trans hkind'

theorem Decodes.again {items : List Value} {outputs : List Output}
    (h : Decodes json items outputs) (hsurvive : ∀ item ∈ items, Survives json item) :
    ∃ values, List.Forall₂ (Encodes json) outputs values ∧
      List.Forall₂ (SameItem json) items values ∧ Decodes json values outputs := by
  obtain ⟨reports, hreports, rfl⟩ := h
  induction hreports with
  | nil => exact ⟨[], .nil, .nil, [], .nil, rfl⟩
  | cons hitem _ ih =>
    obtain ⟨hfirst, hrest⟩ := List.forall_mem_cons.mp hsurvive
    obtain ⟨values, hencodes, hsame, reports', hreports', hflatten⟩ := ih hrest
    obtain ⟨output, value, rfl, hone, hsameOne, hagain⟩ :=
      (readsItem_of_decodeItem hitem).again hfirst
    refine ⟨value :: values, .cons hone hencodes, .cons hsameOne hsame, ?_⟩
    refine ⟨[output] :: reports', .cons hagain hreports', ?_⟩
    rw [List.flatten_cons, List.flatten_cons, hflatten]

/-- The induction keeps that all values are encoded outputs; so every item has one output, and
the values stay in step with the items. -/
private theorem Decodes.survive {items values : List Value} {outputs : List Output}
    (h : Decodes json items outputs) (hencodes : List.Forall₂ (Encodes json) outputs values)
    (hsame : List.Forall₂ (SameItem json) items values) :
    ∀ item ∈ items, Survives json item := by
  have hshape : ∀ value ∈ values, ∃ output, Encodes json output value := by
    clear hsame h
    induction hencodes with
    | nil => simp
    | cons hone _ ih => exact List.forall_mem_cons.mpr ⟨⟨_, hone⟩, ih⟩
  obtain ⟨reports, hreports, rfl⟩ := h
  induction hreports generalizing values with
  | nil => simp
  | cons hitem _ ih =>
    cases hsame with
    | cons hsameOne hsame =>
      obtain ⟨⟨_, hvalue⟩, hrest⟩ := List.forall_mem_cons.mp hshape
      have hreads := readsItem_of_decodeItem hitem
      obtain ⟨output, rfl⟩ := hreads.single hsameOne hvalue
      cases hencodes with
      | cons hone hencodes =>
        exact List.forall_mem_cons.mpr
          ⟨hreads.survives hone hsameOne, ih hsame hrest hencodes⟩

private theorem Decodes.preserved_iff {σ : Type} {extension : Option (ProtocolExtension σ)}
    {items : List Value} {outputs : List Output} {s : σ} (h : Decodes json items outputs) :
    Preserved json extension items outputs s ↔ ∀ item ∈ items, Survives json item := by
  constructor
  · rintro ⟨values, hencode, hsame, -⟩
    obtain ⟨values', hvalues⟩ := h.encodes
    have hencode' := encode_unrecorded (@assistant_encodes json σ extension _ _ s hvalues)
    rw [hencode] at hencode'
    cases hencode'
    exact h.survive hvalues hsame
  · intro hsurvive
    obtain ⟨values, hvalues, hsame, hagain⟩ := h.again hsurvive
    refine ⟨values, encode_unrecorded (assistant_encodes s hvalues), hsame, ?_⟩
    intro again hitems
    exact (decode_iff hitems).mpr hagain

end

/-- Items that are read without an extension are preserved exactly if each of them survives. -/
theorem preserved_iff_survive {σ : Type} (json : JsonText)
    (extension : Option (ProtocolExtension σ)) {v : Value} {items : List Value}
    {decoded : Decoded} {s : σ} (hitems : (v.field "output").bind asArray = some items)
    (hdecoded : decode json (none : Option (ProtocolExtension σ)) v s = .ok (decoded, s)) :
    Preserved json extension items decoded.output s ↔ ∀ item ∈ items, Survives json item :=
  ((decode_iff hitems).mp ⟨decoded, hdecoded, rfl⟩).preserved_iff

def sampleJson : JsonText where
  parse text := if text = "\x7b\x7d" then .ok (.object []) else .error "expected value"
  print v := if v = .object [] then "\x7b\x7d" else "null"

def sampleMessageItem : Value := messageItem "assistant"
  [.object [("text", .string "done"), ("type", .string "output_text")]]

def sampleCalls : List Value := [
  callItem sampleJson ⟨"call", "search", .structured (.object [])⟩,
  callItem sampleJson ⟨"other", "run", .freeform "ls"⟩]

theorem preserved_iff_survive_calls :
    Preserved sampleJson (none : Option (ProtocolExtension Unit)) (sampleMessageItem :: sampleCalls)
      [.content (.text "done"), .runtimeToolCall ⟨"call", "search", .structured (.object [])⟩,
        .runtimeToolCall ⟨"other", "run", .freeform "ls"⟩] () := by
  have hdecoded : decode sampleJson (none : Option (ProtocolExtension Unit))
      (.object [("output", .array (sampleMessageItem :: sampleCalls))]) () = .ok (⟨[
        .content (.text "done"), .runtimeToolCall ⟨"call", "search", .structured (.object [])⟩,
        .runtimeToolCall ⟨"other", "run", .freeform "ls"⟩],
        .object [("output", .array (sampleMessageItem :: sampleCalls))], false⟩, ()) := by
    decide
  refine (preserved_iff_survive sampleJson none rfl hdecoded).mpr ?_
  refine List.forall_mem_cons.mpr ⟨.message _ rfl rfl, List.forall_mem_cons.mpr ⟨?_, ?_⟩⟩
  · exact .functionCall "\x7b\x7d" (.object []) rfl rfl rfl rfl
  · exact List.forall_mem_cons.mpr ⟨.customToolCall rfl, by simp⟩

def sampleReasoning : Value := .object [
  ("encrypted_content", .string "gAAA"), ("id", .string "rs"), ("type", .string "reasoning")]

theorem reasoning_not_preserved :
    ¬ ∀ (items : List Value) (decoded : Decoded),
      decode sampleJson (none : Option (ProtocolExtension Unit))
        (.object [("output", .array items)]) () = .ok (decoded, ()) →
      Preserved sampleJson (none : Option (ProtocolExtension Unit)) items decoded.output () := by
  intro h
  have hdecoded : decode sampleJson (none : Option (ProtocolExtension Unit))
      (.object [("output", .array [sampleReasoning])]) () = .ok (⟨[
        .content (.opaqueData "openai" sampleReasoning)],
        .object [("output", .array [sampleReasoning])], false⟩, ()) := by
    decide
  obtain ⟨values, hencode, hsame, -⟩ := h _ _ hdecoded
  have hvalues : values = [messageItem "assistant" [sampleReasoning]] := by
    cases hencode
    rfl
  subst hvalues
  cases hsame with
  | cons hone _ => exact absurd hone.kind (by decide)

end Zhir.Models.Responses
