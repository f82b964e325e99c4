import Zhir.Library.Traversals
import Zhir.Library.TreeMap
import Zhir.Streaming.ChatReading
import Zhir.Streaming.Decoded

/-!
A Chat completion decodes the same from its stream as from its body, exactly where its content
is a text, and its calls keep their ids and have their names once.
-/

set_option autoImplicit false
set_option relaxedAutoImplicit false

namespace Zhir.Streaming.Chat

open Std (ExtTreeMap)
open Zhir.Core
open Zhir.Library (Ascending eq_of_mapM_eq exists_mapM forall₂_exists_right mapM_congr_forall₂
  mapM_forall₂)
open Zhir.Models

structure Call where
  id : String
  name : String
  arguments : String
  deriving DecidableEq, Repr

structure Call.Item (c : Call) (item : Value) : Prop where
  id : item.field "id" = some (.string c.id)
  exists_function : ∃ function, item.field "function" = some function ∧
    function.field "name" = some (.string c.name) ∧
    function.field "arguments" = some (.string c.arguments)

/-- The pieces of a text: together they are the text, and without a text there is none. -/
inductive Spells : List String → Option Value → Prop
  | absent : Spells [] none
  | null : Spells [] (some .null)
  | text (pieces : List String) : Spells pieces (some (.string (String.join pieces)))

/-- The fragments of a call. Its header may come again; fields are `null` where they are not
repeated. -/
structure Fragments (c : Call) (own : List Value) : Prop where
  id : .string c.id ∈ ids own
  ids : ∀ id ∈ Chat.ids own, id = .string c.id ∨ id = .null
  name : String.join (names own) = c.name ∨ (names own ≠ [] ∧ ∀ name ∈ names own, name = c.name)
  arguments : String.join (arguments own) = c.arguments

def fragmentsOf (i : Nat) (chunks : List Value) : List Value :=
  fragmentsAt i (chunks.flatMap fragments)

def itemsOf (message : Value) : List Value :=
  ((message.field "tool_calls").bind asArray).getD []

def reasonOf (body : Value) : Option Value :=
  (body.pointer ["choices", "0", "finish_reason"]).filter fun w => w ≠ .null

/-- The chunks that stream a completion, whose calls are given with their indices. -/
structure Streams (body message : Value) (calls : List (Nat × Call)) (chunks : List Value) :
    Prop where
  noError : given "error" body = none
  pointed : body.pointer ["choices", "0", "message"] = some message
  items : List.Forall₂ (fun e => e.2.Item) calls (itemsOf message)
  chunk : ∀ v ∈ chunks, Chunk v
  content : Spells (texts "content" chunks) (message.field "content")
  reasoning : Spells (texts "reasoning_content" chunks) (message.field "reasoning_content")
  ascending : Ascending calls
  fits : ∀ e ∈ calls, e.1 < maxU64
  indexed : ∀ f ∈ chunks.flatMap Chat.fragments, ∃ e ∈ calls, callIndex f = some e.1
  fragments : ∀ e ∈ calls, Fragments e.2 (fragmentsOf e.1 chunks)
  finishReason : (finishReasons chunks).getLast? = reasonOf body
  usage : (usages chunks).getLast? = given "usage" body

/-- The frames of a stream: its chunks, and the mark of its end. -/
def Carries (json : JsonText) (frames : List String) (chunks : List Value) : Prop :=
  ∃ texts, frames = texts ++ ["[DONE]"] ∧
    List.Forall₂ (fun data v => data ≠ "[DONE]" ∧ json.parse data = .ok v) texts chunks

/-- The content is a text, an empty reasoning is streamed at all, and no call loses its id to
a later `null` or has its name repeated. -/
structure Faithful (message : Value) (calls : List (Nat × Call)) (chunks : List Value) :
    Prop where
  content : ∃ text, message.field "content" = some (.string text)
  reasoning : message.field "reasoning_content" = some (.string "") →
    texts "reasoning_content" chunks ≠ []
  ids : ∀ e ∈ calls, (ids (fragmentsOf e.1 chunks)).getLast? ≠ some .null
  names : ∀ e ∈ calls, String.join (names (fragmentsOf e.1 chunks)) = e.2.name

def Malformed (json : JsonText) (calls : List (Nat × Call)) : Prop :=
  ∃ e ∈ calls, ∀ v, json.parse e.2.arguments ≠ .ok v

private theorem Spells.eq_or {pieces : List String} {text : Option Value} (h : Spells pieces text) :
    (pieces = [] ∧ (text = none ∨ text = some .null)) ∨
      text = some (.string (String.join pieces)) := by
  cases h with
  | absent => exact .inl ⟨rfl, .inl rfl⟩
  | null => exact .inl ⟨rfl, .inr rfl⟩
  | text pieces => exact .inr rfl

section

variable {json : JsonText} {overflowChecks : Bool} {frames : List String}
  {body message v choice : Value} {calls : List (Nat × Call)} {chunks : List Value} {s : State}

theorem After.exists_run {rest : List Value} (h : After chunks s)
    (hframes : List.Forall₂ (fun data v => data ≠ "[DONE]" ∧ json.parse data = .ok v) frames rest)
    (hchunk : ∀ v ∈ rest, Chunk v) (hindexed : ∀ v ∈ rest, Indexed (Chat.fragments v)) :
    ∃ s', frames.foldlM (Accumulator.step json (stream overflowChecks)) s = .ok s' ∧
      After (chunks ++ rest) s' := by
  induction hframes generalizing chunks s with
  | nil =>
    refine ⟨s, rfl, ?_⟩
    rw [List.append_nil]
    exact h
  | @cons data v frames rest hdata _ ih =>
    obtain ⟨s₁, deltas, hpush, hafter⟩ := h.exists_push overflowChecks
      (hchunk v List.mem_cons_self) (hindexed v List.mem_cons_self)
    have hstep : Accumulator.step json (stream overflowChecks) s data = .ok s₁ := by
      unfold Accumulator.step Accumulator.push
      rw [if_neg hdata.1, hdata.2]
      simp only [(hchunk v List.mem_cons_self).noError, Bool.false_eq_true, if_false]
      change (State.push overflowChecks v s >>= _) = _
      rw [hpush]
      rfl
    obtain ⟨s', hrun, hafter'⟩ := ih hafter
      (fun w hw => hchunk w (List.mem_cons_of_mem v hw))
      (fun w hw => hindexed w (List.mem_cons_of_mem v hw))
    refine ⟨s', ?_, ?_⟩
    · rw [List.foldlM_cons, hstep]
      exact hrun
    · rw [List.append_assoc] at hafter'
      exact hafter'

/-- The accumulated response, by what the chunks carried. -/
structure Accumulated (chunks : List Value) (v message : Value) (items : List Value) :
    Prop where
  error : given "error" v = none
  pointed : v.pointer ["choices", "0", "message"] = some message
  content : message.field "content" =
    some (.string (String.join (texts "content" chunks)))
  reasoning : message.field "reasoning_content" =
    extendAll none (texts "reasoning_content" chunks)
  items : itemsOf message = items
  finishReason : v.pointer ["choices", "0", "finish_reason"] =
    (finishReasons chunks).getLast?.or (some .null)
  usage : v.field "usage" = (usages chunks).getLast?

private theorem HasChoice.pointer_eq (h : HasChoice v choice) (hobject : choice.isObject = true)
    (name : String) : v.pointer ["choices", "0", name] = choice.field name := by
  have hchoices := h.choices
  have hv := h.isObject
  cases v with
  | object fields =>
    cases choice with
    | object choiceFields =>
      change fields.lookup "choices" = _ at hchoices
      change (fields.lookup "choices").bind (Value.pointer ["0", name]) = _
      have hindex : Value.parseIndex "0" = some 0 := by decide
      rw [hchoices]
      simp [Value.pointer, Value.child, Value.field, hindex]
    | _ => cases hobject
  | _ => cases hv

private theorem After.exists_finish (h : After chunks s) :
    ∃ v message, State.finish { s with done := true } = .ok v ∧
      Accumulated chunks v message (s.calls.toList.map Prod.snd) := by
  obtain ⟨choice, message, hreads⟩ := h.value
  have hcontent : message.field "content" =
      some (.string (String.join (texts "content" chunks))) := by
    rw [hreads.content, extendAll_string, String.empty_append]
  have herror : given "error" s.value = none := by
    unfold given
    rw [hreads.error]
    rfl
  unfold State.finish
  rw [if_pos rfl]
  by_cases hempty : s.calls.isEmpty = true
  · have hlist : s.calls.toList.map Prod.snd = [] := by
      rw [ExtTreeMap.isEmpty_iff.mp hempty]
      simp
    rw [if_pos hempty, hlist]
    refine ⟨s.value, message, rfl, herror, ?_, hcontent, hreads.reasoning, ?_, ?_, hreads.usage⟩
    · rw [hreads.toHasChoice.pointer_eq hreads.choiceObject]
      exact hreads.slot
    · unfold itemsOf
      rw [hreads.toolCalls]
      rfl
    · rw [hreads.toHasChoice.pointer_eq hreads.choiceObject]
      exact hreads.finishReason
  · rw [if_neg hempty]
    have hindex := Value.indexable_of_isObject hreads.messageObject
    obtain ⟨message', hassign, -, hmessage'⟩ :=
      Value.exists_assign hindex "tool_calls" (.array (s.calls.toList.map Prod.snd))
    cases hset : choice.modifyField "message" fun message =>
        message.assign "tool_calls" (.array (s.calls.toList.map Prod.snd)) with
    | error fault =>
      rw [Value.modifyField_error_iff, hreads.slot] at hset
      rcases hset with ⟨hbad, -⟩ | ⟨-, hset⟩
      · exact absurd (Value.indexable_of_isObject hreads.choiceObject) hbad
      · cases hassign.symm.trans hset
    | ok choice' =>
      obtain ⟨-, w, hw, hobject', hfield⟩ := Value.modifyField_ok hset
      rw [hreads.slot] at hw
      cases hassign.symm.trans hw
      obtain ⟨v', hv', hchoice', hkept⟩ := @HasChoice.exists_modify s.value choice
        (fun choice => choice.modifyField "message" fun message =>
          message.assign "tool_calls" (.array (s.calls.toList.map Prod.snd)))
        hreads.toHasChoice choice' hset
      refine ⟨v', message', hv', ?_, ?_, ?_, ?_, ?_, ?_, ?_⟩
      · unfold given
        rw [hkept _ (by decide)]
        exact herror
      · rw [hchoice'.pointer_eq hobject', hfield, if_pos rfl]
      · rw [hmessage', if_neg (by decide)]
        exact hcontent
      · rw [hmessage', if_neg (by decide)]
        exact hreads.reasoning
      · unfold itemsOf
        rw [hmessage', if_pos rfl]
        rfl
      · rw [hchoice'.pointer_eq hobject', hfield, if_neg (by decide)]
        exact hreads.finishReason
      · rw [hkept _ (by decide)]
        exact hreads.usage

private theorem Streams.exists_accumulated (h : Streams body message calls chunks)
    (hcarries : Carries json frames chunks) :
    ∃ v message' items, accumulate json (stream overflowChecks) frames = .ok v ∧
      Accumulated chunks v message' items ∧
      List.Forall₂ (fun e => Gathered (fragmentsOf e.1 chunks)) calls items := by
  obtain ⟨texts, rfl, htexts⟩ := hcarries
  have hindexed : ∀ v ∈ chunks, Indexed (Chat.fragments v) := by
    intro v hv f hf
    obtain ⟨e, he, hindex⟩ := h.indexed f (List.mem_flatMap.mpr ⟨v, hv, hf⟩)
    exact ⟨e.1, hindex, h.fits e he⟩
  obtain ⟨s, hrun, hafter⟩ := @After.exists_run json overflowChecks texts [] State.new chunks
    after_new htexts h.chunk hindexed
  obtain ⟨v, message', hfinish, haccumulated⟩ := hafter.exists_finish
  refine ⟨v, message', _, ?_, haccumulated, ?_⟩
  · unfold accumulate Accumulator.run
    change ((texts ++ ["[DONE]"]).foldlM (Accumulator.step json (stream overflowChecks))
      State.new >>= _) = _
    rw [List.foldlM_append, hrun]
    exact hfinish
  · refine Zhir.Library.TreeMap.forall₂_toList h.ascending (fun e he => ?_) fun i entry hi => ?_
    · rcases hafter.calls e.1 with ⟨-, hfree⟩ | ⟨entry, hentry, -, hgathered⟩
      · have hid := (h.fragments e he).id
        change Value.string e.2.id ∈ ids (fragmentsAt e.1 (chunks.flatMap Chat.fragments)) at hid
        rw [List.nil_append] at hfree
        rw [hfree] at hid
        cases hid
      · exact ⟨entry, hentry, hgathered⟩
    · rcases hafter.calls i with ⟨hnone, -⟩ | ⟨entry', -, hown, -⟩
      · cases hi.symm.trans hnone
      · obtain ⟨f, hf⟩ := List.exists_mem_of_ne_nil _ hown
        obtain ⟨hmem, hindex⟩ := List.mem_filter.mp hf
        obtain ⟨e, he, hkey⟩ := h.indexed f hmem
        cases (of_decide_eq_true hindex).symm.trans hkey
        exact List.mem_map_of_mem he

end

open Models.Chat (decodeCall decodeContent)

def callOf (json : JsonText) (id : Option Value) (name arguments : String) : Result Output :=
  match id.bind asString with
  | none => .error (.protocol "missing id")
  | some id =>
    match json.parse arguments with
    | .error message => .error (.protocol message)
    | .ok v => .ok (.runtimeToolCall ⟨id, name, .structured v⟩)

section

variable {json : JsonText} {id : Option Value} {name arguments : String} {item entry : Value}
  {own : List Value} {c : Call} {output : Output}

private theorem callOf_ok (h : callOf json id name arguments = .ok output) :
    ∃ text v, id = some (.string text) ∧ json.parse arguments = .ok v ∧
      output = .runtimeToolCall ⟨text, name, .structured v⟩ := by
  unfold callOf at h
  cases hid : id.bind asString with
  | none =>
    rw [hid] at h
    cases h
  | some text =>
    rw [hid] at h
    obtain ⟨value, rfl, hvalue⟩ := Option.bind_eq_some_iff.mp hid
    cases hparse : json.parse arguments with
    | error message =>
      simp only [hparse] at h
      cases h
    | ok v =>
      simp only [hparse] at h
      cases h
      exact ⟨text, v, congrArg some (asString_some hvalue), rfl, rfl⟩

private theorem exists_callOf {v : Value} (hparse : json.parse arguments = .ok v) (text : String) :
    ∃ output, callOf json (some (.string text)) name arguments = .ok output := by
  unfold callOf
  simp [asString, hparse]

/-- What `decodeCall` reads of an item. -/
private theorem decodeCall_eq {function : Value} (hslot : item.field "function" = some function)
    (hname : function.field "name" = some (.string name))
    (harguments : function.field "arguments" = some (.string arguments)) :
    decodeCall json item = callOf json (item.field "id") name arguments := by
  have hnameField : textField function "name" = .ok name := by
    unfold textField
    rw [hname]
    rfl
  have hargumentsField : textField function "arguments" = .ok arguments := by
    unfold textField
    rw [harguments]
    rfl
  unfold decodeCall callOf
  simp only [hslot, hnameField, hargumentsField]
  unfold textField
  cases hid : (item.field "id").bind asString with
  | none => rfl
  | some text =>
    cases hparse : json.parse arguments with
    | error message => simp [bind, Except.bind, hparse]
    | ok v => simp [bind, Except.bind, pure, Except.pure, hparse]

private theorem Call.Item.decodeCall_eq (h : c.Item item) :
    decodeCall json item = callOf json (some (.string c.id)) c.name c.arguments := by
  obtain ⟨function, hslot, hname, harguments⟩ := h.exists_function
  rw [Chat.decodeCall_eq hslot hname harguments, h.id]

private theorem Gathered.decodeCall_eq (h : Gathered own entry) :
    decodeCall json entry = callOf json (ids own).getLast? (String.join (names own))
      (String.join (Chat.arguments own)) := by
  obtain ⟨function, hslot, -, hname, harguments⟩ := h.exists_function
  rw [extendAll_string, String.empty_append] at hname harguments
  rw [Chat.decodeCall_eq hslot hname harguments, h.id]

end

def textOutputs (reasoning content : Option Value) : List Output :=
  (match reasoning.bind asString with
    | some text => [Output.content (.opaqueData "openai" (.object [
        ("text", .string text), ("type", .string "reasoning")]))]
    | none => []) ++
  match content.bind asString with
  | some text => [.content (.text text)]
  | none => []

def contentOutputs (content : Option Value) : List Output :=
  match content.bind asString with
  | some text => [.content (.text text)]
  | none => []

private theorem decodeContent_eq {content : Option Value}
    (h : ∀ parts, content ≠ some (.array parts)) :
    decodeContent content = .ok (contentOutputs content) := by
  cases content with
  | none => rfl
  | some content =>
    cases content with
    | array parts => exact absurd rfl (h parts)
    | _ => rfl

/-- A response by its outputs before the calls, and its calls. -/
def response {τ : Type} (v : Value) (before : List Output) (t : τ) :
    Result (List Output) → Checked (GenerationOutput × τ)
  | .error e => .error (.error e)
  | .ok calls => .ok (generationOutput .chat v ⟨before ++ calls, v, false⟩, t)

section

variable {json : JsonText} {v message : Value} {τ : Type}

private theorem decodeBody_eq (herror : given "error" v = none)
    (hmessage : v.pointer ["choices", "0", "message"] = some message)
    (hparts : ∀ parts, message.field "content" ≠ some (.array parts))
    (extension : Option (ProtocolExtension τ)) (t : τ) :
    decodeBody json .chat v extension t =
      response v (textOutputs (message.field "reasoning_content") (message.field "content")) t
        ((itemsOf message).mapM (decodeCall json)) := by
  have hchat : Models.Chat.decode json v =
      ((itemsOf message).mapM (decodeCall json)).map fun calls => ⟨
        textOutputs (message.field "reasoning_content") (message.field "content") ++ calls,
        v, false⟩ := by
    unfold Models.Chat.decode
    rw [hmessage]
    change (decodeContent (message.field "content") >>= _) = _
    rw [decodeContent_eq hparts]
    change ((itemsOf message).mapM (decodeCall json) >>= _) = _
    cases (itemsOf message).mapM (decodeCall json) <;> rfl
  have hgiven : ((v.field "error").filter fun e => e ≠ .null) = none := herror
  unfold decodeBody Models.decode
  rw [hgiven]
  change ((Models.Chat.decode json v >>= fun decoded => Except.ok (decoded, t)) >>= _).mapError
    _ = _
  rw [hchat]
  cases (itemsOf message).mapM (decodeCall json) <;> rfl

/-- Responses with the same usage and the same reason to end are alike where both have the same
outputs, and where both are refused. -/
private theorem alike_response_iff {w : Value} {before before' : List Output}
    {calls calls' : Result (List Output)} {t : τ}
    (husage : (v.field "usage").getD .null = (w.field "usage").getD .null)
    (hreason : (Protocol.chat.finishReason v).bind asString =
      (Protocol.chat.finishReason w).bind asString) :
    Alike (response v before t calls) (response w before' t calls') ↔
      (∃ e e', calls = .error e ∧ calls' = .error e') ∨
        ∃ outputs outputs', calls = .ok outputs ∧ calls' = .ok outputs' ∧
          before ++ outputs = before' ++ outputs' := by
  cases calls with
  | error e =>
    cases calls' with
    | error e' => exact iff_of_true .refused (.inl ⟨e, e', rfl, rfl⟩)
    | ok outputs' =>
      refine iff_of_false (fun h => by cases h) ?_
      rintro (⟨_, _, -, h⟩ | ⟨_, _, h, -⟩)
      · cases h
      · cases h
  | ok outputs =>
    cases calls' with
    | error e' =>
      refine iff_of_false (fun h => by cases h) ?_
      rintro (⟨_, _, h, -⟩ | ⟨_, _, -, h, -⟩)
      · cases h
      · cases h
    | ok outputs' =>
      constructor
      · intro h
        cases h with
        | decoded houtput _ _ => exact .inr ⟨outputs, outputs', rfl, rfl, houtput⟩
      · rintro (⟨_, _, h, -⟩ | ⟨_, _, ⟨⟩, ⟨⟩, houtput⟩)
        · cases h
        · refine .decoded houtput (congrArg Protocol.chat.usage husage) ?_
          change responseStatus ((Protocol.chat.finishReason v).bind asString) _ =
            responseStatus ((Protocol.chat.finishReason w).bind asString) _
          rw [hreason]
          exact congrArg (fun output => responseStatus _ (false || output.any unfinishedCall))
            houtput

end

def streamedCall (json : JsonText) (chunks : List Value) (e : Nat × Call) : Result Output :=
  callOf json (ids (fragmentsOf e.1 chunks)).getLast? (String.join (names (fragmentsOf e.1 chunks)))
    (String.join (arguments (fragmentsOf e.1 chunks)))

def wholeCall (json : JsonText) (e : Nat × Call) : Result Output :=
  callOf json (some (.string e.2.id)) e.2.name e.2.arguments

section

variable {json : JsonText} {overflowChecks : Bool} {frames : List String}
  {body message : Value} {calls : List (Nat × Call)} {chunks : List Value} {τ : Type}

private theorem Streams.decodeBody_eq (h : Streams body message calls chunks)
    (extension : Option (ProtocolExtension τ)) (t : τ) :
    decodeBody json .chat body extension t =
      response body (textOutputs (message.field "reasoning_content") (message.field "content"))
        t (calls.mapM (wholeCall json)) := by
  have hparts : ∀ parts, message.field "content" ≠ some (.array parts) := by
    intro parts hcontent
    rcases h.content.eq_or with ⟨-, hnone | hnull⟩ | htext
    · cases hcontent.symm.trans hnone
    · cases hcontent.symm.trans hnull
    · cases hcontent.symm.trans htext
  have hitems : (itemsOf message).mapM (decodeCall json) = calls.mapM (wholeCall json) :=
    (mapM_congr_forall₂ (h.items.imp fun e item hitem => hitem.decodeCall_eq.symm)).symm
  rw [Chat.decodeBody_eq h.noError h.pointed hparts, hitems]

/-- What the accumulated value of a stream is to the completion. -/
structure Resembles (v body : Value) : Prop where
  usage : (v.field "usage").getD .null = (body.field "usage").getD .null
  finishReason : (Protocol.chat.finishReason v).bind asString =
    (Protocol.chat.finishReason body).bind asString

private theorem Streams.exists_decodeStream (h : Streams body message calls chunks)
    (hcarries : Carries json frames chunks) :
    ∃ v, Resembles v body ∧ ∀ (τ : Type) (extension : Option (ProtocolExtension τ)) (t : τ),
      decodeStream json .chat (stream overflowChecks) frames extension t =
        response v (textOutputs (extendAll none (texts "reasoning_content" chunks))
            (some (.string (String.join (texts "content" chunks)))))
          t (calls.mapM (streamedCall json chunks)) := by
  obtain ⟨v, message', items, haccumulate, hv, hitems⟩ := h.exists_accumulated hcarries
  refine ⟨v, ⟨?_, ?_⟩, fun τ extension t => ?_⟩
  · rw [hv.usage, h.usage, getD_given]
  · change (v.pointer ["choices", "0", "finish_reason"]).bind asString =
      (body.pointer ["choices", "0", "finish_reason"]).bind asString
    rw [hv.finishReason, h.finishReason]
    unfold reasonOf
    cases body.pointer ["choices", "0", "finish_reason"] with
    | none => rfl
    | some reason => cases reason <;> rfl
  · have hparts : ∀ parts, message'.field "content" ≠ some (.array parts) := by
      intro parts hcontent
      rw [hv.content] at hcontent
      cases hcontent
    have hcalls : (itemsOf message').mapM (decodeCall json) =
        calls.mapM (streamedCall json chunks) := by
      rw [hv.items]
      exact (mapM_congr_forall₂ (hitems.imp fun e entry hentry =>
        hentry.decodeCall_eq.symm)).symm
    rw [decodeStream_of_ok haccumulate, Chat.decodeBody_eq hv.error hv.pointed hparts, hcalls,
      hv.content, hv.reasoning]

private theorem Fragments.getLast?_ids {c : Call} {own : List Value} (h : Fragments c own) :
    (Chat.ids own).getLast? = some (.string c.id) ∨ (Chat.ids own).getLast? = some .null := by
  cases hlast : (Chat.ids own).getLast? with
  | none =>
    have hid := h.id
    rw [List.getLast?_eq_none_iff.mp hlast] at hid
    cases hid
  | some id =>
    rcases h.ids id (List.mem_of_getLast? hlast) with rfl | rfl
    · exact .inl rfl
    · exact .inr rfl

private theorem Streams.streamedCall_eq (h : Streams body message calls chunks) {e : Nat × Call}
    (he : e ∈ calls) (hid : (ids (fragmentsOf e.1 chunks)).getLast? ≠ some .null)
    (hname : String.join (names (fragmentsOf e.1 chunks)) = e.2.name) :
    streamedCall json chunks e = wholeCall json e := by
  unfold streamedCall wholeCall
  have hlast := (h.fragments e he).getLast?_ids.resolve_right hid
  rw [hlast, hname, (h.fragments e he).arguments]

private theorem of_streamedCall_eq {e : Nat × Call} {v : Value}
    (hparse : json.parse e.2.arguments = .ok v)
    (heq : streamedCall json chunks e = wholeCall json e) :
    (ids (fragmentsOf e.1 chunks)).getLast? ≠ some .null ∧
      String.join (names (fragmentsOf e.1 chunks)) = e.2.name := by
  obtain ⟨output, hwhole⟩ : ∃ output, wholeCall json e = .ok output :=
    exists_callOf hparse e.2.id
  obtain ⟨id, args, hid, -, houtput⟩ := callOf_ok hwhole
  obtain ⟨id', args', hid', -, houtput'⟩ := callOf_ok (heq.trans hwhole)
  have hcall := Output.runtimeToolCall.inj (houtput'.symm.trans houtput)
  refine ⟨fun hnull => ?_, congrArg RuntimeToolCall.name hcall⟩
  cases hid'.symm.trans hnull

/-- The calls of a completion decode unless the arguments of one are no document. -/
private theorem exists_wholeCalls (h : ¬ Malformed json calls) :
    ∃ outputs, calls.mapM (wholeCall json) = .ok outputs := by
  refine exists_mapM fun e he => ?_
  by_contra hnone
  refine h ⟨e, he, fun v hparse => hnone ?_⟩
  exact exists_callOf hparse e.2.id

private theorem refused_of_malformed (h : Malformed json calls) :
    ∃ error, calls.mapM (wholeCall json) = .error error := by
  obtain ⟨e, he, hparse⟩ := h
  cases hcalls : calls.mapM (wholeCall json) with
  | error error => exact ⟨error, rfl⟩
  | ok outputs =>
    obtain ⟨output, -, houtput⟩ := forall₂_exists_right (mapM_forall₂ hcalls) he
    obtain ⟨id, v, -, hv, -⟩ := callOf_ok houtput
    exact absurd hv (hparse v)

private theorem Streams.refused_of_malformed (h : Streams body message calls chunks)
    (hmalformed : Malformed json calls) :
    ∃ error, calls.mapM (streamedCall json chunks) = .error error := by
  obtain ⟨e, he, hparse⟩ := hmalformed
  cases hcalls : calls.mapM (streamedCall json chunks) with
  | error error => exact ⟨error, rfl⟩
  | ok outputs =>
    obtain ⟨output, -, houtput⟩ := forall₂_exists_right (mapM_forall₂ hcalls) he
    obtain ⟨id, v, -, hv, -⟩ := callOf_ok houtput
    rw [(h.fragments e he).arguments] at hv
    exact absurd hv (hparse v)

private theorem Streams.textOutputs_eq (h : Streams body message calls chunks)
    (hcontent : ∃ text, message.field "content" = some (.string text))
    (hreasoning : message.field "reasoning_content" = some (.string "") →
      texts "reasoning_content" chunks ≠ []) :
    textOutputs (extendAll none (texts "reasoning_content" chunks))
        (some (.string (String.join (texts "content" chunks)))) =
      textOutputs (message.field "reasoning_content") (message.field "content") := by
  obtain ⟨text, htext⟩ := hcontent
  have hjoined : message.field "content" =
      some (.string (String.join (texts "content" chunks))) := by
    rcases h.content.eq_or with ⟨-, hnone | hnull⟩ | hspelled
    · cases htext.symm.trans hnone
    · cases htext.symm.trans hnull
    · exact hspelled
  have hsame : (extendAll none (texts "reasoning_content" chunks)).bind asString =
      (message.field "reasoning_content").bind asString := by
    rw [extendAll_none]
    rcases h.reasoning.eq_or with ⟨hnil, hnone | hnull⟩ | hspelled
    · rw [if_pos hnil, hnone]
    · rw [if_pos hnil, hnull]
      rfl
    · have hne : texts "reasoning_content" chunks ≠ [] := by
        intro hnil
        rw [hnil] at hspelled
        exact hreasoning hspelled hnil
      rw [if_neg hne, hspelled]
  unfold textOutputs
  rw [hsame, hjoined]

private theorem Streams.of_textOutputs_eq (h : Streams body message calls chunks)
    (heq : textOutputs (extendAll none (texts "reasoning_content" chunks))
        (some (.string (String.join (texts "content" chunks)))) =
      textOutputs (message.field "reasoning_content") (message.field "content")) :
    (∃ text, message.field "content" = some (.string text)) ∧
      (message.field "reasoning_content" = some (.string "") →
        texts "reasoning_content" chunks ≠ []) := by
  have hlast := congrArg List.getLast? heq
  have hlength := congrArg List.length heq
  have hcontent : ∃ text, message.field "content" = some (.string text) := by
    have hspells := h.content.eq_or
    rcases hspells with ⟨-, habsent⟩ | hspelled
    · have hnone : (message.field "content").bind asString = none := by
        rcases habsent with hnone | hnull
        · rw [hnone]
          rfl
        · rw [hnull]
          rfl
      unfold textOutputs at hlast
      rw [hnone] at hlast
      cases hreasoning : (message.field "reasoning_content").bind asString <;>
        simp [hreasoning, asString] at hlast
    · exact ⟨_, hspelled⟩
  refine ⟨hcontent, fun hreasoning hnil => ?_⟩
  obtain ⟨text, htext⟩ := hcontent
  unfold textOutputs at hlength
  rw [hreasoning, hnil, htext] at hlength
  simp [extendAll, asString] at hlength

/-- A stream decodes as its completion exactly where it is faithful to it, or where the
arguments of a call are no document and both are refused. -/
theorem completion_alike_iff (h : Streams body message calls chunks)
    (hcarries : Carries json frames chunks) :
    (∀ (τ : Type) (extension : Option (ProtocolExtension τ)) (t : τ),
      Alike (decodeStream json .chat (stream overflowChecks) frames extension t)
        (decodeBody json .chat body extension t)) ↔
    Malformed json calls ∨ Faithful message calls chunks := by
  obtain ⟨v, hv, hstream⟩ := h.exists_decodeStream hcarries
  constructor
  · intro halike
    refine or_iff_not_imp_left.mpr fun hwell => ?_
    have hdecoded := halike Unit none ()
    rw [hstream, h.decodeBody_eq, alike_response_iff hv.usage hv.finishReason] at hdecoded
    obtain ⟨whole, hwhole⟩ := exists_wholeCalls hwell
    rcases hdecoded with ⟨_, _, -, hrefused⟩ | ⟨outputs, outputs', hcalls, hcalls', houtputs⟩
    · cases hwhole.symm.trans hrefused
    · have hlength : outputs.length = outputs'.length :=
        (mapM_forall₂ hcalls).length_eq.symm.trans (mapM_forall₂ hcalls').length_eq
      obtain ⟨htexts, hsame⟩ := List.append_inj' houtputs hlength
      subst hsame
      obtain ⟨hcontent, hreasoning⟩ := h.of_textOutputs_eq htexts
      have hcall : ∀ e ∈ calls, (ids (fragmentsOf e.1 chunks)).getLast? ≠ some .null ∧
          String.join (names (fragmentsOf e.1 chunks)) = e.2.name := by
        intro e he
        have hparse : ∃ v, json.parse e.2.arguments = .ok v := by
          by_contra hnone
          exact hwell ⟨e, he, fun v hv => hnone ⟨v, hv⟩⟩
        obtain ⟨v, hparse⟩ := hparse
        exact of_streamedCall_eq hparse (eq_of_mapM_eq hcalls hcalls' e he)
      exact ⟨hcontent, hreasoning, fun e he => (hcall e he).1, fun e he => (hcall e he).2⟩
  · intro hcondition τ extension t
    rw [hstream, h.decodeBody_eq, alike_response_iff hv.usage hv.finishReason]
    by_cases hmalformed : Malformed json calls
    · obtain ⟨e, he⟩ := h.refused_of_malformed hmalformed
      obtain ⟨e', he'⟩ := Chat.refused_of_malformed hmalformed
      exact .inl ⟨e, e', he, he'⟩
    · have hfaithful := hcondition.resolve_left hmalformed
      obtain ⟨whole, hwhole⟩ := exists_wholeCalls hmalformed
      have hcalls : calls.mapM (streamedCall json chunks) = calls.mapM (wholeCall json) :=
        mapM_congr_forall₂ (List.forall₂_same.mpr fun e he =>
          h.streamedCall_eq he (hfaithful.ids e he) (hfaithful.names e he))
      rw [hcalls, h.textOutputs_eq hfaithful.content hfaithful.reasoning]
      exact .inr ⟨whole, whole, hwhole, hwhole, rfl⟩

end

def sampleCall : Call := ⟨"c1", "now", "\x7b\x7d"⟩

def sampleMessage (content : Value) : Value := .object [("content", content),
  ("role", .string "assistant"), ("tool_calls", .array [.object [
    ("function", .object [("arguments", .string "\x7b\x7d"), ("name", .string "now")]),
    ("id", .string "c1"), ("type", .string "function")]])]

def sampleUsage : Value :=
  .object [("completion_tokens", decimal 2), ("prompt_tokens", decimal 5)]

def sampleBody (content : Value) : Value := .object [
  ("choices", .array [.object [("finish_reason", .string "tool_calls"),
    ("message", sampleMessage content)]]),
  ("usage", sampleUsage)]

def sampleFragments : List Value := [
  .object [("function", .object [("name", .string "now")]), ("id", .string "c1"),
    ("index", decimal 0)],
  .object [("function", .object [("arguments", .string "\x7b\x7d")]), ("index", decimal 0)]]

/-- The content and the header of the call, its arguments, and the usage. -/
def sampleChunks (content : Value) : List Value := [
  .object [("choices", .array [.object [
      ("delta", .object [("content", content), ("tool_calls", .array (sampleFragments.take 1))]),
      ("finish_reason", .null)]]),
    ("usage", .null)],
  .object [("choices", .array [.object [
      ("delta", .object [("content", .null), ("tool_calls", .array (sampleFragments.drop 1))]),
      ("finish_reason", .string "tool_calls")]]),
    ("usage", .null)],
  .object [("choices", .array []), ("usage", sampleUsage)]]

/-- The texts of these chunks; the content is given as it is written. -/
def sampleTexts (content : String) : List String := [
  "\x7b\"choices\":[\x7b\"delta\":\x7b\"content\":" ++ content ++ ",\"tool_calls\":[\x7b" ++
    "\"function\":\x7b\"name\":\"now\"\x7d,\"id\":\"c1\",\"index\":0\x7d]\x7d," ++
    "\"finish_reason\":null\x7d],\"usage\":null\x7d",
  "\x7b\"choices\":[\x7b\"delta\":\x7b\"content\":null,\"tool_calls\":[\x7b" ++
    "\"function\":\x7b\"arguments\":\"\x7b\x7d\"\x7d,\"index\":0\x7d]\x7d," ++
    "\"finish_reason\":\"tool_calls\"\x7d],\"usage\":null\x7d",
  "\x7b\"choices\":[],\"usage\":\x7b\"completion_tokens\":2,\"prompt_tokens\":5\x7d\x7d"]

def sampleFrames (content : String) : List String := sampleTexts content ++ ["[DONE]"]

/-- The documents of these texts, and the one the arguments are. -/
def sampleJson (content : String) (v : Value) : JsonText where
  parse text :=
    match (("\x7b\x7d", .object []) :: (sampleTexts content).zip (sampleChunks v)).lookup text with
    | some v => .ok v
    | none => .error "expected value at line 1 column 1"
  print _ := ""

private theorem canonical_of_names {fields : List (String × Value)} (names : List String)
    (hnames : fields.map Prod.fst = names) (h : names.Pairwise (· < ·)) :
    (Value.object fields).Canonical := by
  subst hnames
  exact ⟨fields, rfl, List.pairwise_map.mp h⟩

private theorem chunk_of_choice {v choice : Value} (hv : v.Canonical) (hno : reportsError v = false)
    (hchoice : choiceOf v = some choice) (hcanonical : choice.Canonical)
    (hmessage : given "message" choice = none) : Chunk v := by
  refine ⟨hv, fun other hother => ?_, hno⟩
  cases hchoice.symm.trans hother
  exact ⟨hcanonical, hmessage⟩

private theorem chunk_sample (content : Value) : ∀ v ∈ sampleChunks content, Chunk v := by
  refine List.forall_mem_cons.mpr ⟨?_, List.forall_mem_cons.mpr ⟨?_, ?_⟩⟩
  · exact chunk_of_choice (canonical_of_names ["choices", "usage"] rfl (by decide)) rfl rfl
      (canonical_of_names ["delta", "finish_reason"] rfl (by decide)) rfl
  · exact chunk_of_choice (canonical_of_names ["choices", "usage"] rfl (by decide)) rfl rfl
      (canonical_of_names ["delta", "finish_reason"] rfl (by decide)) rfl
  · refine List.forall_mem_singleton.mpr
      ⟨canonical_of_names ["choices", "usage"] rfl (by decide), ?_, rfl⟩
    intro choice hchoice
    cases hchoice

private theorem sample_fragmentsOf (content : Value) :
    fragmentsOf 0 (sampleChunks content) = sampleFragments := by
  change fragmentsAt 0 sampleFragments = _
  rfl

theorem sample_streams {content : Value} (h : content = .null ∨ content = .string "hi") :
    Streams (sampleBody content) (sampleMessage content) [(0, sampleCall)]
      (sampleChunks content) where
  noError := rfl
  pointed := rfl
  items := .cons ⟨rfl, _, rfl, rfl, rfl⟩ .nil
  chunk := chunk_sample content
  content := by
    rcases h with rfl | rfl
    · exact .null
    · exact .text ["hi"]
  reasoning := .absent
  ascending := List.pairwise_singleton _ _
  fits := List.forall_mem_singleton.mpr (by decide)
  indexed := by
    change ∀ f ∈ sampleFragments, _
    refine List.forall_mem_cons.mpr ⟨?_, List.forall_mem_singleton.mpr ?_⟩
    · exact ⟨(0, sampleCall), List.mem_singleton_self _, rfl⟩
    · exact ⟨(0, sampleCall), List.mem_singleton_self _, rfl⟩
  fragments := by
    refine List.forall_mem_singleton.mpr ?_
    change Fragments sampleCall (fragmentsOf 0 (sampleChunks content))
    rw [sample_fragmentsOf]
    have hids : ids sampleFragments = [.string "c1"] := rfl
    refine ⟨?_, ?_, .inl (by decide), by decide⟩
    · rw [hids]
      exact List.mem_singleton_self _
    · rw [hids]
      exact List.forall_mem_singleton.mpr (.inl rfl)
  finishReason := rfl
  usage := rfl

theorem sample_carries {content : String} {v : Value}
    (h : (content = "null" ∧ v = .null) ∨ (content = "\"hi\"" ∧ v = .string "hi")) :
    Carries (sampleJson content v) (sampleFrames content) (sampleChunks v) := by
  refine ⟨sampleTexts content, rfl, ?_⟩
  rcases h with ⟨rfl, rfl⟩ | ⟨rfl, rfl⟩
  · decide +kernel
  · decide +kernel

private theorem sample_faithful :
    Faithful (sampleMessage (.string "hi")) [(0, sampleCall)] (sampleChunks (.string "hi")) where
  content := ⟨"hi", rfl⟩
  reasoning := nofun
  ids := by
    refine List.forall_mem_singleton.mpr ?_
    rw [sample_fragmentsOf]
    decide
  names := by
    refine List.forall_mem_singleton.mpr ?_
    rw [sample_fragmentsOf]
    decide

/-- A completion with a content and a call in two fragments decodes as its stream. -/
theorem sample_completion_alike :
    ¬ Malformed (sampleJson "\"hi\"" (.string "hi")) [(0, sampleCall)] ∧
    ∀ (τ : Type) (extension : Option (ProtocolExtension τ)) (t : τ),
      Alike (decodeStream (sampleJson "\"hi\"" (.string "hi")) .chat (stream true)
          (sampleFrames "\"hi\"") extension t)
        (decodeBody (sampleJson "\"hi\"" (.string "hi")) .chat (sampleBody (.string "hi"))
          extension t) := by
  refine ⟨?_, ?_⟩
  · rintro ⟨e, he, hmalformed⟩
    rw [List.mem_singleton.mp he] at hmalformed
    exact hmalformed (.object []) (by decide +kernel)
  · exact (completion_alike_iff (sample_streams (.inr rfl))
      (sample_carries (.inr ⟨rfl, rfl⟩))).2 (.inr sample_faithful)

/-- A completion without a content has an empty text in its stream. -/
theorem null_content_decoded :
    Streams (sampleBody .null) (sampleMessage .null) [(0, sampleCall)] (sampleChunks .null) ∧
    Carries (sampleJson "null" .null) (sampleFrames "null") (sampleChunks .null) ∧
    ¬ Alike (decodeStream (sampleJson "null" .null) .chat (stream true) (sampleFrames "null")
        (none : Option (ProtocolExtension Unit)) ())
      (decodeBody (sampleJson "null" .null) .chat (sampleBody .null) none ()) := by
  refine ⟨sample_streams (.inl rfl), sample_carries (.inl ⟨rfl, rfl⟩), fun halike => ?_⟩
  have houtputs := halike.outputs
  revert houtputs
  decide +kernel

end Zhir.Streaming.Chat
