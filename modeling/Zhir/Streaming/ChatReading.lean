import Zhir.Streaming.ChatShapes

/-!
What the accumulator has read after some chunks of a Chat stream: the texts of the message, why
it ended, the usage, and the calls by their indices.
-/

set_option autoImplicit false
set_option relaxedAutoImplicit false

namespace Zhir.Streaming.Chat

open Std (ExtTreeMap)
open Zhir.Core
open Zhir.Library (Ascending exists_lastValue lastValue lastValue_eq_none mem_of_lastValue)
open Zhir.Models

/-- A field that is not `null`. -/
def given (name : String) (v : Value) : Option Value :=
  (v.field name).filter fun w => w ≠ .null

def textIn (key : String) (v : Value) : Option String :=
  ((deltaOf v).bind (Value.field key)).bind asString

def texts (key : String) (chunks : List Value) : List String := chunks.filterMap (textIn key)

def finishReasons (chunks : List Value) : List Value :=
  chunks.filterMap fun v => (choiceOf v).bind (given "finish_reason")

def usages (chunks : List Value) : List Value := chunks.filterMap (given "usage")

def fragmentsAt (i : Nat) (calls : List Value) : List Value :=
  calls.filter fun fragment => callIndex fragment = some i

def ids (calls : List Value) : List Value := calls.filterMap (Value.field "id")

def names (calls : List Value) : List String := calls.filterMap nameOf

def arguments (calls : List Value) : List String := calls.map argumentsOf

/-- A chunk that reports no error, and whose message only comes by deltas. -/
structure Chunk (v : Value) : Prop where
  canonical : v.Canonical
  choice : ∀ choice, choiceOf v = some choice → choice.Canonical ∧ given "message" choice = none
  noError : reportsError v = false

private theorem lastField_of_ascending {fields : List (String × Value)} (h : Ascending fields)
    (name : String) :
    lastField fields name = (fields.lookup name).filter fun w => w ≠ .null := by
  have hmem : ∀ {w}, (name, w) ∈ fields.filter (fun f => f.2 ≠ .null) →
      fields.lookup name = some w ∧ w ≠ .null := by
    intro w hw
    obtain ⟨hfield, hnull⟩ := List.mem_filter.mp hw
    exact ⟨h.lookup_of_mem hfield, of_decide_eq_true hnull⟩
  unfold lastField
  cases hlast : lastValue name (fields.filter fun f => f.2 ≠ .null) with
  | some w =>
    obtain ⟨hlookup, hnull⟩ := hmem (mem_of_lastValue hlast)
    rw [hlookup, Option.filter_some_pos (by simpa using hnull)]
  | none =>
    cases hlookup : fields.lookup name with
    | none => rfl
    | some w =>
      by_cases hnull : w = .null
      · rw [hnull]
        rfl
      · have hw : (name, w) ∈ fields.filter fun f => f.2 ≠ .null :=
          List.mem_filter.mpr ⟨mem_of_lookup hlookup, by simpa using hnull⟩
        obtain ⟨v, hv⟩ := exists_lastValue hw
        cases hlast.symm.trans hv

private theorem lastField_of_canonical {v : Value} (h : v.Canonical) (name : String) :
    lastField ((asObject v).getD []) name = given name v := by
  obtain ⟨fields, rfl, hfields⟩ := h
  exact lastField_of_ascending hfields name

theorem getD_given (name : String) (v : Value) :
    (given name v).getD .null = (v.field name).getD .null := by
  unfold given
  cases v.field name with
  | none => rfl
  | some w =>
    by_cases h : w = .null
    · rw [h]
      rfl
    · rw [Option.filter_some_pos (by simpa using h)]

def extend (text : Option Value) (piece : String) : Option Value :=
  some (.string (((text.bind asString).getD "") ++ piece))

def extendAll (text : Option Value) (pieces : List String) : Option Value :=
  pieces.foldl extend text

private theorem extendAll_append (text : Option Value) (before after : List String) :
    extendAll text (before ++ after) = extendAll (extendAll text before) after :=
  List.foldl_append

theorem extendAll_string (text : String) (pieces : List String) :
    extendAll (some (.string text)) pieces = some (.string (text ++ String.join pieces)) := by
  induction pieces using List.reverseRecOn with
  | nil =>
    rw [String.join_nil, String.append_empty]
    rfl
  | append_singleton before piece ih =>
    rw [extendAll_append, ih, String.join_append]
    simp [extendAll, extend, asString, String.append_assoc]

theorem extendAll_none (pieces : List String) : extendAll none pieces =
    if pieces = [] then none else some (.string (String.join pieces)) := by
  cases pieces with
  | nil => rfl
  | cons piece rest =>
    have hrest := extendAll_string piece rest
    have hfirst : extendAll none (piece :: rest) = extendAll (some (.string piece)) rest := by
      simp [extendAll, extend]
    rw [hfirst, hrest, if_neg (List.cons_ne_nil _ _), String.join_cons]

/-- The accumulated value, its choice, and the message of that. -/
structure HasMessage (v choice message : Value) : Prop extends HasChoice v choice where
  choiceObject : choice.isObject = true
  slot : choice.field "message" = some message
  messageObject : message.isObject = true

section

variable {v choice message : Value}

private theorem HasMessage.exists_textOf (h : HasMessage v choice message) (delta : Value)
    (key : String) (report : String → ModelDelta) :
    ∃ v' choice' message' deltas, textOf delta key report v = .ok (v', deltas) ∧
      HasMessage v' choice' message' ∧
      (∀ name, name ≠ "choices" → v'.field name = v.field name) ∧
      (∀ name, name ≠ "message" → choice'.field name = choice.field name) ∧
      ∀ name, message'.field name = if name = key
        then extendAll (message.field key) ((delta.field key).bind asString).toList
        else message.field name := by
  unfold textOf
  cases htext : (delta.field key).bind asString with
  | none =>
    refine ⟨v, choice, message, [], rfl, h, fun _ _ => rfl, fun _ _ => rfl, fun name => ?_⟩
    split
    · rename_i hname
      rw [hname]
      rfl
    · rfl
  | some piece =>
    obtain ⟨message', happend⟩ :=
      exists_append (Value.indexable_of_isObject h.messageObject) key piece
    obtain ⟨-, hobject, hself, hother⟩ := append_ok happend
    cases hset : choice.modifyField "message" fun message => append message key piece with
    | error fault =>
      rw [Value.modifyField_error_iff, h.slot] at hset
      rcases hset with ⟨hbad, -⟩ | ⟨-, hset⟩
      · exact absurd (Value.indexable_of_isObject h.choiceObject) hbad
      · cases happend.symm.trans hset
    | ok choice' =>
      obtain ⟨-, w, hw, hchoiceObject, hfield⟩ := Value.modifyField_ok hset
      rw [h.slot] at hw
      cases happend.symm.trans hw
      obtain ⟨v', hv', hchoice', hkept⟩ := @HasChoice.exists_modify v choice
        (fun choice => choice.modifyField "message" fun message => append message key piece)
        h.toHasChoice choice' hset
      refine ⟨v', choice', message', [report piece], ?_,
        ⟨hchoice', hchoiceObject, (hfield "message").trans (if_pos rfl), hobject⟩, hkept,
        fun name hname => (hfield name).trans (if_neg hname), fun name => ?_⟩
      · change (modifyChoice v _ >>= _) = _
        rw [hv']
        rfl
      · by_cases hname : name = key
        · rw [if_pos hname, hname, hself]
          rfl
        · rw [if_neg hname, hother name hname]

end

/-- What has been read: the fields of these merged chunks, and the texts of the chunks whose
delta has been read. -/
structure Reads (merged read : List Value) (v choice message : Value) : Prop
    extends HasMessage v choice message where
  logprobs : ((choice.field "logprobs").getD .null).Indexable
  finishReason : choice.field "finish_reason" = (finishReasons merged).getLast?.or (some .null)
  toolCalls : message.field "tool_calls" = none
  content : message.field "content" = extendAll (some (.string "")) (texts "content" read)
  reasoning : message.field "reasoning_content" =
    extendAll none (texts "reasoning_content" read)
  usage : v.field "usage" = (usages merged).getLast?
  error : v.field "error" = none

private theorem exists_reads_new : ∃ choice message, Reads [] [] State.new.value choice message :=
  ⟨_, _, ⟨⟨rfl, rfl⟩, rfl, rfl, rfl⟩, trivial, rfl, rfl, rfl, rfl, rfl, rfl⟩

section

variable {chunks : List Value} {v chunk choice message : Value}

private theorem getLast?_filterMap_append (read : Value → Option Value) :
    ((chunks ++ [chunk]).filterMap read).getLast? =
      (read chunk).or (chunks.filterMap read).getLast? := by
  rw [List.filterMap_append, List.getLast?_append]
  cases h : read chunk <;> simp [h]

private theorem texts_append (key : String) :
    texts key (chunks ++ [chunk]) = texts key chunks ++ (textIn key chunk).toList := by
  unfold texts
  rw [List.filterMap_append]
  cases h : textIn key chunk <;> simp [h]

private theorem HasMessage.exists_text (h : HasMessage v choice message) (delta : Value) :
    ∃ v' choice' message' deltas, text delta v = .ok (v', deltas) ∧
      HasMessage v' choice' message' ∧
      (∀ name, name ≠ "choices" → v'.field name = v.field name) ∧
      (∀ name, name ≠ "message" → choice'.field name = choice.field name) ∧
      message'.field "tool_calls" = message.field "tool_calls" ∧
      message'.field "content" =
        extendAll (message.field "content") ((delta.field "content").bind asString).toList ∧
      message'.field "reasoning_content" = extendAll (message.field "reasoning_content")
        ((delta.field "reasoning_content").bind asString).toList := by
  obtain ⟨v₁, choice₁, message₁, contents, htext₁, h₁, hv₁, hchoice₁, hmessage₁⟩ :=
    h.exists_textOf delta "content" (.text 0)
  obtain ⟨v₂, choice₂, message₂, reasoning, htext₂, h₂, hv₂, hchoice₂, hmessage₂⟩ :=
    h₁.exists_textOf delta "reasoning_content" (.reasoning 0)
  refine ⟨v₂, choice₂, message₂, contents ++ reasoning, ?_, h₂,
    fun name hname => (hv₂ name hname).trans (hv₁ name hname),
    fun name hname => (hchoice₂ name hname).trans (hchoice₁ name hname), ?_, ?_, ?_⟩
  · unfold text
    rw [htext₁]
    change (textOf delta "reasoning_content" (.reasoning 0) v₁ >>= _) = _
    rw [htext₂]
    rfl
  · rw [hmessage₂, if_neg (by decide), hmessage₁, if_neg (by decide)]
  · rw [hmessage₂, if_neg (by decide), hmessage₁, if_pos rfl]
  · rw [hmessage₂, if_pos rfl, hmessage₁, if_neg (by decide)]

private theorem Chunk.given_error (h : Chunk v) : given "error" v = none := by
  have herror := h.noError
  unfold reportsError at herror
  rw [Bool.or_eq_false_iff] at herror
  unfold given
  cases hfield : v.field "error" with
  | none => rfl
  | some e =>
    rw [hfield] at herror
    exact Option.filter_some_neg herror.1

private theorem Reads.exists_merge (h : Reads chunks chunks v choice message)
    (hchunk : Chunk chunk) :
    ∃ copied v' choice', copyFields v chunk ["choices"] = .ok copied ∧
      mergeFrame copied chunk = .ok v' ∧ Reads (chunks ++ [chunk]) chunks v' choice' message := by
  obtain ⟨copied, hcopied, hobject, hfield⟩ := exists_copyFields h.isObject chunk ["choices"]
  have hcopiedChoice : HasChoice copied choice := by
    refine ⟨hobject, ?_⟩
    rw [hfield, if_pos (List.mem_singleton_self _)]
    exact h.choices
  have husage : copied.field "usage" = (usages (chunks ++ [chunk])).getLast? := by
    unfold usages
    rw [hfield, if_neg (by decide), lastField_of_canonical hchunk.canonical,
      getLast?_filterMap_append, h.usage]
    rfl
  have herror : copied.field "error" = none := by
    rw [hfield, if_neg (by decide), lastField_of_canonical hchunk.canonical, h.error,
      hchunk.given_error]
    rfl
  have hreasons : (finishReasons (chunks ++ [chunk])).getLast? =
      ((choiceOf chunk).bind (given "finish_reason")).or (finishReasons chunks).getLast? :=
    getLast?_filterMap_append fun v => (choiceOf v).bind (given "finish_reason")
  unfold mergeFrame
  cases hchoice : choiceOf chunk with
  | none =>
    rw [hchoice] at hreasons
    refine ⟨copied, copied, choice, hcopied, rfl,
      ⟨hcopiedChoice, h.choiceObject, h.slot, h.messageObject⟩, h.logprobs, ?_, h.toolCalls,
      h.content, h.reasoning, husage, herror⟩
    rw [h.finishReason, hreasons]
    rfl
  | some brought =>
    rw [hchoice] at hreasons
    obtain ⟨hcanonical, hmessage⟩ := hchunk.choice brought hchoice
    obtain ⟨v', choice', hv', hchoice', hobject', hlogprobs, hmerged, hkept⟩ :=
      hcopiedChoice.exists_mergeChoice h.choiceObject h.logprobs brought
    have hslot : choice'.field "message" = some message := by
      rw [hmerged _ (by decide) (by decide), lastField_of_canonical hcanonical, hmessage, h.slot]
      rfl
    refine ⟨copied, v', choice', hcopied, hv', ⟨hchoice', hobject', hslot, h.messageObject⟩,
      hlogprobs, ?_, h.toolCalls, h.content, h.reasoning, ?_, ?_⟩
    · rw [hmerged _ (by decide) (by decide), lastField_of_canonical hcanonical,
        h.finishReason, hreasons, Option.or_assoc]
      rfl
    · rw [hkept _ (by decide)]
      exact husage
    · rw [hkept _ (by decide)]
      exact herror

private theorem Reads.exists_text (h : Reads (chunks ++ [chunk]) chunks v choice message)
    {delta : Value}
    (hdelta : deltaOf chunk = some delta) :
    ∃ v' choice' message' deltas, text delta v = .ok (v', deltas) ∧
      Reads (chunks ++ [chunk]) (chunks ++ [chunk]) v' choice' message' := by
  obtain ⟨v', choice', message', deltas, htext, hmessage, hv, hchoice, hcalls, hcontent,
    hreasoning⟩ := h.toHasMessage.exists_text delta
  have htextIn : ∀ key, textIn key chunk = (delta.field key).bind asString := by
    intro key
    unfold textIn
    rw [hdelta]
    rfl
  refine ⟨v', choice', message', deltas, htext, hmessage, ?_, ?_, ?_, ?_, ?_, ?_, ?_⟩
  · rw [hchoice _ (by decide)]
    exact h.logprobs
  · rw [hchoice _ (by decide)]
    exact h.finishReason
  · rw [hcalls]
    exact h.toolCalls
  · rw [hcontent, texts_append, extendAll_append, htextIn, h.content]
  · rw [hreasoning, texts_append, extendAll_append, htextIn, h.reasoning]
  · rw [hv _ (by decide)]
    exact h.usage
  · rw [hv _ (by decide)]
    exact h.error

private theorem Reads.of_no_delta (h : Reads (chunks ++ [chunk]) chunks v choice message)
    (hdelta : deltaOf chunk = none) :
    Reads (chunks ++ [chunk]) (chunks ++ [chunk]) v choice message := by
  have htexts : ∀ key, texts key (chunks ++ [chunk]) = texts key chunks := by
    intro key
    rw [texts_append]
    unfold textIn
    rw [hdelta]
    exact List.append_nil _
  refine ⟨h.toHasMessage, h.logprobs, h.finishReason, h.toolCalls, ?_, ?_, h.usage, h.error⟩
  · rw [htexts]
    exact h.content
  · rw [htexts]
    exact h.reasoning

end

structure Gathered (own : List Value) (entry : Value) : Prop where
  isObject : entry.isObject = true
  id : entry.field "id" = (ids own).getLast?
  exists_function : ∃ function, entry.field "function" = some function ∧
    function.isObject = true ∧
    function.field "name" = extendAll (some (.string "")) (names own) ∧
    function.field "arguments" = extendAll (some (.string "")) (arguments own)

def Gathers (calls : List Value) (m : ExtTreeMap Nat Value) : Prop :=
  ∀ i : Nat, (m[i]? = none ∧ fragmentsAt i calls = []) ∨
    ∃ entry, m[i]? = some entry ∧ fragmentsAt i calls ≠ [] ∧
      Gathered (fragmentsAt i calls) entry

private theorem gathered_emptyCall : Gathered [] emptyCall := ⟨rfl, rfl, _, rfl, rfl, rfl, rfl⟩

private theorem gathers_empty : Gathers [] ∅ := fun _ => .inl ⟨by simp, rfl⟩

section

variable {own before : List Value} {entry fragment : Value} {m : ExtTreeMap Nat Value}

private theorem ids_append : (ids (own ++ [fragment])).getLast? =
    (fragment.field "id").or (ids own).getLast? := getLast?_filterMap_append (Value.field "id")

private theorem names_append : names (own ++ [fragment]) = names own ++
    (nameOf fragment).toList := by
  unfold names
  rw [List.filterMap_append]
  cases h : nameOf fragment <;> simp [h]

private theorem arguments_append : arguments (own ++ [fragment]) =
    arguments own ++ [argumentsOf fragment] := List.map_append

private theorem exists_appendFunction {function : Value} (hentry : entry.isObject = true)
    (hslot : entry.field "function" = some function) (hfunction : function.isObject = true)
    (key piece : String) :
    ∃ entry' function', (entry.modifyField "function" fun function =>
        append function key piece) = .ok entry' ∧ entry'.isObject = true ∧
      entry'.field "function" = some function' ∧ function'.isObject = true ∧
      function'.field key = extend (function.field key) piece ∧
      (∀ name, name ≠ key → function'.field name = function.field name) ∧
      ∀ name, name ≠ "function" → entry'.field name = entry.field name := by
  obtain ⟨function', happend⟩ := exists_append (Value.indexable_of_isObject hfunction) key piece
  obtain ⟨-, hobject, hself, hother⟩ := append_ok happend
  cases hset : entry.modifyField "function" fun function => append function key piece with
  | error fault =>
    rw [Value.modifyField_error_iff, hslot] at hset
    rcases hset with ⟨hbad, -⟩ | ⟨-, hset⟩
    · exact absurd (Value.indexable_of_isObject hentry) hbad
    · cases happend.symm.trans hset
  | ok entry' =>
    obtain ⟨-, w, hw, hentryObject, hfield⟩ := Value.modifyField_ok hset
    rw [hslot] at hw
    cases happend.symm.trans hw
    exact ⟨entry', function', rfl, hentryObject, (hfield "function").trans (if_pos rfl), hobject,
      hself, hother, fun name hname => (hfield name).trans (if_neg hname)⟩

theorem Gathered.exists_extend (h : Gathered own entry) (fragment : Value) :
    ∃ entry', extendCall entry fragment = .ok entry' ∧ Gathered (own ++ [fragment]) entry' := by
  obtain ⟨function, hslot, hfunction, hname, harguments⟩ := h.exists_function
  have hid : ∃ entry₁, setId entry (fragment.field "id") = .ok entry₁ ∧
      entry₁.isObject = true ∧ entry₁.field "id" = (ids (own ++ [fragment])).getLast? ∧
      entry₁.field "function" = some function := by
    rw [ids_append]
    cases hid : fragment.field "id" with
    | none => exact ⟨entry, rfl, h.isObject, h.id, hslot⟩
    | some id =>
      obtain ⟨entry₁, hset, hobject, hfield⟩ :=
        Value.exists_assign (Value.indexable_of_isObject h.isObject) "id" id
      refine ⟨entry₁, hset, hobject, (hfield "id").trans (if_pos rfl), ?_⟩
      rw [hfield, if_neg (by decide)]
      exact hslot
  obtain ⟨entry₁, hset, hobject₁, hid₁, hslot₁⟩ := hid
  have hnamed : ∃ entry₂ function₂, addName entry₁ (nameOf fragment) = .ok entry₂ ∧
      entry₂.isObject = true ∧ entry₂.field "id" = (ids (own ++ [fragment])).getLast? ∧
      entry₂.field "function" = some function₂ ∧ function₂.isObject = true ∧
      function₂.field "name" = extendAll (some (.string "")) (names (own ++ [fragment])) ∧
      function₂.field "arguments" = extendAll (some (.string "")) (arguments own) := by
    rw [names_append, extendAll_append, ← hname]
    cases hname : nameOf fragment with
    | none => exact ⟨entry₁, function, rfl, hobject₁, hid₁, hslot₁, hfunction, rfl, harguments⟩
    | some name =>
      obtain ⟨entry₂, function₂, hadd, hobject₂, hslot₂, hfunction₂, hself, hother, hkept⟩ :=
        exists_appendFunction hobject₁ hslot₁ hfunction "name" name
      refine ⟨entry₂, function₂, hadd, hobject₂, ?_, hslot₂, hfunction₂, hself, ?_⟩
      · rw [hkept _ (by decide)]
        exact hid₁
      · rw [hother _ (by decide)]
        exact harguments
  obtain ⟨entry₂, function₂, hadd, hobject₂, hid₂, hslot₂, hfunction₂, hname₂, harguments₂⟩ :=
    hnamed
  obtain ⟨entry₃, function₃, hlast, hobject₃, hslot₃, hfunction₃, hself, hother, hkept⟩ :=
    exists_appendFunction hobject₂ hslot₂ hfunction₂ "arguments" (argumentsOf fragment)
  refine ⟨entry₃, ?_, hobject₃, ?_, function₃, hslot₃, hfunction₃, ?_, ?_⟩
  · unfold extendCall
    rw [hset]
    change (addName entry₁ (nameOf fragment) >>= _) = _
    rw [hadd]
    exact hlast
  · rw [hkept _ (by decide)]
    exact hid₂
  · rw [hother _ (by decide)]
    exact hname₂
  · rw [hself, harguments₂, arguments_append, extendAll_append]
    rfl

private theorem fragmentsAt_append_self {i : Nat} (h : callIndex fragment = some i) :
    fragmentsAt i (before ++ [fragment]) = fragmentsAt i before ++ [fragment] := by
  simp [fragmentsAt, h]

private theorem fragmentsAt_append_of_ne {i j : Nat} (h : callIndex fragment = some i)
    (hne : j ≠ i) :
    fragmentsAt j (before ++ [fragment]) = fragmentsAt j before := by
  simp [fragmentsAt, h, Ne.symm hne]

private theorem Gathers.exists_call (h : Gathers before m) (overflowChecks : Bool) {i : Nat}
    (hindex : callIndex fragment = some i) (hlt : i < maxU64) :
    ∃ m' delta, call overflowChecks fragment m = .ok (m', delta) ∧
      Gathers (before ++ [fragment]) m' := by
  have hentry : Gathered (fragmentsAt i before) (m[i]?.getD emptyCall) := by
    rcases h i with ⟨hnone, hfree⟩ | ⟨entry, hsome, -, hgathered⟩
    · rw [hnone, hfree]
      exact gathered_emptyCall
    · rw [hsome]
      exact hgathered
  obtain ⟨entry, hextend, hgathered⟩ := hentry.exists_extend fragment
  refine ⟨m.insert i entry, .runtimeTool (i + 1) ((fragment.field "id").bind asString)
    (nameOf fragment) (argumentsOf fragment), ?_, fun j => ?_⟩
  · unfold call
    rw [hindex]
    change (extendCall (m[i]?.getD emptyCall) fragment >>= _) = _
    rw [hextend]
    change (nextIndex overflowChecks i >>= _) = _
    unfold nextIndex
    rw [if_pos hlt]
    rfl
  · rw [ExtTreeMap.getElem?_insert]
    by_cases hj : j = i
    · subst hj
      rw [if_pos (by simp), fragmentsAt_append_self hindex]
      exact .inr ⟨entry, rfl, List.append_ne_nil_of_right_ne_nil _ (List.cons_ne_nil _ _),
        hgathered⟩
    · rw [if_neg (by simpa using Ne.symm hj), fragmentsAt_append_of_ne hindex hj]
      exact h j

def Indexed (calls : List Value) : Prop :=
  ∀ fragment ∈ calls, ∃ i, callIndex fragment = some i ∧ i < maxU64

private theorem Gathers.exists_addCalls {calls : List Value} (h : Gathers before m)
    (overflowChecks : Bool) (hindexed : Indexed calls) :
    ∃ m' deltas, addCalls overflowChecks calls m = .ok (m', deltas) ∧
      Gathers (before ++ calls) m' := by
  induction calls generalizing before m with
  | nil =>
    refine ⟨m, [], rfl, ?_⟩
    rw [List.append_nil]
    exact h
  | cons fragment rest ih =>
    obtain ⟨i, hi, hlt⟩ := hindexed fragment List.mem_cons_self
    obtain ⟨m₁, delta, hcall, h₁⟩ := h.exists_call overflowChecks hi hlt
    obtain ⟨m₂, deltas, hrest, h₂⟩ := ih h₁ fun f hf => hindexed f (List.mem_cons_of_mem _ hf)
    refine ⟨m₂, delta :: deltas, ?_, ?_⟩
    · unfold addCalls
      rw [hcall]
      change (addCalls overflowChecks rest m₁ >>= _) = _
      rw [hrest]
      rfl
    · rw [List.append_assoc] at h₂
      exact h₂

end

structure After (chunks : List Value) (s : State) : Prop where
  value : ∃ choice message, Reads chunks chunks s.value choice message
  calls : Gathers (chunks.flatMap fragments) s.calls

theorem after_new : After [] State.new := ⟨exists_reads_new, gathers_empty⟩

section

variable {chunks : List Value} {chunk : Value} {s : State}

theorem After.exists_push (h : After chunks s) (overflowChecks : Bool) (hchunk : Chunk chunk)
    (hindexed : Indexed (fragments chunk)) :
    ∃ s' deltas, State.push overflowChecks chunk s = .ok (s', deltas) ∧
      After (chunks ++ [chunk]) s' := by
  obtain ⟨choice, message, hreads⟩ := h.value
  obtain ⟨copied, value, choice', hcopied, hmerged, hmergedReads⟩ := hreads.exists_merge hchunk
  have hfragments : (chunks ++ [chunk]).flatMap fragments =
      chunks.flatMap fragments ++ fragments chunk := by
    rw [List.flatMap_append, List.flatMap_cons, List.flatMap_nil, List.append_nil]
  rw [push_eq_pushRest hcopied hmerged]
  unfold State.pushRest
  cases hdelta : deltaOf chunk with
  | none =>
    have hnone : fragments chunk = [] := by
      unfold fragments
      rw [hdelta]
      rfl
    refine ⟨{ s with value }, _, rfl, ⟨choice', message, hmergedReads.of_no_delta hdelta⟩, ?_⟩
    rw [hfragments, hnone, List.append_nil]
    exact h.calls
  | some delta =>
    have hcalls : fragments chunk = ((delta.field "tool_calls").bind asArray).getD [] := by
      unfold fragments
      rw [hdelta]
      rfl
    obtain ⟨v', choice'', message', contents, htext, hread⟩ := hmergedReads.exists_text hdelta
    obtain ⟨m', deltas, hadd, hgathers⟩ := h.calls.exists_addCalls overflowChecks hindexed
    refine ⟨{ s with value := v', calls := m' }, usageDelta chunk ++ (contents ++ deltas), ?_,
      ⟨choice'', message', hread⟩, ?_⟩
    · change (State.pushDelta overflowChecks { s with value } delta).map _ = _
      unfold State.pushDelta
      change ((text delta value >>= _).map _) = _
      rw [htext]
      change ((addCalls overflowChecks _ s.calls >>= _).map _) = _
      rw [← hcalls, hadd]
      rfl
    · rw [hfragments]
      exact hgathers

end

end Zhir.Streaming.Chat
