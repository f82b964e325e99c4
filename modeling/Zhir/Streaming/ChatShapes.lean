import Zhir.Streaming.Chat

/-!
Which Chat frames panic: text for a message that an earlier choice replaced by something that
is no object, and a call whose index has no successor.
-/

set_option autoImplicit false
set_option relaxedAutoImplicit false

namespace Zhir.Streaming.Chat

open Std (ExtTreeMap)
open Zhir.Core
open Zhir.Models

def choiceOf (v : Value) : Option Value := v.pointer ["choices", "0"]

def deltaOf (v : Value) : Option Value := (choiceOf v).bind (Value.field "delta")

def fragments (v : Value) : List Value :=
  (((deltaOf v).bind (Value.field "tool_calls")).bind asArray).getD []

def CarriesText (v : Value) : Prop :=
  ∃ key, (key = "content" ∨ key = "reasoning_content") ∧
    (((deltaOf v).bind (Value.field key)).bind asString).isSome

def messageOf (v : Value) : Option Value :=
  (choiceOf v).bind fun choice => lastField ((asObject choice).getD []) "message"

/-- The message that texts are added to after some frames, as it was brought. -/
def standingMessage (history : List Value) : Value :=
  ((history.filterMap messageOf).getLast?).getD (.object [])

def Overflows (calls : List Value) : Prop :=
  ∃ before call after, calls = before ++ call :: after ∧
    (∀ c ∈ before, (callIndex c).isSome) ∧ ∃ i, callIndex call = some i ∧ maxU64 ≤ i

def Panics (overflowChecks : Bool) (history : List Value) (v : Value) : Prop :=
  (CarriesText v ∧ ¬ (standingMessage (history ++ [v])).Indexable) ∨
    (overflowChecks = true ∧ Overflows (fragments v))

/-- The response panics: calls are to be put into the message. -/
def PanicsAtEnd (history : List Value) : Prop :=
  (∃ v ∈ history, fragments v ≠ []) ∧ ¬ (standingMessage history).Indexable

structure HasChoice (v choice : Value) : Prop where
  isObject : v.isObject = true
  choices : v.field "choices" = some (.array [choice])

section

variable {v v' choice : Value} {change : Value → Checked Value} {fault : Fault}

private theorem modifyItem_singleton (x : Value) (change : Value → Checked Value) :
    (Value.array [x]).modifyItem 0 change = (change x).map fun w => .array [w] := by
  simp only [Value.modifyItem, List.getElem?_cons_zero]
  cases change x <;> rfl

private theorem HasChoice.modify_ok (h : HasChoice v choice)
    (hok : modifyChoice v change = .ok v') :
    ∃ choice', change choice = .ok choice' ∧ HasChoice v' choice' := by
  obtain ⟨-, w, hw, hobject, hfield⟩ := Value.modifyField_ok hok
  rw [h.choices, Option.getD_some, modifyItem_singleton] at hw
  cases hchange : change choice with
  | error fault =>
    rw [hchange] at hw
    cases hw
  | ok choice' =>
    rw [hchange] at hw
    cases hw
    exact ⟨choice', rfl, hobject, (hfield "choices").trans (if_pos rfl)⟩

private theorem HasChoice.modify_error_iff (h : HasChoice v choice) :
    modifyChoice v change = .error fault ↔ change choice = .error fault := by
  unfold modifyChoice
  rw [Value.modifyField_error_iff, h.choices, Option.getD_some, modifyItem_singleton]
  have hindex := Value.indexable_of_isObject h.isObject
  cases change choice <;> simp [hindex, Except.map]

theorem HasChoice.exists_modify (h : HasChoice v choice) {choice' : Value}
    (hchange : change choice = .ok choice') :
    ∃ v', modifyChoice v change = .ok v' ∧ HasChoice v' choice' ∧
      ∀ name, name ≠ "choices" → v'.field name = v.field name := by
  cases hmodify : modifyChoice v change with
  | error fault => cases hchange.symm.trans (h.modify_error_iff.mp hmodify)
  | ok v' =>
    obtain ⟨choice'', hchange', hchoice⟩ := h.modify_ok hmodify
    cases hchange.symm.trans hchange'
    obtain ⟨-, w, -, -, hfield⟩ := Value.modifyField_ok hmodify
    exact ⟨v', rfl, hchoice, fun name hname => (hfield name).trans (if_neg hname)⟩

end

private theorem exists_openTokens {target : Value} (h : target.Indexable) (key : String) :
    ∃ v tokens, openTokens target key = .ok v ∧ v.Indexable ∧
      v.field key = some (.array tokens) := by
  unfold openTokens
  by_cases harray : (target.field key).any isArray = true
  · rw [if_pos harray]
    cases hslot : target.field key with
    | none =>
      rw [hslot] at harray
      cases harray
    | some slot =>
      rw [hslot] at harray
      cases slot with
      | array tokens => exact ⟨target, tokens, rfl, h, hslot⟩
      | _ => cases harray
  · rw [if_neg harray]
    obtain ⟨v, hv, hobject, hfield⟩ := Value.exists_assign h key (.array [])
    exact ⟨v, [], hv, Value.indexable_of_isObject hobject, (hfield key).trans (if_pos rfl)⟩

private theorem exists_mergeLogprob {target : Value} (h : target.Indexable) (f : String × Value) :
    ∃ v, mergeLogprob target f = .ok v ∧ v.Indexable := by
  obtain ⟨name, w⟩ := f
  cases w with
  | array tokens =>
    obtain ⟨v, before, hv, hindex, hslot⟩ := exists_openTokens h name
    change ∃ v', (openTokens target name >>= _) = .ok v' ∧ _
    rw [hv]
    change ∃ v', v.modifyField name (extendTokens tokens) = .ok v' ∧ _
    cases hset : v.modifyField name (extendTokens tokens) with
    | error fault =>
      rw [Value.modifyField_error_iff, hslot] at hset
      rcases hset with ⟨hbad, -⟩ | ⟨-, hset⟩
      · exact absurd hindex hbad
      · cases hset
    | ok v' =>
      obtain ⟨-, w, -, hobject, -⟩ := Value.modifyField_ok hset
      exact ⟨v', rfl, Value.indexable_of_isObject hobject⟩
  | null => exact ⟨target, rfl, h⟩
  | _ =>
    obtain ⟨v, hv, hobject, -⟩ := Value.exists_assign h name _
    exact ⟨v, hv, Value.indexable_of_isObject hobject⟩

private theorem exists_mergeLogprobs {target : Value} (h : target.Indexable) (source : Value) :
    ∃ v, mergeLogprobs target source = .ok v ∧ v.Indexable := by
  cases source with
  | object fields =>
    change ∃ v, fields.foldlM mergeLogprob target = .ok v ∧ v.Indexable
    induction fields generalizing target with
    | nil => exact ⟨target, rfl, h⟩
    | cons f rest ih =>
      obtain ⟨t, ht, hindex⟩ := exists_mergeLogprob h f
      rw [List.foldlM_cons, ht]
      exact ih hindex
  | _ => exact ⟨target, rfl, h⟩

theorem HasChoice.exists_mergeChoice {v target : Value} (h : HasChoice v target)
    (hobject : target.isObject = true)
    (hlogprobs : ((target.field "logprobs").getD .null).Indexable) (choice : Value) :
    ∃ v' target', mergeChoice v choice = .ok v' ∧ HasChoice v' target' ∧
      target'.isObject = true ∧ ((target'.field "logprobs").getD .null).Indexable ∧
      (∀ name, name ≠ "delta" → name ≠ "logprobs" → target'.field name =
        (lastField ((asObject choice).getD []) name).or (target.field name)) ∧
      ∀ name, name ≠ "choices" → v'.field name = v.field name := by
  obtain ⟨copied, hcopied, hcopiedObject, hfield⟩ :=
    exists_copyFields hobject choice ["delta", "logprobs"]
  obtain ⟨v₁, hv₁, hchoice₁, hkept₁⟩ := @HasChoice.exists_modify v target
    (fun target => copyFields target choice ["delta", "logprobs"]) h copied hcopied
  have hcopiedField : ∀ name, name ≠ "delta" → name ≠ "logprobs" → copied.field name =
      (lastField ((asObject choice).getD []) name).or (target.field name) := by
    intro name hdelta hlog
    rw [hfield, if_neg (by simp [hdelta, hlog])]
  have hlogprobs₁ : ((copied.field "logprobs").getD .null).Indexable := by
    rw [hfield, if_pos (by decide)]
    exact hlogprobs
  have hmerge : mergeChoice v choice = addLogprobs v₁ (logprobs choice) := by
    unfold mergeChoice
    rw [hv₁]
    rfl
  rw [hmerge]
  cases hsource : logprobs choice with
  | none => exact ⟨v₁, copied, rfl, hchoice₁, hcopiedObject, hlogprobs₁, hcopiedField, hkept₁⟩
  | some source =>
    obtain ⟨merged, hmerged, hmergedIndex⟩ := exists_mergeLogprobs hlogprobs₁ source
    cases hset : copied.modifyField "logprobs" fun target => mergeLogprobs target source with
    | error fault =>
      rw [Value.modifyField_error_iff] at hset
      rcases hset with ⟨hbad, -⟩ | ⟨-, hset⟩
      · exact absurd (Value.indexable_of_isObject hcopiedObject) hbad
      · cases hmerged.symm.trans hset
    | ok kept =>
      obtain ⟨-, w, hw, hkeptObject, hkept⟩ := Value.modifyField_ok hset
      cases hmerged.symm.trans hw
      obtain ⟨v₂, hv₂, hchoice₂, hkept₂⟩ := @HasChoice.exists_modify v₁ copied
        (fun choice => choice.modifyField "logprobs"
          fun target => mergeLogprobs target source) hchoice₁ kept hset
      refine ⟨v₂, kept, hv₂, hchoice₂, hkeptObject, ?_, fun name hdelta hlog => ?_,
        fun name hname => ?_⟩
      · rw [hkept, if_pos rfl]
        exact hmergedIndex
      · rw [hkept, if_neg hlog]
        exact hcopiedField name hdelta hlog
      · exact (hkept₂ name hname).trans (hkept₁ name hname)

structure Shaped (v message : Value) : Prop where
  exists_choice : ∃ choice, HasChoice v choice ∧ choice.isObject = true ∧
    (((choice.field "message").getD .null).Indexable ↔ message.Indexable) ∧
    ((choice.field "logprobs").getD .null).Indexable

section

variable {v v' message choice delta frame : Value} {fault : Fault} {key : String}
  {report : String → ModelDelta} {deltas : List ModelDelta}

private theorem Shaped.exists_copy (h : Shaped v message) (frame : Value) :
    ∃ v', copyFields v frame ["choices"] = .ok v' ∧ Shaped v' message := by
  obtain ⟨choice, hchoice, hrest⟩ := h.exists_choice
  obtain ⟨v', hv', hobject, hfield⟩ := exists_copyFields hchoice.isObject frame ["choices"]
  refine ⟨v', hv', choice, ⟨hobject, ?_⟩, hrest⟩
  rw [hfield, if_pos (List.mem_singleton_self _)]
  exact hchoice.choices

theorem Shaped.exists_mergeChoice (h : Shaped v message) (choice : Value) :
    ∃ v', mergeChoice v choice = .ok v' ∧
      Shaped v' ((lastField ((asObject choice).getD []) "message").getD message) := by
  obtain ⟨target, htarget, hobject, hmessage, hlogprobs⟩ := h.exists_choice
  obtain ⟨v', target', hv', htarget', hobject', hlogprobs', hfield, -⟩ :=
    htarget.exists_mergeChoice hobject hlogprobs choice
  refine ⟨v', hv', target', htarget', hobject', ?_, hlogprobs'⟩
  rw [hfield "message" (by decide) (by decide)]
  cases lastField ((asObject choice).getD []) "message" with
  | none => exact hmessage
  | some m => exact Iff.rfl

private theorem Shaped.textOf_error_iff (h : Shaped v message) :
    textOf delta key report v = .error fault ↔
      ((delta.field key).bind asString).isSome ∧ ¬ message.Indexable ∧ fault = .panic := by
  obtain ⟨choice, hchoice, hobject, hmessage, -⟩ := h.exists_choice
  unfold textOf
  cases (delta.field key).bind asString with
  | none => simp
  | some text =>
    have herror : (modifyChoice v fun choice =>
        choice.modifyField "message" fun message => append message key text) = .error fault ↔
        ¬ message.Indexable ∧ fault = .panic := by
      rw [hchoice.modify_error_iff, Value.modifyField_error_iff, append_error_iff, hmessage]
      simp [Value.indexable_of_isObject hobject]
    change (_ >>= _) = _ ↔ _
    rw [Option.isSome_some, ← herror]
    cases modifyChoice v _ <;> simp [bind, Except.bind, pure, Except.pure]

theorem Shaped.textOf_ok (h : Shaped v message)
    (hok : textOf delta key report v = .ok (v', deltas)) : Shaped v' message := by
  obtain ⟨choice, hchoice, hobject, hmessage, hlogprobs⟩ := h.exists_choice
  unfold textOf at hok
  cases htext : (delta.field key).bind asString with
  | none =>
    rw [htext] at hok
    cases hok
    exact h
  | some text =>
    rw [htext] at hok
    obtain ⟨v₁, hv₁, hok⟩ := Checked.bind_ok hok
    cases hok
    obtain ⟨choice', hset, hchoice'⟩ := hchoice.modify_ok hv₁
    obtain ⟨-, w, hw, hobject', hfield⟩ := Value.modifyField_ok hset
    obtain ⟨hindex, hwObject, -⟩ := append_ok hw
    refine ⟨choice', hchoice', hobject', ?_, ?_⟩
    · rw [hfield, if_pos rfl]
      exact iff_of_true (Value.indexable_of_isObject hwObject) (hmessage.mp hindex)
    · rw [hfield, if_neg (by decide)]
      exact hlogprobs

private theorem Shaped.text_error_iff (h : Shaped v message) :
    text delta v = .error fault ↔
      (∃ key, (key = "content" ∨ key = "reasoning_content") ∧
        ((delta.field key).bind asString).isSome) ∧ ¬ message.Indexable ∧ fault = .panic := by
  unfold text
  cases hcontent : textOf delta "content" (.text 0) v with
  | error fault' =>
    obtain ⟨hsome, hbad, rfl⟩ := h.textOf_error_iff.mp hcontent
    constructor
    · intro herror
      cases herror
      exact ⟨⟨"content", .inl rfl, hsome⟩, hbad, rfl⟩
    · rintro ⟨-, -, rfl⟩
      rfl
  | ok next =>
    obtain ⟨v₁, contents⟩ := next
    have h₁ := h.textOf_ok hcontent
    cases hreasoning : textOf delta "reasoning_content" (.reasoning 0) v₁ with
    | error fault' =>
      obtain ⟨hsome, hbad, rfl⟩ := h₁.textOf_error_iff.mp hreasoning
      change (textOf delta "reasoning_content" (.reasoning 0) v₁ >>= _) = _ ↔ _
      rw [hreasoning]
      constructor
      · intro herror
        cases herror
        exact ⟨⟨"reasoning_content", .inr rfl, hsome⟩, hbad, rfl⟩
      · rintro ⟨-, -, rfl⟩
        rfl
    | ok last =>
      change (textOf delta "reasoning_content" (.reasoning 0) v₁ >>= _) = _ ↔ _
      rw [hreasoning]
      constructor
      · intro herror
        cases herror
      · rintro ⟨⟨key, rfl | rfl, hsome⟩, hbad, rfl⟩
        · cases hcontent.symm.trans (h.textOf_error_iff.mpr ⟨hsome, hbad, rfl⟩)
        · cases hreasoning.symm.trans (h₁.textOf_error_iff.mpr ⟨hsome, hbad, rfl⟩)

private theorem Shaped.text_ok (h : Shaped v message) (hok : text delta v = .ok (v', deltas)) :
    Shaped v' message := by
  obtain ⟨⟨v₁, contents⟩, hcontent, hok⟩ := Checked.bind_ok hok
  obtain ⟨⟨v₂, reasoning⟩, hreasoning, hok⟩ := Checked.bind_ok hok
  cases hok
  exact (h.textOf_ok hcontent).textOf_ok hreasoning

end

structure CallShaped (entry : Value) : Prop where
  isObject : entry.isObject = true
  function : ∃ function, entry.field "function" = some function ∧ function.isObject = true

def CallsShaped (calls : ExtTreeMap Nat Value) : Prop :=
  ∀ (i : Nat) (entry : Value), calls[i]? = some entry → CallShaped entry

private theorem callShaped_emptyCall : CallShaped emptyCall := ⟨rfl, _, rfl, rfl⟩

theorem CallShaped.exists_append {entry : Value} (h : CallShaped entry) (key text : String) :
    ∃ v, (entry.modifyField "function" fun function => append function key text) = .ok v ∧
      CallShaped v := by
  obtain ⟨function, hfunction, hobject⟩ := h.function
  cases hset : entry.modifyField "function" fun function => append function key text with
  | error fault =>
    rw [Value.modifyField_error_iff, hfunction, Option.getD_some, append_error_iff] at hset
    rcases hset with ⟨hbad, -⟩ | ⟨-, hbad, -⟩
    · exact absurd (Value.indexable_of_isObject h.isObject) hbad
    · exact absurd (Value.indexable_of_isObject hobject) hbad
  | ok v =>
    obtain ⟨-, w, hw, hvObject, hfield⟩ := Value.modifyField_ok hset
    exact ⟨v, rfl, hvObject, w, (hfield "function").trans (if_pos rfl), (append_ok hw).2.1⟩

private theorem CallShaped.exists_setId {entry : Value} (h : CallShaped entry) (id : Option Value) :
    ∃ v, setId entry id = .ok v ∧ CallShaped v := by
  cases id with
  | none => exact ⟨entry, rfl, h⟩
  | some id =>
    obtain ⟨v, hv, hobject, hfield⟩ :=
      Value.exists_assign (Value.indexable_of_isObject h.isObject) "id" id
    refine ⟨v, hv, hobject, ?_⟩
    rw [hfield, if_neg (by decide)]
    exact h.function

private theorem CallShaped.exists_addName {entry : Value} (h : CallShaped entry)
    (name : Option String) :
    ∃ v, addName entry name = .ok v ∧ CallShaped v := by
  cases name with
  | none => exact ⟨entry, rfl, h⟩
  | some name => exact h.exists_append "name" name

theorem CallShaped.exists_extend {entry : Value} (h : CallShaped entry) (fragment : Value) :
    ∃ v, extendCall entry fragment = .ok v ∧ CallShaped v := by
  obtain ⟨v₁, hv₁, h₁⟩ := h.exists_setId (fragment.field "id")
  obtain ⟨v₂, hv₂, h₂⟩ := h₁.exists_addName (nameOf fragment)
  obtain ⟨v₃, hv₃, h₃⟩ := h₂.exists_append "arguments" (argumentsOf fragment)
  refine ⟨v₃, ?_, h₃⟩
  unfold extendCall
  rw [hv₁]
  change (addName v₁ (nameOf fragment) >>= _) = _
  rw [hv₂]
  exact hv₃

section

variable {overflowChecks : Bool} {calls calls' : ExtTreeMap Nat Value} {fragment : Value}
  {rest : List Value} {deltas : List ModelDelta} {delta : ModelDelta}

theorem CallsShaped.getD (h : CallsShaped calls) (i : Nat) :
    CallShaped (calls[i]?.getD emptyCall) := by
  cases hentry : calls[i]? with
  | none => exact callShaped_emptyCall
  | some entry => exact h i entry hentry

private theorem nextIndex_panics_iff {i : Nat} :
    nextIndex overflowChecks i = .error .panic ↔ overflowChecks = true ∧ maxU64 ≤ i := by
  unfold nextIndex
  by_cases hlt : i < maxU64
  · simp [hlt]
  · cases overflowChecks <;> simp [hlt, Nat.not_lt.mp hlt]

private theorem CallsShaped.call_panics_iff (h : CallsShaped calls) :
    call overflowChecks fragment calls = .error .panic ↔
      overflowChecks = true ∧ ∃ i, callIndex fragment = some i ∧ maxU64 ≤ i := by
  unfold call
  cases hindex : callIndex fragment with
  | none => simp [refuse]
  | some i =>
    obtain ⟨entry, hentry, -⟩ := (h.getD i).exists_extend fragment
    change (extendCall (calls[i]?.getD emptyCall) fragment >>= _) = _ ↔ _
    rw [hentry]
    change (nextIndex overflowChecks i >>= _) = _ ↔ _
    have hiff : nextIndex overflowChecks i = .error .panic ↔
        overflowChecks = true ∧ ∃ j, some i = some j ∧ maxU64 ≤ j := by
      rw [nextIndex_panics_iff]
      simp
    rw [← hiff]
    cases nextIndex overflowChecks i <;> simp [bind, Except.bind, pure, Except.pure]

private theorem CallsShaped.call_error {fault : Fault} (h : CallsShaped calls)
    (herror : call overflowChecks fragment calls = .error fault)
    (hindex : (callIndex fragment).isSome) : fault = .panic := by
  obtain ⟨i, hi⟩ := Option.isSome_iff_exists.mp hindex
  obtain ⟨entry, hentry, -⟩ := (h.getD i).exists_extend fragment
  unfold call at herror
  rw [hi] at herror
  change (extendCall (calls[i]?.getD emptyCall) fragment >>= _) = _ at herror
  rw [hentry] at herror
  change (nextIndex overflowChecks i >>= _) = _ at herror
  unfold nextIndex at herror
  split at herror
  · cases herror
  · split at herror
    · cases herror
      rfl
    · cases herror

private theorem CallsShaped.call_ok (h : CallsShaped calls)
    (hok : call overflowChecks fragment calls = .ok (calls', delta)) :
    CallsShaped calls' ∧ calls'.isEmpty = false ∧ (callIndex fragment).isSome := by
  unfold call at hok
  cases hindex : callIndex fragment with
  | none =>
    rw [hindex] at hok
    cases hok
  | some i =>
    rw [hindex] at hok
    obtain ⟨entry, hentry, hok⟩ := Checked.bind_ok hok
    obtain ⟨next, -, hok⟩ := Checked.bind_ok hok
    cases hok
    obtain ⟨entry', hentry', hshaped⟩ := (h.getD i).exists_extend fragment
    cases hentry.symm.trans hentry'
    refine ⟨fun j v hv => ?_, by simp, rfl⟩
    rw [ExtTreeMap.getElem?_insert] at hv
    split at hv
    · cases hv
      exact hshaped
    · exact h j v hv

private theorem overflows_cons : Overflows (fragment :: rest) ↔
    (∃ i, callIndex fragment = some i ∧ maxU64 ≤ i) ∨
      ((callIndex fragment).isSome ∧ Overflows rest) := by
  constructor
  · rintro ⟨before, call, after, heq, hbefore, i, hi, hmax⟩
    cases before with
    | nil =>
      cases heq
      exact .inl ⟨i, hi, hmax⟩
    | cons first before =>
      cases heq
      exact .inr ⟨hbefore _ List.mem_cons_self, before, call, after, rfl,
        fun c hc => hbefore c (List.mem_cons_of_mem _ hc), i, hi, hmax⟩
  · rintro (⟨i, hi, hmax⟩ | ⟨hsome, before, call, after, rfl, hbefore, hi⟩)
    · exact ⟨[], fragment, rest, rfl, by simp, i, hi, hmax⟩
    · exact ⟨fragment :: before, call, after, rfl, List.forall_mem_cons.mpr ⟨hsome, hbefore⟩, hi⟩

private theorem not_overflows_nil : ¬ Overflows [] := by
  rintro ⟨before, call, after, heq, -⟩
  exact absurd heq.symm (List.append_ne_nil_of_right_ne_nil _ (List.cons_ne_nil _ _))

private theorem CallsShaped.addCalls_panics_iff {fragments : List Value} (h : CallsShaped calls) :
    addCalls overflowChecks fragments calls = .error .panic ↔
      overflowChecks = true ∧ Overflows fragments := by
  induction fragments generalizing calls with
  | nil => simp [addCalls, not_overflows_nil]
  | cons fragment rest ih =>
    rw [overflows_cons]
    change (call overflowChecks fragment calls >>= _) = _ ↔ _
    cases hcall : call overflowChecks fragment calls with
    | error fault =>
      change (Except.error fault : Checked _) = _ ↔ _
      constructor
      · intro hfault
        cases hfault
        obtain ⟨hchecks, hindex⟩ := h.call_panics_iff.mp hcall
        exact ⟨hchecks, .inl hindex⟩
      · rintro ⟨hchecks, ⟨i, hi, hmax⟩ | ⟨hsome, -⟩⟩
        · rw [h.call_error hcall (Option.isSome_iff_exists.mpr ⟨i, hi⟩)]
        · rw [h.call_error hcall hsome]
    | ok next =>
      obtain ⟨calls₁, delta⟩ := next
      obtain ⟨h₁, -, hsome⟩ := h.call_ok hcall
      have hnone : ¬ (overflowChecks = true ∧ ∃ i, callIndex fragment = some i ∧ maxU64 ≤ i) :=
        fun hpanic => by cases hcall.symm.trans (h.call_panics_iff.mpr hpanic)
      change (addCalls overflowChecks rest calls₁ >>= _) = _ ↔ _
      have hrest : overflowChecks = true ∧
          ((∃ i, callIndex fragment = some i ∧ maxU64 ≤ i) ∨
            ((callIndex fragment).isSome ∧ Overflows rest)) ↔
          overflowChecks = true ∧ Overflows rest := by
        constructor
        · rintro ⟨hchecks, hindex | ⟨-, hrest⟩⟩
          · exact absurd ⟨hchecks, hindex⟩ hnone
          · exact ⟨hchecks, hrest⟩
        · rintro ⟨hchecks, hrest⟩
          exact ⟨hchecks, .inr ⟨hsome, hrest⟩⟩
      rw [hrest, ← ih h₁]
      cases addCalls overflowChecks rest calls₁ <;> simp [bind, Except.bind, pure, Except.pure]

private theorem CallsShaped.addCalls_ok {fragments : List Value} (h : CallsShaped calls)
    (hok : addCalls overflowChecks fragments calls = .ok (calls', deltas)) :
    CallsShaped calls' ∧ (calls'.isEmpty = true ↔ calls.isEmpty = true ∧ fragments = []) := by
  induction fragments generalizing calls deltas with
  | nil =>
    cases hok
    exact ⟨h, by simp⟩
  | cons fragment rest ih =>
    obtain ⟨⟨calls₁, delta⟩, hcall, hok⟩ := Checked.bind_ok hok
    obtain ⟨⟨calls₂, others⟩, hrest, hok⟩ := Checked.bind_ok hok
    cases hok
    obtain ⟨h₁, hempty, -⟩ := h.call_ok hcall
    obtain ⟨h₂, hiff⟩ := ih h₁ hrest
    refine ⟨h₂, ?_⟩
    rw [hiff, hempty]
    simp

end

/-- What the state keeps of the frames it has taken. -/
structure Kept (history : List Value) (s : State) : Prop where
  value : Shaped s.value (standingMessage history)
  calls : CallsShaped s.calls
  isEmpty : s.calls.isEmpty = true ↔ ∀ v ∈ history, fragments v = []

theorem kept_new : Kept [] State.new := by
  refine ⟨⟨_, ⟨rfl, rfl⟩, rfl, ?_, trivial⟩, fun i entry h => ?_, by simp [State.new]⟩
  · exact iff_of_true trivial trivial
  · simp [State.new] at h

theorem standingMessage_append (history : List Value) (v : Value) :
    standingMessage (history ++ [v]) = (messageOf v).getD (standingMessage history) := by
  unfold standingMessage
  rw [List.filterMap_append]
  cases h : messageOf v <;> simp [h]

section

variable {overflowChecks : Bool} {history : List Value} {v : Value} {s s' : State}
  {deltas : List ModelDelta}

/-- What is left of a frame once its choice has been merged. -/
def State.pushRest (overflowChecks : Bool) (s : State) (v : Value) :
    Checked (State × List ModelDelta) :=
  match deltaOf v with
  | none => .ok (s, [])
  | some delta => State.pushDelta overflowChecks s delta

def mergeFrame (value frame : Value) : Checked Value :=
  match choiceOf frame with
  | none => .ok value
  | some choice => mergeChoice value choice

theorem push_eq_pushRest {copied value : Value}
    (hcopied : copyFields s.value v ["choices"] = .ok copied)
    (hmerged : mergeFrame copied v = .ok value) :
    State.push overflowChecks v s = (State.pushRest overflowChecks { s with value } v).map
      fun (s, deltas) => (s, usageDelta v ++ deltas) := by
  have hpush : State.push overflowChecks v s = match choiceOf v with
      | none => .ok ({ s with value := copied }, usageDelta v)
      | some choice => (State.pushChoice overflowChecks { s with value := copied } choice).map
          fun (s, deltas) => (s, usageDelta v ++ deltas) := by
    unfold State.push choiceOf
    rw [hcopied]
    cases v.pointer ["choices", "0"] with
    | none => rfl
    | some choice =>
      change (State.pushChoice overflowChecks { s with value := copied } choice >>= _) =
        (State.pushChoice overflowChecks { s with value := copied } choice).map _
      cases State.pushChoice overflowChecks { s with value := copied } choice <;> rfl
  rw [hpush]
  unfold mergeFrame at hmerged
  unfold State.pushRest deltaOf
  cases hchoice : choiceOf v with
  | none =>
    rw [hchoice] at hmerged
    cases hmerged
    change Except.ok _ = Except.ok (_, usageDelta v ++ [])
    rw [List.append_nil]
  | some choice =>
    rw [hchoice] at hmerged
    change mergeChoice copied choice = .ok value at hmerged
    have hrest : State.pushChoice overflowChecks { s with value := copied } choice =
        match choice.field "delta" with
        | none => .ok ({ s with value }, [])
        | some delta => State.pushDelta overflowChecks { s with value } delta := by
      unfold State.pushChoice
      rw [hmerged]
      rfl
    change (State.pushChoice overflowChecks { s with value := copied } choice).map _ = _
    rw [hrest]
    rfl

private theorem Kept.push_eq (h : Kept history s) :
    ∃ value, Shaped value (standingMessage (history ++ [v])) ∧
      State.push overflowChecks v s =
        (State.pushRest overflowChecks { s with value } v).map
          fun (s, deltas) => (s, usageDelta v ++ deltas) := by
  obtain ⟨copied, hcopied, hshaped⟩ := h.value.exists_copy v
  rw [standingMessage_append]
  unfold messageOf
  cases hchoice : choiceOf v with
  | none =>
    have hmerged : mergeFrame copied v = .ok copied := by
      unfold mergeFrame
      rw [hchoice]
    exact ⟨copied, hshaped, push_eq_pushRest hcopied hmerged⟩
  | some choice =>
    obtain ⟨merged, hmerge, hmergedShape⟩ := hshaped.exists_mergeChoice choice
    have hmerged : mergeFrame copied v = .ok merged := by
      unfold mergeFrame
      rw [hchoice]
      exact hmerge
    exact ⟨merged, hmergedShape, push_eq_pushRest hcopied hmerged⟩

private theorem Shaped.pushDelta_panics_iff {message delta : Value}
    (hvalue : Shaped s.value message)
    (hcalls : CallsShaped s.calls) :
    State.pushDelta overflowChecks s delta = .error .panic ↔
      ((∃ key, (key = "content" ∨ key = "reasoning_content") ∧
        ((delta.field key).bind asString).isSome) ∧ ¬ message.Indexable) ∨
      (overflowChecks = true ∧
        Overflows (((delta.field "tool_calls").bind asArray).getD [])) := by
  unfold State.pushDelta
  cases htext : text delta s.value with
  | error fault =>
    obtain ⟨hsome, hbad, rfl⟩ := hvalue.text_error_iff.mp htext
    exact iff_of_true rfl (.inl ⟨hsome, hbad⟩)
  | ok next =>
    obtain ⟨value, texts⟩ := next
    have hno : ¬ ((∃ key, (key = "content" ∨ key = "reasoning_content") ∧
        ((delta.field key).bind asString).isSome) ∧ ¬ message.Indexable) := by
      rintro ⟨hsome, hbad⟩
      cases htext.symm.trans (hvalue.text_error_iff.mpr ⟨hsome, hbad, rfl⟩)
    rw [or_iff_right hno, ← hcalls.addCalls_panics_iff]
    change (addCalls overflowChecks _ s.calls >>= _) = _ ↔ _
    cases addCalls overflowChecks (((delta.field "tool_calls").bind asArray).getD []) s.calls <;>
      simp [bind, Except.bind, pure, Except.pure]

theorem Kept.push_panics_iff (h : Kept history s) :
    State.push overflowChecks v s = .error .panic ↔ Panics overflowChecks history v := by
  obtain ⟨value, hvalue, hpush⟩ := @h.push_eq overflowChecks _ v
  have hmap : State.push overflowChecks v s = .error .panic ↔
      State.pushRest overflowChecks { s with value } v = .error .panic := by
    rw [hpush]
    cases State.pushRest overflowChecks { s with value } v <;> simp [Except.map]
  rw [hmap]
  unfold State.pushRest Panics CarriesText fragments
  cases hdelta : deltaOf v with
  | none => simp [not_overflows_nil]
  | some delta =>
    exact Shaped.pushDelta_panics_iff (s := { s with value }) hvalue h.calls

theorem Kept.push_ok (h : Kept history s)
    (hok : State.push overflowChecks v s = .ok (s', deltas)) :
    Kept (history ++ [v]) s' ∧ s'.done = s.done := by
  obtain ⟨value, hvalue, hpush⟩ := @h.push_eq overflowChecks _ v
  rw [hpush] at hok
  cases hrest : State.pushRest overflowChecks { s with value } v with
  | error fault =>
    rw [hrest] at hok
    cases hok
  | ok next =>
    obtain ⟨t, others⟩ := next
    rw [hrest] at hok
    cases hok
    unfold State.pushRest at hrest
    cases hdelta : deltaOf v with
    | none =>
      rw [hdelta] at hrest
      cases hrest
      have hnone : fragments v = [] := by
        unfold fragments
        rw [hdelta]
        rfl
      refine ⟨⟨hvalue, h.calls, h.isEmpty.trans ?_⟩, rfl⟩
      simp [hnone, or_imp, forall_and]
    | some delta =>
      rw [hdelta] at hrest
      obtain ⟨⟨value', texts⟩, htext, hrest⟩ := Checked.bind_ok hrest
      obtain ⟨⟨calls', reported⟩, hcalls, hrest⟩ := Checked.bind_ok hrest
      cases hrest
      obtain ⟨hshaped, hempty⟩ := h.calls.addCalls_ok hcalls
      refine ⟨⟨hvalue.text_ok htext, hshaped, hempty.trans ?_⟩, rfl⟩
      have hfragments : fragments v = ((delta.field "tool_calls").bind asArray).getD [] := by
        unfold fragments
        rw [hdelta]
        rfl
      rw [h.isEmpty, ← hfragments]
      simp [or_imp, forall_and]

theorem Kept.finish_panics_iff (h : Kept history s) :
    State.finish s = .error .panic ↔ s.done = true ∧ PanicsAtEnd history := by
  obtain ⟨choice, hchoice, hobject, hmessage, -⟩ := h.value.exists_choice
  have hput : ∀ w : Value, (modifyChoice s.value fun choice =>
      choice.modifyField "message" fun message => message.assign "tool_calls" w) =
        .error .panic ↔ ¬ (standingMessage history).Indexable := by
    intro w
    rw [hchoice.modify_error_iff, Value.modifyField_error_iff, Value.assign_error_iff, hmessage]
    simp [Value.indexable_of_isObject hobject]
  have hcalls : (∃ v ∈ history, fragments v ≠ []) ↔ ¬ s.calls.isEmpty = true := by
    rw [h.isEmpty]
    push Not
    rfl
  unfold State.finish PanicsAtEnd
  rw [hcalls]
  by_cases hdone : s.done = true
  · by_cases hempty : s.calls.isEmpty = true
    · simp [hdone, hempty]
    · rw [if_pos hdone, if_neg hempty, hput]
      simp [hdone, hempty]
  · simp [hdone, refuse]

end

end Zhir.Streaming.Chat
