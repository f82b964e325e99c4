import Zhir.Streaming.Messages

/-!
Which Messages frames panic: text or input for a block, fields for a message, or counters for a
usage that were opened as something that is no object.
-/

set_option autoImplicit false
set_option relaxedAutoImplicit false

namespace Zhir.Streaming.Messages

open Std (ExtTreeMap)
open Zhir.Core
open Zhir.Library (lastValue)
open Zhir.Models

def CarriesText (v : Value) : Prop :=
  kindOf v = "content_block_delta" ∧
    kindOf (deltaOf v) ∈ ["text_delta", "thinking_delta", "signature_delta"]

def blockOf (i : Nat) (v : Value) : Option Value :=
  if kindOf v = "content_block_start" ∧ index v = i then v.field "content_block" else none

def openedBlock (history : List Value) (i : Nat) : Option Value :=
  (history.filterMap (blockOf i)).head?

def extendPartial (i : Nat) (raw : Option String) (v : Value) : Option String :=
  if index v ≠ i then raw
  else if kindOf v = "content_block_delta" ∧ kindOf (deltaOf v) = "input_json_delta" then
    some (raw.getD "" ++ textAt (deltaOf v) "partial_json")
  else if kindOf v = "content_block_stop" then none
  else raw

/-- The partial input of a block that has not been closed since. -/
def partialInput (history : List Value) (i : Nat) : Option String :=
  history.foldl (extendPartial i) none

def messageOf (v : Value) : Option Value :=
  if kindOf v = "message_start" then v.field "message" else none

/-- The message that fields are put into after some frames, as it was begun. -/
def standingMessage (history : List Value) : Value :=
  ((history.filterMap messageOf).getLast?).getD (.object [])

def deltaFields (v : Value) : List (String × Value) := (fieldsOf v "delta").getD []

def usageFields (v : Value) : List (String × Value) := (fieldsOf v "usage").getD []

/-- What a frame makes of the usage, other than by adding to it. -/
def replaceUsage (usage v : Value) : Value :=
  if kindOf v = "message_start" then
    match v.field "message" with
    | some message => (message.field "usage").getD .null
    | none => usage
  else if kindOf v = "message_delta" then
    (lastValue "usage" (deltaFields v)).getD usage
  else usage

/-- The usage that counters are put into after some frames, as it was brought. -/
def standingUsage (history : List Value) : Value := history.foldl replaceUsage (.object [])

/-- Fields or counters are put into something that cannot take them. -/
def PanicsInMessage (history : List Value) (v : Value) : Prop :=
  ((deltaFields v ≠ [] ∨ usageFields v ≠ []) ∧ ¬ (standingMessage history).Indexable) ∨
    (usageFields v ≠ [] ∧ ¬ (standingUsage (history ++ [v])).Indexable)

def Panics (json : JsonText) (history : List Value) (v : Value) : Prop :=
  (CarriesText v ∧ ∃ block, openedBlock history (index v) = some block ∧ ¬ block.Indexable) ∨
    (kindOf v = "content_block_stop" ∧ ∃ block raw input,
      openedBlock history (index v) = some block ∧ partialInput history (index v) = some raw ∧
        json.parse raw = .ok input ∧ ¬ block.Indexable) ∨
    (kindOf v = "message_delta" ∧ PanicsInMessage history v)

/-- The response panics: the blocks are to be put into the message. -/
def PanicsAtEnd (history : List Value) : Prop :=
  (∃ v ∈ history, kindOf v = "message_stop") ∧ (∀ i, partialInput history i = none) ∧
    ¬ (standingMessage history).Indexable

/-- What the state keeps of the frames it has taken. -/
structure Kept (history : List Value) (s : State) : Prop where
  message : s.value.Indexable ↔ (standingMessage history).Indexable
  usage : (standingMessage history).Indexable →
    (((s.value.field "usage").getD .null).Indexable ↔ (standingUsage history).Indexable)
  blocks : ∀ i, Option.Rel (fun block opened => block.Indexable ↔ opened.Indexable)
    s.blocks[i]? (openedBlock history i)
  partials : ∀ i : Nat, s.partials[i]? = partialInput history i
  opened : ∀ (i : Nat) (raw : String), s.partials[i]? = some raw → (s.blocks[i]?).isSome
  done : s.done = true ↔ ∃ v ∈ history, kindOf v = "message_stop"

theorem kept_new : Kept [] State.new where
  message := iff_of_true trivial trivial
  usage := fun _ => iff_of_true trivial trivial
  blocks := fun i => by
    change Option.Rel _ ((∅ : ExtTreeMap Nat Value)[i]?) none
    rw [ExtTreeMap.getElem?_empty]
    exact .none
  partials := fun i => ExtTreeMap.getElem?_empty
  opened := fun i raw h => by
    cases (ExtTreeMap.getElem?_empty (a := i)).symm.trans h
  done := by simp [State.new]

section

variable (history : List Value) (v : Value) (i : Nat)

private theorem openedBlock_append :
    openedBlock (history ++ [v]) i = (openedBlock history i).or (blockOf i v) := by
  unfold openedBlock
  rw [List.filterMap_append, List.head?_append]
  cases h : blockOf i v <;> simp [h]

private theorem partialInput_append :
    partialInput (history ++ [v]) i = extendPartial i (partialInput history i) v := by
  unfold partialInput
  rw [List.foldl_append]
  rfl

theorem standingMessage_append :
    standingMessage (history ++ [v]) = (messageOf v).getD (standingMessage history) := by
  unfold standingMessage
  rw [List.filterMap_append]
  cases h : messageOf v <;> simp [h]

private theorem standingUsage_append :
    standingUsage (history ++ [v]) = replaceUsage (standingUsage history) v := by
  unfold standingUsage
  rw [List.foldl_append]
  rfl

end

private theorem exists_putUsage {v : Value} (hv : v.Indexable)
    (husage : ((v.field "usage").getD .null).Indexable) (counters : List (String × Value)) :
    ∃ v', putUsage counters v = .ok v' ∧ v'.Indexable ∧
      ((v'.field "usage").getD .null).Indexable := by
  unfold putUsage
  induction counters generalizing v with
  | nil => exact ⟨v, rfl, hv, husage⟩
  | cons f rest ih =>
    obtain ⟨usage, hassign, hobject, -⟩ := Value.exists_assign husage f.1 f.2
    rw [List.foldlM_cons]
    cases hset : v.modifyField "usage" fun usage => usage.assign f.1 f.2 with
    | error fault =>
      rw [Value.modifyField_error_iff] at hset
      rcases hset with ⟨hbad, -⟩ | ⟨-, hset⟩
      · exact absurd hv hbad
      · cases hassign.symm.trans hset
    | ok u =>
      obtain ⟨-, w, hw, huObject, hfield⟩ := Value.modifyField_ok hset
      cases hassign.symm.trans hw
      refine ih (Value.indexable_of_isObject huObject) ?_
      rw [hfield, if_pos rfl]
      exact Value.indexable_of_isObject hobject

private theorem putUsage_error_iff {v : Value} {counters : List (String × Value)} {fault : Fault} :
    putUsage counters v = .error fault ↔ counters ≠ [] ∧
      ¬ (v.Indexable ∧ ((v.field "usage").getD .null).Indexable) ∧ fault = .panic := by
  by_cases h : v.Indexable ∧ ((v.field "usage").getD .null).Indexable
  · obtain ⟨v', hv', -⟩ := exists_putUsage h.1 h.2 counters
    rw [hv']
    simp [h]
  · cases counters with
    | nil =>
      constructor
      · intro hnil
        cases hnil
      · rintro ⟨hne, -⟩
        exact absurd rfl hne
    | cons f rest =>
      have hpanic : (v.modifyField "usage" fun usage => usage.assign f.1 f.2) = .error .panic := by
        rw [Value.modifyField_error_iff, Value.assign_error_iff]
        by_cases hv : v.Indexable
        · exact .inr ⟨hv, fun husage => h ⟨hv, husage⟩, rfl⟩
        · exact .inl ⟨hv, rfl⟩
      unfold putUsage
      rw [List.foldlM_cons, hpanic]
      constructor
      · intro hfault
        cases hfault
        exact ⟨List.cons_ne_nil _ _, h, rfl⟩
      · rintro ⟨-, -, rfl⟩
        rfl

section

variable {history : List Value} {v : Value} {i : Nat}

private theorem blockOf_of_ne (h : kindOf v ≠ "content_block_start") : blockOf i v = none :=
  if_neg fun hv => h hv.1

private theorem messageOf_of_ne (h : kindOf v ≠ "message_start") : messageOf v = none := if_neg h

private theorem replaceUsage_of_ne {usage : Value} (hstart : kindOf v ≠ "message_start")
    (hdelta : kindOf v ≠ "message_delta") : replaceUsage usage v = usage := by
  unfold replaceUsage
  rw [if_neg hstart, if_neg hdelta]

private theorem extendPartial_of_ne {raw : Option String}
    (hdelta : kindOf v ≠ "content_block_delta")
    (hstop : kindOf v ≠ "content_block_stop") : extendPartial i raw v = raw := by
  unfold extendPartial
  simp [hdelta, hstop]

private theorem extendPartial_of_index_ne {raw : Option String} (h : index v ≠ i) :
    extendPartial i raw v = raw := if_pos h

private theorem exists_stop_append : (∃ w ∈ history ++ [v], kindOf w = "message_stop") ↔
    (∃ w ∈ history, kindOf w = "message_stop") ∨ kindOf v = "message_stop" := by
  simp [or_and_right, exists_or]

end

section

variable {json : JsonText} {history : List Value} {v : Value} {s s' : State} {i : Nat}
  {block : Value} {delta : Value} {deltas : List ModelDelta} {fault : Fault}

private theorem Kept.blocks_append (h : Kept history s) (hv : kindOf v ≠ "content_block_start")
    (i : Nat) :
    Option.Rel (fun block opened => block.Indexable ↔ opened.Indexable)
      s.blocks[i]? (openedBlock (history ++ [v]) i) := by
  rw [openedBlock_append, blockOf_of_ne hv, Option.or_none]
  exact h.blocks i

private theorem Kept.partials_append (h : Kept history s)
    (hdelta : kindOf v ≠ "content_block_delta")
    (hstop : kindOf v ≠ "content_block_stop") (i : Nat) :
    s.partials[i]? = partialInput (history ++ [v]) i := by
  rw [partialInput_append, extendPartial_of_ne hdelta hstop]
  exact h.partials i

private theorem Kept.message_append (h : Kept history s) (hv : kindOf v ≠ "message_start") :
    s.value.Indexable ↔ (standingMessage (history ++ [v])).Indexable := by
  rw [standingMessage_append, messageOf_of_ne hv]
  exact h.message

private theorem Kept.usage_append (h : Kept history s) (hstart : kindOf v ≠ "message_start")
    (hdelta : kindOf v ≠ "message_delta") :
    (standingMessage (history ++ [v])).Indexable →
      (((s.value.field "usage").getD .null).Indexable ↔
        (standingUsage (history ++ [v])).Indexable) := by
  rw [standingMessage_append, messageOf_of_ne hstart, standingUsage_append,
    replaceUsage_of_ne hstart hdelta]
  exact h.usage

private theorem Kept.done_append (h : Kept history s) (hv : kindOf v ≠ "message_stop") :
    s.done = true ↔ ∃ w ∈ history ++ [v], kindOf w = "message_stop" := by
  rw [exists_stop_append, or_iff_left hv]
  exact h.done

private theorem Kept.exists_opened (h : Kept history s) (hblock : s.blocks[i]? = some block) :
    ∃ opened, openedBlock history i = some opened ∧ (block.Indexable ↔ opened.Indexable) := by
  have hrel := h.blocks i
  rw [hblock] at hrel
  cases hopened : openedBlock history i with
  | none =>
    rw [hopened] at hrel
    cases hrel
  | some opened =>
    rw [hopened] at hrel
    cases hrel with
    | some hiff => exact ⟨opened, rfl, hiff⟩

private theorem Kept.opened_none (h : Kept history s) (hblock : s.blocks[i]? = none) :
    openedBlock history i = none := by
  have hrel := h.blocks i
  rw [hblock] at hrel
  cases hopened : openedBlock history i with
  | none => rfl
  | some opened =>
    rw [hopened] at hrel
    cases hrel

private theorem appendText_error_iff {key text : String} :
    s.appendText i block key text = .error fault ↔ ¬ block.Indexable ∧ fault = .panic := by
  unfold State.appendText
  rw [← @append_error_iff block key text]
  cases append block key text <;> simp [bind, Except.bind, pure, Except.pure]

/-- A text is added to an open block, partial input is extended, or nothing changes. -/
inductive Extended (s : State) (i : Nat) (delta : Value) : State → Prop
  | text {block block' : Value} (hblock : s.blocks[i]? = some block) (hindex : block.Indexable)
      (hobject : block'.isObject = true) (hkind : kindOf delta ≠ "input_json_delta") :
      Extended s i delta { s with blocks := s.blocks.insert i block' }
  | input {block : Value} (hblock : s.blocks[i]? = some block)
      (hkind : kindOf delta = "input_json_delta") :
      Extended s i delta { s with
        partials := s.partials.insert i ((s.partials[i]?).getD "" ++ textAt delta "partial_json") }
  | other (hkind : kindOf delta ≠ "input_json_delta") : Extended s i delta s

private theorem appendText_extended {key text : String} (hblock : s.blocks[i]? = some block)
    (hkind : kindOf delta ≠ "input_json_delta") (h : s.appendText i block key text = .ok s') :
    Extended s i delta s' := by
  obtain ⟨block', hblock', h⟩ := Checked.bind_ok h
  cases h
  obtain ⟨hindex, hobject, -⟩ := append_ok hblock'
  exact .text hblock hindex hobject hkind

private theorem blockDelta_extended (h : s.blockDelta i delta = .ok (s', deltas)) :
    Extended s i delta s' := by
  unfold State.blockDelta at h
  cases hblock : s.blocks[i]? with
  | none =>
    rw [hblock] at h
    cases h
  | some block =>
    rw [hblock] at h
    change (if kindOf delta = "text_delta" then _ else _) = _ at h
    split at h
    · rename_i hkind
      obtain ⟨t, ht, h⟩ := Checked.bind_ok h
      cases h
      exact appendText_extended hblock (by rw [hkind]; decide) ht
    · split at h
      · rename_i hkind
        obtain ⟨t, ht, h⟩ := Checked.bind_ok h
        cases h
        exact appendText_extended hblock (by rw [hkind]; decide) ht
      · split at h
        · rename_i hkind
          obtain ⟨t, ht, h⟩ := Checked.bind_ok h
          cases h
          exact appendText_extended hblock (by rw [hkind]; decide) ht
        · split at h
          · rename_i hkind
            cases h
            exact .input hblock hkind
          · rename_i hkind
            cases h
            exact .other hkind

private theorem blockDelta_panics_iff (h : Kept history s) :
    s.blockDelta i delta = .error .panic ↔
      kindOf delta ∈ ["text_delta", "thinking_delta", "signature_delta"] ∧
        ∃ opened, openedBlock history i = some opened ∧ ¬ opened.Indexable := by
  unfold State.blockDelta
  cases hblock : s.blocks[i]? with
  | none =>
    rw [h.opened_none hblock]
    simp [refuse]
  | some block =>
    obtain ⟨opened, hopened, hiff⟩ := h.exists_opened hblock
    have hpanics : (∃ opened, openedBlock history i = some opened ∧ ¬ opened.Indexable) ↔
        ¬ block.Indexable := by
      rw [hopened, hiff]
      simp
    have hbind : ∀ (key text : String) (ds : List ModelDelta),
        (s.appendText i block key text >>= fun s => (pure (s, ds) : Checked _)) = .error .panic ↔
          ¬ block.Indexable := by
      intro key text ds
      have herror : s.appendText i block key text = .error .panic ↔ ¬ block.Indexable := by
        rw [appendText_error_iff, and_iff_left rfl]
      rw [← herror]
      cases s.appendText i block key text <;> simp [bind, Except.bind, pure, Except.pure]
    rw [hpanics]
    change (if kindOf delta = "text_delta" then _ else _) = _ ↔ _
    split
    · rename_i hkind
      rw [hbind, hkind]
      simp
    · split
      · rename_i hkind
        rw [hbind, hkind]
        simp
      · split
        · rename_i hkind
          rw [hbind, hkind]
          simp
        · rename_i htext hthinking hsignature
          split <;> simp [htext, hthinking, hsignature]

private theorem stopBlock_panics_iff (h : Kept history s) :
    s.stopBlock json i = .error .panic ↔ ∃ opened raw input,
      openedBlock history i = some opened ∧ partialInput history i = some raw ∧
        json.parse raw = .ok input ∧ ¬ opened.Indexable := by
  unfold State.stopBlock
  rw [← h.partials i]
  cases hraw : s.partials[i]? with
  | none => simp
  | some raw =>
    obtain ⟨block, hblock⟩ := Option.isSome_iff_exists.mp (h.opened i raw hraw)
    obtain ⟨opened, hopened, hiff⟩ := h.exists_opened hblock
    rw [hopened, hblock]
    cases hparse : json.parse raw with
    | error message => simp [hparse, refuse]
    | ok input =>
      have herror : (do
          let block ← block.assign "input" input
          return { s with
            blocks := s.blocks.insert i block
            partials := s.partials.erase i } : Checked State) = .error .panic ↔
          ¬ opened.Indexable := by
        have hassign : block.assign "input" input = .error .panic ↔ ¬ block.Indexable := by
          rw [Value.assign_error_iff, and_iff_left rfl]
        rw [← hiff, ← hassign]
        cases block.assign "input" input <;> simp [bind, Except.bind, pure, Except.pure]
      simp only [hparse]
      rw [herror]
      constructor
      · intro hbad
        exact ⟨opened, raw, input, rfl, rfl, hparse, hbad⟩
      · rintro ⟨opened', raw', input', hopened', -, -, hbad⟩
        cases hopened'
        exact hbad

/-- A block that has no partial input is left alone; the input of one that has is put in. -/
inductive Stopped (s : State) (i : Nat) : State → Prop
  | left (hraw : s.partials[i]? = none) : Stopped s i s
  | put {block block' : Value} (hblock : s.blocks[i]? = some block) (hindex : block.Indexable)
      (hobject : block'.isObject = true) : Stopped s i { s with
        blocks := s.blocks.insert i block'
        partials := s.partials.erase i }

private theorem stopBlock_stopped (h : s.stopBlock json i = .ok s') : Stopped s i s' := by
  unfold State.stopBlock at h
  cases hraw : s.partials[i]? with
  | none =>
    rw [hraw] at h
    cases h
    exact .left hraw
  | some raw =>
    cases hblock : s.blocks[i]? with
    | none =>
      rw [hraw, hblock] at h
      cases h
    | some block =>
      cases hparse : json.parse raw with
      | error message =>
        simp only [hraw, hblock, hparse] at h
        cases h
      | ok input =>
        simp only [hraw, hblock, hparse] at h
        obtain ⟨block', hassign, h⟩ := Checked.bind_ok h
        cases h
        obtain ⟨hindex, hobject, -⟩ := Value.assign_ok hassign
        exact .put hblock hindex hobject

theorem messageDelta_eq : s.messageDelta v = (do
    let value ← (deltaFields v).foldlM (fun v f => v.assign f.1 f.2) s.value
    let value ← putUsage (usageFields v) value
    return ({ s with value }, match fieldsOf v "usage" with
      | none => []
      | some _ => [.usage (Protocol.messages.usage ((value.field "usage").getD .null))])) := by
  unfold State.messageDelta usageFields deltaFields
  cases fieldsOf v "usage" <;> rfl

private theorem Kept.delta_kept (h : Kept history s) (hkind : kindOf v = "message_delta")
    {value : Value}
    (hvalue : (deltaFields v).foldlM (fun v f => v.assign f.1 f.2) s.value = .ok value) :
    (value.Indexable ↔ (standingMessage history).Indexable) ∧
      ((standingMessage history).Indexable →
        (((value.field "usage").getD .null).Indexable ↔
          (standingUsage (history ++ [v])).Indexable)) := by
  by_cases hs : s.value.Indexable
  · obtain ⟨value', hvalue', hindex, -, hfield⟩ := Value.foldlM_assign hs (deltaFields v)
    cases hvalue.symm.trans hvalue'
    have hmessage := h.message.mp hs
    refine ⟨iff_of_true hindex hmessage, fun _ => ?_⟩
    rw [hfield, standingUsage_append]
    unfold replaceUsage
    rw [if_neg (by rw [hkind]; decide), if_pos hkind]
    cases lastValue "usage" (deltaFields v) with
    | none => exact h.usage hmessage
    | some usage => exact Iff.rfl
  · have hmessage := fun hm => hs (h.message.mpr hm)
    have hnil : deltaFields v = [] := by
      by_contra hne
      cases hvalue.symm.trans (Value.foldlM_assign_error_iff.mpr ⟨hne, hs, rfl⟩)
    rw [hnil] at hvalue
    cases hvalue
    exact ⟨h.message, fun hm => absurd hm hmessage⟩

private theorem Kept.messageDelta_panics_iff (h : Kept history s)
    (hkind : kindOf v = "message_delta") :
    s.messageDelta v = .error .panic ↔ PanicsInMessage history v := by
  rw [messageDelta_eq]
  unfold PanicsInMessage
  cases hvalue : (deltaFields v).foldlM (fun v f => v.assign f.1 f.2) s.value with
  | error fault =>
    obtain ⟨hne, hbad, rfl⟩ := Value.foldlM_assign_error_iff.mp hvalue
    exact iff_of_true rfl (.inl ⟨.inl hne, fun hm => hbad (h.message.mpr hm)⟩)
  | ok value =>
    obtain ⟨hmessage, husage⟩ := h.delta_kept hkind hvalue
    have hdelta : deltaFields v ≠ [] → (standingMessage history).Indexable := by
      intro hne
      by_contra hbad
      cases hvalue.symm.trans (Value.foldlM_assign_error_iff.mpr
        ⟨hne, fun hs => hbad (h.message.mp hs), rfl⟩)
    have hput : putUsage (usageFields v) value = .error .panic ↔ usageFields v ≠ [] ∧
        ¬ ((standingMessage history).Indexable ∧
          (standingUsage (history ++ [v])).Indexable) := by
      rw [putUsage_error_iff, and_iff_left rfl, hmessage, and_congr_right husage]
    change ((putUsage (usageFields v) value >>= _) = _) ↔ _
    have hbind : ((putUsage (usageFields v) value >>= fun value => (pure ({ s with value },
        match fieldsOf v "usage" with
        | none => []
        | some _ => [.usage (Protocol.messages.usage ((value.field "usage").getD .null))]) :
          Checked (State × List ModelDelta))) = .error .panic) ↔
        putUsage (usageFields v) value = .error .panic := by
      cases putUsage (usageFields v) value <;> simp [bind, Except.bind, pure, Except.pure]
    rw [hbind, hput]
    constructor
    · rintro ⟨hne, hbad⟩
      by_cases hm : (standingMessage history).Indexable
      · exact .inr ⟨hne, fun hu => hbad ⟨hm, hu⟩⟩
      · exact .inl ⟨.inr hne, hm⟩
    · rintro (⟨hne | hne, hbad⟩ | ⟨hne, hbad⟩)
      · exact absurd (hdelta hne) hbad
      · exact ⟨hne, fun hboth => hbad hboth.1⟩
      · exact ⟨hne, fun hboth => hbad hboth.2⟩

private theorem Kept.messageDelta_ok (h : Kept history s) (hkind : kindOf v = "message_delta")
    (hok : s.messageDelta v = .ok (s', deltas)) : ∃ value, s' = { s with value } ∧
      (value.Indexable ↔ (standingMessage history).Indexable) ∧
      ((standingMessage history).Indexable →
        (((value.field "usage").getD .null).Indexable ↔
          (standingUsage (history ++ [v])).Indexable)) := by
  rw [messageDelta_eq] at hok
  obtain ⟨value, hvalue, hok⟩ := Checked.bind_ok hok
  obtain ⟨value', hput, hok⟩ := Checked.bind_ok hok
  cases hok
  obtain ⟨hmessage, husage⟩ := h.delta_kept hkind hvalue
  refine ⟨value', rfl, ?_⟩
  by_cases hboth : value.Indexable ∧ ((value.field "usage").getD .null).Indexable
  · obtain ⟨put, hput', hindex, hindexUsage⟩ := exists_putUsage hboth.1 hboth.2 (usageFields v)
    cases hput.symm.trans hput'
    exact ⟨iff_of_true hindex (hmessage.mp hboth.1), fun hm =>
      iff_of_true hindexUsage ((husage hm).mp hboth.2)⟩
  · have hnil : usageFields v = [] := by
      by_contra hne
      cases hput.symm.trans (putUsage_error_iff.mpr ⟨hne, hboth, rfl⟩)
    rw [hnil] at hput
    cases hput
    exact ⟨hmessage, husage⟩

theorem push_of_blockDelta (hkind : kindOf v = "content_block_delta") :
    State.push json v s = s.blockDelta (index v) (deltaOf v) := by
  unfold State.push
  simp [hkind]

theorem push_of_stop (hkind : kindOf v = "content_block_stop") :
    State.push json v s = s.stopBlock json (index v) >>= fun s => .ok (s, []) := by
  unfold State.push
  simp only [hkind]
  rfl

theorem push_of_messageDelta (hkind : kindOf v = "message_delta") :
    State.push json v s = s.messageDelta v := by
  unfold State.push
  simp [hkind]

theorem push_of_messageStart (hkind : kindOf v = "message_start") :
    State.push json v s = match v.field "message" with
      | none => refuse (.protocol "missing streamed message")
      | some message => .ok ({ s with value := message }, []) := if_pos hkind

theorem push_of_start (hkind : kindOf v = "content_block_start") :
    State.push json v s = match v.field "content_block" with
      | none => refuse (.protocol "missing content block")
      | some block =>
        if (s.blocks[index v]?).isSome then refuse (.protocol "duplicate content block")
        else .ok ({ s with blocks := s.blocks.insert (index v) block }, []) := by
  have hother : kindOf v ≠ "message_start" := by
    rw [hkind]
    decide
  exact (if_neg hother).trans (if_pos hkind)

theorem push_of_messageStop (hkind : kindOf v = "message_stop") :
    State.push json v s = .ok ({ s with done := true }, []) := by
  unfold State.push
  simp [hkind]

theorem push_of_other (hkind : kindOf v ∉ ["message_start", "content_block_start",
    "content_block_delta", "content_block_stop", "message_delta", "message_stop"]) :
    State.push json v s = .ok (s, []) := by
  unfold State.push
  simp only [List.mem_cons, List.not_mem_nil, or_false, not_or] at hkind
  simp [hkind]

theorem Kept.push_panics_iff (h : Kept history s) :
    State.push json v s = .error .panic ↔ Panics json history v := by
  unfold Panics CarriesText
  by_cases hdelta : kindOf v = "content_block_delta"
  · rw [push_of_blockDelta hdelta, blockDelta_panics_iff h]
    simp [hdelta]
  · by_cases hstop : kindOf v = "content_block_stop"
    · have hpush : State.push json v s = .error .panic ↔
          s.stopBlock json (index v) = .error .panic := by
        rw [push_of_stop hstop]
        cases s.stopBlock json (index v) <;> simp [bind, Except.bind]
      rw [hpush, stopBlock_panics_iff h]
      simp [hstop]
    · by_cases hmessage : kindOf v = "message_delta"
      · rw [push_of_messageDelta hmessage, h.messageDelta_panics_iff hmessage]
        simp [hmessage]
      · have hnone : State.push json v s ≠ .error .panic := by
          unfold State.push
          rw [if_neg hdelta, if_neg hstop, if_neg hmessage]
          split
          · cases v.field "message" <;> simp [refuse]
          · split
            · cases v.field "content_block" with
              | none => simp [refuse]
              | some block =>
                change (if (s.blocks[index v]?).isSome = true then _ else _) ≠ _
                split <;> simp [refuse]
            · split <;> simp
        simp [hnone, hdelta, hstop, hmessage]

private theorem Kept.start_kept (h : Kept history s) (hkind : kindOf v = "content_block_start")
    (hfree : s.blocks[index v]? = none) (hblock : v.field "content_block" = some block) :
    Kept (history ++ [v]) { s with blocks := s.blocks.insert (index v) block } where
  message := h.message_append (by rw [hkind]; decide)
  usage := h.usage_append (by rw [hkind]; decide) (by rw [hkind]; decide)
  blocks := fun i => by
    rw [openedBlock_append, ExtTreeMap.getElem?_insert]
    by_cases hi : index v = i
    · subst hi
      have hopens : blockOf (index v) v = some block := by
        unfold blockOf
        rw [if_pos ⟨hkind, rfl⟩]
        exact hblock
      rw [h.opened_none hfree, hopens]
      simp
    · have hother : blockOf i v = none := if_neg fun hv => hi hv.2
      rw [hother, Option.or_none]
      simpa [hi] using h.blocks i
  partials := h.partials_append (by rw [hkind]; decide) (by rw [hkind]; decide)
  opened := fun i raw hraw => by
    rw [ExtTreeMap.getElem?_insert]
    split
    · rfl
    · exact h.opened i raw hraw
  done := h.done_append (by rw [hkind]; decide)

private theorem Kept.blocks_insert (h : Kept history s) {block' : Value}
    (hblock : s.blocks[i]? = some block)
    (hindex : block.Indexable) (hobject : block'.isObject = true)
    (hv : kindOf v ≠ "content_block_start") (j : Nat) :
    Option.Rel (fun block opened => block.Indexable ↔ opened.Indexable)
      (s.blocks.insert i block')[j]? (openedBlock (history ++ [v]) j) := by
  rw [ExtTreeMap.getElem?_insert]
  by_cases hj : i = j
  · subst hj
    have hrel := h.blocks_append hv i
    rw [hblock] at hrel
    simp only [Nat.compare_eq_eq, if_true]
    cases hopened : openedBlock (history ++ [v]) i with
    | none =>
      rw [hopened] at hrel
      cases hrel
    | some opened =>
      rw [hopened] at hrel
      cases hrel with
      | some hiff =>
        exact .some (iff_of_true (Value.indexable_of_isObject hobject) (hiff.mp hindex))
  · simpa [hj] using h.blocks_append hv j

theorem Kept.extended (h : Kept history s) (hkind : kindOf v = "content_block_delta")
    (hext : Extended s (index v) (deltaOf v) s') : Kept (history ++ [v]) s' := by
  have hblock : kindOf v ≠ "content_block_start" := by rw [hkind]; decide
  have hmessage := h.message_append (v := v) (by rw [hkind]; decide)
  have husage := h.usage_append (v := v) (by rw [hkind]; decide) (by rw [hkind]; decide)
  have hdone := h.done_append (v := v) (by rw [hkind]; decide)
  have hpartials : kindOf (deltaOf v) ≠ "input_json_delta" → ∀ i : Nat,
      s.partials[i]? = partialInput (history ++ [v]) i := by
    intro hother i
    rw [partialInput_append]
    unfold extendPartial
    simp [hkind, hother, h.partials i]
  cases hext with
  | @text block block' hopen hindex hobject hother =>
    refine ⟨hmessage, husage, h.blocks_insert hopen hindex hobject hblock, hpartials hother,
      fun i raw hraw => ?_, hdone⟩
    rw [ExtTreeMap.getElem?_insert]
    split
    · rfl
    · exact h.opened i raw hraw
  | @input block hopen hinput =>
    refine ⟨hmessage, husage, h.blocks_append hblock, fun i => ?_, fun i raw hraw => ?_, hdone⟩
    · rw [partialInput_append, ExtTreeMap.getElem?_insert]
      by_cases hi : index v = i
      · subst hi
        unfold extendPartial
        simp [hkind, hinput, h.partials]
      · rw [extendPartial_of_index_ne hi]
        simpa [hi] using h.partials i
    · rw [ExtTreeMap.getElem?_insert] at hraw
      by_cases hi : index v = i
      · subst hi
        exact Option.isSome_iff_exists.mpr ⟨block, hopen⟩
      · simp only [Nat.compare_eq_eq, hi, if_false] at hraw
        exact h.opened i raw hraw
  | other hother =>
    exact ⟨hmessage, husage, h.blocks_append hblock, hpartials hother, h.opened, hdone⟩

theorem Kept.stopped (h : Kept history s) (hkind : kindOf v = "content_block_stop")
    (hstop : Stopped s (index v) s') : Kept (history ++ [v]) s' := by
  have hblock : kindOf v ≠ "content_block_start" := by rw [hkind]; decide
  have hmessage := h.message_append (v := v) (by rw [hkind]; decide)
  have husage := h.usage_append (v := v) (by rw [hkind]; decide) (by rw [hkind]; decide)
  have hdone := h.done_append (v := v) (by rw [hkind]; decide)
  have hclosed : extendPartial (index v) (partialInput history (index v)) v = none := by
    unfold extendPartial
    simp [hkind]
  cases hstop with
  | left hraw =>
    refine ⟨hmessage, husage, h.blocks_append hblock, fun i => ?_, h.opened, hdone⟩
    rw [partialInput_append]
    by_cases hi : index v = i
    · subst hi
      exact hraw.trans hclosed.symm
    · rw [extendPartial_of_index_ne hi]
      exact h.partials i
  | @put block block' hopen hindex hobject =>
    refine ⟨hmessage, husage, h.blocks_insert hopen hindex hobject hblock, fun i => ?_,
      fun i raw hraw => ?_, hdone⟩
    · rw [partialInput_append, ExtTreeMap.getElem?_erase]
      by_cases hi : index v = i
      · subst hi
        rw [hclosed]
        simp
      · rw [extendPartial_of_index_ne hi]
        simpa [hi] using h.partials i
    · rw [ExtTreeMap.getElem?_erase] at hraw
      rw [ExtTreeMap.getElem?_insert]
      split at hraw
      · cases hraw
      · rename_i hi
        rw [if_neg hi]
        exact h.opened i raw hraw

theorem Kept.push_ok (h : Kept history s) (hok : State.push json v s = .ok (s', deltas)) :
    Kept (history ++ [v]) s' := by
  by_cases hdelta : kindOf v = "content_block_delta"
  · rw [push_of_blockDelta hdelta] at hok
    exact h.extended hdelta (blockDelta_extended hok)
  by_cases hstop : kindOf v = "content_block_stop"
  · rw [push_of_stop hstop] at hok
    obtain ⟨t, ht, hok⟩ := Checked.bind_ok hok
    cases hok
    exact h.stopped hstop (stopBlock_stopped ht)
  by_cases hstart : kindOf v = "content_block_start"
  · rw [push_of_start hstart] at hok
    cases hblock : v.field "content_block" with
    | none =>
      rw [hblock] at hok
      cases hok
    | some block =>
      rw [hblock] at hok
      change (if (s.blocks[index v]?).isSome = true then _ else _) = _ at hok
      split at hok
      · cases hok
      · rename_i hfree
        cases hok
        exact h.start_kept hstart (Option.not_isSome_iff_eq_none.mp hfree) hblock
  have hblocks := h.blocks_append hstart
  have hpartials := h.partials_append hdelta hstop
  by_cases hmessage : kindOf v = "message_delta"
  · rw [push_of_messageDelta hmessage] at hok
    obtain ⟨value, rfl, hvalue, husage⟩ := h.messageDelta_ok hmessage hok
    have hstanding : standingMessage (history ++ [v]) = standingMessage history := by
      rw [standingMessage_append, messageOf_of_ne (by rw [hmessage]; decide)]
      rfl
    refine ⟨?_, ?_, hblocks, hpartials, h.opened, h.done_append (by rw [hmessage]; decide)⟩
    · rw [hstanding]
      exact hvalue
    · rw [hstanding]
      exact husage
  by_cases hbegin : kindOf v = "message_start"
  · rw [push_of_messageStart hbegin] at hok
    cases hfield : v.field "message" with
    | none =>
      rw [hfield] at hok
      cases hok
    | some message =>
      rw [hfield] at hok
      cases hok
      have hstanding : standingMessage (history ++ [v]) = message := by
        rw [standingMessage_append]
        unfold messageOf
        rw [if_pos hbegin, hfield]
        rfl
      refine ⟨?_, ?_, hblocks, hpartials, h.opened, h.done_append (by rw [hbegin]; decide)⟩
      · rw [hstanding]
      · intro _
        rw [standingUsage_append]
        unfold replaceUsage
        rw [if_pos hbegin, hfield]
  have hvalue := h.message_append hbegin
  have husage := h.usage_append hbegin hmessage
  by_cases hdone : kindOf v = "message_stop"
  · rw [push_of_messageStop hdone] at hok
    cases hok
    exact ⟨hvalue, husage, hblocks, hpartials, h.opened,
      iff_of_true rfl (exists_stop_append.mpr (.inr hdone))⟩
  · rw [push_of_other (by simp [hdelta, hstop, hstart, hmessage, hbegin, hdone])] at hok
    cases hok
    exact ⟨hvalue, husage, hblocks, hpartials, h.opened, h.done_append hdone⟩

theorem Kept.finish_panics_iff (h : Kept history s) :
    State.finish s = .error .panic ↔ PanicsAtEnd history := by
  have hempty : s.partials.isEmpty = true ↔ ∀ i, partialInput history i = none := by
    rw [ExtTreeMap.isEmpty_iff]
    constructor
    · intro hnone i
      rw [← h.partials i, hnone]
      exact ExtTreeMap.getElem?_empty
    · intro hnone
      refine ExtTreeMap.ext_getElem? fun i => ?_
      rw [h.partials i, hnone i]
      exact ExtTreeMap.getElem?_empty.symm
  unfold State.finish PanicsAtEnd
  rw [← h.done, ← hempty]
  by_cases hready : s.done = true ∧ s.partials.isEmpty = true
  · rw [if_pos hready, Value.assign_error_iff, h.message]
    simp [hready]
  · rw [if_neg hready]
    refine iff_of_false (fun h => by cases h) ?_
    rintro ⟨hdone, hnone, -⟩
    exact hready ⟨hdone, hnone⟩

end

end Zhir.Streaming.Messages
