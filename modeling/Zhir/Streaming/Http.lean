import Zhir.Library.Folds
import Zhir.Models.Adapter
import Zhir.Models.Indexing

/-!
The accumulator of a streamed response: the frames of the stream, what the protocols share in
taking them up, and the response at the end.
-/

set_option autoImplicit false
set_option relaxedAutoImplicit false

namespace Zhir.Streaming

open Zhir.Core
open Zhir.Library (lastValue)
open Zhir.Models

/-- `ModelDelta`, what the accumulators of the protocols report of a frame. -/
inductive ModelDelta
  | text (outputIndex : Nat) (text : String)
  | reasoning (outputIndex : Nat) (text : String)
  | runtimeTool (outputIndex : Nat) (id name : Option String) (input : String)
  | usage (usage : Usage)
  deriving DecidableEq, Repr

structure StreamState (σ : Type) where
  new : σ
  push : Value → σ → Checked (σ × List ModelDelta)
  finish : σ → Checked Value
  done : σ → σ

def incomplete : Error := .protocol "model stream ended before complete response"

def append (v : Value) (key text : String) : Checked Value :=
  v.modifyField key fun
    | .string existing => .ok (.string (existing ++ text))
    | _ => .ok (.string text)

/-- One field of `copy_fields`. -/
def copyField (exclude : List String) (target : Value) (field : String × Value) :
    Checked Value :=
  if field.1 ∉ exclude ∧ field.2 ≠ .null then target.assign field.1 field.2 else .ok target

def copyFields (target source : Value) (exclude : List String) : Checked Value :=
  match source with
  | .object fields => fields.foldlM (copyField exclude) target
  | _ => .ok target

def reportsError (v : Value) : Bool :=
  (v.field "error").any (fun e => e ≠ .null) || (v.field "type").bind asString = some "error"

section

variable {σ : Type}

def Accumulator.push (json : JsonText) (stream : StreamState σ) (data : String) (s : σ) :
    Checked (σ × List ModelDelta) :=
  if data = "[DONE]" then .ok (stream.done s, [])
  else
    match json.parse data with
    | .error message => refuse (.protocol ("invalid SSE JSON: " ++ message))
    | .ok v =>
      if reportsError v then refuse (.protocol (json.print v))
      else stream.push v s

def Accumulator.step (json : JsonText) (stream : StreamState σ) (s : σ) (data : String) :
    Checked σ := do
  let (s, _) ← Accumulator.push json stream data s
  return s

def Accumulator.run (json : JsonText) (stream : StreamState σ) (frames : List String) :
    Checked σ :=
  frames.foldlM (Accumulator.step json stream) stream.new

/-- What `receive` makes of the frames of a stream. -/
def accumulate (json : JsonText) (stream : StreamState σ) (frames : List String) :
    Checked Value := do
  let s ← Accumulator.run json stream frames
  stream.finish s

/-- The document of a frame that reaches the state of the protocol. -/
def payload (json : JsonText) (data : String) : Option Value :=
  if data = "[DONE]" then none
  else ((json.parse data).toOption).filter fun v => !reportsError v

def payloads (json : JsonText) (frames : List String) : List Value :=
  frames.filterMap (payload json)

def Taken (json : JsonText) (stream : StreamState σ) (frames : List String) : Prop :=
  ∃ s, Accumulator.run json stream frames = .ok s

variable {json : JsonText} {stream : StreamState σ} {frames : List String} {data : String}
  {s s' : σ}

theorem payloads_append (before : List String) :
    payloads json (before ++ [data]) = payloads json before ++ (payload json data).toList := by
  unfold payloads
  rw [List.filterMap_append]
  cases h : payload json data <;> simp [h]

private theorem step_panics_iff : Accumulator.step json stream s data = .error .panic ↔
    ∃ v, payload json data = some v ∧ stream.push v s = .error .panic := by
  unfold Accumulator.step Accumulator.push payload
  by_cases hdone : data = "[DONE]"
  · simp [hdone, bind, Except.bind, pure, Except.pure]
  · cases hparse : json.parse data with
    | error message => simp [hdone, refuse, bind, Except.bind, Except.toOption]
    | ok v =>
      by_cases herror : reportsError v = true
      · simp [hdone, herror, refuse, bind, Except.bind, Except.toOption]
      · cases hpush : stream.push v s <;>
          simp [hdone, herror, hpush, bind, Except.bind, pure, Except.pure, Except.toOption]

inductive Stepped (json : JsonText) (stream : StreamState σ) (s : σ) (data : String) : σ → Prop
  | done (hdata : data = "[DONE]") : Stepped json stream s data (stream.done s)
  | pushed {v : Value} {s' : σ} {deltas : List ModelDelta} (hdata : data ≠ "[DONE]")
      (hpayload : payload json data = some v) (hpush : stream.push v s = .ok (s', deltas)) :
      Stepped json stream s data s'

theorem step_stepped (h : Accumulator.step json stream s data = .ok s') :
    Stepped json stream s data s' := by
  obtain ⟨⟨t, deltas⟩, hpush, h⟩ := Checked.bind_ok h
  cases h
  unfold Accumulator.push at hpush
  by_cases hdone : data = "[DONE]"
  · rw [if_pos hdone] at hpush
    cases hpush
    exact .done hdone
  · rw [if_neg hdone] at hpush
    cases hparse : json.parse data with
    | error message =>
      rw [hparse] at hpush
      cases hpush
    | ok v =>
      rw [hparse] at hpush
      change (if reportsError v = true then _ else _) = _ at hpush
      by_cases herror : reportsError v = true
      · rw [if_pos herror] at hpush
        cases hpush
      · rw [if_neg herror] at hpush
        refine .pushed hdone ?_ hpush
        simp [payload, hdone, hparse, herror, Except.toOption]

theorem accumulate_panics_iff : accumulate json stream frames = .error .panic ↔
    (∃ before data after s v, frames = before ++ data :: after ∧
      Accumulator.run json stream before = .ok s ∧ payload json data = some v ∧
      stream.push v s = .error .panic) ∨
    (∃ s, Accumulator.run json stream frames = .ok s ∧ stream.finish s = .error .panic) := by
  have hrun : Accumulator.run json stream frames = .error .panic ↔
      ∃ before data after s v, frames = before ++ data :: after ∧
        Accumulator.run json stream before = .ok s ∧ payload json data = some v ∧
        stream.push v s = .error .panic := by
    unfold Accumulator.run
    rw [Zhir.Library.foldlM_error_iff]
    simp only [step_panics_iff]
    constructor
    · rintro ⟨before, data, after, s, hframes, hbefore, v, hv, hpush⟩
      exact ⟨before, data, after, s, v, hframes, hbefore, hv, hpush⟩
    · rintro ⟨before, data, after, s, v, hframes, hbefore, hv, hpush⟩
      exact ⟨before, data, after, s, hframes, hbefore, v, hv, hpush⟩
  rw [← hrun]
  unfold accumulate
  cases Accumulator.run json stream frames with
  | error fault => simp [bind, Except.bind]
  | ok s => simp [bind, Except.bind]

end

theorem append_ok {v v' : Value} {key text : String} (h : append v key text = .ok v') :
    v.Indexable ∧ v'.isObject = true ∧ v'.field key = some (.string
      ((((v.field key).bind asString).getD "") ++ text)) ∧
      ∀ other, other ≠ key → v'.field other = v.field other := by
  obtain ⟨hindex, w, hw, hobject, hfield⟩ := Value.modifyField_ok h
  refine ⟨hindex, hobject, ?_, fun other hne => (hfield other).trans (if_neg hne)⟩
  rw [hfield, if_pos rfl]
  cases hslot : v.field key with
  | none =>
    rw [hslot] at hw
    cases hw
    simp
  | some slot =>
    rw [hslot] at hw
    cases slot with
    | string existing =>
      cases hw
      rfl
    | _ =>
      cases hw
      simp [asString]

theorem append_error_iff {v : Value} {key text : String} {fault : Fault} :
    append v key text = .error fault ↔ ¬ v.Indexable ∧ fault = .panic := by
  unfold append
  rw [Value.modifyField_error_iff]
  cases hslot : (v.field key).getD .null <;> simp

theorem exists_append {v : Value} (h : v.Indexable) (key text : String) :
    ∃ v', append v key text = .ok v' := by
  cases happend : append v key text with
  | error fault => exact absurd h (append_error_iff.mp happend).1
  | ok v' => exact ⟨v', rfl⟩

/-- The value that fields give a name: the last that is not `null`. -/
def lastField (fields : List (String × Value)) (name : String) : Option Value :=
  lastValue name (fields.filter fun f => f.2 ≠ .null)

private theorem lastValue_copied {exclude : List String} {name : String}
    (fields : List (String × Value))
    (h : name ∉ exclude) :
    lastValue name (fields.filter fun f => f.1 ∉ exclude ∧ f.2 ≠ .null) =
      lastField fields name := by
  unfold lastField lastValue
  rw [List.filter_filter, List.filter_filter]
  congr 2
  refine List.filter_congr fun f _ => ?_
  by_cases hname : f.1 = name
  · subst hname
    simp [h]
  · simp [hname]

private theorem lastValue_excluded {exclude : List String} {name : String}
    (fields : List (String × Value)) (h : name ∈ exclude) :
    lastValue name (fields.filter fun f => f.1 ∉ exclude ∧ f.2 ≠ .null) = none := by
  unfold lastValue
  rw [List.filter_filter, List.filter_eq_nil_iff.mpr]
  · rfl
  · intro f _
    by_cases hname : f.1 = name
    · subst hname
      simp [h]
    · simp [hname]

theorem exists_copyFields {target : Value} (h : target.isObject = true) (source : Value)
    (exclude : List String) :
    ∃ v, copyFields target source exclude = .ok v ∧ v.isObject = true ∧
      ∀ name, v.field name = if name ∈ exclude then target.field name
        else (lastField ((asObject source).getD []) name).or (target.field name) := by
  have hcopy : copyFields target source exclude =
      (((asObject source).getD []).filter fun f => f.1 ∉ exclude ∧ f.2 ≠ .null).foldlM
        (fun target f => target.assign f.1 f.2) target := by
    rw [List.foldlM_filter]
    simp only [decide_eq_true_eq]
    cases source <;> rfl
  obtain ⟨v, hv, -, hobject, hfield⟩ := Value.foldlM_assign (Value.indexable_of_isObject h)
    (((asObject source).getD []).filter fun f => f.1 ∉ exclude ∧ f.2 ≠ .null)
  refine ⟨v, hcopy.trans hv, hobject h, fun name => ?_⟩
  rw [hfield]
  by_cases hname : name ∈ exclude
  · rw [if_pos hname, lastValue_excluded _ hname]
    rfl
  · rw [if_neg hname, lastValue_copied _ hname]

end Zhir.Streaming
