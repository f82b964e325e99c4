import Zhir.Library.Keyed
import Zhir.Library.TreeMap
import Zhir.Streaming.MessagesShapes

/-!
The events of a Messages stream, and the accumulator as cells: one for the message, and one for
each block.
-/

set_option autoImplicit false
set_option relaxedAutoImplicit false

namespace Zhir.Streaming.Messages

open Std (ExtTreeMap)
open Zhir.Core
open Zhir.Library (Keyed)
open Zhir.Models

inductive Delta
  | text (piece : String)
  | thinking (piece : String)
  | signature (piece : String)
  | inputJson (piece : String)
  | citations (citation : Value)
  deriving DecidableEq, Repr

def Delta.toValue : Delta → Value
  | .text piece => .object [("text", .string piece), ("type", .string "text_delta")]
  | .thinking piece => .object [("thinking", .string piece), ("type", .string "thinking_delta")]
  | .signature piece =>
    .object [("signature", .string piece), ("type", .string "signature_delta")]
  | .inputJson piece =>
    .object [("partial_json", .string piece), ("type", .string "input_json_delta")]
  | .citations citation => .object [("citation", citation), ("type", .string "citations_delta")]

inductive BlockEvent
  | start (block : Value)
  | delta (change : Delta)
  | stop
  deriving DecidableEq, Repr

inductive Event
  | messageStart (message : Value)
  | block (index : Nat) (event : BlockEvent)
  | messageDelta (fields counters : List (String × Value))
  | messageStop
  | ping
  deriving DecidableEq, Repr

def BlockEvent.toValue (i : Nat) : BlockEvent → Value
  | .start block => .object [("content_block", block), ("index", decimal i),
      ("type", .string "content_block_start")]
  | .delta change => .object [("delta", change.toValue), ("index", decimal i),
      ("type", .string "content_block_delta")]
  | .stop => .object [("index", decimal i), ("type", .string "content_block_stop")]

def Event.toValue : Event → Value
  | .messageStart message => .object [("message", message), ("type", .string "message_start")]
  | .block i event => event.toValue i
  | .messageDelta fields counters => .object [("delta", .object fields),
      ("type", .string "message_delta"), ("usage", .object counters)]
  | .messageStop => .object [("type", .string "message_stop")]
  | .ping => .object [("type", .string "ping")]

theorem not_reportsError (e : Event) : reportsError e.toValue = false := by
  cases e with
  | block i event => cases event <;> simp [reportsError, Event.toValue, BlockEvent.toValue,
      Value.field, List.lookup_cons, asString]
  | _ => simp [reportsError, Event.toValue, Value.field, List.lookup_cons, asString]

structure BlockCell where
  value : Option Value := none
  raw : Option String := none

def BlockCell.append (c : BlockCell) (block : Value) (key text : String) : Checked BlockCell := do
  let block ← Streaming.append block key text
  return { c with value := some block }

def BlockCell.extend (c : BlockCell) (block : Value) : Delta → Checked BlockCell
  | .text piece => c.append block "text" piece
  | .thinking piece => c.append block "thinking" piece
  | .signature piece => c.append block "signature" piece
  | .inputJson piece => .ok { c with raw := some (c.raw.getD "" ++ piece) }
  | .citations _ => .ok c

def BlockCell.close (json : JsonText) (raw : String) (block : Value) : Checked BlockCell :=
  match json.parse raw with
  | .error message => refuse (.protocol message)
  | .ok input => do
    let block ← block.assign "input" input
    return { value := some block, raw := none }

def BlockCell.start (c : BlockCell) (block : Value) : Checked BlockCell :=
  if c.value.isSome then refuse (.protocol "duplicate content block")
  else .ok { c with value := some block }

def BlockCell.change (c : BlockCell) (change : Delta) : Checked BlockCell :=
  match c.value with
  | none => refuse (.protocol "delta before block start")
  | some block => c.extend block change

def BlockCell.stop (json : JsonText) (c : BlockCell) : Checked BlockCell :=
  match c.raw with
  | none => .ok c
  | some raw =>
    match c.value with
    | none => refuse (.protocol "unknown block stop")
    | some block => BlockCell.close json raw block

def BlockCell.step (json : JsonText) (c : BlockCell) : BlockEvent → Checked BlockCell
  | .start block => c.start block
  | .delta change => c.change change
  | .stop => c.stop json

structure MessageCell where
  value : Value
  done : Bool

def putFields (fields counters : List (String × Value)) (v : Value) : Checked Value := do
  let v ← fields.foldlM (fun v f => v.assign f.1 f.2) v
  putUsage counters v

def MessageCell.step (c : MessageCell) : Event → Checked MessageCell
  | .messageStart message => .ok { c with value := message }
  | .messageDelta fields counters =>
    (putFields fields counters c.value).map fun value => { c with value }
  | .messageStop => .ok { c with done := true }
  | _ => .ok c

/-- The cell an event belongs to; the message is under no index. -/
def Event.key : Event → Option Nat
  | .block i event => some (index (event.toValue i))
  | _ => none

def Cell : Option Nat → Type
  | none => MessageCell
  | some _ => BlockCell

def State.blockCell (s : State) (i : Nat) : BlockCell := ⟨s.blocks[i]?, s.partials[i]?⟩

def State.cell (s : State) : (k : Option Nat) → Cell k
  | none => (⟨s.value, s.done⟩ : MessageCell)
  | some i => s.blockCell i

def cellStep (json : JsonText) : (k : Option Nat) → Cell k → Event → Checked (Cell k)
  | none, c, e => MessageCell.step c e
  | some _, c, .block _ event => BlockCell.step json c event
  | some _, c, _ => .ok c

def eventStep (json : JsonText) (s : State) (e : Event) : Checked State := do
  let (s, _) ← State.push json e.toValue s
  return s

/-- A step on a block: it faults as the block does, or leaves the block as it does and all
else alone. -/
inductive StepsBlock (json : JsonText) (s : State) (i : Nat) (event : BlockEvent) :
    Checked State → Prop
  | error {fault : Fault} (h : BlockCell.step json (s.blockCell i) event = .error fault) :
      StepsBlock json s i event (.error fault)
  | ok {s' : State} (h : BlockCell.step json (s.blockCell i) event = .ok (s'.blockCell i))
      (hvalue : s'.value = s.value) (hdone : s'.done = s.done)
      (hother : ∀ j, j ≠ i → s'.blockCell j = s.blockCell j) : StepsBlock json s i event (.ok s')

section

variable {json : JsonText} {s : State} {i : Nat}

private theorem blockCell_insert (s : State) (i : Nat) (block : Value) :
    ({ s with blocks := s.blocks.insert i block } : State).blockCell i =
      { s.blockCell i with value := some block } := by
  simp [State.blockCell]

private theorem blockCell_insert_of_ne (s : State) {i j : Nat} (block : Value) (h : j ≠ i) :
    ({ s with blocks := s.blocks.insert i block } : State).blockCell j = s.blockCell j := by
  simp [State.blockCell, ExtTreeMap.getElem?_insert, Ne.symm h]

private theorem appendText_stepsBlock {block : Value} {change : Delta} {key text : String}
    {deltas : List ModelDelta} (hblock : s.blocks[i]? = some block)
    (hextend : (s.blockCell i).extend block change = (s.blockCell i).append block key text) :
    StepsBlock json s i (.delta change) (do
      let (s, _) ← (do
        let s ← s.appendText i block key text
        return (s, deltas) : Checked (State × List ModelDelta))
      return s) := by
  have hvalue : (s.blockCell i).value = some block := hblock
  have hstep : BlockCell.step json (s.blockCell i) (.delta change) =
      (s.blockCell i).append block key text := by
    change (s.blockCell i).change change = _
    unfold BlockCell.change
    simp only [hvalue]
    exact hextend
  cases happend : append block key text with
  | error fault =>
    have hcell : (s.blockCell i).append block key text = .error fault := by
      unfold BlockCell.append
      rw [happend]
      rfl
    have hstate : s.appendText i block key text = .error fault := by
      unfold State.appendText
      rw [happend]
      rfl
    rw [hstate]
    exact .error (hstep.trans hcell)
  | ok block' =>
    have hcell : (s.blockCell i).append block key text =
        .ok { s.blockCell i with value := some block' } := by
      unfold BlockCell.append
      rw [happend]
      rfl
    have hstate : s.appendText i block key text =
        .ok { s with blocks := s.blocks.insert i block' } := by
      unfold State.appendText
      rw [happend]
      rfl
    rw [hstate]
    refine .ok ?_ rfl rfl fun j hj => blockCell_insert_of_ne s block' hj
    rw [hstep, hcell, blockCell_insert]

private theorem kindOf_start (block : Value) :
    kindOf ((BlockEvent.start block).toValue i) = "content_block_start" := by
  simp [kindOf, textAt, BlockEvent.toValue, Value.field, List.lookup_cons, asString]

private theorem kindOf_delta (change : Delta) :
    kindOf ((BlockEvent.delta change).toValue i) = "content_block_delta" := by
  simp [kindOf, textAt, BlockEvent.toValue, Value.field, List.lookup_cons, asString]

private theorem kindOf_stop : kindOf (BlockEvent.stop.toValue i) = "content_block_stop" := by
  simp [kindOf, textAt, BlockEvent.toValue, Value.field, List.lookup_cons, asString]

private theorem deltaOf_delta (change : Delta) :
    deltaOf ((BlockEvent.delta change).toValue i) = change.toValue := by
  simp [deltaOf, BlockEvent.toValue, Value.field]

private theorem start_stepsBlock (block : Value) :
    StepsBlock json s (index ((BlockEvent.start block).toValue i)) (.start block)
      (eventStep json s (.block i (.start block))) := by
  have hfield : ((BlockEvent.start block).toValue i).field "content_block" = some block := by
    simp [BlockEvent.toValue, Value.field]
  unfold eventStep Event.toValue
  rw [push_of_start (kindOf_start block), hfield]
  generalize index ((BlockEvent.start block).toValue i) = j
  by_cases hopen : (s.blocks[j]?).isSome = true
  · simp only [hopen, if_true]
    exact .error (if_pos hopen)
  · simp only [hopen]
    refine .ok ?_ rfl rfl fun k hk => blockCell_insert_of_ne s block hk
    rw [blockCell_insert]
    exact if_neg hopen

@[simp] theorem kindOf_text (piece : String) :
    kindOf (Delta.text piece).toValue = "text_delta" := by
  simp [kindOf, textAt, Delta.toValue, Value.field, List.lookup_cons, asString]

@[simp] theorem kindOf_thinking (piece : String) :
    kindOf (Delta.thinking piece).toValue = "thinking_delta" := by
  simp [kindOf, textAt, Delta.toValue, Value.field, List.lookup_cons, asString]

@[simp] theorem kindOf_signature (piece : String) :
    kindOf (Delta.signature piece).toValue = "signature_delta" := by
  simp [kindOf, textAt, Delta.toValue, Value.field, List.lookup_cons, asString]

@[simp] theorem kindOf_inputJson (piece : String) :
    kindOf (Delta.inputJson piece).toValue = "input_json_delta" := by
  simp [kindOf, textAt, Delta.toValue, Value.field, List.lookup_cons, asString]

@[simp] theorem kindOf_citations (citation : Value) :
    kindOf (Delta.citations citation).toValue = "citations_delta" := by
  simp [kindOf, textAt, Delta.toValue, Value.field, List.lookup_cons, asString]

@[simp] theorem textAt_text (piece : String) :
    textAt (Delta.text piece).toValue "text" = piece := by
  simp [textAt, Delta.toValue, Value.field, asString]

@[simp] theorem textAt_thinking (piece : String) :
    textAt (Delta.thinking piece).toValue "thinking" = piece := by
  simp [textAt, Delta.toValue, Value.field, asString]

@[simp] theorem textAt_signature (piece : String) :
    textAt (Delta.signature piece).toValue "signature" = piece := by
  simp [textAt, Delta.toValue, Value.field, asString]

@[simp] theorem textAt_inputJson (piece : String) :
    textAt (Delta.inputJson piece).toValue "partial_json" = piece := by
  simp [textAt, Delta.toValue, Value.field, asString]

private theorem delta_stepsBlock (change : Delta) :
    StepsBlock json s (index ((BlockEvent.delta change).toValue i)) (.delta change)
      (eventStep json s (.block i (.delta change))) := by
  unfold eventStep Event.toValue
  rw [push_of_blockDelta (kindOf_delta change), deltaOf_delta]
  generalize index ((BlockEvent.delta change).toValue i) = j
  have hcell : (s.blockCell j).value = s.blocks[j]? := rfl
  unfold State.blockDelta
  cases hblock : s.blocks[j]? with
  | none =>
    refine .error ?_
    change (s.blockCell j).change change = _
    unfold BlockCell.change
    rw [hcell, hblock]
    rfl
  | some block =>
    have hstep : BlockCell.step json (s.blockCell j) (.delta change) =
        (s.blockCell j).extend block change := by
      change (s.blockCell j).change change = _
      unfold BlockCell.change
      rw [hcell, hblock]
    cases change with
    | text piece =>
      simp only [kindOf_text, textAt_text, if_true]
      exact @appendText_stepsBlock json s j block (.text piece) _ _ _ hblock rfl
    | thinking piece =>
      simp only [kindOf_thinking, textAt_thinking, String.reduceEq, if_false, if_true]
      exact @appendText_stepsBlock json s j block (.thinking piece) _ _ _ hblock rfl
    | signature piece =>
      simp only [kindOf_signature, textAt_signature, String.reduceEq, if_false, if_true]
      exact @appendText_stepsBlock json s j block (.signature piece) _ _ _ hblock rfl
    | inputJson piece =>
      simp only [kindOf_inputJson, textAt_inputJson, String.reduceEq, if_false, if_true]
      refine .ok ?_ rfl rfl fun k hk => ?_
      · rw [hstep]
        simp [State.blockCell, BlockCell.extend]
      · simp [State.blockCell, ExtTreeMap.getElem?_insert, Ne.symm hk]
    | citations citation =>
      simp only [kindOf_citations, String.reduceEq, if_false]
      exact .ok hstep rfl rfl fun k hk => rfl

private theorem stop_stepsBlock :
    StepsBlock json s (index (BlockEvent.stop.toValue i)) .stop
      (eventStep json s (.block i .stop)) := by
  unfold eventStep Event.toValue
  rw [push_of_stop kindOf_stop]
  generalize index (BlockEvent.stop.toValue i) = j
  have hraw : (s.blockCell j).raw = s.partials[j]? := rfl
  have hvalue : (s.blockCell j).value = s.blocks[j]? := rfl
  have hstep : BlockCell.step json (s.blockCell j) .stop = (s.blockCell j).stop json := rfl
  unfold State.stopBlock
  unfold BlockCell.stop at hstep
  rw [hraw, hvalue] at hstep
  cases hopen : s.partials[j]? with
  | none =>
    rw [hopen] at hstep
    exact .ok hstep rfl rfl fun k hk => rfl
  | some raw =>
    rw [hopen] at hstep
    cases hblock : s.blocks[j]? with
    | none =>
      rw [hblock] at hstep
      exact .error hstep
    | some block =>
      rw [hblock] at hstep
      simp only at hstep
      unfold BlockCell.close at hstep
      cases hparse : json.parse raw with
      | error message =>
        simp only [hparse] at hstep
        simp only [hparse]
        exact .error hstep
      | ok input =>
        simp only [hparse] at hstep
        simp only [hparse]
        cases hassign : block.assign "input" input with
        | error fault =>
          rw [hassign] at hstep
          exact .error hstep
        | ok block' =>
          rw [hassign] at hstep
          refine .ok ?_ rfl rfl fun k hk => ?_
          · rw [hstep]
            simp [State.blockCell]
          · simp [State.blockCell, ExtTreeMap.getElem?_insert, ExtTreeMap.getElem?_erase,
              Ne.symm hk]

private theorem block_stepsBlock (event : BlockEvent) :
    StepsBlock json s (index (event.toValue i)) event (eventStep json s (.block i event)) := by
  cases event with
  | start block => exact start_stepsBlock block
  | delta change => exact delta_stepsBlock change
  | stop => exact stop_stepsBlock

private theorem kindOf_messageStart (message : Value) :
    kindOf (Event.messageStart message).toValue = "message_start" := by
  simp [kindOf, textAt, Event.toValue, Value.field, List.lookup_cons, asString]

private theorem kindOf_messageDelta (fields counters : List (String × Value)) :
    kindOf (Event.messageDelta fields counters).toValue = "message_delta" := by
  simp [kindOf, textAt, Event.toValue, Value.field, List.lookup_cons, asString]

private theorem kindOf_messageStop : kindOf Event.messageStop.toValue = "message_stop" := by
  simp [kindOf, textAt, Event.toValue, Value.field, asString]

private theorem kindOf_ping : kindOf Event.ping.toValue = "ping" := by
  simp [kindOf, textAt, Event.toValue, Value.field, asString]

private theorem deltaFields_messageDelta (fields counters : List (String × Value)) :
    deltaFields (Event.messageDelta fields counters).toValue = fields := by
  simp [deltaFields, fieldsOf, Event.toValue, Value.field, asObject]

private theorem usageFields_messageDelta (fields counters : List (String × Value)) :
    usageFields (Event.messageDelta fields counters).toValue = counters := by
  simp [usageFields, fieldsOf, Event.toValue, Value.field, List.lookup_cons, asObject]

private theorem messageDelta_eq_map {v : Value} : s.messageDelta v =
    (putFields (deltaFields v) (usageFields v) s.value).map fun value => ({ s with value },
      match fieldsOf v "usage" with
      | none => []
      | some _ => [.usage (Protocol.messages.usage ((value.field "usage").getD .null))]) := by
  rw [messageDelta_eq]
  unfold putFields
  cases (deltaFields v).foldlM (fun v f => v.assign f.1 f.2) s.value with
  | error fault => rfl
  | ok value =>
    change (putUsage (usageFields v) value >>= _) = (putUsage (usageFields v) value).map _
    cases putUsage (usageFields v) value <;> rfl

private theorem eventStep_of_message {e : Event} (h : e.key = none) :
    eventStep json s e = (MessageCell.step ⟨s.value, s.done⟩ e).map fun c =>
      { s with value := c.value, done := c.done } := by
  unfold eventStep
  cases e with
  | messageStart message =>
    have hfield : (Event.messageStart message).toValue.field "message" = some message := by
      simp [Event.toValue, Value.field]
    rw [push_of_messageStart (kindOf_messageStart message), hfield]
    rfl
  | block i event => cases h
  | messageDelta fields counters =>
    rw [push_of_messageDelta (kindOf_messageDelta fields counters), messageDelta_eq_map,
      deltaFields_messageDelta, usageFields_messageDelta]
    change _ = ((putFields fields counters s.value).map _).map _
    cases putFields fields counters s.value <;> rfl
  | messageStop =>
    rw [push_of_messageStop kindOf_messageStop]
    rfl
  | ping =>
    rw [push_of_other (by rw [kindOf_ping]; decide)]
    rfl

private theorem message_error {e : Event} {fault : Fault} (he : e.key = none)
    (h : eventStep json s e = .error fault) :
    MessageCell.step ⟨s.value, s.done⟩ e = .error fault := by
  rw [eventStep_of_message he] at h
  cases hstep : MessageCell.step ⟨s.value, s.done⟩ e with
  | error fault' =>
    rw [hstep] at h
    cases h
    rfl
  | ok c =>
    rw [hstep] at h
    cases h

private theorem message_ok {e : Event} {s' : State} (he : e.key = none)
    (h : eventStep json s e = .ok s') :
    MessageCell.step ⟨s.value, s.done⟩ e = .ok ⟨s'.value, s'.done⟩ ∧
      ∀ i, s'.blockCell i = s.blockCell i := by
  rw [eventStep_of_message he] at h
  cases hstep : MessageCell.step ⟨s.value, s.done⟩ e with
  | error fault =>
    rw [hstep] at h
    cases h
  | ok c =>
    rw [hstep] at h
    cases h
    exact ⟨rfl, fun i => rfl⟩

private theorem key_eq_some {e : Event} {i : Nat} (h : e.key = some i) :
    ∃ j event, e = .block j event ∧ index (event.toValue j) = i := by
  cases e with
  | block j event =>
    cases h
    exact ⟨j, event, rfl, rfl⟩
  | _ => cases h

theorem keyed (json : JsonText) :
    Keyed (eventStep json) Event.key State.cell (cellStep json) := by
  refine ⟨fun s e fault h => ?_, fun s e s' h => ?_, fun s e s' h k hk => ?_⟩
  · have hcell : ∀ k, e.key = k → cellStep json k (s.cell k) e = .error fault := by
      intro k hkey
      cases k with
      | none => exact message_error hkey h
      | some i =>
        obtain ⟨j, event, rfl, rfl⟩ := key_eq_some hkey
        have hsteps := @block_stepsBlock json s j event
        rw [h] at hsteps
        cases hsteps with
        | error hstep => exact hstep
    exact hcell _ rfl
  · have hcell : ∀ k, e.key = k → cellStep json k (s.cell k) e = .ok (s'.cell k) := by
      intro k hkey
      cases k with
      | none => exact (message_ok hkey h).1
      | some i =>
        obtain ⟨j, event, rfl, rfl⟩ := key_eq_some hkey
        have hsteps := @block_stepsBlock json s j event
        rw [h] at hsteps
        cases hsteps with
        | ok hstep => exact hstep
    exact hcell _ rfl
  · cases hkey : e.key with
    | none =>
      cases k with
      | none => exact absurd hkey.symm hk
      | some j => exact (message_ok hkey h).2 j
    | some i =>
      obtain ⟨j, event, rfl, rfl⟩ := key_eq_some hkey
      have hsteps := @block_stepsBlock json s j event
      rw [h] at hsteps
      cases hsteps with
      | ok hstep hvalue hdone hother =>
        cases k with
        | none =>
          change (⟨s'.value, s'.done⟩ : MessageCell) = ⟨s.value, s.done⟩
          rw [hvalue, hdone]
        | some n => exact hother n fun heq => hk (congrArg some heq)

end

end Zhir.Streaming.Messages
