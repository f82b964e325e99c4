import Zhir.Streaming.ChatShapes
import Zhir.Streaming.MessagesShapes

/-!
Exactly which streams make an accumulator panic.
-/

set_option autoImplicit false
set_option relaxedAutoImplicit false

namespace Zhir.Streaming

open Zhir.Core
open Zhir.Models

variable {json : JsonText} {frames : List String} {data : String} {overflowChecks : Bool}

private theorem payloads_done : payloads json (frames ++ ["[DONE]"]) = payloads json frames := by
  rw [payloads_append]
  simp [payload]

private theorem payloads_pushed {v : Value} (h : payload json data = some v) :
    payloads json (frames ++ [data]) = payloads json frames ++ [v] := by
  rw [payloads_append, h]
  rfl

section

variable {σ : Type} {stream : StreamState σ} {panics : List Value → Value → Prop}
  {panicsAtEnd : List String → Prop} {Kept : List String → σ → Prop}

/-- No frame that is reached panics after those before it, nor does a response that is. -/
def Sound (json : JsonText) (stream : StreamState σ) (panics : List Value → Value → Prop)
    (panicsAtEnd : List String → Prop) (frames : List String) : Prop :=
  (∀ before data after v, frames = before ++ data :: after → Taken json stream before →
    payload json data = some v → ¬ panics (payloads json before) v) ∧
  (Taken json stream frames → ¬ panicsAtEnd frames)

private theorem ends_iff_sound
    (hkept : ∀ {frames s}, Accumulator.run json stream frames = .ok s → Kept frames s)
    (hpush : ∀ {frames s v}, Kept frames s →
      (stream.push v s = .error .panic ↔ panics (payloads json frames) v))
    (hfinish : ∀ {frames s}, Kept frames s →
      (stream.finish s = .error .panic ↔ panicsAtEnd frames)) :
    accumulate json stream frames ≠ .error .panic ↔
      Sound json stream panics panicsAtEnd frames := by
  rw [Ne, accumulate_panics_iff, not_or]
  unfold Sound
  refine and_congr ?_ ?_
  · constructor
    · rintro hnone before data after v hframes ⟨s, hrun⟩ hpayload hpanics
      exact hnone ⟨before, data, after, s, v, hframes, hrun, hpayload,
        (hpush (hkept hrun)).mpr hpanics⟩
    · rintro hsound ⟨before, data, after, s, v, hframes, hrun, hpayload, hfault⟩
      exact hsound before data after v hframes ⟨s, hrun⟩ hpayload
        ((hpush (hkept hrun)).mp hfault)
  · constructor
    · rintro hnone ⟨s, hrun⟩ hpanics
      exact hnone ⟨s, hrun, (hfinish (hkept hrun)).mpr hpanics⟩
    · rintro hsound ⟨s, hrun, hfault⟩
      exact hsound ⟨s, hrun⟩ ((hfinish (hkept hrun)).mp hfault)

end

namespace Chat

def KeptOf (json : JsonText) (frames : List String) (s : State) : Prop :=
  Kept (payloads json frames) s ∧ (s.done = true ↔ "[DONE]" ∈ frames)

theorem run_kept {s : State}
    (h : Accumulator.run json (stream overflowChecks) frames = .ok s) : KeptOf json frames s := by
  refine Zhir.Library.foldlM_invariant (I := KeptOf json) ⟨kept_new, by simp [State.new]⟩ ?_ h
  rintro taken s data s' ⟨hkept, hdone⟩ hstep
  cases step_stepped hstep with
  | done hdata =>
    subst hdata
    unfold KeptOf
    rw [payloads_done]
    exact ⟨⟨hkept.value, hkept.calls, hkept.isEmpty⟩, iff_of_true rfl (by simp)⟩
  | pushed hdata hpayload hpush =>
    unfold KeptOf
    rw [payloads_pushed hpayload]
    obtain ⟨hkept', hdone'⟩ := hkept.push_ok hpush
    refine ⟨hkept', ?_⟩
    rw [hdone', hdone]
    simp [Ne.symm hdata]

/-- No frame that is reached puts text into what is no message, or counts past the largest
index, and the calls of a complete stream have a message to be put into. -/
def Sound (json : JsonText) (overflowChecks : Bool) (frames : List String) : Prop :=
  Streaming.Sound json (stream overflowChecks) (Panics overflowChecks)
    (fun frames => "[DONE]" ∈ frames ∧ PanicsAtEnd (payloads json frames)) frames

private theorem ends_iff : accumulate json (stream overflowChecks) frames ≠ .error .panic ↔
    Sound json overflowChecks frames := by
  refine ends_iff_sound (run_kept : ∀ {frames s}, _ → KeptOf json frames s)
    (fun h => h.1.push_panics_iff) ?_
  intro frames s h
  rw [← h.2]
  exact h.1.finish_panics_iff

end Chat

namespace Messages

theorem run_kept {s : State} (h : Accumulator.run json (stream json) frames = .ok s) :
    Kept (payloads json frames) s := by
  refine Zhir.Library.foldlM_invariant (I := fun frames s => Kept (payloads json frames) s)
    kept_new ?_ h
  intro taken s data s' hkept hstep
  cases step_stepped hstep with
  | done hdata =>
    subst hdata
    rw [payloads_done]
    exact hkept
  | pushed hdata hpayload hpush =>
    rw [payloads_pushed hpayload]
    exact hkept.push_ok hpush

/-- No frame that is reached puts a text, an input, a field or a counter into what cannot take
it, and the blocks of a complete stream have a message to be put into. -/
def Sound (json : JsonText) (frames : List String) : Prop :=
  Streaming.Sound json (stream json) (Panics json)
    (fun frames => PanicsAtEnd (payloads json frames)) frames

private theorem ends_iff : accumulate json
    (stream json) frames ≠ .error .panic ↔ Sound json frames :=
  ends_iff_sound (run_kept : ∀ {frames s}, _ → Kept (payloads json frames) s)
    (fun h => h.push_panics_iff) (fun h => h.finish_panics_iff)

end Messages

/-- The accumulators end in a response or an error exactly for sound streams. -/
theorem accumulators_end_iff (json : JsonText) (overflowChecks : Bool) (frames : List String) :
    (accumulate json (Chat.stream overflowChecks) frames ≠ .error .panic ↔
      Chat.Sound json overflowChecks frames) ∧
    (accumulate json (Messages.stream json) frames ≠ .error .panic ↔
      Messages.Sound json frames) :=
  ⟨Chat.ends_iff, Messages.ends_iff⟩

def stringBlockText : String :=
  "\x7b\"content_block\":\"x\",\"index\":0,\"type\":\"content_block_start\"\x7d"

def textDeltaText : String :=
  "\x7b\"delta\":\x7b\"text\":\"y\",\"type\":\"text_delta\"\x7d,\"index\":0," ++
    "\"type\":\"content_block_delta\"\x7d"

def stringMessageText : String :=
  "\x7b\"choices\":[\x7b\"delta\":\x7b\"content\":\"y\"\x7d,\"message\":\"x\"\x7d]\x7d"

def sampleDocuments : List (String × Value) := [
  (stringBlockText, .object [("content_block", .string "x"), ("index", .number "0"),
    ("type", .string "content_block_start")]),
  (textDeltaText, .object [
    ("delta", .object [("text", .string "y"), ("type", .string "text_delta")]),
    ("index", .number "0"), ("type", .string "content_block_delta")]),
  (stringMessageText, .object [("choices", .array [.object [
    ("delta", .object [("content", .string "y")]), ("message", .string "x")]])])]

def sampleJson : JsonText where
  parse text := match sampleDocuments.lookup text with
    | some v => .ok v
    | none => .error "expected value at line 1 column 1"
  print _ := ""

/-- Text for a block that was opened as a string, and for a message that is one. -/
theorem string_block_panics :
    accumulate sampleJson (Messages.stream sampleJson) [stringBlockText, textDeltaText] =
      .error .panic ∧
    accumulate sampleJson (Chat.stream false) [stringMessageText] = .error .panic := by
  constructor
  · decide +kernel
  · decide +kernel

end Zhir.Streaming
