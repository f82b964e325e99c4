import Zhir.Core.Value
import Zhir.Library.Lines

/-!
Incremental framing of server-sent events. The decoder takes one byte at a time; over any pushes
it reads the lines of the bytes, and over the lines of a block the event the block stands for.
-/

set_option autoImplicit false
set_option relaxedAutoImplicit false

namespace Zhir.Models

open Zhir.Core Zhir.Library

/-- One frame, with the fields explicitly present in it. -/
structure SseEvent where
  data : String := ""
  event : Option String := none
  id : Option String := none
  retry : Option UInt64 := none
  deriving DecidableEq, Repr

structure SseDecoder where
  line : List UInt8 := []
  data : List String := []
  frame : SseEvent := {}
  skipLf : Bool := false
  deriving DecidableEq

/-- `str::from_utf8`; the text of its error, which names the offending bytes, is left out. -/
def fromUtf8 (bytes : List UInt8) : Result String :=
  match String.fromUTF8? bytes.toByteArray with
  | some s => .ok s
  | none => .error (.protocol "invalid utf-8")

def splitOnce (s : String) (c : Char) : Option (String × String) :=
  match s.toList.dropWhile (· != c) with
  | [] => none
  | _ :: rest => some (.ofList (s.toList.takeWhile (· != c)), .ofList rest)

def stripPrefix (s : String) (c : Char) : Option String :=
  match s.toList with
  | [] => none
  | first :: rest => if first = c then some (.ofList rest) else none

/-- `str::parse` to a `u64`, of a text of digits only. -/
def parseU64 (digits : String) : Option UInt64 :=
  let n := Nat.ofDigitChars 10 digits.toList 0
  if n ≤ maxU64 then some (.ofNat n) else none

def lf : UInt8 := 10

def cr : UInt8 := 13

def marks : LineMarks UInt8 where
  cr := cr
  lf := lf
  distinct := by decide

namespace SseDecoder

def field (d : SseDecoder) (name value : String) : SseDecoder :=
  match name with
  | "data" => { d with data := d.data ++ [value] }
  | "event" => { d with frame.event := some value }
  | "id" => if Char.ofNat 0 ∉ value.toList then { d with frame.id := some value } else d
  | "retry" =>
    if value ≠ "" ∧ value.toList.all Char.isDigit then { d with frame.retry := parseU64 value }
    else d
  | _ => d

/-- What `push` does with a whole line. -/
def endLine (d : SseDecoder) (line : String) : SseDecoder × Option SseEvent :=
  if line = "" then
    if d.data ≠ [] then
      ({ d with frame := {}, data := [] }, some { d.frame with data := "\n".intercalate d.data })
    else ({ d with frame := {} }, none)
  else
    let (name, value) := (splitOnce line ':').getD (line, "")
    let value := (stripPrefix value ' ').getD value
    (d.field name value, none)

/-- One round of the loop of `push`. -/
def byte (d : SseDecoder) (b : UInt8) : SseDecoder × Result (Option SseEvent) :=
  if d.skipLf ∧ b = lf then ({ d with skipLf := false }, .ok none)
  else if b ≠ lf ∧ b ≠ cr then ({ d with line := d.line ++ [b], skipLf := false }, .ok none)
  else
    let taken := { d with line := [], skipLf := b = cr }
    match fromUtf8 d.line with
    | .error e => (taken, .error e)
    | .ok line => ((taken.endLine line).1, .ok (taken.endLine line).2)

def push (d : SseDecoder) : List UInt8 → SseDecoder × Result (List SseEvent)
  | [] => (d, .ok [])
  | b :: bytes =>
    match d.byte b with
    | (d, .error e) => (d, .error e)
    | (d, .ok event) =>
      match d.push bytes with
      | (d, .error e) => (d, .error e)
      | (d, .ok events) => (d, .ok (event.toList ++ events))

/-- The results of one push after the other, put together, up to the first that fails. -/
def pushes (d : SseDecoder) : List (List UInt8) → SseDecoder × Result (List SseEvent)
  | [] => (d, .ok [])
  | bytes :: rest =>
    match d.push bytes with
    | (d, .error e) => (d, .error e)
    | (d, .ok events) =>
      match d.pushes rest with
      | (d, .error e) => (d, .error e)
      | (d, .ok more) => (d, .ok (events ++ more))

private theorem push_append (d : SseDecoder) (xs ys : List UInt8) :
    d.push (xs ++ ys) =
      match d.push xs with
      | (d, .error e) => (d, .error e)
      | (d, .ok events) =>
        match d.push ys with
        | (d, .error e) => (d, .error e)
        | (d, .ok more) => (d, .ok (events ++ more)) := by
  induction xs generalizing d with
  | nil =>
    change d.push ys = _
    simp only [push]
    rcases d.push ys with ⟨d', e | more⟩ <;> rfl
  | cons b rest ih =>
    simp only [List.cons_append, push]
    rcases d.byte b with ⟨d', e | event⟩
    · rfl
    simp only [ih]
    rcases d'.push rest with ⟨d₁, e | events⟩
    · rfl
    simp only
    rcases d₁.push ys with ⟨d₂, e | more⟩
    · rfl
    · simp only [List.append_assoc]

theorem pushes_flatten (d : SseDecoder) (chunks : List (List UInt8)) :
    d.pushes chunks = d.push chunks.flatten := by
  induction chunks generalizing d with
  | nil => rfl
  | cons bytes rest ih =>
    rw [List.flatten_cons, push_append]
    simp only [pushes]
    rcases d.push bytes with ⟨d', e | events⟩
    · rfl
    · simp only [ih]

def reader (d : SseDecoder) : LineReader UInt8 :=
  ⟨d.line, d.skipLf⟩

def setReader (d : SseDecoder) (r : LineReader UInt8) : SseDecoder :=
  { d with line := r.line, skipLf := r.skipLf }

private theorem field_setReader (d : SseDecoder) (r : LineReader UInt8) (name value : String) :
    (d.setReader r).field name value = (d.field name value).setReader r := by
  unfold field
  split
  · rfl
  · rfl
  · split <;> rfl
  · split <;> rfl
  · rfl

private theorem endLine_setReader (d : SseDecoder) (r : LineReader UInt8) (line : String) :
    (d.setReader r).endLine line = ((d.endLine line).1.setReader r, (d.endLine line).2) := by
  unfold endLine
  split
  · by_cases hdata : d.data = []
    · have hsame : (d.setReader r).data = [] := hdata
      simp only [hdata, hsame, ne_eq, not_true_eq_false, if_false]
      rfl
    · have hsame : (d.setReader r).data ≠ [] := hdata
      simp only [hdata, hsame, ne_eq, not_false_eq_true, if_true]
      rfl
  · exact Prod.ext (field_setReader d r _ _) rfl

def lineMachine : Machine SseDecoder String (Option SseEvent) :=
  ⟨endLine⟩

def events (d : SseDecoder) (lines : List String) : List SseEvent :=
  (lineMachine.answers d lines).filterMap id

theorem events_cons (d : SseDecoder) (line : String) (rest : List String) :
    d.events (line :: rest) = (d.endLine line).2.toList ++ (d.endLine line).1.events rest := by
  unfold events
  change (_ :: _).filterMap id = _
  cases h : (d.endLine line).2 with
  | none =>
    rw [List.filterMap_cons_none (by exact h)]
    rfl
  | some e =>
    rw [List.filterMap_cons_some (by exact h)]
    rfl

theorem events_append (d : SseDecoder) (lines rest : List String) :
    d.events (lines ++ rest) = d.events lines ++ (lineMachine.after d lines).events rest := by
  unfold events
  rw [Machine.answers_append, List.filterMap_append]

private theorem events_setReader (d : SseDecoder) (r : LineReader UInt8) (lines : List String) :
    (d.setReader r).events lines = d.events lines := by
  induction lines generalizing d with
  | nil => rfl
  | cons line rest ih => rw [events_cons, events_cons, endLine_setReader, ih]

/-- One byte goes to the reader of lines; a line it finishes goes to the reader of blocks. -/
private theorem byte_reader (d : SseDecoder) (b : UInt8) :
    d.byte b =
      match LineReader.step marks d.reader b with
      | (r, none) => (d.setReader r, .ok none)
      | (r, some bytes) =>
        match fromUtf8 bytes with
        | .error e => (d.setReader r, .error e)
        | .ok line => (((d.setReader r).endLine line).1, .ok ((d.setReader r).endLine line).2) := by
  unfold byte LineReader.step
  by_cases hskip : d.skipLf ∧ b = lf
  · have hread : d.reader.skipLf = true ∧ b = marks.lf := hskip
    rw [if_pos hskip, if_pos hread]
    rfl
  have hread : ¬ (d.reader.skipLf = true ∧ b = marks.lf) := hskip
  rw [if_neg hskip, if_neg hread]
  by_cases hplain : b ≠ lf ∧ b ≠ cr
  · have hinside : b ≠ marks.lf ∧ b ≠ marks.cr := hplain
    rw [if_pos hplain, if_pos hinside]
    rfl
  · have hinside : ¬ (b ≠ marks.lf ∧ b ≠ marks.cr) := hplain
    rw [if_neg hplain, if_neg hinside]
    rfl

private theorem push_byte {d d' : SseDecoder} {b : UInt8} {event : Option SseEvent}
    (hbyte : d.byte b = (d', .ok event)) {rest : List UInt8} {more : List SseEvent}
    (hrest : (d'.push rest).2 = .ok more) :
    (d.push (b :: rest)).2 = .ok (event.toList ++ more) := by
  simp only [push, hbyte]
  rcases hpush : d'.push rest with ⟨last, e | events⟩
  · rw [hpush] at hrest
    cases hrest
  · rw [hpush] at hrest
    exact congrArg (fun l => Except.ok (event.toList ++ l)) (Except.ok.inj hrest)

theorem push_lines {bytes : List UInt8} {lines : List String} (d : SseDecoder)
    (h : (LineReader.finished marks d.reader bytes).map fromUtf8 = lines.map .ok) :
    (d.push bytes).2 = .ok (d.events lines) := by
  induction bytes generalizing d lines with
  | nil =>
    cases lines with
    | nil => rfl
    | cons line rest => cases h
  | cons b rest ih =>
    rw [LineReader.finished_cons] at h
    have hread := byte_reader d b
    rcases hstep : LineReader.step marks d.reader b with ⟨r, _ | line⟩
    · rw [hstep] at h hread
      have hrest := ih (d.setReader r) h
      rw [events_setReader] at hrest
      exact push_byte hread hrest
    · rw [hstep] at h hread
      cases lines with
      | nil => cases h
      | cons first others =>
        obtain ⟨hline, hothers⟩ := List.cons.inj h
        have hbyte : d.byte b = ((d.endLine first).1.setReader r, .ok (d.endLine first).2) := by
          simp only [hread, hline, endLine_setReader]
        have hrest := ih ((d.endLine first).1.setReader r) hothers
        rw [events_setReader] at hrest
        rw [events_cons]
        exact push_byte hbyte hrest

end SseDecoder

end Zhir.Models
