import Mathlib.Data.List.TakeWhile
import Zhir.Models.Sse

/-!
The encodings of a sequence of server-sent events, and the decoder as their inverse.
-/

set_option autoImplicit false
set_option relaxedAutoImplicit false

namespace Zhir.Models

open Zhir.Core Zhir.Library

def utf8 (s : String) : List UInt8 :=
  s.toList.flatMap String.utf8EncodeChar

private theorem fromUtf8_utf8 (s : String) : fromUtf8 (utf8 s) = .ok s := by
  have hvalid : (utf8 s).toByteArray.IsValidUTF8 := ⟨s.toList, rfl⟩
  have hbytes : String.fromUTF8 (utf8 s).toByteArray hvalid = s := by
    apply String.toByteArray_inj.1
    exact String.utf8Encode_toList
  unfold fromUtf8 String.fromUTF8?
  rw [dif_pos hvalid, hbytes]

private theorem ascii_of_mem {c : Char} {b : UInt8} (h : b ∈ String.utf8EncodeChar c)
    (hb : b.toNat < 128) :
    c.toNat = b.toNat := by
  unfold String.utf8EncodeChar at h
  simp only at h
  change c.val.toNat = b.toNat
  split at h
  · rw [List.mem_singleton.1 h, UInt8.toNat_ofNat']
    omega
  split at h
  · simp only [List.mem_cons, List.not_mem_nil, or_false] at h
    rcases h with rfl | rfl <;> rw [UInt8.toNat_ofNat'] at hb <;> omega
  split at h
  · simp only [List.mem_cons, List.not_mem_nil, or_false] at h
    rcases h with rfl | rfl | rfl <;> rw [UInt8.toNat_ofNat'] at hb <;> omega
  · simp only [List.mem_cons, List.not_mem_nil, or_false] at h
    rcases h with rfl | rfl | rfl | rfl <;> rw [UInt8.toNat_ofNat'] at hb <;> omega

def OneLine (s : String) : Prop :=
  '\r' ∉ s.toList ∧ '\n' ∉ s.toList

instance (s : String) : Decidable (OneLine s) :=
  inferInstanceAs (Decidable (_ ∧ _))

private theorem mem_of_mem_utf8 {s : String} {b : UInt8} (h : b ∈ utf8 s) (hb : b.toNat < 128) :
    ∃ c ∈ s.toList, c.toNat = b.toNat := by
  obtain ⟨c, hc, hbyte⟩ := List.mem_flatMap.1 h
  exact ⟨c, hc, ascii_of_mem hbyte hb⟩

private theorem plain_utf8 {s : String} (h : OneLine s) : marks.Plain (utf8 s) := by
  constructor
  · intro hmem
    obtain ⟨c, hc, hcr⟩ := mem_of_mem_utf8 hmem (by decide)
    have : c = '\r' := Char.toNat_inj.1 hcr
    exact h.1 (this ▸ hc)
  · intro hmem
    obtain ⟨c, hc, hlf⟩ := mem_of_mem_utf8 hmem (by decide)
    have : c = '\n' := Char.toNat_inj.1 hlf
    exact h.2 (this ▸ hc)

def splitLines (s : String) : List String :=
  (s.toList.splitOn '\n').map String.ofList

private theorem intercalate_splitLines (s : String) : "\n".intercalate (splitLines s) = s := by
  apply String.toList_inj.1
  have hlists : (splitLines s).map String.toList = s.toList.splitOn '\n' := by
    unfold splitLines
    rw [List.map_map, String.toList_comp_ofList, List.map_id]
  rw [String.toList_intercalate, hlists]
  exact List.intercalate_splitOn '\n'

inductive Field
  | data (value : String)
  | event (value : String)
  | id (value : String)
  | retry (value : UInt64)
  | other
  deriving DecidableEq, Repr

/-- The lines that give a value to a name: one space after the colon is not of the value. -/
inductive Named (name value : String) : String → Prop
  | spaced : Named name value (name ++ ": " ++ value)
  | colon (h : value.toList.head? ≠ some ' ') : Named name value (name ++ ":" ++ value)
  | bare (h : value = "") : Named name value name

def knownNames : List String :=
  ["data", "event", "id", "retry"]

inductive Says : String → Field → Prop
  | data {line value : String} (h : Named "data" value line) : Says line (.data value)
  | event {line value : String} (h : Named "event" value line) : Says line (.event value)
  | id {line value : String} (h : Named "id" value line) (hnul : Char.ofNat 0 ∉ value.toList) :
      Says line (.id value)
  | retry {line digits : String} (n : UInt64) (h : Named "retry" digits line)
      (hne : digits ≠ "") (hdigits : digits.toList.all Char.isDigit = true)
      (hvalue : Nat.ofDigitChars 10 digits.toList 0 = n.toNat) : Says line (.retry n)
  | comment (text : String) : Says (":" ++ text) .other
  | unknown {line name value : String} (h : Named name value line) (hne : name ≠ "")
      (hcolon : ':' ∉ name.toList) (hunknown : name ∉ knownNames) : Says line .other

namespace SseDecoder

private theorem splitOnce_colon {name rest : String} (h : ':' ∉ name.toList) :
    splitOnce (name ++ ":" ++ rest) ':' = some (name, rest) := by
  have hname : ∀ c ∈ name.toList, (c != ':') = true := by
    intro c hc
    apply bne_iff_ne.2
    rintro rfl
    exact h hc
  have hlist : (name ++ ":" ++ rest).toList = name.toList ++ ':' :: rest.toList := by
    rw [String.toList_append, String.toList_append]
    exact List.append_assoc _ _ _
  have htake : (':' :: rest.toList).takeWhile (· != ':') = [] := by simp
  have hdrop : (':' :: rest.toList).dropWhile (· != ':') = ':' :: rest.toList := by simp
  unfold splitOnce
  rw [hlist, List.dropWhile_append_of_pos hname, List.takeWhile_append_of_pos hname, htake, hdrop,
    List.append_nil]
  simp only [String.ofList_toList]

private theorem splitOnce_bare {name : String} (h : ':' ∉ name.toList) :
    splitOnce name ':' = none := by
  have hname : name.toList.dropWhile (· != ':') = [] := by
    apply List.dropWhile_eq_nil_iff.2
    intro c hc
    apply bne_iff_ne.2
    rintro rfl
    exact h hc
  unfold splitOnce
  rw [hname]

private theorem endLine_named {name value line : String} (h : Named name value line)
    (hne : name ≠ "")
    (hcolon : ':' ∉ name.toList) (d : SseDecoder) :
    d.endLine line = (d.field name value, none) := by
  cases h with
  | spaced =>
    have hline : name ++ ": " ++ value = name ++ ":" ++ (" " ++ value) := by
      apply String.toList_inj.1
      simp
    have hvalue : stripPrefix (" " ++ value) ' ' = some value := by
      simp [stripPrefix]
    have hsome : name ++ ": " ++ value ≠ "" := by
      simp
    unfold endLine
    rw [if_neg hsome, hline, splitOnce_colon hcolon]
    simp only [Option.getD_some, hvalue]
  | colon hspace =>
    have hvalue : (stripPrefix value ' ').getD value = value := by
      unfold stripPrefix
      cases hlist : value.toList with
      | nil => rfl
      | cons c rest =>
        have : c ≠ ' ' := by
          rintro rfl
          exact hspace (by rw [hlist]; rfl)
        simp only [if_neg this, Option.getD_none]
    have hsome : name ++ ":" ++ value ≠ "" := by
      simp
    unfold endLine
    rw [if_neg hsome, splitOnce_colon hcolon]
    simp only [Option.getD_some, hvalue]
  | bare hvalue =>
    unfold endLine
    rw [if_neg hne, splitOnce_bare hcolon, hvalue]
    rfl

private theorem field_unknown {name : String} (h : name ∉ knownNames) (d : SseDecoder)
    (value : String) :
    d.field name value = d := by
  unfold field
  split <;> first | rfl | exact absurd (by decide) h

private theorem endLine_comment (text : String) (d : SseDecoder) :
    d.endLine (":" ++ text) = (d, none) := by
  have hline : ":" ++ text = "" ++ ":" ++ text := by
    simp
  have hsome : ":" ++ text ≠ "" := by
    simp
  unfold endLine
  rw [if_neg hsome, hline, splitOnce_colon (by decide)]
  rfl

def say (d : SseDecoder) : Field → SseDecoder
  | .data value => { d with data := d.data ++ [value] }
  | .event value => { d with frame.event := some value }
  | .id value => { d with frame.id := some value }
  | .retry value => { d with frame.retry := some value }
  | .other => d

private theorem parseU64_denotes {digits : String} {n : UInt64}
    (h : Nat.ofDigitChars 10 digits.toList 0 = n.toNat) : parseU64 digits = some n := by
  have hn : n.toNat ≤ maxU64 := by
    have := n.toNat_lt
    unfold maxU64
    omega
  unfold parseU64
  simp only [h, if_pos hn, UInt64.ofNat_toNat]

private theorem endLine_of_field {line : String} {f : Field} (h : Says line f) (d : SseDecoder) :
    d.endLine line = (d.say f, none) := by
  cases h with
  | data h => exact endLine_named h (by decide) (by decide) d
  | event h => exact endLine_named h (by decide) (by decide) d
  | id h hnul =>
    rw [endLine_named h (by decide) (by decide) d]
    simp only [field, say, if_pos hnul]
  | retry n h hne hdigits hvalue =>
    rw [endLine_named h (by decide) (by decide) d]
    simp only [field, say, if_pos (And.intro hne hdigits), parseU64_denotes hvalue]
  | comment text => exact endLine_comment text d
  | unknown h hne hcolon hunknown =>
    rw [endLine_named h hne hcolon d, field_unknown hunknown]
    rfl

end SseDecoder

def Field.data? : Field → Option String
  | .data value => some value
  | _ => none

def Field.event? : Field → Option String
  | .event value => some value
  | _ => none

def Field.id? : Field → Option String
  | .id value => some value
  | _ => none

def Field.retry? : Field → Option UInt64
  | .retry value => some value
  | _ => none

def lastOf {α : Type} (read : Field → Option α) (fields : List Field) : Option α :=
  (fields.filterMap read).getLast?

private theorem lastOf_cons {α : Type} (read : Field → Option α) (f : Field) (fields : List Field) :
    lastOf read (f :: fields) = (lastOf read fields).or (read f) := by
  unfold lastOf
  cases h : read f with
  | none => rw [List.filterMap_cons_none h, Option.or_none]
  | some value =>
    rw [List.filterMap_cons_some h, List.getLast?_cons]
    cases (fields.filterMap read).getLast? <;> rfl

namespace SseDecoder

private theorem foldl_say (d : SseDecoder) (fields : List Field) :
    (fields.foldl say d).data = d.data ++ fields.filterMap Field.data? ∧
      (fields.foldl say d).frame.event = (lastOf Field.event? fields).or d.frame.event ∧
      (fields.foldl say d).frame.id = (lastOf Field.id? fields).or d.frame.id ∧
      (fields.foldl say d).frame.retry = (lastOf Field.retry? fields).or d.frame.retry := by
  induction fields generalizing d with
  | nil =>
    refine ⟨?_, rfl, rfl, rfl⟩
    change d.data = d.data ++ []
    rw [List.append_nil]
  | cons f fields ih =>
    obtain ⟨hdata, hevent, hid, hretry⟩ := ih (d.say f)
    simp only [List.foldl_cons, lastOf_cons, Option.or_assoc]
    refine ⟨?_, ?_, ?_, ?_⟩
    · rw [hdata]
      cases f with
      | data value =>
        rw [List.filterMap_cons_some (show Field.data? (.data value) = some value from rfl)]
        change (d.data ++ [value]) ++ _ = _
        rw [List.append_assoc, List.singleton_append]
      | event | id | retry | other => rfl
    · rw [hevent]
      cases f <;> rfl
    · rw [hid]
      cases f <;> rfl
    · rw [hretry]
      cases f <;> rfl

private theorem read_fields {lines : List String} {fields : List Field}
    (h : List.Forall₂ Says lines fields) (d : SseDecoder) :
    lineMachine.after d lines = fields.foldl say d ∧ d.events lines = [] := by
  induction h generalizing d with
  | nil => exact ⟨rfl, rfl⟩
  | cons hline _ ih =>
    obtain ⟨hafter, hevents⟩ := ih (d.say _)
    refine ⟨?_, ?_⟩
    · change lineMachine.after (d.endLine _).1 _ = _
      rw [endLine_of_field hline d, hafter]
      rfl
    · rw [events_cons, endLine_of_field hline d, hevents]
      rfl

end SseDecoder

/-- The lines of one event, without the empty line that ends it. -/
structure EventLines (e : SseEvent) (lines : List String) (fields : List Field) : Prop where
  meaning : List.Forall₂ Says lines fields
  plain : ∀ line ∈ lines, OneLine line
  data : fields.filterMap Field.data? = splitLines e.data
  event : lastOf Field.event? fields = e.event
  id : lastOf Field.id? fields = e.id
  retry : lastOf Field.retry? fields = e.retry

private theorem splitOn_pieces {α : Type} [BEq α] [LawfulBEq α] {a : α} {xs piece : List α}
    (h : piece ∈ xs.splitOn a) : a ∉ piece ∧ ∀ x ∈ piece, x ∈ xs := by
  induction xs generalizing piece with
  | nil =>
    rw [List.splitOn_nil, List.mem_singleton] at h
    subst h
    exact ⟨List.not_mem_nil, fun _ h => h⟩
  | cons y rest ih =>
    have hlater : ∀ piece ∈ rest.splitOn a, a ∉ piece ∧ ∀ x ∈ piece, x ∈ y :: rest := by
      intro piece hpiece
      exact ⟨(ih hpiece).1, fun x hx => List.mem_cons_of_mem y ((ih hpiece).2 x hx)⟩
    rw [List.splitOn_cons_eq_if_modifyHead] at h
    split at h
    · rcases List.mem_cons.1 h with rfl | h
      · exact ⟨List.not_mem_nil, fun _ h => absurd h List.not_mem_nil⟩
      · exact hlater piece h
    · rename_i hy
      cases hsplit : rest.splitOn a with
      | nil => exact absurd hsplit (List.splitOn_ne_nil a rest)
      | cons first others =>
        rw [hsplit, List.modifyHead_cons] at h
        have hmem : ∀ p ∈ first :: others, p ∈ rest.splitOn a := fun p hp => hsplit ▸ hp
        rcases List.mem_cons.1 h with rfl | h
        · obtain ⟨hfree, hfrom⟩ := hlater first (hmem first List.mem_cons_self)
          refine ⟨?_, ?_⟩
          · intro hmem
            rcases List.mem_cons.1 hmem with rfl | hmem
            · exact hy BEq.rfl
            · exact hfree hmem
          · intro x hx
            rcases List.mem_cons.1 hx with rfl | hx
            · exact List.mem_cons_self
            · exact hfrom x hx
        · exact hlater piece (hmem piece (List.mem_cons_of_mem first h))

def Field.text : Field → String
  | .data value => "data" ++ ": " ++ value
  | .event value => "event" ++ ": " ++ value
  | .id value => "id" ++ ": " ++ value
  | .retry value => "retry" ++ ": " ++ String.ofList (Nat.toDigits 10 value.toNat)
  | .other => ":" ++ ""

def SseEvent.fields (e : SseEvent) : List Field :=
  (splitLines e.data).map .data ++ e.event.toList.map .event ++ e.id.toList.map .id ++
    e.retry.toList.map .retry

/-- What can be written down: no carriage return in the data, names on one line, no NUL in the
identifier. -/
structure Writable (e : SseEvent) : Prop where
  data : '\r' ∉ e.data.toList
  event : ∀ value ∈ e.event, OneLine value
  id : ∀ value ∈ e.id, OneLine value ∧ Char.ofNat 0 ∉ value.toList

private theorem toDigits_isDigit (n : Nat) : (Nat.toDigits 10 n).all Char.isDigit = true := by
  apply List.all_eq_true.2
  intro c hc
  exact Nat.isDigit_of_mem_toDigits (by decide) (by decide) hc

private theorem text_says {f : Field} (hid : ∀ value, f = .id value → Char.ofNat 0 ∉ value.toList) :
    Says f.text f := by
  cases f with
  | data value => exact .data .spaced
  | event value => exact .event .spaced
  | id value => exact .id .spaced (hid value rfl)
  | retry value =>
    refine .retry value .spaced ?_ ?_ ?_
    · intro h
      have hlength : 0 < (Nat.toDigits 10 value.toNat).length := Nat.length_toDigits_pos
      rw [String.ofList_eq_empty_iff.1 h] at hlength
      exact absurd hlength (by decide)
    · rw [String.toList_ofList]
      exact toDigits_isDigit value.toNat
    · rw [String.toList_ofList]
      exact Nat.ofDigitChars_toDigits (by decide) (by decide)
  | other => exact .comment ""

private theorem oneLine_append {s t : String} (hs : OneLine s) (ht : OneLine t) : OneLine
    (s ++ t) := by
  unfold OneLine at *
  rw [String.toList_append, List.mem_append, List.mem_append]
  exact ⟨not_or.2 ⟨hs.1, ht.1⟩, not_or.2 ⟨hs.2, ht.2⟩⟩

private theorem oneLine_digits (n : Nat) : OneLine (String.ofList (Nat.toDigits 10 n)) := by
  unfold OneLine
  rw [String.toList_ofList]
  have hdigit : ∀ c ∈ Nat.toDigits 10 n, c.isDigit = true :=
    List.all_eq_true.1 (toDigits_isDigit n)
  exact ⟨fun h => absurd (hdigit _ h) (by decide), fun h => absurd (hdigit _ h) (by decide)⟩

private theorem oneLine_splitLines {s line : String} (h : '\r' ∉ s.toList)
    (hline : line ∈ splitLines s) :
    OneLine line := by
  obtain ⟨piece, hpiece, rfl⟩ := List.mem_map.1 hline
  obtain ⟨hfree, hfrom⟩ := splitOn_pieces hpiece
  unfold OneLine
  rw [String.toList_ofList]
  exact ⟨fun hcr => h (hfrom _ hcr), hfree⟩

private theorem mem_fields {e : SseEvent} {f : Field} (h : f ∈ e.fields) :
    (∃ line ∈ splitLines e.data, f = .data line) ∨ (∃ value ∈ e.event, f = .event value) ∨
      (∃ value ∈ e.id, f = .id value) ∨ ∃ value ∈ e.retry, f = .retry value := by
  simp only [SseEvent.fields, List.mem_append, List.mem_map, Option.mem_toList] at h
  rcases h with ((⟨v, hv, rfl⟩ | ⟨v, hv, rfl⟩) | ⟨v, hv, rfl⟩) | ⟨v, hv, rfl⟩
  · exact .inl ⟨v, hv, rfl⟩
  · exact .inr (.inl ⟨v, hv, rfl⟩)
  · exact .inr (.inr (.inl ⟨v, hv, rfl⟩))
  · exact .inr (.inr (.inr ⟨v, hv, rfl⟩))

private theorem exists_eventLines {e : SseEvent} (h : Writable e) :
    EventLines e (e.fields.map Field.text) e.fields := by
  have hnone : ∀ {α β : Type} (l : List α), l.filterMap (fun _ => (none : Option β)) = [] := by
    intro α β l
    simp
  refine ⟨?_, ?_, ?_, ?_, ?_, ?_⟩
  · rw [List.forall₂_map_left_iff, List.forall₂_same]
    intro f hf
    apply text_says
    rintro value rfl
    rcases mem_fields hf with ⟨v, hv, hf⟩ | ⟨v, hv, hf⟩ | ⟨v, hv, hf⟩ | ⟨v, hv, hf⟩
    · cases hf
    · cases hf
    · cases hf
      exact (h.id value hv).2
    · cases hf
  · intro line hline
    obtain ⟨f, hf, rfl⟩ := List.mem_map.1 hline
    rcases mem_fields hf with ⟨v, hv, rfl⟩ | ⟨v, hv, rfl⟩ | ⟨v, hv, rfl⟩ | ⟨v, hv, rfl⟩
    · exact oneLine_append (by decide) (oneLine_splitLines h.data hv)
    · exact oneLine_append (by decide) (h.event v hv)
    · exact oneLine_append (by decide) (h.id v hv).1
    · exact oneLine_append (by decide) (oneLine_digits v.toNat)
  all_goals
    simp only [SseEvent.fields, lastOf, List.filterMap_append, List.filterMap_map,
      Function.comp_def, Field.data?, Field.event?, Field.id?, Field.retry?, hnone,
      List.filterMap_some, List.append_nil, List.nil_append]
  · cases e.event <;> rfl
  · cases e.id <;> rfl
  · cases e.retry <;> rfl

structure SilentLines (lines : List String) (fields : List Field) : Prop where
  meaning : List.Forall₂ Says lines fields
  plain : ∀ line ∈ lines, OneLine line
  data : fields.filterMap Field.data? = []

/-- The lines of a sequence of events. Those behind the last empty line say nothing yet. -/
inductive EventStream : List String → List SseEvent → Prop
  | rest {lines : List String} {fields : List Field} (hmeaning : List.Forall₂ Says lines fields)
      (hplain : ∀ line ∈ lines, OneLine line) : EventStream lines []
  | event {e : SseEvent} {lines rest : List String} {fields : List Field} {es : List SseEvent}
      (h : EventLines e lines fields) (hrest : EventStream rest es) :
      EventStream (lines ++ "" :: rest) (e :: es)
  | silent {lines rest : List String} {fields : List Field} {es : List SseEvent}
      (h : SilentLines lines fields) (hrest : EventStream rest es) :
      EventStream (lines ++ "" :: rest) es

private theorem exists_eventStream {es : List SseEvent} (h : ∀ e ∈ es, Writable e) :
    ∃ lines, EventStream lines es := by
  induction es with
  | nil => exact ⟨[], .rest .nil nofun⟩
  | cons e es ih =>
    obtain ⟨he, hes⟩ := List.forall_mem_cons.1 h
    obtain ⟨lines, hlines⟩ := ih hes
    exact ⟨_, .event (exists_eventLines he) hlines⟩

def wire (lines : List (String × LineEnd)) : List (List UInt8 × LineEnd) :=
  lines.map fun l => (utf8 l.1, l.2)

theorem EventStream.plain {lines : List String} {es : List SseEvent} (h : EventStream lines es) :
    ∀ line ∈ lines, OneLine line := by
  induction h with
  | rest _ hplain => exact hplain
  | event h _ ih | silent h _ ih =>
    intro line hline
    rcases List.mem_append.1 hline with hline | hline
    · exact h.plain line hline
    · rcases List.mem_cons.1 hline with rfl | hline
      · decide
      · exact ih line hline

namespace SseDecoder

def Clean (d : SseDecoder) : Prop :=
  d.data = [] ∧ d.frame = {}

private theorem splitLines_ne_nil (s : String) : splitLines s ≠ [] := by
  unfold splitLines
  rw [ne_eq, List.map_eq_nil_iff]
  exact List.splitOn_ne_nil _ _

private theorem events_block {e : SseEvent} {lines : List String} {fields : List Field}
    (h : EventLines e lines fields) {d : SseDecoder} (hd : d.Clean) :
    ∃ d' : SseDecoder, d'.Clean ∧
      ∀ rest, d.events (lines ++ "" :: rest) = e :: d'.events rest := by
  obtain ⟨hafter, hnone⟩ := read_fields h.meaning d
  obtain ⟨hdata, hevent, hid, hretry⟩ := foldl_say d fields
  rw [hd.1, List.nil_append, h.data] at hdata
  rw [hd.2, h.event, Option.or_none] at hevent
  rw [hd.2, h.id, Option.or_none] at hid
  rw [hd.2, h.retry, Option.or_none] at hretry
  let full := fields.foldl say d
  have hfull : full.data ≠ [] := by
    rw [hdata]
    exact splitLines_ne_nil e.data
  have hframe : { full.frame with data := "\n".intercalate full.data } = e := by
    change (⟨"\n".intercalate full.data, full.frame.event, full.frame.id, full.frame.retry⟩ :
      SseEvent) = ⟨e.data, e.event, e.id, e.retry⟩
    rw [hdata, intercalate_splitLines, hevent, hid, hretry]
  refine ⟨{ full with frame := {}, data := [] }, ⟨rfl, rfl⟩, ?_⟩
  intro rest
  have hend : full.endLine "" = ({ full with frame := {}, data := [] }, some e) := by
    rw [← hframe]
    unfold endLine
    rw [if_pos rfl, if_pos hfull]
  rw [events_append, hnone, hafter, List.nil_append, events_cons]
  change (full.endLine "").2.toList ++ (full.endLine "").1.events rest = _
  rw [hend]
  rfl

private theorem events_silent {lines : List String} {fields : List Field}
    (h : SilentLines lines fields)
    {d : SseDecoder} (hd : d.Clean) :
    ∃ d' : SseDecoder, d'.Clean ∧ ∀ rest, d.events (lines ++ "" :: rest) = d'.events rest := by
  obtain ⟨hafter, hnone⟩ := read_fields h.meaning d
  have hdata : (fields.foldl say d).data = [] := by
    rw [(foldl_say d fields).1, hd.1, h.data, List.append_nil]
  let full := fields.foldl say d
  refine ⟨{ full with frame := {} }, ⟨hdata, rfl⟩, ?_⟩
  intro rest
  have hend : full.endLine "" = ({ full with frame := {} }, none) := by
    unfold endLine
    rw [if_pos rfl, if_neg (not_not.2 hdata)]
  rw [events_append, hnone, hafter, List.nil_append, events_cons]
  change (full.endLine "").2.toList ++ (full.endLine "").1.events rest = _
  rw [hend]
  rfl

private theorem events_stream {lines : List String} {es : List SseEvent} (h : EventStream lines es)
    {d : SseDecoder} (hd : d.Clean) : d.events lines = es := by
  induction h generalizing d with
  | rest hmeaning _ => exact (read_fields hmeaning d).2
  | event h _ ih =>
    obtain ⟨d', hclean, hevents⟩ := events_block h hd
    rw [hevents, ih hclean]
  | silent h _ ih =>
    obtain ⟨d', hclean, hevents⟩ := events_silent h hd
    rw [hevents, ih hclean]

private theorem legible_lf (lines : List String) : Legible
    (wire (lines.map fun line => (line, .lf))) := by
  unfold Legible
  apply List.Pairwise.isChain
  apply List.pairwise_of_forall_mem_list
  intro l hl l' _ hcr
  obtain ⟨_, hline, rfl⟩ := List.mem_map.1 hl
  obtain ⟨_, _, rfl⟩ := List.mem_map.1 hline
  cases hcr

private theorem pushes_stream {lines : List (String × LineEnd)} {es : List SseEvent}
    {chunks : List (List UInt8)} (hstream : EventStream (lines.map Prod.fst) es)
    (hlegible : Legible (wire lines)) (hchunks : chunks.flatten = marks.write (wire lines)) :
    (({} : SseDecoder).pushes chunks).2 = .ok es := by
  have hplain : ∀ l ∈ wire lines, marks.Plain l.1 := by
    intro l hl
    obtain ⟨line, hline, rfl⟩ := List.mem_map.1 hl
    exact plain_utf8 (hstream.plain _ (List.mem_map_of_mem hline))
  have hfinished : LineReader.finished marks (LineReader.fresh false) (marks.write (wire lines)) =
      (wire lines).map Prod.fst :=
    LineReader.finished_write marks hplain hlegible (by simp)
  have hvalid : ((wire lines).map Prod.fst).map fromUtf8 = (lines.map Prod.fst).map .ok := by
    unfold wire
    rw [List.map_map, List.map_map, List.map_map]
    apply List.map_congr_left
    intro l _
    exact fromUtf8_utf8 l.1
  have hread : (LineReader.finished marks ({} : SseDecoder).reader chunks.flatten).map fromUtf8 =
      (lines.map Prod.fst).map .ok := by
    rw [hchunks, ← hvalid, ← hfinished]
    rfl
  rw [pushes_flatten, push_lines _ hread, events_stream hstream ⟨rfl, rfl⟩]

/-- Decoding inverts encoding, however the lines end and the bytes are cut. Every sequence of events
that can be written down has such an encoding. -/
theorem pushes_inverts :
    (∀ es : List SseEvent, (∀ e ∈ es, Writable e) → ∃ lines : List (String × LineEnd),
      EventStream (lines.map Prod.fst) es ∧ Legible (wire lines)) ∧
    ∀ (lines : List (String × LineEnd)) (es : List SseEvent) (chunks : List (List UInt8)),
      EventStream (lines.map Prod.fst) es → Legible (wire lines) →
        chunks.flatten = marks.write (wire lines) →
          (({} : SseDecoder).pushes chunks).2 = .ok es := by
  refine ⟨fun es hes => ?_, fun lines es chunks => pushes_stream⟩
  obtain ⟨lines, hlines⟩ := exists_eventStream hes
  refine ⟨lines.map fun line => (line, .lf), ?_, legible_lf lines⟩
  rwa [List.map_map, Function.comp_def, List.map_id']

/-- Lines with all the ends, of one event and a comment, and one more behind them. -/
def sampleLines : List (String × LineEnd) :=
  [("data" ++ ": " ++ "a", .crlf), (":" ++ " note", .cr), ("data" ++ ":" ++ "b", .lf),
    ("id" ++ ": " ++ "7", .cr), ("", .cr), ("data" ++ ": " ++ "c", .lf)]

def sampleBytes : List UInt8 :=
  marks.write (wire sampleLines)

/-- The pushes part a carriage return from its line feed. -/
theorem pushes_inverts_sample :
    (({} : SseDecoder).pushes [sampleBytes.take 8, sampleBytes.drop 8]).2 =
      .ok [⟨"a\nb", none, some "7", none⟩] := by
  have hlines : EventLines ⟨"a\nb", none, some "7", none⟩
      ["data" ++ ": " ++ "a", ":" ++ " note", "data" ++ ":" ++ "b", "id" ++ ": " ++ "7"]
      [.data "a", .other, .data "b", .id "7"] := by
    refine ⟨?_, by decide, by decide, rfl, rfl, rfl⟩
    exact .cons (.data .spaced) (.cons (.comment " note") (.cons (.data (.colon (by decide)))
      (.cons (.id .spaced (by decide)) .nil)))
  apply pushes_inverts.2 sampleLines
  · exact .event hlines (.rest (.cons (.data .spaced) .nil) (by decide))
  · unfold Legible
    decide +kernel
  · simp [sampleBytes]

/-- A carriage return, and a line feed meant as an empty line, are read as one end. -/
theorem ends_run_together :
    ¬ ∀ (lines : List (String × LineEnd)) (es : List SseEvent) (chunks : List (List UInt8)),
      EventStream (lines.map Prod.fst) es → chunks.flatten = marks.write (wire lines) →
        (({} : SseDecoder).pushes chunks).2 = .ok es := by
  intro h
  have hlines : EventLines ⟨"a", none, none, none⟩ ["data" ++ ": " ++ "a"] [.data "a"] :=
    ⟨.cons (.data .spaced) .nil, by decide, by decide, rfl, rfl, rfl⟩
  let lines : List (String × LineEnd) := [("data" ++ ": " ++ "a", .cr), ("", .lf)]
  have hsaid := h lines [⟨"a", none, none, none⟩] [marks.write (wire lines)]
    (.event hlines (.rest .nil nofun)) (by simp)
  have hfinished : LineReader.finished marks ({} : SseDecoder).reader (marks.write (wire lines)) =
      [utf8 "data: a"] := by
    decide +kernel
  have hread := @push_lines (marks.write (wire lines)) ["data: a"] {} (by
    rw [hfinished, List.map_singleton, fromUtf8_utf8]
    rfl)
  have hnone : ({} : SseDecoder).events ["data: a"] = [] := by decide +kernel
  rw [pushes_flatten, List.flatten_singleton, hread, hnone] at hsaid
  cases hsaid

end SseDecoder

end Zhir.Models
