import Mathlib.Logic.Function.Basic
import Zhir.Library.Machine
import Zhir.Library.Trace
import Zhir.Storage.Resources

/-!
`MemoryResourceStore` as it is called: resources are written and read in chunks, by any number of
writers and readers at once, while others are deleted.
-/

set_option autoImplicit false
set_option relaxedAutoImplicit false

namespace Zhir.Storage.Streamed

open Std Zhir.Core
open Zhir.Library (Machine Trace)

abbrev Bytes := List UInt8

/-- A call of the store, of a writer or of a reader. Writers and readers are told apart by numbers;
one that is made under a number takes the place of an earlier one, which has been dropped. -/
inductive Call
  | create (writer : Nat) (key mediaType : String)
  | append (writer sequence : Nat) (bytes : Bytes)
  | finish (writer : Nat)
  | openReader (reader : Nat) (reference : ResourceRef)
  | read (reader maxBytes : Nat)
  | delete (reference : ResourceRef)

inductive Answer
  | done (result : Result Unit)
  | reference (result : Result ResourceRef)
  | bytes (result : Result Bytes)
  /-- No such writer or reader: the source has no such call. -/
  | unknown

/-- `Stored`, with its chunks apart. -/
structure Stored where
  mediaType : String
  chunks : List Bytes

structure MemoryWriter where
  key : String
  mediaType : String
  chunks : List Bytes
  sequence : Nat

structure MemoryReader where
  chunks : List Bytes
  index : Nat
  offset : Nat

/-- `MemoryResourceStore`, with the writers and readers it has given out. -/
structure MemoryStore where
  entries : ExtTreeMap String Stored := ∅
  writers : Nat → Option MemoryWriter := fun _ => none
  readers : Nat → Option MemoryReader := fun _ => none

namespace MemoryWriter

def append (w : MemoryWriter) (sequence : Nat) (bytes : Bytes) : Result MemoryWriter :=
  if sequence ≠ w.sequence then .error (.invalid "resource chunk sequence mismatch")
  else .ok { w with chunks := w.chunks ++ [bytes], sequence := w.sequence + 1 }

def finish (w : MemoryWriter) (entries : ExtTreeMap String Stored) :
    Result (ResourceRef × ExtTreeMap String Stored) :=
  match entries[w.key]? with
  | some old =>
    if old.mediaType ≠ w.mediaType ∨ old.chunks.flatten ≠ w.chunks.flatten then
      .error (.resource s!"resource key has different contents: {w.key}")
    else .ok (Resources.reference w.key w.key w.mediaType, entries)
  | none =>
    .ok (Resources.reference w.key w.key w.mediaType, entries.insert w.key ⟨w.mediaType, w.chunks⟩)

end MemoryWriter

namespace MemoryReader

/-- The loop of `read`, over the chunks from `index` on. -/
def readFrom (maxBytes : Nat) : List Bytes → Nat → Nat → Bytes → Bytes × Nat × Nat
  | [], index, offset, out => (out, index, offset)
  | chunk :: rest, index, offset, out =>
    if out.length < maxBytes then
      let count := min (chunk.length - offset) (maxBytes - out.length)
      let taken := out ++ (chunk.drop offset).take count
      if offset + count = chunk.length then readFrom maxBytes rest (index + 1) 0 taken
      -- The chunk has more, so there was no room for it, and the loop ends.
      else (taken, index, offset + count)
    else (out, index, offset)

def read (r : MemoryReader) (maxBytes : Nat) : Result Bytes × MemoryReader :=
  if maxBytes = 0 then (.error (.invalid "read size must be positive"), r)
  else
    let (out, index, offset) := readFrom maxBytes (r.chunks.drop r.index) r.index r.offset []
    (.ok out, { r with index, offset })

end MemoryReader

namespace MemoryStore

/-- The chunks `open` gives to the reader. -/
def chunksOf (reference : ResourceRef) (entries : ExtTreeMap String Stored) :
    Result (List Bytes) := do
  let key ← Resources.storedKey reference
  match entries[key]? with
  | none => throw (.resource s!"resource not found: {key}")
  | some stored =>
    if stored.mediaType ≠ reference.mediaType then
      throw (.invalid "resource media type mismatch")
    else return stored.chunks

def setWriter (s : MemoryStore) (w : Nat) (writer : Option MemoryWriter) : MemoryStore :=
  { s with writers := Function.update s.writers w writer }

def setReader (s : MemoryStore) (r : Nat) (reader : MemoryReader) : MemoryStore :=
  { s with readers := Function.update s.readers r (some reader) }

def create (w : Nat) (key mediaType : String) (s : MemoryStore) : MemoryStore × Answer :=
  match Resources.validate key mediaType with
  | .error error => (s, .done (.error error))
  | .ok () => (s.setWriter w (some ⟨key, mediaType, [], 0⟩), .done (.ok ()))

def append (w sequence : Nat) (bytes : Bytes) (s : MemoryStore) : MemoryStore × Answer :=
  match s.writers w with
  | none => (s, .unknown)
  | some writer =>
    match writer.append sequence bytes with
    | .error error => (s, .done (.error error))
    | .ok writer => (s.setWriter w (some writer), .done (.ok ()))

def finish (w : Nat) (s : MemoryStore) : MemoryStore × Answer :=
  match s.writers w with
  | none => (s, .unknown)
  | some writer =>
    match writer.finish s.entries with
    | .error error => (s.setWriter w none, .reference (.error error))
    | .ok (reference, entries) => ({ s.setWriter w none with entries }, .reference (.ok reference))

def openReader (r : Nat) (reference : ResourceRef) (s : MemoryStore) : MemoryStore × Answer :=
  match chunksOf reference s.entries with
  | .error error => (s, .done (.error error))
  | .ok chunks => (s.setReader r ⟨chunks, 0, 0⟩, .done (.ok ()))

def read (r maxBytes : Nat) (s : MemoryStore) : MemoryStore × Answer :=
  match s.readers r with
  | none => (s, .unknown)
  | some reader => (s.setReader r (reader.read maxBytes).2, .bytes (reader.read maxBytes).1)

def delete (reference : ResourceRef) (s : MemoryStore) : MemoryStore × Answer :=
  match Resources.storedKey reference with
  | .error error => (s, .done (.error error))
  | .ok key => ({ s with entries := s.entries.erase key }, .done (.ok ()))

def step (s : MemoryStore) : Call → MemoryStore × Answer
  | .create w key mediaType => s.create w key mediaType
  | .append w sequence bytes => s.append w sequence bytes
  | .finish w => s.finish w
  | .openReader r reference => s.openReader r reference
  | .read r maxBytes => s.read r maxBytes
  | .delete reference => s.delete reference

def machine : Machine MemoryStore Call Answer := ⟨step⟩

end MemoryStore

structure Writing where
  key : String
  mediaType : String
  bytes : Bytes
  sequence : Nat

/-- What the store is for: whole resources, written at once when a writer is finished, and to each
reader what is left of the one it opened. -/
structure Whole where
  entries : Resources.Entries := ∅
  writers : Nat → Option Writing := fun _ => none
  readers : Nat → Option Bytes := fun _ => none

namespace Whole

def setWriter (t : Whole) (w : Nat) (writer : Option Writing) : Whole :=
  { t with writers := Function.update t.writers w writer }

def setReader (t : Whole) (r : Nat) (rest : Bytes) : Whole :=
  { t with readers := Function.update t.readers r (some rest) }

def create (w : Nat) (key mediaType : String) (t : Whole) : Whole × Answer :=
  match Resources.validate key mediaType with
  | .error error => (t, .done (.error error))
  | .ok () => (t.setWriter w (some ⟨key, mediaType, [], 0⟩), .done (.ok ()))

def append (w sequence : Nat) (bytes : Bytes) (t : Whole) : Whole × Answer :=
  match t.writers w with
  | none => (t, .unknown)
  | some writer =>
    if sequence ≠ writer.sequence then
      (t, .done (.error (.invalid "resource chunk sequence mismatch")))
    else
      (t.setWriter w
        (some { writer with bytes := writer.bytes ++ bytes, sequence := writer.sequence + 1 }),
        .done (.ok ()))

def finish (w : Nat) (t : Whole) : Whole × Answer :=
  match t.writers w with
  | none => (t, .unknown)
  | some writer =>
    match Resources.put writer.key writer.mediaType writer.bytes t.entries with
    | .error error => (t.setWriter w none, .reference (.error error))
    | .ok (reference, entries) => ({ t.setWriter w none with entries }, .reference (.ok reference))

def openReader (r : Nat) (reference : ResourceRef) (t : Whole) : Whole × Answer :=
  match Resources.read reference t.entries with
  | .error error => (t, .done (.error error))
  | .ok bytes => (t.setReader r bytes, .done (.ok ()))

def read (r maxBytes : Nat) (t : Whole) : Whole × Answer :=
  match t.readers r with
  | none => (t, .unknown)
  | some rest =>
    if maxBytes = 0 then (t, .bytes (.error (.invalid "read size must be positive")))
    else (t.setReader r (rest.drop maxBytes), .bytes (.ok (rest.take maxBytes)))

def delete (reference : ResourceRef) (t : Whole) : Whole × Answer :=
  match Resources.storedKey reference with
  | .error error => (t, .done (.error error))
  | .ok key => ({ t with entries := t.entries.erase key }, .done (.ok ()))

def step (t : Whole) : Call → Whole × Answer
  | .create w key mediaType => t.create w key mediaType
  | .append w sequence bytes => t.append w sequence bytes
  | .finish w => t.finish w
  | .openReader r reference => t.openReader r reference
  | .read r maxBytes => t.read r maxBytes
  | .delete reference => t.delete reference

def machine : Machine Whole Call Answer := ⟨step⟩

end Whole

namespace MemoryReader

def rest (r : MemoryReader) : Bytes :=
  (r.chunks.drop r.index).flatten.drop r.offset

def Sound (r : MemoryReader) : Prop :=
  r.offset ≤ ((r.chunks.drop r.index).headD []).length

private theorem readFrom_eq {maxBytes : Nat} {chunks : List Bytes} {left : List Bytes}
    {index offset : Nat}
    {out : Bytes} (hleft : chunks.drop index = left) (hoffset : offset ≤ (left.headD []).length) :
    ∃ index' offset',
      readFrom maxBytes left index offset out =
        (out ++ (left.flatten.drop offset).take (maxBytes - out.length), index', offset') ∧
      Sound ⟨chunks, index', offset'⟩ ∧
      rest ⟨chunks, index', offset'⟩ = (left.flatten.drop offset).drop (maxBytes - out.length) := by
  induction left generalizing index offset out with
  | nil =>
    obtain rfl : offset = 0 := Nat.le_zero.mp hoffset
    refine ⟨index, 0, ?_, Nat.zero_le _, ?_⟩
    · simp [readFrom]
    · simp [rest, hleft]
  | cons chunk left ih =>
    have hchunk : offset ≤ chunk.length := hoffset
    have hbytes : (chunk :: left).flatten.drop offset = chunk.drop offset ++ left.flatten := by
      rw [List.flatten_cons, List.drop_append_of_le_length hchunk]
    have hlength : (chunk.drop offset).length = chunk.length - offset := List.length_drop
    unfold readFrom
    split
    · next hroom =>
      simp only
      split
      · -- The chunk is used up, and the next one goes on from where it ends.
        next hend =>
        have hfits : chunk.length - offset ≤ maxBytes - out.length := by omega
        have htaken : (chunk.drop offset).take
            (min (chunk.length - offset) (maxBytes - out.length)) = chunk.drop offset :=
          List.take_of_length_le (by omega)
        have hnext : chunks.drop (index + 1) = left := by
          rw [← List.tail_drop, hleft, List.tail_cons]
        obtain ⟨index', offset', hread, hsound, hrest⟩ :=
          @ih (index + 1) 0 (out ++ chunk.drop offset) hnext (Nat.zero_le _)
        have hroom' : maxBytes - (out ++ chunk.drop offset).length =
            maxBytes - out.length - (chunk.drop offset).length := by
          rw [List.length_append]
          omega
        have hwhole : (chunk.drop offset).length ≤ maxBytes - out.length := by omega
        rw [List.drop_zero, hroom'] at hread hrest
        refine ⟨index', offset', ?_, hsound, ?_⟩
        · rw [htaken, hread, hbytes, List.take_append, List.take_of_length_le hwhole,
            List.append_assoc]
        · rw [hrest, hbytes, List.drop_append, List.drop_of_length_le hwhole, List.nil_append]
      · next hend =>
        have hcount : min (chunk.length - offset) (maxBytes - out.length) =
            maxBytes - out.length := by omega
        have hless : maxBytes - out.length ≤ (chunk.drop offset).length := by omega
        refine ⟨index, offset + (maxBytes - out.length), ?_, ?_, ?_⟩
        · rw [hcount, hbytes, List.take_append_of_le_length hless]
        · show _ ≤ ((chunks.drop index).headD []).length
          rw [hleft]
          show offset + (maxBytes - out.length) ≤ chunk.length
          omega
        · show (chunks.drop index).flatten.drop (offset + (maxBytes - out.length)) = _
          rw [hleft, List.drop_drop]
    · next hfull =>
      have hnone : maxBytes - out.length = 0 := by omega
      refine ⟨index, offset, ?_, ?_, ?_⟩
      · rw [hnone, List.take_zero, List.append_nil]
      · show _ ≤ ((chunks.drop index).headD []).length
        rw [hleft]
        exact hoffset
      · rw [hnone, List.drop_zero]
        show (chunks.drop index).flatten.drop offset = _
        rw [hleft]

private theorem read_eq {r : MemoryReader} (hr : r.Sound) {maxBytes : Nat} (hmax : maxBytes ≠ 0) :
    (r.read maxBytes).1 = .ok (r.rest.take maxBytes) ∧ (r.read maxBytes).2.Sound ∧
      (r.read maxBytes).2.rest = r.rest.drop maxBytes := by
  obtain ⟨index', offset', hread, hsound, hrest⟩ :=
    @readFrom_eq maxBytes r.chunks _ r.index r.offset [] rfl hr
  unfold read
  rw [if_neg hmax, hread]
  exact ⟨rfl, hsound, hrest⟩

end MemoryReader

def Stored.whole (stored : Stored) : Resources.Stored := ⟨stored.mediaType, stored.chunks.flatten⟩

def MemoryWriter.writing (w : MemoryWriter) : Writing :=
  ⟨w.key, w.mediaType, w.chunks.flatten, w.sequence⟩

def Alike (chunked : ExtTreeMap String Stored) (entries : Resources.Entries) : Prop :=
  ∀ key : String, entries[key]? = chunked[key]?.map Stored.whole

structure Holds (s : MemoryStore) (t : Whole) : Prop where
  entries : Alike s.entries t.entries
  writers : ∀ w, t.writers w = (s.writers w).map MemoryWriter.writing
  created : ∀ w writer, s.writers w = some writer →
    Resources.validate writer.key writer.mediaType = .ok ()
  readers : ∀ r, t.readers r = (s.readers r).map MemoryReader.rest
  sound : ∀ r reader, s.readers r = some reader → reader.Sound

section

variable {s : MemoryStore} {t : Whole} {chunked chunked' : ExtTreeMap String Stored}
  {entries entries' : Resources.Entries}

theorem Alike.erase (h : Alike chunked entries) (key : String) :
    Alike (chunked.erase key) (entries.erase key) := by
  intro k
  rw [ExtTreeMap.getElem?_erase, ExtTreeMap.getElem?_erase, h k]
  split
  · rfl
  · rfl

theorem Alike.insert (h : Alike chunked entries) (key : String) (stored : Stored) :
    Alike (chunked.insert key stored) (entries.insert key stored.whole) := by
  intro k
  rw [ExtTreeMap.getElem?_insert, ExtTreeMap.getElem?_insert, h k]
  split
  · rfl
  · rfl

private theorem Holds.setEntries (h : Holds s t) (halike : Alike chunked entries) :
    Holds { s with entries := chunked } { t with entries } :=
  ⟨halike, h.writers, h.created, h.readers, h.sound⟩

private theorem Holds.setWriter (h : Holds s t) (w : Nat) {writer : Option MemoryWriter}
    (hcreated : ∀ x, writer = some x → Resources.validate x.key x.mediaType = .ok ()) :
    Holds (s.setWriter w writer) (t.setWriter w (writer.map MemoryWriter.writing)) := by
  refine ⟨h.entries, fun w' => ?_, fun w' x hx => ?_, h.readers, h.sound⟩
  · show Function.update t.writers w _ w' = (Function.update s.writers w _ w').map _
    by_cases hw : w' = w
    · rw [hw, Function.update_self, Function.update_self]
    · rw [Function.update_of_ne hw, Function.update_of_ne hw, h.writers w']
  · change Function.update s.writers w writer w' = some x at hx
    by_cases hw : w' = w
    · rw [hw, Function.update_self] at hx
      exact hcreated x hx
    · rw [Function.update_of_ne hw] at hx
      exact h.created w' x hx

theorem Holds.setReader (h : Holds s t) (r : Nat) {reader : MemoryReader} (hsound : reader.Sound) :
    Holds (s.setReader r reader) (t.setReader r reader.rest) := by
  refine ⟨h.entries, h.writers, h.created, fun r' => ?_, fun r' x hx => ?_⟩
  · show Function.update t.readers r _ r' = (Function.update s.readers r _ r').map _
    by_cases hr : r' = r
    · rw [hr, Function.update_self, Function.update_self]
      rfl
    · rw [Function.update_of_ne hr, Function.update_of_ne hr, h.readers r']
  · change Function.update s.readers r (some reader) r' = some x at hx
    by_cases hr : r' = r
    · rw [hr, Function.update_self] at hx
      cases hx
      exact hsound
    · rw [Function.update_of_ne hr] at hx
      exact h.sound r' x hx

inductive Finishes : Result (ResourceRef × ExtTreeMap String Stored) →
    Result (ResourceRef × Resources.Entries) → Prop
  | refused (error : Error) : Finishes (.error error) (.error error)
  | stored (reference : ResourceRef) {chunked : ExtTreeMap String Stored}
      {entries : Resources.Entries} (h : Alike chunked entries) :
      Finishes (.ok (reference, chunked)) (.ok (reference, entries))

private theorem MemoryWriter.finish_eq {writer : MemoryWriter} (h : Alike chunked entries)
    (hcreated : Resources.validate writer.key writer.mediaType = .ok ()) :
    Finishes (writer.finish chunked)
      (Resources.put writer.key writer.mediaType writer.chunks.flatten entries) := by
  have hentry := h writer.key
  unfold finish Resources.put
  rw [hcreated]
  cases hold : chunked[writer.key]? with
  | none =>
    rw [hold, Option.map_none] at hentry
    simp only [bind, Except.bind, hentry]
    exact .stored _ (h.insert writer.key ⟨writer.mediaType, writer.chunks⟩)
  | some old =>
    rw [hold, Option.map_some] at hentry
    have hsame : old.whole ≠ ⟨writer.mediaType, writer.chunks.flatten⟩ ↔
        old.mediaType ≠ writer.mediaType ∨ old.chunks.flatten ≠ writer.chunks.flatten := by
      rw [Stored.whole, Ne, Resources.Stored.mk.injEq, not_and_or]
    simp only [bind, Except.bind, hentry, hsame]
    split
    · exact .refused _
    · exact .stored _ h

private theorem MemoryStore.chunksOf_eq (h : Alike chunked entries) (reference : ResourceRef) :
    Resources.read reference entries = (chunksOf reference chunked).map List.flatten := by
  unfold Resources.read chunksOf
  cases Resources.storedKey reference with
  | error error => rfl
  | ok key =>
    simp only [bind, Except.bind, h key]
    cases chunked[key]? with
    | none => rfl
    | some stored =>
      simp only [Option.map_some, Stored.whole]
      split
      · rfl
      · rfl

def Agree (left : MemoryStore × Answer) (right : Whole × Answer) : Prop :=
  left.2 = right.2 ∧ Holds left.1 right.1

theorem Holds.create (h : Holds s t) (w : Nat) (key mediaType : String) :
    Agree (s.create w key mediaType) (t.create w key mediaType) := by
  unfold MemoryStore.create Whole.create
  cases hvalid : Resources.validate key mediaType with
  | error error => exact ⟨rfl, h⟩
  | ok u =>
    refine ⟨rfl, h.setWriter w fun x hx => ?_⟩
    cases hx
    exact hvalid

theorem Holds.append (h : Holds s t) (w sequence : Nat) (bytes : Bytes) :
    Agree (s.append w sequence bytes) (t.append w sequence bytes) := by
  unfold MemoryStore.append Whole.append
  rw [h.writers w]
  cases hw : s.writers w with
  | none => exact ⟨rfl, h⟩
  | some writer =>
    unfold MemoryWriter.append
    by_cases hsequence : sequence ≠ writer.sequence
    · simp only [Option.map_some, MemoryWriter.writing, if_pos hsequence]
      exact ⟨rfl, h⟩
    · simp only [Option.map_some, MemoryWriter.writing, if_neg hsequence]
      have hset := @Holds.setWriter s t h w
        (some { writer with chunks := writer.chunks ++ [bytes], sequence := writer.sequence + 1 })
        fun x hx => by cases hx; exact h.created w writer hw
      rw [Option.map_some, MemoryWriter.writing, List.flatten_append,
        List.flatten_singleton] at hset
      exact ⟨rfl, hset⟩

theorem Holds.finish (h : Holds s t) (w : Nat) : Agree (s.finish w) (t.finish w) := by
  unfold MemoryStore.finish Whole.finish
  simp only [h.writers w]
  cases hw : s.writers w with
  | none => exact ⟨rfl, h⟩
  | some writer =>
    have hclosed : Holds (s.setWriter w none) (t.setWriter w none) :=
      h.setWriter w fun x hx => (by cases hx)
    have hfinish := MemoryWriter.finish_eq h.entries (h.created w writer hw)
    simp only [Option.map_some, MemoryWriter.writing]
    generalize writer.finish s.entries = left at hfinish
    generalize Resources.put _ _ _ _ = right at hfinish
    cases hfinish with
    | refused error => exact ⟨rfl, hclosed⟩
    | stored reference halike => exact ⟨rfl, hclosed.setEntries halike⟩

private theorem Holds.openReader (h : Holds s t) (r : Nat) (reference : ResourceRef) :
    Agree (s.openReader r reference) (t.openReader r reference) := by
  unfold MemoryStore.openReader Whole.openReader
  simp only [MemoryStore.chunksOf_eq h.entries reference]
  cases MemoryStore.chunksOf reference s.entries with
  | error error => exact ⟨rfl, h⟩
  | ok chunks => exact ⟨rfl, @Holds.setReader s t h r ⟨chunks, 0, 0⟩ (Nat.zero_le _)⟩

theorem Holds.read (h : Holds s t) (r maxBytes : Nat) :
    Agree (s.read r maxBytes) (t.read r maxBytes) := by
  unfold MemoryStore.read Whole.read
  simp only [h.readers r]
  cases hr : s.readers r with
  | none => exact ⟨rfl, h⟩
  | some reader =>
    have hsound := h.sound r reader hr
    simp only [Option.map_some]
    split
    · next hzero =>
      have hsame : s.setReader r (reader.read maxBytes).2 = s := by
        rw [MemoryReader.read, if_pos hzero]
        unfold MemoryStore.setReader
        rw [← hr, Function.update_eq_self]
      rw [hsame, MemoryReader.read, if_pos hzero]
      exact ⟨rfl, h⟩
    · next hpositive =>
      obtain ⟨hbytes, hsound', hrest⟩ := MemoryReader.read_eq hsound hpositive
      have hset := h.setReader r hsound'
      rw [hrest] at hset
      exact ⟨congrArg Answer.bytes hbytes, hset⟩

theorem Holds.delete (h : Holds s t) (reference : ResourceRef) :
    Agree (s.delete reference) (t.delete reference) := by
  unfold MemoryStore.delete Whole.delete
  cases Resources.storedKey reference with
  | error error => exact ⟨rfl, h⟩
  | ok key => exact ⟨rfl, h.setEntries (h.entries.erase key)⟩

theorem Holds.step (h : Holds s t) (call : Call) : Agree (s.step call) (t.step call) := by
  cases call with
  | create w key mediaType => exact h.create w key mediaType
  | append w sequence bytes => exact h.append w sequence bytes
  | finish w => exact h.finish w
  | openReader r reference => exact h.openReader r reference
  | read r maxBytes => exact h.read r maxBytes
  | delete reference => exact h.delete reference

theorem holds_empty : Holds {} {} := by
  refine ⟨fun key => ?_, fun _ => rfl, fun _ _ h => ?_, fun _ => rfl, fun _ _ h => ?_⟩
  · rw [ExtTreeMap.getElem?_empty, ExtTreeMap.getElem?_empty]
    rfl
  · cases h
  · cases h

end

/-- The store answers, in whatever order it is called, as if it kept every resource whole, had it
written when its writer finishes, and gave each reader the next bytes of what it opened. -/
theorem streamed_agrees (calls : List Call) :
    MemoryStore.machine.answers {} calls = Whole.machine.answers {} calls := by
  have hrefines : MemoryStore.machine.Refines Whole.machine (fun _ _ => True) Holds :=
    fun s t call h _ => h.step call
  exact hrefines.answers_eq holds_empty (Machine.allows_of_forall (fun _ _ => trivial) _ _)

abbrev Exchange := Call × Answer

def MemoryStore.Moves (s : MemoryStore) (exchange : Exchange) (s' : MemoryStore) : Prop :=
  s.step exchange.1 = (s', exchange.2)

def Whole.Moves (t : Whole) (exchange : Exchange) (t' : Whole) : Prop :=
  t.step exchange.1 = (t', exchange.2)

def taken (w : Nat) (exchanges : List Exchange) : Bytes :=
  exchanges.flatMap fun
    | (.append w' _ bytes, .done (.ok ())) => if w' = w then bytes else []
    | _ => []

def given (r : Nat) (exchanges : List Exchange) : Bytes :=
  exchanges.flatMap fun
    | (.read r' _, .bytes (.ok bytes)) => if r' = r then bytes else []
    | _ => []

def Creates (w : Nat) (exchange : Exchange) : Prop :=
  ∃ key mediaType, exchange = (.create w key mediaType, .done (.ok ()))

def Opens (r : Nat) (exchange : Exchange) : Prop :=
  ∃ reference, exchange = (.openReader r reference, .done (.ok ()))

/-- A writer was created for this key and type, and has been given these bytes. -/
def Recording (exchanges : List Exchange) (w : Nat) (key mediaType : String) (bytes : Bytes) :
    Prop :=
  ∃ before after, exchanges = before ++ (.create w key mediaType, .done (.ok ())) :: after ∧
    (∀ exchange ∈ after, ¬ Creates w exchange) ∧ taken w after = bytes

def Written (exchanges : List Exchange) (key mediaType : String) (bytes : Bytes) : Prop :=
  ∃ before w after, exchanges =
      before ++ (.finish w, .reference (.ok (Resources.reference key key mediaType))) :: after ∧
    Recording before w key mediaType bytes

/-- What a reader has given since it was opened and what is left to it are the bytes of a resource
that had been written. -/
def Reading (exchanges : List Exchange) (r : Nat) (rest : Bytes) : Prop :=
  ∃ before reference after key,
    exchanges = before ++ (.openReader r reference, .done (.ok ())) :: after ∧
    (∀ exchange ∈ after, ¬ Opens r exchange) ∧ reference.source = .stored key ∧
    Written before key reference.mediaType (given r after ++ rest)

section

variable {exchanges : List Exchange} {exchange : Exchange} {w r : Nat} {key mediaType : String}
  {bytes rest rest' : Bytes} {t t' : Whole}

private theorem taken_snoc (w : Nat) (exchange : Exchange) :
    taken w (exchanges ++ [exchange]) = taken w exchanges ++ taken w [exchange] :=
  List.flatMap_append

private theorem given_snoc (r : Nat) (exchange : Exchange) :
    given r (exchanges ++ [exchange]) = given r exchanges ++ given r [exchange] :=
  List.flatMap_append

theorem Recording.created :
    Recording (exchanges ++ [(.create w key mediaType, .done (.ok ()))]) w key mediaType [] :=
  ⟨exchanges, [], rfl, fun _ h => absurd h List.not_mem_nil, rfl⟩

theorem Recording.later (h : Recording exchanges w key mediaType bytes)
    (hcreates : ¬ Creates w exchange) :
    Recording (exchanges ++ [exchange]) w key mediaType (bytes ++ taken w [exchange]) := by
  obtain ⟨before, after, rfl, hfresh, rfl⟩ := h
  refine ⟨before, after ++ [exchange], by simp, ?_, taken_snoc w exchange⟩
  intro other hother
  rcases List.mem_append.mp hother with hafter | hlast
  · exact hfresh other hafter
  · rw [List.mem_singleton.mp hlast]
    exact hcreates

theorem Written.later (h : Written exchanges key mediaType bytes) (exchange : Exchange) :
    Written (exchanges ++ [exchange]) key mediaType bytes := by
  obtain ⟨before, w, after, rfl, hrecording⟩ := h
  exact ⟨before, w, after ++ [exchange], by simp, hrecording⟩

theorem Reading.later (h : Reading exchanges r rest) (hopens : ¬ Opens r exchange)
    (hrest : rest = given r [exchange] ++ rest') : Reading (exchanges ++ [exchange]) r rest' := by
  obtain ⟨before, reference, after, key, rfl, hfresh, hsource, hwritten⟩ := h
  refine ⟨before, reference, after ++ [exchange], key, by simp, ?_, hsource, ?_⟩
  · intro other hother
    rcases List.mem_append.mp hother with hafter | hlast
    · exact hfresh other hafter
    · rw [List.mem_singleton.mp hlast]
      exact hopens
  · rw [given_snoc, List.append_assoc, ← hrest]
    exact hwritten

/-- The store has what was written, and gives it to its readers. -/
structure Faithful (exchanges : List Exchange) (t : Whole) : Prop where
  writers : ∀ w writer, t.writers w = some writer →
    Recording exchanges w writer.key writer.mediaType writer.bytes
  entries : ∀ (key : String) stored, t.entries[key]? = some stored →
    Written exchanges key stored.mediaType stored.bytes
  readers : ∀ r rest, t.readers r = some rest → Reading exchanges r rest

def Answer.failed : Answer → Bool
  | .done (.ok ()) | .reference (.ok _) | .bytes (.ok _) => false
  | .done (.error _) | .reference (.error _) | .bytes (.error _) | .unknown => true

inductive Whole.Stepped (t : Whole) : Exchange → Whole → Prop
  | created {w : Nat} {key mediaType : String} :
      Stepped t (.create w key mediaType, .done (.ok ()))
        (t.setWriter w (some ⟨key, mediaType, [], 0⟩))
  | appended {w : Nat} {bytes : Bytes} {writer : Writing} (hw : t.writers w = some writer) :
      Stepped t (.append w writer.sequence bytes, .done (.ok ()))
        (t.setWriter w
          (some { writer with bytes := writer.bytes ++ bytes, sequence := writer.sequence + 1 }))
  | finished {w : Nat} {writer : Writing} {reference : ResourceRef} {entries : Resources.Entries}
      (hw : t.writers w = some writer)
      (hput : Resources.put writer.key writer.mediaType writer.bytes t.entries =
        .ok (reference, entries)) :
      Stepped t (.finish w, .reference (.ok reference)) { t.setWriter w none with entries }
  | unfinished {w : Nat} {error : Error} :
      Stepped t (.finish w, .reference (.error error)) (t.setWriter w none)
  | opened {r : Nat} {reference : ResourceRef} {bytes : Bytes}
      (hread : Resources.read reference t.entries = .ok bytes) :
      Stepped t (.openReader r reference, .done (.ok ())) (t.setReader r bytes)
  | read {r maxBytes : Nat} {rest : Bytes} (hr : t.readers r = some rest) :
      Stepped t (.read r maxBytes, .bytes (.ok (rest.take maxBytes)))
        (t.setReader r (rest.drop maxBytes))
  | deleted {reference : ResourceRef} {key : String} :
      Stepped t (.delete reference, .done (.ok ())) { t with entries := t.entries.erase key }
  | refused {call : Call} {answer : Answer} (h : answer.failed = true) : Stepped t (call, answer) t

theorem Whole.Moves.stepped (h : t.Moves exchange t') : t.Stepped exchange t' := by
  obtain ⟨call, answer⟩ := exchange
  cases call with
  | create w key mediaType =>
    change t.create w key mediaType = _ at h
    unfold Whole.create at h
    split at h
    · cases h
      exact .refused rfl
    · cases h
      exact .created
  | append w sequence bytes =>
    change t.append w sequence bytes = _ at h
    unfold Whole.append at h
    split at h
    · cases h
      exact .refused rfl
    · next writer hw =>
      split at h
      · cases h
        exact .refused rfl
      · next hsequence =>
        cases h
        rw [not_not.mp hsequence]
        exact .appended hw
  | finish w =>
    change t.finish w = _ at h
    unfold Whole.finish at h
    split at h
    · cases h
      exact .refused rfl
    · next writer hw =>
      split at h
      · cases h
        exact .unfinished
      · next reference entries hput =>
        cases h
        exact .finished hw hput
  | openReader r reference =>
    change t.openReader r reference = _ at h
    unfold Whole.openReader at h
    split at h
    · cases h
      exact .refused rfl
    · next bytes hread =>
      cases h
      exact .opened hread
  | read r maxBytes =>
    change t.read r maxBytes = _ at h
    unfold Whole.read at h
    split at h
    · cases h
      exact .refused rfl
    · next rest hr =>
      split at h
      · cases h
        exact .refused rfl
      · cases h
        exact .read hr
  | delete reference =>
    change t.delete reference = _ at h
    unfold Whole.delete at h
    split at h
    · cases h
      exact .refused rfl
    · cases h
      exact .deleted

theorem Recording.quiet (h : Recording exchanges w key mediaType bytes)
    (hcreates : ¬ Creates w exchange) (htaken : taken w [exchange] = []) :
    Recording (exchanges ++ [exchange]) w key mediaType bytes := by
  have hlater := h.later hcreates
  rw [htaken, List.append_nil] at hlater
  exact hlater

theorem Reading.quiet (h : Reading exchanges r rest) (hopens : ¬ Opens r exchange)
    (hgiven : given r [exchange] = []) : Reading (exchanges ++ [exchange]) r rest :=
  h.later hopens (by rw [hgiven, List.nil_append])

private theorem quiet_of_failed {call : Call} {answer : Answer} (h : answer.failed = true) :
    (∀ w, ¬ Creates w (call, answer) ∧ taken w [(call, answer)] = []) ∧
      ∀ r, ¬ Opens r (call, answer) ∧ given r [(call, answer)] = [] := by
  refine ⟨fun w => ⟨?_, ?_⟩, fun r => ⟨?_, ?_⟩⟩
  · rintro ⟨key, mediaType, heq⟩
    cases heq
    cases h
  · unfold taken
    rw [List.flatMap_singleton]
    split
    · next heq =>
      cases heq
      cases h
    · rfl
  · rintro ⟨reference, heq⟩
    cases heq
    cases h
  · unfold given
    rw [List.flatMap_singleton]
    split
    · next heq =>
      cases heq
      cases h
    · rfl

/-- What a call leaves of the writers, the readers and the resources that it is not about. -/
theorem Faithful.keep (h : Faithful exchanges t)
    (hwriters : ∀ w writer, t'.writers w = some writer → Recording (exchanges ++ [exchange]) w
      writer.key writer.mediaType writer.bytes ∨
        t.writers w = some writer ∧ ¬ Creates w exchange ∧ taken w [exchange] = [])
    (hentries : ∀ (key : String) stored, t'.entries[key]? = some stored →
      Written (exchanges ++ [exchange]) key stored.mediaType stored.bytes ∨
        t.entries[key]? = some stored)
    (hreaders : ∀ r rest, t'.readers r = some rest → Reading (exchanges ++ [exchange]) r rest ∨
      t.readers r = some rest ∧ ¬ Opens r exchange ∧ given r [exchange] = []) :
    Faithful (exchanges ++ [exchange]) t' := by
  refine ⟨fun w writer hw => ?_, fun key stored hstored => ?_, fun r rest hr => ?_⟩
  · rcases hwriters w writer hw with hnew | ⟨hold, hcreates, htaken⟩
    · exact hnew
    · exact (h.writers w writer hold).quiet hcreates htaken
  · rcases hentries key stored hstored with hnew | hold
    · exact hnew
    · exact (h.entries key stored hold).later exchange
  · rcases hreaders r rest hr with hnew | ⟨hold, hopens, hgiven⟩
    · exact hnew
    · exact (h.readers r rest hold).quiet hopens hgiven

private theorem setWriter_cases {w' : Nat} {writer : Option Writing} {x : Writing}
    (h : (t.setWriter w writer).writers w' = some x) :
    w' = w ∧ writer = some x ∨ w' ≠ w ∧ t.writers w' = some x := by
  change Function.update t.writers w writer w' = some x at h
  by_cases hw : w' = w
  · rw [hw, Function.update_self] at h
    exact .inl ⟨hw, h⟩
  · rw [Function.update_of_ne hw] at h
    exact .inr ⟨hw, h⟩

private theorem setReader_cases {r' : Nat} {x : Bytes}
    (h : (t.setReader r rest).readers r' = some x) :
    r' = r ∧ rest = x ∨ r' ≠ r ∧ t.readers r' = some x := by
  change Function.update t.readers r (some rest) r' = some x at h
  by_cases hr : r' = r
  · rw [hr, Function.update_self] at h
    exact .inl ⟨hr, Option.some.inj h⟩
  · rw [Function.update_of_ne hr] at h
    exact .inr ⟨hr, h⟩

private theorem taken_ne {w' sequence : Nat} {result : Answer} (h : w' ≠ w) :
    taken w' [(.append w sequence bytes, result)] = [] := by
  unfold taken
  rw [List.flatMap_singleton]
  split
  · next heq =>
    cases heq
    exact if_neg fun hsame => h hsame.symm
  · rfl

private theorem taken_self {sequence : Nat} :
    taken w [(.append w sequence bytes, .done (.ok ()))] = bytes := by
  simp [taken]

private theorem given_self {maxBytes : Nat} : given r
    [(.read r maxBytes, .bytes (.ok bytes))] = bytes := by
  simp [given]

private theorem given_ne {r' maxBytes : Nat} {result : Answer} (h : r' ≠ r) :
    given r' [(.read r maxBytes, result)] = [] := by
  unfold given
  rw [List.flatMap_singleton]
  split
  · next heq =>
    cases heq
    exact if_neg fun hsame => h hsame.symm
  · rfl

private theorem put_cases {entries entries' : Resources.Entries} {reference : ResourceRef}
    (h : Resources.put key mediaType bytes entries = .ok (reference, entries')) {k : String}
    {stored : Resources.Stored} (hstored : entries'[k]? = some stored) :
    reference = Resources.reference key key mediaType ∧
      (k = key ∧ stored = ⟨mediaType, bytes⟩ ∨ entries[k]? = some stored) := by
  obtain ⟨_, -, h⟩ := Result.bind_ok h
  cases hold : entries[key]? with
  | some old =>
    simp only [hold] at h
    split at h
    · cases h
    · cases h
      exact ⟨rfl, .inr hstored⟩
  | none =>
    simp only [hold] at h
    cases h
    rw [ExtTreeMap.getElem?_insert] at hstored
    split at hstored
    · next hkey =>
      cases hstored
      exact ⟨rfl, .inl ⟨(LawfulEqCmp.eq_of_compare hkey).symm, rfl⟩⟩
    · exact ⟨rfl, .inr hstored⟩

/-- One case a call: only a writer that finishes adds a resource, only reading moves a reader. -/
theorem Faithful.step (h : Faithful exchanges t) (hstep : t.Stepped exchange t') :
    Faithful (exchanges ++ [exchange]) t' := by
  cases hstep with
  | @created w key mediaType =>
    refine h.keep (fun w' x hx => ?_) (fun _ _ hs => .inr hs) fun r rest hr => .inr ⟨hr, ?_, rfl⟩
    · rcases setWriter_cases hx with ⟨rfl, heq⟩ | ⟨hne, hold⟩
      · cases heq
        exact .inl .created
      · refine .inr ⟨hold, ?_, rfl⟩
        rintro ⟨_, _, heq⟩
        cases heq
        exact hne rfl
    · rintro ⟨_, heq⟩
      cases heq
  | @appended w bytes writer hw =>
    have hcreates : ∀ w', ¬ Creates w' (.append w writer.sequence bytes, .done (.ok ())) := by
      rintro w' ⟨_, _, heq⟩
      cases heq
    refine h.keep (fun w' x hx => ?_) (fun _ _ hs => .inr hs) fun r rest hr => .inr ⟨hr, ?_, rfl⟩
    · rcases setWriter_cases hx with ⟨rfl, heq⟩ | ⟨hne, hold⟩
      · cases heq
        have hlater := (h.writers w' writer hw).later (hcreates w')
        rw [taken_self] at hlater
        exact .inl hlater
      · exact .inr ⟨hold, hcreates w', taken_ne hne⟩
    · rintro ⟨_, heq⟩
      cases heq
  | @finished w writer reference entries hw hput =>
    refine h.keep (fun w' x hx => ?_) (fun k stored hs => ?_) fun r rest hr => .inr ⟨hr, ?_, rfl⟩
    · rcases setWriter_cases hx with ⟨-, heq⟩ | ⟨-, hold⟩
      · cases heq
      · refine .inr ⟨hold, ?_, rfl⟩
        rintro ⟨_, _, heq⟩
        cases heq
    · rcases put_cases hput hs with ⟨rfl, ⟨rfl, rfl⟩ | hold⟩
      · exact .inl ⟨exchanges, w, [], rfl, h.writers w writer hw⟩
      · exact .inr hold
    · rintro ⟨_, heq⟩
      cases heq
  | @unfinished w error =>
    refine h.keep (fun w' x hx => ?_) (fun _ _ hs => .inr hs) fun r rest hr => .inr ⟨hr, ?_, rfl⟩
    · rcases setWriter_cases hx with ⟨-, heq⟩ | ⟨-, hold⟩
      · cases heq
      · refine .inr ⟨hold, ?_, rfl⟩
        rintro ⟨_, _, heq⟩
        cases heq
    · rintro ⟨_, heq⟩
      cases heq
  | @opened r reference bytes hread =>
    refine h.keep (fun w x hx => .inr ⟨hx, ?_, rfl⟩) (fun _ _ hs => .inr hs) fun r' rest hr => ?_
    · rintro ⟨_, _, heq⟩
      cases heq
    · rcases setReader_cases hr with ⟨rfl, rfl⟩ | ⟨hne, hold⟩
      · obtain ⟨-, key, hsource, hstored⟩ := Resources.read_iff.mp hread
        exact .inl ⟨exchanges, reference, [], key, rfl, fun _ h => absurd h List.not_mem_nil,
          hsource, h.entries key _ hstored⟩
      · refine .inr ⟨hold, ?_, rfl⟩
        rintro ⟨_, heq⟩
        cases heq
        exact hne rfl
  | @read r maxBytes rest hr =>
    have hopens : ∀ r', ¬ Opens r' (.read r maxBytes, .bytes (.ok (rest.take maxBytes))) := by
      rintro r' ⟨_, heq⟩
      cases heq
    refine h.keep (fun w x hx => .inr ⟨hx, ?_, rfl⟩) (fun _ _ hs => .inr hs) fun r' rest' hr' => ?_
    · rintro ⟨_, _, heq⟩
      cases heq
    · rcases setReader_cases hr' with ⟨rfl, rfl⟩ | ⟨hne, hold⟩
      · refine .inl ((h.readers r' rest hr).later (hopens r') ?_)
        rw [given_self, List.take_append_drop]
      · exact .inr ⟨hold, hopens r', given_ne hne⟩
  | @deleted reference key =>
    refine h.keep (fun w x hx => .inr ⟨hx, ?_, rfl⟩) (fun k stored hs => .inr ?_)
      fun r rest hr => .inr ⟨hr, ?_, rfl⟩
    · rintro ⟨_, _, heq⟩
      cases heq
    · rw [ExtTreeMap.getElem?_erase] at hs
      split at hs
      · cases hs
      · exact hs
    · rintro ⟨_, heq⟩
      cases heq
  | refused hfailed =>
    obtain ⟨hwriters, hreaders⟩ := quiet_of_failed hfailed
    exact h.keep (fun w _ hw => .inr ⟨hw, hwriters w⟩) (fun _ _ hs => .inr hs)
      fun r _ hr => .inr ⟨hr, hreaders r⟩

private theorem faithful_empty : Faithful [] {} := by
  refine ⟨fun _ _ h => ?_, fun key stored h => ?_, fun _ _ h => ?_⟩
  · cases h
  · rw [ExtTreeMap.getElem?_empty] at h
    cases h
  · cases h

end

theorem held {exchanges : List Exchange} {s : MemoryStore}
    (hrun : Trace MemoryStore.Moves {} exchanges s) :
    ∃ t, Faithful exchanges t ∧ Holds s t := by
  refine hrun.invariant (I := fun exchanges s => ∃ t, Faithful exchanges t ∧ Holds s t)
    ⟨{}, faithful_empty, holds_empty⟩ ?_
  rintro exchanges s exchange s' ⟨t, hfaithful, hholds⟩ hmove
  obtain ⟨hanswer, hnext⟩ := hholds.step exchange.1
  have hwhole : t.Moves exchange (t.step exchange.1).1 := by
    rw [hmove] at hanswer
    exact Prod.ext rfl hanswer.symm
  rw [hmove] at hnext
  exact ⟨_, hfaithful.step hwhole.stepped, hnext⟩

/-- Whatever else the store is called for meanwhile, and even if the resource is deleted: what a
reader gives are, in order, the bytes one writer was given under the key and type of what was
opened, before it was finished; and once there is nothing to give, all of them were given. -/
theorem readers_given {exchanges : List Exchange} {s : MemoryStore}
    (hrun : Trace MemoryStore.Moves {} exchanges s) {r : Nat} {reader : MemoryReader}
    (hr : s.readers r = some reader) :
    Reading exchanges r reader.rest ∧ ∀ maxBytes, maxBytes ≠ 0 →
      ((reader.read maxBytes).1 = .ok [] ↔ reader.rest = []) := by
  obtain ⟨t, hfaithful, hholds⟩ := held hrun
  refine ⟨hfaithful.readers r _ ?_, fun maxBytes hmax => ?_⟩
  · rw [hholds.readers r, hr]
    rfl
  · rw [(MemoryReader.read_eq (hholds.sound r reader hr) hmax).1]
    constructor
    · intro h
      rcases List.take_eq_nil_iff.mp (Except.ok.inj h) with hzero | hnil
      · exact absurd hzero hmax
      · exact hnil
    · intro h
      rw [h, List.take_nil]

/-- Two chunks are written, and the first two bytes are read after the resource is deleted. -/
def sampleCalls : List Call :=
  [.create 0 "a" "audio/wav", .append 0 0 [1], .append 0 1 [2, 3], .finish 0,
    .openReader 1 (Resources.reference "a" "a" "audio/wav"),
    .delete (Resources.reference "a" "a" "audio/wav"), .read 1 2]

def MemoryStore.exchanges (s : MemoryStore) : List Call → List Exchange
  | [] => []
  | call :: rest => (call, (s.step call).2) :: (s.step call).1.exchanges rest

theorem MemoryStore.trace (s : MemoryStore) (calls : List Call) :
    Trace MemoryStore.Moves s (s.exchanges calls) (machine.after s calls) := by
  induction calls generalizing s with
  | nil => exact .start
  | cons call rest ih => exact (Trace.single rfl).append (ih _)

theorem readers_given_sample :
    ∃ reader, (MemoryStore.machine.after {} sampleCalls).readers 1 = some reader ∧
      Reading (MemoryStore.exchanges {} sampleCalls) 1 reader.rest ∧ reader.rest = [3] := by
  have hreader : (MemoryStore.machine.after {} sampleCalls).readers 1 =
      some ⟨[[1], [2, 3]], 1, 1⟩ := by
    rfl
  obtain ⟨hreading, -⟩ := readers_given (MemoryStore.trace {} sampleCalls) hreader
  exact ⟨_, hreader, hreading, rfl⟩

end Zhir.Storage.Streamed
