import Zhir.Core.Wire
import Zhir.Library.Chunks

/-!
The history as it is held in memory: entries in chunks with running digests, and the index
kept up with every append. It represents the plain history that the checks are stated on.
-/

set_option autoImplicit false
set_option relaxedAutoImplicit false

namespace Zhir.Core

open Zhir.Library (Chunk)

/-- `CHUNK_SIZE`. -/
def chunkSize : Nat := 64

structure ChunkedHistory (δ : Type) where
  head : List (Chunk HistoryEntry δ)
  len : Nat
  digest : δ
  order : Order
  deriving DecidableEq

namespace ChunkedHistory

variable {δ : Type} (s : DigestScheme δ)

def empty : ChunkedHistory δ := ⟨[], 0, s.zero, {}⟩

/-- One turn of the loop of `append`. -/
def push (message : HistoryEntry) (h : ChunkedHistory δ) : ChunkedHistory δ where
  order := h.order.append message h.len
  digest := s.step h.digest message
  head := Chunk.push chunkSize message (h.len + 1) (s.step h.digest message) h.head
  len := h.len + 1

def append : List HistoryEntry → ChunkedHistory δ → Result (ChunkedHistory δ)
  | [], h => .ok h
  | message :: rest, h => do
    message.validate
    append rest (h.push s message)

def fromEntries (entries : List HistoryEntry) : Result (ChunkedHistory δ) :=
  append s entries (empty s)

def entries (h : ChunkedHistory δ) : List HistoryEntry := Chunk.all h.head

/-- What is left of `iter` from the front, and from the back. -/
def iter (h : ChunkedHistory δ) : List HistoryEntry := Chunk.iter h.head

def iterBack (h : ChunkedHistory δ) : List HistoryEntry := Chunk.iterBack h.head

def last (h : ChunkedHistory δ) : Option HistoryEntry := Chunk.last h.head

def get (h : ChunkedHistory δ) (index : Nat) : Option HistoryEntry := Chunk.get index h.head

def byId (h : ChunkedHistory δ) (id : EntryId) : Option HistoryEntry :=
  (h.order.ids.lookup id).bind h.get

def pendingDelegations (h : ChunkedHistory δ) : List CallRef := h.order.delegations

def pendingCalls (h : ChunkedHistory δ) : List (CallRef × RuntimeToolCall) := h.order.calls

def validate (h : ChunkedHistory δ) : Result Unit :=
  if h.len = 0 then .error (.invalid "empty history")
  else match h.order.error with
    | some violation => .error (.invalid violation)
    | none => .ok ()

def appendedSince [DecidableEq δ] (h previous : ChunkedHistory δ) : Result (List HistoryEntry) :=
  let mismatch := Error.invalid "history prefix changed without rewrite"
  if previous.len > h.len then .error mismatch
  else if previous.len = h.len then
    if previous.digest = h.digest then .ok [] else .error mismatch
  else match Chunk.since s.zero previous.len previous.digest h.head with
    | some entries => .ok entries
    | none => .error mismatch

/-- Histories there are: everything is built by appends, in any portions. -/
inductive Built : ChunkedHistory δ → Prop
  | empty : Built (empty s)
  | append {h h' : ChunkedHistory δ} {messages : List HistoryEntry} (hbuilt : Built h)
      (happend : append s messages h = .ok h') : Built h'

/-- Chunks, length, digest and index all agree with one list of entries. -/
structure Represents (h : ChunkedHistory δ) (history : History) : Prop where
  head : Chunk.Holds s.zero s.step h.head history.entries
  len : h.len = history.len
  digest : h.digest = s.digest history.entries
  order : h.order = history.order

variable {s} {h h' : ChunkedHistory δ} {history : History}

theorem represents_empty : Represents s (empty s) .empty := ⟨.nil, rfl, rfl, rfl⟩

theorem Represents.push (hr : Represents s h history) (message : HistoryEntry) :
    Represents s (h.push s message) (history.push message) := by
  have hdigest : s.step h.digest message = s.digest (history.entries ++ [message]) := by
    rw [hr.digest, DigestScheme.digest_append]
    rfl
  refine ⟨?_, ?_, hdigest, ?_⟩
  · change Chunk.Holds s.zero s.step (Chunk.push chunkSize message (h.len + 1)
      (s.step h.digest message) h.head) (history.entries ++ [message])
    rw [hdigest, hr.len]
    exact Chunk.holds_push hr.head chunkSize message
  · change h.len + 1 = (history.entries ++ [message]).length
    rw [hr.len, List.length_append]
    rfl
  · change h.order.append message h.len = history.order.append message history.len
    rw [hr.order, hr.len]

theorem Represents.append {messages : List HistoryEntry} :
    ∀ {h h' : ChunkedHistory δ} {history : History}, Represents s h history →
      ChunkedHistory.append s messages h = .ok h' →
        ∃ history', history.append messages = .ok history' ∧ Represents s h' history' := by
  induction messages with
  | nil =>
    intro h h' history hr happend
    cases happend
    exact ⟨history, rfl, hr⟩
  | cons message rest ih =>
    intro h h' history hr happend
    obtain ⟨⟨⟩, hvalid, happend⟩ := Result.bind_ok happend
    obtain ⟨history', happend', hr'⟩ := ih (hr.push message) happend
    exact ⟨history', Result.bind_of_ok hvalid happend', hr'⟩

theorem append_of_valid {messages : List HistoryEntry}
    (hvalid : ∀ message ∈ messages, message.validate = .ok ()) (h : ChunkedHistory δ) :
    ChunkedHistory.append s messages h =
      .ok (messages.foldl (fun h message => h.push s message) h) := by
  induction messages generalizing h with
  | nil => rfl
  | cons message rest ih =>
    obtain ⟨hmessage, hrest⟩ := List.forall_mem_cons.mp hvalid
    exact Result.bind_of_ok hmessage (ih hrest (h.push s message))

theorem Built.represents (hb : Built s h) :
    ∃ history : History, Represents s h history ∧
      ∀ entry ∈ history.entries, entry.validate = .ok () := by
  induction hb with
  | empty => exact ⟨.empty, represents_empty, by simp [History.empty]⟩
  | append _ happend ih =>
    obtain ⟨history, hr, hvalid⟩ := ih
    obtain ⟨history', happend', hr'⟩ := hr.append happend
    obtain ⟨hentries, hadded⟩ := append_entries happend'
    refine ⟨history', hr', fun entry hentry => ?_⟩
    rw [hentries] at hentry
    exact (List.mem_append.mp hentry).elim (hvalid entry) (hadded entry)

theorem Represents.entries (hr : Represents s h history) : h.entries = history.entries :=
  Chunk.all_of_holds hr.head

theorem Represents.get (hr : Represents s h history) (index : Nat) :
    h.get index = history.get index :=
  Chunk.get_of_holds hr.head index

theorem Represents.byId (hr : Represents s h history) (id : EntryId) :
    h.byId id = history.byId id := by
  unfold ChunkedHistory.byId History.byId
  rw [hr.order]
  congr 1
  funext index
  exact hr.get index

theorem Represents.validate (hr : Represents s h history) : h.validate = history.validate := by
  unfold ChunkedHistory.validate History.validate History.isEmpty
  rw [hr.len, hr.order]
  cases hentries : history.entries with
  | nil => simp [History.len, hentries]
  | cons entry rest =>
    have hne : ¬ history.len = 0 := by simp [History.len, hentries]
    rw [if_neg hne]
    rfl

theorem Represents.appendedSince [DecidableEq δ] (hfree : s.CollisionFree)
    {previous : ChunkedHistory δ} {older : History} (hr : Represents s h history)
    (hp : Represents s previous older) :
    h.appendedSince s previous = history.appendedSince older := by
  unfold ChunkedHistory.appendedSince History.appendedSince
  rw [hr.len, hp.len, hp.digest, hr.digest]
  have hshared : ∀ hle : older.len ≤ history.len,
      s.digest (history.entries.take older.len) = s.digest older.entries ↔
        older.entries <+: history.entries := by
    intro hle
    have hlength : (history.entries.take older.len).length = older.entries.length := by
      rw [List.length_take]
      exact Nat.min_eq_left hle
    constructor
    · intro hdigest
      rw [← hfree _ _ hlength hdigest]
      exact List.take_prefix _ _
    · intro hshared
      exact congrArg s.digest (List.prefix_iff_eq_take.mp hshared).symm
  split
  · rename_i hlt
    have hnot : ¬ older.entries <+: history.entries := fun hshared =>
      absurd hshared.length_le (Nat.not_le.mpr hlt)
    rw [if_neg hnot]
  · rename_i hle
    have hle : older.len ≤ history.len := Nat.not_lt.mp hle
    split
    · rename_i heq
      have hwhole : history.entries.take older.len = history.entries := by
        rw [heq]
        exact List.take_length
      have hsame := hshared hle
      rw [hwhole] at hsame
      rw [eq_comm] at hsame
      simp only [hsame]
      split
      · rw [heq]
        exact congrArg Except.ok List.drop_length.symm
      · rfl
    · rename_i hne
      have hchunks : h.head ≠ [] := by
        intro hnil
        have hholds := hr.head
        rw [hnil] at hholds
        have hempty : history.entries = [] := by
          generalize history.entries = entries at hholds
          cases hholds
          rfl
        have hlen : history.len = 0 := by simp [History.len, hempty]
        omega
      have htaken : (history.entries.take older.len).foldl s.step s.zero =
          s.digest (history.entries.take older.len) := rfl
      rw [Chunk.since_of_holds hr.head hle hchunks, htaken]
      simp only [hshared hle]
      by_cases hpre : older.entries <+: history.entries
      · simp only [hpre, if_true]
      · simp only [hpre, if_false]

theorem append_ok {messages : List HistoryEntry} (hb : Built s h)
    (happend : ChunkedHistory.append s messages h = .ok h') :
    h' = messages.foldl (fun h message => h.push s message) h ∧
      h'.entries = h.entries ++ messages := by
  obtain ⟨history, hr, -⟩ := hb.represents
  obtain ⟨history', hplain, hr'⟩ := hr.append happend
  obtain ⟨hentries, hvalid⟩ := append_entries hplain
  rw [append_of_valid hvalid] at happend
  cases happend
  exact ⟨rfl, by rw [hr'.entries, hr.entries, hentries]⟩

theorem Built.fold (hb : Built s h) :
    h = h.entries.foldl (fun h message => h.push s message) (ChunkedHistory.empty s) := by
  induction hb with
  | empty => rfl
  | append hb happend ih =>
    obtain ⟨hpushed, hentries⟩ := append_ok hb happend
    rw [hentries, List.foldl_append, ← ih]
    exact hpushed

/-- Whatever portions a history was appended in, appending all its entries at once builds
the same chunks, digests and index. -/
theorem Built.rebuilt (hb : Built s h) : fromEntries s h.entries = .ok h := by
  obtain ⟨history, hr, hvalid⟩ := hb.represents
  rw [← hr.entries] at hvalid
  refine (append_of_valid hvalid (ChunkedHistory.empty s)).trans ?_
  rw [← hb.fold]

end ChunkedHistory

end Zhir.Core
