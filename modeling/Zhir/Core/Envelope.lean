import Zhir.Core.ChunkedHistory

/-!
The checkpoint envelope: core, entry list and version, written to bytes and read back.
-/

set_option autoImplicit false
set_option relaxedAutoImplicit false

namespace Zhir.Core

variable {δ : Type} (s : DigestScheme δ)

/-- A checkpoint as it is held in memory: its history is the chunked one. -/
structure HeldCheckpoint where
  checkpoint : Checkpoint
  history : ChunkedHistory δ
  built : history.Built s
  same : history.Represents s checkpoint.history

/-- `VERSION`. -/
def wireVersion : Nat := 5

structure CheckpointEnvelope (δ : Type) where
  version : Nat
  checkpoint : CheckpointCore δ
  history : List HistoryEntry

/-- How envelopes are written to bytes and parsed. -/
structure WireFormat (δ β : Type) where
  write : CheckpointEnvelope δ → β
  read : β → Result (CheckpointEnvelope δ)

def WireFormat.RoundTrips {β : Type} (format : WireFormat δ β) : Prop :=
  ∀ envelope, format.read (format.write envelope) = .ok envelope

variable {s}

/-- `From<&Checkpoint> for CheckpointCore`: count and digest are the ones kept up in memory. -/
def HeldCheckpoint.core (c : HeldCheckpoint s) : CheckpointCore δ where
  options := c.checkpoint.options
  id := c.checkpoint.id
  parentId := c.checkpoint.parentId
  revision := c.checkpoint.revision
  context := c.checkpoint.context
  state := c.checkpoint.state
  active := c.checkpoint.active
  metrics := c.checkpoint.metrics
  fact := c.checkpoint.fact
  historyCount := c.history.len
  historyDigest := c.history.digest

variable (s)

def ChunkedHistory.plain (h : ChunkedHistory δ) (hb : h.Built s) : History where
  entries := h.entries
  order := h.order
  indexed := by
    obtain ⟨history, hr, -⟩ := hb.represents
    rw [hr.entries, hr.order]
    exact history.indexed

private theorem ChunkedHistory.plain_eq {s : DigestScheme δ} {h : ChunkedHistory δ}
    {history : History}
    (hb : h.Built s) (hr : h.Represents s history) : h.plain s hb = history := by
  obtain ⟨entries, order, hindexed⟩ := history
  have hentries := hr.entries
  have horder := hr.order
  simp only at hentries horder
  unfold plain
  simp only [hentries, horder]

private theorem ChunkedHistory.represents_plain {s : DigestScheme δ} {h : ChunkedHistory δ}
    (hb : h.Built s) : h.Represents s (h.plain s hb) := by
  obtain ⟨history, hr, -⟩ := hb.represents
  rw [plain_eq hb hr]
  exact hr

/-- The history of an envelope, with the fact that appends built it. -/
def readHistory (entries : List HistoryEntry) :
    Result { h : ChunkedHistory δ // h.Built s } :=
  match h : ChunkedHistory.fromEntries s entries with
  | .ok history => .ok ⟨history, .append .empty h⟩
  | .error error => .error error

variable {s}

private theorem readHistory_ok {entries : List HistoryEntry} {h : ChunkedHistory δ} (hb : h.Built s)
    (hread : ChunkedHistory.fromEntries s entries = .ok h) :
    readHistory s entries = .ok ⟨h, hb⟩ := by
  unfold readHistory
  split
  · rename_i history hhistory
    rw [hread] at hhistory
    cases hhistory
    rfl
  · rename_i error herror
    rw [hread] at herror
    cases herror

/-- What is read back has exactly the entries given. -/
private theorem readHistory_entries {entries : List HistoryEntry}
    {history : { h : ChunkedHistory δ // h.Built s }}
    (hread : readHistory s entries = .ok history) : history.val.entries = entries := by
  unfold readHistory at hread
  split at hread
  · rename_i h happend
    cases hread
    obtain ⟨plain, hplain, hr⟩ := ChunkedHistory.represents_empty.append happend
    obtain ⟨hentries, -⟩ := append_entries hplain
    rw [hr.entries, hentries]
    rfl
  · cases hread

private theorem readHistory_integrity {entries : List HistoryEntry}
    {history : { h : ChunkedHistory δ // h.Built s }}
    (hread : readHistory s entries = .ok history) :
    history.val.len = entries.length ∧ history.val.digest = s.digest entries := by
  obtain ⟨plain, hr, -⟩ := history.property.represents
  have hplain : plain.entries = entries := hr.entries.symm.trans (readHistory_entries hread)
  refine ⟨?_, ?_⟩
  · rw [hr.len, ← hplain]
    rfl
  · rw [hr.digest, hplain]

variable (s) [DecidableEq δ]

/-- `with_history` on the history in memory. -/
def CheckpointCore.withChunks (core : CheckpointCore δ) (history : ChunkedHistory δ)
    (hb : history.Built s) : Result (HeldCheckpoint s) := do
  require (¬ (core.historyCount ≠ history.len ∨ core.historyDigest ≠ history.digest))
    (.storage "history integrity mismatch")
  let c := core.onHistory (history.plain s hb)
  c.validate
  return ⟨c, history, hb, ChunkedHistory.represents_plain hb⟩

variable {β : Type} (format : WireFormat δ β)

def encodeCheckpoint (c : HeldCheckpoint s) : Result β := do
  c.checkpoint.validate
  return format.write ⟨wireVersion, c.core, c.history.entries⟩

def decodeCheckpoint (bytes : β) : Result (HeldCheckpoint s) := do
  let e ← format.read bytes
  require (e.version = wireVersion) (.invalid "unsupported checkpoint version")
  let history ← readHistory s e.history
  e.checkpoint.withChunks s history.val history.property

variable {s}

private theorem withChunks_core (c : HeldCheckpoint s) (hvalid : c.checkpoint.validate = .ok ()) :
    c.core.withChunks s c.history c.built = .ok c := by
  have hplain : c.history.plain s c.built = c.checkpoint.history :=
    ChunkedHistory.plain_eq c.built c.same
  have hcheckpoint : c.core.onHistory (c.history.plain s c.built) = c.checkpoint := by
    rw [hplain]
    rfl
  have hsame : ¬ (c.core.historyCount ≠ c.history.len ∨
      c.core.historyDigest ≠ c.history.digest) := by
    simp [HeldCheckpoint.core]
  unfold CheckpointCore.withChunks
  simp only [require, hsame, not_false_eq_true, if_true, hcheckpoint]
  refine Result.bind_of_ok rfl (Result.bind_of_ok hvalid ?_)
  rfl

private theorem decode_sound {bytes : β} {envelope : CheckpointEnvelope δ} {c : HeldCheckpoint s}
    (hread : format.read bytes = .ok envelope)
    (hdecode : decodeCheckpoint s format bytes = .ok c) :
    envelope.version = wireVersion ∧
      envelope.checkpoint.historyCount = envelope.history.length ∧
      envelope.checkpoint.historyDigest = s.digest envelope.history := by
  obtain ⟨e, he, hdecode⟩ := Result.bind_ok hdecode
  rw [hread] at he
  cases he
  obtain ⟨⟨⟩, hversion, hdecode⟩ := Result.bind_ok hdecode
  obtain ⟨history, hhistory, hdecode⟩ := Result.bind_ok hdecode
  obtain ⟨⟨⟩, hsame, -⟩ := Result.bind_ok hdecode
  obtain ⟨hlen, hdigest⟩ := readHistory_integrity hhistory
  have hsame := require_ok hsame
  rw [not_or, not_not, not_not, hlen, hdigest] at hsame
  exact ⟨require_ok hversion, hsame.1, hsame.2⟩

/-- What a format promises of strings and whole numbers, but not of other numbers: the count, the
digest and the places of the operations' results are parsed as they were written. -/
structure WireFormat.Exact (format : WireFormat δ β) : Prop where
  history : ∀ {envelope parsed : CheckpointEnvelope δ},
    format.read (format.write envelope) = .ok parsed →
      parsed.checkpoint.historyCount = envelope.checkpoint.historyCount ∧
        parsed.checkpoint.historyDigest = envelope.checkpoint.historyDigest
  operations : ∀ {envelope parsed : CheckpointEnvelope δ},
    format.read (format.write envelope) = .ok parsed → ∀ id : OperationId,
      (parsed.checkpoint.active.operations[id]?).map (fun op => (op.state, op.resultEntry)) =
        (envelope.checkpoint.active.operations[id]?).map fun op => (op.state, op.resultEntry)

/-- Whatever such a format does to other numbers, what decodes is valid and has the history that
was encoded, and every operation where it was. -/
theorem decode_exact (hexact : format.Exact) (hfree : s.CollisionFree)
    {c decoded : HeldCheckpoint s} {bytes : β} (hencode : encodeCheckpoint s format c = .ok bytes)
    (hdecode : decodeCheckpoint s format bytes = .ok decoded) :
    decoded.checkpoint.validate = .ok () ∧
      decoded.checkpoint.history = c.checkpoint.history ∧
      ∀ id : OperationId, (decoded.checkpoint.active.operations[id]?).map
          (fun op => (op.state, op.resultEntry)) =
        (c.checkpoint.active.operations[id]?).map fun op => (op.state, op.resultEntry) := by
  obtain ⟨⟨⟩, -, hwrite⟩ := Result.bind_ok hencode
  cases hwrite
  have hdecoded := hdecode
  obtain ⟨envelope, hread, hdecode⟩ := Result.bind_ok hdecode
  obtain ⟨-, hcount, hdigest⟩ := decode_sound format hread hdecoded
  obtain ⟨⟨⟩, -, hdecode⟩ := Result.bind_ok hdecode
  obtain ⟨chunks, hchunks, hdecode⟩ := Result.bind_ok hdecode
  obtain ⟨⟨⟩, -, hdecode⟩ := Result.bind_ok hdecode
  obtain ⟨⟨⟩, hvalid, hdecode⟩ := Result.bind_ok hdecode
  cases hdecode
  obtain ⟨hsameCount, hsameDigest⟩ := hexact.history hread
  refine ⟨hvalid, ?_, hexact.operations hread⟩
  have hentries : envelope.history = c.checkpoint.history.entries := by
    apply hfree
    · rw [← hcount, hsameCount]
      exact c.same.len
    · rw [← hdigest, hsameDigest]
      exact c.same.digest
  have hplain : chunks.val.entries = envelope.history := readHistory_entries hchunks
  exact History.ext_entries (hplain.trans hentries)

theorem encode_decode (hround : format.RoundTrips) (c : HeldCheckpoint s)
    (hvalid : c.checkpoint.validate = .ok ()) :
    ∃ bytes, encodeCheckpoint s format c = .ok bytes ∧
      decodeCheckpoint s format bytes = .ok c := by
  refine ⟨format.write ⟨wireVersion, c.core, c.history.entries⟩, ?_, ?_⟩
  · exact Result.bind_of_ok hvalid rfl
  · refine Result.bind_of_ok (hround _) (Result.bind_of_ok (if_pos rfl) ?_)
    exact Result.bind_of_ok (readHistory_ok c.built c.built.rebuilt) (withChunks_core c hvalid)

/-- Every valid checkpoint, in whatever portions its history was appended, is written and
read back as itself: core, chunks, digests and index. Bytes whose entries do not have the
recorded count and digest are refused, those of another version too, and with the core of a
checkpoint no other entries are taken than its own. -/
theorem checkpoint_round_trip (hround : format.RoundTrips) (hfree : s.CollisionFree) :
    (∀ c : HeldCheckpoint s, c.checkpoint.validate = .ok () →
      ∃ bytes, encodeCheckpoint s format c = .ok bytes ∧
        decodeCheckpoint s format bytes = .ok c) ∧
    (∀ bytes envelope, format.read bytes = .ok envelope →
      envelope.version ≠ wireVersion ∨
        envelope.checkpoint.historyCount ≠ envelope.history.length ∨
        envelope.checkpoint.historyDigest ≠ s.digest envelope.history →
      ∃ error, decodeCheckpoint s format bytes = .error error) ∧
    (∀ (c : HeldCheckpoint s) (bytes : β) (envelope : CheckpointEnvelope δ),
      format.read bytes = .ok envelope → envelope.checkpoint = c.core →
      envelope.history ≠ c.history.entries →
      ∃ error, decodeCheckpoint s format bytes = .error error) := by
  refine ⟨encode_decode format hround, ?_, ?_⟩
  · intro bytes envelope hread htampered
    cases hdecode : decodeCheckpoint s format bytes with
    | error error => exact ⟨error, rfl⟩
    | ok c =>
      obtain ⟨hversion, hcount, hdigest⟩ := decode_sound format hread hdecode
      rcases htampered with h | h | h
      · exact absurd hversion h
      · exact absurd hcount h
      · exact absurd hdigest h
  · intro c bytes envelope hread hcore htampered
    cases hdecode : decodeCheckpoint s format bytes with
    | error error => exact ⟨error, rfl⟩
    | ok c' =>
      obtain ⟨-, hcount, hdigest⟩ := decode_sound format hread hdecode
      have hentries : c.history.entries = c.checkpoint.history.entries := c.same.entries
      have hlength : envelope.history.length = c.history.entries.length := by
        rw [← hcount, hcore, hentries]
        exact c.same.len
      have hsame : s.digest envelope.history = s.digest c.history.entries := by
        rw [← hdigest, hcore, hentries]
        exact c.same.digest
      exact absurd (hfree _ _ hlength hsame) htampered

def sampleDigests : DigestScheme (List HistoryEntry) := ⟨[], fun digest entry => digest ++ [entry]⟩

private theorem sampleDigests_digest (entries : List HistoryEntry) :
    sampleDigests.digest entries = entries := by
  have hextend : ∀ kept : List HistoryEntry,
      entries.foldl sampleDigests.step kept = kept ++ entries := by
    induction entries with
    | nil => intro kept; simp
    | cons entry rest ih =>
      intro kept
      rw [List.foldl_cons, ih]
      simp [sampleDigests]
  exact hextend []

theorem sampleDigests_free : sampleDigests.CollisionFree := by
  intro xs ys _ hdigest
  rwa [sampleDigests_digest, sampleDigests_digest] at hdigest

def sampleHeldEntries : List HistoryEntry :=
  [sampleEntry 0 "go", sampleEntry 1 "on", sampleEntry 2 "up"]

/-- A checkpoint whose history was appended in two portions. -/
def sampleHeld : HeldCheckpoint sampleDigests where
  checkpoint := sampleCheckpoint sampleHeldEntries
  history := sampleHeldEntries.foldl (fun h entry => h.push sampleDigests entry)
    (.empty sampleDigests)
  built := .append
    (.append .empty (show ChunkedHistory.append sampleDigests [sampleEntry 0 "go"]
      (.empty sampleDigests) = .ok _ from rfl))
    (show ChunkedHistory.append sampleDigests [sampleEntry 1 "on", sampleEntry 2 "up"] _ =
      .ok _ from rfl)
  same := ((ChunkedHistory.represents_empty.push (sampleEntry 0 "go")).push
    (sampleEntry 1 "on")).push (sampleEntry 2 "up")

/-- With those digests and envelopes that are their own bytes, a checkpoint of three entries comes
back; with one of the entries taken away, or under another version, it does not. -/
theorem sample_round_trip :
    (∃ bytes, encodeCheckpoint sampleDigests ⟨id, .ok⟩ sampleHeld = .ok bytes ∧
      decodeCheckpoint sampleDigests ⟨id, .ok⟩ bytes = .ok sampleHeld) ∧
    (∃ error, decodeCheckpoint sampleDigests ⟨id, .ok⟩
      ⟨4, sampleHeld.core, sampleHeldEntries⟩ = .error error) ∧
    ∃ error, decodeCheckpoint sampleDigests ⟨id, .ok⟩
      ⟨wireVersion, sampleHeld.core, sampleHeldEntries.tail⟩ = .error error := by
  obtain ⟨hreads, hrefuses, htampered⟩ := checkpoint_round_trip (s := sampleDigests)
    (⟨id, .ok⟩ : WireFormat _ (CheckpointEnvelope (List HistoryEntry))) (fun _ => rfl)
    sampleDigests_free
  refine ⟨hreads sampleHeld (by decide +kernel), hrefuses _ _ rfl (.inl (by decide)), ?_⟩
  exact htampered sampleHeld _ _ rfl rfl (by decide)

end Zhir.Core
