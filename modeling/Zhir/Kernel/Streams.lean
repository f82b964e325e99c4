import Zhir.Kernel.MoveRules
import Zhir.Library.Streams
import Zhir.Library.TreeMap

/-!
The kernel's admission of output media: which cursors and ended streams an execution holds
after what it has taken, and that a conforming sequence of chunks is never rejected.
-/

set_option autoImplicit false
set_option relaxedAutoImplicit false

namespace Zhir.Kernel

open Zhir.Core
open Zhir.Library (Program Sequenced)
open Zhir.Library.Program
open Relation (ReflTransGen)

variable {cfg : Config} {e e' : Engine}

private theorem append_separator_inj {α : Type} [DecidableEq α] {sep : α} {xs ys us vs : List α}
    (hxs : sep ∉ xs) (hys : sep ∉ ys) (h : xs ++ sep :: us = ys ++ sep :: vs) :
    xs = ys ∧ us = vs := by
  have htake : ∀ zs ws : List α, sep ∉ zs →
      (zs ++ sep :: ws).takeWhile (fun x => decide (x ≠ sep)) = zs := by
    intro zs ws hzs
    have hpass : ∀ x ∈ zs, decide (x ≠ sep) = true := by
      intro x hx
      exact decide_eq_true fun heq : x = sep => hzs (heq ▸ hx)
    rw [List.takeWhile_append_of_pos hpass]
    simp
  have hsame : xs = ys := by
    rw [← htake xs us hxs, h, htake ys vs hys]
  subst hsame
  have hrest := List.append_cancel_left h
  exact ⟨rfl, List.tail_eq_of_cons_eq hrest⟩

private theorem mediaKey_injective {direction s t : String} {m n : Nat}
    (h : mediaKey direction s m = mediaKey direction t n) : s = t ∧ m = n := by
  have hrepr : ∀ n : Nat, (toString n).toList = Nat.toDigits 10 n := fun n => Nat.toList_repr
  have hdigit : ∀ n : Nat, ':' ∉ (Nat.toDigits 10 n).reverse := by
    intro n hmem
    have := Nat.isDigit_of_mem_toDigits (by decide) (by decide) (List.mem_reverse.1 hmem)
    cases this
  have hlist := congrArg String.toList h
  unfold mediaKey at hlist
  simp only [String.toList_append, List.append_assoc, hrepr] at hlist
  have hlist := List.append_cancel_left (List.append_cancel_left hlist)
  -- Read from its end, a key starts with the epoch, which has no colon.
  have hrev := congrArg List.reverse hlist
  simp only [List.reverse_append, List.append_assoc] at hrev
  obtain ⟨hepoch, hstream⟩ := append_separator_inj (hdigit m) (hdigit n) hrev
  constructor
  · exact String.toList_injective (List.reverse_injective hstream)
  · have hread := congrArg (fun digits => Nat.ofDigitChars 10 digits 0)
      (List.reverse_injective hepoch)
    simpa only [Nat.ofDigitChars_ten_toDigits] using hread

private theorem mediaKey_output_ne_input {s t : String} {m n : Nat} :
    mediaKey "output" s m ≠ mediaKey "input" t n := by
  intro h
  have hhead := congrArg (fun key : String => key.toList.head?) h
  simp [mediaKey, String.toList_append] at hhead

private theorem isPrefixOf_mediaKey (s : String) (n : Nat) :
    "output:".isPrefixOf (mediaKey "output" s n) = true := by
  unfold String.isPrefixOf mediaKey
  rw [String.startsWith_string_iff]
  simp only [String.toList_append, List.append_assoc]
  exact ⟨s.toList ++ (":".toList ++ (toString n).toList), rfl⟩

/-- The chunks of a segment, where each lies in the segment's resource. -/
def sealChunks (offset : Nat) : List MediaChunk → List SealedChunk
  | [] => []
  | chunk :: rest =>
    ⟨chunk.sequence, chunk.timestampUs, offset, chunk.bytes.length, chunk.endOfStream⟩ ::
      sealChunks (offset + chunk.bytes.length) rest

/-- `seal_media`: the node of a segment. -/
def sealMedia (first : MediaChunk) (rest : List MediaChunk) (resource : ResourceRef)
    (previous : Option ResourceRef) : SealedMedia :=
  ⟨first.streamId, first.sessionId, first.epoch, sealChunks 0 (first :: rest), resource, previous⟩

/-- Consecutive chunks of one stream, of which only the last may end it. -/
def Joined (segment : List MediaChunk) : Prop := segment.IsChain fun a b => joins a b = true

private theorem map_sequence_sealChunks (segment : List MediaChunk) : ∀ offset,
    (sealChunks offset segment).map SealedChunk.sequence = segment.map MediaChunk.sequence := by
  induction segment with
  | nil => exact fun _ => rfl
  | cons chunk rest ih =>
    intro offset
    rw [sealChunks, List.map_cons, List.map_cons, ih]

private theorem getLast?_sealChunks (segment : List MediaChunk) : ∀ offset {last : MediaChunk},
    segment.getLast? = some last → ∃ node, (sealChunks offset segment).getLast? = some node ∧
      node.sequence = last.sequence ∧ node.endOfStream = last.endOfStream := by
  induction segment with
  | nil => intro offset last h; cases h
  | cons chunk rest ih =>
    intro offset last h
    cases rest with
    | nil =>
      cases h
      exact ⟨_, rfl, rfl, rfl⟩
    | cons next rest =>
      rw [List.getLast?_cons_cons] at h
      obtain ⟨node, hnode, hsame⟩ := ih (offset + chunk.bytes.length) h
      refine ⟨node, ?_, hsame⟩
      rw [sealChunks, sealChunks, List.getLast?_cons_cons]
      exact hnode

private theorem increasing_of_pairwise {chunks : List SealedChunk} : ∀ {previous : Option Nat},
    (∀ p, previous = some p → ∀ c ∈ chunks.head?, p < c.sequence) →
      (chunks.map SealedChunk.sequence).Pairwise (· < ·) → increasing previous chunks = true := by
  induction chunks with
  | nil => exact fun _ _ => rfl
  | cons chunk rest ih =>
    intro previous hprevious hpairwise
    obtain ⟨hfirst, hrest⟩ := List.pairwise_cons.1 hpairwise
    rw [increasing, Bool.and_eq_true]
    constructor
    · cases previous with
      | none => rfl
      | some p => exact decide_eq_true (hprevious p rfl chunk rfl)
    · refine ih (fun p hp c hc => ?_) hrest
      cases hp
      exact hfirst c.sequence (List.mem_map_of_mem (List.mem_of_mem_head? hc))

theorem Joined.same {first : MediaChunk} {rest : List MediaChunk} (h : Joined (first :: rest)) :
    ∀ c ∈ first :: rest, c.streamId = first.streamId ∧ c.epoch = first.epoch := by
  induction rest generalizing first with
  | nil =>
    intro c hc
    rw [List.mem_singleton.1 hc]
    exact ⟨rfl, rfl⟩
  | cons next rest ih =>
    obtain ⟨hjoins, hrest⟩ := List.isChain_cons_cons.1 h
    simp only [joins, Bool.and_eq_true, decide_eq_true_eq] at hjoins
    obtain ⟨⟨⟨⟨-, hstream⟩, -⟩, hepoch⟩, -⟩ := hjoins
    intro c hc
    rcases List.mem_cons.1 hc with rfl | hc
    · exact ⟨rfl, rfl⟩
    · obtain ⟨hstream', hepoch'⟩ := ih hrest c hc
      exact ⟨hstream'.trans hstream.symm, hepoch'.trans hepoch.symm⟩

/-- The chunks of a conforming source: in each stream and epoch of its own. -/
abbrev ConformingMedia (chunks : List MediaChunk) : Prop :=
  Sequenced (fun c : MediaChunk => (c.streamId, c.epoch)) MediaChunk.sequence
    MediaChunk.endOfStream chunks

def outputKey (chunk : MediaChunk) : String := mediaKey "output" chunk.streamId chunk.epoch

private theorem outputKey_eq {a b : MediaChunk} (h : outputKey a = outputKey b) :
    (a.streamId, a.epoch) = (b.streamId, b.epoch) := by
  obtain ⟨hstream, hepoch⟩ := mediaKey_injective h
  rw [hstream, hepoch]

private theorem Joined.pairwise {first : MediaChunk} {rest : List MediaChunk}
    (h : Joined (first :: rest))
    (hconforms : ConformingMedia (first :: rest)) :
    ((first :: rest).map MediaChunk.sequence).Pairwise (· < ·) := by
  refine List.pairwise_map.2 (List.Pairwise.imp_of_mem ?_ hconforms)
  intro a b ha hb hab
  obtain ⟨hstream, hepoch⟩ := h.same a ha
  obtain ⟨hstream', hepoch'⟩ := h.same b hb
  exact (hab (Prod.ext (hstream.trans hstream'.symm) (hepoch.trans hepoch'.symm))).1

/-- What `seal_cursor` does with a segment it has not rejected. -/
def recordSegment (cfg : Config) (key : String) (segment : SealedMedia) (last : SealedChunk)
    (reference : ResourceRef) : Handler Unit := do
  let e ← Program.read
  let next ← stageCursor cfg key segment last reference e.current
  commit cfg next (.media segment.streamId last.sequence) .unchanged
  Program.when (last.endOfStream = true) (Program.modify (Engine.endStreams [key]))

/-- `seal_cursor` gets past its checks; at most it has read which streams have ended. -/
def Sealable (cfg : Config) (direction : String) (segment : SealedMedia) (reference : ResourceRef)
    (e : Engine) : Prop :=
  ∃ last ended, segment.chunks.getLast? = some last ∧
    run (sealCursor cfg direction segment reference) e =
      run (recordSegment cfg (mediaKey direction segment.streamId segment.epoch) segment last
        reference) { e with endedStreams := ended }

namespace Engine

def knownEnded (e : Engine) : List String := e.endedStreams.getD []

def cursorAt (key : String) (e : Engine) : Option StreamCursor := e.current.active.media[key]?

/-- Nothing of the archive has been read while there was nothing to read. -/
structure Unread (cfg : Config) (e : Engine) : Prop where
  archive : e.endedStreams = none → e.current.active.session.mediaArchive = none
  cursors : e.endedStreams = none → cfg.resources = true → ∀ key, e.cursorAt key = none

/-- The streams that have ended, once they have been asked for. -/
def loaded (e : Engine) : Engine := { e with endedStreams := some e.knownEnded }

end Engine

private theorem run_loadEnded (h : e.Unread cfg) :
    run (loadEnded cfg) e = (.ok e.knownEnded, e.loaded) := by
  unfold loadEnded
  rw [run_bind, run_read]
  cases hended : e.endedStreams with
  | some ended =>
    simp only [hended, Engine.loaded, Engine.knownEnded, Option.getD_some, run_pure]
    rw [← hended]
  | none =>
    simp only [hended, h.archive hended, Engine.loaded, Engine.knownEnded, Option.getD_none]
    rfl

private theorem run_ensureNewStream (h : e.Unread cfg) {key : String} (hnew : key ∉ e.knownEnded) :
    ∃ ended, run (ensureNewStream cfg key) e = (.ok (), { e with endedStreams := ended }) := by
  unfold ensureNewStream Program.when
  by_cases hresources : cfg.resources = true
  · rw [if_pos hresources, run_bind, run_loadEnded h]
    simp only [run_require, if_pos hnew]
    exact ⟨_, rfl⟩
  · rw [if_neg hresources]
    exact ⟨e.endedStreams, rfl⟩

/-- A segment is recorded when it carries on behind its cursor, or begins a stream that has
not ended. -/
private theorem sealCursor_passes (h : e.Unread cfg) {direction : String} {segment : SealedMedia}
    {reference : ResourceRef} {last : SealedChunk} (hlast : segment.chunks.getLast? = some last)
    (hincreasing : increasing
      ((e.cursorAt (mediaKey direction segment.streamId segment.epoch)).map StreamCursor.sequence)
      segment.chunks = true)
    (hnew : e.cursorAt (mediaKey direction segment.streamId segment.epoch) = none →
      mediaKey direction segment.streamId segment.epoch ∉ e.knownEnded) :
    Sealable cfg direction segment reference e := by
  unfold Engine.cursorAt at hincreasing hnew
  unfold Sealable sealCursor
  rw [run_bind, run_read]
  simp only [hlast, run_bind, run_require, if_pos hincreasing]
  unfold Program.when
  by_cases hcursor :
      e.current.active.media[mediaKey direction segment.streamId segment.epoch]? = none
  · obtain ⟨ended, hrun⟩ := run_ensureNewStream h (hnew hcursor)
    rw [if_pos hcursor, hrun]
    exact ⟨last, ended, rfl, rfl⟩
  · rw [if_neg hcursor]
    exact ⟨last, e.endedStreams, rfl, rfl⟩

def Rejects (cfg : Config) (direction : String) (segment : SealedMedia) (reference : ResourceRef)
    (e : Engine) : Prop :=
  ∃ message e', run (sealCursor cfg direction segment reference) e =
    (.error (.protocol message), e') ∧ e'.world = e.world

private theorem clock_commit (next : Checkpoint) (fact : Fact) (delta : HistoryDelta) :
    (run (commit cfg next fact delta) e).2.world.clock = e.world.clock + 1 := by
  simp only [run, commit, persist]
  cases cfg.verdict e.world.clock <;>
    cases (Commit.mk (stamp cfg e.world e.current next fact) delta).validateAgainst e.world.head <;>
      rfl

private theorem clock_commit_bind {β : Type} {next : Checkpoint} {fact : Fact}
    {delta : HistoryDelta}
    {f : Unit → Handler β} (hf : ∀ u e', e'.world.clock ≤ (run (f u) e').2.world.clock) :
    e.world.clock < (run (commit cfg next fact delta >>= f) e).2.world.clock := by
  have hclock := @clock_commit cfg e next fact delta
  rw [run_bind]
  rcases hrun : run (commit cfg next fact delta) e with ⟨error | u, e'⟩
  · rw [hrun] at hclock
    exact Nat.lt_of_lt_of_eq (Nat.lt_succ_self _) hclock.symm
  · rw [hrun] at hclock
    exact Nat.lt_of_lt_of_le (Nat.lt_of_lt_of_eq (Nat.lt_succ_self _) hclock.symm) (hf u e')

private theorem recordSegment_asks {key : String} {segment : SealedMedia} {last : SealedChunk}
    {reference : ResourceRef} :
    e.world.clock < (run (recordSegment cfg key segment last reference) e).2.world.clock ∨
      run (recordSegment cfg key segment last reference) e =
        (.error (.invalid "media archive requires resource storage"), e) := by
  have hrest : ∀ (next : Checkpoint) (e : Engine), e.world.clock < (run (do
      commit cfg next (.media segment.streamId last.sequence) .unchanged
      Program.when (last.endOfStream = true)
        (Program.modify (Engine.endStreams [key]))) e).2.world.clock := by
    intro next e
    refine clock_commit_bind fun u e' => ?_
    unfold Program.when
    split <;> exact Nat.le_refl _
  unfold recordSegment stageCursor
  rw [run_bind, run_read]
  by_cases hend : last.endOfStream = true
  · simp only [if_pos hend, retireStreams, archiveMedia, bind_assoc, pure_bind]
    rw [run_bind, run_require]
    by_cases hresources : cfg.resources = true
    · left
      rw [if_pos hresources]
      change e.world.clock <
        (run (Program.lift (cfg.archive e.world.clock) >>= _) e.tick).2.world.clock
      cases cfg.archive e.world.clock with
      | error error => exact Nat.lt_succ_self _
      | ok reference =>
        refine Nat.lt_trans (Nat.lt_succ_self e.world.clock) ?_
        exact hrest { e.current with
          active.session.mediaArchive := some reference
          active.media := e.current.active.media.erase key } e.tick
    · right
      rw [if_neg hresources]
  · left
    simp only [if_neg hend, pure_bind]
    exact hrest _ e

theorem Sealable.not_rejects {direction : String} {segment : SealedMedia}
    {reference : ResourceRef}
    (h : Sealable cfg direction segment reference e) :
    ¬ Rejects cfg direction segment reference e := by
  rintro ⟨message, e', hrun, hworld⟩
  obtain ⟨last, ended, -, hrecord⟩ := h
  rw [hrecord] at hrun
  rcases @recordSegment_asks cfg { e with endedStreams := ended }
    (mediaKey direction segment.streamId segment.epoch) segment last reference with hasks | hlacks
  · rw [hrun] at hasks
    change e.world.clock < e'.world.clock at hasks
    rw [hworld] at hasks
    exact Nat.lt_irrefl _ hasks
  · rw [hlacks] at hrun
    cases hrun

theorem run_retireStreams_ok {keys : List String} : ∀ {next next' : Checkpoint} {e e' : Engine},
    run (retireStreams cfg next keys) e = (.ok next', e') →
      e' = e.inWorld e'.world ∧ ∃ archive,
        next' = { next with
          active.session.mediaArchive := archive
          active.media := keys.foldl Std.ExtTreeMap.erase next.active.media } ∧
        (keys = [] → archive = next.active.session.mediaArchive) ∧
        (keys ≠ [] → cfg.resources = true) := by
  induction keys with
  | nil =>
    intro next next' e e' h
    cases h
    exact ⟨rfl, next.active.session.mediaArchive, rfl, fun _ => rfl, fun h => absurd rfl h⟩
  | cons key keys ih =>
    intro next next' e e' h
    simp only [retireStreams, archiveMedia, bind_assoc, pure_bind] at h
    obtain ⟨hresources, h⟩ := run_require_bind_ok h
    obtain ⟨written, e₁, hask, h⟩ := run_bind_ok h
    cases hask
    obtain ⟨reference, -, h⟩ := run_lift_bind_ok h
    obtain ⟨hsame, archive, rfl, -⟩ := ih h
    exact ⟨hsame, archive, rfl, fun hnil => absurd hnil (List.cons_ne_nil key keys),
      fun _ => hresources⟩

/-- The media an execution holds when a segment of the stream `key` has been recorded. -/
structure Engine.Recorded (cfg : Config) (key : String) (segment : SealedMedia) (last : SealedChunk)
    (e e' : Engine) : Prop where
  epoch : e'.current.active.session.outputEpoch = e.current.active.session.outputEpoch
  others : ∀ k, k ≠ key → e'.cursorAt k = e.cursorAt k
  cursor : ∀ cursor, e'.cursorAt key = some cursor → last.endOfStream = false ∧
    cursor.sequence = last.sequence
  ended : ∀ k ∈ e'.knownEnded, k ∈ e.knownEnded ∨ k = key ∧ last.endOfStream = true
  unread : e'.Unread cfg

private theorem run_recordSegment_ok {key : String} {segment : SealedMedia} {last : SealedChunk}
    {reference : ResourceRef} {u : Unit}
    (h : run (recordSegment cfg key segment last reference) e = (.ok u, e')) :
    e'.current.active.session.outputEpoch = e.current.active.session.outputEpoch ∧
      (e'.current.active.media = if last.endOfStream then e.current.active.media.erase key
        else e.current.active.media.insert key ⟨last.sequence, segment.epoch, reference⟩) ∧
      (e'.endedStreams = if last.endOfStream then e.endedStreams.map ([key] ++ ·)
        else e.endedStreams) ∧
      (e'.current.active.session.mediaArchive = e.current.active.session.mediaArchive ∨
        cfg.resources = true) := by
  obtain ⟨_, _, hread, h⟩ := run_bind_ok h
  cases hread
  obtain ⟨next, e₁, hstage, h⟩ := run_bind_ok h
  obtain ⟨_, e₂, hcommit, h⟩ := run_bind_ok h
  obtain ⟨rfl, -⟩ := run_commit_ok hcommit
  unfold stageCursor at hstage
  unfold Program.when at h
  by_cases hend : last.endOfStream = true
  · rw [if_pos hend] at hstage h
    obtain ⟨hsame, archive, rfl, -, hresources⟩ := run_retireStreams_ok hstage
    cases h
    rw [if_pos hend, if_pos hend]
    refine ⟨rfl, rfl, ?_, .inr (hresources (List.cons_ne_nil key []))⟩
    rw [hsame]
    rfl
  · rw [if_neg hend] at hstage h
    cases hstage
    cases h
    rw [if_neg hend, if_neg hend]
    exact ⟨rfl, rfl, rfl, .inl rfl⟩

private theorem cursorAt_erase {key k : String} :
    (e.current.active.media.erase key)[k]? = if k = key then none else e.cursorAt k := by
  unfold Engine.cursorAt
  rw [Std.ExtTreeMap.getElem?_erase]
  by_cases hk : k = key
  · subst hk
    simp
  · have hne : compare key k ≠ .eq := fun heq => hk (Std.LawfulEqCmp.eq_of_compare heq).symm
    rw [if_neg hne, if_neg hk]

private theorem cursorAt_insert {key k : String} {cursor : StreamCursor} :
    (e.current.active.media.insert key cursor)[k]? =
      if k = key then some cursor else e.cursorAt k := by
  unfold Engine.cursorAt
  rw [Std.ExtTreeMap.getElem?_insert]
  by_cases hk : k = key
  · subst hk
    simp
  · have hne : compare key k ≠ .eq := fun heq => hk (Std.LawfulEqCmp.eq_of_compare heq).symm
    rw [if_neg hne, if_neg hk]

private theorem run_when_ensureNewStream_ok {key : String} {u : Unit} (hunread : e.Unread cfg)
    (h : run (Program.when (e.cursorAt key = none) (ensureNewStream cfg key)) e = (.ok u, e')) :
    ∃ ended, e' = { e with endedStreams := ended } ∧ ended.getD [] = e.knownEnded ∧
      (ended = none → e.endedStreams = none ∧ cfg.resources = false) := by
  unfold Program.when at h
  by_cases hcursor : e.cursorAt key = none
  · rw [if_pos hcursor] at h
    unfold ensureNewStream Program.when at h
    by_cases hresources : cfg.resources = true
    · rw [if_pos hresources] at h
      obtain ⟨ended, e₂, hload, h⟩ := run_bind_ok h
      rw [run_loadEnded hunread] at hload
      cases hload
      rw [run_require] at h
      obtain rfl := congrArg Prod.snd h
      exact ⟨_, rfl, rfl, fun hnone => by cases hnone⟩
    · rw [if_neg hresources] at h
      cases h
      exact ⟨e.endedStreams, rfl, rfl, fun hnone => ⟨hnone, by simpa using hresources⟩⟩
  · rw [if_neg hcursor] at h
    cases h
    refine ⟨e.endedStreams, rfl, rfl, fun hnone => ⟨hnone, ?_⟩⟩
    by_contra hresources
    exact hcursor (hunread.cursors hnone (by simpa using hresources) key)

private theorem run_sealCursor_ok {direction : String} {segment : SealedMedia}
    {reference : ResourceRef}
    {u : Unit} (hunread : e.Unread cfg)
    (h : run (sealCursor cfg direction segment reference) e = (.ok u, e')) :
    ∃ last, segment.chunks.getLast? = some last ∧
      e.Recorded cfg (mediaKey direction segment.streamId segment.epoch) segment last e' := by
  obtain ⟨_, _, hread, h⟩ := run_bind_ok h
  cases hread
  cases hlast : segment.chunks.getLast? with
  | none =>
    simp only [hlast] at h
    cases h
  | some last =>
    simp only [hlast] at h
    obtain ⟨-, h⟩ := run_require_bind_ok h
    obtain ⟨_, e₁, hnew, h⟩ := run_bind_ok h
    obtain ⟨ended, rfl, hended, hnone⟩ := run_when_ensureNewStream_ok hunread hnew
    generalize mediaKey direction segment.streamId segment.epoch = key at h ⊢
    obtain ⟨hepoch, hmedia, hstreams, harchive⟩ :=
      run_recordSegment_ok (e := { e with endedStreams := ended }) h
    have hunasked : e'.endedStreams = none → e.endedStreams = none ∧ cfg.resources = false := by
      intro hnone'
      rw [hstreams] at hnone'
      split at hnone'
      · exact hnone (Option.map_eq_none_iff.1 hnone')
      · exact hnone hnone'
    refine ⟨last, rfl, hepoch, ?_, ?_, ?_, ?_, ?_⟩
    · intro k hk
      change e'.current.active.media[k]? = e.cursorAt k
      rw [hmedia]
      split
      · exact cursorAt_erase.trans (if_neg hk)
      · exact cursorAt_insert.trans (if_neg hk)
    · intro cursor hcursor
      change e'.current.active.media[key]? = some cursor at hcursor
      rw [hmedia] at hcursor
      split at hcursor
      · rw [cursorAt_erase.trans (if_pos rfl)] at hcursor
        cases hcursor
      · rename_i hend
        rw [cursorAt_insert.trans (if_pos rfl)] at hcursor
        cases hcursor
        exact ⟨by simpa using hend, rfl⟩
    · intro k hk
      unfold Engine.knownEnded at hk
      rw [hstreams] at hk
      rw [← hended]
      split at hk
      · rename_i hend
        cases ended with
        | none => cases hk
        | some ended =>
          rcases List.mem_cons.1 hk with rfl | hk
          · exact .inr ⟨rfl, hend⟩
          · exact .inl hk
      · exact .inl hk
    · intro hnone'
      obtain ⟨hnone', hresources⟩ := hunasked hnone'
      rcases harchive with hsame | hresources'
      · rw [hsame]
        exact hunread.archive hnone'
      · rw [hresources] at hresources'
        cases hresources'
    · intro hnone' hresources'
      rw [(hunasked hnone').2] at hresources'
      cases hresources'

/-- The media an execution holds after an interruption: its output streams have ended. -/
structure Engine.Interrupted (cfg : Config) (e e' : Engine) : Prop where
  epoch : e'.current.active.session.outputEpoch = e.current.active.session.outputEpoch + 1
  cursor : ∀ k cursor, e'.cursorAt k = some cursor →
    e.cursorAt k = some cursor ∧ "output:".isPrefixOf k = false
  ended : ∀ k ∈ e'.knownEnded, k ∈ e.knownEnded ∨ ∃ cursor, e.cursorAt k = some cursor
  unread : e'.Unread cfg

private theorem run_interruptOutput_interrupted {id : String} (hunread : e.Unread cfg)
    (h : run (interruptOutput cfg) e = (.ok id, e')) : e.Interrupted cfg e' := by
  obtain ⟨_, _, hread, h⟩ := run_bind_ok h
  cases hread
  obtain ⟨-, h⟩ := run_require_bind_ok h
  cases hgeneration : e.current.active.session.generationId with
  | none =>
    simp only [hgeneration] at h
    cases h
  | some generationId =>
    simp only [hgeneration] at h
    obtain ⟨-, h⟩ := run_require_bind_ok h
    obtain ⟨_, _, hread, h⟩ := run_bind_ok h
    cases hread
    obtain ⟨-, h⟩ := run_require_bind_ok h
    obtain ⟨commandId, e₁, hid, h⟩ := run_bind_ok h
    cases hid
    obtain ⟨next, e₂, hretire, h⟩ := run_bind_ok h
    obtain ⟨hsame, archive, rfl, hkept, hresources⟩ := run_retireStreams_ok hretire
    obtain ⟨_, e₃, hcommit, h⟩ := run_bind_ok h
    obtain ⟨rfl, -⟩ := run_commit_ok hcommit
    obtain ⟨_, e₄, hend, h⟩ := run_bind_ok h
    cases hend
    obtain ⟨_, e₅, hclose, h⟩ := run_bind_ok h
    cases hclose
    cases h
    generalize hretired : retiredStreams (.interruptOutput generationId
      (e.current.active.session.outputEpoch + 1)) e.current = retired at hsame hkept hresources ⊢
    have hmem : ∀ k, k ∈ retired ↔ (∃ cursor, e.cursorAt k = some cursor) ∧
        "output:".isPrefixOf k = true := by
      intro k
      rw [← hretired]
      unfold retiredStreams Engine.cursorAt
      rw [List.mem_filter, List.mem_map]
      refine and_congr_left fun _ => ?_
      constructor
      · rintro ⟨⟨key, cursor⟩, hentry, rfl⟩
        exact ⟨cursor, Std.ExtTreeMap.mem_toList_iff_getElem?_eq_some.1 hentry⟩
      · rintro ⟨cursor, hcursor⟩
        exact ⟨(k, cursor), Std.ExtTreeMap.mem_toList_iff_getElem?_eq_some.2 hcursor, rfl⟩
    have hcursors : ∀ k, (retired.foldl Std.ExtTreeMap.erase e.current.active.media)[k]? =
        if k ∈ retired then none else e.cursorAt k := fun k =>
      Zhir.Library.TreeMap.getElem?_erase_all retired e.current.active.media k
    have hstreams : e₂.endedStreams = e.endedStreams := by
      rw [hsame]
      rfl
    constructor
    case epoch => rfl
    case cursor =>
      intro k cursor hcursor
      have hcursor := (hcursors k).symm.trans hcursor
      split at hcursor
      · cases hcursor
      · rename_i hk
        refine ⟨hcursor, ?_⟩
        by_contra hprefix
        exact hk ((hmem k).2 ⟨⟨cursor, hcursor⟩, by simpa using hprefix⟩)
    case ended =>
      intro k hk
      change k ∈ (e₂.endedStreams.map (retired ++ ·)).getD [] at hk
      rw [hstreams] at hk
      unfold Engine.knownEnded
      cases hended : e.endedStreams with
      | none =>
        rw [hended] at hk
        cases hk
      | some ended =>
        rw [hended] at hk
        rcases List.mem_append.1 hk with hk | hk
        · exact .inr ((hmem k).1 hk).1
        · exact .inl hk
    case unread =>
      have hunasked : e₂.endedStreams.map (retired ++ ·) = none → e.endedStreams = none := by
        rw [hstreams]
        exact Option.map_eq_none_iff.1
      constructor
      · intro hnone
        have hnone := hunasked hnone
        change archive = none
        have hnil : retired = [] := by
          by_contra hsome
          obtain ⟨k, hk⟩ := List.exists_mem_of_ne_nil retired hsome
          obtain ⟨⟨cursor, hcursor⟩, -⟩ := (hmem k).1 hk
          rw [hunread.cursors hnone (hresources hsome) k] at hcursor
          cases hcursor
        exact (hkept hnil).trans (hunread.archive hnone)
      · intro hnone hresources k
        refine (hcursors k).trans ?_
        split
        · rfl
        · exact hunread.cursors (hunasked hnone) hresources k

structure Engine.SameMedia (e e' : Engine) : Prop where
  media : e'.current.active.media = e.current.active.media
  archive : e'.current.active.session.mediaArchive = e.current.active.session.mediaArchive
  epoch : e'.current.active.session.outputEpoch = e.current.active.session.outputEpoch
  ended : e'.endedStreams = e.endedStreams

/-- No media has been sealed yet, as when a turn begins. -/
structure Engine.Silent (e : Engine) : Prop where
  media : ∀ key, e.cursorAt key = none
  archive : e.current.active.session.mediaArchive = none
  ended : e.knownEnded = []

theorem silent_boot (world : World) (checkpointId sessionId : String) (history : History)
    (context : RunContext) (options : RunOptions) :
    (Engine.boot world (initial checkpointId sessionId (.start history context options)).1).Silent
    where
  media _ := Std.ExtTreeMap.getElem?_empty
  archive := rfl
  ended := rfl

/-- The execution beside the chunks of a session that are still on their way to it. -/
inductive Hears (cfg : Config) : Engine × List MediaChunk → Engine × List MediaChunk → Prop
  /-- Ports between them drop the chunks of epochs they have been told to forget. -/
  | drop {e : Engine} {chunk : MediaChunk} {rest : List MediaChunk} :
      Hears cfg (e, chunk :: rest) (e, rest)
  /-- A sealed segment of what comes next is handled. -/
  | segment {e e' : Engine} {first : MediaChunk} {more rest : List MediaChunk}
      {resource reference : ResourceRef} {previous : Option ResourceRef}
      (hjoined : Joined (first :: more))
      (hrun : run (mediaReady cfg (sealMedia first more resource previous) reference) e =
        (.ok (), e')) : Hears cfg (e, first :: more ++ rest) (e', rest)
  | interrupt {e e' : Engine} {rest : List MediaChunk} {id : String}
      (hrun : run (interruptOutput cfg) e = (.ok id, e')) : Hears cfg (e, rest) (e', rest)
  /-- A segment of host media is handled. -/
  | input {e e' : Engine} {rest : List MediaChunk} {segment : SealedMedia}
      {reference : ResourceRef} (hrun : run (inputReady cfg segment reference) e = (.ok (), e')) :
      Hears cfg (e, rest) (e', rest)
  | other {e e' : Engine} {rest : List MediaChunk} (hsame : e.SameMedia e') :
      Hears cfg (e, rest) (e', rest)

/-- What the execution holds after the chunks it has been offered. -/
structure Engine.Holds (cfg : Config) (offered : List MediaChunk) (e : Engine) : Prop where
  cursor : ∀ key cursor, e.cursorAt key = some cursor →
    (∃ a ∈ offered, outputKey a = key ∧ a.sequence = cursor.sequence ∧
      a.epoch = e.current.active.session.outputEpoch) ∨ ∃ s n, key = mediaKey "input" s n
  ended : ∀ key ∈ e.knownEnded, (∃ a ∈ offered, outputKey a = key ∧ (a.endOfStream = true ∨
    a.epoch < e.current.active.session.outputEpoch)) ∨ ∃ s n, key = mediaKey "input" s n
  unread : e.Unread cfg

variable {offered : List MediaChunk}

theorem Engine.Silent.holds (h : e.Silent) : e.Holds cfg [] where
  cursor key cursor hcursor := by
    rw [h.media key] at hcursor
    cases hcursor
  ended key hkey := by
    rw [h.ended] at hkey
    cases hkey
  unread := ⟨fun _ => h.archive, fun _ _ => h.media⟩

theorem Engine.Holds.passes (h : e.Holds cfg offered) {first : MediaChunk}
    {more : List MediaChunk} {resource reference : ResourceRef} {previous : Option ResourceRef}
    (hjoined : Joined (first :: more)) (hconforms : ConformingMedia (offered ++ first :: more))
    (hepoch : first.epoch = e.current.active.session.outputEpoch) :
    Sealable cfg "output" (sealMedia first more resource previous) reference e := by
  obtain ⟨last, hlast⟩ : ∃ last, (first :: more).getLast? = some last :=
    ⟨_, List.getLast?_eq_some_getLast (List.cons_ne_nil first more)⟩
  obtain ⟨node, hnode, -, -⟩ := getLast?_sealChunks (first :: more) 0 hlast
  have hafter : ∀ a ∈ offered, outputKey a = outputKey first →
      a.sequence < first.sequence ∧ a.endOfStream = false := by
    intro a ha hkey
    exact hconforms.after ha List.mem_cons_self (outputKey_eq hkey)
  refine sealCursor_passes h.unread hnode ?_ fun _ hknown => ?_
  · refine increasing_of_pairwise (fun p hp c hc => ?_) ?_
    · obtain ⟨cursor, hcursor, rfl⟩ := Option.map_eq_some_iff.1 hp
      cases hc
      rcases h.cursor _ cursor hcursor with ⟨a, ha, hkey, hsequence, -⟩ | ⟨s, n, hkey⟩
      · rw [← hsequence]
        exact (hafter a ha hkey).1
      · exact absurd hkey mediaKey_output_ne_input
    · change ((sealChunks 0 (first :: more)).map SealedChunk.sequence).Pairwise (· < ·)
      rw [map_sequence_sealChunks]
      exact hjoined.pairwise (hconforms.sublist (List.sublist_append_right _ _))
  · rcases h.ended _ hknown with ⟨a, ha, hkey, hended | hpast⟩ | ⟨s, n, hkey⟩
    · rw [(hafter a ha hkey).2] at hended
      cases hended
    · have hsame := congrArg Prod.snd (outputKey_eq hkey)
      change a.epoch = first.epoch at hsame
      omega
    · exact mediaKey_output_ne_input hkey

theorem Engine.Holds.mono {offered' : List MediaChunk} (h : e.Holds cfg offered)
    (hsub : offered ⊆ offered') : e.Holds cfg offered' where
  cursor key cursor hcursor := by
    rcases h.cursor key cursor hcursor with ⟨a, ha, hkey⟩ | hinput
    · exact .inl ⟨a, hsub ha, hkey⟩
    · exact .inr hinput
  ended key hkey := by
    rcases h.ended key hkey with ⟨a, ha, hended⟩ | hinput
    · exact .inl ⟨a, hsub ha, hended⟩
    · exact .inr hinput
  unread := h.unread

theorem Engine.Holds.same (h : e.Holds cfg offered) (hsame : e.SameMedia e') :
    e'.Holds cfg offered := by
  have hcursor : ∀ key, e'.cursorAt key = e.cursorAt key := by
    intro key
    unfold Engine.cursorAt
    rw [hsame.media]
  constructor
  · intro key cursor hkey
    rw [hcursor] at hkey
    rw [hsame.epoch]
    exact h.cursor key cursor hkey
  · intro key hkey
    unfold Engine.knownEnded at hkey
    rw [hsame.ended] at hkey
    rw [hsame.epoch]
    exact h.ended key hkey
  · constructor
    · intro hnone
      rw [hsame.ended] at hnone
      rw [hsame.archive]
      exact h.unread.archive hnone
    · intro hnone hresources key
      rw [hsame.ended] at hnone
      rw [hcursor]
      exact h.unread.cursors hnone hresources key

theorem Engine.Holds.recorded {key : String} {segment : SealedMedia} {last : SealedChunk}
    (h : e.Holds cfg offered) (hrecorded : e.Recorded cfg key segment last e')
    (hkey : (∃ a ∈ offered, outputKey a = key ∧ a.sequence = last.sequence ∧
      a.endOfStream = last.endOfStream ∧ a.epoch = e.current.active.session.outputEpoch) ∨
      ∃ s n, key = mediaKey "input" s n) : e'.Holds cfg offered := by
  constructor
  · intro k cursor hcursor
    rw [hrecorded.epoch]
    by_cases hk : k = key
    · subst hk
      obtain ⟨-, hsequence⟩ := hrecorded.cursor cursor hcursor
      rcases hkey with ⟨a, ha, hkey, hsame, -, hepoch⟩ | hinput
      · exact .inl ⟨a, ha, hkey, hsame.trans hsequence.symm, hepoch⟩
      · exact .inr hinput
    · rw [hrecorded.others k hk] at hcursor
      exact h.cursor k cursor hcursor
  · intro k hk
    rw [hrecorded.epoch]
    rcases hrecorded.ended k hk with hk | ⟨rfl, hend⟩
    · exact h.ended k hk
    · rcases hkey with ⟨a, ha, hkey, -, hsame, -⟩ | hinput
      · exact .inl ⟨a, ha, hkey, .inl (hsame.trans hend)⟩
      · exact .inr hinput
  · exact hrecorded.unread

theorem Engine.Holds.interrupted (h : e.Holds cfg offered) (hinterrupted : e.Interrupted cfg e') :
    e'.Holds cfg offered := by
  constructor
  · intro key cursor hcursor
    obtain ⟨hbefore, hprefix⟩ := hinterrupted.cursor key cursor hcursor
    rcases h.cursor key cursor hbefore with ⟨a, -, rfl, -⟩ | hinput
    · unfold outputKey at hprefix
      rw [isPrefixOf_mediaKey] at hprefix
      cases hprefix
    · exact .inr hinput
  · intro key hkey
    rw [hinterrupted.epoch]
    rcases hinterrupted.ended key hkey with hkey | ⟨cursor, hcursor⟩
    · rcases h.ended key hkey with ⟨a, ha, hkey, hended | hpast⟩ | hinput
      · exact .inl ⟨a, ha, hkey, .inl hended⟩
      · exact .inl ⟨a, ha, hkey, .inr (Nat.lt_succ_of_lt hpast)⟩
      · exact .inr hinput
    · rcases h.cursor key cursor hcursor with ⟨a, ha, hkey, -, hepoch⟩ | hinput
      · exact .inl ⟨a, ha, hkey, .inr (by omega)⟩
      · exact .inr hinput
  · exact hinterrupted.unread

theorem Engine.Holds.decided {input valid : Bool} {segment : SealedMedia}
    {reference : ResourceRef} {u : Unit} (h : e.Holds cfg offered)
    (hrun : run (decideMedia cfg input valid segment reference) e = (.ok u, e'))
    (hkey : valid = true → ∀ last, segment.chunks.getLast? = some last →
      (∃ a ∈ offered, outputKey a = mediaKey (if input then "input" else "output")
          segment.streamId segment.epoch ∧ a.sequence = last.sequence ∧
        a.endOfStream = last.endOfStream ∧ a.epoch = e.current.active.session.outputEpoch) ∨
      ∃ s n, mediaKey (if input then "input" else "output") segment.streamId segment.epoch =
        mediaKey "input" s n) : e'.Holds cfg offered := by
  obtain ⟨_, e₁, hseal, hrun⟩ := run_bind_ok hrun
  cases hrun
  refine Engine.Holds.same (e := e₁) ?_ ⟨rfl, rfl, rfl, rfl⟩
  unfold Program.when at hseal
  by_cases hvalid : valid = true
  · rw [if_pos hvalid] at hseal
    obtain ⟨last, hlast, hrecorded⟩ := run_sealCursor_ok h.unread hseal
    exact h.recorded hrecorded (hkey hvalid last hlast)
  · rw [if_neg hvalid] at hseal
    cases hseal
    exact h

theorem Engine.Holds.step {rest rest' : List MediaChunk} (h : e.Holds cfg offered)
    (hstep : Hears cfg (e, rest) (e', rest')) :
    ∃ taken, rest = taken ++ rest' ∧ e'.Holds cfg (offered ++ taken) := by
  cases hstep with
  | @drop _ chunk _ => exact ⟨[chunk], rfl, h.mono (List.subset_append_left _ _)⟩
  | @segment _ _ first more _ resource reference previous hjoined hrun =>
    refine ⟨first :: more, rfl, ?_⟩
    obtain ⟨_, _, hread, hrun⟩ := run_bind_ok hrun
    cases hread
    refine (h.mono (List.subset_append_left _ _)).decided hrun fun hvalid node hnode => .inl ?_
    obtain ⟨last, hlast⟩ : ∃ last, (first :: more).getLast? = some last :=
      ⟨_, List.getLast?_eq_some_getLast (List.cons_ne_nil first more)⟩
    obtain ⟨node', hnode', hsequence, hend⟩ := getLast?_sealChunks (first :: more) 0 hlast
    have hsame : node = node' := Option.some.inj (hnode.symm.trans hnode')
    obtain ⟨hstream, hepoch⟩ := hjoined.same last (List.mem_of_getLast? hlast)
    rw [Bool.and_eq_true, decide_eq_true_eq] at hvalid
    refine ⟨last, List.mem_append_right _ (List.mem_of_getLast? hlast), ?_, ?_, ?_, ?_⟩
    · unfold outputKey
      rw [hstream, hepoch]
      rfl
    · rw [hsame, hsequence]
    · rw [hsame, hend]
    · exact hepoch.trans hvalid.1
  | interrupt hrun =>
    refine ⟨[], rfl, ?_⟩
    rw [List.append_nil]
    exact h.interrupted (run_interruptOutput_interrupted h.unread hrun)
  | @input _ _ _ segment _ hrun =>
    refine ⟨[], rfl, ?_⟩
    rw [List.append_nil]
    obtain ⟨_, _, hread, hrun⟩ := run_bind_ok hrun
    cases hread
    exact h.decided hrun fun _ _ _ => .inr ⟨segment.streamId, segment.epoch, rfl⟩
  | other hsame =>
    refine ⟨[], rfl, ?_⟩
    rw [List.append_nil]
    exact h.same hsame

theorem Engine.Holds.run {x y : Engine × List MediaChunk} (h : x.1.Holds cfg offered)
    (hsteps : ReflTransGen (Hears cfg) x y) :
    ∃ taken, x.2 = taken ++ y.2 ∧ y.1.Holds cfg (offered ++ taken) := by
  induction hsteps with
  | refl => exact ⟨[], rfl, by rwa [List.append_nil]⟩
  | tail hsteps hstep ih =>
    obtain ⟨taken, hrest, hholds⟩ := ih
    obtain ⟨more, hmore, hholds⟩ := hholds.step hstep
    refine ⟨taken ++ more, ?_, ?_⟩
    · rw [hrest, hmore, List.append_assoc]
    · rwa [← List.append_assoc]

/-- A conforming source is never rejected: whatever segments its chunks are sealed in, and
whenever the host interrupts, the next segment of the current epoch passes. -/
theorem conforming_passes {chunks rest : List MediaChunk} {first : MediaChunk}
    {more : List MediaChunk} {resource reference : ResourceRef} {previous : Option ResourceRef}
    (hsilent : e.Silent) (hconforms : ConformingMedia chunks)
    (hsteps : ReflTransGen (Hears cfg) (e, chunks) (e', first :: more ++ rest))
    (hjoined : Joined (first :: more))
    (hepoch : first.epoch = e'.current.active.session.outputEpoch) :
    Sealable cfg "output" (sealMedia first more resource previous) reference e' := by
  obtain ⟨taken, hall, hholds⟩ := Engine.Holds.run hsilent.holds hsteps
  rw [List.nil_append] at hholds
  change chunks = taken ++ (first :: more ++ rest) at hall
  rw [hall, ← List.append_assoc] at hconforms
  exact hholds.passes hjoined (hconforms.sublist (List.sublist_append_left _ _)) hepoch

end Zhir.Kernel
