import Zhir.Core.Envelope
import Zhir.Core.Pairing

/-!
Histories that grew by appends of any size, against the one list of all their entries.
-/

set_option autoImplicit false
set_option relaxedAutoImplicit false

namespace Zhir.Core

open Zhir.Library (Chunk)

namespace Order

private theorem lookup_ids {entries : List HistoryEntry} (h : (index entries).error = none)
    (id : EntryId) :
    (index entries).ids.lookup id = entries.findIdx? fun entry => entry.id = id := by
  induction entries using List.reverseRecOn with
  | nil => rfl
  | append_singleton entries entry ih =>
    rw [index_append_single] at h ⊢
    have herror := append_error h
    have htracks := (index_tracks entries).2 herror
    have hupdate : (index entries).append entry entries.length =
        (index entries).update entry entries.length := by
      simp [append, herror]
    rw [hupdate] at h ⊢
    rw [update_ids h, List.findIdx?_append, List.lookup_cons, ih herror]
    have hfresh := ((update_none_iff htracks herror).mp h).fresh
    by_cases hid : entry.id = id
    · have hbefore : entries.findIdx? (fun entry => entry.id = id) = none := by
        rw [List.findIdx?_eq_none_iff]
        intro other hother
        have hne : other.id ≠ id := fun heq =>
          hfresh (by rw [hid, ← heq]; exact List.mem_map_of_mem hother)
        exact decide_eq_false hne
      rw [hbefore, List.findIdx?_singleton, if_pos (decide_eq_true hid), hid, beq_self_eq_true]
      simp
    · have hother : (id == entry.id) = false := beq_false_of_ne (Ne.symm hid)
      rw [List.findIdx?_singleton, if_neg (by simpa using hid), hother]
      simp

end Order

theorem History.validate_ok_iff (h : History) :
    h.validate = .ok () ↔ h.entries ≠ [] ∧ (Order.index h.entries).error = none := by
  unfold History.validate History.isEmpty
  rw [h.indexed]
  cases hentries : h.entries with
  | nil => simp
  | cons entry rest =>
    simp only [List.isEmpty_cons, Bool.false_eq_true, if_false]
    cases herror : (Order.index (entry :: rest)).error <;> simp

private theorem History.byId_of_ordered {h : History} (hordered : h.order.error = none)
    (id : EntryId) :
    h.byId id = h.entries.find? fun entry => entry.id = id := by
  unfold History.byId
  rw [h.indexed] at hordered ⊢
  rw [Order.lookup_ids hordered, List.find?_eq_bind_findIdx?_getElem?]
  rfl

private theorem History.byId_of_valid {h : History} (hvalid : h.validate = .ok ()) (id : EntryId) :
    h.byId id = h.entries.find? fun entry => entry.id = id := by
  refine History.byId_of_ordered ?_ id
  rw [h.indexed]
  exact ((History.validate_ok_iff h).mp hvalid).2

theorem History.byId_get {h : History} (hordered : h.order.error = none) {index : Nat}
    {entry : HistoryEntry} (hget : h.get index = some entry) : h.byId entry.id = some entry := by
  rw [History.byId_of_ordered hordered]
  rw [h.indexed] at hordered
  have hunique := ((Order.index_tracks h.entries).1.mp hordered).unique
  have hmem : entry ∈ h.entries := List.mem_of_getElem? hget
  obtain ⟨other, hother⟩ : ∃ other, h.entries.find? (fun x => x.id = entry.id) = some other := by
    rw [← Option.isSome_iff_exists, List.find?_isSome]
    exact ⟨entry, hmem, decide_eq_true rfl⟩
  have hid : other.id = entry.id := by simpa using List.find?_some hother
  rw [hother, List.inj_on_of_nodup_map hunique (List.mem_of_find?_eq_some hother) hmem hid]

namespace ChunkedHistory

variable {δ : Type} (s : DigestScheme δ)

def appendAll : List (List HistoryEntry) → ChunkedHistory δ → Result (ChunkedHistory δ)
  | [], h => .ok h
  | messages :: rest, h => do
    let h ← append s messages h
    appendAll rest h

variable {s} {h h' : ChunkedHistory δ} {history : History}

private theorem Represents.appendAll {portions : List (List HistoryEntry)} :
    ∀ {h h' : ChunkedHistory δ} {history : History}, Represents s h history →
      ChunkedHistory.appendAll s portions h = .ok h' →
        ∃ history', history'.entries = history.entries ++ portions.flatten ∧
          Represents s h' history' := by
  induction portions with
  | nil =>
    intro h h' history hr happend
    cases happend
    exact ⟨history, (List.append_nil _).symm, hr⟩
  | cons messages rest ih =>
    intro h h' history hr happend
    obtain ⟨next, hnext, happend⟩ := Result.bind_ok happend
    obtain ⟨middle, hplain, hmiddle⟩ := hr.append hnext
    obtain ⟨history', hentries, hr'⟩ := ih hmiddle happend
    refine ⟨history', ?_, hr'⟩
    rw [hentries, (append_entries hplain).1, List.append_assoc, List.flatten_cons]

private theorem represents_appendAll {portions : List (List HistoryEntry)}
    (happend : appendAll s portions (empty s) = .ok h) :
    ∃ history : History, history.entries = portions.flatten ∧ Represents s h history :=
  represents_empty.appendAll happend

private theorem appendAll_of_valid {portions : List (List HistoryEntry)} :
    ∀ {h : ChunkedHistory δ}, (∀ entry ∈ portions.flatten, entry.validate = .ok ()) →
      ∃ h', appendAll s portions h = .ok h' := by
  induction portions with
  | nil => exact fun _ => ⟨_, rfl⟩
  | cons messages rest ih =>
    intro h hvalid
    have hmessages := @append_of_valid _ s messages
      (fun entry hentry => hvalid entry (List.mem_append_left _ hentry)) h
    obtain ⟨h', hrest⟩ := @ih (messages.foldl (fun h message => h.push s message) h)
      fun entry hentry => hvalid entry (List.mem_append_right _ hentry)
    exact ⟨h', Result.bind_of_ok hmessages hrest⟩

/-- Appended in any portions, valid entries pass exactly when they are paired as one list, and
what is pending then is what the list leaves open. -/
theorem validate_iff_paired (s : DigestScheme δ) (portions : List (List HistoryEntry))
    (hsome : portions.flatten ≠ [])
    (hvalid : ∀ entry ∈ portions.flatten, entry.validate = .ok ()) :
    ∃ h, appendAll s portions (empty s) = .ok h ∧
      (h.validate = .ok () ↔ Paired portions.flatten) ∧
      (h.validate = .ok () → h.pendingCalls.Perm (openCalls portions.flatten) ∧
        h.pendingDelegations.Perm (openDelegations portions.flatten)) := by
  obtain ⟨h, happend⟩ := @appendAll_of_valid _ s portions (empty s) hvalid
  obtain ⟨history, hentries, hr⟩ := represents_appendAll happend
  have htracks := Order.index_tracks portions.flatten
  have hok : h.validate = .ok () ↔ (Order.index portions.flatten).error = none := by
    rw [hr.validate, History.validate_ok_iff, hentries]
    exact and_iff_right hsome
  have horder : h.order = Order.index portions.flatten := by
    rw [hr.order, history.indexed, hentries]
  refine ⟨h, happend, hok.trans htracks.1, fun hpassed => ?_⟩
  have hkept := htracks.2 (hok.mp hpassed)
  unfold pendingCalls pendingDelegations
  rw [horder]
  exact ⟨hkept.calls, hkept.delegations⟩

/-- A call and its result, appended after an empty portion and one by one. -/
def sampleRequested : HistoryEntry :=
  ⟨.given "call", some ⟨"session", "item", none, "", ""⟩,
    .assistant [.runtimeToolCall ⟨"1", "look", .freeform "here"⟩] .null⟩

def sampleReturned : HistoryEntry :=
  ⟨.given "result", some ⟨"session", "item", none, "", "1"⟩,
    .runtimeTool "1" "look" (.cancelled "late")⟩

theorem returned_call_paired :
    ∃ h, appendAll sampleDigests [[sampleEntry 0 "go"], [], [sampleRequested, sampleReturned]]
        (empty sampleDigests) = .ok h ∧
      (h.validate = .ok () ↔ Paired [sampleEntry 0 "go", sampleRequested, sampleReturned]) ∧
      (h.validate = .ok () →
        h.pendingCalls.Perm (openCalls [sampleEntry 0 "go", sampleRequested, sampleReturned]) ∧
        h.pendingDelegations.Perm
          (openDelegations [sampleEntry 0 "go", sampleRequested, sampleReturned])) :=
  validate_iff_paired sampleDigests [[sampleEntry 0 "go"], [], [sampleRequested, sampleReturned]]
    (by simp) (by decide +kernel)

/-- Whatever the portions, the history reads as the list of all of them, and of two histories
one continues the other exactly when their lists do. -/
theorem appendAll_refines [DecidableEq δ] {portions : List (List HistoryEntry)}
    (happend : appendAll s portions (empty s) = .ok h) :
    h.len = portions.flatten.length ∧
    (∀ index, h.get index = portions.flatten[index]?) ∧
    h.iter = portions.flatten ∧
    h.iterBack = portions.flatten.reverse ∧
    h.last = portions.flatten.getLast? ∧
    (h.validate = .ok () → ∀ id, h.byId id = portions.flatten.find? fun entry => entry.id = id) ∧
    h.digest = s.digest portions.flatten ∧
    (s.CollisionFree → ∀ others other, appendAll s others (empty s) = .ok other →
      h.appendedSince s other =
        if others.flatten <+: portions.flatten then
          .ok (portions.flatten.drop others.flatten.length)
        else .error (.invalid "history prefix changed without rewrite")) := by
  obtain ⟨history, hentries, hr⟩ := represents_appendAll happend
  refine ⟨?_, fun index => ?_, ?_, ?_, ?_, fun hvalid id => ?_, ?_, ?_⟩
  · rw [hr.len, ← hentries]
    rfl
  · rw [hr.get, ← hentries]
    rfl
  · rw [← hentries]
    exact Chunk.iter_of_holds hr.head
  · rw [← hentries]
    exact Chunk.iterBack_of_holds hr.head
  · rw [← hentries]
    exact Chunk.last_of_holds hr.head
  · rw [hr.validate] at hvalid
    rw [hr.byId, History.byId_of_valid hvalid, hentries]
  · rw [hr.digest, hentries]
  · intro hfree others other hother
    obtain ⟨previous, hprevious, hp⟩ := represents_appendAll hother
    rw [hr.appendedSince hfree hp]
    unfold History.appendedSince History.len
    rw [hentries, hprevious]

/-- Two of three entries, appended in other portions, are a prefix. -/
theorem returned_call_since :
    ∃ h other,
      appendAll sampleDigests [[sampleEntry 0 "go"], [], [sampleRequested, sampleReturned]]
        (empty sampleDigests) = .ok h ∧
      appendAll sampleDigests [[sampleEntry 0 "go", sampleRequested]] (empty sampleDigests) =
        .ok other ∧
      h.appendedSince sampleDigests other = .ok [sampleReturned] := by
  refine ⟨_, _, rfl, rfl, ?_⟩
  obtain ⟨-, -, -, -, -, -, -, hsince⟩ := @appendAll_refines _ sampleDigests _ _
    [[sampleEntry 0 "go"], [], [sampleRequested, sampleReturned]] rfl
  rw [hsince sampleDigests_free [[sampleEntry 0 "go", sampleRequested]] _ rfl]
  decide +kernel

end ChunkedHistory

end Zhir.Core
