import Zhir.Core.Pairing
import Zhir.Core.Projecting
import Zhir.Library.Answers

/-!
Turns of a projected conversation and the results of their calls, when nothing else arrived
between them.
-/

set_option autoImplicit false
set_option relaxedAutoImplicit false

namespace Zhir.Core

open Zhir.Library.Grouping
open Zhir.Library.Answers (Ordered Undisturbed Part join exists_parts)

def Output.callId : Output → Option String
  | .runtimeToolCall call => some call.id
  | _ => none

def Message.callIds : Message → List String
  | .assistant output _ => output.filterMap Output.callId
  | _ => []

def Message.resultId : Message → Option String
  | .runtimeTool callId _ _ => some callId
  | _ => none

/-- The response with the call that an entry is the result of. -/
def HistoryEntry.answers (entry : HistoryEntry) : Option ResponseKey :=
  match entry.message, entry.origin with
  | .runtimeTool _ _ _, some origin => some origin.responseKey
  | _, _ => none

/-- Whatever arrives between an item of a response and a result of its calls is another such
result, or belongs to a response that has begun. -/
def Steady (entries : List HistoryEntry) : Prop :=
  ∀ before x between z after key, entries = before ++ x :: (between ++ z :: after) →
    x.response? = some key → z.answers = some key →
    ∀ earlier y later, between = earlier ++ y :: later →
      y.answers = some key ∨ ¬ Leads HistoryEntry.response? (before ++ x :: earlier) y

/-- A message that is no result, and behind it one result for each of its calls. -/
structure Answered (turn : Message × List Message) : Prop where
  head : turn.1.resultId = none
  results : (turn.2.map Message.resultId).Perm (turn.1.callIds.map some)

variable {entries : List HistoryEntry} {entry : HistoryEntry} {key : ResponseKey}

private theorem answers_some (h : entry.answers = some key) :
    ∃ callId name outcome origin, entry.message = .runtimeTool callId name outcome ∧
      entry.origin = some origin ∧ origin.responseKey = key := by
  unfold HistoryEntry.answers at h
  split at h
  · rename_i callId name outcome origin hmessage horigin
    cases h
    exact ⟨callId, name, outcome, origin, hmessage, horigin, rfl⟩
  · cases h

private theorem response?_of_answers (h : entry.answers = some key) : entry.response? = none := by
  obtain ⟨callId, name, outcome, origin, hmessage, horigin, -⟩ := answers_some h
  simp [HistoryEntry.response?, hmessage, horigin]

private theorem answers_of_response? (h : entry.response? = some key) : entry.answers = none := by
  cases hanswers : entry.answers with
  | none => rfl
  | some other =>
    rw [response?_of_answers hanswers] at h
    cases h

private theorem call_entry {c : CallRef × RuntimeToolCall} (h : c ∈ entry.calls) :
    entry.response? = some c.1.responseKey ∧ c.1.callId = c.2.id := by
  unfold HistoryEntry.calls at h
  split at h
  · rename_i output data origin hmessage horigin
    obtain ⟨item, -, hcall⟩ := List.mem_filterMap.mp h
    cases item with
    | runtimeToolCall call =>
      cases hcall
      refine ⟨?_, rfl⟩
      simp only [HistoryEntry.response?, hmessage, horigin]
      rfl
    | _ => cases hcall
  · cases h

private theorem mem_openCalls {c : CallRef × RuntimeToolCall} :
    c ∈ openCalls entries ↔ (∃ e ∈ entries, c ∈ e.calls) ∧ c.1 ∉ settledIn entries := by
  unfold openCalls
  rw [List.mem_filter, List.mem_flatMap]
  simp

theorem Paired.result (h : Paired entries) {before after : List HistoryEntry}
    (hsplit : entries = before ++ entry :: after) {callId name : String}
    {outcome : OperationOutcome} (hmessage : entry.message = .runtimeTool callId name outcome) :
    ∃ c ∈ openCalls before, entry.origin = some c.1 ∧ c.2.id = callId := by
  have hmatches := h.matched before entry after hsplit
  unfold HistoryEntry.Matches at hmatches
  rw [hmessage] at hmatches
  obtain ⟨origin, horigin, hcount⟩ := hmatches
  obtain ⟨c, hc, hsame⟩ := List.countP_pos_iff.mp (hcount ▸ Nat.one_pos)
  obtain ⟨hcOrigin, hcId, -⟩ := of_decide_eq_true hsame
  exact ⟨c, hc, by rw [hcOrigin, horigin], hcId⟩

def callsOf (key : ResponseKey) (entries : List HistoryEntry) : List CallRef :=
  ((entries.flatMap HistoryEntry.calls).filter fun c => c.1.responseKey = key).map Prod.fst

def resultsFor (key : ResponseKey) (entries : List HistoryEntry) : List CallRef :=
  (entries.filter fun e => e.answers = some key).filterMap HistoryEntry.origin

private theorem mem_callsOf {x : CallRef} : x ∈ callsOf key entries ↔
    x.responseKey = key ∧ ∃ e ∈ entries, ∃ call, (x, call) ∈ e.calls := by
  unfold callsOf
  constructor
  · intro h
    obtain ⟨⟨y, call⟩, hc, rfl⟩ := List.mem_map.mp h
    obtain ⟨hc, hkey⟩ := List.mem_filter.mp hc
    obtain ⟨e, he, hcall⟩ := List.mem_flatMap.mp hc
    exact ⟨of_decide_eq_true hkey, e, he, call, hcall⟩
  · rintro ⟨hkey, e, he, call, hcall⟩
    refine List.mem_map.mpr ⟨(x, call), List.mem_filter.mpr ⟨?_, decide_eq_true hkey⟩, rfl⟩
    exact List.mem_flatMap.mpr ⟨e, he, hcall⟩

private theorem mem_resultsFor {x : CallRef} : x ∈ resultsFor key entries ↔ x.responseKey = key ∧
    ∃ e ∈ entries, e.origin = some x ∧ ∃ callId name outcome,
      e.message = .runtimeTool callId name outcome := by
  unfold resultsFor
  rw [List.mem_filterMap]
  constructor
  · rintro ⟨e, he, horigin⟩
    obtain ⟨he, hanswers⟩ := List.mem_filter.mp he
    obtain ⟨callId, name, outcome, y, hmessage, hy, hkey⟩ :=
      answers_some (of_decide_eq_true hanswers)
    rw [horigin] at hy
    cases hy
    exact ⟨hkey, e, he, horigin, callId, name, outcome, hmessage⟩
  · rintro ⟨hkey, e, he, horigin, callId, name, outcome, hmessage⟩
    refine ⟨e, List.mem_filter.mpr ⟨he, ?_⟩, horigin⟩
    simp [HistoryEntry.answers, hmessage, horigin, hkey]

private theorem asCall_sublist (origin : CallRef) (output : List Output) :
    ((output.filterMap (Output.asCall origin)).map Prod.fst).Sublist
      (output.filterMap (Output.introduces origin)) := by
  induction output with
  | nil => exact .slnil
  | cons item rest ih =>
    cases item with
    | runtimeToolCall call => exact ih.cons_cons _
    | delegation request => exact ih.cons _
    | content content => exact ih
    | providerToolCall call => exact ih

private theorem calls_sublist (entry : HistoryEntry) :
    (entry.calls.map Prod.fst).Sublist entry.called := by
  obtain ⟨id, origin, message⟩ := entry
  cases message with
  | assistant output data =>
    cases origin with
    | none => exact .slnil
    | some origin => exact asCall_sublist origin output
  | _ => exact .slnil

private theorem calledIn_sublist (entries : List HistoryEntry) :
    ((entries.flatMap HistoryEntry.calls).map Prod.fst).Sublist (calledIn entries) := by
  induction entries with
  | nil => exact .slnil
  | cons e rest ih =>
    rw [List.flatMap_cons, List.map_append]
    exact (calls_sublist e).append ih

private theorem callsOf_nodup (h : Paired entries) (key : ResponseKey) :
    (callsOf key entries).Nodup :=
  ((calledIn_sublist entries).nodup h.distinct).sublist (List.filter_sublist.map Prod.fst)

theorem Paired.tracks (h : Paired entries) : (Order.index entries).Tracks entries :=
  (Order.index_tracks entries).2 ((Order.index_tracks entries).1.mpr h)

theorem Paired.init (h : Paired entries) {before after : List HistoryEntry}
    (hsplit : entries = before ++ after) : Paired before := by
  induction after using List.reverseRecOn generalizing entries with
  | nil =>
    rw [List.append_nil] at hsplit
    rwa [← hsplit]
  | append_singleton after last ih =>
    rw [← List.append_assoc] at hsplit
    rw [hsplit] at h
    exact ih (paired_snoc.mp h).1 rfl

private theorem settledIn_nodup (h : Paired entries) : (settledIn entries).Nodup := by
  rw [List.nodup_iff_count_le_one]
  intro x
  have hresults := h.tracks.agrees.results x
  have hcount : (settledIn entries).count x = resultsOf x entries := by
    unfold settledIn resultsOf
    rw [List.count_filterMap]
    refine List.countP_congr fun e _ => ?_
    simp
  rw [hcount, hresults]
  split
  · exact Nat.le_refl 1
  · exact Nat.zero_le 1

private theorem resultsFor_sublist (key : ResponseKey) (entries : List HistoryEntry) :
    (resultsFor key entries).Sublist (settledIn entries) := by
  unfold resultsFor settledIn
  induction entries with
  | nil => exact .slnil
  | cons e rest ih =>
    by_cases hanswers : e.answers = some key
    · obtain ⟨callId, name, outcome, origin, hmessage, horigin, -⟩ := answers_some hanswers
      have hresolved : e.resolved = some origin := by
        simp [HistoryEntry.resolved, hmessage, horigin]
      have hkept : (e :: rest).filter (fun e => e.answers = some key) =
          e :: rest.filter fun e => e.answers = some key :=
        List.filter_cons_of_pos (by simpa using hanswers)
      rw [hkept, List.filterMap_cons_some horigin, List.filterMap_cons_some hresolved]
      exact ih.cons_cons origin
    · rw [List.filter_cons_of_neg (by simpa using hanswers)]
      cases hresolved : e.resolved with
      | none => rwa [List.filterMap_cons_none hresolved]
      | some x =>
        rw [List.filterMap_cons_some hresolved]
        exact ih.cons x

theorem Paired.answered (h : Paired entries) {x : CallRef} {e : HistoryEntry} (he : e ∈ entries)
    {call : RuntimeToolCall} (hcall : (x, call) ∈ e.calls) {r : HistoryEntry} (hr : r ∈ entries)
    (hresolved : r.resolved = some x) :
    r.origin = some x ∧ ∃ callId name outcome, r.message = .runtimeTool callId name outcome := by
  unfold HistoryEntry.resolved at hresolved
  split at hresolved
  · rename_i callId name outcome hmessage
    exact ⟨hresolved, callId, name, outcome, hmessage⟩
  · rename_i id outcome hmessage
    exfalso
    obtain ⟨before, after, hsplit⟩ := List.append_of_mem hr
    have hmatches := h.matched before r after hsplit
    unfold HistoryEntry.Matches at hmatches
    rw [hmessage] at hmatches
    obtain ⟨origin, horigin, hcount⟩ := hmatches
    obtain ⟨d, hd, hsame⟩ := List.countP_pos_iff.mp (hcount ▸ Nat.one_pos)
    obtain ⟨hdOrigin, -⟩ := of_decide_eq_true hsame
    rw [hresolved] at horigin
    cases horigin
    subst hdOrigin
    have hbefore := (h.init hsplit).tracks
    have hpending : d ∈ (Order.index before).delegations := hbefore.delegations.symm.subset hd
    have hopen := (List.mem_filter.mp hd).2
    have hunsettled : d ∉ settledIn before := of_decide_eq_true hopen
    obtain ⟨e', he', hdelegated⟩ := List.mem_flatMap.mp (List.mem_filter.mp hd).1
    rw [hsplit] at he
    rcases List.mem_append.mp he with he | he
    · -- Both would wait at once.
      have hcalls : (d, call) ∈ (Order.index before).calls :=
        hbefore.calls.symm.subset (mem_openCalls.mpr ⟨⟨e, he, hcall⟩, hunsettled⟩)
      have hdistinct := (List.nodup_append.mp hbefore.agrees.distinct).1
      exact (List.nodup_append.mp hdistinct).2.2 d (List.mem_map_of_mem hcalls) d hpending rfl
    · -- The call would take an origin that is taken.
      have hcalled := h.distinct
      unfold calledIn at hcalled
      rw [hsplit, List.flatMap_append] at hcalled
      exact (List.nodup_append.mp hcalled).2.2 d
        (List.mem_flatMap.mpr ⟨e', he', Order.called_of_delegated hdelegated⟩) d
        (List.mem_flatMap.mpr ⟨e, he, Order.called_of_calls hcall⟩) rfl
  · cases hresolved

private theorem results_perm (h : Paired entries) (hopen : openCalls entries = [])
    (key : ResponseKey) :
    (resultsFor key entries).Perm (callsOf key entries) := by
  refine (List.perm_ext_iff_of_nodup
    ((resultsFor_sublist key entries).nodup (settledIn_nodup h)) (callsOf_nodup h key)).mpr ?_
  intro x
  rw [mem_resultsFor, mem_callsOf]
  refine and_congr_right fun _ => ⟨?_, ?_⟩
  · rintro ⟨r, hr, horigin, callId, name, outcome, hmessage⟩
    obtain ⟨before, after, hsplit⟩ := List.append_of_mem hr
    obtain ⟨⟨y, call⟩, hc, hy, -⟩ := h.result hsplit hmessage
    rw [horigin] at hy
    cases hy
    obtain ⟨⟨e, he, hcall⟩, -⟩ := mem_openCalls.mp hc
    exact ⟨e, hsplit ▸ List.mem_append_left _ he, call, hcall⟩
  · rintro ⟨e, he, call, hcall⟩
    have hsettled : x ∈ settledIn entries := by
      by_contra hnot
      have hmem : (x, call) ∈ openCalls entries := mem_openCalls.mpr ⟨⟨e, he, hcall⟩, hnot⟩
      rw [hopen] at hmem
      cases hmem
    obtain ⟨r, hr, hresolved⟩ := List.mem_filterMap.mp hsettled
    obtain ⟨horigin, hmessage⟩ := h.answered he hcall hr hresolved
    exact ⟨r, hr, horigin, hmessage⟩

private theorem reported_callIds (items : List Output) :
    (reported items).filterMap Output.callId = items.filterMap Output.callId := by
  have hunkeyed : ∀ item : Output, ∀ k, item.reportKey = some k → item.callId = none := by
    intro item k hk
    cases item with
    | providerToolCall call => rfl
    | _ => cases hk
  have hfilter : ∀ xs : List Output, (xs.filter fun item => item.reportKey = none).filterMap
      Output.callId = xs.filterMap Output.callId := by
    intro xs
    induction xs with
    | nil => rfl
    | cons item rest ih =>
      cases hk : item.reportKey with
      | none =>
        rw [List.filter_cons_of_pos (by simpa using hk), List.filterMap_cons, List.filterMap_cons,
          ih]
      | some k =>
        rw [List.filter_cons_of_neg (by simp [hk]), List.filterMap_cons_none (hunkeyed item k hk),
          ih]
  have hbuild : ∀ x ∈ firsts Output.reportKey items,
      ((group Output.reportKey x items).getLastD x).callId = x.callId := by
    intro x _
    cases hk : x.reportKey with
    | none => rw [group_of_none hk]; rfl
    | some k =>
      rw [hunkeyed x k hk, group_of_some hk, List.getLastD_eq_getLast?]
      cases hlast : (items.filter fun y => y.reportKey = some k).getLast? with
      | none => exact hunkeyed x k hk
      | some last =>
        have hmem := List.mem_of_getLast? hlast
        exact hunkeyed last k (of_decide_eq_true (List.mem_filter.mp hmem).2)
  unfold reported summary
  rw [List.filterMap_map]
  have hcongr : (firsts Output.reportKey items).filterMap
      (Output.callId ∘ fun x => (group Output.reportKey x items).getLastD x) =
      (firsts Output.reportKey items).filterMap Output.callId :=
    List.filterMap_congr hbuild
  rw [hcongr, ← hfilter, filter_firsts_none, hfilter]

private theorem calls_callIds (h : entry.response? = some key) :
    ((entry.calls.filter fun c => c.1.responseKey = key).map Prod.fst).map CallRef.callId =
      entry.output.filterMap Output.callId := by
  have hall : (entry.calls.filter fun c => c.1.responseKey = key) = entry.calls := by
    refine List.filter_eq_self.mpr fun c hc => ?_
    have hkey := (call_entry hc).1
    rw [h] at hkey
    simpa using hkey.symm
  rw [hall, List.map_map]
  obtain ⟨origin, output, data, horigin, hmessage, -⟩ := response?_some h
  simp only [HistoryEntry.calls, HistoryEntry.output, hmessage, horigin]
  rw [List.map_filterMap]
  refine List.filterMap_congr fun item _ => ?_
  cases item with
  | runtimeToolCall call => rfl
  | _ => rfl

private theorem calls_other (h : entry.response? ≠ some key) :
    (entry.calls.filter fun c => c.1.responseKey = key) = [] := by
  rw [List.filter_eq_nil_iff]
  intro c hc hkey
  have hcKey := (call_entry hc).1
  rw [of_decide_eq_true hkey] at hcKey
  exact h hcKey

private theorem callsOf_callIds (key : ResponseKey) (entries : List HistoryEntry) :
    (callsOf key entries).map CallRef.callId =
      ((entries.filter fun e => e.response? = some key).flatMap HistoryEntry.output).filterMap
        Output.callId := by
  unfold callsOf
  induction entries with
  | nil => rfl
  | cons e rest ih =>
    rw [List.flatMap_cons, List.filter_append, List.map_append, List.map_append, ih]
    by_cases he : e.response? = some key
    · rw [calls_callIds he, List.filter_cons_of_pos (by simpa using he), List.flatMap_cons,
        List.filterMap_append]
    · rw [calls_other he, List.filter_cons_of_neg (by simpa using he)]
      rfl

private theorem projected_callIds (h : entry.response? = some key) :
    (entry.projected (group HistoryEntry.response? entry entries)).callIds =
      (callsOf key entries).map CallRef.callId := by
  rw [callsOf_callIds, group_of_some h]
  simp only [HistoryEntry.projected, h, Message.callIds, reported_callIds]

private theorem Paired.callIds_alone (h : Paired entries) (hmem : entry ∈ entries)
    (hnone : entry.response? = none) : entry.message.callIds = [] := by
  cases hmessage : entry.message with
  | assistant output data =>
    have horigin : entry.origin = none := by
      cases horigin : entry.origin with
      | none => rfl
      | some origin => simp [HistoryEntry.response?, horigin, hmessage] at hnone
    refine List.filterMap_eq_nil_iff.mpr fun item hitem => ?_
    cases item with
    | runtimeToolCall call =>
      have hsome := h.originated entry hmem output data hmessage _ hitem rfl
      rw [horigin] at hsome
      cases hsome
    | _ => rfl
  | _ => rfl

private theorem ordered_firsts (h : Paired entries) :
    Ordered HistoryEntry.response? HistoryEntry.answers
      (firsts HistoryEntry.response? entries) where
  opened before z after key hsplit hz := by
    obtain ⟨front, rest, hentries, hfirst, -, -⟩ := firstsAfter_split hsplit
    obtain ⟨callId, name, outcome, origin, hmessage, horigin, hkey⟩ := answers_some hz
    obtain ⟨c, hc, hcOrigin, -⟩ := h.result hentries hmessage
    rw [horigin] at hcOrigin
    obtain ⟨⟨e, he, hcall⟩, -⟩ := mem_openCalls.mp hc
    have hresponse := (call_entry hcall).1
    rw [← Option.some.inj hcOrigin, hkey] at hresponse
    rw [← hfirst]
    exact exists_first he hresponse
  apart x _ key hx := answers_of_response? hx
  once := keys_nodup entries

private theorem undisturbed_firsts (h : Steady entries) :
    Undisturbed HistoryEntry.response? HistoryEntry.answers
      (firsts HistoryEntry.response? entries) := by
  intro before x between z after key hsplit hx hz y hy
  obtain ⟨earlier, later, rfl⟩ := List.append_of_mem hy
  rw [List.append_assoc, List.cons_append] at hsplit
  obtain ⟨front, rest, hentries, -, -, hafter⟩ := firstsAfter_split hsplit
  obtain ⟨front', rest', hrest, -, hleads, hafter⟩ := firstsAfter_split hafter
  obtain ⟨front'', rest'', hrest', -, -, -⟩ := firstsAfter_split hafter
  subst hrest' hrest
  have hsteady := h front x (front' ++ y :: front'') z rest'' key (by rw [hentries]; simp) hx hz
    front' y front'' rfl
  rcases hsteady with hanswers | hnot
  · exact hanswers
  · exact absurd (by simpa using hleads) hnot

/-- Results are never merged. -/
private theorem filter_firsts_answers (key : ResponseKey) (entries : List HistoryEntry) :
    (firsts HistoryEntry.response? entries).filter (fun e => e.answers = some key) =
      entries.filter fun e => e.answers = some key := by
  have hnarrow : ∀ xs : List HistoryEntry, (xs.filter fun e => e.answers = some key) =
      (xs.filter fun e => e.response? = none).filter fun e => e.answers = some key := by
    intro xs
    rw [List.filter_filter]
    refine List.filter_congr fun e _ => ?_
    by_cases hanswers : e.answers = some key
    · simp [hanswers, response?_of_answers hanswers]
    · simp [hanswers]
  rw [hnarrow, filter_firsts_none, ← hnarrow]

private theorem Paired.resultIds (h : Paired entries) (key : ResponseKey) :
    (entries.filter fun e => e.answers = some key).map (fun e => e.message.resultId) =
      (resultsFor key entries).map fun x => some x.callId := by
  have hone : ∀ e ∈ entries.filter (fun e => e.answers = some key),
      ∃ x, e.origin = some x ∧ e.message.resultId = some x.callId := by
    intro e he
    obtain ⟨hmem, hanswers⟩ := List.mem_filter.mp he
    obtain ⟨callId, name, outcome, origin, hmessage, horigin, -⟩ :=
      answers_some (of_decide_eq_true hanswers)
    obtain ⟨before, after, hsplit⟩ := List.append_of_mem hmem
    obtain ⟨c, hc, hcOrigin, hcId⟩ := h.result hsplit hmessage
    obtain ⟨⟨e', -, hcall⟩, -⟩ := mem_openCalls.mp hc
    refine ⟨c.1, hcOrigin, ?_⟩
    rw [hmessage, (call_entry hcall).2, hcId]
    rfl
  unfold resultsFor
  generalize entries.filter (fun e => e.answers = some key) = results at hone ⊢
  induction results with
  | nil => rfl
  | cons e rest ih =>
    obtain ⟨⟨x, horigin, hresult⟩, hrest⟩ := List.forall_mem_cons.mp hone
    rw [List.map_cons, List.filterMap_cons_some horigin, List.map_cons, hresult, ih hrest]

private theorem Paired.answered_part (h : Paired entries) (hopen : openCalls entries = [])
    {part : HistoryEntry × List HistoryEntry} (hmem : part.1 ∈ entries)
    (hpart : Part HistoryEntry.response? HistoryEntry.answers
      (firsts HistoryEntry.response? entries) part) :
    Answered (part.1.projected (group HistoryEntry.response? part.1 entries),
      part.2.map fun e => e.projected (group HistoryEntry.response? e entries)) := by
  cases hresponse : part.1.response? with
  | none =>
    have hprojected : ∀ es, part.1.projected es = part.1.message := by
      intro es
      simp only [HistoryEntry.projected, hresponse]
    refine ⟨?_, ?_⟩
    · rw [hprojected]
      cases hmessage : part.1.message with
      | runtimeTool callId name outcome =>
        obtain ⟨before, after, hsplit⟩ := List.append_of_mem hmem
        obtain ⟨c, -, horigin, -⟩ := h.result hsplit hmessage
        have hhead := hpart.head
        simp [HistoryEntry.answers, hmessage, horigin] at hhead
      | _ => rfl
    · rw [hprojected, h.callIds_alone hmem hresponse, hpart.none hresponse]
      exact .refl _
  | some key =>
    refine ⟨?_, ?_⟩
    · simp only [HistoryEntry.projected, hresponse]
      rfl
    · rw [projected_callIds hresponse, hpart.all key hresponse, filter_firsts_answers,
        List.map_map]
      have hown : (entries.filter fun e => e.answers = some key).map
          (Message.resultId ∘ fun e => e.projected (group HistoryEntry.response? e entries)) =
          (entries.filter fun e => e.answers = some key).map fun e => e.message.resultId := by
        refine List.map_congr_left fun e he => ?_
        have hnone := response?_of_answers (of_decide_eq_true (List.mem_filter.mp he).2)
        simp only [Function.comp, HistoryEntry.projected, hnone]
      rw [hown, h.resultIds key, List.map_map]
      exact (results_perm h hopen key).map _

/-- A steady conversation without open calls consists of messages with the results of their calls
right behind them. -/
theorem conversation_answered (h : Paired entries) (hopen : openCalls entries = [])
    (hsteady : Steady entries) :
    ∃ turns, conversation entries = join turns ∧ ∀ turn ∈ turns, Answered turn := by
  obtain ⟨parts, hjoin, hparts⟩ := exists_parts (ordered_firsts h) (undisturbed_firsts hsteady)
  have hmessages : conversation entries = (firsts HistoryEntry.response? entries).map fun lead =>
      lead.projected (group HistoryEntry.response? lead entries) :=
    (Projection.fold_tracks entries).messages
  rw [hjoin, Library.Answers.join_map] at hmessages
  refine ⟨_, hmessages, ?_⟩
  intro turn hturn
  obtain ⟨part, hpart, rfl⟩ := List.mem_map.mp hturn
  refine h.answered_part hopen ?_ (hparts part hpart)
  have hfirst : part.1 ∈ firsts HistoryEntry.response? entries := by
    rw [hjoin]
    exact List.mem_flatMap.mpr ⟨part, hpart, List.mem_cons_self⟩
  exact mem_of_first hfirst

theorem Answered.all_results {turn : Message × List Message} (h : Answered turn) :
    ∀ m ∈ turn.2, ∃ id, m.resultId = some id := by
  intro m hm
  have hmem : m.resultId ∈ turn.1.callIds.map some :=
    h.results.subset (List.mem_map_of_mem hm)
  obtain ⟨id, -, hid⟩ := List.mem_map.mp hmem
  exact ⟨id, hid.symm⟩

theorem filter_heads {turn : Message × List Message} (h : Answered turn) (rest : List Message) :
    (turn.1 :: (turn.2 ++ rest)).filter (fun m => m.resultId = none) =
      turn.1 :: rest.filter fun m => m.resultId = none := by
  have hnone : turn.2.filter (fun m => m.resultId = none) = [] := by
    rw [List.filter_eq_nil_iff]
    intro m hm
    obtain ⟨id, hid⟩ := h.all_results m hm
    simp [hid]
  rw [List.filter_cons_of_pos (by simpa using h.head), List.filter_append, hnone, List.nil_append]

theorem resultId_some {m : Message} {id : String} (h : m.resultId = some id) :
    ∃ name outcome, m = .runtimeTool id name outcome := by
  cases m with
  | runtimeTool callId name outcome =>
    cases h
    exact ⟨name, outcome, rfl⟩
  | _ => cases h

end Zhir.Core
