import Zhir.Core.Conversation
import Zhir.Library.Grouping

/-!
What a projected conversation is, said of the whole history: responses where their first entry
stands, provider calls where their first report stands.
-/

set_option autoImplicit false
set_option relaxedAutoImplicit false

namespace Zhir.Core

open Zhir.Library.Grouping

/-- Reports of one provider call are told by provider and call id. -/
def Output.reportKey : Output → Option (String × String)
  | .providerToolCall call => some (call.provider, call.id)
  | _ => none

/-- Output in arrival order, a provider call once, at its first place, as it was reported last. -/
def reported (items : List Output) : List Output :=
  summary Output.reportKey (fun first reports => reports.getLastD first) items

def HistoryEntry.response? (entry : HistoryEntry) : Option ResponseKey :=
  match entry.origin, entry.message with
  | some origin, .assistant _ _ => some origin.responseKey
  | _, _ => none

def HistoryEntry.output (entry : HistoryEntry) : List Output :=
  match entry.message with
  | .assistant output _ => output
  | _ => []

def HistoryEntry.providerData (entry : HistoryEntry) : Value :=
  match entry.message with
  | .assistant _ providerData => providerData
  | _ => .null

def lastData (entries : List HistoryEntry) : Value :=
  ((entries.map HistoryEntry.providerData).filter fun data => !data.isNull).getLastD .null

/-- The message of a group of entries, told by its first one. -/
def HistoryEntry.projected (lead : HistoryEntry) (entries : List HistoryEntry) : Message :=
  match lead.response? with
  | none => lead.message
  | some _ => .assistant (reported (entries.flatMap HistoryEntry.output)) (lastData entries)

variable {entries : List HistoryEntry} {entry : HistoryEntry}

theorem response?_some {key : ResponseKey} (h : entry.response? = some key) :
    ∃ origin output data, entry.origin = some origin ∧ entry.message = .assistant output data ∧
      origin.responseKey = key := by
  unfold HistoryEntry.response? at h
  split at h
  · rename_i origin output data horigin hmessage
    cases h
    exact ⟨origin, output, data, horigin, hmessage, rfl⟩
  · cases h

private theorem reported_length (items : List Output) :
    (reported items).length = (firsts Output.reportKey items).length := summary_length _ items

private theorem lastData_snoc (entries : List HistoryEntry) (entry : HistoryEntry) :
    lastData (entries ++ [entry]) =
      if entry.providerData.isNull then lastData entries else entry.providerData := by
  unfold lastData
  rw [List.map_append, List.filter_append, List.map_singleton]
  cases hnull : entry.providerData.isNull with
  | true => simp [hnull]
  | false => simp [hnull, List.getLastD_eq_getLast?]

namespace Response

variable {r : Response} {items : List Output} {item : Output}

/-- The positions kept are those of the first reports. -/
structure Tracks (r : Response) (items : List Output) : Prop where
  fresh : ∀ key, r.providerPositions.lookup key = none →
    ∀ item ∈ items, item.reportKey ≠ some key
  found : ∀ key position, r.providerPositions.lookup key = some position →
    ∃ lead, (firsts Output.reportKey items)[position]? = some lead ∧ lead.reportKey = some key

theorem tracks_nil (index : Nat) : Tracks { messageIndex := index } [] where
  fresh _ _ _ hitem := absurd hitem List.not_mem_nil
  found _ _ hfound := by cases hfound

theorem Tracks.keep (h : r.Tracks items)
    (hkey : ∀ key, item.reportKey = some key → r.providerPositions.lookup key ≠ none) :
    r.Tracks (items ++ [item]) where
  fresh key hnone other hother := by
    rcases List.mem_append.mp hother with hother | hother
    · exact h.fresh key hnone other hother
    · rw [List.mem_singleton.mp hother]
      exact fun heq => hkey key heq hnone
  found key position hfound := by
    obtain ⟨lead, hlead, hsame⟩ := h.found key position hfound
    exact ⟨lead, firsts_snoc_getElem hlead, hsame⟩

private theorem merge_tracks (h : r.Tracks items) :
    ∃ r', r.merge (reported items) item = (r', reported (items ++ [item])) ∧
      r'.messageIndex = r.messageIndex ∧ r'.Tracks (items ++ [item]) := by
  cases hkey : item.reportKey with
  | none =>
    have hsnoc : reported (items ++ [item]) = reported items ++ [item] :=
      summary_snoc_first (leads_of_none hkey)
    refine ⟨r, ?_, rfl, h.keep fun key heq => ?_⟩
    · rw [hsnoc]
      cases item with
      | providerToolCall call => cases hkey
      | _ => rfl
    · rw [hkey] at heq
      cases heq
  | some key =>
    obtain ⟨call, rfl⟩ : ∃ call, item = .providerToolCall call := by
      cases item with
      | providerToolCall call => exact ⟨call, rfl⟩
      | _ => cases hkey
    have hcall : Output.reportKey (.providerToolCall call) = some (call.provider, call.id) := rfl
    cases hposition : r.providerPositions.lookup (call.provider, call.id) with
    | none =>
      have hleads : Leads Output.reportKey items (.providerToolCall call) :=
        (leads_iff hcall).mpr (h.fresh _ hposition)
      have hsnoc : reported (items ++ [.providerToolCall call]) =
          reported items ++ [.providerToolCall call] := summary_snoc_first hleads
      refine ⟨{ r with providerPositions :=
        ((call.provider, call.id), (reported items).length) :: r.providerPositions }, ?_, rfl,
        ⟨fun key hnone => ?_, fun key position hfound => ?_⟩⟩
      · rw [hsnoc]
        simp only [merge, hposition]
      · have hother : key ≠ (call.provider, call.id) := by
          rintro rfl
          simp at hnone
        have hbefore : r.providerPositions.lookup key = none := by
          rwa [List.lookup_cons, beq_false_of_ne hother] at hnone
        intro item hitem
        rcases List.mem_append.mp hitem with hitem | hitem
        · exact h.fresh key hbefore item hitem
        · rw [List.mem_singleton.mp hitem]
          exact fun heq => hother (Option.some.inj heq).symm
      · by_cases hsame : key = (call.provider, call.id)
        · subst hsame
          rw [List.lookup_cons, beq_self_eq_true] at hfound
          cases hfound
          refine ⟨.providerToolCall call, ?_, rfl⟩
          rw [firsts_snoc, if_pos hleads, reported_length, List.getElem?_concat_length]
        · rw [List.lookup_cons, beq_false_of_ne hsame] at hfound
          obtain ⟨lead, hlead, hkey⟩ := h.found key position hfound
          exact ⟨lead, firsts_snoc_getElem hlead, hkey⟩
    | some position =>
      obtain ⟨lead, hlead, hkey⟩ := h.found _ position hposition
      have hlt : position < (reported items).length := by
        rw [reported_length]
        exact (List.getElem?_eq_some_iff.mp hlead).1
      have hsnoc : reported (items ++ [.providerToolCall call]) =
          (reported items).set position (.providerToolCall call) := by
        refine (summary_snoc_again hlead hkey hcall).trans ?_
        rw [List.getLastD_eq_getLast?, List.getLast?_concat]
        rfl
      refine ⟨r, ?_, rfl, h.keep fun key heq => ?_⟩
      · rw [hsnoc]
        simp only [merge, hposition, if_pos hlt]
      · cases heq
        rw [hposition]
        exact Option.some_ne_none position

private theorem mergeAll_tracks (output : List Output) :
    ∀ {r : Response} {items : List Output}, r.Tracks items →
      ∃ r', r.mergeAll (reported items) output = (r', reported (items ++ output)) ∧
        r'.messageIndex = r.messageIndex ∧ r'.Tracks (items ++ output) := by
  induction output with
  | nil =>
    intro r items h
    rw [List.append_nil]
    exact ⟨r, rfl, rfl, h⟩
  | cons item rest ih =>
    intro r items h
    obtain ⟨next, hmerge, hindex, hnext⟩ := @merge_tracks r items item h
    obtain ⟨r', hrest, hindex', hr'⟩ := ih hnext
    rw [List.append_assoc] at hrest hr'
    refine ⟨r', ?_, hindex'.trans hindex, hr'⟩
    simp only [mergeAll, hmerge]
    exact hrest

end Response

namespace Projection

variable {p : Projection}

private theorem lookup_setResponse (p : Projection) (key k : ResponseKey) (r : Response) :
    (p.setResponse key r).responses.lookup k =
      if k = key then (p.responses.lookup k).map fun _ => r else p.responses.lookup k := by
  unfold setResponse
  dsimp only
  induction p.responses with
  | nil => simp
  | cons kr rest ih =>
    obtain ⟨k', r'⟩ := kr
    rw [List.map_cons, List.lookup_cons, List.lookup_cons]
    by_cases hk' : k' = key
    · subst hk'
      rw [if_pos rfl]
      by_cases hk : k = k'
      · subst hk
        simp
      · rw [beq_false_of_ne hk, ih, if_neg hk]
    · rw [if_neg hk']
      by_cases hk : k = k'
      · subst hk
        simp [hk']
      · rw [beq_false_of_ne hk, ih]

structure Tracks (p : Projection) (entries : List HistoryEntry) : Prop where
  messages : p.messages = summary HistoryEntry.response? HistoryEntry.projected entries
  fresh : ∀ key, p.responses.lookup key = none → ∀ entry ∈ entries, entry.response? ≠ some key
  found : ∀ key r, p.responses.lookup key = some r →
    ∃ lead, (firsts HistoryEntry.response? entries)[r.messageIndex]? = some lead ∧
      lead.response? = some key ∧
      r.Tracks ((group HistoryEntry.response? lead entries).flatMap HistoryEntry.output)

theorem tracks_nil : Tracks {} [] where
  messages := rfl
  fresh _ _ _ hentry := absurd hentry List.not_mem_nil
  found _ _ hfound := by cases hfound

private theorem Tracks.found_snoc (h : p.Tracks entries) {key : ResponseKey} {r : Response}
    (hfound : p.responses.lookup key = some r) (hother : entry.response? ≠ some key) :
    ∃ lead, (firsts HistoryEntry.response? (entries ++ [entry]))[r.messageIndex]? = some lead ∧
      lead.response? = some key ∧
      r.Tracks ((group HistoryEntry.response? lead (entries ++ [entry])).flatMap
        HistoryEntry.output) := by
  obtain ⟨lead, hlead, hkey, hr⟩ := h.found key r hfound
  refine ⟨lead, firsts_snoc_getElem hlead, hkey, ?_⟩
  rw [group_of_some hkey] at hr ⊢
  rwa [filter_snoc_other hother]

private theorem push_alone (h : p.Tracks entries) (hnone : entry.response? = none) :
    (p.push entry).Tracks (entries ++ [entry]) := by
  have hpush : p.push entry = { p with messages := p.messages ++ [entry.message] } := by
    unfold push
    split
    · rename_i origin output data horigin hmessage
      simp [HistoryEntry.response?, horigin, hmessage] at hnone
    · rfl
  have hother : ∀ key, entry.response? ≠ some key := fun key heq => by
    rw [hnone] at heq
    cases heq
  rw [hpush]
  refine ⟨?_, fun key hlookup other hmem => ?_,
    fun key r hfound => h.found_snoc hfound (hother key)⟩
  · rw [summary_snoc_first (leads_of_none hnone), ← h.messages]
    simp only [HistoryEntry.projected, hnone]
  · rcases List.mem_append.mp hmem with hmem | hmem
    · exact h.fresh key hlookup other hmem
    · rw [List.mem_singleton.mp hmem]
      exact hother key

private theorem push_opening (h : p.Tracks entries) {origin : CallRef} {output : List Output}
    {data : Value}
    (horigin : entry.origin = some origin) (hmessage : entry.message = .assistant output data)
    (hlookup : p.responses.lookup origin.responseKey = none) :
    (p.push entry).Tracks (entries ++ [entry]) := by
  have hresponse : entry.response? = some origin.responseKey := by
    simp [HistoryEntry.response?, horigin, hmessage]
  have hleads : Leads HistoryEntry.response? entries entry :=
    (leads_iff hresponse).mpr (h.fresh _ hlookup)
  obtain ⟨r', hmerge, hindex, hr'⟩ :=
    Response.mergeAll_tracks output (Response.tracks_nil p.messages.length)
  rw [List.nil_append] at hmerge hr'
  have hpush : p.push entry =
      { messages := p.messages ++ [.assistant (reported output)
          (if data.isNull then .null else data)]
        responses := (setResponse { p with responses :=
          (origin.responseKey, { messageIndex := p.messages.length }) :: p.responses }
          origin.responseKey r').responses } := by
    have hempty : reported [] = [] := rfl
    rw [hempty] at hmerge
    unfold push response
    simp only [horigin, hmessage, hlookup, List.getElem?_concat_length, hmerge, setResponse]
    simp [hindex]
  have hsame : entry.output = output ∧ entry.providerData = data := by
    simp [HistoryEntry.output, HistoryEntry.providerData, hmessage]
  rw [hpush]
  refine ⟨?_, fun key hnone other hmem => ?_, fun key r hfound => ?_⟩
  · rw [summary_snoc_first hleads, ← h.messages]
    have hdata := lastData_snoc [] entry
    rw [List.nil_append, hsame.2] at hdata
    simp only [HistoryEntry.projected, hresponse, hdata, List.flatMap_singleton, hsame.1]
    rfl
  · rw [lookup_setResponse, List.lookup_cons] at hnone
    by_cases hkey : key = origin.responseKey
    · subst hkey
      simp at hnone
    · rw [if_neg hkey, beq_false_of_ne hkey] at hnone
      rcases List.mem_append.mp hmem with hmem | hmem
      · exact h.fresh key hnone other hmem
      · rw [List.mem_singleton.mp hmem, hresponse]
        exact fun heq => hkey (Option.some.inj heq).symm
  · rw [lookup_setResponse, List.lookup_cons] at hfound
    by_cases hkey : key = origin.responseKey
    · subst hkey
      simp only [beq_self_eq_true, if_true, Option.map_some, Option.some.injEq] at hfound
      subst hfound
      refine ⟨entry, ?_, hresponse, ?_⟩
      · rw [hindex, h.messages, summary_length, firsts_snoc, if_pos hleads,
          List.getElem?_concat_length]
      · have hgroup : group HistoryEntry.response? entry (entries ++ [entry]) = [entry] := by
          rw [group_of_some hresponse, filter_snoc_same hresponse, List.append_left_eq_self,
            List.filter_eq_nil_iff]
          intro other hother
          simpa using (leads_iff hresponse).mp hleads other hother
        rw [hgroup, List.flatMap_singleton, hsame.1]
        exact hr'
    · rw [if_neg hkey, beq_false_of_ne hkey] at hfound
      refine h.found_snoc hfound ?_
      rw [hresponse]
      exact fun heq => hkey (Option.some.inj heq).symm

private theorem push_merging (h : p.Tracks entries) {origin : CallRef} {output : List Output}
    {data : Value}
    {r : Response} (horigin : entry.origin = some origin)
    (hmessage : entry.message = .assistant output data)
    (hlookup : p.responses.lookup origin.responseKey = some r) :
    (p.push entry).Tracks (entries ++ [entry]) := by
  have hresponse : entry.response? = some origin.responseKey := by
    simp [HistoryEntry.response?, horigin, hmessage]
  obtain ⟨lead, hlead, hkey, hr⟩ := h.found _ r hlookup
  obtain ⟨r', hmerge, hindex, hr'⟩ := Response.mergeAll_tracks output hr
  have hget : p.messages[r.messageIndex]? =
      some (.assistant
        (reported ((group HistoryEntry.response? lead entries).flatMap HistoryEntry.output))
        (lastData (group HistoryEntry.response? lead entries))) := by
    rw [h.messages, summary_getElem hlead]
    simp only [HistoryEntry.projected, hkey]
  have hsame : entry.output = output ∧ entry.providerData = data := by
    simp [HistoryEntry.output, HistoryEntry.providerData, hmessage]
  have hgroup : group HistoryEntry.response? lead (entries ++ [entry]) =
      group HistoryEntry.response? lead entries ++ [entry] := by
    rw [group_of_some hkey, group_of_some hkey, filter_snoc_same hresponse]
  have hpush : p.push entry =
      { messages := p.messages.set r.messageIndex (lead.projected
          (group HistoryEntry.response? lead entries ++ [entry]))
        responses := (p.setResponse origin.responseKey r').responses } := by
    unfold push response
    simp only [horigin, hmessage, hlookup, hget, hmerge, setResponse, HistoryEntry.projected, hkey,
      hindex, lastData_snoc, List.flatMap_append, List.flatMap_singleton, hsame]
  rw [hpush]
  refine ⟨?_, fun key hnone other hmem => ?_, fun key other hfound => ?_⟩
  · rw [summary_snoc_again hlead hkey hresponse, ← h.messages]
  · rw [lookup_setResponse] at hnone
    by_cases hsameKey : key = origin.responseKey
    · subst hsameKey
      rw [if_pos rfl, hlookup] at hnone
      cases hnone
    · rw [if_neg hsameKey] at hnone
      rcases List.mem_append.mp hmem with hmem | hmem
      · exact h.fresh key hnone other hmem
      · rw [List.mem_singleton.mp hmem, hresponse]
        exact fun heq => hsameKey (Option.some.inj heq).symm
  · rw [lookup_setResponse] at hfound
    by_cases hsameKey : key = origin.responseKey
    · subst hsameKey
      rw [if_pos rfl, hlookup] at hfound
      cases hfound
      refine ⟨lead, ?_, hkey, ?_⟩
      · rw [hindex]
        exact firsts_snoc_getElem hlead
      · rw [hgroup, List.flatMap_append, List.flatMap_singleton, hsame.1]
        exact hr'
    · rw [if_neg hsameKey] at hfound
      refine h.found_snoc hfound ?_
      rw [hresponse]
      exact fun heq => hsameKey (Option.some.inj heq).symm

private theorem push_tracks (h : p.Tracks entries) : (p.push entry).Tracks
    (entries ++ [entry]) := by
  cases hresponse : entry.response? with
  | none => exact push_alone h hresponse
  | some key =>
    obtain ⟨origin, output, data, horigin, hmessage, -⟩ := response?_some hresponse
    cases hlookup : p.responses.lookup origin.responseKey with
    | none => exact push_opening h horigin hmessage hlookup
    | some r => exact push_merging h horigin hmessage hlookup

theorem fold_tracks (entries : List HistoryEntry) : (entries.foldl push {}).Tracks entries := by
  induction entries using List.reverseRecOn with
  | nil => exact tracks_nil
  | append_singleton entries entry ih =>
    rw [List.foldl_append]
    exact push_tracks ih

end Projection

/-- A conversation has one message for each response and each other entry, in the order of
their first entries: of each response the first entry, every other entry once. -/
theorem conversation_projects (entries : List HistoryEntry) :
    conversation entries = (firsts HistoryEntry.response? entries).map (fun lead =>
        lead.projected (group HistoryEntry.response? lead entries)) ∧
      (firsts HistoryEntry.response? entries).Sublist entries ∧
      (∀ key, (firsts HistoryEntry.response? entries).filter (fun e => e.response? = some key) =
        (entries.filter fun e => e.response? = some key).take 1) ∧
      (firsts HistoryEntry.response? entries).filter (fun e => e.response? = none) =
        entries.filter fun e => e.response? = none :=
  ⟨(Projection.fold_tracks entries).messages, firsts_sublist entries, filter_firsts_some entries,
    filter_firsts_none entries⟩

end Zhir.Core
