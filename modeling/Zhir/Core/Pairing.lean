import Mathlib.Data.List.Nodup
import Zhir.Core.Causality
import Zhir.Core.ChunkedHistory

/-!
What it means for a list of entries to be paired, said of the whole list, and that the index
kept up entry by entry accepts exactly these lists.
-/

set_option autoImplicit false
set_option relaxedAutoImplicit false

namespace Zhir.Core

/-- A runtime call under the origin of its entry, its own call id put in. -/
def Output.asCall (origin : CallRef) : Output → Option (CallRef × RuntimeToolCall)
  | .runtimeToolCall call => some ({ origin with callId := call.id }, call)
  | _ => none

def Output.asDelegation (origin : CallRef) : Output → Option CallRef
  | .delegation request => some { origin with callId := request.id }
  | _ => none

def Output.isCall : Output → Bool
  | .delegation _ | .runtimeToolCall _ => true
  | _ => false

def HistoryEntry.calls (entry : HistoryEntry) : List (CallRef × RuntimeToolCall) :=
  match entry.message, entry.origin with
  | .assistant output _, some origin => output.filterMap (Output.asCall origin)
  | _, _ => []

def HistoryEntry.delegated (entry : HistoryEntry) : List CallRef :=
  match entry.message, entry.origin with
  | .assistant output _, some origin => output.filterMap (Output.asDelegation origin)
  | _, _ => []

def HistoryEntry.Originated (entry : HistoryEntry) : Prop :=
  ∀ output data, entry.message = .assistant output data → ∀ item ∈ output,
    item.isCall = true → entry.origin.isSome = true

def settledIn (entries : List HistoryEntry) : List CallRef :=
  entries.filterMap HistoryEntry.resolved

def openCalls (entries : List HistoryEntry) : List (CallRef × RuntimeToolCall) :=
  (entries.flatMap HistoryEntry.calls).filter fun c => c.1 ∉ settledIn entries

def openDelegations (entries : List HistoryEntry) : List CallRef :=
  (entries.flatMap HistoryEntry.delegated).filter fun origin => origin ∉ settledIn entries

/-- A result names exactly one call of its kind that is open before it. -/
def HistoryEntry.Matches (before : List HistoryEntry) (entry : HistoryEntry) : Prop :=
  match entry.message with
  | .runtimeTool callId name _ => ∃ origin, entry.origin = some origin ∧
      (openCalls before).countP (fun c => c.1 = origin ∧ c.2.id = callId ∧ c.2.name = name) = 1
  | .delegationResult id _ => ∃ origin, entry.origin = some origin ∧
      (openDelegations before).countP (fun d => d = origin ∧ d.callId = id) = 1
  | _ => True

structure Paired (entries : List HistoryEntry) : Prop where
  unique : (entries.map HistoryEntry.id).Nodup
  originated : ∀ entry ∈ entries, entry.Originated
  distinct : (calledIn entries).Nodup
  matched : ∀ before entry after, entries = before ++ entry :: after → entry.Matches before

structure Joins (entries : List HistoryEntry) (entry : HistoryEntry) : Prop where
  fresh : entry.id ∉ entries.map HistoryEntry.id
  originated : entry.Originated
  distinct : (calledIn entries ++ entry.called).Nodup
  matched : entry.Matches entries

variable {entries : List HistoryEntry} {entry : HistoryEntry}

private theorem paired_nil : Paired [] where
  unique := List.nodup_nil
  originated entry hentry := absurd hentry List.not_mem_nil
  distinct := List.nodup_nil
  matched before entry after hsplit := by
    cases before <;> cases hsplit

theorem paired_snoc : Paired (entries ++ [entry]) ↔ Paired entries ∧ Joins entries entry := by
  have hcalled : calledIn (entries ++ [entry]) = calledIn entries ++ entry.called := by
    simp [calledIn]
  constructor
  · intro h
    have hunique := h.unique
    have hdistinct := h.distinct
    rw [List.map_append, List.nodup_append] at hunique
    rw [hcalled] at hdistinct
    obtain ⟨huniques, -, hfresh⟩ := hunique
    refine ⟨⟨huniques, fun e he => h.originated e (List.mem_append_left _ he), ?_, ?_⟩,
      ⟨?_, h.originated entry (List.mem_append_right _ (List.mem_singleton_self _)), hdistinct,
        h.matched entries entry [] rfl⟩⟩
    · exact (List.nodup_append.mp hdistinct).1
    · intro before other after hsplit
      refine h.matched before other (after ++ [entry]) ?_
      rw [hsplit, List.append_assoc]
      rfl
    · intro hmem
      exact hfresh _ hmem _ (List.mem_singleton_self _) rfl
  · rintro ⟨h, hjoins⟩
    refine ⟨?_, ?_, ?_, ?_⟩
    · rw [List.map_append, List.nodup_append]
      refine ⟨h.unique, List.nodup_singleton _, ?_⟩
      intro a ha b hb hab
      rw [List.mem_singleton.mp hb] at hab
      exact hjoins.fresh (hab ▸ ha)
    · intro e he
      rcases List.mem_append.mp he with he | he
      · exact h.originated e he
      · rw [List.mem_singleton.mp he]
        exact hjoins.originated
    · rw [hcalled]
      exact hjoins.distinct
    · intro before other after hsplit
      rcases List.eq_nil_or_concat after with rfl | ⟨rest, last, rfl⟩
      · obtain ⟨rfl, hlast⟩ := List.append_inj' hsplit rfl
        cases hlast
        exact hjoins.matched
      · rw [List.concat_eq_append, ← List.cons_append, ← List.append_assoc] at hsplit
        obtain ⟨hrest, -⟩ := List.append_inj' hsplit rfl
        exact h.matched before other rest hrest

namespace Order

/-- The index holds the identities seen and the calls that are open. -/
structure Tracks (o : Order) (entries : List HistoryEntry) : Prop where
  ids : ∀ id, id ∈ o.ids.map Prod.fst ↔ id ∈ entries.map HistoryEntry.id
  calls : o.calls.Perm (openCalls entries)
  delegations : o.delegations.Perm (openDelegations entries)
  agrees : o.Agrees (calledIn entries) fun x => resultsOf x entries

private theorem mem_settledIn {x : CallRef} : x ∈ settledIn entries ↔ 0 < resultsOf x entries := by
  unfold settledIn resultsOf
  rw [List.countP_pos_iff, List.mem_filterMap]
  simp

theorem Tracks.settled {o : Order} (h : o.Tracks entries) {x : CallRef} :
    x ∈ settledIn entries ↔ x ∈ o.completed := by
  rw [mem_settledIn, h.agrees.results]
  split <;> simp_all

section

variable {o : Order} {called : List CallRef} {results : CallRef → Nat} {origin : Option CallRef}

/-- An item is indexed exactly when it is no call, or a call of a new origin. -/
private theorem updateItem_ok_iff (h : o.Agrees called results) (item : Output) :
    (∃ o', o.updateItem origin item = .ok o') ↔
      (item.isCall = true → origin.isSome = true) ∧
        (called ++ origin.toList.filterMap fun r => item.introduces r).Nodup := by
  have hfresh : ∀ x, o.taken x = false ↔ (called ++ [x]).Nodup := by
    intro x
    rw [Bool.eq_false_iff, Ne, taken_iff, ← h.mem_called, List.nodup_append]
    constructor
    · intro hx
      refine ⟨h.unique, List.nodup_singleton x, fun a ha b hb hab => hx ?_⟩
      rw [List.mem_singleton.mp hb] at hab
      exact hab ▸ ha
    · rintro ⟨-, -, hdisjoint⟩ hx
      exact hdisjoint x hx x (List.mem_singleton_self x) rfl
  cases item with
  | delegation request =>
    cases origin with
    | none => simp [updateItem, Output.isCall]
    | some origin =>
      have hx := hfresh { origin with callId := request.id }
      change _ ↔ _ ∧ (called ++ [_]).Nodup
      rw [← hx]
      cases htaken : o.taken { origin with callId := request.id } <;>
        simp [updateItem, htaken]
  | runtimeToolCall call =>
    cases origin with
    | none => simp [updateItem, Output.isCall]
    | some origin =>
      have hx := hfresh { origin with callId := call.id }
      change _ ↔ _ ∧ (called ++ [_]).Nodup
      rw [← hx]
      cases htaken : o.taken { origin with callId := call.id } <;>
        simp [updateItem, htaken]
  | content content =>
    cases origin <;> simp [updateItem, Output.isCall, Output.introduces, h.unique]
  | providerToolCall call =>
    cases origin <;> simp [updateItem, Output.isCall, Output.introduces, h.unique]

private theorem updateOutput_none_iff (output : List Output) :
    ∀ {o : Order} {called : List CallRef} {results : CallRef → Nat}, o.Agrees called results →
      o.error = none → ((updateOutput origin o output).error = none ↔
        (∀ item ∈ output, item.isCall = true → origin.isSome = true) ∧
          (called ++ origin.toList.flatMap fun r =>
            output.filterMap (Output.introduces r)).Nodup) := by
  induction output with
  | nil =>
    intro o called results h herror
    cases origin <;> simp [updateOutput, herror, h.unique]
  | cons item rest ih =>
    intro o called results h herror
    have hsplit : (origin.toList.flatMap fun r => (item :: rest).filterMap (Output.introduces r)) =
        (origin.toList.filterMap fun r => item.introduces r) ++
          origin.toList.flatMap fun r => rest.filterMap (Output.introduces r) := by
      cases origin with
      | none => rfl
      | some origin => cases hitem : item.introduces origin <;> simp [hitem]
    rw [hsplit, ← List.append_assoc, List.forall_mem_cons]
    have hiff := @updateItem_ok_iff _ _ _ origin h item
    cases hitem : o.updateItem origin item with
    | error violation =>
      have hnot : ¬ ∃ o', o.updateItem origin item = .ok o' := by
        rw [hitem]
        rintro ⟨o', ho'⟩
        cases ho'
      rw [hiff] at hnot
      simp only [updateOutput, hitem, reduceCtorEq, false_iff]
      rintro ⟨⟨hcall, -⟩, hnodup⟩
      exact hnot ⟨hcall, (List.nodup_append.mp hnodup).1⟩
    | ok o' =>
      obtain ⟨hcall, -⟩ := hiff.mp ⟨o', hitem⟩
      obtain ⟨hagrees, herror'⟩ := updateItem_agrees h hitem
      simp only [updateOutput, hitem]
      rw [ih hagrees (herror'.trans herror)]
      constructor
      · rintro ⟨hrest, hnodup⟩
        exact ⟨⟨hcall, hrest⟩, hnodup⟩
      · rintro ⟨⟨-, hrest⟩, hnodup⟩
        exact ⟨hrest, hnodup⟩

private theorem updateOutput_adds (output : List Output) :
    ∀ {o : Order}, (updateOutput origin o output).error = none →
      (updateOutput origin o output).ids = o.ids ∧
      (updateOutput origin o output).calls.Perm
        (o.calls ++ origin.toList.flatMap fun r => output.filterMap (Output.asCall r)) ∧
      (updateOutput origin o output).delegations.Perm
        (o.delegations ++ origin.toList.flatMap fun r =>
          output.filterMap (Output.asDelegation r)) := by
  induction output with
  | nil =>
    intro o _
    cases origin <;> simp [updateOutput]
  | cons item rest ih =>
    intro o hnone
    cases hitem : o.updateItem origin item with
    | error violation => simp [updateOutput, hitem] at hnone
    | ok o' =>
      simp only [updateOutput, hitem] at hnone ⊢
      cases item with
      | delegation request =>
        cases origin with
        | none => cases hitem
        | some origin =>
          simp only [updateItem] at hitem
          split at hitem
          · cases hitem
          · cases hitem
            obtain ⟨hids, hcalls, hdelegations⟩ := ih hnone
            refine ⟨hids, hcalls, hdelegations.trans ?_⟩
            simpa [Output.asDelegation] using List.perm_middle.symm
      | runtimeToolCall call =>
        cases origin with
        | none => cases hitem
        | some origin =>
          simp only [updateItem] at hitem
          split at hitem
          · cases hitem
          · cases hitem
            obtain ⟨hids, hcalls, hdelegations⟩ := ih hnone
            refine ⟨hids, hcalls.trans ?_, hdelegations⟩
            simpa [Output.asCall] using List.perm_middle.symm
      | _ =>
        cases hitem
        exact ih hnone

end

variable {o : Order} {position : Nat}

private theorem settledIn_snoc (entries : List HistoryEntry) (entry : HistoryEntry) :
    settledIn (entries ++ [entry]) = settledIn entries ++ entry.resolved.toList := by
  unfold settledIn
  rw [List.filterMap_append]
  cases hresolved : entry.resolved <;> simp [hresolved]

private theorem openCalls_snoc (entries : List HistoryEntry) (entry : HistoryEntry) :
    openCalls (entries ++ [entry]) =
      (openCalls entries ++ entry.calls.filter fun c => c.1 ∉ settledIn entries).filter
        fun c => c.1 ∉ entry.resolved.toList := by
  unfold openCalls
  rw [settledIn_snoc, List.flatMap_append, ← List.filter_append, List.filter_filter]
  simp [List.mem_append, not_or, Bool.and_comm]

private theorem openDelegations_snoc (entries : List HistoryEntry) (entry : HistoryEntry) :
    openDelegations (entries ++ [entry]) =
      (openDelegations entries ++ entry.delegated.filter fun x => x ∉ settledIn entries).filter
        fun x => x ∉ entry.resolved.toList := by
  unfold openDelegations
  rw [settledIn_snoc, List.flatMap_append, ← List.filter_append, List.filter_filter]
  simp [List.mem_append, not_or, Bool.and_comm]

private theorem called_of_message {output : List Output} {data : Value} {origin : CallRef}
    (hmessage : entry.message = .assistant output data) (horigin : entry.origin = some origin) :
    entry.called = output.filterMap (Output.introduces origin) := by
  unfold HistoryEntry.called
  rw [hmessage, horigin]

theorem called_of_calls {c : CallRef × RuntimeToolCall} (h : c ∈ entry.calls) :
    c.1 ∈ entry.called := by
  unfold HistoryEntry.calls at h
  split at h
  · rename_i output data origin hmessage horigin
    obtain ⟨item, hitem, hcall⟩ := List.mem_filterMap.mp h
    rw [called_of_message hmessage horigin]
    refine List.mem_filterMap.mpr ⟨item, hitem, ?_⟩
    cases item with
    | runtimeToolCall call =>
      cases hcall
      rfl
    | _ => cases hcall
  · cases h

theorem called_of_delegated {x : CallRef} (h : x ∈ entry.delegated) : x ∈ entry.called := by
  unfold HistoryEntry.delegated at h
  split at h
  · rename_i output data origin hmessage horigin
    obtain ⟨item, hitem, hcall⟩ := List.mem_filterMap.mp h
    rw [called_of_message hmessage horigin]
    refine List.mem_filterMap.mpr ⟨item, hitem, ?_⟩
    cases item with
    | delegation request =>
      cases hcall
      rfl
    | _ => cases hcall
  · cases h

private theorem settled_called (h : o.Tracks entries) {x : CallRef} (hx : x ∈ settledIn entries) :
    x ∈ calledIn entries :=
  (h.agrees.mem_called x).mpr (.inr (h.settled.mp hx))

private theorem calls_open (h : o.Tracks entries)
    (hdistinct : (calledIn entries ++ entry.called).Nodup) :
    (entry.calls.filter fun c => c.1 ∉ settledIn entries) = entry.calls ∧
      (entry.delegated.filter fun x => x ∉ settledIn entries) = entry.delegated := by
  have hfresh : ∀ x ∈ entry.called, x ∉ settledIn entries := fun x hx hsettled =>
    (List.nodup_append.mp hdistinct).2.2 x (settled_called h hsettled) x hx rfl
  refine ⟨List.filter_eq_self.mpr fun c hc => ?_, List.filter_eq_self.mpr fun x hx => ?_⟩
  · simpa using hfresh _ (called_of_calls hc)
  · simpa using hfresh _ (called_of_delegated hx)

/-- Among items of different keys, exactly one has a key and a property, if any has. -/
theorem countP_one_iff {α κ : Type} [DecidableEq κ] {key : α → κ} {xs : List α}
    (hkeys : (xs.map key).Nodup) (k : κ) (p : α → Prop) [DecidablePred p] :
    xs.countP (fun a => key a = k ∧ p a) = 1 ↔ ∃ a ∈ xs, key a = k ∧ p a := by
  induction xs with
  | nil => simp
  | cons a rest ih =>
    rw [List.map_cons, List.nodup_cons] at hkeys
    rw [List.countP_cons]
    by_cases ha : key a = k ∧ p a
    · have hrest : rest.countP (fun a => key a = k ∧ p a) = 0 := by
        rw [List.countP_eq_zero]
        intro b hb hmatch
        have hsame : key b = k := (of_decide_eq_true hmatch).1
        exact hkeys.1 (by rw [ha.1, ← hsame]; exact List.mem_map_of_mem hb)
      rw [hrest, if_pos (decide_eq_true ha)]
      exact iff_of_true rfl ⟨a, List.mem_cons_self, ha⟩
    · rw [if_neg (by simpa using ha), Nat.add_zero, ih hkeys.2]
      simp [ha]

private theorem Tracks.calls_nodup (h : o.Tracks entries) :
    ((openCalls entries).map Prod.fst).Nodup := by
  have hdistinct := (List.nodup_append.mp h.agrees.distinct).1
  exact ((h.calls.map Prod.fst).nodup_iff).mp (List.nodup_append.mp hdistinct).1

private theorem Tracks.delegations_nodup (h : o.Tracks entries) :
    (openDelegations entries).Nodup := by
  have hdistinct := (List.nodup_append.mp h.agrees.distinct).1
  exact (h.delegations.nodup_iff).mp (List.nodup_append.mp hdistinct).2.1

private theorem pendingCall_iff (h : o.Tracks entries) {x : CallRef} {call : RuntimeToolCall} :
    o.pendingCall x = some call ↔ (x, call) ∈ openCalls entries := by
  constructor
  · exact fun hcall => h.calls.subset (pendingCall_some hcall)
  · intro hmem
    have hcalls := h.calls.symm.subset hmem
    cases hfound : o.pendingCall x with
    | none =>
      unfold pendingCall at hfound
      rw [Option.map_eq_none_iff, List.find?_eq_none] at hfound
      exact absurd (decide_eq_true rfl) (hfound _ hcalls)
    | some other =>
      have hother := pendingCall_some hfound
      have hnodup : (o.calls.map Prod.fst).Nodup :=
        ((h.calls.map Prod.fst).nodup_iff).mpr h.calls_nodup
      have hsame := List.inj_on_of_nodup_map hnodup hother hcalls rfl
      rw [(Prod.mk.inj hsame).2]

theorem update_none_iff (h : o.Tracks entries) (herror : o.error = none) :
    (o.update entry position).error = none ↔ Joins entries entry := by
  obtain ⟨id, origin, message⟩ := entry
  unfold update
  have hseen := h.ids id
  split
  · rename_i hmem
    simp only [reduceCtorEq, false_iff]
    exact fun hjoins => hjoins.fresh (hseen.mp hmem)
  rename_i hunseen
  have hfresh : id ∉ entries.map HistoryEntry.id := fun hmem => hunseen (hseen.mpr hmem)
  have hindexed : ({ o with ids := (id, position) :: o.ids } : Order).Agrees (calledIn entries)
      fun x => resultsOf x entries :=
    ⟨h.agrees.mem_called, h.agrees.unique, h.agrees.distinct, h.agrees.results⟩
  have hquiet : (∀ output data, message ≠ .assistant output data) →
      HistoryEntry.Originated ⟨id, origin, message⟩ ∧
        (calledIn entries ++ HistoryEntry.called ⟨id, origin, message⟩).Nodup := by
    intro hother
    refine ⟨fun output data hmessage => absurd hmessage (hother output data), ?_⟩
    have hnone : HistoryEntry.called ⟨id, origin, message⟩ = [] := by
      unfold HistoryEntry.called
      cases message with
      | assistant output data => exact absurd rfl (hother output data)
      | _ => rfl
    rw [hnone, List.append_nil]
    exact h.agrees.unique
  cases message with
  | assistant output data =>
    have hcalled : HistoryEntry.called ⟨id, origin, .assistant output data⟩ =
        origin.toList.flatMap fun r => output.filterMap (Output.introduces r) := by
      cases origin <;> simp [HistoryEntry.called]
    have hout := @updateOutput_none_iff origin output _ _ _ hindexed herror
    rw [← hcalled] at hout
    apply hout.trans
    constructor
    · rintro ⟨hcalls, hdistinct⟩
      refine ⟨hfresh, ?_, hdistinct, trivial⟩
      intro output' data' hmessage
      cases hmessage
      exact hcalls
    · intro hjoins
      exact ⟨hjoins.originated output data rfl, hjoins.distinct⟩
  | delegationResult callId outcome =>
    obtain ⟨horiginated, hdistinct⟩ := hquiet fun _ _ hmessage => by cases hmessage
    have hmatch : HistoryEntry.Matches entries ⟨id, origin, .delegationResult callId outcome⟩ ↔
        ∃ x, origin = some x ∧ x ∈ o.delegations ∧ x.callId = callId := by
      refine exists_congr fun x => and_congr_right fun _ => ?_
      have hone := @countP_one_iff _ _ _ (fun d => d) (openDelegations entries)
        (by simpa using h.delegations_nodup) x (fun d => d.callId = callId) _
      apply hone.trans
      constructor
      · rintro ⟨d, hd, rfl, hid⟩
        exact ⟨h.delegations.symm.subset hd, hid⟩
      · rintro ⟨hmem, hid⟩
        exact ⟨x, h.delegations.subset hmem, rfl, hid⟩
    have hjoins : Joins entries ⟨id, origin, .delegationResult callId outcome⟩ ↔
        ∃ x, origin = some x ∧ x ∈ o.delegations ∧ x.callId = callId :=
      ⟨fun hjoins => hmatch.mp hjoins.matched,
        fun hx => ⟨hfresh, horiginated, hdistinct, hmatch.mpr hx⟩⟩
    rw [hjoins]
    cases origin with
    | none => simp
    | some x =>
      simp only [Option.some.injEq, exists_eq_left']
      split
      · rename_i hnot
        simp only [reduceCtorEq, false_iff]
        rintro ⟨hmem, hid⟩
        exact hnot.elim (fun hne => hne hid) fun hnone => hnone hmem
      · rename_i hboth
        simp only [not_or, not_not] at hboth
        exact iff_of_true herror ⟨hboth.2, hboth.1⟩
  | runtimeTool callId name outcome =>
    obtain ⟨horiginated, hdistinct⟩ := hquiet fun _ _ hmessage => by cases hmessage
    have hmatch : HistoryEntry.Matches entries ⟨id, origin, .runtimeTool callId name outcome⟩ ↔
        ∃ x, origin = some x ∧ ∃ call, o.pendingCall x = some call ∧ call.id = callId ∧
          call.name = name := by
      refine exists_congr fun x => and_congr_right fun _ => ?_
      have hone := @countP_one_iff _ _ _ Prod.fst (openCalls entries) h.calls_nodup x
        (fun c => c.2.id = callId ∧ c.2.name = name) _
      apply hone.trans
      constructor
      · rintro ⟨⟨y, call⟩, hmem, rfl, hsame⟩
        exact ⟨call, (pendingCall_iff h).mpr hmem, hsame⟩
      · rintro ⟨call, hcall, hsame⟩
        exact ⟨(x, call), (pendingCall_iff h).mp hcall, rfl, hsame⟩
    have hjoins : Joins entries ⟨id, origin, .runtimeTool callId name outcome⟩ ↔
        ∃ x, origin = some x ∧ ∃ call, o.pendingCall x = some call ∧ call.id = callId ∧
          call.name = name :=
      ⟨fun hjoins => hmatch.mp hjoins.matched,
        fun hx => ⟨hfresh, horiginated, hdistinct, hmatch.mpr hx⟩⟩
    rw [hjoins]
    cases origin with
    | none => simp
    | some x =>
      have hsame : ({ o with ids := (id, position) :: o.ids } : Order).pendingCall x =
          o.pendingCall x := rfl
      simp only [Option.some.injEq, exists_eq_left', hsame]
      cases hcall : o.pendingCall x with
      | none => simp
      | some call =>
        simp only [Option.some.injEq, exists_eq_left']
        split
        · rename_i hnot
          simp only [reduceCtorEq, false_iff]
          rintro ⟨hid, hname⟩
          exact hnot.elim (fun hne => hne hid) fun hne => hne hname
        · rename_i hboth
          simp only [not_or, not_not] at hboth
          exact iff_of_true herror hboth
  | system content =>
    obtain ⟨horiginated, hdistinct⟩ := hquiet fun _ _ hmessage => by cases hmessage
    exact ⟨fun _ => ⟨hfresh, horiginated, hdistinct, trivial⟩, fun _ => herror⟩
  | user content =>
    obtain ⟨horiginated, hdistinct⟩ := hquiet fun _ _ hmessage => by cases hmessage
    exact ⟨fun _ => ⟨hfresh, horiginated, hdistinct, trivial⟩, fun _ => herror⟩
  | external content =>
    obtain ⟨horiginated, hdistinct⟩ := hquiet fun _ _ hmessage => by cases hmessage
    exact ⟨fun _ => ⟨hfresh, horiginated, hdistinct, trivial⟩, fun _ => herror⟩

theorem update_ids (hnone : (o.update entry position).error = none) :
    (o.update entry position).ids = (entry.id, position) :: o.ids := by
  unfold update at hnone ⊢
  split at hnone
  · cases hnone
  rename_i hfresh
  rw [if_neg hfresh]
  cases hmessage : entry.message with
  | assistant output data =>
    simp only [hmessage] at hnone
    exact (updateOutput_adds output hnone).1
  | delegationResult callId outcome =>
    simp only [hmessage] at hnone ⊢
    cases horigin : entry.origin with
    | none => rfl
    | some origin =>
      simp only
      split <;> rfl
  | runtimeTool callId name outcome =>
    simp only
    cases horigin : entry.origin with
    | none => rfl
    | some origin =>
      simp only
      split
      · rfl
      · split <;> rfl
  | _ => rfl

/-- The tables after an indexed entry: its calls are added, the call it settles is taken out. -/
private theorem update_tables {called : List CallRef} {results : CallRef → Nat}
    (h : o.Agrees called results) (hnone : (o.update entry position).error = none) :
    (o.update entry position).calls.Perm
        ((o.calls ++ entry.calls).filter fun c => c.1 ∉ entry.resolved.toList) ∧
      (o.update entry position).delegations.Perm
        ((o.delegations ++ entry.delegated).filter fun x => x ∉ entry.resolved.toList) := by
  have hdisjoint := (List.nodup_append.mp (List.nodup_append.mp h.distinct).1).2.2
  obtain ⟨id, origin, message⟩ := entry
  unfold update at hnone ⊢
  split at hnone
  · cases hnone
  rename_i hfresh
  rw [if_neg hfresh]
  cases message with
  | assistant output data =>
    obtain ⟨-, hcalls, hdelegations⟩ := updateOutput_adds output hnone
    have hresolved : HistoryEntry.resolved ⟨id, origin, .assistant output data⟩ = none := rfl
    simp only [hresolved, Option.toList_none, List.not_mem_nil, not_false_eq_true, decide_true,
      List.filter_true]
    cases origin with
    | none => exact ⟨hcalls, hdelegations⟩
    | some origin =>
      simp only [Option.toList_some, List.flatMap_singleton] at hcalls hdelegations
      exact ⟨hcalls, hdelegations⟩
  | delegationResult callId outcome =>
    cases origin with
    | none => cases hnone
    | some origin =>
      have hresolved : HistoryEntry.resolved ⟨id, some origin, .delegationResult callId outcome⟩ =
          some origin := rfl
      simp only at hnone ⊢
      split at hnone
      · cases hnone
      rename_i hpending
      rw [if_neg hpending]
      simp only [not_or, not_not] at hpending
      simp only [hresolved, Option.toList_some, List.mem_singleton]
      refine ⟨?_, ?_⟩
      · change o.calls.Perm ((o.calls ++ []).filter _)
        rw [List.append_nil, List.filter_eq_self.mpr]
        intro c hc
        simpa using hdisjoint c.1 (List.mem_map_of_mem hc) origin hpending.2
      · change (o.delegations.filter _).Perm ((o.delegations ++ []).filter _)
        rw [List.append_nil]
  | runtimeTool callId name outcome =>
    cases origin with
    | none => cases hnone
    | some origin =>
      have hresolved : HistoryEntry.resolved ⟨id, some origin, .runtimeTool callId name outcome⟩ =
          some origin := rfl
      simp only at hnone ⊢
      cases hcall : ({ o with ids := (id, position) :: o.ids } : Order).pendingCall origin with
      | none => simp [hcall] at hnone
      | some call =>
        have hmem := pendingCall_some hcall
        simp only [hcall] at hnone ⊢
        split at hnone
        · cases hnone
        rename_i hmatch
        rw [if_neg hmatch]
        simp only [hresolved, Option.toList_some, List.mem_singleton]
        refine ⟨?_, ?_⟩
        · change (o.calls.filter _).Perm ((o.calls ++ []).filter _)
          rw [List.append_nil]
        · change o.delegations.Perm ((o.delegations ++ []).filter _)
          rw [List.append_nil, List.filter_eq_self.mpr]
          intro x hx
          have hne := hdisjoint origin (List.mem_map_of_mem hmem) x hx
          simpa using fun hx => hne hx.symm
  | system content => simp [HistoryEntry.calls, HistoryEntry.delegated, HistoryEntry.resolved]
  | user content => simp [HistoryEntry.calls, HistoryEntry.delegated, HistoryEntry.resolved]
  | external content => simp [HistoryEntry.calls, HistoryEntry.delegated, HistoryEntry.resolved]

theorem Tracks.update (h : o.Tracks entries) (herror : o.error = none)
    (hnone : (o.update entry position).error = none) :
    (o.update entry position).Tracks (entries ++ [entry]) := by
  have hjoins : Joins entries entry := (update_none_iff h herror).mp hnone
  obtain ⟨hcallsOpen, hdelegationsOpen⟩ := calls_open h hjoins.distinct
  obtain ⟨hcalls, hdelegations⟩ := update_tables h.agrees hnone
  refine ⟨fun id => ?_, ?_, ?_, ?_⟩
  · rw [update_ids hnone, List.map_cons, List.mem_cons, List.map_append, List.mem_append, h.ids]
    rw [List.map_singleton, List.mem_singleton, or_comm]
  · rw [openCalls_snoc, hcallsOpen]
    exact hcalls.trans ((h.calls.append_right _).filter _)
  · rw [openDelegations_snoc, hdelegationsOpen]
    exact hdelegations.trans ((h.delegations.append_right _).filter _)
  · have hupdate := update_agrees h.agrees herror hnone
    simpa [calledIn, resultsOf, List.countP_append, List.countP_cons] using hupdate

theorem tracks_nil : (index []).Tracks [] where
  ids id := by simp [index]
  calls := .refl _
  delegations := .refl _
  agrees := index_agrees [] rfl

/-- The index is without violation exactly for paired lists, and then tracks them. -/
theorem index_tracks (entries : List HistoryEntry) :
    ((index entries).error = none ↔ Paired entries) ∧
      ((index entries).error = none → (index entries).Tracks entries) := by
  induction entries using List.reverseRecOn with
  | nil => exact ⟨iff_of_true rfl paired_nil, fun _ => tracks_nil⟩
  | append_singleton entries entry ih =>
    obtain ⟨hpaired, htracks⟩ := ih
    rw [index_append_single]
    cases herror : (index entries).error with
    | some violation =>
      have hsome : ((index entries).append entry entries.length).error = some violation := by
        simp [append, herror]
      rw [hsome]
      refine ⟨iff_of_false (by simp) fun h => ?_, fun h => nomatch h⟩
      have hnone := hpaired.mpr (paired_snoc.mp h).1
      rw [herror] at hnone
      cases hnone
    | none =>
      have hupdate : (index entries).append entry entries.length =
          (index entries).update entry entries.length := by
        simp [append, herror]
      rw [hupdate, paired_snoc, update_none_iff (htracks herror) herror]
      refine ⟨⟨fun hjoins => ⟨hpaired.mp herror, hjoins⟩, And.right⟩, fun hjoins => ?_⟩
      exact (htracks herror).update herror ((update_none_iff (htracks herror) herror).mpr hjoins)

end Order

end Zhir.Core
