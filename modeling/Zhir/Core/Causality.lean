import Mathlib.Data.List.Induction
import Zhir.Core.Validity

/-!
What the causal index says about the entries it was built from: a call waits for its
result, or has exactly one.
-/

set_option autoImplicit false
set_option relaxedAutoImplicit false

namespace Zhir.Core

/-- The call identity an output item introduces under the origin of its entry. -/
def Output.introduces (origin : CallRef) : Output → Option CallRef
  | .delegation request => some { origin with callId := request.id }
  | .runtimeToolCall call => some { origin with callId := call.id }
  | _ => none

def HistoryEntry.called (entry : HistoryEntry) : List CallRef :=
  match entry.message, entry.origin with
  | .assistant output _, some origin => output.filterMap (Output.introduces origin)
  | _, _ => []

def HistoryEntry.resolved (entry : HistoryEntry) : Option CallRef :=
  match entry.message with
  | .runtimeTool _ _ _ | .delegationResult _ _ => entry.origin
  | _ => none

def calledIn (entries : List HistoryEntry) : List CallRef := entries.flatMap HistoryEntry.called

def resultsOf (origin : CallRef) (entries : List HistoryEntry) : Nat :=
  entries.countP fun entry => entry.resolved = some origin

namespace Order

def pending (o : Order) : List CallRef := o.calls.map Prod.fst ++ o.delegations

theorem taken_iff {o : Order} {origin : CallRef} :
    o.taken origin = true ↔ origin ∈ o.pending ∨ origin ∈ o.completed := by
  simp [taken, pending, or_assoc]

/-- The index agrees with the entries seen so far. -/
structure Agrees (o : Order) (called : List CallRef) (results : CallRef → Nat) : Prop where
  mem_called : ∀ x, x ∈ called ↔ x ∈ o.pending ∨ x ∈ o.completed
  unique : called.Nodup
  distinct : (o.pending ++ o.completed).Nodup
  results : ∀ x, results x = if x ∈ o.completed then 1 else 0

private theorem Agrees.introduce {o o' : Order} {called : List CallRef} {results : CallRef → Nat}
    {x : CallRef} (h : o.Agrees called results) (hx : o.taken x = false)
    (hpending : o'.pending.Perm (x :: o.pending)) (hcompleted : o'.completed = o.completed) :
    o'.Agrees (called ++ [x]) results := by
  have hfresh : ¬ (x ∈ o.pending ∨ x ∈ o.completed) := by
    rw [← taken_iff, hx]
    simp
  refine ⟨fun y => ?_, ?_, ?_, fun y => ?_⟩
  · rw [List.mem_append, List.mem_singleton, h.mem_called, hpending.mem_iff, List.mem_cons,
      hcompleted]
    grind
  · refine List.nodup_append.mpr ⟨h.unique, by simp, ?_⟩
    rintro y hy z hz rfl
    rw [List.mem_singleton.mp hz, h.mem_called] at hy
    exact hfresh hy
  · rw [hcompleted]
    refine ((hpending.append_right _).nodup_iff).mpr ?_
    rw [List.cons_append, List.nodup_cons, List.mem_append]
    exact ⟨hfresh, h.distinct⟩
  · rw [h.results, hcompleted]

theorem updateItem_agrees {o o' : Order} {origin : Option CallRef} {item : Output}
    {called : List CallRef} {results : CallRef → Nat} (h : o.Agrees called results)
    (hupdate : o.updateItem origin item = .ok o') :
    o'.Agrees (called ++ (origin.toList.filterMap fun r => item.introduces r)) results ∧
      o'.error = o.error := by
  cases item with
  | delegation request =>
    cases origin with
    | none => cases hupdate
    | some origin =>
      simp only [updateItem] at hupdate
      split at hupdate
      · cases hupdate
      · rename_i htaken
        cases hupdate
        refine ⟨h.introduce (by simpa using htaken) ?_ rfl, rfl⟩
        exact List.perm_middle
  | runtimeToolCall call =>
    cases origin with
    | none => cases hupdate
    | some origin =>
      simp only [updateItem] at hupdate
      split at hupdate
      · cases hupdate
      · rename_i htaken
        cases hupdate
        exact ⟨h.introduce (by simpa using htaken) (List.Perm.refl _) rfl, rfl⟩
  | content content =>
    cases hupdate
    cases origin <;> exact ⟨by simpa [Output.introduces] using h, rfl⟩
  | providerToolCall call =>
    cases hupdate
    cases origin <;> exact ⟨by simpa [Output.introduces] using h, rfl⟩

private theorem updateOutput_agrees {origin : Option CallRef} (output : List Output) :
    ∀ {o : Order} {called : List CallRef} {results : CallRef → Nat}, o.Agrees called results →
      o.error = none → (updateOutput origin o output).error = none →
      (updateOutput origin o output).Agrees
        (called ++ (origin.toList.flatMap fun r => output.filterMap (Output.introduces r)))
        results := by
  induction output with
  | nil =>
    intro o called results h _ _
    cases origin <;> simpa [updateOutput] using h
  | cons item rest ih =>
    intro o called results h herror hnone
    rcases hitem : o.updateItem origin item with violation | o'
    · simp [updateOutput, hitem] at hnone
    · simp only [updateOutput, hitem] at hnone ⊢
      obtain ⟨hitem', herror'⟩ := updateItem_agrees h hitem
      have hrest := ih hitem' (herror'.trans herror) hnone
      cases origin with
      | none => simpa using hrest
      | some origin =>
        cases hintroduces : Output.introduces origin item <;>
          simpa [hintroduces] using hrest

theorem Agrees.complete {o o' : Order} {called : List CallRef} {results results' : CallRef → Nat}
    {x : CallRef} (h : o.Agrees called results) (hx : x ∈ o.pending)
    (hpending : o.pending.Perm (x :: o'.pending)) (hcompleted : o'.completed = x :: o.completed)
    (hresults : ∀ y, results' y = results y + if y = x then 1 else 0) :
    o'.Agrees called results' := by
  have hdistinct : (x :: (o'.pending ++ o.completed)).Nodup :=
    (hpending.append_right o.completed).nodup_iff.mp h.distinct
  refine ⟨fun y => ?_, h.unique, ?_, fun y => ?_⟩
  · rw [h.mem_called, hpending.mem_iff, hcompleted, List.mem_cons, List.mem_cons]
    grind
  · rw [hcompleted]
    exact List.perm_middle.nodup_iff.mpr hdistinct
  · have hfresh : x ∉ o.completed := fun hmem =>
      (List.nodup_cons.mp hdistinct).1 (List.mem_append_right _ hmem)
    rw [hresults, h.results, hcompleted]
    by_cases hyx : y = x
    · subst hyx
      simp [hfresh]
    · simp [hyx]

private theorem perm_erase_filter {α : Type} [DecidableEq α] {x : α} {xs : List α} (hx : x ∈ xs)
    (hnodup : xs.Nodup) : xs.Perm (x :: xs.filter (fun y => y ≠ x)) := by
  have hperm := List.perm_cons_erase hx
  rw [hnodup.erase_eq_filter] at hperm
  have hfilter : xs.filter (fun y => y != x) = xs.filter fun y => y ≠ x :=
    List.filter_congr fun y _ => by simp [bne, beq_eq_decide]
  rwa [hfilter] at hperm

private theorem completeDelegation_agrees {o : Order} {called : List CallRef}
    {results results' : CallRef → Nat} {x : CallRef} (h : o.Agrees called results)
    (hx : x ∈ o.delegations)
    (hresults : ∀ y, results' y = results y + if y = x then 1 else 0) :
    (o.completeDelegation x).Agrees called results' := by
  have hnodup : o.delegations.Nodup :=
    (List.nodup_append.mp (List.nodup_append.mp h.distinct).1).2.1
  refine h.complete (List.mem_append_right _ hx) ?_ rfl hresults
  exact ((perm_erase_filter hx hnodup).append_left _).trans List.perm_middle

private theorem completeCall_agrees {o : Order} {called : List CallRef}
    {results results' : CallRef → Nat} {x : CallRef} (h : o.Agrees called results)
    (hx : x ∈ o.calls.map Prod.fst)
    (hresults : ∀ y, results' y = results y + if y = x then 1 else 0) :
    (o.completeCall x).Agrees called results' := by
  have hnodup : (o.calls.map Prod.fst).Nodup :=
    (List.nodup_append.mp (List.nodup_append.mp h.distinct).1).1
  refine h.complete (List.mem_append_left _ hx) ?_ rfl hresults
  have hfilter : (o.calls.filter fun c => c.1 ≠ x).map Prod.fst =
      (o.calls.map Prod.fst).filter fun y => y ≠ x := by
    rw [List.filter_map]
    rfl
  change (o.calls.map Prod.fst ++ o.delegations).Perm
    (x :: ((o.calls.filter fun c => c.1 ≠ x).map Prod.fst ++ o.delegations))
  rw [hfilter]
  exact (perm_erase_filter hx hnodup).append_right _

theorem pendingCall_some {o : Order} {x : CallRef} {call : RuntimeToolCall}
    (h : o.pendingCall x = some call) : (x, call) ∈ o.calls := by
  unfold pendingCall at h
  obtain ⟨c, hfind, rfl⟩ := Option.map_eq_some_iff.mp h
  have hx : c.1 = x := by simpa using List.find?_some hfind
  rw [← hx]
  exact List.mem_of_find?_eq_some hfind

theorem update_agrees {o : Order} {called : List CallRef} {results : CallRef → Nat}
    {entry : HistoryEntry} {index : Nat} (h : o.Agrees called results) (herror : o.error = none)
    (hnone : (o.update entry index).error = none) :
    (o.update entry index).Agrees (called ++ entry.called)
      (fun x => results x + if entry.resolved = some x then 1 else 0) := by
  obtain ⟨id, origin, message⟩ := entry
  unfold update at hnone ⊢
  split at hnone
  · cases hnone
  rename_i hfresh
  rw [if_neg hfresh]
  have hindexed : ({ o with ids := (id, index) :: o.ids } : Order).Agrees called results :=
    ⟨h.mem_called, h.unique, h.distinct, h.results⟩
  cases message with
  | assistant output data =>
    have hout := updateOutput_agrees output hindexed herror hnone
    cases origin <;> simpa [HistoryEntry.called, HistoryEntry.resolved] using hout
  | delegationResult callId outcome =>
    cases origin with
    | none => cases hnone
    | some origin =>
      simp only at hnone ⊢
      split at hnone
      · cases hnone
      · rename_i hpending
        rw [if_neg hpending]
        simp only [not_or, not_not] at hpending
        have hcalled : HistoryEntry.called ⟨id, some origin, .delegationResult callId outcome⟩ =
            [] := rfl
        rw [hcalled, List.append_nil]
        exact completeDelegation_agrees hindexed hpending.2 fun y => by
          simp [HistoryEntry.resolved, eq_comm]
  | runtimeTool callId name outcome =>
    cases origin with
    | none => cases hnone
    | some origin =>
      simp only at hnone ⊢
      cases hcall : ({ o with ids := (id, index) :: o.ids } : Order).pendingCall origin with
      | none => simp [hcall] at hnone
      | some call =>
        simp only [hcall] at hnone ⊢
        split at hnone
        · cases hnone
        · rename_i hmatch
          rw [if_neg hmatch]
          have hcalled : HistoryEntry.called ⟨id, some origin, .runtimeTool callId name outcome⟩ =
              [] := rfl
          rw [hcalled, List.append_nil]
          have hmem : origin ∈ o.calls.map Prod.fst :=
            List.mem_map_of_mem (pendingCall_some hcall)
          exact completeCall_agrees hindexed hmem fun y => by
            simp [HistoryEntry.resolved, eq_comm]
  | system content => simpa [HistoryEntry.called, HistoryEntry.resolved] using hindexed
  | user content => simpa [HistoryEntry.called, HistoryEntry.resolved] using hindexed
  | external content => simpa [HistoryEntry.called, HistoryEntry.resolved] using hindexed

theorem append_error {o : Order} {entry : HistoryEntry} {index : Nat}
    (h : (o.append entry index).error = none) : o.error = none := by
  unfold append at h
  split at h
  · rename_i herror
    simpa using herror
  · exact h

theorem index_agrees (entries : List HistoryEntry) (h : (index entries).error = none) :
    (index entries).Agrees (calledIn entries) fun x => resultsOf x entries := by
  induction entries using List.reverseRecOn with
  | nil => exact ⟨by simp [index, pending, calledIn], by simp [calledIn],
      by simp [index, pending], by simp [index, resultsOf]⟩
  | append_singleton entries entry ih =>
    rw [index_append_single] at h ⊢
    have herror := append_error h
    have hprevious := ih herror
    unfold append at h ⊢
    simp only [herror, Option.isNone_none, if_true] at h ⊢
    have hupdate := update_agrees hprevious herror h
    simpa [calledIn, resultsOf, List.countP_append, List.countP_cons] using hupdate

end Order

theorem introduces_unique {origin x : CallRef} {output : List Output} {a b : Output}
    (hunique : (output.filterMap (Output.introduces origin)).Nodup) (ha : a ∈ output)
    (hb : b ∈ output) (hxa : a.introduces origin = some x) (hxb : b.introduces origin = some x) :
    a = b := by
  induction output with
  | nil => cases ha
  | cons item rest ih =>
    have hmem : ∀ item ∈ rest, item.introduces origin = some x →
        x ∈ rest.filterMap (Output.introduces origin) := fun item hitem hx =>
      List.mem_filterMap.mpr ⟨item, hitem, hx⟩
    rcases List.mem_cons.mp ha with rfl | harest <;> rcases List.mem_cons.mp hb with rfl | hbrest
    · rfl
    · rw [List.filterMap_cons, hxa] at hunique
      exact absurd (hmem b hbrest hxb) (List.nodup_cons.mp hunique).1
    · rw [List.filterMap_cons, hxb] at hunique
      exact absurd (hmem a harest hxa) (List.nodup_cons.mp hunique).1
    · refine ih ?_ harest hbrest
      rw [List.filterMap_cons] at hunique
      split at hunique
      · exact hunique
      · exact (List.nodup_cons.mp hunique).2

namespace Checkpoint

theorem Valid.agrees {c : Checkpoint} (h : c.Valid) :
    c.history.order.Agrees (calledIn c.history.entries) fun x => resultsOf x c.history.entries := by
  have hordered := h.ordered
  rw [c.history.indexed] at hordered ⊢
  exact Order.index_agrees _ hordered

theorem Valid.called_nodup {c : Checkpoint} (h : c.Valid) {i : Nat} {entry : HistoryEntry}
    (hentry : c.history.get i = some entry) : entry.called.Nodup :=
  (List.sublist_flatten_of_mem (List.mem_map_of_mem (List.mem_of_getElem? hentry))).nodup
    h.agrees.unique

end Checkpoint

end Zhir.Core
