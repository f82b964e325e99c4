import Mathlib.Data.List.Flatten
import Zhir.Core.Pairing

/-!
Entries kept of a paired history are paired as long as no result is kept without its call.
-/

set_option autoImplicit false
set_option relaxedAutoImplicit false

namespace Zhir.Core

variable {entries kept : List HistoryEntry} {entry : HistoryEntry}

private theorem introduces_perm (origin : CallRef) (output : List Output) :
    (output.filterMap (Output.introduces origin)).Perm
      ((output.filterMap (Output.asCall origin)).map Prod.fst ++
        output.filterMap (Output.asDelegation origin)) := by
  induction output with
  | nil => rfl
  | cons item rest ih =>
    cases item with
    | runtimeToolCall call => exact ih.cons _
    | delegation request => exact (ih.cons _).trans List.perm_middle.symm
    | _ => exact ih

private theorem called_perm (entry : HistoryEntry) :
    entry.called.Perm (entry.calls.map Prod.fst ++ entry.delegated) := by
  obtain ⟨id, origin, message⟩ := entry
  cases message with
  | assistant output data =>
    cases origin with
    | none => rfl
    | some origin => exact introduces_perm origin output
  | _ => rfl

private theorem calledIn_perm (entries : List HistoryEntry) :
    (calledIn entries).Perm
      ((entries.flatMap HistoryEntry.calls).map Prod.fst ++
        entries.flatMap HistoryEntry.delegated) := by
  induction entries with
  | nil => rfl
  | cons entry rest ih =>
    have hcons : calledIn (entry :: rest) = entry.called ++ calledIn rest := rfl
    rw [hcons, List.flatMap_cons, List.flatMap_cons, List.map_append]
    refine ((called_perm entry).append ih).trans ?_
    rw [List.append_assoc, List.append_assoc]
    refine List.Perm.append_left _ ?_
    rw [← List.append_assoc, ← List.append_assoc]
    exact List.Perm.append_right _ List.perm_append_comm

theorem HistoryEntry.Matches.called {before : List HistoryEntry} (h : entry.Matches before)
    {x : CallRef} (hx : entry.resolved = some x) : x ∈ calledIn before := by
  obtain ⟨id, origin, message⟩ := entry
  cases message with
  | runtimeTool callId name outcome =>
    obtain ⟨x', horigin, hcount⟩ := h
    obtain rfl : x' = x := Option.some.inj (horigin.symm.trans hx)
    obtain ⟨c, hc, hmatch⟩ := List.countP_pos_iff.mp (Nat.lt_of_lt_of_eq Nat.one_pos hcount.symm)
    refine (calledIn_perm before).symm.subset (List.mem_append_left _ ?_)
    rw [← (of_decide_eq_true hmatch).1]
    exact List.mem_map_of_mem (List.mem_filter.mp hc).1
  | delegationResult callId outcome =>
    obtain ⟨x', horigin, hcount⟩ := h
    obtain rfl : x' = x := Option.some.inj (horigin.symm.trans hx)
    obtain ⟨d, hd, hmatch⟩ := List.countP_pos_iff.mp (Nat.lt_of_lt_of_eq Nat.one_pos hcount.symm)
    refine (calledIn_perm before).symm.subset (List.mem_append_right _ ?_)
    rw [← (of_decide_eq_true hmatch).1]
    exact (List.mem_filter.mp hd).1
  | _ => cases hx

/-- Fewer entries before a result leave its match alone, as long as its call is among them. -/
theorem HistoryEntry.Matches.sublist {before all : List HistoryEntry} (h : entry.Matches all)
    (hsub : before.Sublist all) (hunique : (calledIn all).Nodup)
    (hcalled : ∀ x, entry.resolved = some x → x ∈ calledIn before) : entry.Matches before := by
  have hkeys := (calledIn_perm all).nodup_iff.mp hunique
  obtain ⟨hcallKeys, hdelegatedKeys, hdisjoint⟩ := List.nodup_append.mp hkeys
  have hcallsSub : (before.flatMap HistoryEntry.calls).Sublist (all.flatMap HistoryEntry.calls) :=
    hsub.flatMap _
  have hdelegatedSub : (before.flatMap HistoryEntry.delegated).Sublist
      (all.flatMap HistoryEntry.delegated) := hsub.flatMap _
  have hunsettled : ∀ x, x ∉ settledIn all → x ∉ settledIn before := fun x hx hmem =>
    hx ((hsub.filterMap _).subset hmem)
  obtain ⟨id, origin, message⟩ := entry
  cases message with
  | runtimeTool callId name outcome =>
    obtain ⟨x, horigin, hcount⟩ := h
    refine ⟨x, horigin, ?_⟩
    have hopen : ((openCalls before).map Prod.fst).Nodup :=
      (hcallKeys.sublist (hcallsSub.map _)).sublist (List.filter_sublist.map _)
    obtain ⟨c, hc, hmatch⟩ := List.countP_pos_iff.mp (Nat.lt_of_lt_of_eq Nat.one_pos hcount.symm)
    obtain ⟨hkey, hsame⟩ := of_decide_eq_true hmatch
    obtain ⟨hcall, hsettled⟩ := List.mem_filter.mp hc
    refine (Order.countP_one_iff hopen x (fun c => c.2.id = callId ∧ c.2.name = name)).mpr
      ⟨c, ?_, hkey, hsame⟩
    refine List.mem_filter.mpr ⟨?_, decide_eq_true (hunsettled _ (of_decide_eq_true hsettled))⟩
    rcases List.mem_append.mp ((calledIn_perm before).subset (hcalled x horigin)) with hmem | hmem
    · obtain ⟨c', hc', hkey'⟩ := List.mem_map.mp hmem
      have heq := List.inj_on_of_nodup_map hcallKeys hcall (hcallsSub.subset hc')
        (hkey.trans hkey'.symm)
      rw [heq]
      exact hc'
    · exact absurd rfl (hdisjoint x (hkey ▸ List.mem_map_of_mem hcall) x
        (hdelegatedSub.subset hmem))
  | delegationResult callId outcome =>
    obtain ⟨x, horigin, hcount⟩ := h
    refine ⟨x, horigin, ?_⟩
    have hopen : ((openDelegations before).map fun d => d).Nodup := by
      rw [List.map_id']
      exact (hdelegatedKeys.sublist hdelegatedSub).sublist List.filter_sublist
    obtain ⟨d, hd, hmatch⟩ := List.countP_pos_iff.mp (Nat.lt_of_lt_of_eq Nat.one_pos hcount.symm)
    obtain ⟨rfl, hsame⟩ := of_decide_eq_true hmatch
    obtain ⟨hdelegated, hsettled⟩ := List.mem_filter.mp hd
    refine (Order.countP_one_iff hopen d (fun d => d.callId = callId)).mpr ⟨d, ?_, rfl, hsame⟩
    refine List.mem_filter.mpr ⟨?_, decide_eq_true (hunsettled _ (of_decide_eq_true hsettled))⟩
    rcases List.mem_append.mp ((calledIn_perm before).subset (hcalled d horigin)) with hmem | hmem
    · exact absurd rfl (hdisjoint d ((hcallsSub.map _).subset hmem) d hdelegated)
    · exact hmem
  | _ => trivial

/-- Of a paired list some entries are paired exactly when no result among them lost its call. -/
theorem paired_sublist_iff (h : Paired entries) (hsub : kept.Sublist entries) :
    Paired kept ↔ ∀ entry ∈ kept, ∀ x, entry.resolved = some x → x ∈ calledIn kept := by
  constructor
  · intro hkept entry hentry x hx
    obtain ⟨before, after, rfl⟩ := List.append_of_mem hentry
    have hcalled := (hkept.matched before entry after rfl).called hx
    unfold calledIn at hcalled ⊢
    rw [List.flatMap_append]
    exact List.mem_append_left _ hcalled
  · intro hcalls
    refine ⟨h.unique.sublist (hsub.map _), fun e he => h.originated e (hsub.subset he),
      h.distinct.sublist (hsub.flatMap _), ?_⟩
    rintro before entry after rfl
    obtain ⟨first, rest, rfl, hbefore, hrest⟩ := List.append_sublist_iff.mp hsub
    obtain ⟨passed, later, rfl, hentry, hafter⟩ := List.cons_sublist_iff.mp hrest
    obtain ⟨earlier, between, rfl⟩ := List.append_of_mem hentry
    have hsplit : first ++ ((earlier ++ entry :: between) ++ later) =
        (first ++ earlier) ++ entry :: (between ++ later) := by simp
    have hmatches := h.matched (first ++ earlier) entry (between ++ later) hsplit
    have hdistinct := h.distinct
    rw [hsplit] at hdistinct
    unfold calledIn at hdistinct
    rw [List.flatMap_append] at hdistinct
    refine hmatches.sublist (hbefore.trans (List.sublist_append_left _ _))
      (List.nodup_append.mp hdistinct).1 fun x hx => ?_
    have hnone : entry.called = [] := by
      unfold HistoryEntry.resolved at hx
      unfold HistoryEntry.called
      split at hx <;> simp_all
    have hmem := hcalls entry (List.mem_append_right _ List.mem_cons_self) x hx
    unfold calledIn at hmem
    rw [List.flatMap_append, List.flatMap_cons, hnone, List.nil_append] at hmem
    rcases List.mem_append.mp hmem with hmem | hmem
    · exact hmem
    · have hlater : x ∈ (entry :: (between ++ later)).flatMap HistoryEntry.called := by
        have hkept := (hafter.trans (List.sublist_append_right between later)).cons entry
        exact (hkept.flatMap HistoryEntry.called).subset hmem
      exact absurd rfl ((List.nodup_append.mp hdistinct).2.2 x (hmatches.called hx) x hlater)

theorem fromEntries_of_valid {entries : List HistoryEntry}
    (hvalid : ∀ entry ∈ entries, entry.validate = .ok ()) :
    ∃ history, History.fromEntries entries = .ok history ∧ history.entries = entries := by
  have happend : ∀ (entries : List HistoryEntry) (h : History),
      (∀ entry ∈ entries, entry.validate = .ok ()) → ∃ h', h.append entries = .ok h' := by
    intro entries
    induction entries with
    | nil => exact fun h _ => ⟨h, rfl⟩
    | cons entry rest ih =>
      intro h hall
      obtain ⟨hentry, hrest⟩ := List.forall_mem_cons.mp hall
      obtain ⟨h', happend⟩ := ih (h.push entry) hrest
      exact ⟨h', Result.bind_of_ok hentry happend⟩
  obtain ⟨history, hfrom⟩ := happend entries {} hvalid
  exact ⟨history, hfrom, (fromEntries_entries hfrom).1⟩

theorem History.validate_cases (h : History) :
    h.validate = .ok () ∨ ∃ violation, h.validate = .error (.invalid violation) := by
  unfold History.validate
  split
  · exact .inr ⟨_, rfl⟩
  · split
    · exact .inr ⟨_, rfl⟩
    · exact .inl rfl

end Zhir.Core
