import Zhir.Kernel.AdmissionMoves

/-!
Approval decisions and the recovery of started operations as chains of moves.
-/

set_option autoImplicit false
set_option relaxedAutoImplicit false

namespace Zhir.Kernel

open Zhir.Core
open Zhir.Library (Program)
open Zhir.Library.Program

variable {cfg : Config} {cause : Cause} {fault : Engine → Error → Engine → Prop} {e : Engine}
  {w : World}

theorem steps_limitRun (hfault : Failing cfg cause fault) (hw : e.world.Counted w)
    {reason : LimitReason} (hreason : reason = .generationRequests ∨ reason = .runtimeToolCalls) :
    Steps cfg cause fault e (limitRun cfg reason) w :=
  steps_read_bind (steps_save hfault hw (.limit hreason))

private theorem queuedRecord_some {id : OperationId} {c : Checkpoint} {record : OperationRecord}
    (h : queuedRecord id c = some record) :
    c.active.operations[id]? = some record ∧ record.state = .queued := by
  obtain ⟨hrecord, hstate⟩ := Option.filter_eq_some_iff.mp h
  exact ⟨hrecord, by simpa using hstate⟩

/-- An approved call is marked and started, or left marked when an interruption comes between. -/
private theorem steps_startAdmitted (hw : e.world.Counted w) {binding : Binding}
    {bindings : List Binding} {decisions : Result (List ApprovalDecision)}
    {record : OperationRecord}
    (hrecord : e.current.active.operations[binding.id]? = some record)
    (hqueued : record.state = .queued) (hdue : e.Due bindings binding)
    (hhandling : e.handling = some (.admitted bindings decisions)) :
    Steps cfg cause (Fault cfg cause) e (startAdmitted cfg binding record) w := by
  have hfault := fault_failing cfg cause
  refine steps_read_bind ?_
  let saved := e.saved cfg w (stageAdmitted binding.id record e.current)
    (.operation binding.id .running)
  refine steps_commit_bind hfault hw (fun haccepts => ?_) fun haccepts => ?_
  · refine ⟨_, .start hw hrecord hqueued hdue hhandling haccepts (World.Counted.refl _), rfl⟩
  · refine chains_bind_quiet ?_ ?_
    · intro error e' hr
      simp only [Program.run, check] at hr
      split at hr
      · simp at hr
      · cases hr
        refine ⟨e, .refl, ?_⟩
        exact .unstarted hw hrecord hqueued hdue hhandling haccepts rfl rfl
          (World.Counted.refl _).tick
    · intro u e' hr
      simp only [Program.run, check] at hr
      split at hr
      · cases hr
        refine chains_modify (.single ?_)
        exact .start hw hrecord hqueued hdue hhandling haccepts (World.Counted.refl _).tick
      · simp at hr

/-- No call has joined the queue, and this one is not in it. -/
def Unqueues (id : OperationId) (e e' : Engine) : Prop :=
  ∀ other op, QueuedCall e'.current other op → QueuedCall e.current other op ∧ other ≠ id

private theorem getElem?_insert_cases {id other : OperationId} {op op' : OperationRecord}
    {table : Std.ExtTreeMap OperationId OperationRecord}
    (h : (table.insert id op)[other]? = some op') :
    other = id ∧ op' = op ∨ other ≠ id ∧ table[other]? = some op' := by
  rw [Std.ExtTreeMap.getElem?_insert] at h
  split at h
  · rename_i heq
    cases h
    exact .inl ⟨(Std.LawfulEqCmp.eq_of_compare heq).symm, rfl⟩
  · rename_i hne
    exact .inr ⟨fun heq => hne (heq ▸ Std.ReflCmp.compare_self), h⟩

private theorem run_check_ok {e' : Engine} {u : Unit}
    (h : Program.run (check cfg) e = (.ok u, e')) :
    e'.current = e.current := by
  simp only [Program.run, check] at h
  split at h
  · cases h
    rfl
  · cases h

private theorem run_startAdmitted_ok {binding : Binding} {record : OperationRecord} {e' : Engine}
    {u : Unit} (h : Program.run (startAdmitted cfg binding record) e = (.ok u, e')) :
    Unqueues binding.id e e' := by
  obtain ⟨_, _, hread, h⟩ := run_bind_ok h
  cases hread
  obtain ⟨_, e₁, hcommit, h⟩ := run_bind_ok h
  obtain ⟨rfl, -⟩ := run_commit_ok hcommit
  obtain ⟨_, e₂, hcheck, h⟩ := run_bind_ok h
  have hcurrent := run_check_ok hcheck
  cases h
  rintro other op ⟨hop, hqueued, howner⟩
  change e₂.current.active.operations[other]? = some op at hop
  rw [hcurrent] at hop
  rcases getElem?_insert_cases hop with ⟨rfl, rfl⟩ | ⟨hne, hold⟩
  · cases hqueued
  · exact ⟨⟨hold, hqueued, howner⟩, hne⟩

private theorem run_finishProvider_ok {record : OperationRecord} {outcome : OperationOutcome}
    {sequence : Option Nat} {e' : Engine} {u : Unit}
    (h : Program.run (finishProvider cfg record outcome sequence) e = (.ok u, e')) :
    ∃ index, e'.current.active.operations =
      e.current.active.operations.insert record.id (settled record outcome sequence index) := by
  obtain ⟨_, _, hread, h⟩ := run_bind_ok h
  cases hread
  obtain ⟨entry, -, h⟩ := run_lift_bind_ok h
  obtain ⟨commandId, e₁, hid, h⟩ := run_bind_ok h
  cases hid
  obtain ⟨next, hstage, h⟩ := run_lift_bind_ok h
  obtain ⟨rfl, -⟩ := run_commit_ok h
  obtain ⟨history, -, rfl⟩ := stageFinishProvider_ok hstage
  exact ⟨_, rfl⟩

private theorem run_finish_unqueues {id : OperationId} {record : OperationRecord}
    {outcome : OperationOutcome} {e' : Engine} {u : Unit}
    (hrecord : e.current.active.operations[id]? = some record) (hqueued : record.state = .queued)
    (h : Program.run (finish cfg id outcome) e = (.ok u, e')) : Unqueues id e e' := by
  have hstate : record.state.terminal = false := by rw [hqueued]; rfl
  rintro other op ⟨hop, hopen, howner⟩
  cases hhost : record.owner.host with
  | true =>
    have hsettles := run_finishAt_host_ok hrecord hstate hhost h
    by_cases hid : other = id
    · subst hid
      have hterminal := hsettles.settled op hop
      rw [hopen] at hterminal
      cases hterminal
    · rw [hsettles.others other hid] at hop
      exact ⟨⟨hop, hopen, howner⟩, hid⟩
  | false =>
    obtain ⟨_, -, h⟩ := run_lift_bind_ok h
    obtain ⟨_, _, hread, h⟩ := run_bind_ok h
    cases hread
    simp only [hrecord, hstate, hhost, Bool.false_eq_true, if_false] at h
    obtain ⟨index, hoperations⟩ := run_finishProvider_ok h
    rw [hoperations] at hop
    rcases getElem?_insert_cases hop with ⟨-, rfl⟩ | ⟨-, hold⟩
    · cases outcome <;> cases hopen
    · refine ⟨⟨hold, hopen, howner⟩, fun hid => ?_⟩
      rw [hid, hrecord] at hold
      cases hold
      obtain ⟨name, howner⟩ := howner
      rw [howner] at hhost
      cases hhost

/-- The decisions still to be applied: those before them have left the queue. -/
structure Deciding (bindings : List Binding) (pairs : List (Binding × ApprovalDecision))
    (e : Engine) : Prop where
  order : ∃ before after, bindings = before ++ (pairs.map Prod.fst ++ after) ∧
    ∀ b ∈ before, ∀ op, ¬ QueuedCall e.current b.id op
  settled : ∀ p ∈ pairs, ApprovalDecision.suspension p.2 = none

namespace Deciding

variable {bindings : List Binding} {binding : Binding} {decision : ApprovalDecision}
  {rest : List (Binding × ApprovalDecision)}

theorem due (h : Deciding bindings ((binding, decision) :: rest) e) : e.Due bindings binding := by
  obtain ⟨before, after, hsplit, hbefore⟩ := h.order
  exact ⟨before, rest.map Prod.fst ++ after, hsplit, hbefore⟩

theorem next {e' : Engine} (h : Deciding bindings ((binding, decision) :: rest) e)
    (hunqueues : Unqueues binding.id e e') : Deciding bindings rest e' := by
  obtain ⟨before, after, hsplit, hbefore⟩ := h.order
  refine ⟨⟨before ++ [binding], after, ?_, fun b hb op hop => ?_⟩,
    fun p hp => h.settled p (List.mem_cons_of_mem _ hp)⟩
  · rw [hsplit, List.append_assoc]
    rfl
  · obtain ⟨hold, hne⟩ := hunqueues b.id op hop
    rcases List.mem_append.mp hb with hb | hb
    · exact hbefore b hb op hold
    · rw [List.mem_singleton.mp hb] at hne
      exact hne rfl

end Deciding

private theorem steps_applyDecisions {bindings : List Binding}
    {decisions : Result (List ApprovalDecision)}
    (hhandling : e.handling = some (.admitted bindings decisions))
    (pairs : List (Binding × ApprovalDecision)) (hdeciding : Deciding bindings pairs e) :
    Steps cfg cause (Fault cfg cause) e (applyDecisions cfg pairs) e.world := by
  have hfault := fault_failing cfg cause
  induction pairs generalizing e with
  | nil => exact steps_pure (.refl _)
  | cons p rest ih =>
    obtain ⟨binding, decision⟩ := p
    refine steps_read_bind ?_
    rw [Engine.inWorld_self]
    split
    · rename_i hnone
      refine ih hhandling (hdeciding.next fun other op hop => ⟨hop, fun hid => ?_⟩)
      obtain ⟨hrecord, hqueued, -⟩ := hop
      rw [hid] at hrecord
      rw [queuedRecord, hrecord, Option.filter_some, if_pos (by simpa using hqueued)] at hnone
      cases hnone
    · rename_i record hrecord
      obtain ⟨hrecord, hqueued⟩ := queuedRecord_some hrecord
      cases decision with
      | allow =>
        refine steps_check_bind hfault (.refl _) fun w hw _ => ?_
        refine steps_ite (fun _ => steps_limitRun hfault hw (.inr rfl)) fun _ => ?_
        refine steps_bind (steps_startAdmitted hw hrecord hqueued hdeciding.due hhandling) ?_
        intro _ e' hrun hmoves
        have hunqueues : Unqueues binding.id e e' := run_startAdmitted_ok (e := e.inWorld w) hrun
        exact ih (hmoves.handling.trans hhandling) (hdeciding.next hunqueues)
      | deny reason =>
        refine steps_bind (steps_finish hfault (.refl _) _ _) ?_
        intro _ e' hrun hmoves
        exact ih (hmoves.handling.trans hhandling)
          (hdeciding.next (run_finish_unqueues hrecord hqueued hrun))
      | suspend suspension =>
        cases hdeciding.settled _ List.mem_cons_self

theorem steps_admitted {bindings : List Binding} {decisions : Result (List ApprovalDecision)}
    (hhandling : e.handling = some (.admitted bindings decisions)) :
    Steps cfg cause (Fault cfg cause) e (admitted cfg bindings decisions) e.world := by
  have hfault := fault_failing cfg cause
  refine steps_lift_bind hfault (.refl _) fun list _ => ?_
  refine steps_require_bind hfault (.refl _) fun hlength => ?_
  refine steps_modify_bind (.single (.release hhandling)) ?_
  refine steps_read_bind ?_
  split
  · exact steps_save hfault (.refl _) .suspend
  · rename_i hnone
    have hreleased : (e.release (bindings.map Binding.id)).handling =
        some (.admitted bindings decisions) := hhandling
    refine steps_applyDecisions hreleased _ ⟨⟨[], [], ?_, by simp⟩, fun p hp => ?_⟩
    · rw [List.map_fst_zip (by omega)]
      simp
    · exact List.findSome?_eq_none_iff.mp hnone p.2 (List.of_mem_zip hp).2

/-- The operations still to be attached to are as they were. -/
structure Recovering (rest : List OperationRecord) (e : Engine) : Prop where
  distinct : (rest.map OperationRecord.id).Nodup
  records : ∀ r ∈ rest, e.current.active.operations[r.id]? = some r ∧
    (r.state = .running ∨ r.state = .waiting ∨ r.state = .cancelling)

private theorem steps_recoverOperation (hfault : Failing cfg cause fault) {record : OperationRecord}
    (hrecord : e.current.active.operations[record.id]? = some record)
    (hstate : record.state = .running ∨ record.state = .waiting ∨ record.state = .cancelling) :
    Steps cfg cause fault e (recoverOperation cfg record) e.world := by
  have hbegun : ∀ other, e.current.active.operations[record.id]? = some other →
      e.Begun record.id other := by
    intro other hother
    obtain rfl : record = other := Option.some.inj (hrecord.symm.trans hother)
    refine .inl ?_
    rcases hstate with h | h | h <;> rw [h] <;> decide
  unfold recoverOperation
  split
  · refine steps_ite (fun _ => ?_) fun _ => steps_unknown hfault (.refl _) hbegun
    exact steps_modify (.single (.recover hrecord hstate))
  · refine steps_read_bind ?_
    refine steps_lift_bind hfault (.refl _) fun call _ => ?_
    unfold bindCall
    rw [bind_assoc]
    refine steps_read_bind ?_
    refine steps_ask_bind (.refl _) fun w n hw _ => ?_
    split
    · refine steps_check_bind hfault hw fun w' hw' _ => ?_
      refine steps_modify ?_
      exact (moves_count hw').trans (.single (.recover hrecord hstate))
    · exact steps_unknown hfault hw hbegun
  · exact steps_pure (.refl _)

theorem run_recoverOperation_ok {record : OperationRecord} {e' : Engine} {u : Unit}
    (h : Program.run (recoverOperation cfg record) e = (.ok u, e')) :
    ∀ other, other ≠ record.id →
      e'.current.active.operations[other]? = e.current.active.operations[other]? := by
  have hunknown : ∀ {e e' : Engine} {reason : String} {u : Unit},
      Program.run (unknown cfg record.id reason) e = (.ok u, e') → ∀ other, other ≠ record.id →
        e'.current.active.operations[other]? = e.current.active.operations[other]? := by
    intro e e' reason u h other hother
    obtain ⟨op, -, -, rfl⟩ := run_localOperationUpdate_ok h
    change (e.current.active.operations.insert record.id _)[other]? = _
    rw [Std.ExtTreeMap.getElem?_insert]
    have hne : compare record.id other ≠ .eq := fun h =>
      hother (Std.LawfulEqCmp.eq_of_compare h).symm
    simp [hne]
  unfold recoverOperation at h
  split at h
  · rw [run_ite] at h
    split at h
    · cases h
      exact fun _ _ => rfl
    · exact hunknown h
  · obtain ⟨_, _, hread, h⟩ := run_bind_ok h
    cases hread
    obtain ⟨call, -, h⟩ := run_lift_bind_ok h
    obtain ⟨bound, e₁, hbound, h⟩ := run_bind_ok h
    have hcurrent : e₁.current = e.current := by
      cases hbound
      rfl
    split at h
    · obtain ⟨_, e₂, hcheck, h⟩ := run_bind_ok h
      have hcurrent₂ : e₂.current = e₁.current := by
        simp only [Program.run, check] at hcheck
        split at hcheck
        · cases hcheck
          rfl
        · cases hcheck
      cases h
      intro other _
      change e₂.current.active.operations[other]? = _
      rw [hcurrent₂, hcurrent]
    · intro other hother
      rw [hunknown h other hother, hcurrent]
  · cases h
    exact fun _ _ => rfl

theorem recovering_of_valid (hvalid : e.current.Valid) : Recovering (recovering e.current) e := by
  have hkeys : ∀ p ∈ e.current.active.operations.toList, p.2.id = p.1 := fun p hp =>
    (hvalid.operations p.1 p.2 (Std.ExtTreeMap.mem_toList_iff_getElem?_eq_some.mp hp)).key
  refine ⟨?_, ?_⟩
  · have hids : (e.current.active.operations.toList.map Prod.snd).map OperationRecord.id =
        e.current.active.operations.keys := by
      rw [← Std.ExtTreeMap.map_fst_toList_eq_keys, List.map_map]
      exact List.map_congr_left hkeys
    refine (List.filter_sublist.map OperationRecord.id).nodup ?_
    rw [hids]
    exact Std.ExtTreeMap.nodup_keys
  · intro r hr
    obtain ⟨hmem, hcond⟩ := List.mem_filter.mp hr
    obtain ⟨⟨id, record⟩, hp, rfl⟩ := List.mem_map.mp hmem
    have hkey := hkeys _ hp
    simp only at hkey
    simp only [Bool.or_eq_true, decide_eq_true_eq] at hcond
    rw [hkey]
    exact ⟨Std.ExtTreeMap.mem_toList_iff_getElem?_eq_some.mp hp, or_assoc.mp hcond⟩

theorem steps_recoverOperations (hfault : Failing cfg cause fault) (hvalid : e.current.Valid) :
    Steps cfg cause fault e (recoverOperations cfg) e.world := by
  refine steps_read_bind ?_
  refine steps_forEach Recovering (fun r rest e h => ?_) ?_
  · obtain ⟨hrecord, hstate⟩ := h.records r List.mem_cons_self
    refine ⟨steps_recoverOperation hfault hrecord hstate, fun u e' hrun => ?_⟩
    obtain ⟨hfresh, hdistinct⟩ := List.nodup_cons.mp h.distinct
    refine ⟨hdistinct, fun other hother => ?_⟩
    have hne : other.id ≠ r.id := fun heq => hfresh (heq ▸ List.mem_map_of_mem hother)
    rw [run_recoverOperation_ok hrun _ hne]
    exact h.records other (List.mem_cons_of_mem _ hother)
  · rw [Engine.inWorld_self]
    exact recovering_of_valid hvalid

end Zhir.Kernel
