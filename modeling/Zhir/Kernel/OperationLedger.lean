import Zhir.Kernel.Commits

/-!
The operation table over a whole run: records join under fresh identities or under the
identities of provider calls, a record keeps its call, and one that has left the queue never
returns to it.
-/

set_option autoImplicit false
set_option relaxedAutoImplicit false

namespace Zhir.Kernel

open Zhir.Core
open Std (ExtTreeMap)

variable {cfg : Config}

/-- A provider's call, which is never queued. -/
def ProviderWork (id : OperationId) (op : OperationRecord) : Prop :=
  (∀ name, id ≠ .host name) ∧ op.state ≠ .queued

structure SameCall (op op' : OperationRecord) : Prop where
  owner : op'.owner = op.owner
  entry : op'.callEntry = op.callEntry

theorem SameCall.refl (op : OperationRecord) : SameCall op op := ⟨rfl, rfl⟩

theorem SameCall.trans {op op' op'' : OperationRecord} (h : SameCall op op')
    (h' : SameCall op' op'') : SameCall op op'' :=
  ⟨h'.owner.trans h.owner, h'.entry.trans h.entry⟩

variable (cfg) in
/-- Where the records of a checkpoint come from: an earlier checkpoint, the identities
generated since then for calls that have come since then, or a provider. -/
def Tables (n m : Nat) (c c' : Checkpoint) : Prop :=
  ∀ (id : OperationId) (op' : OperationRecord), c'.active.operations[id]? = some op' →
    (∃ op, c.active.operations[id]? = some op ∧ (op'.state = .queued → op.state = .queued) ∧
      SameCall op op') ∨
      (∃ k, n ≤ k ∧ k < m ∧ id = .host (cfg.name k)) ∧ c.history.len ≤ op'.callEntry ∨
        ProviderWork id op'

variable {c c' c'' : Checkpoint} {n k m : Nat}

namespace Tables

theorem trans (h : Tables cfg n k c c') (h' : Tables cfg k m c' c'') (hn : n ≤ k) (hm : k ≤ m)
    (hlen : c.history.len ≤ c'.history.len) : Tables cfg n m c c'' := by
  intro id op'' hop''
  rcases h' id op'' hop'' with ⟨op', hop', hqueued', hcall'⟩ |
    ⟨⟨j, hj, hjm, hid⟩, hentry⟩ | hprovider
  · rcases h id op' hop' with ⟨op, hop, hqueued, hcall⟩ | ⟨⟨j, hj, hjk, hid⟩, hentry⟩ |
      ⟨hhost, hstate⟩
    · exact .inl ⟨op, hop, fun h => hqueued (hqueued' h), hcall.trans hcall'⟩
    · exact .inr (.inl ⟨⟨j, hj, by omega, hid⟩, by rw [hcall'.entry]; exact hentry⟩)
    · exact .inr (.inr ⟨hhost, fun h => hstate (hqueued' h)⟩)
  · exact .inr (.inl ⟨⟨j, by omega, hjm, hid⟩, by omega⟩)
  · exact .inr (.inr hprovider)

theorem shrinks (h : ∀ (id : OperationId) (op : OperationRecord),
    c'.active.operations[id]? = some op → c.active.operations[id]? = some op) :
    Tables cfg n m c c' :=
  fun id op hop => .inl ⟨op, h id op hop, fun hqueued => hqueued, .refl op⟩

theorem same (h : c'.active.operations = c.active.operations) : Tables cfg n m c c' := by
  refine shrinks fun id op hop => ?_
  rw [← h]
  exact hop

theorem insert_cases {id other : OperationId} {op op' : OperationRecord}
    (h : c'.active.operations = c.active.operations.insert id op)
    (hop' : c'.active.operations[other]? = some op') :
    other = id ∧ op' = op ∨ c.active.operations[other]? = some op' := by
  rw [h, ExtTreeMap.getElem?_insert] at hop'
  split at hop'
  · rename_i heq
    cases hop'
    exact .inl ⟨(Std.LawfulEqCmp.eq_of_compare heq).symm, rfl⟩
  · exact .inr hop'

theorem replace {id : OperationId} {op op' : OperationRecord}
    (hop : c.active.operations[id]? = some op)
    (h : c'.active.operations = c.active.operations.insert id op')
    (hqueued : op'.state = .queued → op.state = .queued) (hcall : SameCall op op') :
    Tables cfg n m c c' := by
  intro other new hnew
  rcases insert_cases h hnew with ⟨rfl, rfl⟩ | hold
  · exact .inl ⟨op, hop, hqueued, hcall⟩
  · exact .inl ⟨new, hold, fun hqueued => hqueued, .refl new⟩

end Tables

theorem ofOutcome_ne_queued (outcome : OperationOutcome) :
    OperationState.ofOutcome outcome ≠ .queued := by
  cases outcome <;> exact fun h => by cases h

theorem applyUpdate_queued {op : OperationRecord} {event : OperationEvent}
    (h : (applyUpdate op event).state = .queued) : op.state = .queued := by
  unfold applyUpdate at h
  split at h <;> first | exact h | cases h

theorem applyUpdate_call (op : OperationRecord) (event : OperationEvent) :
    SameCall op (applyUpdate op event) := by
  unfold applyUpdate
  split <;> exact ⟨rfl, rfl⟩

private theorem tables_recordOutput {capabilities : CapabilitySet} {output : Output}
    {origin : CallRef}
    (h : recordOutput capabilities output origin (cfg.name k) c = .ok c') (hn : n ≤ k)
    (hm : k < m) : Tables cfg n m c c' := by
  have hnew : ∀ {op : OperationRecord}, c' = putOperation (.host (cfg.name k)) op c →
      op.callEntry = c.history.len → Tables cfg n m c c' := by
    intro op hc' hentry other new hop
    rw [hc'] at hop
    rcases Tables.insert_cases (c := c) rfl hop with ⟨rfl, rfl⟩ | hold
    · exact .inr (.inl ⟨⟨k, hn, hm, rfl⟩, by rw [hentry]⟩)
    · exact .inl ⟨new, hold, fun hqueued => hqueued, .refl new⟩
  cases output with
  | delegation request =>
    simp only [recordOutput] at h
    split at h
    · cases h
    · split at h
      · cases h
      · cases h
        exact hnew rfl rfl
  | runtimeToolCall call =>
    simp only [recordOutput] at h
    split at h
    · cases h
    · cases h
      exact hnew rfl rfl
  | providerToolCall call =>
    cases h
    intro other new hop
    rcases Tables.insert_cases (c := c) rfl hop with ⟨rfl, rfl⟩ | hold
    · refine .inr (.inr ⟨fun name hsame => OperationId.noConfusion hsame, ?_⟩)
      change providerState call.status ≠ .queued
      cases call.status <;> exact fun h => by cases h
    · exact .inl ⟨new, hold, fun hqueued => hqueued, .refl new⟩
  | content content =>
    cases h
    exact .same rfl

private theorem tables_stageEvent {e : Engine} {body : SessionEventBody} {commandId : String}
    (h : stageEvent cfg e body (cfg.name k) commandId c = .ok c') (hn : n ≤ k) (hm : k < m) :
    Tables cfg n m c c' := by
  rcases stageEvent_table h with hshrinks | ⟨o, recorded, -, hrecorded⟩
  · exact .shrinks hshrinks.record
  · have htables : Tables cfg n m c recorded := tables_recordOutput hrecorded.call hn hm
    intro id op hop
    rw [hrecorded.operations] at hop
    exact htables id op hop

theorem Staged.names {e : Engine} {events : List SessionEvent} (h : Staged cfg e n c events m c') :
    n ≤ m := by
  induction h with
  | nil hm => exact hm
  | cons hk _ _ ih => omega

theorem len_stageEvent {e : Engine} {body : SessionEventBody} {operationId commandId : String}
    (h : stageEvent cfg e body operationId commandId c = .ok c') :
    c.history.len ≤ c'.history.len := by
  rcases stageEvent_table h with hshrinks | ⟨o, recorded, -, hrecorded⟩
  · exact hshrinks.len
  · have hlen := hrecorded.len
    omega

theorem Staged.tables {e : Engine} {events : List SessionEvent}
    (h : Staged cfg e n c events m c') : Tables cfg n m c c' := by
  induction h with
  | nil _ => exact .same rfl
  | @cons n k m c c₁ c₂ event rest hk hstage hrest ih =>
    have hfirst : Tables cfg n (k + 2) (withSequence event.sequence c) c₁ :=
      tables_stageEvent hstage hk (by omega)
    have hlen : (withSequence event.sequence c).history.len ≤ c₁.history.len :=
      len_stageEvent hstage
    exact Tables.trans hfirst ih (by omega) hrest.names hlen

theorem Change.tables {cause : Cause} {e : Engine} {w : World} {next : Checkpoint} {fact : Fact}
    {delta : HistoryDelta} (h : Change cfg cause e w next fact delta) (hvalid : e.current.Valid) :
    Tables cfg n m e.current next := by
  cases h with
  | @prepare intent =>
    refine .same ?_
    cases intent <;> rfl
  | finish hrecord _ _ _ hstage =>
    obtain ⟨history, -, rfl⟩ := stageFinish_ok hstage
    exact .replace hrecord rfl (fun h => absurd h (ofOutcome_ne_queued _)) ⟨rfl, rfl⟩
  | finishProvider hrecord _ _ _ _ hstage =>
    obtain ⟨history, -, rfl⟩ := stageFinishProvider_ok hstage
    have hkey := (hvalid.operations _ _ hrecord).key
    rw [← hkey] at hrecord
    exact .replace hrecord rfl (fun h => absurd h (ofOutcome_ne_queued _)) ⟨rfl, rfl⟩
  | context hrecord _ _ _ => exact .replace hrecord rfl (fun h => h) ⟨rfl, rfl⟩
  | update hrecord _ _ _ => exact .replace hrecord rfl applyUpdate_queued (applyUpdate_call _ _)
  | lose hrecord _ _ => exact .replace hrecord rfl (fun h => by cases h) ⟨rfl, rfl⟩
  | replied hrecord _ _ => exact .replace hrecord rfl (fun h => by cases h) ⟨rfl, rfl⟩
  | install hrecord _ => exact .replace hrecord rfl (fun h => h) ⟨rfl, rfl⟩
  | attach _ _ hrecord _ => exact .replace hrecord rfl (fun h => by cases h) ⟨rfl, rfl⟩
  | cancelling _ hrecord _ _ => exact .replace hrecord rfl (fun h => by cases h) ⟨rfl, rfl⟩
  | insert _ _ _ _ hstage =>
    obtain ⟨-, rfl⟩ := stageInsert_ok hstage
    exact .same rfl
  | rewrite _ _ _ _ _ _ hstage =>
    obtain ⟨history, -, runStart, rfl⟩ := stageRewrite_ok hstage
    exact .same rfl
  | _ => exact .same rfl

theorem tables_stageSettled (state : State) : Tables cfg n m c (stageSettled state c) := by
  intro id op' hop'
  change (c.active.operations.map fun _ op => abandonRunning op)[id]? = some op' at hop'
  rw [ExtTreeMap.getElem?_map] at hop'
  obtain ⟨op, hop, rfl⟩ := Option.map_eq_some_iff.mp hop'
  refine .inl ⟨op, hop, fun hqueued => ?_, ?_⟩
  · unfold abandonRunning at hqueued
    split at hqueued
    · cases hqueued
    · exact hqueued
  · unfold abandonRunning
    split <;> exact ⟨rfl, rfl⟩

end Zhir.Kernel
