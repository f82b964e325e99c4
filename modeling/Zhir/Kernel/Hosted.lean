import Zhir.Kernel.Restarts

/-!
Records of host operations under the moves of an engine: a move touches one record at most,
a batch of session events only queues new ones, and every way out of the queue is known.
-/

set_option autoImplicit false
set_option relaxedAutoImplicit false

namespace Zhir.Core

def OperationState.unsettled (state : OperationState) : Bool :=
  decide (state ≠ .queued) && !state.terminal

end Zhir.Core

namespace Zhir.Kernel

open Zhir.Core
open Std (ExtTreeMap)

variable {cfg : Config} {cause : Cause} {e e' : Engine} {c c' c'' : Checkpoint} {n k m : Nat}

private theorem unsettled_of_ne {state : OperationState} (hqueued : state ≠ .queued)
    (hterminal : state.terminal = false) : state.unsettled = true := by
  unfold OperationState.unsettled
  rw [hterminal]
  simpa using hqueued

private theorem unsettled_or_queued {state : OperationState} (hterminal : state.terminal = false) :
    state.unsettled = true ∨ state = .queued := by
  by_cases hqueued : state = .queued
  · exact .inr hqueued
  · exact .inl (unsettled_of_ne hqueued hterminal)

theorem ne_queued_of_unsettled {state : OperationState} (h : state.unsettled = true) :
    state ≠ .queued := by
  rintro rfl
  cases h

private theorem unsettled_ofOutcome (outcome : OperationOutcome) :
    (OperationState.ofOutcome outcome).unsettled = false := by
  cases outcome <;> rfl

def Task.about : Task → Option OperationId
  | .start id _ _ | .delegate id _ _ | .events id | .cancel id _ | .reply id _ => some id
  | .recover record _ => some record.id
  | _ => none

/-- Something in the execution works for the operation, or its worker's control is kept. -/
inductive Engine.Serves (e : Engine) (id : OperationId) : Prop
  | task {task : Task} (hmem : task ∈ e.tasks) (habout : task.about = some id)
  | waits {work : Work} (hmem : work ∈ e.works) (habout : work.about id = true)
  | handled {work : Work} (hhandling : e.handling = some work) (habout : work.about id = true)
  | control (hmem : id ∈ e.operationControls)

inductive LeavesQueue (cause : Cause) (e : Engine) (id : OperationId) (op : OperationRecord) :
    Prop
  | admitted {bindings : List Binding} {decisions : Result (List ApprovalDecision)}
      (hhandling : e.handling = some (.admitted bindings decisions))
      (hmem : id ∈ bindings.map Binding.id)
  | delegated (howner : op.owner = .delegation) (hlooping : e.Looping)
      (hadmitting : e.admitting = [])
      (hroom : activeCount e.current < e.current.options.limits.maxOperationConcurrency)
  | attached {reference : RecoveryRef} {resolutions : List RecoveryResolution}
      (hcause : cause = .recovery resolutions) (hmem : .attach id reference ∈ resolutions)
  | served (h : e.Serves id)

/-- Records of host operations are as they were, or new in the queue. -/
def Queues (cfg : Config) (n m : Nat) (c c' : Checkpoint) : Prop :=
  ∀ (id : OperationId) (op : OperationRecord), c'.active.operations[id]? = some op →
    op.owner.host = true → c.active.operations[id]? = some op ∨
      op.state = .queued ∧ c.history.len ≤ op.callEntry ∧
        ∃ k, n ≤ k ∧ k < m ∧ id = .host (cfg.name k)

variable (cfg) in
/-- What becomes of the operation table: one record is replaced, or calls are queued. -/
inductive Touches (cause : Cause) (e : Engine) (next : Checkpoint) : Prop
  | one {id : OperationId} {op op' : OperationRecord}
      (hop : e.current.active.operations[id]? = some op)
      (hoperations : next.active.operations = e.current.active.operations.insert id op')
      (hcall : SameCall op op') (hqueued : op'.state = .queued → op.state = .queued)
      (hstate : op.owner.host = true → op'.state.unsettled = true →
        op.state.unsettled = true ∨ op.state = .queued ∧ LeavesQueue cause e id op)
  | queue {m : Nat} (h : Queues cfg e.world.names m e.current next)

namespace Queues

theorem shrinks (h : ∀ (id : OperationId) (op : OperationRecord),
    c'.active.operations[id]? = some op → c.active.operations[id]? = some op) :
    Queues cfg n m c c' :=
  fun id op hop _ => .inl (h id op hop)

theorem same (h : c'.active.operations = c.active.operations) : Queues cfg n m c c' := by
  refine shrinks fun id op hop => ?_
  rw [← h]
  exact hop

theorem trans (h : Queues cfg n k c c') (h' : Queues cfg k m c' c'') (hn : n ≤ k) (hm : k ≤ m)
    (hlen : c.history.len ≤ c'.history.len) : Queues cfg n m c c'' := by
  intro id op hop hhost
  rcases h' id op hop hhost with hold | ⟨hqueued, hentry, j, hj, hjm, hid⟩
  · rcases h id op hold hhost with hfirst | ⟨hqueued, hentry, j, hj, hjk, hid⟩
    · exact .inl hfirst
    · exact .inr ⟨hqueued, hentry, j, hj, by omega, hid⟩
  · exact .inr ⟨hqueued, by omega, j, by omega, hjm, hid⟩

end Queues

theorem Touches.same {next : Checkpoint}
    (h : next.active.operations = e.current.active.operations) : Touches cfg cause e next :=
  .queue (m := 0) (.same h)

private theorem begun_serves {id : OperationId} {record : OperationRecord} (h : e.Begun id record)
    (hqueued : record.state = .queued) : e.Serves id := by
  rcases h with hstate | hcontrol | hhandling
  · exact absurd hqueued hstate
  · exact .control hcontrol
  · obtain ⟨work, hwork, habout⟩ := (Option.any_eq_true _ _).mp hhandling
    exact .handled hwork habout

theorem Change.touches {w : World} {next : Checkpoint} {fact : Fact} {delta : HistoryDelta}
    (h : Change cfg cause e w next fact delta) (hvalid : e.current.Valid) :
    Touches cfg cause e next := by
  have hsettled : ∀ {op op' : OperationRecord} {P : Prop}, op'.state.unsettled = false →
      op.owner.host = true → op'.state.unsettled = true → P := by
    intro op op' P hfalse _ htrue
    rw [hfalse] at htrue
    cases htrue
  cases h with
  | @prepare intent =>
    refine .same ?_
    cases intent <;> rfl
  | @finish id record outcome _ _ _ hrecord _ _ _ hstage =>
    obtain ⟨history, -, rfl⟩ := stageFinish_ok hstage
    exact .one hrecord rfl ⟨rfl, rfl⟩ (fun h => absurd h (ofOutcome_ne_queued _))
      (hsettled (unsettled_ofOutcome outcome))
  | @finishProvider id record outcome _ _ _ _ hrecord _ _ _ _ hstage =>
    obtain ⟨history, -, rfl⟩ := stageFinishProvider_ok hstage
    have hkey := (hvalid.operations _ _ hrecord).key
    rw [← hkey] at hrecord
    exact .one hrecord rfl ⟨rfl, rfl⟩ (fun h => absurd h (ofOutcome_ne_queued _))
      (hsettled (unsettled_ofOutcome outcome))
  | context hrecord _ _ _ => exact .one hrecord rfl ⟨rfl, rfl⟩ (fun h => h) fun _ h => .inl h
  | @update id record event hrecord hstate _ hworker =>
    refine .one hrecord rfl (applyUpdate_call _ _) applyUpdate_queued fun hhost _ => ?_
    rcases unsettled_or_queued hstate with hunsettled | hqueued
    · exact .inl hunsettled
    · refine .inr ⟨hqueued, .served (.handled (hworker hhost) ?_)⟩
      simp [Work.about]
  | @lose id record reason hrecord hstate hbegun =>
    refine .one hrecord rfl ⟨rfl, rfl⟩ (fun h => by cases h) fun _ _ => ?_
    rcases unsettled_or_queued hstate with hunsettled | hqueued
    · exact .inl hunsettled
    · exact .inr ⟨hqueued, .served (begun_serves hbegun hqueued)⟩
  | replied hrecord hstate _ =>
    refine .one hrecord rfl ⟨rfl, rfl⟩ (fun h => by cases h) fun _ _ => .inl ?_
    rw [hstate]
    rfl
  | install hrecord _ => exact .one hrecord rfl ⟨rfl, rfl⟩ (fun h => h) fun _ h => .inl h
  | attach hcause hmem hrecord hstate =>
    refine .one hrecord rfl ⟨rfl, rfl⟩ (fun h => by cases h) fun _ _ => ?_
    rcases unsettled_or_queued hstate with hunsettled | hqueued
    · exact .inl hunsettled
    · exact .inr ⟨hqueued, .attached hcause hmem⟩
  | cancelling _ hrecord hstate hqueued =>
    exact .one hrecord rfl ⟨rfl, rfl⟩ (fun h => by cases h) fun _ _ =>
      .inl (unsettled_of_ne hqueued hstate)
  | insert _ _ _ _ hstage =>
    obtain ⟨-, rfl⟩ := stageInsert_ok hstage
    exact .same rfl
  | rewrite _ _ _ _ _ _ hstage =>
    obtain ⟨history, -, runStart, rfl⟩ := stageRewrite_ok hstage
    exact .same rfl
  | _ => exact .same rfl

def Hosted (c : Checkpoint) : Prop :=
  ∀ (id : OperationId) (op : OperationRecord), c.active.operations[id]? = some op →
    op.owner.host = true → ∃ name, id = .host name

theorem Queues.hosted (h : Queues cfg n m c c') (hc : Hosted c) : Hosted c' := by
  intro id op hop hhost
  rcases h id op hop hhost with hold | ⟨-, -, k, -, -, hid⟩
  · exact hc id op hold hhost
  · exact ⟨cfg.name k, hid⟩

theorem Touches.hosted {next : Checkpoint} (h : Touches cfg cause e next)
    (hc : Hosted e.current) : Hosted next := by
  cases h with
  | one hop hoperations hcall _ _ =>
    intro other new hnew hhost
    rcases Tables.insert_cases hoperations hnew with ⟨rfl, rfl⟩ | hold
    · rw [hcall.owner] at hhost
      exact hc _ _ hop hhost
    · exact hc other new hold hhost
  | queue h => exact h.hosted hc

private theorem queues_recordOutput {capabilities : CapabilitySet} {output : Output}
    {origin : CallRef}
    (hc : Hosted c) (h : recordOutput capabilities output origin (cfg.name k) c = .ok c')
    (hn : n ≤ k) (hm : k < m) : Queues cfg n m c c' := by
  have hnew : ∀ {op : OperationRecord}, c' = putOperation (.host (cfg.name k)) op c →
      op.callEntry = c.history.len → op.state = .queued → Queues cfg n m c c' := by
    intro op hc' hentry hqueued other new hop _
    rw [hc'] at hop
    rcases Tables.insert_cases (c := c) rfl hop with ⟨rfl, rfl⟩ | hold
    · exact .inr ⟨hqueued, hentry.ge, k, hn, hm, rfl⟩
    · exact .inl hold
  cases output with
  | delegation request =>
    simp only [recordOutput] at h
    split at h
    · cases h
    · split at h
      · cases h
      · cases h
        exact hnew rfl rfl rfl
  | runtimeToolCall call =>
    simp only [recordOutput] at h
    split at h
    · cases h
    · cases h
      exact hnew rfl rfl rfl
  | providerToolCall call =>
    cases h
    intro other new hop hhost
    rcases Tables.insert_cases (c := c) rfl hop with ⟨rfl, rfl⟩ | hold
    · -- the record under a provider's identity is not the host's
      exfalso
      change ((c.active.operations[providerOperationId origin]?).getD _).owner.host = true at hhost
      rcases hold : c.active.operations[providerOperationId origin]? with _ | old
      · rw [hold] at hhost
        cases hhost
      · rw [hold] at hhost
        obtain ⟨name, hname⟩ := hc _ old hold hhost
        cases hname
    · exact .inl hold
  | content content =>
    cases h
    exact .same rfl

private theorem queues_stageEvent {body : SessionEventBody} {commandId : String} (hc : Hosted c)
    (h : stageEvent cfg e body (cfg.name k) commandId c = .ok c') (hn : n ≤ k) (hm : k < m) :
    Queues cfg n m c c' := by
  rcases stageEvent_table h with hshrinks | ⟨o, recorded, -, hrecorded⟩
  · exact .shrinks hshrinks.record
  · have hqueues : Queues cfg n m c recorded := queues_recordOutput hc hrecorded.call hn hm
    intro id op hop
    rw [hrecorded.operations] at hop
    exact hqueues id op hop

theorem Staged.queues {events : List SessionEvent} (h : Staged cfg e n c events m c')
    (hc : Hosted c) : Queues cfg n m c c' := by
  induction h with
  | nil _ => exact .same rfl
  | @cons n k m c c₁ c₂ event rest hk hstage hrest ih =>
    have hfirst : Queues cfg n (k + 2) (withSequence event.sequence c) c₁ :=
      queues_stageEvent hc hstage hk (by omega)
    have hlen : (withSequence event.sequence c).history.len ≤ c₁.history.len :=
      len_stageEvent hstage
    exact Queues.trans hfirst (ih (hfirst.hosted hc)) (by omega) hrest.names hlen

private theorem hosted_settled (state : State) (hc : Hosted c) : Hosted (stageSettled state c) := by
  intro id op hop hhost
  change (c.active.operations.map fun _ op => abandonRunning op)[id]? = some op at hop
  rw [ExtTreeMap.getElem?_map] at hop
  obtain ⟨old, hold, rfl⟩ := Option.map_eq_some_iff.mp hop
  have howner : (abandonRunning old).owner = old.owner := by
    unfold abandonRunning
    split <;> rfl
  rw [howner] at hhost
  exact hc id old hold hhost

theorem hosted_inductive (cfg : Config) : Inductive cfg (fun _ => True) Hosted where
  start w request expired c h hstart := by
    have hempty : c.active.operations = ∅ := by
      rw [h.checkpoint]
      cases request with
      | start history context options => cases expired <;> rfl
      | recover base ms rs md => exact absurd rfl (hstart base ms rs md)
    intro id op hop
    rw [hempty] at hop
    cases hop
  recover w base messages resolutions metadata expired c h _ hbase := by
    have hsame : c.active.operations = base.active.operations := by
      rw [h.checkpoint]
      cases expired <;> rfl
    have hqueues : Queues cfg 0 0 base c := .same hsame
    exact hqueues.hosted hbase
  commit e w next fact delta hsound _ hcurrent _ _ hcommits _ := by
    have hnext : Hosted next := by
      cases hcommits with
      | change h => exact (h.touches hsound.valid).hosted hcurrent
      | admitted hrecord _ | delegated hrecord _ =>
        intro other new hnew hhost
        rcases Tables.insert_cases (c := e.current) rfl hnew with ⟨rfl, rfl⟩ | hold
        · exact hcurrent _ _ hrecord hhost
        · exact hcurrent other new hold hhost
      | bound _ _ => exact hcurrent
      | batch _ hstaged => exact (hstaged.queues hcurrent).hosted hcurrent
    exact hnext
  settle _ _ error _ hc _ := hosted_settled (settledState error).1 hc

theorem Move.touches (h : Move cfg cause e e') (hvalid : e.current.Valid)
    (hhosted : Hosted e.current) : Touches cfg cause e e'.current := by
  cases h with
  | save _ hchange _ =>
    have htouches := hchange.touches hvalid
    cases htouches with
    | one hop hoperations hcall hqueued hstate =>
      exact .one hop hoperations hcall hqueued hstate
    | queue h => exact .queue h
  | @start w w' binding bindings decisions record _ hrecord hqueued hdue hhandling _ _ =>
    obtain ⟨before, after, hsplit, -⟩ := hdue
    refine .one hrecord rfl ⟨rfl, rfl⟩ (fun h => by cases h) fun _ _ =>
      .inr ⟨hqueued, .admitted hhandling ?_⟩
    rw [hsplit]
    exact List.mem_map_of_mem (List.mem_append_right before List.mem_cons_self)
  | delegate _ hrecord howner hqueued hlooping hadmitting hroom _ =>
    exact .one hrecord rfl ⟨rfl, rfl⟩ (fun h => by cases h) fun _ _ =>
      .inr ⟨hqueued, .delegated howner hlooping hadmitting hroom⟩
  | batch _ hstaged _ _ _ _ => exact .queue (hstaged.queues hhosted)
  | requestCancel =>
    rw [Engine.requestCancel_eq]
    exact .same rfl
  | _ => exact .same rfl

end Zhir.Kernel
