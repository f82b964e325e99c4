import Zhir.Kernel.EventMoves
import Zhir.Kernel.SessionMoves

/-!
The handlers of work items, of host packets and of host controls, and the passes of the
main loop, as chains of moves.
-/

set_option autoImplicit false
set_option relaxedAutoImplicit false

namespace Zhir.Kernel

open Zhir.Core
open Zhir.Library (Program)
open Zhir.Library.Program
open Relation (ReflTransGen)

variable {cfg : Config} {cause : Cause} {fault : Engine → Error → Engine → Prop} {e : Engine}
  {w : World}

private theorem steps_loadEnded_bind {α : Type} (hfault : Failing cfg cause fault)
    (hw : e.world.Counted w) {f : List String → Handler α}
    (hf : ∀ e' ended, e'.current = e.current → e'.handling = e.handling →
      Steps cfg cause fault e' (f ended) e'.world) :
    Steps cfg cause fault e (loadEnded cfg >>= f) w := by
  unfold loadEnded
  rw [bind_assoc]
  refine steps_read_bind ?_
  have hcount : Moves cfg cause e (e.inWorld w) := moves_count hw
  split
  · exact Chains.after hcount (hf (e.inWorld w) _ rfl rfl)
  · rename_i hunread
    split
    · rename_i harchive
      have hread : archiveRead cfg e.current [] := by
        unfold archiveRead
        change e.current.active.session.mediaArchive = none at harchive
        rw [harchive]
      rw [bind_assoc]
      refine steps_modify_bind (hcount.tail (.loadEnded hunread hread)) ?_
      exact hf _ _ rfl rfl
    · rename_i reference harchive
      simp only [bind_assoc]
      refine steps_ask_bind hw fun w₁ n hw₁ _ => ?_
      refine steps_lift_bind hfault hw₁ fun ended hended => ?_
      have hread : archiveRead cfg e.current ended := by
        unfold archiveRead
        change e.current.active.session.mediaArchive = some reference at harchive
        rw [harchive]
        exact ⟨n, hended⟩
      refine steps_modify_bind ((moves_count hw₁).tail (.loadEnded hunread hread)) ?_
      exact hf _ _ rfl rfl

private theorem steps_ensureNewStream_bind {α : Type} (hfault : Failing cfg cause fault)
    {key : String}
    {f : Unit → Handler α}
    (hf : ∀ e', e'.current = e.current → e'.handling = e.handling →
      Steps cfg cause fault e' (f ()) e'.world) :
    Steps cfg cause fault e (ensureNewStream cfg key >>= f) e.world := by
  refine steps_when_bind (fun _ => ?_) fun _ => hf e rfl rfl
  rw [bind_assoc]
  refine steps_loadEnded_bind hfault (.refl _) fun e' ended hcurrent hhandling => ?_
  exact steps_require_bind hfault (.refl _) fun _ => hf e' hcurrent hhandling

private theorem steps_stageCursor_bind {α : Type} (hfault : Failing cfg cause fault)
    {key : String} {segment : SealedMedia} {last : SealedChunk} {reference : ResourceRef}
    {c : Checkpoint} {f : Checkpoint → Handler α}
    (hf : ∀ w archive media, e.world.Counted w → Steps cfg cause fault e
      (f { c with active.session.mediaArchive := archive, active.media := media }) w) :
    Steps cfg cause fault e (stageCursor cfg key segment last reference c >>= f) e.world := by
  unfold stageCursor
  split
  · exact steps_retireStreams_bind hfault _ c _ (.refl _) fun w archive media hw _ =>
      hf w archive media hw
  · exact hf _ c.active.session.mediaArchive _ (.refl _)

private theorem steps_sealCursor (hfault : Failing cfg cause fault) (direction : String)
    (segment : SealedMedia) (reference : ResourceRef) :
    Steps cfg cause fault e (sealCursor cfg direction segment reference) e.world := by
  refine steps_read_bind ?_
  split
  · exact steps_fail hfault (.refl _)
  · rename_i last _
    have hcommit : ∀ e' : Engine, e'.current = e.current → e'.handling = e.handling →
        Steps cfg cause fault e' (do
          let next ← stageCursor cfg (mediaKey direction segment.streamId segment.epoch) segment
            last reference e.current
          commit cfg next (.media segment.streamId last.sequence) .unchanged
          Program.when (last.endOfStream = true)
            (Program.modify
              (Engine.endStreams [mediaKey direction segment.streamId segment.epoch])))
          e'.world := by
      intro e' hcurrent _
      refine steps_stageCursor_bind hfault fun w archive media hw => ?_
      rw [← hcurrent]
      refine steps_save_bind hfault hw .media ?_
      exact steps_when (.refl _) fun _ => steps_modify (.single .endStreams)
    refine steps_require_bind hfault (.refl _) fun _ => ?_
    refine steps_when_bind (fun _ => ?_) fun _ => hcommit e rfl rfl
    exact steps_ensureNewStream_bind hfault hcommit

private theorem steps_decideMedia (hfault : Failing cfg cause fault) {input valid : Bool}
    {segment : SealedMedia} {reference : ResourceRef} {work : Work}
    (hhandling : e.handling = some work) (hdecides : work.decides input = true) :
    Steps cfg cause fault e (decideMedia cfg input valid segment reference) e.world := by
  refine steps_when_bind (fun _ => ?_) fun _ => ?_
  · refine steps_bind (steps_sealCursor hfault _ _ _) fun _ e' _ hmoves => ?_
    exact steps_modify (.single (.decide (hmoves.handling.trans hhandling) hdecides))
  · exact steps_modify (.single (.decide hhandling hdecides))

private theorem steps_inputMedia (hfault : Failing cfg cause fault) (hlooping : e.Looping)
    (hidle : e.inputSending = false) (first : MediaChunk) :
    Steps cfg cause fault e (inputMedia cfg first) e.world := by
  refine steps_read_bind ?_
  refine steps_modify_bind (.single (.buffer hlooping)) ?_
  refine steps_lift_bind hfault (.refl _) fun _ _ => ?_
  refine steps_require_bind hfault (.refl _) fun _ => ?_
  refine steps_require_bind hfault (.refl _) fun _ => ?_
  exact steps_modify (.single (.sendInput hlooping hidle))

theorem steps_receivePacket (hfault : Failing cfg cause fault) (hlooping : e.Looping) :
    Steps cfg cause fault e (receivePacket cfg) e.world := by
  refine steps_read_bind ?_
  refine steps_ite (fun _ => steps_pure (.refl _)) fun hready => ?_
  simp only [not_or, Bool.not_eq_true] at hready
  split
  · refine steps_bind (steps_inputMedia hfault hlooping hready.2.2 _) ?_
    intro _ _ _ _
    exact steps_pure (.refl _)
  · split
    · exact steps_pure (.refl _)
    · rename_i packet rest _
      have hinput := steps_inputMedia (e := e.buffer rest e.heldInput) hfault hlooping
        hready.2.2 packet
      refine steps_modify_bind (.single (.buffer hlooping)) (steps_bind hinput ?_)
      intro _ _ _ _
      exact steps_pure (.refl _)

private theorem activeOperation_put {id : OperationId} {op : OperationRecord} {c : Checkpoint} :
    activeOperation id (putOperation id op c) = op.active := by
  unfold activeOperation
  change Option.any _ (c.active.operations.insert id op)[id]? = _
  rw [Std.ExtTreeMap.getElem?_insert_self]
  rfl

private theorem run_unknown_inactive {id : OperationId} {reason : String} {e' : Engine} {u : Unit}
    (h : Program.run (unknown cfg id reason) e = (.ok u, e')) :
    activeOperation id e'.current = false := by
  obtain ⟨op, -, -, rfl⟩ := run_localOperationUpdate_ok h
  change activeOperation id (putOperation id _ e.current) = false
  rw [activeOperation_put]
  simp [OperationRecord.active]

private theorem run_finish_inactive {id : OperationId} {outcome : OperationOutcome} {e' : Engine}
    {u : Unit} (h : Program.run (finish cfg id outcome) e = (.ok u, e')) :
    activeOperation id e'.current = false := by
  rw [activeOperation_eq_false]
  intro op hop
  unfold finish at h
  rcases hrecord : e.current.active.operations[id]? with _ | record
  · obtain ⟨_, -, h⟩ := run_lift_bind_ok h
    obtain ⟨_, _, hread, h⟩ := run_bind_ok h
    cases hread
    rw [hrecord, run_require] at h
    obtain rfl : e = e' := (Prod.mk.inj h).2
    rw [hrecord] at hop
    cases hop
  · rcases hterminal : record.state.terminal with _ | _
    · rcases hhost : record.owner.host with _ | _
      · obtain ⟨_, -, h⟩ := run_lift_bind_ok h
        obtain ⟨_, _, hread, h⟩ := run_bind_ok h
        cases hread
        simp only [hrecord, hterminal, hhost, Bool.false_eq_true, if_false] at h
        obtain ⟨_, _, hread, h⟩ := run_bind_ok h
        cases hread
        obtain ⟨entry, -, h⟩ := run_lift_bind_ok h
        obtain ⟨commandId, _, hid, h⟩ := run_bind_ok h
        cases hid
        obtain ⟨next, hstage, h⟩ := run_lift_bind_ok h
        obtain ⟨rfl, -⟩ := run_commit_ok h
        obtain ⟨history, -, rfl⟩ := stageFinishProvider_ok hstage
        change (e.current.active.operations.insert record.id _)[id]? = _ at hop
        rw [Std.ExtTreeMap.getElem?_insert] at hop
        split at hop
        · cases hop
          exact OperationRecord.active_of_terminal (by simp [settled])
        · rw [hrecord] at hop
          cases hop
          simp [OperationRecord.active, hhost]
      · have hsettles := run_finishAt_host_ok hrecord hterminal hhost h
        exact OperationRecord.active_of_terminal (hsettles.settled op hop)
    · obtain ⟨_, -, h⟩ := run_lift_bind_ok h
      obtain ⟨_, _, hread, h⟩ := run_bind_ok h
      cases hread
      simp only [hrecord, hterminal, if_true, run_require] at h
      obtain rfl : e = e' := (Prod.mk.inj h).2
      rw [hrecord] at hop
      cases hop
      exact OperationRecord.active_of_terminal hterminal

private theorem run_loseWorker_inactive {id : OperationId} {reason : String} {e' : Engine}
    {u : Unit}
    (h : Program.run (loseWorker cfg id reason) e = (.ok u, e')) :
    activeOperation id e'.current = false := by
  obtain ⟨_, _, hread, h⟩ := run_bind_ok h
  cases hread
  unfold Program.when at h
  split at h
  · exact run_unknown_inactive h
  · rename_i hfinished
    cases h
    rw [activeOperation_eq_false]
    intro op hop
    refine OperationRecord.active_of_terminal ?_
    simpa [unfinishedOperation, hop] using hfinished

private theorem steps_loseWorker (hfault : Failing cfg cause fault) {id : OperationId}
    {reason : String}
    (hbegun : ∀ record, e.current.active.operations[id]? = some record → e.Begun id record) :
    Steps cfg cause fault e (loseWorker cfg id reason) e.world :=
  steps_read_bind (steps_when (.refl _) fun _ => steps_unknown hfault (.refl _) hbegun)

private theorem begun_of_handling {id : OperationId} {record : OperationRecord} {work : Work}
    (hhandling : e.handling = some work) (habout : work.about id = true) : e.Begun id record := by
  refine .inr (.inr ?_)
  rw [hhandling]
  exact habout

private theorem steps_startFailed (hfault : Failing cfg cause fault) {id : OperationId}
    {error : Error}
    (hbegun : ∀ record, e.current.active.operations[id]? = some record → e.Begun id record) :
    Steps cfg cause fault e (startFailed cfg id error) e.world := by
  refine steps_read_bind ?_
  have hunknown : ∀ reason, Steps cfg cause fault e (unknown cfg id reason) e.world :=
    fun reason => steps_unknown hfault (.refl _) hbegun
  cases error with
  | cancelled =>
    exact steps_ite (fun _ => steps_finish hfault (.refl _) _ _) fun _ => hunknown _
  | uncertain _ => exact hunknown _
  | «storage» _ => exact hunknown _
  | conflict _ _ => exact hunknown _
  | protocol _ => exact hunknown _
  | deadline => exact hunknown _
  | _ => exact steps_finish hfault (.refl _) _ _

private theorem run_startFailed_inactive {id : OperationId} {error : Error} {e' : Engine} {u : Unit}
    (h : Program.run (startFailed cfg id error) e = (.ok u, e')) :
    activeOperation id e'.current = false := by
  obtain ⟨_, _, hread, h⟩ := run_bind_ok h
  cases hread
  cases error with
  | cancelled =>
    rw [run_ite] at h
    split at h
    · exact run_finish_inactive h
    · exact run_unknown_inactive h
  | uncertain _ => exact run_unknown_inactive h
  | «storage» _ => exact run_unknown_inactive h
  | conflict _ _ => exact run_unknown_inactive h
  | protocol _ => exact run_unknown_inactive h
  | deadline => exact run_unknown_inactive h
  | _ => exact run_finish_inactive h

private theorem steps_started (hfault : Failing cfg cause fault) {id : OperationId}
    {result : Result ToolExecution} (hhandling : e.handling = some (.started id result)) :
    Steps cfg cause fault e (started cfg id result) e.world := by
  cases result with
  | ok execution =>
    cases execution with
    | finished outcome => exact steps_finish hfault (.refl _) _ _
    | active handle => exact steps_installOperation hfault (.refl _) hhandling
  | error error =>
    exact steps_startFailed hfault fun _ _ => begun_of_handling hhandling (by simp [Work.about])

private theorem run_started_done {id : OperationId} {result : Result ToolExecution} {e' : Engine}
    {u : Unit} (h : Program.run (started cfg id result) e = (.ok u, e')) :
    activeOperation id e'.current = true → Task.events id ∈ e'.tasks := by
  intro hactive
  cases result with
  | ok execution =>
    cases execution with
    | finished outcome =>
      rw [run_finish_inactive h] at hactive
      cases hactive
    | active handle =>
      obtain ⟨_, _, hread, h⟩ := run_bind_ok h
      cases hread
      split at h
      · cases h
      · obtain ⟨_, _, hcommit, h⟩ := run_bind_ok h
        cases h
        exact List.mem_append_right _ List.mem_cons_self
  | error error =>
    rw [run_startFailed_inactive h] at hactive
    cases hactive

private theorem steps_replyDone (hfault : Failing cfg cause fault) {id : OperationId}
    {result : Result Unit} (hhandling : e.handling = some (.replyDone id result)) :
    Steps cfg cause fault e (replyDone cfg id result) e.world := by
  refine steps_modify_bind (.single (.replyDone hhandling)) ?_
  refine steps_read_bind ?_
  refine steps_when (.refl _) fun hunknown => ?_
  cases result with
  | error error =>
    refine steps_unknown hfault (.refl _) fun record _ => ?_
    exact begun_of_handling hhandling (by simp [Work.about])
  | ok u =>
    refine steps_read_bind ?_
    split
    · exact steps_fail hfault (.refl _)
    · rename_i record hrecord
      refine steps_require_bind hfault (.refl _) fun _ => ?_
      have hstate : record.state = .unknown := by
        simp only [inState] at hunknown
        change Option.any _ (e.current.active.operations[id]?) = true at hunknown
        change e.current.active.operations[id]? = some record at hrecord
        simpa [hrecord] using hunknown
      exact steps_save hfault (.refl _) (.replied hrecord hstate hhandling)

private theorem steps_sentResult (hfault : Failing cfg cause fault) (result : Result Unit) :
    Steps cfg cause fault e (sentResult cfg result) e.world := by
  cases result with
  | ok u => exact steps_pure (.refl _)
  | error error => exact steps_suspend hfault (.refl _) _

private theorem steps_modelFailed (hfault : Failing cfg cause fault) (error : Error) :
    Steps cfg cause fault e (modelFailed cfg error) e.world := by
  refine steps_read_bind ?_
  exact steps_ite (fun _ => steps_suspend hfault (.refl _) _) fun _ => steps_fail hfault (.refl _)

theorem steps_handle {work : Work} (hvalid : e.current.Valid) (hhandling : e.handling = some work)
    (hstashed : e.stashed = none) :
    Steps cfg cause (Fault cfg cause) e (handle cfg work) e.world := by
  have hfault := fault_failing cfg cause
  have hlost : ∀ id reason, work.about id = true →
      Steps cfg cause (Fault cfg cause) e (loseWorker cfg id reason) e.world := by
    intro id reason habout
    exact steps_loseWorker hfault fun _ _ => begun_of_handling hhandling habout
  cases work with
  | model event =>
    match event with
    | .ok (some event) => exact steps_modelEvent hvalid hhandling hstashed
    | .ok none =>
      exact steps_read_bind (steps_when (.refl _) fun _ => steps_suspend hfault (.refl _) _)
    | .error error => exact steps_modelFailed hfault error
  | started id result =>
    refine steps_modify_bind (.single (.returned hhandling)) ?_
    exact steps_started hfault hhandling
  | cancelFailed id error => exact hlost id _ (by simp [Work.about])
  | operation id event =>
    match event with
    | .ok (some event) =>
      exact steps_operationEvent hfault (.refl _) fun _ _ _ => hhandling
    | .ok none => exact hlost id _ (by simp [Work.about])
    | .error error => exact hlost id _ (by simp [Work.about])
  | admitted bindings decisions => exact steps_admitted hhandling
  | mediaReady segment reference =>
    exact steps_read_bind (steps_decideMedia hfault hhandling rfl)
  | inputReady segment reference =>
    exact steps_read_bind (steps_decideMedia hfault hhandling rfl)
  | inputSent result =>
    refine steps_modify_bind (.single (.inputSent hhandling)) ?_
    exact steps_sentResult hfault result
  | mediaDone => exact steps_modify (.single (.mediaDone hhandling))
  | replyDone id result => exact steps_replyDone hfault hhandling
  | progress id value => exact steps_pure (.refl _)
  | mediaError error => exact steps_fail hfault (.refl _)
  | commandSent result =>
    refine steps_modify_bind (.single (.sentDone hhandling)) ?_
    exact steps_sentResult hfault result

theorem run_handle_done {work : Work} {e' : Engine} {u : Unit}
    (h : Program.run (handle cfg work) e = (.ok u, e')) : Done e' work := by
  cases work with
  | started id result =>
    obtain ⟨_, _, hmodify, h⟩ := run_bind_ok h
    exact run_started_done h
  | operation id event =>
    intro hends
    match event with
    | .ok (some event) => cases hends
    | .ok none => exact run_loseWorker_inactive h
    | .error error => exact run_loseWorker_inactive h
  | _ => trivial

end Zhir.Kernel
