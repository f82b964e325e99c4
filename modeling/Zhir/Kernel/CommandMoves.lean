import Zhir.Kernel.MoveRules

/-!
The command outbox and operation completion as moves.
-/

set_option autoImplicit false
set_option relaxedAutoImplicit false

namespace Zhir.Kernel

open Zhir.Core
open Zhir.Library (Program)
open Zhir.Library.Program
open Relation (ReflTransGen)

variable {cfg : Config} {cause : Cause} {fault : Engine → Error → Engine → Prop} {e : Engine}
  {w : World} {α : Type}

theorem steps_retireStreams_bind (hfault : Failing cfg cause fault) (keys : List String) :
    ∀ (c : Checkpoint) (w : World), e.world.Counted w → ∀ {f : Checkpoint → Handler α},
      (∀ w' archive media, e.world.Counted w' → w'.names = w.names →
        Steps cfg cause fault e
          (f { c with active.session.mediaArchive := archive, active.media := media }) w') →
      Steps cfg cause fault e (retireStreams cfg c keys >>= f) w := by
  induction keys with
  | nil => exact fun c w hw f hf => hf w c.active.session.mediaArchive c.active.media hw rfl
  | cons key keys ih =>
    intro c w hw f hf
    simp only [retireStreams, archiveMedia, bind_assoc, pure_bind]
    refine steps_require_bind hfault hw fun _ => ?_
    refine steps_ask_bind hw fun w₁ n hw₁ hn₁ => ?_
    refine steps_lift_bind hfault hw₁ fun reference _ => ?_
    refine ih _ w₁ hw₁ fun w₂ archive media hw₂ hn₂ => ?_
    exact hf w₂ archive media hw₂ (hn₂.trans hn₁)

theorem steps_prepareCommand (hfault : Failing cfg cause fault) (hw : e.world.Counted w)
    {intent : CommandIntent} (hprepared : Prepared cfg e intent) :
    Steps cfg cause fault e (prepareCommand cfg intent) w := by
  refine steps_read_bind ?_
  refine steps_require_bind hfault hw fun _ => ?_
  refine steps_newId_bind hw fun w₁ hw₁ hn₁ => ?_
  refine steps_retireStreams_bind hfault _ _ w₁ hw₁ fun w₂ archive media hw₂ hn₂ => ?_
  have hn : Generated e w₂ w.names := ⟨hw.names, by omega⟩
  refine steps_save_bind hfault hw₂ (.prepare hprepared hn) ?_
  refine steps_modify_bind (.single .endStreams) ?_
  refine steps_when_bind (fun _ => ?_) fun _ => steps_pure (World.Counted.refl _)
  exact steps_modify_bind (.single .closeMedia) (steps_pure (World.Counted.refl _))

private theorem localBatch_ok {commands : List PendingCommand} {batch : List SessionCommand}
    (h : e.localBatch cfg commands = .ok batch) :
    ∃ taken, taken <+: commands ∧
      (∀ c ∈ taken, e.canSend cfg c = true ∧ c.intent.isGenerate = false) ∧
      List.Forall₂ (fun (c : PendingCommand) (s : SessionCommand) =>
        s.id = c.id ∧ e.commandBody c.intent = .ok s.body) taken batch := by
  induction commands generalizing batch with
  | nil =>
    cases h
    exact ⟨[], List.nil_prefix, by simp, .nil⟩
  | cons next rest ih =>
    simp only [Engine.localBatch] at h
    split at h
    · cases h
      exact ⟨[], List.nil_prefix, by simp, .nil⟩
    · rename_i hsend
      simp only [Bool.or_eq_true, Bool.not_eq_true', not_or, Bool.not_eq_true,
        Bool.not_eq_false] at hsend
      rcases hb : e.commandBody next.intent with error | body
      · simp [hb, bind, Except.bind] at h
      · rcases hr : e.localBatch cfg rest with error | others
        · simp [hb, hr, bind, Except.bind] at h
        · simp only [hb, hr, bind, Except.bind, pure, Except.pure, Except.ok.injEq] at h
          obtain ⟨taken, hprefix, hsendable, hbodies⟩ := ih hr
          subst h
          refine ⟨next :: taken, List.cons_prefix_cons.mpr ⟨rfl, hprefix⟩, ?_,
            .cons ⟨rfl, hb⟩ hbodies⟩
          exact List.forall_mem_cons.mpr ⟨⟨hsend.2, hsend.1⟩, hsendable⟩

theorem Submission.inWorld {control : SessionControl} {first : PendingCommand}
    {commands : List PendingCommand} {batch : List SessionCommand}
    (h : Submission cfg e control first commands batch) :
    Submission cfg (e.inWorld w) control first commands batch :=
  ⟨h.bound, h.idle, h.ready, h.head, h.order, h.local_rest, h.sendable, h.marked, h.bodies,
    h.handling⟩

private theorem durableSend_eq_false {control : SessionControl} {c : PendingCommand} :
    durableSend control c = false ↔ c.intent.isGenerate = false ∧ control.projection = true := by
  simp [durableSend]

private theorem submission_single {control : SessionControl} {command : PendingCommand}
    {body : SessionCommandBody} (hbound : e.sessionControl = some control)
    (hidle : e.sending = false) (hready : e.current.active.session.ready = true)
    (hnext : e.nextCommand cfg = some command)
    (hbody : e.commandBody command.intent = .ok body)
    (hmarked : durableSend control command = true → command.sent = true)
    (hhandling : e.handling = none) :
    Submission cfg e control command [] [⟨command.id, body⟩] := by
  obtain ⟨hhead, hsend⟩ := Option.filter_eq_some_iff.mp hnext
  exact ⟨hbound, hidle, hready, hhead, List.nil_prefix, by simp, by simpa using hsend, hmarked,
    .cons ⟨rfl, hbody⟩ .nil, hhandling⟩

private theorem nextCommand_marked {command : PendingCommand} (w : World) (fact : Fact)
    (hnext : e.nextCommand cfg = some command) :
    (e.saved cfg w (markSent command.id e.current) fact).nextCommand cfg =
      some { command with sent := true } := by
  obtain ⟨hhead, hsend⟩ := Option.filter_eq_some_iff.mp hnext
  refine Option.filter_eq_some_iff.mpr ⟨?_, hsend⟩
  have hids : ((fun c : PendingCommand => decide (c.id ∉ e.sent)) ∘ fun c =>
      if c.id = command.id then { c with sent := true } else c) =
      fun c => decide (c.id ∉ e.sent) := by
    funext c
    simp only [Function.comp]
    split <;> rfl
  change (List.filter (fun c : PendingCommand => decide (c.id ∉ e.sent))
    (List.map _ e.current.active.commands)).head? = _
  rw [List.filter_map, hids, List.head?_map]
  change Option.map _ e.unsent.head? = _
  simp [hhead]

private theorem steps_sendCommand (hfault : Failing cfg cause fault) (hw : e.world.Counted w)
    (hhandling : e.handling = none) {control : SessionControl} {command : PendingCommand}
    (hbound : e.sessionControl = some control) (hidle : e.sending = false)
    (hready : e.current.active.session.ready = true)
    (hnext : e.nextCommand cfg = some command) :
    Steps cfg cause fault e (sendCommand cfg control command) w := by
  obtain ⟨hhead, hsend⟩ := Option.filter_eq_some_iff.mp hnext
  have hunsent := List.mem_of_head? hhead
  simp only [Engine.unsent, List.mem_filter, decide_eq_true_eq] at hunsent
  refine steps_read_bind ?_
  refine steps_lift_bind hfault hw fun body hbody => ?_
  refine steps_when_bind (fun hmark => ?_) fun hmark => ?_
  · simp only [commitSent, bind_assoc]
    refine steps_read_bind ?_
    refine steps_save_bind hfault hw (.markSent hunsent.1 hunsent.2) ?_
    refine steps_check_bind hfault (World.Counted.refl _) fun w₁ hw₁ _ => ?_
    refine steps_read_bind ?_
    simp only [followers, hmark.1, if_true]
    have hmarked := nextCommand_marked w (.command command.id) hnext
    have hsubmission : Submission cfg (e.saved cfg w (markSent command.id e.current)
        (.command command.id)) control { command with sent := true } []
        [⟨command.id, body⟩] :=
      submission_single hbound hidle hready hmarked hbody (fun _ => rfl) hhandling
    exact steps_modify ((moves_count hw₁).trans (.single (.submit hsubmission.inWorld)))
  · refine steps_check_bind hfault hw fun w₁ hw₁ _ => ?_
    refine steps_read_bind ?_
    refine steps_lift_bind hfault hw₁ fun batch hbatch => ?_
    have hsubmission : ∃ commands,
        Submission cfg e control command commands (⟨command.id, body⟩ :: batch) := by
      rcases hd : durableSend control command with _ | _
      · simp only [followers, hd, Bool.false_eq_true, if_false] at hbatch
        obtain ⟨hgenerate, hlocal⟩ := durableSend_eq_false.mp hd
        obtain ⟨taken, hprefix, hsendable, hbodies⟩ := localBatch_ok hbatch
        refine ⟨taken, hbound, hidle, hready, hhead, hprefix, fun _ => ⟨hd, fun c hc => ?_⟩, ?_,
          ?_, .cons ⟨rfl, hbody⟩ hbodies, hhandling⟩
        · exact durableSend_eq_false.mpr ⟨(hsendable c hc).2, hlocal⟩
        · exact List.forall_mem_cons.mpr ⟨hsend, fun c hc => (hsendable c hc).1⟩
        · simp [hd]
      · simp only [followers, hd, if_true] at hbatch
        cases hbatch
        exact ⟨[], submission_single hbound hidle hready hnext hbody
          (fun _ => by simpa [hd] using hmark) hhandling⟩
    obtain ⟨commands, hsubmission⟩ := hsubmission
    exact steps_modify ((moves_count hw₁).trans (.single (.submit hsubmission.inWorld)))

theorem steps_dispatchCommands (hfault : Failing cfg cause fault) (hw : e.world.Counted w)
    (hhandling : e.handling = none) :
    Steps cfg cause fault e (dispatchCommands cfg) w := by
  refine steps_read_bind ?_
  split
  · exact steps_pure hw
  · rename_i control hbound
    refine steps_ite (fun _ => steps_pure hw) fun hidle => ?_
    simp only [not_or, Bool.not_eq_true, Bool.not_eq_false] at hidle
    split
    · exact steps_pure hw
    · rename_i command hnext
      exact steps_sendCommand hfault hw hhandling hbound hidle.1 hidle.2 hnext

private theorem steps_finishProvider (hfault : Failing cfg cause fault) (hw : e.world.Counted w)
    {id : OperationId} {record : OperationRecord} {outcome : OperationOutcome}
    {sequence : Option Nat} (hrecord : e.current.active.operations[id]? = some record)
    (hstate : record.state.terminal = false) (hhost : record.owner.host = false) :
    Steps cfg cause fault e (finishProvider cfg record outcome sequence) w := by
  refine steps_read_bind ?_
  refine steps_lift_bind hfault hw fun entry hentry => ?_
  refine steps_newId_bind hw fun w₁ hw₁ hn₁ => ?_
  refine steps_lift_bind hfault hw₁ fun next hstage => ?_
  exact steps_save hfault hw₁
    (.finishProvider hrecord hstate hhost ⟨hw.names, by omega⟩ hentry hstage)

private theorem steps_finishHost (hfault : Failing cfg cause fault) (hw : e.world.Counted w)
    {id : OperationId} {record : OperationRecord} {outcome : OperationOutcome}
    {sequence : Option Nat} (hrecord : e.current.active.operations[id]? = some record)
    (hstate : record.state.terminal = false) (hhost : record.owner.host = true) :
    Steps cfg cause fault e (finishHost cfg id record outcome sequence) w := by
  refine steps_read_bind ?_
  refine steps_newId_bind hw fun w₁ hw₁ hn₁ => ?_
  refine steps_lift_bind hfault hw₁ fun next hstage => ?_
  refine steps_save_bind hfault hw₁
    (.finish hrecord hstate hhost ⟨hw.names, by omega⟩ hstage) ?_
  exact steps_modify (.single .forget)

theorem steps_finishAt (hfault : Failing cfg cause fault) (hw : e.world.Counted w)
    (id : OperationId) (outcome : OperationOutcome) (sequence : Option Nat) :
    Steps cfg cause fault e (finishAt cfg id outcome sequence) w := by
  refine steps_lift_bind hfault hw fun _ _ => ?_
  refine steps_read_bind ?_
  split
  · exact steps_require hfault hw
  · rename_i record hrecord
    split
    · exact steps_require hfault hw
    · rename_i hstate
      have hstate : record.state.terminal = false := by simpa using hstate
      split
      · rename_i hhost
        exact steps_finishHost hfault hw hrecord hstate hhost
      · rename_i hhost
        exact steps_finishProvider hfault hw hrecord hstate (by simpa using hhost)

theorem steps_finish (hfault : Failing cfg cause fault) (hw : e.world.Counted w)
    (id : OperationId) (outcome : OperationOutcome) :
    Steps cfg cause fault e (finish cfg id outcome) w :=
  steps_finishAt hfault hw id outcome none

theorem stageFinish_ok {id : OperationId} {record : OperationRecord} {outcome : OperationOutcome}
    {sequence : Option Nat} {commandId : String} {c next : Checkpoint}
    (h : stageFinish id record outcome sequence commandId c = .ok next) :
    ∃ history, c.history.append [resultEntry id record outcome] = .ok history ∧
      next = appendCommand commandId c.history.len .submitted (some id)
        (putOperation id (settled record outcome sequence c.history.len) { c with history }) := by
  unfold stageFinish at h
  rcases hh : c.history.append [resultEntry id record outcome] with error | history
  · simp [hh, bind, Except.bind] at h
  · simp only [hh, bind, Except.bind, pure, Except.pure, Except.ok.injEq] at h
    exact ⟨history, rfl, h.symm⟩

theorem stageFinishProvider_ok {record : OperationRecord} {outcome : OperationOutcome}
    {sequence : Option Nat} {commandId : String} {entry : HistoryEntry} {c next : Checkpoint}
    (h : stageFinishProvider record outcome sequence commandId entry c = .ok next) :
    ∃ history, c.history.append [entry] = .ok history ∧
      next = appendCommand commandId c.history.len .accepted none
        (putOperation record.id (settled record outcome sequence c.history.len)
          { c with history }) := by
  unfold stageFinishProvider at h
  rcases hh : c.history.append [entry] with error | history
  · simp [hh, bind, Except.bind] at h
  · simp only [hh, bind, Except.bind, pure, Except.pure, Except.ok.injEq] at h
    exact ⟨history, rfl, h.symm⟩

/-- Only one operation's record was touched, and it is settled. -/
structure Settles (id : OperationId) (e e' : Engine) : Prop where
  others : ∀ other, other ≠ id →
    e'.current.active.operations[other]? = e.current.active.operations[other]?
  settled : ∀ op, e'.current.active.operations[id]? = some op → op.state.terminal = true
  options : e'.current.options = e.current.options
  catalog : e'.catalog = e.catalog
  admitting : e'.admitting = e.admitting
  batches : e'.batches = e.batches

theorem activeOperation_eq_false {id : OperationId} {c : Checkpoint} :
    activeOperation id c = false ↔
      ∀ op, c.active.operations[id]? = some op → op.active = false := by
  unfold activeOperation
  cases c.active.operations[id]? <;> simp

theorem OperationRecord.active_of_terminal {op : OperationRecord}
    (h : op.state.terminal = true) : op.active = false := by
  unfold OperationRecord.active
  cases hs : op.state <;> simp_all [OperationState.terminal]

private theorem run_finishHost_ok {id : OperationId} {record : OperationRecord}
    {outcome : OperationOutcome} {sequence : Option Nat} {e' : Engine} {u : Unit}
    (h : Program.run (finishHost cfg id record outcome sequence) e = (.ok u, e')) :
    Settles id e e' := by
  obtain ⟨_, _, hread, h⟩ := run_bind_ok h
  cases hread
  obtain ⟨commandId, e₁, hid, h⟩ := run_bind_ok h
  cases hid
  obtain ⟨next, hstage, h⟩ := run_lift_bind_ok h
  obtain ⟨_, e₂, hcommit, h⟩ := run_bind_ok h
  obtain ⟨rfl, -⟩ := run_commit_ok hcommit
  cases h
  obtain ⟨history, -, rfl⟩ := stageFinish_ok hstage
  refine ⟨fun other hother => ?_, fun op hop => ?_, rfl, rfl, rfl, rfl⟩
  · change (e.current.active.operations.insert id _)[other]? = _
    rw [Std.ExtTreeMap.getElem?_insert]
    have : compare id other ≠ .eq := fun h => hother (Std.LawfulEqCmp.eq_of_compare h).symm
    simp [this]
  · change (e.current.active.operations.insert id _)[id]? = _ at hop
    rw [Std.ExtTreeMap.getElem?_insert_self] at hop
    cases hop
    simp [settled]

theorem run_finishAt_host_ok {id : OperationId} {record : OperationRecord}
    {outcome : OperationOutcome} {sequence : Option Nat} {e' : Engine} {u : Unit}
    (hrecord : e.current.active.operations[id]? = some record)
    (hstate : record.state.terminal = false) (hhost : record.owner.host = true)
    (h : Program.run (finishAt cfg id outcome sequence) e = (.ok u, e')) :
    Settles id e e' := by
  obtain ⟨_, -, h⟩ := run_lift_bind_ok h
  obtain ⟨_, _, hread, h⟩ := run_bind_ok h
  cases hread
  simp only [hrecord, hstate, hhost, Bool.false_eq_true, if_false, if_true] at h
  exact run_finishHost_ok h

end Zhir.Kernel
