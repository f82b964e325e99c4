import Zhir.Kernel.ApprovalMoves
import Zhir.Kernel.Lifecycle

/-!
The catalog, recovery and the opening of the model session as chains of moves.
-/

set_option autoImplicit false
set_option relaxedAutoImplicit false

namespace Zhir.Kernel

open Zhir.Core
open Zhir.Library (Program)
open Zhir.Library.Program

section

variable (cfg : Config)

private theorem unbound_newId : Keeps Engine.sessionControl (newId cfg) := fun _ => rfl

private theorem unbound_ask {α : Type} (answer : Nat → α) : Keeps Engine.sessionControl
    (ask answer) :=
  fun _ => rfl

private theorem unbound_commit (next : Checkpoint) (fact : Fact) (delta : HistoryDelta) :
    Keeps Engine.sessionControl (commit cfg next fact delta) := by
  intro e
  rcases run_commit cfg e next fact delta with ⟨_, _, -, h⟩ | ⟨-, h | h⟩ <;> rw [h] <;> rfl

private theorem unbound_retireStreams (keys : List String) (next : Checkpoint) :
    Keeps Engine.sessionControl (retireStreams cfg next keys) := by
  induction keys generalizing next with
  | nil => exact keeps_pure _
  | cons key keys ih =>
    refine keeps_bind ?_ fun _ => ih _
    refine keeps_bind (keeps_require _ _) fun _ => keeps_bind (unbound_ask _) fun _ => ?_
    exact keeps_bind (keeps_lift _) fun _ => keeps_pure _

private theorem unbound_prepareCommand (intent : CommandIntent) :
    Keeps Engine.sessionControl (prepareCommand cfg intent) := by
  refine keeps_bind keeps_read fun _ => keeps_bind (keeps_require _ _) fun _ => ?_
  refine keeps_bind (unbound_newId cfg) fun _ => ?_
  refine keeps_bind (unbound_retireStreams cfg _ _) fun _ => ?_
  refine keeps_bind (unbound_commit cfg _ _ _) fun _ => ?_
  refine keeps_bind (keeps_modify fun _ => rfl) fun _ => ?_
  exact keeps_bind (keeps_when (keeps_modify fun _ => rfl)) fun _ => keeps_pure _

private theorem unbound_finishAt (id : OperationId) (outcome : OperationOutcome)
    (sequence : Option Nat) :
    Keeps Engine.sessionControl (finishAt cfg id outcome sequence) := by
  refine keeps_bind (keeps_lift _) fun _ => keeps_bind keeps_read fun _ => ?_
  split
  · exact keeps_require _ _
  · refine keeps_ite (keeps_require _ _) (keeps_ite ?_ ?_)
    · refine keeps_bind keeps_read fun _ => keeps_bind (unbound_newId cfg) fun _ => ?_
      refine keeps_bind (keeps_lift _) fun _ => keeps_bind (unbound_commit cfg _ _ _) fun _ => ?_
      exact keeps_modify fun _ => rfl
    · refine keeps_bind keeps_read fun _ => keeps_bind (keeps_lift _) fun _ => ?_
      refine keeps_bind (unbound_newId cfg) fun _ => keeps_bind (keeps_lift _) fun _ => ?_
      exact unbound_commit cfg _ _ _

private theorem unbound_localOperationUpdate (id : OperationId) (state : OperationState)
    (wait : Option Value) :
    Keeps Engine.sessionControl (localOperationUpdate cfg id state wait) := by
  refine keeps_bind keeps_read fun _ => ?_
  split
  · exact keeps_fail _
  · exact keeps_bind (keeps_require _ _) fun _ => unbound_commit cfg _ _ _

private theorem unbound_insert (message : Message) (source : String) :
    Keeps Engine.sessionControl (insert cfg message source) := by
  refine keeps_bind keeps_read fun _ => keeps_bind (keeps_require _ _) fun _ => ?_
  refine keeps_bind (keeps_lift _) fun _ => keeps_bind (unbound_newId cfg) fun _ => ?_
  refine keeps_bind (unbound_newId cfg) fun _ => keeps_bind (keeps_lift _) fun _ => ?_
  exact keeps_bind (unbound_commit cfg _ _ _) fun _ => keeps_pure _

private theorem unbound_suspend (reason : WaitReason) : Keeps Engine.sessionControl
    (suspend cfg reason) :=
  keeps_bind keeps_read fun _ => unbound_commit cfg _ _ _

private theorem unbound_resolve (resolution : RecoveryResolution) :
    Keeps Engine.sessionControl (resolve cfg resolution) := by
  cases resolution with
  | complete id outcome => exact unbound_finishAt cfg _ _ _
  | abandon id reason => exact unbound_finishAt cfg _ _ _
  | attach id reference =>
    refine keeps_bind keeps_read fun _ => ?_
    split
    · exact keeps_fail _
    · exact keeps_bind (keeps_require _ _) fun _ => unbound_commit cfg _ _ _
  | abandonGeneration generationId reason =>
    refine keeps_bind keeps_read fun _ => keeps_bind (keeps_require _ _) fun _ => ?_
    refine keeps_bind (keeps_require _ _) fun _ => keeps_bind (keeps_require _ _) fun _ => ?_
    exact unbound_commit cfg _ _ _

theorem unbound_applyRecovery (request : Request) :
    Keeps Engine.sessionControl (applyRecovery cfg request) := by
  cases request with
  | start history context options => exact keeps_pure _
  | recover checkpoint messages resolutions metadata =>
    refine keeps_bind (keeps_forEach (unbound_resolve cfg) _) fun _ => ?_
    refine keeps_bind (keeps_forEach ?_ _) fun _ => ?_
    · exact fun message => keeps_bind (unbound_insert cfg _ _) fun _ => keeps_pure _
    · refine keeps_bind keeps_read fun _ => ?_
      refine keeps_ite (unbound_suspend cfg _) (keeps_ite (keeps_pure _) ?_)
      exact keeps_ite (unbound_suspend cfg _) (keeps_pure _)

private theorem unbound_controlBody (body : ControlBody) :
    Keeps Engine.sessionControl (controlBody cfg body) := by
  have hdone : ∀ {α β : Type} {m : Handler α} {f : α → β}, Keeps Engine.sessionControl m →
      Keeps Engine.sessionControl (do return f (← m)) :=
    fun hm => keeps_bind hm fun _ => keeps_pure _
  have hinput : ∀ (capability : Capability) (unsupported : String) (intent : CommandIntent),
      Keeps Engine.sessionControl (inputControl cfg capability unsupported intent) := by
    intro capability unsupported intent
    refine keeps_bind keeps_read fun _ => keeps_bind (keeps_require _ _) fun _ => ?_
    exact keeps_bind (keeps_require _ _) fun _ => unbound_prepareCommand cfg _
  cases body with
  | pause suspension =>
    refine hdone (keeps_bind keeps_read fun _ => ?_)
    exact keeps_bind (unbound_commit cfg _ _ _) fun _ => unbound_newId cfg
  | input message source => exact hdone (unbound_insert cfg _ _)
  | cancelOperation id =>
    refine hdone (keeps_bind keeps_read fun _ => ?_)
    split
    · exact keeps_fail _
    · refine keeps_ite (keeps_pure _) (keeps_ite ?_ ?_)
      · exact keeps_bind (unbound_finishAt cfg _ _ _) fun _ => keeps_pure _
      · refine keeps_bind (unbound_commit cfg _ _ _) fun _ => ?_
        refine keeps_bind (keeps_modify fun e => ?_) fun _ => keeps_pure _
        rw [Engine.requestCancel_eq]
  | replyOperation id value =>
    refine hdone (keeps_bind keeps_read fun _ => keeps_bind (keeps_require _ _) fun _ => ?_)
    refine keeps_bind (unbound_localOperationUpdate cfg _ _ _) fun _ => ?_
    exact keeps_bind (keeps_modify fun _ => rfl) fun _ => keeps_pure _
  | updateProfile profile =>
    refine hdone (keeps_bind keeps_read fun _ => keeps_bind (keeps_require _ _) fun _ => ?_)
    exact keeps_bind (keeps_lift _) fun _ => unbound_prepareCommand cfg _
  | interruptOutput =>
    refine hdone (keeps_bind keeps_read fun _ => keeps_bind (keeps_require _ _) fun _ => ?_)
    split
    · exact keeps_fail _
    · exact keeps_bind (keeps_require _ _) fun _ => unbound_prepareCommand cfg _
  | flushInput => exact hdone (hinput _ _ _)
  | setInputAudio enabled => exact hdone (hinput _ _ _)
  | sealUserInput => exact hdone (unbound_prepareCommand cfg _)

theorem unbound_check : Keeps Engine.sessionControl (check cfg) := by
  intro e
  simp only [Program.run, check]
  split <;> rfl

theorem unbound_recoverOperations : Keeps Engine.sessionControl (recoverOperations cfg) := by
  refine keeps_bind keeps_read fun _ => keeps_forEach (fun record => ?_) _
  have hunknown := fun reason => unbound_localOperationUpdate cfg record.id .unknown
    (some (Value.reason reason))
  unfold recoverOperation
  split
  · exact keeps_ite (keeps_modify fun _ => rfl) (hunknown _)
  · refine keeps_bind keeps_read fun _ => keeps_bind (keeps_lift _) fun _ => ?_
    refine keeps_bind (keeps_bind keeps_read fun _ => unbound_ask _) fun bound => ?_
    cases bound with
    | ok _ => exact keeps_bind (unbound_check cfg) fun _ => keeps_modify fun _ => rfl
    | error _ => exact hunknown _
  · exact keeps_pure _

theorem unbound_control (body : ControlBody) : Keeps Engine.sessionControl (control cfg body) := by
  have hreply : Keeps Engine.sessionControl (controlReply cfg body) :=
    keeps_bind (keeps_attempt (unbound_controlBody cfg body)) fun _ =>
      keeps_bind keeps_read fun _ => keeps_pure _
  refine keeps_bind hreply fun reply => ?_
  cases reply with
  | ok _ => exact keeps_pure _
  | error error => exact keeps_ite (keeps_fail _) (keeps_pure _)

end

variable {cfg : Config} {cause : Cause} {fault : Engine → Error → Engine → Prop} {e : Engine}
  {w : World}

def Request.resolutions : Request → List RecoveryResolution
  | .start _ _ _ => []
  | .recover _ _ resolutions _ => resolutions

theorem steps_applyRecovery (hfault : Failing cfg cause fault) {request : Request}
    (hcause : cause = .recovery request.resolutions) :
    Steps cfg cause fault e (applyRecovery cfg request) e.world := by
  cases request with
  | start history context options => exact steps_pure (.refl _)
  | recover checkpoint messages resolutions metadata =>
    refine steps_bind ?_ fun _ e₁ _ _ => ?_
    · refine steps_forEach (fun rest _ => ∀ r ∈ rest, r ∈ resolutions) ?_ fun _ hr => hr
      intro r rest e₁ h
      obtain ⟨hmem, hrest⟩ := List.forall_mem_cons.mp h
      exact ⟨steps_resolve hfault (.refl _) hcause hmem, fun _ _ _ => hrest⟩
    · refine steps_bind ?_ fun _ e₂ _ _ => ?_
      · refine steps_forEach (fun _ _ => True) ?_ trivial
        intro message rest e₂ _
        refine ⟨steps_bind (steps_insert hfault (.refl _) _ _) ?_, fun _ _ _ => trivial⟩
        intro _ e₃ _ _
        exact steps_pure (.refl _)
      · refine steps_read_bind ?_
        refine steps_ite (fun _ => steps_suspend hfault (.refl _) _) fun _ => ?_
        refine steps_ite (fun _ => steps_pure (.refl _)) fun _ => ?_
        exact steps_ite (fun _ => steps_suspend hfault (.refl _) _) fun _ => steps_pure (.refl _)

theorem steps_openCatalog (hfault : Failing cfg cause fault) (hunbound : e.sessionControl = none)
    (opened : Result Catalog) : Steps cfg cause fault e (openCatalog opened) e.world := by
  refine steps_read_bind ?_
  refine steps_lift_bind hfault (.refl _) fun inner _ => ?_
  refine steps_lift_bind hfault (.refl _) fun catalog _ => ?_
  exact steps_modify (.single (.catalog hunbound))

theorem unbound_openCatalog (opened : Result Catalog) :
    Keeps Engine.sessionControl (openCatalog opened) := by
  refine keeps_bind keeps_read fun _ => keeps_bind (keeps_lift _) fun _ => ?_
  exact keeps_bind (keeps_lift _) fun _ => keeps_modify fun _ => rfl

private theorem unbound_commitOpening : Keeps Engine.sessionControl (commitOpening cfg) :=
  keeps_bind keeps_read fun _ => keeps_bind (unbound_newId cfg) fun _ => unbound_commit cfg _ _ _

private theorem unbound_beginOpening : Keeps Engine.sessionControl (beginOpening cfg) := by
  refine keeps_bind keeps_read fun _ => keeps_bind (keeps_require _ _) fun _ => ?_
  refine keeps_bind (keeps_require _ _) fun _ => ?_
  refine keeps_bind (keeps_when unbound_commitOpening) fun _ => keeps_bind keeps_read fun _ => ?_
  exact keeps_bind (keeps_modify fun _ => rfl) fun _ => keeps_pure _

theorem unbound_catalogOpened (request : Request) (opened : Result Catalog) :
    Keeps Engine.sessionControl (catalogOpened cfg request opened) := by
  refine keeps_bind (unbound_openCatalog opened) fun _ => ?_
  refine keeps_bind (unbound_applyRecovery cfg request) fun _ => keeps_bind keeps_read fun _ => ?_
  exact keeps_ite (keeps_bind unbound_beginOpening fun _ => keeps_pure _) (keeps_pure _)

private theorem steps_commitOpening (hfault : Failing cfg cause fault) (hw : e.world.Counted w)
    (hremote : e.localProjection cfg = false) (hunbound : e.sessionControl = none) :
    Steps cfg cause fault e (commitOpening cfg) w := by
  refine steps_read_bind ?_
  refine steps_newId_bind hw fun w₁ hw₁ _ => ?_
  exact steps_save hfault hw₁ (.opening hremote hunbound)

private theorem steps_beginOpening (hfault : Failing cfg cause fault)
    (hunbound : e.sessionControl = none) :
    Steps cfg cause fault e (beginOpening cfg) e.world := by
  have hopen : ∀ e₁ : Engine, e₁.sessionControl = none → Steps cfg cause fault e₁ (do
      let e ← Program.read
      Program.modify (perform (.opening e.sessionOpen))
      return e.sessionOpen) e₁.world := by
    intro e₁ hunbound₁
    refine steps_read_bind ?_
    refine steps_modify_bind (.single (.opening hunbound₁)) ?_
    exact steps_pure (.refl _)
  refine steps_read_bind ?_
  refine steps_require_bind hfault (.refl _) fun _ => ?_
  refine steps_require_bind hfault (.refl _) fun _ => ?_
  refine steps_when_bind (fun hremote => ?_) fun _ => hopen e hunbound
  refine steps_bind (steps_commitOpening hfault (.refl _) hremote hunbound) ?_
  intro _ e₁ hrun _
  refine hopen e₁ ?_
  have hkeeps : (Program.run (commitOpening cfg) (e.inWorld e.world)).2.sessionControl =
      (e.inWorld e.world).sessionControl := unbound_commitOpening _
  rw [hrun] at hkeeps
  exact hkeeps.trans hunbound

theorem steps_catalogOpened (hfault : Failing cfg cause fault) (hunbound : e.sessionControl = none)
    {request : Request} (hcause : cause = .recovery request.resolutions)
    (opened : Result Catalog) :
    Steps cfg cause fault e (catalogOpened cfg request opened) e.world := by
  refine steps_bind (steps_openCatalog hfault hunbound opened) ?_
  intro _ e₁ hrun₁ _
  have h₁ : e₁.sessionControl = none := by
    have hkeeps := unbound_openCatalog opened (e.inWorld e.world)
    rw [hrun₁] at hkeeps
    exact hkeeps.trans hunbound
  refine steps_bind (steps_applyRecovery hfault hcause) ?_
  intro _ e₂ hrun₂ _
  have h₂ : e₂.sessionControl = none := by
    have hkeeps := unbound_applyRecovery cfg request (e₁.inWorld e₁.world)
    rw [hrun₂] at hkeeps
    exact hkeeps.trans h₁
  refine steps_read_bind ?_
  refine steps_ite (fun _ => ?_) fun _ => steps_pure (.refl _)
  exact steps_bind (steps_beginOpening hfault h₂) fun _ _ _ _ => steps_pure (.refl _)

private theorem steps_startMediaOutput (hfault : Failing cfg cause fault) (hlooping : e.Looping)
    (hpending : e.mediaPending = false) (hfresh : ∀ task ∈ e.tasks, task.isMedia = false)
    (session : ModelSession) :
    Steps cfg cause fault e (startMediaOutput cfg session) e.world := by
  refine steps_when (.refl _) fun _ => ?_
  refine steps_require_bind hfault (.refl _) fun _ => ?_
  exact steps_modify (.single (.startOutput hlooping hpending hfresh))

private theorem steps_establish (hfault : Failing cfg cause fault) (hunbound : e.Unbound)
    (session : ModelSession) (request : ModelRequest) :
    Steps cfg cause fault e (establish cfg session request) e.world := by
  refine steps_read_bind ?_
  refine steps_ite (fun _ => steps_suspend hfault (.refl _) _) fun hcapabilities => ?_
  refine steps_require_bind hfault (.refl _) fun _ => ?_
  refine steps_require_bind hfault (.refl _) fun _ => ?_
  refine steps_lift_bind hfault (.refl _) fun negotiated _ => ?_
  refine steps_require_bind hfault (.refl _) fun _ => ?_
  refine steps_newId_bind (.refl _) fun w hw _ => ?_
  let bound := (e.saved cfg w (stageOpened session.control negotiated e.current)
    (.command (cfg.name e.world.names))).bind session
  have hbind : Accepts cfg w e.current (stageOpened session.control negotiated e.current)
      (.command (cfg.name e.world.names)) .unchanged → Move cfg cause e bound :=
    fun haccepts => .bind hw hunbound.control (Bool.eq_false_iff.mpr hcapabilities) haccepts
  refine steps_commit_bind hfault hw (fun haccepts => ⟨_, hbind haccepts, rfl⟩) fun haccepts => ?_
  have hlooping : bound.Looping := ⟨rfl, hunbound.handling⟩
  have hfresh : ∀ task ∈ bound.tasks, task.isMedia = false := by
    intro task htask
    rcases List.mem_append.mp htask with htask | htask
    · exact hunbound.tasks task htask
    · rw [List.mem_singleton.mp htask]
      rfl
  have hpending : bound.mediaPending = false := hunbound.pending
  exact Chains.after (.single (hbind haccepts))
    (steps_startMediaOutput hfault hlooping hpending hfresh session)

theorem steps_finishOpening (hfault : Failing cfg cause fault) (hunbound : e.Unbound)
    (opening : SessionOpen) (result : Result ModelSession) :
    Steps cfg cause fault e (finishOpening cfg opening result) e.world := by
  refine steps_read_bind ?_
  cases result with
  | ok session => exact steps_establish hfault hunbound session _
  | error error =>
    refine steps_ite (fun _ => steps_suspend hfault (.refl _) _) fun _ => ?_
    cases error with
    | uncertain _ => exact steps_suspend hfault (.refl _) _
    | _ => exact steps_fail hfault (.refl _)

theorem run_suspend_ok {reason : WaitReason} {e' : Engine} {u : Unit}
    (h : Program.run (suspend cfg reason) e = (.ok u, e')) : e'.current.state.active = false := by
  obtain ⟨_, _, hread, h⟩ := run_bind_ok h
  cases hread
  obtain ⟨rfl, -⟩ := run_commit_ok h
  rfl

private theorem run_startMediaOutput_ok {session : ModelSession} {e' : Engine} {u : Unit}
    (h : Program.run (startMediaOutput cfg session) e = (.ok u, e')) :
    e'.sessionControl = e.sessionControl := by
  unfold startMediaOutput Program.when at h
  split at h
  · obtain ⟨-, h⟩ := run_require_bind_ok h
    cases h
    rfl
  · cases h
    rfl

theorem run_finishOpening_ok {opening : SessionOpen} {result : Result ModelSession}
    {e' : Engine} {u : Unit}
    (h : Program.run (finishOpening cfg opening result) e = (.ok u, e')) :
    e'.current.state.active = true → e'.sessionControl.isSome = true := by
  obtain ⟨_, _, hread, h⟩ := run_bind_ok h
  cases hread
  intro hactive
  have hsuspended : ∀ {reason : WaitReason},
      Program.run (suspend cfg reason) e = (.ok u, e') → e'.sessionControl.isSome = true := by
    intro reason hsuspend
    rw [run_suspend_ok hsuspend] at hactive
    cases hactive
  cases result with
  | ok session =>
    obtain ⟨_, _, hread, h⟩ := run_bind_ok h
    cases hread
    rw [run_ite] at h
    split at h
    · exact hsuspended h
    · obtain ⟨-, h⟩ := run_require_bind_ok h
      obtain ⟨-, h⟩ := run_require_bind_ok h
      obtain ⟨negotiated, -, h⟩ := run_lift_bind_ok h
      obtain ⟨-, h⟩ := run_require_bind_ok h
      obtain ⟨_, e₁, -, h⟩ := run_bind_ok h
      obtain ⟨_, e₂, -, h⟩ := run_bind_ok h
      obtain ⟨_, e₃, hmodify, h⟩ := run_bind_ok h
      cases hmodify
      rw [run_startMediaOutput_ok h]
      rfl
  | error error =>
    rw [run_ite] at h
    split at h
    · exact hsuspended h
    · cases error with
      | uncertain _ => exact hsuspended h
      | _ => cases h

theorem steps_sessionOpened (hfault : Failing cfg cause fault) (hunbound : e.Unbound)
    (hvalid : e.current.Valid) (opening : SessionOpen) (result : Result ModelSession) :
    Steps cfg cause fault e (sessionOpened cfg opening result) e.world := by
  refine steps_bind (steps_finishOpening hfault hunbound opening result) ?_
  intro _ e₁ hrun hmoves
  refine steps_read_bind ?_
  refine steps_ite (fun _ => ?_) fun _ => steps_pure (.refl _)
  refine steps_bind (steps_recoverOperations hfault (hmoves.valid hvalid)) ?_
  intro _ e₂ _ _
  exact steps_pure (.refl _)

end Zhir.Kernel
