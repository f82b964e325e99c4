import Zhir.Kernel.CommandMoves

/-!
Worker events, recovery resolutions and host controls as moves.
-/

set_option autoImplicit false
set_option relaxedAutoImplicit false

namespace Zhir.Kernel

open Zhir.Core
open Zhir.Library (Program)
open Zhir.Library.Program
open Relation (ReflTransGen)

variable {cfg : Config} {cause : Cause} {fault : Engine → Error → Engine → Prop} {e : Engine}
  {w : World}

private theorem steps_contextEvent (hfault : Failing cfg cause fault) (hw : e.world.Counted w)
    (id : OperationId) (event : OperationEvent) (content : List Content) :
    Steps cfg cause fault e (contextEvent cfg id event content) w := by
  refine steps_read_bind ?_
  split
  · exact steps_fail hfault hw
  · rename_i record hrecord
    refine steps_require_bind hfault hw fun hactive => ?_
    split
    · exact steps_pure hw
    · exact steps_fail hfault hw
    · refine steps_lift_bind hfault hw fun _ _ => ?_
      refine steps_newId_bind hw fun w₁ hw₁ hn₁ => ?_
      exact steps_save hfault hw₁
        (.context hrecord hactive.1 hactive.2 ⟨hw.names, by omega⟩)

/-- The event is new for the operation, and a host operation's own worker reports it. -/
structure Reported (e : Engine) (id : OperationId) (event : OperationEvent) : Prop where
  fresh : ∀ record, e.current.active.operations[id]? = some record →
    delivery record event = .fresh
  worker : ∀ record, e.current.active.operations[id]? = some record → record.owner.host = true →
    e.handling = some (.operation id (.ok (some event)))

private theorem steps_updateEvent (hfault : Failing cfg cause fault) (hw : e.world.Counted w)
    {id : OperationId} {event : OperationEvent} (hreported : Reported e id event) :
    Steps cfg cause fault e (updateEvent cfg id event) w := by
  refine steps_read_bind ?_
  split
  · exact steps_fail hfault hw
  · rename_i record hrecord
    refine steps_require_bind hfault hw fun hstate => ?_
    exact steps_save hfault hw
      (.update hrecord hstate (hreported.fresh record hrecord) (hreported.worker record hrecord))

private theorem steps_freshEvent (hfault : Failing cfg cause fault) (hw : e.world.Counted w)
    {id : OperationId} {event : OperationEvent} (hreported : Reported e id event) :
    Steps cfg cause fault e (freshEvent cfg id event) w := by
  unfold freshEvent
  split
  · exact steps_finishAt hfault hw _ _ _
  · exact steps_read_bind (steps_require hfault hw)
  · exact steps_updateEvent hfault hw hreported

theorem steps_operationEvent (hfault : Failing cfg cause fault) (hw : e.world.Counted w)
    {id : OperationId} {event : OperationEvent}
    (hworker : ∀ record, e.current.active.operations[id]? = some record →
      record.owner.host = true → e.handling = some (.operation id (.ok (some event)))) :
    Steps cfg cause fault e (operationEvent cfg id event) w := by
  unfold operationEvent
  split
  · exact steps_contextEvent hfault hw _ _ _
  · refine steps_read_bind ?_
    split
    · exact steps_pure hw
    · exact steps_fail hfault hw
    · rename_i hreplay hconflict
      refine steps_freshEvent hfault hw ⟨fun record hrecord => ?_, hworker⟩
      change (e.current.active.operations[id]?).map (delivery · event) ≠ some .conflict at hconflict
      change (e.current.active.operations[id]?).map (delivery · event) ≠ some .replay at hreplay
      rw [hrecord] at hreplay hconflict
      rcases hd : delivery record event with _ | _ | _
      · rfl
      · exact absurd (congrArg some hd) hreplay
      · exact absurd (congrArg some hd) hconflict

/-- The record of an operation whose outcome can no longer be known. -/
def lost (record : OperationRecord) (reason : String) : OperationRecord :=
  { record with state := .unknown, wait := some (Value.reason reason) }

private theorem steps_unknown_bind {α : Type} (hfault : Failing cfg cause fault)
    (hw : e.world.Counted w) {id : OperationId} {reason : String} {f : Unit → Handler α}
    (hbegun : ∀ record, e.current.active.operations[id]? = some record → e.Begun id record)
    (hf : ∀ record e', e.current.active.operations[id]? = some record →
      e' = e.saved cfg w (putOperation id (lost record reason) e.current)
        (.operation id .unknown) → Steps cfg cause fault e' (f ()) e'.world) :
    Steps cfg cause fault e (unknown cfg id reason >>= f) w := by
  unfold unknown localOperationUpdate
  rw [bind_assoc]
  refine steps_read_bind ?_
  rcases hrecord : e.current.active.operations[id]? with _ | record
  · have hnone : (e.inWorld w).current.active.operations[id]? = none := hrecord
    rw [hnone]
    exact steps_bind (steps_fail hfault hw) fun _ _ hr => by cases hr
  · have hsome : (e.inWorld w).current.active.operations[id]? = some record := hrecord
    simp only [hsome, bind_assoc]
    refine steps_require_bind hfault hw fun hstate => ?_
    exact steps_save_bind hfault hw (.lose hrecord hstate (hbegun record hrecord))
      (hf record _ hrecord rfl)

theorem steps_unknown (hfault : Failing cfg cause fault) (hw : e.world.Counted w)
    {id : OperationId} {reason : String}
    (hbegun : ∀ record, e.current.active.operations[id]? = some record → e.Begun id record) :
    Steps cfg cause fault e (unknown cfg id reason) w :=
  Chains.of_bind_pure (steps_unknown_bind hfault hw hbegun
    fun _ _ _ _ => steps_pure (World.Counted.refl _))

theorem run_localOperationUpdate_ok {id : OperationId} {state : OperationState}
    {wait : Option Value} {e' : Engine} {u : Unit}
    (h : Program.run (localOperationUpdate cfg id state wait) e = (.ok u, e')) :
    ∃ op, e.current.active.operations[id]? = some op ∧ op.state.terminal = false ∧
      e' = e.saved cfg e.world (putOperation id { op with state, wait } e.current)
        (.operation id state) := by
  obtain ⟨_, _, hread, h⟩ := run_bind_ok h
  cases hread
  cases hop : e.current.active.operations[id]? with
  | none =>
    rw [hop] at h
    cases h
  | some op =>
    simp only [hop] at h
    obtain ⟨hstate, h⟩ := run_require_bind_ok h
    exact ⟨op, rfl, hstate, (run_commit_ok h).1⟩

theorem steps_installOperation (hfault : Failing cfg cause fault) (hw : e.world.Counted w)
    {id : OperationId} {handle : OperationHandle}
    (hhandling : e.handling = some (.started id (.ok (.active handle)))) :
    Steps cfg cause fault e (installOperation cfg id handle) w := by
  refine steps_read_bind ?_
  split
  · exact steps_fail hfault hw
  · rename_i record hrecord
    refine steps_save_bind hfault hw (.install hrecord hhandling) ?_
    let installed := { record with recovery := handle.recovery.or record.recovery }
    have hinstalled : (putOperation id installed e.current).active.operations[id]? =
        some installed := by simp [putOperation]
    have hmove : Move cfg cause (e.saved cfg w (putOperation id installed e.current)
        (.operation id record.state)) ((e.saved cfg w (putOperation id installed e.current)
        (.operation id record.state)).install id installed.state) :=
      .install hinstalled hhandling
    exact steps_modify (.single hmove)

private theorem steps_attach (hfault : Failing cfg cause fault) (hw : e.world.Counted w)
    {id : OperationId} {reference : RecoveryRef} {resolutions : List RecoveryResolution}
    (hcause : cause = .recovery resolutions) (hmem : .attach id reference ∈ resolutions) :
    Steps cfg cause fault e (attach cfg id reference) w := by
  refine steps_read_bind ?_
  split
  · exact steps_fail hfault hw
  · rename_i record hrecord
    refine steps_require_bind hfault hw fun hstate => ?_
    exact steps_save hfault hw (.attach hcause hmem hrecord hstate)

private theorem steps_abandonGeneration (hfault : Failing cfg cause fault) (hw : e.world.Counted w)
    {generationId reason : String} {resolutions : List RecoveryResolution}
    (hcause : cause = .recovery resolutions) :
    Steps cfg cause fault e (abandonGeneration cfg generationId reason) w := by
  refine steps_read_bind ?_
  refine steps_require_bind hfault hw fun hlocal => ?_
  refine steps_require_bind hfault hw fun hgeneration => ?_
  refine steps_require_bind hfault hw fun hprovider => ?_
  exact steps_save hfault hw (.abandon hcause hlocal hgeneration.1 hgeneration.2 hprovider)

theorem steps_resolve (hfault : Failing cfg cause fault) (hw : e.world.Counted w)
    {resolution : RecoveryResolution} {resolutions : List RecoveryResolution}
    (hcause : cause = .recovery resolutions) (hmem : resolution ∈ resolutions) :
    Steps cfg cause fault e (resolve cfg resolution) w := by
  cases resolution with
  | attach id reference => exact steps_attach hfault hw hcause hmem
  | complete id outcome => exact steps_finish hfault hw _ _
  | abandon id reason => exact steps_finish hfault hw _ _
  | abandonGeneration generationId reason => exact steps_abandonGeneration hfault hw hcause

theorem steps_insert (hfault : Failing cfg cause fault) (hw : e.world.Counted w)
    (message : Message) (source : String) :
    Steps cfg cause fault e (insert cfg message source) w := by
  refine steps_read_bind ?_
  refine steps_require_bind hfault hw fun hsealed => ?_
  refine steps_lift_bind hfault hw fun _ _ => ?_
  refine steps_newId_bind hw fun w₁ hw₁ hn₁ => ?_
  refine steps_newId_bind hw₁ fun w₂ hw₂ hn₂ => ?_
  refine steps_lift_bind hfault hw₂ fun next hstage => ?_
  have hn : Generated e w₂ w.names := ⟨hw.names, by omega⟩
  have hk : Generated e w₂ w₁.names := ⟨hw₁.names, by omega⟩
  exact steps_save_bind hfault hw₂ (.insert hsealed hn hk (by omega) hstage)
    (steps_pure (World.Counted.refl _))

private theorem steps_newId (hw : e.world.Counted w) : Steps cfg cause fault e (newId cfg) w :=
  Chains.of_bind_pure (steps_newId_bind hw fun _ hw₁ _ => steps_pure hw₁)

theorem steps_suspend (hfault : Failing cfg cause fault) (hw : e.world.Counted w)
    (reason : WaitReason) : Steps cfg cause fault e (suspend cfg reason) w :=
  steps_read_bind (steps_save hfault hw .suspend)

private theorem steps_pause (hfault : Failing cfg cause fault) (hw : e.world.Counted w)
    (suspension : Suspension) : Steps cfg cause fault e (pause cfg suspension) w := by
  refine steps_read_bind ?_
  exact steps_save_bind hfault hw .suspend (steps_newId (World.Counted.refl _))

private theorem steps_updateProfile (hfault : Failing cfg cause fault) (hw : e.world.Counted w)
    (profile : RequestProfile) : Steps cfg cause fault e (updateProfile cfg profile) w := by
  refine steps_read_bind ?_
  refine steps_require_bind hfault hw fun hcap => ?_
  refine steps_lift_bind hfault hw fun _ _ => ?_
  exact steps_prepareCommand hfault hw (.updateProfile hcap)

private theorem steps_interruptOutput (hfault : Failing cfg cause fault) (hw : e.world.Counted w) :
    Steps cfg cause fault e (interruptOutput cfg) w := by
  refine steps_read_bind ?_
  refine steps_require_bind hfault hw fun hcap => ?_
  split
  · exact steps_fail hfault hw
  · rename_i generationId hgeneration
    refine steps_require_bind hfault hw fun _ => ?_
    exact steps_prepareCommand hfault hw (.interruptOutput hcap hgeneration)

private theorem steps_inputControl (hfault : Failing cfg cause fault) (hw : e.world.Counted w)
    {capability : Capability} {unsupported : String} {intent : CommandIntent}
    (hprepared : e.supports cfg capability = true → Prepared cfg e intent) :
    Steps cfg cause fault e (inputControl cfg capability unsupported intent) w := by
  refine steps_read_bind ?_
  refine steps_require_bind hfault hw fun hcap => ?_
  refine steps_require_bind hfault hw fun _ => ?_
  exact steps_prepareCommand hfault hw (hprepared hcap)

private theorem steps_cancelOperation (hfault : Failing cfg cause fault) (hw : e.world.Counted w)
    {id : OperationId} (hcause : cause = .control (.cancelOperation id)) :
    Steps cfg cause fault e (cancelOperation cfg id) w := by
  refine steps_read_bind ?_
  split
  · exact steps_fail hfault hw
  · rename_i record hrecord
    refine steps_ite (fun _ => steps_pure hw) fun hstate => ?_
    have hstate : record.state.terminal = false := by simpa using hstate
    refine steps_ite (fun _ => ?_) fun hqueued => ?_
    · exact steps_bind (steps_finish hfault hw _ _) fun _ e' _ _ =>
        steps_pure (World.Counted.refl _)
    · refine steps_save_bind hfault hw (.cancelling hcause hrecord hstate hqueued) ?_
      exact steps_modify_bind (.single .requestCancel) (steps_pure (World.Counted.refl _))

private theorem steps_replyOperation (hfault : Failing cfg cause fault) (hw : e.world.Counted w)
    (id : OperationId) (value : Value) :
    Steps cfg cause fault e (replyOperation cfg id value) w := by
  refine steps_read_bind ?_
  refine steps_require_bind hfault hw fun hcontrol => ?_
  refine steps_unknown_bind hfault hw (fun _ _ => .inr (.inl hcontrol)) ?_
  rintro record e' - rfl
  exact steps_modify_bind (.single (.awaitReply hcontrol)) (steps_pure (World.Counted.refl _))

theorem steps_controlBody (hfault : Failing cfg cause fault) (hw : e.world.Counted w)
    {body : ControlBody} (hcause : cause = .control body) :
    Steps cfg cause fault e (controlBody cfg body) w := by
  have hdone : ∀ {α β : Type} {m : Handler α} {f : α → β}, Steps cfg cause fault e m w →
      Steps cfg cause fault e (do return f (← m)) w := fun hm =>
    steps_bind hm fun _ _ _ _ => steps_pure (World.Counted.refl _)
  cases body with
  | pause suspension => exact hdone (steps_pause hfault hw suspension)
  | input message source => exact hdone (steps_insert hfault hw message source)
  | cancelOperation id => exact hdone (steps_cancelOperation hfault hw hcause)
  | replyOperation id value => exact hdone (steps_replyOperation hfault hw id value)
  | updateProfile profile => exact hdone (steps_updateProfile hfault hw profile)
  | interruptOutput => exact hdone (steps_interruptOutput hfault hw)
  | flushInput => exact hdone (steps_inputControl hfault hw .flushInput)
  | setInputAudio enabled => exact hdone (steps_inputControl hfault hw .setInputAudio)
  | sealUserInput => exact hdone (steps_prepareCommand hfault hw .sealUserInput)

end Zhir.Kernel
