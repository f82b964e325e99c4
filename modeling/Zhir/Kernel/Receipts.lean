import Zhir.Kernel.Repeated
import Zhir.Kernel.Streams

/-!
Host controls. A refused control has changed nothing, and a receipt is given for what the
durable checkpoint already says.
-/

set_option autoImplicit false
set_option relaxedAutoImplicit false

namespace Zhir.Kernel

open Zhir.Core
open Zhir.Library (Program)
open Zhir.Library.Program

variable {cfg : Config} {e e' : Engine} {α β : Type}

def storageFailure : Error → Bool
  | .storage _ => true
  | _ => false

/-- The engine is as it was, up to identities and outside answers that were used up; only a
failing store leaves more behind. -/
def Unaltered (e : Engine) (error : Error) (e' : Engine) : Prop :=
  storageFailure error = true ∨ ∃ w, e.world.Counted w ∧ e' = e.inWorld w

private theorem unaltered_refl (e : Engine) (error : Error) : Unaltered e error e :=
  .inr ⟨e.world, .refl _, rfl⟩

theorem Unaltered.after {w : World} {error : Error} (h : Unaltered (e.inWorld w) error e')
    (hw : e.world.Counted w) : Unaltered e error e' := by
  rcases h with hstorage | ⟨w', hw', rfl⟩
  · exact .inl hstorage
  · exact .inr ⟨w', hw.trans hw', rfl⟩

private theorem clean_require {c : Prop} [Decidable c] {error : Error} :
    Clean Unaltered (Program.require c error : Handler Unit) :=
  clean_ite (fun _ => clean_of_total (total_pure ()))
    fun _ => clean_fail fun e => unaltered_refl e error

private theorem clean_newId_bind {f : String → Handler β} (hf : ∀ id, Clean Unaltered (f id)) :
    Clean Unaltered (newId cfg >>= f) := by
  refine clean_bind_quiet (clean_of_total fun e => ⟨_, _, rfl⟩) ?_ hf
  intro e id e₁ hrun error e' h
  cases hrun
  have hnamed : Unaltered (e.inWorld { e.world with names := e.world.names + 1 }) error e' := h
  exact hnamed.after ⟨rfl, rfl, Nat.le_succ _, le_rfl⟩

private theorem clean_commit (next : Checkpoint) (fact : Fact) (delta : HistoryDelta) :
    Clean Unaltered (commit cfg next fact delta) := by
  intro e error e' hrun
  rcases run_commit cfg e next fact delta with ⟨error', w, hw, hr⟩ | ⟨-, hr | hr⟩
  · rw [hr] at hrun
    cases hrun
    exact .inr ⟨w, hw, rfl⟩
  · rw [hr] at hrun
    cases hrun
  · rw [hr] at hrun
    cases hrun
    exact .inl rfl

private theorem clean_retireStreams_bind {f : Checkpoint → Handler β}
    (hf : ∀ next, Clean Unaltered (f next)) (keys : List String) :
    ∀ next, Clean Unaltered (retireStreams cfg next keys >>= f) := by
  induction keys with
  | nil => exact hf
  | cons key keys ih =>
    intro next
    simp only [retireStreams, archiveMedia, bind_assoc, pure_bind]
    refine clean_require_bind unaltered_refl fun _ => ?_
    refine clean_bind_quiet (clean_of_total fun e => ⟨_, _, rfl⟩) ?_ fun written => ?_
    · intro e written e₁ hrun error e' h
      cases hrun
      have hasked : Unaltered (e.inWorld e.world.tick) error e' := h
      exact hasked.after (World.Counted.refl _).tick
    · exact clean_lift_bind unaltered_refl fun reference _ => ih _

private theorem clean_prepareCommand (intent : CommandIntent) :
    Clean Unaltered (prepareCommand cfg intent) := by
  refine clean_read_bind fun e => clean_require_bind unaltered_refl fun _ => ?_
  refine clean_newId_bind fun id => clean_retireStreams_bind (fun next => ?_) _ _
  refine clean_bind_total (clean_commit _ _ _) fun _ => ?_
  refine total_bind (total_modify _) fun _ => ?_
  exact total_bind (total_when (total_modify _)) fun _ => total_pure _

private theorem clean_insert (message : Message) (source : String) :
    Clean Unaltered (insert cfg message source) := by
  refine clean_read_bind fun e => clean_require_bind unaltered_refl fun _ => ?_
  refine clean_lift_bind unaltered_refl fun _ _ => ?_
  refine clean_newId_bind fun id => clean_newId_bind fun commandId => ?_
  refine clean_lift_bind unaltered_refl fun next _ => ?_
  exact clean_bind_total (clean_commit _ _ _) fun _ => total_pure _

private theorem clean_pause (suspension : Suspension) : Clean Unaltered (pause cfg suspension) :=
  clean_read_bind fun _ => clean_bind_total (clean_commit _ _ _) fun _ _ => ⟨_, _, rfl⟩

private theorem clean_updateProfile (profile : RequestProfile) :
    Clean Unaltered (updateProfile cfg profile) := by
  refine clean_read_bind fun e => clean_require_bind unaltered_refl fun _ => ?_
  exact clean_lift_bind unaltered_refl fun _ _ => clean_prepareCommand _

private theorem clean_interruptOutput : Clean Unaltered (interruptOutput cfg) := by
  refine clean_read_bind fun e => clean_require_bind unaltered_refl fun _ => ?_
  split
  · exact clean_fail fun e => unaltered_refl e _
  · exact clean_require_bind unaltered_refl fun _ => clean_prepareCommand _

private theorem clean_inputControl (capability : Capability) (unsupported : String)
    (intent : CommandIntent) :
    Clean Unaltered (inputControl cfg capability unsupported intent) := by
  refine clean_read_bind fun e => clean_require_bind unaltered_refl fun _ => ?_
  exact clean_require_bind unaltered_refl fun _ => clean_prepareCommand _

private theorem clean_finishAt (id : OperationId) (outcome : OperationOutcome)
    (sequence : Option Nat) :
    Clean Unaltered (finishAt cfg id outcome sequence) := by
  refine clean_lift_bind unaltered_refl fun _ _ => clean_read_bind fun e => ?_
  split
  · exact clean_require
  · refine clean_ite (fun _ => clean_require) fun _ => clean_ite (fun _ => ?_) fun _ => ?_
    · refine clean_read_bind fun e => clean_newId_bind fun commandId => ?_
      refine clean_lift_bind unaltered_refl fun next _ => ?_
      exact clean_bind_total (clean_commit _ _ _) fun _ => total_modify _
    · refine clean_read_bind fun e => clean_lift_bind unaltered_refl fun entry _ => ?_
      refine clean_newId_bind fun commandId => clean_lift_bind unaltered_refl fun next _ => ?_
      exact clean_commit _ _ _

private theorem clean_cancelOperation (id : OperationId) :
    Clean Unaltered (cancelOperation cfg id) := by
  refine clean_read_bind fun e => ?_
  split
  · exact clean_fail fun e => unaltered_refl e _
  · refine clean_ite (fun _ => clean_of_total (total_pure _)) fun _ => ?_
    refine clean_ite (fun _ => ?_) fun _ => ?_
    · exact clean_bind_total (clean_finishAt _ _ _) fun _ => total_pure _
    · refine clean_bind_total (clean_commit _ _ _) fun _ => ?_
      exact total_bind (total_modify _) fun _ => total_pure _

private theorem clean_localOperationUpdate (id : OperationId) (state : OperationState)
    (wait : Option Value) : Clean Unaltered (localOperationUpdate cfg id state wait) := by
  refine clean_read_bind fun e => ?_
  split
  · exact clean_fail fun e => unaltered_refl e _
  · exact clean_require_bind unaltered_refl fun _ => clean_commit _ _ _

private theorem clean_replyOperation (id : OperationId) (value : Value) :
    Clean Unaltered (replyOperation cfg id value) := by
  refine clean_read_bind fun e => clean_require_bind unaltered_refl fun _ => ?_
  refine clean_bind_total (clean_localOperationUpdate _ _ _) fun _ => ?_
  exact total_bind (total_modify _) fun _ => total_pure _

/-- Whatever a control was refused for, nothing had been changed when it was. -/
private theorem clean_controlBody (body : ControlBody) : Clean Unaltered
    (controlBody cfg body) := by
  have hdone : ∀ {α : Type} {m : Handler α} {f : α → IntentId}, Clean Unaltered m →
      Clean Unaltered (do return f (← m)) :=
    fun hm => clean_bind_total hm fun _ => total_pure _
  cases body with
  | pause suspension => exact hdone (clean_pause suspension)
  | input message source => exact hdone (clean_insert message source)
  | cancelOperation id => exact hdone (clean_cancelOperation id)
  | replyOperation id value => exact hdone (clean_replyOperation id value)
  | updateProfile profile => exact hdone (clean_updateProfile profile)
  | interruptOutput => exact hdone clean_interruptOutput
  | flushInput => exact hdone (clean_inputControl _ _ _)
  | setInputAudio enabled => exact hdone (clean_inputControl _ _ _)
  | sealUserInput => exact hdone (clean_prepareCommand _)

/-- The intent of a control as a checkpoint holds it, with what the receipt names. -/
def Intended (c₀ : Checkpoint) (body : ControlBody) (named : IntentId) (c : Checkpoint) : Prop :=
  match body with
  | .pause suspension => c.state = .suspended suspension
  | .input message source => ∃ id, named = .command id ∧
      c.history.get c₀.history.len = some ⟨.inserted id, none, message⟩ ∧
      c.fact = .conversationInsert source ∧ ∃ commandId,
        ⟨commandId, .append c₀.history.len c.active.session.contextRevision
          c.active.session.inputPosition .submitted none, false⟩ ∈ c.active.commands
  | .updateProfile profile => ∃ id, named = .command id ∧
      ⟨id, .updateProfile (nextProfileRevision c₀) profile, false⟩ ∈ c.active.commands
  | .interruptOutput => ∃ id generationId, named = .command id ∧
      c₀.active.session.generationId = some generationId ∧
      c.active.session.outputEpoch = c₀.active.session.outputEpoch + 1 ∧
      ⟨id, .interruptOutput generationId c.active.session.outputEpoch, false⟩ ∈ c.active.commands
  | .flushInput => ∃ id, named = .command id ∧ ⟨id, .flushInput, false⟩ ∈ c.active.commands
  | .setInputAudio enabled => ∃ id, named = .command id ∧
      c.active.session.inputAudioEnabled = enabled ∧
      ⟨id, .setInputAudio enabled, false⟩ ∈ c.active.commands
  | .sealUserInput => ∃ id, named = .command id ∧ c.active.session.inputClosed = true ∧
      ⟨id, .sealUserInput, false⟩ ∈ c.active.commands
  | .cancelOperation id => named = .operation id ∧ ∃ op, c.active.operations[id]? = some op ∧
      (op.state.terminal = true ∨ op.state = .cancelling)
  | .replyOperation id _ => named = .operation id ∧ ∃ op, c.active.operations[id]? = some op ∧
      op.state = .unknown ∧ op.wait = some (Value.reason "reply awaiting external confirmation")

def Engine.AtHead (e : Engine) : Prop := e.world.head = some e.current

private theorem run_when_closeMedia {c : Prop} [Decidable c] {u : Unit}
    (h : run (Program.when c (Program.modify Engine.closeMedia) : Handler Unit) e = (.ok u, e')) :
    e'.world = e.world ∧ e'.current = e.current := by
  rw [Program.when, run_ite] at h
  split at h
  · cases h
    exact ⟨rfl, rfl⟩
  · cases h
    exact ⟨rfl, rfl⟩

private theorem run_prepareCommand_ok {intent : CommandIntent} {id : String}
    (h : run (prepareCommand cfg intent) e = (.ok id, e')) :
    e'.AtHead ∧ ⟨id, intent, false⟩ ∈ e'.current.active.commands ∧ ∃ archive,
      e'.current.active.session =
        { (stageIntent intent e.current).active.session with mediaArchive := archive } := by
  obtain ⟨_, _, hread, h⟩ := run_bind_ok h
  cases hread
  obtain ⟨-, h⟩ := run_require_bind_ok h
  obtain ⟨commandId, e₁, hid, h⟩ := run_bind_ok h
  obtain ⟨next, e₂, hretire, h⟩ := run_bind_ok h
  obtain ⟨-, archive, rfl, -, -⟩ := run_retireStreams_ok hretire
  obtain ⟨_, e₃, hcommit, h⟩ := run_bind_ok h
  obtain ⟨rfl, -⟩ := run_commit_ok hcommit
  obtain ⟨_, e₄, hend, h⟩ := run_bind_ok h
  cases hend
  obtain ⟨_, e₅, hclose, h⟩ := run_bind_ok h
  obtain ⟨hworld, hcurrent⟩ := run_when_closeMedia hclose
  cases h
  refine ⟨?_, ?_, archive, ?_⟩
  · rw [Engine.AtHead, hworld, hcurrent]
    rfl
  · rw [hcurrent]
    exact List.mem_append_right _ List.mem_cons_self
  · rw [hcurrent]
    rfl

private theorem run_insert_ok {message : Message} {source id : String}
    (h : run (insert cfg message source) e = (.ok id, e')) :
    e'.AtHead ∧ Intended e.current (.input message source) (.command id) e'.current := by
  obtain ⟨_, _, hread, h⟩ := run_bind_ok h
  cases hread
  obtain ⟨-, h⟩ := run_require_bind_ok h
  obtain ⟨_, -, h⟩ := run_lift_bind_ok h
  obtain ⟨entryId, e₁, hid, h⟩ := run_bind_ok h
  obtain ⟨commandId, e₂, hcommand, h⟩ := run_bind_ok h
  obtain ⟨next, hstage, h⟩ := run_lift_bind_ok h
  obtain ⟨-, rfl⟩ := stageInsert_ok hstage
  obtain ⟨_, e₃, hcommit, h⟩ := run_bind_ok h
  obtain ⟨rfl, -⟩ := run_commit_ok hcommit
  cases h
  refine ⟨rfl, _, rfl, ?_, rfl, commandId, ?_⟩
  · exact List.getElem?_concat_length
  · exact List.mem_append_right _ List.mem_cons_self

private theorem run_pause_ok {suspension : Suspension} {id : String}
    (h : run (pause cfg suspension) e = (.ok id, e')) :
    e'.AtHead ∧ e'.current.state = .suspended suspension := by
  obtain ⟨_, _, hread, h⟩ := run_bind_ok h
  cases hread
  obtain ⟨_, e₁, hcommit, h⟩ := run_bind_ok h
  obtain ⟨rfl, -⟩ := run_commit_ok hcommit
  cases h
  exact ⟨rfl, rfl⟩

private theorem run_updateProfile_ok {profile : RequestProfile} {id : String}
    (h : run (updateProfile cfg profile) e = (.ok id, e')) :
    e'.AtHead ∧ Intended e.current (.updateProfile profile) (.command id) e'.current := by
  obtain ⟨_, _, hread, h⟩ := run_bind_ok h
  cases hread
  obtain ⟨-, h⟩ := run_require_bind_ok h
  obtain ⟨_, -, h⟩ := run_lift_bind_ok h
  obtain ⟨hhead, hmem, -⟩ := run_prepareCommand_ok h
  exact ⟨hhead, id, rfl, hmem⟩

private theorem run_interruptOutput_ok {id : String}
    (h : run (interruptOutput cfg) e = (.ok id, e')) :
    e'.AtHead ∧ Intended e.current .interruptOutput (.command id) e'.current := by
  obtain ⟨_, _, hread, h⟩ := run_bind_ok h
  cases hread
  obtain ⟨-, h⟩ := run_require_bind_ok h
  cases hgeneration : e.current.active.session.generationId with
  | none =>
    rw [hgeneration] at h
    cases h
  | some generationId =>
    simp only [hgeneration] at h
    obtain ⟨-, h⟩ := run_require_bind_ok h
    obtain ⟨hhead, hmem, archive, hsession⟩ := run_prepareCommand_ok h
    refine ⟨hhead, id, generationId, rfl, hgeneration, ?_, ?_⟩
    · rw [hsession]
      rfl
    · rw [hsession]
      exact hmem

private theorem run_inputControl_ok {capability : Capability} {unsupported id : String}
    {intent : CommandIntent}
    (h : run (inputControl cfg capability unsupported intent) e = (.ok id, e')) :
    run (prepareCommand cfg intent) e = (.ok id, e') := by
  obtain ⟨_, _, hread, h⟩ := run_bind_ok h
  cases hread
  obtain ⟨-, h⟩ := run_require_bind_ok h
  obtain ⟨-, h⟩ := run_require_bind_ok h
  exact h

private theorem run_require_ok {c : Prop} [Decidable c] {error : Error} {u : Unit}
    (h : run (Program.require c error : Handler Unit) e = (.ok u, e')) : e' = e := by
  rw [run_require] at h
  exact (congrArg Prod.snd h).symm

private theorem run_finishAt_head {outcome : OperationOutcome} {sequence : Option Nat} {u : Unit}
    {id : OperationId} (hhead : e.AtHead)
    (h : run (finishAt cfg id outcome sequence) e = (.ok u, e')) : e'.AtHead := by
  obtain ⟨_, -, h⟩ := run_lift_bind_ok h
  obtain ⟨_, _, hread, h⟩ := run_bind_ok h
  cases hread
  split at h
  · obtain rfl := run_require_ok h
    exact hhead
  · rw [run_ite] at h
    split at h
    · obtain rfl := run_require_ok h
      exact hhead
    · rw [run_ite] at h
      split at h
      · obtain ⟨_, _, hread, h⟩ := run_bind_ok h
        cases hread
        obtain ⟨commandId, e₁, hid, h⟩ := run_bind_ok h
        obtain ⟨next, -, h⟩ := run_lift_bind_ok h
        obtain ⟨_, e₂, hcommit, h⟩ := run_bind_ok h
        obtain ⟨rfl, -⟩ := run_commit_ok hcommit
        cases h
        rfl
      · obtain ⟨_, _, hread, h⟩ := run_bind_ok h
        cases hread
        obtain ⟨entry, -, h⟩ := run_lift_bind_ok h
        obtain ⟨commandId, e₁, hid, h⟩ := run_bind_ok h
        obtain ⟨next, -, h⟩ := run_lift_bind_ok h
        obtain ⟨rfl, -⟩ := run_commit_ok h
        rfl

private theorem run_cancelOperation_ok {id named : OperationId} (hsound : e.Sound)
    (h : run (cancelOperation cfg id) e = (.ok named, e')) :
    e'.AtHead ∧ Intended e.current (.cancelOperation id) (.operation named) e'.current := by
  obtain ⟨_, _, hread, h⟩ := run_bind_ok h
  cases hread
  cases hrecord : e.current.active.operations[id]? with
  | none =>
    rw [hrecord] at h
    cases h
  | some record =>
    simp only [hrecord] at h
    split at h
    · rename_i hterminal
      cases h
      exact ⟨hsound.head, rfl, record, hrecord, .inl hterminal⟩
    · rename_i hopen
      split at h
      · obtain ⟨_, e₁, hfinish, h⟩ := run_bind_ok h
        cases h
        have hstate : record.state.terminal = false := by simpa using hopen
        obtain ⟨-, hcompleted⟩ := run_finishAt_completes hsound.valid hrecord hstate hfinish
        exact ⟨run_finishAt_head hsound.head hfinish, rfl, _, hcompleted.record, .inl rfl⟩
      · obtain ⟨_, e₁, hcommit, h⟩ := run_bind_ok h
        obtain ⟨rfl, -⟩ := run_commit_ok hcommit
        obtain ⟨_, e₂, hcancel, h⟩ := run_bind_ok h
        cases hcancel
        cases h
        rw [Engine.requestCancel_eq]
        refine ⟨?_, rfl, _, getElem?_putOperation _ _ _, .inr rfl⟩
        rfl

private theorem run_replyOperation_ok {id named : OperationId} {value : Value}
    (h : run (replyOperation cfg id value) e = (.ok named, e')) :
    e'.AtHead ∧ Intended e.current (.replyOperation id value) (.operation named) e'.current := by
  obtain ⟨_, _, hread, h⟩ := run_bind_ok h
  cases hread
  obtain ⟨-, h⟩ := run_require_bind_ok h
  obtain ⟨_, e₁, hunknown, h⟩ := run_bind_ok h
  obtain ⟨op, -, -, rfl⟩ := run_localOperationUpdate_ok hunknown
  cases h
  exact ⟨rfl, rfl, _, getElem?_putOperation _ _ _, rfl, rfl⟩

/-- Whatever a control comes to, its receipt is given for a durable intent. -/
private theorem run_controlBody_ok {body : ControlBody} {named : IntentId} (hsound : e.Sound)
    (h : run (controlBody cfg body) e = (.ok named, e')) :
    e'.AtHead ∧ Intended e.current body named e'.current := by
  cases body with
  | pause suspension =>
    obtain ⟨id, e₁, hrun, h⟩ := run_bind_ok h
    cases h
    exact run_pause_ok hrun
  | input message source =>
    obtain ⟨id, e₁, hrun, h⟩ := run_bind_ok h
    cases h
    exact run_insert_ok hrun
  | cancelOperation id =>
    obtain ⟨id, e₁, hrun, h⟩ := run_bind_ok h
    cases h
    exact run_cancelOperation_ok hsound hrun
  | replyOperation id value =>
    obtain ⟨id, e₁, hrun, h⟩ := run_bind_ok h
    cases h
    exact run_replyOperation_ok hrun
  | updateProfile profile =>
    obtain ⟨id, e₁, hrun, h⟩ := run_bind_ok h
    cases h
    exact run_updateProfile_ok hrun
  | interruptOutput =>
    obtain ⟨id, e₁, hrun, h⟩ := run_bind_ok h
    cases h
    exact run_interruptOutput_ok hrun
  | flushInput =>
    obtain ⟨id, e₁, hrun, h⟩ := run_bind_ok h
    cases h
    obtain ⟨hhead, hmem, -⟩ := run_prepareCommand_ok (run_inputControl_ok hrun)
    exact ⟨hhead, id, rfl, hmem⟩
  | setInputAudio enabled =>
    obtain ⟨id, e₁, hrun, h⟩ := run_bind_ok h
    cases h
    obtain ⟨hhead, hmem, archive, hsession⟩ := run_prepareCommand_ok (run_inputControl_ok hrun)
    refine ⟨hhead, id, rfl, ?_, hmem⟩
    rw [hsession]
    rfl
  | sealUserInput =>
    obtain ⟨id, e₁, hrun, h⟩ := run_bind_ok h
    cases h
    obtain ⟨hhead, hmem, archive, hsession⟩ := run_prepareCommand_ok hrun
    refine ⟨hhead, id, rfl, ?_, hmem⟩
    rw [hsession]
    rfl

/-- A control always gets its reply. After an error that is not the store's the engine is as it
was before, and so is everything durable and everything sent; a receipt names the revision of
the durable checkpoint that holds the intent. -/
theorem control_atomic {resolutions : List RecoveryResolution}
    (hp : Reached cfg (.live resolutions e)) (body : ControlBody) :
    ∃ reply e', run (controlReply cfg body) e = (.ok reply, e') ∧
      (run (control cfg body) e).2 = e' ∧
      (∀ error, reply = .error error → storageFailure error = false →
        e'.world.head = e.world.head ∧ e'.world.trace = e.world.trace ∧
          e' = e.inWorld e'.world) ∧
      ∀ receipt, reply = .ok receipt → e'.world.head = some e'.current ∧
        e'.current.revision = receipt.revision ∧
          Intended e.current body receipt.commandId e'.current := by
  refine ⟨_, _, run_controlReply cfg body e, ?_, ?_, ?_⟩
  · unfold control
    rw [run_bind, run_controlReply]
    rcases run (controlBody cfg body) e with ⟨error | named, e'⟩
    · change (run (if error.infrastructure = true then Program.fail error else pure ()) e').2 = e'
      split
      · rfl
      · rfl
    · rfl
  · intro error hreply hstorage
    rcases hrun : run (controlBody cfg body) e with ⟨error' | named, e'⟩
    · rw [hrun] at hreply
      cases hreply
      rcases clean_controlBody body e error e' hrun with hfailed | ⟨w, hw, rfl⟩
      · rw [hstorage] at hfailed
        cases hfailed
      · exact ⟨hw.head, hw.trace, rfl⟩
    · rw [hrun] at hreply
      cases hreply
  · intro receipt hreply
    rcases hrun : run (controlBody cfg body) e with ⟨error | named, e'⟩
    · rw [hrun] at hreply
      cases hreply
    · rw [hrun] at hreply
      cases hreply
      obtain ⟨hhead, hintended⟩ := run_controlBody_ok hp.sound hrun
      exact ⟨hhead, rfl, hintended⟩

/-- While the tool of the sample run is out, outside input is taken. -/
theorem sample_control_atomic :
    ((run (controlReply sampleConfig (.input (.external [.text "more"]) "host")) sampleReturned).1
      |>.toOption.any fun reply => reply.toOption.isSome) = true ∧
    ∀ body, ∃ reply e', run (controlReply sampleConfig body) sampleReturned = (.ok reply, e') ∧
      (run (control sampleConfig body) sampleReturned).2 = e' ∧
      (∀ error, reply = .error error → storageFailure error = false →
        e'.world.head = sampleReturned.world.head ∧
          e'.world.trace = sampleReturned.world.trace ∧ e' = sampleReturned.inWorld e'.world) ∧
      ∀ receipt, reply = .ok receipt → e'.world.head = some e'.current ∧
        e'.current.revision = receipt.revision ∧
          Intended sampleReturned.current body receipt.commandId e'.current := by
  obtain ⟨resolutions, hp⟩ : ∃ r, Reached sampleConfig (.live r sampleReturned) :=
    reached_sampleEngine _ (by decide +kernel)
  exact ⟨by decide +kernel, fun body => control_atomic hp body⟩

end Zhir.Kernel
