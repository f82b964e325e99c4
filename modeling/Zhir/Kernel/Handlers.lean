import Zhir.Kernel.Runs
import Zhir.Kernel.StageLaws

/-!
What every handler of the engine keeps. A fact about the engine that memory, clocks and
identities do not matter for, and that commits keep as long as they leave the budgets alone,
is kept by every handler but the ones that spend the budgets or open the session.
-/

set_option autoImplicit false
set_option relaxedAutoImplicit false

namespace Zhir.Kernel

open Zhir.Core
open Zhir.Library (Program)
open Zhir.Library.Program

variable (cfg : Config)

/-- The sessions that were asked to open, latest first, each with what was durable then. -/
def openings : List Effect → List (SessionOpen × List Checkpoint)
  | [] => []
  | .opening session :: older =>
    (session, ({ World.start with trace := older } : World).durable) :: openings older
  | _ :: older => openings older

def Task.gated : Task → Bool
  | .start _ _ _ | .approval _ => true
  | _ => false

def Engine.undone (e : Engine) : List Work :=
  e.handling.toList ++ (e.stashed.toList ++ e.queue)

/-- Nothing durable changed, no session was asked to open, and no call was put up for approval
or for a start. The work items are `Fine` or were there before. -/
structure Aside (Fine : Work → Prop) (e e' : Engine) : Prop where
  current : e'.current = e.current
  head : e'.world.head = e.world.head
  durable : e'.world.durable = e.world.durable
  openings : openings e'.world.trace = openings e.world.trace
  tasks : ∀ task ∈ e'.tasks, task.gated = true → task ∈ e.tasks
  works : ∀ work ∈ e'.undone, work ∈ e.undone ∨ Fine work

/-- The budgets and what has been spent of them are the same, and the session is still as it
was recorded unless it has been opened. -/
structure Calm (c next : Checkpoint) : Prop where
  options : next.options = c.options
  requests : next.metrics.generationRequests = c.metrics.generationRequests
  calls : next.metrics.runtimeToolCalls = c.metrics.runtimeToolCalls
  session : next.active.session.establishment = c.active.session.establishment ∧
      next.active.session.capabilities = c.active.session.capabilities ∨
    next.active.session.establishment ≠ .new

/-- A fact `I` about the engine that rests on facts about the checkpoints it commits and about
its work items. -/
structure Tame (I : Engine → Prop) (Good : Checkpoint → Prop) (Fine : Work → Prop) : Prop where
  current : ∀ e, I e → Good e.current
  fine : ∀ e, I e → ∀ work ∈ e.undone, Fine work
  aside : ∀ e e', Aside Fine e e' → I e → I e'
  calm : ∀ c next, Calm c next → Good c → Good next
  commit : ∀ next fact delta, Good next → Always I (commit cfg next fact delta)

variable {cfg} {I : Engine → Prop} {Good : Checkpoint → Prop} {Fine : Work → Prop}

theorem Aside.inWorld {e : Engine} {w : World} (hhead : w.head = e.world.head)
    (htrace : w.trace = e.world.trace) : Aside Fine e (e.inWorld w) := by
  refine ⟨rfl, hhead, ?_, ?_, fun _ htask _ => htask, fun _ hwork => .inl hwork⟩
  · change w.trace.filterMap _ = _
    rw [htrace]
    rfl
  · exact congrArg Kernel.openings htrace

theorem Aside.memory {e e' : Engine} (hcurrent : e'.current = e.current)
    (hworld : e'.world = e.world)
    (htasks : ∀ task ∈ e'.tasks, task.gated = true → task ∈ e.tasks)
    (hworks : ∀ work ∈ e'.undone, work ∈ e.undone ∨ Fine work) : Aside Fine e e' :=
  ⟨hcurrent, by rw [hworld], by rw [hworld], by rw [hworld], htasks, hworks⟩

def calmPart (c : Checkpoint) :
    RunOptions × Nat × Nat × SessionEstablishment × Option CapabilitySet :=
  (c.options, c.metrics.generationRequests, c.metrics.runtimeToolCalls,
    c.active.session.establishment, c.active.session.capabilities)

theorem Calm.same {c next : Checkpoint} (h : calmPart next = calmPart c) : Calm c next := by
  unfold calmPart at h
  simp only [Prod.mk.injEq] at h
  obtain ⟨hoptions, hrequests, hcalls, hestablishment, hcapabilities⟩ := h
  exact ⟨hoptions, hrequests, hcalls, .inl ⟨hestablishment, hcapabilities⟩⟩

theorem Calm.refl (c : Checkpoint) : Calm c c := .same (by rfl)

theorem Calm.trans {c₁ c₂ c₃ : Checkpoint} (h : Calm c₁ c₂) (h' : Calm c₂ c₃) : Calm c₁ c₃ := by
  refine ⟨h'.options.trans h.options, h'.requests.trans h.requests, h'.calls.trans h.calls, ?_⟩
  rcases h'.session with ⟨hsame', hkept'⟩ | hopened'
  · rcases h.session with ⟨hsame, hkept⟩ | hopened
    · exact .inl ⟨hsame'.trans hsame, hkept'.trans hkept⟩
    · rw [← hsame'] at hopened
      exact .inr hopened
  · exact .inr hopened'

private theorem calm_stageEntry {capabilities : CapabilitySet} {commandId : String}
    {entry : HistoryEntry} {c c' : Checkpoint}
    (h : stageEntry capabilities commandId entry c = .ok c') : Calm c c' := by
  obtain ⟨-, rfl⟩ := stageEntry_ok h
  split <;> exact .same (by rfl)

private theorem calm_stageEvent {e : Engine} {body : SessionEventBody}
    {operationId commandId : String}
    {c c' : Checkpoint} (h : stageEvent cfg e body operationId commandId c = .ok c') :
    Calm c c' := by
  cases body with
  | ready contextRevision =>
    obtain ⟨-, -, rfl⟩ := stageReady_ok h
    exact ⟨rfl, rfl, rfl, .inr fun h => by cases h⟩
  | responseStarted generationId inputPosition =>
    obtain ⟨-, -, next, rfl, -, -, -, rfl⟩ := stageStarted_ok h
    unfold startedResponse startedGeneration
    split <;> split <;> exact .same (by rfl)
  | conversationItem itemId message =>
    rcases stageConversationItem_ok h with ⟨-, rfl, -⟩ | ⟨-, -, h⟩
    · exact .same (by rfl)
    · exact calm_stageEntry h
  | acknowledged id recovery =>
    obtain ⟨command, next, -, hsettled, rfl⟩ := stageAcknowledged_ok h
    generalize command.intent = intent at hsettled
    cases hsettled <;> exact .same (by rfl)
  | output generationId itemId callerId output =>
    obtain ⟨-, -, -, -, ⟨rfl, -⟩ | ⟨-, recorded, hrecorded, h⟩⟩ := stageOutput_ok h
    · exact .same (by rfl)
    · obtain ⟨operations, rfl⟩ := recordOutput_ok hrecorded
      have hentry := calm_stageEntry h
      exact ⟨hentry.options, hentry.requests, hentry.calls, hentry.session⟩
  | responseFinished completion =>
    obtain ⟨-, -, -, -, -, h⟩ := stageFinished_ok h
    have hentry := calm_stageEntry h
    exact ⟨hentry.options, hentry.requests, hentry.calls, hentry.session⟩
  | recovery reference =>
    cases h
    exact .same (by rfl)
  | closed reason providerData =>
    obtain ⟨-, rfl⟩ := stageClosed_ok h
    exact .same (by rfl)
  | operation origin event =>
    cases h
    exact Calm.refl c
  | delta generationId value =>
    cases h
    exact Calm.refl c

private theorem calm_stageIntent (intent : CommandIntent) (c : Checkpoint) :
    Calm c (stageIntent intent c) := by
  cases intent <;> exact .same (by rfl)

private theorem calm_stageOpened (control : SessionControl) (negotiated : NegotiatedProfile)
    (c : Checkpoint) : Calm c (stageOpened control negotiated c) :=
  ⟨rfl, rfl, rfl, .inr fun h => by cases h⟩

namespace Tame

section

variable (h : Tame cfg I Good Fine)

include h

theorem modify {f : Engine → Engine} (hf : ∀ e, Aside Fine e (f e)) :
    Always I (Program.modify f : Handler Unit) :=
  always_modify fun e he => h.aside e (f e) (hf e) he

theorem memory {f : Engine → Engine} (hf : ∀ e, (f e).current = e.current ∧
      (f e).world = e.world ∧ (f e).tasks = e.tasks ∧ (f e).undone = e.undone) :
    Always I (Program.modify f : Handler Unit) := by
  refine h.modify fun e => ?_
  obtain ⟨hcurrent, hworld, htasks, hworks⟩ := hf e
  refine .memory hcurrent hworld (fun task htask _ => ?_) fun work hwork => ?_
  · rw [← htasks]
    exact htask
  · rw [← hworks]
    exact .inl hwork

theorem spawned {f : Engine → Engine} (added : List Task)
    (hgated : ∀ task ∈ added, task.gated = false)
    (hf : ∀ e, (f e).current = e.current ∧ (f e).world = e.world ∧
      (f e).tasks = e.tasks ++ added ∧ (f e).undone = e.undone) :
    Always I (Program.modify f : Handler Unit) := by
  refine h.modify fun e => ?_
  obtain ⟨hcurrent, hworld, htasks, hworks⟩ := hf e
  refine .memory hcurrent hworld (fun task htask htrue => ?_) fun work hwork => ?_
  · rw [htasks] at htask
    rcases List.mem_append.mp htask with hold | hnew
    · exact hold
    · rw [hgated task hnew] at htrue
      cases htrue
  · rw [← hworks]
    exact .inl hwork

theorem spawn {f : Engine → Engine} (task : Task) (hgated : task.gated = false)
    (hf : ∀ e, (f e).current = e.current ∧ (f e).world = e.world ∧
      (f e).tasks = e.tasks ++ [task] ∧ (f e).undone = e.undone) :
    Always I (Program.modify f : Handler Unit) := by
  refine h.spawned [task] (fun other hother => ?_) hf
  rw [List.mem_singleton.mp hother]
  exact hgated

theorem moved {f : Engine → Engine} (hf : ∀ e, (f e).current = e.current ∧
      (f e).world = e.world ∧ (f e).tasks = e.tasks ∧
      ∀ work ∈ (f e).undone, work ∈ e.undone ∨ Fine work) :
    Always I (Program.modify f : Handler Unit) := by
  refine h.modify fun e => ?_
  obtain ⟨hcurrent, hworld, htasks, hworks⟩ := hf e
  refine .memory hcurrent hworld (fun task htask _ => ?_) hworks
  rw [← htasks]
  exact htask

theorem newId : Always I (newId cfg) := fun e he => h.aside e _ (.inWorld rfl rfl) he

theorem ask {α : Type} (answer : Nat → α) : Always I (ask answer) :=
  fun e he => h.aside e _ (.inWorld rfl rfl) he

theorem check : Always I (check cfg) := by
  intro e he
  simp only [Program.run, Kernel.check]
  split <;> exact h.aside e _ (.inWorld rfl rfl) he

theorem save {e : Engine} {next : Checkpoint} (he : I e) (hcalm : Calm e.current next)
    (fact : Fact) (delta : HistoryDelta) : Always I (Kernel.commit cfg next fact delta) :=
  h.commit next fact delta (h.calm _ _ hcalm (h.current e he))

theorem suspend (reason : WaitReason) : Always I (suspend cfg reason) :=
  always_read_bind fun _ he => h.save he (.same (by rfl)) _ _

theorem limitRun (reason : LimitReason) : Always I (limitRun cfg reason) :=
  always_read_bind fun _ he => h.save he (.same (by rfl)) _ _

theorem finishAt (id : OperationId) (outcome : OperationOutcome) (sequence : Option Nat) :
    Always I (finishAt cfg id outcome sequence) := by
  refine always_lift_bind fun _ _ => always_read_bind fun _ _ => ?_
  split
  · exact always_require _ _
  · refine always_ite (always_require _ _) (always_ite ?_ ?_)
    · refine always_read_bind fun e he => always_bind h.newId fun _ => ?_
      refine always_lift_bind fun next hstage => ?_
      obtain ⟨history, -, rfl⟩ := stageFinish_ok hstage
      refine always_bind (h.save he (.same (by rfl)) _ _) fun _ => ?_
      exact h.memory fun _ => ⟨rfl, rfl, rfl, rfl⟩
    · refine always_read_bind fun e he => always_lift_bind fun _ _ => ?_
      refine always_bind h.newId fun _ => always_lift_bind fun next hstage => ?_
      obtain ⟨history, -, rfl⟩ := stageFinishProvider_ok hstage
      exact h.save he (.same (by rfl)) _ _

theorem finish (id : OperationId) (outcome : OperationOutcome) :
    Always I (finish cfg id outcome) := h.finishAt id outcome none

theorem localOperationUpdate (id : OperationId) (state : OperationState) (wait : Option Value) :
    Always I (localOperationUpdate cfg id state wait) := by
  refine always_read_bind fun e he => ?_
  split
  · exact always_fail _
  · exact always_bind (always_require _ _) fun _ => h.save he (.same (by rfl)) _ _

theorem unknown (id : OperationId) (reason : String) : Always I (unknown cfg id reason) :=
  h.localOperationUpdate id .unknown _

theorem operationEvent (id : OperationId) (event : OperationEvent) :
    Always I (operationEvent cfg id event) := by
  have hupdate : Always I (updateEvent cfg id event) := by
    refine always_read_bind fun e he => ?_
    split
    · exact always_fail _
    · exact always_bind (always_require _ _) fun _ => h.save he (.same (by rfl)) _ _
  have hfresh : Always I (freshEvent cfg id event) := by
    unfold freshEvent
    split
    · exact h.finishAt _ _ _
    · exact always_read_bind fun _ _ => always_require _ _
    · exact hupdate
  unfold Kernel.operationEvent
  split
  · refine always_read_bind fun e he => ?_
    split
    · exact always_fail _
    · refine always_bind (always_require _ _) fun _ => ?_
      split
      · exact always_pure _
      · exact always_fail _
      · refine always_lift_bind fun _ _ => always_bind h.newId fun _ => ?_
        exact h.save he (.same (by rfl)) _ _
  · refine always_read_bind fun _ _ => ?_
    split
    · exact always_pure _
    · exact always_fail _
    · exact hfresh

theorem started (id : OperationId) (result : Result ToolExecution) :
    Always I (started cfg id result) := by
  unfold Kernel.started
  split
  · exact h.finish _ _
  · refine always_read_bind fun e he => ?_
    split
    · exact always_fail _
    · rename_i record hrecord
      refine always_bind (h.save he (.same (by rfl)) _ _) fun _ => ?_
      refine h.spawned ((if record.state = .cancelling then [.cancel id false] else []) ++
        [.events id]) (fun task htask => ?_) fun e => ⟨rfl, rfl, ?_, rfl⟩
      rcases List.mem_append.mp htask with hcancel | hevents
      · split at hcancel
        · rw [List.mem_singleton.mp hcancel]
          rfl
        · cases hcancel
      · rw [List.mem_singleton.mp hevents]
        rfl
      · exact List.append_assoc _ _ _
  · refine always_read_bind fun _ _ => ?_
    split
    · exact always_ite (h.finish _ _) (h.unknown _ _)
    all_goals first
      | exact h.unknown _ _
      | exact h.finish _ _

theorem loseWorker (id : OperationId) (reason : String) : Always I (loseWorker cfg id reason) :=
  always_read_bind fun _ _ => always_when (h.unknown _ _)

theorem spawnTool (id : OperationId) (task : Task) (hgated : task.gated = false) :
    Always I (spawnTool cfg id task) :=
  always_bind h.check fun _ => h.spawn task hgated fun _ => ⟨rfl, rfl, rfl, rfl⟩

theorem bindCall (call : RuntimeToolCall) : Always I (bindCall call) :=
  always_read_bind fun _ _ => h.ask _

theorem recoverOperations : Always I (recoverOperations cfg) := by
  refine always_read_bind fun _ _ => always_forEach (fun record => ?_) _
  unfold recoverOperation
  split
  · exact always_ite (h.spawn _ rfl fun _ => ⟨rfl, rfl, rfl, rfl⟩) (h.unknown _ _)
  · refine always_read_bind fun _ _ => always_lift_bind fun _ _ => ?_
    refine always_bind (h.bindCall _) fun bound => ?_
    cases bound with
    | ok _ => exact h.spawnTool _ _ rfl
    | error _ => exact h.unknown _ _
  · exact always_pure _

theorem archiveMedia {next : Checkpoint} (hgood : Good next) :
    Yields I Good (archiveMedia cfg next) := by
  refine yields_then (always_require _ _) fun _ => yields_then (h.ask _) fun _ => ?_
  refine yields_lift_bind fun _ _ => yields_pure ?_
  exact h.calm next _ (.same (by rfl)) hgood

theorem retireStreams (keys : List String) {next : Checkpoint} (hgood : Good next) :
    Yields I Good (retireStreams cfg next keys) := by
  induction keys generalizing next with
  | nil => exact yields_pure hgood
  | cons key keys ih =>
    refine yields_bind (h.archiveMedia hgood) fun archived harchived => ih ?_
    exact h.calm archived _ (.same (by rfl)) harchived

theorem prepareCommand (intent : CommandIntent) : Always I (prepareCommand cfg intent) := by
  refine always_read_bind fun e he => always_bind (always_require _ _) fun _ => ?_
  refine always_bind h.newId fun _ => ?_
  have hstaged : Good (stageIntent intent e.current) :=
    h.calm _ _ (calm_stageIntent intent e.current) (h.current e he)
  refine always_bind_yields (h.retireStreams _ hstaged) fun next hnext => ?_
  refine always_bind (h.commit _ _ _ (h.calm next _ (.same (by rfl)) hnext)) fun _ => ?_
  refine always_bind (h.memory fun _ => ⟨rfl, rfl, rfl, rfl⟩) fun _ => ?_
  exact always_bind (always_when (h.memory fun _ => ⟨rfl, rfl, rfl, rfl⟩)) fun _ => always_pure _

theorem dispatchCommands : Always I (dispatchCommands cfg) := by
  refine always_read_bind fun e he => ?_
  split
  · exact always_pure _
  · refine always_ite (always_pure _) ?_
    split
    · exact always_pure _
    · refine always_read_bind fun e he => always_lift_bind fun _ _ => ?_
      refine always_bind (always_when (always_read_bind fun e he => ?_)) fun _ => ?_
      · exact h.save he (.same (by rfl)) _ _
      refine always_bind h.check fun _ => always_read_bind fun _ _ => ?_
      exact always_lift_bind fun _ _ => h.spawn _ rfl fun _ => ⟨rfl, rfl, rfl, rfl⟩

theorem insert (message : Message) (source : String) : Always I (insert cfg message source) := by
  refine always_read_bind fun e he => always_bind (always_require _ _) fun _ => ?_
  refine always_lift_bind fun _ _ => always_bind h.newId fun _ => always_bind h.newId fun _ => ?_
  refine always_lift_bind fun next hstage => ?_
  obtain ⟨-, rfl⟩ := stageInsert_ok hstage
  exact always_bind (h.save he (.same (by rfl)) _ _) fun _ => always_pure _

theorem resolve (resolution : RecoveryResolution) : Always I (resolve cfg resolution) := by
  cases resolution with
  | complete id outcome => exact h.finish _ _
  | abandon id reason => exact h.finish _ _
  | attach id reference =>
    refine always_read_bind fun e he => ?_
    split
    · exact always_fail _
    · exact always_bind (always_require _ _) fun _ => h.save he (.same (by rfl)) _ _
  | abandonGeneration generationId reason =>
    refine always_read_bind fun e he => always_bind (always_require _ _) fun _ => ?_
    refine always_bind (always_require _ _) fun _ => always_bind (always_require _ _) fun _ => ?_
    exact h.save he (.same (by rfl)) _ _

theorem applyRecovery (request : Request) : Always I (applyRecovery cfg request) := by
  cases request with
  | start history context options => exact always_pure _
  | recover checkpoint messages resolutions metadata =>
    refine always_bind (always_forEach h.resolve _) fun _ => ?_
    refine always_bind (always_forEach (fun message => ?_) _) fun _ => ?_
    · exact always_bind (h.insert _ _) fun _ => always_pure _
    · refine always_read_bind fun _ _ => always_ite (h.suspend _) ?_
      exact always_ite (always_pure _) (always_ite (h.suspend _) (always_pure _))

theorem inputControl (capability : Capability) (unsupported : String) (intent : CommandIntent) :
    Always I (inputControl cfg capability unsupported intent) := by
  refine always_read_bind fun _ _ => always_bind (always_require _ _) fun _ => ?_
  exact always_bind (always_require _ _) fun _ => h.prepareCommand _

theorem requestCancel (id : OperationId) :
    Always I (Program.modify (Engine.requestCancel id) : Handler Unit) := by
  refine h.modify fun e => ?_
  rw [Engine.requestCancel_eq]
  refine ⟨rfl, rfl, ?_, ?_, fun task htask hgated => ?_, fun _ hwork => .inl hwork⟩
  · unfold World.durable
    split <;> rfl
  · split <;> rfl
  · simp only at htask
    split at htask
    · rcases List.mem_append.mp htask with hold | hnew
      · exact hold
      · rw [List.mem_singleton.mp hnew] at hgated
        cases hgated
    · exact htask

theorem controlBody (body : ControlBody) : Always I (controlBody cfg body) := by
  have hdone : ∀ {α β : Type} {m : Handler α} {f : α → β}, Always I m →
      Always I (do return f (← m)) := fun hm => always_bind hm fun _ => always_pure _
  cases body with
  | pause suspension =>
    refine hdone (always_read_bind fun e he => ?_)
    exact always_bind (h.save he (.same (by rfl)) _ _) fun _ => h.newId
  | input message source => exact hdone (h.insert _ _)
  | cancelOperation id =>
    refine hdone (always_read_bind fun e he => ?_)
    split
    · exact always_fail _
    · refine always_ite (always_pure _) (always_ite ?_ ?_)
      · exact always_bind (h.finish _ _) fun _ => always_pure _
      · refine always_bind (h.save he (.same (by rfl)) _ _) fun _ => ?_
        exact always_bind (h.requestCancel id) fun _ => always_pure _
  | replyOperation id value =>
    refine hdone (always_read_bind fun _ _ => always_bind (always_require _ _) fun _ => ?_)
    refine always_bind (h.unknown _ _) fun _ => ?_
    exact always_bind (h.spawn _ rfl fun _ => ⟨rfl, rfl, rfl, rfl⟩) fun _ => always_pure _
  | updateProfile profile =>
    refine hdone (always_read_bind fun _ _ => always_bind (always_require _ _) fun _ => ?_)
    exact always_lift_bind fun _ _ => h.prepareCommand _
  | interruptOutput =>
    refine hdone (always_read_bind fun _ _ => always_bind (always_require _ _) fun _ => ?_)
    split
    · exact always_fail _
    · exact always_bind (always_require _ _) fun _ => h.prepareCommand _
  | flushInput => exact hdone (h.inputControl _ _ _)
  | setInputAudio enabled => exact hdone (h.inputControl _ _ _)
  | sealUserInput => exact hdone (h.prepareCommand _)

theorem receiveControl (body : ControlBody) (stage : Stage) :
    Always I (receiveControl cfg body stage) := by
  have hreply : Always I (controlReply cfg body) :=
    always_bind (always_attempt (h.controlBody body)) fun _ =>
      always_read_bind fun _ _ => always_pure _
  have hcontrol : Always I (control cfg body) := by
    refine always_bind hreply fun reply => ?_
    cases reply with
    | ok _ => exact always_pure _
    | error error => exact always_ite (always_fail _) (always_pure _)
  refine always_read_bind fun _ _ => always_ite (always_pure _) ?_
  exact always_bind hcontrol fun _ => always_pure _

theorem startMediaOutput (session : ModelSession) : Always I (startMediaOutput cfg session) :=
  always_when (always_bind (always_require _ _) fun _ =>
    h.spawn _ rfl fun _ => ⟨rfl, rfl, rfl, rfl⟩)

theorem finishOpening (opening : SessionOpen) (result : Result ModelSession) :
    Always I (finishOpening cfg opening result) := by
  refine always_read_bind fun _ _ => ?_
  cases result with
  | ok session =>
    refine always_read_bind fun e he => always_ite (h.suspend _) ?_
    refine always_bind (always_require _ _) fun _ => always_bind (always_require _ _) fun _ => ?_
    refine always_lift_bind fun _ _ => always_bind (always_require _ _) fun _ => ?_
    refine always_bind h.newId fun _ => ?_
    refine always_bind (h.save he (calm_stageOpened _ _ _) _ _) fun _ => ?_
    refine always_bind (h.spawn _ rfl fun _ => ⟨rfl, rfl, rfl, rfl⟩) fun _ => ?_
    exact h.startMediaOutput session
  | error error =>
    refine always_ite (h.suspend _) ?_
    cases error with
    | uncertain _ => exact h.suspend _
    | _ => exact always_fail _

theorem sessionOpened (session : SessionOpen) (result : Result ModelSession) :
    Always I (sessionOpened cfg session result) := by
  refine always_bind (h.finishOpening _ _) fun _ => always_read_bind fun _ _ => ?_
  exact always_ite (always_bind h.recoverOperations fun _ => always_pure _) (always_pure _)

theorem freshSequence (sequence : Nat) : Always I (freshSequence sequence) := by
  refine always_read_bind fun _ _ => always_bind (always_require _ _) fun _ => ?_
  exact always_bind (h.memory fun _ => ⟨rfl, rfl, rfl, rfl⟩) fun _ => always_pure _

theorem applyEvent (sequence : Nat) (body : SessionEventBody) {next : Checkpoint}
    (hgood : Good next) :
    Yields I (fun result => Good result.1) (applyEvent cfg sequence body next) := by
  refine yields_then h.newId fun _ => yields_then h.newId fun _ => ?_
  refine yields_read_bind fun e _ => yields_lift_bind fun after hstage => ?_
  refine yields_then (h.memory fun e => ?_) fun _ => yields_pure ?_
  · cases body <;> exact ⟨rfl, rfl, rfl, rfl⟩
  · have hcalm : Calm next (withSequence sequence next) := .same (by rfl)
    exact h.calm next after (hcalm.trans (calm_stageEvent hstage)) hgood

theorem setQueue {queue : List Work} (hqueue : ∀ work ∈ queue, Fine work) :
    Always I (Program.modify (Engine.setQueue queue) : Handler Unit) := by
  refine h.moved fun e => ⟨rfl, rfl, rfl, fun work hwork => ?_⟩
  rcases List.mem_append.mp hwork with hhandling | hwork
  · exact .inl (List.mem_append_left _ hhandling)
  · rcases List.mem_append.mp hwork with hstash | hwork
    · exact .inl (List.mem_append_right _ (List.mem_append_left _ hstash))
    · exact .inr (hqueue work hwork)

theorem setStash {work : Work} (hwork : Fine work) :
    Always I (Program.modify (Engine.setStash work) : Handler Unit) := by
  refine h.moved fun e => ⟨rfl, rfl, rfl, fun other hother => ?_⟩
  rcases List.mem_append.mp hother with hhandling | hother
  · exact .inl (List.mem_append_left _ hhandling)
  · rcases List.mem_cons.mp hother with hsame | hother
    · rw [hsame]
      exact .inr hwork
    · exact .inl (List.mem_append_right _ (List.mem_append_right _ hother))

theorem collectQueued (works : List Work) (hworks : ∀ work ∈ works, Fine work)
    {batch : SessionBatch} (hstaged : ∀ s ∈ batch.staged, Good s.1) :
    Yields I (fun result => ∀ s ∈ result.1.staged, Good s.1) (collectQueued cfg batch works) := by
  induction works generalizing batch with
  | nil => exact yields_pure hstaged
  | cons work rest ih =>
    obtain ⟨hwork, hrest⟩ := List.forall_mem_cons.mp hworks
    replace ih := @ih hrest
    refine yields_read_bind fun e he => yields_ite (yields_pure hstaged) ?_
    refine yields_then (h.setQueue hrest) fun _ => ?_
    split
    · exact yields_then (h.setStash hwork) fun _ => yields_pure hstaged
    · rename_i event _
      refine yields_then (always_attempt (h.freshSequence _)) fun fresh => ?_
      split
      · exact yields_pure hstaged
      · exact ih hstaged
      · have hbase : Good (batch.base e.current) := by
          unfold SessionBatch.base
          cases hsome : batch.staged with
          | none => exact h.current e he
          | some staged => exact hstaged staged hsome
        refine yields_bind (yields_attempt (h.applyEvent _ _ hbase)) fun applied hresult => ?_
        split
        · exact yields_pure hstaged
        · rename_i result
          refine ih fun s hs => ?_
          cases hs
          exact hresult result rfl

theorem collect (sequence : Nat) (body : SessionEventBody) :
    Yields I (fun result => ∀ s ∈ result.1.staged, Good s.1) (collect cfg sequence body) := by
  refine yields_read_bind fun e he => ?_
  refine yields_bind (yields_attempt (h.applyEvent _ _ (h.current e he))) fun applied hresult => ?_
  split
  · exact yields_pure fun s hs => by cases hs
  · rename_i result
    refine h.collectQueued _ (fun work hwork => h.fine e he work ?_) fun s hs => ?_
    · exact List.mem_append_right _ (List.mem_append_right _ hwork)
    cases hs
    exact hresult result rfl

theorem sessionBatch (sequence : Nat) (body : SessionEventBody) :
    Always I (sessionBatch cfg sequence body) := by
  refine always_bind_yields (h.collect sequence body) fun result hstaged => ?_
  have hcommit : Always I (commitBatch cfg result.1) := by
    unfold commitBatch
    split
    · rename_i next sequence hsome
      refine always_read_bind fun e he => always_lift_bind fun _ _ => ?_
      exact h.commit _ _ _ (hstaged _ hsome)
    · exact always_pure _
  refine always_bind hcommit fun _ => always_lift_bind fun _ _ => ?_
  refine always_bind (always_when (h.memory fun _ => ⟨rfl, rfl, rfl, rfl⟩)) fun _ => ?_
  exact always_when (h.suspend _)

theorem commitSequence (sequence : Nat) : Always I (commitSequence cfg sequence) :=
  always_read_bind fun _ he => h.save he (.same (by rfl)) _ _

theorem modelEvent (event : SessionEvent) : Always I (modelEvent cfg event) := by
  refine always_bind (h.freshSequence _) fun _ => always_ite ?_ (always_pure _)
  split
  · exact always_pure _
  · refine always_read_bind fun _ _ => ?_
    split
    · split
      · exact always_bind (h.finish _ _) fun _ => h.commitSequence _
      · exact always_fail _
    · refine always_bind (always_require _ _) fun _ => always_bind (always_require _ _) fun _ => ?_
      exact always_bind (h.operationEvent _ _) fun _ => h.commitSequence _
  · exact h.sessionBatch _ _

theorem loadEnded : Always I (loadEnded cfg) := by
  refine always_read_bind fun _ _ => ?_
  split
  · exact always_pure _
  · split
    · exact always_bind (h.memory fun _ => ⟨rfl, rfl, rfl, rfl⟩) fun _ => always_pure _
    · refine always_bind (h.ask _) fun _ => always_lift_bind fun _ _ => ?_
      exact always_bind (h.memory fun _ => ⟨rfl, rfl, rfl, rfl⟩) fun _ => always_pure _

theorem sealCursor (direction : String) (segment : SealedMedia) (reference : ResourceRef) :
    Always I (sealCursor cfg direction segment reference) := by
  refine always_read_bind fun e he => ?_
  split
  · exact always_fail _
  · rename_i last _
    refine always_bind (always_require _ _) fun _ => ?_
    refine always_bind (always_when (always_when ?_)) fun _ => ?_
    · exact always_bind h.loadEnded fun _ => always_require _ _
    have hcursor : Yields I Good (stageCursor cfg
        (mediaKey direction segment.streamId segment.epoch) segment last reference e.current) := by
      unfold stageCursor
      refine yields_ite (h.retireStreams _ (h.current e he)) (yields_pure ?_)
      exact h.calm e.current _ (.same (by rfl)) (h.current e he)
    refine always_bind_yields hcursor fun next hnext => ?_
    refine always_bind (h.commit _ _ _ hnext) fun _ => ?_
    exact always_when (h.memory fun _ => ⟨rfl, rfl, rfl, rfl⟩)

theorem decideMedia (input valid : Bool) (segment : SealedMedia) (reference : ResourceRef) :
    Always I (decideMedia cfg input valid segment reference) :=
  always_bind (always_when (h.sealCursor _ _ _)) fun _ => h.modify fun e => by
    refine .memory rfl rfl (fun task htask hgated => ?_) fun _ hwork => .inl hwork
    obtain ⟨before, hbefore, rfl⟩ := List.mem_map.mp htask
    cases before with
    | start id call invoked => exact hbefore
    | approval bindings => exact hbefore
    | mediaInput segment phase => cases phase <;> cases input <;> cases hgated
    | mediaOutput phase => cases phase <;> cases input <;> cases hgated
    | _ => cases hgated

theorem inputMedia (first : MediaChunk) : Always I (inputMedia cfg first) := by
  refine always_read_bind fun _ _ => ?_
  refine always_bind (h.memory fun _ => ⟨rfl, rfl, rfl, rfl⟩) fun _ => ?_
  refine always_lift_bind fun _ _ => ?_
  refine always_bind (always_require _ _) fun _ => always_bind (always_require _ _) fun _ => ?_
  exact h.spawn _ rfl fun _ => ⟨rfl, rfl, rfl, rfl⟩

theorem receivePacket : Always I (receivePacket cfg) := by
  refine always_read_bind fun _ _ => always_ite (always_pure _) ?_
  split
  · exact always_bind (h.inputMedia _) fun _ => always_pure _
  · split
    · exact always_pure _
    · refine always_bind (h.memory fun _ => ⟨rfl, rfl, rfl, rfl⟩) fun _ => ?_
      exact always_bind (h.inputMedia _) fun _ => always_pure _

theorem selectCalls (available : List Candidate) (parallel : Bool) (running : Nat)
    (selected : List String) (bindings : List Binding) (calls : List RuntimeToolCall) :
    Always I (selectCalls cfg available parallel running selected bindings calls) := by
  induction calls generalizing selected bindings with
  | nil => exact always_pure _
  | cons shown rest ih =>
    unfold Kernel.selectCalls
    split
    · exact always_fail _
    · refine always_bind (always_require _ _) fun _ => always_bind (h.bindCall _) fun bound => ?_
      split
      · exact always_bind (h.finish _ _) fun _ => ih _ _
      · refine always_read_bind fun _ _ => always_ite (always_pure _) ?_
        refine always_ite (always_pure _) ?_
        exact always_bind (h.memory fun _ => ⟨rfl, rfl, rfl, rfl⟩) fun _ => ih _ _

theorem admitCalls
    (hspawn : ∀ bindings,
      Always I (Program.modify fun e => e.spawn (.approval bindings) : Handler Unit))
    (running : Nat) : Always I (admitCalls cfg running) := by
  refine always_read_bind fun _ _ => always_lift_bind fun _ _ => ?_
  refine always_ite (always_pure _) ?_
  refine always_lift_bind fun _ _ => always_bind (h.selectCalls _ _ _ _ _ _) fun _ => ?_
  exact always_when (hspawn _)

theorem admitQueued (hcalls : ∀ running, Always I (Kernel.admitCalls cfg running)) :
    Always I (admitQueued cfg) := by
  refine always_read_bind fun _ _ => always_ite (always_pure _) (always_ite (always_pure _) ?_)
  refine always_ite (always_forEach (fun record => ?_) _) (hcalls _)
  refine always_ite (h.finish _ _) (always_read_bind fun _ _ => ?_)
  split
  · exact always_fail _
  · refine always_bind (h.localOperationUpdate _ _ _) fun _ => ?_
    exact h.spawn _ rfl fun _ => ⟨rfl, rfl, rfl, rfl⟩

theorem loopPass (hgenerate : Always I (generate cfg))
    (hqueue : Always I (Kernel.admitQueued cfg)) : Always I (loopPass cfg) := by
  have hdrain : Always I (finishOrDrain cfg) := by
    refine always_read_bind fun _ _ => always_ite ?_ (always_ite (always_pure _) ?_)
    · refine always_ite (always_bind (h.prepareCommand _) fun _ => always_pure _) (always_pure _)
    · refine always_bind (always_read_bind fun e he => ?_) fun _ => always_pure _
      exact h.save he (.same (by rfl)) _ _
  have hrun : Always I (advanceRun cfg) := by
    refine always_read_bind fun _ _ => always_ite ?_ (always_pure _)
    refine always_ite (always_bind hgenerate fun _ => always_pure _) ?_
    exact always_ite hdrain (always_pure _)
  have hadvance : Always I (advance cfg) := by
    refine always_bind hrun fun _ => always_ite (always_pure _) ?_
    refine always_read_bind fun _ _ => always_ite ?_ (always_pure _)
    exact always_bind (h.suspend _) fun _ => always_pure _
  refine always_bind h.check fun _ => always_read_bind fun _ _ => ?_
  refine always_bind h.dispatchCommands fun _ => always_bind hqueue fun _ => ?_
  refine always_bind hadvance fun _ => always_read_bind fun _ _ => ?_
  exact always_ite (always_pure _) (always_pure _)

theorem handle (work : Work) (hqueueted : ∀ bindings decisions,
      work = .admitted bindings decisions → Always I (admitted cfg bindings decisions)) :
    Always I (handle cfg work) := by
  have hsent : ∀ result, Always I (sentResult cfg result) := by
    intro result
    cases result with
    | ok _ => exact always_pure _
    | error _ => exact h.suspend _
  unfold Kernel.handle
  split
  · exact h.modelEvent _
  · exact always_read_bind fun _ _ => always_when (h.suspend _)
  · exact always_read_bind fun _ _ => always_ite (h.suspend _) (always_fail _)
  · exact always_bind (h.memory fun _ => ⟨rfl, rfl, rfl, rfl⟩) fun _ => h.started _ _
  · exact h.loseWorker _ _
  · exact h.operationEvent _ _
  · exact h.loseWorker _ _
  · exact hqueueted _ _ rfl
  · exact always_read_bind fun _ _ => h.decideMedia _ _ _ _
  · exact always_read_bind fun _ _ => h.decideMedia _ _ _ _
  · exact always_bind (h.memory fun _ => ⟨rfl, rfl, rfl, rfl⟩) fun _ => hsent _
  · exact h.memory fun _ => ⟨rfl, rfl, rfl, rfl⟩
  · refine always_bind (h.memory fun _ => ⟨rfl, rfl, rfl, rfl⟩) fun _ => ?_
    refine always_read_bind fun _ _ => ?_
    refine always_when ?_
    split
    · exact h.unknown _ _
    · exact h.localOperationUpdate _ _ _
  · exact always_pure _
  · exact always_fail _
  · exact always_bind (h.memory fun _ => ⟨rfl, rfl, rfl, rfl⟩) fun _ => hsent _

theorem receiveWork (hqueueted : ∀ bindings decisions,
      Fine (.admitted bindings decisions) → Always I (admitted cfg bindings decisions)) :
    Always I (receiveWork cfg) := by
  have hwork : ∀ work, Fine work → Always I (handleWork cfg work) := by
    intro work hfine
    refine always_bind (h.moved fun e => ⟨rfl, rfl, rfl, fun other hother => ?_⟩) fun _ => ?_
    · rcases List.mem_cons.mp hother with hsame | hother
      · rw [hsame]
        exact .inr hfine
      · exact .inl (List.mem_append_right _ hother)
    refine always_bind (h.handle work fun bindings decisions hsame => ?_) fun _ => ?_
    · subst hsame
      exact hqueueted _ _ hfine
    refine always_bind (h.moved fun e => ⟨rfl, rfl, rfl, fun other hother => ?_⟩) fun _ => ?_
    · exact .inl (List.mem_append_right _ hother)
    · exact always_pure _
  refine always_read_bind fun e he => ?_
  split
  · rename_i work hstash
    refine always_bind (h.moved fun e => ⟨rfl, rfl, rfl, fun other hother => ?_⟩) fun _ => ?_
    · rcases List.mem_append.mp hother with hhandling | hother
      · exact .inl (List.mem_append_left _ hhandling)
      · exact .inl (List.mem_append_right _ (List.mem_append_right _ hother))
    · refine hwork work (h.fine e he work (List.mem_append_right _ ?_))
      rw [hstash]
      exact List.mem_cons_self
  · split
    · exact always_pure _
    · rename_i work rest hqueue
      have hfine : ∀ other ∈ work :: rest, Fine other := by
        intro other hother
        refine h.fine e he other (List.mem_append_right _ (List.mem_append_right _ ?_))
        rw [hqueue]
        exact hother
      obtain ⟨hfirst, hrest⟩ := List.forall_mem_cons.mp hfine
      exact always_bind (h.setQueue hrest) fun _ => hwork work hfirst

theorem catalogOpened (hopening : Always I (beginOpening cfg)) (request : Request)
    (opened : Result Catalog) : Always I (catalogOpened cfg request opened) := by
  have hcatalog : Always I (openCatalog opened) := by
    refine always_read_bind fun _ _ => always_lift_bind fun _ _ => always_lift_bind fun _ _ => ?_
    exact h.memory fun _ => ⟨rfl, rfl, rfl, rfl⟩
  refine always_bind hcatalog fun _ => always_bind (h.applyRecovery request) fun _ => ?_
  refine always_read_bind fun _ _ => always_ite ?_ (always_pure _)
  exact always_bind hopening fun _ => always_pure _

end

end Tame

end Zhir.Kernel
