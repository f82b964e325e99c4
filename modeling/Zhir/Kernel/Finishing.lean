import Zhir.Kernel.Commits
import Zhir.Kernel.MediaTasks

/-!
The completion of a run: what holds when the main loop commits the completed phase, and why
the store accepts it.
-/

set_option autoImplicit false
set_option relaxedAutoImplicit false

namespace Zhir.Kernel

open Zhir.Core
open Zhir.Library (Program)
open Zhir.Library.Program
open Relation (ReflTransGen)

variable (cfg : Config)

def Engine.Running (e : Engine) : Prop := e.current.state = .running

private theorem running_commit {e : Engine} {next : Checkpoint} (he : e.Running)
    (hnext : next.state = e.current.state) (fact : Fact) (delta : HistoryDelta) :
    Always Engine.Running (commit cfg next fact delta) := by
  intro e' he'
  rcases run_commit cfg e' next fact delta with ⟨error, w, -, hr⟩ | ⟨-, hr | hr⟩
  · rw [hr]
    exact he'
  · rw [hr]
    exact hnext.trans he
  · rw [hr]
    exact he'

private theorem running_newId : Always Engine.Running (newId cfg) := fun _ he => he

private theorem running_check : Always Engine.Running (check cfg) := by
  intro e he
  simp only [Program.run, check]
  split <;> exact he

private theorem running_ask {α : Type} (answer : Nat → α) : Always Engine.Running (ask answer) :=
  fun _ he => he

private theorem running_finish (id : OperationId) (outcome : OperationOutcome) :
    Always Engine.Running (finish cfg id outcome) := by
  unfold finish finishAt
  refine always_lift_bind fun _ _ => always_read_bind fun e he => ?_
  split
  · exact always_require _ _
  · refine always_ite (always_require _ _) (always_ite ?_ ?_)
    · refine always_read_bind fun e he => always_bind (running_newId cfg) fun commandId => ?_
      refine always_lift_bind fun next hstage => ?_
      obtain ⟨history, -, rfl⟩ := stageFinish_ok hstage
      exact always_bind (running_commit cfg he (by rfl) _ _) fun _ => always_modify fun _ he => he
    · refine always_read_bind fun e he => always_lift_bind fun entry _ => ?_
      refine always_bind (running_newId cfg) fun commandId => ?_
      refine always_lift_bind fun next hstage => ?_
      obtain ⟨history, -, rfl⟩ := stageFinishProvider_ok hstage
      exact running_commit cfg he (by rfl) _ _

private theorem running_localOperationUpdate (id : OperationId) (state : OperationState)
    (wait : Option Value) : Always Engine.Running (localOperationUpdate cfg id state wait) := by
  unfold localOperationUpdate
  refine always_read_bind fun e he => ?_
  split
  · exact always_fail _
  · exact always_bind (always_require _ _) fun _ => running_commit cfg he (by rfl) _ _

private theorem running_dispatchCommands : Always Engine.Running (dispatchCommands cfg) := by
  unfold dispatchCommands
  refine always_read_bind fun e he => ?_
  split
  · exact always_pure ()
  · refine always_ite (always_pure ()) ?_
    split
    · exact always_pure ()
    · unfold sendCommand
      refine always_read_bind fun e he => always_lift_bind fun _ _ => ?_
      refine always_bind (always_when (always_read_bind fun e he => ?_)) fun _ => ?_
      · exact running_commit cfg he (by rfl) _ _
      refine always_bind (running_check cfg) fun _ => always_read_bind fun e he => ?_
      exact always_lift_bind fun _ _ => always_modify fun _ he => he

private theorem running_selectCalls (available : List Candidate) (parallel : Bool) (running : Nat)
    (selected : List String) (bindings : List Binding) (calls : List RuntimeToolCall) :
    Always Engine.Running (selectCalls cfg available parallel running selected bindings calls) := by
  induction calls generalizing selected bindings with
  | nil => exact always_pure _
  | cons shown rest ih =>
    unfold selectCalls
    split
    · exact always_fail _
    · refine always_bind (always_require _ _) fun _ => always_bind ?_ fun bound => ?_
      · exact always_read_bind fun e he => running_ask _
      · split
        · exact always_bind (running_finish cfg _ _) fun _ => ih _ _
        · refine always_read_bind fun e he => always_ite (always_pure _) ?_
          refine always_ite (always_pure _) ?_
          exact always_bind (always_modify fun _ he => he) fun _ => ih _ _

private theorem running_admitQueued : Always Engine.Running (admitQueued cfg) := by
  unfold admitQueued
  refine always_read_bind fun e he => always_ite (always_pure ()) (always_ite (always_pure ()) ?_)
  refine always_ite (always_forEach (fun record => ?_) _) ?_
  · refine always_ite (running_finish cfg _ _) (always_read_bind fun e he => ?_)
    split
    · exact always_fail _
    · exact always_bind (running_localOperationUpdate cfg _ _ _) fun _ =>
        always_modify fun _ he => he
  · refine always_read_bind fun e he => always_lift_bind fun _ _ => ?_
    refine always_ite (always_pure ()) ?_
    refine always_lift_bind fun _ _ => always_bind (running_selectCalls cfg _ _ _ _ _ _) ?_
    exact fun _ => always_when (always_modify fun _ he => he)

/-- An execution that has not ended is in the running phase. -/
def System.InPhase : System → Prop
  | .idle _ => True
  | .live x => x.stage = .ended ∨ x.engine.Running

private theorem inPhase_react (x : Execution) (handler : Handler Stage) :
    System.InPhase (.live (react cfg x handler)) := by
  unfold react
  rcases Program.run handler x.engine with ⟨error | stage, e⟩
  · exact .inl rfl
  · by_cases hactive : e.current.state.active = true
    · refine .inr ?_
      simp only [Engine.Running]
      cases hstate : e.current.state <;> rw [hstate] at hactive <;> first | rfl | cases hactive
    · exact .inl (if_neg hactive)

private theorem inPhase_begin (w : World) (request : Request) (expired : Bool) :
    System.InPhase (begin cfg w request expired) := by
  unfold begin
  dsimp only
  split
  · trivial
  · split
    · exact .inl rfl
    · exact inPhase_react cfg _ _

private theorem inPhase_stepLive {x : Execution} (h : System.InPhase (.live x)) (action : Action) :
    System.InPhase (.live (stepLive cfg x action)) := by
  have hengine : ∀ {e : Engine}, e.current = x.engine.current →
      System.InPhase (.live { x with engine := e }) := by
    intro e he
    refine h.imp id fun hrunning => ?_
    exact (congrArg Checkpoint.state he).trans hrunning
  cases action with
  | task index event => exact hengine (Engine.runTask_keeps cfg index event x.engine).1
  | media chunk =>
    simp only [stepLive]
    split
    · exact h
    · exact hengine rfl
  | wake =>
    simp only [stepLive]
    split
    · exact inPhase_react cfg _ _
    · exact inPhase_react cfg _ _
    · rename_i hstage
      refine .inr (h.resolve_left ?_)
      rw [hstage]
      intro hended
      cases hended
    · exact h
  | _ =>
    simp only [stepLive]
    first
      | exact h
      | (split <;> first | exact inPhase_react cfg _ _ | exact h)

private theorem inPhase_step {s : System} (h : s.InPhase) (action : Action) :
    (System.step cfg s action).InPhase := by
  cases s with
  | idle w =>
    cases action with
    | start messages context options expired =>
      simp only [System.step, beginRequest]
      split
      · exact inPhase_begin cfg _ _ _
      · trivial
    | recover checkpoint messages resolutions metadata expired =>
      simp only [System.step, beginRequest]
      split
      · split
        · exact inPhase_begin cfg _ _ _
        · trivial
      · trivial
    | _ => exact h
  | live x =>
    cases action with
    | crash => trivial
    | _ => exact inPhase_stepLive cfg h _

private theorem reachable_inPhase {s : System} (hs : Reachable cfg s) : s.InPhase := by
  obtain ⟨actions, rfl⟩ := hs
  have hrun : ∀ (actions : List Action) (s : System), s.InPhase →
      (System.run cfg s actions).InPhase := by
    intro actions
    induction actions with
    | nil => exact fun _ hs => hs
    | cons action rest ih => exact fun s hs => ih _ (inPhase_step cfg hs action)
  exact hrun actions _ trivial

def passHead : Handler Unit := do
  check cfg
  dispatchCommands cfg
  admitQueued cfg

/-- `advance` commits the completed phase. -/
def Engine.completes (e : Engine) : Bool :=
  let session := e.current.active.session
  e.canAdvance && !(session.needsGeneration && e.supports cfg .explicitGeneration) &&
    e.inputFinished cfg && session.closure.isSome && !e.mediaPending && !e.inputSending

/-- What a finished run has seen to, and that the store takes its completion. -/
structure Engine.Finished (e : Engine) : Prop where
  closure : e.current.active.session.closure.isSome = true
  commands : e.current.active.commands = []
  operations : ∀ (id : OperationId) (op : OperationRecord),
    e.current.active.operations[id]? = some op → op.state.terminal = true
  /-- No media task is at work in either direction, and none of its reports is left. -/
  drained : ∀ input, (∀ task ∈ e.tasks, task.seals input = false) ∧
    ∀ work ∈ e.works, work.ends input = false ∧ work.decides input = false
  covered : e.supports cfg .responseEvents = true →
    e.current.active.session.responseStatus = some .completed ∧
      e.current.active.session.needsGeneration = false ∧
      e.current.active.session.generatedInputPosition = e.current.active.session.inputPosition
  validate : (stamp cfg e.world e.current
    (setState (.completed (resultContent e.current)) e.current) (.control .finished)).validate =
      .ok ()
  /-- Unless the store itself fails, the run is completed. -/
  commits : cfg.verdict e.world.clock = .accepted → ∃ e',
    Program.run (complete cfg) e = (.ok (), e') ∧
      e'.current.state = .completed (resultContent e.current)

variable {cfg} {e : Engine}

private theorem run_advance_completes (h : e.completes cfg = true) :
    Program.run (advance cfg) e = Program.run (do complete cfg; return true) e := by
  unfold Engine.completes at h
  simp only [Bool.and_eq_true, Bool.not_eq_true'] at h
  obtain ⟨⟨⟨⟨⟨hadvance, hneeds⟩, hinput⟩, hclosure⟩, hpending⟩, hsending⟩ := h
  have hclosed : ¬ e.current.active.session.closure = none := by
    intro hnone
    rw [hnone] at hclosure
    cases hclosure
  have hgenerates : ¬ (e.current.active.session.needsGeneration = true ∧
      e.supports cfg .explicitGeneration = true) := by
    intro hboth
    rw [hboth.1, hboth.2] at hneeds
    cases hneeds
  have hdrained : ¬ (e.mediaPending = true ∨ e.inputSending = true) := by
    rw [hpending, hsending]
    simp
  have hfinish : Program.run (advanceRun cfg) e = Program.run (do complete cfg; return true) e := by
    unfold advanceRun
    rw [run_bind, run_read]
    simp only [hadvance, hgenerates, hinput, if_true, if_false]
    unfold finishOrDrain
    rw [run_bind, run_read]
    simp only [hclosed, hdrained, if_false]
  unfold advance
  rw [run_bind, hfinish, run_bind]
  rcases Program.run (complete cfg) e with ⟨error | u, e'⟩ <;> rfl

private theorem run_commit_accepted {next : Checkpoint} {fact : Fact} {delta : HistoryDelta}
    (haccepts : Accepts cfg e.world e.current next fact delta)
    (hverdict : cfg.verdict e.world.clock = .accepted) :
    Program.run (commit cfg next fact delta) e = (.ok (), e.saved cfg e.world next fact) := by
  unfold Accepts at haccepts
  simp only [Program.run, commit, persist, hverdict, haccepts]
  rfl

private theorem unfinished_iff {c : Checkpoint} : c.unfinished = false ↔
    ∀ (id : OperationId) (op : OperationRecord), c.active.operations[id]? = some op →
      op.state.terminal = true := by
  unfold Checkpoint.unfinished
  constructor
  · intro h id op hop
    have hmem := Std.ExtTreeMap.mem_toList_iff_getElem?_eq_some.mpr hop
    simpa using List.any_eq_false.mp h (id, op) hmem
  · intro h
    refine List.any_eq_false.mpr ?_
    rintro ⟨id, op⟩ hmem
    have hop := h id op (Std.ExtTreeMap.mem_toList_iff_getElem?_eq_some.mp hmem)
    simp [hop]

private theorem busy_eq (e : Engine) : e.status.busy = e.current.unfinished := by
  change (!((e.current.active.operations.toList.map Prod.snd).filter
    fun op => !op.state.terminal).isEmpty) =
      e.current.active.operations.toList.any fun entry => !entry.2.state.terminal
  generalize e.current.active.operations.toList = records
  induction records with
  | nil => rfl
  | cons entry rest ih =>
    rw [List.map_cons, List.filter_cons, List.any_cons]
    cases hterminal : entry.2.state.terminal with
    | true => exact ih
    | false => rfl

private theorem resultContent_valid {c : Checkpoint}
    (h : ∀ entry ∈ c.history.entries, entry.validate = .ok ()) :
    validateAll Content.validate (resultContent c) = .ok () := by
  refine Commit.validateAll_of fun content hcontent => ?_
  obtain ⟨message, hmessage, hcontent⟩ := List.mem_flatMap.mp hcontent
  cases message with
  | assistant output data =>
    obtain ⟨item, hitem, hcontent⟩ := mem_visibleContent.mp hcontent
    obtain ⟨entry, hentry, reported, reportedData, hreported, hitem⟩ :=
      (mem_conversation hmessage).output hitem
    have hvalid := h entry (List.mem_of_mem_drop hentry)
    unfold HistoryEntry.validate at hvalid
    split at hvalid
    · cases hvalid
    · rw [hreported] at hvalid
      obtain ⟨before, after, hitem⟩ := validateItem_of_validateItems hvalid item hitem
      exact visible_of_validateItem hitem content hcontent
  | _ => cases hcontent

private theorem reached_passHead {e₀ : Engine} {resolutions : List RecoveryResolution}
    (hreached : Reached cfg (.live resolutions e₀)) (hlooping : e₀.Looping)
    (hvalid : e₀.current.Valid) (hrun : Program.run (passHead cfg) e₀ = (.ok (), e)) :
    Reached cfg (.live resolutions e) ∧ e.Looping := by
  have hfault := fault_failing cfg .loop
  have hsteps : Steps cfg .loop (Fault cfg .loop) e₀ (passHead cfg) e₀.world := by
    refine steps_check_bind hfault (.refl _) fun w hw _ => ?_
    refine steps_bind (steps_dispatchCommands hfault hw hlooping.2) fun _ e₁ _ hmoves => ?_
    exact steps_admitQueued hfault (hmoves.valid hvalid) (hmoves.looping hlooping)
      (hmoves.admits hreached.admits).none_of_idle
  have hmoves : Moves cfg .loop e₀ e := hsteps.of_ok hrun
  have hturns : Turns cfg .loop e₀ e := ReflTransGen.mono (fun _ _ h => .move h) _ _ hmoves
  exact ⟨hreached.trans (Turns.steps hturns fun _ _ => trivial), hmoves.looping hlooping⟩

private theorem running_passHead (cfg : Config) : Always Engine.Running (passHead cfg) :=
  always_bind (running_check cfg) fun _ =>
    always_bind (running_dispatchCommands cfg) fun _ => running_admitQueued cfg

/-- A pass that completes commits the completed phase, and the run is done by then and the commit
valid, unless a session that declares neither explicit generation nor response events has
reported a provider call after its closure. -/
theorem completion_finished_iff {e₀ : Engine}
    (hs : Reachable cfg (.live ⟨e₀, .pass⟩))
    (hrun : Program.run (passHead cfg) e₀ = (.ok (), e)) (hcompletes : e.completes cfg = true) :
    Program.run (advance cfg) e = Program.run (do complete cfg; return true) e ∧
      (e.Finished cfg ↔ (e.supports cfg .explicitGeneration = true ∨
        e.supports cfg .responseEvents = true ∨ e.current.unfinished = false)) := by
  refine ⟨run_advance_completes hcompletes, ?_⟩
  obtain ⟨resolutions, hreached, hlooping⟩ :
      ∃ resolutions, Reached cfg (.live resolutions e) ∧ e.Looping := by
    obtain ⟨p, hreached, hshows⟩ := reached_of_reachable hs
    cases hshows with
    | pass hlooping hvalid => exact ⟨_, reached_passHead hreached hlooping hvalid hrun⟩
  have hrunning : e.Running := by
    have hbefore : Engine.Running e₀ := (reachable_inPhase cfg hs).resolve_left fun h => by cases h
    have hafter := running_passHead cfg e₀ hbefore
    rw [hrun] at hafter
    exact hafter
  have hsound := Reached.sound hreached
  have hvalidated := (validated_inductive cfg).current hreached
  have hentries := (entries_inductive cfg).current hreached
  unfold Engine.completes at hcompletes
  simp only [Bool.and_eq_true, Bool.not_eq_true'] at hcompletes
  obtain ⟨⟨⟨⟨⟨hadvance, hneeds⟩, hinput⟩, hclosure⟩, hpending⟩, hsending⟩ := hcompletes
  have hcommands : e.current.active.commands = [] := by
    unfold Engine.canAdvance at hadvance
    simp only [Bool.and_eq_true, List.isEmpty_iff] at hadvance
    exact hadvance.1.2
  have hcovered : e.supports cfg .responseEvents = true →
      Checkpoint.covered e.current.active.session = true := by
    intro hresponses
    unfold Engine.inputFinished at hinput
    rw [hresponses] at hinput
    simpa using (Bool.and_eq_true_iff.mp hinput).1
  have hfields : e.supports cfg .responseEvents = true →
      e.current.active.session.responseStatus = some .completed ∧
        e.current.active.session.needsGeneration = false ∧
        e.current.active.session.generatedInputPosition =
          e.current.active.session.inputPosition := by
    intro hresponses
    have h := hcovered hresponses
    unfold Checkpoint.covered at h
    simpa [and_assoc] using h
  have hrecorded : e.current.supports .responseEvents = e.supports cfg .responseEvents := by
    obtain ⟨control, hcontrol⟩ := Option.isSome_iff_exists.mp hlooping.1
    unfold Checkpoint.supports Engine.supports Engine.capabilities
    rw [hsound.capabilities control hcontrol, hcontrol]
    rfl
  constructor
  · intro h
    exact .inr (.inr (unfinished_iff.mpr h.operations))
  intro h
  have hfinished : e.current.unfinished = false := by
    unfold Engine.canAdvance at hadvance
    simp only [Bool.and_eq_true, Bool.or_eq_true, Bool.not_eq_true', decide_eq_true_eq]
      at hadvance
    rw [← busy_eq]
    rcases hadvance.1.1.1.1 with hbusy | ⟨⟨hneeded, -⟩, hcontinuation⟩
    · exact hbusy
    · rcases h with hexplicit | hresponses | hfinished
      · rw [hneeded, hexplicit] at hneeds
        cases hneeds
      · rw [(hfields hresponses).1] at hcontinuation
        cases hcontinuation
      · rw [busy_eq]
        exact hfinished
  let next := stamp cfg e.world e.current
    (setState (.completed (resultContent e.current)) e.current) (.control .finished)
  have hvalid : next.validate = .ok () := by
    refine Checkpoint.validate_restamp ?_ (cfg.checkpointName_ne_empty _) (by simp)
    refine Checkpoint.validate_completed hvalidated (resultContent_valid hentries) ?_ hcommands
      hclosure hfinished
    rw [hrecorded]
    exact hcovered
  have haccepts : Accepts cfg e.world e.current
      (setState (.completed (resultContent e.current)) e.current) (.control .finished)
      .unchanged := by
    unfold Accepts
    rw [hsound.head]
    exact Commit.accepted_phase hrunning hcommands rfl hvalid
  refine
    { closure := hclosure
      commands := hcommands
      operations := unfinished_iff.mp hfinished
      drained := fun input => (Reached.tended hreached input).drained ?_
      covered := hfields
      validate := hvalid
      commits := fun hverdict => ⟨_, run_commit_accepted haccepts hverdict, rfl⟩ }
  cases input
  · exact hpending
  · exact hsending

private theorem reachable_pass {actions : List Action}
    {hlive : ((sampleRun actions).execution).isSome = true}
    (hpass : ((sampleRun actions).execution).any (fun x => x.stage.isPass) = true) :
    Reachable sampleConfig (.live ⟨sampleEngine actions hlive, .pass⟩) := by
  refine ⟨actions, ?_⟩
  change _ = sampleRun actions
  unfold sampleEngine
  generalize sampleRun actions = s at hlive hpass
  cases s with
  | idle w => cases hlive
  | live x =>
    obtain ⟨engine, stage⟩ := x
    cases stage <;> first | rfl | cases hpass

/-- An interactive run whose session answers once by itself. -/
def sampleAnswered (status : ResponseStatus) : List Action :=
  [.start [.user [.text "go"]] ⟨"run", 0, none, none, none, []⟩
      { sampleOptions sampleLimits with mode := .interactive } false,
    .catalog (.ok sampleCatalog),
    .opened (.ok (sampleSession
      { features := [.responseEvents, .localProjection], rest := .null })), .pass] ++
  sampleEvent 0 (.ready 0) ++ sampleEvent 1 (.responseStarted "turn" 0) ++
  sampleEvent 2 (.responseFinished (sampleCompletion "turn" status))

/-- The session closes, and the next pass completes the run. -/
def sampleFinishing : List Action :=
  sampleAnswered .completed ++ [.task 0 (.model (.ok (some ⟨3, .closed "done" .null⟩))), .work]

def sampleFinishingEngine : Engine := sampleEngine sampleFinishing (by decide +kernel)

def sampleFinishingHead : Engine := (Program.run (passHead sampleConfig) sampleFinishingEngine).2

theorem completion_finished_sample : sampleFinishingHead.Finished sampleConfig := by
  have hs : Reachable sampleConfig (.live ⟨sampleFinishingEngine, .pass⟩) :=
    reachable_pass (by decide +kernel)
  have hrun : Program.run (passHead sampleConfig) sampleFinishingEngine =
      (.ok (), sampleFinishingHead) := Prod.fst_eq_iff.mp (by decide +kernel)
  refine (completion_finished_iff hs hrun (by decide +kernel)).2.mpr (.inr (.inl ?_))
  decide +kernel

def sampleProviderCall : Output :=
  .providerToolCall ⟨"search", "provider", "search", .running, none, [], .null⟩

def sampleContinuedHead : Checkpoint :=
  (sampleRun (sampleAnswered .continuation)).head (by decide +kernel)

/-- The run goes on with a session that has no response events. It closes by itself, and the
call follows in the same batch. -/
def sampleClosed : List Action :=
  sampleAnswered .continuation ++
  [.crash, .recover sampleContinuedHead [] [] [] false, .catalog (.ok sampleCatalog),
    .opened (.ok (sampleSession { features := [.localProjection], rest := .null })), .pass] ++
  sampleEvent 0 (.ready 0) ++
  [.task 0 (.model (.ok (some ⟨1, .closed "done" .null⟩))),
    .task 0 (.model (.ok (some ⟨2, .output none "item" "model" sampleProviderCall⟩))), .work]

def sampleClosedEngine : Engine := sampleEngine sampleClosed (by decide +kernel)

def sampleClosedHead : Engine := (Program.run (passHead sampleConfig) sampleClosedEngine).2

theorem late_call_fails_completion :
    Reachable sampleConfig (.live ⟨sampleClosedEngine, .pass⟩) ∧
    Program.run (passHead sampleConfig) sampleClosedEngine = (.ok (), sampleClosedHead) ∧
    sampleClosedHead.completes sampleConfig = true ∧ ¬ sampleClosedHead.Finished sampleConfig ∧
    (sampleRun (sampleClosed ++ [.pass])).world.durable.head?.map Checkpoint.state =
      some (.failed (Error.invalid "completed run has unfinished operations").failure) := by
  refine ⟨reachable_pass (by decide +kernel), ?_, by decide +kernel, ?_, by decide +kernel⟩
  · exact Prod.fst_eq_iff.mp (by decide +kernel)
  · intro hfinished
    have hvalid : (stamp sampleConfig sampleClosedHead.world sampleClosedHead.current
        (setState (.completed (resultContent sampleClosedHead.current)) sampleClosedHead.current)
          (.control .finished)).validate ≠ .ok () := by decide +kernel
    exact hvalid hfinished.validate

end Zhir.Kernel
