import Zhir.Kernel.LoopMoves

/-!
Runs in the smallest steps that matter: every state a run can reach is reached by moves,
task steps, crashes and recoveries. Invariants are proved for one such step and hold of
every run.
-/

set_option autoImplicit false
set_option relaxedAutoImplicit false

namespace Zhir.Kernel

open Zhir.Core
open Zhir.Library (Program)
open Zhir.Library.Program
open Relation (ReflTransGen)

variable (cfg : Config)

/-- Where a run stands between two steps. A live execution remembers the resolutions it
was recovered with. -/
inductive Point
  | idle (w : World)
  | live (resolutions : List RecoveryResolution) (e : Engine)
  | ended (e : Engine)

def Point.world : Point → World
  | .idle w => w
  | .live _ e => e.world
  | .ended e => e.world

/-- The world once the first checkpoint of an execution is durable. -/
def World.opened (w : World) (first : Checkpoint) : World :=
  ({ w with checkpoints := w.checkpoints + 1, names := w.names + 1 } : World).tick.record first

/-- A request the runtime accepts: a new run, or a durable checkpoint to go on from. -/
inductive Requested (w : World) : Request → Prop
  | start {messages : List Message} {context : RunContext} {options : RunOptions}
      {request : Request} (h : startRequest messages context options = .ok request) :
      Requested w request
  | recover {checkpoint : Checkpoint} {messages : List Message}
      {resolutions : List RecoveryResolution} {metadata : List (String × Value)}
      {request : Request} (hdurable : checkpoint ∈ w.durable)
      (h : recoverRequest checkpoint messages resolutions metadata = .ok request) :
      Requested w request

/-- The first checkpoint of an execution, as the store accepts it. -/
structure Opens (w : World) (request : Request) (expired : Bool) (first : Checkpoint) : Prop where
  requested : Requested w request
  checkpoint : first =
    expire expired (initial (cfg.checkpointName w.checkpoints) (cfg.name w.names) request).1
  accepts : (Commit.mk first
    (initial (cfg.checkpointName w.checkpoints) (cfg.name w.names) request).2).validateAgainst
      w.head = .ok ()

/-- Recovery resolutions are applied before the session is bound. -/
def Allowed (resolutions : List RecoveryResolution) (e : Engine) : Cause → Prop
  | .recovery applied => applied = resolutions ∧ e.sessionControl = none
  | _ => True

inductive Step : Point → Point → Prop
  | wait {w w' : World} (hw : w.Counted w') : Step (.idle w) (.idle w')
  | lost {w : World} {request : Request} {expired : Bool} {first : Checkpoint}
      (h : Opens cfg w request expired first) : Step (.idle w) (.idle (w.opened first))
  | boot {w : World} {request : Request} {expired : Bool} {first : Checkpoint}
      (h : Opens cfg w request expired first) :
      Step (.idle w) (.live request.resolutions (Engine.boot (w.opened first) first))
  | turn {resolutions : List RecoveryResolution} {cause : Cause} {e e' : Engine}
      (hcause : Allowed resolutions e cause) (h : Turn cfg cause e e') :
      Step (.live resolutions e) (.live resolutions e')
  | task {resolutions : List RecoveryResolution} {e : Engine} {index : Nat} {event : TaskEvent} :
      Step (.live resolutions e) (.live resolutions (e.runTask cfg index event))
  | packet {resolutions : List RecoveryResolution} {e : Engine} {chunk : MediaChunk} :
      Step (.live resolutions e) (.live resolutions { e with media := e.media ++ [chunk] })
  | fail {resolutions : List RecoveryResolution} {cause : Cause} {e e' : Engine} {error : Error}
      (hcause : Allowed resolutions e cause) (h : Fault cfg cause e error e') :
      Step (.live resolutions e) (.ended (Program.run (settle cfg error) e').2)
  | finish {resolutions : List RecoveryResolution} {e : Engine} :
      Step (.live resolutions e) (.ended e)
  | lateTask {e : Engine} {index : Nat} {event : TaskEvent} :
      Step (.ended e) (.ended (e.runTask cfg index event))
  | latePacket {e : Engine} {chunk : MediaChunk} :
      Step (.ended e) (.ended { e with media := e.media ++ [chunk] })
  | crash {resolutions : List RecoveryResolution} {e : Engine} :
      Step (.live resolutions e) (.idle e.world)
  | exit {e : Engine} : Step (.ended e) (.idle e.world)

def Reached : Point → Prop := ReflTransGen (Step cfg) (.idle .start)

variable {cfg}

/-- What holds at the start and is kept by every step from a reached point holds of every
reached point. -/
theorem Reached.rule {I : Point → Prop} (hstart : I (.idle .start))
    (hstep : ∀ p p', Reached cfg p → I p → Step cfg p p' → I p') {p : Point}
    (h : Reached cfg p) : I p := by
  induction h with
  | refl => exact hstart
  | tail hreached hnext ih => exact hstep _ _ hreached ih hnext

def Point.Admits : Point → Prop
  | .live _ e => e.Admits
  | _ => True

theorem Engine.runTask_cases (cfg : Config) (index : Nat) (event : TaskEvent) (e : Engine) :
    e.runTask cfg index event = e ∨ ∃ task step, e.tasks[index]? = some task ∧
      taskStep cfg task event = some step ∧
        e.runTask cfg index event = e.taskStepped index step := by
  unfold Engine.runTask
  rcases htask : e.tasks[index]? with _ | task
  · exact .inl rfl
  · rcases hstep : taskStep cfg task event with _ | step
    · simp [hstep]
    · simp only [hstep]
      split
      · exact .inl rfl
      · exact .inr ⟨task, step, rfl, hstep, rfl⟩

private theorem Reached.point_admits {p : Point} (h : Reached cfg p) : p.Admits := by
  refine h.rule (I := Point.Admits) trivial fun p p' _ hadmits hstep => ?_
  cases hstep with
  | boot _ => exact ⟨.inl rfl, fun _ _ hwork => (nomatch hwork), fun _ => rfl⟩
  | turn _ hturn => exact hturn.admits hadmits
  | @task resolutions e index event =>
    rcases Engine.runTask_cases cfg index event e with hsame | ⟨task, step, htask, hstep, hnext⟩
    · rw [hsame]
      exact hadmits
    · rw [hnext]
      exact hadmits.taskStepped htask hstep
  | packet => exact hadmits.congr rfl rfl rfl fun hnone => hnone
  | _ => exact trivial

theorem Reached.admits {resolutions : List RecoveryResolution} {e : Engine}
    (h : Reached cfg (.live resolutions e)) : e.Admits :=
  h.point_admits

inductive Shows : System → Point → Prop
  | idle {w : World} : Shows (.idle w) (.idle w)
  | catalog {e : Engine} {request : Request} (hunbound : e.Unbound) (hvalid : e.current.Valid) :
      Shows (.live ⟨e, .catalog request⟩) (.live request.resolutions e)
  | opening {e : Engine} {session : SessionOpen} {resolutions : List RecoveryResolution}
      (hunbound : e.Unbound) (hvalid : e.current.Valid) :
      Shows (.live ⟨e, .opening session⟩) (.live resolutions e)
  | pass {e : Engine} {resolutions : List RecoveryResolution} (hlooping : e.Looping)
      (hvalid : e.current.Valid) : Shows (.live ⟨e, .pass⟩) (.live resolutions e)
  | receive {e : Engine} {resolutions : List RecoveryResolution} (hlooping : e.Looping)
      (hvalid : e.current.Valid) : Shows (.live ⟨e, .receive⟩) (.live resolutions e)
  | ended {e : Engine} : Shows (.live ⟨e, .ended⟩) (.ended e)

def Leads (cfg : Config) (p : Point) (s : System) : Prop :=
  ∃ p', ReflTransGen (Step cfg) p p' ∧ Shows s p'

variable {e : Engine} {resolutions : List RecoveryResolution} {cause : Cause}

theorem Turn.valid {e e' : Engine} (h : Turn cfg cause e e') (hvalid : e.current.Valid) :
    e'.current.Valid := by
  cases h with
  | move h => exact h.valid hvalid
  | take _ _ => exact hvalid
  | drop _ _ => exact hvalid

theorem Turns.valid {e e' : Engine} (h : Turns cfg cause e e') (hvalid : e.current.Valid) :
    e'.current.Valid := by
  induction h with
  | refl => exact hvalid
  | tail _ hturn ih => exact hturn.valid ih

theorem Turn.bound {e e' : Engine} (h : Turn cfg cause e e')
    (hbound : e.sessionControl.isSome = true) : e'.sessionControl.isSome = true := by
  cases h with
  | move h => exact h.bound hbound
  | take _ _ => exact hbound
  | drop _ _ => exact hbound

theorem Turns.bound {e e' : Engine} (h : Turns cfg cause e e')
    (hbound : e.sessionControl.isSome = true) : e'.sessionControl.isSome = true := by
  induction h with
  | refl => exact hbound
  | tail _ hturn ih => exact hturn.bound ih

theorem Turns.steps {e e' : Engine} (h : Turns cfg cause e e')
    (hcause : ∀ e₁, Turns cfg cause e₁ e' → Allowed resolutions e₁ cause) :
    ReflTransGen (Step cfg) (.live resolutions e) (.live resolutions e') := by
  induction h with
  | refl => exact .refl
  | @tail e₁ e₂ _ hturn ih =>
    refine .tail (ih fun e₀ h₀ => hcause e₀ (h₀.tail hturn)) ?_
    exact .turn (hcause e₁ (.single hturn)) hturn

/-- A handler's run is a chain of steps, and its outcome is shown by the point it leads to. -/
private theorem react_leads {before : Stage} {handler : Handler Stage}
    (hok : ∀ stage e', Program.run handler e = (.ok stage, e') →
      ReflTransGen (Step cfg) (.live resolutions e) (.live resolutions e') ∧
        (stage ≠ .ended → Shows (.live ⟨e', stage⟩) (.live resolutions e')))
    (herr : ∀ error e', Program.run handler e = (.error error, e') → ∃ e₁ cause,
      ReflTransGen (Step cfg) (.live resolutions e) (.live resolutions e₁) ∧
        Allowed resolutions e₁ cause ∧ Fault cfg cause e₁ error e') :
    Leads cfg (.live resolutions e) (.live (react cfg ⟨e, before⟩ handler)) := by
  unfold react
  rcases hrun : Program.run handler e with ⟨error | stage, e'⟩
  · obtain ⟨e₁, cause, hsteps, hcause, hfault⟩ := herr error e' hrun
    exact ⟨_, hsteps.tail (.fail hcause hfault), .ended⟩
  · obtain ⟨hsteps, hshows⟩ := hok stage e' hrun
    have hended : Leads cfg (.live resolutions e) (.live ⟨e', .ended⟩) :=
      ⟨_, hsteps.tail .finish, .ended⟩
    by_cases hstage : e'.current.state.active = true ∧ stage ≠ .ended
    · simp only [hstage.1, if_true]
      exact ⟨_, hsteps, hshows hstage.2⟩
    · have hresult : (if e'.current.state.active = true then stage else .ended) = .ended := by
        split
        · rename_i hactive
          by_contra hne
          exact hstage ⟨hactive, hne⟩
        · rfl
      simp only [hresult]
      exact hended

private theorem chains_leads {before : Stage} {handler : Handler Stage} (cause : Cause)
    (hcause : ∀ e₁, Allowed resolutions e₁ cause)
    (hchains : Chains (Turn cfg cause) (Fault cfg cause) e handler e)
    (hshows : ∀ stage e', Program.run handler e = (.ok stage, e') →
      Turns cfg cause e e' → stage ≠ .ended →
        Shows (.live ⟨e', stage⟩) (.live resolutions e')) :
    Leads cfg (.live resolutions e) (.live (react cfg ⟨e, before⟩ handler)) := by
  refine react_leads (fun stage e' hrun => ?_) fun error e' hrun => ?_
  · have hturns := hchains.of_ok hrun
    exact ⟨Turns.steps hturns fun e₁ _ => hcause e₁, hshows stage e' hrun hturns⟩
  · obtain ⟨e₁, hturns, hfault⟩ := hchains.of_error hrun
    exact ⟨e₁, cause, Turns.steps hturns fun e₂ _ => hcause e₂, hcause e₁, hfault⟩

theorem Steps.turns {handler : Handler Stage}
    (h : Steps cfg cause (Fault cfg cause) e handler e.world) :
    Chains (Turn cfg cause) (Fault cfg cause) e handler e :=
  h.of_chains.widen fun _ _ hmove => .move hmove

theorem Refused.fault {e e' : Engine} {error : Error} (h : Refused cfg cause e error e') :
    Fault cfg cause e error e' := by
  cases h with
  | clean => exact .stopped rfl rfl (World.Counted.refl _)
  | unconfirmed hmove => exact .unconfirmed hmove rfl rfl rfl

theorem Refused.control {e e' : Engine} {error : Error} (h : Refused cfg cause e error e') :
    e'.sessionControl = e.sessionControl := by
  cases h <;> rfl

theorem run_catalogOpened_ok {request : Request} {opened : Result Catalog} {stage : Stage}
    {e' : Engine} (h : Program.run (catalogOpened cfg request opened) e = (.ok stage, e'))
    (hstage : stage ≠ .ended) : ∃ session, stage = .opening session := by
  obtain ⟨_, e₁, -, h⟩ := run_bind_ok h
  obtain ⟨_, e₂, -, h⟩ := run_bind_ok h
  obtain ⟨_, e₃, hread, h⟩ := run_bind_ok h
  rw [run_ite] at h
  split at h
  · obtain ⟨session, e₄, -, h⟩ := run_bind_ok h
    cases h
    exact ⟨session, rfl⟩
  · cases h
    exact absurd rfl hstage

theorem run_sessionOpened_ok {session : SessionOpen} {result : Result ModelSession}
    {stage : Stage} {e' : Engine}
    (h : Program.run (sessionOpened cfg session result) e = (.ok stage, e'))
    (hstage : stage ≠ .ended) : stage = .pass ∧ e'.sessionControl.isSome = true := by
  obtain ⟨_, e₁, hopening, h⟩ := run_bind_ok h
  obtain ⟨_, _, hread, h⟩ := run_bind_ok h
  cases hread
  rw [run_ite] at h
  split at h
  · rename_i hactive
    obtain ⟨_, e₂, hrecover, h⟩ := run_bind_ok h
    cases h
    have hbound := run_finishOpening_ok hopening hactive
    have hkeeps := unbound_recoverOperations cfg e₁
    rw [hrecover] at hkeeps
    refine ⟨rfl, ?_⟩
    rw [hkeeps]
    exact hbound
  · cases h
    exact absurd rfl hstage

def Stage.isLoop : Stage → Bool
  | .pass | .receive => true
  | _ => false

private theorem shows_loop {stage : Stage} {e' : Engine} (hstage : stage.isLoop = true)
    (hlooping : e'.Looping) (hvalid : e'.current.Valid) :
    Shows (.live ⟨e', stage⟩) (.live resolutions e') := by
  cases stage with
  | pass => exact .pass hlooping hvalid
  | receive => exact .receive hlooping hvalid
  | _ => cases hstage

theorem run_loopPass_ok {stage : Stage} {e' : Engine}
    (h : Program.run (loopPass cfg) e = (.ok stage, e')) : stage.isLoop = true := by
  obtain ⟨_, e₁, -, h⟩ := run_bind_ok h
  obtain ⟨_, e₂, -, h⟩ := run_bind_ok h
  obtain ⟨_, e₃, -, h⟩ := run_bind_ok h
  obtain ⟨_, e₄, -, h⟩ := run_bind_ok h
  obtain ⟨_, e₅, -, h⟩ := run_bind_ok h
  obtain ⟨_, e₆, -, h⟩ := run_bind_ok h
  rw [run_ite] at h
  split at h <;> cases h <;> rfl

private theorem run_handleWork_ok {work : Work} {stage : Stage} {e' : Engine}
    (h : Program.run (handleWork cfg work) e = (.ok stage, e')) :
    stage.isLoop = true ∧ e'.handling = none := by
  obtain ⟨_, e₁, -, h⟩ := run_bind_ok h
  obtain ⟨_, e₂, -, h⟩ := run_bind_ok h
  obtain ⟨_, e₃, hdrop, h⟩ := run_bind_ok h
  cases hdrop
  cases h
  exact ⟨rfl, rfl⟩

theorem run_receiveWork_ok {stage : Stage} {e' : Engine} (hlooping : e.Looping)
    (h : Program.run (receiveWork cfg) e = (.ok stage, e')) :
    stage.isLoop = true ∧ e'.handling = none := by
  obtain ⟨_, _, hread, h⟩ := run_bind_ok h
  cases hread
  split at h
  · obtain ⟨_, e₁, -, h⟩ := run_bind_ok h
    exact run_handleWork_ok h
  · split at h
    · cases h
      exact ⟨rfl, hlooping.2⟩
    · obtain ⟨_, e₁, -, h⟩ := run_bind_ok h
      exact run_handleWork_ok h

theorem run_receivePacket_ok {stage : Stage} {e' : Engine}
    (h : Program.run (receivePacket cfg) e = (.ok stage, e')) : stage.isLoop = true := by
  obtain ⟨_, _, hread, h⟩ := run_bind_ok h
  cases hread
  rw [run_ite] at h
  split at h
  · cases h
    rfl
  · split at h
    · obtain ⟨_, e₁, -, h⟩ := run_bind_ok h
      cases h
      rfl
    · split at h
      · cases h
        rfl
      · obtain ⟨_, e₁, -, h⟩ := run_bind_ok h
        obtain ⟨_, e₂, -, h⟩ := run_bind_ok h
        cases h
        rfl

theorem run_receiveControl_ok {body : ControlBody} {before stage : Stage} {e' : Engine}
    (h : Program.run (receiveControl cfg body before) e = (.ok stage, e')) :
    stage = before ∨ before = .receive ∧ stage = .pass := by
  obtain ⟨_, _, hread, h⟩ := run_bind_ok h
  cases hread
  rw [run_ite] at h
  split at h
  · cases h
    exact .inl rfl
  · obtain ⟨_, e₁, -, h⟩ := run_bind_ok h
    cases before with
    | receive =>
      cases h
      exact .inr ⟨rfl, rfl⟩
    | _ =>
      cases h
      exact .inl rfl

private theorem catalogOpened_leads {request : Request} (hunbound : e.Unbound)
    (hvalid : e.current.Valid)
    (opened : Result Catalog) :
    Leads cfg (.live request.resolutions e)
      (.live (react cfg ⟨e, .catalog request⟩ (catalogOpened cfg request opened))) := by
  have hchains : Chains (Move cfg (.recovery request.resolutions))
      (Refused cfg (.recovery request.resolutions)) e (catalogOpened cfg request opened) e :=
    steps_catalogOpened (refused_failing cfg _) hunbound.control rfl opened
  have hkeeps : (Program.run (catalogOpened cfg request opened) e).2.sessionControl = none :=
    (unbound_catalogOpened request opened e).trans hunbound.control
  -- whoever is unbound at the end was unbound before
  have hsteps : ∀ e', Moves cfg (.recovery request.resolutions) e e' → e'.sessionControl = none →
      ReflTransGen (Step cfg) (.live request.resolutions e) (.live request.resolutions e') := by
    intro e' hmoves hcontrol
    have hturns : Turns cfg (.recovery request.resolutions) e e' :=
      ReflTransGen.mono (fun _ _ h => .move h) _ _ hmoves
    refine Turns.steps hturns fun e₁ hlater => ⟨rfl, ?_⟩
    by_contra hbound
    have h := Turns.bound hlater (Option.isSome_iff_ne_none.mpr hbound)
    rw [hcontrol] at h
    cases h
  refine react_leads (fun stage e' hrun => ?_) fun error e' hrun => ?_
  · rw [hrun] at hkeeps
    have hmoves := hchains.of_ok hrun
    refine ⟨hsteps e' hmoves hkeeps, fun hstage => ?_⟩
    obtain ⟨session, rfl⟩ := run_catalogOpened_ok hrun hstage
    exact .opening (Moves.unbound hmoves hunbound hkeeps) (Moves.valid hmoves hvalid)
  · rw [hrun] at hkeeps
    obtain ⟨e₁, hmoves, hrefused⟩ := hchains.of_error hrun
    have hcontrol : e₁.sessionControl = none := hrefused.control.symm.trans hkeeps
    have hallowed : Allowed request.resolutions e₁ (.recovery request.resolutions) :=
      ⟨rfl, hcontrol⟩
    exact ⟨e₁, _, hsteps e₁ hmoves hcontrol, hallowed, hrefused.fault⟩

private theorem sessionOpened_leads (hunbound : e.Unbound) (hvalid : e.current.Valid)
    (session : SessionOpen) (result : Result ModelSession) :
    Leads cfg (.live resolutions e)
      (.live (react cfg ⟨e, .opening session⟩ (sessionOpened cfg session result))) := by
  refine chains_leads .loop (fun _ => trivial)
    (steps_sessionOpened (fault_failing cfg .loop) hunbound hvalid session result).turns ?_
  intro stage e' hrun hturns hstage
  obtain ⟨rfl, hbound⟩ := run_sessionOpened_ok hrun hstage
  have hmoves : Moves cfg .loop e e' :=
    (steps_sessionOpened (fault_failing cfg .loop) hunbound hvalid session result).of_ok hrun
  exact .pass ⟨hbound, hmoves.handling.trans hunbound.handling⟩ (Turns.valid hturns hvalid)

private theorem loopPass_leads (hlooping : e.Looping) (hvalid : e.current.Valid)
    (hadmits : e.Admits) :
    Leads cfg (.live resolutions e) (.live (react cfg ⟨e, .pass⟩ (loopPass cfg))) := by
  have hsteps := steps_loopPass (fault_failing cfg .loop) hvalid hlooping hadmits
  refine chains_leads .loop (fun _ => trivial) hsteps.turns ?_
  intro stage e' hrun hturns hstage
  have hlooping' : e'.Looping := Moves.looping (hsteps.of_ok hrun) hlooping
  exact shows_loop (run_loopPass_ok hrun) hlooping' (Turns.valid hturns hvalid)

private theorem receiveWork_leads (hlooping : e.Looping) (hvalid : e.current.Valid) :
    Leads cfg (.live resolutions e)
      (.live (react cfg ⟨e, .receive⟩ (receiveWork cfg))) := by
  have hchains : Chains (Turn cfg .loop) (Fault cfg .loop) e (receiveWork cfg) e :=
    chains_receiveWork hvalid hlooping
  refine chains_leads .loop (fun _ => trivial) hchains ?_
  intro stage e' hrun hturns hstage
  obtain ⟨hloop, hhandling⟩ := run_receiveWork_ok hlooping hrun
  exact shows_loop hloop ⟨Turns.bound hturns hlooping.1, hhandling⟩ (Turns.valid hturns hvalid)

private theorem receivePacket_leads (hlooping : e.Looping) (hvalid : e.current.Valid) :
    Leads cfg (.live resolutions e)
      (.live (react cfg ⟨e, .receive⟩ (receivePacket cfg))) := by
  have hsteps := steps_receivePacket (fault_failing cfg .loop) hlooping
  refine chains_leads .loop (fun _ => trivial) hsteps.turns ?_
  intro stage e' hrun hturns hstage
  have hlooping' : e'.Looping := Moves.looping (hsteps.of_ok hrun) hlooping
  exact shows_loop (run_receivePacket_ok hrun) hlooping' (Turns.valid hturns hvalid)

private theorem receiveControl_leads {before : Stage} (body : ControlBody)
    (hvalid : e.current.Valid)
    (hshows : ∀ stage e', (stage = before ∨ before = .receive ∧ stage = .pass) →
      Moves cfg (.control body) e e' → e'.sessionControl = e.sessionControl →
        e'.current.Valid → Shows (.live ⟨e', stage⟩) (.live resolutions e')) :
    Leads cfg (.live resolutions e)
      (.live (react cfg ⟨e, before⟩ (receiveControl cfg body before))) := by
  have hsteps : Steps cfg (.control body) (Fault cfg (.control body)) e
      (receiveControl cfg body before) e.world := steps_receiveControl body before
  refine chains_leads (.control body) (fun _ => trivial) hsteps.turns ?_
  intro stage e' hrun hturns _
  have hmoves : Moves cfg (.control body) e e' := hsteps.of_ok hrun
  have hkeeps := unbound_receiveControl cfg body before e
  rw [hrun] at hkeeps
  exact hshows stage e' (run_receiveControl_ok hrun) hmoves hkeeps (hmoves.valid hvalid)

private theorem check_leads {before : Stage} (hvalid : e.current.Valid)
    (hshows : ∀ e', Moves cfg .loop e e' → e'.sessionControl = e.sessionControl →
      e'.current.Valid → Shows (.live ⟨e', before⟩) (.live resolutions e')) :
    Leads cfg (.live resolutions e)
      (.live (react cfg ⟨e, before⟩ (do check cfg; return before))) := by
  have hsteps : Steps cfg .loop (Fault cfg .loop) e (do check cfg; return before) e.world :=
    steps_check_bind (fault_failing cfg .loop) (.refl _) fun w hw _ => steps_pure hw
  refine chains_leads .loop (fun _ => trivial) hsteps.turns ?_
  intro stage e' hrun _ _
  have hmoves : Moves cfg .loop e e' := hsteps.of_ok hrun
  have hkeeps := keeps_bind (unbound_check cfg) (fun _ => keeps_pure before) e
  rw [hrun] at hkeeps
  obtain ⟨_, e₁, -, hpure⟩ := run_bind_ok hrun
  cases hpure
  exact hshows e' hmoves hkeeps (hmoves.valid hvalid)

private theorem Moves.still_unbound {e' : Engine} (h : Moves cfg cause e e') (hunbound : e.Unbound)
    (hcontrol : e'.sessionControl = e.sessionControl) : e'.Unbound :=
  h.unbound hunbound (hcontrol.trans hunbound.control)

private theorem taskStep_isMedia {task : Task} {event : TaskEvent} {step : TaskStep}
    (h : taskStep cfg task event = some step) (htask : task.isMedia = false) :
    ∀ task' ∈ step.remaining, task'.isMedia = false := by
  unfold taskStep at h
  split at h <;> try split at h
  all_goals cases h
  all_goals intro task' hmem
  all_goals cases hmem
  all_goals first | rfl | cases htask

theorem Engine.Unbound.runTask (hunbound : e.Unbound) (index : Nat) (event : TaskEvent) :
    (e.runTask cfg index event).Unbound := by
  rcases Engine.runTask_cases cfg index event e with h | ⟨task, step, htask, hstep, h⟩
  · rw [h]
    exact hunbound
  · rw [h]
    have hmem := List.mem_of_getElem? htask
    refine ⟨hunbound.control, hunbound.handling, hunbound.pending, hunbound.sending, ?_⟩
    intro task' htask'
    simp only [Engine.taskStepped, List.mem_append, Option.mem_toList] at htask'
    rcases htask' with (htask' | htask') | htask'
    · exact hunbound.tasks task' (List.mem_of_mem_take htask')
    · exact taskStep_isMedia hstep (hunbound.tasks task hmem) task' htask'
    · exact hunbound.tasks task' (List.mem_of_mem_drop htask')

theorem Engine.runTask_keeps (cfg : Config) (index : Nat) (event : TaskEvent) (e : Engine) :
    (e.runTask cfg index event).current = e.current ∧
      (e.runTask cfg index event).sessionControl = e.sessionControl ∧
      (e.runTask cfg index event).handling = e.handling := by
  rcases Engine.runTask_cases cfg index event e with h | ⟨_, step, -, -, h⟩
  · rw [h]
    exact ⟨rfl, rfl, rfl⟩
  · rw [h]
    exact ⟨rfl, rfl, rfl⟩

theorem recoverRequest_resolutions {checkpoint : Checkpoint} {messages : List Message}
    {resolutions : List RecoveryResolution} {metadata : List (String × Value)}
    {request : Request}
    (h : recoverRequest checkpoint messages resolutions metadata = .ok request) :
    ∃ ms rs md, request = .recover checkpoint ms rs md := by
  obtain ⟨_, -, h⟩ := Result.bind_ok h
  split at h
  · cases h
    exact ⟨_, _, _, rfl⟩
  · split at h
    · cases h
      exact ⟨_, _, _, rfl⟩
    · cases h

private theorem opened_unbound (w : World) (first : Checkpoint) : (Engine.boot w first).Unbound :=
  ⟨rfl, rfl, rfl, rfl, by simp [Engine.boot]⟩

private theorem begin_leads {w : World} {request : Request} {expired : Bool}
    (hrequested : Requested w request) :
    Leads cfg (.idle w) (begin cfg w request expired) := by
  let opening := initial (cfg.checkpointName w.checkpoints) (cfg.name w.names) request
  let first := expire expired opening.1
  let counted : World := { w with checkpoints := w.checkpoints + 1, names := w.names + 1 }
  have hcounted : w.Counted counted.tick :=
    ⟨rfl, rfl, Nat.le_succ _, Nat.le_succ _⟩
  have hwait : Leads cfg (.idle w) (.idle counted.tick) :=
    ⟨_, .single (.wait hcounted), .idle⟩
  have hopening : initial (cfg.checkpointName w.checkpoints) (cfg.name w.names) request =
      (opening.1, opening.2) := rfl
  unfold begin
  rw [hopening]
  dsimp only [persist]
  rcases haccepts : (Commit.mk first opening.2).validateAgainst counted.head with error | _
  · cases cfg.verdict counted.clock <;> exact hwait
  · have hopens : Opens cfg w request expired first := ⟨hrequested, rfl, haccepts⟩
    cases cfg.verdict counted.clock with
    | refused error => exact hwait
    | unconfirmed => exact ⟨_, .single (.lost hopens), .idle⟩
    | accepted =>
      have hboot : Step cfg (.idle w) (.live request.resolutions
          (Engine.boot (w.opened first) first)) := .boot hopens
      simp only
      split
      · exact ⟨_, (ReflTransGen.single hboot).tail .finish, .ended⟩
      · have hvalid : (Engine.boot (w.opened first) first).current.Valid :=
          Checkpoint.valid_of_validate (Commit.valid_of_ok haccepts)
        have hcatalog : ∀ e', Moves cfg .loop (Engine.boot (w.opened first) first) e' →
            e'.sessionControl = (Engine.boot (w.opened first) first).sessionControl →
              e'.current.Valid →
                Shows (.live ⟨e', .catalog request⟩) (.live request.resolutions e') :=
          fun e' hmoves hcontrol hvalid' =>
            .catalog (Moves.still_unbound hmoves (opened_unbound _ _) hcontrol) hvalid'
        obtain ⟨p, hsteps, hshows⟩ := check_leads hvalid hcatalog
        exact ⟨p, (ReflTransGen.single hboot).trans hsteps, hshows⟩

private theorem beginRequest_leads {w : World} {request : Result Request} {expired : Bool}
    (hrequested : ∀ r, request = .ok r → Requested w r) :
    Leads cfg (.idle w) (beginRequest cfg w request expired) := by
  cases request with
  | ok request => exact begin_leads (hrequested request rfl)
  | error error => exact ⟨_, .refl, .idle⟩

private theorem runTask_shows {stage : Stage} (index : Nat) (event : TaskEvent)
    (h : Shows (.live ⟨e, stage⟩) (.live resolutions e)) :
    Shows (.live ⟨e.runTask cfg index event, stage⟩)
      (.live resolutions (e.runTask cfg index event)) := by
  obtain ⟨hcurrent, hcontrol, hhandling⟩ := Engine.runTask_keeps cfg index event e
  have hvalid : ∀ {c : Checkpoint}, c.Valid → c = e.current →
      (e.runTask cfg index event).current.Valid := by
    intro c hvalid hc
    rw [hcurrent, ← hc]
    exact hvalid
  have hlooping : e.Looping → (e.runTask cfg index event).Looping := by
    intro h
    refine ⟨?_, hhandling.trans h.2⟩
    rw [hcontrol]
    exact h.1
  cases h with
  | catalog hunbound h => exact .catalog (hunbound.runTask index event) (hvalid h rfl)
  | opening hunbound h => exact .opening (hunbound.runTask index event) (hvalid h rfl)
  | pass hloop h => exact .pass (hlooping hloop) (hvalid h rfl)
  | receive hloop h => exact .receive (hlooping hloop) (hvalid h rfl)

private theorem packet_shows {stage : Stage} (chunk : MediaChunk)
    (h : Shows (.live ⟨e, stage⟩) (.live resolutions e)) :
    Shows (.live ⟨{ e with media := e.media ++ [chunk] }, stage⟩)
      (.live resolutions { e with media := e.media ++ [chunk] }) := by
  have hunbound : e.Unbound → ({ e with media := e.media ++ [chunk] } : Engine).Unbound :=
    fun h => ⟨h.control, h.handling, h.pending, h.sending, h.tasks⟩
  cases h with
  | catalog h hvalid => exact .catalog (hunbound h) hvalid
  | opening h hvalid => exact .opening (hunbound h) hvalid
  | pass h hvalid => exact .pass h hvalid
  | receive h hvalid => exact .receive h hvalid

private theorem outside_leads (cfg : Config) {stage : Stage}
    (h : Shows (.live ⟨e, stage⟩) (.live resolutions e)) :
    (∀ index event, Leads cfg (.live resolutions e)
      (.live (stepLive cfg ⟨e, stage⟩ (.task index event)))) ∧
    ∀ chunk, Leads cfg (.live resolutions e)
      (.live (stepLive cfg ⟨e, stage⟩ (.media chunk))) := by
  refine ⟨fun index event => ?_, fun chunk => ?_⟩
  · exact ⟨_, .single .task, runTask_shows index event h⟩
  · simp only [stepLive]
    split
    · exact ⟨_, .refl, h⟩
    · exact ⟨_, .single .packet, packet_shows chunk h⟩

private theorem stepLive_leads {x : Execution} {p : Point} (h : Shows (.live x) p)
    (hreached : Reached cfg p) (action : Action) :
    Leads cfg p (.live (stepLive cfg x action)) := by
  have hstay : ∀ {x' : Execution}, x' = x → Leads cfg p (.live x') := by
    intro x' hx
    rw [hx]
    exact ⟨p, .refl, h⟩
  cases h with
  | @catalog e request hunbound hvalid =>
    have hshows : Shows (.live ⟨e, .catalog request⟩) (.live request.resolutions e) :=
      .catalog hunbound hvalid
    have hout := outside_leads cfg hshows
    have hnext : ∀ {cause : Cause} (e' : Engine), Moves cfg cause e e' →
        e'.sessionControl = e.sessionControl → e'.current.Valid →
          Shows (.live ⟨e', .catalog request⟩) (.live request.resolutions e') :=
      fun e' hmoves hcontrol hvalid' =>
        .catalog (Moves.still_unbound hmoves hunbound hcontrol) hvalid'
    cases action with
    | catalog opened => exact catalogOpened_leads hunbound hvalid opened
    | control body =>
      refine receiveControl_leads body hvalid fun stage e' hstage hmoves hcontrol hvalid' => ?_
      obtain rfl | ⟨hbefore, -⟩ := hstage
      · exact hnext e' hmoves hcontrol hvalid'
      · cases hbefore
    | wake => exact check_leads hvalid hnext
    | task index event => exact hout.1 index event
    | media chunk => exact hout.2 chunk
    | _ => exact hstay rfl
  | @opening e session resolutions hunbound hvalid =>
    have hshows : Shows (.live ⟨e, .opening session⟩) (.live resolutions e) :=
      .opening hunbound hvalid
    have hout := outside_leads cfg hshows
    have hnext : ∀ {cause : Cause} (e' : Engine), Moves cfg cause e e' →
        e'.sessionControl = e.sessionControl → e'.current.Valid →
          Shows (.live ⟨e', .opening session⟩) (.live resolutions e') :=
      fun e' hmoves hcontrol hvalid' =>
        .opening (Moves.still_unbound hmoves hunbound hcontrol) hvalid'
    cases action with
    | opened result => exact sessionOpened_leads hunbound hvalid session result
    | control body =>
      refine receiveControl_leads body hvalid fun stage e' hstage hmoves hcontrol hvalid' => ?_
      obtain rfl | ⟨hbefore, -⟩ := hstage
      · exact hnext e' hmoves hcontrol hvalid'
      · cases hbefore
    | wake => exact check_leads hvalid hnext
    | task index event => exact hout.1 index event
    | media chunk => exact hout.2 chunk
    | _ => exact hstay rfl
  | @pass e resolutions hlooping hvalid =>
    have hshows : Shows (.live ⟨e, .pass⟩) (.live resolutions e) := .pass hlooping hvalid
    have hout := outside_leads cfg hshows
    cases action with
    | pass => exact loopPass_leads hlooping hvalid hreached.admits
    | task index event => exact hout.1 index event
    | media chunk => exact hout.2 chunk
    | _ => exact hstay rfl
  | @receive e resolutions hlooping hvalid =>
    have hshows : Shows (.live ⟨e, .receive⟩) (.live resolutions e) := .receive hlooping hvalid
    have hout := outside_leads cfg hshows
    cases action with
    | work => exact receiveWork_leads hlooping hvalid
    | packet => exact receivePacket_leads hlooping hvalid
    | control body =>
      refine receiveControl_leads body hvalid fun stage e' hstage hmoves _ hvalid' => ?_
      have hlooping' := Moves.looping hmoves hlooping
      obtain rfl | ⟨-, rfl⟩ := hstage
      · exact .receive hlooping' hvalid'
      · exact .pass hlooping' hvalid'
    | wake => exact ⟨_, .refl, .pass hlooping hvalid⟩
    | task index event => exact hout.1 index event
    | media chunk => exact hout.2 chunk
    | _ => exact hstay rfl
  | @ended e =>
    cases action with
    | task index event => exact ⟨_, .single .lateTask, .ended⟩
    | media chunk =>
      simp only [stepLive]
      split
      · exact ⟨_, .refl, .ended⟩
      · exact ⟨_, .single .latePacket, .ended⟩
    | _ => exact hstay rfl

theorem step_leads {s : System} {p : Point} (h : Shows s p) (hreached : Reached cfg p)
    (action : Action) : Leads cfg p (System.step cfg s action) := by
  cases s with
  | idle w =>
    cases h
    have hstay : Leads cfg (.idle w) (.idle w) := ⟨_, .refl, .idle⟩
    cases action with
    | start messages context options expired =>
      exact beginRequest_leads fun request h => .start h
    | recover checkpoint messages resolutions metadata expired =>
      simp only [System.step]
      split
      · rename_i hdurable
        exact beginRequest_leads fun request h => .recover hdurable h
      · exact hstay
    | _ => exact hstay
  | live x =>
    have hlive : ∀ action, Leads cfg p (.live (stepLive cfg x action)) :=
      stepLive_leads h hreached
    cases action with
    | crash =>
      cases h with
      | ended => exact ⟨_, .single .exit, .idle⟩
      | _ => exact ⟨_, .single .crash, .idle⟩
    | _ => exact hlive _

theorem reached_of_reachable {s : System} (h : Reachable cfg s) :
    ∃ p, Reached cfg p ∧ Shows s p := by
  obtain ⟨actions, rfl⟩ := h
  have hrun : ∀ (actions : List Action) (s : System) (p : Point), Reached cfg p → Shows s p →
      ∃ p', Reached cfg p' ∧ Shows (System.run cfg s actions) p' := by
    intro actions
    induction actions with
    | nil => exact fun s p hreached hshows => ⟨p, hreached, hshows⟩
    | cons action rest ih =>
      intro s p hreached hshows
      have hleads : Leads cfg p (System.step cfg s action) := step_leads hshows hreached action
      obtain ⟨p', hsteps, hshows'⟩ := hleads
      exact ih _ p' (hreached.trans hsteps) hshows'
  exact hrun actions _ _ .refl .idle

theorem reachable_world {I : World → Prop} (hreached : ∀ p, Reached cfg p → I p.world)
    {s : System} (h : Reachable cfg s) : I s.world := by
  obtain ⟨p, hp, hshows⟩ := reached_of_reachable h
  have hworld : p.world = s.world := by
    cases hshows <;> rfl
  exact hworld ▸ hreached p hp

end Zhir.Kernel
