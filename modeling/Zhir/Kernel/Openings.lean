import Zhir.Kernel.Chronicle
import Zhir.Kernel.Budgets

/-!
Openings of the model's session. A session that holds state elsewhere is opened afresh at most
once in the life of a run, and only after the durable head says that it is being opened; any
later opening resumes it through a recovery reference.
-/

set_option autoImplicit false
set_option relaxedAutoImplicit false

namespace Zhir.Kernel

open Zhir.Core
open Zhir.Library (Program)
open Zhir.Library.Program

variable (cfg : Config)

/-- The session as recorded is a projection that lives in the kernel only. -/
def recordedLocal (c : Checkpoint) : Bool :=
  (c.active.session.capabilities.getD cfg.capabilities).supports .localProjection

/-- After these openings the checkpoint does not take the session for a new one. -/
def Aware (log : List (SessionOpen × List Checkpoint)) (c : Checkpoint) : Prop :=
  log = [] ∨ c.active.session.establishment ≠ .new ∨ recordedLocal cfg c = true

/-- An opening asks for what the newest durable checkpoint says. Unless it resumes the session
or the session is local, that checkpoint records the opening and there was none before. -/
def Announced (opening : SessionOpen) (durable : List Checkpoint)
    (before : List (SessionOpen × List Checkpoint)) : Prop :=
  ∃ e : Engine, durable.head? = some e.current ∧ opening = e.sessionOpen ∧
    (opening.recovery = none → recordedLocal cfg e.current = false →
      e.current.active.session.establishment = .opening ∧ before = [])

def AllAnnounced (log : List (SessionOpen × List Checkpoint)) : Prop :=
  ∀ newer opening durable older, log = newer ++ (opening, durable) :: older →
    Announced cfg opening durable older

structure Engine.Aware (log : List (SessionOpen × List Checkpoint)) (e : Engine) : Prop where
  opened : openings e.world.trace = log
  current : Kernel.Aware cfg log e.current
  head : ∀ c, e.world.head = some c → Kernel.Aware cfg log c

variable {cfg} {log : List (SessionOpen × List Checkpoint)} {e e' : Engine} {w w' : World}
  {cause : Cause}

theorem Aware.calm {c next : Checkpoint} (h : Aware cfg log c) (hcalm : Calm c next) :
    Aware cfg log next := by
  rcases hcalm.session with ⟨hsame, hkept⟩ | hopened
  · unfold Aware recordedLocal
    rw [hsame, hkept]
    exact h
  · exact .inr (.inl hopened)

theorem Aware.stamped {next : Checkpoint} (h : Aware cfg log next) (w : World)
    (current : Checkpoint) (fact : Fact) : Aware cfg log (stamp cfg w current next fact) := h

theorem Engine.Aware.counted (h : e.Aware cfg log) (hw : e.world.Counted w) :
    (e.inWorld w).Aware cfg log := by
  refine ⟨?_, h.current, fun c hc => h.head c ?_⟩
  · change openings w.trace = log
    rw [hw.trace]
    exact h.opened
  · rw [← hw.head]
    exact hc

private theorem aware_tame (cfg : Config) (log : List (SessionOpen × List Checkpoint)) :
    Tame cfg (Engine.Aware cfg log) (Aware cfg log) fun _ => True where
  current _ he := he.current
  fine _ _ _ _ := trivial
  aside e e' haside he := by
    refine ⟨haside.openings.trans he.opened, ?_, fun c hc => he.head c ?_⟩
    · rw [haside.current]
      exact he.current
    · rw [← haside.head]
      exact hc
  calm _ _ hcalm hc := hc.calm hcalm
  commit next fact delta hnext := by
    intro e he
    have hstamped := hnext.stamped e.world e.current fact
    have hhead : ∀ c, (e.saved cfg e.world next fact).world.head = some c → Aware cfg log c := by
      intro c hc
      cases hc
      exact hstamped
    rcases run_commit cfg e next fact delta with ⟨error, w, hw, hr⟩ | ⟨-, hr | hr⟩
    · rw [hr]
      exact he.counted hw
    · rw [hr]
      exact ⟨he.opened, hstamped, hhead⟩
    · rw [hr]
      exact ⟨he.opened, he.current, hhead⟩

def Opens.Ends (cfg : Config) (e : Engine) : Prop :=
  ∃ log, e.Aware cfg log ∧ AllAnnounced cfg log

theorem Moves.standing (h : Moves cfg cause e e') (hsound : e.Sound)
    (hchronicled : e.world.Chronicled cfg) : e'.Sound ∧ e'.world.Chronicled cfg := by
  induction h with
  | refl => exact ⟨hsound, hchronicled⟩
  | tail _ hmove ih =>
    obtain ⟨hsound, hchronicled⟩ := ih
    exact ⟨(Turn.move hmove).sound hsound, hchronicled.writes hsound.head hmove.writes⟩

theorem AllAnnounced.cons {opening : SessionOpen} {durable : List Checkpoint}
    (h : AllAnnounced cfg log) (hnow : Announced cfg opening durable log) :
    AllAnnounced cfg ((opening, durable) :: log) := by
  intro newer opening' durable' older hlog
  cases newer with
  | nil =>
    obtain ⟨hsame, rfl⟩ := List.cons.inj hlog
    cases hsame
    exact hnow
  | cons entry newer =>
    obtain ⟨-, hrest⟩ := List.cons.inj hlog
    exact h newer opening' durable' older hrest

private theorem opening_ends (haware : e.Aware cfg log) (hannounced : AllAnnounced cfg log)
    (hhead : e.world.head = some e.current) (hdurable : e.world.durable.head? = some e.current)
    (hknown : e.current.active.session.establishment ≠ .new ∨ recordedLocal cfg e.current = true)
    (hfresh : e.current.active.session.recovery = none → recordedLocal cfg e.current = false →
      e.current.active.session.establishment = .opening ∧ log = []) :
    Opens.Ends cfg (perform (.opening e.sessionOpen) e) := by
  refine ⟨(e.sessionOpen, e.world.durable) :: log, ⟨?_, .inr hknown, fun c hc => ?_⟩, ?_⟩
  · change (_, _) :: openings e.world.trace = _
    rw [haware.opened]
    rfl
  · have hc : e.world.head = some c := hc
    rw [hhead] at hc
    cases hc
    exact .inr hknown
  · exact hannounced.cons ⟨e, hdurable, rfl, hfresh⟩

private theorem unbound_localProjection (hunbound : e.sessionControl = none) :
    e.localProjection cfg = recordedLocal cfg e.current := by
  unfold Engine.localProjection Engine.supports Engine.capabilities recordedLocal
  rw [hunbound]

private theorem beginOpening_ends (haware : e.Aware cfg log) (hannounced : AllAnnounced cfg log)
    (hsound : e.Sound) (hchronicled : e.world.Chronicled cfg) (hunbound : e.sessionControl = none)
    (hfresh : e.current.active.session.recovery = none → recordedLocal cfg e.current = false →
      log = []) :
    Opens.Ends cfg (Program.run (beginOpening cfg) e).2 := by
  have hsame : Opens.Ends cfg e := ⟨log, haware, hannounced⟩
  have hlocal : e.localProjection cfg = recordedLocal cfg e.current :=
    unbound_localProjection hunbound
  unfold beginOpening
  rw [run_bind, run_read]
  simp only
  refine run_bind_end (fun error e₁ hrun => ?_) fun _ e₁ hrun => ?_
  · rw [run_require] at hrun
    obtain ⟨-, rfl⟩ := Prod.mk.inj hrun
    exact hsame
  rw [run_require] at hrun
  obtain ⟨-, rfl⟩ := Prod.mk.inj hrun
  refine run_bind_end (fun error e₁ hrun => ?_) fun _ e₁ hrun => ?_
  · rw [run_require] at hrun
    obtain ⟨-, rfl⟩ := Prod.mk.inj hrun
    exact hsame
  rw [run_require] at hrun
  obtain ⟨-, rfl⟩ := Prod.mk.inj hrun
  have hcommit : Always (Engine.Aware cfg log) (commitOpening cfg) := by
    refine always_read_bind fun e he => always_bind (aware_tame cfg log).newId fun _ => ?_
    refine (aware_tame cfg log).commit _ _ _ (.inr (.inl ?_))
    exact fun h => by cases h
  cases hremote : e.localProjection cfg with
  | true =>
    simp only [Program.when, Bool.true_eq_false, if_false]
    rw [hlocal] at hremote
    refine opening_ends haware hannounced hsound.head ?_ (.inr hremote) fun _ hfalse => ?_
    · exact hchronicled.head.symm.trans hsound.head
    · rw [hremote] at hfalse
      cases hfalse
  | false =>
    simp only [Program.when, if_true]
    refine run_bind_end (fun error e₁ hrun => ?_) fun _ e₁ hrun => ?_
    · have hkept := hcommit e haware
      rw [hrun] at hkept
      exact ⟨log, hkept, hannounced⟩
    · have hkept := hcommit e haware
      rw [hrun] at hkept
      obtain ⟨_, _, hread, hrun⟩ := run_bind_ok hrun
      cases hread
      obtain ⟨_, _, hnewId, hrun⟩ := run_bind_ok hrun
      cases hnewId
      obtain ⟨rfl, -⟩ := run_commit_ok hrun
      rw [hlocal] at hremote
      refine opening_ends hkept hannounced rfl rfl (.inl fun h => by cases h) fun hnone hfalse => ?_
      exact ⟨rfl, hfresh hnone hremote⟩

private theorem run_applyRecovery_ok {checkpoint : Checkpoint} {messages : List Message}
    {resolutions : List RecoveryResolution} {metadata : List (String × Value)} {u : Unit}
    (h : Program.run (applyRecovery cfg (.recover checkpoint messages resolutions metadata)) e =
      (.ok u, e')) (hactive : e'.current.state.active = true) :
    e'.current.active.session.recovery.isSome = true ∨ uncertainSession cfg e' = false := by
  obtain ⟨_, e₁, -, h⟩ := run_bind_ok h
  obtain ⟨_, e₂, -, h⟩ := run_bind_ok h
  obtain ⟨_, _, hread, h⟩ := run_bind_ok h
  cases hread
  have hsuspended : Program.run (suspend cfg .recovery) e₂ = (.ok u, e') → False := by
    intro hsuspend
    rw [run_suspend_ok hsuspend] at hactive
    cases hactive
  rw [run_ite] at h
  split at h
  · exact absurd h hsuspended
  · rw [run_ite] at h
    split at h
    · cases h
      exact .inl ‹_›
    · rw [run_ite] at h
      split at h
      · exact absurd h hsuspended
      · cases h
        exact .inr (Bool.eq_false_of_not_eq_true ‹_›)

def Request.isStart : Request → Bool
  | .start _ _ _ => true
  | .recover _ _ _ _ => false

private theorem fresh_of_certain {c : Checkpoint} (haware : Aware cfg log c)
    (hcurrent : e.current = c)
    (hunbound : e.sessionControl = none) (hcertain : uncertainSession cfg e = false)
    (hremote : recordedLocal cfg c = false) : log = [] := by
  subst hcurrent
  unfold uncertainSession at hcertain
  simp only [Bool.or_eq_false_iff, Bool.and_eq_false_iff] at hcertain
  have hnew := hcertain.2
  rw [unbound_localProjection hunbound, hremote] at hnew
  have hestablishment : e.current.active.session.establishment = .new := by
    simpa using hnew
  rcases haware with hnone | hopened | hlocal
  · exact hnone
  · exact absurd hestablishment hopened
  · rw [hremote] at hlocal
    cases hlocal

private theorem catalogOpened_ends {request : Request} (opened : Result Catalog)
    (haware : e.Aware cfg log) (hannounced : AllAnnounced cfg log) (hsound : e.Sound)
    (hchronicled : e.world.Chronicled cfg) (hunbound : e.sessionControl = none)
    (hstart : request.isStart = true → log = []) :
    Opens.Ends cfg (Program.run (catalogOpened cfg request opened) e).2 := by
  have tame := aware_tame cfg log
  have hcatalog : Always (Engine.Aware cfg log) (openCatalog opened) := by
    refine always_read_bind fun _ _ => always_lift_bind fun _ _ => always_lift_bind fun _ _ => ?_
    exact tame.memory fun _ => ⟨rfl, rfl, rfl, rfl⟩
  refine run_bind_end (fun error e₁ hrun => ?_) fun _ e₁ hrun₁ => ?_
  · have hkept := hcatalog e haware
    rw [hrun] at hkept
    exact ⟨log, hkept, hannounced⟩
  have haware₁ := hcatalog e haware
  rw [hrun₁] at haware₁
  have hunbound₁ := unbound_openCatalog opened e
  rw [hrun₁] at hunbound₁
  have hmoves₁ : Moves cfg (.recovery request.resolutions) e e₁ :=
    (steps_openCatalog (fault_failing cfg _) hunbound opened).of_ok hrun₁
  obtain ⟨hsound₁, hchronicled₁⟩ := hmoves₁.standing hsound hchronicled
  refine run_bind_end (fun error e₂ hrun => ?_) fun _ e₂ hrun₂ => ?_
  · have hkept := tame.applyRecovery request e₁ haware₁
    rw [hrun] at hkept
    exact ⟨log, hkept, hannounced⟩
  have haware₂ := tame.applyRecovery request e₁ haware₁
  rw [hrun₂] at haware₂
  have hunbound₂ := unbound_applyRecovery cfg request e₁
  rw [hrun₂] at hunbound₂
  have hunbound₂ : e₂.sessionControl = none := hunbound₂.trans (hunbound₁.trans hunbound)
  have hmoves₂ : Moves cfg (.recovery request.resolutions) e₁ e₂ :=
    (steps_applyRecovery (fault_failing cfg _) rfl).of_ok hrun₂
  obtain ⟨hsound₂, hchronicled₂⟩ := hmoves₂.standing hsound₁ hchronicled₁
  rw [run_bind, run_read]
  simp only [run_ite]
  split
  · rename_i hactive
    have hfresh : e₂.current.active.session.recovery = none →
        recordedLocal cfg e₂.current = false → log = [] := by
      intro hnone hremote
      cases request with
      | start history context options => exact hstart rfl
      | recover checkpoint messages resolutions metadata =>
        rcases run_applyRecovery_ok hrun₂ hactive with hsome | hcertain
        · rw [hnone] at hsome
          cases hsome
        · exact fresh_of_certain haware₂.current rfl hunbound₂ hcertain hremote
    have hends := beginOpening_ends haware₂ hannounced hsound₂ hchronicled₂ hunbound₂ hfresh
    refine run_bind_end (fun error e₃ hrun => ?_) fun _ e₃ hrun => ?_
    · rw [hrun] at hends
      exact hends
    · rw [hrun] at hends
      exact hends
  · exact ⟨log, haware₂, hannounced⟩

variable (cfg) in
/-- Whatever was opened was announced, and the run is aware of it. -/
def System.Opens : System → Prop
  | .idle w => AllAnnounced cfg (openings w.trace) ∧
      ∀ c, w.head = some c → Aware cfg (openings w.trace) c
  | .live x => AllAnnounced cfg (openings x.engine.world.trace) ∧
      x.engine.Aware cfg (openings x.engine.world.trace) ∧
      ∀ request, x.stage = .catalog request → request.isStart = true →
        openings x.engine.world.trace = []

private theorem opens_react_ends {x : Execution} {handler : Handler Stage}
    (hends : Opens.Ends cfg (Program.run handler x.engine).2)
    (hstage : ∀ stage e, Program.run handler x.engine = (.ok stage, e) →
      ∀ request, stage = .catalog request → request.isStart = true → openings e.world.trace = []) :
    System.Opens cfg (.live (react cfg x handler)) := by
  obtain ⟨log, haware, hannounced⟩ := hends
  unfold react
  rcases hrun : Program.run handler x.engine with ⟨error | stage, e⟩
  all_goals rw [hrun] at haware
  · have hsettle : Always (Engine.Aware cfg log) (settle cfg error) := by
      refine always_ite (always_pure ()) (always_read_bind fun e he => ?_)
      exact (aware_tame cfg log).save he (.same (by rfl)) _ _
    have hsettled := hsettle e haware
    refine ⟨?_, ?_, fun request h => by cases h⟩
    · change AllAnnounced cfg (openings (Program.run (settle cfg error) e).2.world.trace)
      rw [hsettled.opened]
      exact hannounced
    · change (Program.run (settle cfg error) e).2.Aware cfg (openings
        (Program.run (settle cfg error) e).2.world.trace)
      rw [hsettled.opened]
      exact hsettled
  · have haware : e.Aware cfg log := haware
    refine ⟨?_, ?_, fun request h hstart => ?_⟩
    · change AllAnnounced cfg (openings e.world.trace)
      rw [haware.opened]
      exact hannounced
    · change e.Aware cfg (openings e.world.trace)
      rw [haware.opened]
      exact haware
    · refine hstage stage e hrun request ?_ hstart
      by_cases hactive : e.current.state.active = true
      · simpa only [hactive, if_true] using h
      · simp only [hactive] at h
        cases h

private theorem opens_react {x : Execution} {handler : Handler Stage}
    (hhandler : ∀ log, Always (Engine.Aware cfg log) handler) (hx : System.Opens cfg (.live x))
    (hstage : ∀ stage e, Program.run handler x.engine = (.ok stage, e) →
      ∀ request, stage = .catalog request → x.stage = .catalog request) :
    System.Opens cfg (.live (react cfg x handler)) := by
  obtain ⟨hannounced, haware, hcatalog⟩ := hx
  have hafter := hhandler _ x.engine haware
  refine opens_react_ends ⟨_, hafter, hannounced⟩ fun stage e hrun request hsame hstart => ?_
  rw [hrun] at hafter
  exact hafter.opened.trans (hcatalog request (hstage stage e hrun request hsame) hstart)

private theorem not_catalog_of_loop {stage : Stage} (h : stage.isLoop = true) (request : Request) :
    stage ≠ .catalog request := by
  rintro rfl
  cases h

private theorem openings_append {effects trace : List Effect}
    (h : ∀ x ∈ effects, ∀ session, x ≠ .opening session) :
    openings (effects ++ trace) = openings trace := by
  induction effects with
  | nil => rfl
  | cons x rest ih =>
    obtain ⟨hx, hrest⟩ := List.forall_mem_cons.mp h
    cases x with
    | opening session => exact absurd rfl (hx session)
    | _ => exact ih hrest

private theorem taskStep_opens {task : Task} {event : TaskEvent} {step : TaskStep}
    (h : taskStep cfg task event = some step) :
    ∀ x ∈ step.effects, ∀ session, x ≠ .opening session := by
  unfold taskStep at h
  split at h <;> try split at h
  all_goals cases h
  all_goals simp

private theorem runTask_openings (cfg : Config) (index : Nat) (event : TaskEvent) (e : Engine) :
    openings (e.runTask cfg index event).world.trace = openings e.world.trace := by
  rcases Engine.runTask_cases cfg index event e with hsame | ⟨_, step, -, hstep, hstepped⟩
  · rw [hsame]
  · rw [hstepped]
    exact openings_append (taskStep_opens hstep)

private theorem durable_of_announced {trace : List Effect} (h : AllAnnounced cfg (openings trace))
    (hsome : openings trace ≠ []) : ({ World.start with trace } : World).durable ≠ [] := by
  induction trace with
  | nil => exact absurd rfl hsome
  | cons x rest ih =>
    cases x with
    | opening session =>
      obtain ⟨e, hhead, -⟩ := h [] session _ _ rfl
      intro hnone
      have hnone : ({ World.start with trace := rest } : World).durable = [] := hnone
      rw [hnone] at hhead
      cases hhead
    | committed c => exact fun hnone => by cases hnone
    | _ => exact ih h hsome

private theorem Opens.aware {request : Request} {expired : Bool} {first : Checkpoint}
    (h : Opens cfg w request expired first) (hreached : Reached cfg (.idle w))
    (hw : System.Opens cfg (.idle w)) : Aware cfg (openings w.trace) first ∧
      (request.isStart = true → openings w.trace = []) := by
  obtain ⟨hannounced, haware⟩ := hw
  cases request with
  | start history context options =>
    have hparent := (Commit.checked_of_ok h.accepts).parent
    have hroot : first.parentId = none := by
      rw [h.checkpoint]
      cases expired <;> rfl
    change w.head.map Checkpoint.id = first.parentId at hparent
    rw [hroot, Option.map_eq_none_iff] at hparent
    have hnone : openings w.trace = [] := by
      by_contra hsome
      have hdurable : w.durable ≠ [] := durable_of_announced hannounced hsome
      have hempty := hreached.chronicled.head.symm.trans hparent
      exact hdurable (List.head?_eq_none_iff.mp hempty)
    exact ⟨.inl hnone, fun _ => hnone⟩
  | recover base messages resolutions metadata =>
    obtain ⟨order, hsubmitted⟩ := hreached.delivers
    have hbase := haware base (hsubmitted.resumes h)
    refine ⟨?_, fun hstart => by cases hstart⟩
    rw [h.checkpoint]
    cases expired <;> exact hbase

private theorem opens_begin {request : Request} (expired : Bool) (hreached : Reached cfg (.idle w))
    (hrequested : Requested w request) (hw : System.Opens cfg (.idle w)) :
    System.Opens cfg (begin cfg w request expired) := by
  let opening := initial (cfg.checkpointName w.checkpoints) (cfg.name w.names) request
  let first := expire expired opening.1
  let counted : World := { w with checkpoints := w.checkpoints + 1, names := w.names + 1 }
  have hopening : initial (cfg.checkpointName w.checkpoints) (cfg.name w.names) request =
      (opening.1, opening.2) := rfl
  unfold begin
  rw [hopening]
  dsimp only [persist]
  rcases haccepts : (Commit.mk first opening.2).validateAgainst counted.head with error | _
  · cases cfg.verdict counted.clock <;> exact hw
  · have hopens : Opens cfg w request expired first := ⟨hrequested, rfl, haccepts⟩
    obtain ⟨haware, hstart⟩ := hopens.aware hreached hw
    have hhead : ∀ c, some first = some c → Aware cfg (openings w.trace) c := by
      intro c hc
      cases hc
      exact haware
    cases cfg.verdict counted.clock with
    | refused error => exact hw
    | unconfirmed => exact ⟨hw.1, hhead⟩
    | accepted =>
      have hbooted : (Engine.boot (w.opened first) first).Aware cfg (openings w.trace) :=
        ⟨rfl, haware, hhead⟩
      simp only
      split
      · exact ⟨hw.1, hbooted, fun request h => by cases h⟩
      · refine opens_react (fun log => ?_) ⟨hw.1, hbooted, fun request' h hstart' => ?_⟩ ?_
        · exact always_bind (aware_tame cfg log).check fun _ => always_pure _
        · cases h
          exact hstart hstart'
        · intro stage e hrun request' hsame
          obtain ⟨_, _, -, hrun⟩ := run_bind_ok hrun
          cases hrun
          exact hsame

private theorem opens_catalogOpened {request : Request} (opened : Result Catalog)
    (hreached : Reached cfg (.live request.resolutions e)) (hunbound : e.Unbound)
    (hx : System.Opens cfg (.live ⟨e, .catalog request⟩)) :
    System.Opens cfg
      (.live (react cfg ⟨e, .catalog request⟩ (catalogOpened cfg request opened))) := by
  obtain ⟨hannounced, haware, hcatalog⟩ := hx
  have hends := catalogOpened_ends opened haware hannounced hreached.sound hreached.chronicled
    hunbound.control (hcatalog request rfl)
  refine opens_react_ends hends fun stage e' hrun request' hsame _ => ?_
  subst hsame
  obtain ⟨session, hsession⟩ := run_catalogOpened_ok hrun fun h => by cases h
  cases hsession

private theorem aware_reduction (cfg : Config) (log : List (SessionOpen × List Checkpoint)) :
    Always (Engine.Aware cfg log) (reduction cfg) := by
  intro e he
  obtain ⟨w, hw, hstate⟩ := reduction_state cfg e
  rw [hstate]
  exact he.counted hw

private theorem aware_generate (cfg : Config) (log : List (SessionOpen × List Checkpoint)) :
    Always (Engine.Aware cfg log) (generate cfg) := by
  have tame := aware_tame cfg log
  have hrewrite : ∀ rewrite, Always (Engine.Aware cfg log) (rewriteHistory cfg rewrite) := by
    intro rewrite
    refine always_read_bind fun e he => always_bind tame.newId fun _ => ?_
    refine always_lift_bind fun next hstage => ?_
    obtain ⟨history, -, runStart, rfl⟩ := stageRewrite_ok hstage
    exact tame.save he (.same (by rfl)) _ _
  have hrequest : Always (Engine.Aware cfg log) (requestGeneration cfg) := by
    refine always_bind tame.newId fun generationId => always_bind tame.newId fun commandId => ?_
    refine always_read_bind fun e he => tame.commit _ _ _ ?_
    have haware : Aware cfg log e.current := he.current
    exact haware
  refine always_read_bind fun _ _ => always_ite (tame.limitRun _) ?_
  refine always_bind (aware_reduction cfg log) fun rewrite => ?_
  cases rewrite with
  | some rewrite => exact hrewrite rewrite
  | none => exact hrequest

private theorem aware_tasks {f : Engine → Engine}
    (hf : ∀ e, (f e).current = e.current ∧ (f e).world = e.world) :
    Always (Engine.Aware cfg log) (Program.modify f : Handler Unit) := by
  refine always_modify fun e he => ?_
  obtain ⟨hcurrent, hworld⟩ := hf e
  refine ⟨?_, ?_, ?_⟩
  · rw [hworld]
    exact he.opened
  · rw [hcurrent]
    exact he.current
  · rw [hworld]
    exact he.head

private theorem aware_admitQueued (cfg : Config) (log : List (SessionOpen × List Checkpoint)) :
    Always (Engine.Aware cfg log) (admitQueued cfg) :=
  (aware_tame cfg log).admitQueued
    ((aware_tame cfg log).admitCalls fun _ => aware_tasks fun _ => ⟨rfl, rfl⟩)

private theorem aware_admitted (cfg : Config) (log : List (SessionOpen × List Checkpoint))
    (bindings : List Binding) (decisions : Result (List ApprovalDecision)) :
    Always (Engine.Aware cfg log) (admitted cfg bindings decisions) := by
  have tame := aware_tame cfg log
  have hstart : ∀ binding op, Always (Engine.Aware cfg log) (startAdmitted cfg binding op) := by
    intro binding op
    refine always_read_bind fun e he => always_bind (tame.commit _ _ _ ?_) fun _ => ?_
    · have haware : Aware cfg log e.current := he.current
      exact haware
    · exact always_bind tame.check fun _ => aware_tasks fun _ => ⟨rfl, rfl⟩
  have happly : ∀ decisions, Always (Engine.Aware cfg log) (applyDecisions cfg decisions) := by
    intro decisions
    induction decisions with
    | nil => exact always_pure ()
    | cons first rest ih =>
      obtain ⟨binding, decision⟩ := first
      refine always_read_bind fun e _ => ?_
      split
      · exact ih
      · cases decision with
        | deny reason => exact always_bind (tame.finish _ _) fun _ => ih
        | suspend suspension => exact ih
        | allow =>
          refine always_bind tame.check fun _ => always_ite (tame.limitRun _) ?_
          exact always_bind (hstart _ _) fun _ => ih
  refine always_lift_bind fun _ _ => always_bind (always_require _ _) fun _ => ?_
  refine always_bind (tame.memory fun _ => ⟨rfl, rfl, rfl, rfl⟩)
    fun _ => always_read_bind fun e he => ?_
  split
  · exact tame.save he (.same (by rfl)) _ _
  · exact happly _

private theorem opens_stepLive {x : Execution} {p : Point} (hshows : Shows (.live x) p)
    (hreached : Reached cfg p) (hx : System.Opens cfg (.live x)) (action : Action) :
    System.Opens cfg (.live (stepLive cfg x action)) := by
  have tame := aware_tame cfg
  have hloop : ∀ {handler : Handler Stage}, (∀ log, Always (Engine.Aware cfg log) handler) →
      (∀ stage e, Program.run handler x.engine = (.ok stage, e) → stage.isLoop = true) →
        System.Opens cfg (.live (react cfg x handler)) := fun hhandler hstage =>
    opens_react hhandler hx fun stage e hrun request hsame =>
      absurd hsame (not_catalog_of_loop (hstage stage e hrun) request)
  have hcontrol : ∀ body,
      System.Opens cfg (.live (react cfg x (receiveControl cfg body x.stage))) := by
    intro body
    refine opens_react (fun log => (tame log).receiveControl _ _) hx ?_
    rintro stage e hrun request rfl
    rcases run_receiveControl_ok hrun with hstage | ⟨-, hstage⟩
    · exact hstage.symm
    · cases hstage
  have hwake : ∀ stage, x.stage = stage →
      System.Opens cfg (.live (react cfg x (do check cfg; return stage))) := by
    intro stage hstage
    refine opens_react (fun log => always_bind (tame log).check fun _ => always_pure _) hx ?_
    intro stage' e hrun request hsame
    obtain ⟨_, _, -, hrun⟩ := run_bind_ok hrun
    cases hrun
    exact hstage.trans hsame
  cases action with
  | catalog opened =>
    simp only [stepLive]
    split
    · rename_i request hstage
      obtain ⟨e, stage⟩ := x
      subst hstage
      cases hshows with
      | catalog hunbound _ => exact opens_catalogOpened opened hreached hunbound hx
    · exact hx
  | opened result =>
    simp only [stepLive]
    split
    · refine opens_react (fun log => (tame log).sessionOpened _ _) hx ?_
      rintro stage e hrun request rfl
      obtain ⟨hstage, -⟩ := run_sessionOpened_ok hrun fun h => by cases h
      cases hstage
    · exact hx
  | control body =>
    simp only [stepLive]
    split
    · exact hcontrol body
    · exact hcontrol body
    · exact hcontrol body
    · exact hx
  | pass =>
    simp only [stepLive]
    split
    · refine hloop (fun log => ?_) fun stage e hrun => run_loopPass_ok hrun
      exact (tame log).loopPass (aware_generate cfg log) (aware_admitQueued cfg log)
    · exact hx
  | work =>
    simp only [stepLive]
    split
    · rename_i hstage
      have hlooping : x.engine.Looping := by
        cases hshows with
        | receive hlooping _ => exact hlooping
        | _ => cases hstage
      refine hloop (fun log => ?_) fun stage e hrun => (run_receiveWork_ok hlooping hrun).1
      exact (tame log).receiveWork fun bindings decisions _ => aware_admitted cfg log _ _
    · exact hx
  | packet =>
    simp only [stepLive]
    split
    · refine hloop (fun log => (tame log).receivePacket) ?_
      exact fun stage e hrun => run_receivePacket_ok hrun
    · exact hx
  | wake =>
    simp only [stepLive]
    split
    · rename_i request hstage
      rw [hstage]
      exact hwake _ hstage
    · rename_i session hstage
      rw [hstage]
      exact hwake _ hstage
    · exact ⟨hx.1, hx.2.1, fun request h => by cases h⟩
    · exact hx
  | media chunk =>
    simp only [stepLive]
    split
    · exact hx
    · obtain ⟨hannounced, haware, hcatalog⟩ := hx
      exact ⟨hannounced, ⟨haware.opened, haware.current, haware.head⟩, hcatalog⟩
  | task index event =>
    obtain ⟨hannounced, haware, hcatalog⟩ := hx
    have hsame := runTask_openings cfg index event x.engine
    obtain ⟨hcurrent, -, -⟩ := Engine.runTask_keeps cfg index event x.engine
    obtain ⟨-, hhead⟩ := Engine.runTask_durable cfg index event x.engine
    simp only [stepLive, System.Opens]
    rw [hsame]
    refine ⟨hannounced, ⟨hsame.trans haware.opened, ?_, fun c hc => ?_⟩, hcatalog⟩
    · rw [hcurrent]
      exact haware.current
    · rw [hhead] at hc
      exact haware.head c hc
  | _ => exact hx

private theorem opens_beginRequest {request : Result Request} (expired : Bool)
    (hreached : Reached cfg (.idle w)) (hrequested : ∀ r, request = .ok r → Requested w r)
    (hw : System.Opens cfg (.idle w)) : System.Opens cfg (beginRequest cfg w request expired) := by
  cases request with
  | ok request => exact opens_begin expired hreached (hrequested request rfl) hw
  | error error => exact hw

private theorem opens_step {s : System} {p : Point} (hshows : Shows s p) (hreached : Reached cfg p)
    (hs : System.Opens cfg s) (action : Action) : System.Opens cfg (System.step cfg s action) := by
  cases s with
  | idle w =>
    cases hshows
    cases action with
    | start messages context options expired =>
      exact opens_beginRequest expired hreached (fun _ h => .start h) hs
    | recover checkpoint messages resolutions metadata expired =>
      simp only [System.step]
      split
      · rename_i hdurable
        exact opens_beginRequest expired hreached (fun _ h => .recover hdurable h) hs
      · exact hs
    | _ => exact hs
  | live x =>
    cases action with
    | crash =>
      obtain ⟨hannounced, haware, -⟩ := hs
      exact ⟨hannounced, haware.head⟩
    | _ => exact opens_stepLive hshows hreached hs _

private theorem reachable_announced {s : System} (hs : Reachable cfg s) :
    AllAnnounced cfg (openings s.world.trace) := by
  obtain ⟨actions, rfl⟩ := hs
  have hrun : ∀ (actions : List Action) (s : System), Reachable cfg s → System.Opens cfg s →
      System.Opens cfg (System.run cfg s actions) := by
    intro actions
    induction actions with
    | nil => exact fun s _ hs => hs
    | cons action rest ih =>
      intro s hreachable hs
      obtain ⟨p, hreached, hshows⟩ := reached_of_reachable hreachable
      obtain ⟨before, rfl⟩ := hreachable
      refine ih _ ⟨before ++ [action], ?_⟩ (opens_step hshows hreached hs action)
      unfold System.run
      rw [List.foldl_append]
      rfl
  have hstart : System.Opens cfg (.idle .start) := by
    refine ⟨fun newer opening durable older h => ?_, fun c h => by cases h⟩
    cases newer <;> cases h
  have hopens := hrun actions (.idle .start) ⟨[], rfl⟩ hstart
  generalize System.run cfg (.idle .start) actions = s at hopens
  cases s with
  | idle w => exact hopens.1
  | live x => exact hopens.1

private theorem openings_split (newer : List Effect) (session : SessionOpen) (older : List Effect) :
    ∃ later, openings (newer ++ .opening session :: older) =
      later ++ (session, ({ World.start with trace := older } : World).durable) ::
        openings older := by
  induction newer with
  | nil => exact ⟨[], rfl⟩
  | cons x newer ih =>
    obtain ⟨later, hlater⟩ := ih
    cases x with
    | opening other =>
      refine ⟨(other, ({ World.start with
        trace := newer ++ .opening session :: older } : World).durable) :: later, ?_⟩
      change _ :: openings (newer ++ .opening session :: older) = _
      rw [hlater]
      rfl
    | _ => exact ⟨later, hlater⟩

private theorem mem_openings {trace : List Effect} {session : SessionOpen}
    (h : Effect.opening session ∈ trace) : openings trace ≠ [] := by
  obtain ⟨newer, older, rfl⟩ := List.append_of_mem h
  obtain ⟨later, hlater⟩ := openings_split newer session older
  rw [hlater]
  simp

/-- Every opening of the model's session, in whatever execution of the run, asks for what the
newest checkpoint that was durable by then records. One that does not resume the session through
a recovery reference is, unless the session lives in the kernel only, recorded as being opened
in that checkpoint, and no session of the run was opened before it. -/
theorem sessions_opened_once {s : System} (hs : Reachable cfg s) {newer older : List Effect}
    {session : SessionOpen} (htrace : s.world.trace = newer ++ .opening session :: older) :
    ∃ e : Engine, ({ World.start with trace := older } : World).durable.head? = some e.current ∧
      session = e.sessionOpen ∧
      (session.recovery = none → recordedLocal cfg e.current = false →
        e.current.active.session.establishment = .opening ∧
          ∀ other, Effect.opening other ∉ older) := by
  obtain ⟨later, hlater⟩ := openings_split newer session older
  have hannounced := reachable_announced hs
  rw [htrace] at hannounced
  obtain ⟨e, hhead, hsession, hfresh⟩ := hannounced later session _ _ hlater
  refine ⟨e, hhead, hsession, fun hnone hremote => ?_⟩
  obtain ⟨hopening, hfirst⟩ := hfresh hnone hremote
  exact ⟨hopening, fun other hother => mem_openings hother hfirst⟩

private theorem exists_opening {trace : List Effect} (h : (openings trace).isEmpty = false) :
    ∃ newer session older, trace = newer ++ .opening session :: older := by
  induction trace with
  | nil => cases h
  | cons x trace ih =>
    cases x with
    | opening session => exact ⟨[], session, trace, rfl⟩
    | _ =>
      obtain ⟨newer, session, older, rfl⟩ := ih h
      exact ⟨_ :: newer, session, older, rfl⟩

def sampleOpenedTrace : List Effect :=
  (sampleRun (sampleOpening (sampleOptions sampleLimits))).world.trace

theorem sessions_opened_once_sample :
    ∃ newer session older, sampleOpenedTrace = newer ++ .opening session :: older ∧
      ∃ e : Engine, ({ World.start with trace := older } : World).durable.head? = some e.current ∧
        session = e.sessionOpen ∧
        (session.recovery = none → recordedLocal sampleConfig e.current = false →
          e.current.active.session.establishment = .opening ∧
            ∀ other, Effect.opening other ∉ older) := by
  obtain ⟨newer, session, older, htrace⟩ := @exists_opening sampleOpenedTrace (by decide +kernel)
  exact ⟨newer, session, older, htrace, sessions_opened_once ⟨_, rfl⟩ htrace⟩

end Zhir.Kernel
