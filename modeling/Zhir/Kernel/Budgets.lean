import Zhir.Kernel.Chronicle
import Zhir.Kernel.CommandRecords
import Zhir.Kernel.Handlers
import Zhir.Kernel.Starts

/-!
The budgets of a run. No durable checkpoint has spent more generation requests or tool calls
than the limits allow, and nothing reaches the outside that has not been paid for.
-/

set_option autoImplicit false
set_option relaxedAutoImplicit false

namespace Zhir.Kernel

open Zhir.Core
open Zhir.Library (Program)
open Zhir.Library.Program

variable {cfg : Config} {e e' : Engine} {cause : Cause} {w w' : World}

/-- What has been spent is within the limits of the run. -/
structure InBudget (c : Checkpoint) : Prop where
  requests : c.metrics.generationRequests ≤ c.options.limits.maxGenerationRequests
  calls : c.metrics.runtimeToolCalls ≤ c.options.limits.maxRuntimeToolCalls

structure Engine.Budgeted (e : Engine) : Prop where
  current : InBudget e.current
  durable : ∀ c ∈ e.world.durable, InBudget c

theorem InBudget.calm {c next : Checkpoint} (h : InBudget c) (hcalm : Calm c next) :
    InBudget next := by
  refine ⟨?_, ?_⟩
  · rw [hcalm.requests, hcalm.options]
    exact h.requests
  · rw [hcalm.calls, hcalm.options]
    exact h.calls

theorem Engine.Budgeted.aside {Fine : Work → Prop} (h : e.Budgeted) (haside : Aside Fine e e') :
    e'.Budgeted := by
  refine ⟨?_, ?_⟩
  · rw [haside.current]
    exact h.current
  · rw [haside.durable]
    exact h.durable

theorem Engine.Budgeted.counted (h : e.Budgeted) (hw : e.world.Counted w) :
    (e.inWorld w).Budgeted := by
  refine ⟨h.current, ?_⟩
  change ∀ c ∈ w.durable, InBudget c
  rw [hw.durable]
  exact h.durable

private theorem budgeted_tame (cfg : Config) : Tame cfg Engine.Budgeted InBudget fun _ => True where
  current _ he := he.current
  fine _ _ _ _ := trivial
  aside _ _ haside he := he.aside haside
  calm _ _ hcalm hc := hc.calm hcalm
  commit next fact delta hnext := by
    intro e he
    have hstamp : InBudget (stamp cfg e.world e.current next fact) := ⟨hnext.requests, hnext.calls⟩
    have hdurable : ∀ c ∈ (e.saved cfg e.world next fact).world.durable, InBudget c := by
      rw [saved_durable (.refl _)]
      exact List.forall_mem_cons.mpr ⟨hstamp, he.durable⟩
    rcases run_commit cfg e next fact delta with ⟨error, w, hw, hr⟩ | ⟨-, hr | hr⟩
    · rw [hr]
      exact he.counted hw
    · rw [hr]
      exact ⟨hstamp, hdurable⟩
    · rw [hr]
      exact ⟨he.current, hdurable⟩

theorem reduction_state (cfg : Config) (e : Engine) :
    ∃ w, e.world.Counted w ∧ (Program.run (reduction cfg) e).2 = e.inWorld w := by
  have hquiet : ∀ r : Result (Option HistoryRewrite),
      (r, e) = Program.run (reduction cfg) e →
        ∃ w, e.world.Counted w ∧ (Program.run (reduction cfg) e).2 = e.inWorld w :=
    fun r hr => ⟨e.world, .refl _, by rw [← hr]; rfl⟩
  cases hreducer : cfg.historyReducer with
  | none =>
    refine hquiet (.ok none) ?_
    unfold reduction
    rw [run_bind, run_read]
    simp only [hreducer, run_pure]
  | some reduce =>
    by_cases hreducible : reducible e.current = true
    · refine ⟨e.world.tick, World.Counted.tick (.refl _), ?_⟩
      unfold reduction
      rw [run_bind, run_read]
      simp only [hreducer, hreducible, if_true]
      rfl
    · refine hquiet (.ok none) ?_
      unfold reduction
      rw [run_bind, run_read]
      simp only [hreducer, hreducible]
      rfl

private theorem budgeted_rewriteHistory (rewrite : HistoryRewrite) :
    Always Engine.Budgeted (rewriteHistory cfg rewrite) := by
  refine always_read_bind fun e he => always_bind (budgeted_tame cfg).newId fun _ => ?_
  refine always_lift_bind fun next hstage => ?_
  obtain ⟨history, -, runStart, rfl⟩ := stageRewrite_ok hstage
  exact (budgeted_tame cfg).save he (.same (by rfl)) _ _

private theorem budgeted_requestGeneration (he : e.Budgeted)
    (hroom : e.current.metrics.generationRequests <
      e.current.options.limits.maxGenerationRequests) :
    (Program.run (requestGeneration cfg) e).2.Budgeted := by
  let named : Engine := { e with world.names := e.world.names + 1 + 1 }
  have hnamed : named.Budgeted := ⟨he.current, he.durable⟩
  have hgood : InBudget (stageGenerate (cfg.name e.world.names) (cfg.name (e.world.names + 1))
      (named.localProjection cfg) named.current) := ⟨hroom, he.current.calls⟩
  exact (budgeted_tame cfg).commit _ _ _ hgood named hnamed

private theorem budgeted_generate : Always Engine.Budgeted (generate cfg) := by
  intro e he
  unfold generate
  rw [run_bind, run_read]
  simp only [run_ite]
  split
  · exact (budgeted_tame cfg).limitRun _ e he
  · rename_i hroom
    obtain ⟨w, hw, hstate⟩ := reduction_state cfg e
    rw [run_bind]
    rcases hrun : Program.run (reduction cfg) e with ⟨error | rewrite, e₁⟩
    all_goals
      rw [hrun] at hstate
      change e₁ = e.inWorld w at hstate
      subst hstate
    · exact he.counted hw
    · cases rewrite with
      | some rewrite => exact budgeted_rewriteHistory rewrite _ (he.counted hw)
      | none => exact budgeted_requestGeneration (he.counted hw) (Nat.lt_of_not_le hroom)

private theorem budgeted_tasks {f : Engine → Engine}
    (hf : ∀ e, (f e).current = e.current ∧ (f e).world = e.world) :
    Always Engine.Budgeted (Program.modify f : Handler Unit) := by
  refine always_modify fun e he => ?_
  obtain ⟨hcurrent, hworld⟩ := hf e
  refine ⟨?_, ?_⟩
  · rw [hcurrent]
    exact he.current
  · rw [hworld]
    exact he.durable

private theorem budgeted_admitQueued : Always Engine.Budgeted (admitQueued cfg) :=
  (budgeted_tame cfg).admitQueued
    ((budgeted_tame cfg).admitCalls fun _ => budgeted_tasks fun _ => ⟨rfl, rfl⟩)

private theorem budgeted_startAdmitted (binding : Binding) (op : OperationRecord) (he : e.Budgeted)
    (hroom : e.current.metrics.runtimeToolCalls < e.current.options.limits.maxRuntimeToolCalls) :
    (Program.run (startAdmitted cfg binding op) e).2.Budgeted := by
  have hgood : InBudget (stageAdmitted binding.id op e.current) := ⟨he.current.requests, hroom⟩
  have hrest : ∀ e₁ : Engine, e₁.Budgeted →
      (Program.run (spawnTool cfg binding.id (.start binding.id binding.call false))
        e₁).2.Budgeted :=
    always_bind (budgeted_tame cfg).check fun _ => budgeted_tasks fun _ => ⟨rfl, rfl⟩
  unfold startAdmitted
  rw [run_bind, run_read]
  have hcommit :=
    (budgeted_tame cfg).commit _ (.operation binding.id .running) .unchanged hgood e he
  simp only [run_bind]
  generalize Program.run (commit cfg (stageAdmitted binding.id op e.current)
    (.operation binding.id .running) .unchanged) e = r at hcommit
  rcases r with ⟨error | _, e₁⟩
  · exact hcommit
  · exact hrest e₁ hcommit

private theorem check_state (cfg : Config) (e : Engine) :
    (Program.run (check cfg) e).2 = e.tick := by
  simp only [Program.run, check]
  split <;> rfl

private theorem budgeted_applyDecisions (decisions : List (Binding × ApprovalDecision)) :
    Always Engine.Budgeted (applyDecisions cfg decisions) := by
  induction decisions with
  | nil => exact always_pure ()
  | cons first rest ih =>
    obtain ⟨binding, decision⟩ := first
    intro e he
    unfold applyDecisions
    rw [run_bind, run_read]
    simp only
    split
    · exact ih e he
    · rename_i op _
      cases decision with
      | deny reason => exact always_bind ((budgeted_tame cfg).finish _ _) (fun _ => ih) e he
      | suspend suspension => exact ih e he
      | allow =>
        have hchecked := check_state cfg e
        simp only [run_bind]
        generalize Program.run (check cfg) e = r at hchecked
        rcases r with ⟨error | _, e₁⟩
        all_goals
          change e₁ = e.tick at hchecked
          subst hchecked
        · exact he.counted (World.Counted.tick (.refl _))
        · have hticked : e.tick.Budgeted := he.counted (World.Counted.tick (.refl _))
          simp only [run_ite]
          split
          · exact (budgeted_tame cfg).limitRun _ _ hticked
          · rename_i hroom
            have hstarted : (Program.run (startAdmitted cfg binding op) e.tick).2.Budgeted :=
              budgeted_startAdmitted binding op hticked (Nat.lt_of_not_le hroom)
            simp only [run_bind]
            generalize Program.run (startAdmitted cfg binding op) e.tick = r at hstarted
            rcases r with ⟨error | _, e₁⟩
            · exact hstarted
            · exact ih e₁ hstarted

private theorem budgeted_admitted (bindings : List Binding)
    (decisions : Result (List ApprovalDecision)) :
    Always Engine.Budgeted (admitted cfg bindings decisions) := by
  refine always_lift_bind fun _ _ => always_bind (always_require _ _) fun _ => ?_
  refine always_bind ((budgeted_tame cfg).memory fun _ => ⟨rfl, rfl, rfl, rfl⟩) fun _ => ?_
  refine always_read_bind fun e he => ?_
  split
  · exact (budgeted_tame cfg).save he (.same (by rfl)) _ _
  · exact budgeted_applyDecisions _

private theorem budgeted_beginOpening : Always Engine.Budgeted (beginOpening cfg) := by
  refine always_read_bind fun _ _ => always_bind (always_require _ _) fun _ => ?_
  refine always_bind (always_require _ _) fun _ => ?_
  refine always_bind (always_when (always_read_bind fun e he => ?_)) fun _ => ?_
  · refine always_bind (budgeted_tame cfg).newId fun _ => ?_
    exact (budgeted_tame cfg).save he ⟨by rfl, by rfl, by rfl, .inr fun h => by cases h⟩ _ _
  · refine always_read_bind fun e he => always_bind (always_modify fun e he => ?_) fun _ => ?_
    · exact ⟨he.current, he.durable⟩
    · exact always_pure _

def System.Budgeted : System → Prop
  | .idle w => ∀ c ∈ w.durable, InBudget c
  | .live x => x.engine.Budgeted

private theorem budgeted_react {x : Execution} {handler : Handler Stage}
    (hhandler : Always Engine.Budgeted handler) (hx : x.engine.Budgeted) :
    System.Budgeted (.live (react cfg x handler)) := by
  have hafter := hhandler x.engine hx
  unfold react
  rcases hrun : Program.run handler x.engine with ⟨error | stage, e⟩
  · rw [hrun] at hafter
    have hsettle : Always Engine.Budgeted (settle cfg error) := by
      refine always_ite (always_pure ()) (always_read_bind fun e he => ?_)
      exact (budgeted_tame cfg).save he (.same (by rfl)) _ _
    exact hsettle e hafter
  · rw [hrun] at hafter
    exact hafter

/-- The first checkpoint of an execution has spent what the durable one it goes on from has. -/
private theorem within_initial {request : Request} {checkpointId sessionId : String}
    (expired : Bool)
    (hbase : ∀ base ms rs md, request = .recover base ms rs md → InBudget base) :
    InBudget (expire expired (initial checkpointId sessionId request).1) := by
  have hfirst : InBudget (initial checkpointId sessionId request).1 := by
    cases request with
    | start history context options => exact ⟨Nat.zero_le _, Nat.zero_le _⟩
    | recover base messages resolutions metadata =>
      have hbase := hbase _ _ _ _ rfl
      exact ⟨hbase.requests, hbase.calls⟩
  unfold expire
  split
  · exact ⟨hfirst.requests, hfirst.calls⟩
  · exact hfirst

private theorem budgeted_begin {request : Request} (expired : Bool)
    (hw : ∀ c ∈ w.durable, InBudget c)
    (hbase : ∀ base ms rs md, request = .recover base ms rs md → InBudget base) :
    (begin cfg w request expired).Budgeted := by
  have hfirst : InBudget (expire expired
      (initial (cfg.checkpointName w.checkpoints) (cfg.name w.names) request).1) :=
    within_initial expired hbase
  unfold begin persist
  generalize initial (cfg.checkpointName w.checkpoints) (cfg.name w.names) request = opening
    at hfirst ⊢
  obtain ⟨first, delta⟩ := opening
  simp only at hfirst ⊢
  have hopened : ∀ c ∈ expire expired first :: w.durable, InBudget c :=
    List.forall_mem_cons.mpr ⟨hfirst, hw⟩
  split
  · rename_i hpersist
    split at hpersist <;> cases hpersist
    · exact hw
    · exact hw
    · exact hw
    · exact hopened
  · rename_i hpersist
    split at hpersist <;> cases hpersist
    split
    · change Engine.Budgeted _
      exact ⟨hfirst, hopened⟩
    · refine budgeted_react ?_ ⟨hfirst, hopened⟩
      exact always_bind (budgeted_tame cfg).check fun _ => always_pure _

private theorem budgeted_beginRequest {request : Result Request} (expired : Bool)
    (hw : ∀ c ∈ w.durable, InBudget c)
    (hbase : ∀ base ms rs md, request = .ok (.recover base ms rs md) → InBudget base) :
    (beginRequest cfg w request expired).Budgeted := by
  cases request with
  | ok request =>
    exact budgeted_begin expired hw fun base ms rs md h => hbase base ms rs md (congrArg _ h)
  | error error => exact hw

private theorem budgeted_stepLive {x : Execution} (hx : x.engine.Budgeted) (action : Action) :
    (stepLive cfg x action).engine.Budgeted := by
  have tame := budgeted_tame cfg
  have hreact : ∀ {handler : Handler Stage}, Always Engine.Budgeted handler →
      (react cfg x handler).engine.Budgeted := fun hhandler => budgeted_react hhandler hx
  cases action with
  | catalog opened =>
    simp only [stepLive]
    split
    · exact hreact (tame.catalogOpened budgeted_beginOpening _ _)
    · exact hx
  | opened result =>
    simp only [stepLive]
    split
    · exact hreact (tame.sessionOpened _ _)
    · exact hx
  | control body =>
    simp only [stepLive]
    split
    · exact hreact (tame.receiveControl _ _)
    · exact hreact (tame.receiveControl _ _)
    · exact hreact (tame.receiveControl _ _)
    · exact hx
  | pass =>
    simp only [stepLive]
    split
    · exact hreact (tame.loopPass budgeted_generate budgeted_admitQueued)
    · exact hx
  | work =>
    simp only [stepLive]
    split
    · exact hreact (tame.receiveWork fun _ _ _ => budgeted_admitted _ _)
    · exact hx
  | packet =>
    simp only [stepLive]
    split
    · exact hreact tame.receivePacket
    · exact hx
  | wake =>
    simp only [stepLive]
    split
    · exact hreact (always_bind tame.check fun _ => always_pure _)
    · exact hreact (always_bind tame.check fun _ => always_pure _)
    · exact hx
    · exact hx
  | media chunk =>
    simp only [stepLive]
    split
    · exact hx
    · exact ⟨hx.current, hx.durable⟩
  | task index event =>
    obtain ⟨hcurrent, -, -⟩ := Engine.runTask_keeps cfg index event x.engine
    obtain ⟨hdurable, -⟩ := Engine.runTask_durable cfg index event x.engine
    refine ⟨?_, ?_⟩
    · change InBudget (x.engine.runTask cfg index event).current
      rw [hcurrent]
      exact hx.current
    · change ∀ c ∈ (x.engine.runTask cfg index event).world.durable, InBudget c
      rw [hdurable]
      exact hx.durable
  | _ => exact hx

private theorem budgeted_step {s : System} (hs : s.Budgeted) (action : Action) :
    (System.step cfg s action).Budgeted := by
  cases s with
  | idle w =>
    cases action with
    | start messages context options expired =>
      refine budgeted_beginRequest expired hs fun base ms rs md h => ?_
      exact absurd rfl (startRequest_kind h base ms rs md)
    | recover checkpoint messages resolutions metadata expired =>
      simp only [System.step]
      split
      · rename_i hdurable
        refine budgeted_beginRequest expired hs fun base ms rs md h => ?_
        have hsame : checkpoint = base := by
          unfold recoverRequest at h
          obtain ⟨_, -, h⟩ := Result.bind_ok h
          split at h
          · cases h
            rfl
          · split at h
            · cases h
              rfl
            · cases h
        exact hs base (hsame ▸ hdurable)
      · exact hs
    | _ => exact hs
  | live x =>
    cases action with
    | crash => exact Engine.Budgeted.durable hs
    | _ => exact budgeted_stepLive hs _

theorem reachable_inBudget {s : System} (hs : Reachable cfg s) :
    ∀ c ∈ s.world.durable, InBudget c := by
  obtain ⟨actions, rfl⟩ := hs
  have hrun : ∀ (actions : List Action) (s : System), s.Budgeted →
      (System.run cfg s actions).Budgeted := by
    intro actions
    induction actions with
    | nil => exact fun s hs => hs
    | cons action rest ih => exact fun s hs => ih _ (budgeted_step hs action)
  have hbudgeted := hrun actions (.idle .start) fun c hc => by cases hc
  generalize System.run cfg (.idle .start) actions = s at hbudgeted
  cases s with
  | idle w => exact hbudgeted
  | live x => exact Engine.Budgeted.durable hbudgeted

end Zhir.Kernel
