import Zhir.Kernel.Budgets

/-!
Approval of tool calls. Whatever call a tool is started with was allowed by an approval batch
earlier in the run, and it is the call the model made: the one its operation was recorded for.
-/

set_option autoImplicit false
set_option relaxedAutoImplicit false

namespace Zhir.Kernel

open Zhir.Core
open Zhir.Library (Program)
open Zhir.Library.Program

variable {cfg : Config} {e e' : Engine} {w w' : World}

/-- The checkpoint records the operation for this call of a tool of this name. -/
def CalledIn (c : Checkpoint) (binding : Binding) : Prop :=
  ∃ record, c.active.operations[binding.id]? = some record ∧
    record.owner = .runtimeTool binding.call.name ∧ callOf record c = .ok binding.call

def World.Calls (w : World) (binding : Binding) : Prop := ∃ c ∈ w.durable, CalledIn c binding

theorem World.Calls.mono {binding : Binding} (h : w.Calls binding)
    (hdurable : ∀ c ∈ w.durable, c ∈ w'.durable) : w'.Calls binding := by
  obtain ⟨c, hc, hrecorded⟩ := h
  exact ⟨c, hdurable c hc, hrecorded⟩

def Allowing (bindings : List Binding) (decisions : Result (List ApprovalDecision))
    (binding : Binding) : Prop :=
  ∃ answers, decisions = .ok answers ∧ (binding, .allow) ∈ bindings.zip answers

def Approving (approved : Binding → Prop) (work : Work) : Prop :=
  ∀ bindings decisions, work = .admitted bindings decisions →
    ∀ binding, Allowing bindings decisions binding → approved binding

/-- Only approved calls are about to start, only recorded ones are up for approval, and the
checkpoints in `known` are durable. -/
structure Engine.Gated (approved : Binding → Prop) (known : List Checkpoint) (e : Engine) :
    Prop where
  starts : ∀ id call invoked, Task.start id call invoked ∈ e.tasks → approved ⟨id, call⟩
  approvals : ∀ bindings, Task.approval bindings ∈ e.tasks →
    ∀ binding ∈ bindings, e.world.Calls binding
  works : ∀ work ∈ e.undone, Approving approved work
  valid : e.current.Valid
  current : e.current ∈ e.world.durable
  known : ∀ c ∈ known, c ∈ e.world.durable

variable {approved approved' : Binding → Prop} {known : List Checkpoint}

theorem Approving.mono {work : Work} (h : Approving approved work)
    (hmore : ∀ binding, approved binding → approved' binding) : Approving approved' work :=
  fun bindings decisions hwork binding hallowing =>
    hmore binding (h bindings decisions hwork binding hallowing)

theorem Engine.Gated.mono (h : e.Gated approved known)
    (hmore : ∀ binding, approved binding → approved' binding) : e.Gated approved' known :=
  { h with
    starts := fun id call invoked htask => hmore _ (h.starts id call invoked htask)
    works := fun work hwork => (h.works work hwork).mono hmore }

theorem Engine.Gated.forget (h : e.Gated approved known) : e.Gated approved [] :=
  { h with known := fun _ hc => by cases hc }

private theorem Engine.Gated.transfer (h : e.Gated approved known)
    (hcurrent : e'.current = e.current)
    (htasks : ∀ task ∈ e'.tasks, task.gated = true → task ∈ e.tasks)
    (hworks : ∀ work ∈ e'.undone, work ∈ e.undone ∨ Approving approved work)
    (hdurable : ∀ c ∈ e.world.durable, c ∈ e'.world.durable) : e'.Gated approved known where
  starts id call invoked htask := h.starts id call invoked (htasks _ htask rfl)
  approvals bindings htask binding hbinding :=
    (h.approvals bindings (htasks _ htask rfl) binding hbinding).mono hdurable
  works work hwork := by
    rcases hworks work hwork with hold | hfine
    · exact h.works work hold
    · exact hfine
  valid := by
    rw [hcurrent]
    exact h.valid
  current := by
    rw [hcurrent]
    exact hdurable _ h.current
  known c hc := hdurable c (h.known c hc)

private theorem valid_of_accepts {current next : Checkpoint} {fact : Fact} {delta : HistoryDelta}
    (h : Accepts cfg w current next fact delta) : (stamp cfg w current next fact).Valid :=
  Checkpoint.valid_of_validate (Commit.checked_of_ok h).valid

theorem Engine.Gated.saved {next : Checkpoint} {fact : Fact} {delta : HistoryDelta}
    (h : e.Gated approved known) (haccepts : Accepts cfg e.world e.current next fact delta) :
    (e.saved cfg e.world next fact).Gated approved known := by
  have hdurable : (e.saved cfg e.world next fact).world.durable =
      stamp cfg e.world e.current next fact :: e.world.durable :=
    saved_durable (.refl e.world) next fact
  have hgrows : ∀ c ∈ e.world.durable, c ∈ (e.saved cfg e.world next fact).world.durable := by
    intro c hc
    rw [hdurable]
    exact List.mem_cons_of_mem _ hc
  refine ⟨h.starts, fun bindings htask binding hbinding => ?_, h.works,
    valid_of_accepts haccepts, ?_, fun c hc => hgrows c (h.known c hc)⟩
  · exact (h.approvals bindings htask binding hbinding).mono hgrows
  · rw [hdurable]
    exact List.mem_cons_self

private theorem gated_commit (next : Checkpoint) (fact : Fact) (delta : HistoryDelta) :
    Always (Engine.Gated approved known) (commit cfg next fact delta) := by
  intro e he
  rcases run_commit cfg e next fact delta with ⟨error, w, hw, hr⟩ | ⟨haccepts, hr | hr⟩
  · rw [hr]
    refine he.transfer rfl (fun _ htask _ => htask) (fun _ hwork => .inl hwork) fun c hc => ?_
    change c ∈ w.durable
    rw [hw.durable]
    exact hc
  · rw [hr]
    exact he.saved haccepts
  · rw [hr]
    refine he.transfer rfl (fun _ htask _ => htask) (fun _ hwork => .inl hwork) fun c hc => ?_
    change c ∈ (e.saved cfg e.world next fact).world.durable
    rw [saved_durable (.refl _)]
    exact List.mem_cons_of_mem _ hc

private theorem gated_tame (cfg : Config) (approved : Binding → Prop) (known : List Checkpoint) :
    Tame cfg (Engine.Gated approved known) (fun _ => True) (Approving approved) where
  current _ _ := trivial
  fine _ he := he.works
  aside e e' haside he := by
    refine he.transfer haside.current haside.tasks haside.works fun c hc => ?_
    rw [haside.durable]
    exact hc
  calm _ _ _ _ := trivial
  commit next fact delta _ := gated_commit next fact delta

private theorem gated_selectCalls {among : Binding → Prop} {available : List Candidate}
    (havailable : ∀ candidate ∈ available, among ⟨candidate.id, candidate.call⟩) (parallel : Bool)
    (running : Nat) (calls : List RuntimeToolCall) (selected : List String)
    (bindings : List Binding) (hbindings : ∀ binding ∈ bindings, among binding) :
    Yields (Engine.Gated approved known) (fun result => ∀ binding ∈ result, among binding)
      (selectCalls cfg available parallel running selected bindings calls) := by
  have tame := gated_tame cfg approved known
  induction calls generalizing selected bindings with
  | nil => exact yields_pure hbindings
  | cons shown rest ih =>
    unfold selectCalls
    split
    · exact yields_fail _
    · rename_i candidate hfind
      refine yields_then (always_require _ _) fun _ => ?_
      refine yields_then (tame.bindCall _) fun bound => ?_
      split
      · exact yields_then (tame.finish _ _) fun _ => ih _ _ hbindings
      · refine yields_read_bind fun _ _ => yields_ite (yields_pure hbindings) ?_
        refine yields_ite (yields_pure hbindings) ?_
        refine yields_then (tame.memory fun _ => ⟨rfl, rfl, rfl, rfl⟩) fun _ => ih _ _ ?_
        intro binding hbinding
        rcases List.mem_append.mp hbinding with hold | hnew
        · exact hbindings binding hold
        · rw [List.mem_singleton.mp hnew]
          exact havailable candidate (List.mem_of_find?_eq_some hfind)

private theorem shown_candidates {c : Checkpoint} {records : List OperationRecord}
    {available : List Candidate} (h : candidates c records = .ok available) :
    ∀ candidate ∈ available, ∃ record ∈ records, candidate.Shows c record := by
  have hshows := candidates_ok h
  clear h
  induction hshows with
  | nil => exact fun _ hcandidate => by cases hcandidate
  | cons hfirst _ ih =>
    refine List.forall_mem_cons.mpr ⟨⟨_, List.mem_cons_self, hfirst⟩, ?_⟩
    intro candidate hcandidate
    obtain ⟨record, hrecord, hshows⟩ := ih candidate hcandidate
    exact ⟨record, List.mem_cons_of_mem _ hrecord, hshows⟩

private theorem calledIn_candidates {c : Checkpoint} {available : List Candidate} (hvalid : c.Valid)
    (h : candidates c (queuedCalls c) = .ok available) :
    ∀ candidate ∈ available, CalledIn c ⟨candidate.id, candidate.call⟩ := by
  intro candidate hcandidate
  obtain ⟨record, hmem, hid, hcall⟩ := shown_candidates h candidate hcandidate
  obtain ⟨hrecord, -, name, howner⟩ := (mem_queuedCalls hvalid).mp hmem
  have hname := callOf_name hvalid hrecord howner hcall
  refine ⟨record, ?_, ?_, hcall⟩
  · change c.active.operations[candidate.id]? = some record
    rw [hid]
    exact hrecord
  · rw [howner, hname]

private theorem gated_approval {bindings : List Binding} {c : Checkpoint}
    (hbindings : ∀ binding ∈ bindings, CalledIn c binding) :
    Always (Engine.Gated approved [c])
      (Program.modify fun e => e.spawn (.approval bindings) : Handler Unit) := by
  refine always_modify fun e he => ?_
  have htasks : ∀ task, task ∈ (e.spawn (.approval bindings)).tasks →
      task ∈ e.tasks ∨ task = .approval bindings := by
    intro task htask
    rcases List.mem_append.mp htask with hold | hnew
    · exact .inl hold
    · exact .inr (List.mem_singleton.mp hnew)
  refine { he with starts := fun id call invoked htask => ?_, approvals := ?_ }
  · rcases htasks _ htask with hold | hnew
    · exact he.starts id call invoked hold
    · cases hnew
  · intro other htask binding hbinding
    rcases htasks _ htask with hold | hnew
    · exact he.approvals other hold binding hbinding
    · cases hnew
      exact ⟨c, he.known c (List.mem_singleton.mpr rfl), hbindings binding hbinding⟩

private theorem gated_admitCalls (running : Nat) :
    Always (Engine.Gated approved []) (admitCalls cfg running) := by
  intro e he
  have hknown : e.Gated approved [e.current] :=
    { he with known := fun c hc => List.mem_singleton.mp hc ▸ he.current }
  suffices hrest : (Program.run (admitCalls cfg running) e).2.Gated approved [e.current] from
    hrest.forget
  unfold admitCalls
  rw [run_bind, run_read]
  refine always_lift_bind (fun available hcandidates => always_ite (always_pure _) ?_) e hknown
  have havailable := calledIn_candidates he.valid hcandidates
  refine always_lift_bind fun admission _ => ?_
  have hselected := @gated_selectCalls cfg approved [e.current] (CalledIn e.current) _ havailable
  refine always_bind_yields (hselected _ _ _ _ _ fun _ h => by cases h) fun bindings hbindings => ?_
  exact always_when (gated_approval hbindings)

private theorem gated_admitQueued : Always (Engine.Gated approved []) (admitQueued cfg) :=
  (gated_tame cfg approved []).admitQueued gated_admitCalls

private theorem gated_startAdmitted {binding : Binding} (happroved : approved binding)
    (op : OperationRecord) : Always (Engine.Gated approved []) (startAdmitted cfg binding op) := by
  have tame := gated_tame cfg approved []
  refine always_read_bind fun e he => always_bind (gated_commit _ _ _) fun _ => ?_
  refine always_bind tame.check fun _ => always_modify fun e he => ?_
  have htasks : ∀ task ∈ (e.launch binding.id (.start binding.id binding.call false)).tasks,
      task ∈ e.tasks ∨ task = .start binding.id binding.call false := by
    intro task htask
    rcases List.mem_append.mp htask with hold | hnew
    · exact .inl hold
    · exact .inr (List.mem_singleton.mp hnew)
  refine { he with starts := fun id call invoked htask => ?_, approvals := ?_ }
  · rcases htasks _ htask with hold | hnew
    · exact he.starts id call invoked hold
    · cases hnew
      exact happroved
  · intro bindings htask
    rcases htasks _ htask with hold | hnew
    · exact he.approvals bindings hold
    · cases hnew

private theorem gated_applyDecisions {decisions : List (Binding × ApprovalDecision)}
    (hallowed : ∀ binding, (binding, .allow) ∈ decisions → approved binding) :
    Always (Engine.Gated approved []) (applyDecisions cfg decisions) := by
  have tame := gated_tame cfg approved []
  induction decisions with
  | nil => exact always_pure ()
  | cons first rest ih =>
    obtain ⟨binding, decision⟩ := first
    replace ih := ih fun other hother => hallowed other (List.mem_cons_of_mem _ hother)
    refine always_read_bind fun e _ => ?_
    split
    · exact ih
    · cases decision with
      | deny reason => exact always_bind (tame.finish _ _) fun _ => ih
      | suspend suspension => exact ih
      | allow =>
        refine always_bind tame.check fun _ => always_ite (tame.limitRun _) ?_
        exact always_bind (gated_startAdmitted (hallowed binding List.mem_cons_self) _) fun _ => ih

private theorem gated_admitted {bindings : List Binding}
    {decisions : Result (List ApprovalDecision)}
    (happroving : Approving approved (.admitted bindings decisions)) :
    Always (Engine.Gated approved []) (admitted cfg bindings decisions) := by
  have tame := gated_tame cfg approved []
  refine always_lift_bind fun answers hanswers => always_bind (always_require _ _) fun _ => ?_
  refine always_bind (tame.memory fun _ => ⟨rfl, rfl, rfl, rfl⟩) fun _ => ?_
  refine always_read_bind fun e he => ?_
  split
  · exact gated_commit _ _ _
  · refine gated_applyDecisions fun binding hallow => ?_
    exact happroving _ _ rfl binding ⟨answers, hanswers, hallow⟩

private theorem gated_generate : Always (Engine.Gated approved []) (generate cfg) := by
  have tame := gated_tame cfg approved []
  have hreduction : Always (Engine.Gated approved []) (reduction cfg) := by
    intro e he
    obtain ⟨w, hw, hstate⟩ := reduction_state cfg e
    rw [hstate]
    refine he.transfer rfl (fun _ htask _ => htask) (fun _ hwork => .inl hwork) fun c hc => ?_
    change c ∈ w.durable
    rw [hw.durable]
    exact hc
  refine always_read_bind fun _ _ => always_ite (tame.limitRun _) ?_
  refine always_bind hreduction fun rewrite => ?_
  cases rewrite with
  | some rewrite =>
    refine always_read_bind fun _ _ => always_bind tame.newId fun _ => ?_
    exact always_lift_bind fun _ _ => gated_commit _ _ _
  | none =>
    refine always_bind tame.newId fun _ => always_bind tame.newId fun _ => ?_
    exact always_read_bind fun _ _ => gated_commit _ _ _

private theorem gated_beginOpening : Always (Engine.Gated approved []) (beginOpening cfg) := by
  refine always_read_bind fun _ _ => always_bind (always_require _ _) fun _ => ?_
  refine always_bind (always_require _ _) fun _ => ?_
  refine always_bind (always_when (always_read_bind fun _ _ => ?_)) fun _ => ?_
  · exact always_bind (gated_tame cfg approved []).newId fun _ => gated_commit _ _ _
  · refine always_read_bind fun _ _ => always_bind (always_modify fun e he => ?_) fun _ => ?_
    · exact he.transfer rfl (fun _ htask _ => htask) (fun _ hwork => .inl hwork) fun c hc => hc
    · exact always_pure _

/-- The step by which an approval batch allows this recorded call. -/
inductive Allows : System → Action → Binding → Prop
  | decided {x : Execution} {index : Nat} {bindings : List Binding}
      {answers : List ApprovalDecision} {binding : Binding}
      (htask : x.engine.tasks[index]? = some (.approval bindings))
      (hallowed : (binding, .allow) ∈ bindings.zip answers)
      (hcalls : x.engine.world.Calls binding) :
      Allows (.live x) (.task index (.decided (.ok answers))) binding

variable (cfg) in
def AllowedIn (actions : List Action) (binding : Binding) : Prop :=
  ∃ before action after, actions = before ++ action :: after ∧
    Allows (System.run cfg (.idle .start) before) action binding

theorem AllowedIn.more {actions : List Action} {binding : Binding}
    (h : AllowedIn cfg actions binding) (later : List Action) :
    AllowedIn cfg (actions ++ later) binding := by
  obtain ⟨before, action, after, rfl, hallows⟩ := h
  exact ⟨before, action, after ++ later, by simp, hallows⟩

/-- What a task leaves and what it reports, as far as calls are concerned. -/
structure Faithful (task : Task) (event : TaskEvent) (step : TaskStep) : Prop where
  start : ∀ id call invoked, step.remaining = some (.start id call invoked) →
    ∃ before, task = .start id call before
  approval : ∀ bindings, step.remaining ≠ some (.approval bindings)
  report : ∀ bindings decisions, step.report = some (.admitted bindings decisions) →
    task = .approval bindings ∧ event = .decided decisions

private theorem taskStep_faithful {task : Task} {event : TaskEvent} {step : TaskStep}
    (h : taskStep cfg task event = some step) : Faithful task event step := by
  unfold taskStep at h
  split at h <;> try split at h
  all_goals cases h
  all_goals refine ⟨?_, ?_, ?_⟩
  all_goals simp

private theorem gated_taskStepped {index : Nat} {task : Task} {event : TaskEvent} {step : TaskStep}
    (htask : e.tasks[index]? = some task) (hstep : taskStep cfg task event = some step)
    (hsame : e.runTask cfg index event = e.taskStepped index step)
    (happroved : ∀ bindings answers binding, task = .approval bindings →
      event = .decided (.ok answers) → (binding, .allow) ∈ bindings.zip answers →
        approved binding) (he : e.Gated approved []) :
    (e.taskStepped index step).Gated approved [] := by
  have hfaithful := taskStep_faithful hstep
  obtain ⟨hdurable, -⟩ := Engine.runTask_durable cfg index event e
  rw [hsame] at hdurable
  have hmem : ∀ other ∈ (e.taskStepped index step).tasks,
      other ∈ e.tasks ∨ step.remaining = some other := by
    intro other hother
    rcases List.mem_append.mp hother with hother | hafter
    · rcases List.mem_append.mp hother with hbefore | hleft
      · exact .inl (List.mem_of_mem_take hbefore)
      · exact .inr (Option.mem_toList.mp hleft)
    · exact .inl (List.mem_of_mem_drop hafter)
  refine ⟨fun id call invoked hmem' => ?_, fun bindings hmem' binding hbinding => ?_,
    fun work hwork => ?_, he.valid, ?_, fun c hc => by cases hc⟩
  · rcases hmem _ hmem' with hold | hleft
    · exact he.starts id call invoked hold
    · obtain ⟨before, rfl⟩ := hfaithful.start id call invoked hleft
      exact he.starts id call before (List.mem_of_getElem? htask)
  · rcases hmem _ hmem' with hold | hleft
    · refine (he.approvals bindings hold binding hbinding).mono fun c hc => ?_
      rw [hdurable]
      exact hc
    · exact absurd hleft (hfaithful.approval bindings)
  · have hcases : work ∈ e.undone ∨ step.report = some work := by
      rcases List.mem_append.mp hwork with hhandling | hwork
      · exact .inl (List.mem_append_left _ hhandling)
      · rcases List.mem_append.mp hwork with hstash | hwork
        · exact .inl (List.mem_append_right _ (List.mem_append_left _ hstash))
        · rcases List.mem_append.mp hwork with hqueue | hreport
          · exact .inl (List.mem_append_right _ (List.mem_append_right _ hqueue))
          · exact .inr (Option.mem_toList.mp hreport)
    rcases hcases with hold | hreport
    · exact he.works work hold
    · rintro bindings decisions rfl binding ⟨answers, rfl, hallowed⟩
      obtain ⟨htask, hevent⟩ := hfaithful.report bindings _ hreport
      exact happroved bindings answers binding htask hevent hallowed
  · change e.current ∈ (e.taskStepped index step).world.durable
    rw [hdurable]
    exact he.current

def System.Gated (approved : Binding → Prop) : System → Prop
  | .idle _ => True
  | .live x => x.engine.Gated approved []

theorem System.Gated.mono {s : System} (h : s.Gated approved)
    (hmore : ∀ binding, approved binding → approved' binding) : s.Gated approved' := by
  cases s with
  | idle w => trivial
  | live x => exact Engine.Gated.mono h hmore

private theorem gated_react {x : Execution} {handler : Handler Stage}
    (hhandler : Always (Engine.Gated approved []) handler) (hx : x.engine.Gated approved []) :
    System.Gated approved (.live (react cfg x handler)) := by
  have hafter := hhandler x.engine hx
  unfold react
  rcases hrun : Program.run handler x.engine with ⟨error | stage, e⟩
  all_goals rw [hrun] at hafter
  · have hsettle : Always (Engine.Gated approved []) (settle cfg error) :=
      always_ite (always_pure ()) (always_read_bind fun _ _ => gated_commit _ _ _)
    exact hsettle e hafter
  · exact hafter

private theorem gated_begin {request : Request} (expired : Bool) :
    (begin cfg w request expired).Gated approved := by
  unfold begin persist
  generalize initial (cfg.checkpointName w.checkpoints) (cfg.name w.names) request = opening
  obtain ⟨first, delta⟩ := opening
  simp only
  split
  · trivial
  · rename_i hpersist
    have hbooted : ∀ world : World, (Commit.mk (expire expired first) delta).validateAgainst
        w.head = .ok () → world.durable = expire expired first :: w.durable →
          (Engine.boot world (expire expired first)).Gated approved [] := by
      intro world haccepts hdurable
      refine ⟨?_, ?_, ?_, Checkpoint.valid_of_validate (Commit.checked_of_ok haccepts).valid,
        ?_, fun c hc => by cases hc⟩
      · exact fun id call invoked htask => by cases htask
      · exact fun bindings htask => by cases htask
      · exact fun work hwork => by cases hwork
      · change _ ∈ world.durable
        rw [hdurable]
        exact List.mem_cons_self
    split at hpersist <;> cases hpersist
    rename_i haccepts
    split
    · exact hbooted _ haccepts rfl
    · refine gated_react ?_ (hbooted _ haccepts rfl)
      exact always_bind (gated_tame cfg approved []).check fun _ => always_pure _

private theorem gated_stepLive {x : Execution} (hx : x.engine.Gated approved []) (action : Action)
    (happroved : ∀ binding, Allows (.live x) action binding → approved binding) :
    (stepLive cfg x action).engine.Gated approved [] := by
  have tame := gated_tame cfg approved []
  have hreact : ∀ {handler : Handler Stage}, Always (Engine.Gated approved []) handler →
      (react cfg x handler).engine.Gated approved [] := fun hhandler => gated_react hhandler hx
  cases action with
  | catalog opened =>
    simp only [stepLive]
    split
    · exact hreact (tame.catalogOpened gated_beginOpening _ _)
    · exact hx
  | opened result =>
    simp only [stepLive]
    split
    · exact hreact (tame.sessionOpened _ _)
    · exact hx
  | control body =>
    simp only [stepLive]
    split
    · exact hreact (tame.receiveControl _ _)
    · exact hreact (tame.receiveControl _ _)
    · exact hreact (tame.receiveControl _ _)
    · exact hx
  | pass =>
    simp only [stepLive]
    split
    · exact hreact (tame.loopPass gated_generate gated_admitQueued)
    · exact hx
  | work =>
    simp only [stepLive]
    split
    · exact hreact (tame.receiveWork fun _ _ happroving => gated_admitted happroving)
    · exact hx
  | packet =>
    simp only [stepLive]
    split
    · exact hreact tame.receivePacket
    · exact hx
  | wake =>
    simp only [stepLive]
    split
    · exact hreact (always_bind tame.check fun _ => always_pure _)
    · exact hreact (always_bind tame.check fun _ => always_pure _)
    · exact hx
    · exact hx
  | media chunk =>
    simp only [stepLive]
    split
    · exact hx
    · exact hx.transfer rfl (fun _ htask _ => htask) (fun _ hwork => .inl hwork) fun c hc => hc
  | task index event =>
    simp only [stepLive]
    rcases Engine.runTask_cases cfg index event x.engine with
      hsame | ⟨task, step, htask, hstep, hsame⟩
    · rw [hsame]
      exact hx
    · rw [hsame]
      refine gated_taskStepped htask hstep hsame ?_ hx
      rintro bindings answers binding rfl rfl hallowed
      have hmem : binding ∈ bindings := (List.of_mem_zip hallowed).1
      have hcalls := hx.approvals bindings (List.mem_of_getElem? htask) binding hmem
      exact happroved binding (.decided htask hallowed hcalls)
  | _ => exact hx

private theorem gated_step {s : System} (hs : s.Gated approved) (action : Action)
    (happroved : ∀ binding, Allows s action binding → approved binding) :
    (System.step cfg s action).Gated approved := by
  cases s with
  | idle w =>
    have hbegun : ∀ request expired, (beginRequest cfg w request expired).Gated approved := by
      intro request expired
      cases request with
      | ok request => exact gated_begin expired
      | error error => trivial
    cases action with
    | start messages context options expired => exact hbegun _ _
    | recover checkpoint messages resolutions metadata expired =>
      simp only [System.step]
      split
      · exact hbegun _ _
      · trivial
    | _ => trivial
  | live x =>
    cases action with
    | crash => trivial
    | _ => exact gated_stepLive hs _ happroved

private theorem reachable_gated (actions : List Action) :
    (System.run cfg (.idle .start) actions).Gated (AllowedIn cfg actions) := by
  induction actions using List.reverseRecOn with
  | nil => trivial
  | append_singleton before action ih =>
    have hrun : System.run cfg (.idle .start) (before ++ [action]) =
        System.step cfg (System.run cfg (.idle .start) before) action := by
      unfold System.run
      rw [List.foldl_append]
      rfl
    rw [hrun]
    refine gated_step (ih.mono fun binding h => h.more [action]) action fun binding hallows => ?_
    exact ⟨before, action, [], rfl, hallows⟩

/-- Nothing runs unapproved. Whatever call a tool is started with in a run, however its
executions interleave, crash and are recovered, an approval batch of the run allowed exactly
this call before, and the call is the one that a durable checkpoint records the operation for. -/
theorem calls_approved {actions : List Action} {x : Execution}
    (hrun : System.run cfg (.idle .start) actions = .live x) {id : OperationId}
    {call : RuntimeToolCall} {invoked : Bool} (htask : .start id call invoked ∈ x.engine.tasks) :
    ∃ before action after, actions = before ++ action :: after ∧
      Allows (System.run cfg (.idle .start) before) action ⟨id, call⟩ := by
  have hgated : (System.run cfg (.idle .start) actions).Gated (AllowedIn cfg actions) :=
    reachable_gated actions
  rw [hrun] at hgated
  exact Engine.Gated.starts hgated id call invoked htask

/-- A run that has asked for approval of a call and started it. -/
def sampleAllowed : List Action :=
  sampleOpening (sampleOptions sampleLimits) ++ sampleStarted "look"

def System.starts : System → List (OperationId × RuntimeToolCall × Bool)
  | .idle _ => []
  | .live x => x.engine.tasks.filterMap fun
    | .start id call invoked => some (id, call, invoked)
    | _ => none

theorem calls_approved_sample :
    ∃ x id call invoked, sampleRun sampleAllowed = .live x ∧
      .start id call invoked ∈ x.engine.tasks ∧
      ∃ before action after, sampleAllowed = before ++ action :: after ∧
        Allows (sampleRun before) action ⟨id, call⟩ := by
  have hstarts : (sampleRun sampleAllowed).starts ≠ [] := by decide +kernel
  obtain ⟨⟨id, call, invoked⟩, hmem⟩ := List.exists_mem_of_ne_nil _ hstarts
  rcases hrun : sampleRun sampleAllowed with w | x
  · rw [hrun] at hmem
    cases hmem
  · rw [hrun] at hmem
    obtain ⟨task, htask, hstart⟩ := List.mem_filterMap.mp hmem
    cases task with
    | start id' call' invoked' =>
      cases hstart
      exact ⟨x, id, call, invoked, rfl, htask, calls_approved hrun htask⟩
    | _ => cases hstart

end Zhir.Kernel
