import Zhir.Kernel.Hosted

/-!
What works for an operation was launched for it: an operation with a task, a report or a kept
control is no longer queued.
-/

set_option autoImplicit false
set_option relaxedAutoImplicit false

namespace Zhir.Kernel

open Zhir.Core

variable {cfg : Config} {cause : Cause} {e e' : Engine} {w w' : World}

variable (cfg) in
/-- The durable head does not have the operation queued, and none will. -/
structure OffQueue (w : World) (id : OperationId) : Prop where
  known : (∃ k < w.names, id = .host (cfg.name k)) ∨ ∀ name, id ≠ .host name
  head : ∀ c, w.head = some c → ∀ op, c.active.operations[id]? = some op → op.state ≠ .queued

theorem OffQueue.extends {id : OperationId} (h : OffQueue cfg w id)
    (hw : World.Extends cfg w w') : OffQueue cfg w' id := by
  have hnames := hw.names
  refine ⟨?_, fun c' hc' op' hop' hqueued' => ?_⟩
  · rcases h.known with ⟨k, hk, hid⟩ | hhost
    · exact .inl ⟨k, by omega, hid⟩
    · exact .inr hhost
  · obtain ⟨c, hc, m, -, htables⟩ := hw.tables hc'
    rcases htables id op' hop' with ⟨op, hop, hqueued, -⟩ | ⟨⟨j, hj, -, hsame⟩, -⟩ | ⟨-, hstate⟩
    · exact h.head c hc op hop (hqueued hqueued')
    · rcases h.known with ⟨k, hk, hid⟩ | hhost
      · rw [hid] at hsame
        have hjk : k = j := cfg.name_injective (OperationId.host.inj hsame)
        omega
      · exact hhost _ hsame
    · exact hstate hqueued'

private theorem Started.offQueue (hs : Started cfg w) {c : Checkpoint} (hc : w.head = some c)
    {id : OperationId} {op : OperationRecord} (hop : c.active.operations[id]? = some op)
    (hqueued : op.state ≠ .queued) : OffQueue cfg w id := by
  refine ⟨?_, fun c' hc' op' hop' => ?_⟩
  · rcases hs.known c (hs.head c hc) id op hop with hknown | ⟨hhost, -⟩
    · exact .inl hknown
    · exact .inr hhost
  · rw [hc] at hc'
    cases hc'
    rw [hop] at hop'
    cases hop'
    exact hqueued

variable (cfg) in
def Engine.Serving (e : Engine) : Prop := ∀ id, e.Serves id → OffQueue cfg e.world id

theorem Engine.Serving.of (h : e.Serving cfg) (hw : World.Extends cfg e.world e'.world)
    (htasks : ∀ task ∈ e'.tasks, ∀ id, task.about = some id →
      e.Serves id ∨ OffQueue cfg e'.world id)
    (hworks : ∀ work ∈ e'.works, ∀ id, work.about id = true → e.Serves id)
    (hhandling : ∀ work, e'.handling = some work → ∀ id, work.about id = true → e.Serves id)
    (hcontrols : ∀ id ∈ e'.operationControls, e.Serves id) : e'.Serving cfg := by
  have hserved : ∀ id, e.Serves id → OffQueue cfg e'.world id :=
    fun id hserves => (h id hserves).extends hw
  intro id hserves
  cases hserves with
  | task hmem habout => exact (htasks _ hmem id habout).elim (hserved id) fun hnew => hnew
  | waits hmem habout => exact hserved id (hworks _ hmem id habout)
  | handled hwork habout => exact hserved id (hhandling _ hwork id habout)
  | control hmem => exact hserved id (hcontrols id hmem)

private theorem about_decided (input : Bool) (task : Task) :
    (task.decided input).about = task.about := by
  cases task with
  | mediaInput segment phase => cases phase <;> cases input <;> rfl
  | mediaOutput phase => cases phase <;> cases input <;> rfl
  | _ => rfl

theorem Move.serving (h : Move cfg cause e e') (hs' : Started cfg e'.world) (hsound : e.Sound)
    (hsound' : e'.Sound) (hserving : e.Serving cfg) : e'.Serving cfg := by
  have hw := h.extends hsound.head hsound.valid
  have hhandling : ∀ work, e'.handling = some work → ∀ id, work.about id = true → e.Serves id := by
    rw [h.handling]
    exact fun work hwork id habout => .handled hwork habout
  have hworks : e'.works = e.works →
      ∀ work ∈ e'.works, ∀ id, work.about id = true → e.Serves id := by
    intro hsame work hwork id habout
    rw [hsame] at hwork
    exact .waits hwork habout
  have hcontrols : e'.operationControls = e.operationControls →
      ∀ id ∈ e'.operationControls, e.Serves id := by
    intro hsame id hid
    rw [hsame] at hid
    exact .control hid
  -- the tasks are kept, and those added are about operations that are accounted for
  have hspawned : ∀ added : List Task, e'.tasks = e.tasks ++ added → e'.works = e.works →
      e'.operationControls = e.operationControls →
      (∀ task ∈ added, ∀ id, task.about = some id → e.Serves id ∨ OffQueue cfg e'.world id) →
        e'.Serving cfg := by
    intro added htasks hsame hcontrol hadded
    refine hserving.of hw ?_ (hworks hsame) hhandling (hcontrols hcontrol)
    intro task htask id habout
    rw [htasks] at htask
    rcases List.mem_append.mp htask with hold | hnew
    · exact .inl (.task hold habout)
    · exact hadded task hnew id habout
  have hlaunched : ∀ (id : OperationId) (task : Task), e'.tasks = e.tasks ++ [task] →
      e'.works = e.works → e'.operationControls = e.operationControls → task.about = some id →
      (∃ op, e'.current.active.operations[id]? = some op ∧ op.state ≠ .queued) →
        e'.Serving cfg := by
    intro id task htasks hsame hcontrol habout hrunning
    obtain ⟨op, hop, hqueued⟩ := hrunning
    refine hspawned [task] htasks hsame hcontrol fun new hnew other hother => .inr ?_
    rw [List.mem_singleton.mp hnew, habout] at hother
    cases hother
    exact hs'.offQueue hsound'.head hop hqueued
  have hquiet : ∀ task : Task, task.about = none → e'.tasks = e.tasks ++ [task] →
      e'.works = e.works → e'.operationControls = e.operationControls → e'.Serving cfg := by
    intro task habout htasks hsame hcontrol
    refine hspawned [task] htasks hsame hcontrol fun new hnew other hother => ?_
    rw [List.mem_singleton.mp hnew, habout] at hother
    cases hother
  cases h with
  | submit _ => exact hquiet _ rfl rfl rfl rfl
  | approval _ _ _ _ => exact hquiet _ rfl rfl rfl rfl
  | bind _ _ _ _ => exact hquiet .session rfl rfl rfl rfl
  | sendInput _ _ => exact hquiet _ rfl rfl rfl rfl
  | startOutput _ _ _ => exact hquiet _ rfl rfl rfl rfl
  | start _ _ _ _ _ _ _ =>
    exact hlaunched _ _ rfl rfl rfl rfl ⟨_, getElem?_putOperation _ _ _, fun h => by cases h⟩
  | delegate _ _ _ _ _ _ _ _ =>
    exact hlaunched _ _ rfl rfl rfl rfl ⟨_, getElem?_putOperation _ _ _, fun h => by cases h⟩
  | @recover record hrecord hstate =>
    refine hlaunched _ _ rfl rfl rfl rfl ⟨record, hrecord, fun h => ?_⟩
    rw [h] at hstate
    simp at hstate
  | @awaitReply id value hcontrol =>
    refine hspawned [.reply id value] rfl rfl rfl fun task htask other hother => .inl ?_
    rw [List.mem_singleton.mp htask] at hother
    cases hother
    exact .control hcontrol
  | @install id record handle hrecord hwork =>
    have hserves : e.Serves id := .handled hwork (by simp [Work.about])
    refine hserving.of hw ?_ (hworks rfl) hhandling ?_
    · intro task htask other hother
      simp only [Engine.install, List.mem_append, List.mem_singleton] at htask
      rcases htask with (hold | hcancel) | rfl
      · exact .inl (.task hold hother)
      · split at hcancel
        · rw [List.mem_singleton.mp hcancel] at hother
          cases hother
          exact .inl hserves
        · cases hcancel
      · cases hother
        exact .inl hserves
    · intro other hother
      rcases List.mem_cons.mp hother with rfl | hold
      · exact hserves
      · exact .control hold
  | @requestCancel id =>
    rw [Engine.requestCancel_eq] at *
    by_cases hmem : id ∈ e.operationControls
    · refine hspawned [.cancel id true] (if_pos hmem) rfl rfl fun task htask other hother => .inl ?_
      rw [List.mem_singleton.mp htask] at hother
      cases hother
      exact .control hmem
    · refine hspawned [] ?_ rfl rfl fun task htask => absurd htask List.not_mem_nil
      rw [List.append_nil]
      exact if_neg hmem
  | @forget id =>
    refine hserving.of hw (fun task htask other habout => .inl (.task htask habout)) (hworks rfl)
      hhandling fun other hother => .control (List.mem_of_mem_filter hother)
  | @batch w events next fact delta queue stashed sequence mediaClosed first _ _ _ _ _ _ hqueue
      hstashed =>
    obtain ⟨taken, hqueue, -⟩ := hqueue
    refine hserving.of hw (fun task htask other habout => .inl (.task htask habout)) ?_ hhandling
      (hcontrols rfl)
    intro work hwork other habout
    refine .waits ?_ habout
    change work ∈ e.stashed.toList ++ e.queue
    rw [hstashed, hqueue, List.append_assoc]
    exact List.mem_append_right _ (List.mem_append_right taken hwork)
  | @decide input work _ _ =>
    refine hserving.of hw ?_ (hworks rfl) hhandling (hcontrols rfl)
    intro task htask other habout
    obtain ⟨old, hold, rfl⟩ := List.mem_map.mp htask
    rw [about_decided] at habout
    exact .inl (.task hold habout)
  | _ =>
    exact hspawned [] (List.append_nil _).symm rfl rfl fun task htask =>
      absurd htask List.not_mem_nil

theorem Turn.serving (h : Turn cfg cause e e') (hs' : Started cfg e'.world) (hsound : e.Sound)
    (hserving : e.Serving cfg) : e'.Serving cfg := by
  cases h with
  | move hmove => exact hmove.serving hs' hsound ((Turn.move hmove).sound hsound) hserving
  | @take work queue _ hworks =>
    refine hserving.of (.counted (.refl _))
      (fun task htask other habout => .inl (.task htask habout))
      ?_ ?_ fun other hother => .control hother
    · intro waiting hwaiting other habout
      refine .waits ?_ habout
      change waiting ∈ e.stashed.toList ++ e.queue
      rw [hworks]
      exact List.mem_cons_of_mem _ hwaiting
    · intro handled hhandled other habout
      cases hhandled
      refine .waits ?_ habout
      change work ∈ e.stashed.toList ++ e.queue
      rw [hworks]
      exact List.mem_cons_self
  | drop _ _ =>
    exact hserving.of (.counted (.refl _))
      (fun task htask other habout => .inl (.task htask habout))
      (fun work hwork other habout => .waits hwork habout) (fun _ hwork => (nomatch hwork))
      fun other hother => .control hother

private theorem taskStep_about {task : Task} {event : TaskEvent} {step : TaskStep}
    {id : OperationId}
    (h : taskStep cfg task event = some step) :
    (∀ remaining ∈ step.remaining, remaining.about = some id → task.about = some id) ∧
      ∀ work ∈ step.report, work.about id = true → task.about = some id := by
  unfold taskStep at h
  split at h <;> try split at h
  all_goals cases h
  all_goals simp [Task.about, Work.about]

theorem Engine.Serving.taskStepped {index : Nat} {task : Task} {event : TaskEvent}
    {step : TaskStep} (h : e.Serving cfg) (htask : e.tasks[index]? = some task)
    (hstep : taskStep cfg task event = some step) : (e.taskStepped index step).Serving cfg := by
  have hmem : task ∈ e.tasks := List.mem_of_getElem? htask
  intro id hserves
  have hold : e.Serves id := by
    obtain ⟨hremaining, hreport⟩ := @taskStep_about cfg task event step id hstep
    cases hserves with
    | @task other hother habout =>
      simp only [Engine.taskStepped, List.mem_append, Option.mem_toList] at hother
      rcases hother with (hother | hother) | hother
      · exact .task (List.mem_of_mem_take hother) habout
      · exact .task hmem (hremaining other hother habout)
      · exact .task (List.mem_of_mem_drop hother) habout
    | @waits work hwork habout =>
      change work ∈ e.stashed.toList ++ (e.queue ++ step.report.toList) at hwork
      rw [← List.append_assoc] at hwork
      rcases List.mem_append.mp hwork with hwork | hwork
      · exact .waits hwork habout
      · exact .task hmem (hreport work (Option.mem_toList.mp hwork) habout)
    | handled hwork habout => exact .handled hwork habout
    | control hcontrol => exact .control hcontrol
  exact ⟨(h id hold).known, (h id hold).head⟩

def Point.Serving (cfg : Config) : Point → Prop
  | .live _ e => e.Serving cfg
  | _ => True

private theorem Reached.point_serving {p : Point} (hp : Reached cfg p) : p.Serving cfg := by
  refine hp.rule (I := Point.Serving cfg) trivial fun p p' hreached h hstep => ?_
  have hstarts' : Starts cfg p' := Reached.starts (Relation.ReflTransGen.tail hreached hstep)
  cases hstep with
  | boot _ =>
    intro id hserves
    cases hserves with
    | task hmem _ | waits hmem _ | control hmem => cases hmem
    | handled hwork _ => cases hwork
  | turn _ hturn => exact hturn.serving hstarts'.1 hreached.sound h
  | @task resolutions e index event =>
    rcases Engine.runTask_cases cfg index event e with hsame | ⟨task, step, htask, hstep, hnext⟩
    · rw [hsame]
      exact h
    · rw [hnext]
      exact Engine.Serving.taskStepped h htask hstep
  | packet =>
    exact Engine.Serving.of h (.counted (.refl _))
      (fun task htask other habout => .inl (.task htask habout))
      (fun work hwork other habout => .waits hwork habout)
      (fun work hwork other habout => .handled hwork habout) fun other hother => .control hother
  | _ => exact trivial

theorem Reached.ne_queued {resolutions : List RecoveryResolution}
    (hp : Reached cfg (.live resolutions e)) {id : OperationId} {op : OperationRecord}
    (hserves : e.Serves id) (hop : e.current.active.operations[id]? = some op) :
    op.state ≠ .queued :=
  (hp.point_serving id hserves).head _ hp.sound.head op hop

end Zhir.Kernel
