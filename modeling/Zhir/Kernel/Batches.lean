import Zhir.Kernel.WorkMoves

/-!
Batches of calls that wait for approval: there is at most one, and its calls are the ones
admission has reserved.
-/

set_option autoImplicit false
set_option relaxedAutoImplicit false

namespace Zhir.Kernel

open Zhir.Core
open Relation (ReflTransGen)

variable {cfg : Config} {cause : Cause} {e e' : Engine}

/-- The calls reserved are those of the batch being put together, of the one that waits, or
of the one being handled. -/
structure Engine.Admits (e : Engine) : Prop where
  single : e.batches = [] ∨ ∃ bindings, e.batches = [bindings] ∧ bindings ≠ [] ∧
    e.admitting = (bindings.map Binding.id).reverse
  handled : ∀ bindings decisions, e.handling = some (.admitted bindings decisions) →
    e.batches = [] ∧ (e.admitting = (bindings.map Binding.id).reverse ∨ e.admitting = [])
  unbound : e.sessionControl = none → e.admitting = []

namespace Engine.Admits

theorem none_of_idle (h : e.Admits) (hadmitting : e.admitting = []) : e.batches = [] := by
  rcases h.single with hnone | ⟨bindings, -, hsome, hreserved⟩
  · exact hnone
  · rw [hadmitting] at hreserved
    exact absurd (List.map_eq_nil_iff.mp (List.reverse_eq_nil_iff.mp hreserved.symm)) hsome

theorem released (h : e.Admits) {bindings : List Binding}
    {decisions : Result (List ApprovalDecision)}
    (hwork : e.handling = some (.admitted bindings decisions)) :
    (e.release (bindings.map Binding.id)).admitting = [] := by
  change e.admitting.filter _ = []
  rw [List.filter_eq_nil_iff]
  intro id hid
  rcases (h.handled bindings decisions hwork).2 with hreserved | hempty
  · rw [hreserved, List.mem_reverse] at hid
    simpa using hid
  · rw [hempty] at hid
    cases hid

theorem congr (h : e.Admits) (hbatches : e'.batches = e.batches)
    (hadmitting : e'.admitting = e.admitting) (hhandling : e'.handling = e.handling)
    (hbound : e'.sessionControl = none → e.sessionControl = none) : e'.Admits := by
  refine ⟨?_, ?_, fun hnone => ?_⟩
  · rw [hbatches, hadmitting]
    exact h.single
  · rw [hbatches, hadmitting, hhandling]
    exact h.handled
  · rw [hadmitting]
    exact h.unbound (hbound hnone)

end Engine.Admits

private theorem batches_spawned {added : List Task} (htasks : e'.tasks = e.tasks ++ added)
    (hqueue : e'.stashed.toList ++ e'.queue = e.stashed.toList ++ e.queue)
    (hadded : ∀ task ∈ added, task.batch = none) : e'.batches = e.batches := by
  unfold Engine.batches
  rw [htasks, hqueue, List.filterMap_append, List.filterMap_eq_nil_iff.mpr hadded,
    List.append_nil]

private theorem batch_decided (input : Bool) (task : Task) :
    (task.decided input).batch = task.batch := by
  cases task with
  | mediaInput segment phase => cases phase <;> cases input <;> rfl
  | mediaOutput phase => cases phase <;> cases input <;> rfl
  | _ => rfl

theorem Move.admits (h : Move cfg cause e e') (hadmits : e.Admits) : e'.Admits := by
  have hbound : e'.sessionControl = none → e.sessionControl = none := by
    intro hnone
    by_contra hsome
    have hkept := h.bound (Option.isSome_iff_ne_none.mpr hsome)
    rw [hnone] at hkept
    cases hkept
  have hhandling := h.handling
  have hspawn : ∀ task : Task, task.batch = none → e'.tasks = e.tasks ++ [task] →
      e'.stashed.toList ++ e'.queue = e.stashed.toList ++ e.queue →
        e'.admitting = e.admitting → e'.Admits := by
    intro task htask htasks hqueue hadmitting
    refine hadmits.congr (batches_spawned htasks hqueue ?_) hadmitting hhandling hbound
    intro other hother
    rw [List.mem_singleton.mp hother]
    exact htask
  cases h with
  | submit _ => exact hspawn (.submit _ _) rfl rfl rfl rfl
  | start _ _ _ _ _ _ _ => exact hspawn (.start _ _ false) rfl rfl rfl rfl
  | delegate _ _ _ _ _ _ _ _ => exact hspawn (.delegate _ _ false) rfl rfl rfl rfl
  | awaitReply _ => exact hspawn (.reply _ _) rfl rfl rfl rfl
  | recover _ _ => exact hspawn (.recover _ false) rfl rfl rfl rfl
  | bind _ _ _ _ => exact hspawn .session rfl rfl rfl rfl
  | sendInput _ _ => exact hspawn (.mediaInput _ .sealing) rfl rfl rfl rfl
  | startOutput _ _ _ => exact hspawn (.mediaOutput .sealing) rfl rfl rfl rfl
  | @install id record handle _ _ =>
    refine hadmits.congr (batches_spawned (List.append_assoc _ _ _) rfl ?_) rfl hhandling hbound
    intro task htask
    rcases List.mem_append.mp htask with htask | htask
    · split at htask
      · rw [List.mem_singleton.mp htask]
        rfl
      · cases htask
    · rw [List.mem_singleton.mp htask]
      rfl
  | @requestCancel id =>
    rw [Engine.requestCancel_eq]
    by_cases hcontrol : id ∈ e.operationControls
    · simp only [hcontrol, if_true]
      refine hadmits.congr (batches_spawned rfl rfl ?_) rfl rfl fun hnone => hnone
      intro task htask
      rw [List.mem_singleton.mp htask]
      rfl
    · simp only [hcontrol, if_false]
      exact hadmits.congr rfl rfl rfl fun hnone => hnone
  | reserve _ _ _ hlooping _ _ _ _ _ hnone =>
    refine ⟨.inl hnone, fun bindings decisions hwork => ?_, fun hunbound => ?_⟩
    · rw [hhandling, hlooping.2] at hwork
      cases hwork
    · have hsome := hlooping.1
      rw [hbound hunbound] at hsome
      cases hsome
  | @approval bindings hlooping hreserved hsome hnone =>
    refine ⟨.inr ⟨bindings, ?_, hsome, hreserved⟩, fun bindings decisions hwork => ?_,
      fun hunbound => ?_⟩
    · obtain ⟨htasks, hqueue⟩ := List.append_eq_nil_iff.mp hnone
      change (e.tasks ++ [Task.approval bindings]).filterMap Task.batch ++
        (e.stashed.toList ++ e.queue).filterMap Work.batch = [bindings]
      rw [List.filterMap_append, htasks, hqueue]
      rfl
    · rw [hhandling, hlooping.2] at hwork
      cases hwork
    · have hsome := hlooping.1
      rw [hbound hunbound] at hsome
      cases hsome
  | @release bindings decisions hwork =>
    have hnone := (hadmits.handled bindings decisions hwork).1
    have hidle := hadmits.released hwork
    exact ⟨.inl hnone, fun _ _ _ => ⟨hnone, .inr hidle⟩, fun _ => hidle⟩
  | @batch w events next fact delta queue stashed sequence mediaClosed first _ _ _ _ _ _ hqueue
      hstashed =>
    obtain ⟨taken, hqueue, htaken⟩ := hqueue
    refine hadmits.congr ?_ rfl hhandling hbound
    have hnone : taken.filterMap Work.batch = [] := by
      rw [List.filterMap_eq_nil_iff]
      intro work hwork
      obtain ⟨event, rfl⟩ := htaken work hwork
      rfl
    have hworks : e.stashed.toList ++ e.queue = taken ++ (stashed.toList ++ queue) := by
      rw [hstashed, hqueue, List.append_assoc]
      rfl
    unfold Engine.batches
    rw [hworks, List.filterMap_append (l := taken), hnone, List.nil_append]
    rfl
  | @decide input work _ _ =>
    refine hadmits.congr ?_ rfl hhandling hbound
    unfold Engine.batches
    rw [List.filterMap_map]
    congr 2
    funext task
    exact batch_decided input task
  | _ => exact hadmits.congr rfl rfl hhandling hbound

theorem Turn.admits (h : Turn cfg cause e e') (hadmits : e.Admits) : e'.Admits := by
  cases h with
  | move h => exact h.admits hadmits
  | @take work queue hlooping hworks =>
    have hbound := hlooping.1
    have hbatches : e.batches = e.tasks.filterMap Task.batch ++
        (work.batch.toList ++ queue.filterMap Work.batch) := by
      unfold Engine.batches
      rw [hworks]
      cases hbatch : work.batch <;> simp [hbatch]
    have htaken : (({ e with stashed := none, queue } : Engine).take work).batches =
        e.tasks.filterMap Task.batch ++ queue.filterMap Work.batch := rfl
    refine ⟨?_, fun bindings decisions hwork => ?_, fun hunbound => ?_⟩
    · rw [htaken]
      rcases hadmits.single with hnone | ⟨bindings, hone, hsome, hreserved⟩
      · rw [hbatches] at hnone
        simp only [List.append_eq_nil_iff] at hnone
        rw [hnone.1, hnone.2.2]
        exact .inl rfl
      · rw [hbatches] at hone
        cases hbatch : work.batch with
        | none =>
          rw [hbatch] at hone
          exact .inr ⟨bindings, hone, hsome, hreserved⟩
        | some other =>
          rw [hbatch] at hone
          have hlength := congrArg List.length hone
          simp only [List.length_append, Option.toList_some, List.length_singleton] at hlength
          left
          rw [List.append_eq_nil_iff]
          exact ⟨List.length_eq_zero_iff.mp (by omega), List.length_eq_zero_iff.mp (by omega)⟩
    · cases hwork
      have hbatch : (Work.admitted bindings decisions).batch.toList = [bindings] := rfl
      rw [hbatch] at hbatches
      rcases hadmits.single with hnone | ⟨other, hone, -, hreserved⟩
      · rw [hbatches] at hnone
        simp at hnone
      · rw [hbatches] at hone
        have hlength := congrArg List.length hone
        simp only [List.length_append, List.length_singleton] at hlength
        have htasks : e.tasks.filterMap Task.batch = [] := List.length_eq_zero_iff.mp (by omega)
        have hqueue : queue.filterMap Work.batch = [] := List.length_eq_zero_iff.mp (by omega)
        rw [htasks, hqueue] at hone
        cases hone
        rw [htaken, htasks, hqueue]
        exact ⟨rfl, .inl hreserved⟩
    · change e.sessionControl = none at hunbound
      rw [hunbound] at hbound
      cases hbound
  | drop _ _ => exact ⟨hadmits.single, fun _ _ hwork => (nomatch hwork), hadmits.unbound⟩

theorem Moves.admits (h : Moves cfg cause e e') (hadmits : e.Admits) : e'.Admits := by
  induction h with
  | refl => exact hadmits
  | tail _ hmove ih => exact hmove.admits ih

private theorem batches_taskStep {task : Task} {event : TaskEvent} {step : TaskStep}
    (h : taskStep cfg task event = some step) :
    step.remaining.toList.filterMap Task.batch ++ step.report.toList.filterMap Work.batch =
      task.batch.toList := by
  unfold taskStep at h
  split at h <;> try split at h
  all_goals cases h
  all_goals rfl

theorem Engine.Admits.taskStepped {index : Nat} {task : Task} {event : TaskEvent}
    {step : TaskStep} (hadmits : e.Admits) (htask : e.tasks[index]? = some task)
    (hstep : taskStep cfg task event = some step) : (e.taskStepped index step).Admits := by
  obtain ⟨hindex, hget⟩ := List.getElem?_eq_some_iff.mp htask
  have htasks : e.tasks = e.tasks.take index ++ task :: e.tasks.drop (index + 1) := by
    rw [← hget, ← List.drop_eq_getElem_cons hindex, List.take_append_drop]
  have hperm : (e.taskStepped index step).batches.Perm e.batches := by
    have hbatches : e.batches = (e.tasks.take index).filterMap Task.batch ++
        (task.batch.toList ++ (e.tasks.drop (index + 1)).filterMap Task.batch) ++
          (e.stashed.toList ++ e.queue).filterMap Work.batch := by
      unfold Engine.batches
      conv_lhs => rw [htasks]
      rw [List.filterMap_append (l := e.tasks.take index)]
      cases hbatch : task.batch <;> simp [hbatch]
    rw [hbatches, ← batches_taskStep hstep]
    change ((e.tasks.take index ++ step.remaining.toList ++
      e.tasks.drop (index + 1)).filterMap Task.batch ++
        (e.stashed.toList ++ (e.queue ++ step.report.toList)).filterMap Work.batch).Perm _
    simp only [List.filterMap_append, List.append_assoc]
    refine List.Perm.append_left _ (List.Perm.append_left _ ?_)
    have hcomm := @List.perm_append_comm _ ((e.tasks.drop (index + 1)).filterMap Task.batch ++
      e.stashed.toList.filterMap Work.batch ++ e.queue.filterMap Work.batch)
      (step.report.toList.filterMap Work.batch)
    simpa only [List.append_assoc] using hcomm
  have hsame : (e.taskStepped index step).batches = e.batches := by
    rcases hadmits.single with hnone | ⟨bindings, hone, -, -⟩
    · rw [hnone] at hperm ⊢
      exact List.Perm.eq_nil hperm
    · rw [hone] at hperm ⊢
      exact List.perm_singleton.mp hperm
  exact hadmits.congr hsame rfl rfl fun hnone => hnone

end Zhir.Kernel
