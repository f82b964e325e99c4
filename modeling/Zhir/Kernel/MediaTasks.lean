import Zhir.Kernel.Runs

/-!
The tasks that seal media. At most one in each direction is at work; it reports each of its
segments before its end, and while the engine's flag is down it has reported everything.
-/

set_option autoImplicit false
set_option relaxedAutoImplicit false

namespace Zhir.Kernel

open Zhir.Core
open Relation (ReflTransGen)

variable {cfg : Config}

def Task.seals (input : Bool) : Task → Bool
  | .mediaInput _ _ => input
  | .mediaOutput _ => !input
  | _ => false

def Work.ends (input : Bool) : Work → Bool
  | .inputSent _ => input
  | .mediaDone | .mediaError _ => !input
  | _ => false

/-- Every reported segment is followed by the end of its task. -/
def Followed (input : Bool) (works : List Work) : Prop :=
  ∀ before work after, works = before ++ work :: after → work.decides input = true →
    ∃ last ∈ after, last.ends input = true

namespace Followed

variable {input : Bool} {works : List Work}

private theorem of_append {before : List Work} (h : Followed input (before ++ works)) :
    Followed input works := by
  intro before' work after hworks
  refine h (before ++ before') work after ?_
  rw [hworks, List.append_assoc]

theorem concat {last : Work} (h : Followed input works) (hlast : last.decides input = false) :
    Followed input (works ++ [last]) := by
  intro before work after hworks hdecides
  rcases List.eq_nil_or_concat after with rfl | ⟨after', last', rfl⟩
  · obtain ⟨-, hsame⟩ := List.append_inj' hworks rfl
    cases hsame
    rw [hlast] at hdecides
    cases hdecides
  · rw [List.concat_eq_append, ← List.cons_append, ← List.append_assoc] at hworks
    obtain ⟨hworks, -⟩ := List.append_inj' hworks rfl
    obtain ⟨end', hmem, hends⟩ := h before work after' hworks hdecides
    refine ⟨end', ?_, hends⟩
    rw [List.concat_eq_append]
    exact List.mem_append_left _ hmem

/-- The end of the task follows whatever it has reported. -/
theorem ended {last : Work} (hlast : last.ends input = true)
    (hsegment : last.decides input = false) :
    Followed input (works ++ [last]) := by
  intro before work after hworks hdecides
  rcases List.eq_nil_or_concat after with rfl | ⟨after', last', rfl⟩
  · obtain ⟨-, hsame⟩ := List.append_inj' hworks rfl
    cases hsame
    rw [hsegment] at hdecides
    cases hdecides
  · rw [List.concat_eq_append, ← List.cons_append, ← List.append_assoc] at hworks
    obtain ⟨-, hsame⟩ := List.append_inj' hworks rfl
    cases hsame
    refine ⟨last, ?_, hlast⟩
    rw [List.concat_eq_append]
    exact List.mem_append_right _ (List.mem_singleton_self last)

end Followed

namespace Engine

def works (e : Engine) : List Work := e.stashed.toList ++ e.queue

def expects (input : Bool) (e : Engine) : Bool := if input then e.inputSending else e.mediaPending

def sealing (input : Bool) (e : Engine) : Nat :=
  e.tasks.countP (Task.seals input) + e.works.countP (Work.ends input)

def ending (input : Bool) (e : Engine) : Nat := if e.handling.any (Work.ends input) then 1 else 0

/-- The media tasks of an execution in one direction. -/
structure Tended (input : Bool) (e : Engine) : Prop where
  idle : e.expects input = false → e.sealing input = 0
  single : e.sealing input + e.ending input ≤ 1
  reported : e.tasks.countP (Task.seals input) = 0 → Followed input e.works

end Engine

namespace Engine.Tended

variable {input : Bool} {e e' : Engine}

theorem drained (h : e.Tended input) (hidle : e.expects input = false) :
    (∀ task ∈ e.tasks, task.seals input = false) ∧
      ∀ work ∈ e.works, work.ends input = false ∧ work.decides input = false := by
  have hsealing := h.idle hidle
  unfold Engine.sealing at hsealing
  have htasks : e.tasks.countP (Task.seals input) = 0 := by omega
  have hends : e.works.countP (Work.ends input) = 0 := by omega
  have hreported := h.reported htasks
  simp only [List.countP_eq_zero, Bool.not_eq_true] at htasks hends
  refine ⟨htasks, fun work hwork => ⟨hends work hwork, ?_⟩⟩
  obtain ⟨before, after, hworks⟩ := List.append_of_mem hwork
  by_contra hdecides
  obtain ⟨last, hlast, hend⟩ := hreported before work after hworks (by simpa using hdecides)
  have hmem : last ∈ e.works := by
    rw [hworks]
    exact List.mem_append_right _ (List.mem_cons_of_mem work hlast)
  rw [hends last hmem] at hend
  cases hend

theorem spawned {added : List Task} (h : e.Tended input)
    (hadded : ∀ task ∈ added, task.seals input = false) (htasks : e'.tasks = e.tasks ++ added)
    (hworks : e'.works = e.works) (hhandling : e'.handling = e.handling)
    (hexpects : e'.expects input = e.expects input) : e'.Tended input := by
  have hnone : added.countP (Task.seals input) = 0 :=
    List.countP_eq_zero.mpr fun task htask => by simp [hadded task htask]
  have hcount : e'.tasks.countP (Task.seals input) = e.tasks.countP (Task.seals input) := by
    rw [htasks, List.countP_append, hnone, Nat.add_zero]
  have hsealing : e'.sealing input = e.sealing input := by
    unfold Engine.sealing
    rw [hcount, hworks]
  have hending : e'.ending input = e.ending input := by
    unfold Engine.ending
    rw [hhandling]
  refine ⟨?_, ?_, ?_⟩
  · rw [hexpects, hsealing]
    exact h.idle
  · rw [hsealing, hending]
    exact h.single
  · rw [hcount, hworks]
    exact h.reported

theorem opened {task : Task} (hidle : e.sealing input = 0) (hhandling : e'.handling = none)
    (hexpects : e'.expects input = true) (htask : task.seals input = true)
    (htasks : e'.tasks = e.tasks ++ [task]) (hworks : e'.works = e.works) : e'.Tended input := by
  have hcount : e'.tasks.countP (Task.seals input) = e.tasks.countP (Task.seals input) + 1 := by
    rw [htasks, List.countP_append, List.countP_singleton, htask]
    rfl
  have hsealing : e'.sealing input = 1 := by
    unfold Engine.sealing at hidle ⊢
    rw [hcount, hworks]
    omega
  have hending : e'.ending input = 0 := by
    unfold Engine.ending
    rw [hhandling]
    rfl
  refine ⟨?_, ?_, ?_⟩
  · intro hfalse
    rw [hexpects] at hfalse
    cases hfalse
  · omega
  · intro hnone
    omega

theorem taken (first : List Work) (handling : Option Work) (h : e.Tended input)
    (hworks : e.works = first ++ e'.works) (htasks : e'.tasks = e.tasks)
    (hhandling : e'.handling = handling) (hexpects : e'.expects input = e.expects input)
    (hends : (if handling.any (Work.ends input) then 1 else 0) ≤
      first.countP (Work.ends input) + e.ending input) : e'.Tended input := by
  have hsealing : e.sealing input = e'.sealing input + first.countP (Work.ends input) := by
    unfold Engine.sealing
    rw [htasks, hworks, List.countP_append]
    omega
  have hending : e'.ending input ≤ first.countP (Work.ends input) + e.ending input := by
    unfold Engine.ending at hends ⊢
    rw [hhandling]
    exact hends
  have hsingle := h.single
  refine ⟨?_, by omega, ?_⟩
  · intro hidle
    rw [hexpects] at hidle
    have := h.idle hidle
    omega
  · rw [htasks]
    intro hnone
    have hreported := h.reported hnone
    rw [hworks] at hreported
    exact hreported.of_append

end Engine.Tended

private theorem Task.decided_seals (input direction : Bool) (task : Task) :
    (task.decided direction).seals input = task.seals input := by
  cases task with
  | mediaInput segment phase => cases phase <;> cases direction <;> rfl
  | mediaOutput phase => cases phase <;> cases direction <;> rfl
  | _ => rfl

variable {cause : Cause} {input : Bool} {e e' : Engine}

theorem Move.tended (h : Move cfg cause e e') (htended : e.Tended input) : e'.Tended input := by
  have hkept : ∀ {e' : Engine}, e'.tasks = e.tasks → e'.works = e.works →
      e'.handling = e.handling → e'.expects input = e.expects input → e'.Tended input := by
    intro e' htasks hworks hhandling hexpects
    have hnone : ∀ task ∈ ([] : List Task), task.seals input = false := by simp
    refine htended.spawned hnone ?_ hworks hhandling hexpects
    rw [htasks, List.append_nil]
  have hspawn : ∀ {e' : Engine} (task : Task), task.seals input = false →
      e'.tasks = e.tasks ++ [task] → e'.works = e.works → e'.handling = e.handling →
        e'.expects input = e.expects input → e'.Tended input := by
    intro e' task htask htasks hworks hhandling hexpects
    exact htended.spawned (by simpa using htask) htasks hworks hhandling hexpects
  -- the end of the task in this direction is being handled, so nothing else is left of it
  have hended : ∀ {e' : Engine}, e.handling.any (Work.ends input) = true →
      e'.tasks = e.tasks → e'.works = e.works → e'.handling = e.handling → e'.Tended input := by
    intro e' hends htasks hworks hhandling
    have hsingle := htended.single
    have hsealing : e'.sealing input = e.sealing input := by
      unfold Engine.sealing
      rw [htasks, hworks]
    have hending : e'.ending input = 1 ∧ e.ending input = 1 := by
      unfold Engine.ending
      rw [hhandling, hends]
      exact ⟨rfl, rfl⟩
    refine ⟨fun _ => by omega, by omega, ?_⟩
    rw [htasks, hworks]
    exact htended.reported
  cases h with
  | submit _ => exact hspawn _ rfl rfl rfl rfl rfl
  | @install id record handle hrecord hhandling =>
    have htasks : (e.install id record.state).tasks = e.tasks ++
        ((if record.state = .cancelling then [.cancel id false] else []) ++ [.events id]) :=
      List.append_assoc _ _ _
    refine htended.spawned ?_ htasks rfl rfl rfl
    intro task htask
    rcases List.mem_append.mp htask with htask | htask
    · split at htask
      · rw [List.mem_singleton.mp htask]
        rfl
      · cases htask
    · rw [List.mem_singleton.mp htask]
      rfl
  | @requestCancel id =>
    rw [Engine.requestCancel_eq]
    by_cases hcontrol : id ∈ e.operationControls
    · simp only [hcontrol, if_true]
      exact hspawn _ rfl rfl rfl rfl rfl
    · simp only [hcontrol, if_false]
      exact hkept rfl rfl rfl rfl
  | awaitReply _ => exact hspawn _ rfl rfl rfl rfl rfl
  | start => exact hspawn _ rfl rfl rfl rfl rfl
  | delegate => exact hspawn _ rfl rfl rfl rfl rfl
  | recover => exact hspawn _ rfl rfl rfl rfl rfl
  | approval => exact hspawn _ rfl rfl rfl rfl rfl
  | bind => exact hspawn .session rfl rfl rfl rfl rfl
  | batch _ _ _ _ _ _ hqueue hstashed =>
    obtain ⟨taken, hqueue, -⟩ := hqueue
    refine Engine.Tended.taken taken e.handling htended ?_ rfl rfl rfl ?_
    · unfold Engine.works
      rw [hstashed, hqueue, List.append_assoc]
      rfl
    · exact Nat.le_add_left _ _
  | @decide direction work hhandling hdecides =>
    have hcount : (e.tasks.map (Task.decided direction)).countP (Task.seals input) =
        e.tasks.countP (Task.seals input) := by
      rw [List.countP_map]
      congr 1
      funext task
      exact Task.decided_seals input direction task
    refine ⟨?_, ?_, ?_⟩
    · intro hidle
      change (e.tasks.map _).countP _ + _ = 0
      rw [hcount]
      exact htended.idle hidle
    · change (e.tasks.map _).countP _ + _ + _ ≤ 1
      rw [hcount]
      exact htended.single
    · change (e.tasks.map _).countP _ = 0 → _
      rw [hcount]
      exact htended.reported
  | inputSent hhandling =>
    cases input with
    | false => exact hkept rfl rfl rfl rfl
    | true => exact hended (by rw [hhandling]; rfl) rfl rfl rfl
  | mediaDone hhandling =>
    cases input with
    | false => exact hended (by rw [hhandling]; rfl) rfl rfl rfl
    | true => exact hkept rfl rfl rfl rfl
  | sendInput hlooping hidle =>
    cases input with
    | false => exact hspawn _ rfl rfl rfl rfl rfl
    | true => exact .opened (htended.idle hidle) hlooping.2 rfl rfl rfl rfl
  | startOutput hlooping hpending _ =>
    cases input with
    | false => exact .opened (htended.idle hpending) hlooping.2 rfl rfl rfl rfl
    | true => exact hspawn _ rfl rfl rfl rfl rfl
  | _ => exact hkept rfl rfl rfl rfl

theorem Turn.tended (h : Turn cfg cause e e') (htended : e.Tended input) : e'.Tended input := by
  cases h with
  | move h => exact h.tended htended
  | @take work queue hlooping hworks =>
    refine Engine.Tended.taken [work] (some work) htended ?_ rfl rfl rfl ?_
    · exact hworks
    · simp only [Option.any_some, List.countP_singleton]
      exact Nat.le_add_right _ _
  | drop hhandling _ =>
    refine Engine.Tended.taken [] none htended rfl rfl rfl rfl ?_
    simp

private theorem taskStep_seals {task : Task} {event : TaskEvent} {step : TaskStep}
    (h : taskStep cfg task event = some step) (input : Bool) :
    step.remaining.toList.countP (Task.seals input) + step.report.toList.countP (Work.ends input) =
        [task].countP (Task.seals input) ∧
      ∀ work ∈ step.report, work.decides input = true →
        step.remaining.toList.countP (Task.seals input) = 1 := by
  unfold taskStep at h
  split at h <;> try split at h
  all_goals cases h
  all_goals cases input <;> simp [Task.seals, Work.ends, Work.decides]

theorem Engine.Tended.runTask (h : e.Tended input) (index : Nat) (event : TaskEvent) :
    (e.runTask cfg index event).Tended input := by
  rcases Engine.runTask_cases cfg index event e with hsame | ⟨task, step, htask, hstep, hstepped⟩
  · rw [hsame]
    exact h
  rw [hstepped]
  obtain ⟨hcount, hsegment⟩ := taskStep_seals hstep input
  have hsplit : e.tasks = e.tasks.take index ++ [task] ++ e.tasks.drop (index + 1) := by
    obtain ⟨hindex, rfl⟩ := List.getElem?_eq_some_iff.mp htask
    rw [List.append_assoc, List.singleton_append, ← List.drop_eq_getElem_cons hindex,
      List.take_append_drop]
  have hseals : e.tasks.countP (Task.seals input) =
      (e.tasks.take index).countP (Task.seals input) + [task].countP (Task.seals input) +
        (e.tasks.drop (index + 1)).countP (Task.seals input) := by
    conv_lhs => rw [hsplit]
    rw [List.countP_append, List.countP_append]
  have hseals' : (e.taskStepped index step).tasks.countP (Task.seals input) =
      (e.tasks.take index).countP (Task.seals input) +
        step.remaining.toList.countP (Task.seals input) +
        (e.tasks.drop (index + 1)).countP (Task.seals input) := by
    change List.countP _ (_ ++ _ ++ _) = _
    rw [List.countP_append, List.countP_append]
  have hworks : (e.taskStepped index step).works = e.works ++ step.report.toList := by
    change _ ++ (_ ++ _) = _
    rw [← List.append_assoc]
    rfl
  have hsealing : (e.taskStepped index step).sealing input = e.sealing input := by
    unfold Engine.sealing
    rw [hworks, hseals, hseals', List.countP_append]
    omega
  refine ⟨?_, ?_, ?_⟩
  · rw [hsealing]
    exact h.idle
  · rw [hsealing]
    exact h.single
  · intro hnone
    rw [hseals'] at hnone
    have hremaining : step.remaining.toList.countP (Task.seals input) = 0 := by omega
    rw [hworks]
    cases hreport : step.report with
    | none =>
      rw [hreport] at hcount
      simp only [Option.toList_none, List.countP_nil] at hcount
      rw [Option.toList_none, List.append_nil]
      exact h.reported (by omega)
    | some work =>
      have hdecides : work.decides input = false := by
        by_contra hdecides
        have := hsegment work hreport (by simpa using hdecides)
        omega
      cases hends : work.ends input with
      | true => exact .ended hends hdecides
      | false =>
        rw [hreport] at hcount
        simp only [Option.toList_some, List.countP_singleton, hends, Bool.false_eq_true,
          if_false] at hcount
        simp only [List.countP_singleton] at hseals
        have hstopped : e.tasks.countP (Task.seals input) = 0 := by omega
        exact (h.reported hstopped).concat hdecides

theorem Reached.tended {resolutions : List RecoveryResolution}
    (h : Reached cfg (.live resolutions e)) (input : Bool) : e.Tended input := by
  generalize hp : Point.live resolutions e = p at h
  induction h generalizing resolutions e with
  | refl => cases hp
  | tail _ hstep ih =>
    subst hp
    cases hstep with
    | boot _ =>
      refine ⟨fun _ => rfl, Nat.zero_le 1, ?_⟩
      intro _ before work after hworks
      cases before <;> cases hworks
    | turn _ hturn => exact hturn.tended (ih rfl)
    | task => exact (ih rfl).runTask _ _
    | packet =>
      have htended := ih rfl
      exact ⟨htended.idle, htended.single, htended.reported⟩

end Zhir.Kernel
