import Mathlib.Data.List.Pairwise
import Zhir.Kernel.CommandDelivery

/-!
What a submitted command says: the intent that a durable outbox records under its identity,
worked out from that very checkpoint, and the same in every outbox that has the command.
-/

set_option autoImplicit false
set_option relaxedAutoImplicit false

namespace Zhir.Kernel

open Zhir.Core
open Zhir.Library (Program Queue)

/-- The body that an engine standing at the checkpoint submits for an intent. -/
def Embodies (c : Checkpoint) (intent : CommandIntent) (body : SessionCommandBody) : Prop :=
  ∀ e : Engine, e.current = c → e.commandBody intent = .ok body

/-- A durable checkpoint has the command in its outbox, and its intent there is what the
command says. -/
def Noted (trace : List Effect) (command : SessionCommand) : Prop :=
  ∃ c, Effect.committed c ∈ trace ∧ ∃ p ∈ c.active.commands, p.id = command.id ∧
    Embodies c p.intent command.body

def Attested (trace : List Effect) : Prop :=
  ∀ newer older projection command, trace = newer ++ .submitted projection command :: older →
    Noted older command

/-- Commands of one identity agree: the later one has the intent of the earlier one, and its
mark. -/
def Agree (new old : Checkpoint) : Prop :=
  ∀ p ∈ old.active.commands, ∀ q ∈ new.active.commands, q.id = p.id → KeepsCommand p q

def World.Agreed (w : World) : Prop := w.durable.Pairwise Agree

def Point.tasks : Point → List Task
  | .idle _ => []
  | .live _ e => e.tasks
  | .ended e => e.tasks

variable {cfg : Config} {order : List String} {w w' : World} {e e' : Engine} {cause : Cause}
  {trace older : List Effect} {tasks : List Task}

private theorem commandBody_embodies {intent : CommandIntent} {body : SessionCommandBody}
    (h : e.commandBody intent = .ok body) : Embodies e.current intent body := by
  intro e' hcurrent
  unfold Engine.commandBody at h ⊢
  rw [hcurrent]
  exact h

theorem Noted.mono {command : SessionCommand} (h : Noted older command)
    (hsub : ∀ x ∈ older, x ∈ trace) : Noted trace command := by
  obtain ⟨c, hc, hp⟩ := h
  exact ⟨c, hsub _ hc, hp⟩

theorem Attested.cons {x : Effect} (h : Attested trace)
    (hx : ∀ projection command, x = .submitted projection command → Noted trace command) :
    Attested (x :: trace) := by
  intro newer older projection command htrace
  cases newer with
  | nil =>
    obtain ⟨rfl, rfl⟩ := List.cons.inj htrace
    exact hx projection command rfl
  | cons y newer =>
    obtain ⟨-, hrest⟩ := List.cons.inj htrace
    exact h newer older projection command hrest

theorem Attested.silent {effects : List Effect} (h : Attested trace)
    (heffects : ∀ x ∈ effects, x.silent = true) : Attested (effects ++ trace) := by
  induction effects with
  | nil => exact h
  | cons x rest ih =>
    obtain ⟨hx, hrest⟩ := List.forall_mem_cons.mp heffects
    refine (ih hrest).cons fun projection command hsame => ?_
    rw [hsame] at hx
    cases hx

theorem Attested.extends (h : Attested w.trace) (hw : World.Extends cfg w w') :
    Attested w'.trace ∧ ∀ x ∈ w.trace, x ∈ w'.trace := by
  cases hw with
  | quiet _ htrace hsilent =>
    rw [htrace]
    exact ⟨h.silent hsilent, fun x hx => List.mem_append_right _ hx⟩
  | commit _ _ _ _ _ _ _ _ htrace =>
    rw [htrace]
    refine ⟨h.cons fun _ _ hsame => ?_, fun x hx => List.mem_cons_of_mem _ hx⟩
    cases hsame

theorem Agree.refl {c : Checkpoint} (hnodup : (c.active.commands.map PendingCommand.id).Nodup) :
    Agree c c := by
  intro p hp q hq hsame
  obtain rfl := List.inj_on_of_nodup_map hnodup hp hq hsame.symm
  exact KeepsCommand.refl p

theorem Submitted.agree {next c : Checkpoint} (h : Submitted cfg order w)
    (hagreed : w.Agreed)
    (hhead : w.head = some c)
    (hcarries : ∀ q ∈ next.active.commands, q.id ∈ order →
      ∃ a ∈ c.active.commands, a.id = q.id ∧ KeepsCommand a q) :
    (next :: w.durable).Pairwise Agree := by
  refine List.pairwise_cons.mpr ⟨fun old hold p hp q hq hsame => ?_, hagreed⟩
  have hordered : q.id ∈ order := by
    rw [hsame]
    exact (h.outboxes old hold).subset (List.mem_map_of_mem hp)
  obtain ⟨a, ha, hid, hkeeps⟩ := hcarries q hq hordered
  have hnodup : (c.active.commands.map PendingCommand.id).Nodup :=
    h.nodup.sublist (h.logged hhead).items
  have hbefore : Agree c old := by
    rw [h.head] at hhead
    unfold World.Agreed at hagreed
    cases hdurable : w.durable with
    | nil =>
      rw [hdurable] at hhead
      cases hhead
    | cons d rest =>
      rw [hdurable] at hhead hagreed hold
      cases hhead
      rcases List.mem_cons.mp hold with rfl | hold
      · exact Agree.refl hnodup
      · exact (List.pairwise_cons.mp hagreed).1 old hold
  exact KeepsCommand.trans p a q (hbefore p hp a ha (hid.trans hsame)) hkeeps

private theorem Submitted.agreed (h : Submitted cfg order w) (hagreed : w.Agreed)
    (hw : World.Extends cfg w w') : w'.Agreed := by
  obtain ⟨_, -, hgrown⟩ := h.extends hw
  unfold World.Agreed
  cases hw with
  | quiet _ htrace hsilent =>
    have hdurable : w'.durable = w.durable := by
      unfold World.durable
      rw [htrace, List.filterMap_append, List.filterMap_eq_nil_iff.mpr, List.nil_append]
      intro x hx
      have hx := hsilent x hx
      cases x <;> first | rfl | cases hx
    rw [hdurable]
    exact hagreed
  | @commit c next _ _ hhead _ _ _ _ _ _ hhead' htrace =>
    have hdurable : w'.durable = next :: w.durable := by
      unfold World.durable
      rw [htrace]
      rfl
    rw [hdurable]
    exact h.agree hagreed hhead (hgrown.carries c next hhead hhead')

private theorem Submitted.openedAgreed {request : Request} {expired : Bool} {first : Checkpoint}
    (h : Submitted cfg order w) (hagreed : w.Agreed) (hopens : Opens cfg w request expired first) :
    (w.opened first).Agreed := by
  change (first :: w.durable).Pairwise Agree
  rcases h.takesUp hopens with hnone | ⟨base, hhead, hsame⟩
  · refine List.pairwise_cons.mpr ⟨fun old _ p _ q hq => ?_, hagreed⟩
    rw [hnone] at hq
    cases hq
  · refine h.agree hagreed hhead fun q hq _ => ?_
    rw [hsame] at hq
    exact ⟨q, hq, rfl, KeepsCommand.refl q⟩

/-- What has been submitted was recorded before, and what is about to be is recorded. -/
structure Attests (w : World) (tasks : List Task) : Prop where
  attested : Attested w.trace
  outgoing : ∀ x ∈ outgoing tasks, Noted w.trace x.2

theorem Attests.extends (h : Attests w tasks) (hw : World.Extends cfg w w') : Attests w' tasks := by
  obtain ⟨hattested, hsub⟩ := h.attested.extends hw
  exact ⟨hattested, fun x hx => (h.outgoing x hx).mono hsub⟩

theorem Attests.congr {tasks' : List Task} (h : Attests w tasks)
    (hsame : tasks'.filter Task.isSubmit = tasks.filter Task.isSubmit) : Attests w tasks' := by
  refine ⟨h.attested, ?_⟩
  rw [← outgoing_filter, hsame, outgoing_filter]
  exact h.outgoing

private theorem outgoing_mem {x : Bool × SessionCommand} :
    x ∈ outgoing tasks ↔ ∃ batch, Task.submit x.1 batch ∈ tasks ∧ x.2 ∈ batch := by
  unfold outgoing
  rw [List.mem_flatMap]
  constructor
  · rintro ⟨task, htask, hx⟩
    cases task with
    | submit projection batch =>
      obtain ⟨command, hcommand, rfl⟩ := List.mem_map.mp hx
      exact ⟨batch, htask, hcommand⟩
    | _ => cases hx
  · rintro ⟨batch, htask, hx⟩
    exact ⟨_, htask, List.mem_map.mpr ⟨x.2, hx, rfl⟩⟩

private theorem Submission.noted {control : SessionControl} {first : PendingCommand}
    {commands : List PendingCommand} {batch : List SessionCommand}
    (h : Submission cfg e control first commands batch) (hsound : e.Sound)
    (hnodup : (e.current.active.commands.map PendingCommand.id).Nodup) {s : SessionCommand}
    (hs : s ∈ batch) : Noted e.world.trace s := by
  have hpending : ∀ p ∈ first :: commands, p ∈ e.current.active.commands := fun p hp =>
    List.mem_of_mem_filter ((h.initial hnodup).subset hp)
  have hbodies := h.bodies
  have hfound : ∃ p ∈ first :: commands, s.id = p.id ∧ e.commandBody p.intent = .ok s.body := by
    clear h hpending
    generalize first :: commands = all at hbodies
    induction hbodies with
    | nil => cases hs
    | @cons p s' _ _ hsame _ ih =>
      rcases List.mem_cons.mp hs with rfl | hs
      · exact ⟨p, List.mem_cons_self, hsame⟩
      · obtain ⟨q, hq, hfound⟩ := ih hs
        exact ⟨q, List.mem_cons_of_mem _ hq, hfound⟩
  obtain ⟨p, hp, hid, hbody⟩ := hfound
  obtain ⟨x, hx, hcommitted⟩ := List.mem_filterMap.mp hsound.durable
  refine ⟨e.current, ?_, p, hpending p hp, hid.symm, commandBody_embodies hbody⟩
  cases x with
  | committed c =>
    cases hcommitted
    exact hx
  | _ => cases hcommitted

theorem Attests.move (h : Attests e.world e.tasks) (hsound : e.Sound)
    (hnodup : (e.current.active.commands.map PendingCommand.id).Nodup)
    (hmove : Move cfg cause e e') : Attests e'.world e'.tasks := by
  have hextends := h.extends (hmove.extends hsound.head hsound.valid)
  cases hmove.hands with
  | kept htasks _ _ _ => exact hextends.congr htasks
  | done _ htasks _ _ => exact hextends.congr (by rw [htasks])
  | batch _ _ htasks _ _ => exact hextends.congr (by rw [htasks])
  | @submit control first commands batch hsubmission he =>
    subst he
    refine ⟨h.attested, fun x hx => ?_⟩
    obtain ⟨batch', htask, hin⟩ := outgoing_mem.mp hx
    rcases List.mem_append.mp htask with htask | htask
    · exact h.outgoing x (outgoing_mem.mpr ⟨batch', htask, hin⟩)
    · obtain ⟨-, rfl⟩ := Task.submit.inj (List.mem_singleton.mp htask)
      exact hsubmission.noted hsound hnodup hin

theorem Attests.step {index : Nat} {task : Task} {step : TaskStep} (h : Attests e.world e.tasks)
    (htask : e.tasks[index]? = some task) (hperforms : Performs task step) :
    Attests (e.taskStepped index step).world (e.taskStepped index step).tasks := by
  have hmem : task ∈ e.tasks := List.mem_of_getElem? htask
  have hstepped : (e.taskStepped index step).tasks = stepped index step.remaining e.tasks := rfl
  have hnext : ∀ {projection : Bool} {command : SessionCommand} {rest : List SessionCommand},
      task = .submit projection (command :: rest) →
      step.effects = [.submitted projection command] →
      (∀ batch, step.remaining = some (.submit projection batch) → batch = rest) →
      (∀ task', step.remaining = some task' → ∃ batch, task' = .submit projection batch) →
        Attests (e.taskStepped index step).world (e.taskStepped index step).tasks := by
    intro projection command rest hsubmit heffects hrest hkind
    subst hsubmit
    have hnoted : ∀ s ∈ command :: rest, Noted e.world.trace s := fun s hs =>
      h.outgoing (projection, s) (outgoing_mem.mpr ⟨_, hmem, hs⟩)
    have htrace : (e.taskStepped index step).world.trace =
        .submitted projection command :: e.world.trace := by
      change step.effects ++ e.world.trace = _
      rw [heffects]
      rfl
    have hsub : ∀ x ∈ e.world.trace, x ∈ (e.taskStepped index step).world.trace := by
      rw [htrace]
      exact fun x hx => List.mem_cons_of_mem _ hx
    refine ⟨?_, fun x hx => ?_⟩
    · rw [htrace]
      refine h.attested.cons fun projection' command' hsame => ?_
      cases hsame
      exact hnoted command List.mem_cons_self
    · obtain ⟨batch, hin, hx⟩ := outgoing_mem.mp hx
      rw [hstepped] at hin
      simp only [stepped, List.mem_append, Option.mem_toList] at hin
      refine Noted.mono ?_ hsub
      rcases hin with (hin | hin) | hin
      · exact h.outgoing x (outgoing_mem.mpr ⟨batch, List.mem_of_mem_take hin, hx⟩)
      · obtain ⟨batch', hsame⟩ := hkind _ hin
        cases hsame
        rw [hrest _ hin] at hx
        exact hnoted _ (List.mem_cons_of_mem _ hx)
      · exact h.outgoing x (outgoing_mem.mpr ⟨batch, List.mem_of_mem_drop hin, hx⟩)
  cases hperforms with
  | other hother hsilent hremaining _ =>
    have hsub : ∀ x ∈ e.world.trace, x ∈ (e.taskStepped index step).world.trace :=
      fun x hx => List.mem_append_right _ hx
    refine ⟨h.attested.silent hsilent, ?_⟩
    rw [← outgoing_filter, hstepped, stepped_other htask hother hremaining, outgoing_filter]
    exact fun x hx => (h.outgoing x hx).mono hsub
  | more hsubmit heffects hremaining _ =>
    refine hnext hsubmit heffects (fun batch hsame => ?_) fun task' hsame => ?_
    · rw [hremaining] at hsame
      cases hsame
      rfl
    · rw [hremaining] at hsame
      cases hsame
      exact ⟨_, rfl⟩
  | last hsubmit heffects hremaining _ =>
    refine hnext hsubmit heffects (fun batch hsame => ?_) fun task' hsame => ?_
    · rw [hremaining] at hsame
      cases hsame
    · rw [hremaining] at hsame
      cases hsame

theorem Attests.runTask (h : Attests e.world e.tasks) (index : Nat) (event : TaskEvent) :
    Attests (e.runTask cfg index event).world (e.runTask cfg index event).tasks := by
  rcases Engine.runTask_cases cfg index event e with hsame | ⟨task, step, htask, hstep, hstepped⟩
  · rw [hsame]
    exact h
  · rw [hstepped]
    exact h.step htask (taskStep_performs hstep)

structure Point.Attests (p : Point) : Prop where
  commands : Kernel.Attests p.world p.tasks
  agreed : p.world.Agreed

theorem Attests.opened {request : Request} {expired : Bool} {first : Checkpoint}
    (h : Attests w []) (_ : Opens cfg w request expired first) : Attests (w.opened first) [] := by
  refine ⟨?_, fun x hx => by cases hx⟩
  change Attested (.committed first :: w.trace)
  exact h.attested.cons fun _ _ hsame => by cases hsame

theorem Reached.attests {p : Point} (hp : Reached cfg p) : p.Attests := by
  refine hp.rule (I := Point.Attests) ?_ fun p p' hreached h hstep => ?_
  · refine ⟨⟨fun newer older projection command htrace => ?_, fun x hx => by cases hx⟩, .nil⟩
    cases newer <;> cases htrace
  · have hdelivers := hreached.delivers
    cases hstep with
    | wait hw =>
      obtain ⟨order, hsubmitted⟩ := hdelivers
      have hextends : World.Extends cfg _ _ := .counted hw
      exact ⟨h.commands.extends hextends, hsubmitted.agreed h.agreed hextends⟩
    | lost hopens =>
      obtain ⟨order, hsubmitted⟩ := hdelivers
      exact ⟨h.commands.opened hopens, hsubmitted.openedAgreed h.agreed hopens⟩
    | boot hopens =>
      obtain ⟨order, hsubmitted⟩ := hdelivers
      exact ⟨h.commands.opened hopens, hsubmitted.openedAgreed h.agreed hopens⟩
    | turn _ hturn =>
      obtain ⟨order, hconducted⟩ := hdelivers
      have hsound := hreached.sound
      have hnodup := hconducted.submitted.nodup.sublist
        (hconducted.submitted.logged hsound.head).items
      cases hturn with
      | move hmove =>
        exact ⟨h.commands.move hsound hnodup hmove,
          hconducted.submitted.agreed h.agreed (hmove.extends hsound.head hsound.valid)⟩
      | take _ _ => exact ⟨h.commands, h.agreed⟩
      | drop _ _ => exact ⟨h.commands, h.agreed⟩
    | task =>
      refine ⟨h.commands.runTask _ _, ?_⟩
      unfold World.Agreed Point.world
      rw [(Engine.runTask_durable cfg _ _ _).1]
      exact h.agreed
    | lateTask =>
      refine ⟨h.commands.runTask _ _, ?_⟩
      unfold World.Agreed Point.world
      rw [(Engine.runTask_durable cfg _ _ _).1]
      exact h.agreed
    | fail _ hfault =>
      obtain ⟨order, hconducted⟩ := hdelivers
      have hsound := hreached.sound
      obtain ⟨w, hfirst, hsecond, htasks⟩ := hfault.extends hsound.head hsound.valid
      obtain ⟨_, hsubmitted, -⟩ := hconducted.submitted.extends hfirst
      have hagreed := hconducted.submitted.agreed h.agreed hfirst
      refine ⟨?_, hsubmitted.agreed hagreed hsecond⟩
      refine Attests.congr ((h.commands.extends hfirst).extends hsecond) ?_
      exact congrArg (List.filter Task.isSubmit) htasks
    | packet => exact ⟨h.commands, h.agreed⟩
    | latePacket => exact ⟨h.commands, h.agreed⟩
    | finish => exact ⟨h.commands, h.agreed⟩
    | crash => exact ⟨⟨h.commands.attested, fun x hx => by cases hx⟩, h.agreed⟩
    | exit => exact ⟨⟨h.commands.attested, fun x hx => by cases hx⟩, h.agreed⟩

def SameIntents (c d : Checkpoint) : Prop :=
  ∀ p ∈ c.active.commands, ∀ q ∈ d.active.commands, q.id = p.id → q.intent = p.intent

private theorem Reached.sameIntents {p : Point} (hp : Reached cfg p) :
    ∀ c ∈ p.world.durable, ∀ d ∈ p.world.durable, SameIntents c d := by
  obtain ⟨-, order, hnodup, houtboxes, -⟩ := hp.inOrder
  have hsymmetric : Std.Symm SameIntents := ⟨fun c d h p hp q hq hsame =>
    (h q hq p hp hsame.symm).symm⟩
  have hrefl : ∀ c ∈ p.world.durable, SameIntents c c := by
    intro c hc p hp q hq hsame
    exact (Agree.refl (hnodup.sublist (houtboxes c hc)) p hp q hq hsame).1
  have hpairs : p.world.durable.Pairwise SameIntents :=
    hp.attests.agreed.imp fun h p hp q hq hsame => (h q hq p hp hsame.symm).1.symm
  exact fun c hc d hd => hpairs.forall_of_forall hrefl hc hd

private theorem reachable_noted {s : System} (hs : Reachable cfg s) :
    Attested s.world.trace ∧
      ∀ c ∈ s.world.durable, ∀ d ∈ s.world.durable, SameIntents c d :=
  reachable_world
    (I := fun w => Attested w.trace ∧ ∀ c ∈ w.durable, ∀ d ∈ w.durable, SameIntents c d)
    (fun _ hp => ⟨hp.attests.commands.attested, hp.sameIntents⟩) hs

/-- What the model's session is asked is what is durable: when a command is submitted, a
checkpoint written before has it pending and its body follows from that checkpoint; and every
outbox that ever has a command of that identity has it with the same intent. -/
theorem submissions_recorded {s : System} (hs : Reachable cfg s) {newer older : List Effect}
    {projection : Bool} {command : SessionCommand}
    (htrace : s.world.trace = newer ++ .submitted projection command :: older) :
    ∃ c, Effect.committed c ∈ older ∧ ∃ p ∈ c.active.commands, p.id = command.id ∧
      Embodies c p.intent command.body ∧
      ∀ d ∈ s.world.durable, ∀ q ∈ d.active.commands, q.id = command.id → q.intent = p.intent := by
  obtain ⟨hattested, hsame⟩ := reachable_noted hs
  obtain ⟨c, hc, p, hp, hid, hbody⟩ := hattested newer older projection command htrace
  have hdurable : c ∈ s.world.durable := by
    refine List.mem_filterMap.mpr ⟨.committed c, ?_, rfl⟩
    rw [htrace]
    exact List.mem_append_right _ (List.mem_cons_of_mem _ hc)
  refine ⟨c, hc, p, hp, hid, hbody, fun d hd q hq hids => ?_⟩
  exact hsame c hdurable d hd p hp q hq (hids.trans hid.symm)

def Effect.isSubmission : Effect → Bool
  | .submitted _ _ => true
  | _ => false

/-- The first generation request of a run is recorded before it is submitted. -/
theorem submissions_recorded_sample :
    ∃ (command : SessionCommand) (older : List Effect), ∃ c, Effect.committed c ∈ older ∧
      ∃ p ∈ c.active.commands, p.id = command.id ∧ Embodies c p.intent command.body ∧
        ∀ d ∈ (sampleRun (sampleOpening (sampleOptions sampleLimits))).world.durable,
          ∀ q ∈ d.active.commands, q.id = command.id → q.intent = p.intent := by
  have hany : (sampleRun (sampleOpening (sampleOptions sampleLimits))).world.trace.any
      Effect.isSubmission = true := by decide +kernel
  obtain ⟨x, hx, hsubmission⟩ := List.any_eq_true.mp hany
  obtain ⟨newer, older, htrace⟩ := List.append_of_mem hx
  cases x with
  | submitted projection command =>
    exact ⟨command, older, submissions_recorded ⟨_, rfl⟩ htrace⟩
  | _ => cases hsubmission

end Zhir.Kernel
