import Zhir.Kernel.Submissions

/-!
Submission of commands: at most once where it matters, never before the durable mark, and in
the order of the outbox.
-/

set_option autoImplicit false
set_option relaxedAutoImplicit false

namespace Zhir.Kernel

open Zhir.Core
open Zhir.Library (Queue)

variable {cfg : Config} {order : List String} {w : World} {e e' : Engine} {cause : Cause}

/-- The outbox is worked through from its beginning: `past` is as far as it has come, and what
still waits of it has been submitted. -/
structure Caught (order : List String) (e : Engine) : Prop where
  reached : ∃ past future, order = past ++ future ∧ (handed e.world e.tasks).Sublist past ∧
    ∀ q ∈ e.current.active.commands, q.id ∈ past → q.id ∈ e.sent
  answered : ∀ q ∈ e.current.active.commands, q.id ∈ boundaryIds e.world.trace → q.id ∈ e.sent

variable (cfg) in
structure Conducted (order : List String) (e : Engine) : Prop where
  submitted : Submitted cfg order e.world
  underway : Underway order e.world e.tasks
  conveyed : Conveyed e
  caught : Caught order e

theorem Caught.kept {added : List String} (h : Caught order e)
    (hknown : ∀ id ∈ boundaryIds e.world.trace, id ∈ order)
    (hgrown : Grown order e.world e'.world) (hhead : e.world.head = some e.current)
    (hhead' : e'.world.head = some e'.current)
    (htasks : e'.tasks.filter Task.isSubmit = e.tasks.filter Task.isSubmit)
    (hsent : ∀ q ∈ e'.current.active.commands, q.id ∈ e.sent → q.id ∈ e'.sent) :
    Caught (order ++ added) e' := by
  have hcarries := hgrown.carries _ _ hhead hhead'
  have hhanded : handed e'.world e'.tasks = handed e.world e.tasks := by
    unfold handed
    rw [hgrown.submissions, ← outgoing_filter, htasks, outgoing_filter]
  refine ⟨?_, ?_⟩
  · obtain ⟨past, future, rfl, hpast, hreached⟩ := h.reached
    refine ⟨past, future ++ added, List.append_assoc _ _ _, ?_, fun q hq hid => ?_⟩
    · rw [hhanded]
      exact hpast
    · obtain ⟨p, hp, hsame, -⟩ := hcarries q hq (List.mem_append_left _ hid)
      refine hsent q hq ?_
      rw [← hsame]
      exact hreached p hp (hsame ▸ hid)
  · intro q hq hid
    rw [hgrown.boundary] at hid
    obtain ⟨p, hp, hsame, -⟩ := hcarries q hq (hknown _ hid)
    refine hsent q hq ?_
    rw [← hsame]
    exact h.answered p hp (hsame ▸ hid)

theorem Caught.step {index : Nat} {task : Task} {step : TaskStep} (h : Caught order e)
    (hs : Submitted cfg order e.world) (hu : Underway order e.world e.tasks)
    (htask : e.tasks[index]? = some task) (hperforms : Performs task step) :
    Caught order (e.taskStepped index step) := by
  obtain ⟨-, -, hhanded, hboundary⟩ := hu.step hs htask hperforms
  obtain ⟨past, future, horder, hpast, hreached⟩ := h.reached
  refine ⟨⟨past, future, horder, hhanded.trans hpast, hreached⟩, fun q hq hid => ?_⟩
  rcases hboundary _ hid with hid | hid
  · exact h.answered q hq hid
  · exact hreached q hq (hpast.subset hid)

theorem isGenerate_body {intent : CommandIntent} {body : SessionCommandBody}
    (h : e.commandBody intent = .ok body) : isGenerateBody body = intent.isGenerate := by
  unfold Engine.commandBody at h
  split at h
  · split at h
    · cases h
    · cases h
      rfl
  · cases h
    rfl
  · split at h
    · cases h
    · cases h
      rfl
  all_goals
    cases h
    rfl

theorem Submission.initial {control : SessionControl} {first : PendingCommand}
    {commands : List PendingCommand} {batch : List SessionCommand}
    (h : Submission cfg e control first commands batch)
    (hnodup : (e.current.active.commands.map PendingCommand.id).Nodup) :
    first :: commands <+: e.unsent := by
  obtain ⟨rest, hrest⟩ : ∃ rest, e.unsent = first :: rest := by
    have hhead := h.head
    cases hunsent : e.unsent with
    | nil =>
      rw [hunsent] at hhead
      cases hhead
    | cons c rest =>
      rw [hunsent] at hhead
      cases hhead
      exact ⟨rest, rfl⟩
  have hunsent : (e.unsent.map PendingCommand.id).Nodup :=
    hnodup.sublist (List.filter_sublist.map _)
  rw [hrest, List.map_cons, List.nodup_cons] at hunsent
  have hfilter : e.unsent.filter (fun c => c.id ≠ first.id) = rest := by
    rw [hrest, List.filter_cons_of_neg (by simp)]
    refine List.filter_eq_self.mpr fun c hc => ?_
    refine decide_eq_true fun hsame => hunsent.1 ?_
    rw [← hsame]
    exact List.mem_map_of_mem hc
  have horder := h.order
  rw [hfilter] at horder
  rw [hrest]
  exact List.cons_prefix_cons.mpr ⟨rfl, horder⟩

theorem Submission.ids {control : SessionControl} {first : PendingCommand}
    {commands : List PendingCommand} {batch : List SessionCommand}
    (h : Submission cfg e control first commands batch) :
    batch.map SessionCommand.id = (first :: commands).map PendingCommand.id := by
  have hbodies := h.bodies
  clear h
  generalize first :: commands = all at hbodies
  induction hbodies with
  | nil => rfl
  | cons hsame _ ih => rw [List.map_cons, List.map_cons, ih, hsame.1]

theorem Submission.origin {control : SessionControl} {first : PendingCommand}
    {commands : List PendingCommand} {batch : List SessionCommand}
    (h : Submission cfg e control first commands batch) {s : SessionCommand} (hs : s ∈ batch) :
    ∃ c ∈ first :: commands, s.id = c.id ∧ isGenerateBody s.body = c.intent.isGenerate := by
  have hbodies := h.bodies
  clear h
  generalize first :: commands = all at hbodies
  induction hbodies with
  | nil => cases hs
  | cons hsame _ ih =>
    rcases List.mem_cons.mp hs with rfl | hs
    · exact ⟨_, List.mem_cons_self, hsame.1, isGenerate_body hsame.2⟩
    · obtain ⟨c, hc, hfound⟩ := ih hs
      exact ⟨c, List.mem_cons_of_mem _ hc, hfound⟩

theorem Submission.boundary {control : SessionControl} {first : PendingCommand}
    {commands : List PendingCommand} {batch : List SessionCommand}
    (h : Submission cfg e control first commands batch) {s : SessionCommand} (hs : s ∈ batch)
    (hneeds : needsBoundary control.projection s = true) : s.id = first.id ∧ first.sent = true := by
  obtain ⟨c, hc, hid, hgenerate⟩ := h.origin hs
  have hdurable : durableSend control c = true := by
    unfold needsBoundary at hneeds
    unfold durableSend
    rw [hgenerate, Bool.or_comm] at hneeds
    exact hneeds
  rcases List.mem_cons.mp hc with rfl | hc
  · exact ⟨hid, h.marked hdurable⟩
  · have hnot := (h.local_rest (List.ne_nil_of_mem hc)).2 c hc
    rw [hdurable] at hnot
    cases hnot

theorem Caught.advance {control : SessionControl} {first : PendingCommand}
    {commands : List PendingCommand} {batch : List SessionCommand} (h : Caught order e)
    (hnodup : order.Nodup) (hout : (e.current.active.commands.map PendingCommand.id).Sublist order)
    (hsubmission : Submission cfg e control first commands batch) :
    ∃ past future, order = past ++ future ∧
      (handed e.world e.tasks ++ batch.map SessionCommand.id).Sublist past ∧
      ∀ q ∈ e.current.active.commands, q.id ∈ past →
        q.id ∈ batch.map SessionCommand.id ++ e.sent := by
  obtain ⟨past, future, rfl, hpast, hreached⟩ := h.reached
  obtain ⟨ids₁, ids₂, hids, hsub₁, hsub₂⟩ := List.sublist_append_iff.mp hout
  obtain ⟨old, new, hcommands, rfl, rfl⟩ := List.map_eq_append_iff.mp hids
  have hold : old.filter (fun c => decide (c.id ∉ e.sent)) = [] := by
    refine List.filter_eq_nil_iff.mpr fun c hc => ?_
    have hmem : c ∈ e.current.active.commands := by
      rw [hcommands]
      exact List.mem_append_left _ hc
    have hsent := hreached c hmem (hsub₁.subset (List.mem_map_of_mem hc))
    simpa using hsent
  have hunsent : e.unsent = new.filter fun c => decide (c.id ∉ e.sent) := by
    unfold Engine.unsent
    rw [hcommands, List.filter_append, hold, List.nil_append]
  obtain ⟨later, hprefix⟩ := hsubmission.initial (hnodup.sublist hout)
  rw [hunsent] at hprefix
  obtain ⟨taken, left, rfl, htaken, -⟩ := List.filter_eq_append_iff.mp hprefix.symm
  rw [List.map_append] at hsub₂
  obtain ⟨reached, beyond, rfl, hsub₃, hsub₄⟩ := List.append_sublist_iff.mp hsub₂
  refine ⟨past ++ reached, beyond, (List.append_assoc _ _ _).symm, ?_, fun q hq hid => ?_⟩
  · refine List.Sublist.append hpast ?_
    rw [hsubmission.ids, ← htaken]
    exact (List.filter_sublist.map _).trans hsub₃
  · rw [hcommands] at hq
    rcases List.mem_append.mp hq with hq | hq
    · have hmem : q ∈ e.current.active.commands := by
        rw [hcommands]
        exact List.mem_append_left _ hq
      exact List.mem_append_right _ (hreached q hmem (hsub₁.subset (List.mem_map_of_mem hq)))
    · rcases List.mem_append.mp hq with hq | hq
      · by_cases hsent : q.id ∈ e.sent
        · exact List.mem_append_right _ hsent
        · refine List.mem_append_left _ ?_
          rw [hsubmission.ids, ← htaken]
          exact List.mem_map_of_mem (List.mem_filter.mpr ⟨hq, by simpa using hsent⟩)
      · have hbeyond : q.id ∈ beyond := hsub₄.subset (List.mem_map_of_mem hq)
        rw [← List.append_assoc] at hnodup
        exact absurd rfl ((List.nodup_append.mp hnodup).2.2 _ hid _ hbeyond)

theorem Conducted.submit {control : SessionControl} {first : PendingCommand}
    {commands : List PendingCommand} {batch : List SessionCommand} (h : Conducted cfg order e)
    (hsound : e.Sound) (hsubmission : Submission cfg e control first commands batch) :
    Underway order e.world (e.tasks ++ [.submit control.projection batch]) ∧
      Caught order (e.submit control.projection batch) := by
  have hlogged := h.submitted.logged hsound.head
  obtain ⟨past, future, horder, hpast, hreached⟩ :=
    h.caught.advance h.submitted.nodup hlogged.items hsubmission
  have hnone := (h.conveyed.idle hsubmission.idle).1
  have hidle : outgoing e.tasks = [] := by
    rw [← outgoing_filter, hnone]
    rfl
  have hnow : outgoing (e.tasks ++ [.submit control.projection batch]) =
      batch.map fun command => (control.projection, command) := by
    unfold outgoing at hidle ⊢
    rw [List.flatMap_append, hidle, List.nil_append]
    exact outgoing_single control.projection batch
  have hmap : (batch.map fun command => (control.projection, command)).map Prod.snd = batch := by
    rw [List.map_map]
    exact List.map_id batch
  have hhanded : handed e.world (e.tasks ++ [.submit control.projection batch]) =
      handed e.world e.tasks ++ batch.map SessionCommand.id := by
    unfold handed
    rw [hnow, hmap, hidle, List.map_nil, List.append_nil, List.map_append]
  have hsplit : order.Nodup := h.submitted.nodup
  refine ⟨⟨?_, ?_, ?_, ?_, ?_⟩, ⟨⟨past, future, horder, ?_, hreached⟩, ?_⟩⟩
  · rw [List.filter_append, hnone]
    exact Nat.le_refl 1
  · change (handed e.world (e.tasks ++ [.submit control.projection batch])).Sublist order
    rw [hhanded, horder]
    exact hpast.trans (List.sublist_append_left _ _)
  · rw [hnow]
    intro x hx hid
    obtain ⟨s, hs, rfl⟩ := List.mem_map.mp hx
    have hprefix := hsubmission.initial (hsplit.sublist hlogged.items)
    obtain ⟨c, hc, hsame, -⟩ := hsubmission.origin hs
    have hunsent := hprefix.subset hc
    unfold Engine.unsent at hunsent
    obtain ⟨hmem, hnot⟩ := List.mem_filter.mp hunsent
    change s.id ∈ boundaryIds e.world.trace at hid
    rw [hsame] at hid
    exact of_decide_eq_true hnot (h.caught.answered c hmem hid)
  · rw [hnow]
    intro x hx hneeds
    obtain ⟨s, hs, rfl⟩ := List.mem_map.mp hx
    obtain ⟨hsame, hsent⟩ := hsubmission.boundary hs hneeds
    have hmem : first ∈ e.current.active.commands :=
      List.mem_of_mem_filter (List.mem_of_head? hsubmission.head)
    obtain ⟨x, hx, hcommitted⟩ := List.mem_filterMap.mp hsound.durable
    refine ⟨e.current, ?_, first, hmem, hsame.symm, hsent⟩
    cases x with
    | committed c =>
      cases hcommitted
      exact hx
    | _ => cases hcommitted
  · rw [hnow]
    intro x hx hneeds c hc p hp hid
    obtain ⟨s, hs, rfl⟩ := List.mem_map.mp hx
    obtain ⟨hsame, hsent⟩ := hsubmission.boundary hs hneeds
    rw [hsound.head] at hc
    cases hc
    have hmem : first ∈ e.current.active.commands :=
      List.mem_of_mem_filter (List.mem_of_head? hsubmission.head)
    rw [hlogged.key_injective hp hmem (hid.trans hsame)]
    exact hsent
  · change (handed e.world (e.tasks ++ [.submit control.projection batch])).Sublist past
    rw [hhanded]
    exact hpast
  · intro q hq hid
    exact List.mem_append_right _ (h.caught.answered q hq hid)

theorem Conducted.move (h : Conducted cfg order e) (hsound : e.Sound) (hsound' : e'.Sound)
    (hmove : Move cfg cause e e') : ∃ order', Conducted cfg order' e' := by
  have hlogged := h.submitted.logged hsound.head
  obtain ⟨added, hsubmitted, hgrown⟩ := h.submitted.extends (hmove.extends hsound.head hsound.valid)
  have hconveyed := h.conveyed.move hmove
  have hhead : e'.world.head.isSome = true → e.world.head.isSome = true := by
    intro _
    rw [hsound.head]
    rfl
  have hunderway := h.underway.extends added hgrown hhead
  have hkept : e'.tasks.filter Task.isSubmit = e.tasks.filter Task.isSubmit →
      (∀ q ∈ e'.current.active.commands, q.id ∈ e.sent → q.id ∈ e'.sent) →
        ∃ order', Conducted cfg order' e' := by
    intro htasks hsent
    refine ⟨order ++ added, hsubmitted, hunderway.congr htasks, hconveyed, ?_⟩
    exact h.caught.kept h.submitted.known hgrown hsound.head hsound'.head htasks hsent
  cases hmove.hands with
  | kept htasks _ hsent _ => exact hkept htasks fun q _ hq => hsent ▸ hq
  | done _ htasks hsent _ => exact hkept (by rw [htasks]) fun q _ hq => hsent ▸ hq
  | batch habsent hsent htasks _ _ =>
    refine hkept (by rw [htasks]) fun q hq hold => ?_
    rw [hsent]
    refine List.mem_filter.mpr ⟨hold, decide_eq_true fun hanswered => ?_⟩
    exact habsent order hlogged q.id hanswered (List.mem_map_of_mem hq)
  | submit hsubmission he =>
    subst he
    obtain ⟨hunderway, hcaught⟩ := h.submit hsound hsubmission
    exact ⟨order, h.submitted, hunderway, hconveyed, hcaught⟩

theorem Conducted.turn (h : Conducted cfg order e) (hsound : e.Sound)
    (hturn : Turn cfg cause e e') : ∃ order', Conducted cfg order' e' := by
  have hconveyed := h.conveyed.turn hturn
  cases hturn with
  | move hmove => exact h.move hsound ((Turn.move hmove).sound hsound) hmove
  | take _ _ =>
    exact ⟨order, h.submitted, h.underway, hconveyed, ⟨h.caught.reached, h.caught.answered⟩⟩
  | drop _ _ =>
    exact ⟨order, h.submitted, h.underway, hconveyed, ⟨h.caught.reached, h.caught.answered⟩⟩

theorem Conducted.runTask (h : Conducted cfg order e) (index : Nat) (event : TaskEvent) :
    Conducted cfg order (e.runTask cfg index event) := by
  rcases Engine.runTask_cases cfg index event e with hsame | ⟨task, step, htask, hstep, hstepped⟩
  · rw [hsame]
    exact h
  · rw [hstepped]
    have hperforms := taskStep_performs hstep
    obtain ⟨hsubmitted, hunderway, -, -⟩ := h.underway.step h.submitted htask hperforms
    exact ⟨hsubmitted, hunderway, h.conveyed.step h.underway htask hperforms,
      h.caught.step h.submitted h.underway htask hperforms⟩

theorem Submitted.boot {request : Request} {expired : Bool} {first : Checkpoint}
    (h : Submitted cfg order w) (hopens : Opens cfg w request expired first) :
    Conducted cfg order (Engine.boot (w.opened first) first) := by
  obtain ⟨hsubmitted, hmarked⟩ := h.opened hopens
  have hsub : submissions (w.opened first).trace = [] := if_pos hopens.fact
  have hhanded : handed (w.opened first) [] = [] := by
    unfold handed
    rw [hsub]
    rfl
  have hnone : outgoing [] = [] := rfl
  refine ⟨hsubmitted, ⟨Nat.zero_le 1, ?_, ?_, ?_, ?_⟩, ⟨?_, Nat.zero_le 1⟩, ⟨?_, ?_⟩⟩
  · change (handed (w.opened first) []).Sublist order
    rw [hhanded]
    exact List.nil_sublist _
  · exact fun x hx => by cases hx
  · exact fun x hx => by cases hx
  · exact fun x hx => by cases hx
  · exact fun _ => ⟨rfl, fun work hwork => by cases hwork⟩
  · refine ⟨[], order, rfl, ?_, fun q _ hq => by cases hq⟩
    change (handed (w.opened first) []).Sublist []
    rw [hhanded]
  · intro q hq hid
    exact List.mem_map_of_mem (List.mem_filter.mpr ⟨hq, hmarked q hq hid⟩)

theorem Submitted.start (cfg : Config) : Submitted cfg [] .start where
  nodup := List.nodup_nil
  named id hid := absurd hid List.not_mem_nil
  outboxes c hc := absurd hc List.not_mem_nil
  inOrder := List.nil_sublist _
  once newer older projection command htrace := by
    cases newer <;> cases htrace
  known id hid := absurd hid List.not_mem_nil
  marked c hc := by cases hc
  head := rfl
  numbered c hc := absurd hc List.not_mem_nil
  distinct := List.nodup_nil

def Delivers (cfg : Config) : Point → Prop
  | .idle w => ∃ order, Submitted cfg order w
  | .live _ e => ∃ order, Conducted cfg order e
  | .ended e => ∃ order, Submitted cfg order e.world ∧ Underway order e.world e.tasks

theorem Reached.delivers {p : Point} (hp : Reached cfg p) : Delivers cfg p := by
  refine hp.rule (I := Delivers cfg) ?_ fun p p' hreached h hstep => ?_
  · exact ⟨[], Submitted.start cfg⟩
  · cases hstep with
    | wait hw =>
      obtain ⟨order, h⟩ := h
      obtain ⟨added, hsubmitted, -⟩ := h.extends (.counted hw)
      exact ⟨_, hsubmitted⟩
    | lost hopens =>
      obtain ⟨order, h⟩ := h
      exact ⟨order, (h.opened hopens).1⟩
    | boot hopens =>
      obtain ⟨order, h⟩ := h
      exact ⟨order, h.boot hopens⟩
    | turn _ hturn =>
      obtain ⟨order, h⟩ := h
      exact h.turn hreached.sound hturn
    | task =>
      obtain ⟨order, h⟩ := h
      exact ⟨order, h.runTask _ _⟩
    | packet =>
      obtain ⟨order, h⟩ := h
      exact ⟨order, h.submitted, h.underway, ⟨h.conveyed.idle, h.conveyed.single⟩,
        ⟨h.caught.reached, h.caught.answered⟩⟩
    | @fail resolutions cause e e' error _ hfault =>
      obtain ⟨order, h⟩ := h
      have hsound := hreached.sound
      obtain ⟨w, hfirst, hsecond, htasks⟩ := hfault.extends hsound.head hsound.valid
      obtain ⟨added, hsubmitted, hgrown⟩ := h.submitted.extends hfirst
      have hunderway := h.underway.extends added hgrown fun _ => by rw [hsound.head]; rfl
      obtain ⟨added', hsubmitted', hgrown'⟩ := hsubmitted.extends hsecond
      refine ⟨_, hsubmitted', ?_⟩
      rw [htasks]
      refine hunderway.extends added' hgrown' fun _ => ?_
      exact hfirst.head_isSome (by rw [hsound.head]; rfl)
    | finish =>
      obtain ⟨order, h⟩ := h
      exact ⟨order, h.submitted, h.underway⟩
    | @lateTask e index event =>
      obtain ⟨order, hsubmitted, hunderway⟩ := h
      rcases Engine.runTask_cases cfg index event e with
        hsame | ⟨task, step, htask, hstep, hstepped⟩
      · change ∃ order, Submitted cfg order (e.runTask cfg index event).world ∧ _
        rw [hsame]
        exact ⟨order, hsubmitted, hunderway⟩
      · change ∃ order, Submitted cfg order (e.runTask cfg index event).world ∧ _
        rw [hstepped]
        obtain ⟨hsubmitted', hunderway', -, -⟩ :=
          hunderway.step hsubmitted htask (taskStep_performs hstep)
        exact ⟨order, hsubmitted', hunderway'⟩
    | latePacket => exact h
    | crash =>
      obtain ⟨order, h⟩ := h
      exact ⟨order, h.submitted⟩
    | exit =>
      obtain ⟨order, h, -⟩ := h
      exact ⟨order, h⟩

/-- Submissions happen once where it matters, and follow the outboxes in one order. -/
def InOrder (w : World) : Prop :=
  SubmittedOnce w.trace ∧
    ∃ order : List String, order.Nodup ∧
      (∀ c ∈ w.durable, (c.active.commands.map PendingCommand.id).Sublist order) ∧
      ((submissions w.trace).reverse.map SessionCommand.id).Sublist order

theorem Reached.inOrder {p : Point} (hp : Reached cfg p) : InOrder p.world := by
  have hdelivers := hp.delivers
  obtain ⟨order, h⟩ : ∃ order, Submitted cfg order p.world := by
    cases p with
    | idle w => exact hdelivers
    | live resolutions e =>
      obtain ⟨order, h⟩ := hdelivers
      exact ⟨order, h.submitted⟩
    | ended e =>
      obtain ⟨order, h, -⟩ := hdelivers
      exact ⟨order, h⟩
  exact ⟨h.once, order, h.nodup, h.outboxes, h.inOrder⟩

/-- A command that needs its mark is submitted after the mark is durable, and never again, in
whatever execution. Every execution submits in the order of the outbox and nothing twice: one
order without repetition runs through every durable outbox and through the submissions. -/
theorem commands_submitted_once {s : System} (hs : Reachable cfg s) :
    SubmittedOnce s.world.trace ∧
      ∃ order : List String, order.Nodup ∧
        (∀ c ∈ s.world.durable, (c.active.commands.map PendingCommand.id).Sublist order) ∧
        ((submissions s.world.trace).reverse.map SessionCommand.id).Sublist order := by
  have hordered : InOrder s.world := reachable_world (fun _ hp => Reached.inOrder hp) hs
  exact hordered

/-- The commands submitted in the whole life of a run, the first one first. -/
def submittedIds (trace : List Effect) : List String :=
  trace.reverse.filterMap fun
    | .submitted _ command => some command.id
    | _ => none

/-- Two generation requests are submitted, one before a crash and one after it, and appends
between them; the append that was pending at the crash is submitted again. -/
theorem generate_submitted_once :
    let s := sampleRun sampleRecovered
    submittedIds s.world.trace = [5, 11, 13, 13, 20, 21, 25, 33].map (sampleName 'i') ∧
      SubmittedOnce s.world.trace ∧
      ∃ order : List String, order.Nodup ∧
        (∀ c ∈ s.world.durable, (c.active.commands.map PendingCommand.id).Sublist order) ∧
        ((submissions s.world.trace).reverse.map SessionCommand.id).Sublist order := by
  intro s
  have hs : Reachable sampleConfig s := ⟨_, rfl⟩
  exact ⟨by decide +kernel, commands_submitted_once hs⟩

end Zhir.Kernel
