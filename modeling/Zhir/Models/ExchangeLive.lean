import Zhir.Models.Exchange

/-!
What holds of an exchange session while its task runs.
-/

set_option autoImplicit false
set_option relaxedAutoImplicit false

namespace Zhir.Models.Exchange

open Zhir.Core

namespace Session

/-- The events that have entered the channel, without their sequences. -/
def bodies (s : Session) : List Emitted := s.emitted.map Prod.snd

def pending (s : Session) : List Emitted := s.sending.toList ++ s.controls

/-- What is still to come of the response that is being sent. -/
def due (s : Session) : List Emitted := (s.finishing.map FinishEvents.remaining).getD []

section Fields

variable (s : Session) (e : Emitted) (t : Terminal)

@[simp] theorem bodies_push : (s.push e).bodies = s.bodies ++ [e] := List.map_append
@[simp] theorem pending_push : (s.push e).pending = s.pending := rfl
@[simp] theorem due_push : (s.push e).due = s.due := rfl
@[simp] theorem emitted_delivered : s.delivered.emitted = s.emitted := by
  unfold delivered
  cases s.emission <;> rfl

@[simp] theorem bodies_delivered : s.delivered.bodies = s.bodies := by
  unfold bodies
  rw [emitted_delivered]

@[simp] theorem pending_delivered : s.delivered.pending = s.controls := by
  unfold delivered
  cases s.emission <;> rfl

@[simp] theorem phase_delivered : s.delivered.phase = .top := by
  unfold delivered
  cases s.emission <;> rfl

@[simp] theorem task_delivered : s.delivered.task = s.task := by
  unfold delivered
  cases s.emission <;> rfl

@[simp] theorem closing_delivered : s.delivered.closing = s.closing := by
  unfold delivered
  cases s.emission <;> rfl

@[simp] theorem generations_delivered : s.delivered.generations = s.generations := by
  unfold delivered
  cases s.emission <;> rfl

@[simp] theorem sequence_delivered : s.delivered.sequence = s.sequence := by
  unfold delivered
  cases s.emission <;> rfl

@[simp] theorem sending_delivered : s.delivered.sending = none := by
  unfold delivered
  cases s.emission <;> rfl

private theorem finishing_delivered :
    s.delivered.finishing = if s.emission = .finish then none else s.finishing := by
  unfold delivered
  cases s.emission <;> rfl

private theorem generating_delivered :
    s.delivered.generating = if s.emission = .start then true else s.generating := by
  unfold delivered
  cases s.emission <;> rfl

theorem invoked_delivered :
    s.delivered.invoked = if s.emission = .start then
      s.invoked ++ s.task.active.toList.map Prod.fst else s.invoked := by
  unfold delivered
  cases s.emission <;> rfl

end Fields

end Session

def isClosed (e : Emitted) : Bool := e.body matches .closed _ _

def isDelta (e : Emitted) : Bool := e.body matches .delta _ _

/-- The events that belong to a generation: the acknowledgement of its command, its start, its
outputs and its end. -/
def ofGeneration (e : Emitted) : Bool :=
  e.answers.isSome || e.body matches .responseStarted _ _ | .output _ _ _ _ | .responseFinished _

/-- The events of a generation, as far as its exchange has come. -/
def Generation.events (g : Generation) : List Emitted :=
  [⟨.acknowledged g.commandId none, some g.generationId⟩,
    ⟨.responseStarted g.generationId g.inputPosition, none⟩] ++
  (g.response.map FinishEvents.remaining).getD []

private theorem FinishEvents.mem_remaining {f : FinishEvents} {e : Emitted} (h : e ∈ f.remaining) :
    ofGeneration e = true ∧ Session.isStarted e = false ∧ isClosed e = false ∧
      isDelta e = false := by
  rcases List.mem_append.mp h with h | h
  · obtain ⟨i, hi, rfl⟩ := List.mem_mapIdx.mp h
    exact ⟨rfl, rfl, rfl, rfl⟩
  · obtain ⟨c, -, rfl⟩ := List.mem_map.mp h
    exact ⟨rfl, rfl, rfl, rfl⟩

private theorem FinishEvents.remaining_of_next {f f' : FinishEvents} {e : Emitted}
    {emission : Emission}
    (h : f.next = some (e, emission, f')) :
    f.remaining = e :: f'.remaining ∧ emission.isControl = false ∧
      (emission = .finish → f'.remaining = []) := by
  obtain ⟨generationId, index, output, finished⟩ := f
  cases output with
  | cons o rest =>
    cases h
    refine ⟨?_, rfl, fun h => nomatch h⟩
    unfold FinishEvents.remaining
    simp only [List.mapIdx_cons, List.cons_append, Nat.add_zero, List.cons.injEq, true_and]
    congr 2
    funext i o
    rw [Nat.add_right_comm, Nat.add_assoc]
  | nil =>
    cases finished with
    | none => cases h
    | some completion =>
      cases h
      exact ⟨rfl, rfl, fun _ => rfl⟩

def startedEvent (generation : String × Nat) : Emitted :=
  ⟨.responseStarted generation.1 generation.2, none⟩

/-- The generation that runs is the last one, and all others have their response. -/
def Current (active : Option (String × Nat)) (generations : List Generation) : Prop :=
  match active with
  | none => ∀ g ∈ generations, g.response.isSome = true
  | some (generationId, inputPosition) =>
    ∃ init commandId, generations = init ++ [⟨generationId, inputPosition, commandId, none⟩] ∧
      ∀ g ∈ init, g.response.isSome = true

/-- The last event that a session has still to send is that it has closed. -/
def Closes (events : List Emitted) : Prop :=
  ∃ before e, events = before ++ [e] ∧ isClosed e = true ∧ ∀ e' ∈ before, isClosed e' = false

structure Live (revision : Nat) (s : Session) : Prop where
  start : ∀ e, s.sending = some e → (s.emission = .start ↔ Session.isStarted e = true)
  output : ∀ e, s.sending = some e → s.emission.isControl = false → s.finishing.isSome = true
  finish : ∀ e, s.sending = some e → s.emission = .finish → s.due = []
  busy : s.finishing.isSome = true → s.task.active = none
  generating : s.generating = true → s.task.active.isSome = true
  starts : s.pending.filter Session.isStarted =
    if s.generating then [] else s.task.active.toList.map startedEvent
  blocks : (s.bodies ++ s.pending ++ s.due).filter ofGeneration =
    s.generations.flatMap Generation.events
  current : Current s.task.active s.generations
  opened : s.closing = false → ∀ e ∈ s.bodies ++ s.pending, isClosed e = false
  closing : s.closing = true → s.finishing = none ∧ s.task.active = none ∧
    (s.pending = [] ∨ (∀ e ∈ s.bodies, isClosed e = false) ∧ Closes s.pending)
  ready : ∃ tail, s.bodies ++ s.pending = ⟨.ready revision, none⟩ :: tail
  quiet : ∀ e ∈ s.pending, isDelta e = false

section Invariants

variable {adapter : Adapter} {revision : Nat} {s s' : Session} {a : Action}

theorem Live.idle (h : Live revision s)
    (hguard : s.sending = none ∨ s.emission.isControl = false)
    (hbusy : (s.task.active.isSome || s.finishing.isSome) = false) :
    s.sending = none ∧ s.finishing = none ∧ s.task.active = none := by
  obtain ⟨hactive, hfinishing⟩ := Bool.or_eq_false_iff.mp hbusy
  refine ⟨?_, by simpa using hfinishing, by simpa using hactive⟩
  rcases hguard with hsending | hcontrol
  · exact hsending
  · cases hsending : s.sending with
    | none => rfl
    | some e =>
      have hsome := h.output e hsending hcontrol
      rw [hfinishing] at hsome
      cases hsome

theorem Live.starting {e : Emitted} (h : Live revision s) (hsending : s.sending = some e)
    (hstarted : Session.isStarted e = true) :
    s.generating = false ∧ ∃ generation, s.task.active = some generation ∧
      e = startedEvent generation ∧ s.controls.filter Session.isStarted = [] := by
  have hstarts := h.starts
  unfold Session.pending at hstarts
  rw [hsending, Option.toList_some, List.singleton_append, List.filter_cons_of_pos hstarted]
    at hstarts
  cases hgenerating : s.generating with
  | true =>
    rw [hgenerating] at hstarts
    cases hstarts
  | false =>
    rw [hgenerating] at hstarts
    cases hactive : s.task.active with
    | none =>
      rw [hactive] at hstarts
      cases hstarts
    | some generation =>
      rw [hactive] at hstarts
      obtain ⟨he, hrest⟩ := List.cons.inj hstarts
      exact ⟨rfl, generation, rfl, he, hrest⟩

theorem Live.open_of_pending {e : Emitted} (h : Live revision s) (he : e ∈ s.pending) :
    ∀ e' ∈ s.bodies, isClosed e' = false := by
  cases hclosing : s.closing with
  | false => exact fun e' he' => h.opened hclosing e' (List.mem_append_left _ he')
  | true =>
    rcases (h.closing hclosing).2.2 with hempty | ⟨hopen, -⟩
    · rw [hempty] at he
      cases he
    · exact hopen

theorem Live.open_of_active (h : Live revision s) (hactive : s.task.active.isSome = true) :
    ∀ e' ∈ s.bodies, isClosed e' = false := by
  cases hclosing : s.closing with
  | false => exact fun e' he' => h.opened hclosing e' (List.mem_append_left _ he')
  | true =>
    rw [(h.closing hclosing).2.1] at hactive
    cases hactive

theorem Live.staged {e : Emitted} {rest : List Emitted} (h : Live revision s)
    (hsending : s.sending = none) (hcontrols : s.controls = e :: rest) :
    Live revision { s with
      controls := rest
      sending := some e
      emission := if Session.isStarted e then .start else .control
      phase := .waiting } := by
  have hpending : s.pending = e :: rest := by
    unfold Session.pending
    rw [hsending, hcontrols]
    rfl
  refine ⟨?_, ?_, ?_, h.busy, h.generating, ?_, ?_, h.current, ?_, ?_, ?_, ?_⟩
  · rintro _ ⟨⟩
    by_cases hstarted : Session.isStarted e = true <;> simp [hstarted]
  · rintro _ ⟨⟩ hcontrol
    by_cases hstarted : Session.isStarted e = true <;>
      simp [hstarted, Emission.isControl] at hcontrol
  · rintro _ ⟨⟩ hfinish
    by_cases hstarted : Session.isStarted e = true <;> simp [hstarted] at hfinish
  · have hstarts := h.starts
    rw [hpending] at hstarts
    exact hstarts
  · have hblocks := h.blocks
    rw [hpending] at hblocks
    exact hblocks
  · have hopened := h.opened
    rw [hpending] at hopened
    exact hopened
  · have hclosing := h.closing
    rw [hpending] at hclosing
    exact hclosing
  · have hready := h.ready
    rw [hpending] at hready
    exact hready
  · have hquiet := h.quiet
    rw [hpending] at hquiet
    exact hquiet

theorem Live.next {f f' : FinishEvents} {e : Emitted} {emission : Emission}
    (h : Live revision s) (hsending : s.sending = none) (hcontrols : s.controls = [])
    (hfinishing : s.finishing = some f) (hnext : f.next = some (e, emission, f')) :
    Live revision { s with
      finishing := some f', sending := some e, emission := emission, phase := .waiting } := by
  obtain ⟨hremaining, hcontrol, hlast⟩ := FinishEvents.remaining_of_next hnext
  have hmem : e ∈ f.remaining := by
    rw [hremaining]
    exact List.mem_cons_self
  obtain ⟨hof, hstarted, hclosed, hdelta⟩ := FinishEvents.mem_remaining hmem
  have hpending : s.pending = [] := by
    unfold Session.pending
    rw [hsending, hcontrols]
    rfl
  have hdue : s.due = e :: f'.remaining := by
    unfold Session.due
    rw [hfinishing]
    exact hremaining
  have hactive : s.task.active = none := h.busy (by rw [hfinishing]; rfl)
  have hnew : ∀ events : List Emitted, events ++ ([e] ++ s.controls) = events ++ [e] := by
    intro events
    rw [hcontrols]
    rfl
  refine ⟨?_, fun _ _ _ => rfl, fun _ _ => hlast, fun _ => hactive, h.generating, ?_, ?_,
    h.current, ?_, ?_, ?_, ?_⟩
  · rintro _ ⟨⟩
    refine iff_of_false ?_ ?_
    · intro hstart
      change emission = .start at hstart
      rw [hstart] at hcontrol
      cases hcontrol
    · rw [hstarted]
      exact Bool.false_ne_true
  · have hstarts := h.starts
    rw [hpending] at hstarts
    rw [← hstarts]
    show ([e] ++ s.controls).filter _ = _
    rw [hcontrols, List.append_nil, List.filter_cons_of_neg (by simp [hstarted])]
  · have hblocks := h.blocks
    rw [hpending, hdue, List.append_nil] at hblocks
    show (s.bodies ++ ([e] ++ s.controls) ++ f'.remaining).filter _ = _
    rw [hnew, List.append_assoc]
    exact hblocks
  · intro hopen e' he'
    have he' : e' ∈ s.bodies ++ ([e] ++ s.controls) := he'
    rw [hnew] at he'
    rcases List.mem_append.mp he' with hold | hnew
    · exact h.opened hopen e' (List.mem_append_left _ hold)
    · rw [List.mem_singleton.mp hnew]
      exact hclosed
  · intro hclosing
    have hnone := (h.closing hclosing).1
    rw [hfinishing] at hnone
    cases hnone
  · obtain ⟨tail, htail⟩ := h.ready
    rw [hpending, List.append_nil] at htail
    refine ⟨tail ++ [e], ?_⟩
    show s.bodies ++ ([e] ++ s.controls) = _
    rw [hnew, htail]
    rfl
  · intro e' he'
    have he' : e' ∈ [e] ++ s.controls := he'
    rw [hcontrols, List.append_nil] at he'
    rw [List.mem_singleton.mp he']
    exact hdelta

theorem Live.sent {e : Emitted} (h : Live revision s) (hsending : s.sending = some e) :
    Live revision (s.push e).delivered := by
  have hpending : s.pending = e :: s.controls := by
    unfold Session.pending
    rw [hsending]
    rfl
  have hbodies : (s.push e).delivered.bodies ++ (s.push e).delivered.pending =
      s.bodies ++ s.pending := by
    rw [Session.bodies_delivered, Session.bodies_push, Session.pending_delivered, hpending,
      List.append_assoc]
    rfl
  have hdue : (s.push e).delivered.due = s.due := by
    unfold Session.due
    rw [Session.finishing_delivered]
    show (Option.map _ (if s.emission = .finish then none else s.finishing)).getD [] = s.due
    by_cases hfinish : s.emission = .finish
    · rw [if_pos hfinish, h.finish e hsending hfinish]
      rfl
    · rw [if_neg hfinish]
      rfl
  have hgenerating : (s.push e).delivered.generating =
      if Session.isStarted e then true else s.generating := by
    rw [Session.generating_delivered]
    show (if s.emission = .start then true else s.generating) = _
    exact if_congr (h.start e hsending) rfl rfl
  refine ⟨?_, ?_, ?_, ?_, ?_, ?_, ?_, ?_, ?_, ?_, ?_, ?_⟩
  · intro e' he'
    simp at he'
  · intro e' he'
    simp at he'
  · intro e' he'
    simp at he'
  · rw [Session.finishing_delivered, Session.task_delivered]
    show (if s.emission = .finish then none else s.finishing).isSome = true → s.task.active = none
    by_cases hfinish : s.emission = .finish
    · rw [if_pos hfinish]
      exact fun h => nomatch h
    · rw [if_neg hfinish]
      exact h.busy
  · rw [hgenerating, Session.task_delivered]
    by_cases hstarted : Session.isStarted e = true
    · obtain ⟨-, generation, hactive, -, -⟩ := h.starting hsending hstarted
      intro _
      show s.task.active.isSome = true
      rw [hactive]
      rfl
    · rw [if_neg hstarted]
      exact h.generating
  · rw [hgenerating, Session.task_delivered, Session.pending_delivered]
    by_cases hstarted : Session.isStarted e = true
    · rw [if_pos hstarted]
      exact (h.starting hsending hstarted).2.choose_spec.2.2
    · have hstarts := h.starts
      rw [hpending, List.filter_cons_of_neg hstarted] at hstarts
      rw [if_neg hstarted]
      exact hstarts
  · rw [hbodies, hdue, Session.generations_delivered]
    exact h.blocks
  · rw [Session.task_delivered, Session.generations_delivered]
    exact h.current
  · rw [hbodies, Session.closing_delivered]
    exact h.opened
  · rw [Session.closing_delivered, Session.task_delivered, Session.finishing_delivered,
      Session.pending_delivered, Session.bodies_delivered, Session.bodies_push]
    intro hclosing
    obtain ⟨hfinishing, hactive, hrest⟩ := h.closing hclosing
    refine ⟨?_, hactive, ?_⟩
    · show (if s.emission = .finish then none else s.finishing) = none
      rw [hfinishing, ite_self]
    · rcases hrest with hempty | ⟨hopen, before, last, hlist, hlast, hbefore⟩
      · rw [hpending] at hempty
        cases hempty
      · rw [hpending] at hlist
        cases before with
        | nil =>
          left
          exact (List.cons.inj hlist).2
        | cons first before =>
          right
          obtain ⟨rfl, hcontrols⟩ := List.cons.inj hlist
          refine ⟨?_, before, last, hcontrols, hlast, fun e' he' => hbefore e' (.tail _ he')⟩
          intro e' he'
          rcases List.mem_append.mp he' with hold | hnew
          · exact hopen e' hold
          · rw [List.mem_singleton.mp hnew]
            exact hbefore e List.mem_cons_self
  · rw [hbodies]
    exact h.ready
  · rw [Session.pending_delivered]
    intro e' he'
    exact h.quiet e' (hpending ▸ List.mem_cons_of_mem e he')

theorem Live.exchanged {generationId : String} {inputPosition : Nat} {f : FinishEvents}
    (h : Live revision s) (hgenerating : s.generating = true)
    (hactive : s.task.active = some (generationId, inputPosition)) :
    Live revision { s with
      task.active := none
      generating := false
      finishing := some f
      generations := Session.settled s.generations f
      phase := .top } := by
  have hfinishing : s.finishing = none := by
    cases hfinishing : s.finishing with
    | none => rfl
    | some f =>
      have hnone := h.busy (by rw [hfinishing]; rfl)
      rw [hactive] at hnone
      cases hnone
  have hdue : s.due = [] := by
    unfold Session.due
    rw [hfinishing]
    rfl
  have hcurrent := h.current
  rw [hactive] at hcurrent
  obtain ⟨init, commandId, hgenerations, hinit⟩ := hcurrent
  have hsettled : Session.settled s.generations f =
      init ++ [⟨generationId, inputPosition, commandId, some f⟩] := by
    unfold Session.settled
    rw [hgenerations, List.dropLast_concat, List.getLast?_concat]
    rfl
  refine ⟨h.start, fun _ _ _ => rfl, ?_, fun _ => rfl, (fun h => nomatch h), ?_, ?_, ?_, h.opened,
    ?_, h.ready, h.quiet⟩
  · intro e hsending hfinish
    have hfinish : s.emission = .finish := hfinish
    have hsome := h.output e hsending (by rw [hfinish]; rfl)
    rw [hfinishing] at hsome
    cases hsome
  · have hstarts := h.starts
    rw [hgenerating] at hstarts
    exact hstarts
  · have hblocks := h.blocks
    rw [hdue, List.append_nil, hgenerations, List.flatMap_append] at hblocks
    show (s.bodies ++ s.pending ++ f.remaining).filter ofGeneration =
      (Session.settled s.generations f).flatMap Generation.events
    have hremaining : f.remaining.filter ofGeneration = f.remaining :=
      List.filter_eq_self.mpr fun e he => (FinishEvents.mem_remaining he).1
    rw [List.filter_append, hblocks, hremaining, hsettled, List.flatMap_append, List.append_assoc,
      List.flatMap_singleton, List.flatMap_singleton]
    rfl
  · show Current none (Session.settled s.generations f)
    rw [hsettled]
    intro g hg
    rcases List.mem_append.mp hg with hold | hnew
    · exact hinit g hold
    · rw [List.mem_singleton.mp hnew]
      rfl
  · intro hclosing
    have hnone := (h.closing hclosing).2.1
    rw [hactive] at hnone
    cases hnone

private theorem Live.ready_append (h : Live revision s) (hcontrols : s.controls = [])
    (events : List Emitted) :
    ∃ tail, s.bodies ++ (s.sending.toList ++ events) = ⟨.ready revision, none⟩ :: tail := by
  obtain ⟨tail, htail⟩ := h.ready
  unfold Session.pending at htail
  rw [hcontrols, List.append_nil] at htail
  exact ⟨tail ++ events, by rw [← List.append_assoc, htail]; rfl⟩

private theorem Live.quiet_append (h : Live revision s) (hcontrols : s.controls = [])
    {events : List Emitted} (hevents : ∀ e ∈ events, isDelta e = false) :
    ∀ e ∈ s.sending.toList ++ events, isDelta e = false := by
  intro e he
  rcases List.mem_append.mp he with hold | hnew
  · apply h.quiet
    unfold Session.pending
    rw [hcontrols, List.append_nil]
    exact hold
  · exact hevents e hnew

theorem Live.generate {c : SessionCommand} {task : Task} {generationId : String}
    {contextRevision inputPosition profileRevision : Nat} (h : Live revision s)
    (hclosing : s.closing = false) (hcontrols : s.controls = []) (hsending : s.sending = none)
    (hfinishing : s.finishing = none) (hnone : s.task.active = none)
    (hbody : c.body = .generate generationId contextRevision inputPosition profileRevision)
    (hactive : task.active = some (generationId, inputPosition)) :
    Live revision { s with
      task
      controls := [⟨.acknowledged c.id none, some generationId⟩,
        ⟨.responseStarted generationId inputPosition, none⟩]
      closing := decide (c.body = .close)
      generations := s.accepted c
      phase := .top } := by
  have hpending : s.pending = [] := by
    unfold Session.pending
    rw [hcontrols, hsending]
    rfl
  have hdue : s.due = [] := by
    unfold Session.due
    rw [hfinishing]
    rfl
  have hgenerating : s.generating = false := by
    cases hgenerating : s.generating with
    | false => rfl
    | true =>
      have hsome := h.generating hgenerating
      rw [hnone] at hsome
      cases hsome
  have haccepted : s.accepted c = s.generations ++ [⟨generationId, inputPosition, c.id, none⟩] := by
    unfold Session.accepted
    rw [hbody]
  have hcurrent := h.current
  have hblocks := h.blocks
  have hopened := h.opened hclosing
  rw [hnone] at hcurrent
  rw [hpending, hdue, List.append_nil, List.append_nil] at hblocks
  rw [hpending, List.append_nil] at hopened
  have hidle : ∀ e, s.sending ≠ some e := by
    intro e he
    rw [hsending] at he
    cases he
  refine ⟨fun e he => absurd he (hidle e), fun e he => absurd he (hidle e),
    fun e he => absurd he (hidle e), ?_, ?_, ?_, ?_, ?_, ?_, ?_, h.ready_append hcontrols _,
    h.quiet_append hcontrols (List.forall_mem_cons.mpr ⟨rfl, List.forall_mem_singleton.mpr rfl⟩)⟩
  · intro hsome
    have hsome : s.finishing.isSome = true := hsome
    rw [hfinishing] at hsome
    cases hsome
  · intro _
    show task.active.isSome = true
    rw [hactive]
    rfl
  · show (s.sending.toList ++ _).filter Session.isStarted =
      if s.generating then [] else task.active.toList.map startedEvent
    rw [hsending, hgenerating, hactive]
    rfl
  · show (s.bodies ++ (s.sending.toList ++ _) ++ s.due).filter ofGeneration =
      (s.accepted c).flatMap Generation.events
    rw [hsending, hdue, haccepted, List.append_nil, Option.toList_none, List.nil_append,
      List.filter_append, hblocks, List.flatMap_append]
    rfl
  · show Current task.active (s.accepted c)
    rw [hactive, haccepted]
    exact ⟨s.generations, c.id, rfl, hcurrent⟩
  · intro _ e he
    have he : e ∈ s.bodies ++ (s.sending.toList ++ _) := he
    rw [hsending] at he
    rcases List.mem_append.mp he with hold | hnew
    · exact hopened e hold
    · rcases List.mem_cons.mp hnew with rfl | hnew
      · rfl
      · rw [List.mem_singleton.mp hnew]
        rfl
  · intro hclose
    have hclose : c.body = .close := of_decide_eq_true hclose
    rw [hbody] at hclose
    cases hclose

theorem Live.close {c : SessionCommand} (h : Live revision s) (hclosing : s.closing = false)
    (hcontrols : s.controls = []) (hsending : s.sending = none) (hfinishing : s.finishing = none)
    (hnone : s.task.active = none) (hbody : c.body = .close) :
    Live revision { s with
      controls := [⟨.acknowledged c.id none, none⟩, ⟨.closed "host_request" .null, none⟩]
      closing := decide (c.body = .close)
      generations := s.accepted c
      phase := .top } := by
  have hpending : s.pending = [] := by
    unfold Session.pending
    rw [hcontrols, hsending]
    rfl
  have haccepted : s.accepted c = s.generations := by
    unfold Session.accepted
    rw [hbody]
  have hblocks := h.blocks
  have hstarts := h.starts
  have hopened := h.opened hclosing
  have hdue : s.due = [] := by
    unfold Session.due
    rw [hfinishing]
    rfl
  rw [hpending, hdue, List.append_nil, List.append_nil] at hblocks
  rw [hpending, List.append_nil] at hopened
  rw [hpending] at hstarts
  have hidle : ∀ e, s.sending ≠ some e := by
    intro e he
    rw [hsending] at he
    cases he
  refine ⟨fun e he => absurd he (hidle e), fun e he => absurd he (hidle e),
    fun e he => absurd he (hidle e), h.busy, h.generating, ?_, ?_, ?_, ?_, ?_,
    h.ready_append hcontrols _,
    h.quiet_append hcontrols
      (List.forall_mem_cons.mpr ⟨rfl, List.forall_mem_singleton.mpr rfl⟩)⟩
  · show (s.sending.toList ++ _).filter Session.isStarted = _
    rw [hsending]
    exact hstarts
  · show (s.bodies ++ (s.sending.toList ++ _) ++ s.due).filter ofGeneration =
      (s.accepted c).flatMap Generation.events
    rw [hsending, hdue, haccepted, List.append_nil, Option.toList_none, List.nil_append,
      List.filter_append, hblocks]
    exact List.append_nil _
  · show Current s.task.active (s.accepted c)
    rw [haccepted]
    exact h.current
  · intro hopen
    have hopen : ¬ c.body = .close := of_decide_eq_false hopen
    exact absurd hbody hopen
  · intro _
    refine ⟨hfinishing, hnone, .inr ⟨hopened, [⟨.acknowledged c.id none, none⟩],
      ⟨.closed "host_request" .null, none⟩, ?_, rfl, ?_⟩⟩
    · show s.sending.toList ++ _ = _
      rw [hsending]
      rfl
    · intro e he
      rw [List.mem_singleton.mp he]
      rfl

theorem Live.acknowledge {c : SessionCommand} {task : Task} (h : Live revision s)
    (hclosing : s.closing = false) (hcontrols : s.controls = [])
    (hgenerate : ∀ g r p v, c.body ≠ .generate g r p v) (hclose : c.body ≠ .close)
    (hactive : task.active = s.task.active) :
    Live revision { s with
      task
      controls := [⟨.acknowledged c.id none, none⟩]
      closing := decide (c.body = .close)
      generations := s.accepted c
      phase := .top } := by
  have hpending : s.pending = s.sending.toList := by
    unfold Session.pending
    rw [hcontrols, List.append_nil]
  have haccepted : s.accepted c = s.generations := by
    unfold Session.accepted
    cases hbody : c.body with
    | generate g r p v => exact absurd hbody (hgenerate g r p v)
    | _ => rfl
  have hblocks := h.blocks
  have hstarts := h.starts
  have hopened := h.opened hclosing
  rw [hpending] at hopened hblocks hstarts
  refine ⟨h.start, h.output, h.finish, ?_, ?_, ?_, ?_, ?_, ?_, ?_, h.ready_append hcontrols _,
    h.quiet_append hcontrols (List.forall_mem_singleton.mpr rfl)⟩
  · intro hsome
    show task.active = none
    rw [hactive]
    exact h.busy hsome
  · intro hgenerating
    show task.active.isSome = true
    rw [hactive]
    exact h.generating hgenerating
  · show (s.sending.toList ++ _).filter Session.isStarted =
      if s.generating then [] else task.active.toList.map startedEvent
    rw [hactive, ← hstarts, List.filter_append]
    exact List.append_nil _
  · show (s.bodies ++ (s.sending.toList ++ _) ++ s.due).filter ofGeneration =
      (s.accepted c).flatMap Generation.events
    rw [haccepted, ← hblocks, ← List.append_assoc, List.filter_append, List.filter_append,
      List.filter_append (s.bodies ++ s.sending.toList) s.due]
    congr 1
    exact List.append_nil _
  · show Current task.active (s.accepted c)
    rw [hactive, haccepted]
    exact h.current
  · intro _ e he
    have he : e ∈ s.bodies ++ (s.sending.toList ++ _) := he
    rw [← List.append_assoc] at he
    rcases List.mem_append.mp he with hold | hnew
    · exact hopened e hold
    · rw [List.mem_singleton.mp hnew]
      rfl
  · intro h
    exact absurd (of_decide_eq_true h) hclose

theorem Live.commanded {c : SessionCommand} {task : Task} {events : List Emitted}
    (h : Live revision s) (hclosing : s.closing = false) (hcontrols : s.controls = [])
    (hsending : s.sending = none ∨ s.emission.isControl = false)
    (hcommand : Commanded s.task c (s.task.active.isSome || s.finishing.isSome) task events) :
    Live revision { s with
      task
      controls := events
      closing := decide (c.body = .close)
      generations := s.accepted c
      phase := .top } := by
  cases hcommand with
  | generate generationId contextRevision inputPosition profileRevision hbody hbusy hactive =>
    obtain ⟨hsent, hfinishing, hnone⟩ := h.idle hsending hbusy
    exact h.generate hclosing hcontrols hsent hfinishing hnone hbody hactive
  | close hbody hbusy =>
    obtain ⟨hsent, hfinishing, hnone⟩ := h.idle hsending hbusy
    exact h.close hclosing hcontrols hsent hfinishing hnone hbody
  | other hgenerate hclose hactive =>
    exact h.acknowledge hclosing hcontrols hgenerate hclose hactive

theorem Live.delta {e : Emitted} (h : Live revision s) (hne : s.bodies ≠ [])
    (hof : ofGeneration e = false) (hclosed : isClosed e = false) : Live revision (s.push e) := by
  refine ⟨h.start, h.output, h.finish, h.busy, h.generating, h.starts, ?_, h.current, ?_, ?_, ?_,
    h.quiet⟩
  · rw [Session.bodies_push, Session.pending_push, Session.due_push, List.append_assoc,
      List.append_assoc, List.filter_append, List.singleton_append,
      List.filter_cons_of_neg (by simp [hof]), ← List.filter_append, ← List.append_assoc]
    exact h.blocks
  · intro hopen e' he'
    rw [Session.bodies_push, Session.pending_push, List.append_assoc] at he'
    rcases List.mem_append.mp he' with hold | hnew
    · exact h.opened hopen e' (List.mem_append_left _ hold)
    · rcases List.mem_cons.mp hnew with rfl | hnew
      · exact hclosed
      · exact h.opened hopen e' (List.mem_append_right _ hnew)
  · intro hclosing
    obtain ⟨hfinishing, hactive, hrest⟩ := h.closing hclosing
    refine ⟨hfinishing, hactive, hrest.imp_right ?_⟩
    rintro ⟨hopen, hcloses⟩
    refine ⟨?_, hcloses⟩
    intro e' he'
    rw [Session.bodies_push] at he'
    rcases List.mem_append.mp he' with hold | hnew
    · exact hopen e' hold
    · rw [List.mem_singleton.mp hnew]
      exact hclosed
  · obtain ⟨tail, htail⟩ := h.ready
    obtain ⟨first, rest, hfirst⟩ := List.exists_cons_of_ne_nil hne
    rw [hfirst] at htail
    have hready : first = ⟨.ready revision, none⟩ := (List.cons.inj htail).1
    refine ⟨rest ++ [e] ++ s.pending, ?_⟩
    rw [Session.bodies_push, Session.pending_push, hfirst, hready]
    rfl

theorem Live.step (h : Live revision s) (hinvoked : s.invoked ≠ [] → s.bodies ≠ [])
    (hstep : Stepped adapter s a s') (hphase : s'.phase ≠ .returned) : Live revision s' := by
  cases hstep with
  | idle => exact h
  | ended a t _ => exact absurd rfl hphase
  | waits =>
    exact ⟨h.start, h.output, h.finish, h.busy, h.generating, h.starts, h.blocks, h.current,
      h.opened, h.closing, h.ready, h.quiet⟩
  | staged _ _ hsending hcontrols => exact h.staged hsending hcontrols
  | next _ _ hsending hcontrols hfinishing hnext =>
    exact h.next hsending hcontrols hfinishing hnext
  | sent _ hsending => exact h.sent hsending
  | exchanged _ _ hgenerating hactive => exact h.exchanged hgenerating hactive
  | commanded _ hclosing hcontrols hsending hcommand =>
    exact h.commanded hclosing hcontrols hsending hcommand
  | delta v hmem =>
    exact h.delta (hinvoked fun hnil => by rw [hnil] at hmem; cases hmem) rfl rfl
  | received =>
    obtain ⟨queue, stopped, error, replies, hreceive⟩ := s.receive_eq
    rw [hreceive]
    exact ⟨h.start, h.output, h.finish, h.busy, h.generating, h.starts, h.blocks, h.current,
      h.opened, h.closing, h.ready, h.quiet⟩

end Invariants

end Zhir.Models.Exchange
