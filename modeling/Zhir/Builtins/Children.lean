import Zhir.Builtins.Agents

/-!
What a parent learns of its children, what they learn of it, and how many there are.
-/

set_option autoImplicit false
set_option relaxedAutoImplicit false

namespace Zhir.Builtins

open Zhir.Core Zhir.Library
open Zhir.Kernel (Request UpdateStream isFinal updateState)

/-- Where a child is, for whoever has heard what it told. -/
inductive Course
  | working
  | asked
  | ended
  deriving DecidableEq, Repr

namespace Course

/-- A child works until it asks, and is asked for again or works on when it is answered. Nothing
follows its end. -/
def next : Course → OperationUpdate → Option Course
  | .working, .waiting _ _ | .asked, .waiting _ _ => some .asked
  | .asked, .running _ => some .working
  | .working, .finished _ | .asked, .finished _ => some .ended
  | .working, .unknown _ | .asked, .unknown _ => some .ended
  | _, _ => none

def follow (updates : List OperationUpdate) : Option Course := updates.foldlM next .working

end Course

namespace Worker

variable {w w' : Worker} {action : ChildAction} {actions : List ChildAction}

def Allows (w : Worker) (course : Course) : Prop :=
  match w.phase with
  | .listening _ | .answering => course = .asked
  | .ended => True
  | _ => course ≠ .ended

def Given (actions : List ChildAction) : ChildCommand → Prop
  | .reply answer => .reply answer ∈ actions
  | .cancel => .cancel ∈ actions

/-- Why a worker does not know what became of its run: the run was lost, it could not be resumed
as the parent wanted, or the parent could not be asked. -/
inductive Lost (actions : List ChildAction) : String → Prop
  | settled {error : Error} (h : .settled (.error error) ∈ actions) : Lost actions error.text
  | refused {completion : Completion} {command : ChildCommand} {error : Error}
      (hsettled : .settled (.ok completion) ∈ actions) (hgiven : Given actions command)
      (h : command.request completion = .error error) : Lost actions error.text
  | unheard (h : .detach ∈ actions) : Lost actions Error.cancelled.text

def Answered (actions : List ChildAction) : Prop :=
  ∃ (completion : Completion) (answer : ChildReply) (request : Request),
    .settled (.ok completion) ∈ actions ∧ .reply answer ∈ actions ∧
      (ChildCommand.reply answer).request completion = .ok request

/-- What an update reports, of an id's run that was seen to settle. -/
def Reported (id : String) (actions : List ChildAction) : OperationUpdate → Prop
  | .waiting prompt recovery =>
    ∃ (completion : Completion) (suspension : Suspension),
      .settled (.ok completion) ∈ actions ∧
        completion.checkpoint.state = .suspended suspension ∧
        prompt = waitingPrompt id suspension ∧ recovery = some (recoveryOf id)
  | .finished outcome =>
    ∃ (completion : Completion) (h : completion.checkpoint.state.terminal = true),
      .settled (.ok completion) ∈ actions ∧ outcome = settledOutcome completion.checkpoint.state h
  | .running recovery => recovery = some (recoveryOf id) ∧ Answered actions
  | .unknown reason => Lost actions reason
  | _ => False

/-- The updates a worker tells are numbered from where it started. -/
def Numbered (first : Nat) (w : Worker) : Prop :=
  w.told.map OperationEvent.sequence = List.range' first w.told.length ∧
    w.sequence = first + w.told.length

theorem Numbered.step {first : Nat} (hw : w.Numbered first) (h : w.Stepped action w') :
    w'.Numbered first := by
  obtain ⟨hnumbers, hnext⟩ := hw
  rcases h.told_cases with ⟨htold, hsequence, -⟩ | ⟨update, next, -, rfl⟩
  · rw [Numbered, htold, hsequence]
    exact ⟨hnumbers, hnext⟩
  · have hlength : (w.emit update next).told.length = w.told.length + 1 := by simp
    refine ⟨?_, ?_⟩
    · rw [hlength, told_emit, List.map_append, hnumbers, List.range'_concat, hnext]
      simp
    · show w.sequence + 1 = _
      rw [hlength, hnext]
      omega

theorem Stepped.permit (h : w.Stepped action w') (hw : w.permit = w.busy) :
    w'.permit = w'.busy := by
  cases h with
  | settled result h =>
    have hbusy : w.permit = true := by rw [hw, busy, h]
    rcases settle_cases result with ⟨error, -, hs⟩ | ⟨completion, _, -, hs⟩ | ⟨completion, -, hs⟩
    · rw [hs]
      rfl
    · rw [hs]
      rfl
    · rw [hs]
      exact hbusy
  | pausing hdetached h =>
    show w.permit = true
    rw [hw, busy, h]
  | @sent update next hdetached h =>
    show w.permit = (w.emit update next).busy
    rcases pending_cases h with ⟨completion, suspension, hphase, -, rfl, -⟩ |
      ⟨hphase, rfl, -⟩ | ⟨hphase, rfl⟩
    all_goals
      rw [hw, busy, hphase]
      rfl
  | @commanded completion command rest h hcommands =>
    have hbusy : w.permit = true := by rw [hw, busy, h]
    rcases resume_cases (w := { w with commands := rest }) completion command with
      ⟨error, herror, hs⟩ | ⟨request, hrequest, hs⟩
    · rw [hs]
      rfl
    · rw [hs]
      show w.permit = _
      rw [hbusy]
      cases command <;> rfl
  | reply | cancelUnheard | cancel | receive | detach => exact hw
  | _ => rfl

private theorem follow_snoc (updates : List OperationUpdate) (update : OperationUpdate) :
    Course.follow (updates ++ [update]) = (Course.follow updates).bind (·.next update) := by
  rw [Course.follow, List.foldlM_append]
  cases h : updates.foldlM Course.next .working with
  | none => rw [Course.follow, h]; rfl
  | some course =>
    rw [Course.follow, h]
    show List.foldlM Course.next course [update] = course.next update
    rw [List.foldlM_cons]
    cases course.next update <;> rfl

def Parting (update : OperationUpdate) : Prop :=
  isFinal update = true ∨ ∃ reason, update = .unknown reason

theorem Parting.next {update : OperationUpdate} (h : Parting update) {course : Course}
    (hcourse : course ≠ .ended) : course.next update = some .ended := by
  rcases h with h | ⟨reason, rfl⟩
  · cases update with
    | finished outcome =>
      cases course with
      | ended => exact absurd rfl hcourse
      | _ => rfl
    | _ => cases h
  · cases course with
    | ended => exact absurd rfl hcourse
    | _ => rfl

/-- What a worker has told is a course that may go on the way its phase lets it. -/
def OnCourse (w : Worker) : Prop :=
  (∀ update, w.phase = .ending update → Parting update) ∧
  ∃ course, Course.follow (w.told.map OperationEvent.update) = some course ∧ w.Allows course

theorem OnCourse.turn (hw : w.OnCourse) (htold : w'.told = w.told)
    (hending : ∀ update, w'.phase = .ending update → Parting update)
    (hallows : ∀ course, w.Allows course → w'.Allows course) : w'.OnCourse := by
  obtain ⟨-, course, hcourse, hallowed⟩ := hw
  refine ⟨hending, course, ?_, hallows course hallowed⟩
  rw [htold]
  exact hcourse

theorem OnCourse.same (hw : w.OnCourse) (htold : w'.told = w.told) (hphase : w'.phase = w.phase) :
    w'.OnCourse := by
  refine hw.turn htold ?_ fun course hallows => ?_
  · rw [hphase]
    exact hw.1
  · rw [Allows, hphase]
    exact hallows

theorem Allows.open {course : Course} (h : w.Allows course) (hphase : w.phase ≠ .ended) :
    course ≠ .ended := by
  rintro rfl
  unfold Allows at h
  split at h
  · cases h
  · cases h
  · next hended => exact hphase hended
  · exact h rfl

theorem OnCourse.leave (hw : w.OnCourse) (hphase : w.phase ≠ .ended) {update : OperationUpdate}
    (hupdate : Parting update) : (w.leave update).OnCourse := by
  refine hw.turn rfl (fun _ h => ?_) fun course hallows => hallows.open hphase
  cases h
  exact hupdate

theorem OnCourse.stop (hw : w.OnCourse) : w.stop.OnCourse :=
  hw.turn rfl (fun _ h => nomatch h) fun _ _ => trivial

theorem OnCourse.emit (hw : w.OnCourse) {update : OperationUpdate} {next : Phase}
    (hnext : ∀ last, next ≠ .ending last)
    (hcourse : ∀ course, w.Allows course → ∃ course', course.next update = some course' ∧
      (w.emit update next).Allows course') : (w.emit update next).OnCourse := by
  obtain ⟨-, course, hfollow, hallows⟩ := hw
  obtain ⟨course', hstep, hallows'⟩ := hcourse course hallows
  refine ⟨fun last h => absurd h (hnext last), course', ?_, hallows'⟩
  rw [told_emit, List.map_append]
  exact (follow_snoc _ _).trans (by rw [hfollow]; exact hstep)

theorem OnCourse.step (hw : w.OnCourse) (h : w.Stepped action w') : w'.OnCourse := by
  cases h with
  | settled result h =>
    have hopen : w.phase ≠ .ended := by
      rw [h]
      exact fun h => nomatch h
    rcases settle_cases result with ⟨error, -, hs⟩ | ⟨completion, _, -, hs⟩ | ⟨completion, -, hs⟩
    · rw [hs]
      exact hw.leave hopen (.inr ⟨_, rfl⟩)
    · rw [hs]
      exact hw.leave hopen (.inl rfl)
    · rw [hs]
      exact hw.turn rfl (fun _ h => nomatch h) fun course hallows => hallows.open hopen
  | pausing hdetached h =>
    refine hw.turn rfl (fun _ h => nomatch h) fun course hallows => hallows.open ?_
    rw [h]
    exact fun h => nomatch h
  | @sent update next hdetached h =>
    rcases pending_cases h with ⟨completion, suspension, hphase, -, rfl, rfl⟩ |
      ⟨hphase, rfl, rfl⟩ | ⟨hphase, rfl⟩
    · refine hw.emit (fun _ h => nomatch h) fun course hallows => ⟨.asked, ?_, rfl⟩
      have hopen := hallows.open (by rw [hphase]; exact fun h => nomatch h)
      cases course with
      | ended => exact absurd rfl hopen
      | _ => rfl
    · refine hw.emit (fun _ h => nomatch h) fun course hallows => ⟨.working, ?_, ?_⟩
      · rw [Allows, hphase] at hallows
        rw [hallows]
        rfl
      · exact fun h => nomatch h
    · refine hw.emit (fun _ h => nomatch h) fun course hallows => ⟨.ended, ?_, trivial⟩
      exact (hw.1 update hphase).next (hallows.open (by rw [hphase]; exact fun h => nomatch h))
  | unsent hdetached h =>
    refine hw.leave ?_ (.inr ⟨_, rfl⟩)
    rcases h with ⟨completion, h⟩ | h
    all_goals
      rw [h]
      exact fun h => nomatch h
  | @commanded completion command rest h hcommands =>
    have hw' : ({ w with commands := rest } : Worker).OnCourse := hw.same rfl rfl
    rcases resume_cases (w := { w with commands := rest }) completion command with
      ⟨error, herror, hs⟩ | ⟨request, hrequest, hs⟩
    · rw [hs]
      refine hw'.leave ?_ (.inr ⟨_, rfl⟩)
      show w.phase ≠ .ended
      rw [h]
      exact fun h => nomatch h
    · rw [hs]
      refine hw.turn rfl ?_ fun course hallows => ?_
      · cases command <;> exact fun _ h => nomatch h
      · have hasked : course = .asked := by
          rw [Allows, h] at hallows
          exact hallows
        subst hasked
        cases command with
        | reply answer => exact rfl
        | cancel => exact fun h => nomatch h
  | deserted | paused | unsentLast => exact hw.stop
  | @receive event rest h => exact hw.same (by rw [told, told, h, List.append_assoc]; rfl) rfl
  | reply | cancelUnheard | cancel | detach => exact hw.same rfl rfl

theorem Given.later {command : ChildCommand} (h : Given actions command) (action : ChildAction) :
    Given (actions ++ [action]) command := by
  cases command with
  | reply answer => exact List.mem_append_left _ h
  | cancel => exact List.mem_append_left _ h

theorem Lost.later {reason : String} (h : Lost actions reason) (action : ChildAction) :
    Lost (actions ++ [action]) reason := by
  cases h with
  | settled h => exact .settled (List.mem_append_left _ h)
  | refused hsettled hgiven h => exact .refused (List.mem_append_left _ hsettled) (hgiven.later _) h
  | unheard h => exact .unheard (List.mem_append_left _ h)

theorem Answered.later (h : Answered actions) (action : ChildAction) :
    Answered (actions ++ [action]) := by
  obtain ⟨completion, answer, request, hsettled, hreply, hrequest⟩ := h
  exact ⟨completion, answer, request, List.mem_append_left _ hsettled,
    List.mem_append_left _ hreply, hrequest⟩

theorem Reported.later {id : String} {update : OperationUpdate} (h : Reported id actions update)
    (action : ChildAction) : Reported id (actions ++ [action]) update := by
  cases update with
  | waiting prompt recovery =>
    obtain ⟨completion, suspension, hmem, hrest⟩ := h
    exact ⟨completion, suspension, List.mem_append_left _ hmem, hrest⟩
  | finished outcome =>
    obtain ⟨completion, hterminal, hmem, hrest⟩ := h
    exact ⟨completion, hterminal, List.mem_append_left _ hmem, hrest⟩
  | running recovery => exact ⟨h.1, h.2.later action⟩
  | unknown reason => exact Lost.later h action
  | _ => exact h

/-- The parent has been asked what a suspended run waits for. -/
def AskedFor (id : String) (told : List OperationEvent) (completion : Completion) : Prop :=
  ∃ suspension, completion.checkpoint.state = .suspended suspension ∧
    ∃ event ∈ told,
      event.update = .waiting (waitingPrompt id suspension) (some (recoveryOf id))

def Seen (id : String) (actions : List ChildAction) (told : List OperationEvent) : Phase → Prop
  | .ending update => Reported id actions update
  | .asking completion => .settled (.ok completion) ∈ actions
  | .listening completion => .settled (.ok completion) ∈ actions ∧ AskedFor id told completion
  | .answering => Answered actions
  | _ => True

theorem Seen.later {id : String} {told : List OperationEvent} {phase : Phase}
    (h : Seen id actions told phase) (action : ChildAction) :
    Seen id (actions ++ [action]) told phase := by
  cases phase with
  | ending update => exact Reported.later h action
  | asking completion => exact List.mem_append_left _ h
  | listening completion => exact ⟨List.mem_append_left _ h.1, h.2⟩
  | answering => exact Answered.later h action
  | _ => trivial

/-- What a worker has told, and what it is about to do, it has seen happen. -/
structure Grounded (id : String) (actions : List ChildAction) (w : Worker) : Prop where
  name : w.id = id
  given : ∀ command ∈ w.commands, Given actions command
  gone : w.detached = true → .detach ∈ actions
  told : ∀ event ∈ w.told, Reported id actions event.update
  phase : Seen id actions w.told w.phase

namespace Grounded

variable {id : String}

theorem later (hw : w.Grounded id actions) (action : ChildAction) :
    w.Grounded id (actions ++ [action]) where
  name := hw.name
  given command hcommand := (hw.given command hcommand).later action
  gone hgone := List.mem_append_left _ (hw.gone hgone)
  told event hevent := (hw.told event hevent).later action
  phase := hw.phase.later action

theorem turn (hw : w.Grounded id actions) (hname : w'.id = w.id)
    (hcommands : w'.commands = w.commands) (hdetached : w'.detached = w.detached)
    (htold : w'.told = w.told) (hphase : Seen id actions w.told w'.phase) :
    w'.Grounded id actions := by
  refine ⟨hname.trans hw.name, ?_, ?_, ?_, ?_⟩
  · rw [hcommands]
    exact hw.given
  · rw [hdetached]
    exact hw.gone
  · rw [htold]
    exact hw.told
  · rw [htold]
    exact hphase

theorem emit (hw : w.Grounded id actions) {update : OperationUpdate} {next : Phase}
    (hupdate : Reported id actions update)
    (hphase : Seen id actions (w.told ++ [⟨w.sequence, update⟩]) next) :
    (w.emit update next).Grounded id actions := by
  refine ⟨hw.name, hw.given, hw.gone, ?_, ?_⟩
  · rw [told_emit]
    intro event hevent
    rcases List.mem_append.mp hevent with hevent | hevent
    · exact hw.told event hevent
    · rw [List.mem_singleton.mp hevent]
      exact hupdate
  · rw [told_emit]
    exact hphase

theorem hear (hw : w.Grounded id actions) (hname : w'.id = w.id)
    (hphase : w'.phase = w.phase)
    (htold : w'.told = w.told) (hgiven : ∀ command ∈ w'.commands, Given actions command)
    (hgone : w'.detached = true → .detach ∈ actions) : w'.Grounded id actions := by
  refine ⟨hname.trans hw.name, hgiven, hgone, ?_, ?_⟩
  · rw [htold]
    exact hw.told
  · rw [htold, hphase]
    exact hw.phase

theorem commanded (hw : w.Grounded id actions) {completion : Completion} {command : ChildCommand}
    {rest : List ChildCommand} (h : w.phase = .listening completion)
    (hcommands : w.commands = command :: rest) :
    ({ w with commands := rest }.resume completion command).Grounded id actions := by
  have hphase := hw.phase
  rw [h] at hphase
  have hgiven : Given actions command := hw.given command (by
    rw [hcommands]
    exact List.mem_cons_self)
  have hrest : ∀ other ∈ rest, Given actions other := fun other hother => hw.given other (by
    rw [hcommands]
    exact List.mem_cons_of_mem _ hother)
  rcases resume_cases (w := { w with commands := rest }) completion command with
    ⟨error, herror, hs⟩ | ⟨request, hrequest, hs⟩
  · rw [hs]
    exact ⟨hw.name, hrest, hw.gone, hw.told, .refused hphase.1 hgiven herror⟩
  · rw [hs]
    refine ⟨hw.name, hrest, hw.gone, hw.told, ?_⟩
    cases command with
    | reply answer => exact ⟨completion, answer, request, hphase.1, hgiven, hrequest⟩
    | cancel => trivial

theorem step (hw : w.Grounded id actions) (h : w.Stepped action w') :
    w'.Grounded id (actions ++ [action]) := by
  have hlater := hw.later action
  have hlast : action ∈ actions ++ [action] :=
    List.mem_append_right _ (List.mem_singleton.mpr rfl)
  cases h with
  | settled result h =>
    rcases settle_cases result with ⟨error, rfl, hs⟩ | ⟨completion, hterminal, rfl, hs⟩ |
      ⟨completion, rfl, hs⟩
    · rw [hs]
      exact hlater.turn rfl rfl rfl rfl (.settled hlast)
    · rw [hs]
      exact hlater.turn rfl rfl rfl rfl ⟨completion, hterminal, hlast, rfl⟩
    · rw [hs]
      exact hlater.turn rfl rfl rfl rfl hlast
  | @sent update next hdetached h =>
    have hphase := hlater.phase
    rcases pending_cases h with ⟨completion, suspension, hp, hstate, rfl, rfl⟩ |
      ⟨hp, rfl, rfl⟩ | ⟨hp, rfl⟩
    · rw [hp] at hphase
      rw [hw.name]
      refine hlater.emit ⟨completion, suspension, hphase, hstate, rfl, rfl⟩ ⟨hphase, ?_⟩
      refine ⟨suspension, hstate, _, List.mem_append_right _ (List.mem_singleton.mpr rfl), rfl⟩
    · rw [hp] at hphase
      rw [hw.name]
      exact hlater.emit ⟨rfl, hphase⟩ trivial
    · rw [hp] at hphase
      exact hlater.emit hphase trivial
  | commanded h hcommands => exact hlater.commanded h hcommands
  | unsent hdetached h =>
    exact hlater.turn rfl rfl rfl rfl (.unheard (List.mem_append_left _ (hw.gone hdetached)))
  | @receive event rest h =>
    refine hlater.turn rfl rfl rfl ?_ hlater.phase
    rw [Worker.told, Worker.told, h, List.append_assoc]
    rfl
  | reply answer | cancel =>
    refine hlater.hear rfl rfl rfl (fun command hcommand => ?_) hlater.gone
    rcases List.mem_append.mp hcommand with hcommand | hcommand
    · exact hlater.given command hcommand
    · rw [List.mem_singleton.mp hcommand]
      exact hlast
  | detach => exact hlater.hear rfl rfl rfl hlater.given fun _ => hlast
  | cancelUnheard => exact hlater.turn rfl rfl rfl rfl hlater.phase
  | _ => exact hlater.turn rfl rfl rfl rfl trivial

end Grounded

def replies (actions : List ChildAction) : List ChildReply :=
  actions.filterMap fun
    | .reply answer => some answer
    | _ => none

/-- A command resumed a run whose question the parent had been told. -/
def Resumed (id : String) (actions : List ChildAction) (told : List OperationEvent)
    (command : ChildCommand) (request : Request) : Prop :=
  ∃ completion : Completion, .settled (.ok completion) ∈ actions ∧ AskedFor id told completion ∧
    command.request completion = .ok request

/-- The commands given so far were taken in order, each for one request but for a last one that
may have been refused. -/
def Heard (id : String) (request : Request) (actions : List ChildAction) (w : Worker) : Prop :=
  ∃ (taken refused : List ChildCommand) (resumed : List Request),
    w.requests = request :: resumed ∧
    List.Forall₂ (Resumed id actions w.told) taken resumed ∧
    (refused = [] ∨ refused.length = 1 ∧ w.busy = false) ∧
    (taken ++ refused ++ w.commands).filterMap ChildCommand.answer = replies actions

theorem AskedFor.later {id : String} {told told' : List OperationEvent} {completion : Completion}
    (h : AskedFor id told completion) (hsub : told ⊆ told') : AskedFor id told' completion := by
  obtain ⟨suspension, hstate, event, hevent, hupdate⟩ := h
  exact ⟨suspension, hstate, event, hsub hevent, hupdate⟩

theorem Resumed.later {id : String} {told told' : List OperationEvent} {command : ChildCommand}
    {request : Request} (h : Resumed id actions told command request) (hsub : told ⊆ told')
    (action : ChildAction) : Resumed id (actions ++ [action]) told' command request := by
  obtain ⟨completion, hmem, hasked, hrequest⟩ := h
  exact ⟨completion, List.mem_append_left _ hmem, hasked.later hsub, hrequest⟩

private theorem Stepped.told_subset (h : w.Stepped action w') : w.told ⊆ w'.told := by
  rcases h.told_cases with ⟨htold, -, -⟩ | ⟨update, next, -, rfl⟩
  · rw [htold]
    exact List.Subset.refl _
  · rw [told_emit]
    exact List.subset_append_left _ _

theorem Stepped.idle (h : w.Stepped action w') (hidle : w.busy = false) : w'.busy = false := by
  cases h with
  | @sent update next hdetached h =>
    rcases pending_cases h with ⟨completion, suspension, hphase, -, -, -⟩ |
      ⟨hphase, -, -⟩ | ⟨-, rfl⟩
    · rw [busy, hphase] at hidle
      cases hidle
    · rw [busy, hphase] at hidle
      cases hidle
    · rfl
  | settled result h =>
    rw [busy, h] at hidle
    cases hidle
  | pausing hdetached h =>
    rw [busy, h] at hidle
    cases hidle
  | commanded h hcommands =>
    rw [busy, h] at hidle
    cases hidle
  | reply | cancelUnheard | cancel | receive | detach => exact hidle
  | _ => rfl

private theorem Stepped.held_le (h : w.Stepped action w') (hw : w.permit = w.busy) :
    w'.held ≤ w.held := by
  rw [held, held, h.permit hw, hw]
  cases hbusy : w.busy with
  | true => cases w'.busy <;> decide
  | false => rw [h.idle hbusy]

private theorem settle_inputs (result : Result Completion) :
    (w.settle result).requests = w.requests ∧ (w.settle result).commands = w.commands := by
  rcases settle_cases result with ⟨error, -, h⟩ | ⟨completion, hterminal, -, h⟩ | ⟨completion, -, h⟩
  all_goals
    rw [h]
    exact ⟨rfl, rfl⟩

namespace Heard

variable {id : String} {request : Request}

theorem quiet (hw : w.Heard id request actions) (h : w.Stepped action w')
    (hrequests : w'.requests = w.requests) (hcommands : w'.commands = w.commands)
    (hreplies : replies (actions ++ [action]) = replies actions) :
    w'.Heard id request (actions ++ [action]) := by
  obtain ⟨taken, refused, resumed, hreq, hresumed, hrefused, hall⟩ := hw
  refine ⟨taken, refused, resumed, hrequests.trans hreq, ?_, ?_, ?_⟩
  · exact hresumed.imp fun _ _ h' => h'.later h.told_subset action
  · exact hrefused.imp_right fun h' => ⟨h'.1, h.idle h'.2⟩
  · rw [hcommands, hreplies]
    exact hall

theorem queue (hw : w.Heard id request actions) (h : w.Stepped action w') {command : ChildCommand}
    (hrequests : w'.requests = w.requests) (hcommands : w'.commands = w.commands ++ [command])
    (hreplies : replies (actions ++ [action]) =
      replies actions ++ [command].filterMap ChildCommand.answer) :
    w'.Heard id request (actions ++ [action]) := by
  obtain ⟨taken, refused, resumed, hreq, hresumed, hrefused, hall⟩ := hw
  refine ⟨taken, refused, resumed, hrequests.trans hreq, ?_, ?_, ?_⟩
  · exact hresumed.imp fun _ _ h' => h'.later h.told_subset action
  · exact hrefused.imp_right fun h' => ⟨h'.1, h.idle h'.2⟩
  · rw [hcommands, hreplies, ← List.append_assoc, List.filterMap_append, hall]

theorem step (hw : w.Heard id request actions) (hgrounded : w.Grounded id actions)
    (h : w.Stepped action w') : w'.Heard id request (actions ++ [action]) := by
  have hstep := h
  cases h with
  | settled result h =>
    exact hw.quiet hstep (settle_inputs result).1 (settle_inputs result).2 (by simp [replies])
  | @commanded completion command rest h hcommands =>
    obtain ⟨taken, refused, resumed, hreq, hresumed, hrefused, hall⟩ := hw
    have hnone : refused = [] := by
      rcases hrefused with hnone | ⟨-, hidle⟩
      · exact hnone
      · rw [busy, h] at hidle
        cases hidle
    subst hnone
    have hseen : Seen id actions w.told (.listening completion) := h ▸ hgrounded.phase
    have htaken : List.Forall₂ (Resumed id (actions ++ [.commanded])
        (({ w with commands := rest } : Worker).resume completion command).told) taken resumed :=
      hresumed.imp fun _ _ h' => h'.later hstep.told_subset .commanded
    have hkept : (taken ++ [command] ++ rest).filterMap ChildCommand.answer =
        replies (actions ++ [.commanded]) := by
      rw [hcommands, List.append_nil] at hall
      rw [List.append_assoc]
      simpa [replies] using hall
    rcases resume_cases (w := { w with commands := rest }) completion command with
      ⟨error, -, hs⟩ | ⟨request', hrequest, hs⟩
    · rw [hs] at htaken ⊢
      exact ⟨taken, [command], resumed, hreq, htaken, .inr ⟨rfl, rfl⟩, hkept⟩
    · have hresumed' : Resumed id (actions ++ [.commanded])
          (({ w with commands := rest } : Worker).resume completion command).told
          command request' :=
        ⟨completion, List.mem_append_left _ hseen.1, hseen.2.later hstep.told_subset, hrequest⟩
      refine ⟨taken ++ [command], [], resumed ++ [request'], ?_, ?_, .inl rfl, ?_⟩
      · rw [hs]
        show w.requests ++ [request'] = _
        rw [hreq]
        rfl
      · exact List.rel_append htaken (.cons hresumed' .nil)
      · rw [hs, List.append_nil]
        exact hkept
  | reply answer hover => exact hw.queue hstep rfl rfl (by simp [replies, ChildCommand.answer])
  | cancel => exact hw.queue hstep rfl rfl (by simp [replies, ChildCommand.answer])
  | _ => exact hw.quiet hstep rfl rfl (by simp [replies])

end Heard

variable {id : String} {first : Nat} {request : Request}

private theorem heard_attach : (attach id first request).Heard id request [] :=
  ⟨[], [], [], rfl, .nil, .inl rfl, rfl⟩

private theorem grounded_attach : (attach id first request).Grounded id [] :=
  ⟨rfl, (fun _ h => nomatch h), (fun h => nomatch h), (fun _ h => nomatch h), trivial⟩

private theorem onCourse_attach : (attach id first request).OnCourse :=
  ⟨(fun _ h => nomatch h), .working, rfl, (fun h => nomatch h)⟩

private theorem numbered_attach : (attach id first request).Numbered first := ⟨rfl, rfl⟩

section Run

variable (hrun : Trace Moves (attach id first request) actions w)

include hrun

theorem numbered : w.Numbered first :=
  hrun.state_invariant numbered_attach fun hw h => hw.step (step_cases h)

private theorem onCourse : w.OnCourse :=
  hrun.state_invariant onCourse_attach fun hw h => hw.step (step_cases h)

private theorem grounded : w.Grounded id actions :=
  hrun.invariant grounded_attach fun hw h => hw.step (step_cases h)

theorem heard : w.Heard id request actions := by
  have hboth : w.Grounded id actions ∧ w.Heard id request actions :=
    hrun.invariant (I := fun actions w => w.Grounded id actions ∧ w.Heard id request actions)
      ⟨grounded_attach, heard_attach⟩
      fun hw h => ⟨hw.1.step (step_cases h), hw.2.step hw.1 (step_cases h)⟩
  exact hboth.2

end Run

end Worker

private theorem Course.over_last {updates : List OperationUpdate} {course : Course}
    (h : updates.foldlM Course.next .ended = some course) : updates = [] := by
  cases updates with
  | nil => rfl
  | cons update rest =>
    rw [List.foldlM_cons] at h
    cases h

private theorem Course.over_of_parting {updates : List OperationUpdate} {course course' : Course}
    (h : updates.foldlM Course.next course = some course') {update : OperationUpdate}
    (hmem : update ∈ updates) (hparting : Worker.Parting update) : course' = .ended := by
  induction updates generalizing course with
  | nil => cases hmem
  | cons first rest ih =>
    rw [List.foldlM_cons] at h
    obtain ⟨between, hnext, hrest⟩ := Option.bind_eq_some_iff.mp h
    rcases List.mem_cons.mp hmem with rfl | hmem
    · have hcourse : course ≠ .ended := by
        rintro rfl
        cases hnext
      rw [hparting.next hcourse] at hnext
      cases hnext
      obtain rfl := Course.over_last hrest
      cases hrest
      rfl
    · exact ih hrest hmem

def sampleAsking : Completion where
  checkpoint :=
    { sampleCheckpoint [sampleEntry 0 "go"] with
      state := .suspended ⟨"question", "host", none, []⟩ }
  valid := by decide +kernel
  settled := rfl

def sampleActions : List ChildAction :=
  [.settled (.ok sampleAsking), .sent, .receive, .reply ⟨[.user [.text "yes"]], []⟩, .commanded,
    .sent, .settled (.error .cancelled), .sent]

def Attached (w : Worker) : Prop := ∃ id first request, w = .attach id first request

namespace RuntimeAgentBackend

variable (b : RuntimeAgentBackend)

private theorem attach_ok {id : String} {sequence : Nat} {request : Request}
    {pool pool' : Pool Worker}
    (h : attach id sequence request pool = .ok pool') :
    Pool.Step Worker.held Attached Worker.Moves pool
      (.join (.attach id sequence request)) pool' := by
  unfold attach at h
  split at h
  · cases h
  · next hfree =>
    cases h
    exact .join ⟨id, sequence, request, rfl⟩ (Nat.pos_of_ne_zero hfree)

private theorem start_ok {prompt : String} {parent : RunContext} {cancelled : Bool}
    {operationId : String}
    {now : Nat} {pool pool' : Pool Worker}
    (h : b.start prompt parent cancelled operationId now pool = .ok pool') :
    ∃ w, Pool.Step Worker.held Attached Worker.Moves pool (.join w) pool' := by
  obtain ⟨_, -, h⟩ := Result.bind_ok h
  obtain ⟨request, -, hattach⟩ := Result.bind_ok h
  exact ⟨_, attach_ok hattach⟩

private theorem recover_attached {operation : OperationRecord} {id : String}
    {stored : Result (Option Checkpoint)} {pool pool' : Pool Worker}
    (h : recover operation id stored pool = .ok (.attached pool')) :
    ∃ w, Pool.Step Worker.held Attached Worker.Moves pool (.join w) pool' := by
  unfold recover at h
  split at h
  · cases h
  · split at h
    · cases h
    · cases h
    · split at h
      · cases h
      · obtain ⟨request, -, h⟩ := Result.bind_ok h
        obtain ⟨joined, hattach, h⟩ := Result.bind_ok h
        cases h
        exact ⟨_, attach_ok hattach⟩

private theorem step_pooled {pool : Pool Worker} (hpermit : ∀ w ∈ pool.parties, w.permit = w.busy)
    (action : BackendAction) : b.step pool action = pool ∨ ∃ label,
      Pool.Step Worker.held Attached Worker.Moves pool label (b.step pool action) := by
  cases action with
  | start prompt parent cancelled operationId now =>
    simp only [step]
    split
    · next hstart =>
      obtain ⟨w, hjoin⟩ := b.start_ok hstart
      exact .inr ⟨_, hjoin⟩
    · exact .inl rfl
  | recover operation id stored =>
    simp only [step]
    split
    · next hrecover =>
      obtain ⟨w, hjoin⟩ := recover_attached hrecover
      exact .inr ⟨_, hjoin⟩
    · exact .inl rfl
    · exact .inl rfl
  | worker index action =>
    simp only [step]
    split
    · exact .inl rfl
    · next w hw =>
      split
      · exact .inl rfl
      · next w' hstep =>
        have hle := (Worker.step_cases hstep).held_le (hpermit w (List.mem_of_getElem? hw))
        exact .inr ⟨_, .move hw hstep (by omega)⟩

theorem pooled {actions : List BackendAction} {pool : Pool Worker}
    (hrun : Trace b.Moves (Pool.start b.maxRunning) actions pool) :
    ∃ labels, Trace (Pool.Step Worker.held Attached Worker.Moves) (Pool.start b.maxRunning)
      labels pool := by
  refine hrun.state_invariant (I := fun pool => ∃ labels, Trace _ _ labels pool) ⟨[], .start⟩ ?_
  rintro pool action pool' ⟨labels, hlabels⟩ hmove
  have hpermit : ∀ w ∈ pool.parties, w.permit = w.busy := by
    refine Pool.forall_parties ?_ (fun hw h => (Worker.step_cases h).permit hw) hlabels
    rintro w ⟨id, first, request, rfl⟩
    rfl
  subst hmove
  rcases b.step_pooled hpermit action with h | ⟨label, h⟩
  · rw [h]
    exact ⟨labels, hlabels⟩
  · exact ⟨_, .next hlabels h⟩

end RuntimeAgentBackend

/-- Each child of a backend is one of its workers' runs. The permits that are not free are those of
the workers that are busy, so that a further child is refused exactly when there are as many of
these as the backend allows. A worker that has told its parent of its end holds none. -/
theorem children_bounded (b : RuntimeAgentBackend) {actions : List BackendAction}
    {pool : Pool Worker} (hrun : Trace b.Moves (Pool.start b.maxRunning) actions pool) :
    pool.free + pool.parties.countP Worker.busy = b.maxRunning ∧
    (∀ id first request,
      (∃ pool', RuntimeAgentBackend.attach id first request pool = .ok pool') ↔
        pool.parties.countP Worker.busy < b.maxRunning) ∧
    ∀ w ∈ pool.parties,
      (∃ first request own, Trace Worker.Moves (.attach w.id first request) own w) ∧
      ((∃ event ∈ w.told, Worker.Parting event.update) → w.busy = false) := by
  obtain ⟨labels, hlabels⟩ := b.pooled hrun
  have hpermit : ∀ w ∈ pool.parties, w.permit = w.busy := by
    refine Pool.forall_parties ?_ (fun hw h => (Worker.step_cases h).permit hw) hlabels
    rintro w ⟨id, first, request, rfl⟩
    rfl
  have hheld : ∀ w ∈ pool.parties, w.held = w.busy.toNat := fun w hw => by
    rw [Worker.held, hpermit w hw]
    cases w.busy with
    | true => rfl
    | false => rfl
  have hsum := Pool.conserved hlabels
  rw [Pool.held_eq_countP hheld] at hsum
  refine ⟨hsum, fun id first request => ?_, fun w hw => ?_⟩
  · unfold RuntimeAgentBackend.attach
    split
    · next hfree =>
      refine ⟨(fun ⟨_, h⟩ => nomatch h), fun h => ?_⟩
      omega
    · next hfree =>
      refine ⟨fun _ => ?_, fun _ => ⟨_, rfl⟩⟩
      omega
  · obtain ⟨i, hi⟩ := List.getElem?_of_mem hw
    obtain ⟨_, ⟨id, first, request, rfl⟩, htrace⟩ := Pool.party hlabels hi
    have hname : w.id = id := (Worker.grounded htrace).name
    refine ⟨⟨first, request, _, by rw [hname]; exact htrace⟩, ?_⟩
    rintro ⟨event, hevent, hparting⟩
    obtain ⟨-, course, hcourse, hallows⟩ := Worker.onCourse htrace
    have hover := Course.over_of_parting hcourse (List.mem_map_of_mem hevent) hparting
    by_contra hbusy
    refine absurd hover (hallows.open fun hended => hbusy ?_)
    rw [Worker.busy, hended]

/-- A backend for one child at a time, that is asked for two. -/
def sampleBackend : RuntimeAgentBackend := ⟨1, "", sampleOptions sampleLimits, Nat.one_pos⟩

def sampleParent : RunContext := ⟨"run", 0, none, none, none, []⟩

def sampleBackendActions : List BackendAction :=
  [.start "go" sampleParent false "op" 0, .start "on" sampleParent false "other" 0,
    .worker 0 (.settled (.error .cancelled)), .worker 0 .sent]

def samplePool : Pool Worker := sampleBackendActions.foldl sampleBackend.step (Pool.start 1)

private theorem samplePool_run :
    Trace sampleBackend.Moves (Pool.start 1) sampleBackendActions samplePool :=
  .of_foldl (fun _ _ => rfl) sampleBackendActions

theorem children_bounded_sample : samplePool.parties.length = 1 ∧
    samplePool.free + samplePool.parties.countP Worker.busy = 1 :=
  ⟨by decide +kernel, (children_bounded sampleBackend samplePool_run).1⟩

end Zhir.Builtins
