import Zhir.MiniMax.Dialogue

/-!
What one stimulus makes of a synthesis session, and what its driver does with the actions.
-/

set_option autoImplicit false
set_option relaxedAutoImplicit false

namespace Zhir.MiniMax

open Zhir.Core

variable {s s' : Session} {actions : List WireAction} {now : Nat}

def frames (actions : List WireAction) : List Value :=
  actions.filterMap fun
    | .send frame => some frame
    | _ => none

def completions (events : List SessionEventBody) : List ResponseCompletion :=
  events.filterMap fun
    | .responseFinished completion => some completion
    | _ => none

def finishes (actions : List WireAction) : List ResponseCompletion :=
  actions.filterMap fun
    | .event (.responseFinished completion) => some completion
    | _ => none

/-- Nothing is handed to the synthesis and no response ends. -/
structure Silent (actions : List WireAction) : Prop where
  spoken : spokenTexts (frames actions) = []
  finishes : finishes actions = []

def Phase.awaits : Phase → Bool
  | .interrupting _ | .flushing | .finishing => true
  | _ => false

/-- The input and the context of the session stay as they are. -/
structure Session.Kept (s s' : Session) : Prop where
  position : s'.inputPosition = s.inputPosition
  messages : s'.request.messages = s.request.messages

theorem begins_ok {command : Option String} {expected : String} {phase : Phase}
    (h : s.begins now command expected phase = .ok s') : s'.phase = phase ∧ s.Kept s' := by
  obtain ⟨confirmation, -, h⟩ := Result.bind_ok h
  cases h
  exact ⟨rfl, rfl, rfl⟩

/-- Everything a command can do to a session that takes it. -/
inductive Taken (s s' : Session) (actions : List WireAction) : SessionCommandBody → Prop
  | generate {generationId text : String} {contextRevision inputPosition profileRevision : Nat}
      (hphase : s.phase = .ready) (htext : latestText s.request.messages = .ok text)
      (hphase' : s'.phase = .starting text) (hkept : s.Kept s') (hsilent : Silent actions) :
      Taken s s' actions (.generate generationId contextRevision inputPosition profileRevision)
  | record {entry : HistoryEntry} {contextRevision inputPosition : Nat}
      (hphase : s'.phase = s.phase) (hposition : s'.inputPosition = inputPosition)
      (hmessages : s'.request.messages = s.request.messages) (hsilent : Silent actions) :
      Taken s s' actions (.append entry contextRevision inputPosition .accepted)
  | queue {entry : HistoryEntry} {contextRevision inputPosition : Nat}
      (hphase : s.phase = .ready) (hphase' : s'.phase = .ready)
      (hposition : s'.inputPosition = inputPosition)
      (hmessages : s'.request.messages = s.request.messages ++ [entry.message])
      (hsilent : Silent actions) :
      Taken s s' actions (.append entry contextRevision inputPosition .submitted)
  | speak {entry : HistoryEntry} {contextRevision inputPosition : Nat} {text : String}
      (hphase : s.phase = .speaking) (hphase' : s'.phase = .speaking)
      (hposition : s'.inputPosition = inputPosition) (htext : userText entry.message = .ok text)
      (hspoken : spokenTexts (frames actions) = [text]) (hfinishes : finishes actions = []) :
      Taken s s' actions (.append entry contextRevision inputPosition .submitted)
  | barrier {body : SessionCommandBody} (hbody : isAppend body = false)
      (hphase : s.phase = .speaking) (hphase' : s'.phase.awaits = true) (hkept : s.Kept s')
      (hsilent : Silent actions) : Taken s s' actions body
  | close (hsame : s' = s) (hsilent : Silent actions) : Taken s s' actions .close

private theorem taken_generate {commandId generationId : String}
    {contextRevision inputPosition profileRevision : Nat} (hphase : s.phase = .ready)
    (h : s.generate now commandId generationId contextRevision inputPosition profileRevision =
      .ok (actions, s')) :
    Taken s s' actions
      (.generate generationId contextRevision inputPosition profileRevision) := by
  obtain ⟨_, -, h⟩ := Result.bind_ok h
  obtain ⟨_, -, h⟩ := Result.bind_ok h
  obtain ⟨text, htext, h⟩ := Result.bind_ok h
  obtain ⟨s₁, hbegins, h⟩ := Result.bind_ok h
  cases h
  obtain ⟨hphase', hkept⟩ := begins_ok hbegins
  refine .generate hphase htext hphase' ⟨hkept.position, hkept.messages⟩ ⟨?_, rfl⟩
  change ([startFrame s'.config s'.sessionId].filterMap spokenText) = []
  rw [List.filterMap_cons, spokenText_startFrame]
  rfl

private theorem taken_append {commandId : String} {entry : HistoryEntry}
    {contextRevision inputPosition : Nat} {source : AppendSource}
    (h : s.append commandId entry contextRevision inputPosition source = .ok (actions, s')) :
    Taken s s' actions (.append entry contextRevision inputPosition source) := by
  obtain ⟨_, -, h⟩ := Result.bind_ok h
  cases source with
  | accepted =>
    cases h
    exact .record rfl rfl rfl ⟨rfl, rfl⟩
  | submitted =>
    simp only [reduceCtorEq, if_false] at h
    split at h
    · rename_i hready
      cases h
      exact .queue hready hready rfl rfl ⟨rfl, rfl⟩
    · obtain ⟨_, hspeaking, h⟩ := Result.bind_ok h
      obtain ⟨text, htext, h⟩ := Result.bind_ok h
      cases h
      have hphase : s.phase = .speaking := require_ok hspeaking
      exact .speak hphase hphase rfl htext rfl rfl

private theorem taken_interrupt {commandId generationId : String} {outputEpoch : Nat}
    (hphase : s.phase = .speaking)
    (h : s.interrupt now commandId generationId outputEpoch = .ok (actions, s')) :
    Taken s s' actions (.interruptOutput generationId outputEpoch) := by
  obtain ⟨_, -, h⟩ := Result.bind_ok h
  obtain ⟨_, -, h⟩ := Result.bind_ok h
  obtain ⟨s₁, hbegins, h⟩ := Result.bind_ok h
  cases h
  obtain ⟨hphase', hkept⟩ := begins_ok hbegins
  exact .barrier rfl hphase (by rw [hphase']; rfl) hkept ⟨rfl, rfl⟩

theorem command_taken {command : SessionCommand}
    (h : s.command now command = .ok (actions, s')) : Taken s s' actions command.body := by
  obtain ⟨_, -, h⟩ := Result.bind_ok h
  have hbarrier : ∀ {expected : String} {phase : Phase} {frame : Value} {body : SessionCommandBody},
      isAppend body = false → s.phase = .speaking → phase.awaits = true →
      spokenText frame = none →
      (do
        let s ← s.begins now (some command.id) expected phase
        return ([WireAction.send frame], s)) = .ok (actions, s') → Taken s s' actions body := by
    intro expected phase frame body hbody hphase hawaits hframe hrun
    obtain ⟨s₁, hbegins, hrun⟩ := Result.bind_ok hrun
    cases hrun
    obtain ⟨rfl, hkept⟩ := begins_ok hbegins
    refine .barrier hbody hphase hawaits hkept ⟨?_, rfl⟩
    change [frame].filterMap spokenText = []
    rw [List.filterMap_cons, hframe]
    rfl
  split at h
  · rename_i hbody hphase
    rw [hbody]
    exact taken_generate hphase h
  · rename_i hbody
    rw [hbody]
    exact taken_append h
  · rename_i hbody hphase
    rw [hbody]
    exact taken_interrupt hphase h
  · rename_i hbody hphase
    rw [hbody]
    exact hbarrier rfl hphase rfl rfl h
  · rename_i hbody hphase
    rw [hbody]
    exact hbarrier rfl hphase rfl rfl h
  · rename_i hbody
    rw [hbody]
    cases h
    exact .close rfl ⟨rfl, rfl⟩
  · cases h

/-- Everything a message of the service can do to a session that takes it. -/
inductive Heard (s s' : Session) (actions : List WireAction) : Prop
  | connected (hphase : s.phase = .connecting) (hphase' : s'.phase = .ready) (hkept : s.Kept s')
      (hsilent : Silent actions)
  | started {text : String} (hphase : s.phase = .starting text) (hphase' : s'.phase = .speaking)
      (hkept : s.Kept s') (hspoken : spokenTexts (frames actions) = [text])
      (hfinishes : finishes actions = [])
  | finished {completion : ResponseCompletion} (hphase : s.phase = .finishing)
      (hphase' : s'.phase = .finished) (hkept : s.Kept s')
      (hposition : completion.inputPosition = s.inputPosition)
      (hspoken : spokenTexts (frames actions) = []) (hfinishes : finishes actions = [completion])
  | running (hphase : s.phase.synthesizes = true) (hphase' : s'.phase.synthesizes = true)
      (hkept : s.Kept s') (hsilent : Silent actions)
  | idle (hphase' : s'.phase = s.phase) (hkept : s.Kept s') (hsilent : Silent actions)

theorem frames_append (xs ys : List WireAction) : frames (xs ++ ys) = frames xs ++ frames ys :=
  List.filterMap_append

theorem finishes_append (xs ys : List WireAction) :
    finishes (xs ++ ys) = finishes xs ++ finishes ys := List.filterMap_append

theorem Silent.append {xs ys : List WireAction} (hx : Silent xs) (hy : Silent ys) :
    Silent (xs ++ ys) := by
  refine ⟨?_, ?_⟩
  · rw [frames_append, spokenTexts_append, hx.spoken, hy.spoken]
    rfl
  · rw [finishes_append, hx.finishes, hy.finishes]
    rfl

theorem Session.Kept.trans {s₁ s₂ s₃ : Session} (h : s₁.Kept s₂) (h' : s₂.Kept s₃) :
    s₁.Kept s₃ :=
  ⟨h'.position.trans h.position, h'.messages.trans h.messages⟩

theorem Heard.after {s₁ : Session} {xs : List WireAction} (h : Heard s₁ s' actions)
    (hphase : s₁.phase = s.phase) (hkept : s.Kept s₁) (hsilent : Silent xs) :
    Heard s s' (xs ++ actions) := by
  have hspoken : spokenTexts (frames (xs ++ actions)) = spokenTexts (frames actions) := by
    rw [frames_append, spokenTexts_append, hsilent.spoken]
    rfl
  have hfinishes : finishes (xs ++ actions) = finishes actions := by
    rw [finishes_append, hsilent.finishes]
    rfl
  cases h with
  | connected hbefore hafter hsame hquiet =>
    rw [hphase] at hbefore
    exact .connected hbefore hafter (hkept.trans hsame) (hsilent.append hquiet)
  | started hbefore hafter hsame htext hnone =>
    rw [hphase] at hbefore
    exact .started hbefore hafter (hkept.trans hsame) (hspoken.trans htext)
      (hfinishes.trans hnone)
  | finished hbefore hafter hsame hposition hnone hone =>
    rw [hphase] at hbefore
    exact .finished hbefore hafter (hkept.trans hsame) (hposition.trans hkept.position)
      (hspoken.trans hnone) (hfinishes.trans hone)
  | running hbefore hafter hsame hquiet =>
    rw [hphase] at hbefore
    exact .running hbefore hafter (hkept.trans hsame) (hsilent.append hquiet)
  | idle hafter hsame hquiet =>
    exact .idle (hafter.trans hphase) (hkept.trans hsame) (hsilent.append hquiet)

theorem confirmedCommand_ok {id : String} (h : s.confirmedCommand now = .ok (id, s')) :
    ∃ confirmation, s' = { s with confirmation } := by
  obtain ⟨⟨value, confirmation⟩, -, h⟩ := Result.bind_ok h
  cases value with
  | none => cases h
  | some id =>
    cases h
    exact ⟨confirmation, rfl⟩

private theorem takeMetadata_ok {value : Value} (h : s.takeMetadata value = .ok s') :
    s'.phase = s.phase ∧ s.Kept s' := by
  unfold Session.takeMetadata at h
  split at h
  · cases h
    exact ⟨rfl, rfl, rfl⟩
  · obtain ⟨_, -, h⟩ := Result.bind_ok h
    cases h
    exact ⟨rfl, rfl, rfl⟩

private theorem takeAudio_ok {audio : Option String}
    (h : s.takeAudio now audio = .ok (actions, s')) :
    s'.phase = s.phase ∧ s.Kept s' ∧ Silent actions := by
  unfold Session.takeAudio at h
  split at h
  · cases h
    exact ⟨rfl, ⟨rfl, rfl⟩, rfl, rfl⟩
  · cases h
    exact ⟨rfl, ⟨rfl, rfl⟩, rfl, rfl⟩
  · obtain ⟨_, -, h⟩ := Result.bind_ok h
    obtain ⟨⟨chunk, audio⟩, -, h⟩ := Result.bind_ok h
    cases h
    exact ⟨rfl, ⟨rfl, rfl⟩, rfl, rfl⟩

private theorem serviceEvent_heard {value : Value} {event audio : Option String}
    (h : s.serviceEvent now value event audio = .ok (actions, s')) : Heard s s' actions := by
  unfold Session.serviceEvent at h
  split at h
  · rename_i hphase
    obtain ⟨⟨_, confirmation⟩, -, h⟩ := Result.bind_ok h
    cases h
    exact .connected hphase rfl ⟨rfl, rfl⟩ ⟨rfl, rfl⟩
  · rename_i text hphase
    obtain ⟨⟨id, s₁⟩, hconfirmed, h⟩ := Result.bind_ok h
    obtain ⟨confirmation, rfl⟩ := confirmedCommand_ok hconfirmed
    obtain ⟨generationId, -, h⟩ := Result.bind_ok h
    cases h
    exact .started hphase rfl ⟨rfl, rfl⟩ rfl rfl
  · rename_i epoch hphase
    obtain ⟨⟨id, s₁⟩, hconfirmed, h⟩ := Result.bind_ok h
    obtain ⟨confirmation, rfl⟩ := confirmedCommand_ok hconfirmed
    obtain ⟨audio, -, h⟩ := Result.bind_ok h
    cases h
    exact .running (by rw [hphase]; rfl) rfl ⟨rfl, rfl⟩ ⟨rfl, rfl⟩
  · rename_i hphase
    obtain ⟨⟨id, s₁⟩, hconfirmed, h⟩ := Result.bind_ok h
    obtain ⟨confirmation, rfl⟩ := confirmedCommand_ok hconfirmed
    cases h
    exact .running (by rw [hphase]; rfl) rfl ⟨rfl, rfl⟩ ⟨rfl, rfl⟩
  · rename_i hphase
    obtain ⟨⟨id, s₁⟩, hconfirmed, h⟩ := Result.bind_ok h
    obtain ⟨confirmation, rfl⟩ := confirmedCommand_ok hconfirmed
    obtain ⟨_, -, h⟩ := Result.bind_ok h
    obtain ⟨generationId, -, h⟩ := Result.bind_ok h
    cases h
    exact .finished hphase rfl ⟨rfl, rfl⟩ rfl rfl rfl
  · obtain ⟨_, -, h⟩ := Result.bind_ok h
    obtain ⟨audio, -, h⟩ := Result.bind_ok h
    cases h
    exact .idle rfl ⟨rfl, rfl⟩ ⟨rfl, rfl⟩
  · obtain ⟨_, -, h⟩ := Result.bind_ok h
    obtain ⟨⟨chunk, audio⟩, -, h⟩ := Result.bind_ok h
    cases h
    exact .idle rfl ⟨rfl, rfl⟩ ⟨rfl, rfl⟩
  · obtain ⟨_, -, h⟩ := Result.bind_ok h
    cases h
    exact .idle rfl ⟨rfl, rfl⟩ ⟨rfl, rfl⟩
  · obtain ⟨_, -, h⟩ := Result.bind_ok h
    cases h
    exact .idle rfl ⟨rfl, rfl⟩ ⟨rfl, rfl⟩
  · cases h

private theorem receiveEvent_heard {value : Value}
    (h : s.receiveEvent now value = .ok (actions, s')) :
    Heard s s' actions := by
  obtain ⟨event, -, h⟩ := Result.bind_ok h
  obtain ⟨audio, -, h⟩ := Result.bind_ok h
  obtain ⟨s₁, hmetadata, h⟩ := Result.bind_ok h
  obtain ⟨⟨media, s₂⟩, haudio, h⟩ := Result.bind_ok h
  obtain ⟨⟨events, s₃⟩, hservice, h⟩ := Result.bind_ok h
  cases h
  obtain ⟨hphase₁, hkept₁⟩ := takeMetadata_ok hmetadata
  obtain ⟨hphase₂, hkept₂, hsilent⟩ := takeAudio_ok haudio
  have hobserved : Silent (.observe value :: media) := ⟨hsilent.spoken, hsilent.finishes⟩
  exact (serviceEvent_heard hservice).after (hphase₂.trans hphase₁) (hkept₁.trans hkept₂)
    hobserved

theorem receive_heard {message : WireMessage}
    (h : s.receive now message = .ok (actions, s')) : Heard s s' actions := by
  obtain ⟨_, -, h⟩ := Result.bind_ok h
  cases message with
  | binary => cases h
  | text value =>
    cases value with
    | none => cases h
    | some value =>
      obtain ⟨_, -, h⟩ := Result.bind_ok h
      split at h
      · exact receiveEvent_heard h
      · obtain ⟨failure, -, h⟩ := Result.bind_ok h
        cases failure with
        | some failure =>
          cases h
          exact .idle rfl ⟨rfl, rfl⟩ ⟨rfl, rfl⟩
        | none => exact receiveEvent_heard h

/-- The driver has carried out the actions, which came from its session `s`. -/
structure Driver.Did (d d' : Driver) (s : Session) (actions : List WireAction) : Prop where
  session : d'.session = s
  sent : d'.sent = d.sent ++ frames actions
  emitted : completions d'.emitted = completions d.emitted ++ finishes actions

private theorem completions_append (xs ys : List SessionEventBody) :
    completions (xs ++ ys) = completions xs ++ completions ys := List.filterMap_append

private theorem Driver.perform_did {d : Driver} (hgoes : d.stopped = false) (action : WireAction) :
    d.Did (d.perform action) d.session [action] := by
  have hgoes' : ¬ d.stopped = true := by simp [hgoes]
  refine ⟨Driver.perform_session d action, ?_, ?_⟩
  · unfold Driver.perform
    rw [if_neg hgoes']
    cases action with
    | send frame => rfl
    | _ => exact (List.append_nil _).symm
  · unfold Driver.perform
    rw [if_neg hgoes']
    cases action with
    | event body =>
      rw [completions_append]
      cases body <;> rfl
    | observe data =>
      rw [completions_append]
      rfl
    | _ => exact (List.append_nil _).symm

theorem Driver.Did.trans {d d₁ d₂ : Driver} {s s' : Session} {xs ys : List WireAction}
    (h : d.Did d₁ s xs) (h' : d₁.Did d₂ s' ys) : d.Did d₂ s' (xs ++ ys) where
  session := h'.session
  sent := by rw [h'.sent, h.sent, frames_append, List.append_assoc]
  emitted := by rw [h'.emitted, h.emitted, finishes_append, List.append_assoc]

private theorem Driver.did_nil (d : Driver) : d.Did d d.session [] where
  session := rfl
  sent := (List.append_nil _).symm
  emitted := (List.append_nil _).symm

/-- Some first actions are carried out; all of them, unless the driver stops. -/
private theorem Driver.foldl_did {d : Driver} (hgoes : d.stopped = false)
    (actions : List WireAction) :
    ∃ done, done <+: actions ∧ d.Did (actions.foldl Driver.perform d) d.session done ∧
      ((actions.foldl Driver.perform d).stopped = false → done = actions) := by
  induction actions generalizing d with
  | nil => exact ⟨[], List.prefix_rfl, d.did_nil, fun _ => rfl⟩
  | cons action rest ih =>
    have hfirst := Driver.perform_did hgoes action
    cases hstopped : (d.perform action).stopped with
    | true =>
      rw [List.foldl_cons, Driver.foldl_stopped hstopped]
      refine ⟨[action], List.prefix_append [action] rest, hfirst, fun hnot => ?_⟩
      rw [hstopped] at hnot
      cases hnot
    | false =>
      obtain ⟨done, hprefix, hdid, hall⟩ := ih hstopped
      rw [Driver.perform_session] at hdid
      refine ⟨action :: done, List.cons_prefix_cons.mpr ⟨rfl, hprefix⟩, hfirst.trans hdid, ?_⟩
      intro hrunning
      rw [hall hrunning]

theorem Driver.performs_did {d : Driver} (hgoes : d.stopped = false) (failing : Option Nat)
    (actions : List WireAction) :
    ∃ done, done <+: actions ∧ d.Did (d.performs failing actions) d.session done ∧
      ((d.performs failing actions).stopped = false → done = actions) := by
  cases failing with
  | none => exact Driver.foldl_did hgoes actions
  | some n =>
    obtain ⟨done, hprefix, hdid, -⟩ := Driver.foldl_did hgoes (actions.take n)
    refine ⟨done, hprefix.trans (List.take_prefix n actions), ?_, fun hnot => by cases hnot⟩
    exact ⟨hdid.session, hdid.sent, hdid.emitted⟩

end Zhir.MiniMax
