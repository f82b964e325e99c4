import Zhir.Library.Streams
import Zhir.MiniMax.Outcomes

/-!
The sentences a session has begun, and the audio it has put out for each of them.
-/

set_option autoImplicit false
set_option relaxedAutoImplicit false

namespace Zhir.MiniMax

open Zhir.Core
open Zhir.Models (asString)
open Zhir.Library (Sequenced)

variable {s s' : Session} {actions : List WireAction} {now : Nat}

def media (actions : List WireAction) : List MediaChunk :=
  actions.filterMap fun
    | .media chunk => some chunk
    | _ => none

def failure (actions : List WireAction) : Option Error :=
  actions.findSome? fun
    | .fail error => some error
    | _ => none

inductive Arrival
  | message (now : Nat) (message : WireMessage)
  | command (now : Nat) (command : SessionCommand)

def Session.reach (arrival : Arrival) (s : Session) : Result (List WireAction × Session) :=
  match arrival with
  | .message now message => s.receive now message
  | .command now command => s.command now command

/-- The session takes what has arrived; a rejection by the service ends it. -/
def Session.take (arrival : Arrival) (s : Session) : Result (List WireAction × Session) := do
  let (actions, s) ← s.reach arrival
  match failure actions with
  | none => return (actions, s)
  | some error => throw error

def Arrival.event : Arrival → Option String
  | .message _ (.text (some value)) => (Value.field "event" value).bind asString
  | _ => none

/-- A session's sentences, counted by the messages that begin them, with the chunks that were
put out while each was the last one begun, and those an interruption found open. -/
structure Account where
  session : Session
  begun : Nat := 0
  played : List (Nat × MediaChunk) := []
  cut : List Nat := []

namespace Account

def endedIn (played : List (Nat × MediaChunk)) (sentence : Nat) : Bool :=
  played.any fun chunk => chunk.1 = sentence && chunk.2.endOfStream

def step (arrival : Arrival) (a : Account) : Result Account := do
  let (actions, session) ← a.session.take arrival
  let played := a.played ++ (media actions).map fun chunk => (a.begun, chunk)
  let begun := if arrival.event = some "sentence_start" then a.begun + 1 else a.begun
  let cut :=
    if arrival.event = some "task_canceled" ∧ endedIn played a.begun = false then
      a.begun :: a.cut
    else a.cut
  return { session, begun, played, cut }

def opening (config : TtsConfig) (now : Nat) (o : SessionOpen) : Result Account := do
  let session ← Session.opening config now o
  let session ← session.connected now
  return { session }

def run (a : Account) (arrivals : List Arrival) : Result Account :=
  arrivals.foldlM (fun a arrival => a.step arrival) a

def chunks (a : Account) : List MediaChunk := a.played.map Prod.snd

end Account

/-- What a session opened with `o` can account for. -/
def Accountable (o : SessionOpen) (a : Account) : Prop :=
  ∃ config now start arrivals, Account.opening config now o = .ok start ∧
    start.run arrivals = .ok a

def sentenceStream (sentence : Nat) : String := "minimax-tts:" ++ toString sentence

/-- The next chunk of the sentence the audio is in. -/
structure Audio.Next (a : Audio) (final : Bool) (chunk : MediaChunk) : Prop where
  streamId : chunk.streamId = sentenceStream a.sentence
  epoch : chunk.epoch = a.epoch
  sequence : chunk.sequence = a.sequence
  endOfStream : chunk.endOfStream = final

inductive Audio.Sounded (a : Audio) : Audio → List MediaChunk → Prop
  | silent : Sounded a a []
  | chunk {c : MediaChunk} (hopen : a.opened = true) (hnext : a.Next false c) :
      Sounded a { a with sequence := a.sequence + 1 } [c]

inductive Audio.Turned (a : Audio) (event : Option String) : Audio → List MediaChunk → Prop
  | stays (hstart : event ≠ some "sentence_start") (hcancel : event ≠ some "task_canceled") :
      Turned a event a []
  | starts (hevent : event = some "sentence_start") (hopen : a.opened = false) :
      Turned a event { a with sentence := a.sentence + 1, sequence := 0, opened := true } []
  | closes {c : MediaChunk} (hevent : event = some "sentence_end") (hopen : a.opened = true)
      (hnext : a.Next true c) :
      Turned a event { a with sequence := a.sequence + 1, opened := false } [c]
  | cancels {epoch : Nat} (hevent : event = some "task_canceled") (hepoch : a.epoch < epoch) :
      Turned a event { a with epoch, opened := false, sequence := 0 } []

private theorem Audio.chunk_ok {a a' : Audio} {sessionId : String} {bytes : List UInt8}
    {final : Bool}
    {c : MediaChunk} (h : a.chunk now sessionId bytes final = .ok (c, a')) :
    a.Next final c ∧ a' = { a with sequence := a.sequence + 1 } := by
  obtain ⟨_, -, h⟩ := Result.bind_ok h
  cases h
  exact ⟨⟨rfl, rfl, rfl, rfl⟩, rfl⟩

private theorem media_append (xs ys : List WireAction) : media (xs ++ ys) = media xs ++ media ys :=
  List.filterMap_append

private theorem takeAudio_sounded {audio : Option String}
    (h : s.takeAudio now audio = .ok (actions, s')) :
    s.audio.Sounded s'.audio (media actions) ∧ s'.phase = s.phase := by
  unfold Session.takeAudio at h
  split at h
  · cases h
    exact ⟨.silent, rfl⟩
  · cases h
    exact ⟨.silent, rfl⟩
  · rename_i hex _
    obtain ⟨_, -, h⟩ := Result.bind_ok h
    obtain ⟨⟨c, audio⟩, hpush, h⟩ := Result.bind_ok h
    cases h
    obtain ⟨_, hopen, hpush⟩ := Result.bind_ok hpush
    obtain ⟨bytes, -, hpush⟩ := Result.bind_ok hpush
    obtain ⟨hnext, rfl⟩ := Audio.chunk_ok hpush
    exact ⟨.chunk (require_ok hopen) hnext, rfl⟩

private theorem serviceEvent_turned {value : Value} {event audio : Option String}
    (h : s.serviceEvent now value event audio = .ok (actions, s')) :
    s.audio.Turned event s'.audio (media actions) ∧
      (s'.phase = .finished → s'.audio.opened = false) := by
  unfold Session.serviceEvent at h
  split at h
  · obtain ⟨⟨_, confirmation⟩, -, h⟩ := Result.bind_ok h
    cases h
    exact ⟨.stays (by decide) (by decide), fun h => by cases h⟩
  · obtain ⟨⟨id, s₁⟩, hconfirmed, h⟩ := Result.bind_ok h
    obtain ⟨confirmation, rfl⟩ := confirmedCommand_ok hconfirmed
    obtain ⟨generationId, -, h⟩ := Result.bind_ok h
    cases h
    exact ⟨.stays (by decide) (by decide), fun h => by cases h⟩
  · obtain ⟨⟨id, s₁⟩, hconfirmed, h⟩ := Result.bind_ok h
    obtain ⟨confirmation, rfl⟩ := confirmedCommand_ok hconfirmed
    obtain ⟨audio, hcancel, h⟩ := Result.bind_ok h
    cases h
    obtain ⟨_, hepoch, hcancel⟩ := Result.bind_ok hcancel
    cases hcancel
    have hlt := require_ok hepoch
    exact ⟨.cancels rfl (Nat.lt_of_not_le hlt), fun h => by cases h⟩
  · obtain ⟨⟨id, s₁⟩, hconfirmed, h⟩ := Result.bind_ok h
    obtain ⟨confirmation, rfl⟩ := confirmedCommand_ok hconfirmed
    cases h
    exact ⟨.stays (by decide) (by decide), fun h => by cases h⟩
  · obtain ⟨⟨id, s₁⟩, hconfirmed, h⟩ := Result.bind_ok h
    obtain ⟨confirmation, rfl⟩ := confirmedCommand_ok hconfirmed
    obtain ⟨_, hfinish, h⟩ := Result.bind_ok h
    obtain ⟨generationId, -, h⟩ := Result.bind_ok h
    cases h
    exact ⟨.stays (by decide) (by decide), fun _ => require_ok hfinish⟩
  · obtain ⟨_, hphase, h⟩ := Result.bind_ok h
    obtain ⟨audio, hstart, h⟩ := Result.bind_ok h
    cases h
    obtain ⟨_, hopen, hstart⟩ := Result.bind_ok hstart
    obtain ⟨_, -, hstart⟩ := Result.bind_ok hstart
    cases hstart
    refine ⟨.starts rfl (require_ok hopen), fun hfinished => ?_⟩
    exact absurd (require_ok hphase) (by rw [show s.phase = _ from hfinished]; decide)
  · obtain ⟨_, hphase, h⟩ := Result.bind_ok h
    obtain ⟨⟨c, audio⟩, hclose, h⟩ := Result.bind_ok h
    cases h
    obtain ⟨_, hopen, hclose⟩ := Result.bind_ok hclose
    obtain ⟨⟨c', audio'⟩, hchunk, hclose⟩ := Result.bind_ok hclose
    cases hclose
    obtain ⟨hnext, rfl⟩ := Audio.chunk_ok hchunk
    exact ⟨.closes rfl (require_ok hopen) hnext, fun _ => rfl⟩
  · obtain ⟨_, hphase, h⟩ := Result.bind_ok h
    cases h
    refine ⟨.stays (by decide) (by decide), fun hfinished => ?_⟩
    exact absurd (require_ok hphase).2 (by rw [hfinished]; decide)
  · obtain ⟨_, hphase, h⟩ := Result.bind_ok h
    cases h
    refine ⟨.stays (by decide) (by decide), fun hfinished => ?_⟩
    exact absurd (require_ok hphase).2 (by rw [hfinished]; decide)
  · cases h

private theorem optionalString_ok {name : String} {value : Value} {found : Option String}
    (h : Session.optionalString name value = .ok found) :
    (Value.field name value).bind asString = found := by
  unfold Session.optionalString at h
  split at h
  · rename_i hfield
    cases h
    rw [hfield]
    rfl
  · rename_i text hfield
    cases h
    rw [hfield]
    rfl
  · cases h

/-- Everything an arrival does to the audio: what a message carries comes before what its
event does, and a response is only over with no sentence open. -/
structure Session.Heeded (s s' : Session) (event : Option String) (chunks : List MediaChunk) :
    Prop where
  parts : ∃ carried last between, chunks = carried ++ last ∧ s.audio.Sounded between carried ∧
    between.Turned event s'.audio last
  finished : s'.phase = .finished → s'.audio.opened = false ∨
    s.phase = .finished ∧ s'.audio = s.audio

private theorem receiveEvent_heeded {value : Value}
    (h : s.receiveEvent now value = .ok (actions, s')) :
    s.Heeded s' ((Value.field "event" value).bind asString) (media actions) := by
  obtain ⟨event, hevent, h⟩ := Result.bind_ok h
  obtain ⟨audio, -, h⟩ := Result.bind_ok h
  obtain ⟨s₁, hmetadata, h⟩ := Result.bind_ok h
  obtain ⟨⟨carried, s₂⟩, haudio, h⟩ := Result.bind_ok h
  obtain ⟨⟨events, s₃⟩, hservice, h⟩ := Result.bind_ok h
  cases h
  have hsame : s₁.audio = s.audio := by
    unfold Session.takeMetadata at hmetadata
    split at hmetadata
    · cases hmetadata
      rfl
    · obtain ⟨_, -, hmetadata⟩ := Result.bind_ok hmetadata
      cases hmetadata
      rfl
  obtain ⟨hsounded, -⟩ := takeAudio_sounded haudio
  obtain ⟨hturned, hfinished⟩ := serviceEvent_turned hservice
  rw [hsame] at hsounded
  rw [optionalString_ok hevent]
  refine ⟨⟨media carried, media events, s₂.audio, ?_, hsounded, hturned⟩,
    fun h => .inl (hfinished h)⟩
  exact media_append carried events

private theorem receive_heeded {message : WireMessage}
    (h : s.receive now message = .ok (actions, s'))
    (hfailure : failure actions = none) :
    s.Heeded s' (Arrival.message now message).event (media actions) := by
  obtain ⟨_, -, h⟩ := Result.bind_ok h
  cases message with
  | binary => cases h
  | text value =>
    cases value with
    | none => cases h
    | some value =>
      obtain ⟨_, -, h⟩ := Result.bind_ok h
      split at h
      · exact receiveEvent_heeded h
      · obtain ⟨rejected, -, h⟩ := Result.bind_ok h
        cases rejected with
        | some error =>
          cases h
          cases hfailure
        | none => exact receiveEvent_heeded h

private theorem command_heeded {command : SessionCommand}
    (h : s.command now command = .ok (actions, s')) :
    s.Heeded s' none (media actions) := by
  have hquiet : media actions = [] → s'.audio = s.audio →
      (s'.phase = .finished → s.phase = .finished) → s.Heeded s' none (media actions) := by
    intro hmedia haudio hphase
    refine ⟨⟨[], [], s.audio, hmedia, .silent, ?_⟩, fun h => .inr ⟨hphase h, haudio⟩⟩
    rw [haudio]
    exact .stays (by decide) (by decide)
  have hbarrier : ∀ {expected : String} {phase : Phase} {frame : Value},
      phase ≠ .finished →
      (do
        let s ← s.begins now (some command.id) expected phase
        return ([WireAction.send frame], s)) = .ok (actions, s') →
      s.Heeded s' none (media actions) := by
    intro expected phase frame hphase hrun
    obtain ⟨s₁, hbegins, hrun⟩ := Result.bind_ok hrun
    obtain ⟨confirmation, -, hbegins⟩ := Result.bind_ok hbegins
    cases hbegins
    cases hrun
    exact hquiet rfl rfl fun h => absurd h hphase
  obtain ⟨_, -, h⟩ := Result.bind_ok h
  split at h
  · obtain ⟨_, -, h⟩ := Result.bind_ok h
    obtain ⟨_, -, h⟩ := Result.bind_ok h
    obtain ⟨text, -, h⟩ := Result.bind_ok h
    obtain ⟨s₁, hbegins, h⟩ := Result.bind_ok h
    obtain ⟨confirmation, -, hbegins⟩ := Result.bind_ok hbegins
    cases hbegins
    cases h
    exact hquiet rfl rfl fun h => by cases h
  · rename_i source hbody
    obtain ⟨_, -, h⟩ := Result.bind_ok h
    cases source with
    | accepted =>
      cases h
      exact hquiet rfl rfl id
    | submitted =>
      simp only [reduceCtorEq, if_false] at h
      split at h
      · cases h
        exact hquiet rfl rfl id
      · obtain ⟨_, -, h⟩ := Result.bind_ok h
        obtain ⟨text, -, h⟩ := Result.bind_ok h
        cases h
        exact hquiet rfl rfl id
  · obtain ⟨_, -, h⟩ := Result.bind_ok h
    obtain ⟨_, -, h⟩ := Result.bind_ok h
    exact hbarrier (by simp) h
  · exact hbarrier (by decide) h
  · exact hbarrier (by decide) h
  · cases h
    exact hquiet rfl rfl id
  · cases h

private theorem take_heeded {arrival : Arrival} (h : s.take arrival = .ok (actions, s')) :
    s.Heeded s' arrival.event (media actions) := by
  obtain ⟨⟨taken, s₁⟩, htake, h⟩ := Result.bind_ok h
  cases hfailure : failure taken with
  | some error =>
    simp only [hfailure] at h
    cases h
  | none =>
    simp only [hfailure] at h
    cases h
    cases arrival with
    | message now message => exact receive_heeded htake hfailure
    | command now command => exact command_heeded htake

/-- What has been played agrees with the audio's own counters. -/
structure Audio.Kept (o : SessionOpen) (a : Audio) (begun : Nat) (played : List (Nat × MediaChunk))
    (cut : List Nat) : Prop where
  counted : begun = a.sentence
  /-- Every chunk was put out for a sentence that had begun, under its stream. -/
  attributed : ∀ p ∈ played, 1 ≤ p.1 ∧ p.1 ≤ begun ∧ p.2.streamId = sentenceStream p.1
  sequenced : Sequenced Prod.fst (fun p : Nat × MediaChunk => p.2.sequence)
    (fun p => p.2.endOfStream) played
  epochs : played.Pairwise fun p q => p.2.epoch ≤ q.2.epoch
  opened : o.outputEpoch ≤ a.epoch
  reached : ∀ p ∈ played, o.outputEpoch ≤ p.2.epoch ∧ p.2.epoch ≤ a.epoch
  single : ∀ p ∈ played, ∀ q ∈ played, p.1 = q.1 → p.2.epoch = q.2.epoch
  /-- While a sentence is open, its chunks carry on where they are. -/
  current : a.opened = true → 1 ≤ begun ∧ begun ∉ cut ∧
    ∀ p ∈ played, p.1 = begun → p.2.epoch = a.epoch ∧ p.2.sequence < a.sequence ∧
      p.2.endOfStream = false
  /-- Every other sentence was ended or cut. -/
  settled : ∀ i, 1 ≤ i → i ≤ begun →
    i ∈ cut ∨ Account.endedIn played i = true ∨ i = begun ∧ a.opened = true
  silenced : ∀ i ∈ cut, i ≤ begun ∧ Account.endedIn played i = false

section Kept

variable {o : SessionOpen} {a : Audio} {begun : Nat} {played : List (Nat × MediaChunk)}
  {cut : List Nat}

private theorem endedIn_append (xs ys : List (Nat × MediaChunk)) (i : Nat) :
    Account.endedIn (xs ++ ys) i = (Account.endedIn xs i || Account.endedIn ys i) := List.any_append

private theorem endedIn_false (h : ∀ p ∈ played, p.1 = begun → p.2.endOfStream = false) :
    Account.endedIn played begun = false := by
  unfold Account.endedIn
  rw [List.any_eq_false]
  intro p hp hends
  obtain ⟨hsentence, hend⟩ := Bool.and_eq_true _ _ ▸ hends
  rw [h p hp (of_decide_eq_true hsentence)] at hend
  cases hend

private theorem Audio.Kept.play {final : Bool} {c : MediaChunk} (h : a.Kept o begun played cut)
    (hopen : a.opened = true) (hnext : a.Next final c) :
    Audio.Kept o { a with sequence := a.sequence + 1, opened := !final } begun
      (played ++ [(begun, c)]) cut := by
  obtain ⟨hfirst, huncut, hcurrent⟩ := h.current hopen
  have hends : Account.endedIn (played ++ [(begun, c)]) begun = final := by
    rw [endedIn_append, endedIn_false fun p hp hsame => (hcurrent p hp hsame).2.2]
    simp [Account.endedIn, hnext.endOfStream]
  have hothers : ∀ i, i ≠ begun →
      Account.endedIn (played ++ [(begun, c)]) i = Account.endedIn played i := by
    intro i hi
    rw [endedIn_append]
    simp [Account.endedIn, Ne.symm hi]
  constructor
  case counted => exact h.counted
  case attributed =>
    intro p hp
    rcases List.mem_append.1 hp with hp | hp
    · exact h.attributed p hp
    · cases List.mem_singleton.1 hp
      refine ⟨hfirst, Nat.le_refl begun, ?_⟩
      rw [hnext.streamId, h.counted]
  case sequenced =>
    refine h.sequenced.snoc fun p hp hsame => ?_
    obtain ⟨-, hlt, hend⟩ := hcurrent p hp hsame
    refine ⟨?_, hend⟩
    change p.2.sequence < c.sequence
    rw [hnext.sequence]
    exact hlt
  case epochs =>
    refine List.pairwise_append.2 ⟨h.epochs, List.pairwise_singleton _ _, ?_⟩
    intro p hp q hq
    cases List.mem_singleton.1 hq
    change p.2.epoch ≤ c.epoch
    rw [hnext.epoch]
    exact (h.reached p hp).2
  case opened => exact h.opened
  case reached =>
    intro p hp
    rcases List.mem_append.1 hp with hp | hp
    · exact h.reached p hp
    · cases List.mem_singleton.1 hp
      change o.outputEpoch ≤ c.epoch ∧ c.epoch ≤ a.epoch
      rw [hnext.epoch]
      exact ⟨h.opened, Nat.le_refl a.epoch⟩
  case single =>
    have hsame : ∀ p ∈ played ++ [(begun, c)], p.1 = begun → p.2.epoch = a.epoch := by
      intro p hp hbegun
      rcases List.mem_append.1 hp with hp | hp
      · exact (hcurrent p hp hbegun).1
      · cases List.mem_singleton.1 hp
        exact hnext.epoch
    intro p hp q hq hpq
    by_cases hbegun : p.1 = begun
    · rw [hsame p hp hbegun, hsame q hq (hpq.symm.trans hbegun)]
    · have hold : ∀ r ∈ played ++ [(begun, c)], r.1 ≠ begun → r ∈ played := by
        intro r hr hne
        rcases List.mem_append.1 hr with hr | hr
        · exact hr
        · cases List.mem_singleton.1 hr
          exact absurd rfl hne
      exact h.single p (hold p hp hbegun) q (hold q hq fun hq' => hbegun (hpq.trans hq')) hpq
  case current =>
    intro hstill
    have hfinal : final = false := by simpa using hstill
    refine ⟨hfirst, huncut, fun p hp hsame => ?_⟩
    rcases List.mem_append.1 hp with hp | hp
    · obtain ⟨hepoch, hlt, hend⟩ := hcurrent p hp hsame
      exact ⟨hepoch, Nat.lt_succ_of_lt hlt, hend⟩
    · cases List.mem_singleton.1 hp
      refine ⟨hnext.epoch, ?_, hnext.endOfStream.trans hfinal⟩
      change c.sequence < a.sequence + 1
      rw [hnext.sequence]
      exact Nat.lt_succ_self _
  case settled =>
    intro i hpos hle
    by_cases hi : i = begun
    · subst hi
      cases hfinal : final with
      | true => exact .inr (.inl (hends.trans hfinal))
      | false => exact .inr (.inr ⟨rfl, rfl⟩)
    · rw [hothers i hi]
      rcases h.settled i hpos hle with hcut | hended | ⟨hlast, -⟩
      · exact .inl hcut
      · exact .inr (.inl hended)
      · exact absurd hlast hi
  case silenced =>
    intro i hi
    have hne : i ≠ begun := fun heq => huncut (heq ▸ hi)
    rw [hothers i hne]
    exact h.silenced i hi

theorem Audio.Kept.start (h : a.Kept o begun played cut) (hclosed : a.opened = false) :
    Audio.Kept o { a with sentence := a.sentence + 1, sequence := 0, opened := true } (begun + 1)
      played cut := by
  constructor
  case counted => rw [h.counted]
  case attributed =>
    intro p hp
    obtain ⟨hpos, hle, hstream⟩ := h.attributed p hp
    exact ⟨hpos, Nat.le_succ_of_le hle, hstream⟩
  case sequenced => exact h.sequenced
  case epochs => exact h.epochs
  case opened => exact h.opened
  case reached => exact h.reached
  case single => exact h.single
  case current =>
    intro _
    refine ⟨Nat.succ_pos begun, fun hcut => ?_, fun p hp hsame => ?_⟩
    · have := (h.silenced _ hcut).1
      omega
    · have := (h.attributed p hp).2.1
      omega
  case settled =>
    intro i hpos hle
    by_cases hi : i = begun + 1
    · exact .inr (.inr ⟨hi, rfl⟩)
    · rcases h.settled i hpos (by omega) with hcut | hended | ⟨-, hopen⟩
      · exact .inl hcut
      · exact .inr (.inl hended)
      · rw [hclosed] at hopen
        cases hopen
  case silenced =>
    intro i hi
    obtain ⟨hle, hended⟩ := h.silenced i hi
    exact ⟨Nat.le_succ_of_le hle, hended⟩

theorem Audio.Kept.cancel {epoch : Nat} (h : a.Kept o begun played cut) (hepoch : a.epoch < epoch) :
    Audio.Kept o { a with epoch, opened := false, sequence := 0 } begun played
      (if Account.endedIn played begun = false then begun :: cut else cut) := by
  constructor
  case counted => exact h.counted
  case attributed => exact h.attributed
  case sequenced => exact h.sequenced
  case epochs => exact h.epochs
  case opened => exact Nat.le_of_lt (Nat.lt_of_le_of_lt h.opened hepoch)
  case reached =>
    intro p hp
    obtain ⟨hfrom, hto⟩ := h.reached p hp
    exact ⟨hfrom, Nat.le_of_lt (Nat.lt_of_le_of_lt hto hepoch)⟩
  case single => exact h.single
  case current => exact fun hopen => by cases hopen
  case settled =>
    intro i hpos hle
    rcases h.settled i hpos hle with hcut | hended | ⟨rfl, hopen⟩
    · left
      split
      · exact List.mem_cons_of_mem begun hcut
      · exact hcut
    · exact .inr (.inl hended)
    · left
      obtain ⟨-, -, hcurrent⟩ := h.current hopen
      rw [if_pos (endedIn_false fun p hp hsame => (hcurrent p hp hsame).2.2)]
      exact List.mem_cons_self
  case silenced =>
    intro i hi
    split at hi
    · rename_i hended
      rcases List.mem_cons.1 hi with rfl | hi
      · exact ⟨Nat.le_refl i, hended⟩
      · exact h.silenced i hi
    · exact h.silenced i hi

private theorem Audio.Kept.sounded {a' : Audio} {carried : List MediaChunk}
    (h : a.Kept o begun played cut)
    (hsounded : a.Sounded a' carried) :
    Audio.Kept o a' begun (played ++ carried.map fun c => (begun, c)) cut := by
  cases hsounded with
  | silent =>
    rw [List.map_nil, List.append_nil]
    exact h
  | chunk hopen hnext =>
    have hplay := h.play hopen hnext
    rw [show (!false) = a.opened from hopen.symm] at hplay
    exact hplay

theorem Audio.Kept.turned {a' : Audio} {event : Option String} {last : List MediaChunk}
    (h : a.Kept o begun played cut) (hturned : a.Turned event a' last) :
    Audio.Kept o a' (if event = some "sentence_start" then begun + 1 else begun)
      (played ++ last.map fun c => (begun, c))
      (if event = some "task_canceled" ∧
          Account.endedIn (played ++ last.map fun c => (begun, c)) begun = false then begun :: cut
        else cut) := by
  cases hturned with
  | stays hstart hcancel =>
    rw [if_neg hstart, if_neg fun hboth => hcancel hboth.1, List.map_nil, List.append_nil]
    exact h
  | starts hevent hopen =>
    have hother : event ≠ some "task_canceled" := by
      rw [hevent]
      decide
    rw [if_pos hevent, if_neg fun hboth => hother hboth.1, List.map_nil, List.append_nil]
    exact h.start hopen
  | closes hevent hopen hnext =>
    have hstart : event ≠ some "sentence_start" := by
      rw [hevent]
      decide
    have hcancel : event ≠ some "task_canceled" := by
      rw [hevent]
      decide
    rw [if_neg hstart, if_neg fun hboth => hcancel hboth.1]
    exact h.play hopen hnext
  | cancels hevent hepoch =>
    have hstart : event ≠ some "sentence_start" := by
      rw [hevent]
      decide
    rw [if_neg hstart, List.map_nil, List.append_nil]
    simp only [hevent, true_and]
    exact h.cancel hepoch

end Kept

namespace Account

variable {o : SessionOpen} {a a' : Account}

structure Kept (o : SessionOpen) (a : Account) : Prop where
  audio : a.session.audio.Kept o a.begun a.played a.cut
  finished : a.session.phase = .finished → a.session.audio.opened = false

theorem Kept.step {arrival : Arrival} (h : a.Kept o) (hstep : a.step arrival = .ok a') :
    a'.Kept o := by
  obtain ⟨⟨actions, session⟩, htake, hstep⟩ := Result.bind_ok hstep
  cases hstep
  have hheeded := take_heeded htake
  obtain ⟨carried, last, between, hmedia, hsounded, hturned⟩ := hheeded.parts
  constructor
  · have hkept := (h.audio.sounded hsounded).turned hturned
    rw [List.append_assoc, ← List.map_append, ← hmedia] at hkept
    exact hkept
  · intro hphase
    rcases hheeded.finished hphase with hclosed | ⟨hbefore, hsame⟩
    · exact hclosed
    · change session.audio.opened = false
      rw [hsame]
      exact h.finished hbefore

theorem Kept.run {arrivals : List Arrival} (h : a.Kept o) (hrun : a.run arrivals = .ok a') :
    a'.Kept o := by
  induction arrivals generalizing a with
  | nil =>
    cases hrun
    exact h
  | cons arrival rest ih =>
    obtain ⟨next, hstep, hrest⟩ := Result.bind_ok hrun
    exact ih (h.step hstep) hrest

private theorem kept_opening {config : TtsConfig} (h : opening config now o = .ok a) :
    a.Kept o := by
  obtain ⟨s, hopening, h⟩ := Result.bind_ok h
  obtain ⟨_, -, hopening⟩ := Result.bind_ok hopening
  cases hopening
  obtain ⟨s₁, hconnected, h⟩ := Result.bind_ok h
  obtain ⟨confirmation, -, hconnected⟩ := Result.bind_ok hconnected
  cases hconnected
  cases h
  constructor
  · constructor
    case counted => rfl
    case sequenced => exact Sequenced.nil
    case epochs => exact List.Pairwise.nil
    case opened => exact Nat.le_refl o.outputEpoch
    case current => exact fun hopen => by cases hopen
    case settled =>
      intro i hpos hle
      change i ≤ 0 at hle
      omega
    all_goals exact fun _ hmem => by cases hmem
  · exact fun _ => rfl

/-- The audio of a session as a receiver may rely on it. -/
structure Conforms (a : Account) : Prop where
  /-- The chunks of a sentence have one stream and epoch, which no other sentence has. -/
  fresh : ∀ p ∈ a.played, ∀ q ∈ a.played,
    (p.2.streamId = q.2.streamId ∧ p.2.epoch = q.2.epoch) ↔ p.1 = q.1
  /-- Sequence numbers increase within a stream, and nothing follows its end. -/
  sequenced : Sequenced (fun c : MediaChunk => (c.streamId, c.epoch)) MediaChunk.sequence
    MediaChunk.endOfStream a.chunks
  epochs : a.chunks.Pairwise fun c d => c.epoch ≤ d.epoch
  /-- Once the task is finished, each sentence that was not cut has been ended once. -/
  ended : a.session.phase = .finished → ∀ i, 1 ≤ i → i ≤ a.begun → i ∉ a.cut →
    a.played.countP (fun p => p.1 = i && p.2.endOfStream) = 1
  /-- A sentence that was cut is never ended. -/
  cutOff : ∀ i ∈ a.cut, endedIn a.played i = false

private theorem sentenceStream_injective : Function.Injective sentenceStream := by
  intro i j h
  have hdigits : (toString i).toList = (toString j).toList := by
    have hlist := congrArg String.toList h
    unfold sentenceStream at hlist
    rw [String.toList_append, String.toList_append] at hlist
    exact List.append_cancel_left hlist
  have hrepr : ∀ n : Nat, (toString n).toList = Nat.toDigits 10 n := fun n => Nat.toList_repr
  rw [hrepr, hrepr] at hdigits
  have hread := congrArg (fun digits => Nat.ofDigitChars 10 digits 0) hdigits
  simpa only [Nat.ofDigitChars_ten_toDigits] using hread

theorem Kept.conforms (h : a.Kept o) : a.Conforms := by
  have hstream : ∀ p ∈ a.played, ∀ q ∈ a.played, p.2.streamId = q.2.streamId → p.1 = q.1 := by
    intro p hp q hq hsame
    rw [(h.audio.attributed p hp).2.2, (h.audio.attributed q hq).2.2] at hsame
    exact sentenceStream_injective hsame
  constructor
  case fresh =>
    intro p hp q hq
    constructor
    · exact fun hsame => hstream p hp q hq hsame.1
    · intro hsame
      rw [(h.audio.attributed p hp).2.2, (h.audio.attributed q hq).2.2, hsame]
      exact ⟨rfl, h.audio.single p hp q hq hsame⟩
  case sequenced =>
    have hnamed : Sequenced (fun p : Nat × MediaChunk => (p.2.streamId, p.2.epoch))
        (fun p => p.2.sequence) (fun p => p.2.endOfStream) a.played :=
      h.audio.sequenced.congr fun p hp q hq hsame => hstream p hp q hq (congrArg Prod.fst hsame)
    exact List.pairwise_map.2 hnamed
  case epochs => exact List.pairwise_map.2 h.audio.epochs
  case ended =>
    intro hphase i hpos hle hcut
    rcases h.audio.settled i hpos hle with hcut' | hended | ⟨-, hopen⟩
    · exact absurd hcut' hcut
    · obtain ⟨p, hp, hends⟩ := List.any_eq_true.1 hended
      obtain ⟨hsentence, hend⟩ := Bool.and_eq_true _ _ ▸ hends
      exact h.audio.sequenced.countP_final_eq_one hp (of_decide_eq_true hsentence) hend
    · rw [h.finished hphase] at hopen
      cases hopen
  case cutOff => exact fun i hi => (h.audio.silenced i hi).2

end Account

theorem Accountable.kept {o : SessionOpen} {a : Account} (h : Accountable o a) : a.Kept o := by
  obtain ⟨config, now, start, arrivals, hopening, hrun⟩ := h
  exact (Account.kept_opening hopening).run hrun

end Zhir.MiniMax
