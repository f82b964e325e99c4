import Zhir.Library.Permits
import Zhir.Models.Sse
import Zhir.Policies.Retry

/-!
One exchange with a model service over HTTP: the request is sent until it is answered or given up,
within a limit on requests that models share.
-/

set_option autoImplicit false
set_option relaxedAutoImplicit false

namespace Zhir.Models

open Zhir.Core Zhir.Library Zhir.Policies

structure Credential where
  generation : String
  scheme : String
  value : String
  expiresAtMs : Option Nat := none
  metadata : List (String × String) := []
  deriving DecidableEq, Repr

/-- What an exchange brings to `send`: `base_url`, `retry`, the deadline of the run, and whether
there is a `request_limit`. -/
structure Sender where
  audience : String
  policy : RetryPolicy
  deadline : Option Nat
  limited : Bool

inductive SendPhase
  | starting
  | acquiring
  /-- At the top of the loop of `attempt`, a second time if a credential was rejected. -/
  | ready (again : Bool)
  | resolving (again : Bool) (nowMs : Nat)
  | requesting (again : Bool) (credential : Credential)
  | invalidating (generation : String)
  /-- About to wait for the next attempt. -/
  | pausing (delay : Duration)
  | waiting (wake : Nat)
  | reading
  | done (result : Result Unit)
  | dropped

structure Send where
  sender : Sender
  failed : Nat := 0
  cancelled : Bool := false
  phase : SendPhase := .starting

inductive Answer
  /-- `error.is_connect()`. -/
  | unconnected (message : String)
  /-- `error.is_builder()`. -/
  | unbuilt (message : String)
  | lost (message : String)
  | response (status : Nat) (text : String) (retryAfter : Option String)
  deriving DecidableEq, Repr

inductive SendEvent
  | cancel
  /-- The exchange is dropped by its caller. -/
  | drop
  /-- `timing::check` fails. -/
  | interrupted
  | started
  | acquired
  | asked (nowMs : Nat)
  | resolved (result : Result Credential)
  | answered (answer : Answer)
  | invalidated (result : Result Unit)
  | paused
  | woken
  /-- The rest of the exchange. -/
  | read (result : Result Unit)

/-- `timing::check`. -/
def checkTiming (cancelled : Bool) (deadline : Option Nat) (now : Nat) : Result Unit :=
  if cancelled then .error .cancelled
  else if deadline.any (· ≤ now) then .error .deadline
  else .ok ()

/-- `Instant::checked_add`, on a clock that ends at `range`. -/
def checkedAdd (range now : Nat) (delay : Duration) : Option Nat :=
  if now + delay.nanos ≤ range then some (now + delay.nanos) else none

/-- `request_error` and `http_error`. -/
def Answer.error : Answer → Error
  | .unconnected message => .model ⟨"http_connect", message, true⟩
  | .unbuilt message => .invalid message
  | .lost message => .uncertain message
  | .response status text _ =>
    .model ⟨s!"http_{status}", text, decide (status = 429 ∨ 500 ≤ status ∧ status < 600)⟩

def isBlank (c : Char) : Bool := c == ' ' || c == '\t'

/-- `str::trim`, of a header's text. -/
def trim (text : String) : String :=
  .ofList ((text.toList.dropWhile isBlank).reverse.dropWhile isBlank).reverse

/-- `str::parse` to a `u64`. -/
def parseSeconds (text : String) : Option UInt64 :=
  let digits := (stripPrefix text '+').getD text
  if digits ≠ "" ∧ digits.toList.all Char.isDigit then parseU64 digits else none

/-- `Duration::from_secs`. -/
def ofSeconds (seconds : UInt64) : Duration where
  nanos := seconds.toNat * 1000000000
  bounded := by
    have h := seconds.toNat_lt
    unfold maxDuration
    omega

def Answer.retryAfter : Answer → Option Duration
  | .response _ _ header => header.bind fun text => (parseSeconds (trim text)).map ofSeconds
  | _ => none

/-- `status().is_success()`. -/
def Answer.successful : Answer → Bool
  | .response status _ _ => 200 ≤ status && status < 300
  | _ => false

def Answer.unauthorized : Answer → Bool
  | .response status _ _ => status == 401
  | _ => false

def retryable : Error → Bool
  | .model failure => failure.retryable
  | _ => false

namespace Send

/-- The error and the server's delay that an event rejects an attempt with. -/
def rejection (s : Send) : SendEvent → Option (Error × Option Duration)
  | .resolved (.error error) =>
    match s.phase with
    | .resolving _ _ => some (error, none)
    | _ => none
  | .answered answer =>
    match s.phase with
    | .requesting again _ =>
      if answer.successful || answer.unauthorized && !again then none
      else some (answer.error, answer.retryAfter)
    | _ => none
  | .invalidated (.error error) =>
    match s.phase with
    | .invalidating _ => some (error, none)
    | _ => none
  | _ => none

/-- The delay before another attempt: a longer `Retry-After` takes precedence. -/
def delayOf (delay : Duration) (after : Option Duration) : Duration :=
  after.elim delay fun after => after.max delay

def late (range now : Nat) (delay : Duration) (s : Send) : Bool :=
  s.sender.deadline.any fun deadline => (checkedAdd range now delay).all (deadline ≤ ·)

/-- `send`, of a rejected attempt. -/
def reject (range now : Nat) (error : Error) (after : Option Duration) (s : Send) : Send :=
  let failed := s.failed + 1
  match (s.sender.policy.delayAfter failed).filter fun _ => retryable error with
  | none => { s with failed, phase := .done (.error error) }
  | some delay =>
    let delay := delayOf delay after
    if s.late range now delay then { s with failed, phase := .done (.error error) }
    else { s with failed, phase := .pausing delay }

/-- `timing::check` is made next, or while something is awaited. -/
def interruptible (s : Send) : Bool :=
  match s.phase with
  | .starting => s.sender.limited
  | .acquiring | .pausing _ | .waiting _ => true
  | _ => false

def proceed (range now : Nat) (s : Send) (event : SendEvent) : Option SendPhase :=
  let check := checkTiming s.cancelled s.sender.deadline now
  match s.phase, event with
  | .starting, .started =>
    if s.sender.limited = true then check.toOption.map fun _ => .acquiring
    else some (.ready false)
  | .acquiring, .acquired => some (.ready false)
  | .ready again, .asked nowMs => some (.resolving again nowMs)
  | .resolving again _, .resolved (.ok credential) => some (.requesting again credential)
  | .requesting _ credential, .answered answer =>
    some (if answer.successful then .reading else .invalidating credential.generation)
  | .invalidating _, .invalidated (.ok _) => some (.ready true)
  | .pausing delay, .paused =>
    check.toOption.map fun _ =>
      match checkedAdd range now delay with
      | some wake => .waiting wake
      | none => .done (.error (.invalid "retry delay exceeds clock range"))
  | .waiting wake, .woken => if wake ≤ now then check.toOption.map fun _ => .ready false else none
  | .reading, .read result => some (.done result)
  | _, _ => none

def isOver (s : Send) : Bool :=
  match s.phase with
  | .done _ | .dropped => true
  | _ => false

def step (range : Nat) (s : Send) : Nat × SendEvent → Option Send
  | (_, .cancel) => some { s with cancelled := true }
  | (_, .drop) => if s.isOver = true then none else some { s with phase := .dropped }
  | (now, .interrupted) =>
    match s.interruptible, checkTiming s.cancelled s.sender.deadline now with
    | true, .error error => some { s with phase := .done (.error error) }
    | _, _ => none
  | (now, event) =>
    match s.rejection event with
    | some (error, after) => some (s.reject range now error after)
    | none => (s.proceed range now event).map fun phase => { s with phase }

/-- The events that take an exchange on, where they do not reject it. -/
inductive Proceeds (range now : Nat) (s : Send) : SendEvent → SendPhase → Prop
  | admitted (hphase : s.phase = .starting) : Proceeds range now s .started .acquiring
  | unlimited (hphase : s.phase = .starting) : Proceeds range now s .started (.ready false)
  | acquired (hphase : s.phase = .acquiring) : Proceeds range now s .acquired (.ready false)
  | asked {again : Bool} {nowMs : Nat} (hphase : s.phase = .ready again) :
      Proceeds range now s (.asked nowMs) (.resolving again nowMs)
  | resolved {again : Bool} {nowMs : Nat} {credential : Credential}
      (hphase : s.phase = .resolving again nowMs) :
      Proceeds range now s (.resolved (.ok credential)) (.requesting again credential)
  | answered {again : Bool} {credential : Credential} {answer : Answer}
      (hphase : s.phase = .requesting again credential) (hanswer : answer.successful = true) :
      Proceeds range now s (.answered answer) .reading
  | unauthorized {again : Bool} {credential : Credential} {answer : Answer}
      (hphase : s.phase = .requesting again credential) (hanswer : answer.successful = false) :
      Proceeds range now s (.answered answer) (.invalidating credential.generation)
  | invalidated {generation : String} {u : Unit} (hphase : s.phase = .invalidating generation) :
      Proceeds range now s (.invalidated (.ok u)) (.ready true)
  | paused {delay : Duration} {wake : Nat} (hphase : s.phase = .pausing delay)
      (hwake : checkedAdd range now delay = some wake) :
      Proceeds range now s .paused (.waiting wake)
  | overflowed {delay : Duration} (hphase : s.phase = .pausing delay)
      (hwake : checkedAdd range now delay = none) :
      Proceeds range now s .paused (.done (.error (.invalid "retry delay exceeds clock range")))
  | woken {wake : Nat} (hphase : s.phase = .waiting wake) (hwake : wake ≤ now)
      (hcheck : checkTiming s.cancelled s.sender.deadline now = .ok ()) :
      Proceeds range now s .woken (.ready false)
  | read {result : Result Unit} (hphase : s.phase = .reading) :
      Proceeds range now s (.read result) (.done result)

theorem proceeds {range now : Nat} {s : Send} {event : SendEvent} {phase : SendPhase}
    (h : s.proceed range now event = some phase) : Proceeds range now s event phase := by
  unfold proceed at h
  simp only at h
  split at h
  · next hphase =>
    split at h
    · obtain ⟨-, -, rfl⟩ := Option.map_eq_some_iff.mp h
      exact .admitted hphase
    · cases h
      exact .unlimited hphase
  · next hphase =>
    cases h
    exact .acquired hphase
  · next hphase =>
    cases h
    exact .asked hphase
  · next hphase =>
    cases h
    exact .resolved hphase
  · next hphase =>
    cases h
    split
    · next hanswer => exact .answered hphase hanswer
    · next hanswer => exact .unauthorized hphase (Bool.eq_false_iff.mpr hanswer)
  · next hphase =>
    cases h
    exact .invalidated hphase
  · next hphase =>
    obtain ⟨-, -, rfl⟩ := Option.map_eq_some_iff.mp h
    split
    · next wake hwake => exact .paused hphase hwake
    · next hwake => exact .overflowed hphase hwake
  · next wake hphase =>
    split at h
    · next hwake =>
      obtain ⟨u, hcheck, rfl⟩ := Option.map_eq_some_iff.mp h
      refine .woken hphase hwake ?_
      cases hc : checkTiming s.cancelled s.sender.deadline now with
      | ok u => rfl
      | error error =>
        rw [hc] at hcheck
        cases hcheck
    · cases h
  · next hphase =>
    cases h
    exact .read hphase
  · cases h

inductive Stepped (range : Nat) (s : Send) : Nat × SendEvent → Send → Prop
  | cancelled {now : Nat} : Stepped range s (now, .cancel) { s with cancelled := true }
  | dropped {now : Nat} (h : s.isOver = false) :
      Stepped range s (now, .drop) { s with phase := .dropped }
  | interrupted {now : Nat} {error : Error} (hphase : s.interruptible = true)
      (hcheck : checkTiming s.cancelled s.sender.deadline now = .error error) :
      Stepped range s (now, .interrupted) { s with phase := .done (.error error) }
  | rejected {now : Nat} {event : SendEvent} {error : Error} {after : Option Duration}
      (h : s.rejection event = some (error, after)) :
      Stepped range s (now, event) (s.reject range now error after)
  | proceeded {now : Nat} {event : SendEvent} {phase : SendPhase}
      (hnone : s.rejection event = none) (h : Proceeds range now s event phase) :
      Stepped range s (now, event) { s with phase }

def Moves (range : Nat) (s : Send) (label : Nat × SendEvent) (s' : Send) : Prop :=
  s.step range label = some s'

theorem Moves.stepped {range : Nat} {s s' : Send} {label : Nat × SendEvent}
    (h : Moves range s label s') : Stepped range s label s' := by
  have hgeneral : ∀ {now : Nat} {event : SendEvent},
      (match s.rejection event with
        | some (error, after) => some (s.reject range now error after)
        | none => (s.proceed range now event).map fun phase => { s with phase }) = some s' →
      Stepped range s (now, event) s' := by
    intro now event h
    split at h
    · next error after hrejection =>
      cases h
      exact .rejected hrejection
    · next hnone =>
      obtain ⟨phase, hphase, rfl⟩ := Option.map_eq_some_iff.mp h
      exact .proceeded hnone (proceeds hphase)
  obtain ⟨now, event⟩ := label
  cases event with
  | cancel =>
    cases h
    exact .cancelled
  | drop =>
    change (if s.isOver = true then none else some { s with phase := .dropped }) = some s' at h
    split at h
    · cases h
    · next hover =>
      cases h
      exact .dropped (Bool.eq_false_iff.mpr hover)
  | interrupted =>
    unfold Moves step at h
    simp only at h
    split at h
    · next error hphase hcheck =>
      cases h
      exact .interrupted hphase hcheck
    · cases h
  | _ => exact hgeneral h

section

variable {range now : Nat} {s s' : Send} {label : Nat × SendEvent} {error : Error}
  {after : Option Duration} {event : SendEvent}

/-- A rejection leads to another attempt only if it is retryable, attempts are left, and the delay
ends before the deadline. -/
theorem reject_cases (range now : Nat) (error : Error) (after : Option Duration) (s : Send) :
    (∃ backoff, s.sender.policy.delayAfter (s.failed + 1) = some backoff ∧
      retryable error = true ∧ s.late range now (delayOf backoff after) = false ∧
      s.reject range now error after =
        { s with failed := s.failed + 1, phase := .pausing (delayOf backoff after) }) ∨
    (retryable error = false ∨ s.sender.policy.delayAfter (s.failed + 1) = none ∨
      ∃ backoff, s.sender.policy.delayAfter (s.failed + 1) = some backoff ∧
        s.late range now (delayOf backoff after) = true) ∧
      s.reject range now error after =
        { s with failed := s.failed + 1, phase := .done (.error error) } := by
  unfold reject
  simp only
  cases hdelay : s.sender.policy.delayAfter (s.failed + 1) with
  | none => exact .inr ⟨.inr (.inl rfl), rfl⟩
  | some backoff =>
    cases hretryable : retryable error with
    | false => exact .inr ⟨.inl rfl, rfl⟩
    | true =>
      cases hlate : s.late range now (delayOf backoff after) with
      | false => exact .inl ⟨backoff, rfl, rfl, hlate, by simp [Option.filter, hlate]⟩
      | true => exact .inr ⟨.inr (.inr ⟨backoff, rfl, hlate⟩), by simp [Option.filter, hlate]⟩

private theorem reject_sender : (s.reject range now error after).sender = s.sender := by
  rcases reject_cases range now error after s with ⟨_, -, -, -, h⟩ | ⟨-, h⟩ <;> rw [h]

theorem Stepped.sender (h : s.Stepped range label s') : s'.sender = s.sender := by
  cases h with
  | rejected h => exact reject_sender
  | _ => rfl

private theorem rejection_open {error : Error} (h : s.rejection event = some (error, after)) :
    (∃ again nowMs, s.phase = .resolving again nowMs) ∨
      (∃ again credential, s.phase = .requesting again credential) ∨
      ∃ generation, s.phase = .invalidating generation := by
  unfold rejection at h
  split at h
  · split at h
    · next hphase => exact .inl ⟨_, _, hphase⟩
    · cases h
  · split at h
    · next hphase => exact .inr (.inl ⟨_, _, hphase⟩)
    · cases h
  · split at h
    · next hphase => exact .inr (.inr ⟨_, hphase⟩)
    · cases h
  · cases h

private theorem rejection_none {again : Bool} {credential : Credential} {answer : Answer}
    (hphase : s.phase = .requesting again credential) (hanswer : answer.successful = false)
    (h : s.rejection (.answered answer) = none) : again = false := by
  unfold rejection at h
  simp only [hphase, hanswer, Bool.false_or] at h
  cases again with
  | false => rfl
  | true => simp at h

end

def isWoken : Nat × SendEvent → Bool
  | (_, .woken) => true
  | _ => false

def isRequest : Nat × SendEvent → Bool
  | (_, .resolved (.ok _)) => true
  | _ => false

/-- Requests made of the attempt a phase belongs to, at most. -/
def spent : SendPhase → Nat
  | .starting | .acquiring => 0
  | .ready again | .resolving again _ => again.toNat
  | .requesting again _ => again.toNat + 1
  | .invalidating _ => 1
  | _ => 2

def between : SendPhase → Nat
  | .pausing _ | .waiting _ => 1
  | _ => 0

structure Counted (labels : List (Nat × SendEvent)) (s : Send) : Prop where
  failed : s.isOver = false → s.failed = labels.countP isWoken + between s.phase
  attempts : labels.countP isWoken + between s.phase < s.sender.policy.maxAttempts
  requests : labels.countP isRequest ≤ 2 * labels.countP isWoken + spent s.phase

section

variable {range : Nat} {s s' : Send} {label : Nat × SendEvent} {labels : List (Nat × SendEvent)}

private theorem spent_le (phase : SendPhase) : spent phase ≤ 2 := by
  cases phase with
  | ready again | resolving again _ | requesting again _ => cases again <;> simp [spent]
  | _ => simp [spent]

theorem countP_quiet {p : Nat × SendEvent → Bool} (h : p label = false) :
    (labels ++ [label]).countP p = labels.countP p := by
  rw [List.countP_append, List.countP_singleton, h]
  rfl

theorem Counted.quiet (hs : Counted labels s) (hsender : s'.sender = s.sender)
    (hwoken : isWoken label = false) (hrequest : isRequest label = false)
    (hfailed : s'.isOver = false → s.isOver = false ∧ s'.failed + between s.phase =
      s.failed + between s'.phase)
    (hbetween : labels.countP isWoken + between s'.phase < s.sender.policy.maxAttempts)
    (hspent : spent s.phase ≤ spent s'.phase) : Counted (labels ++ [label]) s' := by
  refine ⟨fun hover => ?_, ?_, ?_⟩
  · obtain ⟨hopen, hsum⟩ := hfailed hover
    have hcount := hs.failed hopen
    rw [countP_quiet hwoken]
    omega
  · rw [countP_quiet hwoken, hsender]
    exact hbetween
  · have hrequests := hs.requests
    rw [countP_quiet hwoken, countP_quiet hrequest]
    omega

theorem Counted.close (hs : Counted labels s) (hsender : s'.sender = s.sender)
    (hover : s'.isOver = true) (hwoken : isWoken label = false)
    (hrequest : isRequest label = false) :
    Counted (labels ++ [label]) s' := by
  have hphase : between s'.phase = 0 ∧ spent s'.phase = 2 := by
    unfold isOver at hover
    split at hover
    · next h => rw [h]; exact ⟨rfl, rfl⟩
    · next h => rw [h]; exact ⟨rfl, rfl⟩
    · cases hover
  have hattempts := hs.attempts
  have hspent := spent_le s.phase
  refine hs.quiet hsender hwoken hrequest (fun h => ?_) ?_ ?_
  · rw [hover] at h
    cases h
  · omega
  · omega

private theorem rejection_quiet {now : Nat} {event : SendEvent} {error : Error}
    {after : Option Duration}
    (h : s.rejection event = some (error, after)) :
    isWoken (now, event) = false ∧ isRequest (now, event) = false := by
  unfold rejection at h
  split at h
  · exact ⟨rfl, rfl⟩
  · exact ⟨rfl, rfl⟩
  · exact ⟨rfl, rfl⟩
  · cases h

theorem Counted.step (hs : Counted labels s) (h : s.Stepped range label s') :
    Counted (labels ++ [label]) s' := by
  have hattempts := hs.attempts
  have hrequests := hs.requests
  cases h with
  | cancelled =>
    exact hs.quiet rfl rfl rfl (fun hover => ⟨hover, rfl⟩) hattempts (Nat.le_refl _)
  | dropped | interrupted => exact hs.close rfl rfl rfl rfl
  | @rejected now event error after h =>
    obtain ⟨hwoken, hrequest⟩ : isWoken (now, event) = false ∧ isRequest (now, event) = false :=
      rejection_quiet h
    rcases reject_cases range now error after s with ⟨backoff, hdelay, -, -, hs'⟩ | ⟨-, hs'⟩
    · have hopen : s.isOver = false ∧ between s.phase = 0 := by
        rcases rejection_open h with ⟨_, _, hp⟩ | ⟨_, _, hp⟩ | ⟨_, hp⟩
        all_goals
          rw [isOver, hp]
          exact ⟨rfl, rfl⟩
      have hfailed := hs.failed hopen.1
      have hbound := (RetryPolicy.delayAfter_some hdelay).1
      rw [hs']
      refine hs.quiet rfl hwoken hrequest (fun _ => ⟨hopen.1, ?_⟩) ?_ (spent_le _)
      · rw [hopen.2]
        rfl
      · show labels.countP isWoken + 1 < _
        omega
    · rw [hs']
      exact hs.close rfl rfl hwoken hrequest
  | @proceeded now event phase hnone h =>
    cases h with
    | overflowed | read => exact hs.close rfl rfl rfl rfl
    | woken hphase hwake hcheck =>
      have hopen : s.isOver = false := by rw [isOver, hphase]
      have hfailed := hs.failed hopen
      rw [hphase] at hattempts hfailed hrequests
      have hcount : (labels ++ [(now, SendEvent.woken)]).countP isWoken =
          labels.countP isWoken + 1 := List.countP_append
      refine ⟨fun _ => ?_, ?_, ?_⟩
      · rw [hcount]
        exact hfailed
      · rw [hcount]
        exact hattempts
      · rw [hcount, countP_quiet rfl]
        show _ ≤ 2 * (labels.countP isWoken + 1) + 0
        change _ ≤ 2 * labels.countP isWoken + 2 at hrequests
        omega
    | @resolved again nowMs credential hphase =>
      have hopen : s.isOver = false := by rw [isOver, hphase]
      have hfailed := hs.failed hopen
      rw [hphase] at hattempts hfailed hrequests
      have hcount : (labels ++ [(now, SendEvent.resolved (.ok credential))]).countP isRequest =
          labels.countP isRequest + 1 := List.countP_append
      refine ⟨fun _ => ?_, ?_, ?_⟩
      · rw [countP_quiet rfl]
        exact hfailed
      · rw [countP_quiet rfl]
        exact hattempts
      · rw [hcount, countP_quiet rfl]
        exact Nat.succ_le_succ hrequests
    | unauthorized hphase hanswer =>
      have hagain := rejection_none hphase hanswer hnone
      have hopen : s.isOver = false := by rw [isOver, hphase]
      subst hagain
      rw [hphase] at hattempts
      refine hs.quiet rfl rfl rfl (fun _ => ⟨hopen, ?_⟩) hattempts ?_
      · rw [hphase]
        rfl
      · rw [hphase]
        exact Nat.le_refl _
    | _ hphase =>
      have hopen : s.isOver = false := by rw [isOver, hphase]
      rw [hphase] at hattempts
      refine hs.quiet rfl rfl rfl (fun _ => ⟨hopen, ?_⟩) hattempts ?_
      · rw [hphase]
        rfl
      · rw [hphase]
        first
        | exact Nat.le_refl _
        | exact spent_le _

end

/-- An attempt of a run was rejected, and `later` is what happened since. -/
def Rejected (range : Nat) (first : Send) (labels : List (Nat × SendEvent)) (now : Nat)
    (error : Error) (after : Option Duration) (attempt : Nat) (later : List (Nat × SendEvent)) :
    Prop :=
  ∃ before event s, labels = before ++ (now, event) :: later ∧
    Trace (Moves range) first before s ∧ s.rejection event = some (error, after) ∧
    s.failed + 1 = attempt

/-- The rejection asks for another attempt after a delay, and there is time for it. -/
def Retries (range : Nat) (first : Send) (labels : List (Nat × SendEvent)) (delay : Duration)
    (later : List (Nat × SendEvent)) : Prop :=
  ∃ now error after attempt backoff, Rejected range first labels now error after attempt later ∧
    retryable error = true ∧ first.sender.policy.delayAfter attempt = some backoff ∧
    delay = delayOf backoff after ∧ first.late range now delay = false

/-- Every further attempt starts once the delay after a rejection has passed in full, before the
deadline. -/
def Spaced (range : Nat) (first : Send) (labels : List (Nat × SendEvent)) : Prop :=
  ∀ before now later, labels = before ++ (now, .woken) :: later →
    ∃ delay rest pausedAt, Retries range first before delay rest ∧ (pausedAt, .paused) ∈ rest ∧
      pausedAt + delay.nanos ≤ now ∧ first.sender.deadline.all (now < ·) = true

def Succeeded (labels : List (Nat × SendEvent)) : Prop :=
  ∃ now answer, (now, .answered answer) ∈ labels ∧ answer.successful = true

inductive Explained (range : Nat) (first : Send) (labels : List (Nat × SendEvent)) (s : Send) :
    Error → Prop
  | cancelled (h : s.cancelled = true) : Explained range first labels s .cancelled
  | deadline {now : Nat} {event : SendEvent} (hevent : (now, event) ∈ labels)
      (h : first.sender.deadline.any (· ≤ now) = true) : Explained range first labels s .deadline
  /-- The rejection that was not to be retried. -/
  | rejected {now : Nat} {error : Error} {after : Option Duration} {attempt : Nat}
      {later : List (Nat × SendEvent)}
      (h : Rejected range first labels now error after attempt later)
      (hfinal : retryable error = false ∨ attempt = first.sender.policy.maxAttempts ∨
        ∃ backoff, first.sender.policy.delayAfter attempt = some backoff ∧
          first.late range now (delayOf backoff after) = true) :
      Explained range first labels s error
  /-- A delay that the clock cannot hold. -/
  | endless {now : Nat} {delay : Duration} (hevent : (now, .paused) ∈ labels)
      (h : checkedAdd range now delay = none) :
      Explained range first labels s (.invalid "retry delay exceeds clock range")
  | read {now : Nat} {error : Error} (hevent : (now, .read (.error error)) ∈ labels)
      (h : Succeeded labels) : Explained range first labels s error

def Reasoned (range : Nat) (first : Send) (labels : List (Nat × SendEvent)) (s : Send) : Prop :=
  match s.phase with
  | .pausing delay => ∃ later, Retries range first labels delay later
  | .waiting wake => ∃ delay later pausedAt, Retries range first labels delay later ∧
      (pausedAt, .paused) ∈ later ∧ wake = pausedAt + delay.nanos
  | .reading => Succeeded labels
  | .done (.ok _) => Succeeded labels ∧ ∃ now, (now, .read (.ok ())) ∈ labels
  | .done (.error error) => Explained range first labels s error
  | _ => True

section

variable {range : Nat} {first s s' : Send} {label : Nat × SendEvent}
  {labels later : List (Nat × SendEvent)}

theorem Rejected.snoc {now attempt : Nat} {error : Error} {after : Option Duration}
    (h : Rejected range first labels now error after attempt later) (label : Nat × SendEvent) :
    Rejected range first (labels ++ [label]) now error after attempt (later ++ [label]) := by
  obtain ⟨before, event, s, rfl, hrest⟩ := h
  exact ⟨before, event, s, List.append_assoc .., hrest⟩

theorem Retries.snoc {delay : Duration} (h : Retries range first labels delay later)
    (label : Nat × SendEvent) :
    Retries range first (labels ++ [label]) delay (later ++ [label]) := by
  obtain ⟨now, error, after, attempt, backoff, hrejected, hrest⟩ := h
  exact ⟨now, error, after, attempt, backoff, hrejected.snoc label, hrest⟩

theorem Succeeded.snoc (h : Succeeded labels) (label : Nat × SendEvent) :
    Succeeded (labels ++ [label]) := by
  obtain ⟨now, answer, hmem, hanswer⟩ := h
  exact ⟨now, answer, List.mem_append_left _ hmem, hanswer⟩

theorem Explained.snoc {error : Error} (h : Explained range first labels s error)
    (label : Nat × SendEvent) (hcancelled : s.cancelled = true → s'.cancelled = true) :
    Explained range first (labels ++ [label]) s' error := by
  cases h with
  | cancelled h => exact .cancelled (hcancelled h)
  | deadline hevent h => exact .deadline (List.mem_append_left _ hevent) h
  | rejected h hfinal => exact .rejected (h.snoc label) hfinal
  | endless hevent h => exact .endless (List.mem_append_left _ hevent) h
  | read hevent h => exact .read (List.mem_append_left _ hevent) (h.snoc label)

theorem Spaced.quiet (h : Spaced range first labels) (hlabel : isWoken label = false) :
    Spaced range first (labels ++ [label]) := by
  intro before now later hlabels
  rcases snoc_eq_append_cons hlabels with ⟨-, rfl, -⟩ | ⟨init, -, hinit⟩
  · cases hlabel
  · exact h before now init hinit

theorem Spaced.woken {now pausedAt : Nat} {delay : Duration} (h : Spaced range first labels)
    (hretries : Retries range first labels delay later) (hpaused : (pausedAt, .paused) ∈ later)
    (hdelay : pausedAt + delay.nanos ≤ now)
    (hdeadline : first.sender.deadline.all (now < ·) = true) :
    Spaced range first (labels ++ [(now, .woken)]) := by
  intro before time rest hlabels
  rcases snoc_eq_append_cons hlabels with ⟨-, hlast, rfl⟩ | ⟨init, -, hinit⟩
  · cases hlast
    exact ⟨delay, _, pausedAt, hretries, hpaused, hdelay, hdeadline⟩
  · exact h before time init hinit

private theorem checkTiming_ok {cancelled : Bool} {deadline : Option Nat} {now : Nat}
    (h : checkTiming cancelled deadline now = .ok ()) : deadline.all (now < ·) = true := by
  unfold checkTiming at h
  split at h
  · cases h
  split at h
  · cases h
  · next hdeadline =>
    cases deadline with
    | none => rfl
    | some deadline =>
      simp only [Option.any_some, decide_eq_true_eq] at hdeadline
      simp only [Option.all_some, decide_eq_true_eq]
      omega

theorem checkTiming_error {cancelled : Bool} {deadline : Option Nat} {now : Nat} {error : Error}
    (h : checkTiming cancelled deadline now = .error error) :
    error = .cancelled ∧ cancelled = true ∨
      error = .deadline ∧ deadline.any (· ≤ now) = true := by
  unfold checkTiming at h
  split at h
  · next hcancelled =>
    cases h
    exact .inl ⟨rfl, hcancelled⟩
  split at h
  · next hdeadline =>
    cases h
    exact .inr ⟨rfl, hdeadline⟩
  · cases h

private theorem mem_snoc (labels : List (Nat × SendEvent)) (label : Nat × SendEvent) :
    label ∈ labels ++ [label] := List.mem_append_right _ (List.mem_singleton.mpr rfl)

theorem Reasoned.reject {now : Nat} {event : SendEvent} {error : Error} {after : Option Duration}
    (hrun : Trace (Moves range) first labels s) (hsender : s.sender = first.sender)
    (hcounted : Counted labels s) (h : s.rejection event = some (error, after)) :
    Reasoned range first (labels ++ [(now, event)]) (s.reject range now error after) := by
  have hrejected : Rejected range first (labels ++ [(now, event)]) now error after
      (s.failed + 1) [] := ⟨labels, event, s, rfl, hrun, h, rfl⟩
  have hlate : ∀ delay, s.late range now delay = first.late range now delay := by
    intro delay
    rw [late, late, hsender]
  rcases reject_cases range now error after s with ⟨backoff, hdelay, hretryable, htime, hs'⟩ |
    ⟨hfinal, hs'⟩
  · rw [hs']
    rw [hsender] at hdelay
    rw [hlate] at htime
    exact ⟨[], now, error, after, _, backoff, hrejected, hretryable, hdelay, rfl, htime⟩
  · rw [hs']
    refine Explained.rejected hrejected ?_
    rcases hfinal with hfinal | hfinal | ⟨backoff, hdelay, htime⟩
    · exact .inl hfinal
    · have hopen : s.isOver = false ∧ between s.phase = 0 := by
        rcases rejection_open h with ⟨_, _, hp⟩ | ⟨_, _, hp⟩ | ⟨_, hp⟩
        all_goals
          rw [isOver, hp]
          exact ⟨rfl, rfl⟩
      have hfailed := hcounted.failed hopen.1
      have hattempts := hcounted.attempts
      unfold RetryPolicy.delayAfter at hfinal
      split at hfinal
      · cases hfinal
      · rw [← hsender]
        exact .inr (.inl (by omega))
    · rw [hsender] at hdelay
      rw [hlate] at htime
      exact .inr (.inr ⟨backoff, hdelay, htime⟩)

theorem Reasoned.step (hrun : Trace (Moves range) first labels s)
    (hsender : s.sender = first.sender) (hcounted : Counted labels s)
    (hs : Reasoned range first labels s) (h : s.Stepped range label s') :
    Reasoned range first (labels ++ [label]) s' := by
  cases h with
  | cancelled =>
    unfold Reasoned at hs ⊢
    split at hs
    · next hphase =>
      obtain ⟨later, hretries⟩ := hs
      simp only [hphase]
      exact ⟨_, hretries.snoc _⟩
    · next hphase =>
      obtain ⟨delay, later, pausedAt, hretries, hpaused, hwake⟩ := hs
      simp only [hphase]
      exact ⟨delay, _, pausedAt, hretries.snoc _, List.mem_append_left _ hpaused, hwake⟩
    · next hphase =>
      simp only [hphase]
      exact hs.snoc _
    · next hphase =>
      obtain ⟨hsucceeded, now, hread⟩ := hs
      simp only [hphase]
      exact ⟨hsucceeded.snoc _, now, List.mem_append_left _ hread⟩
    · next hphase =>
      simp only [hphase]
      exact hs.snoc _ fun _ => rfl
    · trivial
  | dropped => trivial
  | interrupted hphase hcheck =>
    rcases checkTiming_error hcheck with ⟨rfl, hcancelled⟩ | ⟨rfl, hdeadline⟩
    · exact .cancelled hcancelled
    · rw [hsender] at hdeadline
      exact .deadline (mem_snoc _ _) hdeadline
  | rejected h => exact .reject hrun hsender hcounted h
  | @proceeded now event phase hnone h =>
    cases h with
    | @answered again credential answer hphase hanswer =>
      exact ⟨now, answer, mem_snoc _ _, hanswer⟩
    | @paused delay wake hphase hwake =>
      rw [Reasoned, hphase] at hs
      obtain ⟨later, hretries⟩ := hs
      unfold checkedAdd at hwake
      split at hwake
      · cases hwake
        exact ⟨delay, _, now, hretries.snoc _, mem_snoc _ _, rfl⟩
      · cases hwake
    | overflowed hphase hwake => exact .endless (mem_snoc _ _) hwake
    | @read result hphase =>
      rw [Reasoned, hphase] at hs
      cases result with
      | ok u => exact ⟨hs.snoc _, now, mem_snoc _ _⟩
      | error error => exact .read (mem_snoc _ _) (hs.snoc _)
    | _ => trivial

theorem Spaced.step (hsender : s.sender = first.sender) (hs : Reasoned range first labels s)
    (h : Spaced range first labels) (hstep : s.Stepped range label s') :
    Spaced range first (labels ++ [label]) := by
  cases hstep with
  | cancelled | dropped | interrupted => exact h.quiet rfl
  | rejected hrejection => exact h.quiet (rejection_quiet hrejection).1
  | proceeded hnone hproceeds =>
    cases hproceeds with
    | woken hphase hwake hcheck =>
      rw [Reasoned, hphase] at hs
      obtain ⟨delay, later, pausedAt, hretries, hpaused, rfl⟩ := hs
      rw [hsender] at hcheck
      exact h.woken hretries hpaused hwake (checkTiming_ok hcheck)
    | _ => exact h.quiet rfl

end

def Joins (s : Send) : Prop := ∃ sender, s = { sender }

def fresh (s : Send) : Bool :=
  s.failed == 0 && !s.cancelled && match s.phase with
    | .starting => true
    | _ => false

theorem joins_of_fresh {s : Send} (h : s.fresh = true) : Joins s := by
  obtain ⟨sender, failed, cancelled, phase⟩ := s
  simp only [fresh, Bool.and_eq_true, beq_iff_eq, Bool.not_eq_true'] at h
  obtain ⟨⟨rfl, rfl⟩, hphase⟩ := h
  split at hphase
  · exact ⟨sender, rfl⟩
  · cases hphase

structure Kept (range : Nat) (first : Send) (labels : List (Nat × SendEvent)) (s : Send) :
    Prop where
  sender : s.sender = first.sender
  attempts : labels.countP isWoken < first.sender.policy.maxAttempts
  requests : labels.countP isRequest ≤ 2 * (labels.countP isWoken + 1)
  spaced : Spaced range first labels
  result : Reasoned range first labels s

theorem kept {range : Nat} {first s : Send} {labels : List (Nat × SendEvent)}
    (hfirst : first.Joins) (hrun : Trace (Moves range) first labels s) :
    Kept range first labels s := by
  have hall : s.sender = first.sender ∧ Counted labels s ∧ Spaced range first labels ∧
      Reasoned range first labels s := by
    induction hrun with
    | start =>
      obtain ⟨sender, rfl⟩ := hfirst
      refine ⟨rfl, ⟨fun _ => rfl, sender.policy.positive, Nat.le_refl _⟩, ?_, trivial⟩
      intro before now later h
      cases before <;> cases h
    | next hrun hmoves ih =>
      obtain ⟨hsender, hcounted, hspaced, hreasoned⟩ := ih
      have hstep := hmoves.stepped
      exact ⟨hstep.sender.trans hsender, hcounted.step hstep,
        hspaced.step hsender hreasoned hstep, hreasoned.step hrun hsender hcounted hstep⟩
  obtain ⟨hsender, hcounted, hspaced, hreasoned⟩ := hall
  have hattempts := hcounted.attempts
  have hrequests := hcounted.requests
  have hspent := spent_le s.phase
  rw [hsender] at hattempts
  exact ⟨hsender, by omega, by omega, hspaced, hreasoned⟩

/-- From when the permit is acquired until the exchange is over. -/
def holds (s : Send) : Bool :=
  s.sender.limited && match s.phase with
    | .starting | .acquiring | .done _ | .dropped => false
    | _ => true

def weight (s : Send) : Nat := s.holds.toNat

end Send

def samplePolicy : RetryPolicy := ⟨2, .fixed ⟨5, by decide⟩, by decide⟩

def sampleSender : Sender := ⟨"service", samplePolicy, some 1000, true⟩

def sampleCredential : Credential := ⟨"g1", "bearer", "token", none, []⟩

/-- Two exchanges within a limit of one. The first is turned away once and tries again after the
delay of its policy; the second waits for the permit. -/
def sampleRequests : List (Pool.Label Send (Nat × SendEvent)) :=
  [.join { sender := sampleSender }, .join { sender := sampleSender }, .move 0 (1, .started),
    .move 1 (2, .started), .move 0 (3, .acquired), .move 0 (4, .asked 0),
    .move 0 (5, .resolved (.ok sampleCredential)),
    .move 0 (6, .answered (.response 503 "busy" none)), .move 0 (7, .paused),
    .move 0 (12, .woken), .move 0 (13, .asked 9)]

end Zhir.Models
