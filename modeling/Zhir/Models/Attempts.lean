import Zhir.Models.Requests

/-!
What is tried again by a policy: one call, from its first attempt to the result it returns.
-/

set_option autoImplicit false
set_option relaxedAutoImplicit false

namespace Zhir.Models

open Zhir.Core Zhir.Library
open Zhir.Policies (RetryPolicy)

/-- Attempts at one thing: the results after which there is another, as far as the policy goes, and
whether the call is checked once more before it returns. -/
structure Attempts (α : Type) where
  policy : RetryPolicy
  again : Result α → Bool
  checked : Bool

inductive TryPhase (α : Type)
  /-- `timing::check` comes before each attempt. -/
  | checking
  | starting
  | waiting (wake : Nat)
  | done (result : Result α)
  | dropped
  /-- An `expect` or the end of the loop. -/
  | panicked

/-- One call; `attempt` is the variable of its loop. -/
structure Tries (α : Type) where
  deadline : Option Nat
  cancelled : Bool
  attempt : Nat
  phase : TryPhase α

inductive TryEvent (α : Type)
  | cancel
  | drop
  /-- The check passes, and the attempt is started. -/
  | started
  | answered (result : Result α)
  | woken
  /-- The check fails. -/
  | stopped

namespace Attempts

variable {α : Type} (a : Attempts α) (range : Nat)

def retries (attempt : Nat) (result : Result α) : Bool :=
  a.again result && decide (attempt + 1 < a.policy.maxAttempts)

/-- `timing::wait` up to where it sleeps, where there is a delay to wait for. -/
def wait (now : Nat) (t : Tries α) : TryPhase α :=
  match a.policy.delayAfter (t.attempt + 1) with
  | none => .panicked
  | some delay =>
    match checkTiming t.cancelled t.deadline now with
    | .error error => .done (.error error)
    | .ok () =>
      match checkedAdd range now delay with
      | none => .done (.error (.invalid "retry delay exceeds clock range"))
      | some wake => .waiting wake

def answer (now : Nat) (result : Result α) (t : Tries α) : TryPhase α :=
  if a.retries t.attempt result then a.wait range now t
  else if a.checked then
    match checkTiming t.cancelled t.deadline now with
    | .error error => .done (.error error)
    | .ok () => .done result
  else .done result

def turn (attempt : Nat) (t : Tries α) : Tries α :=
  { t with attempt, phase := if attempt < a.policy.maxAttempts then .checking else .panicked }

def step (t : Tries α) : Nat × TryEvent α → Option (Tries α)
  | (_, .cancel) => some { t with cancelled := true }
  | (_, .drop) =>
    match t.phase with
    | .starting | .waiting _ => some { t with phase := .dropped }
    | _ => none
  | (now, .started) =>
    match t.phase, checkTiming t.cancelled t.deadline now with
    | .checking, .ok () => some { t with phase := .starting }
    | _, _ => none
  | (now, .answered result) =>
    match t.phase with
    | .starting => some { t with phase := a.answer range now result t }
    | _ => none
  | (now, .woken) =>
    match t.phase, checkTiming t.cancelled t.deadline now with
    | .waiting wake, .ok () =>
      if wake ≤ now then some (a.turn (t.attempt + 1) t) else none
    | _, _ => none
  | (now, .stopped) =>
    match t.phase, checkTiming t.cancelled t.deadline now with
    | .checking, .error error | .waiting _, .error error =>
      some { t with phase := .done (.error error) }
    | _, _ => none

def Moves (t : Tries α) (label : Nat × TryEvent α) (t' : Tries α) : Prop :=
  a.step range t label = some t'

end Attempts

def Tries.begin {α : Type} (deadline : Option Nat) : Tries α := ⟨deadline, false, 0, .checking⟩

namespace Attempts

variable {α : Type} {a : Attempts α} {range now : Nat} {t t' : Tries α} {event : TryEvent α}

inductive Stepped (a : Attempts α) (range : Nat) (t : Tries α) (now : Nat) :
    TryEvent α → Tries α → Prop
  | cancelled : Stepped a range t now .cancel { t with cancelled := true }
  | dropped : Stepped a range t now .drop { t with phase := .dropped }
  | started (hphase : t.phase = .checking) :
      Stepped a range t now .started { t with phase := .starting }
  | answered {result : Result α} (hphase : t.phase = .starting) :
      Stepped a range t now (.answered result) { t with phase := a.answer range now result t }
  | woken {wake : Nat} (hphase : t.phase = .waiting wake) (hwake : wake ≤ now) :
      Stepped a range t now .woken (a.turn (t.attempt + 1) t)
  | stopped {error : Error} (hcheck : checkTiming t.cancelled t.deadline now = .error error) :
      Stepped a range t now .stopped { t with phase := .done (.error error) }

theorem Moves.stepped (h : a.Moves range t (now, event) t') :
    Stepped a range t now event t' := by
  unfold Moves step at h
  split at h
  · next heq =>
    cases heq
    cases h
    exact .cancelled
  · next heq =>
    cases heq
    split at h
    · cases h
      exact .dropped
    · cases h
      exact .dropped
    · cases h
  · next heq =>
    cases heq
    split at h
    · next hphase _ =>
      cases h
      exact .started hphase
    · cases h
  · next heq =>
    cases heq
    split at h
    · next hphase =>
      cases h
      exact .answered hphase
    · cases h
  · next heq =>
    cases heq
    split at h
    · next hphase _ =>
      split at h
      · next hwake =>
        cases h
        exact .woken hphase hwake
      · cases h
    · cases h
  · next heq =>
    cases heq
    split at h
    · next hcheck =>
      cases h
      exact .stopped hcheck
    · next hcheck =>
      cases h
      exact .stopped hcheck
    · cases h

def isStart : Nat × TryEvent α → Bool
  | (_, .started) => true
  | _ => false

/-- The last start failed in a way that may be tried again, and its delay ends at `wake`. -/
def Failed (a : Attempts α) (labels : List (Nat × TryEvent α)) (wake : Nat) : Prop :=
  ∃ before at' result rest, labels = before ++ (at', .answered result) :: rest ∧
    a.again result = true ∧ rest.countP isStart = 0 ∧
    at' + (a.policy.backoff (before.countP isStart)).nanos = wake

/-- Nothing was started yet, or the last start failed so, and its delay has passed. -/
def Ready (a : Attempts α) (labels : List (Nat × TryEvent α)) : Prop :=
  labels.countP isStart = 0 ∨ ∃ before at' rest wake, labels = before ++ (at', .woken) :: rest ∧
    rest.countP isStart = 0 ∧ Failed a before wake ∧ wake ≤ at'

def Spaced (a : Attempts α) (labels : List (Nat × TryEvent α)) : Prop :=
  ∀ before at' later, labels = before ++ (at', .started) :: later → Ready a before

def Came (labels before : List (Nat × TryEvent α)) (now : Nat) (result : Result α) : Prop :=
  ∃ rest, labels = before ++ (now, .answered result) :: rest ∧ rest.countP isStart = 0

inductive Returned (a : Attempts α) (range : Nat) (deadline : Option Nat)
    (labels : List (Nat × TryEvent α)) : Result α → Prop
  | cancelled {now : Nat} (hevent : (now, .cancel) ∈ labels) :
      Returned a range deadline labels (.error .cancelled)
  | deadline {now : Nat} {event : TryEvent α} (hevent : (now, event) ∈ labels)
      (h : deadline.any (· ≤ now) = true) : Returned a range deadline labels (.error .deadline)
  /-- A delay that the clock cannot hold. -/
  | endless {before : List (Nat × TryEvent α)} {now : Nat} {result : Result α}
      (hcame : Came labels before now result)
      (hretries : a.retries (before.countP isStart - 1) result = true)
      (h : checkedAdd range now (a.policy.backoff (before.countP isStart)) = none) :
      Returned a range deadline labels (.error (.invalid "retry delay exceeds clock range"))
  | final {before : List (Nat × TryEvent α)} {now : Nat} {result : Result α}
      (hcame : Came labels before now result)
      (hfinal : a.retries (before.countP isStart - 1) result = false) :
      Returned a range deadline labels result

def pending (t : Tries α) : Option Nat :=
  match t.phase with
  | .checking => some t.attempt
  | .starting | .waiting _ => some (t.attempt + 1)
  | _ => none

structure Sound (a : Attempts α) (range : Nat) (deadline : Option Nat)
    (labels : List (Nat × TryEvent α)) (t : Tries α) : Prop where
  same : t.deadline = deadline
  flag : t.cancelled = true → ∃ now, (now, .cancel) ∈ labels
  room : t.attempt < a.policy.maxAttempts
  more : ∀ wake, t.phase = .waiting wake → t.attempt + 1 < a.policy.maxAttempts
  count : ∀ n, pending t = some n → labels.countP isStart = n
  bound : labels.countP isStart ≤ a.policy.maxAttempts
  sane : t.phase ≠ .panicked
  failed : ∀ wake, t.phase = .waiting wake → Failed a labels wake
  ready : t.phase = .checking → Ready a labels
  spaced : Spaced a labels
  returned : ∀ result, t.phase = .done result → Returned a range deadline labels result

section

variable {labels : List (Nat × TryEvent α)} {label : Nat × TryEvent α} {wake : Nat}
  {result : Result α} {deadline : Option Nat}

private theorem isStart_iff : isStart label = true ↔ ∃ now, label = (now, .started) := by
  rcases label with ⟨now, event⟩
  cases event with
  | started => exact ⟨fun _ => ⟨now, rfl⟩, fun _ => rfl⟩
  | _ =>
    refine ⟨fun h => ?_, ?_⟩
    · cases h
    · rintro ⟨_, h⟩
      cases h

theorem countP_quiet (hlabel : isStart label = false) :
    (labels ++ [label]).countP isStart = labels.countP isStart := by
  rw [List.countP_append, List.countP_singleton, hlabel]
  rfl

theorem Failed.quiet (h : Failed a labels wake) (hlabel : isStart label = false) :
    Failed a (labels ++ [label]) wake := by
  obtain ⟨before, at', result, rest, rfl, hagain, hrest, hwake⟩ := h
  refine ⟨before, at', result, rest ++ [label], by simp, hagain, ?_, hwake⟩
  rw [countP_quiet hlabel]
  exact hrest

theorem Ready.quiet (h : Ready a labels) (hlabel : isStart label = false) :
    Ready a (labels ++ [label]) := by
  rcases h with hnone | ⟨before, at', rest, wake, rfl, hrest, hfailed, hwake⟩
  · refine .inl ?_
    rw [countP_quiet hlabel]
    exact hnone
  · refine .inr ⟨before, at', rest ++ [label], wake, by simp, ?_, hfailed, hwake⟩
    rw [countP_quiet hlabel]
    exact hrest

theorem Spaced.quiet (h : Spaced a labels) (hlabel : isStart label = false) :
    Spaced a (labels ++ [label]) := by
  intro before at' later heq
  rcases snoc_eq_append_cons heq with ⟨-, rfl, -⟩ | ⟨init, -, hlabels⟩
  · cases hlabel
  · exact h before at' init hlabels

theorem Spaced.started (h : Spaced a labels) (hready : Ready a labels) :
    Spaced a (labels ++ [(now, .started)]) := by
  intro before at' later heq
  rcases snoc_eq_append_cons heq with ⟨-, -, rfl⟩ | ⟨init, -, hlabels⟩
  · exact hready
  · exact h before at' init hlabels

theorem Came.quiet {before : List (Nat × TryEvent α)} (h : Came labels before now result)
    (hlabel : isStart label = false) : Came (labels ++ [label]) before now result := by
  obtain ⟨rest, rfl, hrest⟩ := h
  refine ⟨rest ++ [label], by simp, ?_⟩
  rw [countP_quiet hlabel]
  exact hrest

private theorem came_last (labels : List (Nat × TryEvent α)) (now : Nat) (result : Result α) :
    Came (labels ++ [(now, .answered result)]) labels now result := ⟨[], rfl, rfl⟩

theorem Returned.quiet (h : Returned a range deadline labels result)
    (hlabel : isStart label = false) :
    Returned a range deadline (labels ++ [label]) result := by
  cases h with
  | cancelled hevent => exact .cancelled (List.mem_append_left _ hevent)
  | deadline hevent h => exact .deadline (List.mem_append_left _ hevent) h
  | endless hcame hretries h => exact .endless (hcame.quiet hlabel) hretries h
  | final hcame hfinal => exact .final (hcame.quiet hlabel) hfinal

private theorem Sound.of_check (hs : Sound a range deadline labels t) {error : Error}
    (h : checkTiming t.cancelled t.deadline now = .error error) :
    Returned a range deadline (labels ++ [(now, event)]) (.error error) := by
  rcases Send.checkTiming_error h with ⟨rfl, hcancelled⟩ | ⟨rfl, hlate⟩
  · obtain ⟨at', hevent⟩ := hs.flag hcancelled
    exact .cancelled (List.mem_append_left _ hevent)
  · rw [hs.same] at hlate
    exact .deadline (List.mem_append_right _ (List.mem_singleton.mpr rfl)) hlate

inductive Answered (a : Attempts α) (range : Nat) (t : Tries α) (now : Nat) (result : Result α) :
    TryPhase α → Prop
  | interrupted {error : Error} (hcheck : checkTiming t.cancelled t.deadline now = .error error) :
      Answered a range t now result (.done (.error error))
  | overflowed (hretries : a.retries t.attempt result = true)
      (h : checkedAdd range now (a.policy.backoff (t.attempt + 1)) = none) :
      Answered a range t now result (.done (.error (.invalid "retry delay exceeds clock range")))
  | waits (hagain : a.again result = true) (hattempt : t.attempt + 1 < a.policy.maxAttempts) :
      Answered a range t now result (.waiting (now + (a.policy.backoff (t.attempt + 1)).nanos))
  | final (h : a.retries t.attempt result = false) : Answered a range t now result (.done result)

theorem answered (a : Attempts α) (range : Nat) (t : Tries α) (now : Nat)
    (result : Result α) :
    Answered a range t now result (a.answer range now result t) := by
  unfold answer
  split
  · next hretries =>
    obtain ⟨hagain, hattempt⟩ := Bool.and_eq_true_iff.mp hretries
    have hattempt := of_decide_eq_true hattempt
    have hdelay : a.policy.delayAfter (t.attempt + 1) =
        some (a.policy.backoff (t.attempt + 1)) :=
      if_pos ⟨Nat.succ_pos _, hattempt⟩
    unfold wait
    rw [hdelay]
    simp only
    split
    · next hcheck => exact .interrupted hcheck
    · split
      · next hnone => exact .overflowed hretries hnone
      · next wake hwake =>
        unfold checkedAdd at hwake
        split at hwake
        · cases hwake
          exact .waits hagain hattempt
        · cases hwake
  · next hfinal =>
    have hfinal := Bool.eq_false_iff.mpr hfinal
    split
    · split
      · next hcheck => exact .interrupted hcheck
      · exact .final hfinal
    · exact .final hfinal

theorem Sound.begin (a : Attempts α) (range : Nat) (deadline : Option Nat) :
    Sound a range deadline [] (.begin deadline) := by
  refine ⟨rfl, fun h => ?_, a.policy.positive, fun _ h => ?_, fun n hn => ?_, Nat.zero_le _,
    fun h => ?_, fun _ h => ?_, fun _ => .inl rfl, fun before _ _ h => ?_, fun _ h => ?_⟩
  · cases h
  · cases h
  · cases hn
    rfl
  · cases h
  · cases h
  · cases before with
    | nil => cases h
    | cons => cases h
  · cases h

theorem Sound.flagged (h : Sound a range deadline labels t) (label : Nat × TryEvent α)
    (hflag : t.cancelled = true) : ∃ now, (now, .cancel) ∈ labels ++ [label] := by
  obtain ⟨at', hevent⟩ := h.flag hflag
  exact ⟨at', List.mem_append_left _ hevent⟩

theorem Sound.over (h : Sound a range deadline labels t) (hlabel : isStart label = false)
    {phase : TryPhase α} (hphase : phase = .dropped ∨
      ∃ result, phase = .done result ∧ Returned a range deadline (labels ++ [label]) result) :
    Sound a range deadline (labels ++ [label]) { t with phase } := by
  have hbound : (labels ++ [label]).countP isStart ≤ a.policy.maxAttempts := by
    rw [countP_quiet hlabel]
    exact h.bound
  rcases hphase with rfl | ⟨result, rfl, hreturned⟩
  · refine ⟨h.same, h.flagged label, h.room, fun _ h' => ?_, fun _ h' => ?_, hbound,
      fun h' => ?_, fun _ h' => ?_, fun h' => ?_, h.spaced.quiet hlabel, fun _ h' => ?_⟩
    all_goals cases h'
  · refine ⟨h.same, h.flagged label, h.room, fun _ h' => ?_, fun _ h' => ?_, hbound,
      fun h' => ?_, fun _ h' => ?_, fun h' => ?_, h.spaced.quiet hlabel, fun other h' => ?_⟩
    all_goals cases h'
    exact hreturned

theorem Sound.cancelled (h : Sound a range deadline labels t) :
    Sound a range deadline (labels ++ [(now, .cancel)]) { t with cancelled := true } := by
  refine ⟨h.same, fun _ => ⟨now, List.mem_append_right _ (List.mem_singleton.mpr rfl)⟩, h.room,
    h.more, fun n hn => ?_, ?_, h.sane, fun wake hp => (h.failed wake hp).quiet rfl,
    fun hp => (h.ready hp).quiet rfl, h.spaced.quiet rfl,
    fun result hp => (h.returned result hp).quiet rfl⟩
  · rw [countP_quiet rfl]
    exact h.count n hn
  · rw [countP_quiet rfl]
    exact h.bound

theorem Sound.started (h : Sound a range deadline labels t) (hphase : t.phase = .checking) :
    Sound a range deadline (labels ++ [(now, .started)]) { t with phase := .starting } := by
  have hcount : (labels ++ [(now, TryEvent.started)]).countP isStart = t.attempt + 1 := by
    rw [List.countP_append, h.count t.attempt (by rw [pending, hphase])]
    rfl
  refine ⟨h.same, h.flagged _, h.room, fun _ h' => ?_, fun n hn => ?_, ?_, fun h' => ?_,
    fun _ h' => ?_, fun h' => ?_, h.spaced.started (h.ready hphase), fun _ h' => ?_⟩
  · cases h'
  · cases hn
    exact hcount
  · rw [hcount]
    exact h.room
  all_goals cases h'

theorem Sound.answered (h : Sound a range deadline labels t) (hphase : t.phase = .starting)
    {phase : TryPhase α} (hanswered : Answered a range t now result phase) :
    Sound a range deadline (labels ++ [(now, .answered result)]) { t with phase } := by
  have hcount : labels.countP isStart = t.attempt + 1 := h.count _ (by rw [pending, hphase])
  cases hanswered with
  | interrupted hcheck => exact h.over rfl (.inr ⟨_, rfl, h.of_check hcheck⟩)
  | overflowed hretries hnone =>
    refine h.over rfl (.inr ⟨_, rfl, .endless (came_last labels now result) ?_ ?_⟩)
    · rw [hcount]
      exact hretries
    · rw [hcount]
      exact hnone
  | final hfinal =>
    refine h.over rfl (.inr ⟨_, rfl, .final (came_last labels now result) ?_⟩)
    rw [hcount]
    exact hfinal
  | waits hagain hattempt =>
    refine ⟨h.same, h.flagged _, h.room, fun _ _ => hattempt, fun n hn => ?_, ?_, fun h' => ?_,
      fun wake h' => ?_, fun h' => ?_, h.spaced.quiet rfl, fun _ h' => ?_⟩
    · cases hn
      rw [countP_quiet rfl]
      exact hcount
    · rw [countP_quiet rfl]
      exact h.bound
    · cases h'
    · cases h'
      exact ⟨labels, now, result, [], rfl, hagain, rfl, by rw [hcount]⟩
    · cases h'
    · cases h'

theorem Sound.woken (h : Sound a range deadline labels t) (hphase : t.phase = .waiting wake)
    (hwake : wake ≤ now) :
    Sound a range deadline (labels ++ [(now, .woken)]) (a.turn (t.attempt + 1) t) := by
  have hturn : a.turn (t.attempt + 1) t =
      { t with attempt := t.attempt + 1, phase := .checking } := by
    rw [turn, if_pos (h.more wake hphase)]
  rw [hturn]
  refine ⟨h.same, h.flagged _, h.more wake hphase, fun _ h' => ?_, fun n hn => ?_, ?_,
    fun h' => ?_, fun _ h' => ?_,
    fun _ => .inr ⟨labels, now, [], wake, rfl, rfl, h.failed wake hphase, hwake⟩,
    h.spaced.quiet rfl, fun _ h' => ?_⟩
  · cases h'
  · cases hn
    rw [countP_quiet rfl]
    exact h.count _ (by rw [pending, hphase])
  · rw [countP_quiet rfl]
    exact h.bound
  all_goals cases h'

theorem Sound.step (h : Sound a range deadline labels t) (hstep : Stepped a range t now event t') :
    Sound a range deadline (labels ++ [(now, event)]) t' := by
  cases hstep with
  | cancelled => exact h.cancelled
  | dropped => exact h.over rfl (.inl rfl)
  | started hphase => exact h.started hphase
  | answered hphase => exact h.answered hphase (Attempts.answered a range t now _)
  | woken hphase hwake => exact h.woken hphase hwake
  | stopped hcheck => exact h.over rfl (.inr ⟨_, rfl, h.of_check hcheck⟩)

theorem Spaced.once (h : Spaced a labels) (hfinal : ∀ result, a.again result = false) :
    labels.countP isStart ≤ 1 := by
  induction labels using List.reverseRecOn with
  | nil => exact Nat.zero_le _
  | append_singleton init label ih =>
    cases hlabel : isStart label with
    | false =>
      rw [countP_quiet hlabel]
      refine ih fun before at' later heq => h before at' (later ++ [label]) ?_
      rw [heq, List.append_assoc, List.cons_append]
    | true =>
      obtain ⟨at', rfl⟩ := isStart_iff.mp hlabel
      rcases h init at' [] rfl with hnone | ⟨_, _, _, _, -, -, hfailed, -⟩
      · rw [List.countP_append, hnone]
        exact Nat.le_refl 1
      · obtain ⟨_, _, result, _, -, hagain, -⟩ := hfailed
        rw [hfinal result] at hagain
        cases hagain

structure Kept (a : Attempts α) (range : Nat) (deadline : Option Nat)
    (labels : List (Nat × TryEvent α)) (t : Tries α) : Prop where
  bound : labels.countP isStart ≤ a.policy.maxAttempts
  spaced : Spaced a labels
  returned : ∀ result, t.phase = .done result → Returned a range deadline labels result
  sane : t.phase ≠ .panicked

theorem kept (hrun : Trace (a.Moves range) (.begin deadline) labels t) :
    Kept a range deadline labels t := by
  have hs : Sound a range deadline labels t :=
    hrun.invariant (I := Sound a range deadline) (.begin a range deadline)
      fun h hstep => h.step hstep.stepped
  exact ⟨hs.bound, hs.spaced, hs.returned, hs.sane⟩

end

end Attempts

end Zhir.Models
