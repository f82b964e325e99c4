import Zhir.Models.Requests

/-!
A bound on the sessions of a model: a session holds its permit through each port the host was
given, until the last of them is dropped.
-/

set_option autoImplicit false
set_option relaxedAutoImplicit false

namespace Zhir.Models

open Zhir.Core
open Zhir.Library (Trace Pool)

/-- The ports of an open session, and the references to its permit. The control and the sender are
shared handles, which are counted; each leased port has one reference to the permit. -/
structure Lease where
  permits : Nat
  control : Nat
  input : Nat
  output : Bool
  events : Bool

inductive LeaseEvent
  | cloneControl
  | dropControl
  | cloneInput
  | dropInput
  | dropOutput
  | dropEvents

namespace Lease

/-- The permit goes into the events; the other ports there are get a clone of it. -/
def opened (input output : Bool) : Lease where
  permits := 1 + 1 + input.toNat + output.toNat
  control := 1
  input := input.toNat
  output
  events := true

/-- A shared handle is dropped, and with the last one what is behind it. -/
def release (handles permits : Nat) : Option (Nat × Nat) :=
  if handles = 0 then none
  else if handles = 1 then some (0, permits - 1)
  else some (handles - 1, permits)

def step (l : Lease) : LeaseEvent → Option Lease
  | .cloneControl => if l.control = 0 then none else some { l with control := l.control + 1 }
  | .dropControl =>
    (release l.control l.permits).map fun (control, permits) => { l with control, permits }
  | .cloneInput => if l.input = 0 then none else some { l with input := l.input + 1 }
  | .dropInput => (release l.input l.permits).map fun (input, permits) => { l with input, permits }
  | .dropOutput =>
    if l.output then some { l with output := false, permits := l.permits - 1 } else none
  | .dropEvents =>
    if l.events then some { l with events := false, permits := l.permits - 1 } else none

def ports (l : Lease) : Nat :=
  (if l.control = 0 then 0 else 1) + (if l.input = 0 then 0 else 1) + l.output.toNat +
    l.events.toNat

end Lease

inductive OpeningPhase
  | starting
  | acquiring
  /-- The permit is held, and the model inside opens the session. -/
  | entering
  | opened (lease : Lease)
  | failed (error : Error)
  | dropped

/-- One call of `open_session`, and the session it comes to. -/
structure Opening where
  deadline : Option Nat
  cancelled : Bool
  phase : OpeningPhase

inductive OpeningEvent
  | cancel
  /-- The future is dropped. -/
  | drop
  | started
  | acquired
  | interrupted
  /-- Whether the session has a media input and a media output. -/
  | answered (result : Result (Bool × Bool))
  | lease (event : LeaseEvent)

namespace Opening

def proceed (now : Nat) (o : Opening) (event : OpeningEvent) : Option OpeningPhase :=
  match o.phase, event with
  | .starting, .drop | .acquiring, .drop | .entering, .drop => some .dropped
  | .starting, .started =>
    match checkTiming o.cancelled o.deadline now with
    | .error error => some (.failed error)
    | .ok () => some .acquiring
  | .acquiring, .acquired => some .entering
  | .acquiring, .interrupted =>
    match checkTiming o.cancelled o.deadline now with
    | .error error => some (.failed error)
    | .ok () => none
  | .entering, .answered (.error error) => some (.failed error)
  | .entering, .answered (.ok (input, output)) => some (.opened (.opened input output))
  | .opened lease, .lease event => (lease.step event).map .opened
  | _, _ => none

def step (o : Opening) : Nat × OpeningEvent → Option Opening
  | (_, .cancel) => some { o with cancelled := true }
  | (now, event) => (o.proceed now event).map fun phase => { o with phase }

def Moves (o : Opening) (label : Nat × OpeningEvent) (o' : Opening) : Prop :=
  o.step label = some o'

def Joins (o : Opening) : Prop := ∃ deadline, o = ⟨deadline, false, .starting⟩

def fresh (o : Opening) : Bool :=
  match o.cancelled, o.phase with
  | false, .starting => true
  | _, _ => false

theorem joins_of_fresh {o : Opening} (h : o.fresh = true) : o.Joins := by
  unfold fresh at h
  split at h
  · next hcancelled hphase => exact ⟨o.deadline, by rw [← hcancelled, ← hphase]⟩
  · cases h

/-- The permit is taken from the pool as long as there is a reference to it. -/
def weight (o : Opening) : Nat :=
  match o.phase with
  | .entering => 1
  | .opened lease => if lease.permits = 0 then 0 else 1
  | _ => 0

/-- A session is opened by the model inside, or a port of it is left. -/
def live (o : Opening) : Bool :=
  match o.phase with
  | .entering => true
  | .opened lease => decide (0 < lease.ports)
  | _ => false

end Opening

/-- `Semaphore::MAX_PERMITS`. -/
def maxPermits : Nat := 2 ^ 61 - 1

def semaphore (limit : Nat) (name : String) : Result (Pool Opening) :=
  if limit = 0 ∨ limit > maxPermits then .error (.invalid s!"invalid {name} concurrency limit")
  else .ok (Pool.start limit)

namespace Lease

variable {l l' : Lease}

private theorem release_cases {handles permits handles' permits' : Nat}
    (h : release handles permits = some (handles', permits')) :
    handles = 1 ∧ handles' = 0 ∧ permits' = permits - 1 ∨
      1 < handles ∧ handles' = handles - 1 ∧ permits' = permits := by
  unfold release at h
  split at h
  · cases h
  · next hsome =>
    split at h
    · next hone =>
      cases h
      exact .inl ⟨hone, rfl, rfl⟩
    · next hmore =>
      cases h
      exact .inr ⟨by omega, rfl, rfl⟩

private theorem release_counted {handles permits handles' permits' others : Nat}
    (h : release handles permits = some (handles', permits'))
    (hcount : permits = others + if handles = 0 then 0 else 1) :
    permits' = others + if handles' = 0 then 0 else 1 := by
  rcases release_cases h with ⟨rfl, rfl, rfl⟩ | ⟨hmore, rfl, rfl⟩
  · rw [if_neg Nat.one_ne_zero] at hcount
    rw [if_pos rfl]
    omega
  · have hbefore : handles ≠ 0 := by omega
    have hafter : handles - 1 ≠ 0 := by omega
    rw [if_neg hbefore] at hcount
    rw [if_neg hafter]
    exact hcount

private theorem opened_permits (input output : Bool) :
    (opened input output).permits = (opened input output).ports := by
  cases input with
  | true => cases output <;> rfl
  | false => cases output <;> rfl

private theorem step_permits (hl : l.permits = l.ports) {event : LeaseEvent}
    (h : l.step event = some l') :
    l'.permits = l'.ports := by
  unfold step at h
  unfold ports at hl ⊢
  split at h
  · split at h
    · cases h
    · next hcontrol =>
      cases h
      simp only [hcontrol, Nat.succ_ne_zero, if_false] at hl ⊢
      exact hl
  · obtain ⟨⟨control, permits⟩, hrelease, rfl⟩ := Option.map_eq_some_iff.mp h
    have hcount : l.permits = (if l.input = 0 then 0 else 1) + l.output.toNat + l.events.toNat +
        if l.control = 0 then 0 else 1 := by
      rw [hl]
      ac_rfl
    show permits = (if control = 0 then 0 else 1) + (if l.input = 0 then 0 else 1) +
      l.output.toNat + l.events.toNat
    rw [release_counted hrelease hcount]
    ac_rfl
  · split at h
    · cases h
    · next hinput =>
      cases h
      simp only [hinput, Nat.succ_ne_zero, if_false] at hl ⊢
      exact hl
  · obtain ⟨⟨input, permits⟩, hrelease, rfl⟩ := Option.map_eq_some_iff.mp h
    have hcount : l.permits = (if l.control = 0 then 0 else 1) + l.output.toNat + l.events.toNat +
        if l.input = 0 then 0 else 1 := by
      rw [hl]
      ac_rfl
    show permits = (if l.control = 0 then 0 else 1) + (if input = 0 then 0 else 1) +
      l.output.toNat + l.events.toNat
    rw [release_counted hrelease hcount]
    ac_rfl
  · split at h
    · next houtput =>
      cases h
      simp only [houtput, Bool.toNat_true, Bool.toNat_false] at hl ⊢
      omega
    · cases h
  · split at h
    · next hevents =>
      cases h
      simp only [hevents, Bool.toNat_true, Bool.toNat_false] at hl ⊢
      omega
    · cases h

end Lease

namespace Opening

variable {o o' : Opening} {now : Nat} {event : OpeningEvent}

inductive Proceeds (o : Opening) (now : Nat) : OpeningEvent → OpeningPhase → Prop
  | dropped : Proceeds o now .drop .dropped
  | admitted (hcheck : checkTiming o.cancelled o.deadline now = .ok ()) :
      Proceeds o now .started .acquiring
  | acquired : Proceeds o now .acquired .entering
  | interrupted {event : OpeningEvent} {error : Error}
      (hcheck : checkTiming o.cancelled o.deadline now = .error error) :
      Proceeds o now event (.failed error)
  | refused {error : Error} : Proceeds o now (.answered (.error error)) (.failed error)
  | opened (input output : Bool) :
      Proceeds o now (.answered (.ok (input, output))) (.opened (.opened input output))
  | leased {lease lease' : Lease} {event : LeaseEvent} (hphase : o.phase = .opened lease)
      (h : lease.step event = some lease') : Proceeds o now (.lease event) (.opened lease')

theorem proceeds {phase : OpeningPhase} (h : o.proceed now event = some phase) :
    o.Proceeds now event phase := by
  unfold proceed at h
  split at h
  · cases h
    exact .dropped
  · cases h
    exact .dropped
  · cases h
    exact .dropped
  · split at h
    · next hcheck =>
      cases h
      exact .interrupted hcheck
    · next hcheck =>
      cases h
      exact .admitted hcheck
  · cases h
    exact .acquired
  · split at h
    · next hcheck =>
      cases h
      exact .interrupted hcheck
    · cases h
  · cases h
    exact .refused
  · cases h
    exact .opened _ _
  · next hphase =>
    obtain ⟨lease', hlease, rfl⟩ := Option.map_eq_some_iff.mp h
    exact .leased hphase hlease
  · cases h

theorem Moves.cases (h : o.Moves (now, event) o') :
    event = .cancel ∧ o' = { o with cancelled := true } ∨
      ∃ phase, o.Proceeds now event phase ∧ o' = { o with phase } := by
  unfold Moves step at h
  split at h
  · next heq =>
    cases heq
    cases h
    exact .inl ⟨rfl, rfl⟩
  · next heq =>
    cases heq
    obtain ⟨phase, hphase, rfl⟩ := Option.map_eq_some_iff.mp h
    exact .inr ⟨phase, proceeds hphase, rfl⟩

/-- The references to the permit of an open session are those of the ports that are left. -/
def Counted (o : Opening) : Prop :=
  ∀ lease, o.phase = .opened lease → lease.permits = lease.ports

theorem Counted.step (ho : o.Counted) (h : o.Moves (now, event) o') : o'.Counted := by
  rcases h.cases with ⟨-, rfl⟩ | ⟨phase, hproceeds, rfl⟩
  · exact ho
  · intro lease hlease
    cases hproceeds with
    | dropped | admitted | acquired | interrupted | refused => cases hlease
    | opened input output =>
      cases hlease
      exact Lease.opened_permits input output
    | leased hphase hstep =>
      cases hlease
      exact Lease.step_permits (ho _ hphase) hstep

private theorem Counted.weight_eq (ho : o.Counted) : o.weight = o.live.toNat := by
  unfold weight live
  cases hphase : o.phase with
  | opened lease =>
    simp only
    rw [ho lease hphase]
    by_cases hports : lease.ports = 0
    · rw [if_pos hports, hports]
      rfl
    · rw [if_neg hports, decide_eq_true (Nat.pos_of_ne_zero hports)]
      rfl
  | _ => rfl

/-- Why an opening fails: it was cancelled, its time was over, or the model refused it. -/
inductive Failed (deadline : Option Nat) (labels : List (Nat × OpeningEvent)) : Error → Prop
  | cancelled {now : Nat} (hevent : (now, .cancel) ∈ labels) : Failed deadline labels .cancelled
  | deadline {now : Nat} {event : OpeningEvent} (hevent : (now, event) ∈ labels)
      (h : deadline.any (· ≤ now) = true) : Failed deadline labels .deadline
  | refused {now : Nat} {error : Error} (hevent : (now, .answered (.error error)) ∈ labels) :
      Failed deadline labels error

theorem Failed.later {deadline : Option Nat} {labels : List (Nat × OpeningEvent)} {error : Error}
    (h : Failed deadline labels error) (label : Nat × OpeningEvent) :
    Failed deadline (labels ++ [label]) error := by
  cases h with
  | cancelled hevent => exact .cancelled (List.mem_append_left _ hevent)
  | deadline hevent h => exact .deadline (List.mem_append_left _ hevent) h
  | refused hevent => exact .refused (List.mem_append_left _ hevent)

/-- An opening fails for the reason its caller is told. -/
structure Explained (labels : List (Nat × OpeningEvent)) (o : Opening) : Prop where
  cancelled : o.cancelled = true → ∃ now, (now, .cancel) ∈ labels
  failed : ∀ error, o.phase = .failed error → Failed o.deadline labels error

theorem Explained.step {labels : List (Nat × OpeningEvent)} (ho : o.Explained labels)
    (h : o.Moves (now, event) o') : o'.Explained (labels ++ [(now, event)]) := by
  have hlast : (now, event) ∈ labels ++ [(now, event)] :=
    List.mem_append_right _ (List.mem_singleton.mpr rfl)
  have hflag : o.cancelled = true → ∃ at', (at', .cancel) ∈ labels ++ [(now, event)] := by
    intro hcancelled
    obtain ⟨at', hevent⟩ := ho.cancelled hcancelled
    exact ⟨at', List.mem_append_left _ hevent⟩
  rcases h.cases with ⟨rfl, rfl⟩ | ⟨phase, hproceeds, rfl⟩
  · exact ⟨fun _ => ⟨now, hlast⟩, fun error herror => (ho.failed error herror).later _⟩
  · refine ⟨hflag, fun error herror => ?_⟩
    cases hproceeds with
    | dropped | admitted | acquired | opened | leased => cases herror
    | interrupted hcheck =>
      cases herror
      rcases Send.checkTiming_error hcheck with ⟨rfl, hcancelled⟩ | ⟨rfl, hlate⟩
      · obtain ⟨at', hevent⟩ := hflag hcancelled
        exact .cancelled hevent
      · exact .deadline hlast hlate
    | refused =>
      cases herror
      exact .refused hlast

end Opening

/-- However sessions are opened, cloned, dropped, cancelled and refused at once: the permits that
are not free are those of the sessions that are being opened by the model or have a port left, one
each, so that there are never more of these than the limit, and none is lost with the last port. A
session that does not open was cancelled, was late or was refused by the model. -/
theorem sessions_limited {limit : Nat} {start : Pool Opening}
    (hnew : semaphore limit "session" = .ok start)
    {labels : List (Pool.Label Opening (Nat × OpeningEvent))} {s : Pool Opening}
    (hrun : Trace (Pool.Step Opening.weight Opening.Joins Opening.Moves) start labels s) :
    s.free + s.parties.countP Opening.live = limit ∧
      ∀ (i : Nat) (o : Opening), s.parties[i]? = some o → o.Explained (Pool.own i labels) := by
  obtain rfl : start = Pool.start limit := by
    unfold semaphore at hnew
    split at hnew
    · cases hnew
    · cases hnew
      rfl
  have hcounted : ∀ o ∈ s.parties, o.Counted := by
    refine Pool.forall_parties ?_ (fun ho h => ho.step h) hrun
    rintro o ⟨deadline, rfl⟩ lease hlease
    cases hlease
  refine ⟨?_, fun i o ho => ?_⟩
  · rw [← Pool.held_eq_countP fun o ho => (hcounted o ho).weight_eq]
    exact Pool.conserved hrun
  · obtain ⟨first, ⟨deadline, rfl⟩, htrace⟩ := Pool.party hrun ho
    refine htrace.invariant (I := fun labels o => o.Explained labels) ?_ fun h hstep => h.step hstep
    refine ⟨fun h => ?_, fun error herror => ?_⟩
    · cases h
    · cases herror

/-- Two sessions within a limit of one: the second waits while a handle of the first is left. -/
def sampleOpenings : List (Pool.Label Opening (Nat × OpeningEvent)) :=
  [.join ⟨none, false, .starting⟩, .join ⟨some 9, false, .starting⟩, .move 0 (1, .started),
    .move 1 (2, .started), .move 0 (3, .acquired), .move 0 (4, .answered (.ok (true, false))),
    .move 0 (5, .lease .cloneControl), .move 0 (6, .lease .dropEvents),
    .move 0 (7, .lease .dropInput), .move 0 (8, .lease .dropControl), .move 1 (9, .interrupted)]

def sampleSessions : Option (Pool Opening) :=
  sampleOpenings.foldlM (Pool.advance Opening.weight Opening.fresh Opening.step) (Pool.start 1)

private theorem sampleSessions_run : Trace (Pool.Step Opening.weight Opening.Joins Opening.Moves)
    (Pool.start 1) sampleOpenings (sampleSessions.get (by decide +kernel)) :=
  .of_foldlM (Pool.step_of_advance (fun _ => Opening.joins_of_fresh) fun _ _ _ h => h)
    (Option.some_get _).symm

theorem sessions_limited_sample :
    (sampleSessions.get (by decide +kernel)).free +
      (sampleSessions.get (by decide +kernel)).parties.countP Opening.live = 1 ∧
    (sampleSessions.get (by decide +kernel)).free = 0 :=
  ⟨(@sessions_limited 1 (Pool.start 1) rfl _ _ sampleSessions_run).1, by decide +kernel⟩

end Zhir.Models
