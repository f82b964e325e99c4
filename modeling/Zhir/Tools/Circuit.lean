import Zhir.Core.Operation
import Zhir.Library.Holder
import Zhir.Library.Trace

/-!
The circuit breaker around a tool: one shared circuit, and calls that start, end, fail, stream
and are dropped in any order.
-/

set_option autoImplicit false
set_option relaxedAutoImplicit false

namespace Zhir.Tools

open Zhir.Core Zhir.Library

/-- The shared state. Instants are natural numbers. -/
structure Circuit where
  failures : Nat := 0
  opened : Option Nat := none
  probe : Bool := false
  deriving DecidableEq, Repr

structure CircuitBreakingTool where
  threshold : Nat
  cooldown : Nat
  positive : 0 < threshold

/-- What a call holds of the circuit until it settles or is dropped. -/
structure Probe where
  armed : Bool
  settled : Bool
  disarmed : settled = true → armed = false
  deriving DecidableEq, Repr

def Probe.fresh (armed : Bool) : Probe :=
  ⟨armed, false, fun h => absurd h Bool.false_ne_true⟩

/-- `settle` leaves every probe so. -/
def Probe.spent : Probe :=
  ⟨false, true, fun _ => rfl⟩

/-- The handle of an active operation matters through its events only. -/
inductive ToolExecution
  | finished (outcome : OperationOutcome)
  | active

namespace CircuitBreakingTool

variable (tool : CircuitBreakingTool)

/-- What `settle` makes of the circuit under the lock, its probe flag apart. -/
def count (now : Nat) (failure : Option Bool) (c : Circuit) : Circuit :=
  match failure with
  | some false => { c with failures := 0, opened := none }
  | some true =>
    if c.failures + 1 ≥ tool.threshold then
      { c with failures := c.failures + 1, opened := some now }
    else { c with failures := c.failures + 1 }
  | none => c

def settle (now : Nat) (failure : Option Bool) (p : Probe) (c : Circuit) : Probe × Circuit :=
  if p.settled then (p, c)
  else
    let c := tool.count now failure c
    (.spent, if p.armed then { c with probe := false } else c)

def outcome (now : Nat) (o : OperationOutcome) (p : Probe) (c : Circuit) : Probe × Circuit :=
  tool.settle now
    (match o with
      | .success _ _ => some false
      | .failure _ => some true
      | .cancelled _ => none) p c

def drop (p : Probe) (c : Circuit) : Circuit :=
  if p.armed then { c with probe := false } else c

/-- The probe goes into the event stream of an active operation; otherwise it is settled and
dropped. -/
def execution (now : Nat) (result : Result ToolExecution) (p : Probe) (c : Circuit) :
    Option Probe × Circuit :=
  match result with
  | .ok (.finished o) =>
    let (p, c) := tool.outcome now o p c
    (none, drop p c)
  | .ok .active => (some p, c)
  | .error e =>
    let (p, c) := tool.settle now (if e = .cancelled then none else some true) p c
    (none, drop p c)

/-- `CircuitEvents::receive`, of what the inner stream gave. -/
def receive (now : Nat) (event : Result (Option OperationEvent)) (p : Probe) (c : Circuit) :
    Probe × Circuit :=
  match event with
  | .ok (some e) =>
    match e.update with
    | .finished o => tool.outcome now o p c
    | _ => (p, c)
  | .ok none => tool.settle now (some true) p c
  | .error _ => tool.settle now (some true) p c

/-- The section of `start` under the lock: whether the call is a probe. -/
def start (now : Nat) (c : Circuit) : Result Probe × Circuit :=
  match c.opened with
  | some since =>
    if now - since < tool.cooldown ∨ c.probe = true then
      (.error (.runtimeTool ⟨"circuit_open", "tool circuit is open", false⟩), c)
    else (.ok (.fresh true), { c with probe := true })
  | none => (.ok (.fresh false), c)

end CircuitBreakingTool

/-- Where a call is; the tool inside has not answered a `calling` one. -/
inductive Call
  | absent
  | calling (probe : Probe)
  | streaming (probe : Probe)
  | ended
  deriving DecidableEq, Repr

def Call.probe : Call → Option Probe
  | .calling p => some p
  | .streaming p => some p
  | _ => none

structure World where
  circuit : Circuit := {}
  now : Nat := 0
  calls : Nat → Call := fun _ => .absent

inductive Action
  | start (call : Nat)
  | recover (call : Nat)
  | returned (call : Nat) (result : Result ToolExecution)
  | received (call : Nat) (event : Result (Option OperationEvent))
  | dropped (call : Nat)
  | tick (elapsed : Nat)

def Action.call : Action → Option Nat
  | .start i => some i
  | .recover i => some i
  | .returned i _ => some i
  | .received i _ => some i
  | .dropped i => some i
  | .tick _ => none

namespace World

def move (w : World) (i : Nat) (call : Call) (c : Circuit) : World :=
  { w with circuit := c, calls := Function.update w.calls i call }

def InFlight (w : World) (i : Nat) : Prop :=
  ∃ p, (w.calls i).probe = some p ∧ p.armed = true ∧ p.settled = false

end World

namespace CircuitBreakingTool

variable (tool : CircuitBreakingTool)

def answered : Option Probe → Call
  | some p => .streaming p
  | none => .ended

inductive Step : World → Action → World → Prop
  | refused {w : World} {i : Nat} {e : Error} {c : Circuit} (hnew : w.calls i = .absent)
      (hstart : tool.start w.now w.circuit = (.error e, c)) :
      Step w (.start i) (w.move i .ended c)
  | started {w : World} {i : Nat} {p : Probe} {c : Circuit} (hnew : w.calls i = .absent)
      (hstart : tool.start w.now w.circuit = (.ok p, c)) :
      Step w (.start i) (w.move i (.calling p) c)
  | recovering {w : World} {i : Nat} (hnew : w.calls i = .absent) :
      Step w (.recover i) (w.move i (.calling (.fresh false)) w.circuit)
  | returned {w : World} {i : Nat} {p : Probe} {p' : Option Probe} {c : Circuit}
      (result : Result ToolExecution) (hcall : w.calls i = .calling p)
      (hexecution : tool.execution w.now result p w.circuit = (p', c)) :
      Step w (.returned i result) (w.move i (answered p') c)
  | received {w : World} {i : Nat} {p p' : Probe} {c : Circuit}
      (event : Result (Option OperationEvent)) (hcall : w.calls i = .streaming p)
      (hreceive : tool.receive w.now event p w.circuit = (p', c)) :
      Step w (.received i event) (w.move i (.streaming p') c)
  | dropped {w : World} {i : Nat} {p : Probe} (hcall : (w.calls i).probe = some p) :
      Step w (.dropped i) (w.move i .ended (drop p w.circuit))
  | tick {w : World} (elapsed : Nat) : Step w (.tick elapsed) { w with now := w.now + elapsed }

def Observed (w : World) (label : Action × Bool) (w' : World) : Prop :=
  tool.Step w label.1 w' ∧ (label.2 = true ↔ w'.circuit.failures ≠ w.circuit.failures)

def changes (i : Nat) (labels : List (Action × Bool)) : Nat :=
  labels.countP fun l => l.2 && decide (l.1.call = some i)

variable {tool}

private theorem count_probe (now : Nat) (failure : Option Bool) (c : Circuit) :
    (tool.count now failure c).probe = c.probe := by
  unfold count
  split
  · rfl
  · split <;> rfl
  · rfl

/-- After `settle` the flag is down if the probe was armed; the probe never is. -/
private theorem settle_probe (now : Nat) (failure : Option Bool) (p : Probe) (c : Circuit) :
    (tool.settle now failure p c).1.armed = false ∧
      (tool.settle now failure p c).1.settled = true ∧
      (tool.settle now failure p c).2.probe = if p.armed then false else c.probe := by
  unfold settle
  by_cases hsettled : p.settled = true
  · rw [if_pos hsettled]
    refine ⟨p.disarmed hsettled, hsettled, ?_⟩
    rw [p.disarmed hsettled]
    rfl
  · rw [if_neg hsettled]
    refine ⟨rfl, rfl, ?_⟩
    cases p.armed with
    | false => exact count_probe now failure c
    | true => rfl

private theorem settle_again {p : Probe} (h : p.settled = true) (now : Nat) (failure : Option Bool)
    (c : Circuit) : tool.settle now failure p c = (p, c) :=
  if_pos h

private theorem drop_failures (p : Probe) (c : Circuit) : (drop p c).failures = c.failures := by
  unfold drop
  split <;> rfl

private theorem drop_disarmed {p : Probe} (h : p.armed = false) (c : Circuit) : drop p c = c := by
  unfold drop
  rw [h]
  rfl

private theorem drop_probe (p : Probe) (c : Circuit) :
    (drop p c).probe = if p.armed then false else c.probe := by
  unfold drop
  cases p.armed <;> rfl

private theorem execution_cases {now : Nat} {result : Result ToolExecution} {p : Probe}
    {c c' : Circuit}
    {p' : Option Probe} (h : tool.execution now result p c = (p', c')) :
    (p' = some p ∧ c' = c) ∨
      p' = none ∧ ∃ failure, c' = (tool.settle now failure p c).2 := by
  have hsettled : ∀ failure, (none, drop (tool.settle now failure p c).1
      (tool.settle now failure p c).2) = (p', c') →
      p' = none ∧ ∃ failure, c' = (tool.settle now failure p c).2 := by
    intro failure heq
    rw [drop_disarmed (settle_probe now failure p c).1] at heq
    obtain ⟨rfl, rfl⟩ := Prod.mk.inj heq
    exact ⟨rfl, failure, rfl⟩
  unfold execution at h
  split at h
  · exact .inr (hsettled _ h)
  · obtain ⟨rfl, rfl⟩ := Prod.mk.inj h
    exact .inl ⟨rfl, rfl⟩
  · exact .inr (hsettled _ h)

private theorem receive_cases {now : Nat} {event : Result (Option OperationEvent)} {p p' : Probe}
    {c c' : Circuit} (h : tool.receive now event p c = (p', c')) :
    (p' = p ∧ c' = c) ∨ ∃ failure, tool.settle now failure p c = (p', c') := by
  unfold receive at h
  split at h
  · split at h
    · exact .inr ⟨_, h⟩
    · obtain ⟨rfl, rfl⟩ := Prod.mk.inj h
      exact .inl ⟨rfl, rfl⟩
  · exact .inr ⟨_, h⟩
  · exact .inr ⟨_, h⟩

private theorem start_cases {now : Nat} {c c' : Circuit} {r : Result Probe}
    (h : tool.start now c = (r, c')) :
    ((∃ e, r = .error e) ∧ c' = c) ∨ (r = .ok (.fresh false) ∧ c' = c) ∨
      (r = .ok (.fresh true) ∧ c.probe = false ∧ c' = { c with probe := true }) := by
  unfold start at h
  split at h
  · split at h
    · obtain ⟨rfl, rfl⟩ := Prod.mk.inj h
      exact .inl ⟨⟨_, rfl⟩, rfl⟩
    · rename_i hopen
      obtain ⟨rfl, rfl⟩ := Prod.mk.inj h
      refine .inr (.inr ⟨rfl, ?_, rfl⟩)
      cases hprobe : c.probe with
      | false => rfl
      | true => exact absurd (.inr hprobe) hopen
  · obtain ⟨rfl, rfl⟩ := Prod.mk.inj h
    exact .inr (.inl ⟨rfl, rfl⟩)

end CircuitBreakingTool

namespace World

variable {w : World} {i : Nat} {call : Call} {c : Circuit}

@[simp] theorem move_calls : (w.move i call c).calls i = call := by
  change Function.update w.calls i call i = call
  rw [Function.update_self]

private theorem move_others {j : Nat} (h : j ≠ i) : (w.move i call c).calls j = w.calls j := by
  change Function.update w.calls i call j = w.calls j
  rw [Function.update_of_ne h]

private theorem move_inFlight {j : Nat} (h : j ≠ i) :
    (w.move i call c).InFlight j ↔ w.InFlight j := by
  unfold InFlight
  rw [move_others h]

private theorem inFlight_iff {p : Probe} (h : (w.calls i).probe = some p) :
    w.InFlight i ↔ p.armed = true := by
  unfold InFlight
  rw [h]
  constructor
  · rintro ⟨q, hq, harmed, -⟩
    rw [Option.some.inj hq]
    exact harmed
  · intro harmed
    refine ⟨p, rfl, harmed, ?_⟩
    cases hsettled : p.settled with
    | false => rfl
    | true => exact absurd (p.disarmed hsettled) (by rw [harmed]; decide)

private theorem not_inFlight (h : (w.calls i).probe = none) : ¬ w.InFlight i := by
  rintro ⟨p, hp, -⟩
  rw [h] at hp
  cases hp

/-- The probe flag is up exactly while an armed probe is in flight, and at most one is. -/
def Sound (w : World) : Prop :=
  Exclusive w.circuit.probe w.InFlight

theorem Sound.settled (h : w.Sound) {p : Probe} (hcall : (w.calls i).probe = some p)
    (hprobe : c.probe = if p.armed then false else w.circuit.probe)
    (hafter : ¬ (w.move i call c).InFlight i) : (w.move i call c).Sound := by
  have hothers : ∀ j, j ≠ i → ((w.move i call c).InFlight j ↔ w.InFlight j) :=
    fun j hj => move_inFlight hj
  change Exclusive c.probe _
  rw [hprobe]
  cases harmed : p.armed with
  | false =>
    have hbefore : ¬ w.InFlight i := by
      rw [inFlight_iff hcall, harmed]
      decide
    exact Exclusive.other h hbefore hafter hothers
  | true => exact Exclusive.release h ((inFlight_iff hcall).2 harmed) hafter hothers

theorem Sound.kept (h : w.Sound) (hcall : call.probe = (w.calls i).probe) :
    (w.move i call w.circuit).Sound := by
  apply Exclusive.congr h
  intro j
  by_cases hj : j = i
  · subst hj
    unfold InFlight
    rw [move_calls, hcall]
  · exact move_inFlight hj

private theorem Sound.unarmed (h : w.Sound) (hnew : w.calls i = .absent)
    (hafter : ¬ (w.move i call w.circuit).InFlight i) : (w.move i call w.circuit).Sound := by
  have hbefore : ¬ w.InFlight i := not_inFlight (by rw [hnew]; rfl)
  exact Exclusive.other h hbefore hafter fun j hj => move_inFlight hj

end World

namespace CircuitBreakingTool

variable {tool : CircuitBreakingTool}

open World

private theorem step_sound {w w' : World} {a : Action} (h : w.Sound) (hstep : tool.Step w a w') :
    w'.Sound := by
  cases hstep with
  | refused hnew hstart =>
    rcases start_cases hstart with ⟨-, rfl⟩ | ⟨hok, -⟩ | ⟨hok, -⟩
    · exact h.unarmed hnew (not_inFlight (by rw [move_calls]; rfl))
    · cases hok
    · cases hok
  | @started i p c hnew hstart =>
    rcases start_cases hstart with ⟨⟨e, he⟩, -⟩ | ⟨hok, rfl⟩ | ⟨hok, hprobe, rfl⟩
    · cases he
    · cases hok
      apply h.unarmed hnew
      rw [inFlight_iff (p := .fresh false) (by rw [move_calls]; rfl)]
      decide
    · cases hok
      have hdown : Exclusive false w.InFlight := hprobe ▸ h
      apply Exclusive.acquire hdown (k := i)
      · rw [inFlight_iff (p := .fresh true) (by rw [move_calls]; rfl)]
        rfl
      · intro j hj
        exact move_inFlight hj
  | recovering hnew =>
    apply h.unarmed hnew
    rw [inFlight_iff (p := .fresh false) (by rw [move_calls]; rfl)]
    decide
  | returned result hcall hexecution =>
    rcases execution_cases hexecution with ⟨rfl, rfl⟩ | ⟨rfl, failure, rfl⟩
    · exact h.kept (by rw [hcall]; rfl)
    · apply h.settled (by rw [hcall]; rfl) (settle_probe _ _ _ _).2.2
      exact not_inFlight (by rw [move_calls]; rfl)
  | @received i p p' c event hcall hreceive =>
    rcases receive_cases hreceive with ⟨rfl, rfl⟩ | ⟨failure, hsettle⟩
    · exact h.kept (by rw [hcall])
    · obtain ⟨hdisarmed, -, hflag⟩ := @settle_probe tool w.now failure p w.circuit
      rw [hsettle] at hdisarmed hflag
      apply h.settled (by rw [hcall]; rfl) hflag
      rw [inFlight_iff (p := p') (by rw [move_calls]; rfl)]
      exact Bool.eq_false_iff.1 hdisarmed
  | dropped hcall =>
    apply h.settled hcall (drop_probe _ _)
    exact not_inFlight (by rw [move_calls]; rfl)
  | tick elapsed => exact h

def Unsettled : Call → Prop
  | .absent => True
  | .calling p => p.settled = false
  | .streaming p => p.settled = false
  | .ended => False

/-- Only the call that a step is of moves, and only an unsettled one changes the failure count, by
settling. -/
private theorem step_calls {w w' : World} {a : Action} (hstep : tool.Step w a w') (i : Nat) :
    (a.call ≠ some i → w'.calls i = w.calls i) ∧
      (Unsettled (w'.calls i) → Unsettled (w.calls i)) ∧
      (a.call = some i → w'.circuit.failures ≠ w.circuit.failures →
        Unsettled (w.calls i) ∧ ¬ Unsettled (w'.calls i)) := by
  have hmoved : ∀ (k : Nat) (call : Call) (c : Circuit),
      (some k ≠ some i → (w.move k call c).calls i = w.calls i) ∧
        ((Unsettled call → Unsettled (w.calls k)) →
          Unsettled ((w.move k call c).calls i) → Unsettled (w.calls i)) := by
    intro k call c
    refine ⟨fun h => move_others fun heq => h (congrArg some heq.symm), ?_⟩
    intro hk hi
    by_cases heq : i = k
    · subst heq
      rw [move_calls] at hi
      exact hk hi
    · rwa [move_others heq] at hi
  have hsettled : ∀ (p : Probe) (failure : Option Bool),
      (tool.settle w.now failure p w.circuit).2.failures ≠ w.circuit.failures →
        p.settled = false := by
    intro p failure hne
    cases hp : p.settled with
    | false => rfl
    | true => exact absurd (by rw [settle_again hp]) hne
  cases hstep with
  | @refused k e c hnew hstart =>
    obtain ⟨hothers, hback⟩ := hmoved k .ended c
    refine ⟨hothers, hback fun h => h.elim, fun _ hne => ?_⟩
    rcases start_cases hstart with ⟨-, rfl⟩ | ⟨hok, -⟩ | ⟨hok, -⟩
    · exact absurd rfl hne
    · cases hok
    · cases hok
  | @started k p c hnew hstart =>
    obtain ⟨hothers, hback⟩ := hmoved k (.calling p) c
    refine ⟨hothers, hback fun _ => by rw [hnew]; trivial, fun _ hne => ?_⟩
    rcases start_cases hstart with ⟨-, rfl⟩ | ⟨-, rfl⟩ | ⟨-, -, rfl⟩ <;> exact absurd rfl hne
  | @recovering k hnew =>
    obtain ⟨hothers, hback⟩ := hmoved k (.calling (.fresh false)) w.circuit
    exact ⟨hothers, hback fun _ => by rw [hnew]; trivial, fun _ hne => absurd rfl hne⟩
  | @returned k p p' c result hcall hexecution =>
    obtain ⟨hothers, hback⟩ := hmoved k (answered p') c
    rcases execution_cases hexecution with ⟨rfl, rfl⟩ | ⟨rfl, failure, rfl⟩
    · refine ⟨hothers, hback ?_, fun _ hne => absurd rfl hne⟩
      rw [hcall]
      exact id
    · refine ⟨hothers, hback fun h => h.elim, ?_⟩
      intro hk hne
      obtain rfl := Option.some.inj hk
      rw [hcall, move_calls]
      exact ⟨hsettled p failure hne, id⟩
  | @received k p p' c event hcall hreceive =>
    obtain ⟨hothers, hback⟩ := hmoved k (.streaming p') c
    rcases receive_cases hreceive with ⟨rfl, rfl⟩ | ⟨failure, hsettle⟩
    · refine ⟨hothers, hback ?_, fun _ hne => absurd rfl hne⟩
      rw [hcall]
      exact id
    · have hspent := (@settle_probe tool w.now failure p w.circuit).2.1
      rw [hsettle] at hspent
      have hnot : ¬ Unsettled (.streaming p') := by
        intro h
        rw [show p'.settled = false from h] at hspent
        cases hspent
      refine ⟨hothers, hback fun h => absurd h hnot, ?_⟩
      intro hk hne
      obtain rfl := Option.some.inj hk
      rw [hcall, move_calls]
      refine ⟨hsettled p failure ?_, hnot⟩
      rw [hsettle]
      exact hne
  | @dropped k p hcall =>
    obtain ⟨hothers, hback⟩ := hmoved k .ended (drop p w.circuit)
    refine ⟨hothers, hback fun h => h.elim, fun _ hne => ?_⟩
    exact absurd (drop_failures p w.circuit) hne
  | tick elapsed => exact ⟨fun _ => rfl, id, fun _ hne => absurd rfl hne⟩

/-- Along a run: the flag is right, and a call that has changed the failure count is settled. -/
def Counted (labels : List (Action × Bool)) (w : World) : Prop :=
  w.Sound ∧ ∀ i, changes i labels ≤ 1 ∧ (Unsettled (w.calls i) → changes i labels = 0)

private theorem observed_counted {labels : List (Action × Bool)} {w w' : World}
    {label : Action × Bool}
    (h : Counted labels w) (hstep : tool.Observed w label w') :
    Counted (labels ++ [label]) w' := by
  obtain ⟨hsound, hcount⟩ := h
  obtain ⟨hmoves, hflag⟩ := hstep
  refine ⟨step_sound hsound hmoves, ?_⟩
  intro i
  obtain ⟨hle, hzero⟩ := hcount i
  obtain ⟨-, hback, hchanges⟩ := step_calls hmoves i
  have happend : changes i (labels ++ [label]) =
      changes i labels + changes i [label] := List.countP_append
  rw [happend]
  by_cases hhere : label.2 = true ∧ label.1.call = some i
  · obtain ⟨hchanged, hcall⟩ := hhere
    obtain ⟨hbefore, hafter⟩ := hchanges hcall (hflag.1 hchanged)
    have hone : changes i [label] = 1 := by
      simp [changes, hchanged, hcall]
    have hnone := hzero hbefore
    refine ⟨by omega, fun h => absurd h hafter⟩
  · have hnone : changes i [label] = 0 := by
      apply List.countP_eq_zero.2
      intro l hl
      rw [List.mem_singleton.1 hl, Bool.and_eq_true, decide_eq_true_eq]
      exact hhere
    rw [hnone, Nat.add_zero]
    exact ⟨hle, fun h => hzero (hback h)⟩

/-- An open circuit that has cooled down, without a probe, takes the next call as its probe. -/
private theorem start_probes {w : World} (h : w.Sound) {since : Nat}
    (hopen : w.circuit.opened = some since) (hcool : tool.cooldown ≤ w.now - since)
    (hidle : ∀ i, ¬ w.InFlight i) :
    tool.start w.now w.circuit = (.ok (.fresh true), { w.circuit with probe := true }) := by
  have hdown : w.circuit.probe = false := by
    cases hprobe : w.circuit.probe with
    | false => rfl
    | true =>
      obtain ⟨i, hi⟩ := h.held.1 hprobe
      exact absurd hi (hidle i)
  have hallowed : ¬ (w.now - since < tool.cooldown ∨ w.circuit.probe = true) := by
    rw [hdown]
    rintro (h | h)
    · omega
    · cases h
  simp only [start, hopen, if_neg hallowed]

/-- The circuit breaker does not wedge, in any order of its calls. -/
theorem never_wedges {labels : List (Action × Bool)} {w : World}
    (hrun : Trace tool.Observed {} labels w) :
    (∀ i j, w.InFlight i → w.InFlight j → i = j) ∧
      (w.circuit.probe = true ↔ ∃ i, w.InFlight i) ∧
      (∀ i, changes i labels ≤ 1) ∧
      ∀ since, w.circuit.opened = some since → tool.cooldown ≤ w.now - since →
        (∀ i, ¬ w.InFlight i) → ∀ i, w.calls i = .absent →
          ∃ w', tool.Step w (.start i) w' ∧ w'.InFlight i := by
  have hinit : Counted [] {} := by
    refine ⟨Exclusive.of_none ?_, fun i => ⟨Nat.zero_le 1, fun _ => rfl⟩⟩
    intro i
    exact not_inFlight rfl
  obtain ⟨hsound, hcount⟩ := hrun.invariant hinit observed_counted
  refine ⟨hsound.single, hsound.held, fun i => (hcount i).1, ?_⟩
  intro since hopen hcool hidle i hnew
  refine ⟨_, .started hnew (start_probes hsound hopen hcool hidle), ?_⟩
  rw [inFlight_iff (p := .fresh true) (by rw [move_calls]; rfl)]
  rfl

/-- One failure opens this circuit; a call that began before fails while the probe runs. -/
def sampleTool : CircuitBreakingTool :=
  ⟨1, 5, by decide⟩

def sampleFailure : Result ToolExecution :=
  .error (.runtimeTool ⟨"down", "", false⟩)

def sampleLabels : List (Action × Bool) :=
  [(.start 0, false), (.start 1, false), (.returned 0 sampleFailure, true), (.tick 5, false),
    (.start 2, false), (.returned 1 sampleFailure, true)]

theorem never_wedges_stale :
    ∃ w, Trace sampleTool.Observed {} sampleLabels w ∧ (∃ i, w.InFlight i) ∧
      changes 1 sampleLabels ≤ 1 := by
  let w₁ : World := World.move {} 0 (.calling (.fresh false)) {}
  let w₂ := w₁.move 1 (.calling (.fresh false)) {}
  let w₃ := w₂.move 0 .ended { failures := 1, opened := some 0 }
  let w₄ : World := { w₃ with now := 5 }
  let w₅ := w₄.move 2 (.calling (.fresh true)) { failures := 1, opened := some 0, probe := true }
  let w₆ := w₅.move 1 .ended { failures := 2, opened := some 5, probe := true }
  have h₁ : sampleTool.Observed {} (.start 0, false) w₁ :=
    ⟨.started rfl rfl, by decide⟩
  have h₂ : sampleTool.Observed w₁ (.start 1, false) w₂ :=
    ⟨.started rfl rfl, by decide⟩
  have h₃ : sampleTool.Observed w₂ (.returned 0 sampleFailure, true) w₃ :=
    ⟨@Step.returned sampleTool w₂ 0 (.fresh false) none ⟨1, some 0, false⟩ sampleFailure rfl rfl,
      by decide⟩
  have h₄ : sampleTool.Observed w₃ (.tick 5, false) w₄ :=
    ⟨.tick 5, by decide⟩
  have h₅ : sampleTool.Observed w₄ (.start 2, false) w₅ :=
    ⟨.started rfl rfl, by decide⟩
  have h₆ : sampleTool.Observed w₅ (.returned 1 sampleFailure, true) w₆ :=
    ⟨@Step.returned sampleTool w₅ 1 (.fresh false) none ⟨2, some 5, true⟩ sampleFailure rfl rfl,
      by decide⟩
  have hrun : Trace sampleTool.Observed {} sampleLabels w₆ :=
    .next (.next (.next (.next (.next (.next .start h₁) h₂) h₃) h₄) h₅) h₆
  obtain ⟨-, hflag, hcount, -⟩ := never_wedges hrun
  exact ⟨w₆, hrun, hflag.1 rfl, hcount 1⟩

end CircuitBreakingTool

end Zhir.Tools
