import Mathlib.Algebra.GroupWithZero.Nat
import Zhir.Library.Segments

/-!
The events an invocation lets its observer see: a bounded channel that loses events when it is
full, and markers for the gaps.
-/

set_option autoImplicit false
set_option relaxedAutoImplicit false

namespace Zhir.Kernel.Observation

open Zhir.Library (Segments)

variable {δ : Type}

/-- `EventData`, as far as the emitter tells its variants apart. -/
inductive EventData (δ : Type)
  | observationGap (count : Nat)
  | other (data : δ)
  deriving DecidableEq, Repr

structure Event (δ : Type) where
  runId : String
  invocationId : String
  sequence : Nat
  data : EventData δ
  deriving DecidableEq, Repr

/-- `EventState`; of the sender only whether it is still there. -/
structure EventState where
  sequence : Nat
  lost : Nat
  sender : Bool
  deriving DecidableEq, Repr

structure Emitter where
  runId : String
  invocationId : String

/-- `try_send` into a channel with this capacity. -/
def trySend {α : Type} (capacity : Nat) (queue : List α) (item : α) : Option (List α) :=
  if queue.length < capacity then some (queue ++ [item]) else none

def Emitter.event (e : Emitter) (sequence : Nat) (data : EventData δ) : Event δ :=
  ⟨e.runId, e.invocationId, sequence, data⟩

/-- What `emit` does up to its first send; last, whether a marker was sent. -/
def Emitter.sendGap (e : Emitter) (capacity : Nat) (s : EventState) (queue : List (Event δ)) :
    EventState × List (Event δ) × Bool :=
  let s := { s with sequence := s.sequence + 1 }
  if 0 < s.lost then
    match trySend capacity queue (e.event s.sequence (.observationGap s.lost)) with
    | some queue => ({ s with lost := 0, sequence := s.sequence + 1 }, queue, true)
    | none => (s, queue, false)
  else (s, queue, false)

/-- The rest of `emit`; last, whether the event was sent. -/
def Emitter.sendEvent (e : Emitter) (capacity : Nat) (data : δ) (s : EventState)
    (queue : List (Event δ)) : EventState × List (Event δ) × Bool :=
  match trySend capacity queue (e.event s.sequence (.other data)) with
  | some queue => (s, queue, true)
  | none => ({ s with lost := s.lost + 1 }, queue, false)

/-- An `emit` that holds the lock between its two sends. -/
structure Pending (δ : Type) where
  data : δ
  marked : Bool
  deriving DecidableEq, Repr

inductive Fate (δ : Type)
  | kept (data : δ)
  | lost
  deriving DecidableEq, Repr

/-- The emitter, its channel and its observer. Received events and fates are only remembered. -/
structure Observer (δ : Type) where
  state : EventState
  queue : List (Event δ)
  pending : Option (Pending δ)
  received : List (Event δ)
  fates : List (Fate δ)
  deriving DecidableEq, Repr

def Observer.new : Observer δ := ⟨⟨0, 0, true⟩, [], none, [], []⟩

/-- What can happen next: an `emit` up to its first send, the rest of it, a receive at any
time, and `close`. -/
inductive Action (δ : Type)
  | emit (data : δ)
  | finish
  | receive
  | close
  deriving DecidableEq, Repr

def step (e : Emitter) (capacity : Nat) (o : Observer δ) : Action δ → Option (Observer δ)
  | .emit data =>
    if o.pending.isSome then none
    else if o.state.sender then
      let (state, queue, marked) := e.sendGap capacity o.state o.queue
      some { o with state, queue, pending := some ⟨data, marked⟩ }
    else some o
  | .finish => do
    let p ← o.pending
    let (state, queue, kept) := e.sendEvent capacity p.data o.state o.queue
    let fates := o.fates ++ [if kept then .kept p.data else .lost]
    return { o with state, queue, pending := none, fates }
  | .receive =>
    match o.queue with
    | [] => none
    | event :: queue => some { o with queue, received := o.received ++ [event] }
  | .close =>
    if o.pending.isSome then none
    else some { o with state := { o.state with sender := false } }

def run (e : Emitter) (capacity : Nat) (actions : List (Action δ)) : Option (Observer δ) :=
  actions.foldlM (step e capacity) .new

def Observer.stream (o : Observer δ) : List (Event δ) := o.received ++ o.queue

/-- Markers for gaps mark; ordinary events end the segment of the markers before them. -/
def EventData.item : EventData δ → Nat ⊕ δ
  | .observationGap count => .inl count
  | .other data => .inr data

def Fate.item : Fate δ → Unit ⊕ δ
  | .kept data => .inr data
  | .lost => .inl ()

def markers (events : List (Event δ)) : Segments Nat δ :=
  .of (events.map fun event => event.data.item)

def losses (fates : List (Fate δ)) : Segments Unit δ := .of (fates.map Fate.item)

/-- What an event stands for: itself, or the lost ones that a marker counts. -/
def EventData.weight : EventData δ → Nat
  | .observationGap count => count
  | .other _ => 1

def weights (events : List (Event δ)) : Nat := (events.map fun event => event.data.weight).sum

/-- The ordinary events with the sum of the markers before each. -/
def counted (s : Segments Nat δ) : List (Nat × δ) := s.ended.map fun g => (g.1.sum, g.2)

/-- The events that were not lost with the number of those lost before each. -/
def missed (s : Segments Unit δ) : List (Nat × δ) := s.ended.map fun g => (g.1.length, g.2)

/-- One marker with the exact number, where anything was lost. -/
def exactly (g : Nat × δ) : List Nat × δ := (if g.1 = 0 then [] else [g.1], g.2)

section

variable {e : Emitter} {capacity : Nat} {o o' : Observer δ} {a : Action δ}
  {actions : List (Action δ)}

inductive Stepped (e : Emitter) (capacity : Nat) (o : Observer δ) : Action δ → Observer δ → Prop
  | marked {data : δ} (hpending : o.pending = none) (hlost : 0 < o.state.lost)
      (hroom : o.queue.length < capacity) : Stepped e capacity o (.emit data)
        { o with
          state := ⟨o.state.sequence + 2, 0, o.state.sender⟩
          queue := o.queue ++
            [e.event (o.state.sequence + 1) (.observationGap o.state.lost)]
          pending := some ⟨data, true⟩ }
  | unmarked {data : δ} (hpending : o.pending = none)
      (hlost : 0 < o.state.lost → capacity ≤ o.queue.length) :
      Stepped e capacity o (.emit data)
        { o with
          state := ⟨o.state.sequence + 1, o.state.lost, o.state.sender⟩
          pending := some ⟨data, false⟩ }
  | ignored {data : δ} (hpending : o.pending = none) (hsender : o.state.sender = false) :
      Stepped e capacity o (.emit data) o
  | kept {p : Pending δ} (hpending : o.pending = some p) (hroom : o.queue.length < capacity) :
      Stepped e capacity o .finish
        { o with
          queue := o.queue ++ [e.event o.state.sequence (.other p.data)]
          pending := none
          fates := o.fates ++ [.kept p.data] }
  | lost {p : Pending δ} (hpending : o.pending = some p) (hfull : capacity ≤ o.queue.length) :
      Stepped e capacity o .finish
        { o with
          state := ⟨o.state.sequence, o.state.lost + 1, o.state.sender⟩
          pending := none
          fates := o.fates ++ [.lost] }
  | received {event : Event δ} {queue : List (Event δ)} (hqueue : o.queue = event :: queue) :
      Stepped e capacity o .receive { o with queue, received := o.received ++ [event] }
  | closed (hpending : o.pending = none) : Stepped e capacity o .close
      { o with state := ⟨o.state.sequence, o.state.lost, false⟩ }

theorem step_stepped (h : step e capacity o a = some o') : Stepped e capacity o a o' := by
  cases a with
  | emit data =>
    simp only [step] at h
    by_cases hpending : o.pending.isSome = true
    · rw [if_pos hpending] at h
      cases h
    · have hnone : o.pending = none := by simpa using hpending
      rw [if_neg hpending] at h
      by_cases hsender : o.state.sender = true
      · rw [if_pos hsender] at h
        unfold Emitter.sendGap trySend at h
        by_cases hlost : 0 < o.state.lost
        · by_cases hroom : o.queue.length < capacity
          · simp only [hlost, hroom, if_true] at h
            cases h
            exact .marked hnone hlost hroom
          · simp only [hlost, hroom, if_true, if_false] at h
            cases h
            exact .unmarked hnone fun _ => Nat.le_of_not_lt hroom
        · simp only [hlost, if_false] at h
          cases h
          exact .unmarked hnone fun hpos => absurd hpos hlost
      · rw [if_neg hsender] at h
        cases h
        exact .ignored hnone (by simpa using hsender)
  | finish =>
    obtain ⟨p, hp, h⟩ := Option.bind_eq_some_iff.mp h
    unfold Emitter.sendEvent trySend at h
    by_cases hroom : o.queue.length < capacity
    · simp only [hroom, if_true] at h
      cases h
      exact .kept hp hroom
    · simp only [hroom, if_false] at h
      cases h
      exact .lost hp (Nat.le_of_not_lt hroom)
  | receive =>
    simp only [step] at h
    cases hqueue : o.queue with
    | nil =>
      simp only [hqueue] at h
      cases h
    | cons event queue =>
      simp only [hqueue] at h
      cases h
      exact .received hqueue
  | close =>
    simp only [step] at h
    by_cases hpending : o.pending.isSome = true
    · rw [if_pos hpending] at h
      cases h
    · rw [if_neg hpending] at h
      cases h
      exact .closed (by simpa using hpending)

private theorem run_append_singleton (h : run e capacity (actions ++ [a]) = some o') :
    ∃ o, run e capacity actions = some o ∧ Stepped e capacity o a o' := by
  unfold run at h
  rw [List.foldlM_append] at h
  obtain ⟨o, ho, h⟩ := Option.bind_eq_some_iff.mp h
  rw [List.foldlM_cons] at h
  obtain ⟨o'', hstep, h⟩ := Option.bind_eq_some_iff.mp h
  cases h
  exact ⟨o, ho, step_stepped hstep⟩

private theorem run_induction {I : List (Action δ) → Observer δ → Prop} (hnew : I [] .new)
    (hstep : ∀ {before a o o'}, I before o → run e capacity before = some o →
      Stepped e capacity o a o' → I (before ++ [a]) o')
    (h : run e capacity actions = some o) : I actions o := by
  induction actions using List.reverseRecOn generalizing o with
  | nil =>
    cases h
    exact hnew
  | append_singleton before a ih =>
    obtain ⟨o₁, hbefore, hstepped⟩ := run_append_singleton h
    exact hstep (ih hbefore) hbefore hstepped

/-- Every second send of the run meets the observer in a state that `P` holds of. -/
def Finishes (e : Emitter) (capacity : Nat) (actions : List (Action δ))
    (P : Observer δ → Prop) : Prop :=
  ∀ before after o, actions = before ++ .finish :: after → run e capacity before = some o → P o

private theorem finishes_nil (P : Observer δ → Prop) : Finishes e capacity [] P := by
  intro before after o h
  exact absurd h.symm (List.append_ne_nil_of_right_ne_nil _ (List.cons_ne_nil _ _))

private theorem finishes_append_singleton {P : Observer δ → Prop}
    (ho : run e capacity actions = some o) :
    Finishes e capacity (actions ++ [a]) P ↔
      Finishes e capacity actions P ∧ (a = .finish → P o) := by
  constructor
  · intro h
    refine ⟨fun before after o' heq => h before (after ++ [a]) o' ?_, fun ha => ?_⟩
    · rw [heq, List.append_assoc, List.cons_append]
    · exact h actions [] o (by rw [ha]) ho
  · rintro ⟨hbefore, hlast⟩ before after o' heq hrun
    rcases List.eq_nil_or_concat after with rfl | ⟨after, b, rfl⟩
    · obtain ⟨rfl, hb⟩ := List.append_inj' heq rfl
      cases ho.symm.trans hrun
      exact hlast (List.head_eq_of_cons_eq hb)
    · have hsplit : actions ++ [a] = (before ++ .finish :: after) ++ [b] := by
        rw [heq, List.concat_eq_append, List.append_assoc, List.cons_append]
      obtain ⟨hinit, -⟩ := List.append_inj' hsplit rfl
      exact hbefore before after o' hinit hrun

def Observer.bound (o : Observer δ) : Nat :=
  if o.pending.isSome then o.state.sequence else o.state.sequence + 1

structure Sequenced (o : Observer δ) : Prop where
  increasing : (o.stream.map Event.sequence).Pairwise (· < ·)
  bounded : ∀ event ∈ o.stream, event.sequence < o.bound

private theorem pairwise_append_event {events : List (Event δ)} {event : Event δ}
    (h : (events.map Event.sequence).Pairwise (· < ·))
    (hlast : ∀ before ∈ events, before.sequence < event.sequence) :
    ((events ++ [event]).map Event.sequence).Pairwise (· < ·) := by
  rw [List.map_append]
  refine List.pairwise_append.mpr ⟨h, List.pairwise_singleton _ _, ?_⟩
  intro n hn m hm
  obtain ⟨before, hbefore, rfl⟩ := List.mem_map.mp hn
  have heq : m = event.sequence := by simpa using hm
  rw [heq]
  exact hlast before hbefore

theorem Sequenced.step (h : Sequenced o) (hstep : Stepped e capacity o a o') : Sequenced o' := by
  obtain ⟨hincreasing, hbounded⟩ := h
  cases hstep with
  | @marked data hpending hlost hroom =>
    have hold : ∀ event ∈ o.stream, event.sequence < o.state.sequence + 1 := by
      intro event hevent
      have hlt := hbounded event hevent
      unfold Observer.bound at hlt
      simpa [hpending] using hlt
    have hstream : (o.received ++ (o.queue ++ [e.event (o.state.sequence + 1)
        (.observationGap o.state.lost)]) : List (Event δ)) = o.stream ++
          [e.event (o.state.sequence + 1) (.observationGap o.state.lost)] :=
      (List.append_assoc _ _ _).symm
    constructor
    · change ((o.received ++ (o.queue ++ _)).map Event.sequence).Pairwise _
      rw [hstream]
      exact pairwise_append_event hincreasing hold
    · intro event hevent
      change event ∈ o.received ++ (o.queue ++ _) at hevent
      change event.sequence < o.state.sequence + 2
      rw [hstream] at hevent
      rcases List.mem_append.mp hevent with hevent | hevent
      · have := hold event hevent
        omega
      · rw [List.mem_singleton.mp hevent]
        change o.state.sequence + 1 < o.state.sequence + 2
        omega
  | @unmarked data hpending hlost =>
    refine ⟨hincreasing, fun event hevent => ?_⟩
    have hlt := hbounded event hevent
    unfold Observer.bound at hlt
    simpa [Observer.bound, hpending] using hlt
  | ignored => exact ⟨hincreasing, hbounded⟩
  | @kept p hpending hroom =>
    have hold : ∀ event ∈ o.stream, event.sequence < o.state.sequence := by
      intro event hevent
      have hlt := hbounded event hevent
      unfold Observer.bound at hlt
      simpa [hpending] using hlt
    have hstream : (o.received ++ (o.queue ++ [e.event o.state.sequence (.other p.data)]) :
        List (Event δ)) = o.stream ++ [e.event o.state.sequence (.other p.data)] :=
      (List.append_assoc _ _ _).symm
    constructor
    · change ((o.received ++ (o.queue ++ _)).map Event.sequence).Pairwise _
      rw [hstream]
      exact pairwise_append_event hincreasing hold
    · intro event hevent
      change event ∈ o.received ++ (o.queue ++ _) at hevent
      change event.sequence < o.state.sequence + 1
      rw [hstream] at hevent
      rcases List.mem_append.mp hevent with hevent | hevent
      · have := hold event hevent
        omega
      · rw [List.mem_singleton.mp hevent]
        exact Nat.lt_succ_self _
  | @lost p hpending hfull =>
    refine ⟨hincreasing, fun event hevent => ?_⟩
    have hlt := hbounded event hevent
    unfold Observer.bound at hlt
    rw [hpending] at hlt
    change event.sequence < o.state.sequence + 1
    change event.sequence < o.state.sequence at hlt
    omega
  | @received event queue hqueue =>
    have hstream : ({ o with queue, received := o.received ++ [event] } : Observer δ).stream =
        o.stream := by
      unfold Observer.stream
      rw [hqueue, List.append_assoc]
      rfl
    refine ⟨?_, ?_⟩
    · rw [hstream]
      exact hincreasing
    · rw [hstream]
      exact hbounded
  | closed => exact ⟨hincreasing, hbounded⟩

private theorem weights_append (events : List (Event δ)) (event : Event δ) :
    weights (events ++ [event]) = weights events + event.data.weight := by
  unfold weights
  rw [List.map_append, List.sum_append]
  simp

private theorem markers_append_gap (events : List (Event δ)) (n count : Nat) :
    markers (events ++ [e.event n (.observationGap count)]) =
      { markers events with marks := (markers events).marks ++ [count] } := by
  unfold markers
  rw [List.map_append]
  exact Segments.of_append_mark _ count

private theorem markers_append_other (events : List (Event δ)) (n : Nat) (data : δ) :
    markers (events ++ [e.event n (.other data)]) =
      ⟨(markers events).ended ++ [((markers events).marks, data)], []⟩ := by
  unfold markers
  rw [List.map_append]
  exact Segments.of_append_end _ data

private theorem losses_append_lost (fates : List (Fate δ)) : losses (fates ++ [.lost]) =
    { losses fates with marks := (losses fates).marks ++ [()] } := by
  unfold losses
  rw [List.map_append]
  exact Segments.of_append_mark _ ()

private theorem losses_append_kept (fates : List (Fate δ)) (data : δ) : losses
    (fates ++ [.kept data]) =
    ⟨(losses fates).ended ++ [((losses fates).marks, data)], []⟩ := by
  unfold losses
  rw [List.map_append]
  exact Segments.of_append_end _ data

private theorem stream_sent (event : Event δ) (state : EventState) (pending : Option (Pending δ))
    (fates : List (Fate δ)) :
    (⟨state, o.queue ++ [event], pending, o.received, fates⟩ : Observer δ).stream =
      o.stream ++ [event] := (List.append_assoc _ _ _).symm

private theorem stream_received {event : Event δ} {queue : List (Event δ)}
    (hqueue : o.queue = event :: queue) :
    ({ o with queue, received := o.received ++ [event] } : Observer δ).stream = o.stream := by
  unfold Observer.stream
  rw [hqueue, List.append_assoc]
  rfl

/-- Every event that was emitted is in the stream, is counted there, or has yet to be. -/
def Accounted (o : Observer δ) : Prop := o.fates.length = weights o.stream + o.state.lost

theorem Accounted.step (h : Accounted o) (hstep : Stepped e capacity o a o') : Accounted o' := by
  unfold Accounted at *
  cases hstep with
  | marked =>
    rw [stream_sent, weights_append]
    change o.fates.length = weights o.stream + o.state.lost + 0
    omega
  | unmarked => exact h
  | ignored => exact h
  | kept =>
    rw [stream_sent, weights_append, List.length_append]
    change o.fates.length + 1 = weights o.stream + 1 + o.state.lost
    omega
  | lost =>
    rw [List.length_append]
    change o.fates.length + 1 = weights o.stream + (o.state.lost + 1)
    omega
  | received hqueue =>
    rw [stream_received hqueue]
    exact h
  | closed => exact h

/-- The second send of an `emit` finds no room that its first send did not find. -/
def InStep (capacity : Nat) (o : Observer δ) : Prop := 0 < o.state.lost → capacity ≤ o.queue.length

/-- Both sends of an `emit` find room, or neither does. -/
def Together (capacity : Nat) (o : Observer δ) : Prop :=
  InStep capacity o ∧ ∀ p, o.pending = some p → p.marked = true → o.queue.length < capacity

/-- The losses since the last event that was not lost are counted by markers, or not yet. -/
def Current (o : Observer δ) : Prop :=
  (markers o.stream).marks.sum + o.state.lost = (losses o.fates).marks.length

theorem Current.step (h : Current o) (hstep : Stepped e capacity o a o')
    (hin : a = .finish → InStep capacity o) : Current o' := by
  unfold Current at *
  cases hstep with
  | marked =>
    rw [stream_sent, markers_append_gap]
    change ((markers o.stream).marks ++ [o.state.lost]).sum + 0 = _
    rw [List.sum_append, List.sum_cons, List.sum_nil]
    omega
  | unmarked => exact h
  | ignored => exact h
  | @kept p hpending hroom =>
    have hlost : o.state.lost = 0 := by
      by_contra hne
      have := hin rfl (Nat.pos_of_ne_zero hne)
      omega
    rw [stream_sent, markers_append_other, losses_append_kept]
    change 0 + o.state.lost = 0
    omega
  | lost =>
    rw [losses_append_lost]
    change (markers o.stream).marks.sum + (o.state.lost + 1) =
      ((losses o.fates).marks ++ [()]).length
    rw [List.length_append]
    change _ = (losses o.fates).marks.length + 1
    omega
  | received hqueue =>
    rw [stream_received hqueue]
    exact h
  | closed => exact h

/-- The sums of the markers tell the losses before every event. -/
def Told (o : Observer δ) : Prop := counted (markers o.stream) = missed (losses o.fates)

private theorem counted_append (s : Segments Nat δ) (marks : List Nat) (data : δ) :
    counted ⟨s.ended ++ [(s.marks, data)], marks⟩ = counted s ++ [(s.marks.sum, data)] :=
  List.map_append

private theorem missed_append (s : Segments Unit δ) (marks : List Unit) (data : δ) :
    missed ⟨s.ended ++ [(s.marks, data)], marks⟩ = missed s ++ [(s.marks.length, data)] :=
  List.map_append

private theorem told_of_step (h : Told o') (hstep : Stepped e capacity o a o') : Told o := by
  unfold Told at *
  cases hstep with
  | marked =>
    rw [stream_sent, markers_append_gap] at h
    exact h
  | unmarked => exact h
  | ignored => exact h
  | kept =>
    rw [stream_sent, markers_append_other, losses_append_kept, counted_append,
      missed_append] at h
    exact (List.append_inj' h rfl).1
  | lost =>
    rw [losses_append_lost] at h
    exact h
  | received hqueue =>
    rw [stream_received hqueue] at h
    exact h
  | closed => exact h

private theorem Current.told_step_iff (h : Current o) (hstep : Stepped e capacity o a o') :
    Told o' ↔ Told o ∧ (a = .finish → InStep capacity o) := by
  unfold Told
  cases hstep with
  | marked =>
    rw [stream_sent, markers_append_gap]
    exact (and_iff_left fun ha => by cases ha).symm
  | unmarked => exact (and_iff_left fun ha => by cases ha).symm
  | ignored => exact (and_iff_left fun ha => by cases ha).symm
  | @kept p hpending hroom =>
    unfold Current at h
    rw [stream_sent, markers_append_other, losses_append_kept, counted_append, missed_append]
    constructor
    · intro heq
      obtain ⟨hbefore, hlast⟩ := List.append_inj' heq rfl
      have hsum : (markers o.stream).marks.sum = (losses o.fates).marks.length :=
        congrArg Prod.fst (List.head_eq_of_cons_eq hlast)
      refine ⟨hbefore, fun _ hpos => ?_⟩
      omega
    · rintro ⟨hbefore, hin⟩
      have hlost : o.state.lost = 0 := by
        by_contra hne
        have := hin rfl (Nat.pos_of_ne_zero hne)
        omega
      have hsum : (markers o.stream).marks.sum = (losses o.fates).marks.length := by omega
      rw [hbefore, hsum]
  | lost hpending hfull =>
    rw [losses_append_lost]
    exact (and_iff_left fun _ _ => hfull).symm
  | received hqueue =>
    rw [stream_received hqueue]
    exact (and_iff_left fun ha => by cases ha).symm
  | closed => exact (and_iff_left fun ha => by cases ha).symm

/-- Each loss is told by one marker with its exact number. -/
structure Exact (o : Observer δ) : Prop where
  ended : (markers o.stream).ended = (missed (losses o.fates)).map exactly
  marks : ((markers o.stream).marks = [] ∧ o.state.lost = (losses o.fates).marks.length ∧
      ∀ p, o.pending = some p → p.marked = false) ∨
    ∃ p, o.pending = some p ∧ 0 < (losses o.fates).marks.length ∧
      (markers o.stream).marks = [(losses o.fates).marks.length] ∧ o.state.lost = 0 ∧
      p.marked = true

theorem Exact.step (h : Exact o) (hstep : Stepped e capacity o a o')
    (htogether : a = .finish → Together capacity o) : Exact o' := by
  obtain ⟨hended, hmarks⟩ := h
  cases hstep with
  | @marked data hpending hlost hroom =>
    rcases hmarks with ⟨hnil, heq, -⟩ | ⟨p, hp, -⟩
    · refine ⟨?_, .inr ⟨⟨data, true⟩, rfl, ?_, ?_, rfl, rfl⟩⟩
      · rw [stream_sent, markers_append_gap]
        exact hended
      · change 0 < (losses o.fates).marks.length
        omega
      · rw [stream_sent, markers_append_gap]
        change (markers o.stream).marks ++ [o.state.lost] = [(losses o.fates).marks.length]
        rw [hnil, heq]
        rfl
    · cases hpending.symm.trans hp
  | @unmarked data hpending hlost =>
    rcases hmarks with ⟨hnil, heq, -⟩ | ⟨p, hp, -⟩
    · refine ⟨hended, .inl ⟨hnil, heq, fun p hp => ?_⟩⟩
      cases hp
      rfl
    · cases hpending.symm.trans hp
  | ignored => exact ⟨hended, hmarks⟩
  | @kept p hpending hroom =>
    rcases hmarks with ⟨hnil, heq, -⟩ | ⟨q, hq, hpos, hsingle, hzero, -⟩
    · have hlost : o.state.lost = 0 := by
        by_contra hne
        have := (htogether rfl).1 (Nat.pos_of_ne_zero hne)
        omega
      refine ⟨?_, .inl ⟨?_, ?_, fun q hq => by cases hq⟩⟩
      · rw [stream_sent, markers_append_other, losses_append_kept, missed_append, List.map_append,
          hnil, ← hended, ← heq, hlost]
        rfl
      · rw [stream_sent, markers_append_other]
      · rw [losses_append_kept]
        exact hlost
    · refine ⟨?_, .inl ⟨?_, ?_, fun q hq => by cases hq⟩⟩
      · have hexactly : exactly ((losses o.fates).marks.length, p.data) =
            ([(losses o.fates).marks.length], p.data) := by
          unfold exactly
          rw [if_neg (Nat.ne_of_gt hpos)]
        rw [stream_sent, markers_append_other, losses_append_kept, missed_append, List.map_append,
          hsingle, ← hended, List.map_singleton, hexactly]
      · rw [stream_sent, markers_append_other]
      · rw [losses_append_kept]
        exact hzero
  | @lost p hpending hfull =>
    rcases hmarks with ⟨hnil, heq, -⟩ | ⟨q, hq, -, -, -, hmarked⟩
    · refine ⟨?_, .inl ⟨hnil, ?_, fun q hq => by cases hq⟩⟩
      · rw [losses_append_lost]
        exact hended
      · rw [losses_append_lost, List.length_append, ← heq]
        rfl
    · have := (htogether rfl).2 q hq hmarked
      omega
  | received hqueue =>
    refine ⟨?_, ?_⟩
    · rw [stream_received hqueue]
      exact hended
    · rw [stream_received hqueue]
      exact hmarks
  | closed hpending =>
    rcases hmarks with ⟨hnil, heq, hnone⟩ | ⟨p, hp, -⟩
    · exact ⟨hended, .inl ⟨hnil, heq, hnone⟩⟩
    · cases hpending.symm.trans hp

private theorem run_sequenced (h : run e capacity actions = some o) : Sequenced o := by
  refine run_induction (I := fun _ o => Sequenced o) ⟨List.Pairwise.nil, ?_⟩ ?_ h
  · intro event hevent
    cases hevent
  · exact fun hbefore _ hstep => hbefore.step hstep

private theorem run_accounted (h : run e capacity actions = some o) : Accounted o :=
  run_induction (I := fun _ o => Accounted o) rfl (fun hbefore _ hstep => hbefore.step hstep) h

private theorem run_told_iff (h : run e capacity actions = some o) :
    Told o ↔ Finishes e capacity actions (InStep capacity) := by
  have hall : (Finishes e capacity actions (InStep capacity) → Current o) ∧
      (Told o ↔ Finishes e capacity actions (InStep capacity)) := by
    refine run_induction (I := fun actions o =>
      (Finishes e capacity actions (InStep capacity) → Current o) ∧
        (Told o ↔ Finishes e capacity actions (InStep capacity))) ?_ ?_ h
    · exact ⟨fun _ => rfl, iff_of_true rfl (finishes_nil _)⟩
    · rintro before a o o' ⟨hcurrent, htold⟩ hrun hstep
      rw [finishes_append_singleton hrun]
      refine ⟨fun hfinishes => (hcurrent hfinishes.1).step hstep hfinishes.2, ?_⟩
      constructor
      · intro htold'
        have hfinishes := htold.mp (told_of_step htold' hstep)
        exact ⟨hfinishes, (((hcurrent hfinishes).told_step_iff hstep).mp htold').2⟩
      · rintro ⟨hbefore, hlast⟩
        exact ((hcurrent hbefore).told_step_iff hstep).mpr ⟨htold.mpr hbefore, hlast⟩
  exact hall.2

private theorem run_exact (h : run e capacity actions = some o)
    (htogether : Finishes e capacity actions (Together capacity)) : Exact o := by
  refine run_induction
    (I := fun actions o => Finishes e capacity actions (Together capacity) → Exact o) ?_ ?_ h
    htogether
  · intro _
    refine ⟨rfl, .inl ⟨rfl, rfl, fun p hp => ?_⟩⟩
    cases hp
  · intro before a o o' hbefore hrun hstep hfinishes
    rw [finishes_append_singleton hrun] at hfinishes
    exact (hbefore hfinishes.1).step hstep hfinishes.2

/-- Sequence numbers increase, and every event is accounted for. The markers before every
ordinary event add up to the events lost before it exactly where no second send of an `emit`
overtakes its first, and there is one marker for them where its two sends only fail together. -/
theorem observed_accounting (h : run e capacity actions = some o) :
    (o.stream.map Event.sequence).Pairwise (· < ·) ∧
    o.fates.length = weights o.stream + o.state.lost ∧
    (counted (markers o.stream) = missed (losses o.fates) ↔
      Finishes e capacity actions (InStep capacity)) ∧
    (Finishes e capacity actions (Together capacity) →
      (markers o.received).ended <+: (missed (losses o.fates)).map exactly) := by
  refine ⟨(run_sequenced h).increasing, run_accounted h, run_told_iff h, fun htogether => ?_⟩
  rw [← (run_exact h htogether).ended]
  unfold markers Observer.stream
  rw [List.map_append]
  exact Segments.ended_prefix _ _

end

def sampleEmitter : Emitter := ⟨"run", "invocation"⟩

/-- The second event is lost, and the third is sent once the first was received. -/
def overtaking : List (Action String) :=
  [.emit "a", .finish, .emit "b", .finish, .emit "c", .receive, .finish, .receive]

/-- The channel is drained before the third event, whose marker is received before it is sent. -/
def draining : List (Action String) :=
  [.emit "a", .finish, .emit "b", .finish, .receive, .emit "c", .receive, .finish, .receive]

def drained : Observer String where
  state := ⟨4, 0, true⟩
  queue := []
  pending := none
  received := [sampleEmitter.event 1 (.other "a"), sampleEmitter.event 3 (.observationGap 1),
    sampleEmitter.event 4 (.other "c")]
  fates := [.kept "a", .lost, .kept "c"]

theorem drained_accounting :
    (drained.stream.map Event.sequence).Pairwise (· < ·) ∧
    drained.fates.length = weights drained.stream + drained.state.lost ∧
    (counted (markers drained.stream) = missed (losses drained.fates) ↔
      Finishes sampleEmitter 1 draining (InStep 1)) ∧
    (Finishes sampleEmitter 1 draining (Together 1) →
      (markers drained.received).ended <+: (missed (losses drained.fates)).map exactly) :=
  observed_accounting (by decide +kernel)

def overtaken : Observer String where
  state := ⟨3, 1, true⟩
  queue := []
  pending := none
  received := [sampleEmitter.event 1 (.other "a"), sampleEmitter.event 3 (.other "c")]
  fates := [.kept "a", .lost, .kept "c"]

/-- An event is received after a loss without any marker between. -/
theorem loss_overtaken : run sampleEmitter 1 overtaking = some overtaken ∧
    missed (losses overtaken.fates) = [(0, "a"), (1, "c")] ∧
    (markers overtaken.received).ended = [([], "a"), ([], "c")] ∧
    counted (markers overtaken.stream) ≠ missed (losses overtaken.fates) ∧
    ¬ (markers overtaken.received).ended <+: (missed (losses overtaken.fates)).map exactly := by
  refine ⟨?_, ?_, ?_, ?_, ?_⟩
  · decide +kernel
  · decide +kernel
  · decide +kernel
  · decide +kernel
  · decide +kernel

end Zhir.Kernel.Observation
