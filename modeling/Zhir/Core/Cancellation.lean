import Mathlib.Logic.Function.Basic
import Zhir.Library.Entries
import Zhir.Library.Holder
import Zhir.Library.Trace

/-!
Cooperative cancellation. Threads that cancel and futures that wait share a flag and, behind a
lock, the wakers to call; between any two of their steps any others may come.
-/

set_option autoImplicit false
set_option relaxedAutoImplicit false

namespace Zhir.Core

open Zhir.Library (Trace Exclusive insertKey)

inductive WaiterPhase
  | idle
  /-- In `poll`, before the flag is looked at. -/
  | polled (waker : Nat)
  /-- About to take the lock. -/
  | missed (waker : Nat)
  | holding (waker : Nat)
  /-- The flag is down, as seen under the lock. -/
  | unheard (waker : Nat)
  | pending (waker : Nat)
  | ready
  /-- In `drop`, about to take the lock. -/
  | dropping
  | removing
  | dropped
  deriving DecidableEq, Repr

/-- `Cancelled`. -/
structure Waiter where
  key : Option Nat := none
  phase : WaiterPhase := .idle
  deriving DecidableEq, Repr

/-- Where a call of `cancel` is. -/
inductive CancelPhase
  | called
  /-- It raised the flag. -/
  | won
  | holding
  | waking (wakers : List Nat)
  | returned
  deriving DecidableEq, Repr

/-- `CancellationState`, the futures that wait for it and the calls that cancel. -/
structure Cancellation where
  cancelled : Bool := false
  locked : Bool := false
  next : Nat := 0
  wakers : List (Nat × Nat) := []
  waiters : Nat → Waiter := fun _ => {}
  cancels : Nat → CancelPhase := fun _ => .called

inductive CancelAction
  | poll (i waker : Nat)
  | look (i : Nat)
  | lock (i : Nat)
  | recheck (i : Nat)
  | register (i : Nat)
  | drop (i : Nat)
  | remove (i : Nat)
  | swap (j : Nat)
  | lockCancel (j : Nat)
  | take (j : Nat)
  | wake (j waker : Nat)
  deriving DecidableEq, Repr

namespace Cancellation

def setWaiter (s : Cancellation) (i : Nat) (waiter : Waiter) : Cancellation :=
  { s with waiters := Function.update s.waiters i waiter }

def setPhase (s : Cancellation) (i : Nat) (phase : WaiterPhase) : Cancellation :=
  s.setWaiter i { s.waiters i with phase }

def setCancel (s : Cancellation) (j : Nat) (phase : CancelPhase) : Cancellation :=
  { s with cancels := Function.update s.cancels j phase }

/-- `get_or_insert_with` and the insertion, under the lock, which is then released. -/
def register (s : Cancellation) (i waker : Nat) : Cancellation :=
  match (s.waiters i).key with
  | some key =>
    { s.setWaiter i ⟨some key, .pending waker⟩ with
      wakers := insertKey s.wakers key waker
      locked := false }
  | none =>
    { s.setWaiter i ⟨some (s.next + 1), .pending waker⟩ with
      next := s.next + 1
      wakers := insertKey s.wakers (s.next + 1) waker
      locked := false }

def step (s : Cancellation) : CancelAction → Option Cancellation
  | .poll i waker =>
    match (s.waiters i).phase with
    | .idle | .pending _ => some (s.setPhase i (.polled waker))
    | _ => none
  | .look i =>
    match (s.waiters i).phase with
    | .polled waker => some (s.setPhase i (if s.cancelled = true then .ready else .missed waker))
    | _ => none
  | .lock i =>
    if s.locked = true then none
    else match (s.waiters i).phase with
      | .missed waker => some { s.setPhase i (.holding waker) with locked := true }
      | .dropping => some { s.setPhase i .removing with locked := true }
      | _ => none
  | .recheck i =>
    match (s.waiters i).phase with
    | .holding waker =>
      if s.cancelled = true then some { s.setPhase i .ready with locked := false }
      else some (s.setPhase i (.unheard waker))
    | _ => none
  | .register i =>
    match (s.waiters i).phase with
    | .unheard waker => some (s.register i waker)
    | _ => none
  | .drop i =>
    match (s.waiters i).phase with
    | .idle | .pending _ | .ready =>
      some (s.setPhase i (if (s.waiters i).key.isSome = true then .dropping else .dropped))
    | _ => none
  | .remove i =>
    match (s.waiters i).phase with
    | .removing =>
      some { s.setPhase i .dropped with
        wakers := s.wakers.filter fun e => decide (some e.1 ≠ (s.waiters i).key)
        locked := false }
    | _ => none
  | .swap j =>
    match s.cancels j with
    | .called => some { s.setCancel j (if s.cancelled = true then .returned else .won) with
        cancelled := true }
    | _ => none
  | .lockCancel j =>
    if s.locked = true then none
    else match s.cancels j with
      | .won => some { s.setCancel j .holding with locked := true }
      | _ => none
  | .take j =>
    match s.cancels j with
    | .holding =>
      some { s.setCancel j (.waking (s.wakers.map Prod.snd)) with
        wakers := []
        locked := false }
    | _ => none
  | .wake j waker =>
    match s.cancels j with
    | .waking (first :: rest) =>
      if first = waker then some (s.setCancel j (.waking rest)) else none
    | _ => none

def Moves (s : Cancellation) (action : CancelAction) (s' : Cancellation) : Prop :=
  s.step action = some s'

inductive Stepped (s : Cancellation) : CancelAction → Cancellation → Prop
  | poll {i waker : Nat} (h : (s.waiters i).phase = .idle ∨ ∃ w, (s.waiters i).phase = .pending w) :
      Stepped s (.poll i waker) (s.setPhase i (.polled waker))
  | look {i waker : Nat} {phase : WaiterPhase} (h : (s.waiters i).phase = .polled waker)
      (hphase : phase = .ready ∧ s.cancelled = true ∨ phase = .missed waker) :
      Stepped s (.look i) (s.setPhase i phase)
  | lock {i : Nat} {phase : WaiterPhase} (hfree : s.locked = false)
      (h : (∃ waker, (s.waiters i).phase = .missed waker ∧ phase = .holding waker) ∨
        (s.waiters i).phase = .dropping ∧ phase = .removing) :
      Stepped s (.lock i) { s.setPhase i phase with locked := true }
  | heard {i waker : Nat} (h : (s.waiters i).phase = .holding waker)
      (hcancelled : s.cancelled = true) :
      Stepped s (.recheck i) { s.setPhase i .ready with locked := false }
  | unheard {i waker : Nat} (h : (s.waiters i).phase = .holding waker)
      (hcancelled : s.cancelled = false) : Stepped s (.recheck i) (s.setPhase i (.unheard waker))
  | register {i waker : Nat} (h : (s.waiters i).phase = .unheard waker) :
      Stepped s (.register i) (s.register i waker)
  | drop {i : Nat} {phase : WaiterPhase}
      (h : (s.waiters i).phase = .idle ∨ (∃ w, (s.waiters i).phase = .pending w) ∨
        (s.waiters i).phase = .ready)
      (hphase : phase = .dropping ∨ phase = .dropped ∧ (s.waiters i).key = none) :
      Stepped s (.drop i) (s.setPhase i phase)
  | remove {i : Nat} (h : (s.waiters i).phase = .removing) :
      Stepped s (.remove i) { s.setPhase i .dropped with
        wakers := s.wakers.filter fun e => decide (some e.1 ≠ (s.waiters i).key)
        locked := false }
  | swap {j : Nat} {phase : CancelPhase} (h : s.cancels j = .called)
      (hphase : phase = .returned ∧ s.cancelled = true ∨ phase = .won ∧ s.cancelled = false) :
      Stepped s (.swap j) { s.setCancel j phase with cancelled := true }
  | lockCancel {j : Nat} (hfree : s.locked = false) (h : s.cancels j = .won) :
      Stepped s (.lockCancel j) { s.setCancel j .holding with locked := true }
  | take {j : Nat} (h : s.cancels j = .holding) :
      Stepped s (.take j) { s.setCancel j (.waking (s.wakers.map Prod.snd)) with
        wakers := []
        locked := false }
  | wake {j waker : Nat} {rest : List Nat} (h : s.cancels j = .waking (waker :: rest)) :
      Stepped s (.wake j waker) (s.setCancel j (.waking rest))

theorem Moves.stepped {s s' : Cancellation} {action : CancelAction} (h : Moves s action s') :
    Stepped s action s' := by
  unfold Moves step at h
  split at h
  · split at h
    · next hphase =>
      cases h
      exact .poll (.inl hphase)
    · next w hphase =>
      cases h
      exact .poll (.inr ⟨w, hphase⟩)
    · cases h
  · split at h
    · next hphase =>
      cases h
      refine .look hphase ?_
      split
      · next hcancelled => exact .inl ⟨rfl, hcancelled⟩
      · exact .inr rfl
    · cases h
  · split at h
    · cases h
    · next hlocked =>
      have hfree := Bool.eq_false_iff.mpr hlocked
      split at h
      · next waker hphase =>
        cases h
        exact .lock hfree (.inl ⟨waker, hphase, rfl⟩)
      · next hphase =>
        cases h
        exact .lock hfree (.inr ⟨hphase, rfl⟩)
      · cases h
  · split at h
    · next hphase =>
      split at h
      · next hcancelled =>
        cases h
        exact .heard hphase hcancelled
      · next hcancelled =>
        cases h
        exact .unheard hphase (Bool.eq_false_iff.mpr hcancelled)
    · cases h
  · split at h
    · next hphase =>
      cases h
      exact .register hphase
    · cases h
  · have hdropped : ∀ i, (if (s.waiters i).key.isSome = true then WaiterPhase.dropping
        else .dropped) = .dropping ∨ (if (s.waiters i).key.isSome = true then
          WaiterPhase.dropping else .dropped) = .dropped ∧ (s.waiters i).key = none := by
      intro i
      split
      · exact .inl rfl
      · next hkey => exact .inr ⟨rfl, by simpa using hkey⟩
    split at h
    · next hphase =>
      cases h
      exact .drop (.inl hphase) (hdropped _)
    · next w hphase =>
      cases h
      exact .drop (.inr (.inl ⟨w, hphase⟩)) (hdropped _)
    · next hphase =>
      cases h
      exact .drop (.inr (.inr hphase)) (hdropped _)
    · cases h
  · split at h
    · next hphase =>
      cases h
      exact .remove hphase
    · cases h
  · split at h
    · next hphase =>
      cases h
      refine .swap hphase ?_
      split
      · next hcancelled => exact .inl ⟨rfl, hcancelled⟩
      · next hcancelled => exact .inr ⟨rfl, Bool.eq_false_iff.mpr hcancelled⟩
    · cases h
  · split at h
    · cases h
    · next hlocked =>
      split at h
      · next hphase =>
        cases h
        exact .lockCancel (Bool.eq_false_iff.mpr hlocked) hphase
      · cases h
  · split at h
    · next hphase =>
      cases h
      exact .take hphase
    · cases h
  · split at h
    · next hphase =>
      split at h
      · next hfirst =>
        subst hfirst
        cases h
        exact .wake hphase
      · cases h
    · cases h

inductive Party
  | waiter (i : Nat)
  | cancel (j : Nat)
  deriving DecidableEq

def WaiterPhase.holds : WaiterPhase → Bool
  | .holding _ | .unheard _ | .removing => true
  | _ => false

def Holds (s : Cancellation) : Party → Prop
  | .waiter i => WaiterPhase.holds (s.waiters i).phase = true
  | .cancel j => s.cancels j = .holding

section

variable {s s' : Cancellation} {action : CancelAction} {i i' j j' : Nat}

@[simp]
theorem setPhase_self (phase : WaiterPhase) :
    (s.setPhase i phase).waiters i = { s.waiters i with phase } := Function.update_self ..

private theorem setWaiter_ne {waiter : Waiter} (h : i' ≠ i) :
    (s.setWaiter i waiter).waiters i' = s.waiters i' := Function.update_of_ne h ..

private theorem setPhase_ne {phase : WaiterPhase} (h : i' ≠ i) :
    (s.setPhase i phase).waiters i' = s.waiters i' := setWaiter_ne h

@[simp]
theorem setCancel_self (phase : CancelPhase) : (s.setCancel j phase).cancels j = phase :=
  Function.update_self ..

private theorem setCancel_ne {phase : CancelPhase} (h : j' ≠ j) :
    (s.setCancel j phase).cancels j' = s.cancels j' := Function.update_of_ne h ..

private theorem register_cases (s : Cancellation) (i waker : Nat) :
    ∃ key next, ((s.waiters i).key = some key ∧ next = s.next ∨
        (s.waiters i).key = none ∧ key = s.next + 1 ∧ next = s.next + 1) ∧
      s.register i waker = { s.setWaiter i ⟨some key, .pending waker⟩ with
        next
        wakers := insertKey s.wakers key waker
        locked := false } := by
  unfold register
  cases hkey : (s.waiters i).key with
  | some key => exact ⟨key, s.next, .inl ⟨rfl, rfl⟩, rfl⟩
  | none => exact ⟨s.next + 1, s.next + 1, .inr ⟨rfl, rfl, rfl⟩, rfl⟩

private theorem holds_waiter (hothers : ∀ i', i' ≠ i → s'.waiters i' = s.waiters i')
    (hcancels : s'.cancels = s.cancels) (a : Party) (ha : a ≠ .waiter i) :
    Holds s' a ↔ Holds s a := by
  cases a with
  | waiter i' =>
    have hne : i' ≠ i := fun h => ha (by rw [h])
    rw [Holds, Holds, hothers i' hne]
  | cancel j => rw [Holds, Holds, hcancels]

private theorem holds_cancel (hothers : ∀ j', j' ≠ j → s'.cancels j' = s.cancels j')
    (hwaiters : s'.waiters = s.waiters) (a : Party) (ha : a ≠ .cancel j) :
    Holds s' a ↔ Holds s a := by
  cases a with
  | waiter i => rw [Holds, Holds, hwaiters]
  | cancel j' =>
    have hne : j' ≠ j := fun h => ha (by rw [h])
    rw [Holds, Holds, hothers j' hne]

private theorem Stepped.exclusive (h : Stepped s action s') (hs : Exclusive s.locked (Holds s)) :
    Exclusive s'.locked (Holds s') := by
  cases h with
  | @poll i _ h =>
    have hbefore : ¬ Holds s (.waiter i) := by
      rcases h with h | ⟨w, h⟩ <;> simp [Holds, h, WaiterPhase.holds]
    refine Exclusive.other hs hbefore ?_ (holds_waiter (fun _ => setPhase_ne) rfl)
    simp [Holds, WaiterPhase.holds]
  | @look i waker phase h hphase =>
    have hbefore : ¬ Holds s (.waiter i) := by simp [Holds, h, WaiterPhase.holds]
    refine Exclusive.other hs hbefore ?_ (holds_waiter (fun _ => setPhase_ne) rfl)
    rcases hphase with ⟨rfl, -⟩ | rfl <;> simp [Holds, WaiterPhase.holds]
  | @lock i phase hfree h =>
    rw [hfree] at hs
    refine Exclusive.acquire hs (k := .waiter i) ?_ (holds_waiter (fun _ => setPhase_ne) rfl)
    rcases h with ⟨waker, -, rfl⟩ | ⟨-, rfl⟩ <;> simp [Holds, WaiterPhase.holds]
  | @heard i waker h hcancelled =>
    have hheld : Holds s (.waiter i) := by simp [Holds, h, WaiterPhase.holds]
    refine Exclusive.release hs hheld ?_ (holds_waiter (fun _ => setPhase_ne) rfl)
    simp [Holds, WaiterPhase.holds]
  | @unheard i waker h hcancelled =>
    refine Exclusive.congr hs fun a => ?_
    by_cases ha : a = .waiter i
    · subst ha
      simp [Holds, h, WaiterPhase.holds]
    · exact holds_waiter (fun _ => setPhase_ne) rfl a ha
  | @register i waker h =>
    obtain ⟨key, next, -, hregister⟩ := register_cases s i waker
    have hheld : Holds s (.waiter i) := by simp [Holds, h, WaiterPhase.holds]
    rw [hregister]
    refine Exclusive.release hs hheld ?_ (holds_waiter (fun _ => setWaiter_ne) rfl)
    simp [Holds, setWaiter, WaiterPhase.holds]
  | @drop i phase h hphase =>
    have hbefore : ¬ Holds s (.waiter i) := by
      rcases h with h | ⟨w, h⟩ | h <;> simp [Holds, h, WaiterPhase.holds]
    refine Exclusive.other hs hbefore ?_ (holds_waiter (fun _ => setPhase_ne) rfl)
    rcases hphase with rfl | ⟨rfl, -⟩ <;> simp [Holds, WaiterPhase.holds]
  | @remove i h =>
    have hheld : Holds s (.waiter i) := by simp [Holds, h, WaiterPhase.holds]
    refine Exclusive.release hs hheld ?_ (holds_waiter (fun _ => setPhase_ne) rfl)
    simp [Holds, WaiterPhase.holds]
  | @swap j phase h hphase =>
    have hbefore : ¬ Holds s (.cancel j) := by simp [Holds, h]
    refine Exclusive.other hs hbefore ?_ (holds_cancel (fun _ => setCancel_ne) rfl)
    rcases hphase with ⟨rfl, -⟩ | ⟨rfl, -⟩ <;> simp [Holds]
  | @lockCancel j hfree h =>
    rw [hfree] at hs
    refine Exclusive.acquire hs (k := .cancel j) ?_ (holds_cancel (fun _ => setCancel_ne) rfl)
    simp [Holds]
  | @take j h =>
    have hheld : Holds s (.cancel j) := h
    refine Exclusive.release hs hheld ?_ (holds_cancel (fun _ => setCancel_ne) rfl)
    simp [Holds]
  | @wake j waker rest h =>
    have hbefore : ¬ Holds s (.cancel j) := by simp [Holds, h]
    refine Exclusive.other hs hbefore ?_ (holds_cancel (fun _ => setCancel_ne) rfl)
    simp [Holds]

structure Registered (s : Cancellation) : Prop where
  bounded : ∀ i key, (s.waiters i).key = some key → key ≤ s.next
  distinct : ∀ i j key, (s.waiters i).key = some key → (s.waiters j).key = some key → i = j
  owned : ∀ key waker, s.wakers.lookup key = some waker →
    ∃ i, (s.waiters i).key = some key ∧ (s.waiters i).phase ≠ .dropped

theorem Registered.quiet (hs : Registered s) (hnext : s'.next = s.next)
    (hkeys : ∀ i, (s'.waiters i).key = (s.waiters i).key)
    (hwakers : ∀ key waker, s'.wakers.lookup key = some waker → s.wakers.lookup key = some waker)
    (hdropped : ∀ i key, (s.waiters i).key = some key → (s'.waiters i).phase = .dropped →
      (s.waiters i).phase = .dropped ∨ s'.wakers.lookup key = none) : Registered s' := by
  refine ⟨fun i key h => ?_, fun i j key hi hj => ?_, fun key waker h => ?_⟩
  · rw [hkeys] at h
    rw [hnext]
    exact hs.bounded i key h
  · rw [hkeys] at hi hj
    exact hs.distinct i j key hi hj
  · obtain ⟨i, hkey, hphase⟩ := hs.owned key waker (hwakers key waker h)
    refine ⟨i, (hkeys i).trans hkey, fun hdrop => ?_⟩
    rcases hdropped i key hkey hdrop with hdrop | hnone
    · exact hphase hdrop
    · rw [hnone] at h
      cases h

private theorem key_setPhase (phase : WaiterPhase) (i' : Nat) :
    ((s.setPhase i phase).waiters i').key = (s.waiters i').key := by
  by_cases h : i' = i
  · subst h
    rw [setPhase_self]
  · rw [setPhase_ne h]

private theorem phase_setPhase {phase : WaiterPhase}
    (h : ((s.setPhase i phase).waiters i').phase ≠ phase) :
    (s.setPhase i phase).waiters i' = s.waiters i' := by
  by_cases heq : i' = i
  · subst heq
    rw [setPhase_self] at h
    exact absurd rfl h
  · exact setPhase_ne heq

private theorem dropped_setPhase (i : Nat) {phase : WaiterPhase} (hphase : phase ≠ .dropped)
    (h : ((s.setPhase i phase).waiters i').phase = .dropped) :
    (s.waiters i').phase = .dropped := by
  have hsame : (s.setPhase i phase).waiters i' = s.waiters i' :=
    phase_setPhase (by rw [h]; exact hphase.symm)
  rw [← hsame]
  exact h

private theorem lookup_removed {key : Option Nat} {entries : List (Nat × Nat)} {k : Nat} :
    (entries.filter fun e => decide (some e.1 ≠ key)).lookup k =
      if some k = key then none else entries.lookup k := by
  induction entries with
  | nil => simp
  | cons e rest ih =>
    by_cases he : some e.1 = key
    · rw [List.filter_cons_of_neg (by simp [he]), ih]
      by_cases hk : some k = key
      · rw [if_pos hk, if_pos hk]
      · have hne : (k == e.1) = false := by
          rw [beq_eq_false_iff_ne]
          rintro rfl
          exact hk he
        rw [if_neg hk, if_neg hk, List.lookup_cons, hne]
    · rw [List.filter_cons_of_pos (by simp [he]), List.lookup_cons, List.lookup_cons, ih]
      by_cases hk : k = e.1
      · subst hk
        simp [he]
      · have hne : (k == e.1) = false := beq_eq_false_iff_ne.mpr hk
        rw [hne]

theorem Stepped.registered (h : Stepped s action s') (hs : Registered s) : Registered s' := by
  cases h with
  | @poll i waker h =>
    have hphase : WaiterPhase.polled waker ≠ .dropped := fun h => nomatch h
    exact hs.quiet rfl (key_setPhase _) (fun _ _ h => h) fun i' key _ h =>
      .inl (dropped_setPhase i hphase h)
  | @look i waker phase h hphase =>
    have hphase : phase ≠ .dropped := by
      rcases hphase with ⟨rfl, -⟩ | rfl <;> exact fun h => nomatch h
    exact hs.quiet rfl (key_setPhase _) (fun _ _ h => h) fun i' key _ h =>
      .inl (dropped_setPhase i hphase h)
  | @lock i phase hfree h =>
    have hphase : phase ≠ .dropped := by
      rcases h with ⟨waker, -, rfl⟩ | ⟨-, rfl⟩ <;> exact fun h => nomatch h
    exact hs.quiet rfl (key_setPhase _) (fun _ _ h => h) fun i' key _ h =>
      .inl (dropped_setPhase i hphase h)
  | @heard i waker h hcancelled =>
    have hphase : WaiterPhase.ready ≠ .dropped := fun h => nomatch h
    exact hs.quiet rfl (key_setPhase _) (fun _ _ h => h) fun i' key _ h =>
      .inl (dropped_setPhase i hphase h)
  | @unheard i waker h hcancelled =>
    have hphase : WaiterPhase.unheard waker ≠ .dropped := fun h => nomatch h
    exact hs.quiet rfl (key_setPhase _) (fun _ _ h => h) fun i' key _ h =>
      .inl (dropped_setPhase i hphase h)
  | @register i waker h =>
    obtain ⟨key, next, hkey, hregister⟩ := register_cases s i waker
    rw [hregister]
    have hself : ∀ {waiter : Waiter}, (s.setWaiter i waiter).waiters i = waiter :=
      Function.update_self ..
    have hnext : s.next ≤ next ∧ key ≤ next := by
      rcases hkey with ⟨hkey, rfl⟩ | ⟨-, rfl, rfl⟩
      · exact ⟨Nat.le_refl _, hs.bounded i key hkey⟩
      · exact ⟨Nat.le_succ _, Nat.le_refl _⟩
    have hfresh : ∀ j, j ≠ i → (s.waiters j).key ≠ some key := by
      rintro j hj hkeyj
      rcases hkey with ⟨hkey, -⟩ | ⟨-, rfl, -⟩
      · exact hj (hs.distinct j i key hkeyj hkey)
      · exact absurd (hs.bounded j _ hkeyj) (by omega)
    refine ⟨fun j k hk => ?_, fun j j' k hj hj' => ?_, fun k w hw => ?_⟩
    · by_cases hne : j = i
      · subst hne
        rw [hself] at hk
        cases hk
        exact hnext.2
      · rw [setWaiter_ne hne] at hk
        exact Nat.le_trans (hs.bounded j k hk) hnext.1
    · by_cases hne : j = i
      · subst hne
        rw [hself] at hj
        cases hj
        by_contra hne'
        rw [setWaiter_ne (Ne.symm hne')] at hj'
        exact hfresh j' (Ne.symm hne') hj'
      · rw [setWaiter_ne hne] at hj
        by_cases hne' : j' = i
        · subst hne'
          rw [hself] at hj'
          cases hj'
          exact absurd hj (hfresh j hne)
        · rw [setWaiter_ne hne'] at hj'
          exact hs.distinct j j' k hj hj'
    · by_cases hk : k = key
      · subst hk
        refine ⟨i, ?_, ?_⟩
        · rw [hself]
        · rw [hself]
          exact fun h => nomatch h
      · rw [Zhir.Library.lookup_insertKey_of_ne hk] at hw
        obtain ⟨j, hkeyj, hphase⟩ := hs.owned k w hw
        have hne : j ≠ i := by
          rintro rfl
          rcases hkey with ⟨hkey, -⟩ | ⟨hkey, -⟩
          · rw [hkeyj] at hkey
            exact hk (Option.some.inj hkey)
          · rw [hkeyj] at hkey
            cases hkey
        refine ⟨j, ?_, ?_⟩ <;> rw [setWaiter_ne hne]
        · exact hkeyj
        · exact hphase
  | @drop i phase h hphase =>
    refine hs.quiet rfl (key_setPhase _) (fun _ _ h => h) fun i' key hkey h => .inl ?_
    rcases hphase with rfl | ⟨rfl, hnone⟩
    · have hphase : WaiterPhase.dropping ≠ .dropped := fun h => nomatch h
      exact dropped_setPhase i hphase h
    · by_cases hne : i' = i
      · subst hne
        rw [hnone] at hkey
        cases hkey
      · rw [setPhase_ne hne] at h
        exact h
  | @remove i h =>
    refine hs.quiet rfl (key_setPhase _) (fun k w hw => ?_) fun i' key hkey h => ?_
    · rw [lookup_removed] at hw
      split at hw
      · cases hw
      · exact hw
    · by_cases hne : i' = i
      · subst hne
        right
        rw [lookup_removed, if_pos hkey.symm]
      · left
        rw [setPhase_ne hne] at h
        exact h
  | take => exact hs.quiet rfl (fun _ => rfl) (fun _ _ h => by cases h) fun _ _ _ h => .inl h
  | swap | lockCancel | wake =>
    exact hs.quiet rfl (fun _ => rfl) (fun _ _ h => h) fun _ _ _ h => .inl h

def Collecting (s : Cancellation) : Prop := ∃ j, s.cancels j = .won ∨ s.cancels j = .holding

structure Raised (s : Cancellation) : Prop where
  early : s.cancelled = false → ∀ j, s.cancels j = .called
  ready : ∀ i, (s.waiters i).phase = .ready → s.cancelled = true
  after : s.cancelled = true →
    Collecting s ∨ s.wakers = [] ∧ ∀ i w, (s.waiters i).phase ≠ .unheard w

private theorem Raised.waiter (hs : Raised s) {phase : WaiterPhase}
    (hcancelled : s'.cancelled = s.cancelled) (hcancels : s'.cancels = s.cancels)
    (hwaiters : s'.waiters = (s.setPhase i phase).waiters)
    (hwakers : s.wakers = [] → s'.wakers = [])
    (hready : phase = .ready → s.cancelled = true)
    (hunheard : ∀ w, phase = .unheard w → s.cancelled = false) : Raised s' := by
  have hphase : ∀ i', (s'.waiters i').phase = phase ∨ s'.waiters i' = s.waiters i' := by
    intro i'
    rw [hwaiters]
    by_cases h : ((s.setPhase i phase).waiters i').phase = phase
    · exact .inl h
    · exact .inr (phase_setPhase h)
  refine ⟨fun h j => ?_, fun i' h => ?_, fun h => ?_⟩
  · rw [hcancels]
    exact hs.early (hcancelled ▸ h) j
  · rw [hcancelled]
    rcases hphase i' with hp | hp
    · exact hready (hp.symm.trans h)
    · exact hs.ready i' (by rw [← hp]; exact h)
  · rw [hcancelled] at h
    rcases hs.after h with ⟨j, hj⟩ | ⟨hnone, hall⟩
    · exact .inl ⟨j, by rw [hcancels]; exact hj⟩
    · refine .inr ⟨hwakers hnone, fun i' w hw => ?_⟩
      rcases hphase i' with hp | hp
      · rw [hunheard w (hp.symm.trans hw)] at h
        cases h
      · exact hall i' w (by rw [← hp]; exact hw)

theorem Stepped.raised (h : Stepped s action s') (hlock : Exclusive s.locked (Holds s))
    (hs : Raised s) : Raised s' := by
  cases h with
  | poll | remove =>
    exact hs.waiter rfl rfl rfl (fun h => by simp [h, setPhase, setWaiter])
      (fun h => nomatch h) fun _ h => nomatch h
  | look h hphase =>
    refine hs.waiter rfl rfl rfl (fun h => h) (fun hready => ?_) fun w hw => ?_
    · rcases hphase with ⟨-, hcancelled⟩ | rfl
      · exact hcancelled
      · cases hready
    · rcases hphase with ⟨rfl, -⟩ | rfl <;> cases hw
  | lock hfree h =>
    refine hs.waiter rfl rfl rfl (fun h => h) (fun hready => ?_) fun w hw => ?_
    · rcases h with ⟨waker, -, rfl⟩ | ⟨-, rfl⟩ <;> cases hready
    · rcases h with ⟨waker, -, rfl⟩ | ⟨-, rfl⟩ <;> cases hw
  | heard h hcancelled =>
    exact hs.waiter rfl rfl rfl (fun h => h) (fun _ => hcancelled) fun _ h => nomatch h
  | unheard h hcancelled =>
    exact hs.waiter rfl rfl rfl (fun h => h) (fun h => nomatch h) fun _ _ => hcancelled
  | drop h hphase =>
    refine hs.waiter rfl rfl rfl (fun h => h) (fun hready => ?_) fun w hw => ?_
    · rcases hphase with rfl | ⟨rfl, -⟩ <;> cases hready
    · rcases hphase with rfl | ⟨rfl, -⟩ <;> cases hw
  | @register i waker h =>
    obtain ⟨key, next, -, hregister⟩ := register_cases s i waker
    rw [hregister]
    refine ⟨hs.early, fun i' h' => ?_, fun hcancelled => ?_⟩
    · by_cases hne : i' = i
      · subst hne
        have hself : (s.setWaiter i' ⟨some key, .pending waker⟩).waiters i' =
            ⟨some key, .pending waker⟩ := Function.update_self ..
        change ((s.setWaiter i' ⟨some key, .pending waker⟩).waiters i').phase = .ready at h'
        rw [hself] at h'
        cases h'
      · exact hs.ready i' (by rw [← setWaiter_ne hne]; exact h')
    · rcases hs.after hcancelled with hcollecting | ⟨-, hall⟩
      · exact .inl hcollecting
      · exact absurd h (hall i waker)
  | @swap j phase h hphase =>
    refine ⟨fun h => (by cases h), fun _ _ => rfl, fun _ => ?_⟩
    rcases hphase with ⟨rfl, hcancelled⟩ | ⟨rfl, hcancelled⟩
    · rcases hs.after hcancelled with ⟨j', hj'⟩ | hnone
      · have hne : j' ≠ j := by
          rintro rfl
          rw [h] at hj'
          rcases hj' with hj' | hj' <;> cases hj'
        exact .inl ⟨j', by rw [← setCancel_ne hne] at hj'; exact hj'⟩
      · exact .inr hnone
    · exact .inl ⟨j, .inl (setCancel_self _)⟩
  | @lockCancel j hfree h =>
    refine ⟨fun hcancelled => ?_, hs.ready, fun _ => .inl ⟨j, .inr (setCancel_self _)⟩⟩
    have hcalled := hs.early hcancelled j
    rw [h] at hcalled
    cases hcalled
  | @take j h =>
    refine ⟨fun hcancelled => ?_, hs.ready, fun _ => .inr ⟨rfl, fun i w hw => ?_⟩⟩
    · have hcalled := hs.early hcancelled j
      rw [h] at hcalled
      cases hcalled
    · have hheld : Holds s (.waiter i) := by
        change (s.waiters i).phase = .unheard w at hw
        rw [Holds, hw]
        rfl
      cases hlock.single (.waiter i) (.cancel j) hheld h
  | @wake j waker rest h =>
    refine ⟨fun hcancelled => ?_, hs.ready, fun hcancelled => ?_⟩
    · have hcalled := hs.early hcancelled j
      rw [h] at hcalled
      cases hcalled
    · rcases hs.after hcancelled with ⟨j', hj'⟩ | hnone
      · have hne : j' ≠ j := by
          rintro rfl
          rw [h] at hj'
          rcases hj' with hj' | hj' <;> cases hj'
        exact .inl ⟨j', by rw [← setCancel_ne hne] at hj'; exact hj'⟩
      · exact .inr hnone

def Since (labels : List CancelAction) (i : Nat) (later : List CancelAction) : Prop :=
  ∃ before, labels = before ++ .register i :: later ∧ ∀ waker, .poll i waker ∉ later

def Woken (labels : List CancelAction) (i waker : Nat) : Prop :=
  ∃ later j, Since labels i later ∧ .wake j waker ∈ later

def Kept (labels : List CancelAction) (s : Cancellation) (i waker : Nat) : Prop :=
  Woken labels i waker ∨
    (∃ key, (s.waiters i).key = some key ∧ s.wakers.lookup key = some waker) ∨
    ∃ j wakers, s.cancels j = .waking wakers ∧ waker ∈ wakers

structure Waiting (labels : List CancelAction) (s : Cancellation) : Prop where
  since : ∀ i waker, (s.waiters i).phase = .pending waker → ∃ later, Since labels i later
  kept : ∀ i waker, (s.waiters i).phase = .pending waker → Kept labels s i waker

theorem Since.later {labels later : List CancelAction} (h : Since labels i later)
    (haction : ∀ waker, action ≠ .poll i waker) :
    Since (labels ++ [action]) i (later ++ [action]) := by
  obtain ⟨before, rfl, hpolls⟩ := h
  refine ⟨before, List.append_assoc .., fun waker hmem => ?_⟩
  rcases List.mem_append.mp hmem with hmem | hmem
  · exact hpolls waker hmem
  · exact haction waker (List.mem_singleton.mp hmem).symm

theorem Woken.later {labels : List CancelAction} {waker : Nat} (h : Woken labels i waker)
    (haction : ∀ waker, action ≠ .poll i waker) : Woken (labels ++ [action]) i waker := by
  obtain ⟨later, j, hsince, hmem⟩ := h
  exact ⟨_, j, hsince.later haction, List.mem_append_left _ hmem⟩

theorem Waiting.step {labels : List CancelAction} (hs : Waiting labels s)
    (hpolls : ∀ i waker, action = .poll i waker → ∀ w, (s'.waiters i).phase ≠ .pending w)
    (hpending : ∀ i w, (s'.waiters i).phase = .pending w →
      (s.waiters i).phase = .pending w ∧ (s'.waiters i).key = (s.waiters i).key)
    (hlookup : ∀ i key w, (s.waiters i).phase = .pending w → (s.waiters i).key = some key →
      s.wakers.lookup key = some w → s'.wakers.lookup key = some w ∨
        ∃ j wakers, s'.cancels j = .waking wakers ∧ w ∈ wakers)
    (hwaking : ∀ j wakers w, s.cancels j = .waking wakers → w ∈ wakers →
      (∃ wakers', s'.cancels j = .waking wakers' ∧ w ∈ wakers') ∨ action = .wake j w) :
    Waiting (labels ++ [action]) s' := by
  have hother : ∀ i w, (s'.waiters i).phase = .pending w → ∀ waker, action ≠ .poll i waker :=
    fun i w hw waker h => hpolls i waker h w hw
  refine ⟨fun i w hw => ?_, fun i w hw => ?_⟩
  · obtain ⟨later, hlater⟩ := hs.since i w (hpending i w hw).1
    exact ⟨_, hlater.later (hother i w hw)⟩
  · obtain ⟨hbefore, hkey'⟩ := hpending i w hw
    rcases hs.kept i w hbefore with hwoken | ⟨key, hkey, hfound⟩ | ⟨j, wakers, hj, hmem⟩
    · exact .inl (hwoken.later (hother i w hw))
    · rcases hlookup i key w hbefore hkey hfound with hfound' | hwaking'
      · exact .inr (.inl ⟨key, hkey'.trans hkey, hfound'⟩)
      · exact .inr (.inr hwaking')
    · rcases hwaking j wakers w hj hmem with ⟨wakers', hj', hmem'⟩ | rfl
      · exact .inr (.inr ⟨j, wakers', hj', hmem'⟩)
      · obtain ⟨later, hlater⟩ := hs.since i w hbefore
        exact .inl ⟨_, j, hlater.later (hother i w hw),
          List.mem_append_right _ (List.mem_singleton.mpr rfl)⟩

private theorem Waiting.waiter {labels : List CancelAction} (hs : Waiting labels s)
    {phase : WaiterPhase}
    (hwaiters : s'.waiters = (s.setPhase i phase).waiters) (hcancels : s'.cancels = s.cancels)
    (hphase : ∀ w, phase ≠ .pending w) (hpoll : ∀ i' waker, action = .poll i' waker → i' = i)
    (hlookup : ∀ i' key w, (s.waiters i').phase = .pending w → (s.waiters i').key = some key →
      s.wakers.lookup key = some w → s'.wakers.lookup key = some w) :
    Waiting (labels ++ [action]) s' := by
  refine hs.step (fun i' waker h w => ?_) (fun i' w hw => ?_)
    (fun i' key w hp hkey h => .inl (hlookup i' key w hp hkey h))
    fun j wakers w hj hmem => .inl ⟨wakers, by rw [hcancels]; exact hj, hmem⟩
  · rw [hpoll i' waker h, hwaiters, setPhase_self]
    exact hphase w
  · rw [hwaiters] at hw ⊢
    have hsame : (s.setPhase i phase).waiters i' = s.waiters i' :=
      phase_setPhase (by rw [hw]; exact (hphase w).symm)
    rw [hsame] at hw ⊢
    exact ⟨hw, rfl⟩

theorem Stepped.waiting {labels : List CancelAction} (h : Stepped s action s')
    (hregistered : Registered s) (hs : Waiting labels s) : Waiting (labels ++ [action]) s' := by
  cases h with
  | poll h =>
    refine hs.waiter rfl rfl (fun _ h => nomatch h) ?_ fun _ _ _ _ _ h => h
    rintro i' waker' h
    cases h
    rfl
  | look h hphase =>
    refine hs.waiter rfl rfl (fun w hw => ?_) (fun _ _ h => nomatch h) fun _ _ _ _ _ h => h
    rcases hphase with ⟨rfl, -⟩ | rfl <;> cases hw
  | lock hfree h =>
    refine hs.waiter rfl rfl (fun w hw => ?_) (fun _ _ h => nomatch h) fun _ _ _ _ _ h => h
    rcases h with ⟨waker, -, rfl⟩ | ⟨-, rfl⟩ <;> cases hw
  | heard | unheard =>
    exact hs.waiter rfl rfl (fun _ h => nomatch h) (fun _ _ h => nomatch h) fun _ _ _ _ _ h => h
  | drop h hphase =>
    refine hs.waiter rfl rfl (fun w hw => ?_) (fun _ _ h => nomatch h) fun _ _ _ _ _ h => h
    rcases hphase with rfl | ⟨rfl, -⟩ <;> cases hw
  | @remove i h =>
    refine hs.waiter rfl rfl (fun _ h => nomatch h) (fun _ _ h => nomatch h) ?_
    intro i' key w hp hkey hfound
    rw [lookup_removed]
    split
    · next hremoved =>
      have heq := hregistered.distinct i' i key hkey hremoved.symm
      rw [heq, h] at hp
      cases hp
    · exact hfound
  | @register i waker h =>
    obtain ⟨key, next, hkey, hregister⟩ := register_cases s i waker
    rw [hregister]
    have hself : (s.setWaiter i ⟨some key, .pending waker⟩).waiters i =
        ⟨some key, .pending waker⟩ := Function.update_self ..
    have hfresh : ∀ i' k, i' ≠ i → (s.waiters i').key = some k → k ≠ key := by
      rintro i' k hne hk rfl
      rcases hkey with ⟨hkey, -⟩ | ⟨-, rfl, -⟩
      · exact hne (hregistered.distinct i' i k hk hkey)
      · have hle := hregistered.bounded i' _ hk
        omega
    have hregistering : ∀ i' waker', CancelAction.register i ≠ .poll i' waker' :=
      fun _ _ h => nomatch h
    refine ⟨fun i' w hw => ?_, fun i' w hw => ?_⟩
    · by_cases hne : i' = i
      · subst hne
        exact ⟨[], labels, rfl, fun _ h => nomatch h⟩
      · change ((s.setWaiter i _).waiters i').phase = _ at hw
        rw [setWaiter_ne hne] at hw
        obtain ⟨later, hlater⟩ := hs.since i' w hw
        exact ⟨_, hlater.later (hregistering i')⟩
    · change ((s.setWaiter i ⟨some key, .pending waker⟩).waiters i').phase = _ at hw
      by_cases hne : i' = i
      · subst hne
        rw [hself] at hw
        cases hw
        refine .inr (.inl ⟨key, ?_, ?_⟩)
        · change ((s.setWaiter i' _).waiters i').key = _
          rw [hself]
        · exact Zhir.Library.lookup_insertKey_self Nat.lt_irrefl _ _ _
      · rw [setWaiter_ne hne] at hw
        rcases hs.kept i' w hw with hwoken | ⟨k, hk, hfound⟩ | hwaking
        · exact .inl (hwoken.later (hregistering i'))
        · refine .inr (.inl ⟨k, ?_, ?_⟩)
          · change ((s.setWaiter i _).waiters i').key = _
            rw [setWaiter_ne hne]
            exact hk
          · change (insertKey s.wakers key waker).lookup k = some w
            rw [Zhir.Library.lookup_insertKey_of_ne (hfresh i' k hne hk)]
            exact hfound
        · exact .inr (.inr hwaking)
  | @swap j phase h hphase =>
    refine hs.step (fun _ _ h => nomatch h) (fun _ _ h => ⟨h, rfl⟩) (fun _ _ _ _ _ h => .inl h) ?_
    intro j' wakers w hj' hmem
    have hne : j' ≠ j := by
      rintro rfl
      rw [h] at hj'
      cases hj'
    exact .inl ⟨wakers, by rw [← hj']; exact setCancel_ne hne, hmem⟩
  | @lockCancel j hfree h =>
    refine hs.step (fun _ _ h => nomatch h) (fun _ _ h => ⟨h, rfl⟩) (fun _ _ _ _ _ h => .inl h) ?_
    intro j' wakers w hj' hmem
    have hne : j' ≠ j := by
      rintro rfl
      rw [h] at hj'
      cases hj'
    exact .inl ⟨wakers, by rw [← hj']; exact setCancel_ne hne, hmem⟩
  | @take j h =>
    refine hs.step (fun _ _ h => nomatch h) (fun _ _ h => ⟨h, rfl⟩) ?_ ?_
    · intro i key w _ _ hfound
      refine .inr ⟨j, _, setCancel_self _, List.mem_map.mpr ⟨(key, w), ?_, rfl⟩⟩
      obtain ⟨before, later, hwakers, -⟩ := List.lookup_eq_some_iff.mp hfound
      rw [hwakers]
      exact List.mem_append_right _ List.mem_cons_self
    · intro j' wakers w hj' hmem
      have hne : j' ≠ j := by
        rintro rfl
        rw [h] at hj'
        cases hj'
      exact .inl ⟨wakers, by rw [← hj']; exact setCancel_ne hne, hmem⟩
  | @wake j waker rest h =>
    refine hs.step (fun _ _ h => nomatch h) (fun _ _ h => ⟨h, rfl⟩) (fun _ _ _ _ _ h => .inl h) ?_
    intro j' wakers w hj' hmem
    by_cases hne : j' = j
    · subst hne
      rw [h] at hj'
      cases hj'
      rcases List.mem_cons.mp hmem with rfl | hmem
      · exact .inr rfl
      · exact .inl ⟨rest, setCancel_self _, hmem⟩
    · exact .inl ⟨wakers, by rw [← hj']; exact setCancel_ne hne, hmem⟩

/-- The flag is up once a call raised it, and nobody is woken before. -/
structure Flagged (labels : List CancelAction) (s : Cancellation) : Prop where
  swapped : s.cancelled = true ↔ ∃ j, .swap j ∈ labels
  woken : ∀ j waker, .wake j waker ∈ labels → s.cancelled = true

theorem Stepped.cancelled (h : Stepped s action s') :
    s'.cancelled = s.cancelled ∧ (∀ j, action ≠ .swap j) ∨
      s'.cancelled = true ∧ ∃ j, action = .swap j := by
  cases h with
  | @register i waker =>
    obtain ⟨key, next, -, hregister⟩ := register_cases s i waker
    rw [hregister]
    exact .inl ⟨rfl, fun _ h => nomatch h⟩
  | swap => exact .inr ⟨rfl, _, rfl⟩
  | _ => exact .inl ⟨rfl, fun _ h => nomatch h⟩

theorem Stepped.flagged {labels : List CancelAction} (h : Stepped s action s') (hraised : Raised s)
    (hs : Flagged labels s) : Flagged (labels ++ [action]) s' := by
  have hmono : s.cancelled = true → s'.cancelled = true := by
    intro hcancelled
    rcases h.cancelled with ⟨hsame, -⟩ | ⟨hup, -⟩
    · exact hsame.trans hcancelled
    · exact hup
  refine ⟨⟨fun hup => ?_, ?_⟩, fun j waker hmem => ?_⟩
  · rcases h.cancelled with ⟨hsame, -⟩ | ⟨-, j, rfl⟩
    · obtain ⟨j, hj⟩ := hs.swapped.mp (hsame ▸ hup)
      exact ⟨j, List.mem_append_left _ hj⟩
    · exact ⟨j, List.mem_append_right _ (List.mem_singleton.mpr rfl)⟩
  · rintro ⟨j, hj⟩
    rcases List.mem_append.mp hj with hj | hj
    · exact hmono (hs.swapped.mpr ⟨j, hj⟩)
    · rcases h.cancelled with ⟨-, hnone⟩ | ⟨hup, -⟩
      · exact absurd (List.mem_singleton.mp hj).symm (hnone j)
      · exact hup
  · rcases List.mem_append.mp hmem with hmem | hmem
    · exact hmono (hs.woken j waker hmem)
    · cases List.mem_singleton.mp hmem
      cases h with
      | wake hwaking =>
        by_contra hdown
        have hcalled := hraised.early (Bool.eq_false_iff.mpr hdown) j
        rw [hwaking] at hcalled
        cases hcalled

end

def fresh : Cancellation := {}

structure Sound (labels : List CancelAction) (s : Cancellation) : Prop where
  exclusive : Exclusive s.locked (Holds s)
  registered : Registered s
  raised : Raised s
  waiting : Waiting labels s
  flagged : Flagged labels s

theorem sound {labels : List CancelAction} {s : Cancellation} (hrun : Trace Moves fresh labels s) :
    Sound labels s := by
  refine hrun.invariant ?_ ?_
  · refine ⟨Exclusive.of_none ?_, ⟨?_, ?_, ?_⟩, ⟨?_, ?_, ?_⟩, ⟨?_, ?_⟩, ⟨⟨?_, ?_⟩, ?_⟩⟩
    · intro a
      cases a <;> exact fun h => nomatch h
    · exact fun _ _ h => nomatch h
    · exact fun _ _ _ h => nomatch h
    · exact fun _ _ h => nomatch h
    · exact fun _ _ => rfl
    · exact fun _ h => nomatch h
    · exact fun h => nomatch h
    · exact fun _ _ h => nomatch h
    · exact fun _ _ h => nomatch h
    · exact fun h => nomatch h
    · exact (fun ⟨_, h⟩ => nomatch h)
    · exact fun _ _ h => nomatch h
  · intro labels s action s' hs hmove
    have hstep := hmove.stepped
    exact ⟨hstep.exclusive hs.exclusive, hstep.registered hs.registered,
      hstep.raised hs.exclusive hs.raised, hstep.waiting hs.registered hs.waiting,
      hstep.flagged hs.raised hs.flagged⟩

end Cancellation

/-- However polls, drops and cancellations interleave: the lock has one holder at most; the flag is
up exactly if `cancel` was called so far, and nobody is ready or woken before; every waker in the
map is that of a future that is not dropped; and no wakeup is lost, for once the calls of `cancel`
are done, every future that waits has been woken since it was told to. -/
theorem cancellation_wakes {labels : List CancelAction} {s : Cancellation}
    (hrun : Trace Cancellation.Moves .fresh labels s) :
    Exclusive s.locked s.Holds ∧ (s.cancelled = true ↔ ∃ j, .swap j ∈ labels) ∧
    (∀ i, (s.waiters i).phase = .ready → s.cancelled = true) ∧
    (∀ j waker, .wake j waker ∈ labels → s.cancelled = true) ∧
    (∀ key waker, s.wakers.lookup key = some waker →
      ∃ i, (s.waiters i).key = some key ∧ (s.waiters i).phase ≠ .dropped) ∧
    (s.cancelled = true →
      (∀ j, s.cancels j = .called ∨ s.cancels j = .returned ∨ s.cancels j = .waking []) →
      ∀ i waker, (s.waiters i).phase = .pending waker → Cancellation.Woken labels i waker) := by
  have hs := Cancellation.sound hrun
  refine ⟨hs.exclusive, hs.flagged.swapped, hs.raised.ready, hs.flagged.woken,
    hs.registered.owned, fun hcancelled hdone i waker hpending => ?_⟩
  rcases hs.waiting.kept i waker hpending with hwoken | ⟨key, -, hfound⟩ | ⟨j, wakers, hj, hmem⟩
  · exact hwoken
  · rcases hs.raised.after hcancelled with ⟨j, hj⟩ | ⟨hnone, -⟩
    · rcases hdone j with hd | hd | hd
      all_goals
        rw [hd] at hj
        rcases hj with hj | hj <;> cases hj
    · rw [hnone] at hfound
      cases hfound
  · rcases hdone j with hd | hd | hd
    all_goals
      rw [hd] at hj
      cases hj
    cases hmem

/-- A cancellation that finds the flag while a future is about to register. -/
def sampleCancelling : List CancelAction :=
  [.poll 0 7, .look 0, .lock 0, .recheck 0, .swap 0, .register 0, .lockCancel 0, .take 0, .wake 0 7]

def sampleCancelled : Option Cancellation := sampleCancelling.foldlM Cancellation.step .fresh

private theorem sampleCancelled_run : Trace Cancellation.Moves .fresh sampleCancelling
    (sampleCancelled.get (by decide +kernel)) :=
  .of_foldlM (fun _ _ _ h => h) (Option.some_get _).symm

private theorem sampleCancelled_done (j : Nat) :
    (sampleCancelled.get (by decide +kernel)).cancels j = .called ∨
      (sampleCancelled.get (by decide +kernel)).cancels j = .returned ∨
      (sampleCancelled.get (by decide +kernel)).cancels j = .waking [] := by
  match j with
  | 0 => exact .inr (.inr (by decide +kernel))
  | j + 1 => exact .inl rfl

theorem cancellation_wakes_sample :
    Exclusive (sampleCancelled.get (by decide +kernel)).locked
        (sampleCancelled.get (by decide +kernel)).Holds ∧
      ((sampleCancelled.get (by decide +kernel)).waiters 0).phase = .pending 7 ∧
      (∃ j, .swap j ∈ sampleCancelling) ∧ Cancellation.Woken sampleCancelling 0 7 := by
  have hcancelled : (sampleCancelled.get (by decide +kernel)).cancelled = true := by decide +kernel
  have hpending : ((sampleCancelled.get (by decide +kernel)).waiters 0).phase = .pending 7 := by
    decide +kernel
  obtain ⟨hlock, hflag, -, -, -, hwoken⟩ := cancellation_wakes sampleCancelled_run
  exact ⟨hlock, hpending, hflag.mp hcancelled,
    hwoken hcancelled sampleCancelled_done 0 7 hpending⟩

end Zhir.Core
