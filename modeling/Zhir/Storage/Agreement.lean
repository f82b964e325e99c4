import Zhir.Storage.Log

/-!
When a store agrees with the reference, operation by operation.
-/

set_option autoImplicit false
set_option relaxedAutoImplicit false

namespace Zhir.Storage

open Zhir.Core

variable {δ κ σ : Type} [DecidableEq κ]

/-- A store state stands for the accepted commits: of the requests it can tell apart, it accepts
what the reference accepts (of the commits it can write in time), rejects what the reference
rejects, and loads its heads. -/
structure Agrees (store : RunStore σ) (d : Digests δ κ) (named : Request → Prop)
    (fits : Timing → Commit → Prop) (R : σ → Accepted → Prop) : Prop where
  accepted : ∀ {s : σ} {acc acc' : Accepted} {t : Timing} {c : Commit}, R s acc →
    named (.commit t c) → (reference d).commit t c acc = .ok acc' → fits t c →
      ∃ s', store.commit t c s = .ok s' ∧ R s' acc'
  rejected : ∀ {s : σ} {acc : Accepted} {t : Timing} {c : Commit} {e : Error}, R s acc →
    named (.commit t c) → (reference d).commit t c acc = .error e →
      ∃ e', store.commit t c s = .error e'
  loadHead : ∀ {s : σ} {acc : Accepted} (runId : String), R s acc → named (.loadHead runId) →
    store.loadHead runId s = .ok (headOf (acc runId))
  delete : ∀ {s : σ} {acc : Accepted} (runId : String), R s acc → named (.delete runId) →
    R (store.delete runId s) (Function.update acc runId [])

/-- The request does not make the reference accept a commit that does not fit. -/
def Writable (d : Digests δ κ) (fits : Timing → Commit → Prop) (acc : Accepted)
    (request : Request) : Prop :=
  ∀ t c acc', request = .commit t c → (reference d).commit t c acc = .ok acc' → fits t c

theorem Agrees.refines {store : RunStore σ} {d : Digests δ κ} {named : Request → Prop}
    {fits : Timing → Commit → Prop} {R : σ → Accepted → Prop} (h : Agrees store d named fits R) :
    store.machine.Refines (reference d).machine
      (fun acc request => named request ∧ Writable d fits acc request) R := by
  rintro s acc request hrelated ⟨hnamed, hwritable⟩
  cases request with
  | commit t c =>
    simp only [RunStore.machine]
    cases hreference : (reference d).commit t c acc with
    | ok acc' =>
      obtain ⟨s', hcommit, hnext⟩ :=
        h.accepted hrelated hnamed hreference (hwritable t c acc' rfl hreference)
      rw [hcommit]
      exact ⟨rfl, hnext⟩
    | error e =>
      obtain ⟨e', hcommit⟩ := h.rejected hrelated hnamed hreference
      rw [hcommit]
      exact ⟨rfl, hrelated⟩
  | loadHead runId =>
    refine ⟨?_, hrelated⟩
    exact congrArg Answer.head (h.loadHead runId hrelated hnamed)
  | delete runId => exact ⟨rfl, h.delete runId hrelated hnamed⟩

def Logs (acc : Accepted) : Prop := ∀ runId, Log runId (acc runId)

theorem Logs.empty : Logs fun _ => [] := fun _ => .nil

theorem Logs.delete {acc : Accepted} (h : Logs acc) (runId : String) :
    Logs (Function.update acc runId []) := by
  intro run
  by_cases hrun : run = runId
  · subst hrun
    rw [Function.update_self]
    exact .nil
  · rw [Function.update_of_ne hrun]
    exact h run

variable {d : Digests δ κ} {t : Timing} {c : Commit} {acc acc' : Accepted}

/-- An accepted commit repeats one of the log or extends it. -/
inductive Extends (d : Digests δ κ) (t : Timing) (c : Commit) (acc : Accepted) : Accepted → Prop
  | repeated (old : Commit) :
      withId c.checkpoint.id (acc c.checkpoint.context.runId) = some old →
      d.digest old = d.digest c → Extends d t c acc acc
  | appended : withId c.checkpoint.id (acc c.checkpoint.context.runId) = none →
      t.past t.checked = false →
      c.validateAgainst (headOf (acc c.checkpoint.context.runId)) = .ok () →
      Extends d t c acc (Function.update acc c.checkpoint.context.runId
        (c :: acc c.checkpoint.context.runId))

inductive Rejects (d : Digests δ κ) (t : Timing) (c : Commit) (acc : Accepted) : Prop
  | reused (old : Commit) :
      withId c.checkpoint.id (acc c.checkpoint.context.runId) = some old →
      d.digest old ≠ d.digest c → Rejects d t c acc
  | late : withId c.checkpoint.id (acc c.checkpoint.context.runId) = none →
      t.past t.checked = true → Rejects d t c acc
  | invalid (e : Error) :
      withId c.checkpoint.id (acc c.checkpoint.context.runId) = none →
      t.past t.checked = false →
      c.validateAgainst (headOf (acc c.checkpoint.context.runId)) = .error e → Rejects d t c acc

theorem checkDeadline_ok {now : Nat} (h : t.past now = false) : t.checkDeadline now = .ok () :=
  if_pos h

theorem checkDeadline_late {now : Nat} (h : t.past now = true) :
    t.checkDeadline now = .error .deadline := if_neg (by simp [h])

omit [DecidableEq κ] in
theorem Timing.Steady.early (hsteady : t.Steady) (h : t.past t.checked = false) :
    t.past t.written = false := by
  rw [← Bool.not_eq_true]
  intro hpast
  simp [hsteady hpast] at h

theorem extends_of_ok (h : (reference d).commit t c acc = .ok acc') : Extends d t c acc acc' := by
  simp only [reference] at h
  rcases hold : withId c.checkpoint.id (acc c.checkpoint.context.runId) with _ | old
  · rw [hold] at h
    obtain ⟨_, hearly, h⟩ := Result.bind_ok h
    obtain ⟨_, hvalid, h⟩ := Result.bind_ok h
    cases h
    exact .appended hold (require_ok hearly) hvalid
  · rw [hold] at h
    by_cases hsame : d.digest old = d.digest c
    · simp only [hsame, if_true, Except.ok.injEq] at h
      subst h
      exact .repeated old hold hsame
    · simp only [hsame, if_false] at h
      cases h

theorem ok_of_extends (h : Extends d t c acc acc') : (reference d).commit t c acc = .ok acc' := by
  cases h with
  | repeated old hold hsame => simp only [reference, hold, hsame, if_true]
  | appended hid hearly hvalid =>
    simp only [reference, hid, checkDeadline_ok hearly, hvalid]
    rfl

theorem rejects_of_error {e : Error} (h : (reference d).commit t c acc = .error e) :
    Rejects d t c acc := by
  simp only [reference] at h
  rcases hold : withId c.checkpoint.id (acc c.checkpoint.context.runId) with _ | old
  · cases hpast : t.past t.checked with
    | true => exact .late hold hpast
    | false =>
      rcases hvalid : c.validateAgainst (headOf (acc c.checkpoint.context.runId)) with e' | u
      · exact .invalid e' hold hpast hvalid
      · simp only [hold, checkDeadline_ok hpast, hvalid] at h
        cases h
  · rw [hold] at h
    by_cases hsame : d.digest old = d.digest c
    · simp only [hsame, if_true] at h
      cases h
    · exact .reused old hold hsame

omit [DecidableEq κ] in
theorem Logs.extends (h : Logs acc) (hextends : Extends d t c acc acc') : Logs acc' := by
  cases hextends with
  | repeated => exact h
  | appended hid _ hvalid =>
    intro run
    by_cases hrun : run = c.checkpoint.context.runId
    · subst hrun
      rw [Function.update_self]
      exact .cons c _ (h _) rfl hid hvalid
    · rw [Function.update_of_ne hrun]
      exact h run

theorem withId_cons (id : String) (c : Commit) (log : List Commit) :
    withId id (c :: log) = if c.checkpoint.id = id then some c else withId id log := by
  simp only [withId, List.find?_cons]
  by_cases hid : c.checkpoint.id = id <;> simp [hid]

end Zhir.Storage
