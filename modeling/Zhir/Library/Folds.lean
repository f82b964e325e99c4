import Mathlib.Data.List.Induction

/-!
Folds whose steps may fail.
-/

set_option autoImplicit false
set_option relaxedAutoImplicit false

namespace Zhir.Library

variable {σ ι ε : Type} {step : σ → ι → Except ε σ} {s : σ} {l : List ι} {e : ε}

theorem foldlM_error_iff : l.foldlM step s = .error e ↔
    ∃ before x after s', l = before ++ x :: after ∧ before.foldlM step s = .ok s' ∧
      step s' x = .error e := by
  induction l generalizing s with
  | nil =>
    constructor
    · intro h
      cases h
    · rintro ⟨before, x, after, s', h, -⟩
      exact absurd h.symm (List.append_ne_nil_of_right_ne_nil _ (List.cons_ne_nil _ _))
  | cons y rest ih =>
    rw [List.foldlM_cons]
    cases hstep : step s y with
    | error e' =>
      constructor
      · intro h
        cases h
        exact ⟨[], y, rest, s, rfl, rfl, hstep⟩
      · rintro ⟨before, x, after, s', h, hbefore, hx⟩
        cases before with
        | nil =>
          cases h
          cases hbefore
          exact hstep.symm.trans hx
        | cons z before =>
          cases h
          rw [List.foldlM_cons, hstep] at hbefore
          cases hbefore
    | ok t =>
      change rest.foldlM step t = .error e ↔ _
      rw [ih]
      constructor
      · rintro ⟨before, x, after, s', rfl, hbefore, hx⟩
        refine ⟨y :: before, x, after, s', rfl, ?_, hx⟩
        rw [List.foldlM_cons, hstep]
        exact hbefore
      · rintro ⟨before, x, after, s', h, hbefore, hx⟩
        cases before with
        | nil =>
          cases h
          cases hbefore
          cases hstep.symm.trans hx
        | cons z before =>
          cases h
          rw [List.foldlM_cons, hstep] at hbefore
          exact ⟨before, x, after, s', rfl, hbefore, hx⟩

/-- What holds at first and survives every step, of the inputs taken and the state together,
holds after every prefix that a fold takes. -/
theorem foldlM_invariant {I : List ι → σ → Prop} (hinit : I [] s)
    (hstep : ∀ {taken s x s'}, I taken s → step s x = .ok s' → I (taken ++ [x]) s') {s' : σ}
    (h : l.foldlM step s = .ok s') : I l s' := by
  induction l using List.reverseRecOn generalizing s' with
  | nil =>
    cases h
    exact hinit
  | append_singleton before x ih =>
    rw [List.foldlM_append] at h
    cases hbefore : before.foldlM step s with
    | error e =>
      rw [hbefore] at h
      cases h
    | ok t =>
      rw [hbefore] at h
      change ([x].foldlM step t) = .ok s' at h
      rw [List.foldlM_cons] at h
      cases hx : step t x with
      | error e =>
        rw [hx] at h
        cases h
      | ok u =>
        rw [hx] at h
        cases h
        exact hstep (ih hbefore) hx

end Zhir.Library
