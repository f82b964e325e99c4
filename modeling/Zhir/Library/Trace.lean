import Mathlib.Data.List.Basic

/-!
Runs of a labelled step relation, and what holds along them.
-/

set_option autoImplicit false
set_option relaxedAutoImplicit false

namespace Zhir.Library

variable {σ ι : Type}

/-- The states a system gets to from `init`, with the labels of the steps on the way. -/
inductive Trace (step : σ → ι → σ → Prop) (init : σ) : List ι → σ → Prop
  | start : Trace step init [] init
  | next {labels : List ι} {s s' : σ} {label : ι} (hrun : Trace step init labels s)
      (hstep : step s label s') : Trace step init (labels ++ [label]) s'

namespace Trace

variable {step : σ → ι → σ → Prop} {init : σ}

/-- What holds at first and survives every step, of labels and state together, holds after
every run. -/
theorem invariant {I : List ι → σ → Prop} (hinit : I [] init)
    (hstep : ∀ {labels s label s'}, I labels s → step s label s' → I (labels ++ [label]) s')
    {labels : List ι} {s : σ} (hrun : Trace step init labels s) : I labels s := by
  induction hrun with
  | start => exact hinit
  | next _ h ih => exact hstep ih h

theorem state_invariant {I : σ → Prop} (hinit : I init)
    (hstep : ∀ {s label s'}, I s → step s label s' → I s')
    {labels : List ι} {s : σ} (hrun : Trace step init labels s) : I s :=
  hrun.invariant (I := fun _ => I) hinit hstep

theorem single {s s' : σ} {label : ι} (hstep : step s label s') : Trace step s [label] s' :=
  .next .start hstep

theorem append {labels labels' : List ι} {s s' : σ} (hrun : Trace step init labels s)
    (hrest : Trace step s labels' s') : Trace step init (labels ++ labels') s' := by
  induction hrest with
  | start =>
    rw [List.append_nil]
    exact hrun
  | next _ h ih =>
    rw [← List.append_assoc]
    exact .next ih h

theorem of_foldl {f : σ → ι → σ} (hf : ∀ s label, step s label (f s label)) (labels : List ι) :
    Trace step init labels (labels.foldl f init) := by
  induction labels generalizing init with
  | nil => exact .start
  | cons label rest ih => exact (single (hf init label)).append ih

theorem of_foldlM {f : σ → ι → Option σ} (hf : ∀ s label s', f s label = some s' → step s label s')
    {labels : List ι} {s : σ} (h : labels.foldlM f init = some s) : Trace step init labels s := by
  induction labels generalizing init with
  | nil =>
    cases h
    exact .start
  | cons label rest ih =>
    rw [List.foldlM_cons] at h
    obtain ⟨s', hs', hrest⟩ := Option.bind_eq_some_iff.mp h
    exact (single (hf init label s' hs')).append (ih hrest)

end Trace

theorem snoc_eq_append_cons {ι : Type} {labels before later : List ι} {x y : ι}
    (h : labels ++ [x] = before ++ y :: later) :
    later = [] ∧ y = x ∧ before = labels ∨
      ∃ init, later = init ++ [x] ∧ labels = before ++ y :: init := by
  rcases List.eq_nil_or_concat later with rfl | ⟨init, last, rfl⟩
  · obtain ⟨hbefore, hlast⟩ := List.append_inj' h rfl
    cases hlast
    exact .inl ⟨rfl, rfl, hbefore.symm⟩
  · rw [List.concat_eq_append, ← List.cons_append, ← List.append_assoc] at h
    obtain ⟨hinit, hlast⟩ := List.append_inj' h rfl
    cases hlast
    exact .inr ⟨init, List.concat_eq_append, hinit⟩

end Zhir.Library
