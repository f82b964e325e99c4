import Zhir.Library.Folds

/-!
States that are made of cells, with steps that each touch one of them: a run over interleaved
inputs is, in every cell, the run over the inputs of that cell.
-/

set_option autoImplicit false
set_option relaxedAutoImplicit false

namespace Zhir.Library

variable {σ ι ε κ : Type} {γ : κ → Type} {step : σ → ι → Except ε σ} {key : ι → κ}
  {cell : σ → (k : κ) → γ k} {cellStep : (k : κ) → γ k → ι → Except ε (γ k)}

/-- A step is a step of the cell its input belongs to. -/
structure Keyed (step : σ → ι → Except ε σ) (key : ι → κ) (cell : σ → (k : κ) → γ k)
    (cellStep : (k : κ) → γ k → ι → Except ε (γ k)) : Prop where
  error : ∀ s x e, step s x = .error e → cellStep (key x) (cell s (key x)) x = .error e
  ok : ∀ s x s', step s x = .ok s' → cellStep (key x) (cell s (key x)) x = .ok (cell s' (key x))
  other : ∀ s x s', step s x = .ok s' → ∀ k, k ≠ key x → cell s' k = cell s k

namespace Keyed

variable [DecidableEq κ] {s s' : σ} {xs : List ι}

def inputs (key : ι → κ) (k : κ) (xs : List ι) : List ι := xs.filter fun x => key x = k

private theorem inputs_append_self (x : ι) :
    inputs key (key x) (xs ++ [x]) = inputs key (key x) xs ++ [x] := by
  simp [inputs]

private theorem inputs_append_of_ne {k : κ} {x : ι} (h : k ≠ key x) :
    inputs key k (xs ++ [x]) = inputs key k xs := by
  simp [inputs, Ne.symm h]

theorem foldlM_append_singleton {τ : Type} (f : τ → ι → Except ε τ) (t : τ) (x : ι) :
    (xs ++ [x]).foldlM f t = xs.foldlM f t >>= fun t => f t x := by
  rw [List.foldlM_append]
  cases xs.foldlM f t with
  | error e => rfl
  | ok t =>
    change [x].foldlM f t = f t x
    rw [List.foldlM_cons]
    cases f t x <;> rfl

theorem run_cell (h : Keyed step key cell cellStep) (hrun : xs.foldlM step s = .ok s') (k : κ) :
    (inputs key k xs).foldlM (cellStep k) (cell s k) = .ok (cell s' k) := by
  induction xs using List.reverseRecOn generalizing s' with
  | nil =>
    cases hrun
    rfl
  | append_singleton before x ih =>
    rw [foldlM_append_singleton] at hrun
    cases hbefore : before.foldlM step s with
    | error e =>
      rw [hbefore] at hrun
      cases hrun
    | ok t =>
      rw [hbefore] at hrun
      have hcell := ih hbefore
      by_cases hk : k = key x
      · subst hk
        rw [inputs_append_self, foldlM_append_singleton, hcell]
        exact h.ok t x s' hrun
      · rw [inputs_append_of_ne hk, h.other t x s' hrun k hk]
        exact hcell

theorem exists_run (h : Keyed step key cell cellStep)
    (hcells : ∀ k, ∃ g, (inputs key k xs).foldlM (cellStep k) (cell s k) = .ok g) :
    ∃ s', xs.foldlM step s = .ok s' := by
  induction xs using List.reverseRecOn with
  | nil => exact ⟨s, rfl⟩
  | append_singleton before x ih =>
    have hbefore : ∀ k, ∃ g, (inputs key k before).foldlM (cellStep k) (cell s k) = .ok g := by
      intro k
      obtain ⟨g, hg⟩ := hcells k
      by_cases hk : k = key x
      · subst hk
        rw [inputs_append_self, foldlM_append_singleton] at hg
        cases hcell : (inputs key (key x) before).foldlM (cellStep (key x))
            (cell s (key x)) with
        | error e =>
          rw [hcell] at hg
          cases hg
        | ok g' => exact ⟨g', rfl⟩
      · rw [inputs_append_of_ne hk] at hg
        exact ⟨g, hg⟩
    obtain ⟨t, ht⟩ := ih hbefore
    rw [foldlM_append_singleton, ht]
    cases hstep : step t x with
    | ok s' => exact ⟨s', hstep⟩
    | error e =>
      obtain ⟨g, hg⟩ := hcells (key x)
      rw [inputs_append_self, foldlM_append_singleton, h.run_cell ht] at hg
      cases (h.error t x e hstep).symm.trans hg

end Keyed

end Zhir.Library
