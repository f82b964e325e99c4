import Mathlib.Logic.Function.Basic

/-!
One flag for many parties: it is up exactly while one of them holds it, and no two ever do.
-/

set_option autoImplicit false
set_option relaxedAutoImplicit false

namespace Zhir.Library

variable {κ : Type}

structure Exclusive (flag : Bool) (holds : κ → Prop) : Prop where
  single : ∀ i j, holds i → holds j → i = j
  held : flag = true ↔ ∃ i, holds i

namespace Exclusive

variable {flag : Bool} {holds holds' : κ → Prop}

private theorem none_holds (h : Exclusive false holds) (i : κ) : ¬ holds i := fun hi =>
  Bool.false_ne_true (h.held.2 ⟨i, hi⟩)

theorem of_none (h : ∀ i, ¬ holds i) : Exclusive false holds :=
  ⟨fun i _ hi => absurd hi (h i), ⟨fun h => absurd h Bool.false_ne_true,
    fun ⟨i, hi⟩ => absurd hi (h i)⟩⟩

theorem congr (h : Exclusive flag holds) (hsame : ∀ i, holds' i ↔ holds i) :
    Exclusive flag holds' := by
  constructor
  · intro i j hi hj
    exact h.single i j ((hsame i).1 hi) ((hsame j).1 hj)
  · rw [h.held]
    exact exists_congr fun i => (hsame i).symm

theorem acquire (h : Exclusive false holds) {k : κ} (hk : holds' k)
    (hothers : ∀ i, i ≠ k → (holds' i ↔ holds i)) : Exclusive true holds' := by
  have honly : ∀ i, holds' i → i = k := by
    intro i hi
    by_contra hne
    exact h.none_holds i ((hothers i hne).1 hi)
  constructor
  · intro i j hi hj
    rw [honly i hi, honly j hj]
  · exact ⟨fun _ => ⟨k, hk⟩, fun _ => rfl⟩

theorem release (h : Exclusive flag holds) {k : κ} (hheld : holds k) (hk : ¬ holds' k)
    (hothers : ∀ i, i ≠ k → (holds' i ↔ holds i)) : Exclusive false holds' := by
  apply of_none
  intro i hi
  by_cases heq : i = k
  · exact hk (heq ▸ hi)
  · exact heq (h.single i k ((hothers i heq).1 hi) hheld)

theorem other (h : Exclusive flag holds) {k : κ} (hbefore : ¬ holds k) (hafter : ¬ holds' k)
    (hothers : ∀ i, i ≠ k → (holds' i ↔ holds i)) : Exclusive flag holds' := by
  apply h.congr
  intro i
  by_cases heq : i = k
  · rw [heq]
    exact iff_of_false hafter hbefore
  · exact hothers i heq

end Exclusive

end Zhir.Library
