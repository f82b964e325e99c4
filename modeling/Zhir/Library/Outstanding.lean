import Mathlib.Data.List.Basic

/-!
Requests that are raised and settled: which of them are outstanding.
-/

set_option autoImplicit false
set_option relaxedAutoImplicit false

namespace Zhir.Library

variable {κ : Type}

/-- The pending ones are those that were raised and have not been settled. -/
def Outstanding (pending raised settled : List κ) : Prop :=
  ∀ k, k ∈ pending ↔ k ∈ raised ∧ k ∉ settled

namespace Outstanding

variable {pending pending' raised raised' settled settled' : List κ}

theorem nil : Outstanding ([] : List κ) [] [] := fun k => by simp

theorem raise {k : κ} (h : Outstanding pending raised settled) (hk : k ∉ settled)
    (hpending : ∀ i, i ∈ pending' ↔ i = k ∨ i ∈ pending)
    (hraised : ∀ i, i ∈ raised' ↔ i = k ∨ i ∈ raised) : Outstanding pending' raised' settled := by
  intro i
  rw [hpending, hraised, h i]
  constructor
  · rintro (rfl | ⟨hraised, hopen⟩)
    · exact ⟨.inl rfl, hk⟩
    · exact ⟨.inr hraised, hopen⟩
  · rintro ⟨rfl | hraised, hopen⟩
    · exact .inl rfl
    · exact .inr ⟨hraised, hopen⟩

theorem settle {k : κ} (h : Outstanding pending raised settled)
    (hpending : ∀ i, i ∈ pending' ↔ i ∈ pending ∧ i ≠ k)
    (hsettled : ∀ i, i ∈ settled' ↔ i = k ∨ i ∈ settled) :
    Outstanding pending' raised settled' := by
  intro i
  rw [hpending, hsettled, h i, not_or]
  exact ⟨fun ⟨⟨hraised, hopen⟩, hne⟩ => ⟨hraised, hne, hopen⟩,
    fun ⟨hraised, hne, hopen⟩ => ⟨⟨hraised, hopen⟩, hne⟩⟩

theorem not_of_reopened {k : κ} (hpending : k ∈ pending) (hsettled : k ∈ settled) :
    ¬ Outstanding pending raised settled := fun h => ((h k).1 hpending).2 hsettled

end Outstanding

end Zhir.Library
