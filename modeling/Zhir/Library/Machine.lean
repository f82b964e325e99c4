import Mathlib.Data.List.Basic

/-!
Deterministic machines that answer requests, and refinement of one by another.
-/

set_option autoImplicit false
set_option relaxedAutoImplicit false

namespace Zhir.Library

/-- A machine with states `σ`, requests `ι` and answers `ο`. -/
structure Machine (σ ι ο : Type) where
  step : σ → ι → σ × ο

namespace Machine

variable {σ τ ι ο : Type}

def answers (m : Machine σ ι ο) : σ → List ι → List ο
  | _, [] => []
  | s, i :: rest => (m.step s i).2 :: m.answers (m.step s i).1 rest

def after (m : Machine σ ι ο) : σ → List ι → σ
  | s, [] => s
  | s, i :: rest => m.after (m.step s i).1 rest

/-- Every request meets the machine in a state that `P` allows it in. -/
def Allows (m : Machine σ ι ο) (P : σ → ι → Prop) : σ → List ι → Prop
  | _, [] => True
  | s, i :: rest => P s i ∧ m.Allows P (m.step s i).1 rest

theorem allows_of_forall {m : Machine σ ι ο} {P : σ → ι → Prop} (h : ∀ s i, P s i) (s : σ)
    (l : List ι) : m.Allows P s l := by
  induction l generalizing s with
  | nil => trivial
  | cons i rest ih => exact ⟨h s i, ih _⟩

theorem Allows.mono {m : Machine σ ι ο} {P Q : σ → ι → Prop} (hPQ : ∀ s i, P s i → Q s i) {s : σ}
    {l : List ι} (h : m.Allows P s l) : m.Allows Q s l := by
  induction l generalizing s with
  | nil => trivial
  | cons i rest ih => exact ⟨hPQ s i h.1, ih h.2⟩

theorem allows_of_mem {m : Machine σ ι ο} {P : ι → Prop} {l : List ι} (h : ∀ i ∈ l, P i) (s : σ) :
    m.Allows (fun _ => P) s l := by
  induction l generalizing s with
  | nil => trivial
  | cons i rest ih =>
    exact ⟨h i List.mem_cons_self, ih (fun j hj => h j (List.mem_cons_of_mem i hj)) _⟩

theorem Allows.and_mem {m : Machine σ ι ο} {P : σ → ι → Prop} {Q : ι → Prop} {s : σ} {l : List ι}
    (h : m.Allows P s l) (hQ : ∀ i ∈ l, Q i) : m.Allows (fun s i => Q i ∧ P s i) s l := by
  induction l generalizing s with
  | nil => trivial
  | cons i rest ih =>
    exact ⟨⟨hQ i List.mem_cons_self, h.1⟩, ih h.2 fun j hj => hQ j (List.mem_cons_of_mem i hj)⟩

theorem after_induction {m : Machine σ ι ο} {I : σ → Prop} (h : ∀ s i, I s → I (m.step s i).1)
    {s : σ} (hs : I s) (l : List ι) : I (m.after s l) := by
  induction l generalizing s with
  | nil => exact hs
  | cons i rest ih => exact ih (h s i hs)

theorem after_of_allows {m : Machine σ ι ο} {P : σ → ι → Prop} {I : σ → Prop}
    (h : ∀ s i, P s i → I s → I (m.step s i).1) {s : σ} (hs : I s) {l : List ι}
    (hl : m.Allows P s l) : I (m.after s l) := by
  induction l generalizing s with
  | nil => exact hs
  | cons i rest ih => exact ih (h s i hl.1 hs) hl.2

theorem answers_append (m : Machine σ ι ο) (s : σ) (l l' : List ι) :
    m.answers s (l ++ l') = m.answers s l ++ m.answers (m.after s l) l' := by
  induction l generalizing s with
  | nil => rfl
  | cons i rest ih => exact congrArg (_ :: ·) (ih _)

theorem after_append (m : Machine σ ι ο) (s : σ) (l l' : List ι) :
    m.after s (l ++ l') = m.after (m.after s l) l' := by
  induction l generalizing s with
  | nil => rfl
  | cons i rest ih => exact ih _

/-- Related states answer every allowed request alike and stay related. -/
def Refines (m : Machine σ ι ο) (n : Machine τ ι ο) (P : τ → ι → Prop) (R : σ → τ → Prop) :
    Prop :=
  ∀ s t i, R s t → P t i →
    (m.step s i).2 = (n.step t i).2 ∧ R (m.step s i).1 (n.step t i).1

theorem Refines.answers_eq {m : Machine σ ι ο} {n : Machine τ ι ο} {P : τ → ι → Prop}
    {R : σ → τ → Prop} (h : m.Refines n P R) {s : σ} {t : τ} (hst : R s t) {l : List ι}
    (hl : n.Allows P t l) : m.answers s l = n.answers t l := by
  induction l generalizing s t with
  | nil => rfl
  | cons i rest ih =>
    obtain ⟨hallowed, hrest⟩ := hl
    obtain ⟨hanswer, hrelated⟩ := h s t i hst hallowed
    change _ :: _ = _ :: _
    rw [hanswer, ih hrelated hrest]

end Machine

end Zhir.Library
