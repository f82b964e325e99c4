import Mathlib.Logic.Relation

/-!
Programs over a mutable state that may fail and keep their state when they do, with a
rule set for showing that every run is a chain of small steps.
-/

set_option autoImplicit false
set_option relaxedAutoImplicit false

namespace Zhir.Library

open Relation (ReflTransGen)

/-- A program returns a value or fails; the state it has reached is kept either way. -/
def Program (σ ε α : Type) : Type := σ → Except ε α × σ

namespace Program

variable {σ ε α β : Type}

instance : Monad (Program σ ε) where
  pure a := fun s => (.ok a, s)
  bind m f := fun s =>
    match m s with
    | (.ok a, s') => f a s'
    | (.error e, s') => (.error e, s')

def run (m : Program σ ε α) (s : σ) : Except ε α × σ := m s

def read : Program σ ε σ := fun s => (.ok s, s)

def modify (f : σ → σ) : Program σ ε Unit := fun s => (.ok (), f s)

def fail (e : ε) : Program σ ε α := fun s => (.error e, s)

def lift (r : Except ε α) : Program σ ε α := fun s => (r, s)

def require (c : Prop) [Decidable c] (e : ε) : Program σ ε Unit :=
  if c then pure () else fail e

def when (c : Prop) [Decidable c] (m : Program σ ε Unit) : Program σ ε Unit :=
  if c then m else pure ()

def forEach (f : α → Program σ ε Unit) : List α → Program σ ε Unit
  | [] => pure ()
  | x :: xs => f x >>= fun _ => forEach f xs

/-- The outcome as a value; the program itself no longer fails. -/
def attempt (m : Program σ ε α) : Program σ ε (Except ε α) := fun s =>
  ((.ok (m s).1), (m s).2)

@[simp] theorem run_pure (a : α) (s : σ) : run (pure a : Program σ ε α) s = (.ok a, s) := rfl

@[simp] theorem run_bind (m : Program σ ε α) (f : α → Program σ ε β) (s : σ) :
    run (m >>= f) s =
      match run m s with
      | (.ok a, s') => run (f a) s'
      | (.error e, s') => (.error e, s') := rfl

@[simp] theorem run_read (s : σ) : run (read : Program σ ε σ) s = (.ok s, s) := rfl

@[simp] theorem run_modify (f : σ → σ) (s : σ) :
    run (modify f : Program σ ε Unit) s = (.ok (), f s) := rfl

@[simp] theorem run_fail (e : ε) (s : σ) : run (fail e : Program σ ε α) s = (.error e, s) := rfl

@[simp] theorem run_lift (r : Except ε α) (s : σ) : run (lift r : Program σ ε α) s = (r, s) := rfl

@[simp] theorem run_attempt (m : Program σ ε α) (s : σ) :
    run m.attempt s = (.ok (run m s).1, (run m s).2) := rfl

@[simp] theorem run_ite (c : Prop) [Decidable c] (m n : Program σ ε α) (s : σ) :
    run (if c then m else n) s = if c then run m s else run n s := by
  split <;> rfl

instance : LawfulMonad (Program σ ε) :=
  LawfulMonad.mk' (Program σ ε)
    (fun m => by
      funext s
      change run (m >>= fun a => pure a) s = run m s
      rw [run_bind]
      rcases run m s with ⟨_ | _, s'⟩ <;> rfl)
    (fun _ _ => rfl)
    (fun m f g => by
      funext s
      change run (m >>= f >>= g) s = run (m >>= fun a => f a >>= g) s
      rw [run_bind, run_bind, run_bind]
      rcases run m s with ⟨_ | _, s'⟩ <;> rfl)

theorem run_require (c : Prop) [Decidable c] (e : ε) (s : σ) :
    run (require c e : Program σ ε Unit) s = (if c then .ok () else .error e, s) := by
  unfold require
  split <;> rfl

@[simp] theorem run_forEach_nil (f : α → Program σ ε Unit) (s : σ) :
    run (forEach f []) s = (.ok (), s) := rfl

@[simp] theorem run_forEach_cons (f : α → Program σ ε Unit) (x : α) (xs : List α) (s : σ) :
    run (forEach f (x :: xs)) s =
      match run (f x) s with
      | (.ok _, s') => run (forEach f xs) s'
      | (.error e, s') => (.error e, s') := by
  rw [forEach, run_bind]
  rcases run (f x) s with ⟨_ | _, s'⟩ <;> rfl

theorem run_bind_ok {m : Program σ ε α} {f : α → Program σ ε β} {s s' : σ} {b : β}
    (h : run (m >>= f) s = (.ok b, s')) :
    ∃ a s₁, run m s = (.ok a, s₁) ∧ run (f a) s₁ = (.ok b, s') := by
  rw [run_bind] at h
  rcases hm : run m s with ⟨e | a, s₁⟩
  · rw [hm] at h
    cases h
  · rw [hm] at h
    exact ⟨a, s₁, rfl, h⟩

theorem run_lift_bind_ok {r : Except ε α} {f : α → Program σ ε β} {s s' : σ} {b : β}
    (h : run (lift r >>= f) s = (.ok b, s')) : ∃ a, r = .ok a ∧ run (f a) s = (.ok b, s') := by
  cases r with
  | error e => cases h
  | ok a => exact ⟨a, rfl, h⟩

theorem run_require_bind_ok {c : Prop} [Decidable c] {e : ε} {f : Unit → Program σ ε β}
    {s s' : σ} {b : β} (h : run (require c e >>= f) s = (.ok b, s')) :
    c ∧ run (f ()) s = (.ok b, s') := by
  rw [run_bind, run_require] at h
  by_cases hc : c
  · simp only [hc, if_true] at h
    exact ⟨hc, h⟩
  · simp only [hc, if_false] at h
    cases h

theorem run_bind_end {m : Program σ ε α} {f : α → Program σ ε β} {s : σ} {Q : σ → Prop}
    (herr : ∀ e s', run m s = (.error e, s') → Q s')
    (hok : ∀ a s', run m s = (.ok a, s') → Q (run (f a) s').2) : Q (run (m >>= f) s).2 := by
  rw [run_bind]
  rcases hm : run m s with ⟨e | a, s'⟩
  · exact herr e s' hm
  · exact hok a s' hm

section Chains

variable (step : σ → σ → Prop) (fault : σ → ε → σ → Prop)

/-- From the anchor `s₀` there are steps to wherever `m` leads from `s`. -/
def Chains (s₀ : σ) (m : Program σ ε α) (s : σ) : Prop :=
  match run m s with
  | (.ok _, s') => ReflTransGen step s₀ s'
  | (.error e, s') => ∃ s₁, ReflTransGen step s₀ s₁ ∧ fault s₁ e s'

variable {step fault}

theorem Chains.of_ok {m : Program σ ε α} {s₀ s s' : σ} {a : α} (h : Chains step fault s₀ m s)
    (hr : run m s = (.ok a, s')) : ReflTransGen step s₀ s' := by
  simpa [Chains, hr] using h

theorem Chains.of_error {m : Program σ ε α} {s₀ s s' : σ} {e : ε}
    (h : Chains step fault s₀ m s) (hr : run m s = (.error e, s')) :
    ∃ s₁, ReflTransGen step s₀ s₁ ∧ fault s₁ e s' := by
  simpa [Chains, hr] using h

theorem Chains.intro {m : Program σ ε α} {s₀ s : σ}
    (hok : ∀ a s', run m s = (.ok a, s') → ReflTransGen step s₀ s')
    (herr : ∀ e s', run m s = (.error e, s') → ∃ s₁, ReflTransGen step s₀ s₁ ∧ fault s₁ e s') :
    Chains step fault s₀ m s := by
  unfold Chains
  rcases hr : run m s with ⟨e | a, s'⟩
  · exact herr e s' hr
  · exact hok a s' hr

theorem Chains.widen {step' : σ → σ → Prop} {m : Program σ ε α} {s₀ s : σ}
    (h : Chains step fault s₀ m s) (hstep : ∀ s s', step s s' → step' s s') :
    Chains step' fault s₀ m s :=
  Chains.intro (fun _ _ hr => ReflTransGen.mono hstep _ _ (h.of_ok hr)) fun _ _ hr =>
    let ⟨s₁, hs, hfault⟩ := h.of_error hr
    ⟨s₁, ReflTransGen.mono hstep _ _ hs, hfault⟩

theorem Chains.after {m : Program σ ε α} {s₀ s₁ s : σ} (h₀ : ReflTransGen step s₀ s₁)
    (h : Chains step fault s₁ m s) : Chains step fault s₀ m s :=
  Chains.intro (fun _ _ hr => h₀.trans (h.of_ok hr)) fun _ _ hr =>
    let ⟨s₂, hs, hfault⟩ := h.of_error hr
    ⟨s₂, h₀.trans hs, hfault⟩

theorem chains_pure {a : α} {s₀ s : σ} (h : ReflTransGen step s₀ s) :
    Chains step fault s₀ (pure a) s := h

theorem chains_modify {f : σ → σ} {s₀ s : σ} (h : ReflTransGen step s₀ (f s)) :
    Chains step fault s₀ (modify f) s := h

theorem chains_fail {e : ε} {s₀ s : σ} (h : ∃ s₁, ReflTransGen step s₀ s₁ ∧ fault s₁ e s) :
    Chains step fault s₀ (fail e : Program σ ε α) s := h

/-- Run `m` without moving the anchor. -/
theorem chains_bind_quiet {m : Program σ ε α} {f : α → Program σ ε β} {s₀ s : σ}
    (herr : ∀ e s', run m s = (.error e, s') → ∃ s₁, ReflTransGen step s₀ s₁ ∧ fault s₁ e s')
    (hf : ∀ a s', run m s = (.ok a, s') → Chains step fault s₀ (f a) s') :
    Chains step fault s₀ (m >>= f) s := by
  rcases hr : run m s with ⟨e | a, s'⟩
  · simpa [Chains, hr] using herr e s' hr
  · rcases hk : run (f a) s' with ⟨e | b, s''⟩
    · simpa [Chains, hr, hk] using (hf a s' hr).of_error hk
    · simpa [Chains, hr, hk] using (hf a s' hr).of_ok hk

/-- Run `m`, then continue from where it ended. -/
theorem chains_bind {m : Program σ ε α} {f : α → Program σ ε β} {s₀ s : σ}
    (hm : Chains step fault s₀ m s)
    (hf : ∀ a s', run m s = (.ok a, s') → Chains step fault s' (f a) s') :
    Chains step fault s₀ (m >>= f) s :=
  chains_bind_quiet (fun _ _ hr => hm.of_error hr)
    fun a s' hr => (hf a s' hr).after (hm.of_ok hr)

theorem Chains.of_bind_pure {m : Program σ ε α} {s₀ s : σ}
    (h : Chains step fault s₀ (m >>= pure) s) : Chains step fault s₀ m s := by
  rwa [bind_pure] at h

theorem chains_read_bind {f : σ → Program σ ε β} {s₀ s : σ}
    (h : Chains step fault s₀ (f s) s) : Chains step fault s₀ (read >>= f) s := h

theorem chains_lift_bind {r : Except ε α} {f : α → Program σ ε β} {s₀ s : σ}
    (herr : ∀ e, r = .error e → ∃ s₁, ReflTransGen step s₀ s₁ ∧ fault s₁ e s)
    (hf : ∀ a, r = .ok a → Chains step fault s₀ (f a) s) :
    Chains step fault s₀ (lift r >>= f) s :=
  chains_bind_quiet
    (by
      intro e s' hr
      obtain ⟨h, rfl⟩ : r = .error e ∧ s = s' := by simpa using hr
      exact herr e h)
    (by
      intro a s' hr
      obtain ⟨h, rfl⟩ : r = .ok a ∧ s = s' := by simpa using hr
      exact hf a h)

theorem chains_require_bind {c : Prop} [Decidable c] {e : ε} {f : Unit → Program σ ε β}
    {s₀ s : σ} (herr : ¬ c → ∃ s₁, ReflTransGen step s₀ s₁ ∧ fault s₁ e s)
    (hf : c → Chains step fault s₀ (f ()) s) :
    Chains step fault s₀ (require c e >>= f) s :=
  chains_bind_quiet
    (by
      intro e' s' hr
      by_cases hc : c
      · simp [run_require, hc] at hr
      · obtain ⟨rfl, rfl⟩ : e = e' ∧ s = s' := by simpa [run_require, hc] using hr
        exact herr hc)
    (by
      intro a s' hr
      by_cases hc : c
      · obtain rfl : s = s' := by simpa [run_require, hc] using hr
        exact hf hc
      · simp [run_require, hc] at hr)

theorem chains_ite {c : Prop} [Decidable c] {m n : Program σ ε α} {s₀ s : σ}
    (hm : c → Chains step fault s₀ m s) (hn : ¬ c → Chains step fault s₀ n s) :
    Chains step fault s₀ (if c then m else n) s := by
  split
  · exact hm ‹_›
  · exact hn ‹_›

theorem chains_when {c : Prop} [Decidable c] {m : Program σ ε Unit} {s₀ s : σ}
    (hs : ReflTransGen step s₀ s) (hm : c → Chains step fault s₀ m s) :
    Chains step fault s₀ (when c m) s :=
  chains_ite hm fun _ => chains_pure hs

/-- A loop is a chain when every pass is one from a state that satisfies an invariant of
the elements left. -/
theorem chains_forEach {f : α → Program σ ε Unit} (inv : List α → σ → Prop)
    (hf : ∀ x xs s, inv (x :: xs) s → Chains step fault s (f x) s ∧
      ∀ u s', run (f x) s = (.ok u, s') → inv xs s') :
    ∀ xs s, inv xs s → Chains step fault s (forEach f xs) s := by
  intro xs
  induction xs with
  | nil => exact fun s _ => chains_pure .refl
  | cons x xs ih =>
    intro s hs
    obtain ⟨hx, hnext⟩ := hf x xs s hs
    exact chains_bind hx fun u s' hr => ih s' (hnext u s' hr)

end Chains

section Keeps

variable {γ : Type} {f : σ → γ}

/-- The program leaves the part `f` of the state as it is, however it ends. -/
def Keeps (f : σ → γ) (m : Program σ ε α) : Prop := ∀ s, f (run m s).2 = f s

theorem keeps_pure (a : α) : Keeps f (pure a : Program σ ε α) := fun _ => rfl

theorem keeps_fail (e : ε) : Keeps f (fail e : Program σ ε α) := fun _ => rfl

theorem keeps_read : Keeps f (read : Program σ ε σ) := fun _ => rfl

theorem keeps_lift (r : Except ε α) : Keeps f (lift r : Program σ ε α) := fun _ => rfl

theorem keeps_modify {g : σ → σ} (h : ∀ s, f (g s) = f s) :
    Keeps f (modify g : Program σ ε Unit) := h

theorem keeps_require (c : Prop) [Decidable c] (e : ε) :
    Keeps f (require c e : Program σ ε Unit) := by
  intro s
  rw [run_require]

theorem keeps_bind {m : Program σ ε α} {g : α → Program σ ε β} (hm : Keeps f m)
    (hg : ∀ a, Keeps f (g a)) : Keeps f (m >>= g) := by
  intro s
  have hs := hm s
  rw [run_bind]
  generalize run m s = r at hs ⊢
  rcases r with ⟨_ | a, s'⟩
  · exact hs
  · exact (hg a s').trans hs

theorem keeps_ite {c : Prop} [Decidable c] {m n : Program σ ε α} (hm : Keeps f m)
    (hn : Keeps f n) : Keeps f (if c then m else n) := by
  split
  · exact hm
  · exact hn

theorem keeps_when {c : Prop} [Decidable c] {m : Program σ ε Unit} (hm : Keeps f m) :
    Keeps f (when c m) := keeps_ite hm (keeps_pure ())

theorem keeps_forEach {g : α → Program σ ε Unit} (hg : ∀ x, Keeps f (g x)) (xs : List α) :
    Keeps f (forEach g xs) := by
  induction xs with
  | nil => exact keeps_pure ()
  | cons x xs ih => exact keeps_bind (hg x) fun _ => ih

theorem keeps_attempt {m : Program σ ε α} (hm : Keeps f m) : Keeps f m.attempt := hm

end Keeps

section Always

variable {I : σ → Prop}

/-- From a state with `I` the program ends in one with `I`, however it ends. -/
def Always (I : σ → Prop) (m : Program σ ε α) : Prop := ∀ s, I s → I (run m s).2

theorem always_pure (a : α) : Always I (pure a : Program σ ε α) := fun _ hs => hs

theorem always_fail (e : ε) : Always I (fail e : Program σ ε α) := fun _ hs => hs

theorem always_modify {g : σ → σ} (h : ∀ s, I s → I (g s)) :
    Always I (modify g : Program σ ε Unit) := h

theorem always_require (c : Prop) [Decidable c] (e : ε) :
    Always I (require c e : Program σ ε Unit) := by
  intro s hs
  rw [run_require]
  exact hs

theorem always_bind {m : Program σ ε α} {g : α → Program σ ε β} (hm : Always I m)
    (hg : ∀ a, Always I (g a)) : Always I (m >>= g) := by
  intro s hs
  have hnext := hm s hs
  rw [run_bind]
  generalize run m s = r at hnext ⊢
  rcases r with ⟨_ | a, s'⟩
  · exact hnext
  · exact hg a s' hnext

theorem always_read_bind {g : σ → Program σ ε β} (h : ∀ s, I s → Always I (g s)) :
    Always I (read >>= g) := fun s hs => h s hs s hs

theorem always_lift_bind {r : Except ε α} {g : α → Program σ ε β}
    (h : ∀ a, r = .ok a → Always I (g a)) : Always I (lift r >>= g) := by
  cases r with
  | error e => exact fun _ hs => hs
  | ok a => exact fun s hs => h a rfl s hs

theorem always_ite {c : Prop} [Decidable c] {m n : Program σ ε α} (hm : Always I m)
    (hn : Always I n) : Always I (if c then m else n) := by
  split
  · exact hm
  · exact hn

theorem always_when {c : Prop} [Decidable c] {m : Program σ ε Unit} (hm : Always I m) :
    Always I (when c m) := always_ite hm (always_pure ())

theorem always_forEach {g : α → Program σ ε Unit} (hg : ∀ x, Always I (g x)) (xs : List α) :
    Always I (forEach g xs) := by
  induction xs with
  | nil => exact always_pure ()
  | cons x xs ih => exact always_bind (hg x) fun _ => ih

/-- Besides preserving `I` the program returns only values with `P`. -/
def Yields (I : σ → Prop) (P : α → Prop) (m : Program σ ε α) : Prop :=
  ∀ s, I s → I (run m s).2 ∧ ∀ a, (run m s).1 = .ok a → P a

variable {P : α → Prop} {Q : β → Prop}

theorem yields_pure {a : α} (ha : P a) : Yields I P (pure a : Program σ ε α) := by
  refine fun s hs => ⟨hs, fun b hb => ?_⟩
  cases hb
  exact ha

theorem yields_fail (e : ε) : Yields I P (fail e : Program σ ε α) :=
  fun _ hs => ⟨hs, fun _ hb => by cases hb⟩

private theorem yields_of_always {m : Program σ ε α} (h : Always I m) : Yields I
    (fun _ => True) m :=
  fun s hs => ⟨h s hs, fun _ _ => trivial⟩

theorem yields_bind {m : Program σ ε α} {g : α → Program σ ε β} (hm : Yields I P m)
    (hg : ∀ a, P a → Yields I Q (g a)) : Yields I Q (m >>= g) := by
  intro s hs
  have hnext := hm s hs
  rw [run_bind]
  generalize run m s = r at hnext ⊢
  rcases r with ⟨_ | a, s'⟩
  · exact ⟨hnext.1, fun _ hb => by cases hb⟩
  · exact hg a (hnext.2 a rfl) s' hnext.1

theorem yields_then {m : Program σ ε α} {g : α → Program σ ε β} (hm : Always I m)
    (hg : ∀ a, Yields I Q (g a)) : Yields I Q (m >>= g) :=
  yields_bind (yields_of_always hm) fun a _ => hg a

theorem yields_read_bind {g : σ → Program σ ε β} (h : ∀ s, I s → Yields I Q (g s)) :
    Yields I Q (read >>= g) := fun s hs => h s hs s hs

theorem yields_lift_bind {r : Except ε α} {g : α → Program σ ε β}
    (h : ∀ a, r = .ok a → Yields I Q (g a)) : Yields I Q (lift r >>= g) := by
  cases r with
  | error e => exact fun _ hs => ⟨hs, fun _ hb => by cases hb⟩
  | ok a => exact fun s hs => h a rfl s hs

theorem yields_ite {c : Prop} [Decidable c] {m n : Program σ ε α} (hm : Yields I P m)
    (hn : Yields I P n) : Yields I P (if c then m else n) := by
  split
  · exact hm
  · exact hn

theorem yields_attempt {m : Program σ ε α} (hm : Yields I P m) :
    Yields I (fun r => ∀ a, r = .ok a → P a) m.attempt := by
  refine fun s hs => ⟨(hm s hs).1, fun r hr a ha => (hm s hs).2 a ?_⟩
  cases hr
  exact ha

theorem always_bind_yields {m : Program σ ε α} {g : α → Program σ ε β} (hm : Yields I P m)
    (hg : ∀ a, P a → Always I (g a)) : Always I (m >>= g) := by
  intro s hs
  have hnext := hm s hs
  rw [run_bind]
  generalize run m s = r at hnext ⊢
  rcases r with ⟨_ | a, s'⟩
  · exact hnext.1
  · exact hg a (hnext.2 a rfl) s' hnext.1

theorem always_attempt {m : Program σ ε α} (hm : Always I m) : Always I m.attempt := hm

end Always

section Clean

/-- The program never fails. -/
def Total (m : Program σ ε α) : Prop := ∀ s, ∃ a s', run m s = (.ok a, s')

theorem total_pure (a : α) : Total (pure a : Program σ ε α) := fun s => ⟨a, s, rfl⟩

theorem total_modify (g : σ → σ) : Total (modify g : Program σ ε Unit) :=
  fun s => ⟨(), g s, rfl⟩

theorem total_bind {m : Program σ ε α} {f : α → Program σ ε β} (hm : Total m)
    (hf : ∀ a, Total (f a)) : Total (m >>= f) := by
  intro s
  obtain ⟨a, s₁, hrun⟩ := hm s
  obtain ⟨b, s₂, hnext⟩ := hf a s₁
  exact ⟨b, s₂, by rw [run_bind, hrun]; exact hnext⟩

theorem total_when {c : Prop} [Decidable c] {m : Program σ ε Unit} (hm : Total m) :
    Total (when c m) := by
  unfold when
  split
  · exact hm
  · exact total_pure ()

variable {fault : σ → ε → σ → Prop}

/-- A failing run ends as `fault` says of the state it began in. -/
def Clean (fault : σ → ε → σ → Prop) (m : Program σ ε α) : Prop :=
  ∀ s e s', run m s = (.error e, s') → fault s e s'

theorem clean_of_total {m : Program σ ε α} (h : Total m) : Clean fault m := by
  intro s e s' hrun
  obtain ⟨a, s₁, hok⟩ := h s
  rw [hok] at hrun
  cases hrun

theorem clean_fail {e : ε} (h : ∀ s, fault s e s) : Clean fault (fail e : Program σ ε α) := by
  intro s e' s' hrun
  cases hrun
  exact h s

theorem clean_read_bind {f : σ → Program σ ε β} (h : ∀ s, Clean fault (f s)) :
    Clean fault (read >>= f) := fun s => h s s

theorem clean_lift_bind {r : Except ε α} {f : α → Program σ ε β} (herr : ∀ s e, fault s e s)
    (hf : ∀ a, r = .ok a → Clean fault (f a)) : Clean fault (lift r >>= f) := by
  cases r with
  | error e => exact clean_fail fun s => herr s e
  | ok a => exact hf a rfl

theorem clean_require_bind {c : Prop} [Decidable c] {e : ε} {f : Unit → Program σ ε β}
    (herr : ∀ s e, fault s e s) (hf : c → Clean fault (f ())) :
    Clean fault (require c e >>= f) := by
  unfold require
  split
  · exact hf ‹_›
  · exact clean_fail fun s => herr s e

theorem clean_ite {c : Prop} [Decidable c] {m n : Program σ ε α} (hm : c → Clean fault m)
    (hn : ¬ c → Clean fault n) : Clean fault (if c then m else n) := by
  split
  · exact hm ‹_›
  · exact hn ‹_›

/-- After the only part that can fail the rest never does. -/
theorem clean_bind_total {m : Program σ ε α} {f : α → Program σ ε β} (hm : Clean fault m)
    (hf : ∀ a, Total (f a)) : Clean fault (m >>= f) := by
  intro s e s' hrun
  rw [run_bind] at hrun
  rcases hfirst : run m s with ⟨e₁ | a, s₁⟩
  · rw [hfirst] at hrun
    cases hrun
    exact hm s e s' hfirst
  · rw [hfirst] at hrun
    obtain ⟨b, s₂, hok⟩ := hf a s₁
    change run (f a) s₁ = _ at hrun
    rw [hok] at hrun
    cases hrun

/-- A first part that changes nothing `fault` speaks of. -/
theorem clean_bind_quiet {m : Program σ ε α} {f : α → Program σ ε β} (hm : Clean fault m)
    (hquiet : ∀ s a s₁, run m s = (.ok a, s₁) → ∀ e s', fault s₁ e s' → fault s e s')
    (hf : ∀ a, Clean fault (f a)) : Clean fault (m >>= f) := by
  intro s e s' hrun
  rw [run_bind] at hrun
  rcases hfirst : run m s with ⟨e₁ | a, s₁⟩
  · rw [hfirst] at hrun
    cases hrun
    exact hm s e s' hfirst
  · rw [hfirst] at hrun
    exact hquiet s a s₁ hfirst e s' (hf a s₁ e s' hrun)

end Clean

end Program

end Zhir.Library
