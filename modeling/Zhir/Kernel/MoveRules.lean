import Zhir.Kernel.Moves

/-!
Rules that show a handler to be a chain of moves: one for every primitive that handlers
are written with. The anchor of a chain is an engine state, the handler stands at the same
state with supplies used up.
-/

set_option autoImplicit false
set_option relaxedAutoImplicit false

namespace Zhir.Kernel

open Zhir.Core
open Zhir.Library (Program)
open Zhir.Library.Program
open Relation (ReflTransGen)

variable (cfg : Config) (cause : Cause)

abbrev Moves : Engine → Engine → Prop := ReflTransGen (Move cfg cause)

/-- The failures every handler may show: a clean one, and a commit that was not confirmed. -/
structure Failing (fault : Engine → Error → Engine → Prop) : Prop where
  clean : ∀ e error, fault e error e
  unconfirmed : ∀ {e e' : Engine}, Move cfg cause e e' →
    fault e commitTimeout { e with world := e'.world }

theorem fault_failing : Failing cfg cause (Fault cfg cause) where
  clean _ _ := .stopped rfl rfl (World.Counted.refl _)
  unconfirmed hmove := .unconfirmed hmove rfl rfl rfl

theorem refused_failing : Failing cfg cause (Refused cfg cause) where
  clean _ _ := .clean
  unconfirmed hmove := .unconfirmed hmove

/-- From the anchor `e` with its supplies used up to `w`, the handler makes moves. -/
def Steps {α : Type} (fault : Engine → Error → Engine → Prop) (e : Engine) (m : Handler α)
    (w : World) : Prop :=
  Chains (Move cfg cause) fault e m (e.inWorld w)

variable {cfg cause} {α β : Type} {fault : Engine → Error → Engine → Prop} {e : Engine} {w : World}

theorem Engine.inWorld_self (e : Engine) : e.inWorld e.world = e := rfl

theorem moves_count (hw : e.world.Counted w) : Moves cfg cause e (e.inWorld w) :=
  .single (.count hw)

theorem Steps.of_chains {m : Handler α} (h : Steps cfg cause fault e m e.world) :
    Chains (Move cfg cause) fault e m e := h

theorem steps_pure (hw : e.world.Counted w) {a : α} :
    Steps cfg cause fault e (pure a : Handler α) w :=
  chains_pure (moves_count hw)

theorem steps_fail (hfault : Failing cfg cause fault) (hw : e.world.Counted w) {error : Error} :
    Steps cfg cause fault e (Program.fail error : Handler α) w :=
  chains_fail ⟨_, moves_count hw, hfault.clean _ _⟩

theorem steps_read_bind {f : Engine → Handler β} (h : Steps cfg cause fault e (f (e.inWorld w)) w) :
    Steps cfg cause fault e (Program.read >>= f) w := h

theorem steps_lift_bind (hfault : Failing cfg cause fault) (hw : e.world.Counted w)
    {r : Result α} {f : α → Handler β}
    (hf : ∀ a, r = .ok a → Steps cfg cause fault e (f a) w) :
    Steps cfg cause fault e (Program.lift r >>= f) w :=
  chains_lift_bind (fun _ _ => ⟨_, moves_count hw, hfault.clean _ _⟩) hf

theorem steps_require_bind (hfault : Failing cfg cause fault) (hw : e.world.Counted w)
    {c : Prop} [Decidable c] {error : Error} {f : Unit → Handler β}
    (hf : c → Steps cfg cause fault e (f ()) w) :
    Steps cfg cause fault e (Program.require c error >>= f) w :=
  chains_require_bind (fun _ => ⟨_, moves_count hw, hfault.clean _ _⟩) hf

theorem steps_require (hfault : Failing cfg cause fault) (hw : e.world.Counted w)
    {c : Prop} [Decidable c] {error : Error} :
    Steps cfg cause fault e (Program.require c error) w :=
  chains_ite (fun _ => steps_pure hw) fun _ => steps_fail hfault hw

theorem steps_ite {c : Prop} [Decidable c] {m n : Handler α}
    (hm : c → Steps cfg cause fault e m w) (hn : ¬ c → Steps cfg cause fault e n w) :
    Steps cfg cause fault e (if c then m else n) w :=
  chains_ite hm hn

theorem steps_when (hw : e.world.Counted w) {c : Prop} [Decidable c] {m : Handler Unit}
    (hm : c → Steps cfg cause fault e m w) : Steps cfg cause fault e (Program.when c m) w :=
  chains_when (moves_count hw) hm

theorem steps_when_bind {c : Prop} [Decidable c] {m : Handler Unit} {f : Unit → Handler β}
    (hm : c → Steps cfg cause fault e (m >>= f) w)
    (hn : ¬ c → Steps cfg cause fault e (f ()) w) :
    Steps cfg cause fault e (Program.when c m >>= f) w := by
  unfold Program.when
  split
  · exact hm ‹_›
  · exact hn ‹_›

theorem steps_newId_bind (hw : e.world.Counted w) {f : String → Handler β}
    (hf : ∀ w', e.world.Counted w' → w'.names = w.names + 1 →
      Steps cfg cause fault e (f (cfg.name w.names)) w') :
    Steps cfg cause fault e (newId cfg >>= f) w :=
  hf { w with names := w.names + 1 }
    (hw.trans ⟨rfl, rfl, Nat.le_succ _, le_rfl⟩) rfl

theorem steps_check_bind (hfault : Failing cfg cause fault) (hw : e.world.Counted w)
    {f : Unit → Handler β} (hf : ∀ w', e.world.Counted w' → w'.names = w.names →
      Steps cfg cause fault e (f ()) w') :
    Steps cfg cause fault e (check cfg >>= f) w := by
  refine chains_bind_quiet ?_ ?_
  · intro error s' hr
    simp only [Program.run, check] at hr
    split at hr
    · simp at hr
    · cases hr
      exact ⟨_, moves_count hw.tick, hfault.clean _ _⟩
  · intro a s' hr
    simp only [Program.run, check] at hr
    split at hr
    · cases hr
      exact hf w.tick hw.tick rfl
    · simp at hr

theorem steps_ask_bind (hw : e.world.Counted w) {answer : Nat → α} {f : α → Handler β}
    (hf : ∀ w' n, e.world.Counted w' → w'.names = w.names →
      Steps cfg cause fault e (f (answer n)) w') :
    Steps cfg cause fault e (ask answer >>= f) w :=
  hf w.tick _ hw.tick rfl

theorem steps_modify_bind {g : Engine → Engine} {f : Unit → Handler β}
    (hmove : Moves cfg cause e (g (e.inWorld w)))
    (hf : Steps cfg cause fault (g (e.inWorld w)) (f ()) (g (e.inWorld w)).world) :
    Steps cfg cause fault e (Program.modify g >>= f) w :=
  Chains.after hmove hf

theorem steps_modify {g : Engine → Engine} (hmove : Moves cfg cause e (g (e.inWorld w))) :
    Steps cfg cause fault e (Program.modify g) w :=
  chains_modify hmove

@[simp] theorem run_newId (e : Engine) : Program.run (newId cfg) e =
    (.ok (cfg.name e.world.names),
      e.inWorld { e.world with names := e.world.names + 1 }) := rfl

theorem run_commit (cfg : Config) (e : Engine) (next : Checkpoint) (fact : Fact)
    (delta : HistoryDelta) :
    (∃ error w', e.world.Counted w' ∧ Program.run (commit cfg next fact delta) e =
      (.error error, e.inWorld w')) ∨
    (Accepts cfg e.world e.current next fact delta ∧
      (Program.run (commit cfg next fact delta) e = (.ok (), e.saved cfg e.world next fact) ∨
        Program.run (commit cfg next fact delta) e =
          (.error commitTimeout, { e with world := (e.saved cfg e.world next fact).world }))) := by
  unfold Accepts
  simp only [Program.run, commit, persist]
  rcases hv : (Commit.mk (stamp cfg e.world e.current next fact) delta).validateAgainst e.world.head
    with error | _
  · cases cfg.verdict e.world.clock <;>
      exact .inl ⟨_, { e.world with checkpoints := e.world.checkpoints + 1 }.tick,
        ⟨rfl, rfl, le_rfl, Nat.le_succ _⟩, rfl⟩
  · cases cfg.verdict e.world.clock with
    | accepted => exact .inr ⟨rfl, .inl rfl⟩
    | refused error =>
      exact .inl ⟨_, { e.world with checkpoints := e.world.checkpoints + 1 }.tick,
        ⟨rfl, rfl, le_rfl, Nat.le_succ _⟩, rfl⟩
    | unconfirmed => exact .inr ⟨rfl, .inr rfl⟩

theorem run_commit_ok {next : Checkpoint} {fact : Fact} {delta : HistoryDelta} {e e' : Engine}
    {u : Unit} (h : Program.run (commit cfg next fact delta) e = (.ok u, e')) :
    e' = e.saved cfg e.world next fact ∧ Accepts cfg e.world e.current next fact delta := by
  rcases run_commit cfg e next fact delta with
    ⟨error, w', hw', hr⟩ | ⟨haccepts, hr | hr⟩ <;> rw [h] at hr <;> cases hr
  exact ⟨rfl, haccepts⟩

theorem steps_commit_bind (hfault : Failing cfg cause fault) (hw : e.world.Counted w)
    {next : Checkpoint} {fact : Fact} {delta : HistoryDelta} {f : Unit → Handler β}
    (hmove : Accepts cfg w e.current next fact delta →
      ∃ e', Move cfg cause e e' ∧ e'.world = (e.saved cfg w next fact).world)
    (hf : Accepts cfg w e.current next fact delta →
      Chains (Move cfg cause) fault e (f ()) (e.saved cfg w next fact)) :
    Steps cfg cause fault e (commit cfg next fact delta >>= f) w := by
  rcases run_commit cfg (e.inWorld w) next fact delta with
    ⟨error, w', hw', hr⟩ | ⟨haccepts, hr | hr⟩
  · refine chains_bind_quiet ?_ ?_
    · intro error' s' hr'
      rw [hr] at hr'
      cases hr'
      exact ⟨_, moves_count (hw.trans hw'), hfault.clean _ _⟩
    · intro a s' hr'
      rw [hr] at hr'
      cases hr'
  · refine chains_bind_quiet ?_ ?_
    · intro error' s' hr'
      rw [hr] at hr'
      cases hr'
    · intro a s' hr'
      rw [hr] at hr'
      cases hr'
      exact hf haccepts
  · refine chains_bind_quiet ?_ ?_
    · intro error' s' hr'
      rw [hr] at hr'
      cases hr'
      obtain ⟨e', hmove, hworld⟩ := hmove haccepts
      have h := hfault.unconfirmed hmove
      rw [hworld] at h
      exact ⟨e, .refl, h⟩
    · intro a s' hr'
      rw [hr] at hr'
      cases hr'

theorem steps_save_bind (hfault : Failing cfg cause fault) (hw : e.world.Counted w)
    {next : Checkpoint} {fact : Fact} {delta : HistoryDelta} {f : Unit → Handler β}
    (hchange : Change cfg cause e w next fact delta)
    (hf : Steps cfg cause fault (e.saved cfg w next fact) (f ())
      (e.saved cfg w next fact).world) :
    Steps cfg cause fault e (commit cfg next fact delta >>= f) w :=
  steps_commit_bind hfault hw (fun haccepts => ⟨_, .save hw hchange haccepts, rfl⟩)
    fun haccepts => Chains.after (.single (.save hw hchange haccepts)) hf

theorem steps_save (hfault : Failing cfg cause fault) (hw : e.world.Counted w)
    {next : Checkpoint} {fact : Fact} {delta : HistoryDelta}
    (hchange : Change cfg cause e w next fact delta) :
    Steps cfg cause fault e (commit cfg next fact delta) w :=
  Chains.of_bind_pure (steps_save_bind hfault hw hchange (steps_pure (World.Counted.refl _)))

theorem steps_bind {m : Handler α} {f : α → Handler β} (hm : Steps cfg cause fault e m w)
    (hf : ∀ a e', Program.run m (e.inWorld w) = (.ok a, e') → Moves cfg cause e e' →
      Steps cfg cause fault e' (f a) e'.world) :
    Steps cfg cause fault e (m >>= f) w :=
  chains_bind hm fun a e' hr => hf a e' hr (hm.of_ok hr)

theorem Moves.handling {e' : Engine} (h : Moves cfg cause e e') : e'.handling = e.handling := by
  induction h with
  | refl => rfl
  | tail _ hmove ih => exact hmove.handling.trans ih

theorem Moves.looping {e' : Engine} (h : Moves cfg cause e e') (hlooping : e.Looping) :
    e'.Looping := by
  induction h with
  | refl => exact hlooping
  | tail _ hmove ih => exact hmove.looping ih

theorem Moves.valid {e' : Engine} (h : Moves cfg cause e e') (hvalid : e.current.Valid) :
    e'.current.Valid := by
  induction h with
  | refl => exact hvalid
  | tail _ hmove ih => exact hmove.valid ih

theorem Moves.unbound {e' : Engine} (h : Moves cfg cause e e') (hunbound : e.Unbound)
    (hcontrol : e'.sessionControl = none) : e'.Unbound := by
  induction h with
  | refl => exact hunbound
  | @tail e₁ e₂ _ hmove ih =>
    refine hmove.unbound (ih ?_) hcontrol
    by_contra hbound
    have h := hmove.bound (Option.isSome_iff_ne_none.mpr hbound)
    rw [hcontrol] at h
    cases h

theorem steps_forEach {f : α → Handler Unit} (inv : List α → Engine → Prop)
    (hf : ∀ x xs e, inv (x :: xs) e → Steps cfg cause fault e (f x) e.world ∧
      ∀ u e', Program.run (f x) e = (.ok u, e') → inv xs e')
    {xs : List α} (h : inv xs e) : Steps cfg cause fault e (Program.forEach f xs) e.world :=
  chains_forEach inv hf xs e h

end Zhir.Kernel
