import Zhir.Kernel.Batches

/-!
Passes of the main loop, work items and host controls as they are received, as chains of
moves and turns.
-/

set_option autoImplicit false
set_option relaxedAutoImplicit false

namespace Zhir.Kernel

open Zhir.Core
open Zhir.Library (Program)
open Zhir.Library.Program
open Relation (ReflTransGen)

variable {cfg : Config} {cause : Cause} {fault : Engine → Error → Engine → Prop} {e : Engine}
  {w : World}

private theorem steps_reduction_bind {α : Type} (hfault : Failing cfg cause fault)
    {f : Option HistoryRewrite → Handler α}
    (hnone : ∀ w, e.world.Counted w → Steps cfg cause fault e (f none) w)
    (hsome : ∀ w reduce rewrite n, e.world.Counted w → cfg.historyReducer = some reduce →
      reduce n e.current = .ok (some rewrite) → reducible e.current = true →
      Steps cfg cause fault e (f (some rewrite)) w) :
    Steps cfg cause fault e (reduction cfg >>= f) e.world := by
  unfold reduction
  rw [bind_assoc]
  refine steps_read_bind ?_
  cases hreducer : cfg.historyReducer with
  | none => exact hnone _ (.refl _)
  | some reduce =>
    by_cases hreducible : reducible e.current = true
    · simp only [Engine.inWorld_self, hreducible, if_true, bind_assoc]
      refine steps_ask_bind (.refl _) fun w n hw _ => ?_
      refine steps_lift_bind hfault hw fun answer hanswer => ?_
      cases answer with
      | none => exact hnone w hw
      | some rewrite => exact hsome w reduce rewrite n hw hreducer hanswer hreducible
    · simp only [Engine.inWorld_self, hreducible]
      exact hnone _ (.refl _)

private theorem steps_generate (hfault : Failing cfg cause fault) (hadvance : e.canAdvance = true)
    (hneeds : e.current.active.session.needsGeneration = true)
    (hexplicit : e.supports cfg .explicitGeneration = true) :
    Steps cfg cause fault e (generate cfg) e.world := by
  refine steps_read_bind ?_
  refine steps_ite (fun _ => steps_limitRun hfault (.refl _) (.inl rfl)) fun _ => ?_
  refine steps_reduction_bind hfault ?_ ?_
  · intro w hw
    refine steps_newId_bind hw fun w₁ hw₁ hn₁ => ?_
    refine steps_newId_bind hw₁ fun w₂ hw₂ hn₂ => ?_
    refine steps_read_bind ?_
    have hn : Generated e w₂ w.names := ⟨hw.names, by omega⟩
    have hk : Generated e w₂ w₁.names := ⟨hw₁.names, by omega⟩
    exact steps_save hfault hw₂ (.generate hadvance hneeds hexplicit hn hk (by omega))
  · intro w reduce rewrite n hw hreducer hanswer hreducible
    refine steps_read_bind ?_
    refine steps_newId_bind hw fun w₁ hw₁ hn₁ => ?_
    refine steps_lift_bind hfault hw₁ fun next hstage => ?_
    have hn : Generated e w₁ w.names := ⟨hw.names, by omega⟩
    exact steps_save hfault hw₁
      (.rewrite hadvance hneeds hreducer hanswer hreducible hn hstage)

private theorem steps_finishOrDrain (hfault : Failing cfg cause fault)
    (hadvance : e.canAdvance = true)
    (hinput : e.inputFinished cfg = true) :
    Steps cfg cause fault e (finishOrDrain cfg) e.world := by
  refine steps_read_bind ?_
  refine steps_ite (fun hclosure => ?_) fun hclosure => ?_
  · refine steps_ite (fun hidle => ?_) fun _ => steps_pure (.refl _)
    have hprepared : Prepared cfg e .close := .close hadvance hinput hclosure hidle.1
    refine steps_bind (steps_prepareCommand hfault (.refl _) hprepared) ?_
    intro _ _ _ _
    exact steps_pure (.refl _)
  · refine steps_ite (fun _ => steps_pure (.refl _)) fun hmedia => ?_
    simp only [not_or, Bool.not_eq_true] at hmedia
    have hclosed : e.current.active.session.closure.isSome = true :=
      Option.isSome_iff_ne_none.mpr hclosure
    refine steps_bind (w := e.world) ?_ fun _ _ _ _ => steps_pure (.refl _)
    exact steps_read_bind (steps_save hfault (.refl _) (.complete hadvance hinput hclosed hmedia))

private theorem steps_advance (hfault : Failing cfg cause fault) :
    Steps cfg cause fault e (advance cfg) e.world := by
  refine steps_bind (w := e.world) ?_ fun advanced e₁ _ _ => ?_
  · refine steps_read_bind ?_
    refine steps_ite (fun hadvance => ?_) fun _ => steps_pure (.refl _)
    refine steps_ite (fun hneeds => ?_) fun _ => ?_
    · refine steps_bind (steps_generate hfault hadvance hneeds.1 hneeds.2) ?_
      intro _ _ _ _
      exact steps_pure (.refl _)
    · exact steps_ite (fun hinput => steps_finishOrDrain hfault hadvance hinput) fun _ =>
        steps_pure (.refl _)
  · refine steps_ite (fun _ => steps_pure (.refl _)) fun _ => ?_
    refine steps_read_bind ?_
    refine steps_ite (fun _ => ?_) fun _ => steps_pure (.refl _)
    exact steps_bind (steps_suspend hfault (.refl _) _) fun _ _ _ _ => steps_pure (.refl _)

theorem steps_loopPass (hfault : Failing cfg cause fault) (hvalid : e.current.Valid)
    (hlooping : e.Looping) (hadmits : e.Admits) :
    Steps cfg cause fault e (loopPass cfg) e.world := by
  refine steps_check_bind hfault (.refl _) fun w hw _ => ?_
  refine steps_read_bind ?_
  refine steps_bind (steps_dispatchCommands hfault hw hlooping.2) fun _ e₁ _ hmoves₁ => ?_
  have hvalid₁ := hmoves₁.valid hvalid
  have hlooping₁ := hmoves₁.looping hlooping
  have hadmits₁ := hmoves₁.admits hadmits
  refine steps_bind (steps_admitQueued hfault hvalid₁ hlooping₁ hadmits₁.none_of_idle) ?_
  intro _ e₂ _ _
  refine steps_bind (steps_advance hfault) fun advanced e₃ _ _ => ?_
  exact steps_read_bind (steps_ite (fun _ => steps_pure (.refl _)) fun _ => steps_pure (.refl _))

abbrev Turns (cfg : Config) (cause : Cause) : Engine → Engine → Prop :=
  ReflTransGen (Turn cfg cause)

private theorem chains_handleWork {work : Work} {queue : List Work} (hvalid : e.current.Valid)
    (hlooping : e.Looping) (hworks : e.stashed.toList ++ e.queue = work :: queue) :
    Chains (Turn cfg cause) (Fault cfg cause) e (handleWork cfg work)
      { e with stashed := none, queue } := by
  let taken := ({ e with stashed := none, queue } : Engine).take work
  have htake : Turn cfg cause e taken := .take hlooping hworks
  refine Chains.after (.single htake) ?_
  have hhandle : Chains (Move cfg cause) (Fault cfg cause) taken (handle cfg work) taken :=
    steps_handle hvalid rfl rfl
  refine chains_bind (m := handle cfg work) (s := taken)
    (hhandle.widen fun _ _ h => .move h) ?_
  intro u e' hrun
  have hmoves : Moves cfg cause taken e' := hhandle.of_ok hrun
  have hdrop : Turns cfg cause e' e'.drop :=
    .single (.drop hmoves.handling (run_handle_done hrun))
  exact hdrop

theorem chains_receiveWork (hvalid : e.current.Valid) (hlooping : e.Looping) :
    Chains (Turn cfg cause) (Fault cfg cause) e (receiveWork cfg) e := by
  refine chains_read_bind ?_
  cases hstashed : e.stashed with
  | some work => exact chains_handleWork hvalid hlooping (by simp [hstashed])
  | none =>
    cases hqueue : e.queue with
    | nil => exact chains_pure .refl
    | cons work rest =>
      have hhandle : Chains (Turn cfg cause) (Fault cfg cause) e (handleWork cfg work)
          { e with stashed := none, queue := rest } :=
        chains_handleWork hvalid hlooping (by simp [hstashed, hqueue])
      have hsame : ({ e with stashed := none, queue := rest } : Engine) = e.setQueue rest := by
        simp [Engine.setQueue, hstashed]
      rw [hsame] at hhandle
      exact hhandle

theorem run_controlReply (cfg : Config) (body : ControlBody) (e : Engine) :
    Program.run (controlReply cfg body) e =
      (.ok ((Program.run (controlBody cfg body) e).1.map fun commandId =>
          ⟨commandId, (Program.run (controlBody cfg body) e).2.current.revision⟩),
        (Program.run (controlBody cfg body) e).2) := rfl

private theorem steps_control (body : ControlBody) :
    Steps cfg (.control body) (Fault cfg (.control body)) e (control cfg body) e.world := by
  have hbody : Chains (Move cfg (.control body)) (Refused cfg (.control body)) e
      (controlBody cfg body) e :=
    steps_controlBody (refused_failing cfg (.control body)) (.refl _) rfl
  have hfault := fault_failing cfg (.control body)
  have hreply := run_controlReply cfg body e
  unfold control
  refine chains_bind_quiet ?_ ?_
  · intro error s hrun
    rw [Engine.inWorld_self, hreply] at hrun
    cases hrun
  · intro reply s hrun
    rw [Engine.inWorld_self, hreply] at hrun
    cases hrun
    rcases hbodyRun : Program.run (controlBody cfg body) e with ⟨error | commandId, e'⟩
    · obtain ⟨e₁, hmoves, hrefused⟩ := hbody.of_error hbodyRun
      refine chains_ite (fun _ => ?_) fun hclean => ?_
      · cases hrefused with
        | clean => exact chains_fail ⟨_, hmoves, hfault.clean _ _⟩
        | unconfirmed hmove => exact chains_fail ⟨_, hmoves, hfault.unconfirmed hmove⟩
      · cases hrefused with
        | clean => exact chains_pure hmoves
        | unconfirmed hmove => exact absurd rfl hclean
    · exact chains_pure (hbody.of_ok hbodyRun)

theorem steps_receiveControl (body : ControlBody) (stage : Stage) :
    Steps cfg (.control body) (Fault cfg (.control body)) e (receiveControl cfg body stage)
      e.world := by
  refine steps_read_bind ?_
  refine steps_ite (fun _ => steps_pure (.refl _)) fun _ => ?_
  exact steps_bind (steps_control body) fun _ _ _ _ => steps_pure (.refl _)

theorem unbound_receiveControl (cfg : Config) (body : ControlBody) (stage : Stage) :
    Keeps Engine.sessionControl (receiveControl cfg body stage) := by
  refine keeps_bind keeps_read fun _ => keeps_ite (keeps_pure _) ?_
  exact keeps_bind (unbound_control cfg body) fun _ => keeps_pure _

end Zhir.Kernel
