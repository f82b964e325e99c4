import Zhir.Kernel.Commits
import Zhir.Policies.HistoryWindow

/-!
History windows over the checkpoints of a run.
-/

set_option autoImplicit false
set_option relaxedAutoImplicit false

namespace Zhir.Kernel

open Zhir.Core
open Zhir.Policies (HistoryWindow kept)
open Zhir.Policies.HistoryWindow (Closed reduce_cases)

variable {cfg : Config}

/-- Whatever checkpoint of a run it is asked for, a window without a callback declines, or
starts at the last user turn asked for: then it returns that history if every result in it
has its call, and refuses otherwise. -/
theorem window_reduces {s : System} (hs : Reachable cfg s) {c : Checkpoint}
    (hc : c ∈ s.world.durable) {w : HistoryWindow} (hw : w.dependencies = none) :
    w.reduce c = .ok none ∨
    ∃ first turn, c.history.entries[first]? = some turn ∧ turn.message.isUser = true ∧
      (c.history.entries.drop first).countP (fun e => e.message.isUser) = w.turns ∧
      (Closed (kept first c.history.entries) ∧
        (∃ history, History.fromEntries (kept first c.history.entries) = .ok history ∧
          history.validate = .ok ()) ∧
        w.reduce c = .ok (some ⟨kept first c.history.entries,
          "retain last " ++ toString w.turns ++ " complete user turns"⟩) ∨
      ¬ Closed (kept first c.history.entries) ∧
        ∃ violation, w.reduce c = .error (.invalid violation)) :=
  reduce_cases hw ((validated_inductive cfg).reachable hs (fun _ _ => trivial) c hc)
    ((entries_inductive cfg).reachable hs (fun _ _ => trivial) c hc)

def sampleWindow : HistoryWindow := ⟨1, Nat.one_ne_zero, none⟩

def sampleWindowConfig : Config :=
  { sampleConfig with historyReducer := some fun _ c => sampleWindow.reduce c }

def sampleInteractive : RunOptions := { sampleOptions sampleLimits with mode := .interactive }

/-- The tool returns after the next input; the response ends and everything is acknowledged. -/
def sampleCrossing : List Action :=
  sampleOpening sampleInteractive ++ sampleStarted "look" ++
  [.control (.input (.user [.text "more"]) "host"), .pass,
    .task 2 (.returned (.ok (.finished (.cancelled "late")))), .work, .pass, .pass,
    .task 1 (.submitted (.ok ())), .work, .pass, .pass] ++
  sampleEvent 4 (.acknowledged (sampleName 'i' 11) none) ++
  [.task 1 (.submitted (.ok ())), .task 1 (.submitted (.ok ())), .work, .pass] ++
  sampleEvent 5 (.acknowledged (sampleName 'i' 13) none) ++
  sampleEvent 6 (.acknowledged (sampleName 'i' 14) none) ++
  sampleEvent 7 (.responseFinished
    ⟨sampleGeneration, 0, .continuation, {}, none, none, none, .null, []⟩) ++
  [.task 1 (.submitted (.ok ())), .work, .pass] ++
  [.task 0 (.model (.ok (some ⟨8, .acknowledged (sampleName 'i' 22) none⟩))), .work]

def sampleCrossed : System := System.run sampleWindowConfig (.idle .start) sampleCrossing

def sampleCrossedHead : Checkpoint := sampleCrossed.head (by decide +kernel)

/-- Of a run that has two user turns the last one cannot be kept: the result in it answers a call
made before. -/
theorem crossing_reduces :
    ∃ first turn, sampleCrossedHead.history.entries[first]? = some turn ∧
      turn.message.isUser = true ∧
      (sampleCrossedHead.history.entries.drop first).countP (fun e => e.message.isUser) = 1 ∧
      ¬ Closed (kept first sampleCrossedHead.history.entries) ∧
      ∃ violation, sampleWindow.reduce sampleCrossedHead = .error (.invalid violation) := by
  have hrefused : sampleWindow.reduce sampleCrossedHead =
      .error (.invalid "tool result has no pending call") := by decide +kernel
  have hdurable : sampleCrossedHead ∈ sampleCrossed.world.durable :=
    sampleCrossed.head_mem (by decide +kernel)
  obtain hdeclined | ⟨first, turn, hturn, huser, hcount, hkept⟩ :=
    window_reduces ⟨sampleCrossing, rfl⟩ hdurable (w := sampleWindow) rfl
  · rw [hrefused] at hdeclined
    cases hdeclined
  · refine ⟨first, turn, hturn, huser, hcount, ?_⟩
    obtain ⟨-, -, hreduced⟩ | hopen := hkept
    · rw [hrefused] at hreduced
      cases hreduced
    · exact hopen

/-- The next pass asks the reducer, whose error ends the run. -/
theorem crossing_fails_run :
    reducible sampleCrossedHead = true ∧
    sampleWindow.reduce sampleCrossedHead =
      .error (.invalid "tool result has no pending call") ∧
    (sampleCrossed.step sampleWindowConfig .pass).world.head.map Checkpoint.state =
      some (.failed ⟨"invalid_arguments", "tool result has no pending call", false⟩) := by
  decide +kernel

end Zhir.Kernel
