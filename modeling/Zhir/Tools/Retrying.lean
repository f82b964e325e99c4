import Zhir.Models.Attempts
import Zhir.Tools.Circuit

/-!
The tool that is tried again.
-/

set_option autoImplicit false
set_option relaxedAutoImplicit false

namespace Zhir.Tools

open Zhir.Core
open Zhir.Library (Trace)
open Zhir.Policies (RetryPolicy)
open Zhir.Models (Attempts Tries TryEvent samplePolicy)

/-- Only a tool that may be started again is tried more than once. -/
structure RetryingTool where
  policy : RetryPolicy
  idempotent : Bool
  safe : 1 < policy.maxAttempts → idempotent = true

namespace RetryingTool

def create (idempotent : Bool) (policy : RetryPolicy) : Result RetryingTool :=
  if h : 1 < policy.maxAttempts ∧ idempotent = false then
    .error (.invalid "retries require an idempotent tool")
  else .ok ⟨policy, idempotent, fun hmany => by
    cases idempotent with
    | true => rfl
    | false => exact absurd ⟨hmany, rfl⟩ h⟩

private theorem create_ok {idempotent : Bool} {policy : RetryPolicy} {tool : RetryingTool}
    (h : create idempotent policy = .ok tool) :
    tool.policy = policy ∧ tool.idempotent = idempotent := by
  unfold create at h
  split at h
  · cases h
  · cases h
    exact ⟨rfl, rfl⟩

def again : Result ToolExecution → Bool
  | .error (.runtimeTool failure) => failure.retryable
  | _ => false

def attempts (tool : RetryingTool) : Attempts ToolExecution := ⟨tool.policy, again, true⟩

end RetryingTool

/-- A tool is started at most as often as its policy has attempts, and once if it may not be started
twice. A further start follows the failure of the last one that may be tried again, after the whole
delay of the policy. The call returns what its last start came to, unless it was cancelled, was late
or had to wait for longer than the clock runs; and it does not panic. -/
theorem tool_retried {idempotent : Bool} {policy : RetryPolicy} {tool : RetryingTool}
    (hnew : RetryingTool.create idempotent policy = .ok tool) {range : Nat}
    {deadline : Option Nat} {labels : List (Nat × TryEvent ToolExecution)}
    {t : Tries ToolExecution}
    (hrun : Trace (tool.attempts.Moves range) (.begin deadline) labels t) :
    labels.countP Attempts.isStart ≤ policy.maxAttempts ∧
      (idempotent = false → labels.countP Attempts.isStart ≤ 1) ∧
      Attempts.Spaced tool.attempts labels ∧
      (∀ result, t.phase = .done result →
        Attempts.Returned tool.attempts range deadline labels result) ∧
      t.phase ≠ .panicked := by
  have hkept := Attempts.kept hrun
  obtain ⟨rfl, rfl⟩ := RetryingTool.create_ok hnew
  refine ⟨hkept.bound, fun hidempotent => ?_, hkept.spaced, hkept.returned, hkept.sane⟩
  by_contra hmany
  have hsafe := tool.safe (Nat.lt_of_lt_of_le (Nat.lt_of_not_le hmany) hkept.bound)
  rw [hidempotent] at hsafe
  cases hsafe

def sampleRetrying : RetryingTool := ⟨samplePolicy, true, fun _ => rfl⟩

def sampleTries : List (Nat × TryEvent ToolExecution) :=
  [(1, .started), (2, .answered (.error (.runtimeTool ⟨"busy", "later", true⟩))), (7, .woken),
    (8, .started), (9, .answered (.ok .active))]

def sampleTried : Option (Tries ToolExecution) :=
  sampleTries.foldlM (sampleRetrying.attempts.step 5000) (.begin (some 100))

theorem tool_retried_sample : sampleTries.countP Attempts.isStart = 2 ∧
    Attempts.Returned sampleRetrying.attempts 5000 (some 100) sampleTries (.ok .active) := by
  have hrun : Trace (sampleRetrying.attempts.Moves 5000) (.begin (some 100)) sampleTries
      (sampleTried.get (by decide +kernel)) :=
    .of_foldlM (fun _ _ _ h => h) (Option.some_get _).symm
  have hnew : RetryingTool.create true samplePolicy = .ok sampleRetrying := rfl
  exact ⟨by decide, (tool_retried hnew hrun).2.2.2.1 (.ok .active) rfl⟩

end Zhir.Tools
