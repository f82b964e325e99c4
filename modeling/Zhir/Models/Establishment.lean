import Zhir.Models.Attempts

/-!
The model whose sessions are opened again where that may be.
-/

set_option autoImplicit false
set_option relaxedAutoImplicit false

namespace Zhir.Models

open Zhir.Core
open Zhir.Library (Trace)
open Zhir.Policies (RetryPolicy)

structure EstablishmentRetryModel where
  policy : RetryPolicy

namespace EstablishmentRetryModel

variable {Session : Type}

/-- A session that is resumed by its `recovery` reference is not opened again. -/
def again (recovery : Bool) : Result Session → Bool
  | .error (.model failure) => failure.retryable && !recovery
  | _ => false

def attempts (model : EstablishmentRetryModel) (recovery : Bool) : Attempts Session :=
  ⟨model.policy, again recovery, false⟩

private theorem again_recovery (result : Result Session) : again true result = false := by
  unfold again
  split
  · rw [Bool.not_true, Bool.and_false]
  · rfl

end EstablishmentRetryModel

/-- A session is opened at most as often as the policy has attempts, and once if it is resumed. It
is opened again only after a failure of the model that may be retried and after the whole delay of
the policy. What the call returns is what it was last answered, unless it was cancelled, was late or
had to wait for longer than the clock runs; and it does not panic. -/
theorem opening_retried {Session : Type} (model : EstablishmentRetryModel) (recovery : Bool)
    {range : Nat} {deadline : Option Nat} {labels : List (Nat × TryEvent Session)}
    {t : Tries Session}
    (hrun : Trace ((model.attempts recovery).Moves range) (.begin deadline) labels t) :
    labels.countP Attempts.isStart ≤ model.policy.maxAttempts ∧
      (recovery = true → labels.countP Attempts.isStart ≤ 1) ∧
      Attempts.Spaced (model.attempts recovery) labels ∧
      (∀ result, t.phase = .done result →
        Attempts.Returned (model.attempts recovery) range deadline labels result) ∧
      t.phase ≠ .panicked := by
  have hkept := Attempts.kept hrun
  refine ⟨hkept.bound, ?_, hkept.spaced, hkept.returned, hkept.sane⟩
  rintro rfl
  exact hkept.spaced.once EstablishmentRetryModel.again_recovery

def sampleEstablishing : List (Nat × TryEvent Unit) :=
  [(1, .started), (2, .answered (.error (.model ⟨"busy", "later", true⟩))), (7, .woken),
    (8, .started), (9, .answered (.ok ()))]

def sampleEstablished : Option (Tries Unit) :=
  sampleEstablishing.foldlM
    ((EstablishmentRetryModel.attempts ⟨samplePolicy⟩ false).step 5000) (.begin none)

theorem opening_retried_sample : sampleEstablishing.countP Attempts.isStart = 2 ∧
    Attempts.Returned (EstablishmentRetryModel.attempts ⟨samplePolicy⟩ false) 5000 none
      sampleEstablishing (.ok ()) := by
  have hrun : Trace ((EstablishmentRetryModel.attempts ⟨samplePolicy⟩ false).Moves 5000)
      (.begin none) sampleEstablishing (sampleEstablished.get (by decide +kernel)) :=
    .of_foldlM (fun _ _ _ h => h) (Option.some_get _).symm
  exact ⟨by decide, (opening_retried ⟨samplePolicy⟩ false hrun).2.2.2.1 (.ok ()) rfl⟩

end Zhir.Models
