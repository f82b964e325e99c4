import Mathlib.Algebra.GroupWithZero.Nat
import Zhir.Core.Value

/-!
How often a call is tried again, and after which delay.
-/

set_option autoImplicit false
set_option relaxedAutoImplicit false

namespace Zhir.Policies

open Zhir.Core

/-- `Duration::MAX`, in nanoseconds. -/
def maxDuration : Nat := (2 ^ 64 - 1) * 1000000000 + 999999999

structure Duration where
  nanos : Nat
  bounded : nanos ≤ maxDuration

namespace Duration

def max (a b : Duration) : Duration := if a.nanos ≤ b.nanos then b else a

end Duration

abbrev Backoff := Nat → Duration

namespace Backoff

def fixed (delay : Duration) : Backoff := fun _ => delay

end Backoff

structure RetryPolicy where
  maxAttempts : Nat
  backoff : Backoff
  positive : 0 < maxAttempts

namespace RetryPolicy

def delayAfter (p : RetryPolicy) (failedAttempt : Nat) : Option Duration :=
  if 0 < failedAttempt ∧ failedAttempt < p.maxAttempts then some (p.backoff failedAttempt)
  else none

theorem delayAfter_some {p : RetryPolicy} {failedAttempt : Nat} {delay : Duration}
    (h : p.delayAfter failedAttempt = some delay) :
    failedAttempt < p.maxAttempts ∧ delay = p.backoff failedAttempt := by
  unfold delayAfter at h
  split at h
  · next hattempt => exact ⟨hattempt.2, (Option.some.inj h).symm⟩
  · cases h

end RetryPolicy

end Zhir.Policies
