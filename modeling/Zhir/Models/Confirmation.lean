import Zhir.Core.Value

/-!
One remote barrier at a time, with its deadline.
-/

set_option autoImplicit false
set_option relaxedAutoImplicit false

namespace Zhir.Models

open Zhir.Core

structure Confirmation (τ : Type) where
  pending : Option (τ × Nat × String) := none
  deriving DecidableEq, Repr

namespace Confirmation

variable {τ : Type}

def waiting (c : Confirmation τ) : Option τ := c.pending.map Prod.fst

def start (now timeout : Nat) (value : τ) (expected : String) (c : Confirmation τ) :
    Result (Confirmation τ) := do
  require (c.pending.isNone) (.protocol "remote confirmation already pending")
  require (timeout ≠ 0) (.invalid "invalid confirmation timeout")
  return ⟨some (value, now + timeout, expected)⟩

/-- The error shows the pending value as `debug` prints it. -/
def check (debug : τ → String) (now : Nat) (c : Confirmation τ) : Result Unit :=
  match c.pending with
  | some (value, deadline, expected) =>
    if now ≥ deadline then
      .error (.uncertain ("remote confirmation timed out: expected " ++ expected ++ ", pending " ++
        debug value))
    else .ok ()
  | none => .ok ()

def complete (debug : τ → String) (now : Nat) (c : Confirmation τ) :
    Result (τ × Confirmation τ) := do
  c.check debug now
  match c.pending with
  | some (value, _, _) => return (value, ⟨none⟩)
  | none => throw (.protocol "unsolicited remote confirmation")

end Confirmation

end Zhir.Models
