import Mathlib.Data.Option.Basic

/-!
JSON documents and the error values of the core crate. Documents are carried,
compared and occasionally extended by the kernel, never interpreted.
-/

set_option autoImplicit false
set_option relaxedAutoImplicit false

namespace Zhir.Core

/-- The largest `u32`. -/
def maxU32 : Nat := 4294967295

/-- The largest `u64`. -/
def maxU64 : Nat := 18446744073709551615

/-- A JSON document. Numbers keep their literal text; an object keeps its fields
in key order, as `serde_json` maps do. -/
inductive Value
  | null
  | bool (b : Bool)
  | number (literal : String)
  | string (s : String)
  | array (items : List Value)
  | object (fields : List (String × Value))
  deriving Inhabited, Repr

namespace Value

mutual

def same : Value → Value → Bool
  | .null, .null => true
  | .bool a, .bool b => a == b
  | .number a, .number b => a == b
  | .string a, .string b => a == b
  | .array xs, .array ys => sameItems xs ys
  | .object xs, .object ys => sameFields xs ys
  | _, _ => false

def sameItems : List Value → List Value → Bool
  | [], [] => true
  | x :: xs, y :: ys => same x y && sameItems xs ys
  | _, _ => false

def sameFields : List (String × Value) → List (String × Value) → Bool
  | [], [] => true
  | (k, x) :: xs, (l, y) :: ys => k == l && same x y && sameFields xs ys
  | _, _ => false

end

mutual

private theorem same_iff (a b : Value) : same a b = true ↔ a = b := by
  cases a <;> cases b <;> simp [same]
  · exact sameItems_iff _ _
  · exact sameFields_iff _ _

private theorem sameItems_iff (xs ys : List Value) : sameItems xs ys = true ↔ xs = ys := by
  cases xs with
  | nil => cases ys <;> simp [sameItems]
  | cons x xs =>
    cases ys with
    | nil => simp [sameItems]
    | cons y ys => simp [sameItems, same_iff x y, sameItems_iff xs ys]

private theorem sameFields_iff (xs ys : List (String × Value)) :
    sameFields xs ys = true ↔ xs = ys := by
  cases xs with
  | nil => cases ys <;> simp [sameFields]
  | cons x xs =>
    obtain ⟨k, x⟩ := x
    cases ys with
    | nil => simp [sameFields]
    | cons y ys =>
      obtain ⟨l, y⟩ := y
      simp [sameFields, same_iff x y, sameFields_iff xs ys]

end

instance : DecidableEq Value := fun a b => decidable_of_iff _ (same_iff a b)

def isNull : Value → Bool
  | .null => true
  | _ => false

def isObject : Value → Bool
  | .object _ => true
  | _ => false

/-- Insert one field into an object, replacing a field of the same name. -/
def insertField (fields : List (String × Value)) (name : String) (v : Value) :
    List (String × Value) :=
  fields.takeWhile (fun f => decide (f.1 < name)) ++ (name, v) ::
    (fields.dropWhile (fun f => decide (f.1 < name))).filter (fun f => f.1 ≠ name)

/-- The waiting note the kernel stores beside an operation of unknown outcome. -/
def reason (text : String) : Value := .object [("reason", .string text)]

end Value

structure Failure where
  code : String
  message : String
  retryable : Bool := false
  deriving DecidableEq, Repr

/-- `error::Error`. `arguments` stands for the validation, catalog and context
families, whose values are only ever reported by their text, as are `resume` and
`resource`. -/
inductive Error
  | arguments (message : String)
  | resume (message : String)
  | resource (message : String)
  | invalid (message : String)
  | model (failure : Failure)
  | runtimeTool (failure : Failure)
  | uncertain (message : String)
  | protocol (message : String)
  | storage (message : String)
  | conflict (expected actual : Option Nat)
  | deadline
  | cancelled
  deriving DecidableEq, Repr

abbrev Result (α : Type) := Except Error α

/-- Fail with an error unless a condition holds. -/
def require (c : Prop) [Decidable c] (error : Error) : Result Unit :=
  if c then .ok () else .error error

theorem require_ok {c : Prop} [Decidable c] {error : Error} {u : Unit}
    (h : require c error = .ok u) : c := by
  unfold require at h
  split at h
  · assumption
  · cases h

/-- `Cancellation::check`, where the flag is as given. -/
def checkCancelled (cancelled : Bool) : Result Unit := require (cancelled = false) .cancelled

theorem Result.bind_ok {α β : Type} {r : Result α} {f : α → Result β} {b : β}
    (h : (r >>= f) = .ok b) : ∃ a, r = .ok a ∧ f a = .ok b := by
  cases r with
  | error error => cases h
  | ok a => exact ⟨a, rfl, h⟩

theorem Result.bind_of_ok {α β : Type} {r : Result α} {f : α → Result β} {a : α} {b : β}
    (hr : r = .ok a) (hf : f a = .ok b) : (r >>= f) = .ok b := by
  rw [hr]
  exact hf

theorem Result.exists_ok {α : Type} {r : Result α} {p : α → Bool}
    (h : r.toOption.any p = true) : ∃ a, r = .ok a ∧ p a = true := by
  cases r with
  | error error => cases h
  | ok a => exact ⟨a, rfl, h⟩

theorem Result.eq_ok_get {α : Type} {r : Result α} (h : r.toOption.isSome = true) :
    r = .ok (r.toOption.get h) := by
  cases r with
  | error error => cases h
  | ok a => rfl

namespace Error

/-- Infrastructure failures: the durable head is not known to be the current one. -/
def infrastructure : Error → Bool
  | .storage _ => true
  | .conflict _ _ => true
  | _ => false

private def debugFailure (f : Failure) : String :=
  "Failure \x7b code: \"" ++ f.code ++ "\", message: \"" ++ f.message ++ "\", retryable: " ++
    (if f.retryable then "true" else "false") ++ " \x7d"

private def debugRevision : Option Nat → String
  | none => "None"
  | some n => "Some(" ++ toString n ++ ")"

/-- `Display`; quoted texts are shown without escapes. -/
def text : Error → String
  | .arguments m => m
  | .resume m => m
  | .resource m => m
  | .invalid m => "invalid request: " ++ m
  | .model f => "model: " ++ debugFailure f
  | .runtimeTool f => "tool: " ++ debugFailure f
  | .uncertain m => "external outcome is uncertain: " ++ m
  | .protocol m => "protocol: " ++ m
  | .storage m => "storage: " ++ m
  | .conflict e a =>
    "revision conflict: expected " ++ debugRevision e ++ ", actual " ++ debugRevision a
  | .deadline => "operation deadline reached"
  | .cancelled => "operation cancelled"

def failure : Error → Failure
  | .model f => f
  | .runtimeTool f => f
  | .invalid s => ⟨"invalid_arguments", s, false⟩
  | .arguments s => ⟨"invalid_arguments", s, false⟩
  | .resume s => ⟨"resume", s, false⟩
  | .protocol s => ⟨"protocol", s, false⟩
  | .deadline => ⟨"deadline", "operation deadline reached", false⟩
  | .cancelled => ⟨"cancelled", "operation cancelled", false⟩
  | e => ⟨"infrastructure", e.text, false⟩

end Error

end Zhir.Core
