import Zhir.Core.Value

/-!
JSON pointers into documents, as `serde_json` resolves them.
-/

set_option autoImplicit false
set_option relaxedAutoImplicit false

namespace Zhir.Core.Value

/-- Replace every pair `a b`, from left to right. -/
def replacePair (a b by' : Char) : List Char → List Char
  | x :: y :: rest =>
    if x = a ∧ y = b then by' :: replacePair a b by' rest
    else x :: replacePair a b by' (y :: rest)
  | chars => chars

/-- One token: first `~1`, then `~0`. -/
def unescape (token : List Char) : String :=
  String.ofList (replacePair '~' '0' '~' (replacePair '~' '1' '/' token))

/-- The tokens of a pointer, or nothing where it does not start with a slash. -/
def tokens (pointer : String) : Option (List String) :=
  match pointer.toList with
  | [] => some []
  | '/' :: rest => some ((rest.splitOn '/').map unescape)
  | _ => none

/-- A decimal that fits a `usize`, without sign or leading zeros. -/
def parseIndex (token : String) : Option Nat :=
  let digits := token.toList
  if digits = [] ∨ ¬ digits.all Char.isDigit ∨ (digits.head? = some '0' ∧ digits.length ≠ 1) then
    none
  else
    let n := digits.foldl (fun n c => 10 * n + (c.toNat - '0'.toNat)) 0
    if n ≤ maxU64 then some n else none

/-- `value.get(name)` on an object. -/
def field (name : String) : Value → Option Value
  | .object fields => fields.lookup name
  | _ => none

def child (token : String) : Value → Option Value
  | .object fields => fields.lookup token
  | .array items => (parseIndex token).bind fun i => items[i]?
  | _ => none

def setField (name : String) (w : Value) : List (String × Value) → List (String × Value)
  | [] => []
  | (k, v) :: rest => if k = name then (k, w) :: rest else (k, v) :: setField name w rest

def setChild (token : String) : Value → Value → Value
  | .object fields, w => .object (setField token w fields)
  | .array items, w =>
    match parseIndex token with
    | some i => .array (items.set i w)
    | none => .array items
  | v, _ => v

/-- `pointer`, on tokens. -/
def pointer : List String → Value → Option Value
  | [], v => some v
  | token :: rest, v => (v.child token).bind (pointer rest)

/-- Assignment through `pointer_mut`. -/
def setPointer : List String → Value → Value → Value
  | [], _, w => w
  | token :: rest, v, w =>
    match v.child token with
    | some x => v.setChild token (x.setPointer rest w)
    | none => v

theorem pointer_cons {token : String} {rest : List String} {v y : Value}
    (h : v.pointer (token :: rest) = some y) :
    ∃ x, v.child token = some x ∧ x.pointer rest = some y :=
  Option.bind_eq_some_iff.mp h

theorem setPointer_cons {token : String} {rest : List String} {v x : Value} (w : Value)
    (h : v.child token = some x) :
    v.setPointer (token :: rest) w = v.setChild token (x.setPointer rest w) := by
  simp only [setPointer, h]

theorem lookup_setField {name : String} {w x : Value} {fields : List (String × Value)}
    (h : fields.lookup name = some x) (other : String) :
    (setField name w fields).lookup other =
      if other = name then some w else fields.lookup other := by
  induction fields with
  | nil => cases h
  | cons f rest ih =>
    obtain ⟨k, v⟩ := f
    by_cases hk : k = name
    · subst hk
      by_cases ho : other = k
      · simp [setField, ho]
      · have hne : (other == k) = false := beq_eq_false_iff_ne.mpr ho
        simp [setField, List.lookup_cons, ho, hne]
    · have hne : (name == k) = false := beq_eq_false_iff_ne.mpr (Ne.symm hk)
      have hrest : rest.lookup name = some x := by
        simpa [List.lookup_cons, hne] using h
      by_cases ho : other = k
      · subst ho
        simp [setField, hk]
      · have hne' : (other == k) = false := beq_eq_false_iff_ne.mpr ho
        simp [setField, hk, List.lookup_cons, hne', ih hrest]

example : tokens "/items/0/a~1b" = some ["items", "0", "a/b"] := by decide +kernel

end Zhir.Core.Value
