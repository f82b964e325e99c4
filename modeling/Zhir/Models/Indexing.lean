import Mathlib.Data.List.Induction
import Mathlib.Data.String.Basic
import Zhir.Library.Entries
import Zhir.Models.Pointer

/-!
Assignment through an index into a document, which panics where `serde_json` does.
-/

set_option autoImplicit false
set_option relaxedAutoImplicit false

namespace Zhir.Models

open Zhir.Core

/-- How a call ends without a value: by an error it returns, or in a panic. -/
inductive Fault
  | error (error : Error)
  | panic
  deriving DecidableEq, Repr

abbrev Checked (α : Type) := Except Fault α

def refuse {α : Type} (error : Error) : Checked α := .error (.error error)

theorem Checked.bind_ok {α β : Type} {r : Checked α} {f : α → Checked β} {b : β}
    (h : (r >>= f) = .ok b) : ∃ a, r = .ok a ∧ f a = .ok b := by
  cases r with
  | error fault => cases h
  | ok a => exact ⟨a, rfl, h⟩

end Zhir.Models

namespace Zhir.Core.Value

open Zhir.Library (Ascending insertKey lastValue lastValue_append lookup_insertKey_of_ne
  lookup_insertKey_self)
open Zhir.Models (Fault Checked)

/-- The values an index by a name can be assigned through: objects, and `null`, which
becomes one. -/
def Indexable : Value → Prop
  | .object _ => True
  | .null => True
  | _ => False

instance (v : Value) : Decidable v.Indexable := by
  cases v <;> unfold Indexable <;> infer_instance

/-- A change behind `&mut value[name]`; a field that is missing starts as `null`. -/
def modifyField (v : Value) (name : String) (change : Value → Checked Value) : Checked Value :=
  match v with
  | .object fields => do
    let w ← change ((fields.lookup name).getD .null)
    return .object (insertField fields name w)
  | .null => do
    let w ← change .null
    return .object [(name, w)]
  | _ => .error .panic

/-- A change behind `&mut value[i]`. -/
def modifyItem (v : Value) (i : Nat) (change : Value → Checked Value) : Checked Value :=
  match v with
  | .array items =>
    match items[i]? with
    | some item => do
      let w ← change item
      return .array (items.set i w)
    | none => .error .panic
  | _ => .error .panic

/-- `value[name] = w`. -/
def assign (v : Value) (name : String) (w : Value) : Checked Value :=
  v.modifyField name fun _ => .ok w

private theorem lookup_insertField (fields : List (String × Value)) (name : String) (w : Value)
    (other : String) : (insertField fields name w).lookup other =
      if other = name then some w else fields.lookup other := by
  change (insertKey fields name w).lookup other = _
  by_cases h : other = name
  · subst h
    rw [if_pos rfl]
    exact lookup_insertKey_self String.lt_irrefl fields other w
  · rw [if_neg h]
    exact lookup_insertKey_of_ne h fields w

theorem modifyField_ok {name : String} {change : Value → Checked Value} {v v' : Value}
    (h : v.modifyField name change = .ok v') :
    v.Indexable ∧ ∃ w, change ((v.field name).getD .null) = .ok w ∧ v'.isObject = true ∧
      ∀ other, v'.field other = if other = name then some w else v.field other := by
  cases v with
  | object fields =>
    obtain ⟨w, hw, h⟩ := Zhir.Models.Checked.bind_ok h
    cases h
    exact ⟨trivial, w, hw, rfl, lookup_insertField fields name w⟩
  | null =>
    obtain ⟨w, hw, h⟩ := Zhir.Models.Checked.bind_ok h
    cases h
    refine ⟨trivial, w, hw, rfl, fun other => ?_⟩
    change List.lookup other [(name, w)] = _
    rw [List.lookup_cons]
    by_cases hother : other = name
    · rw [if_pos hother, beq_iff_eq.mpr hother]
    · rw [if_neg hother, beq_eq_false_iff_ne.mpr hother]
      rfl
  | bool b => cases h
  | number literal => cases h
  | string s => cases h
  | array items => cases h

theorem modifyField_error_iff {name : String} {change : Value → Checked Value} {v : Value}
    {fault : Fault} : v.modifyField name change = .error fault ↔
      (¬ v.Indexable ∧ fault = .panic) ∨
        (v.Indexable ∧ change ((v.field name).getD .null) = .error fault) := by
  cases v with
  | object fields =>
    change ((change ((fields.lookup name).getD .null)) >>= _) = _ ↔ _
    change _ ↔ (¬ True ∧ _) ∨ (True ∧ change ((fields.lookup name).getD .null) = _)
    cases change ((fields.lookup name).getD .null) <;> simp [bind, Except.bind, pure, Except.pure]
  | null =>
    change ((change .null) >>= _) = _ ↔ _
    change _ ↔ (¬ True ∧ _) ∨ (True ∧ change .null = _)
    cases change .null <;> simp [bind, Except.bind, pure, Except.pure]
  | bool b => simp [modifyField, Indexable, eq_comm]
  | number literal => simp [modifyField, Indexable, eq_comm]
  | string s => simp [modifyField, Indexable, eq_comm]
  | array items => simp [modifyField, Indexable, eq_comm]

theorem indexable_of_isObject {v : Value} (h : v.isObject = true) : v.Indexable := by
  cases v with
  | object fields => trivial
  | _ => cases h

theorem assign_ok {name : String} {w v v' : Value} (h : v.assign name w = .ok v') :
    v.Indexable ∧ v'.isObject = true ∧
      ∀ other, v'.field other = if other = name then some w else v.field other := by
  obtain ⟨hindex, w', hw, hobject, hfield⟩ := modifyField_ok h
  cases hw
  exact ⟨hindex, hobject, hfield⟩

theorem assign_error_iff {name : String} {w v : Value} {fault : Fault} :
    v.assign name w = .error fault ↔ ¬ v.Indexable ∧ fault = .panic := by
  unfold assign
  rw [modifyField_error_iff]
  simp

theorem exists_assign {v : Value} (h : v.Indexable) (name : String) (w : Value) :
    ∃ v', v.assign name w = .ok v' ∧ v'.isObject = true ∧
      ∀ other, v'.field other = if other = name then some w else v.field other := by
  cases hset : v.assign name w with
  | error fault => exact absurd h (assign_error_iff.mp hset).1
  | ok v' => exact ⟨v', rfl, (assign_ok hset).2⟩

theorem foldlM_assign {v : Value} (h : v.Indexable) (fields : List (String × Value)) :
    ∃ v', fields.foldlM (fun v f => v.assign f.1 f.2) v = .ok v' ∧ v'.Indexable ∧
      (v.isObject = true → v'.isObject = true) ∧
      ∀ name, v'.field name = (lastValue name fields).or (v.field name) := by
  induction fields using List.reverseRecOn with
  | nil => exact ⟨v, rfl, h, id, fun name => rfl⟩
  | append_singleton before f ih =>
    obtain ⟨u, hu, hindex, -, hfield⟩ := ih
    obtain ⟨v', hv', hobject, hfield'⟩ := exists_assign hindex f.1 f.2
    refine ⟨v', ?_, indexable_of_isObject hobject, fun _ => hobject, fun name => ?_⟩
    · rw [List.foldlM_append, hu]
      change ([f].foldlM (fun v f => v.assign f.1 f.2) u) = _
      rw [List.foldlM_cons, hv']
      rfl
    · rw [hfield', lastValue_append, hfield]
      split
      · rfl
      · rfl

theorem foldlM_assign_error_iff {v : Value} {fields : List (String × Value)} {fault : Fault} :
    fields.foldlM (fun v f => v.assign f.1 f.2) v = .error fault ↔
      fields ≠ [] ∧ ¬ v.Indexable ∧ fault = .panic := by
  by_cases h : v.Indexable
  · obtain ⟨v', hv', -⟩ := foldlM_assign h fields
    rw [hv']
    simp [h]
  · cases fields with
    | nil =>
      constructor
      · intro hnil
        cases hnil
      · rintro ⟨hne, -⟩
        exact absurd rfl hne
    | cons f rest =>
      rw [List.foldlM_cons, assign_error_iff.mpr ⟨h, rfl⟩]
      constructor
      · intro hfault
        cases hfault
        exact ⟨List.cons_ne_nil _ _, h, rfl⟩
      · rintro ⟨-, -, rfl⟩
        rfl

def Canonical (v : Value) : Prop := ∃ fields, v = .object fields ∧ Ascending fields

theorem Canonical.isObject {v : Value} (h : v.Canonical) : v.isObject = true := by
  obtain ⟨fields, rfl, -⟩ := h
  rfl

theorem Canonical.indexable {v : Value} (h : v.Canonical) : v.Indexable :=
  indexable_of_isObject h.isObject

theorem Canonical.ext {v w : Value} (hv : v.Canonical) (hw : w.Canonical)
    (h : ∀ name, v.field name = w.field name) : v = w := by
  obtain ⟨xs, rfl, hxs⟩ := hv
  obtain ⟨ys, rfl, hys⟩ := hw
  exact congrArg Value.object (hxs.ext hys h)

theorem Canonical.modifyField {v v' : Value} {name : String} {change : Value → Checked Value}
    (hv : v.Canonical) (h : v.modifyField name change = .ok v') : v'.Canonical := by
  obtain ⟨fields, rfl, hfields⟩ := hv
  obtain ⟨w, -, h⟩ := Zhir.Models.Checked.bind_ok h
  cases h
  exact ⟨_, rfl, hfields.insertKey name w⟩

theorem Canonical.foldlM_assign {v : Value} (hv : v.Canonical) (fields : List (String × Value)) :
    ∃ v', fields.foldlM (fun v f => v.assign f.1 f.2) v = .ok v' ∧ v'.Canonical ∧
      ∀ name, v'.field name = (lastValue name fields).or (v.field name) := by
  obtain ⟨v', hv', -, -, hfield⟩ := Value.foldlM_assign hv.indexable fields
  refine ⟨v', hv', ?_, hfield⟩
  clear hfield
  induction fields generalizing v with
  | nil =>
    cases hv'
    exact hv
  | cons f rest ih =>
    rw [List.foldlM_cons] at hv'
    obtain ⟨u, hu, hv'⟩ := Zhir.Models.Checked.bind_ok hv'
    exact ih (hv.modifyField hu) hv'

end Zhir.Core.Value
