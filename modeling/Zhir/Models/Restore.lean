import Mathlib.Data.List.Forall2
import Zhir.Models.Resources

/-!
What resolving makes of a document, apart from budgets: markers become the payloads they stand
for, everything else stays.
-/

set_option autoImplicit false
set_option relaxedAutoImplicit false

namespace Zhir.Models

open Zhir.Core

section

variable {σ : Type} (store : ResourceStore σ) (s : σ)

def bytesOf (r : ResourceRef) : Option (List UInt8) :=
  match r.validate, store.read r s with
  | .ok _, .ok bytes => some bytes
  | _, _ => none

mutual

def restore : Value → Option Value
  | .object fields =>
    match fields.lookup markerKey with
    | some reference =>
      if fields.length ≠ 1 then none
      else (refOfValue reference).bind fun r => (bytesOf store s r).map fun b => .string (base64 b)
    | none => (restoreFields fields).map .object
  | .array items => (restoreItems items).map .array
  | v => some v

def restoreItems : List Value → Option (List Value)
  | [] => some []
  | v :: rest => (restore v).bind fun v => (restoreItems rest).map fun rest => v :: rest

def restoreFields : List (String × Value) → Option (List (String × Value))
  | [] => some []
  | (name, v) :: rest =>
    (restore v).bind fun v => (restoreFields rest).map fun rest => (name, v) :: rest

end

end

mutual

def plain : Value → Bool
  | .object fields => (fields.lookup markerKey).isNone && plainFields fields
  | .array items => plainItems items
  | _ => true

def plainItems : List Value → Bool
  | [] => true
  | v :: rest => plain v && plainItems rest

def plainFields : List (String × Value) → Bool
  | [] => true
  | (_, v) :: rest => plain v && plainFields rest

end

section

variable {σ : Type} {store : ResourceStore σ} {s : σ}

theorem restoreItems_iff {items ws : List Value} : restoreItems store s items = some ws ↔
    List.Forall₂ (fun x y => restore store s x = some y) items ws := by
  induction items generalizing ws with
  | nil => simp [restoreItems, eq_comm]
  | cons v rest ih =>
    simp only [restoreItems, Option.bind_eq_some_iff, Option.map_eq_some_iff, ih,
      List.forall₂_cons_left_iff]
    constructor
    · rintro ⟨w, hw, us, hus, rfl⟩
      exact ⟨w, us, hw, hus, rfl⟩
    · rintro ⟨w, us, hw, hus, rfl⟩
      exact ⟨w, hw, us, hus, rfl⟩

def FieldRestores (store : ResourceStore σ) (s : σ) (f g : String × Value) : Prop :=
  f.1 = g.1 ∧ restore store s f.2 = some g.2

theorem restoreFields_iff {fields gs : List (String × Value)} :
    restoreFields store s fields = some gs ↔
      List.Forall₂ (FieldRestores store s) fields gs := by
  induction fields generalizing gs with
  | nil => simp [restoreFields, eq_comm]
  | cons f rest ih =>
    obtain ⟨name, v⟩ := f
    simp only [restoreFields, Option.bind_eq_some_iff, Option.map_eq_some_iff, ih,
      List.forall₂_cons_left_iff]
    constructor
    · rintro ⟨w, hw, us, hus, rfl⟩
      exact ⟨(name, w), us, ⟨rfl, hw⟩, hus, rfl⟩
    · rintro ⟨⟨_, w⟩, us, ⟨rfl, hw⟩, hus, rfl⟩
      exact ⟨w, hw, us, hus, rfl⟩

private theorem lookup_restored {fields gs : List (String × Value)}
    (h : List.Forall₂ (FieldRestores store s) fields gs) {name : String} {x : Value}
    (hx : fields.lookup name = some x) :
    ∃ y, gs.lookup name = some y ∧ restore store s x = some y := by
  induction h with
  | nil => cases hx
  | @cons f g fields gs hfg _ ih =>
    obtain ⟨k, v⟩ := f
    obtain ⟨k', w⟩ := g
    obtain ⟨rfl, hw⟩ : k = k' ∧ restore store s v = some w := hfg
    by_cases hk : name = k
    · subst hk
      obtain rfl : v = x := by simpa using hx
      exact ⟨w, by simp, hw⟩
    · have hne : (name == k) = false := beq_eq_false_iff_ne.mpr hk
      rw [List.lookup_cons, hne] at hx ⊢
      exact ih hx

private theorem lookup_restored_none {fields gs : List (String × Value)}
    (h : List.Forall₂ (FieldRestores store s) fields gs) {name : String}
    (hnone : fields.lookup name = none) : gs.lookup name = none := by
  induction h with
  | nil => rfl
  | @cons f g fields gs hfg _ ih =>
    obtain ⟨k, v⟩ := f
    obtain ⟨k', w⟩ := g
    obtain ⟨rfl, -⟩ : k = k' ∧ restore store s v = some w := hfg
    by_cases hk : name = k
    · subst hk
      simp at hnone
    · have hne : (name == k) = false := beq_eq_false_iff_ne.mpr hk
      rw [List.lookup_cons, hne] at hnone ⊢
      exact ih hnone

private theorem setField_restored {fields gs : List (String × Value)} {name : String} {x x' : Value}
    (h : List.Forall₂ (FieldRestores store s) fields gs) (hx : fields.lookup name = some x)
    (hsame : restore store s x' = restore store s x) :
    List.Forall₂ (FieldRestores store s) (Value.setField name x' fields) gs := by
  induction h with
  | nil => cases hx
  | @cons f g fields gs hfg hrest ih =>
    obtain ⟨k, v⟩ := f
    by_cases hk : k = name
    · subst hk
      obtain rfl : v = x := by simpa using hx
      simp only [Value.setField, if_true]
      exact .cons ⟨hfg.1, hsame.trans hfg.2⟩ hrest
    · have hne : (name == k) = false := beq_eq_false_iff_ne.mpr (Ne.symm hk)
      simp only [Value.setField, hk, if_false]
      exact .cons hfg (ih (by simpa [List.lookup_cons, hne] using hx))

private theorem set_restored {items ws : List Value} {i : Nat} {x x' : Value}
    (h : List.Forall₂ (fun x y => restore store s x = some y) items ws)
    (hx : items[i]? = some x) (hsame : restore store s x' = restore store s x) :
    List.Forall₂ (fun x y => restore store s x = some y) (items.set i x') ws := by
  induction h generalizing i with
  | nil => simp at hx
  | cons hfirst hrest ih =>
    cases i with
    | zero =>
      obtain rfl : _ = x := by simpa using hx
      exact .cons (hsame.trans hfirst) hrest
    | succ i => exact .cons hfirst (ih (by simpa using hx))

private theorem getElem?_restored {items ws : List Value} {i : Nat} {x : Value}
    (h : List.Forall₂ (fun x y => restore store s x = some y) items ws)
    (hx : items[i]? = some x) : ∃ y, ws[i]? = some y ∧ restore store s x = some y := by
  induction h generalizing i with
  | nil => simp at hx
  | @cons a b _ _ hfirst _ ih =>
    cases i with
    | zero =>
      obtain rfl : a = x := by simpa using hx
      exact ⟨b, rfl, hfirst⟩
    | succ i => exact ih (by simpa using hx)

theorem restore_object {fields : List (String × Value)} {w : Value}
    (h : restore store s (.object fields) = some w) (hplain : fields.lookup markerKey = none) :
    ∃ gs, w = .object gs ∧ List.Forall₂ (FieldRestores store s) fields gs := by
  simp only [restore, hplain, Option.map_eq_some_iff] at h
  obtain ⟨gs, hgs, rfl⟩ := h
  exact ⟨gs, rfl, restoreFields_iff.mp hgs⟩

theorem restore_array {items : List Value} {w : Value}
    (h : restore store s (.array items) = some w) :
    ∃ ws, w = .array ws ∧ List.Forall₂ (fun x y => restore store s x = some y) items ws := by
  simp only [restore, Option.map_eq_some_iff] at h
  obtain ⟨ws, hws, rfl⟩ := h
  exact ⟨ws, rfl, restoreItems_iff.mp hws⟩

theorem restore_child {v w x : Value} {token : String} (h : restore store s v = some w)
    (hplain : v.field markerKey = none) (hx : v.child token = some x) :
    ∃ y, w.child token = some y ∧ restore store s x = some y := by
  cases v with
  | object fields =>
    obtain ⟨gs, rfl, hfields⟩ := restore_object h hplain
    exact lookup_restored hfields hx
  | array items =>
    obtain ⟨ws, rfl, hitems⟩ := restore_array h
    obtain ⟨i, hi, hx⟩ := Option.bind_eq_some_iff.mp hx
    obtain ⟨y, hy, hrestored⟩ := getElem?_restored hitems hx
    exact ⟨y, by simp [Value.child, hi, hy], hrestored⟩
  | _ => cases hx

theorem restore_setChild {v w x x' : Value} {token : String}
    (h : restore store s v = some w)
    (hplain : v.field markerKey = none) (hx : v.child token = some x)
    (hsame : restore store s x' = restore store s x) :
    restore store s (v.setChild token x') = some w := by
  cases v with
  | object fields =>
    obtain ⟨gs, rfl, hfields⟩ := restore_object h hplain
    have hset := restoreFields_iff.mpr (setField_restored hfields hx hsame)
    have hne : token ≠ markerKey := by
      rintro rfl
      cases hplain.symm.trans hx
    have hlookup : (Value.setField token x' fields).lookup markerKey = none := by
      rw [Value.lookup_setField hx, if_neg (Ne.symm hne)]
      exact hplain
    simp only [Value.setChild, restore, hlookup, hset, Option.map_some]
  | array items =>
    obtain ⟨ws, rfl, hitems⟩ := restore_array h
    obtain ⟨i, hi, hx⟩ := Option.bind_eq_some_iff.mp hx
    have hset := restoreItems_iff.mpr (set_restored hitems hx hsame)
    simp only [Value.setChild, hi, restore, hset, Option.map_some]
  | _ => cases hx

mutual

theorem restore_plain {v : Value} (h : plain v = true) : restore store s v = some v := by
  cases v with
  | object fields =>
    simp only [plain, Bool.and_eq_true, Option.isNone_iff_eq_none] at h
    simp only [restore, h.1, restoreFields_plain h.2, Option.map_some]
  | array items => simp only [restore, restoreItems_plain h, Option.map_some]
  | _ => rfl

theorem restoreItems_plain {items : List Value} (h : plainItems items = true) :
    restoreItems store s items = some items := by
  cases items with
  | nil => rfl
  | cons v rest =>
    simp only [plainItems, Bool.and_eq_true] at h
    simp only [restoreItems, restore_plain h.1, restoreItems_plain h.2, Option.bind_some,
      Option.map_some]

theorem restoreFields_plain {fields : List (String × Value)} (h : plainFields fields = true) :
    restoreFields store s fields = some fields := by
  cases fields with
  | nil => rfl
  | cons f rest =>
    obtain ⟨name, v⟩ := f
    simp only [plainFields, Bool.and_eq_true] at h
    simp only [restoreFields, restore_plain h.1, restoreFields_plain h.2, Option.bind_some,
      Option.map_some]

end

mutual

theorem plain_restored {v w : Value} (h : restore store s v = some w) : plain w = true := by
  cases v with
  | object fields =>
    cases hmarker : fields.lookup markerKey with
    | none =>
      obtain ⟨gs, rfl, hfields⟩ := restore_object h hmarker
      simp only [plain, Bool.and_eq_true, Option.isNone_iff_eq_none]
      exact ⟨lookup_restored_none hfields hmarker,
        plain_restoredFields (restoreFields_iff.mpr hfields)⟩
    | some reference =>
      simp only [restore, hmarker] at h
      split at h
      · cases h
      · simp only [Option.bind_eq_some_iff, Option.map_eq_some_iff] at h
        obtain ⟨_, -, _, -, rfl⟩ := h
        rfl
  | array items =>
    obtain ⟨ws, rfl, hitems⟩ := restore_array h
    exact plain_restoredItems (restoreItems_iff.mpr hitems)
  | _ =>
    cases h
    rfl

theorem plain_restoredItems {items ws : List Value} (h : restoreItems store s items = some ws) :
    plainItems ws = true := by
  cases items with
  | nil =>
    cases h
    rfl
  | cons v rest =>
    simp only [restoreItems, Option.bind_eq_some_iff, Option.map_eq_some_iff] at h
    obtain ⟨w, hw, us, hus, rfl⟩ := h
    simp only [plainItems, plain_restored hw, plain_restoredItems hus, Bool.and_self]

theorem plain_restoredFields {fields gs : List (String × Value)}
    (h : restoreFields store s fields = some gs) : plainFields gs = true := by
  cases fields with
  | nil =>
    cases h
    rfl
  | cons f rest =>
    obtain ⟨name, v⟩ := f
    simp only [restoreFields, Option.bind_eq_some_iff, Option.map_eq_some_iff] at h
    obtain ⟨w, hw, us, hus, rfl⟩ := h
    simp only [plainFields, plain_restored hw, plain_restoredFields hus, Bool.and_self]

end

end

/-- Objects with the marker key are markers of references with `P`. -/
inductive Shaped (P : ResourceRef → Prop) : Value → Prop
  | marker (r : ResourceRef) : P r → Shaped P (marker r)
  | object (fields : List (String × Value)) : fields.lookup markerKey = none →
      (∀ f ∈ fields, Shaped P f.2) → Shaped P (.object fields)
  | array (items : List Value) : (∀ x ∈ items, Shaped P x) → Shaped P (.array items)
  | leaf (v : Value) : (∀ fields, v ≠ .object fields) → (∀ items, v ≠ .array items) → Shaped P v

namespace Shaped

variable {P : ResourceRef → Prop}

theorem mono {Q : ResourceRef → Prop} (hPQ : ∀ r, P r → Q r) {v : Value} (h : Shaped P v) :
    Shaped Q v := by
  induction h with
  | marker r hr => exact .marker r (hPQ r hr)
  | object fields hplain _ ih => exact .object fields hplain ih
  | array items _ ih => exact .array items ih
  | leaf v hobject harray => exact .leaf v hobject harray

theorem marker_or {v : Value} (h : Shaped P v) :
    (∃ r, P r ∧ v = Models.marker r) ∨ v.field markerKey = none := by
  cases h with
  | marker r hr => exact .inl ⟨r, hr, rfl⟩
  | object fields hplain _ => exact .inr hplain
  | array items _ => exact .inr rfl
  | leaf v hobject _ =>
    refine .inr ?_
    cases v with
    | object fields => exact absurd rfl (hobject fields)
    | _ => rfl

theorem items {items : List Value} (h : Shaped P (.array items)) : ∀ x ∈ items, Shaped P x := by
  cases h with
  | array _ hitems => exact hitems
  | leaf _ _ harray => exact absurd rfl (harray items)

theorem fields {fields : List (String × Value)} (h : Shaped P (.object fields))
    (hplain : fields.lookup markerKey = none) : ∀ f ∈ fields, Shaped P f.2 := by
  cases h with
  | marker r hr => cases hplain
  | object _ _ hfields => exact hfields
  | leaf _ hobject _ => exact absurd rfl (hobject fields)

theorem child {v x : Value} {token : String} (h : Shaped P v) (hplain : v.field markerKey = none)
    (hx : v.child token = some x) : Shaped P x := by
  cases v with
  | object fields =>
    obtain ⟨before, after, rfl, -⟩ := List.lookup_eq_some_iff.mp hx
    exact h.fields hplain (token, x) (List.mem_append_right before List.mem_cons_self)
  | array items =>
    obtain ⟨i, -, hx⟩ := Option.bind_eq_some_iff.mp hx
    exact h.items x (List.mem_of_getElem? hx)
  | _ => cases hx

private theorem mem_setField {name : String} {w : Value} {fields : List (String × Value)}
    {f : String × Value} (h : f ∈ Value.setField name w fields) : f ∈ fields ∨ f = (name, w) := by
  induction fields with
  | nil => cases h
  | cons g rest ih =>
    obtain ⟨k, v⟩ := g
    by_cases hk : k = name
    · subst hk
      simp only [Value.setField, if_true, List.mem_cons] at h
      rcases h with rfl | h
      · exact .inr rfl
      · exact .inl (List.mem_cons_of_mem _ h)
    · simp only [Value.setField, hk, if_false, List.mem_cons] at h
      rcases h with rfl | h
      · exact .inl List.mem_cons_self
      · exact (ih h).imp_left (List.mem_cons_of_mem _)

theorem setChild {v x x' : Value} {token : String} (h : Shaped P v)
    (hplain : v.field markerKey = none) (hx : v.child token = some x) (hx' : Shaped P x') :
    Shaped P (v.setChild token x') := by
  cases v with
  | object fields =>
    have hne : markerKey ≠ token := by
      rintro rfl
      cases hplain.symm.trans hx
    refine .object _ ?_ ?_
    · rw [Value.lookup_setField hx, if_neg hne]
      exact hplain
    · intro f hf
      rcases mem_setField hf with hf | rfl
      · exact h.fields hplain f hf
      · exact hx'
  | array items =>
    obtain ⟨i, hi, hx⟩ := Option.bind_eq_some_iff.mp hx
    simp only [Value.setChild, hi]
    refine .array _ ?_
    intro y hy
    rcases List.mem_or_eq_of_mem_set hy with hy | rfl
    · exact h.items y hy
    · exact hx'
  | _ => cases hx

end Shaped

mutual

theorem shaped_of_plain (P : ResourceRef → Prop) {v : Value} (h : plain v = true) :
    Shaped P v := by
  cases v with
  | object fields =>
    simp only [plain, Bool.and_eq_true, Option.isNone_iff_eq_none] at h
    exact .object fields h.1 (shapedFields_of_plain P h.2)
  | array items => exact .array items (shapedItems_of_plain P h)
  | _ => exact .leaf _ (fun _ h => Value.noConfusion h) (fun _ h => Value.noConfusion h)

theorem shapedItems_of_plain (P : ResourceRef → Prop) {items : List Value}
    (h : plainItems items = true) : ∀ x ∈ items, Shaped P x := by
  cases items with
  | nil => simp
  | cons v rest =>
    simp only [plainItems, Bool.and_eq_true] at h
    have hfirst := shaped_of_plain P h.1
    have hrest := shapedItems_of_plain P h.2
    exact List.forall_mem_cons.mpr ⟨hfirst, hrest⟩

theorem shapedFields_of_plain (P : ResourceRef → Prop) {fields : List (String × Value)}
    (h : plainFields fields = true) : ∀ f ∈ fields, Shaped P f.2 := by
  cases fields with
  | nil => simp
  | cons g rest =>
    obtain ⟨name, v⟩ := g
    simp only [plainFields, Bool.and_eq_true] at h
    have hfirst := shaped_of_plain P h.1
    have hrest := shapedFields_of_plain P h.2
    exact List.forall_mem_cons.mpr ⟨hfirst, hrest⟩

end

theorem refOfValue_stored {r : ResourceRef} {key : String} (h : r.source = .stored key) :
    refOfValue (refToValue r) = some r := by
  obtain ⟨id, mediaType, name, source, metadata⟩ := r
  obtain rfl : source = .stored key := h
  cases name <;> rfl

theorem restore_marker {σ : Type} {store : ResourceStore σ} {s : σ} {r : ResourceRef}
    {key : String} (h : r.source = .stored key) {bytes : List UInt8}
    (hbytes : bytesOf store s r = some bytes) :
    restore store s (marker r) = some (.string (base64 bytes)) := by
  have hlookup : [(markerKey, refToValue r)].lookup markerKey = some (refToValue r) := rfl
  simp only [marker, restore, hlookup, List.length_singleton, refOfValue_stored h,
    Option.bind_some, hbytes, Option.map_some]
  rfl

end Zhir.Models
