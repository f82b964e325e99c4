import Zhir.Models.Rebinding

/-!
Resolving with enough budget: what comes out, and what is loaded for it.
-/

set_option autoImplicit false
set_option relaxedAutoImplicit false

namespace Zhir.Models

open Zhir.Core

/-- With enough budget `f` gives `a` and loads only references with `P`. -/
def Resolves {α : Type} (P : ResourceRef → Prop) (f : Loads → Result (α × Loads)) (a : α) :
    Prop :=
  ∃ cost, ∀ l : Loads, cost ≤ l.budget → ∃ l', f l = .ok (a, l') ∧ l.budget ≤ l'.budget + cost ∧
    ∃ loaded, l'.loaded = l.loaded ++ loaded ∧ ∀ r ∈ loaded, P r

namespace Resolves

variable {α β : Type} {P : ResourceRef → Prop}

theorem pure (a : α) : Resolves P (fun l => .ok (a, l)) a :=
  ⟨0, fun l _ => ⟨l, rfl, Nat.le_refl _, [], (List.append_nil _).symm, by simp⟩⟩

theorem bind {f : Loads → Result (α × Loads)} {g : α → Loads → Result (β × Loads)} {a : α} {b : β}
    (hf : Resolves P f a) (hg : Resolves P (g a) b) :
    Resolves P (fun l => f l >>= fun r => g r.1 r.2) b := by
  obtain ⟨m, hf⟩ := hf
  obtain ⟨n, hg⟩ := hg
  refine ⟨m + n, fun l hl => ?_⟩
  obtain ⟨l₁, h₁, hbudget₁, xs, hxs, hP₁⟩ := hf l (by omega)
  obtain ⟨l₂, h₂, hbudget₂, ys, hys, hP₂⟩ := hg l₁ (by omega)
  refine ⟨l₂, ?_, by omega, xs ++ ys, ?_, ?_⟩
  · simp only [h₁]
    exact h₂
  · rw [hys, hxs, List.append_assoc]
  · exact List.forall_mem_append.mpr ⟨hP₁, hP₂⟩

theorem map {f : Loads → Result (α × Loads)} {a : α} (g : α → β) (hf : Resolves P f a) :
    Resolves P (fun l => f l >>= fun r => Pure.pure (g r.1, r.2)) (g a) :=
  hf.bind (g := fun x l => .ok (g x, l)) (pure (g a))

end Resolves

section

variable {σ : Type} {store : ResourceStore σ} {s : σ} {P : ResourceRef → Prop}

private theorem bytesOf_some {r : ResourceRef} {bytes : List UInt8}
    (h : bytesOf store s r = some bytes) :
    r.validate = .ok () ∧ store.read r s = .ok bytes := by
  unfold bytesOf at h
  split at h
  · cases h
    exact ⟨‹_›, ‹_›⟩
  · cases h

theorem resolves_load {r : ResourceRef} {bytes : List UInt8}
    (h : bytesOf store s r = some bytes) (hr : P r) : Resolves P (load store s r) bytes := by
  obtain ⟨hvalid, hread⟩ := bytesOf_some h
  refine ⟨bytes.length, fun l hl => ?_⟩
  refine ⟨⟨l.budget - bytes.length, l.loaded ++ [r]⟩, ?_, ?_, [r], rfl, by simpa using hr⟩
  · simp only [load, hvalid, hread, require]
    change ((if bytes.length ≤ l.budget then _ else _ : Result Unit) >>= fun _ => _) = _
    rw [if_pos hl]
    rfl
  · change l.budget ≤ l.budget - bytes.length + bytes.length
    omega

private theorem bytesOf_of_load {r : ResourceRef} {bytes : List UInt8} {l l' : Loads}
    (h : load store s r l = .ok (bytes, l')) : bytesOf store s r = some bytes := by
  unfold load at h
  obtain ⟨_, hvalid, h⟩ := Result.bind_ok h
  obtain ⟨read, hread, h⟩ := Result.bind_ok h
  obtain ⟨_, -, h⟩ := Result.bind_ok h
  cases h
  simp only [bytesOf, hvalid, hread]

mutual

theorem resolves_value (hP : Keeps store s P) {v w : Value} (hshaped : Shaped P v)
    (h : restore store s v = some w) : Resolves P (resolveValue store s v) w := by
  cases v with
  | object fields =>
    rcases hshaped.marker_or with ⟨r, hr, hv⟩ | hplain
    · cases hv
      obtain ⟨key, hkey⟩ := hP.stored r hr
      obtain ⟨bytes, hbytes⟩ := hP.bytes r hr
      have hw : restore store s (marker r) = some (.string (base64 bytes)) :=
        restore_marker hkey hbytes
      obtain rfl : Value.string (base64 bytes) = w := Option.some.inj (hw.symm.trans h)
      have hload := (resolves_load hbytes hr).map fun bytes => Value.string (base64 bytes)
      have hlookup : [(markerKey, refToValue r)].lookup markerKey = some (refToValue r) := rfl
      simpa only [resolveValue, hlookup, List.length_singleton, refOfValue_stored hkey,
        ne_eq, not_true_eq_false, if_false] using hload
    · have hlookup : fields.lookup markerKey = none := hplain
      obtain ⟨gs, rfl, hfields⟩ := restore_object h hlookup
      have hrest := resolves_fields hP (hshaped.fields hlookup) (restoreFields_iff.mpr hfields)
      simpa only [resolveValue, hlookup] using hrest.map Value.object
  | array items =>
    obtain ⟨ws, rfl, hitems⟩ := restore_array h
    have hrest := resolves_items hP hshaped.items (restoreItems_iff.mpr hitems)
    simpa only [resolveValue] using hrest.map Value.array
  | _ =>
    cases h
    exact Resolves.pure _

theorem resolves_items (hP : Keeps store s P) {items ws : List Value}
    (hshaped : ∀ x ∈ items, Shaped P x) (h : restoreItems store s items = some ws) :
    Resolves P (resolveItems store s items) ws := by
  cases items with
  | nil =>
    cases h
    exact Resolves.pure _
  | cons v rest =>
    simp only [restoreItems, Option.bind_eq_some_iff, Option.map_eq_some_iff] at h
    obtain ⟨w, hw, us, hus, rfl⟩ := h
    obtain ⟨hv, hrest⟩ := List.forall_mem_cons.mp hshaped
    have hfirst := resolves_value hP hv hw
    have hothers := resolves_items hP hrest hus
    exact hfirst.bind (g := fun w l => resolveItems store s rest l >>= fun r => .ok (w :: r.1, r.2))
      (hothers.map fun us => w :: us)

theorem resolves_fields (hP : Keeps store s P) {fields gs : List (String × Value)}
    (hshaped : ∀ f ∈ fields, Shaped P f.2) (h : restoreFields store s fields = some gs) :
    Resolves P (resolveFields store s fields) gs := by
  cases fields with
  | nil =>
    cases h
    exact Resolves.pure _
  | cons f rest =>
    obtain ⟨name, v⟩ := f
    simp only [restoreFields, Option.bind_eq_some_iff, Option.map_eq_some_iff] at h
    obtain ⟨w, hw, us, hus, rfl⟩ := h
    obtain ⟨hv, hrest⟩ := List.forall_mem_cons.mp hshaped
    have hfirst := resolves_value hP hv hw
    have hothers := resolves_fields hP hrest hus
    exact hfirst.bind
      (g := fun w l => resolveFields store s rest l >>= fun r => .ok ((name, w) :: r.1, r.2))
      (hothers.map fun us => (name, w) :: us)

end

mutual

/-- Whatever a document resolves to, it restores to. -/
theorem restore_of_resolve {v w : Value} {l l' : Loads}
    (h : resolveValue store s v l = .ok (w, l')) : restore store s v = some w := by
  cases v with
  | object fields =>
    unfold resolveValue at h
    cases hlookup : fields.lookup markerKey with
    | none =>
      simp only [hlookup] at h
      obtain ⟨⟨gs, _⟩, hfields, h⟩ := Result.bind_ok h
      cases h
      have hrestored := restoreFields_of_resolve hfields
      simp only [restore, hlookup, hrestored, Option.map_some]
    | some reference =>
      simp only [hlookup] at h
      split at h
      · cases h
      · rename_i hlength
        split at h
        · cases h
        · rename_i r hr
          obtain ⟨⟨bytes, _⟩, hload, h⟩ := Result.bind_ok h
          cases h
          have hbytes := bytesOf_of_load hload
          simp only [restore, hlookup, hlength, if_false, hr, hbytes, Option.bind_some,
            Option.map_some]
  | array items =>
    obtain ⟨⟨ws, _⟩, hitems, h⟩ := Result.bind_ok h
    cases h
    have hrestored := restoreItems_of_resolve hitems
    simp only [restore, hrestored, Option.map_some]
  | _ =>
    cases h
    rfl

theorem restoreItems_of_resolve {items ws : List Value} {l l' : Loads}
    (h : resolveItems store s items l = .ok (ws, l')) : restoreItems store s items = some ws := by
  cases items with
  | nil =>
    cases h
    rfl
  | cons v rest =>
    obtain ⟨⟨w, _⟩, hv, h⟩ := Result.bind_ok h
    obtain ⟨⟨us, _⟩, hrest, h⟩ := Result.bind_ok h
    cases h
    have hfirst := restore_of_resolve hv
    have hothers := restoreItems_of_resolve hrest
    simp only [restoreItems, hfirst, hothers, Option.bind_some, Option.map_some]

theorem restoreFields_of_resolve {fields gs : List (String × Value)} {l l' : Loads}
    (h : resolveFields store s fields l = .ok (gs, l')) :
    restoreFields store s fields = some gs := by
  cases fields with
  | nil =>
    cases h
    rfl
  | cons f rest =>
    obtain ⟨name, v⟩ := f
    obtain ⟨⟨w, _⟩, hv, h⟩ := Result.bind_ok h
    obtain ⟨⟨us, _⟩, hrest, h⟩ := Result.bind_ok h
    cases h
    have hfirst := restore_of_resolve hv
    have hothers := restoreFields_of_resolve hrest
    simp only [restoreFields, hfirst, hothers, Option.bind_some, Option.map_some]

end

end

end Zhir.Models
