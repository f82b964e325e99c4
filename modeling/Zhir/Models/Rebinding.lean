import Zhir.Models.Restore

/-!
Replacing a payload in a document by a marker: when the document still restores to the same,
and when it can no longer be restored at all.
-/

set_option autoImplicit false
set_option relaxedAutoImplicit false

namespace Zhir.Models

open Zhir.Core

/-- The path stays inside the document, or leaves it at a text into the metadata of the marker
that takes the place of that text. -/
def clear : List String → Value → Bool
  | [], _ => true
  | token :: rest, .string _ => token = markerKey && rest.head? = some "metadata"
  | token :: rest, v =>
    match v.child token with
    | some y => clear rest y
    | none => true

/-- References whose bytes can be loaded, whatever their metadata. -/
structure Keeps {σ : Type} (store : ResourceStore σ) (s : σ) (P : ResourceRef → Prop) : Prop where
  stored : ∀ r, P r → ∃ key, r.source = .stored key
  bytes : ∀ r, P r → ∃ bytes, bytesOf store s r = some bytes
  metadata : ∀ (r : ResourceRef) (m : List (String × Value)), P r → P { r with metadata := m }
  same : ∀ (r : ResourceRef) (m : List (String × Value)), P r →
    bytesOf store s { r with metadata := m } = bytesOf store s r

private theorem clear_child {token : String} {rest : List String} {v y : Value}
    (h : clear (token :: rest) v = true) (hy : v.child token = some y) : clear rest y = true := by
  cases v with
  | string s => cases hy
  | _ => simpa only [clear, hy] using h

private theorem setPointer_object {fields : List (String × Value)} {path : List String} {p : String}
    (h : (Value.object fields).pointer path = some (.string p)) (w : Value) :
    ∃ fields', (Value.object fields).setPointer path w = .object fields' := by
  cases path with
  | nil => cases h
  | cons token rest =>
    obtain ⟨x, hx, -⟩ := Value.pointer_cons h
    exact ⟨_, Value.setPointer_cons w hx⟩

private theorem setPointer_marker {r : ResourceRef} {path : List String} {p : String}
    (h : (marker r).pointer (markerKey :: "metadata" :: path) = some (.string p)) (w : Value) :
    ∃ m, (marker r).setPointer (markerKey :: "metadata" :: path) w =
      marker { r with metadata := m } := by
  have hreference : (marker r).child markerKey = some (refToValue r) := rfl
  have hmetadata : (refToValue r).child "metadata" = some (.object r.metadata) := rfl
  have htarget : (Value.object r.metadata).pointer path = some (.string p) := h
  obtain ⟨m, hm⟩ := setPointer_object htarget w
  refine ⟨m, ?_⟩
  rw [Value.setPointer_cons w hreference, Value.setPointer_cons w hmetadata, hm]
  rfl

section

variable {σ : Type} {store : ResourceStore σ} {s : σ} {P : ResourceRef → Prop}

theorem restore_setPointer (hP : Keeps store s P) {p : String} {w : Value} (hw : Shaped P w)
    (hrestored : restore store s w = some (.string p)) {path : List String} :
    ∀ {cur orig : Value}, Shaped P cur → restore store s cur = some orig →
      cur.pointer path = some (.string p) → clear path orig = true →
      restore store s (cur.setPointer path w) = some orig ∧ Shaped P (cur.setPointer path w) := by
  induction path with
  | nil =>
    intro cur orig _ hcur htarget _
    obtain rfl : cur = .string p := Option.some.inj htarget
    obtain rfl : Value.string p = orig := Option.some.inj hcur
    exact ⟨hrestored, hw⟩
  | cons token rest ih =>
    intro cur orig hshaped hcur htarget hclear
    rcases hshaped.marker_or with ⟨r, hr, rfl⟩ | hplain
    · -- the path enters a marker: only its metadata may change
      obtain ⟨key, hkey⟩ := hP.stored r hr
      obtain ⟨bytes, hbytes⟩ := hP.bytes r hr
      rw [restore_marker hkey hbytes] at hcur
      obtain rfl : Value.string (base64 bytes) = orig := Option.some.inj hcur
      simp only [clear, Bool.and_eq_true, decide_eq_true_eq] at hclear
      obtain ⟨rfl, hrest⟩ := hclear
      obtain ⟨rest, rfl⟩ := List.head?_eq_some_iff.mp hrest
      obtain ⟨m, hm⟩ := setPointer_marker htarget w
      have hsame := (hP.same r m hr).trans hbytes
      rw [hm]
      exact ⟨restore_marker (r := { r with metadata := m }) hkey hsame,
        .marker _ (hP.metadata r m hr)⟩
    · obtain ⟨x, hx, htarget⟩ := Value.pointer_cons htarget
      obtain ⟨y, hy, hxy⟩ := restore_child hcur hplain hx
      obtain ⟨hset, hshape⟩ := ih (hshaped.child hplain hx) hxy htarget (clear_child hclear hy)
      rw [Value.setPointer_cons w hx]
      exact ⟨restore_setChild hcur hplain hx (hset.trans hxy.symm),
        hshaped.setChild hplain hx hshape⟩

end

/-- A reference one of whose texts has become an object. -/
inductive Refused : Value → Prop
  | text (fields : List (String × Value)) (name : String) (o : List (String × Value)) :
      name ∈ ["id", "media_type", "name"] → fields.lookup name = some (.object o) →
      Refused (.object fields)
  | source (fields source : List (String × Value)) (name : String) (o : List (String × Value)) :
      name ∈ ["kind", "key"] → fields.lookup "source" = some (.object source) →
      source.lookup name = some (.object o) → Refused (.object fields)

inductive Broken : Value → Prop
  | marker (fields : List (String × Value)) (v : Value) : fields.lookup markerKey = some v →
      Refused v → Broken (.object fields)
  | child (v x : Value) (token : String) : v.field markerKey = none → v.child token = some x →
      Broken x → Broken v

private theorem refOfValue_object {fields : List (String × Value)} {r : ResourceRef}
    (h : refOfValue (.object fields) = some r) :
    (∃ id, fields.lookup "id" = some (.string id)) ∧
      (∃ mediaType, fields.lookup "media_type" = some (.string mediaType)) ∧
      (∃ name, asOptionalString (fields.lookup "name") = some name) ∧
      ∃ v, fields.lookup "source" = some v ∧ sourceOfValue v = some r.source := by
  simp only [refOfValue, Option.bind_eq_bind, Option.bind_eq_some_iff] at h
  obtain ⟨get, hget, v, hv, id, hid, u, hu, mediaType, hmediaType, name, hname, t, ht, source,
    hsource, _, -, metadata, -, hr⟩ := h
  obtain ⟨-, rfl⟩ := record_object hget
  cases hr
  obtain rfl := asString_some hid
  obtain rfl := asString_some hmediaType
  exact ⟨⟨id, hv⟩, ⟨mediaType, hu⟩, ⟨name, hname⟩, t, ht, hsource⟩

theorem lookup_filter_ne {fields : List (String × Value)} {name other : String}
    (h : name ≠ other) : (fields.filter fun f => f.1 ≠ other).lookup name = fields.lookup name := by
  induction fields with
  | nil => rfl
  | cons f rest ih =>
    obtain ⟨k, v⟩ := f
    by_cases hk : k = other
    · have hne : (name == k) = false := beq_eq_false_iff_ne.mpr (hk ▸ h)
      simp only [List.filter_cons, hk, ne_eq, not_true, decide_false, Bool.false_eq_true, if_false]
      rw [List.lookup_cons, ← hk, hne, hk]
      exact ih
    · simp only [List.filter_cons, hk, ne_eq, not_false_eq_true, decide_true, if_true,
        List.lookup_cons]
      cases name == k
      · exact ih
      · rfl

/-- No kind of source has an object for its key. -/
private theorem sourceOf_key {fields o : List (String × Value)} {kind : String}
    (hkey : fields.lookup "key" = some (.object o)) :
    sourceOf kind (fun names => record names (.object fields)) = none := by
  have hknown : ∀ (names : List String) (get : String → Option Value),
      record names (.object fields) = some get → "key" ∈ names :=
    fun names get hget => (record_object hget).1 _ (mem_of_lookup hkey)
  rw [Option.eq_none_iff_forall_ne_some]
  intro source h
  unfold sourceOf at h
  split at h
  · obtain ⟨get, hget, -⟩ := Option.bind_eq_some_iff.mp h
    exact absurd (hknown _ get hget) (by decide)
  · split at h
    · obtain ⟨get, hget, -⟩ := Option.bind_eq_some_iff.mp h
      exact absurd (hknown _ get hget) (by decide)
    · split at h
      · obtain ⟨get, hget, h⟩ := Option.bind_eq_some_iff.mp h
        obtain ⟨-, rfl⟩ := record_object hget
        obtain ⟨v, hv, h⟩ := Option.bind_eq_some_iff.mp h
        have hv : fields.lookup "key" = some v := hv
        rw [hkey] at hv
        cases hv
        cases h
      · split at h
        · obtain ⟨get, hget, -⟩ := Option.bind_eq_some_iff.mp h
          exact absurd (hknown _ get hget) (by decide)
        · cases h

/-- No source that was read has an object for its kind or its key. -/
private theorem sourceOfValue_object {fields o : List (String × Value)} {name : String}
    {source : ResourceSource} (h : sourceOfValue (.object fields) = some source)
    (hname : name ∈ ["kind", "key"]) : fields.lookup name ≠ some (.object o) := by
  intro hfield
  simp only [sourceOfValue, Option.bind_eq_bind, Option.bind_eq_some_iff] at h
  obtain ⟨v, hv, kind, hkind, hsource⟩ := h
  obtain rfl := asString_some hkind
  simp only [List.mem_cons, List.not_mem_nil, or_false] at hname
  rcases hname with rfl | rfl
  · rw [hv] at hfield
    cases hfield
  · have hkey : (fields.filter fun f => f.1 ≠ "kind").lookup "key" = some (.object o) := by
      rw [lookup_filter_ne (by decide), hfield]
    rw [sourceOf_key hkey] at hsource
    cases hsource

private theorem refOfValue_refused {v : Value} (h : Refused v) : refOfValue v = none := by
  rw [Option.eq_none_iff_forall_ne_some]
  intro r hr
  cases h with
  | text fields name o hname hfield =>
    obtain ⟨⟨id, hid⟩, ⟨mediaType, hmediaType⟩, ⟨name', hname'⟩, -⟩ := refOfValue_object hr
    simp only [List.mem_cons, List.not_mem_nil, or_false] at hname
    rcases hname with rfl | rfl | rfl
    · rw [hid] at hfield
      cases hfield
    · rw [hmediaType] at hfield
      cases hfield
    · rw [hfield] at hname'
      cases hname'
  | source fields source name o hname hsource hfield =>
    obtain ⟨-, -, -, v, hv, hread⟩ := refOfValue_object hr
    rw [hsource] at hv
    cases hv
    exact sourceOfValue_object hread hname hfield

theorem restore_broken {σ : Type} {store : ResourceStore σ} {s : σ} {v : Value} (h : Broken v) :
    restore store s v = none := by
  induction h with
  | marker fields v hv hrefused =>
    simp only [restore, hv, refOfValue_refused hrefused, Option.bind_none]
    split <;> rfl
  | child v x token hplain hx _ ih =>
    rw [Option.eq_none_iff_forall_ne_some]
    intro w hw
    obtain ⟨y, -, hy⟩ := restore_child hw hplain hx
    rw [ih] at hy
    cases hy

private theorem lookup_write {fields o : List (String × Value)} {name token : String}
    {rest : List String} {x : Value} {p : String} (w : Value)
    (hfield : fields.lookup name = some (.object o)) (hx : fields.lookup token = some x)
    (htarget : x.pointer rest = some (.string p)) :
    ∃ o', (Value.setField token (x.setPointer rest w) fields).lookup name = some (.object o') := by
  rw [Value.lookup_setField hx]
  by_cases hsame : name = token
  · subst hsame
    rw [hx] at hfield
    cases hfield
    obtain ⟨o', ho'⟩ := setPointer_object htarget w
    exact ⟨o', by rw [if_pos rfl, ho']⟩
  · exact ⟨o, by rw [if_neg hsame, hfield]⟩

private theorem refused_setPointer {v : Value} (h : Refused v) {path : List String} {p : String}
    (htarget : v.pointer path = some (.string p)) (w : Value) : Refused (v.setPointer path w) := by
  cases path with
  | nil => cases h <;> cases htarget
  | cons token rest =>
    obtain ⟨x, hx, hbelow⟩ := Value.pointer_cons htarget
    rw [Value.setPointer_cons w hx]
    cases h with
    | text fields name o hname hfield =>
      obtain ⟨o', ho'⟩ := lookup_write w hfield hx hbelow
      exact .text _ name o' hname ho'
    | source fields source name o hname hsource hfield =>
      by_cases htoken : token = "source"
      · subst htoken
        obtain rfl : x = .object source := Option.some.inj (hx.symm.trans hsource)
        cases rest with
        | nil => cases hbelow
        | cons token rest =>
          obtain ⟨y, hy, hbelow⟩ := Value.pointer_cons hbelow
          obtain ⟨o', ho'⟩ := lookup_write w hfield hy hbelow
          refine .source _ (Value.setField token (y.setPointer rest w) source) name o' hname ?_ ho'
          rw [Value.lookup_setField hx, if_pos rfl, Value.setPointer_cons w hy]
          rfl
      · refine .source _ source name o hname ?_ hfield
        rw [Value.lookup_setField hx, if_neg (Ne.symm htoken)]
        exact hsource

private theorem field_setChild {v x w : Value} {name token : String} (hx : v.child token = some x)
    (hne : name ≠ token) : (v.setChild token w).field name = v.field name := by
  cases v with
  | object fields =>
    change (Value.setField token w fields).lookup name = fields.lookup name
    rw [Value.lookup_setField hx, if_neg hne]
  | array items =>
    obtain ⟨i, hi, -⟩ := Option.bind_eq_some_iff.mp hx
    simp only [Value.setChild, hi]
    rfl
  | _ => cases hx

private theorem child_setChild {v x w : Value} {token : String} (hx : v.child token = some x)
    (other : String) :
    (v.child other = some x ∧ (v.setChild token w).child other = some w) ∨
      (v.setChild token w).child other = v.child other := by
  cases v with
  | object fields =>
    by_cases hsame : other = token
    · subst hsame
      refine .inl ⟨hx, ?_⟩
      exact (Value.lookup_setField hx other).trans (if_pos rfl)
    · exact .inr ((Value.lookup_setField hx other).trans (if_neg hsame))
  | array items =>
    obtain ⟨i, hi, hx⟩ := Option.bind_eq_some_iff.mp hx
    obtain ⟨hlt, -⟩ := List.getElem?_eq_some_iff.mp hx
    simp only [Value.setChild, hi, Value.child]
    cases hother : Value.parseIndex other with
    | none => exact .inr rfl
    | some j =>
      by_cases hsame : i = j
      · subst hsame
        exact .inl ⟨hx, by simp [hlt]⟩
      · exact .inr (by simp [hsame])
  | _ => cases hx

private theorem child_setChild_self {v x w : Value} {token : String} (hx : v.child token = some x) :
    (v.setChild token w).child token = some w := by
  cases v with
  | object fields => exact (Value.lookup_setField hx token).trans (if_pos rfl)
  | array items =>
    obtain ⟨i, hi, hx⟩ := Option.bind_eq_some_iff.mp hx
    obtain ⟨hlt, -⟩ := List.getElem?_eq_some_iff.mp hx
    simp [Value.setChild, Value.child, hi, hlt]
  | _ => cases hx

private theorem markerKey_ne {v x : Value} {token : String} (hplain : v.field markerKey = none)
    (hx : v.child token = some x) : markerKey ≠ token := by
  rintro rfl
  cases v with
  | object fields => cases hplain.symm.trans hx
  | array items =>
    have hindex : Value.parseIndex markerKey = none := by decide +kernel
    simp [Value.child, hindex] at hx
  | _ => cases hx

theorem broken_setPointer {v : Value} (h : Broken v) (w : Value) :
    ∀ {path : List String} {p : String}, v.pointer path = some (.string p) →
      Broken (v.setPointer path w) := by
  induction h with
  | marker fields reference hreference hrefused =>
    intro path p htarget
    cases path with
    | nil => cases htarget
    | cons token rest =>
      obtain ⟨x, hx, hbelow⟩ := Value.pointer_cons htarget
      rw [Value.setPointer_cons w hx]
      by_cases hsame : token = markerKey
      · subst hsame
        obtain rfl : x = reference := Option.some.inj (hx.symm.trans hreference)
        refine .marker _ _ ?_ (refused_setPointer hrefused hbelow w)
        rw [Value.lookup_setField hx, if_pos rfl]
      · refine .marker _ reference ?_ hrefused
        rw [Value.lookup_setField hx, if_neg (Ne.symm hsame)]
        exact hreference
  | child v x token hplain hx hbroken ih =>
    intro path p htarget
    cases path with
    | nil =>
      obtain rfl : v = .string p := Option.some.inj htarget
      cases hx
    | cons other rest =>
      obtain ⟨y, hy, htarget⟩ := Value.pointer_cons htarget
      rw [Value.setPointer_cons w hy]
      have hplain' : (v.setChild other (y.setPointer rest w)).field markerKey = none := by
        rw [field_setChild hy (markerKey_ne hplain hy)]
        exact hplain
      rcases child_setChild (w := y.setPointer rest w) hy token with ⟨hsame, hset⟩ | hset
      · obtain rfl : x = y := Option.some.inj (hx.symm.trans hsame)
        exact .child _ _ token hplain' hset (ih htarget)
      · exact .child _ x token hplain' (hset.trans hx) hbroken

private theorem leaf_target {x : Value} {rest : List String} {p : String}
    (hleaf : ∀ token, x.child token = none) (h : x.pointer rest = some (.string p)) :
    rest = [] := by
  cases rest with
  | nil => rfl
  | cons token rest =>
    obtain ⟨y, hy, -⟩ := Value.pointer_cons h
    rw [hleaf] at hy
    cases hy

private theorem refused_of_unclear {r : ResourceRef} {key : String} (hkey : r.source = .stored key)
    {path : List String} {p : String} (htarget : (refToValue r).pointer path = some (.string p))
    (hmetadata : path.head? ≠ some "metadata") (o : List (String × Value)) :
    Refused ((refToValue r).setPointer path (.object o)) := by
  obtain ⟨id, mediaType, label, source, metadata⟩ := r
  obtain rfl : source = .stored key := hkey
  cases path with
  | nil => cases htarget
  | cons token rest =>
    obtain ⟨x, hx, hbelow⟩ := Value.pointer_cons htarget
    have hset : ∀ name, (Value.setField token (x.setPointer rest (.object o)) _).lookup name = _ :=
      fun name => Value.lookup_setField hx name
    rw [Value.setPointer_cons _ hx]
    have hmem := mem_of_lookup hx
    simp only [List.mem_cons, List.not_mem_nil, or_false, Prod.mk.injEq] at hmem
    rcases hmem with ⟨rfl, rfl⟩ | ⟨rfl, rfl⟩ | ⟨rfl, rfl⟩ | ⟨rfl, rfl⟩ | ⟨rfl, rfl⟩
    · obtain rfl := leaf_target (fun _ => rfl) hbelow
      exact .text _ "id" o (by decide) (hset "id")
    · obtain rfl := leaf_target (fun _ => rfl) hbelow
      exact .text _ "media_type" o (by decide) (hset "media_type")
    · exact absurd rfl hmetadata
    · obtain rfl := leaf_target (by cases label <;> exact fun _ => rfl) hbelow
      exact .text _ "name" o (by decide) (hset "name")
    · -- below the source there are its kind and its key
      cases rest with
      | nil => cases hbelow
      | cons name rest =>
        obtain ⟨y, hy, hbelow⟩ := Value.pointer_cons hbelow
        have hfield : name ∈ ["kind", "key"] ∧ ∀ token, y.child token = none := by
          have hmem := mem_of_lookup hy
          simp only [List.mem_cons, List.not_mem_nil, or_false, Prod.mk.injEq] at hmem
          rcases hmem with ⟨rfl, rfl⟩ | ⟨rfl, rfl⟩
          · exact ⟨by decide, fun _ => rfl⟩
          · exact ⟨by decide, fun _ => rfl⟩
        obtain rfl := leaf_target hfield.2 hbelow
        have hname := Value.lookup_setField (w := .object o) hy name
        rw [if_pos rfl] at hname
        refine .source _ _ name o hfield.1 ?_ hname
        have hsource := hset "source"
        rw [if_pos rfl, Value.setPointer_cons _ hy] at hsource
        rw [Value.setPointer_cons _ hy]
        exact hsource

theorem broken_of_unclear {σ : Type} {store : ResourceStore σ} {s : σ} {P : ResourceRef → Prop}
    (hP : Keeps store s P) {p : String} (o : List (String × Value)) {path : List String} :
    ∀ {cur orig : Value}, Shaped P cur → restore store s cur = some orig →
      cur.pointer path = some (.string p) → clear path orig = false →
      Broken (cur.setPointer path (.object o)) := by
  induction path with
  | nil =>
    intro cur orig _ _ _ hclear
    cases hclear
  | cons token rest ih =>
    intro cur orig hshaped hcur htarget hclear
    obtain ⟨x, hx, hbelow⟩ := Value.pointer_cons htarget
    rw [Value.setPointer_cons _ hx]
    rcases hshaped.marker_or with ⟨r, hr, rfl⟩ | hplain
    · obtain ⟨key, hkey⟩ := hP.stored r hr
      obtain ⟨bytes, hbytes⟩ := hP.bytes r hr
      rw [restore_marker hkey hbytes] at hcur
      obtain rfl : Value.string (base64 bytes) = orig := Option.some.inj hcur
      obtain ⟨rfl, rfl⟩ : token = markerKey ∧ x = refToValue r := by
        have hmem := mem_of_lookup hx
        simpa using hmem
      have hmetadata : rest.head? ≠ some "metadata" := by
        simpa [clear] using hclear
      exact .marker _ _ ((Value.lookup_setField hx markerKey).trans (if_pos rfl))
        (refused_of_unclear hkey hbelow hmetadata o)
    · obtain ⟨y, hy, hxy⟩ := restore_child hcur hplain hx
      have hunclear : clear rest y = false := by
        cases orig with
        | string text => cases hy
        | _ => simpa only [clear, hy] using hclear
      refine .child _ (x.setPointer rest (.object o)) token ?_ (child_setChild_self hx)
        (ih (hshaped.child hplain hx) hxy hbelow hunclear)
      rw [field_setChild hx (markerKey_ne hplain hx)]
      exact hplain

end Zhir.Models
