import Mathlib.Data.List.Nodup
import Mathlib.Data.List.Perm.Basic
import Mathlib.Data.List.Perm.Subperm
import Std.Data.ExtTreeMap
import Zhir.Library.Entries

/-!
Counting the entries of a tree map: an insertion or a removal touches one entry, and so do
removals in a row.
-/

set_option autoImplicit false
set_option relaxedAutoImplicit false

namespace Zhir.Library.TreeMap

open Std

variable {α β : Type} {cmp : α → α → Ordering} [TransCmp cmp] [LawfulEqCmp cmp]

private theorem nodup_toList (m : ExtTreeMap α β cmp) : m.toList.Nodup := by
  refine ExtTreeMap.distinct_keys_toList.imp fun {a b} hne heq => ?_
  subst heq
  exact hne ReflCmp.compare_self

private theorem toList_insert_perm (m : ExtTreeMap α β cmp) (k : α) (v : β) :
    (m.insert k v).toList.Perm ((k, v) :: (m.erase k).toList) := by
  refine (List.perm_ext_iff_of_nodup (nodup_toList _) ?_).mpr ?_
  · refine List.nodup_cons.mpr ⟨?_, nodup_toList _⟩
    simp
  · rintro ⟨k', v'⟩
    by_cases hk : k = k'
    · subst hk
      simp [eq_comm]
    · have hcmp : cmp k k' ≠ .eq := fun h => hk (LawfulEqCmp.eq_of_compare h)
      simp [ExtTreeMap.getElem?_insert, ExtTreeMap.getElem?_erase, hcmp, Ne.symm hk]

variable (p : α × β → Bool)

private theorem countP_insert (m : ExtTreeMap α β cmp) (k : α) (v : β) :
    (m.insert k v).toList.countP p = (m.erase k).toList.countP p + if p (k, v) then 1 else 0 := by
  rw [(toList_insert_perm m k v).countP_eq, List.countP_cons]

theorem countP_le_of_getElem? {m m' : ExtTreeMap α β cmp}
    (h : ∀ (k : α) (v : β), m'[k]? = some v → p (k, v) = true → m[k]? = some v) :
    m'.toList.countP p ≤ m.toList.countP p := by
  rw [List.countP_eq_length_filter, List.countP_eq_length_filter]
  refine (List.subperm_of_subset ((nodup_toList m').filter p) ?_).length_le
  rintro ⟨k, v⟩ hmem
  obtain ⟨hmem, hp⟩ := List.mem_filter.mp hmem
  refine List.mem_filter.mpr ⟨?_, hp⟩
  exact ExtTreeMap.mem_toList_iff_getElem?_eq_some.mpr
    (h k v (ExtTreeMap.mem_toList_iff_getElem?_eq_some.mp hmem) hp)

private theorem countP_erase_le (m : ExtTreeMap α β cmp) (k : α) :
    (m.erase k).toList.countP p ≤ m.toList.countP p := by
  refine countP_le_of_getElem? p fun k' v h _ => ?_
  rw [ExtTreeMap.getElem?_erase] at h
  split at h
  · cases h
  · exact h

theorem countP_insert_le (m : ExtTreeMap α β cmp) (k : α) (v : β) :
    (m.insert k v).toList.countP p ≤ m.toList.countP p + 1 := by
  rw [countP_insert]
  have := countP_erase_le p m k
  split <;> omega

theorem countP_le_add {m m' : ExtTreeMap α β cmp} {q : α × β → Bool} (extra : List α)
    (h : ∀ (k : α) (v : β), m'[k]? = some v → q (k, v) = true →
      k ∈ extra ∨ ∃ w, m[k]? = some w ∧ p (k, w) = true) :
    m'.toList.countP q ≤ m.toList.countP p + extra.length := by
  have hkeys : ((m'.toList.filter q).map Prod.fst).Nodup := by
    refine List.Nodup.sublist (List.filter_sublist.map Prod.fst) ?_
    refine List.pairwise_map.mpr (ExtTreeMap.distinct_keys_toList.imp fun hne heq => hne ?_)
    rw [heq]
    exact ReflCmp.compare_self
  have hsub : (m'.toList.filter q).map Prod.fst ⊆ (m.toList.filter p).map Prod.fst ++ extra := by
    intro k hk
    obtain ⟨⟨k, v⟩, hmem, rfl⟩ := List.mem_map.mp hk
    obtain ⟨hmem, hq⟩ := List.mem_filter.mp hmem
    rcases h k v (ExtTreeMap.mem_toList_iff_getElem?_eq_some.mp hmem) hq with hextra | ⟨w, hw, hp⟩
    · exact List.mem_append_right _ hextra
    · refine List.mem_append_left _ (List.mem_map.mpr ⟨(k, w), ?_, rfl⟩)
      exact List.mem_filter.mpr ⟨ExtTreeMap.mem_toList_iff_getElem?_eq_some.mpr hw, hp⟩
  have hlength := (List.subperm_of_subset hkeys hsub).length_le
  rw [List.length_append, List.length_map, List.length_map] at hlength
  rw [List.countP_eq_length_filter, List.countP_eq_length_filter]
  exact hlength

theorem getElem?_erase_all [DecidableEq α] (keys : List α) (m : ExtTreeMap α β cmp) (k : α) :
    (keys.foldl ExtTreeMap.erase m)[k]? = if k ∈ keys then none else m[k]? := by
  induction keys generalizing m with
  | nil => simp
  | cons key rest ih =>
    rw [List.foldl_cons, ih, ExtTreeMap.getElem?_erase]
    by_cases hk : key = k
    · subst hk
      simp [ReflCmp.compare_self]
    · have hcmp : cmp key k ≠ .eq := fun h => hk (LawfulEqCmp.eq_of_compare h)
      have hmem : k ∈ key :: rest ↔ k ∈ rest := by
        rw [List.mem_cons]
        exact or_iff_right (Ne.symm hk)
      simp only [hcmp, if_false, hmem]

theorem getElem?_foldl_erase [DecidableEq α] (entries : List (α × β))
    (m : ExtTreeMap α β cmp) (k : α) :
    (entries.foldl (fun kept entry => kept.erase entry.1) m)[k]? =
      if k ∈ entries.map Prod.fst then none else m[k]? := by
  rw [← getElem?_erase_all, List.foldl_map]

omit [LawfulEqCmp cmp] in
theorem size_foldl_erase_le (entries : List (α × β)) (m : ExtTreeMap α β cmp) :
    (entries.foldl (fun kept entry => kept.erase entry.1) m).size ≤ m.size := by
  induction entries generalizing m with
  | nil => exact Nat.le_refl _
  | cons entry rest ih => exact Nat.le_trans (ih (m.erase entry.1)) ExtTreeMap.size_erase_le

private theorem ascending_toList (m : ExtTreeMap Nat β) : Ascending m.toList :=
  ExtTreeMap.ordered_keys_toList.imp fun h => Nat.compare_eq_lt.mp h

private theorem lookup_toList (m : ExtTreeMap Nat β) (i : Nat) : m.toList.lookup i = m[i]? := by
  cases h : m[i]? with
  | none =>
    refine List.lookup_eq_none_iff.mpr fun e he => bne_iff_ne.mpr ?_
    rintro rfl
    rw [ExtTreeMap.mem_toList_iff_getElem?_eq_some.mp he] at h
    cases h
  | some v =>
    have hmem : (i, v) ∈ m.toList := ExtTreeMap.mem_toList_iff_getElem?_eq_some.mpr h
    exact (ascending_toList m).lookup_of_mem hmem

theorem forall₂_toList {γ : Type} {m : ExtTreeMap Nat β} {entries : List (Nat × γ)}
    {R : Nat × γ → β → Prop} (h : Ascending entries)
    (hsome : ∀ e ∈ entries, ∃ v, m[e.1]? = some v ∧ R e v)
    (honly : ∀ (i : Nat) (v : β), m[i]? = some v → i ∈ entries.map Prod.fst) :
    List.Forall₂ R entries (m.toList.map Prod.snd) := by
  have hexists : ∃ l : List (Nat × β), l.map Prod.fst = entries.map Prod.fst ∧
      List.Forall₂ R entries (l.map Prod.snd) ∧ ∀ f ∈ l, m[f.1]? = some f.2 := by
    clear h honly
    induction entries with
    | nil => exact ⟨[], rfl, .nil, fun f hf => absurd hf List.not_mem_nil⟩
    | cons e rest ih =>
      obtain ⟨v, hv, hR⟩ := hsome e List.mem_cons_self
      obtain ⟨l, hkeys, hrel, hl⟩ := ih fun e' he' => hsome e' (List.mem_cons_of_mem e he')
      refine ⟨(e.1, v) :: l, ?_, .cons hR hrel, List.forall_mem_cons.mpr ⟨hv, hl⟩⟩
      rw [List.map_cons, List.map_cons, hkeys]
  obtain ⟨l, hkeys, hrel, hl⟩ := hexists
  have hascending : Ascending l := by
    have hpairwise : (l.map Prod.fst).Pairwise (· < ·) := by
      rw [hkeys]
      exact List.pairwise_map.mpr h
    exact List.pairwise_map.mp hpairwise
  have hlist : m.toList = l := by
    refine (ascending_toList m).ext hascending fun i => ?_
    rw [lookup_toList]
    cases hi : m[i]? with
    | none =>
      refine (List.lookup_eq_none_iff.mpr fun f hf => bne_iff_ne.mpr ?_).symm
      rintro rfl
      cases hi.symm.trans (hl f hf)
    | some v =>
      have hmem := honly i v hi
      rw [← hkeys] at hmem
      obtain ⟨f, hf, rfl⟩ := List.mem_map.mp hmem
      cases hi.symm.trans (hl f hf)
      exact (hascending.lookup_of_mem hf).symm
  rw [hlist]
  exact hrel

theorem map_snd_toList {m : ExtTreeMap Nat β} {l : List β} (h : ∀ i : Nat, m[i]? = l[i]?) :
    m.toList.map Prod.snd = l := by
  have hzip : Ascending (l.zipIdx.map fun e => (e.2, e.1)) := by
    unfold Ascending
    rw [List.pairwise_map, List.pairwise_iff_getElem]
    intro i j hi hj hlt
    simpa using hlt
  have hlist : m.toList = l.zipIdx.map fun e => (e.2, e.1) := by
    refine (ascending_toList m).ext hzip fun i => ?_
    rw [lookup_toList, h]
    cases hi : l[i]? with
    | none =>
      refine (List.lookup_eq_none_iff.mpr fun e he => bne_iff_ne.mpr ?_).symm
      rintro rfl
      obtain ⟨f, hf, rfl⟩ := List.mem_map.mp he
      rw [List.mem_zipIdx_iff_getElem?.mp hf] at hi
      cases hi
    | some v =>
      refine (hzip.lookup_of_mem (List.mem_map.mpr ⟨(v, i), ?_, rfl⟩)).symm
      exact List.mem_zipIdx_iff_getElem?.mpr hi
  rw [hlist, List.map_map]
  exact List.zipIdx_map_fst 0 l

end Zhir.Library.TreeMap
