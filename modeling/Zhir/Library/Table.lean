import Mathlib.Data.List.Nodup

/-!
Tables of rows under a unique key.
-/

set_option autoImplicit false
set_option relaxedAutoImplicit false

namespace Zhir.Library

/-- Rows in insertion order, no two of them under one key. -/
structure Table (ρ : Type) {κ : Type} (key : ρ → κ) where
  rows : List ρ
  unique : (rows.map key).Nodup

namespace Table

variable {ρ κ : Type} {key : ρ → κ}

def empty : Table ρ key := ⟨[], List.nodup_nil⟩

def find [DecidableEq κ] (t : Table ρ key) (k : κ) : Option ρ :=
  t.rows.find? fun r => key r = k

def select (t : Table ρ key) (p : ρ → Bool) : List ρ := t.rows.filter p

def insert [DecidableEq κ] (t : Table ρ key) (r : ρ) : Option (Table ρ key) :=
  if h : key r ∈ t.rows.map key then none
  else some
    { rows := t.rows ++ [r]
      unique := by
        rw [List.map_append, List.nodup_append_comm]
        exact List.nodup_cons.mpr ⟨h, t.unique⟩ }

def delete (t : Table ρ key) (p : ρ → Bool) : Table ρ key where
  rows := t.rows.filter fun r => !p r
  unique := t.unique.sublist (List.filter_sublist.map key)

/-- Change the other columns of the rows with `p`. -/
def update (t : Table ρ key) (p : ρ → Bool) (f : ρ → ρ) (hf : ∀ r, key (f r) = key r) :
    Table ρ key where
  rows := t.rows.map fun r => if p r then f r else r
  unique := by
    have hkey : (key ∘ fun r => if p r then f r else r) = key := by
      funext r
      simp only [Function.comp_apply]
      split
      · exact hf r
      · rfl
    rw [List.map_map, hkey]
    exact t.unique

/-- The number of rows with `p`. -/
def affected (t : Table ρ key) (p : ρ → Bool) : Nat := (t.select p).length

variable {t t' : Table ρ key} {r : ρ} {k : κ}

theorem select_append (h : t'.rows = t.rows ++ [r]) (p : ρ → Bool) :
    t'.select p = t.select p ++ if p r then [r] else [] := by
  unfold select
  rw [h, List.filter_append]
  cases hp : p r <;> simp [hp]

theorem select_delete (p q : ρ → Bool) :
    (t.delete p).select q = (t.select q).filter fun r => !p r := by
  simp only [select, delete, List.filter_filter]
  congr 1
  funext r
  exact Bool.and_comm _ _

variable [DecidableEq κ]

private theorem mem_of_find (h : t.find k = some r) : r ∈ t.rows := List.mem_of_find?_eq_some h

theorem key_of_find (h : t.find k = some r) : key r = k := by
  simpa using List.find?_some h

theorem find_eq_none : t.find k = none ↔ k ∉ t.rows.map key := by
  simp [find, List.find?_eq_none]

theorem insert_of_free (h : t.find (key r) = none) :
    ∃ t', t.insert r = some t' ∧ t'.rows = t.rows ++ [r] :=
  ⟨_, dif_neg (find_eq_none.mp h), rfl⟩

theorem find_append (h : t'.rows = t.rows ++ [r]) (hfree : t.find (key r) = none) :
    t'.find k = if key r = k then some r else t.find k := by
  unfold find at *
  rw [h, List.find?_append, List.find?_singleton]
  by_cases hk : key r = k
  · subst hk
    simp [hfree]
  · simp [hk]

theorem find_delete {p : ρ → Bool} {q : κ → Bool} (hp : ∀ r, p r = q (key r)) :
    (t.delete p).find k = if q k then none else t.find k := by
  unfold find delete
  rw [List.find?_filter]
  by_cases hk : q k = true
  · simp only [hk, if_true, List.find?_eq_none, Bool.not_eq_true',
      decide_eq_true_eq, not_and]
    intro r _ hr hkey
    rw [hp, hkey, hk] at hr
    cases hr
  · simp only [hk, Bool.false_eq_true, if_false]
    congr 1
    funext r
    by_cases hkey : key r = k
    · simp [hp, hkey, hk]
    · simp [hkey]

theorem find_update {p : ρ → Bool} {f : ρ → ρ} {hf : ∀ r, key (f r) = key r} :
    (t.update p f hf).find k = (t.find k).map fun r => if p r then f r else r := by
  have hkey : (fun r : ρ => decide (key r = k)) ∘ (fun r => if p r then f r else r) =
      fun r => decide (key r = k) := by
    funext r
    simp only [Function.comp_apply]
    split
    · rw [hf]
    · rfl
  unfold find update
  rw [List.find?_map, hkey]

theorem affected_of_find {p : ρ → Bool} (h : t.find k = some r) (hp : ∀ s, p s = true → key s = k)
    (hr : p r = true) : t.affected p = 1 := by
  have hmem := mem_of_find h
  have hsame : ∀ s ∈ t.rows, p s = true → s = r := by
    intro s hs hps
    refine List.inj_on_of_nodup_map t.unique hs hmem ?_
    rw [hp s hps, key_of_find h]
  have hselected : ∀ s ∈ t.select p, s = r := by
    intro s hs
    rw [select, List.mem_filter] at hs
    exact hsame s hs.1 hs.2
  have hreplicate : t.select p = List.replicate (t.affected p) r :=
    List.eq_replicate_of_mem hselected
  have hnodup : (List.replicate (t.affected p) r).Nodup := by
    rw [← hreplicate]
    exact (t.unique.of_map key).filter p
  have hpositive : 0 < t.affected p :=
    List.length_pos_of_mem (List.mem_filter.mpr ⟨hmem, hr⟩)
  have hle : t.affected p ≤ 1 := List.nodup_replicate.mp hnodup
  omega

end Table

end Zhir.Library
