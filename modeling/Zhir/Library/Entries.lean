import Mathlib.Data.List.TakeWhile
import Mathlib.Order.Lattice

/-!
Association lists that are kept in the order of their keys, and what a list of writes leaves in
one.
-/

set_option autoImplicit false
set_option relaxedAutoImplicit false

namespace Zhir.Library

variable {κ β : Type} [DecidableEq κ]

/-- Put a value under a key, in the place of what was there. -/
def insertKey [LT κ] [DecidableLT κ] (entries : List (κ × β)) (k : κ) (v : β) : List (κ × β) :=
  entries.takeWhile (fun e => decide (e.1 < k)) ++ (k, v) ::
    (entries.dropWhile (fun e => decide (e.1 < k))).filter (fun e => decide (e.1 ≠ k))

def lastValue (k : κ) (writes : List (κ × β)) : Option β :=
  (writes.filter fun w => decide (w.1 = k)).getLast?.map Prod.snd

private theorem lookup_append_of_free {k : κ} {xs : List (κ × β)} (h : ∀ e ∈ xs, e.1 ≠ k)
    (ys : List (κ × β)) : (xs ++ ys).lookup k = ys.lookup k := by
  induction xs with
  | nil => rfl
  | cons e rest ih =>
    have hne : (k == e.1) = false := beq_eq_false_iff_ne.2 (h e List.mem_cons_self).symm
    rw [List.cons_append, List.lookup_cons, hne]
    exact ih fun e he => h e (List.mem_cons_of_mem _ he)

theorem lookup_filter_ne {k k' : κ} (h : k ≠ k') (entries : List (κ × β)) :
    (entries.filter fun e => decide (e.1 ≠ k')).lookup k = entries.lookup k := by
  induction entries with
  | nil => rfl
  | cons e rest ih =>
    by_cases he : e.1 = k'
    · have hne : (k == e.1) = false := beq_eq_false_iff_ne.2 (by rw [he]; exact h)
      rw [List.filter_cons_of_neg (by simp [he]), ih, List.lookup_cons, hne]
    · rw [List.filter_cons_of_pos (by simp [he]), List.lookup_cons, List.lookup_cons, ih]

private theorem lookup_append_congr {k : κ} {xs ys zs : List (κ × β)}
    (h : ys.lookup k = zs.lookup k) :
    (xs ++ ys).lookup k = (xs ++ zs).lookup k := by
  induction xs with
  | nil => exact h
  | cons e rest ih =>
    rw [List.cons_append, List.cons_append, List.lookup_cons, List.lookup_cons, ih]

private theorem lastValue_cons (k : κ) (w : κ × β) (writes : List (κ × β)) :
    lastValue k (w :: writes) = (lastValue k writes).or (if w.1 = k then some w.2 else none) := by
  unfold lastValue
  by_cases h : w.1 = k
  · rw [List.filter_cons_of_pos (by simp [h]), List.getLast?_cons, if_pos h]
    cases (writes.filter fun w => decide (w.1 = k)).getLast? <;> rfl
  · rw [List.filter_cons_of_neg (by simp [h]), if_neg h, Option.or_none]

theorem lastValue_append (k : κ) (writes : List (κ × β)) (w : κ × β) :
    lastValue k (writes ++ [w]) = if k = w.1 then some w.2 else lastValue k writes := by
  unfold lastValue
  by_cases h : k = w.1
  · subst h
    simp
  · simp [h, Ne.symm h]

theorem lastValue_append_list (k : κ) (xs ys : List (κ × β)) :
    lastValue k (xs ++ ys) = (lastValue k ys).or (lastValue k xs) := by
  unfold lastValue
  rw [List.filter_append, List.getLast?_append]
  cases (ys.filter fun w => decide (w.1 = k)).getLast? <;> rfl

theorem lastValue_eq_none {k : κ} {writes : List (κ × β)} (h : ∀ w ∈ writes, w.1 ≠ k) :
    lastValue k writes = none := by
  unfold lastValue
  rw [List.filter_eq_nil_iff.mpr fun w hw => by simpa using h w hw]
  rfl

section

variable [LT κ] [DecidableLT κ]

theorem lookup_insertKey_of_ne {k k' : κ} (h : k ≠ k') (entries : List (κ × β)) (v : β) :
    (insertKey entries k' v).lookup k = entries.lookup k := by
  have hne : (k == k') = false := beq_eq_false_iff_ne.2 h
  have hrest : ((k', v) :: (entries.dropWhile fun e => decide (e.1 < k')).filter
      fun e => decide (e.1 ≠ k')).lookup k =
        (entries.dropWhile fun e => decide (e.1 < k')).lookup k := by
    rw [List.lookup_cons, hne]
    exact lookup_filter_ne h _
  unfold insertKey
  rw [lookup_append_congr hrest, List.takeWhile_append_dropWhile]

variable (irrefl : ∀ k : κ, ¬ k < k)

include irrefl in
theorem lookup_insertKey_self (entries : List (κ × β)) (k : κ) (v : β) :
    (insertKey entries k v).lookup k = some v := by
  have hbefore : ∀ e ∈ entries.takeWhile (fun e => decide (e.1 < k)), e.1 ≠ k := by
    intro e he heq
    have hlt := List.mem_takeWhile_imp he
    rw [heq] at hlt
    exact irrefl k (of_decide_eq_true hlt)
  unfold insertKey
  rw [lookup_append_of_free hbefore, List.lookup_cons, beq_self_eq_true]

include irrefl in
theorem lookup_foldl_insertKey (writes entries : List (κ × β)) (k : κ) :
    (writes.foldl (fun m w => insertKey m w.1 w.2) entries).lookup k =
      (lastValue k writes).or (entries.lookup k) := by
  induction writes generalizing entries with
  | nil => rfl
  | cons w rest ih =>
    rw [List.foldl_cons, ih, lastValue_cons, Option.or_assoc]
    congr 1
    by_cases h : w.1 = k
    · rw [if_pos h, ← h, lookup_insertKey_self irrefl]
      rfl
    · rw [if_neg h, lookup_insertKey_of_ne (Ne.symm h)]
      rfl

end

theorem mem_of_lastValue {k : κ} {v : β} {writes : List (κ × β)} (h : lastValue k writes = some v) :
    (k, v) ∈ writes := by
  unfold lastValue at h
  obtain ⟨w, hw, rfl⟩ := Option.map_eq_some_iff.1 h
  have hmem := List.mem_filter.1 (List.mem_of_getLast? hw)
  rw [← of_decide_eq_true hmem.2]
  exact hmem.1

theorem exists_lastValue {k : κ} {v : β} {writes : List (κ × β)} (h : (k, v) ∈ writes) :
    ∃ v', lastValue k writes = some v' := by
  have hmem : (k, v) ∈ writes.filter fun w => decide (w.1 = k) :=
    List.mem_filter.2 ⟨h, decide_eq_true rfl⟩
  cases hlast : (writes.filter fun w => decide (w.1 = k)).getLast? with
  | none =>
    rw [List.getLast?_eq_none_iff.1 hlast] at hmem
    cases hmem
  | some w => exact ⟨w.2, by rw [lastValue, hlast]; rfl⟩

section

variable {κ : Type} [LinearOrder κ]

def Ascending (entries : List (κ × β)) : Prop := entries.Pairwise fun e f => e.1 < f.1

private theorem lookup_eq_none_of_lt {k : κ} {entries : List (κ × β)} (h : ∀ e ∈ entries, k < e.1) :
    entries.lookup k = none := by
  refine List.lookup_eq_none_iff.mpr fun e he => ?_
  exact bne_iff_ne.mpr (ne_of_lt (h e he))

theorem Ascending.lookup_of_mem {k : κ} {v : β} {entries : List (κ × β)} (h : Ascending entries)
    (hmem : (k, v) ∈ entries) : entries.lookup k = some v := by
  induction entries with
  | nil => cases hmem
  | cons e rest ih =>
    obtain ⟨hfirst, hrest⟩ := List.pairwise_cons.mp h
    rcases List.mem_cons.mp hmem with rfl | hmem
    · rw [List.lookup_cons, beq_self_eq_true]
    · have hne : (k == e.1) = false := beq_eq_false_iff_ne.mpr (ne_of_gt (hfirst _ hmem))
      rw [List.lookup_cons, hne]
      exact ih hrest hmem

private theorem lookup_head (e : κ × β) (rest : List (κ × β)) :
    (e :: rest).lookup e.1 = some e.2 := by
  rw [List.lookup_cons, beq_self_eq_true]

theorem Ascending.ext {xs ys : List (κ × β)} (hx : Ascending xs) (hy : Ascending ys)
    (h : ∀ k, xs.lookup k = ys.lookup k) : xs = ys := by
  induction xs generalizing ys with
  | nil =>
    cases ys with
    | nil => rfl
    | cons f ys => cases (h f.1).trans (lookup_head f ys)
  | cons e xs ih =>
    obtain ⟨hfirst, hxs⟩ := List.pairwise_cons.mp hx
    cases ys with
    | nil => cases (lookup_head e xs).symm.trans (h e.1)
    | cons f ys =>
      obtain ⟨hfirst', hys⟩ := List.pairwise_cons.mp hy
      have hkey : e.1 = f.1 := by
        rcases lt_trichotomy e.1 f.1 with hlt | heq | hgt
        · have hnone : (f :: ys).lookup e.1 = none := lookup_eq_none_of_lt
            (List.forall_mem_cons.mpr ⟨hlt, fun g hg => lt_trans hlt (hfirst' g hg)⟩)
          cases (lookup_head e xs).symm.trans ((h e.1).trans hnone)
        · exact heq
        · have hnone : (e :: xs).lookup f.1 = none := lookup_eq_none_of_lt
            (List.forall_mem_cons.mpr ⟨hgt, fun g hg => lt_trans hgt (hfirst g hg)⟩)
          cases hnone.symm.trans ((h f.1).trans (lookup_head f ys))
      have hvalue : e.2 = f.2 := by
        have heq := (lookup_head e xs).symm.trans (h e.1)
        rw [hkey, lookup_head] at heq
        exact Option.some.inj heq
      have hrest : xs = ys := by
        refine ih hxs hys fun k => ?_
        by_cases hk : k = e.1
        · have hnone : ys.lookup e.1 = none := by
            rw [hkey]
            exact lookup_eq_none_of_lt hfirst'
          rw [hk, lookup_eq_none_of_lt hfirst, hnone]
        · have hne : (k == e.1) = false := beq_eq_false_iff_ne.mpr hk
          have hne' : (k == f.1) = false := hkey ▸ hne
          have htail := h k
          rw [List.lookup_cons, hne, List.lookup_cons, hne'] at htail
          exact htail
      rw [hrest, Prod.ext hkey hvalue]

theorem Ascending.insertKey {entries : List (κ × β)} (h : Ascending entries) (k : κ) (v : β) :
    Ascending (insertKey entries k v) := by
  have hbefore : ∀ e ∈ entries.takeWhile (fun e => decide (e.1 < k)), e.1 < k := by
    intro e he
    have hlt := List.mem_takeWhile_imp he
    exact of_decide_eq_true hlt
  have hdrop : ∀ e ∈ entries.dropWhile (fun e => decide (e.1 < k)), ¬ e.1 < k := by
    have hsorted := h.sublist (List.dropWhile_sublist fun e => decide (e.1 < k))
    cases hrest : entries.dropWhile (fun e => decide (e.1 < k)) with
    | nil => simp
    | cons first rest =>
      have hfirst : ¬ first.1 < k := by
        have hhead := List.head_dropWhile_not (fun e : κ × β => decide (e.1 < k))
          (by rw [hrest]; exact List.cons_ne_nil first rest)
        simp only [hrest, List.head_cons] at hhead
        exact of_decide_eq_false hhead
      rw [hrest] at hsorted
      refine List.forall_mem_cons.mpr ⟨hfirst, fun e he hlt => ?_⟩
      exact hfirst (lt_trans ((List.pairwise_cons.mp hsorted).1 e he) hlt)
  have hafter : ∀ e ∈ (entries.dropWhile (fun e => decide (e.1 < k))).filter
      (fun e => decide (e.1 ≠ k)), k < e.1 := by
    intro e he
    obtain ⟨hmem, hne⟩ := List.mem_filter.mp he
    exact lt_of_le_of_ne (not_lt.mp (hdrop e hmem)) (Ne.symm (of_decide_eq_true hne))
  unfold Library.insertKey
  refine List.pairwise_append.mpr ⟨h.sublist (List.takeWhile_sublist _), ?_, ?_⟩
  · refine List.pairwise_cons.mpr ⟨hafter, ?_⟩
    exact (h.sublist (List.dropWhile_sublist _)).sublist List.filter_sublist
  · intro e he f hf
    rcases List.mem_cons.mp hf with rfl | hf
    · exact hbefore e he
    · exact lt_trans (hbefore e he) (hafter f hf)

end

end Zhir.Library
