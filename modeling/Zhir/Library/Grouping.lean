import Mathlib.Data.List.Induction

/-!
Lists in which items with one key make a group. An item without a key is a group of its own.
A group stands where its first item stands.
-/

set_option autoImplicit false
set_option relaxedAutoImplicit false

namespace Zhir.Library.Grouping

variable {α β κ : Type} (key : α → Option κ)

def Leads (before : List α) (x : α) : Prop := ∀ k, key x = some k → ∀ y ∈ before, key y ≠ some k

instance decidableLeads [DecidableEq κ] (before : List α) (x : α) :
    Decidable (Leads key before x) :=
  match h : key x with
  | none => isTrue fun k hk => by rw [h] at hk; cases hk
  | some k =>
    decidable_of_iff (∀ y ∈ before, key y ≠ some k)
      ⟨fun hfree k' hk' => by rw [h] at hk'; cases hk'; exact hfree, fun hleads => hleads k h⟩

section

variable [DecidableEq κ]

def firstsAfter : List α → List α → List α
  | _, [] => []
  | before, x :: rest =>
    if Leads key before x then x :: firstsAfter (before ++ [x]) rest
    else firstsAfter (before ++ [x]) rest

def firsts (xs : List α) : List α := firstsAfter key [] xs

/-- The items of the group of `x`. -/
def group (x : α) (xs : List α) : List α :=
  if key x = none then [x] else xs.filter fun y => key y = key x

/-- One value for each group, made from its first item and all of its items. -/
def summary (build : α → List α → β) (xs : List α) : List β :=
  (firsts key xs).map fun x => build x (group key x xs)

end

variable {key} {before xs : List α} {x y : α} {k : κ}

theorem leads_of_none (h : key x = none) : Leads key before x := by
  intro k hk
  rw [h] at hk
  cases hk

theorem leads_iff (h : key x = some k) : Leads key before x ↔ ∀ y ∈ before, key y ≠ some k := by
  refine ⟨fun hleads => hleads k h, fun hfree k' hk' => ?_⟩
  rw [h] at hk'
  cases hk'
  exact hfree

section

variable [DecidableEq κ]

theorem filter_snoc_same (h : key x = some k) :
    (xs ++ [x]).filter (fun y => key y = some k) = (xs.filter fun y => key y = some k) ++ [x] := by
  simp [h]

theorem filter_snoc_other (h : key x ≠ some k) :
    (xs ++ [x]).filter (fun y => key y = some k) = xs.filter fun y => key y = some k := by
  simp [h]

theorem group_of_none (h : key x = none) : group key x xs = [x] := if_pos h

theorem group_of_some (h : key x = some k) :
    group key x xs = xs.filter fun y => key y = some k := by
  unfold group
  rw [if_neg (by rw [h]; exact Option.some_ne_none k), h]

private theorem firstsAfter_append (before xs ys : List α) :
    firstsAfter key before (xs ++ ys) =
      firstsAfter key before xs ++ firstsAfter key (before ++ xs) ys := by
  induction xs generalizing before with
  | nil => rw [List.append_nil]; rfl
  | cons x rest ih =>
    rw [List.cons_append, firstsAfter, firstsAfter, ih, List.append_assoc]
    split <;> rfl

theorem firsts_snoc (xs : List α) (x : α) :
    firsts key (xs ++ [x]) = if Leads key xs x then firsts key xs ++ [x] else firsts key xs := by
  unfold firsts
  rw [firstsAfter_append, List.nil_append, firstsAfter, firstsAfter]
  split
  · rfl
  · rw [List.append_nil]

theorem firsts_snoc_getElem {i : ℕ} {a : α} (h : (firsts key xs)[i]? = some a) :
    (firsts key (xs ++ [x]))[i]? = some a := by
  rw [firsts_snoc]
  split
  · rw [List.getElem?_append_left (List.getElem?_eq_some_iff.mp h).1]
    exact h
  · exact h

private theorem firstsAfter_sublist (before xs : List α) :
    (firstsAfter key before xs).Sublist xs := by
  induction xs generalizing before with
  | nil => exact .slnil
  | cons x rest ih =>
    rw [firstsAfter]
    split
    · exact (ih _).cons_cons x
    · exact (ih _).cons x

theorem firsts_sublist (xs : List α) : (firsts key xs).Sublist xs := firstsAfter_sublist [] xs

theorem filter_firsts_none (xs : List α) :
    (firsts key xs).filter (fun y => key y = none) = xs.filter fun y => key y = none := by
  induction xs using List.reverseRecOn with
  | nil => rfl
  | append_singleton xs x ih =>
    rw [firsts_snoc, List.filter_append, ← ih]
    split
    · rw [List.filter_append]
    · rename_i hnot
      have hsome : key x ≠ none := fun hnone => hnot (leads_of_none hnone)
      simp [hsome]

theorem filter_firsts_some (xs : List α) (k : κ) :
    (firsts key xs).filter (fun y => key y = some k) =
      (xs.filter fun y => key y = some k).take 1 := by
  induction xs using List.reverseRecOn with
  | nil => rfl
  | append_singleton xs x ih =>
    rw [firsts_snoc]
    by_cases hx : key x = some k
    · rw [filter_snoc_same hx]
      by_cases hleads : Leads key xs x
      · have hnone : xs.filter (fun y => key y = some k) = [] := by
          rw [List.filter_eq_nil_iff]
          intro y hy
          simpa using (leads_iff hx).mp hleads y hy
        rw [if_pos hleads, filter_snoc_same hx, ih, hnone]
        rfl
      · rw [if_neg hleads, ih]
        rw [leads_iff hx] at hleads
        push Not at hleads
        obtain ⟨y, hy, hyk⟩ := hleads
        have hmem : y ∈ xs.filter fun y => key y = some k :=
          List.mem_filter.mpr ⟨hy, decide_eq_true hyk⟩
        rw [List.take_append_of_le_length (List.length_pos_of_mem hmem)]
    · rw [filter_snoc_other hx, ← ih]
      split
      · rw [filter_snoc_other hx]
      · rfl

theorem mem_of_first (h : y ∈ firsts key xs) : y ∈ xs := (firsts_sublist xs).subset h

theorem exists_first (hy : y ∈ xs) (hk : key y = some k) :
    ∃ x ∈ firsts key xs, key x = some k := by
  have hmem : y ∈ xs.filter fun y => key y = some k :=
    List.mem_filter.mpr ⟨hy, decide_eq_true hk⟩
  have hfilter : (firsts key xs).filter (fun y => key y = some k) =
      (xs.filter fun y => key y = some k).take 1 := filter_firsts_some xs k
  cases hitems : xs.filter fun y => key y = some k with
  | nil =>
    rw [hitems] at hmem
    cases hmem
  | cons x rest =>
    rw [hitems] at hfilter
    have hx : x ∈ (firsts key xs).filter fun y => key y = some k := by
      rw [hfilter]
      exact List.mem_cons_self
    obtain ⟨hfirst, hkey⟩ := List.mem_filter.mp hx
    exact ⟨x, hfirst, of_decide_eq_true hkey⟩

private theorem first_unique {i j : ℕ} {a b : α} (hi : (firsts key xs)[i]? = some a)
    (hj : (firsts key xs)[j]? = some b) (ha : key a = some k) (hb : key b = some k) : i = j := by
  have hcount : (firsts key xs).countP (fun y => key y = some k) ≤ 1 := by
    rw [List.countP_eq_length_filter, filter_firsts_some]
    exact List.length_take_le _ _
  by_contra hne
  wlog hlt : i < j generalizing i j a b with hwlog
  · exact hwlog hj hi hb ha (Ne.symm hne) (by omega)
  have hsplit : (firsts key xs).countP (fun y => key y = some k) =
      ((firsts key xs).take j).countP (fun y => key y = some k) +
        ((firsts key xs).drop j).countP fun y => key y = some k := by
    rw [← List.countP_append, List.take_append_drop]
  have hbefore : 0 < ((firsts key xs).take j).countP fun y => key y = some k := by
    rw [List.countP_pos_iff]
    exact ⟨a, List.mem_of_getElem? (by rw [List.getElem?_take_of_lt hlt]; exact hi),
      decide_eq_true ha⟩
  have hafter : 0 < ((firsts key xs).drop j).countP fun y => key y = some k := by
    rw [List.countP_pos_iff]
    refine ⟨b, List.mem_of_getElem? (i := 0) ?_, decide_eq_true hb⟩
    rw [List.getElem?_drop, Nat.add_zero]
    exact hj
  omega

theorem keys_nodup (xs : List α) : ((firsts key xs).filterMap key).Nodup := by
  induction xs using List.reverseRecOn with
  | nil => exact List.nodup_nil
  | append_singleton xs x ih =>
    rw [firsts_snoc]
    split
    · rename_i hleads
      rw [List.filterMap_append, List.nodup_append]
      refine ⟨ih, ?_, ?_⟩
      · cases hx : key x with
        | none => simp [hx]
        | some k => simp [hx]
      · intro k hk k' hk' hsame
        subst hsame
        obtain ⟨y, hy, hyk⟩ := List.mem_filterMap.mp hk
        obtain ⟨x', hx', hxk⟩ := List.mem_filterMap.mp hk'
        obtain rfl := List.mem_singleton.mp hx'
        exact hleads k hxk y (mem_of_first hy) hyk
    · exact ih

theorem firstsAfter_split {first others : List α}
    (h : firstsAfter key before xs = first ++ x :: others) :
    ∃ front rest, xs = front ++ x :: rest ∧ firstsAfter key before front = first ∧
      Leads key (before ++ front) x ∧ firstsAfter key (before ++ front ++ [x]) rest = others := by
  induction xs generalizing before first with
  | nil =>
    rw [firstsAfter, eq_comm, List.append_eq_nil_iff] at h
    exact absurd h.2 (List.cons_ne_nil _ _)
  | cons z zs ih =>
    rw [firstsAfter] at h
    split at h
    · rename_i hleads
      cases first with
      | nil =>
        obtain ⟨rfl, rfl⟩ := List.cons.inj h
        exact ⟨[], zs, rfl, rfl, by rwa [List.append_nil], by rw [List.append_nil]⟩
      | cons z' first =>
        obtain ⟨hz, htail⟩ := List.cons.inj h
        subst hz
        obtain ⟨front, rest, rfl, hfirst, hx, hrest⟩ := ih htail
        rw [List.append_assoc] at hx hrest
        refine ⟨z :: front, rest, rfl, ?_, hx, by simpa using hrest⟩
        rw [firstsAfter, if_pos hleads, hfirst]
    · rename_i hleads
      obtain ⟨front, rest, rfl, hfirst, hx, hrest⟩ := ih h
      rw [List.append_assoc] at hx hrest
      refine ⟨z :: front, rest, rfl, ?_, hx, by simpa using hrest⟩
      rw [firstsAfter, if_neg hleads, hfirst]

section

variable {build : α → List α → β}

theorem summary_snoc_first (h : Leads key xs x) :
    summary key build (xs ++ [x]) = summary key build xs ++ [build x [x]] := by
  unfold summary
  rw [firsts_snoc, if_pos h, List.map_append, List.map_singleton]
  congr 1
  · refine List.map_congr_left fun y hy => ?_
    cases hkey : key y with
    | none => rw [group_of_none hkey, group_of_none hkey]
    | some k =>
      have hother : key x ≠ some k := fun hx => h k hx y (mem_of_first hy) hkey
      rw [group_of_some hkey, group_of_some hkey, filter_snoc_other hother]
  · cases hkey : key x with
    | none => rw [group_of_none hkey]
    | some k =>
      have hnone : xs.filter (fun y => key y = some k) = [] := by
        rw [List.filter_eq_nil_iff]
        intro y hy
        simpa using h k hkey y hy
      rw [group_of_some hkey, filter_snoc_same hkey, hnone, List.nil_append]

theorem summary_snoc_again {i : ℕ} {lead : α} (hi : (firsts key xs)[i]? = some lead)
    (hlead : key lead = some k) (hx : key x = some k) :
    summary key build (xs ++ [x]) =
      (summary key build xs).set i (build lead (group key lead xs ++ [x])) := by
  have hnot : ¬ Leads key xs x := fun hleads =>
    hleads k hx lead (mem_of_first (List.mem_of_getElem? hi)) hlead
  unfold summary
  rw [firsts_snoc, if_neg hnot]
  refine List.ext_getElem? fun j => ?_
  rw [List.getElem?_map, List.getElem?_set, List.length_map, List.getElem?_map]
  by_cases hij : i = j
  · subst hij
    obtain ⟨hlt, -⟩ := List.getElem?_eq_some_iff.mp hi
    rw [if_pos rfl, if_pos hlt, hi, Option.map_some, group_of_some hlead, group_of_some hlead,
      filter_snoc_same hx]
  · rw [if_neg hij]
    cases hy : (firsts key xs)[j]? with
    | none => rfl
    | some y =>
      simp only [Option.map_some]
      congr 2
      cases hkey : key y with
      | none => rw [group_of_none hkey, group_of_none hkey]
      | some k' =>
        have hother : key x ≠ some k' := by
          rw [hx]
          rintro ⟨⟩
          exact hij (first_unique hi hy hlead hkey)
        rw [group_of_some hkey, group_of_some hkey, filter_snoc_other hother]

theorem summary_length (build : α → List α → β) (xs : List α) :
    (summary key build xs).length = (firsts key xs).length := List.length_map _

theorem summary_getElem {i : ℕ} (hi : (firsts key xs)[i]? = some x) :
    (summary key build xs)[i]? = some (build x (group key x xs)) := by
  unfold summary
  rw [List.getElem?_map, hi]
  rfl

end

end

end Zhir.Library.Grouping
