import Mathlib.Data.List.Nodup
import Mathlib.Data.List.Induction

/-!
Lists in which some items open a matter and later ones answer it. When nothing stands between an
opening and its answers but answers to it, the list falls into parts: each item that answers
nothing, with the answers to it right behind.
-/

set_option autoImplicit false
set_option relaxedAutoImplicit false

namespace Zhir.Library.Answers

variable {α κ : Type}

/-- A matter is opened once, before its answers, and no answer opens one. -/
structure Ordered (opens answers : α → Option κ) (xs : List α) : Prop where
  opened : ∀ before z after k, xs = before ++ z :: after → answers z = some k →
    ∃ x ∈ before, opens x = some k
  apart : ∀ x ∈ xs, ∀ k, opens x = some k → answers x = none
  once : (xs.filterMap opens).Nodup

/-- Between an opening and its answers there are only answers to it. -/
def Undisturbed (opens answers : α → Option κ) (xs : List α) : Prop :=
  ∀ before x between z after k, xs = before ++ x :: (between ++ z :: after) →
    opens x = some k → answers z = some k → ∀ y ∈ between, answers y = some k

def join (parts : List (α × List α)) : List α := parts.flatMap fun part => part.1 :: part.2

private theorem join_snoc (parts : List (α × List α)) (part : α × List α) :
    join (parts ++ [part]) = join parts ++ part.1 :: part.2 := by
  simp [join]

theorem join_map {β : Type} (f : α → β) (parts : List (α × List α)) :
    (join parts).map f = join (parts.map fun part => (f part.1, part.2.map f)) := by
  simp [join, List.map_flatMap, List.flatMap_map]

variable {opens answers : α → Option κ} {xs : List α} {z : α}

theorem Ordered.init (h : Ordered opens answers (xs ++ [z])) : Ordered opens answers xs where
  opened before y after k hsplit hy := by
    refine h.opened before y (after ++ [z]) k ?_ hy
    rw [hsplit, List.append_assoc]
    rfl
  apart x hx := h.apart x (List.mem_append_left _ hx)
  once := by
    have honce := h.once
    rw [List.filterMap_append] at honce
    exact (List.nodup_append.mp honce).1

theorem Undisturbed.init (h : Undisturbed opens answers (xs ++ [z])) :
    Undisturbed opens answers xs := by
  intro before x between y after k hsplit hx hy
  refine h before x between y (after ++ [z]) k ?_ hx hy
  rw [hsplit]
  simp

theorem Ordered.fresh (h : Ordered opens answers (xs ++ [z])) {k : κ} {x : α} (hx : x ∈ xs)
    (hopens : opens x = some k) : opens z ≠ some k := by
  intro hz
  have honce := h.once
  rw [List.filterMap_append] at honce
  refine (List.nodup_append.mp honce).2.2 k (List.mem_filterMap.mpr ⟨x, hx, hopens⟩) k ?_ rfl
  simp [hz]

theorem Ordered.other {parts : List (α × List α)} {last : α × List α}
    (h : Ordered opens answers (join (parts ++ [last]))) {part : α × List α} (hpart : part ∈ parts)
    {k : κ} (hopens : opens last.1 = some k) : opens part.1 ≠ some k := by
  intro hsame
  have honce := h.once
  rw [join_snoc, List.filterMap_append] at honce
  refine (List.nodup_append.mp honce).2.2 k (List.mem_filterMap.mpr ⟨part.1, ?_, hsame⟩) k ?_ rfl
  · exact List.mem_flatMap.mpr ⟨part, hpart, List.mem_cons_self⟩
  · rw [List.filterMap_cons_some hopens]
    exact List.mem_cons_self

section

variable [DecidableEq κ]

/-- An item that answers nothing, and all answers to what it opens. -/
structure Part (opens answers : α → Option κ) (xs : List α) (part : α × List α) : Prop where
  head : answers part.1 = none
  all : ∀ k, opens part.1 = some k → part.2 = xs.filter fun y => answers y = some k
  none : opens part.1 = none → part.2 = []

private theorem snoc_head (hordered : Ordered opens answers (xs ++ [z])) {parts : List (α × List α)}
    (hjoin : xs = join parts) (hparts : ∀ part ∈ parts, Part opens answers xs part)
    (hz : answers z = none) :
    ∃ parts, xs ++ [z] = join parts ∧ ∀ part ∈ parts, Part opens answers (xs ++ [z]) part := by
  have hfilter : ∀ k, (xs ++ [z]).filter (fun y => answers y = some k) =
      xs.filter fun y => answers y = some k := by
    intro k
    simp [hz]
  refine ⟨parts ++ [(z, [])], by rw [join_snoc, hjoin], ?_⟩
  intro part hpart
  rcases List.mem_append.mp hpart with hpart | hpart
  · have hold := hparts part hpart
    exact ⟨hold.head, fun k hk => (hold.all k hk).trans (hfilter k).symm, hold.none⟩
  · obtain rfl := List.mem_singleton.mp hpart
    refine ⟨hz, fun k hk => ?_, fun _ => rfl⟩
    rw [hfilter, eq_comm, List.filter_eq_nil_iff]
    intro y hy hanswers
    obtain ⟨before, after, hsplit⟩ := List.append_of_mem hy
    obtain ⟨x, hx, hopens⟩ := hordered.init.opened before y after k hsplit (by simpa using hanswers)
    refine hordered.fresh ?_ hopens hk
    rw [hsplit]
    exact List.mem_append_left _ hx

private theorem snoc_answer (hordered : Ordered opens answers (xs ++ [z]))
    (hundisturbed : Undisturbed opens answers (xs ++ [z])) {parts : List (α × List α)}
    (hjoin : xs = join parts) (hparts : ∀ part ∈ parts, Part opens answers xs part) {k : κ}
    (hz : answers z = some k) :
    ∃ parts, xs ++ [z] = join parts ∧ ∀ part ∈ parts, Part opens answers (xs ++ [z]) part := by
  obtain ⟨x, hx, hopens⟩ := hordered.opened xs z [] k rfl hz
  rcases List.eq_nil_or_concat parts with rfl | ⟨parts, ⟨h, answered⟩, rfl⟩
  · rw [hjoin] at hx
    cases hx
  rw [List.concat_eq_append] at hjoin hparts
  obtain ⟨hfront, hlast⟩ := List.forall_mem_append.mp hparts
  have hlast : Part opens answers xs (h, answered) := hlast _ (List.mem_singleton_self _)
  have hanswered : ∀ y ∈ answered, answers y ≠ none := by
    intro y hy
    cases hh : opens h with
    | none =>
      have hempty : answered = [] := hlast.none hh
      rw [hempty] at hy
      cases hy
    | some k' =>
      have hall : answered = xs.filter fun y => answers y = some k' := hlast.all k' hh
      rw [hall] at hy
      have hy := (List.mem_filter.mp hy).2
      rw [of_decide_eq_true hy]
      exact Option.some_ne_none k'
  have hsplit : xs = join parts ++ h :: answered := by rw [hjoin, join_snoc]
  -- The opening is the last head: any other one has that head between itself and the answer.
  have hhead : opens h = some k := by
    rw [hsplit] at hx
    rcases List.mem_append.mp hx with hx | hx
    · obtain ⟨before, after, hbefore⟩ := List.append_of_mem hx
      have hbetween := hundisturbed before x (after ++ h :: answered) z [] k
        (by rw [hsplit, hbefore]; simp) hopens hz h (by simp)
      rw [hlast.head] at hbetween
      cases hbetween
    · rcases List.mem_cons.mp hx with rfl | hx
      · exact hopens
      · exact absurd (hordered.init.apart x (hsplit ▸ by simp [hx]) k hopens) (hanswered x hx)
  refine ⟨parts ++ [(h, answered ++ [z])], by rw [join_snoc, hsplit]; simp, ?_⟩
  intro part hpart
  rcases List.mem_append.mp hpart with hpart | hpart
  · have hold := hfront part hpart
    refine ⟨hold.head, fun k' hk' => ?_, hold.none⟩
    have hne : k' ≠ k := by
      rintro rfl
      exact Ordered.other (hjoin ▸ hordered.init) hpart hhead hk'
    rw [hold.all k' hk', List.filter_append]
    simp [hz, Ne.symm hne]
  · obtain rfl := List.mem_singleton.mp hpart
    refine ⟨hlast.head, fun k' hk' => ?_, fun hnone => ?_⟩
    · rw [hhead] at hk'
      cases hk'
      have hall : answered = xs.filter fun y => answers y = some k := hlast.all k hhead
      rw [List.filter_append, ← hall]
      simp [hz]
    · rw [hhead] at hnone
      cases hnone

theorem exists_parts (hordered : Ordered opens answers xs)
    (hundisturbed : Undisturbed opens answers xs) :
    ∃ parts, xs = join parts ∧ ∀ part ∈ parts, Part opens answers xs part := by
  induction xs using List.reverseRecOn with
  | nil => exact ⟨[], rfl, by simp⟩
  | append_singleton xs z ih =>
    obtain ⟨parts, hjoin, hparts⟩ := ih hordered.init hundisturbed.init
    cases hz : answers z with
    | none => exact snoc_head hordered hjoin hparts hz
    | some k => exact snoc_answer hordered hundisturbed hjoin hparts hz

end

end Zhir.Library.Answers
