import Mathlib.Data.List.Basic

/-!
Several streams in one sequence: within a stream positions increase, and nothing follows
its final element.
-/

set_option autoImplicit false
set_option relaxedAutoImplicit false

namespace Zhir.Library

variable {α κ : Type} (stream : α → κ) (position : α → Nat) (final : α → Bool)

def Sequenced (xs : List α) : Prop :=
  xs.Pairwise fun a b => stream a = stream b → position a < position b ∧ final a = false

variable {stream position final}

namespace Sequenced

theorem nil : Sequenced stream position final [] := List.Pairwise.nil

theorem sublist {xs ys : List α} (h : Sequenced stream position final ys) (hsub : xs.Sublist ys) :
    Sequenced stream position final xs := List.Pairwise.sublist hsub h

theorem after {xs ys : List α} {a b : α} (h : Sequenced stream position final (xs ++ ys))
    (ha : a ∈ xs) (hb : b ∈ ys) (hsame : stream a = stream b) :
    position a < position b ∧ final a = false :=
  (List.pairwise_append.1 h).2.2 a ha b hb hsame

theorem snoc {xs : List α} {b : α} (h : Sequenced stream position final xs)
    (hb : ∀ a ∈ xs, stream a = stream b → position a < position b ∧ final a = false) :
    Sequenced stream position final (xs ++ [b]) := by
  refine List.pairwise_append.2 ⟨h, List.pairwise_singleton _ b, ?_⟩
  intro a ha c hc
  rw [List.mem_singleton.1 hc]
  exact hb a ha

private theorem countP_final_le [DecidableEq κ] {xs : List α}
    (h : Sequenced stream position final xs)
    (k : κ) : xs.countP (fun a => stream a = k && final a) ≤ 1 := by
  induction xs with
  | nil => exact Nat.zero_le 1
  | cons a rest ih =>
    obtain ⟨ha, hrest⟩ := List.pairwise_cons.1 h
    rw [List.countP_cons]
    by_cases hends : (decide (stream a = k) && final a) = true
    · obtain ⟨hstream, hfinal⟩ := Bool.and_eq_true _ _ ▸ hends
      have hstream : stream a = k := of_decide_eq_true hstream
      have hnone : rest.countP (fun b => stream b = k && final b) = 0 := by
        refine List.countP_eq_zero.2 fun b hb hb' => ?_
        obtain ⟨hb', -⟩ := Bool.and_eq_true _ _ ▸ hb'
        have hopen := (ha b hb (hstream.trans (of_decide_eq_true hb').symm)).2
        rw [hfinal] at hopen
        cases hopen
      rw [if_pos hends]
      omega
    · rw [if_neg hends]
      exact ih hrest

theorem countP_final_eq_one [DecidableEq κ] {xs : List α} (h : Sequenced stream position final xs)
    {k : κ} {a : α} (ha : a ∈ xs) (hstream : stream a = k) (hfinal : final a = true) :
    xs.countP (fun a => stream a = k && final a) = 1 := by
  have hle := h.countP_final_le k
  have hpos : 0 < xs.countP (fun a => stream a = k && final a) :=
    List.countP_pos_iff.2 ⟨a, ha, by simp [hstream, hfinal]⟩
  omega

theorem congr {μ : Type} {other : α → μ} {xs : List α} (h : Sequenced stream position final xs)
    (hsame : ∀ a ∈ xs, ∀ b ∈ xs, other a = other b → stream a = stream b) :
    Sequenced other position final xs := by
  refine List.Pairwise.imp_of_mem ?_ h
  intro a b ha hb hab hother
  exact hab (hsame a ha b hb hother)

end Sequenced

end Zhir.Library
