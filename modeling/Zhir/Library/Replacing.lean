import Mathlib.Data.List.Basic

/-!
Replacing the occurrences of a list in a text. The text is scanned from the
left; each match is the leftmost one in what the match before it left over, so
that matches never overlap, and at most a given number of them is taken.
-/

set_option autoImplicit false
set_option relaxedAutoImplicit false

namespace Zhir.Library

variable {α β : Type}

/-- The text `ys` is `xs` with `n` occurrences of `old` replaced by `new` and
everything between them kept. -/
inductive Replaced (old new : List α) : Nat → List α → List α → Prop
  | kept (text : List α) : Replaced old new 0 text text
  | next {n : Nat} {rest rest' : List α} (before : List α) :
      Replaced old new n rest rest' →
      Replaced old new (n + 1) (before ++ old ++ rest) (before ++ new ++ rest')

namespace Replaced

variable {old new xs ys : List α} {n : Nat}

theorem flatMap (f : α → List β) (h : Replaced old new n xs ys) :
    Replaced (old.flatMap f) (new.flatMap f) n (xs.flatMap f) (ys.flatMap f) := by
  induction h with
  | kept text => exact .kept _
  | next before _ ih =>
    simp only [List.flatMap_append]
    exact .next _ ih

theorem length (h : Replaced old new n xs ys) :
    ys.length + n * old.length = xs.length + n * new.length := by
  induction h with
  | kept text => omega
  | @next n rest rest' before h ih =>
    have hold : (n + 1) * old.length = n * old.length + old.length := Nat.succ_mul _ _
    have hnew : (n + 1) * new.length = n * new.length + new.length := Nat.succ_mul _ _
    simp only [List.length_append]
    omega

private theorem eq_of_zero (h : Replaced old new n xs ys) (hn : n = 0) : xs = ys := by
  cases h with
  | kept text => rfl
  | next before h => exact absurd hn (Nat.succ_ne_zero _)

theorem eq_of_emptied (h : Replaced old new n xs ys) (hn : n = 1) (hys : ys = []) :
    xs = old := by
  cases h with
  | kept text => omega
  | @next n rest rest' before h =>
    have hrest : rest = rest' := h.eq_of_zero (by omega)
    obtain ⟨hstart, hrest'⟩ := List.append_eq_nil_iff.mp hys
    obtain ⟨hbefore, -⟩ := List.append_eq_nil_iff.mp hstart
    rw [hrest, hrest', hbefore, List.nil_append, List.append_nil]

end Replaced

variable [DecidableEq α]

/-- How often `old` matches in a text, counting no further than a limit. -/
def count (old : List α) : Nat → List α → Nat
  | 0, _ => 0
  | limit + 1, text =>
    match text.dropInfix? old with
    | none => 0
    | some (_, rest) => count old limit rest + 1

/-- The text with at most `limit` matches of `old` replaced by `new`. -/
def replacen (old new : List α) : Nat → List α → List α
  | 0, text => text
  | limit + 1, text =>
    match text.dropInfix? old with
    | none => text
    | some (before, rest) => before ++ new ++ replacen old new limit rest

section Matching

variable {old new text before rest : List α} {limit more : Nat}

private theorem eq_of_dropInfix (h : text.dropInfix? old = some (before, rest)) :
    text = before ++ old ++ rest := by
  obtain ⟨⟨found, htext, hfound⟩, -⟩ := List.dropInfix?_eq_some_iff.mp h
  rw [htext, beq_iff_eq.mp hfound]

theorem replaced_replacen (limit : Nat) (text : List α) :
    Replaced old new (count old limit text) text (replacen old new limit text) := by
  induction limit generalizing text with
  | zero => exact .kept text
  | succ limit ih =>
    unfold count replacen
    cases hmatch : text.dropInfix? old with
    | none => exact .kept text
    | some parts =>
      obtain ⟨before, rest⟩ := parts
      have htext : text = before ++ old ++ rest := eq_of_dropInfix hmatch
      show Replaced old new (count old limit rest + 1) text _
      rw [htext]
      exact .next before (ih rest)

theorem count_eq_min (old : List α) (h : limit ≤ more) (text : List α) :
    count old limit text = min limit (count old more text) := by
  induction limit generalizing more text with
  | zero => exact (Nat.zero_min _).symm
  | succ limit ih =>
    obtain ⟨more, rfl⟩ : ∃ m, more = m + 1 := ⟨more - 1, by omega⟩
    unfold count
    cases text.dropInfix? old with
    | none => rfl
    | some parts =>
      have hrest := ih (show limit ≤ more by omega) parts.2
      show count old limit parts.2 + 1 = min (limit + 1) (count old more parts.2 + 1)
      omega

theorem count_self (hold : old ≠ []) : count old old.length old = 1 := by
  obtain ⟨a, tail, rfl⟩ := List.exists_cons_of_ne_nil hold
  have hmatch : (a :: tail).dropInfix? (a :: tail) = some ([], []) := by
    have hdrop : (a :: tail).dropPrefix? (a :: tail) = some [] :=
      List.dropPrefix?_eq_some_iff.mpr ⟨a :: tail, (List.append_nil _).symm, beq_self_eq_true _⟩
    unfold List.dropInfix? List.dropInfix?.go
    rw [hdrop]
    rfl
  have hnone : count (a :: tail) tail.length [] = 0 := by
    cases tail with
    | nil => rfl
    | cons b tail => rfl
  show count (a :: tail) (tail.length + 1) (a :: tail) = 1
  unfold count
  rw [hmatch]
  show count (a :: tail) tail.length [] + 1 = 1
  rw [hnone]

end Matching

end Zhir.Library
