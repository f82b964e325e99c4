import Mathlib.Data.List.Induction

/-!
Lists whose items mark or end a segment: the marks before each end, and those after the last.
-/

set_option autoImplicit false
set_option relaxedAutoImplicit false

namespace Zhir.Library

variable {α β : Type}

/-- The segments that have ended, and the marks of the open one. -/
structure Segments (α β : Type) where
  ended : List (List α × β) := []
  marks : List α := []

namespace Segments

def push (s : Segments α β) : α ⊕ β → Segments α β
  | .inl a => { s with marks := s.marks ++ [a] }
  | .inr b => ⟨s.ended ++ [(s.marks, b)], []⟩

def of (items : List (α ⊕ β)) : Segments α β := items.foldl push {}

variable (items : List (α ⊕ β))

theorem of_append_mark (a : α) :
    of (items ++ [.inl a]) = { of items with marks := (of items).marks ++ [a] } := by
  unfold of
  rw [List.foldl_append]
  rfl

theorem of_append_end (b : β) :
    of (items ++ [.inr b]) = ⟨(of items).ended ++ [((of items).marks, b)], []⟩ := by
  unfold of
  rw [List.foldl_append]
  rfl

theorem ended_prefix (later : List (α ⊕ β)) :
    (of items).ended <+: (of (items ++ later)).ended := by
  induction later using List.reverseRecOn with
  | nil =>
    have h : items ++ [] = items := List.append_nil items
    exact h.symm ▸ List.prefix_rfl
  | append_singleton before item ih =>
    rw [← List.append_assoc]
    cases item with
    | inl a =>
      rw [of_append_mark]
      exact ih
    | inr b =>
      rw [of_append_end]
      exact ih.trans (List.prefix_append _ _)

end Segments

end Zhir.Library
