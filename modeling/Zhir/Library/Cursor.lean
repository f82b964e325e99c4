import Mathlib.Data.List.Basic

/-!
Delivery of numbered events behind a cursor: an event is new when its number lies above
the last one applied.
-/

set_option autoImplicit false
set_option relaxedAutoImplicit false

namespace Zhir.Library

variable {α : Type} (number : α → Nat)

def Increasing (stream : List α) : Prop := stream.Pairwise fun a b => number a < number b

/-- The cursor after a stream: its last number, or the cursor before it. -/
def cursorAfter (cursor : Option Nat) (stream : List α) : Option Nat :=
  (stream.getLast?.map number).or cursor

def newer (cursor : Option Nat) (a : α) : Bool := cursor.all fun last => last < number a

variable {number}

@[simp] theorem cursorAfter_cons (cursor : Option Nat) (a : α) (rest : List α) :
    cursorAfter number cursor (a :: rest) = cursorAfter number (some (number a)) rest := by
  unfold cursorAfter
  rw [List.getLast?_cons]
  cases rest.getLast? <;> rfl

theorem Increasing.tail {a : α} {rest : List α} (h : Increasing number (a :: rest)) :
    Increasing number rest := (List.pairwise_cons.mp h).2

theorem Increasing.head_lt {a b : α} {rest : List α} (h : Increasing number (a :: rest))
    (hb : b ∈ rest) : number a < number b := (List.pairwise_cons.mp h).1 b hb

theorem Increasing.newer_of_append {p q : List α} {cursor : Option Nat}
    (h : Increasing number (p ++ q)) (hcursor : ∀ b ∈ q, newer number cursor b = true) :
    ∀ b ∈ q, newer number (cursorAfter number cursor p) b = true := by
  intro b hb
  rcases hlast : p.getLast? with _ | a
  · simpa [cursorAfter, hlast] using hcursor b hb
  · have hlt := (List.pairwise_append.mp h).2.2 a (List.mem_of_getLast? hlast) b hb
    simpa [cursorAfter, hlast, newer] using hlt

theorem Increasing.seen {p : List α} (h : Increasing number p) (cursor : Option Nat) {a : α}
    (ha : a ∈ p) : p.getLast? = some a ∨
      ∃ last, cursorAfter number cursor p = some last ∧ number a < last := by
  induction p generalizing cursor with
  | nil => cases ha
  | cons b rest ih =>
    rcases List.mem_cons.mp ha with rfl | hmem
    · rcases hlast : rest.getLast? with _ | last
      · left
        rw [List.getLast?_cons, hlast]
        rfl
      · right
        refine ⟨number last, ?_, h.head_lt (List.mem_of_getLast? hlast)⟩
        rw [cursorAfter_cons, cursorAfter, hlast]
        rfl
    · rw [cursorAfter_cons]
      rcases ih h.tail (some (number b)) hmem with hlast | hlt
      · left
        rw [List.getLast?_cons, hlast]
        rfl
      · exact .inr hlt

end Zhir.Library
