import Mathlib.Data.List.Chain
import Zhir.Library.Machine

/-!
Lines of symbols that end with a carriage return, a line feed or both, and the machine that reads
them one symbol at a time.
-/

set_option autoImplicit false
set_option relaxedAutoImplicit false

namespace Zhir.Library

structure LineMarks (α : Type) where
  cr : α
  lf : α
  distinct : cr ≠ lf

inductive LineEnd
  | lf
  | cr
  | crlf
  deriving DecidableEq, Repr

namespace LineMarks

variable {α : Type} (m : LineMarks α)

def ending : LineEnd → List α
  | .lf => [m.lf]
  | .cr => [m.cr]
  | .crlf => [m.cr, m.lf]

def write (lines : List (List α × LineEnd)) : List α :=
  lines.flatMap fun l => l.1 ++ m.ending l.2

def Plain (line : List α) : Prop :=
  m.cr ∉ line ∧ m.lf ∉ line

end LineMarks

/-- A line feed right after a carriage return is part of the same end, not an empty line. -/
def Legible {α : Type} (lines : List (List α × LineEnd)) : Prop :=
  lines.IsChain fun l l' => l.2 = .cr → l' ≠ ([], .lf)

/-- The symbols of the unfinished line, and whether a line feed still belongs to the last end. -/
structure LineReader (α : Type) where
  line : List α := []
  skipLf : Bool := false
  deriving DecidableEq, Repr

namespace LineReader

variable {α : Type} [DecidableEq α] (m : LineMarks α)

def step (r : LineReader α) (a : α) : LineReader α × Option (List α) :=
  if r.skipLf ∧ a = m.lf then ({ r with skipLf := false }, none)
  else if a ≠ m.lf ∧ a ≠ m.cr then (⟨r.line ++ [a], false⟩, none)
  else (⟨[], a = m.cr⟩, some r.line)

def machine : Machine (LineReader α) α (Option (List α)) :=
  ⟨step m⟩

def finished (r : LineReader α) (symbols : List α) : List (List α) :=
  ((machine m).answers r symbols).filterMap id

def fresh (skipLf : Bool) : LineReader α :=
  ⟨[], skipLf⟩

private theorem finished_append (r : LineReader α) (xs ys : List α) :
    finished m r (xs ++ ys) = finished m r xs ++ finished m ((machine m).after r xs) ys := by
  unfold finished
  rw [Machine.answers_append, List.filterMap_append]

theorem finished_cons (r : LineReader α) (a : α) (xs : List α) :
    finished m r (a :: xs) = (step m r a).2.toList ++ finished m (step m r a).1 xs := by
  unfold finished
  change (_ :: _).filterMap id = _
  cases h : (step m r a).2 with
  | none =>
    rw [List.filterMap_cons_none (by exact h)]
    rfl
  | some line =>
    rw [List.filterMap_cons_some (by exact h)]
    rfl

private theorem read_plain {line : List α} (hline : m.Plain line) (hne : line ≠ [])
    (r : LineReader α) :
    (machine m).after r line = ⟨r.line ++ line, false⟩ ∧ finished m r line = [] := by
  induction line generalizing r with
  | nil => exact absurd rfl hne
  | cons a rest ih =>
    obtain ⟨hcr, hlf⟩ := hline
    have hstep : step m r a = (⟨r.line ++ [a], false⟩, none) := by
      have hacr : a ≠ m.cr := fun h => hcr (h ▸ List.mem_cons_self)
      have half : a ≠ m.lf := fun h => hlf (h ▸ List.mem_cons_self)
      simp only [step, half, hacr, and_false, if_false, ne_eq, not_false_eq_true, and_self,
        if_true]
    have hafter : (machine m).after r (a :: rest) =
        (machine m).after ⟨r.line ++ [a], false⟩ rest := by
      change (machine m).after (step m r a).1 rest = _
      rw [hstep]
    rw [hafter, finished_cons, hstep]
    by_cases hrest : rest = []
    · subst hrest
      exact ⟨rfl, rfl⟩
    · obtain ⟨h₁, h₂⟩ := ih ⟨fun h => hcr (List.mem_cons_of_mem a h),
        fun h => hlf (List.mem_cons_of_mem a h)⟩ hrest ⟨r.line ++ [a], false⟩
      refine ⟨?_, ?_⟩
      · rw [h₁, List.append_assoc, List.singleton_append]
      · rw [h₂]
        rfl

/-- An end finishes the line, unless it is read as the rest of the end before. -/
private theorem read_ending (e : LineEnd) {r : LineReader α} (hr : r.skipLf = true → e ≠ .lf) :
    (machine m).after r (m.ending e) = fresh (e = .cr) ∧
      finished m r (m.ending e) = [r.line] := by
  have hlf : r.skipLf = false → step m r m.lf = (fresh false, some r.line) := by
    intro hskip
    simp [step, hskip, fresh, m.distinct.symm]
  have hcr : step m r m.cr = (fresh true, some r.line) := by
    simp [step, fresh, m.distinct]
  have hskipped : step m (fresh true : LineReader α) m.lf = (fresh false, none) := by
    simp [step, fresh]
  cases e with
  | lf =>
    have hskip : r.skipLf = false := by
      cases h : r.skipLf with
      | false => rfl
      | true => exact absurd rfl (hr h)
    refine ⟨?_, ?_⟩
    · change (step m r m.lf).1 = _
      rw [hlf hskip]
      rfl
    · change finished m r (m.lf :: []) = _
      rw [finished_cons, hlf hskip]
      rfl
  | cr =>
    refine ⟨?_, ?_⟩
    · change (step m r m.cr).1 = _
      rw [hcr]
      rfl
    · change finished m r (m.cr :: []) = _
      rw [finished_cons, hcr]
      rfl
  | crlf =>
    refine ⟨?_, ?_⟩
    · change (step m (step m r m.cr).1 m.lf).1 = _
      rw [hcr, hskipped]
      rfl
    · change finished m r (m.cr :: m.lf :: []) = _
      rw [finished_cons, finished_cons, hcr, hskipped]
      rfl

private theorem read_line {line : List α} (hline : m.Plain line) (e : LineEnd) {skip : Bool}
    (hskip : skip = true → (line, e) ≠ ([], .lf)) :
    (machine m).after (fresh skip) (line ++ m.ending e) = fresh (e = .cr) ∧
      finished m (fresh skip) (line ++ m.ending e) = [line] := by
  by_cases hne : line = []
  · subst hne
    apply read_ending m e
    intro h he
    exact hskip h (by rw [he])
  · obtain ⟨h₁, h₂⟩ := read_plain m hline hne (fresh skip)
    have hnext := read_ending m e (r := (⟨[] ++ line, false⟩ : LineReader α)) (by simp)
    rw [Machine.after_append, finished_append, h₁, h₂]
    exact hnext

theorem finished_write {lines : List (List α × LineEnd)} (hplain : ∀ l ∈ lines, m.Plain l.1)
    (hlegible : Legible lines) {skip : Bool}
    (hskip : skip = true → lines.head? ≠ some ([], .lf)) :
    finished m (fresh skip) (m.write lines) = lines.map Prod.fst := by
  induction lines generalizing skip with
  | nil => rfl
  | cons l rest ih =>
    have hfirst : skip = true → (l.1, l.2) ≠ ([], .lf) :=
      fun h he => hskip h (by rw [List.head?_cons, ← he])
    obtain ⟨h₁, h₂⟩ := read_line m (hplain l List.mem_cons_self) l.2 hfirst
    have hrest : finished m (fresh (l.2 = .cr)) (m.write rest) = rest.map Prod.fst := by
      apply ih (fun l' h => hplain l' (List.mem_cons_of_mem l h)) hlegible.tail
      intro hcr hhead
      cases rest with
      | nil => cases hhead
      | cons l' rest =>
        have hnot := (List.isChain_cons_cons.1 hlegible).1 (of_decide_eq_true hcr)
        exact hnot (Option.some.inj hhead)
    change finished m (fresh skip) ((l.1 ++ m.ending l.2) ++ m.write rest) = _
    rw [finished_append, h₁, h₂, hrest]
    rfl

end LineReader

end Zhir.Library
