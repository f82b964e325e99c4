import Mathlib.Data.List.Basic

/-!
A window of consecutive numbers: it grows at its upper end and is consumed from its lower
one.
-/

set_option autoImplicit false
set_option relaxedAutoImplicit false

namespace Zhir.Library

/-- The list holds the numbers from `lo` to below `hi`, in order. -/
structure Window (xs : List Nat) (lo hi : Nat) : Prop where
  le : lo ≤ hi
  eq : xs = List.range' lo (hi - lo)

namespace Window

variable {xs ys : List Nat} {x lo hi : Nat}

theorem nil (n : Nat) : Window [] n n := ⟨Nat.le_refl n, by simp⟩

theorem push (h : Window xs lo hi) : Window (xs ++ [hi]) lo (hi + 1) := by
  have hle := h.le
  refine ⟨by omega, ?_⟩
  have hlen : hi + 1 - lo = (hi - lo) + 1 := by omega
  have hlast : lo + (hi - lo) = hi := by omega
  rw [hlen, List.range'_1_concat, hlast, ← h.eq]

theorem pop (h : Window (x :: xs) lo hi) : x = lo ∧ Window xs (lo + 1) hi := by
  obtain ⟨hx, hpos, hrest⟩ := List.range'_eq_cons_iff.mp h.eq.symm
  refine ⟨hx.symm, by omega, ?_⟩
  have hlen : hi - lo - 1 = hi - (lo + 1) := by omega
  rw [hrest, hlen, hx]

theorem mem_iff (h : Window xs lo hi) : x ∈ xs ↔ lo ≤ x ∧ x < hi := by
  have hle := h.le
  rw [h.eq, List.mem_range'_1]
  omega

theorem first (h : Window (ys ++ lo :: xs) lo hi) : ys = [] := by
  cases ys with
  | nil => rfl
  | cons y rest =>
    obtain ⟨rfl, hrest⟩ := h.pop
    have hmem : y ∈ rest ++ y :: xs := by simp
    have hlt := (hrest.mem_iff.mp hmem).1
    omega

theorem empty_iff (h : Window xs lo hi) : xs = [] ↔ lo = hi := by
  have hle := h.le
  rw [h.eq, List.range'_eq_nil_iff]
  omega

/-- Looking the numbers of a window up in a list gives the list's elements from `lo` on. -/
theorem map_getElem? {α : Type} {as : List α} (h : Window xs lo as.length) :
    xs.map (fun i => as[i]?) = (as.drop lo).map some := by
  rw [h.eq]
  refine List.ext_getElem? fun i => ?_
  rw [List.getElem?_map, List.getElem?_map, List.getElem?_drop]
  by_cases hi : i < as.length - lo
  · have hlt : lo + i < as.length := by omega
    rw [List.getElem?_range' (by simpa using hi)]
    simp [List.getElem?_eq_getElem hlt]
  · have hge : as.length ≤ lo + i := by omega
    have hout : (List.range' lo (as.length - lo))[i]? = none := by
      rw [List.getElem?_eq_none_iff, List.length_range']
      omega
    rw [hout, List.getElem?_eq_none_iff.mpr hge]
    rfl

end Window

end Zhir.Library
