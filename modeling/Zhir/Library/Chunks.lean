import Mathlib.Data.List.Basic

/-!
Append-only logs in chunks, newest chunk first. A chunk knows the length of the log up to its
end and a running digest after each of its items, so that an item is found and a common
prefix is checked without walking the whole log.
-/

set_option autoImplicit false
set_option relaxedAutoImplicit false

namespace Zhir.Library

structure Chunk (α δ : Type) where
  items : List α
  digests : List δ
  len : Nat
  digest : δ
  deriving DecidableEq, Repr

namespace Chunk

variable {α δ : Type}

def push (size : Nat) (item : α) (len : Nat) (digest : δ) :
    List (Chunk α δ) → List (Chunk α δ)
  | [] => [⟨[item], [digest], len, digest⟩]
  | chunk :: older =>
    if chunk.items.length < size then
      ⟨chunk.items ++ [item], chunk.digests ++ [digest], len, digest⟩ :: older
    else ⟨[item], [digest], len, digest⟩ :: chunk :: older

def all (chunks : List (Chunk α δ)) : List α := chunks.reverse.flatMap items

/-- The items from either end, collected newest chunk first and then reversed. -/
def iter (chunks : List (Chunk α δ)) : List α := (chunks.map items).reverse.flatten

def iterBack (chunks : List (Chunk α δ)) : List α :=
  (chunks.map items).reverse.reverse.flatMap List.reverse

def last (chunks : List (Chunk α δ)) : Option α :=
  chunks.head?.bind fun chunk => chunk.items.getLast?

def get (index : Nat) : List (Chunk α δ) → Option α
  | [] => none
  | chunk :: older =>
    if index ≥ chunk.len - chunk.items.length then
      chunk.items[index - (chunk.len - chunk.items.length)]?
    else get index older

/-- The running digest before the item at this offset of a chunk. -/
def digestBefore (zero : δ) (chunk : Chunk α δ) (older : List (Chunk α δ)) : Nat → Option δ
  | 0 => some (older.head?.elim zero digest)
  | offset + 1 => chunk.digests[offset]?

/-- The items after a prefix of some length and digest; nothing if the prefix differs. -/
def since [DecidableEq δ] (zero : δ) (len : Nat) (digest : δ) :
    List (Chunk α δ) → Option (List α)
  | [] => some []
  | chunk :: older =>
    let start := chunk.len - chunk.items.length
    if len ≥ start then
      if digestBefore zero chunk older (len - start) = some digest then
        some (chunk.items.drop (len - start))
      else none
    else (since zero len digest older).map (· ++ chunk.items)

section Holds

variable (zero : δ) (step : δ → α → δ)

/-- The digests after each of the items `ys` that follow `xs`. -/
def running (xs ys : List α) : List δ :=
  (List.range ys.length).map fun i => (xs ++ ys.take (i + 1)).foldl step zero

/-- The chunks hold exactly this log. -/
inductive Holds : List (Chunk α δ) → List α → Prop
  | nil : Holds [] []
  | cons {older : List (Chunk α δ)} {xs ys : List α} (h : Holds older xs) (hys : ys ≠ []) :
      Holds (⟨ys, running zero step xs ys, xs.length + ys.length, (xs ++ ys).foldl step zero⟩ ::
        older) (xs ++ ys)

variable {zero : δ} {step : δ → α → δ} {chunks : List (Chunk α δ)} {log : List α}

private theorem running_snoc (xs ys : List α) (y : α) :
    running zero step xs (ys ++ [y]) =
      running zero step xs ys ++ [(xs ++ ys ++ [y]).foldl step zero] := by
  unfold running
  rw [List.length_append, List.length_singleton, List.range_succ, List.map_append]
  congr 1
  · refine List.map_congr_left fun i hi => ?_
    rw [List.take_append_of_le_length (List.mem_range.mp hi)]
  · rw [List.map_singleton, List.take_of_length_le (by simp), List.append_assoc]

theorem holds_push (h : Holds zero step chunks log) (size : Nat) (item : α) :
    Holds zero step (push size item (log.length + 1) ((log ++ [item]).foldl step zero) chunks)
      (log ++ [item]) := by
  cases h with
  | nil => exact .cons .nil (List.cons_ne_nil item [])
  | @cons older xs ys h hys =>
    simp only [push]
    split
    · have hextended := @Holds.cons _ _ zero step older xs (ys ++ [item]) h (by simp)
      rw [running_snoc, List.length_append, List.length_singleton, ← List.append_assoc] at hextended
      rw [List.length_append]
      exact hextended
    · have hnext := @Holds.cons _ _ zero step _ _ [item] (.cons h hys) (List.cons_ne_nil item [])
      exact hnext

theorem all_of_holds (h : Holds zero step chunks log) : all chunks = log := by
  induction h with
  | nil => rfl
  | cons h hys ih =>
    unfold all at ih ⊢
    rw [List.reverse_cons, List.flatMap_append, ih]
    simp

theorem iter_of_holds (h : Holds zero step chunks log) : iter chunks = log := by
  rw [← all_of_holds h]
  unfold iter all
  rw [← List.map_reverse, List.flatMap_def]

theorem iterBack_of_holds (h : Holds zero step chunks log) : iterBack chunks = log.reverse := by
  rw [← iter_of_holds h]
  unfold iterBack iter
  rw [List.reverse_flatten, List.flatMap_def, List.map_reverse]

theorem last_of_holds (h : Holds zero step chunks log) : last chunks = log.getLast? := by
  cases h with
  | nil => rfl
  | @cons older xs ys h hys =>
    rw [List.getLast?_append_of_ne_nil xs hys]
    rfl

theorem get_of_holds (h : Holds zero step chunks log) (index : Nat) :
    get index chunks = log[index]? := by
  induction h with
  | nil => rfl
  | @cons older xs ys h hys ih =>
    simp only [get, Nat.add_sub_cancel]
    split
    · rename_i hindex
      rw [List.getElem?_append_right hindex]
    · rename_i hindex
      rw [ih, List.getElem?_append_left (by omega)]

private theorem digest_of_holds (h : Holds zero step chunks log) :
    chunks.head?.elim zero digest = log.foldl step zero := by
  cases h <;> rfl

private theorem digestBefore_of_holds {older : List (Chunk α δ)} {xs ys : List α}
    (h : Holds zero step older xs) {offset : Nat} (hoffset : offset ≤ ys.length) (len : Nat)
    (last : δ) :
    digestBefore zero ⟨ys, running zero step xs ys, len, last⟩ older offset =
      some ((xs ++ ys.take offset).foldl step zero) := by
  cases offset with
  | zero =>
    simp only [digestBefore, digest_of_holds h, List.take_zero, List.append_nil]
  | succ offset =>
    simp only [digestBefore, running]
    rw [List.getElem?_map, List.getElem?_range (by omega)]
    rfl

/-- What follows a prefix is found exactly when the prefix has the given digest. -/
theorem since_of_holds [DecidableEq δ] (h : Holds zero step chunks log) {len : Nat}
    (hlen : len ≤ log.length) (hchunks : chunks ≠ []) (digest : δ) :
    since zero len digest chunks =
      if (log.take len).foldl step zero = digest then some (log.drop len) else none := by
  induction h with
  | nil => exact absurd rfl hchunks
  | @cons older xs ys h hys ih =>
    simp only [since, Nat.add_sub_cancel]
    split
    · rename_i hstart
      have hoffset : len - xs.length ≤ ys.length := by
        rw [List.length_append] at hlen
        omega
      rw [digestBefore_of_holds h hoffset, List.take_append, List.drop_append,
        List.take_of_length_le hstart, List.drop_of_length_le hstart]
      simp only [Option.some.injEq, List.nil_append]
    · rename_i hstart
      have hle : len ≤ xs.length := by omega
      have holder : older ≠ [] := by
        rintro rfl
        cases h
        simp at hstart
      rw [ih hle holder, List.take_append_of_le_length hle, List.drop_append_of_le_length hle]
      split <;> rfl

end Holds

end Chunk

end Zhir.Library
