import Zhir.Core.Value

/-!
How the file tools of the builtins read a file. A file is there with its bytes or
is not there; a path has been resolved inside the workspace before.
-/

set_option autoImplicit false
set_option relaxedAutoImplicit false

namespace Zhir.Builtins

open Zhir.Core

abbrev Bytes := List UInt8

def failure (code text : String) : Error := .runtimeTool { code := code, message := text }

/-- `workspace::MAX_BYTES`. -/
def maxBytes : Nat := 4 * 1024 * 1024

/-- What the tools take from the crates and the system below them: the digest of `sha2`, how
`Workspace::display` shows the file that a path resolves to, and the texts of the errors that the
system and the decoder report. -/
structure Host where
  digest : Bytes → String
  display : String → String
  utf8Error : Bytes → String
  notFound : String
  alreadyExists : String

/-- What can stop a step whatever the file holds. -/
inductive Fault
  | filesystem (text : String)
  | cancelled
  deriving DecidableEq, Repr

def Fault.error : Fault → Error
  | .filesystem text => failure "filesystem" text
  | .cancelled => .cancelled

def read (host : Host) : Option Bytes → Result Bytes
  | none => .error (failure "filesystem" host.notFound)
  | some bytes =>
    if maxBytes < bytes.length then .error (failure "file_too_large" "file exceeds 4 MiB")
    else .ok bytes

def asBytes (text : List Char) : Bytes := text.flatMap String.utf8EncodeChar

/-- The byte-order mark that `workspace::utf8` drops. -/
def byteOrderMark : Char := '\uFEFF'

/-- `strip_prefix('\u{feff}')`, the text itself without such a prefix. -/
def stripMark : List Char → List Char
  | [] => []
  | c :: text => if c = byteOrderMark then text else c :: text

def fromUtf8 (bytes : Bytes) : Option (List Char) :=
  (String.fromUTF8? bytes.toByteArray).map String.toList

def utf8 (host : Host) (bytes : Bytes) : Result (List Char) :=
  if 0 ∈ bytes then .error (failure "binary_file" "binary file")
  else
    match fromUtf8 bytes with
    | none => .error (failure "invalid_utf8" (host.utf8Error bytes))
    | some text => .ok (stripMark text)

def Marked (bytes : Bytes) : Prop := ∃ text, fromUtf8 bytes = some (byteOrderMark :: text)

variable {host : Host} {file : Option Bytes} {bytes : Bytes} {text : List Char}

theorem read_ok : read host file = .ok bytes ↔ file = some bytes ∧ bytes.length ≤ maxBytes := by
  constructor
  · intro h
    cases file with
    | none => cases h
    | some found =>
      simp only [read] at h
      by_cases hlarge : maxBytes < found.length
      · rw [if_pos hlarge] at h
        cases h
      · rw [if_neg hlarge] at h
        cases h
        exact ⟨rfl, by omega⟩
  · rintro ⟨rfl, hlength⟩
    exact if_neg (by omega)

private theorem asBytes_of_fromUtf8 (h : fromUtf8 bytes = some text) : asBytes text = bytes := by
  obtain ⟨s, hs, rfl⟩ := Option.map_eq_some_iff.mp h
  unfold String.fromUTF8? at hs
  by_cases hvalid : bytes.toByteArray.IsValidUTF8
  · rw [dif_pos hvalid] at hs
    have hbytes : s.toByteArray = bytes.toByteArray := by
      rw [← Option.some.inj hs]
      rfl
    have hencoded : (asBytes s.toList).toByteArray = bytes.toByteArray := by
      rw [← hbytes]
      exact String.utf8Encode_toList
    have h := congrArg (fun b => b.data.toList) hencoded
    simpa using h
  · rw [dif_neg hvalid] at hs
    cases hs

private theorem utf8_ok (h : utf8 host bytes = .ok text) :
    0 ∉ bytes ∧ ∃ whole, fromUtf8 bytes = some whole ∧ text = stripMark whole := by
  unfold utf8 at h
  by_cases hzero : 0 ∈ bytes
  · rw [if_pos hzero] at h
    cases h
  · rw [if_neg hzero] at h
    refine ⟨hzero, ?_⟩
    cases hwhole : fromUtf8 bytes with
    | none =>
      rw [hwhole] at h
      cases h
    | some whole =>
      rw [hwhole] at h
      cases h
      exact ⟨whole, rfl, rfl⟩

theorem eq_asBytes_of_utf8 (h : utf8 host bytes = .ok text) :
    (Marked bytes ∧ bytes = asBytes [byteOrderMark] ++ asBytes text) ∨
      (¬ Marked bytes ∧ bytes = asBytes text) := by
  obtain ⟨-, whole, hwhole, rfl⟩ := utf8_ok h
  have hbytes := asBytes_of_fromUtf8 hwhole
  have hunmarked (hhead : ∀ rest, whole ≠ byteOrderMark :: rest) : ¬ Marked bytes := by
    rintro ⟨rest, hrest⟩
    exact hhead rest (Option.some.inj (hwhole.symm.trans hrest))
  cases whole with
  | nil => exact .inr ⟨hunmarked (fun _ h => nomatch h), hbytes.symm⟩
  | cons c rest =>
    by_cases hc : c = byteOrderMark
    · subst hc
      refine .inl ⟨⟨rest, hwhole⟩, ?_⟩
      have hstrip : stripMark (byteOrderMark :: rest) = rest := by simp [stripMark]
      rw [hstrip, ← hbytes]
      exact List.flatMap_cons
    · refine .inr ⟨hunmarked fun _ h => hc (List.cons.inj h).1, ?_⟩
      have hstrip : stripMark (c :: rest) = c :: rest := if_neg hc
      rw [hstrip, hbytes]

end Zhir.Builtins
