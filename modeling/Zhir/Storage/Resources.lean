import Std.Data.ExtTreeMap
import Zhir.Core.Resource

/-!
`MemoryResourceStore`: resources by key.
-/

set_option autoImplicit false
set_option relaxedAutoImplicit false

namespace Zhir.Storage

open Std Zhir.Core

namespace Resources

/-- One resource; its chunks only matter joined. -/
structure Stored where
  mediaType : String
  bytes : List UInt8
  deriving DecidableEq

abbrev Entries := ExtTreeMap String Stored

def validate (key mediaType : String) : Result Unit :=
  if key = "" ∨ mediaType = "" then .error (.invalid "resource key and media type required")
  else .ok ()

def storedKey (reference : ResourceRef) : Result String := do
  reference.validate
  match reference.source with
  | .stored key => return key
  | _ => throw (.invalid "resource is not stored")

def reference (id key mediaType : String) : ResourceRef :=
  { id, mediaType, name := none, source := .stored key, metadata := [] }

/-- `create`, `append` of every chunk and `finish`. -/
def put (key mediaType : String) (bytes : List UInt8) (entries : Entries) :
    Result (ResourceRef × Entries) := do
  validate key mediaType
  let stored : Stored := { mediaType, bytes }
  match entries[key]? with
  | some old =>
    if old ≠ stored then
      throw (.resource s!"resource key has different contents: {key}")
    else return (reference key key mediaType, entries)
  | none => return (reference key key mediaType, entries.insert key stored)

/-- `open` and `read` up to the end. -/
def read (reference : ResourceRef) (entries : Entries) : Result (List UInt8) := do
  let key ← storedKey reference
  match entries[key]? with
  | none => throw (.resource s!"resource not found: {key}")
  | some stored =>
    if stored.mediaType ≠ reference.mediaType then
      throw (.invalid "resource media type mismatch")
    else return stored.bytes

end Resources

open Resources

def memoryResourceStore : ResourceStore Resources.Entries where
  put := Resources.put
  read := Resources.read

namespace Resources

private theorem put_ok {key mediaType : String} {bytes : List UInt8} {entries entries' : Entries}
    {r : ResourceRef} (h : put key mediaType bytes entries = .ok (r, entries')) :
    r = reference key key mediaType ∧ entries'[key]? = some { mediaType, bytes } ∧
      ∀ (k : String) (stored : Stored), entries[k]? = some stored →
        entries'[k]? = some stored := by
  obtain ⟨_, -, h⟩ := Result.bind_ok h
  cases hold : entries[key]? with
  | some old =>
    simp only [hold] at h
    split at h
    · cases h
    · rename_i hsame
      cases h
      obtain rfl : old = { mediaType, bytes } := not_not.mp hsame
      exact ⟨rfl, hold, fun _ _ h => h⟩
  | none =>
    simp only [hold] at h
    cases h
    refine ⟨rfl, ExtTreeMap.getElem?_insert_self, ?_⟩
    intro k stored hk
    have hne : key ≠ k := by
      rintro rfl
      cases hold.symm.trans hk
    rw [ExtTreeMap.getElem?_insert, if_neg (by simpa using hne)]
    exact hk

theorem read_iff {r : ResourceRef} {entries : Entries} {bytes : List UInt8} :
    read r entries = .ok bytes ↔ r.validate = .ok () ∧ ∃ key, r.source = .stored key ∧
      entries[key]? = some { mediaType := r.mediaType, bytes } := by
  constructor
  · intro h
    obtain ⟨key, hkey, h⟩ := Result.bind_ok h
    obtain ⟨_, hvalid, hkey⟩ := Result.bind_ok hkey
    refine ⟨hvalid, ?_⟩
    cases hsource : r.source with
    | stored key' =>
      simp only [hsource] at hkey
      cases hkey
      refine ⟨key, rfl, ?_⟩
      cases hstored : entries[key]? with
      | none =>
        simp only [hstored] at h
        cases h
      | some stored =>
        simp only [hstored] at h
        split at h
        · cases h
        · rename_i hmedia
          cases h
          rw [← not_not.mp hmedia]
    | _ =>
      simp only [hsource] at hkey
      cases hkey
  · rintro ⟨hvalid, key, hsource, hstored⟩
    simp only [read, storedKey, hvalid, hsource, bind, Except.bind, pure, Except.pure, hstored]
    rw [if_neg (not_not.mpr rfl)]

theorem memory_lawful : memoryResourceStore.Lawful where
  stored key mediaType bytes s r s' h := by
    obtain ⟨rfl, -, -⟩ := put_ok h
    exact ⟨key, rfl⟩
  read key mediaType bytes s r s' h q hvalid hsource hmedia := by
    obtain ⟨rfl, hstored, -⟩ := put_ok h
    subst hmedia
    exact read_iff.mpr ⟨hvalid, key, hsource, hstored⟩
  keeps key mediaType bytes s r s' h q bytes' hread := by
    obtain ⟨-, -, hkeeps⟩ := put_ok h
    obtain ⟨hvalid, key', hsource, hstored⟩ := read_iff.mp hread
    exact read_iff.mpr ⟨hvalid, key', hsource, hkeeps key' _ hstored⟩

end Resources

end Zhir.Storage
