import Zhir.Core.Validity

/-!
The durable core of a checkpoint: everything but the history, which it holds as a count and
a chained digest, and the commit validator as stores run it on cores.
-/

set_option autoImplicit false
set_option relaxedAutoImplicit false

namespace Zhir.Core

/-- The chained entry digest: the digest of nothing, and one more entry. -/
structure DigestScheme (δ : Type) where
  zero : δ
  step : δ → HistoryEntry → δ

namespace DigestScheme

variable {δ : Type} (s : DigestScheme δ)

/-- `append_history_digest`, entry by entry. -/
def extend (digest : δ) (entries : List HistoryEntry) : δ := entries.foldl s.step digest

def digest (entries : List HistoryEntry) : δ := s.extend s.zero entries

def CollisionFree : Prop :=
  ∀ xs ys : List HistoryEntry, xs.length = ys.length → s.digest xs = s.digest ys → xs = ys

theorem digest_append (xs ys : List HistoryEntry) :
    s.digest (xs ++ ys) = s.extend (s.digest xs) ys :=
  List.foldl_append

end DigestScheme

structure CheckpointCore (δ : Type) where
  options : RunOptions
  id : String
  parentId : Option String
  revision : Nat
  context : RunContext
  state : State
  active : ActiveState
  metrics : Metrics
  fact : Fact
  historyCount : Nat
  historyDigest : δ
  deriving DecidableEq

variable {δ : Type}

def Checkpoint.core (s : DigestScheme δ) (c : Checkpoint) : CheckpointCore δ where
  options := c.options
  id := c.id
  parentId := c.parentId
  revision := c.revision
  context := c.context
  state := c.state
  active := c.active
  metrics := c.metrics
  fact := c.fact
  historyCount := c.history.len
  historyDigest := s.digest c.history.entries

namespace CheckpointCore

def onHistory (core : CheckpointCore δ) (history : History) : Checkpoint where
  options := core.options
  id := core.id
  parentId := core.parentId
  revision := core.revision
  context := core.context
  history
  state := core.state
  active := core.active
  metrics := core.metrics
  fact := core.fact

/-- `with_history`: the history must be the one the core was taken from. -/
def withHistory [DecidableEq δ] (s : DigestScheme δ) (core : CheckpointCore δ)
    (history : History) : Result Checkpoint := do
  require (¬ (core.historyCount ≠ history.len ∨ core.historyDigest ≠ s.digest history.entries))
    (.storage "history integrity mismatch")
  (core.onHistory history).validate
  return core.onHistory history

@[simp] theorem onHistory_core (s : DigestScheme δ) (c : Checkpoint) :
    (c.core s).onHistory c.history = c := rfl

theorem withHistory_core [DecidableEq δ] (s : DigestScheme δ) {c : Checkpoint}
    (hvalid : c.validate = .ok ()) : (c.core s).withHistory s c.history = .ok c := by
  have hsame : ¬ ((c.core s).historyCount ≠ c.history.len ∨
      (c.core s).historyDigest ≠ s.digest c.history.entries) := by
    simp [Checkpoint.core]
  simp only [withHistory, require, hsame, not_false_eq_true, if_true, onHistory_core, hvalid]
  rfl

end CheckpointCore

namespace Commit

/-- Count and digest of the entries a delta keeps, with the entries it adds. -/
def base (s : DigestScheme δ) (c : Commit) (previous : Option (CheckpointCore δ)) :
    Result (Nat × δ × List HistoryEntry) :=
  match c.history, previous with
  | .initial m, none => .ok (0, s.zero, m)
  | .replace m, some _ => .ok (0, s.zero, m)
  | .append m, some p =>
    if m.isEmpty then .error (.storage "invalid history change")
    else .ok (p.historyCount, p.historyDigest, m)
  | .unchanged, some p => .ok (p.historyCount, p.historyDigest, [])
  | _, _ => .error (.storage "invalid history change")

/-- `Commit::validate_against` on the core of the previous checkpoint. What it asks of the
previous checkpoint's own fields needs no history. -/
def validateCore [DecidableEq δ] (s : DigestScheme δ) (c : Commit)
    (previous : Option (CheckpointCore δ)) : Result Unit := do
  let next := c.checkpoint
  next.options.validate
  let actual := previous.map CheckpointCore.revision
  require (actual = c.expectedRevision) (.conflict c.expectedRevision actual)
  firstStorage [
    (previous.any fun p => p.options ≠ next.options, "run options changed after start"),
    (previous.map CheckpointCore.id ≠ next.parentId ||
      previous.any (fun p => p.context.runId ≠ next.context.runId),
      "checkpoint parent/run mismatch")]
  validateAll c.follows (previous.map fun p => p.onHistory .empty).toList
  let (count, digest, added) ← c.base s previous
  validateAll HistoryEntry.validate added
  firstStorage [(count + added.length ≠ next.history.len ||
    s.extend digest added ≠ s.digest next.history.entries, "history delta mismatch")]
  next.validate

/-- Entries agree with the history exactly when count and digest do. -/
private theorem mismatch_iff {s : DigestScheme δ} [DecidableEq δ] (hfree : s.CollisionFree)
    (kept added : List HistoryEntry) (history : History) :
    (decide (kept.length + added.length ≠ history.len) ||
      decide (s.extend (s.digest kept) added ≠ s.digest history.entries)) =
        decide (kept ++ added ≠ history.entries) := by
  rw [← s.digest_append, ← List.length_append]
  by_cases hsame : kept ++ added = history.entries
  · simp [hsame, History.len]
  · have hdiffer : ¬ ((kept ++ added).length = history.len ∧
        s.digest (kept ++ added) = s.digest history.entries) := by
      rintro ⟨hlength, hdigest⟩
      exact hsame (hfree _ _ hlength hdigest)
    rw [not_and_or] at hdiffer
    simpa [hsame] using hdiffer

private theorem base_core (s : DigestScheme δ) (c : Commit) (previous : Option Checkpoint) :
    c.base s (previous.map (Checkpoint.core s)) =
      (c.target previous).map fun r => (r.1.length, s.digest r.1, r.2) := by
  unfold base target
  cases c.history with
  | append m =>
    cases previous with
    | none => rfl
    | some p =>
      simp only [Option.map_some]
      split <;> rfl
  | _ => cases previous <;> rfl

theorem validateCore_eq {s : DigestScheme δ} [DecidableEq δ] (hfree : s.CollisionFree)
    (c : Commit) (previous : Option Checkpoint) :
    c.validateCore s (previous.map (Checkpoint.core s)) = c.validateAgainst previous := by
  have hrevision : (previous.map (Checkpoint.core s)).map CheckpointCore.revision =
      previous.map Checkpoint.revision := by
    cases previous <;> rfl
  have hid : (previous.map (Checkpoint.core s)).map CheckpointCore.id =
      previous.map Checkpoint.id := by
    cases previous <;> rfl
  have htail : ∀ r : Result (List HistoryEntry × List HistoryEntry),
      ((r.map fun r => (r.1.length, s.digest r.1, r.2)) >>= fun b => do
        validateAll HistoryEntry.validate b.2.2
        firstStorage [(b.1 + b.2.2.length ≠ c.checkpoint.history.len ||
          s.extend b.2.1 b.2.2 ≠ s.digest c.checkpoint.history.entries,
            "history delta mismatch")]
        c.checkpoint.validate) =
      (r >>= fun r => do
        validateAll HistoryEntry.validate r.2
        firstStorage [(r.1 ++ r.2 ≠ c.checkpoint.history.entries, "history delta mismatch")]
        c.checkpoint.validate) := by
    intro r
    cases r with
    | error error => rfl
    | ok r =>
      obtain ⟨kept, added⟩ := r
      change (validateAll HistoryEntry.validate added >>= fun _ => _) = _
      simp only [mismatch_iff hfree]
      rfl
  unfold validateCore validateAgainst
  simp only [hrevision, hid, base_core]
  cases previous with
  | none =>
    simp only [Option.map_none, htail]
    rfl
  | some p =>
    simp only [Option.map_some, htail]
    rfl

end Commit

end Zhir.Core
