import Zhir.Storage.Agreement

/-!
The memory store keeps whole heads.
-/

set_option autoImplicit false
set_option relaxedAutoImplicit false

namespace Zhir.Storage

open Zhir.Core

variable {δ κ : Type} [DecidableEq δ] [DecidableEq κ]

/-- `MemoryRunStore`: the head of each run, and the digest of each checkpoint of a run. -/
structure Memory (κ : Type) where
  heads : String → Option Checkpoint
  ids : String → String → Option κ

namespace Memory

def new : Memory κ := ⟨fun _ => none, fun _ _ => none⟩

def record (d : Digests δ κ) (c : Commit) (state : Memory κ) : Memory κ :=
  let runId := c.checkpoint.context.runId
  let known := Function.update (state.ids runId) c.checkpoint.id (some (d.digest c))
  { ids := Function.update state.ids runId known
    heads := Function.update state.heads runId (some c.checkpoint) }

def commit (d : Digests δ κ) (t : Timing) (c : Commit) (state : Memory κ) : Result (Memory κ) :=
  let runId := c.checkpoint.context.runId
  match state.ids runId c.checkpoint.id with
  | some old => if old = d.digest c then .ok state else .error (.storage "checkpoint id reused")
  | none => do
    t.checkDeadline t.checked
    c.validateCore d.entries ((state.heads runId).map (Checkpoint.core d.entries))
    return state.record d c

def loadHead (runId : String) (state : Memory κ) : Result (Option Checkpoint) :=
  .ok (state.heads runId)

def delete (runId : String) (state : Memory κ) : Memory κ where
  heads := Function.update state.heads runId none
  ids := fun run id => if run = runId then none else state.ids run id

def store (d : Digests δ κ) : RunStore (Memory κ) := ⟨commit d, loadHead, delete⟩

/-- The store holds the heads of the accepted commits, and their digests under their ids. -/
structure Holds (d : Digests δ κ) (state : Memory κ) (acc : Accepted) : Prop where
  logs : Logs acc
  heads : ∀ runId, state.heads runId = headOf (acc runId)
  ids : ∀ runId id, state.ids runId id = (withId id (acc runId)).map d.digest

omit [DecidableEq δ] [DecidableEq κ] in
theorem holds_new (d : Digests δ κ) : (new : Memory κ).Holds d fun _ => [] :=
  ⟨Logs.empty, fun _ => rfl, fun _ _ => rfl⟩

theorem agrees {d : Digests δ κ} (hfree : d.entries.CollisionFree) :
    Agrees (store d) d (fun _ => True) (fun _ _ => True) (Holds d) where
  accepted := by
    intro s acc acc' t c hholds _ haccepted _
    have hextends := extends_of_ok haccepted
    have hlogs := hholds.logs.extends hextends
    cases hextends with
    | repeated old hold hsame =>
      refine ⟨s, ?_, hholds⟩
      simp [store, commit, hholds.ids, hold, hsame]
    | appended hid hearly hvalid =>
      refine ⟨s.record d c, ?_, hlogs, ?_, ?_⟩
      · simp only [store, commit, hholds.ids, hid, checkDeadline_ok hearly, hholds.heads,
          Commit.validateCore_eq hfree,
          hvalid, Option.map_none]
        rfl
      · intro runId
        by_cases hrun : runId = c.checkpoint.context.runId
        · subst hrun
          simp [record, headOf]
        · simp [record, hrun, hholds.heads]
      · intro runId id
        by_cases hrun : runId = c.checkpoint.context.runId
        · subst hrun
          by_cases hsame : id = c.checkpoint.id
          · subst hsame
            simp [record, withId_cons]
          · simp [record, withId_cons, hsame, Ne.symm hsame, hholds.ids]
        · simp [record, hrun, hholds.ids]
  rejected := by
    intro s acc t c e hholds _ herror
    cases rejects_of_error herror with
    | reused old hold hdiffer => simp [store, commit, hholds.ids, hold, hdiffer]
    | late hid hpast =>
      refine ⟨.deadline, ?_⟩
      simp only [store, commit, hholds.ids, hid, checkDeadline_late hpast, Option.map_none]
      rfl
    | invalid e' hid hearly hinvalid =>
      refine ⟨e', ?_⟩
      simp only [store, commit, hholds.ids, hid, checkDeadline_ok hearly, hholds.heads,
        Commit.validateCore_eq hfree,
        hinvalid, Option.map_none]
      rfl
  loadHead runId hholds _ := congrArg Except.ok (hholds.heads runId)
  delete := by
    intro s acc runId hholds _
    refine ⟨hholds.logs.delete runId, ?_, ?_⟩
    · intro run
      by_cases hrun : run = runId
      · subst hrun
        simp [store, delete, headOf]
      · simp [store, delete, hrun, hholds.heads]
    · intro run id
      by_cases hrun : run = runId
      · subst hrun
        simp [store, delete, withId]
      · simp [store, delete, hrun, hholds.ids]

end Memory

end Zhir.Storage
