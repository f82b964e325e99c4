import Zhir.Core.Wire
import Zhir.Library.Machine

/-!
Run stores: what a host asks of them, and the reference every store is measured by. The
reference keeps, for each run, the commits it accepted.
-/

set_option autoImplicit false
set_option relaxedAutoImplicit false

namespace Zhir.Core.HistoryDelta

/-- A new generation of history rows starts with this change. -/
def rewrites : HistoryDelta → Bool
  | .initial _ | .replace _ => true
  | .append _ | .unchanged => false

def messages : HistoryDelta → Option (List HistoryEntry)
  | .initial m | .append m | .replace m => some m
  | .unchanged => none

end Zhir.Core.HistoryDelta

namespace Zhir.Storage

open Zhir.Core
open Zhir.Library (Machine)

/-- The digests stores work with: of history entries, and of a whole checkpoint core. -/
structure Digests (δ κ : Type) where
  entries : DigestScheme δ
  identity : CheckpointCore δ → κ

variable {δ κ : Type}

def Digests.core (d : Digests δ κ) (c : Commit) : CheckpointCore δ :=
  c.checkpoint.core d.entries

def Digests.digest (d : Digests δ κ) (c : Commit) : κ := d.identity (d.core c)

/-- The deadline of a commit, and when a store checks the commit and when it writes it; a store
that has to wait for a connection gets it at `connected`. -/
structure Timing where
  deadline : Option Nat := none
  connected : Option Nat := none
  checked : Nat := 0
  written : Nat := 0

def Timing.past (t : Timing) (now : Nat) : Bool := t.deadline.any (· ≤ now)

def Timing.checkDeadline (t : Timing) (now : Nat) : Result Unit :=
  require (t.past now = false) .deadline

/-- The deadline does not pass between the check of a commit and its write. -/
def Timing.Steady (t : Timing) : Prop := t.past t.written = true → t.past t.checked = true

instance (t : Timing) : Decidable t.Steady := by unfold Timing.Steady; infer_instance

/-- `storage::RunStore`. Every operation is one transaction: a failed commit leaves the
store as it was. -/
structure RunStore (σ : Type) where
  commit : Timing → Commit → σ → Result σ
  loadHead : String → σ → Result (Option Checkpoint)
  delete : String → σ → σ

inductive Request
  | commit (timing : Timing) (commit : Commit)
  | loadHead (runId : String)
  | delete (runId : String)

def Request.runId : Request → String
  | .commit _ c => c.checkpoint.context.runId
  | .loadHead runId | .delete runId => runId

inductive Answer
  | committed (accepted : Bool)
  | head (checkpoint : Result (Option Checkpoint))
  | deleted
  deriving DecidableEq

def RunStore.machine {σ : Type} (store : RunStore σ) : Machine σ Request Answer where
  step state
    | .commit timing commit =>
      match store.commit timing commit state with
      | .ok next => (next, .committed true)
      | .error _ => (state, .committed false)
    | .loadHead runId => (state, .head (store.loadHead runId state))
    | .delete runId => (store.delete runId state, .deleted)

abbrev Accepted := String → List Commit

/-- The head of a run is the checkpoint of its last accepted commit. -/
def headOf (log : List Commit) : Option Checkpoint := log.head?.map Commit.checkpoint

def withId (id : String) (log : List Commit) : Option Commit :=
  log.find? fun c => c.checkpoint.id = id

/-- The reference: a commit is accepted when it repeats an accepted one, or when it is checked
before its deadline and the validator accepts it over the head. -/
def reference [DecidableEq κ] (d : Digests δ κ) : RunStore Accepted where
  commit t c accepted :=
    let runId := c.checkpoint.context.runId
    match withId c.checkpoint.id (accepted runId) with
    | some old =>
      if d.digest old = d.digest c then .ok accepted
      else .error (.storage "checkpoint id reused")
    | none => do
      t.checkDeadline t.checked
      c.validateAgainst (headOf (accepted runId))
      return Function.update accepted runId (c :: accepted runId)
  loadHead runId accepted := .ok (headOf (accepted runId))
  delete runId accepted := Function.update accepted runId []

end Zhir.Storage
