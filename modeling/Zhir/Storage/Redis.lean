import Zhir.Storage.Agreement

/-!
The Redis store: two reads, a local check, and a script that compares and sets.
-/

set_option autoImplicit false
set_option relaxedAutoImplicit false

namespace Zhir.Storage

open Zhir.Core

variable {δ κ : Type}

structure RedisHead (δ : Type) where
  revision : Nat
  core : CheckpointCore δ
  generation : Nat

/-- The three keys of a run. A missing key is an empty hash. A history field is named by
generation and revision. -/
structure RedisRun (δ κ : Type) where
  head : Option (RedisHead δ)
  commits : List (String × κ)
  history : List HistoryRow

abbrev Redis (δ κ : Type) := String → RedisRun δ κ

/-- The order in which a hash map lists what it holds. -/
structure Listing where
  list : List HistoryRow → List HistoryRow
  perm : ∀ rows, (list rows).Perm rows

namespace Redis

def empty : Redis δ κ := fun _ => ⟨none, [], []⟩

/-- `HSET` of one history field. -/
def setField (history : List HistoryRow) (row : HistoryRow) : List HistoryRow :=
  history.filter (fun r => ¬ (r.generation = row.generation ∧ r.revision = row.revision)) ++ [row]

structure Arguments (δ κ : Type) where
  id : String
  digest : κ
  expected : Option Nat
  revision : Nat
  core : CheckpointCore δ
  generation : Nat
  payload : Option (List HistoryEntry)
  rewrite : Bool
  deriving DecidableEq

inductive Reply
  | ok | identityConflict | revisionConflict
  deriving DecidableEq

def written (arguments : Arguments δ κ) (run : RedisRun δ κ) : RedisRun δ κ where
  head := some ⟨arguments.revision, arguments.core, arguments.generation⟩
  commits := run.commits ++ [(arguments.id, arguments.digest)]
  history :=
    let kept := if arguments.rewrite then [] else run.history
    match arguments.payload with
    | some m => setField kept ⟨arguments.generation, arguments.revision, m⟩
    | none => kept

/-- `COMMIT`, on the keys of one run. -/
def script [DecidableEq κ] (arguments : Arguments δ κ) (run : RedisRun δ κ) :
    Reply × RedisRun δ κ :=
  match run.commits.lookup arguments.id with
  | some old => if old = arguments.digest then (.ok, run) else (.identityConflict, run)
  | none =>
    if run.head.map RedisHead.revision ≠ arguments.expected then (.revisionConflict, run)
    else (.ok, written arguments run)

def identified [DecidableEq κ] (d : Digests δ κ) (c : Commit) (run : RedisRun δ κ) :
    Option (Result Unit) :=
  (run.commits.lookup c.checkpoint.id).map fun old =>
    if old = d.digest c then .ok () else .error (.storage "checkpoint id reused")

/-- The second read: the commit is checked against the head and its arguments are made. -/
def prepare [DecidableEq δ] (d : Digests δ κ) (c : Commit) (head : Option (RedisHead δ)) :
    Result (Arguments δ κ) := do
  c.validateCore d.entries (head.map RedisHead.core)
  let rewrite := c.history.rewrites
  let generation ←
    if rewrite then pure c.checkpoint.revision
    else match head with
      | some head => pure head.generation
      | none => throw (.storage "missing history generation")
  return {
    id := c.checkpoint.id
    digest := d.digest c
    expected := c.expectedRevision
    revision := c.checkpoint.revision
    core := d.core c
    generation
    payload := c.history.messages
    rewrite }

def settled (c : Commit) : Reply → Result Unit
  | .ok => .ok ()
  | .revisionConflict => .error (.conflict c.expectedRevision none)
  | .identityConflict => .error (.storage "checkpoint identity conflict")

/-- `commit_inner`, with nothing between its steps. -/
def commit [DecidableEq δ] [DecidableEq κ] (d : Digests δ κ) (t : Timing) (c : Commit)
    (store : Redis δ κ) : Result (Redis δ κ) :=
  let runId := c.checkpoint.context.runId
  match identified d c (store runId) with
  | some result => result.map fun () => store
  | none => do
    t.checkDeadline t.checked
    let arguments ← prepare d c (store runId).head
    t.checkDeadline t.written
    let (reply, run) := script arguments (store runId)
    settled c reply
    return Function.update store runId run

/-- `LOAD` and what the reader makes of it. -/
def loadHead [DecidableEq δ] (d : Digests δ κ) (listing : Listing) (runId : String)
    (store : Redis δ κ) :
    Result (Option Checkpoint) :=
  match (store runId).head with
  | none => .ok none
  | some head => do
    let chunks := listing.list (store runId).history
    let ordered := byRevision (chunks.filter fun r =>
      decide (r.generation = head.generation ∧ r.revision ≤ head.core.revision))
    return some (← rebuild d.entries head.core ordered)

def delete (runId : String) (store : Redis δ κ) : Redis δ κ :=
  Function.update store runId ⟨none, [], []⟩

def store [DecidableEq δ] [DecidableEq κ] (d : Digests δ κ) (listing : Listing) :
    RunStore (Redis δ κ) :=
  ⟨commit d, loadHead d listing, delete⟩

/-- The keys of a run hold its latest core, every accepted identity, and the rows of the
current generation. -/
structure Holds (d : Digests δ κ) (run : RedisRun δ κ) (log : List Commit) : Prop where
  head : run.head = (headOf log).map fun p => ⟨p.revision, p.core d.entries, generationOf log⟩
  commits : ∀ id, run.commits.lookup id = (withId id log).map d.digest
  history : run.history = rowsOf log

def argumentsOver (d : Digests δ κ) (c : Commit) (log : List Commit) : Arguments δ κ where
  id := c.checkpoint.id
  digest := d.digest c
  expected := c.expectedRevision
  revision := c.checkpoint.revision
  core := d.core c
  generation := generationOf (c :: log)
  payload := c.history.messages
  rewrite := c.history.rewrites

theorem holds_empty (d : Digests δ κ) (runId : String) : Holds d (empty runId) [] :=
  ⟨rfl, fun _ => rfl, rfl⟩

theorem prepare_ok [DecidableEq δ] {d : Digests δ κ} (hfree : d.entries.CollisionFree)
    {run : RedisRun δ κ}
    {log : List Commit} {c : Commit} (h : Holds d run log)
    (hvalid : c.validateAgainst (headOf log) = .ok ()) :
    prepare d c run.head = .ok (argumentsOver d c log) := by
  have hcore : run.head.map RedisHead.core = (headOf log).map (Checkpoint.core d.entries) := by
    rw [h.head, Option.map_map]
    rfl
  simp only [prepare, hcore, Commit.validateCore_eq hfree, hvalid]
  cases hrewrites : c.history.rewrites with
  | true =>
    simp only [argumentsOver, generationOf, hrewrites, if_true]
    rfl
  | false =>
    cases hhead : headOf log with
    | none =>
      obtain ⟨m, hm⟩ := (delta_of_accepted hvalid).mpr hhead
      rw [hm] at hrewrites
      cases hrewrites
    | some p =>
      simp only [argumentsOver, generationOf, hrewrites, h.head, hhead, Bool.false_eq_true,
        if_false]
      rfl

theorem prepare_error [DecidableEq δ] {d : Digests δ κ} (hfree : d.entries.CollisionFree)
    {run : RedisRun δ κ}
    {log : List Commit} {c : Commit} {e : Error} (h : Holds d run log)
    (hinvalid : c.validateAgainst (headOf log) = .error e) :
    prepare d c run.head = .error e := by
  have hcore : run.head.map RedisHead.core = (headOf log).map (Checkpoint.core d.entries) := by
    rw [h.head, Option.map_map]
    rfl
  simp only [prepare, hcore, Commit.validateCore_eq hfree, hinvalid]
  rfl

theorem script_known [DecidableEq κ] {d : Digests δ κ} {run : RedisRun δ κ} {log : List Commit}
    {c old : Commit}
    (h : Holds d run log) (hold : withId c.checkpoint.id log = some old) (seen : List Commit) :
    script (argumentsOver d c seen) run =
      (if d.digest old = d.digest c then .ok else .identityConflict, run) := by
  have hlookup : run.commits.lookup (argumentsOver d c seen).id = some (d.digest old) := by
    rw [h.commits]
    exact congrArg (Option.map d.digest) hold
  simp only [script, hlookup]
  by_cases hsame : d.digest old = d.digest c
  · simp only [argumentsOver, hsame, if_true]
  · simp only [argumentsOver, hsame, if_false]

theorem script_conflict [DecidableEq κ] {d : Digests δ κ} {run : RedisRun δ κ} {log : List Commit}
    {c : Commit}
    (h : Holds d run log) (hid : withId c.checkpoint.id log = none)
    (hrevision : (headOf log).map Checkpoint.revision ≠ c.expectedRevision)
    (seen : List Commit) :
    script (argumentsOver d c seen) run = (.revisionConflict, run) := by
  have hlookup : run.commits.lookup (argumentsOver d c seen).id = none := by
    rw [h.commits]
    exact congrArg (Option.map d.digest) hid
  have hhead : run.head.map RedisHead.revision ≠ (argumentsOver d c seen).expected := by
    rw [h.head, Option.map_map]
    exact hrevision
  simp only [script, hlookup, if_pos hhead]

private theorem setField_rows {runId : String} {log : List Commit} (h : Log runId log)
    {row : HistoryRow} (hrow : row.revision = log.length) :
    setField (rowsOf log) row = rowsOf log ++ [row] := by
  unfold setField
  congr 1
  refine List.filter_eq_self.mpr ?_
  intro r hr
  have hlt := (h.row_bounds r hr).2
  simp only [not_and, decide_eq_true_eq]
  intro _
  omega

theorem script_appended [DecidableEq κ] {d : Digests δ κ} {runId : String} {run : RedisRun δ κ}
    {log : List Commit} {c : Commit} (h : Holds d run log) (hlog : Log runId (c :: log)) :
    ∃ run', script (argumentsOver d c log) run = (.ok, run') ∧ Holds d run' (c :: log) := by
  have hlength := hlog.revision_cons
  obtain _ | ⟨_, _, hbefore, hrun, hid, hvalid⟩ := hlog
  have hlookup : run.commits.lookup (argumentsOver d c log).id = none := by
    rw [h.commits]
    exact congrArg (Option.map d.digest) hid
  have hhead : ¬ run.head.map RedisHead.revision ≠ (argumentsOver d c log).expected := by
    rw [h.head, Option.map_map, not_not]
    exact (Commit.checked_of_ok hvalid).revision
  refine ⟨written (argumentsOver d c log) run, ?_, rfl, ?_, ?_⟩
  · simp only [script, hlookup, if_neg hhead]
  · intro id
    rw [withId_cons]
    change (run.commits ++ [(c.checkpoint.id, d.digest c)]).lookup id = _
    rw [List.lookup_append, h.commits]
    by_cases hsame : c.checkpoint.id = id
    · subst hsame
      simp [hid]
    · have hne : (id == c.checkpoint.id) = false := beq_eq_false_iff_ne.mpr (Ne.symm hsame)
      have hnone : List.lookup id [(c.checkpoint.id, d.digest c)] = none := by
        rw [List.lookup_cons, hne]
        rfl
      rw [hnone, if_neg hsame, Option.or_none]
  · rw [written, rowsOf, rowOf]
    cases hmessages : c.history.messages with
    | none =>
      have hkept : c.history.rewrites = false := by
        cases hdelta : c.history <;> simp_all [HistoryDelta.messages, HistoryDelta.rewrites]
      simp [argumentsOver, hmessages, hkept, h.history]
    | some m =>
      cases hrewrites : c.history.rewrites with
      | true => simp [argumentsOver, hmessages, hrewrites, setField]
      | false =>
        simp only [argumentsOver, hmessages, hrewrites, h.history]
        exact setField_rows hbefore hlength

theorem loadHead_eq [DecidableEq δ] {d : Digests δ κ} {listing : Listing} {store : Redis δ κ}
    {runId : String} {log : List Commit} (h : Holds d (store runId) log) (hlog : Log runId log) :
    loadHead d listing runId store = .ok (headOf log) := by
  unfold loadHead
  rw [h.head]
  cases hhead : headOf log with
  | none => rfl
  | some p =>
    have hlist := listing.perm (rowsOf log)
    have hrebuilt := hlog.rebuild_eq d.entries hhead hlist
    simp only [Option.map_some, h.history]
    change (rebuild _ _ (byRevision (List.filter (fun r => decide (r.generation =
      generationOf log ∧ r.revision ≤ p.revision)) _)) >>= fun c => _) = _
    rw [hrebuilt]
    rfl

theorem identified_eq [DecidableEq κ] {d : Digests δ κ} {run : RedisRun δ κ} {log : List Commit}
    {c : Commit} (h : Holds d run log) : identified d c run =
      (withId c.checkpoint.id log).map fun old =>
        if d.digest old = d.digest c then .ok () else .error (.storage "checkpoint id reused") := by
  rw [identified, h.commits, Option.map_map]
  rfl

structure Stands (d : Digests δ κ) (store : Redis δ κ) (acc : Accepted) : Prop where
  logs : Logs acc
  runs : ∀ runId, Holds d (store runId) (acc runId)

theorem stands_empty (d : Digests δ κ) : Stands d (empty : Redis δ κ) fun _ => [] :=
  ⟨Logs.empty, holds_empty d⟩

theorem Stands.update {d : Digests δ κ} {store : Redis δ κ} {acc : Accepted}
    (h : Stands d store acc) {runId : String} {run : RedisRun δ κ} {log : List Commit}
    (hlogs : Logs (Function.update acc runId log)) (hrun : Holds d run log) :
    Stands d (Function.update store runId run) (Function.update acc runId log) := by
  refine ⟨hlogs, ?_⟩
  intro other
  by_cases hother : other = runId
  · subst hother
    rw [Function.update_self, Function.update_self]
    exact hrun
  · rw [Function.update_of_ne hother, Function.update_of_ne hother]
    exact h.runs other

theorem commit_written [DecidableEq δ] [DecidableEq κ] {d : Digests δ κ} {t : Timing} {c : Commit}
    {store store' : Redis δ κ} (h : commit d t c store = .ok store') (hchanged : store' ≠ store) :
    t.past t.written = false := by
  unfold commit at h
  dsimp only at h
  split at h
  · rename_i result _
    cases result with
    | ok u =>
      cases h
      exact absurd rfl hchanged
    | error e => cases h
  · obtain ⟨_, -, h⟩ := Result.bind_ok h
    obtain ⟨_, -, h⟩ := Result.bind_ok h
    obtain ⟨_, hearly, -⟩ := Result.bind_ok h
    exact require_ok hearly

theorem agrees [DecidableEq δ] [DecidableEq κ] {d : Digests δ κ} {listing : Listing}
    (hfree : d.entries.CollisionFree) :
    Agrees (store d listing) d (fun _ => True) (fun t _ => t.Steady) (Stands d) where
  accepted := by
    intro s acc acc' t c hstands _ haccepted hsteady
    have hrun := hstands.runs c.checkpoint.context.runId
    have hextends := extends_of_ok haccepted
    have hlogs := hstands.logs.extends hextends
    cases hextends with
    | repeated old hold hsame =>
      refine ⟨s, ?_, hstands⟩
      simp only [store, commit, identified_eq hrun, hold, Option.map_some, hsame, if_true]
      rfl
    | appended hid hearly hvalid =>
      have hlog := hlogs c.checkpoint.context.runId
      rw [Function.update_self] at hlog
      obtain ⟨run', hscript, hnext⟩ := script_appended hrun hlog
      refine ⟨Function.update s c.checkpoint.context.runId run', ?_, hstands.update hlogs hnext⟩
      simp only [store, commit, identified_eq hrun, hid, Option.map_none,
        checkDeadline_ok hearly, checkDeadline_ok (hsteady.early hearly),
        prepare_ok hfree hrun hvalid]
      change (settled c (script _ _).1 >>= fun _ => _) = _
      rw [hscript]
      rfl
  rejected := by
    intro s acc t c e hstands _ herror
    have hrun := hstands.runs c.checkpoint.context.runId
    cases rejects_of_error herror with
    | reused old hold hdiffer =>
      refine ⟨.storage "checkpoint id reused", ?_⟩
      simp only [store, commit, identified_eq hrun, hold, Option.map_some, hdiffer, if_false]
      rfl
    | late hid hpast =>
      refine ⟨.deadline, ?_⟩
      simp only [store, commit, identified_eq hrun, hid, Option.map_none, checkDeadline_late hpast]
      rfl
    | invalid e' hid hearly hinvalid =>
      refine ⟨e', ?_⟩
      simp only [store, commit, identified_eq hrun, hid, Option.map_none, checkDeadline_ok hearly,
        prepare_error hfree hrun hinvalid]
      rfl
  loadHead := fun runId hstands _ => loadHead_eq (hstands.runs runId) (hstands.logs runId)
  delete := by
    intro s acc runId hstands _
    exact hstands.update (hstands.logs.delete runId) (holds_empty d runId)

end Redis

end Zhir.Storage
