import Mathlib.Data.Set.Function
import Zhir.Library.Table
import Zhir.Storage.Agreement

/-!
The SQL store: three tables, written and read in transactions.
-/

set_option autoImplicit false
set_option relaxedAutoImplicit false

namespace Zhir.Storage

open Zhir.Core
open Zhir.Library (Table)

variable {δ κ : Type}

/-- The largest `i64`. -/
def maxI64 : Nat := 9223372036854775807

/-- `i64::try_from`. -/
def toI64 (n : Nat) : Result Nat :=
  if n ≤ maxI64 then .ok n
  else .error (.storage "out of range integral type conversion attempted")

/-- What a database makes of a text in an id column: whether the column takes it, and the key under
which the collation compares it. -/
structure Collation where
  takes : String → Bool
  weigh : String → String

def Collation.sqlite : Collation := ⟨fun _ => true, id⟩

/-- `VARCHAR(255)`, under the collation the tables were created with. -/
def Collation.mysql (weigh : String → String) : Collation :=
  ⟨fun text => decide (text.length ≤ 255), weigh⟩

structure HeadRow (δ : Type) where
  runId : String
  revision : Nat
  checkpointId : String
  generation : Nat
  core : CheckpointCore δ

structure CommitRow (κ : Type) where
  runId : String
  checkpointId : String
  revision : Nat
  digest : κ

structure StoredRow where
  runId : String
  row : HistoryRow

variable {b : Collation}

def HeadRow.key (b : Collation) (row : HeadRow δ) : String := b.weigh row.runId

def HeadRow.set (row old : HeadRow δ) : HeadRow δ := { row with runId := old.runId }

private theorem HeadRow.key_set (row old : HeadRow δ) : (row.set old).key b = old.key b := rfl

def CommitRow.key (b : Collation) (row : CommitRow κ) : String × String :=
  (b.weigh row.runId, b.weigh row.checkpointId)

def StoredRow.key (b : Collation) (row : StoredRow) : String × Nat × Nat :=
  (b.weigh row.runId, row.row.generation, row.row.revision)

structure Sql (δ κ : Type) (b : Collation) where
  heads : Table (HeadRow δ) (HeadRow.key b)
  commits : Table (CommitRow κ) (CommitRow.key b)
  history : Table StoredRow (StoredRow.key b)

namespace Sql

def empty : Sql δ κ b := ⟨.empty, .empty, .empty⟩

def taken (b : Collation) (text : String) : Result Unit :=
  require (b.takes text) (.storage "data too long for column")

def inserted {ρ α : Type} {key : ρ → α} (table : Option (Table ρ key)) (error : Error) :
    Result (Table ρ key) :=
  match table with
  | some table => .ok table
  | none => .error error

/-- `UPDATE` or `INSERT` of the head. -/
def writeHead (c : Commit) (row : HeadRow δ) (previous : Option (CheckpointCore δ))
    (heads : Table (HeadRow δ) (HeadRow.key b)) : Result (Table (HeadRow δ) (HeadRow.key b)) := do
  match previous with
  | some previous =>
    let expected ← toI64 previous.revision
    let p := fun r : HeadRow δ =>
      decide (b.weigh r.runId = b.weigh row.runId ∧ r.revision = expected)
    require (heads.affected p = 1) (.conflict c.expectedRevision none)
    taken b row.checkpointId
    return heads.update p row.set row.key_set
  | none =>
    taken b row.runId
    taken b row.checkpointId
    inserted (heads.insert row) (.conflict c.expectedRevision none)

/-- `INSERT INTO zhir_commits`, with its second unique key. -/
def writeCommit (row : CommitRow κ) (commits : Table (CommitRow κ) (CommitRow.key b)) :
    Result (Table (CommitRow κ) (CommitRow.key b)) := do
  taken b row.runId
  taken b row.checkpointId
  require (commits.select (fun r =>
    decide (b.weigh r.runId = b.weigh row.runId ∧ r.revision = row.revision))).isEmpty
    (.storage "unique constraint failed")
  inserted (commits.insert row) (.storage "unique constraint failed")

def older (b : Collation) (runId : String) (generation : Nat) (row : StoredRow) : Bool :=
  decide (b.weigh row.runId = b.weigh runId ∧ row.row.generation < generation)

/-- The history rows of a commit; a rewrite drops those of older generations. -/
def writeHistory (c : Commit) (generation revision : Nat)
    (history : Table StoredRow (StoredRow.key b)) :
    Result (Table StoredRow (StoredRow.key b)) := do
  let runId := c.checkpoint.context.runId
  let history ←
    match c.history.messages with
    | some m => do
      taken b runId
      inserted (history.insert ⟨runId, generation, revision, m⟩)
        (.storage "unique constraint failed")
    | none => pure history
  if c.history.rewrites then
    return history.delete (older b runId generation)
  else
    return history

/-- The check and the writes of a commit that no stored identity settles. -/
def write [DecidableEq δ] (d : Digests δ κ) (c : Commit) (revision : Nat)
    (previous : Option (HeadRow δ)) (db : Sql δ κ b) : Result (Sql δ κ b) := do
  let runId := c.checkpoint.context.runId
  let id := c.checkpoint.id
  c.validateCore d.entries (previous.map HeadRow.core)
  let generation :=
    if c.history.rewrites then revision else (previous.map HeadRow.generation).getD 0
  let heads ← writeHead c ⟨runId, revision, id, generation, d.core c⟩
    (previous.map HeadRow.core) db.heads
  let commits ← writeCommit ⟨runId, id, revision, d.digest c⟩ db.commits
  let history ← writeHistory c generation revision db.history
  return { heads, commits, history }

/-- `timeout_at` around the wait for a connection. -/
def begin (t : Timing) : Result Unit :=
  match t.connected with
  | some now => t.checkDeadline now
  | none => .ok ()

/-- `commit_inner`. A commit identity exists only while its run head does. -/
def commit [DecidableEq δ] [DecidableEq κ] (d : Digests δ κ) (t : Timing) (c : Commit)
    (db : Sql δ κ b) : Result (Sql δ κ b) := do
  let revision ← toI64 c.checkpoint.revision
  begin t
  let previous := db.heads.find (b.weigh c.checkpoint.context.runId)
  match previous.bind fun h => db.commits.find (b.weigh h.runId, b.weigh c.checkpoint.id) with
  | some existing =>
    if existing.digest = d.digest c then return db
    else throw (.storage "checkpoint id reused")
  | none =>
    t.checkDeadline t.checked
    let next ← write d c revision previous db
    t.checkDeadline t.written
    return next

def ofRun (b : Collation) (runId : String) (row : StoredRow) : Bool :=
  decide (b.weigh row.runId = b.weigh runId)

def delete (runId : String) (db : Sql δ κ b) : Sql δ κ b where
  history := db.history.delete (ofRun b runId)
  commits := db.commits.delete fun r => decide (b.weigh r.runId = b.weigh runId)
  heads := db.heads.delete fun r => decide (b.weigh r.runId = b.weigh runId)

def loadHead [DecidableEq δ] (d : Digests δ κ) (runId : String) (db : Sql δ κ b) :
    Result (Option Checkpoint) :=
  match db.heads.find (b.weigh runId) with
  | none => .ok none
  | some head => do
    let revision ← toI64 head.core.revision
    let rows := db.history.select fun r => decide (b.weigh r.runId = b.weigh runId ∧
      r.row.generation = head.generation ∧ r.row.revision ≤ revision)
    return some (← rebuild d.entries head.core (byRevision (rows.map StoredRow.row)))

def store [DecidableEq δ] [DecidableEq κ] (b : Collation) (d : Digests δ κ) :
    RunStore (Sql δ κ b) :=
  ⟨commit d, loadHead d, delete⟩

/-- The runs and the checkpoints of a run that requests name. -/
def runIds (requests : List Request) : Set String :=
  {runId | ∃ request ∈ requests, request.runId = runId}

def checkpointIds (requests : List Request) (runId : String) : Set String :=
  {id | ∃ t c, Request.commit t c ∈ requests ∧ c.checkpoint.context.runId = runId ∧
    c.checkpoint.id = id}

/-- The collation tells the ids of the requests apart. -/
structure Distinguished (b : Collation) (requests : List Request) : Prop where
  runs : Set.InjOn b.weigh (runIds requests)
  ids : ∀ runId, Set.InjOn b.weigh (checkpointIds requests runId)

/-- The tables hold the latest core of each run, every accepted identity, and the rows of the
current generation. -/
structure Holds (d : Digests δ κ) (requests : List Request) (db : Sql δ κ b) (acc : Accepted) :
    Prop where
  logs : Logs acc
  heads : ∀ runId ∈ runIds requests, db.heads.find (b.weigh runId) =
    (headOf (acc runId)).map fun p =>
      ⟨runId, p.revision, p.id, generationOf (acc runId), p.core d.entries⟩
  ids : ∀ runId ∈ runIds requests, ∀ id ∈ checkpointIds requests runId,
    (db.commits.find (b.weigh runId, b.weigh id)).map CommitRow.digest =
      (withId id (acc runId)).map d.digest
  revisions : ∀ row ∈ db.commits.rows,
    row.runId ∈ runIds requests ∧ row.revision < (acc row.runId).length
  history : ∀ runId ∈ runIds requests,
    (db.history.select (ofRun b runId)).map StoredRow.row = rowsOf (acc runId)
  fits : ∀ runId, ∀ p ∈ headOf (acc runId), p.revision ≤ maxI64

variable {requests : List Request}

private theorem toI64_ok {n : Nat} (h : n ≤ maxI64) : toI64 n = .ok n := if_pos h

private theorem taken_ok {text : String} (h : b.takes text = true) : taken b text = .ok
    () := if_pos h

theorem holds_empty (d : Digests δ κ) (requests : List Request) :
    (empty : Sql δ κ b).Holds d requests fun _ => [] where
  logs := Logs.empty
  heads := fun _ _ => rfl
  ids := fun _ _ _ _ => rfl
  revisions := by simp [empty, Table.empty]
  history := fun _ _ => rfl
  fits := by simp [headOf]

private theorem mem_rowsOf {history : Table StoredRow (StoredRow.key b)} {runId : String}
    {log : List Commit} (h : (history.select (ofRun b runId)).map StoredRow.row = rowsOf log)
    {row : StoredRow} (hrow : row ∈ history.rows) (hrun : b.weigh row.runId = b.weigh runId) :
    row.row ∈ rowsOf log := by
  rw [← h]
  exact List.mem_map_of_mem (List.mem_filter.mpr ⟨hrow, decide_eq_true hrun⟩)

private theorem update_rows {acc : Accepted} {runId : String} {log : List Commit}
    {select : String → List HistoryRow} (hrun : select runId = rowsOf log)
    (hother : ∀ other ∈ runIds requests, other ≠ runId → select other = rowsOf (acc other))
    (other : String) (h : other ∈ runIds requests) :
    select other = rowsOf (Function.update acc runId log other) := by
  by_cases hsame : other = runId
  · subst hsame
    rw [Function.update_self, hrun]
  · rw [Function.update_of_ne hsame, hother other h hsame]

private theorem select_older (history : Table StoredRow (StoredRow.key b)) (runId other : String)
    (generation : Nat) :
    ((history.delete (older b runId generation)).select (ofRun b other)).map StoredRow.row =
      if b.weigh other = b.weigh runId then
        ((history.select (ofRun b other)).map StoredRow.row).filter fun r =>
          !decide (r.generation < generation)
      else (history.select (ofRun b other)).map StoredRow.row := by
  rw [Table.select_delete]
  have hrun : ∀ r ∈ history.select (ofRun b other), b.weigh r.runId = b.weigh other := by
    intro r hr
    simpa [ofRun] using (List.mem_filter.mp hr).2
  split
  · rename_i hother
    rw [List.filter_map]
    congr 1
    refine List.filter_congr ?_
    intro r hr
    simp [older, hrun r hr, hother]
  · rename_i hother
    congr 1
    refine List.filter_eq_self.mpr ?_
    intro r hr
    simp [older, hrun r hr, hother]

private theorem writeHistory_ok {history : Table StoredRow (StoredRow.key b)} {acc : Accepted}
    {c : Commit}
    (hruns : Set.InjOn b.weigh (runIds requests))
    (hrequested : c.checkpoint.context.runId ∈ runIds requests)
    (htakes : b.takes c.checkpoint.context.runId = true)
    (h : ∀ runId ∈ runIds requests,
      (history.select (ofRun b runId)).map StoredRow.row = rowsOf (acc runId))
    (hlog : Log c.checkpoint.context.runId (c :: acc c.checkpoint.context.runId))
    (hbefore : Log c.checkpoint.context.runId (acc c.checkpoint.context.runId)) :
    ∃ history', writeHistory c (generationOf (c :: acc c.checkpoint.context.runId))
      c.checkpoint.revision history = .ok history' ∧
      ∀ runId ∈ runIds requests, (history'.select (ofRun b runId)).map StoredRow.row =
        rowsOf (Function.update acc c.checkpoint.context.runId
          (c :: acc c.checkpoint.context.runId) runId) := by
  generalize hrunId : c.checkpoint.context.runId = runId at *
  have hlength := hlog.revision_cons
  cases hmessages : c.history.messages with
  | none =>
    have hkept : c.history.rewrites = false := by
      cases hdelta : c.history <;> simp_all [HistoryDelta.messages, HistoryDelta.rewrites]
    refine ⟨history, ?_, update_rows ?_ fun other hother _ => h other hother⟩
    · simp only [writeHistory, hmessages, hkept]
      rfl
    · rw [h runId hrequested, rowsOf, rowOf]
      simp [hkept, hmessages]
  | some m =>
    have hfree : history.find (StoredRow.key b
        ⟨runId, generationOf (c :: acc runId), c.checkpoint.revision, m⟩) = none := by
      rw [Table.find_eq_none, List.mem_map]
      rintro ⟨row, hrow, hkey⟩
      simp only [StoredRow.key, Prod.mk.injEq] at hkey
      have hmem := mem_rowsOf (h runId hrequested) hrow hkey.1
      have hlt := (hbefore.row_bounds _ hmem).2
      omega
    obtain ⟨inserted', hinsert, hrows⟩ := Table.insert_of_free hfree
    have hselect : ∀ other ∈ runIds requests,
        (inserted'.select (ofRun b other)).map StoredRow.row =
          rowsOf (acc other) ++ if runId = other then rowOf c (acc runId) else [] := by
      intro other hother
      rw [Table.select_append hrows, List.map_append, h other hother]
      congr 1
      by_cases hsame : runId = other
      · simp [ofRun, hsame, rowOf, hmessages]
      · have hweigh : ¬ b.weigh runId = b.weigh other := fun heq =>
          hsame (hruns hrequested hother heq)
        simp [ofRun, hsame, hweigh]
    cases hrewrites : c.history.rewrites with
    | false =>
      refine ⟨inserted', ?_, update_rows ?_ ?_⟩
      · simp only [writeHistory, hmessages, hrewrites, hrunId, taken_ok htakes, hinsert]
        rfl
      · rw [hselect runId hrequested, if_pos rfl, rowsOf, hrewrites]
        rfl
      · intro other hother hne
        rw [hselect other hother, if_neg (Ne.symm hne), List.append_nil]
    | true =>
      have hgeneration : generationOf (c :: acc runId) = (acc runId).length := by
        rw [generationOf, if_pos hrewrites, hlength]
      refine ⟨inserted'.delete (older b runId (generationOf (c :: acc runId))), ?_,
        update_rows ?_ ?_⟩
      · simp only [writeHistory, hmessages, hrewrites, hrunId, taken_ok htakes, hinsert]
        rfl
      · -- every row of an earlier generation goes, and only the new row stays
        rw [select_older, hselect runId hrequested, if_pos rfl, if_pos rfl, List.filter_append]
        have hold : (rowsOf (acc runId)).filter (fun r =>
            !decide (r.generation < generationOf (c :: acc runId))) = [] := by
          refine List.filter_eq_nil_iff.mpr ?_
          intro r hr
          obtain ⟨hr, hlt⟩ := hbefore.row_bounds r hr
          have hle := hbefore.generation_le
          simp only [Bool.not_eq_true', decide_eq_false_iff_not, not_not]
          omega
        have hnew : (rowOf c (acc runId)).filter (fun r =>
            !decide (r.generation < generationOf (c :: acc runId))) = rowOf c (acc runId) := by
          refine List.filter_eq_self.mpr ?_
          intro r hr
          obtain ⟨_, -, rfl⟩ := List.mem_map.mp hr
          simp
        rw [hold, hnew, rowsOf, if_pos hrewrites, List.nil_append]
      · intro other hother hne
        have hweigh : ¬ b.weigh other = b.weigh runId := fun heq =>
          hne (hruns hother hrequested heq)
        rw [select_older, if_neg hweigh, hselect other hother, if_neg (Ne.symm hne),
          List.append_nil]

private theorem writeHead_ok {heads : Table (HeadRow δ) (HeadRow.key b)} (c : Commit)
    (row : HeadRow δ)
    {previous : Option (HeadRow δ)} (hfind : heads.find (b.weigh row.runId) = previous)
    (hprevious : ∀ p ∈ previous, p.runId = row.runId ∧ p.core.revision = p.revision ∧
      p.revision ≤ maxI64)
    (hrun : b.takes row.runId = true) (hid : b.takes row.checkpointId = true) :
    ∃ heads', writeHead c row (previous.map HeadRow.core) heads = .ok heads' ∧
      ∀ key, heads'.find key = if key = b.weigh row.runId then some row else heads.find key := by
  cases previous with
  | none =>
    obtain ⟨heads', hinsert, hrows⟩ := Table.insert_of_free (r := row) hfind
    refine ⟨heads', ?_, ?_⟩
    · simp only [writeHead, Option.map_none, taken_ok hrun, taken_ok hid, hinsert]
      rfl
    · intro key
      rw [Table.find_append hrows hfind]
      by_cases hkey : key = b.weigh row.runId
      · simp [HeadRow.key, hkey]
      · simp [HeadRow.key, hkey, Ne.symm hkey]
  | some p =>
    obtain ⟨hspelled, hsame, hfits⟩ := hprevious p rfl
    have haffected : heads.affected (fun r : HeadRow δ =>
        decide (b.weigh r.runId = b.weigh row.runId ∧ r.revision = p.core.revision)) = 1 := by
      refine Table.affected_of_find hfind ?_ ?_
      · intro r hr
        rw [decide_eq_true_eq] at hr
        exact hr.1
      · simp [hspelled, hsame]
    have hexpected : toI64 p.core.revision = .ok p.core.revision :=
      toI64_ok (hsame ▸ hfits)
    refine ⟨heads.update (fun r : HeadRow δ =>
      decide (b.weigh r.runId = b.weigh row.runId ∧ r.revision = p.core.revision))
      row.set row.key_set, ?_, ?_⟩
    · simp only [writeHead, Option.map_some, hexpected]
      change (require _ _ >>= fun _ => _) = _
      rw [require, if_pos haffected]
      change (taken _ _ >>= fun _ => _) = _
      rw [taken_ok hid]
      rfl
    · intro key
      rw [Table.find_update]
      by_cases hkey : key = b.weigh row.runId
      · subst hkey
        simp [hfind, hspelled, hsame, HeadRow.set]
      · rw [if_neg hkey]
        cases hother : heads.find key with
        | none => rfl
        | some r =>
          have hr : r.key b = key := Table.key_of_find hother
          have hweigh : ¬ b.weigh r.runId = b.weigh row.runId := fun heq =>
            hkey (hr.symm.trans heq)
          simp [hweigh]

private theorem writeCommit_ok {commits : Table (CommitRow κ) (CommitRow.key b)} (row : CommitRow κ)
    (hrun : b.takes row.runId = true) (hid : b.takes row.checkpointId = true)
    (hfree : commits.find (row.key b) = none)
    (hrevision : ∀ r ∈ commits.rows, b.weigh r.runId = b.weigh row.runId →
      r.revision ≠ row.revision) :
    ∃ commits', writeCommit row commits = .ok commits' ∧ commits'.rows = commits.rows ++ [row] := by
  obtain ⟨commits', hinsert, hrows⟩ := Table.insert_of_free hfree
  have hempty : (commits.select (fun r => decide (b.weigh r.runId = b.weigh row.runId ∧
      r.revision = row.revision))).isEmpty = true := by
    rw [List.isEmpty_iff]
    refine List.filter_eq_nil_iff.mpr ?_
    intro r hr
    simpa using hrevision r hr
  refine ⟨commits', ?_, hrows⟩
  simp only [writeCommit, taken_ok hrun, taken_ok hid, hempty, require, if_true, hinsert]
  rfl

private theorem writeCommit_taken {commits commits' : Table (CommitRow κ) (CommitRow.key b)}
    {row : CommitRow κ} (h : writeCommit row commits = .ok commits') :
    b.takes row.runId = true ∧ b.takes row.checkpointId = true := by
  obtain ⟨_, hrun, h⟩ := Result.bind_ok h
  obtain ⟨_, hid, -⟩ := Result.bind_ok h
  exact ⟨require_ok hrun, require_ok hid⟩

private theorem write_taken [DecidableEq δ] {d : Digests δ κ} {c : Commit} {revision : Nat}
    {previous : Option (HeadRow δ)} {db db' : Sql δ κ b}
    (h : write d c revision previous db = .ok db') :
    b.takes c.checkpoint.context.runId = true ∧ b.takes c.checkpoint.id = true := by
  obtain ⟨_, -, h⟩ := Result.bind_ok h
  obtain ⟨_, -, h⟩ := Result.bind_ok h
  obtain ⟨_, hcommits, -⟩ := Result.bind_ok h
  exact writeCommit_taken hcommits

section Commits

variable [DecidableEq δ] [DecidableEq κ] {d : Digests δ κ} {t : Timing} {c : Commit}

theorem commit_written {db db' : Sql δ κ b} (h : commit d t c db = .ok db') (hchanged : db' ≠ db) :
    b.takes c.checkpoint.context.runId = true ∧ b.takes c.checkpoint.id = true ∧
      t.past t.written = false := by
  obtain ⟨revision, -, h⟩ := Result.bind_ok h
  obtain ⟨_, -, h⟩ := Result.bind_ok h
  dsimp only at h
  split at h
  · split at h
    · cases h
      exact absurd rfl hchanged
    · cases h
  · obtain ⟨_, -, h⟩ := Result.bind_ok h
    obtain ⟨next, hwrite, h⟩ := Result.bind_ok h
    obtain ⟨_, hearly, -⟩ := Result.bind_ok h
    obtain ⟨hrun, hid⟩ := write_taken hwrite
    exact ⟨hrun, hid, require_ok hearly⟩

/-- The first commit of a database is written, so its id is one the column takes. -/
theorem commit_first {db : Sql δ κ b} (h : commit d t c empty = .ok db) :
    b.takes c.checkpoint.id = true := by
  obtain ⟨revision, -, h⟩ := Result.bind_ok h
  obtain ⟨_, -, h⟩ := Result.bind_ok h
  obtain ⟨_, -, h⟩ := Result.bind_ok h
  obtain ⟨next, hwrite, -⟩ := Result.bind_ok h
  exact (write_taken hwrite).2

theorem commit_unnumbered (h : maxI64 < c.checkpoint.revision) (db : Sql δ κ b) :
    commit d t c db = .error (.storage "out of range integral type conversion attempted") := by
  have hrange : toI64 c.checkpoint.revision =
    .error (.storage "out of range integral type conversion attempted") := if_neg (by omega)
  simp only [commit, hrange]
  rfl

end Commits

private theorem existing_eq {d : Digests δ κ} {db : Sql δ κ b} {acc : Accepted}
    (h : db.Holds d requests acc) {runId id : String} (hrun : runId ∈ runIds requests)
    (hid : id ∈ checkpointIds requests runId) :
    ((db.heads.find (b.weigh runId)).bind fun row =>
      db.commits.find (b.weigh row.runId, b.weigh id)).map CommitRow.digest =
      (withId id (acc runId)).map d.digest := by
  rw [h.heads runId hrun, ← h.ids runId hrun id hid]
  cases hhead : headOf (acc runId) with
  | none =>
    have hempty : acc runId = [] := by simpa [headOf] using hhead
    have hnone := h.ids runId hrun id hid
    rw [hempty] at hnone
    simpa [withId, eq_comm] using hnone
  | some p => rfl

/-- The columns take the commit, and its deadline leaves it the time. -/
structure Fits (b : Collation) (t : Timing) (c : Commit) : Prop where
  revision : c.checkpoint.revision ≤ maxI64
  runId : b.takes c.checkpoint.context.runId = true
  id : b.takes c.checkpoint.id = true
  connected : ∀ now ∈ t.connected, t.past now = false
  steady : t.Steady

private theorem begin_ok {t : Timing} (h : ∀ now ∈ t.connected, t.past now = false) : begin t = .ok
    () := by
  unfold begin
  split
  · exact checkDeadline_ok (h _ ‹_›)
  · rfl

private theorem mem_runIds {t : Timing} {c : Commit} (h : Request.commit t c ∈ requests) :
    c.checkpoint.context.runId ∈ runIds requests := ⟨_, h, rfl⟩

private theorem mem_checkpointIds {t : Timing} {c : Commit} (h : Request.commit t c ∈ requests) :
    c.checkpoint.id ∈ checkpointIds requests c.checkpoint.context.runId := ⟨t, c, h, rfl, rfl⟩

private theorem commit_known [DecidableEq δ] [DecidableEq κ] {d : Digests δ κ} {db : Sql δ κ b}
    {acc : Accepted} {t : Timing} {c old : Commit} (h : db.Holds d requests acc)
    (hrequested : .commit t c ∈ requests) (hrevision : c.checkpoint.revision ≤ maxI64)
    (hbegin : begin t = .ok ())
    (hold : withId c.checkpoint.id (acc c.checkpoint.context.runId) = some old) :
    commit d t c db = if d.digest old = d.digest c then .ok db
      else .error (.storage "checkpoint id reused") := by
  have hexisting := existing_eq h (mem_runIds hrequested) (mem_checkpointIds hrequested)
  rw [hold] at hexisting
  obtain ⟨existing, hfound, hdigest⟩ := Option.map_eq_some_iff.mp hexisting
  rw [← hdigest]
  simp only [commit, toI64_ok hrevision, hbegin, hfound]
  rfl

private theorem commit_fresh [DecidableEq δ] [DecidableEq κ] {d : Digests δ κ} {db : Sql δ κ b}
    {acc : Accepted} {t : Timing} {c : Commit} (h : db.Holds d requests acc)
    (hrequested : .commit t c ∈ requests) (hrevision : c.checkpoint.revision ≤ maxI64)
    (hbegin : begin t = .ok ())
    (hid : withId c.checkpoint.id (acc c.checkpoint.context.runId) = none) :
    commit d t c db = do
      t.checkDeadline t.checked
      let next ← write d c c.checkpoint.revision
        (db.heads.find (b.weigh c.checkpoint.context.runId)) db
      t.checkDeadline t.written
      return next := by
  have hexisting := existing_eq h (mem_runIds hrequested) (mem_checkpointIds hrequested)
  rw [hid, Option.map_none, Option.map_eq_none_iff] at hexisting
  simp only [commit, toI64_ok hrevision, hbegin, hexisting]
  rfl

private theorem core_of_head {d : Digests δ κ} {db : Sql δ κ b} {acc : Accepted}
    (h : db.Holds d requests acc) {runId : String} (hrun : runId ∈ runIds requests) :
    (db.heads.find (b.weigh runId)).map HeadRow.core =
      (headOf (acc runId)).map (Checkpoint.core d.entries) := by
  rw [h.heads runId hrun, Option.map_map]
  rfl

private theorem head_row {d : Digests δ κ} {db : Sql δ κ b} {acc : Accepted}
    (h : db.Holds d requests acc)
    {runId : String} (hrun : runId ∈ runIds requests) :
    ∀ p ∈ db.heads.find (b.weigh runId),
      p.runId = runId ∧ p.core.revision = p.revision ∧ p.revision ≤ maxI64 := by
  intro p hp
  rw [h.heads runId hrun] at hp
  obtain ⟨q, hq, rfl⟩ := Option.map_eq_some_iff.mp hp
  exact ⟨rfl, rfl, h.fits _ q hq⟩

private theorem generation_eq {d : Digests δ κ} {db : Sql δ κ b} {acc : Accepted} {c : Commit}
    (h : db.Holds d requests acc) (hrun : c.checkpoint.context.runId ∈ runIds requests)
    (hvalid : c.validateAgainst (headOf (acc c.checkpoint.context.runId)) = .ok ()) :
    (if c.history.rewrites then c.checkpoint.revision
      else ((db.heads.find (b.weigh c.checkpoint.context.runId)).map
        HeadRow.generation).getD 0) = generationOf (c :: acc c.checkpoint.context.runId) := by
  rw [generationOf]
  split
  · rfl
  · rename_i hkept
    rw [h.heads _ hrun]
    cases hhead : headOf (acc c.checkpoint.context.runId) with
    | none =>
      obtain ⟨m, hm⟩ := (delta_of_accepted hvalid).mpr hhead
      rw [hm] at hkept
      exact absurd rfl hkept
    | some p => rfl

private theorem write_ok [DecidableEq δ] {d : Digests δ κ} (hfree : d.entries.CollisionFree)
    (hdistinguished : Distinguished b requests) {db : Sql δ κ b} {acc : Accepted} {t : Timing}
    {c : Commit} (h : db.Holds d requests acc) (hrequested : .commit t c ∈ requests)
    (hfits : Fits b t c)
    (hid : withId c.checkpoint.id (acc c.checkpoint.context.runId) = none)
    (hearly : t.past t.checked = false)
    (hvalid : c.validateAgainst (headOf (acc c.checkpoint.context.runId)) = .ok ()) :
    ∃ db', write d c c.checkpoint.revision
        (db.heads.find (b.weigh c.checkpoint.context.runId)) db = .ok db' ∧
      db'.Holds d requests (Function.update acc c.checkpoint.context.runId
        (c :: acc c.checkpoint.context.runId)) := by
  have hrun := mem_runIds hrequested
  have hcheckpoint := mem_checkpointIds hrequested
  have htakes := hfits.runId
  have hlogs := h.logs.extends (d := d) (.appended hid hearly hvalid)
  have hlog := hlogs c.checkpoint.context.runId
  rw [Function.update_self] at hlog
  have hlength := hlog.revision_cons
  generalize hrunId : c.checkpoint.context.runId = runId at *
  obtain ⟨heads', hheads, hfind⟩ := writeHead_ok c
    ⟨runId, c.checkpoint.revision, c.checkpoint.id, generationOf (c :: acc runId), d.core c⟩
    rfl (head_row h hrun) htakes hfits.id
  have hfresh : db.commits.find (b.weigh runId, b.weigh c.checkpoint.id) = none := by
    simpa [hid] using h.ids runId hrun c.checkpoint.id hcheckpoint
  obtain ⟨commits', hcommits, hrows⟩ := writeCommit_ok
    ⟨runId, c.checkpoint.id, c.checkpoint.revision, d.digest c⟩ htakes hfits.id hfresh
    (by
      intro r hr hweigh
      obtain ⟨hmem, hlt⟩ := h.revisions r hr
      rw [hdistinguished.runs hmem hrun hweigh] at hlt
      change r.revision ≠ c.checkpoint.revision
      omega)
  obtain ⟨history', hhistory, hselect⟩ := writeHistory_ok (c := c) hdistinguished.runs
    (by rw [hrunId]; exact hrun) (by rw [hrunId]; exact htakes) h.history
    (by rw [hrunId]; exact hlog) (by rw [hrunId]; exact h.logs runId)
  rw [hrunId] at hhistory hselect
  have hcheck : c.validateCore d.entries ((db.heads.find (b.weigh runId)).map HeadRow.core) =
      .ok () := by
    rw [core_of_head h hrun, Commit.validateCore_eq hfree, hvalid]
  have hgeneration := generation_eq h (c := c) (by rw [hrunId]; exact hrun)
    (by rw [hrunId]; exact hvalid)
  rw [hrunId] at hgeneration
  refine ⟨⟨heads', commits', history'⟩, ?_, ?_⟩
  · simp only [write, hrunId, hcheck, hgeneration]
    change (writeHead c _ _ _ >>= fun _ => _) = _
    rw [hheads]
    change (writeCommit _ _ >>= fun _ => _) = _
    rw [hcommits]
    change (writeHistory _ _ _ _ >>= fun _ => _) = _
    rw [hhistory]
    rfl
  · refine
      { logs := hlogs
        heads := ?_
        ids := ?_
        revisions := ?_
        history := hselect
        fits := ?_ }
    · intro other hother
      rw [hfind]
      by_cases hsame : other = runId
      · subst hsame
        rw [if_pos rfl, Function.update_self]
        rfl
      · have hweigh : ¬ b.weigh other = b.weigh runId := fun heq =>
          hsame (hdistinguished.runs hother hrun heq)
        rw [if_neg hweigh, Function.update_of_ne hsame]
        exact h.heads other hother
    · intro other hother id hid'
      rw [Table.find_append hrows hfresh]
      by_cases hsame : other = runId
      · subst hsame
        rw [Function.update_self, withId_cons]
        by_cases hsameId : c.checkpoint.id = id
        · subst hsameId
          simp [CommitRow.key]
        · have hweigh : ¬ b.weigh c.checkpoint.id = b.weigh id := fun heq =>
            hsameId (hdistinguished.ids other hcheckpoint hid' heq)
          simpa [CommitRow.key, hsameId, hweigh] using h.ids other hother id hid'
      · have hweigh : ¬ b.weigh runId = b.weigh other := fun heq =>
          hsame (hdistinguished.runs hrun hother heq).symm
        rw [Function.update_of_ne hsame]
        simpa [CommitRow.key, hweigh] using h.ids other hother id hid'
    · intro row hrow
      rw [hrows, List.mem_append, List.mem_singleton] at hrow
      rcases hrow with hrow | rfl
      · obtain ⟨hmem, hlt⟩ := h.revisions row hrow
        refine ⟨hmem, ?_⟩
        by_cases hother : row.runId = runId
        · rw [hother] at hlt ⊢
          rw [Function.update_self]
          exact Nat.lt_succ_of_lt hlt
        · rwa [Function.update_of_ne hother]
      · refine ⟨hrun, ?_⟩
        change c.checkpoint.revision < (Function.update acc runId (c :: acc runId) runId).length
        rw [Function.update_self, hlength]
        exact Nat.lt_succ_self _
    · intro other p hp
      by_cases hother : other = runId
      · subst hother
        rw [Function.update_self] at hp
        cases hp
        exact hfits.revision
      · rw [Function.update_of_ne hother] at hp
        exact h.fits other p hp

private theorem holds_delete {d : Digests δ κ} (hdistinguished : Distinguished b requests)
    {db : Sql δ κ b} {acc : Accepted} (h : db.Holds d requests acc) {runId : String}
    (hrun : runId ∈ runIds requests) :
    (db.delete runId).Holds d requests (Function.update acc runId []) := by
  refine
    { logs := h.logs.delete runId
      heads := ?_
      ids := ?_
      revisions := ?_
      history := ?_
      fits := ?_ }
  · intro other hother
    have hfind : (db.delete runId).heads.find (b.weigh other) =
        if decide (b.weigh other = b.weigh runId) then none else db.heads.find (b.weigh other) :=
      Table.find_delete (q := fun key => decide (key = b.weigh runId)) fun _ => rfl
    rw [hfind]
    by_cases hsame : other = runId
    · subst hsame
      simp [headOf]
    · have hweigh : ¬ b.weigh other = b.weigh runId := fun heq =>
        hsame (hdistinguished.runs hother hrun heq)
      simp [hsame, hweigh, h.heads other hother]
  · intro other hother id hid
    have hfind : (db.delete runId).commits.find (b.weigh other, b.weigh id) =
        if decide (b.weigh other = b.weigh runId) then none
        else db.commits.find (b.weigh other, b.weigh id) :=
      Table.find_delete (q := fun key : String × String => decide (key.1 = b.weigh runId))
        fun _ => rfl
    rw [hfind]
    by_cases hsame : other = runId
    · subst hsame
      simp [withId]
    · have hweigh : ¬ b.weigh other = b.weigh runId := fun heq =>
        hsame (hdistinguished.runs hother hrun heq)
      simp [hsame, hweigh, h.ids other hother id hid]
  · intro row hrow
    obtain ⟨hrow, hother⟩ := List.mem_filter.mp hrow
    have hother : row.runId ≠ runId := by
      rintro rfl
      simp at hother
    rw [Function.update_of_ne hother]
    exact h.revisions row hrow
  · intro other hother
    rw [delete, Table.select_delete]
    by_cases hsame : other = runId
    · subst hsame
      rw [Function.update_self, rowsOf, List.map_eq_nil_iff, List.filter_eq_nil_iff]
      intro r hr
      have hr : ofRun b other r = true := (List.mem_filter.mp hr).2
      simp [hr]
    · rw [Function.update_of_ne hsame, ← h.history other hother]
      congr 1
      refine List.filter_eq_self.mpr ?_
      intro r hr
      have hr : b.weigh r.runId = b.weigh other := by
        simpa [ofRun] using (List.mem_filter.mp hr).2
      have hweigh : ¬ b.weigh other = b.weigh runId := fun heq =>
        hsame (hdistinguished.runs hother hrun heq)
      simp [ofRun, hr, hweigh]
  · intro other p hp
    by_cases hother : other = runId
    · subst hother
      simp [headOf] at hp
    · rw [Function.update_of_ne hother] at hp
      exact h.fits other p hp

theorem agrees [DecidableEq δ] [DecidableEq κ] {d : Digests δ κ}
    (hfree : d.entries.CollisionFree) (hdistinguished : Distinguished b requests) :
    Agrees (store b d) d (· ∈ requests) (Fits b) (Holds d requests) where
  accepted := by
    intro s acc acc' t c hholds hrequested haccepted hfits
    have hbegin := begin_ok hfits.connected
    cases extends_of_ok haccepted with
    | repeated old hold hsame =>
      refine ⟨s, ?_, hholds⟩
      exact (commit_known hholds hrequested hfits.revision hbegin hold).trans (if_pos hsame)
    | appended hid hearly hvalid =>
      obtain ⟨s', hwrite, hnext⟩ :=
        write_ok hfree hdistinguished hholds hrequested hfits hid hearly hvalid
      refine ⟨s', ?_, hnext⟩
      refine (commit_fresh hholds hrequested hfits.revision hbegin hid).trans ?_
      simp only [checkDeadline_ok hearly, checkDeadline_ok (hfits.steady.early hearly), hwrite]
      rfl
  rejected := by
    intro s acc t c e hholds hrequested herror
    by_cases hrevision : c.checkpoint.revision ≤ maxI64
    · cases hbegin : begin t with
      | error e' =>
        refine ⟨e', ?_⟩
        simp only [store, commit, toI64_ok hrevision, hbegin]
        rfl
      | ok u =>
        cases rejects_of_error herror with
        | reused old hold hdiffer =>
          exact ⟨_, (commit_known hholds hrequested hrevision hbegin hold).trans
            (if_neg hdiffer)⟩
        | late hid hpast =>
          refine ⟨.deadline, (commit_fresh hholds hrequested hrevision hbegin hid).trans ?_⟩
          simp only [checkDeadline_late hpast]
          rfl
        | invalid e' hid hearly hinvalid =>
          refine ⟨e', (commit_fresh hholds hrequested hrevision hbegin hid).trans ?_⟩
          simp only [checkDeadline_ok hearly, write, core_of_head hholds (mem_runIds hrequested),
            Commit.validateCore_eq hfree, hinvalid]
          rfl
    · exact ⟨_, commit_unnumbered (by omega) s⟩
  loadHead := by
    intro s acc runId hholds hrequested
    have hrun : runId ∈ runIds requests := ⟨_, hrequested, rfl⟩
    simp only [store, loadHead, hholds.heads runId hrun]
    cases hhead : headOf (acc runId) with
    | none => rfl
    | some p =>
      have hfits := hholds.fits runId p hhead
      have hrows : (s.history.select fun r => decide (b.weigh r.runId = b.weigh runId ∧
          r.row.generation = generationOf (acc runId) ∧ r.row.revision ≤ p.revision)).map
          StoredRow.row = (rowsOf (acc runId)).filter fun r =>
            decide (r.generation = generationOf (acc runId) ∧ r.revision ≤ p.revision) := by
        rw [← hholds.history runId hrun, List.filter_map]
        congr 1
        rw [Table.select, Table.select, List.filter_filter]
        congr 1
        funext r
        simp only [ofRun, Function.comp_apply, ← Bool.decide_and]
        congr 1
        exact propext (by tauto)
      have hrevision : toI64 (p.core d.entries).revision = .ok p.revision := toI64_ok hfits
      simp only [Option.map_some, hrevision]
      change (rebuild _ _ (byRevision (List.map _ (s.history.select _))) >>= fun c => _) = _
      rw [hrows, (hholds.logs runId).rebuild_eq d.entries hhead (List.Perm.refl _)]
      rfl
  delete := fun _ hholds hrequested => holds_delete hdistinguished hholds ⟨_, hrequested, rfl⟩

end Sql

end Zhir.Storage
