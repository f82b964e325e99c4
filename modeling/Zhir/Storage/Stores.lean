import Zhir.Storage.Memory
import Zhir.Storage.Redis
import Zhir.Storage.Sql

/-!
The three stores answer as one reference does.
-/

set_option autoImplicit false
set_option relaxedAutoImplicit false

namespace Zhir.Storage

open Zhir.Core

variable {δ κ : Type} [DecidableEq δ] [DecidableEq κ]

def noCommits : Accepted := fun _ => []

/-- The reference accepts no commit whose deadline passes between its check and its write. -/
def Timely (d : Digests δ κ) (requests : List Request) : Prop :=
  (reference d).machine.Allows (Writable d fun t _ => t.Steady) noCommits requests

/-- The reference accepts no commit that the columns of this database cannot hold, or that has
no time to be written. -/
def Fitting (b : Collation) (d : Digests δ κ) (requests : List Request) : Prop :=
  (reference d).machine.Allows (Writable d (Sql.Fits b)) noCommits requests

def RunStore.Ignores {σ : Type} (store : RunStore σ) (t : Timing) (c : Commit) : Prop :=
  ∀ s s', store.commit t c s = .ok s' → s' = s

private theorem memory_answers (d : Digests δ κ) (hfree : d.entries.CollisionFree)
    (requests : List Request) : (Memory.store d).machine.answers Memory.new requests =
      (reference d).machine.answers noCommits requests := by
  refine (Memory.agrees hfree).refines.answers_eq (Memory.holds_new d) ?_
  refine Library.Machine.allows_of_forall ?_ _ _
  exact fun _ _ => ⟨trivial, fun _ _ _ _ _ => trivial⟩

/-- Every store answers every list of requests as the reference does: the memory store always, the
Redis store as long as no deadline passes between the check of a commit and its write, and the
SQL store as long as moreover its columns hold the commits and its collation tells their ids
apart. What exceeds the columns or the time is not written. -/
theorem stores_agree (d : Digests δ κ) (hfree : d.entries.CollisionFree) (listing : Listing)
    (b : Collation) (requests : List Request) :
    (Memory.store d).machine.answers Memory.new requests =
      (reference d).machine.answers noCommits requests ∧
    (Timely d requests → (Redis.store d listing).machine.answers Redis.empty requests =
      (reference d).machine.answers noCommits requests) ∧
    (Fitting b d requests → Sql.Distinguished b requests →
      (Sql.store b d).machine.answers Sql.empty requests =
        (reference d).machine.answers noCommits requests) ∧
    (∀ (t : Timing) (c : Commit) (db : Sql δ κ b), maxI64 < c.checkpoint.revision →
      ∃ e, (Sql.store b d).commit t c db = .error e) ∧
    (∀ (t : Timing) (c : Commit),
      ¬ (b.takes c.checkpoint.context.runId = true ∧ b.takes c.checkpoint.id = true) →
      (Sql.store b d).Ignores t c) ∧
    ∀ (t : Timing) (c : Commit), t.past t.written = true →
      (Redis.store d listing).Ignores t c ∧ (Sql.store b d).Ignores t c := by
  refine ⟨memory_answers d hfree requests, ?_, ?_, ?_, ?_, ?_⟩
  · intro htimely
    exact (Redis.agrees hfree).refines.answers_eq (Redis.stands_empty d)
      (htimely.and_mem fun _ _ => trivial)
  · intro hfitting hdistinguished
    exact (Sql.agrees hfree hdistinguished).refines.answers_eq (Sql.holds_empty d requests)
      (hfitting.and_mem fun _ hrequest => hrequest)
  · exact fun t c db hrevision => ⟨_, Sql.commit_unnumbered hrevision db⟩
  · intro t c htaken db db' hcommit
    by_contra hchanged
    obtain ⟨hrun, hid, -⟩ := Sql.commit_written hcommit hchanged
    exact htaken ⟨hrun, hid⟩
  · intro t c hpast
    refine ⟨fun s s' hcommit => ?_, fun db db' hcommit => ?_⟩
    · by_contra hchanged
      have hearly := Redis.commit_written hcommit hchanged
      simp [hpast] at hearly
    · by_contra hchanged
      obtain ⟨-, -, hearly⟩ := Sql.commit_written hcommit hchanged
      simp [hpast] at hearly

def plainDigests : Digests (List HistoryEntry) (CheckpointCore (List HistoryEntry)) :=
  ⟨plainDigest, id⟩

def plainListing : Listing := ⟨id, List.Perm.refl⟩

/-- A collation that does not tell the cases of a letter apart. -/
def lowered (text : String) : String := String.ofList (text.toList.map Char.toLower)

/-- A commit due before 9, checked at 2 and written at this time. -/
def sampleTiming (written : Nat) : Timing :=
  { deadline := some 9, connected := some 1, checked := 2, written }

/-- A short run: two commits, the second submitted twice, a load, and a delete. -/
def sampleRequests : List Request :=
  [.commit (sampleTiming 3) sampleFirst, .commit (sampleTiming 4) sampleSecond,
    .commit (sampleTiming 5) sampleSecond, .loadHead "run", .delete "run"]

private theorem sampleRequests_fit : ∀ request ∈ sampleRequests, ∀ t c, request = .commit t c →
    Sql.Fits (.mysql lowered) t c := by
  have hfits : ∀ c ∈ [sampleFirst, sampleSecond], ∀ written < 9,
      Sql.Fits (.mysql lowered) (sampleTiming written) c := by
    intro c hc written hwritten
    have hnumbered : c.checkpoint.revision ≤ maxI64 ∧
        c.checkpoint.context.runId.length ≤ 255 ∧ c.checkpoint.id.length ≤ 255 := by
      revert c
      decide
    refine ⟨hnumbered.1, decide_eq_true hnumbered.2.1, decide_eq_true hnumbered.2.2, ?_, ?_⟩
    · rintro now ⟨⟩
      rfl
    · intro hpast
      have hlate : 9 ≤ written := of_decide_eq_true hpast
      omega
  simp only [sampleRequests, List.forall_mem_cons, List.not_mem_nil, false_implies, implies_true,
    and_true, reduceCtorEq, Request.commit.injEq]
  refine ⟨?_, ?_, ?_⟩
  · rintro t c ⟨rfl, rfl⟩
    exact hfits _ (by simp) 3 (by decide)
  · rintro t c ⟨rfl, rfl⟩
    exact hfits _ (by simp) 4 (by decide)
  · rintro t c ⟨rfl, rfl⟩
    exact hfits _ (by simp) 5 (by decide)

private theorem sampleRequests_distinguished :
    Sql.Distinguished (.mysql lowered) sampleRequests := by
  have hruns : Sql.runIds sampleRequests ⊆ {"run"} := by
    rintro runId ⟨request, hrequest, rfl⟩
    have hrun : ∀ request ∈ sampleRequests, request.runId = "run" := by decide
    exact hrun request hrequest
  have hids : ∀ runId, Sql.checkpointIds sampleRequests runId ⊆ {"c", "cc"} := by
    rintro runId id ⟨t, c, hrequest, -, rfl⟩
    have hcommit : c = sampleFirst ∨ c = sampleSecond := by
      simp only [sampleRequests, List.mem_cons, Request.commit.injEq, List.not_mem_nil,
        reduceCtorEq, or_false] at hrequest
      tauto
    obtain rfl | rfl := hcommit
    · exact .inl rfl
    · exact .inr rfl
  refine ⟨(Set.injOn_singleton _ _).mono hruns, fun runId => Set.InjOn.mono (hids runId) ?_⟩
  simp [Collation.mysql, lowered]

def sampleAnswers : List Answer :=
  [.committed true, .committed true, .committed true, .head (.ok (some sampleSecond.checkpoint)),
    .deleted]

theorem stores_agree_sample :
    (Redis.store plainDigests plainListing).machine.answers Redis.empty sampleRequests =
        sampleAnswers ∧
      (Sql.store (.mysql lowered) plainDigests).machine.answers Sql.empty sampleRequests =
        sampleAnswers := by
  have hreference : (reference plainDigests).machine.answers noCommits sampleRequests =
      sampleAnswers := by decide +kernel
  have hfitting : Fitting (.mysql lowered) plainDigests sampleRequests :=
    .mono (fun _ _ hfits t c _ hrequest _ => hfits t c hrequest)
      (Library.Machine.allows_of_mem sampleRequests_fit _)
  have htimely : Timely plainDigests sampleRequests :=
    .mono (fun _ _ hfits t c acc' hrequest haccepted =>
      (hfits t c acc' hrequest haccepted).steady) hfitting
  obtain ⟨-, hredis, hsql, -⟩ := stores_agree plainDigests plainDigest_collisionFree plainListing
    (.mysql lowered) sampleRequests
  exact ⟨(hredis htimely).trans hreference,
    (hsql hfitting sampleRequests_distinguished).trans hreference⟩

def longName (n : Nat) : String := String.ofList (List.replicate (n + 1) 'c')

def longCheckpoint : Nat → Checkpoint
  | 0 => (sampleCheckpoint [sampleEntry 0 "go"]).restamp (longName 0) none 0 .started
  | n + 1 => (sampleCheckpoint [sampleEntry 0 "go"]).restamp (longName (n + 1))
      (some (longName n)) (n + 1) .started

def longCommit : Nat → Commit
  | 0 => ⟨longCheckpoint 0, .initial [sampleEntry 0 "go"]⟩
  | n + 1 => ⟨longCheckpoint (n + 1), .unchanged⟩

/-- The first `n` commits of the run. -/
def longRun (n : Nat) : List Request := (List.range n).map fun i => .commit {} (longCommit i)

private theorem longName_length (n : Nat) : (longName n).length = n + 1 := by
  simp [longName]

private theorem longName_injective {m n : Nat} (h : longName m = longName n) : m = n := by
  have hlength := congrArg String.length h
  simpa [longName_length] using hlength

private theorem longName_ne (n : Nat) : longName n ≠ "" := by
  intro h
  have hlength := congrArg String.length h
  simp [longName_length] at hlength

private theorem longCheckpoint_valid (n : Nat) : (longCheckpoint n).validate = .ok () := by
  have hsample : (sampleCheckpoint [sampleEntry 0 "go"]).validate = .ok () := by decide +kernel
  cases n with
  | zero => exact Checkpoint.validate_restamp hsample (longName_ne 0) rfl
  | succ n => exact Checkpoint.validate_restamp hsample (longName_ne (n + 1)) rfl

private theorem longCommit_revision (n : Nat) : (longCommit n).checkpoint.revision = n := by
  cases n <;> rfl

private theorem longCommit_id (n : Nat) : (longCommit n).checkpoint.id = longName n := by
  cases n <;> rfl

private theorem longCommit_checkpoint (n : Nat) : (longCommit n).checkpoint = longCheckpoint n := by
  cases n <;> rfl

private theorem longCommit_runId (n : Nat) : (longCommit n).checkpoint.context.runId = "run" := by
  cases n <;> rfl

private theorem longCommit_accepted (n : Nat) :
    (longCommit (n + 1)).validateAgainst (some (longCheckpoint n)) = .ok () := by
  have hsame : (longCommit (n + 1)).follows (longCheckpoint n) =
      (longCommit 1).follows (longCheckpoint 0) := by
    cases n <;> rfl
  have hfirst : (longCommit 1).follows (longCheckpoint 0) = .ok () := by decide +kernel
  refine Commit.ok_of_checked
    { revision := by cases n <;> rfl
      options := by cases n <;> rintro p ⟨⟩ <;> rfl
      parent := by cases n <;> rfl
      runId := by cases n <;> rintro p ⟨⟩ <;> rfl
      follows := ?_
      target := ⟨(longCheckpoint n).history.entries, [], rfl, by cases n <;> rfl, by simp⟩
      valid := longCheckpoint_valid (n + 1) }
  rintro p ⟨⟩
  rw [hsame, hfirst]

private theorem longCommit_first : (longCommit 0).validateAgainst none = .ok () := by
  refine Commit.ok_of_checked
    { revision := rfl
      options := by simp
      parent := rfl
      runId := by simp
      follows := by simp
      target := ⟨[], [sampleEntry 0 "go"], rfl, rfl, ?_⟩
      valid := longCheckpoint_valid 0 }
  decide

/-- The first `n` commits of the run, newest first. -/
def longLog : Nat → List Commit
  | 0 => []
  | n + 1 => longCommit n :: longLog n

private theorem longLog_accepts (n : Nat) :
    withId (longName n) (longLog n) = none ∧
      (longCommit n).validateAgainst (headOf (longLog n)) = .ok () := by
  have hfresh : ∀ k, k ≤ n → withId (longName n) (longLog k) = none := by
    intro k
    induction k with
    | zero => exact fun _ => rfl
    | succ k ih =>
      intro hk
      have hne : longName k ≠ longName n := fun h => by
        have hsame := longName_injective h
        omega
      rw [longLog, withId_cons, longCommit_id, if_neg hne]
      exact ih (by omega)
  refine ⟨hfresh n (Nat.le_refl n), ?_⟩
  cases n with
  | zero => exact longCommit_first
  | succ n =>
    have hhead : headOf (longLog (n + 1)) = some (longCheckpoint n) :=
      congrArg some (longCommit_checkpoint n)
    rw [hhead]
    exact longCommit_accepted n

private theorem longRun_succ (n : Nat) : longRun (n + 1) = longRun n ++
    [.commit {} (longCommit n)] := by
  simp [longRun, List.range_succ]

omit [DecidableEq δ] in
/-- The reference accepts the whole run, however long. -/
private theorem longRun_accepted (d : Digests δ κ) (n : Nat) :
    (reference d).machine.answers noCommits (longRun n) = List.replicate n (.committed true) ∧
      (reference d).machine.after noCommits (longRun n) "run" = longLog n := by
  induction n with
  | zero => exact ⟨rfl, rfl⟩
  | succ n ih =>
    obtain ⟨hanswers, hlog⟩ := ih
    obtain ⟨hfresh, hvalid⟩ := longLog_accepts n
    generalize hacc : (reference d).machine.after noCommits (longRun n) = acc at *
    have hcommit : (reference d).commit {} (longCommit n) acc =
        .ok (Function.update acc "run" (longLog (n + 1))) := by
      rw [← longCommit_id] at hfresh
      have hextends : Extends d {} (longCommit n) acc _ := .appended
        (by rw [longCommit_runId, hlog]; exact hfresh) rfl
        (by rw [longCommit_runId, hlog]; exact hvalid)
      rw [longCommit_runId, hlog] at hextends
      exact ok_of_extends hextends
    have hstep : (reference d).machine.step acc (.commit {} (longCommit n)) =
        (Function.update acc "run" (longLog (n + 1)), .committed true) := by
      simp only [RunStore.machine, hcommit]
    rw [longRun_succ, Library.Machine.answers_append, Library.Machine.after_append, hanswers, hacc]
    simp only [Library.Machine.answers, Library.Machine.after, hstep, Function.update_self]
    exact ⟨List.replicate_succ'.symm, trivial⟩

/-- Past `i64` revisions the SQL store rejects what the memory store accepts. -/
private theorem sql_differs (b : Collation) (d : Digests δ κ) (hfree : d.entries.CollisionFree)
    {n : Nat}
    (h : maxI64 < n) : (Sql.store b d).machine.answers Sql.empty (longRun (n + 1)) ≠
      (Memory.store d).machine.answers Memory.new (longRun (n + 1)) := by
  have hmemory := memory_answers d hfree (longRun (n + 1))
  rw [hmemory, (longRun_accepted d (n + 1)).1, longRun_succ, Library.Machine.answers_append]
  generalize (Sql.store b d).machine.after Sql.empty (longRun n) = db
  have hrevision : maxI64 < (longCommit n).checkpoint.revision := by
    rw [longCommit_revision]
    exact h
  have hrejected : (Sql.store b d).machine.answers db [.commit {} (longCommit n)] =
      [.committed false] := by
    have hcommit := Sql.commit_unnumbered (d := d) (t := {}) hrevision db
    simp only [Library.Machine.answers, RunStore.machine, Sql.store, hcommit]
  rw [hrejected]
  intro hsame
  have hlast := congrArg List.getLast? hsame
  simp [List.getLast?_replicate] at hlast

def firstCommit (id : String) : Commit :=
  ⟨(sampleCheckpoint [sampleEntry 0 "go"]).restamp id none 0 .started,
    .initial [sampleEntry 0 "go"]⟩

def secondCommit (id parentId : String) : Commit :=
  ⟨(sampleCheckpoint [sampleEntry 0 "go"]).restamp id (some parentId) 1 .started, .unchanged⟩

private theorem long_refused {n : Nat} (h : 255 ≤ n) :
    (Sql.store (.mysql lowered) plainDigests).machine.answers Sql.empty
      [.commit {} (firstCommit (longName n))] = [.committed false] := by
  have hlong : (Collation.mysql lowered).takes (longName n) = false :=
    decide_eq_false (by rw [longName_length]; omega)
  simp only [Library.Machine.answers, RunStore.machine, Sql.store]
  cases hcommit : Sql.commit plainDigests {} (firstCommit (longName n))
      (Sql.empty : Sql _ _ (.mysql lowered)) with
  | error e => rfl
  | ok db =>
    have htaken := Sql.commit_first hcommit
    exact absurd (hlong.symm.trans htaken) Bool.false_ne_true

/-- The stores answer differently to a run of 2^63 + 1 commits, to an id of 256 characters, to ids
that the collation takes for one, and to a commit whose deadline passes while it is made. -/
theorem stores_differ :
    (Sql.store .sqlite plainDigests).machine.answers Sql.empty (longRun (maxI64 + 1 + 1)) ≠
      (Memory.store plainDigests).machine.answers Memory.new (longRun (maxI64 + 1 + 1)) ∧
    (Sql.store (.mysql lowered) plainDigests).machine.answers Sql.empty
        [.commit {} (firstCommit (longName 255))] ≠
      (Memory.store plainDigests).machine.answers Memory.new
        [.commit {} (firstCommit (longName 255))] ∧
    (Sql.store (.mysql lowered) plainDigests).machine.answers Sql.empty
        [.commit {} (firstCommit "c"), .commit {} (secondCommit "C" "c")] ≠
      (Memory.store plainDigests).machine.answers Memory.new
        [.commit {} (firstCommit "c"), .commit {} (secondCommit "C" "c")] ∧
    (Redis.store plainDigests plainListing).machine.answers Redis.empty
        [.commit (sampleTiming 9) sampleFirst] ≠
      (Memory.store plainDigests).machine.answers Memory.new
        [.commit (sampleTiming 9) sampleFirst] := by
  refine ⟨sql_differs _ _ plainDigest_collisionFree (Nat.lt_succ_self maxI64), ?_, ?_, ?_⟩
  · rw [long_refused (le_refl 255)]
    decide +kernel
  · decide +kernel
  · decide +kernel

end Zhir.Storage
