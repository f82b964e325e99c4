import Zhir.Storage.Stores

/-!
Clients committing to one Redis store, a step of any of them at a time.
-/

set_option autoImplicit false
set_option relaxedAutoImplicit false

namespace Zhir.Storage

open Zhir.Core
open Zhir.Library (Machine)

variable {δ κ : Type}

/-- The accepted commits of the run when a client read an identity, when it read the head,
and when it was done, and the times at which it checked its deadline. -/
structure Views where
  identity : List Commit
  head : List Commit
  last : List Commit
  checks : List Nat
  deriving DecidableEq

/-- Where a client is in its commit. What it has read is all it goes by; the views only
record when it read. -/
inductive Phase (δ κ : Type)
  | submitted
  | identified (identity : List Commit)
  | prepared (arguments : Redis.Arguments δ κ) (identity head : List Commit) (checked : Nat)
  | done (result : Result Unit) (views : Views)
  deriving DecidableEq

/-- What a client submits: a commit, and the deadline it has. -/
structure Submission where
  commit : Commit
  deadline : Option Nat := none

def Submission.past (submission : Submission) (now : Nat) : Bool :=
  Timing.past { deadline := submission.deadline } now

structure Race (δ κ : Type) where
  store : Redis δ κ
  /-- What the scripts have written, newest first. -/
  accepted : Accepted
  clients : Nat → Phase δ κ

namespace Race

def initial : Race δ κ := ⟨Redis.empty, fun _ => [], fun _ => .submitted⟩

variable [DecidableEq δ] [DecidableEq κ]

/-- The log after a script: a reply that wrote a new identity adds the commit. -/
def logAfter (c : Commit) (arguments : Redis.Arguments δ κ) (run : RedisRun δ κ)
    (log : List Commit) : List Commit :=
  if (Redis.script arguments run).1 = .ok ∧ run.commits.lookup arguments.id = none then c :: log
  else log

def settle (c : Commit) (client : Nat) (arguments : Redis.Arguments δ κ)
    (identity head : List Commit) (checks : List Nat) (s : Race δ κ) : Race δ κ :=
  let runId := c.checkpoint.context.runId
  let answer := Redis.script arguments (s.store runId)
  let log := logAfter c arguments (s.store runId) (s.accepted runId)
  { store := Function.update s.store runId answer.2
    accepted := Function.update s.accepted runId log
    clients := Function.update s.clients client
      (.done (Redis.settled c answer.1) ⟨identity, head, log, checks⟩) }

/-- One step of one client at one time: its first read, its second read with the checks of
the deadline and the commit, or another check of the deadline and its script. -/
def step (d : Digests δ κ) (submissions : Nat → Submission) (s : Race δ κ) (turn : Nat × Nat) :
    Race δ κ :=
  let (client, now) := turn
  let c := (submissions client).commit
  let runId := c.checkpoint.context.runId
  let log := s.accepted runId
  let advance (phase : Phase δ κ) : Race δ κ :=
    { s with clients := Function.update s.clients client phase }
  match s.clients client with
  | .submitted =>
    match Redis.identified d c (s.store runId) with
    | some result => advance (.done result ⟨log, log, log, []⟩)
    | none => advance (.identified log)
  | .identified identity =>
    if (submissions client).past now then
      advance (.done (.error .deadline) ⟨identity, log, log, [now]⟩)
    else
      match Redis.prepare d c (s.store runId).head with
      | .ok arguments => advance (.prepared arguments identity log now)
      | .error e => advance (.done (.error e) ⟨identity, log, log, [now]⟩)
  | .prepared arguments identity head checked =>
    if (submissions client).past now then
      advance (.done (.error .deadline) ⟨identity, head, log, [checked, now]⟩)
    else settle c client arguments identity head [checked, now] s
  | .done _ _ => s

def machine (d : Digests δ κ) (submissions : Nat → Submission) :
    Machine (Race δ κ) (Nat × Nat) Unit where
  step s turn := (step d submissions s turn, ())

/-- The state after a schedule, which names the client and the time of each step. -/
def after (d : Digests δ κ) (submissions : Nat → Submission) (schedule : List (Nat × Nat)) :
    Race δ κ :=
  (machine d submissions).after initial schedule

end Race

/-- A commit of the log has the id and the digest of this one. -/
def Known (d : Digests δ κ) (c : Commit) (log : List Commit) : Prop :=
  ∃ a ∈ log, a.checkpoint.id = c.checkpoint.id ∧ d.digest a = d.digest c

/-- The commit was accepted from another client between the two reads. -/
def Overtaken (d : Digests δ κ) (c : Commit) (views : Views) : Prop :=
  ¬ Known d c views.identity ∧ Known d c views.head

def Late (submission : Submission) (views : Views) : Prop :=
  ∃ now ∈ views.checks, submission.past now = true

def Submission.runId (submission : Submission) : String :=
  submission.commit.checkpoint.context.runId

def Informed (d : Digests δ κ) (submission : Submission) (log : List Commit) : Phase δ κ → Prop
  | .submitted => True
  | .identified identity => ¬ Known d submission.commit identity
  | .prepared arguments identity head checked =>
    ¬ Known d submission.commit identity ∧
      submission.commit.validateAgainst (headOf head) = .ok () ∧
      Log submission.runId head ∧ arguments = Redis.argumentsOver d submission.commit head ∧
      head <:+ log ∧ submission.past checked = false
  | .done result views => Known d submission.commit views.last →
    (result = .ok () ↔ ¬ Overtaken d submission.commit views ∧ ¬ Late submission views)

/-- The invariant of a race. -/
structure Consistent (d : Digests δ κ) (submissions : Nat → Submission) (s : Race δ κ) :
    Prop where
  stands : Redis.Stands d s.store s.accepted
  clients : ∀ client, Informed d (submissions client) (s.accepted (submissions client).runId)
    (s.clients client)

private theorem withId_of_mem {runId : String} {log : List Commit} (h : Log runId log) {a : Commit}
    (ha : a ∈ log) : withId a.checkpoint.id log = some a := by
  induction h with
  | nil => cases ha
  | cons c log _ _ hid _ ih =>
    rw [withId_cons]
    rcases List.mem_cons.mp ha with rfl | ha
    · exact if_pos rfl
    · have hfound := ih ha
      by_cases hsame : c.checkpoint.id = a.checkpoint.id
      · rw [hsame, hfound] at hid
        cases hid
      · rw [if_neg hsame, hfound]

private theorem known_iff {d : Digests δ κ} {c : Commit} {runId : String} {log : List Commit}
    (h : Log runId log) : Known d c log ↔
      ∃ old, withId c.checkpoint.id log = some old ∧ d.digest old = d.digest c := by
  constructor
  · rintro ⟨a, ha, hid, hdigest⟩
    exact ⟨a, hid ▸ withId_of_mem h ha, hdigest⟩
  · rintro ⟨old, hold, hdigest⟩
    exact ⟨old, List.mem_of_find?_eq_some hold, by simpa using List.find?_some hold, hdigest⟩

private theorem not_known_of_next {d : Digests δ κ} (hidentity : Function.Injective d.identity)
    {c : Commit} {runId : String} {log : List Commit} (h : Log runId log)
    (hvalid : c.validateAgainst (headOf log) = .ok ()) : ¬ Known d c log := by
  rintro ⟨a, ha, -, hdigest⟩
  have hcore : d.core a = d.core c := hidentity hdigest
  have hrevision : a.checkpoint.revision = c.checkpoint.revision :=
    congrArg CheckpointCore.revision hcore
  have hbound := h.revision_lt a ha
  cases hhead : headOf log with
  | none =>
    have hempty : log = [] := by simpa [headOf] using hhead
    rw [hempty] at ha
    cases ha
  | some p =>
    rw [hhead] at hvalid
    have hnext := (Commit.accepted_of_ok hvalid).revision
    have hlength := h.revision p hhead
    omega

private theorem eq_of_suffix {runId : String} {head log : List Commit} (hhead : Log runId head)
    (hlog : Log runId log) (hsuffix : head <:+ log)
    (hrevision : (headOf log).map Checkpoint.revision = (headOf head).map Checkpoint.revision) :
    head = log := by
  refine hsuffix.eq_of_length ?_
  cases hold : headOf head with
  | none =>
    rw [hold, Option.map_none, Option.map_eq_none_iff] at hrevision
    have hempty : head = [] := by simpa [headOf] using hold
    have hempty' : log = [] := by simpa [headOf] using hrevision
    rw [hempty, hempty']
  | some p =>
    rw [hold, Option.map_some, Option.map_eq_some_iff] at hrevision
    obtain ⟨q, hq, hsame⟩ := hrevision
    have hlength := hhead.revision p hold
    have hlength' := hlog.revision q hq
    omega

theorem Informed.mono {d : Digests δ κ} {submission : Submission} {log log' : List Commit}
    {phase : Phase δ κ} (h : Informed d submission log phase) (hsuffix : log <:+ log') :
    Informed d submission log' phase := by
  cases phase with
  | prepared arguments identity head checked =>
    obtain ⟨hidentity, hvalid, hlog, harguments, hhead, hearly⟩ := h
    exact ⟨hidentity, hvalid, hlog, harguments, hhead.trans hsuffix, hearly⟩
  | _ => exact h

private theorem informed_late {d : Digests δ κ} {submission : Submission} {log : List Commit}
    {views : Views} {now : Nat} (hmem : now ∈ views.checks) (hpast : submission.past now = true) :
    Informed d submission log (.done (.error .deadline) views : Phase δ κ) := by
  intro _
  refine iff_of_false ?_ fun h => h.2 ⟨now, hmem, hpast⟩
  intro hok
  cases hok

namespace Race

private theorem consistent_advance {d : Digests δ κ} {submissions : Nat → Submission} {s : Race δ κ}
    (h : Consistent d submissions s) {client : Nat} {phase : Phase δ κ}
    (hphase : Informed d (submissions client) (s.accepted (submissions client).runId) phase) :
    Consistent d submissions { s with clients := Function.update s.clients client phase } := by
  refine ⟨h.stands, ?_⟩
  intro other
  by_cases hother : other = client
  · subst hother
    simpa using hphase
  · simpa [hother] using h.clients other

variable [DecidableEq κ]

/-- The script of a client that checked its commit over a part of the log: it writes the
next commit of the log or nothing, and never refuses a known commit. -/
private theorem script_informed {d : Digests δ κ} {c : Commit} {run : RedisRun δ κ}
    {head log : List Commit} (hholds : Redis.Holds d run log)
    (hlog : Log c.checkpoint.context.runId log) (hhead : Log c.checkpoint.context.runId head)
    (hsuffix : head <:+ log) (hvalid : c.validateAgainst (headOf head) = .ok ()) :
    let arguments := Redis.argumentsOver d c head
    Log c.checkpoint.context.runId (logAfter c arguments run log) ∧
      Redis.Holds d (Redis.script arguments run).2 (logAfter c arguments run log) ∧
      log <:+ logAfter c arguments run log ∧
      (Known d c (logAfter c arguments run log) →
        Redis.settled c (Redis.script arguments run).1 = .ok ()) := by
  intro arguments
  have hlookup : run.commits.lookup arguments.id =
      (withId c.checkpoint.id log).map d.digest := hholds.commits c.checkpoint.id
  cases hid : withId c.checkpoint.id log with
  | some old =>
    have hscript := Redis.script_known hholds hid head
    have hkept : logAfter c arguments run log = log := by
      rw [logAfter, hlookup, hid]
      exact if_neg fun h => by cases h.2
    rw [hkept, hscript]
    refine ⟨hlog, hholds, List.suffix_refl log, ?_⟩
    intro hknown
    obtain ⟨a, ha, hdigest⟩ := (known_iff hlog).mp hknown
    rw [hid] at ha
    cases ha
    rw [if_pos hdigest]
    rfl
  | none =>
    by_cases hrevision : (headOf log).map Checkpoint.revision = c.expectedRevision
    · -- nothing was written since the head was read
      have hall : head = log := by
        refine eq_of_suffix hhead hlog hsuffix ?_
        rw [hrevision, (Commit.checked_of_ok hvalid).revision]
      subst hall
      have hnext : Log c.checkpoint.context.runId (c :: head) := .cons c head hlog rfl hid hvalid
      obtain ⟨run', hscript, hwritten⟩ := Redis.script_appended hholds hnext
      have hafter : logAfter c arguments run head = c :: head := by
        rw [logAfter, hlookup, hid, hscript]
        exact if_pos ⟨rfl, rfl⟩
      rw [hafter, hscript]
      exact ⟨hnext, hwritten, List.suffix_cons c head, fun _ => rfl⟩
    · have hscript := Redis.script_conflict hholds hid hrevision head
      have hkept : logAfter c arguments run log = log := by
        rw [logAfter, hscript]
        exact if_neg fun h => by cases h.1
      rw [hkept, hscript]
      refine ⟨hlog, hholds, List.suffix_refl log, ?_⟩
      intro hknown
      obtain ⟨a, ha, -⟩ := (known_iff hlog).mp hknown
      rw [hid] at ha
      cases ha

private theorem consistent_settle {d : Digests δ κ} (hidentity : Function.Injective d.identity)
    {submissions : Nat → Submission} {s : Race δ κ} (h : Consistent d submissions s)
    {client now checked : Nat} {arguments : Redis.Arguments δ κ} {identity head : List Commit}
    (hphase : s.clients client = .prepared arguments identity head checked)
    (hnow : (submissions client).past now = false) :
    Consistent d submissions (settle (submissions client).commit client arguments identity head
      [checked, now] s) := by
  have hinformed := h.clients client
  rw [hphase] at hinformed
  obtain ⟨hunknown, hvalid, hhead, rfl, hsuffix, hchecked⟩ := hinformed
  obtain ⟨hlog, hholds, hgrows, hsettled⟩ := script_informed (h.stands.runs _) (h.stands.logs _)
    hhead hsuffix hvalid
  generalize hafter : logAfter (submissions client).commit
    (Redis.argumentsOver d (submissions client).commit head)
    (s.store (submissions client).commit.checkpoint.context.runId)
    (s.accepted (submissions client).commit.checkpoint.context.runId) = log at *
  have hlogs : Logs (Function.update s.accepted
      (submissions client).commit.checkpoint.context.runId log) := by
    intro other
    by_cases hother : other = (submissions client).commit.checkpoint.context.runId
    · subst hother
      rwa [Function.update_self]
    · rw [Function.update_of_ne hother]
      exact h.stands.logs other
  unfold settle
  dsimp only
  rw [hafter]
  refine ⟨h.stands.update hlogs hholds, ?_⟩
  intro other
  by_cases hother : other = client
  · subst hother
    simp only [Function.update_self]
    intro hknown
    have hnot : ¬ Overtaken d (submissions other).commit ⟨identity, head, log, [checked, now]⟩ :=
      fun h => not_known_of_next hidentity hhead hvalid h.2
    have hearly : ¬ Late (submissions other) ⟨identity, head, log, [checked, now]⟩ := by
      simp [Late, hchecked, hnow]
    exact iff_of_true (hsettled hknown) ⟨hnot, hearly⟩
  · simp only [Function.update_of_ne hother]
    by_cases hrun : (submissions other).runId =
        (submissions client).commit.checkpoint.context.runId
    · rw [hrun, Function.update_self]
      exact (hrun ▸ h.clients other).mono hgrows
    · rw [Function.update_of_ne hrun]
      exact h.clients other

private theorem consistent_step [DecidableEq δ] {d : Digests δ κ} (hfree : d.entries.CollisionFree)
    (hidentity : Function.Injective d.identity) {submissions : Nat → Submission} {s : Race δ κ}
    (h : Consistent d submissions s) (turn : Nat × Nat) :
    Consistent d submissions (step d submissions s turn) := by
  obtain ⟨client, now⟩ := turn
  have hrun := h.stands.runs (submissions client).commit.checkpoint.context.runId
  have hlog := h.stands.logs (submissions client).commit.checkpoint.context.runId
  have hinformed := h.clients client
  unfold step
  dsimp only
  cases hphase : s.clients client with
  | submitted =>
    simp only [Redis.identified_eq hrun]
    cases hid : withId (submissions client).commit.checkpoint.id
        (s.accepted (submissions client).commit.checkpoint.context.runId) with
    | none =>
      refine consistent_advance h ?_
      intro hknown
      obtain ⟨a, ha, -⟩ := (known_iff hlog).mp hknown
      rw [hid] at ha
      cases ha
    | some old =>
      refine consistent_advance h ?_
      intro hknown
      obtain ⟨a, ha, hdigest⟩ := (known_iff hlog).mp hknown
      rw [hid] at ha
      cases ha
      simp only [hdigest, if_true]
      exact iff_of_true trivial ⟨fun h => h.1 hknown, by simp [Late]⟩
  | identified identity =>
    rw [hphase] at hinformed
    dsimp only
    cases hpast : (submissions client).past now with
    | true =>
      rw [if_pos rfl]
      exact consistent_advance h (informed_late (List.mem_singleton_self now) hpast)
    | false =>
      rw [if_neg Bool.false_ne_true]
      rcases hvalid : (submissions client).commit.validateAgainst
        (headOf (s.accepted (submissions client).commit.checkpoint.context.runId)) with e | u
      · simp only [Redis.prepare_error hfree hrun hvalid]
        refine consistent_advance h ?_
        intro hknown
        refine iff_of_false ?_ fun h => h.1 ⟨hinformed, hknown⟩
        intro hok
        cases hok
      · simp only [Redis.prepare_ok hfree hrun hvalid]
        exact consistent_advance h
          ⟨hinformed, hvalid, hlog, rfl, List.suffix_refl _, hpast⟩
  | prepared arguments identity head checked =>
    dsimp only
    cases hpast : (submissions client).past now with
    | true =>
      rw [if_pos rfl]
      exact consistent_advance h (informed_late (by simp) hpast)
    | false =>
      rw [if_neg Bool.false_ne_true]
      exact consistent_settle hidentity h hphase hpast
  | done result views => exact h

private theorem consistent_after [DecidableEq δ] {d : Digests δ κ} (hfree : d.entries.CollisionFree)
    (hidentity : Function.Injective d.identity) (submissions : Nat → Submission)
    (schedule : List (Nat × Nat)) :
    Consistent d submissions (after d submissions schedule) := by
  refine Library.Machine.after_induction (m := machine d submissions) ?_ ?_ schedule
  · exact fun s turn h => consistent_step hfree hidentity h turn
  · exact ⟨Redis.stands_empty d, fun _ => trivial⟩

end Race

theorem Log.chained [DecidableEq δ] {s : DigestScheme δ} (hfree : s.CollisionFree)
    {runId : String} {log : List Commit} (h : Log runId log) : Chained s log.reverse := by
  induction h with
  | nil => exact ⟨by simp, .nil⟩
  | cons c log _ _ _ haccepted ih =>
    rw [← Commit.validateCore_eq hfree] at haccepted
    rw [List.reverse_cons]
    refine ⟨?_, List.isChain_append.mpr ⟨ih.next, .singleton c, ?_⟩⟩
    · cases log with
      | nil =>
        rintro commit ⟨⟩
        exact haccepted
      | cons a rest =>
        intro commit hcommit
        refine ih.first commit ?_
        rwa [List.head?_append_of_ne_nil _ (by simp)] at hcommit
    · intro a ha b hb
      obtain rfl : c = b := by simpa using hb
      have hhead : headOf log = some a.checkpoint := by
        rw [List.getLast?_reverse] at ha
        exact congrArg (Option.map Commit.checkpoint) ha
      rw [hhead] at haccepted
      exact haccepted

/-- However the steps of the clients fall: the accepted commits of each run form one chain,
each validated against the head it replaced; every load gives that head; and a client whose
commit has been accepted by the time it is done gets `Ok`, except when the commit was
accepted from another client between its own two reads, or its deadline was past at a check. -/
theorem race_chain [DecidableEq δ] [DecidableEq κ] {d : Digests δ κ}
    (hfree : d.entries.CollisionFree) (hidentity : Function.Injective d.identity)
    (submissions : Nat → Submission) (schedule : List (Nat × Nat)) :
    (∀ runId, Chained d.entries ((Race.after d submissions schedule).accepted runId).reverse) ∧
    (∀ (listing : Listing) (runId : String),
      Redis.loadHead d listing runId (Race.after d submissions schedule).store =
        .ok (headOf ((Race.after d submissions schedule).accepted runId))) ∧
    ∀ (client : Nat) (result : Result Unit) (views : Views),
      (Race.after d submissions schedule).clients client = .done result views →
      Known d (submissions client).commit views.last →
      (result = .ok () ↔ ¬ Overtaken d (submissions client).commit views ∧
        ¬ Late (submissions client) views) := by
  have hconsistent := Race.consistent_after hfree hidentity submissions schedule
  refine ⟨?_, ?_, ?_⟩
  · exact fun runId => (hconsistent.stands.logs runId).chained hfree
  · exact fun listing runId =>
      Redis.loadHead_eq (hconsistent.stands.runs runId) (hconsistent.stands.logs runId)
  · intro client result views hdone
    have hinformed := hconsistent.clients client
    rw [hdone] at hinformed
    exact hinformed

/-- Clients that submit one commit, the last of them too late. -/
def sampleSubmissions (client : Nat) : Submission :=
  ⟨sampleFirst, if client = 2 then some 3 else none⟩

/-- A client that submits an accepted commit again gets `Ok`; one that is late does not, though its
commit was accepted from the first client by then. -/
theorem race_chain_repeated :
    ¬ Overtaken plainDigests sampleFirst ⟨[sampleFirst], [sampleFirst], [sampleFirst], []⟩ ∧
      Late (sampleSubmissions 2) ⟨[], [], [sampleFirst], [2, 6]⟩ := by
  have hdone : (Race.after plainDigests sampleSubmissions
      [(0, 0), (2, 1), (2, 2), (0, 3), (0, 4), (1, 5), (2, 6)]).clients 1 =
      .done (.ok ()) ⟨[sampleFirst], [sampleFirst], [sampleFirst], []⟩ := by decide +kernel
  have hlate : (Race.after plainDigests sampleSubmissions
      [(0, 0), (2, 1), (2, 2), (0, 3), (0, 4), (1, 5), (2, 6)]).clients 2 =
      .done (.error .deadline) ⟨[], [], [sampleFirst], [2, 6]⟩ := by decide +kernel
  have hknown : Known plainDigests sampleFirst [sampleFirst] :=
    ⟨sampleFirst, List.mem_singleton_self _, rfl, rfl⟩
  have hresults := (race_chain (d := plainDigests) plainDigest_collisionFree
    Function.injective_id sampleSubmissions
    [(0, 0), (2, 1), (2, 2), (0, 3), (0, 4), (1, 5), (2, 6)]).2.2
  refine ⟨((hresults 1 (.ok ()) _ hdone hknown).mp rfl).1, ?_⟩
  by_contra hearly
  have hunknown : ¬ Overtaken plainDigests sampleFirst ⟨[], [], [sampleFirst], [2, 6]⟩ := by
    rintro ⟨-, a, ha, -⟩
    cases ha
  have hok := (hresults 2 _ _ hlate hknown).mpr ⟨hunknown, hearly⟩
  cases hok

/-- Two clients submit one commit; all three steps of client 0 fall between the two reads of
client 1, which is told of a conflict over its own accepted commit. -/
theorem race_conflict : ¬ ∀ (submissions : Nat → Submission) (schedule : List (Nat × Nat))
    (client : Nat) (result : Result Unit) (views : Views),
    (Race.after plainDigests submissions schedule).clients client = .done result views →
    Known plainDigests (submissions client).commit views.last →
    (submissions client).deadline = none → result = .ok () := by
  intro hclaim
  have hdone : (Race.after plainDigests sampleSubmissions
      [(1, 0), (0, 1), (0, 2), (0, 3), (1, 4)]).clients 1 =
      .done (.error (.conflict none (some 0))) ⟨[], [sampleFirst], [sampleFirst], [4]⟩ := by
    decide +kernel
  have hknown : Known plainDigests sampleFirst [sampleFirst] :=
    ⟨sampleFirst, List.mem_singleton_self _, rfl, rfl⟩
  cases hclaim sampleSubmissions [(1, 0), (0, 1), (0, 2), (0, 3), (1, 4)] 1 _ _ hdone hknown rfl

end Zhir.Storage
