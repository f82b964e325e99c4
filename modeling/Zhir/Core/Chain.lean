import Zhir.Core.Wire
import Mathlib.Data.List.Chain

/-!
What a whole chain of accepted commits keeps.
-/

set_option autoImplicit false
set_option relaxedAutoImplicit false

namespace Zhir.Core

variable {δ : Type} [DecidableEq δ]

/-- Commits in order, the first over nothing and each other one over the core of the one
before it. -/
structure Chained (s : DigestScheme δ) (commits : List Commit) : Prop where
  first : ∀ commit ∈ commits.head?, commit.validateCore s none = .ok ()
  next : commits.IsChain fun a b => b.validateCore s (some (a.checkpoint.core s)) = .ok ()

private theorem isChain_between {α : Type} {R : α → α → Prop} {l : List α} (h : l.IsChain R)
    (P : α → α → Prop) (hrefl : ∀ a, P a a) (hstep : ∀ a b c, P a b → R b c → P a c) :
    ∀ (i d : Nat) (a b : α), l[i]? = some a → l[i + d]? = some b → P a b := by
  intro i d
  induction d with
  | zero =>
    intro a b ha hb
    rw [Nat.add_zero, ha] at hb
    cases hb
    exact hrefl a
  | succ d ih =>
    intro a c ha hc
    obtain ⟨hlt, rfl⟩ := List.getElem?_eq_some_iff.mp hc
    have hb : l[i + d]? = some l[i + d] := List.getElem?_eq_getElem (by omega)
    exact hstep a _ _ (ih a _ ha hb) (List.isChain_iff_getElem.mp h (i + d) (by omega))

structure SameRun (a b : Checkpoint) : Prop where
  options : b.options = a.options
  runId : b.context.runId = a.context.runId
  startedAt : b.context.startedAtMs = a.context.startedAtMs
  deadline : b.context.deadlineAtMs = a.context.deadlineAtMs
  parentRun : b.context.parentRunId = a.context.parentRunId
  parentCall : b.context.parentRuntimeToolCallId = a.context.parentRuntimeToolCallId
  session : b.active.session.id = a.active.session.id

structure CountersGrow (a b : Checkpoint) : Prop where
  outputEpoch : a.active.session.outputEpoch ≤ b.active.session.outputEpoch
  profile : a.active.session.profileRevision ≤ b.active.session.profileRevision
  context : a.active.session.contextRevision ≤ b.active.session.contextRevision
  acknowledged : a.active.session.acknowledgedContextRevision ≤
    b.active.session.acknowledgedContextRevision
  input : a.active.session.inputPosition ≤ b.active.session.inputPosition
  generated : a.active.session.generatedInputPosition ≤ b.active.session.generatedInputPosition
  requests : a.metrics.generationRequests ≤ b.metrics.generationRequests
  calls : a.metrics.runtimeToolCalls ≤ b.metrics.runtimeToolCalls

structure SameOperation (a b : OperationRecord) : Prop where
  origin : b.origin = a.origin
  owner : b.owner = a.owner
  callEntry : b.callEntry = a.callEntry
  terminal : a.state.terminal = true → b = a

def HistoryDelta.apply (entries : List HistoryEntry) : HistoryDelta → List HistoryEntry
  | .initial m => m
  | .append m => entries ++ m
  | .replace m => m
  | .unchanged => entries

structure ChainLaw (commits : List Commit) : Prop where
  revision : ∀ (i : Nat) (a : Commit), commits[i]? = some a → a.checkpoint.revision = i
  root : ∀ a : Commit, commits[0]? = some a → a.checkpoint.parentId = none
  parent : ∀ (i : Nat) (a b : Commit), commits[i]? = some a → commits[i + 1]? = some b →
    b.checkpoint.parentId = some a.checkpoint.id
  sameRun : ∀ (i : Nat) (a b : Commit), commits[0]? = some a → commits[i]? = some b →
    SameRun a.checkpoint b.checkpoint
  counters : ∀ (i d : Nat) (a b : Commit), commits[i]? = some a → commits[i + d]? = some b →
    CountersGrow a.checkpoint b.checkpoint
  /-- As long as an operation stays recorded it is the same one, and once terminal it does
  not change. -/
  operations : ∀ (i d : Nat) (a b : Commit) (id : OperationId) (old new : OperationRecord),
    commits[i]? = some a → commits[i + d]? = some b →
    (∀ (k : Nat) (c : Commit), k ≤ d → commits[i + k]? = some c →
      id ∈ c.checkpoint.active.operations) →
    a.checkpoint.active.operations[id]? = some old →
    b.checkpoint.active.operations[id]? = some new → SameOperation old new
  removed : ∀ (i : Nat) (a b : Commit) (id : OperationId) (old : OperationRecord),
    commits[i]? = some a → commits[i + 1]? = some b →
    a.checkpoint.active.operations[id]? = some old →
    b.checkpoint.active.operations[id]? = none → old.state.terminal = true
  phase : ∀ (i : Nat) (a b : Commit), commits[i]? = some a → commits[i + 1]? = some b →
    a.checkpoint.state.terminal = false ∧
      (a.checkpoint.state.isSuspended = true → b.checkpoint.fact = .attached)
  history : ∀ (i : Nat) (a : Commit), commits[i]? = some a →
    a.checkpoint.history.entries =
      ((commits.take (i + 1)).map Commit.history).foldl HistoryDelta.apply []

theorem monotone_iff {p n : Checkpoint} :
    Commit.monotone p n = true ↔ n.active.session.id = p.active.session.id ∧ CountersGrow p n := by
  simp only [Commit.monotone, Bool.and_eq_true, decide_eq_true_eq, and_assoc]
  constructor
  · rintro ⟨hid, h₁, h₂, h₃, h₄, h₅, h₆, h₇, h₈⟩
    exact ⟨hid, h₁, h₂, h₃, h₄, h₅, h₆, h₇, h₈⟩
  · rintro ⟨hid, h⟩
    exact ⟨hid, h.outputEpoch, h.profile, h.context, h.acknowledged, h.input, h.generated,
      h.requests, h.calls⟩

private theorem follows_context {c : Commit} {previous : Checkpoint}
    (h : c.follows previous = .ok ()) :
    Commit.contextChanged previous.context c.checkpoint.context = false := by
  unfold Commit.follows at h
  obtain ⟨_, hstate, -⟩ := Result.bind_ok h
  exact firstError_ok hstate _ List.mem_cons_self

private theorem sameRun_of_accepted {c : Commit} {previous : Checkpoint}
    (h : c.validateAgainst (some previous) = .ok ()) : SameRun previous c.checkpoint := by
  have haccepted := Commit.accepted_of_ok h
  have hcontext := follows_context ((Commit.checked_of_ok h).follows previous rfl)
  simp only [Commit.contextChanged, Bool.or_eq_false_iff, decide_eq_false_iff_not, not_not]
    at hcontext
  obtain ⟨⟨⟨hstarted, hdeadline⟩, hrun⟩, hcall⟩ := hcontext
  exact ⟨haccepted.options.symm, haccepted.runId.symm, hstarted.symm, hdeadline.symm, hrun.symm,
    hcall.symm, (monotone_iff.mp haccepted.follows.monotone).1⟩

theorem operationFollows_some {next : Operations} {id : OperationId} {old new : OperationRecord}
    (h : Commit.operationFollows next id old = .ok ()) (hnew : next[id]? = some new) :
    SameOperation old new := by
  unfold Commit.operationFollows at h
  rw [hnew] at h
  have hchecks := firstError_ok h
  simp only [List.forall_mem_cons, Bool.or_eq_false_iff, decide_eq_false_iff_not, not_not,
    Bool.and_eq_false_iff] at hchecks
  obtain ⟨⟨⟨horigin, howner⟩, hcall⟩, hterminal, -⟩ := hchecks
  refine ⟨horigin.symm, howner.symm, hcall.symm, ?_⟩
  intro hstate
  rcases hterminal with hterminal | hterminal
  · rw [hstate] at hterminal
    cases hterminal
  · exact hterminal.symm

theorem operationFollows_none {next : Operations} {id : OperationId} {old : OperationRecord}
    (h : Commit.operationFollows next id old = .ok ()) (hnone : next[id]? = none) :
    old.state.terminal = true := by
  unfold Commit.operationFollows at h
  rw [hnone] at h
  simpa using firstError_ok h _ (List.mem_singleton_self _)

theorem SameOperation.refl (a : OperationRecord) : SameOperation a a :=
  ⟨rfl, rfl, rfl, fun _ => rfl⟩

theorem SameOperation.trans {a b c : OperationRecord} (h : SameOperation a b)
    (h' : SameOperation b c) : SameOperation a c := by
  refine ⟨h'.origin.trans h.origin, h'.owner.trans h.owner, h'.callEntry.trans h.callEntry, ?_⟩
  intro hterminal
  have hab : b = a := h.terminal hterminal
  subst hab
  exact h'.terminal hterminal

theorem operationFollows_trans {middle next : Operations} {id : OperationId}
    {old mid new : OperationRecord} (h : Commit.operationFollows middle id old = .ok ())
    (hmid : middle[id]? = some mid) (h' : Commit.operationFollows next id mid = .ok ())
    (hnew : next[id]? = some new) : Commit.operationFollows next id old = .ok () := by
  have hsame := (operationFollows_some h hmid).trans (operationFollows_some h' hnew)
  unfold Commit.operationFollows at h h' ⊢
  rw [hmid] at h
  rw [hnew] at h' ⊢
  have hchecks := firstError_ok h
  have hchecks' := firstError_ok h'
  simp only [List.forall_mem_cons] at hchecks hchecks'
  obtain ⟨-, -, hcursor, -⟩ := hchecks
  obtain ⟨-, -, hcursor', -⟩ := hchecks'
  refine firstError_of ?_
  simp only [List.forall_mem_cons]
  refine ⟨by simp [hsame.origin, hsame.owner, hsame.callEntry], ?_, ?_, by simp⟩
  · cases hterminal : old.state.terminal with
    | false => rfl
    | true => simp [hsame.terminal hterminal]
  · -- a cursor that is there stays, and does not move backwards
    cases hold : old.lastSequence with
    | none => rfl
    | some first =>
      cases hmiddle : mid.lastSequence with
      | none => simp [hold, hmiddle] at hcursor
      | some second =>
        cases hlast : new.lastSequence with
        | none => simp [hmiddle, hlast] at hcursor'
        | some third =>
          simp only [hold, hmiddle, hlast, Option.any_some, Option.all_some,
            decide_eq_false_iff_not, Nat.not_lt] at hcursor hcursor' ⊢
          exact hcursor.trans hcursor'

theorem CountersGrow.refl (a : Checkpoint) : CountersGrow a a :=
  ⟨le_rfl, le_rfl, le_rfl, le_rfl, le_rfl, le_rfl, le_rfl, le_rfl⟩

theorem CountersGrow.trans {a b c : Checkpoint} (h : CountersGrow a b) (h' : CountersGrow b c) :
    CountersGrow a c where
  outputEpoch := h.outputEpoch.trans h'.outputEpoch
  profile := h.profile.trans h'.profile
  context := h.context.trans h'.context
  acknowledged := h.acknowledged.trans h'.acknowledged
  input := h.input.trans h'.input
  generated := h.generated.trans h'.generated
  requests := h.requests.trans h'.requests
  calls := h.calls.trans h'.calls

theorem SameRun.refl (a : Checkpoint) : SameRun a a := ⟨rfl, rfl, rfl, rfl, rfl, rfl, rfl⟩

theorem SameRun.trans {a b c : Checkpoint} (h : SameRun a b) (h' : SameRun b c) :
    SameRun a c where
  options := h'.options.trans h.options
  runId := h'.runId.trans h.runId
  startedAt := h'.startedAt.trans h.startedAt
  deadline := h'.deadline.trans h.deadline
  parentRun := h'.parentRun.trans h.parentRun
  parentCall := h'.parentCall.trans h.parentCall
  session := h'.session.trans h.session

private theorem apply_target {c : Commit} {previous : Option Checkpoint}
    {kept added : List HistoryEntry} (h : c.target previous = .ok (kept, added)) :
    kept ++ added = c.history.apply ((previous.map fun p => p.history.entries).getD []) := by
  unfold Commit.target at h
  cases hdelta : c.history with
  | append m =>
    cases previous with
    | none => simp [hdelta] at h
    | some p =>
      simp only [hdelta] at h
      split at h
      · cases h
      · cases h
        rfl
  | initial m => cases previous <;> simp_all [HistoryDelta.apply]
  | replace m => cases previous <;> simp_all [HistoryDelta.apply]
  | unchanged => cases previous <;> simp_all [HistoryDelta.apply]

theorem entries_of_accepted {c : Commit} {previous : Option Checkpoint}
    (h : c.validateAgainst previous = .ok ()) : c.checkpoint.history.entries =
      c.history.apply ((previous.map fun p => p.history.entries).getD []) := by
  obtain ⟨kept, added, htarget, hsame, -⟩ := (Commit.checked_of_ok h).target
  rw [← hsame, apply_target htarget]

theorem root_of_accepted {c : Commit} (h : c.validateAgainst none = .ok ()) :
    c.checkpoint.revision = 0 ∧ c.checkpoint.parentId = none := by
  have hchecked := Commit.checked_of_ok h
  have hrevision := hchecked.revision
  constructor
  · by_contra hne
    simp [Commit.expectedRevision, hne] at hrevision
  · exact hchecked.parent.symm

/-- Every law that one accepted commit keeps, every chain of them keeps. -/
theorem chain_law {s : DigestScheme δ} (hfree : s.CollisionFree) {commits : List Commit}
    (h : Chained s commits) : ChainLaw commits := by
  have hfirst : ∀ a, commits[0]? = some a → a.validateAgainst none = .ok () := by
    intro a ha
    rw [← Commit.validateCore_eq hfree]
    exact h.first a (by rw [List.head?_eq_getElem?, ha]; rfl)
  have hchain : commits.IsChain fun a b => b.validateAgainst (some a.checkpoint) = .ok () := by
    refine h.next.imp ?_
    intro a b hab
    rw [← Commit.validateCore_eq hfree]
    exact hab
  have hstep : ∀ (i : Nat) (a b : Commit), commits[i]? = some a → commits[i + 1]? = some b →
      b.validateAgainst (some a.checkpoint) = .ok () := by
    intro i a b ha hb
    obtain ⟨hi, rfl⟩ := List.getElem?_eq_some_iff.mp ha
    obtain ⟨hj, rfl⟩ := List.getElem?_eq_some_iff.mp hb
    exact List.isChain_iff_getElem.mp hchain i hj
  have hrevision : ∀ (i : Nat) (a : Commit), commits[i]? = some a → a.checkpoint.revision = i := by
    intro i
    induction i with
    | zero => exact fun a ha => (root_of_accepted (hfirst a ha)).1
    | succ i ih =>
      intro b hb
      obtain ⟨hi, -⟩ := List.getElem?_eq_some_iff.mp hb
      have ha : commits[i]? = some commits[i] := List.getElem?_eq_getElem (by omega)
      rw [(Commit.accepted_of_ok (hstep i _ b ha hb)).revision, ih _ ha]
  have hhistory : ∀ (i : Nat) (a : Commit), commits[i]? = some a → a.checkpoint.history.entries =
      ((commits.take (i + 1)).map Commit.history).foldl HistoryDelta.apply [] := by
    intro i
    induction i with
    | zero =>
      intro a ha
      have htake : commits.take 1 = [a] := by
        rw [List.take_add_one, ha]
        rfl
      rw [entries_of_accepted (hfirst a ha), htake]
      rfl
    | succ i ih =>
      intro b hb
      obtain ⟨hi, -⟩ := List.getElem?_eq_some_iff.mp hb
      have ha : commits[i]? = some commits[i] := List.getElem?_eq_getElem (by omega)
      have hentries := entries_of_accepted (hstep i _ b ha hb)
      rw [List.take_add_one, hb, List.map_append, List.foldl_append, ← ih _ ha, hentries]
      rfl
  refine
    { revision := hrevision
      root := fun a ha => (root_of_accepted (hfirst a ha)).2
      parent := fun i a b ha hb => (Commit.accepted_of_ok (hstep i a b ha hb)).parent
      sameRun := ?_
      counters := ?_
      operations := ?_
      removed := ?_
      phase := ?_
      history := hhistory }
  · intro i a b ha hb
    have hb : commits[0 + i]? = some b := by rwa [Nat.zero_add]
    exact isChain_between hchain (fun a b => SameRun a.checkpoint b.checkpoint)
      (fun a => SameRun.refl a.checkpoint)
      (fun _ _ _ h hbc => h.trans (sameRun_of_accepted hbc)) 0 i a b ha hb
  · intro i d a b ha hb
    refine isChain_between hchain (fun a b => CountersGrow a.checkpoint b.checkpoint)
      (fun a => CountersGrow.refl a.checkpoint) ?_ i d a b ha hb
    intro a b c h hbc
    exact h.trans (monotone_iff.mp (Commit.accepted_of_ok hbc).follows.monotone).2
  · intro i d
    induction d with
    | zero =>
      intro a b id old new ha hb _ hold hnew
      rw [Nat.add_zero, ha] at hb
      cases hb
      rw [hold] at hnew
      cases hnew
      exact SameOperation.refl old
    | succ d ih =>
      intro a c id old new ha hc hkept hold hnew
      obtain ⟨hlt, -⟩ := List.getElem?_eq_some_iff.mp hc
      have hb : commits[i + d]? = some commits[i + d] := List.getElem?_eq_getElem (by omega)
      have hmem := hkept d _ (Nat.le_succ d) hb
      obtain ⟨mid, hmid⟩ : ∃ mid, commits[i + d].checkpoint.active.operations[id]? = some mid :=
        ⟨_, Std.ExtTreeMap.getElem?_eq_some_getElem hmem⟩
      have hbefore := ih a _ id old mid ha hb
        (fun k e hk he => hkept k e (Nat.le_succ_of_le hk) he) hold hmid
      have haccepted := Commit.accepted_of_ok (hstep (i + d) _ c hb hc)
      exact hbefore.trans (operationFollows_some (haccepted.follows.operations id mid hmid) hnew)
  · intro i a b id old ha hb hold hnone
    have haccepted := Commit.accepted_of_ok (hstep i a b ha hb)
    exact operationFollows_none (haccepted.follows.operations id old hold) hnone
  · intro i a b ha hb
    have haccepted := Commit.accepted_of_ok (hstep i a b ha hb)
    exact ⟨haccepted.follows.terminal, haccepted.follows.suspended⟩

def plainDigest : DigestScheme (List HistoryEntry) where
  zero := []
  step digest entry := digest ++ [entry]

theorem plainDigest_collisionFree : plainDigest.CollisionFree := by
  have hextend : ∀ ys xs : List HistoryEntry, plainDigest.extend xs ys = xs ++ ys := by
    intro ys
    induction ys with
    | nil => exact fun xs => (List.append_nil xs).symm
    | cons y ys ih =>
      intro xs
      change plainDigest.extend (xs ++ [y]) ys = _
      rw [ih, List.append_assoc]
      rfl
  intro xs ys _ hdigest
  have hdigest : plainDigest.extend [] xs = plainDigest.extend [] ys := hdigest
  rwa [hextend, hextend] at hdigest

theorem chain_law_sample : ChainLaw [sampleFirst, sampleSecond] :=
  chain_law plainDigest_collisionFree
    { first := by
        intro commit hcommit
        cases hcommit
        decide +kernel
      next := by
        refine .cons_cons ?_ (.singleton _)
        decide +kernel }

end Zhir.Core
