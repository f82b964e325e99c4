import Zhir.Storage.Stores

/-!
The store of a runtime without one: it keeps one run, from wherever that run had come to.
-/

set_option autoImplicit false
set_option relaxedAutoImplicit false

namespace Zhir.Storage

open Zhir.Core

variable {δ κ : Type} [DecidableEq δ] [DecidableEq κ]

/-- `Ephemeral`: one head, and the digests of the checkpoints it has seen. -/
structure Ephemeral (κ : Type) where
  head : Option Checkpoint
  ids : String → Option κ

namespace Ephemeral

def new (d : Digests δ κ) (head : Option Checkpoint) : Ephemeral κ where
  head
  ids id := (head.filter fun c => c.id = id).map fun c => d.identity (c.core d.entries)

def commit (d : Digests δ κ) (t : Timing) (c : Commit) (state : Ephemeral κ) :
    Result (Ephemeral κ) :=
  match state.ids c.checkpoint.id with
  | some old => if old = d.digest c then .ok state else .error (.storage "checkpoint id reused")
  | none => do
    t.checkDeadline t.checked
    c.validateCore d.entries (state.head.map (Checkpoint.core d.entries))
    return {
      head := some c.checkpoint
      ids := Function.update state.ids c.checkpoint.id (some (d.digest c)) }

def loadHead (runId : String) (state : Ephemeral κ) : Result (Option Checkpoint) :=
  .ok (state.head.filter fun c => c.context.runId = runId)

def delete (runId : String) (state : Ephemeral κ) : Ephemeral κ :=
  if state.head.any fun c => c.context.runId = runId then ⟨none, fun _ => none⟩ else state

def store (d : Digests δ κ) : RunStore (Ephemeral κ) := ⟨commit d, loadHead, delete⟩

/-- A request about this run that names no checkpoint from before its head. -/
def Own (runId : String) (log : List Commit) : Request → Prop
  | .commit _ c => c.checkpoint.context.runId = runId ∧ withId c.checkpoint.id log.tail = none
  | _ => True

/-- The store stands for the accepted commits of its one run; `log` is what it was opened over. -/
structure Holds (d : Digests δ κ) (runId : String) (log : List Commit) (state : Ephemeral κ)
    (acc : Accepted) : Prop where
  others : ∀ run, run ≠ runId → acc run = []
  proper : Log runId (acc runId)
  head : state.head = headOf (acc runId)
  ids : ∀ id, withId id log.tail = none → state.ids id = (withId id (acc runId)).map d.digest

variable {d : Digests δ κ} {runId : String} {log : List Commit}

omit [DecidableEq δ] [DecidableEq κ] in
theorem holds_new (hlog : Log runId log) :
    Holds d runId log (new d (headOf log)) (Function.update noCommits runId log) := by
  refine ⟨fun run hrun => ?_, ?_, ?_, fun id hold => ?_⟩
  · rw [Function.update_of_ne hrun]
    rfl
  · rw [Function.update_self]
    exact hlog
  · rw [Function.update_self]
    rfl
  · rw [Function.update_self]
    cases log with
    | nil => rfl
    | cons c rest =>
      rw [List.tail_cons] at hold
      rw [withId_cons]
      by_cases hid : c.checkpoint.id = id
      · simp [new, headOf, hid, Digests.digest, Digests.core]
      · simp [new, headOf, hid, hold]

omit [DecidableEq δ] [DecidableEq κ] in
private theorem Holds.head_run {state : Ephemeral κ} {acc : Accepted}
    (h : Holds d runId log state acc) :
    ∀ c ∈ state.head, c.context.runId = runId := by
  rw [h.head]
  intro c hc
  unfold headOf at hc
  cases hlast : acc runId with
  | nil =>
    rw [hlast] at hc
    cases hc
  | cons last rest =>
    rw [hlast] at hc
    cases hc
    exact h.proper.runId_mem last (by rw [hlast]; exact List.mem_cons_self)

theorem Holds.commit (hfree : d.entries.CollisionFree) {state : Ephemeral κ} {acc : Accepted}
    (h : Holds d runId log state acc) {t : Timing} {c : Commit}
    (hown : Own runId log (.commit t c)) :
    ((store d).machine.step state (.commit t c)).2 =
        ((reference d).machine.step acc (.commit t c)).2 ∧
      Holds d runId log ((store d).machine.step state (.commit t c)).1
        ((reference d).machine.step acc (.commit t c)).1 := by
  obtain ⟨hrun, hfresh⟩ := hown
  have hids := h.ids c.checkpoint.id hfresh
  simp only [RunStore.machine, store, Ephemeral.commit, reference, hids, hrun]
  cases hold : withId c.checkpoint.id (acc runId) with
  | some old =>
    simp only [Option.map_some]
    by_cases hsame : d.digest old = d.digest c
    · simp only [if_pos hsame]
      exact ⟨trivial, h⟩
    · simp only [if_neg hsame]
      exact ⟨trivial, h⟩
  | none =>
    simp only [Option.map_none, h.head, Commit.validateCore_eq hfree]
    cases htime : t.checkDeadline t.checked with
    | error e => exact ⟨rfl, h⟩
    | ok u =>
    cases hvalid : c.validateAgainst (headOf (acc runId)) with
    | error e => exact ⟨rfl, h⟩
    | ok u =>
      refine ⟨rfl, fun run hother => ?_, ?_, ?_, fun id hid => ?_⟩
      · show Function.update acc runId _ run = []
        rw [Function.update_of_ne hother]
        exact h.others run hother
      · show Log runId (Function.update acc runId _ runId)
        rw [Function.update_self]
        exact .cons c _ h.proper hrun hold hvalid
      · show some c.checkpoint = headOf (Function.update acc runId _ runId)
        rw [Function.update_self]
        rfl
      · show Function.update state.ids c.checkpoint.id _ id =
          (withId id (Function.update acc runId _ runId)).map d.digest
        rw [Function.update_self, withId_cons]
        by_cases hsame : c.checkpoint.id = id
        · subst hsame
          rw [Function.update_self, if_pos rfl]
          rfl
        · rw [Function.update_of_ne (Ne.symm hsame), if_neg hsame]
          exact h.ids id hid

omit [DecidableEq δ] in
theorem Holds.loadHead {state : Ephemeral κ} {acc : Accepted} (h : Holds d runId log state acc)
    (run : String) : Ephemeral.loadHead run state = (reference d).loadHead run acc := by
  show Except.ok (state.head.filter _) = Except.ok (headOf (acc run))
  have hrun := h.head_run
  by_cases hsame : run = runId
  · rw [hsame, ← h.head]
    cases hhead : state.head with
    | none => rfl
    | some c =>
      simp [hrun c hhead]
  · rw [h.others run hsame]
    cases hhead : state.head with
    | none => rfl
    | some c =>
      have hother : c.context.runId ≠ run := fun heq => hsame (heq.symm.trans (hrun c hhead))
      simp [hother, headOf]

omit [DecidableEq δ] in
theorem Holds.delete {state : Ephemeral κ} {acc : Accepted} (h : Holds d runId log state acc)
    (run : String) :
    Holds d runId log (Ephemeral.delete run state) ((reference d).delete run acc) := by
  show Holds d runId log _ (Function.update acc run [])
  have hrun := h.head_run
  by_cases hsame : run = runId
  · subst hsame
    -- Without a head there is nothing to forget.
    have hemptied : (Ephemeral.delete run state).head = none ∧
        ∀ id, withId id log.tail = none → (Ephemeral.delete run state).ids id = none := by
      cases hhead : state.head with
      | some c => simp [Ephemeral.delete, hhead, hrun c hhead]
      | none =>
        have hnil : acc run = [] := by
          have hlast := h.head.symm.trans hhead
          unfold headOf at hlast
          simpa using hlast
        refine ⟨by simp [Ephemeral.delete, hhead], fun id hid => ?_⟩
        simp [Ephemeral.delete, hhead, h.ids id hid, hnil, withId]
    refine ⟨fun other hother => ?_, ?_, ?_, fun id hid => ?_⟩
    · rw [Function.update_of_ne hother]
      exact h.others other hother
    · rw [Function.update_self]
      exact .nil
    · rw [Function.update_self]
      exact hemptied.1
    · rw [Function.update_self]
      exact hemptied.2 id hid
  · have hkept : Ephemeral.delete run state = state := by
      cases hhead : state.head with
      | none => simp [Ephemeral.delete, hhead]
      | some c =>
        have hother : c.context.runId ≠ run := fun heq => hsame (heq.symm.trans (hrun c hhead))
        simp [Ephemeral.delete, hhead, hother]
    have hnothing : Function.update acc run [] = acc := by
      rw [← h.others run hsame, Function.update_eq_self]
    rw [hkept, hnothing]
    exact h

/-- A run that is taken up without a store of its own answers as if every commit of it had been
kept, to all requests of the run but those that repeat a checkpoint from before. -/
theorem ephemeral_agrees (d : Digests δ κ) (hfree : d.entries.CollisionFree) {runId : String}
    {log : List Commit} (hlog : Log runId log) {requests : List Request}
    (hown : ∀ request ∈ requests, Own runId log request) :
    (store d).machine.answers (new d (headOf log)) requests =
      (reference d).machine.answers (Function.update noCommits runId log) requests := by
  have hrefines : (store d).machine.Refines (reference d).machine (fun _ => Own runId log)
      (Holds d runId log) := by
    intro state acc request h hrequest
    cases request with
    | commit t c => exact h.commit hfree hrequest
    | loadHead run => exact ⟨congrArg Answer.head (h.loadHead run), h⟩
    | delete run => exact ⟨rfl, h.delete run⟩
  exact hrefines.answers_eq (holds_new hlog) (Library.Machine.allows_of_mem hown _)

/-- A run of two commits, taken up after the first. -/
theorem ephemeral_agrees_sample :
    (store plainDigests).machine.answers (new plainDigests (headOf [sampleFirst]))
        [.commit {} sampleSecond, .commit {} sampleSecond, .loadHead "run"] =
      (reference plainDigests).machine.answers (Function.update noCommits "run" [sampleFirst])
        [.commit {} sampleSecond, .commit {} sampleSecond, .loadHead "run"] := by
  have hlog : Log "run" [sampleFirst] := .cons _ _ .nil rfl rfl (by decide +kernel)
  refine ephemeral_agrees plainDigests plainDigest_collisionFree hlog fun request hmem => ?_
  simp only [List.mem_cons, List.not_mem_nil, or_false] at hmem
  rcases hmem with rfl | rfl | rfl
  · exact ⟨rfl, rfl⟩
  · exact ⟨rfl, rfl⟩
  · trivial

end Ephemeral

end Zhir.Storage
