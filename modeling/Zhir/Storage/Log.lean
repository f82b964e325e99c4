import Zhir.Core.Chain
import Zhir.Storage.Store

/-!
The accepted commits of one run, and the rows from which a store that keeps only the latest
core rebuilds its head.
-/

set_option autoImplicit false
set_option relaxedAutoImplicit false

namespace Zhir.Storage

open Zhir.Core

/-- A piece of history as stored: its generation, the revision that added it, its entries. -/
structure HistoryRow where
  generation : Nat
  revision : Nat
  payload : List HistoryEntry
  deriving DecidableEq, Repr

/-- Every commit was accepted over the ones before it, under its own id, for one run. -/
inductive Log (runId : String) : List Commit → Prop
  | nil : Log runId []
  | cons (c : Commit) (log : List Commit) : Log runId log → c.checkpoint.context.runId = runId →
      withId c.checkpoint.id log = none → c.validateAgainst (headOf log) = .ok () →
      Log runId (c :: log)

def generationOf : List Commit → Nat
  | [] => 0
  | c :: log => if c.history.rewrites then c.checkpoint.revision else generationOf log

def rowOf (c : Commit) (log : List Commit) : List HistoryRow :=
  c.history.messages.toList.map fun m => ⟨generationOf (c :: log), c.checkpoint.revision, m⟩

def rowsOf : List Commit → List HistoryRow
  | [] => []
  | c :: log => if c.history.rewrites then rowOf c log else rowsOf log ++ rowOf c log

theorem append_ok (h : History) {entries : List HistoryEntry}
    (hvalid : ∀ e ∈ entries, e.validate = .ok ()) :
    ∃ g, h.append entries = .ok g ∧ g.entries = h.entries ++ entries := by
  induction entries generalizing h with
  | nil => exact ⟨h, rfl, (List.append_nil _).symm⟩
  | cons e rest ih =>
    obtain ⟨g, hg, hentries⟩ := ih (h.push e) fun x hx => hvalid x (List.mem_cons_of_mem e hx)
    refine ⟨g, ?_, ?_⟩
    · simp only [History.append, hvalid e List.mem_cons_self, hg]
      rfl
    · rw [hentries]
      exact List.append_assoc h.entries [e] rest

def appendRows (h : History) (payloads : List (List HistoryEntry)) : Result History :=
  payloads.foldlM History.append h

private theorem appendRows_ok (h : History) {payloads : List (List HistoryEntry)}
    (hvalid : ∀ m ∈ payloads, ∀ e ∈ m, e.validate = .ok ()) :
    ∃ g, appendRows h payloads = .ok g ∧ g.entries = h.entries ++ payloads.flatten := by
  induction payloads generalizing h with
  | nil => exact ⟨h, rfl, (List.append_nil _).symm⟩
  | cons m rest ih =>
    obtain ⟨g, hg, hentries⟩ := append_ok h (hvalid m List.mem_cons_self)
    obtain ⟨g', hg', hentries'⟩ := ih g fun x hx => hvalid x (List.mem_cons_of_mem m hx)
    refine ⟨g', ?_, ?_⟩
    · simp only [appendRows, List.foldlM_cons, hg]
      exact hg'
    · rw [hentries', hentries, List.flatten_cons, List.append_assoc]

/-- The checkpoint a core and the payloads of its history stand for. -/
def rebuild {δ : Type} [DecidableEq δ] (s : DigestScheme δ) (core : CheckpointCore δ)
    (rows : List HistoryRow) : Result Checkpoint := do
  let history ← appendRows .empty (rows.map HistoryRow.payload)
  core.withHistory s history

def byRevision (rows : List HistoryRow) : List HistoryRow :=
  rows.mergeSort fun a b => a.revision ≤ b.revision

private theorem byRevision_perm {rows stored : List HistoryRow} (hperm : rows.Perm stored)
    (hsorted : stored.Pairwise fun a b => a.revision < b.revision) : byRevision rows = stored := by
  have hread : (byRevision rows).Pairwise fun a b => a.revision ≤ b.revision := by
    have h : (byRevision rows).Pairwise fun a b => decide (a.revision ≤ b.revision) = true :=
      List.pairwise_mergeSort (fun a b c hab hbc => by simp only [decide_eq_true_eq] at *; omega)
      (fun a b => by simp only [Bool.or_eq_true, decide_eq_true_eq]; omega) rows
    exact h.imp fun hab => of_decide_eq_true hab
  have hsame : (byRevision rows).Perm stored := (List.mergeSort_perm rows _).trans hperm
  refine hsame.eq_of_pairwise ?_ hread (hsorted.imp Nat.le_of_lt)
  intro a b ha hb hab hba
  have hdiffer : stored.Pairwise fun a b => a.revision ≠ b.revision := hsorted.imp Nat.ne_of_lt
  have hsymm : Std.Symm fun a b : HistoryRow => a.revision ≠ b.revision := ⟨fun _ _ => Ne.symm⟩
  by_contra hne
  exact hdiffer.forall (hsame.mem_iff.mp ha) hb hne (Nat.le_antisymm hab hba)

private theorem target_messages {c : Commit} {previous : Option Checkpoint}
    {kept added : List HistoryEntry} (h : c.target previous = .ok (kept, added)) :
    c.history.messages.getD [] = added := by
  unfold Commit.target at h
  cases hdelta : c.history with
  | append m =>
    cases previous with
    | none => simp [hdelta] at h
    | some p =>
      simp only [hdelta] at h
      split at h
      · cases h
      · cases h
        rfl
  | _ => cases previous <;> simp_all [HistoryDelta.messages]

private theorem added_valid {c : Commit} {previous : Option Checkpoint}
    (h : c.validateAgainst previous = .ok ()) :
    ∀ m ∈ c.history.messages, ∀ e ∈ m, e.validate = .ok () := by
  obtain ⟨kept, added, htarget, -, hadded⟩ := (Commit.checked_of_ok h).target
  intro m hm e he
  have hmessages := target_messages htarget
  rw [Option.mem_def.mp hm] at hmessages
  subst hmessages
  exact hadded e he

theorem delta_of_accepted {c : Commit} {previous : Option Checkpoint}
    (h : c.validateAgainst previous = .ok ()) :
    (∃ m, c.history = .initial m) ↔ previous = none := by
  obtain ⟨kept, added, htarget, -⟩ := (Commit.checked_of_ok h).target
  unfold Commit.target at htarget
  cases hdelta : c.history <;> cases previous <;> simp_all

namespace Log

variable {runId : String} {c : Commit} {log : List Commit}

theorem revision (h : Log runId log) : ∀ p ∈ headOf log, p.revision + 1 = log.length := by
  induction h with
  | nil => simp [headOf]
  | cons c log hlog _ _ haccepted ih =>
    intro p hp
    obtain rfl : c.checkpoint = p := by simpa [headOf] using hp
    cases hhead : headOf log with
    | none =>
      rw [hhead] at haccepted
      have hempty : log = [] := by simpa [headOf] using hhead
      rw [(root_of_accepted haccepted).1, hempty]
      rfl
    | some q =>
      rw [hhead] at haccepted
      rw [(Commit.accepted_of_ok haccepted).revision, ih q hhead]
      rfl

theorem revision_cons (h : Log runId (c :: log)) : c.checkpoint.revision = log.length := by
  have hrevision := h.revision c.checkpoint rfl
  simpa using hrevision

theorem revision_lt (h : Log runId log) : ∀ a ∈ log, a.checkpoint.revision < log.length := by
  induction h with
  | nil => simp
  | cons c log hlog hrun hid haccepted ih =>
    have hlength := revision_cons (.cons c log hlog hrun hid haccepted)
    intro a ha
    rcases List.mem_cons.mp ha with rfl | ha
    · rw [hlength]
      exact Nat.lt_succ_self _
    · exact Nat.lt_succ_of_lt (ih a ha)

theorem runId_mem (h : Log runId log) : ∀ c ∈ log, c.checkpoint.context.runId = runId := by
  induction h with
  | nil => simp
  | cons c log _ hrun _ _ ih =>
    intro a ha
    rcases List.mem_cons.mp ha with rfl | ha
    · exact hrun
    · exact ih a ha

theorem generation_le (h : Log runId log) : generationOf log ≤ log.length - 1 := by
  induction h with
  | nil => exact Nat.le_refl 0
  | cons c log hlog hrun hid haccepted ih =>
    have hrevision := revision_cons (.cons c log hlog hrun hid haccepted)
    simp only [generationOf, List.length_cons]
    split <;> omega

theorem row_bounds (h : Log runId log) :
    ∀ r ∈ rowsOf log, r.generation = generationOf log ∧ r.revision < log.length := by
  induction h with
  | nil => simp [rowsOf]
  | cons c log hlog hrun hid haccepted ih =>
    have hrevision := revision_cons (.cons c log hlog hrun hid haccepted)
    have hnew : ∀ r ∈ rowOf c log, r.generation = generationOf (c :: log) ∧
        r.revision < (c :: log).length := by
      intro r hr
      obtain ⟨m, -, rfl⟩ := List.mem_map.mp hr
      refine ⟨rfl, ?_⟩
      change c.checkpoint.revision < log.length + 1
      omega
    intro r hr
    cases hrewrites : c.history.rewrites with
    | true =>
      rw [rowsOf, if_pos hrewrites] at hr
      exact hnew r hr
    | false =>
      rw [rowsOf, if_neg (by simp [hrewrites]), List.mem_append] at hr
      rcases hr with hr | hr
      · obtain ⟨hgeneration, hlt⟩ := ih r hr
        refine ⟨?_, ?_⟩
        · rw [hgeneration, generationOf, hrewrites]
          rfl
        · exact Nat.lt_succ_of_lt hlt
      · exact hnew r hr

private theorem rows_sorted (h : Log runId log) :
    (rowsOf log).Pairwise fun a b => a.revision < b.revision := by
  induction h with
  | nil => exact List.Pairwise.nil
  | cons c log hlog hrun hid haccepted ih =>
    have hrevision := revision_cons (.cons c log hlog hrun hid haccepted)
    have hnew : (rowOf c log).Pairwise fun a b => a.revision < b.revision := by
      unfold rowOf
      cases c.history.messages <;> simp
    rw [rowsOf]
    split
    · exact hnew
    · refine List.pairwise_append.mpr ⟨ih, hnew, ?_⟩
      intro a ha b hb
      obtain ⟨m, -, rfl⟩ := List.mem_map.mp hb
      have hlt := (hlog.row_bounds a ha).2
      change a.revision < c.checkpoint.revision
      omega

private theorem payload_valid (h : Log runId log) :
    ∀ r ∈ rowsOf log, ∀ e ∈ r.payload, e.validate = .ok () := by
  induction h with
  | nil => simp [rowsOf]
  | cons c log hlog _ _ haccepted ih =>
    have hnew : ∀ r ∈ rowOf c log, ∀ e ∈ r.payload, e.validate = .ok () := by
      intro r hr
      obtain ⟨m, hm, rfl⟩ := List.mem_map.mp hr
      exact added_valid haccepted m (by simpa using hm)
    intro r hr
    rw [rowsOf] at hr
    split at hr
    · exact hnew r hr
    · rcases List.mem_append.mp hr with hr | hr
      · exact ih r hr
      · exact hnew r hr

theorem payloads (h : Log runId log) : ((rowsOf log).map HistoryRow.payload).flatten =
    ((headOf log).map fun p => p.history.entries).getD [] := by
  induction h with
  | nil => rfl
  | cons c log hlog _ _ haccepted ih =>
    change _ = c.checkpoint.history.entries
    rw [entries_of_accepted haccepted, ← ih]
    cases hdelta : c.history <;>
      simp [rowsOf, rowOf, hdelta, HistoryDelta.rewrites, HistoryDelta.messages,
        HistoryDelta.apply]

private theorem appendRows_eq (h : Log runId log) :
    ∀ p ∈ headOf log, appendRows .empty ((rowsOf log).map HistoryRow.payload) = .ok p.history := by
  intro p hp
  have hvalid : ∀ m ∈ (rowsOf log).map HistoryRow.payload, ∀ e ∈ m, e.validate = .ok () := by
    intro m hm
    obtain ⟨r, hr, rfl⟩ := List.mem_map.mp hm
    exact h.payload_valid r hr
  obtain ⟨g, hg, hentries⟩ := appendRows_ok .empty hvalid
  have hsame : g.entries = p.history.entries := by
    rw [hentries, h.payloads, hp]
    rfl
  rw [hg, History.ext_entries hsame]

private theorem head_valid (h : Log runId log) : ∀ p ∈ headOf log, p.validate = .ok () := by
  intro p hp
  cases h with
  | nil => simp [headOf] at hp
  | cons c log _ _ _ haccepted =>
    obtain rfl : c.checkpoint = p := by simpa [headOf] using hp
    exact Commit.valid_of_ok haccepted

/-- Reading the rows of the current generation up to the head, in any order, rebuilds the
head. -/
theorem rebuild_eq {δ : Type} [DecidableEq δ] (s : DigestScheme δ) (h : Log runId log)
    {p : Checkpoint} (hp : headOf log = some p) {rows : List HistoryRow}
    (hrows : rows.Perm (rowsOf log)) :
    rebuild s (p.core s) (byRevision (rows.filter fun r =>
      decide (r.generation = generationOf log ∧ r.revision ≤ p.revision))) = .ok p := by
  have hrevision := h.revision p hp
  have hcurrent : (rowsOf log).filter (fun r =>
      decide (r.generation = generationOf log ∧ r.revision ≤ p.revision)) = rowsOf log := by
    refine List.filter_eq_self.mpr ?_
    intro r hr
    obtain ⟨hgeneration, hlt⟩ := h.row_bounds r hr
    rw [decide_eq_true_eq]
    exact ⟨hgeneration, by omega⟩
  have hread := hrows.filter fun r =>
    decide (r.generation = generationOf log ∧ r.revision ≤ p.revision)
  rw [hcurrent] at hread
  rw [byRevision_perm hread h.rows_sorted]
  simp only [rebuild, h.appendRows_eq p hp]
  exact CheckpointCore.withHistory_core s (h.head_valid p hp)

end Log

end Zhir.Storage
