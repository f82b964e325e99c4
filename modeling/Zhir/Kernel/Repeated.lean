import Zhir.Core.Chain
import Zhir.Core.Portions
import Zhir.Kernel.Emission

/-!
Completions that are applied again: the first one is remembered, in the record or in the
history, as exactly the outcome it had.
-/

set_option autoImplicit false
set_option relaxedAutoImplicit false

namespace Zhir.Kernel

open Zhir.Core
open Zhir.Library (Program)
open Zhir.Library.Program

variable {cfg : Config} {e e' : Engine} {id : OperationId} {record : OperationRecord}
  {outcome : OperationOutcome} {sequence : Option Nat}

private theorem settledCall_matches (call : ProviderToolCall) (outcome other : OperationOutcome) :
    (settledCall call outcome).matchesOutcome other = true ↔ other = outcome := by
  unfold settledCall ProviderToolCall.matchesOutcome
  rw [Bool.and_eq_true, decide_eq_true_eq, decide_eq_true_eq, Option.some.injEq]
  constructor
  · rintro ⟨hmetadata, hcontent⟩
    cases outcome <;> cases other <;> cases hmetadata
    · cases hcontent
      rfl
    · rfl
    · rfl
  · rintro rfl
    exact ⟨rfl, rfl⟩

/-- The entry is the result of the operation, and reports this outcome only. -/
structure Reports (id : OperationId) (outcome : OperationOutcome) (entry : HistoryEntry) :
    Prop where
  id : entry.id = .result id
  only : ∀ other, sameOutcome entry.message other = true ↔ other = outcome

private theorem resultEntry_reports (id : OperationId) (record : OperationRecord)
    (outcome : OperationOutcome) : Reports id outcome (resultEntry id record outcome) := by
  refine ⟨rfl, fun other => ?_⟩
  unfold resultEntry
  cases record.owner <;> simp [sameOutcome, eq_comm]

private theorem providerEntry_reports {c : Checkpoint} {entry : HistoryEntry}
    (h : providerEntry record outcome c = .ok entry) : Reports record.id outcome entry := by
  unfold providerEntry at h
  split at h
  · split at h
    · cases h
      refine ⟨rfl, fun other => ?_⟩
      simp [sameOutcome, settledCall_matches]
    · cases h
  · cases h

/-- The operation has been completed: its record is settled, and points to its result. -/
structure Completed (id : OperationId) (record : OperationRecord) (outcome : OperationOutcome)
    (sequence : Option Nat) (index : Nat) (c : Checkpoint) : Prop where
  record : c.active.operations[id]? = some (settled record outcome sequence index)
  entry : ∃ entry, c.history.get index = some entry ∧ Reports id outcome entry

private theorem run_finishHost_completes {u : Unit}
    (h : Program.run (finishHost cfg id record outcome sequence) e = (.ok u, e')) :
    Completed id record outcome sequence e.current.history.len e'.current := by
  obtain ⟨_, _, hread, h⟩ := run_bind_ok h
  cases hread
  obtain ⟨commandId, e₁, hid, h⟩ := run_bind_ok h
  cases hid
  obtain ⟨next, hstage, h⟩ := run_lift_bind_ok h
  obtain ⟨_, e₂, hcommit, h⟩ := run_bind_ok h
  obtain ⟨rfl, -⟩ := run_commit_ok hcommit
  cases h
  obtain ⟨history, happend, rfl⟩ := stageFinish_ok hstage
  obtain ⟨rfl, -⟩ := append_single happend
  refine ⟨?_, _, ?_, resultEntry_reports id record outcome⟩
  · exact getElem?_putOperation _ _ _
  · exact List.getElem?_concat_length

private theorem run_finishProvider_completes {u : Unit}
    (h : Program.run (finishProvider cfg record outcome sequence) e = (.ok u, e')) :
    Completed record.id record outcome sequence e.current.history.len e'.current := by
  obtain ⟨_, _, hread, h⟩ := run_bind_ok h
  cases hread
  obtain ⟨entry, hentry, h⟩ := run_lift_bind_ok h
  obtain ⟨commandId, e₁, hid, h⟩ := run_bind_ok h
  cases hid
  obtain ⟨next, hstage, h⟩ := run_lift_bind_ok h
  obtain ⟨rfl, -⟩ := run_commit_ok h
  obtain ⟨history, happend, rfl⟩ := stageFinishProvider_ok hstage
  obtain ⟨rfl, -⟩ := append_single happend
  refine ⟨?_, _, ?_, providerEntry_reports hentry⟩
  · exact getElem?_putOperation _ _ _
  · exact List.getElem?_concat_length

theorem run_finishAt_completes {u : Unit} (hvalid : e.current.Valid)
    (hrecord : e.current.active.operations[id]? = some record)
    (hopen : record.state.terminal = false)
    (h : Program.run (finishAt cfg id outcome sequence) e = (.ok u, e')) :
    outcome.validate = .ok () ∧
      Completed id record outcome sequence e.current.history.len e'.current := by
  obtain ⟨_, hvalidate, h⟩ := run_lift_bind_ok h
  refine ⟨hvalidate, ?_⟩
  obtain ⟨_, _, hread, h⟩ := run_bind_ok h
  cases hread
  simp only [hrecord, hopen, Bool.false_eq_true, if_false] at h
  split at h
  · exact run_finishHost_completes h
  · have hkey := (hvalid.operations id record hrecord).key
    have hcompleted := run_finishProvider_completes h
    rw [hkey] at hcompleted
    exact hcompleted

private theorem settled_terminal (record : OperationRecord) (outcome : OperationOutcome)
    (sequence : Option Nat) (index : Nat) :
    (settled record outcome sequence index).state.terminal = true := by
  cases outcome <;> rfl

variable (cfg) in
/-- The same outcome changes nothing, any other one is refused and changes nothing. -/
structure Repeats (id : OperationId) (outcome : OperationOutcome) (e : Engine) : Prop where
  same : ∀ sequence, Program.run (finishAt cfg id outcome sequence) e = (.ok (), e)
  other : ∀ other sequence, other ≠ outcome →
    ∃ error, Program.run (finishAt cfg id other sequence) e = (.error error, e)

private theorem run_finishAt_removed (hnone : e.current.active.operations[id]? = none) :
    Program.run (finishAt cfg id outcome sequence) e =
      (outcome.validate >>= fun _ => if resolvedAs id outcome e.current = true then .ok () else
        .error (.protocol "unknown or conflicting operation completion"), e) := by
  unfold finishAt
  rw [run_bind, run_lift]
  cases outcome.validate with
  | error error => rfl
  | ok _ =>
    simp only [run_bind, run_read, hnone, run_require]
    rfl

private theorem run_finishAt_terminal (hrecord : e.current.active.operations[id]? = some record)
    (hterminal : record.state.terminal = true) :
    Program.run (finishAt cfg id outcome sequence) e =
      (outcome.validate >>= fun _ => if finishedAs record outcome e.current = true then .ok () else
        .error (.protocol "conflicting operation completion"), e) := by
  unfold finishAt
  rw [run_bind, run_lift]
  cases outcome.validate with
  | error error => rfl
  | ok _ =>
    simp only [run_bind, run_read, hrecord, hterminal, if_true, run_require]
    rfl

def Only (outcome : OperationOutcome) (message : Message) : Prop :=
  ∀ other, other.validate = .ok () → (sameOutcome message other = true ↔ other = outcome)

/-- The record is settled, with a result that reports the outcome. -/
def Ended (outcome : OperationOutcome) (op : OperationRecord) (c : Checkpoint) : Prop :=
  op.state.terminal = true ∧
    ∃ entry, op.resultEntry.bind c.history.get = some entry ∧ Only outcome entry.message

/-- The result of an operation without a record is in the history. -/
def Resulted (id : OperationId) (outcome : OperationOutcome) (c : Checkpoint) : Prop :=
  ∃ entry, c.history.byId (.result id) = some entry ∧ Only outcome entry.message

theorem Reports.message {entry : HistoryEntry} (h : Reports id outcome entry) :
    Only outcome entry.message := fun other _ => h.only other

private theorem repeats_iff_matched {remembered : OperationOutcome → Bool} {error : Error}
    (hvalidate : outcome.validate = .ok ())
    (hrun : ∀ other sequence, Program.run (finishAt cfg id other sequence) e =
      (other.validate >>= fun _ => if remembered other = true then .ok () else .error error, e)) :
    Repeats cfg id outcome e ↔
      ∀ other, other.validate = .ok () → (remembered other = true ↔ other = outcome) := by
  have hchecked : ∀ other, other.validate = .ok () → ∀ sequence,
      Program.run (finishAt cfg id other sequence) e =
        (if remembered other = true then .ok () else .error error, e) := by
    intro other hother sequence
    rw [hrun, hother]
    rfl
  constructor
  · rintro ⟨hsame, hother⟩ other hvalid
    constructor
    · intro hmatches
      by_contra hne
      obtain ⟨error', hrefused⟩ := hother other none hne
      rw [hchecked other hvalid, if_pos hmatches] at hrefused
      cases hrefused
    · rintro rfl
      by_contra hmatches
      have haccepted := hsame none
      rw [hchecked other hvalid, if_neg hmatches] at haccepted
      cases haccepted
  · intro hmatches
    refine ⟨fun sequence => ?_, fun other sequence hne => ?_⟩
    · rw [hchecked outcome hvalidate, if_pos ((hmatches outcome hvalidate).mpr rfl)]
    · cases hother : other.validate with
      | error error =>
        refine ⟨error, ?_⟩
        rw [hrun, hother]
        rfl
      | ok _ =>
        refine ⟨error, ?_⟩
        rw [hchecked other hother, if_neg fun h => hne ((hmatches other hother).mp h)]

private theorem repeats_iff_entry {remembered : Option HistoryEntry} {error : Error}
    (hvalidate : outcome.validate = .ok ())
    (hrun : ∀ other sequence, Program.run (finishAt cfg id other sequence) e =
      (other.validate >>= fun _ =>
        if (remembered.any fun entry => sameOutcome entry.message other) = true then .ok ()
        else .error error, e)) :
    Repeats cfg id outcome e ↔ ∃ entry, remembered = some entry ∧ Only outcome entry.message := by
  rw [repeats_iff_matched hvalidate hrun]
  cases remembered with
  | none =>
    refine ⟨fun h => ?_, fun h => ?_⟩
    · exact absurd ((h outcome hvalidate).mpr rfl) (by simp)
    · obtain ⟨entry, hnone, -⟩ := h
      cases hnone
  | some entry =>
    constructor
    · exact fun h => ⟨entry, rfl, h⟩
    · rintro ⟨_, heq, honly⟩
      cases heq
      exact honly

private theorem repeats_iff_ended {op : OperationRecord} (hvalid : e.current.Valid)
    (hvalidate : outcome.validate = .ok ())
    (hrecord : e.current.active.operations[id]? = some op) :
    Repeats cfg id outcome e ↔ Ended outcome op e.current := by
  cases hstate : op.state.terminal with
  | true =>
    rw [repeats_iff_entry hvalidate fun _ _ => run_finishAt_terminal hrecord hstate, Ended,
      hstate]
    exact (and_iff_right rfl).symm
  | false =>
    -- a completion that succeeds settles the record, so it does not leave everything as it is
    constructor
    · intro h
      obtain ⟨-, hcompleted⟩ := run_finishAt_completes hvalid hrecord hstate (h.same none)
      have hsettled := hcompleted.record
      rw [hrecord] at hsettled
      rw [Option.some.inj hsettled, settled_terminal] at hstate
      cases hstate
    · rintro ⟨hterminal, -⟩
      rw [hstate] at hterminal
      cases hterminal

private theorem repeats_iff_resulted (hvalidate : outcome.validate = .ok ())
    (hnone : e.current.active.operations[id]? = none) :
    Repeats cfg id outcome e ↔ Resulted id outcome e.current :=
  repeats_iff_entry hvalidate fun _ _ => run_finishAt_removed hnone

/-- Durable checkpoints since the history was last rewritten, the newest first. -/
def recent : List Effect → List Checkpoint
  | [] => []
  | .committed c :: rest => c :: if c.fact.isHistoryRewrite then [] else recent rest
  | _ :: rest => recent rest

theorem recent_append {effects trace : List Effect} (h : ∀ x ∈ effects, ∀ c, x ≠ .committed c) :
    recent (effects ++ trace) = recent trace := by
  induction effects with
  | nil => rfl
  | cons x rest ih =>
    obtain ⟨hx, hrest⟩ := List.forall_mem_cons.mp h
    cases x with
    | committed c => exact absurd rfl (hx c)
    | _ => exact ih hrest

/-- A later checkpoint has the history of an earlier one, and what was finished stays as it
is, or is gone. -/
structure Retains (d c : Checkpoint) : Prop where
  entries : d.history.entries <+: c.history.entries
  finished : ∀ (name : String) (op op' : OperationRecord),
    d.active.operations[OperationId.host name]? = some op → op.state.terminal = true →
      c.active.operations[OperationId.host name]? = some op' → op' = op

theorem Retains.refl (c : Checkpoint) : Retains c c := by
  refine ⟨List.prefix_rfl, fun name op op' hop _ hop' => ?_⟩
  rw [hop] at hop'
  exact (Option.some.inj hop').symm

/-- What the store accepts goes on from its head, unless it rewrites the history. -/
theorem entries_of_accepted {c next : Checkpoint} {delta : HistoryDelta}
    (h : (Commit.mk next delta).validateAgainst (some c) = .ok ())
    (hrewrite : next.fact.isHistoryRewrite = false) :
    c.history.entries <+: next.history.entries := by
  have haccepted := Commit.accepted_of_ok h
  obtain ⟨kept, added, htarget, hsame, -⟩ := haccepted.target
  have hfollows := (Commit.checked_of_ok h).follows c rfl
  cases delta with
  | initial m => cases htarget
  | append m =>
    change (if m.isEmpty then _ else _) = _ at htarget
    split at htarget
    · cases htarget
    · cases htarget
      exact ⟨added, hsame⟩
  | replace m =>
    unfold Commit.follows at hfollows
    obtain ⟨_, -, hfollows⟩ := Result.bind_ok hfollows
    obtain ⟨_, -, hfollows⟩ := Result.bind_ok hfollows
    obtain ⟨_, -, hfollows⟩ := Result.bind_ok hfollows
    have hcheck := firstError_ok hfollows _ (List.mem_singleton_self _)
    rw [hrewrite] at hcheck
    simp [HistoryDelta.isReplace] at hcheck
  | unchanged =>
    cases htarget
    exact ⟨[], by rw [List.append_nil, ← hsame, List.append_nil]⟩

theorem Retains.next {d c next : Checkpoint} {delta : HistoryDelta} (h : Retains d c)
    (hstore : (Commit.mk next delta).validateAgainst (some c) = .ok ())
    (hrewrite : next.fact.isHistoryRewrite = false)
    (hkept : ∀ (name : String) (op op' : OperationRecord),
      d.active.operations[OperationId.host name]? = some op →
        next.active.operations[OperationId.host name]? = some op' →
          ∃ middle, c.active.operations[OperationId.host name]? = some middle) :
    Retains d next := by
  refine ⟨h.entries.trans (entries_of_accepted hstore hrewrite), ?_⟩
  intro name op op' hop hterminal hop'
  obtain ⟨middle, hmiddle⟩ := hkept name op op' hop hop'
  have hsame := h.finished name op middle hop hterminal hmiddle
  subst hsame
  have hfollows := (Commit.accepted_of_ok hstore).follows.operations _ middle hmiddle
  exact (operationFollows_some hfollows hop').terminal hterminal

/-- The head carries all that is durable since the last rewrite. -/
def Carrying (w : World) : Prop := ∀ d ∈ recent w.trace, ∀ c, w.head = some c → Retains d c

variable {w w' : World}

private theorem committed_of_recent {trace : List Effect} {d : Checkpoint} (h : d ∈ recent trace) :
    Effect.committed d ∈ trace := by
  induction trace with
  | nil => cases h
  | cons x rest ih =>
    cases x with
    | committed c =>
      rcases List.mem_cons.mp h with rfl | h
      · exact List.mem_cons_self
      · split at h
        · cases h
        · exact List.mem_cons_of_mem _ (ih h)
    | _ => exact List.mem_cons_of_mem _ (ih h)

theorem Carrying.extends (h : Carrying w) (hs : Started cfg w) (hw : World.Extends cfg w w') :
    Carrying w' := by
  cases hw with
  | quiet hhead htrace hsilent =>
    intro d hd
    rw [htrace, recent_append (not_committed_of_silent hsilent)] at hd
    rw [hhead]
    exact h d hd
  | @commit c next k m hhead _ _ _ _ htables _ hhead' htrace _ _ _ hstore =>
    intro d hd c' hc'
    rw [hhead'] at hc'
    cases hc'
    rw [htrace] at hd
    rcases List.mem_cons.mp hd with rfl | hd
    · exact .refl d
    · split at hd
      · cases hd
      · rename_i hrewrite
        obtain ⟨delta, hstore⟩ := hstore
        refine (h d hd c hhead).next hstore (by simpa using hrewrite) ?_
        intro name op op' hop hop'
        rcases hs.known d (mem_durable.mpr (committed_of_recent hd)) _ op hop with
          ⟨j, hj, hid⟩ | ⟨hhost, -⟩
        · rw [hid] at hop' ⊢
          obtain ⟨middle, hmiddle, -⟩ := htables.kept hj hop'
          exact ⟨middle, hmiddle⟩
        · exact absurd rfl (hhost name)

theorem Carrying.opened {order : List String} {request : Request} {expired : Bool}
    {first : Checkpoint} (h : Carrying w) (hsteady : Steady w)
    (hsubmitted : Submitted cfg order w) (hopens : Opens cfg w request expired first) :
    Carrying (w.opened first) := by
  intro d hd c hc
  cases hc
  rcases List.mem_cons.mp hd with rfl | hd
  · exact .refl d
  split at hd
  · cases hd
  rename_i hrewrite
  have hdurable : Effect.committed d ∈ w.trace := committed_of_recent hd
  obtain ⟨base, hbase⟩ := latest_of_committed hdurable
  rw [← hsteady.latest] at hbase
  have hstore := hopens.accepts
  rw [hbase] at hstore
  refine (h d hd base hbase).next hstore (by simpa using hrewrite) ?_
  intro name op op' _ hop'
  obtain ⟨base', hbase', hmiddle⟩ := hopens.records hsubmitted hop'
  rw [hbase] at hbase'
  cases hbase'
  exact ⟨op', hmiddle⟩

theorem Carrying.after {effects : List Effect} (h : Carrying w)
    (heffects : ∀ x ∈ effects, ∀ c, x ≠ .committed c) : Carrying (w.after effects) := by
  intro d hd
  exact h d (by rwa [World.after, recent_append heffects] at hd)

private theorem Reached.carrying {p : Point} (hp : Reached cfg p) : Carrying p.world := by
  have hboth : Steady p.world ∧ Carrying p.world := by
    refine hp.world_rule (I := fun w => Steady w ∧ Carrying w) ?_
      (fun w w' hs h hw => ⟨h.1.extends hs hw, h.2.extends hs hw⟩)
      (fun w order request expired first hsubmitted h hopens =>
        ⟨h.1.opened hsubmitted hopens, h.2.opened h.1 hsubmitted hopens⟩)
      fun w effects heffects h => ⟨h.1.after heffects, h.2.after heffects⟩
    exact ⟨.start, fun d hd => absurd hd List.not_mem_nil⟩
  exact hboth.2

variable {e₁ e₂ : Engine} {r₁ r₂ : List RecoveryResolution}

theorem Completed.remembered {index : Nat}
    (h : Completed id record outcome sequence index e₁.current)
    (hp₂ : Reached cfg (.live r₂ e₂)) (hrecent : e₁.current ∈ recent e₂.world.trace) :
    Resulted id outcome e₂.current ∧
      Ended outcome (settled record outcome sequence index) e₂.current := by
  have hsound := hp₂.sound
  have hretains : Retains e₁.current e₂.current := hp₂.carrying _ hrecent _ hsound.head
  obtain ⟨entry, hentry, hreports⟩ := h.entry
  have hentry₂ : e₂.current.history.get index = some entry := by
    obtain ⟨later, hlater⟩ := hretains.entries
    obtain ⟨hlt, -⟩ := List.getElem?_eq_some_iff.mp hentry
    unfold History.get
    rw [← hlater, List.getElem?_append_left hlt]
    exact hentry
  have hfound := History.byId_get hsound.valid.ordered hentry₂
  rw [hreports.id] at hfound
  exact ⟨⟨entry, hfound, hreports.message⟩,
    settled_terminal _ _ _ _, entry, hentry₂, hreports.message⟩

theorem Completed.host {index : Nat} {name : String} {op : OperationRecord}
    (h : Completed (.host name) record outcome sequence index e₁.current)
    (hp₂ : Reached cfg (.live r₂ e₂)) (hrecent : e₁.current ∈ recent e₂.world.trace)
    (hop : e₂.current.active.operations[OperationId.host name]? = some op) :
    e₁.current.active.operations[OperationId.host name]? = some op := by
  have hretains : Retains e₁.current e₂.current := hp₂.carrying _ hrecent _ hp₂.sound.head
  rw [h.record, hretains.finished name _ op h.record (settled_terminal _ _ _ _) hop]

/-- Completing twice depends on the history, and on the state and the result of the record. -/
private theorem repeats_congr {c : Checkpoint} (hvalidate : outcome.validate = .ok ())
    (hvalid : e.current.Valid) (hvalid' : c.Valid) (hhistory : c.history = e.current.history)
    (hoperation : (c.active.operations[id]?).map (fun op => (op.state, op.resultEntry)) =
      (e.current.active.operations[id]?).map fun op => (op.state, op.resultEntry)) :
    Repeats cfg id outcome { e with current := c } ↔ Repeats cfg id outcome e := by
  cases hrecord : e.current.active.operations[id]? with
  | none =>
    rw [hrecord, Option.map_none, Option.map_eq_none_iff] at hoperation
    rw [repeats_iff_resulted hvalidate hrecord,
      repeats_iff_resulted (e := { e with current := c }) hvalidate hoperation]
    unfold Resulted
    rw [hhistory]
  | some op =>
    rw [hrecord, Option.map_some] at hoperation
    obtain ⟨op', hrecord', hsame⟩ := Option.map_eq_some_iff.mp hoperation
    obtain ⟨hstate, hresult⟩ := Prod.mk.inj hsame
    rw [repeats_iff_ended hvalid hvalidate hrecord,
      repeats_iff_ended (e := { e with current := c }) hvalid' hvalidate hrecord']
    unfold Ended
    rw [hhistory, hstate, hresult]

/-- Whoever completes an operation once more, with its record still there or after an
acknowledgement or a finished response has removed it: the outcome it was completed with is
accepted again, any other one is refused, and neither changes anything, exactly unless the
provider has meanwhile reported the call anew and not as ended with this outcome. A host operation
is never reported anew. An outcome that was only compared with what was known before is remembered
as long as the checkpoint holds a result that reports it. And that the checkpoint goes through the
store's bytes makes no difference. -/
theorem completion_repeats_iff {δ β : Type} [DecidableEq δ] {s : DigestScheme δ} {u : Unit}
    (format : WireFormat δ β) (hexact : format.Exact) (hfree : s.CollisionFree)
    (hp₁ : Reached cfg (.live r₁ e))
    (hfirst : Program.run (finishAt cfg id outcome sequence) e = (.ok u, e₁))
    (hp₂ : Reached cfg (.live r₂ e₂)) (hrecent : e₁.current ∈ recent e₂.world.trace) :
    ((∃ record, e.current.active.operations[id]? = some record ∧ record.state.terminal = false) →
      (Repeats cfg id outcome e₂ ↔ ∀ op, e₂.current.active.operations[id]? = some op →
        e₁.current.active.operations[id]? ≠ some op → Ended outcome op e₂.current) ∧
      ∀ name, id = .host name → Repeats cfg id outcome e₂) ∧
    (Repeats cfg id outcome e₂ ↔
      (∀ op, e₂.current.active.operations[id]? = some op → Ended outcome op e₂.current) ∧
      (e₂.current.active.operations[id]? = none → Resulted id outcome e₂.current)) ∧
    ∀ (held decoded : HeldCheckpoint s) (bytes : β), held.checkpoint = e₂.current →
      encodeCheckpoint s format held = .ok bytes → decodeCheckpoint s format bytes = .ok decoded →
        (Repeats cfg id outcome { e₂ with current := decoded.checkpoint } ↔
          Repeats cfg id outcome e₂) := by
  have hvalidate : outcome.validate = .ok () := by
    obtain ⟨⟨⟩, hvalidate, -⟩ := run_lift_bind_ok hfirst
    exact hvalidate
  have hvalid := hp₂.sound.valid
  have hremembered : Repeats cfg id outcome e₂ ↔
      (∀ op, e₂.current.active.operations[id]? = some op → Ended outcome op e₂.current) ∧
      (e₂.current.active.operations[id]? = none → Resulted id outcome e₂.current) := by
    cases hrecord : e₂.current.active.operations[id]? with
    | none => simp [repeats_iff_resulted hvalidate hrecord]
    | some op => simp [repeats_iff_ended hvalid hvalidate hrecord]
  refine ⟨?_, hremembered, ?_⟩
  · rintro ⟨record, hrecord, hopen⟩
    obtain ⟨-, hcompleted⟩ := run_finishAt_completes hp₁.sound.valid hrecord hopen hfirst
    obtain ⟨hresulted, hended⟩ := hcompleted.remembered hp₂ hrecent
    have hanew : Repeats cfg id outcome e₂ ↔ ∀ op,
        e₂.current.active.operations[id]? = some op →
          e₁.current.active.operations[id]? ≠ some op → Ended outcome op e₂.current := by
      rw [hremembered]
      constructor
      · exact fun h op hop _ => h.1 op hop
      · refine fun h => ⟨fun op hop => ?_, fun _ => hresulted⟩
        by_cases hold : e₁.current.active.operations[id]? = some op
        · rw [hcompleted.record] at hold
          rw [← Option.some.inj hold]
          exact hended
        · exact h op hop hold
    refine ⟨hanew, fun name hname => ?_⟩
    subst hname
    exact hanew.mpr fun op hop hnew => absurd (hcompleted.host hp₂ hrecent hop) hnew
  · intro held decoded bytes hsame hencode hdecode
    obtain ⟨hdecoded, hhistory, hoperations⟩ := decode_exact format hexact hfree hencode hdecode
    rw [hsame] at hhistory hoperations
    exact repeats_congr hvalidate hvalid (Checkpoint.valid_of_validate hdecoded) hhistory
      (hoperations id)

def sampleSeen : OperationOutcome := .success [.text "seen"] .null

/-- The tool of the sample run has returned, and its result has not been handled. -/
def sampleReturned : Engine :=
  sampleEngine (sampleOpening (sampleOptions sampleLimits) ++ sampleStarted "look" ++
    [.task 2 (.returned (.ok (.finished sampleSeen)))]) (by decide +kernel)

def sampleYielded : ResponseCompletion :=
  ⟨sampleGeneration, 0, .requiresResults, {}, none, none, none, .null, []⟩

/-- Later in this run: the result was handled, sent and acknowledged. -/
def sampleDelivered : Engine :=
  sampleEngine (sampleOpening (sampleOptions sampleLimits) ++ sampleStarted "look" ++
    sampleReport 2 (.returned (.ok (.finished sampleSeen))) ++
    sampleEvent 4 (.responseFinished sampleYielded) ++ sampleReport 1 (.submitted (.ok ())) ++
    sampleEvent 5 (.acknowledged (sampleName 'i' 11) none) ++
    sampleEvent 6 (.acknowledged (sampleName 'i' 12) none)) (by decide +kernel)

def Stage.goesOn : Stage → Bool
  | .ended => false
  | _ => true

theorem reached_sampleEngine {actions : List Action}
    (hlive : ((sampleRun actions).execution).isSome = true)
    (hstage : ((sampleRun actions).execution.get hlive).stage.goesOn = true) :
    ∃ r, Reached sampleConfig (.live r (sampleEngine actions hlive)) := by
  have hreachable : Reachable sampleConfig (sampleRun actions) := ⟨actions, rfl⟩
  obtain ⟨p, hp, hshows⟩ := reached_of_reachable hreachable
  obtain ⟨x, hx⟩ : ∃ x, sampleRun actions = .live x := by
    cases hrun : sampleRun actions with
    | idle w => simp [hrun, System.execution] at hlive
    | live x => exact ⟨x, rfl⟩
  have hget : (sampleRun actions).execution.get hlive = x := by
    simp [hx, System.execution]
  unfold sampleEngine
  rw [hget] at hstage ⊢
  rw [hx] at hshows
  cases hshows with
  | ended => cases hstage
  | _ => exact ⟨_, hp⟩

def sampleCompleted : Except Error Unit × Engine :=
  run (finishAt sampleConfig sampleOperation sampleSeen none) sampleReturned

/-- After the acknowledgement has removed the record, the result is still accepted again, and
no other one, also where the checkpoint has been written out and read back. -/
theorem seen_repeats :
    sampleDelivered.current.active.operations[sampleOperation]? = none ∧
      Repeats sampleConfig sampleOperation sampleSeen sampleDelivered ∧
      ∀ held : HeldCheckpoint sampleDigests, held.checkpoint = sampleDelivered.current →
        ∃ bytes decoded,
          encodeCheckpoint sampleDigests ⟨fun envelope => envelope, .ok⟩ held = .ok bytes ∧
          decodeCheckpoint sampleDigests ⟨fun envelope => envelope, .ok⟩ bytes = .ok decoded ∧
            Repeats sampleConfig sampleOperation sampleSeen
              { sampleDelivered with current := decoded.checkpoint } := by
  obtain ⟨r₁, hp₁⟩ : ∃ r, Reached sampleConfig (.live r sampleReturned) :=
    reached_sampleEngine _ (by decide +kernel)
  obtain ⟨r₂, hp₂⟩ : ∃ r, Reached sampleConfig (.live r sampleDelivered) :=
    reached_sampleEngine _ (by decide +kernel)
  have hrunning : (sampleReturned.current.active.operations[sampleOperation]?).map
      (fun record => record.state.terminal) = some false := by decide +kernel
  have hfirst : sampleCompleted = (.ok (), sampleCompleted.2) :=
    Prod.fst_eq_iff.mp (by decide +kernel)
  have hrecent : sampleCompleted.2.current ∈ recent sampleDelivered.world.trace := by
    decide +kernel
  have hexact : (⟨fun envelope => envelope, .ok⟩ :
      WireFormat _ (CheckpointEnvelope (List HistoryEntry))).Exact := by
    constructor
    · rintro _ _ ⟨⟩
      exact ⟨rfl, rfl⟩
    · rintro _ _ ⟨⟩ _
      rfl
  obtain ⟨hheld, -, hstored⟩ := completion_repeats_iff _ hexact sampleDigests_free hp₁ hfirst hp₂
    hrecent
  have hrepeats := (hheld (Option.map_eq_some_iff.mp hrunning)).2 _ rfl
  refine ⟨by decide +kernel, hrepeats, fun held hsame => ?_⟩
  have hvalid : held.checkpoint.validate = .ok () := by
    rw [hsame]
    exact (validated_inductive sampleConfig).current hp₂
  obtain ⟨bytes, hencode, hdecode⟩ := encode_decode (s := sampleDigests)
    (⟨fun envelope => envelope, .ok⟩ : WireFormat _ (CheckpointEnvelope (List HistoryEntry)))
    (fun _ => rfl) held hvalid
  exact ⟨bytes, held, hencode, hdecode,
    (hstored held held bytes hsame hencode hdecode).mpr hrepeats⟩

def sampleLateCall (sequence : Nat) (itemId : String) : List Action :=
  sampleEvent sequence (.output none itemId "model"
    (.providerToolCall ⟨"call", "search", "search", .running, none, [], .null⟩))

def sampleLateId : OperationId := .provider (sampleName 'i' 0) none "model" "call"

def sampleLateSeen : List Action :=
  sampleOpening (sampleOptions sampleLimits) ++ sampleLateCall 3 "item" ++
    [.task 0 (.model (.ok (some ⟨4, .operation ⟨sampleName 'i' 0, "item", none, "model", "call"⟩
      ⟨0, .finished sampleSeen⟩⟩)))]

def sampleLateEngine : Engine := sampleEngine sampleLateSeen (by decide +kernel)

/-- The outcome was handled, the response has finished, and the call is reported again. -/
def sampleAgain : Engine :=
  sampleEngine
    (sampleLateSeen ++ [.work, .pass, .pass] ++ sampleEvent 5 (.responseFinished sampleYielded) ++
    sampleLateCall 6 "again") (by decide +kernel)

def sampleLateCompleted : Except Error Unit × Engine :=
  run (finishAt sampleConfig sampleLateId sampleSeen (some 0)) sampleLateEngine

/-- The outcome that was accepted first is refused the second time: its result would be a second
entry of one identity. -/
theorem reported_again_refused :
    (∃ r₁ r₂, Reached sampleConfig (.live r₁ sampleLateEngine) ∧
      Reached sampleConfig (.live r₂ sampleAgain)) ∧
    (sampleLateEngine.current.active.operations[sampleLateId]?).map
      (fun record => record.state.terminal) = some false ∧
    sampleLateCompleted.1 = .ok () ∧
    sampleLateCompleted.2.current ∈ recent sampleAgain.world.trace ∧
    (run (finishAt sampleConfig sampleLateId sampleSeen none) sampleAgain).1 =
      .error (.invalid "duplicate history identity") ∧
    ¬ Repeats sampleConfig sampleLateId sampleSeen sampleAgain := by
  obtain ⟨r₁, hp₁⟩ : ∃ r, Reached sampleConfig (.live r sampleLateEngine) :=
    reached_sampleEngine _ (by decide +kernel)
  obtain ⟨r₂, hp₂⟩ : ∃ r, Reached sampleConfig (.live r sampleAgain) :=
    reached_sampleEngine _ (by decide +kernel)
  have hrefused : (run (finishAt sampleConfig sampleLateId sampleSeen none) sampleAgain).1 =
      .error (.invalid "duplicate history identity") := by decide +kernel
  refine ⟨⟨r₁, r₂, hp₁, hp₂⟩, by decide +kernel, by decide +kernel, by decide +kernel, hrefused, ?_⟩
  intro hrepeats
  rw [hrepeats.same none] at hrefused
  cases hrefused

end Zhir.Kernel
