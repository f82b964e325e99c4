import Zhir.Kernel.OperationMoves
import Zhir.Library.Cursor

/-!
Operation streams that are delivered again from their start after an interruption.
-/

set_option autoImplicit false
set_option relaxedAutoImplicit false

namespace Zhir.Kernel

open Zhir.Core
open Zhir.Library (Program Increasing cursorAfter newer)
open Zhir.Library.Program

variable (cfg : Config)

structure Progress where
  state : OperationState
  wait : Option Value
  recovery : Option RecoveryRef
  lastSequence : Option Nat
  lastUpdate : Option OperationUpdate
  deriving DecidableEq, Repr

def progress (op : OperationRecord) : Progress :=
  ⟨op.state, op.wait, op.recovery, op.lastSequence, op.lastUpdate⟩

def updateState : OperationUpdate → Option OperationState
  | .running _ => some .running
  | .waiting _ _ => some .waiting
  | .unknown _ => some .unknown
  | .finished outcome => some (.ofOutcome outcome)
  | _ => none

def updateWait : OperationUpdate → Option Value
  | .waiting prompt _ => some prompt
  | .unknown reason => some (Value.reason reason)
  | _ => none

def updateRecovery : OperationUpdate → Option RecoveryRef
  | .running recovery => recovery
  | .waiting _ recovery => recovery
  | _ => none

def Progress.tell (p : Progress) (event : OperationEvent) : Progress where
  state := (updateState event.update).getD p.state
  wait := updateWait event.update
  recovery := (updateRecovery event.update).or p.recovery
  lastSequence := some event.sequence
  lastUpdate := some event.update

def Progress.described (p : Progress) (stream : List OperationEvent) : Progress :=
  stream.foldl Progress.tell p

def isFinal : OperationUpdate → Bool
  | .finished _ => true
  | _ => false

/-- A worker's stream: numbered reports, of which only the last may be a final result. -/
inductive UpdateStream : List OperationEvent → Prop
  | nil : UpdateStream []
  | final {event : OperationEvent} (h : isFinal event.update = true) : UpdateStream [event]
  | report {event : OperationEvent} {rest : List OperationEvent}
      (hreport : (updateState event.update).isSome = true) (hopen : isFinal event.update = false)
      (hrest : UpdateStream rest) (hlt : ∀ b ∈ rest, event.sequence < b.sequence) :
      UpdateStream (event :: rest)

namespace UpdateStream

theorem increasing {stream : List OperationEvent} (h : UpdateStream stream) :
    Increasing OperationEvent.sequence stream := by
  induction h with
  | nil => exact .nil
  | final => exact List.pairwise_singleton _ _
  | report _ _ _ hlt ih => exact .cons hlt ih

theorem reports {stream : List OperationEvent} (h : UpdateStream stream) :
    ∀ event ∈ stream, (updateState event.update).isSome = true := by
  induction h with
  | nil => simp
  | @final event h =>
    obtain ⟨sequence, update⟩ := event
    cases update with
    | finished outcome => simp [updateState]
    | _ => simp [isFinal] at h
  | report hreport _ _ _ ih => exact List.forall_mem_cons.mpr ⟨hreport, ih⟩

theorem split {before rest : List OperationEvent} (h : UpdateStream (before ++ rest)) :
    UpdateStream before ∧ UpdateStream rest ∧
      (rest ≠ [] → ∀ event ∈ before, isFinal event.update = false) := by
  induction before with
  | nil => exact ⟨.nil, h, by simp⟩
  | cons event before ih =>
    rw [List.cons_append] at h
    generalize hs : before ++ rest = tail at h ih
    cases h with
    | final h =>
      obtain ⟨rfl, rfl⟩ : before = [] ∧ rest = [] := by simpa using hs
      exact ⟨.final h, .nil, by simp⟩
    | report hreport hopen hrest hlt =>
      obtain ⟨hbefore, hstream, hreports⟩ := ih hrest
      have hlt : ∀ b ∈ before, event.sequence < b.sequence :=
        fun b hb => hlt b (hs ▸ List.mem_append_left rest hb)
      exact ⟨.report hreport hopen hbefore hlt, hstream,
        fun hne => List.forall_mem_cons.mpr ⟨hopen, hreports hne⟩⟩

end UpdateStream

private theorem described_append (p : Progress) (before rest : List OperationEvent) :
    p.described (before ++ rest) = (p.described before).described rest :=
  List.foldl_append

private theorem described_lastSequence (p : Progress) (stream : List OperationEvent) :
    (p.described stream).lastSequence =
      cursorAfter OperationEvent.sequence p.lastSequence stream := by
  induction stream generalizing p with
  | nil => rfl
  | cons event rest ih =>
    rw [Library.cursorAfter_cons]
    exact ih (p.tell event)

def namesRecovery (stream : List OperationEvent) : Bool :=
  stream.any fun event => (updateRecovery event.update).isSome

/-- Progress that differs in state, wait or recovery data is told apart by a stream unless
the stream says all of them anew. -/
private theorem described_eq_iff {stream : List OperationEvent}
    (hstream : ∀ event ∈ stream, (updateState event.update).isSome = true) {p q : Progress}
    (hcursor : p.lastSequence = q.lastSequence ∧ p.lastUpdate = q.lastUpdate) :
    p.described stream = q.described stream ↔
      (stream ≠ [] ∨ p.state = q.state ∧ p.wait = q.wait) ∧
        (namesRecovery stream = true ∨ p.recovery = q.recovery) := by
  induction stream generalizing p q with
  | nil =>
    obtain ⟨s, w, r, n, u⟩ := p
    obtain ⟨s', w', r', n', u'⟩ := q
    obtain ⟨rfl, rfl⟩ : n = n' ∧ u = u' := hcursor
    simp [Progress.described, namesRecovery, and_assoc]
  | cons event rest ih =>
    obtain ⟨hevent, hrest⟩ := List.forall_mem_cons.mp hstream
    obtain ⟨state, hstate⟩ := Option.isSome_iff_exists.mp hevent
    change (p.tell event).described rest = (q.tell event).described rest ↔ _
    have hcursor : (p.tell event).lastSequence = (q.tell event).lastSequence ∧
        (p.tell event).lastUpdate = (q.tell event).lastUpdate := ⟨rfl, rfl⟩
    rw [ih hrest hcursor]
    have hsame : (p.tell event).state = (q.tell event).state ∧
        (p.tell event).wait = (q.tell event).wait := by simp [Progress.tell, hstate]
    have hrecovery : (p.tell event).recovery = (q.tell event).recovery ↔
        ((updateRecovery event.update).isSome = true ∨ p.recovery = q.recovery) := by
      cases hr : updateRecovery event.update <;> simp [Progress.tell, hr]
    simp only [hsame, and_self, or_true, true_and, hrecovery, namesRecovery, List.any_cons,
      Bool.or_eq_true, ne_eq, reduceCtorEq, not_false_eq_true, true_or]
    tauto

def Engine.record (id : OperationId) (e : Engine) : Option OperationRecord :=
  e.current.active.operations[id]?

/-- An update reported by the operation's worker is handled. -/
def deliver (id : OperationId) (event : OperationEvent) : Handler Unit :=
  handle cfg (.operation id (.ok (some event)))

variable {cfg} {id : OperationId} {record : OperationRecord} {event : OperationEvent}
  {e e' : Engine} {u : Unit}

@[simp] theorem record_saved_put (w : World) (op : OperationRecord) (fact : Fact) :
    (e.saved cfg w (putOperation id op e.current) fact).record id = some op := by
  change (e.current.active.operations.insert id op)[id]? = some op
  rw [Std.ExtTreeMap.getElem?_insert_self]

private theorem run_updateEvent_ok (h : run (updateEvent cfg id event) e = (.ok u, e')) :
    ∃ op, e.record id = some op ∧ op.state.terminal = false ∧
      e'.record id = some (applyUpdate op event) := by
  obtain ⟨_, _, hread, h⟩ := run_bind_ok h
  cases hread
  cases hop : e.current.active.operations[id]? with
  | none =>
    rw [hop] at h
    cases h
  | some op =>
    simp only [hop] at h
    obtain ⟨hstate, h⟩ := run_require_bind_ok h
    refine ⟨op, hop, hstate, ?_⟩
    rw [(run_commit_ok h).1, record_saved_put]

private theorem progress_applyUpdate (record : OperationRecord) {event : OperationEvent}
    (hreport : (updateState event.update).isSome = true)
    (hopen : isFinal event.update = false) :
    progress (applyUpdate record event) = (progress record).tell event ∧
      (applyUpdate record event).state.terminal = false ∧
      (applyUpdate record event).owner = record.owner := by
  obtain ⟨sequence, update⟩ := event
  cases update with
  | running => exact ⟨rfl, rfl, rfl⟩
  | waiting => exact ⟨rfl, rfl, rfl⟩
  | unknown => exact ⟨rfl, rfl, rfl⟩
  | finished => simp [isFinal] at hopen
  | context => simp [updateState] at hreport
  | progress => simp [updateState] at hreport

private theorem run_finishAt_record {outcome : OperationOutcome} {sequence : Option Nat}
    (hrecord : e.record id = some record) (hstate : record.state.terminal = false)
    (hhost : record.owner.host = true)
    (h : run (finishAt cfg id outcome sequence) e = (.ok u, e')) :
    e'.record id = some (settled record outcome sequence e.current.history.len) := by
  obtain ⟨_, -, h⟩ := run_lift_bind_ok h
  obtain ⟨_, _, hread, h⟩ := run_bind_ok h
  cases hread
  change e.current.active.operations[id]? = some record at hrecord
  simp only [hrecord, hstate, hhost, Bool.false_eq_true, if_false, if_true] at h
  obtain ⟨_, _, hread, h⟩ := run_bind_ok h
  cases hread
  obtain ⟨commandId, e₁, hid, h⟩ := run_bind_ok h
  cases hid
  obtain ⟨next, hstage, h⟩ := run_lift_bind_ok h
  obtain ⟨_, e₂, hcommit, h⟩ := run_bind_ok h
  obtain ⟨rfl, -⟩ := run_commit_ok hcommit
  cases h
  obtain ⟨history, -, rfl⟩ := stageFinish_ok hstage
  change (e.current.active.operations.insert id _)[id]? = _
  rw [Std.ExtTreeMap.getElem?_insert_self]

private theorem run_deliver_new (hrecord : e.record id = some record)
    (hstate : record.state.terminal = false) (hhost : record.owner.host = true)
    (hnew : newer OperationEvent.sequence record.lastSequence event = true)
    (hreport : (updateState event.update).isSome = true)
    (h : run (deliver cfg id event) e = (.ok u, e')) :
    ∃ op, e'.record id = some op ∧ progress op = (progress record).tell event ∧
      op.owner = record.owner ∧ (isFinal event.update = false → op.state.terminal = false) := by
  have hfresh : delivery record event = .fresh := by
    unfold delivery
    cases hlast : record.lastSequence with
    | none => rfl
    | some last =>
      have hlt : last < event.sequence := by simpa [newer, hlast] using hnew
      simp [Nat.ne_of_gt hlt, Nat.not_lt_of_gt hlt]
  have hdelivery : (e.current.active.operations[id]?).map (delivery · event) = some .fresh := by
    change e.current.active.operations[id]? = some record at hrecord
    rw [hrecord, Option.map_some, hfresh]
  obtain ⟨sequence, update⟩ := event
  have h : run (freshEvent cfg id ⟨sequence, update⟩) e = (.ok u, e') := by
    change run (operationEvent cfg id ⟨sequence, update⟩) e = (.ok u, e') at h
    cases update with
    | context content => cases hreport
    | _ =>
      obtain ⟨_, _, hread, h⟩ := run_bind_ok h
      cases hread
      simpa only [hdelivery] using h
  rcases hfinal : isFinal update with _ | _
  · have hupdate : run (updateEvent cfg id ⟨sequence, update⟩) e = (.ok u, e') := by
      cases update with
      | finished => simp [isFinal] at hfinal
      | progress => simp [updateState] at hreport
      | _ => exact h
    obtain ⟨op, hop, -, hnext⟩ := run_updateEvent_ok hupdate
    cases hrecord.symm.trans hop
    obtain ⟨hprogress, hopen, howner⟩ :=
      progress_applyUpdate record (show (updateState
        (OperationEvent.mk sequence update).update).isSome = true from hreport) hfinal
    exact ⟨_, hnext, hprogress, howner, fun _ => hopen⟩
  · cases update with
    | finished outcome =>
      exact ⟨_, run_finishAt_record hrecord hstate hhost h, rfl, rfl, by simp⟩
    | _ => cases hfinal

private theorem run_deliver_replay (hrecord : e.record id = some record)
    (hreplay : delivery record event = .replay)
    (hreport : (updateState event.update).isSome = true) :
    run (deliver cfg id event) e = (.ok (), e) := by
  have hdelivery : (e.current.active.operations[id]?).map (delivery · event) = some .replay := by
    change e.current.active.operations[id]? = some record at hrecord
    rw [hrecord, Option.map_some, hreplay]
  obtain ⟨sequence, update⟩ := event
  change run (operationEvent cfg id ⟨sequence, update⟩) e = _
  cases update with
  | context content => cases hreport
  | _ => simp only [operationEvent, run_bind, run_read, hdelivery, run_pure]

private theorem run_attach_ok {reference : RecoveryRef}
    (h : run (resolve cfg (.attach id reference)) e = (.ok u, e')) :
    ∃ op, e.record id = some op ∧ op.state.terminal = false ∧
      e'.record id = some { op with recovery := some reference, state := .running } := by
  obtain ⟨_, _, hread, h⟩ := run_bind_ok h
  cases hread
  cases hop : e.current.active.operations[id]? with
  | none =>
    rw [hop] at h
    cases h
  | some op =>
    simp only [hop] at h
    obtain ⟨hstate, h⟩ := run_require_bind_ok h
    refine ⟨op, hop, hstate, ?_⟩
    rw [(run_commit_ok h).1]
    exact record_saved_put _ _ _

def streamEnded (id : OperationId) (failure : Option Error) : Work :=
  .operation id (failure.elim (.ok none) .error)

def lostReason : String := "operation stream ended without a final result"

private theorem run_streamEnded_ok {failure : Option Error} (hrecord : e.record id = some record)
    (h : run (handle cfg (streamEnded id failure)) e = (.ok u, e')) :
    e'.record id = some (if record.state.terminal then record else lost record lostReason) := by
  have h : run (loseWorker cfg id lostReason) e = (.ok u, e') := by
    cases failure <;> exact h
  have hunfinished : unfinishedOperation id e.current = !record.state.terminal := by
    change e.current.active.operations[id]? = some record at hrecord
    simp [unfinishedOperation, hrecord]
  obtain ⟨_, _, hread, h⟩ := run_bind_ok h
  cases hread
  cases hstate : record.state.terminal with
  | true =>
    simp only [Program.when, hunfinished, hstate, Bool.not_true, Bool.false_eq_true,
      if_false] at h
    cases h
    exact hrecord
  | false =>
    simp only [Program.when, hunfinished, hstate, Bool.not_false, if_true] at h
    obtain ⟨op, hop, -, rfl⟩ := run_localOperationUpdate_ok h
    cases hrecord.symm.trans hop
    exact record_saved_put _ _ _

private theorem run_installed_ok {handle : OperationHandle} (hrecord : e.record id = some record)
    (h : run (Kernel.handle cfg (.started id (.ok (.active handle)))) e = (.ok u, e')) :
    e'.record id = some { record with recovery := handle.recovery.or record.recovery } := by
  obtain ⟨_, _, hreturned, h⟩ := run_bind_ok h
  cases hreturned
  obtain ⟨_, _, hread, h⟩ := run_bind_ok h
  cases hread
  change e.current.active.operations[id]? = some record at hrecord
  simp only [hrecord] at h
  obtain ⟨_, _, hcommit, h⟩ := run_bind_ok h
  obtain ⟨rfl, -⟩ := run_commit_ok hcommit
  cases h
  exact record_saved_put (e := { e with pendingStarts := _ }) _ _ _

/-- Handlers run one after the other. In between anything may happen that leaves the
operation's record alone: other work, controls, a crash and a restart. -/
inductive Performed (id : OperationId) : Engine → List (Handler Unit) → Engine → Prop
  | done {e e' : Engine} (hsame : e'.record id = e.record id) : Performed id e [] e'
  | next {e e₁ e₂ e' : Engine} {act : Handler Unit} {rest : List (Handler Unit)}
      (hsame : e₁.record id = e.record id) (hrun : run act e₁ = (.ok (), e₂))
      (hrest : Performed id e₂ rest e') : Performed id e (act :: rest) e'

theorem Performed.split {acts rest : List (Handler Unit)}
    (h : Performed id e (acts ++ rest) e') :
    ∃ e₁, Performed id e acts e₁ ∧ Performed id e₁ rest e' := by
  induction acts generalizing e with
  | nil => exact ⟨e, .done rfl, h⟩
  | cons act acts ih =>
    cases h with
    | next hsame hrun hrest =>
      obtain ⟨e₁, hacts, hrest⟩ := ih hrest
      exact ⟨e₁, .next hsame hrun hacts, hrest⟩

inductive Resumption
  /-- After a crash the run continues and recovers its worker. -/
  | recover
  /-- After a crash the host names the external work. -/
  | attach (reference : RecoveryRef)
  /-- The stream ends, and the host names the external work. -/
  | lost (failure : Option Error) (reference : RecoveryRef)

namespace Resumption

def acts (cfg : Config) (id : OperationId) : Resumption → List (Handler Unit)
  | .recover => []
  | .attach reference => [resolve cfg (.attach id reference)]
  | .lost failure reference =>
    [handle cfg (streamEnded id failure), resolve cfg (.attach id reference)]

def resume (p : Progress) : Resumption → Progress
  | .recover => p
  | .attach reference => { p with state := .running, recovery := some reference }
  | .lost _ reference =>
    { p with
      state := .running, wait := some (Value.reason lostReason), recovery := some reference }

def reference : Resumption → Option RecoveryRef
  | .recover => none
  | .attach reference => some reference
  | .lost _ reference => some reference

def keepsState (state : OperationState) : Resumption → Bool
  | .recover => true
  | .attach _ => state = .running
  | .lost _ _ => false

private theorem resume_eq_iff (resumption : Resumption) {p : Progress}
    (hp : p.state = .running → p.wait = none) :
    (resumption.resume p).state = p.state ∧ (resumption.resume p).wait = p.wait ↔
      resumption.keepsState p.state = true := by
  cases resumption with
  | recover => simp [resume, keepsState]
  | attach reference => simp [resume, keepsState, eq_comm]
  | lost failure reference =>
    simp only [resume, keepsState, Bool.false_eq_true, iff_false, not_and]
    intro hstate hwait
    rw [hp hstate.symm] at hwait
    cases hwait

private theorem resume_recovery (resumption : Resumption) (p : Progress) :
    (resumption.resume p).recovery = resumption.reference.or p.recovery := by
  cases resumption <;> rfl

end Resumption

private theorem performed_resumption {resumption : Resumption} (hrecord : e.record id = some record)
    (h : Performed id e (resumption.acts cfg id) e') :
    ∃ op, e'.record id = some op ∧ progress op = resumption.resume (progress record) ∧
      op.owner = record.owner ∧
      (record.state.terminal = false → op.state.terminal = false) := by
  cases resumption with
  | recover =>
    cases h with
    | done hsame => exact ⟨record, hsame.trans hrecord, rfl, rfl, fun h => h⟩
  | attach reference =>
    cases h with
    | next hsame hrun hrest =>
      cases hrest with
      | done hdone =>
        obtain ⟨op, hop, -, hnext⟩ := run_attach_ok hrun
        cases hop.symm.trans (hsame.trans hrecord)
        exact ⟨_, hdone.trans hnext, rfl, rfl, fun _ => rfl⟩
  | lost failure reference =>
    cases h with
    | next hsame hrun hrest =>
      cases hrest with
      | next hsame' hrun' hrest =>
        cases hrest with
        | done hdone =>
          obtain ⟨op, hop, hopen, hnext⟩ := run_attach_ok hrun'
          have hlost := run_streamEnded_ok (hsame.trans hrecord) hrun
          cases hop.symm.trans (hsame'.trans hlost)
          cases hstate : record.state.terminal with
          | true => simp [hstate] at hopen
          | false =>
            simp only [hstate, Bool.false_eq_true, if_false] at hnext
            exact ⟨_, hdone.trans hnext, rfl, rfl, fun _ => rfl⟩

private theorem performed_new {stream : List OperationEvent} (hstream : UpdateStream stream)
    (hreports : ∀ event ∈ stream, (updateState event.update).isSome = true)
    (hrecord : e.record id = some record) (hhost : record.owner.host = true)
    (hopen : stream ≠ [] → record.state.terminal = false)
    (hnew : ∀ event ∈ stream, newer OperationEvent.sequence record.lastSequence event = true)
    (h : Performed id e (stream.map (deliver cfg id)) e') :
    ∃ op, e'.record id = some op ∧ progress op = (progress record).described stream ∧
      op.owner = record.owner ∧
      ((∀ event ∈ stream, isFinal event.update = false) → record.state.terminal = false →
        op.state.terminal = false) := by
  induction stream generalizing e record with
  | nil =>
    cases h with
    | done hsame => exact ⟨record, hsame.trans hrecord, rfl, rfl, fun _ h => h⟩
  | cons event rest ih =>
    cases h with
    | next hsame hrun hrest =>
      obtain ⟨hreport, hreports⟩ := List.forall_mem_cons.mp hreports
      obtain ⟨op, hop, hprogress, howner, hstate⟩ := run_deliver_new (hsame.trans hrecord)
        (hopen (by simp)) hhost (hnew event (by simp)) hreport hrun
      have hsequence : op.lastSequence = some event.sequence :=
        congrArg Progress.lastSequence hprogress
      have hlater : ∀ b ∈ rest, newer OperationEvent.sequence op.lastSequence b = true := by
        intro b hb
        simpa [hsequence, newer] using hstream.increasing.head_lt hb
      obtain ⟨-, hrestStream, hbefore⟩ :=
        UpdateStream.split (show UpdateStream ([event] ++ rest) from hstream)
      obtain ⟨op', hop', hprogress', howner', hstate'⟩ := ih hrestStream hreports hop
        (howner ▸ hhost) (fun hne => hstate (hbefore hne event (by simp))) hlater hrest
      refine ⟨op', hop', ?_, howner'.trans howner, fun hall _ => ?_⟩
      · rw [hprogress', hprogress]
        rfl
      · obtain ⟨hevent, hall⟩ := List.forall_mem_cons.mp hall
        exact hstate' hall (hstate hevent)

private theorem performed_replay {stream : List OperationEvent}
    (hreports : ∀ event ∈ stream, (updateState event.update).isSome = true)
    (hrecord : e.record id = some record)
    (hreplay : ∀ event ∈ stream, delivery record event = .replay)
    (h : Performed id e (stream.map (deliver cfg id)) e') : e'.record id = some record := by
  induction stream generalizing e with
  | nil =>
    cases h with
    | done hsame => exact hsame.trans hrecord
  | cons event rest ih =>
    cases h with
    | next hsame hrun hrest =>
      obtain ⟨hreport, hreports⟩ := List.forall_mem_cons.mp hreports
      obtain ⟨hevent, hreplay⟩ := List.forall_mem_cons.mp hreplay
      rw [run_deliver_replay (hsame.trans hrecord) hevent hreport] at hrun
      cases hrun
      exact ih hreports (hsame.trans hrecord) hreplay hrest

private theorem described_lastUpdate (p : Progress) (stream : List OperationEvent) :
    (p.described stream).lastUpdate =
      (stream.getLast?.map OperationEvent.update).or p.lastUpdate := by
  induction stream generalizing p with
  | nil => rfl
  | cons event rest ih =>
    have ih := ih (p.tell event)
    rw [List.getLast?_cons]
    cases hlast : rest.getLast? with
    | none =>
      rw [hlast] at ih
      exact ih
    | some last =>
      rw [hlast] at ih
      exact ih

private theorem delivery_of_described {p : Progress} {stream : List OperationEvent}
    (hstream : Increasing OperationEvent.sequence stream)
    (hcursor : record.lastSequence = (p.described stream).lastSequence ∧
      record.lastUpdate = (p.described stream).lastUpdate) :
    ∀ event ∈ stream, delivery record event = .replay := by
  intro event hmem
  rw [described_lastSequence, described_lastUpdate] at hcursor
  rcases hstream.seen p.lastSequence hmem with hlast | ⟨last, hlast, hlt⟩
  · simp [delivery, hcursor, cursorAfter, hlast]
  · simp [delivery, hcursor, hlast, Nat.ne_of_lt hlt, hlt]

private theorem described_wait {p : Progress} {stream : List OperationEvent}
    (hreports : ∀ event ∈ stream, (updateState event.update).isSome = true)
    (hp : p.state = .running → p.wait = none)
    (h : (p.described stream).state = .running) : (p.described stream).wait = none := by
  induction stream generalizing p with
  | nil => exact hp h
  | cons event rest ih =>
    obtain ⟨hreport, hreports⟩ := List.forall_mem_cons.mp hreports
    refine ih hreports (fun hrunning => ?_) h
    obtain ⟨sequence, update⟩ := event
    cases update with
    | finished outcome => rfl
    | running => rfl
    | context => simp [updateState] at hreport
    | progress => simp [updateState] at hreport
    | waiting => simp [Progress.tell, updateState] at hrunning
    | unknown => simp [Progress.tell, updateState] at hrunning

/-- What is left of the stream says the state and the recovery data anew, or they stand as
the interrupted stream has them. -/
def Restored (saved : Progress) (rest : List OperationEvent) (resumption : Resumption)
    (returned : OperationHandle) : Prop :=
  (rest ≠ [] ∨ resumption.keepsState saved.state = true) ∧
    (namesRecovery rest = true ∨
      returned.recovery.or (resumption.reference.or saved.recovery) = saved.recovery)

instance (saved : Progress) (rest : List OperationEvent) (resumption : Resumption)
    (returned : OperationHandle) : Decidable (Restored saved rest resumption returned) :=
  inferInstanceAs (Decidable (_ ∧ _))

/-- Deliver a part of the stream, interrupt it, and deliver the whole stream to the
recovered worker's record. -/
def interrupted (cfg : Config) (id : OperationId) (before rest : List OperationEvent)
    (resumption : Resumption) (returned : OperationHandle) : List (Handler Unit) :=
  before.map (deliver cfg id) ++ (resumption.acts cfg id ++
    handle cfg (.started id (.ok (.active returned))) ::
      (before ++ rest).map (deliver cfg id))

/-- The record says what the whole stream describes exactly when the interruption did not
overwrite it for good. -/
theorem replay_restores_iff {before rest : List OperationEvent}
    (hstream : UpdateStream (before ++ rest)) {resumption : Resumption}
    {returned : OperationHandle} {recovery : Option RecoveryRef}
    (hrecord : e.record id = some record) (hhost : record.owner.host = true)
    (hstarted : progress record = ⟨.running, none, recovery, none, none⟩)
    (h : Performed id e (interrupted cfg id before rest resumption returned) e') :
    (e'.record id).map progress = some ((progress record).described (before ++ rest)) ↔
      Restored ((progress record).described before) rest resumption returned := by
  obtain ⟨hbefore, hrest, hopen⟩ := hstream.split
  obtain ⟨e₁, hdelivered, h⟩ := h.split
  obtain ⟨e₂, hresumed, h⟩ := h.split
  rw [List.map_append] at h
  cases h with
  | next hsame hrun h =>
    obtain ⟨e₄, hreplayed, hcontinued⟩ := h.split
    have hstate : record.state.terminal = false := by
      rw [show record.state = .running from congrArg Progress.state hstarted]
      rfl
    have hcursor : record.lastSequence = none := congrArg Progress.lastSequence hstarted
    -- The prefix makes the progress it describes.
    obtain ⟨op₁, hop₁, hprogress₁, howner₁, hstate₁⟩ := performed_new hbefore hbefore.reports
      hrecord hhost (fun _ => hstate) (by simp [hcursor, newer]) hdelivered
    obtain ⟨op₂, hop₂, hprogress₂, howner₂, hstate₂⟩ := performed_resumption hop₁ hresumed
    have hop₃ := run_installed_ok (hsame.trans hop₂) hrun
    -- Neither the resumption nor the recovered worker moves the cursor.
    have hkept : op₂.lastSequence = op₁.lastSequence ∧ op₂.lastUpdate = op₁.lastUpdate := by
      have hsequence := congrArg Progress.lastSequence hprogress₂
      have hupdate := congrArg Progress.lastUpdate hprogress₂
      cases resumption <;> exact ⟨hsequence, hupdate⟩
    have hsaved : op₁.lastSequence = ((progress record).described before).lastSequence ∧
        op₁.lastUpdate = ((progress record).described before).lastUpdate :=
      ⟨congrArg Progress.lastSequence hprogress₁, congrArg Progress.lastUpdate hprogress₁⟩
    have hop₄ := performed_replay hbefore.reports hop₃
      (delivery_of_described hbefore.increasing
        ⟨hkept.1.trans hsaved.1, hkept.2.trans hsaved.2⟩) hreplayed
    have hnew : ∀ event ∈ rest, newer OperationEvent.sequence op₂.lastSequence event = true := by
      rw [hkept.1, hsaved.1, described_lastSequence]
      refine hstream.increasing.newer_of_append fun event _ => ?_
      simp [progress, hcursor, newer]
    obtain ⟨op₅, hop₅, hprogress₅, -, -⟩ := performed_new hrest hrest.reports hop₄
      (by simpa [howner₂, howner₁] using hhost)
      (fun hne => hstate₂ (hstate₁ (hopen hne) hstate)) hnew hcontinued
    rw [hop₅, Option.map_some, Option.some.injEq, hprogress₅, described_append, ← hprogress₁,
      described_eq_iff hrest.reports hkept]
    have hwait : op₁.state = .running → op₁.wait = none := by
      intro hrunning
      have hsaved := described_wait (p := progress record) hbefore.reports
        (fun _ => congrArg Progress.wait hstarted)
      rw [← hprogress₁] at hsaved
      exact hsaved hrunning
    unfold Restored
    refine and_congr (or_congr_right ?_) (or_congr_right ?_)
    · rw [← resumption.resume_eq_iff hwait, ← hprogress₂]
      rfl
    · rw [← resumption.resume_recovery, ← hprogress₂]
      rfl

private theorem performed_of_run {acts : List (Handler Unit)} {e : Engine}
    (h : (run (Program.forEach (fun act => act) acts) e).1 = .ok ()) :
    Performed id e acts (run (Program.forEach (fun act => act) acts) e).2 := by
  induction acts generalizing e with
  | nil => exact .done rfl
  | cons act acts ih =>
    rw [run_forEach_cons] at h ⊢
    rcases hact : run act e with ⟨_ | _, e₁⟩
    · simp [hact] at h
    · simp only [hact] at h ⊢
      exact .next rfl hact (ih h)

def sampleWaiting : List OperationEvent :=
  [⟨0, .waiting (.string "which color?") (some sampleReference)⟩]

/-- A tool of the sample host has been started and has returned its handle. -/
def sampleWorking : Engine :=
  sampleEngine (sampleOpening (sampleOptions sampleLimits) ++ sampleStarted "look" ++
    sampleReport 2 (.returned (.ok (.active ⟨none⟩)))) (by decide +kernel)

def sampleRecord : OperationRecord :=
  (sampleWorking.record sampleOperation).get (by decide +kernel)

/-- The sample operation after its stream was delivered, interrupted and replayed. -/
def sampleReplayed (rest : List OperationEvent) : Except Error Unit × Engine :=
  run (Program.forEach (fun act => act)
    (interrupted sampleConfig sampleOperation sampleWaiting rest (.lost none sampleReference)
      ⟨none⟩)) sampleWorking

private theorem sampleWorking_record : sampleWorking.record sampleOperation = some sampleRecord :=
  (Option.some_get _).symm

private theorem sampleReplayed_performed {rest : List OperationEvent}
    (h : (sampleReplayed rest).1 = .ok ()) :
    Performed sampleOperation sampleWorking
      (interrupted sampleConfig sampleOperation sampleWaiting rest (.lost none sampleReference)
        ⟨none⟩) (sampleReplayed rest).2 :=
  performed_of_run h

/-- The replayed operation runs on with a stale note, though its stream says it waits. -/
theorem replay_loses_prompt :
    ¬ ∀ (cfg : Config) (id : OperationId) (e e' : Engine) (record : OperationRecord)
      (before rest : List OperationEvent) (resumption : Resumption) (returned : OperationHandle)
      (recovery : Option RecoveryRef), UpdateStream (before ++ rest) →
      e.record id = some record → record.owner.host = true →
      progress record = ⟨.running, none, recovery, none, none⟩ →
      Performed id e (interrupted cfg id before rest resumption returned) e' →
      (e'.record id).map progress = some ((progress record).described (before ++ rest)) := by
  intro h
  have hrestored := h sampleConfig sampleOperation sampleWorking (sampleReplayed []).2
    sampleRecord sampleWaiting [] (.lost none sampleReference) ⟨none⟩ none
    (.report (by decide) (by decide) .nil (by simp)) sampleWorking_record
    (by decide +kernel) (by decide +kernel) (sampleReplayed_performed (by decide +kernel))
  exact absurd hrestored (by decide +kernel)

/-- One more update repairs the record. -/
theorem replay_restores_continued :
    ((sampleReplayed [⟨1, .running none⟩]).2.record sampleOperation).map progress =
      some ((progress sampleRecord).described (sampleWaiting ++ [⟨1, .running none⟩])) := by
  have hstream : UpdateStream (sampleWaiting ++ [⟨1, .running none⟩]) :=
    .report (by decide) (by decide) (.report (by decide) (by decide) .nil (by simp)) (by simp)
  have hstarted : progress sampleRecord = ⟨.running, none, none, none, none⟩ := by decide +kernel
  refine (replay_restores_iff hstream sampleWorking_record (by decide +kernel) hstarted
    (sampleReplayed_performed (by decide +kernel))).mpr ?_
  rw [hstarted]
  decide

end Zhir.Kernel
