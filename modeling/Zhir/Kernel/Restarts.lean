import Zhir.Kernel.Starts

/-!
Operations an execution finds started: attached to, or given up as unknown.
-/

set_option autoImplicit false
set_option relaxedAutoImplicit false

namespace Zhir.Kernel

open Zhir.Core
open Zhir.Library (Program)
open Zhir.Library.Program
open Std (ExtTreeMap)

variable {cfg : Config} {e e' : Engine}

def Ongoing (record : OperationRecord) : Prop :=
  record.owner.host = true ∧
    (record.state = .running ∨ record.state = .waiting ∨ record.state = .cancelling)

/-- The record is as it was with a task to recover its worker, or it is unknown. -/
def Attended (record : OperationRecord) (e : Engine) : Prop :=
  (e.current.active.operations[record.id]? = some record ∧ .recover record false ∈ e.tasks) ∨
    ∃ reason, e.current.active.operations[record.id]? = some (lost record reason)

/-- The tasks are kept, and so are all records but one. -/
structure Spares (id : OperationId) (e e' : Engine) : Prop where
  tasks : ∀ task ∈ e.tasks, task ∈ e'.tasks
  records : ∀ other, other ≠ id →
    e'.current.active.operations[other]? = e.current.active.operations[other]?

private theorem Attended.spared {record : OperationRecord} {id : OperationId}
    (h : Attended record e)
    (hspares : Spares id e e') (hne : record.id ≠ id) : Attended record e' := by
  unfold Attended
  rw [hspares.records _ hne]
  rcases h with ⟨hrecord, htask⟩ | hlost
  · exact .inl ⟨hrecord, hspares.tasks _ htask⟩
  · exact .inr hlost

private theorem run_unknown_attends {record : OperationRecord} {reason : String} {u : Unit}
    (hrecord : e.current.active.operations[record.id]? = some record)
    (h : Program.run (unknown cfg record.id reason) e = (.ok u, e')) :
    Attended record e' ∧ ∀ task ∈ e.tasks, task ∈ e'.tasks := by
  obtain ⟨op, hop, -, rfl⟩ := run_localOperationUpdate_ok h
  rw [hrecord] at hop
  cases hop
  exact ⟨.inr ⟨reason, getElem?_putOperation _ _ _⟩, fun task htask => htask⟩

private theorem launch_attends {record : OperationRecord}
    (hrecord : e.current.active.operations[record.id]? = some record) :
    Attended record (e.launch record.id (.recover record false)) ∧
      ∀ task ∈ e.tasks, task ∈ (e.launch record.id (.recover record false)).tasks :=
  ⟨.inl ⟨hrecord, List.mem_append_right _ (List.mem_singleton_self _)⟩,
    fun _ htask => List.mem_append_left _ htask⟩

private theorem run_recoverOperation_attends {record : OperationRecord} {u : Unit}
    (hrecord : e.current.active.operations[record.id]? = some record)
    (h : Program.run (recoverOperation cfg record) e = (.ok u, e')) :
    (record.owner.host = true → Attended record e') ∧ Spares record.id e e' := by
  have hrecords := run_recoverOperation_ok h
  have hcollect : Attended record e' ∧ (∀ task ∈ e.tasks, task ∈ e'.tasks) →
      (record.owner.host = true → Attended record e') ∧ Spares record.id e e' :=
    fun hboth => ⟨fun _ => hboth.1, ⟨hboth.2, hrecords⟩⟩
  unfold recoverOperation at h
  split at h
  · rw [run_ite] at h
    split at h
    · cases h
      exact hcollect (launch_attends hrecord)
    · exact hcollect (run_unknown_attends hrecord h)
  · obtain ⟨_, _, hread, h⟩ := run_bind_ok h
    cases hread
    obtain ⟨call, -, h⟩ := run_lift_bind_ok h
    obtain ⟨bound, e₁, hbound, h⟩ := run_bind_ok h
    cases hbound
    split at h
    · obtain ⟨_, e₂, hcheck, h⟩ := run_bind_ok h
      simp only [Program.run, check] at hcheck
      split at hcheck
      · cases hcheck
        cases h
        exact hcollect (launch_attends hrecord)
      · cases hcheck
    · exact hcollect (run_unknown_attends (e := e.tick) hrecord h)
  · rename_i provider howner
    cases h
    refine ⟨fun hhost => ?_, ⟨fun _ htask => htask, hrecords⟩⟩
    rw [howner] at hhost
    cases hhost

private theorem run_forEach_attends {rest : List OperationRecord} {u : Unit}
    (hrest : Recovering rest e)
    (h : Program.run (Program.forEach (recoverOperation cfg) rest) e = (.ok u, e')) :
    (∀ r ∈ rest, r.owner.host = true → Attended r e') ∧
      ∀ other, other.id ∉ rest.map OperationRecord.id → Attended other e → Attended other e' := by
  induction rest generalizing e with
  | nil =>
    cases h
    exact ⟨fun r hr => absurd hr List.not_mem_nil, fun _ _ hattended => hattended⟩
  | cons r rest ih =>
    obtain ⟨_, e₁, hfirst, hlater⟩ := run_bind_ok h
    obtain ⟨hrecord, -⟩ := hrest.records r List.mem_cons_self
    obtain ⟨hfresh, hdistinct⟩ := List.nodup_cons.mp hrest.distinct
    obtain ⟨hattended, hspares⟩ := run_recoverOperation_attends hrecord hfirst
    have hnext : Recovering rest e₁ := by
      refine ⟨hdistinct, fun other hother => ?_⟩
      have hne : other.id ≠ r.id := fun heq => hfresh (heq ▸ List.mem_map_of_mem hother)
      rw [hspares.records _ hne]
      exact hrest.records other (List.mem_cons_of_mem _ hother)
    obtain ⟨hrecovered, hkept⟩ := ih hnext hlater
    refine ⟨fun other hother hhost => ?_, fun other hother hattends => ?_⟩
    · rcases List.mem_cons.mp hother with rfl | hother
      · exact hkept _ hfresh (hattended hhost)
      · exact hrecovered other hother hhost
    · rw [List.map_cons, List.mem_cons, not_or] at hother
      exact hkept other hother.2 (hattends.spared hspares hother.1)

private theorem run_recoverOperations_attends {u : Unit} (hvalid : e.current.Valid)
    (h : Program.run (recoverOperations cfg) e = (.ok u, e')) {id : OperationId}
    {record : OperationRecord} (hrecord : e.current.active.operations[id]? = some record)
    (hongoing : Ongoing record) : Attended record e' := by
  obtain ⟨_, _, hread, h⟩ := run_bind_ok h
  cases hread
  refine (run_forEach_attends (recovering_of_valid hvalid) h).1 record ?_ hongoing.1
  refine List.mem_filter.mpr ⟨List.mem_map.mpr ⟨(id, record), ?_, rfl⟩, ?_⟩
  · exact ExtTreeMap.mem_toList_iff_getElem?_eq_some.mpr hrecord
  · rcases hongoing.2 with hstate | hstate | hstate <;> simp [hstate]

private theorem run_suspend_records {reason : WaitReason} {u : Unit}
    (h : Program.run (suspend cfg reason) e = (.ok u, e')) :
    e'.current.active.operations = e.current.active.operations := by
  obtain ⟨_, _, hread, h⟩ := run_bind_ok h
  cases hread
  obtain ⟨rfl, -⟩ := run_commit_ok h
  rfl

private theorem run_startMediaOutput_current {session : ModelSession} {u : Unit}
    (h : Program.run (startMediaOutput cfg session) e = (.ok u, e')) : e'.current = e.current := by
  unfold startMediaOutput Program.when at h
  split at h
  · obtain ⟨-, h⟩ := run_require_bind_ok h
    cases h
    rfl
  · cases h
    rfl

private theorem run_finishOpening_records {opening : SessionOpen} {result : Result ModelSession}
    {u : Unit} (h : Program.run (finishOpening cfg opening result) e = (.ok u, e')) :
    e'.current.active.operations = e.current.active.operations := by
  obtain ⟨_, _, hread, h⟩ := run_bind_ok h
  cases hread
  cases result with
  | ok session =>
    obtain ⟨_, _, hread, h⟩ := run_bind_ok h
    cases hread
    rw [run_ite] at h
    split at h
    · exact run_suspend_records h
    · obtain ⟨-, h⟩ := run_require_bind_ok h
      obtain ⟨-, h⟩ := run_require_bind_ok h
      obtain ⟨negotiated, -, h⟩ := run_lift_bind_ok h
      obtain ⟨-, h⟩ := run_require_bind_ok h
      obtain ⟨_, e₁, hid, h⟩ := run_bind_ok h
      cases hid
      obtain ⟨_, e₂, hcommit, h⟩ := run_bind_ok h
      obtain ⟨rfl, -⟩ := run_commit_ok hcommit
      obtain ⟨_, e₃, hmodify, h⟩ := run_bind_ok h
      cases hmodify
      rw [run_startMediaOutput_current h]
      rfl
  | error error =>
    rw [run_ite] at h
    split at h
    · exact run_suspend_records h
    · cases error with
      | uncertain _ => exact run_suspend_records h
      | _ => cases h

/-- An execution that gets to its main loop has attended to all it found ongoing. -/
def AttendsOngoing (cfg : Config) (s : System) : Prop :=
  ∀ (x : Execution) (session : SessionOpen) (result : Result ModelSession) (e' : Engine),
    s = .live x → x.stage = .opening session →
      Program.run (sessionOpened cfg session result) x.engine = (.ok .pass, e') →
        ∀ (id : OperationId) (record : OperationRecord),
          x.engine.current.active.operations[id]? = some record → Ongoing record →
            Attended record e'

private theorem run_sessionOpened_attends {session : SessionOpen} {result : Result ModelSession}
    (hunbound : e.Unbound) (hvalid : e.current.Valid)
    (h : Program.run (sessionOpened cfg session result) e = (.ok .pass, e')) {id : OperationId}
    {record : OperationRecord} (hrecord : e.current.active.operations[id]? = some record)
    (hongoing : Ongoing record) : Attended record e' := by
  obtain ⟨_, e₁, hfinish, h⟩ := run_bind_ok h
  have hmoves : Moves cfg .loop e e₁ :=
    (steps_finishOpening (fault_failing cfg .loop) hunbound session result).of_ok hfinish
  have hrecord₁ : e₁.current.active.operations[id]? = some record := by
    rw [run_finishOpening_records hfinish]
    exact hrecord
  obtain ⟨_, _, hread, h⟩ := run_bind_ok h
  cases hread
  rw [run_ite] at h
  split at h
  · obtain ⟨_, e₂, hrecover, h⟩ := run_bind_ok h
    cases h
    exact run_recoverOperations_attends (hmoves.valid hvalid) hrecover hrecord₁ hongoing
  · cases h

private theorem attends_ongoing {s : System} (hs : Reachable cfg s) : AttendsOngoing cfg s := by
  intro x session result e' hlive hstage hrun id record hrecord hongoing
  obtain ⟨p, -, hshows⟩ := reached_of_reachable hs
  rw [hlive] at hshows
  cases hshows with
  | opening hunbound hvalid =>
    exact run_sessionOpened_attends hunbound hvalid hrun hrecord hongoing
  | _ => cases hstage

private theorem started_once {s : System} (hs : Reachable cfg s) : StartedOnce s.world.trace := by
  have hworld : ∀ p, Reached cfg p → StartedOnce p.world.trace := by
    intro p hp
    have hstarts := hp.starts
    cases p with
    | idle w => exact hstarts.once
    | live resolutions e => exact hstarts.1.once
    | ended e => exact hstarts.1.once
  exact reachable_world (I := fun w => StartedOnce w.trace) hworld hs

/-- Every start is the only one of its operation in the whole life of the run, comes after a
durable checkpoint with the record running, and no execution has taken up the record in any
state but queued before it. An execution recovers what it finds ongoing, or makes it unknown. -/
theorem operations_started_once {s : System} (hs : Reachable cfg s) :
    StartedOnce s.world.trace ∧ AttendsOngoing cfg s :=
  ⟨started_once hs, attends_ongoing hs⟩

def startedIds (trace : List Effect) : List OperationId :=
  trace.filterMap fun
    | .started id => some id
    | _ => none

/-- The run that is taken up again, while its session is opened. -/
def sampleOpeningEngine : Engine := sampleEngine sampleReopening (by decide +kernel)

def Stage.session? : Stage → Option SessionOpen
  | .opening session => some session
  | _ => none

def sampleRequested : SessionOpen :=
  ((sampleRun sampleReopening).stage.bind Stage.session?).get (by decide +kernel)

def sampleAttending : Except Error Stage × Engine :=
  Program.run (sessionOpened sampleConfig sampleRequested
    (.ok (sampleSession sampleCapabilities))) sampleOpeningEngine

private theorem sampleReopening_live :
    sampleRun sampleReopening = .live ⟨sampleOpeningEngine, .opening sampleRequested⟩ := by
  have hstage : (sampleRun sampleReopening).stage.bind Stage.session? = some sampleRequested :=
    (Option.some_get _).symm
  have hlive : (sampleRun sampleReopening).execution.isSome = true := by decide +kernel
  change _ = System.live ⟨((sampleRun sampleReopening).execution.get hlive).engine, _⟩
  generalize sampleRun sampleReopening = s at hstage hlive
  cases s with
  | idle w => cases hlive
  | live x =>
    obtain ⟨engine, stage⟩ := x
    cases stage with
    | opening session =>
      cases hstage
      rfl
    | _ => cases hstage

/-- The operations of two tool calls are each started once, and both are recovered when another
execution finds them running. -/
theorem sample_started_once :
    startedIds (sampleRun sampleReopening).world.trace =
        [sampleOtherOperation, sampleOperation] ∧
      StartedOnce (sampleRun sampleReopening).world.trace ∧
      ∀ id ∈ [sampleOtherOperation, sampleOperation], ∃ record,
        sampleOpeningEngine.current.active.operations[id]? = some record ∧
          Attended record sampleAttending.2 := by
  have hs : Reachable sampleConfig (sampleRun sampleReopening) := ⟨_, rfl⟩
  obtain ⟨honce, hattends⟩ := operations_started_once hs
  refine ⟨by decide +kernel, honce, ?_⟩
  have hfound : ∀ id ∈ [sampleOtherOperation, sampleOperation],
      (sampleOpeningEngine.current.active.operations[id]?).any (fun record =>
        record.owner.host && decide (record.state = .running)) = true := by decide +kernel
  have hrun : sampleAttending = (.ok .pass, sampleAttending.2) := by
    have hpass : sampleAttending.1.toOption.any Stage.isPass = true := by decide +kernel
    refine Prod.ext ?_ rfl
    revert hpass
    rcases sampleAttending.1 with e | stage
    · exact fun h => by cases h
    · cases stage <;> first | exact fun _ => rfl | exact fun h => by cases h
  intro id hid
  obtain ⟨record, hrecord, hrunning⟩ := (Option.any_eq_true _ _).mp (hfound id hid)
  simp only [Bool.and_eq_true, decide_eq_true_eq] at hrunning
  exact ⟨record, hrecord, hattends _ _ _ _ sampleReopening_live rfl hrun id record hrecord
    ⟨hrunning.1, .inl hrunning.2⟩⟩

end Zhir.Kernel
