import Zhir.Kernel.Runs
import Zhir.Kernel.StageLaws

/-!
The checkpoints of a run. Every move either leaves the durable state alone or commits one
of a few kinds of checkpoint; what all of these keep holds of every durable checkpoint.
-/

set_option autoImplicit false
set_option relaxedAutoImplicit false

namespace Zhir.Kernel

open Zhir.Core
open Zhir.Library (Program)
open Zhir.Library.Program
open Relation (ReflTransGen)

variable (cfg : Config)

/-- Checkpoints an execution commits from an engine state, before they are stamped, and the
facts recorded with them. -/
inductive Commits (e : Engine) : Checkpoint → Fact → Prop
  | change {cause : Cause} {w : World} {next : Checkpoint} {fact : Fact} {delta : HistoryDelta}
      (h : Change cfg cause e w next fact delta) : Commits e next fact
  | admitted {id : OperationId} {record : OperationRecord}
      (hrecord : e.current.active.operations[id]? = some record)
      (hqueued : record.state = .queued) :
      Commits e (stageAdmitted id record e.current) (.operation id .running)
  | delegated {id : OperationId} {record : OperationRecord}
      (hrecord : e.current.active.operations[id]? = some record)
      (hqueued : record.state = .queued) :
      Commits e (putOperation id { record with state := .running, wait := none } e.current)
        (.operation id .running)
  | bound {control : SessionControl} {negotiated : NegotiatedProfile} {commandId : String}
      (hunbound : e.sessionControl = none)
      (hcapabilities : capabilitiesChanged control e.current = false) :
      Commits e (stageOpened control negotiated e.current) (.command commandId)
  | batch {n m sequence : Nat} {events : List SessionEvent} {next : Checkpoint} {work : Work}
      (hhandling : e.handling = some work) (hstaged : Staged cfg e n e.current events m next)
      (hbatched : Batched cfg e n e.current events next) :
      Commits e next (.session e.current.active.session.id sequence)

inductive Writes (e e' : Engine) : Prop
  | quiet (hcurrent : e'.current = e.current) (hhead : e'.world.head = e.world.head)
      (hdurable : e'.world.durable = e.world.durable)
  | commit {w : World} {next : Checkpoint} {fact : Fact} {delta : HistoryDelta}
      (hw : e.world.Counted w) (hcommits : Commits cfg e next fact)
      (haccepts : Accepts cfg w e.current next fact delta)
      (hcurrent : e'.current = stamp cfg w e.current next fact)
      (hhead : e'.world.head = some e'.current)
      (hdurable : e'.world.durable = e'.current :: e.world.durable)

variable {cfg}

theorem World.Counted.durable {w w' : World} (h : w.Counted w') : w'.durable = w.durable := by
  simp only [World.durable, h.trace]

theorem saved_durable {w : World} {e : Engine} (hw : e.world.Counted w) (next : Checkpoint)
    (fact : Fact) :
    (e.saved cfg w next fact).world.durable =
      stamp cfg w e.current next fact :: e.world.durable := by
  change stamp cfg w e.current next fact :: w.durable = _
  rw [hw.durable]

variable {e e' : Engine} {cause : Cause}

/-- A commit that lands, whatever else the move does to the engine. -/
theorem Writes.saved {w : World} {next : Checkpoint} {fact : Fact} {delta : HistoryDelta}
    (hw : e.world.Counted w) (hcommits : Commits cfg e next fact)
    (haccepts : Accepts cfg w e.current next fact delta)
    (hcurrent : e'.current = (e.saved cfg w next fact).current)
    (hworld : (e.saved cfg w next fact).world.Counted e'.world) : Writes cfg e e' := by
  refine .commit hw hcommits haccepts hcurrent ?_ ?_
  · rw [hworld.head, hcurrent]
    rfl
  · rw [hworld.durable, hcurrent]
    exact saved_durable hw next fact

theorem Move.writes (h : Move cfg cause e e') : Writes cfg e e' := by
  cases h with
  | count hw => exact .quiet rfl hw.head hw.durable
  | save hw hchange haccepts => exact .saved hw (.change hchange) haccepts rfl (.refl _)
  | start hw hrecord hqueued _ _ haccepts hw' =>
    exact .saved hw (.admitted hrecord hqueued) haccepts rfl hw'
  | delegate hw hrecord _ hqueued _ _ _ haccepts =>
    exact .saved hw (.delegated hrecord hqueued) haccepts rfl (.refl _)
  | bind hw hunbound hcapabilities haccepts =>
    exact .saved hw (.bound hunbound hcapabilities) haccepts rfl (.refl _)
  | batch hw hstaged haccepts hbatched hfact hhandling =>
    obtain ⟨sequence, rfl⟩ := hfact
    exact .saved hw (.batch hhandling hstaged hbatched) haccepts rfl (.refl _)
  | @requestCancel id =>
    rw [Engine.requestCancel_eq]
    refine .quiet rfl rfl ?_
    unfold World.durable
    split <;> rfl
  | _ => exact .quiet rfl rfl rfl

theorem Turn.writes (h : Turn cfg cause e e') : Writes cfg e e' := by
  cases h with
  | move h => exact h.writes
  | take _ _ => exact .quiet rfl rfl rfl
  | drop _ _ => exact .quiet rfl rfl rfl

theorem settle_writes (cfg : Config) (error : Error) (e : Engine) :
    ∃ w, e.world.Counted w ∧
      ((Program.run (settle cfg error) e).2 = e.inWorld w ∨
        Accepts cfg e.world e.current (stageSettled (settledState error).1 e.current)
            (.control (settledState error).2) .unchanged ∧
          (Program.run (settle cfg error) e).2.world =
            (e.saved cfg e.world (stageSettled (settledState error).1 e.current)
              (.control (settledState error).2)).world) := by
  unfold settle
  split
  · exact ⟨e.world, .refl _, .inl rfl⟩
  · change ∃ w, _ ∧ ((Program.run (commit cfg _ _ _) e).2 = _ ∨ _ ∧
      (Program.run (commit cfg _ _ _) e).2.world = _)
    rcases run_commit cfg e (stageSettled (settledState error).1 e.current)
      (.control (settledState error).2) .unchanged with
      ⟨error', w', hw', hr⟩ | ⟨haccepts, hr | hr⟩
    · exact ⟨w', hw', .inl (by rw [hr])⟩
    · exact ⟨e.world, .refl _, .inr ⟨haccepts, by rw [hr]⟩⟩
    · exact ⟨e.world, .refl _, .inr ⟨haccepts, by rw [hr]⟩⟩

variable (cfg) in
/-- At most one commit, and the checkpoint it leads to. -/
inductive Adds (e : Engine) : Checkpoint → List Checkpoint → Prop
  | none : Adds e e.current []
  | one {w : World} {next : Checkpoint} {fact : Fact} {delta : HistoryDelta}
      (hw : e.world.Counted w) (hcommits : Commits cfg e next fact)
      (haccepts : Accepts cfg w e.current next fact delta) :
      Adds e (stamp cfg w e.current next fact) [stamp cfg w e.current next fact]

variable (cfg) in
/-- At most the settlement of a failed execution. -/
inductive SettlesTo (error : Error) (c : Checkpoint) : List Checkpoint → Prop
  | none : SettlesTo error c []
  | one {w : World}
      (haccepts : Accepts cfg w c (stageSettled (settledState error).1 c)
        (.control (settledState error).2) .unchanged) :
      SettlesTo error c [stamp cfg w c (stageSettled (settledState error).1 c)
        (.control (settledState error).2)]

theorem fail_durable {error : Error} (h : Fault cfg cause e error e') :
    ∃ c added settled, Adds cfg e c added ∧ SettlesTo cfg error c settled ∧
      (Program.run (settle cfg error) e').2.world.durable =
        settled ++ added ++ e.world.durable := by
  obtain ⟨w, hw, hsettled⟩ := settle_writes cfg error e'
  have hsettle : ∀ c added, e'.current = c → e'.world.durable = added ++ e.world.durable →
      ∃ settled, SettlesTo cfg error c settled ∧
        (Program.run (settle cfg error) e').2.world.durable =
          settled ++ added ++ e.world.durable := by
    intro c added hcurrent hdurable
    rcases hsettled with hsame | ⟨haccepts, hsettled⟩
    · refine ⟨[], .none, ?_⟩
      rw [hsame]
      exact hw.durable.trans hdurable
    · rw [hcurrent] at haccepts hsettled
      refine ⟨[_], .one haccepts, ?_⟩
      rw [hsettled, List.append_assoc, ← hdurable]
      rw [← hcurrent]
      exact saved_durable (.refl _) _ _
  cases h with
  | stopped hcurrent _ hworld =>
    obtain ⟨settled, hsettles, hdurable⟩ := hsettle e.current [] hcurrent hworld.durable
    exact ⟨_, [], settled, .none, hsettles, hdurable⟩
  | unconfirmed hmove hcurrent _ hworld =>
    have hinfra : (Program.run (settle cfg commitTimeout) e').2 = e' := rfl
    rw [hinfra, hworld]
    cases hmove.writes with
    | quiet _ _ hdurable => exact ⟨_, [], [], .none, .none, hdurable⟩
    | commit hw' hcommits haccepts hcurrent' _ hdurable =>
      rw [hcurrent'] at hdurable
      exact ⟨_, _, [], .one hw' hcommits haccepts, .none, hdurable⟩
  | unstarted hw₀ hrecord hqueued _ _ haccepts hcurrent _ hworld =>
    have hdurable := hworld.durable.trans (saved_durable hw₀ _ _)
    obtain ⟨settled, hsettles, hdurable'⟩ := hsettle _ [_] hcurrent hdurable
    exact ⟨_, _, settled, .one hw₀ (.admitted hrecord hqueued) haccepts, hsettles, hdurable'⟩

/-- The engine of a live execution stands at the durable head of its run. -/
structure Engine.Sound (e : Engine) : Prop where
  valid : e.current.Valid
  durable : e.current ∈ e.world.durable
  head : e.world.head = some e.current
  /-- A bound session's capabilities are recorded. -/
  capabilities : ∀ control, e.sessionControl = some control →
    e.current.active.session.capabilities = some control.capabilities
  bound : e.handling.isSome = true → e.sessionControl.isSome = true

private theorem stageEntry_capabilities {capabilities : CapabilitySet} {commandId : String}
    {entry : HistoryEntry} {c c' : Checkpoint}
    (h : stageEntry capabilities commandId entry c = .ok c') :
    c'.active.session.capabilities = c.active.session.capabilities := by
  obtain ⟨-, rfl⟩ := stageEntry_ok h
  split <;> rfl

private theorem stageEvent_capabilities {body : SessionEventBody} {operationId commandId : String}
    {c c' : Checkpoint} (h : stageEvent cfg e body operationId commandId c = .ok c') :
    c'.active.session.capabilities = c.active.session.capabilities := by
  cases body with
  | ready contextRevision =>
    obtain ⟨-, -, rfl⟩ := stageReady_ok h
    rfl
  | responseStarted generationId inputPosition =>
    obtain ⟨-, -, next, rfl, -, -, -, rfl⟩ := stageStarted_ok h
    unfold startedResponse startedGeneration
    split <;> split <;> rfl
  | conversationItem itemId message =>
    rcases stageConversationItem_ok h with ⟨-, rfl, -⟩ | ⟨-, -, h⟩
    · rfl
    · exact stageEntry_capabilities h
  | acknowledged id recovery =>
    obtain ⟨command, next, -, hsettled, rfl⟩ := stageAcknowledged_ok h
    generalize command.intent = intent at hsettled
    cases hsettled <;> rfl
  | output generationId itemId callerId output =>
    obtain ⟨-, -, -, -, ⟨rfl, -⟩ | ⟨-, recorded, hrecorded, h⟩⟩ := stageOutput_ok h
    · rfl
    · obtain ⟨operations, rfl⟩ := recordOutput_ok hrecorded
      have hentry := stageEntry_capabilities h
      exact hentry
  | responseFinished completion =>
    obtain ⟨-, -, -, -, -, h⟩ := stageFinished_ok h
    have hentry := stageEntry_capabilities h
    exact hentry
  | recovery reference =>
    cases h
    rfl
  | closed reason providerData =>
    obtain ⟨-, rfl⟩ := stageClosed_ok h
    rfl
  | operation origin event =>
    cases h
    rfl
  | delta generationId value =>
    cases h
    rfl

theorem Staged.rule {I : Checkpoint → Prop} {n m : Nat} {c c' : Checkpoint}
    {events : List SessionEvent} (h : Staged cfg e n c events m c')
    (hstep : ∀ (event : SessionEvent) (operationId commandId : String) (c c' : Checkpoint), I c →
      stageEvent cfg e event.body operationId commandId (withSequence event.sequence c) = .ok c' →
        I c') (hc : I c) : I c' := by
  induction h with
  | nil _ => exact hc
  | cons _ hstage _ ih => exact ih (hstep _ _ _ _ _ hc hstage)

theorem Change.capabilities {w : World} {next : Checkpoint} {fact : Fact} {delta : HistoryDelta}
    (h : Change cfg cause e w next fact delta) :
    next.active.session.capabilities = e.current.active.session.capabilities := by
  cases h with
  | @prepare intent =>
    cases intent <;> rfl
  | finish _ _ _ _ hstage =>
    obtain ⟨history, -, rfl⟩ := stageFinish_ok hstage
    rfl
  | finishProvider _ _ _ _ _ hstage =>
    obtain ⟨history, -, rfl⟩ := stageFinishProvider_ok hstage
    rfl
  | insert _ _ _ _ hstage =>
    obtain ⟨-, rfl⟩ := stageInsert_ok hstage
    rfl
  | rewrite _ _ _ _ _ _ hstage =>
    obtain ⟨history, -, runStart, rfl⟩ := stageRewrite_ok hstage
    rfl
  | _ => rfl

theorem Commits.capabilities {next : Checkpoint} {fact : Fact} (h : Commits cfg e next fact)
    (hbound : e.sessionControl.isSome = true) :
    next.active.session.capabilities = e.current.active.session.capabilities := by
  cases h with
  | change h => exact h.capabilities
  | admitted _ _ => rfl
  | delegated _ _ => rfl
  | bound hunbound _ =>
    rw [hunbound] at hbound
    cases hbound
  | batch _ hstaged =>
    refine hstaged.rule (I := fun c => c.active.session.capabilities =
      e.current.active.session.capabilities) ?_ rfl
    intro event operationId commandId c c' hc hstage
    exact (stageEvent_capabilities hstage).trans hc

theorem Move.control (h : Move cfg cause e e') :
    e'.sessionControl = e.sessionControl ∨ e.sessionControl = none ∧ ∃ control,
      e'.sessionControl = some control ∧
        e'.current.active.session.capabilities = some control.capabilities := by
  cases h with
  | bind _ hunbound _ _ => exact .inr ⟨hunbound, _, rfl, rfl⟩
  | requestCancel =>
    rw [Engine.requestCancel_eq]
    exact .inl rfl
  | _ => exact .inl rfl

theorem Turn.sound (h : Turn cfg cause e e') (hsound : e.Sound) : e'.Sound := by
  have hvalid := h.valid hsound.valid
  have hdurable : e'.current ∈ e'.world.durable ∧ e'.world.head = some e'.current := by
    cases h.writes with
    | quiet hcurrent hhead hdurable =>
      rw [hcurrent, hhead, hdurable]
      exact ⟨hsound.durable, hsound.head⟩
    | commit _ _ _ _ hhead hdurable =>
      rw [hdurable]
      exact ⟨List.mem_cons_self, hhead⟩
  have hkept : e.sessionControl.isSome = true →
      e'.current.active.session.capabilities = e.current.active.session.capabilities := by
    intro hbound
    cases h.writes with
    | quiet hcurrent => rw [hcurrent]
    | commit _ hcommits _ hcurrent =>
      rw [hcurrent]
      exact hcommits.capabilities hbound
  have hcapabilities : ∀ control, e'.sessionControl = some control →
      e'.current.active.session.capabilities = some control.capabilities := by
    intro control hcontrol
    have hsame : e'.sessionControl = e.sessionControl →
        e'.current.active.session.capabilities = some control.capabilities := by
      intro hsame
      rw [hsame] at hcontrol
      rw [hkept (by rw [hcontrol]; rfl)]
      exact hsound.capabilities control hcontrol
    cases h with
    | move h =>
      rcases h.control with hsame' | ⟨-, control', hcontrol', hnew⟩
      · exact hsame hsame'
      · rw [hcontrol] at hcontrol'
        cases hcontrol'
        exact hnew
    | take _ _ => exact hsame rfl
    | drop _ _ => exact hsame rfl
  refine ⟨hvalid, hdurable.1, hdurable.2, hcapabilities, fun hhandling => ?_⟩
  cases h with
  | move h =>
    rw [h.handling] at hhandling
    exact h.bound (hsound.bound hhandling)
  | take hlooping _ => exact hlooping.1
  | drop _ _ => cases hhandling

theorem Engine.runTask_durable (cfg : Config) (index : Nat) (event : TaskEvent) (e : Engine) :
    (e.runTask cfg index event).world.durable = e.world.durable ∧
      (e.runTask cfg index event).world.head = e.world.head := by
  rcases Engine.runTask_cases cfg index event e with h | ⟨task, step, -, hstep, h⟩
  · rw [h]
    exact ⟨rfl, rfl⟩
  · rw [h]
    refine ⟨?_, rfl⟩
    have heffects : ∀ effect ∈ step.effects, ∀ c, effect ≠ .committed c := by
      unfold taskStep at hstep
      split at hstep <;> try split at hstep
      all_goals cases hstep
      all_goals simp
    change (step.effects ++ e.world.trace).filterMap _ = _
    rw [List.filterMap_append, List.filterMap_eq_nil_iff.mpr, List.nil_append]
    · rfl
    · intro effect heffect
      cases effect with
      | committed c => exact absurd rfl (heffects _ heffect c)
      | _ => rfl

theorem Engine.Sound.runTask (h : e.Sound) (index : Nat) (event : TaskEvent) :
    (e.runTask cfg index event).Sound := by
  obtain ⟨hcurrent, hcontrol, hhandling⟩ := Engine.runTask_keeps cfg index event e
  obtain ⟨hdurable, hhead⟩ := Engine.runTask_durable cfg index event e
  refine ⟨?_, ?_, ?_, ?_, ?_⟩
  · rw [hcurrent]
    exact h.valid
  · rw [hcurrent, hdurable]
    exact h.durable
  · rw [hcurrent, hhead]
    exact h.head
  · rw [hcurrent, hcontrol]
    exact h.capabilities
  · rw [hcontrol, hhandling]
    exact h.bound

theorem Reached.sound {resolutions : List RecoveryResolution}
    (h : Reached cfg (.live resolutions e)) : e.Sound := by
  generalize hp : Point.live resolutions e = p at h
  induction h generalizing resolutions e with
  | refl => cases hp
  | tail _ hstep ih =>
    subst hp
    cases hstep with
    | @boot w request expired first hopens =>
      have hvalid : first.Valid :=
        Checkpoint.valid_of_validate (Commit.valid_of_ok hopens.accepts)
      exact ⟨hvalid, List.mem_cons_self, rfl, fun _ hnone => (by cases hnone),
        fun hnone => by cases hnone⟩
    | turn _ hturn => exact hturn.sound (ih rfl)
    | task => exact (ih rfl).runTask _ _
    | packet =>
      have hsound := ih rfl
      exact ⟨hsound.valid, hsound.durable, hsound.head, hsound.capabilities, hsound.bound⟩

/-- A fact about checkpoints that holds of the first one of a run, of a durable one taken up
again, of every commit of a sound execution and of every settlement. Assumptions `H` about
the durable checkpoints of the run may be used. -/
structure Inductive (cfg : Config) (H I : Checkpoint → Prop) : Prop where
  start : ∀ (w : World) (request : Request) (expired : Bool) (c : Checkpoint),
    Opens cfg w request expired c → (∀ base ms rs md, request ≠ .recover base ms rs md) → I c
  recover : ∀ (w : World) (base : Checkpoint) (messages : List Message)
    (resolutions : List RecoveryResolution) (metadata : List (String × Value)) (expired : Bool)
    (c : Checkpoint), Opens cfg w (.recover base messages resolutions metadata) expired c →
      base ∈ w.durable → I base → I c
  commit : ∀ (e : Engine) (w : World) (next : Checkpoint) (fact : Fact) (delta : HistoryDelta),
    e.Sound → w.head = some e.current → I e.current → (∀ c ∈ e.world.durable, H c) →
      H (stamp cfg w e.current next fact) →
      Commits cfg e next fact → Accepts cfg w e.current next fact delta →
        I (stamp cfg w e.current next fact)
  settle : ∀ (w : World) (c : Checkpoint) (error : Error), c.Valid → I c →
    Accepts cfg w c (stageSettled (settledState error).1 c) (.control (settledState error).2)
      .unchanged →
    I (stamp cfg w c (stageSettled (settledState error).1 c) (.control (settledState error).2))

theorem startRequest_kind {messages : List Message} {context : RunContext} {options : RunOptions}
    {request : Request} (h : startRequest messages context options = .ok request) :
    ∀ base ms rs md, request ≠ .recover base ms rs md := by
  simp only [startRequest] at h
  obtain ⟨_, -, h⟩ := Result.bind_ok h
  split at h
  · cases h
  · obtain ⟨history, -, h⟩ := Result.bind_ok h
    obtain ⟨_, -, h⟩ := Result.bind_ok h
    split at h
    · cases h
    · cases h
      intro _ _ _ _ hne
      cases hne

/-- How a durable checkpoint came about, given the older ones. -/
inductive Link (cfg : Config) (older : List Checkpoint) : Checkpoint → Prop
  | start {w : World} {request : Request} {expired : Bool} {c : Checkpoint}
      (h : Opens cfg w request expired c)
      (hstart : ∀ base ms rs md, request ≠ .recover base ms rs md) : Link cfg older c
  | recover {w : World} {base : Checkpoint} {messages : List Message}
      {resolutions : List RecoveryResolution} {metadata : List (String × Value)} {expired : Bool}
      {c : Checkpoint} (h : Opens cfg w (.recover base messages resolutions metadata) expired c)
      (hdurable : base ∈ w.durable) (hbase : base ∈ older) : Link cfg older c
  | commit {e : Engine} {w : World} {next : Checkpoint} {fact : Fact} {delta : HistoryDelta}
      (hsound : e.Sound) (hhead : w.head = some e.current) (hcurrent : e.current ∈ older)
      (hdurable : e.world.durable = older) (hcommits : Commits cfg e next fact)
      (haccepts : Accepts cfg w e.current next fact delta) :
      Link cfg older (stamp cfg w e.current next fact)
  | settle {w : World} {c : Checkpoint} {error : Error} (hvalid : c.Valid) (hc : c ∈ older)
      (haccepts : Accepts cfg w c (stageSettled (settledState error).1 c)
        (.control (settledState error).2) .unchanged) :
      Link cfg older
        (stamp cfg w c (stageSettled (settledState error).1 c) (.control (settledState error).2))

/-- Newest first, every checkpoint linked to the older ones. -/
inductive Linked (cfg : Config) : List Checkpoint → Prop
  | nil : Linked cfg []
  | cons {c : Checkpoint} {older : List Checkpoint} (hlink : Link cfg older c)
      (hlinked : Linked cfg older) : Linked cfg (c :: older)

private theorem Opens.link {w : World} {request : Request} {expired : Bool} {first : Checkpoint}
    (h : Opens cfg w request expired first) : Link cfg w.durable first := by
  cases h.requested with
  | start hstart => exact .start h (startRequest_kind hstart)
  | recover hdurable hrecover =>
    obtain ⟨ms, rs, md, rfl⟩ := recoverRequest_resolutions hrecover
    exact .recover h hdurable hdurable

private theorem Reached.linked {p : Point} (hp : Reached cfg p) : Linked cfg p.world.durable := by
  induction hp with
  | refl => exact .nil
  | @tail p p' hreached hstep ih =>
    cases hstep with
    | wait hw =>
      simp only [Point.world, hw.durable] at ih ⊢
      exact ih
    | lost h => exact .cons h.link ih
    | boot h => exact .cons h.link ih
    | @turn resolutions cause e e' hcause hturn =>
      have hsound := Reached.sound hreached
      simp only [Point.world] at ih ⊢
      cases hturn.writes with
      | quiet _ _ hdurable =>
        rw [hdurable]
        exact ih
      | commit hw hcommits haccepts hcurrent _ hdurable =>
        rw [hdurable, hcurrent]
        have hhead := hw.head.trans hsound.head
        exact .cons (.commit hsound hhead hsound.durable rfl hcommits haccepts) ih
    | task =>
      simp only [Point.world, (Engine.runTask_durable cfg _ _ _).1] at ih ⊢
      exact ih
    | lateTask =>
      simp only [Point.world, (Engine.runTask_durable cfg _ _ _).1] at ih ⊢
      exact ih
    | @fail resolutions cause e e' error hcause hfault =>
      have hsound := Reached.sound hreached
      obtain ⟨c, added, settled, hadds, hsettles, hdurable⟩ := fail_durable hfault
      simp only [Point.world, hdurable] at ih ⊢
      have hadded : c.Valid ∧ c ∈ added ++ e.world.durable ∧
          Linked cfg (added ++ e.world.durable) := by
        cases hadds with
        | none => exact ⟨hsound.valid, hsound.durable, ih⟩
        | one hw hcommits haccepts =>
          have hhead := hw.head.trans hsound.head
          refine ⟨haccepts.valid, List.mem_cons_self, ?_⟩
          exact .cons (.commit hsound hhead hsound.durable rfl hcommits haccepts) ih
      obtain ⟨hvalid, hmem, hlinked⟩ := hadded
      cases hsettles with
      | none => exact hlinked
      | one haccepts => exact .cons (.settle hvalid hmem haccepts) hlinked
    | _ => exact ih

theorem Linked.mem {durable : List Checkpoint} {c : Checkpoint} (h : Linked cfg durable)
    (hc : c ∈ durable) : ∃ older, Link cfg older c ∧ ∀ c' ∈ older, c' ∈ durable := by
  induction h with
  | nil => cases hc
  | cons hlink _ ih =>
    rcases List.mem_cons.mp hc with rfl | hc
    · exact ⟨_, hlink, fun c' hc' => List.mem_cons_of_mem _ hc'⟩
    · obtain ⟨older, hlink', hsub⟩ := ih hc
      exact ⟨older, hlink', fun c' hc' => List.mem_cons_of_mem _ (hsub c' hc')⟩

theorem reachable_link {s : System} (hs : Reachable cfg s) {c : Checkpoint}
    (hc : c ∈ s.world.durable) :
    ∃ older, Link cfg older c ∧ ∀ c' ∈ older, c' ∈ s.world.durable := by
  have hlinked : Linked cfg s.world.durable :=
    reachable_world (I := fun w => Linked cfg w.durable) (fun _ hp => hp.linked) hs
  exact hlinked.mem hc

private theorem Inductive.link {H I : Checkpoint → Prop} (hI : Inductive cfg H I)
    {older : List Checkpoint} {c : Checkpoint} (hlink : Link cfg older c)
    (hH : ∀ c' ∈ c :: older, H c') (hold : ∀ c' ∈ older, I c') : I c := by
  cases hlink with
  | start h hstart => exact hI.start _ _ _ _ h hstart
  | recover h hdurable hbase => exact hI.recover _ _ _ _ _ _ _ h hdurable (hold _ hbase)
  | commit hsound hhead hcurrent hdurable hcommits haccepts =>
    obtain ⟨hnew, hbefore⟩ := List.forall_mem_cons.mp hH
    rw [← hdurable] at hbefore
    exact hI.commit _ _ _ _ _ hsound hhead (hold _ hcurrent) hbefore hnew hcommits haccepts
  | settle hvalid hc haccepts => exact hI.settle _ _ _ hvalid (hold _ hc) haccepts

/-- An inductive fact holds of every durable checkpoint, and of the one an execution stands
at. -/
theorem Inductive.holds {H I : Checkpoint → Prop} (hI : Inductive cfg H I) {p : Point}
    (hp : Reached cfg p) (hH : ∀ c ∈ p.world.durable, H c) : ∀ c ∈ p.world.durable, I c := by
  have hlinked := hp.linked
  generalize p.world.durable = durable at hH hlinked
  induction hlinked with
  | nil => exact fun c hc => by cases hc
  | cons hlink _ ih =>
    have hold := ih fun c hc => hH c (List.mem_cons_of_mem _ hc)
    exact List.forall_mem_cons.mpr ⟨hI.link hlink hH hold, hold⟩

theorem Inductive.current {I : Checkpoint → Prop} (hI : Inductive cfg (fun _ => True) I)
    {resolutions : List RecoveryResolution} (h : Reached cfg (.live resolutions e)) :
    I e.current :=
  hI.holds h (fun _ _ => trivial) _ (Reached.sound h).durable

theorem validated_inductive (cfg : Config) :
    Inductive cfg (fun _ => True) fun c => c.validate = .ok () where
  start _ _ _ _ h _ := Commit.valid_of_ok h.accepts
  recover _ _ _ _ _ _ _ h _ _ := Commit.valid_of_ok h.accepts
  commit _ _ _ _ _ _ _ _ _ _ _ haccepts := Commit.valid_of_ok haccepts
  settle _ _ _ _ _ haccepts := Commit.valid_of_ok haccepts

theorem entries_inductive (cfg : Config) :
    Inductive cfg (fun _ => True) fun c =>
      ∀ entry ∈ c.history.entries, entry.validate = .ok () where
  start w request expired c h hstart := by
    refine Commit.entries_of_ok h.accepts fun p hp => ?_
    obtain ⟨kept, added, htarget, -⟩ := (Commit.checked_of_ok h.accepts).target
    rw [hp] at htarget
    cases request with
    | start history context options => cases htarget
    | recover base ms rs md => exact absurd rfl (hstart base ms rs md)
  recover w base messages resolutions metadata expired c h _ hbase := by
    have hhistory : c.history = base.history := by
      rw [h.checkpoint]
      cases expired <;> rfl
    rw [hhistory]
    exact hbase
  commit e w next fact delta _ hhead hcurrent _ _ _ haccepts := by
    refine Commit.entries_of_ok haccepts fun p hp => ?_
    rw [hhead] at hp
    cases hp
    exact hcurrent
  settle w c error _ hc _ := hc

/-- An inductive fact holds of every durable checkpoint of a run. -/
theorem Inductive.reachable {H I : Checkpoint → Prop} (hI : Inductive cfg H I) {s : System}
    (hs : Reachable cfg s) (hH : ∀ c ∈ s.world.durable, H c) : ∀ c ∈ s.world.durable, I c :=
  reachable_world (I := fun w => (∀ c ∈ w.durable, H c) → ∀ c ∈ w.durable, I c)
    (fun _ hp => hI.holds hp) hs hH

end Zhir.Kernel
