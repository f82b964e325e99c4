import Zhir.Core.Chain
import Zhir.Kernel.Records

/-!
The ends of a run: every checkpoint in a terminal state, and what it says about the
operations that were at work before it.
-/

set_option autoImplicit false
set_option relaxedAutoImplicit false

namespace Zhir.Kernel

open Zhir.Core
open Std (ExtTreeMap)

variable {cfg : Config} {e : Engine} {c c' : Checkpoint} {n m : Nat}
  {events : List SessionEvent}

/-- The operation is at work: its record says `Running` or `Cancelling`. -/
def atWork (op : OperationRecord) : Bool := op.state = .running || op.state = .cancelling

def Resting (c : Checkpoint) : Prop :=
  ∀ (id : OperationId) (op : OperationRecord), c.active.operations[id]? = some op →
    atWork op = false

/-- Nothing is at work after `c'`, and what was at work in `c` is recorded with an unknown
outcome or with its result. -/
structure WorkReported (c c' : Checkpoint) : Prop where
  resting : Resting c'
  recorded : ∀ (id : OperationId) (op : OperationRecord), c.active.operations[id]? = some op →
    atWork op = true → ∃ op', c'.active.operations[id]? = some op' ∧
      (op'.state = .unknown ∨ op'.state.terminal = true)

/-- The checkpoint with which `settle` ends a run after an error. -/
def SettledAfterError (c : Checkpoint) : Prop :=
  ∃ error : Error, c.state = (settledState error).1 ∧ c.fact = .control (settledState error).2

private theorem reported_of_resting (hc : Resting c) (hc' : Resting c') : WorkReported c c' where
  resting := hc'
  recorded id op hop hwork := by
    rw [hc id op hop] at hwork
    cases hwork

private theorem resting_of_reported (h : WorkReported c c')
    (hkept : ∀ (id : OperationId) (op : OperationRecord), c.active.operations[id]? = some op →
      atWork op = true → ∃ op', c'.active.operations[id]? = some op' ∧ atWork op' = true) :
    Resting c := by
  intro id op hop
  by_contra hwork
  obtain ⟨op', hop', hwork'⟩ := hkept id op hop (by simpa using hwork)
  rw [h.resting id op' hop'] at hwork'
  cases hwork'

/-- A terminal checkpoint over the same operations reports them exactly when none is at
work. -/
private theorem reported_same_iff (h : c'.active.operations = c.active.operations) :
    WorkReported c c' ↔ Resting c := by
  constructor
  · intro hreported
    refine resting_of_reported hreported fun id op hop hwork => ⟨op, ?_, hwork⟩
    rw [h]
    exact hop
  · intro hresting
    refine reported_of_resting hresting fun id op hop => ?_
    rw [h] at hop
    exact hresting id op hop

theorem Change.ends {cause : Cause} {w : World} {next : Checkpoint} {fact : Fact}
    {delta : HistoryDelta} (h : Change cfg cause e w next fact delta)
    (hrunning : e.current.state.terminal = false) (hterminal : next.state.terminal = true) :
    next.active.operations = e.current.active.operations ∧
      (next.state = .limited .generationRequests ∨ next.state = .limited .runtimeToolCalls ∨
        next.state.isCompleted = true) := by
  have hsame : next.state = e.current.state → False := by
    intro hstate
    rw [hstate, hrunning] at hterminal
    cases hterminal
  cases h with
  | suspend => cases hterminal
  | limit hreason =>
    refine ⟨rfl, ?_⟩
    rcases hreason with rfl | rfl
    · exact .inl rfl
    · exact .inr (.inl rfl)
  | complete => exact ⟨rfl, .inr (.inr rfl)⟩
  | @prepare intent => exact absurd (by cases intent <;> rfl) hsame
  | finish _ _ _ _ hstage =>
    obtain ⟨history, -, rfl⟩ := stageFinish_ok hstage
    exact absurd rfl hsame
  | finishProvider _ _ _ _ _ hstage =>
    obtain ⟨history, -, rfl⟩ := stageFinishProvider_ok hstage
    exact absurd rfl hsame
  | insert _ _ _ _ hstage =>
    obtain ⟨-, rfl⟩ := stageInsert_ok hstage
    exact absurd rfl hsame
  | rewrite _ _ _ _ _ _ hstage =>
    obtain ⟨history, -, runStart, rfl⟩ := stageRewrite_ok hstage
    exact absurd rfl hsame
  | _ => exact absurd rfl hsame

/-- Of the records in `c'`, those that are not new are as in `c`, and no new one is at
work. -/
structure Carries (c c' : Checkpoint) : Prop where
  len : c.history.len ≤ c'.history.len
  record : ∀ (id : OperationId) (op : OperationRecord), c'.active.operations[id]? = some op →
    c.active.operations[id]? = some op ∨ c.history.len ≤ op.callEntry ∧ atWork op = false

theorem Carries.refl (c : Checkpoint) : Carries c c := ⟨le_rfl, fun _ _ hop => .inl hop⟩

theorem Carries.shrink {c₁ : Checkpoint} (h : Carries c c₁)
    (hsub : ∀ (id : OperationId) (op : OperationRecord), c'.active.operations[id]? = some op →
      c₁.active.operations[id]? = some op)
    (hlen : c₁.history.len ≤ c'.history.len) : Carries c c' where
  len := h.len.trans hlen
  record id op hop := h.record id op (hsub id op hop)

theorem Carries.queue {c₁ : Checkpoint} (h : Carries c c₁) {id : OperationId}
    {op : OperationRecord} (hinsert : c'.active.operations = c₁.active.operations.insert id op)
    (hcall : op.callEntry = c₁.history.len) (hwork : atWork op = false)
    (hlen : c₁.history.len ≤ c'.history.len) : Carries c c' where
  len := h.len.trans hlen
  record other op' hop' := by
    rw [hinsert, ExtTreeMap.getElem?_insert] at hop'
    split at hop'
    · cases hop'
      exact .inr ⟨hcall ▸ h.len, hwork⟩
    · exact h.record other op' hop'

private theorem carries_stageEvent {body : SessionEventBody} {operationId commandId : String}
    {c₁ : Checkpoint} (hc : Carries c c₁) (hquiet : reportsProvider body = false)
    (h : stageEvent cfg e body operationId commandId c₁ = .ok c') : Carries c c' := by
  rcases stageEvent_table h with hshrinks | ⟨o, recorded, rfl, hrecorded⟩
  · exact hc.shrink hshrinks.record hshrinks.len
  · obtain ⟨-, hcall, hoperations, -, hlen⟩ := hrecorded
    generalize o.output = output at hcall hquiet
    cases output with
    | delegation request =>
      simp only [recordOutput] at hcall
      split at hcall
      · cases hcall
      · split at hcall
        · cases hcall
        · cases hcall
          exact hc.queue hoperations rfl rfl (by omega)
    | runtimeToolCall call =>
      simp only [recordOutput] at hcall
      split at hcall
      · cases hcall
      · cases hcall
        exact hc.queue hoperations rfl rfl (by omega)
    | providerToolCall call => cases hquiet
    | content content =>
      cases hcall
      exact hc.shrink (fun id op hop => by rwa [hoperations] at hop) (by omega)

theorem Staged.carries {c₀ c₁ : Checkpoint} (h : Staged cfg e n c₀ events m c₁)
    (hquiet : ∀ event ∈ events, reportsProvider event.body = false) (hc : Carries c c₀) :
    Carries c c₁ := by
  induction h with
  | nil _ => exact hc
  | @cons n k m c₁ c₂ c₃ event rest _ hstage _ ih =>
    obtain ⟨hevent, hrest⟩ := List.forall_mem_cons.mp hquiet
    have hsequenced : Carries c (withSequence event.sequence c₁) :=
      hc.shrink (fun _ _ hop => hop) le_rfl
    exact ih hrest (carries_stageEvent hsequenced hevent hstage)

private theorem stageEvent_state {body : SessionEventBody} {operationId commandId : String}
    (h : stageEvent cfg e body operationId commandId c = .ok c') :
    c'.state = c.state ∨ ∃ completion, body = .responseFinished completion := by
  cases body with
  | ready contextRevision =>
    obtain ⟨-, -, rfl⟩ := stageReady_ok h
    exact .inl rfl
  | responseStarted generationId inputPosition =>
    obtain ⟨-, -, next, rfl, -, -, -, rfl⟩ := stageStarted_ok h
    refine .inl ?_
    unfold startedResponse startedGeneration
    split <;> split <;> rfl
  | conversationItem itemId message =>
    rcases stageConversationItem_ok h with ⟨-, rfl, -⟩ | ⟨-, -, h⟩
    · exact .inl rfl
    · exact .inl (stageEntry_keeps h).2.2.1
  | acknowledged id recovery =>
    obtain ⟨command, next, -, hsettled, rfl⟩ := stageAcknowledged_ok h
    generalize command.intent = intent at hsettled
    cases hsettled <;> exact .inl rfl
  | output generationId itemId callerId output =>
    obtain ⟨-, -, -, -, ⟨rfl, -⟩ | ⟨-, recorded, hrecorded, h⟩⟩ := stageOutput_ok h
    · exact .inl rfl
    · obtain ⟨operations, rfl⟩ := recordOutput_ok hrecorded
      exact .inl (stageEntry_keeps h).2.2.1
  | responseFinished completion => exact .inr ⟨completion, rfl⟩
  | recovery reference =>
    cases h
    exact .inl rfl
  | closed reason providerData =>
    obtain ⟨-, rfl⟩ := stageClosed_ok h
    exact .inl rfl
  | operation origin event =>
    cases h
    exact .inl rfl
  | delta generationId value =>
    cases h
    exact .inl rfl

private theorem State.terminal_of_active {state : State} (h : state.active = true) :
    state.terminal = false := by
  cases state <;> first | rfl | cases h

theorem Batched.carries (h : Batched cfg e n c events c') (hrunning : c.state.terminal = false)
    (hterminal : c'.state.terminal = true) : Carries c c' := by
  cases h with
  | @last before event k c₁ _ hbefore hopen hquiet hstage =>
    have hrunning₁ : c₁.state.terminal = false := by
      cases hbefore with
      | nil _ => exact hrunning
      | cons _ _ _ => exact State.terminal_of_active (hopen (List.cons_ne_nil _ _))
    have hcarries := hbefore.carries hquiet (Carries.refl c)
    have hsequenced : Carries c (withSequence event.sequence c₁) :=
      hcarries.shrink (fun _ _ hop => hop) le_rfl
    rcases stageEvent_state hstage with hstate | ⟨completion, hbody⟩
    · rw [hstate] at hterminal
      exact absurd (hrunning₁.symm.trans hterminal) (by decide)
    · exact carries_stageEvent hsequenced (by rw [hbody]; rfl) hstage

private theorem atWork_of_terminal {op : OperationRecord} (h : op.state.terminal = true) :
    atWork op = false := by
  unfold atWork
  cases hstate : op.state <;> rw [hstate] at h <;> first | rfl | cases h

private theorem reported_carried_iff {commit : Commit} (hvalid : c.Valid) (h : commit.Follows c)
    (hcarries : Carries c commit.checkpoint) :
    WorkReported c commit.checkpoint ↔ Resting c := by
  constructor
  · intro hreported
    refine resting_of_reported hreported fun id op hop hwork => ?_
    have hfollows := h.operations id op hop
    rcases hnext : commit.checkpoint.active.operations[id]? with _ | op'
    · have hterminal := operationFollows_none hfollows hnext
      rw [atWork_of_terminal hterminal] at hwork
      cases hwork
    · have hsame := operationFollows_some hfollows hnext
      refine ⟨op', rfl, ?_⟩
      rcases hcarries.record id op' hnext with hold | ⟨hnew, -⟩
      · rw [hop] at hold
        cases hold
        exact hwork
      · obtain ⟨entry, hentry, -⟩ := (hvalid.operations id op hop).call
        have hlen := (List.getElem?_eq_some_iff.mp hentry).1
        rw [hsame.callEntry] at hnew
        exact absurd hlen (Nat.not_lt.mpr hnew)
  · intro hresting
    refine reported_of_resting hresting fun id op hop => ?_
    rcases hcarries.record id op hop with hold | ⟨-, hidle⟩
    · exact hresting id op hold
    · exact hidle

private theorem reported_stageSettled (state : State) (c : Checkpoint) :
    WorkReported c (stageSettled state c) := by
  have hmap : ∀ id : OperationId, (stageSettled state c).active.operations[id]? =
      (c.active.operations[id]?).map abandonRunning := fun id => ExtTreeMap.getElem?_map
  constructor
  · intro id op hop
    rw [hmap] at hop
    obtain ⟨old, -, rfl⟩ := Option.map_eq_some_iff.mp hop
    unfold abandonRunning
    split
    · rfl
    · rename_i hnot
      simpa [atWork] using hnot
  · intro id op hop hwork
    refine ⟨abandonRunning op, by rw [hmap, hop]; rfl, .inl ?_⟩
    unfold abandonRunning
    rw [if_pos (by simpa [atWork] using hwork)]

private theorem not_settled_of_fact (h : ∀ action, c.fact ≠ .control action) :
    ¬ SettledAfterError c := by
  rintro ⟨error, -, hfact⟩
  exact h _ hfact

private theorem not_settled_of_state (h : c.state = .limited .generationRequests ∨
    c.state = .limited .runtimeToolCalls ∨ c.state.isCompleted = true) :
    ¬ SettledAfterError c := by
  rintro ⟨error, hstate, -⟩
  rw [hstate] at h
  cases error <;> rcases h with h | h | h <;> cases h

private theorem reported_commit_iff {w : World} {next : Checkpoint} {fact : Fact}
    {delta : HistoryDelta}
    (hsound : e.Sound) (hhead : w.head = some e.current) (hcommits : Commits cfg e next fact)
    (haccepts : Accepts cfg w e.current next fact delta) (hterminal : next.state.terminal = true) :
    WorkReported e.current (stamp cfg w e.current next fact) ↔
      SettledAfterError (stamp cfg w e.current next fact) ∨ Resting e.current := by
  have hfollows : (Commit.mk (stamp cfg w e.current next fact) delta).Follows e.current := by
    have hok := haccepts
    unfold Accepts at hok
    rw [hhead] at hok
    exact (Commit.accepted_of_ok hok).follows
  have hrunning := hfollows.terminal
  have hsame : next.state ≠ e.current.state := by
    intro hstate
    rw [hstate, hrunning] at hterminal
    cases hterminal
  cases hcommits with
  | change h =>
    obtain ⟨hoperations, hstate⟩ := h.ends hrunning hterminal
    have hnot : ¬ SettledAfterError (stamp cfg w e.current next fact) :=
      not_settled_of_state hstate
    rw [or_iff_right hnot]
    exact reported_same_iff hoperations
  | admitted _ _ => exact absurd rfl hsame
  | delegated _ _ => exact absurd rfl hsame
  | bound _ _ => exact absurd rfl hsame
  | @batch _ _ sequence _ _ _ _ _ hbatched =>
    have hcarries := hbatched.carries hrunning hterminal
    have hnot : ¬ SettledAfterError (stamp cfg w e.current next
        (.session e.current.active.session.id sequence)) :=
      not_settled_of_fact fun action hfact => by cases hfact
    rw [or_iff_right hnot]
    exact reported_carried_iff hsound.valid hfollows ⟨hcarries.len, hcarries.record⟩

/-- What is at work when a run ends is reported exactly when the run ends with an error, or
nothing was at work before it ended. -/
theorem terminal_reported_iff {s : System} (hs : Reachable cfg s) {c : Checkpoint}
    (hc : c ∈ s.world.durable) (hterminal : c.state.terminal = true) :
    c.parentId = none ∧ c.active.operations = ∅ ∨
    ∃ p ∈ s.world.durable, c.parentId = some p.id ∧
      (WorkReported p c ↔ SettledAfterError c ∨ Resting p) := by
  obtain ⟨older, hlink, hsub⟩ := reachable_link hs hc
  cases hlink with
  | @start w request expired _ h hstart =>
    refine .inl ?_
    rw [h.checkpoint]
    cases request with
    | start history context options => cases expired <;> exact ⟨rfl, rfl⟩
    | recover base ms rs md => exact absurd rfl (hstart base ms rs md)
  | @recover w base messages resolutions metadata expired _ h _ hbase =>
    refine .inr ⟨base, hsub _ hbase, ?_, ?_⟩
    · rw [h.checkpoint]
      cases expired <;> rfl
    · have hoperations : c.active.operations = base.active.operations := by
        rw [h.checkpoint]
        cases expired <;> rfl
      have hnot : ¬ SettledAfterError c := by
        refine not_settled_of_fact fun action hfact => ?_
        rw [h.checkpoint] at hfact
        cases expired <;> cases hfact
      rw [or_iff_right hnot]
      exact reported_same_iff hoperations
  | commit hsound hhead hcurrent _ hcommits haccepts =>
    refine .inr ⟨_, hsub _ hcurrent, rfl, ?_⟩
    exact reported_commit_iff hsound hhead hcommits haccepts hterminal
  | @settle w p error hvalid hp _ =>
    refine .inr ⟨p, hsub _ hp, rfl, fun _ => .inl ⟨error, rfl, rfl⟩, fun _ => ?_⟩
    obtain ⟨hresting, hrecorded⟩ := reported_stageSettled (settledState error).1 p
    exact ⟨hresting, hrecorded⟩

def sampleBroken : System :=
  sampleRun (sampleOpening (sampleOptions sampleLimits) ++ sampleStarted "look" ++
    sampleEvent 4 (.responseStarted "other" 0))

def sampleBrokenHead : Checkpoint := sampleBroken.head (by decide +kernel)

/-- The settlement reports the call as unknown. -/
theorem settled_reported :
    ∃ p ∈ sampleBroken.world.durable, sampleBrokenHead.parentId = some p.id ∧
      WorkReported p sampleBrokenHead := by
  have hmem : sampleBrokenHead ∈ sampleBroken.world.durable := sampleBroken.head_mem _
  rcases terminal_reported_iff ⟨_, rfl⟩ hmem (by decide +kernel) with ⟨hnone, -⟩ | ⟨p, hp, hid, h⟩
  · exact absurd hnone (by decide +kernel)
  · refine ⟨p, hp, hid, h.mpr (.inl ⟨.protocol "unexpected response start", ?_, ?_⟩)⟩
    · decide +kernel
    · decide +kernel

/-- A second call is approved although the budget allows one. -/
def sampleSpent : System :=
  sampleRun (sampleOpening (sampleOptions { sampleLimits with maxRuntimeToolCalls := 1 }) ++
    sampleStarted "look" ++
    sampleEvent 4 (.output (some sampleGeneration) "second" "model" (sampleCall "again" "look")) ++
    sampleReport 3 (.decided (.ok [.allow])))

def sampleSpentHead : Checkpoint := sampleSpent.head (by decide +kernel)

/-- The run ends with the first call still recorded as running. -/
theorem spent_budget_unreported :
    Reachable sampleConfig sampleSpent ∧ sampleSpentHead ∈ sampleSpent.world.durable ∧
    sampleSpentHead.state = .limited .runtimeToolCalls ∧
    (sampleSpentHead.active.operations[sampleOperation]?).map OperationRecord.state =
      some .running := by
  refine ⟨⟨_, rfl⟩, sampleSpent.head_mem _, ?_, ?_⟩ <;> decide +kernel

end Zhir.Kernel
