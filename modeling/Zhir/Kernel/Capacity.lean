import Zhir.Kernel.Commits
import Zhir.Library.TreeMap

/-!
The capacities a checkpoint is validated against: how much a session event or a completion
adds to the outbox and to the operation table, and when that still fits.
-/

set_option autoImplicit false
set_option relaxedAutoImplicit false

namespace Zhir.Kernel

open Zhir.Core
open Std (ExtTreeMap)

variable {cfg : Config} {e : Engine} {c c' : Checkpoint} {n m : Nat}
  {events : List SessionEvent}

/-- Every event of a batch meets a condition where it is applied, whatever identities it
takes there. -/
def Meets (cfg : Config) (e : Engine) (P : SessionEvent → Nat → Checkpoint → Prop) (n : Nat)
    (c : Checkpoint) (events : List SessionEvent) : Prop :=
  ∀ (before : List SessionEvent) (event : SessionEvent) (after : List SessionEvent) (k : Nat)
    (c₀ : Checkpoint), events = before ++ event :: after → Staged cfg e n c before k c₀ →
      ∀ j, k ≤ j → P event j c₀

theorem Staged.guarded {I : Checkpoint → Prop} {P : SessionEvent → Nat → Checkpoint → Prop}
    (h : Staged cfg e n c events m c') (hmeets : Meets cfg e P n c events)
    (hstep : ∀ (event : SessionEvent) (j : Nat) (c c' : Checkpoint), I c → P event j c →
      stageEvent cfg e event.body (cfg.name j) (cfg.name (j + 1))
        (withSequence event.sequence c) = .ok c' → I c') (hc : I c) : I c' := by
  induction h with
  | nil _ => exact hc
  | @cons n k m c c' c'' event rest hk hstage hrest ih =>
    have hevent : P event k c := hmeets [] event rest n c rfl (.nil le_rfl) k hk
    have hafter : Meets cfg e P (k + 2) c' rest := by
      intro before event' after k' c₀ hevents hbefore j hj
      refine hmeets (event :: before) event' after k' c₀ ?_ (.cons hk hstage hbefore) j hj
      rw [hevents]
      rfl
    exact ih hafter (hstep event k c c' hc hevent hstage)

def outboxFits (c : Checkpoint) : Prop :=
  c.active.commands.length ≤ c.options.limits.maxControlCommands

/-- The event brings a command with it: an entry that is echoed back, or the seal of a
streaming task's input. -/
def pushesCommand (capabilities : CapabilitySet) (body : SessionEventBody) (c : Checkpoint) :
    Bool :=
  match body with
  | .responseStarted _ _ => sealsInput capabilities c
  | .conversationItem itemId _ =>
    capabilities.supports .explicitGeneration &&
      (c.history.byId (.conversation c.active.session.id itemId)).isNone
  | .output generationId itemId callerId output =>
    capabilities.supports .explicitGeneration &&
      (c.history.byId (OutputEvent.entry ⟨generationId, itemId, callerId, output⟩ c).id).isNone
  | .responseFinished _ => capabilities.supports .explicitGeneration
  | _ => false

def retiresCommand : SessionEventBody → Bool
  | .acknowledged _ _ => true
  | _ => false

/-- Commands in the outbox before and after, with one side for what came and one for what
went. -/
structure Counts (pushed retired : Bool) (c c' : Checkpoint) : Prop where
  options : c'.options = c.options
  commands : c'.active.commands.length + retired.toNat = c.active.commands.length + pushed.toNat

theorem Counts.fits {pushed retired : Bool} (h : Counts pushed retired c c') :
    outboxFits c' ↔ c.active.commands.length + pushed.toNat ≤
      c.options.limits.maxControlCommands + retired.toNat := by
  have hcommands := h.commands
  unfold outboxFits
  rw [h.options]
  omega

private theorem counts_appendCommand (commandId : String) (entry : Nat) (source : AppendSource)
    (operationId : Option OperationId) (c : Checkpoint) :
    Counts true false c (appendCommand commandId entry source operationId c) where
  options := rfl
  commands := by simp [appendCommand, pushCommand]

private theorem counts_stageEntry {capabilities : CapabilitySet} {commandId : String}
    {entry : HistoryEntry} (h : stageEntry capabilities commandId entry c = .ok c') :
    Counts (capabilities.supports .explicitGeneration) false c c' := by
  obtain ⟨-, rfl⟩ := stageEntry_ok h
  cases hexplicit : capabilities.supports .explicitGeneration with
  | true =>
    simp only [if_true]
    have hcounts := counts_appendCommand commandId c.history.len .accepted none
      { c with history := c.history.push entry }
    exact ⟨hcounts.options, hcounts.commands⟩
  | false => exact ⟨rfl, rfl⟩

private theorem counts_settled {intent : CommandIntent} (h : Settled c intent c') :
    Counts false false c c' := by
  cases h <;> exact ⟨rfl, rfl⟩

private theorem counts_stageStarted {capabilities : CapabilitySet} {generationId commandId : String}
    {inputPosition : Nat}
    (h : stageStarted capabilities generationId inputPosition commandId c = .ok c') :
    Counts (sealsInput capabilities c) false c c' := by
  obtain ⟨-, -, next, hnext, -, -, -, rfl⟩ := stageStarted_ok h
  have hsame : next.options = c.options ∧ next.active.commands = c.active.commands := by
    rw [hnext]
    unfold startedGeneration
    split <;> exact ⟨rfl, rfl⟩
  have hseals : sealsInput capabilities next = sealsInput capabilities c := by
    unfold sealsInput
    rw [hsame.1]
  unfold startedResponse
  rw [hseals]
  cases sealsInput capabilities c with
  | true =>
    refine ⟨hsame.1, ?_⟩
    simp [pushCommand, hsame.2]
  | false =>
    refine ⟨hsame.1, ?_⟩
    simp [hsame.2]

private theorem counts_stageEvent {body : SessionEventBody} {operationId commandId : String}
    (h : stageEvent cfg e body operationId commandId c = .ok c') :
    Counts (pushesCommand (e.capabilities cfg) body c) (retiresCommand body) c c' := by
  cases body with
  | ready contextRevision =>
    obtain ⟨-, -, rfl⟩ := stageReady_ok h
    exact ⟨rfl, rfl⟩
  | responseStarted generationId inputPosition => exact counts_stageStarted h
  | conversationItem itemId message =>
    rcases stageConversationItem_ok h with ⟨-, rfl, hseen⟩ | ⟨-, hnew, h⟩
    · simp only [pushesCommand, hseen, Option.isNone_some, Bool.and_false, retiresCommand]
      exact ⟨rfl, rfl⟩
    · have hcounts := counts_stageEntry h
      simp only [pushesCommand, hnew, Option.isNone_none, Bool.and_true, retiresCommand]
      exact hcounts
  | acknowledged id recovery =>
    obtain ⟨command, next, hfind, hsettled, rfl⟩ := stageAcknowledged_ok h
    have hcounts := counts_settled hsettled
    have hmem := List.mem_of_find?_eq_some hfind
    have hid : decide (command.id = id) = true :=
      List.find?_some (p := fun p : PendingCommand => decide (p.id = id)) hfind
    have hlength := List.length_eraseP_of_mem (p := fun p : PendingCommand => decide (p.id = id))
      hmem hid
    have hpositive := List.length_pos_of_mem hmem
    refine ⟨hcounts.options, ?_⟩
    have hcommands := hcounts.commands
    simp only [retiresCommand, pushesCommand, Bool.toNat_true, Bool.toNat_false] at hcommands ⊢
    omega
  | output generationId itemId callerId output =>
    obtain ⟨-, -, -, -, ⟨rfl, hseen⟩ | ⟨hnew, recorded, hrecorded, h⟩⟩ := stageOutput_ok h
    · simp only [pushesCommand, hseen, Option.isNone_some, Bool.and_false, retiresCommand]
      exact ⟨rfl, rfl⟩
    · obtain ⟨operations, rfl⟩ := recordOutput_ok hrecorded
      have hcounts := counts_stageEntry h
      simp only [pushesCommand, hnew, Option.isNone_none, Bool.and_true, retiresCommand]
      exact ⟨hcounts.options, hcounts.commands⟩
  | responseFinished completion =>
    obtain ⟨-, -, -, -, -, h⟩ := stageFinished_ok h
    have hcounts := counts_stageEntry h
    exact ⟨hcounts.options, hcounts.commands⟩
  | recovery reference =>
    cases h
    exact ⟨rfl, rfl⟩
  | closed reason providerData =>
    obtain ⟨-, rfl⟩ := stageClosed_ok h
    exact ⟨rfl, rfl⟩
  | operation origin event =>
    cases h
    exact ⟨rfl, rfl⟩
  | delta generationId value =>
    cases h
    exact ⟨rfl, rfl⟩

private theorem counts_stageFinish {id : OperationId} {record : OperationRecord}
    {outcome : OperationOutcome} {sequence : Option Nat} {commandId : String}
    (h : stageFinish id record outcome sequence commandId c = .ok c') : Counts true false c c' := by
  obtain ⟨history, -, rfl⟩ := stageFinish_ok h
  have hcounts := counts_appendCommand commandId c.history.len .submitted (some id)
    (putOperation id (settled record outcome sequence c.history.len) { c with history })
  exact ⟨hcounts.options, hcounts.commands⟩

private theorem counts_stageFinishProvider {record : OperationRecord} {outcome : OperationOutcome}
    {sequence : Option Nat} {commandId : String} {entry : HistoryEntry}
    (h : stageFinishProvider record outcome sequence commandId entry c = .ok c') :
    Counts true false c c' := by
  obtain ⟨history, -, rfl⟩ := stageFinishProvider_ok h
  have hcounts := counts_appendCommand commandId c.history.len .accepted none
    (putOperation record.id (settled record outcome sequence c.history.len) { c with history })
  exact ⟨hcounts.options, hcounts.commands⟩

/-- The outbox has room for what the event brings, counting the place it frees. -/
def outboxTakes (capabilities : CapabilitySet) (body : SessionEventBody) (c : Checkpoint) : Prop :=
  c.active.commands.length + (pushesCommand capabilities body c).toNat ≤
    c.options.limits.maxControlCommands + (retiresCommand body).toNat

instance (c : Checkpoint) : Decidable (outboxFits c) := inferInstanceAs (Decidable (_ ≤ _))

/-- Neither session events nor completions wait for room in the outbox: what is staged from
a durable checkpoint fits exactly when there was room for what the event brings, or for the
result of the completion. -/
theorem outbox_fits_iff {s : System} (hs : Reachable cfg s) {c c₁ : Checkpoint}
    (hc : c ∈ s.world.durable) (hstaged : Staged cfg e n c events m c₁) :
    (∀ (body : SessionEventBody) (operationId commandId : String) (c₂ : Checkpoint),
      stageEvent cfg e body operationId commandId c₁ = .ok c₂ →
        (outboxFits c₂ ↔ outboxTakes (e.capabilities cfg) body c₁)) ∧
    (∀ (id : OperationId) (record : OperationRecord) (outcome : OperationOutcome)
      (sequence : Option Nat) (commandId : String) (c₂ : Checkpoint),
      stageFinish id record outcome sequence commandId c = .ok c₂ →
        (outboxFits c₂ ↔ c.active.commands.length < c.options.limits.maxControlCommands)) ∧
    (∀ (record : OperationRecord) (outcome : OperationOutcome) (sequence : Option Nat)
      (commandId : String) (entry : HistoryEntry) (c₂ : Checkpoint),
      stageFinishProvider record outcome sequence commandId entry c = .ok c₂ →
        (outboxFits c₂ ↔ c.active.commands.length < c.options.limits.maxControlCommands)) ∧
    (Meets cfg e (fun event _ c₀ => outboxTakes (e.capabilities cfg) event.body c₀) n c events →
      outboxFits c₁) := by
  have hvalid := (validated_inductive cfg).reachable hs (fun _ _ => trivial) c hc
  have hfits : outboxFits c := (Checkpoint.valid_of_validate hvalid).outbox
  refine ⟨?_, ?_, ?_, ?_⟩
  · intro body operationId commandId c₂ h
    exact (counts_stageEvent h).fits
  · intro id record outcome sequence commandId c₂ h
    exact (counts_stageFinish h).fits
  · intro record outcome sequence commandId entry c₂ h
    exact (counts_stageFinishProvider h).fits
  · intro hmeets
    refine hstaged.guarded hmeets ?_ hfits
    intro event j c₀ c₂ _ htakes h
    have hcounts : Counts (pushesCommand (e.capabilities cfg) event.body c₀)
        (retiresCommand event.body) (withSequence event.sequence c₀) c₂ := counts_stageEvent h
    exact hcounts.fits.mpr htakes

def sampleNarrow : RunOptions := sampleOptions { sampleLimits with maxControlCommands := 1 }

def sampleText (itemId text : String) : SessionEventBody :=
  .output (some sampleGeneration) itemId "model" (.content (.text text))

def sampleOpened : System := sampleRun (sampleOpening sampleNarrow)

def sampleOpenedHead : Checkpoint := sampleOpened.head (by decide +kernel)

def sampleOpenedEngine : Engine := sampleEngine (sampleOpening sampleNarrow) (by decide +kernel)

/-- The first item of the response fits. -/
theorem outbox_fits_first :
    ∃ c, stageEvent sampleConfig sampleOpenedEngine (sampleText "first" "a") "o" "p"
      sampleOpenedHead = .ok c ∧ outboxFits c := by
  have hmem : sampleOpenedHead ∈ sampleOpened.world.durable := sampleOpened.head_mem _
  obtain ⟨c, hstage, -⟩ : ∃ c, stageEvent sampleConfig sampleOpenedEngine (sampleText "first" "a")
      "o" "p" sampleOpenedHead = .ok c ∧ true = true := Result.exists_ok (by decide +kernel)
  obtain ⟨hevent, -⟩ := outbox_fits_iff (e := sampleOpenedEngine) ⟨_, rfl⟩ hmem
    (.nil (le_refl 0))
  refine ⟨c, hstage, (hevent _ _ _ _ hstage).mpr ?_⟩
  unfold outboxTakes
  decide +kernel

def sampleCrowding : List Action :=
  sampleOpening sampleNarrow ++ sampleEvent 3 (sampleText "first" "a")

def sampleCrowded : System := sampleRun sampleCrowding

def sampleCrowdedHead : Checkpoint := sampleCrowded.head (by decide +kernel)

def sampleCrowdedEngine : Engine := sampleEngine sampleCrowding (by decide +kernel)

/-- The second one does not while the first waits for its acknowledgement, and the run
fails. -/
theorem second_item_overflows :
    Reachable sampleConfig sampleCrowded ∧ sampleCrowdedHead ∈ sampleCrowded.world.durable ∧
    sampleCrowdedHead.options.limits.validate = .ok () ∧
    (∃ c, stageEvent sampleConfig sampleCrowdedEngine (sampleText "second" "b") "o" "p"
      sampleCrowdedHead = .ok c ∧ decide (¬ outboxFits c) = true) ∧
    (sampleRun (sampleCrowding ++ sampleEvent 4 (sampleText "second" "b"))).world.durable.head?.map
      Checkpoint.state = some (.failed (Error.invalid "active capacity exceeded").failure) := by
  refine ⟨⟨_, rfl⟩, sampleCrowded.head_mem _, by decide +kernel, ?_, by decide +kernel⟩
  exact Result.exists_ok (by decide +kernel)

def operationsFit (c : Checkpoint) : Prop :=
  c.active.operations.size ≤ c.options.limits.maxInflightOperations

instance (c : Checkpoint) : Decidable (operationsFit c) := inferInstanceAs (Decidable (_ ≤ _))

def recordedId (output : Output) (origin : CallRef) (operationId : String) : OperationId :=
  match output with
  | .providerToolCall _ => providerOperationId origin
  | _ => .host operationId

/-- The table has room for the call, counting every record, or has the call already. -/
def operationsTake (output : Output) (origin : CallRef) (operationId : String) (c : Checkpoint) :
    Prop :=
  c.active.operations.size < c.options.limits.maxInflightOperations ∨
    recordedId output origin operationId ∈ c.active.operations ∧ operationsFit c

private theorem fits_putOperation {id : OperationId} (record : OperationRecord) (c : Checkpoint) :
    operationsFit (putOperation id record c) ↔
      c.active.operations.size < c.options.limits.maxInflightOperations ∨
        id ∈ c.active.operations ∧ operationsFit c := by
  unfold operationsFit
  change (c.active.operations.insert id record).size ≤ c.options.limits.maxInflightOperations ↔ _
  rw [ExtTreeMap.size_insert]
  by_cases hmem : id ∈ c.active.operations
  · simp only [ExtTreeMap.contains_iff_mem, hmem, if_true, true_and]
    omega
  · simp only [ExtTreeMap.contains_iff_mem, hmem, if_false, false_and, or_false]
    omega

/-- A call that is recorded fits exactly when the table took it. -/
private theorem fits_recordOutput {capabilities : CapabilitySet} {output : Output}
    {origin : CallRef}
    {operationId : String} (hcall : Output.isContent output = false)
    (h : recordOutput capabilities output origin operationId c = .ok c') :
    operationsFit c' ↔ operationsTake output origin operationId c := by
  cases output with
  | delegation request =>
    simp only [recordOutput] at h
    split at h
    · cases h
    · split at h
      · cases h
      · cases h
        exact fits_putOperation _ c
  | runtimeToolCall call =>
    simp only [recordOutput] at h
    split at h
    · cases h
    · cases h
      exact fits_putOperation _ c
  | providerToolCall call =>
    cases h
    exact fits_putOperation _ c
  | content content => cases hcall

def callsTaken (body : SessionEventBody) (operationId : String) (c : Checkpoint) : Prop :=
  ∀ (generationId : Option String) (itemId callerId : String) (output : Output),
    body = .output generationId itemId callerId output → Output.isContent output = false →
      c.history.byId (OutputEvent.entry ⟨generationId, itemId, callerId, output⟩ c).id = none →
        operationsTake output (OutputEvent.origin ⟨generationId, itemId, callerId, output⟩ c)
          operationId c

private theorem fits_stageEvent {body : SessionEventBody} {operationId commandId : String}
    (hc : operationsFit c) (htaken : callsTaken body operationId c)
    (h : stageEvent cfg e body operationId commandId c = .ok c') : operationsFit c' := by
  rcases stageEvent_table h with hshrinks | ⟨o, recorded, hbody, hrecorded⟩
  · have hsize := hshrinks.size
    unfold operationsFit at hc ⊢
    rw [hshrinks.options]
    omega
  · have hfits : operationsFit recorded := by
      have hcall := hrecorded.call
      cases hcontent : Output.isContent o.output with
      | true =>
        generalize o.output = output at hcontent hcall
        cases output with
        | content content =>
          cases hcall
          exact hc
        | _ => cases hcontent
      | false =>
        have htake := htaken _ _ _ _ hbody hcontent hrecorded.fresh
        exact (fits_recordOutput hcontent hcall).mpr htake
    have hoptions : recorded.options = c.options := by
      obtain ⟨operations, hsame⟩ := recordOutput_ok hrecorded.call
      rw [hsame]
    unfold operationsFit at hfits ⊢
    rw [hrecorded.operations, hrecorded.options, ← hoptions]
    exact hfits

/-- A runtime call is admitted by the number of unfinished operations and a provider call
without a check, while validation counts every record: what is recorded fits exactly when
the table, finished records included, had room for it. -/
theorem operations_fit_iff {s : System} (hs : Reachable cfg s) {c c₁ : Checkpoint}
    (hc : c ∈ s.world.durable) (hstaged : Staged cfg e n c events m c₁) :
    (∀ (output : Output) (origin : CallRef) (operationId : String) (c₂ : Checkpoint),
      Output.isContent output = false →
      recordOutput (e.capabilities cfg) output origin operationId c₁ = .ok c₂ →
        (operationsFit c₂ ↔ operationsTake output origin operationId c₁)) ∧
    (Meets cfg e (fun event j c₀ => callsTaken event.body (cfg.name j) c₀) n c events →
      operationsFit c₁) := by
  have hvalid := (validated_inductive cfg).reachable hs (fun _ _ => trivial) c hc
  have hfits : operationsFit c := (Checkpoint.valid_of_validate hvalid).inflight
  refine ⟨?_, ?_⟩
  · intro output origin operationId c₂ hcall h
    exact fits_recordOutput hcall h
  · intro hmeets
    refine hstaged.guarded hmeets ?_ hfits
    intro event j c₀ c₂ hc₀ htaken h
    exact fits_stageEvent (c := withSequence event.sequence c₀) hc₀ htaken h

def sampleSingle : RunOptions := sampleOptions { sampleLimits with maxInflightOperations := 1 }

def sampleOrigin (itemId callId : String) : CallRef :=
  ⟨sampleName 'i' 0, itemId, some sampleGeneration, "model", callId⟩

def sampleFree : System := sampleRun (sampleOpening sampleSingle)

def sampleFreeHead : Checkpoint := sampleFree.head (by decide +kernel)

def sampleFreeEngine : Engine := sampleEngine (sampleOpening sampleSingle) (by decide +kernel)

/-- The first call fits. -/
theorem operations_fit_first :
    ∃ c, recordOutput (sampleFreeEngine.capabilities sampleConfig) (sampleCall "call" "look")
      (sampleOrigin "item" "call") "o" sampleFreeHead = .ok c ∧ operationsFit c := by
  have hmem : sampleFreeHead ∈ sampleFree.world.durable := sampleFree.head_mem _
  obtain ⟨c, hrecord, -⟩ : ∃ c, recordOutput (sampleFreeEngine.capabilities sampleConfig)
      (sampleCall "call" "look") (sampleOrigin "item" "call") "o" sampleFreeHead = .ok c ∧
        true = true := Result.exists_ok (by decide +kernel)
  obtain ⟨hcall, -⟩ := operations_fit_iff (e := sampleFreeEngine) ⟨_, rfl⟩ hmem (.nil (le_refl 0))
  refine ⟨c, hrecord, (hcall _ _ _ _ rfl hrecord).mpr (.inl ?_)⟩
  decide +kernel

/-- The call has returned; its result waits for the session's acknowledgement. -/
def sampleSettling : List Action :=
  sampleOpening sampleSingle ++ sampleStarted "look" ++
    sampleReport 2 (.returned (.ok (.finished (.success [.text "seen"] .null))))

def sampleSettled : System := sampleRun sampleSettling

def sampleSettledHead : Checkpoint := sampleSettled.head (by decide +kernel)

def sampleSettledEngine : Engine := sampleEngine sampleSettling (by decide +kernel)

/-- A second call is recorded beside it, and the commit fails the run. -/
theorem second_call_overflows :
    Reachable sampleConfig sampleSettled ∧ sampleSettledHead ∈ sampleSettled.world.durable ∧
    (∃ c, recordOutput (sampleSettledEngine.capabilities sampleConfig) (sampleCall "again" "look")
      (sampleOrigin "second" "again") "o" sampleSettledHead = .ok c ∧
        decide (¬ operationsFit c) = true) ∧
    (sampleRun (sampleSettling ++ sampleEvent 4 (.output (some sampleGeneration) "second" "model"
      (sampleCall "again" "look")))).world.durable.head?.map Checkpoint.state =
        some (.failed (Error.invalid "active capacity exceeded").failure) := by
  refine ⟨⟨_, rfl⟩, sampleSettled.head_mem _, ?_, by decide +kernel⟩
  exact Result.exists_ok (by decide +kernel)

end Zhir.Kernel
