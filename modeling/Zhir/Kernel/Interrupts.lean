import Zhir.Kernel.Commits

/-!
A pending interruption and the events of a session that opens its generations by itself:
which of them leave a checkpoint that validates.
-/

set_option autoImplicit false
set_option relaxedAutoImplicit false

namespace Zhir.Kernel

open Zhir.Core

variable {cfg : Config} {e : Engine} {c next : Checkpoint}

def CommandIntent.isInterrupt : CommandIntent → Bool
  | .interruptOutput _ _ => true
  | _ => false

def uninterrupted (c : Checkpoint) : Checkpoint :=
  { c with
    active.commands := c.active.commands.filter fun command =>
      !CommandIntent.isInterrupt command.intent }

private theorem stageEntry_uninterrupted {capabilities : CapabilitySet} (commandId : String)
    (entry : HistoryEntry) (hauto : capabilities.supports .explicitGeneration = false) :
    stageEntry capabilities commandId entry (uninterrupted c) =
      (stageEntry capabilities commandId entry c).map uninterrupted := by
  unfold stageEntry
  change (c.history.append [entry] >>= fun _ => _) = _
  cases c.history.append [entry] with
  | error error => rfl
  | ok history =>
    simp only [hauto]
    rfl

private theorem recordOutput_uninterrupted {capabilities : CapabilitySet} (output : Output)
    (origin : CallRef) (operationId : String) :
    recordOutput capabilities output origin operationId (uninterrupted c) =
      (recordOutput capabilities output origin operationId c).map uninterrupted := by
  have hcount : unfinishedCount (uninterrupted c) = unfinishedCount c := rfl
  cases output with
  | delegation request =>
    simp only [recordOutput]
    change (if _ then _ else if c.active.operations.size ≥ c.options.limits.maxInflightOperations
      then _ else _) = _
    split
    · rfl
    · split <;> rfl
  | runtimeToolCall call =>
    simp only [recordOutput, hcount]
    change (if unfinishedCount c ≥ c.options.limits.maxInflightOperations then _ else _) = _
    split <;> rfl
  | providerToolCall call => rfl
  | content content => rfl

private theorem stageOutput_uninterrupted {capabilities : CapabilitySet} (o : OutputEvent)
    (operationId commandId : String) (hauto : capabilities.supports .explicitGeneration = false) :
    stageOutput capabilities o operationId commandId (uninterrupted c) =
      (stageOutput capabilities o operationId commandId c).map uninterrupted := by
  have hforeign : o.foreign (uninterrupted c) = o.foreign c := rfl
  have hentry : o.entry (uninterrupted c) = o.entry c := rfl
  have horigin : o.origin (uninterrupted c) = o.origin c := rfl
  have hhistory : (uninterrupted c).history = c.history := rfl
  unfold stageOutput
  simp only [hforeign, hentry, horigin, hhistory]
  split
  · rfl
  · cases validateOutput [o.output] with
    | error error => rfl
    | ok checked =>
      change (if _ then _ else _) = Except.map _ (if _ then _ else _)
      split
      · rfl
      · cases c.history.byId (o.entry c).id with
        | some previous =>
          change (if _ then _ else _) = Except.map _ (if _ then _ else _)
          split <;> rfl
        | none =>
          change (recordOutput capabilities o.output (o.origin c) operationId (uninterrupted c) >>=
            fun recorded => stageEntry capabilities commandId (o.entry c) recorded) =
            (recordOutput capabilities o.output (o.origin c) operationId c >>=
              fun recorded => stageEntry capabilities commandId (o.entry c) recorded).map _
          rw [recordOutput_uninterrupted]
          cases recordOutput capabilities o.output (o.origin c) operationId c with
          | error error => rfl
          | ok recorded => exact stageEntry_uninterrupted commandId (o.entry c) hauto

private theorem stageFinished_uninterrupted {capabilities : CapabilitySet} (r : ResponseCompletion)
    (commandId : String) (hauto : capabilities.supports .explicitGeneration = false) :
    stageFinished capabilities r commandId (uninterrupted c) =
      (stageFinished capabilities r commandId c).map uninterrupted := by
  have hsession : (uninterrupted c).active.session = c.active.session := rfl
  have hentry : completionEntry r (uninterrupted c) = completionEntry r c := rfl
  have hsettled : settleResponse r (uninterrupted c) = uninterrupted (settleResponse r c) := rfl
  unfold stageFinished
  simp only [hsession, hentry, hsettled]
  split
  · rfl
  · split
    · rfl
    · exact stageEntry_uninterrupted commandId (completionEntry r c) hauto

private theorem stageStarted_uninterrupted {capabilities : CapabilitySet} (generationId : String)
    (inputPosition : Nat) (commandId : String)
    (hauto : capabilities.supports .explicitGeneration = false) :
    stageStarted capabilities generationId inputPosition commandId (uninterrupted c) =
      (stageStarted capabilities generationId inputPosition commandId c).map uninterrupted := by
  have hfinish : ∀ next : Checkpoint,
      (if (uninterrupted next).active.session.generationStarted ∨
          (uninterrupted next).active.session.generationId ≠ some generationId ∨
          (uninterrupted next).active.session.generatedInputPosition ≠ inputPosition then
        (.error (.protocol "unexpected response start") : Result Checkpoint)
      else if sealsInput capabilities { uninterrupted next with
          active.session.generationStarted := true } then
        .ok (pushCommand commandId .sealUserInput false
          { uninterrupted next with
            active.session.generationStarted := true, active.session.inputClosed := true })
      else .ok { uninterrupted next with active.session.generationStarted := true }) =
      Except.map uninterrupted
        (if next.active.session.generationStarted ∨
            next.active.session.generationId ≠ some generationId ∨
            next.active.session.generatedInputPosition ≠ inputPosition then
          (.error (.protocol "unexpected response start") : Result Checkpoint)
        else if sealsInput capabilities { next with
            active.session.generationStarted := true } then
          .ok (pushCommand commandId .sealUserInput false
            { next with
              active.session.generationStarted := true, active.session.inputClosed := true })
        else .ok { next with active.session.generationStarted := true }) := by
    intro next
    have hseals : sealsInput capabilities { uninterrupted next with
        active.session.generationStarted := true } =
      sealsInput capabilities { next with active.session.generationStarted := true } := rfl
    rw [hseals]
    change (if next.active.session.generationStarted ∨
      next.active.session.generationId ≠ some generationId ∨
      next.active.session.generatedInputPosition ≠ inputPosition then _ else _) = _
    split
    · rfl
    · split
      · simp [uninterrupted, pushCommand, CommandIntent.isInterrupt, Except.map]
      · rfl
  have hopened : openGeneration generationId inputPosition (uninterrupted c) =
      (openGeneration generationId inputPosition c).map uninterrupted := by
    unfold openGeneration
    change (if generationId = "" ∨ inputPosition > c.active.session.inputPosition ∨
      c.active.session.busyGeneration then _ else _) = _
    split <;> rfl
  unfold stageStarted
  rw [hopened]
  by_cases hevents : capabilities.supports .responseEvents = false
  · simp only [hevents, if_true]
    rfl
  · simp only [hevents, hauto, Bool.false_eq_true, if_false]
    cases openGeneration generationId inputPosition c with
    | error error => rfl
    | ok next => exact hfinish next

/-- A session event with the identities that staging it may use up. -/
structure StagedEvent where
  sequence : Nat
  body : SessionEventBody
  operationId : String
  commandId : String
  deriving DecidableEq

def StagedEvent.stage (cfg : Config) (e : Engine) (event : StagedEvent) (c : Checkpoint) :
    Result Checkpoint :=
  stageEvent cfg e event.body event.operationId event.commandId (withSequence event.sequence c)

/-- The event can be staged, and the staged checkpoint validates. -/
def Passes (cfg : Config) (e : Engine) (event : StagedEvent) (c : Checkpoint) : Prop :=
  ∃ next, event.stage cfg e c = .ok next ∧ next.validate = .ok ()

def ofResponse : SessionEventBody → Bool
  | .responseStarted _ _ | .responseFinished _ | .output _ _ _ _ => true
  | _ => false

/-- What a session may emit while an interruption is pending: its acknowledgement, or an event
of a response that would pass if no interruption were pending. -/
inductive MayEmit (cfg : Config) (e : Engine) (c : Checkpoint) : StagedEvent → Prop
  | acknowledged {event : StagedEvent} {id : String} {recovery : Option RecoveryRef}
      {command : PendingCommand} (hbody : event.body = .acknowledged id recovery)
      (hcommand : c.active.commands.find? (fun p => p.id = id) = some command)
      (hinterrupt : CommandIntent.isInterrupt command.intent = true) : MayEmit cfg e c event
  | response {event : StagedEvent} (hbody : ofResponse event.body = true)
      (hfresh : event.commandId ∉ c.active.commands.map PendingCommand.id)
      (hpasses : Passes cfg e event (uninterrupted c)) : MayEmit cfg e c event

/-- No other generation is started under a pending interruption, and the seal that a start may
bring finds room in the outbox. -/
def Undisturbed (cfg : Config) (e : Engine) (event : StagedEvent) (c : Checkpoint) : Prop :=
  match event.body with
  | .responseStarted generationId _ =>
    (∀ command ∈ c.active.commands, ∀ id epoch,
      command.intent = .interruptOutput id epoch → id = generationId) ∧
    (sealsInput (e.capabilities cfg) c = true →
      c.active.commands.length < c.options.limits.maxControlCommands)
  | _ => True

private theorem stage_uninterrupted {event : StagedEvent}
    (hauto : (e.capabilities cfg).supports .explicitGeneration = false)
    (hbody : ofResponse event.body = true) :
    event.stage cfg e (uninterrupted c) = (event.stage cfg e c).map uninterrupted := by
  have hsequence : withSequence event.sequence (uninterrupted c) =
      uninterrupted (withSequence event.sequence c) := rfl
  unfold StagedEvent.stage
  rw [hsequence]
  cases hcase : event.body with
  | responseStarted generationId inputPosition =>
    exact stageStarted_uninterrupted generationId inputPosition event.commandId hauto
  | responseFinished completion =>
    exact stageFinished_uninterrupted completion event.commandId hauto
  | output generationId itemId callerId output =>
    exact stageOutput_uninterrupted _ event.operationId event.commandId hauto
  | _ =>
    rw [hcase] at hbody
    cases hbody

def generationAfter (current : Option String) : SessionEventBody → Option String
  | .responseStarted generationId _ => some generationId
  | _ => current

/-- Outbox and current generation after an event of a response. -/
structure Follows (cfg : Config) (e : Engine) (event : StagedEvent) (c next : Checkpoint) :
    Prop where
  options : next.options = c.options
  outputEpoch : next.active.session.outputEpoch = c.active.session.outputEpoch
  completed : next.state.isCompleted = c.state.isCompleted
  generation : next.active.session.generationId =
    generationAfter c.active.session.generationId event.body
  commands : (∃ generationId inputPosition,
      event.body = .responseStarted generationId inputPosition ∧
      sealsInput (e.capabilities cfg) c = true ∧
      next.active.commands = c.active.commands ++ [⟨event.commandId, .sealUserInput, false⟩]) ∨
    (next.active.commands = c.active.commands ∧
      ∀ generationId inputPosition, event.body = .responseStarted generationId inputPosition →
        sealsInput (e.capabilities cfg) c = false)

private theorem isCompleted_responseState (status : ResponseStatus) (metrics : Metrics)
    (limit : Option Nat) {state : State} (hopen : state.isCompleted = false) :
    (responseState status metrics limit state).isCompleted = false := by
  unfold responseState
  split
  · rfl
  · split <;> first | rfl | exact hopen

private theorem follows_of_stage {event : StagedEvent}
    (hauto : (e.capabilities cfg).supports .explicitGeneration = false)
    (hopen : c.state.isCompleted = false) (hbody : ofResponse event.body = true)
    (h : event.stage cfg e c = .ok next) : Follows cfg e event c next := by
  unfold StagedEvent.stage at h
  cases hcase : event.body with
  | responseStarted generationId inputPosition =>
    rw [hcase] at h
    obtain ⟨-, -, started, rfl, -, hgeneration, -, rfl⟩ := stageStarted_ok h
    have hstarted : startedGeneration (e.capabilities cfg) generationId inputPosition
        (withSequence event.sequence c) =
      { withSequence event.sequence c with
        active.session.generationId := some generationId
        active.session.generatedInputPosition := inputPosition
        active.session.generationStarted := false
        active.session.responseStatus := none
        active.session.responseStart := c.history.len } := if_neg (by simp [hauto])
    rw [hstarted]
    unfold startedResponse
    change Follows cfg e event c (if sealsInput (e.capabilities cfg) c = true then _ else _)
    split
    · rename_i hseals
      exact ⟨rfl, rfl, rfl, by rw [hcase]; rfl, .inl ⟨_, _, hcase, hseals, rfl⟩⟩
    · rename_i hseals
      exact ⟨rfl, rfl, rfl, by rw [hcase]; rfl, .inr ⟨rfl, fun _ _ _ => by simpa using hseals⟩⟩
  | responseFinished completion =>
    rw [hcase] at h
    obtain ⟨-, -, -, -, -, hentry⟩ := stageFinished_ok h
    obtain ⟨-, rfl⟩ := stageEntry_ok hentry
    rw [if_neg (by simp [hauto])]
    refine ⟨rfl, rfl, ?_, by rw [hcase]; rfl, .inr ⟨rfl, fun _ _ hstart => ?_⟩⟩
    · exact (isCompleted_responseState _ _ _ hopen).trans hopen.symm
    · rw [hcase] at hstart
      cases hstart
  | output generationId itemId callerId output =>
    rw [hcase] at h
    obtain ⟨-, -, -, -, ⟨rfl, -⟩ | ⟨-, recorded, hrecorded, hentry⟩⟩ := stageOutput_ok h
    · refine ⟨rfl, rfl, rfl, by rw [hcase]; rfl, .inr ⟨rfl, fun _ _ hstart => ?_⟩⟩
      rw [hcase] at hstart
      cases hstart
    · obtain ⟨operations, rfl⟩ := recordOutput_ok hrecorded
      obtain ⟨-, rfl⟩ := stageEntry_ok hentry
      rw [if_neg (by simp [hauto])]
      refine ⟨rfl, rfl, rfl, by rw [hcase]; rfl, .inr ⟨rfl, fun _ _ hstart => ?_⟩⟩
      rw [hcase] at hstart
      cases hstart
  | _ =>
    rw [hcase] at hbody
    cases hbody

private theorem isInterrupt_iff {intent : CommandIntent} : CommandIntent.isInterrupt intent = true ↔
    ∃ id epoch, intent = .interruptOutput id epoch := by
  constructor
  · intro h
    cases intent with
    | interruptOutput id epoch => exact ⟨id, epoch, rfl⟩
    | _ => cases h
  · rintro ⟨id, epoch, rfl⟩
    rfl

private theorem validateCommand_interrupt {command : PendingCommand} {id : String} {epoch : Nat}
    (hintent : command.intent = .interruptOutput id epoch) :
    c.validateCommand command = .ok () ↔ c.active.session.generationId = some id ∧
      epoch ≠ 0 ∧ epoch ≤ c.active.session.outputEpoch := by
  unfold Checkpoint.validateCommand
  rw [hintent]
  simp only
  split
  · rename_i hwrong
    constructor
    · intro h
      cases h
    · rintro ⟨hgeneration, hzero, hle⟩
      rcases hwrong with h | h | h
      · exact absurd hgeneration h
      · exact absurd h hzero
      · omega
  · rename_i hright
    simp only [not_or, not_not, Nat.not_lt] at hright
    exact ⟨fun _ => hright, fun _ => rfl⟩

/-- The outbox of the staged checkpoint fits exactly when the event leaves the interruption
undisturbed. -/
private theorem outboxFits_iff {event : StagedEvent} (hc : c.OutboxFits c.active.commands)
    (hfollows : Follows cfg e event c next)
    (hfresh : event.commandId ∉ c.active.commands.map PendingCommand.id)
    (hvalid : (uninterrupted next).validate = .ok ()) :
    (uninterrupted next).OutboxFits next.active.commands ↔ Undisturbed cfg e event c := by
  have hothers := Checkpoint.outboxFits_of_validate hvalid
  have hmem : ∀ command ∈ c.active.commands, command ∈ next.active.commands := by
    intro command hcommand
    rcases hfollows.commands with ⟨-, -, -, -, heq⟩ | ⟨heq, -⟩
    · exact heq ▸ List.mem_append_left _ hcommand
    · exact heq ▸ hcommand
  have holder : ∀ command ∈ next.active.commands,
      CommandIntent.isInterrupt command.intent = true → command ∈ c.active.commands := by
    intro command hcommand hinterrupt
    rcases hfollows.commands with ⟨-, -, -, -, heq⟩ | ⟨heq, -⟩
    · rw [heq, List.mem_append, List.mem_singleton] at hcommand
      rcases hcommand with hold | rfl
      · exact hold
      · cases hinterrupt
    · exact heq ▸ hcommand
  have hlimit : (uninterrupted next).options = c.options := hfollows.options
  constructor
  · intro hfits
    unfold Undisturbed
    cases hbody : event.body with
    | responseStarted generationId inputPosition =>
      refine ⟨fun command hcommand id epoch hintent => ?_, fun hseals => ?_⟩
      · have hvalidated := hfits.valid command (hmem command hcommand)
        have hgeneration := ((validateCommand_interrupt hintent).mp hvalidated).1
        change next.active.session.generationId = some id at hgeneration
        rw [hfollows.generation, hbody] at hgeneration
        exact (Option.some.inj hgeneration).symm
      · have hcapacity := hfits.capacity
        rcases hfollows.commands with ⟨-, -, -, -, heq⟩ | ⟨-, hnot⟩
        · rw [heq, List.length_append, hlimit] at hcapacity
          exact hcapacity
        · rw [hnot generationId inputPosition hbody] at hseals
          cases hseals
    | _ => trivial
  · intro hundisturbed
    refine ⟨?_, ?_, ?_, ?_⟩
    · intro command hcommand
      cases hinterrupt : CommandIntent.isInterrupt command.intent with
      | true => exact hc.ids command (holder command hcommand hinterrupt)
      | false =>
        exact hothers.ids command (List.mem_filter.mpr ⟨hcommand, by simp [hinterrupt]⟩)
    · rcases hfollows.commands with ⟨-, -, -, -, heq⟩ | ⟨heq, -⟩
      · rw [heq, List.map_append, List.nodup_append]
        refine ⟨hc.nodup, List.nodup_singleton _, ?_⟩
        intro id hid other hother hsame
        rw [List.map_singleton, List.mem_singleton] at hother
        rw [hsame, hother] at hid
        exact hfresh hid
      · rw [heq]
        exact hc.nodup
    · rw [hlimit]
      rcases hfollows.commands with ⟨generationId, inputPosition, hbody, hseals, heq⟩ | ⟨heq, -⟩
      · unfold Undisturbed at hundisturbed
        rw [hbody] at hundisturbed
        rw [heq, List.length_append]
        exact hundisturbed.2 hseals
      · rw [heq]
        exact hc.capacity
    · intro command hcommand
      cases hinterrupt : CommandIntent.isInterrupt command.intent with
      | false =>
        exact hothers.valid command (List.mem_filter.mpr ⟨hcommand, by simp [hinterrupt]⟩)
      | true =>
        obtain ⟨id, epoch, hintent⟩ := isInterrupt_iff.mp hinterrupt
        have hold := holder command hcommand hinterrupt
        obtain ⟨hgeneration, hzero, hle⟩ := (validateCommand_interrupt hintent).mp
          (hc.valid command hold)
        refine (validateCommand_interrupt hintent).mpr ⟨?_, hzero, ?_⟩
        · change next.active.session.generationId = some id
          rw [hfollows.generation]
          unfold Undisturbed at hundisturbed
          cases hbody : event.body with
          | responseStarted generationId inputPosition =>
            rw [hbody] at hundisturbed
            rw [hundisturbed.1 command hold id epoch hintent]
            rfl
          | _ => exact hgeneration
        · change epoch ≤ next.active.session.outputEpoch
          rw [hfollows.outputEpoch]
          exact hle

private theorem validate_cursor (c : Checkpoint) (sequence : Option Nat)
    (recovery : Option RecoveryRef) :
    ({ c with
      active.session.lastSequence := sequence
      active.session.recovery := recovery } : Checkpoint).validate = c.validate := by
  unfold Checkpoint.validate
  rfl

/-- The acknowledgement of an interruption takes it out of the outbox, whatever came before. -/
private theorem acknowledged_passes {event : StagedEvent} {id : String}
    {recovery : Option RecoveryRef}
    {command : PendingCommand} (hvalid : c.validate = .ok ())
    (hopen : c.state.isCompleted = false) (hbody : event.body = .acknowledged id recovery)
    (hcommand : c.active.commands.find? (fun p => p.id = id) = some command)
    (hinterrupt : CommandIntent.isInterrupt command.intent = true) :
    ∃ next, event.stage cfg e c = .ok next ∧ next.validate = .ok () ∧
      next.state.isCompleted = false := by
  obtain ⟨generationId, epoch, hintent⟩ := isInterrupt_iff.mp hinterrupt
  have hstage : event.stage cfg e c = .ok
      { withSequence event.sequence c with
        active.commands := c.active.commands.eraseP fun p => p.id = id
        active.session.recovery := recovery.or c.active.session.recovery } := by
    unfold StagedEvent.stage stageEvent
    rw [hbody]
    have hfind : (withSequence event.sequence c).active.commands.find? (fun p => p.id = id) =
        some command := hcommand
    simp only [stageAcknowledged, hfind, settleCommand, hintent]
    rfl
  refine ⟨_, hstage, ?_, hopen⟩
  have hsub : (c.active.commands.eraseP fun p => p.id = id).Sublist c.active.commands :=
    List.eraseP_sublist
  have hc := Checkpoint.outboxFits_of_validate hvalid
  refine (validate_cursor
    { c with active.commands := c.active.commands.eraseP fun p => p.id = id }
    (some event.sequence) (recovery.or c.active.session.recovery)).trans ?_
  exact (Checkpoint.validate_commands hvalid hopen).mpr
    ⟨fun command hcommand => hc.ids command (hsub.subset hcommand),
      hc.nodup.sublist (hsub.map _), hsub.length_le.trans hc.capacity,
      fun command hcommand => hc.valid command (hsub.subset hcommand)⟩

/-- One event: it passes exactly when it leaves the interruption undisturbed. -/
private theorem passes_iff {event : StagedEvent}
    (hauto : (e.capabilities cfg).supports .explicitGeneration = false)
    (hvalid : c.validate = .ok ()) (hopen : c.state.isCompleted = false)
    (hemit : MayEmit cfg e c event) :
    Passes cfg e event c ↔ Undisturbed cfg e event c := by
  cases hemit with
  | acknowledged hbody hcommand hinterrupt =>
    obtain ⟨next, hstage, hnext, -⟩ := acknowledged_passes hvalid hopen hbody hcommand hinterrupt
    have hundisturbed : Undisturbed cfg e event c := by
      unfold Undisturbed
      rw [hbody]
      trivial
    exact ⟨fun _ => hundisturbed, fun _ => ⟨next, hstage, hnext⟩⟩
  | response hbody hfresh hpasses =>
    obtain ⟨other, hstage, hother⟩ := hpasses
    rw [stage_uninterrupted hauto hbody] at hstage
    cases hcase : event.stage cfg e c with
    | error error =>
      rw [hcase] at hstage
      cases hstage
    | ok next =>
      rw [hcase] at hstage
      cases hstage
      have hfollows := follows_of_stage hauto hopen hbody hcase
      have hfits := outboxFits_iff (Checkpoint.outboxFits_of_validate hvalid) hfollows hfresh hother
      have hsame : next.validate = .ok () ↔
          (uninterrupted next).OutboxFits next.active.commands :=
        Checkpoint.validate_commands hother (hfollows.completed.trans hopen)
      rw [← hfits, ← hsame]
      constructor
      · rintro ⟨next', hnext', hvalid'⟩
        rw [hcase] at hnext'
        cases hnext'
        exact hvalid'
      · exact fun hnext => ⟨next, hcase, hnext⟩

/-- The events come one after the other, each from what was staged before it. -/
def Emits (cfg : Config) (e : Engine) : List StagedEvent → Checkpoint → Prop
  | [], _ => True
  | event :: rest, c =>
    MayEmit cfg e c event ∧ ∀ next, event.stage cfg e c = .ok next → Emits cfg e rest next

def AllPass (cfg : Config) (e : Engine) : List StagedEvent → Checkpoint → Prop
  | [], _ => True
  | event :: rest, c =>
    ∃ next, event.stage cfg e c = .ok next ∧ next.validate = .ok () ∧ AllPass cfg e rest next

def NoneDisturbs (cfg : Config) (e : Engine) : List StagedEvent → Checkpoint → Prop
  | [], _ => True
  | event :: rest, c =>
    Undisturbed cfg e event c ∧ ∀ next, event.stage cfg e c = .ok next →
      NoneDisturbs cfg e rest next

private theorem stage_isCompleted {event : StagedEvent}
    (hauto : (e.capabilities cfg).supports .explicitGeneration = false)
    (hvalid : c.validate = .ok ()) (hopen : c.state.isCompleted = false)
    (hemit : MayEmit cfg e c event) (h : event.stage cfg e c = .ok next) :
    next.state.isCompleted = false := by
  cases hemit with
  | acknowledged hbody hcommand hinterrupt =>
    obtain ⟨next', hstage, -, hnext⟩ := acknowledged_passes hvalid hopen hbody hcommand hinterrupt
    rw [h] at hstage
    cases hstage
    exact hnext
  | response hbody _ _ => exact (follows_of_stage hauto hopen hbody h).completed.trans hopen

private theorem allPass_iff (hauto : (e.capabilities cfg).supports .explicitGeneration = false)
    {events : List StagedEvent} (hvalid : c.validate = .ok ())
    (hopen : c.state.isCompleted = false) (hemits : Emits cfg e events c) :
    AllPass cfg e events c ↔ NoneDisturbs cfg e events c := by
  induction events generalizing c with
  | nil => exact Iff.rfl
  | cons event rest ih =>
    obtain ⟨hemit, hrest⟩ := hemits
    have hone := passes_iff hauto hvalid hopen hemit
    constructor
    · rintro ⟨next, hstage, hnext, hpass⟩
      refine ⟨hone.mp ⟨next, hstage, hnext⟩, fun next' hstage' => ?_⟩
      rw [hstage] at hstage'
      cases hstage'
      have hopen' := stage_isCompleted hauto hvalid hopen hemit hstage
      exact (ih hnext hopen' (hrest next hstage)).mp hpass
    · rintro ⟨hundisturbed, hlater⟩
      obtain ⟨next, hstage, hnext⟩ := hone.mpr hundisturbed
      have hopen' := stage_isCompleted hauto hvalid hopen hemit hstage
      exact ⟨next, hstage, hnext,
        (ih hnext hopen' (hrest next hstage)).mpr (hlater next hstage)⟩

/-- From every durable checkpoint with a pending interruption, in every order of the session's
events. -/
theorem interrupt_harmless_iff {s : System} (hs : Reachable cfg s)
    (hc : c ∈ s.world.durable)
    (hpending : ∃ command ∈ c.active.commands, CommandIntent.isInterrupt command.intent = true)
    (hauto : (e.capabilities cfg).supports .explicitGeneration = false)
    {events : List StagedEvent} (hemits : Emits cfg e events c) :
    AllPass cfg e events c ↔ NoneDisturbs cfg e events c := by
  have hvalid := (validated_inductive cfg).reachable hs (fun _ _ => trivial) c hc
  obtain ⟨command, hcommand, -⟩ := hpending
  refine allPass_iff hauto hvalid ?_ hemits
  cases hstate : c.state.isCompleted with
  | false => rfl
  | true =>
    unfold Checkpoint.validate at hvalid
    obtain ⟨_, -, h⟩ := Result.bind_ok hvalid
    obtain ⟨_, -, h⟩ := Result.bind_ok h
    obtain ⟨_, -, h⟩ := Result.bind_ok h
    obtain ⟨_, -, h⟩ := Result.bind_ok h
    obtain ⟨_, -, h⟩ := Result.bind_ok h
    obtain ⟨_, -, h⟩ := Result.bind_ok h
    obtain ⟨_, -, h⟩ := Result.bind_ok h
    obtain ⟨_, -, h⟩ := Result.bind_ok h
    obtain ⟨_, -, hlast⟩ := Result.bind_ok h
    have hlast := firstError_ok hlast
    simp only [List.forall_mem_cons, hstate, Bool.true_and, Bool.or_eq_false_iff] at hlast
    have hempty : c.active.commands = [] := by simpa using hlast.1.1
    rw [hempty] at hcommand
    cases hcommand

instance (event : StagedEvent) (c : Checkpoint) : Decidable (Passes cfg e event c) :=
  decidable_of_iff ((event.stage cfg e c).toOption.any
    (fun next => decide (next.validate = .ok ())) = true) <| by
    unfold Passes
    cases event.stage cfg e c with
    | error error =>
      constructor
      · intro h
        cases h
      · rintro ⟨_, h, -⟩
        cases h
    | ok next =>
      constructor
      · intro h
        exact ⟨next, rfl, of_decide_eq_true h⟩
      · rintro ⟨_, h, hvalid⟩
        cases h
        exact decide_eq_true hvalid

private theorem emits_pair {first second : StagedEvent} (hfirst : MayEmit cfg e c first)
    (hstage : first.stage cfg e c = .ok next) (hsecond : MayEmit cfg e next second) :
    Emits cfg e [first, second] c := by
  refine ⟨hfirst, fun next' hstage' => ⟨?_, fun _ _ => trivial⟩⟩
  rw [hstage] at hstage'
  cases hstage'
  exact hsecond

def autoCapabilities : CapabilitySet :=
  { features := [.responseEvents, .interruptOutput], rest := .null }

def sampleInterrupting : List Action :=
  [.start [.user [.text "go"]] ⟨"run", 0, none, none, none, []⟩ (sampleOptions sampleLimits) false,
    .catalog (.ok sampleCatalog), .opened (.ok (sampleSession autoCapabilities)), .pass] ++
  sampleEvent 0 (.ready 0) ++ sampleEvent 1 (.responseStarted "g" 0) ++
  [.control .interruptOutput, .pass]

def sampleInterrupted : System := sampleRun sampleInterrupting

def sampleInterruptedHead : Checkpoint := sampleInterrupted.head (by decide +kernel)

def sampleInterruptedEngine : Engine := sampleEngine sampleInterrupting (by decide +kernel)

def sampleResponseEnd : ResponseCompletion := ⟨"g", 0, .completed, {}, none, none, none, .null, []⟩

def sampleFinish : StagedEvent := ⟨2, .responseFinished sampleResponseEnd, "o", "p"⟩

def sampleLate : StagedEvent := ⟨3, .acknowledged (sampleName 'i' 6) none, "o", "p"⟩

def sampleNext : StagedEvent := ⟨3, .responseStarted "h" 0, "o", "p"⟩

private theorem interrupted_pending : ∃ command ∈ sampleInterruptedHead.active.commands,
    CommandIntent.isInterrupt command.intent = true :=
  ⟨⟨sampleName 'i' 6, .interruptOutput "g" 1, true⟩, by decide +kernel, rfl⟩

private theorem finish_emitted :
    MayEmit sampleConfig sampleInterruptedEngine sampleInterruptedHead sampleFinish :=
  .response rfl (by decide +kernel) (by decide +kernel)

def sampleFinished : Checkpoint :=
  (sampleFinish.stage sampleConfig sampleInterruptedEngine sampleInterruptedHead).toOption.get
    (by decide +kernel)

private theorem sampleFinished_staged :
    sampleFinish.stage sampleConfig sampleInterruptedEngine sampleInterruptedHead =
      .ok sampleFinished :=
  Result.eq_ok_get _

/-- The acknowledgement may come after the end of the response. -/
theorem late_acknowledgement_passes :
    AllPass sampleConfig sampleInterruptedEngine [sampleFinish, sampleLate]
      sampleInterruptedHead := by
  have hfind : sampleFinished.active.commands.find? (fun p => p.id = sampleName 'i' 6) =
      some ⟨sampleName 'i' 6, .interruptOutput "g" 1, true⟩ := by
    decide +kernel
  have hlate : MayEmit sampleConfig sampleInterruptedEngine sampleFinished sampleLate :=
    .acknowledged rfl hfind rfl
  have hemits := emits_pair finish_emitted sampleFinished_staged hlate
  have hmem : sampleInterruptedHead ∈ sampleInterrupted.world.durable :=
    sampleInterrupted.head_mem _
  exact (interrupt_harmless_iff ⟨_, rfl⟩ hmem interrupted_pending
    (by decide +kernel) hemits).mpr ⟨trivial, fun _ _ => ⟨trivial, fun _ _ => trivial⟩⟩

/-- The session opens its next generation before it acknowledges: the checkpoint is refused
and the run fails. -/
theorem next_generation_fails :
    Reachable sampleConfig sampleInterrupted ∧
    sampleInterruptedHead ∈ sampleInterrupted.world.durable ∧
    (∃ command ∈ sampleInterruptedHead.active.commands,
      CommandIntent.isInterrupt command.intent = true) ∧
    (sampleInterruptedEngine.capabilities sampleConfig).supports .explicitGeneration = false ∧
    Emits sampleConfig sampleInterruptedEngine [sampleFinish, sampleNext]
      sampleInterruptedHead ∧
    ¬ AllPass sampleConfig sampleInterruptedEngine [sampleFinish, sampleNext]
      sampleInterruptedHead ∧
    (sampleRun (sampleInterrupting ++ sampleEvent 2 (.responseFinished sampleResponseEnd) ++
      sampleEvent 3 (.responseStarted "h" 0))).world.durable.head?.map Checkpoint.state =
        some (.failed (Error.invalid "invalid interrupt output epoch or turn").failure) := by
  have hnext : MayEmit sampleConfig sampleInterruptedEngine sampleFinished sampleNext :=
    .response rfl (by decide +kernel) (by decide +kernel)
  refine ⟨⟨_, rfl⟩, sampleInterrupted.head_mem _, interrupted_pending, by decide +kernel,
    emits_pair finish_emitted sampleFinished_staged hnext, ?_, by decide +kernel⟩
  rintro ⟨next, hstage, -, next', hstage', hvalid, -⟩
  rw [sampleFinished_staged] at hstage
  cases hstage
  have hrefused : ¬ Passes sampleConfig sampleInterruptedEngine sampleNext sampleFinished := by
    decide +kernel
  exact hrefused ⟨next', hstage', hvalid⟩

end Zhir.Kernel
