import Zhir.Kernel.CommandMoves
import Zhir.Library.TreeMap

/-!
What each staging function does to the checkpoint it is given, as one inversion lemma for
each.
-/

set_option autoImplicit false
set_option relaxedAutoImplicit false

namespace Zhir.Kernel

open Zhir.Core

variable {c c' : Checkpoint}

theorem stageInsert_ok {entry : HistoryEntry} {commandId : String}
    (h : stageInsert entry commandId c = .ok c') :
    entry.validate = .ok () ∧ c' = appendCommand commandId c.history.len .submitted none
      { c with
        history := c.history.push entry
        active.session.inputPosition := c.active.session.inputPosition + 1
        active.session.needsGeneration := true } := by
  obtain ⟨history, happend, h⟩ := Result.bind_ok h
  obtain ⟨rfl, hvalid⟩ := append_single happend
  cases h
  exact ⟨hvalid, rfl⟩

theorem stageRewrite_ok {rewrite : HistoryRewrite} {commandId : String}
    (h : stageRewrite rewrite commandId c = .ok c') :
    ∃ history, History.fromEntries rewrite.entries = .ok history ∧ ∃ runStart,
      c' = pushCommand commandId (.replaceContext (c.active.session.contextRevision + 1)) false
        { c with
          history
          active.session.runStart := runStart
          active.session.responseStart := history.len
          active.session.contextRevision := c.active.session.contextRevision + 1
          active.session.reducedContextRevision :=
            some (c.active.session.contextRevision + 1) } := by
  obtain ⟨history, hfrom, h⟩ := Result.bind_ok h
  cases h
  exact ⟨history, hfrom, _, rfl⟩

theorem stageReady_ok {contextRevision : Nat} (h : stageReady contextRevision c = .ok c') :
    c.active.session.ready = false ∧
      contextRevision = c.active.session.acknowledgedContextRevision ∧
      c' = { c with
        active.session.ready := true, active.session.establishment := .established } := by
  unfold stageReady at h
  split at h
  · cases h
  · rename_i hready
    split at h
    · cases h
    · rename_i hrevision
      cases h
      exact ⟨by simpa using hready, not_not.mp hrevision, rfl⟩

private theorem openGeneration_ok {generationId : String} {inputPosition : Nat}
    (h : openGeneration generationId inputPosition c = .ok c') :
    generationId ≠ "" ∧ inputPosition ≤ c.active.session.inputPosition ∧
      c.active.session.busyGeneration = false ∧
      c' = { c with
        active.session.generationId := some generationId
        active.session.generatedInputPosition := inputPosition
        active.session.generationStarted := false
        active.session.responseStatus := none
        active.session.responseStart := c.history.len } := by
  unfold openGeneration at h
  split at h
  · cases h
  · rename_i hcond
    simp only [not_or, gt_iff_lt, Nat.not_lt, Bool.not_eq_true] at hcond
    cases h
    exact ⟨hcond.1, hcond.2.1, hcond.2.2, rfl⟩

/-- The generation a response starts for: one requested before, or opened by the session. -/
def startedGeneration (capabilities : CapabilitySet) (generationId : String)
    (inputPosition : Nat) (c : Checkpoint) : Checkpoint :=
  if capabilities.supports .explicitGeneration then c
  else { c with
    active.session.generationId := some generationId
    active.session.generatedInputPosition := inputPosition
    active.session.generationStarted := false
    active.session.responseStatus := none
    active.session.responseStart := c.history.len }

/-- The checkpoint of a started response, with the seal of the input it may bring. -/
def startedResponse (capabilities : CapabilitySet) (commandId : String) (c : Checkpoint) :
    Checkpoint :=
  if sealsInput capabilities c then
    pushCommand commandId .sealUserInput false
      { c with active.session.generationStarted := true, active.session.inputClosed := true }
  else { c with active.session.generationStarted := true }

private theorem startedResponse_ok {capabilities : CapabilitySet}
    {generationId commandId : String} {inputPosition : Nat} {next : Checkpoint}
    (h : (if next.active.session.generationStarted ∨
          next.active.session.generationId ≠ some generationId ∨
          next.active.session.generatedInputPosition ≠ inputPosition then
        .error (.protocol "unexpected response start")
      else if sealsInput capabilities { next with active.session.generationStarted := true } then
        .ok (pushCommand commandId .sealUserInput false
          { next with
            active.session.generationStarted := true, active.session.inputClosed := true })
      else .ok { next with active.session.generationStarted := true } : Result Checkpoint) =
        .ok c') :
    next.active.session.generationStarted = false ∧
      next.active.session.generationId = some generationId ∧
      next.active.session.generatedInputPosition = inputPosition ∧
      c' = startedResponse capabilities commandId next := by
  unfold startedResponse
  split at h
  · cases h
  · rename_i hcond
    simp only [not_or, not_not, Bool.not_eq_true] at hcond
    refine ⟨hcond.1, hcond.2.1, hcond.2.2, ?_⟩
    split at h
    · rename_i hseals
      cases h
      exact (if_pos hseals).symm
    · rename_i hseals
      cases h
      exact (if_neg hseals).symm

theorem stageStarted_ok {capabilities : CapabilitySet} {generationId commandId : String}
    {inputPosition : Nat}
    (h : stageStarted capabilities generationId inputPosition commandId c = .ok c') :
    capabilities.supports .responseEvents = true ∧
      (capabilities.supports .explicitGeneration = false →
        inputPosition ≤ c.active.session.inputPosition ∧
          c.active.session.busyGeneration = false) ∧
      ∃ next, next = startedGeneration capabilities generationId inputPosition c ∧
        next.active.session.generationStarted = false ∧
        next.active.session.generationId = some generationId ∧
        next.active.session.generatedInputPosition = inputPosition ∧
        c' = startedResponse capabilities commandId next := by
  simp only [stageStarted] at h
  split at h
  · cases h
  · rename_i hresponse
    refine ⟨by simpa using hresponse, ?_⟩
    unfold startedGeneration
    split at h
    · rename_i hexplicit
      refine ⟨fun hnot => absurd hexplicit (by simp [hnot]), c, (if_pos hexplicit).symm, ?_⟩
      exact startedResponse_ok h
    · rename_i hexplicit
      obtain ⟨next, hopen, h⟩ := Result.bind_ok h
      obtain ⟨-, hposition, hbusy, rfl⟩ := openGeneration_ok hopen
      exact ⟨fun _ => ⟨hposition, hbusy⟩, _, (if_neg hexplicit).symm, startedResponse_ok h⟩

theorem stageEntry_ok {capabilities : CapabilitySet} {commandId : String} {entry : HistoryEntry}
    (h : stageEntry capabilities commandId entry c = .ok c') :
    entry.validate = .ok () ∧
      c' = if capabilities.supports .explicitGeneration then
        appendCommand commandId c.history.len .accepted none
          { c with history := c.history.push entry }
      else { c with history := c.history.push entry } := by
  obtain ⟨history, happend, h⟩ := Result.bind_ok h
  obtain ⟨rfl, hvalid⟩ := append_single happend
  refine ⟨hvalid, ?_⟩
  split at h
  · rename_i hexplicit
    cases h
    exact (if_pos hexplicit).symm
  · rename_i hexplicit
    cases h
    exact (if_neg hexplicit).symm

theorem stageConversationItem_ok {capabilities : CapabilitySet} {itemId commandId : String}
    {message : Message}
    (h : stageConversationItem capabilities itemId message commandId c = .ok c') :
    itemId ≠ "" ∧ c' = c ∧ c.history.byId (.conversation c.active.session.id itemId) =
        some ⟨.conversation c.active.session.id itemId, none, message⟩ ∨
      itemId ≠ "" ∧ c.history.byId (.conversation c.active.session.id itemId) = none ∧
      stageEntry capabilities commandId
        ⟨.conversation c.active.session.id itemId, none, message⟩ c = .ok c' := by
  simp only [stageConversationItem] at h
  split at h
  · cases h
  · rename_i hcond
    simp only [not_or] at hcond
    obtain ⟨_, -, h⟩ := Result.bind_ok h
    split at h
    · rename_i previous hprevious
      split at h
      · cases h
      · rename_i hsame
        cases h
        obtain rfl := not_not.mp hsame
        exact .inl ⟨hcond.2.1, rfl, hprevious⟩
    · rename_i hnew
      exact .inr ⟨hcond.2.1, hnew, h⟩

/-- What a command adds to the model's context: a revision, and the entry it appends. -/
def contextOf : CommandIntent → Option (Nat × Option Nat)
  | .append entry contextRevision _ _ _ => some (contextRevision, some entry)
  | .replaceContext contextRevision => some (contextRevision, none)
  | _ => none

/-- What acknowledging a command with this intent changes besides the outbox. -/
inductive Settled (c : Checkpoint) : CommandIntent → Checkpoint → Prop
  | append {entry inputPosition : Nat} {source : AppendSource} {operationId : Option OperationId} :
      Settled c (.append entry (c.active.session.acknowledgedContextRevision + 1) inputPosition
          source operationId)
        { c with
          active.operations := operationId.elim c.active.operations c.active.operations.erase
          active.session.acknowledgedContextRevision :=
            c.active.session.acknowledgedContextRevision + 1 }
  | replaceContext :
      Settled c (.replaceContext (c.active.session.acknowledgedContextRevision + 1))
        { c with
          active.session.acknowledgedContextRevision :=
            c.active.session.acknowledgedContextRevision + 1 }
  | updateProfile {revision : Nat} {profile : RequestProfile} {negotiated : NegotiatedProfile} :
      Settled c (.updateProfile revision profile)
        { c with
          active.session.negotiated := negotiated
          active.session.effective := negotiated.unconfirmed
          active.session.profileRevision := revision
          active.session.profile := profile }
  | other {intent : CommandIntent} (hcontext : contextOf intent = none)
      (hprofile : ∀ revision profile, intent ≠ .updateProfile revision profile) :
      Settled c intent c

private theorem contextual_ok {revision : Nat} {next : Checkpoint}
    (h : (if revision ≠ next.active.session.acknowledgedContextRevision + 1 then
        .error (.protocol "out-of-order projection acknowledgement")
      else .ok { next with
        active.session.acknowledgedContextRevision := revision } : Result Checkpoint) = .ok c') :
    revision = next.active.session.acknowledgedContextRevision + 1 ∧
      c' = { next with
        active.session.acknowledgedContextRevision :=
          next.active.session.acknowledgedContextRevision + 1 } := by
  split at h
  · cases h
  · rename_i hrevision
    obtain rfl := not_not.mp hrevision
    cases h
    exact ⟨rfl, rfl⟩

private theorem settleCommand_ok
    {negotiated : List HistoryEntry → RequestProfile → Result NegotiatedProfile}
    {intent : CommandIntent} (h : settleCommand negotiated intent c = .ok c') :
    Settled c intent c' := by
  cases intent with
  | append entry contextRevision inputPosition source operationId =>
    cases operationId with
    | none =>
      obtain ⟨hrevision, rfl⟩ := contextual_ok h
      rw [hrevision]
      exact .append
    | some id =>
      obtain ⟨hrevision, rfl⟩ := contextual_ok h
      rw [hrevision]
      exact .append
  | replaceContext contextRevision =>
    obtain ⟨rfl, rfl⟩ := contextual_ok h
    exact .replaceContext
  | updateProfile revision profile =>
    obtain ⟨selected, -, h⟩ := Result.bind_ok h
    cases h
    exact .updateProfile
  | _ =>
    cases h
    exact .other rfl fun _ _ hne => by cases hne

theorem stageAcknowledged_ok
    {negotiated : List HistoryEntry → RequestProfile → Result NegotiatedProfile}
    {commandId : String} {recovery : Option RecoveryRef}
    (h : stageAcknowledged negotiated commandId recovery c = .ok c') :
    ∃ command next, c.active.commands.find? (fun p => p.id = commandId) = some command ∧
      Settled
        { c with active.commands := c.active.commands.eraseP fun p => p.id = commandId }
        command.intent next ∧
      c' = { next with active.session.recovery := recovery.or next.active.session.recovery } := by
  simp only [stageAcknowledged] at h
  split at h
  · cases h
  · rename_i command hcommand
    obtain ⟨next, hnext, h⟩ := Result.bind_ok h
    cases h
    exact ⟨command, next, hcommand, settleCommand_ok hnext, rfl⟩

theorem recordOutput_ok {capabilities : CapabilitySet} {output : Output} {origin : CallRef}
    {operationId : String} (h : recordOutput capabilities output origin operationId c = .ok c') :
    ∃ operations, c' = { c with active.operations := operations } := by
  cases output with
  | delegation request =>
    simp only [recordOutput] at h
    split at h
    · cases h
    · split at h
      · cases h
      · cases h
        exact ⟨_, rfl⟩
  | runtimeToolCall call =>
    simp only [recordOutput] at h
    split at h
    · cases h
    · cases h
      exact ⟨_, rfl⟩
  | providerToolCall call =>
    cases h
    exact ⟨_, rfl⟩
  | content content =>
    cases h
    exact ⟨c.active.operations, rfl⟩

theorem stageOutput_ok {capabilities : CapabilitySet} {o : OutputEvent}
    {operationId commandId : String}
    (h : stageOutput capabilities o operationId commandId c = .ok c') :
    o.foreign c = false ∧ validateOutput [o.output] = .ok () ∧ o.itemId ≠ "" ∧ o.callerId ≠ "" ∧
      (c' = c ∧ c.history.byId (o.entry c).id = some (o.entry c) ∨
        c.history.byId (o.entry c).id = none ∧ ∃ recorded,
          recordOutput capabilities o.output (o.origin c) operationId c = .ok recorded ∧
          stageEntry capabilities commandId (o.entry c) recorded = .ok c') := by
  simp only [stageOutput] at h
  split at h
  · cases h
  · rename_i hforeign
    obtain ⟨⟨⟩, hvalid, h⟩ := Result.bind_ok h
    split at h
    · cases h
    · rename_i hids
      simp only [not_or] at hids
      refine ⟨by simpa using hforeign, hvalid, hids.1, hids.2, ?_⟩
      split at h
      · rename_i previous hprevious
        split at h
        · cases h
        · rename_i hsame
          cases h
          obtain rfl := not_not.mp hsame
          exact .inl ⟨rfl, hprevious⟩
      · rename_i hnew
        obtain ⟨recorded, hrecorded, h⟩ := Result.bind_ok h
        exact .inr ⟨hnew, recorded, hrecorded, h⟩

theorem stageFinished_ok {capabilities : CapabilitySet} {r : ResponseCompletion}
    {commandId : String} (h : stageFinished capabilities r commandId c = .ok c') :
    c.active.session.generationId = some r.generationId ∧
      c.active.session.responseStatus = none ∧ c.active.session.generationStarted = true ∧
      c.active.session.generatedInputPosition ≤ r.inputPosition ∧
      r.inputPosition ≤ c.active.session.inputPosition ∧
      stageEntry capabilities commandId (completionEntry r c) (settleResponse r c) = .ok c' := by
  simp only [stageFinished] at h
  split at h
  · cases h
  · rename_i hcond
    split at h
    · cases h
    · rename_i hposition
      simp only [not_or, not_not, Bool.not_eq_true, Bool.not_eq_false,
        Option.isSome_eq_false_iff, Option.isNone_iff_eq_none] at hcond
      simp only [not_or, gt_iff_lt, Nat.not_lt] at hposition
      exact ⟨hcond.1, hcond.2.1, hcond.2.2, hposition.1, hposition.2, h⟩

theorem stageClosed_ok {reason : String} {providerData : Value}
    (h : stageClosed reason providerData c = .ok c') :
    c.active.session.closure = none ∧
      c' = { c with
        active.session.closure := some ⟨reason, providerData⟩
        active.session.inputClosed := true } := by
  unfold stageClosed at h
  split at h
  · cases h
  · rename_i hcond
    simp only [not_or, Bool.not_eq_true, Option.isSome_eq_false_iff,
      Option.isNone_iff_eq_none] at hcond
    cases h
    exact ⟨hcond.2, rfl⟩

/-- The table loses records at most, and the history grows. -/
structure Shrinks (c c' : Checkpoint) : Prop where
  options : c'.options = c.options
  len : c.history.len ≤ c'.history.len
  record : ∀ (id : OperationId) (op : OperationRecord), c'.active.operations[id]? = some op →
    c.active.operations[id]? = some op
  size : c'.active.operations.size ≤ c.active.operations.size

theorem Shrinks.same (hoptions : c'.options = c.options)
    (hoperations : c'.active.operations = c.active.operations)
    (hlen : c.history.len ≤ c'.history.len) : Shrinks c c' where
  options := hoptions
  len := hlen
  record id op hop := by rwa [hoperations] at hop
  size := by rw [hoperations]

theorem stageEntry_keeps {capabilities : CapabilitySet} {commandId : String}
    {entry : HistoryEntry} (h : stageEntry capabilities commandId entry c = .ok c') :
    c'.active.operations = c.active.operations ∧ c'.options = c.options ∧ c'.state = c.state ∧
      c'.history.len = c.history.len + 1 := by
  obtain ⟨-, rfl⟩ := stageEntry_ok h
  split <;> exact ⟨rfl, rfl, rfl, push_len c.history entry⟩

private theorem getElem?_retainOperations {operations : Operations} {id : OperationId}
    {op : OperationRecord} (h : (retainOperations operations)[id]? = some op) :
    operations[id]? = some op := by
  unfold retainOperations at h
  rw [Library.TreeMap.getElem?_foldl_erase] at h
  split at h
  · cases h
  · exact h

private theorem shrinks_settled {intent : CommandIntent} (h : Settled c intent c') :
    Shrinks c c' := by
  cases h with
  | @append entry inputPosition source operationId =>
    cases operationId with
    | none => exact .same rfl rfl le_rfl
    | some removed =>
      refine ⟨rfl, le_rfl, ?_, Std.ExtTreeMap.size_erase_le⟩
      intro id op hop
      change (c.active.operations.erase removed)[id]? = some op at hop
      rw [Std.ExtTreeMap.getElem?_erase] at hop
      split at hop
      · cases hop
      · exact hop
  | _ => exact .same rfl rfl le_rfl

private theorem shrinks_started (capabilities : CapabilitySet) (generationId commandId : String)
    (inputPosition : Nat) (c : Checkpoint) :
    Shrinks c (startedResponse capabilities commandId
      (startedGeneration capabilities generationId inputPosition c)) := by
  unfold startedResponse startedGeneration
  split <;> split <;> exact .same rfl rfl le_rfl

/-- The output's call is recorded, and its entry appended. -/
structure Recorded (capabilities : CapabilitySet) (o : OutputEvent) (operationId : String)
    (c recorded c' : Checkpoint) : Prop where
  fresh : c.history.byId (o.entry c).id = none
  call : recordOutput capabilities o.output (o.origin c) operationId c = .ok recorded
  operations : c'.active.operations = recorded.active.operations
  options : c'.options = c.options
  len : c'.history.len = c.history.len + 1

theorem stageEvent_table {cfg : Config} {e : Engine} {body : SessionEventBody}
    {operationId commandId : String}
    (h : stageEvent cfg e body operationId commandId c = .ok c') :
    Shrinks c c' ∨ ∃ (o : OutputEvent) (recorded : Checkpoint),
      body = .output o.generationId o.itemId o.callerId o.output ∧
        Recorded (e.capabilities cfg) o operationId c recorded c' := by
  cases body with
  | ready contextRevision =>
    obtain ⟨-, -, rfl⟩ := stageReady_ok h
    exact .inl (.same rfl rfl le_rfl)
  | responseStarted generationId inputPosition =>
    obtain ⟨-, -, next, rfl, -, -, -, rfl⟩ := stageStarted_ok h
    exact .inl (shrinks_started _ _ _ _ c)
  | conversationItem itemId message =>
    rcases stageConversationItem_ok h with ⟨-, rfl, -⟩ | ⟨-, -, h⟩
    · exact .inl (.same rfl rfl le_rfl)
    · obtain ⟨hoperations, hoptions, -, hlen⟩ := stageEntry_keeps h
      exact .inl (.same hoptions hoperations (by omega))
  | acknowledged id recovery =>
    obtain ⟨command, next, -, hsettled, rfl⟩ := stageAcknowledged_ok h
    have hshrinks := shrinks_settled hsettled
    exact .inl ⟨hshrinks.options, hshrinks.len, hshrinks.record, hshrinks.size⟩
  | output generationId itemId callerId output =>
    obtain ⟨-, -, -, -, ⟨rfl, -⟩ | ⟨hnew, recorded, hrecorded, h⟩⟩ := stageOutput_ok h
    · exact .inl (.same rfl rfl le_rfl)
    · obtain ⟨hoperations, hoptions, -, hlen⟩ := stageEntry_keeps h
      refine .inr ⟨⟨generationId, itemId, callerId, output⟩, recorded, rfl, hnew, hrecorded,
        hoperations, ?_, ?_⟩
      · obtain ⟨operations, rfl⟩ := recordOutput_ok hrecorded
        exact hoptions
      · obtain ⟨operations, rfl⟩ := recordOutput_ok hrecorded
        exact hlen
  | responseFinished completion =>
    obtain ⟨-, -, -, -, -, h⟩ := stageFinished_ok h
    obtain ⟨hoperations, hoptions, -, hlen⟩ := stageEntry_keeps h
    refine .inl ⟨hoptions, Nat.le_trans (Nat.le_add_right _ 1) hlen.ge, ?_, ?_⟩
    · intro id op hop
      rw [hoperations] at hop
      exact getElem?_retainOperations hop
    · rw [hoperations]
      exact Library.TreeMap.size_foldl_erase_le _ c.active.operations
  | recovery reference =>
    cases h
    exact .inl (.same rfl rfl le_rfl)
  | closed reason providerData =>
    obtain ⟨-, rfl⟩ := stageClosed_ok h
    exact .inl (.same rfl rfl le_rfl)
  | operation origin event =>
    cases h
    exact .inl (.same rfl rfl le_rfl)
  | delta generationId value =>
    cases h
    exact .inl (.same rfl rfl le_rfl)

end Zhir.Kernel
