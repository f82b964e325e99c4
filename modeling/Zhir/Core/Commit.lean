import Zhir.Core.Checkpoint

/-!
The commit validator every run store applies before replacing its head.
-/

set_option autoImplicit false
set_option relaxedAutoImplicit false

namespace Zhir.Core

inductive HistoryDelta
  | initial (messages : List HistoryEntry)
  | append (messages : List HistoryEntry)
  | replace (messages : List HistoryEntry)
  | unchanged
  deriving DecidableEq, Repr

def HistoryDelta.isReplace : HistoryDelta → Bool
  | .replace _ => true
  | _ => false

structure Commit where
  checkpoint : Checkpoint
  history : HistoryDelta
  deriving DecidableEq

namespace Commit

def expectedRevision (c : Commit) : Option Nat :=
  if c.checkpoint.revision = 0 then none else some (c.checkpoint.revision - 1)

/-- Counters and cursors that never decrease within a run. -/
def monotone (previous next : Checkpoint) : Bool :=
  let p := previous.active.session
  let n := next.active.session
  n.id = p.id && p.outputEpoch ≤ n.outputEpoch && p.profileRevision ≤ n.profileRevision &&
    p.contextRevision ≤ n.contextRevision &&
    p.acknowledgedContextRevision ≤ n.acknowledgedContextRevision &&
    p.inputPosition ≤ n.inputPosition && p.generatedInputPosition ≤ n.generatedInputPosition &&
    previous.metrics.generationRequests ≤ next.metrics.generationRequests &&
    previous.metrics.runtimeToolCalls ≤ next.metrics.runtimeToolCalls

def firstStorage : List (Bool × String) → Result Unit := firstError .storage

/-- Admitted operations keep their identity, and finished ones their record. -/
def operationFollows (next : Operations) (id : OperationId) (old : OperationRecord) :
    Result Unit :=
  match next[id]? with
  | some current => firstStorage [
      (old.origin ≠ current.origin || old.owner ≠ current.owner ||
        old.callEntry ≠ current.callEntry, "operation identity changed after admission"),
      (old.state.terminal && old ≠ current, "terminal operation changed"),
      (old.lastSequence.any (fun s => current.lastSequence.all (fun n => n < s)),
        "operation cursor moved backwards")]
  | none => firstStorage [(!old.state.terminal, "unfinished operation removed")]

/-- A pending command that is still pending keeps its intent and stays sent. -/
def commandFollows (next : List PendingCommand) (old : PendingCommand) : Result Unit :=
  match next.find? (fun command => command.id = old.id) with
  | some current =>
    if old.intent ≠ current.intent ∨ (old.sent ∧ current.sent = false) then
      .error (.storage "pending command changed after admission")
    else .ok ()
  | none => .ok ()

/-- The identity of a run never changes. -/
def contextChanged (previous next : RunContext) : Bool :=
  previous.startedAtMs ≠ next.startedAtMs || previous.deadlineAtMs ≠ next.deadlineAtMs ||
    previous.parentRunId ≠ next.parentRunId ||
    previous.parentRuntimeToolCallId ≠ next.parentRuntimeToolCallId

def follows (c : Commit) (previous : Checkpoint) : Result Unit := do
  let next := c.checkpoint
  firstStorage [
    (contextChanged previous.context next.context, "immutable run context changed"),
    (previous.state.terminal, "terminal run cannot advance"),
    (previous.state.isSuspended && next.fact ≠ .attached, "suspended run requires attach"),
    (!monotone previous next, "non-monotonic run state")]
  validateAll (fun (id, old) => operationFollows next.active.operations id old)
    previous.active.operations.toList
  validateAll (commandFollows next.active.commands) previous.active.commands
  firstStorage [(c.history.isReplace && (!previous.active.operations.isEmpty ||
      !previous.active.commands.isEmpty || !previous.active.media.isEmpty ||
      !next.fact.isHistoryRewrite), "history rewrite crosses active work")]

/-- The entries a delta claims to lead to, from the previous ones. -/
def target (c : Commit) (previous : Option Checkpoint) :
    Result (List HistoryEntry × List HistoryEntry) :=
  match c.history, previous with
  | .initial m, none => .ok ([], m)
  | .replace m, some _ => .ok ([], m)
  | .append m, some p =>
    if m.isEmpty then .error (.storage "invalid history change") else .ok (p.history.entries, m)
  | .unchanged, some p => .ok (p.history.entries, [])
  | _, _ => .error (.storage "invalid history change")

/-- `Commit::validate_against`. Entry lists are compared where the source compares their
chained digests. -/
def validateAgainst (c : Commit) (previous : Option Checkpoint) : Result Unit := do
  let next := c.checkpoint
  next.options.validate
  let actual := previous.map Checkpoint.revision
  require (actual = c.expectedRevision) (.conflict c.expectedRevision actual)
  firstStorage [
    (previous.any fun p => p.options ≠ next.options, "run options changed after start"),
    (previous.map Checkpoint.id ≠ next.parentId ||
      previous.any (fun p => p.context.runId ≠ next.context.runId),
      "checkpoint parent/run mismatch")]
  validateAll c.follows previous.toList
  let (kept, added) ← c.target previous
  validateAll HistoryEntry.validate added
  firstStorage [(kept ++ added ≠ next.history.entries, "history delta mismatch")]
  next.validate

end Commit

def sampleLimits : Limits where
  maxGenerationRequests := 100
  maxRuntimeToolCalls := 100
  maxInflightOperations := 64
  maxControlCommands := 256
  maxSessionEvents := 256
  maxMediaStreams := 64
  maxMediaChunkBytes := 1024
  maxBufferedMediaBytes := 4096
  maxBufferedMediaPackets := 256
  maxOperationConcurrency := 8
  maxObserverEvents := 256
  maxTotalTokens := none
  elapsedMs := none
  commitTimeoutMs := 5000

def sampleOptions (limits : Limits) : RunOptions where
  runtimeTools := .all
  limits
  profile := { data := .null }
  mode := .task
  providerTools := []
  toolChoice := .auto
  responseFormat := none
  stream := false

def sampleSnapshot : SessionSnapshot where
  binding := none
  capabilities := none
  id := "session"
  generationId := none
  establishment := .new
  ready := false
  generationStarted := false
  contextRevision := 0
  acknowledgedContextRevision := 0
  reducedContextRevision := none
  inputPosition := 0
  generatedInputPosition := 0
  needsGeneration := true
  responseStart := 0
  runStart := 1
  lastSequence := none
  responseStatus := none
  recovery := none
  outputEpoch := 0
  mediaArchive := none
  inputClosed := true
  inputAudioEnabled := true
  closing := false
  closure := none
  profileRevision := 0
  profile := { data := .null }
  negotiated := ⟨[], []⟩
  effective := ∅

def sampleEntry (index : Nat) (text : String) : HistoryEntry :=
  ⟨.input index, none, .user [.text text]⟩

def sampleCheckpoint (entries : List HistoryEntry) : Checkpoint where
  options := sampleOptions sampleLimits
  id := "c"
  parentId := none
  revision := 0
  context := ⟨"run", 0, none, none, none, []⟩
  history := { entries, order := .index entries }
  state := .running
  active := { session := sampleSnapshot, operations := ∅, commands := [], media := ∅ }
  metrics := {}
  fact := .started

def sampleFirst : Commit :=
  ⟨sampleCheckpoint [sampleEntry 0 "go"], .initial [sampleEntry 0 "go"]⟩

/-- The checkpoint with one more input, as a commit over `previous`. -/
def sampleNext (id : String) (previous : Checkpoint) (entry : HistoryEntry) : Commit where
  checkpoint :=
    { previous with
      id
      parentId := some previous.id
      revision := previous.revision + 1
      history := previous.history.push entry
      fact := .conversationInsert "sample" }
  history := .append [entry]

def sampleSecond : Commit := sampleNext "cc" sampleFirst.checkpoint (sampleEntry 1 "on")

end Zhir.Core
