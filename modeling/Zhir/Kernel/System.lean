import Zhir.Kernel.Lifecycle

/-!
A run over its whole life: executions that start, interleave with their tasks, fail or
crash, and are recovered from a durable checkpoint.
-/

set_option autoImplicit false
set_option relaxedAutoImplicit false

namespace Zhir.Kernel

open Zhir.Core
open Zhir.Library (Program)

variable (cfg : Config)

structure Execution where
  engine : Engine
  stage : Stage

/-- A run is executed by at most one process at a time. -/
inductive System
  | idle (world : World)
  | live (x : Execution)

def System.world : System → World
  | .idle world => world
  | .live x => x.engine.world

/-- Run one handler of an execution. Its failure settles the execution; a checkpoint that
is no longer active ends it. -/
def react (x : Execution) (handler : Handler Stage) : Execution :=
  match Program.run handler x.engine with
  | (.ok stage, e) => ⟨e, if e.current.state.active then stage else .ended⟩
  | (.error error, e) => ⟨(Program.run (settle cfg error) e).2, .ended⟩

/-- `Runtime::start` up to the checked request. -/
def startRequest (messages : List Message) (context : RunContext) (options : RunOptions) :
    Result Request := do
  options.validate
  if context.runId = "" then throw (.invalid "empty run id")
  let history ← History.ofMessages messages
  history.validate
  if history.pendingCalls ≠ [] ∨ history.pendingDelegations ≠ [] then
    throw (.invalid "new run has unresolved work")
  let deadline := match options.limits.elapsedMs with
    | none => context.deadlineAtMs
    | some ms =>
      let limit := min (context.startedAtMs + ms) maxU64
      some (context.deadlineAtMs.elim limit fun old => min old limit)
  return .start history { context with deadlineAtMs := deadline } options

/-- `Runtime::continue_from` and `Runtime::resume` up to the checked request. Only a
suspended run takes messages and resolutions. -/
def recoverRequest (checkpoint : Checkpoint) (messages : List Message)
    (resolutions : List RecoveryResolution) (metadata : List (String × Value)) :
    Result Request := do
  checkpoint.validate
  if checkpoint.state.active then return .recover checkpoint [] [] []
  else if checkpoint.state.isSuspended then
    return .recover checkpoint messages resolutions metadata
  else throw (.resume "resume requires a suspended checkpoint")

def newSession (id : String) (history : History) (options : RunOptions) : SessionSnapshot where
  binding := none
  capabilities := none
  id
  generationId := none
  establishment := .new
  ready := false
  generationStarted := false
  contextRevision := 0
  acknowledgedContextRevision := 0
  reducedContextRevision := none
  inputPosition := 0
  generatedInputPosition := 0
  needsGeneration := true
  responseStart := 0
  runStart := history.len
  lastSequence := none
  responseStatus := none
  recovery := none
  outputEpoch := 0
  mediaArchive := none
  inputClosed := options.mode = .task
  inputAudioEnabled := true
  closing := false
  closure := none
  profileRevision := 0
  profile := options.profile
  negotiated := ⟨[], []⟩
  effective := ∅

/-- `BTreeMap::extend` of run metadata. -/
def extendMetadata (metadata added : List (String × Value)) : List (String × Value) :=
  added.foldl (fun m kv => Value.insertField m kv.1 kv.2) metadata

def initial (checkpointId sessionId : String) : Request → Checkpoint × HistoryDelta
  | .start history context options =>
    ({ options, id := checkpointId, parentId := none, revision := 0, context, history
       state := .running
       active :=
         { session := newSession sessionId history options, operations := ∅, commands := []
           media := ∅ }
       metrics := {}, fact := .started },
      .initial history.entries)
  | .recover checkpoint _ _ metadata =>
    ({ checkpoint with
       id := checkpointId
       parentId := some checkpoint.id
       revision := checkpoint.revision + 1
       state := .running
       context.metadata := extendMetadata checkpoint.context.metadata metadata
       fact := .attached },
      .unchanged)

/-- The engine of a new execution, after its first checkpoint is durable. -/
def Engine.boot (world : World) (first : Checkpoint) : Engine where
  world
  current := first
  catalog := .empty
  sent := (first.active.commands.filter PendingCommand.sent).map PendingCommand.id

def expire (expired : Bool) (c : Checkpoint) : Checkpoint :=
  if expired then setState (.limited .deadline) c else c

/-- `execute` up to the main loop. A run whose deadline has passed is limited at once. -/
def begin (world : World) (request : Request) (expired : Bool) : System :=
  let (first, delta) :=
    initial (cfg.checkpointName world.checkpoints) (cfg.name world.names) request
  let first := expire expired first
  let world := { world with checkpoints := world.checkpoints + 1, names := world.names + 1 }
  match persist cfg world ⟨first, delta⟩ with
  | (.error _, world) => .idle world
  | (.ok (), world) =>
    let e := Engine.boot world first
    if first.state.terminal then .live ⟨e, .ended⟩
    else .live (react cfg ⟨e, .catalog request⟩ (do check cfg; return .catalog request))

inductive TaskEvent
  | submitted (result : Result Unit)
  | decided (decisions : Result (List ApprovalDecision))
  | invoked
  | returned (result : Result ToolExecution)
  | operation (event : Result (Option OperationEvent))
  | progress (value : Value)
  | done (result : Result Unit)
  | model (event : Result (Option SessionEvent))
  | sealed (segment : SealedMedia) (reference : ResourceRef)
  | mediaEnded (result : Result Unit)

/-- What is left of the task, what it reports, and what it did outside. -/
structure TaskStep where
  remaining : Option Task
  report : Option Work := none
  effects : List Effect := []

/-- A delegation handler only ever returns an active handle. -/
def returnedHandle : Result ToolExecution → Bool
  | .ok (.finished _) => false
  | _ => true

def recoverReturned (record : OperationRecord) (result : Result ToolExecution) : Bool :=
  record.owner ≠ .delegation || returnedHandle result

/-- `Result::map_err`. -/
def mapError {α : Type} (f : Error → Error) : Result α → Result α
  | .ok a => .ok a
  | .error error => .error (f error)

def continues {α : Type} : Result (Option α) → Bool
  | .ok (some _) => true
  | _ => false

def validDecisions (bindings : List Binding) (decisions : Result (List ApprovalDecision)) :
    Prop :=
  cfg.approval = true ∨ decisions = .ok (bindings.map fun _ => .allow)

instance (bindings : List Binding) (decisions : Result (List ApprovalDecision)) :
    Decidable (validDecisions cfg bindings decisions) :=
  match decisions with
  | .ok decisions =>
    decidable_of_iff (cfg.approval = true ∨ decisions = bindings.map fun _ => .allow)
      (by simp [validDecisions])
  | .error _ => decidable_of_iff (cfg.approval = true) (by simp [validDecisions])

/-- One step of a task, if the event is one the task can see. -/
def taskStep : Task → TaskEvent → Option TaskStep
  | .submit projection (command :: rest), .submitted (.ok ()) => some
    { remaining := if rest.isEmpty then none else some (.submit projection rest)
      report := if rest.isEmpty then some (.commandSent (.ok ())) else none
      effects := [.submitted projection command] }
  | .submit projection (command :: _), .submitted (.error error) => some
    { remaining := none
      report := some (.commandSent (.error error))
      effects := [.submitted projection command] }
  | .approval bindings, .decided decisions =>
    if validDecisions cfg bindings decisions then some
      { remaining := none, report := some (.admitted bindings decisions) }
    else none
  | .start id call false, .invoked => some
    { remaining := some (.start id call true), effects := [.started id] }
  | .start id _ true, .returned result => some
    { remaining := none, report := some (.started id result) }
  | .start id call true, .progress value => some
    { remaining := some (.start id call true), report := some (.progress id value) }
  | .delegate id request false, .invoked => some
    { remaining := some (.delegate id request true), effects := [.started id] }
  | .delegate id _ true, .returned result =>
    if returnedHandle result then some
      { remaining := none, report := some (.started id result) }
    else none
  | .recover record false, .invoked => some
    { remaining := some (.recover record true), effects := [.recovered record.id] }
  | .recover record true, .returned result =>
    if recoverReturned record result then some
      { remaining := none
        report := some (.started record.id (mapError recoveryFailed result)) }
    else none
  | .recover record true, .progress value => some
    { remaining := some (.recover record true), report := some (.progress record.id value) }
  | .events id, .operation event => some
    { remaining := if continues event then some (.events id) else none
      report := some (.operation id event) }
  | .events id, .progress value => some
    { remaining := some (.events id), report := some (.progress id value) }
  | .cancel id report, .done (.error error) => some
    { remaining := none
      report := if report then some (.cancelFailed id error) else none
      effects := [.cancelled id] }
  | .cancel id _, .done (.ok ()) => some { remaining := none, effects := [.cancelled id] }
  | .reply id value, .done result => some
    { remaining := none, report := some (.replyDone id result), effects := [.replied id value] }
  | .session, .model event => some
    { remaining := if continues event then some .session else none
      report := some (.model event) }
  | .mediaInput segment .sealing, .sealed sealedSegment reference => some
    { remaining := some (.mediaInput segment .waiting)
      report := some (.inputReady sealedSegment reference) }
  | .mediaInput _ .sending, .mediaEnded result => some
    { remaining := none, report := some (.inputSent result) }
  | .mediaInput _ .sealing, .mediaEnded (.error error) => some
    { remaining := none, report := some (.inputSent (.error error)) }
  | .mediaOutput .sealing, .sealed segment reference => some
    { remaining := some (.mediaOutput .waiting)
      report := some (.mediaReady segment reference) }
  | .mediaOutput .sealing, .mediaEnded (.ok ()) => some
    { remaining := none, report := some .mediaDone }
  | .mediaOutput .sealing, .mediaEnded (.error error) => some
    { remaining := none, report := some (.mediaError error) }
  | _, _ => none

/-- Apply a task's step; a report waits until the work queue has room. -/
def Engine.taskStepped (index : Nat) (step : TaskStep) (e : Engine) : Engine :=
  { e with
    tasks := e.tasks.take index ++ step.remaining.toList ++ e.tasks.drop (index + 1)
    queue := e.queue ++ step.report.toList
    world.trace := step.effects ++ e.world.trace }

def Engine.queueRoom (e : Engine) : Bool :=
  decide (e.queue.length < e.current.options.limits.maxSessionEvents)

def Engine.runTask (index : Nat) (event : TaskEvent) (e : Engine) : Engine :=
  match e.tasks[index]? with
  | none => e
  | some task =>
    match taskStep cfg task event with
    | none => e
    | some step =>
      if step.report.isSome ∧ e.queueRoom = false then e else e.taskStepped index step

inductive Action
  | start (messages : List Message) (context : RunContext) (options : RunOptions)
      (expired : Bool)
  | recover (checkpoint : Checkpoint) (messages : List Message)
      (resolutions : List RecoveryResolution) (metadata : List (String × Value))
      (expired : Bool)
  /-- The host's catalog is opened, or fails to. -/
  | catalog (opened : Result Catalog)
  /-- The model's session is opened, or fails to. -/
  | opened (result : Result ModelSession)
  /-- A host control is received. -/
  | control (body : ControlBody)
  /-- One pass of the main loop. -/
  | pass
  /-- The next work item is received. -/
  | work
  /-- The next host packet is received. -/
  | packet
  /-- The host queues a media packet. -/
  | media (chunk : MediaChunk)
  /-- An interruption wakes the loop. -/
  | wake
  | task (index : Nat) (event : TaskEvent)
  /-- The process is gone; only what is durable survives. -/
  | crash

/-- A begun execution from a request, if the request is well formed. -/
def beginRequest (world : World) (request : Result Request) (expired : Bool) : System :=
  match request with
  | .ok request => begin cfg world request expired
  | .error _ => .idle world

def World.durable (w : World) : List Checkpoint :=
  w.trace.filterMap fun
    | .committed c => some c
    | _ => none

/-- An execution that has not ended, at the given kind of stage. -/
def stepLive (x : Execution) : Action → Execution
  | .catalog opened =>
    match x.stage with
    | .catalog request => react cfg x (catalogOpened cfg request opened)
    | _ => x
  | .opened result =>
    match x.stage with
    | .opening session => react cfg x (sessionOpened cfg session result)
    | _ => x
  | .control body =>
    match x.stage with
    | .catalog _ | .opening _ | .receive => react cfg x (receiveControl cfg body x.stage)
    | _ => x
  | .pass =>
    match x.stage with
    | .pass => react cfg x (loopPass cfg)
    | _ => x
  | .work =>
    match x.stage with
    | .receive => react cfg x (receiveWork cfg)
    | _ => x
  | .packet =>
    match x.stage with
    | .receive => react cfg x (receivePacket cfg)
    | _ => x
  | .wake =>
    match x.stage with
    | .catalog _ | .opening _ => react cfg x (do check cfg; return x.stage)
    | .receive => { x with stage := .pass }
    | _ => x
  | .media chunk =>
    if x.engine.mediaClosed then x
    else { x with engine := { x.engine with media := x.engine.media ++ [chunk] } }
  | .task index event => { x with engine := x.engine.runTask cfg index event }
  | _ => x

/-- One step of the run. An action that does not apply changes nothing. -/
def System.step (s : System) (action : Action) : System :=
  match s, action with
  | .idle world, .start messages context options expired =>
    beginRequest cfg world (startRequest messages context options) expired
  | .idle world, .recover checkpoint messages resolutions metadata expired =>
    if checkpoint ∈ world.durable then
      beginRequest cfg world (recoverRequest checkpoint messages resolutions metadata) expired
    else s
  | .live x, .crash => .idle x.engine.world
  | .live x, action => .live (stepLive cfg x action)
  | s, _ => s

def System.run (s : System) (actions : List Action) : System := actions.foldl (System.step cfg) s

def Reachable (s : System) : Prop := ∃ actions, s = System.run cfg (.idle .start) actions

def sampleName (letter : Char) (n : Nat) : String := String.ofList (List.replicate (n + 1) letter)

private theorem sampleName_injective (letter : Char) : Function.Injective (sampleName letter) := by
  intro a b h
  simpa [sampleName] using congrArg (fun s => s.toList.length) h

private theorem sampleName_ne_empty (letter : Char) (n : Nat) : sampleName letter n ≠ "" := by
  intro h
  simpa [sampleName] using congrArg (fun s => s.toList.length) h

/-- What an exchange session over a stateless chat model offers. -/
def sampleCapabilities : CapabilitySet :=
  { features := [.explicitGeneration, .responseEvents, .localProjection, .replaceContext,
      .asyncResults, .delegation]
    rest := .null }

def sampleConfig : Config where
  name := sampleName 'i'
  name_injective := sampleName_injective 'i'
  name_ne_empty := sampleName_ne_empty 'i'
  checkpointName := sampleName 'c'
  checkpointName_injective := sampleName_injective 'c'
  checkpointName_ne_empty := sampleName_ne_empty 'c'
  verdict _ := .accepted
  interruption _ := none
  capabilities := sampleCapabilities
  negotiate _ := .ok ⟨[], []⟩
  delegation := true
  approval := false
  resources := false
  scheduler := defaultScheduling
  historyReducer := none
  archive _ := .error .cancelled
  archivedStreams _ _ := .ok []

/-- A tool for parallel calls and one whose calls run alone. -/
def sampleCatalog : Catalog where
  specs := [{ name := "look", parallel := true, rest := .null },
    { name := "write", parallel := false, rest := .null }]
  inner _ call := .ok { name := call.name, parallel := call.name = "look", rest := .null }

def sampleSession (capabilities : CapabilitySet) : ModelSession :=
  ⟨⟨none, capabilities, fun _ => .ok ⟨[], []⟩⟩, false, false⟩

def sampleCall (id tool : String) : Output :=
  .runtimeToolCall ⟨id, tool, .structured (.object [])⟩

def sampleEvent (sequence : Nat) (body : SessionEventBody) : List Action :=
  [.task 0 (.model (.ok (some ⟨sequence, body⟩))), .work, .pass, .pass]

def sampleReport (task : Nat) (event : TaskEvent) : List Action := [.task task event, .work, .pass]

def sampleGeneration : String := sampleName 'i' 4

def sampleGenerate : String := sampleName 'i' 5

/-- A run whose session has answered the first generation request so far. -/
def sampleOpening (options : RunOptions) : List Action :=
  [.start [.user [.text "go"]] ⟨"run", 0, none, none, none, []⟩ options false,
    .catalog (.ok sampleCatalog), .opened (.ok (sampleSession sampleCapabilities)), .pass] ++
  sampleEvent 0 (.ready 0) ++ [.pass] ++ sampleReport 1 (.submitted (.ok ())) ++
  sampleEvent 1 (.acknowledged sampleGenerate none) ++
  sampleEvent 2 (.responseStarted sampleGeneration 0)

/-- The model calls a tool; the call is approved and started. -/
def sampleStarted (tool : String) : List Action :=
  sampleEvent 3 (.output (some sampleGeneration) "item" "model" (sampleCall "call" tool)) ++
  sampleReport 2 (.decided (.ok [.allow])) ++ [.task 2 .invoked]

def sampleOperation : OperationId := .host (sampleName 'i' 10)

def sampleRun (actions : List Action) : System := System.run sampleConfig (.idle .start) actions

def System.head (s : System) (h : s.world.durable.head?.isSome = true) : Checkpoint :=
  s.world.durable.head?.get h

theorem System.head_mem (s : System) (h : s.world.durable.head?.isSome = true) :
    s.head h ∈ s.world.durable := by
  apply List.mem_of_mem_head?
  exact Option.get_mem h

def System.execution : System → Option Execution
  | .live x => some x
  | .idle _ => none

def sampleEngine (actions : List Action)
    (hlive : ((sampleRun actions).execution).isSome = true) : Engine :=
  (((sampleRun actions).execution).get hlive).engine

def System.stage : System → Option Stage
  | .live x => some x.stage
  | .idle _ => none

def Stage.isPass : Stage → Bool
  | .pass => true
  | _ => false

def sampleReference : RecoveryRef := ⟨"backend", .null⟩

def sampleCompletion (generationId : String) (status : ResponseStatus) : ResponseCompletion where
  generationId
  inputPosition := 0
  responseStatus := status
  usage := {}
  modelId := none
  responseId := none
  finishReason := none
  providerData := .null
  effective := []

def sampleOtherOperation : OperationId := .host (sampleName 'i' 12)

def sampleTwice : List Action :=
  sampleOpening (sampleOptions sampleLimits) ++ sampleStarted "look" ++
  sampleReport 2 (.returned (.ok (.active ⟨some sampleReference⟩))) ++
  sampleEvent 4 (.output (some sampleGeneration) "other" "model" (sampleCall "other" "look")) ++
  sampleReport 3 (.decided (.ok [.allow])) ++ [.task 3 .invoked]

/-- Both calls are passed on to the model; the first has arrived when the process dies. -/
def sampleCrashed : List Action :=
  sampleTwice ++ sampleReport 1 (.submitted (.ok ())) ++
  sampleEvent 5 (.acknowledged (sampleName 'i' 11) (some sampleReference)) ++
  sampleReport 3 (.submitted (.ok ())) ++ [.crash]

def sampleCrashedHead : Checkpoint := (sampleRun sampleCrashed).head (by decide +kernel)

/-- Another execution takes the run up, as far as the opening of its session. -/
def sampleReopening : List Action :=
  sampleCrashed ++
  [.recover sampleCrashedHead [] [] [] false, .catalog (.ok sampleCatalog)]

def sampleDone : ToolExecution := .finished (.success [.text "done"] .null)

/-- Both operations are recovered and finish, and another response is asked for. -/
def sampleRecovered : List Action :=
  sampleReopening ++ [.opened (.ok (sampleSession sampleCapabilities)), .pass] ++
  sampleEvent 6 (.ready 1) ++ [.task 1 .invoked, .task 2 .invoked] ++
  sampleReport 1 (.returned (.ok sampleDone)) ++ sampleReport 1 (.returned (.ok sampleDone)) ++
  sampleReport 1 (.submitted (.ok ())) ++
  sampleEvent 7 (.acknowledged (sampleName 'i' 13) none) ++
  sampleEvent 8 (.responseFinished (sampleCompletion sampleGeneration .continuation)) ++
  sampleReport 1 (.submitted (.ok ())) ++ sampleReport 1 (.submitted (.ok ())) ++
  sampleReport 1 (.submitted (.ok ())) ++
  sampleEvent 9 (.acknowledged (sampleName 'i' 20) none) ++
  sampleEvent 10 (.acknowledged (sampleName 'i' 21) none) ++
  sampleEvent 11 (.acknowledged (sampleName 'i' 25) none) ++ sampleReport 1 (.submitted (.ok ()))

end Zhir.Kernel
