import Zhir.Kernel.Admission
import Zhir.Kernel.Controls

/-!
Opening the catalog and the model session, and requesting generations.
-/

set_option autoImplicit false
set_option relaxedAutoImplicit false

namespace Zhir.Kernel

open Zhir.Core
open Zhir.Library (Program)

variable (cfg : Config)

def checkSpecs (seen : List String) : List RuntimeToolSpec → Result Unit
  | [] => .ok ()
  | spec :: rest =>
    if spec.name = "" then .error (.arguments "empty runtime tool name")
    else if spec.name ∈ seen then
      .error (.arguments ("duplicate runtime tool " ++ spec.name ++ " in [\"catalog\"]"))
    else checkSpecs (spec.name :: seen) rest

def checkNames (specs : List RuntimeToolSpec) : List String → Result Unit
  | [] => .ok ()
  | name :: rest =>
    if specs.all (fun spec => spec.name ≠ name) then
      .error (.arguments ("runtime tool not found: " ++ name))
    else checkNames specs rest

/-- `select_catalog`; the selected specifications are kept in name order. -/
def selectCatalog (selection : RuntimeToolSelection) (inner : Catalog) : Result Catalog := do
  selection.validate
  checkSpecs [] inner.specs
  let specs := inner.specs.insertionSort fun a b => a.name ≤ b.name
  match selection with
  | .all => return { inner with specs }
  | .none => return { inner with specs := [] }
  | .only names => do
    checkNames specs names
    return { inner with specs := specs.filter fun spec => spec.name ∈ names }

def openCatalog (opened : Result Catalog) : Handler Unit := do
  let e ← Program.read
  let inner ← Program.lift opened
  let catalog ← Program.lift (selectCatalog e.current.options.runtimeTools inner)
  Program.modify fun e => { e with catalog }

/-- A rewritten history replaces the model context as well. Entries the run had not
produced itself stay before `run_start`. -/
def stageRewrite (rewrite : HistoryRewrite) (commandId : String) (c : Checkpoint) :
    Result Checkpoint := do
  let produced := (c.history.entries.drop c.active.session.runStart).map HistoryEntry.id
  let history ← History.fromEntries rewrite.entries
  let revision := c.active.session.contextRevision + 1
  return pushCommand commandId (.replaceContext revision) false
    { c with
      history
      active.session.runStart := (rewrite.entries.takeWhile fun e => e.id ∉ produced).length
      active.session.responseStart := history.len
      active.session.contextRevision := revision
      active.session.reducedContextRevision := some revision }

/-- A local generation carries its send boundary with its intent. -/
def stageGenerate (generationId commandId : String) (sent : Bool) (c : Checkpoint) : Checkpoint :=
  let session := c.active.session
  pushCommand commandId
    (.generate generationId session.contextRevision session.inputPosition session.profileRevision)
    sent
    { c with
      active.session.generationId := some generationId
      active.session.responseStart := c.history.len
      active.session.responseStatus := none
      active.session.generationStarted := false
      active.session.generatedInputPosition := session.inputPosition
      active.session.needsGeneration := false
      metrics.generationRequests := c.metrics.generationRequests + 1 }

/-- Nothing is in flight and this context revision was not reduced yet. -/
def reducible (c : Checkpoint) : Bool :=
  c.active.operations.isEmpty && c.active.commands.isEmpty && c.active.media.isEmpty &&
    c.active.session.reducedContextRevision ≠ some c.active.session.contextRevision

/-- The reducer's answer for the current checkpoint, if it is asked. -/
def reduction : Handler (Option HistoryRewrite) := do
  let e ← Program.read
  match cfg.historyReducer with
  | none => return none
  | some reduce =>
    if reducible e.current then do
      let answer ← ask fun n => reduce n e.current
      Program.lift answer
    else return none

def rewriteHistory (rewrite : HistoryRewrite) : Handler Unit := do
  let e ← Program.read
  let commandId ← newId cfg
  let next ← Program.lift (stageRewrite rewrite commandId e.current)
  commit cfg next (.historyRewrite rewrite.reason) (.replace rewrite.entries)

def requestGeneration : Handler Unit := do
  let generationId ← newId cfg
  let commandId ← newId cfg
  let e ← Program.read
  commit cfg (stageGenerate generationId commandId (e.localProjection cfg) e.current)
    (.command commandId) .unchanged

def generate : Handler Unit := do
  let e ← Program.read
  if e.current.metrics.generationRequests ≥ e.current.options.limits.maxGenerationRequests then
    limitRun cfg .generationRequests
  else do
    let rewrite ← reduction cfg
    match rewrite with
    | some rewrite => rewriteHistory cfg rewrite
    | none => requestGeneration cfg

def pendingEntries (commands : List PendingCommand) : List Nat :=
  commands.filterMap fun command =>
    match command.intent with
    | .append entry _ _ _ _ => some entry
    | _ => none

/-- The history prefix the session is seeded with ends before the first pending append. -/
def seedEnd (c : Checkpoint) : Nat :=
  (pendingEntries c.active.commands).min?.getD c.history.len

def seedPositionOf (c : Checkpoint) (command : PendingCommand) : Option Nat :=
  match command.intent with
  | .append entry _ inputPosition .submitted _ =>
    if (c.history.get entry).any fun e => e.message.isUser || e.message.isExternal then
      some (inputPosition - 1)
    else none
  | _ => none

def seedInputPosition (c : Checkpoint) : Nat :=
  (c.active.commands.findSome? (seedPositionOf c)).getD c.active.session.inputPosition

def Engine.sessionOpen (e : Engine) : SessionOpen :=
  let session := e.current.active.session
  { binding := session.binding
    sessionId := session.id
    afterSequence := if session.recovery.isSome then session.lastSequence else none
    outputEpoch := session.outputEpoch
    contextRevision := session.acknowledgedContextRevision
    inputPosition := seedInputPosition e.current
    profileRevision := session.profileRevision
    mode := e.current.options.mode
    limits := e.current.options.limits
    request := e.modelRequest (e.current.history.entries.take (seedEnd e.current))
    recovery := session.recovery }

def stageOpening (c : Checkpoint) : Checkpoint :=
  { c with active.session.establishment := .opening, active.session.ready := false }

def commitOpening : Handler Unit := do
  let e ← Program.read
  let commandId ← newId cfg
  commit cfg (stageOpening e.current) (.command commandId) .unchanged

/-- `open_model` up to the call that opens the session. Opening a local projection has no
external effect, so it needs no boundary of its own. -/
def beginOpening : Handler SessionOpen := do
  let e ← Program.read
  Program.require (¬ (e.current.options.mode = .task ∧ e.supports cfg .responseEvents = false))
    (.invalid "Task mode requires verifiable response boundaries")
  Program.require (¬ (cfg.historyReducer.isSome ∧ e.supports cfg .replaceContext = false))
    (.invalid "model does not support context replacement required by the history reducer")
  Program.when (e.localProjection cfg = false) (commitOpening cfg)
  let e ← Program.read
  Program.modify (perform (.opening e.sessionOpen))
  return e.sessionOpen

/-- A session as the model returns it; media endpoints are independently optional. -/
structure ModelSession where
  control : SessionControl
  mediaInput : Bool
  mediaOutput : Bool

/-- A recovered session must have the capabilities of the one it continues. -/
def capabilitiesChanged (control : SessionControl) (c : Checkpoint) : Bool :=
  c.active.session.recovery.isSome &&
    c.active.session.capabilities.any fun known => known ≠ control.capabilities

def stageOpened (control : SessionControl) (negotiated : NegotiatedProfile) (c : Checkpoint) :
    Checkpoint :=
  { c with
    active.session.establishment := .opening
    active.session.ready := false
    active.session.binding := control.binding
    active.session.capabilities := some control.capabilities
    active.session.negotiated := negotiated
    active.session.lastSequence :=
      if c.active.session.recovery.isSome then c.active.session.lastSequence else none }

def Engine.bind (session : ModelSession) (e : Engine) : Engine :=
  { e with
    sessionControl := some session.control
    modelMediaInput := session.mediaInput
    tasks := e.tasks ++ [.session] }

def startMediaOutput (session : ModelSession) : Handler Unit :=
  Program.when (session.mediaOutput = true) do
    Program.require (cfg.resources = true) (.invalid "media session requires a resource store")
    Program.modify fun e =>
      { e with mediaPending := true, tasks := e.tasks ++ [.mediaOutput .sealing] }

def establish (session : ModelSession) (request : ModelRequest) : Handler Unit := do
  let e ← Program.read
  let c := e.current
  if capabilitiesChanged session.control c then suspend cfg .recovery
  else do
    Program.require
      (¬ (c.active.session.binding.isSome ∧ c.active.session.binding ≠ session.control.binding))
      (.protocol "model binding changed during recovery")
    Program.require
      (¬ (c.options.mode = .task ∧
        session.control.capabilities.supports .responseEvents = false))
      (.invalid "bound model has no verifiable response boundaries")
    let negotiated ← Program.lift (session.control.negotiate request)
    Program.require
      (¬ (cfg.historyReducer.isSome ∧
        session.control.capabilities.supports .replaceContext = false))
      (.invalid "bound model does not support context replacement")
    let commandId ← newId cfg
    commit cfg (stageOpened session.control negotiated c) (.command commandId) .unchanged
    Program.modify (Engine.bind session)
    startMediaOutput cfg session

/-- `open_model` once the session call has returned. -/
def finishOpening (opening : SessionOpen) (result : Result ModelSession) : Handler Unit := do
  let e ← Program.read
  match result with
  | .ok session => establish cfg session opening.request
  | .error error =>
    if e.current.active.session.recovery.isSome then suspend cfg .recovery
    else match error with
      | .uncertain _ => suspend cfg .recovery
      | error => Program.fail error

end Zhir.Kernel
