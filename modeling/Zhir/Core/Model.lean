import Zhir.Core.Operation

/-!
The model port: declared capabilities, session commands and session events.
-/

set_option autoImplicit false
set_option relaxedAutoImplicit false

namespace Zhir.Core

inductive Capability
  | structuredTools | freeformTools | providerTools | parallelTools | parallelControl
  | streaming | usage | structuredOutput | jsonMode | seed | duplex | steering
  | interruptOutput | flushInput | inputAudioControl | conversationItems | delegation
  | profileUpdates | asyncResults | resume | explicitGeneration | responseEvents
  | localProjection | replaceContext | streamingInput
  deriving DecidableEq, Repr

/-- What a model declares. `rest` is compared but never inspected here. -/
structure CapabilitySet where
  features : List Capability
  rest : Value
  inputModalities : List String := []
  toolChoices : List String := []
  constraints : List (String × List Value) := []
  deriving DecidableEq, Repr

def CapabilitySet.supports (c : CapabilitySet) (capability : Capability) : Bool :=
  decide (capability ∈ c.features)

inductive RunMode
  | task | interactive
  deriving DecidableEq, Repr

structure ModelBinding where
  adapter : String
  data : Value
  deriving DecidableEq, Repr

inductive Serving
  | balanced | lowLatency | lowCost
  deriving DecidableEq, Repr

inductive Reasoning
  | low | balanced | high
  deriving DecidableEq, Repr

inductive Interaction
  | turnBased | duplex
  deriving DecidableEq, Repr

/-- Of a temperature it matters only whether it is a finite number, and of a seed whether there is
one. `data` is the rest of the profile. -/
structure RequestProfile where
  finiteTemperature : Bool := true
  data : Value
  seeded : Bool := false
  parallelRuntimeTools : Option Bool := none
  serving : Option (Requirement Serving) := none
  reasoning : Option (Requirement Reasoning) := none
  language : Option (Requirement String) := none
  interaction : Option (Requirement Interaction) := none
  alternatives : List (String × List Value) := []
  extensions : Extensions := []
  deriving DecidableEq, Repr

/-- A runtime tool declaration; the schemas and texts are compared, never read. -/
structure RuntimeToolSpec where
  name : String
  parallel : Bool
  rest : Value
  freeform : Bool := false
  deriving DecidableEq, Repr

structure ProviderToolSpec where
  provider : String
  name : String
  options : Value
  deriving DecidableEq, Repr

inductive ToolChoice
  | auto | none | required
  | runtimeTool (name : String)
  | providerTool (provider name : String)
  deriving DecidableEq, Repr

def ToolChoice.kind : ToolChoice → String
  | .auto => "auto"
  | .none => "none"
  | .required => "required"
  | .runtimeTool _ => "runtime_tool"
  | .providerTool _ _ => "provider_tool"

inductive ResponseFormat
  | json
  | schema (name : String) (schema : Value)
  deriving DecidableEq, Repr

structure NegotiatedProfile where
  selected : List (String × Value)
  unmetPreferences : List (String × String)
  deriving DecidableEq, Repr

inductive Confirmation
  | provider (v : Value)
  | verified (v : Value)
  | unknown
  deriving DecidableEq, Repr

abbrev EffectiveProfile := Std.ExtTreeMap String Confirmation

def NegotiatedProfile.unconfirmed (n : NegotiatedProfile) : EffectiveProfile :=
  n.selected.foldl (fun m kv => m.insert kv.1 .unknown) ∅

def EffectiveProfile.extend (m : EffectiveProfile) (values : List (String × Confirmation)) :
    EffectiveProfile :=
  values.foldl (fun m kv => m.insert kv.1 kv.2) m

structure Usage where
  inputTokens : Option Nat := none
  outputTokens : Option Nat := none
  totalTokens : Option Nat := none
  reasoningTokens : Option Nat := none
  cacheReadTokens : Option Nat := none
  cacheWriteTokens : Option Nat := none
  deriving DecidableEq, Repr

private def addTokens (a b : Option Nat) : Option Nat :=
  match b with
  | none => a
  | some b => some (min (a.getD 0 + b) maxU64)

/-- Saturating sum of the reported counters; an unreported counter changes nothing. -/
def Usage.add (u rhs : Usage) : Usage where
  inputTokens := addTokens u.inputTokens rhs.inputTokens
  outputTokens := addTokens u.outputTokens rhs.outputTokens
  totalTokens := addTokens u.totalTokens rhs.totalTokens
  reasoningTokens := addTokens u.reasoningTokens rhs.reasoningTokens
  cacheReadTokens := addTokens u.cacheReadTokens rhs.cacheReadTokens
  cacheWriteTokens := addTokens u.cacheWriteTokens rhs.cacheWriteTokens

inductive ResponseStatus
  | completed | requiresResults | continuation | failed | cancelled | incomplete
  deriving DecidableEq, Repr

inductive AppendSource
  | submitted | accepted
  deriving DecidableEq, Repr

structure ModelRequest where
  messages : List Message
  runtimeTools : List RuntimeToolSpec
  providerTools : List ProviderToolSpec
  profile : RequestProfile
  toolChoice : ToolChoice
  responseFormat : Option ResponseFormat
  stream : Bool
  deriving DecidableEq, Repr

/-- Body of `ResponseFinished`. -/
structure ResponseCompletion where
  generationId : String
  inputPosition : Nat
  responseStatus : ResponseStatus
  usage : Usage
  modelId : Option String
  responseId : Option String
  finishReason : Option String
  providerData : Value
  effective : List (String × Confirmation)
  deriving DecidableEq, Repr

inductive SessionEventBody
  | ready (contextRevision : Nat)
  | responseStarted (generationId : String) (inputPosition : Nat)
  | conversationItem (itemId : String) (message : Message)
  | acknowledged (commandId : String) (recovery : Option RecoveryRef)
  | delta (generationId : Option String) (delta : Value)
  | output (generationId : Option String) (itemId callerId : String) (output : Output)
  | operation (origin : CallRef) (event : OperationEvent)
  | responseFinished (completion : ResponseCompletion)
  | recovery (reference : RecoveryRef)
  | closed (reason : String) (providerData : Value)
  deriving DecidableEq, Repr

structure SessionEvent where
  sequence : Nat
  body : SessionEventBody
  deriving DecidableEq, Repr

end Zhir.Core
