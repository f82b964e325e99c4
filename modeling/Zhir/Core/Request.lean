import Zhir.Core.Model

/-!
What is checked of a model request before it is negotiated.
-/

set_option autoImplicit false
set_option relaxedAutoImplicit false

namespace Zhir.Core

/-- The content of a message that a model takes as its input. -/
def Message.contents : Message → List Content
  | .system content => content
  | .user content => content
  | .external content => content
  | .assistant output _ => output.filterMap fun
    | .content content => some content
    | _ => none
  | .runtimeTool _ _ outcome => outcome.content
  | .delegationResult _ outcome => outcome.content

def Message.delegates : Message → Bool
  | .delegationResult _ _ => true
  | .assistant output _ => output.any fun
    | .delegation _ => true
    | _ => false
  | _ => false

namespace ModelRequest

variable (request : ModelRequest) (c : CapabilitySet)

def checkProviderTools : Result Unit := do
  require (¬ (request.providerTools ≠ [] ∧ ¬ c.supports .providerTools))
    (.invalid "unsupported provider tools")
  require ((∀ t ∈ request.providerTools, t.provider ≠ "" ∧ t.name ≠ "") ∧
      (request.providerTools.map fun t => (t.provider, t.name)).Nodup)
    (.invalid "provider tool declarations require unique nonempty identities")

def checkRuntimeTools : Result Unit :=
  require ((∀ t ∈ request.runtimeTools, t.name ≠ "") ∧
      (request.runtimeTools.map RuntimeToolSpec.name).Nodup)
    (.invalid "runtime tool names must be nonempty and unique")

def checkResponseFormat : Result Unit :=
  match request.responseFormat with
  | some (.schema _ _) =>
    require (c.supports .structuredOutput) (.invalid "unsupported structured output")
  | some .json => require (c.supports .jsonMode) (.invalid "unsupported JSON mode")
  | none => .ok ()

def checkInput (spec : RuntimeToolSpec) : Result Unit :=
  if spec.freeform then
    require (c.supports .freeformTools) (.invalid "unsupported freeform tools")
  else require (c.supports .structuredTools) (.invalid "unsupported structured tools")

def checkToolChoice : Result Unit :=
  match request.toolChoice with
  | .runtimeTool name =>
    require (∃ s ∈ request.runtimeTools, s.name = name) (.invalid "selected tool is unavailable")
  | .providerTool provider name =>
    require (∃ s ∈ request.providerTools, s.provider = provider ∧ s.name = name)
      (.invalid "selected provider tool is unavailable")
  | _ => .ok ()

def checkPart (part : Content) : Result Unit :=
  require (∀ modality ∈ part.modality, modality ∈ c.inputModalities)
    (.invalid "unsupported input modality")

def checkMessage (m : Message) : Result Unit := do
  m.validate
  require (¬ (¬ c.supports .delegation ∧ m.delegates)) (.invalid "unsupported delegation history")
  validateAll (checkPart c) m.contents

def validate : Result Unit := do
  validateExtensions request.profile.extensions
  require (¬ (request.stream ∧ ¬ c.supports .streaming))
    (.invalid "model does not support streaming")
  require (request.toolChoice.kind ∈ c.toolChoices) (.invalid "unsupported tool choice")
  require (¬ (request.profile.parallelRuntimeTools = some false ∧ ¬ c.supports .parallelControl))
    (.invalid "model cannot disable parallel tools")
  require (¬ (request.profile.seeded ∧ ¬ c.supports .seed)) (.invalid "unsupported seed")
  require request.profile.finiteTemperature (.invalid "nonfinite temperature")
  request.checkProviderTools c
  request.checkRuntimeTools
  request.checkResponseFormat c
  validateAll (checkInput c) request.runtimeTools
  request.checkToolChoice
  validateAll (checkMessage c) request.messages

end ModelRequest

end Zhir.Core
