import Zhir.Core.Model
import Zhir.Models.Codec

/-!
What the adapters of the three HTTP protocols know of a response: its usage and why it ended.
-/

set_option autoImplicit false
set_option relaxedAutoImplicit false

namespace Zhir.Models

open Zhir.Core

/-- `UsageFields`; nested counters are given by the tokens of their pointers. -/
structure UsageFields where
  input : String
  output : String
  reasoning : List String
  cached : List String
  inputExcludesCache : Bool

def saturatingAdd (a b : Nat) : Nat := min (a + b) maxU64

def UsageFields.read (f : UsageFields) (v : Value) : Usage :=
  let count := fun key => (v.field key).bind (asNat maxU64)
  let input := (count f.input).map fun input =>
    if f.inputExcludesCache then
      saturatingAdd (saturatingAdd input ((count "cache_read_input_tokens").getD 0))
        ((count "cache_creation_input_tokens").getD 0)
    else input
  let output := count f.output
  { inputTokens := input
    outputTokens := output
    totalTokens := (count "total_tokens").or
      (input.bind fun a => output.map fun b => saturatingAdd a b)
    reasoningTokens := (v.pointer f.reasoning).bind (asNat maxU64)
    cacheReadTokens := (count "cache_read_input_tokens").or
      ((v.pointer f.cached).bind (asNat maxU64))
    cacheWriteTokens := count "cache_creation_input_tokens" }

def Protocol.usageFields : Protocol → UsageFields
  | .chat => ⟨"prompt_tokens", "completion_tokens",
      ["completion_tokens_details", "reasoning_tokens"],
      ["prompt_tokens_details", "cached_tokens"], false⟩
  | .responses => ⟨"input_tokens", "output_tokens",
      ["output_tokens_details", "reasoning_tokens"],
      ["input_tokens_details", "cached_tokens"], false⟩
  | .messages => ⟨"input_tokens", "output_tokens",
      ["output_tokens_details", "reasoning_tokens"],
      ["input_tokens_details", "cached_tokens"], true⟩

def Protocol.usage (protocol : Protocol) (v : Value) : Usage := protocol.usageFields.read v

/-- `finish_reason` of the adapters. -/
def Protocol.finishReason : Protocol → Value → Option Value
  | .chat, response => response.pointer ["choices", "0", "finish_reason"]
  | .responses, response => response.field "status"
  | .messages, response => response.field "stop_reason"

end Zhir.Models
