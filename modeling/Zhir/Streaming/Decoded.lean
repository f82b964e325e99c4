import Zhir.Models.Decoding
import Zhir.Streaming.Http

/-!
A response as it is decoded, whole or from a stream.
-/

set_option autoImplicit false
set_option relaxedAutoImplicit false

namespace Zhir.Streaming

open Zhir.Core
open Zhir.Models

variable {σ τ : Type}

def decodeBody (json : JsonText) (protocol : Protocol) (body : Value)
    (extension : Option (ProtocolExtension τ)) (t : τ) : Checked (GenerationOutput × τ) :=
  (decode json protocol body extension t).mapError Fault.error

def decodeStream (json : JsonText) (protocol : Protocol) (stream : StreamState σ)
    (frames : List String) (extension : Option (ProtocolExtension τ)) (t : τ) :
    Checked (GenerationOutput × τ) := do
  let v ← accumulate json stream frames
  decodeBody json protocol v extension t

/-- Two responses decode to the same outputs, usage and status, or both are refused. -/
inductive Alike : Checked (GenerationOutput × τ) → Checked (GenerationOutput × τ) → Prop
  | decoded {g g' : GenerationOutput} {t t' : τ} (output : g.output = g'.output)
      (usage : g.usage = g'.usage) (status : g.status = g'.status) :
      Alike (.ok (g, t)) (.ok (g', t'))
  | refused {e e' : Error} : Alike (.error (.error e)) (.error (.error e'))

theorem Alike.outputs {r r' : Checked (GenerationOutput × τ)} (h : Alike r r') :
    r.toOption.map (fun x => x.1.output) = r'.toOption.map fun x => x.1.output := by
  cases h with
  | decoded output => exact congrArg some output
  | refused => rfl

theorem decodeStream_of_ok {json : JsonText} {protocol : Protocol} {stream : StreamState σ}
    {frames : List String} {v : Value} (h : accumulate json stream frames = .ok v)
    (extension : Option (ProtocolExtension τ)) (t : τ) :
    decodeStream json protocol stream frames extension t =
      decodeBody json protocol v extension t := by
  unfold decodeStream
  rw [h]
  rfl

end Zhir.Streaming
