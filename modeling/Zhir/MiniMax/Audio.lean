import Zhir.Core.Session

/-!
Sentence containers of the MiniMax synthesis, and the decoding of their audio.
-/

set_option autoImplicit false
set_option relaxedAutoImplicit false

namespace Zhir.MiniMax

open Zhir.Core

def protocolError (message : String) : Error := .protocol ("MiniMax TTS: " ++ message)

/-- `Audio`. Times are microseconds on one clock. -/
structure Audio where
  epoch : Nat
  sentence : Nat
  sequence : Nat
  opened : Bool
  limit : Nat
  startedAt : Nat
  mediaType : String
  deriving DecidableEq, Repr

def hexDigit (b : UInt8) : Result Nat :=
  let c := Char.ofNat b.toNat
  if c.isDigit then .ok (c.toNat - '0'.toNat)
  else if 'a' ≤ c ∧ c ≤ 'f' then .ok (c.toNat - 'a'.toNat + 10)
  else if 'A' ≤ c ∧ c ≤ 'F' then .ok (c.toNat - 'A'.toNat + 10)
  else .error (protocolError "invalid audio hex")

def hexBytes : List UInt8 → Result (List UInt8)
  | high :: low :: rest => do
    let high ← hexDigit high
    let low ← hexDigit low
    let bytes ← hexBytes rest
    return UInt8.ofNat (16 * high + low) :: bytes
  | _ => .ok []

def decodeAudio (hex : String) (limit : Nat) : Result (List UInt8) := do
  let bytes := hex.toUTF8.toList
  require (¬ (bytes.length % 2 ≠ 0 ∨ bytes.length / 2 > limit))
    (protocolError "invalid audio length")
  hexBytes bytes

namespace Audio

def new (epoch limit now : Nat) (mediaType : String) : Audio :=
  ⟨epoch, 0, 0, false, limit, now, mediaType⟩

def start (a : Audio) : Result Audio := do
  require (a.opened = false) (protocolError "sentence started before previous sentence ended")
  require (a.sentence < maxU64) (protocolError "sentence counter overflow")
  return { a with sentence := a.sentence + 1, sequence := 0, opened := true }

def validateEpoch (epoch : Nat) (a : Audio) : Result Unit :=
  require (¬ epoch ≤ a.epoch) (protocolError "interrupt must advance the kernel output epoch")

def cancel (epoch : Nat) (a : Audio) : Result Audio := do
  a.validateEpoch epoch
  return { a with epoch, opened := false, sequence := 0 }

def chunk (now : Nat) (sessionId : String) (bytes : List UInt8) (endOfStream : Bool) (a : Audio) :
    Result (MediaChunk × Audio) := do
  let chunk : MediaChunk :=
    { streamId := "minimax-tts:" ++ toString a.sentence
      sessionId
      epoch := a.epoch
      sequence := a.sequence
      timestampUs := min (now - a.startedAt) maxU64
      mediaType := a.mediaType
      bytes
      endOfStream }
  require (a.sequence < maxU64) (protocolError "audio sequence overflow")
  return (chunk, { a with sequence := a.sequence + 1 })

def push (now : Nat) (sessionId hex : String) (a : Audio) : Result (MediaChunk × Audio) := do
  require (a.opened = true) (protocolError "audio outside a sentence")
  let bytes ← decodeAudio hex a.limit
  a.chunk now sessionId bytes false

/-- `end`: the sentence's last chunk is empty. -/
def close (now : Nat) (sessionId : String) (a : Audio) : Result (MediaChunk × Audio) := do
  require (a.opened = true) (protocolError "sentence ended without an open sentence")
  let (chunk, a) ← a.chunk now sessionId [] true
  return (chunk, { a with opened := false })

def finish (a : Audio) : Result Unit :=
  require (a.opened = false) (protocolError "task finished before sentence_end")

end Audio

end Zhir.MiniMax
