import Mathlib.Data.List.Chain
import Zhir.Kernel.Streams
import Zhir.MiniMax.Coverage
import Zhir.MiniMax.Sentences

/-!
Synthesized audio at the kernel: what a session plays is what its media contract asks for.
-/

set_option autoImplicit false
set_option relaxedAutoImplicit false

namespace Zhir.MiniMax

open Zhir.Core
open Zhir.Kernel (Config Engine Hears Joined Sealable Rejects sealMedia)
open Relation (ReflTransGen)

/-- Whatever the service sends and whenever the task is interrupted, the audio conforms; and
an execution that takes it, in whatever segments and with whatever interruptions of its own,
rejects no segment that it seals. -/
theorem audio_conforms {o : SessionOpen} {a : Account} (h : Accountable o a) :
    a.Conforms ∧
      ∀ (cfg : Config) (e e' : Engine) (first : MediaChunk) (more rest : List MediaChunk)
        (resource reference : ResourceRef) (previous : Option ResourceRef),
        e.Silent → ReflTransGen (Hears cfg) (e, a.chunks) (e', first :: more ++ rest) →
          Joined (first :: more) → first.epoch = e'.current.active.session.outputEpoch →
            Sealable cfg "output" (sealMedia first more resource previous) reference e' ∧
              ¬ Rejects cfg "output" (sealMedia first more resource previous) reference e' := by
  have hconforms := h.kept.conforms
  refine ⟨hconforms, ?_⟩
  intro cfg e e' first more rest resource reference previous hsilent hsteps hjoined hepoch
  have hpasses : Sealable cfg "output" (sealMedia first more resource previous) reference e' :=
    Kernel.conforming_passes hsilent hconforms.sequenced hsteps hjoined hepoch
  exact ⟨hpasses, hpasses.not_rejects⟩

def sampleHeard (event : String) : Arrival := .message 1 (.text (some (eventFrame event)))

def sampleSound : Arrival :=
  .message 1 (.text (some (.object [("data", .object [("audio", .string "00ff")])])))

def sampleArrivals : List Arrival :=
  [sampleHeard "connected_success", .command 1 ⟨"g", .generate "generation" 0 0 0⟩,
    sampleHeard "task_started", sampleHeard "sentence_start", sampleSound,
    .command 1 ⟨"i", .interruptOutput "generation" 1⟩, sampleSound,
    sampleHeard "task_canceled", sampleHeard "sentence_start", sampleSound,
    sampleHeard "sentence_end", .command 1 ⟨"s", .sealUserInput⟩, sampleHeard "task_finished"]

def sampleStart : Account := (Account.opening sampleTts 0 sampleSpeech).toOption.get (by decide)

def sampleAccount : Account := (sampleStart.run sampleArrivals).toOption.get (by decide +kernel)

def sampleStore : Config := { Kernel.sampleConfig with resources := true }

def sampleListener : Engine :=
  Engine.boot .start (Kernel.initial "c" "session"
    (.start History.empty ⟨"run", 0, none, none, none, []⟩ (sampleOptions sampleLimits))).1

def sampleChunk (sentence epoch sequence : Nat) (bytes : List UInt8) : MediaChunk where
  streamId := sentenceStream sentence
  sessionId := "session"
  epoch
  sequence
  timestampUs := 1
  mediaType := "audio/mpeg"
  bytes
  endOfStream := bytes.isEmpty

def sampleNode : ResourceRef := ⟨"node", "application/json", none, .stored "node", []⟩

private theorem accountable_sampleAccount : Accountable sampleSpeech sampleAccount :=
  ⟨sampleTts, 0, sampleStart, sampleArrivals, Result.eq_ok_get (by decide),
    Result.eq_ok_get (by decide +kernel)⟩

/-- The first sentence is cut and the second one ended; what was played of the first passes as
one segment while the kernel is in its epoch. -/
theorem sample_audio_conforms :
    sampleAccount.cut = [1] ∧ sampleAccount.Conforms ∧
      Sealable sampleStore "output"
        (sealMedia (sampleChunk 1 0 0 [0, 255]) [sampleChunk 1 0 1 [0, 255]] sampleNode none)
        sampleNode sampleListener := by
  obtain ⟨hconforms, hpasses⟩ := audio_conforms accountable_sampleAccount
  have hchunks : sampleAccount.chunks =
      sampleChunk 1 0 0 [0, 255] :: [sampleChunk 1 0 1 [0, 255]] ++
        [sampleChunk 2 1 0 [0, 255], sampleChunk 2 1 1 []] := by decide +kernel
  have hjoined : Joined [sampleChunk 1 0 0 [0, 255], sampleChunk 1 0 1 [0, 255]] :=
    List.isChain_pair.2 (by decide +kernel)
  have hsteps : ReflTransGen (Hears sampleStore) (sampleListener, sampleAccount.chunks)
      (sampleListener, sampleChunk 1 0 0 [0, 255] :: [sampleChunk 1 0 1 [0, 255]] ++
        [sampleChunk 2 1 0 [0, 255], sampleChunk 2 1 1 []]) := by
    rw [hchunks]
  have hsilent : sampleListener.Silent := Kernel.silent_boot _ _ _ _ _ _
  refine ⟨by decide +kernel, hconforms, ?_⟩
  exact (hpasses sampleStore _ _ _ _ _ sampleNode sampleNode none hsilent hsteps hjoined rfl).1

end Zhir.MiniMax
