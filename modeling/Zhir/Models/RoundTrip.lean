import Zhir.Models.Sealing
import Zhir.Storage.Resources

/-!
Sealing a turn and resolving it again.
-/

set_option autoImplicit false
set_option relaxedAutoImplicit false

namespace Zhir.Models

open Zhir.Core

/-- A conversation item is sealed output by output; the data of its turn stays as it is. -/
def sealItem {σ η : Type} (store : ResourceStore σ) (hashes : Hashes η) (output : List Output)
    (s : Sealing σ) : Result (List Output × Sealing σ) :=
  saveOutputs store hashes output s

def restorableOutput : Output → Bool
  | .content content => !isStored content
  | .providerToolCall call => restorableCall call
  | _ => true

/-- A turn whose sealing can be undone: none of its contents is stored already, its data and
that of its calls have no marker key, and every replay binding stays clear. -/
def restorable (output : List Output) (providerData : Value) : Bool :=
  output.all restorableOutput && plain providerData

section

variable {σ η : Type} {store : ResourceStore σ} {hashes : Hashes η} {later : σ}
  {all : List ResourceRef}

def ContentsValid : Output → Prop
  | .content content => content.validate = .ok ()
  | .providerToolCall call => ∀ content ∈ call.output, content.validate = .ok ()
  | _ => True

private theorem contentsValid_of_item {seen seen' : List String} {item : Output}
    (h : validateItem seen item = .ok seen') : ContentsValid item := by
  cases item with
  | content content =>
    obtain ⟨_, hcontent, -⟩ := Result.bind_ok h
    exact hcontent
  | providerToolCall call =>
    simp only [validateItem] at h
    split at h
    · cases h
    · split at h
      · cases h
      · obtain ⟨_, hcontents, -⟩ := Result.bind_ok h
        exact validateAll_ok hcontents
  | _ => trivial

private theorem contentsValid_of_items {seen : List String} {output : List Output}
    (h : validateItems seen output = .ok ()) : ∀ item ∈ output, ContentsValid item := by
  induction output generalizing seen with
  | nil => simp
  | cons item rest ih =>
    obtain ⟨seen', hitem, h⟩ := Result.bind_ok h
    exact List.forall_mem_cons.mpr ⟨contentsValid_of_item hitem, ih h⟩

private theorem saveOutput_later (hlawful : store.Lawful) {output output' : Output}
    {s s' : Sealing σ}
    (h : saveOutput store hashes output s = .ok (output', s'))
    (hlater : Later store later all s') : Later store later all s := by
  cases output with
  | content content =>
    obtain ⟨⟨content', saved, s₁⟩, hcontent, h⟩ := Result.bind_ok h
    cases h
    exact later_of_saved hlawful (saved_of_saveContent hcontent) hlater
  | providerToolCall call =>
    obtain ⟨⟨call', s₁⟩, hcall, h⟩ := Result.bind_ok h
    cases h
    exact saveCall_later hlawful hcall hlater
  | _ =>
    cases h
    exact hlater

private theorem saveOutput_resolves (hlawful : store.Lawful) {output output' : Output}
    {s s' : Sealing σ}
    (h : saveOutput store hashes output s = .ok (output', s')) (hvalid : ContentsValid output')
    (hlater : Later store later all s') (hrestorable : restorableOutput output = true) :
    Resolves (Written store later all) (resolveOutput store later output') output := by
  cases output with
  | content content =>
    obtain ⟨⟨content', saved, s₁⟩, hcontent, h⟩ := Result.bind_ok h
    cases h
    have hfresh : isStored content = false := by
      simpa only [restorableOutput, Bool.not_eq_true'] using hrestorable
    have hone := resolves_saved hlawful (saved_of_saveContent hcontent) hvalid hlater hfresh
    exact hone.map Output.content
  | providerToolCall call =>
    obtain ⟨⟨call', s₁⟩, hcall, h⟩ := Result.bind_ok h
    cases h
    exact saveCall_resolves hlawful hcall hvalid hlater hrestorable
  | _ =>
    cases h
    exact Resolves.pure _

private theorem saveOutput_restorable (hlawful : store.Lawful) {output output' : Output}
    {s s' : Sealing σ} {l l' : Loads} (h : saveOutput store hashes output s = .ok (output', s'))
    (hvalid : ContentsValid output') (hlater : Later store later all s')
    (hresolved : resolveOutput store later output' l = .ok (output, l')) :
    restorableOutput output = true := by
  cases output with
  | content content =>
    obtain ⟨⟨content', saved, s₁⟩, hcontent, h⟩ := Result.bind_ok h
    cases h
    obtain ⟨⟨content₁, l₁⟩, hone, hresolved⟩ := Result.bind_ok hresolved
    cases hresolved
    have hfresh := fresh_of_resolved (saved_of_saveContent hcontent) hone
    simpa only [restorableOutput, Bool.not_eq_true'] using hfresh
  | providerToolCall call =>
    obtain ⟨⟨call', s₁⟩, hcall, h⟩ := Result.bind_ok h
    cases h
    exact restorable_of_resolved hlawful hcall hvalid hlater hresolved
  | _ => rfl

private theorem saveOutputs_cons {output : Output} {rest outputs' : List Output} {s s' : Sealing σ}
    (h : saveOutputs store hashes (output :: rest) s = .ok (outputs', s')) :
    ∃ output' s₁ rest', saveOutput store hashes output s = .ok (output', s₁) ∧
      saveOutputs store hashes rest s₁ = .ok (rest', s') ∧ outputs' = output' :: rest' := by
  obtain ⟨⟨output', s₁⟩, hone, h⟩ := Result.bind_ok h
  obtain ⟨⟨rest', s₂⟩, hrest, h⟩ := Result.bind_ok h
  cases h
  exact ⟨output', s₁, rest', hone, hrest, rfl⟩

private theorem saveOutputs_later (hlawful : store.Lawful) {outputs outputs' : List Output}
    {s s' : Sealing σ} (h : saveOutputs store hashes outputs s = .ok (outputs', s'))
    (hlater : Later store later all s') : Later store later all s := by
  induction outputs generalizing s outputs' with
  | nil =>
    cases h
    exact hlater
  | cons output rest ih =>
    obtain ⟨output', s₁, rest', hone, hrest, -⟩ := saveOutputs_cons h
    exact saveOutput_later hlawful hone (ih hrest)

private theorem saveOutputs_resolves (hlawful : store.Lawful) {outputs outputs' : List Output}
    {s s' : Sealing σ} (h : saveOutputs store hashes outputs s = .ok (outputs', s'))
    (hvalid : ∀ output ∈ outputs', ContentsValid output) (hlater : Later store later all s')
    (hrestorable : outputs.all restorableOutput = true) :
    Resolves (Written store later all) (resolveOutputs store later outputs') outputs := by
  induction outputs generalizing s outputs' with
  | nil =>
    cases h
    exact Resolves.pure _
  | cons output rest ih =>
    obtain ⟨output', s₁, rest', hone, hrest, rfl⟩ := saveOutputs_cons h
    obtain ⟨hvalidFirst, hvalidRest⟩ := List.forall_mem_cons.mp hvalid
    rw [List.all_cons, Bool.and_eq_true] at hrestorable
    have hlater₁ := saveOutputs_later hlawful hrest hlater
    have hfirst := saveOutput_resolves hlawful hone hvalidFirst hlater₁ hrestorable.1
    have hothers := ih hrest hvalidRest hrestorable.2
    exact hfirst.bind (g := fun output l => resolveOutputs store later rest' l >>= fun r =>
      pure (output :: r.1, r.2)) (hothers.map fun rest => output :: rest)

private theorem saveOutputs_restorable (hlawful : store.Lawful) {outputs outputs' : List Output}
    {s s' : Sealing σ} {l l' : Loads} (h : saveOutputs store hashes outputs s = .ok (outputs', s'))
    (hvalid : ∀ output ∈ outputs', ContentsValid output) (hlater : Later store later all s')
    (hresolved : resolveOutputs store later outputs' l = .ok (outputs, l')) :
    outputs.all restorableOutput = true := by
  induction outputs generalizing s outputs' l l' with
  | nil => rfl
  | cons output rest ih =>
    obtain ⟨output', s₁, rest', hone, hrest, rfl⟩ := saveOutputs_cons h
    obtain ⟨hvalidFirst, hvalidRest⟩ := List.forall_mem_cons.mp hvalid
    obtain ⟨⟨first, l₁⟩, hfirst, hresolved⟩ := Result.bind_ok hresolved
    obtain ⟨⟨others, l₂⟩, hothers, hresolved⟩ := Result.bind_ok hresolved
    injection hresolved with hresolved
    injection hresolved with hlist hloads
    injection hlist with hfirstEq hothersEq
    subst hfirstEq hothersEq
    have hlater₁ := saveOutputs_later hlawful hrest hlater
    have hone := saveOutput_restorable hlawful hone hvalidFirst hlater₁ hfirst
    have hmany := ih hrest hvalidRest hothers
    rw [List.all_cons, hone, hmany, Bool.and_self]

/-- With enough budget, the sealed turn resolves to the turn as it was sent, and only written
resources are loaded. -/
def RoundTrips (store : ResourceStore σ) (later : σ) (written : List ResourceRef)
    (output sealed : List Output) (providerData : Value) : Prop :=
  ∃ enough, ∀ budget, enough ≤ budget → ∃ l,
    resolveMessage store later (.assistant sealed providerData) ⟨budget, []⟩ =
      .ok (.assistant output providerData, l) ∧
    ∀ r ∈ l.loaded, ∃ w ∈ written, w.source = r.source

/-- A sealed turn, reported by events or as one item, resolves to what was sent exactly if it is
restorable. -/
theorem roundTrips_iff (hlawful : store.Lawful) [DecidableEq η] {output sealed : List Output}
    {providerData : Value} {s : σ} {after : Sealing σ}
    (h : sealTurn store hashes output providerData ⟨s, []⟩ = .ok (sealed, after) ∨
      sealItem store hashes output ⟨s, []⟩ = .ok (sealed, after))
    (hvalid : (Message.assistant sealed providerData).validate = .ok ())
    (hlater : store.Grows after.store later) :
    RoundTrips store later after.written output sealed providerData ↔
      restorable output providerData = true := by
  have hsaved : saveOutputs store hashes output ⟨s, []⟩ = .ok (sealed, after) := by
    rcases h with h | h
    · obtain ⟨⟨sealed', after'⟩, hsaved, h⟩ := Result.bind_ok h
      obtain ⟨_, -, h⟩ := Result.bind_ok h
      cases h
      exact hsaved
    · exact h
  have hcontents := contentsValid_of_items hvalid
  have hall : Later store later after.written after := ⟨hlater, fun _ hr => hr⟩
  constructor
  · rintro ⟨enough, hround⟩
    obtain ⟨l, hresolved, -⟩ := hround enough (Nat.le_refl enough)
    obtain ⟨⟨output', l₁⟩, houtput, hresolved⟩ := Result.bind_ok hresolved
    obtain ⟨⟨data, l₂⟩, hdata, hresolved⟩ := Result.bind_ok hresolved
    cases hresolved
    have houtputs := saveOutputs_restorable hlawful hsaved hcontents hall houtput
    have hplain := plain_restored (restore_of_resolve hdata)
    rw [restorable, houtputs, hplain, Bool.and_self]
  · intro hrestorable
    rw [restorable, Bool.and_eq_true] at hrestorable
    obtain ⟨houtputs, hplain⟩ := hrestorable
    have houtput := saveOutputs_resolves hlawful hsaved hcontents hall houtputs
    have hdata := resolves_value (P := Written store later after.written) keeps_written
      (shaped_of_plain _ hplain) (restore_plain hplain)
    have hturn := houtput.bind (g := fun output l => resolveValue store later providerData l >>=
      fun r => pure (Message.assistant output r.1, r.2))
      (hdata.map fun data => Message.assistant output data)
    obtain ⟨enough, hturn⟩ := hturn
    refine ⟨enough, fun budget hbudget => ?_⟩
    obtain ⟨l, hresolved, -, loaded, hloaded, hwritten⟩ := hturn ⟨budget, []⟩ hbudget
    refine ⟨l, hresolved, ?_⟩
    intro r hr
    rw [hloaded, List.nil_append] at hr
    exact (hwritten r hr).1

end

def sampleHashes : Hashes String where
  key mediaType bytes := mediaType ++ "/" ++ base64 bytes
  payload p := p

def samplePicture : Content := .resource
  { resource := { id := "picture", mediaType := "image/png", name := none,
                  source := .inline [1, 2, 3], metadata := [] }
    extensions := [] }

def sampleTurn : List Output := [
  .content (.text "done"),
  .providerToolCall
    { id := "call", provider := "provider", name := "draw", status := .completed,
      outcome := none, output := [samplePicture]
      data := .object [(replayKey, .object [
        ("items", .array [.object [("image", .string "AQID")]]),
        ("media", .array [.object [("content_index", decimal 0),
          ("pointer", .string "/items/0/image")]])])] }]

open Storage in
theorem roundTrips_iff_picture : ∃ sealed after,
    sealTurn memoryResourceStore sampleHashes sampleTurn .null ⟨∅, []⟩ = .ok (sealed, after) ∧
      RoundTrips memoryResourceStore after.store after.written sampleTurn sealed .null := by
  have hrun : (sealTurn memoryResourceStore sampleHashes sampleTurn .null ⟨∅, []⟩ >>= fun r =>
      (Message.assistant r.1 .null).validate) = .ok () := by decide +kernel
  obtain ⟨⟨sealed, after⟩, hsealed, hvalid⟩ := Result.bind_ok hrun
  have hiff := roundTrips_iff Resources.memory_lawful (.inl hsealed) hvalid (.refl _ _)
  exact ⟨sealed, after, hsealed, hiff.mpr (by decide +kernel)⟩

/-- Data of a turn with the marker key, which sealing accepts. -/
def sampleMarked : Value := .object [(markerKey, .string "text")]

open Storage in
theorem marked_not_roundTrips : ¬ ∀ (output sealed : List Output) (providerData : Value)
    (after : Sealing Resources.Entries),
    sealTurn memoryResourceStore sampleHashes output providerData ⟨∅, []⟩ = .ok (sealed, after) →
      (Message.assistant sealed providerData).validate = .ok () →
      RoundTrips memoryResourceStore after.store after.written output sealed providerData := by
  intro h
  have hsealed : sealTurn memoryResourceStore sampleHashes [.content (.text "done")] sampleMarked
      ⟨∅, []⟩ = .ok ([.content (.text "done")], ⟨∅, []⟩) := rfl
  obtain ⟨enough, hround⟩ := h _ _ sampleMarked _ hsealed rfl
  obtain ⟨l, hresolved, -⟩ := hround enough (Nat.le_refl enough)
  cases hresolved

end Zhir.Models
