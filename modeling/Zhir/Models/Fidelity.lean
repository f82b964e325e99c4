import Zhir.Library.Traversals
import Zhir.Models.Profiles

/-!
What a request asks of its resources, and what they carry once its negotiation is applied.
-/

set_option autoImplicit false
set_option relaxedAutoImplicit false

namespace Zhir.Models

open Zhir.Core Zhir.Library Zhir.Policies

def inputs (request : ModelRequest) : List Content :=
  request.messages.flatMap Message.contents

def Carries (request : ModelRequest) (caps : CapabilitySet) (input : ResourceInput)
    (carried : Option (Requirement Fidelity)) : Prop :=
  match input.fidelity with
  | none => carried = none
  | some (.required f) => carried = some (.required f)
  | some (.preferred f) =>
    carried = none ∨ carried = some (.required f) ∨
      ∃ value ∈ alternatives request input.resource.modality,
        value ∈ supported caps input.resource.modality ∧
          ∃ g, Fidelity.ofValue value = some g ∧ carried = some (.required g)

inductive Honours (request : ModelRequest) (caps : CapabilitySet) : Content → Content → Prop
  | text (text : String) : Honours request caps (.text text) (.text text)
  | opaqueData (provider : String) (data : Value) :
      Honours request caps (.opaqueData provider data) (.opaqueData provider data)
  | resource {input : ResourceInput} {fidelity : Option (Requirement Fidelity)}
      (h : Carries request caps input fidelity) :
      Honours request caps (.resource input) (.resource { input with fidelity })

/-- Whether a resource could carry a value that was offered to a resource of its identity. -/
def Accepts (request : ModelRequest) (caps : CapabilitySet) (input : ResourceInput)
    (value : Value) : Prop :=
  match input.fidelity with
  | none => True
  | some (.required f) => Fidelity.ofValue value = some f
  | some (.preferred f) =>
    Fidelity.ofValue value = some f ∨
      ∃ listed ∈ alternatives request input.resource.modality,
        listed ∈ supported caps input.resource.modality ∧
          Fidelity.ofValue listed = Fidelity.ofValue value

/-- Every resource accepts what the last resource of its identity that is offered something is
offered. -/
def Agreeing (request : ModelRequest) (caps : CapabilitySet) : Prop :=
  ∀ input, .resource input ∈ inputs request →
    ∀ value, lastValue (Keys.resourceFidelity input.resource.id)
        (offers request caps (inputs request)) = some value → Accepts request caps input value

variable {request request' : ModelRequest} {caps : CapabilitySet} {selected : NegotiatedProfile}

private theorem applyOutput_contents {items items' : List Output}
    (h : List.Forall₂ (fun x y => applyOutput selected x = .ok y) items items')
    (providerData : Value) :
    List.Forall₂ (fun x y => applyContent selected x = .ok y)
      (Message.assistant items providerData).contents
      (Message.assistant items' providerData).contents := by
  unfold Message.contents
  induction h with
  | nil => exact .nil
  | @cons item item' _ _ hitem _ ih =>
    cases item with
    | content content =>
      obtain ⟨content', hcontent, h⟩ := Result.bind_ok hitem
      cases h
      exact .cons hcontent ih
    | delegation | runtimeToolCall | providerToolCall =>
      cases hitem
      exact ih

private theorem applyOutcome_contents {outcome outcome' : OperationOutcome}
    (h : applyOutcome selected outcome = .ok outcome') :
    List.Forall₂ (fun x y => applyContent selected x = .ok y) outcome.content
      outcome'.content := by
  cases outcome with
  | success contents structured =>
    obtain ⟨contents', hcontents, h⟩ := Result.bind_ok h
    cases h
    exact mapM_forall₂ hcontents
  | failure | cancelled =>
    cases h
    exact .nil

private theorem applyMessage_contents {message message' : Message}
    (h : applyMessage selected message = .ok message') :
    List.Forall₂ (fun x y => applyContent selected x = .ok y) message.contents
      message'.contents := by
  cases message with
  | system contents | user contents | external contents =>
    obtain ⟨contents', hcontents, h⟩ := Result.bind_ok h
    cases h
    exact mapM_forall₂ hcontents
  | assistant output providerData =>
    obtain ⟨output', houtput, h⟩ := Result.bind_ok h
    cases h
    exact applyOutput_contents (mapM_forall₂ houtput) providerData
  | delegationResult id outcome | runtimeTool callId name outcome =>
    obtain ⟨outcome', houtcome, h⟩ := Result.bind_ok h
    cases h
    exact applyOutcome_contents houtcome

private theorem apply_contents (h : apply request selected = .ok request') :
    List.Forall₂ (fun x y => applyContent selected x = .ok y) (inputs request)
      (inputs request') := by
  obtain ⟨messages, hmessages, h⟩ := Result.bind_ok h
  cases h
  exact List.rel_flatMap (mapM_forall₂ hmessages) fun _ _ => applyMessage_contents

private theorem applyContent_resource {input : ResourceInput} {content' : Content}
    (h : applyContent selected (.resource input) = .ok content') :
    (input.fidelity = none ∧ content' = .resource input) ∨
      ∃ fidelity, input.fidelity.isSome = true ∧
        appliedFidelity selected input.resource.id = .ok fidelity ∧
          content' = .resource { input with fidelity } := by
  simp only [applyContent] at h
  split at h
  · rename_i hsome
    obtain ⟨fidelity, hfidelity, h⟩ := Result.bind_ok h
    cases h
    exact .inr ⟨fidelity, hsome, hfidelity, rfl⟩
  · rename_i hnone
    cases h
    exact .inl ⟨by simpa using hnone, rfl⟩

/-- A table's value is carried rightly exactly if it is one the resource accepts. -/
private theorem carries_iff {input : ResourceInput} {f : Fidelity} {value : Value}
    (hsome : input.fidelity.isSome = true) (hvalue : Fidelity.ofValue value = some f) :
    Carries request caps input (some (.required f)) ↔ Accepts request caps input value := by
  unfold Carries Accepts
  cases hfidelity : input.fidelity with
  | none =>
    rw [hfidelity] at hsome
    cases hsome
  | some requirement =>
    cases requirement with
    | required g =>
      simp only [hvalue, Option.some.injEq, Requirement.required.injEq]
    | preferred g =>
      simp only [hvalue, Option.some.injEq, Requirement.required.injEq, reduceCtorEq, false_or]
      refine or_congr Iff.rfl (exists_congr fun listed => ?_)
      refine and_congr_right fun _ => and_congr_right fun _ => ?_
      constructor
      · rintro ⟨g', hlisted, rfl⟩
        exact hlisted
      · intro hlisted
        exact ⟨f, hlisted, rfl⟩

/-- One content is honoured exactly if it accepts the table's value. -/
private theorem honours_iff {input : ResourceInput} {content' : Content}
    {writes : List (String × Value)}
    (htable : selected.selected.lookup (Keys.resourceFidelity input.resource.id) =
      lastValue (Keys.resourceFidelity input.resource.id) writes)
    (hoffered : ∀ value, offered request caps input = some value →
      (Keys.resourceFidelity input.resource.id, value) ∈ writes)
    (hrequired : ∀ f, input.fidelity = some (.required f) →
      offered request caps input = some f.toValue)
    (h : applyContent selected (.resource input) = .ok content') :
    Honours request caps (.resource input) content' ↔
      ∀ value, lastValue (Keys.resourceFidelity input.resource.id) writes = some value →
        Accepts request caps input value := by
  rcases applyContent_resource h with ⟨hnone, rfl⟩ | ⟨fidelity, hsome, hfidelity, rfl⟩
  · refine iff_of_true ?_ ?_
    · have hcarries : Carries request caps input input.fidelity := by
        unfold Carries
        rw [hnone]
      exact Honours.resource hcarries
    · intro value _
      unfold Accepts
      rw [hnone]
      trivial
  have hiff : Honours request caps (.resource input) (.resource { input with fidelity }) ↔
      Carries request caps input fidelity := by
    constructor
    · intro hhonours
      cases hhonours with
      | resource hcarries => exact hcarries
    · exact Honours.resource
  rw [hiff]
  unfold appliedFidelity at hfidelity
  rw [htable] at hfidelity
  cases hlast : lastValue (Keys.resourceFidelity input.resource.id) writes with
  | none =>
    rw [hlast] at hfidelity
    cases hfidelity
    refine iff_of_true ?_ nofun
    cases hf : input.fidelity with
    | none =>
      rw [hf] at hsome
      cases hsome
    | some requirement =>
      cases requirement with
      | required f =>
        obtain ⟨value, hvalue⟩ := exists_lastValue (hoffered _ (hrequired f hf))
        rw [hlast] at hvalue
        cases hvalue
      | preferred f =>
        unfold Carries
        rw [hf]
        exact .inl rfl
  | some value =>
    rw [hlast] at hfidelity
    simp only at hfidelity
    split at hfidelity
    · rename_i f hf
      cases hfidelity
      rw [carries_iff hsome hf]
      constructor
      · rintro haccepts _ ⟨⟩
        exact haccepts
      · intro hall
        exact hall value rfl
    · cases hfidelity

/-- After a negotiation that is applied every resource is honoured exactly if those of one
identity agree. -/
theorem honoured_iff {mappings : List ProfileMapping} {images : Bool}
    (hnegotiate : negotiate request caps mappings images = .ok selected)
    (happly : apply request selected = .ok request') :
    List.Forall₂ (Honours request caps) (inputs request) (inputs request') ↔
      Agreeing request caps := by
  obtain ⟨result, hresult, h⟩ := Result.bind_ok hnegotiate
  obtain ⟨_, -, h⟩ := Result.bind_ok h
  cases h
  obtain ⟨htable, hrequired⟩ := negotiate_resources hresult
  let P : Content → Prop := fun content =>
    ∀ input, content = .resource input →
      ∀ value, lastValue (Keys.resourceFidelity input.resource.id)
          (offers request caps (inputs request)) = some value → Accepts request caps input value
  have hpoint : ∀ content ∈ inputs request, ∀ content',
      applyContent selected content = .ok content' →
        (Honours request caps content content' ↔ P content) := by
    intro content hcontent content' happlied
    cases content with
    | text text =>
      cases happlied
      exact iff_of_true (.text text) nofun
    | opaqueData provider data =>
      cases happlied
      exact iff_of_true (.opaqueData provider data) nofun
    | resource input =>
      have hwritten : ∀ value, offered request caps input = some value →
          (Keys.resourceFidelity input.resource.id, value) ∈
            offers request caps (inputs request) := by
        intro value hvalue
        refine List.mem_filterMap.2 ⟨_, hcontent, ?_⟩
        simp only [hvalue, Option.map_some]
      rw [honours_iff (htable input.resource.id) hwritten (hrequired input hcontent) happlied]
      constructor
      · rintro haccepts _ ⟨⟩
        exact haccepts
      · intro hall
        exact hall input rfl
  rw [forall₂_iff (apply_contents happly) hpoint]
  constructor
  · intro hall input hinput
    exact hall _ hinput input rfl
  · rintro hagree content hcontent input rfl
    exact hagree input hcontent

def sampleInput (id : String) (fidelity : Requirement Fidelity) : ResourceInput where
  resource := ⟨id, "image/png", none, .url "image", []⟩
  extensions := []
  fidelity := some fidelity

def sampleImage (id : String) (fidelity : Requirement Fidelity) : Message :=
  .user [.resource (sampleInput id fidelity)]

def sampleRequest (messages : List Message) : ModelRequest where
  messages
  runtimeTools := []
  providerTools := []
  profile := { data := .null, alternatives := [("resource.image.fidelity", [.string "high"])] }
  toolChoice := .auto
  responseFormat := none
  stream := false

def sampleCaps : CapabilitySet where
  features := []
  rest := .null
  inputModalities := ["image"]
  toolChoices := ["auto"]
  constraints := [("resource.image.fidelity", [.string "economy", .string "high"])]

def sampleSelected (values : List (String × String)) (unmet : List (String × String)) :
    NegotiatedProfile :=
  ⟨values.map fun v => (v.1, .string v.2), unmet⟩

/-- One resource twice, and one that asks for what the model does not have. -/
def sampleAsked : ModelRequest :=
  sampleRequest [sampleImage "a" (.required .high), sampleImage "b" (.preferred .original),
    sampleImage "a" (.required .high)]

def sampleGranted : ModelRequest :=
  sampleRequest [sampleImage "a" (.required .high), sampleImage "b" (.required .high),
    sampleImage "a" (.required .high)]

private theorem sampleAsked_agreeing : Agreeing sampleAsked sampleCaps := by
  intro input hinput value hvalue
  have hlast : ∀ id : String, id = "a" ∨ id = "b" →
      lastValue (Keys.resourceFidelity id) (offers sampleAsked sampleCaps (inputs sampleAsked)) =
        some (.string "high") := by
    rintro id (rfl | rfl)
    · decide
    · decide
  have hlisted : input = (sampleInput "a" (.required .high)) ∨
      input = (sampleInput "b" (.preferred .original)) := by
    simpa [sampleAsked, sampleRequest, inputs, sampleImage, Message.contents, or_comm,
      or_left_comm] using hinput
  obtain rfl | rfl := hlisted
  · cases (hlast "a" (.inl rfl)).symm.trans hvalue
    rfl
  · cases (hlast "b" (.inr rfl)).symm.trans hvalue
    exact .inr ⟨.string "high", by decide, by decide +kernel, rfl⟩

/-- Each of three resources is given what it asks for, or what is listed in its place. -/
theorem honoured_iff_sample :
    List.Forall₂ (Honours sampleAsked sampleCaps) (inputs sampleAsked) (inputs sampleGranted) :=
  (@honoured_iff sampleAsked sampleGranted sampleCaps
    (sampleSelected [("resource.a.fidelity", "high"), ("resource.b.fidelity", "high")]
      [("resource.b.fidelity", "requested value unavailable")])
    [] true (by decide) (by decide +kernel)).2 sampleAsked_agreeing

/-- A resource required in two fidelities is given the later one in both places. -/
theorem required_fidelity_lost :
    ¬ ∀ (request : ModelRequest) (caps : CapabilitySet) (mappings : List ProfileMapping)
      (images : Bool) (selected : NegotiatedProfile) (request' : ModelRequest),
      negotiate request caps mappings images = .ok selected →
        apply request selected = .ok request' →
          List.Forall₂ (Honours request caps) (inputs request) (inputs request') := by
  intro h
  have hall := h
    (sampleRequest [sampleImage "a" (.required .high), sampleImage "a" (.required .economy)])
    sampleCaps [] true (sampleSelected [("resource.a.fidelity", "economy")] [])
    (sampleRequest [sampleImage "a" (.required .economy), sampleImage "a" (.required .economy)])
    (by decide) (by decide +kernel)
  obtain ⟨hfirst, -⟩ := List.forall₂_cons.1 hall
  cases hfirst with
  | resource hcarries => cases hcarries

end Zhir.Models
