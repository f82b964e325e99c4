import Zhir.Core.Request
import Zhir.Library.Entries

/-!
Negotiation of a request with what a model declares: for every dimension of the profile, and for
every resource, the value the model is to be given.
-/

set_option autoImplicit false
set_option relaxedAutoImplicit false

namespace Zhir.Core

def Serving.toValue : Serving → Value
  | .balanced => .string "balanced"
  | .lowLatency => .string "low_latency"
  | .lowCost => .string "low_cost"

def Reasoning.toValue : Reasoning → Value
  | .low => .string "low"
  | .balanced => .string "balanced"
  | .high => .string "high"

def Interaction.toValue : Interaction → Value
  | .turnBased => .string "turn_based"
  | .duplex => .string "duplex"

def Fidelity.toValue : Fidelity → Value
  | .economy => .string "economy"
  | .high => .string "high"
  | .original => .string "original"

namespace Keys

def serving : String := "serving"

def reasoning : String := "reasoning"

def language : String := "language"

def interaction : String := "interaction"

def resourceFidelity (subject : String) : String :=
  "resource." ++ subject ++ ".fidelity"

end Keys

end Zhir.Core

namespace Zhir.Policies

open Zhir.Core Zhir.Library

/-- Select a value in one dimension: the one requested, or the first explicit alternative that is
supported. -/
def choose {α : Type} (key : String) (requested : Option (Requirement α)) (toValue : α → Value)
    (request : ModelRequest) (caps : CapabilitySet) (result : NegotiatedProfile) :
    Result NegotiatedProfile :=
  match requested with
  | none => .ok result
  | some requirement =>
    let value := toValue requirement.value
    let values := caps.constraints.lookup key
    if values.any (value ∈ ·) then
      .ok { result with selected := insertKey result.selected key value }
    else if requirement.isRequired then .error (.invalid ("required " ++ key ++ " is unsupported"))
    else
      match request.profile.alternatives.lookup key with
      | none => .error (.invalid (key ++ " cannot degrade without an explicit policy"))
      | some alternatives =>
        let unmetPreferences :=
          insertKey result.unmetPreferences key "requested value unavailable"
        match alternatives.find? (fun value => values.any (value ∈ ·)) with
        | some value => .ok ⟨insertKey result.selected key value, unmetPreferences⟩
        | none => .ok { result with unmetPreferences }

/-- What is selected for one resource goes into the table under the identity of the resource. -/
def chooseResource (request : ModelRequest) (caps : CapabilitySet) (result : NegotiatedProfile)
    (content : Content) : Result NegotiatedProfile :=
  match content with
  | .resource input => do
    require (input.transforms = [])
      (.invalid
        "resource transforms must be executed as explicit operations before model input")
    let key := Keys.resourceFidelity input.resource.modality
    let entry := Keys.resourceFidelity input.resource.id
    let chosen ← choose key input.fidelity Fidelity.toValue request caps ⟨[], []⟩
    let selected := match chosen.selected.lookup key with
      | some value => insertKey result.selected entry value
      | none => result.selected
    return ⟨selected, chosen.unmetPreferences.foldl (fun m reason => insertKey m entry reason.2)
      result.unmetPreferences⟩
  | _ => .ok result

def interactions (caps : CapabilitySet) : List Value :=
  if caps.supports .duplex then [.string "turn_based", .string "duplex"]
  else [.string "turn_based"]

def chooseProfile (request : ModelRequest) (caps : CapabilitySet) : Result NegotiatedProfile := do
  let profile := request.profile
  let result ← choose Keys.serving profile.serving Serving.toValue request caps ⟨[], []⟩
  let result ← choose Keys.reasoning profile.reasoning Reasoning.toValue request caps result
  let result ← choose Keys.language profile.language Value.string request caps result
  let withInteraction :=
    { caps with constraints := insertKey caps.constraints Keys.interaction (interactions caps) }
  choose Keys.interaction profile.interaction Interaction.toValue request withInteraction result

def negotiate (request : ModelRequest) (caps : CapabilitySet) : Result NegotiatedProfile := do
  request.validate caps
  let result ← chooseProfile request caps
  (request.messages.flatMap Message.contents).foldlM (chooseResource request caps) result

variable {request : ModelRequest} {caps : CapabilitySet}

def alternatives (request : ModelRequest) (modality : String) : List Value :=
  (request.profile.alternatives.lookup (Keys.resourceFidelity modality)).getD []

def supported (caps : CapabilitySet) (modality : String) : List Value :=
  (caps.constraints.lookup (Keys.resourceFidelity modality)).getD []

def offered (request : ModelRequest) (caps : CapabilitySet) (input : ResourceInput) :
    Option Value :=
  match input.fidelity with
  | none => none
  | some requirement =>
    let values := supported caps input.resource.modality
    if requirement.value.toValue ∈ values then some requirement.value.toValue
    else (alternatives request input.resource.modality).find? (· ∈ values)

def offers (request : ModelRequest) (caps : CapabilitySet) (contents : List Content) :
    List (String × Value) :=
  contents.filterMap fun
    | .resource input =>
      (offered request caps input).map (Keys.resourceFidelity input.resource.id, ·)
    | _ => none

private theorem any_mem (values : Option (List Value)) (value : Value) :
    values.any (value ∈ ·) = decide (value ∈ values.getD []) := by
  cases values <;> simp

private theorem choose_others {α : Type} {key key' : String} {requested : Option (Requirement α)}
    {toValue : α → Value} {result result' : NegotiatedProfile}
    (h : choose key requested toValue request caps result = .ok result') (hne : key' ≠ key) :
    result'.selected.lookup key' = result.selected.lookup key' := by
  unfold choose at h
  cases requested with
  | none =>
    cases h
    rfl
  | some requirement =>
    simp only at h
    split at h
    · cases h
      exact lookup_insertKey_of_ne hne _ _
    split at h
    · cases h
    split at h
    · cases h
    split at h
    · cases h
      exact lookup_insertKey_of_ne hne _ _
    · cases h
      rfl

private theorem string_irrefl (s : String) : ¬ s < s :=
  String.lt_irrefl s

private theorem choose_resource {input : ResourceInput} {chosen : NegotiatedProfile}
    (h : choose (Keys.resourceFidelity input.resource.modality) input.fidelity Fidelity.toValue
      request caps ⟨[], []⟩ = .ok chosen) :
    chosen.selected.lookup (Keys.resourceFidelity input.resource.modality) =
        offered request caps input ∧
      ∀ f, input.fidelity = some (.required f) → offered request caps input = some f.toValue := by
  unfold choose at h
  unfold offered supported alternatives
  cases hfidelity : input.fidelity with
  | none =>
    rw [hfidelity] at h
    cases h
    exact ⟨rfl, nofun⟩
  | some requirement =>
    rw [hfidelity] at h
    simp only [any_mem, decide_eq_true_eq] at h ⊢
    split at h
    · rename_i hvalue
      cases h
      rw [if_pos hvalue]
      refine ⟨lookup_insertKey_self string_irrefl _ _ _, ?_⟩
      rintro f hf
      cases hf
      rfl
    · rename_i hvalue
      rw [if_neg hvalue]
      split at h
      · cases h
      rename_i hrequired
      have hpreferred : ∀ f, some requirement ≠ some (.required f) := by
        rintro f hf
        cases hf
        exact hrequired rfl
      refine ⟨?_, fun f hf => absurd hf (hpreferred f)⟩
      split at h
      · cases h
      rename_i listed hlisted
      rw [hlisted]
      split at h
      · rename_i value hfind
        cases h
        rw [Option.getD_some, hfind]
        exact lookup_insertKey_self string_irrefl _ _ _
      · rename_i hfind
        cases h
        rw [Option.getD_some, hfind]
        rfl

private theorem resourceFidelity_ne {key : String} (h : key ∈ [Keys.serving, Keys.reasoning,
    Keys.language, Keys.interaction]) (id : String) : Keys.resourceFidelity id ≠ key := by
  intro heq
  have hlist := congrArg String.toList heq
  unfold Keys.resourceFidelity at hlist
  rw [String.toList_append, String.toList_append] at hlist
  simp only [List.mem_cons, List.not_mem_nil, or_false] at h
  rcases h with rfl | rfl | rfl | rfl <;>
    simp [Keys.serving, Keys.reasoning, Keys.language, Keys.interaction] at hlist

private theorem chooseProfile_resources {result : NegotiatedProfile}
    (h : chooseProfile request caps = .ok result) (id : String) :
    result.selected.lookup (Keys.resourceFidelity id) = none := by
  obtain ⟨serving, hserving, h⟩ := Result.bind_ok h
  obtain ⟨reasoning, hreasoning, h⟩ := Result.bind_ok h
  obtain ⟨language, hlanguage, h⟩ := Result.bind_ok h
  rw [choose_others h (resourceFidelity_ne (by simp) id),
    choose_others hlanguage (resourceFidelity_ne (by simp) id),
    choose_others hreasoning (resourceFidelity_ne (by simp) id),
    choose_others hserving (resourceFidelity_ne (by simp) id)]
  rfl

private theorem offers_resource (input : ResourceInput) :
    offers request caps [.resource input] =
      ((offered request caps input).map (Keys.resourceFidelity input.resource.id, ·)).toList := by
  unfold offers
  cases h : offered request caps input <;> simp [h]

private theorem chooseResource_offers {content : Content} {result result' : NegotiatedProfile}
    (h : chooseResource request caps result content = .ok result') :
    result'.selected = (offers request caps [content]).foldl (fun m w => insertKey m w.1 w.2)
        result.selected ∧
      ∀ input, content = .resource input → ∀ f, input.fidelity = some (.required f) →
        offered request caps input = some f.toValue := by
  cases content with
  | text text =>
    cases h
    exact ⟨rfl, nofun⟩
  | opaqueData provider data =>
    cases h
    exact ⟨rfl, nofun⟩
  | resource input =>
    obtain ⟨_, -, h⟩ := Result.bind_ok h
    obtain ⟨chosen, hchosen, h⟩ := Result.bind_ok h
    cases h
    obtain ⟨hlookup, hrequired⟩ := choose_resource hchosen
    refine ⟨?_, ?_⟩
    · simp only [hlookup, offers_resource]
      cases offered request caps input <;> rfl
    · rintro _ ⟨⟩
      exact hrequired

private theorem foldlM_offers {contents : List Content} {result result' : NegotiatedProfile}
    (h : contents.foldlM (chooseResource request caps) result = .ok result') :
    result'.selected = (offers request caps contents).foldl (fun m w => insertKey m w.1 w.2)
        result.selected ∧
      ∀ input, .resource input ∈ contents → ∀ f, input.fidelity = some (.required f) →
        offered request caps input = some f.toValue := by
  induction contents generalizing result with
  | nil =>
    cases h
    exact ⟨rfl, nofun⟩
  | cons content rest ih =>
    rw [List.foldlM_cons] at h
    obtain ⟨next, hnext, h⟩ := Result.bind_ok h
    obtain ⟨hselected, hrequired⟩ := chooseResource_offers hnext
    obtain ⟨hrest, hothers⟩ := ih h
    have hsplit : offers request caps (content :: rest) =
        offers request caps [content] ++ offers request caps rest :=
      List.filterMap_append (l := [content])
    refine ⟨?_, ?_⟩
    · rw [hrest, hselected, hsplit, List.foldl_append]
    · intro input hinput
      rcases List.mem_cons.1 hinput with heq | hinput
      · exact hrequired input heq.symm
      · exact hothers input hinput

/-- After a negotiation the table holds, for every resource identity, what the last content with
that identity that is offered a value is offered. -/
theorem negotiate_resources {result : NegotiatedProfile}
    (h : negotiate request caps = .ok result) :
    (∀ id, result.selected.lookup (Keys.resourceFidelity id) =
        lastValue (Keys.resourceFidelity id)
          (offers request caps (request.messages.flatMap Message.contents))) ∧
      ∀ input, .resource input ∈ request.messages.flatMap Message.contents →
        ∀ f, input.fidelity = some (.required f) →
          offered request caps input = some f.toValue := by
  obtain ⟨_, -, h⟩ := Result.bind_ok h
  obtain ⟨profile, hprofile, h⟩ := Result.bind_ok h
  obtain ⟨hselected, hrequired⟩ := foldlM_offers h
  refine ⟨?_, hrequired⟩
  intro id
  rw [hselected, lookup_foldl_insertKey string_irrefl, chooseProfile_resources hprofile,
    Option.or_none]

end Zhir.Policies
