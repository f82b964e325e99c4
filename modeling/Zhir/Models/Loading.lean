import Zhir.Models.Resources

/-!
What resolving a message loads: the stored contents and the markers, in order, and nothing else.
-/

set_option autoImplicit false
set_option relaxedAutoImplicit false

namespace Zhir.Models

open Zhir.Core

def storedRef : Content → Option ResourceRef
  | .resource input =>
    match input.resource.source with
    | .stored _ => some input.resource
    | _ => none
  | _ => none

mutual

def markers : Value → List ResourceRef
  | .object fields =>
    match fields.lookup markerKey with
    | some reference => (refOfValue reference).toList
    | none => markersFields fields
  | .array items => markersItems items
  | _ => []

def markersItems : List Value → List ResourceRef
  | [] => []
  | v :: rest => markers v ++ markersItems rest

def markersFields : List (String × Value) → List ResourceRef
  | [] => []
  | (_, v) :: rest => markers v ++ markersFields rest

end

def outputRefs : Output → List ResourceRef
  | .content content => (storedRef content).toList
  | .providerToolCall call => call.output.filterMap storedRef ++ markers call.data
  | _ => []

def messageRefs : Message → List ResourceRef
  | .system content => content.filterMap storedRef
  | .user content => content.filterMap storedRef
  | .external content => content.filterMap storedRef
  | .assistant output providerData => output.flatMap outputRefs ++ markers providerData
  | .delegationResult _ outcome => outcome.content.filterMap storedRef
  | .runtimeTool _ _ outcome => outcome.content.filterMap storedRef

section

variable {σ : Type} {store : ResourceStore σ} {s s' : σ}

/-- A successful `f` loads `refs`, and succeeds alike wherever these read alike. -/
structure Follows {α : Type} (store : ResourceStore σ) (s s' : σ) (refs : List ResourceRef)
    (f : σ → Loads → Result (α × Loads)) : Prop where
  loads : ∀ l a l', f s l = .ok (a, l') → l'.loaded = l.loaded ++ refs
  reads : ∀ l a l', f s l = .ok (a, l') → ∀ r ∈ refs, ∃ bytes, store.read r s = .ok bytes
  same : (∀ r ∈ refs, store.read r s' = store.read r s) → ∀ l a l', f s l = .ok (a, l') →
    f s' l = .ok (a, l')

namespace Follows

variable {α β : Type} {refs refs' : List ResourceRef}

theorem pure (a : α) : Follows store s s' [] fun _ l => .ok (a, l) where
  loads l b l' h := by
    cases h
    exact (List.append_nil _).symm
  reads _ _ _ _ r hr := by cases hr
  same _ _ _ _ h := h

theorem fail (error : Error) :
    Follows store s s' refs fun _ _ => (.error error : Result (α × Loads)) where
  loads _ _ _ h := by cases h
  reads _ _ _ h := by cases h
  same _ _ _ _ h := h

theorem bind {f : σ → Loads → Result (α × Loads)} {g : α → σ → Loads → Result (β × Loads)}
    (hf : Follows store s s' refs f) (hg : ∀ a, Follows store s s' refs' (g a)) :
    Follows store s s' (refs ++ refs') fun s l => f s l >>= fun r => g r.1 s r.2 where
  loads l b l' h := by
    obtain ⟨⟨a, l₁⟩, hfirst, hrest⟩ := Result.bind_ok h
    rw [(hg a).loads l₁ b l' hrest, hf.loads l a l₁ hfirst, List.append_assoc]
  reads l b l' h := by
    obtain ⟨⟨a, l₁⟩, hfirst, hrest⟩ := Result.bind_ok h
    exact List.forall_mem_append.mpr ⟨hf.reads l a l₁ hfirst, (hg a).reads l₁ b l' hrest⟩
  same hread l b l' h := by
    obtain ⟨hreadFirst, hreadRest⟩ := List.forall_mem_append.mp hread
    obtain ⟨⟨a, l₁⟩, hfirst, hrest⟩ := Result.bind_ok h
    simp only [hf.same hreadFirst l a l₁ hfirst]
    exact (hg a).same hreadRest l₁ b l' hrest

theorem map {f : σ → Loads → Result (α × Loads)} (g : α → β) (hf : Follows store s s' refs f) :
    Follows store s s' refs fun s l => f s l >>= fun r => Pure.pure (g r.1, r.2) := by
  have h := hf.bind (g := fun a _ l => .ok (g a, l)) fun a => pure (g a)
  rwa [List.append_nil] at h

end Follows

private theorem follows_load (r : ResourceRef) : Follows store s s'
    [r] fun s => load store s r where
  loads l bytes l' h := by
    obtain ⟨_, -, h⟩ := Result.bind_ok h
    obtain ⟨_, -, h⟩ := Result.bind_ok h
    obtain ⟨_, -, h⟩ := Result.bind_ok h
    cases h
    rfl
  reads l bytes l' h := by
    obtain ⟨_, -, h⟩ := Result.bind_ok h
    obtain ⟨bytes, hbytes, -⟩ := Result.bind_ok h
    intro r' hr'
    obtain rfl := List.mem_singleton.mp hr'
    exact ⟨bytes, hbytes⟩
  same hread l bytes l' h := by
    have hsame := hread r List.mem_cons_self
    simp only [load, hsame]
    exact h

private theorem follows_content (content : Content) :
    Follows store s s' (storedRef content).toList fun s => resolveContent store s content := by
  cases content with
  | resource input =>
    cases hsource : input.resource.source with
    | stored key =>
      have hload : Follows store s s' [input.resource] fun s => load store s input.resource :=
        follows_load input.resource
      simp only [storedRef, hsource, Option.toList_some]
      unfold resolveContent
      simp only [hsource]
      exact hload.map fun bytes => Content.resource
        { input with resource := { input.resource with source := .inline bytes } }
    | inline bytes =>
      simp only [storedRef, hsource, Option.toList_none]
      unfold resolveContent
      simp only [hsource]
      constructor
      · intro l a l' h
        obtain ⟨_, -, h⟩ := Result.bind_ok h
        cases h
        exact (List.append_nil _).symm
      · intro _ _ _ _ r hr
        cases hr
      · intro _ l a l' h
        exact h
    | _ =>
      simp only [storedRef, hsource, Option.toList_none]
      unfold resolveContent
      simp only [hsource]
      exact Follows.pure _
  | _ => exact Follows.pure _

private theorem follows_contents (contents : List Content) :
    Follows store s s' (contents.filterMap storedRef)
      fun s => resolveContents store s contents := by
  induction contents with
  | nil => exact Follows.pure _
  | cons content rest ih =>
    have hrefs : (content :: rest).filterMap storedRef =
        (storedRef content).toList ++ rest.filterMap storedRef := by
      cases h : storedRef content <;> simp [h]
    rw [hrefs]
    exact (follows_content content).bind
      (g := fun content s l => resolveContents store s rest l >>= fun r =>
        pure (content :: r.1, r.2)) fun content => ih.map fun rest => content :: rest

mutual

theorem follows_value (v : Value) :
    Follows store s s' (markers v) fun s => resolveValue store s v := by
  cases v with
  | object fields =>
    cases hlookup : fields.lookup markerKey with
    | none =>
      have hfields := follows_fields fields
      simp only [markers, hlookup, resolveValue]
      exact hfields.map Value.object
    | some reference =>
      simp only [markers, hlookup, resolveValue]
      split
      · -- a marker with other fields is refused
        exact Follows.fail _
      · cases hreference : refOfValue reference with
        | none => exact Follows.fail _
        | some r => exact (follows_load r).map fun bytes => Value.string (base64 bytes)
  | array items =>
    have hitems := follows_items items
    simp only [markers, resolveValue]
    exact hitems.map Value.array
  | _ => exact Follows.pure _

theorem follows_items (items : List Value) :
    Follows store s s' (markersItems items) fun s => resolveItems store s items := by
  cases items with
  | nil => exact Follows.pure _
  | cons v rest =>
    have hfirst := follows_value v
    have hrest := follows_items rest
    exact hfirst.bind (g := fun v s l => resolveItems store s rest l >>= fun r =>
      pure (v :: r.1, r.2)) fun v => hrest.map fun rest => v :: rest

theorem follows_fields (fields : List (String × Value)) :
    Follows store s s' (markersFields fields) fun s => resolveFields store s fields := by
  cases fields with
  | nil => exact Follows.pure _
  | cons f rest =>
    obtain ⟨name, v⟩ := f
    have hfirst := follows_value v
    have hrest := follows_fields rest
    exact hfirst.bind (g := fun v s l => resolveFields store s rest l >>= fun r =>
      pure ((name, v) :: r.1, r.2)) fun v => hrest.map fun rest => (name, v) :: rest

end

private theorem follows_output (output : Output) :
    Follows store s s' (outputRefs output) fun s => resolveOutput store s output := by
  cases output with
  | content content => exact (follows_content content).map Output.content
  | providerToolCall call =>
    exact (follows_contents call.output).bind
      (g := fun output s l => resolveValue store s call.data l >>= fun r =>
        pure (Output.providerToolCall { call with output, data := r.1 }, r.2))
      fun output => (follows_value call.data).map fun data =>
        Output.providerToolCall { call with output, data }
  | _ => exact Follows.pure _

private theorem follows_outputs (outputs : List Output) :
    Follows store s s' (outputs.flatMap outputRefs) fun s => resolveOutputs store s outputs := by
  induction outputs with
  | nil => exact Follows.pure _
  | cons output rest ih =>
    exact (follows_output output).bind
      (g := fun output s l => resolveOutputs store s rest l >>= fun r =>
        pure (output :: r.1, r.2)) fun output => ih.map fun rest => output :: rest

private theorem follows_outcome (outcome : OperationOutcome) :
    Follows store s s' (outcome.content.filterMap storedRef)
      fun s => resolveOutcome store s outcome := by
  cases outcome with
  | success content structured =>
    exact (follows_contents content).map fun content => OperationOutcome.success content structured
  | _ => exact Follows.pure _

theorem follows_message (message : Message) :
    Follows store s s' (messageRefs message) fun s => resolveMessage store s message := by
  cases message with
  | system content => exact (follows_contents content).map Message.system
  | user content => exact (follows_contents content).map Message.user
  | external content => exact (follows_contents content).map Message.external
  | assistant output providerData =>
    exact (follows_outputs output).bind
      (g := fun output s l => resolveValue store s providerData l >>= fun r =>
        pure (Message.assistant output r.1, r.2))
      fun output => (follows_value providerData).map fun data => Message.assistant output data
  | delegationResult id outcome => exact (follows_outcome outcome).map (Message.delegationResult id)
  | runtimeTool callId name outcome =>
    exact (follows_outcome outcome).map (Message.runtimeTool callId name)

theorem loaded_of_message {message message' : Message} {budget : Nat} {l : Loads}
    (h : resolveMessage store s message ⟨budget, []⟩ = .ok (message', l)) :
    l.loaded = messageRefs message ∧ ∀ r ∈ messageRefs message,
      ∃ bytes, store.read r s = .ok bytes := by
  have hfollows : Follows store s s (messageRefs message) fun s => resolveMessage store s message :=
    follows_message message
  exact ⟨hfollows.loads _ _ _ h, hfollows.reads _ _ _ h⟩

end

end Zhir.Models
