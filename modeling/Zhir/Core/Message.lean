import Zhir.Core.Value

/-!
Messages, their content and the calls they carry. `validate` functions return the
first failure in source order.
-/

set_option autoImplicit false
set_option relaxedAutoImplicit false

namespace Zhir.Core

inductive ResourceSource
  | inline (bytes : List UInt8)
  | url (url : String)
  | stored (key : String)
  | provider (provider : String) (reference : Value)
  deriving DecidableEq, Repr

structure ResourceRef where
  id : String
  mediaType : String
  name : Option String
  source : ResourceSource
  metadata : List (String × Value)
  deriving DecidableEq, Repr

def ResourceRef.validate (r : ResourceRef) : Result Unit :=
  if r.id = "" ∨ r.mediaType = "" then
    .error (.invalid "resource identity and media type are required")
  else match r.source with
    | .url url => if url = "" then .error (.invalid "empty resource URL") else .ok ()
    | .stored key => if key = "" then .error (.invalid "empty stored resource key") else .ok ()
    | .provider provider reference =>
      if provider = "" ∨ reference.isNull then .error (.invalid "invalid provider resource")
      else .ok ()
    | .inline _ => .ok ()

/-- `media_type` before its first slash, where that names a kind of media. -/
def ResourceRef.modality (r : ResourceRef) : String :=
  let kind := String.ofList (r.mediaType.toList.takeWhile (· != '/'))
  if kind = "image" ∨ kind = "audio" ∨ kind = "video" then kind else "file"

abbrev Extensions := List (String × List (String × Value))

def validateExtensions (extensions : Extensions) : Result Unit :=
  if extensions.any (fun e => e.1 = "" || e.2.any (fun kv => kv.1 = "")) then
    .error (.invalid "extension namespace and key must be nonempty")
  else .ok ()

inductive Requirement (α : Type)
  | required (value : α)
  | preferred (value : α)
  deriving DecidableEq, Repr

def Requirement.value {α : Type} : Requirement α → α
  | .required value | .preferred value => value

def Requirement.isRequired {α : Type} : Requirement α → Bool
  | .required _ => true
  | .preferred _ => false

inductive Fidelity
  | economy | high | original
  deriving DecidableEq, Repr

structure ResourceInput where
  resource : ResourceRef
  extensions : Extensions
  fidelity : Option (Requirement Fidelity) := none
  transforms : List String := []
  deriving DecidableEq, Repr

inductive Content
  | text (text : String)
  | resource (input : ResourceInput)
  | opaqueData (provider : String) (data : Value)
  deriving DecidableEq, Repr

def Content.validate : Content → Result Unit
  | .text _ => .ok ()
  | .resource input => do
    input.resource.validate
    validateExtensions input.extensions
  | .opaqueData provider data =>
    if provider = "" ∨ data.isObject = false ∨ data = .object [] then
      .error (.invalid "opaque content requires provider and nonempty object")
    else .ok ()

def Content.modality : Content → Option String
  | .text _ => some "text"
  | .resource input => some input.resource.modality
  | .opaqueData _ _ => none

/-- Check every element in order, stopping at the first failure. -/
def validateAll {α : Type} (check : α → Result Unit) : List α → Result Unit
  | [] => .ok ()
  | x :: xs => do
    check x
    validateAll check xs

theorem validateAll_ok {α : Type} {check : α → Result Unit} {xs : List α}
    (h : validateAll check xs = .ok ()) : ∀ x ∈ xs, check x = .ok () := by
  induction xs with
  | nil => simp
  | cons x xs ih =>
    simp only [validateAll, bind, Except.bind] at h
    split at h
    · cases h
    · rename_i hx
      intro y hy
      rcases List.mem_cons.mp hy with rfl | hy
      · exact hx
      · exact ih h y hy

inductive OperationOutcome
  | success (content : List Content) (structured : Value)
  | failure (error : Failure)
  | cancelled (reason : String)
  deriving DecidableEq, Repr

namespace OperationOutcome

def content : OperationOutcome → List Content
  | .success content _ => content
  | _ => []

def validate (o : OperationOutcome) : Result Unit := validateAll Content.validate o.content

end OperationOutcome

inductive RuntimeToolInput
  | structured (arguments : Value)
  | freeform (text : String)
  deriving DecidableEq, Repr

structure RuntimeToolCall where
  id : String
  name : String
  input : RuntimeToolInput
  deriving DecidableEq, Repr

def RuntimeToolCall.validate (call : RuntimeToolCall) : Result Unit :=
  if call.id = "" ∨ call.name = "" then .error (.invalid "empty tool identity")
  else match call.input with
    | .structured v =>
      if v.isObject then .ok () else .error (.invalid "structured arguments must be an object")
    | .freeform _ => .ok ()

structure DelegationRequest where
  id : String
  prompt : String
  deriving DecidableEq, Repr

inductive ProviderToolStatus
  | cancelled | pending | running | completed | incomplete | failed
  deriving DecidableEq, Repr

/-- Settlement of a provider call recorded by the kernel; content stays in the call. -/
inductive ProviderToolOutcome
  | success (structured : Value)
  | failure (error : Failure)
  | cancelled (reason : String)
  deriving DecidableEq, Repr

def ProviderToolOutcome.ofOutcome : OperationOutcome → ProviderToolOutcome
  | .success _ structured => .success structured
  | .failure error => .failure error
  | .cancelled reason => .cancelled reason

def ProviderToolOutcome.isSuccess : ProviderToolOutcome → Bool
  | .success _ => true
  | _ => false

def ProviderToolStatus.ofOutcome : ProviderToolOutcome → ProviderToolStatus
  | .success _ => .completed
  | .failure _ => .failed
  | .cancelled _ => .cancelled

structure ProviderToolCall where
  id : String
  provider : String
  name : String
  status : ProviderToolStatus
  outcome : Option ProviderToolOutcome
  output : List Content
  data : Value
  deriving DecidableEq, Repr

def ProviderToolCall.matchesOutcome (call : ProviderToolCall) (outcome : OperationOutcome) : Bool :=
  decide (call.outcome = some (.ofOutcome outcome)) && decide (call.output = outcome.content)

inductive Output
  | delegation (request : DelegationRequest)
  | content (content : Content)
  | runtimeToolCall (call : RuntimeToolCall)
  | providerToolCall (call : ProviderToolCall)
  deriving DecidableEq, Repr

inductive Message
  | delegationResult (id : String) (outcome : OperationOutcome)
  | system (content : List Content)
  | user (content : List Content)
  | external (content : List Content)
  | assistant (output : List Output) (providerData : Value)
  | runtimeTool (callId name : String) (outcome : OperationOutcome)
  deriving DecidableEq, Repr

/-- The Unicode white space that `str::trim` removes. -/
private def whiteSpace (c : Char) : Bool :=
  let n := c.toNat
  (9 ≤ n && n ≤ 13) || n == 0x20 || n == 0x85 || n == 0xA0 || n == 0x1680 ||
    (0x2000 ≤ n && n ≤ 0x200A) || n == 0x2028 || n == 0x2029 || n == 0x202F || n == 0x205F ||
    n == 0x3000

private def blank (s : String) : Bool := s.toList.all whiteSpace

/-- One item of `validate_output`; `seen` holds the call ids met so far. -/
def validateItem (seen : List String) : Output → Result (List String)
  | .delegation request =>
    if request.id = "" ∨ blank request.prompt ∨ request.id ∈ seen then
      .error (.invalid "invalid delegation")
    else .ok (request.id :: seen)
  | .content content => do
    content.validate
    return seen
  | .runtimeToolCall call => do
    call.validate
    if call.id ∈ seen then .error (.invalid "duplicate tool call id")
    else .ok (call.id :: seen)
  | .providerToolCall call => do
    if call.id ∈ seen then .error (.invalid "duplicate output call id")
    else if call.id = "" ∨ call.provider = "" ∨ call.name = "" then
      .error (.invalid "empty provider call identity")
    else do
      validateAll Content.validate call.output
      match call.outcome with
      | none => .ok (call.id :: seen)
      | some outcome =>
        if call.status ≠ .ofOutcome outcome ∨
            (outcome.isSuccess = false ∧ call.output ≠ []) then
          .error (.invalid "provider settlement disagrees with output")
        else .ok (call.id :: seen)

def validateItems : List String → List Output → Result Unit
  | _, [] => .ok ()
  | seen, item :: rest => do
    let seen ← validateItem seen item
    validateItems seen rest

def validateOutput (output : List Output) : Result Unit := validateItems [] output

namespace Message

def validate : Message → Result Unit
  | .delegationResult id outcome =>
    if id = "" then .error (.invalid "empty delegation identity") else outcome.validate
  | .system content => validateAll Content.validate content
  | .user content => validateAll Content.validate content
  | .external content => validateAll Content.validate content
  | .assistant output _ => validateOutput output
  | .runtimeTool callId name outcome =>
    if callId = "" ∨ name = "" then .error (.invalid "empty tool message identity")
    else outcome.validate

def isUser : Message → Bool
  | .user _ => true
  | _ => false

def isExternal : Message → Bool
  | .external _ => true
  | _ => false

end Message

def visibleContent (output : List Output) : List Content :=
  output.flatMap fun
    | .content content => [content]
    | .providerToolCall call =>
      match call.status with
      | .completed | .incomplete | .failed => call.output
      | _ => []
    | _ => []

theorem mem_visibleContent {output : List Output} {content : Content} :
    content ∈ visibleContent output ↔ ∃ item ∈ output, content ∈ visibleContent [item] := by
  simp only [visibleContent, List.mem_flatMap, List.mem_singleton, exists_eq_left]

theorem validateItem_of_validateItems {seen : List String} {output : List Output}
    (h : validateItems seen output = .ok ()) :
    ∀ item ∈ output, ∃ before after, validateItem before item = .ok after := by
  induction output generalizing seen with
  | nil => simp
  | cons item rest ih =>
    obtain ⟨seen', hitem, hrest⟩ := Result.bind_ok h
    exact List.forall_mem_cons.mpr ⟨⟨seen, seen', hitem⟩, ih hrest⟩

theorem visible_of_validateItem {before after : List String} {item : Output}
    (h : validateItem before item = .ok after) :
    ∀ content ∈ visibleContent [item], content.validate = .ok () := by
  intro content hcontent
  simp only [visibleContent, List.flatMap_singleton] at hcontent
  cases item with
  | content shown =>
    obtain rfl := List.mem_singleton.mp hcontent
    obtain ⟨_, hshown, -⟩ := Result.bind_ok h
    exact hshown
  | providerToolCall call =>
    have hcall : content ∈ call.output := by
      dsimp only at hcontent
      split at hcontent
      · exact hcontent
      · exact hcontent
      · exact hcontent
      · cases hcontent
    simp only [validateItem] at h
    split at h
    · cases h
    · split at h
      · cases h
      · obtain ⟨_, houtput, -⟩ := Result.bind_ok h
        exact validateAll_ok houtput content hcall
  | _ => cases hcontent

end Zhir.Core
