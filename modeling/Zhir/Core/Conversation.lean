import Zhir.Core.History

/-!
Projection of causal history onto model messages.
-/

set_option autoImplicit false
set_option relaxedAutoImplicit false

namespace Zhir.Core

/-- Output grouped under one response: its message, and where each provider call stands. -/
structure Response where
  messageIndex : Nat
  providerPositions : List ((String × String) × Nat) := []
  deriving DecidableEq, Repr

/-- Session, generation, and the item for output outside any generation. -/
abbrev ResponseKey := String × Option String × Option String

def CallRef.responseKey (origin : CallRef) : ResponseKey :=
  (origin.sessionId, origin.generationId,
    if origin.generationId.isNone then some origin.itemId else none)

/-- `Response::merge`: a later report of a provider call takes the place of the first. -/
def Response.merge (r : Response) (output : List Output) (item : Output) :
    Response × List Output :=
  match item with
  | .providerToolCall call =>
    match r.providerPositions.lookup (call.provider, call.id) with
    | some position =>
      if position < output.length then (r, output.set position item) else (r, output ++ [item])
    | none =>
      ({ r with
          providerPositions := ((call.provider, call.id), output.length) :: r.providerPositions },
        output ++ [item])
  | _ => (r, output ++ [item])

def Response.mergeAll : Response → List Output → List Output → Response × List Output
  | r, output, [] => (r, output)
  | r, output, item :: rest =>
    let (r, output) := r.merge output item
    r.mergeAll output rest

/-- Messages projected so far and the responses among them. -/
structure Projection where
  messages : List Message := []
  responses : List (ResponseKey × Response) := []
  deriving DecidableEq, Repr

namespace Projection

/-- The response of an origin, opened at the end when it is new. -/
def response (p : Projection) (key : ResponseKey) : Projection × Response :=
  match p.responses.lookup key with
  | some r => (p, r)
  | none =>
    let r : Response := { messageIndex := p.messages.length }
    ({ messages := p.messages ++ [.assistant [] .null], responses := (key, r) :: p.responses }, r)

def setResponse (p : Projection) (key : ResponseKey) (r : Response) : Projection :=
  { p with responses := p.responses.map fun kr => if kr.1 = key then (key, r) else kr }

def push (p : Projection) (entry : HistoryEntry) : Projection :=
  match entry.origin, entry.message with
  | some origin, .assistant output providerData =>
    let (p, r) := p.response origin.responseKey
    match p.messages[r.messageIndex]? with
    | some (.assistant accumulated data) =>
      let (r, accumulated) := r.mergeAll accumulated output
      let data := if providerData.isNull then data else providerData
      { p.setResponse origin.responseKey r with
        messages := p.messages.set r.messageIndex (.assistant accumulated data) }
    | _ => p
  | _, message => { p with messages := p.messages ++ [message] }

end Projection

/-- `conversation`: real responses or independent items, each provider call at its
original position with its latest report. -/
def conversation (entries : List HistoryEntry) : List Message :=
  (entries.foldl Projection.push {}).messages

private theorem mem_merge {r : Response} {output : List Output} {item x : Output}
    (h : x ∈ (r.merge output item).2) : x ∈ output ∨ x = item := by
  unfold Response.merge at h
  split at h
  · split at h
    · split at h
      · exact List.mem_or_eq_of_mem_set h
      · simpa using h
    · simpa using h
  · simpa using h

private theorem mem_mergeAll {r : Response} {output items : List Output} {x : Output}
    (h : x ∈ (r.mergeAll output items).2) : x ∈ output ∨ x ∈ items := by
  induction items generalizing r output with
  | nil => exact .inl h
  | cons item rest ih =>
    rcases ih h with h | h
    · rcases mem_merge h with h | rfl
      · exact .inl h
      · exact .inr List.mem_cons_self
    · exact .inr (List.mem_cons_of_mem item h)

/-- The message of some entry, or a turn put together from the output of entries. -/
def FromEntries (entries : List HistoryEntry) (message : Message) : Prop :=
  (∃ entry ∈ entries, message = entry.message) ∨
    ∃ output data, message = .assistant output data ∧ ∀ item ∈ output,
      ∃ entry ∈ entries, ∃ reported reportedData,
        entry.message = .assistant reported reportedData ∧ item ∈ reported

theorem FromEntries.output {entries : List HistoryEntry} {output : List Output} {data : Value}
    (h : FromEntries entries (.assistant output data)) {item : Output} (hitem : item ∈ output) :
    ∃ entry ∈ entries, ∃ reported reportedData,
      entry.message = .assistant reported reportedData ∧ item ∈ reported := by
  rcases h with ⟨entry, hentry, hmessage⟩ | ⟨output', data', hsame, hitems⟩
  · exact ⟨entry, hentry, output, data, hmessage.symm, hitem⟩
  · cases hsame
    exact hitems item hitem

private theorem Projection.fromEntries_response {entries : List HistoryEntry} {p : Projection}
    (key : ResponseKey) (hp : ∀ message ∈ p.messages, FromEntries entries message) :
    ∀ message ∈ (p.response key).1.messages, FromEntries entries message := by
  unfold Projection.response
  split
  · exact hp
  · intro message hmessage
    rcases List.mem_append.mp hmessage with h | h
    · exact hp message h
    · obtain rfl := List.mem_singleton.mp h
      exact .inr ⟨[], .null, rfl, by simp⟩

private theorem Projection.fromEntries_push {entries : List HistoryEntry} {p : Projection}
    {entry : HistoryEntry} (hentry : entry ∈ entries)
    (hp : ∀ message ∈ p.messages, FromEntries entries message) :
    ∀ message ∈ (p.push entry).messages, FromEntries entries message := by
  unfold Projection.push
  split
  · rename_i origin output providerData horigin hmessage
    have hresponse := Projection.fromEntries_response origin.responseKey hp
    dsimp only
    split
    · rename_i accumulated data hget
      have haccumulated := hresponse _ (List.mem_of_getElem? hget)
      intro message hmem
      rcases List.mem_or_eq_of_mem_set hmem with hold | rfl
      · exact hresponse message hold
      · refine .inr ⟨_, _, rfl, fun item hitem => ?_⟩
        rcases mem_mergeAll hitem with hitem | hitem
        · exact haccumulated.output hitem
        · exact ⟨entry, hentry, output, providerData, hmessage, hitem⟩
    · exact hresponse
  · intro message hmem
    rcases List.mem_append.mp hmem with h | h
    · exact hp message h
    · obtain rfl := List.mem_singleton.mp h
      exact .inl ⟨entry, hentry, rfl⟩

theorem mem_conversation {entries : List HistoryEntry} {message : Message}
    (h : message ∈ conversation entries) : FromEntries entries message := by
  have hfold : ∀ (rest : List HistoryEntry) (p : Projection), (∀ entry ∈ rest, entry ∈ entries) →
      (∀ message ∈ p.messages, FromEntries entries message) →
        ∀ message ∈ (rest.foldl Projection.push p).messages, FromEntries entries message := by
    intro rest
    induction rest with
    | nil => exact fun _ _ hp => hp
    | cons entry rest ih =>
      intro p hrest hp
      obtain ⟨hentry, hothers⟩ := List.forall_mem_cons.mp hrest
      exact ih _ hothers (Projection.fromEntries_push hentry hp)
  exact hfold entries {} (fun _ hentry => hentry) (by simp) message h

end Zhir.Core
