import Zhir.Core.Message
import Zhir.Core.Operation

/-!
The message history of a run and the index that pairs calls with results.
-/

set_option autoImplicit false
set_option relaxedAutoImplicit false

namespace Zhir.Core

/-- Identities of history entries. Each constructor is one format string of the source;
different formats, and different arguments of one format, give different texts. -/
inductive EntryId
  /-- `input:{index}`, a message the run started with. -/
  | input (index : Nat)
  /-- A generated identity of an inserted message. -/
  | inserted (id : String)
  /-- The JSON array of the session, `conversation` and the item. -/
  | conversation (sessionId itemId : String)
  /-- The JSON array of the session, the generation, the caller and the item. -/
  | output (sessionId : String) (generationId : Option String) (callerId itemId : String)
  /-- `operation:{id}:result`. -/
  | result (operation : OperationId)
  /-- `{session}:{generation}:finished`. -/
  | finished (sessionId generationId : String)
  /-- Any other text, chosen by the host. -/
  | given (text : String)
  deriving DecidableEq, Repr

structure HistoryEntry where
  id : EntryId
  origin : Option CallRef
  message : Message
  deriving DecidableEq, Repr

def HistoryEntry.validate (entry : HistoryEntry) : Result Unit :=
  if entry.id = .given "" then .error (.invalid "empty history identity")
  else entry.message.validate

/-- Causal index of a history. The first violation is kept and stops indexing. -/
structure Order where
  ids : List (EntryId × Nat) := []
  calls : List (CallRef × RuntimeToolCall) := []
  completed : List CallRef := []
  delegations : List CallRef := []
  error : Option String := none
  deriving DecidableEq, Repr

namespace Order

def pendingCall (o : Order) (origin : CallRef) : Option RuntimeToolCall :=
  (o.calls.find? (fun c => c.1 = origin)).map Prod.snd

def taken (o : Order) (origin : CallRef) : Bool :=
  decide (origin ∈ o.calls.map Prod.fst) || decide (origin ∈ o.delegations) ||
    decide (origin ∈ o.completed)

def updateItem (o : Order) (origin : Option CallRef) : Output → Except String Order
  | .delegation request =>
    match origin with
    | none => .error "delegation requires an origin"
    | some origin =>
      let origin := { origin with callId := request.id }
      if o.taken origin then .error "duplicate operation identity"
      else .ok { o with delegations := origin :: o.delegations }
  | .runtimeToolCall call =>
    match origin with
    | none => .error "tool request requires an origin"
    | some origin =>
      let origin := { origin with callId := call.id }
      if o.taken origin then .error "duplicate tool call identity"
      else .ok { o with calls := (origin, call) :: o.calls }
  | _ => .ok o

/-- Index the items of an entry in order. Items before a violation stay indexed. -/
def updateOutput (origin : Option CallRef) : Order → List Output → Order
  | o, [] => o
  | o, item :: rest =>
    match o.updateItem origin item with
    | .ok o => updateOutput origin o rest
    | .error violation => { o with error := some violation }

def completeDelegation (o : Order) (origin : CallRef) : Order :=
  { o with
    delegations := o.delegations.filter (fun d => d ≠ origin)
    completed := origin :: o.completed }

def completeCall (o : Order) (origin : CallRef) : Order :=
  { o with
    calls := o.calls.filter (fun c => c.1 ≠ origin)
    completed := origin :: o.completed }

/-- `Order::update`; the violation, if any, is left in `error`. -/
def update (o : Order) (entry : HistoryEntry) (index : Nat) : Order :=
  if entry.id ∈ o.ids.map Prod.fst then { o with error := some "duplicate history identity" }
  else
    let o := { o with ids := (entry.id, index) :: o.ids }
    let reject (violation : String) := { o with error := some violation }
    match entry.message with
    | .assistant output _ => updateOutput entry.origin o output
    | .delegationResult id _ =>
      match entry.origin with
      | none => reject "delegation result requires an origin"
      | some origin =>
        if origin.callId ≠ id ∨ origin ∉ o.delegations then
          reject "delegation result has no matching pending request"
        else o.completeDelegation origin
    | .runtimeTool callId name _ =>
      match entry.origin with
      | none => reject "tool result requires an origin"
      | some origin =>
        match o.pendingCall origin with
        | none => reject "tool result has no pending call"
        | some call =>
          if call.id ≠ callId ∨ call.name ≠ name then reject "tool result identity mismatch"
          else o.completeCall origin
    | _ => o

def append (o : Order) (entry : HistoryEntry) (index : Nat) : Order :=
  if o.error.isNone then o.update entry index else o

def index (entries : List HistoryEntry) : Order :=
  entries.zipIdx.foldl (fun o e => o.append e.1 e.2) {}

theorem index_append_single (entries : List HistoryEntry) (entry : HistoryEntry) :
    index (entries ++ [entry]) = (index entries).append entry entries.length := by
  simp [index, List.zipIdx_append]

end Order

structure History where
  entries : List HistoryEntry := []
  order : Order := {}
  indexed : order = Order.index entries := by rfl
  deriving DecidableEq, Repr

namespace History

theorem ext_entries {h h' : History} (hentries : h.entries = h'.entries) : h = h' := by
  obtain ⟨entries, order, rfl⟩ := h
  obtain ⟨entries', order', rfl⟩ := h'
  cases hentries
  rfl

def empty : History where
  entries := []
  order := {}
  indexed := rfl

def len (h : History) : Nat := h.entries.length

def isEmpty (h : History) : Bool := h.entries.isEmpty

def get (h : History) (index : Nat) : Option HistoryEntry := h.entries[index]?

def push (h : History) (entry : HistoryEntry) : History where
  entries := h.entries ++ [entry]
  order := h.order.append entry h.len
  indexed := by rw [Order.index_append_single, h.indexed, len]

/-- Append entries one by one, each checked on its own. A violated pairing does not
fail the append: it is remembered and reported by `validate`. -/
def append (h : History) : List HistoryEntry → Result History
  | [] => .ok h
  | entry :: rest => do
    entry.validate
    append (h.push entry) rest

def fromEntries (entries : List HistoryEntry) : Result History := append {} entries

def ofMessages (messages : List Message) : Result History :=
  fromEntries (messages.mapIdx fun index message => ⟨.input index, none, message⟩)

def validate (h : History) : Result Unit :=
  if h.isEmpty then .error (.invalid "empty history")
  else match h.order.error with
    | some violation => .error (.invalid violation)
    | none => .ok ()

def pendingDelegations (h : History) : List CallRef := h.order.delegations

def pendingCalls (h : History) : List (CallRef × RuntimeToolCall) := h.order.calls

def byId (h : History) (id : EntryId) : Option HistoryEntry :=
  (h.order.ids.lookup id).bind h.get

/-- The entries after the prefix `previous`, compared by content where the source
compares incremental digests. -/
def appendedSince (h previous : History) : Result (List HistoryEntry) :=
  if previous.entries <+: h.entries then .ok (h.entries.drop previous.len)
  else .error (.invalid "history prefix changed without rewrite")

end History

theorem append_single {h h' : History} {entry : HistoryEntry}
    (happend : h.append [entry] = .ok h') :
    h' = h.push entry ∧ entry.validate = .ok () := by
  simp only [History.append] at happend
  obtain ⟨⟨⟩, hvalid, happend⟩ := Result.bind_ok happend
  cases happend
  exact ⟨rfl, hvalid⟩

private theorem push_entries (h : History) (entry : HistoryEntry) :
    (h.push entry).entries = h.entries ++ [entry] := rfl

theorem push_len (h : History) (entry : HistoryEntry) : (h.push entry).len = h.len + 1 := by
  simp [History.len, push_entries]

theorem append_entries {entries : List HistoryEntry} :
    ∀ {h h' : History}, h.append entries = .ok h' →
      h'.entries = h.entries ++ entries ∧ ∀ entry ∈ entries, entry.validate = .ok () := by
  induction entries with
  | nil =>
    intro h h' happend
    cases happend
    simp
  | cons entry rest ih =>
    intro h h' happend
    simp only [History.append] at happend
    obtain ⟨⟨⟩, hvalid, happend⟩ := Result.bind_ok happend
    obtain ⟨hentries, hrest⟩ := ih happend
    refine ⟨by rw [hentries, push_entries, List.append_assoc]; rfl, ?_⟩
    exact List.forall_mem_cons.mpr ⟨hvalid, hrest⟩

theorem fromEntries_entries {entries : List HistoryEntry} {h : History}
    (hfrom : History.fromEntries entries = .ok h) :
    h.entries = entries ∧ ∀ entry ∈ entries, entry.validate = .ok () := by
  obtain ⟨hentries, hvalid⟩ := append_entries hfrom
  exact ⟨by rw [hentries]; rfl, hvalid⟩

end Zhir.Core
