import Zhir.Core.Turns
import Zhir.Kernel.Commits
import Zhir.Library.Entries
import Zhir.Models.Chat
import Zhir.Models.Messages
import Zhir.Models.Unrecorded

/-!
Calls and their results in encoded conversations.
-/

set_option autoImplicit false
set_option relaxedAutoImplicit false

namespace Zhir.Models

open Zhir.Core
open Zhir.Library.Answers (join)

namespace Chat

def toolId (v : Value) : Option String :=
  if (v.field "role").bind asString = some "tool" then (v.field "tool_call_id").bind asString
  else none

def callIdIn (call : Value) : Option String := (call.field "id").bind asString

def callsIn (v : Value) : List String :=
  (((v.field "tool_calls").bind asArray).getD []).filterMap callIdIn

section

variable {σ : Type} (json : JsonText) (extension : Option (ProtocolExtension σ))

/-- A message that is no result, what it is encoded as, and the tool messages behind that. -/
structure Block (head : Message) (encoded tools : List Value) : Prop where
  other : head.resultId = none
  encodes : ∃ s s', encodeMessage json extension head s = .ok (encoded, s')
  calls : ∀ output data, head = .assistant output data → recordedItems .chat data = none →
    ∃ history message, encoded = history ++ [message] ∧ callsIn message = head.callIds
  answered : (tools.map toolId).Perm (head.callIds.map some)

/-- The messages that are no results, in order, each with one tool message for each of its calls
right behind it. -/
def Adjacent (messages : List Message) (values : List Value) : Prop :=
  ∃ blocks : List (Message × List Value × List Value),
    blocks.map Prod.fst = messages.filter (fun m => m.resultId = none) ∧
    values = blocks.flatMap (fun b => b.2.1 ++ b.2.2) ∧
    ∀ b ∈ blocks, Block json extension b.1 b.2.1 b.2.2

end

end Chat

namespace Messages

def resultBlock (v : Value) : Option String :=
  if (v.field "type").bind asString = some "tool_result" then
    (v.field "tool_use_id").bind asString
  else none

def toolUses (output : List Output) : List Value :=
  output.filterMap fun
    | .runtimeToolCall ⟨id, name, .structured input⟩ =>
      some (toolUse ⟨id, name, .structured input⟩ input)
    | _ => none

def message (role : String) (content : List Value) : Value :=
  .object [("content", .array content), ("role", .string role)]

section

variable {σ : Type} (extension : Option (ProtocolExtension σ))

/-- A message that is no result, what it adds to the messages, and what its results add. -/
structure Block (head : Message) (encoded results : List Value) : Prop where
  other : head.resultId = none
  encodes : ∃ r r' s s', addMessage extension r head s = .ok (r', s') ∧
    r'.messages = (flushResults r).messages ++ encoded
  calls : ∀ output data, head = .assistant output data → recordedItems .messages data = none →
    ∃ content, encoded = [message "assistant" content] ∧ (toolUses output).Sublist content
  answered : if head.callIds = [] then results = []
    else ∃ content, results = [message "user" content] ∧
      (content.map resultBlock).Perm (head.callIds.map some)

/-- The messages that are no results, in order, each that has calls with one user message of
their results right behind it. -/
def Adjacent (messages : List Message) (values : List Value) : Prop :=
  ∃ blocks : List (Message × List Value × List Value),
    blocks.map Prod.fst = messages.filter (fun m => m.resultId = none) ∧
    values = blocks.flatMap (fun b => b.2.1 ++ b.2.2) ∧
    ∀ b ∈ blocks, Block extension b.1 b.2.1 b.2.2

end

end Messages

namespace Chat

variable {σ : Type} {json : JsonText} {extension : Option (ProtocolExtension σ)}

private theorem addOutput_calls {turn turn' : Turn} {output : Output} {s s' : σ}
    (h : addOutput json extension turn output s = .ok (turn', s')) :
    turn'.calls = turn.calls ∧ output.callId = none ∨
      ∃ call, output = .runtimeToolCall call ∧
        turn'.calls = turn.calls ++ [callValue json call] := by
  cases output with
  | delegation request => cases h
  | content value =>
    obtain ⟨_, -, h⟩ := Result.bind_ok h
    cases h
    exact .inl ⟨rfl, rfl⟩
  | runtimeToolCall call =>
    cases h
    exact .inr ⟨call, rfl, rfl⟩
  | providerToolCall call =>
    obtain ⟨_, -, h⟩ := Result.bind_ok h
    cases h
    exact .inl ⟨rfl, rfl⟩

private theorem callIdIn_callValue (call : RuntimeToolCall) :
    callIdIn (callValue json call) = some call.id := by
  simp [callIdIn, callValue, Value.field, List.lookup_cons, asString]

private theorem addOutputs_calls {turn turn' : Turn} {output : List Output} {s s' : σ}
    (h : addOutputs json extension turn output s = .ok (turn', s')) :
    turn'.calls.filterMap callIdIn = turn.calls.filterMap callIdIn ++
      output.filterMap Output.callId := by
  induction output generalizing turn s with
  | nil =>
    cases h
    rw [List.filterMap_nil, List.append_nil]
  | cons item rest ih =>
    obtain ⟨⟨next, s₁⟩, hitem, h⟩ := Result.bind_ok h
    rw [ih h]
    rcases addOutput_calls hitem with ⟨hcalls, hnone⟩ | ⟨call, rfl, hcalls⟩
    · rw [hcalls, List.filterMap_cons_none hnone]
    · have hsome : Output.callId (.runtimeToolCall call) = some call.id := rfl
      rw [hcalls, List.filterMap_append, List.filterMap_cons_some hsome, List.append_assoc,
        List.filterMap_cons_some (callIdIn_callValue call)]
      rfl

private theorem callsIn_message (turn : Turn) :
    callsIn turn.message = turn.calls.filterMap callIdIn := by
  unfold callsIn Turn.message
  dsimp only
  split
  · rename_i hnil
    rw [hnil]
    rfl
  · have hslot : (Value.object (Value.insertField [("content", .array turn.contents),
        ("role", .string "assistant")] "tool_calls" (.array turn.calls))).field "tool_calls" =
          some (.array turn.calls) :=
      Zhir.Library.lookup_insertKey_self String.lt_irrefl _ "tool_calls" _
    rw [hslot]
    rfl

private theorem assistant_calls {output : List Output} {values : List Value} {s s' : σ}
    (h : assistant json extension output s = .ok (values, s')) :
    ∃ history message, values = history ++ [message] ∧
      callsIn message = output.filterMap Output.callId := by
  obtain ⟨⟨turn, s₁⟩, hturn, h⟩ := Result.bind_ok h
  cases h
  refine ⟨turn.values, turn.message, rfl, ?_⟩
  rw [callsIn_message, addOutputs_calls hturn]
  rfl

private theorem encodeMessage_calls {head : Message} {values : List Value} {s s' : σ}
    (h : encodeMessage json extension head s = .ok (values, s')) :
    ∀ output data, head = .assistant output data → recordedItems .chat data = none →
      ∃ history message, values = history ++ [message] ∧ callsIn message = head.callIds := by
  rintro output data rfl hnone
  obtain ⟨⟨recorded, s₁⟩, hrecorded, h⟩ := Result.bind_ok h
  unfold assistantReplay at hrecorded
  rw [hnone] at hrecorded
  cases hrecorded
  exact assistant_calls h

private theorem encodeMessage_result {m : Message} {id : String} (hresult : m.resultId = some id)
    {values : List Value} {s s' : σ} (h : encodeMessage json extension m s = .ok (values, s')) :
    values.map toolId = [some id] := by
  obtain ⟨name, outcome, rfl⟩ := resultId_some hresult
  obtain ⟨value, -, h⟩ := Result.bind_ok h
  cases h
  simp [toolId, Value.field, List.lookup_cons, asString]

private theorem encode_append {first rest : List Message} {values : List Value} {s s' : σ}
    (h : encode json extension (first ++ rest) s = .ok (values, s')) :
    ∃ front others s₁, encode json extension first s = .ok (front, s₁) ∧
      encode json extension rest s₁ = .ok (others, s') ∧ values = front ++ others := by
  induction first generalizing s values with
  | nil => exact ⟨[], values, s, rfl, h, rfl⟩
  | cons message first ih =>
    obtain ⟨⟨one, s₁⟩, hone, h⟩ := Result.bind_ok h
    obtain ⟨⟨more, s₂⟩, hmore, h⟩ := Result.bind_ok h
    cases h
    obtain ⟨front, others, s₃, hfront, hothers, rfl⟩ := ih hmore
    refine ⟨one ++ front, others, s₃, ?_, hothers, (List.append_assoc _ _ _).symm⟩
    exact Result.bind_of_ok hone (Result.bind_of_ok hfront rfl)

private theorem encode_results {results : List Message}
    (hall : ∀ m ∈ results, ∃ id, m.resultId = some id)
    {values : List Value} {s s' : σ} (h : encode json extension results s = .ok (values, s')) :
    values.map toolId = results.map Message.resultId := by
  induction results generalizing s values with
  | nil =>
    cases h
    rfl
  | cons m rest ih =>
    obtain ⟨⟨id, hid⟩, hrest⟩ := List.forall_mem_cons.mp hall
    obtain ⟨⟨one, s₁⟩, hone, h⟩ := Result.bind_ok h
    obtain ⟨⟨others, s₂⟩, hothers, h⟩ := Result.bind_ok h
    cases h
    rw [List.map_append, encodeMessage_result hid hone, ih hrest hothers, List.map_cons, hid]
    rfl

private theorem encode_adjacent {turns : List (Message × List Message)}
    (hturns : ∀ turn ∈ turns, Answered turn) {values : List Value} {s s' : σ}
    (h : encode json extension (join turns) s = .ok (values, s')) :
    Adjacent json extension (join turns) values := by
  induction turns generalizing s values with
  | nil =>
    cases h
    exact ⟨[], rfl, rfl, by simp⟩
  | cons turn rest ih =>
    obtain ⟨hturn, hrest⟩ := List.forall_mem_cons.mp hturns
    have hjoin : join (turn :: rest) = turn.1 :: (turn.2 ++ join rest) := rfl
    rw [hjoin] at h ⊢
    obtain ⟨⟨encoded, s₁⟩, hhead, h⟩ := Result.bind_ok h
    obtain ⟨⟨more, s₂⟩, hmore, h⟩ := Result.bind_ok h
    cases h
    obtain ⟨tools, others, s₃, htools, hothers, rfl⟩ := encode_append hmore
    obtain ⟨blocks, hheads, rfl, hblocks⟩ := ih hrest hothers
    refine ⟨(turn.1, encoded, tools) :: blocks, ?_, by simp, ?_⟩
    · rw [filter_heads hturn, List.map_cons, hheads]
    · refine List.forall_mem_cons.mpr ⟨⟨hturn.head, ⟨s, s₁, hhead⟩, encodeMessage_calls hhead, ?_⟩,
        hblocks⟩
      rw [encode_results hturn.all_results htools]
      exact hturn.results

end Chat

namespace Messages

variable {σ : Type} {extension : Option (ProtocolExtension σ)}

private theorem outputBlocks_toolUses {output : Output} {values : List Value} {s s' : σ}
    (h : outputBlocks extension output s = .ok (values, s')) :
    (toolUses [output]).Sublist values := by
  cases output with
  | delegation request => cases h
  | content value => exact List.nil_sublist _
  | runtimeToolCall call =>
    obtain ⟨id, name, input⟩ := call
    cases input with
    | structured input =>
      cases h
      exact .refl _
    | freeform input => cases h
  | providerToolCall call => exact List.nil_sublist _

private theorem assistant_toolUses {output : List Output} {values : List Value} {s s' : σ}
    (h : assistant extension output s = .ok (values, s')) : (toolUses output).Sublist values := by
  induction output generalizing s values with
  | nil => exact List.nil_sublist _
  | cons item rest ih =>
    obtain ⟨⟨one, s₁⟩, hone, h⟩ := Result.bind_ok h
    obtain ⟨⟨others, s₂⟩, hothers, h⟩ := Result.bind_ok h
    cases h
    have hsplit : toolUses (item :: rest) = toolUses [item] ++ toolUses rest := by
      unfold toolUses
      rw [← List.filterMap_append]
      rfl
    rw [hsplit]
    exact (outputBlocks_toolUses hone).append (ih hothers)

private theorem addMessage_head {m : Message} (hm : m.resultId = none) {r r' : Request} {s s' : σ}
    (h : addMessage extension r m s = .ok (r', s')) :
    ∃ encoded, r'.messages = (flushResults r).messages ++ encoded ∧ r'.results = [] ∧
      ∀ output data, m = .assistant output data → recordedItems .messages data = none →
        ∃ content, encoded = [message "assistant" content] ∧ (toolUses output).Sublist content := by
  have hflushed : (flushResults r).results = [] := by
    unfold flushResults
    split
    · assumption
    · rfl
  cases m with
  | delegationResult id outcome => cases h
  | system content =>
    obtain ⟨values, -, h⟩ := Result.bind_ok h
    cases h
    exact ⟨[], (List.append_nil _).symm, hflushed, fun _ _ hsame => by cases hsame⟩
  | user content =>
    obtain ⟨values, -, h⟩ := Result.bind_ok h
    cases h
    exact ⟨_, rfl, hflushed, fun _ _ hsame => by cases hsame⟩
  | external content =>
    obtain ⟨values, -, h⟩ := Result.bind_ok h
    cases h
    exact ⟨_, rfl, hflushed, fun _ _ hsame => by cases hsame⟩
  | runtimeTool callId name outcome => cases hm
  | assistant output data =>
    obtain ⟨⟨values, s₁⟩, hturn, h⟩ := Result.bind_ok h
    cases h
    refine ⟨_, rfl, hflushed, ?_⟩
    intro output' data' hsame hnone
    cases hsame
    obtain ⟨⟨recorded, s₂⟩, hrecorded, hturn⟩ := Result.bind_ok hturn
    unfold assistantReplay at hrecorded
    rw [hnone] at hrecorded
    cases hrecorded
    exact ⟨values, rfl, assistant_toolUses hturn⟩

private theorem addMessage_result {m : Message} {id : String} (hresult : m.resultId = some id)
    {r r' : Request} {s s' : σ} (h : addMessage extension r m s = .ok (r', s')) :
    r'.messages = r.messages ∧ ∃ value, r'.results = r.results ++ [value] ∧
      resultBlock value = some id := by
  obtain ⟨name, outcome, rfl⟩ := resultId_some hresult
  obtain ⟨values, -, h⟩ := Result.bind_ok h
  cases h
  refine ⟨rfl, _, rfl, ?_⟩
  simp [resultBlock, Value.field, List.lookup_cons, asString]

private theorem addMessages_results {results : List Message}
    (hall : ∀ m ∈ results, ∃ id, m.resultId = some id) {r r' : Request} {s s' : σ}
    (h : addMessages extension r results s = .ok (r', s')) :
    r'.messages = r.messages ∧ ∃ values, r'.results = r.results ++ values ∧
      values.map resultBlock = results.map Message.resultId := by
  induction results generalizing r s with
  | nil =>
    cases h
    exact ⟨rfl, [], (List.append_nil _).symm, rfl⟩
  | cons m rest ih =>
    obtain ⟨⟨id, hid⟩, hrest⟩ := List.forall_mem_cons.mp hall
    obtain ⟨⟨next, s₁⟩, hone, h⟩ := Result.bind_ok h
    obtain ⟨hmessages, value, hvalue, hblock⟩ := addMessage_result hid hone
    obtain ⟨hmessages', values, hvalues, hblocks⟩ := ih hrest h
    refine ⟨hmessages'.trans hmessages, value :: values, ?_, ?_⟩
    · rw [hvalues, hvalue, List.append_assoc]
      rfl
    · rw [List.map_cons, List.map_cons, hblock, hblocks, hid]

private theorem addMessages_append {first rest : List Message} {r r' : Request} {s s' : σ}
    (h : addMessages extension r (first ++ rest) s = .ok (r', s')) :
    ∃ r₁ s₁, addMessages extension r first s = .ok (r₁, s₁) ∧
      addMessages extension r₁ rest s₁ = .ok (r', s') := by
  induction first generalizing r s with
  | nil => exact ⟨r, s, rfl, h⟩
  | cons message first ih =>
    obtain ⟨⟨next, s₁⟩, hone, h⟩ := Result.bind_ok h
    obtain ⟨r₁, s₂, hfirst, hrest⟩ := ih h
    exact ⟨r₁, s₂, Result.bind_of_ok hone hfirst, hrest⟩

private theorem flushResults_messages (r : Request) : (flushResults r).messages = r.messages ++
    if r.results = [] then [] else [message "user" r.results] := by
  unfold flushResults
  split
  · rw [List.append_nil]
  · rfl

/-- The induction carries what flushing the request would give. -/
private theorem addMessages_adjacent {turns : List (Message × List Message)}
    (hturns : ∀ turn ∈ turns, Answered turn) {r r' : Request} {s s' : σ}
    (h : addMessages extension r (join turns) s = .ok (r', s')) :
    ∃ values, (flushResults r').messages = (flushResults r).messages ++ values ∧
      Adjacent extension (join turns) values := by
  induction turns generalizing r s with
  | nil =>
    cases h
    exact ⟨[], (List.append_nil _).symm, [], rfl, rfl, by simp⟩
  | cons turn rest ih =>
    obtain ⟨hturn, hrest⟩ := List.forall_mem_cons.mp hturns
    have hjoin : join (turn :: rest) = turn.1 :: (turn.2 ++ join rest) := rfl
    rw [hjoin] at h ⊢
    obtain ⟨⟨r₁, s₁⟩, hhead, h⟩ := Result.bind_ok h
    obtain ⟨r₂, s₂, hresults, hothers⟩ := addMessages_append h
    obtain ⟨encoded, hencoded, hempty, hcalls⟩ := addMessage_head hturn.head hhead
    obtain ⟨hmessages, results, hwaiting, hblocks⟩ :=
      addMessages_results hturn.all_results hresults
    obtain ⟨others, hflushed, blocks, hheads, rfl, hall⟩ := ih hrest hothers
    rw [hempty, List.nil_append] at hwaiting
    have hperm : (results.map resultBlock).Perm (turn.1.callIds.map some) := by
      rw [hblocks]
      exact hturn.results
    have hnil : results = [] ↔ turn.1.callIds = [] := by
      have hlength := hperm.length_eq
      rw [List.length_map, List.length_map] at hlength
      rw [← List.length_eq_zero_iff, ← List.length_eq_zero_iff, hlength]
    let answers := if results = [] then [] else [message "user" results]
    refine ⟨encoded ++ answers ++ blocks.flatMap (fun b => b.2.1 ++ b.2.2), ?_,
      (turn.1, encoded, answers) :: blocks, ?_, rfl, ?_⟩
    · rw [hflushed, flushResults_messages r₂, hmessages, hencoded, hwaiting]
      simp only [List.append_assoc, answers]
    · rw [filter_heads hturn, List.map_cons, hheads]
    · refine List.forall_mem_cons.mpr
        ⟨⟨hturn.head, ⟨r, r₁, s, s₁, hhead, hencoded⟩, hcalls, ?_⟩, hall⟩
      split
      · rename_i hcallIds
        exact if_pos (hnil.mpr hcallIds)
      · rename_i hcallIds
        exact ⟨results, if_neg fun hresults => hcallIds (hnil.mp hresults), hperm⟩

private theorem encode_adjacent {turns : List (Message × List Message)}
    (hturns : ∀ turn ∈ turns, Answered turn) {r : Request} {s s' : σ}
    (h : encode extension (join turns) s = .ok (r, s')) :
    Adjacent extension (join turns) r.messages := by
  obtain ⟨⟨r', s₁⟩, hadd, h⟩ := Result.bind_ok h
  cases h
  obtain ⟨values, hvalues, hadjacent⟩ := addMessages_adjacent hturns hadd
  rw [hvalues]
  exact hadjacent

end Messages

open Zhir.Kernel

/-- In every history of a run without open calls, where nothing else arrived between a response
and the results of its calls, encoded calls and results are adjacent. -/
theorem transcripts_adjacent {cfg : Config} {sys : System} (hsys : Reachable cfg sys)
    {c : Checkpoint} (hc : c ∈ sys.world.durable) (hopen : openCalls c.history.entries = [])
    (hsteady : Steady c.history.entries) {σ : Type} (json : JsonText)
    (extension : Option (ProtocolExtension σ)) (s s' : σ) :
    (∀ values, Chat.encode json extension (conversation c.history.entries) s = .ok (values, s') →
      Chat.Adjacent json extension (conversation c.history.entries) values) ∧
    ∀ r, Messages.encode extension (conversation c.history.entries) s = .ok (r, s') →
      Messages.Adjacent extension (conversation c.history.entries) r.messages := by
  have hvalid := (validated_inductive cfg).reachable hsys (fun _ _ => trivial) c hc
  have hpaired : Paired c.history.entries := by
    have hordered := (Checkpoint.valid_of_validate hvalid).ordered
    rw [c.history.indexed] at hordered
    exact (Order.index_tracks _).1.mp hordered
  obtain ⟨turns, hturns, hall⟩ := conversation_answered hpaired hopen hsteady
  rw [hturns]
  exact ⟨fun values h => Chat.encode_adjacent hall h, fun r h => Messages.encode_adjacent hall h⟩

/-- A run whose two calls of one response are answered, after a crash between. -/
def sampleAnsweredHead : Checkpoint := (sampleRun sampleRecovered).head (by decide +kernel)

def sampleResponseKey : ResponseKey :=
  (sampleAnsweredHead.history.entries.findSome? HistoryEntry.response?).get (by decide +kernel)

/-- What evaluating this run once shows. -/
private theorem sampleAnswered_entries :
    openCalls sampleAnsweredHead.history.entries = [] ∧
    (∀ x ∈ sampleAnsweredHead.history.entries, ∀ key ∈ x.response?, key = sampleResponseKey) ∧
    (∀ y ∈ sampleAnsweredHead.history.entries.tail,
      y.response? = some sampleResponseKey ∨ y.answers = some sampleResponseKey) ∧
    (Chat.encode Responses.sampleJson (none : Option (ProtocolExtension Unit))
      (conversation sampleAnsweredHead.history.entries) ()).toOption.any (fun _ => true) = true ∧
    (Messages.encode (none : Option (ProtocolExtension Unit))
      (conversation sampleAnsweredHead.history.entries) ()).toOption.any (fun _ => true) =
        true := by
  decide +kernel

private theorem sampleAnswered_steady : Steady sampleAnsweredHead.history.entries := by
  obtain ⟨-, hkeys, hbelong, -⟩ := sampleAnswered_entries
  generalize sampleAnsweredHead.history.entries = entries at *
  generalize sampleResponseKey = answered at *
  rintro before x between z after key rfl hx - earlier y later rfl
  have hkey := hkeys x (by simp) key hx
  subst hkey
  have hy : y ∈ (before ++ x :: (earlier ++ y :: later ++ z :: after)).tail := by
    cases before <;> simp
  rcases hbelong y hy with hsame | hanswers
  · exact .inr fun hleads => hleads _ hsame x (by simp) hx
  · exact .inl hanswers

theorem transcripts_adjacent_answered :
    (∃ values, Chat.encode Responses.sampleJson (none : Option (ProtocolExtension Unit))
        (conversation sampleAnsweredHead.history.entries) () = .ok (values, ()) ∧
      Chat.Adjacent Responses.sampleJson (none : Option (ProtocolExtension Unit))
        (conversation sampleAnsweredHead.history.entries) values) ∧
    ∃ r, Messages.encode (none : Option (ProtocolExtension Unit))
        (conversation sampleAnsweredHead.history.entries) () = .ok (r, ()) ∧
      Messages.Adjacent (none : Option (ProtocolExtension Unit))
        (conversation sampleAnsweredHead.history.entries) r.messages := by
  have hdurable : sampleAnsweredHead ∈ (sampleRun sampleRecovered).world.durable :=
    (sampleRun sampleRecovered).head_mem _
  obtain ⟨hopen, -, -, hchats, hrequests⟩ := sampleAnswered_entries
  obtain ⟨hchat, hmessages⟩ := transcripts_adjacent ⟨_, rfl⟩ hdurable hopen
    sampleAnswered_steady Responses.sampleJson (none : Option (ProtocolExtension Unit)) () ()
  obtain ⟨⟨values, ⟨⟩⟩, hvalues, -⟩ := Result.exists_ok hchats
  obtain ⟨⟨r, ⟨⟩⟩, hr, -⟩ := Result.exists_ok hrequests
  exact ⟨⟨values, hvalues, hchat values hvalues⟩, r, hr, hmessages r hr⟩

def sampleInterleaved : System :=
  sampleRun (sampleOpening (sampleOptions sampleLimits) ++ sampleStarted "look" ++
    [.control (.input (.external [.text "more"]) "host"), .pass,
      .task 2 (.returned (.ok (.finished (.success [.text "seen"] .null)))), .work, .pass])

def sampleInterleavedHead : Checkpoint := sampleInterleaved.head (by decide +kernel)

theorem input_separates_result :
    sampleInterleavedHead ∈ sampleInterleaved.world.durable ∧
    openCalls sampleInterleavedHead.history.entries = [] ∧
    ∃ values, Chat.encode Responses.sampleJson (none : Option (ProtocolExtension Unit))
        (conversation sampleInterleavedHead.history.entries) () = .ok (values, ()) ∧
      ¬ ∀ i v, values[i]? = some v → Chat.callsIn v ≠ [] →
        ∃ w, values[i + 1]? = some w ∧ (Chat.toolId w).isSome = true := by
  refine ⟨sampleInterleaved.head_mem (by decide +kernel), by decide +kernel, ?_⟩
  have hrun : ((Chat.encode Responses.sampleJson (none : Option (ProtocolExtension Unit))
      (conversation sampleInterleavedHead.history.entries) ()).toOption.any fun r =>
        r.1.map (fun v => (Chat.callsIn v, Chat.toolId v)) =
          [([], none), (["call"], none), ([], none), ([], some "call")]) = true := by
    decide +kernel
  obtain ⟨⟨values, u⟩, hvalues, hshape⟩ := Result.exists_ok hrun
  refine ⟨values, hvalues, fun h => ?_⟩
  have hshape : values.map (fun v => (Chat.callsIn v, Chat.toolId v)) =
      [([], none), (["call"], none), ([], none), ([], some "call")] := of_decide_eq_true hshape
  match values, hshape with
  | [_, turn, input, _], hshape =>
    simp only [List.map_cons, List.cons.injEq, Prod.mk.injEq] at hshape
    obtain ⟨-, ⟨hcalls, -⟩, ⟨-, hinput⟩, -⟩ := hshape
    obtain ⟨w, hw, htool⟩ := h 1 turn rfl (by rw [hcalls]; exact List.cons_ne_nil _ _)
    cases hw
    rw [hinput] at htool
    cases htool

end Zhir.Models
