import Mathlib.Data.List.Induction
import Zhir.Kernel.ModelEvents
import Zhir.Kernel.System
import Zhir.Library.Outstanding
import Zhir.OpenAI.Live

/-!
The delegations a Live session has open, against what it has reported and answered.
-/

set_option autoImplicit false
set_option relaxedAutoImplicit false

namespace Zhir.OpenAI

open Zhir.Core
open Zhir.Models (asString)
open Zhir.Library (Outstanding)

def reports (actions : List Action) : List String :=
  actions.filterMap fun
    | .event (.output _ _ _ (.delegation request)) => some request.id
    | _ => none

def resultIn (frame : Value) : Option String :=
  if Value.field "channel" frame = some (.string "speakable") then
    (Value.field "delegation_item_id" frame).bind asString
  else none

def results (actions : List Action) : List String :=
  actions.filterMap fun
    | .send frame => resultIn frame
    | _ => none

def failure (actions : List Action) : Option Error :=
  actions.findSome? fun
    | .fail error => some error
    | _ => none

inductive Arrival
  | frame (now : Nat) (frame : Frame)
  | command (now : Nat) (command : SessionCommand)
  /-- Everything that was on its way when the server closed has been taken. -/
  | drained

def Arrival.delegates : Arrival → Option String
  | .frame _ (.event _ (.delegation item)) => some item.id
  | _ => none

def answered : Message → Option String
  | .delegationResult id _ => some id
  | _ => none

def Arrival.answers : Arrival → Option String
  | .command _ ⟨_, .append entry _ _ .submitted⟩ => answered entry.message
  | _ => none

namespace Live

def reach (arrival : Arrival) (p : Live) : Result (List Action × Live) :=
  match arrival with
  | .frame now frame => p.receive now frame
  | .command now command => p.command now command
  | .drained => p.finalize

/-- The session takes what has arrived; an error of the server ends it. -/
def take (arrival : Arrival) (p : Live) : Result (List Action × Live) := do
  let (actions, p) ← p.reach arrival
  match failure actions with
  | none => return (actions, p)
  | some error => throw error

end Live

/-- A session with everything it has asked its driver for. -/
structure Ledger where
  live : Live
  emitted : List Action

namespace Ledger

def step (arrival : Arrival) (l : Ledger) : Result Ledger := do
  let (actions, live) ← l.live.take arrival
  return ⟨live, l.emitted ++ actions⟩

def run (arrivals : List Arrival) (l : Ledger) : Result Ledger :=
  arrivals.foldlM (fun l arrival => l.step arrival) l

def opening (adapter : Adapter) (maxDelegations : Nat) (request : ModelRequest)
    (contextRevision now : Nat) : Result Ledger := do
  let (actions, live) ←
    (Live.opening adapter maxDelegations request contextRevision).initial now
  return ⟨live, actions⟩

/-- The set of the session is what it has reported and not answered. -/
def Agrees (l : Ledger) : Prop :=
  Outstanding l.live.delegations (reports l.emitted) (results l.emitted)

end Ledger

variable {p p' : Live} {actions : List Action} {now : Nat}

/-- Everything an arrival does to the delegations. -/
structure Live.Booked (arrival : Arrival) (p p' : Live) (actions : List Action) : Prop where
  reports : reports actions = arrival.delegates.toList
  results : ∀ id, id ∈ results actions ↔ arrival.answers = some id
  delegations : p'.delegations = match arrival.delegates, arrival.answers with
    | some id, _ => p.delegations.insert id
    | none, some id => p.delegations.filter (· ≠ id)
    | none, none => p.delegations

private theorem reports_append (xs ys : List Action) : reports
    (xs ++ ys) = reports xs ++ reports ys :=
  List.filterMap_append

private theorem results_append (xs ys : List Action) : results
    (xs ++ ys) = results xs ++ results ys :=
  List.filterMap_append

/-- The session asks for nothing that bears on its delegations. -/
structure Quiet (actions : List Action) : Prop where
  reports : reports actions = []
  results : results actions = []

theorem Live.Booked.quiet {arrival : Arrival} (hdelegates : arrival.delegates = none)
    (hanswers : arrival.answers = none) (hquiet : Quiet actions)
    (hsame : p'.delegations = p.delegations) : Live.Booked arrival p p' actions where
  reports := by rw [hquiet.reports, hdelegates]; rfl
  results id := by simp [hquiet.results, hanswers]
  delegations := by rw [hdelegates, hanswers]; exact hsame

private theorem fragments_ne_nil (text : List Char) : ∀ room current, fragments room current text ≠
    [] := by
  induction text with
  | nil => exact fun _ _ => List.cons_ne_nil _ _
  | cons c rest ih =>
    intro room current
    unfold fragments
    split
    · exact ih _ _
    · exact List.cons_ne_nil _ _

private theorem reports_appendText (kind id channel text : String) (delegation : Option String) :
    reports (appendText kind id channel text delegation) = [] := by
  unfold reports appendText
  rw [List.filterMap_map]
  exact List.filterMap_eq_nil_iff.2 fun _ _ => rfl

private theorem resultIn_contextFrame {kind id channel : String} {delegation : Option String}
    {index : Nat}
    {text : List Char} : resultIn (contextFrame kind id channel delegation index text) =
      if channel = "speakable" then delegation else none := by
  unfold resultIn contextFrame
  cases delegation with
  | none => simp [Value.field, List.lookup_cons]
  | some d => simp [Value.field, List.lookup_cons, asString]

private theorem results_appendText (kind id channel text : String) (delegation : Option String)
    (d : String) :
    d ∈ results (appendText kind id channel text delegation) ↔
      channel = "speakable" ∧ delegation = some d := by
  unfold results appendText contextFrames
  simp only [List.mem_filterMap, List.mem_map, exists_exists_and_eq_and, List.mem_mapIdx]
  constructor
  · rintro ⟨frame, ⟨index, hindex, rfl⟩, hresult⟩
    change resultIn _ = some d at hresult
    rw [resultIn_contextFrame] at hresult
    split at hresult
    · exact ⟨‹_›, hresult⟩
    · cases hresult
  · rintro ⟨hchannel, hdelegation⟩
    have hpos : 0 < (fragments fragmentBytes [] text.toList).length :=
      List.length_pos_of_ne_nil (fragments_ne_nil _ _ _)
    refine ⟨_, ⟨0, hpos, rfl⟩, ?_⟩
    rw [resultIn_contextFrame, if_pos hchannel, hdelegation]

private theorem quiet_appendText {kind id channel text commandId : String}
    {delegation : Option String}
    (h : channel ≠ "speakable") :
    Quiet (appendText kind id channel text delegation ++ [acknowledge commandId]) := by
  constructor
  · rw [reports_append, reports_appendText]
    rfl
  · rw [results_append, List.eq_nil_iff_forall_not_mem.2 fun d hd =>
      h ((results_appendText _ _ _ _ _ d).1 hd).1]
    rfl

private theorem append_booked {commandId : String} {message : Message}
    (h : p.append commandId message = .ok (actions, p')) :
    reports actions = [] ∧ (∀ id, id ∈ results actions ↔ answered message = some id) ∧
      p'.delegations = match answered message with
        | some id => p.delegations.filter (· ≠ id)
        | none => p.delegations := by
  have hinput : ∀ {text : Result String}, answered message = none →
      (if p.inputAllowed = true then do
        let text ← text
        return (appendText "session.context.append" commandId "commentary" text none ++
          [acknowledge commandId], p)
      else Live.unsupported) = .ok (actions, p') →
      reports actions = [] ∧ (∀ id, id ∈ results actions ↔ answered message = some id) ∧
        p'.delegations = match answered message with
          | some id => p.delegations.filter (· ≠ id)
          | none => p.delegations := by
    intro text hnone hrun
    by_cases hallowed : p.inputAllowed = true
    · rw [if_pos hallowed] at hrun
      obtain ⟨text, -, hrun⟩ := Result.bind_ok hrun
      cases hrun
      have hquiet := @quiet_appendText "session.context.append" commandId "commentary" text
        commandId none (by decide)
      refine ⟨hquiet.reports, fun id => ?_, by rw [hnone]⟩
      rw [hquiet.results, hnone]
      simp
    · rw [if_neg hallowed] at hrun
      cases hrun
  cases message with
  | user content => exact hinput rfl h
  | external content => exact hinput rfl h
  | delegationResult id outcome =>
    change (if p.phase = .active then _ else Live.unsupported) = _ at h
    by_cases hactive : p.phase = .active
    · rw [if_pos hactive] at h
      obtain ⟨_, -, h⟩ := Result.bind_ok h
      obtain ⟨text, -, h⟩ := Result.bind_ok h
      cases h
      refine ⟨?_, fun d => ?_, rfl⟩
      · rw [reports_append, reports_appendText]
        rfl
      · rw [results_append, List.mem_append, results_appendText]
        simp [results, acknowledge, answered]
    · rw [if_neg hactive] at h
      cases h
  | system content => cases h
  | assistant output providerData => cases h
  | runtimeTool callId name outcome => cases h

private theorem command_booked {command : SessionCommand}
    (h : p.command now command = .ok (actions, p')) :
    Live.Booked (.command now command) p p' actions := by
  obtain ⟨commandId, body⟩ := command
  obtain ⟨_, -, h⟩ := Result.bind_ok h
  cases body with
  | append entry contextRevision inputPosition source =>
    cases source with
    | accepted =>
      cases h
      exact .quiet rfl rfl ⟨rfl, rfl⟩ rfl
    | submitted =>
      obtain ⟨hreports, hresults, hdelegations⟩ := append_booked h
      refine ⟨hreports, hresults, hdelegations.trans ?_⟩
      change _ = match (none : Option String), answered entry.message with
        | some id, _ => p.delegations.insert id
        | none, some id => p.delegations.filter (· ≠ id)
        | none, none => p.delegations
      cases answered entry.message <;> rfl
  | delegationContext operationId origin content =>
    change (if p.phase = .active then _ else Live.unsupported) = _ at h
    by_cases hactive : p.phase = .active
    · rw [if_pos hactive] at h
      obtain ⟨_, -, h⟩ := Result.bind_ok h
      obtain ⟨text, -, h⟩ := Result.bind_ok h
      cases h
      exact .quiet rfl rfl (quiet_appendText (by decide)) rfl
    · rw [if_neg hactive] at h
      cases h
  | setInputAudio enabled =>
    change (if p.inputAllowed = true then _ else Live.unsupported) = _ at h
    by_cases hallowed : p.inputAllowed = true
    · rw [if_pos hallowed] at h
      obtain ⟨confirmation, -, h⟩ := Result.bind_ok h
      cases h
      refine .quiet rfl rfl ⟨rfl, ?_⟩ rfl
      simp [results, resultIn, Value.field, List.lookup_cons]
    · rw [if_neg hallowed] at h
      cases h
  | sealUserInput =>
    change (if p.inputAllowed = true then _ else Live.unsupported) = _ at h
    by_cases hallowed : p.inputAllowed = true
    · rw [if_pos hallowed] at h
      cases h
      exact .quiet rfl rfl ⟨rfl, rfl⟩ rfl
    · rw [if_neg hallowed] at h
      cases h
  | close =>
    change (if p.phase = .finished then _ else _) = _ at h
    by_cases hfinished : p.phase = .finished
    · rw [if_pos hfinished] at h
      cases h
      exact .quiet rfl rfl ⟨rfl, rfl⟩ rfl
    · rw [if_neg hfinished] at h
      by_cases hactive : p.phase = .active
      · rw [if_pos hactive] at h
        obtain ⟨⟨action, p₁⟩, hclose, h⟩ := Result.bind_ok h
        cases h
        obtain ⟨confirmation, -, hclose⟩ := Result.bind_ok hclose
        cases hclose
        refine .quiet rfl rfl ⟨rfl, ?_⟩ rfl
        simp [results, resultIn, Value.field, List.lookup_cons]
      · rw [if_neg hactive] at h
        cases h
  | _ => cases h

private theorem audioControlled_quiet {enabled : Bool}
    (h : p.audioControlled now enabled = .ok (actions, p')) :
    Quiet actions ∧ p'.delegations = p.delegations := by
  unfold Live.audioControlled at h
  split at h
  · obtain ⟨_, -, h⟩ := Result.bind_ok h
    obtain ⟨⟨pending, confirmation⟩, -, h⟩ := Result.bind_ok h
    cases h
    exact ⟨⟨rfl, rfl⟩, rfl⟩
  · cases h

private theorem remoteClosed_quiet {reason : String} {usage : Value}
    (h : p.remoteClosed now reason usage = .ok (actions, p')) :
    Quiet actions ∧ p'.delegations = p.delegations := by
  obtain ⟨_, -, h⟩ := Result.bind_ok h
  obtain ⟨_, -, h⟩ := Result.bind_ok h
  split at h
  · obtain ⟨_, -, h⟩ := Result.bind_ok h
    obtain ⟨⟨pending, confirmation⟩, -, h⟩ := Result.bind_ok h
    cases h
    exact ⟨⟨rfl, rfl⟩, rfl⟩
  · obtain ⟨_, -, h⟩ := Result.bind_ok h
    cases h
    exact ⟨⟨rfl, rfl⟩, rfl⟩
  · cases h

private theorem receive_booked {frame : Frame} (h : p.receive now frame = .ok (actions, p')) :
    Live.Booked (.frame now frame) p p' actions := by
  obtain ⟨_, -, h⟩ := Result.bind_ok h
  cases frame with
  | unreadable => cases h
  | unknownFields => cases h
  | event value event =>
    cases event with
    | started session =>
      obtain ⟨_, -, h⟩ := Result.bind_ok h
      obtain ⟨_, -, h⟩ := Result.bind_ok h
      obtain ⟨⟨pending, confirmation⟩, -, h⟩ := Result.bind_ok h
      obtain ⟨_, -, h⟩ := Result.bind_ok h
      cases h
      exact .quiet rfl rfl ⟨rfl, rfl⟩ rfl
    | audioPaused =>
      obtain ⟨hquiet, hsame⟩ := audioControlled_quiet h
      exact .quiet rfl rfl hquiet hsame
    | audioResumed =>
      obtain ⟨hquiet, hsame⟩ := audioControlled_quiet h
      exact .quiet rfl rfl hquiet hsame
    | turn turn =>
      obtain ⟨_, -, h⟩ := Result.bind_ok h
      obtain ⟨_, -, h⟩ := Result.bind_ok h
      split at h
      · cases h
        exact .quiet rfl rfl ⟨rfl, rfl⟩ rfl
      · split at h
        · cases h
          exact .quiet rfl rfl ⟨rfl, rfl⟩ rfl
        · cases h
    | delegation item =>
      obtain ⟨_, -, h⟩ := Result.bind_ok h
      obtain ⟨_, -, h⟩ := Result.bind_ok h
      obtain ⟨_, -, h⟩ := Result.bind_ok h
      obtain ⟨_, -, h⟩ := Result.bind_ok h
      cases h
      exact ⟨rfl, fun id => by simp [results, Live.reported, Arrival.answers], rfl⟩
    | closed reason usage =>
      obtain ⟨hquiet, hsame⟩ := remoteClosed_quiet h
      exact .quiet rfl rfl hquiet hsame
    | error code message =>
      cases h
      exact .quiet rfl rfl ⟨rfl, rfl⟩ rfl
    | observation =>
      cases h
      exact .quiet rfl rfl ⟨rfl, rfl⟩ rfl

private theorem finalize_booked (h : p.finalize = .ok (actions, p')) :
    Live.Booked .drained p p' actions := by
  unfold Live.finalize at h
  split at h
  · cases h
    refine .quiet rfl rfl ⟨?_, ?_⟩ rfl
    · rw [reports_append]
      cases p.closeId <;> rfl
    · rw [results_append]
      cases p.closeId <;> rfl
  · cases h

private theorem take_booked {arrival : Arrival} (h : p.take arrival = .ok (actions, p')) :
    Live.Booked arrival p p' actions := by
  obtain ⟨⟨taken, p₁⟩, htake, h⟩ := Result.bind_ok h
  cases hfailure : failure taken with
  | some error =>
    simp only [hfailure] at h
    cases h
  | none =>
    simp only [hfailure] at h
    cases h
    cases arrival with
    | frame now frame => exact receive_booked htake
    | command now command => exact command_booked htake
    | drained => exact finalize_booked htake

namespace Ledger

variable {l l' : Ledger}

def answers (arrivals : List Arrival) : List String := arrivals.filterMap Arrival.answers

theorem Agrees.step {arrival : Arrival} (h : l.Agrees) (hstep : l.step arrival = .ok l')
    (hopen : ∀ id, arrival.delegates = some id → id ∉ results l.emitted) : l'.Agrees := by
  obtain ⟨⟨actions, live⟩, htake, hstep⟩ := Result.bind_ok hstep
  cases hstep
  have hbooked := take_booked htake
  unfold Agrees at h ⊢
  change Outstanding live.delegations (reports (l.emitted ++ actions))
    (results (l.emitted ++ actions))
  rw [reports_append, results_append, hbooked.delegations, hbooked.reports]
  cases hdelegates : arrival.delegates with
  | some id =>
    have hanswers : arrival.answers = none := by
      unfold Arrival.delegates at hdelegates
      split at hdelegates
      · rfl
      · cases hdelegates
    have hnone : results actions = [] :=
      List.eq_nil_iff_forall_not_mem.2 fun d hd => by
        have := (hbooked.results d).1 hd
        rw [hanswers] at this
        cases this
    rw [hnone, List.append_nil]
    refine h.raise (hopen id hdelegates) (fun i => List.mem_insert_iff) fun i => ?_
    rw [List.mem_append, Option.toList_some, List.mem_singleton, or_comm]
  | none =>
    cases hanswers : arrival.answers with
    | some id =>
      rw [Option.toList_none, List.append_nil]
      refine h.settle (k := id) (fun i => by simp) fun i => ?_
      rw [List.mem_append, hbooked.results i, hanswers, or_comm]
      exact or_congr_left ⟨fun h => (Option.some.inj h).symm, fun h => congrArg some h.symm⟩
    | none =>
      have hnone : results actions = [] :=
        List.eq_nil_iff_forall_not_mem.2 fun d hd => by
          have := (hbooked.results d).1 hd
          rw [hanswers] at this
          cases this
      rw [hnone, List.append_nil, Option.toList_none, List.append_nil]
      exact h

private theorem mem_results_run {arrivals : List Arrival} (h : l.run arrivals = .ok l')
    (id : String) :
    id ∈ results l'.emitted ↔ id ∈ results l.emitted ∨ id ∈ answers arrivals := by
  induction arrivals generalizing l with
  | nil =>
    cases h
    simp [answers]
  | cons arrival rest ih =>
    obtain ⟨next, hstep, hrest⟩ := Result.bind_ok h
    obtain ⟨⟨actions, live⟩, htake, hstep⟩ := Result.bind_ok hstep
    cases hstep
    rw [ih hrest, results_append, List.mem_append, (take_booked htake).results id, or_assoc]
    unfold answers
    rw [List.filterMap_cons]
    cases arrival.answers with
    | none => simp
    | some d => simp [eq_comm]

private theorem run_append {before after : List Arrival} :
    l.run (before ++ after) = l.run before >>= fun l => l.run after := List.foldlM_append

private theorem agrees_opening {adapter : Adapter} {maxDelegations contextRevision now : Nat}
    {request : ModelRequest}
    (h : opening adapter maxDelegations request contextRevision now = .ok l) :
    l.Agrees ∧ results l.emitted = [] := by
  obtain ⟨⟨actions, live⟩, hinitial, h⟩ := Result.bind_ok h
  cases h
  obtain ⟨_, -, hinitial⟩ := Result.bind_ok hinitial
  obtain ⟨items, -, hinitial⟩ := Result.bind_ok hinitial
  obtain ⟨confirmation, -, hinitial⟩ := Result.bind_ok hinitial
  cases hinitial
  exact ⟨Outstanding.nil, rfl⟩

theorem Agrees.run {arrivals : List Arrival} (h : l.Agrees) (hnone : results l.emitted = [])
    (hrun : l.run arrivals = .ok l')
    (hopen : ∀ before arrival after id, arrivals = before ++ arrival :: after →
      arrival.delegates = some id → id ∉ answers before) : l'.Agrees := by
  induction arrivals using List.reverseRecOn generalizing l' with
  | nil =>
    cases hrun
    exact h
  | append_singleton before arrival ih =>
    rw [run_append] at hrun
    obtain ⟨next, hbefore, hlast⟩ := Result.bind_ok hrun
    obtain ⟨last, hstep, hlast⟩ := Result.bind_ok hlast
    cases hlast
    have hnext : next.Agrees := ih hbefore fun before' arrival' after id hsplit =>
      hopen before' arrival' (after ++ [arrival]) id (by rw [hsplit]; simp)
    refine hnext.step hstep fun id hdelegates hsent => ?_
    have hsent := (mem_results_run hbefore id).1 hsent
    rw [hnone] at hsent
    rcases hsent with hsent | hsent
    · cases hsent
    · exact hopen before arrival [] id rfl hdelegates hsent

private theorem not_agrees_reopened {arrival : Arrival} {id : String}
    (hstep : l.step arrival = .ok l')
    (hdelegates : arrival.delegates = some id) (hsent : id ∈ results l.emitted) : ¬ l'.Agrees := by
  obtain ⟨⟨actions, live⟩, htake, hstep⟩ := Result.bind_ok hstep
  cases hstep
  have hbooked := take_booked htake
  refine Outstanding.not_of_reopened (k := id) ?_ ?_
  · change id ∈ live.delegations
    rw [hbooked.delegations, hdelegates]
    exact List.mem_insert_self
  · rw [results_append]
    exact List.mem_append_left _ hsent

end Ledger

def DelegationItem.output (item : DelegationItem) : Kernel.OutputEvent where
  generationId := none
  itemId := item.id
  callerId := "live"
  output := .delegation ⟨item.id, String.join (item.content.map TextPart.text)⟩

/-- In every state of a session its set of delegations is what it has reported and not
answered, exactly if no delegation comes again once its result has been sent. To the kernel
an item that it holds already is no news, answered or not. -/
theorem delegations_agree_iff {adapter : Adapter} {maxDelegations contextRevision now : Nat}
    {request : ModelRequest} {start final : Ledger} {arrivals : List Arrival}
    (hopening : Ledger.opening adapter maxDelegations request contextRevision now = .ok start)
    (hrun : start.run arrivals = .ok final) :
    ((∀ before after l, arrivals = before ++ after → start.run before = .ok l → l.Agrees) ↔
      ∀ before arrival after id, arrivals = before ++ arrival :: after →
        arrival.delegates = some id → id ∉ Ledger.answers before) ∧
    ∀ (item : DelegationItem) (capabilities : CapabilitySet) (operationId commandId : String)
      (c : Checkpoint), item.id ≠ "" → validateOutput [item.output.output] = .ok () →
        c.history.byId (item.output.entry c).id = some (item.output.entry c) →
          Kernel.stageOutput capabilities item.output operationId commandId c = .ok c := by
  obtain ⟨hagrees, hnone⟩ := Ledger.agrees_opening hopening
  refine ⟨⟨?_, ?_⟩, ?_⟩
  · intro hall before arrival after id hsplit hdelegates hanswered
    rw [hsplit, Ledger.run_append] at hrun
    obtain ⟨l, hbefore, hrest⟩ := Result.bind_ok hrun
    obtain ⟨l', hstep, -⟩ := Result.bind_ok hrest
    have hsent : id ∈ results l.emitted := (Ledger.mem_results_run hbefore id).2 (.inr hanswered)
    refine Ledger.not_agrees_reopened hstep hdelegates hsent ?_
    refine hall (before ++ [arrival]) after l' (by rw [hsplit]; simp) ?_
    rw [Ledger.run_append, hbefore]
    change (l.step arrival >>= fun l => pure l) = _
    rw [show l.step arrival = .ok l' from hstep]
    rfl
  · intro hopen before after l hsplit hbefore
    refine hagrees.run hnone hbefore fun before' arrival after' id hsplit' => ?_
    refine hopen before' arrival (after' ++ after) id ?_
    rw [hsplit, hsplit', List.append_assoc, List.cons_append]
  · intro item capabilities operationId commandId c hid hvalid hheld
    have hgone : item.output.foreign c = false := rfl
    have hnames : ¬ (item.output.itemId = "" ∨ item.output.callerId = "") := by
      rintro (h | h)
      · exact hid h
      · change "live" = "" at h
        exact absurd h (by decide)
    unfold Kernel.stageOutput
    simp only [hgone, hvalid, hheld, hnames, ne_eq, not_true_eq_false, if_false,
      Bool.false_eq_true]
    rfl

def sampleAdapter : Adapter where
  config := ⟨"live", "", "voice", 30, 30⟩
  negotiate _ := .ok ⟨[], []⟩
  json := ⟨fun _ => .error "", fun _ => ""⟩

def sampleRequest : ModelRequest where
  messages := []
  runtimeTools := []
  providerTools := []
  profile := { data := .null }
  toolChoice := .auto
  responseFormat := none
  stream := false

def sampleItem : DelegationItem := ⟨"delegation", "d", "client", [⟨"input_text", "look"⟩]⟩

def sampleBegins : Arrival := .frame 1 (.event .null (.started (.object [("id", .string "s")])))

def sampleDelegates : Arrival := .frame 1 (.event .null (.delegation sampleItem))

def sampleAnswers : Arrival :=
  .command 1 ⟨"a", .append ⟨.given "r", none, .delegationResult "d" (.cancelled "no")⟩ 1 0
    .submitted⟩

def sampleCloses : Arrival := .frame 1 (.event .null (.closed "server" .null))

def sampleOpened : Ledger :=
  (Ledger.opening sampleAdapter 1 sampleRequest 0 0).toOption.get (by decide)

private theorem opening_sampleOpened :
    Ledger.opening sampleAdapter 1 sampleRequest 0 0 = .ok sampleOpened :=
  Result.eq_ok_get (by decide)

def sampleHolding : Checkpoint :=
  (Kernel.stageOutput Kernel.sampleCapabilities sampleItem.output "o" "k"
    (sampleCheckpoint [sampleEntry 0 "go"])).toOption.get (by decide +kernel)

/-- A repeat that comes before the result leaves nothing behind, and the kernel does not take
it for another item. -/
theorem sample_delegations_agree :
    (∀ before after l,
      [sampleBegins, sampleDelegates, sampleDelegates, sampleAnswers] = before ++ after →
        sampleOpened.run before = .ok l → l.Agrees) ∧
      Kernel.stageOutput Kernel.sampleCapabilities sampleItem.output "p" "q" sampleHolding =
        .ok sampleHolding := by
  have hrun : (sampleOpened.run
      [sampleBegins, sampleDelegates, sampleDelegates, sampleAnswers]).toOption.isSome := by
    decide +kernel
  obtain ⟨hagree, hrepeat⟩ :=
    delegations_agree_iff opening_sampleOpened (Result.eq_ok_get hrun)
  refine ⟨hagree.2 fun before arrival after id hsplit hdelegates hanswered => ?_, ?_⟩
  · -- The only result comes last.
    rcases before with _ | ⟨x, _ | ⟨y, _ | ⟨z, _ | ⟨w, rest⟩⟩⟩⟩
    · cases hanswered
    · obtain ⟨rfl, -⟩ := List.cons.inj hsplit
      cases hanswered
    · obtain ⟨rfl, htail⟩ := List.cons.inj hsplit
      obtain ⟨rfl, -⟩ := List.cons.inj htail
      cases hanswered
    · obtain ⟨rfl, htail⟩ := List.cons.inj hsplit
      obtain ⟨rfl, hlast⟩ := List.cons.inj htail
      obtain ⟨rfl, -⟩ := List.cons.inj hlast
      cases hanswered
    · have hlength := congrArg List.length hsplit
      simp at hlength
  · exact hrepeat sampleItem _ _ _ _ (by decide) (by decide +kernel) (by decide +kernel)

def sampleReopened : Ledger :=
  (sampleOpened.run [sampleBegins, sampleDelegates, sampleAnswers, sampleDelegates]).toOption.get
    (by decide +kernel)

/-- After its result has been sent, a repeated item is in the set again, and the server's own
closure is an uncertain failure. -/
theorem repeat_reopens :
    (¬ ∀ (adapter : Adapter) (maxDelegations contextRevision now : Nat) (request : ModelRequest)
        (start l : Ledger) (arrivals : List Arrival),
        Ledger.opening adapter maxDelegations request contextRevision now = .ok start →
          start.run arrivals = .ok l → l.Agrees) ∧
      ((sampleOpened.run
        [sampleBegins, sampleDelegates, sampleAnswers, sampleCloses]).toOption.isSome
        = true ∧
      (sampleOpened.run [sampleBegins, sampleDelegates, sampleAnswers, sampleDelegates,
        sampleCloses]).toOption.isSome = false) := by
  refine ⟨fun hclaim => ?_, by decide +kernel, by decide +kernel⟩
  have hagrees : sampleReopened.Agrees :=
    hclaim _ _ _ _ _ _ _ [sampleBegins, sampleDelegates, sampleAnswers, sampleDelegates]
      opening_sampleOpened (Result.eq_ok_get (by decide +kernel))
  have hpending : "d" ∈ sampleReopened.live.delegations := by decide +kernel
  have hsent : "d" ∈ results sampleReopened.emitted := by decide +kernel
  exact Outstanding.not_of_reopened hpending hsent hagrees

end Zhir.OpenAI
