import Zhir.Streaming.Decoded
import Zhir.Streaming.MessagesFragments

/-!
A Messages response decodes the same from its stream as from its body, exactly where the stream
carries no citations and no input of nothing but empty pieces.
-/

set_option autoImplicit false
set_option relaxedAutoImplicit false

namespace Zhir.Streaming.Messages

open Std (ExtTreeMap)
open Zhir.Core
open Zhir.Library (Ascending Keyed lastValue lastValue_append_list lastValue_eq_none)
open Zhir.Models

/-- A block of a body, cut into an opened block and deltas. -/
structure CutBlock where
  block : Value
  opened : Value
  deltas : List Delta
  deriving DecidableEq, Repr

def CutBlock.events (c : CutBlock) : List BlockEvent := blockEvents c.opened c.deltas

def Event.at (i : Nat) : Event → Option BlockEvent
  | .block j event => if j = i then some event else none
  | _ => none

def eventsAt (i : Nat) (events : List Event) : List BlockEvent := events.filterMap (Event.at i)

def fieldsIn (events : List Event) : List (String × Value) :=
  events.flatMap fun
    | .messageDelta fields _ => fields
    | _ => []

def countersIn (events : List Event) : List (String × Value) :=
  events.flatMap fun
    | .messageDelta _ counters => counters
    | _ => []

def Event.inside : Event → Bool
  | .messageStart _ => false
  | .messageStop => false
  | _ => true

/-- The counters of a response are those it began with, and those that were streamed. -/
structure Counts (before after counters : List (String × Value)) : Prop where
  ascendingBefore : Ascending before
  ascendingAfter : Ascending after
  lookup : ∀ name, after.lookup name = (lastValue name counters).or (before.lookup name)

/-- The events that stream a body: the message begins and ends them, and those of the blocks
come between in any order that keeps the order of each block. -/
structure Streams (json : JsonText) (body message : Value) (cut : List CutBlock)
    (middle : List Event) : Prop where
  canonical : body.Canonical
  begun : message.Canonical
  noError : body.field "error" = none
  fits : cut.length ≤ maxU64 + 1
  inside : ∀ e ∈ middle, e.inside = true
  blocks : ∀ i : Nat, eventsAt i middle = (cut[i]?).elim [] CutBlock.events
  fragments : ∀ c ∈ cut, Fragments json c.block c.opened c.deltas
  reserved : ∀ f ∈ fieldsIn middle, f.1 ≠ "content" ∧ f.1 ≠ "usage"
  content : body.field "content" = some (.array (cut.map CutBlock.block))
  usage : ∃ before after, message.field "usage" = some (.object before) ∧
    body.field "usage" = some (.object after) ∧ Counts before after (countersIn middle)
  field : ∀ name, name ≠ "content" → name ≠ "usage" →
    body.field name = (lastValue name (fieldsIn middle)).or (message.field name)

def eventsOf (message : Value) (middle : List Event) : List Event :=
  .messageStart message :: middle ++ [.messageStop]

def Carries (json : JsonText) (frames : List String) (events : List Event) : Prop :=
  List.Forall₂ (fun data e => data ≠ "[DONE]" ∧ json.parse data = .ok e.toValue) frames events

section

variable {json : JsonText} {frames : List String} {events middle : List Event}
  {body message : Value} {cut : List CutBlock}

private theorem step_eq_eventStep {data : String} {e : Event} (s : State) (hdone : data ≠ "[DONE]")
    (hparse : json.parse data = .ok e.toValue) :
    Accumulator.step json (stream json) s data = eventStep json s e := by
  unfold Accumulator.step Accumulator.push eventStep
  rw [if_neg hdone, hparse]
  simp only [not_reportsError]
  rfl

private theorem Carries.run_eq (h : Carries json frames events) (s : State) :
    frames.foldlM (Accumulator.step json (stream json)) s =
      events.foldlM (eventStep json) s := by
  induction h generalizing s with
  | nil => rfl
  | @cons data e frames events hdata hrest ih =>
    rw [List.foldlM_cons, List.foldlM_cons, step_eq_eventStep s hdata.1 hdata.2]
    exact bind_congr fun s => ih s

private theorem index_toValue {i : Nat} (hi : i ≤ maxU64) (event : BlockEvent) :
    index (event.toValue i) = i := by
  have hfield : (event.toValue i).field "index" = some (decimal i) := by
    cases event <;> simp [BlockEvent.toValue, Value.field, List.lookup_cons]
  unfold index
  rw [hfield]
  change (asNat maxU64 (decimal i)).getD 0 = i
  rw [asNat_decimal hi]
  rfl

def Indexed (events : List Event) : Prop := ∀ i event, .block i event ∈ events → i ≤ maxU64

private theorem foldlM_inputs_block (hindexed : Indexed events) (i : Nat) (c : BlockCell) :
    (Keyed.inputs Event.key (some i) events).foldlM (cellStep json (some i)) c =
      (eventsAt i events).foldlM (BlockCell.step json) c := by
  induction events generalizing c with
  | nil => rfl
  | cons e rest ih =>
    have hrest : Indexed rest := fun j event h => hindexed j event (List.mem_cons_of_mem _ h)
    cases e with
    | block j event =>
      have hkey : (Event.block j event).key = some j :=
        congrArg some (index_toValue (hindexed j event List.mem_cons_self) event)
      by_cases hj : j = i
      · subst hj
        have hinputs : Keyed.inputs Event.key (some j) (.block j event :: rest) =
            .block j event :: Keyed.inputs Event.key (some j) rest :=
          List.filter_cons_of_pos (by simp [hkey])
        have hevents : eventsAt j (.block j event :: rest) = event :: eventsAt j rest :=
          List.filterMap_cons_some (if_pos rfl)
        rw [hinputs, hevents, List.foldlM_cons]
        exact bind_congr fun c => ih hrest c
      · have hinputs : Keyed.inputs Event.key (some i) (.block j event :: rest) =
            Keyed.inputs Event.key (some i) rest :=
          List.filter_cons_of_neg (by simp [hkey, hj])
        have hevents : eventsAt i (.block j event :: rest) = eventsAt i rest :=
          List.filterMap_cons_none (if_neg hj)
        rw [hinputs, hevents]
        exact ih hrest c
    | _ => exact ih hrest c

private theorem foldlM_inputs_message (c : MessageCell) :
    (Keyed.inputs Event.key none events).foldlM (cellStep json none) c =
      events.foldlM MessageCell.step c := by
  induction events generalizing c with
  | nil => rfl
  | cons e rest ih =>
    cases e with
    | block j event =>
      rw [List.foldlM_cons]
      exact ih c
    | _ =>
      rw [List.foldlM_cons]
      exact bind_congr fun c => ih c

private theorem exists_putUsage_counts {v : Value} {before : List (String × Value)}
    (hv : v.Canonical)
    (husage : v.field "usage" = some (.object before)) (hbefore : Ascending before)
    (counters : List (String × Value)) :
    ∃ v' after, putUsage counters v = .ok v' ∧ v'.Canonical ∧
      v'.field "usage" = some (.object after) ∧ Counts before after counters ∧
      ∀ name, name ≠ "usage" → v'.field name = v.field name := by
  induction counters using List.reverseRecOn with
  | nil => exact ⟨v, before, rfl, hv, husage, ⟨hbefore, hbefore, fun name => rfl⟩, fun _ _ => rfl⟩
  | append_singleton earlier f ih =>
    obtain ⟨u, usage, hu, hcanonical, hfield, hcounts, hother⟩ := ih
    obtain ⟨put, hassign, hputObject, hput⟩ :=
      Value.exists_assign (v := .object usage) trivial f.1 f.2
    have hputCanonical : put.Canonical :=
      Value.Canonical.modifyField ⟨usage, rfl, hcounts.ascendingAfter⟩ hassign
    have hmodify : ∃ v', (u.modifyField "usage" fun usage => usage.assign f.1 f.2) = .ok v' := by
      cases hset : u.modifyField "usage" fun usage => usage.assign f.1 f.2 with
      | ok v' => exact ⟨v', rfl⟩
      | error fault =>
        rw [Value.modifyField_error_iff, hfield] at hset
        rcases hset with ⟨hbad, -⟩ | ⟨-, hset⟩
        · exact absurd hcanonical.indexable hbad
        · cases hassign.symm.trans hset
    obtain ⟨v', hv'⟩ := hmodify
    obtain ⟨-, w, hw, -, hnew⟩ := Value.modifyField_ok hv'
    rw [hfield] at hw
    cases hassign.symm.trans hw
    obtain ⟨after, rfl, hafter⟩ := hputCanonical
    refine ⟨v', after, ?_, hcanonical.modifyField hv', (hnew "usage").trans (if_pos rfl),
      ⟨hbefore, hafter, fun name => ?_⟩, fun name hname => ?_⟩
    · unfold putUsage at *
      rw [Keyed.foldlM_append_singleton, hu]
      exact hv'
    · change (Value.object after).field name = _
      rw [hput, Zhir.Library.lastValue_append]
      split
      · rfl
      · exact hcounts.lookup name
    · rw [hnew, if_neg hname]
      exact hother name hname

private theorem run_message {before : List (String × Value)} (hbegun : message.Canonical)
    (husage : message.field "usage" = some (.object before)) (hbefore : Ascending before)
    (hinside : ∀ e ∈ middle, e.inside = true)
    (hreserved : ∀ f ∈ fieldsIn middle, f.1 ≠ "content" ∧ f.1 ≠ "usage") (done : Bool) :
    ∃ v after, middle.foldlM MessageCell.step ⟨message, done⟩ = .ok ⟨v, done⟩ ∧ v.Canonical ∧
      v.field "usage" = some (.object after) ∧ Counts before after (countersIn middle) ∧
      ∀ name, name ≠ "usage" →
        v.field name = (lastValue name (fieldsIn middle)).or (message.field name) := by
  induction middle using List.reverseRecOn with
  | nil =>
    exact ⟨message, before, rfl, hbegun, husage, ⟨hbefore, hbefore, fun name => rfl⟩,
      fun name _ => rfl⟩
  | append_singleton earlier e ih =>
    have hfields : fieldsIn (earlier ++ [e]) = fieldsIn earlier ++ fieldsIn [e] :=
      List.flatMap_append
    have hcounters : countersIn (earlier ++ [e]) = countersIn earlier ++ countersIn [e] :=
      List.flatMap_append
    rw [hfields] at hreserved
    obtain ⟨v, after, hrun, hv, hafter, hcounts, hfield⟩ :=
      ih (fun e he => hinside e (List.mem_append_left _ he))
        (fun f hf => hreserved f (List.mem_append_left _ hf))
    rw [hfields, hcounters, Keyed.foldlM_append_singleton, hrun]
    change ∃ v' after', MessageCell.step ⟨v, done⟩ e = .ok ⟨v', done⟩ ∧ _
    cases e with
    | messageDelta fields counters =>
      have hone : fieldsIn [.messageDelta fields counters] = fields := List.append_nil _
      have honeCounters : countersIn [.messageDelta fields counters] = counters :=
        List.append_nil _
      rw [hone] at hreserved ⊢
      rw [honeCounters]
      obtain ⟨u, hu, hcanonical, hset⟩ := hv.foldlM_assign fields
      have husage' : u.field "usage" = some (.object after) := by
        rw [hset, lastValue_eq_none fun f hf => (hreserved f (List.mem_append_right _ hf)).2]
        exact hafter
      obtain ⟨v', after', hput, hv', hafter', hcounts', hother⟩ :=
        exists_putUsage_counts hcanonical husage' hcounts.ascendingAfter counters
      refine ⟨v', after', ?_, hv', hafter', ⟨hbefore, hcounts'.ascendingAfter, fun name => ?_⟩,
        fun name hname => ?_⟩
      · change (putFields fields counters v).map _ = _
        unfold putFields
        rw [hu]
        change (putUsage counters u).map _ = _
        rw [hput]
        rfl
      · rw [hcounts'.lookup, hcounts.lookup, lastValue_append_list, Option.or_assoc]
      · rw [hother name hname, hset, hfield name hname, lastValue_append_list, Option.or_assoc]
    | messageStart message => cases hinside _ (List.mem_append_right _ List.mem_cons_self)
    | messageStop => cases hinside _ (List.mem_append_right _ List.mem_cons_self)
    | block i event =>
      refine ⟨v, after, rfl, hv, hafter, ?_, ?_⟩
      · rwa [show countersIn [.block i event] = [] from rfl, List.append_nil]
      · rwa [show fieldsIn [.block i event] = [] from rfl, List.append_nil]
    | ping =>
      refine ⟨v, after, rfl, hv, hafter, ?_, ?_⟩
      · rwa [show countersIn [.ping] = [] from rfl, List.append_nil]
      · rwa [show fieldsIn [.ping] = [] from rfl, List.append_nil]

private theorem eventsAt_eventsOf (i : Nat) : eventsAt i
    (eventsOf message middle) = eventsAt i middle := by
  unfold eventsAt eventsOf
  rw [List.filterMap_append, List.filterMap_cons_none rfl]
  exact List.append_nil _

theorem Streams.indexed (h : Streams json body message cut middle) :
    Indexed (eventsOf message middle) := by
  intro i event hmem
  have hat : event ∈ eventsAt i middle := by
    rw [← @eventsAt_eventsOf middle message]
    exact List.mem_filterMap.mpr ⟨_, hmem, if_pos rfl⟩
  rw [h.blocks i] at hat
  cases hi : cut[i]? with
  | none =>
    rw [hi] at hat
    cases hat
  | some c =>
    have hlt := (List.getElem?_eq_some_iff.mp hi).1
    have hfits := h.fits
    omega

private theorem Streams.run_blockCell (h : Streams json body message cut middle) {s : State}
    (hrun : (eventsOf message middle).foldlM (eventStep json) State.new = .ok s) (i : Nat) :
    ((cut[i]?).elim [] CutBlock.events).foldlM (BlockCell.step json) {} =
      .ok (s.blockCell i) := by
  have hcell := (keyed json).run_cell hrun (some i)
  rw [← h.blocks i, ← @eventsAt_eventsOf middle message]
  have hnew : State.new.cell (some i) = ({} : BlockCell) := by
    change State.new.blockCell i = _
    unfold State.blockCell State.new
    simp
  rw [hnew] at hcell
  exact (foldlM_inputs_block h.indexed i {}).symm.trans hcell

private theorem Streams.run_messageCell (h : Streams json body message cut middle) :
    ∃ v, (eventsOf message middle).foldlM MessageCell.step ⟨State.new.value, false⟩ =
        .ok ⟨v, true⟩ ∧ v.Canonical ∧
      ∀ name, name ≠ "content" → v.field name = body.field name := by
  obtain ⟨before, after, hbefore, hafter, hcounts⟩ := h.usage
  obtain ⟨v, after', hrun, hv, hafter', hcounts', hfield⟩ := run_message h.begun hbefore
    hcounts.ascendingBefore h.inside h.reserved false
  refine ⟨v, ?_, hv, fun name hname => ?_⟩
  · unfold eventsOf
    rw [List.cons_append, List.foldlM_cons]
    change (middle ++ [Event.messageStop]).foldlM MessageCell.step ⟨message, false⟩ = _
    rw [Keyed.foldlM_append_singleton, hrun]
    rfl
  · by_cases husage : name = "usage"
    · have hsame : after' = after := hcounts'.ascendingAfter.ext hcounts.ascendingAfter
        fun k => (hcounts'.lookup k).trans (hcounts.lookup k).symm
      rw [husage, hafter', hafter, hsame]
    · rw [hfield name husage, h.field name hname husage]

/-- The response of a stream whose frames are all taken: the body, with the blocks as they were
accumulated. -/
private theorem Streams.accumulate_of_run (h : Streams json body message cut middle)
    (hframes : Carries json frames (eventsOf message middle)) {s : State}
    (hrun : (eventsOf message middle).foldlM (eventStep json) State.new = .ok s)
    {blocks : List Value} (hcells : ∀ i : Nat, s.blockCell i = ⟨blocks[i]?, none⟩) :
    ∃ v, accumulate json (stream json) frames = .ok v ∧ v.Canonical ∧
      v.field "content" = some (.array blocks) ∧
      ∀ name, name ≠ "content" → v.field name = body.field name := by
  obtain ⟨m, hmessage, hm, hfield⟩ := h.run_messageCell
  have hcell := (keyed json).run_cell hrun none
  have hstate : (⟨s.value, s.done⟩ : MessageCell) = ⟨m, true⟩ := by
    have hfold := (@foldlM_inputs_message json _
      (⟨State.new.value, false⟩ : MessageCell)).symm.trans hcell
    exact (Except.ok.inj (hmessage.symm.trans hfold)).symm
  have hpartials : s.partials.isEmpty = true := by
    refine ExtTreeMap.isEmpty_iff.mpr (ExtTreeMap.ext_getElem? fun i => ?_)
    rw [ExtTreeMap.getElem?_empty]
    exact congrArg BlockCell.raw (hcells i)
  have hblocks : s.blocks.toList.map Prod.snd = blocks :=
    Zhir.Library.TreeMap.map_snd_toList fun i => congrArg BlockCell.value (hcells i)
  obtain ⟨v, hv, -, hset⟩ := Value.exists_assign hm.indexable "content" (.array blocks)
  refine ⟨v, ?_, hm.modifyField hv, (hset "content").trans (if_pos rfl), fun name hname => ?_⟩
  · unfold accumulate Accumulator.run
    change (frames.foldlM (Accumulator.step json (stream json)) State.new >>= _) = _
    rw [hframes.run_eq, hrun]
    change State.finish s = _
    have hvalue : s.value = m := congrArg MessageCell.value hstate
    unfold State.finish
    rw [if_pos ⟨congrArg MessageCell.done hstate, hpartials⟩, hblocks, hvalue]
    exact hv
  · rw [hset, if_neg hname]
    exact hfield name hname

private theorem Streams.accumulate_eq (h : Streams json body message cut middle)
    (hempty : ∃ message, json.parse "" = .error message)
    (hframes : Carries json frames (eventsOf message middle))
    (hfaithful : ∀ c ∈ cut, Faithful c.deltas) :
    accumulate json (stream json) frames = .ok body := by
  have hblock : ∀ i : Nat, ((cut[i]?).elim [] CutBlock.events).foldlM (BlockCell.step json) {} =
      .ok ⟨(cut.map CutBlock.block)[i]?, none⟩ := by
    intro i
    rw [List.getElem?_map]
    cases hi : cut[i]? with
    | none => rfl
    | some c =>
      have hmem := List.mem_of_getElem? hi
      exact ((h.fragments c hmem).run_block hempty).1 (hfaithful c hmem)
  have hexists : ∃ s, (eventsOf message middle).foldlM (eventStep json) State.new = .ok s := by
    refine (keyed json).exists_run fun k => ?_
    cases k with
    | none =>
      obtain ⟨m, hmessage, -⟩ := h.run_messageCell
      exact ⟨_, (@foldlM_inputs_message json _
        (⟨State.new.value, false⟩ : MessageCell)).trans hmessage⟩
    | some i =>
      have hnew : State.new.cell (some i) = ({} : BlockCell) := by
        change State.new.blockCell i = _
        unfold State.blockCell State.new
        simp
      have hfold : (eventsAt i (eventsOf message middle)).foldlM (BlockCell.step json) {} =
          .ok ⟨(cut.map CutBlock.block)[i]?, none⟩ := by
        rw [eventsAt_eventsOf, h.blocks i]
        exact hblock i
      rw [hnew]
      exact ⟨_, (foldlM_inputs_block h.indexed i {}).trans hfold⟩
  obtain ⟨s, hrun⟩ := hexists
  have hcells : ∀ i : Nat, s.blockCell i = ⟨(cut.map CutBlock.block)[i]?, none⟩ := fun i =>
    Except.ok.inj ((h.run_blockCell hrun i).symm.trans (hblock i))
  obtain ⟨v, hv, hcanonical, hcontent, hfield⟩ := h.accumulate_of_run hframes hrun hcells
  have heq : v = body := by
    refine hcanonical.ext h.canonical fun name => ?_
    by_cases hname : name = "content"
    · rw [hname, hcontent, h.content]
    · exact hfield name hname
  rw [hv, heq]

/-- What a stream accumulates to is the body up to its blocks, and each of these is the block of
the body only where the stream was faithful. -/
theorem Streams.accumulated (h : Streams json body message cut middle)
    (hempty : ∃ message, json.parse "" = .error message)
    (hframes : Carries json frames (eventsOf message middle)) {v : Value}
    (hv : accumulate json (stream json) frames = .ok v) :
    ∃ blocks : List Value, v.field "content" = some (.array blocks) ∧
      (∀ name, name ≠ "content" → v.field name = body.field name) ∧
      ∀ (i : Nat) (c : CutBlock), cut[i]? = some c →
        ∃ b, blocks[i]? = some b ∧ (b = c.block → Faithful c.deltas) := by
  obtain ⟨s, hrun, -⟩ := Checked.bind_ok hv
  change frames.foldlM (Accumulator.step json (stream json)) State.new = .ok s at hrun
  rw [hframes.run_eq] at hrun
  have hlive : ∀ (i : Nat) (c : CutBlock), cut[i]? = some c →
      ∃ b, s.blockCell i = ⟨some b, none⟩ ∧ (b = c.block → Faithful c.deltas) := by
    intro i c hi
    have hcell := h.run_blockCell hrun i
    rw [hi] at hcell
    exact ((h.fragments c (List.mem_of_getElem? hi)).run_block hempty).2 _ hcell
  let blocks := (List.range cut.length).map fun i => (s.blockCell i).value.getD .null
  have hcells : ∀ i : Nat, s.blockCell i = ⟨blocks[i]?, none⟩ := by
    intro i
    cases hi : cut[i]? with
    | none =>
      have hcell := h.run_blockCell hrun i
      rw [hi] at hcell
      have hlength : cut.length ≤ i := List.getElem?_eq_none_iff.mp hi
      have hnone : blocks[i]? = none := by
        simp [blocks, hlength]
      rw [hnone]
      exact (Except.ok.inj hcell).symm
    | some c =>
      obtain ⟨b, hb, -⟩ := hlive i c hi
      have hlt : i < cut.length := (List.getElem?_eq_some_iff.mp hi).1
      have hsome : blocks[i]? = some b := by
        simp [blocks, hlt, hb]
      rw [hsome, hb]
  obtain ⟨v', hv', -, hcontent, hfield⟩ := h.accumulate_of_run hframes hrun hcells
  cases hv.symm.trans hv'
  refine ⟨blocks, hcontent, hfield, fun i c hi => ?_⟩
  obtain ⟨b, hb, hfaithful⟩ := hlive i c hi
  exact ⟨b, congrArg BlockCell.value ((hcells i).symm.trans hb), hfaithful⟩

private theorem Streams.faithful_of_accumulate (h : Streams json body message cut middle)
    (hempty : ∃ message, json.parse "" = .error message)
    (hframes : Carries json frames (eventsOf message middle))
    (hbody : accumulate json (stream json) frames = .ok body) :
    ∀ c ∈ cut, Faithful c.deltas := by
  obtain ⟨blocks, hcontent, -, hblocks⟩ := h.accumulated hempty hframes hbody
  rw [h.content] at hcontent
  cases hcontent
  intro c hc
  obtain ⟨i, hi⟩ := List.mem_iff_getElem?.mp hc
  obtain ⟨b, hb, hfaithful⟩ := hblocks i c hi
  apply hfaithful
  rw [List.getElem?_map, hi] at hb
  exact (Option.some.inj hb).symm

def mapAll : ProtocolExtension Unit where
  decodeOutputItem _ _ _ t := .ok (some [.content (.text "")], t)
  encodeProviderHistory _ _ t := .ok (none, t)

private theorem setField_lookup {name : String} {w : Value} {fields : List (String × Value)}
    (h : fields.lookup name = some w) : Value.setField name w fields = fields := by
  induction fields with
  | nil => rfl
  | cons f rest ih =>
    obtain ⟨k, v⟩ := f
    unfold Value.setField
    by_cases hk : k = name
    · subst hk
      rw [List.lookup_cons, beq_self_eq_true] at h
      cases h
      rw [if_pos rfl]
    · have hne : (name == k) = false := beq_eq_false_iff_ne.mpr (Ne.symm hk)
      rw [List.lookup_cons, hne] at h
      rw [if_neg hk, ih h]

private theorem decodeLoop_mapAll (v : Value) (native : Value → Result (List Output))
    (items : List Value) : ∃ output,
      decodeLoop .messages (some mapAll) v native items () = .ok (output, items, ()) := by
  induction items with
  | nil => exact ⟨[], rfl⟩
  | cons item rest ih =>
    obtain ⟨output, hrest⟩ := ih
    refine ⟨.content (.text "") :: output, ?_⟩
    have hitem : readItem .messages (some mapAll) v native item () =
        .ok ([.content (.text "")], item, ()) := rfl
    unfold decodeLoop
    rw [hitem]
    change (decodeLoop .messages (some mapAll) v native rest () >>= _) = _
    rw [hrest]
    rfl

private theorem decodeBody_mapAll {v : Value} {items : List Value} (herror : v.field "error" = none)
    (hcontent : v.field "content" = some (.array items)) :
    ∃ g : GenerationOutput, decodeBody json .messages v (some mapAll) () = .ok (g, ()) ∧
      g.providerData.field "response" = some v := by
  obtain ⟨output, hloop⟩ := decodeLoop_mapAll v Models.Messages.decodeItem items
  have hset : setMember v "content" (.array items) = v := by
    cases v with
    | object fields => exact congrArg Value.object (setField_lookup hcontent)
    | _ => rfl
  have hitems : decodeItems .messages "content" v (some mapAll) Models.Messages.decodeItem () =
      .ok (⟨output, v, false⟩, ()) := by
    unfold decodeItems
    rw [hcontent]
    change (decodeLoop .messages (some mapAll) v Models.Messages.decodeItem items () >>= _) = _
    rw [hloop]
    change Except.ok ((⟨output, setMember v "content" (.array items), false⟩ : Decoded), ()) = _
    rw [hset]
  have hdecoded : Models.Messages.decode (some mapAll) v () = .ok
      (⟨output, v, decide ((v.field "stop_reason").bind asString = some "pause_turn")⟩, ()) := by
    unfold Models.Messages.decode
    rw [hitems]
    rfl
  refine ⟨generationOutput .messages v ⟨output, v,
    decide ((v.field "stop_reason").bind asString = some "pause_turn")⟩, ?_, rfl⟩
  unfold decodeBody decode
  rw [herror]
  change ((Models.Messages.decode (some mapAll) v () >>= _).mapError Fault.error) = _
  rw [hdecoded]
  rfl

/-- A stream decodes as its body does, by every extension, exactly where it was faithful. -/
theorem decoded_alike_iff (hempty : ∃ message, json.parse "" = .error message)
    (h : Streams json body message cut middle)
    (hframes : Carries json frames (eventsOf message middle)) :
    (∀ (τ : Type) (extension : Option (ProtocolExtension τ)) (t : τ),
      decodeStream json .messages (stream json) frames extension t =
        decodeBody json .messages body extension t) ↔
    ∀ c ∈ cut, Faithful c.deltas := by
  constructor
  · intro halike
    obtain ⟨g, hbody, hresponse⟩ := @decodeBody_mapAll json _ _ h.noError h.content
    have hstream := (halike Unit (some mapAll) ()).trans hbody
    obtain ⟨v, hv, hdecoded⟩ := Checked.bind_ok hstream
    obtain ⟨blocks, hcontent, hfield, -⟩ := h.accumulated hempty hframes hv
    obtain ⟨g', hdecoded', hresponse'⟩ := @decodeBody_mapAll json _ _
      ((hfield "error" (by decide)).trans h.noError) hcontent
    cases hdecoded.symm.trans hdecoded'
    have heq : v = body := Option.some.inj (hresponse'.symm.trans hresponse)
    exact h.faithful_of_accumulate hempty hframes (heq ▸ hv)
  · intro hfaithful τ extension t
    exact decodeStream_of_ok (h.accumulate_eq hempty hframes hfaithful) extension t

end

def sampleText (text : String) : Value :=
  .object [("text", .string text), ("type", .string "text")]

def sampleBlock : Value := .object [("id", .string "call"), ("input", .object []),
  ("name", .string "now"), ("type", .string "tool_use")]

def sampleMessage : Value := .object [("content", .array []), ("id", .string "msg"),
  ("stop_reason", .null), ("usage", .object [("input_tokens", decimal 5)])]

def sampleBody : Value := .object [("content", .array [sampleText "hello", sampleBlock]),
  ("id", .string "msg"), ("stop_reason", .string "tool_use"),
  ("usage", .object [("input_tokens", decimal 5), ("output_tokens", decimal 2)])]

def sampleCut (pieces : List String) : List CutBlock :=
  [⟨sampleText "hello", sampleText "", [.text "hel", .text "lo"]⟩,
    ⟨sampleBlock, sampleBlock, pieces.map .inputJson⟩]

def sampleMiddle (pieces : List String) : List Event :=
  [.block 0 (.start (sampleText "")), .block 0 (.delta (.text "hel")),
    .block 1 (.start sampleBlock), .block 0 (.delta (.text "lo"))] ++
  pieces.map (fun piece => .block 1 (.delta (.inputJson piece))) ++
  [.block 1 .stop, .block 0 .stop,
    .messageDelta [("stop_reason", .string "tool_use")] [("output_tokens", decimal 2)]]

def sampleTextFrame (piece : String) : String :=
  "\x7b\"delta\":\x7b\"text\":\"" ++ piece ++ "\",\"type\":\"text_delta\"\x7d," ++
    "\"index\":0,\"type\":\"content_block_delta\"\x7d"

def sampleInputFrame (piece : String) : String :=
  "\x7b\"delta\":\x7b\"partial_json\":\"" ++ piece ++ "\",\"type\":\"input_json_delta\"\x7d," ++
    "\"index\":1,\"type\":\"content_block_delta\"\x7d"

def sampleFrames (pieces : List String) : List String := [
  "\x7b\"message\":\x7b\"content\":[],\"id\":\"msg\",\"stop_reason\":null," ++
    "\"usage\":\x7b\"input_tokens\":5\x7d\x7d,\"type\":\"message_start\"\x7d",
  "\x7b\"content_block\":\x7b\"text\":\"\",\"type\":\"text\"\x7d,\"index\":0," ++
    "\"type\":\"content_block_start\"\x7d",
  sampleTextFrame "hel",
  "\x7b\"content_block\":\x7b\"id\":\"call\",\"input\":\x7b\x7d,\"name\":\"now\"," ++
    "\"type\":\"tool_use\"\x7d,\"index\":1,\"type\":\"content_block_start\"\x7d",
  sampleTextFrame "lo"] ++ pieces.map sampleInputFrame ++ [
  "\x7b\"index\":1,\"type\":\"content_block_stop\"\x7d",
  "\x7b\"index\":0,\"type\":\"content_block_stop\"\x7d",
  "\x7b\"delta\":\x7b\"stop_reason\":\"tool_use\"\x7d,\"type\":\"message_delta\"," ++
    "\"usage\":\x7b\"output_tokens\":2\x7d\x7d",
  "\x7b\"type\":\"message_stop\"\x7d"]

/-- The documents of the frames, and the one an empty object is. -/
def sampleDocuments (pieces : List String) : List (String × Value) :=
  ("\x7b\x7d", .object []) ::
    (sampleFrames pieces).zip ((eventsOf sampleMessage (sampleMiddle pieces)).map Event.toValue)

def sampleJson (pieces : List String) : JsonText where
  parse text := match (sampleDocuments pieces).lookup text with
    | some v => .ok v
    | none => .error "EOF while parsing a value at line 1 column 0"
  print _ := ""

def samplePieces : List String := ["\x7b", "\x7d"]

def SamplePieces (pieces : List String) : Prop := pieces = [""] ∨ pieces = samplePieces

theorem sample_carries {pieces : List String} (h : SamplePieces pieces) :
    Carries (sampleJson pieces) (sampleFrames pieces)
      (eventsOf sampleMessage (sampleMiddle pieces)) := by
  unfold Carries
  rcases h with rfl | rfl
  · decide +kernel
  · decide +kernel

private theorem sample_blocks {pieces : List String} (h : SamplePieces pieces) (i : Nat) :
    eventsAt i (sampleMiddle pieces) = ((sampleCut pieces)[i]?).elim [] CutBlock.events := by
  rcases h with rfl | rfl
  all_goals
    match i with
    | 0 => rfl
    | 1 => rfl
    | i + 2 => rfl

private theorem sample_fieldsIn {pieces : List String} (h : SamplePieces pieces) :
    fieldsIn (sampleMiddle pieces) = [("stop_reason", .string "tool_use")] := by
  rcases h with rfl | rfl
  · rfl
  · rfl

private theorem sample_countersIn {pieces : List String} (h : SamplePieces pieces) :
    countersIn (sampleMiddle pieces) = [("output_tokens", decimal 2)] := by
  rcases h with rfl | rfl
  · rfl
  · rfl

private theorem sample_input {pieces : List String} (h : SamplePieces pieces) :
    InputOf (sampleJson pieces) sampleBlock pieces (some (.object [])) := by
  rcases h with rfl | rfl
  · exact .none (List.cons_ne_nil _ _) rfl
  · exact .spelled (List.cons_ne_nil _ _) (by decide)

private theorem sample_inputs (pieces : List String) (name : String) :
    inputs (pieces.map .inputJson) = pieces ∧ citationsOf (pieces.map .inputJson) = [] ∧
      Messages.pieces name (pieces.map .inputJson) = [] := by
  refine ⟨?_, ?_, ?_⟩
  · simp [inputs, List.filterMap_map, Function.comp_def, Delta.input]
  · simp [citationsOf, List.filterMap_map, Function.comp_def, Delta.citation]
  · simp [Messages.pieces, List.filterMap_map, Function.comp_def, Delta.piece]

private theorem sampleText_canonical (text : String) : (sampleText text).Canonical :=
  ⟨_, rfl, List.pairwise_pair.2 (show "text" < "type" by decide)⟩

private theorem sample_fragments {pieces : List String} (h : SamplePieces pieces) :
    ∀ c ∈ sampleCut pieces, Fragments (sampleJson pieces) c.block c.opened c.deltas := by
  have hblock : sampleBlock.Canonical := ⟨_, rfl, by unfold Ascending; decide⟩
  refine List.forall_mem_cons.2 ⟨?_, List.forall_mem_singleton.2 ?_⟩
  · refine ⟨sampleText_canonical _, sampleText_canonical _, fun name _ _ => ?_, .whole, rfl⟩
    by_cases hname : name = "text"
    · subst hname
      rfl
    · have hne : (name == "text") = false := beq_eq_false_iff_ne.mpr hname
      simp [extended, Messages.pieces, Delta.piece, hname, sampleText, Value.field,
        List.lookup_cons, hne]
  · refine ⟨hblock, hblock, fun name _ _ => ?_, ?_, ?_⟩
    · simp [extended, sample_inputs]
    · rw [(sample_inputs pieces "").1]
      exact sample_input h
    · exact (if_pos (sample_inputs pieces "").2.1).symm

theorem sample_streams {pieces : List String} (h : SamplePieces pieces) :
    Streams (sampleJson pieces) sampleBody sampleMessage (sampleCut pieces)
      (sampleMiddle pieces) where
  canonical := ⟨_, rfl, by unfold Ascending; decide⟩
  begun := ⟨_, rfl, by unfold Ascending; decide⟩
  noError := by decide
  fits := by simp [sampleCut, maxU64]
  inside := by
    rcases h with rfl | rfl
    · decide
    · decide
  blocks := sample_blocks h
  fragments := sample_fragments h
  reserved := by simp [sample_fieldsIn h]
  content := rfl
  usage := by
    refine ⟨_, _, rfl, rfl, by unfold Ascending; decide,
      by unfold Ascending; decide, fun name => ?_⟩
    rw [sample_countersIn h]
    by_cases hname : name = "output_tokens"
    · subst hname
      rfl
    · have hne : (name == "output_tokens") = false := beq_eq_false_iff_ne.mpr hname
      simp [lastValue, List.lookup_cons, hne, Ne.symm hname]
  field := fun name hcontent husage => by
    rw [sample_fieldsIn h]
    by_cases hname : name = "stop_reason"
    · subst hname
      rfl
    · have hne : (name == "stop_reason") = false := beq_eq_false_iff_ne.mpr hname
      have hcontent' : (name == "content") = false := beq_eq_false_iff_ne.mpr hcontent
      have husage' : (name == "usage") = false := beq_eq_false_iff_ne.mpr husage
      simp [lastValue, sampleBody, sampleMessage, Value.field, List.lookup_cons, hne,
        Ne.symm hname, hcontent', husage']

/-- Where the empty object is spelled out, in two pieces among those of a text, the stream decodes
as the body. -/
theorem sample_decoded_alike :
    (∀ c ∈ sampleCut samplePieces, Faithful c.deltas) ∧
    ∀ (τ : Type) (extension : Option (ProtocolExtension τ)) (t : τ),
      decodeStream (sampleJson samplePieces) .messages (stream (sampleJson samplePieces))
          (sampleFrames samplePieces) extension t =
        decodeBody (sampleJson samplePieces) .messages sampleBody extension t := by
  have hfaithful : ∀ c ∈ sampleCut samplePieces, Faithful c.deltas := by
    unfold Faithful
    decide
  refine ⟨hfaithful, ?_⟩
  exact (decoded_alike_iff ⟨"EOF while parsing a value at line 1 column 0", by decide⟩
    (sample_streams (.inr rfl)) (sample_carries (.inr rfl))).2 hfaithful

/-- Where the only piece is empty, the stream is refused. -/
theorem empty_input_refused :
    Streams (sampleJson [""]) sampleBody sampleMessage (sampleCut [""]) (sampleMiddle [""]) ∧
    Carries (sampleJson [""]) (sampleFrames [""]) (eventsOf sampleMessage (sampleMiddle [""])) ∧
    decodeStream (sampleJson [""]) .messages (stream (sampleJson [""])) (sampleFrames [""])
        (none : Option (ProtocolExtension Unit)) () ≠
      decodeBody (sampleJson [""]) .messages sampleBody none () := by
  refine ⟨sample_streams (.inl rfl), sample_carries (.inl rfl), ?_⟩
  decide +kernel

end Zhir.Streaming.Messages
