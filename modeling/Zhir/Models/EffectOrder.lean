import Zhir.Core.Commit
import Zhir.Models.WebRtc

/-!
The order of effects in the WebRTC driver: batches keep the order they were returned in, one
write is in flight, commands wait for their writes and drained batches for the input.
-/

set_option autoImplicit false
set_option relaxedAutoImplicit false

namespace Zhir.Models

open Zhir.Core
open Zhir.Library (Trace)

def returnedEffects (happened : List Happened) : List Effect :=
  happened.flatMap fun
    | .returned effects => effects
    | _ => []

def performedEffects (happened : List Happened) : List Effect :=
  happened.filterMap fun
    | .performed effect => some effect
    | _ => none

def isSend : Action → Bool
  | .send _ => true
  | _ => false

def startedWrites (happened : List Happened) : List Write :=
  happened.filterMap fun
    | .performed effect => if isSend effect.action then some (.control effect) else none
    | .taken chunk => some (.audio chunk)
    | _ => none

def finishedWrites (happened : List Happened) : List Write :=
  happened.filterMap fun
    | .written write => some write
    | _ => none

def acceptedInput (happened : List Happened) : List MediaChunk :=
  happened.filterMap fun
    | .accepted chunk => some chunk
    | _ => none

/-- Input that was written, or that the media mapping had nothing to send for. -/
def consumedInput (happened : List Happened) : List MediaChunk :=
  happened.filterMap fun
    | .written (.audio chunk) => some chunk
    | .discarded chunk => some chunk
    | _ => none

@[simp] theorem returnedEffects_append (xs ys : List Happened) :
    returnedEffects (xs ++ ys) = returnedEffects xs ++ returnedEffects ys :=
  List.flatMap_append

@[simp] theorem performedEffects_append (xs ys : List Happened) :
    performedEffects (xs ++ ys) = performedEffects xs ++ performedEffects ys :=
  List.filterMap_append

@[simp] theorem startedWrites_append (xs ys : List Happened) :
    startedWrites (xs ++ ys) = startedWrites xs ++ startedWrites ys := List.filterMap_append

@[simp] theorem finishedWrites_append (xs ys : List Happened) :
    finishedWrites (xs ++ ys) = finishedWrites xs ++ finishedWrites ys := List.filterMap_append

variable {ρ μ κ : Type} {s : WebRtcSession ρ μ κ}

/-- Every effect that was returned and not performed, next one first. -/
def Driver.queued (d : Driver ρ μ κ) : List Effect :=
  d.observations ++ d.drainTail.getD [] ++ d.actions

def audioWrite : Option Write → List MediaChunk
  | some (.audio chunk) => [chunk]
  | _ => []

def Driver.Drained (d : Driver ρ μ κ) : Prop := d.input = [] ∧ audioWrite d.write = []

variable {d d' : Driver ρ μ κ} {effect : Effect}

/-- Everything executing one effect does to queues, input and write. -/
structure Advanced (d : Driver ρ μ κ) (effect : Effect) (d' : Driver ρ μ κ) : Prop where
  queued : d.queued = effect :: d'.queued
  front : (∃ rest, d.observations = effect :: rest) ∨
    (d.observations = [] ∧ d.drainTail = none ∧ d.write = none)
  observations : ∀ e ∈ d'.observations, e ∈ d.observations
  input : d'.input = d.input
  batches : d'.batches = d.batches
  write : (isSend effect.action = true ∧ d.write = none ∧ d'.write = some (.control effect)) ∨
    (isSend effect.action = false ∧ d'.write = d.write)
  drain : (effect.action = .drainInput ∧ d.write = none ∧ d.drainTail = none ∧
      d'.inputClosed = true ∧ d'.observations = [] ∧ d'.drainTail.isSome = true) ∨
    (effect.action ≠ .drainInput ∧ d'.inputClosed = d.inputClosed ∧ d'.drainTail = d.drainTail)

private theorem disconnect_ok (h : d.disconnect = .ok d') : d' = { d with stopped := true } := by
  obtain ⟨⟨⟩, -, h⟩ := Result.bind_ok h
  cases h
  rfl

private theorem perform_ok {connected : Result (Peer κ)} {rest : List Effect}
    {drained : Driver ρ μ κ}
    (h : Driver.perform connected effect rest d drained = .ok d') :
    (effect.action = .drainInput ∧ d.drainTail = none ∧
      d' = { drained with inputClosed := true, drainTail := some rest }) ∨
    (effect.action ≠ .drainInput ∧ d'.observations = d.observations ∧
      d'.actions = d.actions ∧ d'.drainTail = d.drainTail ∧ d'.input = d.input ∧
      d'.inputClosed = d.inputClosed ∧ d'.batches = d.batches ∧
      d'.write = if isSend effect.action then some (.control effect) else d.write) := by
  unfold Driver.perform at h
  cases haction : effect.action with
  | connect payload timeout =>
    rw [haction] at h
    obtain ⟨⟨⟩, -, h⟩ := Result.bind_ok h
    obtain ⟨peer, -, h⟩ := Result.bind_ok h
    cases h
    exact .inr ⟨by simp, rfl, rfl, rfl, rfl, rfl, rfl, rfl⟩
  | send text =>
    rw [haction] at h
    obtain ⟨⟨⟩, -, h⟩ := Result.bind_ok h
    cases h
    exact .inr ⟨by simp, rfl, rfl, rfl, rfl, rfl, rfl, rfl⟩
  | drainInput =>
    rw [haction] at h
    obtain ⟨⟨⟩, hnone, h⟩ := Result.bind_ok h
    obtain ⟨⟨⟩, -, h⟩ := Result.bind_ok h
    cases h
    exact .inl ⟨rfl, by simpa using require_ok hnone, rfl⟩
  | event body =>
    rw [haction] at h
    obtain ⟨outputs, -, h⟩ := Result.bind_ok h
    cases h
    exact .inr ⟨by simp, rfl, rfl, rfl, rfl, rfl, rfl, rfl⟩
  | disconnect =>
    rw [haction] at h
    obtain rfl := disconnect_ok h
    exact .inr ⟨by simp, rfl, rfl, rfl, rfl, rfl, rfl, rfl⟩
  | fail error =>
    rw [haction] at h
    cases h

private theorem holds_false (h : d.holds s effect.action = .ok false)
    (haction : isSend effect.action = true ∨ effect.action = .drainInput) : d.write = none := by
  unfold Driver.holds at h
  cases hcase : effect.action with
  | send text =>
    cases hpeer : d.peer with
    | none => simpa [hcase, hpeer] using h
    | some peer =>
      simp only [hcase, hpeer] at h
      split at h
      · cases h
      · rename_i hwrite
        simpa using hwrite
  | drainInput => simpa [hcase] using h
  | _ => simp [hcase, isSend] at haction

/-- The inversion of `advance`. -/
private theorem advance_ok {connected : Result (Peer κ)}
    (h : d.advance s connected = .ok (some (effect, d'))) : Advanced d effect d' := by
  unfold Driver.advance at h
  split at h
  · rename_i e rest hobservations
    obtain ⟨held, hheld, h⟩ := Result.bind_ok h
    cases held with
    | true => cases h
    | false =>
      obtain ⟨next, hperform, h⟩ := Result.bind_ok h
      cases h
      have hwrite := holds_false hheld
      rcases perform_ok hperform with ⟨hdrain, htail, rfl⟩ |
        ⟨hnot, hobs, hactions, htail, hinput, hclosed, hbatches, hafter⟩
      · refine ⟨?_, .inl ⟨rest, hobservations⟩, by simp, rfl, rfl,
          .inr ⟨by simp [hdrain, isSend], rfl⟩,
          .inl ⟨hdrain, hwrite (.inr hdrain), htail, rfl, rfl, rfl⟩⟩
        have htail : d.drainTail = none := htail
        simp [Driver.queued, hobservations, htail]
      · refine ⟨?_, .inl ⟨rest, hobservations⟩, ?_, hinput, hbatches, ?_,
          .inr ⟨hnot, hclosed, htail⟩⟩
        · simp [Driver.queued, hobservations, hobs, hactions, htail]
        · intro e he
          rw [hobs] at he
          rw [hobservations]
          exact List.mem_cons_of_mem _ he
        · cases hsend : isSend effect.action with
          | true => exact .inl ⟨rfl, hwrite (.inl hsend), by simpa [hsend] using hafter⟩
          | false => exact .inr ⟨rfl, by simpa [hsend] using hafter⟩
  · rename_i hobservations
    split at h
    · cases h
    · rename_i hfree
      rw [not_or] at hfree
      have htailnone : d.drainTail = none := by simpa using hfree.1
      have hwrite : d.write = none := by simpa using hfree.2
      split at h
      · rename_i e rest hactions
        obtain ⟨held, hheld, h⟩ := Result.bind_ok h
        cases held with
        | true => cases h
        | false =>
          obtain ⟨next, hperform, h⟩ := Result.bind_ok h
          cases h
          rcases perform_ok hperform with ⟨hdrain, htail, rfl⟩ |
            ⟨hnot, hobs, hacts, htail, hinput, hclosed, hbatches, hafter⟩
          · refine ⟨?_, .inr ⟨hobservations, htailnone, hwrite⟩, fun e he => he, rfl, rfl,
              .inr ⟨by simp [hdrain, isSend], rfl⟩,
              .inl ⟨hdrain, hwrite, htailnone, rfl, hobservations, rfl⟩⟩
            simp [Driver.queued, hobservations, htailnone, hactions]
          · refine ⟨?_, .inr ⟨hobservations, htailnone, hwrite⟩, ?_, hinput, hbatches, ?_,
              .inr ⟨hnot, hclosed, htail⟩⟩
            · simp [Driver.queued, hobservations, hobs, hacts, htail, htailnone, hactions]
            · intro e he
              rwa [hobs] at he
            · cases hsend : isSend effect.action with
              | true => exact .inl ⟨rfl, hwrite, by simpa [hsend] using hafter⟩
              | false => exact .inr ⟨rfl, by simpa [hsend] using hafter⟩
      · cases h

private theorem mem_effects {batch : Nat} {source : Source} {actions : List Action} {e : Effect}
    (h : e ∈ effects batch source actions) : e.batch = batch ∧ e.source = source := by
  obtain ⟨index, hindex, rfl⟩ := List.mem_mapIdx.mp h
  exact ⟨rfl, rfl⟩

private theorem effects_sorted (batch : Nat) (source : Source) (actions : List Action) :
    (effects batch source actions).Pairwise fun x y => x.index < y.index := by
  rw [List.pairwise_iff_getElem]
  intro i j hi hj hlt
  simpa [effects] using hlt

/-- What holds between the effects returned, those performed and the driver. -/
structure EffectFlow (happened : List Happened) (d : Driver ρ μ κ) : Prop where
  fresh : ∀ e ∈ returnedEffects happened, e.batch < d.batches
  sorted : (returnedEffects happened).Pairwise fun x y => x.batch = y.batch → x.index < y.index
  order : ∀ batch, (performedEffects happened).filter (·.batch = batch) ++
    d.queued.filter (·.batch = batch) = (returnedEffects happened).filter (·.batch = batch)
  writes : startedWrites happened = finishedWrites happened ++ d.write.toList
  input : acceptedInput happened = consumedInput happened ++ audioWrite d.write ++ d.input
  frames : ∀ e ∈ d.observations, e.source = .frame
  closed : ∀ e ∈ performedEffects happened, e.action = .drainInput → d.inputClosed = true
  settled : d.inputClosed = true → d.drainTail = none → d.Drained
  observed : ∀ e ∈ d.observations, ∀ e₀ ∈ performedEffects happened, e₀.batch = e.batch →
    e₀.action ≠ .drainInput
  sends : ∀ e₀ ∈ performedEffects happened, ∀ e ∈ performedEffects happened,
    e₀.batch = e.batch → e₀.index < e.index → e.source ≠ .frame → isSend e₀.action = true →
      .control e₀ ∈ finishedWrites happened
  drains : ∀ e₀ ∈ performedEffects happened, ∀ e ∈ performedEffects happened,
    e₀.batch = e.batch → e₀.index < e.index → e₀.action = .drainInput → d.Drained
  complete : .finished ∈ happened → d.queued = [] ∧ d.finished = true
  unstarted : d.batches = 0 → d.queued = [] ∧ d.observations = [] ∧ d.finished = false

variable {happened : List Happened} {label : Happened}

private theorem EffectFlow.performed_returned (h : EffectFlow happened d) {e : Effect}
    (he : e ∈ performedEffects happened) : e ∈ returnedEffects happened := by
  have hmem : e ∈ (performedEffects happened).filter (·.batch = e.batch) :=
    List.mem_filter.mpr ⟨he, by simp⟩
  have hall := List.mem_append_left (d.queued.filter (·.batch = e.batch)) hmem
  rw [h.order] at hall
  exact (List.mem_filter.mp hall).1

theorem EffectFlow.earlier (h : EffectFlow happened d) {e₀ e : Effect}
    (he₀ : e₀ ∈ performedEffects happened) (he : e ∈ d.queued) (hbatch : e₀.batch = e.batch) :
    e₀.index < e.index := by
  have hsorted := h.sorted.filter (·.batch = e.batch)
  rw [← h.order, List.pairwise_append] at hsorted
  exact hsorted.2.2 e₀ (List.mem_filter.mpr ⟨he₀, by simp [hbatch]⟩) e
    (List.mem_filter.mpr ⟨he, by simp⟩) hbatch

private theorem EffectFlow.earlier_performed (h : EffectFlow happened d) {e₀ e : Effect}
    (he₀ : e₀ ∈ returnedEffects happened) (he : e ∈ performedEffects happened)
    (hbatch : e₀.batch = e.batch) (hindex : e₀.index < e.index) :
    e₀ ∈ performedEffects happened := by
  have hmem : e₀ ∈ (returnedEffects happened).filter (·.batch = e₀.batch) :=
    List.mem_filter.mpr ⟨he₀, by simp⟩
  rw [← h.order] at hmem
  rcases List.mem_append.mp hmem with hdone | hqueued
  · exact (List.mem_filter.mp hdone).1
  · have hlater := h.earlier he (List.mem_filter.mp hqueued).1 hbatch.symm
    omega

private theorem mem_startedWrites {e : Effect} (he : e ∈ performedEffects happened)
    (hsend : isSend e.action = true) : .control e ∈ startedWrites happened := by
  obtain ⟨label, hlabel, heq⟩ := List.mem_filterMap.mp he
  refine List.mem_filterMap.mpr ⟨label, hlabel, ?_⟩
  cases label with
  | performed effect =>
    cases heq
    simp [hsend]
  | _ => cases heq

theorem EffectFlow.keep (h : EffectFlow happened d) (hreturned : returnedEffects [label] = [])
    (hperformed : performedEffects [label] = []) (hqueued : d'.queued = d.queued)
    (hobservations : d'.observations = d.observations) (hbatches : d'.batches = d.batches)
    (hwrites : startedWrites (happened ++ [label]) =
      finishedWrites (happened ++ [label]) ++ d'.write.toList)
    (hinput : acceptedInput (happened ++ [label]) =
      consumedInput (happened ++ [label]) ++ audioWrite d'.write ++ d'.input)
    (hclosed : d'.inputClosed = d.inputClosed)
    (hsettled : d'.inputClosed = true → d'.drainTail = none → d'.Drained)
    (hdrained : d.inputClosed = true → d.Drained → d'.Drained)
    (hcomplete : .finished ∈ happened ++ [label] → d.queued = [] ∧ d'.finished = true)
    (hunstarted : d.batches = 0 → d'.finished = d.finished) :
    EffectFlow (happened ++ [label]) d' := by
  have hperformed' : performedEffects (happened ++ [label]) = performedEffects happened := by
    rw [performedEffects_append, hperformed, List.append_nil]
  have hreturned' : returnedEffects (happened ++ [label]) = returnedEffects happened := by
    rw [returnedEffects_append, hreturned, List.append_nil]
  constructor
  · rw [hreturned', hbatches]
    exact h.fresh
  · rw [hreturned']
    exact h.sorted
  · rw [hreturned', hperformed', hqueued]
    exact h.order
  · exact hwrites
  · exact hinput
  · rw [hobservations]
    exact h.frames
  · rw [hperformed', hclosed]
    exact h.closed
  · exact hsettled
  · rw [hobservations, hperformed']
    exact h.observed
  · rw [hperformed']
    intro e₀ he₀ e he hbatch hindex hsource hsend
    rw [finishedWrites_append]
    exact List.mem_append_left _ (h.sends e₀ he₀ e he hbatch hindex hsource hsend)
  · rw [hperformed']
    intro e₀ he₀ e he hbatch hindex hdrain
    exact hdrained (h.closed e₀ he₀ hdrain) (h.drains e₀ he₀ e he hbatch hindex hdrain)
  · rw [hqueued]
    exact hcomplete
  · rw [hqueued, hobservations, hbatches]
    intro hzero
    rw [hunstarted hzero]
    exact h.unstarted hzero

private theorem EffectFlow.enqueue (h : EffectFlow happened d) (source : Source)
    (actions : List Action)
    (hrunning : d.finished = false)
    (hqueued : d'.queued = d.returned source actions ++ d.queued)
    (hobservations : d'.observations = [] ∨
      (source = .frame ∧ d'.observations = d.returned source actions))
    (hbatches : d'.batches = d.batches + 1) (hwrite : d'.write = d.write)
    (hinput : d'.input = d.input) (hclosed : d'.inputClosed = d.inputClosed)
    (htail : d'.drainTail = d.drainTail) :
    EffectFlow (happened ++ [.returned (d.returned source actions)]) d' := by
  have hbatch : ∀ e ∈ d.returned source actions, e.batch = d.batches ∧ e.source = source :=
    fun e he => mem_effects he
  have hreturned : returnedEffects (happened ++ [.returned (d.returned source actions)]) =
      returnedEffects happened ++ d.returned source actions := by
    simp [returnedEffects]
  have hperformed : performedEffects (happened ++ [.returned (d.returned source actions)]) =
      performedEffects happened := by
    rw [performedEffects_append]
    exact List.append_nil _
  have hdrained : d'.Drained ↔ d.Drained := by
    simp only [Driver.Drained, hinput, hwrite]
  constructor
  · rw [hreturned, hbatches]
    intro e he
    rcases List.mem_append.mp he with hold | hnew
    · exact Nat.lt_succ_of_lt (h.fresh e hold)
    · rw [(hbatch e hnew).1]
      exact Nat.lt_succ_self _
  · rw [hreturned, List.pairwise_append]
    have hnew : (effects d.batches source actions).Pairwise
        fun x y => x.batch = y.batch → x.index < y.index := by
      refine (effects_sorted d.batches source actions).imp ?_
      intro x y hlt _
      exact hlt
    refine ⟨h.sorted, hnew, ?_⟩
    intro x hx y hy heq
    have hlt := h.fresh x hx
    rw [heq, (hbatch y hy).1] at hlt
    exact absurd hlt (Nat.lt_irrefl _)
  · intro batch
    rw [hreturned, hperformed, hqueued]
    simp only [List.filter_append]
    by_cases hnew : batch = d.batches
    · have hnone : (returnedEffects happened).filter (·.batch = batch) = [] := by
        rw [List.filter_eq_nil_iff]
        intro e he heq
        have hlt := h.fresh e he
        simp only [decide_eq_true_eq] at heq
        omega
      have hempty := h.order batch
      rw [hnone, List.append_eq_nil_iff] at hempty
      rw [hnone, hempty.1, hempty.2]
      simp
    · have hnone : (d.returned source actions).filter (·.batch = batch) = [] := by
        rw [List.filter_eq_nil_iff]
        intro e he heq
        simp only [decide_eq_true_eq] at heq
        exact hnew (heq.symm.trans (hbatch e he).1)
      rw [hnone, List.nil_append, List.append_nil]
      exact h.order batch
  · simpa [startedWrites, finishedWrites, hwrite] using h.writes
  · simpa [acceptedInput, consumedInput, hwrite, hinput] using h.input
  · intro e he
    rcases hobservations with hnil | ⟨rfl, hsome⟩
    · rw [hnil] at he
      cases he
    · rw [hsome] at he
      exact (hbatch e he).2
  · rw [hperformed, hclosed]
    exact h.closed
  · rw [hclosed, htail, hdrained]
    exact h.settled
  · rw [hperformed]
    intro e he e₀ he₀ heq
    rcases hobservations with hnil | ⟨rfl, hsome⟩
    · rw [hnil] at he
      cases he
    · rw [hsome] at he
      have hlt := h.fresh e₀ (h.performed_returned he₀)
      rw [heq, (hbatch e he).1] at hlt
      exact absurd hlt (Nat.lt_irrefl _)
  · rw [hperformed]
    intro e₀ he₀ e he heq hindex hsource hsend
    rw [finishedWrites_append]
    exact List.mem_append_left _ (h.sends e₀ he₀ e he heq hindex hsource hsend)
  · rw [hperformed, hdrained]
    exact h.drains
  · intro hmem
    have hmem : .finished ∈ happened := by simpa using hmem
    rw [(h.complete hmem).2] at hrunning
    cases hrunning
  · intro hzero
    rw [hbatches] at hzero
    exact absurd hzero (Nat.succ_ne_zero _)

theorem Advanced.drained (ha : Advanced d effect d') (h : d.Drained) : d'.Drained := by
  obtain ⟨hinput, hwrite⟩ := h
  refine ⟨ha.input.trans hinput, ?_⟩
  rcases ha.write with ⟨-, -, hsome⟩ | ⟨-, hsame⟩
  · rw [hsome]
    rfl
  · rw [hsame]
    exact hwrite

theorem EffectFlow.advance (h : EffectFlow happened d) (ha : Advanced d effect d')
    (hrunning : d.finished = false) :
    EffectFlow (happened ++ [.performed effect]) d' := by
  have hperformed : performedEffects (happened ++ [.performed effect]) =
      performedEffects happened ++ [effect] := performedEffects_append _ _
  have hreturned : returnedEffects (happened ++ [.performed effect]) =
      returnedEffects happened := by simp [returnedEffects]
  have hfinished : finishedWrites (happened ++ [.performed effect]) = finishedWrites happened := by
    simp [finishedWrites]
  have hhead : effect ∈ d.queued := ha.queued ▸ List.mem_cons_self
  have hlast : ∀ e ∈ performedEffects happened, e.batch = effect.batch →
      e.index < effect.index := fun e he hbatch => h.earlier he hhead hbatch
  constructor
  · rw [hreturned, ha.batches]
    exact h.fresh
  · rw [hreturned]
    exact h.sorted
  · intro batch
    have horder := h.order batch
    rw [ha.queued, List.filter_cons] at horder
    rw [hreturned, hperformed, List.filter_append, ← horder, List.filter_cons]
    split <;> simp
  · rw [hfinished, startedWrites_append, h.writes]
    rcases ha.write with ⟨hsend, hnone, hsome⟩ | ⟨hsend, hsame⟩
    · simp [startedWrites, hsend, hnone, hsome]
    · simp [startedWrites, hsend, hsame]
  · have haudio : audioWrite d'.write = audioWrite d.write := by
      rcases ha.write with ⟨-, hnone, hsome⟩ | ⟨-, hsame⟩
      · rw [hnone, hsome]
        rfl
      · rw [hsame]
    simpa [acceptedInput, consumedInput, haudio, ha.input] using h.input
  · exact fun e he => h.frames e (ha.observations e he)
  · rw [hperformed]
    intro e he hdrain
    rcases ha.drain with ⟨-, -, -, hclosed, -⟩ | ⟨hnot, hclosed, -⟩
    · exact hclosed
    · rcases List.mem_append.mp he with hold | hnew
      · rw [hclosed]
        exact h.closed e hold hdrain
      · rw [List.mem_singleton] at hnew
        exact absurd (hnew ▸ hdrain) hnot
  · intro hclosed htail
    rcases ha.drain with ⟨-, -, -, -, -, hsome⟩ | ⟨-, hclosed', htail'⟩
    · rw [htail] at hsome
      cases hsome
    · exact ha.drained (h.settled (hclosed'.symm.trans hclosed) (htail'.symm.trans htail))
  · rw [hperformed]
    intro e he e₀ he₀ hbatch
    rcases List.mem_append.mp he₀ with hold | hnew
    · exact h.observed e (ha.observations e he) e₀ hold hbatch
    · rw [List.mem_singleton] at hnew
      rcases ha.drain with ⟨-, -, -, -, hempty, -⟩ | ⟨hnot, -⟩
      · rw [hempty] at he
        cases he
      · exact hnew ▸ hnot
  · -- an effect that is not a frame's is executed while no write is in flight
    rw [hperformed, hfinished]
    intro e₀ he₀ e he hbatch hindex hsource hsend
    rcases List.mem_append.mp he with hold | hnew
    · rcases List.mem_append.mp he₀ with hold₀ | hnew₀
      · exact h.sends e₀ hold₀ e hold hbatch hindex hsource hsend
      · rw [List.mem_singleton] at hnew₀
        subst hnew₀
        have hlater := hlast e hold hbatch.symm
        omega
    · rw [List.mem_singleton] at hnew
      subst hnew
      rcases List.mem_append.mp he₀ with hold₀ | hnew₀
      · rcases ha.front with ⟨rest, hframe⟩ | ⟨-, -, hwrite⟩
        · exact absurd (h.frames e (hframe ▸ List.mem_cons_self)) hsource
        · have hstarted := mem_startedWrites hold₀ hsend
          rw [h.writes, hwrite] at hstarted
          simpa using hstarted
      · rw [List.mem_singleton] at hnew₀
        subst hnew₀
        exact absurd hindex (Nat.lt_irrefl _)
  · rw [hperformed]
    intro e₀ he₀ e he hbatch hindex hdrain
    rcases List.mem_append.mp he with hold | hnew
    · rcases List.mem_append.mp he₀ with hold₀ | hnew₀
      · exact ha.drained (h.drains e₀ hold₀ e hold hbatch hindex hdrain)
      · rw [List.mem_singleton] at hnew₀
        subst hnew₀
        have hlater := hlast e hold hbatch.symm
        omega
    · rw [List.mem_singleton] at hnew
      subst hnew
      rcases List.mem_append.mp he₀ with hold₀ | hnew₀
      · -- what is behind a drain is performed from the resumed batch only
        rcases ha.front with ⟨rest, hframe⟩ | ⟨-, htail, -⟩
        · exact absurd hdrain (h.observed e (hframe ▸ List.mem_cons_self) e₀ hold₀ hbatch)
        · exact ha.drained (h.settled (h.closed e₀ hold₀ hdrain) htail)
      · rw [List.mem_singleton] at hnew₀
        subst hnew₀
        exact absurd hindex (Nat.lt_irrefl _)
  · intro hmem
    have hmem : .finished ∈ happened := by simpa using hmem
    rw [(h.complete hmem).2] at hrunning
    cases hrunning
  · intro hzero
    rw [ha.batches] at hzero
    rw [(h.unstarted hzero).1] at hhead
    cases hhead

private theorem idle_queued (h : d.idle = true) :
    d.queued = [] ∧ d.write = none ∧ d.drainTail = none ∧ d.observations = [] := by
  simp only [Driver.idle, Bool.and_eq_true, Option.isNone_iff_eq_none, List.isEmpty_iff] at h
  obtain ⟨⟨⟨hwrite, htail⟩, hactions⟩, hobservations⟩ := h
  refine ⟨?_, hwrite, htail, hobservations⟩
  simp [Driver.queued, hobservations, htail, hactions]

private theorem boundary_idle (h : d.boundary s = true) : d.idle = true := by
  simp only [Driver.boundary, Bool.and_eq_true] at h
  exact h.1.1.2

private theorem done_idle (h : d.done s = true) : d.idle = true := by
  simp only [Driver.done, Bool.and_eq_true] at h
  exact h.1.2

private theorem sendAudio_ok {chunk : MediaChunk} (h : d.sendAudio s chunk = .ok d') :
    ∃ media, d' = { d with media } ∨ d' = { d with media, write := some (.audio chunk) } := by
  obtain ⟨⟨duration, media⟩, -, h⟩ := Result.bind_ok h
  refine ⟨media, ?_⟩
  cases duration with
  | none =>
    cases h
    exact .inl rfl
  | some duration =>
    obtain ⟨⟨⟩, -, h⟩ := Result.bind_ok h
    cases h
    exact .inr rfl

theorem EffectFlow.quiet (h : EffectFlow happened d) (hqueued : d'.queued = d.queued)
    (hobservations : d'.observations = d.observations) (hbatches : d'.batches = d.batches)
    (hwrite : d'.write = d.write) (hinput : d'.input = d.input)
    (hclosed : d'.inputClosed = d.inputClosed)
    (hsettled : d'.inputClosed = true → d'.drainTail = none → d'.Drained)
    (hfinished : d'.finished = d.finished) : EffectFlow (happened ++ [.nothing]) d' := by
  refine h.keep rfl rfl hqueued hobservations hbatches ?_ ?_ hclosed hsettled ?_ ?_
    fun _ => hfinished
  · simpa [startedWrites, finishedWrites, hwrite] using h.writes
  · simpa [acceptedInput, consumedInput, hwrite, hinput] using h.input
  · intro _ hdrained
    exact ⟨hinput.trans hdrained.1, hwrite ▸ hdrained.2⟩
  · intro hmem
    rw [hfinished]
    exact h.complete (by simpa using hmem)

theorem EffectFlow.step (h : EffectFlow happened d) (hact : Acts s d label d') :
    EffectFlow (happened ++ [label]) d' := by
  have hopen : ∀ {d : Driver ρ μ κ}, d.finished = false → EffectFlow happened d →
      .finished ∉ happened := by
    intro d hrunning h hmem
    rw [(h.complete hmem).2] at hrunning
    cases hrunning
  cases hact with
  | @accept chunk hport hrunning hclosed hvalid =>
    refine h.keep rfl rfl rfl rfl rfl ?_ ?_ rfl ?_ ?_ ?_ fun _ => rfl
    · simpa [startedWrites, finishedWrites] using h.writes
    · have hinput := h.input
      simp [acceptedInput, consumedInput] at hinput ⊢
      rw [hinput]
      simp
    · intro hclosed'
      rw [hclosed] at hclosed'
      cases hclosed'
    · intro hclosed'
      rw [hclosed] at hclosed'
      cases hclosed'
    · intro hmem
      exact absurd (by simpa using hmem) (hopen hrunning h)
  | arrive => exact h.quiet rfl rfl rfl rfl rfl rfl h.settled rfl
  | initial hstart hinitial =>
    obtain ⟨hqueued, hobservations, hrunning⟩ := h.unstarted hstart
    refine h.enqueue _ _ hrunning ?_ (.inl hobservations) rfl rfl rfl rfl rfl
    simp only [Driver.queued, List.append_eq_nil_iff] at hqueued
    simp [Driver.queued, hqueued]
  | resume hstarted hrunning hresumable htail =>
    simp only [Driver.resumable, Bool.and_eq_true, Option.isNone_iff_eq_none,
      List.isEmpty_iff] at hresumable
    refine h.quiet ?_ rfl rfl rfl rfl rfl ?_ rfl
    · simp [Driver.queued, htail]
    · intro _ _
      refine ⟨hresumable.1.2, ?_⟩
      change audioWrite d.write = []
      rw [hresumable.1.1]
      rfl
  | advance hstarted hrunning hresumed hadvance => exact h.advance (advance_ok hadvance) hrunning
  | halt _ _ _ _ _ _ hhalt =>
    obtain rfl := disconnect_ok hhalt
    exact h.quiet rfl rfl rfl rfl rfl rfl h.settled rfl
  | finalize _ hrunning _ hboundary =>
    obtain ⟨hqueued, hwrite, htail, hobservations⟩ := idle_queued (boundary_idle hboundary)
    refine h.enqueue _ _ hrunning ?_ (.inl hobservations) rfl rfl rfl rfl rfl
    rw [hqueued]
    simp [Driver.queued, hobservations, htail]
  | finish hstarted hrunning _ _ hdone =>
    obtain ⟨hqueued, -⟩ := idle_queued (done_idle hdone)
    refine h.keep rfl rfl rfl rfl rfl ?_ ?_ rfl h.settled (fun _ => id) (fun _ => ⟨hqueued, rfl⟩)
      fun hzero => absurd hzero (Nat.pos_iff_ne_zero.mp hstarted)
    · simpa [startedWrites, finishedWrites] using h.writes
    · simpa [acceptedInput, consumedInput] using h.input
  | command hselect _ hidle =>
    obtain ⟨hqueued, hwrite, htail, hobservations⟩ := idle_queued hidle
    refine h.enqueue _ _ hselect.running ?_ (.inl hobservations) rfl rfl rfl rfl rfl
    rw [hqueued]
    simp [Driver.queued, hobservations, htail]
  | receive hselect _ _ _ hempty =>
    refine h.enqueue _ _ hselect.running ?_ (.inr ⟨rfl, rfl⟩) rfl rfl rfl rfl rfl
    simp [Driver.queued, hempty]
  | audio => exact h.quiet rfl rfl rfl rfl rfl rfl h.settled rfl
  | @input d' status chunk rest hselect hstatus hwrite hallowed hopened hinput hsend =>
    have hnotdrained : ¬ d.Drained := by
      intro hdrained
      rw [hdrained.1] at hinput
      cases hinput
    have hflow := h.input
    have hwrites := h.writes
    have htail : d.inputClosed = true → d.drainTail ≠ none := fun hclosed hnone =>
      hnotdrained (h.settled hclosed hnone)
    rw [hinput, hwrite] at hflow
    rw [hwrite] at hwrites
    obtain ⟨media, rfl | rfl⟩ := sendAudio_ok hsend
    · have hlabel : (if d.write.isSome then Happened.taken chunk else .discarded chunk) =
          .discarded chunk := by rw [hwrite]; rfl
      change EffectFlow (happened ++ [if d.write.isSome then .taken chunk else .discarded chunk]) _
      rw [hlabel]
      refine h.keep rfl rfl rfl rfl rfl ?_ ?_ rfl ?_ ?_ ?_ fun _ => rfl
      · simpa [startedWrites, finishedWrites, hwrite] using hwrites
      · simp [acceptedInput, consumedInput, audioWrite, hwrite] at hflow ⊢
        exact hflow
      · exact fun hclosed hnone => absurd hnone (htail hclosed)
      · exact fun _ hdrained => absurd hdrained hnotdrained
      · intro hmem
        exact absurd (by simpa using hmem) (hopen hselect.running h)
    · change EffectFlow (happened ++ [.taken chunk]) _
      refine h.keep rfl rfl rfl rfl rfl ?_ ?_ rfl ?_ ?_ ?_ fun _ => rfl
      · simpa [startedWrites, finishedWrites] using hwrites
      · simp [acceptedInput, consumedInput, audioWrite] at hflow ⊢
        exact hflow
      · exact fun hclosed hnone => absurd hnone (htail hclosed)
      · exact fun _ hdrained => absurd hdrained hnotdrained
      · intro hmem
        exact absurd (by simpa using hmem) (hopen hselect.running h)
  | @written status write hselect hstatus hwrite =>
    have hflow := h.input
    have hwrites := h.writes
    rw [hwrite] at hflow hwrites
    refine h.keep rfl rfl rfl rfl rfl ?_ ?_ rfl ?_ ?_ ?_ fun _ => rfl
    · simpa [startedWrites, finishedWrites] using hwrites
    · cases write with
      | control effect =>
        simpa [acceptedInput, consumedInput, audioWrite] using hflow
      | audio chunk =>
        simpa [acceptedInput, consumedInput, audioWrite] using hflow
    · intro hclosed hnone
      exact ⟨(h.settled hclosed hnone).1, rfl⟩
    · exact fun _ hdrained => ⟨hdrained.1, rfl⟩
    · intro hmem
      exact absurd (by simpa using hmem) (hopen hselect.running h)
  | flushedEvent => exact h.quiet rfl rfl rfl rfl rfl rfl h.settled rfl
  | flushedMedia => exact h.quiet rfl rfl rfl rfl rfl rfl h.settled rfl

private theorem effectFlow_opened (limits : Limits) (epoch : Nat) (protocol : ρ) (media : μ) :
    EffectFlow [] (Driver.opened limits epoch protocol media : Driver ρ μ κ) := by
  constructor
  · exact fun e he => absurd he List.not_mem_nil
  · exact .nil
  · exact fun _ => rfl
  · rfl
  · rfl
  · exact fun e he => absurd he List.not_mem_nil
  · exact fun e he => absurd he List.not_mem_nil
  · exact fun _ _ => ⟨rfl, rfl⟩
  · exact fun e he => absurd he List.not_mem_nil
  · exact fun e he => absurd he List.not_mem_nil
  · exact fun e he => absurd he List.not_mem_nil
  · exact fun hmem => absurd hmem List.not_mem_nil
  · exact fun _ => ⟨rfl, rfl, rfl⟩

/-- The order of effects in a run of the driver. -/
structure Ordered (happened : List Happened) (d : Driver ρ μ κ) : Prop where
  /-- Writes finish in the order they start in, and at most one has not finished. -/
  oneWrite : startedWrites happened = finishedWrites happened ++ d.write.toList
  /-- The effects of a batch are performed once each and in the order they were returned in;
  those that were not are queued, in this order. -/
  inOrder : ∀ batch, (performedEffects happened).filter (·.batch = batch) ++
    d.queued.filter (·.batch = batch) = (returnedEffects happened).filter (·.batch = batch)
  /-- A driver that ends without an error has performed all of them. -/
  complete : .finished ∈ happened → ∀ batch,
    (performedEffects happened).filter (·.batch = batch) =
      (returnedEffects happened).filter (·.batch = batch)
  /-- Where a command's effect is performed, the sends before it in its batch are written. -/
  sendFirst : ∀ e₀ ∈ returnedEffects happened, ∀ e ∈ performedEffects happened,
    e₀.batch = e.batch → e₀.index < e.index → e.source = .command →
      isSend e₀.action = true → .control e₀ ∈ finishedWrites happened
  /-- Where an effect behind a drain of its batch is performed, all input that was accepted is
  written, or taken and discarded by the media mapping. -/
  drainFirst : ∀ e₀ ∈ returnedEffects happened, ∀ e ∈ performedEffects happened,
    e₀.batch = e.batch → e₀.index < e.index → e₀.action = .drainInput →
      acceptedInput happened = consumedInput happened

/-- In every run of the driver, whatever protocol, media mapping and connection policy are
injected and in whatever order commands, frames, packets, writes and disconnects come. -/
theorem webrtc_effects_ordered (s : WebRtcSession ρ μ κ) (limits : Limits) (epoch : Nat)
    (protocol : ρ) (media : μ) {happened : List Happened} {d : Driver ρ μ κ}
    (hrun : Trace (Acts s) (Driver.opened limits epoch protocol media) happened d) :
    Ordered happened d := by
  have h : EffectFlow happened d :=
    hrun.invariant (effectFlow_opened limits epoch protocol media) EffectFlow.step
  constructor
  · exact h.writes
  · exact h.order
  · intro hfinished batch
    rw [← h.order batch, (h.complete hfinished).1]
    simp
  · intro e₀ he₀ e he hbatch hindex hsource hsend
    have hdone := h.earlier_performed he₀ he hbatch hindex
    exact h.sends e₀ hdone e he hbatch hindex (by simp [hsource]) hsend
  · intro e₀ he₀ e he hbatch hindex hdrain
    have hdone := h.earlier_performed he₀ he hbatch hindex
    obtain ⟨hinput, hwrite⟩ := h.drains e₀ hdone e he hbatch hindex hdrain
    have hflow := h.input
    rwa [hinput, hwrite, List.append_nil, List.append_nil] at hflow

def sampleActions : List Action := [.connect .null .deadline, .drainInput, .event (.ready 0)]

def sampleCommandSends : List Action := [.send "one", .send "two"]

/-- A session that connects, drains its input and reports ready, and sends twice for a command.
Its media mapping sends nothing for an empty packet. -/
def sampleWebRtc : WebRtcSession Unit Unit Unit where
  sessionId := "session"
  audioInput := true
  commandHeadroom := 8
  chunkLimit := 1024
  initial := fun _ => .ok (sampleActions, ())
  commandsAllowed := fun _ => true
  inputAllowed := fun _ => false
  draining := fun _ => false
  finished := fun _ => false
  closed := fun _ => false
  command := fun _ _ => .ok (sampleCommandSends, ())
  receive := fun _ _ => .ok ([], ())
  finalize := fun _ => .ok ([], ())
  input := fun chunk _ => .ok (if chunk.bytes = [] then none else some 20, ())
  receiveAudio := fun _ _ => .ok (none, ())
  finish := fun _ => (none, ())
  evaluate := fun _ _ => .ok ⟨true, true⟩

def emptyPacket : MediaChunk where
  sessionId := "session"
  streamId := "stream"
  epoch := 0
  sequence := 0
  timestampUs := 0
  mediaType := "audio/opus"
  bytes := []
  endOfStream := false

def drainedDriver (outputs : Outputs) : Driver Unit Unit Unit :=
  { (Driver.opened sampleLimits 0 () () : Driver Unit Unit Unit) with
    outputs, peer := some ⟨[], [], none, ()⟩, inputClosed := true, batches := 1 }

/-- An empty packet is accepted, the batch is performed up to the drain, the packet is taken,
and the rest of the batch is performed. -/
private theorem drained_run :
    ∃ (happened : List Happened) (outputs : Outputs),
      Trace (Acts sampleWebRtc) (Driver.opened sampleLimits 0 () ()) happened
          (drainedDriver outputs) ∧
        outputs.commandsAllowed 8 = true ∧
        performedEffects happened = effects 0 .initial sampleActions ∧
        acceptedInput happened = [emptyPacket] ∧ finishedWrites happened = [] := by
  have haccepted : Trace (Acts sampleWebRtc) (Driver.opened sampleLimits 0 () ()) _ _ :=
    .next .start (@Acts.accept _ _ _ _ _ emptyPacket rfl rfl rfl rfl)
  have hstarted := haccepted.next (.initial rfl rfl)
  have hconnected := hstarted.next
    (@Acts.advance _ _ _ _ _ _ (.ok ⟨[], [], none, ()⟩) _ (by decide) rfl rfl rfl)
  have hdrained := hconnected.next
    (@Acts.advance _ _ _ _ _ _ (.error .deadline) _ (by decide) rfl rfl rfl)
  have hdiscarded := hdrained.next
    (.input ⟨by decide, rfl, rfl, fun _ => rfl, by simp [sampleWebRtc], rfl, rfl⟩ rfl rfl rfl
      (.inl rfl) rfl rfl)
  have hresumed := hdiscarded.next (.resume (by decide) rfl rfl rfl)
  have hperformed := hresumed.next
    (@Acts.advance _ _ _ _ _ _ (.error .deadline) _ (by decide) rfl rfl rfl)
  exact ⟨_, _, hperformed, rfl, rfl, rfl, rfl⟩

/-- A command is taken, its first send is performed and written, and its second performed. -/
private theorem commanded_run :
    ∃ (happened : List Happened) (d : Driver Unit Unit Unit),
      Trace (Acts sampleWebRtc) (Driver.opened sampleLimits 0 () ()) happened d ∧
        performedEffects happened =
          effects 0 .initial sampleActions ++ effects 1 .command sampleCommandSends ∧
        finishedWrites happened = [.control ⟨1, 0, .command, .send "one"⟩] := by
  obtain ⟨happened, outputs, hdrained, hallowed, hperformed, -, hwritten⟩ := drained_run
  have hselect : (drainedDriver outputs).Selecting sampleWebRtc :=
    ⟨Nat.one_pos, rfl, rfl, fun _ => rfl, by simp [sampleWebRtc], rfl, rfl⟩
  have htaken := hdrained.next (@Acts.command _ _ _ _ _ _ ⟨"command", .close⟩ _ _ hselect rfl rfl
    ⟨rfl, rfl, hallowed⟩ rfl)
  have hsent := htaken.next
    (@Acts.advance _ _ _ _ _ _ (.error .deadline) _ Nat.two_pos rfl rfl rfl)
  have hwrote := hsent.next
    (.written ⟨Nat.two_pos, rfl, rfl, fun _ => rfl, by simp [sampleWebRtc], rfl, rfl⟩ rfl rfl)
  have hdone := hwrote.next
    (@Acts.advance _ _ _ _ _ _ (.error .deadline) _ Nat.two_pos rfl rfl rfl)
  refine ⟨_, _, hdone, ?_, ?_⟩
  · simp only [performedEffects_append, hperformed]
    rfl
  · simp only [finishedWrites_append, hwritten]
    rfl

theorem drained_run_ordered :
    ∃ (happened : List Happened) (d : Driver Unit Unit Unit),
      performedEffects happened =
          effects 0 .initial sampleActions ++ effects 1 .command sampleCommandSends ∧
        finishedWrites happened = [.control ⟨1, 0, .command, .send "one"⟩] ∧
        Ordered happened d := by
  obtain ⟨happened, d, hrun, hperformed, hwritten⟩ := commanded_run
  exact ⟨happened, d, hperformed, hwritten,
    webrtc_effects_ordered sampleWebRtc sampleLimits 0 () () hrun⟩

/-- The batch behind the drain is performed although the accepted packet is never written. -/
theorem drain_passes_discarded :
    ∃ (happened : List Happened) (d : Driver Unit Unit Unit),
      Trace (Acts sampleWebRtc) (Driver.opened sampleLimits 0 () ()) happened d ∧
        (∃ e₀ ∈ performedEffects happened, ∃ e ∈ performedEffects happened,
          e₀.batch = e.batch ∧ e₀.index < e.index ∧ e₀.action = .drainInput) ∧
        acceptedInput happened = [emptyPacket] ∧ finishedWrites happened = [] := by
  obtain ⟨happened, outputs, hrun, -, hperformed, haccepted, hwritten⟩ := drained_run
  refine ⟨happened, _, hrun, ?_, haccepted, hwritten⟩
  rw [hperformed]
  exact ⟨⟨0, 1, .initial, .drainInput⟩, by decide, ⟨0, 2, .initial, .event (.ready 0)⟩,
    by decide, rfl, by decide, rfl⟩

end Zhir.Models
