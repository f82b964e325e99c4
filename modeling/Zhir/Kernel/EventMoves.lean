import Zhir.Core.Validity
import Zhir.Kernel.OperationMoves

/-!
Session events as moves. Collecting a batch only touches the engine's memory; its commit
is one move.
-/

set_option autoImplicit false
set_option relaxedAutoImplicit false

namespace Zhir.Kernel

open Zhir.Core
open Zhir.Library (Program)
open Zhir.Library.Program
open Relation (ReflTransGen)

variable {cfg : Config} {cause : Cause} {fault : Engine → Error → Engine → Prop} {e : Engine}
  {w : World}

theorem Staged.snoc {n m k : Nat} {c c' c'' : Checkpoint} {events : List SessionEvent}
    {event : SessionEvent} (h : Staged cfg e n c events m c') (hm : m ≤ k)
    (hstage : stageEvent cfg e event.body (cfg.name k) (cfg.name (k + 1))
      (withSequence event.sequence c') = .ok c'') :
    Staged cfg e n c (events ++ [event]) (k + 2) c'' := by
  induction h with
  | nil hn => exact .cons (hn.trans hm) hstage (.nil le_rfl)
  | cons hk hfirst hrest ih => exact .cons hk hfirst (ih hm hstage)

private theorem Staged.weaken {n m k : Nat} {c c' : Checkpoint} {events : List SessionEvent}
    (h : Staged cfg e n c events m c') (hm : m ≤ k) : Staged cfg e n c events k c' := by
  induction h with
  | nil hn => exact .nil (hn.trans hm)
  | cons hk hfirst hrest ih => exact .cons hk hfirst (ih hm)

/-- The engine with what collecting session events may change. -/
def Engine.collecting (w : World) (sent : List String) (queue : List Work)
    (stashed : Option Work) (sequence : Option Nat) (mediaClosed : Bool) (e : Engine) : Engine :=
  { e with world := w, sent, queue, stashed, sessionSequence := sequence, mediaClosed }

/-- The state after some events of the queue were applied to a batch. -/
structure Collected (cfg : Config) (e : Engine) (events : List SessionEvent) (next : Checkpoint)
    (e' : Engine) : Prop where
  engine : ∃ sequence mediaClosed, e' = e.collecting e'.world
    (e.sent.filter (· ∉ acknowledgedIds events)) e'.queue e'.stashed sequence mediaClosed
  counted : e.world.Counted e'.world
  staged : Staged cfg e e.world.names e.current events e'.world.names next
  queue : ∃ taken, e.queue = taken ++ e'.stashed.toList ++ e'.queue ∧
    ∀ work ∈ taken, ∃ event, work = .model (.ok (some event))

namespace Collected

variable {events : List SessionEvent} {next : Checkpoint} {e' : Engine}

theorem start (cfg : Config) (hstashed : e.stashed = none) : Collected cfg e [] e.current e where
  engine := ⟨e.sessionSequence, e.mediaClosed, by simp [Engine.collecting, acknowledgedIds]⟩
  counted := World.Counted.refl _
  staged := .nil le_rfl
  queue := ⟨[], by simp [hstashed], by simp⟩

theorem current (h : Collected cfg e events next e') : e'.current = e.current := by
  obtain ⟨sequence, mediaClosed, h⟩ := h.engine
  rw [h]
  rfl

theorem sessionControl (h : Collected cfg e events next e') :
    e'.sessionControl = e.sessionControl := by
  obtain ⟨sequence, mediaClosed, h⟩ := h.engine
  rw [h]
  rfl

theorem catalog (h : Collected cfg e events next e') : e'.catalog = e.catalog := by
  obtain ⟨sequence, mediaClosed, h⟩ := h.engine
  rw [h]
  rfl

theorem tasks (h : Collected cfg e events next e') : e'.tasks = e.tasks := by
  obtain ⟨sequence, mediaClosed, h⟩ := h.engine
  rw [h]
  rfl

theorem sequenced (h : Collected cfg e events next e') (sequence : Option Nat) :
    Collected cfg e events next { e' with sessionSequence := sequence } where
  engine := by
    obtain ⟨_, mediaClosed, h⟩ := h.engine
    refine ⟨sequence, mediaClosed, ?_⟩
    rw [h]
    rfl
  counted := h.counted
  staged := h.staged
  queue := h.queue

private theorem dequeued (h : Collected cfg e events next e') {work : Work} {rest : List Work}
    (hqueue : e'.queue = work :: rest) (hstashed : e'.stashed = none)
    (hwork : ∃ event, work = .model (.ok (some event))) :
    Collected cfg e events next { e' with queue := rest } where
  engine := by
    obtain ⟨sequence, mediaClosed, h⟩ := h.engine
    refine ⟨sequence, mediaClosed, ?_⟩
    rw [h]
    rfl
  counted := h.counted
  staged := h.staged
  queue := by
    obtain ⟨taken, htaken, hmem⟩ := h.queue
    refine ⟨taken ++ [work], by simpa [hstashed, hqueue] using htaken, ?_⟩
    intro other hother
    rcases List.mem_append.mp hother with hother | hother
    · exact hmem other hother
    · exact List.mem_singleton.mp hother ▸ hwork

theorem stashed (h : Collected cfg e events next e') {work : Work} {rest : List Work}
    (hqueue : e'.queue = work :: rest) (hstashed : e'.stashed = none) :
    Collected cfg e events next { e' with queue := rest, stashed := some work } where
  engine := by
    obtain ⟨sequence, mediaClosed, h⟩ := h.engine
    refine ⟨sequence, mediaClosed, ?_⟩
    rw [h]
    rfl
  counted := h.counted
  staged := h.staged
  queue := by
    obtain ⟨taken, htaken, hmem⟩ := h.queue
    exact ⟨taken, by simpa [hstashed, hqueue] using htaken, hmem⟩

theorem counting (h : Collected cfg e events next e') {w : World}
    (hw : e'.world.Counted w) :
    Collected cfg e events next { e' with world := w } where
  engine := by
    obtain ⟨sequence, mediaClosed, h⟩ := h.engine
    refine ⟨sequence, mediaClosed, ?_⟩
    rw [h]
    rfl
  counted := h.counted.trans hw
  staged := h.staged.weaken hw.names
  queue := h.queue

end Collected

private theorem acknowledgedIds_append (events : List SessionEvent) (event : SessionEvent) :
    acknowledgedIds (events ++ [event]) = acknowledgedIds events ++ acknowledgedIds [event] := by
  simp [acknowledgedIds]

private theorem noteEvent_eq (event : SessionEvent) (e : Engine) :
    ∃ mediaClosed, e.noteEvent event.body =
      { e with sent := e.sent.filter (· ∉ acknowledgedIds [event]), mediaClosed } := by
  unfold Engine.noteEvent acknowledgedIds
  split
  · exact ⟨e.mediaClosed, by simp [*]⟩
  · exact ⟨true, by simp [*, Engine.closeMedia]⟩
  · refine ⟨e.mediaClosed, ?_⟩
    rename_i hack hclosed
    cases hbody : event.body <;> simp_all

private theorem noteEvent_queue (body : SessionEventBody) (e : Engine) :
    (e.noteEvent body).queue = e.queue := by
  unfold Engine.noteEvent
  split <;> rfl

private theorem noteEvent_stashed (body : SessionEventBody) (e : Engine) :
    (e.noteEvent body).stashed = e.stashed := by
  unfold Engine.noteEvent
  split <;> rfl

private theorem stageEvent_congr {e e' : Engine} (hcontrol : e'.sessionControl = e.sessionControl)
    (hcurrent : e'.current = e.current) (hcatalog : e'.catalog = e.catalog) :
    stageEvent cfg e' = stageEvent cfg e := by
  have hcapabilities : e'.capabilities cfg = e.capabilities cfg := by
    simp only [Engine.capabilities, hcontrol, hcurrent]
  have hnegotiated : e'.negotiated cfg = e.negotiated cfg := by
    funext entries profile
    simp only [Engine.negotiated, Engine.negotiate, Engine.modelRequest, hcontrol, hcurrent,
      hcatalog]
  funext body operationId commandId next
  simp only [stageEvent, hcapabilities, hnegotiated]

/-- The supplies after both identities of an event were taken. -/
def World.named (w : World) : World := { w with names := w.names + 2 }

private theorem run_applyEvent (sequence : Nat) (body : SessionEventBody) (next : Checkpoint)
    (e : Engine) :
    Program.run (applyEvent cfg sequence body next) e =
      match stageEvent cfg e body (cfg.name e.world.names) (cfg.name (e.world.names + 1))
        (withSequence sequence next) with
      | .error error => (.error error, e.inWorld e.world.named)
      | .ok after =>
        (.ok (after, eventEffects (e.capabilities cfg) body (withSequence sequence next) after),
          (e.inWorld e.world.named).noteEvent body) := by
  change Program.run (Program.lift (stageEvent cfg (e.inWorld e.world.named) body
      (cfg.name e.world.names) (cfg.name (e.world.names + 1)) (withSequence sequence next)) >>=
    fun after => Program.modify (Engine.noteEvent body) >>= fun _ =>
      pure (after, eventEffects (e.capabilities cfg) body (withSequence sequence next) after))
    (e.inWorld e.world.named) = _
  have hcongr : stageEvent cfg (e.inWorld e.world.named) = stageEvent cfg e :=
    stageEvent_congr rfl rfl rfl
  rw [hcongr]
  rcases stageEvent cfg e body (cfg.name e.world.names) (cfg.name (e.world.names + 1))
      (withSequence sequence next) with error | after <;> rfl

namespace Collected

variable {events : List SessionEvent} {next after : Checkpoint} {e' : Engine}

private theorem unstaged (h : Collected cfg e events next e') :
    Collected cfg e events next (e'.inWorld e'.world.named) :=
  h.counting ⟨rfl, rfl, Nat.le_add_right _ _, le_rfl⟩

theorem applied (h : Collected cfg e events next e') {event : SessionEvent}
    (hstage : stageEvent cfg e' event.body (cfg.name e'.world.names)
      (cfg.name (e'.world.names + 1)) (withSequence event.sequence next) = .ok after) :
    Collected cfg e (events ++ [event]) after
      ((e'.inWorld e'.world.named).noteEvent event.body) := by
  obtain ⟨closed, hnote⟩ := noteEvent_eq event (e'.inWorld e'.world.named)
  rw [stageEvent_congr h.sessionControl h.current h.catalog] at hstage
  rw [hnote]
  refine ⟨?_, h.counted.trans ⟨rfl, rfl, Nat.le_add_right _ _, le_rfl⟩,
    h.staged.snoc le_rfl hstage, h.queue⟩
  obtain ⟨sequence, mediaClosed, heq⟩ := h.engine
  have hsent : e'.sent = e.sent.filter (· ∉ acknowledgedIds events) := by
    rw [heq]
    rfl
  have hfilter : (e'.sent.filter (· ∉ acknowledgedIds [event])) =
      e.sent.filter (· ∉ acknowledgedIds (events ++ [event])) := by
    rw [hsent, List.filter_filter, acknowledgedIds_append]
    refine List.filter_congr fun id _ => ?_
    simp [Bool.and_comm]
  rw [← hfilter]
  generalize e'.world = w₀, e'.queue = queue, e'.stashed = stashed at heq
  subst heq
  exact ⟨sequence, closed, rfl⟩

private theorem batched (h : Collected cfg e events next e') {event : SessionEvent}
    (hopen : events ≠ [] → next.state.active = true)
    (hquiet : ∀ event ∈ events, reportsProvider event.body = false)
    (hstage : stageEvent cfg e' event.body (cfg.name e'.world.names)
      (cfg.name (e'.world.names + 1)) (withSequence event.sequence next) = .ok after) :
    Batched cfg e e.world.names e.current (events ++ [event]) after := by
  rw [stageEvent_congr h.sessionControl h.current h.catalog] at hstage
  exact .last h.staged hopen hquiet hstage

end Collected

private theorem providerState_eventEffects (capabilities : CapabilitySet) (body : SessionEventBody)
    (before after : Checkpoint) :
    (eventEffects capabilities body before after).providerState = reportsProvider body := by
  cases body with
  | output generationId itemId callerId output => cases output <;> rfl
  | _ => rfl

private theorem run_freshSequence (sequence : Nat) (e : Engine) :
    Program.run (freshSequence sequence) e =
      if e.sessionSequence.all (fun previous => sequence > previous) then
        (.ok (e.current.active.session.lastSequence.all fun previous => sequence > previous),
          { e with sessionSequence := some sequence })
      else (.error (.protocol "session event sequence did not increase"), e) := by
  unfold freshSequence
  rw [run_bind, run_read]
  change Program.run (Program.require _ _ >>= _) e = _
  rw [run_bind, run_require]
  by_cases h : (e.sessionSequence.all fun previous => decide (sequence > previous)) = true
  · simp only [h, if_true]
    rfl
  · simp only [h, if_false, Bool.false_eq_true]

/-- The batch that collecting ends with, whatever stopped it. -/
structure Gathered (cfg : Config) (e : Engine) (batch : SessionBatch) (e' : Engine) : Prop where
  collected : ∃ events, Collected cfg e events (batch.base e.current) e' ∧
    Batched cfg e e.world.names e.current events (batch.base e.current) ∧
    (batch.effects.providerState = false → ∀ event ∈ events, reportsProvider event.body = false)
  staged : batch.staged.isSome = true

theorem Gathered.add {batch : SessionBatch} {events : List SessionEvent} {after : Checkpoint}
    {event : SessionEvent} {e' e'' : Engine}
    (hcollected : Collected cfg e events (batch.base e.current) e')
    (hquiet : batch.effects.providerState = false →
      ∀ event ∈ events, reportsProvider event.body = false)
    (hopen : events ≠ [] → (batch.base e.current).state.active = true)
    (hprovider : batch.effects.providerState = false)
    (hstage : stageEvent cfg e' event.body (cfg.name e'.world.names)
      (cfg.name (e'.world.names + 1)) (withSequence event.sequence (batch.base e.current)) =
        .ok after)
    {effects : EventEffects} (heffects : effects.providerState = reportsProvider event.body)
    (happlied : Collected cfg e (events ++ [event]) after e'') :
    Gathered cfg e (batch.add event.sequence (after, effects)) e'' := by
  refine ⟨⟨events ++ [event], happlied, hcollected.batched hopen (hquiet hprovider) hstage, ?_⟩,
    rfl⟩
  intro hadded other hother
  simp only [SessionBatch.add, hprovider, heffects, Bool.false_or] at hadded
  rcases List.mem_append.mp hother with hother | hother
  · exact hquiet hprovider other hother
  · rw [List.mem_singleton.mp hother]
    exact hadded

private theorem SessionBatch.open_of_not_closed {batch : SessionBatch} {c : Checkpoint}
    (hclosed : batch.closed = false) (hstaged : batch.staged.isSome = true) :
    (batch.base c).state.active = true ∧ batch.effects.providerState = false := by
  obtain ⟨⟨next, sequence⟩, hbatch⟩ := Option.isSome_iff_exists.mp hstaged
  simp only [SessionBatch.closed, Bool.or_eq_false_iff, hbatch, Option.any_some,
    Bool.not_eq_false'] at hclosed
  refine ⟨?_, hclosed.1.2⟩
  simpa [SessionBatch.base, hbatch] using hclosed.2

private theorem run_collectQueued (cfg : Config) (works : List Work) :
    ∀ (batch : SessionBatch) (e' : Engine), Gathered cfg e batch e' → e'.queue = works →
      e'.stashed = none → ∃ batch' result e'',
        Program.run (collectQueued cfg batch works) e' = (.ok (batch', result), e'') ∧
          Gathered cfg e batch' e'' := by
  induction works with
  | nil => exact fun batch e' h _ _ => ⟨batch, .ok (), e', rfl, h⟩
  | cons work rest ih =>
    intro batch e' h hqueue hstashed
    obtain ⟨events, hcollected, hbatched, hquiet⟩ := h.collected
    simp only [collectQueued, run_bind, run_read, run_ite]
    split
    · exact ⟨batch, .ok (), e', rfl, h⟩
    · rename_i hgoes
      simp only [not_or, Bool.not_eq_true] at hgoes
      obtain ⟨hactive, hprovider⟩ :=
        SessionBatch.open_of_not_closed (c := e.current) hgoes.1 h.staged
      simp only [run_modify]
      cases hwork : batchableEvent work with
      | none => 
        exact ⟨batch, .ok (), _, rfl,
          ⟨events, hcollected.stashed hqueue hstashed, hbatched, hquiet⟩, h.staged⟩
      | some event =>
        have hevent : ∃ event, work = .model (.ok (some event)) := by
          unfold batchableEvent at hwork
          split at hwork
          · exact ⟨_, rfl⟩
          · cases hwork
        have hdequeued := hcollected.dequeued hqueue hstashed hevent
        have hfresh := run_freshSequence event.sequence (e'.setQueue rest)
        split at hfresh
        · have hsequenced := hdequeued.sequenced (some event.sequence)
          generalize hold : ((e'.setQueue rest).current.active.session.lastSequence.all
            fun previous => decide (event.sequence > previous)) = fresh at hfresh
          simp only [run_bind, run_attempt, hfresh]
          cases fresh with
          | false => 
            exact ih batch _ ⟨⟨events, hsequenced, hbatched, hquiet⟩, h.staged⟩ rfl hstashed
          | true =>
            have happly := @run_applyEvent cfg event.sequence event.body
              (batch.base e'.current)
              { e'.setQueue rest with sessionSequence := some event.sequence }
            split at happly
            · simp only [run_bind, run_attempt, happly]
              exact ⟨batch, _, _, rfl, ⟨events, hsequenced.unstaged, hbatched, hquiet⟩, h.staged⟩
            · rename_i after hstage
              simp only [run_bind, run_attempt, happly]
              rw [hcollected.current] at hstage
              have happlied := hsequenced.applied hstage
              exact ih (batch.add event.sequence (after, _)) _
                (.add hsequenced hquiet (fun _ => hactive) hprovider hstage
                  (providerState_eventEffects _ _ _ _) happlied) (noteEvent_queue _ _)
                ((noteEvent_stashed _ _).trans hstashed)
        · simp only [run_bind, run_attempt, hfresh]
          exact ⟨batch, _, _, rfl, ⟨events, hdequeued, hbatched, hquiet⟩, h.staged⟩

private theorem run_collect (cfg : Config) (event : SessionEvent) (hstashed : e.stashed = none) :
    ∃ batch result e', Program.run (collect cfg event.sequence event.body) e =
        (.ok (batch, result), e') ∧
      (Gathered cfg e batch e' ∨
        batch.staged = none ∧ (∃ error, result = .error error) ∧
          Collected cfg e [] e.current e') := by
  have hstart := Collected.start cfg hstashed
  have happly := @run_applyEvent cfg event.sequence event.body e.current e
  simp only [collect, run_bind, run_read, run_attempt]
  split at happly
  · rw [happly]
    exact ⟨{}, _, _, rfl, .inr ⟨rfl, ⟨_, rfl⟩, hstart.unstaged⟩⟩
  · rename_i after hstage
    rw [happly]
    obtain ⟨batch, result, e', hrun, hgathered⟩ := run_collectQueued cfg e.queue
      (SessionBatch.add {} event.sequence (after, eventEffects (e.capabilities cfg) event.body
        (withSequence event.sequence e.current) after))
      ((e.inWorld e.world.named).noteEvent event.body)
      (.add hstart (fun _ _ hnone => by cases hnone) (fun hnone => absurd rfl hnone) rfl hstage
        (providerState_eventEffects _ _ _ _) (hstart.applied hstage)) (noteEvent_queue _ _)
      ((noteEvent_stashed _ _).trans hstashed)
    exact ⟨batch, result, e', hrun, .inl hgathered⟩

private theorem chains_commitBatch_bind {α : Type} {batch : SessionBatch} {e' : Engine}
    {f : Unit → Handler α} {first : SessionEvent} (hgathered : Gathered cfg e batch e')
    (hhandling : e.handling = some (.model (.ok (some first)))) (hstashed : e.stashed = none)
    (hf : ∀ e₁, Move cfg cause e e₁ →
      Steps cfg cause (Fault cfg cause) e₁ (f ()) e₁.world) :
    Chains (Move cfg cause) (Fault cfg cause) e (commitBatch cfg batch >>= f) e' := by
  obtain ⟨⟨events, hcollected, hbatched, -⟩, hstaged⟩ := hgathered
  obtain ⟨⟨next, sequence⟩, hbatch⟩ := Option.isSome_iff_exists.mp hstaged
  have hbase : batch.base e.current = next := by simp [SessionBatch.base, hbatch]
  rw [hbase] at hcollected hbatched
  simp only [commitBatch, hbatch, commitSession, bind_assoc]
  have hstopped : ∀ error {e'' : Engine}, e''.current = e'.current → e''.tasks = e'.tasks →
      e'.world.Counted e''.world → Fault cfg cause e error e'' := fun error e'' hc ht hw =>
    .stopped (hc.trans hcollected.current) (ht.trans hcollected.tasks)
      (hcollected.counted.trans hw)
  refine chains_read_bind ?_
  refine chains_lift_bind (fun error _ => ⟨e, .refl, hstopped error rfl rfl (.refl _)⟩)
    fun entries _ => ?_
  obtain ⟨oldSequence, mediaClosed, heq⟩ := hcollected.engine
  have hmove : Accepts cfg e'.world e'.current next
      (.session e'.current.active.session.id sequence) (batchDelta entries) →
      Move cfg cause e
        (e'.saved cfg e'.world next (.session e'.current.active.session.id sequence)) := by
    intro haccepts
    rw [hcollected.current] at haccepts ⊢
    have hsaved : e'.saved cfg e'.world next (.session e.current.active.session.id sequence) =
        { e.saved cfg e'.world next (.session e.current.active.session.id sequence) with
          sent := e.sent.filter (· ∉ acknowledgedIds events), queue := e'.queue
          stashed := e'.stashed, sessionSequence := oldSequence, mediaClosed } := by
      generalize e'.world = w₀, e'.queue = queue, e'.stashed = stashed at heq
      subst heq
      rfl
    rw [hsaved]
    exact .batch hcollected.counted hcollected.staged haccepts hbatched ⟨sequence, rfl⟩ hhandling
      hcollected.queue hstashed
  rcases run_commit cfg e' next (.session e'.current.active.session.id sequence)
      (batchDelta entries) with ⟨error, w', hw', hr⟩ | ⟨haccepts, hr | hr⟩
  · refine chains_bind_quiet ?_ ?_ <;> intro a s' hr' <;> rw [hr] at hr' <;> cases hr'
    exact ⟨e, .refl, hstopped _ rfl rfl hw'⟩
  · refine chains_bind_quiet ?_ ?_ <;> intro a s' hr' <;> rw [hr] at hr' <;> cases hr'
    exact Chains.after (.single (hmove haccepts)) (hf _ (hmove haccepts))
  · refine chains_bind_quiet ?_ ?_ <;> intro a s' hr' <;> rw [hr] at hr' <;> cases hr'
    exact ⟨e, .refl, .unconfirmed (hmove haccepts) hcollected.current hcollected.tasks rfl⟩

private theorem steps_sessionBatch (event : SessionEvent) {first : SessionEvent}
    (hhandling : e.handling = some (.model (.ok (some first)))) (hstashed : e.stashed = none) :
    Steps cfg cause (Fault cfg cause) e (sessionBatch cfg event.sequence event.body) e.world := by
  have hfault := fault_failing cfg cause
  obtain ⟨batch, result, e', hrun, hcollected⟩ := run_collect cfg event hstashed
  refine chains_bind_quiet ?_ ?_ <;> intro a s' hr <;>
    rw [Engine.inWorld_self, hrun] at hr <;> cases hr
  rcases hcollected with hgathered | ⟨hnone, ⟨error, herror⟩, hcollected⟩
  · refine chains_commitBatch_bind hgathered hhandling hstashed fun e₁ hmove => ?_
    refine steps_lift_bind hfault (.refl _) fun _ _ => ?_
    refine steps_when_bind (fun _ => ?_) fun _ => ?_
    · refine steps_modify_bind (.single .closeMedia) ?_
      exact steps_when (.refl _) fun _ => steps_suspend hfault (.refl _) _
    · exact steps_when (.refl _) fun _ => steps_suspend hfault (.refl _) _
  · simp only [commitBatch, hnone, herror]
    refine chains_bind_quiet ?_ ?_ <;> intro a s' hr <;> cases hr
    refine chains_bind_quiet ?_ ?_ <;> intro a s' hr <;> cases hr
    exact ⟨e, .refl, .stopped hcollected.current hcollected.tasks hcollected.counted⟩

private theorem steps_commitSequence (hfault : Failing cfg cause fault) (hw : e.world.Counted w)
    (sequence : Nat) : Steps cfg cause fault e (commitSequence cfg sequence) w :=
  steps_read_bind (steps_save hfault hw .sequence)

private theorem operationOf_some {origin : CallRef} {c : Checkpoint} {record : OperationRecord}
    (h : operationOf origin c = some record) :
    ∃ id : OperationId, c.active.operations[id]? = some record ∧ record.origin = origin := by
  have hmem := List.mem_of_find?_eq_some h
  obtain ⟨⟨id, op⟩, hop, rfl⟩ := List.mem_map.mp hmem
  refine ⟨id, Std.ExtTreeMap.mem_toList_iff_getElem?_eq_some.mp hop, ?_⟩
  simpa using List.find?_some h

private theorem steps_providerEvent (hfault : Failing cfg cause fault) (hvalid : e.current.Valid)
    (sequence : Nat) (origin : CallRef) (event : OperationEvent) :
    Steps cfg cause fault e (providerEvent cfg sequence origin event) e.world := by
  refine steps_read_bind ?_
  split
  · split
    · exact steps_bind (steps_finish hfault (.refl _) _ _)
        fun _ _ _ _ => steps_commitSequence hfault (.refl _) _
    · exact steps_fail hfault (.refl _)
  · rename_i record hrecord
    refine steps_require_bind hfault (.refl _) fun hhost => ?_
    refine steps_require_bind hfault (.refl _) fun _ => ?_
    refine steps_bind (steps_operationEvent hfault (.refl _) ?_)
      fun _ _ _ _ => steps_commitSequence hfault (.refl _) _
    intro other hother howner
    obtain ⟨id, hid, -⟩ := operationOf_some hrecord
    have hsame : other = record := by
      rw [(hvalid.operations id record hid).key] at hother
      exact Option.some.inj (hother.symm.trans hid)
    rw [hsame, hhost] at howner
    cases howner

theorem steps_modelEvent {event : SessionEvent} (hvalid : e.current.Valid)
    (hhandling : e.handling = some (.model (.ok (some event)))) (hstashed : e.stashed = none) :
    Steps cfg cause (Fault cfg cause) e (modelEvent cfg event) e.world := by
  have hfault := fault_failing cfg cause
  have hfresh := run_freshSequence event.sequence e
  unfold modelEvent
  split at hfresh
  · refine chains_bind_quiet ?_ ?_ <;> intro a s' hr <;>
      rw [Engine.inWorld_self, hfresh] at hr <;> cases hr
    have hmove : Move cfg cause e { e with sessionSequence := some event.sequence } := .sequence
    refine Chains.after (.single hmove) ?_
    generalize hnext : ({ e with sessionSequence := some event.sequence } : Engine) = e₁
    have hvalid₁ : e₁.current.Valid := by rwa [← hnext]
    have hhandling₁ : e₁.handling = some (.model (.ok (some event))) := by rwa [← hnext]
    have hstashed₁ : e₁.stashed = none := by rwa [← hnext]
    refine chains_ite (fun _ => ?_) fun _ => chains_pure .refl
    split
    · exact chains_pure .refl
    · exact steps_providerEvent hfault hvalid₁ _ _ _
    · exact steps_sessionBatch event hhandling₁ hstashed₁
  · refine chains_bind_quiet ?_ ?_ <;> intro a s' hr <;>
      rw [Engine.inWorld_self, hfresh] at hr <;> cases hr
    exact ⟨e, .refl, hfault.clean _ _⟩

end Zhir.Kernel
