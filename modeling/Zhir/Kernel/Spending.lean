import Zhir.Kernel.Budgets

/-!
What reaches the outside has been paid for: every generation request that is submitted and
every tool call that is started was counted by a durable checkpoint before.
-/

set_option autoImplicit false
set_option relaxedAutoImplicit false

namespace Zhir.Kernel

open Zhir.Core
open Zhir.Library (Program)

variable {cfg : Config} {e e' : Engine} {cause : Cause} {w w' : World} {c c' next : Checkpoint}

def requests (c : Checkpoint) : List String :=
  (c.active.commands.filter fun p => p.intent.isGenerate).map PendingCommand.id

private theorem mem_requests {id : String} :
    id ∈ requests c ↔ ∃ p ∈ c.active.commands, p.intent.isGenerate = true ∧ p.id = id := by
  unfold requests
  simp only [List.mem_map, List.mem_filter]
  constructor
  · rintro ⟨p, ⟨hp, hgenerate⟩, hid⟩
    exact ⟨p, hp, hgenerate, hid⟩
  · rintro ⟨p, hp, hgenerate, hid⟩
    exact ⟨p, ⟨hp, hgenerate⟩, hid⟩

private theorem requests_retired (h : c'.active.commands.Sublist c.active.commands) :
    requests c' ⊆ requests c :=
  ((h.filter _).map _).subset

private theorem requests_same (h : c'.active.commands = c.active.commands) :
    requests c' ⊆ requests c := by
  refine requests_retired ?_
  rw [h]

private theorem requests_pushed {id : String} {intent : CommandIntent} {sent : Bool}
    (hother : intent.isGenerate = false)
    (h : c'.active.commands = c.active.commands ++ [⟨id, intent, sent⟩]) :
    requests c' ⊆ requests c := by
  unfold requests
  rw [h, List.filter_append, List.filter_cons_of_neg (by simp [hother]), List.filter_nil,
    List.append_nil]
  exact List.Subset.refl _

private theorem requests_stageEntry {capabilities : CapabilitySet} {commandId : String}
    {entry : HistoryEntry} {base : Checkpoint}
    (h : stageEntry capabilities commandId entry base = .ok c')
    (hbase : base.active.commands = c.active.commands) : requests c' ⊆ requests c := by
  obtain ⟨-, rfl⟩ := stageEntry_ok h
  refine List.Subset.trans ?_ (requests_same hbase)
  split
  · exact requests_pushed rfl rfl
  · exact requests_same rfl

private theorem requests_stageEvent {body : SessionEventBody} {operationId commandId : String}
    (h : stageEvent cfg e body operationId commandId c = .ok c') : requests c' ⊆ requests c := by
  cases body with
  | ready contextRevision =>
    obtain ⟨-, -, rfl⟩ := stageReady_ok h
    exact requests_same rfl
  | responseStarted generationId inputPosition =>
    obtain ⟨-, -, next, rfl, -, -, -, rfl⟩ := stageStarted_ok h
    have hstarted : requests (startedGeneration (e.capabilities cfg) generationId inputPosition c) ⊆
        requests c := by
      refine requests_same ?_
      unfold startedGeneration
      split <;> rfl
    unfold startedResponse
    split
    · exact List.Subset.trans (requests_pushed rfl rfl) hstarted
    · exact List.Subset.trans (requests_same rfl) hstarted
  | conversationItem itemId message =>
    rcases stageConversationItem_ok h with ⟨-, rfl, -⟩ | ⟨-, -, h⟩
    · exact requests_same rfl
    · exact requests_stageEntry h rfl
  | acknowledged id recovery =>
    obtain ⟨command, next, -, hsettled, rfl⟩ := stageAcknowledged_ok h
    have hcommands : next.active.commands = c.active.commands.eraseP fun p => p.id = id := by
      generalize command.intent = intent at hsettled
      cases hsettled <;> rfl
    refine requests_retired ?_
    change next.active.commands.Sublist _
    rw [hcommands]
    exact List.eraseP_sublist
  | output generationId itemId callerId output =>
    obtain ⟨-, -, -, -, ⟨rfl, -⟩ | ⟨-, recorded, hrecorded, h⟩⟩ := stageOutput_ok h
    · exact requests_same rfl
    · obtain ⟨operations, rfl⟩ := recordOutput_ok hrecorded
      exact requests_stageEntry h rfl
  | responseFinished completion =>
    obtain ⟨-, -, -, -, -, h⟩ := stageFinished_ok h
    exact requests_stageEntry h rfl
  | recovery reference =>
    cases h
    exact requests_same rfl
  | closed reason providerData =>
    obtain ⟨-, rfl⟩ := stageClosed_ok h
    exact requests_same rfl
  | operation origin event =>
    cases h
    exact requests_same rfl
  | delta generationId value =>
    cases h
    exact requests_same rfl

/-- A successor has no generation request its predecessor did not have, or one, which it
counts. -/
def Asks (c next : Checkpoint) : Prop :=
  requests next ⊆ requests c ∨
    (∃ id, requests next ⊆ id :: requests c) ∧
      c.metrics.generationRequests < next.metrics.generationRequests

theorem Change.asks {fact : Fact} {delta : HistoryDelta}
    (h : Change cfg cause e w next fact delta) : Asks e.current next := by
  cases h with
  | @prepare intent archive media n hprepared =>
    have hother : intent.isGenerate = false := by cases hprepared <;> rfl
    refine .inl (requests_pushed hother
      (show _ = _ ++ [PendingCommand.mk (cfg.name n) intent false] from ?_))
    cases intent <;> rfl
  | @markSent command _ _ =>
    refine .inl fun id hid => ?_
    obtain ⟨p, hp, hgenerate, hsame⟩ := mem_requests.mp hid
    obtain ⟨q, hq, rfl⟩ := List.mem_map.mp hp
    refine mem_requests.mpr ⟨q, hq, ?_, ?_⟩
    · split at hgenerate <;> exact hgenerate
    · split at hsame <;> exact hsame
  | finish _ _ _ _ hstage =>
    obtain ⟨history, -, rfl⟩ := stageFinish_ok hstage
    exact .inl (requests_pushed rfl rfl)
  | finishProvider _ _ _ _ _ hstage =>
    obtain ⟨history, -, rfl⟩ := stageFinishProvider_ok hstage
    exact .inl (requests_pushed rfl rfl)
  | context _ _ _ _ => exact .inl (requests_pushed rfl rfl)
  | abandon _ _ _ _ _ => exact .inl (requests_retired List.filter_sublist)
  | insert _ _ _ _ hstage =>
    obtain ⟨-, rfl⟩ := stageInsert_ok hstage
    exact .inl (requests_pushed rfl rfl)
  | @generate n k _ _ _ _ _ _ =>
    refine .inr ⟨⟨cfg.name k, ?_⟩, Nat.lt_succ_self _⟩
    unfold requests
    change ((e.current.active.commands ++ [PendingCommand.mk (cfg.name k) _ _]).filter _).map _ ⊆ _
    rw [List.filter_append, List.map_append]
    intro id hid
    rcases List.mem_append.mp hid with hid | hid
    · exact List.mem_cons_of_mem _ hid
    · obtain ⟨p, hp, rfl⟩ := List.mem_map.mp hid
      obtain rfl := List.mem_singleton.mp (List.mem_of_mem_filter hp)
      exact List.mem_cons_self
  | rewrite _ _ _ _ _ _ hstage =>
    obtain ⟨history, -, runStart, rfl⟩ := stageRewrite_ok hstage
    exact .inl (requests_pushed rfl rfl)
  | _ => exact .inl (requests_same rfl)

theorem Commits.asks {fact : Fact} (h : Commits cfg e next fact) : Asks e.current next := by
  cases h with
  | change h => exact h.asks
  | admitted _ _ => exact .inl (requests_same rfl)
  | delegated _ _ => exact .inl (requests_same rfl)
  | bound _ _ => exact .inl (requests_same rfl)
  | batch _ hstaged =>
    refine .inl (hstaged.rule (I := fun c => requests c ⊆ requests e.current) ?_
      (List.Subset.refl _))
    intro event operationId commandId c c' hc hstage
    have hnext : requests c' ⊆ requests (withSequence event.sequence c) :=
      requests_stageEvent hstage
    exact List.Subset.trans hnext hc

theorem Successor.asks {head : Option Checkpoint} (h : Successor cfg head next)
    (hhead : head = some c) : Asks c next := by
  cases h with
  | @opens w request expired next hopens hresumes =>
    cases request with
    | start history context options =>
      have hnone : next.active.commands = [] := by
        rw [hopens.checkpoint]
        cases expired <;> rfl
      refine .inl fun id hid => ?_
      obtain ⟨p, hp, -⟩ := mem_requests.mp hid
      rw [hnone] at hp
      cases hp
    | recover base messages resolutions metadata =>
      have hbase := hresumes _ _ _ _ rfl
      rw [hhead] at hbase
      cases hbase
      refine .inl (requests_same ?_)
      rw [hopens.checkpoint]
      cases expired <;> rfl
  | commit _ hcommits _ =>
    cases hhead
    exact hcommits.asks
  | settle _ _ =>
    cases hhead
    exact .inl (requests_same rfl)

private theorem Successor.rootless (h : Successor cfg none next) : requests next = [] := by
  generalize hhead : (none : Option Checkpoint) = head at h
  cases h with
  | @opens w request expired next hopens hresumes =>
    cases request with
    | start history context options =>
      unfold requests
      rw [hopens.checkpoint]
      cases expired <;> rfl
    | recover base messages resolutions metadata =>
      have hbase := hresumes _ _ _ _ rfl
      rw [← hhead] at hbase
      cases hbase
  | commit _ _ _ => cases hhead
  | settle _ _ => cases hhead

theorem Successor.counters {head : Option Checkpoint} (h : Successor cfg head next)
    (hhead : head = some c) : CountersGrow c next := by
  obtain ⟨_, haccepted⟩ := h.accepted
  rw [hhead] at haccepted
  exact (monotone_iff.mp (Commit.accepted_of_ok haccepted).follows.monotone).2

/-- All generation requests there ever were, and the newest checkpoint has counted them. -/
structure Paid (durable : List Checkpoint) (asked : List String) : Prop where
  nodup : asked.Nodup
  known : ∀ c ∈ durable, requests c ⊆ asked
  counted : ∀ c, durable.head? = some c → asked.length ≤ c.metrics.generationRequests

theorem Paid.cons {durable : List Checkpoint} {asked : List String} {id : String}
    (h : Paid (c :: durable) asked) (hasks : requests next ⊆ id :: requests c)
    (hmore : c.metrics.generationRequests < next.metrics.generationRequests) :
    ∃ asked', Paid (next :: c :: durable) asked' := by
  have hold : requests c ⊆ asked := h.known c List.mem_cons_self
  have hcounted := h.counted c rfl
  by_cases hid : id ∈ asked
  · refine ⟨asked, ⟨h.nodup, ?_, ?_⟩⟩
    · refine List.forall_mem_cons.mpr ⟨fun x hx => ?_, h.known⟩
      rcases List.mem_cons.mp (hasks hx) with rfl | hx
      · exact hid
      · exact hold hx
    · intro d hd
      cases hd
      omega
  · refine ⟨id :: asked, ⟨List.nodup_cons.mpr ⟨hid, h.nodup⟩, ?_, ?_⟩⟩
    · refine List.forall_mem_cons.mpr ⟨fun x hx => ?_, fun d hd x hx => ?_⟩
      · rcases List.mem_cons.mp (hasks hx) with rfl | hx
        · exact List.mem_cons_self
        · exact List.mem_cons_of_mem _ (hold hx)
      · exact List.mem_cons_of_mem _ (h.known d hd hx)
    · intro d hd
      cases hd
      rw [List.length_cons]
      omega

theorem Chronicle.paid {durable : List Checkpoint} (h : Chronicle cfg durable) :
    ∃ asked, Paid durable asked := by
  induction h with
  | nil =>
    refine ⟨[], ⟨List.nodup_nil, fun c hc => ?_, fun c hc => ?_⟩⟩
    · cases hc
    · cases hc
  | @cons next older hlast _ ih =>
    cases older with
    | nil =>
      refine ⟨[], ⟨List.nodup_nil, ?_, fun d _ => Nat.zero_le _⟩⟩
      refine List.forall_mem_singleton.mpr ?_
      rw [hlast.rootless]
      exact List.Subset.refl _
    | cons c older =>
      obtain ⟨asked, hpaid⟩ := ih
      rcases hlast.asks rfl with hsame | ⟨⟨id, hasks⟩, hmore⟩
      · refine ⟨asked, ⟨hpaid.nodup, ?_, fun d hd => ?_⟩⟩
        · refine List.forall_mem_cons.mpr ⟨?_, hpaid.known⟩
          exact List.Subset.trans hsame (hpaid.known c List.mem_cons_self)
        · cases hd
          exact Nat.le_trans (hpaid.counted c rfl) (hlast.counters rfl).requests
      · exact hpaid.cons hasks hmore

/-- The generation requests that were submitted, latest first. -/
def generations (trace : List Effect) : List String :=
  trace.filterMap fun
    | .submitted _ command => if isGenerateBody command.body then some command.id else none
    | _ => none

private theorem mem_generations {trace : List Effect} {id : String} :
    id ∈ generations trace ↔ ∃ projection command, .submitted projection command ∈ trace ∧
      isGenerateBody command.body = true ∧ command.id = id := by
  unfold generations
  rw [List.mem_filterMap]
  constructor
  · rintro ⟨x, hx, hid⟩
    cases x with
    | submitted projection command =>
      simp only at hid
      split at hid
      · rename_i hgenerate
        cases hid
        exact ⟨projection, command, hx, hgenerate, rfl⟩
      · cases hid
    | _ => cases hid
  · rintro ⟨projection, command, hx, hgenerate, hid⟩
    refine ⟨_, hx, ?_⟩
    simp only [hgenerate, if_true, hid]

theorem SubmittedOnce.tail {x : Effect} {trace : List Effect} (h : SubmittedOnce (x :: trace)) :
    SubmittedOnce trace := by
  intro newer older projection command htrace hneeds
  have hwhole : x :: trace = (x :: newer) ++ .submitted projection command :: older := by
    rw [htrace]
    rfl
  obtain ⟨hmarked, hlater⟩ := h _ _ _ _ hwhole hneeds
  exact ⟨hmarked, fun projection' command' hmem =>
    hlater projection' command' (List.mem_cons_of_mem _ hmem)⟩

/-- A generation request is never submitted again. -/
private theorem SubmittedOnce.generations_nodup {trace : List Effect} (h : SubmittedOnce trace) :
    (generations trace).Nodup := by
  induction trace with
  | nil => exact List.nodup_nil
  | cons x rest ih =>
    have hrest := ih h.tail
    cases x with
    | submitted projection command =>
      by_cases hgenerate : isGenerateBody command.body = true
      · have hnow : generations (.submitted projection command :: rest) =
            command.id :: generations rest := by
          unfold generations
          rw [List.filterMap_cons]
          simp only [hgenerate, if_true]
        rw [hnow, List.nodup_cons]
        refine ⟨fun hid => ?_, hrest⟩
        obtain ⟨projection', command', hmem, hgenerate', hsame⟩ := mem_generations.mp hid
        obtain ⟨newer, older, hsplit⟩ := List.append_of_mem hmem
        have hwhole : Effect.submitted projection command :: rest =
            (.submitted projection command :: newer) ++
              .submitted projection' command' :: older := by
          rw [hsplit]
          rfl
        have hneeds : needsBoundary projection' command' = true := by
          unfold needsBoundary
          rw [hgenerate', Bool.or_true]
        exact (h _ _ _ _ hwhole hneeds).2 _ _ List.mem_cons_self hsame.symm
      · have hnow : generations (.submitted projection command :: rest) = generations rest := by
          unfold generations
          rw [List.filterMap_cons]
          simp only [hgenerate]
          rfl
        rw [hnow]
        exact hrest
    | _ => exact hrest

theorem Attested.asked {trace : List Effect} {id : String} (h : Attested trace)
    (hid : id ∈ generations trace) : ∃ c, Effect.committed c ∈ trace ∧ id ∈ requests c := by
  obtain ⟨projection, command, hmem, hgenerate, rfl⟩ := mem_generations.mp hid
  obtain ⟨newer, older, rfl⟩ := List.append_of_mem hmem
  obtain ⟨c, hc, p, hp, hsame, hbody⟩ := h _ _ _ _ rfl
  refine ⟨c, List.mem_append_right _ (List.mem_cons_of_mem _ hc), ?_⟩
  refine mem_requests.mpr ⟨p, hp, ?_, hsame⟩
  rw [← isGenerate_body (hbody (Engine.boot .start c) rfl)]
  exact hgenerate

private theorem Reached.generations_paid {p : Point} (hp : Reached cfg p)
    (hhead : p.world.head = some c) :
    (generations p.world.trace).length ≤ c.metrics.generationRequests := by
  obtain ⟨asked, hpaid⟩ := hp.chronicled.chronicle.paid
  have hnodup := hp.inOrder.1.generations_nodup
  have hsub : generations p.world.trace ⊆ asked := by
    intro id hid
    obtain ⟨d, hd, hasked⟩ := hp.attests.commands.attested.asked hid
    exact hpaid.known d (mem_durable.mpr hd) hasked
  have hlength := (hnodup.subperm hsub).length_le
  have hcounted := hpaid.counted c (hp.chronicled.head.symm.trans hhead)
  omega

/-- A durable checkpoint records the operation as a delegation. -/
def World.delegated (w : World) (id : OperationId) : Bool :=
  w.durable.any fun c => (c.active.operations[id]?).any fun op => op.owner = .delegation

/-- Every start that was decided or performed has been counted, unless it is a delegation's. -/
structure Charged (w : World) (tasks : List Task) (calls : List OperationId) : Prop where
  counted : ∀ c, w.head = some c → calls.length ≤ c.metrics.runtimeToolCalls
  fresh : w.head = none → calls = []
  known : ∀ id, .started id ∈ w.trace ∨ id ∈ starting tasks → id ∈ calls ∨ w.delegated id = true

private theorem delegated_iff {id : OperationId} : w.delegated id = true ↔
    ∃ c ∈ w.durable, ∃ op, c.active.operations[id]? = some op ∧ op.owner = .delegation := by
  unfold World.delegated
  rw [List.any_eq_true]
  constructor
  · rintro ⟨c, hc, hany⟩
    cases hop : c.active.operations[id]? with
    | none =>
      rw [hop] at hany
      cases hany
    | some op =>
      rw [hop] at hany
      exact ⟨c, hc, op, hop, of_decide_eq_true hany⟩
  · rintro ⟨c, hc, op, hop, howner⟩
    refine ⟨c, hc, ?_⟩
    rw [hop]
    exact decide_eq_true howner

private theorem delegated_mono {id : OperationId} (h : w.delegated id = true)
    (hsub : ∀ x ∈ w.trace, x ∈ w'.trace) : w'.delegated id = true := by
  obtain ⟨c, hc, hop⟩ := delegated_iff.mp h
  exact delegated_iff.mpr ⟨c, mem_durable.mpr (hsub _ (mem_durable.mp hc)), hop⟩

variable {tasks : List Task} {calls : List OperationId}

theorem Charged.extends (h : Charged w tasks calls) (hw : World.Extends cfg w w') :
    Charged w' tasks calls := by
  refine ⟨fun c' hc' => ?_, fun hnone => ?_, fun id hid => ?_⟩
  · cases hw with
    | quiet hhead =>
      rw [hhead] at hc'
      exact h.counted c' hc'
    | commit hhead _ _ _ _ _ _ hhead' _ _ _ _ hstore =>
      rw [hhead'] at hc'
      cases hc'
      obtain ⟨delta, haccepted⟩ := hstore
      have hgrow := (monotone_iff.mp (Commit.accepted_of_ok haccepted).follows.monotone).2
      exact Nat.le_trans (h.counted _ hhead) hgrow.calls
  · cases hw with
    | quiet hhead =>
      rw [hhead] at hnone
      exact h.fresh hnone
    | commit _ _ _ _ _ _ _ hhead' =>
      rw [hhead'] at hnone
      cases hnone
  · have hbefore : .started id ∈ w.trace ∨ id ∈ starting tasks := hid.imp_left hw.started
    exact (h.known id hbefore).imp_right fun hdelegated => delegated_mono hdelegated hw.mem

theorem Charged.congr {tasks' : List Task} (h : Charged w tasks calls)
    (hsame : starting tasks' = starting tasks) : Charged w tasks' calls := by
  refine ⟨h.counted, h.fresh, ?_⟩
  rw [hsame]
  exact h.known

/-- What a move does with the starts on their way. -/
inductive Spends (e e' : Engine) : Prop
  | quiet (htasks : starting e'.tasks = starting e.tasks)
  | call {id : OperationId} (htasks : starting e'.tasks = starting e.tasks ++ [id])
      (hcounted : e'.current.metrics.runtimeToolCalls = e.current.metrics.runtimeToolCalls + 1)
  | delegation {id : OperationId} {op : OperationRecord}
      (htasks : starting e'.tasks = starting e.tasks ++ [id])
      (hop : e.current.active.operations[id]? = some op) (howner : op.owner = .delegation)

private theorem Move.spends (h : Move cfg cause e e') : Spends e e' := by
  have hspawn : ∀ {e' : Engine} (task : Task), task.starts = none →
      e'.tasks = e.tasks ++ [task] → Spends e e' := by
    intro e' task htask htasks
    refine .quiet ?_
    rw [htasks]
    exact starting_spawned (by simpa using htask)
  cases h with
  | start _ _ _ _ _ _ _ => exact .call List.filterMap_append rfl
  | delegate _ hrecord howner _ _ _ _ _ =>
    exact .delegation List.filterMap_append hrecord howner
  | submit _ => exact hspawn _ rfl rfl
  | @install id record handle hrecord hhandling =>
    have htasks : (e.install id record.state).tasks = e.tasks ++
        ((if record.state = .cancelling then [.cancel id false] else []) ++ [.events id]) :=
      List.append_assoc _ _ _
    refine .quiet ?_
    rw [htasks]
    refine starting_spawned fun task htask => ?_
    rcases List.mem_append.mp htask with htask | htask
    · split at htask
      · rw [List.mem_singleton.mp htask]
        rfl
      · cases htask
    · rw [List.mem_singleton.mp htask]
      rfl
  | @requestCancel id =>
    refine .quiet ?_
    rw [Engine.requestCancel_eq]
    by_cases hcontrol : id ∈ e.operationControls
    · simp only [hcontrol, if_true]
      exact starting_spawned (by simp [Task.starts])
    · simp only [hcontrol, if_false]
  | awaitReply _ => exact hspawn _ rfl rfl
  | recover _ _ => exact hspawn _ rfl rfl
  | approval _ _ => exact hspawn _ rfl rfl
  | bind _ _ _ _ => exact hspawn .session rfl rfl
  | decide _ _ => exact .quiet (starting_decided _)
  | sendInput _ _ => exact hspawn _ rfl rfl
  | startOutput _ _ _ => exact hspawn _ rfl rfl
  | _ => exact .quiet rfl

theorem Charged.move (h : Charged e.world e.tasks calls) (hsound : e.Sound) (hsound' : e'.Sound)
    (hmove : Move cfg cause e e') : ∃ calls', Charged e'.world e'.tasks calls' := by
  have hextends := hmove.extends hsound.head hsound.valid
  have hkept := h.extends hextends
  cases hmove.spends with
  | quiet htasks => exact ⟨calls, hkept.congr htasks⟩
  | @call id htasks hcounted =>
    refine ⟨id :: calls, fun c hc => ?_, fun hnone => ?_, fun other hother => ?_⟩
    · rw [hsound'.head] at hc
      cases hc
      have hbefore := h.counted _ hsound.head
      rw [List.length_cons, hcounted]
      omega
    · rw [hsound'.head] at hnone
      cases hnone
    · rw [htasks, List.mem_append, List.mem_singleton] at hother
      rcases hother with hstarted | hstarting | rfl
      · exact (hkept.known other (.inl hstarted)).imp_left (List.mem_cons_of_mem _)
      · exact (hkept.known other (.inr hstarting)).imp_left (List.mem_cons_of_mem _)
      · exact .inl List.mem_cons_self
  | @delegation id op htasks hop howner =>
    refine ⟨calls, hkept.counted, hkept.fresh, fun other hother => ?_⟩
    rw [htasks, List.mem_append, List.mem_singleton] at hother
    rcases hother with hstarted | hstarting | rfl
    · exact hkept.known other (.inl hstarted)
    · exact hkept.known other (.inr hstarting)
    · have hdelegated := delegated_iff.mpr ⟨e.current, hsound.durable, op, hop, howner⟩
      exact .inr (delegated_mono hdelegated hextends.mem)

theorem Charged.step {index : Nat} {task : Task} {step : TaskStep} (h : Charged w tasks calls)
    (htask : tasks[index]? = some task) (hbegins : Begins task step) :
    Charged (w.after step.effects) (stepped index step.remaining tasks) calls := by
  obtain ⟨hbefore, hafter⟩ := starting_stepped step.remaining htask
  have hmem : ∀ x ∈ w.trace, x ∈ (w.after step.effects).trace :=
    fun x hx => List.mem_append_right _ hx
  refine ⟨h.counted, h.fresh, fun id hid => ?_⟩
  refine (h.known id ?_).imp_right fun hdelegated => delegated_mono hdelegated hmem
  rcases hid with hid | hid
  · rcases List.mem_append.mp hid with hid | hid
    · cases hbegins with
      | other hstarts _ _ => exact absurd rfl (hstarts _ hid id)
      | @begins other htask heffects _ =>
        rw [heffects] at hid
        cases List.mem_singleton.mp hid
        refine .inr ?_
        have hsingle : starting [task] = [id] := by
          unfold starting
          rw [List.filterMap_cons, htask]
          rfl
        rw [hbefore, hsingle]
        exact List.mem_append_left _ (List.mem_append_right _ (List.mem_singleton_self _))
    · exact .inl hid
  · refine .inr ?_
    rw [hafter] at hid
    rw [hbefore]
    cases hbegins with
    | other _ _ hsame =>
      rw [← hsame]
      exact hid
    | begins _ _ hremaining =>
      rw [hremaining, List.append_nil] at hid
      rcases List.mem_append.mp hid with hid | hid
      · exact List.mem_append_left _ (List.mem_append_left _ hid)
      · exact List.mem_append_right _ hid

theorem Charged.runTask (h : Charged e.world e.tasks calls) (index : Nat) (event : TaskEvent) :
    Charged (e.runTask cfg index event).world (e.runTask cfg index event).tasks calls := by
  rcases Engine.runTask_cases cfg index event e with hsame | ⟨task, step, htask, hstep, hstepped⟩
  · rw [hsame]
    exact h
  · rw [hstepped]
    exact h.step htask (taskStep_begins hstep)

theorem Charged.opened {request : Request} {expired : Bool} {first : Checkpoint}
    (h : Charged w [] calls) (hresumes : ∀ base messages resolutions metadata,
      request = .recover base messages resolutions metadata → w.head = some base)
    (hopens : Opens cfg w request expired first) : Charged (w.opened first) [] calls := by
  refine ⟨fun c hc => ?_, fun hnone => (by cases hnone), fun id hid => ?_⟩
  · cases hc
    cases request with
    | start history context options =>
      have hnone : w.head = none := by
        have hparent := (Commit.checked_of_ok hopens.accepts).parent
        have hroot : first.parentId = none := by
          rw [hopens.checkpoint]
          cases expired <;> rfl
        change w.head.map Checkpoint.id = first.parentId at hparent
        rw [hroot] at hparent
        exact Option.map_eq_none_iff.mp hparent
      rw [h.fresh hnone]
      exact Nat.zero_le _
    | recover base messages resolutions metadata =>
      have hcounted := h.counted base (hresumes _ _ _ _ rfl)
      have hsame : first.metrics = base.metrics := by
        rw [hopens.checkpoint]
        cases expired <;> rfl
      rw [hsame]
      exact hcounted
  · have hsub : ∀ x ∈ w.trace, x ∈ (w.opened first).trace :=
      fun x hx => List.mem_cons_of_mem _ hx
    refine (h.known id ?_).imp_right fun hdelegated => delegated_mono hdelegated hsub
    rcases hid with hid | hid
    · rcases List.mem_cons.mp hid with hid | hid
      · cases hid
      · exact .inl hid
    · exact .inr hid

theorem Charged.stopped (h : Charged w tasks calls) : Charged w [] calls :=
  ⟨h.counted, h.fresh, fun id hid => h.known id (hid.imp_right fun hid => by cases hid)⟩

private theorem Reached.charged {p : Point} (hp : Reached cfg p) :
    ∃ calls, Charged p.world p.tasks calls := by
  refine hp.rule (I := fun p => ∃ calls, Charged p.world p.tasks calls) ?_ ?_
  · refine ⟨[], fun c _ => Nat.zero_le _, fun _ => rfl, fun id hid => ?_⟩
    rcases hid with hid | hid <;> cases hid
  · intro p p' hreached h hstep
    obtain ⟨calls, h⟩ := h
    have hresumes : ∀ {w request expired first}, Reached cfg (.idle w) →
        Opens cfg w request expired first → ∀ base messages resolutions metadata,
          request = .recover base messages resolutions metadata → w.head = some base := by
      intro w request expired first hreached hopens base messages resolutions metadata hrequest
      subst hrequest
      obtain ⟨order, hsubmitted⟩ := hreached.delivers
      exact hsubmitted.resumes hopens
    cases hstep with
    | wait hw =>
      have hextends : World.Extends cfg _ _ := .counted hw
      exact ⟨calls, h.extends hextends⟩
    | lost hopens => exact ⟨calls, h.opened (hresumes hreached hopens) hopens⟩
    | boot hopens => exact ⟨calls, h.opened (hresumes hreached hopens) hopens⟩
    | turn _ hturn =>
      have hsound := hreached.sound
      cases hturn with
      | move hmove => exact h.move hsound ((Turn.move hmove).sound hsound) hmove
      | take _ _ => exact ⟨calls, h⟩
      | drop _ _ => exact ⟨calls, h⟩
    | task => exact ⟨calls, h.runTask _ _⟩
    | lateTask => exact ⟨calls, h.runTask _ _⟩
    | fail _ hfault =>
      have hsound := hreached.sound
      obtain ⟨w, hfirst, hsecond, htasks⟩ := hfault.extends hsound.head hsound.valid
      refine ⟨calls, Charged.congr ((h.extends hfirst).extends hsecond) ?_⟩
      exact congrArg starting htasks
    | packet => exact ⟨calls, h⟩
    | latePacket => exact ⟨calls, h⟩
    | finish => exact ⟨calls, h⟩
    | crash => exact ⟨calls, h.stopped⟩
    | exit => exact ⟨calls, h.stopped⟩

/-- Started operations that are not delegations: calls of runtime tools. -/
def toolStarts (w : World) : List OperationId :=
  w.trace.filterMap fun
    | .started id => if w.delegated id then none else some id
    | _ => none

private theorem mem_toolStarts {id : OperationId} (h : id ∈ toolStarts w) :
    .started id ∈ w.trace ∧ w.delegated id = false := by
  obtain ⟨x, hx, hid⟩ := List.mem_filterMap.mp h
  cases x with
  | started other =>
    simp only at hid
    split at hid
    · cases hid
    · rename_i hother
      cases hid
      exact ⟨hx, Bool.eq_false_of_not_eq_true hother⟩
  | _ => cases hid

theorem StartedOnce.tail {x : Effect} {trace : List Effect} (h : StartedOnce (x :: trace)) :
    StartedOnce trace := by
  intro newer older id htrace
  refine h (x :: newer) older id ?_
  rw [htrace]
  rfl

def startOrder (trace : List Effect) : List OperationId :=
  trace.filterMap fun
    | .started id => some id
    | _ => none

private theorem mem_startOrder {trace : List Effect} {id : OperationId}
    (h : id ∈ startOrder trace) :
    .started id ∈ trace := by
  obtain ⟨x, hx, hid⟩ := List.mem_filterMap.mp h
  cases x with
  | started other =>
    cases hid
    exact hx
  | _ => cases hid

private theorem StartedOnce.startOrder_nodup {trace : List Effect} (h : StartedOnce trace) :
    (startOrder trace).Nodup := by
  induction trace with
  | nil => exact List.nodup_nil
  | cons x rest ih =>
    have hrest := ih h.tail
    cases x with
    | started id =>
      have hfirst := h [] rest id rfl
      exact List.nodup_cons.mpr ⟨fun hid => hfirst.1 (mem_startOrder hid), hrest⟩
    | _ => exact hrest

private theorem toolStarts_sublist (w : World) : (toolStarts w).Sublist (startOrder w.trace) := by
  unfold toolStarts startOrder
  induction w.trace with
  | nil => exact List.Sublist.slnil
  | cons x rest ih =>
    cases x with
    | started id =>
      simp only [List.filterMap_cons]
      split
      · exact ih.cons id
      · rename_i hsome
        split at hsome
        · cases hsome
        · cases hsome
          exact ih.cons_cons id
    | _ => exact ih

private theorem Reached.toolStarts_paid {p : Point} (hp : Reached cfg p)
    (hhead : p.world.head = some c) :
    (toolStarts p.world).length ≤ c.metrics.runtimeToolCalls := by
  obtain ⟨calls, hcharged⟩ := hp.charged
  have hstarts := hp.starts
  have honce : StartedOnce p.world.trace := by
    cases p with
    | idle w => exact hstarts.once
    | live resolutions e => exact hstarts.1.once
    | ended e => exact hstarts.1.once
  have hnodup := honce.startOrder_nodup.sublist (toolStarts_sublist p.world)
  have hsub : toolStarts p.world ⊆ calls := by
    intro id hid
    obtain ⟨hstarted, hother⟩ := mem_toolStarts hid
    rcases hcharged.known id (.inl hstarted) with hcalls | hdelegated
    · exact hcalls
    · rw [hother] at hdelegated
      cases hdelegated
  have hlength := (hnodup.subperm hsub).length_le
  have hcounted := hcharged.counted c hhead
  omega

theorem Chronicle.options {durable : List Checkpoint} (h : Chronicle cfg durable)
    {head : Checkpoint} (hhead : durable.head? = some head) :
    ∀ c ∈ durable, c.options = head.options := by
  induction h generalizing head with
  | nil => cases hhead
  | @cons next older hlast _ ih =>
    cases hhead
    refine List.forall_mem_cons.mpr ⟨rfl, fun c hc => ?_⟩
    cases older with
    | nil => cases hc
    | cons old older =>
      obtain ⟨_, haccepted⟩ := hlast.accepted
      rw [ih rfl c hc, (Commit.accepted_of_ok haccepted).options]

/-- What a run has done outside is at most what its newest checkpoint has counted. -/
structure Affordable (w : World) : Prop where
  requests : ∀ c, w.head = some c →
    (generations w.trace).length ≤ c.metrics.generationRequests
  calls : ∀ c, w.head = some c → (toolStarts w).length ≤ c.metrics.runtimeToolCalls

private theorem reachable_affordable {s : System} (hs : Reachable cfg s) : Affordable s.world :=
  reachable_world
    (fun _ hp =>
      ⟨fun _ hhead => hp.generations_paid hhead, fun _ hhead => hp.toolStarts_paid hhead⟩)
    hs

/-- The budgets of a run hold over its whole life. However its executions interleave with their
tasks, crash and are recovered, no more generation requests are submitted and no more tool calls
are started than the limits it began with allow. -/
theorem budgets_hold {s : System} (hs : Reachable cfg s) {c : Checkpoint}
    (hc : c ∈ s.world.durable) :
    (generations s.world.trace).length ≤ c.options.limits.maxGenerationRequests ∧
      (toolStarts s.world).length ≤ c.options.limits.maxRuntimeToolCalls := by
  have hchronicled := reachable_chronicled hs
  have haffordable := reachable_affordable hs
  obtain ⟨head, hhead⟩ : ∃ head, s.world.durable.head? = some head := by
    cases hdurable : s.world.durable with
    | nil =>
      rw [hdurable] at hc
      cases hc
    | cons head rest => exact ⟨head, rfl⟩
  have hinside := reachable_inBudget hs head (List.mem_of_mem_head? hhead)
  have hworld : s.world.head = some head := hchronicled.head.trans hhead
  rw [hchronicled.chronicle.options hhead c hc]
  exact ⟨Nat.le_trans (haffordable.requests head hworld) hinside.requests,
    Nat.le_trans (haffordable.calls head hworld) hinside.calls⟩

def sampleCounted : System :=
  sampleRun (sampleOpening (sampleOptions sampleLimits) ++ sampleStarted "look")

def sampleCountedHead : Checkpoint := sampleCounted.head (by decide +kernel)

theorem budgets_hold_sample :
    (generations sampleCounted.world.trace).length = 1 ∧
    (toolStarts sampleCounted.world).length = 1 ∧
    (generations sampleCounted.world.trace).length ≤
      sampleCountedHead.options.limits.maxGenerationRequests ∧
    (toolStarts sampleCounted.world).length ≤
      sampleCountedHead.options.limits.maxRuntimeToolCalls :=
  ⟨by decide +kernel, by decide +kernel, budgets_hold ⟨_, rfl⟩ (System.head_mem _ _)⟩

end Zhir.Kernel
