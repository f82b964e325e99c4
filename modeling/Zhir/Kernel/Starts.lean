import Zhir.Kernel.CommandDelivery

/-!
Starts of host operations: once each, after the record is durable as running, and never for
a record an execution has found started.
-/

set_option autoImplicit false
set_option relaxedAutoImplicit false

namespace Zhir.Kernel

open Zhir.Core
open Std (ExtTreeMap)

variable {cfg : Config}

def MarkedRunning (id : OperationId) (trace : List Effect) : Prop :=
  ∃ c, Effect.committed c ∈ trace ∧
    ∃ op, c.active.operations[id]? = some op ∧ op.state = .running

/-- No execution has found the operation other than queued when it began. -/
def TakenUpQueued (id : OperationId) (trace : List Effect) : Prop :=
  ∀ c, Effect.committed c ∈ trace → opensExecution c.fact = true →
    ∀ op, c.active.operations[id]? = some op → op.state = .queued

def StartedOnce (trace : List Effect) : Prop :=
  ∀ newer older id, trace = newer ++ .started id :: older →
    .started id ∉ older ∧ MarkedRunning id older ∧ TakenUpQueued id older

variable {trace older : List Effect}

theorem StartedOnce.cons {x : Effect} (h : StartedOnce trace)
    (hx : ∀ id, x = .started id →
      .started id ∉ trace ∧ MarkedRunning id trace ∧ TakenUpQueued id trace) :
    StartedOnce (x :: trace) := by
  intro newer older id htrace
  cases newer with
  | nil =>
    obtain ⟨rfl, rfl⟩ := List.cons.inj htrace
    exact hx id rfl
  | cons y newer =>
    obtain ⟨-, hrest⟩ := List.cons.inj htrace
    exact h newer older id hrest

theorem StartedOnce.append {effects : List Effect} (h : StartedOnce trace)
    (heffects : ∀ x ∈ effects, ∀ id, x ≠ .started id) : StartedOnce (effects ++ trace) := by
  induction effects with
  | nil => exact h
  | cons x rest ih =>
    obtain ⟨hx, hrest⟩ := List.forall_mem_cons.mp heffects
    exact (ih hrest).cons fun id hsame => absurd hsame (hx id)

theorem MarkedRunning.mono {id : OperationId} (h : MarkedRunning id older)
    (hsub : ∀ x ∈ older, x ∈ trace) : MarkedRunning id trace := by
  obtain ⟨c, hc, hop⟩ := h
  exact ⟨c, hsub _ hc, hop⟩

theorem mem_durable {w : World} {c : Checkpoint} :
    c ∈ w.durable ↔ Effect.committed c ∈ w.trace := by
  unfold World.durable
  constructor
  · intro h
    obtain ⟨x, hx, hcommitted⟩ := List.mem_filterMap.mp h
    cases x with
    | committed d =>
      cases hcommitted
      exact hx
    | _ => cases hcommitted
  · exact fun h => List.mem_filterMap.mpr ⟨_, h, rfl⟩

variable (cfg) in
/-- The operation is known and the durable head does not have it queued. -/
def Spent (w : World) (id : OperationId) : Prop :=
  (∃ k < w.names, id = .host (cfg.name k)) ∧
    ∀ c, w.head = some c → ∀ op, c.active.operations[id]? = some op → op.state ≠ .queued

variable (cfg) in
structure Started (w : World) : Prop where
  once : StartedOnce w.trace
  known : ∀ c ∈ w.durable, ∀ (id : OperationId) (op : OperationRecord),
    c.active.operations[id]? = some op →
      (∃ k < w.names, id = .host (cfg.name k)) ∨ ProviderWork id op
  spent : ∀ id, .started id ∈ w.trace → Spent cfg w id
  head : ∀ c, w.head = some c → c ∈ w.durable
  /-- What is queued has always been queued. -/
  queue : ∀ c, w.head = some c → ∀ (id : OperationId) (op : OperationRecord),
    c.active.operations[id]? = some op → op.state = .queued →
      ∀ d ∈ w.durable, ∀ op', d.active.operations[id]? = some op' → op'.state = .queued

def Task.starts : Task → Option OperationId
  | .start id _ false | .delegate id _ false => some id
  | _ => none

def starting (tasks : List Task) : List OperationId := tasks.filterMap Task.starts

variable (cfg) in
structure Starting (w : World) (tasks : List Task) : Prop where
  nodup : (starting tasks).Nodup
  fresh : ∀ id ∈ starting tasks, .started id ∉ w.trace
  marked : ∀ id ∈ starting tasks, MarkedRunning id w.trace
  taken : ∀ id ∈ starting tasks, TakenUpQueued id w.trace
  spent : ∀ id ∈ starting tasks, Spent cfg w id

variable {w w' : World} {tasks : List Task}

theorem World.Extends.mem (h : World.Extends cfg w w') : ∀ x ∈ w.trace, x ∈ w'.trace := by
  cases h with
  | quiet _ htrace =>
    rw [htrace]
    exact fun x hx => List.mem_append_right _ hx
  | commit _ _ _ _ _ _ _ _ htrace =>
    rw [htrace]
    exact fun x hx => List.mem_cons_of_mem _ hx

theorem World.Extends.names (h : World.Extends cfg w w') : w.names ≤ w'.names := by
  cases h with
  | quiet _ _ _ _ hnames => exact hnames
  | commit _ _ _ _ _ _ hle _ _ hnames => omega

theorem World.Extends.started (h : World.Extends cfg w w') {id : OperationId}
    (hid : Effect.started id ∈ w'.trace) : Effect.started id ∈ w.trace := by
  cases h with
  | quiet _ htrace _ hstarts =>
    rw [htrace] at hid
    rcases List.mem_append.mp hid with hid | hid
    · exact absurd rfl (hstarts _ hid id)
    · exact hid
  | commit _ _ _ _ _ _ _ _ htrace =>
    rw [htrace] at hid
    rcases List.mem_cons.mp hid with hid | hid
    · cases hid
    · exact hid

theorem World.Extends.committed (h : World.Extends cfg w w') {c : Checkpoint}
    (hc : Effect.committed c ∈ w'.trace) :
    Effect.committed c ∈ w.trace ∨ w'.head = some c ∧ opensExecution c.fact = false := by
  cases h with
  | quiet _ htrace hsilent =>
    rw [htrace] at hc
    rcases List.mem_append.mp hc with hc | hc
    · have hfalse := hsilent _ hc
      cases hfalse
    · exact .inl hc
  | commit _ _ _ hfact _ _ _ hhead' htrace =>
    rw [htrace] at hc
    rcases List.mem_cons.mp hc with hc | hc
    · cases hc
      exact .inr ⟨hhead', hfact⟩
    · exact .inl hc

/-- The new head's records come from the old one, from fresh identities, or from a provider. -/
theorem World.Extends.tables (h : World.Extends cfg w w') {c' : Checkpoint}
    (hc' : w'.head = some c') :
    ∃ c, w.head = some c ∧ ∃ m ≤ w'.names, Tables cfg w.names m c c' := by
  cases h with
  | quiet hhead _ _ _ hnames =>
    rw [hhead] at hc'
    exact ⟨c', hc', _, hnames, .same rfl⟩
  | commit hhead _ _ _ _ htables _ hhead' _ hnames =>
    rw [hhead'] at hc'
    cases hc'
    exact ⟨_, hhead, _, hnames, htables⟩

theorem TakenUpQueued.extends {id : OperationId} (h : TakenUpQueued id w.trace)
    (hw : World.Extends cfg w w') : TakenUpQueued id w'.trace := by
  intro c hc hopens
  rcases hw.committed hc with hc | ⟨-, hfact⟩
  · exact h c hc hopens
  · rw [hfact] at hopens
    cases hopens

theorem Spent.extends {id : OperationId} (h : Spent cfg w id) (hw : World.Extends cfg w w') :
    Spent cfg w' id := by
  obtain ⟨⟨k, hk, hid⟩, hhead⟩ := h
  have hnames := hw.names
  refine ⟨⟨k, by omega, hid⟩, fun c' hc' op' hop' hqueued' => ?_⟩
  obtain ⟨c, hc, m, -, htables⟩ := hw.tables hc'
  rcases htables id op' hop' with ⟨op, hop, hqueued, -⟩ | ⟨⟨j, hj, -, hsame⟩, -⟩ | ⟨-, hstate⟩
  · exact hhead c hc op hop (hqueued hqueued')
  · rw [hid] at hsame
    have hjk : k = j := cfg.name_injective (OperationId.host.inj hsame)
    omega
  · exact hstate hqueued'

theorem Started.extends (h : Started cfg w) (hw : World.Extends cfg w w') : Started cfg w' := by
  have hnames := hw.names
  have hhead' : ∀ c', w'.head = some c' → c' ∈ w'.durable := by
    intro c' hc'
    cases hw with
    | quiet hhead htrace =>
      rw [hhead] at hc'
      rw [mem_durable, htrace]
      exact List.mem_append_right _ (mem_durable.mp (h.head c' hc'))
    | commit _ _ _ _ _ _ _ hnext htrace =>
      rw [hnext] at hc'
      cases hc'
      rw [mem_durable, htrace]
      exact List.mem_cons_self
  refine ⟨?_, ?_, fun id hid => (h.spent id (hw.started hid)).extends hw, hhead', ?_⟩
  · cases hw with
    | quiet _ htrace _ hstarts =>
      rw [htrace]
      exact h.once.append hstarts
    | commit _ _ _ _ _ _ _ _ htrace =>
      rw [htrace]
      exact h.once.cons fun id hsame => by cases hsame
  · intro c' hc' id op' hop'
    rcases hw.committed (mem_durable.mp hc') with hold | ⟨hnext, -⟩
    · rcases h.known c' (mem_durable.mpr hold) id op' hop' with ⟨k, hk, hid⟩ | hprovider
      · exact .inl ⟨k, by omega, hid⟩
      · exact .inr hprovider
    · obtain ⟨c, hc, m, hm, htables⟩ := hw.tables hnext
      rcases htables id op' hop' with ⟨op, hop, hqueued, -⟩ | ⟨⟨k, -, hk, hid⟩, -⟩ | hprovider
      · rcases h.known c (h.head c hc) id op hop with ⟨k, hk, hid⟩ | ⟨hhost, hstate⟩
        · exact .inl ⟨k, by omega, hid⟩
        · exact .inr ⟨hhost, fun hqueued' => hstate (hqueued hqueued')⟩
      · exact .inl ⟨k, by omega, hid⟩
      · exact .inr hprovider
  · intro c' hc' id op' hop' hqueued' d hd opd hopd
    obtain ⟨c, hc, m, -, htables⟩ := hw.tables hc'
    have hnew : w'.head = some d → opd.state = .queued := by
      intro hd'
      rw [hc'] at hd'
      cases hd'
      rw [hop'] at hopd
      cases hopd
      exact hqueued'
    rcases hw.committed (mem_durable.mp hd) with hold | ⟨hd', -⟩
    · have hd := mem_durable.mpr hold
      rcases htables id op' hop' with ⟨op, hop, hqueued, -⟩ | ⟨⟨k, hk, -, hid⟩, -⟩ | ⟨-, hstate⟩
      · exact h.queue c hc id op hop (hqueued hqueued') d hd opd hopd
      · rcases h.known d hd id opd hopd with ⟨j, hj, hid'⟩ | ⟨hhost, -⟩
        · rw [hid] at hid'
          have hjk : k = j := cfg.name_injective (OperationId.host.inj hid')
          omega
        · exact absurd hid (hhost _)
      · exact absurd hqueued' hstate
    · exact hnew hd'

theorem Starting.extends (h : Starting cfg w tasks) (hw : World.Extends cfg w w') :
    Starting cfg w' tasks where
  nodup := h.nodup
  fresh id hid hstarted := h.fresh id hid (hw.started hstarted)
  marked id hid := (h.marked id hid).mono hw.mem
  taken id hid := (h.taken id hid).extends hw
  spent id hid := (h.spent id hid).extends hw

theorem Starting.congr {tasks' : List Task} (h : Starting cfg w tasks)
    (hsame : starting tasks' = starting tasks) : Starting cfg w tasks' := by
  refine ⟨?_, ?_, ?_, ?_, ?_⟩
  · rw [hsame]
    exact h.nodup
  · rw [hsame]
    exact h.fresh
  · rw [hsame]
    exact h.marked
  · rw [hsame]
    exact h.taken
  · rw [hsame]
    exact h.spent

variable {e e' : Engine} {cause : Cause}

/-- A queued record is committed as running, and its start decided. -/
structure Launched (id : OperationId) (e e' : Engine) : Prop where
  tasks : starting e'.tasks = starting e.tasks ++ [id]
  queued : ∃ op, e.current.active.operations[id]? = some op ∧ op.state = .queued
  running : ∃ op, e'.current.active.operations[id]? = some op ∧ op.state = .running
  /-- It is a delegation, or it is the turn of a call whose batch is being handled. -/
  due : (∃ op, e.current.active.operations[id]? = some op ∧ op.owner = .delegation) ∨
    ∃ bindings decisions binding, e.handling = some (.admitted bindings decisions) ∧
      e.Due bindings binding ∧ binding.id = id

theorem starting_spawned {added : List Task} (hadded : ∀ task ∈ added, task.starts = none) :
    starting (tasks ++ added) = starting tasks := by
  unfold starting
  rw [List.filterMap_append, List.filterMap_eq_nil_iff.mpr hadded, List.append_nil]

theorem starting_decided (input : Bool) :
    starting (tasks.map (Task.decided input)) = starting tasks := by
  unfold starting
  rw [List.filterMap_map]
  congr 1
  funext task
  cases task with
  | mediaInput segment phase => cases phase <;> cases input <;> rfl
  | mediaOutput phase => cases phase <;> cases input <;> rfl
  | _ => rfl

theorem getElem?_putOperation (id : OperationId) (op : OperationRecord) (c : Checkpoint) :
    (putOperation id op c).active.operations[id]? = some op := by
  change (c.active.operations.insert id op)[id]? = some op
  rw [ExtTreeMap.getElem?_insert_self]

theorem Move.starting (h : Move cfg cause e e') :
    Kernel.starting e'.tasks = Kernel.starting e.tasks ∨ ∃ id, Launched id e e' := by
  have hspawn : ∀ {e' : Engine} (task : Task), task.starts = none →
      e'.tasks = e.tasks ++ [task] → Kernel.starting e'.tasks = Kernel.starting e.tasks := by
    intro e' task htask htasks
    rw [htasks]
    exact starting_spawned (by simpa using htask)
  cases h with
  | @start w w' binding bindings decisions record _ hrecord hqueued hdue hhandling _ _ =>
    refine .inr ⟨binding.id, ?_, ⟨record, hrecord, hqueued⟩, ⟨_, getElem?_putOperation _ _ _, rfl⟩,
      .inr ⟨bindings, decisions, binding, hhandling, hdue, rfl⟩⟩
    exact List.filterMap_append
  | @delegate w id record request _ hrecord howner hqueued _ _ _ _ =>
    refine .inr ⟨id, ?_, ⟨record, hrecord, hqueued⟩, ⟨_, getElem?_putOperation _ _ _, rfl⟩,
      .inl ⟨record, hrecord, howner⟩⟩
    exact List.filterMap_append
  | submit _ => exact .inl (hspawn _ rfl rfl)
  | @install id record handle hrecord hhandling =>
    have htasks : (e.install id record.state).tasks = e.tasks ++
        ((if record.state = .cancelling then [.cancel id false] else []) ++ [.events id]) :=
      List.append_assoc _ _ _
    rw [htasks]
    refine .inl (starting_spawned fun task htask => ?_)
    rcases List.mem_append.mp htask with htask | htask
    · split at htask
      · rw [List.mem_singleton.mp htask]
        rfl
      · cases htask
    · rw [List.mem_singleton.mp htask]
      rfl
  | @requestCancel id =>
    left
    rw [Engine.requestCancel_eq]
    by_cases hcontrol : id ∈ e.operationControls
    · simp only [hcontrol, if_true]
      exact starting_spawned (by simp [Task.starts])
    · simp only [hcontrol, if_false]
  | awaitReply _ => exact .inl (hspawn _ rfl rfl)
  | recover _ _ => exact .inl (hspawn _ rfl rfl)
  | approval _ _ => exact .inl (hspawn _ rfl rfl)
  | bind _ _ _ _ => exact .inl (hspawn .session rfl rfl)
  | decide _ _ => exact .inl (starting_decided _)
  | sendInput _ _ => exact .inl (hspawn _ rfl rfl)
  | startOutput _ _ _ => exact .inl (hspawn _ rfl rfl)
  | _ => exact .inl rfl

theorem Starting.move (h : Starting cfg e.world e.tasks) (hs : Started cfg e.world)
    (hsound : e.Sound) (hsound' : e'.Sound) (hmove : Move cfg cause e e') :
    Starting cfg e'.world e'.tasks := by
  have hextends := hmove.extends hsound.head hsound.valid
  have hkept := h.extends hextends
  rcases hmove.starting with hsame | ⟨id, hlaunched⟩
  · exact hkept.congr hsame
  · obtain ⟨op, hop, hqueued⟩ := hlaunched.queued
    obtain ⟨op', hop', hrunning⟩ := hlaunched.running
    have hspentless : ¬ Spent cfg e.world id := fun hspent =>
      hspent.2 e.current hsound.head op hop hqueued
    have hfresh : .started id ∉ e'.world.trace := fun hstarted =>
      hspentless (hs.spent id (hextends.started hstarted))
    have hmarked : MarkedRunning id e'.world.trace :=
      ⟨e'.current, mem_durable.mp hsound'.durable, op', hop', hrunning⟩
    have htaken : TakenUpQueued id e'.world.trace := by
      intro c hc hopens opc hopc
      rcases hextends.committed hc with hold | ⟨-, hfact⟩
      · exact hs.queue _ hsound.head id op hop hqueued c (mem_durable.mpr hold) opc hopc
      · rw [hfact] at hopens
        cases hopens
    have hspent : Spent cfg e'.world id := by
      have hnames := hextends.names
      refine ⟨?_, fun c hc opc hopc => ?_⟩
      · rcases hs.known _ hsound.durable id op hop with ⟨k, hk, hid⟩ | ⟨-, hstate⟩
        · exact ⟨k, by omega, hid⟩
        · exact absurd hqueued hstate
      · rw [hsound'.head] at hc
        cases hc
        rw [hop'] at hopc
        cases hopc
        rw [hrunning]
        exact fun h => by cases h
    refine ⟨?_, ?_, ?_, ?_, ?_⟩
    all_goals rw [hlaunched.tasks]
    · refine List.nodup_append.mpr ⟨h.nodup, List.nodup_singleton _, ?_⟩
      intro other hother new hnew hsame
      rw [List.mem_singleton.mp hnew] at hsame
      rw [hsame] at hother
      exact hspentless (h.spent id hother)
    all_goals
      intro other hother
      rcases List.mem_append.mp hother with hother | hother
    · exact hkept.fresh other hother
    · rw [List.mem_singleton.mp hother]
      exact hfresh
    · exact hkept.marked other hother
    · rw [List.mem_singleton.mp hother]
      exact hmarked
    · exact hkept.taken other hother
    · rw [List.mem_singleton.mp hother]
      exact htaken
    · exact hkept.spent other hother
    · rw [List.mem_singleton.mp hother]
      exact hspent

inductive Begins (task : Task) (step : TaskStep) : Prop
  | other (hstarts : ∀ x ∈ step.effects, ∀ id, x ≠ .started id)
      (hcommits : ∀ x ∈ step.effects, ∀ c, x ≠ .committed c)
      (hsame : starting step.remaining.toList = starting [task])
  | begins {id : OperationId} (htask : task.starts = some id)
      (heffects : step.effects = [.started id])
      (hremaining : starting step.remaining.toList = [])

theorem taskStep_begins {task : Task} {event : TaskEvent} {step : TaskStep}
    (h : taskStep cfg task event = some step) : Begins task step := by
  unfold taskStep at h
  split at h <;> try split at h
  all_goals cases h
  all_goals first
    | exact .begins rfl rfl rfl
    | exact .other (by simp) (by simp) rfl

theorem starting_stepped {index : Nat} {task : Task} (remaining : Option Task)
    (h : tasks[index]? = some task) :
    starting tasks = starting (tasks.take index) ++ starting [task] ++
        starting (tasks.drop (index + 1)) ∧
      starting (stepped index remaining tasks) = starting (tasks.take index) ++
        starting remaining.toList ++ starting (tasks.drop (index + 1)) := by
  constructor
  · conv_lhs => rw [split_tasks h]
    unfold starting
    rw [List.filterMap_append, List.filterMap_append]
  · unfold starting stepped
    rw [List.filterMap_append, List.filterMap_append]

theorem Spent.after {id : OperationId} {effects : List Effect} (h : Spent cfg w id) :
    Spent cfg (w.after effects) id := h

theorem Starting.step {index : Nat} {task : Task} {step : TaskStep} (hs : Started cfg w)
    (h : Starting cfg w tasks) (htask : tasks[index]? = some task) (hbegins : Begins task step) :
    Started cfg (w.after step.effects) ∧
      Starting cfg (w.after step.effects) (stepped index step.remaining tasks) := by
  obtain ⟨hbefore, hafter⟩ := starting_stepped step.remaining htask
  have hmem : ∀ x ∈ w.trace, x ∈ (w.after step.effects).trace :=
    fun x hx => List.mem_append_right _ hx
  have hcommitted : ∀ c, Effect.committed c ∈ (w.after step.effects).trace →
      Effect.committed c ∈ w.trace := by
    intro c hc
    rcases List.mem_append.mp hc with hc | hc
    · cases hbegins with
      | other _ hcommits _ => exact absurd rfl (hcommits _ hc c)
      | begins _ heffects _ =>
        rw [heffects] at hc
        cases List.mem_singleton.mp hc
    · exact hc
  have hdurable : ∀ c, c ∈ (w.after step.effects).durable → c ∈ w.durable :=
    fun c hc => mem_durable.mpr (hcommitted c (mem_durable.mp hc))
  have hhead : ∀ c, (w.after step.effects).head = some c → c ∈ (w.after step.effects).durable :=
    fun c hc => mem_durable.mpr (hmem _ (mem_durable.mp (hs.head c hc)))
  have hknown := fun c hc => hs.known c (hdurable c hc)
  have hqueue : ∀ c, (w.after step.effects).head = some c →
      ∀ (id : OperationId) (op : OperationRecord), c.active.operations[id]? = some op →
        op.state = .queued → ∀ d ∈ (w.after step.effects).durable, ∀ op',
          d.active.operations[id]? = some op' → op'.state = .queued :=
    fun c hc id op hop hqueued d hd => hs.queue c hc id op hop hqueued d (hdurable d hd)
  have htaken : ∀ {id : OperationId}, TakenUpQueued id w.trace →
      TakenUpQueued id (w.after step.effects).trace :=
    fun htaken c hc => htaken c (hcommitted c hc)
  cases hbegins with
  | other hstarts _ hsame =>
    have hstarted : ∀ id, Effect.started id ∈ (w.after step.effects).trace →
        Effect.started id ∈ w.trace := by
      intro id hid
      rcases List.mem_append.mp hid with hid | hid
      · exact absurd rfl (hstarts _ hid id)
      · exact hid
    refine ⟨⟨hs.once.append hstarts, hknown, fun id hid => (hs.spent id (hstarted id hid)).after,
      hhead, hqueue⟩, ?_⟩
    have hkept : Starting cfg (w.after step.effects) tasks :=
      ⟨h.nodup, fun id hid hnew => h.fresh id hid (hstarted id hnew),
        fun id hid => (h.marked id hid).mono hmem, fun id hid => htaken (h.taken id hid),
        fun id hid => (h.spent id hid).after⟩
    refine hkept.congr ?_
    rw [hafter, hbefore, hsame]
  | @begins id hstarts heffects hremaining =>
    have hsingle : starting [task] = [id] := by
      unfold starting
      rw [List.filterMap_cons, hstarts]
      rfl
    rw [hsingle] at hbefore
    rw [hremaining, List.append_nil] at hafter
    have hid : id ∈ starting tasks := by
      rw [hbefore]
      exact List.mem_append_left _ (List.mem_append_right _ (List.mem_singleton_self _))
    have hnodup := h.nodup
    rw [hbefore, List.append_assoc, List.singleton_append, List.nodup_middle] at hnodup
    obtain ⟨hnot, hrest⟩ := List.nodup_cons.mp hnodup
    have hold : ∀ other ∈ starting (stepped index step.remaining tasks),
        other ∈ starting tasks ∧ other ≠ id := by
      intro other hother
      rw [hafter] at hother
      refine ⟨?_, fun hsame => hnot (hsame ▸ hother)⟩
      rw [hbefore]
      rcases List.mem_append.mp hother with hother | hother
      · exact List.mem_append_left _ (List.mem_append_left _ hother)
      · exact List.mem_append_right _ hother
    have hcons : (w.after step.effects).trace = .started id :: w.trace := by
      change step.effects ++ w.trace = _
      rw [heffects]
      rfl
    have hstarted : ∀ other, Effect.started other ∈ (w.after step.effects).trace →
        other = id ∨ Effect.started other ∈ w.trace := by
      intro other hother
      rw [hcons] at hother
      rcases List.mem_cons.mp hother with hother | hother
      · cases hother
        exact .inl rfl
      · exact .inr hother
    refine ⟨⟨?_, hknown, ?_, hhead, hqueue⟩, ⟨?_, ?_, ?_, ?_, ?_⟩⟩
    · rw [hcons]
      refine hs.once.cons fun other hsame => ?_
      cases hsame
      exact ⟨h.fresh id hid, h.marked id hid, h.taken id hid⟩
    · intro other hother
      rcases hstarted other hother with rfl | hother
      · exact (h.spent _ hid).after
      · exact (hs.spent other hother).after
    · rw [hafter]
      exact hrest
    · intro other hother hnew
      obtain ⟨hother, hne⟩ := hold other hother
      rcases hstarted other hnew with hsame | hnew
      · exact hne hsame
      · exact h.fresh other hother hnew
    · exact fun other hother => (h.marked other (hold other hother).1).mono hmem
    · exact fun other hother => htaken (h.taken other (hold other hother).1)
    · exact fun other hother => (h.spent other (hold other hother).1).after

theorem Started.opened {order : List String} {request : Request} {expired : Bool}
    {first : Checkpoint} (h : Started cfg w) (hsubmitted : Submitted cfg order w)
    (hopens : Opens cfg w request expired first) : Started cfg (w.opened first) := by
  have hrecords : ∀ (id : OperationId) (op : OperationRecord),
      first.active.operations[id]? = some op →
        ∃ base, w.head = some base ∧ base.active.operations[id]? = some op := by
    intro id op hop
    cases request with
    | start history context options =>
      have hnone : first.active.operations = ∅ := by
        rw [hopens.checkpoint]
        cases expired <;> rfl
      rw [hnone] at hop
      cases hop
    | recover base messages resolutions metadata =>
      have hsame : first.active.operations = base.active.operations := by
        rw [hopens.checkpoint]
        cases expired <;> rfl
      rw [hsame] at hop
      exact ⟨base, hsubmitted.resumes hopens, hop⟩
  have htrace : (w.opened first).trace = .committed first :: w.trace := rfl
  have hcommitted : ∀ c, c ∈ (w.opened first).durable → c = first ∨ c ∈ w.durable :=
    fun c hc => List.mem_cons.mp hc
  have hstarted : ∀ id, Effect.started id ∈ (w.opened first).trace →
      Effect.started id ∈ w.trace := by
    intro id hid
    rcases List.mem_cons.mp hid with hid | hid
    · cases hid
    · exact hid
  refine ⟨?_, ?_, ?_, ?_, ?_⟩
  · rw [htrace]
    exact h.once.cons fun id hsame => by cases hsame
  · intro c hc id op hop
    have hknown : (∃ k < w.names, id = .host (cfg.name k)) ∨ ProviderWork id op := by
      rcases hcommitted c hc with rfl | hc
      · obtain ⟨base, hbase, hop⟩ := hrecords id op hop
        exact h.known base (h.head base hbase) id op hop
      · exact h.known c hc id op hop
    rcases hknown with ⟨k, hk, hid⟩ | hprovider
    · exact .inl ⟨k, Nat.lt_succ_of_lt hk, hid⟩
    · exact .inr hprovider
  · intro id hid
    obtain ⟨⟨k, hk, hsame⟩, hhead⟩ := h.spent id (hstarted id hid)
    refine ⟨⟨k, Nat.lt_succ_of_lt hk, hsame⟩, fun c hc op hop => ?_⟩
    cases hc
    obtain ⟨base, hbase, hop⟩ := hrecords id op hop
    exact hhead base hbase op hop
  · intro c hc
    cases hc
    exact List.mem_cons_self
  · intro c hc id op hop hqueued d hd op' hop'
    cases hc
    obtain ⟨base, hbase, hold⟩ := hrecords id op hop
    rcases hcommitted d hd with hfirst | hearlier
    · rw [hfirst] at hop'
      obtain ⟨base', hbase', hold'⟩ := hrecords id op' hop'
      exact h.queue base hbase id op hold hqueued base' (h.head base' hbase') op' hold'
    · exact h.queue base hbase id op hold hqueued d hearlier op' hop'

theorem Started.start (cfg : Config) : Started cfg .start where
  once newer older id htrace := by
    cases newer <;> cases htrace
  known _ hc := absurd hc List.not_mem_nil
  spent _ hid := absurd hid List.not_mem_nil
  head c hc := by cases hc
  queue c hc := by cases hc

theorem Starting.none (w : World) : Starting cfg w [] where
  nodup := List.nodup_nil
  fresh _ hid := absurd hid List.not_mem_nil
  marked _ hid := absurd hid List.not_mem_nil
  taken _ hid := absurd hid List.not_mem_nil
  spent _ hid := absurd hid List.not_mem_nil

def Starts (cfg : Config) : Point → Prop
  | .idle w => Started cfg w
  | .live _ e => Started cfg e.world ∧ Starting cfg e.world e.tasks
  | .ended e => Started cfg e.world ∧ Starting cfg e.world e.tasks

theorem Started.runTask (hs : Started cfg e.world) (h : Starting cfg e.world e.tasks)
    (index : Nat) (event : TaskEvent) : Started cfg (e.runTask cfg index event).world ∧
      Starting cfg (e.runTask cfg index event).world (e.runTask cfg index event).tasks := by
  rcases Engine.runTask_cases cfg index event e with hsame | ⟨task, step, htask, hstep, hstepped⟩
  · rw [hsame]
    exact ⟨hs, h⟩
  · rw [hstepped]
    exact h.step hs htask (taskStep_begins hstep)

theorem Reached.starts {p : Point} (hp : Reached cfg p) : Starts cfg p := by
  refine hp.rule (I := Starts cfg) (Started.start cfg) fun p p' hreached h hstep => ?_
  cases hstep with
  | wait hw => exact Started.extends h (.counted hw)
  | lost hopens =>
    obtain ⟨order, hsubmitted⟩ := hreached.delivers
    exact Started.opened h hsubmitted hopens
  | boot hopens =>
    obtain ⟨order, hsubmitted⟩ := hreached.delivers
    exact ⟨Started.opened h hsubmitted hopens, .none _⟩
  | @turn resolutions cause e e' _ hturn =>
    have hsound := hreached.sound
    cases hturn with
    | move hmove =>
      have hsound' := (Turn.move hmove).sound hsound
      exact ⟨h.1.extends (hmove.extends hsound.head hsound.valid),
        h.2.move h.1 hsound hsound' hmove⟩
    | take _ _ => exact h
    | drop _ _ => exact h
  | task => exact h.1.runTask h.2 _ _
  | packet => exact h
  | fail _ hfault =>
    have hsound := hreached.sound
    obtain ⟨w, hfirst, hsecond, htasks⟩ := hfault.extends hsound.head hsound.valid
    have hstarting := (h.2.extends hfirst).extends hsecond
    rw [← htasks] at hstarting
    exact ⟨(h.1.extends hfirst).extends hsecond, hstarting⟩
  | finish => exact h
  | lateTask => exact h.1.runTask h.2 _ _
  | latePacket => exact h
  | crash => exact h.1
  | exit => exact h.1

end Zhir.Kernel
