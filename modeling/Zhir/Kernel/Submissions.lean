import Zhir.Kernel.CommandLedger
import Zhir.Kernel.MediaTasks

/-!
Commands on their way to the session: what the trace, the durable outboxes and the submission
at work say about each other, and what commits and steps of tasks keep of it.
-/

set_option autoImplicit false
set_option relaxedAutoImplicit false

namespace Zhir.Kernel

open Zhir.Core
open Zhir.Library (Program Queue)
open Relation (ReflTransGen)

variable {cfg : Config}

/-- The commands submitted since the last execution began, latest first. -/
def submissions : List Effect → List SessionCommand
  | [] => []
  | .committed c :: older => if opensExecution c.fact then [] else submissions older
  | .submitted _ command :: older => command :: submissions older
  | _ :: older => submissions older

def isGenerateBody : SessionCommandBody → Bool
  | .generate .. => true
  | _ => false

/-- Whether a command must be recorded as sent first: a local projection is rebuilt from the
history, so only its generation requests are. -/
def needsBoundary (projection : Bool) (command : SessionCommand) : Bool :=
  !projection || isGenerateBody command.body

def boundaryIds (trace : List Effect) : List String :=
  trace.filterMap fun
    | .submitted projection command =>
      if needsBoundary projection command then some command.id else none
    | _ => none

def Marked (id : String) (trace : List Effect) : Prop :=
  ∃ c, Effect.committed c ∈ trace ∧ ∃ p ∈ c.active.commands, p.id = id ∧ p.sent = true

/-- A submission that needs it comes after the durable mark, and is the last one of its
command. -/
def SubmittedOnce (trace : List Effect) : Prop :=
  ∀ newer older projection command, trace = newer ++ .submitted projection command :: older →
    needsBoundary projection command = true →
      Marked command.id older ∧
        ∀ projection' command', .submitted projection' command' ∈ newer →
          command'.id ≠ command.id

variable {trace older : List Effect}

private theorem submissions_silent {effects : List Effect} (h : ∀ x ∈ effects, x.silent = true) :
    submissions (effects ++ trace) = submissions trace := by
  induction effects with
  | nil => rfl
  | cons x rest ih =>
    obtain ⟨hx, hrest⟩ := List.forall_mem_cons.mp h
    have hskip : submissions (x :: rest ++ trace) = submissions (rest ++ trace) := by
      cases x <;> first | rfl | cases hx
    rw [hskip]
    exact ih hrest

private theorem boundaryIds_silent {effects : List Effect} (h : ∀ x ∈ effects, x.silent = true) :
    boundaryIds (effects ++ trace) = boundaryIds trace := by
  unfold boundaryIds
  rw [List.filterMap_append, List.filterMap_eq_nil_iff.mpr, List.nil_append]
  intro x hx
  have hsilent := h x hx
  cases x <;> first | rfl | cases hsilent

private theorem mem_boundaryIds {projection : Bool} {command : SessionCommand}
    (h : Effect.submitted projection command ∈ trace)
    (hneeds : needsBoundary projection command = true) : command.id ∈ boundaryIds trace := by
  refine List.mem_filterMap.mpr ⟨_, h, ?_⟩
  simp only [hneeds, if_true]

private theorem mem_boundaryIds_submitted {projection : Bool} {command : SessionCommand}
    {id : String}
    (h : id ∈ boundaryIds (.submitted projection command :: trace)) :
    needsBoundary projection command = true ∧ id = command.id ∨ id ∈ boundaryIds trace := by
  unfold boundaryIds at h
  rw [List.filterMap_cons] at h
  cases hneeds : needsBoundary projection command with
  | false =>
    simp only [hneeds, Bool.false_eq_true, if_false] at h
    exact .inr h
  | true =>
    simp only [hneeds, if_true] at h
    rcases List.mem_cons.mp h with rfl | h
    · exact .inl ⟨rfl, rfl⟩
    · exact .inr h

theorem Marked.mono {id : String} (h : Marked id older) (hsub : ∀ x ∈ older, x ∈ trace) :
    Marked id trace := by
  obtain ⟨c, hc, hp⟩ := h
  exact ⟨c, hsub _ hc, hp⟩

/-- One more act keeps it, if a submission is of a command that was not submitted with a mark
before, and has its own mark where it needs one. -/
theorem SubmittedOnce.cons {x : Effect} (h : SubmittedOnce trace)
    (hx : ∀ projection command, x = .submitted projection command →
      command.id ∉ boundaryIds trace ∧
        (needsBoundary projection command = true → Marked command.id trace)) :
    SubmittedOnce (x :: trace) := by
  intro newer older projection command htrace hneeds
  cases newer with
  | nil =>
    obtain ⟨rfl, rfl⟩ := List.cons.inj htrace
    exact ⟨(hx _ _ rfl).2 hneeds, fun _ _ hmem => by cases hmem⟩
  | cons y newer =>
    obtain ⟨rfl, hrest⟩ := List.cons.inj htrace
    have htrace : trace = newer ++ .submitted projection command :: older := hrest
    obtain ⟨hmarked, hlater⟩ := h newer older projection command htrace hneeds
    refine ⟨hmarked, fun projection' command' hmem => ?_⟩
    rcases List.mem_cons.mp hmem with hsame | hmem
    · intro hid
      refine (hx _ _ hsame.symm).1 ?_
      rw [hid, htrace]
      exact mem_boundaryIds (List.mem_append_right _ List.mem_cons_self) hneeds
    · exact hlater projection' command' hmem

theorem SubmittedOnce.silent {effects : List Effect} (h : SubmittedOnce trace)
    (heffects : ∀ x ∈ effects, x.silent = true) : SubmittedOnce (effects ++ trace) := by
  induction effects with
  | nil => exact h
  | cons x rest ih =>
    obtain ⟨hx, hrest⟩ := List.forall_mem_cons.mp heffects
    refine (ih hrest).cons fun projection command hsame => ?_
    rw [hsame] at hx
    cases hx

variable (cfg) in
/-- `order` lists every command there ever was. -/
structure Submitted (order : List String) (w : World) : Prop where
  nodup : order.Nodup
  named : ∀ id ∈ order, ∃ n < w.names, id = cfg.name n
  outboxes : ∀ c ∈ w.durable, (c.active.commands.map PendingCommand.id).Sublist order
  inOrder : ((submissions w.trace).reverse.map SessionCommand.id).Sublist order
  once : SubmittedOnce w.trace
  known : ∀ id ∈ boundaryIds w.trace, id ∈ order
  marked : ∀ c, w.head = some c → ∀ p ∈ c.active.commands,
    p.id ∈ boundaryIds w.trace → p.sent = true
  head : w.head = w.durable.head?
  numbered : ∀ c ∈ w.durable, ∃ k < w.checkpoints, c.id = cfg.checkpointName k
  distinct : (w.durable.map Checkpoint.id).Nodup

/-- What tasks still have to submit, each command with the session it goes to. -/
def Task.submits : Task → List (Bool × SessionCommand)
  | .submit projection batch => batch.map fun command => (projection, command)
  | _ => []

def Task.isSubmit : Task → Bool
  | .submit _ _ => true
  | _ => false

def outgoing (tasks : List Task) : List (Bool × SessionCommand) := tasks.flatMap Task.submits

/-- What is on its way to the session comes next in order. -/
structure Underway (order : List String) (w : World) (tasks : List Task) : Prop where
  alone : (tasks.filter Task.isSubmit).length ≤ 1
  inOrder : (((submissions w.trace).reverse ++ (outgoing tasks).map Prod.snd).map
    SessionCommand.id).Sublist order
  fresh : ∀ x ∈ outgoing tasks, x.2.id ∉ boundaryIds w.trace
  marked : ∀ x ∈ outgoing tasks, needsBoundary x.1 x.2 = true → Marked x.2.id w.trace
  current : ∀ x ∈ outgoing tasks, needsBoundary x.1 x.2 = true → ∀ c, w.head = some c →
    ∀ p ∈ c.active.commands, p.id = x.2.id → p.sent = true

variable {order : List String} {w w' : World} {tasks : List Task}

theorem Submitted.logged {c : Checkpoint} (h : Submitted cfg order w) (hhead : w.head = some c) :
    Queue.Logged PendingCommand.id cfg.name order (outbox w.names c) := by
  have hmem : c ∈ w.durable := by
    rw [h.head] at hhead
    exact List.mem_of_mem_head? hhead
  exact ⟨h.nodup, h.named, h.outboxes c hmem⟩

theorem Submitted.unique {c d : Checkpoint} (h : Submitted cfg order w) (hc : c ∈ w.durable)
    (hd : d ∈ w.durable) (hsame : c.id = d.id) : c = d :=
  List.inj_on_of_nodup_map h.distinct hc hd hsame

/-- What extending the world keeps, in terms of the order. -/
structure Grown (order : List String) (w w' : World) : Prop where
  submissions : submissions w'.trace = submissions w.trace
  boundary : boundaryIds w'.trace = boundaryIds w.trace
  trace : ∀ x ∈ w.trace, x ∈ w'.trace
  carries : ∀ c c', w.head = some c → w'.head = some c' →
    Queue.Carries PendingCommand.id KeepsCommand order (outbox 0 c) (outbox 0 c')

theorem Submitted.quiet {effects : List Effect} (h : Submitted cfg order w)
    (hhead : w'.head = w.head) (htrace : w'.trace = effects ++ w.trace)
    (hsilent : ∀ x ∈ effects, x.silent = true) (hnames : w.names ≤ w'.names)
    (hcheckpoints : w.checkpoints ≤ w'.checkpoints) :
    Submitted cfg order w' ∧ Grown order w w' := by
  have hsub : submissions w'.trace = submissions w.trace := by
    rw [htrace]
    exact submissions_silent hsilent
  have hids : boundaryIds w'.trace = boundaryIds w.trace := by
    rw [htrace]
    exact boundaryIds_silent hsilent
  have hdurable : w'.durable = w.durable := by
    unfold World.durable
    rw [htrace, List.filterMap_append, List.filterMap_eq_nil_iff.mpr, List.nil_append]
    intro x hx
    have hx := hsilent x hx
    cases x <;> first | rfl | cases hx
  refine ⟨⟨h.nodup, ?_, ?_, ?_, ?_, ?_, ?_, ?_, ?_, ?_⟩, ⟨hsub, hids, ?_, ?_⟩⟩
  · intro id hid
    obtain ⟨n, hn, rfl⟩ := h.named id hid
    exact ⟨n, by omega, rfl⟩
  · rw [hdurable]
    exact h.outboxes
  · rw [hsub]
    exact h.inOrder
  · rw [htrace]
    exact h.once.silent hsilent
  · rw [hids]
    exact h.known
  · rw [hids, hhead]
    exact h.marked
  · rw [hdurable, hhead]
    exact h.head
  · rw [hdurable]
    intro c hc
    obtain ⟨k, hk, hid⟩ := h.numbered c hc
    exact ⟨k, by omega, hid⟩
  · rw [hdurable]
    exact h.distinct
  · rw [htrace]
    exact fun x hx => List.mem_append_right _ hx
  · intro c c' hc hc'
    rw [hhead, hc] at hc'
    cases hc'
    exact fun p hp _ => ⟨p, hp, rfl, KeepsCommand.refl p⟩

theorem Submitted.extends (h : Submitted cfg order w) (hw : World.Extends cfg w w') :
    ∃ added, Submitted cfg (order ++ added) w' ∧ Grown order w w' := by
  cases hw with
  | quiet hhead htrace hsilent _ hnames hcheckpoints =>
    refine ⟨[], ?_⟩
    rw [List.append_nil]
    exact h.quiet hhead htrace hsilent hnames hcheckpoints
  | @commit c next k m hhead hk hid hfact hout _ _ hhead' htrace hnames hcheckpoints =>
    obtain ⟨added, hlogged, hcarries⟩ := hout.logged (h.logged hhead)
    have hsub : submissions w'.trace = submissions w.trace := by
      rw [htrace]
      exact if_neg (by rw [hfact]; exact Bool.false_ne_true)
    have hids : boundaryIds w'.trace = boundaryIds w.trace := by
      rw [htrace]
      rfl
    have hdurable : w'.durable = next :: w.durable := by
      unfold World.durable
      rw [htrace]
      rfl
    refine ⟨added, ⟨hlogged.nodup, ?_, ?_, ?_, ?_, ?_, ?_, ?_, ?_, ?_⟩, ⟨hsub, hids, ?_, ?_⟩⟩
    · intro id hid
      obtain ⟨n, hn, rfl⟩ := hlogged.named id hid
      exact ⟨n, Nat.lt_of_lt_of_le hn hnames, rfl⟩
    · rw [hdurable]
      refine List.forall_mem_cons.mpr ⟨hlogged.items, fun c hc => ?_⟩
      exact (h.outboxes c hc).trans (List.sublist_append_left _ _)
    · rw [hsub]
      exact h.inOrder.trans (List.sublist_append_left _ _)
    · rw [htrace]
      exact h.once.cons fun _ _ hsame => by cases hsame
    · rw [hids]
      exact fun id hid => List.mem_append_left _ (h.known id hid)
    · rw [hids, hhead']
      intro c' hc' p hp hsubmitted
      cases hc'
      obtain ⟨q, hq, hsame, -, hsent⟩ := hcarries p hp (h.known _ hsubmitted)
      rw [← hsame] at hsubmitted
      exact hsent (h.marked c hhead q hq hsubmitted)
    · rw [hdurable]
      exact hhead'
    · rw [hdurable]
      refine List.forall_mem_cons.mpr ⟨⟨k, hcheckpoints, hid⟩, fun c hc => ?_⟩
      obtain ⟨j, hj, hid'⟩ := h.numbered c hc
      exact ⟨j, by omega, hid'⟩
    · rw [hdurable, List.map_cons, List.nodup_cons]
      refine ⟨?_, h.distinct⟩
      intro hmem
      obtain ⟨d, hd, hsame⟩ := List.mem_map.mp hmem
      obtain ⟨j, hj, hid'⟩ := h.numbered d hd
      rw [hid', hid] at hsame
      have hjk : j = k := cfg.checkpointName_injective hsame
      omega
    · rw [htrace]
      exact fun x hx => List.mem_cons_of_mem _ hx
    · intro d d' hd hd'
      rw [hhead] at hd
      rw [hhead'] at hd'
      cases hd
      cases hd'
      exact hcarries

theorem Underway.extends (added : List String) (h : Underway order w tasks)
    (hgrown : Grown order w w') (hhead : w'.head.isSome = true → w.head.isSome = true) :
    Underway (order ++ added) w' tasks := by
  refine ⟨h.alone, ?_, ?_, ?_, ?_⟩
  · rw [hgrown.submissions]
    exact h.inOrder.trans (List.sublist_append_left _ _)
  · rw [hgrown.boundary]
    exact h.fresh
  · exact fun x hx hneeds => (h.marked x hx hneeds).mono hgrown.trace
  · intro x hx hneeds c' hc' p hp hid
    obtain ⟨c, hc⟩ := Option.isSome_iff_exists.mp (hhead (by rw [hc']; rfl))
    have hold : p.id ∈ order := by
      rw [hid]
      refine h.inOrder.subset (List.mem_map_of_mem ?_)
      exact List.mem_append_right _ (List.mem_map_of_mem hx)
    obtain ⟨q, hq, hsame, -, hsent⟩ := hgrown.carries c c' hc hc' p hp hold
    exact hsent (h.current x hx hneeds c hc q hq (hsame.trans hid))

theorem Opens.fact {request : Request} {expired : Bool} {first : Checkpoint}
    (h : Opens cfg w request expired first) : opensExecution first.fact = true := by
  rw [h.checkpoint]
  cases request <;> cases expired <;> rfl

theorem Opens.id {request : Request} {expired : Bool} {first : Checkpoint}
    (h : Opens cfg w request expired first) : first.id = cfg.checkpointName w.checkpoints := by
  rw [h.checkpoint]
  cases request <;> cases expired <;> rfl

theorem Submitted.resumes {base first : Checkpoint} {messages : List Message}
    {resolutions : List RecoveryResolution} {metadata : List (String × Value)} {expired : Bool}
    (h : Submitted cfg order w)
    (hopens : Opens cfg w (.recover base messages resolutions metadata) expired first) :
    w.head = some base := by
  have hbase : base ∈ w.durable := by
    cases hopens.requested with
    | start hstart => exact absurd rfl (startRequest_kind hstart base messages resolutions metadata)
    | recover hdurable hrecover =>
      unfold recoverRequest at hrecover
      obtain ⟨_, -, hrecover⟩ := Result.bind_ok hrecover
      split at hrecover
      · cases hrecover
        exact hdurable
      · split at hrecover
        · cases hrecover
          exact hdurable
        · cases hrecover
  have hparent := (Commit.checked_of_ok hopens.accepts).parent
  have hparent' : first.parentId = some base.id := by
    rw [hopens.checkpoint]
    cases expired <;> rfl
  change w.head.map Checkpoint.id = first.parentId at hparent
  rw [hparent'] at hparent
  obtain ⟨head, hhead, hsame⟩ := Option.map_eq_some_iff.mp hparent
  have hmem : head ∈ w.durable := by
    rw [h.head] at hhead
    exact List.mem_of_mem_head? hhead
  obtain rfl := h.unique hmem hbase hsame
  exact hhead

theorem Submitted.takesUp {request : Request} {expired : Bool} {first : Checkpoint}
    (h : Submitted cfg order w) (hopens : Opens cfg w request expired first) :
    first.active.commands = [] ∨
      ∃ base, w.head = some base ∧ first.active.commands = base.active.commands := by
  cases request with
  | start history context options =>
    left
    rw [hopens.checkpoint]
    cases expired <;> rfl
  | recover base messages resolutions metadata =>
    right
    refine ⟨base, h.resumes hopens, ?_⟩
    rw [hopens.checkpoint]
    cases expired <;> rfl

theorem Submitted.opened {request : Request} {expired : Bool} {first : Checkpoint}
    (h : Submitted cfg order w) (hopens : Opens cfg w request expired first) :
    Submitted cfg order (w.opened first) ∧
      ∀ p ∈ first.active.commands, p.id ∈ boundaryIds w.trace → p.sent = true := by
  have htrace : (w.opened first).trace = .committed first :: w.trace := rfl
  have hdurable : (w.opened first).durable = first :: w.durable := rfl
  have hsub : submissions (w.opened first).trace = [] := by
    rw [htrace]
    exact if_pos hopens.fact
  have htaken := h.takesUp hopens
  have hmarked : ∀ p ∈ first.active.commands, p.id ∈ boundaryIds w.trace → p.sent = true := by
    rcases htaken with hnone | ⟨base, hhead, hsame⟩
    · rw [hnone]
      exact fun p hp => by cases hp
    · rw [hsame]
      exact h.marked base hhead
  refine ⟨⟨h.nodup, ?_, ?_, ?_, ?_, h.known, ?_, rfl, ?_, ?_⟩, hmarked⟩
  · intro id hid
    obtain ⟨n, hn, rfl⟩ := h.named id hid
    exact ⟨n, Nat.lt_succ_of_lt hn, rfl⟩
  · rw [hdurable]
    refine List.forall_mem_cons.mpr ⟨?_, h.outboxes⟩
    rcases htaken with hnone | ⟨base, hhead, hsame⟩
    · rw [hnone]
      exact List.nil_sublist _
    · rw [hsame]
      exact (h.logged hhead).items
  · rw [hsub]
    exact List.nil_sublist _
  · rw [htrace]
    exact h.once.cons fun _ _ hsame => by cases hsame
  · intro c hc
    cases hc
    exact hmarked
  · rw [hdurable]
    refine List.forall_mem_cons.mpr ⟨⟨w.checkpoints, Nat.lt_succ_self _, hopens.id⟩, ?_⟩
    intro c hc
    obtain ⟨k, hk, hid⟩ := h.numbered c hc
    exact ⟨k, Nat.lt_succ_of_lt hk, hid⟩
  · rw [hdurable, List.map_cons, List.nodup_cons]
    refine ⟨?_, h.distinct⟩
    intro hmem
    obtain ⟨d, hd, hsame⟩ := List.mem_map.mp hmem
    obtain ⟨k, hk, hid⟩ := h.numbered d hd
    rw [hid, hopens.id] at hsame
    have hkw : k = w.checkpoints := cfg.checkpointName_injective hsame
    omega

def Work.isSent : Work → Bool
  | .commandSent _ => true
  | _ => false

/-- While the flag is down nothing is being submitted; otherwise one task is, or its report is
on the way. -/
structure Conveyed (e : Engine) : Prop where
  idle : e.sending = false → e.tasks.filter Task.isSubmit = [] ∧
    ∀ work ∈ e.works, work.isSent = false
  single : (e.tasks.filter Task.isSubmit).length + e.works.countP Work.isSent +
    (if e.handling.any Work.isSent then 1 else 0) ≤ 1

variable {e e' : Engine} {cause : Cause}

variable (cfg) in
/-- What a move does with the commands on their way. -/
inductive Hands (e e' : Engine) : Prop
  | kept (htasks : e'.tasks.filter Task.isSubmit = e.tasks.filter Task.isSubmit)
      (hsending : e'.sending = e.sending) (hsent : e'.sent = e.sent) (hworks : e'.works = e.works)
  | done (hending : e.handling.any Work.isSent = true) (htasks : e'.tasks = e.tasks)
      (hsent : e'.sent = e.sent) (hworks : e'.works = e.works)
  | batch {events : List SessionEvent} {taken : List Work}
      (habsent : ∀ order, Queue.Logged PendingCommand.id cfg.name order
        (outbox e.world.names e.current) → ∀ id ∈ acknowledgedIds events,
          id ∉ e'.current.active.commands.map PendingCommand.id)
      (hsent : e'.sent = e.sent.filter (· ∉ acknowledgedIds events)) (htasks : e'.tasks = e.tasks)
      (hsending : e'.sending = e.sending) (hworks : e.works = taken ++ e'.works)
  | submit {control : SessionControl} {first : PendingCommand} {commands : List PendingCommand}
      {batch : List SessionCommand} (h : Submission cfg e control first commands batch)
      (he : e' = e.submit control.projection batch)

private theorem filter_spawned {added : List Task}
    (hadded : ∀ task ∈ added, task.isSubmit = false) :
    (tasks ++ added).filter Task.isSubmit = tasks.filter Task.isSubmit := by
  have hnone : added.filter Task.isSubmit = [] := by
    refine List.filter_eq_nil_iff.mpr fun task htask => ?_
    rw [hadded task htask]
    exact Bool.false_ne_true
  rw [List.filter_append, hnone, List.append_nil]

private theorem filter_decided (input : Bool) :
    (tasks.map (Task.decided input)).filter Task.isSubmit = tasks.filter Task.isSubmit := by
  induction tasks with
  | nil => rfl
  | cons task rest ih =>
    have hsame : (task.decided input).isSubmit = task.isSubmit := by
      cases task with
      | mediaInput segment phase => cases phase <;> cases input <;> rfl
      | mediaOutput phase => cases phase <;> cases input <;> rfl
      | _ => rfl
    have hid : task.isSubmit = true → task.decided input = task := by
      cases task <;> intro h <;> first | rfl | cases h
    rw [List.map_cons, List.filter_cons, List.filter_cons, hsame, ih]
    split
    · rename_i hsubmit
      rw [hid hsubmit]
    · rfl

theorem Move.hands (h : Move cfg cause e e') : Hands cfg e e' := by
  have hspawn : ∀ {e' : Engine} (task : Task), task.isSubmit = false →
      e'.tasks = e.tasks ++ [task] → e'.sending = e.sending → e'.sent = e.sent →
        e'.works = e.works → Hands cfg e e' := by
    intro e' task htask htasks hsending hsent hworks
    refine .kept ?_ hsending hsent hworks
    rw [htasks]
    exact filter_spawned (by simpa using htask)
  cases h with
  | submit h => exact .submit h rfl
  | @sentDone result hhandling =>
    have hending : e.handling.any Work.isSent = true := by
      rw [hhandling]
      rfl
    exact .done hending rfl rfl rfl
  | @install id record handle hrecord hhandling =>
    have htasks : (e.install id record.state).tasks = e.tasks ++
        ((if record.state = .cancelling then [.cancel id false] else []) ++ [.events id]) :=
      List.append_assoc _ _ _
    refine .kept ?_ rfl rfl rfl
    rw [htasks]
    refine filter_spawned fun task htask => ?_
    rcases List.mem_append.mp htask with htask | htask
    · split at htask
      · rw [List.mem_singleton.mp htask]
        rfl
      · cases htask
    · rw [List.mem_singleton.mp htask]
      rfl
  | @requestCancel id =>
    rw [Engine.requestCancel_eq]
    by_cases hcontrol : id ∈ e.operationControls
    · simp only [hcontrol, if_true]
      exact hspawn _ rfl rfl rfl rfl rfl
    · simp only [hcontrol, if_false]
      exact .kept rfl rfl rfl rfl
  | awaitReply _ => exact hspawn _ rfl rfl rfl rfl rfl
  | start => exact hspawn _ rfl rfl rfl rfl rfl
  | delegate => exact hspawn _ rfl rfl rfl rfl rfl
  | recover => exact hspawn _ rfl rfl rfl rfl rfl
  | approval => exact hspawn _ rfl rfl rfl rfl rfl
  | bind => exact hspawn .session rfl rfl rfl rfl rfl
  | batch _ hstaged _ _ _ _ hqueue hstashed =>
    obtain ⟨taken, hqueue, -⟩ := hqueue
    refine @Hands.batch cfg _ _ _ taken (fun order hlogged => hstaged.acknowledged_absent hlogged)
      rfl rfl rfl ?_
    unfold Engine.works
    rw [hstashed, hqueue, List.append_assoc]
    rfl
  | decide _ _ => exact .kept (filter_decided _) rfl rfl rfl
  | sendInput _ _ => exact hspawn _ rfl rfl rfl rfl rfl
  | startOutput _ _ _ => exact hspawn _ rfl rfl rfl rfl rfl
  | _ => exact .kept rfl rfl rfl rfl

theorem Conveyed.move (h : Conveyed e) (hmove : Move cfg cause e e') : Conveyed e' := by
  have hhandling := hmove.handling
  have hsingle := h.single
  cases hmove.hands with
  | kept htasks hsending hsent hworks =>
    refine ⟨?_, ?_⟩
    · rw [hsending, htasks, hworks]
      exact h.idle
    · rw [htasks, hworks, hhandling]
      exact h.single
  | done hending htasks hsent hworks =>
    rw [hending, if_pos rfl] at hsingle
    have hnone : e.tasks.filter Task.isSubmit = [] := List.length_eq_zero_iff.mp (by omega)
    have hworksnone : e.works.countP Work.isSent = 0 := by omega
    refine ⟨?_, ?_⟩
    · intro _
      rw [htasks, hworks]
      refine ⟨hnone, fun work hwork => ?_⟩
      simpa using List.countP_eq_zero.mp hworksnone work hwork
    · rw [htasks, hworks, hhandling, hending, if_pos rfl]
      exact hsingle
  | @batch events taken habsent hsent htasks hsending hworks =>
    rw [hworks, List.countP_append] at hsingle
    refine ⟨?_, ?_⟩
    · rw [hsending, htasks]
      intro hidle
      obtain ⟨hnone, hworksnone⟩ := h.idle hidle
      refine ⟨hnone, fun work hwork => hworksnone work ?_⟩
      rw [hworks]
      exact List.mem_append_right _ hwork
    · rw [htasks, hhandling]
      omega
  | @submit control first commands batch hsubmission he =>
    obtain ⟨hnone, hworksnone⟩ := h.idle hsubmission.idle
    rw [he]
    have hcount : e.works.countP Work.isSent = 0 := by
      refine List.countP_eq_zero.mpr fun work hwork => ?_
      rw [hworksnone work hwork]
      exact Bool.false_ne_true
    have htasks : (e.submit control.projection batch).tasks.filter Task.isSubmit =
        [.submit control.projection batch] := by
      change (e.tasks ++ [_]).filter _ = _
      rw [List.filter_append, hnone]
      rfl
    refine ⟨fun hfalse => Bool.noConfusion hfalse, ?_⟩
    have hworks : (e.submit control.projection batch).works = e.works := rfl
    have hidle : (e.submit control.projection batch).handling = none := hsubmission.handling
    rw [htasks, hworks, hidle, hcount]
    exact Nat.le_refl 1

theorem Conveyed.turn (h : Conveyed e) (hturn : Turn cfg cause e e') : Conveyed e' := by
  cases hturn with
  | move hmove => exact h.move hmove
  | @take work queue hlooping hworks =>
    have hsingle := h.single
    have hall : e.works = work :: queue := hworks
    have hnext : (({ e with stashed := none, queue } : Engine).take work).works = queue := rfl
    rw [hall, List.countP_cons] at hsingle
    refine ⟨?_, ?_⟩
    · intro hidle
      obtain ⟨hnone, hworksnone⟩ := h.idle hidle
      refine ⟨hnone, ?_⟩
      rw [hnext]
      intro other hother
      refine hworksnone other ?_
      rw [hall]
      exact List.mem_cons_of_mem _ hother
    · rw [hnext]
      change (e.tasks.filter _).length + _ + (if (some work).any Work.isSent then 1 else 0) ≤ 1
      rw [Option.any_some]
      omega
  | drop hhandling _ =>
    have hsingle := h.single
    refine ⟨h.idle, ?_⟩
    change (e.tasks.filter _).length + e.works.countP _ + 0 ≤ 1
    omega

/-- A step of a submission performs its first command; any other step is none of these
matters. -/
inductive Performs (task : Task) (step : TaskStep) : Prop
  | other (htask : task.isSubmit = false) (hsilent : ∀ x ∈ step.effects, x.silent = true)
      (hremaining : ∀ task' ∈ step.remaining, task'.isSubmit = false)
      (hreport : ∀ work ∈ step.report, work.isSent = false)
  | more {projection : Bool} {command : SessionCommand} {rest : List SessionCommand}
      (htask : task = .submit projection (command :: rest))
      (heffects : step.effects = [.submitted projection command])
      (hremaining : step.remaining = some (.submit projection rest)) (hreport : step.report = none)
  | last {projection : Bool} {command : SessionCommand} {rest : List SessionCommand}
      {result : Result Unit} (htask : task = .submit projection (command :: rest))
      (heffects : step.effects = [.submitted projection command])
      (hremaining : step.remaining = none) (hreport : step.report = some (.commandSent result))

private theorem taskStep_other {task : Task} {event : TaskEvent} {step : TaskStep}
    (h : taskStep cfg task event = some step) (htask : task.isSubmit = false) :
    (∀ x ∈ step.effects, x.silent = true) ∧ (∀ task' ∈ step.remaining, task'.isSubmit = false) ∧
      ∀ work ∈ step.report, work.isSent = false := by
  unfold taskStep at h
  split at h <;> try split at h
  all_goals cases h
  all_goals first
    | cases htask; done
    | simp [Effect.silent, Task.isSubmit, Work.isSent]

theorem taskStep_performs {task : Task} {event : TaskEvent} {step : TaskStep}
    (h : taskStep cfg task event = some step) : Performs task step := by
  cases hsubmit : task.isSubmit with
  | false =>
    obtain ⟨hsilent, hremaining, hreport⟩ := taskStep_other h hsubmit
    exact .other hsubmit hsilent hremaining hreport
  | true =>
    obtain ⟨projection, batch, rfl⟩ : ∃ projection batch, task = .submit projection batch := by
      cases task with
      | submit projection batch => exact ⟨projection, batch, rfl⟩
      | _ => cases hsubmit
    cases batch with
    | nil =>
      unfold taskStep at h
      cases h
    | cons command rest =>
      cases event with
      | submitted result =>
        cases result with
        | error error =>
          cases h
          exact .last rfl rfl rfl rfl
        | ok _ =>
          cases h
          cases rest with
          | nil => exact .last rfl rfl rfl rfl
          | cons next rest => exact .more rfl rfl rfl rfl
      | _ =>
        unfold taskStep at h
        cases h

theorem outgoing_filter : outgoing (tasks.filter Task.isSubmit) = outgoing tasks := by
  induction tasks with
  | nil => rfl
  | cons task rest ih =>
    rw [List.filter_cons]
    split
    · unfold outgoing at ih ⊢
      rw [List.flatMap_cons, List.flatMap_cons, ih]
    · rename_i hother
      have hnone : task.submits = [] := by
        cases task with
        | submit projection batch => exact absurd rfl hother
        | _ => rfl
      rw [ih]
      unfold outgoing
      rw [List.flatMap_cons, hnone, List.nil_append]

theorem split_tasks {index : Nat} {task : Task} (h : tasks[index]? = some task) :
    tasks = tasks.take index ++ [task] ++ tasks.drop (index + 1) := by
  obtain ⟨hindex, rfl⟩ := List.getElem?_eq_some_iff.mp h
  rw [List.append_assoc, List.singleton_append, ← List.drop_eq_getElem_cons hindex,
    List.take_append_drop]

def stepped (index : Nat) (remaining : Option Task) (tasks : List Task) : List Task :=
  tasks.take index ++ remaining.toList ++ tasks.drop (index + 1)

theorem stepped_other {index : Nat} {task : Task} {remaining : Option Task}
    (h : tasks[index]? = some task) (htask : task.isSubmit = false)
    (hremaining : ∀ task' ∈ remaining, task'.isSubmit = false) :
    (stepped index remaining tasks).filter Task.isSubmit = tasks.filter Task.isSubmit := by
  have hnone : remaining.toList.filter Task.isSubmit = [] := by
    cases remaining with
    | none => rfl
    | some task' => exact List.filter_eq_nil_iff.mpr (by simpa using hremaining)
  unfold stepped
  conv_rhs => rw [split_tasks h]
  rw [List.filter_append, List.filter_append, List.filter_append, List.filter_append, hnone]
  simp [htask]

private theorem stepped_alone {index : Nat} {task : Task} (remaining : Option Task)
    (h : tasks[index]? = some task) (htask : task.isSubmit = true)
    (halone : (tasks.filter Task.isSubmit).length ≤ 1) :
    tasks.filter Task.isSubmit = [task] ∧
      (stepped index remaining tasks).filter Task.isSubmit =
        remaining.toList.filter Task.isSubmit := by
  have hsplit : tasks.filter Task.isSubmit = (tasks.take index).filter Task.isSubmit ++ [task] ++
      (tasks.drop (index + 1)).filter Task.isSubmit := by
    conv_lhs => rw [split_tasks h]
    rw [List.filter_append, List.filter_append]
    simp [htask]
  rw [hsplit] at halone
  simp only [List.length_append, List.length_singleton] at halone
  have hbefore : (tasks.take index).filter Task.isSubmit = [] :=
    List.length_eq_zero_iff.mp (by omega)
  have hafter : (tasks.drop (index + 1)).filter Task.isSubmit = [] :=
    List.length_eq_zero_iff.mp (by omega)
  rw [hbefore, hafter] at hsplit
  refine ⟨hsplit, ?_⟩
  unfold stepped
  rw [List.filter_append, List.filter_append, hbefore, hafter, List.nil_append, List.append_nil]

theorem Underway.congr {tasks' : List Task} (h : Underway order w tasks)
    (hsame : tasks'.filter Task.isSubmit = tasks.filter Task.isSubmit) :
    Underway order w tasks' := by
  have hout : outgoing tasks' = outgoing tasks := by
    rw [← outgoing_filter, hsame, outgoing_filter]
  refine ⟨?_, ?_, ?_, ?_, ?_⟩
  · rw [hsame]
    exact h.alone
  · rw [hout]
    exact h.inOrder
  · rw [hout]
    exact h.fresh
  · rw [hout]
    exact h.marked
  · rw [hout]
    exact h.current

/-- The commands submitted and those on their way, in order. -/
def handed (w : World) (tasks : List Task) : List String :=
  ((submissions w.trace).reverse ++ (outgoing tasks).map Prod.snd).map SessionCommand.id

def World.after (effects : List Effect) (w : World) : World :=
  { w with trace := effects ++ w.trace }

theorem performed {projection : Bool} {command : SessionCommand} {tasks' : List Task}
    {rest : List (Bool × SessionCommand)} (hs : Submitted cfg order w)
    (hu : Underway order w tasks) (hfirst : outgoing tasks = (projection, command) :: rest)
    (hrest : (outgoing tasks').Sublist rest)
    (halone : (tasks'.filter Task.isSubmit).length ≤ 1) :
    Submitted cfg order (w.after [.submitted projection command]) ∧
      Underway order (w.after [.submitted projection command]) tasks' ∧
      (handed (w.after [.submitted projection command]) tasks').Sublist (handed w tasks) := by
  have hfresh := hu.fresh
  have hmarked := hu.marked
  have hcurrent := hu.current
  have hinOrder := hu.inOrder
  rw [hfirst] at hfresh hmarked hcurrent hinOrder
  have hnodup := hs.nodup.sublist hinOrder
  rw [List.map_append, List.map_cons, List.map_cons] at hnodup
  have hcons : submissions (w.after [.submitted projection command]).trace =
      command :: submissions w.trace := rfl
  have htail : (((submissions w.trace).reverse ++ [command]).map SessionCommand.id).Sublist
      order := by
    refine List.Sublist.trans ?_ hinOrder
    refine List.Sublist.map _ (List.Sublist.append (List.Sublist.refl _) ?_)
    exact List.Sublist.cons_cons _ (List.nil_sublist _)
  have hhanded : (handed (w.after [.submitted projection command]) tasks').Sublist
      (handed w tasks) := by
    unfold handed
    rw [hcons, hfirst, List.reverse_cons, List.append_assoc]
    refine List.Sublist.map _ (List.Sublist.append (List.Sublist.refl _) ?_)
    exact (hrest.map Prod.snd).cons_cons _
  have hold : command.id ∈ order :=
    htail.subset (List.mem_map_of_mem (List.mem_append_right _ (List.mem_singleton_self _)))
  refine ⟨⟨hs.nodup, hs.named, hs.outboxes, ?_, ?_, ?_, ?_, hs.head, hs.numbered, hs.distinct⟩,
    ⟨halone, ?_, ?_, ?_, ?_⟩, hhanded⟩
  · rw [hcons, List.reverse_cons]
    exact htail
  · refine hs.once.cons fun projection' command' hsame => ?_
    cases hsame
    exact ⟨hfresh _ List.mem_cons_self, hmarked _ List.mem_cons_self⟩
  · intro id hid
    rcases mem_boundaryIds_submitted hid with ⟨-, rfl⟩ | hid
    · exact hold
    · exact hs.known id hid
  · intro c hc p hp hid
    rcases mem_boundaryIds_submitted hid with ⟨hneeds, hid⟩ | hid
    · exact hcurrent _ List.mem_cons_self hneeds c hc p hp hid
    · exact hs.marked c hc p hp hid
  · exact hhanded.trans hu.inOrder
  · intro x hx hid
    have hx := hrest.subset hx
    rcases mem_boundaryIds_submitted hid with ⟨-, hid⟩ | hid
    · have hnot := (List.nodup_cons.mp (List.nodup_append.mp hnodup).2.1).1
      rw [← hid] at hnot
      exact hnot (List.mem_map_of_mem (List.mem_map_of_mem hx))
    · exact hfresh x (List.mem_cons_of_mem _ hx) hid
  · intro x hx hneeds
    have hx := hrest.subset hx
    exact (hmarked x (List.mem_cons_of_mem _ hx) hneeds).mono fun _ h => List.mem_cons_of_mem _ h
  · intro x hx hneeds
    exact hcurrent x (List.mem_cons_of_mem _ (hrest.subset hx)) hneeds

private theorem boundary_performed {projection : Bool} {command : SessionCommand}
    {rest : List (Bool × SessionCommand)} {id : String}
    (hfirst : outgoing tasks = (projection, command) :: rest)
    (hid : id ∈ boundaryIds (w.after [.submitted projection command]).trace) :
    id ∈ boundaryIds w.trace ∨ id ∈ handed w tasks := by
  rcases mem_boundaryIds_submitted hid with ⟨-, rfl⟩ | hid
  · right
    unfold handed
    rw [hfirst]
    exact List.mem_map_of_mem (List.mem_append_right _ List.mem_cons_self)
  · exact .inl hid

theorem outgoing_single (projection : Bool) (batch : List SessionCommand) :
    outgoing [.submit projection batch] = batch.map fun command => (projection, command) := by
  unfold outgoing
  rw [List.flatMap_singleton]
  rfl

theorem Underway.only {index : Nat} {projection : Bool} {command : SessionCommand}
    {rest : List SessionCommand} (remaining : Option Task) (hu : Underway order w tasks)
    (h : tasks[index]? = some (.submit projection (command :: rest))) :
    tasks.filter Task.isSubmit = [.submit projection (command :: rest)] ∧
      (stepped index remaining tasks).filter Task.isSubmit =
        remaining.toList.filter Task.isSubmit ∧
      outgoing tasks =
        (projection, command) :: rest.map fun command => (projection, command) := by
  obtain ⟨honly, hstepped⟩ := stepped_alone remaining h rfl hu.alone
  refine ⟨honly, hstepped, ?_⟩
  rw [← outgoing_filter, honly, outgoing_single, List.map_cons]

theorem Underway.step {index : Nat} {task : Task} {step : TaskStep} (hs : Submitted cfg order w)
    (hu : Underway order w tasks) (htask : tasks[index]? = some task)
    (hperforms : Performs task step) :
    Submitted cfg order (w.after step.effects) ∧
      Underway order (w.after step.effects) (stepped index step.remaining tasks) ∧
      (handed (w.after step.effects) (stepped index step.remaining tasks)).Sublist
        (handed w tasks) ∧
      ∀ id ∈ boundaryIds (w.after step.effects).trace,
        id ∈ boundaryIds w.trace ∨ id ∈ handed w tasks := by
  cases hperforms with
  | other hother hsilent hremaining _ =>
    have hfilter := stepped_other htask hother hremaining
    obtain ⟨hsubmitted, hgrown⟩ : Submitted cfg order (w.after step.effects) ∧
        Grown order w (w.after step.effects) :=
      hs.quiet rfl rfl hsilent (le_refl _) (le_refl _)
    have hunderway : Underway order (w.after step.effects) tasks := by
      have hextended := hu.extends [] hgrown id
      rw [List.append_nil] at hextended
      exact hextended
    refine ⟨hsubmitted, hunderway.congr hfilter, ?_, ?_⟩
    · unfold handed
      rw [hgrown.submissions, ← outgoing_filter, hfilter, outgoing_filter]
    · rw [hgrown.boundary]
      exact fun id hid => .inl hid
  | @more projection command rest hsubmit heffects hremaining _ =>
    rw [hsubmit] at htask
    obtain ⟨-, hstepped, hfirst⟩ := hu.only step.remaining htask
    rw [heffects]
    have hrest : (outgoing (stepped index step.remaining tasks)).Sublist
        (rest.map fun command => (projection, command)) := by
      rw [← outgoing_filter, hstepped, hremaining]
      change (outgoing [.submit projection rest]).Sublist _
      rw [outgoing_single]
    have halone : ((stepped index step.remaining tasks).filter Task.isSubmit).length ≤ 1 := by
      rw [hstepped, hremaining]
      exact Nat.le_refl 1
    obtain ⟨hsubmitted, hunderway, hhanded⟩ := performed hs hu hfirst hrest halone
    refine ⟨hsubmitted, hunderway, hhanded, fun id hid => ?_⟩
    exact boundary_performed hfirst hid
  | @last projection command rest result hsubmit heffects hremaining _ =>
    rw [hsubmit] at htask
    obtain ⟨-, hstepped, hfirst⟩ := hu.only step.remaining htask
    rw [heffects]
    have hnone : (stepped index step.remaining tasks).filter Task.isSubmit = [] := by
      rw [hstepped, hremaining]
      rfl
    have hrest : (outgoing (stepped index step.remaining tasks)).Sublist
        (rest.map fun command => (projection, command)) := by
      rw [← outgoing_filter, hnone]
      exact List.nil_sublist _
    have halone : ((stepped index step.remaining tasks).filter Task.isSubmit).length ≤ 1 := by
      rw [hnone]
      exact Nat.zero_le 1
    obtain ⟨hsubmitted, hunderway, hhanded⟩ := performed hs hu hfirst hrest halone
    refine ⟨hsubmitted, hunderway, hhanded, fun id hid => ?_⟩
    exact boundary_performed hfirst hid

theorem Conveyed.step {index : Nat} {task : Task} {step : TaskStep} (h : Conveyed e)
    (hu : Underway order e.world e.tasks) (htask : e.tasks[index]? = some task)
    (hperforms : Performs task step) : Conveyed (e.taskStepped index step) := by
  have hsingle := h.single
  have htasks : (e.taskStepped index step).tasks = stepped index step.remaining e.tasks := rfl
  have hworks : (e.taskStepped index step).works = e.works ++ step.report.toList := by
    change _ ++ (_ ++ _) = _
    rw [← List.append_assoc]
    rfl
  have hsubmitting : ∀ {projection : Bool} {command : SessionCommand} {rest : List SessionCommand},
      e.tasks.filter Task.isSubmit = [.submit projection (command :: rest)] →
        (e.taskStepped index step).sending = true := by
    intro projection command rest honly
    cases hsending : e.sending with
    | true => exact hsending
    | false =>
      have hnone := (h.idle hsending).1
      rw [honly] at hnone
      cases hnone
  cases hperforms with
  | other hother hsilent hremaining hreport =>
    have hfilter := stepped_other htask hother hremaining
    have hsilentReport : ∀ work ∈ step.report.toList, work.isSent = false := by
      intro work hwork
      exact hreport work (Option.mem_toList.mp hwork)
    have hcount : step.report.toList.countP Work.isSent = 0 := by
      refine List.countP_eq_zero.mpr fun work hwork => ?_
      rw [hsilentReport work hwork]
      exact Bool.false_ne_true
    refine ⟨?_, ?_⟩
    · intro hidle
      obtain ⟨hnone, hworksnone⟩ := h.idle hidle
      rw [htasks, hfilter, hworks]
      refine ⟨hnone, fun work hwork => ?_⟩
      rcases List.mem_append.mp hwork with hwork | hwork
      · exact hworksnone work hwork
      · exact hsilentReport work hwork
    · rw [htasks, hfilter, hworks, List.countP_append, hcount]
      exact hsingle
  | more hsubmit _ hremaining hreport =>
    rw [hsubmit] at htask
    obtain ⟨honly, hstepped, -⟩ := hu.only step.remaining htask
    refine ⟨fun hidle => ?_, ?_⟩
    · rw [hsubmitting honly] at hidle
      cases hidle
    · rw [honly] at hsingle
      rw [htasks, hstepped, hworks, hremaining, hreport, Option.toList_none, List.append_nil]
      exact hsingle
  | last hsubmit _ hremaining hreport =>
    rw [hsubmit] at htask
    obtain ⟨honly, hstepped, -⟩ := hu.only step.remaining htask
    refine ⟨fun hidle => ?_, ?_⟩
    · rw [hsubmitting honly] at hidle
      cases hidle
    · rw [honly] at hsingle
      rw [htasks, hstepped, hworks, hremaining, hreport, Option.toList_some, List.countP_append]
      change 0 + (e.works.countP Work.isSent + 1) + _ ≤ 1
      simp only [List.length_singleton] at hsingle
      change 0 + (e.works.countP Work.isSent + 1) +
        (if e.handling.any Work.isSent then 1 else 0) ≤ 1
      omega

end Zhir.Kernel
