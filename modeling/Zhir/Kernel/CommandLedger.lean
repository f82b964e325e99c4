import Zhir.Kernel.OperationLedger
import Zhir.Library.Queue

/-!
The command outbox over a whole run: commands join at its end under fresh identities, may be
marked as sent, and leave when they are acknowledged or given up.
-/

set_option autoImplicit false
set_option relaxedAutoImplicit false

namespace Zhir.Kernel

open Zhir.Core
open Zhir.Library (Program Queue)
open Relation (ReflTransGen)

variable {cfg : Config}

/-- A waiting command keeps its intent, and a command that was sent stays so. -/
def KeepsCommand (p q : PendingCommand) : Prop :=
  q.intent = p.intent ∧ (p.sent = true → q.sent = true)

theorem KeepsCommand.refl (p : PendingCommand) : KeepsCommand p p := ⟨rfl, id⟩

theorem KeepsCommand.trans (p q r : PendingCommand) (h : KeepsCommand p q)
    (h' : KeepsCommand q r) : KeepsCommand p r :=
  ⟨h'.1.trans h.1, fun hsent => h'.2 (h.2 hsent)⟩

/-- The outbox of a checkpoint, with the identities given out so far. -/
def outbox (n : Nat) (c : Checkpoint) : Queue PendingCommand := ⟨n, c.active.commands⟩

variable (cfg) in
def Outboxes : Queue PendingCommand → Queue PendingCommand → Prop :=
  ReflTransGen (Queue.Step PendingCommand.id cfg.name KeepsCommand)

variable {c c' : Checkpoint} {n m : Nat}

namespace Outboxes

theorem trans {q₁ q₂ q₃ : Queue PendingCommand} (h : Outboxes cfg q₁ q₂)
    (h' : Outboxes cfg q₂ q₃) : Outboxes cfg q₁ q₃ :=
  ReflTransGen.trans h h'

theorem retired (hn : n ≤ m) (h : c'.active.commands.Sublist c.active.commands) :
    Outboxes cfg (outbox n c) (outbox m c') :=
  .single (.leave hn h)

theorem same (hn : n ≤ m) (h : c'.active.commands = c.active.commands) :
    Outboxes cfg (outbox n c) (outbox m c') := by
  refine retired hn ?_
  rw [h]

theorem pushed {intent : CommandIntent} {sent : Bool} {k : Nat} (hk : n ≤ k) (hm : k < m)
    (h : c'.active.commands = c.active.commands ++ [⟨cfg.name k, intent, sent⟩]) :
    Outboxes cfg (outbox n c) (outbox m c') := by
  unfold outbox
  rw [h]
  exact .single (.join hk hm rfl)

end Outboxes

variable {order : List String} {q q' : Queue PendingCommand}

theorem Outboxes.logged (h : Outboxes cfg q q')
    (hq : Queue.Logged PendingCommand.id cfg.name order q) :
    ∃ added, Queue.Logged PendingCommand.id cfg.name (order ++ added) q' ∧
      Queue.Carries PendingCommand.id KeepsCommand order q q' :=
  Queue.Steps.logged cfg.name_injective KeepsCommand.refl KeepsCommand.trans h hq

private theorem absent_eraseP {commands : List PendingCommand} {id : String}
    (h : (commands.map PendingCommand.id).Nodup) :
    id ∉ (commands.eraseP fun p => p.id = id).map PendingCommand.id := by
  induction commands with
  | nil => exact List.not_mem_nil
  | cons command rest ih =>
    rw [List.map_cons, List.nodup_cons] at h
    by_cases hsame : command.id = id
    · rw [List.eraseP_cons_of_pos (by simpa using hsame), ← hsame]
      exact h.1
    · rw [List.eraseP_cons_of_neg (by simpa using hsame), List.map_cons, List.mem_cons, not_or]
      exact ⟨fun heq => hsame heq.symm, ih h.2⟩

private theorem outboxes_stageEntry {capabilities : CapabilitySet} {entry : HistoryEntry}
    {base : Checkpoint}
    {k : Nat} (h : stageEntry capabilities (cfg.name k) entry base = .ok c')
    (hbase : base.active.commands = c.active.commands) (hn : n ≤ k) (hm : k < m) :
    Outboxes cfg (outbox n c) (outbox m c') := by
  obtain ⟨-, rfl⟩ := stageEntry_ok h
  have hsame : Outboxes cfg (outbox n c) (outbox n base) := .same (le_refl n) hbase
  split
  · exact hsame.trans (.pushed hn hm rfl)
  · exact hsame.trans (.same (by omega) rfl)

private theorem outboxes_stageEvent {e : Engine} {body : SessionEventBody} {operationId : String}
    {k : Nat}
    (h : stageEvent cfg e body operationId (cfg.name k) c = .ok c') (hn : n ≤ k) (hm : k < m) :
    Outboxes cfg (outbox n c) (outbox m c') := by
  have hle : n ≤ m := by omega
  cases body with
  | ready contextRevision =>
    obtain ⟨-, -, rfl⟩ := stageReady_ok h
    exact .same hle rfl
  | responseStarted generationId inputPosition =>
    obtain ⟨-, -, next, rfl, -, -, -, rfl⟩ := stageStarted_ok h
    have hstarted : Outboxes cfg (outbox n c) (outbox n
        (startedGeneration (e.capabilities cfg) generationId inputPosition c)) := by
      refine .same (le_refl n) ?_
      unfold startedGeneration
      split <;> rfl
    unfold startedResponse
    split
    · exact hstarted.trans (.pushed hn hm rfl)
    · exact hstarted.trans (.same hle rfl)
  | conversationItem itemId message =>
    rcases stageConversationItem_ok h with ⟨-, rfl, -⟩ | ⟨-, -, h⟩
    · exact .same hle rfl
    · exact outboxes_stageEntry h rfl hn hm
  | acknowledged id recovery =>
    obtain ⟨command, next, -, hsettled, rfl⟩ := stageAcknowledged_ok h
    have hcommands : next.active.commands =
        c.active.commands.eraseP fun p => p.id = id := by
      generalize command.intent = intent at hsettled
      cases hsettled <;> rfl
    refine .retired hle ?_
    change next.active.commands.Sublist _
    rw [hcommands]
    exact List.eraseP_sublist
  | output generationId itemId callerId output =>
    obtain ⟨-, -, -, -, ⟨rfl, -⟩ | ⟨-, recorded, hrecorded, h⟩⟩ := stageOutput_ok h
    · exact .same hle rfl
    · obtain ⟨operations, rfl⟩ := recordOutput_ok hrecorded
      exact outboxes_stageEntry h rfl hn hm
  | responseFinished completion =>
    obtain ⟨-, -, -, -, -, h⟩ := stageFinished_ok h
    exact outboxes_stageEntry h rfl hn hm
  | recovery reference =>
    cases h
    exact .same hle rfl
  | closed reason providerData =>
    obtain ⟨-, rfl⟩ := stageClosed_ok h
    exact .same hle rfl
  | operation origin event =>
    cases h
    exact .same hle rfl
  | delta generationId value =>
    cases h
    exact .same hle rfl

theorem Staged.outboxes {e : Engine} {events : List SessionEvent}
    (h : Staged cfg e n c events m c') : Outboxes cfg (outbox n c) (outbox m c') := by
  induction h with
  | nil hm => exact .same hm rfl
  | @cons n k m c c₁ c₂ event rest hk hstage _ ih =>
    have hfirst : Outboxes cfg (outbox n (withSequence event.sequence c)) (outbox (k + 2) c₁) :=
      outboxes_stageEvent hstage (by omega) (by omega)
    exact hfirst.trans ih

theorem Change.outboxes {cause : Cause} {e : Engine} {w : World} {next : Checkpoint} {fact : Fact}
    {delta : HistoryDelta} (hw : e.world.Counted w)
    (h : Change cfg cause e w next fact delta) :
    Outboxes cfg (outbox e.world.names e.current) (outbox w.names next) := by
  have hle := hw.names
  cases h with
  | @prepare intent archive media k hprepared hk =>
    refine .pushed hk.1 hk.2 (show _ = _ ++ [PendingCommand.mk (cfg.name k) intent false] from ?_)
    cases intent <;> rfl
  | @markSent command hmem hunsent =>
    have hmarked : Outboxes cfg (outbox e.world.names e.current)
        (outbox e.world.names (Kernel.markSent command.id e.current)) := by
      refine .single (.change _ (fun p => ?_) fun p => ?_)
      · split <;> rfl
      · split
        · exact ⟨rfl, fun _ => rfl⟩
        · exact KeepsCommand.refl p
    exact hmarked.trans (.same hle rfl)
  | finish _ _ _ hk hstage =>
    obtain ⟨history, -, rfl⟩ := stageFinish_ok hstage
    exact .pushed hk.1 hk.2 rfl
  | finishProvider _ _ _ hk _ hstage =>
    obtain ⟨history, -, rfl⟩ := stageFinishProvider_ok hstage
    exact .pushed hk.1 hk.2 rfl
  | context _ _ _ hk => exact .pushed hk.1 hk.2 rfl
  | abandon _ _ _ _ _ => exact .retired hle List.filter_sublist
  | insert _ hn hk _ hstage =>
    obtain ⟨-, rfl⟩ := stageInsert_ok hstage
    exact .pushed hk.1 hk.2 rfl
  | generate _ _ _ hn hk _ => exact .pushed hk.1 hk.2 rfl
  | rewrite _ _ _ _ _ hk hstage =>
    obtain ⟨history, -, runStart, rfl⟩ := stageRewrite_ok hstage
    exact .pushed hk.1 hk.2 rfl
  | _ => exact .same hle rfl

theorem Staged.acknowledged_absent {e : Engine} {events : List SessionEvent} 
    (h : Staged cfg e n c events m c')
    (hlogged : Queue.Logged PendingCommand.id cfg.name order (outbox n c)) :
    ∀ id ∈ acknowledgedIds events, id ∉ c'.active.commands.map PendingCommand.id := by
  induction h generalizing order with
  | nil _ =>
    intro id hid
    cases hid
  | @cons n k m c c₁ c₂ event rest hk hstage hrest ih =>
    have hfirst : Outboxes cfg (outbox n (withSequence event.sequence c)) (outbox (k + 2) c₁) :=
      outboxes_stageEvent hstage (by omega) (by omega)
    obtain ⟨added, hlogged₁, -⟩ := hfirst.logged hlogged
    obtain ⟨-, -, hcarries⟩ := hrest.outboxes.logged hlogged₁
    intro id hid
    have hcases : (∃ recovery, event.body = .acknowledged id recovery) ∨
        id ∈ acknowledgedIds rest := by
      unfold acknowledgedIds at hid
      rw [List.filterMap_cons] at hid
      cases hbody : event.body with
      | acknowledged commandId recovery =>
        rw [hbody] at hid
        rcases List.mem_cons.mp hid with rfl | hid
        · exact .inl ⟨recovery, rfl⟩
        · exact .inr hid
      | _ =>
        rw [hbody] at hid
        exact .inr hid
    rcases hcases with ⟨recovery, hbody⟩ | hid
    · rw [hbody] at hstage
      obtain ⟨command, next, hfind, hsettled, rfl⟩ := stageAcknowledged_ok hstage
      have hcommands : next.active.commands =
          c.active.commands.eraseP fun p => p.id = id := by
        generalize command.intent = intent at hsettled
        cases hsettled <;> rfl
      have hmem : command ∈ c.active.commands := List.mem_of_find?_eq_some hfind
      have hsame : command.id = id := by simpa using List.find?_some hfind
      have hold : id ∈ order := by
        rw [← hsame]
        exact hlogged.items.subset (List.mem_map_of_mem hmem)
      have hnodup : (c.active.commands.map PendingCommand.id).Nodup :=
        hlogged.nodup.sublist hlogged.items
      have hout : id ∉ next.active.commands.map PendingCommand.id := by
        rw [hcommands]
        exact absent_eraseP hnodup
      exact hcarries.absent (List.mem_append_left _ hold) hout
    · exact ih hlogged₁ id hid

def Effect.silent : Effect → Bool
  | .committed _ | .submitted _ _ => false
  | _ => true

def opensExecution : Fact → Bool
  | .started | .attached => true
  | _ => false

variable (cfg) in
/-- Up to one commit after the durable head, which never opens an execution. -/
inductive World.Extends (w w' : World) : Prop
  | quiet {effects : List Effect} (hhead : w'.head = w.head)
      (htrace : w'.trace = effects ++ w.trace) (hsilent : ∀ x ∈ effects, x.silent = true)
      (hstarts : ∀ x ∈ effects, ∀ id, x ≠ .started id)
      (hnames : w.names ≤ w'.names) (hcheckpoints : w.checkpoints ≤ w'.checkpoints)
  | commit {c next : Checkpoint} {k m : Nat} (hhead : w.head = some c) (hk : w.checkpoints ≤ k)
      (hid : next.id = cfg.checkpointName k) (hfact : opensExecution next.fact = false)
      (hout : Outboxes cfg (outbox w.names c) (outbox m next))
      (htables : Tables cfg w.names m c next) (hle : w.names ≤ m) (hhead' : w'.head = some next)
      (htrace : w'.trace = .committed next :: w.trace) (hnames : m ≤ w'.names)
      (hcheckpoints : k < w'.checkpoints) (hvalid : next.Valid)
      (hstore : ∃ delta, (Commit.mk next delta).validateAgainst (some c) = .ok ())

variable {e e' : Engine} {cause : Cause}

theorem World.Extends.counted {w w' : World} (h : w.Counted w') : World.Extends cfg w w' := by
  have htrace : w'.trace = [] ++ w.trace := h.trace
  exact .quiet h.head htrace (fun _ hx => by cases hx) (fun _ hx => by cases hx) h.names
    h.checkpoints

theorem World.Extends.head_isSome {w w' : World} (h : World.Extends cfg w w')
    (hhead : w.head.isSome = true) : w'.head.isSome = true := by
  cases h with
  | quiet hsame => rw [hsame, hhead]
  | commit _ _ _ _ _ _ _ hhead' =>
    rw [hhead']
    rfl

theorem World.Extends.saved {w w' : World} {next : Checkpoint} {fact : Fact}
    {delta : HistoryDelta} (hw : e.world.Counted w) (hhead : e.world.head = some e.current)
    (haccepts : Accepts cfg w e.current next fact delta) (hfact : opensExecution fact = false)
    (hout : Outboxes cfg (outbox e.world.names e.current) (outbox w.names next))
    (htables : Tables cfg e.world.names w.names e.current next)
    (hw' : (e.saved cfg w next fact).world.Counted w') : World.Extends cfg e.world w' := by
  have htrace : w'.trace = .committed (stamp cfg w e.current next fact) :: e.world.trace := by
    rw [hw'.trace, ← hw.trace]
    rfl
  have hnames : w.names ≤ w'.names := hw'.names
  have hcheckpoints : w.checkpoints + 1 ≤ w'.checkpoints := hw'.checkpoints
  have hstore := haccepts
  unfold Accepts at hstore
  rw [hw.head, hhead] at hstore
  exact @World.Extends.commit cfg _ _ e.current (stamp cfg w e.current next fact) w.checkpoints
    w.names hhead hw.checkpoints rfl hfact hout htables hw.names hw'.head htrace hnames
    hcheckpoints haccepts.valid ⟨delta, hstore⟩

theorem Change.fact {w : World} {next : Checkpoint} {fact : Fact} {delta : HistoryDelta}
    (h : Change cfg cause e w next fact delta) : opensExecution fact = false := by
  cases h <;> rfl

theorem Move.extends (h : Move cfg cause e e') (hhead : e.world.head = some e.current)
    (hvalid : e.current.Valid) : World.Extends cfg e.world e'.world := by
  have hstay : World.Extends cfg e.world e.world := .counted (.refl _)
  cases h with
  | count hw => exact .counted hw
  | save hw hchange haccepts =>
    exact .saved hw hhead haccepts hchange.fact (hchange.outboxes hw) (hchange.tables hvalid)
      (.refl _)
  | start hw hrecord _ _ _ haccepts hw' =>
    exact .saved hw hhead haccepts rfl (.same hw.names rfl)
      (.replace hrecord rfl (fun h => by cases h) ⟨rfl, rfl⟩) hw'
  | delegate hw hrecord _ _ _ _ _ haccepts =>
    exact .saved hw hhead haccepts rfl (.same hw.names rfl)
      (.replace hrecord rfl (fun h => by cases h) ⟨rfl, rfl⟩) (.refl _)
  | bind hw _ _ haccepts =>
    exact .saved hw hhead haccepts rfl (.same hw.names rfl) (.same rfl) (.refl _)
  | batch hw hstaged haccepts _ hfact =>
    obtain ⟨sequence, rfl⟩ := hfact
    exact .saved hw hhead haccepts rfl hstaged.outboxes hstaged.tables (.refl _)
  | opening _ =>
    have hsilent : ∀ x ∈ [Effect.opening e.sessionOpen], x.silent = true := by
      simp [Effect.silent]
    have hstarts : ∀ x ∈ [Effect.opening e.sessionOpen], ∀ id, x ≠ .started id := by simp
    exact .quiet rfl rfl hsilent hstarts (le_refl _) (le_refl _)
  | @requestCancel id =>
    rw [Engine.requestCancel_eq]
    by_cases htoken : id ∈ e.tokens
    · have hsilent : ∀ x ∈ [Effect.cancelled id], x.silent = true := by simp [Effect.silent]
      have hstarts : ∀ x ∈ [Effect.cancelled id], ∀ id, x ≠ .started id := by simp
      simp only [htoken, if_true]
      exact .quiet rfl rfl hsilent hstarts (le_refl _) (le_refl _)
    · simp only [htoken, if_false]
      exact hstay
  | _ => exact hstay

private theorem settle_tasks (cfg : Config) (error : Error) (e : Engine) :
    (Program.run (settle cfg error) e).2.tasks = e.tasks := by
  unfold settle
  split
  · rfl
  · change (Program.run (commit cfg _ _ _) e).2.tasks = _
    rcases run_commit cfg e (stageSettled (settledState error).1 e.current)
      (.control (settledState error).2) .unchanged with
      ⟨error', w', -, hr⟩ | ⟨-, hr | hr⟩
    · rw [hr]
      rfl
    · rw [hr]
      rfl
    · rw [hr]

private theorem settle_extends (error : Error) (hhead : e.world.head = some e.current) :
    World.Extends cfg e.world (Program.run (settle cfg error) e).2.world := by
  obtain ⟨w, hw, hsame | ⟨haccepts, hsaved⟩⟩ := settle_writes cfg error e
  · rw [hsame]
    exact .counted hw
  · rw [hsaved]
    exact .saved (.refl _) hhead haccepts rfl (.same (le_refl _) rfl) (tables_stageSettled _)
      (.refl _)

theorem Fault.extends {error : Error} (h : Fault cfg cause e error e')
    (hhead : e.world.head = some e.current) (hvalid : e.current.Valid) :
    ∃ w, World.Extends cfg e.world w ∧
      World.Extends cfg w (Program.run (settle cfg error) e').2.world ∧
      (Program.run (settle cfg error) e').2.tasks = e.tasks := by
  rw [settle_tasks]
  cases h with
  | stopped hcurrent htasks hworld =>
    have hhead' : e'.world.head = some e'.current := by
      rw [hworld.head, hcurrent]
      exact hhead
    exact ⟨e'.world, .counted hworld, settle_extends error hhead', htasks⟩
  | unconfirmed hmove _ htasks hworld =>
    have hinfra : (Program.run (settle cfg commitTimeout) e').2 = e' := rfl
    refine ⟨e'.world, ?_, ?_, htasks⟩
    · rw [hworld]
      exact hmove.extends hhead hvalid
    · rw [hinfra]
      exact .counted (.refl _)
  | unstarted hw hrecord _ _ _ haccepts hcurrent htasks hworld =>
    have hhead' : e'.world.head = some e'.current := by
      rw [hworld.head, hcurrent]
      rfl
    refine ⟨e'.world, ?_, settle_extends error hhead', htasks⟩
    exact .saved hw hhead haccepts rfl (.same hw.names rfl)
      (.replace hrecord rfl (fun h => by cases h) ⟨rfl, rfl⟩) hworld

end Zhir.Kernel
