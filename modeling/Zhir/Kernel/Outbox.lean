import Zhir.Kernel.Commits
import Zhir.Library.Window

/-!
The context the model has not acknowledged yet: pending appends and replacements carry the
context revisions in order, and for an explicitly generating session the appended entries
are the end of the history.
-/

set_option autoImplicit false
set_option relaxedAutoImplicit false

namespace Zhir.Kernel

open Zhir.Core
open Zhir.Library (Window)

/-- A projection of a run's context on its way to the model. -/
structure Projection where
  /-- Revision and entry of every pending change of the context, in order. -/
  pending : List (Nat × Option Nat)
  acknowledged : Nat
  revision : Nat
  length : Nat

def projection (c : Checkpoint) : Projection where
  pending := c.active.commands.filterMap fun command => contextOf command.intent
  acknowledged := c.active.session.acknowledgedContextRevision
  revision := c.active.session.contextRevision
  length := c.history.len

namespace Projection

def revisions (v : Projection) : List Nat := v.pending.map Prod.fst

def entries (v : Projection) : List Nat := v.pending.filterMap Prod.snd

/-- What may happen to a projection. Only a session that does not generate explicitly
appends to the history without a command (`echo = false`). -/
inductive Next (echo : Bool) (v : Projection) : Projection → Prop
  | stay : Next echo v v
  | append :
      Next echo v
        { v with
          pending := v.pending ++ [(v.revision + 1, some v.length)]
          revision := v.revision + 1
          length := v.length + 1 }
  | silent (hecho : echo = false) : Next echo v { v with length := v.length + 1 }
  | replace {length : Nat} (hpending : v.pending = []) :
      Next echo v
        { v with pending := [(v.revision + 1, none)], revision := v.revision + 1, length }
  | acknowledge {before after : List (Nat × Option Nat)} {entry : Option Nat}
      (hpending : v.pending = before ++ (v.acknowledged + 1, entry) :: after) :
      Next echo v { v with pending := before ++ after, acknowledged := v.acknowledged + 1 }

/-- The pending revisions are the ones after the acknowledged one, in order. -/
def Contiguous (v : Projection) : Prop :=
  Window v.revisions (v.acknowledged + 1) (v.revision + 1)

/-- The pending entries are the last ones of the history, in order. -/
def Suffix (v : Projection) : Prop := ∃ first, Window v.entries first v.length

variable {echo : Bool} {v v' : Projection}

theorem Next.contiguous (h : Next echo v v') (hv : v.Contiguous) : v'.Contiguous := by
  unfold Contiguous revisions at hv ⊢
  cases h with
  | stay => exact hv
  | append =>
    rw [List.map_append]
    exact hv.push
  | silent _ => exact hv
  | replace hpending =>
    rw [hpending] at hv
    have hsame := hv.empty_iff.mp rfl
    have hnew : Window [] (v.revision + 1) (v.revision + 1) := Window.nil _
    rw [hsame]
    exact hnew.push
  | acknowledge hpending =>
    rw [hpending, List.map_append, List.map_cons] at hv
    have hbefore := hv.first
    rw [List.map_append, hbefore]
    rw [hbefore] at hv
    exact hv.pop.2

theorem Next.suffix (h : Next true v v') (hcontiguous : v.Contiguous) (hv : v.Suffix) :
    v'.Suffix := by
  obtain ⟨first, hv⟩ := hv
  unfold entries at hv
  unfold Suffix entries
  cases h with
  | stay => exact ⟨first, hv⟩
  | append =>
    rw [List.filterMap_append]
    exact ⟨first, hv.push⟩
  | silent hecho => cases hecho
  | replace _ => exact ⟨_, Window.nil _⟩
  | @acknowledge before after entry hpending =>
    unfold Contiguous revisions at hcontiguous
    rw [hpending, List.map_append, List.map_cons] at hcontiguous
    have hbefore : before = [] := List.map_eq_nil_iff.mp hcontiguous.first
    rw [hpending, hbefore] at hv
    rw [hbefore]
    cases entry with
    | none => exact ⟨first, hv⟩
    | some index => exact ⟨first + 1, hv.pop.2⟩

end Projection

variable {c c' : Checkpoint} {echo : Bool}

private theorem projection_pushCommand {id : String} {intent : CommandIntent} {sent : Bool}
    (h : contextOf intent = none) : projection (pushCommand id intent sent c) = projection c := by
  unfold projection pushCommand
  simp [h]

private theorem next_appendCommand {next : Checkpoint} {commandId : String} {source : AppendSource}
    {operationId : Option OperationId} (hcommands : next.active.commands = c.active.commands)
    (hacknowledged : next.active.session.acknowledgedContextRevision =
      c.active.session.acknowledgedContextRevision)
    (hrevision : next.active.session.contextRevision = c.active.session.contextRevision)
    (hhistory : next.history.len = c.history.len + 1) :
    Projection.Next echo (projection c)
      (projection (appendCommand commandId c.history.len source operationId next)) := by
  have happend : projection (appendCommand commandId c.history.len source operationId next) =
      { projection c with
        pending := (projection c).pending ++
          [((projection c).revision + 1, some (projection c).length)]
        revision := (projection c).revision + 1
        length := (projection c).length + 1 } := by
    unfold projection appendCommand pushCommand
    simp [hcommands, hacknowledged, hrevision, hhistory, contextOf]
  rw [happend]
  exact .append

private theorem next_stageEntry {next : Checkpoint} {capabilities : CapabilitySet}
    {commandId : String}
    {entry : HistoryEntry} (h : stageEntry capabilities commandId entry next = .ok c')
    (hcommands : next.active.commands = c.active.commands)
    (hacknowledged : next.active.session.acknowledgedContextRevision =
      c.active.session.acknowledgedContextRevision)
    (hrevision : next.active.session.contextRevision = c.active.session.contextRevision)
    (hhistory : next.history = c.history) :
    Projection.Next (capabilities.supports .explicitGeneration) (projection c) (projection c') := by
  obtain ⟨-, rfl⟩ := stageEntry_ok h
  split
  · rename_i hexplicit
    rw [hhistory]
    exact next_appendCommand hcommands hacknowledged hrevision (push_len _ _)
  · rename_i hexplicit
    have hsilent : projection { next with history := next.history.push entry } =
        { projection c with length := (projection c).length + 1 } := by
      unfold projection
      simp only [push_len, hcommands, hacknowledged, hrevision, hhistory]
    rw [hsilent]
    exact .silent (by simpa using hexplicit)

private theorem find_eraseP {α : Type} {p : α → Bool} {l : List α} {a : α}
    (h : l.find? p = some a) :
    ∃ before after, l = before ++ a :: after ∧ l.eraseP p = before ++ after := by
  induction l with
  | nil => cases h
  | cons x rest ih =>
    rw [List.find?_cons] at h
    rw [List.eraseP_cons]
    cases hx : p x with
    | true =>
      rw [hx] at h
      obtain rfl := Option.some.inj h
      exact ⟨[], rest, rfl, rfl⟩
    | false =>
      rw [hx] at h
      obtain ⟨before, after, hrest, herase⟩ := ih h
      refine ⟨x :: before, after, ?_, ?_⟩
      · rw [hrest]
        rfl
      · simp only [herase, cond_false]
        rfl

private theorem next_acknowledged
    {negotiated : List HistoryEntry → RequestProfile → Result NegotiatedProfile}
    {commandId : String} {recovery : Option RecoveryRef}
    (h : stageAcknowledged negotiated commandId recovery c = .ok c') :
    Projection.Next echo (projection c) (projection c') := by
  obtain ⟨command, next, hfind, hsettled, rfl⟩ := stageAcknowledged_ok h
  obtain ⟨before, after, hcommands, herase⟩ := find_eraseP hfind
  rw [herase] at hsettled
  have hpending : (projection c).pending =
      before.filterMap (fun command => contextOf command.intent) ++
        ((contextOf command.intent).toList ++
          after.filterMap fun command => contextOf command.intent) := by
    unfold projection
    rw [hcommands, List.filterMap_append, List.filterMap_cons]
    cases contextOf command.intent <;> rfl
  have hrest : (before ++ after).filterMap (fun command => contextOf command.intent) =
      before.filterMap (fun command => contextOf command.intent) ++
        after.filterMap fun command => contextOf command.intent := List.filterMap_append
  have hretired : ∀ next : Checkpoint, next.active.commands = before ++ after →
      next.active.session.acknowledgedContextRevision =
        c.active.session.acknowledgedContextRevision + 1 →
      next.active.session.contextRevision = c.active.session.contextRevision →
      next.history = c.history → ∀ entry, contextOf command.intent =
        some (c.active.session.acknowledgedContextRevision + 1, entry) →
      Projection.Next echo (projection c) (projection next) := by
    intro next hnext hacknowledged hrevision hhistory entry hcontext
    rw [hcontext] at hpending
    have hview : projection next =
        { projection c with
          pending := before.filterMap (fun command => contextOf command.intent) ++
            after.filterMap fun command => contextOf command.intent
          acknowledged := (projection c).acknowledged + 1 } := by
      unfold projection
      rw [hnext, hrest, hacknowledged, hrevision, hhistory]
    rw [hview]
    exact .acknowledge hpending
  have hkept : ∀ next : Checkpoint, next.active.commands = before ++ after →
      next.active.session.acknowledgedContextRevision =
        c.active.session.acknowledgedContextRevision →
      next.active.session.contextRevision = c.active.session.contextRevision →
      next.history = c.history → contextOf command.intent = none →
      Projection.Next echo (projection c) (projection next) := by
    intro next hnext hacknowledged hrevision hhistory hcontext
    have hview : projection next = projection c := by
      unfold projection at hpending ⊢
      simp only at hpending
      rw [hnext, hrest, hacknowledged, hrevision, hhistory, hpending, hcontext]
      rfl
    rw [hview]
    exact .stay
  generalize hintent : command.intent = intent at hsettled hretired hkept
  cases hsettled with
  | append => exact hretired _ rfl rfl rfl rfl _ rfl
  | replaceContext => exact hretired _ rfl rfl rfl rfl _ rfl
  | updateProfile => exact hkept _ rfl rfl rfl rfl rfl
  | other hcontext _ => exact hkept _ rfl rfl rfl rfl hcontext

private theorem next_stageEvent {cfg : Config} {e : Engine} {body : SessionEventBody}
    {operationId commandId : String} (h : stageEvent cfg e body operationId commandId c = .ok c') :
    Projection.Next ((e.capabilities cfg).supports .explicitGeneration) (projection c)
      (projection c') := by
  cases body with
  | ready contextRevision =>
    obtain ⟨-, -, rfl⟩ := stageReady_ok h
    exact .stay
  | responseStarted generationId inputPosition =>
    obtain ⟨-, -, next, rfl, -, -, -, rfl⟩ := stageStarted_ok h
    have hsame : projection (startedResponse (e.capabilities cfg) commandId
        (startedGeneration (e.capabilities cfg) generationId inputPosition c)) =
        projection c := by
      unfold startedResponse
      split
      · rw [projection_pushCommand rfl]
        unfold startedGeneration
        split <;> rfl
      · unfold startedGeneration
        split <;> rfl
    rw [hsame]
    exact .stay
  | conversationItem itemId message =>
    rcases stageConversationItem_ok h with ⟨-, rfl, -⟩ | ⟨-, -, h⟩
    · exact .stay
    · exact next_stageEntry h rfl rfl rfl rfl
  | acknowledged id recovery => exact next_acknowledged h
  | output generationId itemId callerId output =>
    obtain ⟨-, -, -, -, ⟨rfl, -⟩ | ⟨-, recorded, hrecorded, h⟩⟩ := stageOutput_ok h
    · exact .stay
    · obtain ⟨operations, rfl⟩ := recordOutput_ok hrecorded
      exact next_stageEntry h rfl rfl rfl rfl
  | responseFinished completion =>
    obtain ⟨-, -, -, -, -, h⟩ := stageFinished_ok h
    exact next_stageEntry h rfl rfl rfl rfl
  | recovery reference =>
    cases h
    exact .stay
  | closed reason providerData =>
    obtain ⟨-, rfl⟩ := stageClosed_ok h
    exact .stay
  | operation origin event =>
    cases h
    exact .stay
  | delta generationId value =>
    cases h
    exact .stay

private theorem next_rewrite {rewrite : HistoryRewrite} {commandId : String}
    (h : stageRewrite rewrite commandId c = .ok c') (hempty : c.active.commands = []) :
    Projection.Next echo (projection c) (projection c') := by
  obtain ⟨history, -, runStart, rfl⟩ := stageRewrite_ok h
  have hpending : (projection c).pending = [] := by
    unfold projection
    rw [hempty]
    rfl
  have hview : projection (pushCommand commandId
      (.replaceContext (c.active.session.contextRevision + 1)) false
        { c with
          history
          active.session.runStart := runStart
          active.session.responseStart := history.len
          active.session.contextRevision := c.active.session.contextRevision + 1
          active.session.reducedContextRevision :=
            some (c.active.session.contextRevision + 1) }) =
      { projection c with
        pending := [((projection c).revision + 1, none)]
        revision := (projection c).revision + 1
        length := history.len } := by
    unfold projection pushCommand
    simp [hempty, contextOf]
  rw [hview]
  exact .replace hpending

/-- What the kernel commits by itself never appends to the history in silence. -/
private theorem next_change {cfg : Config} {cause : Cause} {e : Engine} {w : World}
    {next : Checkpoint}
    {fact : Fact} {delta : HistoryDelta} (h : Change cfg cause e w next fact delta) :
    Projection.Next echo (projection e.current) (projection next) := by
  have hstay : ∀ {next : Checkpoint}, projection next = projection e.current →
      Projection.Next echo (projection e.current) (projection next) := by
    intro next hnext
    rw [hnext]
    exact .stay
  cases h with
  | @prepare intent archive media n hprepared hn =>
    have hcontext : contextOf intent = none := by cases hprepared <;> rfl
    refine hstay ?_
    rw [projection_pushCommand hcontext]
    cases intent <;> rfl
  | @markSent command hmem hunsent =>
    refine hstay ?_
    have hintents : ((fun command : PendingCommand => contextOf command.intent) ∘ fun c =>
        if c.id = command.id then { c with sent := true } else c) =
        fun command => contextOf command.intent := by
      funext c
      simp only [Function.comp]
      split <;> rfl
    unfold projection markSent
    simp only [List.filterMap_map, hintents]
  | finish _ _ _ _ hstage =>
    obtain ⟨history, happend, rfl⟩ := stageFinish_ok hstage
    obtain ⟨rfl, -⟩ := append_single happend
    exact next_appendCommand rfl rfl rfl (push_len _ _)
  | finishProvider _ _ _ _ _ hstage =>
    obtain ⟨history, happend, rfl⟩ := stageFinishProvider_ok hstage
    obtain ⟨rfl, -⟩ := append_single happend
    exact next_appendCommand rfl rfl rfl (push_len _ _)
  | context _ _ _ _ => exact hstay (projection_pushCommand rfl)
  | @abandon generationId reason resolutions _ _ _ _ _ =>
    refine hstay ?_
    have hgenerates : ∀ command : PendingCommand,
        (!CommandIntent.generates generationId command.intent) = false →
          contextOf command.intent = none := by
      intro command hcommand
      cases hintent : command.intent <;> rw [hintent] at hcommand <;> first | rfl | cases hcommand
    have hcommands : (e.current.active.commands.filter fun command =>
        !CommandIntent.generates generationId command.intent).filterMap
          (fun command => contextOf command.intent) =
        e.current.active.commands.filterMap fun command => contextOf command.intent := by
      generalize e.current.active.commands = commands
      induction commands with
      | nil => rfl
      | cons command rest ih =>
        rw [List.filter_cons]
        split
        · rw [List.filterMap_cons, List.filterMap_cons, ih]
        · rename_i hremoved
          rw [List.filterMap_cons, hgenerates command (by simpa using hremoved), ih]
    unfold projection stageAbandon
    simp only [hcommands]
  | insert _ _ _ _ hstage =>
    obtain ⟨-, rfl⟩ := stageInsert_ok hstage
    exact next_appendCommand rfl rfl rfl (push_len _ _)
  | generate _ _ _ _ _ _ => exact hstay (projection_pushCommand rfl)
  | rewrite _ _ _ _ hreducible _ hstage =>
    obtain ⟨history, -, runStart, rfl⟩ := stageRewrite_ok hstage
    have hempty : e.current.active.commands = [] := by
      unfold reducible at hreducible
      simp only [Bool.and_eq_true, List.isEmpty_iff] at hreducible
      exact hreducible.1.1.2
    exact next_rewrite hstage hempty
  | _ => exact hstay rfl

variable {cfg : Config}

/-- Whoever has been bound to the run generates when it is told to. -/
def GeneratesExplicitly (c : Checkpoint) : Prop :=
  ∀ capabilities, c.active.session.capabilities = some capabilities →
    capabilities.supports .explicitGeneration = true

/-- A commit moves the projection step by step; only a bound session's events may leave
entries unechoed. -/
theorem Commits.projection {e : Engine} {next : Checkpoint} {I : Projection → Prop}
    {fact : Fact} (h : Commits cfg e next fact)
    (hbound : e.handling.isSome = true → e.sessionControl.isSome = true)
    (hown : ∀ v v', I v → v.Next true v' → I v')
    (hevent : e.sessionControl.isSome = true → ∀ v v', I v →
      v.Next ((e.capabilities cfg).supports .explicitGeneration) v' → I v')
    (hcurrent : I (Kernel.projection e.current)) : I (Kernel.projection next) := by
  cases h with
  | change h => exact hown _ _ hcurrent (next_change h)
  | admitted _ _ => exact hcurrent
  | delegated _ _ => exact hcurrent
  | bound _ _ => exact hcurrent
  | batch hhandling hstaged =>
    have hcontrol := hbound (by rw [hhandling]; rfl)
    refine hstaged.rule (I := fun c => I (Kernel.projection c)) ?_ hcurrent
    intro event operationId commandId c c' hc hstage
    have hnext := next_stageEvent hstage
    exact hevent hcontrol _ _ hc hnext

def openingProjection : Request → Projection
  | .start history _ _ => ⟨[], 0, 0, history.len⟩
  | .recover base _ _ _ => projection base

private theorem initial_projection {w : World} {request : Request} {expired : Bool} {c : Checkpoint}
    (h : Opens cfg w request expired c) :
    projection c = openingProjection request := by
  rw [h.checkpoint]
  cases request <;> cases expired <;> rfl

private theorem contiguous_inductive (cfg : Config) :
    Inductive cfg (fun _ => True) fun c => (projection c).Contiguous where
  start w request expired c h hstart := by
    have hc := initial_projection h
    cases request with
    | start history context options =>
      rw [hc]
      exact Window.nil 1
    | recover base ms rs md => exact absurd rfl (hstart base ms rs md)
  recover w base messages resolutions metadata expired c h _ hbase := by
    rw [initial_projection h]
    exact hbase
  commit e w next fact delta hsound _ hcurrent _ _ hcommits _ := by
    refine hcommits.projection (I := Projection.Contiguous) hsound.bound ?_ ?_ hcurrent
    · exact fun v v' hv hnext => hnext.contiguous hv
    · exact fun _ v v' hv hnext => hnext.contiguous hv
  settle w c error _ hc _ := hc

/-- While every session generates explicitly, what is on its way is the end of the history. -/
private theorem suffix_inductive (cfg : Config) :
    Inductive cfg GeneratesExplicitly
      fun c => (projection c).Contiguous ∧ (projection c).Suffix where
  start w request expired c h hstart := by
    have hc := initial_projection h
    cases request with
    | start history context options =>
      rw [hc]
      exact ⟨Window.nil 1, _, Window.nil _⟩
    | recover base ms rs md => exact absurd rfl (hstart base ms rs md)
  recover w base messages resolutions metadata expired c h _ hbase := by
    rw [initial_projection h]
    exact hbase
  commit e w next fact delta hsound _ hcurrent hdurable _ hcommits _ := by
    have hown : ∀ v v' : Projection, v.Contiguous ∧ v.Suffix → v.Next true v' →
        v'.Contiguous ∧ v'.Suffix :=
      fun v v' hv hnext => ⟨hnext.contiguous hv.1, hnext.suffix hv.1 hv.2⟩
    refine hcommits.projection (I := fun v => v.Contiguous ∧ v.Suffix) hsound.bound hown ?_
      hcurrent
    intro hbound v v' hv hnext
    obtain ⟨control, hcontrol⟩ := Option.isSome_iff_exists.mp hbound
    have hexplicit : (e.capabilities cfg).supports .explicitGeneration = true := by
      unfold Engine.capabilities
      rw [hcontrol]
      exact hdurable _ hsound.durable _ (hsound.capabilities control hcontrol)
    rw [hexplicit] at hnext
    exact hown v v' hv hnext
  settle w c error _ hc _ := hc

/-- Entries and revisions that the model has not acknowledged, as the outbox carries them. -/
def contextRevisions (commands : List PendingCommand) : List Nat :=
  commands.filterMap fun command => (contextOf command.intent).map Prod.fst

private theorem revisions_projection (c : Checkpoint) :
    (projection c).revisions = contextRevisions c.active.commands := by
  unfold Projection.revisions projection contextRevisions
  exact List.map_filterMap

private theorem entries_projection (c : Checkpoint) :
    (projection c).entries = pendingEntries c.active.commands := by
  unfold Projection.entries projection pendingEntries
  simp only [List.filterMap_filterMap]
  congr 1
  funext command
  cases command.intent <;> rfl

private theorem min?_of_window {xs : List Nat} {lo hi : Nat} (h : Window xs lo hi) :
    xs.min?.getD hi = lo := by
  rcases hmin : xs.min? with _ | least
  · have hempty : xs = [] := by simpa using hmin
    exact (h.empty_iff.mp hempty).symm
  · have hle := h.le
    obtain ⟨hmem, hleast⟩ := List.min?_eq_some_iff.mp hmin
    obtain ⟨hlo, hhi⟩ := h.mem_iff.mp hmem
    have hfirst : lo ∈ xs := h.mem_iff.mpr ⟨Nat.le_refl lo, by omega⟩
    have := hleast lo hfirst
    simp only [Option.getD_some]
    omega

/-- The outbox carries the unacknowledged context in order: pending revisions are the ones
from the acknowledged to the current one, without gap or repeat, and while every session of
the run generates explicitly the appended entries are the end of the history, after the
prefix a reopened session is seeded with. -/
theorem outbox_carries_context {s : System} (hs : Reachable cfg s) {c : Checkpoint}
    (hc : c ∈ s.world.durable) :
    c.active.session.acknowledgedContextRevision ≤ c.active.session.contextRevision ∧
    contextRevisions c.active.commands =
      List.range' (c.active.session.acknowledgedContextRevision + 1)
        (c.active.session.contextRevision - c.active.session.acknowledgedContextRevision) ∧
    ((∀ c' ∈ s.world.durable, GeneratesExplicitly c') →
      seedEnd c ≤ c.history.len ∧
      pendingEntries c.active.commands =
        List.range' (seedEnd c) (c.history.len - seedEnd c) ∧
      (pendingEntries c.active.commands).map c.history.get =
        (c.history.entries.drop (seedEnd c)).map some) := by
  have hcontiguous := (contiguous_inductive cfg).reachable hs (fun _ _ => trivial) c hc
  have hle := hcontiguous.le
  have heq := hcontiguous.eq
  rw [revisions_projection] at heq
  simp only [projection] at hle heq
  refine ⟨by omega, ?_, fun hexplicit => ?_⟩
  · rw [heq]
    congr 1
    omega
  · obtain ⟨-, first, hwindow⟩ := (suffix_inductive cfg).reachable hs hexplicit c hc
    rw [entries_projection] at hwindow
    have hseed : seedEnd c = first := min?_of_window hwindow
    rw [hseed]
    exact ⟨hwindow.le, hwindow.eq, hwindow.map_getElem?⟩

/-- The calls of a bound session wait to be passed on to the model. -/
def sampleWaitingHead : Checkpoint := (sampleRun sampleTwice).head (by decide +kernel)

/-- Two appends are pending, and the first starts after what the session was seeded with. -/
theorem outbox_carries_waiting :
    sampleWaitingHead.supports .explicitGeneration = true ∧
      contextRevisions sampleWaitingHead.active.commands = [1, 2] ∧
      (pendingEntries sampleWaitingHead.active.commands).map sampleWaitingHead.history.get =
        (sampleWaitingHead.history.entries.drop 1).map some := by
  have hexplicit : ∀ c ∈ (sampleRun sampleTwice).world.durable, GeneratesExplicitly c := by
    have hbound : ∀ c ∈ (sampleRun sampleTwice).world.durable,
        c.active.session.capabilities.all (·.supports .explicitGeneration) = true := by
      decide +kernel
    intro c hc capabilities hsome
    have hall := hbound c hc
    rwa [hsome] at hall
  have hmem : sampleWaitingHead ∈ (sampleRun sampleTwice).world.durable :=
    (sampleRun sampleTwice).head_mem _
  obtain ⟨-, hrevisions, hsuffix⟩ := outbox_carries_context ⟨_, rfl⟩ hmem
  obtain ⟨-, -, hentries⟩ := hsuffix hexplicit
  refine ⟨by decide +kernel, ?_, ?_⟩
  · rw [hrevisions]
    decide +kernel
  · rw [hentries]
    have hseed : seedEnd sampleWaitingHead = 1 := by decide +kernel
    rw [hseed]

def sampleListener : ModelSession :=
  sampleSession
    { features := [.responseEvents, .conversationItems, .localProjection], rest := .null }

/-- An item arrives while a user message waits; the item is appended after the message. -/
def sampleListening : List Action :=
  [.start [.user [.text "go"]] ⟨"run", 0, none, none, none, []⟩
      { sampleOptions sampleLimits with mode := .interactive } false,
    .catalog (.ok sampleCatalog), .opened (.ok sampleListener), .pass] ++
  sampleEvent 0 (.ready 0) ++ [.control (.input (.user [.text "on"]) "sample"), .pass] ++
  sampleEvent 1 (.conversationItem "item" (.user [.text "said"]))

def sampleHeard : Checkpoint := (sampleRun sampleListening).head (by decide +kernel)

/-- Without a recovery reference the run continues on a session with other capabilities. -/
def sampleReopened : System :=
  sampleRun (sampleListening ++
    [.crash, .recover sampleHeard [] [] [] false, .catalog (.ok sampleCatalog),
      .opened (.ok (sampleSession sampleCapabilities))])

def sampleReopenedHead : Checkpoint := sampleReopened.head (by decide +kernel)

/-- The reopened session generates explicitly, and the pending append is not the end of
its history. -/
theorem reopened_outbox_not_suffix :
    Reachable sampleConfig sampleReopened ∧ sampleReopenedHead ∈ sampleReopened.world.durable ∧
    sampleReopenedHead.supports .explicitGeneration = true ∧
    ¬ ∃ start, pendingEntries sampleReopenedHead.active.commands =
      List.range' start (sampleReopenedHead.history.len - start) := by
  have hpending : pendingEntries sampleReopenedHead.active.commands = [1] := by decide +kernel
  have hlen : sampleReopenedHead.history.len = 3 := by decide +kernel
  refine ⟨⟨_, rfl⟩, sampleReopened.head_mem _, by decide +kernel, ?_⟩
  rintro ⟨start, hstart⟩
  rw [hpending, hlen] at hstart
  have hlength : 1 = 3 - start := by simpa using congrArg List.length hstart
  have hone : 1 ∈ List.range' start (3 - start) := by
    rw [← hstart]
    exact List.mem_singleton_self 1
  have := List.mem_range'_1.mp hone
  omega

end Zhir.Kernel
