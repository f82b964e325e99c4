import Zhir.Kernel.Restarts

/-!
The order of starts: under the default scheduler a runtime tool call is started when no
call emitted before it is queued.
-/

set_option autoImplicit false
set_option relaxedAutoImplicit false

namespace Zhir.Kernel

open Zhir.Core

variable {cfg : Config} {trace older : List Effect}

def latest (trace : List Effect) : Option Checkpoint :=
  trace.findSome? fun
    | .committed c => some c
    | _ => none

/-- A durable checkpoint has both records, the other one for a call emitted before the
runtime tool call. -/
def EmittedBefore (trace : List Effect) (other id : OperationId) : Prop :=
  ∃ d, Effect.committed d ∈ trace ∧ ∃ b a name, d.active.operations[other]? = some b ∧
    d.active.operations[id]? = some a ∧ a.owner = .runtimeTool name ∧ b.callEntry < a.callEntry

/-- No call emitted before this one is queued in the checkpoint. -/
def Foregone (c : Checkpoint) (trace : List Effect) (id : OperationId) : Prop :=
  ∀ other b, QueuedCall c other b → ¬ EmittedBefore trace other id

def StartsInOrder (trace : List Effect) : Prop :=
  ∀ newer older id, trace = newer ++ .started id :: older →
    ∃ c, latest older = some c ∧ Foregone c older id

theorem StartsInOrder.cons {x : Effect} (h : StartsInOrder trace)
    (hx : ∀ id, x = .started id → ∃ c, latest trace = some c ∧ Foregone c trace id) :
    StartsInOrder (x :: trace) := by
  intro newer older id htrace
  cases newer with
  | nil =>
    obtain ⟨rfl, rfl⟩ := List.cons.inj htrace
    exact hx id rfl
  | cons y newer =>
    obtain ⟨-, hrest⟩ := List.cons.inj htrace
    exact h newer older id hrest

theorem StartsInOrder.append {effects : List Effect} (h : StartsInOrder trace)
    (heffects : ∀ x ∈ effects, ∀ id, x ≠ .started id) : StartsInOrder (effects ++ trace) := by
  induction effects with
  | nil => exact h
  | cons x rest ih =>
    obtain ⟨hx, hrest⟩ := List.forall_mem_cons.mp heffects
    exact (ih hrest).cons fun id hsame => absurd hsame (hx id)

private theorem latest_append {effects : List Effect} (h : ∀ x ∈ effects, ∀ c, x ≠ .committed c) :
    latest (effects ++ trace) = latest trace := by
  unfold latest
  rw [List.findSome?_append, List.findSome?_eq_none_iff.mpr, Option.none_or]
  intro x hx
  cases x with
  | committed c => exact absurd rfl (h _ hx c)
  | _ => rfl

private theorem EmittedBefore.of_committed {other id : OperationId}
    (h : EmittedBefore trace other id)
    (hsub : ∀ d, Effect.committed d ∈ trace → Effect.committed d ∈ older) :
    EmittedBefore older other id := by
  obtain ⟨d, hd, hboth⟩ := h
  exact ⟨d, hsub d hd, hboth⟩

variable (cfg) in
/-- The records of host operations keep their calls, from one durable checkpoint to all
later ones. -/
structure Steady (w : World) : Prop where
  latest : w.head = latest w.trace
  valid : ∀ c, w.head = some c → c.Valid
  same : ∀ c, w.head = some c → ∀ d, Effect.committed d ∈ w.trace →
    ∀ (name : String) (op op' : OperationRecord),
      d.active.operations[OperationId.host name]? = some op →
      c.active.operations[OperationId.host name]? = some op' → SameCall op op'

def InTurn (w : World) (id : OperationId) : Prop :=
  ∀ c, w.head = some c → Foregone c w.trace id

variable {w w' : World} {tasks : List Task} {id : OperationId}

private theorem Started.queued_known (h : Started cfg w) {c : Checkpoint}
    (hc : Effect.committed c ∈ w.trace) {op : OperationRecord}
    (hop : c.active.operations[id]? = some op) (hqueued : op.state = .queued) :
    ∃ k < w.names, id = .host (cfg.name k) := by
  rcases h.known c (mem_durable.mpr hc) id op hop with hknown | ⟨-, hstate⟩
  · exact hknown
  · exact absurd hqueued hstate

theorem Started.unknown (h : Started cfg w) {d : Checkpoint}
    (hd : Effect.committed d ∈ w.trace) {k : Nat} (hk : w.names ≤ k) {op : OperationRecord} :
    d.active.operations[OperationId.host (cfg.name k)]? ≠ some op := by
  intro hop
  rcases h.known d (mem_durable.mpr hd) _ op hop with ⟨j, hj, hid⟩ | ⟨hhost, -⟩
  · have hjk : k = j := cfg.name_injective (OperationId.host.inj hid)
    omega
  · exact hhost _ rfl

theorem Tables.kept {n m : Nat} {c c' : Checkpoint} (h : Tables cfg n m c c') {k : Nat}
    (hk : k < n) {op' : OperationRecord}
    (hop' : c'.active.operations[OperationId.host (cfg.name k)]? = some op') :
    ∃ op, c.active.operations[OperationId.host (cfg.name k)]? = some op ∧
      (op'.state = .queued → op.state = .queued) ∧ SameCall op op' := by
  rcases h _ op' hop' with hold | ⟨⟨j, hj, -, hid⟩, -⟩ | ⟨hhost, -⟩
  · exact hold
  · have hjk : k = j := cfg.name_injective (OperationId.host.inj hid)
    omega
  · exact absurd rfl (hhost _)

theorem Tables.queued {n m : Nat} {c c' : Checkpoint} (h : Tables cfg n m c c')
    {op' : OperationRecord} (hop' : QueuedCall c' id op') :
    (∃ op, QueuedCall c id op ∧ op'.callEntry = op.callEntry) ∨
      (∃ k, n ≤ k ∧ id = .host (cfg.name k)) ∧ c.history.len ≤ op'.callEntry := by
  obtain ⟨hop', hqueued, howner⟩ := hop'
  rcases h id op' hop' with ⟨op, hop, hold, hcall⟩ | ⟨⟨k, hk, -, hid⟩, hentry⟩ | ⟨-, hstate⟩
  · refine .inl ⟨op, ⟨hop, hold hqueued, ?_⟩, hcall.entry⟩
    rw [← hcall.owner]
    exact howner
  · exact .inr ⟨⟨k, hk, hid⟩, hentry⟩
  · exact absurd hqueued hstate

private theorem callEntry_lt {c : Checkpoint} (h : c.Valid) {op : OperationRecord}
    (hop : c.active.operations[id]? = some op) : op.callEntry < c.history.len := by
  obtain ⟨entry, hentry, -⟩ := (h.operations id op hop).call
  exact (List.getElem?_eq_some_iff.mp hentry).1

theorem not_committed_of_silent {effects : List Effect}
    (h : ∀ x ∈ effects, x.silent = true) : ∀ x ∈ effects, ∀ c, x ≠ .committed c := by
  intro x hx c hsame
  have hsilent := h x hx
  rw [hsame] at hsilent
  cases hsilent

theorem Steady.extends (h : Steady w) (hs : Started cfg w) (hw : World.Extends cfg w w') :
    Steady w' := by
  cases hw with
  | quiet hhead htrace hsilent =>
    have hcommitted := not_committed_of_silent hsilent
    refine ⟨?_, ?_, ?_⟩
    · rw [hhead, htrace, latest_append hcommitted]
      exact h.latest
    · rw [hhead]
      exact h.valid
    · rw [hhead]
      intro c hc d hd
      rw [htrace] at hd
      rcases List.mem_append.mp hd with hd | hd
      · exact absurd rfl (hcommitted _ hd d)
      · exact h.same c hc d hd
  | @commit c next k m hhead _ _ _ _ htables _ hhead' htrace _ _ hvalid =>
    refine ⟨?_, ?_, ?_⟩
    · rw [hhead', htrace]
      rfl
    · rw [hhead']
      intro c' hc'
      cases hc'
      exact hvalid
    · rw [hhead']
      intro c' hc' d hd name op op' hop hop'
      cases hc'
      rw [htrace] at hd
      rcases List.mem_cons.mp hd with hd | hd
      · cases hd
        rw [hop] at hop'
        cases hop'
        exact .refl op
      · rcases hs.known d (mem_durable.mpr hd) _ op hop with ⟨j, hj, hid⟩ | ⟨hhost, -⟩
        · rw [hid] at hop hop'
          obtain ⟨middle, hmiddle, -, hcall⟩ := htables.kept hj hop'
          exact (h.same c hhead d hd _ op middle hop hmiddle).trans hcall
        · exact absurd rfl (hhost name)

theorem InTurn.extends (h : InTurn w id) (hs : Started cfg w) (hsteady : Steady w)
    (hknown : ∃ k < w.names, id = .host (cfg.name k)) (hw : World.Extends cfg w w') :
    InTurn w' id := by
  cases hw with
  | quiet hhead htrace hsilent =>
    have hcommitted := not_committed_of_silent hsilent
    intro c hc other b hb hbefore
    rw [hhead] at hc
    refine h c hc other b hb (hbefore.of_committed fun d hd => ?_)
    rw [htrace] at hd
    exact (List.mem_append.mp hd).resolve_left fun hd => hcommitted _ hd d rfl
  | @commit c next k m hhead _ _ _ _ htables _ hhead' htrace _ _ _ =>
    intro c' hc' other b hb hbefore
    rw [hhead'] at hc'
    cases hc'
    have hdurable : Effect.committed c ∈ w.trace := mem_durable.mp (hs.head c hhead)
    obtain ⟨d, hd, b', a, name, hb', ha, howner, hlt⟩ := hbefore
    rw [htrace] at hd
    obtain ⟨j, hj, rfl⟩ := hknown
    rcases htables.queued hb with ⟨first, hfirst, hentry⟩ | ⟨⟨i, hi, rfl⟩, hentry⟩
    · rcases List.mem_cons.mp hd with hd | hd
      · cases hd
        obtain ⟨a', ha', -, hcall⟩ := htables.kept hj ha
        rw [hb.1] at hb'
        cases hb'
        refine h c hhead other first hfirst
          ⟨c, hdurable, first, a', name, hfirst.1, ha', hcall.owner.symm.trans howner, ?_⟩
        rw [← hentry, ← hcall.entry]
        exact hlt
      · exact h c hhead other first hfirst ⟨d, hd, b', a, name, hb', ha, howner, hlt⟩
    · rcases List.mem_cons.mp hd with hd | hd
      · cases hd
        obtain ⟨a', ha', -, hcall⟩ := htables.kept hj ha
        rw [hb.1] at hb'
        cases hb'
        have hbound := callEntry_lt (hsteady.valid c hhead) ha'
        rw [← hcall.entry] at hbound
        omega
      · exact hs.unknown hd hi hb'

theorem Opens.records {order : List String} {request : Request} {expired : Bool}
    {first : Checkpoint} (hopens : Opens cfg w request expired first)
    (hsubmitted : Submitted cfg order w) {op : OperationRecord}
    (hop : first.active.operations[id]? = some op) :
    ∃ base, w.head = some base ∧ base.active.operations[id]? = some op := by
  cases request with
  | start history context options =>
    have hnone : first.active.operations = ∅ := by
      rw [hopens.checkpoint]
      cases expired <;> rfl
    rw [hnone] at hop
    cases hop
  | recover base messages resolutions metadata =>
    have hsame : first.active.operations = base.active.operations := by
      rw [hopens.checkpoint]
      cases expired <;> rfl
    rw [hsame] at hop
    exact ⟨base, hsubmitted.resumes hopens, hop⟩

theorem Steady.opened {order : List String} {request : Request} {expired : Bool}
    {first : Checkpoint} (h : Steady w) (hsubmitted : Submitted cfg order w)
    (hopens : Opens cfg w request expired first) : Steady (w.opened first) := by
  refine ⟨rfl, fun c hc => ?_, fun c hc d hd name op op' hop hop' => ?_⟩
  · cases hc
    exact Checkpoint.valid_of_validate (Commit.valid_of_ok hopens.accepts)
  · cases hc
    rcases List.mem_cons.mp hd with hd | hd
    · cases hd
      rw [hop] at hop'
      cases hop'
      exact .refl op
    · obtain ⟨base, hbase, hold⟩ := hopens.records hsubmitted hop'
      exact h.same base hbase d hd name op op' hop hold

theorem Steady.after {effects : List Effect} (h : Steady w)
    (heffects : ∀ x ∈ effects, ∀ c, x ≠ .committed c) : Steady (w.after effects) := by
  refine ⟨h.latest.trans (latest_append heffects).symm, h.valid, fun c hc d hd => ?_⟩
  exact h.same c hc d ((List.mem_append.mp hd).resolve_left fun hd => heffects _ hd d rfl)

theorem Begins.commits {task : Task} {step : TaskStep} (h : Begins task step) :
    ∀ x ∈ step.effects, ∀ c, x ≠ .committed c := by
  cases h with
  | other _ hcommits _ => exact hcommits
  | begins _ heffects _ =>
    rw [heffects]
    simp

/-- What commits, openings and the other effects of a run keep holds of every reached world. -/
theorem Reached.world_rule {I : World → Prop} (hstart : I .start)
    (hextends : ∀ w w', Started cfg w → I w → World.Extends cfg w w' → I w')
    (hopened : ∀ w order request expired first, Submitted cfg order w → I w →
      Opens cfg w request expired first → I (w.opened first))
    (hafter : ∀ w effects, (∀ x ∈ effects, ∀ c, x ≠ .committed c) → I w → I (w.after effects))
    {p : Point} (hp : Reached cfg p) : I p.world := by
  have htask : ∀ (e : Engine) (index : Nat) (event : TaskEvent), I e.world →
      I (e.runTask cfg index event).world := by
    intro e index event h
    rcases Engine.runTask_cases cfg index event e with hsame | ⟨task, step, -, hstep, hstepped⟩
    · rw [hsame]
      exact h
    · rw [hstepped]
      exact hafter _ _ (taskStep_begins hstep).commits h
  refine hp.rule (I := fun p => I p.world) hstart fun p p' hreached h hstep => ?_
  have hstarts := hreached.starts
  cases hstep with
  | wait hw => exact hextends _ _ hstarts h (.counted hw)
  | lost hopens =>
    obtain ⟨order, hsubmitted⟩ := hreached.delivers
    exact hopened _ _ _ _ _ hsubmitted h hopens
  | boot hopens =>
    obtain ⟨order, hsubmitted⟩ := hreached.delivers
    exact hopened _ _ _ _ _ hsubmitted h hopens
  | turn _ hturn =>
    have hsound := hreached.sound
    cases hturn with
    | move hmove => exact hextends _ _ hstarts.1 h (hmove.extends hsound.head hsound.valid)
    | take _ _ => exact h
    | drop _ _ => exact h
  | task => exact htask _ _ _ h
  | fail _ hfault =>
    have hsound := hreached.sound
    obtain ⟨w, hfirst, hsecond, -⟩ := hfault.extends hsound.head hsound.valid
    exact hextends _ _ (hstarts.1.extends hfirst) (hextends _ _ hstarts.1 h hfirst) hsecond
  | lateTask => exact htask _ _ _ h
  | _ => exact h

theorem Steady.start : Steady .start :=
  ⟨rfl, fun _ hc => (nomatch hc), fun _ hc => (nomatch hc)⟩

theorem Reached.steady {p : Point} (hp : Reached cfg p) : Steady p.world := by
  refine hp.world_rule .start
    (fun w w' hs h hw => h.extends hs hw)
    (fun w order request expired first hsubmitted h hopens => h.opened hsubmitted hopens)
    fun w effects heffects h => h.after heffects

variable (cfg) in
/-- The calls are known, and the queued ones emitted before one of them stand before it. -/
structure InLine (e : Engine) (ids : List OperationId) : Prop where
  known : ∀ id ∈ ids, ∃ k < e.world.names, id = .host (cfg.name k)
  ahead : ∀ before id after, ids = before ++ id :: after →
    ∀ record, e.current.active.operations[id]? = some record →
      ∀ other b, QueuedCall e.current other b → b.callEntry < record.callEntry → other ∈ before

variable (cfg) in
/-- The calls that are reserved, or of the batch being handled, are in the order of their
emission. -/
structure Engine.Aligned (e : Engine) : Prop where
  reserved : InLine cfg e e.admitting.reverse
  handled : ∀ bindings decisions, e.handling = some (.admitted bindings decisions) →
    InLine cfg e (bindings.map Binding.id)

variable {e e' : Engine} {cause : Cause}

theorem InLine.nil (cfg : Config) (e : Engine) : InLine cfg e [] where
  known _ hid := absurd hid List.not_mem_nil
  ahead before id after hsplit := by simp at hsplit

theorem InLine.congr {ids : List OperationId} (h : InLine cfg e ids)
    (hcurrent : e'.current = e.current) (hworld : e'.world = e.world) : InLine cfg e' ids := by
  refine ⟨?_, ?_⟩
  · rw [hworld]
    exact h.known
  · rw [hcurrent]
    exact h.ahead

theorem InLine.stepped {ids : List OperationId} {index : Nat} (h : InLine cfg e ids)
    (step : TaskStep) : InLine cfg (e.taskStepped index step) ids :=
  ⟨h.known, h.ahead⟩

theorem InLine.extends {ids : List OperationId} (h : InLine cfg e ids) (hsound : e.Sound)
    (hsound' : e'.Sound) (hw : World.Extends cfg e.world e'.world) : InLine cfg e' ids := by
  have hnames := hw.names
  obtain ⟨c, hc, m, -, htables⟩ := hw.tables hsound'.head
  rw [hsound.head] at hc
  cases hc
  refine ⟨fun id hid => ?_, fun before id after hsplit record hrecord other b hb hlt => ?_⟩
  · obtain ⟨k, hk, hsame⟩ := h.known id hid
    exact ⟨k, by omega, hsame⟩
  · obtain ⟨k, hk, rfl⟩ := h.known id (by rw [hsplit]; simp)
    obtain ⟨old, hold, -, hcall⟩ := htables.kept hk hrecord
    rw [hcall.entry] at hlt
    rcases htables.queued hb with ⟨first, hfirst, hentry⟩ | ⟨-, hentry⟩
    · rw [hentry] at hlt
      exact h.ahead before _ after hsplit old hold other first hfirst hlt
    · have hbound := callEntry_lt hsound.valid hold
      omega

theorem InLine.snoc {ids : List OperationId} {record : OperationRecord} (h : InLine cfg e ids)
    (hknown : ∃ k < e.world.names, id = .host (cfg.name k))
    (hrecord : e.current.active.operations[id]? = some record)
    (hbefore : ∀ other b, QueuedCall e.current other b → b.callEntry < record.callEntry →
      other ∈ ids) : InLine cfg e (ids ++ [id]) := by
  refine ⟨fun new hnew => ?_, fun before new after hsplit op hop other b hb hlt => ?_⟩
  · rcases List.mem_append.mp hnew with hnew | hnew
    · exact h.known new hnew
    · rw [List.mem_singleton.mp hnew]
      exact hknown
  · rcases List.eq_nil_or_concat after with rfl | ⟨init, last, rfl⟩
    · obtain ⟨rfl, hid⟩ := List.append_inj' hsplit rfl
      cases hid
      rw [hrecord] at hop
      cases hop
      exact hbefore other b hb hlt
    · rw [List.concat_eq_append, ← List.cons_append, ← List.append_assoc] at hsplit
      obtain ⟨hids, -⟩ := List.append_inj' hsplit rfl
      exact h.ahead before new init hids op hop other b hb hlt

private theorem Engine.Aligned.of_same (h : e.Aligned cfg) (hsound : e.Sound) (hsound' : e'.Sound)
    (hw : World.Extends cfg e.world e'.world) (hadmitting : e'.admitting = e.admitting)
    (hhandling : e'.handling = e.handling) : e'.Aligned cfg := by
  refine ⟨?_, fun bindings decisions hwork => ?_⟩
  · rw [hadmitting]
    exact h.reserved.extends hsound hsound' hw
  · rw [hhandling] at hwork
    exact (h.handled bindings decisions hwork).extends hsound hsound' hw

theorem Move.aligned (hdefault : cfg.scheduler = defaultScheduling) (h : Move cfg cause e e')
    (hs : Started cfg e.world) (hsound : e.Sound) (hsound' : e'.Sound) (hadmits : e.Admits)
    (haligned : e.Aligned cfg) : e'.Aligned cfg := by
  have hw := h.extends hsound.head hsound.valid
  have hsame := fun hadmitting => haligned.of_same hsound hsound' hw hadmitting h.handling
  cases h with
  | requestCancel =>
    rw [Engine.requestCancel_eq] at hsame ⊢
    exact hsame rfl
  | @reserve id record name hrecord howner hqueued _ _ _ _ _ hleading _ =>
    have hknown := hs.queued_known (mem_durable.mp hsound.durable) hrecord hqueued
    refine ⟨?_, fun bindings decisions hwork => ?_⟩
    · change InLine cfg (e.reserve id) (id :: e.admitting).reverse
      rw [List.reverse_cons]
      refine (haligned.reserved.extends hsound hsound' hw).snoc hknown hrecord ?_
      intro other b hb hlt
      exact List.mem_reverse.mpr ((hleading hdefault).before other b hb hlt)
    · exact (haligned.handled bindings decisions hwork).extends hsound hsound' hw
  | @release bindings decisions hwork =>
    refine ⟨?_, fun bindings decisions hwork => ?_⟩
    · rw [hadmits.released hwork]
      exact .nil cfg _
    · exact (haligned.handled bindings decisions hwork).extends hsound hsound' hw
  | _ => exact hsame rfl

theorem Turn.aligned (hdefault : cfg.scheduler = defaultScheduling) (h : Turn cfg cause e e')
    (hs : Started cfg e.world) (hsound : e.Sound) (hadmits : e.Admits)
    (haligned : e.Aligned cfg) : e'.Aligned cfg := by
  have hsound' := h.sound hsound
  have hadmits' := h.admits hadmits
  cases h with
  | move h => exact h.aligned hdefault hs hsound hsound' hadmits haligned
  | @take work queue hlooping hworks =>
    refine ⟨haligned.reserved.congr rfl rfl, fun bindings decisions hwork => ?_⟩
    cases hwork
    have hbatch : bindings ∈ e.batches := by
      refine List.mem_append_right _
        (List.mem_filterMap.mpr ⟨.admitted bindings decisions, ?_, rfl⟩)
      rw [hworks]
      exact List.mem_cons_self
    rcases hadmits.single with hnone | ⟨other, hone, -, hreserved⟩
    · rw [hnone] at hbatch
      cases hbatch
    · rw [hone] at hbatch
      have hline := haligned.reserved
      rw [hreserved, List.reverse_reverse, ← List.mem_singleton.mp hbatch] at hline
      exact hline.congr rfl rfl
  | drop _ _ => exact ⟨haligned.reserved.congr rfl rfl, fun _ _ hwork => (nomatch hwork)⟩

private theorem Launched.inTurn (h : Launched id e e') (hs : Started cfg e.world)
    (hs' : Started cfg e'.world) (hsteady : Steady e'.world) (hsound : e.Sound)
    (hsound' : e'.Sound) (haligned : e.Aligned cfg) (hw : World.Extends cfg e.world e'.world) :
    InTurn e'.world id := by
  intro c' hc' other b hb hbefore
  obtain rfl : e'.current = c' := by
    rw [hsound'.head] at hc'
    exact Option.some.inj hc'
  obtain ⟨d, hd, b', a, name, hb', ha, howner, hlt⟩ := hbefore
  obtain ⟨c, hc, m, -, htables⟩ := hw.tables hsound'.head
  obtain rfl : e.current = c := by
    rw [hsound.head] at hc
    exact Option.some.inj hc
  -- the call itself, at its launch and in the earlier checkpoint
  obtain ⟨op, hop, hqueued⟩ := h.queued
  obtain ⟨op', hop', -⟩ := h.running
  obtain ⟨k, hk, rfl⟩ := hs.queued_known (mem_durable.mp hsound.durable) hop hqueued
  obtain ⟨old, hold, -, hcall⟩ := htables.kept hk hop'
  rw [hop] at hold
  cases hold
  have ha' : SameCall a op' := hsteady.same _ hsound'.head d hd _ a op' ha hop'
  -- the other one likewise
  obtain ⟨j, -, rfl⟩ := hs'.queued_known (mem_durable.mp hsound'.durable) hb.1 hb.2.1
  have hb'' : SameCall b' b := hsteady.same _ hsound'.head d hd _ b' b hb' hb.1
  have hlt : b.callEntry < op.callEntry := by
    rw [hb''.entry, ← hcall.entry, ha'.entry]
    exact hlt
  rcases h.due with ⟨op₁, hop₁, hdelegation⟩ | ⟨bindings, decisions, binding, hwork, hdue, hid⟩
  · rw [hop] at hop₁
    cases hop₁
    rw [← hcall.owner, ha'.owner, howner] at hdelegation
    cases hdelegation
  · obtain ⟨before, after, hsplit, hunqueued⟩ := hdue
    rcases htables.queued hb with ⟨first, hfirst, hentry⟩ | ⟨-, hentry⟩
    · have hmem := (haligned.handled bindings decisions hwork).ahead (before.map Binding.id)
        binding.id (after.map Binding.id) (by rw [hsplit, List.map_append, List.map_cons]) op
        (by rw [hid]; exact hop) _ first hfirst (by omega)
      obtain ⟨passed, hpassed, hsame⟩ := List.mem_map.mp hmem
      rw [← hsame] at hfirst
      exact hunqueued passed hpassed first hfirst
    · have hbound := callEntry_lt hsound.valid hop
      omega

/-- What has been started was started in order, and what will be is in turn. -/
structure Emission (w : World) (tasks : List Task) : Prop where
  order : StartsInOrder w.trace
  turns : ∀ id ∈ starting tasks, InTurn w id

theorem Emission.start : Emission .start [] where
  order newer older id htrace := by
    cases newer <;> cases htrace
  turns _ hid := absurd hid List.not_mem_nil

theorem Emission.idle {tasks : List Task} (h : Emission w tasks) : Emission w [] :=
  ⟨h.order, fun _ hid => absurd hid List.not_mem_nil⟩

theorem Emission.extends (h : Emission w tasks) (hsteady : Steady w) (hs : Started cfg w)
    (hstarting : Starting cfg w tasks) (hw : World.Extends cfg w w') : Emission w' tasks := by
  refine ⟨?_, fun id hid => ?_⟩
  · cases hw with
    | quiet _ htrace _ hstarts =>
      rw [htrace]
      exact h.order.append hstarts
    | commit _ _ _ _ _ _ _ _ htrace =>
      rw [htrace]
      exact h.order.cons fun id hsame => by cases hsame
  · exact (h.turns id hid).extends hs hsteady (hstarting.spent id hid).1 hw

theorem Emission.move (h : Emission e.world e.tasks) (hsteady : Steady e.world)
    (hs : Started cfg e.world)
    (hstarting : Starting cfg e.world e.tasks) (hsound : e.Sound) (hsound' : e'.Sound)
    (haligned : e.Aligned cfg) (hmove : Move cfg cause e e') : Emission e'.world e'.tasks := by
  have hw := hmove.extends hsound.head hsound.valid
  have hkept := h.extends hsteady hs hstarting hw
  refine ⟨hkept.order, fun id hid => ?_⟩
  rcases hmove.starting with hsame | ⟨launched, hlaunched⟩
  · rw [hsame] at hid
    exact hkept.turns id hid
  · rw [hlaunched.tasks] at hid
    rcases List.mem_append.mp hid with hid | hid
    · exact hkept.turns id hid
    · rw [List.mem_singleton.mp hid]
      have hsteady' : Steady e'.world := hsteady.extends hs hw
      exact hlaunched.inTurn hs (hs.extends hw) hsteady' hsound hsound' haligned hw

theorem latest_of_committed {c : Checkpoint} (h : Effect.committed c ∈ trace) :
    ∃ d, latest trace = some d := by
  unfold latest
  rw [← Option.isSome_iff_exists, List.findSome?_isSome_iff]
  exact ⟨_, h, rfl⟩

theorem Emission.step {index : Nat} {task : Task} {step : TaskStep} (h : Emission w tasks)
    (hsteady : Steady w) (hstarting : Starting cfg w tasks) (htask : tasks[index]? = some task)
    (hbegins : Begins task step) :
    Emission (w.after step.effects) (stepped index step.remaining tasks) := by
  obtain ⟨hbefore, hafter⟩ := starting_stepped step.remaining htask
  have hcommits := hbegins.commits
  have hcommitted : ∀ d, Effect.committed d ∈ (w.after step.effects).trace →
      Effect.committed d ∈ w.trace := fun d hd =>
    (List.mem_append.mp hd).resolve_left fun hd => hcommits _ hd d rfl
  have hturn : ∀ {id}, InTurn w id → InTurn (w.after step.effects) id :=
    fun hturn c hc other b hb hother => hturn c hc other b hb (hother.of_committed hcommitted)
  cases hbegins with
  | other hstarts _ hsame =>
    refine ⟨h.order.append hstarts, fun id hid => hturn (h.turns id ?_)⟩
    rw [hafter, hsame] at hid
    rw [hbefore]
    exact hid
  | @begins id hstarts heffects hremaining =>
    have hid : id ∈ starting tasks := by
      rw [hbefore]
      refine List.mem_append_left _ (List.mem_append_right _ ?_)
      exact List.mem_filterMap.mpr ⟨task, List.mem_singleton_self _, hstarts⟩
    refine ⟨?_, fun other hother => hturn (h.turns other ?_)⟩
    · change StartsInOrder (step.effects ++ w.trace)
      rw [heffects]
      refine h.order.cons fun other hsame => ?_
      cases hsame
      obtain ⟨c, hc, -⟩ := hstarting.marked id hid
      obtain ⟨d, hd⟩ := latest_of_committed hc
      exact ⟨d, hd, h.turns id hid d (hsteady.latest.trans hd)⟩
    · rw [hafter, hremaining, List.append_nil] at hother
      rw [hbefore]
      rcases List.mem_append.mp hother with hother | hother
      · exact List.mem_append_left _ (List.mem_append_left _ hother)
      · exact List.mem_append_right _ hother

theorem Emission.runTask (h : Emission e.world e.tasks) (hsteady : Steady e.world)
    (hstarting : Starting cfg e.world e.tasks) (index : Nat) (event : TaskEvent) :
    Emission (e.runTask cfg index event).world (e.runTask cfg index event).tasks := by
  rcases Engine.runTask_cases cfg index event e with hsame | ⟨task, step, htask, hstep, hstepped⟩
  · rw [hsame]
    exact h
  · rw [hstepped]
    exact h.step hsteady hstarting htask (taskStep_begins hstep)

def Emitting (cfg : Config) : Point → Prop
  | .idle w => Emission w []
  | .live _ e => Emission e.world e.tasks ∧ e.Aligned cfg
  | .ended e => Emission e.world e.tasks

theorem Reached.emits (hdefault : cfg.scheduler = defaultScheduling) {p : Point}
    (hp : Reached cfg p) : Emitting cfg p := by
  refine hp.rule (I := Emitting cfg) ?_ fun p p' hreached h hstep => ?_
  · exact Emission.start
  have hstarts := hreached.starts
  have hsteady := hreached.steady
  have hopened : ∀ {w : World} {first : Checkpoint}, Emission w [] →
      Emission (w.opened first) [] := fun h =>
    ⟨h.order.cons (fun _ hsame => nomatch hsame), fun _ hid => absurd hid List.not_mem_nil⟩
  cases hstep with
  | wait hw => exact Emission.extends h hsteady hstarts (.none _) (.counted hw)
  | lost _ => exact hopened h
  | boot _ => exact ⟨hopened h, ⟨.nil cfg _, fun _ _ hwork => (nomatch hwork)⟩⟩
  | @turn resolutions cause e e' _ hturn =>
    have hsound := hreached.sound
    have haligned := hturn.aligned hdefault hstarts.1 hsound hreached.admits h.2
    cases hturn with
    | move hmove =>
      have hsound' := (Turn.move hmove).sound hsound
      exact ⟨h.1.move hsteady hstarts.1 hstarts.2 hsound hsound' h.2 hmove, haligned⟩
    | take _ _ => exact ⟨h.1, haligned⟩
    | drop _ _ => exact ⟨h.1, haligned⟩
  | @task resolutions e index event =>
    refine ⟨h.1.runTask hsteady hstarts.2 _ _, ?_⟩
    rcases Engine.runTask_cases cfg index event e with hsame | ⟨task, step, _, _, hstepped⟩
    · rw [hsame]
      exact h.2
    · rw [hstepped]
      exact ⟨h.2.reserved.stepped step, fun bindings decisions hwork =>
        (h.2.handled bindings decisions hwork).stepped step⟩
  | packet => exact ⟨h.1, ⟨h.2.reserved.congr rfl rfl, fun bindings decisions hwork =>
      (h.2.handled bindings decisions hwork).congr rfl rfl⟩⟩
  | fail _ hfault =>
    have hsound := hreached.sound
    obtain ⟨w, hfirst, hsecond, htasks⟩ := hfault.extends hsound.head hsound.valid
    have hemission := (h.1.extends hsteady hstarts.1 hstarts.2 hfirst).extends
      (Steady.extends hsteady hstarts.1 hfirst) (hstarts.1.extends hfirst)
      (hstarts.2.extends hfirst) hsecond
    rw [← htasks] at hemission
    exact hemission
  | finish => exact h.1
  | lateTask => exact Emission.runTask h hsteady hstarts.2 _ _
  | latePacket => exact h
  | crash => exact h.1.idle
  | exit => exact Emission.idle h

/-- Under the default scheduler, whatever the interleaving: when the start of a runtime tool
call is performed, no call emitted before it is queued in the last durable checkpoint. -/
theorem started_in_order (hdefault : cfg.scheduler = defaultScheduling) {s : System}
    (hs : Reachable cfg s) : StartsInOrder s.world.trace := by
  refine reachable_world (I := fun w => StartsInOrder w.trace) (fun p hp => ?_) hs
  have hemits := hp.emits hdefault
  cases p with
  | idle w => exact hemits.order
  | live resolutions e => exact hemits.1.order
  | ended e => exact hemits.order

/-- Two tool calls, started in the order the model made them, and recovered after a crash. -/
theorem sample_started_in_order :
    let s := sampleRun sampleRecovered
    startedIds s.world.trace = [sampleOtherOperation, sampleOperation] ∧
      EmittedBefore s.world.trace sampleOperation sampleOtherOperation ∧
      StartsInOrder s.world.trace := by
  intro s
  have hs : Reachable sampleConfig s := ⟨_, rfl⟩
  refine ⟨by decide +kernel, ?_, started_in_order rfl hs⟩
  have hdurable : sampleCrashedHead ∈ s.world.durable := by decide +kernel
  have hcalls : (sampleCrashedHead.active.operations[sampleOperation]?).any (fun b =>
      (sampleCrashedHead.active.operations[sampleOtherOperation]?).any fun a =>
        decide (a.owner = .runtimeTool "look" ∧ b.callEntry < a.callEntry)) = true := by
    decide +kernel
  obtain ⟨b, hb, hcalls⟩ := (Option.any_eq_true _ _).mp hcalls
  obtain ⟨a, ha, hcalls⟩ := (Option.any_eq_true _ _).mp hcalls
  exact ⟨_, mem_durable.mp hdurable, b, a, "look", hb, ha, of_decide_eq_true hcalls⟩

end Zhir.Kernel
