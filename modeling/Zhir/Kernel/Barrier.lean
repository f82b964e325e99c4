import Zhir.Kernel.Gate

/-!
The serial barrier, and what it and the bound on the slots rest on: no call is started while a
call emitted before it, of a tool that is not parallel, is started and not settled, in every run
whose steps keep to the gate.
-/

set_option autoImplicit false
set_option relaxedAutoImplicit false

namespace Zhir.Core

def OperationState.resting : OperationState → Bool
  | .waiting | .unknown => true
  | _ => false

end Zhir.Core

namespace Zhir.Kernel

open Zhir.Core
open Zhir.Library (Program)
open Relation (ReflTransGen)
open Std (ExtTreeMap)

variable {cfg : Config} {cause : Cause} {e e' : Engine} {w : World} {c c' : Checkpoint}
  {resolutions : List RecoveryResolution}

/-- A call emitted before the operation, of a tool that is not parallel, is in such a state. -/
def Barred (catalog : Catalog) (among : OperationState → Bool) (c : Checkpoint)
    (op : OperationRecord) : Prop :=
  ∃ (id : OperationId) (other : OperationRecord) (name : String),
    c.active.operations[id]? = some other ∧ other.owner = .runtimeTool name ∧
      catalog.parallel name = false ∧ other.callEntry < op.callEntry ∧ among other.state = true

structure Within (e : Engine) (p' : Point) : Prop where
  /-- What takes up a slot beside the gate finds one that is neither taken nor kept. -/
  resumed : ∀ c, p'.world.head = some c → Resumes e c → e.occupied < e.slots
  /-- No call is selected while an earlier serial one is waiting or unknown. -/
  selected : ∀ resolutions e', p' = .live resolutions e' → ∀ id ∈ e'.admitting,
    id ∉ e.admitting → ∀ op, e.current.active.operations[id]? = some op →
      ¬ Barred e.catalog OperationState.resting e.current op
  /-- No delegation is started, and no queued operation attached to, while an earlier serial
  call is started and not settled. -/
  started : ∀ c, p'.world.head = some c → ∀ (id : OperationId) (op op' : OperationRecord),
    e.current.active.operations[id]? = some op → op.owner.host = true → op.state = .queued →
      op.owner = .delegation ∨ e.sessionControl = none →
        c.active.operations[id]? = some op' → op'.state.unsettled = true →
          ¬ Barred e.catalog OperationState.unsettled e.current op

def Gated : Point → Point → Prop
  | .live _ e, p' => Within e p'
  | _, _ => True

variable (cfg) in
def WithinGate : Point → Prop :=
  ReflTransGen (fun p p' => Step cfg p p' ∧ Gated p p') (.idle .start)

/-- The step starts no operation behind a serial call that is started and not settled. -/
def Barrier : Point → Point → Prop
  | .live _ e, p' => ∀ c, p'.world.head = some c → ∀ (id : OperationId)
      (op op' : OperationRecord), e.current.active.operations[id]? = some op →
        op.owner.host = true → op.state = .queued → c.active.operations[id]? = some op' →
          op'.state.unsettled = true → ¬ Barred e.catalog OperationState.unsettled e.current op
  | _, _ => True

theorem WithinGate.reached {p : Point} (h : WithinGate cfg p) : Reached cfg p := by
  induction h with
  | refl => exact .refl
  | tail _ hstep ih => exact .tail ih hstep.1

/-- No call that is selected and still queued has a serial one before it that is started. -/
def Engine.Clear (e : Engine) : Prop :=
  ∀ id ∈ e.selected, ∀ op, e.current.active.operations[id]? = some op → op.state = .queued →
    ¬ Barred e.catalog OperationState.unsettled e.current op

def Engine.Grouped (e : Engine) : Prop :=
  ∀ id ∈ e.selected, ∀ other ∈ e.selected, id ≠ other → ∀ (op : OperationRecord) (name : String),
    e.current.active.operations[id]? = some op → op.owner = .runtimeTool name →
      e.catalog.parallel name = true

private theorem catalog_kept (hmove : Move cfg cause e e') :
    e'.catalog = e.catalog ∨ e.sessionControl = none := by
  cases hmove with
  | catalog hunbound => exact .inr hunbound
  | requestCancel =>
    rw [Engine.requestCancel_eq]
    exact .inl rfl
  | _ => exact .inl rfl

private theorem resting_of_unsettled {catalog : Catalog} {id : OperationId} {op : OperationRecord}
    {name : String} (hserial : serialActive catalog c = false)
    (hop : c.active.operations[id]? = some op) (howner : op.owner = .runtimeTool name)
    (hparallel : catalog.parallel name = false) (hunsettled : op.state.unsettled = true) :
    op.state.resting = true := by
  have hidle : op.active = false := by
    by_contra hactive
    rw [Bool.not_eq_false] at hactive
    have hfound : serialActive catalog c = true := by
      refine List.any_eq_true.mpr ⟨(id, op), ExtTreeMap.mem_toList_iff_getElem?_eq_some.mpr hop, ?_⟩
      simp [hactive, howner, hparallel]
    rw [hserial] at hfound
    cases hfound
  unfold OperationRecord.active at hidle
  rw [howner] at hidle
  cases hstate : op.state with
  | waiting | unknown => rfl
  | running | cancelling =>
    rw [hstate] at hidle
    cases hidle
  | _ =>
    rw [hstate] at hunsettled
    cases hunsettled

namespace Engine.Ready

variable (h : e.Ready cfg resolutions)
include h

/-- A serial call that is started after a move and was not before is one of a group of calls
selected alone. -/
private theorem barred_before (hcause : Allowed resolutions e cause) (hmove : Move cfg cause e e')
    (hgrouped : e.Grouped) (hcatalog : e'.catalog = e.catalog) {id : OperationId}
    (hid : id ∈ e.selected) {op op' : OperationRecord}
    (hop : e.current.active.operations[id]? = some op) (hcall : SameCall op op')
    (hbarred : Barred e'.catalog OperationState.unsettled e'.current op') :
    Barred e.catalog OperationState.unsettled e.current op := by
  obtain ⟨other, b', name, hb', howner, hserial, hlt, hunsettled⟩ := hbarred
  rw [hcatalog] at hserial
  rw [hcall.entry] at hlt
  have hhost : b'.owner.host = true := by
    rw [howner]
    rfl
  have hsame : e.current.active.operations[other]? = some b' →
      Barred e.catalog OperationState.unsettled e.current op :=
    fun hb => ⟨other, b', name, hb, howner, hserial, hlt, hunsettled⟩
  cases h.touches hmove with
  | queue hqueues =>
    rcases hqueues other b' hb' hhost with hold | ⟨hqueued, -⟩
    · exact hsame hold
    · exact absurd hqueued (ne_queued_of_unsettled hunsettled)
  | @one x b new hb hoperations hcall' _ hstate =>
    rcases Tables.insert_cases hoperations hb' with ⟨rfl, rfl⟩ | hold
    · rw [hcall'.owner] at howner hhost
      rw [hcall'.entry] at hlt
      rcases hstate hhost hunsettled with hbefore | ⟨hwas, hleaves⟩
      · exact ⟨_, b, name, hb, howner, hserial, hlt, hbefore⟩
      · exfalso
        cases hleaves with
        | @admitted bindings decisions hhandling hmem =>
          have hselected : other ∈ e.selected := by
            unfold Engine.selected
            rw [hhandling]
            exact List.mem_append_right _ hmem
          have hne : other ≠ id := by
            rintro rfl
            rw [hb] at hop
            cases hop
            omega
          rw [hgrouped other hselected id hid hne b name hb howner] at hserial
          cases hserial
        | delegated hdelegation =>
          rw [howner] at hdelegation
          cases hdelegation
        | attached hcaused _ =>
          rw [hcaused] at hcause
          rw [(h.selected_recovering hcause).2] at hid
          cases hid
        | served hserves => exact h.reached.ne_queued hserves hb hwas
    · exact hsame hold

theorem clear (hcause : Allowed resolutions e cause) (hmove : Move cfg cause e e')
    (hclear : e.Clear) (hgrouped : e.Grouped)
    (hselects : ∀ id ∈ e'.admitting, id ∉ e.admitting → ∀ op,
      e.current.active.operations[id]? = some op →
        ¬ Barred e.catalog OperationState.resting e.current op) : e'.Clear := by
  cases hmove.selection h.default with
  | kept hkept =>
    intro id hid op' hop' hqueued hbarred
    have hselected := hkept id hid
    obtain ⟨op, hop, hwas, hcall⟩ := h.kept hmove hselected hop'
    rcases catalog_kept hmove with hcatalog | hunbound
    · exact hclear id hselected op hop (hwas hqueued)
        (h.barred_before hcause hmove hgrouped hcatalog hselected hop hcall hbarred)
    · rw [selected_of_unbound h.sound h.admits hunbound] at hselected
      cases hselected
  | @reserved new record name hnext hrecord _ _ hlooping hfresh _ hserial _ _ =>
    subst hnext
    have hloops : (e.reserve new).Looping := hlooping
    intro id hid op hop hqueued hbarred
    rw [selected_of_looping hloops] at hid
    rcases List.mem_cons.mp hid with rfl | hold
    · obtain ⟨other, b, name', hb, howner, hparallel, hlt, hunsettled⟩ := hbarred
      refine hselects _ List.mem_cons_self hfresh op hop
        ⟨other, b, name', hb, howner, hparallel, hlt, ?_⟩
      exact resting_of_unsettled hserial hb howner hparallel hunsettled
    · rw [← selected_of_looping hlooping] at hold
      exact hclear id hold op hop hqueued hbarred

theorem grouped (hmove : Move cfg cause e e') (hgrouped : e.Grouped) : e'.Grouped := by
  cases hmove.selection h.default with
  | kept hkept =>
    intro id hid other hother hne op' name hop' howner
    have hselected := hkept id hid
    obtain ⟨op, hop, -, hcall⟩ := h.kept hmove hselected hop'
    rw [hcall.owner] at howner
    have hparallel := hgrouped id hselected other (hkept other hother) hne op name hop howner
    rcases catalog_kept hmove with hcatalog | hunbound
    · rw [hcatalog]
      exact hparallel
    · rw [selected_of_unbound h.sound h.admits hunbound] at hselected
      cases hselected
  | @reserved new record name hnext hrecord howner' _ hlooping hfresh _ _ halone hparallels =>
    subst hnext
    have hloops : (e.reserve new).Looping := hlooping
    intro id hid other hother hne op name' hop howner
    change e.current.active.operations[id]? = some op at hop
    rw [selected_of_looping hloops] at hid hother
    rcases List.mem_cons.mp hid with rfl | hid
    · rw [hrecord] at hop
      cases hop
      rw [howner'] at howner
      cases howner
      by_contra hserial
      rcases List.mem_cons.mp hother with rfl | hother
      · exact hne rfl
      · rw [halone (Bool.not_eq_true _ ▸ hserial)] at hother
        cases hother
    · exact hparallels id hid op name' hop howner

end Engine.Ready

structure Engine.Kept (e : Engine) : Prop where
  roomy : e.occupied ≤ e.slots
  clear : e.Clear
  grouped : e.Grouped

theorem Engine.Kept.mono (h : e.Kept) (hcurrent : e'.current = e.current)
    (hcatalog : e'.catalog = e.catalog) (hselected : ∀ id ∈ e'.selected, id ∈ e.selected) :
    e'.Kept := by
  refine ⟨?_, ?_, ?_⟩
  · have hslots : e'.slots = e.slots := by
      unfold Engine.slots
      rw [hcurrent]
    rw [hslots]
    exact (occupied_mono hcurrent hselected).trans h.roomy
  · intro id hid
    rw [hcurrent, hcatalog]
    exact h.clear id (hselected id hid)
  · intro id hid other hother
    rw [hcurrent, hcatalog]
    exact h.grouped id (hselected id hid) other (hselected other hother)

theorem Engine.Kept.bounded (h : e.Kept) :
    activeCount e.current ≤ e.current.options.limits.maxOperationConcurrency :=
  (activeCount_le_occupied e).trans h.roomy

theorem Engine.Kept.turn (h : e.Kept) (hready : e.Ready cfg resolutions)
    (hcause : Allowed resolutions e cause) (hturn : Turn cfg cause e e')
    (hwithin : Within e (.live resolutions e')) : e'.Kept := by
  have hsound' := hturn.sound hready.sound
  cases hturn with
  | move hmove =>
    refine ⟨hready.roomy hcause hmove h.roomy (hwithin.resumed _ hsound'.head),
      hready.clear hcause hmove h.clear h.grouped (hwithin.selected _ _ rfl),
      hready.grouped hmove h.grouped⟩
  | take hlooping hworks => exact h.mono rfl rfl (selected_taken hready.admits hlooping hworks)
  | drop _ _ => exact h.mono rfl rfl selected_dropped

variable (cfg resolutions) in
/-- Checkpoints that one move of an execution leads to. -/
inductive After (e : Engine) : Checkpoint → Prop
  | same : After e e.current
  | moved {cause : Cause} {e' : Engine} (hcause : Allowed resolutions e cause)
      (hmove : Move cfg cause e e') : After e e'.current

/-- The records are those of the checkpoint, or of its settlement. -/
def ComesOf (c c' : Checkpoint) : Prop :=
  c' = c ∨ c'.active.operations = c.active.operations.map fun _ op => abandonRunning op

private theorem Engine.Ready.fail_head (h : e.Ready cfg resolutions) {error : Error}
    (hcause : Allowed resolutions e cause) (hfault : Fault cfg cause e error e') :
    ∃ base, After cfg resolutions e base ∧ ∀ c,
      (Program.run (settle cfg error) e').2.world.head = some c → ComesOf base c := by
  obtain ⟨w, hw, hsettled⟩ := settle_writes cfg error e'
  have hsettle : e'.world.head = some e'.current → ∀ c,
      (Program.run (settle cfg error) e').2.world.head = some c → ComesOf e'.current c := by
    intro hhead c hc
    rcases hsettled with hsame | ⟨-, hsettled⟩
    · rw [hsame] at hc
      change w.head = some c at hc
      rw [hw.head, hhead] at hc
      exact .inl (Option.some.inj hc).symm
    · rw [hsettled] at hc
      exact .inr (by rw [← Option.some.inj hc]; rfl)
  cases hfault with
  | stopped hcurrent _ hworld =>
    have hhead : e'.world.head = some e'.current := by
      rw [hcurrent, hworld.head]
      exact h.sound.head
    exact ⟨_, .same, hcurrent ▸ hsettle hhead⟩
  | @unconfirmed _ e'' hmove _ _ hworld =>
    refine ⟨_, .moved hcause hmove, fun c hc => .inl ?_⟩
    have hinfra : (Program.run (settle cfg commitTimeout) e').2 = e' := rfl
    rw [hinfra, hworld, ((Turn.move hmove).sound h.sound).head] at hc
    exact (Option.some.inj hc).symm
  | @unstarted _ w binding bindings decisions record _ hw hrecord hqueued hdue hhandling haccepts
      hcurrent _ hworld =>
    have hmove : Move cfg cause e _ :=
      .start hw hrecord hqueued hdue hhandling haccepts (.refl _)
    have hhead : e'.world.head = some e'.current := by
      rw [hcurrent, hworld.head]
      rfl
    exact ⟨_, .moved hcause hmove, hcurrent ▸ hsettle hhead⟩

theorem Engine.Ready.heads (h : e.Ready cfg resolutions) {p' : Point}
    (hstep : Step cfg (.live resolutions e) p') :
    ∃ base, After cfg resolutions e base ∧ ∀ c, p'.world.head = some c → ComesOf base c := by
  have hsame : p'.world.head = e.world.head → ∃ base, After cfg resolutions e base ∧
      ∀ c, p'.world.head = some c → ComesOf base c := by
    intro hhead
    refine ⟨_, .same, fun c hc => .inl ?_⟩
    rw [hhead, h.sound.head] at hc
    exact (Option.some.inj hc).symm
  cases hstep with
  | turn hcause hturn =>
    cases hturn with
    | move hmove =>
      refine ⟨_, .moved hcause hmove, fun c hc => .inl ?_⟩
      have hhead := ((Turn.move hmove).sound h.sound).head
      exact Option.some.inj (hc.symm.trans hhead)
    | take _ _ | drop _ _ => exact hsame rfl
  | @task _ _ index event =>
    exact hsame (Engine.runTask_durable cfg index event e).2
  | fail hcause hfault => exact h.fail_head hcause hfault
  | _ => exact hsame rfl

private theorem unsettled_abandonRunning (op : OperationRecord) :
    (abandonRunning op).state.unsettled = op.state.unsettled := by
  unfold abandonRunning
  split
  · rename_i hstate
    rcases hstate with hstate | hstate <;> rw [hstate] <;> rfl
  · rfl

private theorem active_abandonRunning (op : OperationRecord) :
    (abandonRunning op).active = false := by
  unfold abandonRunning OperationRecord.active
  split
  · exact Bool.and_false _
  · rename_i hstate
    rw [not_or] at hstate
    simp [hstate.1, hstate.2]

theorem ComesOf.unsettled {base : Checkpoint} (h : ComesOf base c) {id : OperationId}
    {op : OperationRecord} (hop : c.active.operations[id]? = some op)
    (hunsettled : op.state.unsettled = true) :
    ∃ old, base.active.operations[id]? = some old ∧ old.state.unsettled = true := by
  rcases h with rfl | hoperations
  · exact ⟨op, hop, hunsettled⟩
  · rw [hoperations, ExtTreeMap.getElem?_map] at hop
    obtain ⟨old, hold, rfl⟩ := Option.map_eq_some_iff.mp hop
    rw [unsettled_abandonRunning] at hunsettled
    exact ⟨old, hold, hunsettled⟩

private theorem activeCount_settled (h : c.active.operations = c'.active.operations.map fun _ op =>
    abandonRunning op) : activeCount c = 0 := by
  refine List.countP_eq_zero.mpr fun entry hentry hopen => ?_
  have hactive : entry.2.active = true := hopen
  have hop := ExtTreeMap.mem_toList_iff_getElem?_eq_some.mp hentry
  rw [h, ExtTreeMap.getElem?_map] at hop
  obtain ⟨old, -, hold⟩ := Option.map_eq_some_iff.mp hop
  rw [← hold, active_abandonRunning] at hactive
  cases hactive

theorem Engine.Ready.host_kept (h : e.Ready cfg resolutions) (hmove : Move cfg cause e e')
    {id : OperationId} {op new : OperationRecord}
    (hop : e.current.active.operations[id]? = some op) (hhost : op.owner.host = true)
    (hnew : e'.current.active.operations[id]? = some new) : new.owner.host = true := by
  obtain ⟨name, hname⟩ := h.hosted id op hop hhost
  have hknown : ∃ k < e.world.names, id = .host (cfg.name k) := by
    rcases h.started.known _ h.sound.durable id op hop with hknown | ⟨hprovider, -⟩
    · exact hknown
    · exact absurd hname (hprovider name)
  obtain ⟨k, hk, rfl⟩ := hknown
  have hw := hmove.extends h.sound.head h.sound.valid
  obtain ⟨c, hc, m, -, htables⟩ := hw.tables ((Turn.move hmove).sound h.sound).head
  rw [h.sound.head] at hc
  cases hc
  obtain ⟨old, hold, -, hcall⟩ := htables.kept hk hnew
  rw [hop] at hold
  cases hold
  rw [hcall.owner]
  exact hhost

theorem Engine.Kept.barrier (h : e.Kept) (hready : e.Ready cfg resolutions) {p' : Point}
    (hstep : Step cfg (.live resolutions e) p') (hwithin : Within e p') :
    Barrier (.live resolutions e) p' := by
  intro c hc id op op' hop hhost hqueued hop' hunsettled
  obtain ⟨base, hafter, hcomes⟩ := hready.heads hstep
  obtain ⟨new, hnew, hstarted⟩ := (hcomes c hc).unsettled hop' hunsettled
  have hbeside : op.owner = .delegation ∨ e.sessionControl = none →
      ¬ Barred e.catalog OperationState.unsettled e.current op :=
    fun hkind => hwithin.started c hc id op op' hop hhost hqueued hkind hop' hunsettled
  have hkept : e.current.active.operations[id]? ≠ some new := by
    rw [hop]
    rintro hsame
    cases hsame
    exact ne_queued_of_unsettled hstarted hqueued
  cases hafter with
  | same => exact absurd hnew hkept
  | moved hcause hmove =>
    cases hready.touches hmove with
    | queue hqueues =>
      -- what is new is queued, and the operation was there before
      have hhost' := hready.host_kept hmove hop hhost hnew
      rcases hqueues id new hnew hhost' with hold | ⟨hwaits, -⟩
      · exact absurd hold hkept
      · exact absurd hwaits (ne_queued_of_unsettled hstarted)
    | @one x old replaced hx hoperations hcall _ hstate =>
      rcases Tables.insert_cases hoperations hnew with ⟨rfl, rfl⟩ | hold
      · rw [hx] at hop
        cases hop
        rcases hstate hhost hstarted with hbefore | ⟨-, hleaves⟩
        · exact absurd hqueued (ne_queued_of_unsettled hbefore)
        · cases hleaves with
          | @admitted bindings decisions hhandling hmem =>
            refine h.clear _ ?_ _ hx hqueued
            unfold Engine.selected
            rw [hhandling]
            exact List.mem_append_right _ hmem
          | delegated hdelegation => exact hbeside (.inl hdelegation)
          | attached hcaused _ =>
            rw [hcaused] at hcause
            exact hbeside (.inr hcause.2)
          | served hserves => exact absurd hqueued (hready.reached.ne_queued hserves hx)
      · exact absurd hold hkept

theorem Engine.Kept.bounded_next (h : e.Kept) (hready : e.Ready cfg resolutions) {p' : Point}
    (hstep : Step cfg (.live resolutions e) p') (hwithin : Within e p') : Bounded p'.world := by
  intro c hc
  obtain ⟨base, hafter, hcomes⟩ := hready.heads hstep
  rcases hcomes c hc with rfl | hsettled
  · cases hafter with
    | same => exact h.bounded
    | moved hcause hmove =>
      have hroom := hready.roomy hcause hmove h.roomy (hwithin.resumed _ hc)
      exact (activeCount_le_occupied _).trans hroom
  · rw [activeCount_settled hsettled]
    exact Nat.zero_le _

end Zhir.Kernel
