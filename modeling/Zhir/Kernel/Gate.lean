import Zhir.Kernel.Emission
import Zhir.Kernel.Serving

/-!
The gate of admission: how many host operations a run has in their slots, when operations that
did not come through the gate take up more of them, and what the steps of a run keep to so that
there are never too many.
-/

set_option autoImplicit false
set_option relaxedAutoImplicit false

namespace Zhir.Kernel

open Zhir.Core
open Zhir.Library (Program)
open Std (ExtTreeMap)

variable {cfg : Config} {cause : Cause} {e e' : Engine} {w : World} {c c' : Checkpoint}
  {resolutions : List RecoveryResolution}

namespace Engine

/-- The calls that are selected for approval, or whose batch is being decided. -/
def selected (e : Engine) : List OperationId :=
  e.admitting ++ match e.handling with
    | some (.admitted bindings _) => bindings.map Binding.id
    | _ => []

def holds (e : Engine) (entry : OperationId × OperationRecord) : Bool :=
  entry.2.active || (decide (entry.2.state = .queued) && decide (entry.1 ∈ e.selected))

def occupied (e : Engine) : Nat := e.current.active.operations.toList.countP e.holds

def slots (e : Engine) : Nat := e.current.options.limits.maxOperationConcurrency

end Engine

/-- No more host operations are running or being cancelled than the run allows. -/
def Bounded (w : World) : Prop :=
  ∀ c, w.head = some c → activeCount c ≤ c.options.limits.maxOperationConcurrency

/-- An operation takes up a slot without coming through the gate: one that was started before
and has been waiting or unknown since, or one that is attached to before the session is bound. -/
def Resumes (e : Engine) (c' : Checkpoint) : Prop :=
  ∃ (id : OperationId) (op op' : OperationRecord), e.current.active.operations[id]? = some op ∧
    op.owner.host = true ∧ op.active = false ∧ (op.state = .queued → e.sessionControl = none) ∧
      c'.active.operations[id]? = some op' ∧ op'.active = true

theorem Staged.options {n m : Nat} {events : List SessionEvent} (h : Staged cfg e n c events m c') :
    c'.options = c.options := by
  induction h with
  | nil _ => rfl
  | cons _ hstage _ ih =>
    rw [ih]
    rcases stageEvent_table hstage with hshrinks | ⟨_, _, -, hrecorded⟩
    · exact hshrinks.options
    · exact hrecorded.options

theorem Change.options {next : Checkpoint} {fact : Fact} {delta : HistoryDelta}
    (h : Change cfg cause e w next fact delta) : next.options = e.current.options := by
  cases h with
  | @prepare intent => cases intent <;> rfl
  | finish _ _ _ _ hstage =>
    obtain ⟨history, -, rfl⟩ := stageFinish_ok hstage
    rfl
  | finishProvider _ _ _ _ _ hstage =>
    obtain ⟨history, -, rfl⟩ := stageFinishProvider_ok hstage
    rfl
  | insert _ _ _ _ hstage =>
    obtain ⟨-, rfl⟩ := stageInsert_ok hstage
    rfl
  | rewrite _ _ _ _ _ _ hstage =>
    obtain ⟨history, -, runStart, rfl⟩ := stageRewrite_ok hstage
    rfl
  | _ => rfl

theorem Move.options (h : Move cfg cause e e') : e'.current.options = e.current.options := by
  cases h with
  | save _ hchange _ => exact hchange.options
  | batch _ hstaged _ _ _ _ => exact hstaged.options
  | requestCancel =>
    rw [Engine.requestCancel_eq]
  | _ => rfl

theorem selected_of_looping (h : e.Looping) : e.selected = e.admitting := by
  unfold Engine.selected
  rw [h.2]
  exact List.append_nil _

theorem selected_of_unbound (hsound : e.Sound) (hadmits : e.Admits)
    (hunbound : e.sessionControl = none) : e.selected = [] := by
  have hhandling : e.handling = none := by
    cases hwork : e.handling with
    | none => rfl
    | some work =>
      have hbound := hsound.bound (by rw [hwork]; rfl)
      rw [hunbound] at hbound
      cases hbound
  unfold Engine.selected
  rw [hhandling, hadmits.unbound hunbound]
  rfl

private theorem Engine.Aligned.selected_known (h : e.Aligned cfg) :
    ∀ id ∈ e.selected, ∃ k < e.world.names, id = .host (cfg.name k) := by
  intro id hid
  rcases List.mem_append.mp hid with hreserved | hhandled
  · exact h.reserved.known id (List.mem_reverse.mpr hreserved)
  · split at hhandled
    · rename_i bindings decisions hwork
      exact (h.handled bindings decisions hwork).known id hhandled
    · cases hhandled

inductive Selection (e e' : Engine) : Prop
  | kept (h : ∀ id ∈ e'.selected, id ∈ e.selected)
  | reserved {id : OperationId} {record : OperationRecord} {name : String}
      (hnext : e' = e.reserve id) (hrecord : e.current.active.operations[id]? = some record)
      (howner : record.owner = .runtimeTool name) (hqueued : record.state = .queued)
      (hlooping : e.Looping) (hid : id ∉ e.admitting)
      (hroom : activeCount e.current + e.admitting.length < e.slots)
      (hserial : serialActive e.catalog e.current = false)
      (halone : e.catalog.parallel name = false → e.admitting = [])
      (hselected : ∀ other ∈ e.admitting, ∀ (op : OperationRecord) (name : String),
        e.current.active.operations[other]? = some op → op.owner = .runtimeTool name →
          e.catalog.parallel name = true)

theorem Move.selection (hdefault : cfg.scheduler = defaultScheduling)
    (h : Move cfg cause e e') : Selection e e' := by
  have hsame : e'.admitting = e.admitting → Selection e e' := by
    intro hadmitting
    refine .kept fun id hid => ?_
    unfold Engine.selected at hid ⊢
    rw [hadmitting, h.handling] at hid
    exact hid
  cases h with
  | reserve hrecord howner hqueued hlooping hid hroom hserial halone hleading _ =>
    exact .reserved rfl hrecord howner hqueued hlooping hid hroom hserial
      (fun h => (halone h).2) (hleading hdefault).selected
  | @release bindings decisions hwork =>
    refine .kept fun id hid => ?_
    rcases List.mem_append.mp hid with hreserved | hhandled
    · exact List.mem_append_left _ (List.mem_of_mem_filter hreserved)
    · exact List.mem_append_right _ hhandled
  | requestCancel =>
    rw [Engine.requestCancel_eq] at hsame ⊢
    exact hsame rfl
  | _ => exact hsame rfl

theorem selected_taken {work : Work} {queue : List Work} (hadmits : e.Admits)
    (hlooping : e.Looping) (hworks : e.stashed.toList ++ e.queue = work :: queue) :
    ∀ id ∈ (({ e with stashed := none, queue } : Engine).take work).selected,
      id ∈ e.selected := by
  intro id hid
  rw [selected_of_looping hlooping]
  rcases List.mem_append.mp hid with hreserved | hhandled
  · exact hreserved
  · change id ∈ (match some work with
      | some (Work.admitted bindings _) => bindings.map Binding.id
      | _ => []) at hhandled
    cases work with
    | admitted bindings decisions =>
      have hbatch : bindings ∈ e.batches := by
        refine List.mem_append_right _
          (List.mem_filterMap.mpr ⟨.admitted bindings decisions, ?_, rfl⟩)
        rw [hworks]
        exact List.mem_cons_self
      rcases hadmits.single with hnone | ⟨other, hone, -, hreserved⟩
      · rw [hnone] at hbatch
        cases hbatch
      · rw [hone] at hbatch
        rw [hreserved, List.mem_reverse, ← List.mem_singleton.mp hbatch]
        exact hhandled
    | _ => cases hhandled

theorem selected_dropped : ∀ id ∈ e.drop.selected, id ∈ e.selected := by
  intro id hid
  rcases List.mem_append.mp hid with hreserved | hhandled
  · exact List.mem_append_left _ hreserved
  · cases hhandled

theorem activeCount_le_occupied (e : Engine) : activeCount e.current ≤ e.occupied := by
  refine List.countP_mono_left fun entry _ hactive => ?_
  unfold Engine.holds
  rw [Bool.or_eq_true]
  exact .inl hactive

theorem occupied_le_selected (e : Engine) :
    e.occupied ≤ activeCount e.current + e.selected.length := by
  refine Library.TreeMap.countP_le_add _ e.selected fun id op hop hholds => ?_
  unfold Engine.holds at hholds
  rw [Bool.or_eq_true, Bool.and_eq_true] at hholds
  rcases hholds with hactive | ⟨-, hmem⟩
  · exact .inr ⟨op, hop, hactive⟩
  · exact .inl (of_decide_eq_true hmem)

theorem occupied_mono (hcurrent : e'.current = e.current)
    (hselected : ∀ id ∈ e'.selected, id ∈ e.selected) : e'.occupied ≤ e.occupied := by
  unfold Engine.occupied
  rw [hcurrent]
  refine List.countP_mono_left fun entry _ hholds => ?_
  unfold Engine.holds at hholds ⊢
  simp only [Bool.or_eq_true, Bool.and_eq_true, decide_eq_true_eq] at hholds ⊢
  exact hholds.imp_right fun h => ⟨h.1, hselected _ h.2⟩

theorem unsettled_of_active {op : OperationRecord} (h : op.active = true) :
    op.owner.host = true ∧ op.state.unsettled = true := by
  unfold OperationRecord.active at h
  rw [Bool.and_eq_true, Bool.or_eq_true, beq_iff_eq, beq_iff_eq] at h
  refine ⟨h.1, ?_⟩
  rcases h.2 with hstate | hstate <;> rw [hstate] <;> rfl

/-- What a move needs of the execution it belongs to. -/
structure Engine.Ready (cfg : Config) (resolutions : List RecoveryResolution) (e : Engine) :
    Prop where
  reached : Reached cfg (.live resolutions e)
  default : cfg.scheduler = defaultScheduling

namespace Engine.Ready

variable (h : e.Ready cfg resolutions)
include h

theorem sound : e.Sound := h.reached.sound

theorem started : Started cfg e.world := h.reached.starts.1

theorem hosted : Hosted e.current := (hosted_inductive cfg).current h.reached

theorem aligned : e.Aligned cfg := (h.reached.emits h.default).2

theorem admits : e.Admits := h.reached.admits

theorem known {id : OperationId} (hid : id ∈ e.selected) :
    ∃ k < e.world.names, id = .host (cfg.name k) := h.aligned.selected_known id hid

theorem touches (hmove : Move cfg cause e e') : Touches cfg cause e e'.current :=
  hmove.touches h.sound.valid h.hosted

theorem kept (hmove : Move cfg cause e e') {id : OperationId} (hid : id ∈ e.selected)
    {op' : OperationRecord} (hop' : e'.current.active.operations[id]? = some op') :
    ∃ op, e.current.active.operations[id]? = some op ∧
      (op'.state = .queued → op.state = .queued) ∧ SameCall op op' := by
  have hw := hmove.extends h.sound.head h.sound.valid
  have hsound' := (Turn.move hmove).sound h.sound
  obtain ⟨c, hc, m, -, htables⟩ := hw.tables hsound'.head
  rw [h.sound.head] at hc
  cases hc
  obtain ⟨k, hk, rfl⟩ := h.known hid
  exact htables.kept hk hop'

theorem selected_recovering {applied : List RecoveryResolution}
    (hcause : Allowed resolutions e (.recovery applied)) :
    e.sessionControl = none ∧ e.selected = [] :=
  ⟨hcause.2, selected_of_unbound h.sound h.admits hcause.2⟩

/-- What is in its slot after a move was in it before, or a slot was kept for it; or the move
has put this one operation into a slot, and one was free. -/
theorem held (hcause : Allowed resolutions e cause) (hmove : Move cfg cause e e')
    (hresumes : Resumes e e'.current → e.occupied < e.slots) :
    ∃ extra : List OperationId, e.occupied + extra.length ≤ max e.occupied e.slots ∧
      ∀ (id : OperationId) (op : OperationRecord), e'.current.active.operations[id]? = some op →
        op.active = true → id ∈ extra ∨
          ∃ old, e.current.active.operations[id]? = some old ∧ e.holds (id, old) = true := by
  have hactive : ∀ {id : OperationId} {op : OperationRecord}, op.active = true →
      e.holds (id, op) = true := by
    intro id op hop
    unfold Engine.holds
    rw [Bool.or_eq_true]
    exact .inl hop
  cases h.touches hmove with
  | queue hqueues =>
    refine ⟨[], by simp, fun id op hop hopen => .inr ?_⟩
    obtain ⟨hhost, hunsettled⟩ := unsettled_of_active hopen
    rcases hqueues id op hop hhost with hold | ⟨hqueued, -⟩
    · exact ⟨op, hold, hactive hopen⟩
    · exact absurd hqueued (ne_queued_of_unsettled hunsettled)
  | @one x op op' hop hoperations hcall hqueued hstate =>
    have hothers : ∀ (id : OperationId) (new : OperationRecord),
        e'.current.active.operations[id]? = some new → new.active = true → id ≠ x →
          ∃ old, e.current.active.operations[id]? = some old ∧ e.holds (id, old) = true := by
      intro id new hnew hopen hne
      rcases Tables.insert_cases hoperations hnew with ⟨hid, -⟩ | hold
      · exact absurd hid hne
      · exact ⟨new, hold, hactive hopen⟩
    have hx : e'.current.active.operations[x]? = some op' := by
      rw [hoperations, ExtTreeMap.getElem?_insert_self]
    by_cases hheld : op'.active = true → e.holds (x, op) = true
    · refine ⟨[], by simp, fun id new hnew hopen => .inr ?_⟩
      by_cases hid : id = x
      · rw [hid, hx] at hnew
        cases hnew
        rw [hid]
        exact ⟨op, hop, hheld hopen⟩
      · exact hothers id new hnew hopen hid
    · rw [Classical.not_imp, Bool.not_eq_true] at hheld
      obtain ⟨hopen, hfree⟩ := hheld
      have hidle : op.active = false := by
        cases hopAct : op.active with
        | false => rfl
        | true =>
          rw [hactive hopAct] at hfree
          cases hfree
      have hroom : e.occupied < e.slots := by
        obtain ⟨hhost, hunsettled⟩ := unsettled_of_active hopen
        rw [hcall.owner] at hhost
        rcases hstate hhost hunsettled with hbefore | ⟨hwas, hleaves⟩
        · exact hresumes ⟨x, op, op', hop, hhost, hidle,
            fun hwas => absurd hwas (ne_queued_of_unsettled hbefore), hx, hopen⟩
        · cases hleaves with
          | @admitted bindings decisions hhandling hmem =>
            -- a slot was kept for an admitted call
            have hselected : x ∈ e.selected := by
              unfold Engine.selected
              rw [hhandling]
              exact List.mem_append_right _ hmem
            unfold Engine.holds at hfree
            simp [hwas, hselected] at hfree
          | delegated _ hlooping hadmitting hroom =>
            have hcount := occupied_le_selected e
            rw [selected_of_looping hlooping, hadmitting] at hcount
            exact Nat.lt_of_le_of_lt hcount hroom
          | attached hcaused _ =>
            rw [hcaused] at hcause
            exact hresumes ⟨x, op, op', hop, hhost, hidle, fun _ => hcause.2, hx, hopen⟩
          | served hserves => exact absurd hwas (h.reached.ne_queued hserves hop)
      refine ⟨[x], ?_, fun id new hnew hopen => ?_⟩
      · rw [List.length_singleton]
        omega
      · by_cases hid : id = x
        · exact .inl (List.mem_singleton.mpr hid)
        · exact .inr (hothers id new hnew hopen hid)

theorem roomy (hcause : Allowed resolutions e cause) (hmove : Move cfg cause e e')
    (hroom : e.occupied ≤ e.slots)
    (hresumes : Resumes e e'.current → e.occupied < e.slots) : e'.occupied ≤ e'.slots := by
  have hslots : e'.slots = e.slots := by
    unfold Engine.slots
    rw [hmove.options]
  cases hmove.selection h.default with
  | @reserved id record name hnext _ _ _ hlooping _ hfree _ _ _ =>
    have hcount := occupied_le_selected e'
    have hselected : e'.selected.length = e.admitting.length + 1 := by
      rw [hnext]
      have hsame : (e.reserve id).Looping := hlooping
      rw [selected_of_looping hsame]
      rfl
    have hcurrent : e'.current = e.current := by
      rw [hnext]
      rfl
    rw [hcurrent, hselected] at hcount
    omega
  | kept hkept =>
    obtain ⟨extra, hextra, hheld⟩ := h.held hcause hmove hresumes
    have hcount : e'.occupied ≤ e.occupied + extra.length := by
      refine Library.TreeMap.countP_le_add _ extra fun id op hop hholds => ?_
      unfold Engine.holds at hholds
      simp only [Bool.or_eq_true, Bool.and_eq_true, decide_eq_true_eq] at hholds
      rcases hholds with hopen | ⟨hqueued, hselected⟩
      · exact hheld id op hop hopen
      · -- a call that is selected and queued was both before
        have hselected' := hkept id hselected
        obtain ⟨old, hold, hwas, -⟩ := h.kept hmove hselected' hop
        refine .inr ⟨old, hold, ?_⟩
        unfold Engine.holds
        simp [hwas hqueued, hselected']
    omega

end Engine.Ready

end Zhir.Kernel
