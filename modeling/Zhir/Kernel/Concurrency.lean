import Zhir.Kernel.Barrier

/-!
The concurrency of a run's host operations: the bound on the slots and the serial barrier hold in
every run whose steps keep to the gate, and fail where a waiting call comes back.
-/

set_option autoImplicit false
set_option relaxedAutoImplicit false

namespace Zhir.Kernel

open Zhir.Core
open Relation (ReflTransGen)
open Std (ExtTreeMap)

variable {cfg : Config} {cause : Cause} {e e' : Engine} {w : World} {c c' : Checkpoint}
  {resolutions : List RecoveryResolution}

def Point.Kept : Point → Prop
  | .live _ e => e.Kept
  | p => Bounded p.world

private theorem Engine.Ready.bounded_world (h : e.Ready cfg resolutions) (hkept : e.Kept) :
    Bounded e.world := by
  intro c hc
  rw [h.sound.head] at hc
  cases hc
  exact hkept.bounded

theorem Bounded.opened {order : List String} {request : Request} {expired : Bool}
    {first : Checkpoint} (h : Bounded w) (hsubmitted : Submitted cfg order w)
    (hopens : Opens cfg w request expired first) :
    activeCount first ≤ first.options.limits.maxOperationConcurrency := by
  cases request with
  | start history context options =>
    have hnone : first.active.operations = ∅ := by
      rw [hopens.checkpoint]
      cases expired <;> rfl
    unfold activeCount
    rw [hnone]
    exact Nat.zero_le _
  | recover base messages resolutions metadata =>
    have hsame : first.active.operations = base.active.operations ∧
        first.options = base.options := by
      rw [hopens.checkpoint]
      cases expired <;> exact ⟨rfl, rfl⟩
    unfold activeCount
    rw [hsame.1, hsame.2]
    exact h base (hsubmitted.resumes hopens)

private theorem kept_boot {first : Checkpoint}
    (h : activeCount first ≤ first.options.limits.maxOperationConcurrency) (w : World) :
    (Engine.boot w first).Kept := by
  refine ⟨?_, fun id hid => absurd hid List.not_mem_nil,
    fun id hid => absurd hid List.not_mem_nil⟩
  exact (occupied_le_selected (Engine.boot w first)).trans h

theorem WithinGate.kept (hdefault : cfg.scheduler = defaultScheduling) {p : Point}
    (hp : WithinGate cfg p) : p.Kept := by
  induction hp with
  | refl => exact fun c hc => (nomatch hc)
  | @tail p p' hrun hnext ih =>
    obtain ⟨hstep, hgated⟩ := hnext
    have hreached : Reached cfg p := WithinGate.reached hrun
    cases p with
    | idle w =>
      cases hstep with
      | wait hw =>
        exact fun c hc => ih c (hw.head.symm.trans hc)
      | lost hopens =>
        obtain ⟨order, hsubmitted⟩ := hreached.delivers
        intro c hc
        cases hc
        exact Bounded.opened ih hsubmitted hopens
      | boot hopens =>
        obtain ⟨order, hsubmitted⟩ := hreached.delivers
        exact kept_boot (Bounded.opened ih hsubmitted hopens) _
    | ended e =>
      cases hstep with
      | @lateTask _ index event =>
        exact fun c hc => ih c ((Engine.runTask_durable cfg index event e).2.symm.trans hc)
      | latePacket | exit => exact ih
    | live resolutions e =>
      have hready : e.Ready cfg resolutions := ⟨hreached, hdefault⟩
      have hkept : e.Kept := ih
      have hbounded : Bounded p'.world := hkept.bounded_next hready hstep hgated
      cases hstep with
      | turn hcause hturn => exact hkept.turn hready hcause hturn hgated
      | @task _ _ index event =>
        rcases Engine.runTask_cases cfg index event e with hsame | ⟨task, step, -, -, hnext⟩
        · change (e.runTask cfg index event).Kept
          rw [hsame]
          exact hkept
        · change (e.runTask cfg index event).Kept
          rw [hnext]
          exact hkept.mono rfl rfl fun id hid => hid
      | packet => exact hkept.mono rfl rfl fun id hid => hid
      | fail _ _ | finish | crash => exact hbounded

/-- No operation waits or is unknown, none is a delegation, and no run has been taken up again. -/
structure Smooth (c : Checkpoint) : Prop where
  fresh : c.fact ≠ .attached
  records : ∀ (id : OperationId) (op : OperationRecord), c.active.operations[id]? = some op →
    op.state.resting = false ∧ op.owner ≠ .delegation

theorem Step.durable {p p' : Point} (h : Step cfg p p') (hreached : Reached cfg p) :
    ∀ c ∈ p.world.durable, c ∈ p'.world.durable := by
  have hextends : ∀ {w w' : World}, World.Extends cfg w w' → ∀ c ∈ w.durable, c ∈ w'.durable :=
    fun hw c hc => mem_durable.mpr (hw.mem _ (mem_durable.mp hc))
  have htask : ∀ (e : Engine) (index : Nat) (event : TaskEvent),
      ∀ c ∈ e.world.durable, c ∈ (e.runTask cfg index event).world.durable := by
    intro e index event c hc
    rw [(Engine.runTask_durable cfg index event e).1]
    exact hc
  cases h with
  | wait hw => exact hextends (.counted hw)
  | lost _ | boot _ => exact fun c hc => List.mem_cons_of_mem _ hc
  | turn _ hturn =>
    have hsound := hreached.sound
    cases hturn with
    | move hmove => exact hextends (hmove.extends hsound.head hsound.valid)
    | take _ _ | drop _ _ => exact fun c hc => hc
  | task | lateTask => exact htask _ _ _
  | fail _ hfault =>
    have hsound := hreached.sound
    obtain ⟨w, hfirst, hsecond, -⟩ := hfault.extends hsound.head hsound.valid
    exact fun c hc => hextends hsecond c (hextends hfirst c hc)
  | _ => exact fun c hc => hc

/-- Nothing is resolved in a run that is never taken up again. -/
private theorem Reached.resolutions_nil {p : Point} (hp : Reached cfg p)
    (hsmooth : ∀ c ∈ p.world.durable, Smooth c) :
    ∀ resolutions e, p = .live resolutions e → resolutions = [] := by
  induction hp with
  | refl => exact fun _ _ hp => (nomatch hp)
  | @tail p p' hreached hstep ih =>
    have hbefore := ih fun c hc => hsmooth c (hstep.durable hreached c hc)
    intro resolutions' e' hp'
    cases hstep with
    | @boot w request expired first hopens =>
      cases hp'
      have hfirst := (hsmooth first List.mem_cons_self).fresh
      cases request with
      | start history context options => rfl
      | recover base messages resolutions metadata =>
        rw [hopens.checkpoint] at hfirst
        cases expired <;> exact absurd rfl hfirst
    | turn _ _ | task | packet =>
      cases hp'
      exact hbefore _ _ rfl
    | _ => cases hp'

private theorem Engine.Ready.unresumed (h : e.Ready cfg []) (hsmooth : Smooth e.current)
    {p' : Point}
    (hstep : Step cfg (.live [] e) p') (hc : p'.world.head = some c) {id : OperationId}
    {op op' : OperationRecord} (hop : e.current.active.operations[id]? = some op)
    (hidle : op.active = false) (hunbound : op.state = .queued → e.sessionControl = none)
    (hop' : c.active.operations[id]? = some op') (hhost : op.owner.host = true) :
    op'.state.unsettled = false := by
  by_contra hunsettled
  rw [Bool.not_eq_false] at hunsettled
  have hbefore : op.state.unsettled = false := by
    have hresting := (hsmooth.records id op hop).1
    unfold OperationRecord.active at hidle
    rw [hhost] at hidle
    cases hstate : op.state with
    | waiting | unknown =>
      rw [hstate] at hresting
      cases hresting
    | running | cancelling =>
      rw [hstate] at hidle
      cases hidle
    | _ => rfl
  obtain ⟨base, hafter, hcomes⟩ := h.heads hstep
  obtain ⟨new, hnew, hstarted⟩ := (hcomes c hc).unsettled hop' hunsettled
  have hkept : e.current.active.operations[id]? ≠ some new := by
    rw [hop]
    rintro hsame
    cases hsame
    rw [hstarted] at hbefore
    cases hbefore
  cases hafter with
  | same => exact hkept hnew
  | moved hcause hmove =>
    cases h.touches hmove with
    | queue hqueues =>
      rcases hqueues id new hnew (h.host_kept hmove hop hhost hnew) with hold | ⟨hqueued, -⟩
      · exact hkept hold
      · exact ne_queued_of_unsettled hstarted hqueued
    | one hx hoperations _ _ hstate =>
      rcases Tables.insert_cases hoperations hnew with ⟨rfl, rfl⟩ | hold
      · rw [hx] at hop
        cases hop
        rcases hstate hhost hstarted with hsettled | ⟨hqueued, hleaves⟩
        · rw [hsettled] at hbefore
          cases hbefore
        · have hnone := hunbound hqueued
          cases hleaves with
          | admitted hhandling _ =>
            have hbound := h.sound.bound (by rw [hhandling]; rfl)
            rw [hnone] at hbound
            cases hbound
          | delegated _ hlooping _ _ =>
            have hbound := hlooping.1
            rw [hnone] at hbound
            cases hbound
          | attached hcaused hmem =>
            rw [hcaused] at hcause
            rw [hcause.1] at hmem
            cases hmem
          | served hserves => exact h.reached.ne_queued hserves hx hqueued
      · exact hkept hold

private theorem Reached.withinGate (hdefault : cfg.scheduler = defaultScheduling) {p : Point}
    (hp : Reached cfg p) (hsmooth : ∀ c ∈ p.world.durable, Smooth c) : WithinGate cfg p := by
  induction hp with
  | refl => exact .refl
  | @tail p p' hreached hstep ih =>
    have hsmooth' : ∀ c ∈ p.world.durable, Smooth c :=
      fun c hc => hsmooth c (hstep.durable hreached c hc)
    refine .tail (ih hsmooth') ⟨hstep, ?_⟩
    cases p with
    | live resolutions e =>
      obtain rfl := Reached.resolutions_nil hreached hsmooth' _ _ rfl
      have hready : e.Ready cfg [] := ⟨hreached, hdefault⟩
      have hcurrent : Smooth e.current := hsmooth' _ hready.sound.durable
      refine ⟨fun c hc hresumes => ?_, fun _ _ _ _ _ _ _ _ hbarred => ?_, ?_⟩
      · obtain ⟨id, op, op', hop, hhost, hidle, hunbound, hop', hopen⟩ := hresumes
        have hunsettled := (unsettled_of_active hopen).2
        rw [hready.unresumed hcurrent hstep hc hop hidle hunbound hop' hhost] at hunsettled
        cases hunsettled
      · obtain ⟨id, other, name, hother, -, -, -, hstate⟩ := hbarred
        rw [(hcurrent.records id other hother).1] at hstate
        cases hstate
      · intro c hc id op op' hop hhost hqueued hkind hop' hunsettled _
        have hunbound := hkind.resolve_left (hcurrent.records id op hop).2
        have hidle : op.active = false := by
          unfold OperationRecord.active
          rw [hqueued]
          exact Bool.and_false _
        rw [hready.unresumed hcurrent hstep hc hop hidle (fun _ => hunbound) hop' hhost]
          at hunsettled
        cases hunsettled
    | _ => exact trivial

theorem Shows.world {s : System} {p : Point} (h : Shows s p) : p.world = s.world := by
  cases h <;> rfl

/-- Under the default scheduler, in every run whose steps keep to the gate: no state has more
host operations running or being cancelled than the run allows, and no step starts a host
operation while a serial call emitted before it is started and not settled. -/
theorem concurrency_bounded (hdefault : cfg.scheduler = defaultScheduling) {p : Point}
    (hp : WithinGate cfg p) {s : System} (hs : Shows s p) :
    Bounded s.world ∧ ∀ p', Step cfg p p' → Gated p p' → Barrier p p' := by
  have hkept := hp.kept hdefault
  rw [← hs.world]
  cases p with
  | idle w => exact ⟨hkept, fun _ _ _ => trivial⟩
  | ended e => exact ⟨hkept, fun _ _ _ => trivial⟩
  | live resolutions e =>
    have hready : e.Ready cfg resolutions := ⟨hp.reached, hdefault⟩
    exact ⟨hready.bounded_world hkept, fun p' hstep hgated =>
      Engine.Kept.barrier hkept hready hstep hgated⟩

instance (c : Checkpoint) : Decidable (Smooth c) :=
  decidable_of_iff (c.fact ≠ .attached ∧ ∀ entry ∈ c.active.operations.toList,
    entry.2.state.resting = false ∧ entry.2.owner ≠ .delegation) <| by
    constructor
    · rintro ⟨hfresh, hentries⟩
      exact ⟨hfresh, fun id op hop =>
        hentries (id, op) (ExtTreeMap.mem_toList_iff_getElem?_eq_some.mpr hop)⟩
    · rintro ⟨hfresh, hrecords⟩
      exact ⟨hfresh, fun entry hentry =>
        hrecords entry.1 entry.2 (ExtTreeMap.mem_toList_iff_getElem?_eq_some.mp hentry)⟩

def sampleOneAtATime : RunOptions :=
  sampleOptions { sampleLimits with maxOperationConcurrency := 1 }

def sampleQueueing : List Action :=
  sampleOpening sampleOneAtATime ++
  sampleEvent 3 (.output (some sampleGeneration) "item" "model" (sampleCall "call" "write")) ++
  sampleEvent 4 (.output (some sampleGeneration) "other" "model" (sampleCall "next" "write")) ++
  sampleReport 2 (.decided (.ok [.allow]))

/-- The first call waits, and the second one has been approved. -/
def samplePausedCall : List Action :=
  sampleQueueing ++ [.task 2 .invoked] ++ sampleReport 2 (.returned (.ok (.active ⟨none⟩))) ++
  sampleReport 2 (.operation (.ok (some ⟨0, .waiting .null none⟩))) ++
  [.task 3 (.decided (.ok [.allow]))]

def sampleResumed : List Action :=
  samplePausedCall ++ [.work, .pass, .pass] ++
  sampleReport 2 (.operation (.ok (some ⟨1, .running none⟩)))

theorem sample_bounded :
    let s := sampleRun sampleQueueing
    (s.head (by decide +kernel)).active.operations.toList.map (fun entry => entry.2.state) =
        [.running, .queued] ∧
      ∃ p, WithinGate sampleConfig p ∧ Shows s p ∧ Bounded s.world ∧
        ∀ p', Step sampleConfig p p' → Gated p p' → Barrier p p' := by
  intro s
  have hs : Reachable sampleConfig s := ⟨_, rfl⟩
  obtain ⟨p, hp, hshows⟩ := reached_of_reachable hs
  have hsmooth : ∀ c ∈ s.world.durable, Smooth c := by decide +kernel
  have hgate : WithinGate sampleConfig p := hp.withinGate rfl (hshows.world ▸ hsmooth)
  exact ⟨by decide +kernel, p, hgate, hshows, concurrency_bounded rfl hgate hshows⟩

def samplePausedEngine : Engine := sampleEngine samplePausedCall (by decide +kernel)

def sampleSecond : OperationId := .host (sampleName 'i' 12)

def sampleCallOf (id : OperationId)
    (h : (samplePausedEngine.current.active.operations[id]?).isSome = true) : OperationRecord :=
  (samplePausedEngine.current.active.operations[id]?).get h

private theorem sampleCallOf_get (id : OperationId)
    (h : (samplePausedEngine.current.active.operations[id]?).isSome = true) :
    samplePausedEngine.current.active.operations[id]? = some (sampleCallOf id h) :=
  (Option.some_get h).symm

def sampleFirstCall : OperationRecord := sampleCallOf sampleOperation (by decide +kernel)

def sampleSecondCall : OperationRecord := sampleCallOf sampleSecond (by decide +kernel)

def sampleOverrun : Checkpoint := (sampleRun sampleResumed).world.head.get (by decide +kernel)

/-- The first call waits and is not in the way of the second one; when it goes on both run, in
a run that allows one at a time. -/
theorem waiting_call_overrun :
    sampleConfig.scheduler = defaultScheduling ∧
    Reachable sampleConfig (sampleRun samplePausedCall) ∧
    samplePausedEngine.current.active.operations[sampleSecond]? = some sampleSecondCall ∧
    sampleSecondCall.owner.host = true ∧ sampleSecondCall.state = .queued ∧
    Barred samplePausedEngine.catalog OperationState.unsettled samplePausedEngine.current
      sampleSecondCall ∧
    (((sampleRun (samplePausedCall ++ [.work])).head (by decide +kernel)).active.operations[
      sampleSecond]?).map OperationRecord.state = some .running ∧
    Reachable sampleConfig (sampleRun sampleResumed) ∧
    ¬ Bounded (sampleRun sampleResumed).world := by
  have hbarred :
      Barred samplePausedEngine.catalog OperationState.unsettled samplePausedEngine.current
        sampleSecondCall :=
    ⟨sampleOperation, sampleFirstCall, "write", sampleCallOf_get _ _, by decide +kernel,
      by decide +kernel, by decide +kernel, by decide +kernel⟩
  refine ⟨rfl, ⟨_, rfl⟩, sampleCallOf_get _ _, by decide +kernel, by decide +kernel, hbarred,
    by decide +kernel, ⟨_, rfl⟩, fun hbounded => ?_⟩
  have hover : activeCount sampleOverrun ≤
      sampleOverrun.options.limits.maxOperationConcurrency :=
    hbounded sampleOverrun (Option.some_get (by decide +kernel)).symm
  exact absurd hover (by decide +kernel)

end Zhir.Kernel
