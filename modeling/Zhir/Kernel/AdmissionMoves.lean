import Mathlib.Data.List.TakeWhile
import Zhir.Core.Causality
import Zhir.Kernel.OperationMoves
import Zhir.Library.TreeMap

/-!
Admission, approval and recovery of operations as moves.
-/

set_option autoImplicit false
set_option relaxedAutoImplicit false

namespace Zhir.Kernel

open Zhir.Core
open Zhir.Library (Program)
open Zhir.Library.Program
open Zhir.Library.TreeMap
open Relation (ReflTransGen)

variable {cfg : Config} {cause : Cause} {fault : Engine → Error → Engine → Prop} {e : Engine}
  {w : World} {α : Type}

theorem callOf_name {c : Checkpoint} {id : OperationId} {op : OperationRecord} {name : String}
    {call : RuntimeToolCall} (hvalid : c.Valid) (hop : c.active.operations[id]? = some op)
    (howner : op.owner = .runtimeTool name) (hcall : callOf op c = .ok call) :
    call.name = name := by
  obtain ⟨entry, hentry, horigin, hchecks⟩ := (hvalid.operations id op hop).call
  have hmatches : Checkpoint.callMatches entry.message op name = true := by
    simpa using hchecks (!Checkpoint.callMatches entry.message op name, "operation call mismatch")
      (by simp [Checkpoint.ownerViolations, howner])
  have hunique := hvalid.called_nodup hentry
  obtain ⟨entryId, origin, message⟩ := entry
  cases message with
  | assistant output data =>
    simp only [callOf, hentry] at hcall
    simp only [Checkpoint.callMatches, List.any_eq_true] at hmatches
    obtain ⟨item, hitem, hmatch⟩ := hmatches
    cases item with
    | runtimeToolCall other =>
      simp only [Bool.and_eq_true, decide_eq_true_eq] at hmatch
      split at hcall
      · rename_i found hfound
        cases hcall
        obtain ⟨item', hitem', hfound⟩ := List.exists_of_findSome?_eq_some hfound
        cases item' with
        | runtimeToolCall call' =>
          simp only [Option.ite_none_right_eq_some, Option.some.injEq] at hfound
          obtain ⟨hid, rfl⟩ := hfound
          subst horigin
          have hsame : Output.runtimeToolCall other = Output.runtimeToolCall call' :=
            introduces_unique hunique hitem hitem' rfl
              (by simp [Output.introduces, hid, hmatch.2])
          cases hsame
          exact hmatch.1
        | _ => simp at hfound
      · cases hcall
    | _ => simp at hmatch
  | _ => simp [Checkpoint.callMatches] at hmatches

private theorem Catalog.parallel_of_bind {catalog : Catalog} {answer : Nat} {call : RuntimeToolCall}
    {spec : RuntimeToolSpec} (h : catalog.bind answer call = .ok spec) :
    catalog.parallel call.name = spec.parallel := by
  unfold Catalog.bind at h
  obtain ⟨_, -, h⟩ := Result.bind_ok h
  unfold Catalog.parallel
  rcases hfind : catalog.specs.find? fun spec => spec.name = call.name with _ | found
  · rw [hfind] at h
    cases h
  · rw [hfind] at h
    obtain ⟨bound, -, h⟩ := Result.bind_ok h
    split at h
    · cases h
    · cases h
      rw [hfind]
      rfl

private theorem serialActive_of_idle {catalog : Catalog} {c : Checkpoint} (h : activeCount c = 0) :
    serialActive catalog c = false := by
  unfold activeCount at h
  rw [List.countP_eq_zero] at h
  unfold serialActive
  rw [List.any_eq_false]
  rintro ⟨id, op⟩ hmem
  have := h (id, op) hmem
  simp only [Bool.not_eq_true] at this
  simp [this]

private theorem Settles.activeCount_le {id : OperationId} {e e' : Engine} (h : Settles id e e') :
    activeCount e'.current ≤ activeCount e.current := by
  refine countP_le_of_getElem? _ fun other op hop hactive => ?_
  by_cases hid : other = id
  · subst hid
    change op.active = true at hactive
    rw [OperationRecord.active_of_terminal (h.settled op hop)] at hactive
    cases hactive
  · rwa [h.others other hid] at hop

/-- What the selection loop of one admission keeps, from the engine `e₀` it began with. -/
structure Selecting (e₀ : Engine) (available : List Candidate) (calls : List RuntimeToolCall)
    (running : Nat) (selected : List String) (bindings : List Binding)
    (rest : List RuntimeToolCall) (e : Engine) : Prop where
  looping : e.Looping
  catalog : e.catalog = e₀.catalog
  reserved : e.admitting = (bindings.map Binding.id).reverse
  idle : activeCount e.current ≤ running
  room : running + bindings.length + rest.length ≤
    e.current.options.limits.maxOperationConcurrency
  among : ∀ call ∈ rest, call ∈ calls
  few : bindings.length + rest.length ≤ calls.length
  candidates : ∀ c ∈ available, c.id.text ∉ selected → c.id ∉ e.admitting ∧
    ∃ record, e.current.active.operations[c.id]? = some record ∧ record.state = .queued ∧
      record.owner = .runtimeTool c.call.name
  chosen : ∀ b ∈ bindings, (∃ call ∈ calls, call.name = b.call.name) ∧
    ∃ record, e.current.active.operations[b.id]? = some record ∧
      record.owner = .runtimeTool b.call.name
  queued : ∀ (id : OperationId) (op : OperationRecord),
    e.current.active.operations[id]? = some op → op.state = .queued →
      e₀.current.active.operations[id]? = some op
  unbatched : e.batches = []

/-- A candidate whose predecessors in emission order are parallel. -/
def Foremost (catalog : Catalog) (available : List Candidate) (candidate : Candidate) : Prop :=
  ∃ before after, available = before ++ candidate :: after ∧
    ∀ c ∈ before, catalog.parallel c.call.name = true

/-- What the default scheduler's choice of calls means for each of them. -/
structure Scheduled (catalog : Catalog) (available : List Candidate)
    (calls : List RuntimeToolCall) : Prop where
  foremost : ∀ call ∈ calls, ∀ candidate,
    available.find? (fun c => c.shown = call) = some candidate →
      Foremost catalog available candidate
  parallel : calls.length ≤ 1 ∨ ∀ call ∈ calls, catalog.parallel call.name = true
  leading : calls <+: available.map Candidate.shown

/-- The selection loop goes through the candidates in their order: those it has passed are
reserved, or no longer queued. -/
def Following (available : List Candidate) (rest : List RuntimeToolCall) (e : Engine) : Prop :=
  ∃ before after, available = before ++ after ∧ rest <+: after.map Candidate.shown ∧
    ∀ c ∈ before, c.id ∈ e.admitting ∨
      ∀ op, e.current.active.operations[c.id]? = some op → op.state ≠ .queued

private theorem takeWhile_before {β : Type} {p : β → Bool} {x : β} {xs ys : List β}
    (h : x ∈ (xs ++ x :: ys).takeWhile p) (hx : x ∉ xs) : ∀ y ∈ xs, p y = true := by
  induction xs with
  | nil => simp
  | cons y xs ih =>
    rw [List.cons_append, List.takeWhile_cons] at h
    by_cases hp : p y = true
    · rw [if_pos hp] at h
      have hne : x ≠ y := fun heq => hx (heq ▸ List.mem_cons_self)
      have hrest := (List.mem_cons.mp h).resolve_left hne
      have hxs : x ∉ xs := fun hmem => hx (List.mem_cons_of_mem _ hmem)
      exact List.forall_mem_cons.mpr ⟨hp, ih hrest hxs⟩
    · rw [if_neg hp] at h
      cases h

private theorem scheduled_default {catalog : Catalog} {available : List Candidate}
    {admission : Admission}
    (h : defaultScheduling (available.map Candidate.shown) catalog.specs = .ok admission) :
    Scheduled catalog available admission.calls := by
  cases available with
  | nil =>
    cases h
    exact ⟨by simp, .inl (Nat.zero_le _), List.prefix_rfl⟩
  | cons first rest =>
    simp only [defaultScheduling, List.map_cons] at h
    split at h
    · cases h
      refine ⟨fun call hcall candidate hfind => ?_, .inr fun call hcall => ?_,
        List.takeWhile_prefix _⟩
      · obtain ⟨hshown, before, after, hsplit, hbefore⟩ := List.find?_eq_some_iff_append.mp hfind
        have hshown : candidate.shown = call := by simpa using hshown
        refine ⟨before, after, hsplit, fun c hc => ?_⟩
        rw [← List.map_cons, hsplit, List.map_append, List.map_cons, hshown] at hcall
        have hnot : call ∉ before.map Candidate.shown := by
          intro hmem
          obtain ⟨c, hc, hc'⟩ := List.mem_map.mp hmem
          have := hbefore c hc
          simp [hc'] at this
        exact takeWhile_before hcall hnot c.shown (List.mem_map_of_mem hc)
      · have := List.mem_takeWhile_imp hcall
        exact this
    · cases h
      refine ⟨fun call hcall candidate hfind => ?_, .inl le_rfl, ⟨rest.map Candidate.shown, rfl⟩⟩
      have hfirst : call = first.shown := by simpa using hcall
      have : candidate = first := by
        rw [List.find?_cons_of_pos (by simp [hfirst])] at hfind
        exact (Option.some.inj hfind).symm
      exact ⟨[], rest, by rw [this]; rfl, by simp⟩

private theorem emitted_le {a b : OperationRecord} (h : emitted a b = true) :
    a.callEntry ≤ b.callEntry := by
  unfold emitted at h
  simp only [Bool.or_eq_true, Bool.and_eq_true, decide_eq_true_eq] at h
  omega

/-- Candidates stand for the queued calls, in emission order. -/
structure Represents (c : Checkpoint) (available : List Candidate) : Prop where
  record : ∀ candidate ∈ available, ∃ record name,
    c.active.operations[candidate.id]? = some record ∧ record.state = .queued ∧
      record.owner = .runtimeTool name ∧ candidate.call.name = name
  complete : ∀ (id : OperationId) (op : OperationRecord) (name : String),
    c.active.operations[id]? = some op → op.state = .queued → op.owner = .runtimeTool name →
      ∃ candidate ∈ available, candidate.id = id ∧ candidate.call.name = name
  sorted : available.Pairwise fun a b => ∀ (p q : OperationRecord),
    c.active.operations[a.id]? = some p → c.active.operations[b.id]? = some q →
      p.callEntry ≤ q.callEntry

theorem Foremost.earlier {catalog : Catalog} {c : Checkpoint} {available : List Candidate}
    {candidate : Candidate} {record : OperationRecord} (h : Foremost catalog available candidate)
    (hrep : Represents c available) (hrecord : c.active.operations[candidate.id]? = some record)
    {id : OperationId} {other : OperationRecord} {name : String}
    (hother : c.active.operations[id]? = some other) (hqueued : other.state = .queued)
    (howner : other.owner = .runtimeTool name) (hlt : other.callEntry < record.callEntry) :
    catalog.parallel name = true := by
  obtain ⟨before, after, hsplit, hbefore⟩ := h
  obtain ⟨found, hfound, rfl, rfl⟩ := hrep.complete id other name hother hqueued howner
  rw [hsplit] at hfound
  have hsorted := hrep.sorted
  rw [hsplit, List.pairwise_append] at hsorted
  rcases List.mem_append.mp hfound with hmem | hmem
  · exact hbefore found hmem
  · rcases List.mem_cons.mp hmem with rfl | hmem
    · rw [hrecord] at hother
      cases hother
      omega
    · have := (List.pairwise_cons.mp hsorted.2.1).1 found hmem record other hrecord hother
      omega

private theorem find?_shown {available : List Candidate} {candidate : Candidate}
    {call : RuntimeToolCall}
    (h : available.find? (fun c => c.shown = call) = some candidate) :
    candidate ∈ available ∧ candidate.shown = call :=
  ⟨List.mem_of_find?_eq_some h, by simpa using List.find?_some h⟩

namespace Selecting

variable {e₀ : Engine} {available : List Candidate} {calls rest : List RuntimeToolCall}
  {running : Nat} {selected : List String} {bindings : List Binding} {call : RuntimeToolCall}
  {candidate : Candidate}

theorem inWorld (h : Selecting e₀ available calls running selected bindings rest e) :
    Selecting e₀ available calls running selected bindings rest (e.inWorld w) :=
  ⟨h.looping, h.catalog, h.reserved, h.idle, h.room, h.among, h.few, h.candidates, h.chosen,
    h.queued, h.unbatched⟩

private theorem reserved_ne (h : Selecting e₀ available calls running selected bindings rest e)
    (hcandidate : candidate ∈ available) (hselected : candidate.id.text ∉ selected) :
    ∀ b ∈ bindings, b.id ≠ candidate.id := by
  intro b hb heq
  have hmem : candidate.id ∈ e.admitting := by
    rw [h.reserved, List.mem_reverse, ← heq]
    exact List.mem_map_of_mem hb
  exact (h.candidates candidate hcandidate hselected).1 hmem

theorem skip {e' : Engine}
    (h : Selecting e₀ available calls running selected bindings (call :: rest) e)
    (hcandidate : candidate ∈ available) (hshown : candidate.shown = call)
    (hselected : call.id ∉ selected) (hsettles : Settles candidate.id e e')
    (hlooping : e'.Looping) :
    Selecting e₀ available calls running (call.id :: selected) bindings rest e' := by
  have htext : candidate.id.text = call.id := by rw [← hshown]; rfl
  rw [← htext] at hselected ⊢
  have hidle : activeCount e'.current ≤ activeCount e.current :=
    hsettles.activeCount_le
  refine
    { looping := hlooping
      catalog := hsettles.catalog.trans h.catalog
      reserved := hsettles.admitting.trans h.reserved
      idle := hidle.trans h.idle
      room := ?_
      among := fun call hcall => h.among call (List.mem_cons_of_mem _ hcall)
      few := ?_
      candidates := fun c hc hnot => ?_
      chosen := fun b hb => ?_
      queued := fun id op hop hqueued => ?_
      unbatched := hsettles.batches.trans h.unbatched }
  · have := h.room
    rw [hsettles.options]
    simp only [List.length_cons] at this
    omega
  · have := h.few
    simp only [List.length_cons] at this
    omega
  · simp only [List.mem_cons, not_or] at hnot
    have hne : c.id ≠ candidate.id := fun heq => hnot.1 (by rw [heq])
    obtain ⟨hadmitting, record, hrecord⟩ := h.candidates c hc hnot.2
    rw [hsettles.admitting, hsettles.others _ hne]
    exact ⟨hadmitting, record, hrecord⟩
  · obtain ⟨hcall, record, hrecord⟩ := h.chosen b hb
    rw [hsettles.others _ (h.reserved_ne hcandidate hselected b hb)]
    exact ⟨hcall, record, hrecord⟩
  · by_cases hid : id = candidate.id
    · subst hid
      have := hsettles.settled op hop
      rw [hqueued] at this
      cases this
    · rw [hsettles.others _ hid] at hop
      exact h.queued id op hop hqueued

theorem reserve (h : Selecting e₀ available calls running selected bindings (call :: rest) e)
    (hcandidate : candidate ∈ available) (hshown : candidate.shown = call)
    (hselected : call.id ∉ selected) :
    Selecting e₀ available calls running (call.id :: selected)
      (bindings ++ [⟨candidate.id, candidate.call⟩]) rest (e.reserve candidate.id) := by
  have htext : candidate.id.text = call.id := by rw [← hshown]; rfl
  rw [← htext] at hselected ⊢
  obtain ⟨-, record, hrecord, -, howner⟩ := h.candidates candidate hcandidate hselected
  refine
    { looping := h.looping
      catalog := h.catalog
      reserved := ?_
      idle := h.idle
      room := ?_
      among := fun call hcall => h.among call (List.mem_cons_of_mem _ hcall)
      few := ?_
      candidates := fun c hc hnot => ?_
      chosen := fun b hb => ?_
      queued := h.queued
      unbatched := h.unbatched }
  · simp [Engine.reserve, h.reserved]
  · have := h.room
    simp only [List.length_cons, List.length_append, List.length_nil] at this ⊢
    change running + (bindings.length + 1) + rest.length ≤
      e.current.options.limits.maxOperationConcurrency
    omega
  · have := h.few
    simp only [List.length_cons, List.length_append, List.length_nil] at this ⊢
    omega
  · simp only [List.mem_cons, not_or] at hnot
    have hne : c.id ≠ candidate.id := fun heq => hnot.1 (by rw [heq])
    obtain ⟨hadmitting, hqueued⟩ := h.candidates c hc hnot.2
    exact ⟨fun hmem => (List.mem_cons.mp hmem).elim hne hadmitting, hqueued⟩
  · rcases List.mem_append.mp hb with hb | hb
    · exact h.chosen b hb
    · rw [List.mem_singleton.mp hb]
      refine ⟨⟨call, h.among call List.mem_cons_self, ?_⟩, record, hrecord, howner⟩
      rw [← hshown]
      rfl

theorem next (h : Selecting e₀ available calls running selected bindings (call :: rest) e)
    (hfollowing : Following available (call :: rest) e)
    (hfind : available.find? (fun c => c.shown = call) = some candidate)
    (hselected : call.id ∉ selected) :
    ∃ before after, available = before ++ candidate :: after ∧
      rest <+: after.map Candidate.shown ∧ ∀ c ∈ before, c.id ∈ e.admitting ∨
        ∀ op, e.current.active.operations[c.id]? = some op → op.state ≠ .queued := by
  obtain ⟨hcandidate, hshown⟩ := find?_shown hfind
  have htext : candidate.id.text = call.id := by rw [← hshown]; rfl
  obtain ⟨hfree, record, hrecord, hqueued, -⟩ :=
    h.candidates candidate hcandidate (htext ▸ hselected)
  obtain ⟨before, after, hsplit, hprefix, hpassed⟩ := hfollowing
  cases after with
  | nil => cases List.prefix_nil.mp hprefix
  | cons first after =>
    obtain ⟨hfirst, hrest⟩ := List.cons_prefix_cons.mp hprefix
    -- what the loop has passed cannot be selected again
    have hnone : before.find? (fun c => c.shown = call) = none := by
      cases hbefore : before.find? fun c => c.shown = call with
      | none => rfl
      | some passed =>
        rw [hsplit, List.find?_append, hbefore, Option.some_or, Option.some.injEq] at hfind
        subst hfind
        rcases hpassed passed (List.mem_of_find?_eq_some hbefore) with hreserved | hsettled
        · exact absurd hreserved hfree
        · exact absurd hqueued (hsettled record hrecord)
    rw [hsplit, List.find?_append, hnone, Option.none_or,
      List.find?_cons_of_pos (by simp [hfirst]), Option.some.injEq] at hfind
    subst hfind
    exact ⟨before, after, hsplit, hrest, hpassed⟩

theorem following {e' : Engine}
    (h : Selecting e₀ available calls running selected bindings (call :: rest) e)
    (hfollowing : Following available (call :: rest) e)
    (hfind : available.find? (fun c => c.shown = call) = some candidate)
    (hselected : call.id ∉ selected) (hadmitting : ∀ id ∈ e.admitting, id ∈ e'.admitting)
    (hothers : ∀ other, other ≠ candidate.id →
      e'.current.active.operations[other]? = e.current.active.operations[other]?)
    (hpassed : candidate.id ∈ e'.admitting ∨
      ∀ op, e'.current.active.operations[candidate.id]? = some op → op.state ≠ .queued) :
    Following available rest e' := by
  obtain ⟨before, after, hsplit, hrest, hbefore⟩ := h.next hfollowing hfind hselected
  refine ⟨before ++ [candidate], after, ?_, hrest, fun c hc => ?_⟩
  · rw [hsplit, List.append_assoc, List.singleton_append]
  · rcases List.mem_append.mp hc with hc | hc
    · by_cases hid : c.id = candidate.id
      · rw [hid]
        exact hpassed
      · rw [hothers _ hid]
        exact (hbefore c hc).imp_left (hadmitting _)
    · rw [List.mem_singleton.mp hc]
      exact hpassed

theorem before (h : Selecting e₀ available calls running selected bindings (call :: rest) e)
    (hrep : Represents e₀.current available) (hfollowing : Following available (call :: rest) e)
    (hfind : available.find? (fun c => c.shown = call) = some candidate)
    (hselected : call.id ∉ selected) {record : OperationRecord}
    (hrecord : e₀.current.active.operations[candidate.id]? = some record) {id : OperationId}
    {other : OperationRecord} (hother : QueuedCall e.current id other)
    (hlt : other.callEntry < record.callEntry) : id ∈ e.admitting := by
  obtain ⟨before, after, hsplit, -, hpassed⟩ := h.next hfollowing hfind hselected
  obtain ⟨hother, hqueued, name, howner⟩ := hother
  have hfirst := h.queued id other hother hqueued
  obtain ⟨found, hfound, rfl, -⟩ := hrep.complete id other name hfirst hqueued howner
  have hsorted := hrep.sorted
  rw [hsplit, List.pairwise_append] at hsorted
  rw [hsplit] at hfound
  rcases List.mem_append.mp hfound with hmem | hmem
  · exact (hpassed found hmem).resolve_right fun hsettled => hsettled other hother hqueued
  · rcases List.mem_cons.mp hmem with rfl | hmem
    · rw [hrecord] at hfirst
      cases hfirst
      omega
    · have := (List.pairwise_cons.mp hsorted.2.1).1 found hmem record other hrecord hfirst
      omega

theorem move (h : Selecting e₀ available calls running selected bindings (call :: rest) e)
    (hrep : Represents e₀.current available)
    (hscheduled : cfg.scheduler = defaultScheduling → Scheduled e₀.catalog available calls)
    (hfollowing : cfg.scheduler = defaultScheduling → Following available (call :: rest) e)
    (hfind : available.find? (fun c => c.shown = call) = some candidate)
    (hselected : call.id ∉ selected) {parallel : Bool} {spec : RuntimeToolSpec}
    (hspec : e.catalog.parallel candidate.call.name = spec.parallel)
    (hbatch : ¬ ((running > 0 ∨ bindings ≠ []) ∧ (parallel = false ∨ spec.parallel = false)))
    (hserial : ¬ (running > 0 ∧ serialActive e.catalog e.current = true)) :
    Move cfg cause e (e.reserve candidate.id) := by
  obtain ⟨hcandidate, hshown⟩ := find?_shown hfind
  have htext : candidate.id.text = call.id := by rw [← hshown]; rfl
  obtain ⟨hadmitting, record, hrecord, hqueued, howner⟩ :=
    h.candidates candidate hcandidate (htext ▸ hselected)
  have hroom := h.room
  have hidle := h.idle
  simp only [List.length_cons] at hroom
  refine .reserve hrecord howner hqueued h.looping hadmitting ?_ ?_ ?_ (fun hdefault => ?_)
    h.unbatched
  · rw [h.reserved, List.length_reverse, List.length_map]
    omega
  · rcases Nat.eq_zero_or_pos running with hzero | hpos
    · exact serialActive_of_idle (by omega)
    · simpa [hpos] using hserial
  · intro hparallel
    rw [hspec] at hparallel
    simp only [hparallel, or_true, and_true, not_or, Nat.not_lt, gt_iff_lt, ne_eq,
      not_not] at hbatch
    exact ⟨by omega, by simp [h.reserved, hbatch.2]⟩
  · obtain ⟨hforemost, hcalls, -⟩ := hscheduled hdefault
    refine ⟨fun id other name hother hother' hname hlt => ?_,
      fun id hid other name hother hname => ?_, fun id other hother hlt => ?_⟩
    · rw [h.catalog]
      exact (hforemost call (h.among call List.mem_cons_self) candidate hfind).earlier hrep
        (h.queued _ _ hrecord hqueued) (h.queued _ _ hother hother') hother' hname hlt
    · rw [h.reserved, List.mem_reverse] at hid
      obtain ⟨b, hb, rfl⟩ := List.mem_map.mp hid
      obtain ⟨⟨chosen, hchosen, hname'⟩, record', hrecord', howner'⟩ := h.chosen b hb
      rw [hrecord'] at hother
      cases hother
      rw [howner'] at hname
      cases hname
      rcases hcalls with hone | hall
      · have hfew := h.few
        have hlength : bindings.length ≠ 0 := by
          intro hzero
          rw [List.length_eq_zero_iff] at hzero
          rw [hzero] at hb
          cases hb
        simp only [List.length_cons] at hfew
        omega
      · rw [h.catalog, ← hname']
        exact hall chosen hchosen
    · exact h.before hrep (hfollowing hdefault) hfind hselected (h.queued _ _ hrecord hqueued)
        hother hlt

end Selecting

private theorem steps_selectCalls_bind (hfault : Failing cfg cause fault) {e₀ : Engine}
    {available : List Candidate} {calls : List RuntimeToolCall} {parallel : Bool} {running : Nat}
    {f : List Binding → Handler Unit} (hrep : Represents e₀.current available)
    (hscheduled : cfg.scheduler = defaultScheduling → Scheduled e₀.catalog available calls)
    (hf : ∀ (e : Engine) (bindings : List Binding), e.Looping →
      e.admitting = (bindings.map Binding.id).reverse → e.batches = [] →
      Steps cfg cause fault e (f bindings) e.world) (rest : List RuntimeToolCall) :
    ∀ (e : Engine) (w : World) (selected : List String) (bindings : List Binding),
      e.world.Counted w → Selecting e₀ available calls running selected bindings rest e →
      (cfg.scheduler = defaultScheduling → Following available rest e) →
      Steps cfg cause fault e
        (selectCalls cfg available parallel running selected bindings rest >>= f) w := by
  have hstop : ∀ (e : Engine) (w : World) (bindings : List Binding) {calls rest selected},
      e.world.Counted w → Selecting e₀ available calls running selected bindings rest e →
      Steps cfg cause fault e (f bindings) w := fun e w bindings _ _ _ hw h =>
    Chains.after (moves_count hw)
      (hf (e.inWorld w) bindings h.looping h.reserved h.unbatched)
  induction rest with
  | nil => exact fun e w selected bindings hw h _ => hstop e w bindings hw h
  | cons call rest ih =>
    intro e w selected bindings hw h hfollowing
    rw [selectCalls]
    cases hfind : available.find? fun c => c.shown = call with
    | none => exact steps_bind (steps_fail hfault hw) fun _ _ hr => by cases hr
    | some candidate =>
      obtain ⟨hcandidate, hshown⟩ := find?_shown hfind
      simp only [bind_assoc, bindCall]
      refine steps_require_bind hfault hw fun hselected => ?_
      refine steps_read_bind ?_
      refine steps_ask_bind hw fun w₁ n hw₁ hn₁ => ?_
      cases hbound : (e.inWorld w).catalog.bind n candidate.call with
      | error error =>
        simp only [bind_assoc]
        have htext : candidate.id.text = call.id := by rw [← hshown]; rfl
        obtain ⟨-, record, hrecord, hqueued, howner⟩ :=
          h.candidates candidate hcandidate (htext ▸ hselected)
        refine steps_bind (steps_finish hfault hw₁ _ _) fun _ e' hrun hmoves => ?_
        have hsettles : Settles candidate.id e e' := by
          have hrun' := run_finishAt_host_ok (e := e.inWorld w₁) hrecord (by rw [hqueued]; rfl)
            (by rw [howner]; rfl) hrun
          exact ⟨hrun'.others, hrun'.settled, hrun'.options, hrun'.catalog, hrun'.admitting,
            hrun'.batches⟩
        refine ih e' e'.world _ _ (.refl _)
          (h.skip hcandidate hshown hselected hsettles (hmoves.looping h.looping))
          fun hdefault => ?_
        refine h.following (hfollowing hdefault) hfind hselected ?_ hsettles.others (.inr ?_)
        · intro id hid
          rw [hsettles.admitting]
          exact hid
        · intro op hop hqueued'
          have hterminal := hsettles.settled op hop
          rw [hqueued'] at hterminal
          cases hterminal
      | ok spec =>
        have hspec : e.catalog.parallel candidate.call.name = spec.parallel :=
          Catalog.parallel_of_bind hbound
        simp only [bind_assoc]
        refine steps_read_bind ?_
        by_cases hbatch : (running > 0 ∨ bindings ≠ []) ∧ (parallel = false ∨ spec.parallel = false)
        · rw [if_pos hbatch, pure_bind]
          exact hstop e w₁ bindings hw₁ h
        rw [if_neg hbatch]
        by_cases hserial : running > 0 ∧
            serialActive (e.inWorld w₁).catalog (e.inWorld w₁).current = true
        · rw [if_pos hserial, pure_bind]
          exact hstop e w₁ bindings hw₁ h
        rw [if_neg hserial, bind_assoc]
        refine steps_modify_bind (.tail (moves_count hw₁)
          (h.inWorld.move hrep hscheduled hfollowing hfind hselected hspec hbatch hserial)) ?_
        refine ih _ _ _ _ (.refl _) (h.inWorld.reserve hcandidate hshown hselected)
          fun hdefault => ?_
        exact h.following (hfollowing hdefault) hfind hselected
          (fun id hid => List.mem_cons_of_mem _ hid) (fun _ _ => rfl) (.inl List.mem_cons_self)

/-- The candidate shows the call its record was admitted for. -/
def Candidate.Shows (c : Checkpoint) (record : OperationRecord) (candidate : Candidate) : Prop :=
  candidate.id = record.id ∧ callOf record c = .ok candidate.call

theorem candidates_ok {c : Checkpoint} {records : List OperationRecord} :
    ∀ {available : List Candidate}, candidates c records = .ok available →
      List.Forall₂ (Candidate.Shows c) records available := by
  induction records with
  | nil =>
    intro available h
    cases h
    exact .nil
  | cons record records ih =>
    intro available h
    obtain ⟨call, hcall, h⟩ := Result.bind_ok h
    obtain ⟨others, hothers, h⟩ := Result.bind_ok h
    cases h
    exact .cons ⟨rfl, hcall⟩ (ih hothers)

private theorem forall₂_right {β γ : Type} {r : β → γ → Prop} {xs : List β} {ys : List γ}
    (h : List.Forall₂ r xs ys) : ∀ y ∈ ys, ∃ x ∈ xs, r x y := by
  induction h with
  | nil => simp
  | cons hxy _ ih =>
    refine List.forall_mem_cons.mpr ⟨⟨_, List.mem_cons_self, hxy⟩, fun y hy => ?_⟩
    obtain ⟨x, hx, hr⟩ := ih y hy
    exact ⟨x, List.mem_cons_of_mem _ hx, hr⟩

private theorem forall₂_left {β γ : Type} {r : β → γ → Prop} {xs : List β} {ys : List γ}
    (h : List.Forall₂ r xs ys) : ∀ x ∈ xs, ∃ y ∈ ys, r x y :=
  forall₂_right h.flip

private theorem pairwise_forall₂ {β γ : Type} {r : β → γ → Prop} {p : β → β → Prop}
    {q : γ → γ → Prop} (hpq : ∀ x x' y y', r x y → r x' y' → p x x' → q y y') {xs : List β}
    {ys : List γ} (h : List.Forall₂ r xs ys) (hp : xs.Pairwise p) : ys.Pairwise q := by
  induction h with
  | nil => exact .nil
  | cons hxy hrest ih =>
    obtain ⟨hhead, htail⟩ := List.pairwise_cons.mp hp
    refine List.pairwise_cons.mpr ⟨fun y hy => ?_, ih htail⟩
    obtain ⟨x, hx, hr⟩ := forall₂_right hrest y hy
    exact hpq _ _ _ _ hxy hr (hhead x hx)

instance : Std.Total fun a b : OperationRecord => emitted a b = true where
  total a b := by
    simp only [emitted, Bool.or_eq_true, Bool.and_eq_true, decide_eq_true_eq]
    rcases Nat.lt_trichotomy a.callEntry b.callEntry with h | h | h
    · exact .inl (.inl h)
    · by_cases hle : (compare a.id b.id).isLE = true
      · exact .inl (.inr ⟨h, hle⟩)
      · exact .inr (.inr ⟨h.symm, Ordering.isLE_of_eq_lt (Std.OrientedCmp.lt_of_not_isLE hle)⟩)
    · exact .inr (.inl h)

instance : IsTrans OperationRecord fun a b => emitted a b = true where
  trans a b c hab hbc := by
    simp only [emitted, Bool.or_eq_true, Bool.and_eq_true, decide_eq_true_eq] at hab hbc ⊢
    rcases hab with hab | ⟨hab, hab'⟩ <;> rcases hbc with hbc | ⟨hbc, hbc'⟩
    · exact .inl (by omega)
    · exact .inl (by omega)
    · exact .inl (by omega)
    · exact .inr ⟨by omega, Std.TransCmp.isLE_trans hab' hbc'⟩

theorem mem_queuedCalls {c : Checkpoint} (hvalid : c.Valid) {op : OperationRecord} :
    op ∈ queuedCalls c ↔ c.active.operations[op.id]? = some op ∧ op.state = .queued ∧
      ∃ name, op.owner = .runtimeTool name := by
  unfold queuedCalls
  rw [List.mem_insertionSort, List.mem_filter, List.mem_map]
  constructor
  · rintro ⟨⟨⟨id, record⟩, hmem, rfl⟩, hcond⟩
    have hrecord := Std.ExtTreeMap.mem_toList_iff_getElem?_eq_some.mp hmem
    rw [(hvalid.operations id record hrecord).key]
    simp only [Bool.and_eq_true, decide_eq_true_eq] at hcond
    exact ⟨hrecord, hcond.1, OperationOwner.isRuntimeTool_iff.mp hcond.2⟩
  · rintro ⟨hrecord, hqueued, howner⟩
    refine ⟨⟨(op.id, op), Std.ExtTreeMap.mem_toList_iff_getElem?_eq_some.mpr hrecord, rfl⟩, ?_⟩
    simp [hqueued, OperationOwner.isRuntimeTool_iff.mpr howner]

private theorem represents_candidates {c : Checkpoint} {available : List Candidate}
    (hvalid : c.Valid)
    (h : candidates c (queuedCalls c) = .ok available) : Represents c available := by
  have hshows := candidates_ok h
  refine ⟨fun candidate hcandidate => ?_, fun id op name hop hqueued howner => ?_, ?_⟩
  · obtain ⟨r, hr, hid, hcall⟩ := forall₂_right hshows candidate hcandidate
    obtain ⟨hrecord, hqueued, name, howner⟩ := (mem_queuedCalls hvalid).mp hr
    exact ⟨r, name, hid ▸ hrecord, hqueued, howner, callOf_name hvalid hrecord howner hcall⟩
  · have hkey := (hvalid.operations id op hop).key
    subst hkey
    obtain ⟨candidate, hmem, hid, hcall⟩ := forall₂_left hshows op
      ((mem_queuedCalls hvalid).mpr ⟨hop, hqueued, name, howner⟩)
    exact ⟨candidate, hmem, hid, callOf_name hvalid hop howner hcall⟩
  · have hsorted : (queuedCalls c).Pairwise fun a b =>
        (c.active.operations[a.id]? = some a ∧ c.active.operations[b.id]? = some b) ∧
          a.callEntry ≤ b.callEntry := by
      have := List.pairwise_insertionSort (fun a b => emitted a b = true)
        ((c.active.operations.toList.map Prod.snd).filter fun op =>
          op.state = .queued && op.owner.isRuntimeTool)
      refine this.imp_of_mem fun {a b} ha hb hab => ?_
      exact ⟨⟨((mem_queuedCalls hvalid).mp ha).1, ((mem_queuedCalls hvalid).mp hb).1⟩,
        emitted_le hab⟩
    refine pairwise_forall₂ (fun a b x y hax hby hab p q hp hq => ?_) hshows hsorted
    rw [hax.1, hab.1.1] at hp
    rw [hby.1, hab.1.2] at hq
    cases hp
    cases hq
    exact hab.2

private theorem steps_admitCalls (hfault : Failing cfg cause fault) (hw : e.world.Counted w)
    (hvalid : e.current.Valid) (hlooping : e.Looping) (hadmitting : e.admitting = [])
    (hnone : e.batches = [])
    (hroom : activeCount e.current < e.current.options.limits.maxOperationConcurrency) :
    Steps cfg cause fault e (admitCalls cfg (activeCount e.current)) w := by
  refine steps_read_bind ?_
  refine steps_lift_bind hfault hw fun available hcandidates => ?_
  refine steps_ite (fun _ => steps_pure hw) fun _ => ?_
  refine steps_lift_bind hfault hw fun admission hadmission => ?_
  have hrep : Represents e.current available := represents_candidates hvalid hcandidates
  have htake := List.length_take_le
    (e.current.options.limits.maxOperationConcurrency - activeCount e.current) admission.calls
  have hscheduled : cfg.scheduler = defaultScheduling →
      Scheduled e.catalog available admission.calls := by
    intro hdefault
    rw [hdefault] at hadmission
    exact scheduled_default hadmission
  refine steps_selectCalls_bind hfault hrep hscheduled
    (fun e' bindings hlooping' hreserved hunbatched => ?_) _ e w _ _ hw ?_ ?_
  · exact steps_when (.refl _) fun hsome =>
      steps_modify (.single (.approval hlooping' hreserved hsome hunbatched))
  · refine
      { looping := hlooping
        catalog := rfl
        reserved := by simpa using hadmitting
        idle := le_rfl
        room := ?_
        among := fun call hcall => List.mem_of_mem_take hcall
        few := by simp
        candidates := fun c hc _ => ?_
        chosen := by simp
        queued := fun _ _ hop _ => hop
        unbatched := hnone }
    · change activeCount e.current + 0 + (admission.calls.take
        (e.current.options.limits.maxOperationConcurrency - activeCount e.current)).length ≤ _
      omega
    · obtain ⟨record, name, hrecord, hqueued, howner, hname⟩ := hrep.record c hc
      exact ⟨by simp [hadmitting], record, hrecord, hqueued, hname ▸ howner⟩
  · intro hdefault
    exact ⟨[], available, rfl, (List.take_prefix _ _).trans (hscheduled hdefault).leading,
      fun c hc => absurd hc List.not_mem_nil⟩

private theorem steps_delegate (hfault : Failing cfg cause fault) (hw : e.world.Counted w)
    {record : OperationRecord}
    (hrecord : e.current.active.operations[record.id]? = some record)
    (howner : record.owner = .delegation) (hqueued : record.state = .queued)
    (hlooping : e.Looping) (hadmitting : e.admitting = [])
    (hroom : activeCount e.current < e.current.options.limits.maxOperationConcurrency) :
    Steps cfg cause fault e (delegate cfg record) w := by
  refine steps_ite (fun _ => steps_finish hfault hw _ _) fun _ => ?_
  refine steps_read_bind ?_
  split
  · exact steps_fail hfault hw
  · rename_i request _
    unfold localOperationUpdate
    rw [bind_assoc]
    refine steps_read_bind ?_
    have hsome : (e.inWorld w).current.active.operations[record.id]? = some record := hrecord
    simp only [hsome, bind_assoc]
    refine steps_require_bind hfault hw fun _ => ?_
    have hmove : Accepts cfg w e.current
        (putOperation record.id { record with state := .running, wait := none } e.current)
        (.operation record.id .running) .unchanged →
        Move cfg cause e ((e.saved cfg w
          (putOperation record.id { record with state := .running, wait := none } e.current)
          (.operation record.id .running)).launch record.id (.delegate record.id request false)) :=
      fun haccepts => .delegate hw hrecord howner hqueued hlooping hadmitting hroom haccepts
    refine steps_commit_bind hfault hw (fun haccepts => ⟨_, hmove haccepts, rfl⟩) fun haccepts => ?_
    exact chains_modify (.single (hmove haccepts))

/-- What the loop over the queued delegations keeps. -/
structure Delegating (rest : List OperationRecord) (e : Engine) : Prop where
  looping : e.Looping
  admitting : e.admitting = []
  room : activeCount e.current + rest.length ≤ e.current.options.limits.maxOperationConcurrency
  distinct : (rest.map OperationRecord.id).Nodup
  records : ∀ r ∈ rest, e.current.active.operations[r.id]? = some r ∧ r.owner = .delegation ∧
    r.state = .queued

private theorem run_delegate_ok {record : OperationRecord} {e' : Engine} {u : Unit}
    (hrecord : e.current.active.operations[record.id]? = some record)
    (howner : record.owner = .delegation) (hqueued : record.state = .queued)
    (h : Program.run (delegate cfg record) e = (.ok u, e')) :
    (∀ other, other ≠ record.id →
      e'.current.active.operations[other]? = e.current.active.operations[other]?) ∧
    activeCount e'.current ≤ activeCount e.current + 1 ∧
    e'.current.options = e.current.options ∧ e'.admitting = e.admitting := by
  unfold delegate at h
  split at h
  · have hsettles := run_finishAt_host_ok hrecord (by rw [hqueued]; rfl) (by rw [howner]; rfl) h
    exact ⟨hsettles.others, hsettles.activeCount_le.trans (Nat.le_succ _), hsettles.options,
      hsettles.admitting⟩
  · obtain ⟨_, _, hread, h⟩ := run_bind_ok h
    cases hread
    split at h
    · cases h
    · obtain ⟨_, e₁, hupdate, h⟩ := run_bind_ok h
      obtain ⟨op, hop, -, rfl⟩ := run_localOperationUpdate_ok hupdate
      cases h
      refine ⟨fun other hother => ?_, ?_, rfl, rfl⟩
      · change (e.current.active.operations.insert record.id _)[other]? = _
        rw [Std.ExtTreeMap.getElem?_insert]
        have hne : compare record.id other ≠ .eq := fun h =>
          hother (Std.LawfulEqCmp.eq_of_compare h).symm
        simp [hne]
      · exact countP_insert_le _ _ _ _

private theorem steps_delegations (hfault : Failing cfg cause fault)
    {records : List OperationRecord}
    (h : Delegating records e) :
    Steps cfg cause fault e (Program.forEach (delegate cfg) records) e.world := by
  refine steps_forEach Delegating (fun r rest e h => ?_) h
  obtain ⟨hrecord, howner, hqueued⟩ := h.records r List.mem_cons_self
  have hroom := h.room
  simp only [List.length_cons] at hroom
  have hsteps := steps_delegate hfault (.refl e.world) hrecord howner hqueued h.looping
    h.admitting (by omega)
  refine ⟨hsteps, fun u e' hrun => ?_⟩
  obtain ⟨hothers, hcount, hoptions, hadmitting⟩ := run_delegate_ok hrecord howner hqueued hrun
  obtain ⟨hfresh, hdistinct⟩ := List.nodup_cons.mp h.distinct
  refine ⟨Moves.looping (hsteps.of_ok hrun) h.looping, hadmitting.trans h.admitting, ?_,
    hdistinct, fun other hother => ?_⟩
  · rw [hoptions]
    omega
  · have hne : other.id ≠ r.id := fun heq => hfresh (heq ▸ List.mem_map_of_mem hother)
    rw [hothers _ hne]
    exact h.records other (List.mem_cons_of_mem _ hother)

private theorem queuedDelegations_spec {c : Checkpoint} (hvalid : c.Valid) :
    ((queuedDelegations c).map OperationRecord.id).Nodup ∧
      ∀ r ∈ queuedDelegations c, c.active.operations[r.id]? = some r ∧ r.owner = .delegation ∧
        r.state = .queued := by
  have hkeys : ∀ p ∈ c.active.operations.toList, p.2.id = p.1 := fun p hp =>
    (hvalid.operations p.1 p.2 (Std.ExtTreeMap.mem_toList_iff_getElem?_eq_some.mp hp)).key
  constructor
  · have hids : (c.active.operations.toList.map Prod.snd).map OperationRecord.id =
        c.active.operations.keys := by
      rw [← Std.ExtTreeMap.map_fst_toList_eq_keys, List.map_map]
      exact List.map_congr_left hkeys
    refine (List.filter_sublist.map OperationRecord.id).nodup ?_
    rw [hids]
    exact Std.ExtTreeMap.nodup_keys
  · intro r hr
    obtain ⟨hmem, hcond⟩ := List.mem_filter.mp hr
    obtain ⟨⟨id, record⟩, hp, rfl⟩ := List.mem_map.mp hmem
    have hkey := hkeys _ hp
    simp only at hkey
    simp only [Bool.and_eq_true, decide_eq_true_eq] at hcond
    rw [hkey]
    exact ⟨Std.ExtTreeMap.mem_toList_iff_getElem?_eq_some.mp hp, hcond⟩

theorem steps_admitQueued (hfault : Failing cfg cause fault) (hvalid : e.current.Valid)
    (hlooping : e.Looping) (hbatches : e.admitting = [] → e.batches = []) :
    Steps cfg cause fault e (admitQueued cfg) e.world := by
  refine steps_read_bind ?_
  refine steps_ite (fun _ => steps_pure (.refl _)) fun hadmitting => ?_
  have hadmitting : e.admitting = [] := not_not.mp hadmitting
  refine steps_ite (fun _ => steps_pure (.refl _)) fun hroom => ?_
  simp only [not_or, ge_iff_le, Nat.not_le] at hroom
  have hroom : activeCount e.current < e.current.options.limits.maxOperationConcurrency := hroom.2
  refine steps_ite (fun _ => ?_) fun _ => ?_
  · obtain ⟨hdistinct, hrecords⟩ := queuedDelegations_spec hvalid
    have hsub := List.take_sublist
      (e.current.options.limits.maxOperationConcurrency - activeCount e.current)
      (queuedDelegations e.current)
    refine steps_delegations hfault ⟨hlooping, hadmitting, ?_,
      (hsub.map OperationRecord.id).nodup hdistinct, fun r hr => hrecords r (hsub.subset hr)⟩
    have := List.length_take_le
      (e.current.options.limits.maxOperationConcurrency - activeCount e.current)
      (queuedDelegations e.current)
    change activeCount e.current + ((queuedDelegations e.current).take
      (e.current.options.limits.maxOperationConcurrency - activeCount e.current)).length ≤ _
    omega
  · exact steps_admitCalls hfault (.refl _) hvalid hlooping hadmitting (hbatches hadmitting) hroom

end Zhir.Kernel
