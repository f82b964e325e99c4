import Zhir.Core.Chain
import Zhir.Kernel.Capacity

/-!
Records of the operation table: under which key a provider's operation stands, what session
events and commits keep of that, and which reports of a provider touch only its own work.
-/

set_option autoImplicit false
set_option relaxedAutoImplicit false

namespace Zhir.Kernel

open Zhir.Core
open Std (ExtTreeMap)

variable {cfg : Config} {e : Engine} {base c c' : Checkpoint} {n m : Nat}
  {events : List SessionEvent}

/-- A provider's operation is recorded under the identity of its call. -/
def Keyed (c : Checkpoint) : Prop :=
  ∀ (id : OperationId) (op : OperationRecord), c.active.operations[id]? = some op →
    op.owner.host = false → id = providerOperationId op.origin

/-- Every record after a step has the identity of the record it replaces, or is new under the
identity of its call. -/
def Tracks (c c' : Checkpoint) : Prop :=
  ∀ (id : OperationId) (op' : OperationRecord), c'.active.operations[id]? = some op' →
    (∃ op, c.active.operations[id]? = some op ∧ op'.origin = op.origin ∧ op'.owner = op.owner) ∨
      (op'.owner.host = false → id = providerOperationId op'.origin)

theorem Tracks.keyed (h : Tracks c c') (hc : Keyed c) : Keyed c' := by
  intro id op' hop' hhost
  rcases h id op' hop' with ⟨op, hop, horigin, howner⟩ | hnew
  · rw [horigin]
    rw [howner] at hhost
    exact hc id op hop hhost
  · exact hnew hhost

private theorem tracks_same (h : c'.active.operations = c.active.operations) : Tracks c c' := by
  intro id op' hop'
  rw [h] at hop'
  exact .inl ⟨op', hop', rfl, rfl⟩

private theorem tracks_insert {id : OperationId} {op op' : OperationRecord}
    (hop : c.active.operations[id]? = some op)
    (h : c'.active.operations = c.active.operations.insert id op')
    (horigin : op'.origin = op.origin) (howner : op'.owner = op.owner) : Tracks c c' := by
  intro other op'' hop''
  rw [h, ExtTreeMap.getElem?_insert] at hop''
  split at hop''
  · rename_i heq
    cases hop''
    obtain rfl := Std.LawfulEqCmp.eq_of_compare heq
    exact .inl ⟨op, hop, horigin, howner⟩
  · exact .inl ⟨op'', hop'', rfl, rfl⟩

theorem Change.tracks {cause : Cause} {w : World} {next : Checkpoint} {fact : Fact}
    {delta : HistoryDelta} (h : Change cfg cause e w next fact delta) (hvalid : e.current.Valid) :
    Tracks e.current next := by
  cases h with
  | @prepare intent =>
    refine tracks_same ?_
    cases intent <;> rfl
  | finish hrecord _ _ _ hstage =>
    obtain ⟨history, -, rfl⟩ := stageFinish_ok hstage
    exact tracks_insert hrecord rfl rfl rfl
  | finishProvider hrecord _ _ _ _ hstage =>
    obtain ⟨history, -, rfl⟩ := stageFinishProvider_ok hstage
    have hkey := (hvalid.operations _ _ hrecord).key
    rw [← hkey] at hrecord
    exact tracks_insert hrecord rfl rfl rfl
  | @context id record event content n hrecord _ _ _ => exact tracks_insert hrecord rfl rfl rfl
  | @update id record event hrecord _ _ _ =>
    refine tracks_insert hrecord rfl ?_ ?_ <;>
      · unfold applyUpdate
        split <;> rfl
  | lose hrecord _ _ => exact tracks_insert hrecord rfl rfl rfl
  | replied hrecord _ _ => exact tracks_insert hrecord rfl rfl rfl
  | install hrecord _ => exact tracks_insert hrecord rfl rfl rfl
  | attach _ _ hrecord _ => exact tracks_insert hrecord rfl rfl rfl
  | cancelling _ hrecord _ _ => exact tracks_insert hrecord rfl rfl rfl
  | insert _ _ _ _ hstage =>
    obtain ⟨-, rfl⟩ := stageInsert_ok hstage
    exact tracks_same rfl
  | rewrite _ _ _ _ _ _ hstage =>
    obtain ⟨history, -, runStart, rfl⟩ := stageRewrite_ok hstage
    exact tracks_same rfl
  | _ => exact tracks_same rfl

/-- A record fits its key and its state, and its result is part of the history. -/
structure Tabled (c : Checkpoint) : Prop where
  keyed : Keyed c
  terminal : ∀ (id : OperationId) (op : OperationRecord), c.active.operations[id]? = some op →
    op.state.terminal = op.resultEntry.isSome
  result : ∀ (id : OperationId) (op : OperationRecord) (i : Nat),
    c.active.operations[id]? = some op → op.resultEntry = some i → i < c.history.len

private theorem Keyed.tabled (h : Keyed c) (hvalid : c.Valid) : Tabled c where
  keyed := h
  terminal id op hop := (hvalid.operations id op hop).terminal
  result id op i hop hi := (hvalid.operations id op hop).bounded i hi

theorem Tabled.shrink (hc : Tabled c)
    (hsub : ∀ (id : OperationId) (op : OperationRecord), c'.active.operations[id]? = some op →
      c.active.operations[id]? = some op)
    (hlen : c.history.len ≤ c'.history.len) : Tabled c' where
  keyed id op hop := hc.keyed id op (hsub id op hop)
  terminal id op hop := hc.terminal id op (hsub id op hop)
  result id op i hop hi := (hc.result id op i (hsub id op hop) hi).trans_le hlen

theorem Tabled.insert (hc : Tabled c) {id : OperationId} {op : OperationRecord}
    (h : c'.active.operations = c.active.operations.insert id op)
    (hkey : op.owner.host = false → id = providerOperationId op.origin)
    (hterminal : op.state.terminal = op.resultEntry.isSome)
    (hresult : ∀ i, op.resultEntry = some i → i = c.history.len)
    (hlen : c'.history.len = c.history.len + 1) : Tabled c' := by
  have hcases : ∀ (other : OperationId) (op' : OperationRecord),
      c'.active.operations[other]? = some op' →
        other = id ∧ op' = op ∨ c.active.operations[other]? = some op' := by
    intro other op' hop'
    rw [h, ExtTreeMap.getElem?_insert] at hop'
    split at hop'
    · rename_i heq
      cases hop'
      exact .inl ⟨(Std.LawfulEqCmp.eq_of_compare heq).symm, rfl⟩
    · exact .inr hop'
  refine ⟨?_, ?_, ?_⟩
  · intro other op' hop' hhost
    rcases hcases other op' hop' with ⟨rfl, rfl⟩ | hold
    · exact hkey hhost
    · exact hc.keyed other op' hold hhost
  · intro other op' hop'
    rcases hcases other op' hop' with ⟨rfl, rfl⟩ | hold
    · exact hterminal
    · exact hc.terminal other op' hold
  · intro other op' i hop' hi
    rcases hcases other op' hop' with ⟨rfl, rfl⟩ | hold
    · have := hresult i hi
      omega
    · have := hc.result other op' i hold hi
      omega

private theorem recordOutput_record {capabilities : CapabilitySet} {output : Output}
    {origin : CallRef}
    {operationId : String} (hc : Keyed c)
    (h : recordOutput capabilities output origin operationId c = .ok c') :
    c' = c ∨ ∃ id op, c' = putOperation id op c ∧
      (op.owner.host = false → id = providerOperationId op.origin) ∧
      op.state.terminal = op.resultEntry.isSome ∧
      ∀ i, op.resultEntry = some i → i = c.history.len := by
  cases output with
  | delegation request =>
    simp only [recordOutput] at h
    split at h
    · cases h
    · split at h
      · cases h
      · cases h
        exact .inr ⟨_, _, rfl, fun hhost => (by cases hhost), rfl, fun i hi => by cases hi⟩
  | runtimeToolCall call =>
    simp only [recordOutput] at h
    split at h
    · cases h
    · cases h
      exact .inr ⟨_, _, rfl, fun hhost => (by cases hhost), rfl, fun i hi => by cases hi⟩
  | providerToolCall call =>
    cases h
    refine .inr ⟨_, _, rfl, ?_, ?_, ?_⟩
    · rcases hold : c.active.operations[providerOperationId origin]? with _ | op
      · exact fun _ => rfl
      · exact hc _ op hold
    · cases hstate : (providerState call.status).terminal <;> simp
    · intro i hi
      cases hstate : (providerState call.status).terminal with
      | false => simp [hstate] at hi
      | true =>
        simp only [hstate, if_true, Option.some.injEq] at hi
        exact hi.symm
  | content content =>
    cases h
    exact .inl rfl

private theorem tabled_stageEvent {body : SessionEventBody} {operationId commandId : String}
    (hc : Tabled c) (h : stageEvent cfg e body operationId commandId c = .ok c') :
    Tabled c' := by
  rcases stageEvent_table h with hshrinks | ⟨o, recorded, -, hrecorded⟩
  · exact hc.shrink hshrinks.record hshrinks.len
  · have hlen := hrecorded.len
    have hoperations := hrecorded.operations
    rcases recordOutput_record hc.keyed hrecorded.call with
      rfl | ⟨id, op, rfl, hkey, hterminal, hresult⟩
    · exact hc.shrink (fun id op hop => by rwa [hoperations] at hop) (by omega)
    · exact hc.insert hoperations hkey hterminal hresult hlen

private theorem Staged.tabled (h : Staged cfg e n c events m c') (hc : Tabled c) : Tabled c' := by
  refine h.rule ?_ hc
  intro event operationId commandId c₀ c₁ hc₀ hstage
  have hsequenced : Tabled (withSequence event.sequence c₀) :=
    hc₀.shrink (fun _ _ hop => hop) le_rfl
  exact tabled_stageEvent hsequenced hstage

private theorem Staged.grown (h : Staged cfg e n base events m c) :
    base.history.len ≤ c.history.len := by
  refine h.rule (I := fun c => base.history.len ≤ c.history.len) ?_ le_rfl
  intro event operationId commandId c₀ c₁ hlen hstage
  rcases stageEvent_table hstage with hshrinks | ⟨o, recorded, -, hrecorded⟩
  · exact hlen.trans hshrinks.len
  · have hpushed := hrecorded.len
    change c₁.history.len = c₀.history.len + 1 at hpushed
    omega

/-- Provider operations are recorded under the identities of their calls, in every durable
checkpoint. -/
private theorem keyed_inductive (cfg : Config) : Inductive cfg (fun _ => True) Keyed where
  start w request expired c h hstart := by
    have hempty : c.active.operations = ∅ := by
      rw [h.checkpoint]
      cases request with
      | start history context options => cases expired <;> rfl
      | recover base ms rs md => exact absurd rfl (hstart base ms rs md)
    intro id op hop
    rw [hempty] at hop
    cases hop
  recover w base messages resolutions metadata expired c h _ hbase := by
    have hsame : c.active.operations = base.active.operations := by
      rw [h.checkpoint]
      cases expired <;> rfl
    exact (tracks_same hsame).keyed hbase
  commit e w next fact delta hsound _ hcurrent _ _ hcommits _ := by
    have hnext : Keyed next := by
      cases hcommits with
      | change h => exact (h.tracks hsound.valid).keyed hcurrent
      | admitted hrecord _ =>
        refine Tracks.keyed ?_ hcurrent
        exact tracks_insert hrecord rfl rfl rfl
      | delegated hrecord _ =>
        refine Tracks.keyed ?_ hcurrent
        exact tracks_insert hrecord rfl rfl rfl
      | bound _ _ => exact hcurrent
      | batch _ hstaged => exact (hstaged.tabled (hcurrent.tabled hsound.valid)).keyed
    exact hnext
  settle w c error _ hc _ := by
    intro id op hop hhost
    change (c.active.operations.map fun _ op => abandonRunning op)[id]? = some op at hop
    rw [ExtTreeMap.getElem?_map] at hop
    obtain ⟨old, hold, rfl⟩ := Option.map_eq_some_iff.mp hop
    have hsame : (abandonRunning old).origin = old.origin ∧
        (abandonRunning old).owner = old.owner := by
      unfold abandonRunning
      split <;> exact ⟨rfl, rfl⟩
    rw [hsame.1]
    rw [hsame.2] at hhost
    exact hc id old hold hhost

/-- A report of a provider touches one record at most. What it adds is the provider's, what
it changes was the provider's and not finished, and every record follows. What the store lets
follow from `base`, the checkpoint before the batch, it still does after the report. -/
structure Isolated (provider : String) (base c c' : Checkpoint) : Prop where
  single : ∃ id, ∀ other : OperationId, other ≠ id →
    c'.active.operations[other]? = c.active.operations[other]?
  added : ∀ (id : OperationId) (op : OperationRecord), c'.active.operations[id]? = some op →
    c.active.operations[id]? ≠ some op → op.owner = .provider provider
  changed : ∀ (id : OperationId) (op : OperationRecord), c.active.operations[id]? = some op →
    c'.active.operations[id]? ≠ some op → op.owner = .provider provider ∧ op.state.terminal = false
  follows : ∀ (id : OperationId) (op : OperationRecord), c.active.operations[id]? = some op →
    Commit.operationFollows c'.active.operations id op = .ok ()
  accepted : ∀ (id : OperationId) (op : OperationRecord), base.active.operations[id]? = some op →
    Commit.operationFollows c.active.operations id op = .ok () →
      Commit.operationFollows c'.active.operations id op = .ok ()

/-- A call and what is on record about it: a report repeats an item, or continues an
unfinished operation of the provider, or finds under its identity nothing but an unfinished
record in the very state it reports, and no finished one that the batch has dropped. -/
def Distinct (o : OutputEvent) (call : ProviderToolCall) (base c : Checkpoint) : Prop :=
  (c.history.byId (o.entry c).id).isSome = true ∨
  (continuedOperation o.output o.callerId c).isSome = true ∨
  (∀ op, c.active.operations[providerOperationId (o.origin c)]? = some op →
    op.state.terminal = false ∧ op.state = providerState call.status) ∧
  (c.active.operations[providerOperationId (o.origin c)]? = none →
    ∀ op, base.active.operations[providerOperationId (o.origin c)]? = some op →
      op.state.terminal = false)

private theorem follows_same {operations : Operations} {id : OperationId} {op : OperationRecord}
    (h : operations[id]? = some op) : Commit.operationFollows operations id op = .ok () := by
  simp only [Commit.operationFollows, h]
  refine firstError_of ?_
  simp only [List.forall_mem_cons]
  refine ⟨by simp, by simp, ?_, by simp⟩
  cases op.lastSequence <;> simp

private theorem isolated_same {provider : String}
    (h : c'.active.operations = c.active.operations) : Isolated provider base c c' where
  single := ⟨.host "", fun other _ => by rw [h]⟩
  added id op hop hnot := by
    rw [h] at hop
    exact absurd hop hnot
  changed id op hop hnot := by
    rw [h] at hnot
    exact absurd hop hnot
  follows id op hop := by
    rw [h]
    exact follows_same hop
  accepted id op _ hfollows := by rwa [h]

/-- The report of a provider call leaves a record that differs from the old one in state and
result, or a new one. -/
private theorem isolated_insert {provider : String} {id : OperationId} {op : OperationRecord}
    (h : c'.active.operations = c.active.operations.insert id op)
    (howner : op.owner = .provider provider)
    (hold : ∀ old, c.active.operations[id]? = some old →
      old.owner = .provider provider ∧ old.state.terminal = false ∧ op.origin = old.origin ∧
        op.callEntry = old.callEntry ∧ op.lastSequence = old.lastSequence)
    (hdropped : c.active.operations[id]? = none → ∀ old, base.active.operations[id]? = some old →
      old.state.terminal = false) :
    Isolated provider base c c' := by
  have hself : c'.active.operations[id]? = some op := by
    rw [h, ExtTreeMap.getElem?_insert_self]
  have hother : ∀ other, other ≠ id →
      c'.active.operations[other]? = c.active.operations[other]? := by
    intro other hne
    rw [h, ExtTreeMap.getElem?_insert]
    split
    · rename_i heq
      exact absurd (Std.LawfulEqCmp.eq_of_compare heq).symm hne
    · rfl
  have hfollows : ∀ (other : OperationId) (old : OperationRecord),
      c.active.operations[other]? = some old →
        Commit.operationFollows c'.active.operations other old = .ok () := by
    intro other old hop
    by_cases hid : other = id
    · subst hid
      obtain ⟨hprovider, hterminal, horigin, hcall, hsequence⟩ := hold old hop
      simp only [Commit.operationFollows, hself]
      refine firstError_of ?_
      simp only [List.forall_mem_cons, hprovider, howner, hterminal, horigin, hcall, hsequence]
      refine ⟨by simp, by simp, ?_, by simp⟩
      cases old.lastSequence <;> simp
    · exact follows_same (by rw [hother other hid, hop])
  refine ⟨⟨id, hother⟩, ?_, ?_, hfollows, ?_⟩
  · intro other op' hop' hnot
    by_cases hid : other = id
    · subst hid
      rw [hself] at hop'
      cases hop'
      exact howner
    · rw [hother other hid] at hop'
      exact absurd hop' hnot
  · intro other old hop hnot
    by_cases hid : other = id
    · subst hid
      obtain ⟨hprovider, hterminal, -⟩ := hold old hop
      exact ⟨hprovider, hterminal⟩
    · rw [hother other hid] at hnot
      exact absurd hop hnot
  · intro other old hop haccepted
    by_cases hid : other = id
    · subst hid
      rcases hmid : c.active.operations[other]? with _ | mid
      · -- only a finished record may be dropped, and none was
        have hterminal := operationFollows_none haccepted hmid
        rw [hdropped hmid old hop] at hterminal
        cases hterminal
      · exact operationFollows_trans haccepted hmid (hfollows other mid hmid) hself
    · unfold Commit.operationFollows at haccepted ⊢
      rwa [hother other hid]

private theorem origin_of_continued {o : OutputEvent} {existing : OperationRecord}
    (h : continuedOperation o.output o.callerId c = some existing) :
    o.origin c = existing.origin := by
  unfold OutputEvent.origin
  rw [h]

private theorem continuedOperation_ok {call : ProviderToolCall} {callerId : String}
    {existing : OperationRecord}
    (h : continuedOperation (.providerToolCall call) callerId c = some existing) :
    ∃ id : OperationId, c.active.operations[id]? = some existing ∧
      existing.state.terminal = false ∧ existing.owner = .provider call.provider := by
  have hmem := List.mem_of_find?_eq_some h
  obtain ⟨⟨id, op⟩, hentry, rfl⟩ := List.mem_map.mp hmem
  have hfound := List.find?_some h
  simp only [Bool.and_eq_true, Bool.not_eq_true', decide_eq_true_eq] at hfound
  exact ⟨id, ExtTreeMap.mem_toList_iff_getElem?_eq_some.mp hentry, hfound.1.1.1, hfound.2⟩

private theorem continued_of_record {o : OutputEvent} {call : ProviderToolCall}
    {op : OperationRecord}
    (hc : Keyed c) (houtput : o.output = .providerToolCall call)
    (hop : c.active.operations[providerOperationId (o.origin c)]? = some op)
    (howner : op.owner = .provider call.provider) (hterminal : op.state.terminal = false) :
    (continuedOperation o.output o.callerId c).isSome = true := by
  by_contra hnone
  rw [Bool.not_eq_true, Option.isSome_eq_false_iff, Option.isNone_iff_eq_none] at hnone
  have horigin : o.origin c =
      ⟨c.active.session.id, o.itemId, o.generationId, o.callerId, call.id⟩ := by
    unfold OutputEvent.origin
    rw [hnone, houtput]
    rfl
  have hkey := hc _ op hop (by rw [howner]; rfl)
  rw [horigin] at hkey
  simp only [providerOperationId, OperationId.provider.injEq] at hkey
  rw [houtput] at hnone
  have hnone := List.find?_eq_none.mp hnone op
    (List.mem_map.mpr ⟨_, ExtTreeMap.mem_toList_iff_getElem?_eq_some.mpr hop, rfl⟩)
  simp [hterminal, howner, hkey] at hnone

/-- What a report writes over the record under its identity. -/
def reported (call : ProviderToolCall) (len : Nat) (op : OperationRecord) : OperationRecord :=
  { op with
    state := providerState call.status
    resultEntry := if (providerState call.status).terminal then some len else none }

private theorem isolated_reported {call : ProviderToolCall} {id : OperationId}
    {new : OperationRecord}
    {len : Nat} (hnew : new.owner = .provider call.provider)
    (h : c'.active.operations = c.active.operations.insert id
      (reported call len (c.active.operations[id]?.getD new)))
    (hold : ∀ op, c.active.operations[id]? = some op →
      op.owner = .provider call.provider ∧ op.state.terminal = false)
    (hdropped : c.active.operations[id]? = none → ∀ old, base.active.operations[id]? = some old →
      old.state.terminal = false) :
    Isolated call.provider base c c' := by
  refine isolated_insert h ?_ ?_ hdropped
  · rcases hop : c.active.operations[id]? with _ | op
    · exact hnew
    · exact (hold op hop).1
  · intro op hop
    obtain ⟨howner, hterminal⟩ := hold op hop
    rw [hop]
    exact ⟨howner, hterminal, rfl, rfl, rfl⟩

private theorem reported_same {call : ProviderToolCall} {len : Nat} {op : OperationRecord}
    (hresult : op.state.terminal = op.resultEntry.isSome) (hterminal : op.state.terminal = false)
    (hstate : op.state = providerState call.status) : reported call len op = op := by
  rw [hterminal] at hresult
  have hnone : op.resultEntry = none := by simpa using hresult.symm
  unfold reported
  rw [← hstate, hterminal]
  cases op
  simp_all

private theorem unfinished_of_reported {call : ProviderToolCall} {op : OperationRecord} {len : Nat}
    (hresult : ∀ i, op.resultEntry = some i → i < len) (h : reported call len op = op) :
    op.state.terminal = false ∧ op.state = providerState call.status := by
  have hstate : providerState call.status = op.state := congrArg OperationRecord.state h
  have hentry := congrArg OperationRecord.resultEntry h
  simp only [reported, hstate] at hentry
  refine ⟨?_, hstate.symm⟩
  by_contra hterminal
  rw [Bool.not_eq_false] at hterminal
  rw [hterminal, if_pos rfl] at hentry
  exact absurd (hresult len hentry.symm) (Nat.lt_irrefl len)

/-- A finished record that was dropped never follows to a new one: the new one's call stands
behind every entry there was. -/
private theorem unfinished_of_accepted {key : OperationId} {new op : OperationRecord}
    (hbase : base.Valid) (hlen : base.history.len ≤ c.history.len)
    (hop : base.active.operations[key]? = some op) (hnone : c.active.operations[key]? = none)
    (hnew : c'.active.operations[key]? = some new) (hcall : new.callEntry = c.history.len)
    (haccepted : Commit.operationFollows c.active.operations key op = .ok () →
      Commit.operationFollows c'.active.operations key op = .ok ()) :
    op.state.terminal = false := by
  by_contra hterminal
  rw [Bool.not_eq_false] at hterminal
  have hdropped : Commit.operationFollows c.active.operations key op = .ok () := by
    simp only [Commit.operationFollows, hnone, hterminal]
    rfl
  have hsame := operationFollows_some (haccepted hdropped) hnew
  obtain ⟨entry, hentry, -⟩ := (hbase.operations key op hop).call
  have hbound : op.callEntry < base.history.len := (List.getElem?_eq_some_iff.mp hentry).1
  have hmoved := hsame.callEntry
  omega

/-- Processing a provider call touches the provider's own unfinished work only, exactly when
the call is distinct from what else is on record. -/
theorem provider_isolated_iff {s : System} (hs : Reachable cfg s) {base c₁ c₂ : Checkpoint}
    (hc : base ∈ s.world.durable) (hstaged : Staged cfg e n base events m c₁) {o : OutputEvent}
    {call : ProviderToolCall} (houtput : o.output = .providerToolCall call)
    {operationId commandId : String}
    (h : stageOutput (e.capabilities cfg) o operationId commandId c₁ = .ok c₂) :
    Isolated call.provider base c₁ c₂ ↔ Distinct o call base c₁ := by
  have hvalid := Checkpoint.valid_of_validate
    ((validated_inductive cfg).reachable hs (fun _ _ => trivial) base hc)
  have hkeyed := (keyed_inductive cfg).reachable hs (fun _ _ => trivial) base hc
  have htabled := hstaged.tabled (hkeyed.tabled hvalid)
  obtain ⟨-, -, -, -, ⟨rfl, hseen⟩ | ⟨hnew, recorded, hrecorded, hentry⟩⟩ := stageOutput_ok h
  · refine ⟨fun _ => .inl ?_, fun _ => isolated_same rfl⟩
    rw [hseen]
    rfl
  obtain ⟨hoperations, -⟩ := stageEntry_keeps hentry
  rw [houtput] at hrecorded
  cases hrecorded
  have hreported : c₂.active.operations = c₁.active.operations.insert
      (providerOperationId (o.origin c₁)) (reported call c₁.history.len
        (c₁.active.operations[providerOperationId (o.origin c₁)]?.getD
          (.admitted (providerOperationId (o.origin c₁)) (o.origin c₁) (.provider call.provider)
            (providerState call.status) c₁.history.len))) := hoperations
  constructor
  · intro hisolated
    by_cases hcontinued : (continuedOperation o.output o.callerId c₁).isSome = true
    · exact .inr (.inl hcontinued)
    refine .inr (.inr ⟨fun op hop => ?_, fun hnone op hop => ?_⟩)
    swap
    · rw [hnone, Option.getD_none] at hreported
      have hnew := congrArg (·[providerOperationId (o.origin c₁)]?) hreported
      simp only [ExtTreeMap.getElem?_insert_self] at hnew
      exact unfinished_of_accepted hvalid hstaged.grown hop hnone hnew rfl
        (hisolated.accepted _ op hop)
    rw [hop, Option.getD_some] at hreported
    by_cases hsame : c₂.active.operations[providerOperationId (o.origin c₁)]? = some op
    · rw [hreported, ExtTreeMap.getElem?_insert_self, Option.some.injEq] at hsame
      exact unfinished_of_reported (fun i hi => htabled.result _ op i hop hi) hsame
    · obtain ⟨howner, hterminal⟩ := hisolated.changed _ op hop hsame
      exact absurd (continued_of_record htabled.keyed houtput hop howner hterminal) hcontinued
  · rintro (hseen | hcontinued | ⟨hfree, hdropped⟩)
    · rw [hnew] at hseen
      cases hseen
    · obtain ⟨existing, hexisting⟩ := Option.isSome_iff_exists.mp hcontinued
      have horigin := origin_of_continued hexisting
      rw [houtput] at hexisting
      obtain ⟨id, hop, hterminal, howner⟩ := continuedOperation_ok hexisting
      have hid := htabled.keyed id existing hop (by rw [howner]; rfl)
      rw [hid, ← horigin] at hop
      refine isolated_reported rfl hreported ?_ ?_
      · intro op hop'
        rw [hop] at hop'
        cases hop'
        exact ⟨howner, hterminal⟩
      · intro hnone
        rw [hop] at hnone
        cases hnone
    · rcases hop : c₁.active.operations[providerOperationId (o.origin c₁)]? with _ | op
      · refine isolated_reported rfl hreported ?_ hdropped
        intro op hop'
        rw [hop] at hop'
        cases hop'
      · obtain ⟨hterminal, hstate⟩ := hfree op hop
        have hsame : reported call c₁.history.len op = op :=
          reported_same (htabled.terminal _ op hop) hterminal hstate
        rw [hop, Option.getD_some, hsame] at hreported
        refine isolated_same ?_
        rw [hreported]
        refine ExtTreeMap.ext_getElem? fun other => ?_
        rw [ExtTreeMap.getElem?_insert]
        split
        · rename_i heq
          rw [← Std.LawfulEqCmp.eq_of_compare heq, hop]
        · rfl

def sampleReported (provider : String) (status : ProviderToolStatus) : ProviderToolCall :=
  ⟨"call", provider, "search", status, none, [], .null⟩

def sampleCallReport (itemId provider : String) (status : ProviderToolStatus) : OutputEvent :=
  ⟨some sampleGeneration, itemId, "model", .providerToolCall (sampleReported provider status)⟩

def sampleReportEvent (sequence : Nat) (o : OutputEvent) : List Action :=
  sampleEvent sequence (.output o.generationId o.itemId o.callerId o.output)

def sampleSearching : List Action :=
  sampleOpening (sampleOptions sampleLimits) ++
    sampleReportEvent 3 (sampleCallReport "item" "first" .running)

def sampleStolen : List Action :=
  sampleSearching ++ sampleReportEvent 4 (sampleCallReport "other" "second" .completed)

def sampleSearch : System := sampleRun sampleSearching

def sampleSearchHead : Checkpoint := sampleSearch.head (by decide +kernel)

def sampleSearchEngine : Engine := sampleEngine sampleSearching (by decide +kernel)

def sampleSearchId : OperationId :=
  .provider (sampleName 'i' 0) (some sampleGeneration) "model" "call"

/-- The provider's own report under another item settles its call. -/
theorem provider_isolated_own :
    ∃ c, stageOutput (sampleSearchEngine.capabilities sampleConfig)
      (sampleCallReport "other" "first" .completed) "o" "p" sampleSearchHead = .ok c ∧
        Isolated "first" sampleSearchHead sampleSearchHead c := by
  have hmem : sampleSearchHead ∈ sampleSearch.world.durable := sampleSearch.head_mem _
  obtain ⟨c, hstage⟩ : ∃ c, stageOutput (sampleSearchEngine.capabilities sampleConfig)
      (sampleCallReport "other" "first" .completed) "o" "p" sampleSearchHead = .ok c :=
    ⟨_, Result.eq_ok_get (by decide +kernel)⟩
  have houtput : (sampleCallReport "other" "first" .completed).output =
      .providerToolCall (sampleReported "first" .completed) := rfl
  have hisolated := provider_isolated_iff (e := sampleSearchEngine) ⟨_, rfl⟩ hmem (.nil (le_refl 0))
    houtput hstage
  exact ⟨c, hstage, hisolated.mpr (.inr (.inl (by decide +kernel)))⟩

/-- Another provider's report on the same call id settles it as well, and the next report of
its own provider is refused by the store. -/
theorem provider_settles_other :
    Reachable sampleConfig sampleSearch ∧ sampleSearchHead ∈ sampleSearch.world.durable ∧
    (∃ c, stageOutput (sampleSearchEngine.capabilities sampleConfig)
      (sampleCallReport "other" "second" .completed) "o" "p" sampleSearchHead = .ok c ∧
        ¬ Isolated "second" sampleSearchHead sampleSearchHead c) ∧
    (sampleRun (sampleStolen ++
      sampleReportEvent 5 (sampleCallReport "third" "first" .completed))).world.durable =
    (sampleRun sampleStolen).world.durable := by
  refine ⟨⟨_, rfl⟩, sampleSearch.head_mem _, ?_, by decide +kernel⟩
  obtain ⟨c, hstage, hsettled⟩ : ∃ c, stageOutput (sampleSearchEngine.capabilities sampleConfig)
      (sampleCallReport "other" "second" .completed) "o" "p" sampleSearchHead = .ok c ∧
        decide ((c.active.operations[sampleSearchId]?).map (fun op => (op.owner, op.state)) =
          some (.provider "first", .succeeded)) = true := Result.exists_ok (by decide +kernel)
  refine ⟨c, hstage, fun hisolated => ?_⟩
  obtain ⟨op, hop, hvalue⟩ := Option.map_eq_some_iff.mp (of_decide_eq_true hsettled)
  simp only [Prod.mk.injEq] at hvalue
  have hold : (sampleSearchHead.active.operations[sampleSearchId]?).map OperationRecord.state =
      some .running := by decide +kernel
  have hadded := hisolated.added sampleSearchId op hop fun hsame => by
    rw [hsame, Option.map_some, hvalue.2] at hold
    cases hold
  rw [hvalue.1] at hadded
  exact absurd hadded (by decide)

end Zhir.Kernel
