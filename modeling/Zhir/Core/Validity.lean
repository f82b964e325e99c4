import Zhir.Core.Commit

/-!
What an accepted checkpoint and an accepted commit satisfy, as named facts.
-/

set_option autoImplicit false
set_option relaxedAutoImplicit false

namespace Zhir.Core

namespace Checkpoint

/-- What a recorded operation owes to the history. -/
structure Recorded (c : Checkpoint) (id : OperationId) (op : OperationRecord) : Prop where
  key : op.id = id
  terminal : op.state.terminal = op.resultEntry.isSome
  bounded : ∀ i, op.resultEntry = some i → i < c.history.len
  call : ∃ entry, c.history.get op.callEntry = some entry ∧ entry.origin = some op.origin ∧
    ∀ check ∈ c.ownerViolations op entry, check.1 = false

/-- The facts `validate` establishes. -/
structure Valid (c : Checkpoint) : Prop where
  ordered : c.history.order.error = none
  responseStart : c.active.session.responseStart ≤ c.history.len
  runStart : c.active.session.runStart ≤ c.history.len
  acknowledged :
    c.active.session.acknowledgedContextRevision ≤ c.active.session.contextRevision
  generated : c.active.session.generatedInputPosition ≤ c.active.session.inputPosition
  commandIds : (c.active.commands.map PendingCommand.id).Nodup
  outbox : c.active.commands.length ≤ c.options.limits.maxControlCommands
  inflight : c.active.operations.size ≤ c.options.limits.maxInflightOperations
  commands : ∀ command ∈ c.active.commands, c.validateCommand command = .ok ()
  delegations : ∀ origin ∈ c.history.pendingDelegations, c.hasDelegation origin = true
  calls : ∀ call ∈ c.history.pendingCalls, c.hasCall call.1 call.2.name = true
  operations : ∀ (id : OperationId) (op : OperationRecord), c.active.operations[id]? = some op →
    c.Recorded id op

private theorem recorded_of_validate {c : Checkpoint} {id : OperationId} {op : OperationRecord}
    (h : c.validateOperation id op = .ok ()) : c.Recorded id op := by
  unfold validateOperation at h
  obtain ⟨_, hop, h⟩ := Result.bind_ok h
  rcases hentry : c.history.get op.callEntry with _ | entry
  · rw [hentry] at h
    cases h
  · rw [hentry] at h
    obtain ⟨_, horigin, h⟩ := Result.bind_ok h
    obtain ⟨_, howner, hkey⟩ := Result.bind_ok h
    have horigin := firstError_ok horigin
    have hkey := firstError_ok hkey
    simp only [List.forall_mem_singleton, decide_eq_false_iff_not, not_not] at horigin
    simp only [List.forall_mem_singleton, Bool.or_eq_false_iff, decide_eq_false_iff_not,
      not_not] at hkey
    have hbounded : ∀ i, op.resultEntry = some i → i < c.history.len := by
      intro i hi
      have hresult := hkey.2
      rw [hi, Option.any_some] at hresult
      simpa using hresult
    refine ⟨hkey.1.1.symm, ?_, hbounded, entry, hentry, horigin, firstError_ok howner⟩
    unfold OperationRecord.validate at hop
    split at hop
    · cases hop
    · split at hop
      · cases hop
      · split at hop
        · cases hop
        · rename_i hterminal
          simpa using hterminal

theorem valid_of_validate {c : Checkpoint} (h : c.validate = .ok ()) : c.Valid := by
  unfold validate at h
  obtain ⟨_, -, h⟩ := Result.bind_ok h
  obtain ⟨_, -, h⟩ := Result.bind_ok h
  obtain ⟨_, -, h⟩ := Result.bind_ok h
  obtain ⟨_, -, h⟩ := Result.bind_ok h
  obtain ⟨_, hhistory, h⟩ := Result.bind_ok h
  obtain ⟨_, hsession, h⟩ := Result.bind_ok h
  obtain ⟨_, hcommands, h⟩ := Result.bind_ok h
  obtain ⟨_, -, h⟩ := Result.bind_ok h
  obtain ⟨_, hoperations, -⟩ := Result.bind_ok h
  obtain ⟨_, hpending, hoperations⟩ := Result.bind_ok hoperations
  have hsession := firstError_ok hsession
  have hpending := firstError_ok hpending
  simp only [List.forall_mem_cons, Bool.or_eq_false_iff, decide_eq_false_iff_not, gt_iff_lt,
    Nat.not_lt, Bool.not_eq_false', decide_eq_true_eq] at hsession
  obtain ⟨hstarts, -, hbounds, hids, hcapacity, -⟩ := hsession
  simp only [List.forall_mem_cons, List.any_eq_false, Bool.not_eq_true,
    Bool.not_eq_false'] at hpending
  refine
    { ordered := ?_
      responseStart := hstarts.1
      runStart := hstarts.2
      acknowledged := hbounds.1
      generated := hbounds.2
      commandIds := hids.2
      outbox := hcapacity.1.1
      inflight := hcapacity.1.2
      commands := validateAll_ok hcommands
      delegations := hpending.1
      calls := hpending.2.1
      operations := fun id op hop => recorded_of_validate (validateAll_ok hoperations (id, op)
        (Std.ExtTreeMap.mem_toList_iff_getElem?_eq_some.mpr hop)) }
  unfold History.validate at hhistory
  split at hhistory
  · cases hhistory
  · cases herror : c.history.order.error with
    | none => rfl
    | some violation => simp [herror] at hhistory

def restamp (c : Checkpoint) (id : String) (parentId : Option String) (revision : Nat)
    (fact : Fact) : Checkpoint :=
  { c with id, parentId, revision, fact }

theorem validate_restamp {c : Checkpoint} (h : c.validate = .ok ()) {id : String}
    {parentId : Option String} {revision : Nat} {fact : Fact} (hid : id ≠ "")
    (hrevision : (revision == 0) = parentId.isNone) :
    (c.restamp id parentId revision fact).validate = .ok () := by
  unfold validate at h
  obtain ⟨_, hoptions, h⟩ := Result.bind_ok h
  obtain ⟨_, hidentity, h⟩ := Result.bind_ok h
  have hidentity := firstError_ok hidentity
  simp only [List.forall_mem_cons, Bool.or_eq_false_iff, decide_eq_false_iff_not] at hidentity
  have hstamp : firstViolation [
      (id = "" || c.context.runId = "", "empty checkpoint identity"),
      ((revision == 0) != parentId.isNone, "revision and parent disagree")] = .ok () := by
    simp [firstViolation, firstError, hid, hidentity.1.2, hrevision]
  unfold validate
  change (c.options.validate >>= fun _ => firstViolation [
      (id = "" || c.context.runId = "", "empty checkpoint identity"),
      ((revision == 0) != parentId.isNone, "revision and parent disagree")] >>= fun _ => _) = _
  rw [hoptions, hstamp]
  exact h

theorem validate_completed {c : Checkpoint} {content : List Content} (h : c.validate = .ok ())
    (hcontent : validateAll Content.validate content = .ok ())
    (hcovered : c.supports .responseEvents = true → covered c.active.session = true)
    (hcommands : c.active.commands = []) (hclosure : c.active.session.closure.isSome = true)
    (hfinished : c.unfinished = false) :
    ({ c with state := .completed content } : Checkpoint).validate = .ok () := by
  unfold validate at h
  obtain ⟨_, hoptions, h⟩ := Result.bind_ok h
  obtain ⟨_, hidentity, h⟩ := Result.bind_ok h
  obtain ⟨_, -, h⟩ := Result.bind_ok h
  obtain ⟨_, hbinding, h⟩ := Result.bind_ok h
  obtain ⟨_, hhistory, h⟩ := Result.bind_ok h
  obtain ⟨_, hsession, h⟩ := Result.bind_ok h
  obtain ⟨_, hpending, h⟩ := Result.bind_ok h
  obtain ⟨_, harchive, h⟩ := Result.bind_ok h
  obtain ⟨_, hoperations, -⟩ := Result.bind_ok h
  have hcoverage : firstViolation [
      (c.active.session.binding.any (fun b => b.adapter = ""), "empty model binding adapter"),
      (true && c.supports .responseEvents && !covered c.active.session,
        "completed run lacks current response coverage")] = .ok () := by
    have hbinding := firstError_ok hbinding
    simp only [List.forall_mem_cons] at hbinding
    refine firstError_of ?_
    simp only [List.forall_mem_cons]
    refine ⟨hbinding.1, ?_, by simp⟩
    cases hresponses : c.supports .responseEvents with
    | true => simp [hcovered hresponses]
    | false => rfl
  have hdone : firstViolation [
      (true && (!c.active.commands.isEmpty || c.active.session.closure.isNone),
        "completed run has pending session work"),
      (true && c.unfinished, "completed run has unfinished operations")] = .ok () := by
    rw [hcommands, hfinished]
    have hclosed : c.active.session.closure.isNone = false := by
      rw [← Option.not_isSome, hclosure]
      rfl
    rw [hclosed]
    rfl
  unfold validate
  refine Result.bind_of_ok hoptions (Result.bind_of_ok hidentity ?_)
  refine Result.bind_of_ok hcontent (Result.bind_of_ok hcoverage ?_)
  refine Result.bind_of_ok hhistory (Result.bind_of_ok hsession ?_)
  refine Result.bind_of_ok hpending (Result.bind_of_ok harchive ?_)
  exact Result.bind_of_ok hoperations hdone

end Checkpoint

namespace Commit

/-- The facts a store establishes about a commit that replaces its head. -/
structure Follows (c : Commit) (previous : Checkpoint) : Prop where
  terminal : previous.state.terminal = false
  suspended : previous.state.isSuspended = true → c.checkpoint.fact = .attached
  monotone : Commit.monotone previous c.checkpoint = true
  operations : ∀ (id : OperationId) (op : OperationRecord),
    previous.active.operations[id]? = some op →
      operationFollows c.checkpoint.active.operations id op = .ok ()
  commands : ∀ command ∈ previous.active.commands,
    commandFollows c.checkpoint.active.commands command = .ok ()

structure Accepted (c : Commit) (previous : Checkpoint) : Prop where
  revision : c.checkpoint.revision = previous.revision + 1
  options : previous.options = c.checkpoint.options
  parent : c.checkpoint.parentId = some previous.id
  runId : previous.context.runId = c.checkpoint.context.runId
  follows : c.Follows previous
  target : ∃ kept added, c.target (some previous) = .ok (kept, added) ∧
    kept ++ added = c.checkpoint.history.entries ∧ ∀ entry ∈ added, entry.validate = .ok ()
  valid : c.checkpoint.Valid

private theorem follows_of_ok {c : Commit} {previous : Checkpoint}
    (h : c.follows previous = .ok ()) :
    c.Follows previous := by
  unfold follows at h
  obtain ⟨_, hstate, h⟩ := Result.bind_ok h
  obtain ⟨_, hoperations, h⟩ := Result.bind_ok h
  obtain ⟨_, hcommands, h⟩ := Result.bind_ok h
  have hstate := firstError_ok hstate
  simp only [List.forall_mem_cons, Bool.and_eq_false_iff, decide_eq_false_iff_not, not_not,
    Bool.not_eq_false'] at hstate
  obtain ⟨-, hterminal, hsuspended, hmonotone, -⟩ := hstate
  refine ⟨hterminal, fun hs => ?_, hmonotone, fun id op hop => ?_, validateAll_ok hcommands⟩
  · rcases hsuspended with hsuspended | hsuspended
    · rw [hs] at hsuspended
      cases hsuspended
    · exact hsuspended
  · exact validateAll_ok hoperations (id, op)
      (Std.ExtTreeMap.mem_toList_iff_getElem?_eq_some.mpr hop)

/-- What the validator checked of an accepted commit, check by check. -/
structure Checked (c : Commit) (previous : Option Checkpoint) : Prop where
  revision : previous.map Checkpoint.revision = c.expectedRevision
  options : ∀ p ∈ previous, p.options = c.checkpoint.options
  parent : previous.map Checkpoint.id = c.checkpoint.parentId
  runId : ∀ p ∈ previous, p.context.runId = c.checkpoint.context.runId
  follows : ∀ p ∈ previous, c.follows p = .ok ()
  target : ∃ kept added, c.target previous = .ok (kept, added) ∧
    kept ++ added = c.checkpoint.history.entries ∧ ∀ entry ∈ added, entry.validate = .ok ()
  valid : c.checkpoint.validate = .ok ()

theorem checked_of_ok {c : Commit} {previous : Option Checkpoint}
    (h : c.validateAgainst previous = .ok ()) : c.Checked previous := by
  unfold validateAgainst at h
  obtain ⟨_, -, h⟩ := Result.bind_ok h
  obtain ⟨_, hrevision, h⟩ := Result.bind_ok h
  obtain ⟨_, hidentity, h⟩ := Result.bind_ok h
  obtain ⟨_, hfollows, h⟩ := Result.bind_ok h
  obtain ⟨⟨kept, added⟩, htarget, h⟩ := Result.bind_ok h
  obtain ⟨_, hentries, h⟩ := Result.bind_ok h
  obtain ⟨_, hhistory, hvalid⟩ := Result.bind_ok h
  have hidentity := firstError_ok hidentity
  have hhistory := firstError_ok hhistory
  simp only [List.forall_mem_cons, Option.any_eq_false, Bool.or_eq_false_iff,
    decide_eq_false_iff_not, not_not] at hidentity
  obtain ⟨hoptions, ⟨hparent, hrunId⟩, -⟩ := hidentity
  simp only [List.forall_mem_singleton, decide_eq_false_iff_not, not_not] at hhistory
  refine
    { revision := require_ok hrevision
      options := hoptions
      parent := hparent
      runId := hrunId
      follows := ?_
      target := ⟨kept, added, htarget, hhistory, validateAll_ok hentries⟩
      valid := hvalid }
  intro p hp
  exact validateAll_ok hfollows p (by simpa using hp)

theorem validateAll_of {α : Type} {check : α → Result Unit} {xs : List α}
    (h : ∀ x ∈ xs, check x = .ok ()) : validateAll check xs = .ok () := by
  induction xs with
  | nil => rfl
  | cons x xs ih =>
    simp only [validateAll, h x List.mem_cons_self]
    exact ih fun y hy => h y (List.mem_cons_of_mem x hy)

theorem ok_of_checked {c : Commit} {previous : Option Checkpoint} (h : c.Checked previous) :
    c.validateAgainst previous = .ok () := by
  obtain ⟨kept, added, htarget, hsame, hadded⟩ := h.target
  have hoptions : c.checkpoint.options.validate = .ok () := by
    have hvalid := h.valid
    unfold Checkpoint.validate at hvalid
    exact (Result.bind_ok hvalid).choose_spec.1
  have hidentity : firstStorage [
      (previous.any fun p => p.options ≠ c.checkpoint.options, "run options changed after start"),
      (previous.map Checkpoint.id ≠ c.checkpoint.parentId ||
        previous.any (fun p => p.context.runId ≠ c.checkpoint.context.runId),
        "checkpoint parent/run mismatch")] = .ok () := by
    refine firstError_of ?_
    simp only [List.forall_mem_cons, Option.any_eq_false, Bool.or_eq_false_iff,
      decide_eq_false_iff_not, not_not]
    exact ⟨h.options, ⟨h.parent, h.runId⟩, by simp⟩
  have hfollows : validateAll c.follows previous.toList = .ok () :=
    validateAll_of fun p hp => h.follows p (by simpa using hp)
  have hhistory : firstStorage [(decide (kept ++ added ≠ c.checkpoint.history.entries),
      "history delta mismatch")] = .ok () := firstError_of (by simp [hsame])
  simp only [validateAgainst, hoptions, require, h.revision, if_true, hidentity, hfollows, htarget]
  change (validateAll HistoryEntry.validate added >>= fun _ => _) = _
  rw [validateAll_of hadded]
  change (firstStorage [(decide (kept ++ added ≠ c.checkpoint.history.entries),
    "history delta mismatch")] >>= fun _ => _) = _
  rw [hhistory]
  exact h.valid

theorem accepted_of_ok {c : Commit} {previous : Checkpoint}
    (h : c.validateAgainst (some previous) = .ok ()) : c.Accepted previous := by
  have hchecked := checked_of_ok h
  have hrevision := hchecked.revision
  refine
    { revision := ?_
      options := hchecked.options previous rfl
      parent := hchecked.parent.symm
      runId := hchecked.runId previous rfl
      follows := follows_of_ok (hchecked.follows previous rfl)
      target := hchecked.target
      valid := Checkpoint.valid_of_validate hchecked.valid }
  unfold expectedRevision at hrevision
  split at hrevision
  · cases hrevision
  · simp only [Option.map_some, Option.some.injEq] at hrevision
    omega

theorem valid_of_ok {c : Commit} {previous : Option Checkpoint}
    (h : c.validateAgainst previous = .ok ()) : c.checkpoint.validate = .ok () :=
  (checked_of_ok h).valid

theorem accepted_phase {previous next : Checkpoint} {state : State} {id : String} {fact : Fact}
    (hstate : previous.state = .running) (hcommands : previous.active.commands = [])
    (hnext : next = ({ previous with state } : Checkpoint).restamp id (some previous.id)
      (previous.revision + 1) fact) (hvalid : next.validate = .ok ()) :
    (Commit.mk next .unchanged).validateAgainst (some previous) = .ok () := by
  subst hnext
  refine ok_of_checked
    { revision := by simp [expectedRevision, Checkpoint.restamp]
      options := fun p hp => by rw [Option.mem_some_iff.mp hp]; rfl
      parent := rfl
      runId := fun p hp => by rw [Option.mem_some_iff.mp hp]; rfl
      follows := fun p hp => ?_
      target := ⟨previous.history.entries, [], rfl, List.append_nil _, by simp⟩
      valid := hvalid }
  obtain rfl := Option.mem_some_iff.mp hp
  unfold follows
  refine Result.bind_of_ok (a := ()) (firstError_of ?_) (Result.bind_of_ok (a := ()) ?_ ?_)
  · simp [contextChanged, hstate, State.terminal, State.isSuspended, monotone, Checkpoint.restamp]
  · refine validateAll_of fun entry hentry => ?_
    obtain ⟨key, op⟩ := entry
    have hop : previous.active.operations[key]? = some op :=
      Std.ExtTreeMap.mem_toList_iff_getElem?_eq_some.mp hentry
    simp only [operationFollows, Checkpoint.restamp, hop]
    refine firstError_of ?_
    simp only [List.forall_mem_cons]
    refine ⟨by simp, by simp, ?_, by simp⟩
    cases op.lastSequence <;> simp
  · rw [hcommands]
    rfl

private theorem kept_of_target {c : Commit} {previous : Option Checkpoint}
    {kept added : List HistoryEntry}
    (h : c.target previous = .ok (kept, added)) :
    kept = [] ∨ ∃ p, previous = some p ∧ kept = p.history.entries := by
  unfold target at h
  split at h
  · cases h
    exact .inl rfl
  · cases h
    exact .inl rfl
  · split at h
    · cases h
    · cases h
      exact .inr ⟨_, rfl, rfl⟩
  · cases h
    exact .inr ⟨_, rfl, rfl⟩
  · cases h

theorem entries_of_ok {c : Commit} {previous : Option Checkpoint}
    (h : c.validateAgainst previous = .ok ())
    (hprevious : ∀ p ∈ previous, ∀ entry ∈ p.history.entries, entry.validate = .ok ()) :
    ∀ entry ∈ c.checkpoint.history.entries, entry.validate = .ok () := by
  obtain ⟨kept, added, htarget, hsame, hadded⟩ := (checked_of_ok h).target
  intro entry hentry
  rw [← hsame] at hentry
  rcases List.mem_append.mp hentry with hentry | hentry
  · rcases kept_of_target htarget with rfl | ⟨p, hp, rfl⟩
    · cases hentry
    · exact hprevious p hp entry hentry
  · exact hadded entry hentry

end Commit

namespace Checkpoint

/-- What `validate` asks of the outbox. -/
structure OutboxFits (c : Checkpoint) (commands : List PendingCommand) : Prop where
  ids : ∀ command ∈ commands, command.id ≠ ""
  nodup : (commands.map PendingCommand.id).Nodup
  capacity : commands.length ≤ c.options.limits.maxControlCommands
  valid : ∀ command ∈ commands, c.validateCommand command = .ok ()

theorem outboxFits_of_validate {c : Checkpoint} (h : c.validate = .ok ()) :
    c.OutboxFits c.active.commands := by
  have hvalid := valid_of_validate h
  refine ⟨?_, hvalid.commandIds, hvalid.outbox, hvalid.commands⟩
  unfold validate at h
  obtain ⟨_, -, h⟩ := Result.bind_ok h
  obtain ⟨_, -, h⟩ := Result.bind_ok h
  obtain ⟨_, -, h⟩ := Result.bind_ok h
  obtain ⟨_, -, h⟩ := Result.bind_ok h
  obtain ⟨_, -, h⟩ := Result.bind_ok h
  obtain ⟨_, hsession, -⟩ := Result.bind_ok h
  have hsession := firstError_ok hsession
  simp only [List.forall_mem_cons, Bool.or_eq_false_iff] at hsession
  obtain ⟨-, -, -, hids, -⟩ := hsession
  intro command hcommand hempty
  have hnone := List.any_eq_false.mp hids.1 command hcommand
  simp [hempty] at hnone

/-- Another outbox leaves an open run valid exactly when it fits. -/
theorem validate_commands {c : Checkpoint} {commands : List PendingCommand}
    (h : c.validate = .ok ()) (hopen : c.state.isCompleted = false) :
    ({ c with active.commands := commands } : Checkpoint).validate = .ok () ↔
      c.OutboxFits commands := by
  constructor
  · intro hafter
    obtain ⟨hids, hnodup, hcapacity, hvalid⟩ := outboxFits_of_validate hafter
    exact ⟨hids, hnodup, hcapacity, hvalid⟩
  · rintro ⟨hids, hnodup, hcapacity, hvalid⟩
    unfold validate at h
    obtain ⟨_, hoptions, h⟩ := Result.bind_ok h
    obtain ⟨_, hidentity, h⟩ := Result.bind_ok h
    obtain ⟨_, hstate, h⟩ := Result.bind_ok h
    obtain ⟨_, hbinding, h⟩ := Result.bind_ok h
    obtain ⟨_, hhistory, h⟩ := Result.bind_ok h
    obtain ⟨_, hsession, h⟩ := Result.bind_ok h
    obtain ⟨_, -, h⟩ := Result.bind_ok h
    obtain ⟨_, harchive, h⟩ := Result.bind_ok h
    obtain ⟨_, hoperations, -⟩ := Result.bind_ok h
    have hsession := firstError_ok hsession
    simp only [List.forall_mem_cons, Bool.or_eq_false_iff] at hsession
    obtain ⟨hstarts, hid, hbounds, -, hactive, -⟩ := hsession
    have hanys : commands.any (fun command => decide (command.id = "")) = false := by
      rw [List.any_eq_false]
      intro command hcommand
      simpa using hids command hcommand
    have hfits : firstViolation [
        (decide (c.active.session.responseStart > c.history.len) ||
          decide (c.active.session.runStart > c.history.len), "turn start exceeds history"),
        (decide (c.active.session.id = ""), "empty session identity"),
        (decide (c.active.session.acknowledgedContextRevision > c.active.session.contextRevision) ||
          decide (c.active.session.generatedInputPosition > c.active.session.inputPosition),
          "session acknowledgement exceeds admitted context"),
        (commands.any (fun command => decide (command.id = "")) ||
          !decide (commands.map PendingCommand.id).Nodup, "invalid pending command identity"),
        (decide (commands.length > c.options.limits.maxControlCommands) ||
          decide (c.active.operations.size > c.options.limits.maxInflightOperations) ||
          decide (c.active.media.size > c.options.limits.maxMediaStreams),
          "active capacity exceeded")] = .ok () := by
      refine firstError_of ?_
      simp only [List.forall_mem_cons, Bool.or_eq_false_iff]
      refine ⟨hstarts, hid, hbounds, ⟨hanys, by simp [hnodup]⟩, ⟨⟨?_, hactive.1.2⟩, hactive.2⟩,
        by simp⟩
      simpa using hcapacity
    have hdone : firstViolation [
        (c.state.isCompleted && (!commands.isEmpty || c.active.session.closure.isNone),
          "completed run has pending session work"),
        (c.state.isCompleted && c.unfinished, "completed run has unfinished operations")] =
        .ok () := by
      rw [hopen]
      rfl
    have hcommands : validateAll c.validateCommand commands = .ok () := Commit.validateAll_of hvalid
    unfold validate
    refine Result.bind_of_ok hoptions (Result.bind_of_ok hidentity ?_)
    refine Result.bind_of_ok hstate (Result.bind_of_ok hbinding ?_)
    refine Result.bind_of_ok hhistory (Result.bind_of_ok hfits ?_)
    refine Result.bind_of_ok hcommands (Result.bind_of_ok harchive ?_)
    exact Result.bind_of_ok hoperations hdone

end Checkpoint

end Zhir.Core
