import Zhir.Core.Commit
import Zhir.Models.Reservations

/-!
What consumers get of a session: every accepted event once and in order, then the error of the
worker once, and the media that is neither retired nor left behind by a worker that ended.
-/

set_option autoImplicit false
set_option relaxedAutoImplicit false

namespace Zhir.Models

open Zhir.Core
open Zhir.Library (Trace)

variable {shown : List Shown} {n n' : Native} {label : Shown}

private theorem receive_delivers (h : EventFlow shown n)
    (hready : n.events ≠ [] ∨ ∃ t, n.worker = .settled t) (htransit : n.inTransit ≠ []) :
    ∃ event n', n.receive = some (.delivered event, n') := by
  cases hwaiting : n.consumer.waiting with
  | true =>
    obtain ⟨hremaining, -⟩ := h.waiting hwaiting
    cases hevents : n.events with
    | cons event rest =>
      exact ⟨event, { n with events := rest }, by
        simp only [Native.receive, hwaiting, if_true, hevents]⟩
    | nil =>
      obtain ⟨t, hworker⟩ := hready.resolve_left fun hne => hne hevents
      have hpending := h.settled ⟨t, hworker⟩
      obtain ⟨events, result⟩ := t
      cases events with
      | nil =>
        simp [Native.inTransit, Worker.handed, hremaining, hevents, hworker, hpending] at htransit
      | cons event rest =>
        exact ⟨event, { n with consumer := ⟨false, rest, some result⟩ }, by
          simp only [Native.receive, hwaiting, if_true, hevents, hworker, Consumer.next]⟩
  | false =>
    obtain ⟨hevents, hworker, -⟩ := h.taken hwaiting
    have hsettled := hready.resolve_left fun hne => hne hevents
    have hpending := h.settled hsettled
    obtain ⟨t, hsettled⟩ := hsettled
    cases hremaining : n.consumer.remaining with
    | nil =>
      simp [Native.inTransit, Worker.handed, hremaining, hevents, hsettled, hpending,
        hwaiting] at htransit
    | cons event rest =>
      refine ⟨event, { n with consumer := { n.consumer with remaining := rest } }, ?_⟩
      simp only [Native.receive, hwaiting, Consumer.next, hremaining]
      rfl

private theorem receive_isSome (hworker : n.worker ≠ .running) : n.receive.isSome = true := by
  unfold Native.receive
  split
  · split
    · rfl
    · split
      · rename_i hrunning
        exact absurd hrunning hworker
      · rfl
      · rfl
  · rfl

/-- While events are in transit the driver and the consumer can get one across, without any
further event accepted. -/
theorem EventFlow.advance (h : EventFlow shown n) (hcapacity : 0 < n.capacity)
    (hworker : n.worker ≠ .dropped) (htransit : n.inTransit ≠ []) :
    ∃ labels n', Trace Delivery n labels n' ∧ accepted labels = [] ∧ delivered labels ≠ [] ∧
      n'.worker ≠ .dropped ∧ n'.capacity = n.capacity := by
  by_cases hready : n.events ≠ [] ∨ ∃ t, n.worker = .settled t
  · obtain ⟨event, n', hreceive⟩ := receive_delivers h hready htransit
    have hanswers := receive_answers hreceive
    exact ⟨_, n', .single (.receive hreceive), hanswers.accepted, by simp [delivered],
      hanswers.worker ▸ hworker, hanswers.capacity⟩
  · rw [not_or, not_not] at hready
    obtain ⟨hevents, hunsettled⟩ := hready
    have hrunning : n.worker = .running := by
      cases hcase : n.worker with
      | running => rfl
      | settled t => exact absurd ⟨t, hcase⟩ hunsettled
      | dropped => exact absurd hcase hworker
    have hwaiting := h.untaken hrunning
    obtain ⟨hremaining, -⟩ := h.waiting hwaiting
    cases hpending : n.outputs.pendingEvents with
    | nil =>
      simp [Native.inTransit, Worker.handed, hremaining, hevents, hrunning, hpending] at htransit
    | cons event rest =>
      -- a flush that is under way is cancelled, and a new one gets the permit
      have hidle : ∃ labels n₀, Trace Delivery n labels n₀ ∧ accepted labels = [] ∧
          n₀.flushing = none ∧ n₀.worker = .running ∧ n₀.outputs = n.outputs ∧
          n₀.events = [] ∧ n₀.capacity = n.capacity ∧ n₀.consumer = n.consumer := by
        cases hflush : n.flushing with
        | none => exact ⟨[], n, .start, rfl, hflush, hrunning, rfl, hevents, rfl, rfl⟩
        | some f =>
          exact ⟨_, _, .single (.cancel hflush), rfl, rfl, hrunning, rfl, hevents, rfl, rfl⟩
      obtain ⟨labels, n₀, hrun, hquiet, hflush, hrun₀, houtputs, hevents₀, hcapacity₀,
        hconsumer⟩ := hidle
      have hsome : n₀.outputs.pending = true := by
        rw [houtputs]
        simp [Outputs.pending, hpending]
      have hfront : n₀.outputs.pendingEvents = event :: rest := by rw [houtputs, hpending]
      let n₁ : Native := { n₀ with flushing := some {} }
      let n₂ : Native := { n₁ with flushing := some { permit := true } }
      have hrun₁ : Trace Delivery n (labels ++ [.nothing]) n₁ :=
        .next hrun (.flush ⟨hrun₀, hflush⟩ hsome)
      have hrun₂ : Trace Delivery n (labels ++ [.nothing] ++ [.nothing]) n₂ := by
        refine .next hrun₁ (.permit (f := {}) hrun₀ rfl ?_ ?_)
        · exact fun hnil => List.cons_ne_nil _ _ (hfront.symm.trans hnil)
        · change n₀.events.length < n₀.capacity
          rw [hevents₀, hcapacity₀]
          exact hcapacity
      have hrun₃ : Trace Delivery n (labels ++ [.nothing] ++ [.nothing] ++ [.nothing])
          (n₂.sendEvent { permit := true } event rest) :=
        .next hrun₂ (.sendEvent hrun₀ rfl rfl hfront)
      have hsent : (n₂.sendEvent { permit := true } event rest).events = [event] := by
        change n₀.events ++ [event] = [event]
        rw [hevents₀]
        rfl
      obtain ⟨event', n', hreceive⟩ := receive_delivers (h.trace hrun₃)
        (.inl (by simp [hsent])) (by simp [Native.inTransit, hsent])
      have hanswers := receive_answers hreceive
      refine ⟨_, n', .next hrun₃ (.receive hreceive), ?_, ?_, ?_, ?_⟩
      · simp only [accepted_append, hquiet, hanswers.accepted]
        rfl
      · simp [delivered]
      · rw [hanswers.worker]
        intro hdropped
        cases hrun₀.symm.trans hdropped
      · exact hanswers.capacity.trans hcapacity₀

theorem EventFlow.drain (hcapacity : 0 < n.capacity) (hworker : n.worker ≠ .dropped)
    (h : EventFlow shown n) :
    ∃ labels n', Trace Delivery n labels n' ∧ accepted labels = [] ∧
      delivered (shown ++ labels) = accepted shown := by
  generalize hleft : n.inTransit.length = left
  induction left using Nat.strong_induction_on generalizing shown n with
  | _ left ih =>
    by_cases htransit : n.inTransit = []
    · refine ⟨[], n, .start, rfl, ?_⟩
      have honce := h.once
      rw [htransit, List.append_nil] at honce
      rw [List.append_nil, honce]
    · obtain ⟨labels, n', hrun, hquiet, hsome, hworker', hcapacity'⟩ :=
        h.advance hcapacity hworker htransit
      have h' := h.trace hrun
      have hshorter : n'.inTransit.length < left := by
        have hbefore := congrArg List.length h.once
        have hafter := congrArg List.length h'.once
        have hpositive := List.length_pos_iff.mpr hsome
        simp only [delivered_append, accepted_append, hquiet, List.length_append,
          List.length_nil] at hbefore hafter
        omega
      obtain ⟨labels', n'', hrun', hquiet', hall⟩ :=
        ih _ hshorter (hcapacity' ▸ hcapacity) hworker' h' rfl
      refine ⟨labels ++ labels', n'', hrun.append hrun', ?_, ?_⟩
      · rw [accepted_append, hquiet, hquiet']
        rfl
      · rw [← List.append_assoc, hall, accepted_append, hquiet, List.append_nil]

/-- A continuation in which the driver accepts no media and retires none. -/
structure Drained (n : Native) (labels : List Shown) (n' : Native) : Prop where
  trace : Trace Delivery n labels n'
  silent : acceptedMedia labels = []
  minEpoch : n'.minEpoch = n.minEpoch
  worker : n'.worker = n.worker

theorem Drained.refl (n : Native) : Drained n [] n := ⟨.start, rfl, rfl, rfl⟩

theorem Drained.append {labels labels' : List Shown} {n'' : Native}
    (h : Drained n labels n') (h' : Drained n' labels' n'') :
    Drained n (labels ++ labels') n'' where
  trace := h.trace.append h'.trace
  silent := by rw [acceptedMedia_append, h.silent, h'.silent, List.append_nil]
  minEpoch := h'.minEpoch.trans h.minEpoch
  worker := h'.worker.trans h.worker

theorem Drained.next {labels : List Shown} {n'' : Native} (h : Drained n labels n')
    (hstep : Delivery n' label n'') (hlabel : acceptedMedia [label] = [])
    (hepoch : n''.minEpoch = n'.minEpoch) (hworker : n''.worker = n'.worker) :
    Drained n (labels ++ [label]) n'' :=
  h.append ⟨.single hstep, hlabel, hepoch, hworker⟩

private theorem discardAll (n : Native) :
    ∃ labels, ∃ budget : MediaBudget, Drained n labels { n with budget, ingress := [] } := by
  generalize hleft : n.ingress = ingress
  induction ingress generalizing n with
  | nil =>
    refine ⟨[], n.budget, ?_⟩
    rw [← hleft]
    exact .refl n
  | cons size rest ih =>
    have hmem : size ∈ n.ingress := hleft ▸ List.mem_cons_self
    have hrest : n.ingress.erase size = rest := by rw [hleft, List.erase_cons_head]
    obtain ⟨labels, budget, hdrained⟩ :=
      ih { n with budget := n.budget.release size, ingress := n.ingress.erase size } hrest
    refine ⟨_, budget, ((Drained.refl n).next (.discard hmem) rfl rfl rfl).append hdrained⟩

private theorem receiveAll (n : Native) :
    ∃ labels, ∃ budget : MediaBudget, Drained n labels { n with budget, media := [] } := by
  generalize hleft : n.media = media
  induction media generalizing n with
  | nil =>
    refine ⟨[], n.budget, ?_⟩
    rw [← hleft]
    exact .refl n
  | cons packet rest ih =>
    obtain ⟨labels, budget, hdrained⟩ :=
      ih { n with media := rest, budget := n.budget.release packet.reservation } rfl
    have hanswer : ∃ label, n.receiveMedia = some (label,
        { n with media := rest, budget := n.budget.release packet.reservation }) ∧
          acceptedMedia [label] = [] := by
      unfold Native.receiveMedia
      rw [hleft]
      dsimp only
      split
      · exact ⟨_, rfl, rfl⟩
      · exact ⟨_, rfl, rfl⟩
    obtain ⟨label, hreceive, hlabel⟩ := hanswer
    exact ⟨_, budget,
      ((Drained.refl n).next (.receiveMedia hreceive) hlabel rfl rfl).append hdrained⟩

structure Still (n : Native) : Prop where
  running : n.worker = .running
  flushing : n.flushing = none
  ingress : n.ingress = []
  media : n.media = []

theorem still (hrunning : n.worker = .running) :
    ∃ labels n', Drained n labels n' ∧ Still n' ∧ n'.outputs = n.outputs := by
  have hidle : ∃ labels n', Drained n labels n' ∧ n'.flushing = none ∧
      n'.outputs = n.outputs := by
    cases hflush : n.flushing with
    | none => exact ⟨[], n, .refl n, hflush, rfl⟩
    | some f => exact ⟨_, _, (Drained.refl n).next (.cancel hflush) rfl rfl rfl, rfl, rfl⟩
  obtain ⟨labels, n₁, hcancelled, hflush, houtputs⟩ := hidle
  obtain ⟨labels', budget, hdiscarded⟩ := discardAll n₁
  obtain ⟨labels'', budget', hreceived⟩ := receiveAll { n₁ with budget, ingress := [] }
  refine ⟨_, _, (hcancelled.append hdiscarded).append hreceived, ?_, houtputs⟩
  exact ⟨hcancelled.worker.trans hrunning, hflush, rfl, rfl⟩

private theorem flushFirst {limits : Limits} (hlimits : limits.maxBufferedMediaBytes ≤ maxU32)
    (h : Budgeted limits n) (hstill : Still n) (hfits : n.Reservable)
    {packet : PendingMedia} {rest : List PendingMedia}
    (hfront : n.outputs.pendingMedia = packet :: rest) :
    ∃ labels n', Drained n labels n' ∧ n'.outputs.pendingMedia = rest ∧ n'.flushing = none ∧
      n'.ingress = [] := by
  obtain ⟨hrunning, hflush, hingress, hmedia⟩ := hstill
  have hpending : n.outputs.pending = true := by simp [Outputs.pending, hfront]
  have hflushed := (Drained.refl n).next (.flush ⟨hrunning, hflush⟩ hpending) rfl rfl rfl
  cases hreservation : packet.reservation with
  | some bytes =>
    have hsent := hflushed.next (.sendReceived (f := {}) hrunning rfl hfront hreservation)
      rfl rfl rfl
    exact ⟨_, _, hsent, rfl, rfl, hingress⟩
  | none =>
    have hclaim : packet.chunk.bytes.length +
        (rest.map PendingMedia.claim).sum ≤ limits.maxBufferedMediaBytes := by
      unfold Native.Reservable at hfits
      rw [h.configured.budget, hfront, List.map_cons, List.sum_cons, PendingMedia.claim,
        hreservation, Option.getD_none] at hfits
      exact hfits
    have hheld := reservations_le_claims rest
    have hbytes := h.within.bytes
    have hslots := h.within.slots
    have hlength := h.within.pendingMedia
    simp only [Native.reserved, hingress, hmedia, Outputs.reservations, hfront,
      List.filterMap_cons_none hreservation, List.map_nil, List.append_nil, List.nil_append,
      Native.flushBytes, Native.flushSlots, hflush, Option.map_none, Option.getD_none]
      at hbytes hslots
    have hcount := List.length_filterMap_le PendingMedia.reservation rest
    rw [hfront, List.length_cons] at hlength
    have hslot : n.budget.slots > 0 := by omega
    have hfree : n.budget.bytes ≥ packet.chunk.bytes.length := by omega
    have hsize : n.budget.size packet.chunk.bytes.length = .ok packet.chunk.bytes.length := by
      have hlimit := h.configured.budget
      unfold MediaBudget.size
      rw [require, if_pos (by omega), require, if_pos (by omega)]
      rfl
    have hreserved := (hflushed.next
      (.slot (f := {}) hrunning rfl rfl hfront hreservation hsize hslot) rfl rfl rfl).next
      (.bytes (f := { reserving := .slot }) hrunning rfl rfl hfront hfree) rfl rfl rfl
    have hsent := hreserved.next
      (.sendMedia (f := { reserving := .reserved packet.chunk.bytes.length })
        hrunning rfl rfl hfront) rfl rfl rfl
    exact ⟨_, _, hsent, rfl, rfl, hingress⟩

private theorem Native.Reservable.of_le {limits : Limits} (h : Budgeted limits n)
    (h' : Budgeted limits n') (hfits : n.Reservable)
    (hle : (n'.outputs.pendingMedia.map PendingMedia.claim).sum ≤
      (n.outputs.pendingMedia.map PendingMedia.claim).sum) : n'.Reservable := by
  unfold Native.Reservable at hfits ⊢
  rw [h'.configured.budget, ← h.configured.budget]
  exact hle.trans hfits

private theorem flushAll {limits : Limits} (hlimits : limits.maxBufferedMediaBytes ≤ maxU32)
    (h : Budgeted limits n) (hflow : MediaFlow shown n) (hstill : Still n)
    (hfits : n.Reservable) : ∃ labels n', Drained n labels n' ∧ n'.queuedMedia = [] := by
  generalize hpending : n.outputs.pendingMedia = pending
  induction pending generalizing shown n with
  | nil => exact ⟨[], n, .refl n, by simp [Native.queuedMedia, hstill.media, hpending]⟩
  | cons packet rest ih =>
    obtain ⟨labels, n₁, hsent, hrest, -⟩ := flushFirst hlimits h hstill hfits hpending
    obtain ⟨labels', n₂, hsettled, hstill₂, houtputs⟩ := still (hsent.worker.trans hstill.running)
    have htrace := (hsent.append hsettled).trace
    have h₂ := h.trace hflow htrace
    have hpending₂ : n₂.outputs.pendingMedia = rest := by rw [houtputs, hrest]
    have hfits₂ : n₂.Reservable := by
      refine hfits.of_le h h₂ ?_
      rw [hpending₂, hpending, List.map_cons, List.sum_cons]
      exact Nat.le_add_left _ _
    obtain ⟨labels'', n₃, hall, hnone⟩ := ih h₂ (hflow.trace htrace) hstill₂ hfits₂ hpending₂
    exact ⟨_, n₃, (hsent.append hsettled).append hall, hnone⟩

private theorem drainMedia {limits : Limits} (hlimits : limits.maxBufferedMediaBytes ≤ maxU32)
    (h : Budgeted limits n) (hflow : MediaFlow shown n) (hrunning : n.worker = .running)
    (hfits : n.Reservable) : ∃ labels n', Drained n labels n' ∧ n'.queuedMedia = [] := by
  obtain ⟨labels, n₁, hdrained, hstill, houtputs⟩ := still hrunning
  have h₁ := h.trace hflow hdrained.trace
  have hfits₁ : n₁.Reservable := hfits.of_le h h₁ (by rw [houtputs])
  obtain ⟨labels', n₂, hall, hnone⟩ :=
    flushAll hlimits h₁ (hflow.trace hdrained.trace) hstill hfits₁
  exact ⟨_, n₂, hdrained.append hall, hnone⟩

theorem Drained.delivers {labels : List Shown} (h : Drained n labels n')
    (hflow : MediaFlow shown n) :
    (deliveredMedia (shown ++ labels) ++ n'.queuedMedia).filter n.current =
      (acceptedMedia shown).filter n.current := by
  have hkept := (hflow.trace h.trace).kept
  have hcurrent : n'.current = n.current := by
    funext chunk
    simp only [Native.current, h.minEpoch]
  rw [hcurrent, acceptedMedia_append, h.silent, List.append_nil] at hkept
  exact hkept.symm

private theorem receive_shown (h : n.receive = some (label, n')) :
    (∃ event, label = .delivered event) ∨ (∃ error, label = .reported error) ∨ label = .ended := by
  have hnext : ∀ c : Consumer, (∃ event, c.next.1 = .delivered event) ∨
      (∃ error, c.next.1 = .reported error) ∨ c.next.1 = .ended := by
    intro c
    rcases next_spec c with ⟨event, -, hshown, -⟩ | ⟨error, -, -, hshown⟩ | ⟨-, -, hshown, -⟩
    · exact .inl ⟨event, hshown⟩
    · exact .inr (.inl ⟨error, by rw [hshown]⟩)
    · exact .inr (.inr hshown)
  unfold Native.receive at h
  split at h
  · split at h
    · cases h
      exact .inl ⟨_, rfl⟩
    · split at h
      · cases h
      · cases h
        exact hnext _
      · cases h
        exact .inr (.inl ⟨_, rfl⟩)
  · cases h
    exact hnext _

theorem EventFlow.finished (h : EventFlow shown n) (hended : .ended ∈ shown) :
    delivered shown ++ n.outputs.pendingEvents = accepted shown ∧
      reported shown = n.worker.errors := by
  have htaken : n.consumer.waiting = false := by
    cases hwaiting : n.consumer.waiting with
    | true => exact absurd hended (h.waiting hwaiting).2.2
    | false => rfl
  obtain ⟨hevents, -, hreported⟩ := h.taken htaken
  obtain ⟨hremaining, howed⟩ := h.ended hended
  have hhanded : n.worker.handed n.consumer.waiting = [] := by
    rw [htaken]
    cases n.worker <;> rfl
  have honce := h.once
  rw [Native.inTransit, hremaining, hevents, hhanded, List.nil_append, List.nil_append,
    List.nil_append] at honce
  rw [howed, List.append_nil] at hreported
  exact ⟨honce, hreported⟩

theorem EventFlow.settles (h : EventFlow shown n) (hworker : n.worker ≠ .running) :
    ∃ labels n', Trace Delivery n labels n' ∧ accepted labels = [] ∧
      n'.outputs = n.outputs ∧ n'.worker = n.worker ∧ .ended ∈ shown ++ labels := by
  generalize hleft : n.inTransit.length + (n.worker.errors.length - (reported shown).length) = left
  induction left using Nat.strong_induction_on generalizing shown n with
  | _ left ih =>
    obtain ⟨⟨label, n'⟩, hreceive⟩ := Option.isSome_iff_exists.mp (receive_isSome hworker)
    have hanswers := receive_answers hreceive
    have h' := h.step (.receive hreceive)
    -- one more answer leaves fewer events or no error
    have hless : label ≠ .ended →
        n'.inTransit.length + (n'.worker.errors.length - (reported (shown ++ [label])).length) <
          left := by
      intro hlabel
      have hbefore := congrArg List.length h.once
      have hafter := congrArg List.length h'.once
      rw [accepted_append, hanswers.accepted, List.append_nil] at hafter
      rcases receive_shown hreceive with ⟨event, rfl⟩ | ⟨error, rfl⟩ | rfl
      · simp only [List.length_append, delivered_append, reported_append, hanswers.worker] at *
        simp only [delivered, reported, List.filterMap_cons, List.filterMap_nil, List.length_cons,
          List.length_nil] at *
        omega
      · have hfits : (reported (shown ++ [.reported error])).length ≤ n'.worker.errors.length := by
          have hwaiting : n'.consumer.waiting = false := by
            by_contra hwaiting
            have hnone := (h'.waiting (by simpa using hwaiting)).2.1
            simp [reported] at hnone
          have hreported := congrArg List.length (h'.taken hwaiting).2.2
          rw [List.length_append] at hreported
          omega
        rw [hanswers.worker] at hfits
        simp only [List.length_append, delivered_append, reported_append, hanswers.worker] at *
        simp only [delivered, reported, List.filterMap_cons, List.filterMap_nil, List.length_cons,
          List.length_nil] at *
        omega
      · exact absurd rfl hlabel
    by_cases hlabel : label = .ended
    · refine ⟨[label], n', .single (.receive hreceive), hanswers.accepted, hanswers.outputs,
        hanswers.worker, ?_⟩
      rw [hlabel]
      exact List.mem_append_right _ List.mem_cons_self
    · obtain ⟨labels, n'', hrun, hquiet, houtputs, hworker', hended⟩ :=
        ih _ (hless hlabel) h' (hanswers.worker ▸ hworker) rfl
      refine ⟨label :: labels, n'', (Trace.single (.receive hreceive)).append hrun, ?_,
        houtputs.trans hanswers.outputs, hworker'.trans hanswers.worker, ?_⟩
      · have happend := accepted_append [label] labels
        rw [hanswers.accepted, hquiet] at happend
        exact happend
      · simpa using hended

structure Delivered (shown : List Shown) (n : Native) : Prop where
  /-- Accepted events are numbered in the order they are accepted in. -/
  numbered : (accepted shown).map SessionEvent.sequence = List.range (accepted shown).length
  /-- Each is delivered once and in this order, or still in transit. -/
  once : delivered shown ++ n.inTransit = accepted shown
  /-- Whoever ends the worker, what is in transit can be got across, but for a worker that is
  dropped without settling. -/
  drains : n.worker ≠ .dropped → ∃ labels n', Trace Delivery n labels n' ∧ accepted labels = [] ∧
    delivered (shown ++ labels) = accepted shown
  /-- After the end of the worker no receive waits. -/
  answered : n.worker ≠ .running → n.receive.isSome = true
  /-- Receives then show all but the events that a dropped worker had pending, and the error. -/
  settles : n.worker ≠ .running → ∃ labels n', Trace Delivery n labels n' ∧
    accepted labels = [] ∧ .ended ∈ shown ++ labels ∧
    delivered (shown ++ labels) ++ n.outputs.pendingEvents = accepted shown ∧
    reported (shown ++ labels) = n.worker.errors
  /-- A worker that settled left nothing pending. -/
  settled : (∃ t, n.worker = .settled t) → n.outputs.pendingEvents = []
  /-- The error of the worker is answered at most once. -/
  reportedOnce : reported shown <+: n.worker.errors
  /-- Error and end of the stream come after the last event. -/
  reportedLast : reported shown ≠ [] ∨ .ended ∈ shown → n.worker ≠ .dropped → n.inTransit = []
  /-- The end of the stream comes after the error. -/
  endedLast : .ended ∈ shown → reported shown = n.worker.errors
  /-- Media is delivered at most once and in the order it was accepted in. -/
  mediaOnce : (deliveredMedia shown ++ n.queuedMedia).Sublist (acceptedMedia shown)
  /-- Chunks whose epoch is not retired are delivered or on their way. -/
  mediaKept : (acceptedMedia shown).filter n.current =
    (deliveredMedia shown ++ n.queuedMedia).filter n.current
  /-- While the driver runs, what is on its way can be got across. -/
  mediaDrains : n.worker = .running → n.Reservable → ∃ labels n', Trace Delivery n labels n' ∧
    acceptedMedia labels = [] ∧
    (deliveredMedia (shown ++ labels)).filter n.current = (acceptedMedia shown).filter n.current
  /-- Once it has ended, all but what it had pending, and then the end of the media. -/
  mediaSettles : n.worker ≠ .running → ∃ labels n', Trace Delivery n labels n' ∧
    acceptedMedia labels = [] ∧ .mediaEnded ∈ labels ∧
    (deliveredMedia (shown ++ labels) ++ n.outputs.pendingMedia.map PendingMedia.chunk).filter
      n.current = (acceptedMedia shown).filter n.current
  /-- A driver that queues only chunks of its own, or only received ones, never reserves too
  much. -/
  reservable : (∀ p ∈ n.outputs.pendingMedia, p.reservation = none) ∨
    (∀ p ∈ n.outputs.pendingMedia, p.reservation ≠ none) → n.Reservable
  /-- At the end of the media all of them are delivered, but for those that the worker had
  pending when it ended. -/
  mediaEnded : .mediaEnded ∈ shown → n.media = [] ∧
    (n.worker = .running → n.outputs.pendingMedia = [])
  /-- Pending media always has a channel to go to. -/
  mediaSender : n.outputs.pendingMedia ≠ [] → n.outputs.mediaOpen = true
  /-- `media_bytes` counts the pending media. -/
  mediaBytes : n.outputs.mediaBytes = n.outputs.pendingSize

private theorem limits_capacity {limits : Limits} (hlimits : limits.validate = .ok ()) :
    0 < limits.maxSessionEvents ∧ limits.maxBufferedMediaBytes ≤ maxU32 := by
  unfold Limits.validate at hlimits
  split at hlimits
  · cases hlimits
  · omega

theorem Delivered.of_flows {limits : Limits} (hlimits : limits.validate = .ok ())
    (hevents : EventFlow shown n) (hmedia : MediaFlow shown n) (hbudget : Budgeted limits n) :
    Delivered shown n := by
  obtain ⟨hpositive, hlimit⟩ := limits_capacity hlimits
  have hcapacity : 0 < n.capacity := hbudget.configured.capacity ▸ hpositive
  have hfinal : n.consumer.waiting = false → n.consumer.remaining = [] → n.worker ≠ .dropped →
      n.inTransit = [] := by
    intro htaken hremaining hworker
    obtain ⟨hnil, hended, -⟩ := hevents.taken htaken
    cases hcase : n.worker with
    | running => exact absurd hcase hended
    | dropped => exact absurd hcase hworker
    | settled t =>
      simp [Native.inTransit, Worker.handed, hremaining, hnil, hcase, htaken,
        hevents.settled ⟨t, hcase⟩]
  constructor
  · have hlength := congrArg List.length hevents.sequences
    rw [List.length_map, List.length_range] at hlength
    rw [hevents.sequences, hlength]
  · exact hevents.once
  · exact fun hworker => hevents.drain hcapacity hworker
  · exact receive_isSome
  · intro hworker
    obtain ⟨labels, n', htrace, hquiet, houtputs, hsame, hended⟩ := hevents.settles hworker
    obtain ⟨hall, herrors⟩ := (hevents.trace htrace).finished hended
    rw [houtputs, accepted_append, hquiet, List.append_nil] at hall
    exact ⟨labels, n', htrace, hquiet, hended, hall, hsame ▸ herrors⟩
  · exact hevents.settled
  · cases hwaiting : n.consumer.waiting with
    | true =>
      rw [(hevents.waiting hwaiting).2.1]
      exact List.nil_prefix
    | false => exact ⟨_, (hevents.taken hwaiting).2.2⟩
  · intro hanswer hworker
    cases hwaiting : n.consumer.waiting with
    | true =>
      obtain ⟨-, hnone, hnot⟩ := hevents.waiting hwaiting
      exact hanswer.elim (absurd hnone) (absurd · hnot)
    | false =>
      exact hfinal hwaiting (hanswer.elim hevents.reports fun h => (hevents.ended h).1) hworker
  · intro hended
    cases hwaiting : n.consumer.waiting with
    | true => exact absurd hended (hevents.waiting hwaiting).2.2
    | false =>
      have hreported := (hevents.taken hwaiting).2.2
      rwa [(hevents.ended hended).2, List.append_nil] at hreported
  · exact hmedia.once
  · exact hmedia.kept
  · intro hrunning hfits
    obtain ⟨labels, n', hdrained, hnone⟩ := drainMedia hlimit hbudget hmedia hrunning hfits
    have hdelivers := hdrained.delivers hmedia
    rw [hnone, List.append_nil] at hdelivers
    exact ⟨labels, n', hdrained.trace, hdrained.silent, hdelivers⟩
  · intro hworker
    obtain ⟨labels, budget, hreceived⟩ := receiveAll n
    have hclosed : ({ n with budget, media := [] } : Native).receiveMedia =
        some (.mediaEnded, { n with budget, media := [] }) := by
      unfold Native.receiveMedia
      exact if_neg fun hopen => hworker hopen.2
    have hdrained := hreceived.next (.receiveMedia hclosed) rfl rfl rfl
    refine ⟨_, _, hdrained.trace, hdrained.silent, ?_, ?_⟩
    · exact List.mem_append_right _ List.mem_cons_self
    · exact hdrained.delivers hmedia
  · exact hbudget.reservable hmedia.bytes
  · intro hended
    obtain ⟨hnil, hclosed⟩ := hmedia.ended hended
    refine ⟨hnil, fun hrunning => ?_⟩
    cases hopen : n.outputs.mediaOpen with
    | false => exact (hmedia.sender hopen).2
    | true => exact absurd ⟨hopen, hrunning⟩ hclosed
  · intro hpending
    cases hopen : n.outputs.mediaOpen with
    | true => rfl
    | false => exact absurd (hmedia.sender hopen).2 hpending
  · exact hmedia.bytes

/-- In every interleaving of the driver's calls, cancelled flushes, retired epochs, the end of
the worker and the receives of the consumers. -/
theorem native_ports_deliver {limits : Limits} (hlimits : limits.validate = .ok ()) {epoch : Nat}
    {shown : List Shown} {n : Native} (hrun : Trace Delivery (ports limits epoch) shown n) :
    Delivered shown n := by
  have hevents : EventFlow shown n := hrun.invariant (eventFlow_ports limits epoch) EventFlow.step
  have hmedia : MediaFlow shown n := hrun.invariant (mediaFlow_ports limits epoch) MediaFlow.step
  exact .of_flows hlimits hevents hmedia (budgeted_run hrun)

/-- A worker that accepts an event and ends with an error: the run up to its end. -/
def failedPorts : Native :=
  { ports sampleLimits 0 with
    outputs := { (ports sampleLimits 0).outputs with sequence := 1 }
    worker := .settled ⟨[⟨0, .ready 0⟩], .error .cancelled⟩ }

private theorem failedPorts_run :
    Trace Delivery (ports sampleLimits 0) [.accepted ⟨0, .ready 0⟩, .nothing] failedPorts :=
  .next (.next .start (.event ⟨rfl, rfl⟩ rfl)) (.settle ⟨rfl, rfl⟩ (.error .cancelled))

theorem native_ports_deliver_failed :
    sampleLimits.validate = .ok () ∧
      Delivered [.accepted ⟨0, .ready 0⟩, .nothing] failedPorts :=
  ⟨by decide +kernel, native_ports_deliver (by decide +kernel) failedPorts_run⟩

private theorem silent_after_end {labels : List Shown} (hworker : n.worker ≠ .running)
    (hflush : n.flushing = none) (hmedia : n.media = [])
    (hrun : Trace Delivery n labels n') :
    n'.minEpoch = n.minEpoch ∧ deliveredMedia labels = [] := by
  have hsilent := hrun.invariant (I := fun labels n' => (n'.worker ≠ .running ∧
      n'.flushing = none ∧ n'.media = []) ∧ n'.minEpoch = n.minEpoch ∧ deliveredMedia labels = [])
    ⟨⟨hworker, hflush, hmedia⟩, rfl, rfl⟩ ?_
  · exact hsilent.2
  · rintro labels s label s' ⟨⟨hworker, hflush, hmedia⟩, hepoch, hnone⟩ hstep
    cases hstep with
    | event hfree | media hfree | receivedMedia hfree | receivedStale hfree | invalidate hfree
    | endMedia hfree | flush hfree | settle hfree | drop hfree => exact absurd hfree.1 hworker
    | ingress hrunning | permit hrunning | slot hrunning | bytes hrunning | sendEvent hrunning
    | sendMedia hrunning | sendReceived hrunning => exact absurd hrunning hworker
    | cancel hsome =>
      rw [hflush] at hsome
      cases hsome
    | discard =>
      exact ⟨⟨hworker, hflush, hmedia⟩, hepoch, by simpa [deliveredMedia] using hnone⟩
    | receive hreceive =>
      have hanswers := receive_answers hreceive
      refine ⟨⟨hanswers.worker ▸ hworker, ?_, hanswers.media.trans hmedia⟩,
        hanswers.minEpoch.trans hepoch, ?_⟩
      · exact hanswers.flushing.trans hflush
      · rw [deliveredMedia_append, hnone, hanswers.deliveredMedia]
        rfl
    | receiveMedia hreceive =>
      rcases receiveMedia_ok hreceive with ⟨packet, rest, hsome, -⟩ | ⟨-, -, rfl, rfl⟩
      · rw [hmedia] at hsome
        cases hsome
      · exact ⟨⟨hworker, hflush, hmedia⟩, hepoch, by simpa [deliveredMedia] using hnone⟩

def sampleChunk : MediaChunk where
  sessionId := "session"
  streamId := "stream"
  epoch := 0
  sequence := 0
  timestampUs := 0
  mediaType := "audio"
  bytes := [0]
  endOfStream := false

/-- A worker that accepts a chunk and ends with an error before a flush. -/
def unflushedPorts : Native :=
  { ports sampleLimits 0 with
    outputs := { (ports sampleLimits 0).outputs with
      mediaBytes := 1
      pendingMedia := [⟨sampleChunk, none⟩] }
    worker := .settled ⟨[], .error .cancelled⟩ }

/-- A worker that accepts an event and is dropped before a flush. -/
def droppedPorts : Native :=
  { ports sampleLimits 0 with
    outputs := { (ports sampleLimits 0).outputs with
      sequence := 1
      pendingEvents := [⟨0, .ready 0⟩] }
    worker := .dropped }

private theorem ended_keeps {labels : List Shown} (hworker : n.worker ≠ .running)
    (hflush : n.flushing = none) (hrun : Trace Delivery n labels n') :
    n'.outputs = n.outputs ∧ accepted labels = [] := by
  have hkept := hrun.invariant (I := fun labels n' => (n'.worker ≠ .running ∧
      n'.flushing = none) ∧ n'.outputs = n.outputs ∧ accepted labels = [])
    ⟨⟨hworker, hflush⟩, rfl, rfl⟩ ?_
  · exact hkept.2
  · rintro labels s label s' ⟨⟨hworker, hflush⟩, houtputs, hnone⟩ hstep
    cases hstep with
    | event hfree | media hfree | receivedMedia hfree | receivedStale hfree | invalidate hfree
    | endMedia hfree | flush hfree | settle hfree | drop hfree => exact absurd hfree.1 hworker
    | ingress hrunning | permit hrunning | slot hrunning | bytes hrunning | sendEvent hrunning
    | sendMedia hrunning | sendReceived hrunning => exact absurd hrunning hworker
    | cancel hsome =>
      rw [hflush] at hsome
      cases hsome
    | discard => exact ⟨⟨hworker, hflush⟩, houtputs, by simpa [accepted] using hnone⟩
    | receive hreceive =>
      have hanswers := receive_answers hreceive
      refine ⟨⟨hanswers.worker ▸ hworker, hanswers.flushing.trans hflush⟩,
        hanswers.outputs.trans houtputs, ?_⟩
      rw [accepted_append, hnone, hanswers.accepted]
      rfl
    | receiveMedia hreceive =>
      rcases receiveMedia_ok hreceive with
        ⟨packet, rest, -, rfl, ⟨-, rfl⟩ | ⟨-, rfl⟩⟩ | ⟨-, -, rfl, rfl⟩ <;>
        exact ⟨⟨hworker, hflush⟩, houtputs, by simpa [accepted] using hnone⟩

def tightLimits : Limits :=
  { sampleLimits with maxMediaChunkBytes := 1, maxBufferedMediaBytes := 1 }

def shortChunk : MediaChunk := { sampleChunk with bytes := [], endOfStream := true }

/-- A chunk of the driver's own waits for the byte that a later one has reserved. -/
def heldPorts : Native :=
  { ports tightLimits 0 with
    outputs := { (ports tightLimits 0).outputs with
      mediaBytes := 1
      pendingMedia := [⟨sampleChunk, none⟩, ⟨shortChunk, some 1⟩] }
    budget := ⟨0, maxBufferedChunks - 1, 1⟩ }

private theorem heldPorts_run : Trace Delivery (ports tightLimits 0)
    [.nothing, .acceptedMedia sampleChunk, .acceptedMedia shortChunk] heldPorts :=
  .next (.next (.next .start (@Delivery.ingress _ 1 _ rfl rfl)) (.media ⟨rfl, rfl⟩ rfl))
    (@Delivery.receivedMedia _ 1 shortChunk _ ⟨rfl, rfl⟩ List.mem_cons_self (Nat.le_refl _) rfl)

/-- Nothing can be sent before the first chunk is retired. -/
structure Held (n : Native) : Prop where
  pending : ∃ rest,
    n.outputs.pendingMedia = ⟨sampleChunk, none⟩ :: ⟨shortChunk, some 1⟩ :: rest
  media : n.media = []
  minEpoch : n.minEpoch = 0
  unreserved : ∀ f bytes, n.flushing = some f → f.reserving ≠ .reserved bytes

theorem Held.sent {f : Flush} {packet : PendingMedia} {rest : List PendingMedia}
    (h : Held n) (hflush : n.flushing = some f) (hfront : n.outputs.pendingMedia = packet :: rest)
    (hready : packet.reservation ≠ none ∨ ∃ bytes, f.reserving = .reserved bytes) : False := by
  obtain ⟨more, hpending⟩ := h.pending
  obtain ⟨rfl, -⟩ := List.cons.inj (hfront.symm.trans hpending)
  rcases hready with hne | ⟨bytes, hreserved⟩
  · exact hne rfl
  · exact h.unreserved f bytes hflush hreserved

theorem Held.full (h : Held n) (hbudget : Budgeted tightLimits n) : n.budget.bytes = 0 := by
  obtain ⟨rest, hpending⟩ := h.pending
  have hbytes := hbudget.within.bytes
  have hone : n.outputs.reservations = 1 :: rest.filterMap PendingMedia.reservation := by
    rw [Outputs.reservations, hpending]
    rfl
  simp only [Native.reserved, hone, List.sum_append, List.sum_cons] at hbytes
  simp only [tightLimits] at hbytes
  omega

theorem Held.step (h : Held n) (hbudget : Budgeted tightLimits n)
    (hstep : Delivery n label n') : (0 < n'.minEpoch ∨ Held n') ∧
      deliveredMedia [label] = [] := by
  have hkeep : ∀ {n' : Native} {label : Shown}, (∃ more, n'.outputs.pendingMedia =
      n.outputs.pendingMedia ++ more) → n'.media = n.media → n'.minEpoch = n.minEpoch →
      (n'.flushing = n.flushing ∨
        ∀ f, n'.flushing = some f → ∀ bytes, f.reserving ≠ .reserved bytes) →
      deliveredMedia [label] = [] → (0 < n'.minEpoch ∨ Held n') ∧
        deliveredMedia [label] = [] := by
    rintro n' label ⟨more, hmore⟩ hmedia hepoch hflush hnone
    refine ⟨.inr ⟨?_, hmedia.trans h.media, hepoch.trans h.minEpoch, ?_⟩, hnone⟩
    · obtain ⟨rest, hpending⟩ := h.pending
      exact ⟨rest ++ more, by rw [hmore, hpending]; rfl⟩
    · intro f bytes hsome
      rcases hflush with hsame | hfree
      · exact h.unreserved f bytes (hsame ▸ hsome)
      · exact hfree f hsome bytes
  have hsame : ∃ more, n.outputs.pendingMedia = n.outputs.pendingMedia ++ more :=
    ⟨[], (List.append_nil _).symm⟩
  have hqueued : ∀ {chunk : MediaChunk} {reservation : Option Nat} {outputs : Outputs},
      n.outputs.queueMedia n.minEpoch chunk reservation = .ok outputs →
        ∃ more, outputs.pendingMedia = n.outputs.pendingMedia ++ more := by
    intro chunk reservation outputs hqueue
    rcases queueMedia_ok hqueue with ⟨-, rfl⟩ | ⟨-, -, rfl⟩
    · exact hsame
    · exact ⟨_, rfl⟩
  cases hstep with
  | event hfree hevent =>
    obtain rfl := event_ok hevent
    exact hkeep hsame rfl rfl (.inl rfl) rfl
  | media hfree hmedia => exact hkeep (hqueued hmedia) rfl rfl (.inl rfl) rfl
  | receivedMedia hfree hmem hcurrent hmedia => exact hkeep (hqueued hmedia) rfl rfl (.inl rfl) rfl
  | receivedStale hfree hmem hstale hmedia => exact hkeep (hqueued hmedia) rfl rfl (.inl rfl) rfl
  | ingress | discard | endMedia | settle | drop => exact hkeep hsame rfl rfl (.inl rfl) rfl
  | @invalidate epoch hfree =>
    cases epoch with
    | zero =>
      refine hkeep ⟨[], ?_⟩ rfl (Nat.max_eq_left (Nat.zero_le _)) (.inl rfl) rfl
      simp [Outputs.invalidateBefore]
    | succ epoch => exact ⟨.inl (Nat.lt_of_lt_of_le epoch.succ_pos (Nat.le_max_right _ _)), rfl⟩
  | flush hfree =>
    refine hkeep hsame rfl rfl (.inr ?_) rfl
    intro f hsome bytes
    cases hsome
    simp
  | permit hrunning hflush =>
    refine hkeep hsame rfl rfl (.inr ?_) rfl
    intro f' hsome bytes hreserved
    cases hsome
    exact h.unreserved _ bytes hflush hreserved
  | slot hrunning hflush =>
    refine hkeep hsame rfl rfl (.inr ?_) rfl
    intro f hsome bytes
    cases hsome
    simp
  | bytes hrunning hflush hslot hfront hbytes =>
    obtain ⟨more, hpending⟩ := h.pending
    obtain ⟨rfl, -⟩ := List.cons.inj (hfront.symm.trans hpending)
    rw [h.full hbudget] at hbytes
    exact absurd hbytes (by decide)
  | sendEvent =>
    refine hkeep hsame rfl rfl (.inr ?_) rfl
    intro f hsome
    cases hsome
  | sendMedia hrunning hflush hreserved hfront =>
    exact (h.sent hflush hfront (.inr ⟨_, hreserved⟩)).elim
  | sendReceived hrunning hflush hfront hreservation =>
    exact (h.sent hflush hfront (.inl (by simp [hreservation]))).elim
  | cancel =>
    refine hkeep hsame rfl rfl (.inr ?_) rfl
    intro f hsome
    cases hsome
  | receive hreceive =>
    have hanswers := receive_answers hreceive
    exact hkeep (hanswers.outputs ▸ hsame) hanswers.media hanswers.minEpoch (.inl hanswers.flushing)
      hanswers.deliveredMedia
  | receiveMedia hreceive =>
    rcases receiveMedia_ok hreceive with ⟨packet, rest, hsome, -⟩ | ⟨-, -, rfl, rfl⟩
    · rw [h.media] at hsome
      cases hsome
    · exact hkeep hsame rfl rfl (.inl rfl) rfl

private theorem minEpoch_le (hstep : Delivery n label n') : n.minEpoch ≤ n'.minEpoch := by
  cases hstep with
  | invalidate => exact Nat.le_max_left _ _
  | receive hreceive => exact (receive_answers hreceive).minEpoch.ge
  | receiveMedia hreceive =>
    rcases receiveMedia_ok hreceive with ⟨packet, rest, -, rfl, -⟩ | ⟨-, -, rfl, -⟩ <;>
      exact Nat.le_refl _
  | _ => exact Nat.le_refl _

private theorem delivered_current {chunk : MediaChunk} (hstep : Delivery n label n')
    (hmem : chunk ∈ deliveredMedia [label]) : n.minEpoch ≤ chunk.epoch := by
  have hlabel : label = .deliveredMedia chunk := by
    unfold deliveredMedia at hmem
    cases label with
    | deliveredMedia chunk' => rw [List.mem_singleton.mp hmem]
    | _ => exact absurd hmem List.not_mem_nil
  subst hlabel
  cases hstep with
  | receive hreceive =>
    rcases receive_shown hreceive with ⟨event, hshown⟩ | ⟨error, hshown⟩ | hshown <;> cases hshown
  | receiveMedia hreceive =>
    rcases receiveMedia_ok hreceive with ⟨packet, rest, -, -, hanswer⟩ | ⟨-, -, -, hshown⟩
    · rcases hanswer with ⟨hcurrent, hshown⟩ | ⟨-, hshown⟩
      · cases hshown
        exact of_decide_eq_true hcurrent
      · cases hshown
    · cases hshown

private theorem held_run {labels : List Shown} (hrun : Trace Delivery heldPorts labels n) :
    sampleChunk ∉ deliveredMedia labels := by
  have hflow := (mediaFlow_ports tightLimits 0).trace heldPorts_run
  have hports := hrun.invariant (I := fun labels n => (0 < n.minEpoch ∨ Held n) ∧
    Budgeted tightLimits n ∧ (∃ shown, MediaFlow shown n) ∧ sampleChunk ∉ deliveredMedia labels)
    ⟨.inr ?_, budgeted_run heldPorts_run, ⟨_, hflow⟩, List.not_mem_nil⟩ ?_
  · exact hports.2.2.2
  · exact ⟨⟨[], rfl⟩, rfl, rfl, fun _ _ hnone => absurd hnone (by simp [heldPorts, ports])⟩
  · rintro labels s label s' ⟨hheld, hbudget, ⟨shown, hflow⟩, hnone⟩ hstep
    refine ⟨?_, hbudget.step hflow.bytes hstep, ⟨_, hflow.step hstep⟩, ?_⟩
    · rcases hheld with hretired | hheld
      · exact .inl (hretired.trans_le (minEpoch_le hstep))
      · exact (hheld.step hbudget hstep).1
    · rw [deliveredMedia_append, List.mem_append, not_or]
      refine ⟨hnone, fun hmem => ?_⟩
      rcases hheld with hretired | hheld
      · exact absurd (delivered_current hstep hmem) (Nat.not_le.mpr hretired)
      · rw [(hheld.step hbudget hstep).2] at hmem
        exact absurd hmem List.not_mem_nil

/-- A chunk that is pending at the end of its worker is never received, though its epoch is never
retired. Neither is an event that is pending when its worker is dropped, nor a chunk that waits for
what a later one has reserved. -/
theorem ports_hold_back :
    (∃ shown, Trace Delivery (ports sampleLimits 0) shown unflushedPorts ∧
      acceptedMedia shown = [sampleChunk] ∧
      ∀ labels n', Trace Delivery unflushedPorts labels n' →
        n'.current sampleChunk = true ∧ deliveredMedia (shown ++ labels) = []) ∧
    (∃ shown, Trace Delivery (ports sampleLimits 0) shown droppedPorts ∧
      accepted shown = [⟨0, .ready 0⟩] ∧
      ∀ labels n', Trace Delivery droppedPorts labels n' → delivered (shown ++ labels) = []) ∧
    ∃ shown, Trace Delivery (ports tightLimits 0) shown heldPorts ∧
      sampleChunk ∈ acceptedMedia shown ∧ heldPorts.worker = .running ∧
      ∀ labels n', Trace Delivery heldPorts labels n' →
        sampleChunk ∉ deliveredMedia (shown ++ labels) := by
  refine ⟨⟨[.acceptedMedia sampleChunk, .nothing], ?_, rfl, ?_⟩,
    ⟨[.accepted ⟨0, .ready 0⟩, .nothing], ?_, rfl, ?_⟩, ⟨_, heldPorts_run, ?_, rfl, ?_⟩⟩
  · exact .next (.next .start (.media ⟨rfl, rfl⟩ rfl)) (.settle ⟨rfl, rfl⟩ (.error .cancelled))
  · intro labels n' hrun
    obtain ⟨hepoch, hnone⟩ := silent_after_end (by simp [unflushedPorts]) rfl rfl hrun
    refine ⟨?_, ?_⟩
    · simp only [Native.current, hepoch]
      rfl
    · rw [deliveredMedia_append, hnone]
      rfl
  · exact .next (.next .start (.event ⟨rfl, rfl⟩ rfl)) (.drop ⟨rfl, rfl⟩)
  · intro labels n' hrun
    have hports : Trace Delivery (ports sampleLimits 0) [.accepted ⟨0, .ready 0⟩, .nothing]
        droppedPorts := .next (.next .start (.event ⟨rfl, rfl⟩ rfl)) (.drop ⟨rfl, rfl⟩)
    obtain ⟨houtputs, hquiet⟩ := ended_keeps (by simp [droppedPorts]) rfl hrun
    have honce := (((eventFlow_ports sampleLimits 0).trace hports).trace hrun).once
    have hlength := congrArg List.length honce
    rw [Native.inTransit, houtputs, List.nil_append, accepted_append, hquiet] at hlength
    simp only [List.length_append, accepted, droppedPorts, List.filterMap_cons, List.filterMap_nil,
      List.length_cons, List.length_nil] at hlength
    apply List.eq_nil_of_length_eq_zero
    omega
  · exact List.mem_cons_self
  · intro labels n' hrun
    rw [deliveredMedia_append]
    exact held_run hrun

end Zhir.Models
