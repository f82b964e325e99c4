import Zhir.Models.Native

/-!
The flow of events and of media through the ports, and what every step keeps of it.
-/

set_option autoImplicit false
set_option relaxedAutoImplicit false

namespace Zhir.Models

open Zhir.Core
open Zhir.Library (Trace)

def accepted (shown : List Shown) : List SessionEvent :=
  shown.filterMap fun
    | .accepted event => some event
    | _ => none

def delivered (shown : List Shown) : List SessionEvent :=
  shown.filterMap fun
    | .delivered event => some event
    | _ => none

def acceptedMedia (shown : List Shown) : List MediaChunk :=
  shown.filterMap fun
    | .acceptedMedia chunk => some chunk
    | _ => none

def deliveredMedia (shown : List Shown) : List MediaChunk :=
  shown.filterMap fun
    | .deliveredMedia chunk => some chunk
    | _ => none

def reported (shown : List Shown) : List Error :=
  shown.filterMap fun
    | .reported error => some error
    | _ => none

@[simp] theorem accepted_append (xs ys : List Shown) :
    accepted (xs ++ ys) = accepted xs ++ accepted ys := List.filterMap_append

@[simp] theorem delivered_append (xs ys : List Shown) :
    delivered (xs ++ ys) = delivered xs ++ delivered ys := List.filterMap_append

@[simp] theorem acceptedMedia_append (xs ys : List Shown) :
    acceptedMedia (xs ++ ys) = acceptedMedia xs ++ acceptedMedia ys := List.filterMap_append

@[simp] theorem deliveredMedia_append (xs ys : List Shown) :
    deliveredMedia (xs ++ ys) = deliveredMedia xs ++ deliveredMedia ys := List.filterMap_append

@[simp] theorem reported_append (xs ys : List Shown) :
    reported (xs ++ ys) = reported xs ++ reported ys := List.filterMap_append

def Worker.errors : Worker → List Error
  | .running => []
  | .settled ⟨_, .ok ()⟩ => []
  | .settled ⟨_, .error error⟩ => [error]
  | .dropped => [.uncertain "native session worker stopped without settlement"]

/-- The error that the consumer took over and was not answered yet. -/
def Consumer.owed (c : Consumer) : List Error :=
  match c.result with
  | some (.error error) => [error]
  | _ => []

/-- The events a worker handed over and the consumer did not take yet. -/
def Worker.handed (waiting : Bool) : Worker → List SessionEvent
  | .settled t => if waiting then t.events else []
  | _ => []

/-- The accepted events that were not delivered, in the order they are delivered in. -/
def Native.inTransit (n : Native) : List SessionEvent :=
  n.consumer.remaining ++ n.events ++ n.worker.handed n.consumer.waiting ++
    n.outputs.pendingEvents

def Native.queuedMedia (n : Native) : List MediaChunk :=
  n.media.map Buffered.value ++ n.outputs.pendingMedia.map PendingMedia.chunk

def Native.current (n : Native) (chunk : MediaChunk) : Bool := n.minEpoch ≤ chunk.epoch

/-- What the consumer was answered, by the state of the terminal port. -/
structure EventFlow (shown : List Shown) (n : Native) : Prop where
  once : delivered shown ++ n.inTransit = accepted shown
  sequences : (accepted shown).map SessionEvent.sequence = List.range n.outputs.sequence
  waiting : n.consumer.waiting = true →
    n.consumer.remaining = [] ∧ reported shown = [] ∧ .ended ∉ shown
  taken : n.consumer.waiting = false →
    n.events = [] ∧ n.worker ≠ .running ∧ reported shown ++ n.consumer.owed = n.worker.errors
  settled : (∃ t, n.worker = .settled t) → n.outputs.pendingEvents = []
  reports : reported shown ≠ [] → n.consumer.remaining = []
  ended : .ended ∈ shown → n.consumer.remaining = [] ∧ n.consumer.owed = []

variable {shown : List Shown} {n n' : Native} {label : Shown}

theorem EventFlow.keep (h : EventFlow shown n) (hsequence : n'.outputs.sequence =
      n.outputs.sequence) (hpending : n'.outputs.pendingEvents = n.outputs.pendingEvents)
    (hevents : n'.events = n.events) (hworker : n'.worker = n.worker)
    (hconsumer : n'.consumer = n.consumer) (haccepted : accepted [label] = [])
    (hdelivered : delivered [label] = []) (hreported : reported [label] = [])
    (hended : label ≠ .ended) : EventFlow (shown ++ [label]) n' := by
  have htransit : n'.inTransit = n.inTransit := by
    simp only [Native.inTransit, hevents, hpending, hworker, hconsumer]
  have hmem : .ended ∈ shown ++ [label] ↔ .ended ∈ shown := by
    rw [List.mem_append, List.mem_singleton]
    exact ⟨fun h => h.resolve_right fun heq => hended heq.symm, .inl⟩
  constructor
  · simpa [hdelivered, haccepted, htransit] using h.once
  · simpa [haccepted, hsequence] using h.sequences
  · simpa only [hconsumer, reported_append, hreported, List.append_nil, hmem] using h.waiting
  · simpa only [hconsumer, hevents, hworker, reported_append, hreported, List.append_nil]
      using h.taken
  · simpa only [hworker, hpending] using h.settled
  · simpa only [hconsumer, reported_append, hreported, List.append_nil] using h.reports
  · simpa only [hconsumer, hmem] using h.ended

theorem queueMedia_ok {minEpoch : Nat} {chunk : MediaChunk} {reservation : Option Nat}
    {o o' : Outputs} (h : o.queueMedia minEpoch chunk reservation = .ok o') :
    (chunk.epoch < minEpoch ∧ o' = o) ∨
      (minEpoch ≤ chunk.epoch ∧ o.mediaEnding = false ∧
        o' = { o with
          mediaBytes := o.mediaBytes + chunk.bytes.length
          pendingMedia := o.pendingMedia ++ [⟨chunk, reservation⟩] }) := by
  unfold Outputs.queueMedia at h
  obtain ⟨⟨⟩, -, h⟩ := Result.bind_ok h
  split at h
  · rename_i hstale
    cases h
    exact .inl ⟨hstale, rfl⟩
  · rename_i hcurrent
    obtain ⟨⟨⟩, hopen, h⟩ := Result.bind_ok h
    obtain ⟨⟨⟩, -, h⟩ := Result.bind_ok h
    cases h
    exact .inr ⟨Nat.not_lt.mp hcurrent, by simpa using require_ok hopen, rfl⟩

theorem queueMedia_events {minEpoch : Nat} {chunk : MediaChunk} {reservation : Option Nat}
    {o o' : Outputs} (h : o.queueMedia minEpoch chunk reservation = .ok o') :
    o'.sequence = o.sequence ∧ o'.pendingEvents = o.pendingEvents := by
  rcases queueMedia_ok h with ⟨-, rfl⟩ | ⟨-, -, rfl⟩ <;> exact ⟨rfl, rfl⟩

theorem event_ok {body : SessionEventBody} {o o' : Outputs} (h : o.event body = .ok o') :
    o' = { o with
      sequence := o.sequence + 1
      pendingEvents := o.pendingEvents ++ [⟨o.sequence, body⟩] } := by
  obtain ⟨⟨⟩, -, h⟩ := Result.bind_ok h
  obtain ⟨⟨⟩, -, h⟩ := Result.bind_ok h
  cases h
  rfl

theorem next_spec (c : Consumer) :
    (∃ event, c.remaining = event :: c.next.2.remaining ∧ c.next.1 = .delivered event ∧
      c.next.2.result = c.result ∧ c.next.2.waiting = c.waiting) ∨
    (∃ error, c.remaining = [] ∧ c.owed = [error] ∧
      c.next = (.reported error, { c with result := none })) ∨
    (c.remaining = [] ∧ c.owed = [] ∧ c.next.1 = .ended ∧
      c.next.2 = { c with result := none }) := by
  obtain ⟨waiting, remaining, result⟩ := c
  cases remaining with
  | cons event rest => exact .inl ⟨event, rfl, rfl, rfl, rfl⟩
  | nil =>
    match result with
    | some (.error error) => exact .inr (.inl ⟨error, rfl, rfl, rfl⟩)
    | some (.ok ()) => exact .inr (.inr ⟨rfl, rfl, rfl, rfl⟩)
    | none => exact .inr (.inr ⟨rfl, rfl, rfl, rfl⟩)

theorem EventFlow.next (h : EventFlow shown n) (htaken : n.consumer.waiting = false) :
    EventFlow (shown ++ [n.consumer.next.1]) { n with consumer := n.consumer.next.2 } := by
  obtain ⟨hevents, hworker, hreported⟩ := h.taken htaken
  have honce := h.once
  rcases next_spec n.consumer with ⟨event, hremaining, hnext, hresult, hwaiting⟩ |
    ⟨error, hremaining, howed, hnext⟩ | ⟨hremaining, howed, hnext, hafter⟩
  · have hreports : reported shown = [] := by
      by_contra hne
      rw [h.reports hne] at hremaining
      cases hremaining
    have hended : .ended ∉ shown := by
      intro hmem
      rw [(h.ended hmem).1] at hremaining
      cases hremaining
    have howed : n.consumer.next.2.owed = n.consumer.owed := by
      unfold Consumer.owed
      rw [hresult]
    rw [hnext]
    constructor
    · simp only [Native.inTransit, hremaining, hwaiting] at honce ⊢
      simpa [delivered, accepted] using honce
    · simpa [accepted] using h.sequences
    · intro hwait
      rw [hwaiting, htaken] at hwait
      cases hwait
    · intro _
      exact ⟨hevents, hworker, by simpa [reported, howed] using hreported⟩
    · exact h.settled
    · intro hne
      exact absurd (by simpa [reported] using hreports) hne
    · intro hmem
      simp [hended] at hmem
  · rw [hnext]
    constructor
    · simp only [Native.inTransit, hremaining] at honce ⊢
      simpa [delivered, accepted] using honce
    · simpa [accepted] using h.sequences
    · intro hwait
      simp [htaken] at hwait
    · intro _
      refine ⟨hevents, hworker, ?_⟩
      rw [howed] at hreported
      simpa [reported, Consumer.owed] using hreported
    · exact h.settled
    · exact fun _ => hremaining
    · exact fun _ => ⟨hremaining, rfl⟩
  · rw [hnext, hafter]
    constructor
    · simp only [Native.inTransit, hremaining] at honce ⊢
      simpa [delivered, accepted] using honce
    · simpa [accepted] using h.sequences
    · intro hwait
      simp [htaken] at hwait
    · intro _
      refine ⟨hevents, hworker, ?_⟩
      rw [howed] at hreported
      simpa [reported, Consumer.owed] using hreported
    · exact h.settled
    · exact fun _ => hremaining
    · exact fun _ => ⟨hremaining, rfl⟩

theorem EventFlow.take (h : EventFlow shown n) (hwaiting : n.consumer.waiting = true)
    (hevents : n.events = []) {t : Terminal} (hworker : n.worker = .settled t) :
    EventFlow shown { n with consumer := ⟨false, t.events, some t.result⟩ } := by
  obtain ⟨hremaining, hreported, hended⟩ := h.waiting hwaiting
  have honce := h.once
  constructor
  · simpa [Native.inTransit, Worker.handed, hremaining, hevents, hworker, hwaiting] using honce
  · exact h.sequences
  · intro hfalse
    cases hfalse
  · intro _
    refine ⟨hevents, by simp [hworker], ?_⟩
    obtain ⟨events, result⟩ := t
    rw [hreported, hworker]
    match result with
    | .ok () => rfl
    | .error _ => rfl
  · exact h.settled
  · exact fun hne => absurd hreported hne
  · exact fun hmem => absurd hmem hended

theorem EventFlow.receive (h : EventFlow shown n)
    (hreceive : n.receive = some (label, n')) : EventFlow (shown ++ [label]) n' := by
  unfold Native.receive at hreceive
  split at hreceive
  · rename_i hwaiting
    obtain ⟨hremaining, hreported, hended⟩ := h.waiting hwaiting
    have honce := h.once
    split at hreceive
    · rename_i event rest hevents
      cases hreceive
      constructor
      · simp only [Native.inTransit, hremaining, hevents] at honce ⊢
        simpa [delivered, accepted] using honce
      · simpa [accepted] using h.sequences
      · exact fun _ => ⟨hremaining, by simpa [reported] using hreported, by simpa using hended⟩
      · intro hfalse
        rw [hwaiting] at hfalse
        cases hfalse
      · exact h.settled
      · exact fun _ => hremaining
      · exact fun hmem => absurd hmem (by simpa using hended)
    · rename_i hevents
      split at hreceive
      · cases hreceive
      · rename_i t hworker
        cases hreceive
        exact (h.take hwaiting hevents hworker).next rfl
      · rename_i hworker
        cases hreceive
        constructor
        · simp only [Native.inTransit, Worker.handed, hremaining, hevents, hworker] at honce ⊢
          simpa [delivered, accepted] using honce
        · simpa [accepted] using h.sequences
        · intro hfalse
          cases hfalse
        · intro _
          refine ⟨hevents, by simp [hworker], ?_⟩
          simp [reported, hworker, Worker.errors, Consumer.owed] at hreported ⊢
          exact hreported
        · exact h.settled
        · exact fun _ => rfl
        · exact fun _ => ⟨rfl, rfl⟩
  · rename_i hwaiting
    cases hreceive
    exact h.next (by simpa using hwaiting)

theorem receiveMedia_ok (h : n.receiveMedia = some (label, n')) :
    (∃ packet rest, n.media = packet :: rest ∧
      n' = { n with media := rest, budget := n.budget.release packet.reservation } ∧
      ((n.current packet.value = true ∧ label = .deliveredMedia packet.value) ∨
        (n.current packet.value = false ∧ label = .nothing))) ∨
    (n.media = [] ∧ ¬ (n.outputs.mediaOpen ∧ n.worker = .running) ∧ n' = n ∧
      label = .mediaEnded) := by
  unfold Native.receiveMedia at h
  split at h
  · rename_i packet rest hmedia
    dsimp only at h
    split at h
    · rename_i hcurrent
      cases h
      exact .inl ⟨packet, rest, hmedia, rfl, .inl ⟨decide_eq_true hcurrent, rfl⟩⟩
    · rename_i hretired
      cases h
      exact .inl ⟨packet, rest, hmedia, rfl, .inr ⟨decide_eq_false hretired, rfl⟩⟩
  · rename_i hmedia
    split at h
    · cases h
    · rename_i hclosed
      cases h
      exact .inr ⟨hmedia, hclosed, rfl, rfl⟩

theorem EventFlow.untaken (h : EventFlow shown n) (hrunning : n.worker = .running) :
    n.consumer.waiting = true := by
  cases hwaiting : n.consumer.waiting with
  | true => rfl
  | false => exact absurd hrunning (h.taken hwaiting).2.1

theorem EventFlow.proceed (h : EventFlow shown n) (hrunning : n.worker = .running)
    (hconsumer : n'.consumer = n.consumer)
    (htransit : n'.inTransit = n.inTransit ++ accepted [label])
    (hsequences : (accepted (shown ++ [label])).map SessionEvent.sequence =
      List.range n'.outputs.sequence)
    (hsettled : (∃ t, n'.worker = .settled t) → n'.outputs.pendingEvents = [])
    (hdelivered : delivered [label] = []) (hreported : reported [label] = [])
    (hended : label ≠ .ended) : EventFlow (shown ++ [label]) n' := by
  have hwaiting := h.untaken hrunning
  obtain ⟨hremaining, hnone, hnot⟩ := h.waiting hwaiting
  have hnone' : reported (shown ++ [label]) = [] := by
    rw [reported_append, hnone, hreported]
    rfl
  have hnot' : .ended ∉ shown ++ [label] := by
    rw [List.mem_append, List.mem_singleton]
    exact fun hmem => hmem.elim hnot fun heq => hended heq.symm
  constructor
  · rw [delivered_append, accepted_append, hdelivered, htransit, ← h.once]
    simp
  · exact hsequences
  · exact fun _ => ⟨hconsumer ▸ hremaining, hnone', hnot'⟩
  · intro htaken
    rw [hconsumer, hwaiting] at htaken
    cases htaken
  · exact hsettled
  · exact fun hne => absurd hnone' hne
  · exact fun hmem => absurd hmem hnot'

theorem EventFlow.step (h : EventFlow shown n) (hstep : Delivery n label n') :
    EventFlow (shown ++ [label]) n' := by
  have hquiet : accepted shown ++ [] = accepted shown := List.append_nil _
  have hrunning_ne : ∀ {n : Native}, n.worker = .running → ¬ ∃ t, n.worker = .settled t := by
    rintro n hrunning ⟨t, hsettled⟩
    rw [hrunning] at hsettled
    cases hsettled
  cases hstep with
  | event hfree hevent =>
    obtain rfl := event_ok hevent
    refine h.proceed hfree.1 rfl ?_ ?_ ?_ rfl rfl (by simp)
    · simp [Native.inTransit, accepted]
    · rw [accepted_append, List.map_append, h.sequences, List.range_succ]
      rfl
    · exact fun hsettled => absurd hsettled (hrunning_ne hfree.1)
  | sendEvent hrunning _ _ hfront =>
    refine h.proceed hrunning rfl ?_ ?_ ?_ rfl rfl (by simp)
    · simp [Native.inTransit, Native.sendEvent, Outputs.flushedEvent, Worker.handed, accepted,
        hfront, hrunning]
    · rw [accepted_append]
      exact (congrArg _ hquiet).trans h.sequences
    · exact fun hsettled => absurd hsettled (hrunning_ne hrunning)
  | settle hfree result =>
    refine h.proceed hfree.1 rfl ?_ ?_ (fun _ => rfl) rfl rfl (by simp)
    · simp [Native.inTransit, Worker.handed, accepted, hfree.1, h.untaken hfree.1]
    · rw [accepted_append]
      exact (congrArg _ hquiet).trans h.sequences
  | drop hfree =>
    refine h.proceed hfree.1 rfl ?_ ?_ ?_ rfl rfl (by simp)
    · simp [Native.inTransit, Worker.handed, accepted, hfree.1]
    · rw [accepted_append]
      exact (congrArg _ hquiet).trans h.sequences
    · rintro ⟨t, hsettled⟩
      cases hsettled
  | media _ hmedia =>
    obtain ⟨hsequence, hpending⟩ := queueMedia_events hmedia
    exact h.keep hsequence hpending rfl rfl rfl rfl rfl rfl (by simp)
  | receivedMedia _ _ _ hmedia | receivedStale _ _ _ hmedia =>
    obtain ⟨hsequence, hpending⟩ := queueMedia_events hmedia
    exact h.keep hsequence hpending rfl rfl rfl rfl rfl rfl (by simp)
  | ingress | discard | invalidate | endMedia | flush | permit | slot | bytes | sendMedia
  | sendReceived | cancel => exact h.keep rfl rfl rfl rfl rfl rfl rfl rfl (by simp)
  | receive hreceive => exact h.receive hreceive
  | receiveMedia hreceive =>
    rcases receiveMedia_ok hreceive with
      ⟨packet, rest, -, rfl, ⟨-, rfl⟩ | ⟨-, rfl⟩⟩ | ⟨-, -, rfl, rfl⟩ <;>
      exact h.keep rfl rfl rfl rfl rfl rfl rfl rfl (by simp)

theorem eventFlow_ports (limits : Limits) (epoch : Nat) : EventFlow [] (ports limits epoch) := by
  constructor
  · rfl
  · rfl
  · exact fun _ => ⟨rfl, rfl, List.not_mem_nil⟩
  · intro hfalse
    cases hfalse
  · exact fun _ => rfl
  · exact fun _ => rfl
  · exact fun hmem => absurd hmem List.not_mem_nil

/-- Chunks on their way, and the driver's count of their bytes. -/
structure MediaFlow (shown : List Shown) (n : Native) : Prop where
  once : (deliveredMedia shown ++ n.queuedMedia).Sublist (acceptedMedia shown)
  kept : (acceptedMedia shown).filter n.current =
    (deliveredMedia shown ++ n.queuedMedia).filter n.current
  bytes : n.outputs.mediaBytes = n.outputs.pendingSize
  sender : n.outputs.mediaOpen = false →
    n.outputs.mediaEnding = true ∧ n.outputs.pendingMedia = []
  ended : .mediaEnded ∈ shown →
    n.media = [] ∧ ¬ (n.outputs.mediaOpen ∧ n.worker = .running)

theorem MediaFlow.keep (h : MediaFlow shown n) (hmedia : n'.media = n.media)
    (hpending : n'.outputs.pendingMedia = n.outputs.pendingMedia)
    (hbytes : n'.outputs.mediaBytes = n.outputs.mediaBytes)
    (hopen : n'.outputs.mediaOpen = n.outputs.mediaOpen)
    (hending : n'.outputs.mediaEnding = n.outputs.mediaEnding)
    (hepoch : n'.minEpoch = n.minEpoch)
    (hworker : n'.worker = .running → n.worker = .running)
    (haccepted : acceptedMedia [label] = []) (hdelivered : deliveredMedia [label] = [])
    (hended : label ≠ .mediaEnded) : MediaFlow (shown ++ [label]) n' := by
  have hqueued : n'.queuedMedia = n.queuedMedia := by
    simp only [Native.queuedMedia, hmedia, hpending]
  have hcurrent : n'.current = n.current := by
    funext chunk
    simp only [Native.current, hepoch]
  constructor
  · simpa [hqueued, haccepted, hdelivered] using h.once
  · simpa [hqueued, hcurrent, haccepted, hdelivered] using h.kept
  · simpa [Outputs.pendingSize, hbytes, hpending] using h.bytes
  · simpa [hopen, hending, hpending] using h.sender
  · intro hmem
    have hmem : .mediaEnded ∈ shown := by
      rw [List.mem_append, List.mem_singleton] at hmem
      exact hmem.resolve_right fun heq => hended heq.symm
    obtain ⟨hnil, hclosed⟩ := h.ended hmem
    refine ⟨hmedia.trans hnil, fun hboth => hclosed ⟨hopen ▸ hboth.1, hworker hboth.2⟩⟩

theorem MediaFlow.accept (h : MediaFlow shown n) {chunk : MediaChunk} {reservation : Option Nat}
    {outputs : Outputs} (hrunning : n.worker = .running)
    (hqueue : n.outputs.queueMedia n.minEpoch chunk reservation = .ok outputs)
    (houtputs : n'.outputs = outputs) (hmedia : n'.media = n.media)
    (hepoch : n'.minEpoch = n.minEpoch) (hworker : n'.worker = n.worker) :
    MediaFlow (shown ++ [.acceptedMedia chunk]) n' := by
  have hcurrent : n'.current = n.current := by
    funext chunk
    simp only [Native.current, hepoch]
  have hmem : .mediaEnded ∈ shown ++ [.acceptedMedia chunk] ↔ .mediaEnded ∈ shown := by simp
  have haccepted : acceptedMedia (shown ++ [.acceptedMedia chunk]) =
      acceptedMedia shown ++ [chunk] := acceptedMedia_append _ _
  have hdelivered : deliveredMedia (shown ++ [.acceptedMedia chunk]) = deliveredMedia shown := by
    rw [deliveredMedia_append]
    exact List.append_nil _
  rcases queueMedia_ok hqueue with ⟨hstale, rfl⟩ | ⟨hfresh, hopen, rfl⟩
  · have hqueued : n'.queuedMedia = n.queuedMedia := by
      simp only [Native.queuedMedia, hmedia, houtputs]
    have hretired : n.current chunk = false := decide_eq_false (Nat.not_le.mpr hstale)
    constructor
    · rw [haccepted, hdelivered, hqueued]
      exact h.once.trans (List.sublist_append_left _ _)
    · rw [haccepted, hdelivered, hqueued, hcurrent, List.filter_append, ← h.kept]
      simp [hretired]
    · rw [houtputs]
      exact h.bytes
    · rw [houtputs]
      exact h.sender
    · rw [hmem, hmedia, houtputs, hworker]
      exact h.ended
  · have hqueued : n'.queuedMedia = n.queuedMedia ++ [chunk] := by
      simp [Native.queuedMedia, hmedia, houtputs]
    have hsender : n.outputs.mediaOpen = true := by
      cases hclosed : n.outputs.mediaOpen with
      | true => rfl
      | false =>
        rw [(h.sender hclosed).1] at hopen
        cases hopen
    constructor
    · rw [haccepted, hdelivered, hqueued, ← List.append_assoc]
      exact h.once.append (List.Sublist.refl _)
    · have hsplit : (deliveredMedia shown ++ (n.queuedMedia ++ [chunk])).filter n.current =
          (deliveredMedia shown ++ n.queuedMedia).filter n.current ++ [chunk].filter n.current := by
        rw [← List.append_assoc, List.filter_append]
      rw [haccepted, hdelivered, hqueued, hcurrent, hsplit, ← h.kept, List.filter_append]
    · simp [houtputs, Outputs.pendingSize, h.bytes]
    · intro hclosed
      rw [houtputs] at hclosed
      exact absurd (hsender.symm.trans hclosed) (by simp)
    · rw [hmem]
      intro hended
      exact absurd ⟨hsender, hrunning⟩ (h.ended hended).2

theorem MediaFlow.invalidate (h : MediaFlow shown n) (epoch : Nat)
    (hmedia : n'.media = n.media) (houtputs : n'.outputs = n.outputs.invalidateBefore epoch)
    (hepoch : n'.minEpoch = max n.minEpoch epoch) (hworker : n'.worker = n.worker) :
    MediaFlow (shown ++ [.nothing]) n' := by
  have hkept : ∀ chunks : List MediaChunk,
      chunks.filter n'.current = (chunks.filter n.current).filter n'.current := by
    intro chunks
    rw [List.filter_filter]
    apply List.filter_congr
    intro chunk _
    simp only [Native.current, hepoch]
    by_cases hcurrent : max n.minEpoch epoch ≤ chunk.epoch
    · have hle : n.minEpoch ≤ chunk.epoch := by omega
      simp [hcurrent, hle]
    · simp [hcurrent]
  have hpending : ((n.outputs.pendingMedia.filter fun p => epoch ≤ p.chunk.epoch).map
      PendingMedia.chunk).filter n'.current =
        (n.outputs.pendingMedia.map PendingMedia.chunk).filter n'.current := by
    rw [List.filter_map, List.filter_map, List.filter_filter]
    congr 1
    apply List.filter_congr
    intro p _
    simp only [Native.current, hepoch, Function.comp]
    by_cases hcurrent : max n.minEpoch epoch ≤ p.chunk.epoch
    · have hle : epoch ≤ p.chunk.epoch := by omega
      simp [hcurrent, hle]
    · simp [hcurrent]
  have hqueued : n'.queuedMedia = n.media.map Buffered.value ++
      (n.outputs.pendingMedia.filter fun p => epoch ≤ p.chunk.epoch).map PendingMedia.chunk := by
    simp only [Native.queuedMedia, hmedia, houtputs, Outputs.invalidateBefore]
  have hsilent : deliveredMedia (shown ++ [.nothing]) = deliveredMedia shown ∧
      acceptedMedia (shown ++ [.nothing]) = acceptedMedia shown := by
    simp [deliveredMedia, acceptedMedia]
  have hmem : .mediaEnded ∈ shown ++ [.nothing] ↔ .mediaEnded ∈ shown := by simp
  constructor
  · rw [hsilent.1, hsilent.2, hqueued]
    refine List.Sublist.trans ?_ h.once
    refine (List.Sublist.refl _).append ((List.Sublist.refl _).append ?_)
    exact List.filter_sublist.map _
  · rw [hsilent.1, hsilent.2, hqueued, hkept, h.kept, ← hkept]
    simp only [Native.queuedMedia, List.filter_append, hpending]
  · rw [houtputs]
    rfl
  · rw [houtputs]
    intro hclosed
    obtain ⟨hending, hnil⟩ := h.sender hclosed
    exact ⟨hending, by simp [Outputs.invalidateBefore, hnil]⟩
  · rw [hmem, hmedia, houtputs, hworker]
    exact h.ended

theorem MediaFlow.send (h : MediaFlow shown n) {packet : PendingMedia} {rest : List PendingMedia}
    (bytes : Nat) (hfront : n.outputs.pendingMedia = packet :: rest)
    (hrunning : n.worker = .running) :
    MediaFlow (shown ++ [.nothing]) (n.sendMedia packet bytes rest) := by
  have hqueued : (n.sendMedia packet bytes rest).queuedMedia = n.queuedMedia := by
    simp [Native.sendMedia, Outputs.flushedMedia, Native.queuedMedia, hfront]
  have hsilent : deliveredMedia (shown ++ [.nothing]) = deliveredMedia shown ∧
      acceptedMedia (shown ++ [.nothing]) = acceptedMedia shown := by
    simp [deliveredMedia, acceptedMedia]
  have hmem : .mediaEnded ∈ shown ++ [.nothing] ↔ .mediaEnded ∈ shown := by simp
  have hopen : n.outputs.mediaOpen = true := by
    cases hclosed : n.outputs.mediaOpen with
    | true => rfl
    | false =>
      rw [(h.sender hclosed).2] at hfront
      cases hfront
  constructor
  · rw [hsilent.1, hsilent.2, hqueued]
    exact h.once
  · rw [hsilent.1, hsilent.2, hqueued]
    exact h.kept
  · have hbytes := h.bytes
    simp only [Outputs.pendingSize, hfront, List.map_cons, List.sum_cons] at hbytes
    simp [Native.sendMedia, Outputs.flushedMedia, Outputs.pendingSize, hbytes]
  · intro hclosed
    simpa [Native.sendMedia, Outputs.flushedMedia, hopen] using hclosed
  · rw [hmem]
    intro hended
    exact absurd ⟨hopen, hrunning⟩ (h.ended hended).2

theorem MediaFlow.receive (h : MediaFlow shown n)
    (hreceive : n.receiveMedia = some (label, n')) : MediaFlow (shown ++ [label]) n' := by
  rcases receiveMedia_ok hreceive with
    ⟨packet, rest, hmedia, rfl, hanswer⟩ | ⟨hmedia, hclosed, rfl, rfl⟩
  · have hqueued : n.queuedMedia = packet.value ::
        (rest.map Buffered.value ++ n.outputs.pendingMedia.map PendingMedia.chunk) := by
      simp [Native.queuedMedia, hmedia]
    have honce := h.once
    have hkept := h.kept
    have hended : .mediaEnded ∉ shown := by
      intro hmem
      rw [(h.ended hmem).1] at hmedia
      cases hmedia
    rw [hqueued] at honce hkept
    rcases hanswer with ⟨hcurrent, rfl⟩ | ⟨hretired, rfl⟩
    · constructor
      · simpa [deliveredMedia, acceptedMedia, Native.queuedMedia] using honce
      · change (acceptedMedia (shown ++ [_])).filter n.current =
          (deliveredMedia (shown ++ [_]) ++ (rest.map Buffered.value ++
            n.outputs.pendingMedia.map PendingMedia.chunk)).filter n.current
        rw [acceptedMedia_append, deliveredMedia_append]
        simpa [acceptedMedia, deliveredMedia] using hkept
      · exact h.bytes
      · exact h.sender
      · intro hmem
        exact absurd (by simpa using hmem) hended
    · constructor
      · have hdropped : (deliveredMedia shown ++
            (rest.map Buffered.value ++ n.outputs.pendingMedia.map PendingMedia.chunk)).Sublist
            (acceptedMedia shown) :=
          ((List.Sublist.refl _).append (List.sublist_cons_self _ _)).trans honce
        simpa [deliveredMedia, acceptedMedia, Native.queuedMedia] using hdropped
      · rw [List.filter_append, List.filter_cons_of_neg (by simp [hretired]),
          ← List.filter_append] at hkept
        change (acceptedMedia (shown ++ [_])).filter n.current =
          (deliveredMedia (shown ++ [_]) ++ (rest.map Buffered.value ++
            n.outputs.pendingMedia.map PendingMedia.chunk)).filter n.current
        rw [acceptedMedia_append, deliveredMedia_append]
        simpa [acceptedMedia, deliveredMedia] using hkept
      · exact h.bytes
      · exact h.sender
      · intro hmem
        exact absurd (by simpa using hmem) hended
  · constructor
    · simpa [deliveredMedia, acceptedMedia] using h.once
    · simpa [deliveredMedia, acceptedMedia] using h.kept
    · exact h.bytes
    · exact h.sender
    · exact fun _ => ⟨hmedia, hclosed⟩

/-- What answers of the event port are about, and what they leave alone. -/
structure Answers (n : Native) (label : Shown) (n' : Native) : Prop where
  media : n'.media = n.media
  outputs : n'.outputs = n.outputs
  minEpoch : n'.minEpoch = n.minEpoch
  worker : n'.worker = n.worker
  capacity : n'.capacity = n.capacity
  flushing : n'.flushing = n.flushing
  budget : n'.budget = n.budget
  ingress : n'.ingress = n.ingress
  events : n'.events.length ≤ n.events.length
  accepted : accepted [label] = []
  acceptedMedia : acceptedMedia [label] = []
  deliveredMedia : deliveredMedia [label] = []
  unended : label ≠ .mediaEnded

theorem receive_answers (h : n.receive = some (label, n')) : Answers n label n' := by
  have hnext : ∀ c : Consumer, Answers n c.next.1 { n with consumer := c.next.2 } := by
    intro c
    rcases next_spec c with ⟨event, -, hshown, -⟩ | ⟨error, -, -, hshown⟩ | ⟨-, -, hshown, -⟩ <;>
      rw [hshown] <;>
      exact ⟨rfl, rfl, rfl, rfl, rfl, rfl, rfl, rfl, Nat.le_refl _, rfl, rfl, rfl, by simp⟩
  unfold Native.receive at h
  split at h
  · split at h
    · rename_i event rest hevents
      cases h
      refine ⟨rfl, rfl, rfl, rfl, rfl, rfl, rfl, rfl, ?_, rfl, rfl, rfl, by simp⟩
      rw [hevents]
      exact Nat.le_succ _
    · split at h
      · cases h
      · cases h
        exact hnext _
      · cases h
        exact ⟨rfl, rfl, rfl, rfl, rfl, rfl, rfl, rfl, Nat.le_refl _, rfl, rfl, rfl, by simp⟩
  · cases h
    exact hnext _

theorem MediaFlow.step (h : MediaFlow shown n) (hstep : Delivery n label n') :
    MediaFlow (shown ++ [label]) n' := by
  cases hstep with
  | media hfree hmedia => exact h.accept hfree.1 hmedia rfl rfl rfl rfl
  | receivedMedia hfree _ _ hmedia => exact h.accept hfree.1 hmedia rfl rfl rfl rfl
  | receivedStale hfree _ _ hmedia => exact h.accept hfree.1 hmedia rfl rfl rfl rfl
  | invalidate hfree => exact h.invalidate _ rfl rfl rfl rfl
  | endMedia hfree =>
    have hmem : .mediaEnded ∈ shown ++ [.nothing] ↔ .mediaEnded ∈ shown := by simp
    constructor
    · change (deliveredMedia (shown ++ [_]) ++ n.queuedMedia).Sublist (acceptedMedia (shown ++ [_]))
      simpa [deliveredMedia, acceptedMedia] using h.once
    · change (acceptedMedia (shown ++ [_])).filter n.current =
        (deliveredMedia (shown ++ [_]) ++ n.queuedMedia).filter n.current
      simpa [deliveredMedia, acceptedMedia] using h.kept
    · exact h.bytes
    · intro hclosed
      refine ⟨rfl, ?_⟩
      cases hopen : n.outputs.mediaOpen with
      | false => exact (h.sender hopen).2
      | true => simpa [Outputs.endMedia, hopen] using hclosed
    · rw [hmem]
      intro hended
      obtain ⟨hnil, hclosed⟩ := h.ended hended
      refine ⟨hnil, fun hboth => hclosed ⟨?_, hboth.2⟩⟩
      have hopen := hboth.1
      simp only [Outputs.endMedia, Bool.and_eq_true] at hopen
      exact hopen.1
  | sendMedia hrunning _ _ hfront => exact h.send _ hfront hrunning
  | sendReceived hrunning _ hfront _ => exact h.send _ hfront hrunning
  | event hfree hevent =>
    obtain rfl := event_ok hevent
    exact h.keep rfl rfl rfl rfl rfl rfl id rfl rfl (by simp)
  | ingress | discard | flush | permit | slot | bytes | sendEvent | cancel =>
    exact h.keep rfl rfl rfl rfl rfl rfl id rfl rfl (by simp)
  | settle | drop =>
    refine h.keep rfl rfl rfl rfl rfl rfl ?_ rfl rfl (by simp)
    intro hrunning
    cases hrunning
  | receive hreceive =>
    have hanswers := receive_answers hreceive
    have houtputs := hanswers.outputs
    exact h.keep hanswers.media (by rw [houtputs]) (by rw [houtputs]) (by rw [houtputs])
      (by rw [houtputs]) hanswers.minEpoch (fun hrunning => hanswers.worker ▸ hrunning)
      hanswers.acceptedMedia hanswers.deliveredMedia hanswers.unended
  | receiveMedia hreceive => exact h.receive hreceive

theorem mediaFlow_ports (limits : Limits) (epoch : Nat) : MediaFlow [] (ports limits epoch) := by
  constructor
  · exact List.Sublist.refl _
  · rfl
  · rfl
  · intro hclosed
    cases hclosed
  · exact fun hmem => absurd hmem List.not_mem_nil

theorem EventFlow.trace {labels : List Shown} (h : EventFlow shown n)
    (hrun : Trace Delivery n labels n') : EventFlow (shown ++ labels) n' := by
  induction hrun with
  | start => rwa [List.append_nil]
  | next _ hstep ih =>
    rw [← List.append_assoc]
    exact ih.step hstep

theorem MediaFlow.trace {labels : List Shown} (h : MediaFlow shown n)
    (hrun : Trace Delivery n labels n') : MediaFlow (shown ++ labels) n' := by
  induction hrun with
  | start => rwa [List.append_nil]
  | next _ hstep ih =>
    rw [← List.append_assoc]
    exact ih.step hstep

end Zhir.Models
