import Mathlib.Algebra.Order.BigOperators.Group.List
import Mathlib.Algebra.Order.Group.Nat
import Zhir.Models.Delivery

/-!
What the ports hold at most: the queues within their limits, and a budget whose permits are free
or reserved by the media between its receipt and its receiver.
-/

set_option autoImplicit false
set_option relaxedAutoImplicit false

namespace Zhir.Models

open Zhir.Core
open Zhir.Library (Trace)

/-- What a chunk has reserved, or has still to reserve before it is sent. -/
def PendingMedia.claim (p : PendingMedia) : Nat := p.reservation.getD p.chunk.bytes.length

def Outputs.reservations (o : Outputs) : List Nat :=
  o.pendingMedia.filterMap PendingMedia.reservation

/-- The reservations of packets at ingress, of pending chunks and of chunks in the channel. -/
def Native.reserved (n : Native) : List Nat :=
  n.ingress ++ n.outputs.reservations ++ n.media.map Buffered.reservation

def Flush.bytes (f : Flush) : Nat :=
  match f.reserving with
  | .reserved bytes => bytes
  | _ => 0

def Flush.slots (f : Flush) : Nat := if f.reserving = .waiting then 0 else 1

def Native.flushBytes (n : Native) : Nat := (n.flushing.map Flush.bytes).getD 0

def Native.flushSlots (n : Native) : Nat := (n.flushing.map Flush.slots).getD 0

/-- What the pending chunks have reserved and have still to reserve fits the budget. A chunk that
waits for bytes that a later one has reserved would wait for good. -/
def Native.Reservable (n : Native) : Prop :=
  (n.outputs.pendingMedia.map PendingMedia.claim).sum ≤ n.budget.limit

/-- The queues are within the limits of the session, and every permit is free or reserved. -/
structure Within (limits : Limits) (n : Native) : Prop where
  events : n.events.length ≤ limits.maxSessionEvents
  pendingEvents : n.outputs.pendingEvents.length ≤
    limits.maxSessionEvents + limits.maxControlCommands + 8
  mediaBytes : n.outputs.mediaBytes ≤ limits.maxBufferedMediaBytes
  pendingMedia : n.outputs.pendingMedia.length ≤ maxBufferedChunks
  bytes : n.budget.bytes + n.reserved.sum + n.flushBytes = limits.maxBufferedMediaBytes
  slots : n.budget.slots + n.reserved.length + n.flushSlots = maxBufferedChunks

structure Configured (limits : Limits) (n : Native) : Prop where
  capacity : n.capacity = limits.maxSessionEvents
  eventLimit : n.outputs.eventLimit =
    limits.maxSessionEvents + limits.maxControlCommands + 8
  mediaLimit : n.outputs.mediaLimit = limits.maxBufferedMediaBytes
  budget : n.budget.limit = limits.maxBufferedMediaBytes

/-- A flush holds what it may: a permit there is room for, and a reservation of the first chunk if
that has none. -/
structure Holding (n : Native) (f : Flush) : Prop where
  permit : f.permit = true → n.events.length < n.capacity
  reserving : f.reserving ≠ .waiting →
    ∃ packet rest, n.outputs.pendingMedia = packet :: rest ∧ packet.reservation = none

structure Budgeted (limits : Limits) (n : Native) : Prop where
  configured : Configured limits n
  holding : ∀ f, n.flushing = some f → Holding n f
  within : Within limits n

variable {limits : Limits} {shown : List Shown} {n n' : Native} {label : Shown}

@[simp] private theorem release_bytes (b : MediaBudget) (size : Nat) :
    (b.release size).bytes = b.bytes + size := rfl

@[simp] private theorem release_slots (b : MediaBudget) (size : Nat) :
    (b.release size).slots = b.slots + 1 := rfl

@[simp] private theorem release_limit (b : MediaBudget) (size : Nat) :
    (b.release size).limit = b.limit := rfl

private theorem flush_release (f : Flush) (b : MediaBudget) :
    (f.release b).bytes = b.bytes + f.bytes ∧ (f.release b).slots = b.slots + f.slots ∧
      (f.release b).limit = b.limit := by
  unfold Flush.release Flush.bytes Flush.slots
  cases f.reserving with
  | waiting => simp
  | slot => simp
  | reserved bytes => simp

private theorem releases (sizes : List Nat) (b : MediaBudget) :
    (sizes.foldl (fun b size => b.release size) b).bytes = b.bytes + sizes.sum ∧
      (sizes.foldl (fun b size => b.release size) b).slots = b.slots + sizes.length ∧
      (sizes.foldl (fun b size => b.release size) b).limit = b.limit := by
  induction sizes generalizing b with
  | nil => exact ⟨rfl, rfl, rfl⟩
  | cons size rest ih =>
    obtain ⟨hbytes, hslots, hlimit⟩ := ih (b.release size)
    simp only [List.foldl_cons, List.sum_cons, List.length_cons]
    exact ⟨by rw [hbytes, release_bytes]; omega, by rw [hslots, release_slots]; omega, hlimit⟩

private theorem tryReserve_ok {size : Nat} {b b' : MediaBudget} (h : b.tryReserve size = .ok b') :
    b'.bytes + size = b.bytes ∧ b'.slots + 1 = b.slots ∧ b'.limit = b.limit := by
  unfold MediaBudget.tryReserve at h
  obtain ⟨size', hsize, h⟩ := Result.bind_ok h
  obtain ⟨⟨⟩, hslots, h⟩ := Result.bind_ok h
  obtain ⟨⟨⟩, hbytes, h⟩ := Result.bind_ok h
  have hsize : size' = size := by
    obtain ⟨⟨⟩, -, hsize⟩ := Result.bind_ok hsize
    obtain ⟨⟨⟩, -, hsize⟩ := Result.bind_ok hsize
    cases hsize
    rfl
  have hslots := require_ok hslots
  have hbytes := require_ok hbytes
  cases h
  subst hsize
  exact ⟨by dsimp only; omega, by dsimp only; omega, rfl⟩

private theorem event_room {body : SessionEventBody} {o o' : Outputs} (h : o.event body = .ok o') :
    o.pendingEvents.length < o.eventLimit := by
  obtain ⟨⟨⟩, hroom, -⟩ := Result.bind_ok h
  have hroom := require_ok hroom
  omega

private theorem queueMedia_room {minEpoch : Nat} {chunk : MediaChunk} {reservation : Option Nat}
    {o o' : Outputs} (h : o.queueMedia minEpoch chunk reservation = .ok o')
    (hcurrent : minEpoch ≤ chunk.epoch) :
    o.mediaBytes + chunk.bytes.length ≤ max o.mediaBytes o.mediaLimit ∧
      o.pendingMedia.length < maxBufferedChunks := by
  unfold Outputs.queueMedia at h
  obtain ⟨⟨⟩, -, h⟩ := Result.bind_ok h
  rw [if_neg (Nat.not_lt.mpr hcurrent)] at h
  obtain ⟨⟨⟩, -, h⟩ := Result.bind_ok h
  obtain ⟨⟨⟩, hroom, -⟩ := Result.bind_ok h
  have hroom := require_ok hroom
  rw [not_or] at hroom
  omega

theorem Within.move (h : Within limits n) (hevents : n'.events.length ≤ n.events.length)
    (hpending : n'.outputs.pendingEvents.length ≤ n.outputs.pendingEvents.length)
    (hmedia : n'.outputs.mediaBytes ≤ n.outputs.mediaBytes)
    (hchunks : n'.outputs.pendingMedia.length ≤ n.outputs.pendingMedia.length)
    (hbytes : n'.budget.bytes + n'.reserved.sum + n'.flushBytes =
      n.budget.bytes + n.reserved.sum + n.flushBytes)
    (hslots : n'.budget.slots + n'.reserved.length + n'.flushSlots =
      n.budget.slots + n.reserved.length + n.flushSlots) : Within limits n' where
  events := hevents.trans h.events
  pendingEvents := hpending.trans h.pendingEvents
  mediaBytes := hmedia.trans h.mediaBytes
  pendingMedia := hchunks.trans h.pendingMedia
  bytes := hbytes.trans h.bytes
  slots := hslots.trans h.slots

theorem Holding.keep {f : Flush} (h : Holding n f)
    (hevents : n'.events.length ≤ n.events.length) (hcapacity : n'.capacity = n.capacity)
    (hpending : n'.outputs.pendingMedia = n.outputs.pendingMedia) : Holding n' f where
  permit hpermit := by
    rw [hcapacity]
    exact hevents.trans_lt (h.permit hpermit)
  reserving hreserving := by
    rw [hpending]
    exact h.reserving hreserving

private theorem unflushed (h : n.flushing = none) : n.flushBytes = 0 ∧ n.flushSlots = 0 := by
  simp only [Native.flushBytes, Native.flushSlots, h, Option.map_none, Option.getD_none, and_self]

theorem flushed {f : Flush} (h : n.flushing = some f) :
    n.flushBytes = f.bytes ∧ n.flushSlots = f.slots := by
  simp only [Native.flushBytes, Native.flushSlots, h, Option.map_some, Option.getD_some, and_self]

private theorem unheld (P : Flush → Prop) (h : n.flushing = none) :
    ∀ f, n.flushing = some f → P f := by
  intro f hsome
  rw [h] at hsome
  cases hsome

theorem Budgeted.send (h : Budgeted limits n) {f : Flush} {packet : PendingMedia}
    {rest : List PendingMedia} {bytes : Nat} (hflush : n.flushing = some f)
    (hfront : n.outputs.pendingMedia = packet :: rest)
    (hbytes : (packet.reservation.toList.sum + f.bytes = bytes))
    (hslots : packet.reservation.toList.length + f.slots = 1) :
    Budgeted limits (n.sendMedia packet bytes rest) := by
  obtain ⟨⟨hcapacity, hevents, hmedia, hlimit⟩, hholding, hwithin⟩ := h
  obtain ⟨hflushBytes, hflushSlots⟩ := flushed hflush
  have hreserved : n.outputs.reservations =
      packet.reservation.toList ++ rest.filterMap PendingMedia.reservation := by
    unfold Outputs.reservations
    rw [hfront, List.filterMap_cons]
    cases packet.reservation <;> rfl
  refine ⟨⟨hcapacity, hevents, hmedia, hlimit⟩, unheld _ rfl,
    hwithin.move le_rfl le_rfl ?_ ?_ ?_ ?_⟩
  · exact Nat.sub_le _ _
  · change rest.length ≤ n.outputs.pendingMedia.length
    rw [hfront]
    exact Nat.le_succ _
  · change n.budget.bytes + (n.ingress ++ rest.filterMap PendingMedia.reservation ++
      (n.media ++ [(⟨packet.chunk, bytes⟩ : Buffered)]).map Buffered.reservation).sum + 0 = _
    simp only [Native.reserved, hreserved, hflushBytes, List.sum_append, List.map_append,
      List.map_cons, List.map_nil, List.sum_cons, List.sum_nil]
    omega
  · change n.budget.slots + (n.ingress ++ rest.filterMap PendingMedia.reservation ++
      (n.media ++ [(⟨packet.chunk, bytes⟩ : Buffered)]).map Buffered.reservation).length + 0 = _
    simp only [Native.reserved, hreserved, hflushSlots, List.length_append, List.map_append,
      List.map_cons, List.map_nil, List.length_cons, List.length_nil]
    omega

private theorem reservations_retired (o : Outputs) (epoch : Nat) :
    o.reservations.Perm (((o.pendingMedia.filter fun p => ¬ epoch ≤ p.chunk.epoch).filterMap
      PendingMedia.reservation) ++ (o.invalidateBefore epoch).reservations) := by
  unfold Outputs.reservations Outputs.invalidateBefore
  rw [← List.filterMap_append]
  refine List.Perm.filterMap _ ?_
  have hsplit := List.filter_append_perm (fun p : PendingMedia => epoch ≤ p.chunk.epoch)
    o.pendingMedia
  simpa only [decide_not] using hsplit.symm.trans List.perm_append_comm

private theorem sum_filter_le (p : PendingMedia → Bool) (pending : List PendingMedia) :
    ((pending.filter p).map fun m => m.chunk.bytes.length).sum ≤
      (pending.map fun m => m.chunk.bytes.length).sum :=
  ((List.filter_sublist (p := p)).map _).sum_le_sum (by simp)

theorem Budgeted.keep (h : Budgeted limits n) (hcapacity : n'.capacity = n.capacity)
    (hlimits : n'.outputs.eventLimit = n.outputs.eventLimit ∧
      n'.outputs.mediaLimit = n.outputs.mediaLimit)
    (hbudget : n'.budget = n.budget) (hevents : n'.events.length ≤ n.events.length)
    (hpending : n'.outputs.pendingEvents.length ≤ n.outputs.pendingEvents.length)
    (hbytes : n'.outputs.mediaBytes = n.outputs.mediaBytes)
    (hchunks : n'.outputs.pendingMedia = n.outputs.pendingMedia)
    (hmedia : n'.media = n.media) (hingress : n'.ingress = n.ingress)
    (hflush : n'.flushing = n.flushing) : Budgeted limits n' := by
  obtain ⟨⟨hcap, heventLimit, hmediaLimit, hlimit⟩, hholding, hwithin⟩ := h
  have hreserved : n'.reserved = n.reserved := by
    simp only [Native.reserved, Outputs.reservations, hchunks, hmedia, hingress]
  refine ⟨⟨hcapacity.trans hcap, hlimits.1.trans heventLimit, hlimits.2.trans hmediaLimit, ?_⟩,
    ?_, ?_⟩
  · rw [hbudget]
    exact hlimit
  · intro f hsome
    exact (hholding f (hflush ▸ hsome)).keep hevents hcapacity hchunks
  · refine hwithin.move hevents hpending hbytes.le (by rw [hchunks]) ?_ ?_
    · simp only [hbudget, hreserved, Native.flushBytes, hflush]
    · simp only [hbudget, hreserved, Native.flushSlots, hflush]

theorem Budgeted.queue (h : Budgeted limits n) {chunk : MediaChunk}
    {reservation : Option Nat} {outputs : Outputs} {ingress : List Nat}
    (hflush : n.flushing = none)
    (hqueue : n.outputs.queueMedia n.minEpoch chunk reservation = .ok outputs)
    (hcurrent : n.minEpoch ≤ chunk.epoch)
    (hingress : n.ingress.Perm (reservation.toList ++ ingress)) :
    Budgeted limits { n with outputs, ingress } := by
  obtain ⟨⟨hcapacity, heventLimit, hmediaLimit, hlimit⟩, -, hwithin⟩ := h
  obtain ⟨hbytes, hslots⟩ := queueMedia_room hqueue hcurrent
  rcases queueMedia_ok hqueue with ⟨hstale, -⟩ | ⟨-, -, rfl⟩
  · exact absurd hcurrent (Nat.not_le.mpr hstale)
  · have hreserved : n.reserved.Perm (ingress ++
        (n.outputs.pendingMedia ++
          [(⟨chunk, reservation⟩ : PendingMedia)]).filterMap PendingMedia.reservation ++
          n.media.map Buffered.reservation) := by
      have hlast : ([⟨chunk, reservation⟩] : List PendingMedia).filterMap
          PendingMedia.reservation = reservation.toList := by
        cases reservation <;> rfl
      rw [List.filterMap_append, hlast]
      refine List.Perm.append_right _ ?_
      refine (hingress.append_right _).trans ?_
      rw [List.append_assoc, ← List.append_assoc ingress]
      exact List.perm_append_comm
    obtain ⟨hevents, hpending, hmediaBytes, -, hsum, hlength⟩ := hwithin
    refine ⟨⟨hcapacity, heventLimit, hmediaLimit, hlimit⟩, unheld _ hflush,
      hevents, hpending, ?_, ?_, ?_, ?_⟩
    · rw [hmediaLimit] at hbytes
      exact hbytes.trans (max_le hmediaBytes le_rfl)
    · rw [List.length_append]
      exact hslots
    · rw [hreserved.sum_eq] at hsum
      exact hsum
    · rw [hreserved.length_eq] at hlength
      exact hlength

theorem Budgeted.discard (h : Budgeted limits n) {size : Nat} (hmem : size ∈ n.ingress) :
    Budgeted limits
      { n with budget := n.budget.release size, ingress := n.ingress.erase size } := by
  obtain ⟨⟨hcapacity, heventLimit, hmediaLimit, hlimit⟩, hholding, hwithin⟩ := h
  have hingress := List.perm_cons_erase hmem
  have hreserved : n.reserved.Perm (size :: (n.ingress.erase size ++ n.outputs.reservations ++
      n.media.map Buffered.reservation)) :=
    (hingress.append_right _).append_right _
  refine ⟨⟨hcapacity, heventLimit, hmediaLimit, hlimit⟩,
    fun f hsome => (hholding f hsome).keep le_rfl rfl rfl,
    hwithin.move le_rfl le_rfl le_rfl le_rfl ?_ ?_⟩
  · rw [hreserved.sum_eq, List.sum_cons, release_bytes]
    change n.budget.bytes + size + _ + n.flushBytes = _
    simp only [Native.reserved]
    omega
  · rw [hreserved.length_eq, List.length_cons, release_slots]
    change n.budget.slots + 1 + _ + n.flushSlots = _
    simp only [Native.reserved]
    omega

theorem Budgeted.invalidate (h : Budgeted limits n) (hflush : n.flushing = none)
    (hsize : n.outputs.mediaBytes = n.outputs.pendingSize) (epoch : Nat) :
    Budgeted limits
      { n with
        minEpoch := max n.minEpoch epoch
        outputs := n.outputs.invalidateBefore epoch
        budget := ((n.outputs.pendingMedia.filter fun p => ¬ epoch ≤ p.chunk.epoch).filterMap
          PendingMedia.reservation).foldl (fun b size => b.release size) n.budget } := by
  obtain ⟨⟨hcapacity, heventLimit, hmediaLimit, hlimit⟩, -, hwithin⟩ := h
  obtain ⟨hbytes, hslots, hbudget⟩ := releases ((n.outputs.pendingMedia.filter fun p =>
    ¬ epoch ≤ p.chunk.epoch).filterMap PendingMedia.reservation) n.budget
  have hretired := reservations_retired n.outputs epoch
  have hreserved : n.reserved.Perm (((n.outputs.pendingMedia.filter fun p =>
      ¬ epoch ≤ p.chunk.epoch).filterMap PendingMedia.reservation) ++
        (n.ingress ++ (n.outputs.invalidateBefore epoch).reservations ++
          n.media.map Buffered.reservation)) := by
    refine ((hretired.append_left _).append_right _).trans ?_
    rw [← List.append_assoc, ← List.append_assoc, ← List.append_assoc]
    exact (List.perm_append_comm.append_right _).append_right _
  refine ⟨⟨hcapacity, heventLimit, hmediaLimit, hbudget.trans hlimit⟩, unheld _ hflush,
    hwithin.move le_rfl le_rfl ?_ (List.length_filter_le _ _) ?_ ?_⟩
  · rw [hsize]
    exact sum_filter_le _ _
  · rw [hreserved.sum_eq, List.sum_append]
    dsimp only
    rw [hbytes]
    change _ + (n.ingress ++ (n.outputs.invalidateBefore epoch).reservations ++
      n.media.map Buffered.reservation).sum + n.flushBytes = _
    omega
  · rw [hreserved.length_eq, List.length_append]
    dsimp only
    rw [hslots]
    change _ + (n.ingress ++ (n.outputs.invalidateBefore epoch).reservations ++
      n.media.map Buffered.reservation).length + n.flushSlots = _
    omega

theorem Budgeted.hold (h : Budgeted limits n) {f f' : Flush} {budget : MediaBudget}
    (hflush : n.flushing = some f) (hholding : Holding n f')
    (hlimit : budget.limit = n.budget.limit)
    (hbytes : budget.bytes + f'.bytes = n.budget.bytes + f.bytes)
    (hslots : budget.slots + f'.slots = n.budget.slots + f.slots) :
    Budgeted limits { n with flushing := some f', budget } := by
  obtain ⟨⟨hcapacity, heventLimit, hmediaLimit, hconfigured⟩, -, hwithin⟩ := h
  obtain ⟨hflushBytes, hflushSlots⟩ := flushed hflush
  refine ⟨⟨hcapacity, heventLimit, hmediaLimit, hlimit.trans hconfigured⟩, ?_,
    hwithin.move le_rfl le_rfl le_rfl le_rfl ?_ ?_⟩
  · intro f'' hsome
    cases hsome
    exact hholding.keep le_rfl rfl rfl
  · change budget.bytes + n.reserved.sum + f'.bytes = _
    omega
  · change budget.slots + n.reserved.length + f'.slots = _
    omega

theorem Budgeted.cancel (h : Budgeted limits n) {f : Flush} (hflush : n.flushing = some f) :
    Budgeted limits { n with flushing := none, budget := f.release n.budget } := by
  obtain ⟨⟨hcapacity, heventLimit, hmediaLimit, hconfigured⟩, -, hwithin⟩ := h
  obtain ⟨hflushBytes, hflushSlots⟩ := flushed hflush
  obtain ⟨hbytes, hslots, hlimit⟩ := flush_release f n.budget
  refine ⟨⟨hcapacity, heventLimit, hmediaLimit, hlimit.trans hconfigured⟩, unheld _ rfl,
    hwithin.move le_rfl le_rfl le_rfl le_rfl ?_ ?_⟩
  · change (f.release n.budget).bytes + n.reserved.sum + 0 = _
    omega
  · change (f.release n.budget).slots + n.reserved.length + 0 = _
    omega

theorem Budgeted.taken (h : Budgeted limits n) {packet : Buffered} {rest : List Buffered}
    (hmedia : n.media = packet :: rest) :
    Budgeted limits
      { n with media := rest, budget := n.budget.release packet.reservation } := by
  obtain ⟨⟨hcapacity, heventLimit, hmediaLimit, hlimit⟩, hholding, hwithin⟩ := h
  refine ⟨⟨hcapacity, heventLimit, hmediaLimit, hlimit⟩,
    fun f hsome => (hholding f hsome).keep le_rfl rfl rfl,
    hwithin.move le_rfl le_rfl le_rfl le_rfl ?_ ?_⟩
  · change n.budget.bytes + packet.reservation + (n.ingress ++ n.outputs.reservations ++
      rest.map Buffered.reservation).sum + n.flushBytes = _
    simp only [Native.reserved, hmedia, List.sum_append, List.map_cons, List.sum_cons]
    omega
  · change n.budget.slots + 1 + (n.ingress ++ n.outputs.reservations ++
      rest.map Buffered.reservation).length + n.flushSlots = _
    simp only [Native.reserved, hmedia, List.length_append, List.map_cons, List.length_cons]
    omega

theorem Budgeted.step (h : Budgeted limits n) (hsize : n.outputs.mediaBytes = n.outputs.pendingSize)
    (hstep : Delivery n label n') : Budgeted limits n' := by
  cases hstep with
  | event hfree hevent =>
    have hroom := event_room hevent
    obtain rfl := event_ok hevent
    obtain ⟨hconfigured, -, hwithin⟩ := h
    refine ⟨⟨hconfigured.capacity, hconfigured.eventLimit, hconfigured.mediaLimit,
      hconfigured.budget⟩, unheld _ hfree.2, hwithin.events, ?_, hwithin.mediaBytes,
      hwithin.pendingMedia, hwithin.bytes, hwithin.slots⟩
    rw [hconfigured.eventLimit] at hroom
    rw [List.length_append, List.length_singleton]
    exact hroom
  | @media chunk outputs hfree hmedia =>
    by_cases hcurrent : n.minEpoch ≤ chunk.epoch
    · exact h.queue hfree.2 hmedia hcurrent (List.Perm.refl _)
    · rcases queueMedia_ok hmedia with ⟨-, rfl⟩ | ⟨hfresh, -⟩
      · exact h
      · exact absurd hfresh hcurrent
  | @ingress size budget hrunning hreserve =>
    obtain ⟨hbytes, hslots, hlimit⟩ := tryReserve_ok hreserve
    obtain ⟨⟨hcapacity, heventLimit, hmediaLimit, hconfigured⟩, hholding, hwithin⟩ := h
    refine ⟨⟨hcapacity, heventLimit, hmediaLimit, hlimit.trans hconfigured⟩,
      fun f hsome => (hholding f hsome).keep le_rfl rfl rfl,
      hwithin.move le_rfl le_rfl le_rfl le_rfl ?_ ?_⟩
    · change budget.bytes + (n.ingress ++ [size] ++ n.outputs.reservations ++
        n.media.map Buffered.reservation).sum + n.flushBytes = _
      simp only [Native.reserved, List.sum_append, List.sum_cons, List.sum_nil]
      omega
    · change budget.slots + (n.ingress ++ [size] ++ n.outputs.reservations ++
        n.media.map Buffered.reservation).length + n.flushSlots = _
      simp only [Native.reserved, List.length_append, List.length_cons, List.length_nil]
      omega
  | discard hmem => exact h.discard hmem
  | receivedMedia hfree hmem hcurrent hmedia =>
    exact h.queue hfree.2 hmedia hcurrent (List.perm_cons_erase hmem)
  | receivedStale hfree hmem hstale hmedia =>
    rcases queueMedia_ok hmedia with ⟨-, rfl⟩ | ⟨hfresh, -⟩
    · exact h.discard hmem
    · exact absurd hstale (Nat.not_lt.mpr hfresh)
  | invalidate hfree => exact h.invalidate hfree.2 hsize _
  | flush hfree hpending =>
    obtain ⟨hconfigured, -, hwithin⟩ := h
    obtain ⟨hbytes, hslots⟩ := unflushed hfree.2
    refine ⟨⟨hconfigured.capacity, hconfigured.eventLimit, hconfigured.mediaLimit,
      hconfigured.budget⟩, ?_, hwithin.move le_rfl le_rfl le_rfl le_rfl ?_ ?_⟩
    · intro f hsome
      cases hsome
      exact ⟨fun hpermit => absurd hpermit (by decide), fun hne => absurd rfl hne⟩
    · rw [hbytes]
      rfl
    · rw [hslots]
      rfl
  | permit hrunning hflush hpending hroom =>
    have hholding := h.holding _ hflush
    exact h.hold hflush ⟨fun _ => hroom, hholding.reserving⟩ rfl rfl rfl
  | @slot f packet rest size hrunning hflush hwaiting hfront hnone hsize' hslot =>
    refine h.hold hflush ⟨(h.holding _ hflush).permit, fun _ => ⟨packet, rest, hfront, hnone⟩⟩
      rfl ?_ ?_
    · simp only [Flush.bytes, hwaiting]
    · simp only [Flush.slots, hwaiting, reduceCtorEq, if_true, if_false]
      omega
  | @bytes f packet rest hrunning hflush hslot hfront hbytes =>
    have hholding := h.holding _ hflush
    refine h.hold hflush ⟨hholding.permit, fun _ => hholding.reserving (by simp [hslot])⟩ rfl ?_ ?_
    · simp only [Flush.bytes, hslot]
      omega
    · simp only [Flush.slots, hslot, reduceCtorEq, if_false]
  | @sendEvent f event rest hrunning hflush hpermit hfront =>
    have hroom := (h.holding _ hflush).permit hpermit
    obtain ⟨⟨hcapacity, heventLimit, hmediaLimit, hconfigured⟩, -, hwithin⟩ := h.cancel hflush
    obtain ⟨hevents, hpending, hmediaBytes, hchunks, hbytes, hslots⟩ := hwithin
    refine ⟨⟨hcapacity, heventLimit, hmediaLimit, hconfigured⟩, unheld _ rfl, ?_, ?_, hmediaBytes,
      hchunks, hbytes, hslots⟩
    · change (n.events ++ [event]).length ≤ _
      rw [List.length_append, List.length_singleton, ← hcapacity]
      exact hroom
    · refine le_trans ?_ hpending
      change rest.length ≤ n.outputs.pendingEvents.length
      rw [hfront]
      exact Nat.le_succ _
  | sendMedia hrunning hflush hreserved hfront =>
    obtain ⟨packet, rest, hfront', hnone⟩ :=
      (h.holding _ hflush).reserving (by simp [hreserved])
    obtain ⟨rfl, rfl⟩ := List.cons.inj (hfront.symm.trans hfront')
    refine h.send hflush hfront ?_ ?_
    · simp [Flush.bytes, hreserved, hnone]
    · simp [Flush.slots, hreserved, hnone]
  | @sendReceived f packet rest bytes hrunning hflush hfront hreservation =>
    have hwaiting : f.reserving = .waiting := by
      by_contra hne
      obtain ⟨packet', rest', hfront', hnone⟩ := (h.holding _ hflush).reserving hne
      obtain ⟨rfl, rfl⟩ := List.cons.inj (hfront.symm.trans hfront')
      rw [hnone] at hreservation
      cases hreservation
    refine h.send hflush hfront ?_ ?_
    · simp [Flush.bytes, hwaiting, hreservation]
    · simp [Flush.slots, hwaiting, hreservation]
  | cancel hflush => exact h.cancel hflush
  | receive hreceive =>
    have hanswers := receive_answers hreceive
    exact h.keep hanswers.capacity ⟨by rw [hanswers.outputs], by rw [hanswers.outputs]⟩
      hanswers.budget hanswers.events (by rw [hanswers.outputs]) (by rw [hanswers.outputs])
      (by rw [hanswers.outputs]) hanswers.media hanswers.ingress hanswers.flushing
  | receiveMedia hreceive =>
    rcases receiveMedia_ok hreceive with ⟨packet, rest, hmedia, rfl, -⟩ | ⟨-, -, rfl, -⟩
    · exact h.taken hmedia
    · exact h
  | endMedia =>
    exact h.keep rfl ⟨rfl, rfl⟩ rfl le_rfl le_rfl rfl rfl rfl rfl rfl
  | settle =>
    exact h.keep rfl ⟨rfl, rfl⟩ rfl le_rfl (Nat.zero_le _) rfl rfl rfl rfl rfl
  | drop => exact h.keep rfl ⟨rfl, rfl⟩ rfl le_rfl le_rfl rfl rfl rfl rfl rfl

theorem reservations_le_claims (pending : List PendingMedia) :
    (pending.filterMap PendingMedia.reservation).sum ≤ (pending.map PendingMedia.claim).sum := by
  induction pending with
  | nil => exact le_rfl
  | cons p rest ih =>
    rw [List.map_cons, List.sum_cons]
    cases hreservation : p.reservation with
    | none =>
      rw [List.filterMap_cons_none hreservation]
      omega
    | some size =>
      rw [List.filterMap_cons_some hreservation, List.sum_cons, PendingMedia.claim, hreservation,
        Option.getD_some]
      omega

private theorem budgeted_ports (limits : Limits) (epoch : Nat) :
    Budgeted limits (ports limits epoch) := by
  refine ⟨⟨rfl, rfl, rfl, rfl⟩, unheld _ rfl, ?_⟩
  exact ⟨Nat.zero_le _, Nat.zero_le _, Nat.zero_le _, Nat.zero_le _, rfl, rfl⟩

theorem budgeted_run {epoch : Nat} (hrun : Trace Delivery (ports limits epoch) shown n) :
    Budgeted limits n := by
  have hboth := hrun.invariant (I := fun shown n => MediaFlow shown n ∧ Budgeted limits n)
    ⟨mediaFlow_ports limits epoch, budgeted_ports limits epoch⟩
    fun h hstep => ⟨h.1.step hstep, h.2.step h.1.bytes hstep⟩
  exact hboth.2

theorem Budgeted.trace {labels : List Shown} (h : Budgeted limits n) (hflow : MediaFlow shown n)
    (hrun : Trace Delivery n labels n') : Budgeted limits n' := by
  induction hrun with
  | start => exact h
  | next hrun hstep ih => exact ih.step (hflow.trace hrun).bytes hstep

private theorem claims_eq_reservations {pending : List PendingMedia}
    (hreceived : ∀ p ∈ pending, p.reservation ≠ none) :
    pending.map PendingMedia.claim = pending.filterMap PendingMedia.reservation := by
  induction pending with
  | nil => rfl
  | cons p rest ih =>
    obtain ⟨size, hreservation⟩ := Option.ne_none_iff_exists'.mp (hreceived p List.mem_cons_self)
    rw [List.map_cons, List.filterMap_cons_some hreservation, PendingMedia.claim, hreservation,
      Option.getD_some, ih fun p hp => hreceived p (List.mem_cons_of_mem _ hp)]

/-- Pending chunks that have their reservations, or have none and are themselves within the limit,
fit the budget. -/
theorem Budgeted.reservable (h : Budgeted limits n)
    (hsize : n.outputs.mediaBytes = n.outputs.pendingSize)
    (hsame : (∀ p ∈ n.outputs.pendingMedia, p.reservation = none) ∨
      (∀ p ∈ n.outputs.pendingMedia, p.reservation ≠ none)) : n.Reservable := by
  unfold Native.Reservable
  rw [h.configured.budget]
  rcases hsame with hown | hreceived
  · have hclaims : n.outputs.pendingMedia.map PendingMedia.claim =
        n.outputs.pendingMedia.map fun p => p.chunk.bytes.length := by
      apply List.map_congr_left
      intro p hp
      rw [PendingMedia.claim, hown p hp, Option.getD_none]
    rw [hclaims]
    exact hsize.symm.le.trans h.within.mediaBytes
  · have hclaims : n.outputs.pendingMedia.map PendingMedia.claim = n.outputs.reservations :=
      claims_eq_reservations hreceived
    have hbytes := h.within.bytes
    simp only [Native.reserved, List.sum_append] at hbytes
    rw [hclaims]
    omega

end Zhir.Models
