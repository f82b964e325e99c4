import Mathlib.Order.Monotone.Basic
import Mathlib.Tactic.NormNum
import Zhir.Core.Value

/-!
The timeline of one RTP source, and the packets it stands for before sequence numbers are cut to
16 and timestamps to 32 bits.
-/

set_option autoImplicit false
set_option relaxedAutoImplicit false

namespace Zhir.Models

open Zhir.Core

/-- The source, sequence number and timestamp accepted last; `ticks` is a `u64`. -/
structure RtpTimeline where
  last : Option (UInt32 × UInt16 × UInt32) := none
  ticks : Nat := 0
  deriving DecidableEq, Repr

def overflow : Error := .protocol "RTP timestamp overflow"

/-- `RtpTimeline::accept`, with the timeline it leaves. -/
def RtpTimeline.accept (t : RtpTimeline) (ssrc : UInt32) (sequence : UInt16) (timestamp : UInt32) :
    Result (Option Nat) × RtpTimeline :=
  match t.last with
  | none => (.ok (some t.ticks), { t with last := some (ssrc, sequence, timestamp) })
  | some (source, previousSequence, previousTimestamp) =>
    if source ≠ ssrc then
      (.error (.uncertain "RTP source changed without a media boundary"), t)
    else
      let distance := (sequence - previousSequence).toNat
      if distance = 0 ∨ distance ≥ 2 ^ 15 then (.ok none, t)
      else
        let elapsed := (timestamp - previousTimestamp).toNat
        if elapsed ≥ 2 ^ 31 then (.error (.protocol "RTP timestamp regressed"), t)
        else if t.ticks + elapsed ≤ maxU64 then
          (.ok (some (t.ticks + elapsed)),
            ⟨some (ssrc, sequence, timestamp), t.ticks + elapsed⟩)
        else (.error overflow, t)

private theorem accept_unchanged {t t' : RtpTimeline} {ssrc : UInt32} {sequence : UInt16}
    {timestamp : UInt32} {r : Result (Option Nat)}
    (h : t.accept ssrc sequence timestamp = (r, t')) (hr : ∀ ticks, r ≠ .ok (some ticks)) :
    t' = t := by
  unfold RtpTimeline.accept at h
  split at h
  · obtain ⟨rfl, -⟩ := Prod.mk.inj h
    exact absurd rfl (hr t.ticks)
  split at h
  · exact (Prod.mk.inj h).2.symm
  dsimp only at h
  split at h
  · exact (Prod.mk.inj h).2.symm
  split at h
  · exact (Prod.mk.inj h).2.symm
  split at h
  · obtain ⟨rfl, -⟩ := Prod.mk.inj h
    exact absurd rfl (hr _)
  · exact (Prod.mk.inj h).2.symm

/-- The timestamp of each packet of a source, by its true sequence number. -/
structure RtpSource where
  ssrc : UInt32
  timestamp : Nat → Nat
  monotone : Monotone timestamp

namespace RtpSource

/-- The first and the last packet accepted, by their true sequence numbers. -/
abbrev Accepted := Option (Nat × Nat)

/-- What is to be said of a packet: the newest one is accepted, with its distance in time from the
first one, if a `u64` holds that. -/
def judge (src : RtpSource) (accepted : Accepted) (n : Nat) : Result (Option Nat) × Accepted :=
  match accepted with
  | none => (.ok (some 0), some (n, n))
  | some (first, last) =>
    if n ≤ last then (.ok none, some (first, last))
    else
      let elapsed := src.timestamp n - src.timestamp first
      if elapsed ≤ maxU64 then (.ok (some elapsed), some (first, n))
      else (.error overflow, some (first, last))

def Near (src : RtpSource) (accepted : Accepted) (n : Nat) : Prop :=
  ∀ first last, accepted = some (first, last) →
    n < last + 2 ^ 15 ∧ last < n + 2 ^ 15 ∧
    src.timestamp n < src.timestamp last + 2 ^ 31 ∧ src.timestamp last < src.timestamp n + 2 ^ 31

/-- Every packet of a delivery is near the one accepted last before it. -/
def AllNear (src : RtpSource) : Accepted → List Nat → Prop
  | _, [] => True
  | accepted, n :: rest => src.Near accepted n ∧ src.AllNear (src.judge accepted n).2 rest

def judged (src : RtpSource) : Accepted → List Nat → List (Result (Option Nat))
  | _, [] => []
  | accepted, n :: rest => (src.judge accepted n).1 :: src.judged (src.judge accepted n).2 rest

def receive (src : RtpSource) (t : RtpTimeline) (n : Nat) : Result (Option Nat) × RtpTimeline :=
  t.accept src.ssrc (UInt16.ofNat n) (UInt32.ofNat (src.timestamp n))

def received (src : RtpSource) : RtpTimeline → List Nat → List (Result (Option Nat))
  | _, [] => []
  | t, n :: rest => (src.receive t n).1 :: src.received (src.receive t n).2 rest

def Tracks (src : RtpSource) (t : RtpTimeline) : Accepted → Prop
  | none => t = {}
  | some (first, last) => first ≤ last ∧ t.ticks = src.timestamp last - src.timestamp first ∧
      t.last = some (src.ssrc, UInt16.ofNat last, UInt32.ofNat (src.timestamp last))

end RtpSource

private theorem sequence_distance {n last : Nat} (hlow : last < n + 2 ^ 15)
    (hhigh : n < last + 2 ^ 15) :
    let distance := (UInt16.ofNat n - UInt16.ofNat last).toNat
    (distance = 0 ∨ distance ≥ 2 ^ 15) ↔ n ≤ last := by
  dsimp only
  rw [UInt16.toNat_sub, UInt16.toNat_ofNat', UInt16.toNat_ofNat']
  omega

private theorem timestamp_distance {a b : Nat} (hle : b ≤ a) (hnear : a < b + 2 ^ 31) :
    (UInt32.ofNat a - UInt32.ofNat b).toNat = a - b := by
  rw [UInt32.toNat_sub, UInt32.toNat_ofNat', UInt32.toNat_ofNat']
  omega

namespace RtpSource

variable {src : RtpSource} {t : RtpTimeline} {accepted : Accepted} {n : Nat}

private theorem receive_judge (h : src.Tracks t accepted) (hnear : src.Near accepted n) :
    (src.receive t n).1 = (src.judge accepted n).1 ∧
      src.Tracks (src.receive t n).2 (src.judge accepted n).2 := by
  match accepted with
  | none =>
    obtain rfl : t = {} := h
    exact ⟨rfl, Nat.le_refl n, (Nat.sub_self _).symm, rfl⟩
  | some (first, last) =>
    obtain ⟨hfirst, hticks, hlast⟩ := h
    obtain ⟨hhigh, hlow, htime, -⟩ := hnear first last rfl
    have hdistance := sequence_distance hlow hhigh
    unfold receive RtpTimeline.accept judge
    rw [hlast]
    simp only [ne_eq, not_true_eq_false, if_false]
    by_cases hold : n ≤ last
    · rw [if_pos (hdistance.mpr hold), if_pos hold]
      exact ⟨rfl, hfirst, hticks, hlast⟩
    · have hle := src.monotone (Nat.le_of_lt (Nat.lt_of_not_le hold))
      have hbegin := src.monotone hfirst
      have helapsed := timestamp_distance hle htime
      have htotal : t.ticks + (src.timestamp n - src.timestamp last) =
          src.timestamp n - src.timestamp first := by
        omega
      rw [if_neg (fun hdiscard => hold (hdistance.mp hdiscard)), if_neg hold, helapsed,
        if_neg (by omega), htotal]
      by_cases hfits : src.timestamp n - src.timestamp first ≤ maxU64
      · rw [if_pos hfits, if_pos hfits]
        exact ⟨rfl, by omega, rfl, rfl⟩
      · rw [if_neg hfits, if_neg hfits]
        exact ⟨rfl, hfirst, hticks, hlast⟩

private theorem received_judged (ns : List Nat) (h : src.Tracks t accepted)
    (hnear : src.AllNear accepted ns) : src.received t ns = src.judged accepted ns := by
  induction ns generalizing t accepted with
  | nil => rfl
  | cons n rest ih =>
    obtain ⟨hfirst, hrest⟩ := hnear
    obtain ⟨hresult, htracks⟩ := receive_judge h hfirst
    simp only [received, judged, hresult, ih htracks hrest]

/-- However the packets of a source are delivered, each near the last accepted one, the newest ones
are accepted with their true distance in time from the first, as long as a `u64` holds it; and any
packet that is not accepted leaves the timeline as it is. -/
theorem timeline_unwraps (src : RtpSource) (ns : List Nat) (hnear : src.AllNear none ns) :
    src.received {} ns = src.judged none ns ∧
    ∀ (t t' : RtpTimeline) (ssrc : UInt32) (sequence : UInt16) (timestamp : UInt32)
      (r : Result (Option Nat)), t.accept ssrc sequence timestamp = (r, t') →
        (∀ ticks, r ≠ .ok (some ticks)) → t' = t :=
  ⟨received_judged ns rfl hnear, fun _ _ _ _ _ _ h hr => accept_unchanged h hr⟩

/-- Two packets around a wrap of the sequence number, out of order. -/
def sampleSource : RtpSource := ⟨7, fun n => 960 * n, fun _ _ h => Nat.mul_le_mul_left 960 h⟩

theorem timeline_unwraps_sample :
    sampleSource.received {} [65535, 65537, 65536, 65537, 65538] =
      sampleSource.judged none [65535, 65537, 65536, 65537, 65538] ∧
    ∀ (t t' : RtpTimeline) (ssrc : UInt32) (sequence : UInt16) (timestamp : UInt32)
      (r : Result (Option Nat)), t.accept ssrc sequence timestamp = (r, t') →
        (∀ ticks, r ≠ .ok (some ticks)) → t' = t := by
  refine timeline_unwraps sampleSource _ ⟨?_, ?_, ?_, ?_, ?_, trivial⟩
  · intro first last h
    cases h
  · intro first last h
    cases h
    decide
  · intro first last h
    cases h
    decide
  · intro first last h
    cases h
    decide
  · intro first last h
    cases h
    decide

example : sampleSource.judged none [65535, 65537, 65536, 65537, 65538] =
    [.ok (some 0), .ok (some 1920), .ok none, .ok none, .ok (some 2880)] := by
  decide +kernel

def longSource : RtpSource :=
  ⟨7, fun n => (2 ^ 31 - 1) * n, fun _ _ h => Nat.mul_le_mul_left (2 ^ 31 - 1) h⟩

private theorem longSource_near {last n : Nat} (first : Nat) (h : n = last + 1) :
    longSource.Near (some (first, last)) n := by
  intro first' last' heq
  cases heq
  subst h
  simp only [longSource]
  omega

private theorem longSource_judged {k : Nat} (hk : (2 ^ 31 - 1) * k ≤ maxU64)
    (hover : maxU64 < (2 ^ 31 - 1) * (k + 1)) (count m : Nat) (hsum : m + count = k) :
    let ns := List.range' (m + 1) (count + 1)
    longSource.AllNear (some (0, m)) ns ∧
      (longSource.judged (some (0, m)) ns).getLast? = some (.error overflow) := by
  induction count generalizing m with
  | zero =>
    obtain rfl : m = k := by omega
    refine ⟨⟨longSource_near 0 rfl, trivial⟩, ?_⟩
    simp only [List.range', judged, judge, longSource]
    rw [if_neg (by omega), if_neg (by omega)]
    rfl
  | succ count ih =>
    obtain ⟨hnear, hlast⟩ := ih (m + 1) (by omega)
    have hfits : longSource.timestamp (m + 1) - longSource.timestamp 0 ≤ maxU64 := by
      have hle : (2 ^ 31 - 1) * (m + 1) ≤ (2 ^ 31 - 1) * k := Nat.mul_le_mul_left _ (by omega)
      simp only [longSource]
      omega
    have hjudge : longSource.judge (some (0, m)) (m + 1) =
        (.ok (some (longSource.timestamp (m + 1) - longSource.timestamp 0)), some (0, m + 1)) := by
      simp only [judge]
      rw [if_neg (by omega), if_pos hfits]
    rw [List.range'_succ]
    refine ⟨⟨longSource_near 0 rfl, ?_⟩, ?_⟩
    · rw [hjudge]
      exact hnear
    · simp only [judged, hjudge]
      rw [List.getLast?_cons, hlast]
      rfl

/-- The packets 0 to 2^33 + 5 of this source, each the newest, end with one that is rejected. -/
theorem newest_packet_rejected :
    let ns := 0 :: List.range' 1 (2 ^ 33 + 5)
    longSource.AllNear none ns ∧
      (longSource.received {} ns).getLast? = some (.error overflow) := by
  have hfits : (2 ^ 31 - 1) * (2 ^ 33 + 4) ≤ maxU64 := by norm_num [maxU64]
  have hover : maxU64 < (2 ^ 31 - 1) * (2 ^ 33 + 4 + 1) := by norm_num [maxU64]
  obtain ⟨hnear, hlast⟩ := longSource_judged hfits hover (2 ^ 33 + 4) 0 (Nat.zero_add _)
  have hall : longSource.AllNear none (0 :: List.range' 1 (2 ^ 33 + 5)) := by
    refine ⟨?_, hnear⟩
    intro first last h
    cases h
  have hreceived : longSource.received {} (0 :: List.range' 1 (2 ^ 33 + 5)) =
      longSource.judged none (0 :: List.range' 1 (2 ^ 33 + 5)) := received_judged _ rfl hall
  refine ⟨hall, ?_⟩
  rw [hreceived]
  have hcons : longSource.judged none (0 :: List.range' 1 (2 ^ 33 + 5)) =
      .ok (some 0) :: longSource.judged (some (0, 0)) (List.range' 1 (2 ^ 33 + 5)) := rfl
  rw [hcons, List.getLast?_cons, hlast]
  rfl

end RtpSource

end Zhir.Models
