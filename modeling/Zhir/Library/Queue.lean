import Mathlib.Data.List.Nodup
import Mathlib.Logic.Relation

/-!
Queues whose items carry names from a supply: an item joins at the end under a name that was
never given out before, may change in place, and may leave from anywhere.
-/

set_option autoImplicit false
set_option relaxedAutoImplicit false

namespace Zhir.Library

open Relation (ReflTransGen)

variable {α κ : Type*}

/-- The items that wait, and how far the supply of names has been used. -/
structure Queue (α : Type*) where
  named : ℕ
  items : List α

namespace Queue

variable (key : α → κ) (name : ℕ → κ) (keeps : α → α → Prop)

inductive Step : Queue α → Queue α → Prop
  | leave {n m : ℕ} {old new : List α} (hn : n ≤ m) (h : new.Sublist old) :
      Step ⟨n, old⟩ ⟨m, new⟩
  | change {n : ℕ} {old : List α} (f : α → α) (hkey : ∀ a, key (f a) = key a)
      (hkeeps : ∀ a, keeps a (f a)) : Step ⟨n, old⟩ ⟨n, old.map f⟩
  | join {n k m : ℕ} {old : List α} {a : α} (hk : n ≤ k) (hm : k < m) (ha : key a = name k) :
      Step ⟨n, old⟩ ⟨m, old ++ [a]⟩

/-- The names of all items that have ever joined, in order, the waiting ones among them. -/
structure Logged (order : List κ) (q : Queue α) : Prop where
  nodup : order.Nodup
  named : ∀ id ∈ order, ∃ n < q.named, id = name n
  items : (q.items.map key).Sublist order

def Carries (order : List κ) (q q' : Queue α) : Prop :=
  ∀ a' ∈ q'.items, key a' ∈ order → ∃ a ∈ q.items, key a = key a' ∧ keeps a a'

variable {key name keeps} {order : List κ} {q q' : Queue α}

theorem Logged.later {m : ℕ} (h : Logged key name order q) (hm : q.named ≤ m) :
    Logged key name order ⟨m, q.items⟩ := by
  refine ⟨h.nodup, fun id hid => ?_, h.items⟩
  obtain ⟨n, hn, rfl⟩ := h.named id hid
  exact ⟨n, Nat.lt_of_lt_of_le hn hm, rfl⟩

theorem Step.logged (hname : Function.Injective name) (hrefl : ∀ a, keeps a a)
    (h : Step key name keeps q q') (hq : Logged key name order q) :
    ∃ added, Logged key name (order ++ added) q' ∧ Carries key keeps order q q' := by
  cases h with
  | @leave n m old new hn hsub =>
    refine ⟨[], ?_, fun a ha _ => ⟨a, hsub.subset ha, rfl, hrefl a⟩⟩
    rw [List.append_nil]
    exact ⟨hq.nodup, (hq.later hn).named, (hsub.map key).trans hq.items⟩
  | @change n old f hkey hkeeps =>
    refine ⟨[], ?_, ?_⟩
    · have hsame : (old.map f).map key = old.map key := by
        rw [List.map_map]
        exact List.map_congr_left fun a _ => hkey a
      rw [List.append_nil]
      refine ⟨hq.nodup, hq.named, ?_⟩
      rw [hsame]
      exact hq.items
    · intro a' ha' _
      obtain ⟨a, ha, rfl⟩ := List.mem_map.mp ha'
      exact ⟨a, ha, (hkey a).symm, hkeeps a⟩
  | @join n k m old a hk hm ha =>
    have hfresh : name k ∉ order := by
      intro hmem
      obtain ⟨j, hj, hsame⟩ := hq.named _ hmem
      have hkj : k = j := hname hsame
      change j < n at hj
      omega
    refine ⟨[name k], ⟨?_, ?_, ?_⟩, ?_⟩
    · refine List.nodup_append.mpr ⟨hq.nodup, List.nodup_singleton _, ?_⟩
      intro id hid other hother hsame
      rw [List.mem_singleton.mp hother] at hsame
      exact hfresh (hsame ▸ hid)
    · intro id hid
      rcases List.mem_append.mp hid with hid | hid
      · exact (hq.later (Nat.le_trans hk (Nat.le_of_lt hm))).named id hid
      · exact ⟨k, hm, List.mem_singleton.mp hid⟩
    · rw [List.map_append, List.map_singleton, ha]
      exact hq.items.append (List.Sublist.refl _)
    · intro a' ha' hold
      rcases List.mem_append.mp ha' with ha' | ha'
      · exact ⟨a', ha', rfl, hrefl a'⟩
      · rw [List.mem_singleton.mp ha', ha] at hold
        exact absurd hold hfresh

theorem Steps.logged (hname : Function.Injective name) (hrefl : ∀ a, keeps a a)
    (htrans : ∀ a b c, keeps a b → keeps b c → keeps a c)
    (h : ReflTransGen (Step key name keeps) q q') (hq : Logged key name order q) :
    ∃ added, Logged key name (order ++ added) q' ∧ Carries key keeps order q q' := by
  induction h with
  | refl =>
    refine ⟨[], ?_, fun a ha _ => ⟨a, ha, rfl, hrefl a⟩⟩
    rw [List.append_nil]
    exact hq
  | @tail q₁ q₂ _ hstep ih =>
    obtain ⟨added₁, hlogged₁, hcarries₁⟩ := ih
    obtain ⟨added₂, hlogged₂, hcarries₂⟩ := hstep.logged hname hrefl hlogged₁
    refine ⟨added₁ ++ added₂, ?_, ?_⟩
    · rw [← List.append_assoc]
      exact hlogged₂
    · intro c hc hold
      obtain ⟨b, hb, hbc, hkeeps₂⟩ := hcarries₂ c hc (List.mem_append_left _ hold)
      rw [← hbc] at hold
      obtain ⟨a, ha, hab, hkeeps₁⟩ := hcarries₁ b hb hold
      exact ⟨a, ha, hab.trans hbc, htrans _ _ _ hkeeps₁ hkeeps₂⟩

/-- A name that was given out and is not waiting never waits again. -/
theorem Carries.absent (h : Carries key keeps order q q') {id : κ} (hid : id ∈ order)
    (hout : id ∉ q.items.map key) : id ∉ q'.items.map key := by
  intro hin
  obtain ⟨a', ha', rfl⟩ := List.mem_map.mp hin
  obtain ⟨a, ha, hsame, -⟩ := h a' ha' hid
  exact hout (List.mem_map.mpr ⟨a, ha, hsame⟩)

theorem Logged.key_injective (h : Logged key name order q) {a b : α} (ha : a ∈ q.items)
    (hb : b ∈ q.items) (hsame : key a = key b) : a = b := by
  have hnodup : (q.items.map key).Nodup := h.nodup.sublist h.items
  exact List.inj_on_of_nodup_map hnodup ha hb hsame

end Queue

end Zhir.Library
