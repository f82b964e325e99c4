import Mathlib.Data.List.Basic
import Mathlib.Algebra.BigOperators.Group.List.Basic
import Mathlib.Algebra.GroupWithZero.Nat
import Zhir.Library.Trace

/-!
A pool of permits that parties share. A party is a state machine of its own; all it shares with
the others is the pool, which it takes permits from and gives them back to as it moves.
-/

set_option autoImplicit false
set_option relaxedAutoImplicit false

namespace Zhir.Library

variable {σ ι : Type}

/-- The permits that are free, and the parties in the order they joined. -/
structure Pool (σ : Type) where
  free : Nat
  parties : List σ

namespace Pool

def start (capacity : Nat) : Pool σ := ⟨capacity, []⟩

inductive Label (σ ι : Type)
  | join (party : σ)
  | move (index : Nat) (label : ι)

variable (weight : σ → Nat) (joins : σ → Prop) (moves : σ → ι → σ → Prop)

/-- A party joins or moves if there are permits for what it holds then. -/
inductive Step : Pool σ → Label σ ι → Pool σ → Prop
  | join {s : Pool σ} {party : σ} (hjoins : joins party) (hroom : weight party ≤ s.free) :
      Step s (.join party) ⟨s.free - weight party, s.parties ++ [party]⟩
  | move {s : Pool σ} {i : Nat} {label : ι} {party party' : σ}
      (hparty : s.parties[i]? = some party) (hmoves : moves party label party')
      (hroom : weight party' ≤ s.free + weight party) :
      Step s (.move i label) ⟨s.free + weight party - weight party', s.parties.set i party'⟩

/-- A step of parties that join and move by computation, where there is one. -/
def advance (joining : σ → Bool) (f : σ → ι → Option σ) (s : Pool σ) :
    Label σ ι → Option (Pool σ)
  | .join party =>
    if joining party = true ∧ weight party ≤ s.free then
      some ⟨s.free - weight party, s.parties ++ [party]⟩
    else none
  | .move i label =>
    match s.parties[i]? with
    | none => none
    | some party =>
      match f party label with
      | none => none
      | some party' =>
        if weight party' ≤ s.free + weight party then
          some ⟨s.free + weight party - weight party', s.parties.set i party'⟩
        else none

def held (s : Pool σ) : Nat := (s.parties.map weight).sum

def own (i : Nat) (labels : List (Label σ ι)) : List ι :=
  labels.filterMap fun
    | .join _ => none
    | .move j label => if j = i then some label else none

variable {weight joins moves} {capacity : Nat} {s : Pool σ} {labels : List (Label σ ι)}

theorem step_of_advance {joining : σ → Bool} {f : σ → ι → Option σ}
    (hjoins : ∀ party, joining party = true → joins party)
    (hmoves : ∀ party label party', f party label = some party' → moves party label party')
    (s : Pool σ) (label : Label σ ι) (s' : Pool σ)
    (h : s.advance weight joining f label = some s') :
    Step weight joins moves s label s' := by
  unfold advance at h
  split at h
  · next party =>
    split at h
    · next hroom =>
      cases h
      exact .join (hjoins party hroom.1) hroom.2
    · cases h
  · next i label =>
    split at h
    · cases h
    · next party hparty =>
      split at h
      · cases h
      · next party' hparty' =>
        split at h
        · next hroom =>
          cases h
          exact .move hparty (hmoves party label party' hparty') hroom
        · cases h

private theorem sum_set {parties : List σ} {i : Nat} {party : σ} (h : parties[i]? = some party)
    (party' : σ) : ((parties.set i party').map weight).sum + weight party =
      (parties.map weight).sum + weight party' := by
  induction parties generalizing i with
  | nil => cases h
  | cons first rest ih =>
    cases i with
    | zero =>
      cases h
      simp only [List.set_cons_zero, List.map_cons, List.sum_cons]
      omega
    | succ i =>
      have hrest := ih (i := i) h
      simp only [List.set_cons_succ, List.map_cons, List.sum_cons]
      omega

theorem conserved (hrun : Trace (Step weight joins moves) (start capacity) labels s) :
    s.free + s.held weight = capacity := by
  refine hrun.state_invariant (I := fun s => s.free + s.held weight = capacity) rfl ?_
  intro s label s' hs hstep
  cases hstep with
  | join hjoins hroom =>
    simp only [held, List.map_append, List.sum_append, List.map_cons, List.map_nil,
      List.sum_cons, List.sum_nil] at hs ⊢
    omega
  | @move i label party party' hparty hmoves hroom =>
    have hsum : ((s.parties.set i party').map weight).sum + weight party =
        (s.parties.map weight).sum + weight party' := sum_set hparty party'
    simp only [held] at hs ⊢
    omega

theorem held_eq_countP {p : σ → Bool} {s : Pool σ}
    (h : ∀ party ∈ s.parties, weight party = (p party).toNat) :
    s.held weight = s.parties.countP p := by
  unfold held
  induction hparties : s.parties generalizing s with
  | nil => rfl
  | cons party rest ih =>
    rw [hparties] at h
    have hrest : (rest.map weight).sum = rest.countP p :=
      @ih ⟨s.free, rest⟩ (fun other hother => h other (List.mem_cons_of_mem party hother)) rfl
    rw [List.map_cons, List.sum_cons, List.countP_cons, hrest, h party List.mem_cons_self]
    cases p party with
    | true => exact Nat.add_comm 1 _
    | false => exact Nat.zero_add _

private theorem own_join (i : Nat) (party : σ) (labels : List (Label σ ι)) :
    own i (labels ++ [.join party]) = own i labels := by
  simp [own]

private theorem own_move (i j : Nat) (label : ι) (labels : List (Label σ ι)) :
    own i (labels ++ [.move j label]) =
      own i labels ++ if j = i then [label] else [] := by
  unfold own
  rw [List.filterMap_append]
  by_cases h : j = i <;> simp [h]

/-- Each party came from one that joined, by the moves that are its own. -/
structure Accounted (joins : σ → Prop) (moves : σ → ι → σ → Prop) (labels : List (Label σ ι))
    (s : Pool σ) : Prop where
  fresh : ∀ i, s.parties.length ≤ i → own i labels = []
  parties : ∀ i p, s.parties[i]? = some p →
    ∃ first, joins first ∧ Trace moves first (own i labels) p

theorem Accounted.step {label : Label σ ι} {s' : Pool σ} (h : Accounted joins moves labels s)
    (hstep : Step weight joins moves s label s') :
    Accounted joins moves (labels ++ [label]) s' := by
  cases hstep with
  | @join party hjoins hroom =>
    refine ⟨fun i hi => ?_, fun i p hp => ?_⟩
    · rw [own_join]
      rw [List.length_append] at hi
      exact h.fresh i (by omega)
    · rw [own_join]
      rcases Nat.lt_or_ge i s.parties.length with hold | hnew
      · rw [List.getElem?_append_left hold] at hp
        exact h.parties i p hp
      · rw [List.getElem?_append_right hnew] at hp
        obtain ⟨hi, hp⟩ := List.getElem?_eq_some_iff.mp hp
        rw [List.getElem_singleton] at hp
        subst hp
        rw [h.fresh i hnew]
        exact ⟨party, hjoins, .start⟩
  | @move j label party party' hparty hmoves hroom =>
    have hj := (List.getElem?_eq_some_iff.mp hparty).1
    refine ⟨fun i hi => ?_, fun i p hp => ?_⟩
    · rw [List.length_set] at hi
      rw [own_move, if_neg (by omega), List.append_nil]
      exact h.fresh i hi
    · rw [own_move]
      by_cases hij : j = i
      · subst hij
        rw [List.getElem?_set_self hj] at hp
        cases hp
        obtain ⟨first, hjoins, hrun⟩ := h.parties j party hparty
        rw [if_pos rfl]
        exact ⟨first, hjoins, .next hrun hmoves⟩
      · rw [List.getElem?_set_ne hij] at hp
        rw [if_neg hij, List.append_nil]
        exact h.parties i p hp

theorem party (hrun : Trace (Step weight joins moves) (start capacity) labels s) {i : Nat}
    {p : σ} (hp : s.parties[i]? = some p) :
    ∃ first, joins first ∧ Trace moves first (own i labels) p := by
  have haccounted : Accounted joins moves labels s := by
    refine hrun.invariant ⟨fun _ _ => rfl, fun _ _ h => by cases h⟩ fun h hstep => h.step hstep
  exact haccounted.parties i p hp

/-- What holds of every party as it joins, and is kept by its moves, holds of every party. -/
theorem forall_parties {J : σ → Prop} (hjoins : ∀ party, joins party → J party)
    (hmoves : ∀ {party label party'}, J party → moves party label party' → J party')
    (hrun : Trace (Step weight joins moves) (start capacity) labels s) :
    ∀ party ∈ s.parties, J party := by
  intro p hp
  obtain ⟨i, hi⟩ := List.getElem?_of_mem hp
  obtain ⟨first, hfirst, htrace⟩ := party hrun hi
  exact htrace.state_invariant (hjoins first hfirst) hmoves

end Pool

end Zhir.Library
