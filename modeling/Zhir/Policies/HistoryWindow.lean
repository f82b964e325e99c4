import Zhir.Core.Portions
import Zhir.Core.Retained
import Zhir.Core.Session
import Zhir.Core.Validity

/-!
Complete user-turn windows with caller-owned cross-turn dependencies.
-/

set_option autoImplicit false
set_option relaxedAutoImplicit false

namespace Zhir.Policies

open Zhir.Core

/-- The last `turns` user turns are kept; a callback may ask for more. -/
structure HistoryWindow where
  turns : Nat
  positive : turns ≠ 0
  dependencies : Option (Checkpoint → Nat → Result Nat)

namespace HistoryWindow

end HistoryWindow

def isSystem : Message → Bool
  | .system _ => true
  | _ => false

def turnStarts (entries : List HistoryEntry) : List Nat :=
  (entries.zipIdx.filter fun e => e.1.message.isUser).map Prod.snd

/-- Everything from `first` on, and system messages. -/
def retained (first : Nat) (entries : List HistoryEntry) : List HistoryEntry :=
  (entries.zipIdx.filter fun e => decide (e.2 ≥ first) || isSystem e.1.message).map Prod.fst

/-- Nothing is reduced while a response or an operation or a command is outstanding. -/
def settled (c : Checkpoint) : Bool :=
  c.state.active && c.active.session.responseStatus.isSome &&
    c.active.operations.toList.all (fun op => op.2.state.terminal) && c.active.commands.isEmpty

namespace HistoryWindow

/-- Where the window starts, given where its last turns start. -/
def expand (w : HistoryWindow) (c : Checkpoint) (starts : List Nat) (first : Nat) : Result Nat :=
  match w.dependencies with
  | none => .ok first
  | some dependencies => do
    let required ← dependencies c first
    if required > first then
      throw (.invalid "history dependency must expand the retained window")
    return (starts.reverse.find? fun index => index ≤ required).getD 0

/-- What is retained from the start of a turn on, checked as a history of its own. -/
def cut (w : HistoryWindow) (c : Checkpoint) (starts : List Nat) (first : Nat) :
    Result (Option HistoryRewrite) := do
  let messages := c.history.entries
  let first ← w.expand c starts first
  let kept := retained first messages
  if kept.length = messages.length then return none
  else do
    let history ← History.fromEntries kept
    history.validate
    return some ⟨kept, "retain last " ++ toString w.turns ++ " complete user turns"⟩

def reduce (w : HistoryWindow) (c : Checkpoint) : Result (Option HistoryRewrite) := do
  c.validate
  if settled c = false then return none
  else
    let starts := turnStarts c.history.entries
    if h : starts.length ≤ w.turns then return none
    else
      w.cut c starts (starts.get ⟨starts.length - w.turns, by have := w.positive; omega⟩)

end HistoryWindow

private theorem turnStarts_get (entries : List HistoryEntry) :
    ∀ n k : Nat, k < ((entries.zipIdx n).filter fun e => e.1.message.isUser).length →
      ∃ j turn, (((entries.zipIdx n).filter fun e => e.1.message.isUser).map Prod.snd)[k]? =
          some (n + j) ∧
        entries[j]? = some turn ∧ turn.message.isUser = true ∧
        (entries.drop j).countP (fun e => e.message.isUser) + k =
          ((entries.zipIdx n).filter fun e => e.1.message.isUser).length := by
  have hlength : ∀ (entries : List HistoryEntry) (n : Nat),
      ((entries.zipIdx n).filter fun e => e.1.message.isUser).length =
        entries.countP fun e => e.message.isUser := by
    intro entries n
    rw [← List.countP_eq_length_filter]
    have hmap := List.countP_map (p := fun e : HistoryEntry => e.message.isUser)
      (f := Prod.fst) (l := entries.zipIdx n)
    rw [List.zipIdx_map_fst] at hmap
    exact hmap.symm
  induction entries with
  | nil => intro n k hk; simp at hk
  | cons entry rest ih =>
    intro n k hk
    rw [List.zipIdx_cons] at hk ⊢
    cases huser : entry.message.isUser with
    | true =>
      rw [List.filter_cons_of_pos (by exact huser)] at hk ⊢
      cases k with
      | zero =>
        refine ⟨0, entry, rfl, rfl, huser, ?_⟩
        rw [List.drop_zero, List.countP_cons, if_pos huser, List.length_cons, hlength]
      | succ k =>
        obtain ⟨j, turn, hstart, hturn, hisUser, hcount⟩ :=
          ih (n + 1) k (by rw [List.length_cons] at hk; omega)
        refine ⟨j + 1, turn, ?_, hturn, hisUser, ?_⟩
        · rw [List.map_cons, List.getElem?_cons_succ, hstart]
          congr 1
          omega
        · rw [List.drop_succ_cons, List.length_cons, ← hcount]
          omega
    | false =>
      rw [List.filter_cons_of_neg (by simp [huser])] at hk ⊢
      obtain ⟨j, turn, hstart, hturn, hisUser, hcount⟩ := ih (n + 1) k hk
      refine ⟨j + 1, turn, ?_, hturn, hisUser, ?_⟩
      · rw [hstart]
        congr 1
        omega
      · rw [List.drop_succ_cons, hcount]

def kept (first : Nat) (entries : List HistoryEntry) : List HistoryEntry :=
  ((entries.take first).filter fun entry => isSystem entry.message) ++ entries.drop first

private theorem retained_eq (first : Nat) (entries : List HistoryEntry) :
    retained first entries = kept first entries := by
  have hfrom : ∀ (entries : List HistoryEntry) (n first : Nat),
      ((entries.zipIdx n).filter
        fun e => decide (e.2 ≥ n + first) || isSystem e.1.message).map Prod.fst =
        kept first entries := by
    intro entries
    induction entries with
    | nil => intro n first; simp [kept]
    | cons entry rest ih =>
      intro n first
      rw [List.zipIdx_cons]
      cases first with
      | zero =>
        have hrest := ih (n + 1) 0
        have hall : ∀ e ∈ rest.zipIdx (n + 1),
            (decide (e.2 ≥ n + 0) || isSystem e.1.message) =
              (decide (e.2 ≥ n + 1 + 0) || isSystem e.1.message) := by
          intro e he
          have hle := List.le_snd_of_mem_zipIdx he
          rw [decide_eq_true (by omega), decide_eq_true (by omega)]
        rw [List.filter_cons_of_pos (by simp), List.filter_congr hall, List.map_cons, hrest]
        simp [kept]
      | succ first =>
        have hrest := ih (n + 1) first
        rw [show n + 1 + first = n + (first + 1) by omega] at hrest
        have hbefore : ¬ n ≥ n + (first + 1) := by omega
        cases hsystem : isSystem entry.message with
        | true =>
          rw [List.filter_cons_of_pos (by simp [hsystem]), List.map_cons, hrest]
          simp [kept, hsystem]
        | false =>
          rw [List.filter_cons_of_neg (by simp [hsystem]), hrest]
          simp [kept, hsystem]
  have hzero := hfrom entries 0 first
  rw [Nat.zero_add] at hzero
  exact hzero

private theorem kept_sublist (first : Nat) (entries : List HistoryEntry) :
    (kept first entries).Sublist entries := by
  have hparts := (List.filter_sublist (p := fun entry : HistoryEntry => isSystem entry.message)
    (l := entries.take first)).append (List.Sublist.refl (entries.drop first))
  rwa [List.take_append_drop] at hparts

namespace HistoryWindow

variable {w : HistoryWindow} {c : Checkpoint}

def Closed (entries : List HistoryEntry) : Prop :=
  ∀ entry ∈ entries, ∀ x, entry.resolved = some x → x ∈ calledIn entries

private theorem cut_cases (hw : w.dependencies = none) (hpaired : Paired c.history.entries)
    (hentries : ∀ entry ∈ c.history.entries, entry.validate = .ok ()) (starts : List Nat)
    {first : Nat} (hsome : kept first c.history.entries ≠ []) :
    w.cut c starts first = .ok none ∨
      Closed (kept first c.history.entries) ∧
        (∃ history, History.fromEntries (kept first c.history.entries) = .ok history ∧
          history.validate = .ok ()) ∧
        w.cut c starts first = .ok (some ⟨kept first c.history.entries,
          "retain last " ++ toString w.turns ++ " complete user turns"⟩) ∨
      ¬ Closed (kept first c.history.entries) ∧
        ∃ violation, w.cut c starts first = .error (.invalid violation) := by
  have hsub := kept_sublist first c.history.entries
  obtain ⟨history, hfrom, hkept⟩ :=
    fromEntries_of_valid fun entry hentry => hentries entry (hsub.subset hentry)
  have hok : history.validate = .ok () ↔ Closed (kept first c.history.entries) := by
    rw [History.validate_ok_iff, hkept, and_iff_right hsome, (Order.index_tracks _).1]
    exact paired_sublist_iff hpaired hsub
  have hexpand : w.expand c starts first = .ok first := by
    unfold expand
    rw [hw]
  have hbody : w.cut c starts first =
      if (kept first c.history.entries).length = c.history.entries.length then .ok none
      else do
        let history ← History.fromEntries (kept first c.history.entries)
        history.validate
        return some ⟨kept first c.history.entries,
          "retain last " ++ toString w.turns ++ " complete user turns"⟩ := by
    unfold cut
    rw [hexpand, ← retained_eq]
    rfl
  rw [hbody, hfrom]
  split
  · exact .inl rfl
  · rcases history.validate_cases with hvalid | ⟨violation, hviolation⟩
    · refine .inr (.inl ⟨hok.mp hvalid, ⟨history, rfl, hvalid⟩, ?_⟩)
      change (history.validate >>= fun _ => _) = _
      rw [hvalid]
      rfl
    · refine .inr (.inr ⟨fun hclosed => ?_, violation, ?_⟩)
      · have hvalid := hok.mpr hclosed
        rw [hviolation] at hvalid
        cases hvalid
      · change (history.validate >>= fun _ => _) = _
        rw [hviolation]
        rfl

/-- Without a callback a window is declined, or starts at the last user turn it asks for and is
returned exactly when it is closed. -/
theorem reduce_cases (hw : w.dependencies = none) (hvalid : c.validate = .ok ())
    (hentries : ∀ entry ∈ c.history.entries, entry.validate = .ok ()) :
    w.reduce c = .ok none ∨
    ∃ first turn, c.history.entries[first]? = some turn ∧ turn.message.isUser = true ∧
      (c.history.entries.drop first).countP (fun e => e.message.isUser) = w.turns ∧
      (Closed (kept first c.history.entries) ∧
        (∃ history, History.fromEntries (kept first c.history.entries) = .ok history ∧
          history.validate = .ok ()) ∧
        w.reduce c = .ok (some ⟨kept first c.history.entries,
          "retain last " ++ toString w.turns ++ " complete user turns"⟩) ∨
      ¬ Closed (kept first c.history.entries) ∧
        ∃ violation, w.reduce c = .error (.invalid violation)) := by
  have hpaired : Paired c.history.entries := by
    have hordered := (Checkpoint.valid_of_validate hvalid).ordered
    rw [c.history.indexed] at hordered
    exact (Order.index_tracks _).1.mp hordered
  have hbody : w.reduce c = if settled c = false then .ok none else
      let starts := turnStarts c.history.entries
      if h : starts.length ≤ w.turns then .ok none
      else
        w.cut c starts (starts.get ⟨starts.length - w.turns, by have := w.positive; omega⟩) := by
    unfold reduce
    rw [hvalid]
    rfl
  by_cases hsettled : settled c = false
  · exact .inl (by rw [hbody, if_pos hsettled])
  rw [if_neg hsettled] at hbody
  by_cases hfew : (turnStarts c.history.entries).length ≤ w.turns
  · exact .inl (by rw [hbody]; exact dif_pos hfew)
  have hlength : (turnStarts c.history.entries).length =
      (c.history.entries.zipIdx.filter fun e => e.1.message.isUser).length := List.length_map _
  have hpositive := w.positive
  have hk : (turnStarts c.history.entries).length - w.turns <
      (turnStarts c.history.entries).length := by omega
  obtain ⟨first, turn, hstart, hturn, huser, hcount⟩ :=
    turnStarts_get c.history.entries 0 _ (hlength ▸ hk)
  rw [Nat.zero_add, ← hlength] at hstart
  have hcut : w.reduce c = w.cut c (turnStarts c.history.entries) first := by
    rw [hbody]
    refine (dif_neg hfew).trans ?_
    congr 1
    exact Option.some.inj ((List.getElem?_eq_getElem hk).symm.trans hstart)
  have hsome : kept first c.history.entries ≠ [] := by
    have hmem : turn ∈ c.history.entries.drop first := by
      refine List.mem_of_getElem? (i := 0) ?_
      rw [List.getElem?_drop, Nat.add_zero]
      exact hturn
    exact List.ne_nil_of_mem (List.mem_append_right _ hmem)
  rcases cut_cases hw hpaired hentries (turnStarts c.history.entries) hsome with
    hnone | hcases
  · exact .inl (hcut.trans hnone)
  · rw [← hlength] at hcount
    refine .inr ⟨first, turn, hturn, huser, by omega, ?_⟩
    rw [hcut]
    exact hcases

end HistoryWindow

end Zhir.Policies
