import Zhir.Core.Chain
import Zhir.Kernel.CommandDelivery

/-!
The durable checkpoints of a run in the order they were written: each one goes on from the
head the store had before it, through every crash, lost confirmation and recovery.
-/

set_option autoImplicit false
set_option relaxedAutoImplicit false

namespace Zhir.Kernel

open Zhir.Core
open Zhir.Library (Program)
open Relation (ReflTransGen)

variable (cfg : Config)

/-- How a checkpoint became durable over the head of that moment. -/
inductive Successor : Option Checkpoint → Checkpoint → Prop
  | opens {w : World} {request : Request} {expired : Bool} {c : Checkpoint}
      (h : Opens cfg w request expired c)
      (hresumes : ∀ base messages resolutions metadata,
        request = .recover base messages resolutions metadata → w.head = some base) :
      Successor w.head c
  | commit {e : Engine} {w : World} {next : Checkpoint} {fact : Fact} {delta : HistoryDelta}
      (hhead : w.head = some e.current) (hcommits : Commits cfg e next fact)
      (haccepts : Accepts cfg w e.current next fact delta) :
      Successor (some e.current) (stamp cfg w e.current next fact)
  | settle {w : World} {c : Checkpoint} {error : Error} (hhead : w.head = some c)
      (haccepts : Accepts cfg w c (stageSettled (settledState error).1 c)
        (.control (settledState error).2) .unchanged) :
      Successor (some c)
        (stamp cfg w c (stageSettled (settledState error).1 c) (.control (settledState error).2))

/-- Checkpoints newest first, each the successor of the one before it. -/
inductive Chronicle : List Checkpoint → Prop
  | nil : Chronicle []
  | cons {c : Checkpoint} {older : List Checkpoint} (hlast : Successor cfg older.head? c)
      (hbefore : Chronicle older) : Chronicle (c :: older)

/-- The head is the newest durable checkpoint, and the durable ones are a chronicle. -/
structure World.Chronicled (w : World) : Prop where
  head : w.head = w.durable.head?
  chronicle : Chronicle cfg w.durable

variable {cfg} {e e' : Engine} {w w' : World} {cause : Cause}

namespace World.Chronicled

theorem congr (h : w.Chronicled cfg) (hhead : w'.head = w.head)
    (hdurable : w'.durable = w.durable) : w'.Chronicled cfg := by
  refine ⟨?_, ?_⟩
  · rw [hhead, hdurable]
    exact h.head
  · rw [hdurable]
    exact h.chronicle

theorem counted (h : w.Chronicled cfg) (hw : w.Counted w') : w'.Chronicled cfg :=
  h.congr hw.head hw.durable

theorem extend {c : Checkpoint} (h : w.Chronicled cfg) (hlast : Successor cfg w.head c)
    (hhead : w'.head = some c) (hdurable : w'.durable = c :: w.durable) : w'.Chronicled cfg := by
  refine ⟨?_, ?_⟩
  · rw [hhead, hdurable]
    rfl
  · rw [hdurable]
    refine .cons ?_ h.chronicle
    rw [← h.head]
    exact hlast

theorem saved {next : Checkpoint} {fact : Fact} (h : e.world.Chronicled cfg)
    (hw : e.world.Counted w)
    (hlast : Successor cfg e.world.head (stamp cfg w e.current next fact)) :
    (e.saved cfg w next fact).world.Chronicled cfg :=
  h.extend hlast rfl (saved_durable hw next fact)

theorem writes (h : e.world.Chronicled cfg) (hhead : e.world.head = some e.current)
    (hwrites : Writes cfg e e') : e'.world.Chronicled cfg := by
  cases hwrites with
  | quiet _ hsame hdurable => exact h.congr hsame hdurable
  | commit hw hcommits haccepts hcurrent hnow hdurable =>
    have hlast := Successor.commit (hw.head.trans hhead) hcommits haccepts
    rw [← hhead, ← hcurrent] at hlast
    exact h.extend hlast hnow hdurable

theorem opened {order : List String} {request : Request} {expired : Bool} {first : Checkpoint}
    (h : w.Chronicled cfg) (hsubmitted : Submitted cfg order w)
    (hopens : Opens cfg w request expired first) : (w.opened first).Chronicled cfg := by
  refine h.extend (.opens hopens fun base messages resolutions metadata hrequest => ?_) rfl rfl
  subst hrequest
  exact hsubmitted.resumes hopens

theorem settled (h : e.world.Chronicled cfg) (hhead : e.world.head = some e.current)
    (error : Error) : (Program.run (settle cfg error) e).2.world.Chronicled cfg := by
  obtain ⟨w, hw, hsame | ⟨haccepts, hsettled⟩⟩ := settle_writes cfg error e
  · rw [hsame]
    exact h.counted hw
  · rw [hsettled]
    refine h.saved (.refl _) ?_
    rw [hhead]
    exact .settle hhead haccepts

theorem fault {error : Error} (h : e.world.Chronicled cfg)
    (hhead : e.world.head = some e.current) (hfault : Fault cfg cause e error e') :
    (Program.run (settle cfg error) e').2.world.Chronicled cfg := by
  cases hfault with
  | stopped hcurrent _ hworld =>
    refine (h.counted hworld).settled ?_ error
    rw [hworld.head, hcurrent]
    exact hhead
  | unconfirmed hmove _ _ hworld =>
    have hsame : (Program.run (settle cfg commitTimeout) e').2 = e' := rfl
    rw [hsame, hworld]
    exact h.writes hhead hmove.writes
  | unstarted hw hrecord hqueued _ _ haccepts hcurrent _ hworld =>
    have hlast := Successor.commit (hw.head.trans hhead) (.admitted hrecord hqueued) haccepts
    rw [← hhead] at hlast
    refine ((h.saved hw hlast).counted hworld).settled ?_ error
    rw [hworld.head, hcurrent]
    rfl

end World.Chronicled

theorem Reached.chronicled {p : Point} (h : Reached cfg p) : p.world.Chronicled cfg := by
  refine h.rule (I := fun p => p.world.Chronicled cfg) ⟨rfl, .nil⟩ ?_
  intro p p' hreached hchronicle hstep
  cases hstep with
  | wait hw => exact hchronicle.counted hw
  | lost h =>
    obtain ⟨order, hsubmitted⟩ := hreached.delivers
    exact hchronicle.opened hsubmitted h
  | boot h =>
    obtain ⟨order, hsubmitted⟩ := hreached.delivers
    exact hchronicle.opened hsubmitted h
  | turn _ hturn => exact hchronicle.writes (Reached.sound hreached).head hturn.writes
  | task =>
    obtain ⟨hdurable, hhead⟩ := Engine.runTask_durable cfg _ _ _
    exact hchronicle.congr hhead hdurable
  | lateTask =>
    obtain ⟨hdurable, hhead⟩ := Engine.runTask_durable cfg _ _ _
    exact hchronicle.congr hhead hdurable
  | fail _ hfault => exact hchronicle.fault (Reached.sound hreached).head hfault
  | _ => exact hchronicle.congr rfl rfl

private theorem Step.durable_added {p p' : Point} (hreached : Reached cfg p) (h : Step cfg p p') :
    ∃ added, p'.world.durable = added ++ p.world.durable := by
  cases h with
  | wait hw => exact ⟨[], hw.durable⟩
  | lost h => exact ⟨[_], rfl⟩
  | boot h => exact ⟨[_], rfl⟩
  | turn _ hturn =>
    cases hturn.writes with
    | quiet _ _ hdurable => exact ⟨[], hdurable⟩
    | commit _ _ _ _ _ hdurable => exact ⟨[_], hdurable⟩
  | task => exact ⟨[], (Engine.runTask_durable cfg _ _ _).1⟩
  | lateTask => exact ⟨[], (Engine.runTask_durable cfg _ _ _).1⟩
  | fail _ hfault =>
    obtain ⟨_, added, settled, -, -, hdurable⟩ := fail_durable hfault
    exact ⟨settled ++ added, hdurable⟩
  | _ => exact ⟨[], rfl⟩

private theorem durable_grows {p p' : Point} (hreached : Reached cfg p)
    (h : ReflTransGen (Step cfg) p p') : ∃ added, p'.world.durable = added ++ p.world.durable := by
  induction h with
  | refl => exact ⟨[], rfl⟩
  | tail hsteps hstep ih =>
    obtain ⟨before, hbefore⟩ := ih
    obtain ⟨added, hadded⟩ := Step.durable_added (hreached.trans hsteps) hstep
    refine ⟨added ++ before, ?_⟩
    rw [hadded, hbefore, List.append_assoc]

private theorem run_leads {s : System} {p : Point} (hshows : Shows s p) (hreached : Reached cfg p)
    (actions : List Action) : Leads cfg p (System.run cfg s actions) := by
  induction actions generalizing s p with
  | nil => exact ⟨p, .refl, hshows⟩
  | cons action rest ih =>
    obtain ⟨p', hsteps, hshows'⟩ := step_leads hshows hreached action
    obtain ⟨p'', hrest, hlast⟩ := ih hshows' (hreached.trans hsteps)
    exact ⟨p'', hsteps.trans hrest, hlast⟩

private theorem Shows.world_eq {s : System} {p : Point} (h : Shows s p) : p.world = s.world := by
  cases h <;> rfl

theorem Reachable.run {s : System} (hs : Reachable cfg s) (actions : List Action) :
    Reachable cfg (System.run cfg s actions) := by
  obtain ⟨before, rfl⟩ := hs
  exact ⟨before ++ actions, (List.foldl_append ..).symm⟩

theorem reachable_chronicled {s : System} (hs : Reachable cfg s) : s.world.Chronicled cfg :=
  reachable_world (fun _ hp => hp.chronicled) hs

private theorem run_durable {s : System} (hs : Reachable cfg s) (actions : List Action) :
    ∃ added, (System.run cfg s actions).world.durable = added ++ s.world.durable := by
  obtain ⟨p, hreached, hshows⟩ := reached_of_reachable hs
  obtain ⟨p', hsteps, hshows'⟩ := run_leads hshows hreached actions
  obtain ⟨added, hadded⟩ := durable_grows hreached hsteps
  refine ⟨added, ?_⟩
  rw [← hshows'.world_eq, ← hshows.world_eq]
  exact hadded

theorem Successor.accepted {head : Option Checkpoint} {c : Checkpoint}
    (h : Successor cfg head c) : ∃ delta, (Commit.mk c delta).validateAgainst head = .ok () := by
  cases h with
  | opens h _ => exact ⟨_, h.accepts⟩
  | commit hhead _ haccepts =>
    rw [← hhead]
    exact ⟨_, haccepts⟩
  | settle hhead haccepts =>
    rw [← hhead]
    exact ⟨_, haccepts⟩

theorem Successor.active {head c : Checkpoint} (h : Successor cfg (some head) c) :
    head.state.terminal = false := by
  obtain ⟨_, haccepted⟩ := h.accepted
  exact (Commit.accepted_of_ok haccepted).follows.terminal

theorem Chronicle.last {c : Checkpoint} {older : List Checkpoint} (h : Chronicle cfg (c :: older)) :
    Successor cfg older.head? c := by
  cases h with
  | cons hlast _ => exact hlast

theorem Chronicle.suffix {newer older : List Checkpoint} (h : Chronicle cfg (newer ++ older)) :
    Chronicle cfg older := by
  induction newer with
  | nil => exact h
  | cons c newer ih =>
    cases h with
    | cons _ hbefore => exact ih hbefore

theorem Chronicle.terminal {newer older : List Checkpoint} {c : Checkpoint}
    (h : Chronicle cfg (newer ++ c :: older)) (hterminal : c.state.terminal = true) :
    newer = [] := by
  induction newer using List.reverseRecOn with
  | nil => rfl
  | append_singleton newer next _ =>
    rw [List.append_assoc] at h
    have hactive := h.suffix.last.active
    rw [hterminal] at hactive
    cases hactive

/-- A terminal checkpoint is final: whatever happens afterwards, crashes and recoveries
included, nothing more becomes durable and it stays the head. -/
theorem terminal_final {s : System} (hs : Reachable cfg s) {c : Checkpoint}
    (hc : c ∈ s.world.durable) (hterminal : c.state.terminal = true) (actions : List Action) :
    (System.run cfg s actions).world.durable = s.world.durable ∧
      (System.run cfg s actions).world.head = some c := by
  obtain ⟨newer, older, hdurable⟩ := List.append_of_mem hc
  obtain ⟨added, hadded⟩ := run_durable hs actions
  have hchronicled := reachable_chronicled (hs.run actions)
  have hchronicle := hchronicled.chronicle
  rw [hadded, hdurable, ← List.append_assoc] at hchronicle
  obtain ⟨rfl, rfl⟩ := List.append_eq_nil_iff.mp (hchronicle.terminal hterminal)
  refine ⟨hadded, ?_⟩
  rw [hchronicled.head, hadded, hdurable]
  rfl

variable (cfg) in
/-- A checkpoint goes on from the history of the one before it. Only the host's reducer may
replace entries, and only while nothing is under way. -/
inductive Continues (old new : Checkpoint) : Prop
  | extended (hkept : old.history.entries <+: new.history.entries) : Continues old new
  | reduced {reduce : Nat → Checkpoint → Result (Option HistoryRewrite)} {answer : Nat}
      {rewrite : HistoryRewrite} (hreducer : cfg.historyReducer = some reduce)
      (hanswer : reduce answer old = .ok (some rewrite)) (hquiet : reducible old = true)
      (hfact : new.fact = .historyRewrite rewrite.reason)
      (hentries : new.history.entries = rewrite.entries) : Continues old new

theorem Change.continues {next : Checkpoint} {fact : Fact} {delta : HistoryDelta}
    (h : Change cfg cause e w next fact delta) (hrewrite : fact.isHistoryRewrite = true) :
    ∃ reduce answer rewrite, cfg.historyReducer = some reduce ∧
      reduce answer e.current = .ok (some rewrite) ∧ reducible e.current = true ∧
      fact = .historyRewrite rewrite.reason ∧ next.history.entries = rewrite.entries := by
  cases h with
  | rewrite _ _ hreducer hanswer hreducible _ hstage =>
    refine ⟨_, _, _, hreducer, hanswer, hreducible, rfl, ?_⟩
    obtain ⟨history, hhistory, hstaged⟩ := Result.bind_ok hstage
    cases hstaged
    exact (fromEntries_entries hhistory).1
  | _ => cases hrewrite

private theorem rewrite_of_replace {c : Commit} {previous : Checkpoint}
    (h : c.validateAgainst (some previous) = .ok ()) (hreplace : c.history.isReplace = true) :
    c.checkpoint.fact.isHistoryRewrite = true := by
  have hfollows := (Commit.checked_of_ok h).follows previous rfl
  unfold Commit.follows at hfollows
  obtain ⟨_, -, hfollows⟩ := Result.bind_ok hfollows
  obtain ⟨_, -, hfollows⟩ := Result.bind_ok hfollows
  obtain ⟨_, -, hfollows⟩ := Result.bind_ok hfollows
  have hcheck := firstError_ok hfollows _ List.mem_cons_self
  rw [hreplace, Bool.true_and] at hcheck
  simp only [Bool.or_eq_false_iff, Bool.not_eq_false'] at hcheck
  exact hcheck.2

private theorem prefix_of_accepted {c : Commit} {previous : Checkpoint}
    (h : c.validateAgainst (some previous) = .ok ())
    (hkept : c.checkpoint.fact.isHistoryRewrite = false) :
    previous.history.entries <+: c.checkpoint.history.entries := by
  have hentries := entries_of_accepted h
  have hreplace := rewrite_of_replace h
  obtain ⟨_, _, htarget, -⟩ := (Commit.checked_of_ok h).target
  cases hdelta : c.history with
  | initial entries =>
    simp only [Commit.target, hdelta] at htarget
    cases htarget
  | append entries =>
    rw [hentries, hdelta]
    exact List.prefix_append _ _
  | replace entries =>
    rw [hdelta] at hreplace
    rw [hreplace rfl] at hkept
    cases hkept
  | unchanged =>
    rw [hentries, hdelta]
    exact List.prefix_rfl

theorem Successor.continues {head : Option Checkpoint} {old new : Checkpoint}
    (h : Successor cfg head new) (hold : head = some old) : Continues cfg old new := by
  obtain ⟨delta, haccepted⟩ := h.accepted
  rw [hold] at haccepted
  by_cases hrewrite : new.fact.isHistoryRewrite = true
  · cases h with
    | opens hopens _ =>
      have hfact := hopens.fact
      cases hnew : new.fact <;> rw [hnew] at hfact hrewrite
      all_goals first | cases hfact; done | cases hrewrite
    | commit _ hcommits _ =>
      cases hold
      cases hcommits with
      | change hchange =>
        obtain ⟨_, _, _, hreducer, hanswer, hquiet, hfact, hsame⟩ := hchange.continues hrewrite
        exact .reduced hreducer hanswer hquiet hfact hsame
      | _ => cases hrewrite
    | settle _ _ => cases hrewrite
  · exact .extended (prefix_of_accepted haccepted (Bool.eq_false_of_not_eq_true hrewrite))

theorem Chronicle.continues {durable : List Checkpoint} (h : Chronicle cfg durable) :
    durable.IsChain fun new old => Continues cfg old new := by
  induction h with
  | nil => exact .nil
  | @cons c older hlast _ ih =>
    cases older with
    | nil => exact .singleton c
    | cons old older => exact .cons_cons (hlast.continues rfl) ih

/-- The conversation of a run only grows. Each durable checkpoint extends the history of the one
before it or holds what the host's reducer made of it while nothing was under way; without a
reducer every earlier history is a prefix of every later one. -/
theorem history_grows {s : System} (hs : Reachable cfg s) :
    (s.world.durable.IsChain fun new old => Continues cfg old new) ∧
      (cfg.historyReducer = none →
        s.world.durable.Pairwise fun new old => old.history.entries <+: new.history.entries) := by
  have hchain := (reachable_chronicled hs).chronicle.continues
  refine ⟨hchain, fun hnone => ?_⟩
  have hprefix : s.world.durable.IsChain fun new old =>
      old.history.entries <+: new.history.entries := by
    refine hchain.imp fun new old hcontinues => ?_
    cases hcontinues with
    | extended hkept => exact hkept
    | reduced hreducer =>
      rw [hnone] at hreducer
      cases hreducer
  have htrans : IsTrans Checkpoint fun new old =>
      old.history.entries <+: new.history.entries := ⟨fun _ _ _ h h' => h'.trans h⟩
  exact List.isChain_iff_pairwise.mp hprefix

theorem history_grows_sample :
    (sampleRun (sampleOpening (sampleOptions sampleLimits))).world.durable.Pairwise
      fun new old => old.history.entries <+: new.history.entries :=
  (history_grows ⟨_, rfl⟩).2 rfl

def sampleGone : System :=
  sampleRun [.start [.user [.text "go"]] ⟨"run", 0, none, none, none, []⟩
    (sampleOptions sampleLimits) true]

def sampleGoneHead : Checkpoint := sampleGone.head (by decide +kernel)

theorem terminal_final_sample :
    (System.run sampleConfig sampleGone
      [.crash, .recover sampleGoneHead [] [] [] false]).world.head =
      some sampleGoneHead :=
  (terminal_final ⟨_, rfl⟩ (System.head_mem _ _) (by decide +kernel) _).2

end Zhir.Kernel
