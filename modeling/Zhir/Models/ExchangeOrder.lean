import Zhir.Core.Commit
import Zhir.Models.ExchangeLive

/-!
The order of the events of an exchange session, in every run.
-/

set_option autoImplicit false
set_option relaxedAutoImplicit false

namespace Zhir.Models.Exchange

open Zhir.Core
open Zhir.Library (Machine)

/-- Events in the order that a session keeps: numbered without gap, `Ready` first, the events of
the generations one generation after the other, deltas after the start of their generation, and
nothing but deltas after the closing. -/
structure Ordered (revision : Nat) (generations : List Generation) (l : List (Nat × Emitted)) :
    Prop where
  sequences : l.map Prod.fst = List.range l.length
  first : ∀ e ∈ (l.map Prod.snd).head?, e = ⟨.ready revision, none⟩
  blocks : (l.map Prod.snd).filter ofGeneration <+: generations.flatMap Generation.events
  deltas : ∀ before after generationId v,
    l.map Prod.snd = before ++ ⟨.delta (some generationId) v, none⟩ :: after →
      ∃ inputPosition, startedEvent (generationId, inputPosition) ∈ before
  closed : ∀ before e after, l.map Prod.snd = before ++ e :: after → isClosed e = true →
    ∀ e' ∈ after, isDelta e' = true

section Ordering

variable {revision : Nat} {generations generations' : List Generation} {l l' : List (Nat × Emitted)}

private theorem place_concat {α : Type} {l before after : List α} {x y : α}
    (h : l ++ [x] = before ++ y :: after) :
    (l = before ∧ x = y ∧ after = []) ∨
      ∃ after', after = after' ++ [x] ∧ l = before ++ y :: after' := by
  rcases List.eq_nil_or_concat after with rfl | ⟨after', z, rfl⟩
  · obtain ⟨hl, hx⟩ := List.append_inj' h rfl
    exact .inl ⟨hl, List.singleton_inj.mp hx, rfl⟩
  · have h : l ++ [x] = (before ++ y :: after') ++ [z] := by
      rw [h]
      simp
    obtain ⟨hl, hx⟩ := List.append_inj' h rfl
    rw [List.singleton_inj.mp hx]
    exact .inr ⟨after', by simp, hl⟩

private theorem Ordered.prefix_of (h : Ordered revision generations l) (hl : l' <+: l) :
    Ordered revision generations l' := by
  obtain ⟨rest, rfl⟩ := hl
  have hmap : (l' ++ rest).map Prod.snd = l'.map Prod.snd ++ rest.map Prod.snd := List.map_append
  refine ⟨?_, ?_, ?_, ?_, ?_⟩
  · have hsequences := congrArg (List.take l'.length) h.sequences
    rw [List.map_append, List.take_left' (List.length_map ..), List.take_range] at hsequences
    rw [hsequences, List.length_append, Nat.min_eq_left (Nat.le_add_right _ _)]
  · intro e he
    apply h.first
    cases l' with
    | nil => cases he
    | cons x l' => exact he
  · have hblocks := h.blocks
    rw [hmap, List.filter_append] at hblocks
    exact (List.prefix_append _ _).trans hblocks
  · intro before after generationId v heq
    apply h.deltas before (after ++ rest.map Prod.snd) generationId v
    rw [hmap, heq, List.append_assoc]
    rfl
  · intro before e after heq hclosed e' he'
    apply h.closed before e (after ++ rest.map Prod.snd) _ hclosed e' (List.mem_append_left _ he')
    rw [hmap, heq, List.append_assoc]
    rfl

theorem Ordered.mono (h : Ordered revision generations l)
    (hle : generations.flatMap Generation.events <+: generations'.flatMap Generation.events) :
    Ordered revision generations' l :=
  ⟨h.sequences, h.first, h.blocks.trans hle, h.deltas, h.closed⟩

theorem Ordered.concat {e : Emitted} (h : Ordered revision generations l)
    (hfirst : l = [] → e = ⟨.ready revision, none⟩)
    (hblocks : (l.map Prod.snd ++ [e]).filter ofGeneration <+:
      generations.flatMap Generation.events)
    (hdelta : ∀ generationId v, e = ⟨.delta (some generationId) v, none⟩ →
      ∃ inputPosition, startedEvent (generationId, inputPosition) ∈ l.map Prod.snd)
    (hclosed : ∀ e' ∈ l.map Prod.snd, isClosed e' = true → isDelta e = true) :
    Ordered revision generations (l ++ [(l.length, e)]) := by
  have hmap : (l ++ [(l.length, e)]).map Prod.snd = l.map Prod.snd ++ [e] := List.map_append
  refine ⟨?_, ?_, ?_, ?_, ?_⟩
  · rw [List.map_append, h.sequences, List.length_append]
    exact List.range_succ.symm
  · intro e' he'
    cases l with
    | nil =>
      cases he'
      exact hfirst rfl
    | cons x l => exact h.first e' he'
  · rw [hmap]
    exact hblocks
  · intro before after generationId v heq
    rw [hmap] at heq
    rcases place_concat heq with ⟨rfl, he, -⟩ | ⟨after', -, hold⟩
    · exact hdelta generationId v he
    · exact h.deltas before after' generationId v hold
  · intro before e' after heq hclosed' x hx
    rw [hmap] at heq
    rcases place_concat heq with ⟨-, -, rfl⟩ | ⟨after', rfl, hold⟩
    · cases hx
    · rcases List.mem_append.mp hx with hx | hx
      · exact h.closed before e' after' hold hclosed' x hx
      · rw [List.mem_singleton.mp hx]
        apply hclosed e' _ hclosed'
        rw [hold]
        exact List.mem_append_right _ List.mem_cons_self

end Ordering

/-- What holds of the events that have been sent, also when the task has returned. -/
structure Past (adapter : Adapter) (revision : Nat) (s : Session) : Prop where
  ordered : Ordered revision s.generations s.emitted
  sequence : s.sequence = s.emitted.length
  invoked : ∀ generationId ∈ s.invoked,
    ∃ inputPosition, startedEvent (generationId, inputPosition) ∈ s.bodies
  earlier : ∀ g ∈ s.generations.dropLast, g.response.isSome = true
  responses : ∀ g ∈ s.generations, ∀ f, g.response = some f → ∃ r, validate r = .ok () ∧
    FinishEvents.new adapter g.generationId g.inputPosition r = .ok f

section Pasts

variable {adapter : Adapter} {revision : Nat} {s s' : Session} {a : Action}

theorem Past.nonempty (h : Past adapter revision s) (hinvoked : s.invoked ≠ []) :
    s.bodies ≠ [] := by
  obtain ⟨generationId, hmem⟩ := List.exists_mem_of_ne_nil _ hinvoked
  obtain ⟨_, hstarted⟩ := h.invoked generationId hmem
  exact List.ne_nil_of_mem hstarted

theorem Past.delta {generationId : String} (h : Past adapter revision s) (v : Value)
    (hinvoked : generationId ∈ s.invoked) :
    Past adapter revision (s.push ⟨.delta (some generationId) v, none⟩) := by
  have hne := h.nonempty (List.ne_nil_of_mem hinvoked)
  refine ⟨?_, ?_, ?_, h.earlier, h.responses⟩
  · show Ordered revision s.generations (s.emitted ++ [(s.sequence, _)])
    rw [h.sequence]
    apply h.ordered.concat
    · intro hnil
      exact absurd (congrArg (List.map Prod.snd) hnil) hne
    · rw [List.filter_append]
      exact (List.append_nil _).symm ▸ h.ordered.blocks
    · intro generationId' v' heq
      obtain ⟨inputPosition, hstarted⟩ := h.invoked generationId hinvoked
      cases heq
      exact ⟨inputPosition, hstarted⟩
    · intro _ _ _
      rfl
  · show s.sequence + 1 = (s.emitted ++ [_]).length
    rw [h.sequence, List.length_append]
    rfl
  · intro g hg
    obtain ⟨inputPosition, hstarted⟩ := h.invoked g hg
    rw [Session.bodies_push]
    exact ⟨inputPosition, List.mem_append_left _ hstarted⟩

theorem Past.sent {e : Emitted} (h : Past adapter revision s) (hlive : Live revision s)
    (hsending : s.sending = some e) : Past adapter revision (s.push e).delivered := by
  have hmem : e ∈ s.pending := by
    unfold Session.pending
    rw [hsending]
    exact List.mem_cons_self
  refine ⟨?_, ?_, ?_, ?_, ?_⟩
  · rw [Session.generations_delivered, Session.emitted_delivered]
    show Ordered revision s.generations (s.emitted ++ [(s.sequence, e)])
    rw [h.sequence]
    apply h.ordered.concat
    · intro hnil
      obtain ⟨tail, htail⟩ := hlive.ready
      unfold Session.bodies Session.pending at htail
      rw [hnil, hsending] at htail
      exact (List.cons.inj htail).1
    · have hblocks := (hlive.sent hsending).blocks
      rw [Session.bodies_delivered, Session.bodies_push, Session.generations_delivered,
        List.append_assoc, List.filter_append] at hblocks
      rw [show s.generations.flatMap Generation.events = _ from hblocks.symm]
      exact List.prefix_append _ _
    · intro generationId v heq
      have hquiet := hlive.quiet e hmem
      rw [heq] at hquiet
      cases hquiet
    · intro e' he' hclosed
      rw [hlive.open_of_pending hmem e' he'] at hclosed
      cases hclosed
  · rw [Session.sequence_delivered, Session.emitted_delivered]
    show s.sequence + 1 = (s.emitted ++ [_]).length
    rw [h.sequence, List.length_append]
    rfl
  · rw [Session.bodies_delivered, Session.bodies_push, Session.invoked_delivered]
    intro g hg
    have hold : ∀ g ∈ s.invoked, ∃ p, startedEvent (g, p) ∈ s.bodies ++ [e] := by
      intro g hg
      obtain ⟨inputPosition, hstarted⟩ := h.invoked g hg
      exact ⟨inputPosition, List.mem_append_left _ hstarted⟩
    have hg : g ∈ if s.emission = .start then s.invoked ++ s.task.active.toList.map Prod.fst
      else s.invoked := hg
    by_cases hstart : s.emission = .start
    · rw [if_pos hstart] at hg
      rcases List.mem_append.mp hg with hg | hg
      · exact hold g hg
      · have hstarted := (hlive.start e hsending).mp hstart
        obtain ⟨-, generation, hactive, he, -⟩ := hlive.starting hsending hstarted
        rw [hactive] at hg
        rw [List.mem_singleton.mp hg, he]
        exact ⟨generation.2, List.mem_append_right _ List.mem_cons_self⟩
    · rw [if_neg hstart] at hg
      exact hold g hg
  · rw [Session.generations_delivered]
    exact h.earlier
  · rw [Session.generations_delivered]
    exact h.responses

theorem Past.exchanged {generationId : String} {inputPosition : Nat} {r : GenerationOutput}
    {f : FinishEvents} (h : Past adapter revision s) (hlive : Live revision s)
    (hactive : s.task.active = some (generationId, inputPosition)) (hvalid : validate r = .ok ())
    (hnew : FinishEvents.new adapter generationId inputPosition r = .ok f) :
    Past adapter revision { s with
      task.active := none
      generating := false
      finishing := some f
      generations := Session.settled s.generations f
      phase := .top } := by
  have hcurrent := hlive.current
  rw [hactive] at hcurrent
  obtain ⟨init, commandId, hgenerations, hinit⟩ := hcurrent
  have hsettled : Session.settled s.generations f =
      init ++ [⟨generationId, inputPosition, commandId, some f⟩] := by
    unfold Session.settled
    rw [hgenerations, List.dropLast_concat, List.getLast?_concat]
    rfl
  refine ⟨?_, h.sequence, h.invoked, ?_, ?_⟩
  · apply h.ordered.mono
    rw [hsettled, hgenerations, List.flatMap_append, List.flatMap_append,
      List.prefix_append_right_inj, List.flatMap_singleton, List.flatMap_singleton]
    exact List.prefix_append _ _
  · show ∀ g ∈ (Session.settled s.generations f).dropLast, _
    rw [hsettled, List.dropLast_concat]
    exact hinit
  · show ∀ g ∈ Session.settled s.generations f, _
    rw [hsettled]
    intro g hg f' hf'
    rcases List.mem_append.mp hg with hold | hlast
    · exact h.responses g (hgenerations ▸ List.mem_append_left _ hold) f' hf'
    · rw [List.mem_singleton.mp hlast] at hf' ⊢
      cases hf'
      exact ⟨r, hvalid, hnew⟩

theorem Past.commanded {c : SessionCommand} {task : Task} {events : List Emitted}
    (h : Past adapter revision s) (hlive : Live revision s)
    (hcommand : Commanded s.task c (s.task.active.isSome || s.finishing.isSome) task events) :
    Past adapter revision { s with
      task
      controls := events
      closing := decide (c.body = .close)
      generations := s.accepted c
      phase := .top } := by
  have haccepted : s.accepted c = s.generations ∨
      s.task.active = none ∧ ∃ g, g.response = none ∧ s.accepted c = s.generations ++ [g] := by
    unfold Session.accepted
    cases hcommand with
    | generate generationId contextRevision inputPosition profileRevision hbody hbusy =>
      rw [hbody]
      have hnone := (Bool.or_eq_false_iff.mp hbusy).1
      exact .inr ⟨by simpa using hnone, _, rfl, rfl⟩
    | close hbody hbusy =>
      rw [hbody]
      exact .inl rfl
    | other hgenerate hclose hactive =>
      cases hbody : c.body with
      | generate g r p v => exact absurd hbody (hgenerate g r p v)
      | _ => exact .inl rfl
  rcases haccepted with hsame | ⟨hactive, g, hresponse, hgrown⟩
  · have hsame : s.accepted c = s.generations := hsame
    refine ⟨?_, h.sequence, h.invoked, ?_, ?_⟩
    · show Ordered revision (s.accepted c) s.emitted
      rw [hsame]
      exact h.ordered
    · show ∀ g ∈ (s.accepted c).dropLast, _
      rw [hsame]
      exact h.earlier
    · show ∀ g ∈ s.accepted c, _
      rw [hsame]
      exact h.responses
  · refine ⟨?_, h.sequence, h.invoked, ?_, ?_⟩
    · show Ordered revision (s.accepted c) s.emitted
      apply h.ordered.mono
      rw [hgrown, List.flatMap_append]
      exact List.prefix_append _ _
    · show ∀ g ∈ (s.accepted c).dropLast, _
      rw [hgrown, List.dropLast_concat]
      have hcurrent := hlive.current
      rw [hactive] at hcurrent
      exact hcurrent
    · show ∀ g ∈ s.accepted c, _
      rw [hgrown]
      intro g' hg' f hf
      rcases List.mem_append.mp hg' with hold | hlast
      · exact h.responses g' hold f hf
      · rw [List.mem_singleton.mp hlast, hresponse] at hf
        cases hf

theorem Past.step (h : Past adapter revision s) (hlive : s.phase ≠ .returned → Live revision s)
    (hstep : Stepped adapter s a s') : Past adapter revision s' := by
  have hwaiting : s.phase = .waiting → Live revision s := by
    intro hphase
    apply hlive
    rw [hphase]
    exact fun h => nomatch h
  cases hstep with
  | idle => exact h
  | ended => exact ⟨h.ordered, h.sequence, h.invoked, h.earlier, h.responses⟩
  | waits => exact ⟨h.ordered, h.sequence, h.invoked, h.earlier, h.responses⟩
  | staged => exact ⟨h.ordered, h.sequence, h.invoked, h.earlier, h.responses⟩
  | next => exact ⟨h.ordered, h.sequence, h.invoked, h.earlier, h.responses⟩
  | sent hphase hsending => exact h.sent (hwaiting hphase) hsending
  | exchanged _ hphase _ hactive hvalid hnew =>
    exact h.exchanged (hwaiting hphase) hactive hvalid hnew
  | commanded hphase _ _ _ hcommand => exact h.commanded (hwaiting hphase) hcommand
  | delta v hinvoked => exact h.delta v hinvoked
  | received =>
    obtain ⟨queue, stopped, error, replies, hreceive⟩ := s.receive_eq
    rw [hreceive]
    exact ⟨h.ordered, h.sequence, h.invoked, h.earlier, h.responses⟩

end Pasts

/-- What the consumer gets after all events: the terminal error once, and that nothing follows. -/
def Settled (t : Terminal) (replies : List Reply) : Prop :=
  ∃ n, replies = t.error.toList.map Reply.failed ++ List.replicate n .ended

def reply (e : Nat × Emitted) : Reply := .event ⟨e.1, e.2.body⟩

/-- The consumer gets the events in the order in which they entered the channel, and what the
terminal port holds after all of them. -/
structure Heard (s : Session) : Prop where
  terminal : s.terminal.isSome = true → s.phase = .returned
  waiting : s.stopped = false → ∃ seen, s.emitted = seen ++ s.queue ∧ s.replies = seen.map reply
  stopped : s.stopped = true → ∃ t, s.terminal = some t ∧
    ((∃ seen, s.emitted = seen ++ s.queue ∧ s.replies = seen.map reply ∧ s.error = t.error) ∨
      ∃ told, s.queue = [] ∧ s.error = none ∧ s.replies = s.emitted.map reply ++ told ∧
        Settled t told)

section Hearing

variable {adapter : Adapter} {revision : Nat} {s s' : Session} {a : Action}

theorem Heard.awake (h : Heard s) : Heard s.awake := by
  rcases s.awake_eq with hsame | ⟨t, hstopped, hterminal, hsettle⟩
  · rw [hsame]
    exact h
  · rw [hsettle]
    obtain ⟨seen, hemitted, hreplies⟩ := h.waiting hstopped
    refine ⟨h.terminal, (fun h => nomatch h), fun _ => ⟨t, hterminal, .inl ?_⟩⟩
    exact ⟨seen, hemitted, hreplies, rfl⟩

theorem Heard.answer (h : Heard s) : Heard s.answer := by
  rcases s.answer_eq with ⟨e, rest, hqueue, hanswer⟩ | ⟨hqueue, hstopped, e, herror, hanswer⟩ |
    ⟨hqueue, hstopped, herror, hanswer⟩ | ⟨-, -, hanswer⟩
  · rw [hanswer]
    have hmove : ∀ seen, s.emitted = seen ++ s.queue → s.emitted = (seen ++ [e]) ++ rest := by
      intro seen hseen
      rw [hseen, hqueue, List.append_assoc]
      rfl
    have hmap : ∀ seen, s.replies = seen.map reply →
        s.replies ++ [.event ⟨e.1, e.2.body⟩] = (seen ++ [e]).map reply := by
      intro seen hseen
      rw [hseen, List.map_append]
      rfl
    refine ⟨h.terminal, ?_, ?_⟩
    · intro hstopped
      obtain ⟨seen, hemitted, hreplies⟩ := h.waiting hstopped
      exact ⟨seen ++ [e], hmove seen hemitted, hmap seen hreplies⟩
    · intro hstopped
      obtain ⟨t, hterminal, ⟨seen, hemitted, hreplies, herror⟩ | ⟨_, hnil, -⟩⟩ :=
        h.stopped hstopped
      · exact ⟨t, hterminal, .inl ⟨seen ++ [e], hmove seen hemitted, hmap seen hreplies, herror⟩⟩
      · rw [hqueue] at hnil
        cases hnil
  · rw [hanswer]
    refine ⟨h.terminal, ?_, ?_⟩
    · intro hrunning
      have hrunning : s.stopped = false := hrunning
      rw [hstopped] at hrunning
      cases hrunning
    · intro _
      obtain ⟨t, hterminal, ⟨seen, hemitted, hreplies, hsame⟩ | ⟨_, -, hnone, -⟩⟩ :=
        h.stopped hstopped
      · rw [hqueue, List.append_nil] at hemitted
        refine ⟨t, hterminal, .inr ⟨[.failed e], hqueue, rfl, ?_, 0, ?_⟩⟩
        · show s.replies ++ _ = s.emitted.map reply ++ _
          rw [hreplies, hemitted]
        · rw [← hsame, herror]
          rfl
      · rw [herror] at hnone
        cases hnone
  · rw [hanswer]
    refine ⟨h.terminal, ?_, ?_⟩
    · intro hrunning
      have hrunning : s.stopped = false := hrunning
      rw [hstopped] at hrunning
      cases hrunning
    · intro _
      obtain ⟨t, hterminal, ⟨seen, hemitted, hreplies, hsame⟩ | ⟨told, -, -, hreplies, n, htold⟩⟩ :=
        h.stopped hstopped
      · rw [hqueue, List.append_nil] at hemitted
        refine ⟨t, hterminal, .inr ⟨[.ended], hqueue, herror, ?_, 1, ?_⟩⟩
        · show s.replies ++ _ = s.emitted.map reply ++ _
          rw [hreplies, hemitted]
        · rw [← hsame, herror]
          rfl
      · refine ⟨t, hterminal, .inr ⟨told ++ [.ended], hqueue, herror, ?_, n + 1, ?_⟩⟩
        · show s.replies ++ _ = s.emitted.map reply ++ _
          rw [hreplies, List.append_assoc]
        · rw [htold, List.append_assoc, List.replicate_succ']
  · rw [hanswer]
    exact h

theorem Heard.running (h : Heard s) (hphase : s.phase ≠ .returned) :
    s.terminal = none ∧ s.stopped = false := by
  have hterminal : s.terminal = none := by
    cases hterminal : s.terminal with
    | none => rfl
    | some t => exact absurd (h.terminal (by rw [hterminal]; rfl)) hphase
  refine ⟨hterminal, ?_⟩
  cases hstopped : s.stopped with
  | false => rfl
  | true =>
    obtain ⟨t, hsome, -⟩ := h.stopped hstopped
    rw [hterminal] at hsome
    cases hsome

theorem Heard.same (h : Heard s) (hphase : s.phase ≠ .returned)
    (hterminal : s'.terminal = s.terminal) (hstopped : s'.stopped = s.stopped)
    (hemitted : s'.emitted = s.emitted) (hqueue : s'.queue = s.queue)
    (hreplies : s'.replies = s.replies) : Heard s' := by
  obtain ⟨hnone, hrunning⟩ := h.running hphase
  refine ⟨?_, ?_, ?_⟩
  · rw [hterminal, hnone]
    exact fun h => nomatch h
  · rw [hemitted, hqueue, hreplies]
    exact fun _ => h.waiting hrunning
  · rw [hstopped, hrunning]
    exact fun h => nomatch h

theorem Heard.push (h : Heard s) (hstopped : s.stopped = false) (e : Emitted) :
    Heard (s.push e) := by
  refine ⟨h.terminal, ?_, ?_⟩
  · intro _
    obtain ⟨seen, hemitted, hreplies⟩ := h.waiting hstopped
    refine ⟨seen, ?_, hreplies⟩
    show s.emitted ++ _ = seen ++ (s.queue ++ _)
    rw [hemitted, List.append_assoc]
  · intro htrue
    rw [show s.stopped = true from htrue] at hstopped
    cases hstopped

theorem Heard.delivered (h : Heard s) (hphase : s.phase ≠ .returned) : Heard s.delivered := by
  apply h.same hphase <;>
    · unfold Session.delivered
      cases s.emission <;> rfl

theorem Heard.step (h : Heard s) (hstep : Stepped adapter s a s') : Heard s' := by
  have hrunning : ∀ phase : Phase, phase ≠ .returned → s.phase = phase → s.phase ≠ .returned := by
    intro phase hphase hsame
    rw [hsame]
    exact hphase
  cases hstep with
  | idle => exact h
  | ended a t hphase =>
    obtain ⟨-, hstopped⟩ := h.running hphase
    refine ⟨fun _ => rfl, h.waiting, ?_⟩
    intro htrue
    rw [show s.stopped = true from htrue] at hstopped
    cases hstopped
  | waits a hphase => exact h.same (hrunning _ (by decide) hphase) rfl rfl rfl rfl rfl
  | staged a hphase => exact h.same (hrunning _ (by decide) hphase) rfl rfl rfl rfl rfl
  | next a hphase => exact h.same (hrunning _ (by decide) hphase) rfl rfl rfl rfl rfl
  | sent hphase hsending =>
    have hphase := hrunning _ (by decide) hphase
    exact (h.push (h.running hphase).2 _).delivered hphase
  | exchanged _ hphase => exact h.same (hrunning _ (by decide) hphase) rfl rfl rfl rfl rfl
  | commanded hphase => exact h.same (hrunning _ (by decide) hphase) rfl rfl rfl rfl rfl
  | delta v hinvoked hstopped => exact h.push hstopped _
  | received => exact h.awake.answer

end Hearing

section Runs

variable {adapter : Adapter} {capabilities : CapabilitySet} {o : SessionOpen} {s : Session}

structure Reached (adapter : Adapter) (revision : Nat) (s : Session) : Prop where
  live : s.phase ≠ .returned → Live revision s
  past : Past adapter revision s
  heard : Heard s
  ended : s.phase = .returned → s.generating = false

theorem Stepped.returned {a : Action} {s' : Session} (hstep : Stepped adapter s a s')
    (hphase : s.phase = .returned) :
    s'.phase = .returned ∧ (s.generating = false → s'.generating = false) := by
  cases hstep with
  | idle | delta => exact ⟨hphase, id⟩
  | ended => exact ⟨rfl, fun _ => rfl⟩
  | waits a htop | staged a htop | next a htop | sent htop | exchanged _ htop | commanded htop =>
    rw [hphase] at htop
    cases htop
  | received =>
    obtain ⟨_, _, _, _, hreceive⟩ := s.receive_eq
    rw [hreceive]
    exact ⟨hphase, id⟩

theorem Stepped.ends {a : Action} {s' : Session} (hstep : Stepped adapter s a s')
    (hphase : s.phase ≠ .returned) (hreturned : s'.phase = .returned) :
    s'.generating = false := by
  cases hstep with
  | idle | delta => exact absurd hreturned hphase
  | ended => rfl
  | waits | staged | next | exchanged | commanded => cases hreturned
  | sent =>
    rw [Session.phase_delivered] at hreturned
    cases hreturned
  | received =>
    obtain ⟨_, _, _, _, hreceive⟩ := s.receive_eq
    rw [hreceive] at hreturned
    exact absurd hreturned hphase

theorem Reached.step {revision : Nat} (h : Reached adapter revision s) (a : Action) :
    Reached adapter revision (s.step adapter a) := by
  have hstep := s.stepped adapter a
  refine ⟨?_, h.past.step h.live hstep, h.heard.step hstep, ?_⟩
  · intro hphase
    have hbefore : s.phase ≠ .returned := fun hreturned => hphase (hstep.returned hreturned).1
    exact (h.live hbefore).step h.past.nonempty hstep hphase
  · intro hreturned
    by_cases hbefore : s.phase = .returned
    · exact (hstep.returned hbefore).2 (h.ended hbefore)
    · exact hstep.ends hbefore hreturned

private theorem openSession_emitted (h : openSession adapter capabilities o = .ok s) : s.emitted =
    [] := by
  unfold openSession at h
  obtain ⟨_, -, h⟩ := Result.bind_ok h
  obtain ⟨_, -, h⟩ := Result.bind_ok h
  obtain ⟨_, -, h⟩ := Result.bind_ok h
  obtain ⟨_, -, h⟩ := Result.bind_ok h
  obtain ⟨_, -, h⟩ := Result.bind_ok h
  cases h
  rfl

theorem Reached.start (h : openSession adapter capabilities o = .ok s) :
    Reached adapter o.contextRevision s := by
  unfold openSession at h
  obtain ⟨_, -, h⟩ := Result.bind_ok h
  obtain ⟨_, -, h⟩ := Result.bind_ok h
  obtain ⟨_, -, h⟩ := Result.bind_ok h
  obtain ⟨_, -, h⟩ := Result.bind_ok h
  obtain ⟨_, -, h⟩ := Result.bind_ok h
  cases h
  refine ⟨fun _ => ?_, ⟨⟨rfl, ?_, List.nil_prefix, ?_, ?_⟩, rfl, ?_, ?_, ?_⟩, ⟨?_, ?_, ?_⟩, ?_⟩
  · refine ⟨?_, ?_, ?_, ?_, ?_, rfl, rfl, ?_, ?_, ?_, ⟨[], rfl⟩, ?_⟩
    · exact fun _ h => nomatch h
    · exact fun _ h => nomatch h
    · exact fun _ h => nomatch h
    · exact fun h => nomatch h
    · exact fun h => nomatch h
    · exact fun _ h => nomatch h
    · exact fun _ => List.forall_mem_singleton.mpr rfl
    · exact fun h => nomatch h
    · exact List.forall_mem_singleton.mpr rfl
  · exact fun _ h => nomatch h
  · exact fun before _ _ _ h => absurd h (by cases before <;> exact fun h => nomatch h)
  · exact fun before _ _ h => absurd h (by cases before <;> exact fun h => nomatch h)
  · exact fun _ h => nomatch h
  · exact fun _ h => nomatch h
  · exact fun _ h => nomatch h
  · exact fun h => nomatch h
  · exact fun _ => ⟨[], rfl, rfl⟩
  · exact fun h => nomatch h
  · exact fun h => nomatch h

def run (adapter : Adapter) (s : Session) (actions : List Action) : Session :=
  (Session.machine adapter).after s actions

private theorem run_reached (h : openSession adapter capabilities o = .ok s)
    (actions : List Action) :
    Reached adapter o.contextRevision (run adapter s actions) :=
  Machine.after_induction (fun _ a hs => hs.step a) (Reached.start h) actions

/-- A delta comes while the exchange of its generation runs. -/
def InTime (s : Session) (a : Action) : Prop :=
  ∀ generationId v, a = .delta generationId v →
    s.generating = true ∧ s.task.active.map Prod.fst = some generationId

def Shut (l : List Emitted) : Prop :=
  ∀ before e after, l = before ++ e :: after → isClosed e = true → after = []

theorem Shut.concat {l : List Emitted} (h : ∀ e ∈ l, isClosed e = false) (e : Emitted) :
    Shut (l ++ [e]) := by
  intro before e' after heq hclosed
  rcases place_concat heq with ⟨-, -, hafter⟩ | ⟨after', -, hold⟩
  · exact hafter
  · have hfalse := h e' (by rw [hold]; exact List.mem_append_right _ List.mem_cons_self)
    rw [hclosed] at hfalse
    cases hfalse

private theorem Reached.shut {revision : Nat} (h : Reached adapter revision s)
    (hshut : Shut s.bodies)
    {a : Action} {s' : Session} (hintime : InTime s a) (hstep : Stepped adapter s a s') :
    Shut s'.bodies := by
  cases hstep with
  | idle | ended | waits | staged | next | exchanged | commanded => exact hshut
  | @sent e hphase hsending =>
    have hphase : s.phase ≠ .returned := by
      rw [hphase]
      exact fun h => nomatch h
    rw [Session.bodies_delivered, Session.bodies_push]
    apply Shut.concat
    apply (h.live hphase).open_of_pending (e := e)
    unfold Session.pending
    rw [hsending]
    exact List.mem_cons_self
  | delta v hinvoked =>
    obtain ⟨hgenerating, -⟩ := hintime _ _ rfl
    have hphase : s.phase ≠ .returned := by
      intro hreturned
      rw [h.ended hreturned] at hgenerating
      cases hgenerating
    rw [Session.bodies_push]
    apply Shut.concat
    exact (h.live hphase).open_of_active ((h.live hphase).generating hgenerating)
  | received =>
    obtain ⟨_, _, _, _, hreceive⟩ := s.receive_eq
    rw [hreceive]
    exact hshut

private theorem run_shut (h : openSession adapter capabilities o = .ok s) {actions : List Action}
    (hintime : (Session.machine adapter).Allows InTime s actions) :
    Shut (run adapter s actions).bodies := by
  have hstart : Reached adapter o.contextRevision s ∧ Shut s.bodies := by
    refine ⟨Reached.start h, ?_⟩
    unfold Session.bodies
    rw [openSession_emitted h]
    intro before e after heq
    cases before <;> cases heq
  refine (Machine.after_of_allows (I := fun s => Reached adapter o.contextRevision s ∧
    Shut s.bodies) ?_ hstart hintime).2
  rintro s a hallowed ⟨hreached, hshut⟩
  exact ⟨hreached.step a, hreached.shut hshut hallowed (s.stepped adapter a)⟩

theorem Heard.told (h : Heard s) : ∃ seen told, seen <+: s.emitted ∧
    s.replies = seen.map reply ++ told ∧
    (told = [] ∨ seen = s.emitted ∧ ∃ t, s.terminal = some t ∧ Settled t told) := by
  cases hstopped : s.stopped with
  | false =>
    obtain ⟨seen, hemitted, hreplies⟩ := h.waiting hstopped
    exact ⟨seen, [], hemitted ▸ List.prefix_append _ _, by rw [hreplies, List.append_nil], .inl rfl⟩
  | true =>
    obtain ⟨t, hterminal, ⟨seen, hemitted, hreplies, -⟩ | ⟨told, -, -, hreplies, htold⟩⟩ :=
      h.stopped hstopped
    · exact ⟨seen, [], hemitted ▸ List.prefix_append _ _, by rw [hreplies, List.append_nil],
        .inl rfl⟩
    · exact ⟨s.emitted, told, List.prefix_rfl, hreplies, .inr ⟨rfl, t, hterminal, htold⟩⟩

/-- Once the task has returned the consumer never waits. -/
private theorem receive_terminal {t : Terminal} (h : s.terminal = some t) :
    s.receive.terminal = some t ∧ s.receive.emitted = s.emitted ∧
      s.receive.replies.length = s.replies.length + 1 := by
  obtain ⟨_, _, _, _, hreceive⟩ := s.receive_eq
  refine ⟨by rw [hreceive]; exact h, by rw [hreceive], ?_⟩
  have hstopped : s.awake.stopped = true ∧ s.awake.replies = s.replies := by
    rcases s.awake_eq with hsame | ⟨_, -, -, hsettle⟩
    · cases hstopped : s.stopped with
      | true => exact ⟨by rw [hsame, hstopped], by rw [hsame]⟩
      | false =>
        unfold Session.awake
        rw [hstopped, h]
        exact ⟨rfl, rfl⟩
    · rw [hsettle]
      exact ⟨rfl, rfl⟩
  unfold Session.receive
  rcases s.awake.answer_eq with ⟨e, rest, -, h⟩ | ⟨-, -, e, -, h⟩ | ⟨-, -, -, h⟩ | ⟨-, hfalse, -⟩
  · rw [h, ← hstopped.2]
    exact List.length_append
  · rw [h, ← hstopped.2]
    exact List.length_append
  · rw [h, ← hstopped.2]
    exact List.length_append
  · rw [hstopped.1] at hfalse
    cases hfalse

private theorem run_receive (adapter : Adapter) {t : Terminal} (h : s.terminal = some t) (n : Nat) :
    (run adapter s (List.replicate n .receive)).terminal = some t ∧
      (run adapter s (List.replicate n .receive)).emitted = s.emitted ∧
      (run adapter s (List.replicate n .receive)).replies.length = s.replies.length + n := by
  induction n generalizing s with
  | zero => exact ⟨h, rfl, rfl⟩
  | succ n ih =>
    obtain ⟨hterminal, hemitted, hreplies⟩ := receive_terminal h
    obtain ⟨hterminal', hemitted', hreplies'⟩ := ih hterminal
    refine ⟨hterminal', hemitted'.trans hemitted, ?_⟩
    show (run adapter s.receive (List.replicate n .receive)).replies.length = _
    omega

theorem Reached.failed {revision : Nat} (h : Reached adapter revision s) {t : Terminal} {e : Error}
    (hterminal : s.terminal = some t) (herror : t.error = some e) :
    .failed e ∈ (run adapter s (List.replicate (s.emitted.length + 1) .receive)).replies := by
  obtain ⟨hterminal', hemitted, hreplies⟩ :=
    run_receive adapter hterminal (s.emitted.length + 1)
  have hreached : Reached adapter revision
      (run adapter s (List.replicate (s.emitted.length + 1) .receive)) :=
    Machine.after_induction (fun _ a hs => hs.step a) h _
  obtain ⟨seen, told, hseen, hsaid, htold⟩ := hreached.heard.told
  have hlength : seen.length ≤ s.emitted.length := hemitted ▸ hseen.length_le
  rcases htold with rfl | ⟨-, t', ht', n, htold⟩
  · rw [hsaid, List.append_nil, List.length_map] at hreplies
    omega
  · rw [hterminal'] at ht'
    cases ht'
    rw [hsaid, htold, herror]
    exact List.mem_append_right _ List.mem_cons_self

structure Reliable (adapter : Adapter) (revision : Nat) (s : Session) : Prop where
  events : ∃ seen told, seen <+: s.emitted ∧ s.replies = seen.map reply ++ told ∧
    Ordered revision s.generations seen ∧
    (told = [] ∨ seen = s.emitted ∧ ∃ t, s.terminal = some t ∧ Settled t told)
  /-- All generations but the last have the events of their response. -/
  earlier : ∀ g ∈ s.generations.dropLast, g.response.isSome = true
  responses : ∀ g ∈ s.generations, ∀ f, g.response = some f → ∃ r, validate r = .ok () ∧
    FinishEvents.new adapter g.generationId g.inputPosition r = .ok f
  invoked : ∀ generationId ∈ s.invoked,
    ∃ inputPosition, startedEvent (generationId, inputPosition) ∈ s.bodies
  failed : ∀ t e, s.terminal = some t → t.error = some e →
    .failed e ∈ (run adapter s (List.replicate (s.emitted.length + 1) .receive)).replies

/-- The events of a session come in order in every run, and nothing follows the closing where
every delta is emitted while the exchange of its generation runs. -/
theorem session_reliable (h : openSession adapter capabilities o = .ok s) (actions : List Action) :
    Reliable adapter o.contextRevision (run adapter s actions) ∧
    ((Session.machine adapter).Allows InTime s actions →
      Shut (run adapter s actions).bodies) := by
  have hreached := run_reached h actions
  refine ⟨⟨?_, hreached.past.earlier, hreached.past.responses, hreached.past.invoked, ?_⟩,
    run_shut h⟩
  · obtain ⟨seen, told, hseen, hreplies, htold⟩ := hreached.heard.told
    exact ⟨seen, told, hseen, hreplies, hreached.past.ordered.prefix_of hseen, htold⟩
  · intro t e
    exact hreached.failed

end Runs

def sampleAdapter : Adapter where
  negotiate _ := .ok ⟨[], []⟩
  effective _ := .ok []

def sampleOpen : SessionOpen where
  binding := none
  sessionId := "session"
  afterSequence := none
  outputEpoch := 0
  contextRevision := 1
  inputPosition := 1
  profileRevision := 0
  mode := .task
  limits := sampleLimits
  request := {
    messages := [.user [.text "hello"]]
    runtimeTools := []
    providerTools := []
    profile := { data := .null }
    toolChoice := .auto
    responseFormat := none
    stream := false }
  recovery := none

def sampleSession : Session where
  task := {
    request := sampleOpen.request
    seed := sampleOpen.request.messages
    history := .empty
    contextRevision := 1
    inputPosition := 1
    profileRevision := 0
    userSealed := false
    active := none }
  controls := [⟨.ready 1, none⟩]
  capacity := 256

def sampleResponse : GenerationOutput where
  output := [.content (.text "hi")]
  usage := {}
  status := .completed
  providerData := .null
  modelId := none
  responseId := none
  finishReason := none

def sampleActions : List Action :=
  [.stage none, .sent, .stage none, .command (some ⟨"c1", .generate "g" 1 1 0⟩),
    .stage none, .sent, .stage none, .sent, .stage none, .exchanged (.ok sampleResponse),
    .stage none, .sent, .stage none, .sent, .stage none, .command (some ⟨"c2", .close⟩),
    .stage none, .sent, .stage none, .sent]

private theorem sample_opened :
    openSession sampleAdapter ⟨[], .null, [], [], []⟩ sampleOpen = .ok sampleSession := rfl

theorem sample_reliable :
    Reliable sampleAdapter 1 (run sampleAdapter sampleSession sampleActions) :=
  (session_reliable sample_opened sampleActions).1

/-- The delta comes after the closing. -/
theorem delta_after_closed :
    (run sampleAdapter sampleSession (sampleActions ++ [.delta "g" .null, .stage none] ++
      List.replicate 8 .receive)).replies.drop 5 =
    [.event ⟨5, .acknowledged "c2" none⟩, .event ⟨6, .closed "host_request" .null⟩,
      .event ⟨7, .delta (some "g") .null⟩] := by
  decide +kernel

end Zhir.Models.Exchange
