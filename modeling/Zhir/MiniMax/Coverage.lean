import Zhir.Core.Commit
import Zhir.MiniMax.Outcomes

/-!
What a finished synthesis has covered: which of the admitted inputs were handed to the
service, in which order, and how often.
-/

set_option autoImplicit false
set_option relaxedAutoImplicit false

namespace Zhir.MiniMax

open Zhir.Core

variable {s s' : Session} {d : Dialogue} {o : SessionOpen} {actions : List WireAction} {now : Nat}

def queuedInputs (outbox : List SessionCommand) : List (Nat × Message) :=
  outbox.filterMap fun command =>
    match command.body with
    | .append entry _ position source =>
      if isInput source entry.message then some (position, entry.message) else none
    | _ => none

/-- From `p` on, every waiting entry has the next position if it is an input, and the same one
if it is not; the last one is `last`. -/
def Numbered : Nat → List SessionCommand → Nat → Prop
  | p, [], last => p = last
  | p, command :: rest, last =>
    match command.body with
    | .append entry _ position source =>
      position = (if isInput source entry.message then p + 1 else p) ∧ Numbered position rest last
    | _ => Numbered p rest last

theorem Numbered.snoc {p last : Nat} {outbox : List SessionCommand} {command : SessionCommand}
    {next : Nat} (h : Numbered p outbox last) (hnext : Numbered last [command] next) :
    Numbered p (outbox ++ [command]) next := by
  induction outbox generalizing p with
  | nil =>
    obtain rfl : p = last := h
    exact hnext
  | cons first rest ih =>
    simp only [List.cons_append, Numbered] at h ⊢
    split
    · rename_i hbody
      rw [hbody] at h
      exact ⟨h.1, ih h.2⟩
    · rename_i hother
      split at h
      · rename_i hbody
        exact absurd hbody (hother _ _ _ _)
      · exact ih h

private theorem Numbered.bounds {p last : Nat} {outbox : List SessionCommand}
    (h : Numbered p outbox last) :
    p ≤ last ∧ ∀ x ∈ queuedInputs outbox, p < x.1 ∧ x.1 ≤ last := by
  induction outbox generalizing p with
  | nil => exact ⟨Nat.le_of_eq h, by simp [queuedInputs]⟩
  | cons command rest ih =>
    simp only [Numbered] at h
    split at h
    · rename_i entry revision position source hbody
      obtain ⟨hposition, hrest⟩ := h
      obtain ⟨hle, hqueued⟩ := ih hrest
      have hstep : p ≤ position := by rw [hposition]; split <;> omega
      refine ⟨Nat.le_trans hstep hle, fun x hx => ?_⟩
      rw [queuedInputs, List.filterMap_cons, hbody] at hx
      by_cases hinput : isInput source entry.message = true
      · simp only [hinput, if_true] at hx hposition
        rcases List.mem_cons.mp hx with rfl | hx
        · exact ⟨by change p < position; omega, hle⟩
        · obtain ⟨hlt, hend⟩ := hqueued x hx
          exact ⟨by omega, hend⟩
      · simp only [hinput] at hx
        obtain ⟨hlt, hend⟩ := hqueued x hx
        exact ⟨by omega, hend⟩
    · rename_i hother
      obtain ⟨hle, hqueued⟩ := ih h
      refine ⟨hle, fun x hx => ?_⟩
      rw [queuedInputs, List.filterMap_cons] at hx
      split at hx
      · exact hqueued x hx
      · rename_i hsome
        split at hsome
        · rename_i hbody
          exact absurd hbody (hother _ _ _ _)
        · cases hsome

/-- The texts handed over: the latest one that was there when the task was started, and after
it the inputs that came later. -/
def Voiced (o : SessionOpen) (queued spoken : List (Nat × Message)) (sent : List Value) : Prop :=
  ∃ first text texts, latestUser (o.request.messages ++ queued.map Prod.snd) = some first ∧
    userText first = .ok text ∧
    List.Forall₂ (fun input text => userText input.2 = .ok text) spoken texts ∧
    spokenTexts sent = text :: texts

def inputOf : SessionCommandBody → Option (Nat × Message)
  | .append entry _ position source =>
    if isInput source entry.message then some (position, entry.message) else none
  | _ => none

def inputs (taken : List SessionCommandBody) : List (Nat × Message) := taken.filterMap inputOf

def isGenerate : SessionCommandBody → Bool
  | .generate .. => true
  | _ => false

/-- The inputs that were delivered before Generate was taken. -/
def early (taken : List SessionCommandBody) : List (Nat × Message) :=
  inputs (taken.takeWhile fun body => !isGenerate body)

def late (taken : List SessionCommandBody) : List (Nat × Message) :=
  inputs (taken.dropWhile fun body => !isGenerate body)

/-- Where the session stands with the commands it has taken. -/
def Progress (o : SessionOpen) (s : Session) (taken : List SessionCommandBody)
    (sent : List Value) : Prop :=
  match s.phase with
  | .connecting | .ready => spokenTexts sent = [] ∧ taken.any isGenerate = false ∧
      latestUser s.request.messages =
        latestUser (o.request.messages ++ (inputs taken).map Prod.snd)
  | .starting text => spokenTexts sent = [] ∧ taken.any isGenerate = true ∧ late taken = [] ∧
      ∃ first, latestUser (o.request.messages ++ (early taken).map Prod.snd) = some first ∧
        userText first = .ok text
  | _ => taken.any isGenerate = true ∧ Voiced o (early taken) (late taken) sent

/-- Inputs are delivered in the order they were admitted in. -/
structure Conveyed (d : Dialogue) (delivered : List (Nat × Message)) : Prop where
  admitted : d.admitted = delivered ++ queuedInputs d.outbox
  numbered : Numbered d.driver.session.inputPosition d.outbox d.inputPosition
  covered : ∀ x ∈ delivered, x.1 ≤ d.driver.session.inputPosition

def upTo (p : Nat) (admitted : List (Nat × Message)) : List (Nat × Message) :=
  admitted.filter fun x => x.1 ≤ p

structure Covered (o : SessionOpen) (admitted : List (Nat × Message))
    (taken : List SessionCommandBody) (sent : List Value) (p : Nat) : Prop where
  generated : taken.any isGenerate = true
  delivered : upTo p admitted = early taken ++ late taken
  voiced : Voiced o (early taken) (late taken) sent

structure Accounted (o : SessionOpen) (d : Dialogue) : Prop where
  running : d.driver.stopped = false → Conveyed d (inputs d.taken) ∧
    Progress o d.driver.session d.taken d.driver.sent
  finished : ∀ c ∈ completions d.driver.emitted,
    c.inputPosition ≤ d.inputPosition ∧
      Covered o d.admitted d.taken d.driver.sent c.inputPosition
  ended : completions d.driver.emitted ≠ [] → d.driver.stopped = false →
    d.driver.session.phase = .finished

private theorem Conveyed.upTo {delivered : List (Nat × Message)} (h : Conveyed d delivered) :
    upTo d.driver.session.inputPosition d.admitted = delivered := by
  unfold MiniMax.upTo
  rw [h.admitted, List.filter_append]
  have hkept : delivered.filter (fun x => x.1 ≤ d.driver.session.inputPosition) = delivered :=
    List.filter_eq_self.mpr fun x hx => decide_eq_true (h.covered x hx)
  have hqueued : (queuedInputs d.outbox).filter
      (fun x => x.1 ≤ d.driver.session.inputPosition) = [] := by
    refine List.filter_eq_nil_iff.mpr fun x hx => ?_
    have hlt := (h.numbered.bounds.2 x hx).1
    simpa using hlt
  rw [hkept, hqueued, List.append_nil]

private theorem inputs_eq (taken : List SessionCommandBody) :
    inputs taken = early taken ++ late taken := by
  unfold early late inputs
  rw [← List.filterMap_append, List.takeWhile_append_dropWhile]

private theorem inputs_snoc (taken : List SessionCommandBody) (body : SessionCommandBody) :
    inputs (taken ++ [body]) = inputs taken ++ inputs [body] := List.filterMap_append

private theorem split_generated {taken : List SessionCommandBody} (h : taken.any isGenerate = true)
    (body : SessionCommandBody) :
    early (taken ++ [body]) = early taken ∧
      late (taken ++ [body]) = late taken ++ inputs [body] := by
  induction taken with
  | nil => cases h
  | cons first rest ih =>
    unfold early late at ih ⊢
    rw [List.cons_append, List.takeWhile_cons, List.takeWhile_cons, List.dropWhile_cons,
      List.dropWhile_cons]
    cases hfirst : isGenerate first with
    | true => exact ⟨rfl, inputs_snoc (first :: rest) body⟩
    | false =>
      rw [List.any_cons, hfirst, Bool.false_or] at h
      obtain ⟨hearly, hlate⟩ := ih h
      refine ⟨?_, hlate⟩
      show inputs (first :: _) = inputs (first :: _)
      unfold inputs at hearly ⊢
      rw [List.filterMap_cons, List.filterMap_cons, hearly]

private theorem split_generate {taken : List SessionCommandBody} (h : taken.any isGenerate = false)
    {body : SessionCommandBody} (hbody : isGenerate body = true) :
    early (taken ++ [body]) = inputs taken ∧ late (taken ++ [body]) = [] := by
  have hnone : ∀ other ∈ taken, (!isGenerate other) = true := by
    intro other hmem
    rw [Bool.not_eq_true', List.any_eq_false.mp h other hmem |> eq_false_of_ne_true]
  have hinput : inputs [body] = [] := by
    cases body with
    | generate => rfl
    | _ => cases hbody
  unfold early late
  rw [List.takeWhile_append_of_pos hnone, List.dropWhile_append_of_pos hnone,
    List.takeWhile_cons, List.dropWhile_cons, hbody]
  exact ⟨by rw [Bool.not_true, if_neg Bool.false_ne_true, List.append_nil], hinput⟩

private theorem latestUser_snoc (messages : List Message) (message : Message) :
    latestUser (messages ++ [message]) =
      if message.isUser = true then some message else latestUser messages := by
  unfold latestUser
  rw [List.reverse_append, List.reverse_singleton, List.singleton_append, List.find?_cons]
  split
  · rename_i h
    rw [if_pos h]
  · rename_i h
    rw [if_neg (by rw [h]; exact Bool.false_ne_true)]

private theorem latestUser_append_congr {xs ys : List Message} (h : latestUser xs = latestUser ys)
    (message : Message) : latestUser (xs ++ [message]) = latestUser (ys ++ [message]) := by
  rw [latestUser_snoc, latestUser_snoc, h]

private theorem latestUser_other {source : AppendSource} {message : Message}
    (messages : List Message)
    (hsource : source = .submitted) (h : isInput source message = false) :
    latestUser (messages ++ [message]) = latestUser messages := by
  rw [latestUser_snoc, if_neg]
  intro huser
  simp [isInput, hsource, huser] at h

private theorem isUser_of_userText {message : Message} {text : String}
    (h : userText message = .ok text) :
    message.isUser = true := by
  unfold userText at h
  split at h
  · rfl
  · cases h

theorem Voiced.speak {queued spoken : List (Nat × Message)} {sent : List Value}
    {input : Nat × Message} {text : String} (h : Voiced o queued spoken sent)
    (htext : userText input.2 = .ok text) {added : List Value}
    (hspoken : spokenTexts added = [text]) :
    Voiced o queued (spoken ++ [input]) (sent ++ added) := by
  obtain ⟨first, opening, texts, hfirst, hopening, hall, hsent⟩ := h
  refine ⟨first, opening, texts ++ [text], hfirst, hopening, ?_, ?_⟩
  · exact List.rel_append hall (.cons htext .nil)
  · rw [spokenTexts_append, hsent, hspoken]
    rfl

theorem Voiced.silent {queued spoken : List (Nat × Message)} {sent added : List Value}
    (h : Voiced o queued spoken sent) (hspoken : spokenTexts added = []) :
    Voiced o queued spoken (sent ++ added) := by
  obtain ⟨first, opening, texts, hfirst, hopening, hall, hsent⟩ := h
  refine ⟨first, opening, texts, hfirst, hopening, hall, ?_⟩
  rw [spokenTexts_append, hsent, hspoken, List.append_nil]

theorem Covered.silent {admitted : List (Nat × Message)} {taken : List SessionCommandBody}
    {sent added : List Value} {p : Nat} (h : Covered o admitted taken sent p)
    (hspoken : spokenTexts added = []) : Covered o admitted taken (sent ++ added) p :=
  ⟨h.generated, h.delivered, h.voiced.silent hspoken⟩

theorem Covered.further {admitted : List (Nat × Message)} {taken : List SessionCommandBody}
    {sent : List Value} {p : Nat} (h : Covered o admitted taken sent p)
    {body : SessionCommandBody} (hbody : inputs [body] = []) :
    Covered o admitted (taken ++ [body]) sent p := by
  obtain ⟨hearly, hlate⟩ := split_generated h.generated body
  rw [hbody, List.append_nil] at hlate
  refine ⟨?_, ?_, ?_⟩
  · rw [List.any_append, h.generated, Bool.true_or]
  · rw [hearly, hlate]
    exact h.delivered
  · rw [hearly, hlate]
    exact h.voiced

variable {delivered : List (Nat × Message)} {taken : List SessionCommandBody}
  {body : SessionCommandBody} {sent added : List Value}

private theorem progress_voiced (h : s.phase.synthesizes = true ∨ s.phase = .finished) :
    Progress o s taken sent ↔
      taken.any isGenerate = true ∧ Voiced o (early taken) (late taken) sent := by
  unfold Progress
  cases hphase : s.phase with
  | connecting => simp [hphase, Phase.synthesizes] at h
  | ready => simp [hphase, Phase.synthesizes] at h
  | starting text => simp [hphase, Phase.synthesizes] at h
  | _ => exact Iff.rfl

private theorem progress_ready (h : s.phase = .connecting ∨ s.phase = .ready) :
    Progress o s taken sent ↔ spokenTexts sent = [] ∧ taken.any isGenerate = false ∧
      latestUser s.request.messages =
        latestUser (o.request.messages ++ (inputs taken).map Prod.snd) := by
  unfold Progress
  rcases h with h | h <;> rw [h]

private theorem Phase.synthesizes_of_awaits {phase : Phase} (h : phase.awaits = true) :
    phase.synthesizes = true := by
  cases phase <;> first | rfl | cases h

theorem Progress.silent (h : Progress o s taken sent) (hphase : s'.phase = s.phase)
    (hmessages : s'.request.messages = s.request.messages) (hspoken : spokenTexts added = []) :
    Progress o s' taken (sent ++ added) := by
  have hsame : spokenTexts (sent ++ added) = spokenTexts sent := by
    rw [spokenTexts_append, hspoken, List.append_nil]
  unfold Progress at h ⊢
  rw [hphase]
  cases hnow : s.phase with
  | connecting =>
    rw [hnow] at h
    rw [hsame, hmessages]
    exact h
  | ready =>
    rw [hnow] at h
    rw [hsame, hmessages]
    exact h
  | starting text =>
    rw [hnow] at h
    rw [hsame]
    exact h
  | _ =>
    rw [hnow] at h
    exact ⟨h.1, h.2.silent hspoken⟩

theorem Progress.further (h : Progress o s taken sent) (hbody : isGenerate body = false)
    (hinputs : inputs [body] = []) : Progress o s (taken ++ [body]) sent := by
  have hany : (taken ++ [body]).any isGenerate = taken.any isGenerate := by
    rw [List.any_append, List.any_cons, hbody, List.any_nil, Bool.or_false, Bool.or_false]
  have hall : inputs (taken ++ [body]) = inputs taken := by
    rw [inputs_snoc, hinputs, List.append_nil]
  have hsplit : taken.any isGenerate = true →
      early (taken ++ [body]) = early taken ∧ late (taken ++ [body]) = late taken := by
    intro hgenerated
    obtain ⟨hearly, hlate⟩ := split_generated hgenerated body
    rw [hinputs, List.append_nil] at hlate
    exact ⟨hearly, hlate⟩
  unfold Progress at h ⊢
  cases hphase : s.phase with
  | connecting | ready =>
    rw [hphase] at h
    rw [hany, hall]
    exact h
  | starting text =>
    rw [hphase] at h
    obtain ⟨hearly, hlate⟩ := hsplit h.2.1
    rw [hany, hearly, hlate]
    exact h
  | _ =>
    rw [hphase] at h
    obtain ⟨hearly, hlate⟩ := hsplit h.1
    rw [hany, hearly, hlate]
    exact h

def deliver (delivered : List (Nat × Message)) : SessionCommandBody → List (Nat × Message)
  | .append entry _ position source =>
    if isInput source entry.message then delivered ++ [(position, entry.message)] else delivered
  | _ => delivered

private theorem inputs_deliver (taken : List SessionCommandBody) (body : SessionCommandBody) :
    inputs (taken ++ [body]) = deliver (inputs taken) body := by
  rw [inputs_snoc]
  cases body with
  | append entry contextRevision position source =>
    unfold inputs
    rw [List.filterMap_cons, inputOf, deliver]
    by_cases hinput : isInput source entry.message = true
    · simp only [if_pos hinput]
      rfl
    · simp only [if_neg hinput]
      exact List.append_nil _
  | _ => exact List.append_nil _

private theorem inputs_barrier (hbody : isAppend body = false) : inputs [body] = [] := by
  cases body with
  | append => cases hbody
  | _ => rfl

private theorem inputs_accepted (entry : HistoryEntry) (contextRevision position : Nat) :
    inputs [.append entry contextRevision position .accepted] = [] := by
  simp [inputs, inputOf, isInput]

theorem Taken.finishes {body : SessionCommandBody} (h : Taken s s' actions body) :
    finishes actions = [] := by
  cases h with
  | speak _ _ _ _ _ hfinishes => exact hfinishes
  | generate _ _ _ _ hsilent => exact hsilent.finishes
  | record _ _ _ hsilent => exact hsilent.finishes
  | queue _ _ _ _ hsilent => exact hsilent.finishes
  | barrier _ _ _ _ hsilent => exact hsilent.finishes
  | close _ hsilent => exact hsilent.finishes

theorem Taken.ended {body : SessionCommandBody} (h : Taken s s' actions body)
    (hphase : s.phase = .finished) : Silent actions ∧ s'.phase = .finished := by
  cases h with
  | generate hready => simp [hphase] at hready
  | queue hready => simp [hphase] at hready
  | speak hspeaking => simp [hphase] at hspeaking
  | barrier _ hspeaking => simp [hphase] at hspeaking
  | record hsame _ _ hsilent => exact ⟨hsilent, hsame.trans hphase⟩
  | close hsame hsilent => exact ⟨hsilent, by rw [hsame]; exact hphase⟩

private theorem Taken.inputs_of_finished (h : Taken s s' actions body)
    (hphase : s.phase = .finished) :
    inputs [body] = [] := by
  cases h with
  | generate hready => simp [hphase] at hready
  | queue hready => simp [hphase] at hready
  | speak hspeaking => simp [hphase] at hspeaking
  | barrier _ hspeaking => simp [hphase] at hspeaking
  | record => exact inputs_accepted _ _ _
  | close => rfl

theorem Taken.progress (h : Taken s s' actions body) (hprogress : Progress o s taken sent) :
    Progress o s' (taken ++ [body]) (sent ++ frames actions) := by
  cases h with
  | @generate generationId text contextRevision inputPosition profileRevision hphase htext hphase'
      hkept hsilent =>
    obtain ⟨hspoken, hnone, hlatest⟩ := (progress_ready (.inr hphase)).mp hprogress
    obtain ⟨hearly, hlate⟩ := split_generate hnone (rfl : isGenerate (.generate generationId
      contextRevision inputPosition profileRevision) = true)
    unfold latestText at htext
    split at htext
    · rename_i first hfirst
      unfold Progress
      rw [hphase']
      refine ⟨?_, ?_, hlate, first, ?_, htext⟩
      · rw [spokenTexts_append, hspoken, hsilent.spoken]
        rfl
      · rw [List.any_append, List.any_cons, isGenerate, Bool.true_or, Bool.or_true]
      · rw [hearly]
        exact hlatest.symm.trans hfirst
    · cases htext
  | @record entry contextRevision inputPosition hphase hposition hmessages hsilent =>
    exact (hprogress.further rfl (inputs_accepted _ _ _)).silent hphase hmessages hsilent.spoken
  | @queue entry contextRevision inputPosition hphase hphase' hposition hmessages hsilent =>
    obtain ⟨hspoken, hnone, hlatest⟩ := (progress_ready (.inr hphase)).mp hprogress
    refine (progress_ready (.inr hphase')).mpr ⟨?_, ?_, ?_⟩
    · rw [spokenTexts_append, hspoken, hsilent.spoken]
      rfl
    · rw [List.any_append, hnone]
      rfl
    · rw [hmessages, inputs_deliver, deliver]
      by_cases hinput : isInput .submitted entry.message = true
      · rw [if_pos hinput, List.map_append, ← List.append_assoc]
        exact latestUser_append_congr hlatest entry.message
      · rw [if_neg hinput, latestUser_other _ rfl (by simpa using hinput)]
        exact hlatest
  | @speak entry contextRevision inputPosition text hphase hphase' hposition htext hspoken _ =>
    have hsynthesizes : s.phase.synthesizes = true := by rw [hphase]; rfl
    have hsynthesizes' : s'.phase.synthesizes = true := by rw [hphase']; rfl
    obtain ⟨hgenerated, hvoiced⟩ := (progress_voiced (.inl hsynthesizes)).mp hprogress
    have hinput : inputs [.append entry contextRevision inputPosition .submitted] =
        [(inputPosition, entry.message)] := by
      simp [inputs, inputOf, isInput, isUser_of_userText htext]
    obtain ⟨hearly, hlate⟩ := split_generated hgenerated
      (.append entry contextRevision inputPosition .submitted)
    refine (progress_voiced (.inl hsynthesizes')).mpr ⟨?_, ?_⟩
    · rw [List.any_append, hgenerated, Bool.true_or]
    · rw [hearly, hlate, hinput]
      exact hvoiced.speak htext hspoken
  | barrier hbody hphase hphase' hkept hsilent =>
    have hsynthesizes : s.phase.synthesizes = true := by rw [hphase]; rfl
    obtain ⟨hgenerated, hvoiced⟩ := (progress_voiced (.inl hsynthesizes)).mp hprogress
    obtain ⟨hearly, hlate⟩ := split_generated hgenerated body
    rw [inputs_barrier hbody, List.append_nil] at hlate
    refine (progress_voiced (.inl (Phase.synthesizes_of_awaits hphase'))).mpr ⟨?_, ?_⟩
    · rw [List.any_append, hgenerated, Bool.true_or]
    · rw [hearly, hlate]
      exact hvoiced.silent hsilent.spoken
  | close hsame hsilent =>
    rw [hsame]
    exact (hprogress.further rfl rfl).silent rfl rfl hsilent.spoken

theorem Heard.ended (h : Heard s s' actions) (hphase : s.phase = .finished) :
    Silent actions ∧ s'.phase = .finished := by
  cases h with
  | connected hbefore => simp [hphase] at hbefore
  | started hbefore => simp [hphase] at hbefore
  | finished hbefore => simp [hphase] at hbefore
  | running hbefore => simp [hphase, Phase.synthesizes] at hbefore
  | idle hsame _ hsilent => exact ⟨hsilent, hsame.trans hphase⟩

theorem Heard.kept (h : Heard s s' actions) : s.Kept s' := by
  cases h with
  | connected _ _ hkept => exact hkept
  | started _ _ hkept => exact hkept
  | finished _ _ hkept => exact hkept
  | running _ _ hkept => exact hkept
  | idle _ hkept => exact hkept

theorem Heard.progress (h : Heard s s' actions) (hprogress : Progress o s taken sent) :
    Progress o s' taken (sent ++ frames actions) := by
  cases h with
  | connected hphase hphase' hkept hsilent =>
    obtain ⟨hspoken, hnone, hlatest⟩ := (progress_ready (.inl hphase)).mp hprogress
    refine (progress_ready (.inr hphase')).mpr ⟨?_, hnone, by rw [hkept.messages]; exact hlatest⟩
    rw [spokenTexts_append, hspoken, hsilent.spoken]
    rfl
  | started hphase hphase' hkept hspoken _ =>
    unfold Progress at hprogress
    rw [hphase] at hprogress
    obtain ⟨hnone, hgenerated, hlate, first, hfirst, htext⟩ := hprogress
    have hsynthesizes : s'.phase.synthesizes = true := by rw [hphase']; rfl
    refine (progress_voiced (.inl hsynthesizes)).mpr
      ⟨hgenerated, first, _, [], hfirst, htext, by rw [hlate]; exact .nil, ?_⟩
    rw [spokenTexts_append, hnone, hspoken]
    rfl
  | finished hphase hphase' hkept _ hspoken _ =>
    have hsynthesizes : s.phase.synthesizes = true := by rw [hphase]; rfl
    obtain ⟨hgenerated, hvoiced⟩ := (progress_voiced (.inl hsynthesizes)).mp hprogress
    exact (progress_voiced (.inr hphase')).mpr ⟨hgenerated, hvoiced.silent hspoken⟩
  | running hphase hphase' hkept hsilent =>
    obtain ⟨hgenerated, hvoiced⟩ := (progress_voiced (.inl hphase)).mp hprogress
    exact (progress_voiced (.inl hphase')).mpr ⟨hgenerated, hvoiced.silent hsilent.spoken⟩
  | idle hphase hkept hsilent => exact hprogress.silent hphase hkept.messages hsilent.spoken

private theorem queuedInputs_append (xs ys : List SessionCommand) :
    queuedInputs (xs ++ ys) = queuedInputs xs ++ queuedInputs ys := List.filterMap_append

theorem Conveyed.deliver {command : SessionCommand} {rest : List SessionCommand} {driver : Driver}
    {taken : List SessionCommandBody} (h : Conveyed d delivered)
    (houtbox : d.outbox = command :: rest)
    (htaken : Taken d.driver.session s' actions command.body) (hsession : driver.session = s') :
    Conveyed { d with outbox := rest, taken, driver } (deliver delivered command.body) := by
  have hadmitted := h.admitted
  have hnumbered := h.numbered
  rw [houtbox] at hadmitted hnumbered
  simp only [Numbered] at hnumbered
  rw [queuedInputs, List.filterMap_cons] at hadmitted
  have hother : isAppend command.body = false → d.driver.session.inputPosition = s'.inputPosition →
      Conveyed { d with outbox := rest, taken, driver }
        (MiniMax.deliver delivered command.body) := by
    intro hbody hposition
    cases hbodyEq : command.body with
    | append => simp [hbodyEq, isAppend] at hbody
    | _ =>
      rw [hbodyEq] at hadmitted hnumbered
      refine ⟨hadmitted, ?_, fun x hx => ?_⟩
      · rw [hsession, ← hposition]
        exact hnumbered
      · rw [hsession, ← hposition]
        exact h.covered x hx
  have happend : ∀ {entry : HistoryEntry} {contextRevision position : Nat} {source : AppendSource},
      command.body = .append entry contextRevision position source →
      s'.inputPosition = position →
      Conveyed { d with outbox := rest, taken, driver }
        (MiniMax.deliver delivered command.body) := by
    intro entry contextRevision position source hbody hposition
    rw [hbody] at hadmitted hnumbered ⊢
    obtain ⟨hnext, hrest⟩ := hnumbered
    have hle : d.driver.session.inputPosition ≤ position := by rw [hnext]; split <;> omega
    have hcovered : ∀ x ∈ delivered, x.1 ≤ position := fun x hx =>
      Nat.le_trans (h.covered x hx) hle
    have hsame : driver.session.inputPosition = position := by rw [hsession, hposition]
    rw [MiniMax.deliver]
    by_cases hinput : isInput source entry.message = true
    · simp only [hinput, if_true] at hadmitted ⊢
      refine ⟨?_, ?_, fun x hx => ?_⟩
      · change d.admitted = _
        rw [hadmitted, List.append_assoc]
        rfl
      · change Numbered driver.session.inputPosition rest d.inputPosition
        rw [hsame]
        exact hrest
      · change x.1 ≤ driver.session.inputPosition
        rw [hsame]
        rcases List.mem_append.mp hx with hx | hx
        · exact hcovered x hx
        · obtain rfl := List.mem_singleton.mp hx
          exact Nat.le_refl _
    · simp only [hinput] at hadmitted ⊢
      refine ⟨hadmitted, ?_, fun x hx => ?_⟩
      · change Numbered driver.session.inputPosition rest d.inputPosition
        rw [hsame]
        exact hrest
      · change x.1 ≤ driver.session.inputPosition
        rw [hsame]
        exact hcovered x hx
  generalize hbody : command.body = body at htaken
  rw [← hbody]
  cases htaken with
  | generate _ _ _ hkept => exact hother (by rw [hbody]; rfl) hkept.position.symm
  | record _ hposition => exact happend hbody hposition
  | queue _ _ hposition => exact happend hbody hposition
  | speak _ _ hposition => exact happend hbody hposition
  | barrier hnot _ _ hkept => exact hother (by rw [hbody]; exact hnot) hkept.position.symm
  | close hsame => exact hother (by rw [hbody]; rfl) (by rw [hsame])

theorem Accounted.stops {d' : Dialogue} (h : Accounted o d) (htaken : d'.taken = d.taken)
    (hadmitted : d'.admitted = d.admitted)
    (hposition : d'.inputPosition = d.inputPosition) (hsent : d'.driver.sent = d.driver.sent)
    (hemitted : d'.driver.emitted = d.driver.emitted) (hstopped : d'.driver.stopped = true) :
    Accounted o d' where
  running hgoes := by rw [hstopped] at hgoes; cases hgoes
  finished c hc := by
    rw [hemitted] at hc
    rw [htaken, hadmitted, hposition, hsent]
    exact h.finished c hc
  ended _ hgoes := by rw [hstopped] at hgoes; cases hgoes

theorem Silent.initial {done : List WireAction} (h : Silent actions) (hdone : done <+: actions) :
    Silent done := by
  obtain ⟨rest, rfl⟩ := hdone
  have hspoken := h.spoken
  have hfinishes := h.finishes
  rw [frames_append, spokenTexts_append] at hspoken
  rw [finishes_append] at hfinishes
  exact ⟨(List.append_eq_nil_iff.mp hspoken).1, (List.append_eq_nil_iff.mp hfinishes).1⟩

private theorem finishes_before {done : List WireAction} (hdone : done <+: actions)
    {c : ResponseCompletion} (hc : c ∈ finishes done) : c ∈ finishes actions := by
  obtain ⟨rest, rfl⟩ := hdone
  rw [finishes_append]
  exact List.mem_append_left _ hc

private theorem spoken_before {done : List WireAction} (hdone : done <+: actions)
    (h : spokenTexts (frames actions) = []) : spokenTexts (frames done) = [] := by
  obtain ⟨rest, rfl⟩ := hdone
  rw [frames_append, spokenTexts_append] at h
  exact (List.append_eq_nil_iff.mp h).1

theorem Accounted.performs {d' : Dialogue} {failing : Option Nat} (h : Accounted o d)
    (hgoes : d.driver.stopped = false)
    (hdriver : d'.driver = { d.driver with session := s' }.performs failing actions)
    (hadmitted : d'.admitted = d.admitted) (hposition : d'.inputPosition = d.inputPosition)
    (hended : d.driver.session.phase = .finished → Silent actions ∧ s'.phase = .finished)
    (hcovered : d.driver.session.phase = .finished → ∀ {sent : List Value} {p : Nat},
      Covered o d.admitted d.taken sent p → Covered o d.admitted d'.taken sent p)
    (hfinishes : ∀ c ∈ finishes actions, s'.phase = .finished ∧
      spokenTexts (frames actions) = [] ∧ c.inputPosition ≤ d.inputPosition ∧
        Covered o d.admitted d'.taken d.driver.sent c.inputPosition)
    (hrunning : d'.driver.session = s' → Conveyed d' (inputs d'.taken) ∧
      Progress o s' d'.taken (d.driver.sent ++ frames actions)) : Accounted o d' := by
  obtain ⟨done, hdone, hdid, hall⟩ :=
    Driver.performs_did (d := { d.driver with session := s' }) hgoes failing actions
  rw [← hdriver] at hdid hall
  have hsent : d'.driver.sent = d.driver.sent ++ frames done := hdid.sent
  have hemitted : completions d'.driver.emitted =
      completions d.driver.emitted ++ MiniMax.finishes done := hdid.emitted
  have hearlier : ∀ c ∈ completions d.driver.emitted, d.driver.session.phase = .finished :=
    fun c hc => h.ended (List.ne_nil_of_mem hc) hgoes
  refine ⟨fun hgoes' => ?_, fun c hc => ?_, fun hsome hgoes' => ?_⟩
  · obtain ⟨hconveyed, hprogress⟩ := hrunning hdid.session
    refine ⟨hconveyed, ?_⟩
    rw [hsent, hall hgoes', hdid.session]
    exact hprogress
  · rw [hemitted] at hc
    rw [hposition, hadmitted, hsent]
    rcases List.mem_append.mp hc with hc | hc
    · obtain ⟨hle, hearly⟩ := h.finished c hc
      have hsilent := (hended (hearlier c hc)).1.initial hdone
      exact ⟨hle, (hcovered (hearlier c hc) hearly).silent hsilent.spoken⟩
    · obtain ⟨-, hspoken, hle, hnew⟩ := hfinishes c (finishes_before hdone hc)
      exact ⟨hle, hnew.silent (spoken_before hdone hspoken)⟩
  · rw [hdid.session]
    obtain ⟨c, hc⟩ := List.exists_mem_of_ne_nil _ hsome
    rw [hemitted] at hc
    rcases List.mem_append.mp hc with hc | hc
    · exact (hended (hearlier c hc)).2
    · exact (hfinishes c (finishes_before hdone hc)).1

theorem Accounted.deliver {command : SessionCommand} {rest : List SessionCommand}
    {failing : Option Nat} (h : Accounted o d) (houtbox : d.outbox = command :: rest)
    (hgoes : d.driver.stopped = false) :
    Accounted o { d with
      outbox := rest
      taken := if (d.driver.session.command now command).isOk then d.taken ++ [command.body]
        else d.taken
      driver := d.driver.react failing (d.driver.session.command now command) } := by
  unfold Driver.react
  cases hrun : d.driver.session.command now command with
  | error error => exact h.stops rfl rfl rfl rfl rfl rfl
  | ok taken =>
    obtain ⟨actions, s'⟩ := taken
    have htaken := command_taken hrun
    refine h.performs hgoes rfl rfl rfl htaken.ended
      (fun hphase _ _ hcovered => hcovered.further (htaken.inputs_of_finished hphase)) ?_
      fun hsession => ?_
    · intro c hc
      rw [htaken.finishes] at hc
      cases hc
    · obtain ⟨hconveyed, hprogress⟩ := h.running hgoes
      refine ⟨?_, htaken.progress hprogress⟩
      show Conveyed _ (inputs (d.taken ++ [command.body]))
      rw [inputs_deliver]
      exact hconveyed.deliver houtbox htaken hsession

theorem Accounted.receive {message : WireMessage} {failing : Option Nat} (h : Accounted o d)
    (hgoes : d.driver.stopped = false) :
    Accounted o { d with
      driver := d.driver.react failing (d.driver.session.receive now message) } := by
  unfold Driver.react
  cases hrun : d.driver.session.receive now message with
  | error error => exact h.stops rfl rfl rfl rfl rfl rfl
  | ok heard =>
    obtain ⟨actions, s'⟩ := heard
    have hheard := receive_heard hrun
    obtain ⟨hconveyed, hprogress⟩ := h.running hgoes
    refine h.performs hgoes rfl rfl rfl hheard.ended (fun _ _ _ hcovered => hcovered) ?_
      fun hsession => ?_
    · intro c hc
      cases hheard with
      | finished hphase hphase' hkept hposition hspoken hfinishes =>
        rw [hfinishes] at hc
        obtain rfl := List.mem_singleton.mp hc
        have hsynthesizes : d.driver.session.phase.synthesizes = true := by rw [hphase]; rfl
        obtain ⟨hgenerated, hvoiced⟩ := (progress_voiced (.inl hsynthesizes)).mp hprogress
        refine ⟨hphase', hspoken, ?_, hgenerated, ?_, hvoiced⟩
        · rw [hposition]
          exact hconveyed.numbered.bounds.1
        · rw [hposition, hconveyed.upTo]
          exact inputs_eq d.taken
      | connected _ _ _ hsilent => rw [hsilent.finishes] at hc; cases hc
      | started _ _ _ _ hnone => rw [hnone] at hc; cases hc
      | running _ _ _ hsilent => rw [hsilent.finishes] at hc; cases hc
      | idle _ _ hsilent => rw [hsilent.finishes] at hc; cases hc
    · refine ⟨⟨hconveyed.admitted, ?_, ?_⟩, hheard.progress hprogress⟩
      · rw [hsession, hheard.kept.position]
        exact hconveyed.numbered
      · rw [hsession, hheard.kept.position]
        exact hconveyed.covered

theorem Accounted.admitEntry {commandId : String} {entry : HistoryEntry} {source : AppendSource}
    (h : Accounted o d) : Accounted o (d.admitEntry commandId entry source) := by
  refine ⟨fun hgoes => ?_, fun c hc => ?_, h.ended⟩
  · obtain ⟨hconveyed, hprogress⟩ := h.running hgoes
    refine ⟨⟨?_, ?_, hconveyed.covered⟩, hprogress⟩
    · change (if isInput source entry.message then _ else _) = _
      have hqueued := queuedInputs_append d.outbox [⟨commandId, .append entry
        (d.contextRevision + 1)
        (if isInput source entry.message then d.inputPosition + 1 else d.inputPosition) source⟩]
      change _ = inputs d.taken ++ queuedInputs (d.outbox ++ _)
      rw [hqueued, hconveyed.admitted]
      by_cases hinput : isInput source entry.message = true
      · simp [queuedInputs, hinput]
      · simp [queuedInputs, hinput]
    · exact hconveyed.numbered.snoc ⟨rfl, rfl⟩
  · obtain ⟨hle, hgenerated, hall, hvoiced⟩ := h.finished c hc
    have hgrown : d.inputPosition ≤ (d.admitEntry commandId entry source).inputPosition := by
      change d.inputPosition ≤ if isInput source entry.message then _ else _
      split <;> omega
    refine ⟨Nat.le_trans hle hgrown, hgenerated, ?_, hvoiced⟩
    refine Eq.trans ?_ hall
    change MiniMax.upTo _ (if isInput source entry.message then _ else _) = _
    split
    · unfold MiniMax.upTo
      rw [List.filter_append, List.filter_cons_of_neg, List.filter_nil, List.append_nil]
      simp
      omega
    · rfl

theorem Accounted.prepare {command : SessionCommand} (hbody : isAppend command.body = false)
    (h : Accounted o d) : Accounted o { d with outbox := d.outbox ++ [command] } := by
  refine ⟨fun hgoes => ?_, h.finished, h.ended⟩
  obtain ⟨hconveyed, hprogress⟩ := h.running hgoes
  refine ⟨⟨?_, ?_, hconveyed.covered⟩, hprogress⟩
  · change d.admitted = inputs d.taken ++ queuedInputs (d.outbox ++ [command])
    rw [queuedInputs_append, hconveyed.admitted]
    cases command with
    | mk id body =>
      cases body with
      | append => cases hbody
      | _ => simp [queuedInputs]
  · refine hconveyed.numbered.snoc ?_
    cases command with
    | mk id body =>
      cases body with
      | append => cases hbody
      | _ => exact rfl

theorem Accounted.step (h : Accounted o d) (stimulus : Stimulus) :
    Accounted o (d.step stimulus) := by
  cases stimulus with
  | admitEntry commandId entry source => exact h.admitEntry
  | prepare command =>
    simp only [Dialogue.step]
    split
    · exact h
    · rename_i hbody
      exact h.prepare (by simpa using hbody)
  | deliver now failing =>
    simp only [Dialogue.step]
    split
    · exact h
    · rename_i command rest houtbox
      split
      · rename_i htakes
        simp only [Driver.takesCommands, Bool.and_eq_true, Bool.not_eq_true'] at htakes
        exact h.deliver houtbox htakes.1.1
      · exact h
  | receive now message failing =>
    simp only [Dialogue.step]
    split
    · rename_i htakes
      simp only [Driver.takesMessages, Bool.and_eq_true, Bool.not_eq_true'] at htakes
      exact h.receive htakes.1.1
    · exact h
  | disconnect =>
    simp only [Dialogue.step, Driver.disconnected]
    split
    · split
      · exact ⟨fun hgoes =>
          let ⟨hconveyed, hprogress⟩ := h.running hgoes
          ⟨⟨hconveyed.admitted, hconveyed.numbered, hconveyed.covered⟩, hprogress⟩,
          h.finished, h.ended⟩
      · exact h.stops rfl rfl rfl rfl rfl rfl
    · exact h
  | expire now =>
    simp only [Dialogue.step, Driver.expire]
    split
    · exact h
    · split
      · exact h.stops rfl rfl rfl rfl rfl rfl
      · exact h
  | stop => exact h.stops rfl rfl rfl rfl rfl rfl

private theorem accounted_opening {config : TtsConfig} (h : Dialogue.opening config now o = .ok d) :
    Accounted o d := by
  obtain ⟨s₀, hopening, h⟩ := Result.bind_ok h
  obtain ⟨s₁, hconnected, h⟩ := Result.bind_ok h
  cases h
  obtain ⟨_, -, hopening⟩ := Result.bind_ok hopening
  cases hopening
  obtain ⟨hphase, hkept⟩ := begins_ok hconnected
  refine ⟨fun _ => ⟨⟨rfl, hkept.position, fun _ h => by cases h⟩, ?_⟩, by simp [completions],
    fun hsome => absurd rfl hsome⟩
  refine (progress_ready (.inl hphase)).mpr ⟨rfl, rfl, ?_⟩
  rw [hkept.messages]
  exact congrArg latestUser (List.append_nil _).symm

theorem Reachable.accounted (h : Reachable o d) : Accounted o d := by
  obtain ⟨config, now, start, stimuli, hopening, rfl⟩ := h
  have hstart := accounted_opening hopening
  unfold Dialogue.run
  clear hopening
  induction stimuli generalizing start with
  | nil => exact hstart
  | cons stimulus rest ih => exact ih _ (hstart.step stimulus)

/-- Every text was sent: that of the message the run started from, and that of every user input
admitted up to the position, each once and in this order. -/
def SendsAll (o : SessionOpen) (admitted : List (Nat × Message)) (sent : List Value) (p : Nat) :
    Prop :=
  ∃ first, latestUser o.request.messages = some first ∧
    List.Forall₂ (fun message text => userText message = .ok text)
      (first :: ((upTo p admitted).map Prod.snd).filter Message.isUser) (spokenTexts sent)

private theorem latestUser_append_others {messages others : List Message}
    (h : ∀ message ∈ others, message.isUser = false) :
    latestUser (messages ++ others) = latestUser messages := by
  unfold latestUser
  have hnone : others.reverse.find? Message.isUser = none :=
    List.find?_eq_none.mpr fun message hmem => by
      simp [h message (List.mem_reverse.mp hmem)]
  rw [List.reverse_append, List.find?_append, hnone]
  rfl

private theorem forall₂_map_snd {spoken : List (Nat × Message)} {texts : List String}
    (h : List.Forall₂ (fun input text => userText input.2 = .ok text) spoken texts) :
    List.Forall₂ (fun message text => userText message = .ok text) (spoken.map Prod.snd) texts ∧
      ∀ message ∈ spoken.map Prod.snd, message.isUser = true := by
  induction h with
  | nil => exact ⟨.nil, by simp⟩
  | cons htext _ ih =>
    refine ⟨.cons htext ih.1, ?_⟩
    rw [List.map_cons, List.forall_mem_cons]
    exact ⟨isUser_of_userText htext, ih.2⟩

private theorem Voiced.sendsAll {admitted queued spoken : List (Nat × Message)} {p : Nat}
    (h : Voiced o queued spoken sent) (hall : upTo p admitted = queued ++ spoken)
    (hqueued : ∀ input ∈ queued, input.2.isUser = false) : SendsAll o admitted sent p := by
  obtain ⟨first, text, texts, hfirst, htext, hspoken, hsent⟩ := h
  obtain ⟨htexts, husers⟩ := forall₂_map_snd hspoken
  have hothers : ∀ message ∈ queued.map Prod.snd, message.isUser = false := by
    intro message hmem
    obtain ⟨input, hinput, rfl⟩ := List.mem_map.mp hmem
    exact hqueued input hinput
  rw [latestUser_append_others hothers] at hfirst
  refine ⟨first, hfirst, ?_⟩
  have hfilter : ((upTo p admitted).map Prod.snd).filter Message.isUser = spoken.map Prod.snd := by
    rw [hall, List.map_append, List.filter_append, List.filter_eq_self.mpr husers,
      List.filter_eq_nil_iff.mpr fun message hmem => by simp [hothers message hmem]]
    rfl
  rw [hfilter, hsent]
  exact .cons htext htexts

/-- What was sent for a finished response: of the inputs up to its position those delivered
before Generate was taken stand behind the latest user text, and each of those delivered after it
was sent once, in the order of admission. Where none of the earlier ones is a user input, every
text was sent. -/
theorem finished_covers (h : Reachable o d) {completion : ResponseCompletion}
    (hfinished : .responseFinished completion ∈ d.driver.emitted) :
    upTo completion.inputPosition d.admitted = early d.taken ++ late d.taken ∧
      Voiced o (early d.taken) (late d.taken) d.driver.sent ∧
        ((∀ input ∈ early d.taken, input.2.isUser = false) →
          SendsAll o d.admitted d.driver.sent completion.inputPosition) := by
  have hmem : completion ∈ completions d.driver.emitted :=
    List.mem_filterMap.mpr ⟨_, hfinished, rfl⟩
  obtain ⟨-, -, hall, hvoiced⟩ := h.accounted.finished completion hmem
  exact ⟨hall, hvoiced, hvoiced.sendsAll hall⟩

def sampleTts : TtsConfig where
  commandTimeout := 30
  model := "speech"
  voice := .object [("voice_id", .string "voice")]
  audio := ⟨.mp3, 32000, 128000, 1⟩
  languageBoost := none
  pronunciationDictionary := []
  timbreWeights := []
  voiceEffects := none
  subtitles := none
  continuousSound := false

def sampleSpeech : SessionOpen where
  binding := none
  sessionId := "session"
  afterSequence := none
  outputEpoch := 0
  contextRevision := 0
  inputPosition := 0
  profileRevision := 0
  mode := .interactive
  limits := sampleLimits
  request :=
    { messages := [.user [.text "one"]]
      runtimeTools := []
      providerTools := []
      profile := { data := .null }
      toolChoice := .auto
      responseFormat := none
      stream := false }
  recovery := none

def sampleMessage (event : String) : Stimulus := .receive 1 (.text (some (eventFrame event))) none

/-- A second text is admitted before the task begins, a third one while it runs. -/
def sampleStimuli : List Stimulus :=
  [sampleMessage "connected_success",
    .admitEntry "b" ⟨.inserted "b", none, .user [.text "two"]⟩ .submitted, .deliver 1 none,
    .prepare ⟨"g", .generate "generation" 1 1 0⟩, .deliver 1 none, sampleMessage "task_started",
    .admitEntry "c" ⟨.inserted "c", none, .user [.text "three"]⟩ .submitted, .deliver 1 none,
    .prepare ⟨"s", .sealUserInput⟩, .deliver 1 none, sampleMessage "task_finished"]

/-- The run the stimuli make of the session once it is open. -/
def sampleDialogue : Dialogue :=
  ((Dialogue.opening sampleTts 0 sampleSpeech).toOption.get (by decide)).run sampleStimuli

private theorem reachable_sampleDialogue : Reachable sampleSpeech sampleDialogue :=
  ⟨sampleTts, 0, _, sampleStimuli, Result.eq_ok_get (by decide), rfl⟩

def sampleCompletion : ResponseCompletion where
  generationId := "generation"
  inputPosition := 2
  responseStatus := .completed
  usage := {}
  modelId := some "speech"
  responseId := none
  finishReason := some "task_finished"
  providerData := .object [("extra_info", .null)]
  effective := []

/-- The run ends with the second and the third text spoken. -/
theorem sample_finished_covers :
    spokenTexts sampleDialogue.driver.sent = ["two", "three"] ∧
      early sampleDialogue.taken = [(1, .user [.text "two"])] ∧
      upTo 2 sampleDialogue.admitted = early sampleDialogue.taken ++ late sampleDialogue.taken ∧
      Voiced sampleSpeech (early sampleDialogue.taken) (late sampleDialogue.taken)
        sampleDialogue.driver.sent := by
  have hfinished : .responseFinished sampleCompletion ∈ sampleDialogue.driver.emitted := by
    decide +kernel
  obtain ⟨hall, hvoiced, -⟩ := finished_covers reachable_sampleDialogue hfinished
  exact ⟨by decide +kernel, by decide +kernel, hall, hvoiced⟩

/-- The first text is never sent, although the response covers a later position. -/
theorem earlier_text_unsent :
    ¬ ∀ (o : SessionOpen) (d : Dialogue), Reachable o d → ∀ completion : ResponseCompletion,
      .responseFinished completion ∈ d.driver.emitted →
        SendsAll o d.admitted d.driver.sent completion.inputPosition := by
  intro hclaim
  have hfinished : .responseFinished sampleCompletion ∈ sampleDialogue.driver.emitted := by
    decide +kernel
  obtain ⟨first, -, hall⟩ := hclaim _ _ reachable_sampleDialogue _ hfinished
  have hlength := hall.length_eq
  have hsent : (spokenTexts sampleDialogue.driver.sent).length = 2 := by decide +kernel
  have hinputs : (((upTo sampleCompletion.inputPosition sampleDialogue.admitted).map
      Prod.snd).filter Message.isUser).length = 2 := by decide +kernel
  rw [List.length_cons, hinputs, hsent] at hlength
  cases hlength

end Zhir.MiniMax
