import Zhir.Models.Requests

/-!
Credentials that the exchanges share. The provider keeps one for each audience behind a lock,
refreshes it while it holds the lock, and forgets those the service rejected.
-/

set_option autoImplicit false
set_option relaxedAutoImplicit false

namespace Zhir.Models

open Zhir.Core Zhir.Library

structure CredentialContext where
  audience : String
  nowMs : Nat
  deriving DecidableEq, Repr

def Credential.fresh (nowMs : Nat) (c : Credential) : Bool := c.expiresAtMs.all (nowMs < ·)

/-- What `resolve` demands of the credential of a refresh. -/
def Credential.accepted (nowMs : Nat) (c : Credential) : Bool :=
  c.generation != "" && c.value != "" && c.fresh nowMs

/-- `RefreshingCredential::current`. -/
abbrev Current := String → Option Credential

namespace Current

def cached (current : Current) (context : CredentialContext) : Option Credential :=
  (current context.audience).filter (·.fresh context.nowMs)

/-- The rest of `resolve`, from what the refresh returned. -/
def checked (context : CredentialContext) (result : Result Credential) : Result Credential :=
  match result with
  | .ok c =>
    if c.accepted context.nowMs = true then .ok c
    else .error (.invalid "refresher returned invalid or expired credentials")
  | .error error => .error error

def insert (context : CredentialContext) (result : Result Credential) (current : Current) :
    Current :=
  match checked context result with
  | .ok c => fun audience => if audience = context.audience then some c else current audience
  | .error _ => current

def invalidate (generation : String) (current : Current) : Current :=
  fun audience => (current audience).filter (·.generation != generation)

end Current

/-- The exchanges of a request limit and the provider they share. -/
structure Traffic where
  pool : Pool Send
  current : Current := fun _ => none
  /-- The exchange that holds the lock, in a refresh. -/
  refreshing : Option Nat := none

inductive TrafficLabel
  | join (send : Send)
  /-- Anything but an answer of the provider. -/
  | own (index now : Nat) (event : SendEvent)
  /-- The lock is taken to resolve. -/
  | lookup (index now : Nat) (context : CredentialContext)
  | refreshed (index now : Nat) (context : CredentialContext) (result : Result Credential)
  | invalidated (index now : Nat) (generation : String)

namespace Traffic

def start (limit : Nat) : Traffic := { pool := Pool.start limit }

def resolving (s : Traffic) (index : Nat) : Option CredentialContext :=
  match s.pool.parties[index]? with
  | none => none
  | some p =>
    match p.phase with
    | .resolving _ nowMs => some ⟨p.sender.audience, nowMs⟩
    | _ => none

def invalidating (s : Traffic) (index : Nat) : Option String :=
  match s.pool.parties[index]? with
  | none => none
  | some p =>
    match p.phase with
    | .invalidating generation => some generation
    | _ => none

def provided : SendEvent → Bool
  | .resolved _ | .invalidated _ => true
  | _ => false

/-- The lock after an event of an exchange: a refresh is dropped with the exchange. -/
def released (index : Nat) (event : SendEvent) (refreshing : Option Nat) : Option Nat :=
  match event with
  | .drop => if refreshing = some index then none else refreshing
  | _ => refreshing

def move (range : Nat) (s : Traffic) (index now : Nat) (event : SendEvent) : Option (Pool Send) :=
  s.pool.advance Send.weight Send.fresh (Send.step range) (.move index (now, event))

def step (range : Nat) (s : Traffic) : TrafficLabel → Option Traffic
  | .join send =>
    (s.pool.advance Send.weight Send.fresh (Send.step range) (.join send)).map
      fun pool => { s with pool }
  | .own index now event =>
    if provided event = true then none
    else (s.move range index now event).map fun pool =>
      { s with pool, refreshing := released index event s.refreshing }
  | .lookup index now context =>
    if s.refreshing = none ∧ s.resolving index = some context then
      match s.current.cached context with
      | some c => (s.move range index now (.resolved (.ok c))).map fun pool => { s with pool }
      | none => some { s with refreshing := some index }
    else none
  | .refreshed index now context result =>
    if s.refreshing = some index ∧ s.resolving index = some context then
      (s.move range index now (.resolved (Current.checked context result))).map fun pool =>
        ⟨pool, s.current.insert context result, none⟩
    else none
  | .invalidated index now generation =>
    if s.refreshing = none ∧ s.invalidating index = some generation then
      (s.move range index now (.invalidated (.ok ()))).map fun pool =>
        { s with pool, current := s.current.invalidate generation }
    else none

def Moves (range : Nat) (s : Traffic) (label : TrafficLabel) (s' : Traffic) : Prop :=
  s.step range label = some s'

abbrev PoolStep (range : Nat) : Pool Send → Pool.Label Send (Nat × SendEvent) → Pool Send → Prop :=
  Pool.Step Send.weight Send.Joins (Send.Moves range)

inductive Stepped (range : Nat) (s : Traffic) : TrafficLabel → Traffic → Prop
  | joined {send : Send} {pool : Pool Send} (h : PoolStep range s.pool (.join send) pool) :
      Stepped range s (.join send) { s with pool }
  | own {index now : Nat} {event : SendEvent} {pool : Pool Send} (hevent : provided event = false)
      (h : PoolStep range s.pool (.move index (now, event)) pool) :
      Stepped range s (.own index now event)
        { s with pool, refreshing := released index event s.refreshing }
  | hit {index now : Nat} {context : CredentialContext} {c : Credential} {pool : Pool Send}
      (hfree : s.refreshing = none) (hasked : s.resolving index = some context)
      (hcached : s.current.cached context = some c)
      (h : PoolStep range s.pool (.move index (now, .resolved (.ok c))) pool) :
      Stepped range s (.lookup index now context) { s with pool }
  | miss {index now : Nat} {context : CredentialContext} (hfree : s.refreshing = none)
      (hasked : s.resolving index = some context) (hcached : s.current.cached context = none) :
      Stepped range s (.lookup index now context) { s with refreshing := some index }
  | refreshed {index now : Nat} {context : CredentialContext} {result : Result Credential}
      {pool : Pool Send} (hholder : s.refreshing = some index)
      (hasked : s.resolving index = some context)
      (h : PoolStep range s.pool (.move index (now, .resolved (Current.checked context result)))
        pool) :
      Stepped range s (.refreshed index now context result)
        ⟨pool, s.current.insert context result, none⟩
  | invalidated {index now : Nat} {generation : String} {pool : Pool Send}
      (hfree : s.refreshing = none) (hasked : s.invalidating index = some generation)
      (h : PoolStep range s.pool (.move index (now, .invalidated (.ok ()))) pool) :
      Stepped range s (.invalidated index now generation)
        { s with pool, current := s.current.invalidate generation }

section

variable {range : Nat} {s s' : Traffic} {label : TrafficLabel}

private theorem poolStep {pool pool' : Pool Send} {label : Pool.Label Send (Nat × SendEvent)}
    (h : pool.advance Send.weight Send.fresh (Send.step range) label = some pool') :
    PoolStep range pool label pool' :=
  Pool.step_of_advance (fun _ => Send.joins_of_fresh) (fun _ _ _ h => h) pool label pool' h

theorem Moves.stepped (h : Moves range s label s') : Stepped range s label s' := by
  unfold Moves step at h
  split at h
  · obtain ⟨pool, hpool, rfl⟩ := Option.map_eq_some_iff.mp h
    exact .joined (poolStep hpool)
  · split at h
    · cases h
    · next hevent =>
      obtain ⟨pool, hpool, rfl⟩ := Option.map_eq_some_iff.mp h
      exact .own (Bool.eq_false_iff.mpr hevent) (poolStep hpool)
  · split at h
    · next hfree =>
      split at h
      · next c hcached =>
        obtain ⟨pool, hpool, rfl⟩ := Option.map_eq_some_iff.mp h
        exact .hit hfree.1 hfree.2 hcached (poolStep hpool)
      · next hcached =>
        cases h
        exact .miss hfree.1 hfree.2 hcached
    · cases h
  · split at h
    · next hholder =>
      obtain ⟨pool, hpool, rfl⟩ := Option.map_eq_some_iff.mp h
      exact .refreshed hholder.1 hholder.2 (poolStep hpool)
    · cases h
  · split at h
    · next hfree =>
      obtain ⟨pool, hpool, rfl⟩ := Option.map_eq_some_iff.mp h
      exact .invalidated hfree.1 hfree.2 (poolStep hpool)
    · cases h

theorem pooled {limit : Nat} {labels : List TrafficLabel}
    (hrun : Trace (Moves range) (start limit) labels s) :
    ∃ moves, Trace (PoolStep range) (Pool.start limit) moves s.pool := by
  refine hrun.state_invariant
    (I := fun s => ∃ moves, Trace (PoolStep range) (Pool.start limit) moves s.pool)
    ⟨[], .start⟩ ?_
  rintro s label s' ⟨moves, hmoves⟩ hmove
  cases hmove.stepped with
  | miss => exact ⟨moves, hmoves⟩
  | joined h | own _ h | hit _ _ _ h | refreshed _ _ h | invalidated _ _ h =>
    exact ⟨_, .next hmoves h⟩

end

/-- The label stores an accepted credential for an audience. -/
def Stores (audience : String) (c : Credential) : TrafficLabel → Prop
  | .refreshed _ _ context result =>
    context.audience = audience ∧ Current.checked context result = .ok c
  | _ => False

def Forgets (c : Credential) : TrafficLabel → Prop
  | .invalidated _ _ generation => generation = c.generation
  | _ => False

/-- The credential came from the last accepted refresh for the audience, and its generation has not
been rejected since. -/
def Latest (labels : List TrafficLabel) (audience : String) (c : Credential) : Prop :=
  ∃ before label later, labels = before ++ label :: later ∧ Stores audience c label ∧
    ∀ next ∈ later, ¬ Forgets c next ∧ ∀ c', ¬ Stores audience c' next

section

variable {range : Nat} {s s' : Traffic} {label : TrafficLabel} {labels : List TrafficLabel}
  {audience : String} {c : Credential}

private theorem latest_snoc : Latest (labels ++ [label]) audience c ↔
    Stores audience c label ∨
      Latest labels audience c ∧ ¬ Forgets c label ∧ ∀ c', ¬ Stores audience c' label := by
  constructor
  · rintro ⟨before, first, later, hlabels, hstores, hlater⟩
    rcases snoc_eq_append_cons hlabels with ⟨-, rfl, -⟩ | ⟨init, rfl, hinit⟩
    · exact .inl hstores
    · refine .inr ⟨⟨before, first, init, hinit, hstores, fun next hnext => ?_⟩, ?_⟩
      · exact hlater next (List.mem_append_left _ hnext)
      · exact hlater label (List.mem_append_right _ (List.mem_singleton.mpr rfl))
  · rintro (hstores | ⟨⟨before, first, later, rfl, hstores, hlater⟩, hlabel⟩)
    · exact ⟨labels, label, [], rfl, hstores, fun _ h => nomatch h⟩
    · refine ⟨before, first, later ++ [label], List.append_assoc .., hstores, ?_⟩
      intro next hnext
      rcases List.mem_append.mp hnext with hnext | hnext
      · exact hlater next hnext
      · rw [List.mem_singleton.mp hnext]
        exact hlabel

private theorem latest_quiet (hforgets : ¬ Forgets c label)
    (hstores : ∀ c', ¬ Stores audience c' label) :
    Latest (labels ++ [label]) audience c ↔ Latest labels audience c := by
  rw [latest_snoc]
  exact ⟨fun h => h.elim (fun h => absurd h (hstores c)) And.left,
    fun h => .inr ⟨h, hforgets, hstores⟩⟩

private theorem current_insert {current : Current} {context : CredentialContext}
    {result : Result Credential} {index now : Nat}
    (h : ∀ audience c, current audience = some c ↔ Latest labels audience c) :
    current.insert context result audience = some c ↔
      Latest (labels ++ [.refreshed index now context result]) audience c := by
  unfold Current.insert
  cases hchecked : Current.checked context result with
  | error error =>
    refine (h audience c).trans (Iff.symm (latest_quiet (fun h => h) ?_))
    rintro c' ⟨-, hstored⟩
    rw [hchecked] at hstored
    cases hstored
  | ok stored =>
    by_cases haudience : audience = context.audience
    · subst haudience
      simp only [if_pos]
      rw [latest_snoc]
      constructor
      · intro hc
        cases hc
        exact .inl ⟨rfl, hchecked⟩
      · rintro (⟨-, hstored⟩ | ⟨-, -, hnone⟩)
        · rw [hchecked] at hstored
          cases hstored
          rfl
        · exact absurd ⟨rfl, hchecked⟩ (hnone stored)
    · simp only [if_neg haudience]
      refine (h audience c).trans (Iff.symm (latest_quiet (fun h => h) ?_))
      exact fun c' hstored => haudience hstored.1.symm

private theorem current_invalidate {current : Current} {generation : String} {index now : Nat}
    (h : ∀ audience c, current audience = some c ↔ Latest labels audience c) :
    current.invalidate generation audience = some c ↔
      Latest (labels ++ [.invalidated index now generation]) audience c := by
  unfold Current.invalidate
  rw [latest_snoc, Option.filter_eq_some_iff, h audience c]
  constructor
  · rintro ⟨hlatest, hgeneration⟩
    refine .inr ⟨hlatest, fun hforgets => ?_, fun _ h => h⟩
    rw [Forgets] at hforgets
    simp [hforgets] at hgeneration
  · rintro (hstores | ⟨hlatest, hforgets, -⟩)
    · exact absurd hstores fun h => h
    · refine ⟨hlatest, ?_⟩
      rw [bne_iff_ne]
      exact fun hgeneration => hforgets hgeneration.symm

/-- The cache holds exactly the credentials that are current. -/
private theorem current_latest {limit : Nat} (hrun : Trace (Moves range) (start limit) labels s) :
    s.current audience = some c ↔ Latest labels audience c := by
  refine hrun.invariant (I := fun labels s =>
    ∀ audience c, s.current audience = some c ↔ Latest labels audience c) ?_ ?_ audience c
  · intro audience c
    constructor
    · intro h
      cases h
    · rintro ⟨before, label, later, hlabels, -⟩
      cases before <;> cases hlabels
  · intro labels s label s' h hmove audience c
    cases hmove.stepped with
    | refreshed => exact current_insert h
    | invalidated => exact current_invalidate h
    | _ => exact (h audience c).trans (Iff.symm (latest_quiet (fun h => h) fun _ h => h))

private theorem resolving_some {index : Nat} {context : CredentialContext}
    (h : s.resolving index = some context) :
    ∃ p again, s.pool.parties[index]? = some p ∧ p.phase = .resolving again context.nowMs ∧
      p.sender.audience = context.audience := by
  unfold resolving at h
  split at h
  · cases h
  · next p hp =>
    split at h
    · next again nowMs hphase =>
      cases h
      exact ⟨p, again, hp, hphase, rfl⟩
    · cases h

theorem moved {pool pool' : Pool Send} {i j : Nat} {event : Nat × SendEvent} {p' : Send}
    (h : PoolStep range pool (.move j event) pool') (hp' : pool'.parties[i]? = some p') :
    pool.parties[i]? = some p' ∨
      i = j ∧ ∃ p, pool.parties[i]? = some p ∧ Send.Stepped range p event p' := by
  cases h with
  | @move _ _ p next hp hmoves =>
    by_cases hij : j = i
    · subst hij
      rw [List.getElem?_set_self (List.getElem?_eq_some_iff.mp hp).1] at hp'
      cases hp'
      exact .inr ⟨rfl, p, hp, hmoves.stepped⟩
    · rw [List.getElem?_set_ne hij] at hp'
      exact .inl hp'

private theorem stepped_requesting {p p' : Send} {now : Nat} {event : SendEvent} {again : Bool}
    (h : Send.Stepped range p (now, event) p') (hphase : p'.phase = .requesting again c) :
    p.phase = .requesting again c ∨
      event = .resolved (.ok c) ∧ ∃ nowMs, p.phase = .resolving again nowMs := by
  cases h with
  | cancelled => exact .inl hphase
  | dropped | interrupted => cases hphase
  | @rejected _ _ error after h =>
    rcases Send.reject_cases range now error after p with ⟨_, -, -, -, hs'⟩ | ⟨-, hs'⟩
    all_goals
      rw [hs'] at hphase
      cases hphase
  | proceeded _ h =>
    cases h with
    | resolved hresolving =>
      cases hphase
      exact .inr ⟨rfl, _, hresolving⟩
    | _ => cases hphase

private theorem resolving_eq {i nowMs : Nat} {p : Send} {again : Bool}
    (hp : s.pool.parties[i]? = some p)
    (hphase : p.phase = .resolving again nowMs) :
    s.resolving i = some ⟨p.sender.audience, nowMs⟩ := by
  unfold resolving
  simp only [hp, hphase]

theorem Stepped.requesting (h : s.Stepped range label s') {i : Nat} {p' : Send} {again : Bool}
    (hp' : s'.pool.parties[i]? = some p') (hphase : p'.phase = .requesting again c) :
    ∃ p, s.pool.parties[i]? = some p ∧ (p.phase = .requesting again c ∨
      ∃ nowMs now, p.phase = .resolving again nowMs ∧
        (label = .lookup i now ⟨p.sender.audience, nowMs⟩ ∧
            s.current.cached ⟨p.sender.audience, nowMs⟩ = some c ∨
          ∃ result, label = .refreshed i now ⟨p.sender.audience, nowMs⟩ result ∧
            Current.checked ⟨p.sender.audience, nowMs⟩ result = .ok c)) := by
  have hmoved : ∀ {j now : Nat} {event : SendEvent} {pool : Pool Send},
      PoolStep range s.pool (.move j (now, event)) pool → pool.parties[i]? = some p' →
      ∃ p, s.pool.parties[i]? = some p ∧ (p.phase = .requesting again c ∨
        i = j ∧ event = .resolved (.ok c) ∧ ∃ nowMs, p.phase = .resolving again nowMs ∧
          s.resolving i = some ⟨p.sender.audience, nowMs⟩) := by
    intro j now event pool hstep hpool
    rcases moved hstep hpool with hp | ⟨rfl, p, hp, hstepped⟩
    · exact ⟨p', hp, .inl hphase⟩
    · rcases stepped_requesting hstepped hphase with hsame | ⟨hevent, nowMs, hresolving⟩
      · exact ⟨p, hp, .inl hsame⟩
      · exact ⟨p, hp, .inr ⟨rfl, hevent, nowMs, hresolving, resolving_eq hp hresolving⟩⟩
  cases h with
  | joined hstep =>
    cases hstep with
    | join hjoins =>
      rcases Nat.lt_or_ge i s.pool.parties.length with hold | hnew
      · rw [List.getElem?_append_left hold] at hp'
        exact ⟨p', hp', .inl hphase⟩
      · rw [List.getElem?_append_right hnew] at hp'
        obtain ⟨hi, hp'⟩ := List.getElem?_eq_some_iff.mp hp'
        obtain ⟨sender, rfl⟩ := hjoins
        rw [List.getElem_singleton] at hp'
        subst hp'
        cases hphase
  | own hevent hstep =>
    obtain ⟨p, hp, hsame | ⟨-, rfl, -⟩⟩ := hmoved hstep hp'
    · exact ⟨p, hp, .inl hsame⟩
    · cases hevent
  | @hit index now context _ _ _ hasked hcached hstep =>
    obtain ⟨p, hp, hsame | ⟨rfl, hc, nowMs, hresolving, hcontext⟩⟩ := hmoved hstep hp'
    · exact ⟨p, hp, .inl hsame⟩
    · cases hc
      cases hasked.symm.trans hcontext
      exact ⟨p, hp, .inr ⟨nowMs, now, hresolving, .inl ⟨rfl, hcached⟩⟩⟩
  | miss => exact ⟨p', hp', .inl hphase⟩
  | @refreshed index now context result _ _ hasked hstep =>
    obtain ⟨p, hp, hsame | ⟨rfl, hc, nowMs, hresolving, hcontext⟩⟩ := hmoved hstep hp'
    · exact ⟨p, hp, .inl hsame⟩
    · rw [SendEvent.resolved.injEq] at hc
      cases hasked.symm.trans hcontext
      exact ⟨p, hp, .inr ⟨nowMs, now, hresolving, .inr ⟨result, rfl, hc⟩⟩⟩
  | invalidated _ _ hstep =>
    obtain ⟨p, hp, hsame | ⟨-, hc, -⟩⟩ := hmoved hstep hp'
    · exact ⟨p, hp, .inl hsame⟩
    · cases hc

private theorem checked_ok {context : CredentialContext} {result : Result Credential}
    (h : Current.checked context result = .ok c) : c.accepted context.nowMs = true := by
  unfold Current.checked at h
  split at h
  · split at h
    · next haccepted =>
      cases h
      exact haccepted
    · cases h
  · cases h

private theorem Stepped.refreshing (h : s.Stepped range label s') {i : Nat}
    (hfree : s.refreshing = none)
    (hheld : s'.refreshing = some i) :
    ∃ context, s.resolving i = some context ∧ s.current.cached context = none := by
  cases h with
  | own =>
    unfold released at hheld
    rw [hfree] at hheld
    split at hheld
    · cases hheld
    · cases hheld
  | miss _ hasked hcached =>
    cases hheld
    exact ⟨_, hasked, hcached⟩
  | refreshed => cases hheld
  | joined | hit | invalidated =>
    rw [hfree] at hheld
    cases hheld

end

end Traffic

/-- However the exchanges of a limit interleave over the credentials they share: they remain
exchanges within that limit; each sends the credential of the last accepted refresh for its
audience, unexpired as of when it asked and of a generation that was not rejected since; and while
such a credential is there, nobody refreshes. -/
theorem credentials_served {range limit : Nat} {labels : List TrafficLabel} {label : TrafficLabel}
    {s s' : Traffic} (hrun : Trace (Traffic.Moves range) (Traffic.start limit) labels s)
    (hmove : Traffic.Moves range s label s') :
    (∃ moves, Trace (Traffic.PoolStep range) (Pool.start limit) moves s.pool) ∧
    (∀ (i : Nat) (p' : Send) (again : Bool) (c : Credential),
      s'.pool.parties[i]? = some p' → p'.phase = .requesting again c →
        ∃ p : Send, s.pool.parties[i]? = some p ∧ (p.phase = .requesting again c ∨
          ∃ nowMs, p.phase = .resolving again nowMs ∧ c.fresh nowMs = true ∧
            Traffic.Latest (labels ++ [label]) p.sender.audience c)) ∧
    ∀ i, s.refreshing = none → s'.refreshing = some i →
      ∃ (p : Send) (again : Bool) (nowMs : Nat), s.pool.parties[i]? = some p ∧
        p.phase = .resolving again nowMs ∧
        ∀ c, Traffic.Latest labels p.sender.audience c → c.fresh nowMs = false := by
  have hstepped := hmove.stepped
  refine ⟨Traffic.pooled hrun, fun i p' again c hp' hphase => ?_, fun i hfree hheld => ?_⟩
  · obtain ⟨p, hp, hsame | ⟨nowMs, now, hresolving, hserved⟩⟩ := hstepped.requesting hp' hphase
    · exact ⟨p, hp, .inl hsame⟩
    · refine ⟨p, hp, .inr ⟨nowMs, hresolving, ?_⟩⟩
      rcases hserved with ⟨rfl, hcached⟩ | ⟨result, rfl, hchecked⟩
      · obtain ⟨hcurrent, hfresh⟩ := Option.filter_eq_some_iff.mp hcached
        have hlatest := (Traffic.current_latest hrun).mp hcurrent
        refine ⟨hfresh, Iff.mpr ?_ hlatest⟩
        exact Traffic.latest_quiet (fun h => h) fun _ h => h
      · have haccepted := Traffic.checked_ok hchecked
        unfold Credential.accepted at haccepted
        exact ⟨(Bool.and_eq_true_iff.mp haccepted).2,
          Traffic.latest_snoc.mpr (.inl ⟨rfl, hchecked⟩)⟩
  · obtain ⟨context, hasked, hcached⟩ := hstepped.refreshing hfree hheld
    obtain ⟨p, again, hp, hphase, haudience⟩ := Traffic.resolving_some hasked
    refine ⟨p, again, context.nowMs, hp, hphase, fun c hlatest => ?_⟩
    rw [haudience] at hlatest
    have hcurrent := (Traffic.current_latest hrun).mpr hlatest
    rw [Current.cached, hcurrent] at hcached
    cases hfresh : c.fresh context.nowMs with
    | false => rfl
    | true => simp [Option.filter, hfresh] at hcached

def sampleMissing : List TrafficLabel :=
  [.join { sender := sampleSender }, .own 0 1 .started, .own 0 2 .acquired, .own 0 3 (.asked 7),
    .lookup 0 4 ⟨"service", 7⟩]

def sampleRefresh : TrafficLabel := .refreshed 0 5 ⟨"service", 7⟩ (.ok sampleCredential)

def sampleMissed : Option Traffic := sampleMissing.foldlM (Traffic.step 5000) (.start 1)

def sampleRefreshed : Option Traffic := sampleMissed.bind fun s => s.step 5000 sampleRefresh

private theorem sampleMissed_run : Trace (Traffic.Moves 5000) (Traffic.start 1) sampleMissing
    (sampleMissed.get (by decide +kernel)) :=
  .of_foldlM (fun _ _ _ h => h) (Option.some_get _).symm

private theorem sampleRefreshed_move : Traffic.Moves 5000 (sampleMissed.get (by decide +kernel))
    sampleRefresh (sampleRefreshed.get (by decide +kernel)) := by
  have h : sampleRefreshed = some (sampleRefreshed.get (by decide +kernel)) :=
    (Option.some_get _).symm
  obtain ⟨s, hs, hstep⟩ := Option.bind_eq_some_iff.mp h
  have hget : sampleMissed.get (by decide +kernel) = s := by simp [hs]
  rw [hget]
  exact hstep

theorem credentials_served_sample :
    (∃ moves, Trace (Traffic.PoolStep 5000) (Pool.start 1) moves
      (sampleMissed.get (by decide +kernel)).pool) ∧
    sampleCredential.fresh 7 = true ∧
    Traffic.Latest (sampleMissing ++ [sampleRefresh]) sampleSender.audience sampleCredential := by
  obtain ⟨hpooled, hserved, -⟩ := credentials_served sampleMissed_run sampleRefreshed_move
  obtain ⟨p', hp', hrequesting⟩ : ∃ p',
      (sampleRefreshed.get (by decide +kernel)).pool.parties[0]? = some p' ∧
        p'.phase = .requesting false sampleCredential := ⟨_, rfl, rfl⟩
  have hbefore : ((sampleMissed.get (by decide +kernel)).pool.parties[0]?).map
      (fun p => (p.phase, p.sender.audience)) =
        some (.resolving false 7, sampleSender.audience) := rfl
  obtain ⟨p, hp, hphase⟩ := hserved 0 p' false sampleCredential hp' hrequesting
  rw [hp] at hbefore
  obtain ⟨hresolving, haudience⟩ := Prod.mk.inj (Option.some.inj hbefore)
  rw [hresolving, haudience] at hphase
  obtain h | ⟨nowMs, hnow, hfresh, hlatest⟩ := hphase
  · cases h
  · cases hnow
    exact ⟨hpooled, hfresh, hlatest⟩

end Zhir.Models
