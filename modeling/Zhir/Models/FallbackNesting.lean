import Mathlib.Data.List.Perm.Basic
import Mathlib.Logic.Relation
import Zhir.Core.Commit
import Zhir.Models.Fallback

/-!
Fallback models over fallback models over leaves: what a session is bound to, through every
reopening.
-/

set_option autoImplicit false
set_option relaxedAutoImplicit false

namespace Zhir.Models

open Zhir.Core

/-- The models at the bottom, in a world `ε`; nothing is known of what they do. -/
structure Leaves (L ε : Type) where
  check : ε → Result Unit × ε
  negotiate : L → ModelRequest → ε → Result NegotiatedProfile
  openSession : L → SessionOpen → ε → Result Session × ε

/-- The world together with the leaves that were opened in it, and with what. -/
structure Opened (L ε : Type) where
  world : ε
  log : List (L × SessionOpen)

inductive Nest (L : Type)
  | leaf (leaf : L)
  | fallback (candidates : List (String × Nest L))

variable {L ε : Type}

namespace Leaves

variable (leaves : Leaves L ε)

def checked (w : Opened L ε) : Result Unit × Opened L ε :=
  ((leaves.check w.world).1, { w with world := (leaves.check w.world).2 })

def model (l : L) : DynModel (Opened L ε) where
  negotiate request w := leaves.negotiate l request w.world
  openSession opening w :=
    ((leaves.openSession l opening w.world).1,
      ⟨(leaves.openSession l opening w.world).2, w.log ++ [(l, opening)]⟩)

end Leaves

namespace Nest

mutual

def model (leaves : Leaves L ε) : Nest L → DynModel (Opened L ε)
  | .leaf l => leaves.model l
  | .fallback candidates => FallbackModel.model leaves.checked (models leaves candidates)

def models (leaves : Leaves L ε) : List (String × Nest L) → List (FallbackCandidate (Opened L ε))
  | [] => []
  | (id, nest) :: rest => ⟨id, nest.model leaves⟩ :: models leaves rest

end

/-- Every level was accepted by `FallbackModel::new`. -/
inductive Valid : Nest L → Prop
  | leaf (l : L) : Valid (.leaf l)
  | fallback {candidates : List (String × Nest L)}
      (hnew : FallbackModel.checkCandidates (candidates.map Prod.fst) = .ok ())
      (hall : ∀ c ∈ candidates, Valid c.2) : Valid (.fallback candidates)

mutual

/-- The same candidates in another order, at every level. -/
inductive Reordered : Nest L → Nest L → Prop
  | leaf (l : L) : Reordered (.leaf l) (.leaf l)
  | fallback {candidates kept candidates' : List (String × Nest L)}
      (hkept : ReorderedAll candidates kept) (horder : kept.Perm candidates') :
      Reordered (.fallback candidates) (.fallback candidates')

inductive ReorderedAll : List (String × Nest L) → List (String × Nest L) → Prop
  | nil : ReorderedAll [] []
  | cons {id : String} {nest nest' : Nest L} {rest rest' : List (String × Nest L)}
      (h : Reordered nest nest') (hrest : ReorderedAll rest rest') :
      ReorderedAll ((id, nest) :: rest) ((id, nest') :: rest')

end

def candidate (candidates : List (String × Nest L)) (id : String) : Option (Nest L) :=
  (candidates.find? fun c => c.1 = id).map Prod.snd

def leafAt : List String → Nest L → Option L
  | [], .leaf l => some l
  | id :: path, .fallback candidates => (candidate candidates id).bind (leafAt path)
  | _, _ => none

private theorem candidate_iff {candidates : List (String × Nest L)} {id : String} {nest : Nest L}
    (hunique : (candidates.map Prod.fst).Nodup) :
    candidate candidates id = some nest ↔ (id, nest) ∈ candidates := by
  induction candidates with
  | nil => simp [candidate]
  | cons c rest ih =>
    obtain ⟨hfresh, hrest⟩ := List.nodup_cons.1 hunique
    unfold candidate at ih ⊢
    by_cases hc : c.1 = id
    · rw [List.find?_cons_of_pos (by simp [hc])]
      constructor
      · intro h
        obtain rfl := Option.some.inj h
        rw [← hc]
        exact List.mem_cons_self
      · intro h
        rcases List.mem_cons.1 h with h | h
        · rw [← h]
          rfl
        · exact absurd (List.mem_map_of_mem h) (by rw [hc] at hfresh; exact hfresh)
    · rw [List.find?_cons_of_neg (by simp [hc]), ih hrest, List.mem_cons]
      constructor
      · exact .inr
      · rintro (rfl | h)
        · exact absurd rfl hc
        · exact h

theorem ReorderedAll.ids {candidates kept : List (String × Nest L)}
    (h : ReorderedAll candidates kept) : kept.map Prod.fst = candidates.map Prod.fst := by
  induction candidates generalizing kept with
  | nil =>
    cases h
    rfl
  | cons c rest ih =>
    cases h with
    | cons h hrest => rw [List.map_cons, List.map_cons, ih hrest]

theorem ReorderedAll.candidate {candidates kept : List (String × Nest L)}
    (h : ReorderedAll candidates kept) (id : String) :
    (Nest.candidate candidates id = none ∧ Nest.candidate kept id = none) ∨
      ∃ nest nest', Nest.candidate candidates id = some nest ∧
        Nest.candidate kept id = some nest' ∧ Reordered nest nest' := by
  induction candidates generalizing kept with
  | nil =>
    cases h
    exact .inl ⟨rfl, rfl⟩
  | cons c rest ih =>
    cases h with
    | @cons id' nest nest' _ rest' h hrest =>
      unfold Nest.candidate at ih ⊢
      by_cases hid : id' = id
      · rw [List.find?_cons_of_pos (by simp [hid]), List.find?_cons_of_pos (by simp [hid])]
        exact .inr ⟨nest, nest', rfl, rfl, h⟩
      · rw [List.find?_cons_of_neg (by simp [hid]), List.find?_cons_of_neg (by simp [hid])]
        exact ih hrest

theorem ReorderedAll.mem {candidates kept : List (String × Nest L)}
    (h : ReorderedAll candidates kept) {c' : String × Nest L} (hc : c' ∈ kept) :
    ∃ c ∈ candidates, Reordered c.2 c'.2 := by
  induction candidates generalizing kept with
  | nil =>
    cases h
    cases hc
  | cons c rest ih =>
    cases h with
    | cons h hrest =>
      rcases List.mem_cons.1 hc with rfl | hc
      · exact ⟨_, List.mem_cons_self, h⟩
      · obtain ⟨c, hmem, hreordered⟩ := ih hrest hc
        exact ⟨c, List.mem_cons_of_mem _ hmem, hreordered⟩

private theorem checkCandidates_iff {ids : List String} :
    FallbackModel.checkCandidates ids = .ok () ↔
      ((∀ id ∈ ids, id ≠ "") ∧ ids.Nodup) ∧ ids ≠ [] := by
  unfold FallbackModel.checkCandidates
  constructor
  · intro h
    obtain ⟨_, hunique, hsome⟩ := Result.bind_ok h
    exact ⟨require_ok hunique, require_ok hsome⟩
  · rintro ⟨hunique, hsome⟩
    simp only [require, if_pos hunique, if_pos hsome]
    rfl

theorem Valid.unique {candidates : List (String × Nest L)} (h : Valid (.fallback candidates)) :
    (candidates.map Prod.fst).Nodup := by
  cases h with
  | fallback hnew _ => exact (checkCandidates_iff.1 hnew).1.2

private theorem Valid.reordered {nest nest' : Nest L} (h : nest.Valid) (hr : nest.Reordered nest') :
    nest'.Valid := by
  induction h generalizing nest' with
  | leaf l =>
    cases hr
    exact .leaf l
  | @fallback candidates hnew hall ih =>
    cases hr with
    | @fallback _ kept candidates' hkept horder =>
      have hids : (candidates'.map Prod.fst).Perm (candidates.map Prod.fst) := by
        rw [← hkept.ids]
        exact (horder.map Prod.fst).symm
      refine .fallback ?_ ?_
      · obtain ⟨⟨hnames, hunique⟩, hsome⟩ := checkCandidates_iff.1 hnew
        refine checkCandidates_iff.2 ⟨⟨?_, hids.nodup_iff.2 hunique⟩, ?_⟩
        · intro id hid
          exact hnames id (hids.mem_iff.1 hid)
        · intro hnil
          rw [hnil] at hids
          exact hsome hids.nil_eq.symm
      · intro c' hc'
        obtain ⟨c, hc, hreordered⟩ := hkept.mem (horder.mem_iff.2 hc')
        exact ih c hc hreordered

private theorem Reordered.leafAt {path : List String} {nest nest' : Nest L} (hvalid : nest.Valid)
    (hr : nest.Reordered nest') : nest'.leafAt path = nest.leafAt path := by
  induction path generalizing nest nest' with
  | nil => cases hr <;> rfl
  | cons id path ih =>
    cases hr with
    | leaf l => rfl
    | @fallback candidates kept candidates' hkept horder =>
      have hunique := hvalid.unique
      have hkeptUnique : (kept.map Prod.fst).Nodup := hkept.ids ▸ hunique
      have hunique' : (candidates'.map Prod.fst).Nodup :=
        (horder.map Prod.fst).nodup_iff.1 hkeptUnique
      have hsame : Nest.candidate candidates' id = Nest.candidate kept id := by
        apply Option.ext
        intro nest
        rw [candidate_iff hunique', candidate_iff hkeptUnique]
        exact horder.mem_iff.symm
      change (Nest.candidate candidates' id).bind _ = (Nest.candidate candidates id).bind _
      rw [hsame]
      rcases hkept.candidate id with ⟨hnone, hnone'⟩ | ⟨nest, nest', hsome, hsome', hnest⟩
      · rw [hnone, hnone']
      · rw [hsome, hsome']
        cases hvalid with
        | fallback _ hall =>
          have hmem := (candidate_iff hunique).1 hsome
          exact ih (hall _ hmem) hnest

private theorem find_models (leaves : Leaves L ε) (candidates : List (String × Nest L))
    (id : String) :
    (models leaves candidates).find? (fun c => c.id = id) =
      (candidate candidates id).map fun nest => ⟨id, nest.model leaves⟩ := by
  induction candidates with
  | nil => rfl
  | cons c rest ih =>
    unfold candidate at ih ⊢
    change (_ :: models leaves rest).find? _ = _
    by_cases hc : c.1 = id
    · rw [List.find?_cons_of_pos (by simp [hc]), List.find?_cons_of_pos (by simp [hc]), ← hc]
      rfl
    · rw [List.find?_cons_of_neg (by simp [hc]), List.find?_cons_of_neg (by simp [hc]), ih]

end Nest

def wrapBinding : List String → Option ModelBinding → Option ModelBinding
  | [], b => b
  | id :: path, b => some (boundBinding id (wrapBinding path b))

def wrapRecovery : List String → RecoveryRef → RecoveryRef
  | [], r => r
  | id :: path, r => boundRecovery id (wrapRecovery path r)

def wrapSession : List String → Session → Session
  | [], s => s
  | id :: path, s => FallbackModel.bind (wrapSession path s) id

private theorem wrapSession_binding (path : List String) (s : Session) :
    (wrapSession path s).binding = wrapBinding path s.binding := by
  induction path with
  | nil => rfl
  | cons id path ih =>
    change some (boundBinding id (wrapSession path s).binding) = _
    rw [ih]
    rfl

/-- The reference an event carries for recovering the session. -/
def emittedRecovery : SessionEventBody → Option RecoveryRef
  | .acknowledged _ reference => reference
  | .recovery reference => some reference
  | _ => none

private theorem emittedRecovery_bound (id : String) (body : SessionEventBody) :
    emittedRecovery (boundEvent id body) = (emittedRecovery body).map (boundRecovery id) := by
  cases body with
  | acknowledged command reference => cases reference <;> rfl
  | _ => rfl

private theorem wrapSession_emits {path : List String} {s : Session} {n : Nat}
    {body : SessionEventBody}
    {reference : RecoveryRef} (h : (wrapSession path s).receive n = .ok (some body))
    (hr : emittedRecovery body = some reference) :
    ∃ inner r, s.receive n = .ok (some inner) ∧ emittedRecovery inner = some r ∧
      reference = wrapRecovery path r := by
  induction path generalizing body reference with
  | nil => exact ⟨body, reference, h, hr, rfl⟩
  | cons id path ih =>
    change ((wrapSession path s).receive n).map (Option.map (boundEvent id)) = _ at h
    cases hinner : (wrapSession path s).receive n with
    | error e =>
      rw [hinner] at h
      cases h
    | ok event =>
      rw [hinner] at h
      cases event with
      | none => cases h
      | some inner =>
        cases h
        rw [emittedRecovery_bound] at hr
        obtain ⟨r, hemitted, rfl⟩ := Option.map_eq_some_iff.1 hr
        obtain ⟨first, r', hreceive, hfirst, rfl⟩ := ih hinner hemitted
        exact ⟨first, r', hreceive, hfirst, rfl⟩

private theorem held_bound (opening : SessionOpen) (id : String) (b : Option ModelBinding)
    (r : Option RecoveryRef) :
    FallbackModel.held { opening with
        binding := some (boundBinding id b)
        recovery := r.map (boundRecovery id) } =
      .ok (some id, { opening with binding := b, recovery := r }) := by
  have hbinding : heldBinding (boundBinding id b) = .ok ⟨id, b⟩ := by
    simp only [heldBinding, boundBinding, ne_eq, not_true_eq_false, if_false,
      FallbackBinding.ofValue_toValue]
  have hrecovery : ∀ r, heldRecovery (boundRecovery id r) = .ok ⟨id, r⟩ := by
    intro r
    simp only [heldRecovery, boundRecovery, ne_eq, not_true_eq_false, if_false,
      FallbackRecovery.ofValue_toValue]
  unfold FallbackModel.held
  cases r with
  | none =>
    simp only [Option.mapM_some, hbinding]
    rfl
  | some r =>
    simp only [Option.mapM_some, Option.map_some, hbinding, hrecovery]
    change (do
      let candidate ← boundCandidate (some ⟨id, b⟩) (some ⟨id, r⟩)
      _) = _
    have hsame : boundCandidate (some ⟨id, b⟩) (some ⟨id, r⟩) = .ok (some id) :=
      if_neg fun h => h rfl
    rw [hsame]
    rfl

def Returned (leaves : Leaves L ε) (l : L) (session : Session) : Prop :=
  ∃ opening world world', leaves.openSession l opening world = (.ok session, world')

/-- The request with the binding and the recovery of a leaf. -/
def leafOpening (opening : SessionOpen) (b : Option ModelBinding) (r : Option RecoveryRef) :
    SessionOpen :=
  { opening with binding := b, recovery := r }

/-- The outcome of an opening that goes to one leaf, or fails before. -/
def GoesTo (leaves : Leaves L ε) (path : List String) (l : L) (opening : SessionOpen)
    (log : List (L × SessionOpen)) (result : Result Session × Opened L ε) : Prop :=
  ((∃ e, result.1 = .error e) ∧ result.2.log = log) ∨
    (result.2.log = log ++ [(l, opening)] ∧
      ((∃ e, result.1 = .error e) ∨
        ∃ session, Returned leaves l session ∧ result.1 = .ok (wrapSession path session)))

private theorem openSession_bound (leaves : Leaves L ε) {path : List String} {nest : Nest L} {l : L}
    (hleaf : nest.leafAt path = some l) (opening : SessionOpen) (b : Option ModelBinding)
    (r : Option RecoveryRef) (w : Opened L ε) :
    GoesTo leaves path l (leafOpening opening b r) w.log
      ((nest.model leaves).openSession
        (leafOpening opening (wrapBinding path b) (r.map (wrapRecovery path))) w) := by
  induction path generalizing nest w with
  | nil =>
    cases nest with
    | fallback candidates => cases hleaf
    | leaf l' =>
      obtain rfl := Option.some.inj hleaf
      have hopening : leafOpening opening (wrapBinding [] b) (r.map (wrapRecovery [])) =
          leafOpening opening b r := by
        cases r <;> rfl
      rw [hopening]
      refine .inr ⟨rfl, ?_⟩
      cases hanswer : leaves.openSession l' (leafOpening opening b r) w.world with
      | mk result world =>
        cases result with
        | error e =>
          refine .inl ⟨e, ?_⟩
          change (leaves.openSession l' (leafOpening opening b r) w.world).1 = _
          rw [hanswer]
        | ok session =>
          refine .inr ⟨session, ⟨_, _, _, hanswer⟩, ?_⟩
          change (leaves.openSession l' (leafOpening opening b r) w.world).1 = _
          rw [hanswer]
          rfl
  | cons id path ih =>
    cases nest with
    | leaf l' => cases hleaf
    | fallback candidates =>
      obtain ⟨nest, hnest, hleaf⟩ := Option.bind_eq_some_iff.1 hleaf
      have hheld : FallbackModel.held (leafOpening opening (wrapBinding (id :: path) b)
          (r.map (wrapRecovery (id :: path)))) =
          .ok (some id, leafOpening opening (wrapBinding path b) (r.map (wrapRecovery path))) := by
        have hrecovery : r.map (wrapRecovery (id :: path)) =
            (r.map (wrapRecovery path)).map (boundRecovery id) := by
          cases r <;> rfl
        rw [hrecovery]
        exact held_bound opening id (wrapBinding path b) (r.map (wrapRecovery path))
      change GoesTo leaves (id :: path) l _ w.log
        (FallbackModel.openSession leaves.checked (Nest.models leaves candidates) _ w)
      unfold FallbackModel.openSession
      cases hcheck : leaves.checked w with
      | mk checked w₁ =>
        have hlog : w₁.log = w.log := by
          have := congrArg (fun x => x.2.log) hcheck
          exact this.symm
        cases checked with
        | error e => exact .inl ⟨⟨e, rfl⟩, hlog⟩
        | ok _ =>
          simp only [hheld, openBound, Nest.find_models, hnest, Option.map_some]
          have hinner := ih hleaf w₁
          rw [hlog] at hinner
          cases hresult : (nest.model leaves).openSession
              (leafOpening opening (wrapBinding path b) (r.map (wrapRecovery path))) w₁ with
          | mk result w₂ =>
            rw [hresult] at hinner
            cases result with
            | error e =>
              rcases hinner with ⟨-, hsame⟩ | ⟨hopened, -⟩
              · exact .inl ⟨⟨e, rfl⟩, hsame⟩
              · exact .inr ⟨hopened, .inl ⟨e, rfl⟩⟩
            | ok session =>
              rcases hinner with ⟨⟨e, he⟩, -⟩ | ⟨hopened, ⟨e, he⟩ | ⟨leafSession, hreturned, hok⟩⟩
              · cases he
              · cases he
              · cases hok
                exact .inr ⟨hopened, .inr ⟨leafSession, hreturned, rfl⟩⟩

private theorem openFirst_ok {leaves : Leaves L ε} {opening : SessionOpen}
    {candidates : List (String × Nest L)} {error : Error} {w w' : Opened L ε} {session : Session}
    (h : openFirst leaves.checked opening (Nest.models leaves candidates) error w =
      (.ok session, w')) :
    ∃ c ∈ candidates, ∃ w₁ inner, (c.2.model leaves).openSession opening w₁ = (.ok inner, w') ∧
      session = FallbackModel.bind inner c.1 := by
  induction candidates generalizing error w with
  | nil => cases h
  | cons c rest ih =>
    have hlater : ∀ {error : Error} {w : Opened L ε},
        openFirst leaves.checked opening (Nest.models leaves rest) error w = (.ok session, w') →
          ∃ c' ∈ c :: rest, ∃ w₁ inner,
            (c'.2.model leaves).openSession opening w₁ = (.ok inner, w') ∧
              session = FallbackModel.bind inner c'.1 := by
      intro error w h
      obtain ⟨c', hc', hopened⟩ := ih h
      exact ⟨c', List.mem_cons_of_mem c hc', hopened⟩
    change openFirst leaves.checked opening (_ :: Nest.models leaves rest) error w = _ at h
    unfold openFirst at h
    split at h
    · cases h
    split at h
    · exact hlater h
    split at h
    · rename_i inner w₂ hopened
      obtain ⟨hsession, rfl⟩ := Prod.mk.inj h
      exact ⟨c, List.mem_cons_self, _, inner, hopened, (Except.ok.inj hsession).symm⟩
    split at h
    · split at h
      · exact hlater h
      · cases h
    · cases h

private theorem openSession_fresh (leaves : Leaves L ε) {nest : Nest L} (hvalid : nest.Valid)
    {opening : SessionOpen} (hbinding : opening.binding = none)
    (hrecovery : opening.recovery = none) {w w' : Opened L ε} {session : Session}
    (h : (nest.model leaves).openSession opening w = (.ok session, w')) :
    ∃ path l leafSession before, nest.leafAt path = some l ∧ Returned leaves l leafSession ∧
      session = wrapSession path leafSession ∧ w'.log = before ++ [(l, opening)] := by
  induction hvalid generalizing w session with
  | leaf l =>
    cases hanswer : leaves.openSession l opening w.world with
    | mk result world =>
      change ((leaves.openSession l opening w.world).1, _) = _ at h
      obtain ⟨hresult, rfl⟩ := Prod.mk.inj h
      refine ⟨[], l, session, w.log, rfl, ⟨opening, w.world, world, ?_⟩, rfl, rfl⟩
      rw [hanswer] at hresult
      obtain rfl : result = .ok session := hresult
      exact hanswer
  | @fallback candidates hnew hall ih =>
    change FallbackModel.openSession leaves.checked (Nest.models leaves candidates) opening w =
      _ at h
    have hheld : FallbackModel.held opening = .ok (none, opening) := by
      have hnone : opening = { opening with binding := none, recovery := none } := by
        rw [← hbinding, ← hrecovery]
      unfold FallbackModel.held
      rw [hbinding, hrecovery]
      change Except.ok (none, { opening with binding := none, recovery := none }) = _
      rw [← hnone]
    unfold FallbackModel.openSession at h
    split at h
    · cases h
    rw [hheld] at h
    simp only at h
    obtain ⟨c, hc, w₁, inner, hopened, rfl⟩ := openFirst_ok h
    obtain ⟨path, l, leafSession, before, hleaf, hreturned, rfl, hlog⟩ := ih c hc hopened
    refine ⟨c.1 :: path, l, leafSession, before, ?_, hreturned, rfl, hlog⟩
    have hunique : (candidates.map Prod.fst).Nodup := Nest.Valid.unique (.fallback hnew hall)
    have hcandidate : Nest.candidate candidates c.1 = some c.2 :=
      (Nest.candidate_iff hunique).2 hc
    change (Nest.candidate candidates c.1).bind _ = _
    rw [hcandidate]
    exact hleaf

/-- A session that was opened, the reference it emitted last, and the leaves that were opened for
it since. -/
structure Course (L : Type) where
  nest : Nest L
  session : Session
  recovery : Option RecoveryRef
  log : List (L × SessionOpen)

def Course.reopen (leaves : Leaves L ε) (c : Course L) (nest : Nest L) (opening : SessionOpen)
    (world : ε) : Result Session × Opened L ε :=
  (nest.model leaves).openSession (leafOpening opening c.session.binding c.recovery) ⟨world, []⟩

inductive Continues (leaves : Leaves L ε) : Course L → Course L → Prop
  | emitted {c : Course L} {n : Nat} {body : SessionEventBody} {reference : RecoveryRef}
      (h : c.session.receive n = .ok (some body)) (hr : emittedRecovery body = some reference) :
      Continues leaves c { c with recovery := some reference }
  | reopened {c : Course L} {nest : Nest L} {opening : SessionOpen} {world : ε}
      {session : Session} {w : Opened L ε} (horder : c.nest.Reordered nest)
      (h : c.reopen leaves nest opening world = (.ok session, w)) :
      Continues leaves c ⟨nest, session, c.recovery, c.log ++ w.log⟩
  | refused {c : Course L} {nest : Nest L} {opening : SessionOpen} {world : ε} {e : Error}
      {w : Opened L ε} (horder : c.nest.Reordered nest)
      (h : c.reopen leaves nest opening world = (.error e, w)) :
      Continues leaves c { c with nest, log := c.log ++ w.log }

/-- Everything held of a session is that of one leaf, wrapped along one path. -/
structure OwnedBy (leaves : Leaves L ε) (path : List String) (l : L) (session : Session)
    (recovery : Option RecoveryRef) (c : Course L) : Prop where
  valid : c.nest.Valid
  place : c.nest.leafAt path = some l
  returned : Returned leaves l session
  wrapped : c.session = wrapSession path session
  held : c.recovery = recovery.map (wrapRecovery path)
  emitted : ∀ r ∈ recovery, ∃ s n body, Returned leaves l s ∧ s.receive n = .ok (some body) ∧
    emittedRecovery body = some r
  log : ∀ o ∈ c.log, o.1 = l

variable {leaves : Leaves L ε} {path : List String} {l : L} {session : Session}
  {recovery : Option RecoveryRef} {c c' : Course L}

theorem OwnedBy.first {nest : Nest L} {first : Session} (hvalid : nest.Valid)
    (hleaf : nest.leafAt path = some l) (hreturned : Returned leaves l session)
    (hfirst : first = wrapSession path session) :
    OwnedBy leaves path l session none ⟨nest, first, none, []⟩ where
  valid := hvalid
  place := hleaf
  returned := hreturned
  wrapped := hfirst
  held := rfl
  emitted r hr := by cases hr
  log o ho := by cases ho

private theorem OwnedBy.reopen (h : OwnedBy leaves path l session recovery c) {nest : Nest L}
    (horder : c.nest.Reordered nest) (opening : SessionOpen) (world : ε) :
    GoesTo leaves path l (leafOpening opening session.binding recovery) []
      (c.reopen leaves nest opening world) := by
  have hleaf : nest.leafAt path = some l := by
    rw [horder.leafAt h.valid, h.place]
  unfold Course.reopen
  rw [h.wrapped, wrapSession_binding, h.held]
  exact openSession_bound leaves hleaf opening session.binding recovery ⟨world, []⟩

theorem OwnedBy.continues (h : OwnedBy leaves path l session recovery c)
    (hstep : Continues leaves c c') :
    ∃ session' recovery', OwnedBy leaves path l session' recovery' c' := by
  have hlogged : ∀ {nest opening world result w}, c.nest.Reordered nest →
      c.reopen leaves nest opening world = (result, w) → ∀ o ∈ c.log ++ w.log, o.1 = l := by
    intro nest opening world result w horder hopened o ho
    rcases List.mem_append.1 ho with ho | ho
    · exact h.log o ho
    have hgoes := h.reopen horder opening world
    rw [hopened] at hgoes
    rcases hgoes with ⟨-, hlog⟩ | ⟨hlog, -⟩
    · rw [show w.log = [] from hlog] at ho
      cases ho
    · rw [show w.log = [] ++ [_] from hlog, List.nil_append, List.mem_singleton] at ho
      rw [ho]
  cases hstep with
  | @emitted n body reference hbody hr =>
    rw [h.wrapped] at hbody
    obtain ⟨inner, r, hreceive, hemitted, rfl⟩ := wrapSession_emits hbody hr
    refine ⟨session, some r, ⟨h.valid, h.place, h.returned, h.wrapped, rfl, ?_, h.log⟩⟩
    intro r' hr'
    obtain rfl := Option.some.inj hr'
    exact ⟨session, n, inner, h.returned, hreceive, hemitted⟩
  | @reopened nest opening world session' w horder hopened =>
    have hgoes := h.reopen horder opening world
    rw [hopened] at hgoes
    rcases hgoes with ⟨⟨e, he⟩, -⟩ | ⟨-, ⟨e, he⟩ | ⟨inner, hreturned, hok⟩⟩
    · cases he
    · cases he
    · cases hok
      exact ⟨inner, recovery, ⟨h.valid.reordered horder, (horder.leafAt h.valid).trans h.place,
        hreturned, rfl, h.held, h.emitted, hlogged horder hopened⟩⟩
  | refused horder hopened =>
    exact ⟨session, recovery, ⟨h.valid.reordered horder,
      (horder.leafAt h.valid).trans h.place, h.returned, h.wrapped, h.held, h.emitted,
      hlogged horder hopened⟩⟩

/-- A session stays bound to the leaf that was opened for it: however the candidates are ordered,
it is reopened there with what that leaf gave, or not at all. -/
theorem binding_stable {nest : Nest L} (hvalid : nest.Valid) {opening : SessionOpen}
    (hbinding : opening.binding = none) (hrecovery : opening.recovery = none) {world : ε}
    {first : Session} {w : Opened L ε}
    (hopened : (nest.model leaves).openSession opening ⟨world, []⟩ = (.ok first, w)) :
    ∃ path l before, nest.leafAt path = some l ∧ w.log = before ++ [(l, opening)] ∧
      ∀ c, Relation.ReflTransGen (Continues leaves) ⟨nest, first, none, []⟩ c →
        ∃ session recovery, OwnedBy leaves path l session recovery c ∧
          ∀ nest' opening' world', c.nest.Reordered nest' →
            GoesTo leaves path l (leafOpening opening' session.binding recovery) []
              (c.reopen leaves nest' opening' world') := by
  obtain ⟨path, l, leafSession, before, hleaf, hreturned, hfirst, hlog⟩ :=
    openSession_fresh leaves hvalid hbinding hrecovery hopened
  refine ⟨path, l, before, hleaf, hlog, ?_⟩
  intro c hrun
  have howned : ∃ session recovery, OwnedBy leaves path l session recovery c := by
    induction hrun with
    | refl => exact ⟨leafSession, none, .first hvalid hleaf hreturned hfirst⟩
    | tail _ hstep ih =>
      obtain ⟨session, recovery, h⟩ := ih
      exact h.continues hstep
  obtain ⟨session, recovery, h⟩ := howned
  exact ⟨session, recovery, h, fun _ opening' world' horder => h.reopen horder opening' world'⟩

/-- The first leaf does not negotiate, the second cannot be reached now. -/
def sampleLeaves : Leaves Nat Unit where
  check _ := (.ok (), ())
  negotiate l _ _ := if l = 0 then .error (.invalid "unsupported") else .ok ⟨[], []⟩
  openSession l _ _ :=
    if l = 1 then (.error (.model ⟨"http_503", "", true⟩), ())
    else (.ok ⟨some ⟨"leaf", .null⟩, fun _ => .ok (some (.recovery ⟨"leaf", .null⟩))⟩, ())

def sampleNest : Nest Nat :=
  .fallback [("a", .leaf 0), ("b", .fallback [("x", .leaf 1), ("y", .leaf 2)])]

def sampleNewSession : SessionOpen where
  binding := none
  sessionId := "session"
  afterSequence := none
  outputEpoch := 0
  contextRevision := 0
  inputPosition := 0
  profileRevision := 0
  mode := .task
  limits := sampleLimits
  request :=
    { messages := [], runtimeTools := [], providerTools := [], profile := { data := .null }
      toolChoice := .auto, responseFormat := none, stream := false }
  recovery := none

private theorem sampleNest_valid : sampleNest.Valid := by
  refine .fallback rfl ?_
  intro c hc
  rcases List.mem_cons.1 hc with rfl | hc
  · exact .leaf 0
  obtain rfl := List.mem_singleton.1 hc
  refine .fallback rfl ?_
  intro c hc
  rcases List.mem_cons.1 hc with rfl | hc
  · exact .leaf 1
  obtain rfl := List.mem_singleton.1 hc
  exact .leaf 2

def sampleLeafSession : Session :=
  ⟨some ⟨"leaf", .null⟩, fun _ => .ok (some (.recovery ⟨"leaf", .null⟩))⟩

def sampleCourse : Course Nat :=
  ⟨sampleNest, wrapSession ["b", "y"] sampleLeafSession,
    some (wrapRecovery ["b", "y"] ⟨"leaf", .null⟩), []⟩

def sampleSwapped : Nest Nat :=
  .fallback [("b", .fallback [("y", .leaf 2), ("x", .leaf 1)]), ("a", .leaf 0)]

private theorem sampleSwapped_reordered : sampleNest.Reordered sampleSwapped :=
  .fallback (.cons (.leaf 0) (.cons (.fallback (.cons (.leaf 1) (.cons (.leaf 2) .nil))
    (.swap _ _ [])) .nil)) (.swap _ _ [])

theorem binding_stable_second :
    ∃ path l before, sampleNest.leafAt path = some l ∧
      ((sampleNest.model sampleLeaves).openSession sampleNewSession ⟨(), []⟩).2.log =
        before ++ [(l, sampleNewSession)] ∧
      ∃ (session : Session) (reference : RecoveryRef), Returned sampleLeaves l session ∧
        sampleCourse.recovery = some (wrapRecovery path reference) ∧
        ∀ opening world, GoesTo sampleLeaves path l
          (leafOpening opening session.binding (some reference)) []
            (sampleCourse.reopen sampleLeaves sampleSwapped opening world) := by
  obtain ⟨path, l, before, hleaf, hlog, hbound⟩ :=
    @binding_stable Nat Unit sampleLeaves sampleNest sampleNest_valid sampleNewSession rfl rfl ()
      (wrapSession ["b", "y"] sampleLeafSession)
      ⟨(), [(1, sampleNewSession), (2, sampleNewSession)]⟩ rfl
  have hemitted : Continues sampleLeaves
      ⟨sampleNest, wrapSession ["b", "y"] sampleLeafSession, none, []⟩ sampleCourse :=
    .emitted (n := 0) rfl rfl
  obtain ⟨session, recovery, howned, hreopened⟩ := hbound sampleCourse (.single hemitted)
  refine ⟨path, l, before, hleaf, hlog, session, ?_⟩
  have hheld := howned.held
  cases recovery with
  | none => cases hheld
  | some reference =>
    exact ⟨reference, howned.returned, hheld,
      fun opening world => hreopened sampleSwapped opening world sampleSwapped_reordered⟩

end Zhir.Models
