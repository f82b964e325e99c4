import Zhir.Storage.Reachable

/-!
What `reachable` lists: the contents it looks at and everything on the media chains, shared and
cyclic ones included.
-/

set_option autoImplicit false
set_option relaxedAutoImplicit false

namespace Zhir.Storage

open Zhir.Core
open Zhir.Models (record)

/-- A resource is read by its key, and there are finitely many of them. -/
structure Keyed {σ : Type} (store : ResourceStore σ) (s : σ) (known : List String) : Prop where
  stored : ∀ r bytes, store.read r s = .ok bytes → ∃ key ∈ known, r.source = .stored key
  same : ∀ r r' bytes bytes', r.source = r'.source → store.read r s = .ok bytes →
    store.read r' s = .ok bytes' → bytes = bytes'

/-- On the chain from a node: the nodes, and what each of them names. -/
inductive Chain {τ : Type} (read : ResourceRef → Result τ) (previous : τ → Option ResourceRef)
    (names : τ → ResourceRef → Prop) : ResourceRef → ResourceRef → Prop
  | node (r : ResourceRef) : Chain read previous names r r
  | named (r : ResourceRef) (n : τ) (x : ResourceRef) (hread : read r = .ok n) (hx : names n x) :
      Chain read previous names r x
  | next (r : ResourceRef) (n : τ) (p x : ResourceRef) (hread : read r = .ok n)
      (hp : previous n = some p) (hx : Chain read previous names p x) :
      Chain read previous names r x

section

variable {σ : Type} (store : ResourceStore σ) (parse : List UInt8 → Result Value) (s : σ)

def SealedChain : ResourceRef → ResourceRef → Prop :=
  Chain (readNode store parse s sealedOfValue) SealedMedia.previous fun n x => x = n.resource

def ArchiveChain : ResourceRef → ResourceRef → Prop :=
  Chain (readNode store parse s archivedOfValue) ArchivedMedia.previous fun n x =>
    SealedChain store parse s n.sealed x

def OnChain (c : Checkpoint) (x : ResourceRef) : Prop :=
  (∃ cursor ∈ c.active.media.toList, SealedChain store parse s cursor.2.sealed x) ∨
    ∃ root, c.active.session.mediaArchive = some root ∧ ArchiveChain store parse s root x

end

section

variable {σ : Type} {store : ResourceStore σ} {parse : List UInt8 → Result Value} {s : σ}
  {known : List String}

private theorem readNode_ok {τ : Type} {decode : Value → Option τ} {r : ResourceRef} {n : τ}
    (h : readNode store parse s decode r = .ok n) :
    ∃ bytes v, store.read r s = .ok bytes ∧ parse bytes = .ok v ∧ decode v = some n := by
  obtain ⟨bytes, hread, h⟩ := Result.bind_ok h
  obtain ⟨_, -, h⟩ := Result.bind_ok h
  obtain ⟨v, hparse, h⟩ := Result.bind_ok h
  refine ⟨bytes, v, hread, hparse, ?_⟩
  split at h
  · cases h
    assumption
  · cases h

private theorem readNode_stored (hstore : Keyed store s known) {τ : Type}
    {decode : Value → Option τ}
    {r : ResourceRef} {n : τ} (h : readNode store parse s decode r = .ok n) :
    ∃ key ∈ known, r.source = .stored key := by
  obtain ⟨bytes, _, hread, -⟩ := readNode_ok h
  exact hstore.stored r bytes hread

private theorem readNode_same (hstore : Keyed store s known) {τ υ : Type}
    {decode : Value → Option τ}
    {decode' : Value → Option υ} {r r' : ResourceRef} {n : τ} {m : υ}
    (hn : readNode store parse s decode r = .ok n)
    (hm : readNode store parse s decode' r' = .ok m) (hsource : r.source = r'.source) :
    ∃ v, decode v = some n ∧ decode' v = some m := by
  obtain ⟨bytes, v, hread, hparse, hdecode⟩ := readNode_ok hn
  obtain ⟨bytes', v', hread', hparse', hdecode'⟩ := readNode_ok hm
  obtain rfl := hstore.same r r' bytes bytes' hsource hread hread'
  obtain rfl : v = v' := Except.ok.inj (hparse.symm.trans hparse')
  exact ⟨v, hdecode, hdecode'⟩

private theorem sealed_not_archived {v : Value} {n : SealedMedia} {m : ArchivedMedia}
    (hn : sealedOfValue v = some n) (hm : archivedOfValue v = some m) : False := by
  simp only [sealedOfValue, archivedOfValue, Option.bind_eq_bind, Option.bind_eq_some_iff] at hn hm
  obtain ⟨get, hget, v₁, hv₁, -⟩ := hn
  obtain ⟨get', hget', -⟩ := hm
  cases v with
  | object fields =>
    obtain ⟨-, rfl⟩ := Models.record_object hget
    obtain ⟨hknown, -⟩ := Models.record_object hget'
    have hmem : "stream_id" ∈ ["stream_key", "sealed", "complete", "previous"] :=
      hknown _ (Models.mem_of_lookup hv₁)
    exact absurd hmem (by decide)
  | array items =>
    simp only [record] at hget hget'
    split at hget
    · rename_i hlength
      rw [if_neg (by rw [hlength]; decide)] at hget'
      cases hget'
    · cases hget
  | _ => cases hget

namespace Reachable

def Lists (f : Reachable) (x : ResourceRef) : Prop :=
  ∀ key, x.source = .stored key → key ∈ f.keys

def Walks (f : Reachable) (x : ResourceRef) : Prop :=
  ∀ key, x.source = .stored key → key ∈ f.walked

structure Grown (f f' : Reachable) : Prop where
  keys : ∀ key ∈ f.keys, key ∈ f'.keys
  walked : ∀ key ∈ f.walked, key ∈ f'.walked

theorem Grown.refl (f : Reachable) : Grown f f := ⟨fun _ h => h, fun _ h => h⟩

theorem Grown.trans {f g h : Reachable} (hfg : Grown f g) (hgh : Grown g h) : Grown f h where
  keys key hkey := hgh.keys key (hfg.keys key hkey)
  walked key hkey := hgh.walked key (hfg.walked key hkey)

theorem Grown.lists {f f' : Reachable} (h : Grown f f') {x : ResourceRef} (hx : f.Lists x) :
    f'.Lists x :=
  fun key hkey => h.keys key (hx key hkey)

private theorem Grown.walks {f f' : Reachable} (h : Grown f f') {x : ResourceRef} (hx : f.Walks x) :
    f'.Walks x :=
  fun key hkey => h.walked key (hx key hkey)

/-- The keys are those of the references found, each once, and those walked are among them. -/
structure Tidy (f : Reachable) : Prop where
  sources : f.resources.map ResourceRef.source = f.keys.map ResourceSource.stored
  nodup : f.keys.Nodup
  walked : ∀ key ∈ f.walked, key ∈ f.keys

private theorem insert_walked (r : ResourceRef) (f : Reachable) :
    (f.insert r).walked = f.walked := by
  unfold insert
  split
  · split <;> rfl
  · rfl

private theorem mem_insert {r : ResourceRef} {f : Reachable} {key : String} :
    key ∈ (f.insert r).keys ↔ key ∈ f.keys ∨ r.source = .stored key := by
  cases hsource : r.source with
  | stored key' =>
    simp only [insert, hsource, ResourceSource.stored.injEq]
    split
    · rename_i hmem
      constructor
      · exact Or.inl
      · rintro (h | rfl)
        · exact h
        · exact hmem
    · simp only [List.mem_append, List.mem_singleton]
      exact or_congr_right eq_comm
  | _ => simp [insert, hsource]

private theorem grown_insert (r : ResourceRef) (f : Reachable) : Grown f (f.insert r) where
  keys _ h := mem_insert.mpr (.inl h)
  walked key h := by
    rw [insert_walked]
    exact h

private theorem tidy_insert {f : Reachable} (h : f.Tidy) (r : ResourceRef) : (f.insert r).Tidy := by
  cases hsource : r.source with
  | stored key =>
    by_cases hmem : key ∈ f.keys
    · simpa only [insert, hsource, hmem, if_true] using h
    · simp only [insert, hsource, hmem, if_false]
      refine ⟨?_, ?_, ?_⟩
      · simp only [List.map_append, List.map_cons, List.map_nil, h.sources, hsource]
      · exact List.nodup_append.mpr ⟨h.nodup, List.nodup_singleton key, by
          rintro a ha b hb rfl
          obtain rfl := List.mem_singleton.mp hb
          exact hmem ha⟩
      · intro key' hkey'
        exact List.mem_append_left _ (h.walked key' hkey')
  | _ => simpa only [insert, hsource] using h

/-- A walk of a node lists it, and is new exactly at a stored node not walked before. -/
inductive Walked (r : ResourceRef) (f : Reachable) : Bool × Reachable → Prop
  | again : f.Walks r → Walked r f (false, f.insert r)
  | fresh (key : String) : r.source = .stored key → key ∉ f.walked →
      Walked r f (true, { f.insert r with walked := key :: f.walked })

private theorem walked_walk (r : ResourceRef) (f : Reachable) : Walked r f (f.walk r) := by
  cases hsource : r.source with
  | stored key =>
    simp only [walk, hsource, insert_walked]
    split
    · rename_i hmem
      refine .again fun key' hkey' => ?_
      obtain rfl : key = key' := ResourceSource.stored.inj (hsource.symm.trans hkey')
      exact hmem
    · rename_i hmem
      exact .fresh key hsource hmem
  | _ =>
    simp only [walk, hsource]
    refine .again fun key' hkey' => ?_
    cases hsource.symm.trans hkey'

private theorem grown_fresh {r : ResourceRef} {f : Reachable} {key : String} :
    Grown f { f.insert r with walked := key :: f.walked } where
  keys := (grown_insert r f).keys
  walked _ h := List.mem_cons_of_mem key h

private theorem tidy_fresh {r : ResourceRef} {f : Reachable} {key : String} (h : f.Tidy)
    (hsource : r.source = .stored key) :
    Tidy { f.insert r with walked := key :: f.walked } where
  sources := (tidy_insert h r).sources
  nodup := (tidy_insert h r).nodup
  walked key' hkey' := by
    rcases List.mem_cons.mp hkey' with rfl | hkey'
    · exact mem_insert.mpr (.inr hsource)
    · exact mem_insert.mpr (.inl (h.walked key' hkey'))

/-- Whatever a walked node names is listed, or walked in its turn; the next segment and the next
archive node may still be waited for. -/
structure Closed (store : ResourceStore σ) (parse : List UInt8 → Result Value) (s : σ)
    (segment node : Option ResourceRef) (f : Reachable) : Prop where
  resource : ∀ r n key, readNode store parse s sealedOfValue r = .ok n →
    r.source = .stored key → key ∈ f.walked → f.Lists n.resource
  segments : ∀ r n key p, readNode store parse s sealedOfValue r = .ok n →
    r.source = .stored key → key ∈ f.walked → n.previous = some p → f.Walks p ∨ segment = some p
  streams : ∀ r n key, readNode store parse s archivedOfValue r = .ok n →
    r.source = .stored key → key ∈ f.walked → f.Walks n.sealed ∨ segment = some n.sealed
  nodes : ∀ r n key p, readNode store parse s archivedOfValue r = .ok n →
    r.source = .stored key → key ∈ f.walked → n.previous = some p → f.Walks p ∨ node = some p

private theorem closed_grown {segment node : Option ResourceRef} {f f' : Reachable}
    (h : Closed store parse s segment node f) (hgrown : Grown f f')
    (hwalked : f'.walked = f.walked) :
    Closed store parse s segment node f' where
  resource r n key hread hsource hmem :=
    hgrown.lists (h.resource r n key hread hsource (hwalked ▸ hmem))
  segments r n key p hread hsource hmem hp :=
    (h.segments r n key p hread hsource (hwalked ▸ hmem) hp).imp_left hgrown.walks
  streams r n key hread hsource hmem :=
    (h.streams r n key hread hsource (hwalked ▸ hmem)).imp_left hgrown.walks
  nodes r n key p hread hsource hmem hp :=
    (h.nodes r n key p hread hsource (hwalked ▸ hmem) hp).imp_left hgrown.walks

private theorem closed_again {segment node : Option ResourceRef} {r : ResourceRef} {f : Reachable}
    (h : Closed store parse s (some r) node f) (hr : f.Walks r) :
    Closed store parse s segment node f where
  resource := h.resource
  segments r' n key p hread hsource hmem hp := by
    rcases h.segments r' n key p hread hsource hmem hp with hwalks | hpending
    · exact .inl hwalks
    · obtain rfl := Option.some.inj hpending
      exact .inl hr
  streams r' n key hread hsource hmem := by
    rcases h.streams r' n key hread hsource hmem with hwalks | hpending
    · exact .inl hwalks
    · obtain rfl := Option.some.inj hpending
      exact .inl hr
  nodes := h.nodes

private theorem closed_node_again {segment node : Option ResourceRef} {r : ResourceRef}
    {f : Reachable}
    (h : Closed store parse s segment (some r) f) (hr : f.Walks r) :
    Closed store parse s segment node f where
  resource := h.resource
  segments := h.segments
  streams := h.streams
  nodes r' n key p hread hsource hmem hp := by
    rcases h.nodes r' n key p hread hsource hmem hp with hwalks | hpending
    · exact .inl hwalks
    · obtain rfl := Option.some.inj hpending
      exact .inl hr

private theorem closed_wait {node : Option ResourceRef} {segment : ResourceRef} {f : Reachable}
    (h : Closed store parse s none node f) : Closed store parse s (some segment) node f where
  resource := h.resource
  segments r n key p hread hsource hmem hp :=
    .inl ((h.segments r n key p hread hsource hmem hp).resolve_right (by simp))
  streams r n key hread hsource hmem :=
    .inl ((h.streams r n key hread hsource hmem).resolve_right (by simp))
  nodes := h.nodes

private theorem walks_fresh {r : ResourceRef} {f : Reachable} {key : String}
    (hsource : r.source = .stored key) :
    Walks { f.insert r with walked := key :: f.walked } r := by
  intro key' hkey'
  obtain rfl : key = key' := ResourceSource.stored.inj (hsource.symm.trans hkey')
  exact List.mem_cons_self

private theorem closed_segment (hstore : Keyed store s known) {node : Option ResourceRef}
    {r : ResourceRef} {n : SealedMedia} {f : Reachable} {key : String}
    (h : Closed store parse s (some r) node f) (hsource : r.source = .stored key)
    (hread : readNode store parse s sealedOfValue r = .ok n) :
    Closed store parse s n.previous node
      (insert n.resource { f.insert r with walked := key :: f.walked }) := by
  have hgrown : Grown f (insert n.resource { f.insert r with walked := key :: f.walked }) :=
    grown_fresh.trans (grown_insert _ _)
  have hr := (grown_insert n.resource _).walks (walks_fresh (f := f) hsource)
  have hcases : ∀ key', key' ∈ (insert n.resource
      { f.insert r with walked := key :: f.walked }).walked → key' = key ∨ key' ∈ f.walked := by
    intro key' hmem
    rw [insert_walked] at hmem
    exact List.mem_cons.mp hmem
  refine ⟨?_, ?_, ?_, ?_⟩
  · intro r' m key' hread' hsource' hmem
    rcases hcases key' hmem with rfl | hold
    · obtain ⟨v, hv, hv'⟩ := readNode_same hstore hread hread' (hsource.trans hsource'.symm)
      obtain rfl : n = m := Option.some.inj (hv.symm.trans hv')
      intro resource hresource
      exact mem_insert.mpr (.inr hresource)
    · exact hgrown.lists (h.resource r' m key' hread' hsource' hold)
  · intro r' m key' p hread' hsource' hmem hp
    rcases hcases key' hmem with rfl | hold
    · obtain ⟨v, hv, hv'⟩ := readNode_same hstore hread hread' (hsource.trans hsource'.symm)
      obtain rfl : n = m := Option.some.inj (hv.symm.trans hv')
      exact .inr hp
    · rcases h.segments r' m key' p hread' hsource' hold hp with hwalks | hpending
      · exact .inl (hgrown.walks hwalks)
      · obtain rfl := Option.some.inj hpending
        exact .inl hr
  · intro r' m key' hread' hsource' hmem
    rcases hcases key' hmem with rfl | hold
    · obtain ⟨v, hv, hv'⟩ := readNode_same hstore hread hread' (hsource.trans hsource'.symm)
      exact (sealed_not_archived hv hv').elim
    · rcases h.streams r' m key' hread' hsource' hold with hwalks | hpending
      · exact .inl (hgrown.walks hwalks)
      · obtain rfl := Option.some.inj hpending
        exact .inl hr
  · intro r' m key' p hread' hsource' hmem hp
    rcases hcases key' hmem with rfl | hold
    · obtain ⟨v, hv, hv'⟩ := readNode_same hstore hread hread' (hsource.trans hsource'.symm)
      exact (sealed_not_archived hv hv').elim
    · exact (h.nodes r' m key' p hread' hsource' hold hp).imp_left hgrown.walks

private theorem closed_node (hstore : Keyed store s known) {r : ResourceRef} {n : ArchivedMedia}
    {f : Reachable} {key : String} (h : Closed store parse s none (some r) f)
    (hsource : r.source = .stored key) (hread : readNode store parse s archivedOfValue r = .ok n) :
    Closed store parse s (some n.sealed) n.previous
      { f.insert r with walked := key :: f.walked } := by
  have hgrown : Grown f { f.insert r with walked := key :: f.walked } := grown_fresh
  refine ⟨?_, ?_, ?_, ?_⟩
  · intro r' m key' hread' hsource' hmem
    rcases List.mem_cons.mp hmem with rfl | hold
    · obtain ⟨v, hv, hv'⟩ := readNode_same hstore hread hread' (hsource.trans hsource'.symm)
      exact (sealed_not_archived hv' hv).elim
    · exact hgrown.lists (h.resource r' m key' hread' hsource' hold)
  · intro r' m key' p hread' hsource' hmem hp
    rcases List.mem_cons.mp hmem with rfl | hold
    · obtain ⟨v, hv, hv'⟩ := readNode_same hstore hread hread' (hsource.trans hsource'.symm)
      exact (sealed_not_archived hv' hv).elim
    · rcases h.segments r' m key' p hread' hsource' hold hp with hwalks | hpending
      · exact .inl (hgrown.walks hwalks)
      · cases hpending
  · intro r' m key' hread' hsource' hmem
    rcases List.mem_cons.mp hmem with rfl | hold
    · obtain ⟨v, hv, hv'⟩ := readNode_same hstore hread hread' (hsource.trans hsource'.symm)
      obtain rfl : n = m := Option.some.inj (hv.symm.trans hv')
      exact .inr rfl
    · rcases h.streams r' m key' hread' hsource' hold with hwalks | hpending
      · exact .inl (hgrown.walks hwalks)
      · cases hpending
  · intro r' m key' p hread' hsource' hmem hp
    rcases List.mem_cons.mp hmem with rfl | hold
    · obtain ⟨v, hv, hv'⟩ := readNode_same hstore hread hread' (hsource.trans hsource'.symm)
      obtain rfl : n = m := Option.some.inj (hv.symm.trans hv')
      exact .inr hp
    · rcases h.nodes r' m key' p hread' hsource' hold hp with hwalks | hpending
      · exact .inl (hgrown.walks hwalks)
      · obtain rfl := Option.some.inj hpending
        exact .inl (walks_fresh hsource)

private theorem andThen_ok {α β : Type} {r : Option (Result α)} {f : α → Option (Result β)} {b : β}
    (h : andThen r f = some (.ok b)) : ∃ a, r = some (.ok a) ∧ f a = some (.ok b) := by
  cases r with
  | none => cases h
  | some r =>
    cases r with
    | error error => cases h
    | ok a => exact ⟨a, rfl, h⟩

section

variable {τ : Type} {read : ResourceRef → Result τ} {previous : τ → Option ResourceRef}
  {names : τ → ResourceRef → Prop} {visit : τ → Reachable → Option (Result Reachable)}
  {node : Option ResourceRef} {f f' : Reachable}

/-- What holds of a loop's node and of what it found, whatever the node, holds when it ends. -/
private theorem follow_preserves {P : Option ResourceRef → Reachable → Prop} {rounds : Nat}
    (h : follow read previous visit rounds node f = some (.ok f')) (hf : P node f)
    (hagain : ∀ r f, f.Walks r → P (some r) f → P none (f.insert r))
    (hvisit : ∀ r key n f f₁, r.source = .stored key → read r = .ok n →
      visit n { f.insert r with walked := key :: f.walked } = some (.ok f₁) →
        P (some r) f → P (previous n) f₁) : P none f' := by
  induction rounds generalizing node f with
  | zero =>
    cases node with
    | none =>
      cases h
      exact hf
    | some r => cases h
  | succ rounds ih =>
    cases node with
    | none =>
      cases h
      exact hf
    | some r =>
      have hwalk := walked_walk r f
      simp only [follow] at h
      generalize f.walk r = walk at h hwalk
      cases hwalk with
      | again hr =>
        cases h
        exact hagain r f hr hf
      | fresh key hsource hnew =>
        simp only [if_true] at h
        cases hread : read r with
        | error error =>
          rw [hread] at h
          cases h
        | ok n =>
          rw [hread] at h
          obtain ⟨f₁, hvisited, hrest⟩ := andThen_ok h
          exact ih hrest (hvisit r key n f f₁ hsource hread hvisited hf)

private theorem follow_grown {rounds : Nat}
    (h : follow read previous visit rounds node f = some (.ok f'))
    (hvisit : ∀ n f f₁, visit n f = some (.ok f₁) → Grown f f₁) : Grown f f' :=
  follow_preserves (P := fun _ g => Grown f g) h (.refl f)
    (fun r g _ hg => hg.trans (grown_insert r g))
    (fun _ _ n _ _ _ _ hvisited hg => (hg.trans grown_fresh).trans (hvisit n _ _ hvisited))

private theorem follow_tidy {rounds : Nat}
    (h : follow read previous visit rounds node f = some (.ok f'))
    (hf : f.Tidy) (hvisit : ∀ n f f₁, visit n f = some (.ok f₁) → f.Tidy → f₁.Tidy) : f'.Tidy :=
  follow_preserves (P := fun _ g => g.Tidy) h hf (fun r _ _ hg => tidy_insert hg r)
    (fun _ _ n _ _ hsource _ hvisited hg => hvisit n _ _ hvisited (tidy_fresh hg hsource))

private theorem follow_walks {rounds : Nat} {r : ResourceRef}
    (h : follow read previous visit rounds (some r) f = some (.ok f'))
    (hvisit : ∀ n f f₁, visit n f = some (.ok f₁) → Grown f f₁) : f'.Walks r := by
  refine (follow_preserves (P := fun node g => node = some r ∨ g.Walks r) h (.inl rfl) ?_
    ?_).resolve_left (by simp)
  · rintro p g hp (hpr | hg)
    · obtain rfl := Option.some.inj hpr
      exact .inr ((grown_insert _ _).walks hp)
    · exact .inr ((grown_insert _ _).walks hg)
  · rintro p key n g g₁ hsource _ hvisited (hpr | hg)
    · obtain rfl := Option.some.inj hpr
      exact .inr ((hvisit n _ _ hvisited).walks (walks_fresh hsource))
    · exact .inr ((grown_fresh.trans (hvisit n _ _ hvisited)).walks hg)

private theorem follow_sound {base : String → Prop} {rounds : Nat}
    (h : follow read previous visit rounds node f = some (.ok f'))
    (hf : ∀ key ∈ f.keys, base key)
    (hnode : ∀ r x key, node = some r → Chain read previous names r x → x.source = .stored key →
      base key)
    (hvisit : ∀ n f f₁, visit n f = some (.ok f₁) → (∀ key ∈ f.keys, base key) →
      (∀ x key, names n x → x.source = .stored key → base key) → ∀ key ∈ f₁.keys, base key) :
    ∀ key ∈ f'.keys, base key := by
  let P (node : Option ResourceRef) (g : Reachable) : Prop := (∀ key ∈ g.keys, base key) ∧
    ∀ r x key, node = some r → Chain read previous names r x → x.source = .stored key → base key
  have hinsert : ∀ r g, P (some r) g → ∀ key ∈ (g.insert r).keys, base key := by
    rintro r g ⟨hg, hr⟩ key hkey
    rcases mem_insert.mp hkey with hold | hsource
    · exact hg key hold
    · exact hr r r key rfl (.node r) hsource
  refine (follow_preserves (P := P) h ⟨hf, hnode⟩ ?_ ?_).1
  · exact fun r g _ hP => ⟨hinsert r g hP, nofun⟩
  · intro r key n g g₁ _ hread hvisited hP
    refine ⟨hvisit n _ _ hvisited (hinsert r g hP) ?_, ?_⟩
    · exact fun x key' hx => hP.2 r x key' rfl (.named r n x hread hx)
    · exact fun p x key' hp hx => hP.2 r x key' rfl (.next r n p x hread hp hx)

private theorem lists_of_chain (htidy : f.Tidy)
    (hnamed : ∀ r n x, read r = .ok n → f.Walks r → names n x → f.Lists x)
    (hnext : ∀ r n p, read r = .ok n → f.Walks r → previous n = some p → f.Walks p)
    {root x : ResourceRef} (hroot : f.Walks root) (hx : Chain read previous names root x) :
    f.Lists x := by
  induction hx with
  | node r => exact fun key hkey => htidy.walked key (hroot key hkey)
  | named r n x hread hx => exact hnamed r n x hread hroot hx
  | next r n p x hread hp hx ih => exact ih (hnext r n p hread hroot hp)

end

private theorem sealed_grown {rounds : Nat} {node : Option ResourceRef} {f f' : Reachable}
    (h : sealed store parse s rounds node f = some (.ok f')) : Grown f f' := by
  refine follow_grown h ?_
  rintro n f _ ⟨⟩
  exact grown_insert n.resource f

private theorem sealed_walks {rounds : Nat} {r : ResourceRef} {f f' : Reachable}
    (h : sealed store parse s rounds (some r) f = some (.ok f')) : f'.Walks r := by
  refine follow_walks h ?_
  rintro n f _ ⟨⟩
  exact grown_insert n.resource f

private theorem sealed_tidy {rounds : Nat} {node : Option ResourceRef} {f f' : Reachable}
    (h : sealed store parse s rounds node f = some (.ok f')) (hf : f.Tidy) : f'.Tidy := by
  refine follow_tidy h hf ?_
  rintro n f _ ⟨⟩ hf
  exact tidy_insert hf n.resource

private theorem sealed_closed (hstore : Keyed store s known) {rounds : Nat}
    {segment node : Option ResourceRef} {f f' : Reachable}
    (h : sealed store parse s rounds segment f = some (.ok f'))
    (hf : Closed store parse s segment node f) : Closed store parse s none node f' := by
  refine follow_preserves (P := fun segment g => Closed store parse s segment node g) h hf ?_ ?_
  · exact fun r g hr hg =>
      closed_grown (closed_again hg hr) (grown_insert r g) (insert_walked r g)
  · rintro r key n g _ hsource hread ⟨⟩ hg
    exact closed_segment hstore hg hsource hread

private theorem sealed_sound {base : String → Prop} {rounds : Nat} {node : Option ResourceRef}
    {f f' : Reachable} (h : sealed store parse s rounds node f = some (.ok f'))
    (hf : ∀ key ∈ f.keys, base key)
    (hnode : ∀ r x key, node = some r → SealedChain store parse s r x → x.source = .stored key →
      base key) : ∀ key ∈ f'.keys, base key := by
  refine follow_sound h hf hnode ?_
  rintro n f _ ⟨⟩ hf hresource key hkey
  rcases mem_insert.mp hkey with hold | hsource
  · exact hf key hold
  · exact hresource n.resource key rfl hsource

private theorem archive_closed (hstore : Keyed store s known) {all rounds : Nat}
    {node : Option ResourceRef} {f f' : Reachable}
    (h : archive store parse s all rounds node f = some (.ok f'))
    (hf : Closed store parse s none node f) : Closed store parse s none none f' := by
  refine follow_preserves (P := fun node g => Closed store parse s none node g) h hf ?_ ?_
  · exact fun r g hr hg =>
      closed_grown (closed_node_again hg hr) (grown_insert r g) (insert_walked r g)
  · intro r key n g g₁ hsource hread hvisited hg
    exact sealed_closed hstore hvisited (closed_node hstore hg hsource hread)

private theorem archive_sound {base : String → Prop} {all rounds : Nat} {node : Option ResourceRef}
    {f f' : Reachable} (h : archive store parse s all rounds node f = some (.ok f'))
    (hf : ∀ key ∈ f.keys, base key)
    (hnode : ∀ r x key, node = some r → ArchiveChain store parse s r x → x.source = .stored key →
      base key) : ∀ key ∈ f'.keys, base key := by
  refine follow_sound h hf hnode ?_
  intro n f f₁ hvisited hf hstream
  refine sealed_sound hvisited hf ?_
  rintro _ x key ⟨⟩
  exact hstream x key

private theorem lists_of_sealedChain (hstore : Keyed store s known) {f : Reachable} (htidy : f.Tidy)
    (hf : Closed store parse s none none f) {root x : ResourceRef} (hroot : f.Walks root)
    (hx : SealedChain store parse s root x) : f.Lists x := by
  refine lists_of_chain htidy ?_ ?_ hroot hx
  · rintro r n _ hread hr rfl
    obtain ⟨key, -, hsource⟩ := readNode_stored hstore hread
    exact hf.resource r n key hread hsource (hr key hsource)
  · intro r n p hread hr hp
    obtain ⟨key, -, hsource⟩ := readNode_stored hstore hread
    exact (hf.segments r n key p hread hsource (hr key hsource) hp).resolve_right (by simp)

private theorem lists_of_archiveChain (hstore : Keyed store s known) {f : Reachable}
    (htidy : f.Tidy)
    (hf : Closed store parse s none none f) {root x : ResourceRef} (hroot : f.Walks root)
    (hx : ArchiveChain store parse s root x) : f.Lists x := by
  refine lists_of_chain htidy ?_ ?_ hroot hx
  · intro r n x hread hr hx
    obtain ⟨key, -, hsource⟩ := readNode_stored hstore hread
    have hwalks := hf.streams r n key hread hsource (hr key hsource)
    exact lists_of_sealedChain hstore htidy hf (hwalks.resolve_right (by simp)) hx
  · intro r n p hread hr hp
    obtain ⟨key, -, hsource⟩ := readNode_stored hstore hread
    exact (hf.nodes r n key p hread hsource (hr key hsource) hp).resolve_right (by simp)

private theorem cursors_ok (hstore : Keyed store s known) {rounds : Nat} {nodes : List ResourceRef}
    {node : Option ResourceRef} {f f' : Reachable}
    (h : cursors store parse s rounds nodes f = some (.ok f')) (hf : f.Tidy)
    (hclosed : Closed store parse s none node f) :
    f'.Tidy ∧ Closed store parse s none node f' ∧ Grown f f' ∧ ∀ r ∈ nodes, f'.Walks r := by
  induction nodes generalizing f with
  | nil =>
    cases h
    exact ⟨hf, hclosed, .refl _, by simp⟩
  | cons r rest ih =>
    obtain ⟨f₁, hfirst, hrest⟩ := andThen_ok h
    have hclosed₁ := sealed_closed hstore hfirst (closed_wait hclosed)
    obtain ⟨htidy, hclosed', hgrown, hwalks⟩ := ih hrest (sealed_tidy hfirst hf) hclosed₁
    refine ⟨htidy, hclosed', (sealed_grown hfirst).trans hgrown, ?_⟩
    exact List.forall_mem_cons.mpr ⟨hgrown.walks (sealed_walks hfirst), hwalks⟩

private theorem cursors_sound {base : String → Prop} {rounds : Nat} {nodes : List ResourceRef}
    {f f' : Reachable} (h : cursors store parse s rounds nodes f = some (.ok f'))
    (hf : ∀ key ∈ f.keys, base key)
    (hnodes : ∀ r ∈ nodes, ∀ x key, SealedChain store parse s r x → x.source = .stored key →
      base key) : ∀ key ∈ f'.keys, base key := by
  induction nodes generalizing f with
  | nil =>
    cases h
    exact hf
  | cons r rest ih =>
    obtain ⟨f₁, hfirst, hrest⟩ := andThen_ok h
    obtain ⟨hr, hothers⟩ := List.forall_mem_cons.mp hnodes
    refine ih hrest (sealed_sound hfirst hf ?_) hothers
    intro node x key hnode
    obtain rfl := Option.some.inj hnode
    exact hr x key

def remaining (known : List String) (f : Reachable) : Nat :=
  known.countP fun key => decide (key ∉ f.walked)

private theorem remaining_le (known : List String) (f : Reachable) :
    remaining known f ≤ known.length :=
  List.countP_le_length

private theorem remaining_grown {f f' : Reachable} (h : Grown f f') :
    remaining known f' ≤ remaining known f := by
  refine List.countP_mono_left ?_
  intro key _ hkey
  rw [decide_eq_true_eq] at hkey ⊢
  exact fun hold => hkey (h.walked key hold)

private theorem remaining_fresh {f f' : Reachable} {key : String} (hmem : key ∈ known)
    (hnew : key ∉ f.walked) (hwalked : f'.walked = key :: f.walked) :
    remaining known f' < remaining known f := by
  obtain ⟨before, after, rfl⟩ := List.append_of_mem hmem
  have hgrown : ∀ keys : List String, remaining keys f' ≤ remaining keys f := by
    intro keys
    refine List.countP_mono_left ?_
    intro other _ hother
    rw [decide_eq_true_eq, hwalked] at hother
    exact decide_eq_true fun hold => hother (List.mem_cons_of_mem key hold)
  have hbefore := hgrown before
  have hafter := hgrown after
  have hold : key ∈ f'.walked := hwalked ▸ List.mem_cons_self
  simp only [remaining, List.countP_append, List.countP_cons, hold, hnew, not_true_eq_false,
    not_false_eq_true, decide_true, decide_false, Bool.false_eq_true, if_true, if_false] at *
  omega

private theorem follow_ends {τ : Type} {read : ResourceRef → Result τ}
    {previous : τ → Option ResourceRef} {visit : Nat → τ → Reachable → Option (Result Reachable)}
    {bound : Nat} (hread : ∀ r n, read r = .ok n → ∃ key ∈ known, r.source = .stored key)
    (hvisit : ∀ n f, ∃ result, (∀ all, bound < all → visit all n f = some result) ∧
      ∀ f₁, result = .ok f₁ → Grown f f₁) (node : Option ResourceRef) (f : Reachable) :
    ∃ result, ∀ all rounds, bound < all → remaining known f < rounds →
      follow read previous (visit all) rounds node f = some result := by
  induction hsize : remaining known f using Nat.strongRecOn generalizing node f with
  | ind size ih =>
    cases node with
    | none =>
      refine ⟨.ok f, fun all rounds _ _ => ?_⟩
      cases rounds <;> rfl
    | some r =>
      have hwalk := walked_walk r f
      generalize hresult : f.walk r = walk at hwalk
      cases hwalk with
      | again hr =>
        refine ⟨.ok (f.insert r), fun all rounds _ hrounds => ?_⟩
        obtain ⟨rounds, rfl⟩ := Nat.exists_eq_add_of_lt hrounds
        simp only [follow, hresult]
        rfl
      | fresh key hsource hnew =>
        cases hnode : read r with
        | error error =>
          refine ⟨.error error, fun all rounds _ hrounds => ?_⟩
          obtain ⟨rounds, rfl⟩ := Nat.exists_eq_add_of_lt hrounds
          simp only [follow, hresult, hnode, if_true]
        | ok n =>
          obtain ⟨key', hknown, hsource'⟩ := hread r n hnode
          obtain rfl : key = key' := ResourceSource.stored.inj (hsource.symm.trans hsource')
          have hless : remaining known { f.insert r with walked := key :: f.walked } < size :=
            hsize ▸ remaining_fresh hknown hnew rfl
          obtain ⟨visited, hvisited, hgrown⟩ :=
            hvisit n { f.insert r with walked := key :: f.walked }
          cases visited with
          | error error =>
            refine ⟨.error error, fun all rounds hall hrounds => ?_⟩
            obtain ⟨rounds, rfl⟩ := Nat.exists_eq_add_of_lt hrounds
            simp only [follow, hresult, hnode, if_true, hvisited all hall, andThen]
          | ok f₁ =>
            have hless₁ : remaining known f₁ ≤ _ := remaining_grown (hgrown f₁ rfl)
            obtain ⟨result, hrest⟩ := ih _ (by omega) (previous n) f₁ rfl
            refine ⟨result, fun all rounds hall hrounds => ?_⟩
            obtain ⟨rounds, rfl⟩ := Nat.exists_eq_add_of_lt hrounds
            simp only [follow, hresult, hnode, if_true, hvisited all hall, andThen]
            exact hrest all _ hall (by omega)

private theorem sealed_ends (hstore : Keyed store s known) (node : Option ResourceRef)
    (f : Reachable) :
    ∃ result, ∀ rounds, remaining known f < rounds →
      sealed store parse s rounds node f = some result := by
  obtain ⟨result, hends⟩ : ∃ result, ∀ all rounds, 0 < all → remaining known f < rounds →
      sealed store parse s rounds node f = some result := by
    refine follow_ends (fun _ _ hread => readNode_stored hstore hread) (fun n f => ?_) node f
    refine ⟨_, fun _ _ => rfl, ?_⟩
    rintro _ ⟨⟩
    exact grown_insert n.resource f
  exact ⟨result, fun rounds => hends 1 rounds Nat.one_pos⟩

private theorem archive_ends (hstore : Keyed store s known) (node : Option ResourceRef)
    (f : Reachable) :
    ∃ result, ∀ all rounds, known.length < all → remaining known f < rounds →
      archive store parse s all rounds node f = some result := by
  refine follow_ends (fun _ _ hread => readNode_stored hstore hread) (fun n f => ?_) node f
  obtain ⟨result, hends⟩ : ∃ result, ∀ rounds, _ → sealed store parse s rounds _ _ =
    some result := sealed_ends hstore (some n.sealed) f
  have hbound := remaining_le known f
  refine ⟨result, fun all hall => hends all (by omega), ?_⟩
  rintro f₁ rfl
  exact sealed_grown (hends _ (Nat.lt_succ_self _))

private theorem cursors_end (hstore : Keyed store s known) (nodes : List ResourceRef)
    (f : Reachable) :
    ∃ result, ∀ rounds, known.length < rounds →
      cursors store parse s rounds nodes f = some result := by
  induction nodes generalizing f with
  | nil => exact ⟨.ok f, fun _ _ => rfl⟩
  | cons r rest ih =>
    have hbound := remaining_le known f
    obtain ⟨first, hfirst⟩ : ∃ result, ∀ rounds, _ → sealed store parse s rounds _ _ =
      some result := sealed_ends hstore (some r) f
    cases first with
    | error error =>
      refine ⟨.error error, fun rounds hrounds => ?_⟩
      simp only [cursors, hfirst rounds (by omega), andThen]
    | ok f₁ =>
      obtain ⟨result, hrest⟩ := ih f₁
      refine ⟨result, fun rounds hrounds => ?_⟩
      simp only [cursors, hfirst rounds (by omega), andThen]
      exact hrest rounds hrounds

private theorem insertAll_ok (references : List ResourceRef) {f : Reachable} (hf : f.Tidy) :
    Tidy (references.foldl (fun f reference => f.insert reference) f) ∧
      (references.foldl (fun f reference => f.insert reference) f).walked = f.walked ∧
      ∀ key, key ∈ (references.foldl (fun f reference => f.insert reference) f).keys ↔
        key ∈ f.keys ∨ ∃ r ∈ references, r.source = .stored key := by
  induction references generalizing f with
  | nil => exact ⟨hf, rfl, by simp⟩
  | cons r rest ih =>
    obtain ⟨htidy, hwalked, hkeys⟩ := ih (tidy_insert hf r)
    refine ⟨htidy, hwalked.trans (insert_walked r f), ?_⟩
    intro key
    rw [List.foldl_cons, hkeys, mem_insert, or_assoc]
    simp

end Reachable

/-- The contents looked at name a stored resource of this key. -/
def InContents (c : Checkpoint) (key : String) : Prop :=
  ∃ content ∈ checkpointContents c, ∃ r, contentSource content = some r ∧ r.source = .stored key

open Reachable in
/-- `reachable` lists, once each, what the contents name and what is on the media chains. -/
theorem reachable_ok (hstore : Keyed store s known) {rounds : Nat} {c : Checkpoint}
    {found : Reachable} (h : reachable store parse s rounds c = some (.ok found)) :
    found.Tidy ∧ ∀ key, key ∈ found.keys ↔
      InContents c key ∨ ∃ x, OnChain store parse s c x ∧ x.source = .stored key := by
  obtain ⟨f, hcursors, harchive⟩ := andThen_ok h
  have hempty : Tidy {} := ⟨rfl, List.nodup_nil, by simp⟩
  obtain ⟨htidy₀, hwalked₀, hkeys₀⟩ :=
    insertAll_ok ((checkpointContents c).filterMap contentSource) hempty
  have hkeys : ∀ key, key ∈ (contents (checkpointContents c) {}).keys ↔ InContents c key := by
    intro key
    refine (hkeys₀ key).trans ?_
    simp only [List.not_mem_nil, false_or, List.mem_filterMap, InContents]
    constructor
    · rintro ⟨r, ⟨content, hcontent, hr⟩, hsource⟩
      exact ⟨content, hcontent, r, hr, hsource⟩
    · rintro ⟨content, hcontent, r, hr, hsource⟩
      exact ⟨r, ⟨content, hcontent, hr⟩, hsource⟩
  have hclosed₀ : Closed store parse s none c.active.session.mediaArchive
      (contents (checkpointContents c) {}) := by
    have hnone : ∀ key, key ∉ (contents (checkpointContents c) {}).walked := by
      intro key hmem
      rw [show (contents (checkpointContents c) {}).walked = [] from hwalked₀] at hmem
      cases hmem
    exact ⟨fun _ _ key _ _ hmem => absurd hmem (hnone key),
      fun _ _ key _ _ _ hmem => absurd hmem (hnone key),
      fun _ _ key _ _ hmem => absurd hmem (hnone key),
      fun _ _ key _ _ _ hmem => absurd hmem (hnone key)⟩
  obtain ⟨htidy, hclosed, hgrown, hwalks⟩ := cursors_ok hstore hcursors htidy₀ hclosed₀
  have hsealed : ∀ (n : ArchivedMedia) (f f₁ : Reachable),
      sealed store parse s rounds (some n.sealed) f = some (.ok f₁) → Grown f f₁ :=
    fun _ _ _ => sealed_grown
  have hgrown' : Grown f found := follow_grown harchive hsealed
  have htidy' : found.Tidy := follow_tidy harchive htidy fun _ _ _ => sealed_tidy
  have hclosed' := archive_closed hstore harchive hclosed
  have hsound : ∀ key ∈ found.keys,
      InContents c key ∨ ∃ x, OnChain store parse s c x ∧ x.source = .stored key := by
    refine archive_sound harchive (cursors_sound hcursors ?_ ?_) ?_
    · exact fun key hkey => .inl ((hkeys key).mp hkey)
    · intro r hr x key hx hsource
      obtain ⟨cursor, hcursor, rfl⟩ := List.mem_map.mp hr
      exact .inr ⟨x, .inl ⟨cursor, hcursor, hx⟩, hsource⟩
    · intro root x key hroot hx hsource
      exact .inr ⟨x, .inr ⟨root, hroot, hx⟩, hsource⟩
  refine ⟨htidy', fun key => ⟨hsound key, ?_⟩⟩
  · rintro (hcontent | ⟨x, hx, hsource⟩)
    · exact hgrown'.keys key (hgrown.keys key ((hkeys key).mpr hcontent))
    · rcases hx with ⟨cursor, hcursor, hx⟩ | ⟨root, hroot, hx⟩
      · have hwalks' := hgrown'.walks (hwalks _ (List.mem_map_of_mem hcursor))
        exact lists_of_sealedChain hstore htidy' hclosed' hwalks' hx key hsource
      · rw [hroot] at harchive
        have hwalks' : found.Walks root := follow_walks harchive hsealed
        exact lists_of_archiveChain hstore htidy' hclosed' hwalks' hx key hsource

open Reachable in
/-- The traversal ends, whatever the chains: more rounds than stored keys change nothing. -/
theorem reachable_ends (hstore : Keyed store s known) (c : Checkpoint) :
    ∃ result, ∀ rounds, known.length < rounds → reachable store parse s rounds c = some result := by
  obtain ⟨first, hfirst⟩ : ∃ result, ∀ rounds, _ → cursors store parse s rounds _ _ =
    some result := cursors_end hstore (c.active.media.toList.map fun cursor => cursor.2.sealed)
      (contents (checkpointContents c) {})
  cases first with
  | error error =>
    refine ⟨.error error, fun rounds hrounds => ?_⟩
    simp only [reachable, hfirst rounds hrounds, andThen]
  | ok f =>
    have hbound := remaining_le known f
    obtain ⟨result, hrest⟩ : ∃ result, ∀ all rounds, _ → _ → archive store parse s all rounds _ _ =
      some result := archive_ends hstore c.active.session.mediaArchive f
    refine ⟨result, fun rounds hrounds => ?_⟩
    simp only [reachable, hfirst rounds hrounds, andThen]
    exact hrest rounds rounds hrounds (by omega)

end

end Zhir.Storage
