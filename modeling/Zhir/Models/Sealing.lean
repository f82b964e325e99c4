import Zhir.Models.Resolving

/-!
Sealing a turn and resolving it again: what one content, one call and one turn become.
-/

set_option autoImplicit false
set_option relaxedAutoImplicit false

namespace Zhir.Models

open Zhir.Core

/-- References that sealing wrote, as a later state of the store still has them. -/
def Written {σ : Type} (store : ResourceStore σ) (later : σ) (all : List ResourceRef)
    (r : ResourceRef) : Prop :=
  (∃ w ∈ all, w.source = r.source) ∧ (∃ key, r.source = .stored key) ∧
    ∃ bytes, ∀ m, bytesOf store later { r with metadata := m } = some bytes

section

variable {σ η : Type} {store : ResourceStore σ} {hashes : Hashes η} {later : σ}
  {all : List ResourceRef}

theorem keeps_written : Keeps store later (Written store later all) where
  stored _ hr := hr.2.1
  bytes r hr := by
    obtain ⟨-, -, bytes, hbytes⟩ := hr
    exact ⟨bytes, hbytes r.metadata⟩
  metadata r m hr := by
    obtain ⟨hw, hkey, bytes, hbytes⟩ := hr
    exact ⟨hw, hkey, bytes, hbytes⟩
  same r m hr := by
    obtain ⟨-, -, bytes, hbytes⟩ := hr
    exact (hbytes m).trans (hbytes r.metadata).symm

/-- The store and the list of written references as they are later. -/
structure Later (store : ResourceStore σ) (later : σ) (all : List ResourceRef) (s : Sealing σ) :
    Prop where
  grows : store.Grows s.store later
  written : ∀ r ∈ s.written, r ∈ all

def isStored : Content → Bool
  | .resource input =>
    match input.resource.source with
    | .stored _ => true
    | _ => false
  | _ => false

inductive Saved (store : ResourceStore σ) (hashes : Hashes η) (s : Sealing σ) :
    Content → Content × Option (String × ResourceRef) × Sealing σ → Prop
  | kept (content : Content) : payloadOf content = none →
      Saved store hashes s content (content, none, s)
  | sealed (input : ResourceInput) (bytes : List UInt8) (r reference : ResourceRef) (next : σ) :
      input.resource.source = .inline bytes →
      store.put (hashes.key input.resource.mediaType bytes) input.resource.mediaType bytes
        s.store = .ok (reference, next) →
      (∀ inner, reference.source ≠ .inline inner) →
      r = { input.resource with source := reference.source } →
      Saved store hashes s (.resource input) (.resource { input with resource := r },
        some (base64 bytes, r), ⟨next, s.written ++ [r]⟩)

theorem saved_of_saveContent {content : Content} {s : Sealing σ}
    {result : Content × Option (String × ResourceRef) × Sealing σ}
    (h : saveContent store hashes content s = .ok result) :
    Saved store hashes s content result := by
  cases content with
  | resource input =>
    cases hsource : input.resource.source with
    | inline bytes =>
      simp only [saveContent, hsource] at h
      obtain ⟨⟨reference, next⟩, hput, h⟩ := Result.bind_ok h
      obtain ⟨_, -, h⟩ := Result.bind_ok h
      obtain ⟨_, -, h⟩ := Result.bind_ok h
      cases hreference : reference.source with
      | inline inner =>
        simp only [hreference] at h
        cases h
      | _ =>
        simp only [hreference] at h
        cases h
        refine .sealed input bytes _ reference next hsource hput ?_ (by rw [hreference])
        intro inner hinner
        cases hreference.symm.trans hinner
    | _ =>
      simp only [saveContent, hsource] at h
      cases h
      exact .kept _ (by simp only [payloadOf, hsource])
  | _ =>
    cases h
    exact .kept _ rfl

private theorem written_of_sealed (hlawful : store.Lawful) {input : ResourceInput}
    {bytes : List UInt8}
    {r reference : ResourceRef} {s : Sealing σ} {next : σ}
    (hput : store.put (hashes.key input.resource.mediaType bytes) input.resource.mediaType bytes
      s.store = .ok (reference, next))
    (hr : r = { input.resource with source := reference.source }) (hvalid : r.validate = .ok ())
    (hlater : Later store later all ⟨next, s.written ++ [r]⟩) :
    Written store later all r ∧ bytesOf store later r = some bytes := by
  subst hr
  have hread : ∀ m, bytesOf store later
      { input.resource with source := reference.source, metadata := m } = some bytes := by
    intro m
    have hvalid' : ResourceRef.validate
        { input.resource with source := reference.source, metadata := m } = .ok () := hvalid
    have hnext := hlawful.read _ _ _ _ _ _ hput _ hvalid' rfl rfl
    have hlast := hlater.grows _ _ hnext
    simp only [bytesOf, hvalid', hlast]
  obtain ⟨key, hkey⟩ := hlawful.stored _ _ _ _ _ _ hput
  exact ⟨⟨⟨_, hlater.written _ (by simp), rfl⟩, ⟨key, hkey⟩, bytes, hread⟩, hread _⟩

/-- A content that was saved resolves to itself, unless it was stored already. -/
theorem resolves_saved (hlawful : store.Lawful) {content content' : Content}
    {saved : Option (String × ResourceRef)} {s s' : Sealing σ}
    (h : Saved store hashes s content (content', saved, s'))
    (hvalid : content'.validate = .ok ()) (hlater : Later store later all s')
    (hfresh : isStored content = false) :
    Resolves (Written store later all) (resolveContent store later content') content := by
  cases h with
  | kept _ hpayload =>
    cases content with
    | resource input =>
      cases hsource : input.resource.source with
      | inline bytes => simp only [payloadOf, hsource, reduceCtorEq] at hpayload
      | stored key => simp only [isStored, hsource, reduceCtorEq] at hfresh
      | _ =>
        unfold resolveContent
        simp only [hsource]
        exact Resolves.pure _
    | _ => exact Resolves.pure _
  | sealed input bytes r reference next hsource hput hreference hr =>
    have hvalid' : r.validate = .ok () := by
      obtain ⟨_, hvalid', -⟩ := Result.bind_ok hvalid
      exact hvalid'
    obtain ⟨hwritten, hbytes⟩ := written_of_sealed hlawful hput hr hvalid' hlater
    obtain ⟨key, hkey⟩ := hwritten.2.1
    have hback : input.resource = { r with source := .inline bytes } := by
      rw [hr, ← hsource]
    have hload := (resolves_load hbytes hwritten).map fun bytes => Content.resource
      { input with resource := { r with source := .inline bytes } }
    rw [← hback] at hload
    unfold resolveContent
    simp only [hkey]
    exact hload

theorem fresh_of_resolved {content content' : Content} {saved : Option (String × ResourceRef)}
    {s s' : Sealing σ} {l l' : Loads} (h : Saved store hashes s content (content', saved, s'))
    (hresolved : resolveContent store later content' l = .ok (content, l')) :
    isStored content = false := by
  cases h with
  | kept _ hpayload =>
    cases content with
    | resource input =>
      cases hsource : input.resource.source with
      | stored key =>
        simp only [resolveContent, hsource] at hresolved
        obtain ⟨⟨bytes, _⟩, -, hresolved⟩ := Result.bind_ok hresolved
        injection hresolved with hresolved
        injection hresolved with hcontent
        injection hcontent with hinput
        have hinline : input.resource.source = .inline bytes := by rw [← hinput]
        cases hsource.symm.trans hinline
      | _ => simp only [isStored, hsource]
    | _ => rfl
  | sealed input bytes r reference next hsource => simp only [isStored, hsource]

theorem later_of_saved (hlawful : store.Lawful) {content content' : Content}
    {saved : Option (String × ResourceRef)} {s s' : Sealing σ}
    (h : Saved store hashes s content (content', saved, s')) (hlater : Later store later all s') :
    Later store later all s := by
  cases h with
  | kept => exact hlater
  | sealed input bytes r reference next hsource hput =>
    have hgrows := hlawful.keeps _ _ _ _ _ _ hput
    refine ⟨hgrows.trans hlater.grows, ?_⟩
    intro r hr
    exact hlater.written r (List.mem_append_left _ hr)

/-- The pointer of a binding stays clear in the data of its call. -/
def clearBinding (data : Value) (binding : Nat × String) : Bool :=
  match bindingPath binding.2 with
  | some path => clear path data
  | none => true

/-- The data holds markers for written resources, and restores to what was sent. -/
structure Restores (store : ResourceStore σ) (later : σ) (all : List ResourceRef)
    (sent data : Value) : Prop where
  shaped : Shaped (Written store later all) data
  restored : restore store later data = some sent

private theorem bindPayload_ok {index : Nat} {payload : String} {r : ResourceRef}
    {c c' : CallSealing}
    (h : bindPayload index payload r c = .ok c') :
    (c.bindings.lookup index = none ∧ c'.data = c.data ∧ c'.bindings = c.bindings) ∨
      ∃ pointer path, c.bindings.lookup index = some pointer ∧ bindingPath pointer = some path ∧
        c.data.pointer path = some (.string payload) ∧
        c'.data = c.data.setPointer path (marker r) ∧
        c'.bindings = c.bindings.filter fun b => b.1 ≠ index := by
  unfold bindPayload at h
  cases hlookup : c.bindings.lookup index with
  | none =>
    simp only [hlookup] at h
    split at h
    · cases h
    · cases h
      exact .inl ⟨rfl, rfl, rfl⟩
  | some pointer =>
    simp only [hlookup] at h
    split at h
    · cases h
    · rename_i path target htarget
      obtain ⟨path', hpath, htarget⟩ := Option.bind_eq_some_iff.mp htarget
      obtain ⟨target', hpointer, htarget⟩ := Option.map_eq_some_iff.mp htarget
      obtain ⟨rfl, rfl⟩ : path' = path ∧ target' = target := Prod.mk.inj htarget
      split at h
      · cases h
      · rename_i hpayload
        cases h
        have htext : target' = .string payload := not_not.mp hpayload
        exact .inr ⟨pointer, path', rfl, hpath, by rw [hpointer, htext], rfl, rfl⟩

private theorem saveContents_cons {index : Nat} {content : Content} {rest contents' : List Content}
    {c c' : CallSealing} {s s' : Sealing σ}
    (h : saveContents store hashes index (content :: rest) c s = .ok (contents', c', s')) :
    ∃ content' saved s₁ c₁ rest', Saved store hashes s content (content', saved, s₁) ∧
      bindSaved index saved c = .ok c₁ ∧
      saveContents store hashes (index + 1) rest c₁ s₁ = .ok (rest', c', s') ∧
      contents' = content' :: rest' := by
  obtain ⟨⟨content', saved, s₁⟩, hsave, h⟩ := Result.bind_ok h
  obtain ⟨c₁, hbind, h⟩ := Result.bind_ok h
  obtain ⟨⟨rest', c₂, s₂⟩, hrest, h⟩ := Result.bind_ok h
  cases h
  exact ⟨content', saved, s₁, c₁, rest', saved_of_saveContent hsave, hbind, hrest, rfl⟩

private theorem saveContents_later (hlawful : store.Lawful) {index : Nat}
    {contents contents' : List Content}
    {c c' : CallSealing} {s s' : Sealing σ}
    (h : saveContents store hashes index contents c s = .ok (contents', c', s'))
    (hlater : Later store later all s') : Later store later all s := by
  induction contents generalizing index c s contents' with
  | nil =>
    cases h
    exact hlater
  | cons content rest ih =>
    obtain ⟨content', saved, s₁, c₁, rest', hsaved, -, hrest, -⟩ := saveContents_cons h
    exact later_of_saved hlawful hsaved (ih hrest)

private theorem bindSaved_restores (hlawful : store.Lawful) {index : Nat}
    {content content' : Content}
    {saved : Option (String × ResourceRef)} {s s₁ : Sealing σ} {c c₁ : CallSealing} {sent : Value}
    (hsaved : Saved store hashes s content (content', saved, s₁))
    (hbind : bindSaved index saved c = .ok c₁) (hvalid : content'.validate = .ok ())
    (hlater : Later store later all s₁) (hdata : Restores store later all sent c.data)
    (hclear : ∀ payload r pointer, saved = some (payload, r) →
      c.bindings.lookup index = some pointer → clearBinding sent (index, pointer) = true) :
    Restores store later all sent c₁.data := by
  cases hsaved with
  | kept =>
    cases hbind
    exact hdata
  | sealed input bytes r reference next hsource hput hreference hr =>
    rcases bindPayload_ok hbind with ⟨-, hsame, -⟩ |
      ⟨pointer, path, hlookup, hpath, htarget, hset, -⟩
    · rw [hsame]
      exact hdata
    · obtain ⟨_, hvalid, -⟩ := Result.bind_ok hvalid
      obtain ⟨hwritten, hbytes⟩ := written_of_sealed hlawful hput hr hvalid hlater
      obtain ⟨key, hkey⟩ := hwritten.2.1
      have hpathClear : clear path sent = true := by
        have hbinding := hclear _ _ pointer rfl hlookup
        simpa only [clearBinding, hpath] using hbinding
      obtain ⟨hrestored, hshaped⟩ := restore_setPointer keeps_written (.marker r hwritten)
        (restore_marker hkey hbytes) hdata.shaped hdata.restored htarget hpathClear
      rw [hset]
      exact ⟨hshaped, hrestored⟩

private theorem bindSaved_breaks {index : Nat} {payload : String} {r : ResourceRef}
    {c c₁ : CallSealing}
    {sent : Value} {pointer : String} (hbind : bindPayload index payload r c = .ok c₁)
    (hdata : Restores store later all sent c.data)
    (hlookup : c.bindings.lookup index = some pointer)
    (hunclear : clearBinding sent (index, pointer) = false) : Broken c₁.data := by
  rcases bindPayload_ok hbind with ⟨hnone, -⟩ | ⟨pointer', path, hsome, hpath, htarget, hset, -⟩
  · cases hnone.symm.trans hlookup
  · obtain rfl : pointer' = pointer := Option.some.inj (hsome.symm.trans hlookup)
    have hpathUnclear : clear path sent = false := by
      simpa only [clearBinding, hpath] using hunclear
    rw [hset]
    exact broken_of_unclear keeps_written _ hdata.shaped hdata.restored htarget hpathUnclear

private theorem bindSaved_broken {index : Nat} {saved : Option (String × ResourceRef)}
    {c c₁ : CallSealing} (hbind : bindSaved index saved c = .ok c₁) (hbroken : Broken c.data) :
    Broken c₁.data := by
  cases saved with
  | none =>
    cases hbind
    exact hbroken
  | some saved =>
    rcases bindPayload_ok hbind with ⟨-, hsame, -⟩ | ⟨pointer, path, -, -, htarget, hset, -⟩
    · rw [hsame]
      exact hbroken
    · rw [hset]
      exact broken_setPointer hbroken _ htarget

private theorem bindSaved_bindings {index : Nat} {saved : Option (String × ResourceRef)}
    {c c₁ : CallSealing} (hbind : bindSaved index saved c = .ok c₁) :
    c₁.bindings = c.bindings ∨ ∃ payload r pointer, saved = some (payload, r) ∧
      c.bindings.lookup index = some pointer ∧
      c₁.bindings = c.bindings.filter fun b => b.1 ≠ index := by
  cases saved with
  | none =>
    cases hbind
    exact .inl rfl
  | some saved =>
    rcases bindPayload_ok hbind with ⟨-, -, hsame⟩ | ⟨pointer, path, hlookup, -, -, -, hfilter⟩
    · exact .inl hsame
    · exact .inr ⟨saved.1, saved.2, pointer, rfl, hlookup, hfilter⟩

private theorem bindings_subset {index : Nat} {saved : Option (String × ResourceRef)}
    {c c₁ : CallSealing} (hbind : bindSaved index saved c = .ok c₁) :
    ∀ b ∈ c₁.bindings, b ∈ c.bindings := by
  intro b hb
  rcases bindSaved_bindings hbind with hsame | ⟨_, _, _, _, _, hfilter⟩
  · rwa [hsame] at hb
  · rw [hfilter] at hb
    exact (List.mem_filter.mp hb).1

private theorem saveContents_broken {index : Nat} {contents contents' : List Content}
    {c c' : CallSealing} {s s' : Sealing σ}
    (h : saveContents store hashes index contents c s = .ok (contents', c', s'))
    (hbroken : Broken c.data) : Broken c'.data := by
  induction contents generalizing index c s contents' with
  | nil =>
    cases h
    exact hbroken
  | cons content rest ih =>
    obtain ⟨content', saved, s₁, c₁, rest', -, hbind, hrest, -⟩ := saveContents_cons h
    exact ih hrest (bindSaved_broken hbind hbroken)

private theorem saveContents_restores (hlawful : store.Lawful) {index : Nat}
    {contents contents' : List Content} {c c' : CallSealing} {s s' : Sealing σ} {sent : Value}
    (h : saveContents store hashes index contents c s = .ok (contents', c', s'))
    (hvalid : ∀ content ∈ contents', content.validate = .ok ()) (hlater : Later store later all s')
    (hdata : Restores store later all sent c.data)
    (hclear : ∀ b ∈ c.bindings, clearBinding sent b = true) :
    Restores store later all sent c'.data := by
  induction contents generalizing index c s contents' with
  | nil =>
    cases h
    exact hdata
  | cons content rest ih =>
    obtain ⟨content', saved, s₁, c₁, rest', hsaved, hbind, hrest, rfl⟩ := saveContents_cons h
    obtain ⟨hfirst, hothers⟩ := List.forall_mem_cons.mp hvalid
    have hlater₁ := saveContents_later hlawful hrest hlater
    have hused : ∀ payload r pointer, saved = some (payload, r) →
        c.bindings.lookup index = some pointer → clearBinding sent (index, pointer) = true :=
      fun _ _ pointer _ hlookup => hclear (index, pointer) (mem_of_lookup hlookup)
    have hdata₁ := bindSaved_restores hlawful hsaved hbind hfirst hlater₁ hdata hused
    refine ih hrest hothers hdata₁ ?_
    intro b hb
    exact hclear b (bindings_subset hbind b hb)

private theorem saveContents_breaks (hlawful : store.Lawful) {index : Nat}
    {contents contents' : List Content} {c c' : CallSealing} {s s' : Sealing σ} {sent : Value}
    (h : saveContents store hashes index contents c s = .ok (contents', c', s'))
    (hvalid : ∀ content ∈ contents', content.validate = .ok ()) (hlater : Later store later all s')
    (hdata : Restores store later all sent c.data) (hkeys : (c.bindings.map Prod.fst).Nodup)
    (hall : c'.bindings = []) (hunclear : ∃ b ∈ c.bindings, clearBinding sent b = false) :
    Broken c'.data := by
  induction contents generalizing index c s contents' with
  | nil =>
    cases h
    obtain ⟨b, hb, -⟩ := hunclear
    rw [hall] at hb
    cases hb
  | cons content rest ih =>
    obtain ⟨content', saved, s₁, c₁, rest', hsaved, hbind, hrest, rfl⟩ := saveContents_cons h
    obtain ⟨hfirst, hothers⟩ := List.forall_mem_cons.mp hvalid
    have hlater₁ := saveContents_later hlawful hrest hlater
    by_cases hused : ∃ payload r pointer, saved = some (payload, r) ∧
        c.bindings.lookup index = some pointer ∧ clearBinding sent (index, pointer) = false
    · obtain ⟨payload, r, pointer, rfl, hlookup, hfalse⟩ := hused
      exact saveContents_broken hrest (bindSaved_breaks hbind hdata hlookup hfalse)
    · -- what was used here is clear, so the unclear binding is still to come
      have hclear : ∀ payload r pointer, saved = some (payload, r) →
          c.bindings.lookup index = some pointer → clearBinding sent (index, pointer) = true := by
        intro payload r pointer hsome hlookup
        by_contra hfalse
        exact hused ⟨payload, r, pointer, hsome, hlookup, Bool.not_eq_true _ ▸ hfalse⟩
      have hdata₁ := bindSaved_restores hlawful hsaved hbind hfirst hlater₁ hdata hclear
      rcases bindSaved_bindings hbind with hsame | ⟨payload, r, pointer, hsome, hlookup, hfilter⟩
      · exact ih hrest hothers hdata₁ (hsame ▸ hkeys) (hsame ▸ hunclear)
      · obtain ⟨b, hb, hfalse⟩ := hunclear
        have hne : b.1 ≠ index := by
          rintro rfl
          have hpointer : pointer = b.2 :=
            Option.some.inj (hlookup.symm.trans (lookup_of_mem hkeys hb))
          subst hpointer
          exact hused ⟨payload, r, b.2, hsome, hlookup, hfalse⟩
        refine ih hrest hothers hdata₁ ?_ ⟨b, ?_, hfalse⟩
        · rw [hfilter]
          exact hkeys.sublist (List.filter_sublist.map Prod.fst)
        · rw [hfilter]
          exact List.mem_filter.mpr ⟨hb, decide_eq_true hne⟩

private theorem saveContents_resolves (hlawful : store.Lawful) {index : Nat}
    {contents contents' : List Content} {c c' : CallSealing} {s s' : Sealing σ}
    (h : saveContents store hashes index contents c s = .ok (contents', c', s'))
    (hvalid : ∀ content ∈ contents', content.validate = .ok ()) (hlater : Later store later all s')
    (hfresh : ∀ content ∈ contents, isStored content = false) :
    Resolves (Written store later all) (resolveContents store later contents') contents := by
  induction contents generalizing index c s contents' with
  | nil =>
    cases h
    exact Resolves.pure _
  | cons content rest ih =>
    obtain ⟨content', saved, s₁, c₁, rest', hsaved, -, hrest, rfl⟩ := saveContents_cons h
    obtain ⟨hfirst, hothers⟩ := List.forall_mem_cons.mp hvalid
    obtain ⟨hfreshFirst, hfreshRest⟩ := List.forall_mem_cons.mp hfresh
    have hlater₁ := saveContents_later hlawful hrest hlater
    have hone := resolves_saved hlawful hsaved hfirst hlater₁ hfreshFirst
    have hmany := ih hrest hothers hfreshRest
    exact hone.bind (g := fun content l => resolveContents store later rest' l >>= fun r =>
      pure (content :: r.1, r.2)) (hmany.map fun rest => content :: rest)

private theorem saveContents_fresh {index : Nat} {contents contents' : List Content}
    {c c' : CallSealing} {s s' : Sealing σ} {l l' : Loads}
    (h : saveContents store hashes index contents c s = .ok (contents', c', s'))
    (hresolved : resolveContents store later contents' l = .ok (contents, l')) :
    ∀ content ∈ contents, isStored content = false := by
  induction contents generalizing index c s contents' l l' with
  | nil => simp
  | cons content rest ih =>
    obtain ⟨content', saved, s₁, c₁, rest', hsaved, -, hrest, rfl⟩ := saveContents_cons h
    obtain ⟨⟨first, l₁⟩, hone, hresolved⟩ := Result.bind_ok hresolved
    obtain ⟨⟨others, l₂⟩, hmany, hresolved⟩ := Result.bind_ok hresolved
    injection hresolved with hresolved
    injection hresolved with hlist hloads
    injection hlist with hfirst hothers
    subst hfirst hothers
    exact List.forall_mem_cons.mpr ⟨fresh_of_resolved hsaved hone, ih hrest hmany⟩

private theorem bindings_nodup {media : List MediaBinding} {bound : List (Nat × String)}
    (h : bindings media = .ok bound) : (bound.map Prod.fst).Nodup := by
  induction media generalizing bound with
  | nil =>
    cases h
    exact List.nodup_nil
  | cons binding rest ih =>
    obtain ⟨others, hothers, h⟩ := Result.bind_ok h
    split at h
    · cases h
    · rename_i hvalid
      cases h
      exact List.nodup_cons.mpr ⟨fun hmem => hvalid (.inr hmem), ih hothers⟩

/-- The bindings of a call, as its replay record declares them. -/
def declared (call : ProviderToolCall) : List (Nat × String) :=
  match replay call with
  | .ok (some replay) => replay.media.map fun binding => (binding.contentIndex, binding.pointer)
  | _ => []

def restorableCall (call : ProviderToolCall) : Bool :=
  call.output.all (fun content => !isStored content) && plain call.data &&
    (declared call).all (clearBinding call.data)

private theorem bindings_declared {media : List MediaBinding} {bound : List (Nat × String)}
    (h : bindings media = .ok bound) :
    bound = media.map fun binding => (binding.contentIndex, binding.pointer) := by
  induction media generalizing bound with
  | nil =>
    cases h
    rfl
  | cons binding rest ih =>
    obtain ⟨others, hothers, h⟩ := Result.bind_ok h
    split at h
    · cases h
    · cases h
      rw [ih hothers]
      rfl

private theorem saveCall_ok {call call' : ProviderToolCall} {s s' : Sealing σ}
    (h : saveCall store hashes call s = .ok (call', s')) :
    ∃ output c, ((declared call).map Prod.fst).Nodup ∧
      saveContents store hashes 0 call.output ⟨call.data, declared call, []⟩ s =
        .ok (output, c, s') ∧ c.bindings = [] ∧ call' = { call with output, data := c.data } := by
  obtain ⟨found, hreplay, h⟩ := Result.bind_ok h
  obtain ⟨bound, hbound, h⟩ := Result.bind_ok h
  obtain ⟨⟨output, c, _⟩, hcontents, h⟩ := Result.bind_ok h
  obtain ⟨_, -, h⟩ := Result.bind_ok h
  obtain ⟨_, hempty, h⟩ := Result.bind_ok h
  cases h
  have hdeclared : declared call = bound := by
    rw [bindings_declared hbound, declared, hreplay]
    cases found <;> rfl
  rw [hdeclared]
  exact ⟨output, c, bindings_nodup hbound, hcontents, require_ok hempty, rfl⟩

theorem saveCall_later (hlawful : store.Lawful) {call call' : ProviderToolCall}
    {s s' : Sealing σ} (h : saveCall store hashes call s = .ok (call', s'))
    (hlater : Later store later all s') :
    Later store later all s := by
  obtain ⟨output, c, -, hcontents, -, -⟩ := saveCall_ok h
  exact saveContents_later hlawful hcontents hlater

theorem saveCall_resolves (hlawful : store.Lawful) {call call' : ProviderToolCall}
    {s s' : Sealing σ} (h : saveCall store hashes call s = .ok (call', s'))
    (hvalid : ∀ content ∈ call'.output, content.validate = .ok ())
    (hlater : Later store later all s') (hrestorable : restorableCall call = true) :
    Resolves (Written store later all) (resolveOutput store later (.providerToolCall call'))
      (.providerToolCall call) := by
  obtain ⟨output, c, -, hcontents, -, rfl⟩ := saveCall_ok h
  simp only [restorableCall, Bool.and_eq_true, List.all_eq_true, Bool.not_eq_true'] at hrestorable
  obtain ⟨⟨hfresh, hplain⟩, hclear⟩ := hrestorable
  have hsent : Restores store later all call.data call.data :=
    ⟨shaped_of_plain _ hplain, restore_plain hplain⟩
  have hdata := saveContents_restores hlawful hcontents hvalid hlater hsent hclear
  have houtput := saveContents_resolves hlawful hcontents hvalid hlater hfresh
  have hvalue := resolves_value keeps_written hdata.shaped hdata.restored
  exact houtput.bind (g := fun output l => resolveValue store later c.data l >>= fun r =>
    pure (Output.providerToolCall { call with output, data := r.1 }, r.2))
    (hvalue.map fun data => Output.providerToolCall { call with data })

theorem restorable_of_resolved (hlawful : store.Lawful) {call call' : ProviderToolCall}
    {s s' : Sealing σ} {l l' : Loads} (h : saveCall store hashes call s = .ok (call', s'))
    (hvalid : ∀ content ∈ call'.output, content.validate = .ok ())
    (hlater : Later store later all s')
    (hresolved : resolveOutput store later (.providerToolCall call') l =
      .ok (.providerToolCall call, l')) : restorableCall call = true := by
  obtain ⟨output, c, hkeys, hcontents, hused, rfl⟩ := saveCall_ok h
  obtain ⟨⟨contents, l₁⟩, houtput, hresolved⟩ := Result.bind_ok hresolved
  obtain ⟨⟨data, l₂⟩, hdata, hresolved⟩ := Result.bind_ok hresolved
  injection hresolved with hresolved
  injection hresolved with hcall hloads
  injection hcall with hcall
  have hcontentsEq : contents = call.output := by rw [← hcall]
  have hdataEq : data = call.data := by rw [← hcall]
  subst hcontentsEq hdataEq
  have hrestored := restore_of_resolve hdata
  have hfresh := saveContents_fresh hcontents houtput
  have hplain := plain_restored hrestored
  have hsent : Restores store later all call.data call.data :=
    ⟨shaped_of_plain _ hplain, restore_plain hplain⟩
  have hclear : ∀ b ∈ declared call, clearBinding call.data b = true := by
    intro b hb
    by_contra hfalse
    have hbroken := saveContents_breaks hlawful hcontents hvalid hlater hsent hkeys hused
      ⟨b, hb, Bool.not_eq_true _ ▸ hfalse⟩
    cases hrestored.symm.trans (restore_broken hbroken)
  simp only [restorableCall, Bool.and_eq_true, List.all_eq_true, Bool.not_eq_true']
  exact ⟨⟨hfresh, hplain⟩, hclear⟩

end

end Zhir.Models
