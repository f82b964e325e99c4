import Zhir.Core.Message

/-!
The resource store port, and what a host may rely on it for.
-/

set_option autoImplicit false
set_option relaxedAutoImplicit false

namespace Zhir.Core

/-- `resource::ResourceStore`: a resource written from start to finish, and read to its end. -/
structure ResourceStore (σ : Type) where
  put : (key mediaType : String) → List UInt8 → σ → Result (ResourceRef × σ)
  read : ResourceRef → σ → Result (List UInt8)

variable {σ : Type}

/-- Whatever could be read can still be read, and reads the same. -/
def ResourceStore.Grows (store : ResourceStore σ) (s s' : σ) : Prop :=
  ∀ q bytes, store.read q s = .ok bytes → store.read q s' = .ok bytes

/-- A written resource is kept under a key and is read back by its source and media type, and
writing leaves other resources alone. -/
structure ResourceStore.Lawful (store : ResourceStore σ) : Prop where
  stored : ∀ key mediaType bytes s r s', store.put key mediaType bytes s = .ok (r, s') →
    ∃ key, r.source = .stored key
  read : ∀ key mediaType bytes s r s', store.put key mediaType bytes s = .ok (r, s') →
    ∀ q : ResourceRef, q.validate = .ok () → q.source = r.source → q.mediaType = mediaType →
      store.read q s' = .ok bytes
  keeps : ∀ key mediaType bytes s r s', store.put key mediaType bytes s = .ok (r, s') →
    store.Grows s s'

theorem ResourceStore.Grows.trans {store : ResourceStore σ} {s₁ s₂ s₃ : σ}
    (h₁ : store.Grows s₁ s₂) (h₂ : store.Grows s₂ s₃) : store.Grows s₁ s₃ :=
  fun q bytes h => h₂ q bytes (h₁ q bytes h)

theorem ResourceStore.Grows.refl (store : ResourceStore σ) (s : σ) : store.Grows s s :=
  fun _ _ h => h

end Zhir.Core
