import Mathlib.Order.Defs.Unbundled

/-! Computations over a state that need not return, and their pre/postcondition rules. -/
namespace Effect

/-- Running `x` from `w`: `none` when it does not return. -/
def Run (σ α : Type) : Type := σ → Option (α × σ)

variable {σ α β : Type} {R S : σ → σ → Prop} {x : Run σ α} {f : α → Run σ β}
  {w w' : σ} {b : β} {Q Q' : α → σ → Prop}

namespace Run

instance : Monad (Run σ) where
  pure a w := some (a, w)
  bind x f w := (x w).bind fun p => f p.1 p.2

/-- A computation that does not return from any state. -/
def stuck : Run σ α := fun _ => none

def get : Run σ σ := fun w => some (w, w)

def modify (g : σ → σ) : Run σ Unit := fun w => some ((), g w)

@[simp] theorem pure_apply (a : α) (w : σ) : (pure a : Run σ α) w = some (a, w) := rfl

@[simp] theorem stuck_apply (w : σ) : (stuck : Run σ α) w = none := rfl

@[simp] theorem get_apply (w : σ) : (get : Run σ σ) w = some (w, w) := rfl

theorem bind_apply (x : Run σ α) (f : α → Run σ β) (w : σ) :
    (x >>= f) w = (x w).bind fun p => f p.1 p.2 := rfl

theorem bind_of_eq {a : α} (h : x w = some (a, w')) : (x >>= f) w = f a w' := by
  simp [bind_apply, h]

/-- A sequence that returns passed through a state between its two parts. -/
theorem bind_eq_some :
    (x >>= f) w = some (b, w') ↔ ∃ a v, x w = some (a, v) ∧ f a v = some (b, w') := by
  simp [bind_apply, Option.bind_eq_some_iff]

/-- If `x` returns from `w`, it returns something in `Q`. -/
def Post (x : Run σ α) (w : σ) (Q : α → σ → Prop) : Prop :=
  ∀ a w', x w = some (a, w') → Q a w'

/-- From `w`, `x` returns something in `Q`. -/
def Yields (x : Run σ α) (w : σ) (Q : α → σ → Prop) : Prop :=
  ∃ a w', x w = some (a, w') ∧ Q a w'

/-- Whatever `x` returns, it moved the state by `R`. -/
def Within (R : σ → σ → Prop) (x : Run σ α) : Prop := ∀ w, Post x w fun _ w' => R w w'

/-- `x` returns from every state and moves it by `R`. -/
def Total (R : σ → σ → Prop) (x : Run σ α) : Prop := ∀ w, Yields x w fun _ w' => R w w'

theorem Post.and (h : Post x w Q) (h' : Post x w Q') : Post x w fun a v => Q a v ∧ Q' a v :=
  fun a v hx => ⟨h a v hx, h' a v hx⟩

theorem post_bind {Q : β → σ → Prop} (h : Post x w fun a v => Post (f a) v Q) :
    Post (x >>= f) w Q := by
  intro b w' hb
  obtain ⟨a, v, hx, hf⟩ := bind_eq_some.mp hb
  exact h a v hx b w' hf

theorem Yields.mono (h : Yields x w Q) (hq : ∀ a v, Q a v → Q' a v) : Yields x w Q' := by
  obtain ⟨a, v, hx, hv⟩ := h
  exact ⟨a, v, hx, hq a v hv⟩

/-- What a computation yields is what it returns. -/
theorem yields_iff {a : α} (h : x w = some (a, w')) : Yields x w Q ↔ Q a w' := by
  constructor
  · rintro ⟨b, v, hb, hq⟩
    rw [h] at hb
    cases hb
    exact hq
  · exact fun hq => ⟨a, w', h, hq⟩

theorem yields_pure {a : α} (h : Q a w) : Yields (pure a : Run σ α) w Q := ⟨a, w, rfl, h⟩

theorem yields_bind {Q : β → σ → Prop} (h : Yields x w fun a v => Yields (f a) v Q) :
    Yields (x >>= f) w Q := by
  obtain ⟨a, v, hx, b, w', hf, hq⟩ := h
  exact ⟨b, w', by rw [bind_of_eq hx, hf], hq⟩

theorem Total.within (h : Total R x) : Within R x := by
  intro w a w' hx
  obtain ⟨b, v, hb, hR⟩ := h w
  rw [hx] at hb
  cases hb
  exact hR

theorem Total.mono (h : Total R x) (hRS : ∀ w w', R w w' → S w w') : Total S x :=
  fun w => (h w).mono fun _ v => hRS w v

section Preorder

variable [hp : IsPreorder σ R]

theorem within_pure (a : α) : Within R (pure a : Run σ α) := by
  intro w a' w' h
  simp only [pure_apply, Option.some.injEq, Prod.mk.injEq] at h
  rw [← h.2]
  exact hp.refl w

theorem within_bind (hx : Within R x) (hf : ∀ a, Within R (f a)) : Within R (x >>= f) := by
  intro w
  apply post_bind
  intro a v hv b w' hb
  exact hp.trans _ _ _ (hx w a v hv) (hf a v b w' hb)

theorem total_pure (a : α) : Total R (pure a : Run σ α) := fun w => yields_pure (hp.refl w)

theorem total_get : Total R (get : Run σ σ) := fun w => ⟨w, w, rfl, hp.refl w⟩

/-- The rest of a sequence need only be followed from what its first part can return. -/
theorem total_bind_of (hx : Total R x) (hf : ∀ a w w', x w = some (a, w') → Total R (f a)) :
    Total R (x >>= f) := by
  intro w
  apply yields_bind
  obtain ⟨a, v, ha, hv⟩ := hx w
  obtain ⟨b, w', hb, hw⟩ := hf a w v ha v
  exact ⟨a, v, ha, b, w', hb, hp.trans _ _ _ hv hw⟩

theorem total_bind (hx : Total R x) (hf : ∀ a, Total R (f a)) : Total R (x >>= f) :=
  total_bind_of hx fun a _ _ _ => hf a

end Preorder

end Run
end Effect
