import P11Rand.Effect.Host
import P11Rand.Effect.Loop

/-! Computations that do the same on states of different types. -/
namespace Effect

variable {σ τ s r α β Q H : Type} {R : σ → τ → Prop}

namespace Run

variable {x : Run σ α} {y : Run τ α}

/-- What `x` does from a state `y` does from a related one, and the states stay related. -/
def Follows (R : σ → τ → Prop) (x : Run σ α) (y : Run τ α) : Prop :=
  ∀ w v a w', R w v → x w = some (a, w') → ∃ v', y v = some (a, v') ∧ R w' v'

theorem follows_pure (a : α) : Follows R (pure a : Run σ α) (pure a : Run τ α) := by
  intro w v a' w' hR h
  cases h
  exact ⟨v, rfl, hR⟩

theorem follows_bind {f : α → Run σ β} {g : α → Run τ β} (hx : Follows R x y)
    (hf : ∀ a, Follows R (f a) (g a)) : Follows R (x >>= f) (y >>= g) := by
  intro w v b w' hR h
  obtain ⟨a, u, ha, hb⟩ := bind_eq_some.mp h
  obtain ⟨u', ha', hu⟩ := hx w v a u hR ha
  obtain ⟨v', hb', hv⟩ := hf a u u' b w' hu hb
  exact ⟨v', (bind_of_eq ha').trans hb', hv⟩

/-- What is certain of `x` is so of what follows it. -/
theorem Follows.yields {w : σ} {v : τ} {Post : α → σ → Prop} (h : Follows R x y) (hR : R w v)
    (hx : Yields x w Post) : Yields y v fun a v' => ∃ w', R w' v' ∧ Post a w' := by
  obtain ⟨a, w', ha, hpost⟩ := hx
  obtain ⟨v', hv, hR'⟩ := h w v a w' hR ha
  exact ⟨a, v', hv, w', hR', hpost⟩

end Run

theorem follows_loop {step : s → Run σ (s ⊕ r)} {step' : s → Run τ (s ⊕ r)}
    (h : ∀ x, Run.Follows R (step x) (step' x)) (x : s) :
    Run.Follows R (loop step x) (loop step' x) := by
  intro w v z w' hR hloop
  refine loop_induction (Q := fun x w z w' => ∀ v, R w v →
    ∃ v', loop step' x v = some (z, v') ∧ R w' v') ?_ ?_ hloop v hR
  · intro x w x' u z w' hs ih v hR
    obtain ⟨u', hs', hu⟩ := h x w v _ _ hR hs
    rw [loop_of_inl hs']
    exact ih u' hu
  · intro x w z w' hs v hR
    obtain ⟨v', hs', hv⟩ := h x w v _ _ hR hs
    exact ⟨v', loop_of_inr hs', hv⟩

namespace Host

variable {Answer : Q → Type} {P : Host Answer H} {I : H → Prop}

/-- A host whose states keep `I`, on those states alone. -/
def restrict (P : Host Answer H) (I : H → Prop) (hI : ∀ q e, I e → I (P.answer q e).2) :
    Host Answer {e // I e} where
  answer q e := ((P.answer q e.val).1, ⟨(P.answer q e.val).2, hI q e.val e.property⟩)

/-- The same run, the one of a host restricted to `I` and the other of the host itself. -/
def Forgets (w : Hosted Answer {e // I e}) (v : Hosted Answer H) : Prop :=
  v = ⟨w.env.val, w.trace⟩

theorem follows_restrict {hI : ∀ q e, I e → I (P.answer q e).2} (q : Q) :
    Run.Follows Forgets (ask (P.restrict I hI) q) (ask P q) := by
  rintro w _ a w' rfl h
  cases h
  exact ⟨_, rfl, rfl⟩

end Host
end Effect
