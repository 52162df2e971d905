import P11Rand.Effect.Loop

/-! Computations that depend on a part of the state alone. -/
namespace Effect

variable {σ τ s r α β : Type} {core : σ → τ} {w v w' : σ}

namespace Run

variable {x : Run σ α} {f : α → Run σ β}

/-- From states with the same core, `x` returns the same and leaves states with the same core. -/
def Sees (core : σ → τ) (x : Run σ α) : Prop :=
  ∀ w v a w', core w = core v → x w = some (a, w') →
    ∃ v', x v = some (a, v') ∧ core w' = core v'

theorem sees_pure (a : α) : Sees core (pure a : Run σ α) := by
  intro w v a' w' hcore h
  cases h
  exact ⟨v, rfl, hcore⟩

theorem sees_stuck : Sees core (stuck : Run σ α) := by
  intro w v a w' _ h
  cases h

/-- The rest of a sequence need only be followed from what its first part can return. -/
theorem sees_bind_of (hx : Sees core x) (hf : ∀ a w w', x w = some (a, w') → Sees core (f a)) :
    Sees core (x >>= f) := by
  intro w v b w' hcore h
  obtain ⟨a, u, ha, hb⟩ := bind_eq_some.mp h
  obtain ⟨u', ha', hu⟩ := hx w v a u hcore ha
  obtain ⟨v', hb', hv⟩ := hf a w u ha u u' b w' hu hb
  exact ⟨v', (bind_of_eq ha').trans hb', hv⟩

theorem sees_bind (hx : Sees core x) (hf : ∀ a, Sees core (f a)) : Sees core (x >>= f) :=
  sees_bind_of hx fun a _ _ _ => hf a

theorem sees_modify {g : σ → σ} (hg : ∀ w v, core w = core v → core (g w) = core (g v)) :
    Sees core (modify g) := by
  intro w v a w' hcore h
  cases h
  exact ⟨g v, rfl, hg w v hcore⟩

/-- From states with the same core, `x` and `y` do the same, up to the core. -/
def Agrees (core : σ → τ) (x y : Run σ α) : Prop :=
  ∀ w v, core w = core v → (x w).map (Prod.map id core) = (y v).map (Prod.map id core)

section Agrees

variable {y : Run σ α} {g : α → Run σ β} {a : α}

theorem Agrees.symm (h : Agrees core x y) : Agrees core y x :=
  fun w v hcore => (h v w hcore.symm).symm

theorem Agrees.follow (h : Agrees core x y) (hcore : core w = core v) (hx : x w = some (a, w')) :
    ∃ v', y v = some (a, v') ∧ core w' = core v' := by
  have heq := h w v hcore
  rw [hx] at heq
  obtain ⟨⟨b, v'⟩, hv, hp⟩ := Option.map_eq_some_iff.mp heq.symm
  obtain ⟨rfl, hcore'⟩ := Prod.mk.inj hp
  exact ⟨v', hv, hcore'.symm⟩

/-- It is enough that each follows the other. -/
theorem agrees_of_follow
    (h : ∀ w v a w', core w = core v → x w = some (a, w') →
      ∃ v', y v = some (a, v') ∧ core w' = core v')
    (h' : ∀ w v a v', core w = core v → y v = some (a, v') → ∃ p, x w = some p) :
    Agrees core x y := by
  intro w v hcore
  cases hx : x w with
  | some p =>
    obtain ⟨v', hv, hcore'⟩ := h w v p.1 p.2 hcore hx
    rw [hv]
    exact congrArg (fun t => some (p.1, t)) hcore'
  | none =>
    cases hy : y v with
    | none => rfl
    | some q =>
      obtain ⟨p, hp⟩ := h' w v q.1 q.2 hcore hy
      rw [hx] at hp
      cases hp

theorem Sees.agrees (hx : Sees core x) : Agrees core x x := by
  refine agrees_of_follow hx fun w v a v' hcore h => ?_
  obtain ⟨w', hw, _⟩ := hx v w a v' hcore.symm h
  exact ⟨_, hw⟩

/-- The rest need only agree after what the first part can return. -/
theorem agrees_bind_of (hxy : Agrees core x y)
    (hfg : ∀ a w w', x w = some (a, w') → Agrees core (f a) (g a)) :
    Agrees core (x >>= f) (y >>= g) := by
  refine agrees_of_follow (fun w v b w' hcore h => ?_) fun w v b v' hcore h => ?_
  · obtain ⟨a, u, ha, hb⟩ := bind_eq_some.mp h
    obtain ⟨u', ha', hu⟩ := hxy.follow hcore ha
    obtain ⟨v', hb', hv⟩ := (hfg a w u ha).follow hu hb
    exact ⟨v', (bind_of_eq ha').trans hb', hv⟩
  · obtain ⟨a, u', ha', hb'⟩ := bind_eq_some.mp h
    obtain ⟨u, ha, hu⟩ := hxy.symm.follow hcore.symm ha'
    obtain ⟨w', hb, _⟩ := (hfg a w u ha).symm.follow hu hb'
    exact ⟨_, (bind_of_eq ha).trans hb⟩

theorem agrees_bind (hxy : Agrees core x y) (hfg : ∀ a, Agrees core (f a) (g a)) :
    Agrees core (x >>= f) (y >>= g) := agrees_bind_of hxy fun a _ _ _ => hfg a

end Agrees

end Run

variable {step : s → Run σ (s ⊕ r)} {pick : Nat → Run σ Nat}

theorem sees_loop (hstep : ∀ x, Run.Sees core (step x)) (x : s) : Run.Sees core (loop step x) := by
  intro w v z w' hcore h
  refine loop_induction (Q := fun x w z w' => ∀ v, core w = core v →
    ∃ v', loop step x v = some (z, v') ∧ core w' = core v') ?_ ?_ h v hcore
  · intro x w x' u z w' hs ih v hcore
    obtain ⟨u', hs', hu⟩ := hstep x w v _ _ hcore hs
    rw [loop_of_inl hs']
    exact ih u' hu
  · intro x w z w' hs v hcore
    obtain ⟨v', hs', hv⟩ := hstep x w v _ _ hcore hs
    exact ⟨v', loop_of_inr hs', hv⟩

theorem sees_turn (hstep : ∀ x, Run.Sees core (step x)) (hpick : ∀ n, Run.Sees core (pick n))
    (ws : List (s ⊕ r)) : Run.Sees core (turn step pick ws) := by
  unfold turn
  cases finished ws with
  | some zs => exact Run.sees_pure _
  | none =>
    apply Run.sees_bind (hpick _)
    intro k
    cases focus ws (k % running ws) with
    | none => exact Run.sees_stuck
    | some p => exact Run.sees_bind (hstep _) fun _ => Run.sees_pure _

theorem sees_interleave (hstep : ∀ x, Run.Sees core (step x))
    (hpick : ∀ n, Run.Sees core (pick n)) (ws : List (s ⊕ r)) :
    Run.Sees core (interleave step pick ws) := sees_loop (sees_turn hstep hpick) ws

end Effect
