import P11Rand.Effect.View

/-! Workers that touch disjoint parts of the state: however their steps are interleaved, they do
what they would do one after another. -/
namespace Effect

section Diamond

variable {γ : Type} {ρ : γ → γ → Prop} {a b c : γ}

/-- Two different steps from one place can each be followed by a step to a common place. -/
def Diamond (ρ : γ → γ → Prop) : Prop :=
  ∀ a b c, ρ a b → ρ a c → b = c ∨ ∃ d, ρ b d ∧ ρ c d

/-- One way to end is enough for all ways to end. -/
theorem Diamond.acc_of_step (hd : Diamond ρ) (hb : Acc (flip ρ) b) (h : ρ a b) :
    Acc (flip ρ) a := by
  induction hb generalizing a with
  | intro b hb ih =>
    refine Acc.intro a fun c hc => ?_
    rcases hd a b c h hc with rfl | ⟨d, hbd, hcd⟩
    · exact Acc.intro b hb
    · exact ih d hbd hcd

theorem Diamond.acc (hd : Diamond ρ) (hend : ∀ c, ¬ ρ b c) (h : Relation.ReflTransGen ρ a b) :
    Acc (flip ρ) a := by
  induction h using Relation.ReflTransGen.head_induction_on with
  | refl => exact Acc.intro b fun c hc => (hend c hc).elim
  | head h _ ih => exact hd.acc_of_step ih h

theorem Diamond.end_unique (hd : Diamond ρ) (hb : ∀ d, ¬ ρ b d) (hc : ∀ d, ¬ ρ c d)
    (hab : Relation.ReflTransGen ρ a b) (hac : Relation.ReflTransGen ρ a c) : b = c := by
  have hcr : ∀ a b c, ρ a b → ρ a c →
      ∃ d, Relation.ReflGen ρ b d ∧ Relation.ReflTransGen ρ c d := by
    intro a b c hab hac
    rcases hd a b c hab hac with rfl | ⟨d, hbd, hcd⟩
    · exact ⟨b, .refl, .refl⟩
    · exact ⟨d, .single hbd, .single hcd⟩
  obtain ⟨d, hbd, hcd⟩ := Relation.church_rosser hcr hab hac
  rw [← (Relation.reflTransGen_iff_eq hb).mp hbd, (Relation.reflTransGen_iff_eq hc).mp hcd]

end Diamond

variable {σ κ S ρ α β s r : Type} {core : σ → (κ → S) × ρ} {D D' : Set κ} {w v w' : σ}

section Local

variable {x : Run σ α} {y : Run σ β} {f : α → Run σ β} {a : α} {b : β}

/-- `x` returns, what it returns and leaves in `D` depends on what was in `D` alone, and it changes
nothing else of the core. -/
structure Local (core : σ → (κ → S) × ρ) (D : Set κ) (x : Run σ α) : Prop where
  frame : ∀ w, Run.Yields x w fun _ w' =>
    Set.EqOn (core w').1 (core w).1 Dᶜ ∧ (core w').2 = (core w).2
  reads : ∀ w v a w', Set.EqOn (core w).1 (core v).1 D → x w = some (a, w') →
    ∃ v', x v = some (a, v') ∧ Set.EqOn (core w').1 (core v').1 D

theorem local_pure (a : α) : Local core D (pure a : Run σ α) := by
  refine ⟨fun w => Run.yields_pure ⟨fun _ _ => rfl, rfl⟩, ?_⟩
  intro w v a' w' hD h
  cases h
  exact ⟨v, rfl, hD⟩

theorem Local.framed (hx : Local core D x) (h : x w = some (a, w')) :
    Set.EqOn (core w').1 (core w).1 Dᶜ ∧ (core w').2 = (core w).2 :=
  (Run.yields_iff h).mp (hx.frame w)

theorem local_bind (hx : Local core D x) (hf : ∀ a, Local core D (f a)) :
    Local core D (x >>= f) := by
  constructor
  · intro w
    apply Run.yields_bind
    obtain ⟨a, u, ha, hout, hrest⟩ := hx.frame w
    obtain ⟨b, w', hb, hout', hrest'⟩ := (hf a).frame u
    exact ⟨a, u, ha, b, w', hb, hout'.trans hout, hrest'.trans hrest⟩
  · intro w v b w' hD h
    obtain ⟨a, u, ha, hb⟩ := Run.bind_eq_some.mp h
    obtain ⟨u', ha', hD'⟩ := hx.reads w v a u hD ha
    obtain ⟨v', hb', hD''⟩ := (hf a).reads u u' b w' hD' hb
    exact ⟨v', (Run.bind_of_eq ha').trans hb', hD''⟩

/-- The state as a whole is determined by a part and what is outside it. -/
theorem core_ext (hD : Set.EqOn (core w).1 (core v).1 D) (hout : Set.EqOn (core w).1 (core v).1 Dᶜ)
    (hrest : (core w).2 = (core v).2) : core w = core v := by
  refine Prod.ext (funext fun k => ?_) hrest
  by_cases hk : k ∈ D
  · exact hD hk
  · exact hout hk

theorem Local.sees (hx : Local core D x) : Run.Sees core x := by
  intro w v a w' hcore h
  obtain ⟨v', hv', hD⟩ := hx.reads w v a w' (fun k _ => by rw [hcore]) h
  obtain ⟨hout, hrest⟩ := hx.framed h
  obtain ⟨hout', hrest'⟩ := hx.framed hv'
  refine ⟨v', hv', core_ext hD (hout.trans ?_) ?_⟩
  · rw [hcore]
    exact hout'.symm
  · rw [hrest, hrest', hcore]

/-- What is done in one part and then in another can be done in the other order. -/
theorem Local.swap (hx : Local core D x) (hy : Local core D' y) (hdis : Disjoint D D')
    (hxw : x w = some (a, v)) (hyv : y v = some (b, w')) :
    ∃ v' u, y w = some (b, v') ∧ x v' = some (a, u) ∧ core u = core w' := by
  have hsub : D' ⊆ Dᶜ := Set.subset_compl_iff_disjoint_left.mpr hdis
  have hsub' : D ⊆ D'ᶜ := Set.subset_compl_iff_disjoint_right.mpr hdis
  obtain ⟨hv, hvr⟩ := hx.framed hxw
  obtain ⟨hw', hwr⟩ := hy.framed hyv
  obtain ⟨v', hyw, hD'⟩ := hy.reads v w b w' (hv.mono hsub) hyv
  obtain ⟨hv', hvr'⟩ := hy.framed hyw
  obtain ⟨u, hxv', hD⟩ := hx.reads w v' a v (hv'.mono hsub').symm hxw
  obtain ⟨hu, hur⟩ := hx.framed hxv'
  refine ⟨v', u, hyw, hxv', core_ext (D := D) ?_ ?_ ?_⟩
  · exact hD.symm.trans (hw'.mono hsub').symm
  · intro k hk
    by_cases hk' : k ∈ D'
    · exact (hu hk).trans (hD' hk').symm
    · exact (hu hk).trans ((hv' hk').trans ((hv hk).symm.trans (hw' hk').symm))
  · rw [hur, hvr', hwr, hvr]

end Local

section Workers

variable {step : s → Run σ (s ⊕ r)} {pick : Nat → Run σ Nat} {foot : s → Set κ} {x : s} {y : s ⊕ r}
  {z : r} {ws : List (s ⊕ r)} {zs : List r}

/-- What a worker has still to touch, it touched from the start. -/
structure Workers (core : σ → (κ → S) × ρ) (foot : s → Set κ) (step : s → Run σ (s ⊕ r)) :
    Prop where
  isLocal : ∀ x, Local core (foot x) (step x)
  keeps : ∀ x w x' w', step x w = some (.inl x', w') → foot x' ⊆ foot x

/-- No two workers still going touch the same part. -/
def Apart (foot : s → Set κ) (ws : List (s ⊕ r)) : Prop :=
  ∀ (i j : Nat) (x y : s), ws[i]? = some (.inl x) → ws[j]? = some (.inl y) → i ≠ j →
    Disjoint (foot x) (foot y)

theorem Apart.set (h : Apart foot ws) {i : Nat} (hi : ws[i]? = some (.inl x))
    (hy : ∀ x', y = .inl x' → foot x' ⊆ foot x) : Apart foot (ws.set i y) := by
  have hlt := (List.getElem?_eq_some_iff.mp hi).1
  have hget : ∀ (j : Nat) (b : s), (ws.set i y)[j]? = some (.inl b) →
      ∃ b', ws[j]? = some (.inl b') ∧ foot b ⊆ foot b' := by
    intro j b hb
    rcases eq_or_ne i j with rfl | hij
    · rw [List.getElem?_set_self hlt] at hb
      exact ⟨x, hi, hy b (Option.some.inj hb)⟩
    · rw [List.getElem?_set_ne hij] at hb
      exact ⟨b, hb, subset_rfl⟩
  intro j k b c hb hc hne
  obtain ⟨b', hb', hsub⟩ := hget j b hb
  obtain ⟨c', hc', hsub'⟩ := hget k c hc
  exact (h j k b' c' hb' hc' hne).mono hsub hsub'

/-- One of the workers takes a step. -/
def Moves (core : σ → (κ → S) × ρ) (foot : s → Set κ) (step : s → Run σ (s ⊕ r))
    (c c' : List (s ⊕ r) × (κ → S) × ρ) : Prop :=
  Apart foot c.1 ∧ ∃ i x w y w', c.1[i]? = some (.inl x) ∧ core w = c.2 ∧ step x w = some (y, w') ∧
    c' = (c.1.set i y, core w')

theorem Workers.diamond (hw : Workers core foot step) : Diamond (Moves core foot step) := by
  rintro ⟨ws, t⟩ _ _ ⟨hap, i, x, w, a, w₁, hi, hwt, hx, rfl⟩
    ⟨_, j, y, v, b, v₁, hj, hvt, hy, rfl⟩
  dsimp only at hap hi hj hwt hvt ⊢
  have hcore : core v = core w := hvt.trans hwt.symm
  rcases eq_or_ne i j with rfl | hij
  · left
    obtain rfl : y = x := Sum.inl.inj (Option.some.inj (hj.symm.trans hi))
    obtain ⟨u, hu, hu₁⟩ := (hw.isLocal y).sees v w b v₁ hcore hy
    rw [hu] at hx
    cases hx
    rw [hu₁]
  · right
    have hlt := (List.getElem?_eq_some_iff.mp hi).1
    have hlt' := (List.getElem?_eq_some_iff.mp hj).1
    obtain ⟨b', w₂, hy₁, _⟩ := (hw.isLocal y).frame w₁
    have hdis := hap i j x y hi hj hij
    obtain ⟨v', u, hyw, hxv', hu⟩ := (hw.isLocal x).swap (hw.isLocal y) hdis hx hy₁
    obtain ⟨v'', hyw', hv''⟩ := (hw.isLocal y).sees v w b v₁ hcore hy
    rw [hyw] at hyw'
    cases hyw'
    have hap₁ : Apart foot (ws.set i a) := hap.set hi fun x' ha => hw.keeps x w x' w₁ (ha ▸ hx)
    have hap₂ : Apart foot (ws.set j b) := hap.set hj fun y' hb => hw.keeps y v y' v₁ (hb ▸ hy)
    refine ⟨((ws.set i a).set j b, core w₂), ⟨hap₁, j, y, w₁, b, w₂, ?_, rfl, hy₁, rfl⟩,
      hap₂, i, x, v', a, u, ?_, hv''.symm, hxv', ?_⟩
    · rwa [List.getElem?_set_ne hij]
    · rwa [List.getElem?_set_ne hij.symm]
    · rw [List.set_comm _ _ hij, hu]

theorem finished_end (zs : List r) (t : (κ → S) × ρ) (c : List (s ⊕ r) × (κ → S) × ρ) :
    ¬ Moves core foot step (zs.map .inr, t) c := by
  rintro ⟨_, i, x, _, _, _, hi, _⟩
  simp at hi

/-- A turn is a move, or the workers have finished. -/
theorem turn_moves (hap : Apart foot ws)
    (hpick : ∀ n w, Run.Yields (pick n) w fun _ w' => core w' = core w)
    {a : List (s ⊕ r) ⊕ List r} (h : turn step pick ws w = some (a, w')) :
    (∃ zs, a = .inr zs ∧ ws = zs.map .inr ∧ w' = w) ∨
      ∃ ws', a = .inl ws' ∧ Moves core foot step (ws, core w) (ws', core w') := by
  rcases turn_cases h with hend | ⟨k, w₁, pre, x, y, post, hk, rfl, hs, rfl⟩
  · exact .inl hend
  · have hcore := (Run.yields_iff hk).mp (hpick _ w)
    exact .inr ⟨_, rfl, hap, pre.length, x, w₁, y, w', by simp, hcore, hs, by simp⟩

theorem Moves.apart (hw : Workers core foot step) {c c' : List (s ⊕ r) × (κ → S) × ρ}
    (h : Moves core foot step c c') : Apart foot c'.1 := by
  obtain ⟨hap, i, x, w, y, w', hi, _, hs, rfl⟩ := h
  exact hap.set hi fun x' hy => hw.keeps x w x' w' (hy ▸ hs)

theorem interleave_moves (hw : Workers core foot step)
    (hpick : ∀ n w, Run.Yields (pick n) w fun _ w' => core w' = core w) (hap : Apart foot ws)
    (h : interleave step pick ws w = some (zs, w')) :
    Relation.ReflTransGen (Moves core foot step) (ws, core w) (zs.map .inr, core w') := by
  refine loop_induction (Q := fun ws w zs w' => Apart foot ws →
    Relation.ReflTransGen (Moves core foot step) (ws, core w) (zs.map .inr, core w')) ?_ ?_ h hap
  · intro ws w ws' v zs w' hturn ih hap
    rcases turn_moves hap hpick hturn with ⟨_, ha, _⟩ | ⟨_, ha, hm⟩
    · cases ha
    · cases ha
      exact .head hm (ih (hm.apart hw))
  · intro ws w zs w' hturn hap
    rcases turn_moves hap hpick hturn with ⟨_, ha, rfl, rfl⟩ | ⟨_, ha, _⟩
    · cases ha
      exact .refl
    · cases ha

theorem interleave_of_acc (hw : Workers core foot step)
    (hpick : ∀ n w, Run.Yields (pick n) w fun _ w' => core w' = core w) (hap : Apart foot ws)
    {t : (κ → S) × ρ} (ht : core w = t) (hacc : Acc (flip (Moves core foot step)) (ws, t)) :
    ∃ p, interleave step pick ws w = some p := by
  generalize hc : (ws, t) = c at hacc
  induction hacc generalizing ws t w with
  | intro c _ ih =>
    subst hc ht
    cases hfin : finished ws with
    | some zs => exact ⟨_, interleave_of_finished hfin⟩
    | none =>
      obtain ⟨k, w₁, hk, hcore⟩ := hpick (running ws) w
      obtain ⟨⟨pre, x, post⟩, hfoc⟩ := focus_of_lt (Nat.mod_lt k (running_pos hfin))
      obtain ⟨y, w₂, hs, _⟩ := (hw.isLocal x).frame w₁
      have hm : Moves core foot step (ws, core w) (pre ++ y :: post, core w₂) := by
        rw [focus_eq_some hfoc] at hap ⊢
        exact ⟨hap, pre.length, x, w₁, y, w₂, by simp, hcore, hs, by simp⟩
      rw [interleave_step hfin hk hfoc hs]
      exact ih _ hm (hm.apart hw) rfl rfl

/-- The choices of the scheduler do not show in the outcome. -/
theorem interleave_unordered (hw : Workers core foot step) {pick' : Nat → Run σ Nat}
    (hpick : ∀ n w, Run.Yields (pick n) w fun _ w' => core w' = core w)
    (hpick' : ∀ n w, Run.Yields (pick' n) w fun _ w' => core w' = core w) (hap : Apart foot ws)
    (hcore : core w = core v) (h : interleave step pick ws w = some (zs, w')) :
    ∃ v', interleave step pick' ws v = some (zs, v') ∧ core w' = core v' := by
  have hmoves := interleave_moves hw hpick hap h
  have hacc := hw.diamond.acc (finished_end zs _) hmoves
  obtain ⟨⟨zs', v'⟩, hv⟩ := interleave_of_acc hw hpick' hap hcore.symm hacc
  have hmoves' := interleave_moves hw hpick' hap hv
  rw [← hcore] at hmoves'
  have hend := hw.diamond.end_unique (finished_end zs _) (finished_end zs' _) hmoves hmoves'
  obtain ⟨hzs, hw'⟩ := Prod.mk.inj hend
  obtain rfl : zs = zs' := List.map_injective_iff.mpr Sum.inr_injective hzs
  exact ⟨v', hv, hw'⟩

end Workers

section InOrder

variable {step : s → Run σ (s ⊕ r)} {x : s} {y : s ⊕ r} {z : r} {ws : List (s ⊕ r)} {zs : List r}

/-- Each worker finishes before the next one starts. -/
def inOrder (step : s → Run σ (s ⊕ r)) : List (s ⊕ r) → Run σ (List r)
  | [] => return []
  | .inr z :: ws => do return z :: (← inOrder step ws)
  | .inl x :: ws => do
    let z ← loop step x
    return z :: (← inOrder step ws)

/-- The scheduler that always takes the first worker still going. -/
def firstly (_ : Nat) : Run σ Nat := pure 0

theorem turn_firstly (hfin : finished ws = none) : turn step firstly ws w =
    (focus ws 0).bind fun p => (step p.2.1 w).map fun q => (.inl (p.1 ++ q.1 :: p.2.2), q.2) := by
  have hpick : firstly (running ws) w = some (0, w) := rfl
  rw [turn, hfin]
  dsimp only
  rw [Run.bind_of_eq hpick, Nat.zero_mod]
  cases focus ws 0 with
  | none => rfl
  | some p => cases h : step p.2.1 w <;> simp [Run.bind_apply, h]

theorem interleave_firstly_inr : interleave step firstly (.inr z :: ws) w =
    (interleave step firstly ws w).map fun p => (z :: p.1, p.2) := by
  refine loop_map_eq (List.cons (Sum.inr z)) (List.cons z) fun ws w => ?_
  cases hfin : finished ws with
  | some zs =>
    have hfin' : finished (.inr z :: ws) = some (z :: zs) := by simp [finished, hfin]
    rw [turn_of_finished hfin, turn_of_finished hfin']
    rfl
  | none =>
    have hfin' : finished (.inr z :: ws) = none := by simp [finished, hfin]
    rw [turn_firstly hfin, turn_firstly hfin', focus]
    cases focus ws 0 with
    | none => rfl
    | some p => cases h : step p.2.1 w <;> simp [h]

theorem turn_firstly_inl : turn step firstly (.inl x :: ws) w =
    (step x w).map fun q => (.inl (q.1 :: ws), q.2) := turn_firstly rfl

theorem interleave_firstly_inl (h : loop step x w = some (z, v)) :
    interleave step firstly (.inl x :: ws) w = interleave step firstly (.inr z :: ws) v := by
  refine loop_induction (Q := fun x w z v =>
    interleave step firstly (.inl x :: ws) w = interleave step firstly (.inr z :: ws) v) ?_ ?_ h
  · intro x w x' u z v hs ih
    have hturn : turn step firstly (.inl x :: ws) w = some (.inl (.inl x' :: ws), u) := by
      rw [turn_firstly_inl, hs]
      rfl
    rw [interleave, loop_of_inl hturn]
    exact ih
  · intro x w z v hs
    have hturn : turn step firstly (.inl x :: ws) w = some (.inl (.inr z :: ws), v) := by
      rw [turn_firstly_inl, hs]
      rfl
    rw [interleave, loop_of_inl hturn]

theorem loop_of_interleave_firstly
    (h : interleave step firstly (.inl x :: ws) w = some (zs, w')) :
    ∃ p, loop step x w = some p := by
  refine loop_induction (Q := fun us w _ _ => ∀ x, us = .inl x :: ws → ∃ p, loop step x w = some p)
    ?_ ?_ h x rfl
  · rintro _ w us v zs w' hturn ih x rfl
    rw [turn_firstly_inl] at hturn
    obtain ⟨⟨y, u⟩, hs, heq⟩ := Option.map_eq_some_iff.mp hturn
    cases heq
    cases y with
    | inl x' =>
      rw [loop_of_inl hs]
      exact ih x' rfl
    | inr z => exact ⟨_, loop_of_inr hs⟩
  · rintro _ w zs w' hturn x rfl
    rw [turn_firstly_inl] at hturn
    obtain ⟨_, _, heq⟩ := Option.map_eq_some_iff.mp hturn
    cases heq

theorem inOrder_eq (ws : List (s ⊕ r)) (w : σ) :
    inOrder step ws w = interleave step firstly ws w := by
  induction ws generalizing w with
  | nil => exact (interleave_of_finished rfl).symm
  | cons y ws ih =>
    cases y with
    | inr z =>
      rw [interleave_firstly_inr, ← ih, inOrder, Run.bind_apply]
      cases inOrder step ws w <;> rfl
    | inl x =>
      cases hl : loop step x w with
      | some p =>
        rw [interleave_firstly_inl hl, interleave_firstly_inr, ← ih, inOrder, Run.bind_of_eq hl,
          Run.bind_apply]
        cases inOrder step ws p.2 <;> rfl
      | none =>
        have hnone : inOrder step (.inl x :: ws) w = none := by
          rw [inOrder, Run.bind_apply, hl]
          rfl
        rw [hnone]
        cases hi : interleave step firstly (.inl x :: ws) w with
        | none => rfl
        | some q =>
          obtain ⟨p, hp⟩ := loop_of_interleave_firstly hi
          rw [hl] at hp
          cases hp

end InOrder

/-- Workers that touch disjoint parts do, under any scheduler, what they do in order. -/
theorem interleave_inOrder {core : σ → (κ → S) × ρ} {foot : s → Set κ} {step : s → Run σ (s ⊕ r)}
    {pick : Nat → Run σ Nat} {ws : List (s ⊕ r)} (hw : Workers core foot step)
    (hpick : ∀ n w, Run.Yields (pick n) w fun _ w' => core w' = core w) (hap : Apart foot ws) :
    Run.Agrees core (interleave step pick ws) (inOrder step ws) := by
  have hfirst : ∀ n (w : σ), Run.Yields (firstly n) w fun _ w' => core w' = core w :=
    fun n w => Run.yields_pure rfl
  refine Run.agrees_of_follow (fun w v zs w' hcore h => ?_) fun w v zs v' hcore h => ?_
  · rw [inOrder_eq]
    exact interleave_unordered hw hpick hfirst hap hcore h
  · rw [inOrder_eq] at h
    obtain ⟨w', hw', _⟩ := interleave_unordered hw hfirst hpick hap hcore.symm h
    exact ⟨_, hw'⟩

end Effect
