import Mathlib
import P11Rand.Effect.Run

/-! Loops over `Run`, alone and interleaved, and what each loop sees of the others. -/
namespace Effect

variable {σ s r s' r' : Type} {R idle : σ → σ → Prop} {step : s → Run σ (s ⊕ r)}
  {pick : Nat → Run σ Nat} {w w' v : σ} {x : s} {y : s ⊕ r} {z : r}
  {ws : List (s ⊕ r)} {zs : List r}

/-- Go on from what `x` returns with `step` until one of them finishes. -/
def Run.drive (x : Run σ (s ⊕ r)) (step : s → Run σ (s ⊕ r)) (w : σ) : Option (r × σ) :=
  match x w with
  | none => none
  | some (.inl y, w') => step y |>.drive step w'
  | some (.inr z, w') => some (z, w')
partial_fixpoint

/-- Repeat `step` until it finishes. -/
def loop (step : s → Run σ (s ⊕ r)) (x : s) : Run σ r := (step x).drive step

/-- The results of a list of workers that have all finished. -/
def finished : List (s ⊕ r) → Option (List r)
  | [] => some []
  | .inl _ :: _ => none
  | .inr z :: ws => (finished ws).map (z :: ·)

/-- How many workers are still going. -/
def running (ws : List (s ⊕ r)) : Nat := ws.countP Sum.isLeft

/-- The `k`-th worker still going, with the workers before and after it. -/
def focus : List (s ⊕ r) → Nat → Option (List (s ⊕ r) × s × List (s ⊕ r))
  | [], _ => none
  | .inl x :: ws, 0 => some ([], x, ws)
  | .inl x :: ws, k + 1 => (focus ws k).map fun p => (.inl x :: p.1, p.2)
  | .inr z :: ws, k => (focus ws k).map fun p => (.inr z :: p.1, p.2)

/-- One turn of the workers: the one that `pick` names takes a step, unless all have finished. -/
def turn (step : s → Run σ (s ⊕ r)) (pick : Nat → Run σ Nat) (ws : List (s ⊕ r)) :
    Run σ (List (s ⊕ r) ⊕ List r) :=
  match finished ws with
  | some zs => return .inr zs
  | none => do
    let k ← pick (running ws)
    match focus ws (k % running ws) with
    | none => Run.stuck
    | some (pre, x, post) => do
      let y ← step x
      return .inl (pre ++ y :: post)

/-- Run the workers to completion. -/
def interleave (step : s → Run σ (s ⊕ r)) (pick : Nat → Run σ Nat) :
    List (s ⊕ r) → Run σ (List r) := loop (turn step pick)

/-- A run of one worker as the worker sees it: between its own steps the state moves by `R`. -/
inductive Thread (R : σ → σ → Prop) (step : s → Run σ (s ⊕ r)) : s ⊕ r → σ → s ⊕ r → σ → Prop
  | idle {a : s ⊕ r} {w w' : σ} : R w w' → Thread R step a w a w'
  | step {x : s} {a b : s ⊕ r} {w w₁ w₂ w₃ : σ} : R w w₁ → step x w₁ = some (a, w₂) →
      Thread R step a w₂ b w₃ → Thread R step (.inl x) w b w₃

theorem Thread.before [IsPreorder σ R] {a c : s ⊕ r} (hR : R v w) (h : Thread R step a w c w') :
    Thread R step a v c w' := by
  cases h with
  | idle h => exact .idle (IsTrans.trans _ _ _ hR h)
  | step h hs ht => exact .step (IsTrans.trans _ _ _ hR h) hs ht

/-- What interference and every step of the worker keep, the whole run keeps. -/
theorem Thread.invariant {I : s ⊕ r → σ → Prop} (hR : ∀ a w w', I a w → R w w' → I a w')
    (hstep : ∀ x w y w', I (.inl x) w → step x w = some (y, w') → I y w')
    {a c : s ⊕ r} (h : Thread R step a w c w') (ha : I a w) : I c w' := by
  induction h with
  | idle h => exact hR _ _ _ ha h
  | step h hs _ ih => exact ih (hstep _ _ _ _ (hR _ _ _ ha h) hs)

/-- The same for a worker that runs alone. -/
theorem Thread.keeps {I : s ⊕ r → σ → Prop} {a c : s ⊕ r} (h : Thread Eq step a w c w')
    (ha : I a w) (hstep : ∀ x w y w', I (.inl x) w → step x w = some (y, w') → I y w') :
    I c w' := by
  refine h.invariant ?_ hstep ha
  rintro a w w' hI rfl
  exact hI

theorem Thread.within [IsPreorder σ R] (hstep : ∀ x, Run.Within R (step x)) {a c : s ⊕ r}
    (h : Thread R step a w c w') : R w w' := by
  induction h with
  | idle h => exact h
  | step h hs _ ih => exact IsTrans.trans _ _ _ h (IsTrans.trans _ _ _ (hstep _ _ _ _ hs) ih)

theorem loop_of_inl {x' : s} (h : step x w = some (.inl x', w')) :
    loop step x w = loop step x' w' := by
  rw [loop, Run.drive, h]
  rfl

theorem loop_of_inr (h : step x w = some (.inr z, w')) : loop step x w = some (z, w') := by
  rw [loop, Run.drive, h]

/-- Induction along a loop that returns, from its last step back. -/
theorem loop_induction {Q : s → σ → r → σ → Prop}
    (hl : ∀ x w x' v z w', step x w = some (.inl x', v) → Q x' v z w' → Q x w z w')
    (hr : ∀ x w z w', step x w = some (.inr z, w') → Q x w z w')
    (h : loop step x w = some (z, w')) : Q x w z w' := by
  refine Run.drive.partial_correctness step
    (fun run w p => ∀ x, run w = step x w → Q x w p.1 p.2) ?_ (step x) w (z, w') h x rfl
  intro drive ih run w p hp x hx
  cases hs : step x w with
  | none => simp [hx, hs] at hp
  | some q =>
    rw [hx, hs] at hp
    obtain ⟨x' | z', v⟩ := q
    · exact hl _ _ _ _ _ _ hs (ih _ _ _ hp x' rfl)
    · simp only [Option.some.injEq] at hp
      subst hp
      exact hr _ _ _ _ hs

/-- A loop that returns is a run of one worker that nothing interferes with. -/
theorem loop_thread [Std.Refl R] (h : loop step x w = some (z, w')) :
    Thread R step (.inl x) w (.inr z) w' := by
  refine loop_induction (Q := fun x w z w' => Thread R step (.inl x) w (.inr z) w') ?_ ?_ h
  · intro x w x' v z w' hs ht
    exact .step (Std.Refl.refl w) hs ht
  · intro x w z w' hs
    exact .step (Std.Refl.refl w) hs (.idle (Std.Refl.refl w'))

/-- What a step keeps, the loop keeps. -/
theorem loop_keeps (I : s ⊕ r → σ → Prop) (h : loop step x w = some (z, w')) (hx : I (.inl x) w)
    (hstep : ∀ x w y w', I (.inl x) w → step x w = some (y, w') → I y w') : I (.inr z) w' :=
  (loop_thread (R := Eq) h).keeps hx hstep

/-- Loops with corresponding steps return corresponding results. -/
theorem loop_map {step' : s' → Run σ (s' ⊕ r')} (f : s → s') (g : r → r')
    (hstep : ∀ x w, step' (f x) w = (step x w).map fun p => (p.1.map f g, p.2))
    (h : loop step x w = some (z, w')) : loop step' (f x) w = some (g z, w') := by
  refine loop_induction (Q := fun x w z w' => loop step' (f x) w = some (g z, w')) ?_ ?_ h
  · intro x w x' v z w' hs ih
    rw [loop_of_inl ((hstep x w).trans (congrArg _ hs))]
    exact ih
  · intro x w z w' hs
    exact loop_of_inr ((hstep x w).trans (congrArg _ hs))

theorem loop_of_map {step' : s' → Run σ (s' ⊕ r')} (f : s → s') (g : r → r') {z' : r'}
    (hstep : ∀ x w, step' (f x) w = (step x w).map fun p => (p.1.map f g, p.2))
    (h : loop step' (f x) w = some (z', w')) : ∃ z, loop step x w = some (z, w') ∧ z' = g z := by
  refine loop_induction (Q := fun y w z' w' => ∀ x, y = f x →
    ∃ z, loop step x w = some (z, w') ∧ z' = g z) ?_ ?_ h x rfl
  · rintro _ w y v z' w' hs ih x rfl
    obtain ⟨⟨x' | z, u⟩, hs', heq⟩ := Option.map_eq_some_iff.mp ((hstep x w).symm.trans hs)
    · cases heq
      rw [loop_of_inl hs']
      exact ih x' rfl
    · cases heq
  · rintro _ w z' w' hs x rfl
    obtain ⟨⟨x' | z, u⟩, hs', heq⟩ := Option.map_eq_some_iff.mp ((hstep x w).symm.trans hs)
    · cases heq
    · cases heq
      exact ⟨z, loop_of_inr hs', rfl⟩

/-- A loop whose steps are those of another under two maps is that loop under the maps. -/
theorem loop_map_eq {step' : s' → Run σ (s' ⊕ r')} (f : s → s') (g : r → r')
    (hstep : ∀ x w, step' (f x) w = (step x w).map fun p => (p.1.map f g, p.2)) :
    loop step' (f x) w = (loop step x w).map fun p => (g p.1, p.2) := by
  cases h : loop step x w with
  | some p => exact loop_map f g hstep h
  | none =>
    cases h' : loop step' (f x) w with
    | none => rfl
    | some p =>
      obtain ⟨z, hz, _⟩ := loop_of_map f g hstep h'
      rw [h] at hz
      cases hz

theorem finished_eq_some : finished ws = some zs ↔ ws = zs.map .inr := by
  induction ws generalizing zs with
  | nil => cases zs <;> simp [finished]
  | cons y ws ih =>
    rcases y with x | z
    · cases zs <;> simp [finished]
    · cases zs <;> simp [finished, ih]
      exact and_comm

theorem running_pos (h : finished ws = none) : 0 < running ws := by
  induction ws with
  | nil => simp [finished] at h
  | cons y ws ih =>
    rcases y with x | z
    · simp [running]
    · simpa [running] using ih (by simpa [finished] using h)

theorem focus_eq_some {k : Nat} {pre post : List (s ⊕ r)} (h : focus ws k = some (pre, x, post)) :
    ws = pre ++ .inl x :: post := by
  induction ws generalizing k pre with
  | nil => simp [focus] at h
  | cons y ws ih =>
    rcases y with a | z
    · cases k with
      | zero =>
        simp only [focus, Option.some.injEq, Prod.mk.injEq] at h
        obtain ⟨rfl, rfl, rfl⟩ := h
        rfl
      | succ k =>
        simp only [focus, Option.map_eq_some_iff, Prod.exists, Prod.mk.injEq] at h
        obtain ⟨p, a', q, hf, rfl, rfl, rfl⟩ := h
        simpa using ih hf
    · simp only [focus, Option.map_eq_some_iff, Prod.exists, Prod.mk.injEq] at h
      obtain ⟨p, a', q, hf, rfl, rfl, rfl⟩ := h
      simpa using ih hf

theorem focus_of_lt {k : Nat} (h : k < running ws) : ∃ p, focus ws k = some p := by
  induction ws generalizing k with
  | nil => simp [running] at h
  | cons y ws ih =>
    rcases y with a | z
    · cases k with
      | zero => exact ⟨_, rfl⟩
      | succ k =>
        obtain ⟨p, hp⟩ := ih (by simpa [running, List.countP_cons] using h : k < running ws)
        simp [focus, hp]
    · obtain ⟨p, hp⟩ := ih (by simpa [running] using h : k < running ws)
      simp [focus, hp]

theorem turn_of_finished (h : finished ws = some zs) : turn step pick ws w = some (.inr zs, w) := by
  simp [turn, h]

theorem turn_of_step {k : Nat} {w₁ w₂ : σ} {pre post : List (s ⊕ r)}
    (hfin : finished ws = none) (hpick : pick (running ws) w = some (k, w₁))
    (hfoc : focus ws (k % running ws) = some (pre, x, post)) (hs : step x w₁ = some (y, w₂)) :
    turn step pick ws w = some (.inl (pre ++ y :: post), w₂) := by
  rw [turn, hfin]
  dsimp only
  rw [Run.bind_of_eq hpick, hfoc]
  exact Run.bind_of_eq hs

/-- A turn that returns found all workers finished, or one of them took a step. -/
theorem turn_cases {a : List (s ⊕ r) ⊕ List r} (h : turn step pick ws w = some (a, w')) :
    (∃ zs, a = .inr zs ∧ ws = zs.map .inr ∧ w' = w) ∨
      ∃ k w₁ pre x y post, pick (running ws) w = some (k, w₁) ∧ ws = pre ++ .inl x :: post ∧
        step x w₁ = some (y, w') ∧ a = .inl (pre ++ y :: post) := by
  unfold turn at h
  cases hfin : finished ws with
  | some zs =>
    rw [hfin] at h
    cases h
    exact .inl ⟨zs, rfl, finished_eq_some.mp hfin, rfl⟩
  | none =>
    rw [hfin] at h
    obtain ⟨k, w₁, hk, h⟩ := Run.bind_eq_some.mp h
    cases hfoc : focus ws (k % running ws) with
    | none => simp [hfoc] at h
    | some q =>
      obtain ⟨pre, x, post⟩ := q
      rw [hfoc] at h
      obtain ⟨y, w₂, hs, h⟩ := Run.bind_eq_some.mp h
      cases h
      exact .inr ⟨k, w₁, pre, x, y, post, hk, focus_eq_some hfoc, hs, rfl⟩

theorem interleave_of_finished (h : finished ws = some zs) :
    interleave step pick ws w = some (zs, w) := loop_of_inr (turn_of_finished h)

theorem interleave_step {k : Nat} {w₁ w₂ : σ} {pre post : List (s ⊕ r)}
    (hfin : finished ws = none) (hpick : pick (running ws) w = some (k, w₁))
    (hfoc : focus ws (k % running ws) = some (pre, x, post)) (hs : step x w₁ = some (y, w₂)) :
    interleave step pick ws w = interleave step pick (pre ++ y :: post) w₂ :=
  loop_of_inl (turn_of_step hfin hpick hfoc hs)

/-- A pointwise relation survives the replacement of one element. -/
theorem forall₂_replace {P Q : s ⊕ r → r → Prop} {pre post : List (s ⊕ r)} {a b : s ⊕ r}
    (hPQ : ∀ c z, P c z → Q c z) (hb : ∀ z, P a z → Q b z)
    (h : List.Forall₂ P (pre ++ a :: post) zs) : List.Forall₂ Q (pre ++ b :: post) zs := by
  induction pre generalizing zs with
  | nil =>
    rcases h with _ | ⟨ha, hpost⟩
    exact .cons (hb _ ha) (hpost.imp hPQ)
  | cons c pre ih =>
    rcases h with _ | ⟨hc, hrest⟩
    exact .cons (hPQ _ _ hc) (ih hrest)

/-- Rely/guarantee: when every step and every choice moves the state by `R`, each worker's
result is that of a run of its own under interference `R`. -/
theorem interleave_thread [IsPreorder σ R] (hstep : ∀ x, Run.Within R (step x))
    (hpick : ∀ n, Run.Within R (pick n)) (h : interleave step pick ws w = some (zs, w')) :
    R w w' ∧ List.Forall₂ (fun a z => Thread R step a w (.inr z) w') ws zs := by
  refine loop_induction (Q := fun ws w zs w' =>
    R w w' ∧ List.Forall₂ (fun a z => Thread R step a w (.inr z) w') ws zs) ?_ ?_ h
  · intro ws w ws' v zs w' hturn ih
    rcases turn_cases hturn with ⟨_, ha, _⟩ | ⟨k, w₁, pre, x, y, post, hk, rfl, hs, ha⟩
    · cases ha
    · cases ha
      obtain ⟨hR, hall⟩ := ih
      have h₁ : R w w₁ := hpick _ _ _ _ hk
      have h₂ : R w v := IsTrans.trans _ _ _ h₁ (hstep _ _ _ _ hs)
      refine ⟨IsTrans.trans _ _ _ h₂ hR, ?_⟩
      -- only the picked worker moved; the others saw its step as interference
      exact forall₂_replace (fun _ _ ht => ht.before h₂) (fun _ ht => .step h₁ hs ht) hall
  · intro ws w zs w' hturn
    rcases turn_cases hturn with ⟨_, ha, rfl, rfl⟩ | ⟨_, _, _, _, _, _, _, _, _, ha⟩
    · cases ha
      refine ⟨Std.Refl.refl _, ?_⟩
      rw [List.forall₂_map_left_iff]
      exact List.forall₂_same.mpr fun z _ => .idle (Std.Refl.refl _)
    · cases ha

section Progress

variable {μ : s → Nat}

/-- Each step returns and either brings its worker nearer to the end or is an `idle` move. -/
def Progress (R idle : σ → σ → Prop) (μ : s → Nat) (step : s → Run σ (s ⊕ r)) : Prop :=
  ∀ x w, Run.Yields (step x) w fun a w' =>
    R w w' ∧ ∀ x', a = .inl x' → μ x' < μ x ∨ μ x' ≤ μ x ∧ idle w' w

/-- Induction along runs that never idle for ever. -/
theorem progress_induction {T : Type} [IsPreorder σ R] {P : T → σ → Prop} (μ : T → Nat)
    (hP : ∀ x w, (∀ x' w', R w w' → (μ x' < μ x ∨ μ x' ≤ μ x ∧ idle w' w) → P x' w') → P x w)
    (x : T) (w : σ) (hacc : ∀ w', R w w' → Acc idle w') : P x w := by
  induction hn : μ x using Nat.strongRecOn generalizing x w with
  | _ n ihn =>
    have hw : Acc idle w := hacc w (Std.Refl.refl w)
    induction hw generalizing x with
    | intro w _ ihw =>
      apply hP
      rintro x' w' hR hlt
      have hacc' : ∀ v, R w' v → Acc idle v := fun v hv => hacc v (IsTrans.trans _ _ _ hR hv)
      by_cases hx : μ x' < μ x
      · exact ihn (μ x') (hn ▸ hx) x' w' hacc' rfl
      · obtain ⟨hle, hidle⟩ := hlt.resolve_left hx
        exact ihw w' hidle x' hacc' (by omega)

theorem loop_returns [IsPreorder σ R] (hstep : Progress R idle μ step) (x : s) (w : σ)
    (hacc : ∀ w', R w w' → Acc idle w') : ∃ p, loop step x w = some p := by
  refine progress_induction (R := R) (P := fun x w => ∃ p, loop step x w = some p) μ ?_ x w hacc
  intro x w ih
  obtain ⟨a, w', hs, hR, hm⟩ := hstep x w
  rcases a with x' | z
  · rw [loop_of_inl hs]
    exact ih x' w' hR (hm x' rfl)
  · exact ⟨_, loop_of_inr hs⟩

/-- The work left in a list of workers. -/
def load (μ : s → Nat) (ws : List (s ⊕ r)) : Nat :=
  (ws.map (Sum.elim (fun x => μ x + 1) fun _ => 0)).sum

theorem load_replace (pre post : List (s ⊕ r)) (a : s ⊕ r) :
    load μ (pre ++ a :: post) = load μ pre + load μ [a] + load μ post := by
  simp [load, Nat.add_assoc]

/-- A turn brings the workers nearer to the end, or is an idle move of one of them. -/
theorem turn_progress [IsPreorder σ R] (hstep : Progress R idle μ step)
    (hpick : ∀ n w, Run.Yields (pick n) w fun _ w' => R w w' ∧ ∀ v, idle v w' → idle v w) :
    Progress R idle (load μ) (turn step pick) := by
  intro ws w
  cases hfin : finished ws with
  | some zs =>
    refine ⟨_, w, turn_of_finished hfin, Std.Refl.refl w, ?_⟩
    intro ws' h
    cases h
  | none =>
    obtain ⟨k, w₁, hk, hR₁, hidle⟩ := hpick (running ws) w
    obtain ⟨⟨pre, x, post⟩, hfoc⟩ := focus_of_lt (Nat.mod_lt k (running_pos hfin))
    obtain ⟨a, w₂, hs, hR₂, hm⟩ := hstep x w₁
    refine ⟨_, w₂, turn_of_step hfin hk hfoc hs, IsTrans.trans _ _ _ hR₁ hR₂, ?_⟩
    intro ws' h
    cases h
    rw [focus_eq_some hfoc, load_replace, load_replace]
    rcases a with x' | z
    · rcases hm x' rfl with hlt | ⟨hle, hid⟩
      · exact .inl (by simpa [load] using hlt)
      · exact .inr ⟨by simpa [load] using hle, hidle _ hid⟩
    · exact .inl (by simp [load])

/-- Interleaved workers finish, whatever the choices are, if none of them idles for ever. -/
theorem interleave_returns [IsPreorder σ R] (hstep : Progress R idle μ step)
    (hpick : ∀ n w, Run.Yields (pick n) w fun _ w' => R w w' ∧ ∀ v, idle v w' → idle v w)
    (ws : List (s ⊕ r)) (w : σ) (hacc : ∀ w', R w w' → Acc idle w') :
    ∃ p, interleave step pick ws w = some p :=
  loop_returns (turn_progress hstep hpick) ws w hacc

end Progress

end Effect
