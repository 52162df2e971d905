import P11Rand.Effect.Host
import P11Rand.Effect.Loop

/-! What a program holds of the resources it acquires and releases, accounted for along the record
of its events. -/
namespace Effect

/-- What an event does: it needs some resources to be held, releases some and acquires others. -/
structure Deal (R : Type) where
  needs : List R
  releases : Multiset R
  acquires : Multiset R

section Deals

variable {E R : Type} {deal : E → Deal R} {H H' H'' F : Multiset R} {es fs : List E} {e : E}

/-- The events lead from holding the first to holding the second, and each is in order when it
happens. -/
inductive Deals (deal : E → Deal R) (H : Multiset R) : List E → Multiset R → Prop
  | nil : Deals deal H [] H
  | snoc {es : List E} {e : E} {F : Multiset R} : Deals deal H es ((deal e).releases + F) →
      (∀ r ∈ (deal e).needs, r ∈ (deal e).releases + F) →
      Deals deal H (es ++ [e]) ((deal e).acquires + F)

theorem Deals.trans (h : Deals deal H es H') (h' : Deals deal H' fs H'') :
    Deals deal H (es ++ fs) H'' := by
  induction h' with
  | nil => rwa [List.append_nil]
  | snoc _ hneeds ih =>
    rw [← List.append_assoc]
    exact ih.snoc hneeds

/-- What else is held is left alone. -/
theorem Deals.frame (h : Deals deal H es H') (F : Multiset R) :
    Deals deal (H + F) es (H' + F) := by
  induction h with
  | nil => exact .nil
  | snoc _ hneeds ih =>
    rw [add_assoc] at ih ⊢
    refine ih.snoc fun r hr => ?_
    rw [← add_assoc]
    exact Multiset.mem_add.mpr (.inl (hneeds r hr))

theorem Deals.single (hneeds : ∀ r ∈ (deal e).needs, r ∈ (deal e).releases + F) :
    Deals deal ((deal e).releases + F) [e] ((deal e).acquires + F) :=
  (Deals.nil.snoc hneeds : Deals deal _ ([] ++ [e]) _)

variable [DecidableEq R]

/-- What is held after some events, by what they release and acquire. -/
def balance (deal : E → Deal R) (es : List E) : Multiset R :=
  es.foldl (fun H e => H - (deal e).releases + (deal e).acquires) 0

@[simp] theorem balance_nil (deal : E → Deal R) : balance deal [] = 0 := rfl

@[simp] theorem balance_snoc (deal : E → Deal R) (es : List E) (e : E) :
    balance deal (es ++ [e]) = balance deal es - (deal e).releases + (deal e).acquires := by
  simp [balance]

/-- The event uses and releases only what is held. -/
def InOrder (deal : E → Deal R) (es : List E) (e : E) : Prop :=
  (∀ r ∈ (deal e).needs, r ∈ balance deal es) ∧ (deal e).releases ≤ balance deal es

/-- The balance after events that are in order is what they lead to; a law that lets each of them
happen in order holds on. -/
theorem Deals.lawful {legal : List E → E → Prop} (h : Deals deal H fs H') (hes : Lawful legal es)
    (hbal : balance deal es = H) (hlegal : ∀ pre e post, fs = pre ++ e :: post →
      InOrder deal (es ++ pre) e → legal (es ++ pre) e) :
    Lawful legal (es ++ fs) ∧ balance deal (es ++ fs) = H' := by
  induction h with
  | nil => exact ⟨by rwa [List.append_nil], by rwa [List.append_nil]⟩
  | @snoc fs e F _ hneeds ih =>
    obtain ⟨hlawful, hheld⟩ := ih fun pre x post hfs => hlegal pre x (post ++ [e]) (by simp [hfs])
    rw [← List.append_assoc, lawful_snoc, balance_snoc, hheld]
    refine ⟨⟨hlawful, hlegal fs e [] rfl ?_⟩, by rw [add_tsub_cancel_left, add_comm]⟩
    rw [InOrder, hheld]
    exact ⟨hneeds, Multiset.le_add_right _ _⟩

end Deals

/-- What the members of a list hold, with one of them singled out. -/
theorem sum_map_set {α M : Type} [AddCommMonoid M] {f : α → M} {l : List α} {i : Nat} {a : α}
    (h : l[i]? = some a) :
    ∃ F, (l.map f).sum = f a + F ∧ ∀ b, ((l.set i b).map f).sum = f b + F := by
  induction l generalizing i with
  | nil => simp at h
  | cons c l ih =>
    cases i with
    | zero =>
      obtain rfl : c = a := by simpa using h
      exact ⟨(l.map f).sum, by simp, by simp⟩
    | succ i =>
      obtain ⟨F, hl, hset⟩ := ih (by simpa using h)
      refine ⟨f c + F, ?_, fun b => ?_⟩
      · rw [List.map_cons, List.sum_cons, hl, add_left_comm]
      · rw [List.set_cons_succ, List.map_cons, List.sum_cons, hset, add_left_comm]

/-- Where the record of the events is kept, what each does, what all of them are like, and what
holds of the state all the while. -/
structure Account (σ E R : Type) where
  events : σ → List E
  deal : E → Deal R
  allowed : E → Prop
  stable : σ → Prop

section Owns

variable {σ E R α β s r : Type} {A : Account σ E R} {x : Run σ α} {f : α → Run σ β}
  {H F : Multiset R} {K : α → Multiset R} {L : β → Multiset R}

/-- A computation that holds `H` when it begins holds `K` of its result when it ends. -/
def Owns (A : Account σ E R) (x : Run σ α) (H : Multiset R) (K : α → Multiset R) : Prop :=
  ∀ w a w', A.stable w → x w = some (a, w') → A.stable w' ∧
    ∃ es, A.events w' = A.events w ++ es ∧ (∀ e ∈ es, A.allowed e) ∧ Deals A.deal H es (K a)

theorem owns_pure {a : α} (h : K a = H) : Owns A (pure a : Run σ α) H K := by
  intro w b w' hw hx
  cases hx
  exact ⟨hw, [], by simp, by simp, h ▸ .nil⟩

/-- The rest of a sequence need only be followed from what its first part can return. -/
theorem owns_bind_of {Q : α → Prop} (hx : Owns A x H K) (hpost : ∀ w, Run.Post x w fun a _ => Q a)
    (hf : ∀ a, Q a → Owns A (f a) (K a) L) : Owns A (x >>= f) H L := by
  intro w b w' hw hb
  obtain ⟨a, v, ha, hb⟩ := Run.bind_eq_some.mp hb
  obtain ⟨hv, es, hes, hall, hdeals⟩ := hx w a v hw ha
  obtain ⟨hw', fs, hfs, hall', hdeals'⟩ := hf a (hpost w a v ha) v b w' hv hb
  refine ⟨hw', es ++ fs, by rw [hfs, hes, List.append_assoc], fun e he => ?_,
    hdeals.trans hdeals'⟩
  exact (List.mem_append.mp he).elim (hall e) (hall' e)

theorem owns_bind (hx : Owns A x H K) (hf : ∀ a, Owns A (f a) (K a) L) :
    Owns A (x >>= f) H L :=
  owns_bind_of (Q := fun _ => True) hx (fun _ _ _ _ => trivial) fun a _ => hf a

theorem Owns.frame (h : Owns A x H K) (F : Multiset R) : Owns A x (H + F) fun a => K a + F := by
  intro w a w' hw hx
  obtain ⟨hw', es, hes, hall, hdeals⟩ := h w a w' hw hx
  exact ⟨hw', es, hes, hall, hdeals.frame F⟩

theorem Owns.congr {H' : Multiset R} {K' : α → Multiset R} (h : Owns A x H K) (hH : H' = H)
    (hK : ∀ a, K' a = K a) : Owns A x H' K' := by
  intro w a w' hw hx
  rw [hH, hK]
  exact h w a w' hw hx

/-- It may be looked up in a stable state what to do next. -/
theorem owns_get {f : σ → Run σ β} (h : ∀ u, A.stable u → Owns A (f u) H L) :
    Owns A (Run.get >>= f) H L :=
  fun w b w' hw hb => h w hw w b w' hw hb

theorem owns_stuck : Owns A (Run.stuck : Run σ α) H K := fun _ _ _ _ h => by cases h

theorem owns_loop {step : s → Run σ (s ⊕ r)} {I : s → Multiset R} {J : r → Multiset R}
    (hstep : ∀ x, Owns A (step x) (I x) (Sum.elim I J)) (x : s) :
    Owns A (loop step x) (I x) J := by
  intro w z w' hw h
  refine loop_induction (Q := fun x w z w' => A.stable w → A.stable w' ∧
    ∃ es, A.events w' = A.events w ++ es ∧ (∀ e ∈ es, A.allowed e) ∧
      Deals A.deal (I x) es (J z)) ?_ ?_ h hw
  · intro x w x' v z w' hs ih hw
    obtain ⟨hv, es, hes, hall, hdeals⟩ := hstep x w _ v hw hs
    obtain ⟨hw', fs, hfs, hall', hdeals'⟩ := ih hv
    refine ⟨hw', es ++ fs, by rw [hfs, hes, List.append_assoc], fun e he => ?_,
      hdeals.trans hdeals'⟩
    exact (List.mem_append.mp he).elim (hall e) (hall' e)
  · intro x w z w' hs hw
    exact hstep x w _ w' hw hs

theorem interleave_length {step : s → Run σ (s ⊕ r)} {pick : Nat → Run σ Nat}
    {ws : List (s ⊕ r)} (w : σ) :
    Run.Post (interleave step pick ws) w fun zs _ => zs.length = ws.length := by
  intro zs w' h
  have : IsPreorder σ fun _ _ => True :=
    { refl := fun _ => trivial, trans := fun _ _ _ _ _ => trivial }
  obtain ⟨_, hall⟩ := interleave_thread (R := fun _ _ => True) (fun _ _ _ _ _ => trivial)
    (fun _ _ _ _ _ => trivial) h
  exact hall.length_eq.symm

/-- Workers that take turns hold among them what each holds. -/
theorem owns_interleave {step : s → Run σ (s ⊕ r)} {pick : Nat → Run σ Nat} {I : s → Multiset R}
    {J : r → Multiset R} (hpick : ∀ n, Owns A (pick n) 0 fun _ => 0)
    (hstep : ∀ x, Owns A (step x) (I x) (Sum.elim I J)) (ws : List (s ⊕ r)) :
    Owns A (interleave step pick ws) (ws.map (Sum.elim I J)).sum fun zs => (zs.map J).sum := by
  refine owns_loop (I := fun ws : List (s ⊕ r) => (ws.map (Sum.elim I J)).sum) (fun ws => ?_) ws
  intro w a w' hw h
  rcases turn_cases h with ⟨zs, rfl, rfl, rfl⟩ | ⟨k, v, pre, x, y, post, hk, rfl, hs, rfl⟩
  · refine ⟨hw, [], by simp, by simp, ?_⟩
    simpa [Function.comp_def] using .nil
  · obtain ⟨hv, es, hes, hall, hdeals⟩ := hpick _ w k v hw hk
    obtain ⟨hw', fs, hfs, hall', hdeals'⟩ := hstep x v y w' hv hs
    refine ⟨hw', es ++ fs, by rw [hfs, hes, List.append_assoc], fun e he => ?_, ?_⟩
    · exact (List.mem_append.mp he).elim (hall e) (hall' e)
    · -- the worker holds its own part of the whole, before and after its step
      let rest := (pre.map (Sum.elim I J)).sum + (post.map (Sum.elim I J)).sum
      have hbefore := hdeals.frame (I x + rest)
      have hafter := hdeals'.frame rest
      rw [zero_add] at hbefore
      have hsum : ∀ z : s ⊕ r, ((pre ++ z :: post).map (Sum.elim I J)).sum =
          Sum.elim I J z + rest := by
        intro z
        simp only [List.map_append, List.map_cons, List.sum_append, List.sum_cons, rest]
        abel
      rw [hsum, Sum.elim_inl, Sum.elim_inl, hsum]
      exact hbefore.trans hafter

end Owns

end Effect
