import P11Rand.Tools.Sleeping
import P11Rand.Tools.Termination

/-! p11rand-seed on the module ends once it is signalled. -/
namespace P11Rand.Tools

open Effect Run

variable {H E W : Type}

namespace Seed

variable {K : ToolHost H} {T : ToolHost E} {π : E → H} {s s' : Seeder} {w w' : ToolWorld E}
  {start total : Nat}

/-- What the tool asks of the kernel. -/
def Kernel (q : ToolRequest) : Prop := ∀ len, q ≠ .generateRandom len

/-- The kernel goes from one state to the next. -/
def Moves (K : ToolHost H) (k k' : H) : Prop := ∃ q, Kernel q ∧ k' = (K.answer q k).2

def Raised (K : ToolHost H) (k : H) : Prop := (K.answer .signalCount k).1 ≠ 0

/-- One signal comes at some time, and no second one, at which the process would be over. -/
structure Signalling (K : ToolHost H) : Prop where
  stays : ∀ k k', Moves K k k' → Raised K k → Raised K k'
  comes : ∀ k, Acc (fun k' k => Moves K k k' ∧ ¬ Raised K k) k
  once : ∀ k, Counted (K.answer .signalCount k).1

/-- The host has the kernel beside a module, which does not touch it. -/
structure Has (π : E → H) (T : ToolHost E) (K : ToolHost H) : Prop where
  signal : ∀ e, (T.answer .signalCount e).1 = (K.answer .signalCount (π e)).1
  asked : ∀ q e, Kernel q → π (T.answer q e).2 = (K.answer q (π e)).2
  drawn : ∀ len e, π (T.answer (.generateRandom len) e).2 = π e

/-- The kernel has been asked something, or nothing. -/
def Onward (K : ToolHost H) (π : E → H) (w w' : ToolWorld E) : Prop :=
  Relation.ReflTransGen (Moves K) (π w.env) (π w'.env)

instance : IsPreorder (ToolWorld E) (Onward K π) where
  refl _ := .refl
  trans _ _ _ h h' := h.trans h'

theorem Has.moves (hT : Has π T K) {q : ToolRequest} (hq : Kernel q) (e : E) :
    Moves K (π e) (π (T.answer q e).2) := ⟨q, hq, hT.asked q e hq⟩

theorem Has.ask_onward (hT : Has π T K) (q : ToolRequest) : Total (Onward K π) (ask T q) := by
  intro w
  refine ⟨_, _, ask_apply q w, ?_⟩
  by_cases hq : Kernel q
  · exact .single (hT.moves hq w.env)
  · obtain ⟨len, rfl⟩ : ∃ len, q = .generateRandom len := by simpa [Kernel] using hq
    have hsame : π (T.answer (.generateRandom len) w.env).2 = π w.env := hT.drawn len w.env
    unfold Onward
    rw [hsame]

theorem fallAsleep_onward (hT : Has π T K) (s : Seeder) :
    Total (Onward K π) (fallAsleep T s) := by
  unfold fallAsleep
  split
  · exact total_pure _
  split
  · exact total_pure _
  · exact total_bind (hT.ask_onward _) fun _ => total_pure _

theorem forceReseed_onward (hT : Has π T K) (s : Seeder) :
    Total (Onward K π) (forceReseed T s) := by
  unfold forceReseed
  split
  · exact total_pure _
  · refine total_bind (hT.ask_onward _) fun ans => ?_
    cases ans <;> exact total_pure _

theorem insertBlock_onward (hT : Has π T K) (s : Seeder) :
    Total (Onward K π) (insertBlock T s) := by
  unfold insertBlock
  split
  · exact total_bind (hT.ask_onward _) fun _ => total_pure _
  refine total_bind (hT.ask_onward _) fun ans => ?_
  cases ans with
  | ok _ => exact forceReseed_onward hT s
  | error err =>
    dsimp only
    split
    · exact total_bind (hT.ask_onward _) fun _ => total_pure _
    · exact total_pure _

/-- A pass returns, and it has asked the kernel something. -/
theorem seedStep_moves (hT : Has π T K) (s : Seeder) (w : ToolWorld E) :
    Yields (seedStep T s) w fun _ w' => Relation.TransGen (Moves K) (π w.env) (π w'.env) := by
  have hfirst : ∀ {α : Type} {q : ToolRequest} {f : q.Answer → Run (ToolWorld E) α}, Kernel q →
      (∀ ans, Total (Onward K π) (f ans)) → Yields (ask T q >>= f) w fun _ w' =>
        Relation.TransGen (Moves K) (π w.env) (π w'.env) := by
    intro α q f hq hf
    refine yields_bind ⟨_, _, ask_apply q w, (hf _ _).mono fun _ w' hw' => ?_⟩
    exact .trans_left (.single (hT.moves hq w.env)) hw'
  unfold seedStep
  split
  · refine hfirst nofun fun t => ?_
    split
    · refine total_bind (hT.ask_onward _) fun n => ?_
      split
      · exact total_bind (hT.ask_onward _) fun _ =>
          total_bind (hT.ask_onward _) fun _ => total_pure _
      · exact total_pure _
    · exact total_pure _
  · refine hfirst nofun fun n => ?_
    split
    · exact total_pure _
    refine total_bind (hT.ask_onward _) fun r => ?_
    dsimp only
    split
    · refine total_bind (hT.ask_onward _) fun n' => ?_
      split
      · exact total_pure _
      · exact fallAsleep_onward hT _
    · exact total_bind (insertBlock_onward hT _) fun _ => fallAsleep_onward hT _

theorem Signalling.raised {k k' : H} (hK : Signalling K)
    (h : Relation.ReflTransGen (Moves K) k k') (hk : Raised K k) : Raised K k' := by
  induction h with
  | refl => exact hk
  | tail _ hmove ih => exact hK.stays _ _ hmove ih

/-- Once the signal is there, the tool stops where it looks for it next. -/
theorem stops_raised (hT : Has π T K) (hphase : s.phase = .seeding) (hw : Raised K (π w.env)) :
    Yields (loop (seedStep T) s) w fun _ _ => True := by
  have hsignal : (T.answer .signalCount w.env).1 ≠ 0 := by
    rw [hT.signal]
    exact hw
  obtain ⟨v, hstep⟩ : ∃ v, seedStep T s w = some (.inr .stopped, v) := by
    unfold seedStep
    rw [hphase]
    dsimp only
    rw [bind_of_eq (ask_apply _ w), if_pos hsignal]
    exact ⟨_, rfl⟩
  exact ⟨.stopped, v, loop_of_inr hstep, trivial⟩

/-- It does not fall asleep again. -/
theorem wakes_raised (hT : Has π T K) (hK : Signalling K) (hw : Raised K (π w.env))
    (h : sleepOn T start total s w = some (.inl s', w')) : s'.phase = .seeding := by
  obtain ⟨t, u, hnow, h⟩ := bind_eq_some.mp h
  have hu : Raised K (π u.env) := by
    rw [ask_apply] at hnow
    cases hnow
    exact hK.stays _ _ (hT.moves (q := .now) nofun w.env) hw
  split at h
  · obtain ⟨n, v, hlook, h⟩ := bind_eq_some.mp h
    have hn : n ≠ 0 := by
      rw [ask_apply] at hlook
      cases hlook
      rw [hT.signal]
      exact hu
    rw [if_neg hn] at h
    cases h
    rfl
  · cases h
    rfl

theorem ends_raised (hT : Has π T K) (hK : Signalling K) (hw : Raised K (π w.env)) :
    Yields (loop (seedStep T) s) w fun _ _ => True := by
  cases hphase : s.phase with
  | seeding => exact stops_raised hT hphase hw
  | napping start total =>
    obtain ⟨y, v, hstep, hmoves⟩ := seedStep_moves hT s w
    cases y with
    | inr exit => exact ⟨exit, v, loop_of_inr hstep, trivial⟩
    | inl s' =>
      have hv := hK.raised hmoves.to_reflTransGen hw
      have hsleep : sleepOn T start total s w = some (.inl s', v) := by
        unfold seedStep at hstep
        rw [hphase] at hstep
        exact hstep
      obtain ⟨exit, u, hend, _⟩ := stops_raised hT (wakes_raised hT hK hw hsleep) hv
      exact ⟨exit, u, (loop_of_inl hstep).trans hend, trivial⟩

/-- As long as the signal is not there, the kernel comes nearer to it. -/
theorem Signalling.nearer {k k' : H} (hK : Signalling K) (h : Relation.TransGen (Moves K) k k')
    (hk' : ¬ Raised K k') :
    Relation.TransGen (fun k' k => Moves K k k' ∧ ¬ Raised K k) k' k := by
  induction h with
  | single hmove => exact .single ⟨hmove, fun hk => hk' (hK.stays _ _ hmove hk)⟩
  | tail _ hmove ih =>
    have hk := fun hk => hk' (hK.stays _ _ hmove hk)
    exact .trans (.single ⟨hmove, hk⟩) (ih hk)

theorem loop_signalled (hT : Has π T K) (hK : Signalling K) (s : Seeder) (w : ToolWorld E) :
    Yields (loop (seedStep T) s) w fun _ _ => True := by
  have hacc := (hK.comes (π w.env)).transGen
  generalize hk : π w.env = k at hacc
  induction hacc generalizing s w with
  | intro k _ ih =>
    obtain ⟨y, v, hstep, hmoves⟩ := seedStep_moves hT s w
    cases y with
    | inr exit => exact ⟨exit, v, loop_of_inr hstep, trivial⟩
    | inl s' =>
      obtain ⟨exit, u, hend, _⟩ : Yields (loop (seedStep T) s') v fun _ _ => True := by
        by_cases hv : Raised K (π v.env)
        · exact ends_raised hT hK hv
        · exact ih _ (hk ▸ hK.nearer hmoves hv) s' v rfl
      exact ⟨exit, u, (loop_of_inl hstep).trans hend, trivial⟩

/-- It stops for the signal if it can sleep. -/
theorem seed_stops {a : Args} (hT : Has π T K) (hK : Signalling K) (ha : Sleepable a.interval)
    (w : ToolWorld E) : Yields (seed T a) w fun exit _ => exit = .stopped := by
  obtain ⟨exit, v, hloop, _⟩ := loop_signalled hT hK (.start a) w
  have hend : Unharmed a.interval (.inr exit) :=
    (loop_thread hloop).keeps (I := fun y _ => Unharmed a.interval y) rfl
      fun _ _ _ _ hs hstep => seedStep_unharmed ha hs hstep
  refine ⟨exit, v, hloop, ?_⟩
  cases exit with
  | stopped => rfl
  | panicked => exact absurd rfl hend

end Seed

namespace Client

variable {P : Platform W} {cfg : Config} (hp : ∀ e, P.Patient e) (K : ToolHost H)
  {r : Running P cfg} {k : H} {sess : CkUlong}

theorem linked_has : Seed.Has Prod.snd
    ((work sess).host (linked hp K : ClientHost (Running P cfg × H))) K where
  signal _ := rfl
  asked q e hq := by
    cases q with
    | generateRandom len => exact absurd rfl (hq len)
    | _ => rfl
  drawn _ _ := rfl

/-- A kernel that signals the tool after so many requests. -/
def alarm : ToolHost Nat where
  answer
    | .signalCount, n => (if n = 0 then 1 else 0, n - 1)
    | q, n => ((Seed.willing.answer q ()).1, n - 1)

theorem alarm_signalling : Seed.Signalling alarm := by
  have hmove : ∀ n n', Seed.Moves alarm n n' → n' = n - 1 := by
    rintro n n' ⟨q, _, rfl⟩
    cases q <;> rfl
  have hraised : ∀ n, Seed.Raised alarm n ↔ n = 0 := by
    intro n
    have hcount : (alarm.answer .signalCount n).1 = if n = 0 then 1 else 0 := rfl
    rw [Seed.Raised, hcount]
    split <;> simp_all
  refine ⟨fun n n' h hn => ?_, fun n => ?_, fun n => ?_⟩
  · rw [hraised] at hn ⊢
    rw [hmove n n' h, hn]
  · refine Subrelation.accessible (fun {n' n} h => ?_) (Nat.lt_wfRel.wf.apply n)
    obtain ⟨h, hn⟩ := h
    rw [hraised] at hn
    have hlt := hmove n n' h
    show n' < n
    omega
  · have hcount : (alarm.answer .signalCount n).1 = if n = 0 then 1 else 0 := rfl
    rw [counted_iff, hcount]
    split
    · exact .inr rfl
    · exact .inl rfl

end Client
end P11Rand.Tools
