import P11Rand.Tools.Crediting

/-! Whether the seeder can sleep between two insertions. -/
namespace P11Rand.Tools.Seed

open Effect Run

variable {H : Type} {P : ToolHost H} {w w' : ToolWorld H} {a : Args} {s : Seeder} {v : F64}
  {y : Seeder ⊕ Exit} {parseF64 : String → Option F64} {argv : List String}

/-- A number of seconds that fits into a `Duration`. -/
def Sleepable (v : F64) : Prop := ∃ q, v = .finite q ∧ q < 2 ^ 64

theorem fromSecsF64_isSome_iff (hv : v.nonpos = false) :
    (fromSecsF64 v).isSome ↔ Sleepable v := by
  cases v with
  | finite q =>
    have hq : 0 < q := by simpa [F64.nonpos] using hv
    simp [fromSecsF64, Sleepable, hq.le]
  | infinite negative => simp [fromSecsF64, Sleepable]
  | nan => simp [fromSecsF64, Sleepable]

theorem parseFrom_interval {args : List String} {a' : Args} (ha : a.interval.nonpos = false)
    (h : parseFrom parseF64 a args = .ok a') : a'.interval.nonpos = false := by
  fun_induction parseFrom parseF64 a args
  case case2 =>
    cases h
    exact ha
  case case6 hv ih => exact ih (by simpa using hv) h
  all_goals
    first
    | cases h
    | rename_i ih
      exact ih ha h

/-- The check of `parse` bounds the interval on one side. -/
theorem parse_interval (h : parse parseF64 argv = .ok a) : a.interval.nonpos = false :=
  parseFrom_interval (by decide) h

theorem forceReseed_interval :
    Yields (forceReseed P s) w fun s' _ => s'.args.interval = s.args.interval := by
  unfold forceReseed
  split
  · exact yields_pure rfl
  · refine yields_ask fun ans _ => ?_
    dsimp only
    split
    · split <;> exact yields_pure rfl
    · exact yields_pure rfl

theorem insertBlock_interval :
    Yields (insertBlock P s) w fun s' _ => s'.args.interval = s.args.interval := by
  unfold insertBlock
  split
  · exact yields_ask fun _ _ => yields_pure rfl
  · refine yields_ask fun ans _ => ?_
    dsimp only
    split
    · split
      · exact yields_ask fun _ _ => yields_pure rfl
      · exact yields_pure rfl
    · exact forceReseed_interval

/-- What a step leaves when it can sleep for `v`. -/
def Unharmed (v : F64) : Seeder ⊕ Exit → Prop
  | .inl s => s.args.interval = v
  | .inr e => e ≠ .panicked

theorem fallAsleep_unharmed (hv : Sleepable v) (hs : s.args.interval = v)
    (h : fallAsleep P s w = some (y, w')) : Unharmed v y := by
  unfold fallAsleep at h
  split at h
  · cases h
    exact hs
  · rename_i hpos
    have htotal := (fromSecsF64_isSome_iff (Bool.eq_false_of_not_eq_true hpos)).mpr (hs ▸ hv)
    obtain ⟨total, htotal⟩ := Option.isSome_iff_exists.mp htotal
    rw [htotal] at h
    obtain ⟨start, u, _, h⟩ := bind_eq_some.mp h
    cases h
    exact hs

theorem sleepOn_unharmed {start total : Nat} (hs : s.args.interval = v)
    (h : sleepOn P start total s w = some (y, w')) : Unharmed v y := by
  obtain ⟨t, u, _, h⟩ := bind_eq_some.mp h
  split at h
  · obtain ⟨n, u, _, h⟩ := bind_eq_some.mp h
    split at h
    · obtain ⟨t', u, _, h⟩ := bind_eq_some.mp h
      obtain ⟨_, u, _, h⟩ := bind_eq_some.mp h
      cases h
      exact hs
    · cases h
      exact hs
  · cases h
    exact hs

/-- An iteration reaches its sleep with the interval it started with. -/
theorem seedStep_unharmed (hv : Sleepable v) (hs : s.args.interval = v)
    (h : seedStep P s w = some (y, w')) : Unharmed v y := by
  unfold seedStep at h
  cases hphase : s.phase with
  | napping start total =>
    rw [hphase] at h
    exact sleepOn_unharmed hs h
  | seeding =>
    rw [hphase] at h
    obtain ⟨n, u, _, h⟩ := bind_eq_some.mp h
    split at h
    · cases h
      exact nofun
    obtain ⟨⟨rv, block⟩, u, _, h⟩ := bind_eq_some.mp h
    dsimp only at h
    split at h
    · obtain ⟨n, u, _, h⟩ := bind_eq_some.mp h
      split at h
      · cases h
        exact nofun
      · exact fallAsleep_unharmed (s := { s with buf := block.toList }) hv hs h
    · obtain ⟨s', u, hins, h⟩ := bind_eq_some.mp h
      have hkeep := (yields_iff hins).mp (insertBlock_interval (P := P))
      exact fallAsleep_unharmed hv (hkeep.trans hs) h

theorem fallAsleep_panics (hpos : s.args.interval.nonpos = false)
    (hs : ¬ Sleepable s.args.interval) : fallAsleep P s w = some (.inr .panicked, w) := by
  have hnone : fromSecsF64 s.args.interval = none := by
    rw [← Option.not_isSome_iff_eq_none, fromSecsF64_isSome_iff hpos]
    exact hs
  unfold fallAsleep
  rw [if_neg (by simp [hpos]), hnone]
  rfl

/-- Otherwise the first sleep is the end, here after a block that went in. -/
theorem seedStep_panics {w : ToolWorld Unit} (hpos : a.interval.nonpos = false)
    (ha : ¬ Sleepable a.interval) :
    ∃ w', seedStep willing (.start a) w = some (.inr .panicked, w') := by
  obtain ⟨s', u, hins, hs'⟩ := insertBlock_interval (P := willing)
    (s := { Seeder.start a with buf := (Vector.replicate a.nbytes 7).toList })
    (w := ⟨(), w.trace ++ [⟨.signalCount, (0 : Int32)⟩] ++
      [⟨.generateRandom a.nbytes, (ckrOk, Vector.replicate a.nbytes (7 : UInt8))⟩]⟩)
  have hs' : s'.args.interval = a.interval := hs'
  refine ⟨u, ?_⟩
  rw [← hs'] at hpos ha
  refine (bind_of_eq (ask_apply _ _)).trans ?_
  refine (bind_of_eq (ask_apply _ _)).trans ?_
  exact (bind_of_eq hins).trans (fallAsleep_panics hpos ha)

/-- Whatever module and kernel answer, and however long it runs: a seeder whose arguments were
accepted is safe from its own interval when that fits into a `Duration`, and only then. -/
theorem never_panics_iff (hparse : parse parseF64 argv = .ok a) :
    (∀ (H : Type) (P : ToolHost H) (w : ToolWorld H) (y : Seeder ⊕ Exit) (w' : ToolWorld H),
      Thread Eq (seedStep P) (.inl (.start a)) w y w' → y ≠ .inr .panicked) ↔
    Sleepable a.interval := by
  constructor
  · intro hsafe
    by_contra hs
    obtain ⟨w', hstep⟩ := seedStep_panics (w := ⟨(), []⟩) (parse_interval hparse) hs
    exact hsafe Unit willing _ _ w' (.step rfl hstep (.idle rfl)) rfl
  · rintro hs H P w y w' hrun rfl
    have hend : Unharmed a.interval (.inr .panicked) :=
      hrun.keeps (I := fun y _ => Unharmed a.interval y) rfl
        fun _ _ _ _ h hstep => seedStep_unharmed hs h hstep
    exact hend rfl

/-- A minute can be slept. -/
theorem never_panics_plain : Sleepable plainArgs.interval ∧
    ∀ (H : Type) (P : ToolHost H) (w : ToolWorld H) (y : Seeder ⊕ Exit) (w' : ToolWorld H),
      Thread Eq (seedStep P) (.inl (.start plainArgs)) w y w' → y ≠ .inr .panicked := by
  have hminute : Sleepable plainArgs.interval := ⟨60, rfl, by norm_num⟩
  exact ⟨hminute, (never_panics_iff parse_plain).mpr hminute⟩

/-- `-t inf` is accepted, and panics after the first insertion. -/
theorem inf_panics : ∃ (parseF64 : String → Option F64) (a : Args) (w' : ToolWorld Unit),
    parse parseF64 ["p11rand-seed", "-t", "inf", "p11rand.so"] = .ok a ∧
    Thread Eq (seedStep willing) (.inl (.start a)) ⟨(), []⟩ (.inr .panicked) w' := by
  let parseF64 : String → Option F64 := fun s => if s = "inf" then some (.infinite false) else none
  have hparse : parse parseF64 ["p11rand-seed", "-t", "inf", "p11rand.so"] =
      .ok { plainArgs with interval := .infinite false } := rfl
  obtain ⟨w', hstep⟩ := seedStep_panics (w := ⟨(), []⟩) (parse_interval hparse)
    (by simp [Sleepable])
  exact ⟨parseF64, _, w', hparse, .step rfl hstep (.idle rfl)⟩

end P11Rand.Tools.Seed
