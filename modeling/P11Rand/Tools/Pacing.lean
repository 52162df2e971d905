import P11Rand.Effect.Pace
import P11Rand.Tools.Sleeping

/-! How fast the seeder draws and inserts, and how soon a signal stops it. -/
namespace P11Rand.Tools.Seed

open Effect Run

variable {H : Type} {P : ToolHost H} {w w' : ToolWorld H} {a : Args} {s : Seeder} {v : F64}
  {total start : Nat} {es : List ToolReply} {e : ToolReply} {y : Seeder ⊕ Exit}
  {parseF64 : String → Option F64} {argv : List String}

/-- What the seeder does once in a while. -/
inductive Act
  | draw
  | insertion

/-- A block that the kernel was given counts once, credited or not. -/
def Act.marks : Act → ToolReply → Bool
  | .draw, ⟨.generateRandom _, _⟩ => true
  | .insertion, ⟨.addEntropy _ _, .ok _⟩ => true
  | .insertion, ⟨.writeRandom _, _⟩ => true
  | _, _ => false

def reading : ToolReply → Option Nat
  | ⟨.now, t⟩ => some t
  | _ => none

/-- Not the news of a signal. -/
def calm : ToolReply → Bool
  | ⟨.signalCount, n⟩ => n == 0
  | _ => true

/-- The seeder has just looked for a signal when it draws, and when it sleeps. -/
def Alert (es : List ToolReply) : ToolReply → Prop
  | ⟨.generateRandom _, _⟩ => ∃ pre, es = pre ++ [⟨.signalCount, (0 : Int32)⟩]
  | ⟨.sleep nanos, _⟩ => nanos ≤ 50000000 ∧
      ∃ pre t, es = pre ++ [⟨.signalCount, (0 : Int32)⟩] ++ [⟨.now, t⟩]
  | _ => True

def Timely (total : Nat) (es : List ToolReply) (e : ToolReply) : Prop :=
  Alert es e ∧ ∀ act : Act, Spaced act.marks calm reading total es e

/-- It is time to act again. -/
def Due (total : Nat) (act : Act) (es : List ToolReply) : Prop :=
  es.any act.marks = true → Fair calm reading (since act.marks es) →
    total ≤ span (times reading (since act.marks es))

/-- The nap began after the last act. -/
def Phase.Rests (total : Nat) (es : List ToolReply) : Phase → Prop
  | .seeding => ∀ act, Due total act es
  | .napping start total' => total' = total ∧
      ∀ act : Act, start ∈ times reading (since act.marks es)

/-- What the loop keeps of an interval that lasts `total`. -/
def Paced (v : F64) (total : Nat) : Seeder ⊕ Exit → List ToolReply → Prop
  | .inl s, es => s.args.interval = v ∧ Lawful (Timely total) es ∧ s.phase.Rests total es
  | .inr _, es => Lawful (Timely total) es

/-- Neither of the two acts, nor a wait. -/
def Passive : ToolReply → Prop
  | ⟨.generateRandom _, _⟩ | ⟨.sleep _, _⟩ => False
  | ⟨.addEntropy _ _, .ok _⟩ | ⟨.writeRandom _, _⟩ => False
  | _ => True

theorem Passive.unmarked (h : Passive e) (act : Act) : act.marks e = false := by
  cases act <;> unfold Passive at h <;> unfold Act.marks <;> split at h <;> simp_all

theorem Passive.timely (h : Passive e) : Timely total es e := by
  refine ⟨?_, fun act => .unmarked (h.unmarked act)⟩
  unfold Alert
  split
  · exact h.elim
  · exact h.elim
  · trivial

variable {act : Act}

theorem Due.snoc (h : Due total act es) (he : act.marks e = false) (ht : reading e = none) :
    Due total act (es ++ [e]) := by
  intro hany hfair
  rw [since_unmarked he] at hfair ⊢
  rw [times_append, times_none ht, List.append_nil]
  exact h (by simpa [he] using hany) (hfair.stretch (List.prefix_append _ _).isInfix)

theorem Due.spaced (h : Due total act es) : Spaced act.marks calm reading total es e :=
  fun _ => h

theorem since_now {t : Nat} (act : Act) :
    times reading (since act.marks (es ++ [⟨.now, t⟩])) =
      times reading (since act.marks es) ++ [t] := by
  rw [since_unmarked (Passive.unmarked (e := ⟨.now, t⟩) trivial act), times_append]
  rfl

theorem fallAsleep_paced (hpos : v.nonpos = false) (htotal : fromSecsF64 v = some total)
    (hv : s.args.interval = v) (hlaw : Lawful (Timely total) w.trace)
    (h : fallAsleep P s w = some (y, w')) : Paced v total y w'.trace := by
  unfold fallAsleep at h
  rw [hv, if_neg (by simp [hpos]), htotal] at h
  obtain ⟨start, u, hq, h⟩ := bind_eq_some.mp h
  cases h
  rw [ask_trace hq]
  refine ⟨hv, lawful_snoc.mpr ⟨hlaw, Passive.timely trivial⟩, rfl, fun act => ?_⟩
  rw [since_now]
  simp

theorem rests_now {t : Nat} (h : ∀ act : Act, start ∈ times reading (since act.marks es)) :
    ∀ act : Act, start ∈ times reading (since act.marks (es ++ [⟨.now, t⟩])) := by
  intro act
  rw [since_now]
  exact List.mem_append_left _ (h act)

/-- The nap is over when the clock says so. -/
theorem due_of_rested {t : Nat} (hrest : ∀ act : Act, start ∈ times reading (since act.marks es))
    (ht : total ≤ t - start) (act : Act) : Due total act (es ++ [⟨.now, t⟩]) := by
  intro _ hfair
  have hforward := hfair.forward
  rw [since_now] at hforward ⊢
  exact ht.trans (span_of_mem hforward (hrest act))

/-- What is not calm disturbs all that comes after the last act. -/
theorem due_of_signal (hact : act.marks e = false) (he : calm e = false) :
    Due total act (es ++ [e]) := by
  intro _ hfair
  have hcalm := hfair.calm e (by simp [since_unmarked hact])
  simp [he] at hcalm

theorem sleepOn_paced (hv : s.args.interval = v) (hphase : s.phase = .napping start total)
    (hlaw : Lawful (Timely total) w.trace)
    (hrest : ∀ act : Act, start ∈ times reading (since act.marks w.trace))
    (h : sleepOn P start total s w = some (y, w')) : Paced v total y w'.trace := by
  obtain ⟨t, u, hq, h⟩ := bind_eq_some.mp h
  have hu := ask_trace hq
  replace hlaw : Lawful (Timely total) u.trace := by
    rw [hu]
    exact lawful_snoc.mpr ⟨hlaw, Passive.timely trivial⟩
  split at h
  · obtain ⟨n, u₁, hq₁, h⟩ := bind_eq_some.mp h
    have hu₁ := ask_trace hq₁
    have hlaw₁ : Lawful (Timely total) u₁.trace := by
      rw [hu₁]
      exact lawful_snoc.mpr ⟨hlaw, Passive.timely trivial⟩
    have hpassive : Passive ⟨.signalCount, n⟩ := trivial
    split at h
    · rename_i hn
      subst hn
      obtain ⟨t', u₂, hq₂, h⟩ := bind_eq_some.mp h
      have hu₂ := ask_trace hq₂
      obtain ⟨_, u₃, hq₃, h⟩ := bind_eq_some.mp h
      cases h
      rw [ask_trace hq₃, hu₂]
      refine ⟨hv, lawful_snoc.mpr ⟨lawful_snoc.mpr ⟨hlaw₁, Passive.timely trivial⟩, ?_, ?_⟩, ?_⟩
      · exact ⟨Nat.min_le_right _ _, u.trace, t', by rw [hu₁]⟩
      · exact fun act => .unmarked (by cases act <;> rfl)
      · rw [hphase]
        refine ⟨rfl, fun act => ?_⟩
        rw [since_unmarked (by cases act <;> rfl), times_append, hu₁]
        refine List.mem_append_left _ (rests_now (fun act => ?_) act)
        rw [since_unmarked (hpassive.unmarked act), times_append, hu]
        exact List.mem_append_left _ (rests_now hrest act)
    · rename_i hn
      cases h
      rw [hu₁] at hlaw₁ ⊢
      exact ⟨hv, hlaw₁, fun act => due_of_signal (hpassive.unmarked act) (by simp [calm, hn])⟩
  · rename_i hle
    cases h
    rw [hu] at hlaw ⊢
    exact ⟨hv, hlaw, due_of_rested hrest (not_lt.mp hle)⟩

theorem forceReseed_timely {s' : Seeder} (hlaw : Lawful (Timely total) w.trace)
    (h : forceReseed P s w = some (s', w')) : Lawful (Timely total) w'.trace := by
  unfold forceReseed at h
  split at h
  · cases h
    exact hlaw
  · obtain ⟨ans, u, hq, h⟩ := bind_eq_some.mp h
    have hu : Lawful (Timely total) u.trace := by
      rw [ask_trace hq]
      exact lawful_snoc.mpr ⟨hlaw, Passive.timely trivial⟩
    cases ans with
    | error err =>
      cases h
      exact hu
    | ok _ =>
      cases h
      exact hu

/-- A block is inserted once, when it is time. -/
theorem insertBlock_timely {s' : Seeder} (hlaw : Lawful (Timely total) w.trace)
    (hdue : Due total .insertion w.trace) (h : insertBlock P s w = some (s', w')) :
    Lawful (Timely total) w'.trace := by
  have hinsert : ∀ (es : List ToolReply) (e : ToolReply), Due total .insertion es →
      Act.draw.marks e = false → Alert es e → Timely total es e := by
    intro es e hdue he halert
    refine ⟨halert, fun act => ?_⟩
    cases act with
    | draw => exact .unmarked he
    | insertion => exact hdue.spaced
  unfold insertBlock at h
  split at h
  · obtain ⟨_, u, hq, h⟩ := bind_eq_some.mp h
    cases h
    rw [ask_trace hq]
    exact lawful_snoc.mpr ⟨hlaw, hinsert _ _ hdue rfl trivial⟩
  · obtain ⟨ans, u, hq, h⟩ := bind_eq_some.mp h
    have hu := ask_trace hq
    have hlaw' : Lawful (Timely total) u.trace := by
      rw [hu]
      exact lawful_snoc.mpr ⟨hlaw, hinsert _ _ hdue rfl trivial⟩
    cases ans with
    | error err =>
      dsimp only at h
      split at h
      · obtain ⟨_, u', hq', h⟩ := bind_eq_some.mp h
        cases h
        have hdue' : Due total .insertion u.trace := hu ▸ hdue.snoc rfl rfl
        rw [ask_trace hq']
        exact lawful_snoc.mpr ⟨hlaw', hinsert _ _ hdue' rfl trivial⟩
      · cases h
        exact hlaw'
    | ok _ => exact forceReseed_timely hlaw' h

theorem seedStep_paced (hpos : v.nonpos = false) (htotal : fromSecsF64 v = some total)
    (hs : Paced v total (.inl s) w.trace) (h : seedStep P s w = some (y, w')) :
    Paced v total y w'.trace := by
  obtain ⟨hv, hlaw, hrests⟩ := hs
  unfold seedStep at h
  cases hphase : s.phase with
  | napping start total' =>
    rw [hphase] at h hrests
    obtain ⟨rfl, hrest⟩ := hrests
    exact sleepOn_paced hv hphase hlaw hrest h
  | seeding =>
    rw [hphase] at h hrests
    obtain ⟨n, u, hq, h⟩ := bind_eq_some.mp h
    have hu := ask_trace hq
    replace hlaw : Lawful (Timely total) u.trace := by
      rw [hu]
      exact lawful_snoc.mpr ⟨hlaw, Passive.timely trivial⟩
    split at h
    · cases h
      exact hlaw
    rename_i hn
    obtain rfl : n = 0 := not_not.mp hn
    have hdue : ∀ act, Due total act u.trace := fun act =>
      hu ▸ (hrests act).snoc (by cases act <;> rfl) rfl
    obtain ⟨⟨rv, block⟩, u', hq', h⟩ := bind_eq_some.mp h
    have hu' := ask_trace hq'
    have hlaw' : Lawful (Timely total) u'.trace := by
      rw [hu']
      exact lawful_snoc.mpr ⟨hlaw, ⟨w.trace, hu⟩, fun act => (hdue act).spaced⟩
    dsimp only at h
    split at h
    · obtain ⟨n', u₁, hq₁, h⟩ := bind_eq_some.mp h
      have hlaw₁ : Lawful (Timely total) u₁.trace := by
        rw [ask_trace hq₁]
        exact lawful_snoc.mpr ⟨hlaw', Passive.timely trivial⟩
      split at h
      · cases h
        exact hlaw₁
      · exact fallAsleep_paced (s := { s with buf := block.toList }) hpos htotal hv hlaw₁ h
    · obtain ⟨s', u₁, hins, h⟩ := bind_eq_some.mp h
      have hdue' : Due total .insertion u'.trace := hu' ▸ (hdue .insertion).snoc rfl rfl
      have hkeep := (yields_iff hins).mp (insertBlock_interval (P := P))
      exact fallAsleep_paced hpos htotal (hkeep.trans hv) (insertBlock_timely hlaw' hdue' hins) h

/-- The record of requests only gets longer. -/
def Longer (w w' : ToolWorld H) : Prop := w.trace <+: w'.trace

instance : IsPreorder (ToolWorld H) Longer where
  refl w := List.prefix_refl w.trace
  trans _ _ _ h h' := List.IsPrefix.trans h h'

theorem ask_longer (q : ToolRequest) : Within Longer (ask P q) := by
  intro w ans w' h
  exact ⟨_, (ask_trace h).symm⟩

section Within

variable {R : ToolWorld H → ToolWorld H → Prop} [IsPreorder (ToolWorld H) R]

theorem fallAsleep_within (hask : ∀ q, q ≠ .signalCount → Within R (ask P q)) :
    Within R (fallAsleep P s) := by
  unfold fallAsleep
  split
  · exact within_pure _
  · split
    · exact within_pure _
    · exact within_bind (hask _ nofun) fun _ => within_pure _

theorem forceReseed_within (hask : ∀ q, q ≠ .signalCount → Within R (ask P q)) :
    Within R (forceReseed P s) := by
  unfold forceReseed
  split
  · exact within_pure _
  · refine within_bind (hask _ nofun) fun ans => ?_
    cases ans <;> exact within_pure _

theorem insertBlock_within (hask : ∀ q, q ≠ .signalCount → Within R (ask P q)) :
    Within R (insertBlock P s) := by
  unfold insertBlock
  split
  · exact within_bind (hask _ nofun) fun _ => within_pure _
  · refine within_bind (hask _ nofun) fun ans => ?_
    cases ans with
    | error err =>
      dsimp only
      split
      · exact within_bind (hask _ nofun) fun _ => within_pure _
      · exact within_pure _
    | ok _ => exact forceReseed_within hask

end Within

theorem sleepOn_longer : Within Longer (sleepOn P start total s) := by
  unfold sleepOn
  refine within_bind (ask_longer _) fun t => ?_
  split
  · refine within_bind (ask_longer _) fun n => ?_
    split
    · exact within_bind (ask_longer _) fun _ =>
        within_bind (ask_longer _) fun _ => within_pure _
    · exact within_pure _
  · exact within_pure _

/-- At its head the loop looks for a signal first. -/
theorem seedStep_looks (hphase : s.phase = .seeding) (h : seedStep P s w = some (y, w')) :
    ∃ n u, ask P .signalCount w = some (n, u) ∧ Longer u w' ∧
      (n ≠ 0 → y = .inr .stopped ∧ w' = u) := by
  unfold seedStep at h
  rw [hphase] at h
  obtain ⟨n, u, hq, h⟩ := bind_eq_some.mp h
  refine ⟨n, u, hq, ?_, ?_⟩
  · have hlong : ∀ q, q ≠ .signalCount → Within Longer (ask P q) := fun q _ => ask_longer q
    refine (?_ : Within Longer _) u y w' h
    split
    · exact within_pure _
    · refine within_bind (ask_longer _) fun p => ?_
      dsimp only
      split
      · refine within_bind (ask_longer _) fun n' => ?_
        split
        · exact within_pure _
        · exact fallAsleep_within hlong
      · exact within_bind (insertBlock_within hlong) fun _ => fallAsleep_within hlong
  · intro hn
    rw [if_pos hn] at h
    cases h
    exact ⟨rfl, rfl⟩

theorem seedStep_longer : Within Longer (seedStep P s) := by
  intro w y w' h
  cases hphase : s.phase with
  | napping start total =>
    unfold seedStep at h
    rw [hphase] at h
    exact sleepOn_longer w y w' h
  | seeding =>
    obtain ⟨n, u, hq, hlong, _⟩ := seedStep_looks hphase h
    exact List.IsPrefix.trans (ask_longer _ w n u hq) hlong

def news : ToolReply → Option Int32
  | ⟨.signalCount, n⟩ => some n
  | _ => none

/-- The count of signals does not fall. -/
def Rising (es : List ToolReply) : Prop := (es.filterMap news).Pairwise (· ≤ ·)

/-- The seeder has seen a signal. -/
def Struck (e : ToolReply) : Prop := ∃ n, news e = some n ∧ 0 < n

def Unsignalled (es : List ToolReply) : Prop := ∀ e ∈ es, ¬ Struck e

/-- After the first sign of a signal there is at most one more look. -/
def Heeds : Seeder ⊕ Exit → List ToolReply → Prop
  | .inl s, es => Unsignalled es ∨
      s.phase = .seeding ∧ ∃ pre e, es = pre ++ [e] ∧ Unsignalled pre ∧ Struck e
  | .inr _, es => ∃ pre looks, es = pre ++ looks ∧ Unsignalled pre ∧ looks.length ≤ 2 ∧
      ∀ e ∈ looks, Struck e

theorem Rising.struck {n : Int32} (h : Rising (es ++ [⟨.signalCount, n⟩]))
    (he : e ∈ es) (hstruck : Struck e) : 0 < n := by
  obtain ⟨m, hm, hpos⟩ := hstruck
  rw [Rising, List.filterMap_append] at h
  have hle : m ≤ n := (List.pairwise_append.mp h).2.2 m (List.mem_filterMap.mpr ⟨e, he, hm⟩) n
    (List.mem_singleton_self n)
  exact Int32.lt_of_lt_of_le hpos hle

theorem Unsignalled.snoc (h : Unsignalled es) (he : ¬ Struck e) : Unsignalled (es ++ [e]) := by
  intro x hx
  rcases List.mem_append.mp hx with hx | hx
  · exact h x hx
  · rw [List.mem_singleton.mp hx]
    exact he

/-- Nothing new of signals is seen. -/
def Uninformed (w w' : ToolWorld H) : Prop := Unsignalled w.trace → Unsignalled w'.trace

instance : IsPreorder (ToolWorld H) Uninformed where
  refl _ h := h
  trans _ _ _ h h' hes := h' (h hes)

theorem ask_uninformed {q : ToolRequest} (hq : q ≠ .signalCount) :
    Within Uninformed (ask P q) := by
  intro w ans w' h hw
  rw [ask_trace h]
  refine hw.snoc ?_
  rintro ⟨n, hn, _⟩
  cases q <;> first | exact hq rfl | cases hn

theorem looked {n : Int32} (hw : Unsignalled w.trace) (hn : ¬ 0 < n)
    (h : ask P .signalCount w = some (n, w')) : Unsignalled w'.trace := by
  rw [ask_trace h]
  refine hw.snoc ?_
  rintro ⟨m, hm, hpos⟩
  cases hm
  exact hn hpos

theorem Unsignalled.heeds (h : Unsignalled es) (y : Seeder ⊕ Exit) : Heeds y es := by
  cases y with
  | inl s => exact .inl h
  | inr _ => exact ⟨es, [], by simp, h, by simp, by simp⟩

theorem sleepOn_heeds (hw : Unsignalled w.trace)
    (h : sleepOn P start total s w = some (y, w')) : Heeds y w'.trace := by
  obtain ⟨t, u, hq, h⟩ := bind_eq_some.mp h
  replace hw := ask_uninformed (q := .now) nofun w t u hq hw
  split at h
  · obtain ⟨n, u₁, hq₁, h⟩ := bind_eq_some.mp h
    split at h
    · rename_i hn
      subst hn
      obtain ⟨t', u₂, hq₂, h⟩ := bind_eq_some.mp h
      obtain ⟨_, u₃, hq₃, h⟩ := bind_eq_some.mp h
      cases h
      have hw₁ := looked hw (by decide) hq₁
      have hw₂ := ask_uninformed (q := .now) nofun u₁ t' u₂ hq₂ hw₁
      exact (ask_uninformed (q := .sleep _) nofun u₂ _ _ hq₃ hw₂).heeds _
    · cases h
      by_cases hpos : 0 < n
      · exact .inr ⟨rfl, u.trace, _, ask_trace hq₁, hw, n, rfl, hpos⟩
      · exact (looked hw hpos hq₁).heeds _
  · cases h
    exact hw.heeds _

theorem stopped_heeds {pre : List ToolReply} {n : Int32} (hw : Unsignalled pre) :
    Heeds (.inr .stopped) (pre ++ [⟨.signalCount, n⟩]) := by
  by_cases hpos : 0 < n
  · exact ⟨pre, [⟨.signalCount, n⟩], rfl, hw, by simp, by simpa [Struck, news] using hpos⟩
  · refine Unsignalled.heeds (hw.snoc ?_) _
    rintro ⟨m, hm, hm'⟩
    cases hm
    exact hpos hm'

/-- After a signal the head of the loop is the end. -/
theorem seedStep_stops {pre : List ToolReply} (hphase : s.phase = .seeding)
    (htrace : w.trace = pre ++ [e]) (hpre : Unsignalled pre) (hstruck : Struck e)
    (hr : Rising w'.trace) (h : seedStep P s w = some (y, w')) : Heeds y w'.trace := by
  obtain ⟨n, u, hq, hlong, hstop⟩ := seedStep_looks hphase h
  have hu := ask_trace hq
  have hpos : 0 < n := by
    have hrising : Rising u.trace := hr.sublist (hlong.sublist.filterMap news)
    rw [hu] at hrising
    exact hrising.struck (htrace ▸ List.mem_append_right _ (List.mem_singleton_self e)) hstruck
  have hn : n ≠ 0 := by
    rintro rfl
    exact absurd hpos (by decide)
  obtain ⟨rfl, rfl⟩ := hstop hn
  refine ⟨pre, [e, ⟨.signalCount, n⟩], by rw [hu, htrace]; simp, hpre, by simp, ?_⟩
  intro x hx
  rcases List.mem_pair.mp hx with rfl | rfl
  · exact hstruck
  · exact ⟨n, rfl, hpos⟩

theorem seedStep_heeds (hs : Heeds (.inl s) w.trace) (hr : Rising w'.trace)
    (h : seedStep P s w = some (y, w')) : Heeds y w'.trace := by
  rcases hs with hw | ⟨hphase, pre, e, htrace, hpre, hstruck⟩
  · unfold seedStep at h
    cases hphase : s.phase with
    | napping start total =>
      rw [hphase] at h
      exact sleepOn_heeds hw h
    | seeding =>
      rw [hphase] at h
      obtain ⟨n, u, hq, h⟩ := bind_eq_some.mp h
      split at h
      · cases h
        rw [ask_trace hq]
        exact stopped_heeds hw
      rename_i hn
      obtain rfl : n = 0 := not_not.mp hn
      replace hw := looked hw (by decide) hq
      obtain ⟨⟨rv, block⟩, u₁, hq₁, h⟩ := bind_eq_some.mp h
      replace hw := ask_uninformed (q := .generateRandom _) nofun u _ u₁ hq₁ hw
      dsimp only at h
      split at h
      · obtain ⟨n, u₂, hq₂, h⟩ := bind_eq_some.mp h
        split at h
        · cases h
          rw [ask_trace hq₂]
          exact stopped_heeds hw
        · rename_i hn
          replace hw := looked hw hn hq₂
          exact (fallAsleep_within (fun _ => ask_uninformed) u₂ y w' h hw).heeds _
      · obtain ⟨s', u₂, hins, h⟩ := bind_eq_some.mp h
        replace hw := insertBlock_within (fun _ => ask_uninformed) u₁ s' u₂ hins hw
        exact (fallAsleep_within (fun _ => ask_uninformed) u₂ y w' h hw).heeds _
  · exact seedStep_stops hphase htrace hpre hstruck hr h

theorem paced_start (ha : a.interval = v) : Paced v total (.inl (.start a)) [] :=
  ⟨ha, lawful_nil, fun _ hany => absurd hany (by simp)⟩

/-- As many bits are credited as the insertions of a stretch can hold. -/
theorem credited_rate {n : Nat} (hbits : ∀ e ∈ es, creditedBits e =
      if Credited e = true then 8 * (n : Int) else 0)
    (hrate : total * (es.countP Act.insertion.marks - 1) ≤ start) :
    total * (es.map creditedBits).sum ≤ 8 * n * ((start : Int) + total) := by
  have hsum : (es.map creditedBits).sum = 8 * n * es.countP Credited := by
    clear hrate
    induction es with
    | nil => simp
    | cons e es ih =>
      have he := hbits e List.mem_cons_self
      rw [List.map_cons, List.sum_cons, ih fun x hx => hbits x (List.mem_cons_of_mem _ hx), he,
        List.countP_cons]
      split
      · push_cast
        ring
      · simp
  have hle : es.countP Credited ≤ es.countP Act.insertion.marks := by
    refine List.countP_mono_left fun e _ he => ?_
    unfold Credited at he
    split at he
    · rfl
    · cases he
  have hmul : total * es.countP Credited ≤ start + total := by
    calc total * es.countP Credited
        ≤ total * (es.countP Act.insertion.marks - 1 + 1) := Nat.mul_le_mul_left _ (by omega)
      _ = total * (es.countP Act.insertion.marks - 1) + total := Nat.mul_succ ..
      _ ≤ start + total := Nat.add_le_add_right hrate _
  calc (total : Int) * (es.map creditedBits).sum
      = 8 * n * ((total * es.countP Credited : Nat) : Int) := by
        rw [hsum]
        push_cast
        ring
    _ ≤ 8 * n * ((start : Int) + total) := by
        refine Int.mul_le_mul_of_nonneg_left ?_ (by positivity)
        exact_mod_cast hmul

/-- Over any run of the loop, whatever module and kernel answer: between two draws, and between two
insertions, at least the interval passes, so in no stretch of the run is more entropy credited than
that allows; the seeder looks for a signal before every draw and every 50 milliseconds of sleep; and
when it has seen one, it does no more than look once again. -/
theorem insertions_paced (hparse : parse parseF64 argv = .ok a)
    (htotal : fromSecsF64 a.interval = some total) (hstart : w.trace = [])
    (hrun : Thread Eq (seedStep P) (.inl (.start a)) w y w') :
    (∀ pre es post, w'.trace = pre ++ es ++ post → Fair calm reading es →
      (∀ act : Act, total * (es.countP act.marks - 1) ≤ span (times reading es)) ∧
      total * (es.map creditedBits).sum ≤
        8 * a.nbytes * ((span (times reading es) : Int) + total)) ∧
    (∀ pre e post, w'.trace = pre ++ e :: post → Alert pre e) ∧
    (Rising w'.trace → ∃ pre looks, w'.trace = pre ++ looks ∧ Unsignalled pre ∧
      looks.length ≤ 2 ∧ ∀ e ∈ looks, Struck e) := by
  have hpaced : Paced a.interval total y w'.trace := by
    refine hrun.keeps (I := fun y (v : ToolWorld H) => Paced a.interval total y v.trace) ?_
      fun s v y v' hs h => seedStep_paced (parse_interval hparse) htotal hs h
    rw [hstart]
    exact paced_start rfl
  have hlaw : Lawful (Timely total) w'.trace := by
    cases y with
    | inl s => exact hpaced.2.1
    | inr _ => exact hpaced
  have hholds : Holds a y w'.trace := by
    refine hrun.keeps (I := fun y (v : ToolWorld H) => Holds a y v.trace) ?_
      fun s v y v' hs h => seedStep_holds (parse_nbytes hparse).2 hs h
    rw [hstart]
    exact inv_start a
  have hlegal : Lawful (Legal a) w'.trace := by
    cases y with
    | inl s => exact hholds.lawful
    | inr _ => exact hholds
  refine ⟨?_, fun pre e post h => (hlaw pre e post h).1, fun hr => ?_⟩
  · intro pre es post htrace hfair
    have hrate : ∀ act : Act, total * (es.countP act.marks - 1) ≤ span (times reading es) := by
      intro act
      have hspaced : Lawful (Spaced act.marks calm reading total) (pre ++ es ++ post) := by
        rw [← htrace]
        exact fun pre e post h => (hlaw pre e post h).2 act
      exact Spaced.rate hspaced.of_append hfair
    refine ⟨hrate, credited_rate (fun e he => ?_) (hrate .insertion)⟩
    have hmem : e ∈ w'.trace := by simp [htrace, he]
    obtain ⟨before, after, hsplit⟩ := List.append_of_mem hmem
    exact creditedBits_of_legal (hlegal before e after hsplit)
  · have hheeds : Rising w'.trace → Heeds y w'.trace := by
      refine hrun.keeps (I := fun y (v : ToolWorld H) => Rising v.trace → Heeds y v.trace) ?_ ?_
      · rw [hstart]
        exact fun _ => Unsignalled.heeds (fun _ h => absurd h (by simp)) _
      · intro s v y v' hs h hr
        refine seedStep_heeds (hs ?_) hr h
        exact hr.sublist ((seedStep_longer v y v' h).sublist.filterMap news)
    cases y with
    | inl s =>
      rcases hheeds hr with hw | ⟨_, pre, e, htrace, hpre, hstruck⟩
      · exact ⟨w'.trace, [], by simp, hw, by simp, by simp⟩
      · exact ⟨pre, [e], htrace, hpre, by simp, by simpa using hstruck⟩
    | inr _ => exact hheeds hr

/-- A machine on which time passes only in sleep, a minute at a time. -/
def drowsy : ToolHost Nat where
  answer
    | .now, t => (t, t)
    | .sleep _, t => ((), t + 60000000000)
    | q, t => ((willing.answer q ()).1, t)

/-- The seeder leaves reseeding to the kernel. -/
def gentleArgs : Args := { plainArgs with noReseed := true }

theorem parse_gentle :
    parse (fun _ => none) ["p11rand-seed", "--no-reseed", "p11rand.so"] = .ok gentleArgs := rfl

theorem gentle_interval : fromSecsF64 gentleArgs.interval = some 60000000000 := by
  have hround : roundEven ((60000000000 : Int) : ℚ) = 60000000000 := by
    unfold roundEven
    rw [Rat.floor_intCast, sub_self, if_pos (by norm_num)]
  have hnanos : (60 : ℚ) * 10 ^ 9 = ((60000000000 : Int) : ℚ) := by norm_num
  unfold fromSecsF64 gentleArgs plainArgs defaultInterval
  dsimp only
  rw [if_neg (by norm_num), hnanos, hround]
  rfl

/-- The record after a pass over a fresh block. -/
def passed (header : RandPoolInfoHeader) (t : Nat) (es : List ToolReply) : List ToolReply :=
  es ++ [⟨.signalCount, (0 : Int32)⟩] ++
    [⟨.generateRandom 64, (ckrOk, Vector.replicate 64 (7 : UInt8))⟩] ++
    [⟨.addEntropy header (List.replicate 64 7), .ok ()⟩] ++ [⟨.now, t⟩]

theorem seedStep_drowsy (header : RandPoolInfoHeader) (buf : List UInt8) (t : Nat)
    (es : List ToolReply) : seedStep drowsy ⟨gentleArgs, header, buf, .seeding⟩ ⟨t, es⟩ =
      some (.inl ⟨gentleArgs, header, List.replicate 64 7, .napping t 60000000000⟩,
        ⟨t, passed header t es⟩) := by
  have hpos : gentleArgs.interval.nonpos = false := by decide
  have hsleep : ∀ es : List ToolReply,
      fallAsleep drowsy ⟨gentleArgs, header, List.replicate 64 7, .seeding⟩ ⟨t, es⟩ =
        some (.inl ⟨gentleArgs, header, List.replicate 64 7, .napping t 60000000000⟩,
          ⟨t, es ++ [⟨.now, t⟩]⟩) := by
    intro es
    unfold fallAsleep
    rw [if_neg (by simp [hpos]), gentle_interval]
    rfl
  refine (bind_of_eq (ask_apply _ _)).trans ?_
  refine (bind_of_eq (ask_apply _ _)).trans ?_
  exact (bind_of_eq rfl).trans (hsleep _)

theorem run_drowsy : ∃ y w', Thread Eq (seedStep drowsy) (.inl (.start gentleArgs)) ⟨0, []⟩ y w' ∧
    w'.trace.countP Act.draw.marks = 2 ∧ w'.trace.all calm = true ∧
      times reading w'.trace = [0, 0, 0, 60000000000, 60000000000] := by
  refine ⟨_, _, .step rfl (seedStep_drowsy _ _ _ _) (.step rfl rfl (.step rfl rfl
    (.step rfl (seedStep_drowsy _ _ _ _) (.idle rfl)))), ?_, ?_, ?_⟩
  · rfl
  · rfl
  · rfl

theorem insertions_paced_drowsy : ∃ w' : ToolWorld Nat, w'.trace.countP Act.draw.marks = 2 ∧
    span (times reading w'.trace) = 60000000000 ∧
    60000000000 * (w'.trace.countP Act.draw.marks - 1) ≤ span (times reading w'.trace) ∧
    (60000000000 : Nat) * (w'.trace.map creditedBits).sum ≤
      8 * (64 : Nat) * ((span (times reading w'.trace) : Int) + (60000000000 : Nat)) := by
  obtain ⟨y, w', hrun, hcount, hcalm, htimes⟩ := run_drowsy
  obtain ⟨hrate, _⟩ := insertions_paced parse_gentle gentle_interval rfl hrun
  have hfair : Fair calm reading w'.trace :=
    ⟨List.all_eq_true.mp hcalm, by rw [htimes]; decide⟩
  obtain ⟨hacts, hbits⟩ := hrate [] w'.trace [] (by simp) hfair
  exact ⟨w', hcount, by rw [htimes]; rfl, hacts .draw, hbits⟩

end P11Rand.Tools.Seed
