import P11Rand.Entries
import P11Rand.Observation

/-! The life of the module and of the PC/SC context that it holds: established once by a
successful `C_Initialize`, released by the `C_Finalize` that ends it. -/
namespace P11Rand

open Effect Run

variable {W : Type} {P : Platform W} {w w' : World W} {cfg : Config} {m m' : Module} {rv : Rv}

/-- The context is counted once for an initialized module that uses cards. -/
structure Balanced (cfg : Config) (m : Module) (g : Global) : Prop where
  refs : g.refs = if m.initialized = true ∧ 0 < cfg.iso7816Cards then 1 else 0
  ctx : g.ctx.isSome = true ↔ 0 < g.refs

theorem Balanced.unused {g : Global} (h : Balanced cfg m g) (hinit : m.initialized = false) :
    g = ⟨none, 0⟩ := by
  obtain ⟨hrefs, hctx⟩ := h
  obtain ⟨ctx, refs⟩ := g
  obtain rfl : refs = 0 := by simpa [hinit] using hrefs
  cases ctx with
  | none => rfl
  | some ctx => simp at hctx

/-- What the establishment of the context for an idle module leaves. -/
theorem globalInit_fresh (hg : w.global = ⟨none, 0⟩)
    (h : globalInit P cfg w = some (.ok (), w')) :
    if 0 < cfg.iso7816Cards then ∃ ctx, w'.global = ⟨some ctx, 1⟩ else w'.global = ⟨none, 0⟩ := by
  unfold globalInit at h
  split at h
  · rename_i hcards
    rw [if_pos hcards]
    obtain ⟨res, v, hres, h⟩ := bind_eq_some.mp h
    rcases Iso7816.globalInit_cases hres with ⟨hpos, _, _⟩ | ⟨_, rfl, _⟩ | ⟨_, rfl, ctx, hv⟩
    · simp [hg] at hpos
    · cases h
    · cases h
      exact ⟨ctx, hv⟩
  · rename_i hcards
    cases h
    rw [if_neg hcards, hg]

/-- A `C_Initialize` that fails leaves everything as it was. -/
theorem cInitialize_failed {args : Option InitArgs} (hb : Balanced cfg m w.global)
    (hc : m.cInitialize P cfg args w = some ((rv, m'), w')) (hrv : rv ≠ .ok) :
    m' = m ∧ w'.global = w.global := by
  rcases Module.cInitialize_spec hc with ⟨_, hm, hw | ⟨hinit, v, hg, hw⟩⟩ | ⟨hok, _⟩
  · exact ⟨hm, hw⟩
  · refine ⟨hm, ?_⟩
    have hidle := hb.unused hinit
    have hfresh := globalInit_fresh hidle hg
    by_cases hcards : 0 < cfg.iso7816Cards
    · rw [if_pos hcards] at hw hfresh
      obtain ⟨ctx, hv⟩ := hfresh
      rw [hw, hv, hidle]
      rfl
    · rw [if_neg hcards] at hw hfresh
      rw [hw, hfresh, hidle]
  · exact absurd hok hrv

theorem cFinalize_failed {reserved : Bool}
    (hc : m.cFinalize P cfg reserved w = some ((rv, m'), w')) (hrv : rv ≠ .ok) :
    m' = m ∧ w'.global = w.global := by
  rcases Module.cFinalize_spec hc with ⟨_, hm, hw⟩ | ⟨hok, _⟩
  · exact ⟨hm, by rw [hw]⟩
  · exact absurd hok hrv

theorem Balanced.same {g g' : Global} (h : Balanced cfg m g) (hg : g' = g)
    (hi : m'.initialized = m.initialized) : Balanced cfg m' g' := by
  subst hg
  exact ⟨by rw [hi]; exact h.refs, h.ctx⟩

/-- What each call leaves of the balance. -/
theorem Call.balanced {c : Call} (hm : ∀ s, some s ∈ m.sessions → s.Inv cfg)
    (hb : Balanced cfg m w.global) (hc : c.run P cfg m w = some ((rv, m'), w')) :
    Balanced cfg m' w'.global := by
  cases c with
  | cInitialize args =>
    by_cases hrv : rv = .ok
    · rcases Module.cInitialize_spec hc with ⟨hno, _⟩ | ⟨_, hinit, ⟨present, rfl⟩, v, hg, hw⟩
      · exact absurd hrv hno
      · have hfresh := globalInit_fresh (hb.unused hinit) hg
        rw [hw]
        by_cases hcards : 0 < cfg.iso7816Cards
        · rw [if_pos hcards] at hfresh
          obtain ⟨ctx, hv⟩ := hfresh
          exact ⟨by simp [hv, hcards], by simp [hv]⟩
        · rw [if_neg hcards] at hfresh
          exact ⟨by simp [hfresh, hcards], by simp [hfresh]⟩
    · obtain ⟨rfl, hw⟩ := cInitialize_failed hb hc hrv
      exact hb.same hw rfl
  | cFinalize reserved =>
    rcases Module.cFinalize_spec hc with ⟨_, rfl, rfl⟩ | ⟨_, hinit, rfl, hw⟩
    · exact hb
    · rw [hw]
      by_cases hcards : 0 < cfg.iso7816Cards
      · have hrefs : w.global.refs = 1 := by simpa [hinit, hcards] using hb.refs
        rw [if_pos hcards]
        exact ⟨by simp [Iso7816.released, hrefs], by simp [Iso7816.released, hrefs]⟩
      · have hrefs : w.global.refs = 0 := by simpa [hcards] using hb.refs
        rw [if_neg hcards]
        exact ⟨by simp [hrefs], hb.ctx⟩
  | cOpenSession slot flags phSession =>
    obtain ⟨⟨_, _, _⟩, _, hc, he⟩ := bind_eq_some.mp hc
    cases he
    obtain ⟨hd, ⟨_, slots, rfl⟩ | ⟨_, _, idx, pool, slots, _, _, rfl, _⟩⟩ :=
      Module.cOpenSession_spec hc
    · exact hb.same hd.global rfl
    · exact hb.same hd.global rfl
  | cCloseSession h =>
    rcases Module.cCloseSession_cases hc with ⟨rfl, rfl, _⟩ | ⟨s, _, _, _, rfl, hdrop⟩
    · exact hb
    · have hd := ((dropSlots_total (P := P) s.pool.slots).within _ _ _ hdrop).global
      exact hb.same hd rfl
  | cCloseAllSessions slot =>
    obtain ⟨hd, ⟨_, rfl⟩ | ⟨_, _, rfl⟩⟩ := Module.cCloseAllSessions_spec hc
    · exact hb.same hd.global rfl
    · exact hb.same hd.global rfl
  | cGenerateRandom h buf len =>
    obtain ⟨⟨_, _, _⟩, _, hc, he⟩ := bind_eq_some.mp hc
    cases he
    obtain ⟨rfl, rfl, _⟩ | ⟨s, res, pool, slice, _, _, hs, hread, rfl, _⟩ :=
      Module.cGenerateRandom_spec hc
    · exact hb
    · exact hb.same ((hm s (List.mem_of_getElem? hs)).read hread).2.global rfl
  | cGetSlotList tokenPresent pList pCount =>
    obtain ⟨⟨_, rfl⟩, hd⟩ := queries_spec (c := .cGetSlotList tokenPresent pList pCount) trivial hc
    exact hb.same hd.global rfl
  | cGetSlotInfo slot pInfo =>
    obtain ⟨⟨_, rfl⟩, hd⟩ := queries_spec (c := .cGetSlotInfo slot pInfo) trivial hc
    exact hb.same hd.global rfl
  | cGetTokenInfo slot pInfo =>
    obtain ⟨⟨_, rfl⟩, hd⟩ := queries_spec (c := .cGetTokenInfo slot pInfo) trivial hc
    exact hb.same hd.global rfl

theorem ModuleRun.balanced (hrun : ModuleRun P cfg m w) : Balanced cfg m w.global := by
  induction hrun with
  | started hg _ _ =>
    rw [hg]
    exact ⟨rfl, by simp⟩
  | elapsed _ hg _ _ ih => exact hg ▸ ih
  | called hrun hc ih => exact Call.balanced hrun.sessions ih hc

/-- The world but for the process's PC/SC context. -/
def World.detached (w : World W) : World W := { w with global := ⟨none, 0⟩ }

theorem observes_detached (hcards : cfg.iso7816Cards = 0) :
    Observes P World.detached cfg := by
  refine ⟨?_, ?_, fun h => absurd h (by omega)⟩
  · rintro q ⟨env, sched, _, trace, log⟩ ⟨_, _, _, _, _⟩ a w' hcore h
    cases hcore
    cases h
    exact ⟨_, rfl, rfl⟩
  · rintro ev ⟨env, sched, _, trace, log⟩ ⟨_, _, _, _, _⟩ a w' hcore h
    cases hcore
    cases h
    exact ⟨_, rfl, rfl⟩

theorem choose_detached (n : Nat) :
    Sees World.detached (choose n : Run (World W) Nat) := by
  rintro ⟨env, sched, _, trace, log⟩ ⟨_, _, _, _, _⟩ a w' hcore h
  cases hcore
  cases h
  exact ⟨_, rfl, rfl⟩

/-- Begun in `w`, the operation does not find the context missing: it is there and stays, or the
operation does not look at it. -/
def FindsContext {α : Type} (w : World W) (x : Run (World W) α) : Prop :=
  ((∃ ctx, w.global.ctx = some ctx) ∧ Post x w fun _ v => v.global = w.global) ∨
    Sees World.detached x

/-- The operations on pools of an initialized module find its context. -/
structure Module.Served (P : Platform W) (cfg : Config) (m : Module) (w : World W) : Prop where
  fillable : FindsContext w (fillable P cfg)
  opens : FindsContext w (Pool.open P cfg)
  reads : ∀ s, some s ∈ m.sessions → ∀ buf, FindsContext w (s.pool.read P buf)
  drops : ∀ s, some s ∈ m.sessions → FindsContext w (s.pool.drop P)

theorem ModuleRun.served (hrun : ModuleRun P cfg m w) (hinit : m.initialized = true) :
    m.Served P cfg w := by
  have hb := hrun.balanced
  by_cases hcards : 0 < cfg.iso7816Cards
  · have hctx : ∃ ctx, w.global.ctx = some ctx := by
      rw [← Option.isSome_iff_exists, hb.ctx, hb.refs, if_pos ⟨hinit, hcards⟩]
      exact Nat.one_pos
    refine ⟨.inl ⟨hctx, ?_⟩, .inl ⟨hctx, ?_⟩, fun s hs buf => .inl ⟨hctx, ?_⟩,
      fun s hs => .inl ⟨hctx, ?_⟩⟩
    · intro _ v h
      exact ((fillable_total cfg).within _ _ _ h).global
    · intro _ v h
      exact ((Pool.open_total cfg).within _ _ _ h).global
    · rintro ⟨res, pool, buf'⟩ v h
      exact ((hrun.sessions s hs).read h).2.global
    · intro _ v h
      exact ((dropSlots_total s.pool.slots).within _ _ _ h).global
  · have ho : Observes P World.detached cfg := observes_detached (by omega)
    refine ⟨.inr (fillable_sees ho), .inr (Pool.open_sees ho), fun s hs buf => .inr ?_,
      fun s hs => .inr (dropSlots_sees ho _)⟩
    have hs := hrun.sessions s hs
    exact Pool.read_sees ho choose_detached hs.slots hs.config buf

/-- In every state the context is there exactly if it is counted, and counted exactly for an
initialized module that uses cards; calls that fail change nothing of it. -/
theorem lifecycle_balanced (hrun : ModuleRun P cfg m w) :
    (w.global.ctx.isSome = true ↔ 0 < w.global.refs) ∧
    w.global.refs = (if m.initialized = true ∧ 0 < cfg.iso7816Cards then 1 else 0) ∧
    (m.initialized = false → m.slots = [] ∧ m.sessions = List.replicate 64 none) ∧
    (m.initialized = true → m.slots.length = 1 ∧
      (∀ s, some s ∈ m.sessions → s.slot.toNat < m.slots.length) ∧ m.Served P cfg w) ∧
    (∀ args rv m' w', m.cInitialize P cfg args w = some ((rv, m'), w') → rv ≠ .ok →
      m' = m ∧ w'.global = w.global) ∧
    ∀ reserved rv m' w', m.cFinalize P cfg reserved w = some ((rv, m'), w') → rv ≠ .ok →
      m' = m ∧ w'.global = w.global := by
  have hb := hrun.balanced
  have hi := hrun.inv
  refine ⟨hb.ctx, hb.refs, fun hinit => ?_, fun hinit => ⟨?_, hi.ids, hrun.served hinit⟩,
    fun _ _ _ _ hc hrv => cInitialize_failed hb hc hrv,
    fun _ _ _ _ hc hrv => cFinalize_failed hc hrv⟩
  · obtain ⟨hslots, hnone⟩ := hi.idle hinit
    exact ⟨hslots, List.eq_replicate_iff.mpr ⟨hi.table, hnone⟩⟩
  · simpa using congrArg List.length (hi.published hinit)

theorem lifecycle_balanced_smartcard : ∃ w : World Unit,
    ModuleRun Bench.smartcard.machine Bench.oneCard Bench.cardModule w ∧
    w.global.ctx.isSome = true ∧ w.global.refs = 1 ∧
    Bench.cardModule.Served Bench.smartcard.machine Bench.oneCard w ∧
    ∀ args rv m' w', Bench.cardModule.cInitialize Bench.smartcard.machine Bench.oneCard args w =
      some ((rv, m'), w') → rv ≠ .ok → m' = Bench.cardModule ∧ w'.global = w.global := by
  obtain ⟨trace, hrun⟩ := Bench.run_smartcard
  obtain ⟨hctx, hrefs, _, hinit, hfail, _⟩ := lifecycle_balanced hrun
  have hone : (Bench.running trace).global.refs = 1 := hrefs
  exact ⟨_, hrun, hctx.mpr (by rw [hone]; exact Nat.one_pos), hone, (hinit rfl).2.2, hfail⟩

end P11Rand
