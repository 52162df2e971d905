import P11Rand.Probing

/-! What each entry point does to the module and to the process's PC/SC context, and what holds of
the pools of all open sessions between any two calls. -/
namespace P11Rand

open Effect Run

variable {W : Type} {P : Platform W} {w w' : World W} {cfg : Config} {m m' : Module} {rv : Rv}
  {h slot flags : CkUlong} {A : Exchange → Prop}

theorem sweep_total (f : Session → Bool) (l : List (Option Session)) :
    Total (Does P fun _ => True) (sweep P f l) := by
  induction l with
  | nil => exact total_pure _
  | cons e l ih =>
    cases e with
    | none => exact total_bind ih fun _ => total_pure _
    | some s =>
      unfold sweep
      split
      · exact total_bind (dropSlots_total _) fun _ => total_bind ih fun _ => total_pure _
      · exact total_bind ih fun _ => total_pure _

theorem request_global {q : Request} {ans : q.Answer} (h : request P q w = some (ans, w')) :
    w'.global = w.global := by
  rw [request_apply] at h
  cases h
  rfl

namespace Iso7816

/-- The first user of the context establishes it, the others count themselves. -/
theorem globalInit_cases {res : Except Error Unit} (h : globalInit P w = some (res, w')) :
    (0 < w.global.refs ∧ res = .ok () ∧
      w'.global = { w.global with refs := w.global.refs + 1 }) ∨
    (w.global.refs = 0 ∧ res = .error .transport ∧ w'.global = w.global) ∨
    (w.global.refs = 0 ∧ res = .ok () ∧ ∃ ctx, w'.global = ⟨some ctx, 1⟩) := by
  simp only [globalInit, bind_apply, get_apply, Option.bind_some] at h
  split at h
  · rename_i hpos
    cases h
    exact .inl ⟨hpos, rfl, rfl⟩
  · rename_i hzero
    have hzero : w.global.refs = 0 := by omega
    obtain ⟨ans, v, hq, h⟩ := bind_eq_some.mp h
    cases ans with
    | error e =>
      cases h
      exact .inr (.inl ⟨hzero, rfl, request_global hq⟩)
    | ok ctx =>
      cases h
      exact .inr (.inr ⟨hzero, rfl, ctx, rfl⟩)

/-- The count after one user has gone. -/
def released (g : Global) : Global :=
  if g.refs = 0 then g else if g.refs - 1 = 0 then ⟨none, 0⟩ else { g with refs := g.refs - 1 }

theorem globalShutdown_released (P : Platform W) (w : World W) :
    Yields (globalShutdown P) w fun _ w' => w'.global = released w.global := by
  simp only [Yields, globalShutdown, bind_apply, get_apply, Option.bind_some, released]
  split
  · exact ⟨_, _, rfl, rfl⟩
  · split
    · cases hctx : w.global.ctx with
      | none => exact ⟨_, _, rfl, rfl⟩
      | some ctx => exact ⟨_, _, rfl, rfl⟩
    · exact ⟨_, _, rfl, rfl⟩

end Iso7816

theorem globalShutdown_released (P : Platform W) (cfg : Config) (w : World W) :
    Yields (globalShutdown P cfg) w fun _ w' => w'.global =
      if 0 < cfg.iso7816Cards then Iso7816.released w.global else w.global := by
  unfold globalShutdown
  split
  · exact Iso7816.globalShutdown_released P w
  · exact ⟨_, _, rfl, rfl⟩

theorem globalInit_error {e : Error} (h : globalInit P cfg w = some (.error e, w')) :
    w'.global = w.global := by
  unfold globalInit at h
  split at h
  · obtain ⟨res, v, hres, h⟩ := bind_eq_some.mp h
    rcases Iso7816.globalInit_cases hres with ⟨_, rfl, _⟩ | ⟨_, rfl, hv⟩ | ⟨_, rfl, _⟩
    · cases h
    · cases h
      exact hv
    · cases h
  · cases h

theorem Pool.read_evolves {p p' : Pool} {buf buf' : List UInt8} {res : Except Error Unit}
    (hok : SlotsOk p.config p.slots) (h : p.read P buf w = some ((res, p', buf'), w')) :
    p.Evolves p' ∧ Later P w w' := by
  cases hc : p.config.useChain with
  | true =>
    obtain ⟨_, _, _, hlat, hev, _⟩ := read_chain_cases hok.length_eq hc h
    exact ⟨hev, hlat⟩
  | false =>
    obtain ⟨_, _, _, _, _, _, _, hev, hlat, _⟩ := read_passthrough_cases hok hc h
    exact ⟨hev, hlat⟩

namespace Module

/-- The slot was published and the table cleared, or nothing happened to the module. -/
theorem cInitialize_spec {args : Option InitArgs}
    (hc : m.cInitialize P cfg args w = some ((rv, m'), w')) :
    (rv ≠ .ok ∧ m' = m ∧ (w'.global = w.global ∨ m.initialized = false ∧
        ∃ v, globalInit P cfg w = some (.ok (), v) ∧ w'.global =
          if 0 < cfg.iso7816Cards then Iso7816.released v.global else v.global)) ∨
      rv = .ok ∧ m.initialized = false ∧
        (∃ present, m' = ⟨true, [⟨cfg.slotName, present⟩], cleared (fun _ => true) m.sessions⟩) ∧
        ∃ v, globalInit P cfg w = some (.ok (), v) ∧ w'.global = v.global := by
  unfold cInitialize at hc
  split at hc
  · cases hc
    exact .inl ⟨by simp, rfl, .inl rfl⟩
  rename_i hinit
  split at hc
  · cases hc
    exact .inl ⟨by simp, rfl, .inl rfl⟩
  obtain ⟨r, v, hg, hc⟩ := bind_eq_some.mp hc
  cases r with
  | error e =>
    cases hc
    exact .inl ⟨by simp, rfl, .inl (globalInit_error hg)⟩
  | ok _ =>
    obtain ⟨r, u, hf, hc⟩ := bind_eq_some.mp hc
    have hu := ((fillable_total cfg).within _ _ _ hf).global
    cases r with
    | error e =>
      obtain ⟨_, u', hs, hc⟩ := bind_eq_some.mp hc
      cases hc
      have hrel := (yields_iff hs).mp (globalShutdown_released P cfg u)
      rw [hu] at hrel
      exact .inl ⟨by simp, rfl, .inr ⟨by simpa using hinit, v, hg, hrel⟩⟩
    | ok present =>
      obtain ⟨sessions, u', hsweep, hc⟩ := bind_eq_some.mp hc
      cases hc
      have hd := ((sweep_total (P := P) _ _).within _ _ _ hsweep).global
      rw [sweep_eq hsweep]
      exact .inr ⟨rfl, by simpa using hinit, ⟨present, rfl⟩, v, hg, hd.trans hu⟩

theorem cFinalize_spec {reserved : Bool}
    (hc : m.cFinalize P cfg reserved w = some ((rv, m'), w')) :
    (rv ≠ .ok ∧ m' = m ∧ w' = w) ∨ rv = .ok ∧ m.initialized = true ∧
      m' = ⟨false, [], cleared (fun _ => true) m.sessions⟩ ∧
      w'.global = if 0 < cfg.iso7816Cards then Iso7816.released w.global else w.global := by
  unfold cFinalize at hc
  split at hc
  · cases hc
    exact .inl ⟨by simp, rfl, rfl⟩
  split at hc
  · cases hc
    exact .inl ⟨by simp, rfl, rfl⟩
  rename_i hinit
  obtain ⟨sessions, v, hsweep, hc⟩ := bind_eq_some.mp hc
  obtain ⟨_, u, hs, hc⟩ := bind_eq_some.mp hc
  cases hc
  have hd := ((sweep_total (P := P) _ _).within _ _ _ hsweep).global
  have hrel := (yields_iff hs).mp (globalShutdown_released P cfg v)
  rw [sweep_eq hsweep]
  exact .inr ⟨rfl, by simpa using hinit, rfl, by rw [hrel, hd]⟩

/-- A session was opened in the first free entry, or none was. -/
theorem cOpenSession_spec {phSession h' : Option CkUlong}
    (hc : m.cOpenSession P cfg slot flags phSession w = some ((rv, m', h'), w')) :
    Does P (fun _ => True) w w' ∧
    ((rv ≠ .ok ∧ ∃ slots, m' = { m with slots }) ∨
      rv = .ok ∧ m.initialized = true ∧ ∃ idx pool slots,
        m.sessions.findIdx? Option.isNone = some idx ∧ Pool.open P cfg w = some (.ok pool, w') ∧
        m' = { m with slots, sessions := m.sessions.set idx (some ⟨slot, flags, pool⟩) } ∧
        h' = some (UInt64.ofNat (idx + 1))) := by
  unfold cOpenSession at hc
  split at hc
  · cases hc
    exact ⟨Std.Refl.refl _, .inl ⟨by simp, _, rfl⟩⟩
  split at hc
  · cases hc
    exact ⟨Std.Refl.refl _, .inl ⟨by simp, _, rfl⟩⟩
  split at hc
  · cases hc
    exact ⟨Std.Refl.refl _, .inl ⟨by simp, _, rfl⟩⟩
  rename_i hinit
  split at hc
  · cases hc
    exact ⟨Std.Refl.refl _, .inl ⟨by simp, _, rfl⟩⟩
  cases hfree : m.sessions.findIdx? Option.isNone with
  | none =>
    rw [hfree] at hc
    cases hc
    exact ⟨Std.Refl.refl _, .inl ⟨by simp, _, rfl⟩⟩
  | some idx =>
    rw [hfree] at hc
    obtain ⟨r, v, hopen, hc⟩ := bind_eq_some.mp hc
    have hd := (Pool.open_total cfg).within _ _ _ hopen
    cases r with
    | error e =>
      cases e with
      | notEnoughSources =>
        obtain ⟨m₁, u, hset, hc⟩ := bind_eq_some.mp hc
        cases hc
        obtain ⟨slots, rfl, _, rfl⟩ := setTokenPresent_cases hset
        exact ⟨hd, .inl ⟨by simp, slots, rfl⟩⟩
      | resource =>
        cases hc
        exact ⟨hd, .inl ⟨by simp, _, rfl⟩⟩
      | readFailure =>
        cases hc
        exact ⟨hd, .inl ⟨by simp, _, rfl⟩⟩
    | ok pool =>
      obtain ⟨m₁, u, hset, hc⟩ := bind_eq_some.mp hc
      cases hc
      obtain ⟨slots, rfl, _, rfl⟩ := setTokenPresent_cases hset
      exact ⟨hd, .inr ⟨rfl, by simpa using hinit, idx, pool, slots, rfl, hopen, rfl, rfl⟩⟩

/-- The only failure of a well-formed call for want of room is that of a full table. -/
theorem cOpenSession_full {handle : CkUlong} {out : Option CkUlong}
    (hserial : flags &&& ckfSerialSession ≠ 0) (hinit : m.initialized = true)
    (hslot : slot.toNat < m.slots.length)
    (hc : m.cOpenSession P cfg slot flags (some handle) w = some ((rv, m', out), w')) :
    rv = .hostMemory ↔ none ∉ m.sessions := by
  have hfind : none ∉ m.sessions ↔ m.sessions.findIdx? Option.isNone = none := by
    rw [List.findIdx?_eq_none_iff]
    constructor
    · intro hno e he
      cases e with
      | none => exact absurd he hno
      | some s => rfl
    · intro hall hmem
      cases hall none hmem
  unfold cOpenSession at hc
  simp only [Option.isNone_some, Bool.false_eq_true, if_false, hserial, hinit,
    not_true_eq_false, ge_iff_le, Nat.not_le.mpr hslot] at hc
  rw [hfind]
  cases hfree : m.sessions.findIdx? Option.isNone with
  | none =>
    rw [hfree] at hc
    cases hc
    simp
  | some idx =>
    rw [hfree] at hc
    obtain ⟨r, v, _, hc⟩ := bind_eq_some.mp hc
    cases r with
    | error e =>
      cases e with
      | notEnoughSources =>
        obtain ⟨_, _, _, hc⟩ := bind_eq_some.mp hc
        cases hc
        simp
      | resource =>
        cases hc
        simp
      | readFailure =>
        cases hc
        simp
    | ok pool =>
      obtain ⟨_, _, _, hc⟩ := bind_eq_some.mp hc
      cases hc
      simp

theorem cCloseSession_spec (hc : m.cCloseSession P h w = some ((rv, m'), w')) :
    (rv ≠ .ok ∧ m' = m ∧ (m.initialized = false ∨ m.findSession h = none)) ∨
      rv = .ok ∧ ∃ s, m.findSession h = some (h.toNat - 1) ∧
        m.sessions[h.toNat - 1]? = some (some s) ∧
        m' = { m with sessions := m.sessions.set (h.toNat - 1) none } := by
  unfold cCloseSession at hc
  split at hc
  · rename_i hinit
    cases hc
    exact .inl ⟨by simp, rfl, .inl (by simpa using hinit)⟩
  cases hf : m.findSession h with
  | none =>
    rw [hf] at hc
    cases hc
    exact .inl ⟨by simp, rfl, .inr rfl⟩
  | some idx =>
    obtain ⟨_, rfl, s, hs⟩ := findSession_cases hf
    rw [hf] at hc
    dsimp only at hc
    rw [hs] at hc
    obtain ⟨_, _, _, hc⟩ := bind_eq_some.mp hc
    cases hc
    exact .inr ⟨rfl, s, rfl, hs, rfl⟩

theorem cCloseAllSessions_spec
    (hc : m.cCloseAllSessions P slot w = some ((rv, m'), w')) :
    Does P (fun _ => True) w w' ∧
    ((rv ≠ .ok ∧ m' = m) ∨ rv = .ok ∧ m.initialized = true ∧
      m' = { m with sessions := cleared (fun s => s.slot == slot) m.sessions }) := by
  unfold cCloseAllSessions at hc
  split at hc
  · cases hc
    exact ⟨Std.Refl.refl _, .inl ⟨by simp, rfl⟩⟩
  rename_i hinit
  split at hc
  · cases hc
    exact ⟨Std.Refl.refl _, .inl ⟨by simp, rfl⟩⟩
  obtain ⟨sessions, v, hsweep, hc⟩ := bind_eq_some.mp hc
  cases hc
  rw [sweep_eq hsweep]
  exact ⟨(sweep_total _ _).within _ _ _ hsweep, .inr ⟨rfl, by simpa using hinit, rfl⟩⟩

/-- The call stopped before it came to a session, or it read from the pool of one. -/
theorem cGenerateRandom_spec {buf buf' : Option (List UInt8)} {len : CkUlong}
    (hc : m.cGenerateRandom P h buf len w = some ((rv, m', buf'), w')) :
    (m' = m ∧ w' = w ∧ (buf = none ∧ 0 < len ∨ m.initialized = false ∨ m.findSession h = none)) ∨
      ∃ s res pool slice, m.initialized = true ∧ m.findSession h = some (h.toNat - 1) ∧
        m.sessions[h.toNat - 1]? = some (some s) ∧
        s.pool.read P ((buf.getD []).take len.toNat) w = some ((res, pool, slice), w') ∧
        m' = { m with sessions := m.sessions.set (h.toNat - 1) (some { s with pool }) } ∧
        rv = if res = .ok () then .ok else .deviceError := by
  unfold cGenerateRandom at hc
  split at hc
  · rename_i hnull
    cases hc
    exact .inl ⟨rfl, rfl, .inl (by simpa using hnull)⟩
  split at hc
  · rename_i hinit
    cases hc
    exact .inl ⟨rfl, rfl, .inr (.inl (by simpa using hinit))⟩
  rename_i hinit
  cases hf : m.findSession h with
  | none =>
    rw [hf] at hc
    cases hc
    exact .inl ⟨rfl, rfl, .inr (.inr rfl)⟩
  | some idx =>
    obtain ⟨_, rfl, s, hs⟩ := findSession_cases hf
    rw [hf] at hc
    dsimp only at hc
    rw [hs] at hc
    obtain ⟨⟨res, pool, slice⟩, v, hread, hc⟩ := bind_eq_some.mp hc
    refine .inr ⟨s, res, pool, slice, by simpa using hinit, rfl, hs, ?_⟩
    cases res with
    | error e =>
      cases hc
      exact ⟨hread, rfl, by simp⟩
    | ok _ =>
      cases hc
      exact ⟨hread, rfl, by simp⟩

end Module

/-- What holds of an open session. -/
structure Session.Inv (cfg : Config) (s : Session) : Prop where
  config : s.pool.config = cfg
  valid : cfg.validate = .ok ()
  slots : SlotsOk cfg s.pool.slots

theorem Session.Inv.read {s : Session} {pool : Pool} {buf buf' : List UInt8}
    {res : Except Error Unit} (hs : s.Inv cfg)
    (hr : s.pool.read P buf w = some ((res, pool, buf'), w')) :
    Session.Inv cfg { s with pool } ∧ Later P w w' := by
  obtain ⟨hev, hlat⟩ := Pool.read_evolves (hs.config ▸ hs.slots) hr
  exact ⟨⟨hev.config.trans hs.config, hs.valid, hev.slotsOk hs.slots⟩, hlat⟩

theorem sessions_set {l : List (Option Session)} {i : Nat} {s : Session}
    (hl : ∀ s, some s ∈ l → s.Inv cfg) (hs : s.Inv cfg) :
    ∀ s', some s' ∈ l.set i (some s) → s'.Inv cfg := by
  intro s' hs'
  rcases mem_set_some hs' with hs' | hs'
  · exact hl s' hs'
  · cases hs'
    exact hs

/-- A call that only looks at the slots. -/
def Call.Queries : Call → Prop
  | .cGetSlotList _ _ _ | .cGetSlotInfo _ _ | .cGetTokenInfo _ _ => True
  | _ => False

theorem Call.queries_spec {c : Call} (hq : c.Queries)
    (hc : c.run P cfg m w = some ((rv, m'), w')) :
    (∃ slots, m' = { m with slots }) ∧ Does P (fun _ => True) w w' := by
  have hsame : (m' = m ∨ m.initialized = true ∧
      ∃ slots, m' = { m with slots } ∧ SameSlots m.slots slots) →
      ∃ slots, m' = { m with slots } := by
    rintro (rfl | ⟨_, slots, rfl, _⟩)
    · exact ⟨_, rfl⟩
    · exact ⟨slots, rfl⟩
  have hprobe : c.Probes m 0 := by
    cases c <;> first | exact trivial | exact hq.elim
  refine ⟨?_, (Call.probe_total hprobe).within _ _ _ hc⟩
  cases c with
  | cGetSlotList tokenPresent pList pCount =>
    obtain ⟨⟨_, _, _, _⟩, _, hc, he⟩ := bind_eq_some.mp hc
    cases he
    exact hsame (Module.cGetSlotList_cases hc)
  | cGetSlotInfo slot pInfo =>
    obtain ⟨⟨_, _, _⟩, _, hc, he⟩ := bind_eq_some.mp hc
    cases he
    exact hsame (Module.cGetSlotInfo_cases hc)
  | cGetTokenInfo slot pInfo =>
    obtain ⟨⟨_, _, _⟩, _, hc, he⟩ := bind_eq_some.mp hc
    cases he
    exact hsame (Module.cGetTokenInfo_cases hc)
  | _ => cases hq

/-- What each call leaves of the invariant of the sessions. -/
theorem Call.sessions {c : Call} (hc : c.run P cfg m w = some ((rv, m'), w'))
    (hm : ∀ s, some s ∈ m.sessions → s.Inv cfg) : ∀ s, some s ∈ m'.sessions → s.Inv cfg := by
  cases c with
  | cOpenSession slot flags phSession =>
    obtain ⟨⟨_, _, _⟩, _, hc, he⟩ := bind_eq_some.mp hc
    cases he
    obtain ⟨_, ⟨_, slots, rfl⟩ | ⟨_, _, idx, pool, slots, _, hopen, rfl, _⟩⟩ :=
      Module.cOpenSession_spec hc
    · exact hm
    · obtain ⟨hv, hcfg, _, hok, _⟩ := Pool.open_cases hopen
      exact sessions_set hm ⟨hcfg, hv, hok⟩
  | cGenerateRandom h buf len =>
    obtain ⟨⟨_, _, _⟩, _, hc, he⟩ := bind_eq_some.mp hc
    cases he
    obtain ⟨rfl, _⟩ | ⟨s, res, pool, slice, _, _, hs, hread, rfl, _⟩ :=
      Module.cGenerateRandom_spec hc
    · exact hm
    · exact sessions_set hm ((hm s (List.mem_of_getElem? hs)).read hread).1
  | cInitialize args =>
    obtain ⟨_, rfl, _⟩ | ⟨_, _, ⟨_, rfl⟩, _⟩ := Module.cInitialize_spec hc
    · exact hm
    · intro s hs
      cases cleared_all hs
  | cFinalize reserved =>
    obtain ⟨_, rfl, _⟩ | ⟨_, _, rfl, _⟩ := Module.cFinalize_spec hc
    · exact hm
    · intro s hs
      cases cleared_all hs
  | cCloseSession h =>
    obtain ⟨rfl, _⟩ | ⟨_, _, _, _, rfl, _⟩ := Module.cCloseSession_cases hc
    · exact hm
    · intro s hs
      rcases mem_set_some hs with hs | hs
      · exact hm s hs
      · cases hs
  | cCloseAllSessions slot =>
    obtain ⟨_, ⟨_, rfl⟩ | ⟨_, _, rfl⟩⟩ := Module.cCloseAllSessions_spec hc
    · exact hm
    · exact fun s hs => hm s (mem_cleared hs).1
  | cGetSlotList tokenPresent pList pCount =>
    obtain ⟨⟨_, rfl⟩, _⟩ := queries_spec (c := .cGetSlotList tokenPresent pList pCount) trivial hc
    exact hm
  | cGetSlotInfo slot pInfo =>
    obtain ⟨⟨_, rfl⟩, _⟩ := queries_spec (c := .cGetSlotInfo slot pInfo) trivial hc
    exact hm
  | cGetTokenInfo slot pInfo =>
    obtain ⟨⟨_, rfl⟩, _⟩ := queries_spec (c := .cGetTokenInfo slot pInfo) trivial hc
    exact hm

theorem ModuleRun.sessions (hrun : ModuleRun P cfg m w) :
    ∀ s, some s ∈ m.sessions → s.Inv cfg := by
  induction hrun with
  | started =>
    intro s hs
    cases List.eq_of_mem_replicate hs
  | elapsed _ _ _ _ ih => exact ih
  | called _ hc ih => exact Call.sessions hc ih

end P11Rand
