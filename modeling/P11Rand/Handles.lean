import P11Rand.HandleTable
import P11Rand.Lifecycle

/-! The session table against its purpose: a partial map from handles to what was granted to the
caller who opened the session. -/
namespace P11Rand

open Effect Run

variable {W : Type} {P : Platform W} {w w' : World W} {cfg : Config} {m m' : Module} {rv : Rv}
  {h slot flags : CkUlong}

/-- What a session was opened with. -/
structure Grant where
  slot : CkUlong
  flags : CkUlong
  deriving DecidableEq

/-- The live handles. -/
abbrev Handles := CkUlong → Option Grant

/-- A handle returned by `C_OpenSession` is live until it is closed, swept or finalized. -/
def Handles.after (live : Handles) : Call → Rv → Option CkUlong → Handles
  | .cOpenSession slot flags _, .ok, some h => Function.update live h (some ⟨slot, flags⟩)
  | .cCloseSession h, .ok, _ => Function.update live h none
  | .cCloseAllSessions slot, .ok, _ => fun h => (live h).filter fun g => g.slot ≠ slot
  | .cFinalize _, .ok, _ => fun _ => none
  | _, _, _ => live

/-- A call with all that the table's user sees of it: the return value and, from `C_OpenSession`,
the handle. -/
def Call.reply (P : Platform W) (cfg : Config) (m : Module) :
    Call → Run (World W) (Rv × Option CkUlong × Module)
  | .cOpenSession slot flags phSession => do
    let (rv, m, h) ← m.cOpenSession P cfg slot flags phSession
    return (rv, h, m)
  | c => do
    let (rv, m) ← c.run P cfg m
    return (rv, none, m)

/-- A run of the module, with the handles that are live after it. -/
inductive SessionRun (P : Platform W) (cfg : Config) : Handles → Module → World W → Prop
  | started {w : World W} : w.global = ⟨none, 0⟩ → w.trace = [] → w.log = [] →
      SessionRun P cfg (fun _ => none) Module.new w
  | elapsed {live : Handles} {m : Module} {w w' : World W} : SessionRun P cfg live m w →
      w'.global = w.global → w'.trace = w.trace → w'.log = w.log → SessionRun P cfg live m w'
  | called {live : Handles} {m m' : Module} {w w' : World W} {c : Call} {rv : Rv}
      {handle : Option CkUlong} : SessionRun P cfg live m w →
      c.reply P cfg m w = some ((rv, handle, m'), w') →
      SessionRun P cfg (live.after c rv handle) m' w'
  | queried {live : Handles} {m : Module} {w w' : World W} {h : CkUlong}
      {pInfo info : Option CkSessionInfo} {rv : Rv} : SessionRun P cfg live m w →
      m.cGetSessionInfo h pInfo w = some ((rv, info), w') → SessionRun P cfg live m w'

def Session.grant (s : Session) : Grant := ⟨s.slot, s.flags⟩

/-- The map that the table stands for. -/
def Module.granted (m : Module) : Handles := fun h =>
  (HandleTable.find m.sessions h.toNat).map Session.grant

theorem Call.reply_run {c : Call} {handle : Option CkUlong}
    (hc : c.reply P cfg m w = some ((rv, handle, m'), w')) :
    c.run P cfg m w = some ((rv, m'), w') := by
  cases c with
  | cOpenSession slot flags phSession =>
    obtain ⟨⟨_, _, _⟩, _, hc, he⟩ := bind_eq_some.mp hc
    cases he
    exact bind_of_eq hc
  | _ =>
    obtain ⟨⟨_, _⟩, _, hc, he⟩ := bind_eq_some.mp hc
    cases he
    exact hc

theorem Module.findSession_eq (m : Module) (h : CkUlong) :
    m.findSession h = (HandleTable.find m.sessions h.toNat).map fun _ => h.toNat - 1 := by
  unfold findSession HandleTable.find
  by_cases hz : h = 0
  · simp [hz]
  · have hne : h.toNat ≠ 0 := fun heq => hz (UInt64.toNat_inj.mp heq)
    rw [if_neg hz, if_neg hne]
    rcases m.sessions[h.toNat - 1]? with _ | _ | s <;> simp

theorem Module.findSession_none (m : Module) (h : CkUlong) :
    m.findSession h = none ↔ m.granted h = none := by
  rw [findSession_eq, granted, Option.map_eq_none_iff, Option.map_eq_none_iff]

theorem Handles.after_of_ne {live : Handles} {c : Call} {handle : Option CkUlong}
    (hrv : rv ≠ .ok) : live.after c rv handle = live := by
  unfold Handles.after
  split <;> simp_all

theorem toNat_eq_iff {i : Nat} (hi : i < 64) : h.toNat = i + 1 ↔ h = UInt64.ofNat (i + 1) := by
  have hsize : i + 1 < UInt64.size := by
    simp [UInt64.size]
    omega
  rw [← UInt64.toNat_inj, UInt64.toNat_ofNat_of_lt' hsize]

/-- The handle of the entry that was found for it. -/
theorem handle_of_found (hf : m.findSession h = some (h.toNat - 1)) :
    UInt64.ofNat (h.toNat - 1 + 1) = h := by
  obtain ⟨hz, _⟩ := Module.findSession_cases hf
  have hne : h.toNat ≠ 0 := fun heq => hz (UInt64.toNat_inj.mp heq)
  rw [Nat.sub_add_cancel (by omega), UInt64.ofNat_toNat]

/-- Writing an entry of the table changes what its handle stands for. -/
theorem Module.granted_set {idx : Nat} (htable : m.sessions.length = maxSessions)
    (hidx : idx < m.sessions.length) (slots : List SlotState) (e : Option Session) :
    Module.granted { m with slots, sessions := m.sessions.set idx e } =
      Function.update m.granted (UInt64.ofNat (idx + 1)) (e.map Session.grant) := by
  funext h
  have h64 : idx < 64 := by
    rw [htable] at hidx
    exact hidx
  rw [granted, HandleTable.find_set hidx, Function.update_apply]
  by_cases hh : h = UInt64.ofNat (idx + 1)
  · rw [if_pos hh, if_pos ((toNat_eq_iff h64).mpr hh)]
  · rw [if_neg hh, if_neg fun heq => hh ((toNat_eq_iff h64).mp heq)]
    rfl

theorem Module.granted_cleared {slots : List SlotState} {initialized : Bool}
    (f : Session → Bool) (g : Grant → Bool) (hfg : ∀ s, g s.grant = !f s) :
    Module.granted { initialized, slots, sessions := cleared f m.sessions } =
      fun h => (m.granted h).filter g := by
  funext h
  rw [granted, cleared, HandleTable.find_filter, granted]
  cases HandleTable.find m.sessions h.toNat with
  | none => rfl
  | some s =>
    rw [Option.filter_some, Option.map_some, Option.filter_some, hfg]
    cases f s <;> rfl

theorem Module.granted_idle (h : m.Inv cfg) (hinit : m.initialized = false) :
    m.granted = fun _ => none := by
  funext h'
  rw [← findSession_none]
  cases hf : m.findSession h' with
  | none => rfl
  | some idx =>
    obtain ⟨_, _, s, hs⟩ := findSession_cases hf
    cases (h.idle hinit).2 _ (List.mem_of_getElem? hs)

/-- A session is described by what it was opened with. -/
theorem Module.cGetSessionInfo_live {g : Grant} (hinit : m.initialized = true)
    (hg : m.granted h = some g) (info : CkSessionInfo) (w : World W) :
    ∃ state, m.cGetSessionInfo h (some info) w =
      some ((.ok, some ⟨g.slot, state, g.flags, 0⟩), w) := by
  obtain ⟨s, hs, rfl⟩ := Option.map_eq_some_iff.mp hg
  have hf : m.findSession h = some (h.toNat - 1) := by simp [findSession_eq, hs]
  obtain ⟨_, _, s', hs'⟩ := findSession_cases hf
  obtain rfl : s' = s := by
    cases hn : h.toNat with
    | zero => simp [hn] at hs
    | succ k =>
      rw [hn, Nat.add_sub_cancel] at hs'
      rw [hn, HandleTable.find_succ, hs'] at hs
      exact Option.some.inj hs
  simp only [cGetSessionInfo, Option.isNone_some, Bool.false_eq_true, if_false, hinit,
    not_true_eq_false, hf, hs']
  exact ⟨_, rfl⟩

theorem Module.cGetSessionInfo_world {pInfo info : Option CkSessionInfo}
    (hc : m.cGetSessionInfo h pInfo w = some ((rv, info), w')) : w' = w := by
  unfold cGetSessionInfo at hc
  split at hc
  · cases hc
    rfl
  split at hc
  · cases hc
    rfl
  cases hf : m.findSession h with
  | none =>
    rw [hf] at hc
    cases hc
    rfl
  | some idx =>
    obtain ⟨_, _, s, hs⟩ := findSession_cases hf
    rw [hf] at hc
    dsimp only at hc
    rw [hs] at hc
    cases hc
    rfl

/-- A call does to the table what it does to the map. -/
theorem Call.refines {c : Call} {handle : Option CkUlong} (hi : m.Inv cfg)
    (hc : c.reply P cfg m w = some ((rv, handle, m'), w')) :
    m'.granted = m.granted.after c rv handle := by
  have hall : ∀ {initialized : Bool} {slots : List SlotState},
      Module.granted { initialized, slots, sessions := cleared (fun _ => true) m.sessions } =
        fun _ => none := by
    intro initialized slots
    rw [Module.granted_cleared (fun _ => true) (fun _ => false) fun _ => rfl]
    funext h
    cases m.granted h <;> rfl
  have hrun := Call.reply_run hc
  cases c with
  | cInitialize args =>
    rcases Module.cInitialize_spec hrun with ⟨_, rfl, _⟩ | ⟨_, hinit, ⟨present, rfl⟩, _⟩
    · rfl
    · rw [hall, Module.granted_idle hi hinit]
      rfl
  | cFinalize reserved =>
    rcases Module.cFinalize_spec hrun with ⟨hrv, rfl, _⟩ | ⟨rfl, _, rfl, _⟩
    · rw [Handles.after_of_ne hrv]
    · rw [hall]
      rfl
  | cOpenSession slot flags phSession =>
    obtain ⟨⟨_, _, _⟩, _, hopen, he⟩ := bind_eq_some.mp hc
    cases he
    obtain ⟨_, ⟨hrv, slots, rfl⟩ | ⟨rfl, _, idx, pool, slots, hfree, _, rfl, rfl⟩⟩ :=
      Module.cOpenSession_spec hopen
    · rw [Handles.after_of_ne hrv]
      rfl
    · obtain ⟨hidx, _⟩ := List.findIdx?_eq_some_iff_getElem.mp hfree
      exact Module.granted_set hi.table hidx _ _
  | cCloseSession h =>
    rcases Module.cCloseSession_spec hrun with ⟨hrv, rfl, _⟩ | ⟨rfl, s, hf, hs, rfl⟩
    · rw [Handles.after_of_ne hrv]
    · have hset := Module.granted_set hi.table (List.getElem?_eq_some_iff.mp hs).1 m.slots none
      rwa [handle_of_found hf] at hset
  | cCloseAllSessions slot =>
    obtain ⟨_, ⟨hrv, rfl⟩ | ⟨rfl, _, rfl⟩⟩ := Module.cCloseAllSessions_spec hrun
    · rw [Handles.after_of_ne hrv]
    · apply Module.granted_cleared
      intro s
      by_cases hs : s.slot = slot <;> simp [Session.grant, hs]
  | cGenerateRandom h buf len =>
    obtain ⟨⟨_, _, _⟩, _, hgen, he⟩ := bind_eq_some.mp hrun
    cases he
    obtain ⟨rfl, _⟩ | ⟨s, res, pool, slice, _, hf, hs, _, rfl, _⟩ :=
      Module.cGenerateRandom_spec hgen
    · rfl
    · have hset := Module.granted_set hi.table (List.getElem?_eq_some_iff.mp hs).1 m.slots
        (some { s with pool })
      have hold : m.granted h = some s.grant := by
        obtain ⟨hz, _⟩ := Module.findSession_cases hf
        have hne : h.toNat ≠ 0 := fun heq => hz (UInt64.toNat_inj.mp heq)
        simp [Module.granted, HandleTable.find, hne, hs]
      rw [handle_of_found hf] at hset
      exact hset.trans (Function.update_eq_self_iff.mpr hold.symm)
  | cGetSlotList tokenPresent pList pCount =>
    obtain ⟨⟨_, rfl⟩, _⟩ := queries_spec (c := .cGetSlotList tokenPresent pList pCount) trivial hrun
    rfl
  | cGetSlotInfo slot pInfo =>
    obtain ⟨⟨_, rfl⟩, _⟩ := queries_spec (c := .cGetSlotInfo slot pInfo) trivial hrun
    rfl
  | cGetTokenInfo slot pInfo =>
    obtain ⟨⟨_, rfl⟩, _⟩ := queries_spec (c := .cGetTokenInfo slot pInfo) trivial hrun
    rfl

theorem SessionRun.refines {live : Handles} (hrun : SessionRun P cfg live m w) :
    ModuleRun P cfg m w ∧ m.granted = live := by
  induction hrun with
  | started hg ht hl =>
    refine ⟨.started hg ht hl, ?_⟩
    funext h
    rw [Module.granted, Option.map_eq_none_iff, HandleTable.find]
    split
    · rfl
    · rcases hs : Module.new.sessions[h.toNat - 1]? with _ | e
      · rfl
      · obtain rfl : e = none := List.eq_of_mem_replicate (List.mem_of_getElem? hs)
        rfl
  | elapsed _ hg ht hl ih => exact ⟨.elapsed ih.1 hg ht hl, ih.2⟩
  | called _ hc ih =>
    obtain ⟨hmod, rfl⟩ := ih
    exact ⟨.called hmod (Call.reply_run hc), Call.refines hmod.inv hc⟩
  | queried _ hq ih =>
    obtain rfl := Module.cGetSessionInfo_world hq
    exact ih

theorem toNat_injective : Function.Injective UInt64.toNat := fun _ _ h => UInt64.toNat_inj.mp h

/-- No entry of the table is out of reach of a `CK_ULONG`. -/
theorem image_granted (htable : m.sessions.length = maxSessions) :
    UInt64.toNat '' {h | m.granted h ≠ none} = HandleTable.Live m.sessions := by
  ext k
  simp only [Set.mem_image, Set.mem_ofPred_eq, HandleTable.Live, Module.granted, ne_eq,
    Option.map_eq_none_iff, ← Option.isSome_iff_ne_none]
  constructor
  · rintro ⟨h, hlive, rfl⟩
    exact hlive
  · intro hlive
    have hle := (HandleTable.live_subset _ hlive).2
    have hk : (UInt64.ofNat k).toNat = k := UInt64.toNat_ofNat_of_lt' (by
      rw [htable, maxSessions] at hle
      simp [UInt64.size]
      omega)
    exact ⟨_, by rwa [hk], hk⟩

theorem ncard_granted (htable : m.sessions.length = maxSessions) :
    {h | m.granted h ≠ none}.ncard = (HandleTable.Live m.sessions).ncard := by
  rw [← image_granted htable, Set.ncard_image_of_injective _ toNat_injective]

theorem finite_granted (htable : m.sessions.length = maxSessions) :
    {h | m.granted h ≠ none}.Finite := by
  apply Set.Finite.of_finite_image _ toNat_injective.injOn
  rw [image_granted htable]
  exact HandleTable.finite_live _

/-- The handle of the first free entry is new. -/
theorem fresh_handle {idx : Nat} (htable : m.sessions.length = maxSessions)
    (hfree : m.sessions.findIdx? Option.isNone = some idx) :
    UInt64.ofNat (idx + 1) ≠ 0 ∧ m.granted (UInt64.ofNat (idx + 1)) = none := by
  obtain ⟨hidx, hnone, _⟩ := List.findIdx?_eq_some_iff_getElem.mp hfree
  have h64 : idx < 64 := by
    rw [htable] at hidx
    exact hidx
  have hnat : (UInt64.ofNat (idx + 1)).toNat = idx + 1 := (toNat_eq_iff h64).mpr rfl
  constructor
  · intro hz
    rw [hz] at hnat
    simp at hnat
  · rw [Module.granted, hnat, HandleTable.find_succ, List.getElem?_eq_getElem hidx,
      Option.isNone_iff_eq_none.mp hnone]
    rfl

/-- The call reports the handle as invalid exactly if it is not live. -/
def Rejects {α : Type} (live : Handles) (h : CkUlong) (w : World W) (x : Run (World W) α)
    (rv : α → Rv) : Prop :=
  (live h = none → Yields x w fun r _ => rv r = .sessionHandleInvalid) ∧
    (live h ≠ none → Post x w fun r _ => rv r ≠ .sessionHandleInvalid)

theorem cCloseSession_rejects (hinit : m.initialized = true) (h : CkUlong) (w : World W) :
    Rejects m.granted h w (m.cCloseSession P h) Prod.fst := by
  constructor
  · intro hdead
    have hf := (Module.findSession_none m h).mpr hdead
    exact ⟨_, w, by simp [Module.cCloseSession, hinit, hf]; rfl, rfl⟩
  · rintro hlive ⟨rv, m'⟩ w' hc
    rcases Module.cCloseSession_spec hc with ⟨_, _, hno | hno⟩ | ⟨rfl, _⟩
    · rw [hinit] at hno
      cases hno
    · exact absurd ((Module.findSession_none m h).mp hno) hlive
    · simp

theorem cGetSessionInfo_rejects (hinit : m.initialized = true) (h : CkUlong) (info : CkSessionInfo)
    (w : World W) : Rejects m.granted h w (m.cGetSessionInfo h (some info)) Prod.fst := by
  constructor
  · intro hdead
    have hf := (Module.findSession_none m h).mpr hdead
    exact ⟨_, w, by simp [Module.cGetSessionInfo, hinit, hf]; rfl, rfl⟩
  · intro hlive r w' hc
    obtain ⟨g, hg⟩ := Option.ne_none_iff_exists'.mp hlive
    obtain ⟨state, heq⟩ := Module.cGetSessionInfo_live hinit hg info w
    rw [heq] at hc
    cases hc
    simp

theorem cGenerateRandom_rejects (hinit : m.initialized = true) (h : CkUlong) (buf : List UInt8)
    (len : CkUlong) (w : World W) :
    Rejects m.granted h w (m.cGenerateRandom P h (some buf) len) Prod.fst := by
  constructor
  · intro hdead
    have hf := (Module.findSession_none m h).mpr hdead
    exact ⟨_, w, by simp [Module.cGenerateRandom, hinit, hf]; rfl, rfl⟩
  · rintro hlive ⟨rv, m', out⟩ w' hc
    rcases Module.cGenerateRandom_spec hc with
      ⟨_, _, ⟨hnull, _⟩ | hno | hno⟩ | ⟨_, _, _, _, _, _, _, _, _, rfl⟩
    · cases hnull
    · rw [hinit] at hno
      cases hno
    · exact absurd ((Module.findSession_none m h).mp hno) hlive
    · dsimp only
      split <;> simp

/-- A session is open on a slot that there is. -/
theorem Module.granted_slot {g : Grant} (hi : m.Inv cfg) (hg : m.granted h = some g) :
    g.slot.toNat < m.slots.length := by
  obtain ⟨s, hs, rfl⟩ := Option.map_eq_some_iff.mp hg
  have hf : m.findSession h = some (h.toNat - 1) := by simp [findSession_eq, hs]
  obtain ⟨hz, _⟩ := findSession_cases hf
  have hne : h.toNat ≠ 0 := fun heq => hz (UInt64.toNat_inj.mp heq)
  rw [HandleTable.find, if_neg hne] at hs
  exact hi.ids s (List.mem_of_getElem? (Option.join_eq_some_iff.mp hs))

/-- A live handle can be closed, and no other goes with it. -/
theorem cCloseSession_closes (hi : m.Inv cfg) (h : CkUlong) (w : World W) :
    Yields (m.cCloseSession P h) w fun r _ => (r.1 = .ok ↔ m.granted h ≠ none) ∧
      r.2.granted = Function.update m.granted h none := by
  have hdead : m.granted h = none → m.granted = Function.update m.granted h none := by
    intro hnone
    rw [← hnone, Function.update_eq_self]
  by_cases hinit : m.initialized = true
  · cases hf : m.findSession h with
    | none =>
      have hnone := (Module.findSession_none m h).mp hf
      refine ⟨_, w, by simp [Module.cCloseSession, hinit, hf]; rfl, ?_⟩
      exact ⟨by simp [hnone], hdead hnone⟩
    | some idx =>
      have hlive : m.granted h ≠ none := fun hnone => by
        rw [(Module.findSession_none m h).mpr hnone] at hf
        cases hf
      obtain ⟨_, _, s, hs⟩ := Module.findSession_cases hf
      obtain ⟨_, v, hdrop, _⟩ := dropSlots_total (P := P) s.pool.slots w
      have hc : m.cCloseSession P h w =
          some ((.ok, { m with sessions := m.sessions.set idx none }), v) := by
        unfold Module.cCloseSession
        rw [if_neg (by simp [hinit]), hf]
        dsimp only
        rw [hs]
        exact bind_of_eq hdrop
      have href := Call.refines (P := P) (c := .cCloseSession h) hi (bind_of_eq hc)
      exact ⟨_, v, hc, ⟨fun _ => hlive, fun _ => rfl⟩, href⟩
  · have hnone : m.granted h = none := by
      rw [Module.granted_idle hi (by simpa using hinit)]
    refine ⟨_, w, by simp [Module.cCloseSession, hinit]; rfl, ?_⟩
    exact ⟨by simp [hnone], hdead hnone⟩

/-- `C_CloseAllSessions` refuses a slot only if no session can be open on it. -/
theorem cCloseAllSessions_sweeps (hi : m.Inv cfg) (slot : CkUlong) (w : World W) :
    Yields (m.cCloseAllSessions P slot) w fun r _ =>
      (r.1 = .ok ↔ m.initialized = true ∧ slot.toNat < m.slots.length) ∧
      ∀ h, r.2.granted h = (m.granted h).filter fun g => g.slot ≠ slot := by
  by_cases hinit : m.initialized = true
  · by_cases hslot : slot.toNat < m.slots.length
    · obtain ⟨l, v, hsweep, _⟩ := sweep_total (P := P) (fun s => s.slot == slot) m.sessions w
      have hc : m.cCloseAllSessions P slot w = some ((.ok, { m with sessions := l }), v) := by
        unfold Module.cCloseAllSessions
        rw [if_neg (by simp [hinit]), if_neg (by simpa using hslot)]
        exact bind_of_eq hsweep
      have href := Call.refines (P := P) (c := .cCloseAllSessions slot) hi (bind_of_eq hc)
      exact ⟨_, v, hc, ⟨fun _ => ⟨hinit, hslot⟩, fun _ => rfl⟩, congrFun href⟩
    · refine ⟨(.slotIdInvalid, m), w, ?_, by simp [hslot], fun h => ?_⟩
      · unfold Module.cCloseAllSessions
        rw [if_neg (by simp [hinit]), if_pos (not_lt.mp hslot)]
        rfl
      · -- a handle on this slot cannot be live
        cases hg : m.granted h with
        | none => rfl
        | some g =>
          have hne : g.slot ≠ slot := fun heq => hslot (heq ▸ Module.granted_slot hi hg)
          rw [Option.filter_some, if_pos (by simpa using hne)]
  · refine ⟨(.cryptokiNotInitialized, m), w, ?_, by simp [hinit], fun h => ?_⟩
    · unfold Module.cCloseAllSessions
      rw [if_pos hinit]
      rfl
    · rw [Module.granted_idle hi (by simpa using hinit)]
      rfl

/-- `C_Finalize` ends all sessions; a module that is not initialized has none. -/
theorem cFinalize_ends (hi : m.Inv cfg) (w : World W) :
    Yields (m.cFinalize P cfg true) w fun r _ =>
      (r.1 = .ok ↔ m.initialized = true) ∧ r.2.granted = fun _ => none := by
  by_cases hinit : m.initialized = true
  · obtain ⟨l, v, hsweep, _⟩ := sweep_total (P := P) (fun _ => true) m.sessions w
    obtain ⟨_, u, hdown, _⟩ := globalShutdown_released P cfg v
    have hc : m.cFinalize P cfg true w = some ((.ok, ⟨false, [], l⟩), u) := by
      unfold Module.cFinalize
      rw [if_neg (by simp), if_neg (by simp [hinit])]
      exact (bind_of_eq hsweep).trans (bind_of_eq hdown)
    have href := Call.refines (P := P) (c := .cFinalize true) hi (bind_of_eq hc)
    exact ⟨_, u, hc, ⟨fun _ => hinit, fun _ => rfl⟩, href⟩
  · refine ⟨(.cryptokiNotInitialized, m), w, ?_, by simp [hinit], ?_⟩
    · unfold Module.cFinalize
      rw [if_neg (by simp), if_pos hinit]
      rfl
    · exact Module.granted_idle hi (by simpa using hinit)

/-- The table is a partial map from handles to sessions, over any run: at most 64 handles are
live, a new handle was not live, and each call on a handle goes by whether it is live. The calls
that end sessions end those that they are to end, and no others. -/
theorem session_table {live : Handles} (hrun : SessionRun P cfg live m w) :
    live 0 = none ∧ {h | live h ≠ none}.Finite ∧ {h | live h ≠ none}.ncard ≤ 64 ∧
    (∀ slot flags phSession rv m' handle w',
      m.cOpenSession P cfg slot flags phSession w = some ((rv, m', handle), w') →
      (rv = .ok → ∃ h, handle = some h ∧ h ≠ 0 ∧ live h = none) ∧
      (phSession ≠ none → flags &&& ckfSerialSession ≠ 0 → m.initialized = true →
        slot.toNat < m.slots.length → (rv = .hostMemory ↔ {h | live h ≠ none}.ncard = 64))) ∧
    (m.initialized = true → ∀ h,
      Rejects live h w (m.cCloseSession P h) Prod.fst ∧
      (∀ info, Rejects live h w (m.cGetSessionInfo h (some info)) Prod.fst) ∧
      ∀ buf len, Rejects live h w (m.cGenerateRandom P h (some buf) len) Prod.fst) ∧
    (∀ h g info, live h = some g → Yields (m.cGetSessionInfo h (some info)) w fun r _ =>
      r.1 = .ok ∧ ∃ state, r.2 = some ⟨g.slot, state, g.flags, 0⟩) ∧
    (∀ h, Yields (m.cCloseSession P h) w fun r _ =>
      (r.1 = .ok ↔ live h ≠ none) ∧ r.2.granted = Function.update live h none) ∧
    (∀ slot, Yields (m.cCloseAllSessions P slot) w fun r _ =>
      (r.1 = .ok ↔ m.initialized = true ∧ slot.toNat < m.slots.length) ∧
      ∀ h, r.2.granted h = (live h).filter fun g => g.slot ≠ slot) ∧
    Yields (m.cFinalize P cfg true) w fun r _ =>
      (r.1 = .ok ↔ m.initialized = true) ∧ r.2.granted = fun _ => none := by
  obtain ⟨hmod, rfl⟩ := hrun.refines
  have hi := hmod.inv
  have hcard := ncard_granted hi.table
  refine ⟨rfl, finite_granted hi.table, ?_, ?_, ?_, ?_, fun h => cCloseSession_closes hi h w,
    fun slot => cCloseAllSessions_sweeps hi slot w, cFinalize_ends hi w⟩
  · rw [hcard]
    exact (HandleTable.ncard_live_le _).trans hi.table.le
  · intro slot flags phSession rv m' handle w' hc
    refine ⟨fun hok => ?_, fun hnull hserial hinit hslot => ?_⟩
    · obtain ⟨_, ⟨hno, _⟩ | ⟨_, _, idx, _, _, hfree, _, _, rfl⟩⟩ := Module.cOpenSession_spec hc
      · exact absurd hok hno
      · exact ⟨_, rfl, fresh_handle hi.table hfree⟩
    · obtain ⟨handle₀, rfl⟩ := Option.ne_none_iff_exists'.mp hnull
      rw [Module.cOpenSession_full hserial hinit hslot hc, HandleTable.full_iff, hcard, hi.table,
        maxSessions]
  · intro hinit h
    exact ⟨cCloseSession_rejects hinit h w, fun info => cGetSessionInfo_rejects hinit h info w,
      fun buf len => cGenerateRandom_rejects hinit h buf len w⟩
  · intro h g info hg
    have hinit : m.initialized = true := by
      by_contra hno
      rw [Module.granted_idle hi (by simpa using hno)] at hg
      cases hg
    obtain ⟨state, heq⟩ := Module.cGetSessionInfo_live hinit hg info w
    exact ⟨_, w, heq, rfl, state, rfl⟩

/-- One session is open on the bench, under the handle 1. -/
theorem session_table_smartcard : ∃ (live : Handles) (w : World Unit),
    SessionRun Bench.smartcard.machine Bench.oneCard live Bench.cardModule w ∧
    live 1 = some ⟨0, ckfSerialSession⟩ ∧ {h | live h ≠ none}.ncard ≤ 64 ∧
    Rejects live 2 w (Bench.cardModule.cCloseSession Bench.smartcard.machine 2) Prod.fst ∧
    (Yields (Bench.cardModule.cGetSessionInfo 1 (some ⟨7, 7, 7, 7⟩)) w fun r _ =>
      r.1 = .ok ∧ ∃ state, r.2 = some ⟨0, state, ckfSerialSession, 0⟩) ∧
    (Yields (Bench.cardModule.cCloseAllSessions Bench.smartcard.machine 0) w fun r _ =>
      r.1 = .ok ∧ r.2.granted 1 = none) ∧
    Yields (Bench.cardModule.cCloseAllSessions Bench.smartcard.machine 5) w fun r _ =>
      r.1 ≠ .ok ∧ r.2.granted 1 = some ⟨0, ckfSerialSession⟩ := by
  have hrun : SessionRun Bench.smartcard.machine Bench.oneCard
      (Function.update (fun _ => none) 1 (some ⟨0, ckfSerialSession⟩)) Bench.cardModule _ :=
    .called (c := .cOpenSession 0 ckfSerialSession (some 0))
      (.called (c := .cInitialize none) (.started rfl rfl rfl)
        (bind_of_eq Bench.cInitialize_smartcard))
      (bind_of_eq (Bench.cOpenSession_smartcard _))
  obtain ⟨_, _, hcard, _, hcalls, hinfo, _, hsweep, _⟩ := session_table hrun
  refine ⟨_, _, hrun, Function.update_self .., hcard, (hcalls rfl 2).1,
    hinfo 1 _ _ (Function.update_self ..), (hsweep 0).mono fun r _ hr => ?_,
    (hsweep 5).mono fun r _ hr => ?_⟩
  · exact ⟨hr.1.mpr ⟨rfl, by decide⟩, by simp [hr.2]⟩
  · exact ⟨fun hok => absurd (hr.1.mp hok).2 (by decide), by simp [hr.2]⟩

end P11Rand
