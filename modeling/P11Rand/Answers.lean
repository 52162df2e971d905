import P11Rand.Gate
import P11Rand.Sessions
import P11Rand.SlotList

/-! Every call is answered, and one that fails leaves the module and the caller's memory as they
were. -/
namespace P11Rand

open Effect Run

variable {W : Type} {P : Platform W} {w w' : World W} {cfg : Config} {m m' : Module} {rv : Rv}
  {slot flags h : CkUlong}

/-- The call was refused for its arguments or for the state of the module. -/
def Rv.Refusal : Rv → Prop
  | .argumentsBad | .cryptokiNotInitialized | .cryptokiAlreadyInitialized | .slotIdInvalid
  | .sessionHandleInvalid | .sessionParallelNotSupported | .hostMemory | .mechanismInvalid
  | .randomSeedNotSupported => True
  | .ok | .functionFailed | .deviceError | .tokenNotPresent | .bufferTooSmall => False

/-- The same module, but for presence flags and what the pools of its sessions hold. -/
structure Module.Alike (m m' : Module) : Prop where
  initialized : m'.initialized = m.initialized
  slots : SameSlots m.slots m'.slots
  sessions : m'.sessions.map (Option.map fun s => (s.slot, s.flags)) =
    m.sessions.map (Option.map fun s => (s.slot, s.flags))

/-- What the pointers of a call that failed point to: what they did before. A count that is too
small is replaced by one that is not, and part of the random bytes may have been written. -/
def Invocation.Spared (rv : Rv) : Invocation → Invocation → Prop
  | .cGetSlotList tokenPresent pList (some count), e' =>
    e' = .cGetSlotList tokenPresent pList (some count) ∨ rv = .bufferTooSmall ∧ ∃ count',
      count < count' ∧ e' = .cGetSlotList tokenPresent pList (some count')
  | .cGenerateRandom h (some buf) len, e' => ∃ buf', e' = .cGenerateRandom h (some buf') len ∧
      buf'.length = buf.length ∧ buf'.drop len.toNat = buf.drop len.toNat
  | e, e' => e' = e

/-- The answer to a call. -/
inductive Settled (m : Module) (w : World W) (e : Invocation) :
    Rv × Module × Invocation → World W → Prop
  | done {m' : Module} {e' : Invocation} {w' : World W} : Settled m w e (.ok, m', e') w'
  | refused {rv : Rv} : rv.Refusal → Settled m w e (rv, m, e) w
  | failed {rv : Rv} {m' : Module} {e' : Invocation} {w' : World W} : ¬ rv.Refusal →
      m.Alike m' → e.Spared rv e' → (rv ≠ .deviceError → m'.sessions = m.sessions) →
      Settled m w e (rv, m', e') w'

theorem Module.Alike.of_slots {slots : List SlotState} (h : SameSlots m.slots slots) :
    m.Alike { m with slots } := ⟨rfl, h, rfl⟩

theorem Module.Alike.of_pool {s : Session} {pool : Pool} {i : Nat}
    (hs : m.sessions[i]? = some (some s)) :
    m.Alike { m with sessions := m.sessions.set i (some { s with pool }) } := by
  refine ⟨rfl, .refl _, ?_⟩
  obtain ⟨hi, hs⟩ := List.getElem?_eq_some_iff.mp hs
  rw [List.map_set]
  refine List.ext_getElem (by simp) fun j _ _ => ?_
  rcases eq_or_ne i j with rfl | hij
  · simp [hs]
  · simp [List.getElem_set_ne hij]

/-- What is left of the caller's memory as it was is spared. -/
theorem Invocation.Spared.same (rv : Rv) (e : Invocation) : e.Spared rv e := by
  unfold Spared
  split
  · exact .inl rfl
  · exact ⟨_, rfl, rfl, rfl⟩
  · rfl

theorem cFinalize_answers (reserved : Bool) :
    Yields (Invocation.run P cfg m (.cFinalize reserved)) w
      (Settled m w (.cFinalize reserved)) := by
  refine yields_bind ?_
  unfold Module.cFinalize
  split
  · exact yields_pure (yields_pure (.refused trivial))
  split
  · exact yields_pure (yields_pure (.refused trivial))
  refine yields_bind ((sweep_total (P := P) _ m.sessions w).mono fun l v _ => ?_)
  refine yields_bind ((globalShutdown_released P cfg v).mono fun _ u _ => ?_)
  exact yields_pure (yields_pure .done)

theorem cGetInfo_answers (pInfo : Option CkInfo) :
    Yields (Invocation.run P cfg m (.cGetInfo pInfo)) w (Settled m w (.cGetInfo pInfo)) := by
  refine yields_bind ?_
  unfold Module.cGetInfo
  split
  · exact yields_pure (yields_pure (.refused trivial))
  split
  · exact yields_pure (yields_pure (.refused trivial))
  exact yields_pure (yields_pure .done)

theorem cGetMechanismList_answers (pCount : Option CkUlong) :
    Yields (Invocation.run P cfg m (.cGetMechanismList slot pCount)) w
      (Settled m w (.cGetMechanismList slot pCount)) := by
  refine yields_bind ?_
  unfold Module.cGetMechanismList
  split
  · exact yields_pure (yields_pure (.refused trivial))
  split
  · exact yields_pure (yields_pure (.refused trivial))
  split
  · exact yields_pure (yields_pure (.refused trivial))
  exact yields_pure (yields_pure .done)

theorem refreshSlot_yields {i : Nat} (hi : i < m.slots.length) :
    Yields (m.refreshSlot P cfg i) w fun r _ => m.Alike r.2 ∧ r.2.sessions = m.sessions := by
  have htotal : Total _ (m.refreshSlot P cfg i) := Module.refreshSlot_probed "" hi
  obtain ⟨⟨present, m'⟩, v, hr, _⟩ := htotal w
  obtain ⟨slots, rfl, hsame⟩ := Module.refreshSlot_cases hr
  exact ⟨_, v, hr, .of_slots hsame, rfl⟩

theorem cGetSlotInfo_answers (pInfo : Option CkSlotInfo) :
    Yields (Invocation.run P cfg m (.cGetSlotInfo slot pInfo)) w
      (Settled m w (.cGetSlotInfo slot pInfo)) := by
  refine yields_bind ?_
  unfold Module.cGetSlotInfo
  split
  · exact yields_pure (yields_pure (.refused trivial))
  split
  · exact yields_pure (yields_pure (.refused trivial))
  cases hs : m.slots[slot.toNat]? with
  | none => exact yields_pure (yields_pure (.refused trivial))
  | some s =>
    have hi := (List.getElem?_eq_some_iff.mp hs).1
    refine yields_bind ((refreshSlot_yields hi).mono fun r v _ => ?_)
    exact yields_pure (yields_pure .done)

theorem cGetTokenInfo_answers (pInfo : Option CkTokenInfo) :
    Yields (Invocation.run P cfg m (.cGetTokenInfo slot pInfo)) w
      (Settled m w (.cGetTokenInfo slot pInfo)) := by
  refine yields_bind ?_
  unfold Module.cGetTokenInfo
  split
  · exact yields_pure (yields_pure (.refused trivial))
  split
  · exact yields_pure (yields_pure (.refused trivial))
  split
  · exact yields_pure (yields_pure (.refused trivial))
  rename_i hi
  refine yields_bind ((refreshSlot_yields (not_le.mp hi)).mono fun r v hr => ?_)
  obtain ⟨present, m'⟩ := r
  cases present with
  | true => exact yields_pure (yields_pure .done)
  | false =>
    exact yields_pure (yields_pure (.failed id hr.1 (.same _ _) fun _ => hr.2))

theorem cGetSlotList_answers (hsize : m.slots.length < 2 ^ 64) (tokenPresent : UInt8)
    (pList : Option (List CkUlong)) (pCount : Option CkUlong) :
    Yields (Invocation.run P cfg m (.cGetSlotList tokenPresent pList pCount)) w
      (Settled m w (.cGetSlotList tokenPresent pList pCount)) := by
  refine yields_bind ?_
  unfold Module.cGetSlotList
  cases pCount with
  | none => exact yields_pure (yields_pure (.refused trivial))
  | some count =>
    dsimp only
    split
    · exact yields_pure (yields_pure (.refused trivial))
    obtain ⟨fs, v, hfs, _⟩ := listing_total P cfg (tokenPresent == ckTrue) m.slots.length w
    have hcount := countSlots_eq hfs
    have hlen : (flagged fs).length < 2 ^ 64 := by
      have hle : fs.count true ≤ fs.length := List.count_le_length
      rw [length_flagged]
      exact (hle.trans (listing_length hfs).le).trans_lt hsize
    obtain ⟨slots, hslots, hsame⟩ := Module.countSlots_cases hcount
    refine yields_bind ⟨_, v, hcount, ?_⟩
    cases pList with
    | none => exact yields_pure (yields_pure .done)
    | some list =>
      dsimp only
      split
      · rename_i hlt
        refine yields_pure (yields_pure (.failed id (hslots ▸ .of_slots hsame)
          (.inr ⟨rfl, _, ?_, rfl⟩) fun _ => by rw [hslots]))
        rw [UInt64.lt_iff_toNat_lt, UInt64.toNat_ofNat']
        omega
      · exact yields_pure (yields_pure .done)

theorem cOpenSession_answers (phSession : Option CkUlong) :
    Yields (Invocation.run P cfg m (.cOpenSession slot flags phSession)) w
      (Settled m w (.cOpenSession slot flags phSession)) := by
  refine yields_bind ?_
  unfold Module.cOpenSession
  split
  · exact yields_pure (yields_pure (.refused trivial))
  split
  · exact yields_pure (yields_pure (.refused trivial))
  split
  · exact yields_pure (yields_pure (.refused trivial))
  split
  · exact yields_pure (yields_pure (.refused trivial))
  rename_i hi
  cases m.sessions.findIdx? Option.isNone with
  | none => exact yields_pure (yields_pure (.refused trivial))
  | some idx =>
    refine yields_bind ((Pool.open_total cfg w).mono fun res v hopen => ?_)
    have hset : ∀ present, Total (Does P fun _ => True)
        (m.setTokenPresent slot.toNat present : Run (World W) Module) :=
      Module.setTokenPresent_total (not_le.mp hi)
    cases res with
    | error e =>
      cases e with
      | notEnoughSources =>
        obtain ⟨m', u, hm', _⟩ := hset false v
        obtain ⟨slots, rfl, hsame, _⟩ := Module.setTokenPresent_cases hm'
        refine yields_bind ⟨_, u, hm', ?_⟩
        exact yields_pure (yields_pure (.failed id (.of_slots hsame) (.same _ _) fun _ => rfl))
      | resource =>
        exact yields_pure (yields_pure (.failed id (.of_slots (.refl _)) (.same _ _) fun _ => rfl))
      | readFailure =>
        exact yields_pure (yields_pure (.failed id (.of_slots (.refl _)) (.same _ _) fun _ => rfl))
    | ok pool =>
      obtain ⟨m', u, hm', _⟩ := hset true v
      refine yields_bind ⟨_, u, hm', ?_⟩
      exact yields_pure (yields_pure .done)

theorem cCloseSession_answers : Yields (Invocation.run P cfg m (.cCloseSession h)) w
    (Settled m w (.cCloseSession h)) := by
  refine yields_bind ?_
  unfold Module.cCloseSession
  split
  · exact yields_pure (yields_pure (.refused trivial))
  cases hf : m.findSession h with
  | none => exact yields_pure (yields_pure (.refused trivial))
  | some idx =>
    obtain ⟨_, _, s, hs⟩ := Module.findSession_cases hf
    dsimp only
    rw [hs]
    refine yields_bind ((dropSlots_total (P := P) s.pool.slots w).mono fun _ v _ => ?_)
    exact yields_pure (yields_pure .done)

theorem cCloseAllSessions_answers : Yields (Invocation.run P cfg m (.cCloseAllSessions slot)) w
    (Settled m w (.cCloseAllSessions slot)) := by
  refine yields_bind ?_
  unfold Module.cCloseAllSessions
  split
  · exact yields_pure (yields_pure (.refused trivial))
  split
  · exact yields_pure (yields_pure (.refused trivial))
  refine yields_bind ((sweep_total (P := P) _ m.sessions w).mono fun l v _ => ?_)
  exact yields_pure (yields_pure .done)

theorem cGetSessionInfo_answers (pInfo : Option CkSessionInfo) :
    Yields (Invocation.run P cfg m (.cGetSessionInfo h pInfo)) w
      (Settled m w (.cGetSessionInfo h pInfo)) := by
  refine yields_bind ?_
  unfold Module.cGetSessionInfo
  split
  · exact yields_pure (yields_pure (.refused trivial))
  split
  · exact yields_pure (yields_pure (.refused trivial))
  cases hf : m.findSession h with
  | none => exact yields_pure (yields_pure (.refused trivial))
  | some idx =>
    obtain ⟨_, _, s, hs⟩ := Module.findSession_cases hf
    dsimp only
    rw [hs]
    exact yields_pure (yields_pure .done)

/-- Only here a machine can keep the caller waiting. -/
theorem cGenerateRandom_answers (hp : P.Patient w.env)
    (hm : ∀ s, some s ∈ m.sessions → s.Inv cfg) (buf : Option (List UInt8)) (len : CkUlong) :
    Yields (Invocation.run P cfg m (.cGenerateRandom h buf len)) w
      (Settled m w (.cGenerateRandom h buf len)) := by
  refine yields_bind ?_
  unfold Module.cGenerateRandom
  split
  · exact yields_pure (yields_pure (.refused trivial))
  split
  · exact yields_pure (yields_pure (.refused trivial))
  cases hf : m.findSession h with
  | none => exact yields_pure (yields_pure (.refused trivial))
  | some idx =>
    obtain ⟨_, _, s, hs⟩ := Module.findSession_cases hf
    have hinv := hm s (List.mem_of_getElem? hs)
    dsimp only
    rw [hs]
    obtain ⟨⟨res, pool, slice⟩, v, hread⟩ := Pool.read_returns hp hinv.valid hinv.config hinv.slots
      ((buf.getD []).take len.toNat)
    have hlen := Pool.read_length (hinv.config ▸ hinv.slots) hread
    refine yields_bind ⟨_, v, hread, ?_⟩
    cases res with
    | ok _ => exact yields_pure (yields_pure .done)
    | error _ =>
      refine yields_pure (yields_pure (.failed id (.of_pool hs) ?_ fun hne => absurd rfl hne))
      cases buf with
      | none => rfl
      | some buf =>
        have hlen : slice.length = min len.toNat buf.length := by simpa using hlen
        refine ⟨_, rfl, ?_, ?_⟩ <;> dsimp only
        · rw [List.length_append, List.length_drop]
          omega
        · by_cases hle : len.toNat ≤ buf.length
          · exact List.drop_left' (by omega)
          · rw [List.drop_eq_nil_of_le (by simp; omega), List.drop_eq_nil_of_le (by omega)]

theorem globalInit_returns (P : Platform W) (cfg : Config) (w : World W) :
    Yields (globalInit P cfg) w fun _ _ => True := by
  unfold globalInit
  split
  · refine yields_bind ?_
    unfold Iso7816.globalInit
    refine yields_bind ⟨w, w, rfl, ?_⟩
    dsimp only
    split
    · exact ⟨_, _, rfl, yields_pure trivial⟩
    · obtain ⟨ans, v, hans⟩ : ∃ ans v, request P .establish w = some (ans, v) := ⟨_, _, rfl⟩
      refine yields_bind ⟨ans, v, hans, ?_⟩
      cases ans with
      | error _ => exact yields_pure (yields_pure trivial)
      | ok c => exact ⟨_, _, rfl, yields_pure trivial⟩
  · exact yields_pure trivial

theorem cInitialize_answers (P : Platform W) (cfg : Config) (m : Module) (w : World W)
    (args : Option InitArgs) :
    Yields (m.cInitialize P cfg args) w fun r v => r.1 = .ok ∨ (r = (r.1, m) ∧
      (r.1.Refusal ∧ v = w ∨ r.1 = .functionFailed)) := by
  unfold Module.cInitialize
  split
  · exact yields_pure (.inr ⟨rfl, .inl ⟨trivial, rfl⟩⟩)
  split
  · exact yields_pure (.inr ⟨rfl, .inl ⟨trivial, rfl⟩⟩)
  obtain ⟨res, v, hinit, _⟩ := globalInit_returns P cfg w
  refine yields_bind ⟨res, v, hinit, ?_⟩
  cases res with
  | error _ => exact yields_pure (.inr ⟨rfl, .inr rfl⟩)
  | ok _ =>
    refine yields_bind ((fillable_total cfg v).mono fun res u _ => ?_)
    cases res with
    | error _ =>
      refine yields_bind ((globalShutdown_released P cfg u).mono fun _ x _ => ?_)
      exact yields_pure (.inr ⟨rfl, .inr rfl⟩)
    | ok present =>
      refine yields_bind ((sweep_total (P := P) _ m.sessions u).mono fun l x _ => ?_)
      exact yields_pure (.inl rfl)

/-- Every call but one for random bytes returns on every machine. -/
theorem Invocation.answers (hm : m.Inv cfg) (hs : ∀ s, some s ∈ m.sessions → s.Inv cfg)
    (e : Invocation) (hp : (∃ h buf len, e = .cGenerateRandom h buf len) → P.Patient w.env) :
    Yields (e.run P cfg m) w (Settled m w e) := by
  cases e with
  | cFinalize reserved => exact cFinalize_answers reserved
  | cGetInfo pInfo => exact cGetInfo_answers pInfo
  | cGetSlotList tokenPresent pList pCount =>
    refine cGetSlotList_answers ?_ tokenPresent pList pCount
    cases hinit : m.initialized with
    | true =>
      have hone : m.slots.length = 1 := by simpa using congrArg List.length (hm.published hinit)
      omega
    | false =>
      rw [(hm.idle hinit).1]
      simp
  | cGetSlotInfo slot pInfo => exact cGetSlotInfo_answers pInfo
  | cGetTokenInfo slot pInfo => exact cGetTokenInfo_answers pInfo
  | cGetMechanismList slot pCount => exact cGetMechanismList_answers pCount
  | cGetMechanismInfo => exact yields_pure (.refused trivial)
  | cOpenSession slot flags phSession => exact cOpenSession_answers phSession
  | cCloseSession h => exact cCloseSession_answers
  | cCloseAllSessions slot => exact cCloseAllSessions_answers
  | cGetSessionInfo h pInfo => exact cGetSessionInfo_answers pInfo
  | cGenerateRandom h buf len => exact cGenerateRandom_answers (hp ⟨h, buf, len, rfl⟩) hs buf len
  | cSeedRandom h =>
    have hrefusal : (m.cSeedRandom h).Refusal := by
      unfold Module.cSeedRandom
      split <;> trivial
    exact yields_pure (.refused hrefusal)

/-- A call of any entry point but the stubs and those that only hand out the function lists. -/
inductive AnyCall
  | cInitialize (pInitArgs : Option InitArgs)
  | of (e : Invocation)

namespace AnyCall

def run (P : Platform W) (cfg : Config) (m : Module) :
    AnyCall → Run (World W) (Rv × Module × AnyCall)
  | .cInitialize pInitArgs => do
    let (rv, m) ← m.cInitialize P cfg pInitArgs
    return (rv, m, .cInitialize pInitArgs)
  | .of e => do
    let (rv, m, e) ← e.run P cfg m
    return (rv, m, .of e)

/-- Calls made one after the other, and what each returns. -/
def runAll (P : Platform W) (cfg : Config) :
    List AnyCall → Module → Run (World W) (List Rv × Module)
  | [], m => return ([], m)
  | c :: cs, m => do
    let (rv, m, _) ← c.run P cfg m
    let (rvs, m) ← runAll P cfg cs m
    return (rv :: rvs, m)

/-- The call asks for random bytes. -/
def Draws : AnyCall → Prop
  | .of (.cGenerateRandom _ _ _) => True
  | _ => False

/-- The call does not ask for no bytes at a null pointer, of which no slice can be made. -/
def Sound : AnyCall → Prop
  | .of (.cGenerateRandom _ none len) => len ≠ 0
  | _ => True

/-- What the pointers of a call that failed point to. -/
def Spared (rv : Rv) : AnyCall → AnyCall → Prop
  | .of e, c' => ∃ e', c' = .of e' ∧ e.Spared rv e'
  | c, c' => c' = c

end AnyCall

/-- Whatever a call does, the run goes on. -/
theorem Invocation.continues {e e' : Invocation} (hrun : ModuleRun P cfg m w)
    (h : e.run P cfg m w = some ((rv, m', e'), w')) : ModuleRun P cfg m' w' := by
  have hcall : ∀ c : Call, c.run P cfg m w = some ((rv, m'), w') → ModuleRun P cfg m' w' :=
    fun c hc => .called hrun hc
  cases e with
  | cFinalize reserved =>
    obtain ⟨⟨_, _⟩, _, hc, h⟩ := bind_eq_some.mp h
    cases h
    exact hcall (.cFinalize reserved) hc
  | cGetInfo pInfo =>
    obtain ⟨⟨_, _⟩, _, hc, h⟩ := bind_eq_some.mp h
    cases h
    unfold Module.cGetInfo at hc
    split at hc
    · cases hc
      exact hrun
    split at hc
    · cases hc
      exact hrun
    · cases hc
      exact hrun
  | cGetSlotList tokenPresent pList pCount =>
    obtain ⟨⟨_, _, _, _⟩, _, hc, h⟩ := bind_eq_some.mp h
    cases h
    exact hcall (.cGetSlotList tokenPresent pList pCount) (bind_of_eq hc)
  | cGetSlotInfo slot pInfo =>
    obtain ⟨⟨_, _, _⟩, _, hc, h⟩ := bind_eq_some.mp h
    cases h
    exact hcall (.cGetSlotInfo slot pInfo) (bind_of_eq hc)
  | cGetTokenInfo slot pInfo =>
    obtain ⟨⟨_, _, _⟩, _, hc, h⟩ := bind_eq_some.mp h
    cases h
    exact hcall (.cGetTokenInfo slot pInfo) (bind_of_eq hc)
  | cGetMechanismList slot pCount =>
    obtain ⟨⟨_, _⟩, _, hc, h⟩ := bind_eq_some.mp h
    cases h
    unfold Module.cGetMechanismList at hc
    split at hc
    · cases hc
      exact hrun
    split at hc
    · cases hc
      exact hrun
    split at hc
    · cases hc
      exact hrun
    · cases hc
      exact hrun
  | cGetMechanismInfo =>
    cases h
    exact hrun
  | cOpenSession slot flags phSession =>
    obtain ⟨⟨_, _, _⟩, _, hc, h⟩ := bind_eq_some.mp h
    cases h
    exact hcall (.cOpenSession slot flags phSession) (bind_of_eq hc)
  | cCloseSession handle =>
    obtain ⟨⟨_, _⟩, _, hc, h⟩ := bind_eq_some.mp h
    cases h
    exact hcall (.cCloseSession handle) hc
  | cCloseAllSessions slot =>
    obtain ⟨⟨_, _⟩, _, hc, h⟩ := bind_eq_some.mp h
    cases h
    exact hcall (.cCloseAllSessions slot) hc
  | cGetSessionInfo handle pInfo =>
    obtain ⟨⟨_, _⟩, _, hc, h⟩ := bind_eq_some.mp h
    cases h
    obtain rfl := Module.cGetSessionInfo_world hc
    exact hrun
  | cGenerateRandom handle buf len =>
    obtain ⟨⟨_, _, _⟩, _, hc, h⟩ := bind_eq_some.mp h
    cases h
    exact hcall (.cGenerateRandom handle buf len) (bind_of_eq hc)
  | cSeedRandom handle =>
    cases h
    exact hrun

/-- A failure that is no refusal is one of these. -/
theorem Rv.failure {rv : Rv} (hok : rv ≠ .ok) (h : ¬ rv.Refusal) :
    rv ∈ [.functionFailed, .deviceError, .tokenNotPresent, .bufferTooSmall] := by
  cases rv <;> first | decide | exact absurd trivial h | exact absurd rfl hok

namespace AnyCall

theorem of_eq_some {e : Invocation} {c' : AnyCall} : run P cfg m (.of e) w =
    some ((rv, m', c'), w') ↔ ∃ e', c' = .of e' ∧ e.run P cfg m w = some ((rv, m', e'), w') := by
  constructor
  · intro h
    obtain ⟨⟨_, _, e'⟩, _, he, h⟩ := bind_eq_some.mp h
    cases h
    exact ⟨e', rfl, he⟩
  · rintro ⟨e', rfl, he⟩
    exact bind_of_eq he

theorem continues {c c' : AnyCall} (hrun : ModuleRun P cfg m w)
    (h : c.run P cfg m w = some ((rv, m', c'), w')) : ModuleRun P cfg m' w' := by
  cases c with
  | cInitialize args =>
    obtain ⟨⟨_, _⟩, _, hc, h⟩ := bind_eq_some.mp h
    cases h
    exact .called (c := .cInitialize args) hrun hc
  | of e =>
    obtain ⟨_, _, he⟩ := of_eq_some.mp h
    exact Invocation.continues hrun he

/-- What can be said of the answer to a call, whatever the machine does. -/
def Answers (P : Platform W) (cfg : Config) (m : Module) (w : World W) (c : AnyCall) : Prop :=
  Yields (c.run P cfg m) w fun r w' => ModuleRun P cfg r.2.1 w' ∧
    (r.1 = .ok ∨ r.1.Refusal ∧ r.2 = (m, c) ∧ w' = w ∨
      r.1 ∈ [.functionFailed, .deviceError, .tokenNotPresent, .bufferTooSmall] ∧ m.Alike r.2.1 ∧
        (r.1 ≠ .deviceError → r.2.1.sessions = m.sessions) ∧ c.Spared r.1 r.2.2)

theorem answers (hrun : ModuleRun P cfg m w) (c : AnyCall) (hp : c.Draws → P.Patient w.env) :
    c.Answers P cfg m w := by
  cases c with
  | cInitialize args =>
    obtain ⟨⟨rv, m'⟩, v, hc, hanswer⟩ := cInitialize_answers P cfg m w args
    refine ⟨_, v, bind_of_eq hc, .called (c := .cInitialize args) hrun hc, ?_⟩
    obtain rfl | ⟨heq, ⟨href, rfl⟩ | rfl⟩ := hanswer
    · exact .inl rfl
    · cases heq
      exact .inr (.inl ⟨href, rfl, rfl⟩)
    · cases heq
      exact .inr (.inr ⟨by simp, ⟨rfl, .refl _, rfl⟩, fun _ => rfl, rfl⟩)
  | of e =>
    have hpatient : (∃ h buf len, e = .cGenerateRandom h buf len) → P.Patient w.env := by
      rintro ⟨_, _, _, rfl⟩
      exact hp trivial
    obtain ⟨⟨rv, m', e'⟩, v, hc, hsettled⟩ := e.answers hrun.inv hrun.sessions hpatient
    refine ⟨_, v, bind_of_eq hc, Invocation.continues hrun hc, ?_⟩
    cases hsettled with
    | done => exact .inl rfl
    | refused href => exact .inr (.inl ⟨href, rfl, rfl⟩)
    | failed hno halike hspared hsessions =>
      by_cases hok : rv = .ok
      · exact .inl hok
      · exact .inr (.inr ⟨Rv.failure hok hno, halike, hsessions, _, rfl, hspared⟩)

theorem runAll_returns (hp : ∀ e, P.Patient e) (cs : List AnyCall) (hrun : ModuleRun P cfg m w) :
    Yields (runAll P cfg cs m) w fun r w' =>
      r.1.length = cs.length ∧ ModuleRun P cfg r.2 w' := by
  induction cs generalizing m w with
  | nil => exact yields_pure ⟨rfl, hrun⟩
  | cons c cs ih =>
    refine yields_bind ((answers hrun c fun _ => hp _).mono fun r v hr => ?_)
    refine yields_bind ((ih hr.1).mono fun rs u hrs => ?_)
    exact yields_pure ⟨congrArg Nat.succ hrs.1, hrs.2⟩

end AnyCall

/-- In every reachable state every sound call is answered: it does not panic, and only
`C_GenerateRandom` can wait for a device for ever. A refused call does nothing at all; one that
fails otherwise leaves the same sessions and what the caller's pointers point to. Calls can follow
each other in any order. -/
theorem calls_answered (hrun : ModuleRun P cfg m w) :
    (∀ c : AnyCall, c.Sound → (c.Draws → P.Patient w.env) → c.Answers P cfg m w) ∧
    ((∀ e, P.Patient e) → ∀ cs : List AnyCall, (∀ c ∈ cs, c.Sound) →
      Yields (AnyCall.runAll P cfg cs m) w fun r w' =>
        r.1.length = cs.length ∧ ModuleRun P cfg r.2 w') :=
  ⟨fun c _ hp => AnyCall.answers hrun c hp, fun hp cs _ => AnyCall.runAll_returns hp cs hrun⟩

theorem calls_answered_pair : ∃ (m : Module) (w : World Unit),
    ModuleRun Bench.generators.machine Bench.pair m w ∧ m.initialized = true ∧
    (AnyCall.of (.cGenerateRandom 1 none 32)).Answers Bench.generators.machine Bench.pair m w ∧
    Yields (AnyCall.runAll Bench.generators.machine Bench.pair
      [.of (.cOpenSession 0 ckfSerialSession (some 0)),
        .of (.cGenerateRandom 1 (some (zeros 32)) 32), .of (.cFinalize true),
        .cInitialize none] m) w fun r w' =>
      r.1.length = 4 ∧ ModuleRun Bench.generators.machine Bench.pair r.2 w' := by
  obtain ⟨m, w, hrun, hinit, _⟩ := Bench.initialized_pair
  obtain ⟨hone, hall⟩ := calls_answered hrun
  refine ⟨m, w, hrun, hinit, hone _ (by simp [AnyCall.Sound]) fun _ => Bench.patient_generators _,
    hall Bench.patient_generators _ ?_⟩
  simp [AnyCall.Sound]

end P11Rand
