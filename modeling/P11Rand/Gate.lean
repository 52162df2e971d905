import P11Rand.Bench
import P11Rand.Module

/-! What the entry points do before `C_Initialize` has succeeded and after `C_Finalize`. -/
namespace P11Rand

open Effect Run

variable {W : Type} {P : Platform W} {w : World W} {cfg : Config} {m : Module}

/-- A call that works on the slots, on the sessions or on the module, with what its pointers point
to. `C_GetMechanismInfo` looks at none of its arguments. -/
inductive Invocation
  | cFinalize (pReservedIsNull : Bool)
  | cGetInfo (pInfo : Option CkInfo)
  | cGetSlotList (tokenPresent : UInt8) (pList : Option (List CkUlong)) (pCount : Option CkUlong)
  | cGetSlotInfo (slot : CkUlong) (pInfo : Option CkSlotInfo)
  | cGetTokenInfo (slot : CkUlong) (pInfo : Option CkTokenInfo)
  | cGetMechanismList (slot : CkUlong) (pCount : Option CkUlong)
  | cGetMechanismInfo
  | cOpenSession (slot flags : CkUlong) (phSession : Option CkUlong)
  | cCloseSession (h : CkUlong)
  | cCloseAllSessions (slot : CkUlong)
  | cGetSessionInfo (h : CkUlong) (pInfo : Option CkSessionInfo)
  | cGenerateRandom (h : CkUlong) (buf : Option (List UInt8)) (len : CkUlong)
  | cSeedRandom (h : CkUlong)
  deriving DecidableEq

namespace Invocation

/-- What a call returns, the module it leaves, and the call with what its pointers then point to. -/
def run (P : Platform W) (cfg : Config) (m : Module) :
    Invocation → Run (World W) (Rv × Module × Invocation)
  | .cFinalize reserved => do
    let (rv, m) ← m.cFinalize P cfg reserved
    return (rv, m, .cFinalize reserved)
  | .cGetInfo pInfo => do
    let (rv, pInfo) ← m.cGetInfo pInfo
    return (rv, m, .cGetInfo pInfo)
  | .cGetSlotList tokenPresent pList pCount => do
    let (rv, m, pList, pCount) ← m.cGetSlotList P cfg tokenPresent pList pCount
    return (rv, m, .cGetSlotList tokenPresent pList pCount)
  | .cGetSlotInfo slot pInfo => do
    let (rv, m, pInfo) ← m.cGetSlotInfo P cfg slot pInfo
    return (rv, m, .cGetSlotInfo slot pInfo)
  | .cGetTokenInfo slot pInfo => do
    let (rv, m, pInfo) ← m.cGetTokenInfo P cfg slot pInfo
    return (rv, m, .cGetTokenInfo slot pInfo)
  | .cGetMechanismList slot pCount => do
    let (rv, pCount) ← m.cGetMechanismList slot pCount
    return (rv, m, .cGetMechanismList slot pCount)
  | .cGetMechanismInfo => return (Module.cGetMechanismInfo, m, .cGetMechanismInfo)
  | .cOpenSession slot flags phSession => do
    let (rv, m, phSession) ← m.cOpenSession P cfg slot flags phSession
    return (rv, m, .cOpenSession slot flags phSession)
  | .cCloseSession h => do
    let (rv, m) ← m.cCloseSession P h
    return (rv, m, .cCloseSession h)
  | .cCloseAllSessions slot => do
    let (rv, m) ← m.cCloseAllSessions P slot
    return (rv, m, .cCloseAllSessions slot)
  | .cGetSessionInfo h pInfo => do
    let (rv, pInfo) ← m.cGetSessionInfo h pInfo
    return (rv, m, .cGetSessionInfo h pInfo)
  | .cGenerateRandom h buf len => do
    let (rv, m, buf) ← m.cGenerateRandom P h buf len
    return (rv, m, .cGenerateRandom h buf len)
  | .cSeedRandom h => return (m.cSeedRandom h, m, .cSeedRandom h)

/-- The arguments pass the function's own checks of pointers and flags. -/
def Passes : Invocation → Prop
  | .cFinalize reserved => reserved = true
  | .cGetInfo pInfo => pInfo.isSome
  | .cGetSlotList _ _ pCount => pCount.isSome
  | .cGetSlotInfo _ pInfo => pInfo.isSome
  | .cGetTokenInfo _ pInfo => pInfo.isSome
  | .cGetMechanismList _ pCount => pCount.isSome
  | .cOpenSession _ flags phSession => phSession.isSome ∧ flags &&& ckfSerialSession ≠ 0
  | .cGetSessionInfo _ pInfo => pInfo.isSome
  | .cGenerateRandom _ buf len => buf.isSome ∨ len = 0
  | .cGetMechanismInfo | .cCloseSession _ | .cCloseAllSessions _ | .cSeedRandom _ => True

/-- The entry points that report a missing initialization as such. -/
def Gated : Invocation → Prop
  | .cGetMechanismInfo | .cSeedRandom _ => False
  | _ => True

/-- The call is refused as one before initialization: nothing is asked of the machine, and the
module and what the pointers point to stay as they are. -/
def Refused (P : Platform W) (cfg : Config) (m : Module) (w : World W) (e : Invocation) : Prop :=
  e.run P cfg m w = some ((.cryptokiNotInitialized, m, e), w)

/-- Of a module that is not initialized every other entry point refuses to do anything. -/
theorem refused_iff (hinit : m.initialized = false) {e : Invocation} (hpass : e.Passes) :
    e.Refused P cfg m w ↔ e.Gated := by
  have hnot : ¬ m.initialized = true := by simp [hinit]
  constructor
  · intro h
    cases e with
    | cGetMechanismInfo => cases h
    | cSeedRandom handle =>
      have hrv : m.cSeedRandom handle = .sessionHandleInvalid := if_pos (.inl hnot)
      rw [Refused, run, hrv] at h
      cases h
    | _ => trivial
  · intro hgated
    unfold Refused run
    cases e with
    | cFinalize reserved =>
      obtain rfl : reserved = true := hpass
      simp [Module.cFinalize, hinit, bind_apply]
    | cGetInfo pInfo =>
      obtain ⟨info, rfl⟩ := Option.isSome_iff_exists.mp hpass
      simp [Module.cGetInfo, hinit, bind_apply]
    | cGetSlotList tokenPresent pList pCount =>
      obtain ⟨count, rfl⟩ := Option.isSome_iff_exists.mp hpass
      simp [Module.cGetSlotList, hinit, bind_apply]
    | cGetSlotInfo slot pInfo =>
      obtain ⟨info, rfl⟩ := Option.isSome_iff_exists.mp hpass
      simp [Module.cGetSlotInfo, hinit, bind_apply]
    | cGetTokenInfo slot pInfo =>
      obtain ⟨info, rfl⟩ := Option.isSome_iff_exists.mp hpass
      simp [Module.cGetTokenInfo, hinit, bind_apply]
    | cGetMechanismList slot pCount =>
      obtain ⟨count, rfl⟩ := Option.isSome_iff_exists.mp hpass
      simp [Module.cGetMechanismList, hinit, bind_apply]
    | cGetMechanismInfo => cases hgated
    | cOpenSession slot flags phSession =>
      obtain ⟨hsome, hserial⟩ := hpass
      obtain ⟨handle, rfl⟩ := Option.isSome_iff_exists.mp hsome
      simp [Module.cOpenSession, hinit, hserial, bind_apply]
    | cCloseSession handle => simp [Module.cCloseSession, hinit, bind_apply]
    | cCloseAllSessions slot => simp [Module.cCloseAllSessions, hinit, bind_apply]
    | cGetSessionInfo handle pInfo =>
      obtain ⟨info, rfl⟩ := Option.isSome_iff_exists.mp hpass
      simp [Module.cGetSessionInfo, hinit, bind_apply]
    | cGenerateRandom handle buf len =>
      have hok : ¬ (buf = none ∧ 0 < len) := by
        rintro ⟨rfl, hlen⟩
        rcases hpass with hsome | rfl
        · cases hsome
        · exact absurd hlen (by decide)
      simp [Module.cGenerateRandom, hinit, hok, bind_apply]
    | cSeedRandom handle => cases hgated

/-- Before the first `C_Initialize`, a slot list is refused. -/
theorem refused_iff_new : (cGetSlotList ckTrue none (some 0)).Refused Bench.generators.machine
    Bench.pair Module.new (Bench.start none) ↔ (cGetSlotList ckTrue none (some 0)).Gated :=
  refused_iff rfl rfl

/-- A seed is refused there for want of a session, and mechanism information for want of any
mechanism. -/
theorem seed_not_refused : Module.new.initialized = false ∧
    (cSeedRandom 0).Passes ∧ ¬ (cSeedRandom 0).Refused Bench.generators.machine Bench.pair
      Module.new (Bench.start none) ∧
    cGetMechanismInfo.Passes ∧ ¬ cGetMechanismInfo.Refused Bench.generators.machine Bench.pair
      Module.new (Bench.start none) := by
  refine ⟨rfl, trivial, fun h => ?_, trivial, fun h => ?_⟩
  · cases h
  · cases h

end Invocation
end P11Rand
