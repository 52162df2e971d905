import P11Rand.Cryptoki
import P11Rand.Pool

/-! The PKCS#11 module of `lib.rs`: one published slot, a table of sessions, and the entry points.
A pointer argument is what it points to, `none` for NULL; a call gives back what its output
arguments point to when it returns. One mutex serializes all calls. -/
namespace P11Rand

open Effect

structure SlotState where
  name : String
  tokenPresent : Bool
  deriving DecidableEq

structure Session where
  slot : CkUlong
  flags : CkUlong
  pool : Pool

structure Module where
  initialized : Bool
  slots : List SlotState
  sessions : List (Option Session)

def maxSessions : Nat := 64

variable {W : Type}

/-- Close the sessions that satisfy a test, in table order. -/
def sweep (P : Platform W) (f : Session → Bool) :
    List (Option Session) → Run (World W) (List (Option Session))
  | [] => return []
  | none :: l => return none :: (← sweep P f l)
  | some s :: l => do
    if f s then
      s.pool.drop P
      return none :: (← sweep P f l)
    else
      return some s :: (← sweep P f l)

namespace Module

/-- The module before the first call. -/
def new : Module where
  initialized := false
  slots := []
  sessions := List.replicate maxSessions none

/-- An index out of bounds is a panic: the call does not return. -/
def setTokenPresent (m : Module) (i : Nat) (present : Bool) : Run (World W) Module :=
  match m.slots[i]? with
  | none => Run.stuck
  | some s => return { m with slots := m.slots.set i { s with tokenPresent := present } }

def refreshSlot (P : Platform W) (cfg : Config) (m : Module) (i : Nat) :
    Run (World W) (Bool × Module) := do
  let present := (← fillable P cfg).toOption.getD false
  let m ← m.setTokenPresent i present
  return (present, m)

def findSession (m : Module) (h : CkUlong) : Option Nat :=
  if h = 0 then none
  else
    match m.sessions[h.toNat - 1]? with
    | some (some _) => some (h.toNat - 1)
    | _ => none

def cInitialize (P : Platform W) (cfg : Config) (m : Module) (pInitArgs : Option InitArgs) :
    Run (World W) (Rv × Module) := do
  if m.initialized then
    return (.cryptokiAlreadyInitialized, m)
  if pInitArgs.any fun a => !a.pReservedIsNull then
    return (.argumentsBad, m)
  match ← globalInit P cfg with
  | .error _ => return (.functionFailed, m)
  | .ok () =>
    match ← fillable P cfg with
    | .error _ =>
      globalShutdown P cfg
      return (.functionFailed, m)
    | .ok present =>
      -- the slot is published whether or not the pool can be filled
      let slots := [{ name := cfg.slotName, tokenPresent := present }]
      let sessions ← sweep P (fun _ => true) m.sessions
      return (.ok, { initialized := true, slots, sessions })

def cFinalize (P : Platform W) (cfg : Config) (m : Module) (pReservedIsNull : Bool) :
    Run (World W) (Rv × Module) := do
  if ¬ pReservedIsNull then
    return (.argumentsBad, m)
  if ¬ m.initialized then
    return (.cryptokiNotInitialized, m)
  let sessions ← sweep P (fun _ => true) m.sessions
  globalShutdown P cfg
  return (.ok, { initialized := false, slots := [], sessions })

def cGetInfo (m : Module) (pInfo : Option CkInfo) : Run (World W) (Rv × Option CkInfo) := do
  if pInfo.isNone then
    return (.argumentsBad, pInfo)
  if ¬ m.initialized then
    return (.cryptokiNotInitialized, pInfo)
  return (.ok, some {
    cryptokiVersion := ⟨3, 1⟩
    manufacturerID := field 32 libMfr
    flags := 0
    libraryDescription := field 32 libDesc
    libraryVersion := ⟨0, 1⟩ })

/-- The first pass of `C_GetSlotList`: count the slots, probing each one when filtering. -/
def countSlots (P : Platform W) (cfg : Config) (filter : Bool) :
    List Nat → Module → Nat → Run (World W) (Nat × Module)
  | [], m, want => return (want, m)
  | i :: is, m, want => do
    if filter then
      match ← m.refreshSlot P cfg i with
      | (true, m) => countSlots P cfg filter is m (want + 1)
      | (false, m) => countSlots P cfg filter is m want
    else
      countSlots P cfg filter is m (want + 1)

/-- The second pass: write the ids of the slots counted, in order, from index `out` on. -/
def writeSlots (filter : Bool) : List (SlotState × Nat) → Nat → List CkUlong → List CkUlong × Nat
  | [], out, list => (list, out)
  | (s, i) :: ss, out, list =>
    if filter && !s.tokenPresent then writeSlots filter ss out list
    else writeSlots filter ss (out + 1) (list.set out (UInt64.ofNat i))

def cGetSlotList (P : Platform W) (cfg : Config) (m : Module) (tokenPresent : UInt8)
    (pList : Option (List CkUlong)) (pCount : Option CkUlong) :
    Run (World W) (Rv × Module × Option (List CkUlong) × Option CkUlong) := do
  match pCount with
  | none => return (.argumentsBad, m, pList, pCount)
  | some count =>
    if ¬ m.initialized then
      return (.cryptokiNotInitialized, m, pList, pCount)
    let filter := tokenPresent == ckTrue
    let (want, m) ← countSlots P cfg filter (List.range m.slots.length) m 0
    match pList with
    | none => return (.ok, m, none, some (UInt64.ofNat want))
    | some list =>
      if count.toNat < want then
        return (.bufferTooSmall, m, pList, some (UInt64.ofNat want))
      let (list, out) := writeSlots filter m.slots.zipIdx 0 list
      return (.ok, m, some list, some (UInt64.ofNat out))

def cGetSlotInfo (P : Platform W) (cfg : Config) (m : Module) (slot : CkUlong)
    (pInfo : Option CkSlotInfo) : Run (World W) (Rv × Module × Option CkSlotInfo) := do
  if pInfo.isNone then
    return (.argumentsBad, m, pInfo)
  if ¬ m.initialized then
    return (.cryptokiNotInitialized, m, pInfo)
  match m.slots[slot.toNat]? with
  | none => return (.slotIdInvalid, m, pInfo)
  | some s =>
    let (present, m) ← m.refreshSlot P cfg slot.toNat
    return (.ok, m, some {
      slotDescription := field 64 (utf8Bytes s.name)
      manufacturerID := field 32 libMfr
      flags := ckfHwSlot ||| ckfRemovableDevice ||| if present then ckfTokenPresent else 0
      hardwareVersion := ⟨0, 1⟩
      firmwareVersion := ⟨0, 1⟩ })

def cGetTokenInfo (P : Platform W) (cfg : Config) (m : Module) (slot : CkUlong)
    (pInfo : Option CkTokenInfo) : Run (World W) (Rv × Module × Option CkTokenInfo) := do
  if pInfo.isNone then
    return (.argumentsBad, m, pInfo)
  if ¬ m.initialized then
    return (.cryptokiNotInitialized, m, pInfo)
  if slot.toNat ≥ m.slots.length then
    return (.slotIdInvalid, m, pInfo)
  match ← m.refreshSlot P cfg slot.toNat with
  | (false, m) => return (.tokenNotPresent, m, pInfo)
  | (true, m) =>
    return (.ok, m, some {
      label := field 32 (utf8Bytes cfg.backendLabel)
      manufacturerID := field 32 libMfr
      model := field 16 (utf8Bytes cfg.backendModel)
      serialNumber := List.replicate 16 0x20
      flags := ckfRng ||| ckfTokenInitialized ||| ckfWriteProtected
      ulMaxSessionCount := UInt64.ofNat maxSessions
      ulSessionCount := ckUnavailableInformation
      ulMaxRwSessionCount := 0
      ulRwSessionCount := ckUnavailableInformation
      ulMaxPinLen := 0
      ulMinPinLen := 0
      ulTotalPublicMemory := ckUnavailableInformation
      ulFreePublicMemory := ckUnavailableInformation
      ulTotalPrivateMemory := ckUnavailableInformation
      ulFreePrivateMemory := ckUnavailableInformation
      hardwareVersion := ⟨0, 1⟩
      firmwareVersion := ⟨0, 1⟩
      utcTime := List.replicate 16 0 })

/-- There are no mechanisms; the list argument is not looked at. -/
def cGetMechanismList (m : Module) (slot : CkUlong) (pCount : Option CkUlong) :
    Run (World W) (Rv × Option CkUlong) := do
  if pCount.isNone then
    return (.argumentsBad, pCount)
  if ¬ m.initialized then
    return (.cryptokiNotInitialized, pCount)
  if slot.toNat ≥ m.slots.length then
    return (.slotIdInvalid, pCount)
  return (.ok, some 0)

def cGetMechanismInfo : Rv := .mechanismInvalid

def cOpenSession (P : Platform W) (cfg : Config) (m : Module) (slot flags : CkUlong)
    (phSession : Option CkUlong) : Run (World W) (Rv × Module × Option CkUlong) := do
  if phSession.isNone then
    return (.argumentsBad, m, phSession)
  if flags &&& ckfSerialSession = 0 then
    return (.sessionParallelNotSupported, m, phSession)
  if ¬ m.initialized then
    return (.cryptokiNotInitialized, m, phSession)
  if slot.toNat ≥ m.slots.length then
    return (.slotIdInvalid, m, phSession)
  match m.sessions.findIdx? Option.isNone with
  | none => return (.hostMemory, m, phSession)
  | some freeIdx =>
    match ← Pool.open P cfg with
    | .error .notEnoughSources =>
      return (.tokenNotPresent, ← m.setTokenPresent slot.toNat false, phSession)
    | .error _ => return (.deviceError, m, phSession)
    | .ok pool =>
      let m ← m.setTokenPresent slot.toNat true
      return (.ok, { m with sessions := m.sessions.set freeIdx (some { slot, flags, pool }) },
        some (UInt64.ofNat (freeIdx + 1)))

def cCloseSession (P : Platform W) (m : Module) (h : CkUlong) : Run (World W) (Rv × Module) := do
  if ¬ m.initialized then
    return (.cryptokiNotInitialized, m)
  match m.findSession h with
  | none => return (.sessionHandleInvalid, m)
  | some idx =>
    match m.sessions[idx]? with
    | some (some s) => s.pool.drop P
    | _ => pure ()
    return (.ok, { m with sessions := m.sessions.set idx none })

def cCloseAllSessions (P : Platform W) (m : Module) (slot : CkUlong) :
    Run (World W) (Rv × Module) := do
  if ¬ m.initialized then
    return (.cryptokiNotInitialized, m)
  if slot.toNat ≥ m.slots.length then
    return (.slotIdInvalid, m)
  let sessions ← sweep P (fun s => s.slot == slot) m.sessions
  return (.ok, { m with sessions })

def cGetSessionInfo (m : Module) (h : CkUlong) (pInfo : Option CkSessionInfo) :
    Run (World W) (Rv × Option CkSessionInfo) := do
  if pInfo.isNone then
    return (.argumentsBad, pInfo)
  if ¬ m.initialized then
    return (.cryptokiNotInitialized, pInfo)
  match m.findSession h with
  | none => return (.sessionHandleInvalid, pInfo)
  | some idx =>
    match m.sessions[idx]? with
    | some (some s) =>
      return (.ok, some {
        slotID := s.slot
        state := if s.flags &&& ckfRwSession ≠ 0 then cksRwPublicSession else cksRoPublicSession
        flags := s.flags
        ulDeviceError := 0 })
    | _ => Run.stuck

/-- `buf` points to at least `len` bytes, or is NULL. -/
def cGenerateRandom (P : Platform W) (m : Module) (h : CkUlong) (buf : Option (List UInt8))
    (len : CkUlong) : Run (World W) (Rv × Module × Option (List UInt8)) := do
  if buf.isNone ∧ len > 0 then
    return (.argumentsBad, m, buf)
  if ¬ m.initialized then
    return (.cryptokiNotInitialized, m, buf)
  match m.findSession h with
  | none => return (.sessionHandleInvalid, m, buf)
  | some idx =>
    match m.sessions[idx]? with
    | some (some s) =>
      let slice := (buf.getD []).take len.toNat
      let (res, pool, slice) ← s.pool.read P slice
      let m := { m with sessions := m.sessions.set idx (some { s with pool }) }
      let buf := buf.map fun b => slice ++ b.drop len.toNat
      match res with
      | .ok () => return (.ok, m, buf)
      | .error _ => return (.deviceError, m, buf)
    | _ => Run.stuck

/-- The one entry point that reports a missing initialization as an invalid handle. -/
def cSeedRandom (m : Module) (h : CkUlong) : Rv :=
  if ¬ m.initialized ∨ (m.findSession h).isNone then .sessionHandleInvalid
  else .randomSeedNotSupported

end Module

/-- A call of an entry point that can reach a device or change the module. -/
inductive Call
  | cInitialize (pInitArgs : Option InitArgs)
  | cFinalize (pReservedIsNull : Bool)
  | cGetSlotList (tokenPresent : UInt8) (pList : Option (List CkUlong)) (pCount : Option CkUlong)
  | cGetSlotInfo (slot : CkUlong) (pInfo : Option CkSlotInfo)
  | cGetTokenInfo (slot : CkUlong) (pInfo : Option CkTokenInfo)
  | cOpenSession (slot flags : CkUlong) (phSession : Option CkUlong)
  | cCloseSession (h : CkUlong)
  | cCloseAllSessions (slot : CkUlong)
  | cGenerateRandom (h : CkUlong) (buf : Option (List UInt8)) (len : CkUlong)

/-- What a call returns, and the module it leaves. -/
def Call.run (P : Platform W) (cfg : Config) (m : Module) : Call → Run (World W) (Rv × Module)
  | .cInitialize pInitArgs => m.cInitialize P cfg pInitArgs
  | .cFinalize pReservedIsNull => m.cFinalize P cfg pReservedIsNull
  | .cGetSlotList tokenPresent pList pCount => do
    let (rv, m, _) ← m.cGetSlotList P cfg tokenPresent pList pCount
    return (rv, m)
  | .cGetSlotInfo slot pInfo => do
    let (rv, m, _) ← m.cGetSlotInfo P cfg slot pInfo
    return (rv, m)
  | .cGetTokenInfo slot pInfo => do
    let (rv, m, _) ← m.cGetTokenInfo P cfg slot pInfo
    return (rv, m)
  | .cOpenSession slot flags phSession => do
    let (rv, m, _) ← m.cOpenSession P cfg slot flags phSession
    return (rv, m)
  | .cCloseSession h => m.cCloseSession P h
  | .cCloseAllSessions slot => m.cCloseAllSessions P slot
  | .cGenerateRandom h buf len => do
    let (rv, m, _) ← m.cGenerateRandom P h buf len
    return (rv, m)

/-- The module between two calls, with the world. The other entry points do nothing to either. -/
inductive ModuleRun (P : Platform W) (cfg : Config) : Module → World W → Prop
  | started {w : World W} : w.global = ⟨none, 0⟩ → w.trace = [] → w.log = [] →
      ModuleRun P cfg Module.new w
  | elapsed {m : Module} {w w' : World W} : ModuleRun P cfg m w → w'.global = w.global →
      w'.trace = w.trace → w'.log = w.log → ModuleRun P cfg m w'
  | called {m m' : Module} {w w' : World W} {c : Call} {rv : Rv} : ModuleRun P cfg m w →
      c.run P cfg m w = some ((rv, m'), w') → ModuleRun P cfg m' w'

end P11Rand
