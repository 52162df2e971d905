import P11Rand.Config
import P11Rand.Iso7816
import P11Rand.Infnoise

/-! The RNG pool: slots, rebinding, the SHA3-256 chain and raw passthrough of `pool.rs`. -/
namespace P11Rand

open Effect

inductive SlotInner
  | iso7816 (src : Iso7816.Source)
  | infnoise (src : Infnoise.Source)
  | empty
  deriving DecidableEq

structure Slot where
  kind : SlotKind
  name : Option String
  inner : SlotInner
  deriving DecidableEq

inductive Error
  | notEnoughSources
  | resource
  | readFailure
  deriving DecidableEq

structure Pool where
  config : Config
  slots : List Slot
  state : Digest

/-- An incremental SHA3-256 computation: the input it has been given so far. -/
structure Sha3 where
  input : List UInt8

variable {W : Type}

namespace Sha3

def new : Sha3 := ⟨[]⟩

def update (h : Sha3) (bytes : List UInt8) : Sha3 := ⟨h.input ++ bytes⟩

def finalize (P : Platform W) (h : Sha3) : Digest := P.sha3_256 h.input

end Sha3

/-- The two hash contexts of a round: the output's and the state update's. -/
structure Hashes where
  out : Sha3
  state : Sha3

def Hashes.update (h : Hashes) (bytes : List UInt8) : Hashes :=
  ⟨h.out.update bytes, h.state.update bytes⟩

def zeros (n : Nat) : List UInt8 := List.replicate n 0

def zeroDigest : Digest := Vector.replicate roundBytes 0

namespace SlotInner

/-- The name under which the handle was opened. -/
def device : SlotInner → Option String
  | .iso7816 src => some src.card.reader
  | .infnoise src => some src.path
  | .empty => none

def kind? : SlotInner → Option SlotKind
  | .iso7816 _ => some .iso7816
  | .infnoise _ => some .infnoise
  | .empty => none

/-- Closing a device node has no effect on anything modelled. -/
def drop (P : Platform W) : SlotInner → Run (World W) Unit
  | .iso7816 src => Iso7816.dropCard P src.card
  | .infnoise _ => return ()
  | .empty => return ()

/-- `Slot::read`: whether the source's own read succeeded. -/
def read (P : Platform W) (s : SlotInner) (buf : List UInt8) :
    Run (World W) (Outcome SlotInner Unit) :=
  match s with
  | .iso7816 src => do return (← src.read P buf).map .iso7816
  | .infnoise src => do return (← src.read P buf).map .infnoise
  | .empty => return (Reading.start .empty buf).ret (.error ())

/-- One pass through the loop of the read under way: what a worker thread does at a time. -/
def readStep (P : Platform W) (r : Reading SlotInner) :
    Run (World W) (Reading SlotInner ⊕ Outcome SlotInner Unit) :=
  match r.src with
  | .iso7816 src => do
    return (← Iso7816.Source.readStep P ⟨src, r.done, r.rest⟩).map
      (Reading.map .iso7816) (Outcome.map .iso7816)
  | .infnoise src => do
    return (← Infnoise.Source.readStep P ⟨src, r.done, r.rest⟩).map
      (Reading.map .infnoise) (Outcome.map .infnoise)
  | .empty => return .inr (r.ret (.error ()))

end SlotInner

namespace SlotKind

/-- Enumerate the devices of a kind; any failure is `Resource` to the pool. -/
def list (P : Platform W) : SlotKind → Run (World W) (Except Error (List String))
  | .iso7816 => do return (← Iso7816.listReaders P).mapError fun _ => .resource
  | .infnoise => do return (← Infnoise.listPaths P).mapError fun _ => .resource

/-- Open a device of a kind; the pool does not look at why it failed. -/
def openSource (P : Platform W) (kind : SlotKind) (name : String) :
    Run (World W) (Option SlotInner) :=
  match kind with
  | .iso7816 => do
    match ← Iso7816.openSource P name with
    | .ok src => return some (.iso7816 src)
    | .error _ => return none
  | .infnoise => do
    match ← Infnoise.openSource P name with
    | .ok src => return some (.infnoise src)
    | .error _ => return none

end SlotKind

def Slot.close (P : Platform W) (s : Slot) : Run (World W) Slot := do
  s.inner.drop P
  return { s with inner := .empty, name := none }

def globalInit (P : Platform W) (cfg : Config) : Run (World W) (Except Error Unit) := do
  if cfg.iso7816Cards > 0 then
    return (← Iso7816.globalInit P).mapError fun _ => .resource
  return .ok ()

def globalShutdown (P : Platform W) (cfg : Config) : Run (World W) Unit := do
  if cfg.iso7816Cards > 0 then
    Iso7816.globalShutdown P

/-- The card scan of `fillable`: each source that opens is dropped again at once. -/
def countUsable (P : Platform W) (cards usable : Nat) : List String → Run (World W) Nat
  | [] => return usable
  | r :: rs => do
    if usable ≥ cards then
      return usable
    match ← Iso7816.openSource P r with
    | .ok src =>
      Iso7816.dropCard P src.card
      countUsable P cards (usable + 1) rs
    | .error _ => countUsable P cards usable rs

/-- The iso7816 half of `fillable`. -/
def cardsUsable (P : Platform W) (cfg : Config) : Run (World W) (Except Error Bool) := do
  if cfg.iso7816Cards > 0 then
    match ← SlotKind.iso7816.list P with
    | .error e => return .error e
    | .ok readers =>
      let usable ← countUsable P cfg.iso7816Cards 0 readers
      return .ok (cfg.iso7816Cards ≤ usable)
  else
    return .ok true

/-- The infnoise half of `fillable`: the nodes are counted, not opened. -/
def nodesPresent (P : Platform W) (cfg : Config) : Run (World W) (Except Error Bool) := do
  if cfg.infnoiseDevices > 0 then
    match ← SlotKind.infnoise.list P with
    | .error e => return .error e
    | .ok paths => return .ok (cfg.infnoiseDevices ≤ paths.length)
  else
    return .ok true

def fillable (P : Platform W) (cfg : Config) : Run (World W) (Except Error Bool) := do
  match ← cardsUsable P cfg with
  | .ok true => nodesPresent P cfg
  | r => return r

def dropSlots (P : Platform W) : List Slot → Run (World W) Unit
  | [] => return ()
  | s :: ss => do
    s.inner.drop P
    dropSlots P ss

/-- The scan of `Pool::open` over the devices of one kind. -/
def claim (P : Platform W) (kind : SlotKind) (want : Nat) (got : List Slot) :
    List String → Run (World W) (List Slot)
  | [] => return got
  | name :: names => do
    if got.length ≥ want then
      return got
    match ← kind.openSource P name with
    | some src => claim P kind want (got ++ [⟨kind, some name, src⟩]) names
    | none => claim P kind want got names

/-- One of the two blocks of `Pool::open`; an early return drops the slots claimed so far. -/
def claimKind (P : Platform W) (cfg : Config) (kind : SlotKind) (slots : List Slot) :
    Run (World W) (Except Error (List Slot)) := do
  if cfg.count kind > 0 then
    match ← kind.list P with
    | .error e =>
      dropSlots P slots
      return .error e
    | .ok names =>
      let got ← claim P kind (cfg.count kind) [] names
      if got.length < cfg.count kind then
        dropSlots P (slots ++ got)
        return .error .notEnoughSources
      return .ok (slots ++ got)
  else
    return .ok slots

namespace Pool

def «open» (P : Platform W) (cfg : Config) : Run (World W) (Except Error Pool) := do
  match cfg.validate with
  | .error _ => return .error .resource
  | .ok () =>
    match ← claimKind P cfg .iso7816 [] with
    | .error e => return .error e
    | .ok slots =>
      match ← claimKind P cfg .infnoise slots with
      | .error e => return .error e
      | .ok slots => return .ok { config := cfg, slots, state := zeroDigest }

def setSlot (p : Pool) (idx : Nat) (s : Slot) : Pool := { p with slots := p.slots.set idx s }

def nameInUse (p : Pool) (skip : Nat) (kind : SlotKind) (name : String) : Bool :=
  p.slots.zipIdx.any fun (s, j) => j ≠ skip && s.kind == kind && s.name == some name

/-- The scan of `rebind` for a device no other slot holds. -/
def rebindScan (P : Platform W) (idx : Nat) (kind : SlotKind) (p : Pool) :
    List String → Run (World W) (Except Error Unit × Pool)
  | [] => do
    emit (.rebind idx none)
    return (.error .notEnoughSources, p)
  | r :: rs => do
    if p.nameInUse idx kind r then
      rebindScan P idx kind p rs
    else
      match ← kind.openSource P r with
      | some src =>
        emit (.rebind idx (some r))
        return (.ok (), p.setSlot idx ⟨kind, some r, src⟩)
      | none => rebindScan P idx kind p rs

/-- An index out of bounds is a panic: the call does not return. -/
def rebind (P : Platform W) (p : Pool) (idx : Nat) :
    Run (World W) (Except Error Unit × Pool) :=
  match p.slots[idx]? with
  | none => Run.stuck
  | some s => do
    let p := p.setSlot idx (← s.close P)
    match ← s.kind.list P with
    | .error e =>
      emit (.rebind idx none)
      return (.error e, p)
    | .ok names => rebindScan P idx s.kind p names

/-- `self.slots[i].read(buf)`. -/
def readSlot (P : Platform W) (p : Pool) (i : Nat) (buf : List UInt8) :
    Run (World W) (Outcome SlotInner Unit × Pool) :=
  match p.slots[i]? with
  | none => Run.stuck
  | some s => do
    let o ← s.inner.read P buf
    return (o, p.setSlot i { s with inner := o.src })

/-- The worker of slot `i` in tick `t`; a slot that owes nothing has none. -/
def worker (cfg : Config) (t i : Nat) (s : Slot) :
    Reading SlotInner ⊕ Outcome SlotInner Unit :=
  if t ≥ cfg.slotTicks i then .inr ((Reading.start s.inner []).ret (.error ()))
  else .inl (.start s.inner (zeros tickBytes))

/-- Join the workers in slot index order and store what those that succeeded fetched. -/
def join (cfg : Config) (t : Nat) : Nat → List (Outcome SlotInner Unit) →
    Run (World W) (List (Option (List UInt8)))
  | _, [] => return []
  | i, o :: os => do
    if t ≥ cfg.slotTicks i then
      return none :: (← join cfg t (i + 1) os)
    emit (.fetch t i o.src.device o.ok o.done)
    return (if o.ok then some o.buf else none) :: (← join cfg t (i + 1) os)

/-- The parallel fetch of a tick: one worker thread per slot that still owes bytes. -/
def fanOut (P : Platform W) (p : Pool) (t : Nat) :
    Run (World W) (List (Option (List UInt8)) × Pool) := do
  let os ← (interleave (SlotInner.readStep P) choose (p.slots.mapIdx (worker p.config t)) :
    Run (World W) _)
  let scratch ← join p.config t 0 os
  return (scratch, { p with slots := p.slots.zipWith (fun s o => { s with inner := o.src }) os })

/-- Rebind a slot that failed and repeat its tick. -/
def retrySlot (P : Platform W) (p : Pool) (t i : Nat) :
    Run (World W) (Except Error (List UInt8) × Pool) := do
  match ← p.rebind P i with
  | (.error e, p) => return (.error e, p)
  | (.ok (), p) =>
    let (o, p) ← p.readSlot P i (zeros tickBytes)
    emit (.retry t i o.src.device o.ok o.done)
    if o.ok then
      return (.ok o.buf, p)
    return (.error .readFailure, p)

/-- The block of slot `i`: fetched in the fan-out, or by the retry. -/
def blockFor (P : Platform W) (p : Pool) (t i : Nat) :
    Option (List UInt8) → Run (World W) (Except Error (List UInt8) × Pool)
  | some buf => return (.ok buf, p)
  | none => retrySlot P p t i

/-- Absorb the blocks of tick `t` of the slots listed. -/
def absorbFrom (P : Platform W) (t : Nat) (scratch : List (Option (List UInt8))) :
    List Nat → Pool → Hashes → Run (World W) (Except Error Hashes × Pool)
  | [], p, h => return (.ok h, p)
  | i :: is, p, h =>
    if t ≥ p.config.slotTicks i then absorbFrom P t scratch is p h
    else
      match scratch[i]? with
      | none => Run.stuck
      | some cell => do
        match ← blockFor P p t i cell with
        | (.error e, p) => return (.error e, p)
        | (.ok buf, p) =>
          emit (.absorb t i buf)
          absorbFrom P t scratch is p (h.update buf)

/-- Run the ticks listed. -/
def ticksFrom (P : Platform W) (poolSize : Nat) :
    List Nat → Pool → Hashes → Run (World W) (Except Error Hashes × Pool)
  | [], p, h => return (.ok h, p)
  | t :: ts, p, h => do
    let (scratch, p) ← p.fanOut P t
    match ← absorbFrom P t scratch (List.range poolSize) p h with
    | (.error e, p) => return (.error e, p)
    | (.ok h, p) => ticksFrom P poolSize ts p h

/-- The contexts a round starts with: `S || 0x11` and `S || 0x00`. -/
def freshHashes (state : Digest) : Hashes where
  out := (Sha3.new.update state.toList).update [0x11]
  state := (Sha3.new.update state.toList).update [0x00]

def doRoundChain (P : Platform W) (p : Pool) (out : Digest) :
    Run (World W) (Except Error Unit × Pool × Digest) := do
  emit (.start p.state)
  match ← ticksFrom P p.slots.length (List.range p.config.maxTicks) p (freshHashes p.state) with
  | (.error e, p) => return (.error e, p, out)
  | (.ok h, p) =>
    let out := h.out.finalize P
    let p := { p with state := h.state.finalize P }
    emit (.round out p.state)
    return (.ok (), p, out)

/-- The chain branch of `read`, `done ++ rest` being the caller's buffer. It also returns the
round scratch `out` as the call leaves it. -/
def readChain (P : Platform W) (p : Pool) (out : Digest) (done rest : List UInt8) :
    Run (World W) (Except Error Unit × Pool × Digest × List UInt8) :=
  if rest.isEmpty then return (.ok (), p, zeroDigest, done)
  else do
    match ← p.doRoundChain P out with
    | (.error e, p, out) => return (.error e, p, out, done ++ rest)
    | (.ok (), p, out) =>
      let take := min rest.length roundBytes
      emit (.copy (out.toList.take take))
      readChain P p out (done ++ out.toList.take take) (rest.drop take)
termination_by rest.length
decreasing_by
  have hpos : 0 < rest.length := List.length_pos_iff.mpr (by simpa using ‹¬ rest.isEmpty = true›)
  simp only [roundBytes, List.length_drop]
  omega

/-- The passthrough branch of `read`: one rebind and one retry on failure. -/
def readPassthrough (P : Platform W) (p : Pool) (buf : List UInt8) :
    Run (World W) (Except Error Unit × Pool × List UInt8) := do
  let (o, p) ← p.readSlot P 0 buf
  emit (.pass o.src.device o.ok o.done)
  if o.ok then
    return (.ok (), p, o.buf)
  match ← p.rebind P 0 with
  | (.error e, p) => return (.error e, p, o.buf)
  | (.ok (), p) =>
    let (o, p) ← p.readSlot P 0 o.buf
    emit (.pass o.src.device o.ok o.done)
    if o.ok then
      return (.ok (), p, o.buf)
    return (.error .readFailure, p, o.buf)

def read (P : Platform W) (p : Pool) (buf : List UInt8) :
    Run (World W) (Except Error Unit × Pool × List UInt8) := do
  if p.config.useChain then
    let (res, p, _, buf) ← p.readChain P zeroDigest [] buf
    return (res, p, buf)
  else
    p.readPassthrough P buf

/-- Dropping a pool drops its slots in order; its chain state is wiped with it. -/
def drop (P : Platform W) (p : Pool) : Run (World W) Unit := dropSlots P p.slots

end Pool
end P11Rand
