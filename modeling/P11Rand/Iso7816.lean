import P11Rand.Effect.Loop
import P11Rand.Reading

/-! PC/SC and ISO 7816-4 GET CHALLENGE: `iso7816.rs`. -/
namespace P11Rand.Iso7816

open Effect

inductive Error
  | noCard
  | unsupported
  | transport
  deriving DecidableEq

inductive AppId
  | none
  | piv
  | openPgp
  deriving DecidableEq

structure Source where
  card : Card
  app : AppId
  /-- Largest accepted GET CHALLENGE Le; learned. -/
  maxChunk : Nat
  deriving DecidableEq

variable {W α : Type}

def globalInit (P : Platform W) : Run (World W) (Except Error Unit) := do
  let g := (← Run.get).global
  if g.refs > 0 then
    setGlobal { g with refs := g.refs + 1 }
    return .ok ()
  match ← request P .establish with
  | .error _ => return .error .transport
  | .ok ctx =>
    setGlobal { ctx := some ctx, refs := 1 }
    return .ok ()

def globalShutdown (P : Platform W) : Run (World W) Unit := do
  let g := (← Run.get).global
  if g.refs = 0 then
    return ()
  if g.refs - 1 = 0 then
    match g.ctx with
    | some ctx =>
      request P (.releaseContext ctx)
      setGlobal { ctx := none, refs := 0 }
    | none => setGlobal { ctx := none, refs := 0 }
  else
    setGlobal { g with refs := g.refs - 1 }

def withContext (f : Context → Run (World W) (Except Error α)) :
    Run (World W) (Except Error α) := do
  match (← Run.get).global.ctx with
  | none => return .error .transport
  | some ctx => f ctx

/-- Enumerate the reader names. Any failure to size the list is taken for an empty one. -/
def listReaders (P : Platform W) : Run (World W) (Except Error (List String)) :=
  withContext fun ctx => do
    match ← request P (.listReadersLen ctx) with
    | .error _ => return .ok []
    | .ok len =>
      if len ≤ 1 then
        return .ok []
      match ← request P (.listReaders ctx len) with
      | .ok readers => return .ok readers
      | .error .noReadersAvailable => return .ok []
      | .error _ => return .error .transport

def appPivAid : List UInt8 :=
  [0xA0, 0x00, 0x00, 0x03, 0x08, 0x00, 0x00, 0x10, 0x00, 0x01, 0x00]

def appOpenPgpAid : List UInt8 := [0xD2, 0x76, 0x00, 0x01, 0x24, 0x01]

/-- The status word that ends a response; 0 for a response too short to have one. -/
def swOf (resp : List UInt8) : Nat :=
  if resp.length < 2 then 0
  else (resp.getD (resp.length - 2) 0).toNat * 256 + (resp.getD (resp.length - 1) 0).toNat

def selectApdu (aid : List UInt8) : List UInt8 :=
  [0x00, 0xA4, 0x04, 0x00, UInt8.ofNat aid.length] ++ aid

def challengeApdu (n : Nat) : List UInt8 := [0x00, 0x84, 0x00, 0x00, UInt8.ofNat n]

/-- SW 9000 or 61xx. -/
def selected (resp : List UInt8) : Bool := swOf resp == 0x9000 || swOf resp / 256 == 0x61

def selectAid (P : Platform W) (card : Card) (aid : List UInt8) :
    Run (World W) (Except Error Bool) := do
  match ← request P (.transmit card (selectApdu aid)) with
  | .error _ => return .error .transport
  | .ok resp => return .ok (selected resp)

/-- The data of a response: everything before its status word. -/
def bodyOf (resp : List UInt8) : List UInt8 :=
  if resp.length ≥ 2 then resp.take (resp.length - 2) else []

/-- One GET CHALLENGE for `n` bytes, written to the front of `out` when the card returned
exactly those. -/
def tryGetChallenge (P : Platform W) (card : Card) (n : Nat) (out : List UInt8) :
    Run (World W) (Except Error Bool × List UInt8) := do
  match ← request P (.transmit card (challengeApdu n)) with
  | .error _ => return (.error .transport, out)
  | .ok resp =>
    if swOf resp ≠ 0x9000 ∨ (bodyOf resp).length ≠ n then
      return (.ok false, out)
    return (.ok true, bodyOf resp ++ out.drop n)

/-- The applets tried in turn: SELECT, then the 8-byte challenge. -/
def probeApplets (P : Platform W) (card : Card) (throwaway : List UInt8) :
    List (AppId × List UInt8) → Run (World W) (Except Error AppId)
  | [] => return .error .unsupported
  | (app, aid) :: rest => do
    match ← selectAid P card aid with
    | .error e => return .error e
    | .ok false => probeApplets P card throwaway rest
    | .ok true =>
      match ← tryGetChallenge P card throwaway.length throwaway with
      | (.error e, _) => return .error e
      | (.ok true, _) => return .ok app
      | (.ok false, throwaway) => probeApplets P card throwaway rest

def probeApp (P : Platform W) (card : Card) : Run (World W) (Except Error AppId) := do
  let throwaway := List.replicate 8 0
  match ← tryGetChallenge P card throwaway.length throwaway with
  | (.error e, _) => return .error e
  | (.ok true, _) => return .ok .none
  | (.ok false, throwaway) =>
    probeApplets P card throwaway [(.piv, appPivAid), (.openPgp, appOpenPgpAid)]

def pcscNoCard : PcscError → Bool
  | .noSmartcard | .removedCard | .unpoweredCard | .unresponsiveCard => true
  | _ => false

/-- Dropping a `pcsc::Card` disconnects it with its default disposition. -/
def dropCard (P : Platform W) (card : Card) : Run (World W) Unit := do
  let _ ← request P (.disconnect card .resetCard)

/-- `let _ = card.disconnect(LeaveCard)`: on failure the card comes back and is dropped. -/
def leaveCard (P : Platform W) (card : Card) : Run (World W) Unit := do
  match ← request P (.disconnect card .leaveCard) with
  | .ok () => return ()
  | .error _ => dropCard P card

def connect (P : Platform W) (reader : String) : Run (World W) (Except Error Card) :=
  withContext fun ctx => do
    match ← request P (.connect ctx reader) with
    | .ok handle => return .ok ⟨reader, handle⟩
    | .error e => return .error (if pcscNoCard e then .noCard else .transport)

/-- `open` of `iso7816.rs`. A name with a NUL byte is no C string. -/
def openSource (P : Platform W) (reader : String) : Run (World W) (Except Error Source) := do
  if reader.toList.contains (Char.ofNat 0) then
    return .error .transport
  match ← connect P reader with
  | .error e => return .error e
  | .ok card =>
    match ← probeApp P card with
    | .ok app => return .ok { card, app, maxChunk := 128 }
    | .error e =>
      leaveCard P card
      return .error e

/-- One pass through the loop of `Source::read`: at most one GET CHALLENGE. -/
def Source.readStep (P : Platform W) (r : Reading Source) :
    Run (World W) (Reading Source ⊕ Outcome Source Error) := do
  if r.rest.isEmpty then
    return .inr (r.ret (.ok ()))
  if r.src.maxChunk = 0 then
    return .inr (r.ret (.error .transport))
  let chunk := r.src.maxChunk
  let truncating := r.rest.length < chunk
  let target := if truncating then List.replicate chunk 0 else r.rest.take chunk
  match ← tryGetChallenge P r.src.card chunk target with
  | (.error e, _) => return .inr (r.ret (.error e))
  | (.ok true, target) =>
    -- an over-fetched tail is dropped with the scratch it was read into
    return .inl (r.fill (if truncating then target.take r.rest.length else target))
  | (.ok false, _) =>
    if r.src.maxChunk > 1 then
      return .inl { r with src := { r.src with maxChunk := r.src.maxChunk / 2 } }
    return .inr (r.ret (.error .transport))

def Source.read (P : Platform W) (src : Source) (buf : List UInt8) :
    Run (World W) (Outcome Source Error) :=
  loop (Source.readStep P) (.start src buf)

end P11Rand.Iso7816
