import P11Rand.Tools.Cli

/-! Piping random bytes to standard output: `p11rand-read.rs`. -/
namespace P11Rand.Tools.Read

open Effect

structure Args where
  /-- -1 for an open-ended stream. -/
  nTotal : Int64
  hex : Bool
  quiet : Bool
  module : String

def parseFrom (a : Args) : List String → Except UInt8 Args
  | [] => if a.module.isEmpty then .error 2 else .ok a
  | arg :: rest =>
    if arg = "-n" then
      match rest with
      | [] => .error 2
      | s :: rest =>
        match parseI64 s with
        | none => .error 2
        | some v =>
          if v < 0 then .error 2
          else parseFrom { a with nTotal := if v = 0 then -1 else Int64.ofInt v } rest
    else if arg = "-x" then parseFrom { a with hex := true } rest
    else if arg = "-q" then parseFrom { a with quiet := true } rest
    else if arg = "-h" ∨ arg = "--help" then .error 0
    else if ¬ startsWithDash arg then
      -- the module is the last argument
      if rest.isEmpty then parseFrom { a with module := arg } rest else .error 2
    else .error 2

/-- The arguments, or the code to exit with. -/
def parse (argv : List String) : Except UInt8 Args := parseFrom ⟨32, false, false, ""⟩ argv.tail

variable {H : Type}

/-- One pass through the loop of `write_full`, with `buf` still to be written. -/
def writeFullStep (P : ToolHost H) (buf : List UInt8) :
    Run (ToolWorld H) (List UInt8 ⊕ Except IoError Unit) := do
  if buf.isEmpty then
    return .inr (.ok ())
  match ← ask P (.writeOut buf) with
  | .ok n => return if n.val = 0 then .inr (.error .writeZero) else .inl (buf.drop n)
  | .error .interrupted => return .inl buf
  | .error e => return .inr (.error e)

def writeFull (P : ToolHost H) (buf : List UInt8) : Run (ToolWorld H) (Except IoError Unit) :=
  loop (writeFullStep P) buf

def hexTable : List UInt8 :=
  [48, 49, 50, 51, 52, 53, 54, 55, 56, 57, 97, 98, 99, 100, 101, 102]

/-- The two digits staged for a byte. -/
def hexPair (b : UInt8) : List UInt8 :=
  [hexTable.getD (b >>> 4).toNat 0, hexTable.getD (b &&& 0xf).toNat 0]

/-- The loop of `write_hex`; `tmp` is the part of the staging buffer in use. -/
def writeHexFrom (P : ToolHost H) (tmp : List UInt8) :
    List UInt8 → Run (ToolWorld H) (Except IoError Unit)
  | [] => if tmp.length > 0 then writeFull P tmp else return .ok ()
  | b :: rest => do
    if tmp.length + 2 > 1024 then
      match ← writeFull P tmp with
      | .error e => return .error e
      | .ok () => writeHexFrom P (hexPair b) rest
    else writeHexFrom P (tmp ++ hexPair b) rest

def writeHex (P : ToolHost H) (buf : List UInt8) : Run (ToolWorld H) (Except IoError Unit) :=
  writeHexFrom P [] buf

def writeBlock (P : ToolHost H) (hex : Bool) (buf : List UInt8) :
    Run (ToolWorld H) (Except IoError Unit) :=
  if hex then writeHex P buf else writeFull P buf

/-- How much to ask for next; the buffer has room for 256 bytes. -/
def wanted (a : Args) (produced : Int64) : Nat :=
  if 0 ≤ a.nTotal ∧ a.nTotal - produced < 256 then (a.nTotal - produced).toUInt64.toNat else 256

/-- One pass through the loop of `main`: it ends with what was produced and the exit code. -/
def readStep (P : ToolHost H) (a : Args) (produced : Int64) :
    Run (ToolWorld H) (Int64 ⊕ Int64 × UInt8) := do
  if (← ask P .signalCount) ≠ 0 then
    return .inr (produced, 0)
  if ¬ (a.nTotal < 0 ∨ produced < a.nTotal) then
    return .inr (produced, 0)
  let (rv, buf) ← ask P (.generateRandom (wanted a produced))
  if rv ≠ ckrOk then
    if (← ask P .signalCount) > 0 then
      return .inr (produced, 0)
    return .inr (produced, 1)
  if (← ask P .signalCount) > 0 then
    return .inr (produced, 0)
  match ← writeBlock P a.hex buf.toList with
  | .ok () => return .inl (produced + Int64.ofNat (wanted a produced))
  | .error .brokenPipe => return .inr (produced, 0)
  | .error _ => return .inr (produced, 1)

/-- `main` from its loop on. The newline is written by `write_all`, whose loop is that of
`write_full`. -/
def emitStream (P : ToolHost H) (a : Args) : Run (ToolWorld H) UInt8 := do
  let (produced, exitRv) ← loop (readStep P a) 0
  if a.hex ∧ produced > 0 then
    let _ ← writeFull P [10]
  return exitRv

end P11Rand.Tools.Read
