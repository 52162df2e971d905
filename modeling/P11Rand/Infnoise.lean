import Mathlib.Data.List.Sort
import P11Rand.Effect.Loop
import P11Rand.Reading

/-! The `/dev/infnoiseN` nodes: `infnoise.rs`. -/
namespace P11Rand.Infnoise

open Effect

inductive Error
  | noDevice
  | io
  deriving DecidableEq

structure Source where
  file : Nat
  path : String
  deriving DecidableEq

variable {W : Type}

def devDir : String := "/dev"

def devPrefix : String := "infnoise"

def asciiBytes (s : String) : List UInt8 := s.toList.map fun c => UInt8.ofNat c.toNat

def asciiString (bytes : List UInt8) : String :=
  String.ofList (bytes.map fun b => Char.ofNat b.toNat)

def isAsciiDigit (b : UInt8) : Bool := 48 ≤ b.toNat && b.toNat ≤ 57

/-- The number a string of ASCII digits denotes. -/
def digitsValue (digits : List UInt8) : Nat :=
  digits.foldl (fun n b => n * 10 + (b.toNat - 48)) 0

/-- `parse::<u64>` on a non-empty string of ASCII digits. -/
def parseU64 (digits : List UInt8) : Option Nat :=
  if digitsValue digits < 2 ^ 64 then some (digitsValue digits) else none

/-- The sort key and path of a directory entry, if it is a device node. -/
def nodeOf (name : List UInt8) : Option (Nat × String) :=
  if ¬ (asciiBytes devPrefix).isPrefixOf name then none
  else
    let suffix := name.drop (asciiBytes devPrefix).length
    if suffix.isEmpty ∨ ¬ suffix.all isAsciiDigit then none
    else some ((parseU64 suffix).getD 0, devDir ++ "/" ++ asciiString name)

def listPaths (P : Platform W) : Run (World W) (Except Error (List String)) := do
  match ← request P .readDir with
  | .error .notFound => return .ok []
  | .error .other => return .error .io
  | .ok entries =>
    let out := (entries.filterMap id).filterMap nodeOf
    return .ok ((out.insertionSort fun a b => a.1 ≤ b.1).map Prod.snd)

/-- `open` of `infnoise.rs`. -/
def openSource (P : Platform W) (path : String) : Run (World W) (Except Error Source) := do
  match ← request P (.openFile path) with
  | none => return .error .noDevice
  | some file => return .ok { file, path }

/-- One pass through the loop of `Source::read`: at most one read(2), which writes no more than
it was asked for. -/
def Source.readStep (P : Platform W) (r : Reading Source) :
    Run (World W) (Reading Source ⊕ Outcome Source Error) := do
  if r.rest.isEmpty then
    return .inr (r.ret (.ok ()))
  match ← request P (.readFile r.src.file r.rest.length) with
  | .data bytes =>
    let got := bytes.take r.rest.length
    if got.isEmpty then
      return .inr (r.ret (.error .io))
    return .inl (r.fill got)
  | .interrupted => return .inl r
  | .error _ => return .inr (r.ret (.error .io))

def Source.read (P : Platform W) (src : Source) (buf : List UInt8) :
    Run (World W) (Outcome Source Error) :=
  loop (Source.readStep P) (.start src buf)

end P11Rand.Infnoise
