import Mathlib.Data.Rat.Floor
import P11Rand.Cryptoki
import P11Rand.Effect.Host
import P11Rand.Effect.Loop

/-! What the command line tools ask of the module they load and of the kernel, and how they read
numbers from their arguments. -/
namespace P11Rand.Tools

open Effect

def ckrOk : CkUlong := 0

def eperm : Nat := 1

/-- The head of the kernel's `rand_pool_info`; the bytes follow it. -/
structure RandPoolInfoHeader where
  entropyCount : Int32
  bufSize : Int32
  deriving DecidableEq

/-- The errors of std::io that the tools tell apart. -/
inductive IoError
  | interrupted
  | brokenPipe
  | writeZero
  | other (errno : Nat)
  deriving DecidableEq

inductive ToolRequest
  | generateRandom (len : Nat)
  | signalCount
  | addEntropy (header : RandPoolInfoHeader) (buf : List UInt8)
  | reseedCrng
  | writeRandom (buf : List UInt8)
  | writeOut (buf : List UInt8)
  | now
  | sleep (nanos : Nat)
  deriving DecidableEq

@[reducible] def ToolRequest.Answer : ToolRequest → Type
  -- the return value, and what the buffer holds then
  | .generateRandom len => CkUlong × Vector UInt8 len
  | .signalCount => Int32
  | .addEntropy _ _ => Except Nat Unit
  | .reseedCrng => Except Nat Unit
  | .writeRandom _ => Except Nat Nat
  -- a writer accepts no more than it is given
  | .writeOut buf => Except IoError (Fin (buf.length + 1))
  | .now => Nat
  | .sleep _ => Unit

/-- Any module on any kernel. -/
abbrev ToolHost (H : Type) := Host ToolRequest.Answer H

abbrev ToolWorld (H : Type) := Hosted ToolRequest.Answer H

abbrev ToolReply := Reply ToolRequest.Answer

/-- The count after one more signal. At the second one the handler ends the process by
`_exit(130)`. -/
def handleSignal (prev : Int32) : Option Int32 := if 1 ≤ prev then none else some (prev + 1)

/-- A count that a process can see, which has reset it and is alive. -/
inductive Counted : Int32 → Prop
  | reset : Counted 0
  | signal {prev n : Int32} : Counted prev → handleSignal prev = some n → Counted n

theorem counted_iff {n : Int32} : Counted n ↔ n = 0 ∨ n = 1 := by
  constructor
  · intro h
    induction h with
    | reset => exact .inl rfl
    | signal _ hsignal ih =>
      rcases ih with rfl | rfl
      · cases hsignal
        exact .inr rfl
      · cases hsignal
  · rintro (rfl | rfl)
    · exact .reset
    · exact .signal .reset rfl

/-- The value of a non-empty string of ASCII digits. -/
def parseDigits (digits : List Char) : Option Nat :=
  if digits.isEmpty ∨ ¬ digits.all Char.isDigit then none
  else some (digits.foldl (fun n c => n * 10 + (c.toNat - 48)) 0)

/-- `parse::<usize>`. -/
def parseUsize (s : String) : Option Nat :=
  let digits := match s.toList with
    | '+' :: rest => rest
    | chars => chars
  (parseDigits digits).filter (· < 2 ^ 64)

/-- `parse::<i64>`. -/
def parseI64 (s : String) : Option Int :=
  match s.toList with
  | '-' :: rest => ((parseDigits rest).filter (· ≤ 2 ^ 63)).map fun n => -n
  | '+' :: rest => ((parseDigits rest).filter (· < 2 ^ 63)).map fun n => n
  | chars => ((parseDigits chars).filter (· < 2 ^ 63)).map fun n => n

def startsWithDash (s : String) : Bool := s.toList.head? == some '-'

/-- What an `f64` can be. -/
inductive F64
  | finite (q : ℚ)
  | infinite (negative : Bool)
  | nan

/-- `v <= 0.0`. -/
def F64.nonpos : F64 → Bool
  | .finite q => q ≤ 0
  | .infinite negative => negative
  | .nan => false

def roundEven (q : ℚ) : Int :=
  if q - q.floor < 1 / 2 then q.floor
  else if 1 / 2 < q - q.floor then q.floor + 1
  else if q.floor % 2 = 0 then q.floor
  else q.floor + 1

/-- `Duration::from_secs_f64` in nanoseconds; `none` is its panic. -/
def fromSecsF64 : F64 → Option Nat
  | .finite q => if q < 0 ∨ 2 ^ 64 ≤ q then none else some (roundEven (q * 10 ^ 9)).toNat
  | _ => none

end P11Rand.Tools
