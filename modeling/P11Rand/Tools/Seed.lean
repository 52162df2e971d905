import P11Rand.Tools.Cli

/-! Seeding the kernel's generator: `p11rand-seed.rs`. -/
namespace P11Rand.Tools.Seed

open Effect

def defaultInterval : F64 := .finite 60

def defaultNbytes : Nat := 64

def maxNbytes : Nat := 4096

structure Args where
  interval : F64
  nbytes : Nat
  noCredit : Bool
  noReseed : Bool
  quiet : Bool
  module : String

def parseFrom (parseF64 : String → Option F64) (a : Args) : List String → Except UInt8 Args
  | [] => if a.module.isEmpty then .error 2 else .ok a
  | arg :: rest =>
    if arg = "-t" then
      match rest with
      | [] => .error 2
      | s :: rest =>
        match parseF64 s with
        | none => .error 2
        | some v => if v.nonpos then .error 2 else parseFrom parseF64 { a with interval := v } rest
    else if arg = "-n" then
      match rest with
      | [] => .error 2
      | s :: rest =>
        match parseUsize s with
        | none => .error 2
        | some v =>
          if v = 0 ∨ v > maxNbytes then .error 2
          else parseFrom parseF64 { a with nbytes := v } rest
    else if arg = "--no-credit" then parseFrom parseF64 { a with noCredit := true } rest
    else if arg = "--no-reseed" then parseFrom parseF64 { a with noReseed := true } rest
    else if arg = "-q" then parseFrom parseF64 { a with quiet := true } rest
    else if arg = "-h" ∨ arg = "--help" then .error 0
    else if ¬ startsWithDash arg then
      -- the module is the last argument
      if rest.isEmpty then parseFrom parseF64 { a with module := arg } rest else .error 2
    else .error 2

/-- The arguments, or the code to exit with. -/
def parse (parseF64 : String → Option F64) (argv : List String) : Except UInt8 Args :=
  parseFrom parseF64 ⟨defaultInterval, defaultNbytes, false, false, false, ""⟩ argv.tail

/-- Where the loop is: at its head, or asleep since `start` for `total` nanoseconds. -/
inductive Phase
  | seeding
  | napping (start total : Nat)

/-- What the loop works on. `header` and `buf` are one allocation, the blob. -/
structure Seeder where
  args : Args
  header : RandPoolInfoHeader
  buf : List UInt8
  phase : Phase

inductive Exit
  | stopped
  | panicked

/-- As the loop finds it. -/
def Seeder.start (a : Args) : Seeder where
  args := a
  header := ⟨Int32.ofNat (a.nbytes * 8), Int32.ofNat a.nbytes⟩
  buf := List.replicate a.nbytes 0
  phase := .seeding

variable {H : Type}

/-- `interruptible_sleep` up to its loop. -/
def fallAsleep (P : ToolHost H) (s : Seeder) : Run (ToolWorld H) (Seeder ⊕ Exit) := do
  if s.args.interval.nonpos then
    return .inl { s with phase := .seeding }
  match fromSecsF64 s.args.interval with
  | none => return .inr .panicked
  | some total =>
    let start ← ask P .now
    return .inl { s with phase := .napping start total }

/-- One pass through its loop: sleep on for at most 50 ms. -/
def sleepOn (P : ToolHost H) (start total : Nat) (s : Seeder) :
    Run (ToolWorld H) (Seeder ⊕ Exit) := do
  if (← ask P .now) - start < total then
    if (← ask P .signalCount) = 0 then
      let remaining := total - ((← ask P .now) - start)
      ask P (.sleep (min remaining 50000000))
      return .inl s
  return .inl { s with phase := .seeding }

/-- What follows a successful credit. -/
def forceReseed (P : ToolHost H) (s : Seeder) : Run (ToolWorld H) Seeder := do
  if s.args.noReseed then
    return s
  match ← ask P .reseedCrng with
  | .error err =>
    return if err = eperm then { s with args := { s.args with noReseed := true } } else s
  | .ok () => return s

/-- What happens to a fresh block: it is written, or submitted for credit. -/
def insertBlock (P : ToolHost H) (s : Seeder) : Run (ToolWorld H) Seeder := do
  if s.args.noCredit then
    let _ ← ask P (.writeRandom s.buf)
    return s
  match ← ask P (.addEntropy s.header s.buf) with
  | .error err =>
    if err = eperm then
      let _ ← ask P (.writeRandom s.buf)
      return { s with args := { s.args with noCredit := true } }
    return s
  | .ok () => forceReseed P s

/-- One pass through the loop of `main`, or through that of the sleep at its end. -/
def seedStep (P : ToolHost H) (s : Seeder) : Run (ToolWorld H) (Seeder ⊕ Exit) := do
  match s.phase with
  | .napping start total => sleepOn P start total s
  | .seeding =>
    if (← ask P .signalCount) ≠ 0 then
      return .inr .stopped
    let (rv, buf) ← ask P (.generateRandom s.args.nbytes)
    if rv ≠ ckrOk then
      if (← ask P .signalCount) > 0 then
        return .inr .stopped
      fallAsleep P { s with buf := buf.toList }
    else
      let s ← insertBlock P { s with buf := buf.toList }
      fallAsleep P s

/-- The loop of `main`. -/
def seed (P : ToolHost H) (a : Args) : Run (ToolWorld H) Exit := loop (seedStep P) (.start a)

end P11Rand.Tools.Seed
