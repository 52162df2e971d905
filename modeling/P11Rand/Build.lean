import P11Rand.Tools.Cli

/-! The build script of the module, `build.rs`: it writes the pool's configuration from the
environment, or panics. -/
namespace P11Rand.Build

/-- `parse_or` for a `usize`. A variable that is not set, or not Unicode, leaves the default. -/
def parseOr (env : String → Option String) (name : String) (default : Nat) :
    Except String Nat :=
  match env name with
  | some s =>
    match Tools.parseUsize s with
    | some n => .ok n
    | none => .error (name ++ ": cannot parse as usize")
  | none => .ok default

/-- The four values that `main` reads. -/
def read (env : String → Option String) : Except String Config := do
  let nIso ← parseOr env "P11RAND_ISO7816_CARDS" 1
  let nInf ← parseOr env "P11RAND_INFNOISE_DEVICES" 0
  let isoIn ← parseOr env "P11RAND_ISO7816_INPUT_BYTES" 32
  let infIn ← parseOr env "P11RAND_INFNOISE_INPUT_BYTES" 32
  return ⟨nIso, nInf, isoIn, infIn⟩

/-- Its checks; the number of sources is taken not to overflow. -/
def check (c : Config) : Except String Unit :=
  if c.iso7816Cards + c.infnoiseDevices < 1 then
    .error "Need at least one source: P11RAND_ISO7816_CARDS or P11RAND_INFNOISE_DEVICES >= 1"
  else if c.iso7816Cards > 0 ∧ (c.iso7816InputBytes < 32 ∨ ¬ c.iso7816InputBytes % 32 = 0) then
    .error ("P11RAND_ISO7816_INPUT_BYTES must be >= 32 and a multiple of 32 (got " ++
      toString c.iso7816InputBytes ++ ")")
  else if c.infnoiseDevices > 0 ∧
      (c.infnoiseInputBytes < 32 ∨ ¬ c.infnoiseInputBytes % 32 = 0) then
    .error ("P11RAND_INFNOISE_INPUT_BYTES must be >= 32 and a multiple of 32 (got " ++
      toString c.infnoiseInputBytes ++ ")")
  else
    .ok ()

/-- The configuration whose constants are written to `config.rs`, or the message of the panic. -/
def main (env : String → Option String) : Except String Config := do
  let c ← read env
  check c
  return c

end P11Rand.Build
