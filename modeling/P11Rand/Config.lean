import P11Rand.World

/-! The pool configuration: `Config` of `pool.rs`. -/
namespace P11Rand

structure Config where
  iso7816Cards : Nat
  infnoiseDevices : Nat
  /-- Bytes fetched per iso7816 source per output round. -/
  iso7816InputBytes : Nat
  /-- Bytes fetched per infnoise source per output round. -/
  infnoiseInputBytes : Nat
  deriving DecidableEq

inductive SlotKind
  | iso7816
  | infnoise
  deriving DecidableEq

namespace Config

def default : Config where
  iso7816Cards := 1
  infnoiseDevices := 0
  iso7816InputBytes := 32
  infnoiseInputBytes := 32

def poolSize (c : Config) : Nat := c.iso7816Cards + c.infnoiseDevices

def validate (c : Config) : Except String Unit :=
  if c.poolSize < 1 then
    .error "Need at least one source: iso7816_cards or infnoise_devices >= 1"
  else if c.iso7816Cards > 0 ∧ (c.iso7816InputBytes < 32 ∨ ¬ c.iso7816InputBytes % 32 = 0) then
    .error "iso7816_input_bytes must be >= 32 and a multiple of 32"
  else if c.infnoiseDevices > 0 ∧
      (c.infnoiseInputBytes < 32 ∨ ¬ c.infnoiseInputBytes % 32 = 0) then
    .error "infnoise_input_bytes must be >= 32 and a multiple of 32"
  else
    .ok ()

def useChain (c : Config) : Bool :=
  let isoOversampled := c.iso7816Cards > 0 && c.iso7816InputBytes > 32
  let infOversampled := c.infnoiseDevices > 0 && c.infnoiseInputBytes > 32
  c.poolSize > 1 || isoOversampled || infOversampled

def slotName (c : Config) : String :=
  if c.iso7816Cards > 0 ∧ c.infnoiseDevices > 0 then
    "rng-pool[iso7816=" ++ toString c.iso7816Cards ++ ",infnoise=" ++
      toString c.infnoiseDevices ++ "]"
  else if c.iso7816Cards = 1 ∧ c.infnoiseDevices = 0 then
    "iso7816"
  else if c.iso7816Cards > 0 then
    "rng-pool[iso7816=" ++ toString c.iso7816Cards ++ "]"
  else if c.infnoiseDevices = 1 then
    "infnoise"
  else
    "rng-pool[infnoise=" ++ toString c.infnoiseDevices ++ "]"

def backendLabel (c : Config) : String :=
  if ¬ c.useChain then
    if c.iso7816Cards = 1 then "GET CHALLENGE RNG" else "Infinite Noise TRNG"
  else if c.iso7816Cards > 0 ∧ c.infnoiseDevices > 0 then
    toString c.iso7816Cards ++ "x iso7816 + " ++ toString c.infnoiseDevices ++ "x inf + SHA3"
  else if c.iso7816Cards > 0 then
    toString c.iso7816Cards ++ "x iso7816 + SHA3-256"
  else
    toString c.infnoiseDevices ++ "x infnoise + SHA3-256"

def backendModel (c : Config) : String :=
  if ¬ c.useChain ∧ c.iso7816Cards = 1 then "ISO7816-RNG"
  else if ¬ c.useChain then "INFNOISE"
  else "RNG-POOL"

/-- The ticks that slot `idx` owes in each round. -/
def slotTicks (c : Config) (idx : Nat) : Nat :=
  if idx < c.iso7816Cards then c.iso7816InputBytes / tickBytes
  else c.infnoiseInputBytes / tickBytes

def maxTicks (c : Config) : Nat :=
  let iso := if c.iso7816Cards > 0 then c.iso7816InputBytes / tickBytes else 0
  let inf := if c.infnoiseDevices > 0 then c.infnoiseInputBytes / tickBytes else 0
  max iso inf

/-- How many sources of a kind the pool is configured with. -/
def count (c : Config) : SlotKind → Nat
  | .iso7816 => c.iso7816Cards
  | .infnoise => c.infnoiseDevices

/-- The kind of the source configured at index `i`. -/
def kindAt (c : Config) (i : Nat) : SlotKind :=
  if i < c.iso7816Cards then .iso7816 else .infnoise

/-- The slots that owe a block in tick `t`, in index order. -/
def owing (c : Config) (t : Nat) : List Nat :=
  (List.range c.poolSize).filter fun i => t < c.slotTicks i

/-- The documented absorption order: tick-major, slots in index order. -/
def order (c : Config) : List (Nat × Nat) :=
  (List.range c.maxTicks).flatMap fun t => (c.owing t).map fun i => (t, i)

theorem poolSize_pos {c : Config} (h : c.validate = .ok ()) : 0 < c.poolSize := by
  unfold validate at h
  split at h
  · simp at h
  · omega

theorem poolSize_of_not_useChain {c : Config} (hv : c.validate = .ok ())
    (h : c.useChain = false) : c.poolSize = 1 := by
  have hp := poolSize_pos hv
  simp [useChain] at h
  omega

end Config
end P11Rand
