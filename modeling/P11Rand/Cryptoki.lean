import P11Rand.Config

/-! What crosses the PKCS#11 interface: return values, flags and the structures that the entry
points of `lib.rs` fill in. -/
namespace P11Rand

/-- `CK_ULONG`, and with it slot ids, session handles, flags and counts. -/
abbrev CkUlong := UInt64

inductive Rv
  | ok
  | hostMemory
  | slotIdInvalid
  | functionFailed
  | argumentsBad
  | deviceError
  | mechanismInvalid
  | sessionHandleInvalid
  | sessionParallelNotSupported
  | tokenNotPresent
  | randomSeedNotSupported
  | bufferTooSmall
  | cryptokiNotInitialized
  | cryptokiAlreadyInitialized
  deriving DecidableEq

def ckTrue : UInt8 := 1

def ckfTokenPresent : CkUlong := 0x1

def ckfRemovableDevice : CkUlong := 0x2

def ckfHwSlot : CkUlong := 0x4

def ckfRng : CkUlong := 0x1

def ckfWriteProtected : CkUlong := 0x2

def ckfTokenInitialized : CkUlong := 0x400

def ckfRwSession : CkUlong := 0x2

def ckfSerialSession : CkUlong := 0x4

def cksRoPublicSession : CkUlong := 0

def cksRwPublicSession : CkUlong := 2

def ckUnavailableInformation : CkUlong := 0xFFFFFFFFFFFFFFFF

structure CkVersion where
  major : UInt8
  minor : UInt8
  deriving DecidableEq

/-- Of `CK_C_INITIALIZE_ARGS` only `pReserved` is looked at. -/
structure InitArgs where
  pReservedIsNull : Bool
  deriving DecidableEq

structure CkInfo where
  cryptokiVersion : CkVersion
  manufacturerID : List UInt8
  flags : CkUlong
  libraryDescription : List UInt8
  libraryVersion : CkVersion
  deriving DecidableEq

structure CkSlotInfo where
  slotDescription : List UInt8
  manufacturerID : List UInt8
  flags : CkUlong
  hardwareVersion : CkVersion
  firmwareVersion : CkVersion
  deriving DecidableEq

structure CkTokenInfo where
  label : List UInt8
  manufacturerID : List UInt8
  model : List UInt8
  serialNumber : List UInt8
  flags : CkUlong
  ulMaxSessionCount : CkUlong
  ulSessionCount : CkUlong
  ulMaxRwSessionCount : CkUlong
  ulRwSessionCount : CkUlong
  ulMaxPinLen : CkUlong
  ulMinPinLen : CkUlong
  ulTotalPublicMemory : CkUlong
  ulFreePublicMemory : CkUlong
  ulTotalPrivateMemory : CkUlong
  ulFreePrivateMemory : CkUlong
  hardwareVersion : CkVersion
  firmwareVersion : CkVersion
  utcTime : List UInt8
  deriving DecidableEq

structure CkSessionInfo where
  slotID : CkUlong
  state : CkUlong
  flags : CkUlong
  ulDeviceError : CkUlong
  deriving DecidableEq

def utf8Bytes (s : String) : List UInt8 := s.toUTF8.toList

def libDesc : List UInt8 := utf8Bytes "mini-pkcs11-rand RNG provider"

def libMfr : List UInt8 := utf8Bytes "mini-pkcs11-rand"

/-- Space-pad a fixed-width field; a longer string is cut to the field. -/
def padField (dst src : List UInt8) : List UInt8 :=
  let n := min src.length dst.length
  let dst := src.take n ++ dst.drop n
  if n < dst.length then dst.take n ++ List.replicate (dst.length - n) 0x20 else dst

/-- A field of `n` zero bytes with a string padded into it. -/
def field (n : Nat) (s : List UInt8) : List UInt8 := padField (List.replicate n 0) s

end P11Rand
