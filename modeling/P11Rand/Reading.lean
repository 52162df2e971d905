import P11Rand.World

/-! A read in progress: a source and the caller's buffer, split where the next byte goes. -/
namespace P11Rand

/-- `done` has been written by the read; `rest` still holds what the caller had there. -/
structure Reading (S : Type) where
  src : S
  done : List UInt8
  rest : List UInt8

/-- How a read returned; the buffer is then `done ++ rest`. -/
structure Outcome (S ε : Type) where
  res : Except ε Unit
  src : S
  done : List UInt8
  rest : List UInt8

variable {S T ε : Type}

namespace Reading

def map (f : S → T) (r : Reading S) : Reading T := ⟨f r.src, r.done, r.rest⟩

def start (src : S) (buf : List UInt8) : Reading S := ⟨src, [], buf⟩

def ret (r : Reading S) (res : Except ε Unit) : Outcome S ε := ⟨res, r.src, r.done, r.rest⟩

/-- Write `bytes` at the front of what is still to be filled. -/
def fill (r : Reading S) (bytes : List UInt8) : Reading S :=
  { r with done := r.done ++ bytes, rest := r.rest.drop bytes.length }

/-- The length of the caller's buffer. -/
def length (r : Reading S) : Nat := r.done.length + r.rest.length

@[simp] theorem length_start (src : S) (buf : List UInt8) :
    (start src buf).length = buf.length := by
  simp [length, start]

theorem length_fill (r : Reading S) {bytes : List UInt8} (h : bytes.length ≤ r.rest.length) :
    (r.fill bytes).length = r.length := by
  simp [length, fill]
  omega

end Reading

namespace Outcome

def buf (o : Outcome S ε) : List UInt8 := o.done ++ o.rest

def ok (o : Outcome S ε) : Bool := o.res.isOk

/-- The outcome as a caller sees it that asks only whether the read succeeded. -/
def map (f : S → T) (o : Outcome S ε) : Outcome T Unit :=
  ⟨o.res.mapError fun _ => (), f o.src, o.done, o.rest⟩

/-- A read that succeeded wrote the caller's whole buffer. -/
def Full (o : Outcome S ε) : Prop := o.ok = true → o.rest = []

end Outcome
end P11Rand
