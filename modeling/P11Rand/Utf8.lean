import Mathlib

/-! Reading bytes as UTF-8 with U+FFFD for what is not: `String::from_utf8_lossy`. -/
namespace Utf8

variable {b : UInt8} {c : Char} {rest : List UInt8}

/-- How long a character with this first byte is; 0 when there is none. -/
def charWidth (b : UInt8) : Nat :=
  if b < 0x80 then 1
  else if b < 0xc2 then 0
  else if b < 0xe0 then 2
  else if b < 0xf0 then 3
  else if b < 0xf5 then 4
  else 0

/-- The tag of a continuation byte. -/
def isCont (b : UInt8) : Bool := b &&& 192 == 128

/-- Which continuation bytes may follow the first byte of a long character: no overlong forms, no
surrogates, nothing past U+10FFFF. -/
def secondOk (first b : UInt8) : Bool :=
  if first = 0xe0 then 0xa0 ≤ b && b ≤ 0xbf
  else if first = 0xed then 0x80 ≤ b && b ≤ 0x9f
  else if first = 0xf0 then 0x90 ≤ b && b ≤ 0xbf
  else if first = 0xf4 then 0x80 ≤ b && b ≤ 0x8f
  else 0x80 ≤ b && b ≤ 0xbf

/-- How many bytes go with `first`, and whether they make a character with it. A missing byte reads
as 0. -/
def scan (first : UInt8) (rest : List UInt8) : Nat × Bool :=
  match charWidth first with
  | 1 => (0, true)
  | 2 => if isCont (rest.getD 0 0) then (1, true) else (0, false)
  | 3 =>
    if ¬ secondOk first (rest.getD 0 0) then (0, false)
    else if isCont (rest.getD 1 0) then (2, true)
    else (1, false)
  | 4 =>
    if ¬ secondOk first (rest.getD 0 0) then (0, false)
    else if ¬ isCont (rest.getD 1 0) then (1, false)
    else if isCont (rest.getD 2 0) then (3, true)
    else (2, false)
  | _ => (0, false)

/-- U+FFFD. -/
def replacement : List UInt8 := [0xef, 0xbf, 0xbd]

/-- The bytes of the string that is made of any bytes. -/
def fromUtf8Lossy : List UInt8 → List UInt8
  | [] => []
  | b :: rest =>
    (if (scan b rest).2 then b :: rest.take (scan b rest).1 else replacement) ++
      fromUtf8Lossy (rest.drop (scan b rest).1)
termination_by bytes => bytes.length
decreasing_by
  simp only [List.length_drop, List.length_cons]
  omega

theorem isCont_eq : isCont b = decide (128 ≤ b.toNat ∧ b.toNat < 192) := by
  revert b
  decide +kernel

theorem charWidth_eq : charWidth b =
    if b.toNat < 0x80 then 1 else if b.toNat < 0xc2 then 0 else if b.toNat < 0xe0 then 2
    else if b.toNat < 0xf0 then 3 else if b.toNat < 0xf5 then 4 else 0 := by
  simp only [charWidth, UInt8.lt_iff_toNat_lt, UInt8.reduceToNat]

theorem secondOk_iff {first : UInt8} : secondOk first b = true ↔
    0x80 ≤ b.toNat ∧ b.toNat < 0xc0 ∧ (first.toNat = 0xe0 → 0xa0 ≤ b.toNat) ∧
      (first.toNat = 0xed → b.toNat < 0xa0) ∧ (first.toNat = 0xf0 → 0x90 ≤ b.toNat) ∧
      (first.toNat = 0xf4 → b.toNat < 0x90) := by
  simp only [secondOk, ← UInt8.toNat_inj, UInt8.reduceToNat]
  split_ifs <;> simp [UInt8.le_iff_toNat_le] <;> omega

theorem scan_one (hb : b.toNat < 0x80) : scan b rest = (0, true) := by
  have hw : charWidth b = 1 := by rw [charWidth_eq, if_pos hb]
  simp [scan, hw]

theorem scan_two {x : UInt8} (hb : 0xc2 ≤ b.toNat ∧ b.toNat < 0xe0) (hx : isCont x = true) :
    scan b (x :: rest) = (1, true) := by
  have hw : charWidth b = 2 := by
    rw [charWidth_eq]
    split_ifs <;> omega
  simp [scan, hw, hx]

theorem scan_three {x y : UInt8} (hb : 0xe0 ≤ b.toNat ∧ b.toNat < 0xf0)
    (hx : secondOk b x = true) (hy : isCont y = true) : scan b (x :: y :: rest) = (2, true) := by
  have hw : charWidth b = 3 := by
    rw [charWidth_eq]
    split_ifs <;> omega
  simp [scan, hw, hx, hy]

theorem scan_four {x y z : UInt8} (hb : 0xf0 ≤ b.toNat ∧ b.toNat < 0xf5)
    (hx : secondOk b x = true) (hy : isCont y = true) (hz : isCont z = true) :
    scan b (x :: y :: z :: rest) = (3, true) := by
  have hw : charWidth b = 4 := by
    rw [charWidth_eq]
    split_ifs <;> omega
  simp [scan, hw, hx, hy, hz]

theorem fromUtf8Lossy_of_scan {n : Nat} (h : scan b rest = (n, true)) :
    fromUtf8Lossy (b :: rest) = b :: rest.take n ++ fromUtf8Lossy (rest.drop n) := by
  rw [fromUtf8Lossy, h, if_pos rfl]

/-- A character comes through. -/
theorem fromUtf8Lossy_char : fromUtf8Lossy (String.utf8EncodeChar c ++ rest) =
    String.utf8EncodeChar c ++ fromUtf8Lossy rest := by
  have hc : c.val.toNat < 0xd800 ∨ 0xdfff < c.val.toNat ∧ c.val.toNat < 0x110000 := c.valid
  unfold String.utf8EncodeChar
  generalize c.val.toNat = v at hc
  have hcont : ∀ k, isCont (UInt8.ofNat (k % 64 + 128)) = true := by
    intro k
    rw [isCont_eq, UInt8.toNat_ofNat', decide_eq_true_iff]
    omega
  dsimp only
  split_ifs with h₁ h₂ h₃
  · refine fromUtf8Lossy_of_scan (scan_one ?_)
    rw [UInt8.toNat_ofNat']
    omega
  · refine fromUtf8Lossy_of_scan (scan_two ?_ (hcont _))
    rw [UInt8.toNat_ofNat']
    omega
  · refine fromUtf8Lossy_of_scan (scan_three ?_ (secondOk_iff.mpr ?_) (hcont _))
    · rw [UInt8.toNat_ofNat']
      omega
    · simp only [UInt8.toNat_ofNat']
      omega
  · refine fromUtf8Lossy_of_scan (scan_four ?_ (secondOk_iff.mpr ?_) (hcont _) (hcont _))
    · rw [UInt8.toNat_ofNat']
      omega
    · simp only [UInt8.toNat_ofNat']
      omega

/-- So does every string. -/
theorem fromUtf8Lossy_of_valid {bytes : List UInt8} (h : bytes.toByteArray.IsValidUTF8) :
    fromUtf8Lossy bytes = bytes := by
  obtain ⟨m, hm⟩ := h
  obtain rfl := List.toByteArray_inj.mp hm
  induction m with
  | nil => simp [fromUtf8Lossy]
  | cons c m ih => rw [List.flatMap_cons, fromUtf8Lossy_char, ih rfl]

end Utf8
