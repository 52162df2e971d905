import P11Rand.Cryptoki
import P11Rand.Utf8

/-! What the tools read from the space-padded fields that the module fills. -/
namespace P11Rand

variable {α : Type} {p : α → Bool} {x : α} {xs : List α} {dst f s : List UInt8}

/-- `rposition`: the last index whose element is in `p`. -/
def rposition (p : α → Bool) (xs : List α) : Option Nat :=
  (xs.reverse.findIdx? p).map fun i => xs.length - 1 - i

/-- The bytes of the string that a tool shows for a field. -/
def trimPkcs11 (field : List UInt8) : List UInt8 :=
  let stop := ((rposition (· != 0x20) field).map (· + 1)).getD 0
  Utf8.fromUtf8Lossy (field.take stop)

/-- Bytes that a `str` can have. -/
def Valid (s : List UInt8) : Prop := s.toByteArray.IsValidUTF8

theorem rposition_lt {i : Nat} (h : rposition p xs = some i) : i < xs.length := by
  obtain ⟨k, hk, rfl⟩ := Option.map_eq_some_iff.mp h
  have hk' := (List.findIdx?_eq_some_iff_getElem.mp hk).1
  rw [List.length_reverse] at hk'
  omega

theorem rposition_concat :
    rposition p (xs ++ [x]) = if p x then some xs.length else rposition p xs := by
  simp only [rposition, List.reverse_append, List.reverse_singleton, List.singleton_append,
    List.findIdx?_cons, List.length_append, List.length_singleton]
  split
  · simp
  · rw [Option.map_map]
    congr 1
    funext i
    dsimp only [Function.comp_apply]
    omega

/-- What is left of a field: all up to its trailing run of spaces. -/
theorem take_rposition : f.take (((rposition (· != 0x20) f).map (· + 1)).getD 0) =
    f.rdropWhile (· == 0x20) := by
  induction f using List.reverseRecOn with
  | nil => rfl
  | append_singleton f b ih =>
    rw [rposition_concat]
    by_cases hb : b = 0x20
    · subst hb
      rw [List.rdropWhile_concat_pos _ _ _ (by simp), ← ih, if_neg (by simp)]
      cases hpos : rposition (· != 0x20) f with
      | none => simp
      | some i => exact List.take_append_of_le_length (rposition_lt hpos)
    · rw [List.rdropWhile_concat_neg _ _ _ (by simpa using hb), if_pos (by simpa using hb)]
      simp

theorem trimPkcs11_eq (h : Valid (f.rdropWhile (· == 0x20))) :
    trimPkcs11 f = f.rdropWhile (· == 0x20) := by
  rw [trimPkcs11, take_rposition, Utf8.fromUtf8Lossy_of_valid h]

theorem rdropWhile_append_replicate {k : Nat} (hs : s.getLast? ≠ some 0x20) :
    (s ++ List.replicate k 0x20).rdropWhile (· == 0x20) = s := by
  induction k with
  | zero =>
    rw [List.replicate_zero, List.append_nil, List.rdropWhile_eq_self_iff]
    intro hne hlast
    rw [List.getLast?_eq_getLast_of_ne_nil hne] at hs
    exact hs (congrArg some (by simpa using hlast))
  | succ k ih =>
    rw [List.replicate_succ', ← List.append_assoc, List.rdropWhile_concat_pos _ _ _ (by simp), ih]

theorem append_spaces :
    f.rdropWhile (· == 0x20) ++
      List.replicate (f.length - (f.rdropWhile (· == 0x20)).length) 0x20 = f := by
  have happ := List.rdropWhile_append_rtakeWhile (p := (· == (0x20 : UInt8))) (l := f)
  have hrep : f.rtakeWhile (· == 0x20) = List.replicate (f.rtakeWhile (· == 0x20)).length 0x20 :=
    List.eq_replicate_of_mem fun b hb => by simpa using List.mem_rtakeWhile_imp hb
  have hlen := congrArg List.length happ
  rw [List.length_append] at hlen
  rw [show f.length - (f.rdropWhile (· == 0x20)).length = (f.rtakeWhile (· == 0x20)).length by
    omega, ← hrep, happ]

theorem padField_of_le (h : s.length ≤ dst.length) :
    padField dst s = s ++ List.replicate (dst.length - s.length) 0x20 := by
  have hlen : (s.take s.length ++ dst.drop s.length).length = dst.length := by
    simp
    omega
  unfold padField
  rw [min_eq_left h]
  dsimp only
  rw [hlen]
  split
  · simp
  · have heq : s.length = dst.length := by omega
    simp [heq]

theorem padField_of_lt (h : dst.length < s.length) : padField dst s = s.take dst.length := by
  have hlen : ¬ dst.length < (s.take dst.length).length := by
    simp
  unfold padField
  rw [min_eq_right h.le]
  dsimp only
  rw [List.drop_length, List.append_nil, if_neg hlen]

/-- What the module pads, the tools trim, and the other way round, at any width and whatever the
field held before. -/
theorem padField_trimPkcs11 (N : Nat) :
    (∀ dst s, dst.length = N → s.length ≤ N → Valid s → s.getLast? ≠ some 0x20 →
      trimPkcs11 (padField dst s) = s) ∧
    (∀ dst s, dst.length = N → N < s.length → Valid s → padField dst s = s.take N) ∧
    (∀ dst f, dst.length = N → f.length = N → Valid (f.rdropWhile (· == 0x20)) →
      padField dst (trimPkcs11 f) = f) := by
  refine ⟨?_, ?_, ?_⟩
  · rintro dst s rfl hle hs hlast
    have hdrop := rdropWhile_append_replicate (k := dst.length - s.length) hlast
    rw [padField_of_le hle, trimPkcs11_eq (by rwa [hdrop]), hdrop]
  · rintro dst s rfl hlt _
    exact padField_of_lt hlt
  · rintro dst f rfl hlen hf
    have hle := (List.rdropWhile_prefix (· == (0x20 : UInt8)) (l := f)).length_le
    rw [trimPkcs11_eq hf, padField_of_le (hlen ▸ hle), ← hlen, append_spaces]

/-- A string with a space in it, over a field that held something else. -/
theorem padField_trimPkcs11_four :
    trimPkcs11 (padField [1, 2, 3, 4] [0x61, 0x20, 0x62]) = [0x61, 0x20, 0x62] :=
  (padField_trimPkcs11 4).1 _ _ rfl (by decide) ⟨['a', ' ', 'b'], rfl⟩ (by decide)

end P11Rand
