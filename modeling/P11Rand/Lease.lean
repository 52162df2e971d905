import Mathlib.Data.List.Perm.Subperm
import Mathlib.Data.List.Nodup

/-! Tables of holders that each belong to a class and hold at most one name of it. -/
namespace Lease

variable {κ ν : Type} {l l' : List (κ × Option ν)} {i j : Nat} {k : κ} {n : ν} {o : Option ν}

/-- No two holders of one class hold the same name. -/
def Distinct (l : List (κ × Option ν)) : Prop :=
  ∀ (i j : Nat) (k : κ) (n : ν), l[i]? = some (k, some n) → l[j]? = some (k, some n) → i = j

/-- A holder of class `k` other than the `i`-th holds `n`. -/
def HeldByOther (l : List (κ × Option ν)) (i : Nat) (k : κ) (n : ν) : Prop :=
  ∃ j : Nat, j ≠ i ∧ l[j]? = some (k, some n)

/-- Give a name up, or take one that no other holder of the class holds. -/
inductive Step : List (κ × Option ν) → List (κ × Option ν) → Prop
  | release {l : List (κ × Option ν)} {i : Nat} {k : κ} {o : Option ν} :
      l[i]? = some (k, o) → Step l (l.set i (k, none))
  | acquire {l : List (κ × Option ν)} {i : Nat} {k : κ} {o : Option ν} {n : ν} :
      l[i]? = some (k, o) → ¬ HeldByOther l i k n → Step l (l.set i (k, some n))

theorem Step.distinct (h : Step l l') (hd : Distinct l) : Distinct l' := by
  cases h with
  | @release i k o hi =>
    have hget : ∀ {j : Nat} {c m}, (l.set i (k, none))[j]? = some (c, some m) →
        l[j]? = some (c, some m) := by
      intro j c m h
      rcases eq_or_ne i j with rfl | hij
      · simp [List.getElem?_set] at h
      · rwa [List.getElem?_set_ne hij] at h
    intro a b c m ha hb
    exact hd a b c m (hget ha) (hget hb)
  | @acquire i k o n hi hfree =>
    -- the new holder of `n` is `i`; everything else is as before
    have hget : ∀ {j : Nat} {c m}, (l.set i (k, some n))[j]? = some (c, some m) →
        (i = j ∧ c = k ∧ m = n) ∨ (i ≠ j ∧ l[j]? = some (c, some m)) := by
      intro j c m h
      rcases eq_or_ne i j with rfl | hij
      · simp [(List.getElem?_eq_some_iff.mp hi).1] at h
        exact .inl ⟨rfl, h.1.symm, h.2.symm⟩
      · exact .inr ⟨hij, by rwa [List.getElem?_set_ne hij] at h⟩
    intro a b c m ha hb
    rcases hget ha with ⟨hia, hc, hm⟩ | ⟨hia, ha'⟩ <;>
      rcases hget hb with ⟨hib, hc', hm'⟩ | ⟨hib, hb'⟩
    · exact hia.symm.trans hib
    · exact (hfree ⟨b, hib.symm, by rw [hb', hc, hm]⟩).elim
    · exact (hfree ⟨a, hia.symm, by rw [ha', hc', hm']⟩).elim
    · exact hd a b c m ha' hb'

/-- The names that holders of class `k` other than the `i`-th hold. -/
def heldByOthers [DecidableEq κ] (l : List (κ × Option ν)) (i : Nat) (k : κ) : List ν :=
  (l.eraseIdx i).filterMap fun p => if p.1 = k then p.2 else none

theorem mem_heldByOthers [DecidableEq κ] : n ∈ heldByOthers l i k ↔ HeldByOther l i k n := by
  simp only [heldByOthers, List.mem_filterMap, List.mem_eraseIdx_iff_getElem?, HeldByOther]
  constructor
  · rintro ⟨⟨c, m⟩, ⟨j, hji, hj⟩, hm⟩
    split at hm
    · rename_i hc
      dsimp only at hc hm
      exact ⟨j, hji, by rw [hj, hm, hc]⟩
    · cases hm
  · rintro ⟨j, hji, hj⟩
    exact ⟨_, ⟨j, hji, hj⟩, by simp⟩

theorem length_heldByOthers [DecidableEq κ] (hi : l[i]? = some (k, o)) :
    (heldByOthers l i k).length < l.countP fun p => p.1 = k := by
  obtain ⟨hlt, hget⟩ := List.getElem?_eq_some_iff.mp hi
  have hsplit : l = l.take i ++ (k, o) :: l.drop (i + 1) := by
    rw [← hget, List.getElem_cons_drop, List.take_append_drop]
  have hcount : (l.countP fun p => p.1 = k) =
      ((l.eraseIdx i).countP fun p => p.1 = k) + 1 := by
    conv_lhs => rw [hsplit]
    rw [List.eraseIdx_eq_take_drop_succ]
    simp [List.countP_append, Nat.add_assoc]
  have hle : (heldByOthers l i k).length ≤ (l.eraseIdx i).countP fun p => p.1 = k := by
    rw [heldByOthers, List.length_filterMap_eq_countP]
    apply List.countP_mono_left
    intro p _ hp
    by_contra hne
    simp [decide_eq_true_iff.not.mp hne] at hp
  omega

/-- Pigeonhole: a class with as many names as it has holders has one for each of them. -/
theorem exists_free [DecidableEq κ] {names : List ν} (hn : names.Nodup)
    (hi : l[i]? = some (k, o)) (hle : (l.countP fun p => p.1 = k) ≤ names.length) :
    ∃ n ∈ names, ¬ HeldByOther l i k n := by
  by_contra hno
  have hsub : names ⊆ heldByOthers l i k := by
    intro n hmem
    rw [mem_heldByOthers]
    by_contra hfree
    exact hno ⟨n, hmem, hfree⟩
  have hlen := (hn.subperm hsub).length_le
  have hlt := length_heldByOthers hi
  omega

end Lease
