import Mathlib.Data.Set.Card
import Mathlib.Data.List.Induction
import Mathlib.Order.Interval.Finset.Nat

/-! Tables of optional entries whose indices, counted from one, serve as handles. -/
namespace HandleTable

variable {α : Type} {t : List (Option α)} {h i : Nat} {e : Option α}

/-- The entry that a handle stands for; no entry has the handle 0. -/
def find (t : List (Option α)) (h : Nat) : Option α :=
  if h = 0 then none else t[h - 1]?.join

/-- The handles that stand for something. -/
def Live (t : List (Option α)) : Set Nat := {h | (find t h).isSome = true}

@[simp] theorem find_zero (t : List (Option α)) : find t 0 = none := rfl

@[simp] theorem find_succ (t : List (Option α)) (i : Nat) : find t (i + 1) = t[i]?.join := rfl

theorem find_set (hi : i < t.length) :
    find (t.set i e) h = if h = i + 1 then e else find t h := by
  cases h with
  | zero => simp
  | succ k =>
    by_cases hk : k = i
    · subst hk
      simp [hi]
    · have hne : i ≠ k := fun heq => hk heq.symm
      simp [List.getElem?_set_ne hne, hk]

/-- Emptying the entries that fail a test takes their handles away, and no others. -/
theorem find_filter (p : α → Bool) :
    find (t.map fun e => e.filter p) h = (find t h).filter p := by
  cases h with
  | zero => simp
  | succ k =>
    rcases hk : t[k]? with _ | e
    · simp [hk]
    · simp [hk]

theorem find_eq_none_of_length (hlt : t.length < h) : find t h = none := by
  cases h with
  | zero => rfl
  | succ k => simp [List.getElem?_eq_none (by omega : t.length ≤ k)]

theorem live_subset (t : List (Option α)) : Live t ⊆ Set.Icc 1 t.length := by
  intro h hlive
  have hsome : (find t h).isSome = true := hlive
  constructor
  · by_contra hzero
    obtain rfl : h = 0 := by omega
    simp at hsome
  · by_contra hgt
    rw [find_eq_none_of_length (by omega)] at hsome
    cases hsome

theorem finite_live (t : List (Option α)) : (Live t).Finite :=
  (Set.finite_Icc 1 t.length).subset (live_subset t)

theorem find_append_left (hle : h ≤ t.length) (e : Option α) : find (t ++ [e]) h = find t h := by
  cases h with
  | zero => rfl
  | succ k => simp [List.getElem?_append_left (by omega : k < t.length)]

theorem find_append_last (t : List (Option α)) (e : Option α) :
    find (t ++ [e]) (t.length + 1) = e := by
  simp

theorem live_append_none (t : List (Option α)) : Live (t ++ [none]) = Live t := by
  ext h
  by_cases hle : h ≤ t.length
  · simp only [Live, Set.mem_ofPred_eq, find_append_left hle]
  · have hnone : find (t ++ [none]) h = none := by
      by_cases heq : h = t.length + 1
      · rw [heq, find_append_last]
      · exact find_eq_none_of_length (by simp; omega)
    simp only [Live, Set.mem_ofPred_eq, hnone, find_eq_none_of_length (by omega : t.length < h)]

theorem live_append_some (t : List (Option α)) (a : α) :
    Live (t ++ [some a]) = insert (t.length + 1) (Live t) := by
  ext h
  by_cases hle : h ≤ t.length
  · have hne : h ≠ t.length + 1 := by omega
    simp only [Live, Set.mem_ofPred_eq, find_append_left hle, Set.mem_insert_iff, hne, false_or]
  · by_cases heq : h = t.length + 1
    · simp [Live, heq]
    · have hlen : (t ++ [some a]).length < h := by
        simp
        omega
      simp only [Live, Set.mem_insert_iff, Set.mem_ofPred_eq, find_eq_none_of_length hlen, heq,
        find_eq_none_of_length (by omega : t.length < h), false_or]

theorem ncard_live (t : List (Option α)) : (Live t).ncard = t.countP Option.isSome := by
  induction t using List.reverseRecOn with
  | nil =>
    have hempty : Live ([] : List (Option α)) = ∅ := by
      ext h
      cases h <;> simp [Live]
    simp [hempty]
  | append_singleton t e ih =>
    cases e with
    | none => simp [live_append_none, ih]
    | some a =>
      have hnew : t.length + 1 ∉ Live t := fun hlive => by
        have hle := (live_subset t hlive).2
        omega
      rw [live_append_some, Set.ncard_insert_of_notMem hnew (finite_live t), ih]
      simp

theorem ncard_live_le (t : List (Option α)) : (Live t).ncard ≤ t.length := by
  rw [ncard_live]
  exact List.countP_le_length

/-- The table is full just when it has as many handles as entries. -/
theorem full_iff : none ∉ t ↔ (Live t).ncard = t.length := by
  rw [ncard_live, List.countP_eq_length]
  constructor
  · intro hfull e he
    cases e with
    | none => exact absurd he hfull
    | some a => rfl
  · intro hall hnone
    cases hall none hnone

end HandleTable
