import Mathlib.Data.List.Pairwise
import Mathlib.Data.List.Sort

/-! Sorting by a value that counts as 0 from some bound on. -/
namespace KeySort

variable {α : Type} (value : α → Nat) (bound : Nat)

/-- The key of an element: its value, unless that is too large. -/
def key (a : α) : Nat := if value a < bound then value a else 0

variable {value bound}

instance : IsPreorder α fun a b => key value bound a ≤ key value bound b where
  refl _ := le_rfl
  trans _ _ _ h h' := Nat.le_trans h h'

instance : Std.Total fun a b : α => key value bound a ≤ key value bound b where
  total _ _ := Nat.le_total _ _

theorem key_le (a : α) : key value bound a ≤ value a := by
  unfold key
  split
  · exact le_rfl
  · exact Nat.zero_le _

theorem key_of_lt {a : α} (h : value a < bound) : key value bound a = value a := if_pos h

theorem key_of_ge {a : α} (h : bound ≤ value a) : key value bound a = 0 := if_neg (not_lt.mpr h)

/-- Some order of the two is right both by key and by value. -/
def Agree (value : α → Nat) (bound : Nat) (a b : α) : Prop :=
  key value bound a ≤ key value bound b ∧ value a ≤ value b ∨
    key value bound b ≤ key value bound a ∧ value b ≤ value a

instance : Std.Symm (Agree value bound : α → α → Prop) where
  symm _ _ h := h.symm

/-- The sorted list ascends exactly if no value is too large, or all keys are 0 and the list
ascended before. -/
theorem ascending_iff (l : List α) :
    (l.insertionSort fun a b => key value bound a ≤ key value bound b).Pairwise
        (fun a b => value a ≤ value b) ↔
      (∀ a ∈ l, value a < bound) ∨
        (∀ a ∈ l, value a = 0 ∨ bound ≤ value a) ∧ l.Pairwise fun a b => value a ≤ value b := by
  have hkey := List.pairwise_insertionSort (fun a b => key value bound a ≤ key value bound b) l
  have hsame : (∀ a ∈ l, value a = 0 ∨ bound ≤ value a) →
      l.insertionSort (fun a b => key value bound a ≤ key value bound b) = l := by
    intro hall
    have hzero : ∀ a ∈ l, key value bound a = 0 := by
      intro a ha
      rcases hall a ha with h | h
      · have hle : key value bound a ≤ value a := key_le a
        omega
      · exact key_of_ge h
    refine List.Pairwise.insertionSort_eq (List.pairwise_of_forall_mem_list fun a ha b hb => ?_)
    rw [hzero a ha, hzero b hb]
  constructor
  · intro hvalue
    by_cases hsmall : ∀ a ∈ l, value a < bound
    · exact .inl hsmall
    push Not at hsmall
    obtain ⟨b, hb, hbound⟩ := hsmall
    have hboth : (l.insertionSort _).Pairwise (Agree value bound) :=
      (List.Pairwise.and hkey hvalue).imp fun h => .inl h
    have hall : ∀ a ∈ l, value a = 0 ∨ bound ≤ value a := by
      intro a ha
      by_contra hmid
      have hlt : value a < bound := by omega
      have h := hboth.forall_of_forall (fun _ _ => .inl ⟨le_rfl, le_rfl⟩)
        ((List.mem_insertionSort _).mpr ha) ((List.mem_insertionSort _).mpr hb)
      rw [Agree, key_of_lt hlt, key_of_ge hbound] at h
      omega
    exact .inr ⟨hall, hsame hall ▸ hvalue⟩
  · rintro (hsmall | ⟨hall, hasc⟩)
    · refine hkey.imp_of_mem fun ha hb h => ?_
      rwa [key_of_lt (hsmall _ ((List.mem_insertionSort _).mp ha)),
        key_of_lt (hsmall _ ((List.mem_insertionSort _).mp hb))] at h
    · rwa [hsame hall]

end KeySort
