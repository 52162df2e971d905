import Mathlib.Algebra.BigOperators.Intervals

/-! Two nested loops, rounds outside and workers inside, in which each worker stops after its
quota of rounds. -/
namespace Quota

variable {rounds n i t : Nat} {quota : Nat → Nat}

/-- The workers that still have something to do in round `t`. -/
def row (n : Nat) (quota : Nat → Nat) (t : Nat) : List (Nat × Nat) :=
  ((List.range n).filter fun i => t < quota i).map fun i => (t, i)

/-- The pairs of a round and a worker that the loops visit. -/
def visits (rounds n : Nat) (quota : Nat → Nat) : List (Nat × Nat) :=
  (List.range rounds).flatMap (row n quota)

theorem visits_succ (rounds n : Nat) (quota : Nat → Nat) :
    visits (rounds + 1) n quota = visits rounds n quota ++ row n quota rounds := by
  simp [visits, List.range_succ]

theorem countP_row (hi : i < n) :
    (row n quota t).countP (fun v => v.2 = i) = if t < quota i then 1 else 0 := by
  have hone : (List.range n).count i = 1 := List.count_eq_one_of_mem List.nodup_range (by simpa)
  rw [row, List.countP_map, List.countP_filter]
  by_cases h : t < quota i
  · rw [if_pos h, ← hone, List.count]
    refine List.countP_congr fun j _ => ?_
    simp only [Function.comp_apply, Bool.and_eq_true, decide_eq_true_eq, beq_iff_eq]
    exact ⟨fun hj => hj.1, fun hj => ⟨hj, hj ▸ h⟩⟩
  · rw [if_neg h, List.countP_eq_zero]
    intro j _
    simp only [Function.comp_apply, Bool.and_eq_true, decide_eq_true_eq]
    rintro ⟨rfl, hj⟩
    exact h hj

/-- Each worker is visited as often as its quota says, unless the rounds run out before. -/
theorem countP_visits (hi : i < n) :
    (visits rounds n quota).countP (fun v => v.2 = i) = min rounds (quota i) := by
  induction rounds with
  | zero => simp [visits]
  | succ rounds ih =>
    rw [visits_succ, List.countP_append, ih, countP_row hi]
    split <;> omega

theorem length_row (n : Nat) (quota : Nat → Nat) (t : Nat) :
    (row n quota t).length = ∑ i ∈ Finset.range n, if t < quota i then 1 else 0 := by
  rw [row, List.length_map]
  induction n with
  | zero => rfl
  | succ n ih =>
    rw [List.range_succ, List.filter_append, List.length_append, ih, Finset.sum_range_succ]
    by_cases h : t < quota n <;> simp [h]

theorem length_visits (rounds n : Nat) (quota : Nat → Nat) :
    (visits rounds n quota).length = ∑ i ∈ Finset.range n, min rounds (quota i) := by
  induction rounds with
  | zero => simp [visits]
  | succ rounds ih =>
    rw [visits_succ, List.length_append, ih, length_row, ← Finset.sum_add_distrib]
    refine Finset.sum_congr rfl fun i _ => ?_
    split <;> omega

end Quota
