import Mathlib.Data.Int.Log
import Mathlib.Tactic.Linarith
import Mathlib.Tactic.Positivity
import P11Rand.Tools.Cli

/-! Seconds as the tools compute with them: `Duration::as_secs_f64`, and how far it is off. -/
namespace P11Rand.Tools

theorem abs_roundEven_sub_le (q : ℚ) : |(roundEven q : ℚ) - q| ≤ 1 / 2 := by
  have hle : (q.floor : ℚ) ≤ q := Int.floor_le q
  have hlt : q < q.floor + 1 := Int.lt_floor_add_one q
  have hdown : q - q.floor ≤ 1 / 2 → |(q.floor : ℚ) - q| ≤ 1 / 2 := by
    intro h
    rw [abs_le]
    constructor <;> linarith
  have hup : 1 / 2 ≤ q - q.floor → |((q.floor + 1 : ℤ) : ℚ) - q| ≤ 1 / 2 := by
    intro h
    push_cast
    rw [abs_le]
    constructor <;> linarith
  unfold roundEven
  split
  · exact hdown (by linarith)
  split
  · exact hup (by linarith)
  split
  · exact hdown (by linarith)
  · exact hup (by linarith)

/-- The `f64` nearest to a number of an ordinary size: 53 significant bits, ties to even. -/
def nearest (q : ℚ) : ℚ := roundEven (q / 2 ^ (Int.log 2 q - 52)) * 2 ^ (Int.log 2 q - 52)

/-- Half a unit in the last place, against the number itself. -/
def halfUlp : ℚ := 1 / 2 ^ 53

theorem abs_nearest_sub_le {q : ℚ} (hq : 0 ≤ q) : |nearest q - q| ≤ halfUlp * q := by
  rcases hq.eq_or_lt with rfl | hq
  · have hfloor : Rat.floor 0 = 0 := rfl
    have hzero : roundEven 0 = 0 := by norm_num [roundEven, hfloor]
    simp [nearest, hzero]
  have hunit : (0 : ℚ) < 2 ^ (Int.log 2 q - 52) := by positivity
  have hlog : (2 : ℚ) ^ Int.log 2 q ≤ q := Int.zpow_log_le_self one_lt_two hq
  have hhalf : (2 : ℚ) ^ (Int.log 2 q - 52) / 2 ≤ halfUlp * q := by
    rw [zpow_sub₀ two_ne_zero, halfUlp]
    norm_num at hlog ⊢
    linarith
  have hdiff : nearest q - q = (roundEven (q / 2 ^ (Int.log 2 q - 52)) -
      q / 2 ^ (Int.log 2 q - 52)) * 2 ^ (Int.log 2 q - 52) := by
    rw [nearest, sub_mul, div_mul_cancel₀ _ hunit.ne']
  rw [hdiff, abs_mul, abs_of_pos hunit]
  have hround := abs_roundEven_sub_le (q / 2 ^ (Int.log 2 q - 52))
  nlinarith

/-- `Duration::as_secs_f64`: the seconds and the nanoseconds are converted and then added. -/
def asSecsF64 (nanos : Nat) : ℚ :=
  nearest (nearest (nanos / 1000000000 : Nat) + nearest ((nanos % 1000000000 : Nat) / 10 ^ 9))

theorem nearest_bounds {q r : ℚ} (hq : 0 ≤ q) (hr : |r - q| ≤ halfUlp * q) :
    (1 - 2 * halfUlp) * q ≤ nearest r ∧ nearest r ≤ (1 + 3 * halfUlp) * q := by
  obtain ⟨hlo, hhi⟩ := abs_le.mp hr
  have hu : 0 ≤ halfUlp := by norm_num [halfUlp]
  have hu' : halfUlp ≤ 1 := by norm_num [halfUlp]
  have hr0 : 0 ≤ r := by nlinarith
  obtain ⟨hlo', hhi'⟩ := abs_le.mp (abs_nearest_sub_le hr0)
  constructor
  · calc (1 - 2 * halfUlp) * q ≤ (1 - halfUlp) * ((1 - halfUlp) * q) := by
          nlinarith [mul_nonneg (mul_nonneg hu hu) hq]
      _ ≤ (1 - halfUlp) * r := by
          apply mul_le_mul_of_nonneg_left <;> linarith
      _ ≤ nearest r := by linarith
  · calc nearest r ≤ (1 + halfUlp) * r := by linarith
      _ ≤ (1 + halfUlp) * ((1 + halfUlp) * q) := by
          apply mul_le_mul_of_nonneg_left <;> linarith
      _ ≤ (1 + 3 * halfUlp) * q := by
          nlinarith [mul_nonneg (mul_nonneg hu (sub_nonneg.mpr hu')) hq]

/-- It is hardly less than the time, and hardly more. -/
theorem asSecsF64_bounds (nanos : Nat) :
    (1 - 2 * halfUlp) * (nanos / 10 ^ 9) ≤ asSecsF64 nanos ∧
      asSecsF64 nanos ≤ (1 + 3 * halfUlp) * (nanos / 10 ^ 9) := by
  let secs : ℚ := (nanos / 1000000000 : Nat)
  let fraction : ℚ := (nanos % 1000000000 : Nat) / 10 ^ 9
  have hsplit : (nanos : ℚ) / 10 ^ 9 = secs + fraction := by
    have h : ((1000000000 * (nanos / 1000000000) + nanos % 1000000000 : Nat) : ℚ) = nanos :=
      congrArg _ (Nat.div_add_mod nanos 1000000000)
    push_cast at h
    simp only [secs, fraction]
    linarith
  have hsecs : 0 ≤ secs := Nat.cast_nonneg _
  have hfraction : 0 ≤ fraction := by positivity
  rw [hsplit]
  refine nearest_bounds (add_nonneg hsecs hfraction) ?_
  have hparts : nearest secs + nearest fraction - (secs + fraction) =
      nearest secs - secs + (nearest fraction - fraction) := by ring
  rw [hparts, mul_add]
  exact (abs_add_le _ _).trans
    (add_le_add (abs_nearest_sub_le hsecs) (abs_nearest_sub_le hfraction))

/-- `t <= q` for a number of an ordinary size. -/
def F64.le (t : F64) (q : ℚ) : Bool :=
  match t with
  | .finite t => t ≤ q
  | .infinite negative => negative
  | .nan => false

/-- `v < 0.0`. -/
def F64.negative : F64 → Bool
  | .finite q => q < 0
  | .infinite negative => negative
  | .nan => false

/-- A time that was to be waited for is over only once it is, to the precision of an `f64`. -/
theorem F64.of_le_asSecsF64 {t : F64} {nanos : Nat} (ht : t.negative = false)
    (h : t.le (asSecsF64 nanos) = true) :
    ∃ q, t = .finite q ∧ q * 10 ^ 9 ≤ (1 + 3 * halfUlp) * nanos := by
  cases t with
  | finite q =>
    refine ⟨q, rfl, ?_⟩
    have hle : q ≤ asSecsF64 nanos := by simpa [F64.le] using h
    have hhi := (asSecsF64_bounds nanos).2
    linarith
  | infinite negative =>
    obtain rfl : negative = false := ht
    cases h
  | nan => cases h

theorem F64.le_asSecsF64 {q : ℚ} {nanos : Nat} (h : q * 10 ^ 9 ≤ (1 - 2 * halfUlp) * nanos) :
    (F64.finite q).le (asSecsF64 nanos) = true := by
  have hlo := (asSecsF64_bounds nanos).1
  simp only [F64.le, decide_eq_true_eq]
  linarith

end P11Rand.Tools
