import Mathlib.Data.List.DropRight
import Mathlib.Data.List.Infix
import P11Rand.Effect.Host

/-! How often marked events can come when a clock is read between them. -/
namespace Effect

/-- The time from the first of the readings to the last. -/
def span (ts : List Nat) : Nat := ts.getLastD 0 - ts.headD 0

@[simp] theorem span_nil : span [] = 0 := rfl

theorem headD_concat (ts : List Nat) (s t : Nat) : (ts ++ [s]).headD t = ts.headD s := by
  cases ts <;> simp

theorem span_concat (ts : List Nat) (t : Nat) : span (ts ++ [t]) = t - ts.headD t := by
  rw [span, headD_concat, List.getLastD_concat]

theorem headD_le {ts : List Nat} {t : Nat} (h : (ts ++ [t]).Pairwise (· ≤ ·)) :
    ts.headD t ≤ t := by
  cases ts with
  | nil => exact le_rfl
  | cons s ts => exact (List.pairwise_cons.mp h).1 t (by simp)

theorem span_of_mem {ts : List Nat} {t t₀ : Nat} (h : (ts ++ [t]).Pairwise (· ≤ ·))
    (hmem : t₀ ∈ ts) : t - t₀ ≤ span (ts ++ [t]) := by
  rw [span_concat]
  cases ts with
  | nil => simp at hmem
  | cons t₁ ts =>
    have hle : t₁ ≤ t₀ := by
      rcases List.mem_cons.mp hmem with rfl | hmem
      · exact le_rfl
      · exact (List.pairwise_cons.mp h).1 t₀ (List.mem_append_left _ hmem)
    rw [List.headD_cons]
    omega

/-- One more reading adds as much to the whole as to the end of it. -/
theorem span_grows {ts us : List Nat} {t : Nat} (h : (ts ++ (us ++ [t])).Pairwise (· ≤ ·)) :
    span (ts ++ us) + span (us ++ [t]) ≤ span (ts ++ (us ++ [t])) + span us := by
  rw [← List.append_assoc] at h ⊢
  rcases List.eq_nil_or_concat' us with rfl | ⟨us, u, rfl⟩
  · rcases List.eq_nil_or_concat' ts with rfl | ⟨ts, s, rfl⟩
    · simp
    · rw [List.append_nil] at h ⊢
      have hst : s ≤ t := (List.pairwise_append.mp h).2.2 s (by simp) t (by simp)
      rw [span_concat, span_concat, span_concat, headD_concat]
      simp only [List.headD_nil, span_nil]
      omega
  · have hut : u ≤ t := (List.pairwise_append.mp h).2.2 u (by simp) t (by simp)
    rw [← List.append_assoc] at h ⊢
    have hwhole : (ts ++ us).headD u ≤ u := headD_le (List.pairwise_append.mp h).1
    have hend : us.headD u ≤ u := by
      refine headD_le ((List.pairwise_append.mp h).1.sublist ?_)
      rw [List.append_assoc]
      exact List.sublist_append_right _ _
    rw [span_concat, span_concat, span_concat, span_concat, headD_concat, headD_concat]
    omega

section Pace

variable {E : Type} {mark calm : E → Bool} {time : E → Option Nat} {d t t₀ : Nat}
  {pre es fs : List E} {e : E}

/-- What came after the last mark. -/
def since (mark : E → Bool) (es : List E) : List E := es.rtakeWhile fun e => !mark e

def times (time : E → Option Nat) (es : List E) : List Nat := es.filterMap time

/-- Nothing disturbs, and the clock does not go back. -/
structure Fair (calm : E → Bool) (time : E → Option Nat) (es : List E) : Prop where
  calm : ∀ e ∈ es, calm e = true
  forward : (times time es).Pairwise (· ≤ ·)

/-- A mark keeps its distance from the one before. -/
def Spaced (mark calm : E → Bool) (time : E → Option Nat) (d : Nat) (pre : List E) (e : E) :
    Prop :=
  mark e = true → pre.any mark = true → Fair calm time (since mark pre) →
    d ≤ span (times time (since mark pre))

theorem Spaced.unmarked (he : mark e = false) : Spaced mark calm time d pre e :=
  fun h => absurd h (by simp [he])

theorem Fair.stretch (h : Fair calm time fs) (hes : es <:+: fs) : Fair calm time es :=
  ⟨fun e he => h.calm e (hes.subset he), h.forward.sublist (hes.sublist.filterMap time)⟩

@[simp] theorem since_nil : since mark [] = [] := List.rtakeWhile_nil _

theorem since_marked (he : mark e = true) (es : List E) : since mark (es ++ [e]) = [] :=
  List.rtakeWhile_concat_neg _ _ _ (by simp [he])

theorem since_unmarked (he : mark e = false) (es : List E) :
    since mark (es ++ [e]) = since mark es ++ [e] :=
  List.rtakeWhile_concat_pos _ _ _ (by simp [he])

theorem since_suffix (mark : E → Bool) (es : List E) : since mark es <:+ es :=
  List.rtakeWhile_suffix _ _

/-- What came before a mark makes no difference. -/
theorem since_append (h : es.any mark = true) : since mark (pre ++ es) = since mark es := by
  induction es using List.reverseRecOn with
  | nil => simp at h
  | append_singleton es e ih =>
    rw [← List.append_assoc]
    cases he : mark e with
    | true => rw [since_marked he, since_marked he]
    | false =>
      have hes : es.any mark = true := by simpa [he] using h
      rw [since_unmarked he, since_unmarked he, ih hes]

@[simp] theorem times_append (es fs : List E) :
    times time (es ++ fs) = times time es ++ times time fs := List.filterMap_append

theorem times_none (he : time e = none) : times time [e] = [] := by
  simp [times, he]

theorem times_some (he : time e = some t) : times time [e] = [t] := by
  simp [times, he]

/-- What comes next takes from no stretch, and adds to the whole what it adds to its end. -/
theorem Fair.grows (h : Fair calm time (es ++ [e])) (hfs : fs <:+ es) :
    span (times time es) + span (times time (fs ++ [e])) ≤
      span (times time (es ++ [e])) + span (times time fs) := by
  obtain ⟨front, rfl⟩ := hfs
  have hforward := h.forward
  cases he : time e with
  | none =>
    simp only [times_append, times_none he, List.append_nil]
    exact le_rfl
  | some t =>
    simp only [times_append, times_some he, List.append_assoc] at hforward ⊢
    exact span_grows hforward

/-- Any stretch of a run holds one mark for each time the distance passes in it, and one more. -/
theorem Spaced.rate (h : Lawful (Spaced mark calm time d) (pre ++ es))
    (hfair : Fair calm time es) : d * (es.countP mark - 1) ≤ span (times time es) := by
  suffices hstrong : es.any mark = true →
      d * (es.countP mark - 1) + span (times time (since mark es)) ≤ span (times time es) by
    by_cases hany : es.any mark = true
    · exact (Nat.le_add_right _ _).trans (hstrong hany)
    · have hzero : es.countP mark = 0 := by simpa using hany
      simp [hzero]
  induction es using List.reverseRecOn with
  | nil => simp
  | append_singleton es e ih =>
    intro hany
    rw [← List.append_assoc, lawful_snoc] at h
    obtain ⟨hlaw, hspaced⟩ := h
    have hes : Fair calm time es := hfair.stretch (List.prefix_append _ _).isInfix
    by_cases he : mark e = true
    · have hgrows := hfair.grows List.nil_suffix
      rw [since_marked he, List.countP_append, List.countP_singleton, if_pos he,
        Nat.add_sub_cancel]
      by_cases hmarked : es.any mark = true
      · have hih := ih hlaw hes hmarked
        have hfar := hspaced he (by simp [hmarked])
        rw [since_append hmarked] at hfar
        replace hfar := hfar (hes.stretch (since_suffix mark es).isInfix)
        have hpos : 0 < es.countP mark := by simpa [List.countP_pos_iff] using hmarked
        have hone : d * es.countP mark = d * (es.countP mark - 1) + d := by
          rw [← Nat.mul_succ, Nat.succ_eq_add_one, Nat.sub_add_cancel hpos]
        simp only [times, List.nil_append, List.filterMap_nil, span_nil] at hgrows ⊢
        simp only [times] at hih hfar
        omega
      · have hzero : es.countP mark = 0 := by simpa using hmarked
        simp [hzero, times]
    · have hne : mark e = false := by simpa using he
      have hmarked : es.any mark = true := by simpa [hne] using hany
      have hih := ih hlaw hes hmarked
      have hgrows := hfair.grows (since_suffix mark es)
      rw [since_unmarked hne, List.countP_append, List.countP_singleton, if_neg he,
        Nat.add_zero]
      omega

end Pace

end Effect
