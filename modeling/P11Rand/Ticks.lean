import P11Rand.Build
import P11Rand.Fillable
import P11Rand.Quota
import P11Rand.Pool.Contract

/-! What the ticks of a round add up to, for every configuration that is accepted. -/
namespace P11Rand

open Effect Run

variable {W : Type} {P : Platform W} {w w' : World W} {p p' : Pool} {c : Config}

namespace Config

/-- A configuration that is accepted has a source, and each source that it has is asked for whole
ticks. -/
theorem validate_iff : c.validate = .ok () ↔ 0 < c.poolSize ∧
    ∀ kind, 0 < c.count kind → 32 ≤ c.inputBytes kind ∧ c.inputBytes kind % 32 = 0 := by
  have hkinds : (∀ kind, 0 < c.count kind → 32 ≤ c.inputBytes kind ∧ c.inputBytes kind % 32 = 0) ↔
      (0 < c.iso7816Cards → 32 ≤ c.iso7816InputBytes ∧ c.iso7816InputBytes % 32 = 0) ∧
      (0 < c.infnoiseDevices → 32 ≤ c.infnoiseInputBytes ∧ c.infnoiseInputBytes % 32 = 0) := by
    constructor
    · exact fun h => ⟨h .iso7816, h .infnoise⟩
    · rintro ⟨hiso, hinf⟩ (_ | _)
      · exact hiso
      · exact hinf
  rw [hkinds]
  unfold validate
  split_ifs with hsize hiso hinf
  · simp
    omega
  · simp
    omega
  · simp
    omega
  · simp
    omega

theorem check_iff : Build.check c = .ok () ↔ c.validate = .ok () := by
  unfold Build.check validate poolSize
  split_ifs <;> simp

theorem main_iff {env : String → Option String} :
    Build.main env = .ok c ↔ Build.read env = .ok c ∧ c.validate = .ok () := by
  rw [← check_iff]
  unfold Build.main
  cases hread : Build.read env with
  | error e => simp [bind, Except.bind]
  | ok c' =>
    cases hcheck : Build.check c' with
    | error e =>
      refine iff_of_false (by simp [bind, Except.bind, hcheck]) ?_
      rintro ⟨heq, hok⟩
      cases heq
      rw [hcheck] at hok
      cases hok
    | ok _ =>
      constructor
      · intro h
        simp only [bind, Except.bind, hcheck] at h
        cases h
        exact ⟨rfl, hcheck⟩
      · rintro ⟨heq, _⟩
        cases heq
        simp [bind, Except.bind, hcheck, pure, Except.pure]

/-- The ticks of a slot are for all of its bytes. -/
theorem ticks_exact (hv : c.validate = .ok ()) {i : Nat} (hi : i < c.poolSize) :
    tickBytes * c.slotTicks i = c.inputBytes (c.kindAt i) ∧ 1 ≤ c.slotTicks i := by
  have hcount : 0 < c.count (c.kindAt i) := by
    unfold poolSize at hi
    unfold kindAt
    split
    · exact Nat.lt_of_le_of_lt (Nat.zero_le _) ‹_›
    · rename_i hge
      dsimp only [count]
      omega
  obtain ⟨hle, hmod⟩ := (validate_iff.mp hv).2 _ hcount
  rw [slotTicks_eq]
  simp only [tickBytes]
  omega

theorem slotTicks_le (c : Config) {i : Nat} (hi : i < c.poolSize) : c.slotTicks i ≤ c.maxTicks := by
  unfold poolSize at hi
  unfold slotTicks maxTicks
  dsimp only
  split_ifs <;> omega

/-- The most ticks that a slot owes. -/
theorem maxTicks_isGreatest (hv : c.validate = .ok ()) :
    IsGreatest {t | ∃ i < c.poolSize, c.slotTicks i = t} c.maxTicks := by
  have hpos := poolSize_pos hv
  refine ⟨?_, ?_⟩
  · -- the first slot is a card if there is one, the last a generator
    by_cases hfirst : c.slotTicks 0 = c.maxTicks
    · exact ⟨0, hpos, hfirst⟩
    · refine ⟨c.poolSize - 1, by omega, ?_⟩
      unfold poolSize at hpos ⊢
      simp only [slotTicks, maxTicks, tickBytes] at hfirst ⊢
      split_ifs at hfirst ⊢ <;> omega
  · rintro t ⟨i, hi, rfl⟩
    exact c.slotTicks_le hi

theorem useChain_iff : c.useChain = true ↔ 1 < c.poolSize ∨
    0 < c.iso7816Cards ∧ 32 < c.iso7816InputBytes ∨
    0 < c.infnoiseDevices ∧ 32 < c.infnoiseInputBytes := by
  simp [useChain, or_assoc]

theorem useChain_eq_false_iff (hv : c.validate = .ok ()) :
    c.useChain = false ↔ c.poolSize = 1 ∧ c.slotTicks 0 = 1 := by
  obtain ⟨hpos, hkinds⟩ := validate_iff.mp hv
  have hiso := hkinds .iso7816
  have hinf := hkinds .infnoise
  simp only [count, inputBytes] at hiso hinf
  rw [← Bool.not_eq_true, useChain_iff]
  simp only [poolSize, slotTicks, tickBytes] at hpos ⊢
  split_ifs <;> omega

theorem order_eq_visits (c : Config) : c.order = Quota.visits c.maxTicks c.poolSize c.slotTicks :=
  rfl

/-- The loops of a round visit each slot as often as it owes ticks. -/
theorem countP_order (c : Config) {i : Nat} (hi : i < c.poolSize) :
    c.order.countP (fun v => v.2 = i) = c.slotTicks i := by
  rw [order_eq_visits, Quota.countP_visits hi]
  exact Nat.min_eq_right (c.slotTicks_le hi)

/-- The bytes of all the slots in a round. -/
def roundInput (c : Config) : Nat :=
  c.iso7816Cards * c.iso7816InputBytes + c.infnoiseDevices * c.infnoiseInputBytes

theorem length_order (hv : c.validate = .ok ()) : tickBytes * c.order.length = c.roundInput := by
  have hsum : tickBytes * c.order.length =
      ∑ i ∈ Finset.range c.poolSize, c.inputBytes (c.kindAt i) := by
    rw [order_eq_visits, Quota.length_visits, Finset.mul_sum]
    refine Finset.sum_congr rfl fun i hi => ?_
    have hi := Finset.mem_range.mp hi
    rw [Nat.min_eq_right (c.slotTicks_le hi)]
    exact (ticks_exact hv hi).1
  have hiso : ∀ i ∈ Finset.range c.iso7816Cards,
      c.inputBytes (c.kindAt i) = c.iso7816InputBytes := by
    intro i hi
    rw [kindAt, if_pos (Finset.mem_range.mp hi)]
    rfl
  have hinf : ∀ i ∈ Finset.range c.infnoiseDevices,
      c.inputBytes (c.kindAt (c.iso7816Cards + i)) = c.infnoiseInputBytes := by
    intro i _
    rw [kindAt, if_neg (by omega)]
    rfl
  rw [hsum, poolSize, Finset.sum_range_add, Finset.sum_const_nat hiso, Finset.sum_const_nat hinf,
    Finset.card_range, Finset.card_range, roundInput]

end Config

variable {es : List Entry}

/-- Blocks of a tick each. -/
theorem length_blocks (h : ∀ e ∈ es, e.block.length = tickBytes) :
    (es.flatMap Entry.block).length = tickBytes * es.length := by
  induction es with
  | nil => rfl
  | cons e es ih =>
    rw [List.flatMap_cons, List.length_append, h e List.mem_cons_self,
      ih fun e' he => h e' (List.mem_cons_of_mem e he), List.length_cons, Nat.mul_succ,
      Nat.add_comm]

variable {r : Round} {i : Nat}

/-- What a completed round absorbed of a slot. -/
def Round.absorbedFrom (r : Round) (i : Nat) : List UInt8 :=
  ((absorbed r.events).filter fun e => e.slot = i).flatMap Entry.block

theorem Round.Valid.length_entropy (h : r.Valid P c) (hv : c.validate = .ok ()) :
    (entropy r.events).length = c.roundInput := by
  have hlen : (absorbed r.events).length = c.order.length := by
    rw [← h.order, List.length_map]
  rw [entropy, length_blocks fun e he => (h.entry e he).1, hlen, Config.length_order hv]

theorem Round.Valid.length_absorbedFrom (h : r.Valid P c) (hv : c.validate = .ok ())
    (hi : i < c.poolSize) : (r.absorbedFrom i).length = c.inputBytes (c.kindAt i) := by
  have hcount : ((absorbed r.events).filter fun e => e.slot = i).length = c.slotTicks i := by
    rw [← c.countP_order hi, ← h.order, List.countP_map, ← List.countP_eq_length_filter]
    rfl
  have hblock : ∀ e ∈ (absorbed r.events).filter fun e => e.slot = i, e.block.length = tickBytes :=
    fun e he => (h.entry e (List.mem_filter.mp he).1).1
  rw [Round.absorbedFrom, length_blocks hblock, hcount]
  exact (Config.ticks_exact hv hi).1

/-- The oversampling that was configured. The build script accepts what the pool accepts; of an
accepted configuration the most ticks of a slot bound a round, the loops of a round come to each
slot as often as its bytes need, so that a completed round has absorbed the configured bytes of
each slot and no others, and only a single tick of a single slot does without the chain. -/
theorem ticks_honour_oversampling (c : Config) :
    (Build.check c = .ok () ↔ c.validate = .ok ()) ∧
    (∀ env, Build.main env = .ok c ↔ Build.read env = .ok c ∧ c.validate = .ok ()) ∧
    (c.validate = .ok () →
      IsGreatest {t | ∃ i < c.poolSize, c.slotTicks i = t} c.maxTicks ∧ 1 ≤ c.maxTicks ∧
      (∀ i < c.poolSize,
        tickBytes * c.order.countP (fun v => v.2 = i) = c.inputBytes (c.kindAt i)) ∧
      tickBytes * c.order.length = c.iso7816Cards * c.iso7816InputBytes +
        c.infnoiseDevices * c.infnoiseInputBytes ∧
      (∀ (W : Type) (P : Platform W) (p p' : Pool) (out out' : Digest) (w w' : World W),
        p.config = c → p.slots.length = c.poolSize →
        p.doRoundChain P out w = some ((.ok (), p', out'), w') →
        ∃ r : Round, w'.log = w.log ++ r.log ∧
          (absorbed r.events).map Entry.pos = c.order ∧
          (entropy r.events).length = c.iso7816Cards * c.iso7816InputBytes +
            c.infnoiseDevices * c.infnoiseInputBytes ∧
          ∀ i < c.poolSize, (r.absorbedFrom i).length = c.inputBytes (c.kindAt i)) ∧
      (c.useChain = false ↔ c.poolSize = 1 ∧ c.slotTicks 0 = 1)) := by
  refine ⟨Config.check_iff, fun env => Config.main_iff, fun hv => ?_⟩
  have hmax := Config.maxTicks_isGreatest hv
  refine ⟨hmax, ?_, fun i hi => ?_, Config.length_order hv, ?_, Config.useChain_eq_false_iff hv⟩
  · obtain ⟨i, hi, hticks⟩ := hmax.1
    have hone := (Config.ticks_exact hv hi).2
    omega
  · rw [c.countP_order hi]
    exact (Config.ticks_exact hv hi).1
  · intro W P p p' out out' w w' hconf hlen h
    obtain ⟨evs, hlog, _, hcase⟩ := Pool.doRoundChain_cases (by rw [hconf, hlen]) h
    cases hcase with
    | completed _ _ hvalid =>
      rw [hconf] at hvalid
      exact ⟨_, hlog, hvalid.order, hvalid.length_entropy hv,
        fun i hi => hvalid.length_absorbedFrom hv hi⟩

namespace Bench

/-- A card and two generators. -/
def desk : Bench := { generators with readers := ["reader 0"] }

/-- All of them oversampled, the generators more than the card. -/
def uneven : Config := ⟨1, 2, 64, 96⟩

theorem plenty_desk {w : World Unit} (hc : w.global.ctx.isSome = true) :
    Plenty desk.machine w uneven := by
  intro kind _
  have hp : ∀ file len, desk.data file len ≠ .interrupted := by simp [desk, generators, giving]
  cases kind with
  | iso7816 => exact ⟨_, _, supplied_cards (b := desk) (by decide) (by decide) (by decide) hp hc⟩
  | infnoise =>
    exact ⟨_, _, supplied_generators (b := desk) (by decide) (by decide)
      (fun path _ => opens_generators path) hp w⟩

end Bench

theorem ticks_honour_oversampling_uneven : ∃ (p p' : Pool) (out : Digest) (w w' : World Unit)
    (r : Round), PoolRun Bench.desk.machine Bench.uneven p w ∧
      p.doRoundChain Bench.desk.machine zeroDigest w = some ((.ok (), p', out), w') ∧
      w'.log = w.log ++ r.log ∧
      (absorbed r.events).map Entry.pos =
        [(0, 0), (0, 1), (0, 2), (1, 0), (1, 1), (1, 2), (2, 1), (2, 2)] ∧
      (entropy r.events).length = 256 ∧ (r.absorbedFrom 0).length = 64 ∧
      (r.absorbedFrom 1).length = 96 ∧ (r.absorbedFrom 2).length = 96 := by
  obtain ⟨_, w, hopen, ⟨p, rfl⟩, hpl⟩ :=
    (Bench.plenty_desk (w := Bench.start (some ⟨0⟩)) rfl).open rfl
  have hrun : PoolRun Bench.desk.machine Bench.uneven p w := .opened rfl hopen
  have hh := hrun.history
  have hpatient : Bench.desk.machine.Patient w.env :=
    Bench.patient (by simp [Bench.desk, Bench.generators, Bench.giving]) _
  obtain ⟨⟨res, p', out⟩, w', hround⟩ := Pool.doRoundChain_returns hpatient p zeroDigest
  obtain rfl := Pool.doRoundChain_ok hpl hh.slots hround
  obtain ⟨_, _, hticks⟩ := ticks_honour_oversampling Bench.uneven
  obtain ⟨_, _, _, _, hrounds, _⟩ := hticks rfl
  obtain ⟨r, hgrown, horder, hentropy, hslots⟩ :=
    hrounds _ _ p p' zeroDigest out w w' hh.config hh.slots.length_eq hround
  exact ⟨p, p', out, w, w', r, hrun, hround, hgrown, horder, hentropy, hslots 0 (by decide),
    hslots 1 (by decide), hslots 2 (by decide)⟩

end P11Rand
