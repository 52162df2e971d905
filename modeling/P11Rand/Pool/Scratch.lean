import P11Rand.Bench
import P11Rand.Pool.Gathering

/-! What the round scratch of a chain read holds when the read returns. -/
namespace P11Rand.Pool

open Effect Run

variable {W : Type} {P : Platform W} {w w' u v : World W} {p p' q : Pool} {d out out' : Digest}
  {rest done buf buf' : List UInt8} {res : Except Error Unit} {e : Error} {cfg : Config} {n : Nat}
  {l : List Slot}

/-- The world once the output of a round has been copied to the caller. -/
def copied (w : World W) (d : Digest) : World W := { w with log := w.log ++ [.copy d.toList] }

/-- In a read of so many bytes a round fails right after one that completed with output `d`. -/
inductive FailsAfter (P : Platform W) (d : Digest) : Pool → World W → Nat → Prop
  | now {p q q' : Pool} {w v v' : World W} {n : Nat} {e : Error} : roundBytes < n →
      p.doRoundChain P zeroDigest w = some ((.ok (), q, d), v) →
      q.doRoundChain P d (copied v d) = some ((.error e, q', d), v') → FailsAfter P d p w n
  | later {p q : Pool} {w v : World W} {n : Nat} {out : Digest} : roundBytes < n →
      p.doRoundChain P zeroDigest w = some ((.ok (), q, out), v) →
      FailsAfter P d q (copied v out) (n - roundBytes) → FailsAfter P d p w n

/-- A round overwrites the scratch exactly if it completes. -/
theorem doRoundChain_scratch (h : p.doRoundChain P out w = some ((res, q, d), v))
    (out' : Digest) : p.doRoundChain P out' w =
      some ((res, q, if res = .ok () then d else out'), v) := by
  replace h := of_emit h
  obtain ⟨⟨r, q'⟩, u, ht, h⟩ := bind_eq_some.mp h
  refine (bind_of_eq (emit_apply _ _)).trans ((bind_of_eq ht).trans ?_)
  cases r with
  | error e =>
    cases h
    rfl
  | ok hs =>
    cases h
    rfl

theorem readChain_nil : p.readChain P out done [] w = some ((.ok (), p, zeroDigest, done), w) := by
  unfold readChain
  rfl

theorem readChain_stopped (hpos : 0 < rest.length)
    (hround : p.doRoundChain P out w = some ((.error e, q, d), v)) :
    p.readChain P out done rest w = some ((.error e, q, d, done ++ rest), v) := by
  unfold readChain
  rw [if_neg (by simpa using List.length_pos_iff.mp hpos)]
  exact bind_of_eq hround

/-- A read that is not over after the round goes on with the output of the round as scratch. -/
theorem readChain_next (hlt : roundBytes < rest.length)
    (hround : p.doRoundChain P out w = some ((.ok (), q, d), v)) :
    p.readChain P out done rest w =
      q.readChain P d (done ++ d.toList) (rest.drop roundBytes) (copied v d) := by
  have htake : d.toList.take roundBytes = d.toList := List.take_of_length_le (by simp)
  have hmin : min rest.length roundBytes = roundBytes := Nat.min_eq_right hlt.le
  rw [readChain, if_neg (by simpa using List.length_pos_iff.mp (Nat.zero_lt_of_lt hlt)),
    bind_of_eq hround]
  dsimp only
  rw [hmin, htake]
  exact bind_of_eq (emit_apply _ _)

theorem readChain_last (hpos : 0 < rest.length) (hle : rest.length ≤ roundBytes)
    (hround : p.doRoundChain P out w = some ((.ok (), q, d), v))
    (h : p.readChain P out done rest w = some ((res, p', out', buf'), w')) :
    res = .ok () ∧ out' = zeroDigest := by
  rw [readChain, if_neg (by simpa using List.length_pos_iff.mp hpos), bind_of_eq hround] at h
  replace h := of_emit h
  rw [Nat.min_eq_left hle, List.drop_length, readChain_nil] at h
  cases h
  exact ⟨rfl, rfl⟩

theorem doRoundChain_completed (h : p.doRoundChain P out w = some ((.ok (), q, d), v))
    (out' : Digest) : p.doRoundChain P out' w = some ((.ok (), q, d), v) :=
  doRoundChain_scratch h out'

theorem FailsAfter.scratch (hf : FailsAfter P d p w rest.length)
    (h : p.readChain P out done rest w = some ((res, p', out', buf'), w')) : out' = d := by
  generalize hn : rest.length = n at hf
  induction hf generalizing out done rest with
  | now hlt hround hfail =>
    subst hn
    rw [readChain_next hlt (doRoundChain_completed hround out),
      readChain_stopped (by rw [List.length_drop]; omega) hfail] at h
    cases h
    rfl
  | later hlt hround _ ih =>
    subst hn
    rw [readChain_next hlt (doRoundChain_completed hround out)] at h
    exact ih h List.length_drop

/-- The scratch is wiped, or it is as the first round found it, which failed, or it still holds the
output of the round before the one that failed. -/
theorem readChain_scratch
    (h : p.readChain P out done rest w = some ((res, p', out', buf'), w')) :
    out' = zeroDigest ∨
      (out' = out ∧ 0 < rest.length ∧
        ∃ e q v, p.doRoundChain P out w = some ((.error e, q, out), v)) ∨
      FailsAfter P out' p w rest.length := by
  induction hn : rest.length using Nat.strongRecOn generalizing p w out done rest with
  | _ n ih =>
    rcases Nat.eq_zero_or_pos rest.length with hzero | hpos
    · rw [List.length_eq_zero_iff.mp hzero, readChain_nil] at h
      cases h
      exact .inl rfl
    have hret := h
    unfold readChain at h
    rw [if_neg (by simpa using List.length_pos_iff.mp hpos)] at h
    obtain ⟨⟨r, q, d⟩, v, hround, -⟩ := bind_eq_some.mp h
    clear h
    cases r with
    | error e =>
      obtain ⟨_, rfl⟩ := doRoundChain_error hround
      rw [readChain_stopped hpos hround] at hret
      cases hret
      exact .inr (.inl ⟨rfl, hn ▸ hpos, e, _, _, hround⟩)
    | ok _ =>
      by_cases hlt : roundBytes < rest.length
      · rw [readChain_next hlt hround] at hret
        have hdrop : (rest.drop roundBytes).length = n - roundBytes := by
          rw [List.length_drop, hn]
        have hless : n - roundBytes < n := Nat.sub_lt (hn ▸ hpos) (by decide)
        rcases ih _ hless hret hdrop with hwiped | ⟨rfl, _, e, q', v', hfail⟩ | hlater
        · exact .inl hwiped
        · exact .inr (.inr (.now (hn ▸ hlt) (doRoundChain_completed hround _) hfail))
        · exact .inr (.inr (.later (hn ▸ hlt) (doRoundChain_completed hround _) hlater))
      · exact .inl (readChain_last hpos (not_lt.mp hlt) hround hret).2

theorem doRoundChain_kept (hok : SlotsOk cfg p.slots) (hc : p.config = cfg)
    (h : p.doRoundChain P out w = some ((res, q, d), v)) :
    SlotsOk cfg q.slots ∧ q.config = cfg ∧ Later P w v := by
  obtain ⟨_, _, hlat, hround⟩ := doRoundChain_cases (hc ▸ hok.length_eq) h
  exact ⟨hround.evolves.slotsOk hok, hround.evolves.config.trans hc, hlat⟩

theorem doRoundChain_hashed (h : p.doRoundChain P out w = some ((.ok (), q, d), v)) :
    ∃ input, d = P.sha3_256 input := by
  obtain ⟨⟨r, q'⟩, x, _, h⟩ := bind_eq_some.mp (of_emit h)
  cases r with
  | error e => cases h
  | ok hs =>
    cases h
    exact ⟨_, rfl⟩

/-- If a round fails after one that completed, the devices gave too little. -/
theorem FailsAfter.starved (hf : FailsAfter P d p w n) (hok : SlotsOk cfg p.slots)
    (hc : p.config = cfg) (hcore : w.outside = u.outside) : Starved P cfg p.slots u n := by
  induction hf generalizing u with
  | @now p q q' w v v' n e hlt hround hfail =>
    obtain ⟨hok', hc', _⟩ := doRoundChain_kept hok hc hround
    obtain ⟨x, hcore', hgather⟩ := gather_of_round hok hc hcore hround
    obtain ⟨y, _, hnone⟩ := gather_of_round (w := copied v d) hok' hc' hcore' hfail
    exact .now hlt hgather hnone
  | @later p q w v n out hlt hround _ ih =>
    obtain ⟨hok', hc', _⟩ := doRoundChain_kept hok hc hround
    obtain ⟨x, hcore', hgather⟩ := gather_of_round hok hc hcore hround
    exact .later hlt hgather (ih hok' hc' hcore')

/-- The first round of a read that returns returns. -/
theorem readChain_first {r : Except Error Unit × Pool × Digest × List UInt8}
    (hpos : 0 < rest.length) (h : p.readChain P out done rest w = some (r, w')) :
    ∃ res q d v, p.doRoundChain P out w = some ((res, q, d), v) := by
  unfold readChain at h
  rw [if_neg (by simpa using List.length_pos_iff.mp hpos)] at h
  obtain ⟨⟨res, q, d⟩, v, hround, _⟩ := bind_eq_some.mp h
  exact ⟨res, q, d, v, hround⟩

theorem round_completes {l' : List Slot} (hok : SlotsOk cfg p.slots) (hc : p.config = cfg)
    (hcore : w.outside = u.outside) (hgather : gather P cfg p.slots u = some (some l', v'))
    (h : p.doRoundChain P out w = some ((res, q, d), v)) :
    res = .ok () ∧ q.slots = l' ∧ v.outside = v'.outside := by
  obtain ⟨x, hcore', hx⟩ := gather_of_round hok hc hcore h
  rw [hgather] at hx
  cases res with
  | error e => cases hx
  | ok _ =>
    cases hx
    exact ⟨rfl, rfl, hcore'⟩

/-- Where the devices give too little, the output of a round is still there when the next fails. -/
theorem Starved.fails {r : Except Error Unit × Pool × Digest × List UInt8}
    (hs : Starved P cfg l u n) (hl : p.slots = l) (hok : SlotsOk cfg p.slots) (hc : p.config = cfg)
    (hcore : w.outside = u.outside) (hn : rest.length = n)
    (h : p.readChain P out done rest w = some (r, w')) :
    ∃ d, FailsAfter P d p w n ∧ ∃ input, d = P.sha3_256 input := by
  induction hs generalizing p w out done rest with
  | @now l l' u v x n hlt hfull hnone =>
    subst hl hn
    obtain ⟨res, q, d, v₁, hround⟩ := readChain_first (Nat.zero_lt_of_lt hlt) h
    obtain ⟨rfl, rfl, hcore₁⟩ := round_completes hok hc hcore hfull hround
    obtain ⟨hok', hc', _⟩ := doRoundChain_kept hok hc hround
    rw [readChain_next hlt hround] at h
    obtain ⟨res, q', d', v₂, hround'⟩ := readChain_first (by rw [List.length_drop]; omega) h
    obtain ⟨_, _, hx⟩ := gather_of_round (w := copied v₁ d) hok' hc' hcore₁ hround'
    rw [hnone] at hx
    cases res with
    | ok _ => cases hx
    | error e =>
      obtain ⟨_, rfl⟩ := doRoundChain_error hround'
      exact ⟨d', .now hlt (doRoundChain_completed hround _) hround', doRoundChain_hashed hround⟩
  | @later l l' u v n hlt hfull _ ih =>
    subst hl hn
    obtain ⟨res, q, d, v₁, hround⟩ := readChain_first (Nat.zero_lt_of_lt hlt) h
    obtain ⟨rfl, rfl, hcore₁⟩ := round_completes hok hc hcore hfull hround
    obtain ⟨hok', hc', _⟩ := doRoundChain_kept hok hc hround
    rw [readChain_next hlt hround] at h
    obtain ⟨d', hf, hhash⟩ := ih (w := copied v₁ d) rfl hok' hc' hcore₁ List.length_drop h
    exact ⟨d', .later hlt (doRoundChain_completed hround _) hf, hhash⟩

/-- Where enough devices work, no round fails. -/
theorem FailsAfter.not_plenty (hf : FailsAfter P d p w n) (hok : SlotsOk cfg p.slots)
    (hc : p.config = cfg) : ¬ Plenty P w cfg := by
  induction hf with
  | @now p q q' w v v' n e hlt hround hfail =>
    intro hpl
    obtain ⟨hok', _, hlat⟩ := doRoundChain_kept hok hc hround
    cases doRoundChain_ok (hpl.later hlat.emitted) hok' hfail
  | @later p q w v n out hlt hround _ ih =>
    intro hpl
    obtain ⟨hok', hc', hlat⟩ := doRoundChain_kept hok hc hround
    exact ih hok' hc' (hpl.later hlat.emitted)

theorem Starved.lt (hs : Starved P cfg l w n) : roundBytes < n := by
  cases hs <;> assumption

/-- When a chain read returns, its round scratch is wiped if the devices gave enough for all rounds
of it, or not even for the first, and otherwise it is not, unless SHA3-256 can be all zeros. They
give enough where 32 bytes are asked for at most, or enough devices work. -/
theorem scratch_wiped_iff (hrun : PoolRun P cfg p w) (hc : cfg.useChain = true)
    (h : p.read P buf w = some ((res, p', buf'), w')) :
    ∃ out, p.readChain P zeroDigest [] buf w = some ((res, p', out, buf'), w') ∧
      (¬ Starved P cfg p.slots w buf.length → out = zeroDigest) ∧
      ((∀ input, P.sha3_256 input ≠ zeroDigest) →
        (out = zeroDigest ↔ ¬ Starved P cfg p.slots w buf.length)) ∧
      (buf.length ≤ roundBytes ∨ Plenty P w cfg → ¬ Starved P cfg p.slots w buf.length) := by
  have hist := hrun.history
  have hok := hist.slots
  unfold read at h
  rw [if_pos (hist.config ▸ hc)] at h
  obtain ⟨⟨r, q, out, b⟩, v, hchain, h⟩ := bind_eq_some.mp h
  cases h
  have hwiped : ¬ Starved P cfg p.slots w buf.length → out = zeroDigest := by
    intro hfed
    rcases readChain_scratch hchain with hwiped | ⟨hsame, _⟩ | hf
    · exact hwiped
    · exact hsame
    · exact absurd (hf.starved hok hist.config rfl) hfed
  refine ⟨out, hchain, hwiped, fun hhash => ⟨fun hzero hs => ?_, hwiped⟩, fun hcase hs => ?_⟩
  · obtain ⟨d, hf, input, rfl⟩ := hs.fails rfl hok hist.config rfl rfl hchain
    exact hhash input ((hf.scratch hchain).symm.trans hzero)
  · obtain ⟨d, hf, _⟩ := hs.fails rfl hok hist.config rfl rfl hchain
    rcases hcase with hle | hpl
    · exact absurd hs.lt (not_lt.mpr hle)
    · exact hf.not_plenty hok hist.config hpl

theorem scratch_wiped_iff_pair : ∃ w w' : World Unit,
    Bench.pairPool.read Bench.generators.machine (zeros 32) w = some
      ((.ok (), { Bench.pairPool with state := Bench.pairRound.next },
        Bench.pairRound.out.toList), w') ∧
    Bench.pairPool.readChain Bench.generators.machine zeroDigest [] (zeros 32) w = some
      ((.ok (), { Bench.pairPool with state := Bench.pairRound.next }, zeroDigest,
        Bench.pairRound.out.toList), w') := by
  obtain ⟨w, w', hrun, _, hread⟩ := Bench.run_pair
  obtain ⟨out, hchain, hwiped, _, hfed⟩ := scratch_wiped_iff hrun (by decide) hread
  exact ⟨w, w', hread, hwiped (hfed (.inl le_rfl)) ▸ hchain⟩

/-- One generator, which is unplugged after it has given two blocks. The hash is the bench's. -/
def unplugged : Platform Nat where
  answer
    | .readFile _ len, 0 => (.data (List.replicate len 0xA5), 1)
    | .readFile _ len, 1 => (.data (List.replicate len 0xA6), 2)
    | .readFile _ _, n => (.error 19, n)
    | .readDir, n => (.ok (if n < 2 then [some (Infnoise.asciiBytes "infnoise0")] else []), n)
    | q, n => (Bench.generators.answer q, n)
  sha3_256 := Bench.generators.sha3_256

/-- Two ticks of it to a round. -/
def doubled : Config := ⟨0, 1, 32, 64⟩

def generatorSlots : List Slot :=
  [⟨.infnoise, some "/dev/infnoise0", .infnoise ⟨0, "/dev/infnoise0"⟩⟩]

/-- The pool on it, in some state. -/
def doubledPool (state : Digest) : Pool := ⟨doubled, generatorSlots, state⟩

theorem open_doubled : ∃ w : World Nat, w.env = 0 ∧ w.sched = (fun _ => 0) ∧
    Pool.open unplugged doubled ⟨0, fun _ => 0, ⟨none, 0⟩, [], []⟩ =
      some (.ok (doubledPool zeroDigest), w) := ⟨_, rfl, rfl, rfl⟩

/-- What its worker ends with. -/
def worked (res : Except Unit Unit) (done rest : List UInt8) : List (Outcome SlotInner Unit) :=
  [⟨res, .infnoise ⟨0, "/dev/infnoise0"⟩, done, rest⟩]

theorem fanOut_doubled {w v : World Nat} {t : Nat} {done rest : List UInt8}
    {out : Except Unit Unit} (s : Digest)
    (hv : interleave (SlotInner.readStep unplugged) choose
      (generatorSlots.mapIdx (Pool.worker doubled t)) w = some (worked out done rest, v)) :
    (doubledPool s).fanOut unplugged t w = some ((cells doubled t 0 (worked out done rest),
      doubledPool s), { v with log := v.log ++ fetches doubled t 0 (worked out done rest) }) :=
  (bind_of_eq hv).trans ((bind_of_eq (join_apply v)).trans rfl)

/-- The block that it gives in a tick of the first round. -/
def givenIn (t : Nat) : List UInt8 := List.replicate 32 (if t = 0 then 0xA5 else 0xA6)

theorem interleave_unplugged {w : World Nat} {t : Nat} (ht : t < 2) (he : w.env = t)
    (hs : w.sched = fun _ => 0) : ∃ w', w'.env = t + 1 ∧ w'.sched = (fun _ => 0) ∧
    interleave (SlotInner.readStep unplugged) choose
        (generatorSlots.mapIdx (Pool.worker doubled t)) w =
      some (worked (.ok ()) (givenIn t) [], w') := by
  obtain ⟨env, sched, global, trace, log⟩ := w
  obtain rfl : env = t := he
  obtain rfl : sched = fun _ => 0 := hs
  interval_cases env
  · refine ⟨_, ?_, ?_, (interleave_step rfl rfl rfl rfl).trans <|
      (interleave_step rfl rfl rfl rfl).trans (interleave_of_finished ?_)⟩
    all_goals rfl
  · refine ⟨_, ?_, ?_, (interleave_step rfl rfl rfl rfl).trans <|
      (interleave_step rfl rfl rfl rfl).trans (interleave_of_finished ?_)⟩
    all_goals rfl

theorem slotTicks_doubled : doubled.slotTicks 0 = 2 := by decide

theorem ticks_doubled : List.range doubled.maxTicks = [0, 1] := by decide

theorem absorbFrom_doubled {w : World Nat} {t : Nat} (ht : t < 2) (s : Digest) (h : Hashes)
    (b : List UInt8) : absorbFrom unplugged t [some b] (List.range 1) (doubledPool s) h w =
      some ((.ok (h.update b), doubledPool s), { w with log := w.log ++ [.absorb t 0 b] }) := by
  have howes : ¬ t ≥ (doubledPool s).config.slotTicks 0 := not_le.mpr (slotTicks_doubled ▸ ht)
  rw [List.range_one, absorbFrom, if_neg howes]
  rfl

/-- A tick of the first round. -/
theorem tick_unplugged {w : World Nat} {t : Nat} {h : Hashes} (ts : List Nat) (s : Digest)
    (ht : t < 2) (he : w.env = t) (hs : w.sched = fun _ => 0) : ∃ w', w'.env = t + 1 ∧
      w'.sched = (fun _ => 0) ∧ ticksFrom unplugged 1 (t :: ts) (doubledPool s) h w =
        ticksFrom unplugged 1 ts (doubledPool s) (h.update (givenIn t)) w' := by
  obtain ⟨v, hve, hvs, hv⟩ := interleave_unplugged ht he hs
  have hcells : cells doubled t 0 (worked (.ok ()) (givenIn t) []) = [some (givenIn t)] := by
    interval_cases t
    · rfl
    · rfl
  have hfan := fanOut_doubled s hv
  rw [hcells] at hfan
  refine ⟨{ v with log := (v.log ++ fetches doubled t 0 (worked (.ok ()) (givenIn t) [])) ++
    [.absorb t 0 (givenIn t)] }, hve, hvs, ?_⟩
  rw [ticksFrom, bind_of_eq hfan]
  exact bind_of_eq (absorbFrom_doubled ht s h (givenIn t))

/-- The first round completes. -/
theorem doRoundChain_unplugged {w : World Nat} (he : w.env = 0) (hs : w.sched = fun _ => 0) :
    ∃ w', w'.env = 2 ∧ w'.sched = (fun _ => 0) ∧
    (doubledPool zeroDigest).doRoundChain unplugged zeroDigest w = some ((.ok (),
      doubledPool (Bench.generators.sha3_256 (Bench.firstInput 0x00)),
      Bench.generators.sha3_256 (Bench.firstInput 0x11)), w') := by
  obtain ⟨v, hve, hvs, hv⟩ := tick_unplugged (w := { w with log := w.log ++ [.start zeroDigest] })
    (h := freshHashes zeroDigest) [1] zeroDigest (by decide) he hs
  obtain ⟨u, hue, hus, hu⟩ := tick_unplugged
    (h := (freshHashes zeroDigest).update (givenIn 0)) [] zeroDigest (by decide) hve hvs
  have hticks : ticksFrom unplugged 1 [0, 1] (doubledPool zeroDigest) (freshHashes zeroDigest)
      { w with log := w.log ++ [.start zeroDigest] } = some ((.ok
        (((freshHashes zeroDigest).update (givenIn 0)).update (givenIn 1)),
        doubledPool zeroDigest), u) :=
    hv.trans hu
  refine ⟨{ u with log := u.log ++ [.round (Bench.generators.sha3_256 (Bench.firstInput 0x11))
    (Bench.generators.sha3_256 (Bench.firstInput 0x00))] }, hue, hus, ?_⟩
  unfold doRoundChain
  rw [bind_of_eq (emit_apply _ _)]
  exact bind_of_eq hticks

/-- The second does not: the generator is gone, and there is no other. -/
theorem doRoundChain_gone {w : World Nat} (he : w.env = 2) (hs : w.sched = fun _ => 0)
    (s d : Digest) : ∃ p' w', (doubledPool s).doRoundChain unplugged d w =
      some ((.error .notEnoughSources, p', d), w') := by
  obtain ⟨env, sched, global, trace, log⟩ := w
  obtain rfl : env = 2 := he
  obtain rfl : sched = fun _ => 0 := hs
  have hinter : ∃ w', w'.env = 2 ∧ interleave (SlotInner.readStep unplugged) choose
      (generatorSlots.mapIdx (Pool.worker doubled 0))
      ⟨2, fun _ => 0, global, trace, log ++ [.start s]⟩ =
        some (worked (.error ()) [] (zeros 32), w') := by
    refine ⟨_, ?_, (interleave_step rfl rfl rfl rfl).trans (interleave_of_finished ?_)⟩
    all_goals rfl
  obtain ⟨⟨env, sched, global', trace', log'⟩, hve, hv⟩ := hinter
  obtain rfl : env = 2 := hve
  have hfan := fanOut_doubled s hv
  have hcells : cells doubled 0 0 (worked (.error ()) [] (zeros 32)) = [none] := rfl
  rw [hcells] at hfan
  have hticks : ∃ p' w', ticksFrom unplugged 1 [0, 1] (doubledPool s) (freshHashes s)
      ⟨2, fun _ => 0, global, trace, log ++ [.start s]⟩ =
        some ((.error .notEnoughSources, p'), w') := by
    have howes : ¬ 0 ≥ (doubledPool s).config.slotTicks 0 := by
      rw [show (doubledPool s).config.slotTicks 0 = 2 from slotTicks_doubled]
      decide
    have habs : ∃ p' w', absorbFrom unplugged 0 [none] (List.range 1) (doubledPool s)
        (freshHashes s) ⟨2, sched, global', trace',
          log' ++ fetches doubled 0 0 (worked (.error ()) [] (zeros 32))⟩ =
          some ((.error .notEnoughSources, p'), w') := by
      rw [List.range_one, absorbFrom, if_neg howes]
      exact ⟨_, _, rfl⟩
    obtain ⟨p', w', habs⟩ := habs
    refine ⟨p', w', ?_⟩
    rw [ticksFrom, bind_of_eq hfan]
    exact bind_of_eq habs
  obtain ⟨p', w', hticks⟩ := hticks
  refine ⟨p', w', ?_⟩
  unfold doRoundChain
  rw [bind_of_eq (emit_apply _ _),
    show List.range (doubledPool s).config.maxTicks = [0, 1] from ticks_doubled]
  exact bind_of_eq hticks

/-- A read of two rounds' bytes loses the generator in the second: the output of the first, of
which the caller has got all, stays behind. -/
theorem scratch_left : ∃ (p' : Pool) (out : Digest) (buf' : List UInt8) (w w' : World Nat),
    PoolRun unplugged doubled (doubledPool zeroDigest) w ∧ doubled.useChain = true ∧
    (doubledPool zeroDigest).readChain unplugged zeroDigest [] (zeros 64) w =
      some ((.error .notEnoughSources, p', out, buf'), w') ∧ out ≠ zeroDigest := by
  obtain ⟨w, he, hs, hopen⟩ := open_doubled
  obtain ⟨v, hve, hvs, hround⟩ := doRoundChain_unplugged he hs
  obtain ⟨p', u, hgone⟩ := doRoundChain_gone
    (w := copied v (Bench.generators.sha3_256 (Bench.firstInput 0x11))) hve hvs
    (Bench.generators.sha3_256 (Bench.firstInput 0x00))
    (Bench.generators.sha3_256 (Bench.firstInput 0x11))
  refine ⟨p', _, _, w, u, .opened rfl hopen, by decide,
    (readChain_next (by decide) hround).trans (readChain_stopped (by decide) hgone), ?_⟩
  decide

end P11Rand.Pool
