import P11Rand.Pool.Chain
import P11Rand.Pool.Passthrough

/-! Whole lives of a pool: opened once, then read from any number of times, while anything may
happen to the machine in between. -/
namespace P11Rand

open Effect Run

variable {W : Type} {P : Platform W} {w w' : World W} {p p' : Pool} {cfg : Config}
  {buf buf' : List UInt8} {res : Except Error Unit}

/-- A pool between two calls, with the world that holds its log. -/
inductive PoolRun (P : Platform W) (cfg : Config) : Pool → World W → Prop
  | opened {p : Pool} {w₀ w : World W} : w₀.log = [] →
      Pool.open P cfg w₀ = some (.ok p, w) → PoolRun P cfg p w
  | elapsed {p : Pool} {w w' : World W} : PoolRun P cfg p w → w'.log = w.log → PoolRun P cfg p w'
  | read {p p' : Pool} {w w' : World W} {buf buf' : List UInt8} {res : Except Error Unit} :
      PoolRun P cfg p w → p.read P buf w = some ((res, p', buf'), w') → PoolRun P cfg p' w'

/-- A pass over a pool log: the rounds completed, the round under way, and the copies made to
callers, each with the number of the round last completed before it. -/
structure Scan where
  rounds : List Round
  current : Option (Digest × List PoolEvent)
  copies : List (Nat × List UInt8)

namespace Scan

def step (sc : Scan) : PoolEvent → Scan
  | .start s => { sc with current := some (s, []) }
  | .copy bytes => { sc with copies := sc.copies ++ [(sc.rounds.length - 1, bytes)] }
  | .round out next => match sc.current with
    | some (s, evs) => { sc with rounds := sc.rounds ++ [⟨s, evs, out, next⟩], current := none }
    | none => sc
  | ev => { sc with current := sc.current.map fun c => (c.1, c.2 ++ [ev]) }

def all (log : List PoolEvent) : Scan := log.foldl step ⟨[], none, []⟩

/-- Each copy is of the beginning of a completed round's output, and of a round of its own. -/
structure Ok (sc : Scan) : Prop where
  ordered : sc.copies.Pairwise fun a b => a.1 < b.1
  prefixes : ∀ c ∈ sc.copies, ∃ r, sc.rounds[c.1]? = some r ∧ c.2 <+: r.out.toList

theorem foldl_inRound {evs : List PoolEvent} (hin : ∀ ev ∈ evs, ev.InRound) (sc : Scan) :
    evs.foldl step sc = { sc with current := sc.current.map fun c => (c.1, c.2 ++ evs) } := by
  induction evs generalizing sc with
  | nil => simp
  | cons ev evs ih =>
    obtain ⟨t, ht⟩ := hin ev List.mem_cons_self
    rw [List.foldl_cons, ih fun ev hev => hin ev (List.mem_cons_of_mem _ hev)]
    cases ev <;> simp_all [step, PoolEvent.InTick, Function.comp_def]

theorem foldl_log {r : Round} (hin : ∀ ev ∈ r.events, ev.InRound) (sc : Scan) :
    r.log.foldl step sc = { sc with rounds := sc.rounds ++ [r], current := none } := by
  simp [Round.log, step, foldl_inRound hin]

/-- The copies a delivery of `n` bytes makes, counting rounds from `k`. -/
def copiesFrom (k : Nat) : List Round → Nat → List (Nat × List UInt8)
  | [], _ => []
  | r :: rs, n => (k, r.out.toList.take (min n roundBytes)) ::
      copiesFrom (k + 1) rs (n - min n roundBytes)

theorem foldl_delivery {rs : List Round} (hin : ∀ r ∈ rs, ∀ ev ∈ r.events, ev.InRound) (n : Nat)
    (sc : Scan) : ∃ current, (delivery rs n).foldl step sc =
      ⟨sc.rounds ++ rs, current, sc.copies ++ copiesFrom sc.rounds.length rs n⟩ := by
  induction rs generalizing n sc with
  | nil => exact ⟨sc.current, by simp [delivery, copiesFrom]⟩
  | cons r rs ih =>
    have hr := hin r List.mem_cons_self
    obtain ⟨current, hrest⟩ := ih (fun r hr => hin r (List.mem_cons_of_mem _ hr))
      (n - min n roundBytes) (step { sc with rounds := sc.rounds ++ [r], current := none }
        (.copy (r.out.toList.take (min n roundBytes))))
    refine ⟨current, ?_⟩
    rw [delivery, List.foldl_append, foldl_log hr, List.foldl_cons, hrest]
    simp [step, copiesFrom]

theorem copiesFrom_le {k : Nat} {rs : List Round} {n : Nat} {c : Nat × List UInt8}
    (h : c ∈ copiesFrom k rs n) : k ≤ c.1 := by
  induction rs generalizing k n with
  | nil => cases h
  | cons r rs ih =>
    rcases List.mem_cons.mp h with rfl | h
    · exact le_rfl
    · exact (Nat.le_succ k).trans (ih h)

theorem copiesFrom_ordered (k : Nat) (rs : List Round) (n : Nat) :
    (copiesFrom k rs n).Pairwise fun a b => a.1 < b.1 := by
  induction rs generalizing k n with
  | nil => exact .nil
  | cons r rs ih => exact .cons (fun c hc => copiesFrom_le hc) (ih _ _)

theorem copiesFrom_prefix {pre rs : List Round} {n : Nat} {c : Nat × List UInt8}
    (h : c ∈ copiesFrom pre.length rs n) :
    ∃ r, (pre ++ rs)[c.1]? = some r ∧ c.2 <+: r.out.toList := by
  induction rs generalizing pre n with
  | nil => cases h
  | cons r rs ih =>
    rcases List.mem_cons.mp h with rfl | h
    · exact ⟨r, by simp, List.take_prefix _ _⟩
    · have h : c ∈ copiesFrom (pre ++ [r]).length rs (n - min n roundBytes) := by simpa using h
      simpa using ih h

theorem Ok.delivery {sc : Scan} (h : sc.Ok) (rs : List Round) (n : Nat)
    (current : Option (Digest × List PoolEvent)) :
    Ok ⟨sc.rounds ++ rs, current, sc.copies ++ copiesFrom sc.rounds.length rs n⟩ := by
  constructor
  · refine List.pairwise_append.mpr ⟨h.ordered, copiesFrom_ordered _ _ _, fun a ha b hb => ?_⟩
    obtain ⟨r, hr, _⟩ := h.prefixes a ha
    exact (List.getElem?_eq_some_iff.mp hr).1.trans_le (copiesFrom_le hb)
  · intro c hc
    rcases List.mem_append.mp hc with hc | hc
    · obtain ⟨r, hr, hpre⟩ := h.prefixes c hc
      have hlt := (List.getElem?_eq_some_iff.mp hr).1
      exact ⟨r, by rw [List.getElem?_append_left hlt, hr], hpre⟩
    · exact copiesFrom_prefix hc

end Scan

/-- The rounds that a pool log shows to have completed. -/
def completed (log : List PoolEvent) : List Round := (Scan.all log).rounds

/-- What the past of a pool has left. -/
structure History (P : Platform W) (cfg : Config) (p : Pool) (w : World W) : Prop where
  config : p.config = cfg
  valid : cfg.validate = .ok ()
  slots : SlotsOk cfg p.slots
  linked : Round.Linked zeroDigest (completed w.log) p.state
  rounds : ∀ r ∈ completed w.log, r.Valid P cfg
  copies : (Scan.all w.log).Ok

/-- A chain read: the rounds it completed and how it ended. -/
theorem read_chain_cases (hn : p.slots.length = p.config.poolSize) (hc : p.config.useChain = true)
    (h : p.read P buf w = some ((res, p', buf'), w')) :
    ∃ rs evs, w'.log = w.log ++ delivery rs buf.length ++ evs ∧ Later P w w' ∧ p.Evolves p' ∧
      Round.Linked p.state rs p'.state ∧ (∀ r ∈ rs, r.Valid P p.config ∧ r.HeldSince p) ∧
      Pool.Delivered rs p'.state [] buf res buf' evs := by
  unfold Pool.read at h
  rw [if_pos hc] at h
  obtain ⟨⟨r, q, out, b⟩, v, hr, h⟩ := bind_eq_some.mp h
  cases h
  exact Pool.readChain_cases hn hr

theorem read_passthrough_cases (hok : SlotsOk p.config p.slots) (hc : p.config.useChain = false)
    (h : p.read P buf w = some ((res, p', buf'), w')) :
    ∃ s s' evs, p.slots[0]? = some s ∧ p' = p.setSlot 0 s' ∧ w'.log = w.log ++ evs ∧
      buf'.length = buf.length ∧ p.Evolves p' ∧ Later P w w' ∧
      Pool.Passed P s buf.length w w' res s' buf' evs := by
  unfold Pool.read at h
  rw [if_neg (by simp [hc])] at h
  exact Pool.readPassthrough_cases hok h

theorem scan_append (log evs : List PoolEvent) :
    Scan.all (log ++ evs) = evs.foldl Scan.step (Scan.all log) := List.foldl_append

/-- A failed round and a passthrough read add no round and no copy. -/
theorem Scan.foldl_tail {rs : List Round} {state : Digest} {evs : List PoolEvent} (sc : Scan)
    (h : Pool.Delivered rs state [] buf res buf' evs) :
    (evs.foldl Scan.step sc).rounds = sc.rounds ∧ (evs.foldl Scan.step sc).copies = sc.copies := by
  cases h with
  | all _ => exact ⟨rfl, rfl⟩
  | some _ hin => simp [Scan.foldl_inRound hin, Scan.step]

theorem Scan.foldl_passed {s s' : Slot} {n : Nat} {evs : List PoolEvent} (sc : Scan)
    (h : Pool.Passed P s n w w' res s' buf' evs) :
    (evs.foldl Scan.step sc).rounds = sc.rounds ∧ (evs.foldl Scan.step sc).copies = sc.copies := by
  cases h <;> exact ⟨rfl, rfl⟩

/-- What a chain read adds to the scan of a log. -/
theorem scan_delivery {rs : List Round} {evs : List PoolEvent} {state : Digest}
    (hrs : ∀ r ∈ rs, r.Valid P cfg) (hdel : Pool.Delivered rs state [] buf res buf' evs)
    (hlog : w'.log = w.log ++ delivery rs buf.length ++ evs) :
    completed w'.log = completed w.log ++ rs ∧ ((Scan.all w.log).Ok → (Scan.all w'.log).Ok) := by
  obtain ⟨current, hfold⟩ := Scan.foldl_delivery (fun r hr => (hrs r hr).inRound) buf.length
    (Scan.all w.log)
  have hscan := scan_append (w.log ++ delivery rs buf.length) evs
  rw [← hlog, scan_append, hfold] at hscan
  obtain ⟨hrounds, hcopies⟩ := Scan.foldl_tail ⟨(Scan.all w.log).rounds ++ rs, current,
    (Scan.all w.log).copies ++ Scan.copiesFrom (Scan.all w.log).rounds.length rs buf.length⟩ hdel
  refine ⟨by rw [completed, hscan, hrounds]; rfl, fun hok => ?_⟩
  obtain ⟨hord, hpre⟩ := hok.delivery rs buf.length current
  rw [hscan]
  exact ⟨hcopies ▸ hord, hcopies ▸ hrounds ▸ hpre⟩

/-- What a read adds to the history, in either mode. -/
theorem read_rounds (hok : SlotsOk p.config p.slots)
    (h : p.read P buf w = some ((res, p', buf'), w')) :
    p.Evolves p' ∧ ∃ rs, completed w'.log = completed w.log ++ rs ∧
      Round.Linked p.state rs p'.state ∧ (∀ r ∈ rs, r.Valid P p.config ∧ r.HeldSince p) ∧
      ((Scan.all w.log).Ok → (Scan.all w'.log).Ok) := by
  cases hc : p.config.useChain with
  | true =>
    obtain ⟨rs, evs, hlog, _, hev, hlink, hrs, hdel⟩ := read_chain_cases hok.length_eq hc h
    obtain ⟨hcomp, hcopies⟩ := scan_delivery (fun r hr => (hrs r hr).1) hdel hlog
    exact ⟨hev, rs, hcomp, hlink, hrs, hcopies⟩
  | false =>
    obtain ⟨s, s', evs, _, rfl, hlog, _, hev, _, hpass⟩ := read_passthrough_cases hok hc h
    obtain ⟨hrounds, hcopies⟩ := Scan.foldl_passed (Scan.all w.log) hpass
    rw [← scan_append, ← hlog] at hrounds hcopies
    refine ⟨hev, [], by rw [completed, hrounds, List.append_nil]; rfl, rfl, by simp, ?_⟩
    rintro ⟨hord, hpre⟩
    exact ⟨hcopies ▸ hord, hcopies ▸ hrounds ▸ hpre⟩

theorem PoolRun.history (h : PoolRun P cfg p w) : History P cfg p w := by
  induction h with
  | opened hlog hopen =>
    obtain ⟨hv, hc, hs, hok, _⟩ := Pool.open_cases hopen
    have hd := (Pool.open_total cfg).within _ _ _ hopen
    have hlog' := hd.log.trans hlog
    refine ⟨hc, hv, hok, ?_, ?_, ?_⟩
    · rw [hlog', hs]
      rfl
    · rw [hlog']
      simp [completed, Scan.all]
    · rw [hlog']
      exact ⟨.nil, by simp [Scan.all]⟩
  | elapsed _ hlog ih =>
    exact ⟨ih.config, ih.valid, ih.slots, hlog ▸ ih.linked, hlog ▸ ih.rounds, hlog ▸ ih.copies⟩
  | @read p p' w w' buf buf' res _ hread ih =>
    obtain ⟨hev, rs, hcomp, hlink, hrs, hcopies⟩ := read_rounds (ih.config ▸ ih.slots) hread
    refine ⟨hev.config.trans ih.config, ih.valid, hev.slotsOk ih.slots, ?_, ?_, hcopies ih.copies⟩
    · rw [hcomp]
      exact ih.linked.append hlink
    · intro r hr
      rw [hcomp, List.mem_append] at hr
      rcases hr with hr | hr
      · exact ih.rounds r hr
      · exact ih.config ▸ (hrs r hr).1

/-- With enumerations free of duplicates, no name is held twice, now or in any past tick. -/
theorem PoolRun.inv (hdup : P.DupFree) (h : PoolRun P cfg p w) :
    p.Inv ∧ ∀ r ∈ completed w.log, ∃ q : Pool, q.Inv ∧ q.config = cfg ∧ r.HeldSince q := by
  induction h with
  | opened hlog hopen =>
    obtain ⟨_, rfl, _, hok, hd⟩ := Pool.open_cases hopen
    have hlog' := ((Pool.open_total _).within _ _ _ hopen).log.trans hlog
    exact ⟨⟨hok, hd hdup⟩, by simp [hlog', completed, Scan.all]⟩
  | elapsed _ hlog ih => exact hlog ▸ ih
  | @read p p' w w' buf buf' res hrun hread ih =>
    obtain ⟨hinv, hpast⟩ := ih
    obtain ⟨hev, rs, hcomp, _, hrs, _⟩ := read_rounds hinv.slots hread
    refine ⟨hev.inv hinv, fun r hr => ?_⟩
    rw [hcomp, List.mem_append] at hr
    rcases hr with hr | hr
    · exact hpast r hr
    · exact ⟨p, hinv, hrun.history.config, (hrs r hr).2⟩

end P11Rand
