import P11Rand.Bench
import P11Rand.Devices

/-! A round does not depend on the timing of its threads. -/
namespace P11Rand

open Effect Run

variable {W : Type} {w w' : World W} {p p' : Pool} {cfg : Config}

namespace Pool

/-- What the workers of tick `t` leave, each slot being read before the next one. -/
def readEach (P : Platform W) (cfg : Config) (t : Nat) :
    Nat → List Slot → Run (World W) (List (Outcome SlotInner Unit))
  | _, [] => return []
  | i, s :: ss => do
    let o ← if t ≥ cfg.slotTicks i then pure ((Reading.start s.inner []).ret (.error ()))
      else s.inner.read P (zeros tickBytes)
    return o :: (← readEach P cfg t (i + 1) ss)

/-- `fanOut` without threads. -/
def fanOutInOrder (P : Platform W) (p : Pool) (t : Nat) :
    Run (World W) (List (Option (List UInt8)) × Pool) := do
  let os ← readEach P p.config t 0 p.slots
  let scratch ← join p.config t 0 os
  return (scratch, { p with slots := p.slots.zipWith (fun s o => { s with inner := o.src }) os })

/-- `ticksFrom` without threads. -/
def ticksInOrder (P : Platform W) (poolSize : Nat) :
    List Nat → Pool → Hashes → Run (World W) (Except Error Hashes × Pool)
  | [], p, h => return (.ok h, p)
  | t :: ts, p, h => do
    let (scratch, p) ← p.fanOutInOrder P t
    match ← absorbFrom P t scratch (List.range poolSize) p h with
    | (.error e, p) => return (.error e, p)
    | (.ok h, p) => ticksInOrder P poolSize ts p h

/-- `doRoundChain` without threads. -/
def doRoundInOrder (P : Platform W) (p : Pool) (out : Digest) :
    Run (World W) (Except Error Unit × Pool × Digest) := do
  emit (.start p.state)
  match ← ticksInOrder P p.slots.length (List.range p.config.maxTicks) p
      (freshHashes p.state) with
  | (.error e, p) => return (.error e, p, out)
  | (.ok h, p) =>
    let out := h.out.finalize P
    let p := { p with state := h.state.finalize P }
    emit (.round out p.state)
    return (.ok (), p, out)

theorem readEach_eq (P : Platform W) (cfg : Config) (t i : Nat) (l : List Slot) :
    readEach P cfg t i l =
      inOrder (SlotInner.readStep P) (l.mapIdx fun j s => worker cfg t (i + j) s) := by
  induction l generalizing i with
  | nil => rfl
  | cons s l ih =>
    have hrest : (fun j s => worker cfg t (i + (j + 1)) s) =
        fun j s => worker cfg t (i + 1 + j) s := by
      funext j s
      rw [Nat.add_assoc, Nat.add_comm 1]
    rw [List.mapIdx_cons, hrest, readEach, ih]
    by_cases ht : t ≥ cfg.slotTicks i
    · have hidle : worker cfg t (i + 0) s = .inr ((Reading.start s.inner []).ret (.error ())) :=
        if_pos ht
      rw [if_pos ht, hidle]
      rfl
    · have hgoing : worker cfg t (i + 0) s = .inl (.start s.inner (zeros tickBytes)) := if_neg ht
      have hread : s.inner.read P (zeros tickBytes) =
          loop (SlotInner.readStep P) (.start s.inner (zeros tickBytes)) :=
        funext fun w => SlotInner.read_eq_loop _ _ w
      rw [if_neg ht, hgoing, hread]
      rfl

end Pool

section Devices

variable {K S E : Type} {D : Devices K S} {l : List Slot}

/-- No two slots hold the same device. -/
def Devices.Distinct (D : Devices K S) (l : List Slot) : Prop :=
  ∀ (i j : Nat) (s s' : Slot), l[i]? = some s → l[j]? = some s' → i ≠ j →
    Disjoint (D.touches s.inner) (D.touches s'.inner)

/-- The slots hold sources that the pool opened, on different devices. -/
structure Seated (D : Devices K S) (cfg : Config) (l : List Slot) : Prop where
  slots : SlotsOk cfg l
  named : ∀ s ∈ l, D.Named s.inner
  distinct : D.Distinct l

/-- A slot that touches a device holds its name. -/
theorem Seated.lease (h : Seated D cfg l) {i : Nat} {s : Slot} (hs : l[i]? = some s) {k : K}
    (hk : k ∈ D.touches s.inner) : (leases l)[i]? = some ((D.place k).1, some (D.place k).2) := by
  have hmem := List.mem_of_getElem? hs
  obtain ⟨hkind, hdev⟩ := h.named s hmem k hk
  have hinner : s.inner.kind? = some s.kind := by
    rcases h.slots.inner s hmem with hempty | hinner
    · rw [hempty] at hkind
      cases hkind
    · exact hinner
  rw [leases_getElem? hs, h.slots.device s hmem, hdev, Option.some.inj (hinner.symm.trans hkind)]

theorem Devices.Distinct.set (h : D.Distinct l) {i : Nat} {s : Slot}
    (hs : ∀ (j : Nat) (s' : Slot), j ≠ i → l[j]? = some s' →
      Disjoint (D.touches s.inner) (D.touches s'.inner)) : D.Distinct (l.set i s) := by
  have hget : ∀ (j : Nat) (s' : Slot), (l.set i s)[j]? = some s' →
      i = j ∧ s' = s ∨ j ≠ i ∧ l[j]? = some s' := by
    intro j s' hj
    rcases eq_or_ne i j with rfl | hij
    · have hlt : i < (l.set i s).length := (List.getElem?_eq_some_iff.mp hj).1
      rw [List.getElem?_set_self (by simpa using hlt)] at hj
      exact .inl ⟨rfl, (Option.some.inj hj).symm⟩
    · rw [List.getElem?_set_ne hij] at hj
      exact .inr ⟨hij.symm, hj⟩
  intro a b s₁ s₂ ha hb hab
  rcases hget a s₁ ha with ⟨rfl, rfl⟩ | ⟨hai, ha'⟩ <;>
    rcases hget b s₂ hb with ⟨hib, rfl⟩ | ⟨hbi, hb'⟩
  · exact (hab hib).elim
  · exact hs b s₂ hbi hb'
  · exact (hs a s₁ hai ha').symm
  · exact h a b s₁ s₂ ha' hb' hab

theorem Pool.workers_apart (h : Seated D cfg p.slots) (t : Nat) :
    Apart (fun r => D.touches r.src) (p.slots.mapIdx (Pool.worker p.config t)) := by
  have hworker : ∀ (i : Nat) (r : Reading SlotInner),
      (p.slots.mapIdx (Pool.worker p.config t))[i]? = some (.inl r) →
      ∃ s, p.slots[i]? = some s ∧ r.src = s.inner := by
    intro i r hr
    rw [List.getElem?_mapIdx] at hr
    obtain ⟨s, hs, hw⟩ := Option.map_eq_some_iff.mp hr
    refine ⟨s, hs, ?_⟩
    unfold Pool.worker at hw
    split at hw
    · cases hw
    · cases hw
      rfl
  intro i j r r' hi hj hij
  obtain ⟨s, hs, hr⟩ := hworker i r hi
  obtain ⟨s', hs', hr'⟩ := hworker j r' hj
  dsimp only
  rw [hr, hr']
  exact h.distinct i j s s' hs hs' hij

variable [DecidableEq K] {P : Platform ((K → S) × E)}

/-- A rebound slot is on a device of its own: the others hold other names. -/
theorem seated_stable (hD : D.Of P) : Stable P (Seated D cfg) := by
  have hnamed := (Devices.named_kept hD).stable
  refine ⟨fun l l' hsame hl => ?_, fun l i s hs hl => ?_,
    fun l i s name src w w' hs hfree hopen hl => ?_⟩
  · refine ⟨SlotStep.ok (.read hsame) hl.slots, hnamed.read l l' hsame hl.named, ?_⟩
    intro i j s s' hs hs' hij
    obtain ⟨hi, rfl⟩ := List.getElem?_eq_some_iff.mp hs
    obtain ⟨hj, rfl⟩ := List.getElem?_eq_some_iff.mp hs'
    have hi' : i < l.length := hsame.length_eq ▸ hi
    have hj' : j < l.length := hsame.length_eq ▸ hj
    have hh := ((List.forall₂_iff_get.mp hsame).2 i hi' hi).handle
    have hh' := ((List.forall₂_iff_get.mp hsame).2 j hj' hj).handle
    simp only [List.get_eq_getElem] at hh hh'
    rw [Devices.touches_eq hh, Devices.touches_eq hh']
    exact hl.distinct i j _ _ (List.getElem?_eq_getElem hi') (List.getElem?_eq_getElem hj') hij
  · have hslots := SlotStep.ok (.close hs) hl.slots
    refine ⟨hslots, hnamed.close l i s hs hl.named, ?_⟩
    exact hl.distinct.set fun j s' _ _ => Set.empty_disjoint _
  · have ho := SlotKind.openSource_opened hopen
    refine ⟨SlotStep.ok (.bind hs hfree ho) hl.slots,
      hnamed.bind l i s name src w w' hs hfree hopen hl.named, ?_⟩
    refine hl.distinct.set fun j s' hji hs' => Set.disjoint_left.mpr fun k hk hk' => hfree ?_
    obtain ⟨hkind, hdev⟩ := (Devices.named_kept hD).opened _ _ _ _ _ hopen k hk
    have hplace := hl.lease hs' hk'
    rw [← Option.some.inj (ho.kind.symm.trans hkind), ← hdev, ho.device] at hplace
    exact ⟨j, hji, hplace⟩

namespace Pool

theorem fanOut_agrees (hD : D.Of P) (h : Seated D cfg p.slots) (t : Nat) :
    Agrees World.remains (p.fanOut P t) (p.fanOutInOrder P t) := by
  unfold fanOut fanOutInOrder
  have hindex : (fun j s => worker p.config t (0 + j) s) = worker p.config t := by
    funext j s
    rw [Nat.zero_add]
  rw [readEach_eq, hindex]
  refine agrees_bind (interleave_inOrder (Devices.workers hD) ?_ (workers_apart h t)) fun os => ?_
  · exact fun n w => ⟨_, _, rfl, rfl⟩
  · exact agrees_bind (join_sees (observes_remains P cfg) _ _ _ _).agrees fun _ =>
      (sees_pure _).agrees

theorem ticksFrom_agrees (hD : D.Of P) (h : Seated D cfg p.slots) (n : Nat) (ts : List Nat)
    (hs : Hashes) : Agrees World.remains (ticksFrom P n ts p hs) (ticksInOrder P n ts p hs) := by
  induction ts generalizing p hs with
  | nil => exact (sees_pure _).agrees
  | cons t ts ih =>
    unfold ticksFrom ticksInOrder
    apply agrees_bind_of (fanOut_agrees hD h t)
    rintro ⟨scratch, q⟩ w v hfan
    have hq := fanOut_stable (seated_stable hD) h hfan
    apply agrees_bind_of (absorbFrom_sees (observes_remains P cfg) hq.slots t scratch _ hs).agrees
    rintro ⟨res, q'⟩ v u habs
    cases res with
    | error e => exact (sees_pure _).agrees
    | ok hs' => exact ih (absorbFrom_stable (seated_stable hD) hq habs) hs'

theorem doRoundChain_agrees (hD : D.Of P) (h : Seated D cfg p.slots) (out : Digest) :
    Agrees World.remains (p.doRoundChain P out) (p.doRoundInOrder P out) := by
  have ho := observes_remains P cfg
  apply agrees_bind (ho.emit _).agrees
  intro _
  apply agrees_bind (ticksFrom_agrees hD h _ _ _)
  rintro ⟨res, q⟩
  cases res with
  | error e => exact (sees_pure _).agrees
  | ok hs => exact agrees_bind (ho.emit _).agrees fun _ => (sees_pure _).agrees

end Pool

/-- Whatever the scheduler does, a round ends as if every slot of each tick were read in turn. -/
theorem round_timing_free (hD : D.Of P) {w : World ((K → S) × E)} (hrun : PoolRun P cfg p w)
    (hd : D.Distinct p.slots) (out : Digest) (sched : Nat → Nat) :
    (p.doRoundChain P out { w with sched }).map (Prod.map id World.remains) =
      (p.doRoundInOrder P out w).map (Prod.map id World.remains) := by
  have hseated : Seated D cfg p.slots :=
    ⟨hrun.history.slots, hrun.kept (Devices.named_kept hD), hd⟩
  exact Pool.doRoundChain_agrees hD hseated out _ w rfl

end Devices

namespace Bench

/-- Two generators that count the bytes they gave, and give no more than twenty at a time. -/
def counting : Devices (SlotKind × String) Nat where
  card card := (.iso7816, card.reader)
  node file := (.infnoise, if file = 0 then "/dev/infnoise0" else "/dev/infnoise1")
  place := id
  transmit _ _ n := (.ok [0x6D, 0x00], n)
  readFile file len n :=
    (.data (List.replicate (min len 20) (if file = 0 then 0xA5 else 0xA6)), n + min len 20)

def countingMachine : Platform ((SlotKind × String → Nat) × Unit) where
  answer
    | .transmit _ _, e => (.ok [0x6D, 0x00], e)
    | .readFile file len, e =>
      ((counting.readFile file len (e.1 (counting.node file))).1,
        Function.update e.1 (counting.node file)
          (counting.readFile file len (e.1 (counting.node file))).2, e.2)
    | .openFile path, e =>
      (if path = "/dev/infnoise0" then some 0
        else if path = "/dev/infnoise1" then some 1 else none, e)
    | q, e => (generators.answer q, e)
  sha3_256 := generators.sha3_256

theorem counting_of : counting.Of countingMachine := by
  refine ⟨fun card apdu d e => ?_, fun _ _ _ _ => rfl, fun _ => rfl, fun path d e file h => ?_⟩
  · exact congrArg (fun d => (_, d, e)) (Function.update_eq_self _ d).symm
  · have hfile : (if path = "/dev/infnoise0" then some 0
        else if path = "/dev/infnoise1" then some 1 else none) = some file := h
    split at hfile
    · rename_i hpath
      cases hfile
      rw [hpath]
      rfl
    split at hfile
    · rename_i hpath
      cases hfile
      rw [hpath]
      rfl
    · cases hfile

theorem open_counting : ∃ w, Pool.open countingMachine pair
    ⟨(fun _ => 0, ()), fun _ => 0, ⟨none, 0⟩, [], []⟩ = some (.ok pairPool, w) := ⟨_, rfl⟩

theorem distinct_pairPool : counting.Distinct pairPool.slots := by
  intro i j s s' hs hs' hij
  have hne : Disjoint ({counting.node 0} : Set (SlotKind × String)) {counting.node 1} :=
    Set.disjoint_singleton.mpr (by decide)
  rcases i with _ | _ | i <;> rcases j with _ | _ | j <;> cases hs <;> cases hs'
  · exact (hij rfl).elim
  · exact hne
  · exact hne.symm
  · exact (hij rfl).elim

end Bench

theorem round_timing_free_counting : ∃ w,
    PoolRun Bench.countingMachine Bench.pair Bench.pairPool w ∧ ∀ sched : Nat → Nat,
      (Bench.pairPool.doRoundChain Bench.countingMachine zeroDigest { w with sched }).map
          (Prod.map id World.remains) =
        (Bench.pairPool.doRoundInOrder Bench.countingMachine zeroDigest w).map
          (Prod.map id World.remains) := by
  obtain ⟨w, hopen⟩ := Bench.open_counting
  have hrun : PoolRun Bench.countingMachine Bench.pair Bench.pairPool w := .opened rfl hopen
  exact ⟨w, hrun, round_timing_free Bench.counting_of hrun Bench.distinct_pairPool zeroDigest⟩

end P11Rand
