import P11Rand.Bench

/-! What holds of every pool and every read, over whole lives of pools. -/
namespace P11Rand

open Effect Run

variable {W : Type} {P : Platform W} {w w' : World W} {p p' : Pool} {cfg : Config}
  {buf buf' : List UInt8} {res : Except Error Unit}

/-- The bytes a source of a kind is configured to give in a round. -/
def Config.inputBytes (c : Config) : SlotKind → Nat
  | .iso7816 => c.iso7816InputBytes
  | .infnoise => c.infnoiseInputBytes

theorem slotTicks_eq (c : Config) (i : Nat) :
    c.slotTicks i = c.inputBytes (c.kindAt i) / tickBytes := by
  by_cases hi : i < c.iso7816Cards <;> simp [Config.slotTicks, Config.kindAt, hi, Config.inputBytes]

/-- A chain read that succeeds is the documented chain: `⌈n / 32⌉` linked rounds, each over the
blocks of one successful read for each tick and slot that owes one, and the buffer the first
bytes of their outputs. -/
theorem chain_read_transcript (hrun : PoolRun P cfg p w) (hc : cfg.useChain = true)
    (h : p.read P buf w = some ((.ok (), p', buf'), w')) :
    ∃ rs : List Round, rs.length = (buf.length + 31) / 32 ∧
      Round.Linked p.state rs p'.state ∧ (∀ r ∈ rs, r.Valid P cfg) ∧
      buf' = (outputs rs).take buf.length ∧ w'.log = w.log ++ delivery rs buf.length := by
  have hh := hrun.history
  obtain ⟨rs, evs, hlog, _, _, hlink, hrs, hdel⟩ :=
    read_chain_cases (hh.config ▸ hh.slots.length_eq) (hh.config ▸ hc) h
  cases hdel with
  | all hlen =>
    exact ⟨rs, hlen, hlink, fun r hr => hh.config ▸ (hrs r hr).1, by simp, by simpa using hlog⟩

theorem chain_read_transcript_pair : ∃ w w' : World Unit,
    Bench.pairPool.read Bench.generators.machine (zeros 32) w = some
      ((.ok (), { Bench.pairPool with state := Bench.pairRound.next },
        Bench.pairRound.out.toList), w') ∧
    ∃ rs : List Round, rs.length = 1 ∧ Round.Linked zeroDigest rs Bench.pairRound.next ∧
      (∀ r ∈ rs, r.Valid Bench.generators.machine Bench.pair) ∧
      Bench.pairRound.out.toList = (outputs rs).take 32 ∧ w'.log = w.log ++ delivery rs 32 := by
  obtain ⟨w, w', hrun, _, hread⟩ := Bench.run_pair
  exact ⟨w, w', hread, chain_read_transcript hrun (by decide) hread⟩

/-- While at least as many devices of each kind work as are configured, the next read succeeds,
and so does every rebind: names held by other slots, dead or not, block none. -/
theorem pool_heals (hrun : PoolRun P cfg p w) (hp : P.Patient w.env) (hpl : Plenty P w cfg)
    (buf : List UInt8) :
    (∃ p' buf' w', p.read P buf w = some ((.ok (), p', buf'), w')) ∧
      ∀ i < p.slots.length, ∃ p' w', p.rebind P i w = some ((.ok (), p'), w') := by
  have hh := hrun.history
  refine ⟨Pool.read_heals hpl hp hh.valid hh.config hh.slots buf, fun i hi => ?_⟩
  obtain ⟨⟨r, p'⟩, w', hr, _⟩ := Pool.rebind_total (P := P) hi w
  obtain ⟨rfl, _⟩ := Pool.rebind_ok hpl hh.slots (List.getElem?_eq_getElem hi) hr
  exact ⟨p', w', hr⟩

theorem pool_heals_pair : ∃ w : World Unit,
    (∃ p' buf' w', Bench.pairPool.read Bench.generators.machine (zeros 40) w =
      some ((.ok (), p', buf'), w')) ∧
    ∀ i < 2, ∃ p' w', Bench.pairPool.rebind Bench.generators.machine i w =
      some ((.ok (), p'), w') := by
  obtain ⟨w, _, hrun, _⟩ := Bench.run_pair
  exact ⟨w, pool_heals hrun (Bench.patient_generators _)
    (Bench.plenty_generators rfl le_rfl w) (zeros 40)⟩

/-- The representation invariant; a read of such a pool neither indexes out of bounds nor runs
for ever. -/
theorem representation_invariant (hdup : P.DupFree) (hrun : PoolRun P cfg p w) :
    p.slots.length = cfg.iso7816Cards + cfg.infnoiseDevices ∧ 0 < p.slots.length ∧
    (∀ i s, p.slots[i]? = some s →
      (s.kind = .iso7816 ↔ i < cfg.iso7816Cards) ∧
      (s.inner = .empty ∨ s.inner.kind? = some s.kind) ∧
      (s.name = none ↔ s.inner = .empty) ∧
      cfg.slotTicks i = cfg.inputBytes s.kind / tickBytes) ∧
    (∀ (i j : Nat) (s s' : Slot) (name : String), p.slots[i]? = some s → p.slots[j]? = some s' →
      s.kind = s'.kind → s.name = some name → s'.name = some name → i = j) ∧
    (∀ t scratch q u u', p.fanOut P t u = some ((scratch, q), u') →
      scratch.length = q.slots.length) ∧
    ∀ buf, P.Patient w.env → ∃ r w', p.read P buf w = some (r, w') := by
  have hh := hrun.history
  obtain ⟨hinv, _⟩ := hrun.inv hdup
  have hlen := hh.slots.length_eq
  refine ⟨hlen, hlen ▸ cfg.poolSize_pos hh.valid, fun i s hs => ?_, ?_, ?_, fun buf hp =>
    Pool.read_returns hp hh.valid hh.config hh.slots buf⟩
  · have hmem := List.mem_of_getElem? hs
    have hkind := hh.slots.kind_eq hs
    refine ⟨by rw [hkind, kindAt_eq_iso7816], hh.slots.inner s hmem, ?_, ?_⟩
    · rw [hh.slots.device s hmem, device_eq_none]
    · rw [slotTicks_eq, hkind]
  · intro i j s s' name hi hj hk hn hn'
    refine hinv.distinct i j s.kind name ?_ ?_
    · rw [leases_getElem? hi, hn]
    · rw [leases_getElem? hj, hn', hk]
  · intro t scratch q u u' hf
    obtain ⟨_, _, _, hfan⟩ := Pool.fanOut_spec hf
    rw [hfan.length, hfan.evolves.length_eq]

theorem representation_invariant_pair : ∃ (p : Pool) (w : World Unit),
    p.state = Bench.pairRound.next ∧ p.slots.length = 2 ∧ 0 < p.slots.length ∧
    (∀ i s, p.slots[i]? = some s →
      (s.kind = .iso7816 ↔ i < 0) ∧ (s.inner = .empty ∨ s.inner.kind? = some s.kind) ∧
      (s.name = none ↔ s.inner = .empty) ∧
      Bench.pair.slotTicks i = Bench.pair.inputBytes s.kind / tickBytes) ∧
    (∀ (i j : Nat) (s s' : Slot) (name : String), p.slots[i]? = some s → p.slots[j]? = some s' →
      s.kind = s'.kind → s.name = some name → s'.name = some name → i = j) ∧
    (∀ t scratch q u u', p.fanOut Bench.generators.machine t u = some ((scratch, q), u') →
      scratch.length = q.slots.length) ∧
    ∀ buf, Bench.generators.machine.Patient w.env →
      ∃ r w', p.read Bench.generators.machine buf w = some (r, w') := by
  obtain ⟨w, w', hrun, _, hread⟩ := Bench.run_pair
  exact ⟨_, w', rfl, representation_invariant Bench.dupFree_generators (hrun.read hread)⟩

/-- The block at a position was read through a handle opened as `name`, and no other handle
served that position. -/
def Round.ReadFrom (r : Round) (e : Entry) (name : String) : Prop :=
  Served r.events e.tick e.slot (some name) e.block ∧
    ∀ device b, Served r.events e.tick e.slot device b → device = some name

theorem FromOneRead.served {evs : List PoolEvent} {e : Entry} (h : FromOneRead evs e) :
    ∃ device, Served evs e.tick e.slot device e.block := by
  rcases h with ⟨device, h⟩ | ⟨_, _, name, h⟩
  · exact ⟨device, .inl (h.subset (by simp))⟩
  · exact ⟨some name, .inr (h.subset (by simp [recovery]))⟩

/-- In every round ever completed, no device serves two sources in one tick. -/
theorem tick_sources_distinct (hdup : P.DupFree) (hrun : PoolRun P cfg p w) :
    ∀ r ∈ completed w.log, ∀ e ∈ absorbed r.events, ∀ e' ∈ absorbed r.events,
      e.tick = e'.tick → e.slot ≠ e'.slot → cfg.kindAt e.slot = cfg.kindAt e'.slot →
      ∃ name name', r.ReadFrom e name ∧ r.ReadFrom e' name' ∧ name ≠ name' := by
  intro r hr e he e' he' htick hslot hkind
  obtain ⟨q₀, hinv₀, rfl, hheld⟩ := (hrun.inv hdup).2 r hr
  have hvalid := hrun.history.rounds r hr
  obtain ⟨q, hev, hq⟩ := hheld e.tick
  have hinv := hev.inv hinv₀
  -- the slot that served a position still holds the device at the end of its tick
  have hdev : ∀ x ∈ absorbed r.events, x.tick = e.tick → ∃ s name, q.slots[x.slot]? = some s ∧
      s.name = some name ∧ r.ReadFrom x name := by
    intro x hx hxt
    obtain ⟨device, hserved⟩ := (hvalid.entry x hx).2.served
    obtain ⟨s, name, hs, hd, rfl⟩ := hq x.slot device x.block (hxt ▸ hserved)
    have hname := hinv.slots.device s (List.mem_of_getElem? hs)
    refine ⟨s, name, hs, hname.trans hd, hserved, fun device' b hserved' => ?_⟩
    obtain ⟨s', name', hs', hd', rfl⟩ := hq x.slot device' b (hxt ▸ hserved')
    rw [hs] at hs'
    cases hs'
    exact hd'.symm.trans hd
  obtain ⟨s, name, hs, hn, hread⟩ := hdev e he rfl
  obtain ⟨s', name', hs', hn', hread'⟩ := hdev e' he' htick.symm
  refine ⟨name, name', hread, hread', fun heq => hslot ?_⟩
  have hk : s.kind = s'.kind := by
    rw [hinv.slots.kind_eq hs, hinv.slots.kind_eq hs', hev.config, hkind]
  refine hinv.distinct e.slot e'.slot s.kind name ?_ ?_
  · rw [leases_getElem? hs, hn]
  · rw [leases_getElem? hs', hn', hk, heq]

theorem tick_sources_distinct_pair : ∃ name name',
    Bench.pairRound.ReadFrom ⟨0, 0, List.replicate 32 0xA5⟩ name ∧
      Bench.pairRound.ReadFrom ⟨0, 1, List.replicate 32 0xA6⟩ name' ∧ name ≠ name' := by
  obtain ⟨w, w', hrun, hlog, hread⟩ := Bench.run_pair
  have hround : Bench.pairRound ∈ completed w'.log := by
    rw [hlog, Bench.completed_pair]
    exact List.mem_singleton_self _
  exact tick_sources_distinct Bench.dupFree_generators (hrun.read hread) _ hround
    ⟨0, 0, List.replicate 32 0xA5⟩ (by decide) ⟨0, 1, List.replicate 32 0xA6⟩ (by decide) rfl
    (by decide) rfl

/-- A failing round leaves the chain as it is, a failing read has delivered the outputs of whole
rounds and nothing else, and over the life of a pool each copy made to a caller is the beginning
of the output of a completed round that no other copy is of. -/
theorem chain_never_reused (hrun : PoolRun P cfg p w) (hc : cfg.useChain = true) :
    (∀ (q q' : Pool) (out out' : Digest) (e : Error) (u u' : World W),
      q.doRoundChain P out u = some ((.error e, q', out'), u') → q'.state = q.state ∧ out' = out) ∧
    (∀ (buf buf' : List UInt8) (e : Error) (p' : Pool) (w' : World W),
      p.read P buf w = some ((.error e, p', buf'), w') →
      ∃ rs evs, Round.Linked p.state rs p'.state ∧ (∀ r ∈ rs, r.Valid P cfg) ∧
        32 * rs.length < buf.length ∧ buf' = outputs rs ++ buf.drop (32 * rs.length) ∧
        completed w'.log = completed w.log ++ rs ∧
        w'.log = w.log ++ delivery rs buf.length ++ .start p'.state :: evs) ∧
    Round.Linked zeroDigest (completed w.log) p.state ∧
    (Scan.all w.log).copies.Pairwise (fun a b => a.1 < b.1) ∧
    ∀ c ∈ (Scan.all w.log).copies, ∃ r, (completed w.log)[c.1]? = some r ∧
      c.2 <+: r.out.toList := by
  have hh := hrun.history
  refine ⟨fun q q' out out' e u u' h => Pool.doRoundChain_error h, ?_, hh.linked,
    hh.copies.ordered, hh.copies.prefixes⟩
  intro buf buf' e p' w' h
  obtain ⟨rs, evs, hlog, _, _, hlink, hrs, hdel⟩ :=
    read_chain_cases (hh.config ▸ hh.slots.length_eq) (hh.config ▸ hc) h
  have hrs' : ∀ r ∈ rs, r.Valid P cfg := fun r hr => hh.config ▸ (hrs r hr).1
  have hcomp := (scan_delivery hrs' hdel hlog).1
  cases hdel with
  | some hlt hin =>
    exact ⟨rs, _, hlink, hrs', hlt, by simp, hcomp, hlog⟩

theorem chain_never_reused_pair : ∃ (p : Pool) (w : World Unit) (P : Platform Unit),
    w.log = delivery [Bench.pairRound] 32 ∧
    (∀ (q q' : Pool) (out out' : Digest) (e : Error) (u u' : World Unit),
      q.doRoundChain P out u = some ((.error e, q', out'), u') → q'.state = q.state ∧ out' = out) ∧
    (∀ (buf buf' : List UInt8) (e : Error) (p' : Pool) (w' : World Unit),
      p.read P buf w = some ((.error e, p', buf'), w') →
      ∃ rs evs, Round.Linked p.state rs p'.state ∧ (∀ r ∈ rs, r.Valid P Bench.pair) ∧
        32 * rs.length < buf.length ∧ buf' = outputs rs ++ buf.drop (32 * rs.length) ∧
        completed w'.log = completed w.log ++ rs ∧
        w'.log = w.log ++ delivery rs buf.length ++ .start p'.state :: evs) ∧
    Round.Linked zeroDigest (completed w.log) p.state ∧
    (Scan.all w.log).copies.Pairwise (fun a b => a.1 < b.1) ∧
    ∀ c ∈ (Scan.all w.log).copies, ∃ r, (completed w.log)[c.1]? = some r ∧
      c.2 <+: r.out.toList := by
  obtain ⟨w, w', hrun, hlog, hread⟩ := Bench.run_pair
  exact ⟨_, w', _, hlog, chain_never_reused (hrun.read hread) (by decide)⟩

/-- The slot holds a handle that was opened as `name` after `w`. -/
def OpenedSince (P : Platform W) (w : World W) (s : Slot) (name : String) : Prop :=
  s.name = some name ∧ ∃ src u u', Later P w u ∧
    s.kind.openSource P name u = some (some src, u') ∧ s.inner.handle = src.handle

/-- A read that returned filled the whole buffer, or it failed. -/
def FillsOrFails {S ε : Type} (n : Nat) (o : Outcome S ε) : Prop :=
  o.ok = true → o.done.length = n ∧ o.rest = []

def PoolEvent.isPass : PoolEvent → Bool
  | .pass .. => true
  | _ => false

def PoolEvent.isRebind : PoolEvent → Bool
  | .rebind .. => true
  | _ => false

theorem map_ok {S T ε : Type} (f : S → T) (o : Outcome S ε) : (o.map f).ok = o.ok := by
  simp only [Outcome.map, Outcome.ok]
  cases o.res <;> rfl

theorem read_fillsOrFails {s : SlotInner} {o : Outcome SlotInner Unit}
    (h : s.read P buf w = some (o, w')) : FillsOrFails buf.length o := by
  intro hok
  obtain ⟨_, _, hl, hf⟩ := SlotInner.read_keeps h
  have hrest := hf hok
  exact ⟨by simpa [hrest] using hl, hrest⟩

theorem iso7816_read_fills (src : Iso7816.Source) (buf : List UInt8) (w : World W) :
    Yields (src.read P buf) w fun o _ => FillsOrFails buf.length o := by
  obtain ⟨o, w', h⟩ := Iso7816.read_returns (P := P) src buf w
  have hslot : SlotInner.read P (.iso7816 src) buf w = some (o.map .iso7816, w') := bind_of_eq h
  refine ⟨o, w', h, fun hok => ?_⟩
  exact read_fillsOrFails hslot ((map_ok _ o).trans hok)

theorem infnoise_read_fills (src : Infnoise.Source) (buf : List UInt8) (hp : P.Patient w.env) :
    Yields (src.read P buf) w fun o _ => FillsOrFails buf.length o := by
  obtain ⟨⟨o, w'⟩, h⟩ := loop_returns Infnoise.readStep_progress (.start src buf) w hp.acc
  have hslot : SlotInner.read P (.infnoise src) buf w = some (o.map .infnoise, w') := bind_of_eq h
  refine ⟨o, w', h, fun hok => ?_⟩
  exact read_fillsOrFails hslot ((map_ok _ o).trans hok)

theorem distinct_of_length {l : List Slot} (h : l.length = 1) : Lease.Distinct (leases l) := by
  intro i j k n hi hj
  have hlen : (leases l).length = 1 := by simp [leases, h]
  have hi' := (List.getElem?_eq_some_iff.mp hi).1
  have hj' := (List.getElem?_eq_some_iff.mp hj).1
  omega

/-- Raw passthrough. All bytes of a read that succeeds come, in order, from one read on the one
handle that the slot then holds; at most one rebind and two reads are made. A read that fails
leaves the slot empty or on a newly opened device. Every read of a source by itself fills its
buffer or fails. -/
theorem passthrough_one_source (hrun : PoolRun P cfg p w) (hc : cfg.useChain = false)
    (h : p.read P buf w = some ((res, p', buf'), w')) :
    (∃ s s' evs, p.slots = [s] ∧ p'.slots = [s'] ∧ w'.log = w.log ++ evs ∧
      p'.Inv ∧ p'.state = p.state ∧ buf'.length = buf.length ∧
      evs.countP PoolEvent.isPass ≤ 2 ∧ evs.countP PoolEvent.isRebind ≤ 1 ∧
      (res = .ok () → ∃ v, Later P w v ∧ OneRead s'.inner buf.length v w' buf' ∧
        (v = w ∧ s'.inner.handle = s.inner.handle ∧ evs = [.pass s.inner.device true buf'] ∨
          ∃ name filled, OpenedSince P w s' name ∧ evs = [.pass s.inner.device false filled,
            .rebind 0 (some name), .pass (some name) true buf'])) ∧
      ∀ e, res = .error e → s'.name = none ∧ s'.inner = .empty ∨
        ∃ name, OpenedSince P w s' name) ∧
    (∀ (src : Iso7816.Source) (b : List UInt8) (u : World W),
      Yields (src.read P b) u fun o _ => FillsOrFails b.length o) ∧
    ∀ (src : Infnoise.Source) (b : List UInt8) (u : World W), P.Patient u.env →
      Yields (src.read P b) u fun o _ => FillsOrFails b.length o := by
  have hh := hrun.history
  refine ⟨?_, iso7816_read_fills, fun src b u hp => infnoise_read_fills src b hp⟩
  have hone : p.slots.length = 1 :=
    hh.slots.length_eq.trans (cfg.poolSize_of_not_useChain hh.valid hc)
  obtain ⟨s, s', evs, hs, rfl, hlog, hlen, hev, _, hpass⟩ :=
    read_passthrough_cases (hh.config ▸ hh.slots) (hh.config ▸ hc) h
  obtain ⟨s₀, hslots⟩ := List.length_eq_one_iff.mp hone
  obtain rfl : s₀ = s := by simpa [hslots] using hs
  have hinv : (p.setSlot 0 s').Inv :=
    ⟨hev.config ▸ hh.config ▸ hev.slotsOk hh.slots, distinct_of_length (hev.length_eq.trans hone)⟩
  refine ⟨s₀, s', evs, hslots, by simp [hslots], hlog, hinv, rfl, hlen, ?_⟩
  cases hpass with
  | first hh hone =>
    refine ⟨show 1 ≤ 2 by decide, show 0 ≤ 1 by decide, fun _ => ?_, by simp⟩
    exact ⟨w, Std.Refl.refl w, hone.of_handle hh.symm, .inl ⟨rfl, hh, rfl⟩⟩
  | unbound =>
    refine ⟨show 1 ≤ 2 by decide, show 1 ≤ 1 by decide, by simp, fun _ _ => ?_⟩
    exact .inl ⟨rfl, rfl⟩
  | @retried name src src' u u' v filled _ hu hopen hv hh hone =>
    refine ⟨show 2 ≤ 2 by decide, show 1 ≤ 1 by decide, fun _ => ?_, by simp⟩
    have hd := (SlotKind.openSource_total (A := fun _ => True) (fun _ => trivial) _ _).within
      _ _ _ hopen
    have hlat : Later P w v := IsTrans.trans _ _ _ hu (IsTrans.trans _ _ _ hd.later hv)
    exact ⟨v, hlat, hone.of_handle hh.symm,
      .inr ⟨name, filled, ⟨rfl, src, u, u', hu, hopen, hh⟩, rfl⟩⟩
  | @failed name src src' u u' _ _ _ hu hopen hh =>
    refine ⟨show 2 ≤ 2 by decide, show 1 ≤ 1 by decide, by simp, fun _ _ => ?_⟩
    exact .inr ⟨name, rfl, src, u, u', hu, hopen, hh⟩

theorem passthrough_one_source_single :
    ∃ (p p' : Pool) (w w' : World Unit) (buf' : List UInt8) (P : Platform Unit),
    p.read P (zeros 40) w = some ((.ok (), p', buf'), w') ∧
    (∃ s s' evs, p.slots = [s] ∧ p'.slots = [s'] ∧ w'.log = w.log ++ evs ∧
      p'.Inv ∧ p'.state = p.state ∧ buf'.length = 40 ∧
      evs.countP PoolEvent.isPass ≤ 2 ∧ evs.countP PoolEvent.isRebind ≤ 1 ∧
      ∃ v, Later P w v ∧ OneRead s'.inner 40 v w' buf') := by
  obtain ⟨w, hopen⟩ := Bench.open_single
  have hrun : PoolRun Bench.generators.machine Bench.single _ w := .opened rfl hopen
  obtain ⟨p', buf', w', hread⟩ := Bench.read_generators hrun rfl (by decide) (zeros 40)
  obtain ⟨⟨s, s', evs, hs, hs', hlog, hinv, hst, hlen, hpass, hreb, hok, _⟩, _⟩ :=
    passthrough_one_source hrun (by decide) hread
  obtain ⟨v, hv, hone, _⟩ := hok rfl
  exact ⟨_, p', w, w', buf', _, hread, s, s', evs, hs, hs', hlog, hinv, hst, hlen, hpass, hreb,
    v, hv, hone⟩

end P11Rand
