import P11Rand.Tools.Attached

/-! The tools on the module: what comes out of them, against what the sources put in. -/
namespace P11Rand.Tools

open Effect Run

variable {H W : Type} {T : ToolHost H} {P : Platform W} {cfg : Config} {m m' : Module}
  {w w' : World W} {h : CkUlong} {s : Session}

namespace Read

variable {u u' v : ToolWorld H} {a : Args} {p : Int64} {es : List ToolReply}

/-- What holds at the head of the loop, also of a stream without an end: all that was generated has
been written, and it was generated in whole rounds as long as there is more to come. -/
structure Flowing (a : Args) (p : Int64) (es : List ToolReply) : Prop where
  lawful : Lawful (Legal a.hex) es
  pending : Pending a.hex es []
  served : calls es = (blocks es).map some
  whole : ∀ b ∈ (blocks es).dropLast, roundBytes ∣ b.length
  last : a.nTotal < 0 ∨ p < a.nTotal → ∀ b ∈ blocks es, roundBytes ∣ b.length
  count : 0 ≤ a.nTotal.toInt → 0 ≤ p.toInt ∧ p.toInt ≤ a.nTotal.toInt ∧
    ((generated es).length : Int) = p.toInt

/-- What holds when it has ended: at most the last call failed, and if the count was reached all of
the stream has been written. -/
structure Flowed (a : Args) (p : Int64) (es : List ToolReply) : Prop where
  lawful : Lawful (Legal a.hex) es
  served : ∃ tail, calls es = (blocks es).map some ++ tail ∧ (tail = [] ∨ tail = [none])
  whole : ∀ b ∈ (blocks es).dropLast, roundBytes ∣ b.length
  full : 0 ≤ a.nTotal.toInt → p = a.nTotal → Pending a.hex es [] ∧
    calls es = (blocks es).map some ∧ ((generated es).length : Int) = a.nTotal.toInt

theorem flowing_start (a : Args) : Flowing a 0 [] :=
  ⟨lawful_nil, by cases a.hex <;> rfl, rfl, by simp [blocks], by simp [blocks],
    fun h => ⟨le_rfl, h, rfl⟩⟩

theorem Flowing.ended (hf : Flowing a p es) : Flowed a p es := by
  refine ⟨hf.lawful, ⟨[], by simp [hf.served], .inl rfl⟩, hf.whole, ?_⟩
  rintro hN rfl
  exact ⟨hf.pending, hf.served, (hf.count hN).2.2⟩

theorem Flowing.signal {n : Int32} (hf : Flowing a p u.trace)
    (hq : ask T .signalCount u = some (n, v)) : Flowing a p v.trace := by
  have hp := hf.pending.idle (e := ⟨.signalCount, n⟩) rfl rfl
  rw [ask_trace hq]
  exact ⟨lawful_snoc.mpr ⟨hf.lawful, [], hp⟩, hp, by simpa [block, call] using hf.served,
    by simpa [block] using hf.whole, by simpa [block] using hf.last,
    by simpa [block] using hf.count⟩

/-- The count is not reached while there is more to come. -/
theorem not_reached (hgo : a.nTotal < 0 ∨ p < a.nTotal) (hN : 0 ≤ a.nTotal.toInt) :
    p.toInt < a.nTotal.toInt := by
  rcases hgo with hneg | hlt
  · rw [Int64.lt_iff_toInt_lt] at hneg
    have hzero : (0 : Int64).toInt = 0 := rfl
    omega
  · exact Int64.lt_iff_toInt_lt.mp hlt

/-- A call asks for whole rounds, unless it is the last one. -/
theorem wanted_dvd (hf : Flowing a p es) (hgo : a.nTotal < 0 ∨ p < a.nTotal)
    (hmore : a.nTotal < 0 ∨ p + Int64.ofNat (wanted a p) < a.nTotal) :
    roundBytes ∣ wanted a p := by
  have h256 : wanted a p = 256 := by
    by_cases hN : 0 ≤ a.nTotal.toInt
    · obtain ⟨h0, _⟩ := hf.count hN
      have he := exact_of_lt h0 (not_reached hgo hN)
      have hlt := not_reached hmore hN
      have hadd := he.add
      have hwant := he.want
      omega
    · have hneg : ¬ 0 ≤ a.nTotal := fun hle => hN (Int64.le_iff_toInt_le.mp hle)
      rw [wanted, if_neg fun hand => hneg hand.1]
  rw [h256]
  decide

/-- The call that failed was the last. -/
theorem Flowing.failed {n : Nat} {rv : CkUlong} {b : Vector UInt8 n} (hf : Flowing a p u.trace)
    (hgo : a.nTotal < 0 ∨ p < a.nTotal) (hrv : rv ≠ ckrOk)
    (hq : ask T (.generateRandom n) u = some ((rv, b), v)) : Flowed a p v.trace := by
  have hnone : block ⟨.generateRandom n, (rv, b)⟩ = none := if_neg hrv
  have hp := hf.pending.idle (e := ⟨.generateRandom n, (rv, b)⟩) hnone rfl
  rw [ask_trace hq]
  refine ⟨lawful_snoc.mpr ⟨hf.lawful, [], hp⟩, ⟨[none], ?_, .inr rfl⟩, ?_, ?_⟩
  · simp [hnone, call, hf.served]
  · simpa [hnone] using hf.whole
  · rintro hN rfl
    exact absurd (not_reached hgo hN) (lt_irrefl _)

theorem Flowed.signal {n : Int32} (hf : Flowed a p u.trace)
    (hq : ask T .signalCount u = some (n, v)) : Flowed a p v.trace := by
  obtain ⟨rest, hp⟩ : ∃ rest, Pending a.hex u.trace rest := by
    rcases List.eq_nil_or_concat u.trace with hnil | ⟨pre, e, heq⟩
    · exact ⟨[], by rw [hnil]; cases a.hex <;> rfl⟩
    · have hlawful := hf.lawful
      rw [heq, List.concat_eq_append] at hlawful ⊢
      exact (lawful_snoc.mp hlawful).2
  rw [ask_trace hq]
  refine ⟨lawful_snoc.mpr ⟨hf.lawful, rest, hp.idle rfl rfl⟩,
    by simpa [block, call] using hf.served, by simpa [block] using hf.whole, fun hN hpN => ?_⟩
  obtain ⟨hfull, hserved, hlen⟩ := hf.full hN hpN
  exact ⟨hfull.idle rfl rfl, by simpa [block, call] using hserved, by simpa [block] using hlen⟩

/-- A block that the module has given since `es` is yet to be written. -/
structure Given (a : Args) (es : List ToolReply) (b : List UInt8) (fs : List ToolReply) : Prop where
  lawful : Lawful (Legal a.hex) fs
  pending : Pending a.hex fs (encode a.hex b)
  given : blocks fs = blocks es ++ [b]
  served : calls fs = (blocks fs).map some

theorem Flowing.generate {n : Nat} {b : Vector UInt8 n} (hf : Flowing a p u.trace)
    (hq : ask T (.generateRandom n) u = some ((ckrOk, b), v)) :
    Given a u.trace b.toList v.trace := by
  have hp := hf.pending.generate (b := b)
  rw [ask_trace hq]
  exact ⟨lawful_snoc.mpr ⟨hf.lawful, _, hp⟩, hp, by simp [block],
    by simp [block, call, hf.served]⟩

section Given

variable {b rest : List UInt8}

theorem Given.signal {n : Int32} (hg : Given a es b u.trace)
    (hq : ask T .signalCount u = some (n, v)) : Given a es b v.trace := by
  have hp := hg.pending.idle (e := ⟨.signalCount, n⟩) rfl rfl
  rw [ask_trace hq]
  exact ⟨lawful_snoc.mpr ⟨hg.lawful, _, hp⟩, hp, by simpa [block] using hg.given,
    by simpa [block, call] using hg.served⟩

theorem call_of_requested {e : ToolReply} (hr : requested e = none) : call e = none := by
  obtain ⟨q, ans⟩ := e
  cases q <;> first | rfl | cases hr

theorem calls_of_copies {all : List UInt8} (hc : Copies all u v rest) :
    calls v.trace = calls u.trace := by
  obtain ⟨fs, htrace, hfs⟩ := hc.writes
  have hnone : fs.filterMap call = [] :=
    List.filterMap_eq_nil_iff.mpr fun e he => call_of_requested (hfs e he).2
  rw [htrace, calls, List.filterMap_append, hnone, List.append_nil, calls]

/-- However much of it is written, the block is the last. -/
theorem Given.ended (hg : Given a es b u.trace) (hf : Flowing a p es)
    (hgo : a.nTotal < 0 ∨ p < a.nTotal)
    (hc : Copies (encode a.hex (generated u.trace)) u v rest) : Flowed a p v.trace := by
  refine ⟨hc.lawful hg.lawful, ⟨[], ?_, .inl rfl⟩, ?_, ?_⟩
  · rw [calls_of_copies hc, hc.given, hg.served, List.append_nil]
  · rw [hc.given, hg.given, List.dropLast_concat]
    exact hf.last hgo
  · rintro hN rfl
    exact absurd (not_reached hgo hN) (lt_irrefl _)

theorem Given.written (hg : Given a es b u.trace) (hf : Flowing a p es)
    (hgo : a.nTotal < 0 ∨ p < a.nTotal) (hb : b.length = wanted a p)
    (hc : Copies (encode a.hex (generated u.trace)) u v []) :
    Flowing a (p + Int64.ofNat (wanted a p)) v.trace := by
  have hgen : generated v.trace = generated u.trace := congrArg List.flatten hc.given
  have hp := hc.left
  rw [← hgen] at hp
  refine ⟨hc.lawful hg.lawful, hp, ?_, ?_, fun hmore => ?_, fun hN => ?_⟩
  · rw [calls_of_copies hc, hc.given, hg.served]
  · rw [hc.given, hg.given, List.dropLast_concat]
    exact hf.last hgo
  · rw [hc.given, hg.given]
    intro b' hb'
    rcases List.mem_append.mp hb' with hb' | hb'
    · exact hf.last hgo b' hb'
    · rw [List.mem_singleton.mp hb', hb]
      exact wanted_dvd hf hgo hmore
  · obtain ⟨h0, hle, hlen⟩ := hf.count hN
    have he := exact_of_lt h0 (not_reached hgo hN)
    have hadd := he.add
    have hwant := he.want
    have htotal : (generated v.trace).length = (generated es).length + b.length := by
      rw [hgen, generated, hg.given, List.flatten_append, List.length_append, generated]
      simp
    omega

end Given

theorem readStep_flows {y : Int64 ⊕ Int64 × UInt8} (hf : Flowing a p u.trace)
    (hstep : readStep T a p u = some (y, u')) :
    Sum.elim (fun p' => Flowing a p' u'.trace) (fun r => Flowed a r.1 u'.trace) y := by
  obtain ⟨n, v, hq, hstep⟩ := bind_eq_some.mp hstep
  replace hf := hf.signal hq
  split at hstep
  · cases hstep
    exact hf.ended
  split at hstep
  · cases hstep
    exact hf.ended
  rename_i hgo
  have hgo : a.nTotal < 0 ∨ p < a.nTotal := not_not.mp hgo
  obtain ⟨⟨rv, b⟩, v₁, hq, hstep⟩ := bind_eq_some.mp hstep
  dsimp only at hstep
  split at hstep
  · rename_i hrv
    have hfail := hf.failed hgo hrv hq
    obtain ⟨n, v₂, hq', hstep⟩ := bind_eq_some.mp hstep
    replace hfail := hfail.signal hq'
    split at hstep
    · cases hstep
      exact hfail
    · cases hstep
      exact hfail
  rename_i hrv
  rw [not_not.mp hrv] at hq
  have hg := hf.generate hq
  obtain ⟨n, v₂, hq', hstep⟩ := bind_eq_some.mp hstep
  replace hg := hg.signal hq'
  split at hstep
  · cases hstep
    exact hg.ended hf hgo (copies_start hg.pending)
  obtain ⟨res, v₃, hwrite, hstep⟩ := bind_eq_some.mp hstep
  have hleft := writeBlock_leaves (copies_start hg.pending) hwrite
  cases res with
  | ok _ =>
    cases hstep
    exact hg.written hf hgo (by simp) hleft
  | error err =>
    obtain ⟨rest, _, hc⟩ := hleft
    cases err with
    | brokenPipe =>
      cases hstep
      exact hg.ended hf hgo hc
    | _ =>
      cases hstep
      exact hg.ended hf hgo hc

theorem thread_flows {env : H} {y : Int64 ⊕ Int64 × UInt8}
    (hrun : Thread Eq (readStep T a) (.inl 0) ⟨env, []⟩ y v) :
    Sum.elim (fun p' => Flowing a p' v.trace) (fun r => Flowed a r.1 v.trace) y :=
  hrun.keeps (I := fun y (v : ToolWorld H) =>
    Sum.elim (fun p' => Flowing a p' v.trace) (fun r => Flowed a r.1 v.trace) y)
    (flowing_start a) fun _ _ _ _ hf hstep => readStep_flows hf hstep

theorem encode_initial {xs ys : List UInt8} {hex : Bool} (hpre : xs <+: ys) :
    encode hex xs <+: encode hex ys := by
  obtain ⟨zs, rfl⟩ := hpre
  rw [encode_append]
  exact List.prefix_append _ _

/-- What was given to calls that succeeded, but for one at the end, is the chain's output. -/
theorem generated_prefix {rs : List Round} {tail : List (Option (List UInt8))}
    (hgives : Gives (calls es) rs) (hserved : calls es = (blocks es).map some ++ tail)
    (htail : tail = [] ∨ tail = [none])
    (hwhole : ∀ b ∈ (blocks es).dropLast, roundBytes ∣ b.length) :
    generated es <+: outputs rs := by
  rw [hserved] at hgives
  rcases htail with rfl | rfl
  · rw [List.append_nil] at hgives
    rw [generated, (hgives.contiguous hwhole).2]
    exact List.take_prefix _ _
  · generalize hcs : (blocks es).map some ++ [none] = cs at hgives
    cases hgives with
    | nil => simp at hcs
    | call hgives _ =>
      obtain ⟨rfl, _⟩ := List.append_inj' hcs rfl
      rw [generated, (hgives.contiguous hwhole).2, outputs_append]
      exact (List.take_prefix _ _).trans (List.prefix_append _ _)

theorem Pending.eq (hp : Pending a.hex es []) : written es = encode a.hex (generated es) := by
  simpa [Pending] using hp

/-- What `p11rand-read` puts out is what the chain of its session puts out from then on, at any
moment of its run. Nothing of it is left out or repeated, and it takes no more rounds than that. -/
theorem streams_chain {env : H} {y : Int64 ⊕ Int64 × UInt8} (hm : ModuleRun P cfg m w)
    (hs : m.session h = some s) (hc : cfg.useChain = true)
    (hrun : Thread Eq (readStep T a) (.inl 0) ⟨env, []⟩ y v)
    (hatt : Attached P h m w v.trace m' w') : ∃ s' rs, m'.session h = some s' ∧
      Round.Linked s.pool.state rs s'.pool.state ∧ (∀ r ∈ rs, r.Valid P cfg) ∧
      (∀ pre post, v.trace = pre ++ post → written pre <+: encode a.hex (outputs rs)) ∧
      (∀ n : Nat, (∃ p, y = .inl p) ∧ n = (generated v.trace).length ∨
          (∃ rv, y = .inr (a.nTotal, rv)) ∧ n = a.nTotal.toInt →
        rs.length = (n + 31) / 32 ∧ written v.trace = encode a.hex ((outputs rs).take n)) := by
  obtain ⟨_, s', _, hs', _, _, hchain⟩ := hatt.spec hm hs
  obtain ⟨rs, hlink, hvalid, hgives⟩ := hchain hc
  have hflow := thread_flows hrun
  have hend : ∃ p, Flowed a p v.trace := by
    cases y with
    | inl p => exact ⟨p, Flowing.ended hflow⟩
    | inr r => exact ⟨r.1, hflow⟩
  obtain ⟨p, hend⟩ := hend
  have hall : Pending a.hex v.trace [] → calls v.trace = (blocks v.trace).map some →
      rs.length = ((generated v.trace).length + 31) / 32 ∧
        written v.trace = encode a.hex ((outputs rs).take (generated v.trace).length) := by
    intro hp hserved
    rw [hserved] at hgives
    obtain ⟨hlen, hflat⟩ := hgives.contiguous hend.whole
    exact ⟨hlen, by rw [hp.eq, generated, ← hflat]⟩
  refine ⟨s', rs, hs', hlink, hvalid, fun pre post hsplit => ?_, fun n hn => ?_⟩
  · obtain ⟨tail, hserved, htail⟩ := hend.served
    have hgen := generated_prefix hgives hserved htail hend.whole
    have hlawful := hend.lawful
    rw [hsplit] at hlawful hgen
    have hpre : generated pre <+: generated (pre ++ post) := by
      simp [generated, blocks]
    refine List.IsPrefix.trans ?_ (encode_initial (hpre.trans hgen))
    rcases List.eq_nil_or_concat pre with rfl | ⟨pre, e, rfl⟩
    · exact List.nil_prefix
    · rw [List.concat_eq_append] at hlawful ⊢
      obtain ⟨rest, hrest⟩ := (lawful_snoc.mp hlawful.of_append).2
      exact ⟨rest, hrest⟩
  · rcases hn with ⟨⟨p, rfl⟩, rfl⟩ | ⟨⟨rv, rfl⟩, hn⟩
    · have hf : Flowing a p v.trace := hflow
      exact hall hf.pending hf.served
    · have hf : Flowed a a.nTotal v.trace := hflow
      obtain ⟨hp, hserved, hlen⟩ := hf.full (by omega) rfl
      obtain rfl : n = (generated v.trace).length := by omega
      exact hall hp hserved

/-- A module that has one block to give, and a kernel that does what it is asked. -/
def feeding (block : Vector UInt8 32) : ToolHost Unit where
  answer
    | .generateRandom _, e => ((ckrOk, Vector.ofFn fun i => block.toList.getD i 0), e)
    | q, e => Seed.willing.answer q e

theorem ask_feeding (block : Vector UInt8 32) (es : List ToolReply) :
    ask (feeding block) (.generateRandom 32) ⟨(), es⟩ =
      some ((ckrOk, block), ⟨(), es ++ [⟨.generateRandom 32, (ckrOk, block)⟩]⟩) := by
  have heq : (Vector.ofFn fun i : Fin 32 => block.toList.getD i 0) = block := by
    ext i _
    simp
  rw [ask_apply]
  simp only [feeding, heq]

def oneRound : Args := ⟨32, false, true, "p11rand.so"⟩

/-- What the tool asks for when it is to put out a block of that size. -/
def exchanges (block : Vector UInt8 32) : List ToolReply := [⟨.signalCount, (0 : Int32)⟩,
  ⟨.generateRandom 32, (ckrOk, block)⟩, ⟨.signalCount, (0 : Int32)⟩,
  ⟨.writeOut block.toList, .ok (Fin.last _)⟩, ⟨.signalCount, (0 : Int32)⟩]

theorem writeFull_feeding (block : Vector UInt8 32) (es : List ToolReply) :
    writeFull (feeding block) block.toList ⟨(), es⟩ =
      some (.ok (), ⟨(), es ++ [⟨.writeOut block.toList, .ok (Fin.last _)⟩]⟩) := by
  have hne : ¬ block.toList.isEmpty = true := by
    rw [List.isEmpty_iff_length_eq_zero]
    simp
  have hfirst : writeFullStep (feeding block) block.toList ⟨(), es⟩ =
      some (.inl [], ⟨(), es ++ [⟨.writeOut block.toList, .ok (Fin.last _)⟩]⟩) := by
    unfold writeFullStep
    rw [if_neg hne, bind_of_eq (ask_apply _ _)]
    simp [feeding, Seed.willing, Fin.last]
  exact (loop_of_inl hfirst).trans (loop_of_inr rfl)

theorem run_feeding (block : Vector UInt8 32) : Thread Eq (readStep (feeding block) oneRound)
    (.inl 0) ⟨(), []⟩ (.inr (32, 0)) ⟨(), exchanges block⟩ := by
  have hgive : ask (feeding block) (.generateRandom (wanted oneRound 0))
      ⟨(), [⟨.signalCount, (0 : Int32)⟩]⟩ = some ((ckrOk, block), _) := ask_feeding block _
  have hstep := readStep_of_write (a := oneRound) (p := 0) (w := ⟨(), []⟩) rfl (by decide) hgive rfl
    (writeFull_feeding block _)
  exact .step rfl hstep (.step rfl rfl (.idle rfl))

/-- The first of two sessions gives that block. -/
theorem attached_pair (trace : List Exchange) : ∃ (m : Module) (w : World Unit),
    Attached Bench.generators.machine 1 (Bench.pairModule 2) (Bench.idle trace)
      ((exchanges Bench.pairRound.out).take 2) m w := by
  obtain ⟨m, w, _, hgen⟩ := Bench.cGenerateRandom_pair 1 trace
  have hsignal : Attached Bench.generators.machine 1 (Bench.pairModule 2) (Bench.idle trace)
      [⟨.signalCount, (0 : Int32)⟩] (Bench.pairModule 2) (Bench.idle trace) := .other .start rfl
  have hgiven : Attached Bench.generators.machine 1 (Bench.pairModule 2) (Bench.idle trace)
      ([⟨.signalCount, (0 : Int32)⟩] ++ [⟨.generateRandom 32, (ckrOk, Bench.pairRound.out)⟩]) m w :=
    hsignal.generated List.length_replicate (by decide) hgen (by simp)
  exact ⟨m, w, hgiven⟩

theorem streams_chain_pair : ∃ (m : Module) (s : Session) (rs : List Round),
    m.session 1 = some s ∧ Round.Linked zeroDigest rs s.pool.state ∧
    (∀ r ∈ rs, r.Valid Bench.generators.machine Bench.pair) ∧ rs.length = 1 ∧
    Bench.pairRound.out.toList = (outputs rs).take 32 := by
  obtain ⟨trace, hrun⟩ := Bench.run_pairModule
  obtain ⟨m, w, hgiven⟩ := attached_pair trace
  have hatt := ((hgiven.other (e := ⟨.signalCount, (0 : Int32)⟩) rfl).other
    (e := ⟨.writeOut Bench.pairRound.out.toList, .ok (Fin.last _)⟩) rfl).other
    (e := ⟨.signalCount, (0 : Int32)⟩) rfl
  obtain ⟨s, rs, hs, hlink, hvalid, _, hall⟩ :=
    streams_chain hrun.run rfl rfl (run_feeding Bench.pairRound.out) hatt
  obtain ⟨hlen, hwritten⟩ := hall 32 (.inr ⟨⟨0, rfl⟩, rfl⟩)
  have hout : written (exchanges Bench.pairRound.out) = Bench.pairRound.out.toList := by
    simp [exchanges, written, accepted]
  rw [hout] at hwritten
  exact ⟨m, s, rs, hs, hlink, hvalid, hlen, hwritten⟩

end Read

namespace Seed

variable {v : ToolWorld H} {a : Args}

/-- The seeder never has the kernel count more than the sources have put in: for each 256 bits that
are credited they gave all the bytes of a round, and so never less than 32. What it submits are the
outputs of the chain, each at most once. -/
theorem credit_backed {parseF64 : String → Option F64} {argv : List String} {env : H}
    {y : Seeder ⊕ Exit} (hm : ModuleRun P cfg m w) (hs : m.session h = some s)
    (hparse : parse parseF64 argv = .ok a)
    (hrun : Thread Eq (seedStep T) (.inl (.start a)) ⟨env, []⟩ y v)
    (hatt : Attached P h m w v.trace m' w') : ∃ evs, w'.log = w.log ++ evs ∧
      cfg.roundInput * (v.trace.map creditedBits).sum ≤ 256 * sourced evs ∧
      (v.trace.map creditedBits).sum ≤ 8 * sourced evs ∧
      (cfg.useChain = true → ∃ s' rs, m'.session h = some s' ∧
        Round.Linked s.pool.state rs s'.pool.state ∧ (∀ r ∈ rs, r.Valid P cfg) ∧
        Gives (calls v.trace) rs) := by
  obtain ⟨_, s', evs, hs', hlog, hfresh, hchain⟩ := hatt.spec hm hs
  obtain ⟨_, hn⟩ := parse_nbytes hparse
  have hholds : Holds a y v.trace :=
    hrun.keeps (I := fun y (v : ToolWorld H) => Holds a y v.trace) (inv_start a)
      fun s v y v' hs hstep => seedStep_holds hn hs hstep
  have hlawful : Lawful (Legal a) v.trace := by
    cases y with
    | inl s => exact hholds.lawful
    | inr _ => exact hholds
  have hcredit := (credited_le hlawful).1
  have hinput := Config.le_roundInput (hm.sessions s (session_mem hs)).valid
  have hfresh' : (cfg.roundInput : Int) * (v.trace.map freshBytes).sum ≤ 32 * sourced evs := by
    exact_mod_cast hfresh
  refine ⟨evs, hlog, ?_, ?_, fun hc => ?_⟩
  · calc (cfg.roundInput : Int) * (v.trace.map creditedBits).sum
        ≤ cfg.roundInput * (8 * (v.trace.map freshBytes).sum) :=
          mul_le_mul_of_nonneg_left hcredit (by positivity)
      _ = 8 * (cfg.roundInput * (v.trace.map freshBytes).sum) := by ring
      _ ≤ 256 * sourced evs := by omega
  · have hfloor : (32 : Int) * (v.trace.map freshBytes).sum ≤
        cfg.roundInput * (v.trace.map freshBytes).sum := by
      exact_mod_cast Nat.mul_le_mul_right _ hinput
    omega
  · obtain ⟨rs, hlink, hvalid, hgives⟩ := hchain hc
    exact ⟨s', rs, hs', hlink, hvalid, hgives⟩

/-- A seeder that inserts 32 bytes at a time. -/
def smallArgs : Args := { plainArgs with nbytes := 32 }

theorem parse_small :
    parse (fun _ => none) ["p11rand-seed", "-n", "32", "p11rand.so"] = .ok smallArgs := rfl

/-- What it does in a pass in which the kernel takes a block and refuses to reseed. -/
def insertion (block : Vector UInt8 32) : List ToolReply := [⟨.signalCount, (0 : Int32)⟩,
  ⟨.generateRandom 32, (ckrOk, block)⟩, ⟨.addEntropy ⟨256, 32⟩ block.toList, .ok ()⟩,
  ⟨.reseedCrng, .error eperm⟩, ⟨.now, (0 : Nat)⟩]

theorem seedStep_feeding (block : Vector UInt8 32) : ∃ y,
    seedStep (Read.feeding block) (.start smallArgs) ⟨(), []⟩ =
      some (y, ⟨(), insertion block⟩) := by
  have hgive := Read.ask_feeding block [⟨.signalCount, (0 : Int32)⟩]
  exact ⟨_, (bind_of_eq (x := ask (Read.feeding block) ToolRequest.signalCount) rfl).trans
    ((bind_of_eq (x := ask (Read.feeding block) (ToolRequest.generateRandom 32)) hgive).trans rfl)⟩

theorem credit_backed_pair : ∃ (w w' : World Unit) (evs : List PoolEvent),
    w'.log = w.log ++ evs ∧ Bench.pair.roundInput * (256 : Int) ≤ 256 * sourced evs ∧
    (256 : Int) ≤ 8 * sourced evs := by
  obtain ⟨trace, hrun⟩ := Bench.run_pairModule
  obtain ⟨m, w, hgiven⟩ := Read.attached_pair trace
  have hatt := ((hgiven.other
    (e := ⟨.addEntropy ⟨256, 32⟩ Bench.pairRound.out.toList, .ok ()⟩) rfl).other
    (e := ⟨.reseedCrng, .error eperm⟩) rfl).other (e := ⟨.now, (0 : Nat)⟩) rfl
  obtain ⟨y, hstep⟩ := seedStep_feeding Bench.pairRound.out
  obtain ⟨evs, hlog, hround, hbits, _⟩ := credit_backed hrun.run rfl parse_small
    (.step rfl hstep (.idle rfl)) hatt
  exact ⟨_, w, evs, hlog, hround, hbits⟩

end Seed
end P11Rand.Tools
