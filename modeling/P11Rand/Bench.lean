import P11Rand.Pool.Healing
import P11Rand.Pool.Snapshot

/-! A bench of devices that answer from a table, without a state of their own: what the results
about pools assume of a machine can be met. -/
namespace P11Rand

open Effect Run

/-- `file` is what opening a path gives, `data` what reading so many bytes from a file gives. -/
structure Bench where
  readers : List String
  nodes : List (List UInt8)
  file : String → Option Nat
  data : Nat → Nat → ReadAnswer
  sha3_256 : List UInt8 → Digest

namespace Bench

variable {b : Bench} {w w' : World Unit} {cfg : Config}

/-- A card answers with as many bytes as it is asked for. -/
def answer (b : Bench) : (q : Request) → q.Answer
  | .establish => .ok ⟨0⟩
  | .releaseContext _ => ()
  | .listReadersLen _ => .ok 64
  | .listReaders _ _ => .ok b.readers
  | .connect _ _ => .ok 0
  | .transmit _ apdu => .ok (List.replicate (apdu.getLastD 0).toNat 0x5A ++ [0x90, 0x00])
  | .disconnect _ _ => .ok ()
  | .readDir => .ok (b.nodes.map some)
  | .openFile path => b.file path
  | .readFile file len => b.data file len

def machine (b : Bench) : Platform Unit where
  answer q e := (b.answer q, e)
  sha3_256 := b.sha3_256

/-- A process that has just started on the bench, with or without a PC/SC context. -/
def start (ctx : Option Context) : World Unit :=
  ⟨(), fun _ => 0, ⟨ctx, if ctx.isSome then 1 else 0⟩, [], []⟩

def paths (b : Bench) : List String :=
  ((b.nodes.filterMap Infnoise.nodeOf).insertionSort fun x y => x.1 ≤ y.1).map Prod.snd

theorem answer_eq {q : Request} {ans : q.Answer} {w w' : World Unit}
    (h : request b.machine q w = some (ans, w')) : ans = b.answer q :=
  (congrArg Prod.fst (request_eq_some h).1).symm

theorem list_infnoise (b : Bench) (w : World Unit) :
    Yields (SlotKind.infnoise.list b.machine) w fun res _ => res = .ok b.paths := by
  refine ⟨_, _, rfl, ?_⟩
  simp [Except.mapError, paths]

theorem list_iso7816 {ctx : Context} (hc : w.global.ctx = some ctx) :
    Yields (SlotKind.iso7816.list b.machine) w fun res _ => res = .ok b.readers := by
  have hlist : Yields (Iso7816.listReaders b.machine) w fun res _ => res = .ok b.readers := by
    simp only [Iso7816.listReaders, Iso7816.withContext, Yields, bind_apply, get_apply,
      Option.bind_some, hc]
    exact ⟨_, _, rfl, rfl⟩
  obtain ⟨res, w', h, rfl⟩ := hlist
  exact ⟨_, w', bind_of_eq h, rfl⟩

theorem dupFree (hr : b.readers.Nodup) (hn : b.paths.Nodup) : b.machine.DupFree := by
  intro kind w names w' h
  cases kind with
  | infnoise =>
    obtain ⟨res, v, hl, rfl⟩ := list_infnoise b w
    rw [h] at hl
    cases hl
    exact hn
  | iso7816 =>
    cases hc : w.global.ctx with
    | none =>
      obtain ⟨res, v, hl, h⟩ := bind_eq_some.mp h
      rcases Iso7816.withContext_cases hl with ⟨_, rfl, _⟩ | ⟨ctx, hctx, _⟩
      · cases h
      · rw [hc] at hctx
        cases hctx
    | some ctx =>
      obtain ⟨res, v, hl, rfl⟩ := list_iso7816 (b := b) hc
      rw [h] at hl
      cases hl
      exact hr

theorem open_infnoise {path : String} {file : Nat} (h : b.file path = some file)
    (w : World Unit) : Yields (SlotKind.infnoise.openSource b.machine path) w fun src _ =>
      src = some (.infnoise ⟨file, path⟩) := by
  have hopen : Yields (Infnoise.openSource b.machine path) w fun src _ =>
      src = .ok ⟨file, path⟩ := by
    simp [Infnoise.openSource, Yields, bind_apply, request_apply, machine, answer, h]
  obtain ⟨src, w', hsrc, rfl⟩ := hopen
  exact ⟨_, w', bind_of_eq hsrc, rfl⟩

theorem open_absent {path : String} (h : b.file path = none) (w : World Unit) :
    Yields (SlotKind.infnoise.openSource b.machine path) w fun src _ => src = none := by
  have hopen : Yields (Infnoise.openSource b.machine path) w fun src _ =>
      src = .error .noDevice := by
    simp [Infnoise.openSource, Yields, bind_apply, request_apply, machine, answer, h]
  obtain ⟨src, w', hsrc, rfl⟩ := hopen
  exact ⟨_, w', bind_of_eq hsrc, rfl⟩

/-- The generators of a bench. -/
def snapshot (b : Bench) : Snapshot where
  listing := some b.paths
  opens path := (b.file path).isSome

theorem snapshot_of (b : Bench) (w : World Unit) : b.snapshot.Of b.machine .infnoise w := by
  constructor
  · intro v _
    obtain ⟨res, v', hl, rfl⟩ := b.list_infnoise v
    exact ⟨_, v', hl, rfl⟩
  · intro names _ name _ v _
    cases hf : b.file name with
    | none =>
      obtain ⟨src, v', hsrc, rfl⟩ := open_absent hf v
      exact ⟨_, v', hsrc, by simp [snapshot, hf]⟩
    | some file =>
      obtain ⟨src, v', hsrc, rfl⟩ := open_infnoise hf v
      exact ⟨_, v', hsrc, by simp [snapshot, hf]⟩

theorem patient (h : ∀ file len, b.data file len ≠ .interrupted) (e : Unit) :
    b.machine.Patient e := by
  rintro e' _
  refine ⟨_, ?_⟩
  rintro e'' ⟨file, len, hi⟩
  exact (h file len (congrArg Prod.fst hi)).elim

/-- The file has bytes to give whenever it is asked for some. -/
def Ready (b : Bench) (file : Nat) : Prop :=
  ∀ len, 0 < len → ∃ bytes, b.data file len = .data bytes ∧ bytes ≠ []

theorem serves {file : Nat} (hp : ∀ file len, b.data file len ≠ .interrupted) (hr : b.Ready file)
    (path : String) (w : World Unit) : Serves b.machine (.infnoise ⟨file, path⟩) w := by
  intro buf
  obtain ⟨o, w', h⟩ := SlotInner.read_returns (b.patient hp _) (.infnoise ⟨file, path⟩) buf
  refine ⟨o, w', h, ?_⟩
  rw [SlotInner.read_eq_loop] at h
  refine loop_keeps (fun y _ => SlotInner.EndsWith (.infnoise ⟨file, path⟩) true y) h rfl ?_
  rintro ⟨src, done, rest⟩ v y v' rfl hs
  obtain ⟨z, u, hz, hs⟩ := bind_eq_some.mp hs
  cases hs
  rcases Infnoise.readStep_cases hz with ⟨_, rfl, rfl⟩ | ⟨hrest, ans, hq, hans⟩
  · rfl
  · obtain ⟨bytes, hdata, hne⟩ := hr rest.length (List.length_pos_iff.mpr hrest)
    obtain rfl : ans = .data bytes := (answer_eq hq).trans hdata
    rcases hans with ⟨_, _, _, rfl⟩ | ⟨h, _⟩ | ⟨h, _⟩ | ⟨_, h, _⟩
    · rfl
    · cases h
      exact (hne rfl).elim
    · cases h
    · cases h

/-- Generators that all open and have bytes are a supply of as many. -/
theorem supplied_generators {n : Nat} (hn : b.paths.Nodup) (hle : n ≤ b.paths.length)
    (hopen : ∀ path ∈ b.paths, ∃ file, b.file path = some file ∧ b.Ready file)
    (hp : ∀ file len, b.data file len ≠ .interrupted) (w : World Unit) :
    Supplied b.machine w .infnoise n b.paths b.paths := by
  refine ⟨hn, fun v _ => list_infnoise b v, fun _ hm hnm => absurd hm hnm, fun name hm v _ => ?_,
    .refl _, hle⟩
  obtain ⟨file, hfile, hready⟩ := hopen name hm
  obtain ⟨src, v', hsrc, rfl⟩ := open_infnoise hfile v
  exact ⟨_, v', hsrc, _, rfl, fun u _ => serves hp hready name u⟩

theorem open_card {name : String} (hname : name.toList.contains (Char.ofNat 0) = false)
    (hc : w.global.ctx.isSome = true) :
    Yields (SlotKind.iso7816.openSource b.machine name) w fun src _ =>
      src = some (.iso7816 ⟨⟨name, 0⟩, .none, 128⟩) := by
  obtain ⟨env, sched, ⟨ctx, refs⟩, trace, log⟩ := w
  obtain ⟨c, rfl⟩ := Option.isSome_iff_exists.mp hc
  have hopen : Yields (Iso7816.openSource b.machine name) ⟨env, sched, ⟨some c, refs⟩, trace, log⟩
      fun res _ => res = .ok ⟨⟨name, 0⟩, .none, 128⟩ := by
    unfold Iso7816.openSource
    rw [hname]
    exact ⟨_, _, rfl, rfl⟩
  obtain ⟨src, w', hsrc, rfl⟩ := hopen
  exact ⟨_, w', bind_of_eq hsrc, rfl⟩

/-- A card accepts every challenge. -/
theorem accepted_challenge {c : Card} {n : Nat} (hle : n ≤ 255) :
    ∃ resp, b.answer (.transmit c (Iso7816.challengeApdu n)) = .ok resp ∧
      Iso7816.Accepted n resp := by
  refine ⟨List.replicate n 0x5A ++ [0x90, 0x00], ?_, ?_, ?_⟩
  · have hbyte : n % 256 = n := by omega
    simp [answer, Iso7816.challengeApdu, hbyte]
  · simp [Iso7816.swOf]
  · simp [Iso7816.bodyOf]

theorem serves_card {src : Iso7816.Source} (hpos : 0 < src.maxChunk) (hle : src.maxChunk ≤ 255)
    (hp : ∀ file len, b.data file len ≠ .interrupted) (w : World Unit) :
    Serves b.machine (.iso7816 src) w := by
  intro buf
  obtain ⟨o, w', h⟩ := SlotInner.read_returns (b.patient hp _) (.iso7816 src) buf
  refine ⟨o, w', h, ?_⟩
  rw [SlotInner.read_eq_loop] at h
  refine loop_keeps (fun y _ => SlotInner.EndsWith (.iso7816 src) true y) h rfl ?_
  rintro ⟨_, done, rest⟩ v y v' rfl hs
  obtain ⟨z, u, hz, hs⟩ := bind_eq_some.mp hs
  cases hs
  obtain ⟨resp, hresp, hacc⟩ := accepted_challenge (b := b) (c := src.card) hle
  rcases Iso7816.readStep_cases hz with ⟨_, rfl, _⟩ | ⟨_, hzero, _⟩ | ⟨_, _, ans, hq, hans⟩
  · rfl
  · exact absurd hzero hpos.ne'
  · obtain rfl : ans = .ok resp := (answer_eq hq).trans hresp
    rcases hans with ⟨_, h, _⟩ | ⟨_, _, _, rfl⟩ | ⟨_, h, hrej, _⟩
    · cases h
    · rfl
    · cases h
      exact absurd hacc hrej

theorem supplied_cards {n : Nat} (hn : b.readers.Nodup) (hle : n ≤ b.readers.length)
    (hname : ∀ name ∈ b.readers, name.toList.contains (Char.ofNat 0) = false)
    (hp : ∀ file len, b.data file len ≠ .interrupted) (hc : w.global.ctx.isSome = true) :
    Supplied b.machine w .iso7816 n b.readers b.readers := by
  have hlater : ∀ {v : World Unit}, Later b.machine w v → v.global.ctx.isSome = true := by
    intro v hv
    rw [hv.global]
    exact hc
  refine ⟨hn, fun v hv => ?_, fun _ hm hnm => absurd hm hnm, fun name hm v hv => ?_, .refl _, hle⟩
  · obtain ⟨ctx, hctx⟩ := Option.isSome_iff_exists.mp (hlater hv)
    exact list_iso7816 hctx
  · obtain ⟨src, v', hsrc, rfl⟩ := open_card (b := b) (hname name hm) (hlater hv)
    exact ⟨_, v', hsrc, _, rfl, fun u _ => serves_card (Nat.zero_lt_succ _) (by simp) hp u⟩

/-- What the first round over two generators hashes under a tag, if they give these bytes. -/
def inputOf (x y tag : UInt8) : List UInt8 :=
  zeros 32 ++ [tag] ++ List.replicate 32 x ++ List.replicate 32 y

def firstInput (tag : UInt8) : List UInt8 := inputOf 0xA5 0xA6 tag

/-- SHA3-256 on the first inputs of two generators, whichever gives which of the two bytes. -/
def sha3_256_inputs (input : List UInt8) : Digest :=
  if input = firstInput 0x11 then
    #v[0xf9, 0x17, 0x8b, 0x82, 0xb8, 0xd8, 0xdd, 0xe2, 0x4d, 0xfb, 0x8f, 0xbc, 0xe4, 0xc0, 0xc3,
      0x3b, 0x73, 0xe4, 0x5c, 0x70, 0x00, 0xfb, 0x6a, 0x72, 0xb3, 0x58, 0xe5, 0xb3, 0x08, 0x88,
      0xeb, 0x24]
  else if input = firstInput 0x00 then
    #v[0x50, 0x53, 0x9c, 0xf2, 0xa3, 0xd0, 0x21, 0x29, 0xbc, 0xcd, 0xe0, 0x85, 0x35, 0x92, 0x9f,
      0x5c, 0x95, 0x71, 0xdf, 0xe3, 0x3a, 0x5d, 0xb0, 0x58, 0x1c, 0xb4, 0xe8, 0xbc, 0xc3, 0x76,
      0x7f, 0xb9]
  else if input = inputOf 0xA6 0xA5 0x11 then
    #v[0x31, 0x97, 0x97, 0x8e, 0x2b, 0x4b, 0xd8, 0x31, 0xe0, 0x05, 0x36, 0xdc, 0x7f, 0x36, 0xa8,
      0x57, 0xbe, 0x6f, 0x7e, 0x94, 0xad, 0x0c, 0x96, 0x41, 0x54, 0x54, 0x73, 0x71, 0x27, 0xa5,
      0x1c, 0x3e]
  else if input = inputOf 0xA6 0xA5 0x00 then
    #v[0xa3, 0x6a, 0xe5, 0xb4, 0x86, 0x1e, 0x50, 0x7e, 0xd2, 0xb4, 0x06, 0xef, 0x44, 0x71, 0x28,
      0x26, 0x9a, 0x18, 0xa8, 0x6d, 0xca, 0xfb, 0x33, 0x40, 0x52, 0x86, 0x81, 0x2d, 0xc6, 0xac,
      0x76, 0xd5]
  else zeroDigest

/-- Two generators that give a byte each. -/
def giving (x y : UInt8) : Bench where
  readers := []
  nodes := [Infnoise.asciiBytes "infnoise0", Infnoise.asciiBytes "infnoise1"]
  file path := if path = "/dev/infnoise0" then some 0 else some 1
  data file len := .data (List.replicate len (if file = 0 then x else y))
  sha3_256 := sha3_256_inputs

def generators : Bench := giving 0xA5 0xA6

/-- One tick of each of two generators. -/
def pair : Config := ⟨0, 2, 32, 32⟩

/-- One generator, not oversampled. -/
def single : Config := ⟨0, 1, 32, 32⟩

theorem paths_generators : generators.paths = ["/dev/infnoise0", "/dev/infnoise1"] := by decide

theorem ready_generators (file : Nat) : generators.Ready file := by
  intro len hlen
  refine ⟨_, rfl, ?_⟩
  simp
  omega

theorem opens_generators (path : String) :
    ∃ file, generators.file path = some file ∧ generators.Ready file := by
  by_cases h : path = "/dev/infnoise0"
  · exact ⟨0, by simp [generators, giving, h], ready_generators 0⟩
  · exact ⟨1, by simp [generators, giving, h], ready_generators 1⟩

theorem plenty_generators (hiso : cfg.iso7816Cards = 0) (hle : cfg.infnoiseDevices ≤ 2)
    (w : World Unit) : Plenty generators.machine w cfg := by
  intro kind hk
  cases kind with
  | iso7816 => exact absurd hk (by simp [Config.count, hiso])
  | infnoise =>
    exact ⟨_, _, supplied_generators (b := generators) (by decide) hle
      (fun path _ => opens_generators path) (by simp [generators, giving]) w⟩

theorem dupFree_generators : generators.machine.DupFree := dupFree (by decide) (by decide)

theorem patient_generators (e : Unit) : generators.machine.Patient e :=
  patient (by simp [generators, giving]) e

/-- The pool of the two, freshly opened. -/
def pairPool : Pool where
  config := pair
  slots := [⟨.infnoise, some "/dev/infnoise0", .infnoise ⟨0, "/dev/infnoise0"⟩⟩,
    ⟨.infnoise, some "/dev/infnoise1", .infnoise ⟨1, "/dev/infnoise1"⟩⟩]
  state := zeroDigest

/-- The first round of that pool, if the generators give these bytes. -/
def roundOf (x y : UInt8) : Round where
  state := zeroDigest
  events :=
    [.fetch 0 0 (some "/dev/infnoise0") true (List.replicate 32 x),
      .fetch 0 1 (some "/dev/infnoise1") true (List.replicate 32 y),
      .absorb 0 0 (List.replicate 32 x), .absorb 0 1 (List.replicate 32 y)]
  out := sha3_256_inputs (inputOf x y 0x11)
  next := sha3_256_inputs (inputOf x y 0x00)

def pairRound : Round := roundOf 0xA5 0xA6

section Giving

variable {x y : UInt8}

theorem open_giving :
    ∃ w, w.sched = (fun _ => 0) ∧ w.log = [] ∧
      Pool.open (giving x y).machine pair (start none) = some (.ok pairPool, w) :=
  ⟨_, rfl, rfl, rfl⟩

theorem interleave_giving (hs : w.sched = fun _ => 0) : ∃ w', w'.log = w.log ∧
    interleave (SlotInner.readStep (giving x y).machine) choose
        (pairPool.slots.mapIdx (Pool.worker pairPool.config 0)) w =
      some ([⟨.ok (), .infnoise ⟨0, "/dev/infnoise0"⟩, List.replicate 32 x, []⟩,
        ⟨.ok (), .infnoise ⟨1, "/dev/infnoise1"⟩, List.replicate 32 y, []⟩], w') := by
  obtain ⟨env, sched, global, trace, log⟩ := w
  obtain rfl : sched = fun _ => 0 := hs
  -- each worker reads once and then finds its buffer full
  refine ⟨_, ?_, (interleave_step rfl rfl rfl rfl).trans <|
    (interleave_step rfl rfl rfl rfl).trans <| (interleave_step rfl rfl rfl rfl).trans <|
    (interleave_step rfl rfl rfl rfl).trans (interleave_of_finished rfl)⟩
  rfl

theorem fanOut_giving (hs : w.sched = fun _ => 0) : ∃ w',
    w'.log = w.log ++ (roundOf x y).events.take 2 ∧
    pairPool.fanOut (giving x y).machine 0 w =
      some (([some (List.replicate 32 x), some (List.replicate 32 y)], pairPool), w') := by
  obtain ⟨v, hlog, hv⟩ := interleave_giving hs
  refine ⟨{ v with log := v.log ++ (roundOf x y).events.take 2 }, by simp [hlog], ?_⟩
  unfold Pool.fanOut
  rw [bind_of_eq (x := interleave _ _ _) hv, bind_of_eq (join_apply v)]
  rfl

theorem doRoundChain_giving (hs : w.sched = fun _ => 0) : ∃ w',
    w'.log = w.log ++ (roundOf x y).log ∧
    pairPool.doRoundChain (giving x y).machine zeroDigest w =
      some ((.ok (), { pairPool with state := (roundOf x y).next }, (roundOf x y).out), w') := by
  obtain ⟨v, hlog, hf⟩ :=
    fanOut_giving (x := x) (y := y) (w := { w with log := w.log ++ [.start zeroDigest] }) hs
  have ht : Pool.ticksFrom (giving x y).machine 2 [0] pairPool (Pool.freshHashes zeroDigest)
      { w with log := w.log ++ [.start zeroDigest] } =
        some ((.ok ((Pool.freshHashes zeroDigest).update (entropy (roundOf x y).events)), pairPool),
          { v with log := v.log ++ [.absorb 0 0 (List.replicate 32 x)] ++
            [.absorb 0 1 (List.replicate 32 y)] }) := by
    unfold Pool.ticksFrom
    rw [bind_of_eq hf]
    rfl
  refine ⟨{ v with log := v.log ++ [.absorb 0 0 (List.replicate 32 x)] ++
    [.absorb 0 1 (List.replicate 32 y)] ++ [.round (roundOf x y).out (roundOf x y).next] },
    by simp [hlog, Round.log, roundOf], ?_⟩
  unfold Pool.doRoundChain
  rw [bind_of_eq (emit_apply _ _)]
  exact bind_of_eq ht

/-- Its first read, of one round. -/
theorem read_giving (hs : w.sched = fun _ => 0) : ∃ w',
    w'.log = w.log ++ delivery [roundOf x y] 32 ∧
    pairPool.read (giving x y).machine (zeros 32) w =
      some ((.ok (), { pairPool with state := (roundOf x y).next }, (roundOf x y).out.toList),
        w') := by
  obtain ⟨v, hlog, hr⟩ := doRoundChain_giving (x := x) (y := y) hs
  refine ⟨{ v with log := v.log ++ [.copy (roundOf x y).out.toList] },
    by simp [hlog, delivery], ?_⟩
  have hc : pairPool.readChain (giving x y).machine zeroDigest [] (zeros 32) w =
      some ((.ok (), { pairPool with state := (roundOf x y).next }, zeroDigest,
        (roundOf x y).out.toList),
        { v with log := v.log ++ [.copy (roundOf x y).out.toList] }) := by
    rw [Pool.readChain, if_neg (by decide), bind_of_eq hr]
    dsimp only
    have htake : (roundOf x y).out.toList.take (min (zeros 32).length roundBytes) =
        (roundOf x y).out.toList := List.take_of_length_le (by simp [zeros, roundBytes])
    rw [htake, bind_of_eq (emit_apply _ _), Pool.readChain, if_pos (by decide)]
    rfl
  unfold Pool.read
  exact bind_of_eq hc

/-- A life of that pool: opened, and read from once. -/
theorem run_giving (x y : UInt8) : ∃ w w', PoolRun (giving x y).machine pair pairPool w ∧
    w'.log = delivery [roundOf x y] 32 ∧ pairPool.read (giving x y).machine (zeros 32) w =
      some ((.ok (), { pairPool with state := (roundOf x y).next }, (roundOf x y).out.toList),
        w') := by
  obtain ⟨w, hs, hlog, hopen⟩ := open_giving (x := x) (y := y)
  obtain ⟨w', hlog', hread⟩ := read_giving (x := x) (y := y) hs
  exact ⟨w, w', .opened rfl hopen, by simp [hlog', hlog], hread⟩

end Giving

theorem read_pair (hs : w.sched = fun _ => 0) : ∃ w',
    w'.log = w.log ++ delivery [pairRound] 32 ∧ pairPool.read generators.machine (zeros 32) w =
      some ((.ok (), { pairPool with state := pairRound.next }, pairRound.out.toList), w') :=
  read_giving hs

theorem run_pair : ∃ w w', PoolRun generators.machine pair pairPool w ∧
    w'.log = delivery [pairRound] 32 ∧ pairPool.read generators.machine (zeros 32) w =
      some ((.ok (), { pairPool with state := pairRound.next }, pairRound.out.toList), w') :=
  run_giving 0xA5 0xA6

theorem completed_pair : completed (delivery [pairRound] 32) = [pairRound] := rfl

/-- A pool of the first of the two. -/
def singlePool : Pool where
  config := single
  slots := [⟨.infnoise, some "/dev/infnoise0", .infnoise ⟨0, "/dev/infnoise0"⟩⟩]
  state := zeroDigest

theorem open_single :
    ∃ w, Pool.open generators.machine single (start none) = some (.ok singlePool, w) := ⟨_, rfl⟩

/-- Any pool on the generators can be read from. -/
theorem read_generators {p : Pool} (hrun : PoolRun generators.machine cfg p w)
    (hiso : cfg.iso7816Cards = 0) (hle : cfg.infnoiseDevices ≤ 2) (buf : List UInt8) :
    ∃ p' buf' w', p.read generators.machine buf w = some ((.ok (), p', buf'), w') := by
  have hh := hrun.history
  exact Pool.read_heals (plenty_generators hiso hle w) (patient_generators _) hh.valid hh.config
    hh.slots buf

end Bench
end P11Rand
