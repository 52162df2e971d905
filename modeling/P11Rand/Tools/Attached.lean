import P11Rand.Sessions
import P11Rand.Ticks
import P11Rand.Tools.Crediting
import P11Rand.Tools.Stream

/-! The module under a tool: what a session of it answers the tool's requests for random bytes. -/
namespace P11Rand

open Effect Run

variable {W : Type} {P : Platform W} {w w' : World W} {cfg : Config} {m m' : Module}
  {p p' : Pool} {buf buf' : List UInt8} {res : Except Error Unit} {evs : List PoolEvent}

/-- The bytes of sources that went into what a caller was given. -/
def PoolEvent.sourced : PoolEvent → Nat
  | .absorb _ _ block => block.length
  | .pass _ true filled => filled.length
  | _ => 0

def sourced (evs : List PoolEvent) : Nat := (evs.map PoolEvent.sourced).sum

@[simp] theorem sourced_nil : sourced [] = 0 := rfl

@[simp] theorem sourced_append (evs evs' : List PoolEvent) :
    sourced (evs ++ evs') = sourced evs + sourced evs' := by
  simp [sourced]

/-- A source that is not conditioned gives each byte that is delivered. -/
theorem Config.roundInput_passthrough (hv : cfg.validate = .ok ()) (hc : cfg.useChain = false) :
    cfg.roundInput = roundBytes := by
  obtain ⟨hpos, hkinds⟩ := validate_iff.mp hv
  have hiso := hkinds .iso7816
  have hinf := hkinds .infnoise
  rw [← Bool.not_eq_true, useChain_iff] at hc
  simp only [poolSize, count, inputBytes] at hpos hc hiso hinf
  unfold roundInput roundBytes
  rcases Nat.eq_zero_or_pos cfg.iso7816Cards with hzero | hcard
  · obtain ⟨hle, _⟩ := hinf (by omega)
    have hone : cfg.infnoiseDevices = 1 := by omega
    rw [hzero, hone]
    omega
  · obtain ⟨hle, _⟩ := hiso hcard
    have hone : cfg.iso7816Cards = 1 := by omega
    have hnone : cfg.infnoiseDevices = 0 := by omega
    rw [hone, hnone]
    omega

theorem Config.le_roundInput (hv : cfg.validate = .ok ()) : roundBytes ≤ cfg.roundInput := by
  obtain ⟨hpos, hkinds⟩ := validate_iff.mp hv
  have hiso := hkinds .iso7816
  have hinf := hkinds .infnoise
  simp only [poolSize, count, inputBytes] at hpos hiso hinf
  unfold roundInput roundBytes
  rcases Nat.eq_zero_or_pos cfg.iso7816Cards with hzero | hcard
  · obtain ⟨hle, _⟩ := hinf (by omega)
    have hmul := Nat.mul_le_mul (show 1 ≤ cfg.infnoiseDevices by omega) hle
    omega
  · obtain ⟨hle, _⟩ := hiso hcard
    have hmul := Nat.mul_le_mul hcard hle
    omega

theorem length_entropy_le (evs : List PoolEvent) : (entropy evs).length ≤ sourced evs := by
  induction evs with
  | nil => rfl
  | cons ev evs ih =>
    have hcons : ∀ l : List PoolEvent, sourced (ev :: l) = ev.sourced + sourced l := by
      simp [sourced]
    rw [hcons]
    cases ev with
    | absorb t i block => simpa [entropy, absorbed, PoolEvent.entry?, PoolEvent.sourced] using ih
    | _ => exact ih.trans (Nat.le_add_left _ _)

theorem sourced_delivery {rs : List Round} (hrs : ∀ r ∈ rs, r.Valid P cfg)
    (hv : cfg.validate = .ok ()) (n : Nat) :
    cfg.roundInput * rs.length ≤ sourced (delivery rs n) := by
  induction rs generalizing n with
  | nil => simp
  | cons r rs ih =>
    have hr := hrs r List.mem_cons_self
    have hrest := ih (fun r' hr' => hrs r' (List.mem_cons_of_mem _ hr')) (n - min n roundBytes)
    have hone := length_entropy_le r.events
    rw [hr.length_entropy hv] at hone
    have hlog : sourced r.log = sourced r.events := by simp [Round.log, sourced, PoolEvent.sourced]
    have hcopy : ∀ (bytes : List UInt8) (l : List PoolEvent),
        sourced (.copy bytes :: l) = sourced l := by
      simp [sourced, PoolEvent.sourced]
    rw [delivery, sourced_append, hlog, hcopy, List.length_cons, Nat.mul_succ]
    omega

/-- What a read that succeeds is given, and what the sources gave for it: as many bytes for each
32 bytes as they are configured to give in a round. -/
theorem Pool.read_gives (hok : SlotsOk p.config p.slots) (hv : p.config.validate = .ok ())
    (h : p.read P buf w = some ((res, p', buf'), w')) : ∃ evs, w'.log = w.log ++ evs ∧
      (res = .ok () → p.config.roundInput * buf.length ≤ roundBytes * sourced evs) ∧
      (p.config.useChain = true → ∃ rs, Round.Linked p.state rs p'.state ∧
        (∀ r ∈ rs, r.Valid P p.config) ∧
        (res = .ok () → rs.length = (buf.length + 31) / roundBytes ∧
          buf' = (outputs rs).take buf.length)) := by
  cases hc : p.config.useChain with
  | true =>
    obtain ⟨rs, tail, hlog, _, _, hlink, hrs, hdel⟩ := read_chain_cases hok.length_eq hc h
    have hrounds := sourced_delivery (fun r hr => (hrs r hr).1) hv buf.length
    refine ⟨_, hlog.trans (List.append_assoc ..), ?_, fun _ => ⟨rs, hlink, fun r hr =>
      (hrs r hr).1, ?_⟩⟩
    · rintro rfl
      cases hdel with
      | all hlen =>
        have hle : buf.length ≤ roundBytes * rs.length := by
          simp only [hlen, roundBytes]
          omega
        calc p.config.roundInput * buf.length
            ≤ p.config.roundInput * (roundBytes * rs.length) := Nat.mul_le_mul_left _ hle
          _ = roundBytes * (p.config.roundInput * rs.length) := Nat.mul_left_comm ..
          _ ≤ roundBytes * sourced (delivery rs buf.length ++ []) := by
            rw [List.append_nil]
            exact Nat.mul_le_mul_left _ hrounds
    · rintro rfl
      cases hdel with
      | all hlen => exact ⟨hlen, by simp⟩
  | false =>
    obtain ⟨s, s', evs, _, _, hlog, _, _, _, hpass⟩ := read_passthrough_cases hok hc h
    refine ⟨evs, hlog, ?_, fun hno => by cases hno⟩
    rintro rfl
    rw [Config.roundInput_passthrough hv hc]
    cases hpass with
    | first _ hread => simp [sourced, PoolEvent.sourced, hread.length]
    | retried _ _ _ _ hread => simp [sourced, PoolEvent.sourced, hread.length]

namespace Tools

/-- The module answers a tool's requests for random bytes on the handle `h`, in their order, and is
not called otherwise. What the tool asks of anything else is no concern of it. -/
inductive Attached (P : Platform W) (h : CkUlong) (m : Module) (w : World W) :
    List ToolReply → Module → World W → Prop
  | start : Attached P h m w [] m w
  | elapsed {es : List ToolReply} {m' : Module} {w' w'' : World W} : Attached P h m w es m' w' →
      w''.global = w'.global → w''.trace = w'.trace → w''.log = w'.log →
      Attached P h m w es m' w''
  | generated {es : List ToolReply} {m' m'' : Module} {w' w'' : World W} {len : Nat}
      {buf : List UInt8} {rv : Rv} {code : CkUlong} {block : Vector UInt8 len} :
      Attached P h m w es m' w' → buf.length = len → len < 2 ^ 64 →
      m'.cGenerateRandom P h (some buf) (UInt64.ofNat len) w' =
        some ((rv, m'', some block.toList), w'') → (code = ckrOk ↔ rv = .ok) →
      Attached P h m w (es ++ [⟨.generateRandom len, (code, block)⟩]) m'' w''
  | other {es : List ToolReply} {m' : Module} {w' : World W} {e : ToolReply} :
      Attached P h m w es m' w' → Read.requested e = none → Attached P h m w (es ++ [e]) m' w'

/-- The calls of the module, each with the block that it gave if it succeeded. -/
def call : ToolReply → Option (Option (List UInt8))
  | ⟨.generateRandom n, ans⟩ => some (Read.block ⟨.generateRandom n, ans⟩)
  | _ => none

def calls (es : List ToolReply) : List (Option (List UInt8)) := es.filterMap call

@[simp] theorem calls_snoc (es : List ToolReply) (e : ToolReply) :
    calls (es ++ [e]) = calls es ++ (call e).toList := by
  cases h : call e <;> simp [calls, h]

/-- Each call is given the first bytes of the outputs of rounds of its own, the calls taking the
rounds in their order; a call that fails may waste some. -/
inductive Gives : List (Option (List UInt8)) → List Round → Prop
  | nil : Gives [] []
  | call {cs : List (Option (List UInt8))} {rs part : List Round} {c : Option (List UInt8)} :
      Gives cs rs → (∀ b, c = some b → part.length = (b.length + 31) / roundBytes ∧
        b = (outputs part).take b.length) → Gives (cs ++ [c]) (rs ++ part)

theorem Attached.spec {h : CkUlong} {s : Session} {es : List ToolReply}
    (hatt : Attached P h m w es m' w') (hrun : ModuleRun P cfg m w) (hs : m.session h = some s) :
    ModuleRun P cfg m' w' ∧ ∃ s' evs, m'.session h = some s' ∧ w'.log = w.log ++ evs ∧
      cfg.roundInput * (es.map Seed.freshBytes).sum ≤ roundBytes * sourced evs ∧
      (cfg.useChain = true → ∃ rs, Round.Linked s.pool.state rs s'.pool.state ∧
        (∀ r ∈ rs, r.Valid P cfg) ∧ Gives (calls es) rs) := by
  induction hatt with
  | start =>
    exact ⟨hrun, s, [], hs, by simp, by simp, fun _ => ⟨[], rfl, by simp, .nil⟩⟩
  | elapsed _ hg ht hl ih =>
    obtain ⟨hrun', s', evs, hs', hlog, hrest⟩ := ih
    exact ⟨.elapsed hrun' hg ht hl, s', evs, hs', hl.trans hlog, hrest⟩
  | @other es m' w' e _ he ih =>
    obtain ⟨hrun', s', evs, hs', hlog, hfresh, hchain⟩ := ih
    have hquiet : call e = none ∧ Seed.freshBytes e = 0 := by
      obtain ⟨q, ans⟩ := e
      cases q <;> first | exact ⟨rfl, rfl⟩ | cases he
    exact ⟨hrun', s', evs, hs', hlog, by simpa [hquiet.2] using hfresh,
      by simpa [hquiet.1] using hchain⟩
  | @generated es m' m'' w' w'' len buf rv code block _ hlen hlt hc hcode ih =>
    obtain ⟨hrun', s', evs, hs', hlog, hfresh, hchain⟩ := ih
    have hsize : (UInt64.ofNat len).toNat = len := UInt64.toNat_ofNat_of_lt' hlt
    obtain ⟨s'', res, pool, hs'', hread, hset, rfl⟩ := Module.cGenerateRandom_drew hrun'.inv
      hrun'.sessions (by simp) (found_of_session hs') hc
    obtain rfl : s' = s'' := Option.some.inj (hs'.symm.trans hs'')
    have hinv := hrun'.sessions s' (session_mem hs')
    rw [Option.getD_some, Option.getD_some, hsize, List.take_of_length_le hlen.le,
      List.take_of_length_le block.length_toList.le] at hread
    obtain ⟨evs', hlog', hgiven, hrounds⟩ :=
      Pool.read_gives (hinv.config ▸ hinv.slots) (hinv.config ▸ hinv.valid) hread
    rw [hinv.config] at hgiven hrounds
    have hok : code = ckrOk ↔ res = .ok () := by
      rw [hcode]
      split <;> simp_all
    refine ⟨.called (c := .cGenerateRandom _ _ _) hrun' (bind_of_eq hc), _, evs ++ evs',
      by rw [hset, Function.update_self], by rw [hlog', hlog, List.append_assoc], ?_, fun hc => ?_⟩
    · simp only [List.map_append, List.map_singleton, List.sum_append, List.sum_singleton,
        sourced_append, Nat.mul_add, Seed.freshBytes]
      split
      · have hmore := hgiven (hok.mp ‹_›)
        rw [hlen] at hmore
        exact Nat.add_le_add hfresh hmore
      · omega
    · obtain ⟨rs, hlink, hvalid, hgives⟩ := hchain hc
      obtain ⟨part, hlink', hvalid', hpart⟩ := hrounds hc
      refine ⟨rs ++ part, hlink.append hlink', ?_, ?_⟩
      · exact fun r hr => (List.mem_append.mp hr).elim (hvalid r) (hvalid' r)
      · rw [calls_snoc]
        refine hgives.call fun b hb => ?_
        have hb : (if code = ckrOk then some block.toList else none) = some b := hb
        split at hb
        · cases hb
          obtain ⟨hnum, hblock⟩ := hpart (hok.mp ‹_›)
          rw [hlen] at hnum hblock
          exact ⟨by simpa using hnum, by simpa using hblock⟩
        · cases hb

theorem length_outputs (rs : List Round) : (outputs rs).length = roundBytes * rs.length := by
  simp [outputs, List.length_flatMap, Nat.mul_comm]

theorem outputs_append (rs rs' : List Round) : outputs (rs ++ rs') = outputs rs ++ outputs rs' := by
  simp [outputs]

/-- When all blocks but the last are of whole rounds, nothing of the outputs is left out. -/
theorem Gives.contiguous {bs : List (List UInt8)} {rs : List Round}
    (hgives : Gives (bs.map some) rs) (hwhole : ∀ b ∈ bs.dropLast, roundBytes ∣ b.length) :
    rs.length = (bs.flatten.length + 31) / roundBytes ∧
      bs.flatten = (outputs rs).take bs.flatten.length := by
  induction bs using List.reverseRecOn generalizing rs with
  | nil =>
    generalize hcs : List.map some ([] : List (List UInt8)) = cs at hgives
    cases hgives with
    | nil => exact ⟨rfl, rfl⟩
    | call _ _ => simp at hcs
  | append_singleton bs b ih =>
    rw [List.dropLast_concat] at hwhole
    generalize hcs : List.map some (bs ++ [b]) = cs at hgives
    cases hgives with
    | nil => simp at hcs
    | @call cs rs part c hgives hpart =>
      rw [List.map_append] at hcs
      obtain ⟨rfl, hc⟩ := List.append_inj' hcs rfl
      obtain ⟨hnum', hblock⟩ := hpart b (List.singleton_inj.mp hc).symm
      obtain ⟨hnum, hflat⟩ := ih hgives fun b hb => hwhole b (List.mem_of_mem_dropLast hb)
      obtain ⟨k, hk⟩ : roundBytes ∣ bs.flatten.length := by
        rw [List.length_flatten]
        refine List.dvd_sum fun n hn => ?_
        obtain ⟨b, hb, rfl⟩ := List.mem_map.mp hn
        exact hwhole b hb
      -- the blocks before the last one took whole rounds
      have hall : bs.flatten = outputs rs := by
        rw [hflat, List.take_of_length_le]
        rw [length_outputs, hnum, hk]
        simp only [roundBytes]
        omega
      have hlen : bs.flatten.length = (outputs rs).length := congrArg List.length hall
      rw [List.flatten_append, List.flatten_singleton, List.length_append, List.length_append,
        outputs_append]
      refine ⟨?_, ?_⟩
      · rw [hnum, hnum', hk]
        simp only [roundBytes]
        omega
      · rw [hlen, List.take_length_add_append, ← hblock, hall]

end Tools
end P11Rand
