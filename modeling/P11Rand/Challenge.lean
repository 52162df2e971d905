import P11Rand.Delivery
import P11Rand.Probing

/-! The GET CHALLENGE reader against any card: which requests it makes, what the answers teach it
about the chunk size, and what it delivers. -/
namespace P11Rand.Iso7816

open Effect Run

variable {W : Type} {P : Platform W} {w w' v v' : World W} {card : Card} {src src' : Source}
  {buf : List UInt8} {o : Outcome Source Error} {n : Nat} {es fs : List Exchange}

/-- A chunk size that the reader can come to. -/
def ChunkOk (n : Nat) : Prop := ∃ k ≤ 7, n = 2 ^ k

/-- One read leads from one source to the other, whatever the machine was like before it. -/
def Source.Next (P : Platform W) (src src' : Source) : Prop :=
  ∃ buf w o w', src.read P buf w = some (o, w') ∧ o.src = src'

/-- A source in use: opened, and read from any number of times. -/
inductive Source.InUse (P : Platform W) : Source → Prop
  | opened {reader : String} {src : Source} {w w' : World W} :
      openSource P reader w = some (.ok src, w') → InUse P src
  | read {src src' : Source} : InUse P src → src.Next P src' → InUse P src'

/-- The read of `buf` begun in `w` comes to a pass that starts from `r`. -/
def Source.Passes (P : Platform W) (src : Source) (buf : List UInt8) (w : World W)
    (r : Reading Source) (v : World W) : Prop :=
  Thread Eq (Source.readStep P) (.inl (.start src buf)) w (.inl r) v

/-- Where a pass wants the card's bytes: the front of the scratch, or of the buffer. -/
def target (r : Reading Source) : List UInt8 :=
  if r.rest.length < r.src.maxChunk then (List.replicate 256 0).take r.src.maxChunk
  else r.rest.take r.src.maxChunk

/-- What a pass asserts, casts and slices is in range. -/
structure InBounds (r : Reading Source) : Prop where
  live : r.src.maxChunk ≠ 0
  asserted : 1 ≤ r.src.maxChunk ∧ r.src.maxChunk ≤ 255
  le : (UInt8.ofNat r.src.maxChunk).toNat = r.src.maxChunk
  target : (target r).length = r.src.maxChunk
  taken : r.rest.length < r.src.maxChunk → r.rest.length ≤ 256

theorem ChunkOk.pos (h : ChunkOk n) : 0 < n := by
  obtain ⟨k, _, rfl⟩ := h
  exact Nat.two_pow_pos k

theorem ChunkOk.le (h : ChunkOk n) : n ≤ 128 := by
  obtain ⟨k, hk, rfl⟩ := h
  exact Nat.pow_le_pow_right Nat.two_pos hk

theorem ChunkOk.half (h : ChunkOk n) (hn : 1 < n) : ChunkOk (n / 2) ∧ n / 2 * 2 = n := by
  obtain ⟨k, hk, rfl⟩ := h
  cases k with
  | zero => omega
  | succ k => exact ⟨⟨k, by omega, by omega⟩, by omega⟩

/-- Halving skips no power of two. -/
theorem ChunkOk.eq_of_half_lt {k : Nat} (h : ChunkOk n) (hlt : n / 2 < 2 ^ k) (hle : 2 ^ k ≤ n) :
    2 ^ k = n := by
  obtain ⟨j, _, rfl⟩ := h
  have hkj : k ≤ j := (Nat.pow_le_pow_iff_right Nat.one_lt_two).mp hle
  rcases Nat.lt_or_eq_of_le hkj with hkj | rfl
  · have hhalf : 2 ^ k * 2 ≤ 2 ^ j := Nat.pow_le_pow_right Nat.two_pos hkj
    omega
  · rfl

theorem ChunkOk.inBounds {r : Reading Source} (h : ChunkOk r.src.maxChunk) : InBounds r := by
  have hpos := h.pos
  have hle := h.le
  refine ⟨by omega, ⟨hpos, by omega⟩, ?_, ?_, fun ht => by omega⟩
  · exact Nat.mod_eq_of_lt (by omega)
  · unfold target
    split
    · rw [List.length_take, List.length_replicate]
      omega
    · rw [List.length_take]
      omega

/-- The number of bytes that the exchange asks for. -/
theorem challengeApdu_le (h : ChunkOk n) : ((challengeApdu n).getLastD 0).toNat = n := by
  have hmod : n % 256 = n := Nat.mod_eq_of_lt (by have := h.le; omega)
  simpa [challengeApdu] using hmod

end P11Rand.Iso7816

namespace P11Rand

/-- The card returned what it was asked for. -/
def Exchange.granted : Exchange → Bool
  | ⟨.transmit _ apdu, .ok resp⟩ => decide (Iso7816.Accepted (apdu.getLastD 0).toNat resp)
  | _ => false

/-- The card answered, but not with what it was asked for. -/
def Exchange.refused : Exchange → Bool
  | ⟨.transmit _ apdu, .ok resp⟩ => !decide (Iso7816.Accepted (apdu.getLastD 0).toNat resp)
  | _ => false

namespace Iso7816

open Effect Run

variable {W : Type} {P : Platform W} {w w' v v' : World W} {card : Card} {src src' : Source}
  {buf : List UInt8} {o : Outcome Source Error} {n : Nat} {es fs : List Exchange}

theorem granted_challenge (h : ChunkOk n) (resp : List UInt8) :
    Exchange.granted ⟨.transmit card (challengeApdu n), .ok resp⟩ = decide (Accepted n resp) := by
  simp only [Exchange.granted, challengeApdu_le h]

theorem refused_challenge (h : ChunkOk n) (resp : List UInt8) :
    Exchange.refused ⟨.transmit card (challengeApdu n), .ok resp⟩ = !decide (Accepted n resp) := by
  simp only [Exchange.refused, challengeApdu_le h]

/-- A GET CHALLENGE on the card for a length that the reader can come to. -/
def Asks (card : Card) (e : Exchange) : Prop :=
  ∃ n, ChunkOk n ∧ e.request = .transmit card (challengeApdu n)

/-- How far a read of `n` bytes is after the exchanges `es`. -/
structure Tally (src : Source) (n : Nat) (es : List Exchange) (r : Reading Source) : Prop where
  card : r.src.card = src.card
  chunk : ChunkOk r.src.maxChunk
  asks : ∀ e ∈ es, Asks src.card e
  halved : r.src.maxChunk * 2 ^ es.countP Exchange.refused = src.maxChunk
  length : r.length = n
  served : es.countP Exchange.granted * r.src.maxChunk ≤ r.done.length ∨
    r.rest = [] ∧ es.countP Exchange.granted * r.src.maxChunk < n + r.src.maxChunk

/-- The same, where a read that ends may have been refused once more. -/
def Tallied (src : Source) (n : Nat) (es : List Exchange) :
    Reading Source ⊕ Outcome Source Error → Prop
  | .inl r => Tally src n es r
  | .inr o => ∃ r fs, Tally src n fs r ∧ o.src = r.src ∧ (∀ e ∈ es, Asks src.card e) ∧
      es.countP Exchange.refused ≤ fs.countP Exchange.refused + 1 ∧
      es.countP Exchange.granted = fs.countP Exchange.granted

theorem tally_start (h : ChunkOk src.maxChunk) (buf : List UInt8) :
    Tally src buf.length [] (.start src buf) :=
  ⟨rfl, h, by simp, by simp [Reading.start], Reading.length_start src buf, .inl (by simp)⟩

theorem Tally.ret {r : Reading Source} (h : Tally src n es r) (res : Except Error Unit) :
    Tallied src n es (.inr (r.ret res)) := ⟨r, es, h, rfl, h.asks, by omega, rfl⟩

/-- What one pass adds. -/
theorem readStep_tallied {r : Reading Source} {y : Reading Source ⊕ Outcome Source Error}
    (hr : Tally src n es r) (h : Source.readStep P r v = some (y, v')) :
    ∃ fs, v'.trace = v.trace ++ fs ∧ Tallied src n (es ++ fs) y := by
  have hlast := challengeApdu_le hr.chunk
  obtain ⟨_, rfl, rfl⟩ | ⟨_, _, rfl, rfl⟩ | ⟨hrest, _, ans, hq, hans⟩ := readStep_cases h
  · exact ⟨[], by simp, by simpa using hr.ret _⟩
  · exact ⟨[], by simp, by simpa using hr.ret _⟩
  have hasks : ∀ e ∈ es ++ [⟨.transmit r.src.card (challengeApdu r.src.maxChunk), ans⟩],
      Asks src.card e := by
    intro e he
    rcases List.mem_append.mp he with he | he
    · exact hr.asks e he
    · rw [List.mem_singleton.mp he, ← hr.card]
      exact ⟨_, hr.chunk, rfl⟩
  refine ⟨_, (request_eq_some hq).2, ?_⟩
  obtain ⟨e, rfl, rfl⟩ | ⟨resp, rfl, hacc, rfl⟩ | ⟨resp, rfl, hrej, ⟨hlt, rfl⟩ | ⟨_, rfl⟩⟩ := hans
  · refine ⟨r, es, hr, rfl, hasks, ?_, ?_⟩
    · simp [Exchange.refused]
    · simp [Exchange.granted]
  · have hg : (es ++ [(⟨.transmit r.src.card (challengeApdu r.src.maxChunk), .ok resp⟩ :
        Exchange)]).countP Exchange.granted = es.countP Exchange.granted + 1 := by
      simp [granted_challenge hr.chunk, hacc]
    refine ⟨hr.card, hr.chunk, hasks, ?_, (Reading.length_fill r (by simp)).trans hr.length, ?_⟩
    · simpa [refused_challenge hr.chunk, hacc, Reading.fill] using hr.halved
    · have hserved := hr.served.resolve_right fun h => hrest h.1
      have hpos := List.length_pos_iff.mpr hrest
      have hlen := hr.length
      have hbody := hacc.2
      rw [hg, Nat.add_mul, Nat.one_mul]
      -- a whole chunk was added to the buffer, or its end was reached
      by_cases hfit : r.src.maxChunk ≤ r.rest.length
      · left
        simp only [Reading.fill, List.length_append, List.length_take]
        omega
      · right
        simp only [Reading.length] at hlen
        refine ⟨List.drop_eq_nil_of_le ?_, ?_⟩
        · rw [List.length_take]
          omega
        · simp only [Reading.fill]
          omega
  · obtain ⟨hhalf, htwo⟩ := hr.chunk.half hlt
    refine ⟨hr.card, hhalf, hasks, ?_, hr.length, .inl ?_⟩
    · have hhalved := hr.halved
      rw [← htwo] at hhalved
      simpa [refused_challenge hr.chunk, hrej, Nat.pow_succ', ← Nat.mul_assoc] using hhalved
    · have hserved := hr.served.resolve_right fun h => hrest h.1
      simp only [List.countP_append, List.countP_singleton, granted_challenge hr.chunk, hrej,
        decide_false, Bool.false_eq_true, if_false, Nat.add_zero]
      exact (Nat.mul_le_mul_left _ (Nat.div_le_self _ 2)).trans hserved
  · refine ⟨r, es, hr, rfl, hasks, ?_, ?_⟩
    · simp [refused_challenge hr.chunk, hrej]
    · simp [granted_challenge hr.chunk, hrej]

theorem thread_tallied {y : Reading Source ⊕ Outcome Source Error} (h : ChunkOk src.maxChunk)
    (ht : Thread Eq (Source.readStep P) (.inl (.start src buf)) w y v) :
    ∃ es, v.trace = w.trace ++ es ∧ Tallied src buf.length es y := by
  refine ht.keeps (I := fun y v => ∃ es, v.trace = w.trace ++ es ∧ Tallied src buf.length es y)
    ⟨[], by simp, tally_start h buf⟩ ?_
  rintro r v y v' ⟨es, htrace, hr⟩ hs
  obtain ⟨fs, htrace', hy⟩ := readStep_tallied hr hs
  exact ⟨es ++ fs, by rw [htrace', htrace, List.append_assoc], hy⟩

theorem Tally.chunk_le {r : Reading Source} (h : Tally src n es r) :
    r.src.maxChunk ≤ src.maxChunk := by
  rw [← h.halved]
  exact Nat.le_mul_of_pos_right _ (Nat.two_pow_pos _)

theorem Tally.refused_le {r : Reading Source} (h : Tally src n es r) :
    es.countP Exchange.refused ≤ Nat.log 2 src.maxChunk := by
  apply Nat.le_log_of_pow_le Nat.one_lt_two
  rw [← h.halved]
  exact Nat.le_mul_of_pos_left _ h.chunk.pos

theorem Tally.granted_le {r : Reading Source} (h : Tally src n es r) :
    es.countP Exchange.granted ≤ n ⌈/⌉ r.src.maxChunk := by
  have hpos := h.chunk.pos
  have hlen := h.length
  simp only [Reading.length] at hlen
  rw [Nat.ceilDiv_eq_add_pred_div, Nat.le_div_iff_mul_le hpos]
  rcases h.served with hle | ⟨_, hlt⟩
  · omega
  · omega

theorem Source.InUse.chunk (h : src.InUse P) : ChunkOk src.maxChunk := by
  induction h with
  | opened h => exact ⟨7, le_rfl, (openSource_reader h).2⟩
  | read _ hnext ih =>
    obtain ⟨buf, w, o, w', hr, rfl⟩ := hnext
    obtain ⟨es, _, r, _, ht, hsrc, _⟩ := thread_tallied ih (loop_thread hr)
    exact hsrc ▸ ht.chunk

/-- The buffer after a read: what its own exchanges delivered, and then what was there before. -/
theorem read_delivers (h : ChunkOk src.maxChunk) (hr : src.read P buf w = some (o, w')) :
    ∃ es, w'.trace = w.trace ++ es ∧
      o.buf = (payload es).take buf.length ++ buf.drop (payload es).length ∧
      (o.res = .ok () → buf.length ≤ (payload es).length) := by
  have hread : (SlotInner.iso7816 src).read P buf w = some (o.map .iso7816, w') := bind_of_eq hr
  have hchunk : (SlotInner.iso7816 src).chunk ≤ 128 := h.le
  obtain ⟨_, _, hrest, es, htrace, _, hdone⟩ := SlotInner.read_filled hchunk hread
  obtain ⟨_, _, hlen, hfull⟩ := SlotInner.read_keeps hread
  simp only [Outcome.map] at hrest hdone hlen
  have hdl : o.done.length = min buf.length (payload es).length := by
    rw [hdone, List.length_take]
  refine ⟨es, htrace, ?_, fun hok => ?_⟩
  · rw [Outcome.buf, hrest, hdl, hdone]
    rcases Nat.le_total (payload es).length buf.length with hle | hle
    · rw [Nat.min_eq_right hle]
    · rw [Nat.min_eq_left hle, List.drop_length, List.drop_eq_nil_of_le hle]
  · have hnil : o.rest = [] := hfull (by
      simp only [Outcome.ok, Outcome.map, hok]
      rfl)
    rw [hnil, List.length_nil] at hlen
    omega

/-- The card never fails to answer a challenge, and accepts exactly the lengths in `A`. -/
def Consistent (P : Platform W) (card : Card) (A : Set Nat) : Prop :=
  ∀ n ≤ 255, ∀ e, ∃ resp, (P.answer (.transmit card (challengeApdu n)) e).1 = .ok resp ∧
    (Accepted n resp ↔ n ∈ A)

variable {A : Set Nat}

theorem Consistent.request (hcard : Consistent P card A) (hn : ChunkOk n)
    {ans : (Request.transmit card (challengeApdu n)).Answer}
    (hq : request P (.transmit card (challengeApdu n)) w = some (ans, w')) :
    ∃ resp, ans = .ok resp ∧ (Accepted n resp ↔ n ∈ A) := by
  have hle := hn.le
  obtain ⟨resp, hans, hiff⟩ := hcard n (by omega) w.env
  exact ⟨resp, (congrArg Prod.fst (request_eq_some hq).1).symm.trans hans, hiff⟩

/-- What a read of `n` bytes knows of the card: it does not accept the powers of two above the
chunk size, and it does accept the chunk size if it has delivered anything. -/
structure Learning (src : Source) (A : Set Nat) (n : Nat) (r : Reading Source) : Prop where
  card : r.src.card = src.card
  chunk : ChunkOk r.src.maxChunk
  le : r.src.maxChunk ≤ src.maxChunk
  length : r.length = n
  skipped : ∀ k, r.src.maxChunk < 2 ^ k → 2 ^ k ≤ src.maxChunk → 2 ^ k ∉ A
  accepted : r.done ≠ [] → r.src.maxChunk ∈ A

/-- The same for a read that has ended. -/
def Learnt (src : Source) (A : Set Nat) (n : Nat) : Reading Source ⊕ Outcome Source Error → Prop
  | .inl r => Learning src A n r
  | .inr o => (o.res = .ok () ∧ ∃ r, Learning src A n r ∧ r.rest = [] ∧ o.src = r.src) ∨
      o.res ≠ .ok () ∧ ∀ k, 2 ^ k ≤ src.maxChunk → 2 ^ k ∉ A

theorem readStep_learnt {r : Reading Source} {y : Reading Source ⊕ Outcome Source Error}
    (hcard : Consistent P src.card A) (hr : Learning src A n r)
    (h : Source.readStep P r v = some (y, v')) : Learnt src A n y := by
  obtain ⟨hrest, rfl, _⟩ | ⟨_, hzero, _⟩ | ⟨hrest, _, ans, hq, hans⟩ := readStep_cases h
  · exact .inl ⟨rfl, r, hr, hrest, rfl⟩
  · exact absurd hzero hr.chunk.pos.ne'
  rw [hr.card] at hq
  obtain ⟨resp, rfl, hiff⟩ := hcard.request hr.chunk hq
  obtain ⟨e, he, _⟩ | ⟨_, he, hacc, rfl⟩ | ⟨_, he, hrej, ⟨hlt, rfl⟩ | ⟨hone, rfl⟩⟩ := hans
  · cases he
  · cases he
    exact ⟨hr.card, hr.chunk, hr.le, (Reading.length_fill r (by simp)).trans hr.length,
      hr.skipped, fun _ => hiff.mp hacc⟩
  · cases he
    have hno : r.src.maxChunk ∉ A := fun hmem => hrej (hiff.mpr hmem)
    obtain ⟨hhalf, htwo⟩ := hr.chunk.half hlt
    refine ⟨hr.card, hhalf, (Nat.div_le_self _ 2).trans hr.le, hr.length, fun k hk hle => ?_,
      fun hdone => absurd (hr.accepted hdone) hno⟩
    by_cases hk' : r.src.maxChunk < 2 ^ k
    · exact hr.skipped k hk' hle
    · rw [hr.chunk.eq_of_half_lt hk (not_lt.mp hk')]
      exact hno
  · cases he
    refine .inr ⟨by simp [Reading.ret], fun k hk hmem => ?_⟩
    have hpos := hr.chunk.pos
    by_cases hk' : r.src.maxChunk < 2 ^ k
    · exact hr.skipped k hk' hk hmem
    · have hkone : 2 ^ k = r.src.maxChunk := by
        have := Nat.two_pow_pos k
        omega
      exact hrej (hiff.mpr (hkone ▸ hmem))

theorem read_learnt (hcard : Consistent P src.card A) (hchunk : ChunkOk src.maxChunk)
    (hr : src.read P buf w = some (o, w')) : Learnt src A buf.length (.inr o) := by
  refine loop_keeps (fun y _ => Learnt src A buf.length y) hr ?_
    fun r v y v' hr hs => readStep_learnt hcard hr hs
  exact ⟨rfl, hchunk, le_rfl, Reading.length_start src buf, fun k hlt hle => by
    simp only [Reading.start] at hlt
    omega, fun hdone => absurd rfl hdone⟩

/-- From an accepted chunk size on, reading changes nothing about the source, and nothing is
refused. -/
def Steady (src : Source) (w : World W) :
    Reading Source ⊕ Outcome Source Error → World W → Prop
  | .inl r, v => r.src = src ∧ ∃ es, v.trace = w.trace ++ es ∧ ∀ e ∈ es, e.refused = false
  | .inr o, v => o.src = src ∧ o.res = .ok () ∧
      ∃ es, v.trace = w.trace ++ es ∧ ∀ e ∈ es, e.refused = false

theorem readStep_steady {r : Reading Source} {y : Reading Source ⊕ Outcome Source Error}
    (hcard : Consistent P src.card A) (hchunk : ChunkOk src.maxChunk) (hmem : src.maxChunk ∈ A)
    (hr : Steady src w (.inl r) v) (h : Source.readStep P r v = some (y, v')) :
    Steady src w y v' := by
  obtain ⟨hsrc, es, htrace, hes⟩ := hr
  obtain ⟨_, rfl, rfl⟩ | ⟨_, hzero, _⟩ | ⟨_, _, ans, hq, hans⟩ := readStep_cases h
  · exact ⟨hsrc, rfl, es, htrace, hes⟩
  · rw [hsrc] at hzero
    exact absurd hzero hchunk.pos.ne'
  rw [hsrc] at hq hans
  obtain ⟨resp, rfl, hiff⟩ := hcard.request hchunk hq
  have hacc := hiff.mpr hmem
  obtain ⟨e, he, _⟩ | ⟨_, he, _, rfl⟩ | ⟨_, he, hrej, _⟩ := hans
  · cases he
  · cases he
    refine ⟨hsrc, es ++ [_], by rw [(request_eq_some hq).2, htrace, List.append_assoc], ?_⟩
    rw [List.forall_mem_append, List.forall_mem_singleton]
    exact ⟨hes, by simp [refused_challenge hchunk, hacc]⟩
  · cases he
    exact absurd hacc hrej

theorem read_steady (hcard : Consistent P src.card A) (hchunk : ChunkOk src.maxChunk)
    (hmem : src.maxChunk ∈ A) (hr : src.read P buf w = some (o, w')) :
    Steady src w (.inr o) w' := by
  exact loop_keeps (Steady src w) hr ⟨rfl, [], by simp, by simp⟩
    fun r v y v' hr hs => readStep_steady hcard hchunk hmem hr hs

/-- Later reads go on as the first one ended. -/
theorem steady_of_next (hcard : Consistent P src.card A) (hchunk : ChunkOk src.maxChunk)
    (hmem : src.maxChunk ∈ A) (h : Relation.ReflTransGen (Source.Next P) src src') :
    src' = src := by
  induction h with
  | refl => rfl
  | tail _ hnext ih =>
    subst ih
    obtain ⟨buf, w, o, w', hr, rfl⟩ := hnext
    exact (read_steady hcard hchunk hmem hr).1

/-- The card has answered a challenge for `n` bytes. -/
def Answers (P : Platform W) (card : Card) (n : Nat) : Prop :=
  ∃ e resp, (P.answer (.transmit card (challengeApdu n)) e).1 = .ok resp ∧ Accepted n resp

theorem tryGetChallenge_answers {out out' : List UInt8}
    (h : tryGetChallenge P card n out w = some ((.ok true, out'), w')) : Answers P card n := by
  obtain ⟨ans, hq, ⟨_, _, hres⟩ | ⟨resp, rfl, hacc, _⟩ | ⟨_, _, _, hres⟩⟩ := tryGetChallenge_cases h
  · cases hres
  · exact ⟨w.env, resp, congrArg Prod.fst (request_eq_some hq).1, hacc⟩
  · cases hres

theorem probeApplets_answers {throwaway : List UInt8} {apps : List (AppId × List UInt8)}
    {app : AppId} (hlen : throwaway.length = n)
    (h : probeApplets P card throwaway apps w = some (.ok app, w')) : Answers P card n := by
  induction apps generalizing throwaway w with
  | nil => cases h
  | cons a apps ih =>
    obtain ⟨sel, v, _, h⟩ := bind_eq_some.mp h
    cases sel with
    | error e => cases h
    | ok b =>
      cases b with
      | false => exact ih hlen h
      | true =>
        obtain ⟨⟨r, out⟩, u, hr, h⟩ := bind_eq_some.mp h
        rw [hlen] at hr
        obtain ⟨_, _, ⟨_, _, hres⟩ | ⟨_, _, _, hres⟩ | ⟨_, _, _, hres⟩⟩ := tryGetChallenge_cases hr
        · cases hres
          cases h
        · cases hres
          exact tryGetChallenge_answers hr
        · cases hres
          exact ih hlen h

theorem probeApp_answers {app : AppId} (h : probeApp P card w = some (.ok app, w')) :
    Answers P card 8 := by
  unfold probeApp at h
  simp only [List.length_replicate] at h
  obtain ⟨⟨r, out⟩, u, hr, h⟩ := bind_eq_some.mp h
  obtain ⟨_, _, ⟨_, _, hres⟩ | ⟨_, _, _, hres⟩ | ⟨_, _, _, hres⟩⟩ := tryGetChallenge_cases hr
  · cases hres
    cases h
  · cases hres
    exact tryGetChallenge_answers hr
  · cases hres
    exact probeApplets_answers List.length_replicate h

/-- A source that opened has had its challenge for 8 bytes answered. -/
theorem openSource_answers {reader : String}
    (h : openSource P reader w = some (.ok src, w')) : Answers P src.card 8 := by
  unfold openSource at h
  split at h
  · cases h
  · obtain ⟨conn, v, _, h⟩ := bind_eq_some.mp h
    cases conn with
    | error e => cases h
    | ok card =>
      obtain ⟨app, u, hp, h⟩ := bind_eq_some.mp h
      cases app with
      | error e =>
        obtain ⟨_, _, _, h⟩ := bind_eq_some.mp h
        cases h
      | ok app =>
        cases h
        exact probeApp_answers hp

theorem Consistent.of_answers (hcard : Consistent P card A) (hn : n ≤ 255)
    (h : Answers P card n) : n ∈ A := by
  obtain ⟨e, resp, hans, hacc⟩ := h
  obtain ⟨resp', hans', hiff⟩ := hcard n hn e
  rw [hans'] at hans
  cases hans
  exact hiff.mp hacc

/-- On a card that goes by the length, a source in use keeps a chunk of at least the probe's. -/
theorem Source.InUse.eight (h : src.InUse P) (hcard : Consistent P src.card A) :
    8 ∈ A ∧ 8 ≤ src.maxChunk := by
  induction h with
  | opened h =>
    obtain ⟨_, h128⟩ := openSource_reader h
    exact ⟨hcard.of_answers (by omega) (openSource_answers h), by omega⟩
  | @read src src' huse hnext ih =>
    obtain ⟨buf, w, o, w', hr, rfl⟩ := hnext
    obtain ⟨_, _, r, _, ht, hsrc, _⟩ := thread_tallied huse.chunk (loop_thread hr)
    rw [hsrc, ht.card] at hcard
    obtain ⟨hmem, hle⟩ := ih hcard
    rcases read_learnt hcard huse.chunk hr with ⟨_, r', hl, _, hsrc'⟩ | ⟨_, hnone⟩
    · refine ⟨hmem, ?_⟩
      rw [hsrc']
      by_contra hlt
      exact hl.skipped 3 (not_le.mp hlt) hle hmem
    · exact absurd hmem (hnone 3 hle)

/-- On a card whose answers depend only on the length, reads succeed exactly if it accepts a power
of two within the chunk size; then they find the largest one and stay with it. -/
theorem chunk_learned (hcard : Consistent P src.card A) (hchunk : ChunkOk src.maxChunk) :
    (∀ buf w, buf ≠ [] → Yields (src.read P buf) w fun o _ =>
      (o.res = .ok () ↔ ∃ k, 2 ^ k ∈ A ∧ 2 ^ k ≤ src.maxChunk) ∧
      (o.res = .ok () →
        IsGreatest {n | n ∈ A ∧ n ≤ src.maxChunk ∧ ∃ k, n = 2 ^ k} o.src.maxChunk ∧
        ∀ src' buf' u o' u', Relation.ReflTransGen (Source.Next P) o.src src' →
          src'.read P buf' u = some (o', u') → o'.res = .ok () ∧
          ∃ es, u'.trace = u.trace ++ es ∧ ∀ e ∈ es, e.refused = false)) ∧
    (8 ∈ A → 8 ≤ src.maxChunk → ∀ buf w, Yields (src.read P buf) w fun o _ =>
      o.res = .ok () ∧ 8 ≤ o.src.maxChunk) ∧
    (src.InUse P → 8 ∈ A ∧ 8 ≤ src.maxChunk) := by
  refine ⟨fun buf w hbuf => ?_, fun hmem hle buf w => ?_, fun huse => huse.eight hcard⟩
  · obtain ⟨o, w', hr⟩ := read_returns (P := P) src buf w
    refine ⟨o, w', hr, ?_⟩
    rcases read_learnt hcard hchunk hr with ⟨hok, r, hl, hrest, hsrc⟩ | ⟨herr, hnone⟩
    · have hdone : r.done ≠ [] := by
        intro hnil
        have hlen := hl.length
        simp only [Reading.length, hnil, hrest, List.length_nil] at hlen
        exact hbuf (List.length_eq_zero_iff.mp hlen.symm)
      have hmem := hl.accepted hdone
      obtain ⟨k, hk, hpow⟩ := hl.chunk
      rw [hsrc]
      refine ⟨iff_of_true hok ⟨k, hpow ▸ hmem, hpow ▸ hl.le⟩, fun _ => ⟨?_, ?_⟩⟩
      · refine ⟨⟨hmem, hl.le, k, hpow⟩, ?_⟩
        rintro _ ⟨hj, hle, j, rfl⟩
        by_contra hlt
        exact hl.skipped j (not_le.mp hlt) hle hj
      · intro src' buf' u o' u' hlater hread
        have hcard' : Consistent P r.src.card A := hl.card ▸ hcard
        obtain rfl := steady_of_next hcard' hl.chunk hmem hlater
        exact (read_steady hcard' hl.chunk hmem hread).2
    · refine ⟨iff_of_false herr ?_, fun hok => absurd hok herr⟩
      rintro ⟨k, hmem, hle⟩
      exact hnone k hle hmem
  · obtain ⟨o, w', hr⟩ := read_returns (P := P) src buf w
    refine ⟨o, w', hr, ?_⟩
    rcases read_learnt hcard hchunk hr with ⟨hok, r, hl, _, hsrc⟩ | ⟨_, hnone⟩
    · refine ⟨hok, ?_⟩
      rw [hsrc]
      by_contra hlt
      exact hl.skipped 3 (not_le.mp hlt) hle hmem
    · exact absurd hmem (hnone 3 hle)

/-- A card that answers only challenges for 8 bytes. -/
def eightByteCard : Platform Unit where
  answer
    | .transmit _ apdu, e => (.ok (if apdu = challengeApdu 8 then
        List.replicate 8 0x5A ++ [0x90, 0x00] else [0x67, 0x00]), e)
    | q, e => Bench.smartcard.machine.answer q e
  sha3_256 := Bench.smartcard.sha3_256

theorem consistent_eightByteCard (card : Card) : Consistent eightByteCard card {8} := by
  intro n hn e
  refine ⟨_, rfl, ?_⟩
  by_cases h8 : n = 8
  · subst h8
    exact iff_of_true (by decide) rfl
  · have hne : challengeApdu n ≠ challengeApdu 8 := by
      intro heq
      have hbyte : UInt8.ofNat n = UInt8.ofNat 8 := by simpa [challengeApdu] using heq
      have hmod := congrArg UInt8.toNat hbyte
      simp only [UInt8.toNat_ofNat'] at hmod
      omega
    rw [if_neg hne]
    exact iff_of_false (fun hacc => absurd hacc.1 (by decide)) h8

theorem chunk_learned_eightByteCard :
    Yields (Source.read eightByteCard ⟨⟨"reader 0", 0⟩, .none, 128⟩ (zeros 20))
        (Bench.running []) fun o _ =>
      (o.res = .ok () ↔ ∃ k, 2 ^ k ∈ ({8} : Set Nat) ∧ 2 ^ k ≤ 128) ∧
      (o.res = .ok () →
        IsGreatest {n | n ∈ ({8} : Set Nat) ∧ n ≤ 128 ∧ ∃ k, n = 2 ^ k} o.src.maxChunk) := by
  have hchunk : ChunkOk (Source.mk ⟨"reader 0", 0⟩ .none 128).maxChunk := ⟨7, le_rfl, rfl⟩
  obtain ⟨hread, _⟩ := chunk_learned (consistent_eightByteCard _) hchunk
  obtain ⟨o, w', hr, hiff, hok⟩ := hread (zeros 20) (Bench.running []) (by decide)
  exact ⟨o, w', hr, hiff, fun h => (hok h).1⟩

end Iso7816
end P11Rand
