import P11Rand.Sources

/-! What one read of a source delivers, byte for byte, and when it returns. -/
namespace P11Rand

open Effect Run

variable {W : Type} {P : Platform W} {w w' v v' : World W} {buf done rest : List UInt8}

/-- The bytes that an exchange hands to a read: the body of a GET CHALLENGE response of the
length asked for, or what read(2) returned. -/
def Exchange.payload : Exchange → List UInt8
  | ⟨.transmit _ apdu, .ok resp⟩ =>
    if Iso7816.Accepted (apdu.getLastD 0).toNat resp then Iso7816.bodyOf resp else []
  | ⟨.readFile _ _, .data bytes⟩ => bytes
  | _ => []

/-- The payload of some exchanges, in order. -/
def payload (es : List Exchange) : List UInt8 := es.flatMap Exchange.payload

/-- The request is made on this very handle. -/
def SlotInner.On : SlotInner → Request → Prop
  | .iso7816 src, .transmit card _ => card = src.card
  | .infnoise src, .readFile file _ => file = src.file
  | _, _ => False

@[simp] theorem payload_snoc (es : List Exchange) (e : Exchange) :
    payload (es ++ [e]) = payload es ++ e.payload := by
  simp [payload]

namespace SlotInner

variable {s src : SlotInner}

theorem on_handle (s : SlotInner) (q : Request) : s.handle.On q ↔ s.On q := by
  cases s <;> cases q <;> rfl

theorem on_of_handle {q : Request} (h : src.handle = s.handle) (hq : src.On q) : s.On q := by
  rwa [← on_handle, ← h, on_handle]

/-- A read into `buf` that began in world `w` has filled `done` with what its own exchanges
delivered so far. -/
structure Filled (s : SlotInner) (buf : List UInt8) (w : World W) (src : SlotInner)
    (done rest : List UInt8) (v : World W) : Prop where
  handle : src.handle = s.handle
  chunk : src.chunk ≤ s.chunk
  rest : rest = buf.drop done.length
  done : ∃ es, v.trace = w.trace ++ es ∧ (∀ e ∈ es, s.On e.request) ∧
    done = (payload es).take buf.length

theorem filled_start (s : SlotInner) (buf : List UInt8) (w : World W) :
    s.Filled buf w s [] buf w :=
  ⟨rfl, le_rfl, rfl, [], by simp, by simp, by simp [payload]⟩

/-- An exchange on the handle delivers its payload, as far as the buffer goes. -/
theorem Filled.exchange {q : Request} {ans : q.Answer} {bytes : List UInt8}
    (h : s.Filled buf w src done rest v) (hrest : rest ≠ []) (hon : src.On q)
    (hq : request P q v = some (ans, v'))
    (hb : bytes = (Exchange.payload ⟨q, ans⟩).take rest.length) :
    s.Filled buf w src (done ++ bytes) (rest.drop bytes.length) v' := by
  obtain ⟨es, htrace, hes, hdone⟩ := h.done
  have hdrop := h.rest
  have hlen : done.length < buf.length := by
    by_contra hge
    exact hrest (by rw [hdrop, List.drop_eq_nil_of_le (not_lt.mp hge)])
  have hpay : payload es = done := by
    have hl := congrArg List.length hdone
    rw [List.length_take] at hl
    rw [hdone, List.take_of_length_le (by omega)]
  have hrl : rest.length = buf.length - done.length := by rw [hdrop, List.length_drop]
  have htr := (request_eq_some hq).2
  refine ⟨h.handle, h.chunk, ?_, es ++ [⟨q, ans⟩], by simp [htr, htrace], ?_, ?_⟩
  · rw [hdrop, List.drop_drop, List.length_append]
  · intro e he
    rcases List.mem_append.mp he with he | he
    · exact hes e he
    · rw [List.mem_singleton.mp he]
      exact on_of_handle h.handle hon
  · rw [payload_snoc, hpay, List.take_append, List.take_of_length_le hlen.le, hb, hrl]

/-- An exchange that delivers nothing. -/
theorem Filled.idle {q : Request} {ans : q.Answer} (h : s.Filled buf w src done rest v)
    (hrest : rest ≠ []) (hon : src.On q) (hq : request P q v = some (ans, v'))
    (hb : Exchange.payload ⟨q, ans⟩ = []) : s.Filled buf w src done rest v' := by
  have hnone : [] = (Exchange.payload ⟨q, ans⟩).take rest.length := by simp [hb]
  simpa using h.exchange hrest hon hq hnone

def FilledBy (s : SlotInner) (buf : List UInt8) (w : World W) :
    Reading SlotInner ⊕ Outcome SlotInner Unit → World W → Prop
  | .inl r, v => s.Filled buf w r.src r.done r.rest v
  | .inr o, v => s.Filled buf w o.src o.done o.rest v

theorem readStep_filledBy {r : Reading SlotInner} {y : Reading SlotInner ⊕ Outcome SlotInner Unit}
    (hc : s.chunk ≤ 128) (hr : s.FilledBy buf w (.inl r) v) (h : readStep P r v = some (y, v')) :
    s.FilledBy buf w y v' := by
  obtain ⟨src, done, rest⟩ := r
  have hchunk : src.chunk ≤ 128 := hr.chunk.trans hc
  cases src with
  | iso7816 src =>
    obtain ⟨z, u, hz, h⟩ := bind_eq_some.mp h
    cases h
    have hon : ∀ apdu, (SlotInner.iso7816 src).On (.transmit src.card apdu) := fun _ => rfl
    have hlast : ((Iso7816.challengeApdu src.maxChunk).getLastD 0).toNat = src.maxChunk := by
      have hmod : src.maxChunk % 256 = src.maxChunk := Nat.mod_eq_of_lt (by
        simp only [chunk] at hchunk
        omega)
      simpa [Iso7816.challengeApdu] using hmod
    obtain ⟨_, rfl, rfl⟩ | ⟨_, _, rfl, rfl⟩ | ⟨hrest, _, _, hq, ⟨_, rfl, rfl⟩ |
      ⟨resp, rfl, hacc, rfl⟩ | ⟨resp, rfl, hrej, ⟨_, rfl⟩ | ⟨_, rfl⟩⟩⟩ := Iso7816.readStep_cases hz
    · exact hr
    · exact hr
    · exact hr.idle hrest (hon _) hq rfl
    · apply hr.exchange hrest (hon _) hq
      simp only [Exchange.payload, hlast]
      rw [if_pos hacc]
    · have hidle := hr.idle hrest (hon _) hq (by
        simp only [Exchange.payload, hlast]
        rw [if_neg hrej])
      exact ⟨hidle.handle, (Nat.div_le_self _ 2).trans hidle.chunk, hidle.rest, hidle.done⟩
    · apply hr.idle hrest (hon _) hq
      simp only [Exchange.payload, hlast]
      rw [if_neg hrej]
  | infnoise src =>
    have hon : ∀ len, (SlotInner.infnoise src).On (.readFile src.file len) := fun _ => rfl
    obtain ⟨z, u, hz, h⟩ := bind_eq_some.mp h
    cases h
    obtain ⟨_, rfl, rfl⟩ | ⟨hrest, _, hq, ⟨bytes, rfl, _, rfl⟩ | ⟨rfl, rfl⟩ | ⟨rfl, rfl⟩ |
      ⟨_, rfl, rfl⟩⟩ := Infnoise.readStep_cases hz
    · exact hr
    · exact hr.exchange hrest (hon _) hq rfl
    · exact hr.idle hrest (hon _) hq rfl
    · exact hr.idle hrest (hon _) hq rfl
    · exact hr.idle hrest (hon _) hq rfl
  | empty =>
    cases h
    exact hr

/-- A read writes to its buffer exactly what its own exchanges delivered, in order. -/
theorem read_filled {o : Outcome SlotInner Unit} (hc : s.chunk ≤ 128)
    (h : s.read P buf w = some (o, w')) : s.Filled buf w o.src o.done o.rest w' := by
  rw [read_eq_loop] at h
  have hthread := loop_thread (R := Eq) h
  exact hthread.keeps (I := s.FilledBy buf w) (filled_start s buf w)
    fun r v y v' hr hs => readStep_filledBy hc hr hs

end SlotInner

/-- `e'` follows `e` by a read(2) that was interrupted. -/
def Platform.Interrupted (P : Platform W) (e' e : W) : Prop :=
  ∃ file len, P.answer (.readFile file len) e = (.interrupted, e')

/-- From `e` on, reads are not interrupted for ever. -/
def Platform.Patient (P : Platform W) (e : W) : Prop :=
  ∀ e', P.Reaches e e' → Acc P.Interrupted e'

/-- An interrupted read(2), as the worker sees it. -/
def Stalled (P : Platform W) (w' w : World W) : Prop := P.Interrupted w'.env w.env

theorem Platform.Patient.mono {e e' : W} (h : P.Patient e) (hr : P.Reaches e e') :
    P.Patient e' := fun v hv => h v (Relation.ReflTransGen.trans hr hv)

theorem Platform.Patient.acc (h : P.Patient w.env) :
    ∀ w', Quiet P w w' → Acc (Stalled P) w' :=
  fun w' hw => InvImage.accessible (fun v : World W => v.env) (h w'.env hw.env)

/-- Every pass through the card's loop fills some of the buffer, halves the chunk or ends. -/
theorem Iso7816.readStep_progress : Progress (Quiet P) (fun _ _ => False)
    (fun r => r.rest.length + r.src.maxChunk) (Iso7816.Source.readStep P) := by
  intro r w
  obtain ⟨y, v, hy, hd⟩ := Iso7816.readStep_total (A := fun _ => True) (fun _ => trivial) r w
  refine ⟨y, v, hy, hd.quiet, ?_⟩
  rintro r' rfl
  obtain ⟨_, h, _⟩ | ⟨_, _, h, _⟩ | ⟨hrest, hpos, _, _, ⟨_, _, h⟩ | ⟨resp, _, hacc, h⟩ |
    ⟨_, _, _, ⟨hlt, h⟩ | ⟨_, h⟩⟩⟩ := Iso7816.readStep_cases hy
  · cases h
  · cases h
  · cases h
  · cases h
    have hr := List.length_pos_iff.mpr hrest
    have hb := hacc.2
    left
    simp only [Reading.fill, List.length_drop, List.length_take]
    omega
  · cases h
    left
    simp only
    omega
  · cases h

/-- Every pass through the device's loop fills some of the buffer, is interrupted or ends. -/
theorem Infnoise.readStep_progress : Progress (Quiet P) (Stalled P)
    (fun r => r.rest.length) (Infnoise.Source.readStep P) := by
  intro r w
  obtain ⟨y, v, hy, hd⟩ := Infnoise.readStep_total (A := fun _ => True) (fun _ => trivial) r w
  refine ⟨y, v, hy, hd.quiet, ?_⟩
  rintro r' rfl
  rcases Infnoise.readStep_cases hy with
      ⟨_, h, _⟩ | ⟨hrest, _, hq, ⟨bytes, _, hb, h⟩ | ⟨_, h⟩ | ⟨rfl, h⟩ | ⟨_, _, h⟩⟩
  · cases h
  · cases h
    have hr := List.length_pos_iff.mpr hrest
    have hb := List.length_pos_iff.mpr hb
    left
    simp only [Reading.fill, List.length_drop, List.length_take]
    omega
  · cases h
  · cases h
    exact .inr ⟨le_rfl, _, _, (request_eq_some hq).1⟩
  · cases h

namespace SlotInner

def effort (r : Reading SlotInner) : Nat := r.rest.length + r.src.chunk

theorem readStep_progress : Progress (Quiet P) (Stalled P) effort (readStep P) := by
  rintro ⟨src, done, rest⟩ w
  cases src with
  | iso7816 src =>
    obtain ⟨y, v, hy, hq, hm⟩ := Iso7816.readStep_progress (P := P) ⟨src, done, rest⟩ w
    refine ⟨_, v, bind_eq_some.mpr ⟨y, v, hy, rfl⟩, hq, ?_⟩
    intro x' hx
    cases y with
    | inr o => cases hx
    | inl r =>
      cases hx
      exact .inl ((hm r rfl).resolve_right fun h => h.2)
  | infnoise src =>
    obtain ⟨y, v, hy, hq, hm⟩ := Infnoise.readStep_progress (P := P) ⟨src, done, rest⟩ w
    refine ⟨_, v, bind_eq_some.mpr ⟨y, v, hy, rfl⟩, hq, ?_⟩
    intro x' hx
    cases y with
    | inr o => cases hx
    | inl r =>
      cases hx
      exact hm r rfl
  | empty => exact ⟨_, w, rfl, Std.Refl.refl w, fun _ h => by cases h⟩

theorem read_returns (h : P.Patient w.env) (s : SlotInner) (buf : List UInt8) :
    ∃ o w', s.read P buf w = some (o, w') := by
  obtain ⟨⟨o, w'⟩, ho⟩ := loop_returns readStep_progress (.start s buf) w h.acc
  exact ⟨o, w', by rw [read_eq_loop, ho]⟩

end SlotInner

/-- A read from a card returns on every machine. -/
theorem Iso7816.read_returns (src : Iso7816.Source) (buf : List UInt8) (w : World W) :
    ∃ o w', src.read P buf w = some (o, w') := by
  obtain ⟨⟨o, w'⟩, ho⟩ := loop_returns Iso7816.readStep_progress (.start src buf) w
    fun v _ => ⟨v, fun _ h => h.elim⟩
  exact ⟨o, w', ho⟩

end P11Rand
