import P11Rand.Lifecycle

/-! Requests for no bytes at all. -/
namespace P11Rand

open Effect Run

variable {W : Type} {P : Platform W} {w w' : World W} {cfg : Config} {m m' : Module} {rv : Rv}
  {h len : CkUlong} {buf buf' : Option (List UInt8)} {s : Session}

/-- The pointer from which `C_GenerateRandom` builds its slice, in the calls that come to it. -/
def Module.slicePointer (m : Module) (h : CkUlong) (buf : Option (List UInt8)) (len : CkUlong) :
    Option (Option (List UInt8)) :=
  if buf.isNone ∧ len > 0 then none
  else if ¬ m.initialized then none
  else
    match m.findSession h with
    | none => none
    | some _ => some buf

theorem slicePointer_of_live (hinit : m.initialized = true)
    (hf : m.findSession h = some (h.toNat - 1)) (hnull : ¬ (buf = none ∧ 0 < len)) :
    m.slicePointer h buf len = some buf := by
  unfold Module.slicePointer
  rw [if_neg (by simpa using hnull), if_neg (by simp [hinit]), hf]

/-- A call reads exactly where it builds a slice. -/
theorem slicePointer_spec (hc : m.cGenerateRandom P h buf len w = some ((rv, m', buf'), w')) :
    (m.slicePointer h buf len = none ∧ m' = m ∧ w' = w) ∨
      m.slicePointer h buf len = some buf ∧ ∃ s res pool slice,
        m.sessions[h.toNat - 1]? = some (some s) ∧
        s.pool.read P ((buf.getD []).take len.toNat) w = some ((res, pool, slice), w') := by
  by_cases hnull : buf = none ∧ 0 < len
  · have hnone : m.slicePointer h buf len = none := if_pos (by simpa using hnull)
    unfold Module.cGenerateRandom at hc
    rw [if_pos (by simpa using hnull)] at hc
    cases hc
    exact .inl ⟨hnone, rfl, rfl⟩
  · rcases Module.cGenerateRandom_spec hc with
      ⟨rfl, rfl, hstop⟩ | ⟨s, res, pool, slice, hinit, hf, hs, hread, _⟩
    · refine .inl ⟨?_, rfl, rfl⟩
      unfold Module.slicePointer
      rw [if_neg (by simpa using hnull)]
      rcases hstop with hnull' | hinit | hf
      · exact absurd hnull' hnull
      · simp [hinit]
      · simp [hf]
    · exact .inr ⟨slicePointer_of_live hinit hf hnull, s, res, pool, slice, hs, hread⟩

theorem Pool.setSlot_self {p : Pool} {i : Nat} {slot : Slot} (hs : p.slots[i]? = some slot) :
    p.setSlot i slot = p := by
  obtain ⟨hi, rfl⟩ := List.getElem?_eq_some_iff.mp hs
  simp [setSlot]

/-- An open source has nothing to do for an empty buffer. -/
theorem SlotInner.read_nil {inner : SlotInner} (hne : inner ≠ .empty) (w : World W) :
    inner.read P [] w = some (⟨.ok (), inner, [], []⟩, w) := by
  cases inner with
  | iso7816 src =>
    have hloop : Iso7816.Source.read P src [] w = some (⟨.ok (), src, [], []⟩, w) :=
      loop_of_inr rfl
    exact bind_of_eq hloop
  | infnoise src =>
    have hloop : Infnoise.Source.read P src [] w = some (⟨.ok (), src, [], []⟩, w) :=
      loop_of_inr rfl
    exact bind_of_eq hloop
  | empty => exact absurd rfl hne

namespace Pool

variable {p p' : Pool}

theorem read_nil_chain (hc : p.config.useChain = true) (w : World W) :
    p.read P [] w = some ((.ok (), p, []), w) := by
  unfold read
  rw [if_pos hc, readChain]
  rfl

theorem read_nil_passthrough {slot : Slot} (hc : p.config.useChain = false)
    (hs : p.slots[0]? = some slot) (hne : slot.inner ≠ .empty) (w : World W) :
    p.read P [] w = some ((.ok (), p, []),
      { w with log := w.log ++ [.pass slot.inner.device true []] }) := by
  have hread : p.readSlot P 0 [] w = some ((⟨.ok (), slot.inner, [], []⟩, p), w) := by
    unfold readSlot
    rw [hs]
    dsimp only
    rw [bind_of_eq (SlotInner.read_nil hne w)]
    exact congrArg (fun q => some (_, w)) (setSlot_self hs)
  unfold read
  rw [if_neg (by simp [hc])]
  exact bind_of_eq hread

/-- A slot left empty is rebound even then, or the read fails. -/
theorem read_nil_empty {slot : Slot} {buf : List UInt8} (hc : p.config.useChain = false)
    (hs : p.slots[0]? = some slot) (hempty : slot.inner = .empty)
    (h : p.read P [] w = some ((.ok (), p', buf), w')) : p' ≠ p := by
  unfold read at h
  rw [if_neg (by simp [hc])] at h
  obtain ⟨⟨o, q⟩, v, ho, h⟩ := bind_eq_some.mp h
  obtain ⟨slot', hs', hread, rfl⟩ := readSlot_cases ho
  obtain rfl : slot = slot' := Option.some.inj (hs.symm.trans hs')
  rw [hempty] at hread
  cases hread
  replace h := of_emit h
  obtain ⟨⟨res, q'⟩, u, hreb, h⟩ := bind_eq_some.mp h
  obtain ⟨slot', ev, hs', hrebound, _⟩ := rebind_cases hreb
  have hlt : 0 < (p.setSlot 0 { slot with inner := .empty }).slots.length :=
    (List.getElem?_eq_some_iff.mp hs').1
  cases hrebound with
  | failed => cases h
  | @bound name src _ _ _ _ hopen _ =>
    have hd := (SlotKind.openSource_opened hopen).device
    obtain ⟨⟨o, q'⟩, u', ho, h⟩ := bind_eq_some.mp h
    obtain ⟨hread, rfl⟩ := readSlot_stored hlt ho
    have hdev : o.src.device = some name := hread.device.trans hd
    replace h := of_emit h
    cases hok : o.ok with
    | false =>
      simp only [hok, Bool.false_eq_true, if_false] at h
      cases h
    | true =>
      simp only [hok, if_true] at h
      cases h
      intro heq
      have hlt' : 0 < p.slots.length := (List.getElem?_eq_some_iff.mp hs).1
      have hget : p.slots[0]? = some ⟨slot'.kind, some name, o.src⟩ := by
        conv_lhs => rw [← heq]
        simp [hlt']
      obtain rfl := Option.some.inj (hs.symm.trans hget)
      dsimp only at hempty
      rw [hempty] at hdev
      cases hdev

end Pool

/-- The call succeeds without device access and leaves the module as it is, and its slice is
built from a pointer that is not NULL. -/
structure Module.Harmless (P : Platform W) (m : Module) (h : CkUlong)
    (buf : Option (List UInt8)) (w : World W) : Prop where
  runs : Yields (m.cGenerateRandom P h buf 0) w fun r w' =>
    r.1 = .ok ∧ r.2.1 = m ∧ w'.env = w.env ∧ w'.trace = w.trace
  slice : m.slicePointer h buf 0 ≠ some none

/-- What the call makes of a read of no bytes that succeeds. -/
theorem cGenerateRandom_nil (log : List PoolEvent) (hinit : m.initialized = true)
    (hf : m.findSession h = some (h.toNat - 1))
    (hs : m.sessions[h.toNat - 1]? = some (some s))
    (hread : s.pool.read P [] w = some ((.ok (), s.pool, []), { w with log })) (buf) :
    m.cGenerateRandom P h buf 0 w = some ((.ok, m, buf), { w with log }) := by
  obtain ⟨hi, hget⟩ := List.getElem?_eq_some_iff.mp hs
  have hset : m.sessions.set (h.toNat - 1) (some s) = m.sessions := by
    rw [← hget, List.set_getElem_self]
  unfold Module.cGenerateRandom
  rw [if_neg (by simp), if_neg (by simp [hinit]), hf]
  dsimp only
  rw [hs]
  refine (bind_of_eq (x := s.pool.read P _) hread).trans ?_
  cases buf <;> simp [hset]

/-- A call for no bytes that succeeds and leaves the module as it is made a read of no bytes that
left the pool as it is. -/
theorem read_of_cGenerateRandom_nil {buf buf' : Option (List UInt8)}
    (hinit : m.initialized = true) (hf : m.findSession h = some (h.toNat - 1))
    (hs : m.sessions[h.toNat - 1]? = some (some s))
    (hc : m.cGenerateRandom P h buf 0 w = some ((.ok, m, buf'), w')) :
    ∃ slice, s.pool.read P [] w = some ((.ok (), s.pool, slice), w') := by
  obtain ⟨_, _, hstop⟩ | ⟨s', res, pool, slice, _, _, hs', hread, hm, hrv⟩ :=
    Module.cGenerateRandom_spec hc
  · rw [hinit, hf] at hstop
    simp at hstop
  · obtain rfl : s = s' := Option.some.inj (Option.some.inj (hs.symm.trans hs'))
    have hlen : h.toNat - 1 < m.sessions.length := (List.getElem?_eq_some_iff.mp hs).1
    have hres : res = .ok () := by
      by_contra hne
      rw [if_neg hne] at hrv
      cases hrv
    have hpool : pool = s.pool := by
      have hget := hs
      rw [hm] at hget
      simp only [List.getElem?_set_self hlen, Option.some.injEq] at hget
      rw [← hget]
    have htake : (buf.getD []).take (0 : CkUlong).toNat = [] := List.take_zero
    rw [htake, hres, hpool] at hread
    exact ⟨slice, hread⟩

/-- A request for no bytes is harmless exactly if its pointer is not NULL and the pool does not
read from a slot that an earlier failure left empty. -/
theorem zero_length_harmless_iff (hrun : ModuleRun P cfg m w) (hinit : m.initialized = true)
    (hs : m.sessions[h.toNat - 1]? = some (some s)) (hlive : h ≠ 0) (buf : Option (List UInt8)) :
    m.Harmless P h buf w ↔ buf ≠ none ∧ (cfg.useChain = true ∨
      ∀ slot, s.pool.slots[0]? = some slot → slot.inner ≠ .empty) := by
  have hok := hrun.sessions s (List.mem_of_getElem? hs)
  have hf : m.findSession h = some (h.toNat - 1) := by simp [Module.findSession, hlive, hs]
  have hptr : m.slicePointer h buf 0 = some buf := slicePointer_of_live hinit hf (by simp)
  constructor
  · rintro ⟨⟨⟨rv, m', buf'⟩, w', hc, rfl, rfl, _, _⟩, hslice⟩
    refine ⟨fun hnull => hslice (by rw [hptr, hnull]), ?_⟩
    by_contra hno
    obtain ⟨hc', hslot⟩ := not_or.mp hno
    push Not at hslot
    obtain ⟨slot, hslot, hempty⟩ := hslot
    have hchain : s.pool.config.useChain = false := by
      rw [hok.config]
      simpa using hc'
    obtain ⟨slice, hread⟩ := read_of_cGenerateRandom_nil hinit hf hs hc
    exact Pool.read_nil_empty hchain hslot hempty hread rfl
  · rintro ⟨hnull, hstate⟩
    have hslice : m.slicePointer h buf 0 ≠ some none := by
      rw [hptr]
      exact fun he => hnull (Option.some.inj he)
    cases hchain : s.pool.config.useChain with
    | true =>
      exact ⟨⟨_, _, cGenerateRandom_nil w.log hinit hf hs
        (Pool.read_nil_chain hchain w) buf, rfl, rfl, rfl, rfl⟩, hslice⟩
    | false =>
      have hlt : 0 < s.pool.slots.length := by
        rw [hok.slots.length_eq]
        exact Config.poolSize_pos hok.valid
      have hget : s.pool.slots[0]? = some s.pool.slots[0] := List.getElem?_eq_getElem hlt
      have hne : s.pool.slots[0].inner ≠ .empty := by
        rcases hstate with hc | hslots
        · rw [← hok.config, hchain] at hc
          cases hc
        · exact hslots _ hget
      exact ⟨⟨_, _, cGenerateRandom_nil _ hinit hf hs
        (Pool.read_nil_passthrough hchain hget hne w) buf, rfl, rfl, rfl, rfl⟩, hslice⟩

theorem zero_length_harmless_iff_smartcard : ∃ w : World Unit,
    ModuleRun Bench.smartcard.machine Bench.oneCard Bench.cardModule w ∧
    (Bench.cardModule.Harmless Bench.smartcard.machine 1 (some []) w ↔
      some [] ≠ (none : Option (List UInt8)) ∧ (Bench.oneCard.useChain = true ∨
        ∀ slot, Bench.cardSession.pool.slots[0]? = some slot → slot.inner ≠ .empty)) := by
  obtain ⟨trace, hrun⟩ := Bench.run_smartcard
  exact ⟨_, hrun, zero_length_harmless_iff (s := Bench.cardSession) hrun rfl rfl (by decide) _⟩

/-- NULL passes the check on the arguments, and the slice is built from it. -/
theorem zero_length_builds_null_slice : ∃ w w' : World Unit,
    ModuleRun Bench.smartcard.machine Bench.oneCard Bench.cardModule w ∧
    Bench.cardModule.initialized = true ∧
    Bench.cardModule.sessions[(1 : CkUlong).toNat - 1]? = some (some Bench.cardSession) ∧
    Bench.cardModule.slicePointer 1 none 0 = some none ∧
    Bench.cardModule.cGenerateRandom Bench.smartcard.machine 1 none 0 w =
      some ((.ok, Bench.cardModule, none), w') := by
  obtain ⟨trace, hrun⟩ := Bench.run_smartcard
  have hread := Pool.read_nil_passthrough (P := Bench.smartcard.machine)
    (p := Bench.cardSession.pool) rfl rfl (by simp) (Bench.running trace)
  exact ⟨_, _, hrun, rfl, rfl, rfl, cGenerateRandom_nil _ rfl rfl rfl hread none⟩

end P11Rand
