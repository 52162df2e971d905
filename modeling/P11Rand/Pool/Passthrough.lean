import P11Rand.Delivery
import P11Rand.Pool.Invariant

/-! Raw passthrough: one source, at most one rebind, and the bytes of one read. -/
namespace P11Rand

open Effect Run

variable {W : Type} {P : Platform W} {w w' v : World W} {p p' : Pool} {buf buf' : List UInt8}

/-- `bytes` is all that one read of `n` bytes got on the handle of `s`. -/
structure OneRead (s : SlotInner) (n : Nat) (w w' : World W) (bytes : List UInt8) : Prop where
  length : bytes.length = n
  source : ∃ es, w'.trace = w.trace ++ es ∧ (∀ e ∈ es, s.On e.request) ∧
    bytes = (payload es).take n

theorem OneRead.of_handle {s t : SlotInner} {n : Nat} {bytes : List UInt8}
    (h : s.handle = t.handle) (hr : OneRead s n w w' bytes) : OneRead t n w w' bytes := by
  obtain ⟨es, htrace, hon, hbytes⟩ := hr.source
  exact ⟨hr.length, es, htrace, fun e he => SlotInner.on_of_handle h (hon e he), hbytes⟩

/-- Logging an event is no exchange. -/
theorem OneRead.emitted {s : SlotInner} {n : Nat} {bytes : List UInt8} {log : List PoolEvent}
    (h : OneRead s n w w' bytes) : OneRead s n w { w' with log } bytes := ⟨h.length, h.source⟩

theorem read_oneRead {s : SlotInner} {o : Outcome SlotInner Unit} (hc : s.chunk ≤ 128)
    (h : s.read P buf w = some (o, w')) (hok : o.ok = true) :
    o.buf = o.done ∧ OneRead s buf.length w w' o.done := by
  obtain ⟨_, _, hl, hfull⟩ := SlotInner.read_keeps h
  have hrest := hfull hok
  obtain ⟨es, htrace, hon, hdone⟩ := (SlotInner.read_filled hc h).done
  exact ⟨by simp [Outcome.buf, hrest], by simpa [hrest] using hl, es, htrace, hon, hdone⟩

namespace Pool

/-- How a passthrough read of `n` bytes from slot `s` ended, and what the slot is then. -/
inductive Passed (P : Platform W) (s : Slot) (n : Nat) (w w' : World W) :
    Except Error Unit → Slot → List UInt8 → List PoolEvent → Prop
  | first {src : SlotInner} {bytes : List UInt8} : src.handle = s.inner.handle →
      OneRead s.inner n w w' bytes →
      Passed P s n w w' (.ok ()) { s with inner := src } bytes [.pass s.inner.device true bytes]
  | unbound {e : Error} {filled buf' : List UInt8} :
      Passed P s n w w' (.error e) s.closed buf'
        [.pass s.inner.device false filled, .rebind 0 none]
  | retried {name : String} {src src' : SlotInner} {u u' v : World W}
      {filled bytes : List UInt8} : Later P w u →
      s.kind.openSource P name u = some (some src, u') → Later P u' v →
      src'.handle = src.handle → OneRead src n v w' bytes →
      Passed P s n w w' (.ok ()) ⟨s.kind, some name, src'⟩ bytes
        [.pass s.inner.device false filled, .rebind 0 (some name), .pass (some name) true bytes]
  | failed {name : String} {src src' : SlotInner} {u u' : World W}
      {filled filled' buf' : List UInt8} : Later P w u →
      s.kind.openSource P name u = some (some src, u') → src'.handle = src.handle →
      Passed P s n w w' (.error .readFailure) ⟨s.kind, some name, src'⟩ buf'
        [.pass s.inner.device false filled, .rebind 0 (some name), .pass (some name) false filled']

theorem readPassthrough_cases {res : Except Error Unit} (hok : SlotsOk p.config p.slots)
    (h : p.readPassthrough P buf w = some ((res, p', buf'), w')) :
    ∃ s s' evs, p.slots[0]? = some s ∧ p' = p.setSlot 0 s' ∧ w'.log = w.log ++ evs ∧
      buf'.length = buf.length ∧ p.Evolves p' ∧ Later P w w' ∧
      Passed P s buf.length w w' res s' buf' evs := by
  obtain ⟨⟨o, q⟩, v, ho, h⟩ := bind_eq_some.mp h
  obtain ⟨s, hs, _⟩ := readSlot_cases ho
  have hr := readSlot_spec hs ho
  have hlt : 0 < p.slots.length := (List.getElem?_eq_some_iff.mp hs).1
  obtain rfl := hr.pool
  replace h := of_emit h
  cases hres : o.ok with
  | true =>
    obtain ⟨hbuf, hone⟩ := read_oneRead (hok.chunk s (List.mem_of_getElem? hs)) hr.read hres
    simp only [hres, if_true] at h
    cases h
    refine ⟨s, _, [.pass s.inner.device true o.done], hs, rfl, by simp [hr.does.log, hr.device],
      hr.length, hr.evolves, hr.does.later.emitted, ?_⟩
    rw [hbuf]
    exact .first hr.handle hone.emitted
  | false =>
    simp only [hres, Bool.false_eq_true, if_false] at h
    obtain ⟨⟨r, q⟩, u, hreb, h⟩ := bind_eq_some.mp h
    obtain ⟨s₁, ev, hs₁, hreb, hlog, hlat⟩ := rebind_cases hreb
    obtain rfl : { s with inner := o.src } = s₁ := by simpa [hlt] using hs₁
    have hlat' : Later P w u := IsTrans.trans _ _ _ hr.does.later hlat.of_emitted
    have hev := hr.evolves.trans (hreb.evolves hs₁)
    have hlog' : u.log = w.log ++ [.pass s.inner.device false o.done, ev] := by
      simp [hlog, hr.does.log, hr.device]
    cases hreb with
    | failed =>
      cases h
      rw [setSlot_setSlot] at hev ⊢
      exact ⟨s, s.closed, _, hs, rfl, hlog', hr.length, hev, hlat', .unbound⟩
    | @bound name src u₁ u₂ hfree hu₁ hopen hu₂ =>
      obtain ⟨⟨o₂, q'⟩, u₃, ho₂, h⟩ := bind_eq_some.mp h
      rw [setSlot_setSlot] at ho₂ hev
      obtain ⟨hr₂, rfl⟩ := readSlot_stored hlt ho₂
      have hopened := SlotKind.openSource_opened hopen
      have hev₂ := hev.trans hr₂.evolves
      have hdev₂ : o₂.src.device = some name := hr₂.device.trans hopened.device
      have hlat₂ : Later P w u₃ := IsTrans.trans _ _ _ hlat' hr₂.does.later
      have hu : Later P w u₁ := IsTrans.trans _ _ _ hr.does.later hu₁.of_emitted
      have hlen₂ := hr₂.length.trans hr.length
      replace h := of_emit h
      cases hres₂ : o₂.ok with
      | true =>
        obtain ⟨hbuf, hone⟩ := read_oneRead hopened.chunk hr₂.read hres₂
        simp only [hres₂, if_true] at h
        cases h
        refine ⟨s, _, [.pass s.inner.device false o.done, .rebind 0 (some name),
          .pass (some name) true o₂.done], hs, rfl, by simp [hr₂.does.log, hlog', hdev₂], hlen₂,
          hev₂, hlat₂.emitted, ?_⟩
        rw [hbuf]
        exact .retried hu hopen hu₂ hr₂.handle (hr.length ▸ hone.emitted)
      | false =>
        simp only [hres₂, Bool.false_eq_true, if_false] at h
        cases h
        exact ⟨s, _, [.pass s.inner.device false o.done, .rebind 0 (some name),
          .pass (some name) false o₂.done], hs, rfl, by simp [hr₂.does.log, hlog', hdev₂], hlen₂,
          hev₂, hlat₂.emitted, .failed hu hopen hr₂.handle⟩

end Pool
end P11Rand
