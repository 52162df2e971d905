import P11Rand.Answers
import P11Rand.Fillable
import P11Rand.Pool.Healing

/-! What the entry points do while enough devices work. -/
namespace P11Rand

open Effect Run

variable {W : Type} {P : Platform W} {w w' : World W} {cfg : Config} {m : Module}

namespace Module

/-- The module comes up with its token present. -/
theorem cInitialize_supplied (hinit : m.initialized = false)
    (hstart : Yields (globalInit P cfg) w fun r v => r = .ok () ∧ Plenty P v cfg) :
    Yields (m.cInitialize P cfg none) w fun r v => r = (.ok,
      ⟨true, [⟨cfg.slotName, true⟩], cleared (fun _ => true) m.sessions⟩) ∧ Plenty P v cfg := by
  obtain ⟨_, v, hglobal, rfl, hpl⟩ := hstart
  obtain ⟨_, u, hfill, rfl, hpl⟩ := hpl.fillable
  obtain ⟨sessions, x, hsweep, hd⟩ := sweep_total (P := P) (fun _ => true) m.sessions u
  obtain rfl := sweep_eq hsweep
  refine ⟨_, x, ?_, rfl, hpl.later hd.later⟩
  unfold cInitialize
  rw [if_neg (by simp [hinit]), if_neg (by simp), bind_of_eq hglobal]
  dsimp only
  rw [bind_of_eq hfill]
  exact bind_of_eq hsweep

/-- The one slot is listed, with the filter or without. -/
theorem cGetSlotList_supplied (hinit : m.initialized = true) (hone : m.slots.length = 1)
    (hpl : Plenty P w cfg) (tokenPresent : UInt8) (pList : Option (List CkUlong)) (count : CkUlong)
    (hroom : ∀ list, pList = some list → count.toNat ≤ list.length) :
    Yields (m.cGetSlotList P cfg tokenPresent pList (some count)) w fun r v =>
      (∃ slots, slots.length = 1 ∧ r = ((answered [0] pList count).1, { m with slots },
        (answered [0] pList count).2)) ∧ Plenty P v cfg := by
  have hlisting : Yields (listing P cfg (tokenPresent == ckTrue) m.slots.length) w fun fs v =>
      fs = [true] ∧ Plenty P v cfg := by
    rw [hone]
    cases tokenPresent == ckTrue with
    | false => exact yields_pure ⟨rfl, hpl⟩
    -- only the filter makes the call look at the devices
    | true =>
      obtain ⟨_, v, hfill, rfl, hpl⟩ := hpl.fillable
      exact ⟨_, v, (bind_of_eq hfill).trans rfl, rfl, hpl⟩
  obtain ⟨_, v, hfs, rfl, hpl⟩ := hlisting
  obtain ⟨slots, hafter, hlen⟩ := afterProbes_slots hfs
  refine ⟨_, v, cGetSlotList_eq tokenPresent pList count hinit hroom hfs, ⟨slots, ?_, ?_⟩, hpl⟩
  · rw [hlen, hone]
  · rw [hafter]
    rfl

/-- A session is opened while the table has room. -/
theorem cOpenSession_supplied {slot flags : CkUlong} (hv : cfg.validate = .ok ())
    (hinit : m.initialized = true) (hserial : flags &&& ckfSerialSession ≠ 0)
    (hslot : slot.toNat < m.slots.length) (hfree : none ∈ m.sessions) (hpl : Plenty P w cfg) :
    Yields (m.cOpenSession P cfg slot flags (some 0)) w fun r v => Plenty P v cfg ∧
      ∃ idx pool slots, m.sessions.findIdx? Option.isNone = some idx ∧
        Pool.open P cfg w = some (.ok pool, v) ∧
        r = (.ok, { m with slots, sessions := m.sessions.set idx (some ⟨slot, flags, pool⟩) },
          some (UInt64.ofNat (idx + 1))) := by
  obtain ⟨_, v, hopen, ⟨pool, rfl⟩, hpl⟩ := hpl.open hv
  obtain ⟨idx, hidx⟩ : ∃ idx, m.sessions.findIdx? Option.isNone = some idx := by
    cases hidx : m.sessions.findIdx? Option.isNone with
    | none =>
      have hall := List.findIdx?_eq_none_iff.mp hidx none hfree
      simp at hall
    | some idx => exact ⟨idx, rfl⟩
  obtain ⟨m₁, u, hset, _⟩ := setTokenPresent_total (P := P) (w := v) hslot true
  obtain ⟨slots, rfl, _, rfl⟩ := setTokenPresent_cases hset
  refine ⟨_, u, ?_, hpl, idx, pool, slots, hidx, hopen, rfl⟩
  unfold cOpenSession
  rw [if_neg (by simp), if_neg hserial, if_neg (by simp [hinit]), if_neg (by omega), hidx]
  dsimp only
  rw [bind_of_eq hopen]
  exact bind_of_eq hset

/-- A session that is open fills any buffer. -/
theorem cGenerateRandom_supplied {h len : CkUlong} {s : Session} (hi : m.Inv cfg)
    (hinv : s.Inv cfg) (hinit : m.initialized = true) (hs : m.session h = some s)
    (hp : P.Patient w.env) (hpl : Plenty P w cfg) (buf : List UInt8) :
    Yields (m.cGenerateRandom P h (some buf) len) w fun r v => Plenty P v cfg ∧ r.1 = .ok ∧
      r.2.1.initialized = true ∧ ∃ pool bytes,
        r.2.1.session = Function.update m.session h (some { s with pool }) ∧
        r.2.2 = some bytes ∧ bytes.length = buf.length := by
  obtain ⟨idx, hidx⟩ := Option.ne_none_iff_exists'.mp (found_of_session hs)
  obtain ⟨_, rfl, s', hs'⟩ := findSession_cases hidx
  obtain rfl : s = s' := Option.some.inj (hs.symm.trans (session_of_found hidx hs'))
  obtain ⟨pool, bytes, v, hread⟩ :=
    Pool.read_heals hpl hp hinv.valid hinv.config hinv.slots (buf.take len.toNat)
  obtain ⟨_, hlat⟩ := hinv.read hread
  have hbytes := Pool.read_length (hinv.config ▸ hinv.slots) hread
  have hset := session_set hi.table (List.getElem?_eq_some_iff.mp hs').1 m.slots
    (some { s with pool })
  rw [handle_of_found hidx] at hset
  refine ⟨(.ok, { m with sessions := m.sessions.set (h.toNat - 1) (some { s with pool }) },
    some (bytes ++ buf.drop len.toNat)), v, ?_, hpl.later hlat, rfl, hinit,
    pool, _, hset, rfl, by rw [List.length_append, hbytes, ← List.length_append,
      List.take_append_drop]⟩
  unfold cGenerateRandom
  rw [if_neg (by simp), if_neg (by simp [hinit]), hidx]
  dsimp only
  rw [hs', Option.getD_some]
  dsimp only
  rw [bind_of_eq hread]
  rfl

end Module

end P11Rand
