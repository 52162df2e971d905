import P11Rand.Disturbance

/-! What the calls that probe the pool, and the closing of other sessions, do to the cards that a
live session holds. -/
namespace P11Rand

open Effect Run

variable {W : Type} {P : Platform W} {w w' : World W} {cfg : Config} {m m' : Module} {r : String}

/-- What a probe of the pool does: ordinary requests, after which a card was disturbed just if
some answer of it said so. -/
structure Probed (P : Platform W) (r : String) (w w' : World W) : Prop where
  does : Does P (fun _ => True) w w'
  matched : Matched r w w'

instance : IsPreorder (World W) (Probed P r) where
  refl w := ⟨Std.Refl.refl w, Std.Refl.refl w⟩
  trans _ _ _ h h' := ⟨IsTrans.trans _ _ _ h.does h'.does, IsTrans.trans _ _ _ h.matched h'.matched⟩

theorem fillable_probed (r : String) (cfg : Config) : Total (Probed P r) (fillable P cfg) := by
  intro w
  obtain ⟨res, v, h, hdoes⟩ := fillable_total (P := P) cfg w
  exact ⟨res, v, h, hdoes, fillable_matched r cfg _ _ _ h⟩

namespace Module

theorem refreshSlot_probed {i : Nat} (r : String) (hi : i < m.slots.length) :
    Total (Probed P r) (m.refreshSlot P cfg i) := by
  refine total_bind (fillable_probed r cfg) fun res => total_bind ?_ fun _ => total_pure _
  intro w
  obtain ⟨m', v, h, hdoes⟩ := setTokenPresent_total (P := P) hi (res.toOption.getD false) w
  obtain ⟨_, _, _, rfl⟩ := setTokenPresent_cases h
  exact ⟨m', _, h, hdoes, Std.Refl.refl _⟩

theorem countSlots_probed {filter : Bool} {is : List Nat} (r : String) (want : Nat)
    (his : ∀ i ∈ is, i < m.slots.length) :
    Total (Probed P r) (countSlots P cfg filter is m want) := by
  induction is generalizing m want with
  | nil => exact total_pure _
  | cons i is ih =>
    have htail : ∀ j ∈ is, j < m.slots.length := fun j hj => his j (List.mem_cons_of_mem _ hj)
    unfold countSlots
    split
    · apply total_bind_of (refreshSlot_probed r (his i List.mem_cons_self))
      rintro ⟨present, m'⟩ w w' h
      obtain ⟨slots, rfl, hsame⟩ := refreshSlot_cases h
      rw [← hsame.length_eq] at htail
      cases present with
      | true => exact ih _ htail
      | false => exact ih _ htail
    · exact ih _ htail

theorem cGetSlotList_probed (r : String) (tokenPresent : UInt8) (pList : Option (List CkUlong))
    (pCount : Option CkUlong) :
    Total (Probed P r) (m.cGetSlotList P cfg tokenPresent pList pCount) := by
  unfold cGetSlotList
  cases pCount with
  | none => exact total_pure _
  | some count =>
    dsimp only
    split
    · exact total_pure _
    · apply total_bind (countSlots_probed r _ fun i hi => List.mem_range.mp hi)
      intro p
      cases pList with
      | none => exact total_pure _
      | some list =>
        dsimp only
        split <;> exact total_pure _

theorem cGetSlotInfo_probed (r : String) (slot : CkUlong) (pInfo : Option CkSlotInfo) :
    Total (Probed P r) (m.cGetSlotInfo P cfg slot pInfo) := by
  unfold cGetSlotInfo
  split
  · exact total_pure _
  split
  · exact total_pure _
  cases hs : m.slots[slot.toNat]? with
  | none => exact total_pure _
  | some s =>
    have hslot : slot.toNat < m.slots.length := (List.getElem?_eq_some_iff.mp hs).1
    exact total_bind (refreshSlot_probed r hslot) fun _ => total_pure _

theorem cGetTokenInfo_probed (r : String) (slot : CkUlong) (pInfo : Option CkTokenInfo) :
    Total (Probed P r) (m.cGetTokenInfo P cfg slot pInfo) := by
  unfold cGetTokenInfo
  split
  · exact total_pure _
  split
  · exact total_pure _
  split
  · exact total_pure _
  rename_i hslot
  apply total_bind (refreshSlot_probed r (not_le.mp hslot))
  rintro ⟨present, m'⟩
  cases present with
  | true => exact total_pure _
  | false => exact total_pure _

theorem cCloseSession_total (h : CkUlong) :
    Total (Does P fun _ => True) (m.cCloseSession P h) := by
  unfold cCloseSession
  split
  · exact total_pure _
  cases hf : m.findSession h with
  | none => exact total_pure _
  | some idx =>
    obtain ⟨_, _, s, hs⟩ := findSession_cases hf
    dsimp only
    rw [hs]
    exact total_bind (dropSlots_total s.pool.slots) fun _ => total_pure _

end Module

/-- A call that only probes the pool, or ends another session than the `i`-th. -/
def Call.Probes (m : Module) (i : Nat) : Call → Prop
  | .cGetSlotList _ _ _ | .cGetSlotInfo _ _ | .cGetTokenInfo _ _ => True
  | .cCloseSession h => m.findSession h ≠ some i
  | _ => False

def SlotInner.reader? : SlotInner → Option String
  | .iso7816 src => some src.card.reader
  | _ => none

/-- The readers that the slots of a session's pool are connected to. -/
def Session.readers (s : Session) : List String :=
  s.pool.slots.filterMap fun slot => slot.inner.reader?

theorem SlotInner.drop_disturbs {inner : SlotInner} (h : inner.drop P w = some ((), w')) :
    ∃ es, w'.trace = w.trace ++ es ∧
      ((∃ e ∈ es, e.Disturbs r) ↔ inner.reader? = some r) := by
  cases inner with
  | iso7816 src =>
    obtain ⟨ans, v, hq, h⟩ := bind_eq_some.mp h
    cases h
    refine ⟨_, (request_eq_some hq).2, ?_⟩
    simp [Exchange.Disturbs, reader?]
  | infnoise src =>
    cases h
    exact ⟨[], by simp, by simp [reader?]⟩
  | empty =>
    cases h
    exact ⟨[], by simp, by simp [reader?]⟩

/-- Dropping slots disturbs the cards they are connected to, and no other. -/
theorem dropSlots_disturbs {slots : List Slot} (h : dropSlots P slots w = some ((), w')) :
    ∃ es, w'.trace = w.trace ++ es ∧
      ((∃ e ∈ es, e.Disturbs r) ↔ r ∈ slots.filterMap fun slot => slot.inner.reader?) := by
  induction slots generalizing w with
  | nil =>
    cases h
    exact ⟨[], by simp, by simp⟩
  | cons slot slots ih =>
    obtain ⟨_, v, hdrop, h⟩ := bind_eq_some.mp h
    obtain ⟨es, he, hiff⟩ := SlotInner.drop_disturbs (r := r) hdrop
    obtain ⟨es', he', hiff'⟩ := ih h
    refine ⟨es ++ es', by rw [he', he, List.append_assoc], ?_⟩
    simp only [List.mem_append, or_and_right, exists_or, hiff, hiff', List.mem_filterMap,
      List.mem_cons, exists_eq_left]

/-- One probing call, made on `module`. -/
structure Probe where
  module : Module
  call : Call
  exchanges : List Exchange

/-- A closed session is not connected to the reader; or no card that answers for it passes. -/
def Probe.Spares (r : String) (p : Probe) : Prop :=
  match p.call with
  | .cCloseSession h => ∀ i s, p.module.findSession h = some i →
      p.module.sessions[i]? = some (some s) → r ∉ s.readers
  | _ => ∀ e ∈ p.exchanges, ¬ e.Passes r

theorem Probe.spares_of_ne {c : Call} {es : List Exchange}
    (h : ∀ handle, c ≠ .cCloseSession handle) :
    Probe.Spares r ⟨m, c, es⟩ ↔ ∀ e ∈ es, ¬ e.Passes r := by
  cases c with
  | cCloseSession handle => exact absurd rfl (h handle)
  | _ => exact Iff.rfl

/-- Probing calls, and time passing between them. -/
inductive ProbeRun (P : Platform W) (cfg : Config) (i : Nat) (m : Module) (w : World W) :
    List Probe → Module → World W → Prop
  | start : ProbeRun P cfg i m w [] m w
  | elapsed {probes : List Probe} {m' : Module} {v w' : World W} :
      ProbeRun P cfg i m w probes m' v → w'.global = v.global → w'.trace = v.trace →
      w'.log = v.log → ProbeRun P cfg i m w probes m' w'
  | called {probes : List Probe} {c : Call} {es : List Exchange} {rv : Rv} {m₁ m' : Module}
      {v w' : World W} : ProbeRun P cfg i m w probes m₁ v → c.Probes m₁ i →
      c.run P cfg m₁ v = some ((rv, m'), w') → w'.trace = v.trace ++ es →
      ProbeRun P cfg i m w (probes ++ [⟨m₁, c, es⟩]) m' w'

/-- A call that probes the pool returns, and disturbs a card just if some answer of it said so. -/
theorem Call.probe_probed {c : Call} {i : Nat} (r : String) (hc : c.Probes m i)
    (hclose : ∀ h, c ≠ .cCloseSession h) : Total (Probed P r) (c.run P cfg m) := by
  cases c with
  | cGetSlotList tokenPresent pList pCount =>
    exact total_bind (Module.cGetSlotList_probed r _ _ _) fun _ => total_pure _
  | cGetSlotInfo slot pInfo =>
    exact total_bind (Module.cGetSlotInfo_probed r _ _) fun _ => total_pure _
  | cGetTokenInfo slot pInfo =>
    exact total_bind (Module.cGetTokenInfo_probed r _ _) fun _ => total_pure _
  | cCloseSession h => exact absurd rfl (hclose h)
  | _ => cases hc

theorem Call.probe_total {c : Call} {i : Nat} (hc : c.Probes m i) :
    Total (Does P fun _ => True) (c.run P cfg m) := by
  by_cases hclose : ∃ h, c = .cCloseSession h
  · obtain ⟨h, rfl⟩ := hclose
    exact Module.cCloseSession_total h
  · exact (Call.probe_probed "" hc fun h hh => hclose ⟨h, hh⟩).mono fun _ _ h => h.does

/-- A probing call leaves the session as it is. -/
theorem Call.probe_keeps {c : Call} {i : Nat} {rv : Rv} (hc : c.Probes m i)
    (h : c.run P cfg m w = some ((rv, m'), w')) :
    m'.initialized = m.initialized ∧ m'.sessions[i]? = m.sessions[i]? := by
  have hsame : (m' = m ∨ m.initialized = true ∧
      ∃ slots, m' = { m with slots } ∧ SameSlots m.slots slots) →
      m'.initialized = m.initialized ∧ m'.sessions[i]? = m.sessions[i]? := by
    rintro (rfl | ⟨_, slots, rfl, _⟩)
    · exact ⟨rfl, rfl⟩
    · exact ⟨rfl, rfl⟩
  cases c with
  | cGetSlotList tokenPresent pList pCount =>
    obtain ⟨⟨_, _, _, _⟩, _, h, he⟩ := bind_eq_some.mp h
    cases he
    exact hsame (Module.cGetSlotList_cases h)
  | cGetSlotInfo slot pInfo =>
    obtain ⟨⟨_, _, _⟩, _, h, he⟩ := bind_eq_some.mp h
    cases he
    exact hsame (Module.cGetSlotInfo_cases h)
  | cGetTokenInfo slot pInfo =>
    obtain ⟨⟨_, _, _⟩, _, h, he⟩ := bind_eq_some.mp h
    cases he
    exact hsame (Module.cGetTokenInfo_cases h)
  | cCloseSession handle =>
    rcases Module.cCloseSession_cases h with ⟨rfl, _⟩ | ⟨s, _, hf, _, rfl, _⟩
    · exact ⟨rfl, rfl⟩
    · have hne : handle.toNat - 1 ≠ i := fun heq => hc (heq ▸ hf)
      exact ⟨rfl, List.getElem?_set_ne hne⟩
  | _ => cases hc

/-- A probing call leaves the card in `r` undisturbed just if it spares it. -/
theorem Call.probe_disturbs {c : Call} {i : Nat} {rv : Rv} {es : List Exchange}
    (hinit : m.initialized = true) (hc : c.Probes m i) (h : c.run P cfg m w = some ((rv, m'), w'))
    (hes : w'.trace = w.trace ++ es) :
    (∀ e ∈ es, ¬ e.Disturbs r) ↔ Probe.Spares r ⟨m, c, es⟩ := by
  by_cases hclose : ∃ handle, c = .cCloseSession handle
  · obtain ⟨handle, rfl⟩ := hclose
    rcases Module.cCloseSession_cases h with ⟨rfl, rfl, hno⟩ | ⟨s, _, hf, hs, _, hdrop⟩
    · obtain rfl : es = [] := by simpa using hes
      have hnone : m'.findSession handle = none := by simpa [hinit] using hno
      simp [Probe.Spares, hnone]
    · obtain ⟨es', he, hiff⟩ := dropSlots_disturbs (r := r) hdrop
      obtain rfl : es = es' := List.append_cancel_left (hes.symm.trans he)
      simp only [Probe.Spares, hf, Option.some.injEq]
      constructor
      · rintro h _ _ rfl hs' hr
        rw [hs] at hs'
        cases hs'
        obtain ⟨e, hmem, hd⟩ := hiff.mpr hr
        exact h e hmem hd
      · intro h e hmem hd
        exact h _ s rfl hs (hiff.mp ⟨e, hmem, hd⟩)
  · have hne : ∀ handle, c ≠ .cCloseSession handle := fun handle hh => hclose ⟨handle, hh⟩
    obtain ⟨es', he, hiff⟩ := ((Call.probe_probed r hc hne).within _ _ _ h).matched
    obtain rfl : es = es' := List.append_cancel_left (hes.symm.trans he)
    rw [Probe.spares_of_ne hne]
    simpa using not_congr hiff

theorem ProbeRun.keeps {i : Nat} {probes : List Probe} (h : ProbeRun P cfg i m w probes m' w') :
    m'.initialized = m.initialized ∧ m'.sessions[i]? = m.sessions[i]? := by
  induction h with
  | start => exact ⟨rfl, rfl⟩
  | elapsed _ _ _ _ ih => exact ih
  | called _ hc hcall _ ih =>
    obtain ⟨hinit, hs⟩ := Call.probe_keeps hc hcall
    exact ⟨hinit.trans ih.1, hs.trans ih.2⟩

/-- The exchanges of a run of probing calls are those of its calls, and disturb the card in `r`
just if some call does not spare it. -/
theorem ProbeRun.disturbs {i : Nat} {probes : List Probe} (hinit : m.initialized = true)
    (h : ProbeRun P cfg i m w probes m' w') :
    w'.trace = w.trace ++ probes.flatMap Probe.exchanges ∧
      ∀ r, (∀ e ∈ probes.flatMap Probe.exchanges, ¬ e.Disturbs r) ↔
        ∀ p ∈ probes, p.Spares r := by
  induction h with
  | start => exact ⟨by simp, by simp⟩
  | elapsed _ _ htrace _ ih => exact ⟨htrace.trans ih.1, ih.2⟩
  | called hrun hc hcall hes ih =>
    obtain ⟨htrace, hiff⟩ := ih
    have hinit' := hrun.keeps.1.trans hinit
    refine ⟨by simp [hes, htrace], fun r => ?_⟩
    simp only [List.flatMap_append, List.flatMap_singleton, List.forall_mem_append,
      List.forall_mem_singleton, hiff, Call.probe_disturbs hinit' hc hcall hes]

namespace Bench

/-- One reader with a card that answers GET CHALLENGE. -/
def smartcard : Bench where
  readers := ["reader 0"]
  nodes := []
  file _ := none
  data _ _ := .interrupted
  sha3_256 _ := zeroDigest

def oneCard : Config := ⟨1, 0, 32, 32⟩

/-- The session opened on it. -/
def cardSession : Session where
  slot := 0
  flags := ckfSerialSession
  pool :=
    { config := oneCard
      slots := [⟨.iso7816, some "reader 0", .iso7816 ⟨⟨"reader 0", 0⟩, .none, 128⟩⟩]
      state := zeroDigest }

/-- The module with that one session. -/
def cardModule : Module where
  initialized := true
  slots := [⟨oneCard.slotName, true⟩]
  sessions := some cardSession :: List.replicate 63 none

/-- The process after `C_Initialize`. -/
def running (trace : List Exchange) : World Unit := ⟨(), fun _ => 0, ⟨some ⟨0⟩, 1⟩, trace, []⟩

/-- What looking for a card on the bench adds to the trace. -/
def opening (trace : List Exchange) : List Exchange :=
  trace ++ [⟨.listReadersLen ⟨0⟩, .ok 64⟩] ++ [⟨.listReaders ⟨0⟩ 64, .ok ["reader 0"]⟩] ++
    [⟨.connect ⟨0⟩ "reader 0", .ok 0⟩] ++
    [⟨.transmit ⟨"reader 0", 0⟩ (Iso7816.challengeApdu 8),
      .ok (List.replicate 8 0x5A ++ [0x90, 0x00])⟩]

/-- What dropping it adds. -/
def reset : Exchange := ⟨.disconnect ⟨"reader 0", 0⟩ .resetCard, .ok ()⟩

theorem fillable_smartcard (trace : List Exchange) :
    fillable smartcard.machine oneCard (running trace) =
      some (.ok true, running (opening trace ++ [reset])) := rfl

theorem open_smartcard (trace : List Exchange) :
    Pool.open smartcard.machine oneCard (running trace) =
      some (.ok cardSession.pool, running (opening trace)) := rfl

theorem sweep_smartcard (f : Session → Bool) (n : Nat) (w : World Unit) :
    sweep smartcard.machine f (List.replicate n none) w = some (List.replicate n none, w) := by
  induction n with
  | zero => rfl
  | succ n ih => exact bind_of_eq ih

theorem cInitialize_smartcard : Module.new.cInitialize smartcard.machine oneCard none (start none) =
      some ((.ok, { cardModule with sessions := List.replicate 64 none }),
        running (opening [⟨.establish, .ok ⟨0⟩⟩] ++ [reset])) := by
  have hglobal : globalInit smartcard.machine oneCard (start none) =
      some (.ok (), running [⟨.establish, .ok ⟨0⟩⟩]) := rfl
  rw [Module.cInitialize, if_neg (by decide), if_neg (by decide), bind_of_eq hglobal]
  dsimp only
  rw [bind_of_eq (fillable_smartcard _)]
  exact bind_of_eq (sweep_smartcard _ 64 _)

theorem cOpenSession_smartcard (trace : List Exchange) :
    Module.cOpenSession smartcard.machine oneCard
        { cardModule with sessions := List.replicate 64 none } 0 ckfSerialSession (some 0)
        (running trace) = some ((.ok, cardModule, some 1), running (opening trace)) := by
  rw [Module.cOpenSession]
  rw [if_neg (by decide), if_neg (by decide), if_neg (by decide), if_neg (by decide)]
  exact bind_of_eq (x := Pool.open _ _) (open_smartcard trace)

/-- Calling `C_Initialize` and opening a session leads there. -/
theorem run_smartcard : ∃ trace, ModuleRun smartcard.machine oneCard cardModule (running trace) :=
  ⟨_, .called (c := .cOpenSession 0 ckfSerialSession (some 0))
    (.called (c := .cInitialize none) (.started rfl rfl rfl) cInitialize_smartcard)
    (bind_of_eq (cOpenSession_smartcard _))⟩

def slotInfo : CkSlotInfo := ⟨[], [], 0, ⟨0, 0⟩, ⟨0, 0⟩⟩

theorem getSlotInfo_smartcard (trace : List Exchange) :
    (Call.cGetSlotInfo 0 (some slotInfo)).run smartcard.machine oneCard cardModule (running trace) =
      some ((.ok, cardModule), running (opening trace ++ [reset])) := rfl

theorem opening_eq (trace : List Exchange) : opening trace = trace ++ opening [] := by
  simp [opening]

end Bench

/-- Probing the pool and closing other sessions keep a live session, and disturb none of its cards
exactly when each call spares them. -/
theorem probing_spares_iff {i : Nat} {s : Session} {probes : List Probe}
    (hinit : m.initialized = true) (hs : m.sessions[i]? = some (some s))
    (h : ProbeRun P cfg i m w probes m' w') :
    m'.sessions[i]? = some (some s) ∧
    (∃ es, w'.trace = w.trace ++ es ∧
      ((∀ r ∈ s.readers, ∀ e ∈ es, ¬ e.Disturbs r) ↔
        ∀ r ∈ s.readers, ∀ p ∈ probes, p.Spares r)) ∧
    ∀ c : Call, c.Probes m' i → ∃ rv m'' w'', c.run P cfg m' w' = some ((rv, m''), w'') := by
  obtain ⟨htrace, hiff⟩ := h.disturbs hinit
  refine ⟨h.keeps.2.trans hs, ⟨_, htrace, forall₂_congr fun r _ => hiff r⟩, fun c hc => ?_⟩
  have htotal : Total (Does P fun _ => True) (c.run P cfg m') := Call.probe_total hc
  obtain ⟨⟨rv, m''⟩, w'', hcall, _⟩ := htotal w'
  exact ⟨rv, m'', w'', hcall⟩

theorem probing_spares_iff_smartcard : ∃ w w' : World Unit,
    Bench.cardModule.sessions[0]? = some (some Bench.cardSession) ∧
    (∃ es, w'.trace = w.trace ++ es ∧
      ((∀ r ∈ Bench.cardSession.readers, ∀ e ∈ es, ¬ e.Disturbs r) ↔
        ∀ r ∈ Bench.cardSession.readers, ∀ p ∈ [(⟨Bench.cardModule, .cGetSlotInfo 0
          (some Bench.slotInfo), Bench.opening [] ++ [Bench.reset]⟩ : Probe)], p.Spares r)) ∧
    ∀ c : Call, c.Probes Bench.cardModule 0 → ∃ rv m'' w'', c.run Bench.smartcard.machine
      Bench.oneCard Bench.cardModule w' = some ((rv, m''), w'') := by
  obtain ⟨trace, _⟩ := Bench.run_smartcard
  refine ⟨Bench.running trace, Bench.running (Bench.opening trace ++ [Bench.reset]), ?_⟩
  refine probing_spares_iff (by rfl) (by rfl) (.called .start trivial
    (Bench.getSlotInfo_smartcard trace) ?_)
  simp [Bench.running, Bench.opening_eq trace]

/-- `C_GetSlotInfo` resets the card that a live session reads from. -/
theorem probe_resets_held_card : ∃ w w' : World Unit,
    ModuleRun Bench.smartcard.machine Bench.oneCard Bench.cardModule w ∧
    Bench.cardModule.initialized = true ∧ 0 < Bench.oneCard.iso7816Cards ∧
    Bench.cardModule.sessions[0]? = some (some Bench.cardSession) ∧
    "reader 0" ∈ Bench.cardSession.readers ∧
    (Call.cGetSlotInfo 0 (some Bench.slotInfo)).run Bench.smartcard.machine Bench.oneCard
      Bench.cardModule w = some ((.ok, Bench.cardModule), w') ∧
    ∃ es, w'.trace = w.trace ++ es ∧ ∃ e ∈ es, e.Disturbs "reader 0" := by
  obtain ⟨trace, hrun⟩ := Bench.run_smartcard
  refine ⟨_, _, hrun, rfl, by decide, rfl, by decide, Bench.getSlotInfo_smartcard trace, ?_⟩
  refine ⟨Bench.opening [] ++ [Bench.reset], ?_, Bench.reset, by simp, rfl, rfl⟩
  simp [Bench.running, Bench.opening_eq trace]

end P11Rand
