import P11Rand.Answers

/-! The calls that a module which is ready for them does not refuse. -/
namespace P11Rand

open Effect Run

variable {W : Type} {P : Platform W} {cfg : Config} {m m' : Module} {w w' : World W} {rv : Rv}

theorem cInitialize_admitted (hinit : m.initialized = false)
    (hc : m.cInitialize P cfg none w = some ((rv, m'), w')) : ¬ rv.Refusal := by
  unfold Module.cInitialize at hc
  rw [if_neg (by simp [hinit]), if_neg (by simp)] at hc
  obtain ⟨r, v, _, hc⟩ := bind_eq_some.mp hc
  cases r with
  | error _ =>
    cases hc
    exact id
  | ok _ =>
    obtain ⟨r, u, _, hc⟩ := bind_eq_some.mp hc
    cases r with
    | error _ =>
      obtain ⟨_, _, _, hc⟩ := bind_eq_some.mp hc
      cases hc
      exact id
    | ok _ =>
      obtain ⟨_, _, _, hc⟩ := bind_eq_some.mp hc
      cases hc
      exact id

theorem cFinalize_admitted (hinit : m.initialized = true)
    (hc : m.cFinalize P cfg true w = some ((rv, m'), w')) : rv = .ok := by
  unfold Module.cFinalize at hc
  rw [if_neg (by simp), if_neg (by simp [hinit])] at hc
  obtain ⟨_, _, _, hc⟩ := bind_eq_some.mp hc
  obtain ⟨_, _, _, hc⟩ := bind_eq_some.mp hc
  cases hc
  rfl

theorem cGetSlotList_admitted {tokenPresent : UInt8} {pList list : Option (List CkUlong)}
    {count : CkUlong} {n : Option CkUlong} (hinit : m.initialized = true)
    (hc : m.cGetSlotList P cfg tokenPresent pList (some count) w =
      some ((rv, m', list, n), w')) : ¬ rv.Refusal := by
  unfold Module.cGetSlotList at hc
  dsimp only at hc
  rw [if_neg (by simp [hinit])] at hc
  obtain ⟨⟨want, m₁⟩, v, _, hc⟩ := bind_eq_some.mp hc
  cases pList with
  | none =>
    cases hc
    exact id
  | some l =>
    dsimp only at hc
    split at hc
    · cases hc
      exact id
    · cases hc
      exact id

theorem cGetSlotInfo_admitted {slot : CkUlong} {info info' : Option CkSlotInfo}
    (hinit : m.initialized = true) (hinfo : info.isSome) (hslot : slot.toNat < m.slots.length)
    (hc : m.cGetSlotInfo P cfg slot info w = some ((rv, m', info'), w')) : ¬ rv.Refusal := by
  unfold Module.cGetSlotInfo at hc
  rw [if_neg (by simpa using Option.isSome_iff_ne_none.mp hinfo), if_neg (by simp [hinit]),
    List.getElem?_eq_getElem hslot] at hc
  obtain ⟨⟨present, m₁⟩, v, _, hc⟩ := bind_eq_some.mp hc
  cases hc
  exact id

theorem cGetTokenInfo_admitted {slot : CkUlong} {info info' : Option CkTokenInfo}
    (hinit : m.initialized = true) (hinfo : info.isSome) (hslot : slot.toNat < m.slots.length)
    (hc : m.cGetTokenInfo P cfg slot info w = some ((rv, m', info'), w')) : ¬ rv.Refusal := by
  unfold Module.cGetTokenInfo at hc
  rw [if_neg (by simpa using Option.isSome_iff_ne_none.mp hinfo), if_neg (by simp [hinit]),
    if_neg (by omega)] at hc
  obtain ⟨⟨present, m₁⟩, v, _, hc⟩ := bind_eq_some.mp hc
  cases present with
  | true =>
    cases hc
    exact id
  | false =>
    cases hc
    exact id

theorem cOpenSession_admitted {slot flags : CkUlong} {ph ph' : Option CkUlong}
    (hinit : m.initialized = true) (hph : ph.isSome) (hserial : flags &&& ckfSerialSession ≠ 0)
    (hslot : slot.toNat < m.slots.length) (hfree : none ∈ m.sessions)
    (hc : m.cOpenSession P cfg slot flags ph w = some ((rv, m', ph'), w')) : ¬ rv.Refusal := by
  unfold Module.cOpenSession at hc
  rw [if_neg (by simpa using Option.isSome_iff_ne_none.mp hph), if_neg hserial,
    if_neg (by simp [hinit]), if_neg (by omega)] at hc
  cases hidx : m.sessions.findIdx? Option.isNone with
  | none =>
    have hall := List.findIdx?_eq_none_iff.mp hidx none hfree
    simp at hall
  | some idx =>
    rw [hidx] at hc
    obtain ⟨r, v, _, hc⟩ := bind_eq_some.mp hc
    cases r with
    | error e =>
      cases e with
      | notEnoughSources =>
        obtain ⟨_, _, _, hc⟩ := bind_eq_some.mp hc
        cases hc
        exact id
      | resource =>
        cases hc
        exact id
      | readFailure =>
        cases hc
        exact id
    | ok pool =>
      obtain ⟨_, _, _, hc⟩ := bind_eq_some.mp hc
      cases hc
      exact id

theorem cCloseSession_admitted {h : CkUlong} (hinit : m.initialized = true)
    (hfound : m.findSession h ≠ none)
    (hc : m.cCloseSession P h w = some ((rv, m'), w')) : rv = .ok := by
  rcases Module.cCloseSession_spec hc with ⟨_, _, hno | hno⟩ | ⟨hok, _⟩
  · rw [hinit] at hno
    cases hno
  · exact absurd hno hfound
  · exact hok

theorem cGenerateRandom_admitted {h len : CkUlong} {buf buf' : Option (List UInt8)}
    (hinit : m.initialized = true) (hbuf : buf.isSome) (hfound : m.findSession h ≠ none)
    (hc : m.cGenerateRandom P h buf len w = some ((rv, m', buf'), w')) : ¬ rv.Refusal := by
  rcases Module.cGenerateRandom_spec hc with
    ⟨_, _, ⟨rfl, _⟩ | hno | hno⟩ | ⟨_, res, _, _, _, _, _, _, _, rfl⟩
  · cases hbuf
  · rw [hinit] at hno
    cases hno
  · exact absurd hno hfound
  · split <;> exact id

end P11Rand
