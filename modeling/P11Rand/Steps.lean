import P11Rand.Module
import P11Rand.Pool.Invariant

/-! What each call can do to the module, and what holds of the module between any two calls. -/
namespace P11Rand

open Effect Run

variable {W : Type} {P : Platform W} {w w' : World W} {cfg : Config} {m m' : Module}
  {l l' : List (Option Session)}

/-- The table after the sessions that satisfy a test are closed. -/
def cleared (f : Session → Bool) (l : List (Option Session)) : List (Option Session) :=
  l.map fun e => e.filter fun s => !f s

theorem sweep_eq {f : Session → Bool} (h : sweep P f l w = some (l', w')) : l' = cleared f l := by
  induction l generalizing l' w with
  | nil =>
    cases h
    rfl
  | cons e l ih =>
    cases e with
    | none =>
      obtain ⟨rest, v, hrest, h⟩ := bind_eq_some.mp h
      cases h
      rw [ih hrest]
      rfl
    | some s =>
      unfold sweep at h
      split at h
      · rename_i hf
        obtain ⟨_, _, _, h⟩ := bind_eq_some.mp h
        obtain ⟨rest, v, hrest, h⟩ := bind_eq_some.mp h
        cases h
        rw [ih hrest]
        simp [cleared, Option.filter, hf]
      · rename_i hf
        obtain ⟨rest, v, hrest, h⟩ := bind_eq_some.mp h
        cases h
        rw [ih hrest]
        simp [cleared, Option.filter, hf]

/-- Slots with the same names: only presence flags differ. -/
def SameSlots (l l' : List SlotState) : Prop := l'.map SlotState.name = l.map SlotState.name

theorem SameSlots.refl (l : List SlotState) : SameSlots l l := rfl

theorem SameSlots.trans {a b c : List SlotState} (h : SameSlots a b) (h' : SameSlots b c) :
    SameSlots a c := Eq.trans h' h

theorem SameSlots.length_eq {a b : List SlotState} (h : SameSlots a b) : b.length = a.length := by
  simpa using congrArg List.length h

namespace Module

theorem setTokenPresent_cases {i : Nat} {present : Bool}
    (h : m.setTokenPresent i present w = some (m', w')) :
    ∃ slots, m' = { m with slots } ∧ SameSlots m.slots slots ∧ w' = w := by
  unfold setTokenPresent at h
  cases hs : m.slots[i]? with
  | none => simp [hs] at h
  | some s =>
    rw [hs] at h
    cases h
    refine ⟨_, rfl, ?_, rfl⟩
    obtain ⟨hi, rfl⟩ := List.getElem?_eq_some_iff.mp hs
    rw [SameSlots, List.map_set]
    exact List.ext_getElem (by simp) fun j _ _ => by
      rcases eq_or_ne i j with rfl | hij
      · simp
      · simp [List.getElem_set_ne hij]

theorem setTokenPresent_total {i : Nat} (hi : i < m.slots.length) (present : Bool) :
    Total (Does P fun _ => True) (m.setTokenPresent i present : Run (World W) Module) := by
  unfold setTokenPresent
  rw [List.getElem?_eq_getElem hi]
  exact total_pure _

theorem refreshSlot_cases {i : Nat} {present : Bool}
    (h : m.refreshSlot P cfg i w = some ((present, m'), w')) :
    ∃ slots, m' = { m with slots } ∧ SameSlots m.slots slots := by
  obtain ⟨r, v, _, h⟩ := bind_eq_some.mp h
  obtain ⟨m₁, u, hset, h⟩ := bind_eq_some.mp h
  cases h
  obtain ⟨slots, rfl, hsame, _⟩ := setTokenPresent_cases hset
  exact ⟨slots, rfl, hsame⟩

theorem countSlots_cases {filter : Bool} {is : List Nat} {want n : Nat}
    (h : countSlots P cfg filter is m want w = some ((n, m'), w')) :
    ∃ slots, m' = { m with slots } ∧ SameSlots m.slots slots := by
  induction is generalizing m want w with
  | nil =>
    cases h
    exact ⟨_, rfl, .refl _⟩
  | cons i is ih =>
    unfold countSlots at h
    split at h
    · obtain ⟨⟨present, m₁⟩, v, hr, h⟩ := bind_eq_some.mp h
      obtain ⟨slots, rfl, hsame⟩ := refreshSlot_cases hr
      cases present with
      | true =>
        obtain ⟨slots', rfl, hsame'⟩ := ih h
        exact ⟨slots', rfl, hsame.trans hsame'⟩
      | false =>
        obtain ⟨slots', rfl, hsame'⟩ := ih h
        exact ⟨slots', rfl, hsame.trans hsame'⟩
    · exact ih h

theorem findSession_cases {h : CkUlong} {idx : Nat} (hf : m.findSession h = some idx) :
    h ≠ 0 ∧ idx = h.toNat - 1 ∧ ∃ s, m.sessions[idx]? = some (some s) := by
  unfold findSession at hf
  split at hf
  · cases hf
  · rename_i hne
    cases hs : m.sessions[h.toNat - 1]? with
    | none => simp [hs] at hf
    | some e =>
      cases e with
      | none => simp [hs] at hf
      | some s =>
        simp only [hs, Option.some.injEq] at hf
        subst hf
        exact ⟨hne, rfl, s, hs⟩

/-- What the calls do to the module. -/
inductive Step (cfg : Config) (m : Module) : Module → Prop
  | same : Step cfg m m
  | published {present : Bool} : m.initialized = false → Step cfg m
      { initialized := true, slots := [⟨cfg.slotName, present⟩],
        sessions := cleared (fun _ => true) m.sessions }
  | finalized : m.initialized = true → Step cfg m
      { initialized := false, slots := [], sessions := cleared (fun _ => true) m.sessions }
  | probed {slots : List SlotState} : m.initialized = true → SameSlots m.slots slots →
      Step cfg m { m with slots }
  | opened {slots : List SlotState} {idx : Nat} {s : Session} : m.initialized = true →
      SameSlots m.slots slots → m.sessions[idx]? = some none → s.slot.toNat < m.slots.length →
      Step cfg m { m with slots, sessions := m.sessions.set idx (some s) }
  | closed {idx : Nat} {s : Session} : m.initialized = true →
      m.sessions[idx]? = some (some s) → Step cfg m { m with sessions := m.sessions.set idx none }
  | swept {slot : CkUlong} : m.initialized = true → Step cfg m
      { m with sessions := cleared (fun s => s.slot == slot) m.sessions }
  | drawn {idx : Nat} {s : Session} {pool : Pool} : m.initialized = true →
      m.sessions[idx]? = some (some s) →
      Step cfg m { m with sessions := m.sessions.set idx (some { s with pool }) }

theorem cInitialize_cases {rv : Rv} {args : Option InitArgs}
    (h : m.cInitialize P cfg args w = some ((rv, m'), w')) : Step cfg m m' := by
  unfold cInitialize at h
  split at h
  · cases h
    exact .same
  rename_i hinit
  split at h
  · cases h
    exact .same
  obtain ⟨r, v, _, h⟩ := bind_eq_some.mp h
  cases r with
  | error e =>
    cases h
    exact .same
  | ok _ =>
    obtain ⟨r, v, _, h⟩ := bind_eq_some.mp h
    cases r with
    | error e =>
      obtain ⟨_, _, _, h⟩ := bind_eq_some.mp h
      cases h
      exact .same
    | ok present =>
      obtain ⟨sessions, u, hsweep, h⟩ := bind_eq_some.mp h
      cases h
      rw [sweep_eq hsweep]
      exact .published (by simpa using hinit)

theorem cFinalize_cases {rv : Rv} {reserved : Bool}
    (h : m.cFinalize P cfg reserved w = some ((rv, m'), w')) : Step cfg m m' := by
  unfold cFinalize at h
  split at h
  · cases h
    exact .same
  split at h
  · cases h
    exact .same
  rename_i hinit
  obtain ⟨sessions, v, hsweep, h⟩ := bind_eq_some.mp h
  obtain ⟨_, _, _, h⟩ := bind_eq_some.mp h
  cases h
  rw [sweep_eq hsweep]
  exact .finalized (by simpa using hinit)

theorem cGetSlotList_cases {rv : Rv} {tokenPresent : UInt8} {pList list : Option (List CkUlong)}
    {pCount count : Option CkUlong}
    (h : m.cGetSlotList P cfg tokenPresent pList pCount w = some ((rv, m', list, count), w')) :
    m' = m ∨ m.initialized = true ∧ ∃ slots, m' = { m with slots } ∧ SameSlots m.slots slots := by
  unfold cGetSlotList at h
  cases pCount with
  | none =>
    cases h
    exact .inl rfl
  | some n =>
    dsimp only at h
    split at h
    · cases h
      exact .inl rfl
    rename_i hinit
    refine .inr ⟨by simpa using hinit, ?_⟩
    obtain ⟨⟨want, m₁⟩, v, hcount, h⟩ := bind_eq_some.mp h
    obtain ⟨slots, rfl, hsame⟩ := countSlots_cases hcount
    cases pList with
    | none =>
      cases h
      exact ⟨slots, rfl, hsame⟩
    | some l =>
      dsimp only at h
      split at h
      · cases h
        exact ⟨slots, rfl, hsame⟩
      · cases h
        exact ⟨slots, rfl, hsame⟩

theorem cGetSlotInfo_cases {rv : Rv} {slot : CkUlong} {pInfo info : Option CkSlotInfo}
    (h : m.cGetSlotInfo P cfg slot pInfo w = some ((rv, m', info), w')) :
    m' = m ∨ m.initialized = true ∧ ∃ slots, m' = { m with slots } ∧ SameSlots m.slots slots := by
  unfold cGetSlotInfo at h
  split at h
  · cases h
    exact .inl rfl
  split at h
  · cases h
    exact .inl rfl
  rename_i hinit
  cases hs : m.slots[slot.toNat]? with
  | none =>
    rw [hs] at h
    cases h
    exact .inl rfl
  | some s =>
    rw [hs] at h
    obtain ⟨⟨present, m₁⟩, v, hr, h⟩ := bind_eq_some.mp h
    cases h
    exact .inr ⟨by simpa using hinit, refreshSlot_cases hr⟩

theorem cGetTokenInfo_cases {rv : Rv} {slot : CkUlong} {pInfo info : Option CkTokenInfo}
    (h : m.cGetTokenInfo P cfg slot pInfo w = some ((rv, m', info), w')) :
    m' = m ∨ m.initialized = true ∧ ∃ slots, m' = { m with slots } ∧ SameSlots m.slots slots := by
  unfold cGetTokenInfo at h
  split at h
  · cases h
    exact .inl rfl
  split at h
  · cases h
    exact .inl rfl
  rename_i hinit
  split at h
  · cases h
    exact .inl rfl
  obtain ⟨⟨present, m₁⟩, v, hr, h⟩ := bind_eq_some.mp h
  refine .inr ⟨by simpa using hinit, ?_⟩
  cases present with
  | true =>
    cases h
    exact refreshSlot_cases hr
  | false =>
    cases h
    exact refreshSlot_cases hr

theorem cOpenSession_cases {rv : Rv} {slot flags : CkUlong} {phSession h' : Option CkUlong}
    (h : m.cOpenSession P cfg slot flags phSession w = some ((rv, m', h'), w')) :
    Step cfg m m' := by
  unfold cOpenSession at h
  split at h
  · cases h
    exact .same
  split at h
  · cases h
    exact .same
  split at h
  · cases h
    exact .same
  rename_i hinit
  have hinit : m.initialized = true := by simpa using hinit
  split at h
  · cases h
    exact .same
  rename_i hslot
  cases hfree : m.sessions.findIdx? Option.isNone with
  | none =>
    rw [hfree] at h
    cases h
    exact .same
  | some idx =>
    rw [hfree] at h
    obtain ⟨r, v, _, h⟩ := bind_eq_some.mp h
    obtain ⟨hidx, hnone, _⟩ := List.findIdx?_eq_some_iff_getElem.mp hfree
    have hentry : m.sessions[idx]? = some none := by
      rw [List.getElem?_eq_getElem hidx, Option.isNone_iff_eq_none.mp hnone]
    cases r with
    | error e =>
      cases e with
      | notEnoughSources =>
        obtain ⟨m₁, u, hset, h⟩ := bind_eq_some.mp h
        cases h
        obtain ⟨slots, rfl, hsame, _⟩ := setTokenPresent_cases hset
        exact .probed hinit hsame
      | resource =>
        cases h
        exact .same
      | readFailure =>
        cases h
        exact .same
    | ok pool =>
      obtain ⟨m₁, u, hset, h⟩ := bind_eq_some.mp h
      cases h
      obtain ⟨slots, rfl, hsame, _⟩ := setTokenPresent_cases hset
      exact .opened hinit hsame hentry (not_le.mp hslot)

theorem cCloseSession_cases {rv : Rv} {h : CkUlong}
    (hc : m.cCloseSession P h w = some ((rv, m'), w')) :
    (m' = m ∧ w' = w ∧ (m.initialized = false ∨ m.findSession h = none)) ∨
      ∃ s, m.initialized = true ∧ m.findSession h = some (h.toNat - 1) ∧
        m.sessions[h.toNat - 1]? = some (some s) ∧
        m' = { m with sessions := m.sessions.set (h.toNat - 1) none } ∧
        s.pool.drop P w = some ((), w') := by
  unfold cCloseSession at hc
  split at hc
  · rename_i hinit
    cases hc
    exact .inl ⟨rfl, rfl, .inl (by simpa using hinit)⟩
  · rename_i hinit
    cases hf : m.findSession h with
    | none =>
      rw [hf] at hc
      cases hc
      exact .inl ⟨rfl, rfl, .inr rfl⟩
    | some idx =>
      obtain ⟨_, rfl, s, hs⟩ := findSession_cases hf
      rw [hf] at hc
      dsimp only at hc
      rw [hs] at hc
      obtain ⟨_, v, hdrop, hc⟩ := bind_eq_some.mp hc
      cases hc
      exact .inr ⟨s, by simpa using hinit, rfl, hs, rfl, hdrop⟩

theorem cCloseAllSessions_cases {rv : Rv} {slot : CkUlong}
    (h : m.cCloseAllSessions P slot w = some ((rv, m'), w')) : Step cfg m m' := by
  unfold cCloseAllSessions at h
  split at h
  · cases h
    exact .same
  rename_i hinit
  split at h
  · cases h
    exact .same
  obtain ⟨sessions, v, hsweep, h⟩ := bind_eq_some.mp h
  cases h
  rw [sweep_eq hsweep]
  exact .swept (by simpa using hinit)

theorem cGenerateRandom_cases {rv : Rv} {h : CkUlong} {buf buf' : Option (List UInt8)}
    {len : CkUlong} (hc : m.cGenerateRandom P h buf len w = some ((rv, m', buf'), w')) :
    Step cfg m m' := by
  unfold cGenerateRandom at hc
  split at hc
  · cases hc
    exact .same
  split at hc
  · cases hc
    exact .same
  rename_i hinit
  cases hf : m.findSession h with
  | none =>
    rw [hf] at hc
    cases hc
    exact .same
  | some idx =>
    obtain ⟨_, _, s, hs⟩ := findSession_cases hf
    rw [hf] at hc
    dsimp only at hc
    rw [hs] at hc
    obtain ⟨⟨res, pool, slice⟩, v, _, hc⟩ := bind_eq_some.mp hc
    have hstep : Step cfg m { m with sessions := m.sessions.set idx (some { s with pool }) } :=
      .drawn (by simpa using hinit) hs
    cases res with
    | error e =>
      cases hc
      exact hstep
    | ok _ =>
      cases hc
      exact hstep

theorem Step.of_probed (h : m' = m ∨ m.initialized = true ∧
    ∃ slots, m' = { m with slots } ∧ SameSlots m.slots slots) : Step cfg m m' := by
  rcases h with rfl | ⟨hinit, slots, rfl, hsame⟩
  · exact .same
  · exact .probed hinit hsame

end Module

theorem Call.step {c : Call} {rv : Rv} (h : c.run P cfg m w = some ((rv, m'), w')) :
    Module.Step cfg m m' := by
  cases c with
  | cInitialize args => exact Module.cInitialize_cases h
  | cFinalize reserved => exact Module.cFinalize_cases h
  | cGetSlotList tokenPresent pList pCount =>
    obtain ⟨⟨_, _, _, _⟩, _, h, he⟩ := bind_eq_some.mp h
    cases he
    exact .of_probed (Module.cGetSlotList_cases h)
  | cGetSlotInfo slot pInfo =>
    obtain ⟨⟨_, _, _⟩, _, h, he⟩ := bind_eq_some.mp h
    cases he
    exact .of_probed (Module.cGetSlotInfo_cases h)
  | cGetTokenInfo slot pInfo =>
    obtain ⟨⟨_, _, _⟩, _, h, he⟩ := bind_eq_some.mp h
    cases he
    exact .of_probed (Module.cGetTokenInfo_cases h)
  | cOpenSession slot flags phSession =>
    obtain ⟨⟨_, _, _⟩, _, h, he⟩ := bind_eq_some.mp h
    cases he
    exact Module.cOpenSession_cases h
  | cCloseSession handle =>
    rcases Module.cCloseSession_cases h with ⟨rfl, _⟩ | ⟨s, hinit, _, hs, rfl, _⟩
    · exact .same
    · exact .closed hinit hs
  | cCloseAllSessions slot => exact Module.cCloseAllSessions_cases h
  | cGenerateRandom handle buf len =>
    obtain ⟨⟨_, _, _⟩, _, h, he⟩ := bind_eq_some.mp h
    cases he
    exact Module.cGenerateRandom_cases h

/-- What holds of the module between any two calls. -/
structure Module.Inv (cfg : Config) (m : Module) : Prop where
  idle : m.initialized = false → m.slots = [] ∧ ∀ e ∈ m.sessions, e = none
  published : m.initialized = true → m.slots.map SlotState.name = [cfg.slotName]
  table : m.sessions.length = maxSessions
  ids : ∀ s : Session, some s ∈ m.sessions → s.slot.toNat < m.slots.length

theorem mem_cleared {f : Session → Bool} {s : Session} (h : some s ∈ cleared f l) :
    some s ∈ l ∧ f s = false := by
  obtain ⟨e, he, hs⟩ := List.mem_map.mp h
  obtain ⟨rfl, hf⟩ := Option.filter_eq_some_iff.mp hs
  exact ⟨he, by simpa using hf⟩

theorem cleared_all {e : Option Session} (h : e ∈ cleared (fun _ => true) l) : e = none := by
  cases e with
  | none => rfl
  | some _ =>
    have hf := (mem_cleared h).2
    cases hf

@[simp] theorem length_cleared (f : Session → Bool) (l : List (Option Session)) :
    (cleared f l).length = l.length := List.length_map ..

theorem mem_set_some {s' : Session} {idx : Nat} {e : Option Session}
    (h : some s' ∈ l.set idx e) : some s' ∈ l ∨ e = some s' := by
  rcases List.mem_or_eq_of_mem_set h with h | h
  · exact .inl h
  · exact .inr h.symm

theorem Module.Step.inv (h : Module.Step cfg m m') (hi : m.Inv cfg) : m'.Inv cfg := by
  cases h with
  | same => exact hi
  | published _ =>
    refine ⟨by simp, fun _ => rfl, by simpa using hi.table, fun s hs => ?_⟩
    cases cleared_all hs
  | finalized _ =>
    refine ⟨fun _ => ⟨rfl, fun e he => cleared_all he⟩, by simp, by simpa using hi.table,
      fun s hs => ?_⟩
    cases cleared_all hs
  | probed hinit hsame =>
    refine ⟨by simp [hinit], fun h => Eq.trans hsame (hi.published h), hi.table, fun s hs => ?_⟩
    rw [hsame.length_eq]
    exact hi.ids s hs
  | opened hinit hsame _ hlt =>
    refine ⟨by simp [hinit], fun h => Eq.trans hsame (hi.published h), by simpa using hi.table,
      fun s hs => ?_⟩
    rw [hsame.length_eq]
    rcases mem_set_some hs with hs | hs
    · exact hi.ids s hs
    · cases hs
      exact hlt
  | closed hinit _ =>
    refine ⟨by simp [hinit], hi.published, by simpa using hi.table, fun s hs => ?_⟩
    rcases mem_set_some hs with hs | hs
    · exact hi.ids s hs
    · cases hs
  | swept hinit =>
    refine ⟨by simp [hinit], hi.published, by simpa using hi.table, fun s hs => ?_⟩
    exact hi.ids s (mem_cleared hs).1
  | @drawn idx s pool hinit hs =>
    refine ⟨by simp [hinit], hi.published, by simpa using hi.table, fun s' hs' => ?_⟩
    rcases mem_set_some hs' with hs' | hs'
    · exact hi.ids s' hs'
    · cases hs'
      exact hi.ids s (List.mem_of_getElem? hs)

theorem ModuleRun.inv (h : ModuleRun P cfg m w) : m.Inv cfg := by
  induction h with
  | started =>
    refine ⟨fun _ => ⟨rfl, fun e he => List.eq_of_mem_replicate he⟩, by simp [Module.new],
      List.length_replicate, fun s hs => ?_⟩
    cases List.eq_of_mem_replicate hs
  | elapsed _ _ _ _ ih => exact ih
  | called _ hc ih => exact (Call.step hc).inv ih

end P11Rand
