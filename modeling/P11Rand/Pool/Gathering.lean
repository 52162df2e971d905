import P11Rand.Observation

/-! What the devices make of a round, whatever the state of the chain and whatever is hashed. -/
namespace P11Rand

open Effect Run

variable {W : Type} {P : Platform W} {w w' u v : World W} {cfg : Config} {p q : Pool}
  {s : Digest} {t i : Nat} {out d : Digest}

/-- The world without the records. -/
def World.outside (w : World W) : W × (Nat → Nat) × Global := (w.env, w.sched, w.global)

theorem observes_outside (P : Platform W) (cfg : Config) : Observes P World.outside cfg := by
  refine ⟨?_, ?_, fun _ w v hcore => congrArg (fun o => o.2.2.ctx) hcore⟩
  · rintro q ⟨env, sched, global, trace, log⟩ ⟨_, _, _, trace', log'⟩ a w' hcore h
    cases hcore
    cases h
    exact ⟨_, rfl, rfl⟩
  · rintro ev ⟨env, sched, global, trace, log⟩ ⟨_, _, _, trace', log'⟩ a w' hcore h
    cases hcore
    cases h
    exact ⟨_, rfl, rfl⟩

theorem choose_outside (n : Nat) : Sees World.outside (choose n : Run (World W) Nat) := by
  rintro ⟨env, sched, global, trace, log⟩ ⟨_, _, _, trace', log'⟩ a w' hcore h
  cases hcore
  cases h
  exact ⟨_, rfl, rfl⟩

namespace Pool

/-- Ask for the blocks of tick `t` of the slots listed, and do nothing with them. -/
def gatherFrom (P : Platform W) (t : Nat) (scratch : List (Option (List UInt8))) :
    List Nat → Pool → Run (World W) (Bool × Pool)
  | [], p => return (true, p)
  | i :: is, p =>
    if t ≥ p.config.slotTicks i then gatherFrom P t scratch is p
    else
      match scratch[i]? with
      | none => Run.stuck
      | some cell => do
        match ← blockFor P p t i cell with
        | (.error _, p) => return (false, p)
        | (.ok _, p) => gatherFrom P t scratch is p

def gatherTicks (P : Platform W) (poolSize : Nat) :
    List Nat → Pool → Run (World W) (Bool × Pool)
  | [], p => return (true, p)
  | t :: ts, p => do
    let (scratch, p) ← p.fanOut P t
    match ← gatherFrom P t scratch (List.range poolSize) p with
    | (false, p) => return (false, p)
    | (true, p) => gatherTicks P poolSize ts p

/-- The devices' part of a round: the slots as they are after it, if the devices gave every block
that it needs. -/
def gather (P : Platform W) (cfg : Config) (slots : List Slot) :
    Run (World W) (Option (List Slot)) := do
  let (full, p) ← gatherTicks P slots.length (List.range cfg.maxTicks) ⟨cfg, slots, zeroDigest⟩
  return if full then some p.slots else none

/-- The devices give what a round needs, once or more often, but less often than so many bytes
take, and then they do not give it. -/
inductive Starved (P : Platform W) (cfg : Config) : List Slot → World W → Nat → Prop
  | now {l l' : List Slot} {w v u : World W} {n : Nat} : roundBytes < n →
      gather P cfg l w = some (some l', v) → gather P cfg l' v = some (none, u) →
      Starved P cfg l w n
  | later {l l' : List Slot} {w v : World W} {n : Nat} : roundBytes < n →
      gather P cfg l w = some (some l', v) → Starved P cfg l' v (n - roundBytes) →
      Starved P cfg l w n

def withState (p : Pool) (s : Digest) : Pool := { p with state := s }

theorem rebindScan_withState {idx : Nat} {kind : SlotKind} {names : List String}
    {res : Except Error Unit} (h : rebindScan P idx kind p names w = some ((res, q), v)) :
    rebindScan P idx kind (p.withState s) names w = some ((res, q.withState s), v) := by
  induction names generalizing w with
  | nil =>
    cases h
    rfl
  | cons name names ih =>
    unfold rebindScan at h ⊢
    by_cases hused : p.nameInUse idx kind name = true
    · rw [if_pos hused] at h
      exact (if_pos hused).symm ▸ ih h
    · rw [if_neg hused] at h
      obtain ⟨src, x, hsrc, h⟩ := bind_eq_some.mp h
      have hused' : ¬ (p.withState s).nameInUse idx kind name = true := hused
      rw [if_neg hused', bind_of_eq hsrc]
      cases src with
      | none => exact ih h
      | some src =>
        cases h
        rfl

theorem rebind_withState {res : Except Error Unit} (h : p.rebind P i w = some ((res, q), v)) :
    (p.withState s).rebind P i w = some ((res, q.withState s), v) := by
  unfold rebind at h ⊢
  have hslots : (p.withState s).slots = p.slots := rfl
  rw [hslots]
  cases hs : p.slots[i]? with
  | none =>
    rw [hs] at h
    cases h
  | some slot =>
    rw [hs] at h
    obtain ⟨slot', x, hclose, h⟩ := bind_eq_some.mp h
    obtain ⟨names, y, hlist, h⟩ := bind_eq_some.mp h
    refine (bind_of_eq hclose).trans ((bind_of_eq hlist).trans ?_)
    cases names with
    | error e =>
      cases h
      rfl
    | ok names => exact rebindScan_withState h

theorem readSlot_withState {buf : List UInt8} {o : Outcome SlotInner Unit}
    (h : p.readSlot P i buf w = some ((o, q), v)) :
    (p.withState s).readSlot P i buf w = some ((o, q.withState s), v) := by
  unfold readSlot at h ⊢
  have hslots : (p.withState s).slots = p.slots := rfl
  rw [hslots]
  cases hs : p.slots[i]? with
  | none =>
    rw [hs] at h
    cases h
  | some slot =>
    rw [hs] at h
    obtain ⟨_, x, hread, h⟩ := bind_eq_some.mp h
    cases h
    exact bind_of_eq hread

theorem blockFor_withState {cell : Option (List UInt8)} {res : Except Error (List UInt8)}
    (h : blockFor P p t i cell w = some ((res, q), v)) :
    blockFor P (p.withState s) t i cell w = some ((res, q.withState s), v) := by
  cases cell with
  | some b =>
    cases h
    rfl
  | none =>
    obtain ⟨⟨r, p₁⟩, x, hreb, h⟩ := bind_eq_some.mp h
    refine (bind_of_eq (rebind_withState hreb)).trans ?_
    cases r with
    | error e =>
      cases h
      rfl
    | ok _ =>
      obtain ⟨⟨o, p₂⟩, y, hread, h⟩ := bind_eq_some.mp h
      refine (bind_of_eq (readSlot_withState hread)).trans ?_
      replace h := of_emit h
      refine (bind_of_eq (emit_apply _ _)).trans ?_
      by_cases hgood : o.ok = true
      · rw [if_pos hgood] at h
        cases h
        exact congrFun (if_pos hgood) _
      · rw [if_neg hgood] at h
        cases h
        exact congrFun (if_neg hgood) _

theorem fanOut_withState {scratch : List (Option (List UInt8))}
    (h : p.fanOut P t w = some ((scratch, q), v)) :
    (p.withState s).fanOut P t w = some ((scratch, q.withState s), v) := by
  obtain ⟨os, x, hos, h⟩ := bind_eq_some.mp h
  obtain ⟨_, y, hjoin, h⟩ := bind_eq_some.mp h
  cases h
  exact (bind_of_eq hos).trans (bind_of_eq hjoin)

theorem gatherFrom_of_absorb {scratch : List (Option (List UInt8))} {is : List Nat} {hs : Hashes}
    {res : Except Error Hashes} (hok : SlotsOk cfg p.slots) (hcore : w.outside = u.outside)
    (h : absorbFrom P t scratch is p hs w = some ((res, q), v)) : ∃ u', v.outside = u'.outside ∧
      gatherFrom P t scratch is (p.withState s) u = some ((res.isOk, q.withState s), u') := by
  induction is generalizing p hs w u with
  | nil =>
    cases h
    exact ⟨u, hcore, rfl⟩
  | cons i is ih =>
    unfold absorbFrom at h
    unfold gatherFrom
    by_cases howes : t ≥ p.config.slotTicks i
    · have howes' : t ≥ (p.withState s).config.slotTicks i := howes
      rw [if_pos howes] at h
      rw [if_pos howes']
      exact ih hok hcore h
    have howes' : ¬ t ≥ (p.withState s).config.slotTicks i := howes
    rw [if_neg howes] at h
    rw [if_neg howes']
    cases hcell : scratch[i]? with
    | none =>
      rw [hcell] at h
      cases h
    | some cell =>
      rw [hcell] at h
      obtain ⟨⟨r, p₁⟩, x, hb, h⟩ := bind_eq_some.mp h
      have hok' : SlotsOk cfg (p.withState s).slots := hok
      obtain ⟨y, hb', hcore'⟩ := blockFor_sees (observes_outside P cfg) hok' t i cell _ _ _ _ hcore
        (blockFor_withState hb)
      dsimp only
      rw [bind_of_eq hb']
      cases r with
      | error e =>
        cases h
        exact ⟨y, hcore', rfl⟩
      | ok b =>
        obtain ⟨_, _, _, hblock⟩ := blockFor_spec hb
        have habsorb : World.outside { x with log := x.log ++ [.absorb t i b] } = y.outside :=
          hcore'
        exact ih (hblock.evolves.slotsOk hok) habsorb (of_emit h)

theorem gatherTicks_of_ticks {n : Nat} {ts : List Nat} {hs : Hashes} {res : Except Error Hashes}
    (hok : SlotsOk cfg p.slots) (hcore : w.outside = u.outside)
    (h : ticksFrom P n ts p hs w = some ((res, q), v)) : ∃ u', v.outside = u'.outside ∧
      gatherTicks P n ts (p.withState s) u = some ((res.isOk, q.withState s), u') := by
  induction ts generalizing p hs w u with
  | nil =>
    cases h
    exact ⟨u, hcore, rfl⟩
  | cons t ts ih =>
    obtain ⟨⟨scratch, p₁⟩, x, hfan, h⟩ := bind_eq_some.mp h
    obtain ⟨⟨r, p₂⟩, y, habs, h⟩ := bind_eq_some.mp h
    obtain ⟨u₁, hfan', hcore₁⟩ := fanOut_sees (observes_outside P cfg) choose_outside _ t _ _ _ _
      hcore (fanOut_withState (s := s) hfan)
    obtain ⟨_, _, _, hfanned⟩ := fanOut_spec hfan
    have hok₁ := hfanned.evolves.slotsOk hok
    obtain ⟨u₂, hcore₂, hgather⟩ := gatherFrom_of_absorb (s := s) hok₁ hcore₁ habs
    unfold gatherTicks
    rw [bind_of_eq hfan']
    dsimp only
    rw [bind_of_eq hgather]
    cases r with
    | error e =>
      cases h
      exact ⟨u₂, hcore₂, rfl⟩
    | ok hs' =>
      obtain ⟨_, _, _, habsorbed, _⟩ := absorbFrom_spec List.nodup_range habs
      exact ih (habsorbed.evolves.slotsOk hok₁) hcore₂ h

/-- Whether a round completes, and on which slots, is up to the devices. -/
theorem gather_of_round {res : Except Error Unit} (hok : SlotsOk cfg p.slots) (hc : p.config = cfg)
    (hcore : w.outside = u.outside) (h : p.doRoundChain P out w = some ((res, q, d), v)) :
    ∃ u', v.outside = u'.outside ∧
      gather P cfg p.slots u = some (if res.isOk then some q.slots else none, u') := by
  subst hc
  obtain ⟨⟨r, q'⟩, x, hticks, h⟩ := bind_eq_some.mp (of_emit h)
  have hemit : World.outside { w with log := w.log ++ [.start p.state] } = u.outside := hcore
  obtain ⟨u', hcore', hgather⟩ := gatherTicks_of_ticks (s := zeroDigest) hok hemit hticks
  refine ⟨u', ?_, (bind_of_eq hgather).trans ?_⟩
  · cases r <;>
    · cases h
      exact hcore'
  · cases r <;>
    · cases h
      rfl

end Pool
end P11Rand
