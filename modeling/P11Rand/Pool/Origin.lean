import P11Rand.Pool.History

/-! Where the sources in the slots of a pool come from: each of them was opened by the pool, and
has only been read from since. -/
namespace P11Rand

open Effect Run

variable {W : Type} {P : Platform W} {w w' : World W} {p p' : Pool} {cfg : Config}
  {Q : SlotInner → Prop} {I : List Slot → Prop} {l l' : List Slot}

/-- `Q` holds of what opens under any name, and survives reading. -/
structure Kept (P : Platform W) (Q : SlotInner → Prop) : Prop where
  empty : Q .empty
  handle : ∀ s s' : SlotInner, s'.handle = s.handle → Q s → Q s'
  opened : ∀ (kind : SlotKind) (name : String) (src : SlotInner) (w w' : World W),
    kind.openSource P name w = some (some src, w') → Q src

/-- `I` survives what a pool does to its slots once it has them. -/
structure Stable (P : Platform W) (I : List Slot → Prop) : Prop where
  read : ∀ l l' : List Slot, List.Forall₂ Slot.Same l l' → I l → I l'
  close : ∀ (l : List Slot) (i : Nat) (s : Slot), l[i]? = some s → I l → I (l.set i s.closed)
  bind : ∀ (l : List Slot) (i : Nat) (s : Slot) (name : String) (src : SlotInner) (w w' : World W),
    l[i]? = some s → ¬ Lease.HeldByOther (leases l) i s.kind name →
    s.kind.openSource P name w = some (some src, w') → I l →
    I (l.set i ⟨s.kind, some name, src⟩)

theorem Kept.stable (hQ : Kept P Q) : Stable P fun l => ∀ s ∈ l, Q s.inner := by
  refine ⟨?_, ?_, ?_⟩
  · intro l l' hsame hl s' hs'
    obtain ⟨i, hi, rfl⟩ := List.getElem_of_mem hs'
    have hi' : i < l.length := hsame.length_eq ▸ hi
    have hh := ((List.forall₂_iff_get.mp hsame).2 i hi' hi).handle
    exact hQ.handle _ _ hh (hl _ (List.getElem_mem hi'))
  · exact fun l i s _ hl => forall_mem_set hl hQ.empty
  · exact fun l i s name src w w' _ _ hsrc hl =>
      forall_mem_set hl (hQ.opened s.kind name src w w' hsrc)

theorem claim_kept (hQ : Kept P Q) {kind : SlotKind} {want : Nat} {names : List String}
    (hl : ∀ s ∈ l, Q s.inner) (h : claim P kind want l names w = some (l', w')) :
    ∀ s ∈ l', Q s.inner := by
  induction names generalizing l w with
  | nil =>
    cases h
    exact hl
  | cons name names ih =>
    unfold claim at h
    split at h
    · cases h
      exact hl
    · obtain ⟨src, v, hsrc, h⟩ := bind_eq_some.mp h
      cases src with
      | none => exact ih hl h
      | some src =>
        refine ih ?_ h
        rw [List.forall_mem_append, List.forall_mem_singleton]
        exact ⟨hl, hQ.opened kind name src w v hsrc⟩

theorem claimKind_kept (hQ : Kept P Q) {kind : SlotKind} (hl : ∀ s ∈ l, Q s.inner)
    (h : claimKind P cfg kind l w = some (.ok l', w')) : ∀ s ∈ l', Q s.inner := by
  unfold claimKind at h
  split at h
  · obtain ⟨names, v, _, h⟩ := bind_eq_some.mp h
    cases names with
    | error e =>
      obtain ⟨_, _, _, h⟩ := bind_eq_some.mp h
      cases h
    | ok names =>
      obtain ⟨got, u, hgot, h⟩ := bind_eq_some.mp h
      split at h
      · obtain ⟨_, _, _, h⟩ := bind_eq_some.mp h
        cases h
      · cases h
        exact List.forall_mem_append.mpr ⟨hl, claim_kept hQ (by simp) hgot⟩
  · cases h
    exact hl

namespace Pool

theorem open_kept (hQ : Kept P Q) (h : Pool.open P cfg w = some (.ok p, w')) :
    ∀ s ∈ p.slots, Q s.inner := by
  unfold Pool.open at h
  cases hv : cfg.validate with
  | error e =>
    rw [hv] at h
    cases h
  | ok u =>
    rw [hv] at h
    obtain ⟨iso, v, hiso, h⟩ := bind_eq_some.mp h
    cases iso with
    | error e => cases h
    | ok iso =>
      obtain ⟨all, u, hinf, h⟩ := bind_eq_some.mp h
      cases all with
      | error e => cases h
      | ok all =>
        cases h
        exact claimKind_kept hQ (claimKind_kept hQ (by simp) hiso) hinf

theorem rebind_stable (hI : Stable P I) {i : Nat} {res : Except Error Unit} (hp : I p.slots)
    (h : p.rebind P i w = some ((res, p'), w')) : I p'.slots := by
  obtain ⟨s, _, hs, hreb, _, _⟩ := rebind_cases h
  have hclosed : I (p.setSlot i s.closed).slots := hI.close _ i s hs hp
  cases hreb with
  | failed => exact hclosed
  | bound hfree _ hopen _ =>
    have hlt := (List.getElem?_eq_some_iff.mp hs).1
    have hs' : (p.setSlot i s.closed).slots[i]? = some s.closed := by simp [hlt]
    have hbound := hI.bind _ i s.closed _ _ _ _ hs' hfree hopen hclosed
    rwa [setSlot_slots, List.set_set] at hbound

theorem readSlot_stable (hI : Stable P I) {i : Nat} {buf : List UInt8}
    {o : Outcome SlotInner Unit} (hp : I p.slots)
    (h : p.readSlot P i buf w = some ((o, p'), w')) : I p'.slots := by
  obtain ⟨s, hs, hread, rfl⟩ := readSlot_cases h
  obtain ⟨hh, hc, _⟩ := SlotInner.read_keeps hread
  exact hI.read _ _ (same_set hs ⟨rfl, rfl, hh, hc⟩) hp

theorem fanOut_stable (hI : Stable P I) {t : Nat} {scratch : List (Option (List UInt8))}
    (hp : I p.slots) (h : p.fanOut P t w = some ((scratch, p'), w')) : I p'.slots := by
  obtain ⟨os, _, _, _, rfl, hall⟩ := fanOut_cases h
  obtain ⟨hlen, hw⟩ := worked_of_threads hall
  exact hI.read _ _ (same_of_worked hlen hw) hp

theorem retrySlot_stable (hI : Stable P I) {t i : Nat} {res : Except Error (List UInt8)}
    (hp : I p.slots) (h : p.retrySlot P t i w = some ((res, p'), w')) :
    I p'.slots := by
  obtain ⟨⟨r, q⟩, v, hr, h⟩ := bind_eq_some.mp h
  have hq := rebind_stable hI hp hr
  cases r with
  | error e =>
    cases h
    exact hq
  | ok _ =>
    obtain ⟨⟨o, q'⟩, u, ho, h⟩ := bind_eq_some.mp h
    have hq' := readSlot_stable hI hq ho
    replace h := of_emit h
    split at h
    · cases h
      exact hq'
    · cases h
      exact hq'

theorem absorbFrom_stable (hI : Stable P I) {t : Nat} {scratch : List (Option (List UInt8))}
    {is : List Nat} {hs : Hashes} {res : Except Error Hashes} (hp : I p.slots)
    (h : absorbFrom P t scratch is p hs w = some ((res, p'), w')) : I p'.slots := by
  induction is generalizing p hs w with
  | nil =>
    cases h
    exact hp
  | cons i is ih =>
    unfold absorbFrom at h
    split at h
    · exact ih hp h
    · cases hcell : scratch[i]? with
      | none => simp [hcell] at h
      | some cell =>
        rw [hcell] at h
        obtain ⟨⟨r, q⟩, v, hb, h⟩ := bind_eq_some.mp h
        have hq : I q.slots := by
          cases cell with
          | none => exact retrySlot_stable hI hp hb
          | some b =>
            cases hb
            exact hp
        cases r with
        | error e =>
          cases h
          exact hq
        | ok b => exact ih hq (of_emit h)

theorem ticksFrom_stable (hI : Stable P I) {n : Nat} {ts : List Nat} {hs : Hashes}
    {res : Except Error Hashes} (hp : I p.slots)
    (h : ticksFrom P n ts p hs w = some ((res, p'), w')) : I p'.slots := by
  induction ts generalizing p hs w with
  | nil =>
    cases h
    exact hp
  | cons t ts ih =>
    obtain ⟨⟨scratch, q⟩, v, hf, h⟩ := bind_eq_some.mp h
    obtain ⟨⟨r, q'⟩, u, ha, h⟩ := bind_eq_some.mp h
    have hq' := absorbFrom_stable hI (fanOut_stable hI hp hf) ha
    cases r with
    | error e =>
      cases h
      exact hq'
    | ok hs => exact ih hq' h

theorem doRoundChain_stable (hI : Stable P I) {out out' : Digest} {res : Except Error Unit}
    (hp : I p.slots)
    (h : p.doRoundChain P out w = some ((res, p', out'), w')) : I p'.slots := by
  obtain ⟨⟨r, q⟩, v, ht, h⟩ := bind_eq_some.mp (of_emit h)
  have hq := ticksFrom_stable hI hp ht
  cases r with
  | error e =>
    cases h
    exact hq
  | ok hs =>
    cases h
    exact hq

theorem readChain_stable (hI : Stable P I) {out out' : Digest} {done rest buf' : List UInt8}
    {res : Except Error Unit} (hp : I p.slots)
    (h : p.readChain P out done rest w = some ((res, p', out', buf'), w')) :
    I p'.slots := by
  induction hk : rest.length using Nat.strongRecOn generalizing p w out done rest with
  | _ k ih =>
    unfold readChain at h
    split at h
    · cases h
      exact hp
    · rename_i hrest
      have hpos : 0 < rest.length := List.length_pos_iff.mpr (by simpa using hrest)
      obtain ⟨⟨r, q, out₁⟩, v, hround, h⟩ := bind_eq_some.mp h
      have hq := doRoundChain_stable hI hp hround
      cases r with
      | error e =>
        cases h
        exact hq
      | ok _ =>
        refine ih _ ?_ hq (of_emit h) rfl
        simp only [List.length_drop, roundBytes]
        omega

theorem readPassthrough_stable (hI : Stable P I) {buf buf' : List UInt8} {res : Except Error Unit}
    (hp : I p.slots)
    (h : p.readPassthrough P buf w = some ((res, p', buf'), w')) : I p'.slots := by
  obtain ⟨⟨o, q⟩, v, ho, h⟩ := bind_eq_some.mp h
  have hq := readSlot_stable hI hp ho
  replace h := of_emit h
  split at h
  · cases h
    exact hq
  · obtain ⟨⟨r, q'⟩, u, hr, h⟩ := bind_eq_some.mp h
    have hq' := rebind_stable hI hq hr
    cases r with
    | error e =>
      cases h
      exact hq'
    | ok _ =>
      obtain ⟨⟨o', q''⟩, u', ho', h⟩ := bind_eq_some.mp h
      have hq'' := readSlot_stable hI hq' ho'
      replace h := of_emit h
      split at h
      · cases h
        exact hq''
      · cases h
        exact hq''

theorem read_stable (hI : Stable P I) {buf buf' : List UInt8} {res : Except Error Unit}
    (hp : I p.slots) (h : p.read P buf w = some ((res, p', buf'), w')) :
    I p'.slots := by
  unfold read at h
  split at h
  · obtain ⟨⟨r, q, out, buf⟩, v, hc, h⟩ := bind_eq_some.mp h
    cases h
    exact readChain_stable hI hp hc
  · exact readPassthrough_stable hI hp h

end Pool

/-- What holds of everything that opens holds of every source in a pool. -/
theorem PoolRun.kept (hQ : Kept P Q) (h : PoolRun P cfg p w) : ∀ s ∈ p.slots, Q s.inner := by
  induction h with
  | opened _ hopen => exact Pool.open_kept hQ hopen
  | elapsed _ _ ih => exact ih
  | read _ hread ih => exact Pool.read_stable hQ.stable ih hread

end P11Rand
