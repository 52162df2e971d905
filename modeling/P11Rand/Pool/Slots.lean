import P11Rand.Lease
import P11Rand.Sources

/-! The three things that happen to the slots of a pool, and what each pool operation is made
of. Every invariant of the slots is derived from these. -/
namespace P11Rand

open Effect Run

variable {W : Type} {P : Platform W} {w w' : World W} {p p' : Pool}

def Slot.closed (s : Slot) : Slot := { s with name := none, inner := .empty }

/-- Reading from a slot changes at most what is learned about its source. -/
structure Slot.Same (s s' : Slot) : Prop where
  kind : s'.kind = s.kind
  name : s'.name = s.name
  handle : s'.inner.handle = s.inner.handle
  chunk : s'.inner.chunk ≤ s.inner.chunk

theorem Slot.Same.refl (s : Slot) : s.Same s := ⟨rfl, rfl, rfl, le_rfl⟩

/-- The slots as holders of device names. -/
def leases (slots : List Slot) : List (SlotKind × Option String) :=
  slots.map fun s => (s.kind, s.name)

@[simp] theorem leases_cons (s : Slot) (l : List Slot) :
    leases (s :: l) = (s.kind, s.name) :: leases l := rfl

theorem leases_set (l : List Slot) (i : Nat) (s : Slot) :
    leases (l.set i s) = (leases l).set i (s.kind, s.name) := List.map_set

theorem leases_getElem? {l : List Slot} {i : Nat} {s : Slot} (h : l[i]? = some s) :
    (leases l)[i]? = some (s.kind, s.name) := by
  simp [leases, h]

inductive SlotStep : List Slot → List Slot → Prop
  | read {l l' : List Slot} : List.Forall₂ Slot.Same l l' → SlotStep l l'
  | close {l : List Slot} {i : Nat} {s : Slot} : l[i]? = some s → SlotStep l (l.set i s.closed)
  | bind {l : List Slot} {i : Nat} {s : Slot} {name : String} {src : SlotInner} :
      l[i]? = some s → ¬ Lease.HeldByOther (leases l) i s.kind name →
      src.Opened s.kind name → SlotStep l (l.set i ⟨s.kind, some name, src⟩)

/-- Slot `i` holds a handle that was opened as `device`. -/
def Pool.Holds (p : Pool) (i : Nat) (device : Option String) : Prop :=
  ∃ s name, p.slots[i]? = some s ∧ s.inner.device = some name ∧ device = some name

/-- The slots moved by some of these steps, under the same configuration. -/
structure Pool.Evolves (p p' : Pool) : Prop where
  config : p'.config = p.config
  slots : Relation.ReflTransGen SlotStep p.slots p'.slots

theorem Pool.Evolves.refl (p : Pool) : p.Evolves p := ⟨rfl, .refl⟩

theorem Pool.Evolves.trans {q : Pool} (h : p.Evolves q) (h' : q.Evolves p') : p.Evolves p' :=
  ⟨h'.config.trans h.config, h.slots.trans h'.slots⟩

/-- What every slot step keeps, an evolution keeps. -/
theorem Pool.Evolves.invariant {I : List Slot → Prop}
    (hstep : ∀ l l', SlotStep l l' → I l → I l') (h : p.Evolves p') (hi : I p.slots) :
    I p'.slots := by
  have hrun : ∀ l l', Relation.ReflTransGen SlotStep l l' → I l → I l' := by
    intro l l' h hi
    induction h with
    | refl => exact hi
    | tail _ h ih => exact hstep _ _ h ih
  exact hrun _ _ h.slots hi

theorem SlotStep.length_eq {l l' : List Slot} (h : SlotStep l l') : l'.length = l.length := by
  cases h with
  | read h => exact h.length_eq.symm
  | close _ => exact List.length_set
  | bind _ _ _ => exact List.length_set

theorem Pool.Evolves.length_eq (h : p.Evolves p') : p'.slots.length = p.slots.length :=
  h.invariant (I := fun l => l.length = p.slots.length)
    (fun _ _ hs hl => hs.length_eq.trans hl) rfl

/-- For the names it holds, a slot step is a step of the table of holders, or none. -/
theorem SlotStep.leases_step {l l' : List Slot} (h : SlotStep l l') :
    leases l' = leases l ∨ Lease.Step (leases l) (leases l') := by
  cases h with
  | read h =>
    left
    induction h with
    | nil => rfl
    | cons hs _ ih => simp only [leases_cons, hs.kind, hs.name, ih]
  | close hs =>
    have hl := leases_getElem? hs
    exact .inr (leases_set .. ▸ .release hl)
  | bind hs hfree _ =>
    have hl := leases_getElem? hs
    exact .inr (leases_set .. ▸ .acquire hl hfree)

theorem nameInUse_iff {idx : Nat} {kind : SlotKind} {name : String} :
    p.nameInUse idx kind name = true ↔ Lease.HeldByOther (leases p.slots) idx kind name := by
  simp only [Pool.nameInUse, List.any_eq_true, Bool.and_eq_true, decide_eq_true_eq, beq_iff_eq,
    Prod.exists, List.mem_zipIdx_iff_getElem?, Lease.HeldByOther, leases, List.getElem?_map,
    Option.map_eq_some_iff, Prod.mk.injEq]
  constructor
  · rintro ⟨s, j, hs, ⟨hj, hk⟩, hn⟩
    exact ⟨j, hj, s, hs, hk, hn⟩
  · rintro ⟨j, hj, s, hs, hk, hn⟩
    exact ⟨s, j, hs, ⟨hj, hk⟩, hn⟩

theorem close_total (s : Slot) : Total (Does P fun _ => True) (s.close P) :=
  total_bind (SlotInner.drop_total (fun _ => trivial) _) fun _ => total_pure _

theorem close_eq {s s' : Slot} (h : s.close P w = some (s', w')) : s' = s.closed := by
  obtain ⟨_, _, _, h⟩ := bind_eq_some.mp h
  cases h
  rfl

namespace Pool

@[simp] theorem setSlot_slots (p : Pool) (i : Nat) (s : Slot) :
    (p.setSlot i s).slots = p.slots.set i s := rfl

@[simp] theorem setSlot_setSlot (p : Pool) (i : Nat) (s s' : Slot) :
    (p.setSlot i s).setSlot i s' = p.setSlot i s' := by
  simp [setSlot]

theorem evolves_setSlot {i : Nat} {s : Slot} (h : SlotStep p.slots (p.slots.set i s)) :
    p.Evolves (p.setSlot i s) := ⟨rfl, .single h⟩

/-- What a rebind from `w` to `w'` leads to: the slot is emptied, or it holds a device that no
other slot holds and that has just been opened. -/
inductive Rebound (P : Platform W) (idx : Nat) (s : Slot) (p : Pool) (w w' : World W) :
    Except Error Unit → Pool → PoolEvent → Prop
  | failed {e : Error} :
      Rebound P idx s p w w' (.error e) (p.setSlot idx s.closed) (.rebind idx none)
  | bound {name : String} {src : SlotInner} {u u' : World W} :
      ¬ Lease.HeldByOther (leases (p.setSlot idx s.closed).slots) idx s.kind name →
      Later P w u → s.kind.openSource P name u = some (some src, u') → Later P u' w' →
      Rebound P idx s p w w' (.ok ()) (p.setSlot idx ⟨s.kind, some name, src⟩)
        (.rebind idx (some name))

theorem Rebound.after {idx : Nat} {s : Slot} {v : World W} {res : Except Error Unit}
    {ev : PoolEvent} (hv : Later P v w) (h : Rebound P idx s p w w' res p' ev) :
    Rebound P idx s p v w' res p' ev := by
  cases h with
  | failed => exact .failed
  | bound hfree hu hopen hu' => exact .bound hfree (IsTrans.trans _ _ _ hv hu) hopen hu'

theorem rebindScan_cases {idx : Nat} {s : Slot} {names : List String} {res : Except Error Unit}
    (h : rebindScan P idx s.kind (p.setSlot idx s.closed) names w = some ((res, p'), w')) :
    ∃ ev, Rebound P idx s p w w' res p' ev ∧ w'.log = w.log ++ [ev] ∧ Later P w w' := by
  induction names generalizing w with
  | nil =>
    replace h := of_emit h
    cases h
    exact ⟨_, .failed, rfl, Relation.ReflTransGen.refl, rfl, List.prefix_rfl⟩
  | cons r rs ih =>
    unfold rebindScan at h
    split at h
    · exact ih h
    · rename_i huse
      obtain ⟨src, v, hsrc, h⟩ := bind_eq_some.mp h
      have hd := (SlotKind.openSource_total (A := fun _ => True) (fun _ => trivial) _ _).within
        _ _ _ hsrc
      cases src with
      | none =>
        obtain ⟨ev, hev, hlog, hlat⟩ := ih h
        exact ⟨ev, hev.after hd.later, by rw [hlog, hd.log], IsTrans.trans _ _ _ hd.later hlat⟩
      | some src =>
        replace h := of_emit h
        cases h
        rw [setSlot_setSlot]
        have hend := later_log P v (v.log ++ [.rebind idx (some r)])
        have hfree := fun hheld => huse (nameInUse_iff.mpr hheld)
        exact ⟨_, .bound hfree (Std.Refl.refl w) hsrc hend, by simp [hd.log],
          IsTrans.trans _ _ _ hd.later hend⟩

theorem rebind_cases {idx : Nat} {res : Except Error Unit}
    (h : p.rebind P idx w = some ((res, p'), w')) :
    ∃ s ev, p.slots[idx]? = some s ∧ Rebound P idx s p w w' res p' ev ∧
      w'.log = w.log ++ [ev] ∧ Later P w w' := by
  unfold rebind at h
  cases hs : p.slots[idx]? with
  | none => simp [hs] at h
  | some s =>
    rw [hs] at h
    obtain ⟨s', v, hs', h⟩ := bind_eq_some.mp h
    have hd := (close_total s).within _ _ _ hs'
    obtain rfl := close_eq hs'
    obtain ⟨names, u, hn, h⟩ := bind_eq_some.mp h
    have hd' := (SlotKind.list_total (A := fun _ => True) (fun _ _ => trivial) _).within _ _ _ hn
    have hlat : Later P w u := IsTrans.trans _ _ _ hd.later hd'.later
    have hlog : u.log = w.log := hd'.log.trans hd.log
    cases names with
    | error e =>
      replace h := of_emit h
      cases h
      exact ⟨s, _, rfl, .failed, by simp [hlog], hlat.env, hlat.global, hlat.trace⟩
    | ok names =>
      obtain ⟨ev, hev, hl, hlat'⟩ := rebindScan_cases h
      exact ⟨s, ev, rfl, hev.after hlat, by rw [hl, hlog], IsTrans.trans _ _ _ hlat hlat'⟩

theorem Rebound.evolves {idx : Nat} {s : Slot} {res : Except Error Unit} {ev : PoolEvent}
    (hs : p.slots[idx]? = some s) (h : Rebound P idx s p w w' res p' ev) : p.Evolves p' := by
  have hclose : p.Evolves (p.setSlot idx s.closed) := evolves_setSlot (.close hs)
  cases h with
  | failed => exact hclose
  | bound hfree _ hopen _ =>
    apply hclose.trans
    have hs' : (p.setSlot idx s.closed).slots[idx]? = some s.closed := by
      simp [(List.getElem?_eq_some_iff.mp hs).1]
    have hstep := evolves_setSlot (SlotStep.bind hs' hfree (SlotKind.openSource_opened hopen))
    rwa [setSlot_setSlot] at hstep

theorem Rebound.state {idx : Nat} {s : Slot} {res : Except Error Unit} {ev : PoolEvent}
    (h : Rebound P idx s p w w' res p' ev) : p'.state = p.state := by
  cases h <;> rfl

theorem Rebound.other {idx j : Nat} {s : Slot} {res : Except Error Unit} {ev : PoolEvent}
    (h : Rebound P idx s p w w' res p' ev) (hj : j ≠ idx) : p'.slots[j]? = p.slots[j]? := by
  cases h <;> simp [List.getElem?_set_ne hj.symm]

/-- What reading slot `i` leads to. -/
theorem readSlot_cases {i : Nat} {buf : List UInt8} {o : Outcome SlotInner Unit}
    (h : p.readSlot P i buf w = some ((o, p'), w')) :
    ∃ s, p.slots[i]? = some s ∧ s.inner.read P buf w = some (o, w') ∧
      p' = p.setSlot i { s with inner := o.src } := by
  unfold readSlot at h
  cases hs : p.slots[i]? with
  | none => simp [hs] at h
  | some s =>
    rw [hs] at h
    obtain ⟨o', v, ho, h⟩ := bind_eq_some.mp h
    cases h
    exact ⟨s, rfl, ho, rfl⟩

theorem same_set {l : List Slot} {i : Nat} {s s' : Slot} (hs : l[i]? = some s)
    (h : s.Same s') : List.Forall₂ Slot.Same l (l.set i s') := by
  rw [List.forall₂_iff_get]
  refine ⟨by simp, fun j hj hj' => ?_⟩
  simp only [List.get_eq_getElem, List.getElem_set]
  split
  · rename_i hij
    subst hij
    rw [(List.getElem?_eq_some_iff.mp hs).2]
    exact h
  · exact Slot.Same.refl _

theorem readSlot_evolves {i : Nat} {s : Slot} {o : Outcome SlotInner Unit}
    (hs : p.slots[i]? = some s) (ho : o.src.handle = s.inner.handle)
    (hc : o.src.chunk ≤ s.inner.chunk) : p.Evolves (p.setSlot i { s with inner := o.src }) :=
  evolves_setSlot (.read (same_set hs ⟨rfl, rfl, ho, hc⟩))

/-- Slot `i` was read into `buf`; nothing else of the pool changed. -/
structure SlotRead (P : Platform W) (i : Nat) (s : Slot) (buf : List UInt8) (p p' : Pool)
    (o : Outcome SlotInner Unit) (w w' : World W) : Prop where
  read : s.inner.read P buf w = some (o, w')
  pool : p' = p.setSlot i { s with inner := o.src }
  does : Does P (fun _ => True) w w'
  evolves : p.Evolves p'
  handle : o.src.handle = s.inner.handle
  chunk : o.src.chunk ≤ s.inner.chunk
  device : o.src.device = s.inner.device
  length : o.buf.length = buf.length

theorem readSlot_spec {i : Nat} {s : Slot} {buf : List UInt8} {o : Outcome SlotInner Unit}
    (hs : p.slots[i]? = some s) (h : p.readSlot P i buf w = some ((o, p'), w')) :
    SlotRead P i s buf p p' o w w' := by
  obtain ⟨s', hs', hread, rfl⟩ := readSlot_cases h
  obtain rfl : s = s' := Option.some.inj (hs.symm.trans hs')
  obtain ⟨hh, hc, hl, _⟩ := SlotInner.read_keeps hread
  exact ⟨hread, rfl, SlotInner.read_within (fun _ => trivial) _ _ _ _ _ hread,
    readSlot_evolves hs hh hc, hh, hc, SlotInner.device_eq hh, by simpa [Outcome.buf] using hl⟩

/-- Reading from a slot that was just stored. -/
theorem readSlot_stored {i : Nat} {s : Slot} {buf : List UInt8} {o : Outcome SlotInner Unit}
    (hi : i < p.slots.length) (h : (p.setSlot i s).readSlot P i buf w = some ((o, p'), w')) :
    SlotRead P i s buf (p.setSlot i s) p' o w w' ∧ p' = p.setSlot i { s with inner := o.src } := by
  have hs : (p.setSlot i s).slots[i]? = some s := by simp [hi]
  have hread := readSlot_spec hs h
  exact ⟨hread, hread.pool.trans (setSlot_setSlot ..)⟩

end Pool
end P11Rand
