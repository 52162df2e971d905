import P11Rand.Pool.Slots

/-! The representation invariant of a pool, from `Pool::open` on. -/
namespace P11Rand

open Effect Run

variable {W : Type} {P : Platform W} {w w' : World W} {p p' : Pool} {cfg : Config}
  {l l' : List Slot}

/-- Each slot is of the kind its index says, and holds a source of that kind or nothing. -/
structure SlotsOk (cfg : Config) (l : List Slot) : Prop where
  kinds : l.map Slot.kind = (List.range cfg.poolSize).map cfg.kindAt
  inner : ∀ s ∈ l, s.inner = .empty ∨ s.inner.kind? = some s.kind
  device : ∀ s ∈ l, s.name = s.inner.device
  chunk : ∀ s ∈ l, s.inner.chunk ≤ 128

/-- What holds of a pool at all times. -/
structure Pool.Inv (p : Pool) : Prop where
  slots : SlotsOk p.config p.slots
  distinct : Lease.Distinct (leases p.slots)

theorem SlotsOk.length_eq (h : SlotsOk cfg l) : l.length = cfg.poolSize := by
  have hlen := congrArg List.length h.kinds
  simpa using hlen

theorem SlotsOk.kind_eq (h : SlotsOk cfg l) {i : Nat} {s : Slot} (hs : l[i]? = some s) :
    s.kind = cfg.kindAt i := by
  have hi := congrArg (·[i]?) h.kinds
  have hlt : i < cfg.poolSize := h.length_eq ▸ (List.getElem?_eq_some_iff.mp hs).1
  simpa [hs, hlt] using hi

theorem kindAt_eq_iso7816 {i : Nat} : cfg.kindAt i = .iso7816 ↔ i < cfg.iso7816Cards := by
  by_cases hi : i < cfg.iso7816Cards <;> simp [Config.kindAt, hi]

theorem device_eq_none {s : SlotInner} : s.device = none ↔ s = .empty := by
  cases s <;> simp [SlotInner.device]

theorem kind?_eq_none {s : SlotInner} : s.kind? = none ↔ s = .empty := by
  cases s <;> simp [SlotInner.kind?]

theorem fst_leases (l : List Slot) : (leases l).map Prod.fst = l.map Slot.kind := by
  simp [leases]

theorem kinds_set {i : Nat} {s s' : Slot} (hs : l[i]? = some s) (hk : s'.kind = s.kind) :
    (l.set i s').map Slot.kind = l.map Slot.kind := by
  have hget : (l.map Slot.kind)[i]? = some s'.kind := by simp [hs, hk]
  obtain ⟨hlt, hget⟩ := List.getElem?_eq_some_iff.mp hget
  rw [List.map_set, ← hget, List.set_getElem_self]

/-- Every slot of a list is as before, or is the one that was replaced. -/
theorem forall_mem_set {Q : Slot → Prop} {i : Nat} {s : Slot} (h : ∀ s ∈ l, Q s) (hs : Q s) :
    ∀ s' ∈ l.set i s, Q s' := by
  intro s' hmem
  rcases List.mem_or_eq_of_mem_set hmem with hmem | rfl
  · exact h s' hmem
  · exact hs

theorem Slot.Same.inner {s s' : Slot} (h : s.Same s')
    (hs : s.inner = .empty ∨ s.inner.kind? = some s.kind) :
    s'.inner = .empty ∨ s'.inner.kind? = some s'.kind := by
  rw [← kind?_eq_none, SlotInner.kind?_eq h.handle, h.kind, kind?_eq_none]
  exact hs

theorem SlotStep.distinct (h : SlotStep l l') (hd : Lease.Distinct (leases l)) :
    Lease.Distinct (leases l') := by
  rcases h.leases_step with heq | hstep
  · exact heq ▸ hd
  · exact hstep.distinct hd

theorem SlotStep.ok (h : SlotStep l l') (hok : SlotsOk cfg l) : SlotsOk cfg l' := by
  cases h with
  | read hsame =>
    have hget : ∀ s' ∈ l', ∃ s ∈ l, s.Same s' := by
      intro s' hs'
      obtain ⟨i, hi, rfl⟩ := List.getElem_of_mem hs'
      have hi' : i < l.length := hsame.length_eq ▸ hi
      exact ⟨_, List.getElem_mem hi', (List.forall₂_iff_get.mp hsame).2 i hi' hi⟩
    refine ⟨?_, ?_, ?_, ?_⟩
    · rw [← hok.kinds]
      clear hget hok
      induction hsame with
      | nil => rfl
      | cons hs _ ih => simp [hs.kind, ih]
    · intro s' hs'
      obtain ⟨s, hs, hss⟩ := hget s' hs'
      exact hss.inner (hok.inner s hs)
    · intro s' hs'
      obtain ⟨s, hs, hss⟩ := hget s' hs'
      rw [hss.name, hok.device s hs, SlotInner.device_eq hss.handle]
    · intro s' hs'
      obtain ⟨s, hs, hss⟩ := hget s' hs'
      exact hss.chunk.trans (hok.chunk s hs)
  | @close i s hs =>
    have hkinds : (l.set i s.closed).map Slot.kind = l.map Slot.kind := kinds_set hs rfl
    refine ⟨hkinds.trans hok.kinds, ?_, ?_, ?_⟩
    · exact forall_mem_set hok.inner (.inl rfl)
    · exact forall_mem_set hok.device rfl
    · exact forall_mem_set hok.chunk (Nat.zero_le _)
  | @bind i s name src hs _ ho =>
    have hkinds : (l.set i ⟨s.kind, some name, src⟩).map Slot.kind = l.map Slot.kind :=
      kinds_set hs rfl
    refine ⟨hkinds.trans hok.kinds, ?_, ?_, ?_⟩
    · exact forall_mem_set hok.inner (.inr ho.kind)
    · exact forall_mem_set hok.device ho.device.symm
    · exact forall_mem_set hok.chunk ho.chunk

theorem Pool.Evolves.slotsOk (h : p.Evolves p') (hok : SlotsOk cfg p.slots) :
    SlotsOk cfg p'.slots := h.invariant (fun _ _ hstep hok => hstep.ok hok) hok

theorem Pool.Evolves.inv (h : p.Evolves p') (hi : p.Inv) : p'.Inv := by
  refine ⟨h.config ▸ h.slotsOk hi.slots, ?_⟩
  exact h.invariant (I := fun l => Lease.Distinct (leases l))
    (fun _ _ hstep hd => hstep.distinct hd)
    hi.distinct

/-- A slot as `Pool::open` makes it. -/
structure Slot.Opened (k : SlotKind) (s : Slot) : Prop where
  kind : s.kind = k
  source : ∃ name, s.name = some name ∧ s.inner.Opened k name

theorem claim_cases {kind : SlotKind} {want : Nat} {got got' : List Slot} {names : List String}
    (h : claim P kind want got names w = some (got', w')) :
    ∃ (new : List Slot) (ns : List String), got' = got ++ new ∧
      leases new = ns.map (fun n => (kind, some n)) ∧
      ns.Sublist names ∧ (∀ s ∈ new, s.Opened kind) ∧ got'.length ≤ max want got.length := by
  induction names generalizing w got with
  | nil =>
    cases h
    exact ⟨[], [], by simp, rfl, .refl _, by simp, by omega⟩
  | cons name names ih =>
    unfold claim at h
    split at h
    · cases h
      exact ⟨[], [], by simp, rfl, by simp, by simp, by omega⟩
    · rename_i hlt
      obtain ⟨src, v, hsrc, h⟩ := bind_eq_some.mp h
      cases src with
      | none =>
        obtain ⟨new, ns, hnew, hl, hsub, hall, hlen⟩ := ih h
        exact ⟨new, ns, hnew, hl, hsub.cons _, hall, hlen⟩
      | some src =>
        obtain ⟨new, ns, hnew, hl, hsub, hall, hlen⟩ := ih h
        refine ⟨⟨kind, some name, src⟩ :: new, name :: ns, by simp [hnew], by simp [hl],
          hsub.cons_cons _, ?_, ?_⟩
        · intro s hs
          rcases List.mem_cons.mp hs with rfl | hs
          · exact ⟨rfl, name, rfl, SlotKind.openSource_opened hsrc⟩
          · exact hall s hs
        · rw [List.length_append, List.length_singleton] at hlen
          omega

/-- The names claimed for one kind: none, or some of an enumeration. -/
def Claimed (P : Platform W) (kind : SlotKind) (ns : List String) : Prop :=
  ns = [] ∨ ∃ names v v', kind.list P v = some (.ok names, v') ∧ ns.Sublist names

theorem claimKind_cases {kind : SlotKind} {slots slots' : List Slot}
    (h : claimKind P cfg kind slots w = some (.ok slots', w')) :
    ∃ (new : List Slot) (ns : List String), slots' = slots ++ new ∧
      leases new = ns.map (fun n => (kind, some n)) ∧
      new.length = cfg.count kind ∧ (∀ s ∈ new, s.Opened kind) ∧ Claimed P kind ns := by
  unfold claimKind at h
  split at h
  · obtain ⟨names, v, hn, h⟩ := bind_eq_some.mp h
    cases names with
    | error e =>
      obtain ⟨_, _, _, h⟩ := bind_eq_some.mp h
      cases h
    | ok names =>
      obtain ⟨got, u, hg, h⟩ := bind_eq_some.mp h
      obtain ⟨_, ns, rfl, hl, hsub, hall, hlen⟩ := claim_cases hg
      split at h
      · obtain ⟨_, _, _, h⟩ := bind_eq_some.mp h
        cases h
      · rename_i hge
        cases h
        simp only [List.length_nil] at hlen hge
        exact ⟨got, ns, rfl, hl, by omega, hall, .inr ⟨names, _, _, hn, hsub⟩⟩
  · rename_i hzero
    cases h
    exact ⟨[], [], by simp, rfl, by simp; omega, by simp, .inl rfl⟩

theorem dropSlots_total (l : List Slot) : Total (Does P fun _ => True) (dropSlots P l) := by
  induction l with
  | nil => exact total_pure _
  | cons s l ih => exact total_bind (SlotInner.drop_total (fun _ => trivial) _) fun _ => ih

theorem claim_total (kind : SlotKind) (want : Nat) (got : List Slot) (names : List String) :
    Total (Does P fun _ => True) (claim P kind want got names) := by
  induction names generalizing got with
  | nil => exact total_pure _
  | cons name names ih =>
    unfold claim
    split
    · exact total_pure _
    · apply total_bind (SlotKind.openSource_total (fun _ => trivial) _ _)
      intro src
      split
      · exact ih _
      · exact ih _

theorem claimKind_total (kind : SlotKind) (slots : List Slot) :
    Total (Does P fun _ => True) (claimKind P cfg kind slots) := by
  unfold claimKind
  split
  · apply total_bind (SlotKind.list_total (fun _ _ => trivial) _)
    intro names
    split
    · exact total_bind (dropSlots_total _) fun _ => total_pure _
    · apply total_bind (claim_total _ _ _ _)
      intro got
      split
      · exact total_bind (dropSlots_total _) fun _ => total_pure _
      · exact total_pure _
  · exact total_pure _

theorem Pool.open_total (cfg : Config) : Total (Does P fun _ => True) (Pool.open P cfg) := by
  unfold Pool.open
  split
  · exact total_pure _
  · apply total_bind (claimKind_total _ _)
    intro iso
    split
    · exact total_pure _
    · apply total_bind (claimKind_total _ _)
      intro all
      split <;> exact total_pure _

/-- Enumerations list each device once. -/
def Platform.DupFree (P : Platform W) : Prop :=
  ∀ (kind : SlotKind) (w : World W) (names : List String) (w' : World W),
    kind.list P w = some (.ok names, w') → names.Nodup

theorem distinct_of_nodup (h : (leases l).Nodup) : Lease.Distinct (leases l) := by
  intro i j k n hi hj
  obtain ⟨hi', hi⟩ := List.getElem?_eq_some_iff.mp hi
  obtain ⟨hj', hj⟩ := List.getElem?_eq_some_iff.mp hj
  exact (List.Nodup.getElem_inj_iff h).mp (hi.trans hj.symm)

theorem kindAt_order (cfg : Config) : (List.range cfg.poolSize).map cfg.kindAt =
    List.replicate (cfg.count .iso7816) .iso7816 ++
      List.replicate (cfg.count .infnoise) .infnoise := by
  apply List.ext_getElem
  · simp [Config.poolSize, Config.count]
  · intro i _ _
    by_cases hi : i < cfg.iso7816Cards
    · simp [Config.kindAt, Config.count, hi]
    · simp [List.getElem_append, Config.kindAt, Config.count, hi]

theorem kinds_of_opened {kind : SlotKind} (h : ∀ s ∈ l, s.Opened kind) :
    l.map Slot.kind = List.replicate l.length kind := by
  rw [List.map_eq_replicate_iff]
  exact fun s hs => (h s hs).kind

theorem slotsOk_of_opened {iso inf : List Slot} (hiso : ∀ s ∈ iso, s.Opened .iso7816)
    (hinf : ∀ s ∈ inf, s.Opened .infnoise) (hlen : iso.length = cfg.count .iso7816)
    (hlen' : inf.length = cfg.count .infnoise) : SlotsOk cfg (iso ++ inf) := by
  have hopen : ∀ s ∈ iso ++ inf, ∃ name, s.name = some name ∧ s.inner.Opened s.kind name := by
    intro s hs
    rcases List.mem_append.mp hs with hs | hs
    · exact (hiso s hs).kind ▸ (hiso s hs).source
    · exact (hinf s hs).kind ▸ (hinf s hs).source
  refine ⟨?_, fun s hs => ?_, fun s hs => ?_, fun s hs => ?_⟩
  · rw [List.map_append, kindAt_order, kinds_of_opened hiso, kinds_of_opened hinf, hlen, hlen']
  · obtain ⟨_, _, ho⟩ := hopen s hs
    exact .inr ho.kind
  · obtain ⟨_, hn, ho⟩ := hopen s hs
    exact hn.trans ho.device.symm
  · obtain ⟨_, _, ho⟩ := hopen s hs
    exact ho.chunk

theorem Claimed.nodup {kind : SlotKind} {ns : List String} (h : Claimed P kind ns)
    (hdup : P.DupFree) : (ns.map fun n => (kind, some n)).Nodup := by
  have hns : ns.Nodup := by
    rcases h with rfl | ⟨names, v, v', hlist, hsub⟩
    · exact List.nodup_nil
    · exact (hdup _ _ _ _ hlist).sublist hsub
  apply hns.map
  intro a b hab
  simpa using hab

/-- Claims of the two kinds never meet. -/
theorem distinct_of_claimed {iso inf : List Slot} {ns ns' : List String}
    (hl : leases iso = ns.map fun n => (.iso7816, some n))
    (hl' : leases inf = ns'.map fun n => (.infnoise, some n)) (hns : Claimed P .iso7816 ns)
    (hns' : Claimed P .infnoise ns') (hdup : P.DupFree) :
    Lease.Distinct (leases (iso ++ inf)) := by
  apply distinct_of_nodup
  have happ : leases (iso ++ inf) = leases iso ++ leases inf := List.map_append
  rw [happ, hl, hl', List.nodup_append']
  refine ⟨hns.nodup hdup, hns'.nodup hdup, ?_⟩
  intro x hx hx'
  obtain ⟨_, _, rfl⟩ := List.mem_map.mp hx
  obtain ⟨_, _, h⟩ := List.mem_map.mp hx'
  cases h

namespace Pool

/-- What `open` returns: the configured number of sources of each kind, first the cards. -/
theorem open_cases (h : Pool.open P cfg w = some (.ok p, w')) :
    cfg.validate = .ok () ∧ p.config = cfg ∧ p.state = zeroDigest ∧ SlotsOk cfg p.slots ∧
      (P.DupFree → Lease.Distinct (leases p.slots)) := by
  unfold Pool.open at h
  cases hv : cfg.validate with
  | error e =>
    rw [hv] at h
    cases h
  | ok u =>
    rw [hv] at h
    obtain ⟨iso, v, hiso, h⟩ := bind_eq_some.mp h
    cases iso with
    | error e => cases h
    | ok iso =>
      obtain ⟨all, u, hinf, h⟩ := bind_eq_some.mp h
      cases all with
      | error e => cases h
      | ok all =>
        cases h
        obtain ⟨iso, ns, rfl, hl, hlen, hall, hns⟩ := claimKind_cases hiso
        obtain ⟨inf, ns', rfl, hl', hlen', hall', hns'⟩ := claimKind_cases hinf
        exact ⟨rfl, rfl, rfl, slotsOk_of_opened hall hall' hlen hlen',
          distinct_of_claimed hl hl' hns hns'⟩

end Pool
end P11Rand
