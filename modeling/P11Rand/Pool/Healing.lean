import P11Rand.Pool.Progress

/-! Recovery of failed slots while enough working devices are plugged in. -/
namespace P11Rand

open Effect Run

variable {W : Type} {P : Platform W} {w w' v : World W} {p p' : Pool} {cfg : Config}
  {kind : SlotKind} {name : String} {t i : Nat}

/-- From `w` on, the name never opens. -/
def Dead (P : Platform W) (w : World W) (kind : SlotKind) (name : String) : Prop :=
  ∀ v, Later P w v → Yields (kind.openSource P name) v fun src _ => src = none

/-- The next read on the handle succeeds, whatever its length. -/
def Serves (P : Platform W) (src : SlotInner) (w : World W) : Prop :=
  ∀ buf, Yields (src.read P buf) w fun o _ => o.ok = true

/-- From `w` on, the name always opens, and reads on what it opens to succeed. -/
def Working (P : Platform W) (w : World W) (kind : SlotKind) (name : String) : Prop :=
  ∀ v, Later P w v → Yields (kind.openSource P name) v fun src v' =>
    ∃ s, src = some s ∧ ∀ u : World W, u.env = v'.env → Serves P s u

/-- From `w` on, the devices of a kind stay plugged in, each name is dead or working, and at
least `n` of them work. -/
structure Supplied (P : Platform W) (w : World W) (kind : SlotKind) (n : Nat)
    (names working : List String) : Prop where
  nodup : names.Nodup
  listed : ∀ v, Later P w v → Yields (kind.list P) v fun res _ => res = .ok names
  dead : ∀ name ∈ names, name ∉ working → Dead P w kind name
  works : ∀ name ∈ working, Working P w kind name
  subset : working.Sublist names
  enough : n ≤ working.length

theorem Dead.later (h : Dead P w kind name) (hl : Later P w w') : Dead P w' kind name :=
  fun v hv => h v (IsTrans.trans _ _ _ hl hv)

theorem Working.later (h : Working P w kind name) (hl : Later P w w') : Working P w' kind name :=
  fun v hv => h v (IsTrans.trans _ _ _ hl hv)

theorem Supplied.later {n : Nat} {names working : List String}
    (h : Supplied P w kind n names working) (hl : Later P w w') :
    Supplied P w' kind n names working :=
  ⟨h.nodup, fun v hv => h.listed v (IsTrans.trans _ _ _ hl hv),
    fun name hn hw => (h.dead name hn hw).later hl, fun name hn => (h.works name hn).later hl,
    h.subset, h.enough⟩

/-- The slots of a kind are as many as are configured. -/
theorem countP_leases {l : List Slot} (hok : SlotsOk cfg l) (kind : SlotKind) :
    ((leases l).countP fun h => h.1 = kind) = cfg.count kind := by
  have hcount : ((leases l).countP fun h => h.1 = kind) = (l.map Slot.kind).count kind := by
    rw [← fst_leases, List.count, List.countP_map]
    congr 1
  rw [hcount, hok.kinds, kindAt_order]
  cases kind <;> simp [List.count_replicate]

theorem SlotsOk.count_pos {s : Slot} (hok : SlotsOk cfg p.slots) (hi : p.slots[i]? = some s) :
    0 < cfg.count s.kind := by
  rw [← countP_leases hok, List.countP_pos_iff]
  exact ⟨_, List.mem_of_getElem? (leases_getElem? hi), by simp⟩

namespace Pool

/-- A scan that meets a free working name binds the slot to a working name. -/
theorem rebindScan_heals {idx n : Nat} {names names' working : List String}
    (hs : Supplied P w kind n names' working) (hsub : ∀ name ∈ names, name ∈ names')
    (hfree : ∃ name ∈ names, name ∈ working ∧ p.nameInUse idx kind name = false) :
    Yields (rebindScan P idx kind p names) w fun r u => r.1 = .ok () ∧ ∃ name src,
      r.2 = p.setSlot idx ⟨kind, some name, src⟩ ∧ Serves P src u := by
  induction names generalizing w with
  | nil => simp at hfree
  | cons r rs ih =>
    have hsub' : ∀ name ∈ rs, name ∈ names' := fun name hn => hsub name (List.mem_cons_of_mem r hn)
    obtain ⟨name, hmem, hwork, huse⟩ := hfree
    unfold rebindScan
    split
    · rename_i hr
      have hrest : name ∈ rs :=
        (List.mem_cons.mp hmem).resolve_left fun h => by simp [← h, huse] at hr
      exact ih hs hsub' ⟨name, hrest, hwork, huse⟩
    · by_cases hrw : r ∈ working
      · obtain ⟨src, v, hopen, s, rfl, hserves⟩ := hs.works r hrw w (Std.Refl.refl w)
        exact ⟨_, _, bind_of_eq hopen, rfl, r, s, rfl, hserves _ rfl⟩
      · have hne : name ≠ r := fun h => hrw (h ▸ hwork)
        obtain ⟨src, v, hopen, rfl⟩ := hs.dead r (hsub r List.mem_cons_self) hrw w (Std.Refl.refl w)
        have hd := (SlotKind.openSource_total (A := fun _ => True) (fun _ => trivial) kind r).within
          _ _ _ hopen
        have hrest : name ∈ rs := (List.mem_cons.mp hmem).resolve_left hne
        obtain ⟨res, u, hu, hres⟩ := ih (hs.later hd.later) hsub' ⟨name, hrest, hwork, huse⟩
        exact ⟨res, u, (bind_of_eq hopen).trans hu, hres⟩

/-- With as many working devices as slots of its kind, a slot can always be rebound: the other
slots cannot hold all their names. -/
theorem rebind_heals {names working : List String} {s : Slot} (hok : SlotsOk cfg p.slots)
    (hi : p.slots[i]? = some s) (hs : Supplied P w s.kind (cfg.count s.kind) names working) :
    Yields (p.rebind P i) w fun r u => r.1 = .ok () ∧ ∃ name src,
      r.2 = p.setSlot i ⟨s.kind, some name, src⟩ ∧ Serves P src u := by
  have hlt : i < p.slots.length := (List.getElem?_eq_some_iff.mp hi).1
  have hclosed : (p.setSlot i s.closed).slots[i]? = some s.closed := by simp [hlt]
  have hok' : SlotsOk cfg (p.setSlot i s.closed).slots := (SlotStep.close hi).ok hok
  obtain ⟨name, hwork, hfree⟩ := Lease.exists_free (hs.nodup.sublist hs.subset)
    (leases_getElem? hclosed) ((countP_leases hok' _).le.trans hs.enough)
  have huse : (p.setSlot i s.closed).nameInUse i s.kind name = false := by
    rw [Bool.eq_false_iff]
    exact fun h => hfree (nameInUse_iff.mp h)
  obtain ⟨s', v, hclose, hd⟩ := close_total (P := P) s w
  obtain rfl := close_eq hclose
  obtain ⟨res, v', hlist, rfl⟩ := hs.listed v hd.later
  have hd' := (SlotKind.list_total (A := fun _ => True) (fun _ _ => trivial) s.kind).within
    _ _ _ hlist
  obtain ⟨r, u, hu, hr, name', src, hset, hserves⟩ := rebindScan_heals (hs.later
    (IsTrans.trans _ _ _ hd.later hd'.later)) (fun _ h => h)
    ⟨name, hs.subset.subset hwork, hwork, huse⟩
  refine ⟨r, u, ?_, hr, name', src, by rw [hset, setSlot_setSlot], hserves⟩
  unfold rebind
  rw [hi]
  dsimp only
  rw [bind_of_eq hclose, bind_of_eq hlist]
  exact hu

end Pool

/-- For each kind configured, at least as many devices work as the pool has slots for. -/
def Plenty (P : Platform W) (w : World W) (cfg : Config) : Prop :=
  ∀ kind, 0 < cfg.count kind →
    ∃ names working, Supplied P w kind (cfg.count kind) names working

theorem Plenty.later (h : Plenty P w cfg) (hl : Later P w w') : Plenty P w' cfg := by
  intro kind hk
  obtain ⟨names, working, hs⟩ := h kind hk
  exact ⟨names, working, hs.later hl⟩

namespace Pool

theorem rebind_ok {s : Slot} {res : Except Error Unit} (hpl : Plenty P w cfg)
    (hok : SlotsOk cfg p.slots) (hi : p.slots[i]? = some s)
    (h : p.rebind P i w = some ((res, p'), w')) : res = .ok () ∧ ∃ name src,
      p' = p.setSlot i ⟨s.kind, some name, src⟩ ∧ Serves P src w' := by
  obtain ⟨names, working, hs⟩ := hpl _ (hok.count_pos hi)
  obtain ⟨r, u, hr, hheal⟩ := rebind_heals hok hi hs
  rw [h] at hr
  cases hr
  exact hheal

/-- The read that follows such a rebind succeeds. -/
theorem readSlot_ok {s : Slot} {o : Outcome SlotInner Unit} {buf : List UInt8}
    (hi : i < p.slots.length) (hserves : Serves P s.inner w)
    (h : (p.setSlot i s).readSlot P i buf w = some ((o, p'), w')) : o.ok = true := by
  obtain ⟨hread, _⟩ := readSlot_stored hi h
  obtain ⟨o', u, ho, hok⟩ := hserves buf
  rw [hread.read] at ho
  cases ho
  exact hok

theorem retrySlot_ok {res : Except Error (List UInt8)} (hpl : Plenty P w cfg)
    (hok : SlotsOk cfg p.slots) (h : p.retrySlot P t i w = some ((res, p'), w')) :
    ∃ b, res = .ok b := by
  obtain ⟨⟨r, q⟩, v, hr, h⟩ := bind_eq_some.mp h
  obtain ⟨s, _, hs, _, _, _⟩ := rebind_cases hr
  have hlt : i < p.slots.length := (List.getElem?_eq_some_iff.mp hs).1
  obtain ⟨rfl, name, src, rfl, hserves⟩ := rebind_ok hpl hok hs hr
  obtain ⟨⟨o, q'⟩, u, ho, h⟩ := bind_eq_some.mp h
  have hres : o.ok = true := readSlot_ok (s := ⟨s.kind, some name, src⟩) hlt hserves ho
  replace h := of_emit h
  rw [if_pos hres] at h
  cases h
  exact ⟨_, rfl⟩

theorem absorbFrom_ok {scratch : List (Option (List UInt8))} {is : List Nat} {hs : Hashes}
    {res : Except Error Hashes} (hpl : Plenty P w cfg) (hok : SlotsOk cfg p.slots)
    (h : absorbFrom P t scratch is p hs w = some ((res, p'), w')) : ∃ hs', res = .ok hs' := by
  induction is generalizing p hs w with
  | nil =>
    cases h
    exact ⟨_, rfl⟩
  | cons i is ih =>
    unfold absorbFrom at h
    split at h
    · exact ih hpl hok h
    · cases hcell : scratch[i]? with
      | none => simp [hcell] at h
      | some cell =>
        rw [hcell] at h
        obtain ⟨⟨r, q⟩, v, hb, h⟩ := bind_eq_some.mp h
        obtain ⟨_, _, hlat, hblock⟩ := blockFor_spec hb
        have hr : ∃ b, r = .ok b := by
          cases cell with
          | some b =>
            cases hb
            exact ⟨_, rfl⟩
          | none => exact retrySlot_ok hpl hok hb
        obtain ⟨b, rfl⟩ := hr
        replace h := of_emit h
        exact ih (hpl.later hlat.emitted) (hblock.evolves.slotsOk hok) h

theorem ticksFrom_ok {n : Nat} {ts : List Nat} {hs : Hashes} {res : Except Error Hashes}
    (hpl : Plenty P w cfg) (hok : SlotsOk cfg p.slots)
    (h : ticksFrom P n ts p hs w = some ((res, p'), w')) : ∃ hs', res = .ok hs' := by
  induction ts generalizing p hs w with
  | nil =>
    cases h
    exact ⟨_, rfl⟩
  | cons t ts ih =>
    obtain ⟨⟨scratch, q⟩, v, hf, h⟩ := bind_eq_some.mp h
    obtain ⟨_, _, hlat, hfan⟩ := fanOut_spec hf
    obtain ⟨⟨r, q'⟩, u, ha, h⟩ := bind_eq_some.mp h
    have hok' := hfan.evolves.slotsOk hok
    obtain ⟨hs', rfl⟩ := absorbFrom_ok (hpl.later hlat) hok' ha
    obtain ⟨_, _, hlat', habs, _⟩ := absorbFrom_spec List.nodup_range ha
    exact ih ((hpl.later hlat).later hlat') (habs.evolves.slotsOk hok') h

theorem doRoundChain_ok {out out' : Digest} {res : Except Error Unit} (hpl : Plenty P w cfg)
    (hok : SlotsOk cfg p.slots) (h : p.doRoundChain P out w = some ((res, p', out'), w')) :
    res = .ok () := by
  replace h := of_emit h
  obtain ⟨⟨r, q⟩, v, ht, h⟩ := bind_eq_some.mp h
  obtain ⟨hs', rfl⟩ := ticksFrom_ok (hpl.later (later_log P w _)) hok ht
  cases h
  rfl

theorem readChain_ok {out out' : Digest} {done rest buf' : List UInt8} {res : Except Error Unit}
    (hc : p.config = cfg) (hpl : Plenty P w cfg) (hok : SlotsOk cfg p.slots)
    (h : p.readChain P out done rest w = some ((res, p', out', buf'), w')) : res = .ok () := by
  induction hk : rest.length using Nat.strongRecOn generalizing p w out done rest with
  | _ k ih =>
    unfold readChain at h
    split at h
    · cases h
      rfl
    · rename_i hrest
      have hpos : 0 < rest.length := List.length_pos_iff.mpr (by simpa using hrest)
      obtain ⟨⟨r, q, out₁⟩, v, hround, h⟩ := bind_eq_some.mp h
      obtain ⟨_, _, hlat, hcase⟩ := doRoundChain_cases (hc ▸ hok.length_eq) hround
      obtain rfl := doRoundChain_ok hpl hok hround
      replace h := of_emit h
      refine ih _ ?_ (hcase.evolves.config.trans hc)
        (hpl.later hlat.emitted)
        (hcase.evolves.slotsOk hok) h rfl
      simp only [List.length_drop, roundBytes]
      omega

theorem readPassthrough_ok {buf buf' : List UInt8} {res : Except Error Unit}
    (hpl : Plenty P w cfg) (hok : SlotsOk cfg p.slots)
    (h : p.readPassthrough P buf w = some ((res, p', buf'), w')) : res = .ok () := by
  obtain ⟨⟨o, q⟩, v, ho, h⟩ := bind_eq_some.mp h
  obtain ⟨s, hs, _⟩ := readSlot_cases ho
  have hread := readSlot_spec hs ho
  have hlt : 0 < p.slots.length := (List.getElem?_eq_some_iff.mp hs).1
  obtain rfl := hread.pool
  replace h := of_emit h
  cases hres : o.ok with
  | true =>
    rw [if_pos hres] at h
    cases h
    rfl
  | false =>
    rw [if_neg (by simp [hres])] at h
    obtain ⟨⟨r, q⟩, u, hr, h⟩ := bind_eq_some.mp h
    obtain ⟨rfl, name, src, rfl, hserves⟩ := rebind_ok (s := { s with inner := o.src })
      (hpl.later hread.does.later.emitted) (hread.evolves.slotsOk hok) (by simp [hlt]) hr
    obtain ⟨⟨o₂, q₂⟩, u₂, ho₂, h⟩ := bind_eq_some.mp h
    have hres₂ : o₂.ok = true :=
      readSlot_ok (s := ⟨s.kind, some name, src⟩) (by simpa using hlt) hserves ho₂
    replace h := of_emit h
    rw [if_pos hres₂] at h
    cases h
    rfl

/-- With plenty of working devices the next read succeeds, whatever state the slots are in. -/
theorem read_heals (hpl : Plenty P w cfg) (hp : P.Patient w.env) (hv : cfg.validate = .ok ())
    (hc : p.config = cfg) (hok : SlotsOk cfg p.slots) (buf : List UInt8) :
    ∃ p' buf' w', p.read P buf w = some ((.ok (), p', buf'), w') := by
  obtain ⟨⟨res, p', buf'⟩, w', h⟩ := read_returns hp hv hc hok buf
  refine ⟨p', buf', w', ?_⟩
  have hres : res = .ok () := by
    have hread := h
    unfold read at hread
    split at hread
    · obtain ⟨⟨r, q, out, b⟩, v, hr, hread⟩ := bind_eq_some.mp hread
      cases hread
      exact readChain_ok hc hpl hok hr
    · exact readPassthrough_ok hpl hok hread
  rw [h, hres]

end Pool
end P11Rand
