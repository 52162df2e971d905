import P11Rand.Bench

/-! Which device the recovery of a failed slot settles on, and what that means for the read. -/
namespace P11Rand

open Effect Run

variable {W : Type} {P : Platform W} {w w' : World W} {p p' : Pool} {cfg : Config}
  {kind : SlotKind} {S : Snapshot} {reads : String → Bool} {i t : Nat} {s : Slot}

namespace Snapshot

/-- From `w` on, a read of some bytes on what a listed name has just opened to succeeds or fails
as `reads` says. -/
def ReadsAs (S : Snapshot) (P : Platform W) (kind : SlotKind) (w : World W)
    (reads : String → Bool) : Prop :=
  ∀ names, S.listing = some names → ∀ name ∈ names, ∀ v v' src, Later P w v →
    kind.openSource P name v = some (some src, v') → ∀ u : World W, u.env = v'.env →
      ∀ buf : List UInt8, buf ≠ [] → Yields (src.read P buf) u fun o _ => o.ok = reads name

/-- No slot but the `i`-th holds the name, and it opens. -/
def Eligible (S : Snapshot) (p : Pool) (i : Nat) (kind : SlotKind) (name : String) : Prop :=
  ¬ Lease.HeldByOther (leases p.slots) i kind name ∧ S.opens name = true

/-- A listed device other than `D` that slot `i` could be bound to, and that reads. -/
def Spare (S : Snapshot) (reads : String → Bool) (p : Pool) (i : Nat) (kind : SlotKind)
    (D : String) : Prop :=
  ∃ names D', S.listing = some names ∧ D' ∈ names ∧ D' ≠ D ∧ S.Eligible p i kind D' ∧
    reads D' = true

/-- The first listed device that slot `i` could be bound to reads. -/
def FirstReads (S : Snapshot) (reads : String → Bool) (p : Pool) (i : Nat) (kind : SlotKind) :
    Prop :=
  ∀ before d after, S.listing = some (before ++ d :: after) →
    (∀ x ∈ before, ¬ S.Eligible p i kind x) → S.Eligible p i kind d → reads d = true

theorem ReadsAs.later (h : S.ReadsAs P kind w reads) (hl : Later P w w') :
    S.ReadsAs P kind w' reads :=
  fun names hn name hm v v' src hv => h names hn name hm v v' src (IsTrans.trans _ _ _ hl hv)

/-- Some device is the first that slot `i` could be bound to. -/
theorem Spare.exists_first {D : String} (h : S.Spare reads p i kind D) :
    ∃ before d after, S.listing = some (before ++ d :: after) ∧
      (∀ x ∈ before, ¬ S.Eligible p i kind x) ∧ S.Eligible p i kind d := by
  classical
  obtain ⟨names, D', hl, hmem, _, helig, _⟩ := h
  cases hf : names.find? fun x => S.Eligible p i kind x with
  | none => exact absurd helig (by simpa using List.find?_eq_none.mp hf D' hmem)
  | some d =>
    obtain ⟨hd, before, after, rfl, hbefore⟩ := List.find?_eq_some_iff_append.mp hf
    exact ⟨before, d, after, hl, by simpa using hbefore, by simpa using hd⟩

theorem eligible_setSlot {s' : Slot} {name : String} :
    S.Eligible (p.setSlot i s') i kind name ↔ S.Eligible p i kind name := by
  have hheld : Lease.HeldByOther (leases (p.setSlot i s').slots) i kind name ↔
      Lease.HeldByOther (leases p.slots) i kind name := by
    simp only [Lease.HeldByOther, Pool.setSlot_slots, leases_set]
    refine exists_congr fun j => and_congr_right fun hj => ?_
    rw [List.getElem?_set_ne hj.symm]
  simp only [Eligible, hheld]

/-- The scan of `rebind` opens the first device that slot `i` could be bound to. -/
theorem Of.rebindScan_first {before after : List String} {d : String} (h : S.Of P kind w)
    (hl : S.Lists (before ++ d :: after)) (hbefore : ∀ x ∈ before, ¬ S.Eligible p i kind x)
    (hd : S.Eligible p i kind d) :
    Yields (Pool.rebindScan P i kind p (before ++ d :: after)) w fun r v => r.1 = .ok () ∧
      ∃ src u u', r.2 = p.setSlot i ⟨kind, some d, src⟩ ∧ Later P w u ∧
        kind.openSource P d u = some (some src, u') ∧ v.env = u'.env := by
  induction before generalizing w with
  | nil =>
    have huse : p.nameInUse i kind d = false := by
      rw [Bool.eq_false_iff]
      exact fun h => hd.1 (nameInUse_iff.mp h)
    obtain ⟨src, v, hsrc, heq, _⟩ := h.open_head hl
    rw [hd.2] at heq
    obtain ⟨src, rfl⟩ := Option.isSome_iff_exists.mp heq
    rw [List.nil_append]
    unfold Pool.rebindScan
    rw [if_neg (by simp [huse])]
    exact ⟨_, _, bind_of_eq hsrc, rfl, src, w, v, rfl, Std.Refl.refl w, hsrc, rfl⟩
  | cons x before ih =>
    have hrest := fun y hy => hbefore y (List.mem_cons_of_mem x hy)
    rw [List.cons_append] at hl ⊢
    unfold Pool.rebindScan
    split
    · exact ih h hl.tail hrest
    · rename_i huse
      obtain ⟨src, v, hsrc, heq, hv⟩ := h.open_head hl
      have hfree : ¬ Lease.HeldByOther (leases p.slots) i kind x := fun hheld =>
        huse (nameInUse_iff.mpr hheld)
      have hshut : S.opens x = false := by
        rw [Bool.eq_false_iff]
        exact fun ho => hbefore x List.mem_cons_self ⟨hfree, ho⟩
      rw [hshut] at heq
      obtain rfl : src = none := by simpa using heq
      obtain ⟨r, v', hr, hok, src, u, u', hset, hu, hopen, henv⟩ := ih (h.later hv) hl.tail hrest
      exact ⟨r, v', (bind_of_eq hsrc).trans hr, hok, src, u, u', hset, IsTrans.trans _ _ _ hv hu,
        hopen, henv⟩

/-- So does a rebind. -/
theorem Of.rebind_first {before after : List String} {d : String} (h : S.Of P s.kind w)
    (hi : p.slots[i]? = some s) (hl : S.listing = some (before ++ d :: after))
    (hbefore : ∀ x ∈ before, ¬ S.Eligible p i s.kind x) (hd : S.Eligible p i s.kind d) :
    Yields (p.rebind P i) w fun r v => r.1 = .ok () ∧
      ∃ src u u', r.2 = p.setSlot i ⟨s.kind, some d, src⟩ ∧ Later P w u ∧
        s.kind.openSource P d u = some (some src, u') ∧ v.env = u'.env := by
  obtain ⟨s', v, hclose, hdoes⟩ := close_total (P := P) s w
  obtain rfl := close_eq hclose
  rcases (h.later hdoes.later).list_cases with ⟨hl', _⟩ | ⟨names, v', hl', hlist, hv'⟩
  · rw [hl] at hl'
    cases hl'
  · rw [hl] at hl'
    cases hl'
    have hlat := IsTrans.trans _ _ _ hdoes.later hv'
    obtain ⟨r, u, hr, hok, src, u₁, u₂, hset, hu₁, hopen, henv⟩ :=
      (h.later hlat).rebindScan_first (p := p.setSlot i s.closed) ⟨_, hl, fun _ hn => hn⟩
        (fun x hx => by rw [eligible_setSlot]; exact hbefore x hx) (eligible_setSlot.mpr hd)
    refine ⟨r, u, ?_, hok, src, u₁, u₂, by rw [hset, Pool.setSlot_setSlot],
      IsTrans.trans _ _ _ hlat hu₁, hopen, henv⟩
    unfold Pool.rebind
    rw [hi]
    dsimp only
    rw [bind_of_eq hclose, bind_of_eq hlist]
    exact hr

end Snapshot

/-- Slot `i` holds a handle opened as `d`. -/
def Pool.BoundTo (p : Pool) (i : Nat) (d : String) : Prop :=
  ∃ s, p.slots[i]? = some s ∧ s.name = some d ∧ s.inner.device = some d

namespace Snapshot

/-- The rebind and the read after it, with the device they settle on. -/
theorem Of.recovery {before after : List String} {d : String}
    (h : S.Of P s.kind w) (hR : S.ReadsAs P s.kind w reads) (hi : p.slots[i]? = some s)
    (hl : S.listing = some (before ++ d :: after))
    (hbefore : ∀ x ∈ before, ¬ S.Eligible p i s.kind x) (hd : S.Eligible p i s.kind d)
    (buf : List UInt8) (hbuf : buf ≠ []) :
    Yields (p.rebind P i) w fun r u => r.1 = .ok () ∧
      Yields (r.2.readSlot P i buf) u fun r' _ =>
        r'.1.ok = reads d ∧ r'.2.BoundTo i d := by
  have hlt : i < p.slots.length := (List.getElem?_eq_some_iff.mp hi).1
  obtain ⟨⟨r, q⟩, v, hr, hok, src, u, u', rfl, hu, hopen, henv⟩ := h.rebind_first hi hl hbefore hd
  obtain ⟨o, v', ho, hread⟩ := hR _ hl d (by simp) u u' src hu hopen v henv buf hbuf
  obtain ⟨hh, _⟩ := SlotInner.read_keeps ho
  have hdev : o.src.device = some d :=
    (SlotInner.device_eq hh).trans (SlotKind.openSource_opened hopen).device
  have hget : (p.setSlot i ⟨s.kind, some d, src⟩).slots[i]? = some ⟨s.kind, some d, src⟩ := by
    simp [hlt]
  refine ⟨_, v, hr, hok, (o, p.setSlot i ⟨s.kind, some d, o.src⟩), v', ?_, hread, ?_⟩
  · unfold Pool.readSlot
    dsimp only
    rw [hget]
    dsimp only
    rw [bind_of_eq ho]
    simp
  · exact ⟨⟨s.kind, some d, o.src⟩, by simp [hlt], rfl, hdev⟩

theorem Of.retrySlot_first {before after : List String} {d : String} (h : S.Of P s.kind w)
    (hR : S.ReadsAs P s.kind w reads) (hi : p.slots[i]? = some s)
    (hl : S.listing = some (before ++ d :: after))
    (hbefore : ∀ x ∈ before, ¬ S.Eligible p i s.kind x) (hd : S.Eligible p i s.kind d) (t : Nat) :
    Yields (p.retrySlot P t i) w fun r _ =>
      ((∃ b, r.1 = .ok b) ↔ reads d = true) ∧ r.2.BoundTo i d := by
  obtain ⟨⟨r, q⟩, u, hr, rfl, ⟨o, q'⟩, v, ho, hok, hbound⟩ :=
    h.recovery hR hi hl hbefore hd (zeros tickBytes) (by simp [zeros])
  unfold Pool.retrySlot
  rw [Yields, bind_of_eq hr]
  dsimp only
  rw [bind_of_eq ho]
  dsimp only
  rw [bind_of_eq (emit_apply _ _), ← hok]
  cases o.ok with
  | true => exact ⟨_, _, rfl, by simp, hbound⟩
  | false => exact ⟨_, _, rfl, by simp, hbound⟩

end Snapshot

/-- Slot `i` is bound to a device that reads. -/
def Pool.Replaced (reads : String → Bool) (p : Pool) (i : Nat) : Prop :=
  ∃ d, p.BoundTo i d ∧ reads d = true

theorem Pool.BoundTo.eq {d d' : String} (h : p.BoundTo i d) (h' : p.BoundTo i d') : d = d' := by
  obtain ⟨s, hs, hn, _⟩ := h
  obtain ⟨s', hs', hn', _⟩ := h'
  rw [hs] at hs'
  cases hs'
  rw [hn] at hn'
  exact Option.some.inj hn'

/-- The retry of a failed slot with a spare succeeds exactly when the first device it could be
bound to reads. -/
theorem retrySlot_replaces_iff {D : String} (h : S.Of P s.kind w)
    (hR : S.ReadsAs P s.kind w reads) (hi : p.slots[i]? = some s)
    (hspare : S.Spare reads p i s.kind D) (t : Nat) :
    (Yields (p.retrySlot P t i) w fun r _ => (∃ b, r.1 = .ok b) ∧ r.2.Replaced reads i) ↔
      S.FirstReads reads p i s.kind := by
  constructor
  · rintro ⟨r, v, hr, hok, d', hbound', hd'⟩ before d after hl hbefore hd
    obtain ⟨_, hbound⟩ := (yields_iff hr).mp (h.retrySlot_first hR hi hl hbefore hd t)
    exact hbound.eq hbound' ▸ hd'
  · intro hfirst
    obtain ⟨before, d, after, hl, hbefore, hd⟩ := hspare.exists_first
    obtain ⟨r, v, hr, hiff, hbound⟩ := h.retrySlot_first hR hi hl hbefore hd t
    have hreads := hfirst before d after hl hbefore hd
    exact ⟨r, v, hr, hiff.mpr hreads, d, hbound, hreads⟩

/-- The recovery of slot `i` in tick `t` fails, and the absorption of the tick with it. -/
def FailsIn (P : Platform W) (p : Pool) (t i : Nat) (w : World W) : Prop :=
  ∃ e q v, p.retrySlot P t i w = some ((.error e, q), v) ∧
    ∀ (scratch : List (Option (List UInt8))) (is : List Nat) (hs : Hashes),
      t < p.config.slotTicks i → scratch[i]? = some none →
      Pool.absorbFrom P t scratch (i :: is) p hs w = some ((.error e, q), v)

theorem failsIn_iff {D : String} (h : S.Of P s.kind w) (hR : S.ReadsAs P s.kind w reads)
    (hi : p.slots[i]? = some s) (hspare : S.Spare reads p i s.kind D) (t : Nat) :
    FailsIn P p t i w ↔ ¬ S.FirstReads reads p i s.kind := by
  rw [← retrySlot_replaces_iff h hR hi hspare t]
  obtain ⟨before, d, after, hl, hbefore, hd⟩ := hspare.exists_first
  obtain ⟨⟨r, q⟩, v, hr, hiff, hbound⟩ := h.retrySlot_first hR hi hl hbefore hd t
  constructor
  · rintro ⟨e, q', v', hr', _⟩ hyes
    obtain ⟨⟨b, hb⟩, _⟩ := (yields_iff hr').mp hyes
    cases hb
  · intro hno
    cases r with
    | ok b =>
      exact (hno ⟨_, v, hr, ⟨b, rfl⟩, d, hbound, hiff.mp ⟨b, rfl⟩⟩).elim
    | error e =>
      refine ⟨e, q, v, hr, fun scratch is hs ht hcell => ?_⟩
      unfold Pool.absorbFrom
      rw [if_neg (not_le.mpr ht), hcell]
      exact bind_of_eq (x := Pool.retrySlot P p t i) hr

/-- A source that fails a read was asked for some bytes. -/
theorem SlotInner.ne_nil_of_failed {src : SlotInner} {D : String} {buf : List UInt8}
    {o : Outcome SlotInner Unit} (hD : src.device = some D)
    (h : src.read P buf w = some (o, w')) (hok : o.ok = false) : buf ≠ [] := by
  rintro rfl
  rw [SlotInner.read_eq_loop] at h
  cases src with
  | iso7816 src =>
    rw [loop_of_inr rfl] at h
    cases h
    cases hok
  | infnoise src =>
    rw [loop_of_inr rfl] at h
    cases h
    cases hok
  | empty => cases hD

/-- A passthrough read that has to rebind its slot ends as the read after the rebind does. -/
theorem readPassthrough_retried {q q' q'' : Pool} {v u u' : World W} {buf : List UInt8}
    {o o' : Outcome SlotInner Unit} (hread : p.readSlot P 0 buf w = some ((o, q), v))
    (hok : o.ok = false)
    (hreb : q.rebind P 0 { v with log := v.log ++ [.pass o.src.device o.ok o.done] } =
      some ((.ok (), q'), u))
    (hread' : q'.readSlot P 0 o.buf u = some ((o', q''), u')) :
    Yields (p.readPassthrough P buf) w fun r _ =>
      (r.1 = .ok () ↔ o'.ok = true) ∧ r.2.1 = q'' := by
  unfold Pool.readPassthrough
  rw [Yields, bind_of_eq hread]
  dsimp only
  rw [bind_of_eq (emit_apply _ _), if_neg (by simp [hok]), bind_of_eq hreb]
  dsimp only
  rw [bind_of_eq hread']
  dsimp only
  rw [bind_of_eq (emit_apply _ _)]
  cases o'.ok with
  | true => exact ⟨_, _, rfl, by simp, rfl⟩
  | false => exact ⟨_, _, rfl, by simp, rfl⟩

/-- What a passthrough read whose source fails settles on. -/
theorem Snapshot.Of.passthrough_first {before after : List String} {d D : String}
    {buf : List UInt8} {o : Outcome SlotInner Unit} {v : World W} (h : S.Of P s.kind w)
    (hR : S.ReadsAs P s.kind w reads) (hc : p.config.useChain = false)
    (hi : p.slots[0]? = some s) (hD : s.inner.device = some D)
    (hread : s.inner.read P buf w = some (o, v)) (hok : o.ok = false)
    (hl : S.listing = some (before ++ d :: after))
    (hbefore : ∀ x ∈ before, ¬ S.Eligible p 0 s.kind x) (hd : S.Eligible p 0 s.kind d) :
    Yields (p.read P buf) w fun r _ =>
      (r.1 = .ok () ↔ reads d = true) ∧ r.2.1.BoundTo 0 d := by
  have hlt : 0 < p.slots.length := (List.getElem?_eq_some_iff.mp hi).1
  obtain ⟨_, _, hlen, _⟩ := SlotInner.read_keeps hread
  have hbuf : o.buf ≠ [] := by
    rw [← List.length_pos_iff, show o.buf.length = buf.length by simpa [Outcome.buf] using hlen]
    exact List.length_pos_iff.mpr (SlotInner.ne_nil_of_failed hD hread hok)
  have hdoes : Does P (fun _ => True) w v :=
    SlotInner.read_within (fun _ => trivial) _ _ _ _ _ hread
  have hlat : Later P w { v with log := v.log ++ [.pass o.src.device o.ok o.done] } :=
    IsTrans.trans _ _ _ hdoes.later (later_log P v _)
  have hslot : p.readSlot P 0 buf w = some ((o, p.setSlot 0 { s with inner := o.src }), v) := by
    unfold Pool.readSlot
    rw [hi]
    exact bind_of_eq hread
  obtain ⟨⟨r, q⟩, u, hr, rfl, ⟨o', q'⟩, u', ho, hok', hbound⟩ :=
    (h.later hlat).recovery (p := p.setSlot 0 { s with inner := o.src })
      (s := { s with inner := o.src }) (hR.later hlat) (by simp [hlt]) hl
      (fun x hx => mt eligible_setSlot.mp (hbefore x hx)) (eligible_setSlot.mpr hd) o.buf hbuf
  obtain ⟨r, u, hr, hiff, rfl⟩ := readPassthrough_retried hslot hok hr ho
  unfold Pool.read
  rw [if_neg (by simp [hc])]
  exact ⟨r, u, hr, by rw [hiff, hok'], hbound⟩

/-- A passthrough read whose source fails and has a spare succeeds exactly when the first device
the source's slot could be bound to reads. -/
theorem passthrough_replaces_iff {D : String} {buf : List UInt8} {o : Outcome SlotInner Unit}
    {v : World W} (h : S.Of P s.kind w) (hR : S.ReadsAs P s.kind w reads)
    (hc : p.config.useChain = false) (hi : p.slots[0]? = some s) (hD : s.inner.device = some D)
    (hread : s.inner.read P buf w = some (o, v)) (hok : o.ok = false)
    (hspare : S.Spare reads p 0 s.kind D) :
    (Yields (p.read P buf) w fun r _ => r.1 = .ok () ∧ r.2.1.Replaced reads 0) ↔
      S.FirstReads reads p 0 s.kind := by
  constructor
  · rintro ⟨r, v, hr, _, d', hbound', hd'⟩ before d after hl hbefore hd
    obtain ⟨_, hbound⟩ :=
      (yields_iff hr).mp (h.passthrough_first hR hc hi hD hread hok hl hbefore hd)
    exact hbound.eq hbound' ▸ hd'
  · intro hfirst
    obtain ⟨before, d, after, hl, hbefore, hd⟩ := hspare.exists_first
    obtain ⟨r, v, hr, hiff, hbound⟩ := h.passthrough_first hR hc hi hD hread hok hl hbefore hd
    have hreads := hfirst before d after hl hbefore hd
    exact ⟨r, v, hr, hiff.mpr hreads, d, hbound, hreads⟩

namespace Pool

theorem absorbFrom_error {scratch : List (Option (List UInt8))} {is : List Nat} {hs : Hashes}
    {e : Error} (his : is.Nodup)
    (h : absorbFrom P t scratch is p hs w = some ((.error e, p'), w')) :
    ∃ i q v, p.Evolves q ∧ Later P w v ∧ q.retrySlot P t i v = some ((.error e, p'), w') := by
  induction is generalizing p hs w with
  | nil => cases h
  | cons i is ih =>
    obtain ⟨hi, his⟩ := List.nodup_cons.mp his
    unfold absorbFrom at h
    split at h
    · exact ih his h
    · cases hcell : scratch[i]? with
      | none => simp [hcell] at h
      | some cell =>
        rw [hcell] at h
        obtain ⟨⟨r, q⟩, v, hb, h⟩ := bind_eq_some.mp h
        obtain ⟨_, _, hlat, hblock⟩ := blockFor_spec hb
        cases r with
        | error e =>
          cases h
          cases cell with
          | some b => cases hb
          | none => exact ⟨i, p, w, .refl p, Std.Refl.refl w, hb⟩
        | ok b =>
          replace h := of_emit h
          obtain ⟨j, q', u, hev, hu, hr⟩ := ih his h
          exact ⟨j, q', u, hblock.evolves.trans hev,
            IsTrans.trans _ _ _ hlat (IsTrans.trans _ _ _ (later_log P v _) hu), hr⟩

theorem ticksFrom_error {n : Nat} {ts : List Nat} {hs : Hashes} {e : Error}
    (h : ticksFrom P n ts p hs w = some ((.error e, p'), w')) :
    ∃ t i q v, p.Evolves q ∧ Later P w v ∧ q.retrySlot P t i v = some ((.error e, p'), w') := by
  induction ts generalizing p hs w with
  | nil => cases h
  | cons t ts ih =>
    obtain ⟨⟨scratch, q⟩, v, hf, h⟩ := bind_eq_some.mp h
    obtain ⟨_, _, hlat, hfan⟩ := fanOut_spec hf
    obtain ⟨⟨r, q'⟩, u, ha, h⟩ := bind_eq_some.mp h
    cases r with
    | error e =>
      cases h
      obtain ⟨i, q'', u', hev, hu, hr⟩ := absorbFrom_error List.nodup_range ha
      exact ⟨t, i, q'', u', hfan.evolves.trans hev, IsTrans.trans _ _ _ hlat hu, hr⟩
    | ok hs' =>
      obtain ⟨_, _, hlat', habs, _⟩ := absorbFrom_spec List.nodup_range ha
      obtain ⟨t', i, q'', u', hev, hu, hr⟩ := ih h
      exact ⟨t', i, q'', u', (hfan.evolves.trans habs.evolves).trans hev,
        IsTrans.trans _ _ _ hlat (IsTrans.trans _ _ _ hlat' hu), hr⟩

theorem readChain_error {out out' : Digest} {done rest buf' : List UInt8} {e : Error}
    (hn : p.slots.length = p.config.poolSize)
    (h : p.readChain P out done rest w = some ((.error e, p', out', buf'), w')) :
    ∃ t i q v, p.Evolves q ∧ Later P w v ∧ q.retrySlot P t i v = some ((.error e, p'), w') := by
  induction hk : rest.length using Nat.strongRecOn generalizing p w out done rest with
  | _ k ih =>
    unfold readChain at h
    split at h
    · cases h
    · rename_i hrest
      have hpos : 0 < rest.length := List.length_pos_iff.mpr (by simpa using hrest)
      obtain ⟨⟨r, q, out₁⟩, v, hround, h⟩ := bind_eq_some.mp h
      obtain ⟨_, _, hlat, hcase⟩ := doRoundChain_cases hn hround
      cases r with
      | error e =>
        cases h
        replace hround := of_emit hround
        obtain ⟨⟨r, q⟩, u, ht, hround⟩ := bind_eq_some.mp hround
        cases r with
        | error e =>
          cases hround
          obtain ⟨t, i, q, u, hev, hu, hr⟩ := ticksFrom_error ht
          exact ⟨t, i, q, u, hev, IsTrans.trans _ _ _ (later_log P w _) hu, hr⟩
        | ok hs => cases hround
      | ok _ =>
        replace h := of_emit h
        have hev := hcase.evolves
        obtain ⟨t, i, q', u, hev', hu, hr⟩ := ih _ (by
          simp only [List.length_drop, roundBytes]
          omega) (by rw [hev.length_eq, hn, hev.config]) h rfl
        exact ⟨t, i, q', u, hev.trans hev',
          IsTrans.trans _ _ _ hlat (IsTrans.trans _ _ _ (later_log P v _) hu), hr⟩

/-- A chain read that fails has failed in the recovery of some slot. -/
theorem read_chain_error {buf buf' : List UInt8} {e : Error}
    (hn : p.slots.length = p.config.poolSize) (hc : p.config.useChain = true)
    (h : p.read P buf w = some ((.error e, p', buf'), w')) :
    ∃ t i q v, p.Evolves q ∧ Later P w v ∧ q.retrySlot P t i v = some ((.error e, p'), w') := by
  unfold read at h
  rw [if_pos hc] at h
  obtain ⟨⟨r, q, out, b⟩, v, hr, h⟩ := bind_eq_some.mp h
  cases h
  exact readChain_error hn hr

end Pool
namespace Bench

variable {b : Bench}

/-- The file fails every read. -/
def Broken (b : Bench) (file : Nat) : Prop := ∀ len, ∃ errno, b.data file len = .error errno

theorem fails {file : Nat} (h : b.Broken file) (path : String) (buf : List UInt8)
    (hbuf : buf ≠ []) (w : World Unit) :
    Yields (SlotInner.read b.machine (.infnoise ⟨file, path⟩) buf) w fun o _ => o.ok = false := by
  obtain ⟨errno, he⟩ := h buf.length
  have hstep : Yields (SlotInner.readStep b.machine (.start (.infnoise ⟨file, path⟩) buf)) w
      fun y _ => ∃ o : Outcome SlotInner Unit, y = .inr o ∧ o.ok = false := by
    simp [SlotInner.readStep, Infnoise.Source.readStep, Reading.start, hbuf, Yields, bind_apply,
      request_apply, machine, answer, he]
    rfl
  obtain ⟨_, v, hy, o, rfl, ho⟩ := hstep
  exact ⟨o, v, by rw [SlotInner.read_eq_loop, loop_of_inr hy], ho⟩

theorem readsAs {reads : String → Bool} (hp : ∀ file len, b.data file len ≠ .interrupted)
    (h : ∀ path file, b.file path = some file →
      if reads path then b.Ready file else b.Broken file) (w : World Unit) :
    b.snapshot.ReadsAs b.machine .infnoise w reads := by
  intro names _ name _ v v' src _ hopen u _ buf hbuf
  cases hf : b.file name with
  | none =>
    have hnone := (yields_iff hopen).mp (open_absent hf v)
    cases hnone
  | some file =>
    have hsome := (yields_iff hopen).mp (open_infnoise hf v)
    cases hsome
    have hfile := h name file hf
    cases hr : reads name with
    | true =>
      rw [hr, if_pos rfl] at hfile
      exact serves hp hfile name u buf
    | false =>
      rw [hr, if_neg (by simp)] at hfile
      exact fails hfile name buf hbuf u

/-- Two generators of which the first opens but fails every read with EIO. -/
def faulty : Bench :=
  { generators with
    data := fun file len => if file = 0 then .error 5 else .data (List.replicate len 0xA6) }

theorem broken_faulty : faulty.Broken 0 := fun _ => ⟨5, rfl⟩

theorem open_faulty :
    ∃ w, Pool.open faulty.machine single (start none) = some (.ok singlePool, w) := ⟨_, rfl⟩

theorem eligible_singlePool {name : String} (h : b.snapshot.opens name = true) :
    b.snapshot.Eligible singlePool 0 .infnoise name := by
  refine ⟨?_, h⟩
  rintro ⟨j, hj, hget⟩
  cases j with
  | zero => exact hj rfl
  | succ j => simp [leases, singlePool] at hget

theorem readsAs_generators (w : World Unit) :
    generators.snapshot.ReadsAs generators.machine .infnoise w fun _ => true := by
  refine readsAs (by simp [generators, giving]) (fun path file _ => ?_) w
  rw [if_pos rfl]
  exact ready_generators file

theorem readsAs_faulty (w : World Unit) :
    faulty.snapshot.ReadsAs faulty.machine .infnoise w fun path => path != "/dev/infnoise0" := by
  refine readsAs (fun file len => ?_) (fun path file hf => ?_) w
  · by_cases h : file = 0 <;> simp [faulty, h]
  · by_cases h : path = "/dev/infnoise0"
    · obtain rfl : 0 = file := by simpa [faulty, generators, giving, h] using hf
      rw [if_neg (by simp [h])]
      exact broken_faulty
    · obtain rfl : 1 = file := by simpa [faulty, generators, giving, h] using hf
      rw [if_pos (by simp [h])]
      intro len hlen
      refine ⟨_, rfl, ?_⟩
      simp
      omega

theorem spare_singlePool {reads : String → Bool} (hl : "/dev/infnoise1" ∈ b.paths)
    (ho : b.snapshot.opens "/dev/infnoise1" = true) (hr : reads "/dev/infnoise1" = true) :
    b.snapshot.Spare reads singlePool 0 .infnoise "/dev/infnoise0" :=
  ⟨_, _, rfl, hl, by decide, eligible_singlePool ho, hr⟩

end Bench

/-- A failed slot with a spare. The recovery binds it to a device that reads, the round it belongs
to goes on, and a passthrough read succeeds, exactly when the first device the slot could be bound
to reads; it need not, for that device may be the failed one. A chain read that fails has failed
in a recovery where it does not. -/
theorem failed_source_replaced_iff {S : SlotKind → Snapshot} {reads : SlotKind → String → Bool}
    (hrun : PoolRun P cfg p w) (hS : ∀ kind, 0 < cfg.count kind → (S kind).Of P kind w)
    (hR : ∀ kind, 0 < cfg.count kind → (S kind).ReadsAs P kind w (reads kind)) :
    (∀ (q : Pool) (v : World W) (i : Nat) (s : Slot) (D : String), p.Evolves q → Later P w v →
      q.slots[i]? = some s → s.inner.device = some D →
      (S s.kind).Spare (reads s.kind) q i s.kind D → ∀ t,
      ((Yields (q.retrySlot P t i) v fun r _ =>
          (∃ b, r.1 = .ok b) ∧ r.2.Replaced (reads s.kind) i) ↔
        (S s.kind).FirstReads (reads s.kind) q i s.kind) ∧
      (FailsIn P q t i v ↔ ¬ (S s.kind).FirstReads (reads s.kind) q i s.kind)) ∧
    (∀ (buf : List UInt8) (o : Outcome SlotInner Unit) (v : World W) (s : Slot) (D : String),
      cfg.useChain = false → p.slots[0]? = some s → s.inner.device = some D →
      s.inner.read P buf w = some (o, v) → o.ok = false →
      (S s.kind).Spare (reads s.kind) p 0 s.kind D →
      ((Yields (p.read P buf) w fun r _ => r.1 = .ok () ∧ r.2.1.Replaced (reads s.kind) 0) ↔
        (S s.kind).FirstReads (reads s.kind) p 0 s.kind)) ∧
    ∀ (buf buf' : List UInt8) (e : Error) (p' : Pool) (w' : World W), cfg.useChain = true →
      p.read P buf w = some ((.error e, p', buf'), w') →
      ∃ (t i : Nat) (s : Slot) (q : Pool) (v : World W), p.Evolves q ∧ Later P w v ∧
        q.slots[i]? = some s ∧ q.retrySlot P t i v = some ((.error e, p'), w') ∧
        ∀ D, s.inner.device = some D → (S s.kind).Spare (reads s.kind) q i s.kind D →
          ¬ (S s.kind).FirstReads (reads s.kind) q i s.kind := by
  have hh := hrun.history
  have hat : ∀ (q : Pool) (v : World W) (i : Nat) (s : Slot), p.Evolves q → Later P w v →
      q.slots[i]? = some s →
      (S s.kind).Of P s.kind v ∧ (S s.kind).ReadsAs P s.kind v (reads s.kind) := by
    intro q v i s hev hlat hs
    have hpos := (hev.slotsOk hh.slots).count_pos hs
    exact ⟨(hS _ hpos).later hlat, (hR _ hpos).later hlat⟩
  refine ⟨?_, ?_, ?_⟩
  · intro q v i s D hev hlat hs _ hspare t
    obtain ⟨hof, hreads⟩ := hat q v i s hev hlat hs
    exact ⟨retrySlot_replaces_iff hof hreads hs hspare t, failsIn_iff hof hreads hs hspare t⟩
  · intro buf o v s D hc hs hD hread hok hspare
    obtain ⟨hof, hreads⟩ := hat p w 0 s (.refl p) (Std.Refl.refl w) hs
    exact passthrough_replaces_iff hof hreads (hh.config ▸ hc) hs hD hread hok hspare
  · intro buf buf' e p' w' hc h
    obtain ⟨t, i, q, v, hev, hlat, hr⟩ :=
      Pool.read_chain_error (hh.config ▸ hh.slots.length_eq) (hh.config ▸ hc) h
    obtain ⟨⟨_, _⟩, _, hreb, _⟩ := bind_eq_some.mp hr
    obtain ⟨s, _, hs, _⟩ := Pool.rebind_cases hreb
    obtain ⟨hof, hreads⟩ := hat q v i s hev hlat hs
    refine ⟨t, i, s, q, v, hev, hlat, hs, hr, fun D _ hspare hfirst => ?_⟩
    obtain ⟨⟨b, hb⟩, _⟩ :=
      (yields_iff hr).mp ((retrySlot_replaces_iff hof hreads hs hspare t).mpr hfirst)
    cases hb

theorem failed_source_replaced_iff_single :
    (∃ w : World Unit, ∀ t, (Yields (Bench.singlePool.retrySlot Bench.generators.machine t 0) w
        fun r _ => (∃ b, r.1 = .ok b) ∧ r.2.Replaced (fun _ => true) 0) ↔
      Bench.generators.snapshot.FirstReads (fun _ => true) Bench.singlePool 0 .infnoise) ∧
    ∃ w : World Unit, (Yields (Bench.singlePool.read Bench.faulty.machine (zeros 32)) w
        fun r _ => r.1 = .ok () ∧ r.2.1.Replaced (fun path => path != "/dev/infnoise0") 0) ↔
      Bench.faulty.snapshot.FirstReads (fun path => path != "/dev/infnoise0")
        Bench.singlePool 0 .infnoise := by
  have hkind : ∀ {Q : SlotKind → Prop}, Q .infnoise →
      ∀ kind, 0 < Bench.single.count kind → Q kind := by
    intro Q hq kind hk
    cases kind with
    | iso7816 => exact absurd hk (by decide)
    | infnoise => exact hq
  constructor
  · obtain ⟨w, hopen⟩ := Bench.open_single
    have hS : ∀ kind, 0 < Bench.single.count kind →
        Bench.generators.snapshot.Of Bench.generators.machine kind w :=
      hkind (Bench.generators.snapshot_of w)
    have hR : ∀ kind, 0 < Bench.single.count kind →
        Bench.generators.snapshot.ReadsAs Bench.generators.machine kind w fun _ => true :=
      hkind (Bench.readsAs_generators w)
    obtain ⟨hretry, _⟩ := failed_source_replaced_iff (.opened rfl hopen) hS hR
    exact ⟨w, fun t => (hretry Bench.singlePool w 0 _ "/dev/infnoise0" (.refl _)
      (Std.Refl.refl w) rfl rfl (Bench.spare_singlePool (by decide) rfl rfl) t).1⟩
  · obtain ⟨w, hopen⟩ := Bench.open_faulty
    have hS : ∀ kind, 0 < Bench.single.count kind →
        Bench.faulty.snapshot.Of Bench.faulty.machine kind w :=
      hkind (Bench.faulty.snapshot_of w)
    have hR : ∀ kind, 0 < Bench.single.count kind →
        Bench.faulty.snapshot.ReadsAs Bench.faulty.machine kind w
          fun path => path != "/dev/infnoise0" := hkind (Bench.readsAs_faulty w)
    obtain ⟨_, hpass, _⟩ := failed_source_replaced_iff (.opened rfl hopen) hS hR
    obtain ⟨o, v, hread, hok⟩ :=
      Bench.fails Bench.broken_faulty "/dev/infnoise0" (zeros 32) (by decide) w
    exact ⟨w, hpass (zeros 32) o v _ "/dev/infnoise0" (by decide) rfl rfl hread hok
      (Bench.spare_singlePool (by decide) rfl (by decide))⟩

/-- A source that opens but fails its reads, listed before one that works: the rebind reopens it,
and the read fails. -/
theorem faulty_source_reopened : ∃ (w v w' : World Unit) (o : Outcome SlotInner Unit)
    (e : Error) (p' : Pool) (buf' : List UInt8),
    PoolRun Bench.faulty.machine Bench.single Bench.singlePool w ∧
    Bench.faulty.snapshot.Of Bench.faulty.machine .infnoise w ∧
    Bench.faulty.snapshot.ReadsAs Bench.faulty.machine .infnoise w
      (fun path => path != "/dev/infnoise0") ∧
    SlotInner.read Bench.faulty.machine (.infnoise ⟨0, "/dev/infnoise0"⟩) (zeros 32) w =
      some (o, v) ∧ o.ok = false ∧
    Bench.faulty.snapshot.Spare (fun path => path != "/dev/infnoise0") Bench.singlePool 0
      .infnoise "/dev/infnoise0" ∧
    Bench.singlePool.read Bench.faulty.machine (zeros 32) w =
      some ((.error e, p', buf'), w') ∧ p'.BoundTo 0 "/dev/infnoise0" := by
  obtain ⟨w, hopen⟩ := Bench.open_faulty
  obtain ⟨o, v, hread, hok⟩ :=
    Bench.fails Bench.broken_faulty "/dev/infnoise0" (zeros 32) (by decide) w
  have hof := Bench.faulty.snapshot_of w
  have hreads := Bench.readsAs_faulty w
  have hslot : Bench.singlePool.slots[0]? =
      some ⟨.infnoise, some "/dev/infnoise0", .infnoise ⟨0, "/dev/infnoise0"⟩⟩ := rfl
  have hl : Bench.faulty.snapshot.listing = some ([] ++ "/dev/infnoise0" :: ["/dev/infnoise1"]) :=
    congrArg some Bench.paths_generators
  obtain ⟨⟨r, p', buf'⟩, w', hr, hiff, hbound⟩ := hof.passthrough_first hreads (by decide) hslot
    rfl hread hok hl (by simp) (Bench.eligible_singlePool rfl)
  cases r with
  | ok u => exact absurd (hiff.mp rfl) (by decide)
  | error e =>
    exact ⟨w, v, w', o, e, p', buf', .opened rfl hopen, hof, hreads, hread, hok,
      Bench.spare_singlePool (by decide) rfl (by decide), hr, hbound⟩

end P11Rand
