import P11Rand.Entries

/-! What becomes of a PC/SC failure on its way from the enumeration up to the entry points. -/
namespace P11Rand

open Effect Run

variable {W : Type} {P : Platform W} {w w' : World W} {cfg : Config} {ctx : Context}

namespace Iso7816

/-- What PC/SC says of its readers: it is asked for the size of the list, and for the list if
there is one. -/
def enumerated (P : Platform W) (ctx : Context) (e : W) : Except PcscError (List String) :=
  match P.answer (.listReadersLen ctx) e with
  | (.error err, _) => .error err
  | (.ok len, e) => if len ≤ 1 then .ok [] else (P.answer (.listReaders ctx len) e).1

/-- PC/SC failed, and not for want of readers. -/
def Outage (heard : Except PcscError (List String)) : Prop :=
  ∃ err, heard = .error err ∧ err ≠ .noReadersAvailable

/-- The enumeration failed in its first step, and not for want of readers. -/
def SizingFails (P : Platform W) (ctx : Context) (e : W) : Prop :=
  ∃ err, (P.answer (.listReadersLen ctx) e).1 = .error err ∧ err ≠ .noReadersAvailable

/-- An empty machine is reported for an empty list only, and an outage as a failure. -/
structure Reported (heard : Except PcscError (List String)) (res : Except Error (List String)) :
    Prop where
  empty : res = .ok [] → heard = .ok [] ∨ heard = .error .noReadersAvailable
  outage : Outage heard → res = .error .transport

theorem SizingFails.outage {e : W} (h : SizingFails P ctx e) : Outage (enumerated P ctx e) := by
  obtain ⟨err, herr, hne⟩ := h
  refine ⟨err, ?_, hne⟩
  unfold enumerated
  cases hq : P.answer (.listReadersLen ctx) e with
  | mk ans e' =>
    rw [hq] at herr
    obtain rfl : ans = .error err := herr
    rfl

theorem not_outage_ok (names : List String) : ¬ Outage (.ok names) := by
  rintro ⟨_, h, _⟩
  cases h

/-- The first step takes any failure for an empty list; the second tells the two apart. -/
theorem listReaders_reports (hctx : w.global.ctx = some ctx) :
    Yields (listReaders P) w fun res _ => (SizingFails P ctx w.env → res = .ok []) ∧
      (¬ SizingFails P ctx w.env → Reported (enumerated P ctx w.env) res) := by
  obtain ⟨res, w', h, _⟩ := listReaders_total (P := P) (A := fun _ => True) (fun _ _ => trivial) w
  refine ⟨res, w', h, ?_⟩
  rcases withContext_cases h with ⟨hnone, _, _⟩ | ⟨c, hc, h⟩
  · rw [hctx] at hnone
    cases hnone
  obtain rfl : ctx = c := Option.some.inj (hctx.symm.trans hc)
  obtain ⟨size, v, hsize, h⟩ := bind_eq_some.mp h
  have hans := (request_eq_some hsize).1
  cases size with
  | error err =>
    cases h
    refine ⟨fun _ => rfl, fun hno => ⟨fun _ => .inr ?_, ?_⟩⟩
    · simp only [enumerated, hans]
      by_contra hne
      exact hno ⟨err, by rw [hans], fun he => hne (by rw [he])⟩
    · rintro ⟨err', herr, hne⟩
      simp only [enumerated, hans] at herr
      cases herr
      exact absurd ⟨err, by rw [hans], hne⟩ hno
  | ok len =>
    have hno : ¬ SizingFails P ctx w.env := by
      rintro ⟨err, herr, _⟩
      rw [hans] at herr
      cases herr
    refine ⟨fun hf => absurd hf hno, fun _ => ?_⟩
    dsimp only at h
    split at h
    · rename_i hle
      cases h
      simp only [enumerated, hans, if_pos hle]
      exact ⟨fun _ => .inl rfl, fun ho => absurd ho (not_outage_ok _)⟩
    · rename_i hgt
      obtain ⟨ans, u, hlist, h⟩ := bind_eq_some.mp h
      have hans' := (request_eq_some hlist).1
      have heard : enumerated P ctx w.env = ans := by
        simp only [enumerated, hans, if_neg hgt, hans']
      rw [heard]
      rcases ans with err | names
      · by_cases herr : err = .noReadersAvailable
        · subst herr
          cases h
          refine ⟨fun _ => .inr rfl, ?_⟩
          rintro ⟨_, herr, hne⟩
          cases herr
          exact absurd rfl hne
        · have hres : res = .error .transport := by
            cases err <;> first | exact absurd rfl herr | (cases h; rfl)
          subst hres
          exact ⟨fun h => (by cases h), fun _ => rfl⟩
      · cases h
        exact ⟨fun h => .inl (by cases h; rfl), fun ho => absurd ho (not_outage_ok _)⟩

/-- An outage leads to `failure` exactly where the first step of the enumeration is sound. -/
def Surfaces (P : Platform W) (ctx : Context) (e : W) (failure : Prop) : Prop :=
  (Outage (enumerated P ctx e) → failure) ↔ ¬ SizingFails P ctx e

end Iso7816

open Iso7816

/-- The pool sees an outage as no readers, or as `Resource`. -/
theorem surfaces_of_list {failure : Prop} (hctx : w.global.ctx = some ctx)
    (hempty : ∀ v, SlotKind.iso7816.list P w = some (.ok [], v) → ¬ failure)
    (herror : ∀ v, SlotKind.iso7816.list P w = some (.error .resource, v) → failure) :
    Surfaces P ctx w.env failure := by
  obtain ⟨res, v, hlist, hfails, hsound⟩ := listReaders_reports (P := P) hctx
  constructor
  · intro h hf
    obtain rfl := hfails hf
    exact hempty v (bind_of_eq hlist) (h hf.outage)
  · intro hno ho
    obtain rfl := (hsound hno).outage ho
    exact herror v (bind_of_eq hlist)

theorem fillable_of_error {e : Error} (hcards : 0 < cfg.iso7816Cards)
    (h : SlotKind.iso7816.list P w = some (.error e, w')) :
    fillable P cfg w = some (.error e, w') := by
  have hc : cardsUsable P cfg w = some (.error e, w') := by
    rw [cardsUsable, if_pos hcards]
    exact bind_of_eq h
  exact bind_of_eq hc

theorem fillable_of_empty (hcards : 0 < cfg.iso7816Cards)
    (h : SlotKind.iso7816.list P w = some (.ok [], w')) :
    fillable P cfg w = some (.ok false, w') := by
  have hfew : ¬ cfg.iso7816Cards ≤ 0 := by omega
  have hc : cardsUsable P cfg w = some (.ok (decide (cfg.iso7816Cards ≤ 0)), w') := by
    rw [cardsUsable, if_pos hcards]
    exact bind_of_eq h
  rw [decide_eq_false hfew] at hc
  exact bind_of_eq hc

theorem open_of_error {e : Error} (hv : cfg.validate = .ok ()) (hcards : 0 < cfg.iso7816Cards)
    (h : SlotKind.iso7816.list P w = some (.error e, w')) :
    Pool.open P cfg w = some (.error e, w') := by
  have hcount : cfg.count .iso7816 > 0 := hcards
  have hc : claimKind P cfg .iso7816 [] w = some (.error e, w') := by
    rw [claimKind, if_pos hcount]
    exact bind_of_eq h
  unfold Pool.open
  rw [hv]
  exact bind_of_eq hc

theorem open_of_empty (hv : cfg.validate = .ok ()) (hcards : 0 < cfg.iso7816Cards)
    (h : SlotKind.iso7816.list P w = some (.ok [], w')) :
    Pool.open P cfg w = some (.error .notEnoughSources, w') := by
  have hcount : cfg.count .iso7816 > 0 := hcards
  have hc : claimKind P cfg .iso7816 [] w = some (.error .notEnoughSources, w') := by
    rw [claimKind, if_pos hcount, bind_of_eq h]
    have hnone : claim P .iso7816 (cfg.count .iso7816) [] [] w' = some ([], w') := rfl
    have hfew : ([] : List Slot).length < cfg.count .iso7816 := hcards
    dsimp only
    rw [bind_of_eq hnone, if_pos hfew]
    rfl
  unfold Pool.open
  rw [hv]
  exact bind_of_eq hc

theorem fillable_surfaces (hcards : 0 < cfg.iso7816Cards) (hctx : w.global.ctx = some ctx) :
    Yields (fillable P cfg) w fun res _ => Surfaces P ctx w.env (res = .error .resource) := by
  obtain ⟨res, v, h, _⟩ := fillable_total (P := P) cfg w
  refine ⟨res, v, h, surfaces_of_list hctx (fun u hlist => ?_) fun u hlist => ?_⟩
  · rw [fillable_of_empty hcards hlist] at h
    cases h
    simp
  · rw [fillable_of_error hcards hlist] at h
    cases h
    rfl

theorem open_surfaces (hv : cfg.validate = .ok ()) (hcards : 0 < cfg.iso7816Cards)
    (hctx : w.global.ctx = some ctx) :
    Yields (Pool.open P cfg) w fun res _ => Surfaces P ctx w.env (res = .error .resource) := by
  obtain ⟨res, v, h, _⟩ := Pool.open_total (P := P) cfg w
  refine ⟨res, v, h, surfaces_of_list hctx (fun u hlist => ?_) fun u hlist => ?_⟩
  · rw [open_of_empty hv hcards hlist] at h
    cases h
    simp
  · rw [open_of_error hv hcards hlist] at h
    cases h
    rfl

theorem cInitialize_surfaces {m : Module} {args : Option InitArgs} {u : World W}
    (hcards : 0 < cfg.iso7816Cards) (hctx : w.global.ctx = some ctx) (hinit : m.initialized = false)
    (hargs : ∀ a ∈ args, a.pReservedIsNull = true) (hg : globalInit P cfg u = some (.ok (), w)) :
    Yields (m.cInitialize P cfg args) u fun r _ =>
      Surfaces P ctx w.env (r.1 = .functionFailed) := by
  have hok : (args.any fun a => !a.pReservedIsNull) = false := by
    cases args with
    | none => rfl
    | some a => simp [hargs a rfl]
  have hcall : ∀ {f : Except Error Bool} {v : World W}, fillable P cfg w = some (f, v) →
      Yields (m.cInitialize P cfg args) u fun r _ =>
        r.1 = if f.isOk then .ok else .functionFailed := by
    intro f v hf
    unfold Module.cInitialize
    rw [if_neg (by simp [hinit]), if_neg (by simp [hok])]
    cases f with
    | error e =>
      obtain ⟨_, v', hs, _⟩ := globalShutdown_released P cfg v
      refine ⟨_, v', (bind_of_eq hg).trans ((bind_of_eq hf).trans (bind_of_eq hs)), rfl⟩
    | ok present =>
      obtain ⟨sessions, v', hs, _⟩ := sweep_total (P := P) (fun _ => true) m.sessions v
      refine ⟨_, v', (bind_of_eq hg).trans ((bind_of_eq hf).trans (bind_of_eq hs)), rfl⟩
  obtain ⟨f, v, hf, _⟩ := fillable_total (P := P) cfg w
  obtain ⟨r, v', hr, hrv⟩ := hcall hf
  refine ⟨r, v', hr, surfaces_of_list hctx (fun x hlist => ?_) fun x hlist => ?_⟩
  · rw [fillable_of_empty hcards hlist] at hf
    cases hf
    simp [hrv, Except.isOk, Except.toBool]
  · rw [fillable_of_error hcards hlist] at hf
    cases hf
    exact hrv

theorem cOpenSession_surfaces {m : Module} {slot flags h : CkUlong} (hv : cfg.validate = .ok ())
    (hcards : 0 < cfg.iso7816Cards) (hctx : w.global.ctx = some ctx)
    (hinit : m.initialized = true) (hslot : slot.toNat < m.slots.length)
    (hserial : flags &&& ckfSerialSession ≠ 0) (hfree : none ∈ m.sessions) :
    Yields (m.cOpenSession P cfg slot flags (some h)) w fun r _ =>
      Surfaces P ctx w.env (r.1 = .deviceError ∧ r.2.1 = m) := by
  obtain ⟨idx, hidx⟩ : ∃ idx, m.sessions.findIdx? Option.isNone = some idx := by
    rw [← Option.isSome_iff_exists, List.findIdx?_isSome]
    exact List.any_eq_true.mpr ⟨none, hfree, rfl⟩
  unfold Module.cOpenSession
  simp only [Option.isNone_some, Bool.false_eq_true, if_false, hserial, hinit,
    not_true_eq_false, ge_iff_le, Nat.not_le.mpr hslot, hidx]
  obtain ⟨o, v, ho, _⟩ := Pool.open_total (P := P) cfg w
  have hempty : ∀ u, SlotKind.iso7816.list P w = some (.ok [], u) →
      o = .error .notEnoughSources := by
    intro u hlist
    rw [open_of_empty hv hcards hlist] at ho
    cases ho
    rfl
  have herror : ∀ u, SlotKind.iso7816.list P w = some (.error .resource, u) →
      o = .error .resource := by
    intro u hlist
    rw [open_of_error hv hcards hlist] at ho
    cases ho
    rfl
  cases o with
  | error e =>
    cases e with
    | notEnoughSources =>
      obtain ⟨m', v', hset, _⟩ := Module.setTokenPresent_total (P := P) hslot false v
      refine ⟨_, v', (bind_of_eq ho).trans (bind_of_eq hset), surfaces_of_list hctx ?_ ?_⟩
      · simp
      · intro u hlist
        cases herror u hlist
    | resource =>
      refine ⟨_, v, bind_of_eq ho, surfaces_of_list hctx ?_ fun _ _ => ⟨rfl, rfl⟩⟩
      intro u hlist
      cases hempty u hlist
    | readFailure =>
      refine ⟨_, v, bind_of_eq ho, surfaces_of_list hctx ?_ fun _ _ => ⟨rfl, rfl⟩⟩
      intro u hlist
      cases hempty u hlist
  | ok pool =>
    obtain ⟨m', v', hset, _⟩ := Module.setTokenPresent_total (P := P) hslot true v
    refine ⟨_, v', (bind_of_eq ho).trans (bind_of_eq hset), surfaces_of_list hctx ?_ ?_⟩
    · simp
    · intro u hlist
      cases herror u hlist

theorem rebind_surfaces {p : Pool} {i : Nat} {s s' : Slot} {u : World W}
    (hctx : w.global.ctx = some ctx) (hs : p.slots[i]? = some s) (hk : s.kind = .iso7816)
    (hclose : s.close P u = some (s', w)) :
    Yields (p.rebind P i) u fun r _ => Surfaces P ctx w.env (r.1 = .error .resource) := by
  obtain ⟨r, v, hr, _⟩ := Pool.rebind_total (P := P) (List.getElem?_eq_some_iff.mp hs).1 u
  refine ⟨r, v, hr, ?_⟩
  unfold Pool.rebind at hr
  rw [hs] at hr
  dsimp only at hr
  rw [bind_of_eq hclose, hk] at hr
  refine surfaces_of_list hctx (fun x hlist => ?_) fun x hlist => ?_
  · rw [bind_of_eq hlist] at hr
    cases hr
    simp
  · rw [bind_of_eq hlist] at hr
    cases hr
    rfl

/-- A PC/SC failure is reported as one, by every layer, exactly if it is not the sizing of the
reader list that fails. -/
theorem outage_surfaces_iff (hv : cfg.validate = .ok ()) (hcards : 0 < cfg.iso7816Cards)
    (hctx : w.global.ctx = some ctx) :
    (Yields (listReaders P) w fun res _ =>
      Reported (enumerated P ctx w.env) res ↔ ¬ SizingFails P ctx w.env) ∧
    (Yields (fillable P cfg) w fun res _ => Surfaces P ctx w.env (res = .error .resource)) ∧
    (Yields (Pool.open P cfg) w fun res _ => Surfaces P ctx w.env (res = .error .resource)) ∧
    (∀ (m : Module) (args : Option InitArgs) (u : World W), m.initialized = false →
      (∀ a ∈ args, a.pReservedIsNull = true) → globalInit P cfg u = some (.ok (), w) →
      Yields (m.cInitialize P cfg args) u fun r _ =>
        Surfaces P ctx w.env (r.1 = .functionFailed)) ∧
    (∀ (m : Module) (slot flags h : CkUlong), m.initialized = true →
      slot.toNat < m.slots.length → flags &&& ckfSerialSession ≠ 0 → none ∈ m.sessions →
      Yields (m.cOpenSession P cfg slot flags (some h)) w fun r _ =>
        Surfaces P ctx w.env (r.1 = .deviceError ∧ r.2.1 = m)) ∧
    ∀ (p : Pool) (i : Nat) (s s' : Slot) (u : World W), p.slots[i]? = some s →
      s.kind = .iso7816 → s.close P u = some (s', w) →
      Yields (p.rebind P i) u fun r _ => Surfaces P ctx w.env (r.1 = .error .resource) := by
  refine ⟨?_, fillable_surfaces hcards hctx, open_surfaces hv hcards hctx,
    fun _ _ _ hinit hargs hg => cInitialize_surfaces hcards hctx hinit hargs hg,
    fun _ _ _ _ hinit hslot hserial hfree =>
      cOpenSession_surfaces hv hcards hctx hinit hslot hserial hfree,
    fun _ _ _ _ _ hs hk hclose => rebind_surfaces hctx hs hk hclose⟩
  obtain ⟨res, v, h, hfails, hsound⟩ := listReaders_reports (P := P) hctx
  refine ⟨res, v, h, fun hrep hf => ?_, hsound⟩
  have hres := hrep.outage hf.outage
  rw [hfails hf] at hres
  cases hres

namespace Bench

/-- A PC/SC service that is not running: it does not even say how long its list is. -/
def noService : Platform Unit where
  answer
    | .listReadersLen _, e => (.error (.other 0x8010001D), e)
    | q, e => smartcard.machine.answer q e
  sha3_256 := smartcard.sha3_256

end Bench

theorem outage_surfaces_iff_smartcard : ∃ w : World Unit, w.global.ctx = some ⟨0⟩ ∧
    (Yields (listReaders Bench.smartcard.machine) w fun res _ =>
      Reported (enumerated Bench.smartcard.machine ⟨0⟩ w.env) res ↔
        ¬ SizingFails Bench.smartcard.machine ⟨0⟩ w.env) ∧
    (Yields (fillable Bench.smartcard.machine Bench.oneCard) w fun res _ =>
      Surfaces Bench.smartcard.machine ⟨0⟩ w.env (res = .error .resource)) ∧
    (Yields (Module.new.cInitialize Bench.smartcard.machine Bench.oneCard none)
        (Bench.start none) fun r _ =>
      Surfaces Bench.smartcard.machine ⟨0⟩ w.env (r.1 = .functionFailed)) ∧
    Yields (Bench.cardModule.cOpenSession Bench.smartcard.machine Bench.oneCard 0
        ckfSerialSession (some 0)) w fun r _ =>
      Surfaces Bench.smartcard.machine ⟨0⟩ w.env
        (r.1 = .deviceError ∧ r.2.1 = Bench.cardModule) := by
  obtain ⟨hlist, hfill, _, hinit, hopen, _⟩ := outage_surfaces_iff (P := Bench.smartcard.machine)
    (show Bench.oneCard.validate = .ok () from rfl) (by decide)
    (show (Bench.running [⟨.establish, .ok ⟨0⟩⟩]).global.ctx = some ⟨0⟩ from rfl)
  exact ⟨_, rfl, hlist, hfill, hinit Module.new none (Bench.start none) rfl (by simp) rfl,
    hopen Bench.cardModule 0 ckfSerialSession 0 rfl (by decide) (by decide)
      (by simp [Bench.cardModule])⟩

/-- With the service down, the machine passes for one without readers. -/
theorem outage_taken_for_empty : Bench.oneCard.validate = .ok () ∧
    Outage (enumerated Bench.noService ⟨0⟩ (Bench.running []).env) ∧
    (∃ w, listReaders Bench.noService (Bench.running []) = some (.ok [], w)) ∧
    (∃ w, fillable Bench.noService Bench.oneCard (Bench.running []) = some (.ok false, w)) ∧
    (∃ w, Pool.open Bench.noService Bench.oneCard (Bench.running []) =
      some (.error .notEnoughSources, w)) ∧
    ∃ m' w, Bench.cardModule.cOpenSession Bench.noService Bench.oneCard 0 ckfSerialSession
        (some 0) (Bench.running []) = some ((.tokenNotPresent, m', some 0), w) ∧
      m'.slots = [⟨Bench.oneCard.slotName, false⟩] :=
  ⟨rfl, ⟨_, rfl, by simp⟩, ⟨_, rfl⟩, ⟨_, rfl⟩, ⟨_, rfl⟩, _, _, rfl, rfl⟩

end P11Rand
