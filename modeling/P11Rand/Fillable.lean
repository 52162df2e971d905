import P11Rand.Bench
import P11Rand.Steps

/-! Whether a pool that is said to be fillable can be opened. -/
namespace P11Rand

open Effect Run

variable {W : Type} {P : Platform W} {w w' : World W} {cfg : Config} {S : SlotKind → Snapshot}

/-- Whether the devices of a kind that open are enough for `n` sources. -/
def Snapshot.supplies (S : Snapshot) (n : Nat) : Except Error Bool :=
  if n = 0 then .ok true
  else
    match S.listing with
    | none => .error .resource
    | some names => .ok (n ≤ names.countP S.opens)

/-- Whether the devices of a kind that are listed are enough for `n` sources. -/
def Snapshot.shows (S : Snapshot) (n : Nat) : Except Error Bool :=
  if n = 0 then .ok true
  else
    match S.listing with
    | none => .error .resource
    | some names => .ok (n ≤ names.length)

/-- One answer for the cards and one for the generators; the first that is not yes decides. -/
def both (cards nodes : Except Error Bool) : Except Error Bool :=
  match cards with
  | .ok true => nodes
  | r => r

/-- What a probe says is what opening the pool leads to. -/
structure Agree {α : Type} (probe : Except Error Bool) (opened : Except Error α) : Prop where
  fillable : probe = .ok true ↔ ∃ a, opened = .ok a
  unfillable : probe = .ok false ↔ opened = .error .notEnoughSources
  resource : probe = .error .resource ↔ opened = .error .resource

theorem Agree.error {α β : Type} {probe : Except Error Bool} {e : Error}
    (h : Agree probe (.error e : Except Error α)) : Agree probe (.error e : Except Error β) := by
  refine ⟨?_, ?_, ?_⟩
  · simpa using h.fillable
  · simpa using h.unfillable
  · simpa using h.resource

/-- The generators listed are enough, those that open are not, and nothing else is missing. -/
def Overstated (S : SlotKind → Snapshot) (cfg : Config) : Prop :=
  (S .iso7816).supplies cfg.iso7816Cards = .ok true ∧
    ∃ nodes, (S .infnoise).listing = some nodes ∧
      nodes.countP (S .infnoise).opens < cfg.infnoiseDevices ∧
      cfg.infnoiseDevices ≤ nodes.length

theorem countUsable_total (cards usable : Nat) (names : List String) :
    Total (Does P fun _ => True) (countUsable P cards usable names) := by
  induction names generalizing usable with
  | nil => exact total_pure _
  | cons name names ih =>
    unfold countUsable
    split
    · exact total_pure _
    · apply total_bind (Iso7816.openSource_total fun _ _ => trivial)
      intro res
      split
      · exact total_bind (Iso7816.dropCard_total fun _ => trivial) fun _ => ih _
      · exact ih _

theorem cardsUsable_total (cfg : Config) : Total (Does P fun _ => True) (cardsUsable P cfg) := by
  unfold cardsUsable
  split
  · apply total_bind (SlotKind.list_total (fun _ _ => trivial) _)
    intro names
    split
    · exact total_pure _
    · exact total_bind (countUsable_total _ _ _) fun _ => total_pure _
  · exact total_pure _

theorem nodesPresent_total {A : Exchange → Prop}
    (hA : ∀ e : Exchange, e.request.reader? = none → A e) (cfg : Config) :
    Total (Does P A) (nodesPresent P cfg) := by
  unfold nodesPresent
  split
  · apply total_bind (SlotKind.list_total hA _)
    intro names
    split <;> exact total_pure _
  · exact total_pure _

theorem fillable_total (cfg : Config) : Total (Does P fun _ => True) (fillable P cfg) := by
  apply total_bind (cardsUsable_total cfg)
  intro r
  split
  · exact nodesPresent_total (fun _ _ => trivial) cfg
  · exact total_pure _

theorem supplies_error {T : Snapshot} {n : Nat} {e : Error} (h : T.supplies n = .error e) :
    e = .resource := by
  unfold Snapshot.supplies at h
  split at h
  · cases h
  · cases hl : T.listing with
    | none =>
      rw [hl] at h
      cases h
      rfl
    | some names =>
      rw [hl] at h
      cases h

theorem cardsUsable_eq (hS : 0 < cfg.iso7816Cards → (S .iso7816).Of P .iso7816 w) :
    Yields (cardsUsable P cfg) w fun r _ => r = (S .iso7816).supplies cfg.iso7816Cards := by
  unfold cardsUsable
  split
  · rename_i hpos
    have hS := hS hpos
    rcases hS.list_cases with ⟨hl, v, hlist, hv⟩ | ⟨names, v, hl, hlist, hv⟩
    · exact ⟨_, v, bind_of_eq hlist, by simp [Snapshot.supplies, hl, hpos.ne']⟩
    · obtain ⟨n, u, hcount, hn⟩ := (hS.later hv).countUsable ⟨names, hl, fun _ h => h⟩
        cfg.iso7816Cards 0
      refine ⟨_, u, (bind_of_eq hlist).trans (bind_of_eq hcount), ?_⟩
      simp [Snapshot.supplies, hl, hpos.ne', hn]
  · rename_i hzero
    have hzero : cfg.iso7816Cards = 0 := by omega
    exact ⟨_, w, rfl, by simp [Snapshot.supplies, hzero]⟩

theorem nodesPresent_eq (hS : 0 < cfg.infnoiseDevices → (S .infnoise).Of P .infnoise w) :
    Yields (nodesPresent P cfg) w fun r _ =>
      r = (S .infnoise).shows cfg.infnoiseDevices := by
  unfold nodesPresent
  split
  · rename_i hpos
    rcases (hS hpos).list_cases with ⟨hl, v, hlist, _⟩ | ⟨names, v, hl, hlist, _⟩
    · exact ⟨_, v, bind_of_eq hlist, by simp [Snapshot.shows, hl, hpos.ne']⟩
    · exact ⟨_, v, bind_of_eq hlist, by simp [Snapshot.shows, hl, hpos.ne']⟩
  · rename_i hzero
    have hzero : cfg.infnoiseDevices = 0 := by omega
    exact ⟨_, w, rfl, by simp [Snapshot.shows, hzero]⟩

/-- `fillable` asks for cards that open, but only for generators that are listed. -/
theorem fillable_eq (hS : ∀ kind, 0 < cfg.count kind → (S kind).Of P kind w) :
    Yields (fillable P cfg) w fun r _ => r =
      both ((S .iso7816).supplies cfg.iso7816Cards) ((S .infnoise).shows cfg.infnoiseDevices) := by
  obtain ⟨r, v, hr, rfl⟩ := cardsUsable_eq (hS .iso7816)
  have hv := ((cardsUsable_total cfg).within _ _ _ hr).later
  unfold fillable
  cases hc : (S .iso7816).supplies cfg.iso7816Cards with
  | error e =>
    rw [hc] at hr
    exact ⟨_, v, bind_of_eq hr, rfl⟩
  | ok b =>
    rw [hc] at hr
    cases b with
    | false => exact ⟨_, v, bind_of_eq hr, rfl⟩
    | true =>
      obtain ⟨r, u, hu, rfl⟩ := nodesPresent_eq fun h => (hS .infnoise h).later hv
      exact ⟨_, u, (bind_of_eq hr).trans hu, rfl⟩

theorem claimKind_agrees (kind : SlotKind) (slots : List Slot)
    (hS : 0 < cfg.count kind → (S kind).Of P kind w) :
    Yields (claimKind P cfg kind slots) w fun o v =>
      Agree ((S kind).supplies (cfg.count kind)) o ∧ Later P w v := by
  have htotal : Total (Does P fun _ => True) (claimKind P cfg kind slots) :=
    claimKind_total kind slots
  obtain ⟨o, v, ho, hd⟩ := htotal w
  refine ⟨o, v, ho, ?_, hd.later⟩
  unfold claimKind at ho
  split at ho
  · rename_i hpos
    have hS := hS hpos
    rcases hS.list_cases with ⟨hl, u, hlist, hu⟩ | ⟨names, u, hl, hlist, hu⟩
    · obtain ⟨_, u', hdrop, _⟩ := dropSlots_total (P := P) slots u
      rw [bind_of_eq hlist] at ho
      dsimp only at ho
      rw [bind_of_eq hdrop] at ho
      cases ho
      constructor <;> simp [Snapshot.supplies, hl, hpos.ne']
    · obtain ⟨got, u', hgot, hcount⟩ := (hS.later hu).claim ⟨names, hl, fun _ h => h⟩
        (cfg.count kind) []
      simp only [List.length_nil, Nat.zero_add] at hcount
      rw [bind_of_eq hlist] at ho
      dsimp only at ho
      rw [bind_of_eq hgot] at ho
      split at ho
      · rename_i hlt
        obtain ⟨_, u'', hdrop, _⟩ := dropSlots_total (P := P) (slots ++ got) u'
        rw [bind_of_eq hdrop] at ho
        cases ho
        have hfew : ¬ cfg.count kind ≤ names.countP (S kind).opens := fun h =>
          absurd (hcount.mpr h) (by omega)
        constructor <;> simp [Snapshot.supplies, hl, hpos.ne', hfew]
      · rename_i hge
        cases ho
        have hmany : cfg.count kind ≤ names.countP (S kind).opens := hcount.mp (by omega)
        constructor <;> simp [Snapshot.supplies, hl, hpos.ne', hmany]
  · rename_i hzero
    cases ho
    have hzero : cfg.count kind = 0 := by omega
    constructor <;> simp [Snapshot.supplies, hzero]

/-- `Pool::open` asks for sources that open, of both kinds. -/
theorem open_agrees (hv : cfg.validate = .ok ())
    (hS : ∀ kind, 0 < cfg.count kind → (S kind).Of P kind w) :
    Yields (Pool.open P cfg) w fun o _ => Agree
      (both ((S .iso7816).supplies cfg.iso7816Cards) ((S .infnoise).supplies cfg.infnoiseDevices))
      o := by
  obtain ⟨iso, v, hiso, hagree, hlat⟩ := claimKind_agrees .iso7816 [] (hS _)
  simp only [Config.count] at hagree
  unfold Pool.open
  rw [hv]
  cases hc : (S .iso7816).supplies cfg.iso7816Cards with
  | error e =>
    obtain rfl := supplies_error hc
    obtain rfl := hagree.resource.mp hc
    exact ⟨_, v, bind_of_eq hiso, by constructor <;> simp [both]⟩
  | ok b =>
    cases b with
    | false =>
      obtain rfl := hagree.unfillable.mp hc
      exact ⟨_, v, bind_of_eq hiso, by constructor <;> simp [both]⟩
    | true =>
      obtain ⟨slots, rfl⟩ := hagree.fillable.mp hc
      obtain ⟨all, u, hall, hagree', _⟩ := claimKind_agrees .infnoise slots
        fun h => (hS _ h).later hlat
      cases all with
      | error e => exact ⟨_, u, (bind_of_eq hiso).trans (bind_of_eq hall), hagree'.error⟩
      | ok all =>
        refine ⟨_, u, (bind_of_eq hiso).trans (bind_of_eq hall), ?_⟩
        have hyes : (S .infnoise).supplies cfg.infnoiseDevices = .ok true :=
          hagree'.fillable.mpr ⟨_, rfl⟩
        constructor <;> simp [both, hyes]

/-- Devices that are each dead or working keep opening, or not, as they do. -/
theorem Supplied.of {kind : SlotKind} {n : Nat} {names working : List String}
    (h : Supplied P w kind n names working) :
    Snapshot.Of ⟨some names, fun name => name ∈ working⟩ P kind w := by
  refine ⟨fun v hv => (h.listed v hv).mono fun res _ hres => by rw [hres]; rfl, ?_⟩
  intro all hall name hname v hv
  obtain rfl := Option.some.inj hall
  by_cases hwork : name ∈ working
  · refine (h.works name hwork v hv).mono fun src _ hsrc => ?_
    obtain ⟨s, rfl, _⟩ := hsrc
    simp [hwork]
  · refine (h.dead name hname hwork v hv).mono fun src _ hsrc => ?_
    rw [hsrc]
    simp [hwork]

theorem Supplied.many {kind : SlotKind} {n : Nat} {names working : List String}
    (h : Supplied P w kind n names working) : n ≤ names.countP fun name => name ∈ working := by
  calc n ≤ working.length := h.enough
    _ = working.countP fun name => name ∈ working :=
      (List.countP_eq_length.mpr fun name hname => by simpa using hname).symm
    _ ≤ names.countP fun name => name ∈ working := h.subset.countP_le

/-- Enough devices are listed, and enough of them open. -/
theorem Plenty.snapshots (h : Plenty P w cfg) : ∃ S : SlotKind → Snapshot, ∀ kind,
    (0 < cfg.count kind → (S kind).Of P kind w) ∧ (S kind).supplies (cfg.count kind) = .ok true ∧
      (S kind).shows (cfg.count kind) = .ok true := by
  suffices hone : ∀ kind, ∃ S : Snapshot, (0 < cfg.count kind → S.Of P kind w) ∧
      S.supplies (cfg.count kind) = .ok true ∧ S.shows (cfg.count kind) = .ok true from
    Classical.skolem.mp hone
  intro kind
  rcases Nat.eq_zero_or_pos (cfg.count kind) with hzero | hpos
  · refine ⟨⟨none, fun _ => false⟩, fun hpos => absurd hzero hpos.ne', ?_, ?_⟩
    · rw [Snapshot.supplies, if_pos hzero]
    · rw [Snapshot.shows, if_pos hzero]
  · obtain ⟨names, working, hs⟩ := h kind hpos
    have hmany := hs.many
    refine ⟨_, fun _ => hs.of, ?_, ?_⟩
    · rw [Snapshot.supplies, if_neg hpos.ne']
      simpa using hmany
    · rw [Snapshot.shows, if_neg hpos.ne']
      simpa using hmany.trans List.countP_le_length

theorem Plenty.fillable (h : Plenty P w cfg) :
    Yields (fillable P cfg) w fun r v => r = .ok true ∧ Plenty P v cfg := by
  obtain ⟨S, hS⟩ := h.snapshots
  obtain ⟨r, v, hrun, rfl⟩ := fillable_eq fun kind hk => (hS kind).1 hk
  have hd := (fillable_total cfg).within _ _ _ hrun
  have hcards := (hS .iso7816).2.1
  have hnodes := (hS .infnoise).2.2
  simp only [Config.count] at hcards hnodes
  exact ⟨_, v, hrun, by rw [hcards, hnodes]; rfl, h.later hd.later⟩

theorem Plenty.open (h : Plenty P w cfg) (hv : cfg.validate = .ok ()) :
    Yields (Pool.open P cfg) w fun o v => (∃ p, o = .ok p) ∧ Plenty P v cfg := by
  obtain ⟨S, hS⟩ := h.snapshots
  obtain ⟨o, v, hrun, hagree⟩ := open_agrees hv fun kind hk => (hS kind).1 hk
  have hd := (Pool.open_total cfg).within _ _ _ hrun
  have hcards := (hS .iso7816).2.1
  have hnodes := (hS .infnoise).2.1
  simp only [Config.count] at hcards hnodes
  exact ⟨o, v, hrun, hagree.fillable.mp (by rw [hcards, hnodes]; rfl), h.later hd.later⟩

/-- Where the two scans part: more generators are listed than open. -/
theorem Overstated.differ (h : Overstated S cfg) :
    both ((S .iso7816).supplies cfg.iso7816Cards) ((S .infnoise).shows cfg.infnoiseDevices) =
        .ok true ∧
      both ((S .iso7816).supplies cfg.iso7816Cards)
        ((S .infnoise).supplies cfg.infnoiseDevices) = .ok false := by
  obtain ⟨hcards, nodes, hl, hlt, hge⟩ := h
  have hpos : cfg.infnoiseDevices ≠ 0 := by omega
  rw [hcards]
  constructor
  · simp [both, Snapshot.shows, hl, hpos, hge]
  · simp [both, Snapshot.supplies, hl, hpos, hlt]

theorem both_eq (h : ¬ Overstated S cfg) :
    both ((S .iso7816).supplies cfg.iso7816Cards) ((S .infnoise).shows cfg.infnoiseDevices) =
      both ((S .iso7816).supplies cfg.iso7816Cards)
        ((S .infnoise).supplies cfg.infnoiseDevices) := by
  cases hc : (S .iso7816).supplies cfg.iso7816Cards with
  | error e => rfl
  | ok b =>
    cases b with
    | false => rfl
    | true =>
      by_cases hpos : cfg.infnoiseDevices = 0
      · simp [both, Snapshot.supplies, Snapshot.shows, hpos]
      · cases hl : (S .infnoise).listing with
        | none => simp [both, Snapshot.supplies, Snapshot.shows, hl]
        | some nodes =>
          have hiff : cfg.infnoiseDevices ≤ nodes.length ↔
              cfg.infnoiseDevices ≤ nodes.countP (S .infnoise).opens := by
            refine ⟨fun hge => ?_, fun h => h.trans List.countP_le_length⟩
            by_contra hlt
            exact h ⟨hc, nodes, hl, not_le.mp hlt, hge⟩
          simp [both, Snapshot.supplies, Snapshot.shows, hl, hpos, hiff]

theorem agree_iff {α : Type} {opened : Except Error α}
    (h : Agree (both ((S .iso7816).supplies cfg.iso7816Cards)
      ((S .infnoise).supplies cfg.infnoiseDevices)) opened) :
    Agree (both ((S .iso7816).supplies cfg.iso7816Cards)
      ((S .infnoise).shows cfg.infnoiseDevices)) opened ↔ ¬ Overstated S cfg := by
  constructor
  · intro h' hover
    obtain ⟨hyes, hno⟩ := hover.differ
    obtain ⟨a, ha⟩ := h'.fillable.mp hyes
    rw [h.unfillable.mp hno] at ha
    cases ha
  · intro hnot
    rwa [both_eq hnot]

theorem refreshSlot_present {m : Module} {i : Nat} (hi : i < m.slots.length)
    (hS : ∀ kind, 0 < cfg.count kind → (S kind).Of P kind w) :
    Yields (m.refreshSlot P cfg i) w fun r _ => r.1 = true ↔
      both ((S .iso7816).supplies cfg.iso7816Cards) ((S .infnoise).shows cfg.infnoiseDevices) =
        .ok true := by
  obtain ⟨r, v, hr, heq⟩ := fillable_eq hS
  rw [← heq]
  obtain ⟨m', u, hset, _⟩ := Module.setTokenPresent_total (P := P) hi (r.toOption.getD false) v
  refine ⟨_, u, (bind_of_eq hr).trans (bind_of_eq hset), ?_⟩
  cases r with
  | error e => simp [Except.toOption]
  | ok b => simp [Except.toOption]

/-- `C_GetSlotInfo` reports the token of a slot as present. -/
def Module.ReportsPresent (P : Platform W) (cfg : Config) (m : Module) (slot : CkUlong)
    (w : World W) : Prop :=
  ∀ info, Yields (m.cGetSlotInfo P cfg slot (some info)) w fun r _ => r.1 = .ok ∧
    ∃ info', r.2.2 = some info' ∧ info'.flags &&& ckfTokenPresent ≠ 0

/-- A filtered `C_GetSlotList` counts at least one slot: what `p11rand-wait` waits for. -/
def Module.CountsPresent (P : Platform W) (cfg : Config) (m : Module) (w : World W) : Prop :=
  Yields (m.cGetSlotList P cfg ckTrue none (some 0)) w fun r _ => r.1 = .ok ∧
    ∃ n, r.2.2.2 = some n ∧ 1 ≤ n

/-- `C_OpenSession` opens a session on the slot. -/
def Module.Opens (P : Platform W) (cfg : Config) (m : Module) (slot flags : CkUlong)
    (w : World W) : Prop :=
  ∀ h, Yields (m.cOpenSession P cfg slot flags (some h)) w fun r _ => r.1 = .ok

theorem tokenPresent_flag (present : Bool) :
    (ckfHwSlot ||| ckfRemovableDevice ||| if present then ckfTokenPresent else 0) &&&
      ckfTokenPresent ≠ 0 ↔ present = true := by
  cases present <;> decide

theorem reportsPresent_iff {m : Module} {slot : CkUlong} (hinit : m.initialized = true)
    (hslot : slot.toNat < m.slots.length)
    (hS : ∀ kind, 0 < cfg.count kind → (S kind).Of P kind w) :
    m.ReportsPresent P cfg slot w ↔
      both ((S .iso7816).supplies cfg.iso7816Cards) ((S .infnoise).shows cfg.infnoiseDevices) =
        .ok true := by
  obtain ⟨⟨present, m'⟩, v, hr, hiff⟩ := refreshSlot_present hslot hS
  rw [← hiff]
  have hcall : ∀ info, Yields (m.cGetSlotInfo P cfg slot (some info)) w fun r _ => r.1 = .ok ∧
      ∃ info', r.2.2 = some info' ∧ (info'.flags &&& ckfTokenPresent ≠ 0 ↔ present = true) := by
    intro info
    unfold Module.cGetSlotInfo
    simp only [Option.isNone_some, Bool.false_eq_true, if_false, hinit, not_true_eq_false,
      List.getElem?_eq_getElem hslot]
    refine ⟨_, v, bind_of_eq hr, rfl, _, rfl, ?_⟩
    exact tokenPresent_flag present
  constructor
  · intro h
    obtain ⟨r, u, hu, _, info', hinfo, hflag⟩ := h ⟨[], [], 0, ⟨0, 0⟩, ⟨0, 0⟩⟩
    obtain ⟨_, info'', hinfo', hpresent⟩ := (yields_iff hu).mp (hcall _)
    rw [hinfo] at hinfo'
    cases hinfo'
    exact hpresent.mp hflag
  · intro hp info
    obtain ⟨r, u, hu, hok, info', hinfo, hpresent⟩ := hcall info
    exact ⟨r, u, hu, hok, info', hinfo, hpresent.mpr hp⟩

theorem countsPresent_iff {m : Module} (hinit : m.initialized = true)
    (hone : m.slots.length = 1) (hS : ∀ kind, 0 < cfg.count kind → (S kind).Of P kind w) :
    m.CountsPresent P cfg w ↔
      both ((S .iso7816).supplies cfg.iso7816Cards) ((S .infnoise).shows cfg.infnoiseDevices) =
        .ok true := by
  obtain ⟨⟨present, m'⟩, v, hr, hiff⟩ := refreshSlot_present (m := m) (i := 0) (by omega) hS
  rw [← hiff]
  unfold Module.CountsPresent Module.cGetSlotList
  simp only [hinit, not_true_eq_false, if_false, hone, List.range_one, ckTrue, beq_self_eq_true]
  cases present with
  | true =>
    rw [yields_iff ((bind_of_eq (bind_of_eq hr)).trans rfl)]
    exact ⟨fun _ => rfl, fun _ => ⟨rfl, _, rfl, (by decide : (1 : CkUlong) ≤ 1)⟩⟩
  | false =>
    rw [yields_iff ((bind_of_eq (bind_of_eq hr)).trans rfl)]
    simp

theorem opens_iff {m : Module} {slot flags : CkUlong} (hinit : m.initialized = true)
    (hslot : slot.toNat < m.slots.length) (hserial : flags &&& ckfSerialSession ≠ 0)
    (hfree : none ∈ m.sessions) (hv : cfg.validate = .ok ())
    (hS : ∀ kind, 0 < cfg.count kind → (S kind).Of P kind w) :
    m.Opens P cfg slot flags w ↔ both ((S .iso7816).supplies cfg.iso7816Cards)
      ((S .infnoise).supplies cfg.infnoiseDevices) = .ok true := by
  obtain ⟨o, v, ho, hagree⟩ := open_agrees hv hS
  obtain ⟨idx, hidx⟩ : ∃ idx, m.sessions.findIdx? Option.isNone = some idx := by
    rw [← Option.isSome_iff_exists, List.findIdx?_isSome]
    exact List.any_eq_true.mpr ⟨none, hfree, rfl⟩
  rw [hagree.fillable]
  have hcall : ∀ h, Yields (m.cOpenSession P cfg slot flags (some h)) w fun r _ =>
      r.1 = .ok ↔ ∃ p, o = .ok p := by
    intro h
    unfold Module.cOpenSession
    simp only [Option.isNone_some, Bool.false_eq_true, if_false, hserial, hinit,
      not_true_eq_false, ge_iff_le, Nat.not_le.mpr hslot, hidx]
    cases o with
    | error e =>
      cases e with
      | notEnoughSources =>
        obtain ⟨m', u, hset, _⟩ := Module.setTokenPresent_total (P := P) hslot false v
        exact ⟨_, u, (bind_of_eq ho).trans (bind_of_eq hset), by simp⟩
      | resource => exact ⟨_, v, bind_of_eq ho, by simp⟩
      | readFailure => exact ⟨_, v, bind_of_eq ho, by simp⟩
    | ok pool =>
      obtain ⟨m', u, hset, _⟩ := Module.setTokenPresent_total (P := P) hslot true v
      exact ⟨_, u, (bind_of_eq ho).trans (bind_of_eq hset), by simp⟩
  constructor
  · intro h
    obtain ⟨r, u, hu, hok⟩ := h 0
    exact ((yields_iff hu).mp (hcall 0)).mp hok
  · intro hp h
    obtain ⟨r, u, hu, hiff⟩ := hcall h
    exact ⟨r, u, hu, hiff.mpr hp⟩

namespace Bench

/-- A generator whose node cannot be opened. -/
def locked : Bench := { generators with file := fun _ => none }

theorem initialized_pair : ∃ m w, ModuleRun generators.machine pair m w ∧
    m.initialized = true ∧ m.slots.length = 1 ∧ none ∈ m.sessions :=
  ⟨_, _, .called (c := .cInitialize none) (.started (w := start none) rfl rfl rfl) rfl, rfl, rfl,
    List.mem_cons_self⟩

end Bench

/-- `fillable` and `Pool::open` agree, and a token reported as present can be opened, unless the
generators listed are enough and those that open are not. -/
theorem fillable_agrees_iff (hv : cfg.validate = .ok ())
    (hS : ∀ kind, 0 < cfg.count kind → (S kind).Of P kind w) :
    (∃ probe opened w₁ w₂, fillable P cfg w = some (probe, w₁) ∧
      Pool.open P cfg w = some (opened, w₂) ∧ (Agree probe opened ↔ ¬ Overstated S cfg)) ∧
    ∀ (m : Module) (slot flags : CkUlong), ModuleRun P cfg m w → m.initialized = true →
      slot.toNat < m.slots.length → flags &&& ckfSerialSession ≠ 0 → none ∈ m.sessions →
      ((m.ReportsPresent P cfg slot w ∨ m.CountsPresent P cfg w → m.Opens P cfg slot flags w) ↔
        ¬ Overstated S cfg) := by
  obtain ⟨opened, w₂, hopen, hagree⟩ := open_agrees hv hS
  constructor
  · obtain ⟨probe, w₁, hprobe, rfl⟩ := fillable_eq hS
    exact ⟨_, opened, w₁, w₂, hprobe, hopen, agree_iff hagree⟩
  · intro m slot flags hrun hinit hslot hserial hfree
    have hone : m.slots.length = 1 := by simpa using congrArg List.length (hrun.inv.published hinit)
    rw [reportsPresent_iff hinit hslot hS, countsPresent_iff hinit hone hS, or_self,
      opens_iff hinit hslot hserial hfree hv hS]
    constructor
    · intro h hover
      obtain ⟨hyes, hno⟩ := hover.differ
      rw [hno] at h
      cases h hyes
    · intro hnot
      rw [both_eq hnot]
      exact id

theorem fillable_agrees_iff_pair : ∃ (m : Module) (w : World Unit),
    (∃ probe opened w₁ w₂, fillable Bench.generators.machine Bench.pair w = some (probe, w₁) ∧
      Pool.open Bench.generators.machine Bench.pair w = some (opened, w₂) ∧
      (Agree probe opened ↔ ¬ Overstated (fun _ => Bench.generators.snapshot) Bench.pair)) ∧
    ((m.ReportsPresent Bench.generators.machine Bench.pair 0 w ∨
        m.CountsPresent Bench.generators.machine Bench.pair w →
      m.Opens Bench.generators.machine Bench.pair 0 ckfSerialSession w) ↔
      ¬ Overstated (fun _ => Bench.generators.snapshot) Bench.pair) := by
  obtain ⟨m, w, hrun, hinit, hone, hfree⟩ := Bench.initialized_pair
  have hS : ∀ kind, 0 < Bench.pair.count kind →
      Bench.generators.snapshot.Of Bench.generators.machine kind w := by
    intro kind hk
    cases kind with
    | iso7816 => exact absurd hk (by decide)
    | infnoise => exact Bench.generators.snapshot_of w
  obtain ⟨hagree, hopens⟩ := fillable_agrees_iff (by rfl) hS
  exact ⟨m, w, hagree, hopens m 0 ckfSerialSession hrun hinit (by rw [hone]; decide) (by decide)
    hfree⟩

/-- A generator that is listed but does not open: fillable, and yet not to be opened. -/
theorem locked_generator_fillable : Bench.single.validate = .ok () ∧
    Bench.locked.snapshot.Of Bench.locked.machine .infnoise (Bench.start none) ∧
    ∃ w₁ w₂, fillable Bench.locked.machine Bench.single (Bench.start none) =
        some (.ok true, w₁) ∧
      Pool.open Bench.locked.machine Bench.single (Bench.start none) =
        some (.error .notEnoughSources, w₂) :=
  ⟨rfl, Bench.locked.snapshot_of _, _, _, rfl, rfl⟩

end P11Rand
