import P11Rand.Fillable
import P11Rand.Holdings
import P11Rand.Tools.Inventory

/-! What p11rand-list says of a host: which pools can be opened there. -/
namespace P11Rand

open Effect Run

variable {W : Type} {P : Platform W} {e e' : W} {w w' : World W} {ctx : Option Context}

/-- A context can be had from PC/SC. -/
def Platform.Establishes (P : Platform W) (e : W) : Prop := ∃ c, (P.answer .establish e).1 = .ok c

namespace Tools.Inventory

variable {status2 : Card → Run (World W) (Except PcscError (List UInt8))} {quiet : Bool}
  {Q Q' : String → Bool → Prop} {R R' : Option (List String) → Prop} {a : Args}
  {S : SlotKind → Snapshot}

theorem Harmless.owns (h : Harmless P status2) (card : Card) :
    Owns (connections W ctx) (status2 card) {card} fun _ => {card} := by
  intro w res w' hw hx
  have hd := (h card).within w res w' hx
  obtain ⟨es, hes, hno⟩ := hd.trace
  obtain rfl := List.eq_nil_iff_forall_not_mem.mpr hno
  exact ⟨(congrArg Global.ctx hd.global).trans hw, [], hes, by simp, .nil⟩

theorem owns_readAtr (hstatus : Harmless P status2) (reader : String) :
    Owns (connections W ctx) (Iso7816.readAtr P status2 reader) 0 fun _ => 0 := by
  unfold Iso7816.readAtr
  split
  · exact owns_pure rfl
  refine owns_bind (Iso7816.owns_connect reader) fun res => ?_
  cases res with
  | error _ => exact owns_pure rfl
  | ok card =>
    refine owns_bind (hstatus.owns card) fun res => ?_
    cases res with
    | error _ => exact owns_bind (Iso7816.owns_dropCard card) fun _ => owns_pure rfl
    | ok atr =>
      refine owns_bind (Iso7816.owns_leaveCard card) fun _ => ?_
      split <;> exact owns_pure rfl

theorem owns_showAtr (hstatus : Harmless P status2) (reader : String) (status : Status) :
    Owns (connections W ctx) (showAtr P status2 reader status) 0 fun _ => 0 := by
  unfold showAtr
  split
  · refine owns_bind (owns_readAtr hstatus reader) fun res => ?_
    cases res <;> exact owns_pure rfl
  · exact owns_pure rfl

theorem owns_dropOpened (opened : Except Iso7816.Error Iso7816.Source) :
    Owns (connections W ctx) (dropOpened P opened) (okCards (fun src => {src.card}) opened)
      fun _ => 0 := by
  cases opened with
  | ok src => exact Iso7816.owns_dropCard src.card
  | error _ => exact owns_pure rfl

/-- A reader is left alone before the next one is probed. -/
theorem owns_probeReaders (hstatus : Harmless P status2) (names : List String) (n : UInt32) :
    Owns (connections W ctx) (probeReaders P status2 quiet names n) 0 fun _ => 0 := by
  induction names generalizing n with
  | nil => exact owns_pure rfl
  | cons name names ih =>
    refine owns_bind (Iso7816.owns_openSource name) fun opened => ?_
    refine owns_bind (owns_dropOpened opened) fun _ => ?_
    refine owns_bind (owns_showAtr hstatus name _) fun _ => ?_
    exact owns_bind (ih _) fun _ => owns_pure rfl

theorem owns_surveyReaders (hstatus : Harmless P status2) :
    Owns (connections W ctx) (surveyReaders P status2 quiet) 0 fun _ => 0 := by
  refine owns_bind Iso7816.owns_listReaders fun res => ?_
  cases res with
  | error _ => exact owns_pure rfl
  | ok names => exact owns_bind (owns_probeReaders hstatus names 0) fun _ => owns_pure rfl

theorem owns_probeNodes (names : List String) (n : UInt32) :
    Owns (connections W ctx) (probeNodes P quiet names n) 0 fun _ => 0 := by
  induction names generalizing n with
  | nil => exact owns_pure rfl
  | cons name names ih =>
    refine owns_bind (Infnoise.owns_openSource name) fun _ => ?_
    exact owns_bind (ih _) fun _ => owns_pure rfl

theorem owns_surveyNodes (total : UInt32) :
    Owns (connections W ctx) (surveyNodes P quiet total) 0 fun _ => 0 := by
  refine owns_bind Infnoise.owns_listPaths fun res => ?_
  cases res with
  | error _ => exact owns_pure rfl
  | ok names => exact owns_bind (owns_probeNodes names 0) fun _ => owns_pure rfl

/-- What is known of the devices of a kind from `e` on. Who asks for cards has a context. -/
structure Known (P : Platform W) (kind : SlotKind) (R : Option (List String) → Prop)
    (Q : String → Bool → Prop) (e : W) : Prop where
  lists : ∀ w : World W, P.Leads e w.env → (kind = .iso7816 → w.global.ctx.isSome = true) →
    Post (kind.list P) w fun res _ => R res.toOption
  opens : ∀ w : World W, P.Leads e w.env → (kind = .iso7816 → w.global.ctx.isSome = true) →
    ∀ names, R (some names) → ∀ name ∈ names,
      Post (kind.openSource P name) w fun src _ => Q name src.isSome

theorem Known.later {kind : SlotKind} (h : Known P kind R Q e) (hl : P.Leads e e') :
    Known P kind R Q e' :=
  ⟨fun w hw => h.lists w (hl.trans hw), fun w hw => h.opens w (hl.trans hw)⟩

theorem Known.listReaders (h : Known P .iso7816 R Q w.env) (hc : w.global.ctx.isSome = true) :
    Post (Iso7816.listReaders P) w fun res _ => R res.toOption := by
  intro res v hres
  have hlist := h.lists w .refl (fun _ => hc) _ v (bind_of_eq hres)
  cases res <;> exact hlist

theorem Known.openReader {names : List String} (h : Known P .iso7816 R Q w.env)
    (hc : w.global.ctx.isSome = true) (hR : R (some names)) {name : String} (hn : name ∈ names) :
    Post (Iso7816.openSource P name) w fun res _ => Q name res.isOk := by
  intro res v hres
  have hopen := h.opens w .refl (fun _ => hc) names hR name hn
  cases res with
  | ok src => exact hopen _ v (bind_of_eq hres)
  | error _ => exact hopen _ v (bind_of_eq hres)

theorem Known.listPaths (h : Known P .infnoise R Q w.env) :
    Post (Infnoise.listPaths P) w fun res _ => R res.toOption := by
  intro res v hres
  have hlist := h.lists w .refl nofun _ v (bind_of_eq hres)
  cases res <;> exact hlist

theorem Known.openNode {names : List String} (h : Known P .infnoise R Q w.env)
    (hR : R (some names)) {name : String} (hn : name ∈ names) :
    Post (Infnoise.openSource P name) w fun res _ => Q name res.isOk := by
  intro res v hres
  have hopen := h.opens w .refl nofun names hR name hn
  cases res with
  | ok src => exact hopen _ v (bind_of_eq hres)
  | error _ => exact hopen _ v (bind_of_eq hres)

theorem contextInit_yields (hg : w.global = ⟨none, 0⟩) :
    Yields (Iso7816.globalInit P) w fun res v => P.Leads w.env v.env ∧
      ((res = .ok () ∧ ∃ c, v.global = ⟨some c, 1⟩) ∨
        (res = .error .transport ∧ v.global = ⟨none, 0⟩ ∧ ¬ P.Establishes w.env)) := by
  obtain ⟨ans, v, hans⟩ : ∃ ans v, request P .establish w = some (ans, v) := ⟨_, _, rfl⟩
  have hwv : P.Leads w.env v.env := .single ⟨.establish, by rw [(request_eq_some hans).1]⟩
  rw [Iso7816.globalInit]
  refine yields_bind ⟨w, w, rfl, ?_⟩
  dsimp only
  rw [hg, if_neg (by simp)]
  refine yields_bind ⟨ans, v, hans, ?_⟩
  cases ans with
  | error e =>
    refine yields_pure ⟨hwv, .inr ⟨rfl, (request_global hans).trans hg, ?_⟩⟩
    rintro ⟨c, hc⟩
    rw [(request_eq_some hans).1] at hc
    cases hc
  | ok c => exact ⟨_, _, rfl, hwv, .inl ⟨rfl, c, rfl⟩⟩

theorem contextShutdown_yields {c : Context} (hg : w.global = ⟨some c, 1⟩) :
    Yields (Iso7816.globalShutdown P) w fun _ v =>
      P.Leads w.env v.env ∧ v.global = ⟨none, 0⟩ := by
  rw [Yields, Iso7816.globalShutdown, bind_of_eq (get_apply w), hg]
  exact ⟨_, _, rfl, .single ⟨.releaseContext c, rfl⟩, rfl⟩

/-- The cards were surveyed in a context that is released again. -/
theorem surveyCards_yields (hstatus : Harmless P status2) (hg : w.global = ⟨none, 0⟩)
    (hknown : Known P .iso7816 R Q w.env) :
    Yields (surveyCards P status2 quiet) w fun s v => v.global = ⟨none, 0⟩ ∧
      P.Leads w.env v.env ∧ ∃ listing es, (listing = none ∧ ¬ P.Establishes w.env ∨ R listing) ∧
        Surveyed Q (CardSeen P status2 w.env) quiet [.out "iso7816 (PC/SC):"] listing s es := by
  obtain ⟨res, v, hinit, hwv, hcases⟩ := contextInit_yields (P := P) hg
  refine yields_bind ⟨res, v, hinit, ?_⟩
  rcases hcases with ⟨rfl, c, hv⟩ | ⟨rfl, hv, hno⟩
  · have hknown := hknown.later hwv
    have hc : v.global.ctx.isSome = true := by rw [hv]; rfl
    have hopens : ∀ names, R (some names) → ∀ name ∈ names, ∀ u, Later P v u →
        Post (Iso7816.openSource P name) u fun res _ => Q name res.isOk := by
      intro names hR name hn u hu
      exact (hknown.later hu.env.leads).openReader (by rw [hu.global]; exact hc) hR hn
    refine yields_bind ((surveyReaders_yields hstatus hc (hknown.listReaders hc) hopens).mono
      fun s u hs => ?_)
    obtain ⟨hu, listing, es, hR, hsurveyed⟩ := hs
    refine yields_bind ((contextShutdown_yields (hu.global.trans hv)).mono fun _ x hx => ?_)
    exact yields_pure ⟨hx.2, (hwv.trans hu.env.leads).trans hx.1, listing, es, .inr hR,
      hsurveyed.mono fun e he => he.earlier hwv⟩
  · exact yields_pure ⟨hv, hwv, none, [], .inl ⟨rfl, hno⟩, surveyed_none _⟩

theorem surveyCards_tidy {s : Survey} (hstatus : Harmless P status2) (ht : Tidy 0 w)
    (hg : w.global = ⟨none, 0⟩) (h : surveyCards P status2 quiet w = some (s, w')) :
    Tidy 0 w' := by
  obtain ⟨res, v, hinit, h⟩ := bind_eq_some.mp h
  have hv := ht.contextInit hg hinit
  cases res with
  | error _ =>
    cases h
    exact hv
  | ok _ =>
    obtain ⟨s', u, hsurvey, h⟩ := bind_eq_some.mp h
    have hu := hv.owns (owns_surveyReaders hstatus) hsurvey
    obtain ⟨_, x, hshut, h⟩ := bind_eq_some.mp h
    cases h
    exact hu.contextShutdown hshut

/-- What the survey of a host comes to: the cards that were probed and the nodes, and what is told
of them. -/
structure Inventoried (P : Platform W)
    (status2 : Card → Run (World W) (Except PcscError (List UInt8))) (quiet : Bool)
    (Q Q' : String → Bool → Prop) (e : W) (listing listing' : Option (List String))
    (cards nodes : List Entry) (s s' : Survey) (r : UInt8 × List Line) : Prop where
  cards : Surveyed Q (CardSeen P status2 e) quiet [.out "iso7816 (PC/SC):"] listing s cards
  nodes : Surveyed Q' (NodeSeen P e) quiet
    ((if s.total > 0 then [.out ""] else []) ++ [.out "infnoise (/dev/infnoiseN):"]) listing' s'
    nodes
  code : r.1 = if s.usable + s'.usable > 0 then 0 else 1
  lines : r.2 = s.lines ++ s'.lines ++ if quiet then [] else [.out (summary s s')]

theorem main_yields (hstatus : Harmless P status2) (hg : w.global = ⟨none, 0⟩)
    (hcards : Known P .iso7816 R Q w.env) (hnodes : Known P .infnoise R' Q' w.env) :
    Yields (main P status2 a) w fun r v => v.global = ⟨none, 0⟩ ∧ P.Leads w.env v.env ∧
      (Tidy 0 w → Tidy 0 v) ∧ ∃ listing cards listing' nodes s s',
        (listing = none ∧ ¬ P.Establishes w.env ∨ R listing) ∧ R' listing' ∧
        Inventoried P status2 a.quiet Q Q' w.env listing listing' cards nodes s s' r := by
  obtain ⟨s, v, hs, hv, hwv, listing, cards, hR, hsurveyed⟩ :=
    (surveyCards_yields hstatus hg hcards : Yields (surveyCards P status2 a.quiet) w _)
  have hnodes := hnodes.later hwv
  refine yields_bind ⟨s, v, hs, ?_⟩
  obtain ⟨s', u, hs', hu, listing', nodes, hR', hsurveyed'⟩ :=
    (surveyNodes_yields hnodes.listPaths fun names hR name hn x hx =>
      (hnodes.later hx.env.leads).openNode hR hn : Yields (surveyNodes P a.quiet s.total) v _)
  refine yields_bind ⟨s', u, hs', yields_pure ⟨hu.global.trans hv, hwv.trans hu.leads, ?_,
    listing, cards, listing', nodes, s, s', hR, hR', hsurveyed,
    hsurveyed'.mono fun n hn => hn.earlier hwv, rfl, rfl⟩⟩
  intro ht
  have hv := surveyCards_tidy hstatus ht hg hs
  exact hv.owns (K := fun _ => 0) (owns_surveyNodes s.total) hs'

/-- From `e` on, the devices of each kind are as in its snapshot, whoever looks. -/
def Steady (P : Platform W) (S : SlotKind → Snapshot) (e : W) : Prop :=
  ∀ kind (w : World W), P.Leads e w.env → (kind = .iso7816 → w.global.ctx.isSome = true) →
    (S kind).Of P kind w

theorem Steady.later (h : Steady P S e) (hl : P.Leads e e') : Steady P S e' :=
  fun kind w hw => h kind w (hl.trans hw)

theorem Steady.known (h : Steady P S e) (kind : SlotKind) :
    Known P kind (· = (S kind).listing) (fun name ok => ok = (S kind).opens name) e := by
  constructor
  · intro w hw hc res v hres
    exact (yields_iff hres).mp ((h kind w hw hc).lists w (Std.Refl.refl w))
  · intro w hw hc names hnames name hn src v hsrc
    exact (yields_iff hsrc).mp
      ((h kind w hw hc).opens names hnames.symm name hn w (Std.Refl.refl w))

/-- How many devices of a kind open. -/
def usableCount (T : Snapshot) : Nat := (T.listing.getD []).countP T.opens

theorem supplies_iff {T : Snapshot} {n : Nat} : T.supplies n = .ok true ↔ n ≤ usableCount T := by
  unfold Snapshot.supplies usableCount
  by_cases hn : n = 0
  · simp [hn]
  · cases hl : T.listing with
    | none => simp [hn]
    | some names => simp [hn]

theorem both_iff {x y : Except Error Bool} : both x y = .ok true ↔ x = .ok true ∧ y = .ok true := by
  match x with
  | .ok true => simp [both]
  | .ok false => simp [both]
  | .error _ => simp [both]

/-- A pool can be opened exactly if it asks for no more devices than open. -/
theorem open_iff_usable {cfg : Config} (hv : cfg.validate = .ok ())
    (hS : ∀ kind, 0 < cfg.count kind → (S kind).Of P kind w) :
    Yields (Pool.open P cfg) w fun o _ => (∃ p, o = .ok p) ↔
      cfg.iso7816Cards ≤ usableCount (S .iso7816) ∧
        cfg.infnoiseDevices ≤ usableCount (S .infnoise) := by
  refine (open_agrees hv hS).mono fun o v ho => ?_
  rw [← ho.fillable, both_iff, supplies_iff, supplies_iff]

/-- From `e` on a process that has a context, if it needs one, can open the pool. -/
def Openable (P : Platform W) (e : W) (cfg : Config) : Prop :=
  ∀ w : World W, P.Leads e w.env → (0 < cfg.iso7816Cards → w.global.ctx.isSome = true) →
    Yields (Pool.open P cfg) w fun o _ => ∃ p, o = .ok p

theorem Steady.open {cfg : Config} (h : Steady P S e) (hv : cfg.validate = .ok ())
    (hw : P.Leads e w.env) (hc : 0 < cfg.iso7816Cards → w.global.ctx.isSome = true) :
    Yields (Pool.open P cfg) w fun o _ => (∃ p, o = .ok p) ↔
      cfg.iso7816Cards ≤ usableCount (S .iso7816) ∧
        cfg.infnoiseDevices ≤ usableCount (S .infnoise) := by
  refine open_iff_usable hv fun kind hk => h kind w hw ?_
  rintro rfl
  exact hc hk

/-- Some pool can be opened exactly if some device can. -/
theorem Steady.openable_iff (h : Steady P S e) :
    (∃ cfg : Config, cfg.validate = .ok () ∧ Openable P e cfg) ↔
      0 < usableCount (S .iso7816) + usableCount (S .infnoise) := by
  constructor
  · rintro ⟨cfg, hv, hopen⟩
    let w : World W := ⟨e, fun _ => 0, ⟨some ⟨0⟩, 1⟩, [], []⟩
    obtain ⟨o, v, ho, hok⟩ := hopen w .refl fun _ => rfl
    obtain ⟨hcards, hnodes⟩ := ((yields_iff ho).mp (h.open hv .refl fun _ => rfl)).mp hok
    have hsome : 0 < cfg.iso7816Cards + cfg.infnoiseDevices := Config.poolSize_pos hv
    omega
  · intro hpos
    by_cases hcards : 0 < usableCount (S .iso7816)
    · refine ⟨⟨1, 0, 32, 32⟩, rfl, fun w hw hc => ?_⟩
      exact (h.open rfl hw hc).mono fun o v ho => ho.mpr ⟨hcards, Nat.zero_le _⟩
    · refine ⟨⟨0, 1, 32, 32⟩, rfl, fun w hw hc => ?_⟩
      have hnodes : 1 ≤ usableCount (S .infnoise) := by omega
      exact (h.open rfl hw hc).mono fun o v ho => ho.mpr ⟨Nat.zero_le _, hnodes⟩

theorem toNat_usable {es : List Entry} (h : es.length < 2 ^ 32) :
    (UInt32.ofNat (usable es)).toNat = usable es := by
  have hle : usable es ≤ es.length := List.countP_le_length
  rw [UInt32.toNat_ofNat']
  omega

theorem exit_iff {cards nodes : List Entry} (h : cards.length + nodes.length < 2 ^ 32) :
    0 < UInt32.ofNat (usable cards) + UInt32.ofNat (usable nodes) ↔
      0 < usable cards + usable nodes := by
  have hcards : usable cards ≤ cards.length := List.countP_le_length
  have hnodes : usable nodes ≤ nodes.length := List.countP_le_length
  rw [UInt32.lt_iff_toNat_lt, UInt32.toNat_add, toNat_usable (by omega), toNat_usable (by omega)]
  have hsum : usable cards + usable nodes < 2 ^ 32 := by omega
  rw [Nat.mod_eq_of_lt hsum]
  rfl

/-- On a host whose devices stay as they are, the inventory tells which pools can be opened there:
those that ask for no more cards and generators than it shows as usable. -/
theorem inventory_foretells (hstatus : Harmless P status2) (hg : w.global = ⟨none, 0⟩)
    (hctx : P.Establishes w.env) (hS : Steady P S w.env)
    (hfew : ((S .iso7816).listing.getD []).length + ((S .infnoise).listing.getD []).length <
      2 ^ 32) :
    Yields (main P status2 a) w fun r v => v.global = ⟨none, 0⟩ ∧ (Tidy 0 w → Tidy 0 v) ∧
      ∃ (cards nodes : List Entry) (s s' : Survey) (complaint complaint' : String),
        cards.map Entry.name = (S .iso7816).listing.getD [] ∧
        nodes.map Entry.name = (S .infnoise).listing.getD [] ∧
        (∀ c ∈ cards, CardSeen P status2 w.env c ∧
          (c.status = .usable ↔ (S .iso7816).opens c.name = true)) ∧
        (∀ n ∈ nodes, NodeSeen P w.env n ∧
          (n.status = .usable ↔ (S .infnoise).opens n.name = true)) ∧
        s.total.toNat = cards.length ∧ s.usable.toNat = usable cards ∧
        s'.total.toNat = nodes.length ∧ s'.usable.toNat = usable nodes ∧
        r.2 = tabled a.quiet (S .iso7816).listing complaint [.out "iso7816 (PC/SC):"] cards ++
          tabled a.quiet (S .infnoise).listing complaint' ((if cards = [] then [] else [.out ""]) ++
            [.out "infnoise (/dev/infnoiseN):"]) nodes ++
          (if a.quiet then [] else [.out (summary s s')]) ∧
        (r.1 = 0 ↔ ∃ cfg : Config, cfg.validate = .ok () ∧ Openable P v.env cfg) ∧
        ∀ (cfg : Config) (u : World W), cfg.validate = .ok () → P.Leads v.env u.env →
          (0 < cfg.iso7816Cards → u.global.ctx.isSome = true) →
          Yields (Pool.open P cfg) u fun o _ => (∃ p, o = .ok p) ↔
            cfg.iso7816Cards ≤ usable cards ∧ cfg.infnoiseDevices ≤ usable nodes := by
  refine (main_yields hstatus hg (hS.known .iso7816) (hS.known .infnoise)).mono fun r v hr => ?_
  obtain ⟨hv, hwv, htidy, listing, cards, listing', nodes, s, s', hlisting, rfl, hsaid⟩ := hr
  obtain rfl := hlisting.resolve_left fun h => h.2 hctx
  have hS := hS.later hwv
  obtain ⟨complaint, hlines⟩ := hsaid.cards.lines
  obtain ⟨complaint', hlines'⟩ := hsaid.nodes.lines
  have hnames := hsaid.cards.probed.names
  have hnames' := hsaid.nodes.probed.names
  have hlen := congrArg List.length hnames
  have hlen' := congrArg List.length hnames'
  rw [List.length_map] at hlen hlen'
  have hopens : usable cards = usableCount (S .iso7816) := usable_eq hsaid.cards.probed
  have hopens' : usable nodes = usableCount (S .infnoise) := usable_eq hsaid.nodes.probed
  have htotal : s.total.toNat = cards.length := by
    rw [hsaid.cards.total, UInt32.toNat_ofNat']
    omega
  refine ⟨hv, htidy, cards, nodes, s, s', complaint, complaint', hnames, hnames', ?_, ?_, htotal,
    ?_, ?_, ?_, ?_, ?_, ?_⟩
  · intro c hc
    have hopen := hsaid.cards.probed.opened c hc
    exact ⟨hsaid.cards.probed.seen c hc, by rw [← hopen, decide_eq_true_iff]⟩
  · intro n hn
    have hopen := hsaid.nodes.probed.opened n hn
    exact ⟨hsaid.nodes.probed.seen n hn, by rw [← hopen, decide_eq_true_iff]⟩
  · rw [hsaid.cards.usable, toNat_usable (by omega)]
  · rw [hsaid.nodes.total, UInt32.toNat_ofNat']
    omega
  · rw [hsaid.nodes.usable, toNat_usable (by omega)]
  · have hsome : s.total > 0 ↔ ¬ cards = [] := by
      rw [gt_iff_lt, UInt32.lt_iff_toNat_lt, htotal, ← List.length_eq_zero_iff]
      exact Nat.pos_iff_ne_zero
    rw [hsaid.lines, hlines, hlines']
    simp only [hsome, ite_not]
  · rw [hS.openable_iff, ← hopens, ← hopens', ← exit_iff (by omega), hsaid.code,
      hsaid.cards.usable, hsaid.nodes.usable]
    split <;> simp_all
  · intro cfg u hvalid hu hc
    rw [hopens, hopens']
    exact hS.open hvalid hu hc

end Tools.Inventory

namespace Bench

variable {b : Bench} {w : World Unit}

/-- The cards of a bench: all of them answer. -/
def cards (b : Bench) : Snapshot where
  listing := some b.readers
  opens name := !name.toList.contains (Char.ofNat 0)

theorem open_reader {name : String} (hc : w.global.ctx.isSome = true) :
    Yields (SlotKind.iso7816.openSource b.machine name) w fun src _ =>
      src.isSome = b.cards.opens name := by
  cases hname : name.toList.contains (Char.ofNat 0) with
  | false =>
    obtain ⟨src, v, hsrc, rfl⟩ := open_card (b := b) hname hc
    exact ⟨_, v, hsrc, by simpa [cards] using hname⟩
  | true =>
    have hopen : Iso7816.openSource b.machine name w = some (.error .transport, w) := by
      rw [Iso7816.openSource, if_pos hname]
      rfl
    exact ⟨_, w, bind_of_eq hopen, by simpa [cards] using hname⟩

theorem cards_of (hc : w.global.ctx.isSome = true) : b.cards.Of b.machine .iso7816 w := by
  constructor
  · intro v hv
    rw [← hv.global] at hc
    obtain ⟨c, hctx⟩ := Option.isSome_iff_exists.mp hc
    obtain ⟨res, u, hl, rfl⟩ := list_iso7816 (b := b) hctx
    exact ⟨_, u, hl, rfl⟩
  · intro _ _ name _ v hv
    rw [← hv.global] at hc
    exact open_reader hc

/-- The row of a card of a bench has the ATR that SCardStatus answers. -/
theorem row_of {bytes : List UInt8} {c : Tools.Inventory.Entry} (hne : bytes ≠ [])
    (h : Tools.Inventory.CardSeen b.machine (fun _ => pure (.ok bytes)) () c)
    (hname : Char.ofNat 0 ∉ c.name.toList) (hc : c.status = .usable) :
    c = ⟨.iso7816, c.name, .usable, some bytes⟩ := by
  obtain ⟨w, w', v, opened, _, hctx, hopen, hof, hlater, hreports, _⟩ := h.probed
  have htotal : Total (Does b.machine fun _ => True) (Iso7816.openSource b.machine c.name) :=
    Iso7816.openSource_total fun _ _ => trivial
  obtain ⟨_, _, hopen', hdoes⟩ := htotal w
  rw [hopen] at hopen'
  cases hopen'
  rw [← hdoes.global, ← hlater.global] at hctx
  obtain ⟨env, sched, ⟨ctx, refs⟩, trace, log⟩ := v
  obtain ⟨ctx, rfl⟩ := Option.isSome_iff_exists.mp hctx
  have hatr : c.atr = some bytes :=
    (hreports (.inl (hof.usable.mp hc)) bytes).mpr ⟨hne, hname, _, _, _, rfl, rfl⟩
  rw [← h.kind, ← hc, ← hatr]

/-- The devices of a bench stay as they are. -/
theorem steady (b : Bench) :
    Tools.Inventory.Steady b.machine (fun kind => match kind with
      | .iso7816 => b.cards
      | .infnoise => b.snapshot) () := by
  intro kind w _ hc
  cases kind with
  | iso7816 => exact cards_of (hc rfl)
  | infnoise => exact b.snapshot_of w

end Bench

namespace Tools.Inventory

/-- One card and no generator: a pool of the card can be opened, and none of two cards. -/
theorem inventory_foretells_smartcard :
    Yields (main Bench.smartcard.machine (fun _ => pure (.ok [0x3B, 0x00])) ⟨false, false⟩)
      (Bench.start none) fun r v => r.1 = 0 ∧
        r.2 = [.out "iso7816 (PC/SC):", .out "  [usable  ] reader 0  (ATR=3B 00)",
          .out "\nsummary: iso7816 1/1 usable, infnoise 0/0 usable"] ∧
        Yields (Pool.open Bench.smartcard.machine Bench.oneCard) { v with global := ⟨some ⟨0⟩, 1⟩ }
          (fun o _ => ∃ p, o = .ok p) ∧
        Yields (Pool.open Bench.smartcard.machine ⟨2, 0, 32, 32⟩)
          { v with global := ⟨some ⟨0⟩, 1⟩ } fun o _ => ¬ ∃ p, o = .ok p := by
  have hstatus : Harmless Bench.smartcard.machine fun _ => pure (.ok [0x3B, 0x00]) :=
    fun _ => total_pure _
  obtain ⟨r, v, hr, _, _, cards, nodes, s, s', complaint, complaint', hcards, hnodes, hseen, _,
      htotal, husable, htotal', husable', hlines, hcode, hopens⟩ :=
    inventory_foretells (a := ⟨false, false⟩) (w := Bench.start none) hstatus rfl ⟨⟨0⟩, rfl⟩
      Bench.smartcard.steady (by decide)
  obtain rfl : nodes = [] := List.map_eq_nil_iff.mp hnodes
  have hone : cards.map Entry.name = ["reader 0"] := hcards
  obtain ⟨c, rfl⟩ := List.length_eq_one_iff.mp (by simpa using congrArg List.length hone)
  obtain ⟨hname, _⟩ := List.cons.inj hone
  obtain ⟨hc, hiff⟩ := hseen c List.mem_cons_self
  have hstat : c.status = .usable := by
    rw [hiff, hname]
    decide
  have hrow := Bench.row_of (by simp) hc (by rw [hname]; decide) hstat
  rw [hname] at hrow
  have hcount : usable [c] = 1 := by simp [usable, hstat]
  let u : World Unit := { v with global := ⟨some ⟨0⟩, 1⟩ }
  refine ⟨r, v, hr, hcode.mpr ⟨Bench.oneCard, rfl, fun u hu hc => ?_⟩, ?_, ?_, ?_⟩
  · refine (hopens Bench.oneCard u rfl hu hc).mono fun o x ho => ho.mpr ⟨?_, Nat.zero_le _⟩
    exact hcount.ge
  · have hsum : summary s s' = "\nsummary: iso7816 1/1 usable, infnoise 0/0 usable" := by
      obtain ⟨total, usable, _⟩ := s
      obtain ⟨total', usable', _⟩ := s'
      obtain rfl : total = 1 := UInt32.toNat_inj.mp htotal
      obtain rfl : usable = 1 := UInt32.toNat_inj.mp (husable.trans hcount)
      obtain rfl : total' = 0 := UInt32.toNat_inj.mp htotal'
      obtain rfl : usable' = 0 := UInt32.toNat_inj.mp husable'
      rw [summary, if_neg (by simp)]
      dsimp only
      decide
    rw [hlines, hsum, hrow]
    rfl
  · refine (hopens Bench.oneCard u rfl .refl fun _ => rfl).mono fun o x ho => ho.mpr ⟨?_, ?_⟩
    · exact hcount.ge
    · exact Nat.zero_le _
  · refine (hopens ⟨2, 0, 32, 32⟩ u rfl .refl fun _ => rfl).mono fun o x ho => ?_
    rw [ho, hcount]
    rintro ⟨htwo, _⟩
    exact absurd htwo (by decide)

end Tools.Inventory
end P11Rand
