import P11Rand.Handles

/-! The sessions of a module run: which one each read was made on, and what it was given. -/
namespace P11Rand

open Effect Run

variable {W : Type} {P : Platform W} {w w' v v' : World W} {cfg : Config} {m m' : Module} {rv : Rv}
  {h : CkUlong} {p p' : Pool} {buf buf' : List UInt8} {res : Except Error Unit}
  {evs : List PoolEvent}

/-- A read from a session, the sessions being numbered as they were opened: what it added to the
pool log, and the caller's buffer before and after it. -/
structure Draw where
  session : Nat
  ok : Bool
  events : List PoolEvent
  asked : List UInt8
  given : List UInt8

/-- What a run of the module has opened and read; `who` is the number of the session that a live
handle stands for. -/
structure Books where
  opened : Nat
  who : CkUlong → Nat
  draws : List Draw

/-- The reads of one session. -/
def ownDraws (draws : List Draw) (k : Nat) : List Draw := draws.filter fun d => d.session = k

/-- The log as it would be with the reads of one session alone. -/
def ownLog (draws : List Draw) (k : Nat) : List PoolEvent :=
  (ownDraws draws k).flatMap Draw.events

/-- The call opens no session and reads from none. -/
def Call.Plain (m : Module) (rv : Rv) : Call → Prop
  | .cOpenSession _ _ _ => rv ≠ .ok
  | .cGenerateRandom h buf len => buf = none ∧ 0 < len ∨ m.findSession h = none
  | _ => True

/-- A run of the module, with its books. -/
inductive BookedRun (P : Platform W) (cfg : Config) : Books → Module → World W → Prop
  | started {w : World W} : w.global = ⟨none, 0⟩ → w.trace = [] → w.log = [] →
      BookedRun P cfg ⟨0, fun _ => 0, []⟩ Module.new w
  | elapsed {b : Books} {m : Module} {w w' : World W} : BookedRun P cfg b m w →
      w'.global = w.global → w'.trace = w.trace → w'.log = w.log → BookedRun P cfg b m w'
  | opened {b : Books} {m m' : Module} {w w' : World W} {slot flags h : CkUlong}
      {phSession : Option CkUlong} : BookedRun P cfg b m w →
      m.cOpenSession P cfg slot flags phSession w = some ((.ok, m', some h), w') →
      BookedRun P cfg ⟨b.opened + 1, Function.update b.who h b.opened, b.draws⟩ m' w'
  | drew {b : Books} {m m' : Module} {w w' : World W} {h len : CkUlong}
      {buf buf' : Option (List UInt8)} {rv : Rv} {evs : List PoolEvent} :
      BookedRun P cfg b m w → ¬ (buf = none ∧ 0 < len) → m.findSession h ≠ none →
      m.cGenerateRandom P h buf len w = some ((rv, m', buf'), w') → w'.log = w.log ++ evs →
      BookedRun P cfg { b with draws := b.draws ++ [⟨b.who h, rv = .ok, evs,
        (buf.getD []).take len.toNat, (buf'.getD []).take len.toNat⟩] } m' w'
  | called {b : Books} {m m' : Module} {w w' : World W} {c : Call} {rv : Rv} :
      BookedRun P cfg b m w → c.Plain m rv → c.run P cfg m w = some ((rv, m'), w') →
      BookedRun P cfg b m' w'

/-- The pool log has not grown. -/
def SameLog (w w' : World W) : Prop := w'.log = w.log

instance : IsPreorder (World W) SameLog where
  refl _ := rfl
  trans _ _ _ h h' := Eq.trans h' h

theorem Does.sameLog {A : Exchange → Prop} (h : Does P A w w') : SameLog w w' := h.log

theorem request_sameLog (q : Request) : Within SameLog (request P q) := by
  intro w ans w' h
  rw [request_apply] at h
  cases h
  rfl

theorem setGlobal_sameLog (g : Global) : Within SameLog (setGlobal g : Run (World W) Unit) := by
  intro w _ w' h
  cases h
  rfl

theorem get_sameLog : Within SameLog (Run.get : Run (World W) (World W)) := by
  intro w _ w' h
  cases h
  rfl

theorem globalInit_sameLog (cfg : Config) : Within SameLog (globalInit P cfg) := by
  unfold globalInit
  split
  · refine within_bind (within_bind get_sameLog fun u => ?_) fun _ => within_pure _
    dsimp only
    split
    · exact within_bind (setGlobal_sameLog _) fun _ => within_pure _
    · refine within_bind (request_sameLog _) fun ans => ?_
      cases ans with
      | error _ => exact within_pure _
      | ok ctx => exact within_bind (setGlobal_sameLog _) fun _ => within_pure _
  · exact within_pure _

theorem globalShutdown_sameLog (cfg : Config) : Within SameLog (globalShutdown P cfg) := by
  unfold globalShutdown
  split
  · refine within_bind get_sameLog fun u => ?_
    dsimp only
    split
    · exact within_pure _
    split
    · cases u.global.ctx with
      | none => exact setGlobal_sameLog _
      | some ctx => exact within_bind (request_sameLog _) fun _ => setGlobal_sameLog _
    · exact setGlobal_sameLog _
  · exact within_pure _

theorem cInitialize_sameLog (args : Option InitArgs) :
    Within SameLog (m.cInitialize P cfg args) := by
  unfold Module.cInitialize
  split
  · exact within_pure _
  split
  · exact within_pure _
  refine within_bind (globalInit_sameLog cfg) fun r => ?_
  cases r with
  | error _ => exact within_pure _
  | ok _ =>
    refine within_bind ((fillable_total cfg).mono fun _ _ => Does.sameLog).within fun r => ?_
    cases r with
    | error _ => exact within_bind (globalShutdown_sameLog cfg) fun _ => within_pure _
    | ok _ =>
      exact within_bind ((sweep_total _ _).mono fun _ _ => Does.sameLog).within
        fun _ => within_pure _

theorem cFinalize_sameLog (reserved : Bool) : Within SameLog (m.cFinalize P cfg reserved) := by
  unfold Module.cFinalize
  split
  · exact within_pure _
  split
  · exact within_pure _
  refine within_bind ((sweep_total _ _).mono fun _ _ => Does.sameLog).within fun _ => ?_
  exact within_bind (globalShutdown_sameLog cfg) fun _ => within_pure _

/-- The session that a handle stands for. -/
def Module.session (m : Module) (h : CkUlong) : Option Session :=
  HandleTable.find m.sessions h.toNat

/-- The sessions of the second module are the first one's, as they were. -/
def Module.Keeps (m m' : Module) : Prop :=
  ∀ (h : CkUlong) (s : Session), m'.session h = some s → m.session h = some s

theorem keeps_rfl (m : Module) : m.Keeps m := fun _ _ hs => hs

theorem keeps_cleared (f : Session → Bool) {initialized : Bool} {slots : List SlotState} :
    m.Keeps ⟨initialized, slots, cleared f m.sessions⟩ := by
  intro h s hs
  rw [Module.session, cleared, HandleTable.find_filter, Option.filter_eq_some_iff] at hs
  exact hs.1

theorem keeps_set_none {i : Nat} (hi : i < m.sessions.length) :
    m.Keeps { m with sessions := m.sessions.set i none } := by
  intro h s hs
  rw [Module.session, HandleTable.find_set hi] at hs
  split at hs
  · cases hs
  · exact hs

theorem session_of_found (hf : m.findSession h = some (h.toNat - 1)) {s : Session}
    (hs : m.sessions[h.toNat - 1]? = some (some s)) : m.session h = some s := by
  obtain ⟨hz, _⟩ := Module.findSession_cases hf
  have hne : h.toNat ≠ 0 := fun heq => hz (UInt64.toNat_inj.mp heq)
  simp [Module.session, HandleTable.find, hne, hs]

theorem session_mem {s : Session} (hs : m.session h = some s) : some s ∈ m.sessions := by
  unfold Module.session HandleTable.find at hs
  split at hs
  · cases hs
  · exact List.mem_of_getElem? (Option.join_eq_some_iff.mp hs)

theorem found_of_session {s : Session} (hs : m.session h = some s) : m.findSession h ≠ none := by
  have hs' : HandleTable.find m.sessions h.toNat = some s := hs
  simp [Module.findSession_eq, hs']

/-- Writing an entry of the table changes what its handle stands for. -/
theorem session_set {idx : Nat} (htable : m.sessions.length = maxSessions)
    (hidx : idx < m.sessions.length) (slots : List SlotState) (e : Option Session) :
    Module.session { m with slots, sessions := m.sessions.set idx e } =
      Function.update m.session (UInt64.ofNat (idx + 1)) e := by
  funext h
  have h64 : idx < 64 := hidx.trans_eq htable
  rw [Module.session, HandleTable.find_set hidx, Function.update_apply]
  simp only [toNat_eq_iff h64]
  rfl

/-- A plain call logs nothing and leaves the sessions that it does not end alone. -/
theorem Call.plain_spec {c : Call} (hplain : c.Plain m rv)
    (hc : c.run P cfg m w = some ((rv, m'), w')) : SameLog w w' ∧ m.Keeps m' := by
  cases c with
  | cInitialize args =>
    refine ⟨cInitialize_sameLog args _ _ _ hc, ?_⟩
    rcases Module.cInitialize_spec hc with ⟨_, rfl, _⟩ | ⟨_, _, ⟨present, rfl⟩, _⟩
    · exact keeps_rfl _
    · exact keeps_cleared _
  | cFinalize reserved =>
    refine ⟨cFinalize_sameLog reserved _ _ _ hc, ?_⟩
    rcases Module.cFinalize_spec hc with ⟨_, rfl, _⟩ | ⟨_, _, rfl, _⟩
    · exact keeps_rfl _
    · exact keeps_cleared _
  | cOpenSession slot flags phSession =>
    obtain ⟨⟨_, _, _⟩, _, hc, he⟩ := bind_eq_some.mp hc
    cases he
    obtain ⟨hd, ⟨_, slots, rfl⟩ | ⟨hok, _⟩⟩ := Module.cOpenSession_spec hc
    · exact ⟨hd.sameLog, keeps_rfl _⟩
    · exact absurd hok hplain
  | cCloseSession h =>
    rcases Module.cCloseSession_cases hc with ⟨rfl, rfl, _⟩ | ⟨s, _, _, hs, rfl, hdrop⟩
    · exact ⟨rfl, keeps_rfl _⟩
    · have hd : Does P (fun _ => True) w w' := (dropSlots_total _).within _ _ _ hdrop
      exact ⟨hd.sameLog, keeps_set_none (List.getElem?_eq_some_iff.mp hs).1⟩
  | cCloseAllSessions slot =>
    obtain ⟨hd, ⟨_, rfl⟩ | ⟨_, _, rfl⟩⟩ := Module.cCloseAllSessions_spec hc
    · exact ⟨hd.sameLog, keeps_rfl _⟩
    · exact ⟨hd.sameLog, keeps_cleared _⟩
  | cGenerateRandom h buf len =>
    obtain ⟨⟨_, _, _⟩, _, hc, he⟩ := bind_eq_some.mp hc
    cases he
    rcases hplain with ⟨rfl, hlen⟩ | hnone
    · unfold Module.cGenerateRandom at hc
      rw [if_pos ⟨rfl, hlen⟩] at hc
      cases hc
      exact ⟨rfl, keeps_rfl _⟩
    · rcases Module.cGenerateRandom_spec hc with ⟨rfl, rfl, _⟩ | ⟨_, _, _, _, _, hf, _⟩
      · exact ⟨rfl, keeps_rfl _⟩
      · rw [hnone] at hf
        cases hf
  | cGetSlotList tokenPresent pList pCount =>
    obtain ⟨⟨_, rfl⟩, hd⟩ :=
      Call.queries_spec (c := .cGetSlotList tokenPresent pList pCount) trivial hc
    exact ⟨hd.sameLog, keeps_rfl _⟩
  | cGetSlotInfo slot pInfo =>
    obtain ⟨⟨_, rfl⟩, hd⟩ := Call.queries_spec (c := .cGetSlotInfo slot pInfo) trivial hc
    exact ⟨hd.sameLog, keeps_rfl _⟩
  | cGetTokenInfo slot pInfo =>
    obtain ⟨⟨_, rfl⟩, hd⟩ := Call.queries_spec (c := .cGetTokenInfo slot pInfo) trivial hc
    exact ⟨hd.sameLog, keeps_rfl _⟩

/-- The read was given the outputs of the rounds in order. One that failed was given whole rounds,
and the rest of its buffer was left as it was. -/
def Draw.Takes (d : Draw) (rs : List Round) : Prop :=
  if d.ok then
    rs.length = (d.asked.length + 31) / roundBytes ∧ d.given = (outputs rs).take d.asked.length
  else
    roundBytes * rs.length < d.asked.length ∧
      d.given = outputs rs ++ d.asked.drop (roundBytes * rs.length)

theorem Pool.read_length (hok : SlotsOk p.config p.slots)
    (h : p.read P buf w = some ((res, p', buf'), w')) : buf'.length = buf.length := by
  cases hc : p.config.useChain with
  | false =>
    obtain ⟨_, _, _, _, _, _, hlen, _⟩ := read_passthrough_cases hok hc h
    exact hlen
  | true =>
    obtain ⟨rs, _, _, _, _, _, _, hdel⟩ := read_chain_cases hok.length_eq hc h
    have hout : (outputs rs).length = roundBytes * rs.length := by
      simp [outputs, List.length_flatMap, Nat.mul_comm]
    cases hdel with
    | all hlen =>
      simp only [List.nil_append, List.length_take, hout, hlen, roundBytes]
      omega
    | some hlt _ =>
      simp only [List.nil_append, List.length_append, List.length_drop, hout]
      omega

theorem Pool.read_log (hok : SlotsOk p.config p.slots)
    (h : p.read P buf w = some ((res, p', buf'), w')) : ∃ evs, w'.log = w.log ++ evs := by
  cases hc : p.config.useChain with
  | false =>
    obtain ⟨_, _, evs, _, _, hlog, _⟩ := read_passthrough_cases hok hc h
    exact ⟨evs, hlog⟩
  | true =>
    obtain ⟨_, _, hlog, _⟩ := read_chain_cases hok.length_eq hc h
    exact ⟨_, hlog.trans (List.append_assoc ..)⟩

/-- What a read adds to the history of its pool, whatever other pools have logged. -/
theorem History.read (hh : History P cfg p v) (hread : p.read P buf w = some ((res, p', buf'), w'))
    (hlog : w'.log = w.log ++ evs) (hv : v'.log = v.log ++ evs) (k : Nat) :
    History P cfg p' v' ∧ ∃ rs, completed v'.log = completed v.log ++ rs ∧
      (cfg.useChain = true → Draw.Takes ⟨k, res = .ok (), evs, buf, buf'⟩ rs) := by
  have hok : SlotsOk p.config p.slots := hh.config ▸ hh.slots
  cases hc : cfg.useChain with
  | true =>
    obtain ⟨rs, tail, hlog', _, hev, hlink, hrs, hdel⟩ :=
      read_chain_cases hok.length_eq (hh.config ▸ hc) hread
    obtain rfl : delivery rs buf.length ++ tail = evs := by
      rw [hlog', List.append_assoc] at hlog
      exact List.append_cancel_left hlog
    obtain ⟨hcomp, hcopies⟩ := scan_delivery (fun r hr => (hrs r hr).1) hdel
      (by rw [hv, List.append_assoc] : v'.log = v.log ++ delivery rs buf.length ++ tail)
    refine ⟨⟨hev.config.trans hh.config, hh.valid, hev.slotsOk hh.slots, ?_, ?_,
      hcopies hh.copies⟩, rs, hcomp, fun _ => ?_⟩
    · rw [hcomp]
      exact hh.linked.append hlink
    · intro r hr
      rw [hcomp, List.mem_append] at hr
      exact hr.elim (hh.rounds r) fun hr => hh.config ▸ (hrs r hr).1
    · cases hdel with
      | all hlen => simpa [Draw.Takes] using hlen
      | some hlt _ => simpa [Draw.Takes] using hlt
  | false =>
    obtain ⟨s, s', tail, _, rfl, hlog', _, hev, _, hpass⟩ :=
      read_passthrough_cases hok (hh.config ▸ hc) hread
    obtain rfl : tail = evs := List.append_cancel_left (hlog'.symm.trans hlog)
    obtain ⟨hrounds, hcopies⟩ := Scan.foldl_passed (Scan.all v.log) hpass
    rw [← scan_append, ← hv] at hrounds hcopies
    refine ⟨⟨hev.config.trans hh.config, hh.valid, hev.slotsOk hh.slots, ?_, ?_, ?_⟩, [],
      by rw [completed, hrounds, List.append_nil]; rfl, fun h => by cases h⟩
    · rw [completed, hrounds]
      exact hh.linked
    · rw [completed, hrounds]
      exact hh.rounds
    · obtain ⟨hord, hpre⟩ := hh.copies
      exact ⟨hcopies ▸ hord, hcopies ▸ hrounds ▸ hpre⟩

/-- What the reads of one session have left of its pool. -/
structure Chronicle (P : Platform W) (cfg : Config) (p : Pool) (ds : List Draw) : Prop where
  history : ∀ v : World W, v.log = ds.flatMap Draw.events → History P cfg p v
  takes : cfg.useChain = true → ∃ parts,
    completed (ds.flatMap Draw.events) = parts.flatten ∧ List.Forall₂ Draw.Takes ds parts

theorem Chronicle.opened (h : Pool.open P cfg w = some (.ok p, w')) : Chronicle P cfg p [] := by
  obtain ⟨hvalid, hconfig, hstate, hok, _⟩ := Pool.open_cases h
  constructor
  · intro v hv
    have hnil : v.log = [] := hv
    exact ⟨hconfig, hvalid, hok, hnil ▸ hstate, by simp [hnil, completed, Scan.all],
      hnil ▸ ⟨.nil, by simp [Scan.all]⟩⟩
  · exact fun _ => ⟨[], rfl, .nil⟩

theorem Chronicle.read {ds : List Draw} (h : Chronicle P cfg p ds)
    (hread : p.read P buf w = some ((res, p', buf'), w')) (hlog : w'.log = w.log ++ evs) (k : Nat) :
    Chronicle P cfg p' (ds ++ [⟨k, res = .ok (), evs, buf, buf'⟩]) := by
  constructor
  · intro v hv
    exact (History.read (h.history { w with log := ds.flatMap Draw.events } rfl) hread hlog
      (by simpa using hv) k).1
  · intro hc
    let d : Draw := ⟨k, res = .ok (), evs, buf, buf'⟩
    let v : World W := { w with log := (ds ++ [d]).flatMap Draw.events }
    have hv : v.log = ds.flatMap Draw.events ++ evs := by simp [v, d]
    obtain ⟨_, rs, hcomp, htakes⟩ :=
      History.read (h.history { w with log := ds.flatMap Draw.events } rfl) hread hlog hv k
    obtain ⟨parts, hparts, hall⟩ := h.takes hc
    refine ⟨parts ++ [rs], ?_, List.rel_append hall (.cons (htakes hc) .nil)⟩
    rw [List.flatten_append, ← hparts, List.flatten_singleton]
    exact hcomp

/-- What holds of the books between any two calls. -/
structure Books.Ok (P : Platform W) (cfg : Config) (b : Books) (m : Module) (w : World W) :
    Prop where
  log : w.log = b.draws.flatMap Draw.events
  drawn : ∀ d ∈ b.draws, d.session < b.opened
  past : ∀ k < b.opened, ∃ p, Chronicle P cfg p (ownDraws b.draws k)
  live : ∀ (h : CkUlong) (s : Session), m.session h = some s →
    b.who h < b.opened ∧ Chronicle P cfg s.pool (ownDraws b.draws (b.who h))
  apart : ∀ (h h' : CkUlong) (s s' : Session), m.session h = some s → m.session h' = some s' →
    b.who h = b.who h' → h = h'

variable {b : Books}

theorem Books.Ok.keeps (hb : b.Ok P cfg m w) (hlog : w'.log = w.log) (hkeeps : m.Keeps m') :
    b.Ok P cfg m' w' :=
  ⟨hlog.trans hb.log, hb.drawn, hb.past, fun h s hs => hb.live h s (hkeeps h s hs),
    fun h h' s s' hs hs' => hb.apart h h' s s' (hkeeps h s hs) (hkeeps h' s' hs')⟩

theorem Books.Ok.unread (hb : b.Ok P cfg m w) : ownDraws b.draws b.opened = [] := by
  rw [ownDraws, List.filter_eq_nil_iff]
  intro d hd
  have hlt := hb.drawn d hd
  simpa using hlt.ne

/-- Opening a session begins a new chronicle. -/
theorem Books.Ok.opened {s : Session} (hb : b.Ok P cfg m w) (hlog : w'.log = w.log)
    (hopen : Pool.open P cfg w = some (.ok s.pool, w'))
    (hm : m'.session = Function.update m.session h (some s)) :
    Books.Ok P cfg ⟨b.opened + 1, Function.update b.who h b.opened, b.draws⟩ m' w' := by
  have hnew : Chronicle P cfg s.pool (ownDraws b.draws b.opened) := by
    rw [hb.unread]
    exact .opened hopen
  refine ⟨hlog.trans hb.log, fun d hd => (hb.drawn d hd).trans b.opened.lt_succ_self, ?_, ?_, ?_⟩
  · intro k hk
    rcases Nat.lt_succ_iff_lt_or_eq.mp hk with hk | rfl
    · exact hb.past k hk
    · exact ⟨_, hnew⟩
  · intro h' s' hs'
    dsimp only
    rw [hm] at hs'
    rcases eq_or_ne h' h with rfl | hne
    · rw [Function.update_self] at hs' ⊢
      cases hs'
      exact ⟨b.opened.lt_succ_self, hnew⟩
    · rw [Function.update_of_ne hne] at hs' ⊢
      obtain ⟨hlt, hchron⟩ := hb.live h' s' hs'
      exact ⟨hlt.trans b.opened.lt_succ_self, hchron⟩
  · intro h₁ h₂ s₁ s₂ hs₁ hs₂ heq
    rw [hm] at hs₁ hs₂
    dsimp only at heq
    by_cases hne₁ : h₁ = h <;> by_cases hne₂ : h₂ = h
    · rw [hne₁, hne₂]
    · subst hne₁
      rw [Function.update_of_ne hne₂] at hs₂
      rw [Function.update_self, Function.update_of_ne hne₂] at heq
      exact absurd heq (hb.live h₂ s₂ hs₂).1.ne'
    · subst hne₂
      rw [Function.update_of_ne hne₁] at hs₁
      rw [Function.update_self, Function.update_of_ne hne₁] at heq
      exact absurd heq (hb.live h₁ s₁ hs₁).1.ne
    · rw [Function.update_of_ne hne₁] at hs₁ heq
      rw [Function.update_of_ne hne₂] at hs₂ heq
      exact hb.apart h₁ h₂ s₁ s₂ hs₁ hs₂ heq

theorem ownDraws_snoc (ds : List Draw) (d : Draw) (k : Nat) :
    ownDraws (ds ++ [d]) k = if d.session = k then ownDraws ds k ++ [d] else ownDraws ds k := by
  by_cases hk : d.session = k <;> simp [ownDraws, List.filter_append, hk]

/-- A read adds to the chronicle of its own session, and to no other. -/
theorem Books.Ok.drew {s : Session} (hb : b.Ok P cfg m w) (hs : m.session h = some s)
    (hread : s.pool.read P buf w = some ((res, p', buf'), w')) (hlog : w'.log = w.log ++ evs)
    (hm : m'.session = Function.update m.session h (some { s with pool := p' })) :
    Books.Ok P cfg { b with draws := b.draws ++ [⟨b.who h, res = .ok (), evs, buf, buf'⟩] }
      m' w' := by
  obtain ⟨hlt, hchron⟩ := hb.live h s hs
  have hnew := hchron.read hread hlog (b.who h)
  refine ⟨?_, ?_, ?_, ?_, ?_⟩
  · rw [hlog, hb.log]
    simp
  · intro d hd
    rcases List.mem_append.mp hd with hd | hd
    · exact hb.drawn d hd
    · obtain rfl := List.mem_singleton.mp hd
      exact hlt
  · intro k hk
    rw [ownDraws_snoc]
    dsimp only
    split
    · rename_i heq
      subst heq
      exact ⟨_, hnew⟩
    · exact hb.past k hk
  · intro h' s' hs'
    rw [hm] at hs'
    rw [ownDraws_snoc]
    dsimp only
    rcases eq_or_ne h' h with rfl | hne
    · rw [Function.update_self] at hs'
      cases hs'
      rw [if_pos rfl]
      exact ⟨hlt, hnew⟩
    · rw [Function.update_of_ne hne] at hs'
      rw [if_neg fun heq => hne (hb.apart h' h s' s hs' hs heq.symm)]
      exact hb.live h' s' hs'
  · intro h₁ h₂ s₁ s₂ hs₁ hs₂ heq
    -- the same handles are live as before
    have hbefore : ∀ (h' : CkUlong) (s' : Session), m'.session h' = some s' →
        ∃ s'', m.session h' = some s'' := by
      intro h' s' hs'
      rw [hm] at hs'
      rcases eq_or_ne h' h with rfl | hne
      · exact ⟨s, hs⟩
      · exact ⟨s', by rwa [Function.update_of_ne hne] at hs'⟩
    obtain ⟨s₁', hs₁'⟩ := hbefore h₁ s₁ hs₁
    obtain ⟨s₂', hs₂'⟩ := hbefore h₂ s₂ hs₂
    exact hb.apart h₁ h₂ s₁' s₂' hs₁' hs₂' heq

/-- A call that comes to a session reads into the part of the buffer that it was given. -/
theorem Module.cGenerateRandom_drew {buf buf' : Option (List UInt8)} {len : CkUlong}
    (hi : m.Inv cfg) (hok : ∀ s, some s ∈ m.sessions → s.Inv cfg)
    (hnull : ¬ (buf = none ∧ 0 < len)) (hf : m.findSession h ≠ none)
    (hc : m.cGenerateRandom P h buf len w = some ((rv, m', buf'), w')) :
    ∃ s res pool, m.session h = some s ∧
      s.pool.read P ((buf.getD []).take len.toNat) w =
        some ((res, pool, (buf'.getD []).take len.toNat), w') ∧
      m'.session = Function.update m.session h (some { s with pool }) ∧
      rv = if res = .ok () then .ok else .deviceError := by
  obtain ⟨idx, hidx⟩ := Option.ne_none_iff_exists'.mp hf
  obtain ⟨_, rfl, s, hs⟩ := findSession_cases hidx
  have hinit : m.initialized = true := by
    by_contra hno
    cases (hi.idle (by simpa using hno)).2 _ (List.mem_of_getElem? hs)
  unfold cGenerateRandom at hc
  rw [if_neg (by simpa using hnull), if_neg (by simp [hinit]), hidx] at hc
  dsimp only at hc
  rw [hs] at hc
  obtain ⟨⟨res, pool, slice⟩, v, hread, hc⟩ := bind_eq_some.mp hc
  have hs_inv := hok s (List.mem_of_getElem? hs)
  have hlen := Pool.read_length (hs_inv.config ▸ hs_inv.slots) hread
  have hset := session_set hi.table (List.getElem?_eq_some_iff.mp hs).1 m.slots
    (some { s with pool })
  rw [handle_of_found hidx] at hset
  -- the slice has the length of the part that was asked for, so it is that part afterwards
  have hslice : slice = ((buf.map fun b => slice ++ b.drop len.toNat).getD []).take len.toNat := by
    cases buf with
    | none => simpa using hlen
    | some b =>
      simp only [Option.getD_some, List.length_take] at hlen
      rw [Option.map_some, Option.getD_some, List.take_append, List.take_of_length_le (by omega)]
      have hrest : (b.drop len.toNat).take (len.toNat - slice.length) = [] := by
        simp only [List.take_eq_nil_iff, List.drop_eq_nil_iff]
        omega
      rw [hrest, List.append_nil]
  refine ⟨s, res, pool, session_of_found hidx hs, ?_⟩
  cases res with
  | error e =>
    cases hc
    exact ⟨hslice ▸ hread, hset, by simp⟩
  | ok _ =>
    cases hc
    exact ⟨hslice ▸ hread, hset, by simp⟩

theorem BookedRun.run (hrun : BookedRun P cfg b m w) : ModuleRun P cfg m w := by
  induction hrun with
  | started hg ht hl => exact .started hg ht hl
  | elapsed _ hg ht hl ih => exact .elapsed ih hg ht hl
  | opened _ hc ih => exact .called (c := .cOpenSession _ _ _) ih (bind_of_eq hc)
  | drew _ _ _ hc _ ih => exact .called (c := .cGenerateRandom _ _ _) ih (bind_of_eq hc)
  | called _ _ hc ih => exact .called ih hc

theorem BookedRun.ok (hrun : BookedRun P cfg b m w) : b.Ok P cfg m w := by
  induction hrun with
  | started hg ht hl =>
    have hnone : ∀ h : CkUlong, Module.new.session h = none := by
      intro h
      rw [Module.session, HandleTable.find]
      split
      · rfl
      · rcases hs : Module.new.sessions[h.toNat - 1]? with _ | e
        · rfl
        · exact List.eq_of_mem_replicate (List.mem_of_getElem? hs)
    exact ⟨hl, by simp, by simp, by simp [hnone], by simp [hnone]⟩
  | elapsed _ _ _ hl ih => exact ih.keeps hl (keeps_rfl _)
  | opened hrun hc ih =>
    obtain ⟨hd, ⟨hno, _⟩ | ⟨_, _, idx, pool, slots, hfree, hopen, rfl, hh⟩⟩ :=
      Module.cOpenSession_spec hc
    · exact absurd rfl hno
    · cases hh
      obtain ⟨hidx, _⟩ := List.findIdx?_eq_some_iff_getElem.mp hfree
      exact ih.opened hd.log hopen (session_set hrun.run.inv.table hidx _ _)
  | drew hrun hnull hf hc hlog ih =>
    have hmod := hrun.run
    obtain ⟨s, res, pool, hs, hread, hset, rfl⟩ :=
      Module.cGenerateRandom_drew hmod.inv hmod.sessions hnull hf hc
    have hb := ih.drew hs hread hlog hset
    have hrv : decide ((if res = .ok () then Rv.ok else .deviceError) = .ok) =
        decide (res = .ok ()) := by
      cases res <;> rfl
    rwa [hrv]
  | called _ hplain hc ih =>
    obtain ⟨hlog, hkeeps⟩ := Call.plain_spec hplain hc
    exact ih.keeps hlog hkeeps

/-- Every run of the module has books. -/
theorem ModuleRun.booked (hrun : ModuleRun P cfg m w) : ∃ b, BookedRun P cfg b m w := by
  induction hrun with
  | started hg ht hl => exact ⟨_, .started hg ht hl⟩
  | elapsed _ hg ht hl ih =>
    obtain ⟨b, hb⟩ := ih
    exact ⟨b, hb.elapsed hg ht hl⟩
  | @called m m' w w' c rv hrun hc ih =>
    obtain ⟨b, hb⟩ := ih
    by_cases hplain : c.Plain m rv
    · exact ⟨b, hb.called hplain hc⟩
    · cases c with
      | cOpenSession slot flags phSession =>
        obtain rfl : rv = .ok := not_not.mp hplain
        obtain ⟨⟨_, _, handle⟩, _, hc, he⟩ := bind_eq_some.mp hc
        cases he
        obtain ⟨_, ⟨hno, _⟩ | ⟨_, _, _, _, _, _, _, _, rfl⟩⟩ := Module.cOpenSession_spec hc
        · exact absurd rfl hno
        · exact ⟨_, hb.opened hc⟩
      | cGenerateRandom h buf len =>
        obtain ⟨⟨_, _, buf'⟩, _, hc, he⟩ := bind_eq_some.mp hc
        cases he
        obtain ⟨hnull, hf⟩ := not_or.mp hplain
        obtain ⟨s, res, pool, hs, hread, _⟩ :=
          Module.cGenerateRandom_drew hrun.inv hrun.sessions hnull hf hc
        obtain ⟨_, hchron⟩ := hb.ok.live h s hs
        have hh := hchron.history { w with log := _ } rfl
        obtain ⟨evs, hlog⟩ := Pool.read_log (hh.config ▸ hh.slots) hread
        exact ⟨_, hb.drew hnull hf hc hlog⟩
      | _ => exact absurd trivial hplain

/-- Sessions have nothing to do with each other, in any run: each handle has a session of its own,
and the reads of a session are by themselves the log of a chain that starts from nothing and
serves that session alone, each byte at most once and in order. -/
theorem sessions_independent (hrun : BookedRun P cfg b m w) :
    w.log = b.draws.flatMap Draw.events ∧ (∀ d ∈ b.draws, d.session < b.opened) ∧
    (∀ h h' s s', m.session h = some s → m.session h' = some s' → b.who h = b.who h' → h = h') ∧
    (∀ h s, m.session h = some s → b.who h < b.opened ∧
      Round.Linked zeroDigest (completed (ownLog b.draws (b.who h))) s.pool.state) ∧
    ∀ k < b.opened,
      (∃ state, Round.Linked zeroDigest (completed (ownLog b.draws k)) state) ∧
      (∀ r ∈ completed (ownLog b.draws k), r.Valid P cfg) ∧ (Scan.all (ownLog b.draws k)).Ok ∧
      (cfg.useChain = true → ∃ parts, completed (ownLog b.draws k) = parts.flatten ∧
        List.Forall₂ Draw.Takes (ownDraws b.draws k) parts) := by
  obtain ⟨hlog, hdrawn, hpast, hlive, hapart⟩ := hrun.ok
  refine ⟨hlog, hdrawn, hapart, fun h s hs => ?_, fun k hk => ?_⟩
  · obtain ⟨hlt, hchron⟩ := hlive h s hs
    exact ⟨hlt, (hchron.history { w with log := ownLog b.draws (b.who h) } rfl).linked⟩
  · obtain ⟨p, hchron⟩ := hpast k hk
    have hh := hchron.history { w with log := ownLog b.draws k } rfl
    exact ⟨⟨_, hh.linked⟩, hh.rounds, hh.copies, hchron.takes⟩

namespace Bench

/-- A process on the generators between two calls, with nothing logged. -/
def idle (trace : List Exchange) : World Unit := ⟨(), fun _ => 0, ⟨none, 0⟩, trace, []⟩

theorem fillable_idle (trace : List Exchange) : ∃ trace',
    fillable generators.machine pair (idle trace) = some (.ok true, idle trace') := ⟨_, rfl⟩

theorem open_idle (trace : List Exchange) : ∃ trace',
    Pool.open generators.machine pair (idle trace) = some (.ok pairPool, idle trace') := ⟨_, rfl⟩

theorem sweep_generators (f : Session → Bool) (n : Nat) (w : World Unit) :
    sweep generators.machine f (List.replicate n none) w = some (List.replicate n none, w) := by
  induction n with
  | zero => rfl
  | succ n ih => exact bind_of_eq ih

/-- The module of the two generators with `n` sessions open and not yet read from. -/
def pairModule (n : Nat) : Module where
  initialized := true
  slots := [⟨pair.slotName, true⟩]
  sessions := List.replicate n (some ⟨0, ckfSerialSession, pairPool⟩) ++
    List.replicate (64 - n) none

theorem cInitialize_pair : ∃ trace, Module.new.cInitialize generators.machine pair none (idle []) =
    some ((.ok, pairModule 0), idle trace) := by
  obtain ⟨trace, hfill⟩ := fillable_idle []
  refine ⟨trace, ?_⟩
  have hglobal : globalInit generators.machine pair (idle []) = some (.ok (), idle []) := rfl
  rw [Module.cInitialize, if_neg (by decide), if_neg (by decide), bind_of_eq hglobal]
  dsimp only
  rw [bind_of_eq hfill]
  exact bind_of_eq (sweep_generators _ 64 _)

/-- The first two sessions get the handles 1 and 2. -/
theorem cOpenSession_pair {n : Nat} (hn : n < 2) (trace : List Exchange) : ∃ trace',
    (pairModule n).cOpenSession generators.machine pair 0 ckfSerialSession (some 0) (idle trace) =
      some ((.ok, pairModule (n + 1), some (UInt64.ofNat (n + 1))), idle trace') := by
  obtain ⟨trace', hopen⟩ := open_idle trace
  refine ⟨trace', ?_⟩
  rw [Module.cOpenSession]
  rw [if_neg (by decide), if_neg (by decide), if_neg (by simp [pairModule]),
    if_neg (by simp [pairModule])]
  obtain rfl | rfl : n = 0 ∨ n = 1 := by omega
  · exact bind_of_eq (x := Pool.open _ _) hopen
  · exact bind_of_eq (x := Pool.open _ _) hopen

theorem run_pairModule : ∃ trace, BookedRun generators.machine pair
    ⟨2, Function.update (Function.update (fun _ => 0) 1 0) 2 1, []⟩ (pairModule 2)
      (idle trace) := by
  obtain ⟨trace₁, hinit⟩ := cInitialize_pair
  obtain ⟨trace₂, hopen₁⟩ := cOpenSession_pair Nat.zero_lt_two trace₁
  obtain ⟨trace₃, hopen₂⟩ := cOpenSession_pair Nat.one_lt_two trace₂
  exact ⟨trace₃, .opened (.opened (.called (c := .cInitialize none)
    (.started (w := idle []) rfl rfl rfl) trivial hinit) hopen₁) hopen₂⟩

/-- The first of the sessions is read from. -/
theorem cGenerateRandom_pair (n : Nat) (trace : List Exchange) : ∃ (m : Module) (w : World Unit),
    w.log = delivery [pairRound] 32 ∧
    (pairModule (n + 1)).cGenerateRandom generators.machine 1 (some (zeros 32)) 32 (idle trace) =
      some ((.ok, m, some pairRound.out.toList), w) := by
  obtain ⟨w, hlog, hread⟩ := read_pair (w := idle trace) rfl
  have hgen : (pairModule (n + 1)).cGenerateRandom generators.machine 1 (some (zeros 32)) 32
      (idle trace) = some ((.ok, { pairModule (n + 1) with
        sessions := (pairModule (n + 1)).sessions.set 0 (some ⟨0, ckfSerialSession,
          { pairPool with state := pairRound.next }⟩) }, some pairRound.out.toList), w) := by
    rw [Module.cGenerateRandom, if_neg (by decide), if_neg (by simp [pairModule])]
    exact bind_of_eq hread
  exact ⟨_, w, hlog, hgen⟩

end Bench

/-- Two sessions, the first of which has been read from. -/
theorem sessions_independent_pair : ∃ (b : Books) (w : World Unit),
    b.opened = 2 ∧ (∃ d, b.draws = [d] ∧ d.given = Bench.pairRound.out.toList) ∧
    w.log = delivery [Bench.pairRound] 32 ∧ w.log = b.draws.flatMap Draw.events ∧
    completed (ownLog b.draws 1) = [] ∧
    ∃ parts, completed (ownLog b.draws 0) = parts.flatten ∧
      List.Forall₂ Draw.Takes (ownDraws b.draws 0) parts := by
  obtain ⟨trace, hrun⟩ := Bench.run_pairModule
  obtain ⟨m, w, hlog, hgen⟩ := Bench.cGenerateRandom_pair 1 trace
  have hgrown : w.log = (Bench.idle trace).log ++ delivery [Bench.pairRound] 32 := hlog
  have hdrew := hrun.drew (by simp) (by decide) hgen hgrown
  obtain ⟨hall, _, _, _, hown⟩ := sessions_independent hdrew
  obtain ⟨_, _, _, htakes⟩ := hown 0 Nat.zero_lt_two
  exact ⟨_, w, rfl, ⟨_, rfl, rfl⟩, hlog, hall, rfl, htakes rfl⟩

end P11Rand
