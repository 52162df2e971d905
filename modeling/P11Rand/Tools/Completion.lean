import P11Rand.Tools.Linked
import P11Rand.Tools.Success

/-! p11rand-read on the module, when nothing it depends on is missing. -/
namespace P11Rand.Tools

open Effect Run

variable {H H' W : Type}

namespace Read

variable {a : Args}

section Follows

variable {T : ToolHost H} {T' : ToolHost H'} {R : ToolWorld H → ToolWorld H' → Prop}

theorem writeFull_follows (h : ∀ q, Follows R (ask T q) (ask T' q)) (buf : List UInt8) :
    Follows R (writeFull T buf) (writeFull T' buf) := by
  refine follows_loop (fun buf => ?_) buf
  unfold writeFullStep
  split
  · exact follows_pure _
  refine follows_bind (h _) fun ans => ?_
  cases ans with
  | ok n => exact follows_pure _
  | error err => cases err <;> exact follows_pure _

theorem writeHexFrom_follows (h : ∀ q, Follows R (ask T q) (ask T' q)) (tmp buf : List UInt8) :
    Follows R (writeHexFrom T tmp buf) (writeHexFrom T' tmp buf) := by
  induction buf generalizing tmp with
  | nil =>
    unfold writeHexFrom
    split
    · exact writeFull_follows h tmp
    · exact follows_pure _
  | cons b rest ih =>
    unfold writeHexFrom
    split
    · refine follows_bind (writeFull_follows h tmp) fun res => ?_
      cases res with
      | ok _ => exact ih _
      | error err => exact follows_pure _
    · exact ih _

theorem writeBlock_follows (h : ∀ q, Follows R (ask T q) (ask T' q)) (hex : Bool)
    (buf : List UInt8) : Follows R (writeBlock T hex buf) (writeBlock T' hex buf) := by
  cases hex with
  | true => exact writeHexFrom_follows h [] buf
  | false => exact writeFull_follows h buf

theorem readStep_follows (h : ∀ q, Follows R (ask T q) (ask T' q)) (a : Args) (p : Int64) :
    Follows R (readStep T a p) (readStep T' a p) := by
  unfold readStep
  refine follows_bind (h _) fun n => ?_
  split
  · exact follows_pure _
  split
  · exact follows_pure _
  refine follows_bind (h _) fun r => ?_
  dsimp only
  split
  · refine follows_bind (h _) fun n => ?_
    split <;> exact follows_pure _
  refine follows_bind (h _) fun n => ?_
  split
  · exact follows_pure _
  refine follows_bind (writeBlock_follows h _ _) fun res => ?_
  cases res with
  | ok _ => exact follows_pure _
  | error err => cases err <;> exact follows_pure _

end Follows

/-- The whole stream is produced on a host that is smooth as long as its state keeps `I`. -/
theorem emitStream_restrict {T : ToolHost H} {I : H → Prop}
    {hI : ∀ q e, I e → I (T.answer q e).2} (hT : Smooth (T.restrict I hI))
    (hN : 1 ≤ a.nTotal.toInt) {e : H} (he : I e) : ∃ v : ToolWorld H,
      loop (readStep T a) 0 ⟨e, []⟩ = some ((a.nTotal, 0), v) ∧ Streamed a a.nTotal v.trace ∧
      Yields (emitStream T a) ⟨e, []⟩ fun rv u => rv = 0 ∧ blocks u.trace = blocks v.trace ∧
        written u.trace = written v.trace ++ if a.hex then [10] else [] := by
  -- the loop is run on the restricted host, where nothing fails, and followed on the whole one
  have hask : ∀ q, Follows Host.Forgets (ask (T.restrict I hI) q) (ask T q) :=
    fun q => Host.follows_restrict q
  obtain ⟨r, v, hloop, rfl, hs⟩ :=
    loop_smooth (a := a) (w := ⟨⟨e, he⟩, []⟩) hT rfl (streamed_start (by omega))
  obtain ⟨_, hloop', rfl⟩ := follows_loop (readStep_follows hask a) 0 _ _ _ _ rfl hloop
  refine ⟨_, hloop', hs, ?_⟩
  have hrun := emitStream_of_loop hloop'
  cases hhex : a.hex with
  | false =>
    rw [if_neg (by simp [hhex])] at hrun
    exact ⟨_, _, hrun, rfl, rfl, by simp⟩
  | true =>
    obtain ⟨_, _, hline, w, rfl, hwritten, hgiven, _⟩ :=
      (writeFull_follows hask [10]).yields rfl (newline_smooth hT v)
    rw [if_pos ⟨hhex, by omega⟩, bind_of_eq hline] at hrun
    exact ⟨_, _, hrun, rfl, hgiven, by simpa using hwritten⟩

/-- Writes may fail or be interrupted, but are not interrupted for ever. -/
def Unhung (T : ToolHost H) : Prop := ∀ e, Acc (Interrupted T) e

/-- The tool can write: no signal arrives, and a write takes something or is interrupted, but not
for ever. -/
structure Writable (K : ToolHost H) : Prop where
  signals : ∀ e, (K.answer .signalCount e).1 = 0
  writes : ∀ buf e, buf ≠ [] → (K.answer (.writeOut buf) e).1 = .error .interrupted ∨
    ∃ n : Fin (buf.length + 1), 0 < n.val ∧ (K.answer (.writeOut buf) e).1 = .ok n
  patient : Unhung K

theorem Smooth.writable {K : ToolHost H} (h : Smooth K) : Writable K :=
  ⟨h.signals, h.writes, h.patient⟩

end Read

namespace Client

variable {P : Platform W} {cfg : Config} (hp : ∀ e, P.Patient e) (K : ToolHost H)
  {r : Running P cfg} {k : H} {sess : CkUlong} {es : List ClientReply}

/-- The session is open, on a machine with enough devices. -/
structure Ready (sess : CkUlong) (e : Running P cfg × H) : Prop where
  initialized : e.1.module.initialized = true
  live : ∃ s, e.1.module.session sess = some s
  plenty : Plenty P e.1.world cfg

theorem toList_ofFn_getD {len : Nat} {bytes : List UInt8} (hlen : bytes.length = len) :
    (Vector.ofFn fun i : Fin len => bytes.getD i 0).toList = bytes := by
  subst hlen
  apply List.ext_getElem <;> simp

theorem Ready.generates (h : Ready sess (r, k)) (len : Nat) : ∃ block r',
    ((work sess).host (linked hp K)).answer (.generateRandom len) (r, k) =
      ((ckrOk, block), (r', k)) ∧ Ready (H := H) sess (r', k) ∧
    r.module.cGenerateRandom P sess (some (zeros len)) (UInt64.ofNat len) r.world =
      some ((.ok, r'.module, some block.toList), r'.world) := by
  obtain ⟨hinit, ⟨s, hs⟩, hpl⟩ := h
  obtain ⟨⟨_, m, _⟩, w, hc, hpl', rfl, hinit', pool, bytes, hsession, rfl, hlen⟩ :=
    Module.cGenerateRandom_supplied r.reached.inv (r.reached.sessions s (session_mem hs)) hinit hs
      (hp _) hpl (zeros len)
  obtain ⟨r', rfl, rfl, hans⟩ := linked_generateRandom hp K k hc
  have hlive : r'.module.session sess = some { s with pool } :=
    (congrFun hsession sess).trans (Function.update_self ..)
  refine ⟨_, r', hans, ⟨hinit', ⟨_, hlive⟩, hpl'⟩, ?_⟩
  rw [toList_ofFn_getD (hlen.trans (List.length_replicate ..))]
  exact hc

theorem Ready.keeps (q : ToolRequest) (e : Running P cfg × H) (h : Ready sess e) :
    Ready sess (((work sess).host (linked hp K)).answer q e).2 := by
  obtain ⟨r, k⟩ := e
  cases q with
  | generateRandom len =>
    obtain ⟨block, r', hans, hr', _⟩ := h.generates hp K len
    rw [hans]
    exact hr'
  | _ => exact ⟨h.initialized, h.live, h.plenty⟩

theorem work_unhung {K : ToolHost H} (hK : Read.Unhung K) :
    Read.Unhung ((work sess).host (linked hp K : ClientHost (Running P cfg × H))) := by
  intro e
  refine Subrelation.accessible (fun {x y} h => ?_) (InvImage.accessible Prod.snd (hK e.2))
  obtain ⟨buf, h⟩ := h
  have hans := congrArg Prod.fst h
  have henv := congrArg (fun z => z.2.2) h
  exact ⟨buf, Prod.ext hans henv⟩

theorem linked_smooth {K : ToolHost H} (hK : Read.Writable K) :
    Read.Smooth (((work sess).host (linked hp K)).restrict (Ready sess : Running P cfg × H → Prop)
      (Ready.keeps hp K)) where
  signals e := hK.signals e.val.2
  generates n e := by
    obtain ⟨⟨r, k⟩, he⟩ := e
    obtain ⟨block, r', hans, _⟩ := he.generates hp K n
    exact congrArg (fun x => x.1.1) hans
  writes buf e hne := hK.writes buf e.val.2 hne
  patient e := by
    have hwork : Read.Unhung ((work sess).host (linked hp K : ClientHost (Running P cfg × H))) :=
      work_unhung hp hK.patient
    refine Subrelation.accessible (fun {x y} h => ?_)
      (InvImage.accessible Subtype.val (hwork e.val))
    obtain ⟨buf, h⟩ := h
    have hans := congrArg Prod.fst h
    have henv := congrArg (fun z => z.2.val) h
    exact ⟨buf, Prod.ext hans henv⟩

/-- As long as the tool asks for what fits a C integer, the session answers it. -/
def Answered (sess : CkUlong) (m : Module) (w : World W) (v : ToolWorld (Running P cfg × H)) :
    Prop :=
  Ready sess v.env ∧ ((∀ n ∈ Read.requests v.trace, n < 2 ^ 64) →
    Attached P sess m w v.trace v.env.1.module v.env.1.world)

theorem ask_answered {m : Module} {w : World W} (q : ToolRequest) :
    Within (fun v v' : ToolWorld (Running P cfg × H) => Answered sess m w v → Answered sess m w v')
      (ask ((work sess).host (linked hp K)) q) := by
  rintro v a v' h ⟨hready, hatt⟩
  cases q with
  | generateRandom len =>
    obtain ⟨block, r', hans, hr', hc⟩ := Ready.generates (r := v.env.1) hp K hready len
    rw [ask_apply, hans] at h
    cases h
    refine ⟨hr', fun hsmall => ?_⟩
    rw [Read.requests_snoc] at hsmall
    have hbefore := hatt fun n hn => hsmall n (List.mem_append_left _ hn)
    have hlen : len < 2 ^ 64 := hsmall len (List.mem_append_right _ (List.mem_singleton_self _))
    exact hbefore.generated List.length_replicate hlen hc (by decide)
  | _ =>
    rw [ask_apply] at h
    cases h
    refine ⟨Ready.keeps hp K _ _ hready, fun hsmall => ?_⟩
    rw [Read.requests_snoc] at hsmall
    exact (hatt fun n hn => hsmall n (List.mem_append_left _ hn)).other rfl

/-- What the loop asks for is answered by the session. -/
theorem loop_attached {a : Read.Args} (hready : Ready sess (r, k)) {x : Int64 × UInt8}
    {v : ToolWorld (Running P cfg × H)}
    (hloop : loop (Read.readStep ((work sess).host (linked hp K)) a) 0 ⟨(r, k), []⟩ = some (x, v))
    (hsmall : ∀ n ∈ Read.requests v.trace, n < 2 ^ 64) :
    Attached P sess r.module r.world v.trace v.env.1.module v.env.1.world := by
  have : IsPreorder (ToolWorld (Running P cfg × H)) fun v v' =>
      Answered sess r.module r.world v → Answered sess r.module r.world v' :=
    { refl := fun _ => id, trans := fun _ _ _ h h' => h' ∘ h }
  obtain ⟨_, hatt⟩ : Answered sess r.module r.world v :=
    (loop_thread (R := fun v v' => Answered sess r.module r.world v →
      Answered sess r.module r.world v') hloop).within
      (Read.readStep_within (fun q => ask_answered hp K q) a) ⟨hready, fun _ => .start⟩
  exact hatt hsmall

/-- The tool puts out what the chain of its session puts out first. -/
theorem emitStream_linked {K : ToolHost H} {a : Read.Args} (hK : Read.Writable K)
    (hN : 1 ≤ a.nTotal.toInt) (hready : Ready sess (r, k)) {s : Session}
    (hs : r.module.session sess = some s) :
    Yields (Read.emitStream ((work sess).host (linked hp K)) a) ⟨(r, k), []⟩ fun rv v => rv = 0 ∧
      ((Read.generated v.trace).length : Int) = a.nTotal.toInt ∧
      Read.written v.trace =
        Read.encode a.hex (Read.generated v.trace) ++ (if a.hex then [10] else []) ∧
      (cfg.useChain = true → ∃ rs last, Round.Linked s.pool.state rs last ∧
        (∀ r ∈ rs, r.Valid P cfg) ∧ rs.length = ((Read.generated v.trace).length + 31) / 32 ∧
        Read.generated v.trace = (outputs rs).take (Read.generated v.trace).length) := by
  have hsmooth : Read.Smooth (((work sess).host (linked hp K)).restrict
      (Ready sess : Running P cfg × H → Prop) (Ready.keeps hp K)) := linked_smooth hp hK
  obtain ⟨v, hloop, hstream, _, u, hemit, rfl, hgiven, hwritten⟩ :=
    Read.emitStream_restrict hsmooth hN hready
  have hgen : Read.generated u.trace = Read.generated v.trace := congrArg List.flatten hgiven
  have hout := hstream.pending.eq
  rw [← hgen] at hout
  refine ⟨_, u, hemit, rfl, hgen ▸ hstream.length, by rw [hwritten, hout], fun hchain => ?_⟩
  have hatt := loop_attached hp K hready hloop fun n hn => by
    have hle := (hstream.asked n hn).2
    omega
  obtain ⟨_, s', _, _, _, _, hgives⟩ := hatt.spec r.reached hs
  obtain ⟨rs, hlink, hvalid, hgives⟩ := hgives hchain
  have hflow : Read.Flowed a a.nTotal v.trace := Read.thread_flows (loop_thread hloop)
  rw [(hflow.full (by omega) rfl).2.1] at hgives
  obtain ⟨hrounds, hflat⟩ := hgives.contiguous hflow.whole
  rw [hgen]
  exact ⟨rs, s'.pool.state, hlink, hvalid, hrounds, hflat⟩

/-- The module is up, no session is open, and there are enough devices. -/
structure Up (e : Running P cfg × H) : Prop where
  initialized : e.1.module.initialized = true
  one : e.1.module.slots.length = 1
  closed : ∀ h, e.1.module.session h = none
  plenty : Plenty P e.1.world cfg

theorem linked_starts (hdown : r.module.initialized = false)
    (hstart : Yields (globalInit P cfg) r.world fun res w => res = .ok () ∧ Plenty P w cfg) :
    ∃ r', (linked hp K).answer (.setup .cInitialize) (r, k) = (ckrOk, (r', k)) ∧
      Up (H := H) (r', k) := by
  obtain ⟨_, w, hc, rfl, hpl⟩ := Module.cInitialize_supplied hdown hstart
  obtain ⟨r', hm, rfl, hans⟩ := linked_cInitialize hp K k hc
  refine ⟨r', hans, ?_, ?_, fun h => ?_, hpl⟩ <;> rw [hm]
  · rfl
  · exact session_cleared h

/-- What is listed is the one slot, which is number 0. -/
theorem Up.lists (h : Up (r, k)) (room : Option Nat) (count : CkUlong)
    (hroom : room = none ∨ room = some 1 ∧ count = 1) : ∃ written r',
    (linked hp K).answer (.setup (.cGetSlotList ckTrue room count)) (r, k) =
      ((ckrOk, written, 1), (r', k)) ∧ (overlaid written).headD 0 = 0 ∧
      Up (H := H) (r', k) := by
  obtain ⟨hinit, hone, hclosed, hpl⟩ := h
  have hlen : ∀ list : List CkUlong, room.map (List.replicate · 0) = some list →
      count.toNat ≤ list.length := by
    rcases hroom with rfl | ⟨rfl, rfl⟩
    · intro list hlist
      cases hlist
    · intro list hlist
      cases hlist
      decide
  obtain ⟨_, w, hc, ⟨slots, hslots, rfl⟩, hpl'⟩ :=
    Module.cGetSlotList_supplied hinit hone hpl ckTrue _ count hlen
  rcases hroom with rfl | ⟨rfl, rfl⟩
  all_goals
    obtain ⟨r', hm, rfl, hans⟩ := linked_cGetSlotList hp K k _ hc
    refine ⟨_, r', hans, rfl, ?_, ?_, fun h => ?_, hpl'⟩ <;> rw [hm]
    · exact hinit
    · exact hslots
    · exact hclosed h

theorem Up.opens (h : Up (r, k)) (hv : cfg.validate = .ok ()) : ∃ sess r',
    (linked hp K).answer (.setup (.cOpenSession 0 ckfSerialSession)) (r, k) =
      ((ckrOk, sess), (r', k)) ∧ Ready (H := H) sess (r', k) ∧
    ∃ s, r'.module.session sess = some s ∧ s.pool.state = zeroDigest := by
  obtain ⟨hinit, hone, hclosed, hpl⟩ := h
  have hserial : ckfSerialSession &&& ckfSerialSession ≠ 0 := by decide
  have hslot : (0 : CkUlong).toNat < r.module.slots.length := by
    rw [hone]
    decide
  obtain ⟨_, w, hc, hpl', idx, pool, slots, hidx, hopen, rfl⟩ := Module.cOpenSession_supplied hv
    hinit hserial hslot (room_of_none r.reached.inv hclosed) hpl
  obtain ⟨r', hm, rfl, hans⟩ := linked_cOpenSession hp K k hc
  have hlt : idx < r.module.sessions.length := (List.findIdx?_eq_some_iff_findIdx_eq.mp hidx).1
  have hinit' : r'.module.initialized = true := by
    rw [hm]
    exact hinit
  have hlive : r'.module.session (UInt64.ofNat (idx + 1)) = some ⟨0, ckfSerialSession, pool⟩ := by
    rw [hm, session_set r.reached.inv.table hlt slots, Function.update_self]
  obtain ⟨_, _, hfresh, _⟩ := Pool.open_cases hopen
  exact ⟨_, r', hans, ⟨hinit', ⟨_, hlive⟩, hpl'⟩, _, hlive, hfresh⟩

/-- The tool gets a session. -/
theorem openSlot_linked (hv : cfg.validate = .ok ()) (hdown : r.module.initialized = false)
    (hstart : Yields (globalInit P cfg) r.world fun res w => res = .ok () ∧ Plenty P w cfg) :
    Yields (Read.openSlot (setup.host (linked hp K))) ⟨(r, k), []⟩ fun res v =>
      ∃ slot sess, res = .ok (slot, sess) ∧ Ready sess v.env ∧
        ∃ s, v.env.1.module.session sess = some s ∧ s.pool.state = zeroDigest := by
  unfold Read.openSlot openFirst
  obtain ⟨r₁, hinit, hup⟩ := linked_starts hp K hdown hstart
  refine yields_ask_of hinit ?_
  rw [if_neg (by decide)]
  -- the first list is asked for its length only
  obtain ⟨_, r₂, hcount, _, hup⟩ := hup.lists hp K none 0 (.inl rfl)
  refine yields_ask_of hcount ?_
  dsimp only
  rw [if_neg (by decide)]
  obtain ⟨_, r₃, hlist, hzero, hup⟩ := hup.lists hp K (some 1) 1 (.inr ⟨rfl, rfl⟩)
  refine yields_ask_of hlist ?_
  dsimp only
  rw [if_neg (by decide), hzero]
  obtain ⟨sess, r₄, hopen, hready, hfresh⟩ := hup.opens hp K hv
  refine yields_ask_of hopen ?_
  exact yields_pure ⟨0, sess, rfl, hready, hfresh⟩

/-- The bytes that the output took. -/
def printed : ClientReply → List UInt8
  | ⟨.work _ q, ans⟩ => Read.accepted ⟨q, ans⟩
  | _ => []

/-- The bytes that the module gave. -/
def drawn : ClientReply → List UInt8
  | ⟨.work _ q, ans⟩ => (Read.block ⟨q, ans⟩).getD []
  | _ => []

@[simp] theorem printed_setup (es : List SlotReply) :
    (es.map setup.reply).flatMap printed = [] := by
  induction es with
  | nil => rfl
  | cons e es ih => exact ih

@[simp] theorem drawn_setup (es : List SlotReply) : (es.map setup.reply).flatMap drawn = [] := by
  induction es with
  | nil => rfl
  | cons e es ih => exact ih

@[simp] theorem printed_work (sess : CkUlong) (es : List ToolReply) :
    (es.map (work sess).reply).flatMap printed = Read.written es := by
  rw [List.flatMap_map]
  rfl

@[simp] theorem drawn_work (sess : CkUlong) (es : List ToolReply) :
    (es.map (work sess).reply).flatMap drawn = Read.generated es := by
  induction es with
  | nil => rfl
  | cons e es ih =>
    have hhead : drawn ((work sess).reply e) = (Read.block e).getD [] := rfl
    rw [List.map_cons, List.flatMap_cons, ih, hhead]
    cases hb : Read.block e <;> simp [Read.generated, Read.blocks, hb]

/-- If it asks for random bytes, it does so in the session. -/
def Within (sess : CkUlong) (e : ClientReply) : Prop :=
  ∀ h len, e.request = .work h (.generateRandom len) → h = sess

theorem within_setup (sess : CkUlong) (es : List SlotReply) :
    ∀ e ∈ es.map setup.reply, Within sess e := by
  intro e he h len hq
  obtain ⟨e', _, rfl⟩ := List.mem_map.mp he
  cases hq

theorem within_work (sess : CkUlong) (es : List ToolReply) :
    ∀ e ∈ es.map (work sess).reply, Within sess e := by
  intro e he h len hq
  obtain ⟨e', _, rfl⟩ := List.mem_map.mp he
  exact ((ClientRequest.work.inj hq).1).symm

/-- The end of the tool: the module is down, and nothing more is drawn or printed. -/
theorem closeDown_linked (sess : CkUlong) :
    Yields (closeDown (linked hp K) sess) ⟨(r, k), es⟩ fun _ v =>
      v.env.1.module.initialized = false ∧ v.trace.flatMap printed = es.flatMap printed ∧
      v.trace.flatMap drawn = es.flatMap drawn ∧
      ((∀ e ∈ es, Within sess e) → ∀ e ∈ v.trace, Within sess e) := by
  obtain ⟨code, e₁, hclose⟩ :
    ∃ code e₁, (linked hp K).answer (.cCloseSession sess) (r, k) = (code, e₁) := ⟨_, _, rfl⟩
  refine yields_ask_of hclose ?_
  obtain ⟨code', e₂, hfinalize⟩ :
    ∃ code e₂, (linked hp K).answer (.setup .cFinalize) e₁ = (code, e₂) := ⟨_, _, rfl⟩
  have hfinal := linked_cFinalize hp K e₁
  rw [hfinalize] at hfinal
  refine yields_ask_of hfinalize (yields_pure ⟨hfinal, ?_, ?_, fun hes => ?_⟩)
  · simp [printed]
  · simp [drawn]
  · simp only [List.forall_mem_append, List.forall_mem_singleton]
    exact ⟨⟨hes, nofun⟩, nofun⟩

/-- With enough devices for the module and an output that can be written to, the tool succeeds. It
writes as many bytes as it was asked for, all from one session: the first that a chain puts out
which starts afresh, and which takes no more rounds than that. It leaves nothing behind. -/
theorem read_completes {K : ToolHost H} {a : Read.Args} (hv : cfg.validate = .ok ())
    (hK : Read.Writable K) (hN : 1 ≤ a.nTotal.toInt) (hdown : r.module.initialized = false)
    (hstart : Yields (globalInit P cfg) r.world fun res w => res = .ok () ∧ Plenty P w cfg) :
    Yields ((Client.read a).main (linked hp K)) ⟨(r, k), []⟩ fun ending v =>
      ending = .returned 0 ∧ v.env.1.module.initialized = false ∧
      established v.env.1.world.trace = none ∧
      balance Exchange.deal v.env.1.world.trace = 0 ∧
      (∃ sess, ∀ e ∈ v.trace, Within sess e) ∧
      ∃ bytes : List UInt8, bytes.length = a.nTotal.toInt ∧
        v.trace.flatMap drawn = bytes ∧
        v.trace.flatMap printed = Read.encode a.hex bytes ++ (if a.hex then [10] else []) ∧
        (cfg.useChain = true → ∃ rs last, Round.Linked zeroDigest rs last ∧
          (∀ r ∈ rs, r.Valid P cfg) ∧ rs.length = (bytes.length + 31) / 32 ∧
          bytes = (outputs rs).take bytes.length) := by
  have hload : (linked hp K).answer (.loadModule a.module) (r, k) = (.ok (), (r, k)) := rfl
  refine yields_ask_of hload ?_
  refine yields_bind ((Facet.yields_run (openSlot_linked hp K hv hdown hstart)).mono ?_)
  rintro _ _ ⟨u, rfl, slot, sess, rfl, hready, s, hs, hfresh⟩
  refine yields_bind ((Facet.yields_run (emitStream_linked hp hK hN hready hs)).mono ?_)
  rintro _ _ ⟨u', rfl, rfl, hlen, hout, hchain⟩
  rw [hfresh] at hchain
  refine yields_bind ((closeDown_linked hp K sess).mono ?_)
  rintro _ v ⟨hfinal, hprinted, hdrawn, hwithin⟩
  obtain ⟨hctx, hheld⟩ := v.env.1.reached.idle hfinal
  refine yields_pure ⟨rfl, hfinal, hctx, hheld, ⟨sess, hwithin ?_⟩, _, hlen, ?_, ?_, hchain⟩
  · simp only [List.forall_mem_append]
    exact ⟨⟨by simp [Within], within_setup sess _⟩, within_work sess _⟩
  · rw [hdrawn]
    simp [drawn]
  · rw [hprinted]
    simpa [printed] using hout

/-- A process on two generators that has just loaded the module. -/
def fresh : Running Bench.generators.machine Bench.pair :=
  ⟨Module.new, ⟨(), fun _ => 0, ⟨none, 0⟩, [], []⟩, .started rfl rfl rfl⟩

/-- The output takes a hundred bytes at a time. -/
theorem read_completes_pair :
    Yields ((Client.read ⟨300, true, false, "p11rand.so"⟩).main
      (linked (fun e => Bench.patient_generators e) Read.narrow)) ⟨(fresh, ()), []⟩ fun ending v =>
      ending = .returned 0 ∧ v.env.1.module.initialized = false ∧
      ∃ bytes : List UInt8, bytes.length = 300 ∧
        v.trace.flatMap printed = Read.encode true bytes ++ [10] ∧
        ∃ rs last, Round.Linked zeroDigest rs last ∧ rs.length = 10 ∧
          bytes = (outputs rs).take 300 := by
  have hstart : Yields (globalInit Bench.generators.machine Bench.pair) fresh.world fun res w =>
      res = .ok () ∧ Plenty Bench.generators.machine w Bench.pair :=
    ⟨_, _, rfl, rfl, Bench.plenty_generators rfl le_rfl _⟩
  refine (read_completes (fun e => Bench.patient_generators e) rfl Read.narrow_smooth.writable
    (by decide) rfl hstart).mono ?_
  rintro ending v ⟨hending, hdown, _, _, _, bytes, hlen, _, hout, hchain⟩
  obtain ⟨rs, last, hlink, _, hrounds, hbytes⟩ := hchain rfl
  replace hlen : (bytes.length : Int) = 300 := hlen
  replace hlen : bytes.length = 300 := by omega
  rw [hlen] at hrounds hbytes
  exact ⟨hending, hdown, bytes, hlen, hout, rs, last, hlink, hrounds, hbytes⟩

end Client
end P11Rand.Tools
