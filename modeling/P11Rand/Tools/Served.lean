import P11Rand.Admission
import P11Rand.Holdings
import P11Rand.Tools.Client
import P11Rand.Tools.Pipeline

/-! The tools on the module: none of their calls is refused, and they leave nothing behind. -/
namespace P11Rand.Tools.Client

open Effect Run

variable {W : Type} {P : Platform W} {cfg : Config} {m m' : Module} {w w' : World W} {rv : Rv}
  {rvs : List Rv} {c c' : AnyCall} {es p : List ClientReply} {e : ClientReply} {st : Stage}
  {slot sess : CkUlong}

/-- What a tool passes in its calls, and what it is told. A list of slots starts out with zeros. -/
inductive Relayed : ClientReply → AnyCall → Rv → AnyCall → Prop
  | cInitialize {code : CkUlong} {rv : Rv} {c' : AnyCall} : (code = ckrOk ↔ rv = .ok) →
      Relayed ⟨.setup .cInitialize, code⟩ (.cInitialize none) rv c'
  | cGetSlotList {tokenPresent : UInt8} {room : Option Nat} {count code n : CkUlong}
      {written : Vector (Option CkUlong) (room.getD 0)} {rv : Rv} : (code = ckrOk ↔ rv = .ok) →
      Relayed ⟨.setup (.cGetSlotList tokenPresent room count), (code, written, n)⟩
        (.of (.cGetSlotList tokenPresent (room.map (List.replicate · 0)) (some count))) rv
        (.of (.cGetSlotList tokenPresent (room.map fun _ => overlaid written) (some n)))
  | cGetSlotInfo {slot code : CkUlong} {info : CkSlotInfo} {rv : Rv} {c' : AnyCall} :
      (code = ckrOk ↔ rv = .ok) →
      Relayed ⟨.setup (.cGetSlotInfo slot), code⟩ (.of (.cGetSlotInfo slot (some info))) rv c'
  | cGetTokenInfo {slot code : CkUlong} {info : CkTokenInfo} {rv : Rv} {c' : AnyCall} :
      (code = ckrOk ↔ rv = .ok) →
      Relayed ⟨.cGetTokenInfo slot, code⟩ (.of (.cGetTokenInfo slot (some info))) rv c'
  | cOpenSession {slot flags code sess : CkUlong} {rv : Rv} : (code = ckrOk ↔ rv = .ok) →
      Relayed ⟨.setup (.cOpenSession slot flags), (code, sess)⟩
        (.of (.cOpenSession slot flags (some 0))) rv (.of (.cOpenSession slot flags (some sess)))
  | generateRandom {sess code : CkUlong} {len : Nat} {buf : List UInt8}
      {block : Vector UInt8 len} {rv : Rv} : buf.length = len → len < 2 ^ 64 →
      (code = ckrOk ↔ rv = .ok) →
      Relayed ⟨.work sess (.generateRandom len), (code, block)⟩
        (.of (.cGenerateRandom sess (some buf) (UInt64.ofNat len))) rv
        (.of (.cGenerateRandom sess (some block.toList) (UInt64.ofNat len)))
  | cCloseSession {sess code : CkUlong} {rv : Rv} {c' : AnyCall} : (code = ckrOk ↔ rv = .ok) →
      Relayed ⟨.cCloseSession sess, code⟩ (.of (.cCloseSession sess)) rv c'
  | cFinalize {code : CkUlong} {rv : Rv} {c' : AnyCall} : (code = ckrOk ↔ rv = .ok) →
      Relayed ⟨.setup .cFinalize, code⟩ (.of (.cFinalize true)) rv c'

/-- Not a call of the module. -/
def Foreign : ClientRequest → Prop
  | .loadModule _ | .openRandom => True
  | .work _ q => ∀ len, q ≠ .generateRandom len
  | _ => False

/-- The module, in a process that has just loaded it, answers the calls of a tool; the return values
are those of its calls. -/
inductive Served (P : Platform W) (cfg : Config) :
    List ClientReply → List Rv → Module → World W → Prop
  | started {w : World W} : w.global = ⟨none, 0⟩ → w.trace = [] → w.log = [] →
      Served P cfg [] [] Module.new w
  | elapsed {es : List ClientReply} {rvs : List Rv} {m : Module} {w w' : World W} :
      Served P cfg es rvs m w → w'.global = w.global → w'.trace = w.trace → w'.log = w.log →
      Served P cfg es rvs m w'
  | called {es : List ClientReply} {rvs : List Rv} {m m' : Module} {w w' : World W}
      {e : ClientReply} {c c' : AnyCall} {rv : Rv} : Served P cfg es rvs m w →
      c.run P cfg m w = some ((rv, m', c'), w') → Relayed e c rv c' →
      Served P cfg (es ++ [e]) (rvs ++ [rv]) m' w'
  | other {es : List ClientReply} {rvs : List Rv} {m : Module} {w : World W} {e : ClientReply} :
      Served P cfg es rvs m w → Foreign e.request → Served P cfg (es ++ [e]) rvs m w

/-- The module is where the tool thinks it is. -/
def Matches : Stage → Module → Prop
  | .down, m => m.initialized = false
  | .up, m => m.initialized = true ∧ ∀ h, m.session h = none
  | .opened sess, m => m.initialized = true ∧ (∃ s, m.session sess = some s) ∧
      ∀ h ≠ sess, m.session h = none

theorem Matches.initialized (h : Matches st m) (hst : st ≠ .down) : m.initialized = true := by
  cases st with
  | down => exact absurd rfl hst
  | up => exact h.1
  | opened sess => exact h.1

theorem Matches.slots (h : Matches st m) (slots : List SlotState) :
    Matches st { m with slots } := by
  cases st <;> exact h

theorem session_cleared (h : CkUlong) {initialized : Bool} {slots : List SlotState} :
    Module.session ⟨initialized, slots, cleared (fun _ => true) m.sessions⟩ h = none := by
  cases hs : Module.session ⟨initialized, slots, cleared (fun _ => true) m.sessions⟩ h with
  | none => rfl
  | some s => cases cleared_all (session_mem hs)

/-- Where no handle is live the table has room. -/
theorem room_of_none (hi : m.Inv cfg) (h : ∀ h, m.session h = none) : none ∈ m.sessions := by
  have hlen : 0 < m.sessions.length := by
    rw [hi.table]
    decide
  have hfirst : HandleTable.find m.sessions 1 = none := h 1
  rw [HandleTable.find_succ, List.getElem?_eq_getElem hlen] at hfirst
  have hentry : m.sessions[0] = none := by simpa using hfirst
  exact hentry ▸ List.getElem_mem hlen

/-- All that the module ever lists is its one slot. -/
theorem listed_zero {tokenPresent : UInt8} {room : Option Nat} {count code n : CkUlong}
    {written : Vector (Option CkUlong) (room.getD 0)} (hm : m.Inv cfg)
    (hinit : m.initialized = true) (hroom : ∀ n, room = some n → n = count.toNat)
    (hc : m.cGetSlotList P cfg tokenPresent (room.map (List.replicate · 0)) (some count) w =
      some ((rv, m', room.map fun _ => overlaid written, some n), w')) :
    ∀ slot ∈ listed ⟨.setup (.cGetSlotList tokenPresent room count), (code, written, n)⟩,
      slot = 0 := by
  intro slot hslot
  replace hslot : some slot ∈ written.toList := List.reduceOption_mem_iff.mp hslot
  have hlen : m.slots.length = 1 := by simpa using congrArg List.length (hm.published hinit)
  obtain ⟨fs, v, hfs, _⟩ := listing_total P cfg (tokenPresent == ckTrue) m.slots.length w
  cases room with
  | none =>
    have hnil : written.toList = [] := List.length_eq_zero_iff.mp (by simp)
    rw [hnil] at hslot
    cases hslot
  | some k =>
    obtain rfl := hroom k rfl
    have hresult := cGetSlotList_eq tokenPresent (some (List.replicate count.toNat 0)) count hinit
      (fun l hl => by cases hl; simp) hfs
    have hmem : slot ∈ overlaid written := List.mem_map.mpr ⟨some slot, hslot, rfl⟩
    rw [Option.map_some, hresult] at hc
    simp only [Option.map_some, Option.some.injEq, Prod.mk.injEq] at hc
    obtain ⟨⟨_, _, hans⟩, _⟩ := hc
    have hids : ∀ id ∈ flagged fs, id = 0 := by
      intro id hid
      obtain ⟨i, hi, rfl⟩ := mem_flagged.mp hid
      have hlt := (List.getElem?_eq_some_iff.mp hi).1
      rw [listing_length hfs, hlen] at hlt
      obtain rfl : i = 0 := by omega
      rfl
    have hzeros : ∀ id ∈ List.replicate count.toNat (0 : CkUlong), id = 0 :=
      fun id hid => List.eq_of_mem_replicate hid
    unfold answered at hans
    dsimp only at hans
    split at hans
    · obtain ⟨hlist, _⟩ := Prod.mk.inj hans
      rw [← Option.some.inj hlist] at hmem
      exact hzeros slot hmem
    · obtain ⟨hlist, _⟩ := Prod.mk.inj hans
      rw [← Option.some.inj hlist] at hmem
      rcases List.mem_append.mp hmem with hmem | hmem
      · exact hids slot hmem
      · exact hzeros slot (List.mem_of_mem_drop hmem)

/-- One call of a tool that keeps to the order: it is not refused, and the module goes where the
tool thinks it goes. -/
theorem Relayed.admitted (hrel : Relayed e c rv c')
    (hc : c.run P cfg m w = some ((rv, m', c'), w')) (hi : m.Inv cfg)
    (hm : Matches (stage es) m) (hproper : Proper es e)
    (hnames : ∀ slot, Named es slot → slot = 0) :
    ¬ rv.Refusal ∧ Matches ((stage es).next e) m' ∧ ∀ slot ∈ listed e, slot = 0 := by
  have hslot : m.initialized = true → ∀ slot, Named es slot → slot.toNat < m.slots.length := by
    intro hinit slot hnamed
    have hlen : m.slots.length = 1 := by simpa using congrArg List.length (hi.published hinit)
    rw [hnames slot hnamed, hlen]
    decide
  cases hrel with
  | @cInitialize code rv c' hcode =>
    have hdown : stage es = .down := hproper
    rw [hdown] at hm ⊢
    obtain ⟨⟨_, _⟩, _, hc, he⟩ := bind_eq_some.mp hc
    cases he
    refine ⟨cInitialize_admitted hm hc, ?_, nofun⟩
    have hnext : Stage.down.next ⟨.setup .cInitialize, code⟩ =
        if code = ckrOk then .up else .down := rfl
    rw [hnext]
    rcases Module.cInitialize_spec hc with ⟨hno, rfl, _⟩ | ⟨hok, _, ⟨present, rfl⟩, _⟩
    · rw [if_neg fun h => hno (hcode.mp h)]
      exact hm
    · rw [if_pos (hcode.mpr hok)]
      exact ⟨rfl, fun h => session_cleared h⟩
  | @cGetSlotList tokenPresent room count code n written rv hcode =>
    obtain ⟨hup, hroom⟩ := hproper
    have hinit := hm.initialized hup
    obtain ⟨e', he, hinv⟩ := AnyCall.of_eq_some.mp hc
    cases he
    obtain ⟨⟨_, _, _, _⟩, _, hcall, he⟩ := bind_eq_some.mp hinv
    cases he
    refine ⟨cGetSlotList_admitted hinit hcall, ?_, listed_zero hi hinit hroom hcall⟩
    obtain ⟨⟨slots, rfl⟩, _⟩ :=
      Call.queries_spec (c := .cGetSlotList _ _ _) trivial (bind_of_eq hcall)
    have hnext : (stage es).next ⟨.setup (.cGetSlotList tokenPresent room count),
        (code, written, n)⟩ = stage es := by cases stage es <;> rfl
    rw [hnext]
    exact hm.slots slots
  | @cGetSlotInfo slot code info rv c' hcode =>
    obtain ⟨hup, hnamed⟩ := hproper
    have hinit := hm.initialized hup
    obtain ⟨e', he, hinv⟩ := AnyCall.of_eq_some.mp hc
    cases he
    obtain ⟨⟨_, _, _⟩, _, hcall, he⟩ := bind_eq_some.mp hinv
    cases he
    refine ⟨cGetSlotInfo_admitted hinit rfl (hslot hinit slot hnamed) hcall, ?_, nofun⟩
    obtain ⟨⟨slots, rfl⟩, _⟩ :=
      Call.queries_spec (c := .cGetSlotInfo _ _) trivial (bind_of_eq hcall)
    have hnext : (stage es).next ⟨.setup (.cGetSlotInfo slot), code⟩ = stage es := by
      cases stage es <;> rfl
    rw [hnext]
    exact hm.slots slots
  | @cGetTokenInfo slot code info rv c' hcode =>
    obtain ⟨hup, hnamed⟩ := hproper
    have hinit := hm.initialized hup
    obtain ⟨e', he, hinv⟩ := AnyCall.of_eq_some.mp hc
    cases he
    obtain ⟨⟨_, _, _⟩, _, hcall, he⟩ := bind_eq_some.mp hinv
    cases he
    refine ⟨cGetTokenInfo_admitted hinit rfl (hslot hinit slot hnamed) hcall, ?_, nofun⟩
    obtain ⟨⟨slots, rfl⟩, _⟩ :=
      Call.queries_spec (c := .cGetTokenInfo _ _) trivial (bind_of_eq hcall)
    have hnext : (stage es).next ⟨.cGetTokenInfo slot, code⟩ = stage es := by
      cases stage es <;> rfl
    rw [hnext]
    exact hm.slots slots
  | @cOpenSession slot flags code sess rv hcode =>
    obtain ⟨hup, hnamed, rfl⟩ := hproper
    rw [hup] at hm ⊢
    obtain ⟨hinit, hclear⟩ := hm
    obtain ⟨e', he, hinv⟩ := AnyCall.of_eq_some.mp hc
    cases he
    obtain ⟨⟨_, _, _⟩, _, hcall, he⟩ := bind_eq_some.mp hinv
    cases he
    have hserial : ckfSerialSession &&& ckfSerialSession ≠ 0 := by decide
    refine ⟨cOpenSession_admitted hinit rfl hserial (hslot hinit slot hnamed)
      (room_of_none hi hclear) hcall, ?_, nofun⟩
    have hnext : Stage.up.next ⟨.setup (.cOpenSession slot ckfSerialSession), (code, sess)⟩ =
        if code = ckrOk then .opened sess else .up := rfl
    rw [hnext]
    rcases (Module.cOpenSession_spec hcall).2 with ⟨hno, slots, rfl⟩ |
      ⟨hok, _, idx, pool, slots, hidx, _, rfl, hsess⟩
    · rw [if_neg fun h => hno (hcode.mp h)]
      exact ⟨hinit, hclear⟩
    · rw [if_pos (hcode.mpr hok)]
      obtain ⟨hlt, _⟩ := List.findIdx?_eq_some_iff_getElem.mp hidx
      obtain rfl := Option.some.inj hsess
      have hset := session_set hi.table hlt slots (some ⟨slot, ckfSerialSession, pool⟩)
      refine ⟨hinit, ⟨_, by rw [hset, Function.update_self]⟩, fun h hne => ?_⟩
      rw [hset, Function.update_of_ne hne]
      exact hclear h
  | @generateRandom sess code len buf block rv hlen hlt hcode =>
    have hup : stage es = .opened sess := hproper
    rw [hup] at hm ⊢
    obtain ⟨hinit, ⟨s, hs⟩, hothers⟩ := hm
    obtain ⟨e', he, hinv⟩ := AnyCall.of_eq_some.mp hc
    cases he
    obtain ⟨⟨_, _, _⟩, _, hcall, he⟩ := bind_eq_some.mp hinv
    cases he
    refine ⟨cGenerateRandom_admitted hinit rfl (found_of_session hs) hcall, ?_, nofun⟩
    rcases Module.cGenerateRandom_spec hcall with
      ⟨rfl, _⟩ | ⟨s', _, pool, _, _, hf, hs', _, rfl, _⟩
    · exact ⟨hinit, ⟨s, hs⟩, hothers⟩
    · have hset := session_set hi.table (List.getElem?_eq_some_iff.mp hs').1 m.slots
        (some { s' with pool })
      rw [handle_of_found hf] at hset
      refine ⟨hinit, ⟨_, by rw [hset, Function.update_self]⟩, fun h hne => ?_⟩
      rw [hset, Function.update_of_ne hne]
      exact hothers h hne
  | @cCloseSession sess code rv c' hcode =>
    have hup : stage es = .opened sess := hproper
    rw [hup] at hm ⊢
    obtain ⟨hinit, ⟨s, hs⟩, hothers⟩ := hm
    obtain ⟨e', he, hinv⟩ := AnyCall.of_eq_some.mp hc
    cases he
    obtain ⟨⟨_, _⟩, _, hcall, he⟩ := bind_eq_some.mp hinv
    cases he
    obtain rfl := cCloseSession_admitted hinit (found_of_session hs) hcall
    refine ⟨id, ?_, nofun⟩
    have hnext : (Stage.opened sess).next ⟨.cCloseSession sess, code⟩ = .up :=
      if_pos ⟨rfl, hcode.mpr rfl⟩
    rw [hnext]
    rcases Module.cCloseSession_spec hcall with ⟨hno, _⟩ | ⟨_, s', hf, hs', rfl⟩
    · exact absurd rfl hno
    · have hset := session_set hi.table (List.getElem?_eq_some_iff.mp hs').1 m.slots none
      rw [handle_of_found hf] at hset
      refine ⟨hinit, fun h => ?_⟩
      rw [hset]
      by_cases hh : h = sess
      · rw [hh, Function.update_self]
      · rw [Function.update_of_ne hh]
        exact hothers h hh
  | @cFinalize code rv c' hcode =>
    have hinit := hm.initialized hproper
    obtain ⟨e', he, hinv⟩ := AnyCall.of_eq_some.mp hc
    cases he
    obtain ⟨⟨_, _⟩, _, hcall, he⟩ := bind_eq_some.mp hinv
    cases he
    obtain rfl := cFinalize_admitted hinit hcall
    refine ⟨id, ?_, nofun⟩
    rcases Module.cFinalize_spec hcall with ⟨hno, _⟩ | ⟨_, _, rfl, _⟩
    · exact absurd rfl hno
    · have hnext : (stage es).next ⟨.setup .cFinalize, code⟩ = .down := by
        have hcode := hcode.mpr rfl
        cases stage es <;> exact if_pos hcode
      rw [hnext]
      rfl

/-- Of the work of a tool the module sees only the requests for random bytes. -/
theorem Relayed.draws {q : ToolRequest} {ans : q.Answer}
    (h : Relayed ⟨.work sess q, ans⟩ c rv c') : ∃ len, q = .generateRandom len := by
  cases h with
  | @generateRandom _ _ len => exact ⟨len, rfl⟩

/-- What is no call of the module leaves the tool where it is. -/
theorem Foreign.stays (h : Foreign e.request) (st : Stage) : st.next e = st ∧ listed e = [] := by
  obtain ⟨q, ans⟩ := e
  cases q with
  | loadModule path => cases st <;> exact ⟨rfl, rfl⟩
  | openRandom => cases st <;> exact ⟨rfl, rfl⟩
  | work sess q => cases st <;> exact ⟨rfl, rfl⟩
  | setup q => exact h.elim
  | cGetTokenInfo slot => exact h.elim
  | cCloseSession sess => exact h.elim

theorem Named.snoc (h : Named (es ++ [e]) slot) : Named es slot ∨ slot ∈ listed e := by
  rcases h with rfl | h
  · exact .inl (.inl rfl)
  · rw [List.flatMap_append, List.mem_append, List.flatMap_singleton] at h
    exact h.imp .inr id

/-- The module stays where the tool thinks it is, and refuses nothing. -/
theorem Served.spec (hs : Served P cfg es rvs m w) (hlaw : Lawful Proper es) :
    ModuleRun P cfg m w ∧ (∀ rv ∈ rvs, ¬ rv.Refusal) ∧ Matches (stage es) m ∧
      ∀ slot, Named es slot → slot = 0 := by
  induction hs with
  | started hg ht hl =>
    refine ⟨.started hg ht hl, by simp, rfl, fun slot hnamed => ?_⟩
    rcases hnamed with rfl | hmem
    · rfl
    · cases hmem
  | elapsed _ hg ht hl ih =>
    obtain ⟨hrun, hrest⟩ := ih hlaw
    exact ⟨.elapsed hrun hg ht hl, hrest⟩
  | @called es rvs m m' w w' e c c' rv _ hc hrel ih =>
    obtain ⟨hlaw, hproper⟩ := lawful_snoc.mp hlaw
    obtain ⟨hrun, hrvs, hm, hnames⟩ := ih hlaw
    obtain ⟨hrv, hm', hlisted⟩ := hrel.admitted hc hrun.inv hm hproper hnames
    refine ⟨AnyCall.continues hrun hc, fun x hx => ?_, ?_, fun slot hnamed => ?_⟩
    · rcases List.mem_append.mp hx with hx | hx
      · exact hrvs x hx
      · rwa [List.mem_singleton.mp hx]
    · rwa [stage_snoc]
    · exact hnamed.snoc.elim (hnames slot) (hlisted slot)
  | @other es rvs m w e _ hforeign ih =>
    obtain ⟨hrun, hrvs, hm, hnames⟩ := ih (lawful_snoc.mp hlaw).1
    obtain ⟨hstage, hlisted⟩ := hforeign.stays (stage es)
    refine ⟨hrun, hrvs, by rwa [stage_snoc, hstage], fun slot hnamed => ?_⟩
    refine hnamed.snoc.elim (hnames slot) fun hmem => ?_
    rw [hlisted] at hmem
    cases hmem

/-- What the loop of a tool asked for in a session was answered by that session. -/
theorem Served.attached {fs : List ToolReply}
    (hs : Served P cfg (p ++ fs.map (work sess).reply) rvs m w) :
    ∃ rvs₀ m₀ w₀, Served P cfg p rvs₀ m₀ w₀ ∧ Attached P sess m₀ w₀ fs m w := by
  generalize hes : p ++ fs.map (work sess).reply = es at hs
  induction hs generalizing fs with
  | started hg ht hl =>
    obtain ⟨rfl, hfs⟩ := List.append_eq_nil_iff.mp hes
    obtain rfl := List.map_eq_nil_iff.mp hfs
    exact ⟨_, _, _, .started hg ht hl, .start⟩
  | elapsed _ hg ht hl ih =>
    obtain ⟨rvs₀, m₀, w₀, hs₀, hatt⟩ := ih hes
    exact ⟨rvs₀, m₀, w₀, hs₀, hatt.elapsed hg ht hl⟩
  | @called es rvs m m' w w' e c c' rv hs hc hrel ih =>
    rcases List.eq_nil_or_concat fs with rfl | ⟨fs, f, rfl⟩
    · obtain rfl : p = es ++ [e] := by simpa using hes
      exact ⟨_, _, _, hs.called hc hrel, .start⟩
    · rw [List.concat_eq_append, List.map_append, ← List.append_assoc] at hes
      obtain ⟨hbefore, he⟩ := List.append_inj' hes rfl
      obtain rfl : (work sess).reply f = e := List.singleton_inj.mp he
      obtain ⟨rvs₀, m₀, w₀, hs₀, hatt⟩ := ih hbefore
      refine ⟨rvs₀, m₀, w₀, hs₀, ?_⟩
      rw [List.concat_eq_append]
      obtain ⟨q, ans⟩ := f
      obtain ⟨len, rfl⟩ := Relayed.draws hrel
      obtain ⟨code, block⟩ := ans
      replace hrel : Relayed ⟨.work sess (.generateRandom len), (code, block)⟩ c rv c' := hrel
      cases hrel with
      | @generateRandom _ _ _ buf _ _ hlen hlt hcode =>
        obtain ⟨e', he, hinv⟩ := AnyCall.of_eq_some.mp hc
        cases he
        obtain ⟨⟨_, _, _⟩, _, hcall, he⟩ := bind_eq_some.mp hinv
        cases he
        exact hatt.generated hlen hlt hcall hcode
  | @other es rvs m w e hs hforeign ih =>
    rcases List.eq_nil_or_concat fs with rfl | ⟨fs, f, rfl⟩
    · obtain rfl : p = es ++ [e] := by simpa using hes
      exact ⟨_, _, _, hs.other hforeign, .start⟩
    · rw [List.concat_eq_append, List.map_append, ← List.append_assoc] at hes
      obtain ⟨hbefore, he⟩ := List.append_inj' hes rfl
      obtain rfl : (work sess).reply f = e := List.singleton_inj.mp he
      obtain ⟨rvs₀, m₀, w₀, hs₀, hatt⟩ := ih hbefore
      refine ⟨rvs₀, m₀, w₀, hs₀, ?_⟩
      rw [List.concat_eq_append]
      refine hatt.other ?_
      obtain ⟨q, ans⟩ := f
      cases q with
      | generateRandom len => exact absurd rfl (hforeign len)
      | _ => rfl

/-- What was asked first was answered first. -/
theorem Served.before {fs : List ClientReply} (hs : Served P cfg (es ++ fs) rvs m w) :
    ∃ rvs₀ m₀ w₀, Served P cfg es rvs₀ m₀ w₀ := by
  induction fs using List.reverseRecOn generalizing rvs m w with
  | nil => exact ⟨rvs, m, w, by simpa using hs⟩
  | append_singleton fs e ih =>
    rw [← List.append_assoc] at hs
    generalize hes : es ++ fs ++ [e] = all at hs
    induction hs with
    | started _ _ _ => simp at hes
    | elapsed _ _ _ _ ih' => exact ih' hes
    | called hs _ _ _ =>
      obtain ⟨rfl, _⟩ := List.append_inj' hes rfl
      exact ih hs
    | other hs _ _ =>
      obtain ⟨rfl, _⟩ := List.append_inj' hes rfl
      exact ih hs

/-- A module that was last asked to finalize is not initialized. -/
theorem Served.finalized {code : CkUlong}
    (hs : Served P cfg (es ++ [⟨.setup .cFinalize, code⟩]) rvs m w) : m.initialized = false := by
  generalize hes : es ++ [⟨.setup .cFinalize, code⟩] = all at hs
  induction hs with
  | started _ _ _ => simp at hes
  | elapsed _ _ _ _ ih => exact ih hes
  | @called _ _ m m' w w' e c c' rv _ hc hrel _ =>
    obtain ⟨_, he⟩ := List.append_inj' hes rfl
    obtain rfl := List.singleton_inj.mp he
    cases hrel with
    | cFinalize _ =>
      obtain ⟨e', he, hinv⟩ := AnyCall.of_eq_some.mp hc
      cases he
      obtain ⟨⟨_, _⟩, _, hcall, he⟩ := bind_eq_some.mp hinv
      cases he
      cases hinit : m.initialized with
      | true =>
        rcases Module.cFinalize_spec hcall with ⟨hno, _⟩ | ⟨_, _, rfl, _⟩
        · exact absurd (cFinalize_admitted hinit hcall) hno
        · rfl
      | false =>
        rcases Module.cFinalize_spec hcall with ⟨_, rfl, _⟩ | ⟨_, hup, _⟩
        · exact hinit
        · rw [hinit] at hup
          cases hup
  | other _ hforeign _ =>
    obtain ⟨_, he⟩ := List.append_inj' hes rfl
    obtain rfl := List.singleton_inj.mp he
    exact hforeign.elim

variable {H : Type} {C : ClientHost H} {t : Client} {env : H} {ending : Ending} {u : ClientWorld H}

/-- Whatever the devices do, the module refuses no call of a tool, which may be cut short anywhere.
A tool that ends as it should leaves the module finalized, holding neither a context nor a
connection. What it asks for while a session is open is answered by that session. -/
theorem calls_admitted {es : List ClientReply} (hmain : t.main C ⟨env, []⟩ = some (ending, u))
    (hcut : es <+: u.trace) (hs : Served P cfg es rvs m w) : (∀ rv ∈ rvs, ¬ rv.Refusal) ∧
    (es = u.trace → t.Orderly ending → m.initialized = false ∧ established w.trace = none ∧
      balance Exchange.deal w.trace = 0) ∧
    ∀ pre sess fs post, es = pre ++ fs.map (work sess).reply ++ post →
      stage pre = .opened sess → ∃ m₀ w₀ s m₁ w₁, ModuleRun P cfg m₀ w₀ ∧
        m₀.session sess = some s ∧ Attached P sess m₀ w₀ fs m₁ w₁ := by
  obtain ⟨hall, hclosed⟩ := t.main_proper hmain
  obtain ⟨rest, hrest⟩ := hcut
  have hlaw : Lawful Proper es := (hrest ▸ hall).of_append
  obtain ⟨hrun, hrvs, hm, _⟩ := hs.spec hlaw
  refine ⟨hrvs, fun hwhole horderly => ?_, fun pre sess fs post hsplit hopen => ?_⟩
  · subst hwhole
    have hinit : m.initialized = false := by
      rcases hclosed horderly with hdown | ⟨pre, code, hlast⟩
      · rw [hdown] at hm
        exact hm
      · rw [hlast] at hs
        exact hs.finalized
    exact ⟨hinit, hrun.idle hinit⟩
  · rw [hsplit] at hs hlaw
    obtain ⟨_, m₁, w₁, hs₁⟩ := hs.before
    obtain ⟨_, m₀, w₀, hs₀, hatt⟩ := hs₁.attached
    obtain ⟨hrun₀, _, hm₀, _⟩ := hs₀.spec hlaw.of_append.of_append
    rw [hopen] at hm₀
    obtain ⟨_, ⟨s, hsess⟩, _⟩ := hm₀
    exact ⟨m₀, w₀, s, m₁, w₁, hrun₀, hsess, hatt⟩

/-- The module on two generators, as p11rand-read finds it, on a kernel that does what it is asked.
-/
def furnished (block : Vector UInt8 32) : ClientHost Unit where
  answer
    | .setup (.cGetSlotList _ room _), e =>
      ((ckrOk, Vector.replicate (room.getD 0) (some 0), 1), e)
    | .setup (.cOpenSession _ _), e => ((ckrOk, 1), e)
    | .setup .cInitialize, e => (ckrOk, e)
    | .setup .cFinalize, e => (ckrOk, e)
    | .setup (.cGetSlotInfo _), e => (ckrOk, e)
    | .cGetTokenInfo _, e => (ckrOk, e)
    | .cCloseSession _, e => (ckrOk, e)
    | .work _ q, e => (Read.feeding block).answer q e
    | .loadModule _, e => (.ok (), e)
    | .openRandom, e => (.ok (), e)

theorem emitStream_feeding (block : Vector UInt8 32) :
    Read.emitStream (Read.feeding block) Read.oneRound ⟨(), []⟩ =
      some (0, ⟨(), Read.exchanges block⟩) := by
  have hgive : ask (Read.feeding block) (.generateRandom (Read.wanted Read.oneRound 0))
      ⟨(), [⟨.signalCount, (0 : Int32)⟩]⟩ = some ((ckrOk, block), _) := Read.ask_feeding block _
  have hstep := Read.readStep_of_write (a := Read.oneRound) (p := 0) (w := ⟨(), []⟩) rfl (by decide)
    hgive rfl (Read.writeFull_feeding block _)
  have hloop := (loop_of_inl hstep).trans (loop_of_inr rfl)
  exact (bind_of_eq hloop).trans rfl

/-- What is asked of the module until the session is open. -/
def opening : List ClientReply := [⟨.loadModule "p11rand.so", .ok ()⟩, ⟨.setup .cInitialize, ckrOk⟩,
  ⟨.setup (.cGetSlotList ckTrue none 0), (ckrOk, Vector.replicate 0 (some 0), 1)⟩,
  ⟨.setup (.cGetSlotList ckTrue (some 1) 1), (ckrOk, Vector.replicate 1 (some 0), 1)⟩,
  ⟨.setup (.cOpenSession 0 ckfSerialSession), (ckrOk, 1)⟩]

def closing : List ClientReply := [⟨.cCloseSession 1, ckrOk⟩, ⟨.setup .cFinalize, ckrOk⟩]

theorem main_furnished (block : Vector UInt8 32) :
    (Client.read Read.oneRound).main (furnished block) ⟨(), []⟩ = some (.returned 0,
      ⟨(), opening ++ (Read.exchanges block).map (work 1).reply ++ closing⟩) := by
  have hload : ask (furnished block) (.loadModule "p11rand.so") ⟨(), []⟩ =
      some (.ok (), ⟨(), opening.take 1⟩) := rfl
  have hsetup : setup.run (Read.openSlot (setup.host (furnished block))) ⟨(), opening.take 1⟩ =
      some (.ok (0, 1), ⟨(), opening⟩) := rfl
  have hwork : (work 1).run (Read.emitStream ((work 1).host (furnished block)) Read.oneRound)
      ⟨(), opening⟩ =
        some (0, ⟨(), opening ++ (Read.exchanges block).map (work 1).reply⟩) :=
    Facet.run_eq_some.mpr ⟨_, emitStream_feeding block, rfl⟩
  refine (bind_of_eq hload).trans ((bind_of_eq hsetup).trans ((bind_of_eq hwork).trans ?_))
  exact congrArg (fun es => some (Ending.returned 0, (⟨(), es⟩ : ClientWorld Unit)))
    (List.append_assoc ..)

/-- The one slot of the two generators is always listed. -/
theorem cGetSlotList_pair (pList : Option (List CkUlong)) (count : CkUlong)
    (hroom : ∀ list, pList = some list → count.toNat ≤ list.length) (trace : List Exchange) :
    ∃ trace', (Bench.pairModule 0).cGetSlotList Bench.generators.machine Bench.pair ckTrue pList
      (some count) (Bench.idle trace) = some (((answered [0] pList count).1, Bench.pairModule 0,
        (answered [0] pList count).2), Bench.idle trace') := by
  obtain ⟨trace', hfill⟩ := Bench.fillable_idle trace
  have hprobes : listing Bench.generators.machine Bench.pair (ckTrue == ckTrue)
      (Bench.pairModule 0).slots.length (Bench.idle trace) = some ([true], Bench.idle trace') :=
    (bind_of_eq hfill).trans rfl
  exact ⟨trace', cGetSlotList_eq ckTrue pList count rfl hroom hprobes⟩

/-- The end of a tool, on a module that has a session open. -/
theorem Served.closes {s : Session} (hs : Served P cfg es rvs m w) (hm : m.initialized = true)
    (hsess : m.session 1 = some s) :
    ∃ m' w', Served P cfg (es ++ closing) (rvs ++ [.ok, .ok]) m' w' := by
  have hanswer : Yields (Invocation.run P cfg m (.cCloseSession 1)) w
      (Settled m w (.cCloseSession 1)) := cCloseSession_answers
  obtain ⟨⟨rv, m₁, e₁⟩, w₁, hclose, _⟩ := hanswer
  obtain ⟨⟨_, _⟩, _, hcall, he⟩ := bind_eq_some.mp hclose
  cases he
  obtain rfl := cCloseSession_admitted hm (found_of_session hsess) hcall
  have hclosed := hs.called (e := ⟨.cCloseSession 1, ckrOk⟩)
    (AnyCall.of_eq_some.mpr ⟨_, rfl, hclose⟩) (.cCloseSession (by simp))
  have hm₁ : m₁.initialized = true := by
    rcases Module.cCloseSession_spec hcall with ⟨hno, _⟩ | ⟨_, _, _, _, rfl⟩
    · exact absurd rfl hno
    · exact hm
  have hanswer : Yields (Invocation.run P cfg m₁ (.cFinalize true)) w₁
      (Settled m₁ w₁ (.cFinalize true)) := cFinalize_answers true
  obtain ⟨⟨rv, m₂, e₂⟩, w₂, hfinalize, _⟩ := hanswer
  obtain ⟨⟨_, _⟩, _, hcall', he⟩ := bind_eq_some.mp hfinalize
  cases he
  obtain rfl := cFinalize_admitted hm₁ hcall'
  have hfinalized := hclosed.called (e := ⟨.setup .cFinalize, ckrOk⟩)
    (AnyCall.of_eq_some.mpr ⟨_, rfl, hfinalize⟩) (.cFinalize (by simp))
  rw [List.append_assoc, List.append_assoc] at hfinalized
  exact ⟨m₂, w₂, hfinalized⟩

theorem served_furnished : ∃ (m : Module) (w : World Unit),
    Served Bench.generators.machine Bench.pair
      (opening ++ (Read.exchanges Bench.pairRound.out).map (work 1).reply ++ closing)
        (List.replicate 7 .ok) m w := by
  obtain ⟨trace₁, hinit⟩ := Bench.cInitialize_pair
  obtain ⟨trace₂, hcount⟩ := cGetSlotList_pair none 0 nofun trace₁
  obtain ⟨trace₃, hlist⟩ := cGetSlotList_pair (some [0]) 1 (fun _ h => by cases h; decide) trace₂
  obtain ⟨trace₄, hopen⟩ := Bench.cOpenSession_pair Nat.zero_lt_two trace₃
  obtain ⟨m, w, _, hgen⟩ := Bench.cGenerateRandom_pair 0 trace₄
  have hs : Served Bench.generators.machine Bench.pair opening (List.replicate 4 .ok)
      (Bench.pairModule 1) (Bench.idle trace₄) := by
    have hload : Served Bench.generators.machine Bench.pair (opening.take 1) [] Module.new
        (Bench.idle []) := .other (.started rfl rfl rfl) trivial
    have hup := hload.called (e := ⟨.setup .cInitialize, ckrOk⟩) (c := .cInitialize none)
      (bind_of_eq hinit) (.cInitialize (by simp))
    have hcounted := hup.called
      (e := ⟨.setup (.cGetSlotList ckTrue none 0), (ckrOk, Vector.replicate 0 (some 0), 1)⟩)
      (c := .of (.cGetSlotList ckTrue none (some 0)))
      (AnyCall.of_eq_some.mpr ⟨_, rfl, bind_of_eq hcount⟩) (.cGetSlotList (iff_of_true rfl rfl))
    have hlisted := hcounted.called
      (e := ⟨.setup (.cGetSlotList ckTrue (some 1) 1), (ckrOk, Vector.replicate 1 (some 0), 1)⟩)
      (c := .of (.cGetSlotList ckTrue (some [0]) (some 1)))
      (AnyCall.of_eq_some.mpr ⟨_, rfl, bind_of_eq hlist⟩) (.cGetSlotList (iff_of_true rfl rfl))
    exact hlisted.called (e := ⟨.setup (.cOpenSession 0 ckfSerialSession), (ckrOk, 1)⟩)
      (c := .of (.cOpenSession 0 ckfSerialSession (some 0)))
      (AnyCall.of_eq_some.mpr ⟨_, rfl, bind_of_eq hopen⟩) (.cOpenSession (iff_of_true rfl rfl))
  have hinterrupted := hs.other (e := ⟨.work 1 .signalCount, (0 : Int32)⟩) nofun
  have hdrawn := hinterrupted.called
    (e := ⟨.work 1 (.generateRandom 32), (ckrOk, Bench.pairRound.out)⟩)
    (c := .of (.cGenerateRandom 1 (some (zeros 32)) 32))
    (AnyCall.of_eq_some.mpr ⟨_, rfl, bind_of_eq hgen⟩)
    (.generateRandom List.length_replicate (by decide) (iff_of_true rfl rfl))
  have hworked := ((hdrawn.other (e := ⟨.work 1 .signalCount, (0 : Int32)⟩) nofun).other
    (e := ⟨.work 1 (.writeOut Bench.pairRound.out.toList), .ok (Fin.last _)⟩) nofun).other
    (e := ⟨.work 1 .signalCount, (0 : Int32)⟩) nofun
  replace hworked : Served Bench.generators.machine Bench.pair
      (opening ++ (Read.exchanges Bench.pairRound.out).map (work 1).reply) (List.replicate 5 .ok)
        m w := hworked
  -- the calls so far are those of a run, and so the module is where they have brought it
  have hlaw := ((Client.read Read.oneRound).main_proper (main_furnished Bench.pairRound.out)).1
  obtain ⟨_, _, ⟨hm, ⟨s, hsess⟩, _⟩, _⟩ := hworked.spec hlaw.of_append
  exact hworked.closes hm hsess

/-- p11rand-read takes one block from the module of two generators. -/
theorem calls_admitted_pair : ∃ (u : ClientWorld Unit) (rvs : List Rv) (m : Module)
    (w : World Unit),
    (Client.read Read.oneRound).main (furnished Bench.pairRound.out) ⟨(), []⟩ =
      some (.returned 0, u) ∧
    Served Bench.generators.machine Bench.pair u.trace rvs m w ∧ rvs.length = 7 ∧
    (∀ rv ∈ rvs, ¬ rv.Refusal) ∧ m.initialized = false ∧ balance Exchange.deal w.trace = 0 ∧
    ∃ m₀ w₀ s m₁ w₁, ModuleRun Bench.generators.machine Bench.pair m₀ w₀ ∧
      m₀.session 1 = some s ∧ Attached Bench.generators.machine 1 m₀ w₀
        (Read.exchanges Bench.pairRound.out) m₁ w₁ := by
  obtain ⟨m, w, hs⟩ := served_furnished
  have hmain := main_furnished Bench.pairRound.out
  obtain ⟨hrvs, hended, hsession⟩ := calls_admitted hmain List.prefix_rfl hs
  obtain ⟨hinit, _, hheld⟩ := hended rfl trivial
  exact ⟨_, _, m, w, hmain, hs, rfl, hrvs, hinit, hheld, hsession _ _ _ _ rfl rfl⟩

end P11Rand.Tools.Client
