import P11Rand.Holdings
import P11Rand.Sessions
import P11Rand.SlotList
import P11Rand.Tools.Wait

/-! p11rand-wait on the module: what its exit code says of the devices. -/
namespace P11Rand.Tools.Wait

open Effect Run

variable {H W : Type} {T : WaitHost H} {P : Platform W} {cfg : Config} {m m' : Module}
  {w w' : World W} {us : List (World W)} {a : Args} {start : Nat} {es : List WaitReply}
  {exit : Exit} {res : Except Failure Exit} {rv : Rv} {code n : CkUlong}

/-- Not a call of the module. -/
def WaitRequest.Foreign : WaitRequest → Prop
  | .cInitialize | .cGetSlotList _ _ | .cFinalize => False
  | _ => True

/-- The module, in a process that has just loaded it, answers the calls of the tool; the worlds are
those in which it was polled. -/
inductive Serves (P : Platform W) (cfg : Config) :
    List WaitReply → List (World W) → Module → World W → Prop
  | started {w : World W} : w.global = ⟨none, 0⟩ → w.trace = [] → w.log = [] →
      Serves P cfg [] [] Module.new w
  | elapsed {es : List WaitReply} {us : List (World W)} {m : Module} {w w' : World W} :
      Serves P cfg es us m w → w'.global = w.global → w'.trace = w.trace → w'.log = w.log →
      Serves P cfg es us m w'
  | initialized {es : List WaitReply} {us : List (World W)} {m m' : Module} {w w' : World W}
      {rv : Rv} {code : CkUlong} : Serves P cfg es us m w →
      m.cInitialize P cfg none w = some ((rv, m'), w') → (code = ckrOk ↔ rv = .ok) →
      Serves P cfg (es ++ [⟨.cInitialize, code⟩]) us m' w'
  | polled {es : List WaitReply} {us : List (World W)} {m m' : Module} {w w' : World W} {rv : Rv}
      {count code n : CkUlong} {list : Option (List CkUlong)} : Serves P cfg es us m w →
      m.cGetSlotList P cfg ckTrue none (some count) w = some ((rv, m', list, some n), w') →
      (code = ckrOk ↔ rv = .ok) →
      Serves P cfg (es ++ [⟨.cGetSlotList ckTrue count, (code, n)⟩]) (us ++ [w]) m' w'
  | finalized {es : List WaitReply} {us : List (World W)} {m m' : Module} {w w' : World W}
      {rv : Rv} {code : CkUlong} : Serves P cfg es us m w →
      m.cFinalize P cfg true w = some ((rv, m'), w') → (code = ckrOk ↔ rv = .ok) →
      Serves P cfg (es ++ [⟨.cFinalize, code⟩]) us m' w'
  | other {es : List WaitReply} {us : List (World W)} {m : Module} {w : World W} {e : WaitReply} :
      Serves P cfg es us m w → e.request.Foreign → Serves P cfg (es ++ [e]) us m w

/-- A pool could be filled, as far as `fillable` can tell. -/
def Fills (P : Platform W) (cfg : Config) (w : World W) : Prop :=
  ∃ w', fillable P cfg w = some (.ok true, w')

/-- What a tool has seen of the module: whether it is initialized, and the answers to the polls,
each with whether it was then. -/
structure Seen where
  live : Bool
  polls : List (Bool × CkUlong × CkUlong)

def Seen.next (s : Seen) : WaitReply → Seen
  | ⟨.cInitialize, code⟩ => { s with live := s.live || code == ckrOk }
  | ⟨.cGetSlotList _ _, ans⟩ => { s with polls := s.polls ++ [(s.live, ans)] }
  | ⟨.cFinalize, _⟩ => { s with live := false }
  | _ => s

def seen (es : List WaitReply) : Seen := es.foldl Seen.next ⟨false, []⟩

@[simp] theorem seen_snoc (es : List WaitReply) (e : WaitReply) :
    seen (es ++ [e]) = (seen es).next e := by
  simp [seen]

/-- A filtered count is positive exactly if the pool of the one slot can be filled. -/
theorem poll_ready_iff {count : CkUlong} {list : Option (List CkUlong)} (hm : m.Inv cfg)
    (hc : m.cGetSlotList P cfg ckTrue none (some count) w = some ((rv, m', list, some n), w'))
    (hcode : code = ckrOk ↔ rv = .ok) :
    m'.initialized = m.initialized ∧
      (Ready (code, n) ↔ m.initialized = true ∧ Fills P cfg w) := by
  cases hinit : m.initialized with
  | false =>
    rw [Module.cGetSlotList, if_pos (by simp [hinit])] at hc
    cases hc
    have hno : code ≠ ckrOk := fun h => by cases hcode.mp h
    simp [Ready, hno, hinit]
  | true =>
    obtain ⟨r, v, hfill, _⟩ := fillable_total (P := P) cfg w
    have hlen : m.slots.length = 1 := by simpa using congrArg List.length (hm.published hinit)
    have hprobes : listing P cfg (ckTrue == ckTrue) m.slots.length w =
        some ([r.toOption.getD false], v) := by
      rw [hlen]
      exact (bind_of_eq hfill).trans rfl
    rw [cGetSlotList_eq ckTrue none count hinit (fun _ h => by cases h) hprobes] at hc
    cases hc
    have hfills : Fills P cfg w ↔ r = .ok true := by
      constructor
      · rintro ⟨v', h⟩
        rw [hfill] at h
        cases h
        rfl
      · rintro rfl
        exact ⟨_, hfill⟩
    have hcount : 1 ≤ UInt64.ofNat (flagged [r.toOption.getD false]).length ↔ r = .ok true := by
      have hnone : ¬ 1 ≤ UInt64.ofNat (flagged [false]).length := by decide
      match r with
      | .ok true => exact iff_of_true (by decide) rfl
      | .ok false => exact iff_of_false hnone nofun
      | .error e => exact iff_of_false hnone nofun
    refine ⟨hinit, ?_⟩
    rw [hfills, ← hcount]
    exact ⟨fun h => ⟨rfl, h.2⟩, fun h => ⟨hcode.mpr rfl, h.2⟩⟩

theorem Serves.spec (hs : Serves P cfg es us m w) : ModuleRun P cfg m w ∧
    m.initialized = (seen es).live ∧ List.Forall₂
      (fun p v => Ready p.2 ↔ p.1 = true ∧ Fills P cfg v) (seen es).polls us := by
  induction hs with
  | started hg ht hl => exact ⟨.started hg ht hl, rfl, .nil⟩
  | elapsed _ hg ht hl ih => exact ⟨.elapsed ih.1 hg ht hl, ih.2⟩
  | @initialized es us m m' w w' rv code _ hc hcode ih =>
    obtain ⟨hrun, hlive, hpolls⟩ := ih
    rw [seen_snoc]
    refine ⟨.called (c := .cInitialize none) hrun hc, ?_, hpolls⟩
    rcases Module.cInitialize_spec hc with ⟨hno, rfl, _⟩ | ⟨hok, _, ⟨present, rfl⟩, _⟩
    · have hne : (code == ckrOk) = false := by simpa using fun h => hno (hcode.mp h)
      simpa [Seen.next, hne] using hlive
    · have heq : (code == ckrOk) = true := by simpa using hcode.mpr hok
      simp [Seen.next, heq]
  | @polled es us m m' w w' rv count code n list _ hc hcode ih =>
    obtain ⟨hrun, hlive, hpolls⟩ := ih
    obtain ⟨hinit, hready⟩ := poll_ready_iff hrun.inv hc hcode
    rw [seen_snoc]
    refine ⟨.called (c := .cGetSlotList ckTrue none (some count)) hrun (bind_of_eq hc),
      hinit.trans hlive, ?_⟩
    refine List.rel_append hpolls (.cons ?_ .nil)
    rw [← hlive]
    exact hready
  | @finalized es us m m' w w' rv code _ hc hcode ih =>
    obtain ⟨hrun, hlive, hpolls⟩ := ih
    rw [seen_snoc]
    refine ⟨.called (c := .cFinalize true) hrun hc, ?_, hpolls⟩
    unfold Module.cFinalize at hc
    rw [if_neg (by simp)] at hc
    split at hc
    · rename_i hinit
      cases hc
      exact Bool.eq_false_of_not_eq_true hinit
    · obtain ⟨_, _, _, hc⟩ := bind_eq_some.mp hc
      obtain ⟨_, _, _, hc⟩ := bind_eq_some.mp hc
      cases hc
      rfl
  | @other es us m w e _ he ih =>
    obtain ⟨hrun, hlive, hpolls⟩ := ih
    have hsame : (seen es).next e = seen es := by
      obtain ⟨q, ans⟩ := e
      cases q <;> first | rfl | exact he.elim
    rw [seen_snoc, hsame]
    exact ⟨hrun, hlive, hpolls⟩

/-- The answers to the polls. -/
def answers (es : List WaitReply) : List (CkUlong × CkUlong) :=
  es.filterMap fun e => match e with
    | ⟨.cGetSlotList _ _, ans⟩ => some ans
    | _ => none

@[simp] theorem answers_append (es fs : List WaitReply) :
    answers (es ++ fs) = answers es ++ answers fs := List.filterMap_append

@[simp] theorem answers_poll (count : CkUlong) (ans : CkUlong × CkUlong) (es : List WaitReply) :
    answers (⟨.cGetSlotList ckTrue count, ans⟩ :: es) = ans :: answers es := rfl

/-- The module stays initialized, or not, in spite of the request. -/
def WaitRequest.Lasting : WaitRequest → Prop
  | .cInitialize | .cFinalize => False
  | _ => True

theorem foldl_next (h : ∀ e ∈ es, e.request.Lasting) (live : Bool)
    (ps : List (Bool × CkUlong × CkUlong)) :
    es.foldl Seen.next ⟨live, ps⟩ = ⟨live, ps ++ (answers es).map (live, ·)⟩ := by
  induction es generalizing ps with
  | nil => simp [answers]
  | cons e es ih =>
    have hrest := ih fun x hx => h x (List.mem_cons_of_mem _ hx)
    have he := h e List.mem_cons_self
    obtain ⟨q, ans⟩ := e
    rw [List.foldl_cons]
    cases q with
    | cInitialize => exact he.elim
    | cFinalize => exact he.elim
    | cGetSlotList filter count =>
      have hcons : answers (⟨.cGetSlotList filter count, ans⟩ :: es) = ans :: answers es := rfl
      rw [hcons, List.map_cons, List.append_cons]
      exact hrest _
    | _ => exact hrest ps

/-- The clock is no part of the module. -/
theorem Looked.foreign {o : Option F64} (h : Looked a start o es) :
    (∀ e ∈ es, e.request.Lasting) ∧ answers es = [] := by
  cases h <;> simp [WaitRequest.Lasting, answers]

/-- A pass that finds the module not ready. -/
theorem Looked.pass {o : Option F64} {clock : List WaitReply} (h : Looked a start o clock)
    (ans : CkUlong × CkUlong) (n : Int32) :
    (∀ e ∈ (⟨.cGetSlotList ckTrue 0, ans⟩ :: ⟨.signalCount, n⟩ :: clock : List WaitReply),
        e.request.Lasting) ∧
      answers (⟨.cGetSlotList ckTrue 0, ans⟩ :: ⟨.signalCount, n⟩ :: clock) = [ans] := by
  obtain ⟨hlasting, hnone⟩ := h.foreign
  constructor
  · intro e he
    rcases List.mem_cons.mp he with rfl | he
    · trivial
    rcases List.mem_cons.mp he with rfl | he
    · trivial
    · exact hlasting e he
  · exact congrArg (ans :: ·) hnone

/-- The passes after which the wait goes on have found no module that is ready. -/
theorem Waited.found (h : Waited a start es) :
    (∀ e ∈ es, e.request.Lasting) ∧ ∀ ans ∈ answers es, ¬ Ready ans := by
  induction h with
  | nil => simp [answers]
  | @pass es clock ans n _ hans _ hlooked ih =>
    obtain ⟨hlasting, hready⟩ := ih
    obtain ⟨hpass, hone⟩ := hlooked.pass ans n
    rw [answers_append, answers_append, hone]
    constructor
    · intro e he
      rcases List.mem_append.mp he with he | he
      · exact hlasting e he
      rcases List.mem_append.mp he with he | he
      · exact hpass e he
      · rw [List.mem_singleton.mp he]
        trivial
    · intro x hx
      rcases List.mem_append.mp hx with hx | hx
      · exact hready x hx
      · obtain rfl : x = ans := by simpa [answers] using hx
        exact hans

/-- The last pass decides whether the wait was for anything. -/
theorem Ended.found (h : Ended a start exit es) : (∀ e ∈ es, e.request.Lasting) ∧
    ∃ before ans, answers es = before ++ [ans] ∧ (∀ x ∈ before, ¬ Ready x) ∧
      (Ready ans ↔ exit = .ready) := by
  cases h with
  | @ready es ans hw hans =>
    obtain ⟨hlasting, hready⟩ := hw.found
    refine ⟨?_, answers es, ans, answers_append es _, hready, iff_of_true hans rfl⟩
    intro e he
    rcases List.mem_append.mp he with he | he
    · exact hlasting e he
    · rw [List.mem_singleton.mp he]
      trivial
  | @interrupted es ans n hw hans _ =>
    obtain ⟨hlasting, hready⟩ := hw.found
    refine ⟨?_, answers es, ans, answers_append es _, hready, iff_of_false hans nofun⟩
    intro e he
    rcases List.mem_append.mp he with he | he
    · exact hlasting e he
    · rcases List.mem_pair.mp he with rfl | rfl <;> trivial
  | @timedOut es clock ans n t hw hans _ hlooked =>
    obtain ⟨hlasting, hready⟩ := hw.found
    obtain ⟨hpass, hone⟩ := hlooked.pass ans n
    refine ⟨?_, answers es, ans, by rw [answers_append, hone], hready, iff_of_false hans nofun⟩
    exact fun e he => (List.mem_append.mp he).elim (hlasting e) (hpass e)

/-- What a run of the tool has seen of the module. -/
theorem Ran.seen (h : Ran a res es) : (seen es).live = false ∧
    match res with
    | .error _ => (seen es).polls = []
    | .ok exit => ∃ before ans, (seen es).polls = (before ++ [ans]).map (true, ·) ∧
        (∀ x ∈ before, ¬ Ready x) ∧ (Ready ans ↔ exit = .ready) := by
  cases h with
  | unloaded e => exact ⟨rfl, rfl⟩
  | refused hrv =>
    refine ⟨?_, rfl⟩
    simpa [Wait.seen, Seen.next] using hrv
  | @waited start exit es rv hended =>
    obtain ⟨hlasting, before, ans, hanswers, hbefore, hready⟩ := hended.found
    have hseen : Wait.seen ([⟨.loadModule a.module, .ok ()⟩, ⟨.cInitialize, ckrOk⟩,
        ⟨.now, start⟩] ++ es ++ [⟨.cFinalize, rv⟩]) = ⟨false, (answers es).map (true, ·)⟩ := by
      rw [seen_snoc, Wait.seen, List.foldl_append]
      have hlive : List.foldl Seen.next ⟨false, []⟩ [⟨.loadModule a.module, .ok ()⟩,
        ⟨.cInitialize, ckrOk⟩, ⟨.now, start⟩] = ⟨true, []⟩ := rfl
      rw [hlive, foldl_next hlasting]
      rfl
    rw [hseen]
    exact ⟨rfl, before, ans, by rw [hanswers], hbefore, hready⟩

/-- The polls of a live module found what they said. -/
theorem fills_of_polls {before : List (CkUlong × CkUlong)} {ans : CkUlong × CkUlong}
    (h : List.Forall₂ (fun p v => Ready p.2 ↔ p.1 = true ∧ Fills P cfg v)
      ((before ++ [ans]).map (true, ·)) us) (hbefore : ∀ x ∈ before, ¬ Ready x) :
    ∃ vs v, us = vs ++ [v] ∧ (∀ x ∈ vs, ¬ Fills P cfg x) ∧ (Ready ans ↔ Fills P cfg v) := by
  rw [List.forall₂_map_left_iff] at h
  have hback := List.forall₂_reverse_iff.mpr h
  rw [List.reverse_append] at hback
  rcases List.eq_nil_or_concat us with rfl | ⟨vs, v, rfl⟩
  · cases hback
  rw [List.concat_eq_append, List.reverse_append] at hback
  cases hback with
  | cons hlast hrest =>
    refine ⟨vs, v, List.concat_eq_append, fun x hx hfills => ?_, by simpa using hlast⟩
    have hall := List.forall₂_reverse_iff.mp hrest
    obtain ⟨i, hi, rfl⟩ := List.getElem_of_mem hx
    have hlt : i < before.length := by rw [hall.length_eq]; exact hi
    exact hbefore _ (List.getElem_mem hlt) ((hall.get hlt hi).mpr ⟨rfl, hfills⟩)

theorem seen_polls_prefix {es fs : List WaitReply} (h : es <+: fs) :
    (seen es).polls <+: (seen fs).polls := by
  obtain ⟨rest, rfl⟩ := h
  induction rest using List.reverseRecOn with
  | nil => rw [List.append_nil]
  | append_singleton rest e ih =>
    rw [← List.append_assoc, seen_snoc]
    refine ih.trans ?_
    obtain ⟨q, ans⟩ := e
    cases q with
    | cGetSlotList _ _ => exact List.prefix_append _ _
    | _ => exact List.prefix_rfl

/-- All but the last of the polls so far found nothing, if the tool went on after them. -/
theorem unfilled_of_cut {ps : List (Bool × CkUlong × CkUlong)} {before : List (CkUlong × CkUlong)}
    {ans : CkUlong × CkUlong}
    (h : List.Forall₂ (fun p v => Ready p.2 ↔ p.1 = true ∧ Fills P cfg v) ps us)
    (hcut : ps <+: (before ++ [ans]).map (true, ·)) (hbefore : ∀ x ∈ before, ¬ Ready x) :
    ∀ v ∈ us.dropLast, ¬ Fills P cfg v := by
  intro v hv hfills
  obtain ⟨i, hi, rfl⟩ := List.getElem_of_mem hv
  rw [List.length_dropLast] at hi
  rw [List.getElem_dropLast] at hfills
  have hlen := hcut.length_le
  rw [List.length_map, List.length_append, List.length_singleton, h.length_eq] at hlen
  have hps : i < ps.length := by rw [h.length_eq]; omega
  have hbound : i < before.length := by omega
  have hentry : ps[i] = (true, before[i]) := by
    rw [hcut.getElem hps, List.getElem_map, List.getElem_append_left hbound]
  have hready := h.get hps (by omega)
  rw [List.get_eq_getElem, hentry] at hready
  exact hbefore _ (List.getElem_mem _) (hready.mpr ⟨rfl, hfills⟩)

/-- A tool that reaches its end exits with success exactly if a poll found a pool that can be
filled, which is then the last one; it has polled unless the module could not be initialized; and
the module is left finalized, holding neither a context nor a connection. A tool that is cut short
has found nothing either before its last poll. -/
theorem ready_iff_fillable {env : H} {u : WaitWorld H}
    (hmain : main T a ⟨env, []⟩ = some (res, u)) (hcut : es <+: u.trace)
    (hs : Serves P cfg es us m w) : (∀ v ∈ us.dropLast, ¬ Fills P cfg v) ∧
    (es = u.trace → (res = .ok .ready ↔ ∃ v ∈ us, Fills P cfg v) ∧
      ((∃ exit, res = .ok exit) ↔ us ≠ []) ∧
      m.initialized = false ∧ established w.trace = none ∧
      balance Exchange.deal w.trace = 0) := by
  obtain ⟨fs, hfs, hran⟩ := main_ran hmain
  rw [List.nil_append] at hfs
  rw [hfs] at hcut ⊢
  obtain ⟨hrun, hlive, hpolls⟩ := hs.spec
  obtain ⟨hdead, hres⟩ := hran.seen
  have hpre := seen_polls_prefix hcut
  cases res with
  | error f =>
    replace hres : (seen fs).polls = [] := hres
    rw [hres] at hpre
    rw [List.prefix_nil.mp hpre] at hpolls
    cases hpolls
    refine ⟨nofun, fun hwhole => ?_⟩
    rw [hwhole, hdead] at hlive
    exact ⟨by simp, by simp, hlive, hrun.idle hlive⟩
  | ok exit =>
    obtain ⟨before, ans, heq, hbefore, hready⟩ := hres
    rw [heq] at hpre
    refine ⟨unfilled_of_cut hpolls hpre hbefore, fun hwhole => ?_⟩
    rw [hwhole, hdead] at hlive
    rw [hwhole, heq] at hpolls
    obtain ⟨vs, v, rfl, hvs, hv⟩ := fills_of_polls hpolls hbefore
    refine ⟨?_, by simp, hlive, hrun.idle hlive⟩
    rw [Except.ok.injEq, ← hready, hv]
    constructor
    · exact fun h => ⟨v, by simp, h⟩
    · rintro ⟨x, hx, hfills⟩
      rcases List.mem_append.mp hx with hx | hx
      · exact absurd hfills (hvs x hx)
      · rwa [← List.mem_singleton.mp hx]

/-- A module whose token is there from the start. -/
def furnished : WaitHost Unit where
  answer
    | .loadModule _, e => (.ok (), e)
    | .cInitialize, e => (ckrOk, e)
    | .cGetSlotList _ _, e => ((ckrOk, 1), e)
    | .signalCount, e => (0, e)
    | .now, e => (0, e)
    | .sleep _, e => ((), e)
    | .cFinalize, e => (ckrOk, e)

def plainArgs : Args := ⟨none, 500, false, "p11rand.so"⟩

theorem main_furnished : ∃ u, u.trace = [⟨.loadModule "p11rand.so", .ok ()⟩, ⟨.cInitialize, ckrOk⟩,
      ⟨.now, 0⟩, ⟨.cGetSlotList ckTrue 0, (ckrOk, 1)⟩, ⟨.cFinalize, ckrOk⟩] ∧
    main furnished plainArgs ⟨(), []⟩ = some (.ok .ready, u) := by
  have hloop : ∀ u : WaitWorld Unit, loop (waitStep furnished plainArgs 0) () u =
      some (.ready, ⟨(), u.trace ++ [⟨.cGetSlotList ckTrue 0, (ckrOk, 1)⟩]⟩) :=
    fun u => loop_of_inr rfl
  refine ⟨⟨(), _⟩, rfl, ?_⟩
  refine (bind_of_eq (ask_apply _ _)).trans ((bind_of_eq (ask_apply _ _)).trans ?_)
  exact (bind_of_eq (ask_apply _ _)).trans ((bind_of_eq (hloop _)).trans rfl)

theorem cGetSlotList_pair (trace : List Exchange) : ∃ trace',
    (Bench.pairModule 0).cGetSlotList Bench.generators.machine Bench.pair ckTrue none (some 0)
      (Bench.idle trace) = some ((.ok, Bench.pairModule 0, none, some 1), Bench.idle trace') := by
  obtain ⟨trace', hfill⟩ := Bench.fillable_idle trace
  have hprobes : listing Bench.generators.machine Bench.pair (ckTrue == ckTrue)
      (Bench.pairModule 0).slots.length (Bench.idle trace) = some ([true], Bench.idle trace') :=
    (bind_of_eq hfill).trans rfl
  exact ⟨trace', cGetSlotList_eq ckTrue none 0 rfl (fun _ h => by cases h) hprobes⟩

theorem cFinalize_pair (trace : List Exchange) :
    (Bench.pairModule 0).cFinalize Bench.generators.machine Bench.pair true (Bench.idle trace) =
      some ((.ok, Module.new), Bench.idle trace) := by
  rw [Module.cFinalize, if_neg (by simp), if_neg (by simp [Bench.pairModule])]
  exact bind_of_eq (Bench.sweep_generators _ 64 _)

/-- The module on two generators is ready at once. -/
theorem ready_iff_fillable_pair : ∃ (u : WaitWorld Unit) (v w : World Unit),
    main furnished plainArgs ⟨(), []⟩ = some (.ok .ready, u) ∧
    Serves Bench.generators.machine Bench.pair u.trace [v] Module.new w ∧
    Fills Bench.generators.machine Bench.pair v ∧ balance Exchange.deal w.trace = 0 := by
  obtain ⟨u, hu, hmain⟩ := main_furnished
  obtain ⟨trace₁, hinit⟩ := Bench.cInitialize_pair
  obtain ⟨trace₂, hpoll⟩ := cGetSlotList_pair trace₁
  have hs : Serves Bench.generators.machine Bench.pair u.trace [Bench.idle trace₁] Module.new
      (Bench.idle trace₂) := by
    rw [hu]
    have hload : Serves Bench.generators.machine Bench.pair [⟨.loadModule "p11rand.so", .ok ()⟩] []
        Module.new (Bench.idle []) := .other (.started rfl rfl rfl) trivial
    have hlive : Serves Bench.generators.machine Bench.pair
        [⟨.loadModule "p11rand.so", .ok ()⟩, ⟨.cInitialize, ckrOk⟩] [] (Bench.pairModule 0)
        (Bench.idle trace₁) := hload.initialized hinit (by simp)
    have hnow := Serves.other (e := ⟨.now, 0⟩) hlive trivial
    have hpolled := Serves.polled hnow hpoll (iff_of_true rfl rfl)
    exact hpolled.finalized (cFinalize_pair trace₂) (by simp)
  obtain ⟨_, hended⟩ := ready_iff_fillable hmain List.prefix_rfl hs
  obtain ⟨hready, _, _, _, hheld⟩ := hended rfl
  obtain ⟨v, hv, hfills⟩ := hready.mp rfl
  rw [List.mem_singleton.mp hv] at hfills
  exact ⟨u, _, _, hmain, hs, hfills, hheld⟩

end P11Rand.Tools.Wait
