import P11Rand.Pool.Round

/-! The chain branch of a read: ticks make up rounds, rounds make up what a caller is given. -/
namespace P11Rand

open Effect Run

variable {W : Type} {P : Platform W} {w w' : World W} {p p' : Pool} {cfg : Config}

/-- A round of the chain that completed. -/
structure Round where
  state : Digest
  events : List PoolEvent
  out : Digest
  next : Digest

namespace Round

def log (r : Round) : List PoolEvent := .start r.state :: r.events ++ [.round r.out r.next]

/-- The string a round hashes under a tag: `S || tag || E`. -/
def input (r : Round) (tag : UInt8) : List UInt8 := r.state.toList ++ [tag] ++ entropy r.events

/-- The round is as documented: both digests are of the blocks of one successful read for each
position, in the documented order. -/
structure Valid (P : Platform W) (cfg : Config) (r : Round) : Prop where
  out : r.out = P.sha3_256 (r.input 0x11)
  next : r.next = P.sha3_256 (r.input 0x00)
  inRound : ∀ ev ∈ r.events, ev.InRound
  order : (absorbed r.events).map Entry.pos = cfg.order
  fetched : fetched r.events = cfg.order
  entry : ∀ e ∈ absorbed r.events, e.block.length = tickBytes ∧ FromOneRead r.events e

/-- In each tick the devices that served it were held at one moment. -/
def HeldSince (p : Pool) (r : Round) : Prop :=
  ∀ t, ∃ q, p.Evolves q ∧ ∀ i device b, Served r.events t i device b →
    q.Holds i device

theorem HeldSince.mono {r : Round} (hp : p.Evolves p') (h : r.HeldSince p') : r.HeldSince p := by
  intro t
  obtain ⟨q, hq, hheld⟩ := h t
  exact ⟨q, hp.trans hq, hheld⟩

/-- Each round starts in the state the one before it left. -/
def Linked : Digest → List Round → Digest → Prop
  | s, [], s' => s' = s
  | s, r :: rs, s' => r.state = s ∧ Linked r.next rs s'

theorem Linked.append {s s₁ s' : Digest} {rs rs' : List Round} (h : Linked s rs s₁)
    (h' : Linked s₁ rs' s') : Linked s (rs ++ rs') s' := by
  induction rs generalizing s with
  | nil => exact h ▸ h'
  | cons r rs ih => exact ⟨h.1, ih h.2⟩

end Round

namespace Pool

/-- What the ticks `ts` of a round do, whether or not they all succeed. -/
structure Ticks (ts : List Nat) (p p' : Pool) (evs : List PoolEvent) : Prop where
  evolves : p.Evolves p'
  state : p'.state = p.state
  inTicks : ∀ ev ∈ evs, ∃ t ∈ ts, ev.InTick t
  entry : ∀ e ∈ absorbed evs, e.block.length = tickBytes ∧ FromOneRead evs e
  /-- At some moment the slots held all the devices that served tick `t`. -/
  held : ∀ t, ∃ q, p.Evolves q ∧ ∀ i device b, Served evs t i device b →
    q.Holds i device

theorem served_inTick {evs : List PoolEvent} {ts : List Nat} {t i : Nat} {device : Option String}
    {b : List UInt8} (hin : ∀ ev ∈ evs, ∃ t ∈ ts, ev.InTick t) (h : Served evs t i device b) :
    t ∈ ts := by
  rcases h with h | h
  · obtain ⟨_, ht, rfl⟩ := hin _ h
    exact ht
  · obtain ⟨_, ht, rfl⟩ := hin _ h
    exact ht

theorem served_append {evs evs' : List PoolEvent} {t i : Nat} {device : Option String}
    {b : List UInt8} : Served (evs ++ evs') t i device b ↔
      Served evs t i device b ∨ Served evs' t i device b := by
  simp only [Served, List.mem_append]
  tauto

/-- A fan-out and an absorption make a tick. -/
theorem Fanned.tick {t : Nat} {scratch : List (Option (List UInt8))} {is : List Nat} {q : Pool}
    {evs evs' : List PoolEvent} (h : Fanned t p scratch q evs)
    (h' : Absorption t scratch is q p' evs') : Ticks [t] p p' (evs ++ evs') := by
  have hev : p.Evolves p' := h.evolves.trans h'.evolves
  refine ⟨hev, h'.state.trans h.state, ?_, ?_, fun t' => ⟨p', hev, ?_⟩⟩
  · intro ev hmem
    refine ⟨t, List.mem_singleton_self t, ?_⟩
    exact (List.mem_append.mp hmem).elim (h.inTick ev) (h'.inTick ev)
  · intro e he
    rw [absorbed_append, h.absorbed, List.nil_append] at he
    obtain ⟨hte, hlt, hfrom⟩ := h'.entry e he
    rw [h.evolves.config] at hlt
    rcases hfrom with hc | ⟨hc, hlen, name, hsub⟩
    · obtain ⟨device, filled, hmem, hb⟩ := h.cell _ _ hc hlt
      obtain rfl := hb _ rfl
      refine ⟨h.full _ _ hc, .inl ⟨device, ?_⟩⟩
      rw [hte]
      exact List.Sublist.append (List.singleton_sublist.mpr hmem)
        (List.singleton_sublist.mpr (hte ▸ mem_absorbed.mp he))
    · obtain ⟨device, filled, hmem, _⟩ := h.cell _ _ hc hlt
      refine ⟨hlen, .inr ⟨device, filled, name, ?_⟩⟩
      rw [hte]
      exact List.Sublist.append (List.singleton_sublist.mpr hmem) hsub
  · intro i device b hserved
    -- a slot whose worker succeeded is left alone; the others were read after their rebind
    rcases served_append.mp hserved with hs | hs
    · have ht' : t' ∈ [t] :=
        served_inTick (fun ev hm => ⟨t, List.mem_singleton_self t, h.inTick ev hm⟩) hs
      obtain rfl := List.mem_singleton.mp ht'
      obtain ⟨hc, s, name, hq, hd⟩ := h.served i device b hs
      exact ⟨s, name, (h'.other i (.inr ⟨b, hc⟩)).trans hq, hd⟩
    · rcases hs with hs | hs
      · have hpos : (t', i) ∈ P11Rand.fetched evs' := List.mem_filterMap.mpr ⟨_, hs, rfl⟩
        rw [h'.fetched] at hpos
        cases hpos
      · obtain rfl : t' = t := h'.inTick _ hs
        exact (h'.served i device b hs).2.2

theorem Ticks.append {ts ts' : List Nat} {q : Pool} {evs evs' : List PoolEvent}
    (hdisj : ∀ t ∈ ts, t ∉ ts') (h : Ticks ts p q evs) (h' : Ticks ts' q p' evs') :
    Ticks (ts ++ ts') p p' (evs ++ evs') := by
  refine ⟨h.evolves.trans h'.evolves, h'.state.trans h.state, ?_, ?_, ?_⟩
  · intro ev hmem
    rcases List.mem_append.mp hmem with hmem | hmem
    · obtain ⟨t, ht, hin⟩ := h.inTicks ev hmem
      exact ⟨t, List.mem_append_left _ ht, hin⟩
    · obtain ⟨t, ht, hin⟩ := h'.inTicks ev hmem
      exact ⟨t, List.mem_append_right _ ht, hin⟩
  · intro e he
    rw [absorbed_append, List.mem_append] at he
    rcases he with he | he
    · exact (h.entry e he).imp_right (.mono (List.sublist_append_left _ _))
    · exact (h'.entry e he).imp_right (.mono (List.sublist_append_right _ _))
  · intro t
    by_cases ht : t ∈ ts
    · obtain ⟨q', hq', hheld⟩ := h.held t
      refine ⟨q', hq', fun i device b hs => hheld i device b ?_⟩
      exact (served_append.mp hs).resolve_right fun hs' => hdisj t ht (served_inTick h'.inTicks hs')
    · obtain ⟨q', hq', hheld⟩ := h'.held t
      refine ⟨q', h.evolves.trans hq', fun i device b hs => hheld i device b ?_⟩
      exact (served_append.mp hs).resolve_left fun hs' => ht (served_inTick h.inTicks hs')

theorem Ticks.none (p : Pool) : Ticks [] p p [] :=
  ⟨.refl p, rfl, by simp, by simp [absorbed], fun _ => ⟨p, .refl p, by simp [Served]⟩⟩

theorem ticksFrom_spec {n : Nat} {ts : List Nat} {hs : Hashes} {res : Except Error Hashes}
    (hn : p.slots.length = n) (hts : ts.Nodup)
    (h : ticksFrom P n ts p hs w = some ((res, p'), w')) :
    ∃ evs, w'.log = w.log ++ evs ∧ Later P w w' ∧ Ticks ts p p' evs ∧
      ∀ hs', res = .ok hs' → hs' = hs.update (entropy evs) ∧
        (absorbed evs).map Entry.pos =
          ts.flatMap (fun t => tickOrder p.config t (List.range n)) ∧
        fetched evs = ts.flatMap fun t => tickOrder p.config t (List.range n) := by
  induction ts generalizing p hs w with
  | nil =>
    cases h
    refine ⟨[], by simp, Std.Refl.refl _, .none _, ?_⟩
    intro hs' hres
    cases hres
    simp [entropy, absorbed, fetched]
  | cons t ts ih =>
    obtain ⟨ht, hts⟩ := List.nodup_cons.mp hts
    obtain ⟨⟨scratch, q⟩, v, hf, h⟩ := bind_eq_some.mp h
    obtain ⟨evs, hlog, hlat, hfan⟩ := fanOut_spec hf
    obtain ⟨⟨r, q'⟩, u, ha, h⟩ := bind_eq_some.mp h
    obtain ⟨evs', hlog', hlat', habs, hok⟩ := absorbFrom_spec List.nodup_range ha
    have htick := hfan.tick habs
    cases r with
    | error e =>
      cases h
      refine ⟨evs ++ evs', by simp [hlog', hlog], IsTrans.trans _ _ _ hlat hlat', ?_, by simp⟩
      refine ⟨htick.evolves, htick.state, fun ev hev => ?_, htick.entry, htick.held⟩
      obtain ⟨t', ht', hin⟩ := htick.inTicks ev hev
      exact ⟨t', List.mem_singleton.mp ht' ▸ List.mem_cons_self, hin⟩
    | ok hs₁ =>
      obtain ⟨rfl, horder⟩ := hok hs₁ rfl
      have hn' : q'.slots.length = n := htick.evolves.length_eq.trans hn
      obtain ⟨evs'', hlog'', hlat'', hrest, hok'⟩ := ih hn' hts h
      refine ⟨evs ++ evs' ++ evs'', by simp [hlog'', hlog', hlog],
        IsTrans.trans _ _ _ hlat (IsTrans.trans _ _ _ hlat' hlat''),
        htick.append (by simpa using ht) hrest, ?_⟩
      intro hs' hres
      obtain ⟨rfl, horder', hfetched'⟩ := hok' hs' hres
      have hent : entropy evs = [] := by simp [entropy, hfan.absorbed]
      rw [htick.evolves.config] at horder' hfetched'
      rw [hfan.evolves.config] at horder
      have hfe := hfan.fetched
      rw [hn] at hfe
      refine ⟨by simp [hent], by simp [hfan.absorbed, horder, horder'], ?_⟩
      simp [hfe, habs.fetched, hfetched', tickOrder]

/-- What building a round leads to. -/
inductive Rounded (P : Platform W) (out : Digest) (p : Pool) :
    Except Error Unit → Pool → Digest → List PoolEvent → Prop
  | failed {e : Error} {p' : Pool} {evs : List PoolEvent} :
      Ticks (List.range p.config.maxTicks) p p' evs →
      Rounded P out p (.error e) p' out (.start p.state :: evs)
  | completed {q : Pool} {r : Round} : Ticks (List.range p.config.maxTicks) p q r.events →
      r.state = p.state → r.Valid P p.config →
      Rounded P out p (.ok ()) { q with state := r.next } r.out r.log

theorem Ticks.inRound {ts : List Nat} {evs : List PoolEvent} (h : Ticks ts p p' evs) :
    ∀ ev ∈ evs, ev.InRound := by
  intro ev hev
  obtain ⟨t, _, hin⟩ := h.inTicks ev hev
  exact ⟨t, hin⟩

theorem doRoundChain_cases {out out' : Digest} {res : Except Error Unit}
    (hn : p.slots.length = p.config.poolSize)
    (h : p.doRoundChain P out w = some ((res, p', out'), w')) :
    ∃ evs, w'.log = w.log ++ evs ∧ Later P w w' ∧ Rounded P out p res p' out' evs := by
  replace h := of_emit h
  obtain ⟨⟨r, q⟩, v, ht, h⟩ := bind_eq_some.mp h
  obtain ⟨evs, hlog, hlat, hticks, hok⟩ := ticksFrom_spec rfl List.nodup_range ht
  have hlat' : Later P w v := hlat.of_emitted
  cases r with
  | error e =>
    cases h
    exact ⟨_, by simp [hlog], hlat', .failed hticks⟩
  | ok hs =>
    obtain ⟨rfl, horder, hfetched⟩ := hok hs rfl
    rw [hn] at horder hfetched
    cases h
    let hs := (freshHashes p.state).update (entropy evs)
    let r : Round := ⟨p.state, evs, hs.out.finalize P, hs.state.finalize P⟩
    have hvalid : r.Valid P p.config :=
      ⟨rfl, rfl, hticks.inRound, horder, hfetched, hticks.entry⟩
    exact ⟨r.log, by simp [hlog, Round.log, r, hs], hlat'.emitted,
      .completed hticks rfl hvalid⟩

/-- A round that fails takes nothing from the chain. -/
theorem doRoundChain_error {out out' : Digest} {e : Error}
    (h : p.doRoundChain P out w = some ((.error e, p', out'), w')) :
    p'.state = p.state ∧ out' = out := by
  replace h := of_emit h
  obtain ⟨⟨r, q⟩, v, ht, h⟩ := bind_eq_some.mp h
  obtain ⟨_, _, _, hticks, _⟩ := ticksFrom_spec rfl List.nodup_range ht
  cases r with
  | error e =>
    cases h
    exact ⟨hticks.state, rfl⟩
  | ok hs => cases h

theorem Rounded.evolves {out out' : Digest} {res : Except Error Unit} {evs : List PoolEvent}
    (h : Rounded P out p res p' out' evs) : p.Evolves p' := by
  cases h with
  | failed ht => exact ht.evolves
  | completed ht _ _ => exact ⟨ht.evolves.config, ht.evolves.slots⟩

end Pool

/-- What a read of `n` bytes logs for the rounds it delivered. -/
def delivery : List Round → Nat → List PoolEvent
  | [], _ => []
  | r :: rs, n => r.log ++ .copy (r.out.toList.take (min n roundBytes)) ::
      delivery rs (n - min n roundBytes)

/-- The bytes of the outputs of some rounds. -/
def outputs (rs : List Round) : List UInt8 := rs.flatMap fun r => r.out.toList

@[simp] theorem outputs_cons (r : Round) (rs : List Round) :
    outputs (r :: rs) = r.out.toList ++ outputs rs := rfl

namespace Pool

/-- How a chain read of `n` bytes ended: it delivered all it was asked for, or it stopped in a
round that failed, with whole rounds delivered. -/
inductive Delivered (rs : List Round) (state : Digest) (done rest : List UInt8) :
    Except Error Unit → List UInt8 → List PoolEvent → Prop
  | all : rs.length = (rest.length + 31) / roundBytes →
      Delivered rs state done rest (.ok ()) (done ++ (outputs rs).take rest.length) []
  | some {e : Error} {evs : List PoolEvent} : roundBytes * rs.length < rest.length →
      (∀ ev ∈ evs, ev.InRound) →
      Delivered rs state done rest (.error e)
        (done ++ outputs rs ++ rest.drop (roundBytes * rs.length)) (.start state :: evs)

theorem Delivered.cons {r : Round} {rs : List Round} {state : Digest} {done rest buf : List UInt8}
    {res : Except Error Unit} {evs : List PoolEvent} (hpos : 0 < rest.length)
    (h : Delivered rs state (done ++ r.out.toList.take (min rest.length roundBytes))
      (rest.drop (min rest.length roundBytes)) res buf evs) :
    Delivered (r :: rs) state done rest res buf evs := by
  generalize htake : min rest.length roundBytes = take at h
  simp only [roundBytes] at htake
  cases h with
  | all hlen =>
    have hlen' : (r :: rs).length = (rest.length + 31) / roundBytes := by
      simp only [List.length_cons, List.length_drop, roundBytes] at hlen ⊢
      omega
    have hall : Delivered (r :: rs) state done rest _ _ _ := .all hlen'
    rw [outputs_cons, List.take_append, ← List.append_assoc] at hall
    have hout : r.out.toList.take rest.length = r.out.toList.take take := by
      rw [← htake, List.take_eq_take_iff]
      simp
    have hrest : rest.length - r.out.toList.length = (rest.drop take).length := by
      simp only [Vector.length_toList, List.length_drop, roundBytes]
      omega
    rwa [hout, hrest] at hall
  | @some e evs hlt hin =>
    simp only [List.length_drop, roundBytes] at hlt
    have htake32 : take = 32 := by omega
    have hsome : Delivered (r :: rs) state done rest (.error e) _ _ :=
      .some (by simp only [List.length_cons, roundBytes]; omega) hin
    have hout : r.out.toList.take take = r.out.toList := by
      rw [htake32]
      exact List.take_of_length_le (by simp)
    have hdrop : (rest.drop take).drop (roundBytes * rs.length) =
        rest.drop (roundBytes * (r :: rs).length) := by
      rw [List.drop_drop, htake32, List.length_cons, Nat.mul_succ, Nat.add_comm]
    rw [outputs_cons, ← List.append_assoc] at hsome
    rwa [hout, hdrop]

theorem readChain_cases {out out' : Digest} {done rest buf' : List UInt8} {res : Except Error Unit}
    (hn : p.slots.length = p.config.poolSize)
    (h : p.readChain P out done rest w = some ((res, p', out', buf'), w')) :
    ∃ rs evs, w'.log = w.log ++ delivery rs rest.length ++ evs ∧ Later P w w' ∧ p.Evolves p' ∧
      Round.Linked p.state rs p'.state ∧
      (∀ r ∈ rs, r.Valid P p.config ∧ r.HeldSince p) ∧
      Delivered rs p'.state done rest res buf' evs := by
  induction hk : rest.length using Nat.strongRecOn generalizing p w out done rest with
  | _ k ih =>
    unfold readChain at h
    split at h
    · rename_i hrest
      obtain rfl : rest = [] := by simpa using hrest
      cases h
      refine ⟨[], [], by simp [delivery], Std.Refl.refl _, .refl _, rfl, by simp, ?_⟩
      simpa using (.all rfl : Delivered [] _ _ [] _ _ _)
    · rename_i hrest
      have hpos : 0 < rest.length := List.length_pos_iff.mpr (by simpa using hrest)
      obtain ⟨⟨r₁, q, out₁⟩, v, hround, h⟩ := bind_eq_some.mp h
      obtain ⟨evs, hlog, hlat, hcase⟩ := doRoundChain_cases hn hround
      have hev := hcase.evolves
      cases hcase with
      | failed ht =>
        cases h
        refine ⟨[], _, by simpa [delivery] using hlog, hlat, ht.evolves, ht.state, by simp, ?_⟩
        have hd : Delivered [] p.state done rest (.error ‹Error›) _ _ :=
          .some (by simpa using hpos) ht.inRound
        simpa [outputs, ht.state] using hd
      | @completed q r ht hstate hvalid =>
        replace h := of_emit h
        have hconf : q.config = p.config := hev.config
        have hdrop : (rest.drop (min rest.length roundBytes)).length < k := by
          simp only [List.length_drop, roundBytes]
          omega
        obtain ⟨rs, evs, hlog', hlat', hev', hlink, hrs, hdel⟩ :=
          ih _ hdrop (by simpa [hconf] using ht.evolves.length_eq.trans hn) h rfl
        refine ⟨r :: rs, evs, ?_, IsTrans.trans _ _ _ hlat hlat'.of_emitted,
          hev.trans hev', ⟨hstate, hlink⟩, ?_, hdel.cons hpos⟩
        · simp [hlog', hlog, delivery, ← hk]
        · intro r' hr'
          rcases List.mem_cons.mp hr' with rfl | hr'
          · exact ⟨hvalid, ht.held⟩
          · obtain ⟨hv, hheld⟩ := hrs r' hr'
            exact ⟨hconf ▸ hv, hheld.mono hev⟩

end Pool
end P11Rand
