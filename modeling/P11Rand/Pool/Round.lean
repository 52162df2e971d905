import P11Rand.Pool.Slots

/-! One round of the chain: what the fan-out fetches, how a failed slot is recovered, and which
blocks a completed round has absorbed. -/
namespace P11Rand

open Effect Run

variable {W : Type} {P : Platform W} {w w' : World W} {p p' : Pool} {cfg : Config}
  {os : List (Outcome SlotInner Unit)} {t i : Nat}

/-- A 32-byte block that a round absorbed. -/
structure Entry where
  tick : Nat
  slot : Nat
  block : List UInt8
  deriving DecidableEq

def Entry.pos (e : Entry) : Nat × Nat := (e.tick, e.slot)

def PoolEvent.entry? : PoolEvent → Option Entry
  | .absorb t i block => some ⟨t, i, block⟩
  | _ => none

def PoolEvent.fetchPos? : PoolEvent → Option (Nat × Nat)
  | .fetch t i .. => some (t, i)
  | _ => none

/-- What a round does in tick `t`. -/
def PoolEvent.InTick (t : Nat) : PoolEvent → Prop
  | .fetch t' .. | .retry t' .. | .absorb t' .. => t' = t
  | .rebind .. => True
  | _ => False

/-- What a round does before it completes or fails. -/
def PoolEvent.InRound (ev : PoolEvent) : Prop := ∃ t, ev.InTick t

/-- The blocks absorbed, in order. -/
def absorbed (evs : List PoolEvent) : List Entry := evs.filterMap PoolEvent.entry?

/-- `E`: the bytes absorbed. -/
def entropy (evs : List PoolEvent) : List UInt8 := (absorbed evs).flatMap Entry.block

def fetched (evs : List PoolEvent) : List (Nat × Nat) := evs.filterMap PoolEvent.fetchPos?

@[simp] theorem absorbed_append (evs evs' : List PoolEvent) :
    absorbed (evs ++ evs') = absorbed evs ++ absorbed evs' := List.filterMap_append

@[simp] theorem entropy_append (evs evs' : List PoolEvent) :
    entropy (evs ++ evs') = entropy evs ++ entropy evs' := by
  simp [entropy]

@[simp] theorem fetched_append (evs evs' : List PoolEvent) :
    fetched (evs ++ evs') = fetched evs ++ fetched evs' := List.filterMap_append

/-- A read on slot `i` in tick `t` succeeded and wrote `block`. -/
def Served (evs : List PoolEvent) (t i : Nat) (device : Option String) (block : List UInt8) :
    Prop :=
  .fetch t i device true block ∈ evs ∨ .retry t i device true block ∈ evs

/-- Slot `i` was rebound and the retried read succeeded. -/
def recovery (t i : Nat) (name : String) (block : List UInt8) : List PoolEvent :=
  [.rebind i (some name), .retry t i (some name) true block, .absorb t i block]

/-- The block is what one successful read wrote in its tick: the worker's, or else the retry
that followed the rebind of the slot. -/
def FromOneRead (evs : List PoolEvent) (e : Entry) : Prop :=
  (∃ device, [.fetch e.tick e.slot device true e.block, .absorb e.tick e.slot e.block].Sublist
    evs) ∨
  (∃ device filled name, (.fetch e.tick e.slot device false filled ::
    recovery e.tick e.slot name e.block).Sublist evs)

theorem FromOneRead.mono {evs evs' : List PoolEvent} {e : Entry} (hs : evs.Sublist evs')
    (h : FromOneRead evs e) : FromOneRead evs' e := by
  rcases h with ⟨device, h⟩ | ⟨device, filled, name, h⟩
  · exact .inl ⟨device, h.trans hs⟩
  · exact .inr ⟨device, filled, name, h.trans hs⟩

theorem mem_absorbed {evs : List PoolEvent} {e : Entry} :
    e ∈ absorbed evs ↔ .absorb e.tick e.slot e.block ∈ evs := by
  simp only [absorbed, List.mem_filterMap]
  constructor
  · rintro ⟨ev, hev, he⟩
    cases ev <;> simp [PoolEvent.entry?] at he
    subst he
    exact hev
  · intro h
    exact ⟨_, h, rfl⟩

/-- The scratch cells of a tick. -/
def cells (cfg : Config) (t i : Nat) (os : List (Outcome SlotInner Unit)) :
    List (Option (List UInt8)) :=
  (os.zipIdx i).map fun (o, j) => if t < cfg.slotTicks j ∧ o.ok then some o.buf else none

def fetches (cfg : Config) (t i : Nat) (os : List (Outcome SlotInner Unit)) : List PoolEvent :=
  (os.zipIdx i).filterMap fun (o, j) =>
    if t < cfg.slotTicks j then some (.fetch t j o.src.device o.ok o.done) else none

theorem join_apply (w : World W) :
    Pool.join cfg t i os w =
      some (cells cfg t i os, { w with log := w.log ++ fetches cfg t i os }) := by
  induction os generalizing i w with
  | nil => simp [Pool.join, cells, fetches]
  | cons o os ih =>
    unfold Pool.join
    by_cases ht : t < cfg.slotTicks i
    · simp only [ge_iff_le, Nat.not_le.mpr ht, if_false, bind_apply, emit_apply, ih]
      simp [cells, fetches, ht]
    · simp only [ge_iff_le, Nat.not_lt.mp ht, if_true, bind_apply, ih]
      simp [cells, fetches, ht]

theorem cells_getElem? (i : Nat) : (cells cfg t 0 os)[i]? =
    os[i]?.map fun o => if t < cfg.slotTicks i ∧ o.ok then some o.buf else none := by
  simp [cells]
  cases os[i]? <;> simp

theorem mem_fetches {ev : PoolEvent} : ev ∈ fetches cfg t 0 os ↔
    ∃ i o, os[i]? = some o ∧ t < cfg.slotTicks i ∧ ev = .fetch t i o.src.device o.ok o.done := by
  simp only [fetches, List.mem_filterMap, Prod.exists, List.mem_zipIdx_iff_getElem?]
  constructor
  · rintro ⟨o, i, ho, hev⟩
    split at hev
    · rename_i ht
      exact ⟨i, o, ho, ht, (Option.some.inj hev).symm⟩
    · cases hev
  · rintro ⟨i, o, ho, ht, rfl⟩
    exact ⟨o, i, ho, by simp [ht]⟩

@[simp] theorem update_nil (h : Hashes) : h.update [] = h := by
  simp [Hashes.update, Sha3.update]

@[simp] theorem update_update (h : Hashes) (a b : List UInt8) :
    (h.update a).update b = h.update (a ++ b) := by
  simp [Hashes.update, Sha3.update]

theorem absorbed_fetches (i : Nat) : absorbed (fetches cfg t i os) = [] := by
  rw [absorbed, List.filterMap_eq_nil_iff]
  intro ev hev
  obtain ⟨⟨o, j⟩, _, h⟩ := List.mem_filterMap.mp hev
  dsimp only at h
  split at h
  · cases h
    rfl
  · cases h

theorem fetched_fetches (i : Nat) : fetched (fetches cfg t i os) =
    ((List.range' i os.length).filter fun j => t < cfg.slotTicks j).map fun j => (t, j) := by
  induction os generalizing i with
  | nil => rfl
  | cons o os ih =>
    have hcons : fetches cfg t i (o :: os) = (if t < cfg.slotTicks i then
        [.fetch t i o.src.device o.ok o.done] else []) ++ fetches cfg t (i + 1) os := by
      by_cases ht : t < cfg.slotTicks i <;> simp [fetches, ht]
    rw [hcons, fetched_append, ih, List.length_cons, List.range'_succ]
    by_cases ht : t < cfg.slotTicks i
    · simp [ht, fetched, PoolEvent.fetchPos?]
    · simp [ht, fetched]

namespace Pool

/-- The fan-out of a tick: each slot that owes bytes was read by a worker of its own, the
others were left alone. -/
theorem fanOut_cases {scratch : List (Option (List UInt8))}
    (h : p.fanOut P t w = some ((scratch, p'), w')) :
    ∃ os : List (Outcome SlotInner Unit),
      scratch = cells p.config t 0 os ∧ w'.log = w.log ++ fetches p.config t 0 os ∧
      Later P w w' ∧
      p' = { p with slots := p.slots.zipWith (fun s o => { s with inner := o.src }) os } ∧
      List.Forall₂ (fun (s : Slot × Nat) o =>
        if t < p.config.slotTicks s.2 then
          ∃ v, Thread (Quiet P) (SlotInner.readStep P)
            (.inl (.start s.1.inner (zeros tickBytes))) w (.inr o) v
        else o.src = s.1.inner) p.slots.zipIdx os := by
  obtain ⟨os, v, hos, h⟩ := bind_eq_some.mp h
  rw [bind_of_eq (join_apply v)] at h
  cases h
  have hstep := fun r => ((SlotInner.readStep_total (P := P) (fun _ => trivial) r).mono
    fun _ _ h => h.quiet).within
  obtain ⟨hq, hall⟩ := interleave_thread (R := Quiet P) hstep
    (fun n => (quiet_choose n).within) hos
  refine ⟨os, rfl, by simp [hq.log], hq.toLater.emitted, rfl, ?_⟩
  rw [List.mapIdx_eq_zipIdx_map, List.forall₂_map_left_iff] at hall
  apply hall.imp
  rintro ⟨s, i⟩ o hthread
  dsimp only [worker] at hthread ⊢
  split
  · rename_i ht
    rw [if_neg (by omega)] at hthread
    exact ⟨v, hthread⟩
  · rename_i ht
    rw [if_pos (by omega)] at hthread
    cases hthread
    rfl

/-- What the worker of slot `s`, the `i`-th, leaves in tick `t`. -/
structure Worked (cfg : Config) (t i : Nat) (s : Slot) (o : Outcome SlotInner Unit) : Prop where
  handle : o.src.handle = s.inner.handle
  chunk : o.src.chunk ≤ s.inner.chunk
  length : t < cfg.slotTicks i → o.done.length + o.rest.length = tickBytes
  full : t < cfg.slotTicks i → o.Full
  device : t < cfg.slotTicks i → o.ok = true → ∃ name, o.src.device = some name

/-- A worker that succeeded has filled its whole buffer. -/
theorem Worked.buf {s : Slot} {o : Outcome SlotInner Unit} (h : Worked cfg t i s o)
    (ht : t < cfg.slotTicks i) (hok : o.ok = true) :
    o.buf = o.done ∧ o.done.length = tickBytes := by
  have hrest := h.full ht hok
  simpa [Outcome.buf, hrest] using h.length ht

theorem worked_of_threads {l : List Slot} (hall : List.Forall₂ (fun (s : Slot × Nat) o =>
      if t < cfg.slotTicks s.2 then
        ∃ v, Thread (Quiet P) (SlotInner.readStep P)
          (.inl (.start s.1.inner (zeros tickBytes))) w (.inr o) v
      else o.src = s.1.inner) l.zipIdx os) :
    os.length = l.length ∧ ∀ i o, os[i]? = some o → ∃ s, l[i]? = some s ∧ Worked cfg t i s o := by
  have hlen : os.length = l.length := by simpa using hall.length_eq.symm
  refine ⟨hlen, fun i o ho => ?_⟩
  obtain ⟨hi, rfl⟩ := List.getElem?_eq_some_iff.mp ho
  have hi' : i < l.length := hlen ▸ hi
  have hthread := (List.forall₂_iff_get.mp hall).2 i (by simpa using hi') hi
  simp only [List.get_eq_getElem, List.getElem_zipIdx, Nat.zero_add] at hthread
  refine ⟨_, List.getElem?_eq_getElem hi', ?_⟩
  split at hthread
  · obtain ⟨v, hv⟩ := hthread
    obtain ⟨hh, hc, hl, hf⟩ := SlotInner.thread_keeps hv
    refine ⟨hh, hc, fun _ => by simpa [zeros] using hl, fun _ => hf, fun _ hok => ?_⟩
    rw [SlotInner.device_eq hh]
    exact SlotInner.thread_device hv hok
  · rename_i ht
    exact ⟨by rw [hthread], by rw [hthread], fun h => absurd h ht, fun h => absurd h ht,
      fun h => absurd h ht⟩

/-- The workers change no slot but for what reading changes in it. -/
theorem same_of_worked {l : List Slot} (hlen : os.length = l.length)
    (hw : ∀ i o, os[i]? = some o → ∃ s, l[i]? = some s ∧ Worked cfg t i s o) :
    List.Forall₂ Slot.Same l (l.zipWith (fun s o => { s with inner := o.src }) os) := by
  rw [List.forall₂_iff_get]
  refine ⟨by simp [hlen], fun i hi hi' => ?_⟩
  obtain ⟨s, hs, hwork⟩ := hw i os[i] (List.getElem?_eq_getElem (hlen ▸ hi))
  obtain ⟨_, rfl⟩ := List.getElem?_eq_some_iff.mp hs
  simp only [List.get_eq_getElem, List.getElem_zipWith]
  exact ⟨rfl, rfl, hwork.handle, hwork.chunk⟩

/-- A filled cell is what a worker that succeeded fetched. -/
theorem cells_eq_some {b : List UInt8} (h : (cells cfg t 0 os)[i]? = some (some b)) :
    ∃ o, os[i]? = some o ∧ t < cfg.slotTicks i ∧ o.ok = true ∧ o.buf = b := by
  rw [cells_getElem?] at h
  obtain ⟨o, ho, hb⟩ := Option.map_eq_some_iff.mp h
  split at hb
  · rename_i hok
    exact ⟨o, ho, hok.1, hok.2, Option.some.inj hb⟩
  · cases hb

/-- The fan-out of tick `t`, as its caller sees it. -/
structure Fanned (t : Nat) (p : Pool) (scratch : List (Option (List UInt8))) (p' : Pool)
    (evs : List PoolEvent) : Prop where
  evolves : p.Evolves p'
  state : p'.state = p.state
  length : scratch.length = p.slots.length
  inTick : ∀ ev ∈ evs, ev.InTick t
  absorbed : absorbed evs = []
  fetched : fetched evs =
    ((List.range p.slots.length).filter fun i => t < p.config.slotTicks i).map fun i => (t, i)
  cell : ∀ i c, scratch[i]? = some c → t < p.config.slotTicks i →
    ∃ device filled, .fetch t i device c.isSome filled ∈ evs ∧ ∀ b, c = some b → filled = b
  full : ∀ (i : Nat) (b : List UInt8), scratch[i]? = some (some b) → b.length = tickBytes
  served : ∀ i device b, Served evs t i device b → scratch[i]? = some (some b) ∧
    p'.Holds i device

theorem fanOut_spec {scratch : List (Option (List UInt8))}
    (h : p.fanOut P t w = some ((scratch, p'), w')) :
    ∃ evs, w'.log = w.log ++ evs ∧ Later P w w' ∧ Fanned t p scratch p' evs := by
  obtain ⟨os, rfl, hlog, hlat, rfl, hall⟩ := fanOut_cases h
  obtain ⟨hlen, hw⟩ := worked_of_threads hall
  refine ⟨_, hlog, hlat, ⟨rfl, .single (.read (same_of_worked hlen hw))⟩, rfl,
    by simp [cells, hlen], ?_, absorbed_fetches 0, ?_, ?_, ?_, ?_⟩
  · intro ev hev
    obtain ⟨i, o, _, _, rfl⟩ := mem_fetches.mp hev
    rfl
  · rw [fetched_fetches, hlen, List.range_eq_range']
  · intro i c hc ht
    rw [cells_getElem?] at hc
    obtain ⟨o, ho, rfl⟩ := Option.map_eq_some_iff.mp hc
    obtain ⟨s, _, hwork⟩ := hw i o ho
    refine ⟨o.src.device, o.done, mem_fetches.mpr ⟨i, o, ho, ht, ?_⟩, ?_⟩
    · cases hok : o.ok <;> simp [ht]
    · intro b hb
      split at hb
      · rename_i hok
        rw [← Option.some.inj hb]
        exact (hwork.buf ht hok.2).1.symm
      · cases hb
  · intro i b hb
    obtain ⟨o, ho, ht, hok, rfl⟩ := cells_eq_some hb
    obtain ⟨s, _, hwork⟩ := hw i o ho
    obtain ⟨hbuf, hl⟩ := hwork.buf ht hok
    rw [hbuf, hl]
  · rintro i device b (hmem | hmem)
    · obtain ⟨j, o, ho, ht, hev⟩ := mem_fetches.mp hmem
      simp only [PoolEvent.fetch.injEq, true_and] at hev
      obtain ⟨rfl, rfl, hok, rfl⟩ := hev
      obtain ⟨s, hs, hwork⟩ := hw i o ho
      obtain ⟨name, hname⟩ := hwork.device ht hok.symm
      refine ⟨by simp [cells_getElem?, ho, ht, ← hok, (hwork.buf ht hok.symm).1],
        { s with inner := o.src }, name, ?_, hname, hname⟩
      simp [List.getElem?_zipWith, hs, ho]
    · obtain ⟨_, _, _, _, hev⟩ := mem_fetches.mp hmem
      cases hev

/-- What the recovery of slot `i` in tick `t` leads to. -/
inductive Retried (P : Platform W) (t i : Nat) (p : Pool) (w : World W) :
    Except Error (List UInt8) → Pool → List PoolEvent → Prop
  | unbound {s : Slot} {e : Error} : p.slots[i]? = some s →
      Retried P t i p w (.error e) (p.setSlot i s.closed) [.rebind i none]
  | read {s : Slot} {name : String} {src src' : SlotInner} {v : World W} {ok : Bool}
      {filled : List UInt8} : p.slots[i]? = some s →
      Rebound P i s p w v (.ok ()) (p.setSlot i ⟨s.kind, some name, src⟩) (.rebind i (some name)) →
      src'.handle = src.handle → src'.chunk ≤ src.chunk → src.device = some name →
      (ok = true → filled.length = tickBytes) →
      Retried P t i p w (if ok then .ok filled else .error .readFailure)
        (p.setSlot i ⟨s.kind, some name, src'⟩)
        [.rebind i (some name), .retry t i (some name) ok filled]

theorem retrySlot_cases {res : Except Error (List UInt8)}
    (h : p.retrySlot P t i w = some ((res, p'), w')) :
    ∃ evs, w'.log = w.log ++ evs ∧ Later P w w' ∧ Retried P t i p w res p' evs := by
  obtain ⟨⟨r, q⟩, v, hr, h⟩ := bind_eq_some.mp h
  obtain ⟨s, ev, hs, hreb, hlog, hlat⟩ := rebind_cases hr
  have hlt : i < p.slots.length := (List.getElem?_eq_some_iff.mp hs).1
  cases hreb with
  | failed =>
    cases h
    exact ⟨_, hlog, hlat, .unbound hs⟩
  | @bound name src _ _ hfree hu hopen hu' =>
    have hd := (SlotKind.openSource_opened hopen).device
    obtain ⟨⟨o, q'⟩, u, ho, h⟩ := bind_eq_some.mp h
    obtain ⟨hread, rfl⟩ := readSlot_stored hlt ho
    have hdev : o.src.device = some name := hread.device.trans hd
    have hfull : o.ok = true → o.buf = o.done ∧ o.done.length = tickBytes := by
      intro hok
      obtain ⟨_, _, hl, hf⟩ := SlotInner.read_keeps hread.read
      simpa [Outcome.buf, hf hok, zeros] using hl
    have hlat' : Later P w u := IsTrans.trans _ _ _ hlat hread.does.later
    replace h := of_emit h
    have hcase := Retried.read (t := t) hs (.bound hfree hu hopen hu') hread.handle hread.chunk hd
      fun hok => (hfull hok).2
    cases hok : o.ok with
    | true =>
      rw [hok] at h hcase
      cases h
      rw [(hfull hok).1]
      exact ⟨_, by simp [hlog, hread.does.log, hdev], hlat'.emitted, hcase⟩
    | false =>
      rw [hok] at h hcase
      cases h
      exact ⟨_, by simp [hlog, hread.does.log, hdev], hlat'.emitted, hcase⟩

theorem Retried.evolves {res : Except Error (List UInt8)} {evs : List PoolEvent}
    (h : Retried P t i p w res p' evs) : p.Evolves p' := by
  cases h with
  | unbound hs => exact evolves_setSlot (.close hs)
  | @read s name src src' _ ok filled hs hreb hh hc hd _ =>
    have hlt : i < p.slots.length := (List.getElem?_eq_some_iff.mp hs).1
    apply (hreb.evolves hs).trans
    have hread := readSlot_evolves (p := p.setSlot i ⟨s.kind, some name, src⟩) (i := i)
      (s := ⟨s.kind, some name, src⟩) (o := ⟨.ok (), src', [], []⟩) (by simp [hlt]) hh hc
    rwa [setSlot_setSlot] at hread

/-- The block of one slot in one tick: what it took, and what a success says. -/
structure Block (t i : Nat) (p : Pool) (cell : Option (List UInt8))
    (res : Except Error (List UInt8)) (p' : Pool) (evs : List PoolEvent) : Prop where
  evolves : p.Evolves p'
  state : p'.state = p.state
  inTick : ∀ ev ∈ evs, ev.InTick t
  absorbed : absorbed evs = []
  fetched : fetched evs = []
  other : ∀ j, (j ≠ i ∨ ∃ b, cell = some b) → p'.slots[j]? = p.slots[j]?
  served : ∀ j device b, .retry t j device true b ∈ evs → j = i ∧ cell = none ∧
    p'.Holds j device
  block : ∀ b, res = .ok b → cell = some b ∨
    (cell = none ∧ b.length = tickBytes ∧ ∃ name,
      evs = [.rebind i (some name), .retry t i (some name) true b])

theorem Retried.block {res : Except Error (List UInt8)} {evs : List PoolEvent}
    (h : Retried P t i p w res p' evs) : Block t i p none res p' evs := by
  have hev := h.evolves
  cases h with
  | unbound hs =>
    exact ⟨hev, rfl, by simp [PoolEvent.InTick], rfl, rfl,
      fun j hj => by simp [List.getElem?_set_ne (hj.resolve_right (by simp)).symm], by simp,
      by simp⟩
  | @read s name src src' _ ok filled hs _ hh _ hd hfull =>
    have hlt : i < p.slots.length := (List.getElem?_eq_some_iff.mp hs).1
    refine ⟨hev, rfl, by simp [PoolEvent.InTick], rfl, rfl, fun j hj => ?_, ?_, ?_⟩
    · simp [List.getElem?_set_ne (hj.resolve_right (by simp)).symm]
    · intro j device b hmem
      simp only [List.mem_cons, List.not_mem_nil, or_false, PoolEvent.retry.injEq, true_and,
        reduceCtorEq, false_or] at hmem
      obtain ⟨rfl, rfl, _, _⟩ := hmem
      exact ⟨rfl, rfl, ⟨s.kind, some name, src'⟩, name, by simp [hlt],
        (SlotInner.device_eq hh).trans hd, rfl⟩
    · intro b hb
      cases ok with
      | false => cases hb
      | true =>
        cases hb
        exact .inr ⟨rfl, hfull rfl, name, rfl⟩

theorem blockFor_spec {cell : Option (List UInt8)} {res : Except Error (List UInt8)}
    (h : p.blockFor P t i cell w = some ((res, p'), w')) :
    ∃ evs, w'.log = w.log ++ evs ∧ Later P w w' ∧ Block t i p cell res p' evs := by
  cases cell with
  | none =>
    obtain ⟨evs, hlog, hlat, hret⟩ := retrySlot_cases h
    exact ⟨evs, hlog, hlat, hret.block⟩
  | some b =>
    cases h
    refine ⟨[], by simp, Std.Refl.refl w, .refl p, rfl, by simp, rfl, rfl, fun _ _ => rfl, by simp,
      ?_⟩
    intro b' hb
    cases hb
    exact .inl rfl

/-- The absorption phase of tick `t` over the slots `is`. -/
structure Absorption (t : Nat) (scratch : List (Option (List UInt8))) (is : List Nat) (p p' : Pool)
    (evs : List PoolEvent) : Prop where
  evolves : p.Evolves p'
  state : p'.state = p.state
  inTick : ∀ ev ∈ evs, ev.InTick t
  fetched : fetched evs = []
  other : ∀ j, (j ∉ is ∨ ∃ b, scratch[j]? = some (some b)) → p'.slots[j]? = p.slots[j]?
  served : ∀ j device b, .retry t j device true b ∈ evs → j ∈ is ∧ scratch[j]? = some none ∧
    p'.Holds j device
  entry : ∀ e ∈ absorbed evs, e.tick = t ∧ t < p.config.slotTicks e.slot ∧
    (scratch[e.slot]? = some (some e.block) ∨
      (scratch[e.slot]? = some none ∧ e.block.length = tickBytes ∧
        ∃ name, (recovery t e.slot name e.block).Sublist evs))

/-- The positions of tick `t`, as the slots `is` fill them. -/
def tickOrder (cfg : Config) (t : Nat) (is : List Nat) : List (Nat × Nat) :=
  (is.filter fun i => t < cfg.slotTicks i).map fun i => (t, i)

theorem tickOrder_cons_of_lt {is : List Nat} (h : t < cfg.slotTicks i) :
    tickOrder cfg t (i :: is) = (t, i) :: tickOrder cfg t is := by
  simp [tickOrder, h]

theorem tickOrder_cons_of_le {is : List Nat} (h : cfg.slotTicks i ≤ t) :
    tickOrder cfg t (i :: is) = tickOrder cfg t is := by
  simp [tickOrder, Nat.not_lt.mpr h]

theorem Absorption.skip {scratch : List (Option (List UInt8))} {is : List Nat}
    {evs : List PoolEvent} (h : Absorption t scratch is p p' evs) :
    Absorption t scratch (i :: is) p p' evs := by
  refine { h with other := fun j hj => h.other j ?_, served := fun j d b hm => ?_ }
  · exact hj.imp_left fun hn hmem => hn (List.mem_cons_of_mem _ hmem)
  · obtain ⟨hmem, hrest⟩ := h.served j d b hm
    exact ⟨List.mem_cons_of_mem _ hmem, hrest⟩

/-- Nothing but the recovery of slot `i` happened. -/
theorem Block.absorption {scratch : List (Option (List UInt8))} {is : List Nat}
    {cell : Option (List UInt8)} {res : Except Error (List UInt8)} {evs : List PoolEvent}
    (hcell : scratch[i]? = some cell) (h : Block t i p cell res p' evs) :
    Absorption t scratch (i :: is) p p' evs := by
  refine ⟨h.evolves, h.state, h.inTick, h.fetched, fun j hj => h.other j ?_, fun j d b hm => ?_, ?_⟩
  · rcases hj with hj | ⟨b, hb⟩
    · exact .inl (List.ne_of_not_mem_cons hj)
    · rcases eq_or_ne j i with rfl | hne
      · exact .inr ⟨b, Option.some.inj (hcell.symm.trans hb)⟩
      · exact .inl hne
  · obtain ⟨rfl, rfl, hs⟩ := h.served j d b hm
    exact ⟨List.mem_cons_self, hcell, hs⟩
  · simp [h.absorbed]

theorem Block.then {scratch : List (Option (List UInt8))} {is : List Nat} {q : Pool}
    {cell : Option (List UInt8)} {b : List UInt8} {evs evs' : List PoolEvent}
    (hcell : scratch[i]? = some cell) (ht : t < p.config.slotTicks i) (hi : i ∉ is)
    (h : Block t i p cell (.ok b) q evs) (h' : Absorption t scratch is q p' evs') :
    Absorption t scratch (i :: is) p p' (evs ++ .absorb t i b :: evs') := by
  have hsame : p'.slots[i]? = q.slots[i]? := h'.other i (.inl hi)
  refine ⟨h.evolves.trans h'.evolves, h'.state.trans h.state, ?_, ?_, ?_, ?_, ?_⟩
  · intro ev hev
    rcases List.mem_append.mp hev with hev | hev
    · exact h.inTick ev hev
    · rcases List.mem_cons.mp hev with rfl | hev
      · rfl
      · exact h'.inTick ev hev
  · have hcons : P11Rand.fetched (.absorb t i b :: evs') = P11Rand.fetched evs' := rfl
    rw [fetched_append, hcons, h.fetched, h'.fetched, List.append_nil]
  · intro j hj
    have hblock : Absorption t scratch (i :: is) p q evs := h.absorption hcell
    rw [h'.other j (hj.imp_left fun hn hmem => hn (List.mem_cons_of_mem _ hmem)),
      hblock.other j hj]
  · intro j d b' hm
    simp only [List.mem_append, List.mem_cons, reduceCtorEq, false_or] at hm
    rcases hm with hm | hm
    · obtain ⟨rfl, rfl, s, name, hs, hd⟩ := h.served j d b' hm
      exact ⟨List.mem_cons_self, hcell, s, name, hsame.trans hs, hd⟩
    · obtain ⟨hmem, hrest⟩ := h'.served j d b' hm
      exact ⟨List.mem_cons_of_mem _ hmem, hrest⟩
  · intro e he
    have hcons : P11Rand.absorbed (.absorb t i b :: evs') =
        ⟨t, i, b⟩ :: P11Rand.absorbed evs' := rfl
    rw [absorbed_append, h.absorbed, hcons, List.nil_append, List.mem_cons] at he
    rcases he with rfl | he
    · refine ⟨rfl, ht, ?_⟩
      rcases h.block b rfl with rfl | ⟨rfl, hlen, name, rfl⟩
      · exact .inl hcell
      · exact .inr ⟨hcell, hlen, name, by simp [recovery]⟩
    · obtain ⟨hte, hlt, hfrom⟩ := h'.entry e he
      rw [h.evolves.config] at hlt
      refine ⟨hte, hlt, hfrom.imp_right fun ⟨hc, hlen, name, hsub⟩ => ⟨hc, hlen, name, ?_⟩⟩
      exact hsub.trans ((List.sublist_cons_self _ _).trans (List.sublist_append_right _ _))

theorem absorbFrom_spec {scratch : List (Option (List UInt8))} {is : List Nat} {hs : Hashes}
    {res : Except Error Hashes} (his : is.Nodup)
    (h : absorbFrom P t scratch is p hs w = some ((res, p'), w')) :
    ∃ evs, w'.log = w.log ++ evs ∧ Later P w w' ∧ Absorption t scratch is p p' evs ∧
      ∀ hs', res = .ok hs' → hs' = hs.update (entropy evs) ∧
        (absorbed evs).map Entry.pos = tickOrder p.config t is := by
  induction is generalizing p hs w with
  | nil =>
    cases h
    refine ⟨[], by simp, Std.Refl.refl _,
      ⟨.refl _, rfl, by simp, rfl, fun _ _ => rfl, by simp, by simp [absorbed]⟩, ?_⟩
    intro hs' hres
    cases hres
    simp [entropy, absorbed, tickOrder]
  | cons i is ih =>
    obtain ⟨hi, his⟩ := List.nodup_cons.mp his
    unfold absorbFrom at h
    split at h
    · rename_i hle
      obtain ⟨evs, hlog, hlat, habs, hok⟩ := ih his h
      refine ⟨evs, hlog, hlat, habs.skip, ?_⟩
      rw [tickOrder_cons_of_le hle]
      exact hok
    · rename_i hlt
      have ht : t < p.config.slotTicks i := not_le.mp hlt
      cases hcell : scratch[i]? with
      | none => simp [hcell] at h
      | some cell =>
        rw [hcell] at h
        obtain ⟨⟨r, q⟩, v, hb, h⟩ := bind_eq_some.mp h
        obtain ⟨evs, hlog, hlat, hblock⟩ := blockFor_spec hb
        cases r with
        | error e =>
          cases h
          exact ⟨evs, hlog, hlat, hblock.absorption hcell, by simp⟩
        | ok b =>
          replace h := of_emit h
          obtain ⟨evs', hlog', hlat', habs, hok⟩ := ih his h
          refine ⟨evs ++ .absorb t i b :: evs', by simp [hlog', hlog],
            IsTrans.trans _ _ _ hlat hlat'.of_emitted, hblock.then hcell ht hi habs, ?_⟩
          intro hs' hres
          obtain ⟨rfl, horder⟩ := hok hs' hres
          have hcons : absorbed (.absorb t i b :: evs') = ⟨t, i, b⟩ :: absorbed evs' := rfl
          rw [hblock.evolves.config] at horder
          simp [entropy, hcons, hblock.absorbed, horder, tickOrder_cons_of_lt ht, Entry.pos]

end Pool
end P11Rand
