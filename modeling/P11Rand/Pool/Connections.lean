import P11Rand.Effect.Ledger
import P11Rand.Pool.Round

/-! The connections to cards that a pool holds, and what it does with them. -/
namespace P11Rand

open Effect Run

variable {W : Type} {P : Platform W} {w w' : World W} {cfg : Config}

/-- What an exchange does to the connections. A connection that is dropped is gone whatever the
answer; one that could not be left is still there. -/
def Exchange.deal : Exchange → Deal Card
  | ⟨.connect _ reader, .ok handle⟩ => ⟨[], 0, {⟨reader, handle⟩}⟩
  | ⟨.transmit card _, _⟩ => ⟨[card], 0, 0⟩
  | ⟨.disconnect card .resetCard, _⟩ => ⟨[], {card}, 0⟩
  | ⟨.disconnect card .leaveCard, .ok ()⟩ => ⟨[], {card}, 0⟩
  | ⟨.disconnect card .leaveCard, .error _⟩ => ⟨[card], 0, 0⟩
  | _ => ⟨[], 0, 0⟩

/-- The request is made in the context, if it is made in one. -/
def Request.InContext (ctx : Option Context) : Request → Prop
  | .establish | .releaseContext _ => False
  | .listReadersLen c | .listReaders c _ | .connect c _ => ctx = some c
  | _ => True

/-- The connections of a process that keeps its context. -/
def connections (W : Type) (ctx : Option Context) : Account (World W) Exchange Card where
  events := World.trace
  deal := Exchange.deal
  allowed e := e.request.InContext ctx
  stable w := w.global.ctx = ctx

variable {ctx : Option Context}

theorem owns_request {q : Request} {H : Multiset Card} {K : q.Answer → Multiset Card}
    (hq : q.InContext ctx) (hdeal : ∀ ans, ∃ F, H = (Exchange.deal ⟨q, ans⟩).releases + F ∧
      K ans = (Exchange.deal ⟨q, ans⟩).acquires + F ∧
      ∀ c ∈ (Exchange.deal ⟨q, ans⟩).needs, c ∈ (Exchange.deal ⟨q, ans⟩).releases + F) :
    Owns (connections W ctx) (request P q) H K := by
  intro w ans w' hw h
  rw [request_apply] at h
  cases h
  obtain ⟨F, rfl, hK, hneeds⟩ := hdeal (P.answer q w.env).1
  refine ⟨hw, _, rfl, ?_, hK ▸ .single hneeds⟩
  intro e he
  rw [List.mem_singleton.mp he]
  exact hq

/-- A request that is not about a connection. -/
theorem owns_idle {q : Request} (hq : q.InContext ctx)
    (hidle : ∀ ans, Exchange.deal ⟨q, ans⟩ = ⟨[], 0, 0⟩) :
    Owns (connections W ctx) (request P q) 0 fun _ => 0 := by
  refine owns_request hq fun ans => ⟨0, ?_⟩
  simp [hidle]

/-- What is held of a result; an error holds nothing. -/
def okCards {ε α : Type} (cards : α → Multiset Card) : Except ε α → Multiset Card
  | .ok a => cards a
  | .error _ => 0

namespace Iso7816

theorem owns_withContext {α : Type} {f : Context → Run (World W) (Except Error α)}
    {K : Except Error α → Multiset Card}
    (hf : ∀ c, ctx = some c → Owns (connections W ctx) (f c) 0 K)
    (herror : K (.error .transport) = 0) : Owns (connections W ctx) (withContext f) 0 K := by
  refine owns_get fun u hu => ?_
  have hu : u.global.ctx = ctx := hu
  rw [hu]
  cases ctx with
  | none => exact owns_pure herror
  | some c => exact hf c rfl

theorem owns_listReaders : Owns (connections W ctx) (listReaders P) 0 fun _ => 0 := by
  refine owns_withContext (fun c hc => ?_) rfl
  refine owns_bind (owns_idle (q := .listReadersLen c) hc fun _ => rfl) fun ans => ?_
  cases ans with
  | error _ => exact owns_pure rfl
  | ok len =>
    dsimp only
    split
    · exact owns_pure rfl
    · refine owns_bind (owns_idle (q := .listReaders c len) hc fun _ => rfl) fun ans => ?_
      split <;> exact owns_pure rfl

theorem owns_transmit (card : Card) (apdu : List UInt8) :
    Owns (connections W ctx) (request P (.transmit card apdu)) {card} fun _ => {card} :=
  owns_request (q := .transmit card apdu) trivial fun _ => ⟨{card}, by simp [Exchange.deal]⟩

theorem owns_selectAid (card : Card) (aid : List UInt8) :
    Owns (connections W ctx) (selectAid P card aid) {card} fun _ => {card} := by
  refine owns_bind (owns_transmit card _) fun ans => ?_
  cases ans <;> exact owns_pure rfl

theorem owns_tryGetChallenge (card : Card) (n : Nat) (out : List UInt8) :
    Owns (connections W ctx) (tryGetChallenge P card n out) {card} fun _ => {card} := by
  refine owns_bind (owns_transmit card _) fun ans => ?_
  cases ans with
  | error _ => exact owns_pure rfl
  | ok resp =>
    dsimp only
    split <;> exact owns_pure rfl

theorem owns_probeApplets (card : Card) (throwaway : List UInt8)
    (apps : List (AppId × List UInt8)) :
    Owns (connections W ctx) (probeApplets P card throwaway apps) {card} fun _ => {card} := by
  induction apps generalizing throwaway with
  | nil => exact owns_pure rfl
  | cons app apps ih =>
    refine owns_bind (owns_selectAid card _) fun res => ?_
    match res with
    | .error _ => exact owns_pure rfl
    | .ok false => exact ih throwaway
    | .ok true =>
      refine owns_bind (owns_tryGetChallenge card _ _) fun res => ?_
      match res with
      | (.error _, _) => exact owns_pure rfl
      | (.ok true, _) => exact owns_pure rfl
      | (.ok false, throwaway) => exact ih throwaway

theorem owns_probeApp (card : Card) :
    Owns (connections W ctx) (probeApp P card) {card} fun _ => {card} := by
  refine owns_bind (owns_tryGetChallenge card _ _) fun res => ?_
  match res with
  | (.error _, _) => exact owns_pure rfl
  | (.ok true, _) => exact owns_pure rfl
  | (.ok false, throwaway) => exact owns_probeApplets card throwaway _

theorem owns_dropCard (card : Card) :
    Owns (connections W ctx) (dropCard P card) {card} fun _ => 0 := by
  refine owns_bind (K := fun _ => 0) ?_ fun _ => owns_pure rfl
  exact owns_request (q := .disconnect card .resetCard) trivial fun _ =>
    ⟨0, by simp [Exchange.deal]⟩

/-- A connection that cannot be left is dropped. -/
theorem owns_leaveCard (card : Card) :
    Owns (connections W ctx) (leaveCard P card) {card} fun _ => 0 := by
  refine owns_bind (K := fun ans : Except PcscError Unit =>
    match ans with | .ok _ => 0 | .error _ => {card}) ?_ fun ans => ?_
  · refine owns_request (q := .disconnect card .leaveCard) trivial fun ans => ?_
    cases ans with
    | ok _ => exact ⟨0, by simp [Exchange.deal]⟩
    | error _ => exact ⟨{card}, by simp [Exchange.deal]⟩
  · cases ans with
    | ok _ => exact owns_pure rfl
    | error _ => exact owns_dropCard card

theorem owns_connect (reader : String) :
    Owns (connections W ctx) (connect P reader) 0 (okCards fun card => {card}) := by
  refine owns_withContext (fun c hc => ?_) rfl
  refine owns_bind (K := fun ans : Except PcscError Nat =>
    okCards (fun handle => {(⟨reader, handle⟩ : Card)}) ans) ?_ fun ans => ?_
  · refine owns_request (q := .connect c reader) hc fun ans => ⟨0, ?_⟩
    cases ans <;> simp [Exchange.deal, okCards]
  · cases ans <;> exact owns_pure rfl

theorem owns_openSource (reader : String) :
    Owns (connections W ctx) (openSource P reader) 0 (okCards fun src => {src.card}) := by
  unfold openSource
  split
  · exact owns_pure rfl
  refine owns_bind (owns_connect reader) fun res => ?_
  cases res with
  | error _ => exact owns_pure rfl
  | ok card =>
    refine owns_bind (owns_probeApp card) fun res => ?_
    cases res with
    | ok app => exact owns_pure rfl
    | error e => exact owns_bind (owns_leaveCard card) fun _ => owns_pure rfl

theorem owns_readStep (r : Reading Source) : Owns (connections W ctx) (Source.readStep P r)
    {r.src.card} (Sum.elim (fun r => {r.src.card}) fun o => {o.src.card}) := by
  unfold Source.readStep
  split
  · exact owns_pure rfl
  split
  · exact owns_pure rfl
  refine owns_bind (owns_tryGetChallenge _ _ _) fun res => ?_
  match res with
  | (.error _, _) => exact owns_pure rfl
  | (.ok true, _) => exact owns_pure rfl
  | (.ok false, _) =>
    dsimp only
    split <;> exact owns_pure rfl

end Iso7816

namespace Infnoise

theorem owns_listPaths : Owns (connections W ctx) (listPaths P) 0 fun _ => 0 := by
  refine owns_bind (owns_idle (q := .readDir) trivial fun _ => rfl) fun ans => ?_
  split <;> exact owns_pure rfl

theorem owns_openSource (path : String) :
    Owns (connections W ctx) (openSource P path) 0 fun _ => 0 := by
  refine owns_bind (owns_idle (q := .openFile path) trivial fun _ => rfl) fun ans => ?_
  cases ans <;> exact owns_pure rfl

theorem owns_readStep (r : Reading Source) :
    Owns (connections W ctx) (Source.readStep P r) 0 fun _ => 0 := by
  unfold Source.readStep
  split
  · exact owns_pure rfl
  refine owns_bind (owns_idle (q := .readFile _ _) trivial fun _ => rfl) fun ans => ?_
  cases ans with
  | data bytes =>
    dsimp only
    split <;> exact owns_pure rfl
  | interrupted => exact owns_pure rfl
  | error _ => exact owns_pure rfl

end Infnoise

namespace SlotInner

def cards : SlotInner → Multiset Card
  | .iso7816 src => {src.card}
  | _ => 0

theorem owns_drop (s : SlotInner) :
    Owns (connections W ctx) (s.drop P) s.cards fun _ => 0 := by
  cases s with
  | iso7816 src => exact Iso7816.owns_dropCard src.card
  | infnoise _ => exact owns_pure rfl
  | empty => exact owns_pure rfl

theorem owns_readStep (r : Reading SlotInner) : Owns (connections W ctx) (readStep P r)
    r.src.cards (Sum.elim (fun r => r.src.cards) fun o => o.src.cards) := by
  obtain ⟨src, done, rest⟩ := r
  cases src with
  | iso7816 src =>
    refine owns_bind (Iso7816.owns_readStep _) fun y => owns_pure ?_
    cases y <;> rfl
  | infnoise src =>
    refine owns_bind (Infnoise.owns_readStep _) fun y => owns_pure ?_
    cases y <;> rfl
  | empty => exact owns_pure rfl

theorem owns_read (s : SlotInner) (buf : List UInt8) :
    Owns (connections W ctx) (s.read P buf) s.cards fun o => o.src.cards := by
  intro w o w' hw h
  rw [read_eq_loop] at h
  exact owns_loop owns_readStep (.start s buf) w o w' hw h

end SlotInner

namespace SlotKind

theorem owns_list (kind : SlotKind) : Owns (connections W ctx) (kind.list P) 0 fun _ => 0 := by
  cases kind with
  | iso7816 => exact owns_bind Iso7816.owns_listReaders fun _ => owns_pure rfl
  | infnoise => exact owns_bind Infnoise.owns_listPaths fun _ => owns_pure rfl

theorem owns_openSource (kind : SlotKind) (name : String) :
    Owns (connections W ctx) (kind.openSource P name) 0 fun src => src.elim 0 SlotInner.cards := by
  cases kind with
  | iso7816 =>
    refine owns_bind (Iso7816.owns_openSource name) fun res => ?_
    cases res <;> exact owns_pure rfl
  | infnoise =>
    refine owns_bind (Infnoise.owns_openSource name) fun res => ?_
    cases res <;> exact owns_pure rfl

end SlotKind

/-- The connections that slots hold. -/
def slotCards (l : List Slot) : Multiset Card := (l.map fun s => s.inner.cards).sum

@[simp] theorem slotCards_nil : slotCards [] = 0 := rfl

@[simp] theorem slotCards_cons (s : Slot) (l : List Slot) :
    slotCards (s :: l) = s.inner.cards + slotCards l := rfl

@[simp] theorem slotCards_append (l l' : List Slot) :
    slotCards (l ++ l') = slotCards l + slotCards l' := by
  simp [slotCards]

theorem Slot.owns_close (s : Slot) :
    Owns (connections W ctx) (s.close P) s.inner.cards fun s' => s'.inner.cards :=
  owns_bind s.inner.owns_drop fun _ => owns_pure rfl

theorem owns_countUsable (cards usable : Nat) (readers : List String) :
    Owns (connections W ctx) (countUsable P cards usable readers) 0 fun _ => 0 := by
  induction readers generalizing usable with
  | nil => exact owns_pure rfl
  | cons r rs ih =>
    unfold countUsable
    split
    · exact owns_pure rfl
    · refine owns_bind (Iso7816.owns_openSource r) fun res => ?_
      cases res with
      | ok src => exact owns_bind (Iso7816.owns_dropCard src.card) fun _ => ih _
      | error _ => exact ih _

theorem owns_fillable (cfg : Config) :
    Owns (connections W ctx) (fillable P cfg) 0 fun _ => 0 := by
  have hcards : Owns (connections W ctx) (cardsUsable P cfg) 0 fun _ => 0 := by
    unfold cardsUsable
    split
    · refine owns_bind (SlotKind.owns_list .iso7816) fun res => ?_
      cases res with
      | error _ => exact owns_pure rfl
      | ok readers => exact owns_bind (owns_countUsable _ _ _) fun _ => owns_pure rfl
    · exact owns_pure rfl
  have hnodes : Owns (connections W ctx) (nodesPresent P cfg) 0 fun _ => 0 := by
    unfold nodesPresent
    split
    · refine owns_bind (SlotKind.owns_list .infnoise) fun res => ?_
      cases res <;> exact owns_pure rfl
    · exact owns_pure rfl
  refine owns_bind hcards fun res => ?_
  split
  · exact hnodes
  · exact owns_pure rfl

theorem owns_dropSlots (l : List Slot) :
    Owns (connections W ctx) (dropSlots P l) (slotCards l) fun _ => 0 := by
  induction l with
  | nil => exact owns_pure rfl
  | cons s l ih =>
    refine owns_bind (K := fun _ => slotCards l) ?_ fun _ => ih
    exact (s.inner.owns_drop.frame (slotCards l)).congr rfl fun _ => (zero_add _).symm

/-- What is claimed is held, whatever else is. -/
theorem owns_claim (kind : SlotKind) (want : Nat) (got : List Slot) (names : List String) :
    Owns (connections W ctx) (claim P kind want got names) (slotCards got) slotCards := by
  induction names generalizing got with
  | nil => exact owns_pure rfl
  | cons name names ih =>
    unfold claim
    split
    · exact owns_pure rfl
    · refine owns_bind (K := fun src => src.elim 0 SlotInner.cards + slotCards got) ?_ fun src => ?_
      · exact ((kind.owns_openSource name).frame (slotCards got)).congr (zero_add _).symm
          fun _ => rfl
      · cases src with
        | none => exact (ih got).congr (zero_add _) fun _ => rfl
        | some src =>
          refine (ih (got ++ [⟨kind, some name, src⟩])).congr ?_ fun _ => rfl
          simp [add_comm]

theorem owns_claimKind (cfg : Config) (kind : SlotKind) (slots : List Slot) :
    Owns (connections W ctx) (claimKind P cfg kind slots) (slotCards slots)
      (okCards slotCards) := by
  unfold claimKind
  split
  · refine owns_bind (K := fun _ => slotCards slots) ?_ fun res => ?_
    · exact (kind.owns_list.frame (slotCards slots)).congr (zero_add _).symm fun _ =>
        (zero_add _).symm
    · cases res with
      | error _ => exact owns_bind (owns_dropSlots slots) fun _ => owns_pure rfl
      | ok names =>
        refine owns_bind (K := fun got => slotCards (slots ++ got)) ?_ fun got => ?_
        · refine ((owns_claim kind (cfg.count kind) [] names).frame (slotCards slots)).congr ?_
            fun got => ?_
          · simp
          · rw [slotCards_append, add_comm]
        · split
          · exact owns_bind (owns_dropSlots _) fun _ => owns_pure rfl
          · exact owns_pure rfl
  · exact owns_pure rfl

namespace Pool

/-- The connections that a pool holds. -/
def cards (p : Pool) : Multiset Card := slotCards p.slots

/-- A pool that is not opened leaves no connection behind. -/
theorem owns_open (cfg : Config) :
    Owns (connections W ctx) (Pool.open P cfg) 0 (okCards cards) := by
  unfold Pool.open
  split
  · exact owns_pure rfl
  refine owns_bind (owns_claimKind cfg .iso7816 []) fun res => ?_
  cases res with
  | error _ => exact owns_pure rfl
  | ok slots =>
    refine owns_bind (owns_claimKind cfg .infnoise slots) fun res => ?_
    cases res <;> exact owns_pure rfl

variable {p : Pool} {i idx : Nat} {s : Slot}

theorem cards_setSlot (hs : p.slots[i]? = some s) : ∃ F, p.cards = s.inner.cards + F ∧
    ∀ s', (p.setSlot i s').cards = s'.inner.cards + F := sum_map_set hs

theorem owns_emit (e : PoolEvent) (H : Multiset Card) :
    Owns (connections W ctx) (emit e : Run (World W) Unit) H fun _ => H := by
  intro w a w' hw h
  cases h
  exact ⟨hw, [], by simp [connections], by simp, .nil⟩

theorem owns_choose (n : Nat) :
    Owns (connections W ctx) (choose n : Run (World W) Nat) 0 fun _ => 0 := by
  intro w a w' hw h
  cases h
  exact ⟨hw, [], by simp [connections], by simp, .nil⟩

/-- The scan is made for a slot that holds nothing. -/
theorem owns_rebindScan (kind : SlotKind) (names : List String) (hs : p.slots[idx]? = some s)
    (hempty : s.inner.cards = 0) : Owns (connections W ctx) (rebindScan P idx kind p names) p.cards
      fun r => r.2.cards := by
  obtain ⟨F, hp, hset⟩ := cards_setSlot hs
  rw [hempty, zero_add] at hp
  induction names with
  | nil => exact owns_bind (owns_emit _ _) fun _ => owns_pure rfl
  | cons name names ih =>
    unfold rebindScan
    split
    · exact ih
    · refine owns_bind (K := fun src => src.elim 0 SlotInner.cards + F) ?_ fun src => ?_
      · exact ((kind.owns_openSource name).frame F).congr (by rw [hp, zero_add]) fun _ => rfl
      · cases src with
        | none => exact ih.congr (by rw [hp]; exact zero_add F) fun _ => rfl
        | some src => exact owns_bind (owns_emit _ _) fun _ => owns_pure (hset _)

theorem owns_rebind (p : Pool) (idx : Nat) :
    Owns (connections W ctx) (p.rebind P idx) p.cards fun r => r.2.cards := by
  unfold rebind
  cases hs : p.slots[idx]? with
  | none => exact owns_stuck
  | some s =>
    obtain ⟨F, hp, hset⟩ := cards_setSlot hs
    have hlt := (List.getElem?_eq_some_iff.mp hs).1
    refine owns_bind_of (Q := fun s' => s' = s.closed) (K := fun s' => (p.setSlot idx s').cards)
      ?_ ?_ ?_
    · exact (s.owns_close.frame F).congr hp hset
    · intro w s' w' h
      obtain ⟨_, _, _, h⟩ := bind_eq_some.mp h
      cases h
      rfl
    · rintro s' rfl
      have hempty : (p.setSlot idx s.closed).slots[idx]? = some s.closed := by simp [setSlot, hlt]
      refine owns_bind (K := fun _ => (p.setSlot idx s.closed).cards) ?_ fun res => ?_
      · exact (s.kind.owns_list.frame _).congr (zero_add _).symm fun _ => (zero_add _).symm
      · cases res with
        | error _ => exact owns_bind (owns_emit _ _) fun _ => owns_pure rfl
        | ok names => exact owns_rebindScan _ _ hempty rfl

theorem owns_readSlot (p : Pool) (i : Nat) (buf : List UInt8) :
    Owns (connections W ctx) (p.readSlot P i buf) p.cards fun r => r.2.cards := by
  unfold readSlot
  cases hs : p.slots[i]? with
  | none => exact owns_stuck
  | some s =>
    obtain ⟨F, hp, hset⟩ := cards_setSlot hs
    refine owns_bind (K := fun o => o.src.cards + F) ?_ fun o => owns_pure (hset _)
    exact ((s.inner.owns_read buf).frame F).congr hp fun _ => rfl

theorem workers_cards (cfg : Config) (t : Nat) (l : List Slot) :
    ((l.mapIdx (worker cfg t)).map (Sum.elim (fun r => r.src.cards) fun o => o.src.cards)).sum =
      slotCards l := by
  have hone : ∀ i s, Sum.elim (fun r : Reading SlotInner => r.src.cards)
      (fun o : Outcome SlotInner Unit => o.src.cards) (worker cfg t i s) = s.inner.cards := by
    intro i s
    unfold worker
    split <;> rfl
  have hmap : (l.mapIdx (worker cfg t)).map (Sum.elim (fun r => r.src.cards) fun o => o.src.cards) =
      l.map fun s => s.inner.cards := by
    apply List.ext_getElem?
    intro i
    cases h : l[i]? <;> simp [h, hone]
  rw [hmap, slotCards]

theorem joined_cards {l : List Slot} {os : List (Outcome SlotInner Unit)}
    (hlen : os.length = l.length) :
    slotCards (l.zipWith (fun s o => { s with inner := o.src }) os) =
      (os.map fun o => o.src.cards).sum := by
  induction l generalizing os with
  | nil =>
    obtain rfl := List.length_eq_zero_iff.mp hlen
    rfl
  | cons s l ih =>
    cases os with
    | nil => cases hlen
    | cons o os =>
      rw [List.zipWith_cons_cons, slotCards_cons, ih (Nat.succ.inj hlen), List.map_cons,
        List.sum_cons]

/-- The workers of a tick hold among them what the slots held. -/
theorem owns_fanOut (p : Pool) (t : Nat) :
    Owns (connections W ctx) (p.fanOut P t) p.cards fun r => r.2.cards := by
  have hworkers : Owns (connections W ctx) (interleave (SlotInner.readStep P) choose
      (p.slots.mapIdx (worker p.config t))) p.cards fun os => (os.map fun o => o.src.cards).sum :=
    (owns_interleave owns_choose SlotInner.owns_readStep _).congr
      (workers_cards p.config t p.slots).symm fun _ => rfl
  refine owns_bind_of hworkers interleave_length fun os hlen => ?_
  rw [List.length_mapIdx] at hlen
  refine owns_bind (K := fun _ => (os.map fun o : Outcome SlotInner Unit => o.src.cards).sum) ?_
    fun scratch => owns_pure (joined_cards hlen)
  intro w a w' hw h
  rw [join_apply] at h
  cases h
  exact ⟨hw, [], by simp [connections], by simp, .nil⟩

theorem owns_retrySlot (p : Pool) (t i : Nat) :
    Owns (connections W ctx) (p.retrySlot P t i) p.cards fun r => r.2.cards := by
  refine owns_bind (owns_rebind p i) fun r => ?_
  match r with
  | (.error _, q) => exact owns_pure rfl
  | (.ok (), q) =>
    refine owns_bind (owns_readSlot q i _) fun r => owns_bind (owns_emit _ _) fun _ => ?_
    split <;> exact owns_pure rfl

theorem owns_blockFor (p : Pool) (t i : Nat) (cell : Option (List UInt8)) :
    Owns (connections W ctx) (p.blockFor P t i cell) p.cards fun r => r.2.cards := by
  cases cell with
  | some buf => exact owns_pure rfl
  | none => exact owns_retrySlot p t i

theorem owns_absorbFrom (t : Nat) (scratch : List (Option (List UInt8))) (is : List Nat) (p : Pool)
    (h : Hashes) : Owns (connections W ctx) (absorbFrom P t scratch is p h) p.cards
      fun r => r.2.cards := by
  induction is generalizing p h with
  | nil => exact owns_pure rfl
  | cons i is ih =>
    unfold absorbFrom
    split
    · exact ih p h
    · split
      · exact owns_stuck
      · refine owns_bind (owns_blockFor p t i _) fun r => ?_
        match r with
        | (.error _, q) => exact owns_pure rfl
        | (.ok buf, q) => exact owns_bind (owns_emit _ _) fun _ => ih q _

theorem owns_ticksFrom (n : Nat) (ts : List Nat) (p : Pool) (h : Hashes) :
    Owns (connections W ctx) (ticksFrom P n ts p h) p.cards fun r => r.2.cards := by
  induction ts generalizing p h with
  | nil => exact owns_pure rfl
  | cons t ts ih =>
    refine owns_bind (owns_fanOut p t) fun r => ?_
    obtain ⟨scratch, q⟩ := r
    refine owns_bind (owns_absorbFrom t scratch _ q h) fun r => ?_
    match r with
    | (.error _, q) => exact owns_pure rfl
    | (.ok h, q) => exact ih q h

theorem owns_doRoundChain (p : Pool) (out : Digest) :
    Owns (connections W ctx) (p.doRoundChain P out) p.cards fun r => r.2.1.cards := by
  refine owns_bind (owns_emit _ _) fun _ => owns_bind (owns_ticksFrom _ _ p _) fun r => ?_
  match r with
  | (.error _, q) => exact owns_pure rfl
  | (.ok h, q) => exact owns_bind (owns_emit _ _) fun _ => owns_pure rfl

theorem owns_readChain (p : Pool) (out : Digest) (done rest : List UInt8) :
    Owns (connections W ctx) (p.readChain P out done rest) p.cards fun r => r.2.1.cards := by
  induction hk : rest.length using Nat.strongRecOn generalizing p out done rest with
  | _ k ih =>
    unfold readChain
    split
    · exact owns_pure rfl
    · rename_i hrest
      have hpos : 0 < rest.length := List.length_pos_iff.mpr (by simpa using hrest)
      refine owns_bind (owns_doRoundChain p out) fun r => ?_
      match r with
      | (.error _, q, out) => exact owns_pure rfl
      | (.ok (), q, out) =>
        refine owns_bind (owns_emit _ _) fun _ => ih _ ?_ q out _ _ rfl
        simp only [List.length_drop, roundBytes]
        omega

theorem owns_readPassthrough (p : Pool) (buf : List UInt8) :
    Owns (connections W ctx) (p.readPassthrough P buf) p.cards fun r => r.2.1.cards := by
  refine owns_bind (owns_readSlot p 0 buf) fun r => owns_bind (owns_emit _ _) fun _ => ?_
  split
  · exact owns_pure rfl
  · refine owns_bind (owns_rebind _ 0) fun r => ?_
    match r with
    | (.error _, q) => exact owns_pure rfl
    | (.ok (), q) =>
      refine owns_bind (owns_readSlot q 0 _) fun r => owns_bind (owns_emit _ _) fun _ => ?_
      split <;> exact owns_pure rfl

/-- Between its reads a pool holds the connections of its slots, and no others. -/
theorem owns_read (p : Pool) (buf : List UInt8) :
    Owns (connections W ctx) (p.read P buf) p.cards fun r => r.2.1.cards := by
  unfold read
  split
  · exact owns_bind (owns_readChain p _ _ _) fun r => owns_pure rfl
  · exact owns_readPassthrough p buf

theorem owns_drop (p : Pool) :
    Owns (connections W ctx) (p.drop P) p.cards fun _ => 0 := owns_dropSlots p.slots

end Pool

end P11Rand
