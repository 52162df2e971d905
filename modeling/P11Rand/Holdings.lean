import P11Rand.Lifecycle
import P11Rand.Pool.Connections

/-! What the module holds of PC/SC over any run of calls: its context and its connections. -/
namespace P11Rand

open Effect Run

variable {W : Type} {P : Platform W} {w w' : World W} {cfg : Config} {m m' : Module} {rv : Rv}
  {ctx : Option Context} {h slot flags : CkUlong}

def entryCards (e : Option Session) : Multiset Card := e.elim 0 fun s => s.pool.cards

/-- The connections of the sessions in a table. -/
def tableCards (l : List (Option Session)) : Multiset Card := (l.map entryCards).sum

@[simp] theorem tableCards_nil : tableCards [] = 0 := rfl

@[simp] theorem tableCards_none (l : List (Option Session)) :
    tableCards (none :: l) = tableCards l := by
  simp [tableCards, entryCards]

@[simp] theorem tableCards_some (s : Session) (l : List (Option Session)) :
    tableCards (some s :: l) = s.pool.cards + tableCards l := by
  simp [tableCards, entryCards]

theorem owns_sweep (f : Session → Bool) (l : List (Option Session)) :
    Owns (connections W ctx) (sweep P f l) (tableCards l) tableCards := by
  induction l with
  | nil => exact owns_pure rfl
  | cons e l ih =>
    cases e with
    | none =>
      rw [tableCards_none]
      exact owns_bind ih fun l' => owns_pure (tableCards_none l')
    | some s =>
      rw [tableCards_some]
      unfold sweep
      split
      · refine owns_bind (K := fun _ => tableCards l) ?_ fun _ =>
          owns_bind ih fun l' => owns_pure (tableCards_none l')
        exact (s.pool.owns_drop.frame (tableCards l)).congr rfl fun _ => (zero_add _).symm
      · refine owns_bind (K := fun l' => s.pool.cards + tableCards l') ?_ fun l' =>
          owns_pure (tableCards_some s l')
        exact (ih.frame s.pool.cards).congr (add_comm _ _) fun _ => add_comm _ _

namespace Module

def cards (m : Module) : Multiset Card := tableCards m.sessions

theorem owns_setTokenPresent (m : Module) (i : Nat) (present : Bool) :
    Owns (connections W ctx) (m.setTokenPresent i present) m.cards cards := by
  unfold setTokenPresent
  split
  · exact owns_stuck
  · exact owns_pure rfl

theorem owns_fillable_framed (m : Module) (cfg : Config) :
    Owns (connections W ctx) (fillable P cfg) m.cards fun _ => m.cards :=
  ((owns_fillable cfg).frame m.cards).congr (zero_add _).symm fun _ => (zero_add _).symm

theorem owns_refreshSlot (m : Module) (i : Nat) :
    Owns (connections W ctx) (m.refreshSlot P cfg i) m.cards fun r => r.2.cards :=
  owns_bind (m.owns_fillable_framed cfg) fun _ =>
    owns_bind (m.owns_setTokenPresent i _) fun _ => owns_pure rfl

theorem owns_countSlots (filter : Bool) (is : List Nat) (m : Module) (want : Nat) :
    Owns (connections W ctx) (countSlots P cfg filter is m want) m.cards fun r => r.2.cards := by
  induction is generalizing m want with
  | nil => exact owns_pure rfl
  | cons i is ih =>
    unfold countSlots
    split
    · refine owns_bind (m.owns_refreshSlot i) fun r => ?_
      obtain ⟨present, m⟩ := r
      cases present with
      | true => exact ih m _
      | false => exact ih m _
    · exact ih m _

theorem owns_cGetSlotList (m : Module) (tokenPresent : UInt8) (pList : Option (List CkUlong))
    (pCount : Option CkUlong) : Owns (connections W ctx)
      (m.cGetSlotList P cfg tokenPresent pList pCount) m.cards fun r => r.2.1.cards := by
  cases pCount with
  | none => exact owns_pure rfl
  | some count =>
    unfold cGetSlotList
    dsimp only
    split
    · exact owns_pure rfl
    · refine owns_bind (owns_countSlots _ _ m 0) fun r => ?_
      obtain ⟨want, m⟩ := r
      cases pList with
      | none => exact owns_pure rfl
      | some list =>
        dsimp only
        split <;> exact owns_pure rfl

theorem owns_cGetSlotInfo (m : Module) (slot : CkUlong) (pInfo : Option CkSlotInfo) :
    Owns (connections W ctx) (m.cGetSlotInfo P cfg slot pInfo) m.cards fun r => r.2.1.cards := by
  unfold cGetSlotInfo
  split
  · exact owns_pure rfl
  split
  · exact owns_pure rfl
  split
  · exact owns_pure rfl
  · exact owns_bind (m.owns_refreshSlot _) fun r => owns_pure rfl

theorem owns_cGetTokenInfo (m : Module) (slot : CkUlong) (pInfo : Option CkTokenInfo) :
    Owns (connections W ctx) (m.cGetTokenInfo P cfg slot pInfo) m.cards fun r => r.2.1.cards := by
  unfold cGetTokenInfo
  split
  · exact owns_pure rfl
  split
  · exact owns_pure rfl
  split
  · exact owns_pure rfl
  refine owns_bind (m.owns_refreshSlot _) fun r => ?_
  match r with
  | (false, m) => exact owns_pure rfl
  | (true, m) => exact owns_pure rfl

/-- The session that is opened holds what its pool does. -/
theorem owns_cOpenSession (m : Module) (slot flags : CkUlong) (phSession : Option CkUlong) :
    Owns (connections W ctx) (m.cOpenSession P cfg slot flags phSession) m.cards
      fun r => r.2.1.cards := by
  unfold cOpenSession
  split
  · exact owns_pure rfl
  split
  · exact owns_pure rfl
  split
  · exact owns_pure rfl
  split
  · exact owns_pure rfl
  cases hfree : m.sessions.findIdx? Option.isNone with
  | none => exact owns_pure rfl
  | some idx =>
    obtain ⟨hidx, hnone, _⟩ := List.findIdx?_eq_some_iff_getElem.mp hfree
    have hentry : m.sessions[idx]? = some none := by
      rw [List.getElem?_eq_getElem hidx, Option.isNone_iff_eq_none.mp hnone]
    refine owns_bind (K := fun res => okCards Pool.cards res + m.cards) ?_ fun res => ?_
    · exact ((Pool.owns_open cfg).frame m.cards).congr (zero_add _).symm fun _ => rfl
    match res with
    | .error .notEnoughSources =>
      refine owns_bind (K := cards) ?_ fun m' => owns_pure rfl
      exact (m.owns_setTokenPresent _ _).congr (zero_add _) fun _ => rfl
    | .error .resource => exact owns_pure (zero_add _).symm
    | .error .readFailure => exact owns_pure (zero_add _).symm
    | .ok pool =>
      obtain ⟨F, hm, hset⟩ := sum_map_set (f := entryCards) hentry
      refine owns_bind_of (Q := fun m' => m'.sessions = m.sessions)
        (K := fun m' => m'.cards + pool.cards) ?_ (fun w => ?_) fun m' hm' => owns_pure ?_
      · exact ((m.owns_setTokenPresent _ _).frame pool.cards).congr (add_comm _ _) fun _ => rfl
      · intro m' w' h
        obtain ⟨_, rfl, _⟩ := setTokenPresent_cases h
        rfl
      · simp only [cards, tableCards, hm', hset, hm]
        rw [show entryCards none = 0 from rfl, zero_add, add_comm]
        rfl

theorem owns_cCloseSession (m : Module) (h : CkUlong) :
    Owns (connections W ctx) (m.cCloseSession P h) m.cards fun r => r.2.cards := by
  unfold cCloseSession
  split
  · exact owns_pure rfl
  cases hf : m.findSession h with
  | none => exact owns_pure rfl
  | some idx =>
    obtain ⟨_, rfl, s, hs⟩ := findSession_cases hf
    obtain ⟨F, hm, hset⟩ := sum_map_set (f := entryCards) hs
    dsimp only
    rw [hs]
    refine owns_bind (K := fun _ => F) ?_ fun _ => owns_pure ((hset none).trans (zero_add F))
    exact (s.pool.owns_drop.frame F).congr hm fun _ => (zero_add F).symm

theorem owns_cCloseAllSessions (m : Module) (slot : CkUlong) :
    Owns (connections W ctx) (m.cCloseAllSessions P slot) m.cards fun r => r.2.cards := by
  unfold cCloseAllSessions
  split
  · exact owns_pure rfl
  split
  · exact owns_pure rfl
  · exact owns_bind (owns_sweep _ m.sessions) fun _ => owns_pure rfl

theorem owns_cGenerateRandom (m : Module) (h : CkUlong) (buf : Option (List UInt8))
    (len : CkUlong) : Owns (connections W ctx) (m.cGenerateRandom P h buf len) m.cards
      fun r => r.2.1.cards := by
  unfold cGenerateRandom
  split
  · exact owns_pure rfl
  split
  · exact owns_pure rfl
  cases hf : m.findSession h with
  | none => exact owns_pure rfl
  | some idx =>
    obtain ⟨_, rfl, s, hs⟩ := findSession_cases hf
    obtain ⟨F, hm, hset⟩ := sum_map_set (f := entryCards) hs
    dsimp only
    rw [hs]
    refine owns_bind (K := fun r => r.2.1.cards + F) ?_ fun r => ?_
    · exact ((s.pool.owns_read _).frame F).congr hm fun _ => rfl
    · match r with
      | (.ok (), pool, _) => exact owns_pure (hset (some { s with pool }))
      | (.error _, pool, _) => exact owns_pure (hset (some { s with pool }))

end Module

/-- The context that is established once some exchanges have been made. -/
def established (es : List Exchange) : Option Context :=
  es.foldl (fun ctx e => match e with
    | ⟨.establish, .ok c⟩ => some c
    | ⟨.releaseContext _, _⟩ => none
    | _ => ctx) none

@[simp] theorem established_nil : established [] = none := rfl

theorem established_establish (es : List Exchange) (c : Context) :
    established (es ++ [⟨.establish, .ok c⟩]) = some c := by
  simp [established]

theorem established_release (es : List Exchange) (c : Context) :
    established (es ++ [⟨.releaseContext c, ()⟩]) = none := by
  simp [established]

theorem established_refused (es : List Exchange) (e : PcscError) :
    established (es ++ [⟨.establish, .error e⟩]) = established es := by
  simp [established]

theorem established_append {es fs : List Exchange}
    (h : ∀ e ∈ fs, e.request.InContext ctx) : established (es ++ fs) = established es := by
  induction fs using List.reverseRecOn with
  | nil => rw [List.append_nil]
  | append_singleton fs e ih =>
    have he : e.request.InContext ctx := h e (by simp)
    rw [← List.append_assoc, ← ih fun x hx => h x (by simp [hx])]
    obtain ⟨q, ans⟩ := e
    cases q <;> first | exact he.elim | simp [established]

/-- What may be asked of PC/SC with some context and connections. The context is released before
another is established, and last of all. -/
def Request.Proper (ctx : Option Context) (held : Multiset Card) : Request → Prop
  | .establish => ctx = none ∧ held = 0
  | .releaseContext c => ctx = some c ∧ held = 0
  | .listReadersLen c | .listReaders c _ | .connect c _ => ctx = some c
  | .transmit card _ | .disconnect card _ => card ∈ held
  | .readDir | .openFile _ | .readFile _ _ => True

/-- The request was proper when it was made. -/
def Exchange.Proper (es : List Exchange) (e : Exchange) : Prop :=
  e.request.Proper (established es) (balance Exchange.deal es)

theorem Exchange.proper {es : List Exchange} {e : Exchange}
    (hctx : e.request.InContext (established es)) (horder : InOrder Exchange.deal es e) :
    e.Proper es := by
  obtain ⟨hneeds, hreleases⟩ := horder
  obtain ⟨q, ans⟩ := e
  cases q with
  | establish => exact hctx.elim
  | releaseContext c => exact hctx.elim
  | listReadersLen c => exact hctx
  | listReaders c len => exact hctx
  | connect c reader => exact hctx
  | transmit card apdu => exact hneeds card (by simp [Exchange.deal])
  | disconnect card disposition =>
    cases disposition with
    | resetCard => exact Multiset.singleton_le.mp hreleases
    | leaveCard =>
      cases ans with
      | ok _ => exact Multiset.singleton_le.mp hreleases
      | error _ => exact hneeds card (by simp [Exchange.deal])
  | readDir => trivial
  | openFile path => trivial
  | readFile file len => trivial

/-- All requests were proper, and the record says what the process holds. -/
structure Tidy (H : Multiset Card) (w : World W) : Prop where
  proper : Lawful (fun es e => e.Proper es) w.trace
  ctx : established w.trace = w.global.ctx
  held : balance Exchange.deal w.trace = H

variable {α : Type} {x : Run (World W) α} {a : α} {H : Multiset Card} {K : α → Multiset Card}

theorem Tidy.owns (ht : Tidy H w) (hx : Owns (connections W w.global.ctx) x H K)
    (h : x w = some (a, w')) : Tidy (K a) w' := by
  obtain ⟨hctx, es, hes, hall, hdeals⟩ := hx w a w' rfl h
  have hes : w'.trace = w.trace ++ es := hes
  have hkeep : ∀ pre post, es = pre ++ post → established (w.trace ++ pre) = w.global.ctx :=
    fun pre post heq => (established_append fun e he => hall e (by simp [heq, he])).trans ht.ctx
  obtain ⟨hproper, hheld⟩ := hdeals.lawful ht.proper ht.held fun pre e post heq horder =>
    Exchange.proper (by rw [hkeep pre _ heq]; exact hall e (by simp [heq])) horder
  rw [← hes] at hproper hheld
  exact ⟨hproper, by rw [hes, hkeep es [] (by simp)]; exact hctx.symm, hheld⟩

theorem Tidy.contextInit {res : Except Iso7816.Error Unit} (ht : Tidy 0 w)
    (hg : w.global = ⟨none, 0⟩) (h : Iso7816.globalInit P w = some (res, w')) : Tidy 0 w' := by
  rw [Iso7816.globalInit, bind_of_eq (get_apply w), hg, if_neg (by simp)] at h
  obtain ⟨ans, u, hq, h⟩ := bind_eq_some.mp h
  rw [request_apply] at hq
  cases hq
  have hnone : established w.trace = none := by rw [ht.ctx, hg]
  have hbal : balance Exchange.deal w.trace = 0 := ht.held
  cases hans : (P.answer .establish w.env).1 with
  | error e =>
    rw [hans] at h
    cases h
    refine ⟨lawful_snoc.mpr ⟨ht.proper, hnone, hbal⟩, ?_, ?_⟩
    · exact (established_refused _ e).trans ht.ctx
    · simp [Exchange.deal, hbal]
  | ok c =>
    rw [hans] at h
    cases h
    refine ⟨lawful_snoc.mpr ⟨ht.proper, hnone, hbal⟩, established_establish _ c, ?_⟩
    simp [Exchange.deal, hbal]

theorem Tidy.contextShutdown (ht : Tidy 0 w)
    (h : Iso7816.globalShutdown P w = some ((), w')) : Tidy 0 w' := by
  rw [Iso7816.globalShutdown, bind_of_eq (get_apply w)] at h
  split at h
  · cases h
    exact ht
  split at h
  · cases hctx : w.global.ctx with
    | none =>
      rw [hctx] at h
      cases h
      exact ⟨ht.proper, ht.ctx.trans hctx, ht.held⟩
    | some c =>
      rw [hctx] at h
      cases h
      refine ⟨lawful_snoc.mpr ⟨ht.proper, ht.ctx.trans hctx, ht.held⟩,
        established_release _ c, ?_⟩
      simp [Exchange.deal, ht.held]
  · cases h
    exact ⟨ht.proper, ht.ctx, ht.held⟩

theorem Tidy.globalInit {res : Except Error Unit} (ht : Tidy 0 w) (hg : w.global = ⟨none, 0⟩)
    (h : globalInit P cfg w = some (res, w')) : Tidy 0 w' := by
  unfold P11Rand.globalInit at h
  split at h
  · obtain ⟨r, v, hinit, h⟩ := bind_eq_some.mp h
    cases h
    exact ht.contextInit hg hinit
  · cases h
    exact ht

theorem Tidy.globalShutdown (ht : Tidy 0 w) (h : globalShutdown P cfg w = some ((), w')) :
    Tidy 0 w' := by
  unfold P11Rand.globalShutdown at h
  split at h
  · exact ht.contextShutdown h
  · cases h
    exact ht

theorem tableCards_cleared (l : List (Option Session)) :
    tableCards (cleared (fun _ => true) l) = 0 := by
  refine List.sum_eq_zero fun H hH => ?_
  obtain ⟨e, he, rfl⟩ := List.mem_map.mp hH
  rw [cleared_all he]
  rfl

theorem Module.Inv.cards_idle (hi : m.Inv cfg) (hinit : m.initialized = false) : m.cards = 0 := by
  have hnone := (hi.idle hinit).2
  refine List.sum_eq_zero fun H hH => ?_
  obtain ⟨e, he, rfl⟩ := List.mem_map.mp hH
  rw [hnone e he]
  rfl

theorem Module.cInitialize_tidy {args : Option InitArgs} (hm : m.Inv cfg)
    (hb : Balanced cfg m w.global) (ht : Tidy m.cards w)
    (hc : m.cInitialize P cfg args w = some ((rv, m'), w')) : Tidy m'.cards w' := by
  unfold cInitialize at hc
  split at hc
  · cases hc
    exact ht
  rename_i hinit
  have hinit : m.initialized = false := by simpa using hinit
  split at hc
  · cases hc
    exact ht
  have hzero := hm.cards_idle hinit
  rw [hzero] at ht
  obtain ⟨r, v, hg, hc⟩ := bind_eq_some.mp hc
  have hv := ht.globalInit (hb.unused hinit) hg
  cases r with
  | error e =>
    cases hc
    rwa [hzero]
  | ok _ =>
    obtain ⟨r, u, hf, hc⟩ := bind_eq_some.mp hc
    have hu := hv.owns (owns_fillable cfg) hf
    cases r with
    | error e =>
      obtain ⟨_, u', hs, hc⟩ := bind_eq_some.mp hc
      cases hc
      rw [hzero]
      exact hu.globalShutdown hs
    | ok present =>
      obtain ⟨sessions, u', hsweep, hc⟩ := bind_eq_some.mp hc
      cases hc
      rw [← hzero] at hu
      have hu' := hu.owns (owns_sweep _ m.sessions) hsweep
      exact hu'

theorem Module.cFinalize_tidy {reserved : Bool} (ht : Tidy m.cards w)
    (hc : m.cFinalize P cfg reserved w = some ((rv, m'), w')) : Tidy m'.cards w' := by
  unfold cFinalize at hc
  split at hc
  · cases hc
    exact ht
  split at hc
  · cases hc
    exact ht
  obtain ⟨sessions, v, hsweep, hc⟩ := bind_eq_some.mp hc
  obtain ⟨_, u, hs, hc⟩ := bind_eq_some.mp hc
  cases hc
  have hv : Tidy (tableCards sessions) v := ht.owns (owns_sweep _ m.sessions) hsweep
  have hzero : tableCards sessions = 0 := by rw [sweep_eq hsweep, tableCards_cleared]
  change Tidy (tableCards sessions) w'
  rw [hzero] at hv ⊢
  exact hv.globalShutdown hs

theorem Call.tidy {c : Call} (hm : m.Inv cfg) (hb : Balanced cfg m w.global) (ht : Tidy m.cards w)
    (hc : c.run P cfg m w = some ((rv, m'), w')) : Tidy m'.cards w' := by
  cases c with
  | cInitialize args => exact Module.cInitialize_tidy hm hb ht hc
  | cFinalize reserved => exact Module.cFinalize_tidy ht hc
  | cGetSlotList tokenPresent pList pCount =>
    obtain ⟨r, v, hc, he⟩ := bind_eq_some.mp hc
    cases he
    have hv := ht.owns (m.owns_cGetSlotList tokenPresent pList pCount) hc
    exact hv
  | cGetSlotInfo slot pInfo =>
    obtain ⟨r, v, hc, he⟩ := bind_eq_some.mp hc
    cases he
    have hv := ht.owns (m.owns_cGetSlotInfo slot pInfo) hc
    exact hv
  | cGetTokenInfo slot pInfo =>
    obtain ⟨r, v, hc, he⟩ := bind_eq_some.mp hc
    cases he
    have hv := ht.owns (m.owns_cGetTokenInfo slot pInfo) hc
    exact hv
  | cOpenSession slot flags phSession =>
    obtain ⟨r, v, hc, he⟩ := bind_eq_some.mp hc
    cases he
    have hv := ht.owns (m.owns_cOpenSession slot flags phSession) hc
    exact hv
  | cCloseSession h =>
    have hv := ht.owns (m.owns_cCloseSession h) hc
    exact hv
  | cCloseAllSessions slot =>
    have hv := ht.owns (m.owns_cCloseAllSessions slot) hc
    exact hv
  | cGenerateRandom h buf len =>
    obtain ⟨r, v, hc, he⟩ := bind_eq_some.mp hc
    cases he
    have hv := ht.owns (m.owns_cGenerateRandom h buf len) hc
    exact hv

theorem ModuleRun.tidy (hrun : ModuleRun P cfg m w) : Tidy m.cards w := by
  induction hrun with
  | @started w hg htrace _ =>
    refine ⟨by rw [htrace]; exact lawful_nil, by rw [htrace, hg]; rfl, ?_⟩
    have hrun : ModuleRun P cfg Module.new w := .started hg htrace ‹_›
    rw [htrace]
    exact (hrun.inv.cards_idle rfl).symm
  | elapsed _ hg htrace _ ih =>
    exact ⟨by rw [htrace]; exact ih.proper, by rw [htrace, hg]; exact ih.ctx,
      by rw [htrace]; exact ih.held⟩
  | called hrun hc ih => exact Call.tidy hrun.inv hrun.balanced ih hc

/-- Nothing of PC/SC is left to a module that is not initialized. -/
theorem ModuleRun.idle (hrun : ModuleRun P cfg m w) (hinit : m.initialized = false) :
    established w.trace = none ∧ balance Exchange.deal w.trace = 0 := by
  have ht := hrun.tidy
  rw [ht.ctx, ht.held, hrun.balanced.unused hinit]
  exact ⟨rfl, hrun.inv.cards_idle hinit⟩

/-- A pool holds no more connections than it has slots for cards. -/
theorem slotCards_le {l : List Slot} (hinner : ∀ s ∈ l, s.inner = .empty ∨
    s.inner.kind? = some s.kind) : (slotCards l).card ≤ (l.map Slot.kind).count .iso7816 := by
  induction l with
  | nil => exact Nat.zero_le _
  | cons s l ih =>
    have hl := ih fun x hx => hinner x (List.mem_cons_of_mem _ hx)
    have hs : s.inner.cards.card ≤ if s.kind = .iso7816 then 1 else 0 := by
      obtain ⟨kind, name, inner⟩ := s
      rcases hinner _ List.mem_cons_self with h | h
      · obtain rfl : inner = .empty := h
        exact Nat.zero_le _
      · cases inner with
        | iso7816 src =>
          obtain rfl : SlotKind.iso7816 = kind := Option.some.inj h
          exact le_refl 1
        | infnoise src => exact Nat.zero_le _
        | empty => exact Nat.zero_le _
    rw [slotCards_cons, Multiset.card_add, List.map_cons, List.count_cons]
    simp only [beq_iff_eq]
    omega

theorem Session.Inv.cards_le {s : Session} (hs : s.Inv cfg) :
    s.pool.cards.card ≤ cfg.iso7816Cards := by
  refine (slotCards_le hs.slots.inner).trans (le_of_eq ?_)
  rw [hs.slots.kinds, kindAt_order]
  simp [List.count_append, List.count_replicate, Config.count]

theorem tableCards_le {l : List (Option Session)} (hl : ∀ s, some s ∈ l → s.Inv cfg) :
    (tableCards l).card ≤ l.length * cfg.iso7816Cards := by
  induction l with
  | nil => exact Nat.zero_le _
  | cons e l ih =>
    have hrest := ih fun s hs => hl s (List.mem_cons_of_mem _ hs)
    rw [List.length_cons, Nat.succ_mul]
    cases e with
    | none =>
      rw [tableCards_none]
      omega
    | some s =>
      have hs := (hl s List.mem_cons_self).cards_le
      rw [tableCards_some, Multiset.card_add]
      omega

/-- Every request of a run is proper when it is made. In every state the connections made and not
dropped are those of the open sessions; nothing is left of PC/SC outside of the module's life. -/
theorem holdings_accounted (hrun : ModuleRun P cfg m w) :
    Lawful (fun es e => e.Proper es) w.trace ∧ established w.trace = w.global.ctx ∧
    balance Exchange.deal w.trace = m.cards ∧ m.cards.card ≤ 64 * cfg.iso7816Cards ∧
    (m.initialized = false → established w.trace = none ∧ balance Exchange.deal w.trace = 0) := by
  have ht := hrun.tidy
  refine ⟨ht.proper, ht.ctx, ht.held, ?_, hrun.idle⟩
  exact (tableCards_le hrun.sessions).trans (le_of_eq (by rw [hrun.inv.table]; rfl))

theorem holdings_accounted_smartcard : ∃ w : World Unit,
    ModuleRun Bench.smartcard.machine Bench.oneCard Bench.cardModule w ∧
    Lawful (fun es e => e.Proper es) w.trace ∧ established w.trace = some ⟨0⟩ ∧
    balance Exchange.deal w.trace = {⟨"reader 0", 0⟩} := by
  obtain ⟨trace, hrun⟩ := Bench.run_smartcard
  obtain ⟨hproper, hctx, hheld, _⟩ := holdings_accounted hrun
  refine ⟨_, hrun, hproper, hctx, hheld.trans ?_⟩
  have hnone : tableCards (List.replicate 63 none) = 0 := by simp [tableCards, entryCards]
  exact (tableCards_some Bench.cardSession _).trans (by rw [hnone]; rfl)

end P11Rand
