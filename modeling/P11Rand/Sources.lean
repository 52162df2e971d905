import P11Rand.Pool

/-! What each call on a source can do: every outcome of one pass through a read loop, what a
whole read keeps, and which requests enumerating and opening make. -/
namespace P11Rand

open Effect Run

variable {W : Type} {P : Platform W} {A : Exchange → Prop} {w w' : World W}

namespace Iso7816

variable {card : Card}

/-- The card returned the `n` bytes it was asked for. -/
def Accepted (n : Nat) (resp : List UInt8) : Prop := swOf resp = 0x9000 ∧ (bodyOf resp).length = n

instance (n : Nat) (resp : List UInt8) : Decidable (Accepted n resp) :=
  inferInstanceAs (Decidable (_ ∧ _))

theorem tryGetChallenge_cases {card : Card} {n : Nat} {out : List UInt8}
    {res : Except Error Bool × List UInt8} (h : tryGetChallenge P card n out w = some (res, w')) :
    ∃ ans, request P (.transmit card (challengeApdu n)) w = some (ans, w') ∧
      ((∃ e, ans = .error e ∧ res = (.error .transport, out)) ∨
       (∃ resp, ans = .ok resp ∧ Accepted n resp ∧ res = (.ok true, bodyOf resp ++ out.drop n)) ∨
       (∃ resp, ans = .ok resp ∧ ¬ Accepted n resp ∧ res = (.ok false, out))) := by
  obtain ⟨ans, v, hq, h⟩ := bind_eq_some.mp h
  cases ans with
  | error e =>
    cases h
    exact ⟨_, hq, .inl ⟨e, rfl, rfl⟩⟩
  | ok resp =>
    dsimp only at h
    split at h
    · rename_i hrej
      cases h
      refine ⟨_, hq, .inr (.inr ⟨resp, rfl, ?_, rfl⟩)⟩
      rintro ⟨hsw, hlen⟩
      exact hrej.elim (· hsw) (· hlen)
    · rename_i hacc
      cases h
      refine ⟨_, hq, .inr (.inl ⟨resp, rfl, ?_, rfl⟩)⟩
      exact ⟨not_not.mp fun h => hacc (.inl h), not_not.mp fun h => hacc (.inr h)⟩

/-- Everything one pass through the read loop can do. -/
theorem readStep_cases {r : Reading Source} {y : Reading Source ⊕ Outcome Source Error}
    (h : Source.readStep P r w = some (y, w')) :
    (r.rest = [] ∧ y = .inr (r.ret (.ok ())) ∧ w' = w) ∨
    (r.rest ≠ [] ∧ r.src.maxChunk = 0 ∧ y = .inr (r.ret (.error .transport)) ∧ w' = w) ∨
    (r.rest ≠ [] ∧ 0 < r.src.maxChunk ∧ ∃ ans,
      request P (.transmit r.src.card (challengeApdu r.src.maxChunk)) w = some (ans, w') ∧
      ((∃ e, ans = .error e ∧ y = .inr (r.ret (.error .transport))) ∨
       (∃ resp, ans = .ok resp ∧ Accepted r.src.maxChunk resp ∧
          y = .inl (r.fill ((bodyOf resp).take r.rest.length))) ∨
       (∃ resp, ans = .ok resp ∧ ¬ Accepted r.src.maxChunk resp ∧
          (1 < r.src.maxChunk ∧
              y = .inl { r with src := { r.src with maxChunk := r.src.maxChunk / 2 } } ∨
            r.src.maxChunk ≤ 1 ∧ y = .inr (r.ret (.error .transport)))))) := by
  unfold Source.readStep at h
  split at h
  · rename_i hr
    cases h
    exact .inl ⟨by simpa using hr, rfl, rfl⟩
  rename_i hr
  have hr : r.rest ≠ [] := by simpa using hr
  split at h
  · rename_i hm
    cases h
    exact .inr (.inl ⟨hr, hm, rfl, rfl⟩)
  rename_i hm
  refine .inr (.inr ⟨hr, by omega, ?_⟩)
  obtain ⟨res, v, hc, h⟩ := bind_eq_some.mp h
  obtain ⟨ans, hq, ⟨e, rfl, rfl⟩ | ⟨resp, rfl, hacc, rfl⟩ | ⟨resp, rfl, hrej, rfl⟩⟩ :=
    tryGetChallenge_cases hc
  · cases h
    exact ⟨_, hq, .inl ⟨e, rfl, rfl⟩⟩
  · cases h
    refine ⟨_, hq, .inr (.inl ⟨resp, rfl, hacc, ?_⟩)⟩
    have hlen := hacc.2
    by_cases ht : r.rest.length < r.src.maxChunk
    · simp [ht]
    · simp [ht, List.take_of_length_le, hlen, not_lt.mp ht]
  · dsimp only at h
    split at h
    · rename_i h1
      cases h
      exact ⟨_, hq, .inr (.inr ⟨resp, rfl, hrej, .inl ⟨h1, rfl⟩⟩)⟩
    · rename_i h1
      cases h
      exact ⟨_, hq, .inr (.inr ⟨resp, rfl, hrej, .inr ⟨by omega, rfl⟩⟩)⟩

theorem readStep_total (hA : ∀ e, A e) (r : Reading Source) :
    Total (Does P A) (Source.readStep P r) := by
  unfold Source.readStep tryGetChallenge
  split
  · exact total_pure _
  split
  · exact total_pure _
  refine total_bind (total_bind (does_request trivial fun _ => hA _) fun ans => ?_) fun res => ?_
  · split
    · exact total_pure _
    · split <;> exact total_pure _
  · split
    · exact total_pure _
    · exact total_pure _
    · split <;> exact total_pure _

theorem withContext_total {α : Type} {f : Context → Run (World W) (Except Error α)}
    (hf : ∀ ctx, Total (Does P A) (f ctx)) : Total (Does P A) (withContext f) := by
  apply total_bind total_get
  intro w
  split
  · exact total_pure _
  · exact hf _

theorem listReaders_total (hA : ∀ e : Exchange, e.request.reader? = none → A e) :
    Total (Does P A) (listReaders P) := by
  apply withContext_total
  intro ctx
  refine total_bind (does_request trivial fun _ => hA _ rfl) fun len => ?_
  split
  · exact total_pure _
  · split
    · exact total_pure _
    · refine total_bind (does_request trivial fun _ => hA _ rfl) fun rs => ?_
      split <;> exact total_pure _

theorem tryGetChallenge_total (hA : ∀ e : Exchange, e.request.reader? = some card.reader → A e)
    (n : Nat) (out : List UInt8) : Total (Does P A) (tryGetChallenge P card n out) := by
  refine total_bind (does_request trivial fun _ => hA _ rfl) fun ans => ?_
  split
  · exact total_pure _
  · split <;> exact total_pure _

theorem selectAid_total (hA : ∀ e : Exchange, e.request.reader? = some card.reader → A e)
    (aid : List UInt8) : Total (Does P A) (selectAid P card aid) := by
  refine total_bind (does_request trivial fun _ => hA _ rfl) fun ans => ?_
  split <;> exact total_pure _

theorem probeApplets_total (hA : ∀ e : Exchange, e.request.reader? = some card.reader → A e)
    (throwaway : List UInt8) (apps : List (AppId × List UInt8)) :
    Total (Does P A) (probeApplets P card throwaway apps) := by
  induction apps generalizing throwaway with
  | nil => exact total_pure _
  | cons app apps ih =>
    apply total_bind (selectAid_total hA _)
    intro sel
    split
    · exact total_pure _
    · exact ih _
    · apply total_bind (tryGetChallenge_total hA _ _)
      intro res
      split
      · exact total_pure _
      · exact total_pure _
      · exact ih _

theorem probeApp_total (hA : ∀ e : Exchange, e.request.reader? = some card.reader → A e) :
    Total (Does P A) (probeApp P card) := by
  apply total_bind (tryGetChallenge_total hA _ _)
  intro res
  split
  · exact total_pure _
  · exact total_pure _
  · exact probeApplets_total hA _ _

theorem dropCard_total (hA : ∀ a, A ⟨.disconnect card .resetCard, a⟩) :
    Total (Does P A) (dropCard P card) :=
  total_bind (does_request trivial hA) fun _ => total_pure _

theorem leaveCard_total (hA : ∀ e : Exchange, e.request.reader? = some card.reader → A e) :
    Total (Does P A) (leaveCard P card) := by
  refine total_bind (does_request trivial fun _ => hA _ rfl) fun ans => ?_
  split
  · exact total_pure _
  · exact dropCard_total fun _ => hA _ rfl

theorem connect_total {reader : String}
    (hA : ∀ e : Exchange, e.request.reader? = some reader → A e) :
    Total (Does P A) (connect P reader) := by
  apply withContext_total
  intro ctx
  refine total_bind (does_request trivial fun _ => hA _ rfl) fun ans => ?_
  split <;> exact total_pure _

theorem withContext_cases {α : Type} {f : Context → Run (World W) (Except Error α)}
    {res : Except Error α} (h : withContext f w = some (res, w')) :
    (w.global.ctx = none ∧ res = .error .transport ∧ w' = w) ∨
      ∃ ctx, w.global.ctx = some ctx ∧ f ctx w = some (res, w') := by
  simp only [withContext, bind_apply, get_apply, Option.bind_some] at h
  cases hctx : w.global.ctx with
  | none =>
    rw [hctx] at h
    cases h
    exact .inl ⟨rfl, rfl, rfl⟩
  | some ctx =>
    rw [hctx] at h
    exact .inr ⟨ctx, rfl, h⟩

/-- A connection is to the reader it was asked for. -/
theorem connect_reader {reader : String} {card : Card}
    (h : connect P reader w = some (.ok card, w')) : card.reader = reader := by
  rcases withContext_cases h with ⟨_, hres, _⟩ | ⟨ctx, _, h⟩
  · cases hres
  · obtain ⟨ans, v, _, h⟩ := bind_eq_some.mp h
    cases ans with
    | error e => cases h
    | ok handle =>
      cases h
      rfl

theorem openSource_total {reader : String}
    (hA : ∀ e : Exchange, e.request.reader? = some reader → A e) :
    Total (Does P A) (openSource P reader) := by
  unfold openSource
  split
  · exact total_pure _
  · apply total_bind_of (connect_total hA)
    intro res v v' hc
    cases res with
    | error e => exact total_pure _
    | ok card =>
      have hA' : ∀ e : Exchange, e.request.reader? = some card.reader → A e := by
        rw [connect_reader hc]
        exact hA
      apply total_bind (probeApp_total hA')
      intro app
      split
      · exact total_pure _
      · exact total_bind (leaveCard_total hA') fun _ => total_pure _

/-- An opened source is connected to the reader it was opened for. -/
theorem openSource_reader {reader : String} {src : Source}
    (h : openSource P reader w = some (.ok src, w')) :
    src.card.reader = reader ∧ src.maxChunk = 128 := by
  unfold openSource at h
  split at h
  · cases h
  · obtain ⟨res, v, hc, h⟩ := bind_eq_some.mp h
    cases res with
    | error e => cases h
    | ok card =>
      obtain ⟨app, u, _, h⟩ := bind_eq_some.mp h
      cases app with
      | error e =>
        obtain ⟨_, _, _, h⟩ := bind_eq_some.mp h
        cases h
      | ok app =>
        cases h
        exact ⟨connect_reader hc, rfl⟩

end Iso7816
namespace Infnoise

theorem listPaths_total (hA : ∀ e : Exchange, e.request.reader? = none → A e) :
    Total (Does P A) (listPaths P) := by
  refine total_bind (does_request trivial fun _ => hA _ rfl) fun entries => ?_
  split <;> exact total_pure _

theorem openSource_total (hA : ∀ e : Exchange, e.request.reader? = none → A e) (path : String) :
    Total (Does P A) (openSource P path) := by
  refine total_bind (does_request trivial fun _ => hA _ rfl) fun file => ?_
  split <;> exact total_pure _

theorem openSource_path {path : String} {src : Source}
    (h : openSource P path w = some (.ok src, w')) : src.path = path := by
  obtain ⟨file, v, _, h⟩ := bind_eq_some.mp h
  cases file with
  | none => cases h
  | some file =>
    cases h
    rfl

theorem readStep_total (hA : ∀ e, A e) (r : Reading Source) :
    Total (Does P A) (Source.readStep P r) := by
  unfold Source.readStep
  split
  · exact total_pure _
  refine total_bind (does_request trivial fun _ => hA _) fun ans => ?_
  split
  · dsimp only
    split <;> exact total_pure _
  · exact total_pure _
  · exact total_pure _

/-- Everything one pass through the read loop can do. -/
theorem readStep_cases {r : Reading Source} {y : Reading Source ⊕ Outcome Source Error}
    (h : Source.readStep P r w = some (y, w')) :
    (r.rest = [] ∧ y = .inr (r.ret (.ok ())) ∧ w' = w) ∨
    (r.rest ≠ [] ∧ ∃ ans,
      request P (.readFile r.src.file r.rest.length) w = some (ans, w') ∧
      ((∃ bytes, ans = .data bytes ∧ bytes ≠ [] ∧ y = .inl (r.fill (bytes.take r.rest.length))) ∨
       (ans = .data [] ∧ y = .inr (r.ret (.error .io))) ∨
       (ans = .interrupted ∧ y = .inl r) ∨
       (∃ e, ans = .error e ∧ y = .inr (r.ret (.error .io))))) := by
  unfold Source.readStep at h
  split at h
  · rename_i hr
    cases h
    exact .inl ⟨by simpa using hr, rfl, rfl⟩
  rename_i hr
  have hr : r.rest ≠ [] := by simpa using hr
  refine .inr ⟨hr, ?_⟩
  obtain ⟨ans, v, hq, h⟩ := bind_eq_some.mp h
  cases ans with
  | data bytes =>
    dsimp only at h
    split at h
    · rename_i he
      cases h
      have hb : bytes = [] := by simpa [hr] using he
      subst hb
      exact ⟨_, hq, .inr (.inl ⟨rfl, rfl⟩)⟩
    · rename_i he
      cases h
      refine ⟨_, hq, .inl ⟨bytes, rfl, ?_, rfl⟩⟩
      rintro rfl
      simp at he
  | interrupted =>
    cases h
    exact ⟨_, hq, .inr (.inr (.inl ⟨rfl, rfl⟩))⟩
  | error e =>
    cases h
    exact ⟨_, hq, .inr (.inr (.inr ⟨e, rfl, rfl⟩))⟩

end Infnoise

namespace SlotInner

/-- The connection or open file itself, without the chunk size learned on it so far. -/
def handle : SlotInner → SlotInner
  | .iso7816 src => .iso7816 { src with maxChunk := 0 }
  | s => s

/-- The chunk size learned on the handle so far. -/
def chunk : SlotInner → Nat
  | .iso7816 src => src.maxChunk
  | _ => 0

/-- A source as it is right after it was opened under a name. -/
structure Opened (k : SlotKind) (name : String) (src : SlotInner) : Prop where
  kind : src.kind? = some k
  device : src.device = some name
  chunk : src.chunk ≤ 128

@[simp] theorem device_handle (s : SlotInner) : s.handle.device = s.device := by
  cases s <;> rfl

@[simp] theorem kind?_handle (s : SlotInner) : s.handle.kind? = s.kind? := by
  cases s <;> rfl

theorem device_eq {s t : SlotInner} (h : s.handle = t.handle) : s.device = t.device := by
  rw [← device_handle s, h, device_handle]

theorem kind?_eq {s t : SlotInner} (h : s.handle = t.handle) : s.kind? = t.kind? := by
  rw [← kind?_handle s, h, kind?_handle]

end SlotInner

namespace SlotKind

theorem list_total (hA : ∀ e : Exchange, e.request.reader? = none → A e) (kind : SlotKind) :
    Total (Does P A) (kind.list P) := by
  cases kind with
  | iso7816 => exact total_bind (Iso7816.listReaders_total hA) fun _ => total_pure _
  | infnoise => exact total_bind (Infnoise.listPaths_total hA) fun _ => total_pure _

theorem openSource_total (hA : ∀ e, A e) (kind : SlotKind) (name : String) :
    Total (Does P A) (kind.openSource P name) := by
  cases kind with
  | iso7816 =>
    apply total_bind (Iso7816.openSource_total fun _ _ => hA _)
    intro res
    split <;> exact total_pure _
  | infnoise =>
    apply total_bind (Infnoise.openSource_total (fun _ _ => hA _) _)
    intro res
    split <;> exact total_pure _

/-- What opens under a name is a source of that kind, opened under that name. -/
theorem openSource_opened {kind : SlotKind} {name : String} {src : SlotInner}
    (h : kind.openSource P name w = some (some src, w')) : src.Opened kind name := by
  cases kind with
  | iso7816 =>
    obtain ⟨res, v, hres, h⟩ := bind_eq_some.mp h
    cases res with
    | error e => cases h
    | ok src =>
      cases h
      obtain ⟨hr, hc⟩ := Iso7816.openSource_reader hres
      exact ⟨rfl, congrArg some hr, hc.le⟩
  | infnoise =>
    obtain ⟨res, v, hres, h⟩ := bind_eq_some.mp h
    cases res with
    | error e => cases h
    | ok src =>
      cases h
      exact ⟨rfl, congrArg some (Infnoise.openSource_path hres), Nat.zero_le _⟩

end SlotKind

namespace SlotInner

theorem drop_total (hA : ∀ e, A e) (s : SlotInner) : Total (Does P A) (s.drop P) := by
  cases s with
  | iso7816 src => exact Iso7816.dropCard_total fun _ => hA _
  | infnoise src => exact total_pure _
  | empty => exact total_pure _

theorem readStep_total (hA : ∀ e, A e) (r : Reading SlotInner) :
    Total (Does P A) (readStep P r) := by
  unfold readStep
  split
  · exact total_bind (Iso7816.readStep_total hA _) fun _ => total_pure _
  · exact total_bind (Infnoise.readStep_total hA _) fun _ => total_pure _
  · exact total_pure _

/-- A read on `s` into a buffer of `n` bytes stays on the handle and within the buffer, and
fills the buffer if it succeeds. -/
def Keeps (s : SlotInner) (n : Nat) : Reading SlotInner ⊕ Outcome SlotInner Unit → Prop
  | .inl r => r.src.handle = s.handle ∧ r.src.chunk ≤ s.chunk ∧ r.length = n
  | .inr o => o.src.handle = s.handle ∧ o.src.chunk ≤ s.chunk ∧
      o.done.length + o.rest.length = n ∧ o.Full

theorem keeps_start (s : SlotInner) (buf : List UInt8) :
    s.Keeps buf.length (.inl (.start s buf)) := ⟨rfl, le_rfl, Reading.length_start s buf⟩

theorem keeps_error {s : SlotInner} {n : Nat} {r : Reading SlotInner} (h : s.Keeps n (.inl r)) :
    s.Keeps n (.inr (r.ret (.error ()))) :=
  ⟨h.1, h.2.1, h.2.2, fun hok => by cases hok⟩

theorem keeps_ok {s : SlotInner} {n : Nat} {r : Reading SlotInner} (h : s.Keeps n (.inl r))
    (hr : r.rest = []) : s.Keeps n (.inr (r.ret (.ok ()))) := ⟨h.1, h.2.1, h.2.2, fun _ => hr⟩

theorem keeps_fill {s : SlotInner} {n : Nat} {r : Reading SlotInner} (h : s.Keeps n (.inl r))
    (bytes : List UInt8) : s.Keeps n (.inl (r.fill (bytes.take r.rest.length))) := by
  refine ⟨h.1, h.2.1, ?_⟩
  rw [Reading.length_fill r (by simp)]
  exact h.2.2

theorem readStep_keeps {s : SlotInner} {n : Nat} {r : Reading SlotInner}
    {y : Reading SlotInner ⊕ Outcome SlotInner Unit} (hr : s.Keeps n (.inl r))
    (h : readStep P r w = some (y, w')) : s.Keeps n y := by
  obtain ⟨src, done, rest⟩ := r
  cases src with
  | iso7816 src =>
    obtain ⟨z, v, hz, h⟩ := bind_eq_some.mp h
    cases h
    obtain ⟨hrest, rfl, _⟩ | ⟨_, _, rfl, _⟩ | ⟨_, _, _, _, ⟨_, _, rfl⟩ | ⟨resp, _, _, rfl⟩ |
      ⟨_, _, _, ⟨_, rfl⟩ | ⟨_, rfl⟩⟩⟩ := Iso7816.readStep_cases hz
    · exact keeps_ok hr hrest
    · exact keeps_error hr
    · exact keeps_error hr
    · exact keeps_fill hr _
    · exact ⟨hr.1, (Nat.div_le_self _ 2).trans hr.2.1, hr.2.2⟩
    · exact keeps_error hr
  | infnoise src =>
    obtain ⟨z, v, hz, h⟩ := bind_eq_some.mp h
    cases h
    rcases Infnoise.readStep_cases hz with
        ⟨hrest, rfl, _⟩ | ⟨_, _, _, ⟨bytes, _, _, rfl⟩ | ⟨_, rfl⟩ | ⟨_, rfl⟩ | ⟨_, _, rfl⟩⟩
    · exact keeps_ok hr hrest
    · exact keeps_fill hr _
    · exact keeps_error hr
    · exact hr
    · exact keeps_error hr
  | empty =>
    cases h
    exact keeps_error hr

/-- The same along a whole read, whatever happens on the machine between its requests. -/
theorem thread_keeps {R : World W → World W → Prop} {s : SlotInner} {buf : List UInt8}
    {o : Outcome SlotInner Unit}
    (h : Thread R (readStep P) (.inl (.start s buf)) w (.inr o) w') :
    s.Keeps buf.length (.inr o) :=
  h.invariant (I := fun y _ => s.Keeps buf.length y) (fun _ _ _ ha _ => ha)
    (fun _ _ _ _ ha hs => readStep_keeps ha hs) (keeps_start s buf)

/-- The read is still under way on the source, or it ended with success or failure as `ok` says. -/
def EndsWith (src : SlotInner) (ok : Bool) : Reading SlotInner ⊕ Outcome SlotInner Unit → Prop
  | .inl r => r.src = src
  | .inr o => o.ok = ok

/-- Only a handle can have served a read. -/
theorem thread_device {R : World W → World W → Prop} {s : SlotInner} {buf : List UInt8}
    {o : Outcome SlotInner Unit} (h : Thread R (readStep P) (.inl (.start s buf)) w (.inr o) w')
    (hok : o.ok = true) : ∃ name, s.device = some name := by
  cases s with
  | iso7816 src => exact ⟨_, rfl⟩
  | infnoise src => exact ⟨_, rfl⟩
  | empty =>
    have hfail : o.ok = false := by
      refine h.invariant (I := fun y _ => EndsWith .empty false y) (fun _ _ _ ha _ => ha) ?_ rfl
      rintro ⟨src, done, rest⟩ v y v' rfl hs
      cases hs
      rfl
    rw [hok] at hfail
    cases hfail

/-- `Slot::read` is the loop that a worker thread runs. -/
theorem read_eq_loop (s : SlotInner) (buf : List UInt8) (w : World W) :
    s.read P buf w = loop (readStep P) (.start s buf) w := by
  cases s with
  | iso7816 src =>
    refine Eq.trans (Option.map_eq_bind ..).symm (loop_map_eq (x := .start src buf)
      (Reading.map SlotInner.iso7816) (Outcome.map SlotInner.iso7816) fun r u => ?_).symm
    exact (Option.map_eq_bind ..).symm
  | infnoise src =>
    refine Eq.trans (Option.map_eq_bind ..).symm (loop_map_eq (x := .start src buf)
      (Reading.map SlotInner.infnoise) (Outcome.map SlotInner.infnoise) fun r u => ?_).symm
    exact (Option.map_eq_bind ..).symm
  | empty => exact (loop_of_inr rfl).symm

theorem read_thread {s : SlotInner} {buf : List UInt8} {o : Outcome SlotInner Unit}
    (h : s.read P buf w = some (o, w')) :
    Thread (Does P A) (readStep P) (.inl (.start s buf)) w (.inr o) w' :=
  loop_thread (read_eq_loop s buf w ▸ h)

theorem read_keeps {s : SlotInner} {buf : List UInt8} {o : Outcome SlotInner Unit}
    (h : s.read P buf w = some (o, w')) : s.Keeps buf.length (.inr o) :=
  thread_keeps (R := Does P fun _ => True) (read_thread h)

theorem read_within (hA : ∀ e, A e) (s : SlotInner) (buf : List UInt8) :
    Within (Does P A) (s.read P buf) :=
  fun _ _ _ h => (read_thread h).within fun r => (readStep_total hA r).within

end SlotInner

end P11Rand
