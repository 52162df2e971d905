import P11Rand.Fillable

/-! What probing the pool does to a card: which exchanges disturb it, and which answers say that
the probe will. -/
namespace P11Rand

open Effect Run

variable {W : Type} {P : Platform W} {w w' v : World W} {r reader : String} {card : Card}

/-- Changes the card in a reader under every other connection to it: a reset, or the selection of
an applet. -/
def Exchange.Disturbs (r : String) : Exchange → Prop
  | ⟨.disconnect card disposition, _⟩ => card.reader = r ∧ disposition = .resetCard
  | ⟨.transmit card apdu, .ok resp⟩ => card.reader = r ∧
      (∃ aid, apdu = Iso7816.selectApdu aid) ∧ Iso7816.selected resp = true
  | _ => False

/-- The answers on which a probe goes on to disturb the card: it answers the challenge, it selects
an applet, or it cannot be left as it is. -/
def Exchange.Passes (r : String) : Exchange → Prop
  | ⟨.transmit card apdu, .ok resp⟩ => card.reader = r ∧
      (apdu = Iso7816.challengeApdu 8 ∧ Iso7816.Accepted 8 resp ∨
        (∃ aid, apdu = Iso7816.selectApdu aid) ∧ Iso7816.selected resp = true)
  | ⟨.disconnect card .leaveCard, .error _⟩ => card.reader = r
  | _ => False

/-- Between the two worlds the card in `r` was disturbed just if some answer of it said so. -/
def Matched (r : String) (w w' : World W) : Prop :=
  ∃ es, w'.trace = w.trace ++ es ∧ ((∃ e ∈ es, e.Disturbs r) ↔ ∃ e ∈ es, e.Passes r)

/-- Between the two worlds some exchange was in `A`. -/
def Saw (A : Exchange → Prop) (w w' : World W) : Prop :=
  ∃ es, w'.trace = w.trace ++ es ∧ ∃ e ∈ es, A e

instance : IsPreorder (World W) (Matched r) where
  refl _ := ⟨[], by simp⟩
  trans u v w h h' := by
    obtain ⟨es, he, hiff⟩ := h
    obtain ⟨es', he', hiff'⟩ := h'
    refine ⟨es ++ es', by rw [he', he, List.append_assoc], ?_⟩
    simp only [List.mem_append, or_and_right, exists_or, hiff, hiff']

/-- A stretch that should disturb the card, followed by one that does. -/
theorem Saw.matched (h : Saw (Exchange.Passes r) w v) (h' : Saw (Exchange.Disturbs r) v w') :
    Matched r w w' := by
  obtain ⟨es, he, e, hmem, hp⟩ := h
  obtain ⟨es', he', e', hmem', hd⟩ := h'
  refine ⟨es ++ es', by rw [he', he, List.append_assoc], ?_, ?_⟩
  · exact fun _ => ⟨e, List.mem_append_left _ hmem, hp⟩
  · exact fun _ => ⟨e', List.mem_append_right _ hmem', hd⟩

theorem Saw.after {A : Exchange → Prop} (h : Matched r w v) (h' : Saw A v w') : Saw A w w' := by
  obtain ⟨es, he, _⟩ := h
  obtain ⟨es', he', e, hmem, ha⟩ := h'
  exact ⟨es ++ es', by rw [he', he, List.append_assoc], e, List.mem_append_right _ hmem, ha⟩

/-- Only requests to the reader itself disturb its card. -/
theorem not_disturbs {e : Exchange} (h : e.request.reader? ≠ some r) :
    ¬ e.Disturbs r ∧ ¬ e.Passes r := by
  obtain ⟨q, ans⟩ := e
  cases q with
  | transmit card apdu =>
    have hne : card.reader ≠ r := fun heq => h (congrArg some heq)
    cases ans with
    | error _ => exact ⟨id, id⟩
    | ok resp => exact ⟨fun hd => hne hd.1, fun hp => hne hp.1⟩
  | disconnect card disposition =>
    have hne : card.reader ≠ r := fun heq => h (congrArg some heq)
    refine ⟨fun hd => hne hd.1, ?_⟩
    cases disposition with
    | resetCard => exact id
    | leaveCard =>
      cases ans with
      | error _ => exact hne
      | ok _ => exact id
  | _ => exact ⟨id, id⟩

theorem Does.matched {A : Exchange → Prop} (h : Does P A w w')
    (hA : ∀ e, A e → e.request.reader? ≠ some r) : Matched r w w' := by
  obtain ⟨es, he, hes⟩ := h.trace
  refine ⟨es, he, ?_, ?_⟩
  · rintro ⟨e, hmem, hd⟩
    exact ((not_disturbs (hA e (hes e hmem))).1 hd).elim
  · rintro ⟨e, hmem, hp⟩
    exact ((not_disturbs (hA e (hes e hmem))).2 hp).elim

theorem matched_request {q : Request} {ans : q.Answer} (h : request P q w = some (ans, w'))
    (hiff : Exchange.Disturbs r ⟨q, ans⟩ ↔ Exchange.Passes r ⟨q, ans⟩) : Matched r w w' :=
  ⟨_, (request_eq_some h).2, by simpa using hiff⟩

theorem saw_request {A : Exchange → Prop} {q : Request} {ans : q.Answer}
    (h : request P q w = some (ans, w')) (ha : A ⟨q, ans⟩) : Saw A w w' :=
  ⟨_, (request_eq_some h).2, _, List.mem_singleton_self _, ha⟩

namespace Iso7816

theorem selectApdu_ne (aid : List UInt8) (n : Nat) : challengeApdu n ≠ selectApdu aid := by
  simp [challengeApdu, selectApdu]

/-- The 8-byte challenge of a probe. -/
theorem probe_challenge {out : List UInt8} {res : Except Error Bool × List UInt8}
    (h : tryGetChallenge P card 8 out w = some (res, w')) :
    (∃ out', res = (.ok true, out') ∧ Saw (Exchange.Passes card.reader) w w') ∨
      ((∃ e, res = (.error e, out)) ∨ res = (.ok false, out)) ∧ Matched card.reader w w' := by
  obtain ⟨ans, hq, ⟨e, rfl, rfl⟩ | ⟨resp, rfl, hacc, rfl⟩ | ⟨resp, rfl, hrej, rfl⟩⟩ :=
    tryGetChallenge_cases h
  · exact .inr ⟨.inl ⟨_, rfl⟩, matched_request hq Iff.rfl⟩
  · exact .inl ⟨_, rfl, saw_request hq ⟨rfl, .inl ⟨rfl, hacc⟩⟩⟩
  · refine .inr ⟨.inr rfl, matched_request hq ⟨?_, ?_⟩⟩
    · rintro ⟨_, ⟨aid, haid⟩, _⟩
      exact (selectApdu_ne _ _ haid).elim
    · rintro ⟨_, ⟨_, hacc⟩ | ⟨⟨aid, haid⟩, _⟩⟩
      · exact (hrej hacc).elim
      · exact (selectApdu_ne _ _ haid).elim

theorem selectAid_matched {aid : List UInt8} {res : Except Error Bool}
    (h : selectAid P card aid w = some (res, w')) : Matched card.reader w w' := by
  obtain ⟨ans, v, hq, h⟩ := bind_eq_some.mp h
  have hans : Exchange.Disturbs card.reader ⟨.transmit card (selectApdu aid), ans⟩ ↔
      Exchange.Passes card.reader ⟨.transmit card (selectApdu aid), ans⟩ := by
    cases ans with
    | error _ => exact Iff.rfl
    | ok resp =>
      refine and_congr_right fun _ => ⟨.inr, ?_⟩
      rintro (⟨heq, _⟩ | hsel)
      · exact (selectApdu_ne _ _ heq.symm).elim
      · exact hsel
  have hm := matched_request hq hans
  cases ans with
  | error _ =>
    cases h
    exact hm
  | ok _ =>
    cases h
    exact hm

theorem probeApplets_cases {throwaway : List UInt8} {apps : List (AppId × List UInt8)}
    {res : Except Error AppId} (hlen : throwaway.length = 8)
    (h : probeApplets P card throwaway apps w = some (res, w')) :
    (∃ app, res = .ok app ∧ Saw (Exchange.Passes card.reader) w w') ∨
      (∃ e, res = .error e) ∧ Matched card.reader w w' := by
  induction apps generalizing throwaway w with
  | nil =>
    cases h
    exact .inr ⟨⟨_, rfl⟩, Std.Refl.refl _⟩
  | cons app apps ih =>
    obtain ⟨sel, v, hsel, h⟩ := bind_eq_some.mp h
    have hm := selectAid_matched hsel
    cases sel with
    | error e =>
      cases h
      exact .inr ⟨⟨_, rfl⟩, hm⟩
    | ok b =>
      cases b with
      | false =>
        rcases ih hlen h with ⟨app', rfl, hsaw⟩ | ⟨herr, hm'⟩
        · exact .inl ⟨app', rfl, hsaw.after hm⟩
        · exact .inr ⟨herr, IsTrans.trans _ _ _ hm hm'⟩
      | true =>
        dsimp only at h
        rw [hlen] at h
        obtain ⟨r, u, hr, h⟩ := bind_eq_some.mp h
        rcases probe_challenge hr with ⟨_, rfl, hsaw⟩ | ⟨⟨e, rfl⟩ | rfl, hm'⟩
        · cases h
          exact .inl ⟨_, rfl, hsaw.after hm⟩
        · cases h
          exact .inr ⟨⟨_, rfl⟩, IsTrans.trans _ _ _ hm hm'⟩
        · have hm'' := IsTrans.trans _ _ _ hm hm'
          rcases ih hlen h with ⟨app', rfl, hsaw⟩ | ⟨herr, hm'''⟩
          · exact .inl ⟨app', rfl, hsaw.after hm''⟩
          · exact .inr ⟨herr, IsTrans.trans _ _ _ hm'' hm'''⟩

theorem probeApp_cases {res : Except Error AppId} (h : probeApp P card w = some (res, w')) :
    (∃ app, res = .ok app ∧ Saw (Exchange.Passes card.reader) w w') ∨
      (∃ e, res = .error e) ∧ Matched card.reader w w' := by
  unfold probeApp at h
  simp only [List.length_replicate] at h
  obtain ⟨r, u, hr, h⟩ := bind_eq_some.mp h
  rcases probe_challenge hr with ⟨_, rfl, hsaw⟩ | ⟨⟨e, rfl⟩ | rfl, hm⟩
  · cases h
    exact .inl ⟨_, rfl, hsaw⟩
  · cases h
    exact .inr ⟨⟨_, rfl⟩, hm⟩
  · rcases probeApplets_cases List.length_replicate h with ⟨app, rfl, hsaw⟩ | ⟨herr, hm'⟩
    · exact .inl ⟨app, rfl, hsaw.after hm⟩
    · exact .inr ⟨herr, IsTrans.trans _ _ _ hm hm'⟩

/-- Dropping a connection resets its card. -/
theorem dropCard_disturbs (h : dropCard P card w = some ((), w')) :
    Saw (Exchange.Disturbs card.reader) w w' := by
  obtain ⟨ans, v, hq, h⟩ := bind_eq_some.mp h
  cases h
  exact saw_request hq ⟨rfl, rfl⟩

theorem leaveCard_matched (h : leaveCard P card w = some ((), w')) : Matched card.reader w w' := by
  obtain ⟨ans, v, hq, h⟩ := bind_eq_some.mp h
  cases ans with
  | ok _ =>
    cases h
    refine matched_request hq ⟨?_, fun hp => hp.elim⟩
    rintro ⟨_, hd⟩
    cases hd
  | error _ =>
    have hpass : Saw (Exchange.Passes card.reader) w v := saw_request hq rfl
    exact hpass.matched (dropCard_disturbs h)

theorem connect_matched {res : Except Error Card}
    (h : connect P reader w = some (res, w')) : Matched r w w' := by
  rcases withContext_cases h with ⟨_, rfl, rfl⟩ | ⟨ctx, _, h⟩
  · exact Std.Refl.refl _
  · obtain ⟨ans, v, hq, h⟩ := bind_eq_some.mp h
    have hm : Matched r w v := matched_request hq Iff.rfl
    cases ans with
    | error _ =>
      cases h
      exact hm
    | ok _ =>
      cases h
      exact hm

/-- Opening a reader leaves its card undisturbed, or an answer said that it would not; a source
that opened has answered the challenge. -/
theorem openSource_cases {res : Except Error Source}
    (h : openSource P reader w = some (res, w')) :
    (∃ src, res = .ok src ∧ src.card.reader = reader ∧
        Saw (Exchange.Passes reader) w w') ∨
      (∃ e, res = .error e) ∧ Matched reader w w' := by
  unfold openSource at h
  split at h
  · cases h
    exact .inr ⟨⟨_, rfl⟩, Std.Refl.refl _⟩
  · obtain ⟨conn, v, hc, h⟩ := bind_eq_some.mp h
    have hm : Matched reader w v := connect_matched hc
    cases conn with
    | error e =>
      cases h
      exact .inr ⟨⟨_, rfl⟩, hm⟩
    | ok card =>
      have hreader := connect_reader hc
      obtain ⟨app, u, hp, h⟩ := bind_eq_some.mp h
      rcases probeApp_cases hp with ⟨app, rfl, hsaw⟩ | ⟨⟨e, rfl⟩, hm'⟩
      · cases h
        rw [hreader] at hsaw
        exact .inl ⟨_, rfl, hreader, hsaw.after hm⟩
      · obtain ⟨_, u', hleave, h⟩ := bind_eq_some.mp h
        cases h
        have hm'' := IsTrans.trans _ _ _ hm' (leaveCard_matched hleave)
        rw [hreader] at hm''
        exact .inr ⟨⟨_, rfl⟩, IsTrans.trans _ _ _ hm hm''⟩

end Iso7816

/-- The card scan of `fillable`: whatever opens is dropped, and with that reset. -/
theorem countUsable_matched (r : String) (cards usable : Nat) (names : List String) :
    Within (Matched r) (countUsable P cards usable names) := by
  induction names generalizing usable with
  | nil => exact within_pure _
  | cons name names ih =>
    unfold countUsable
    split
    · exact within_pure _
    intro w n w' h
    obtain ⟨res, v, hopen, h⟩ := bind_eq_some.mp h
    have hother := fun hne : name ≠ r =>
      ((Iso7816.openSource_total (A := fun e : Exchange => e.request.reader? = some name)
        fun _ he => he).within _ _ _ hopen).matched
        (r := r) fun e he heq => hne (Option.some.inj (he.symm.trans heq))
    rcases Iso7816.openSource_cases hopen with ⟨src, rfl, hreader, hsaw⟩ | ⟨⟨e, rfl⟩, hm⟩
    · obtain ⟨_, u, hdrop, h⟩ := bind_eq_some.mp h
      refine IsTrans.trans _ u _ ?_ (ih _ _ _ _ h)
      by_cases hne : name = r
      · subst hne
        exact hsaw.matched (hreader ▸ Iso7816.dropCard_disturbs hdrop)
      · apply IsTrans.trans _ v _ (hother hne)
        refine ((Iso7816.dropCard_total (A := fun e : Exchange =>
          e.request.reader? = some src.card.reader) fun _ => rfl).within _ _ _ hdrop).matched
          fun e he heq => hne ?_
        rw [← hreader]
        exact Option.some.inj (he.symm.trans heq)
    · refine IsTrans.trans _ v _ ?_ (ih _ _ _ _ h)
      by_cases hne : name = r
      · subst hne
        exact hm
      · exact hother hne

theorem cardsUsable_matched (r : String) (cfg : Config) :
    Within (Matched r) (cardsUsable P cfg) := by
  unfold cardsUsable
  split
  · refine within_bind (fun w a w' h => ?_) fun names => ?_
    · exact ((SlotKind.list_total (fun _ he => he) _).within _ _ _ h).matched
        (A := fun e => e.request.reader? = none) fun e he heq => by simp [he] at heq
    · split
      · exact within_pure _
      · exact within_bind (countUsable_matched r _ _ _) fun _ => within_pure _
  · exact within_pure _

theorem fillable_matched (r : String) (cfg : Config) : Within (Matched r) (fillable P cfg) := by
  apply within_bind (cardsUsable_matched r cfg)
  intro res
  split
  · intro w a w' h
    exact ((nodesPresent_total (fun _ he => he) cfg).within _ _ _ h).matched
      (A := fun e => e.request.reader? = none) fun e he heq => by simp [he] at heq
  · exact within_pure _

end P11Rand
