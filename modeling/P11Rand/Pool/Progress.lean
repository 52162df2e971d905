import P11Rand.Pool.History

/-! No call on a pool panics, and every call returns unless some read(2) is interrupted for
ever. -/
namespace P11Rand

open Effect Run

variable {W : Type} {P : Platform W} {w w' : World W} {p p' : Pool} {cfg : Config} {t i : Nat}

theorem Platform.Patient.later (h : P.Patient w.env) (hl : Later P w w') : P.Patient w'.env :=
  h.mono hl.env

namespace Pool

theorem rebindScan_total (idx : Nat) (kind : SlotKind) (p : Pool) (names : List String) :
    Total (Later P) (rebindScan P idx kind p names) := by
  induction names with
  | nil => exact total_bind (later_emit _) fun _ => total_pure _
  | cons r rs ih =>
    unfold rebindScan
    split
    · exact ih
    · have hopen : Total (Does P fun _ => True) (kind.openSource P r) :=
        SlotKind.openSource_total (fun _ => trivial) kind r
      apply total_bind (hopen.mono fun _ _ h => h.later)
      intro src
      split
      · exact total_bind (later_emit _) fun _ => total_pure _
      · exact ih

theorem rebind_total (hi : i < p.slots.length) : Total (Later P) (p.rebind P i) := by
  unfold rebind
  rw [List.getElem?_eq_getElem hi]
  apply total_bind ((close_total _).mono fun _ _ h => h.later)
  intro s
  have hlist : Total (Does P fun _ => True) (p.slots[i].kind.list P) :=
    SlotKind.list_total (fun _ _ => trivial) p.slots[i].kind
  apply total_bind (hlist.mono fun _ _ h => h.later)
  intro names
  split
  · exact total_bind (later_emit _) fun _ => total_pure _
  · exact rebindScan_total _ _ _ _

theorem readSlot_returns (hp : P.Patient w.env) (hi : i < p.slots.length) (buf : List UInt8) :
    Yields (p.readSlot P i buf) w fun r w' => r.2.slots.length = p.slots.length ∧ Later P w w' := by
  unfold readSlot
  rw [List.getElem?_eq_getElem hi]
  obtain ⟨o, w', ho⟩ := SlotInner.read_returns hp p.slots[i].inner buf
  have hd := SlotInner.read_within (A := fun _ => True) (fun _ => trivial) _ _ _ _ _ ho
  exact ⟨_, w', bind_of_eq ho, by simp, hd.later⟩

theorem fanOut_returns (hp : P.Patient w.env) (p : Pool) (t : Nat) :
    ∃ r w', p.fanOut P t w = some (r, w') := by
  have hpick : ∀ n (w : World W), Yields (choose n : Run (World W) Nat) w fun _ w' =>
      Quiet P w w' ∧ ∀ v, Stalled P v w' → Stalled P v w := by
    intro n w
    obtain ⟨k, w', hk, hq⟩ := quiet_choose (P := P) n w
    cases hk
    exact ⟨_, _, rfl, hq, fun _ h => h⟩
  obtain ⟨⟨os, v⟩, hos⟩ := interleave_returns SlotInner.readStep_progress hpick
    (p.slots.mapIdx (worker p.config t)) w hp.acc
  unfold fanOut
  rw [bind_of_eq (x := interleave _ _ _) hos, bind_of_eq (join_apply v)]
  exact ⟨_, _, rfl⟩

theorem retrySlot_returns (hp : P.Patient w.env) (hi : i < p.slots.length) (t : Nat) :
    ∃ r w', p.retrySlot P t i w = some (r, w') := by
  obtain ⟨⟨r, q⟩, v, hr, hlat⟩ := rebind_total (P := P) hi w
  obtain ⟨s, ev, hs, hreb, _, _⟩ := rebind_cases hr
  have hlen := (hreb.evolves hs).length_eq
  unfold retrySlot
  rw [bind_of_eq hr]
  cases r with
  | error e => exact ⟨_, _, rfl⟩
  | ok u =>
    obtain ⟨⟨o, q'⟩, u, ho, _⟩ := readSlot_returns (hp.later hlat) (hlen ▸ hi) (zeros tickBytes)
    dsimp only
    rw [bind_of_eq ho]
    rw [bind_of_eq (emit_apply _ _)]
    cases o.ok <;> exact ⟨_, _, rfl⟩

theorem absorbFrom_returns {scratch : List (Option (List UInt8))} {is : List Nat}
    (hp : P.Patient w.env) (his : ∀ i ∈ is, i < p.slots.length)
    (hlen : scratch.length = p.slots.length) (t : Nat) (hs : Hashes) :
    ∃ r w', absorbFrom P t scratch is p hs w = some (r, w') := by
  induction is generalizing p hs w with
  | nil => exact ⟨_, _, rfl⟩
  | cons i is ih =>
    have hi := his i List.mem_cons_self
    have his := fun j hj => his j (List.mem_cons_of_mem i hj)
    unfold absorbFrom
    split
    · exact ih hp his hlen hs
    · rw [List.getElem?_eq_getElem (hlen ▸ hi)]
      have hblock : ∃ r v, blockFor P p t i scratch[i] w = some (r, v) := by
        cases scratch[i] with
        | some b => exact ⟨_, _, rfl⟩
        | none => exact retrySlot_returns hp hi t
      obtain ⟨⟨r, q⟩, v, hb⟩ := hblock
      obtain ⟨_, _, hlat, hbl⟩ := blockFor_spec hb
      dsimp only
      rw [bind_of_eq hb]
      cases r with
      | error e => exact ⟨_, _, rfl⟩
      | ok b =>
        have hq := hbl.evolves.length_eq
        dsimp only
        rw [bind_of_eq (emit_apply _ _)]
        exact ih (w := { v with log := v.log ++ [.absorb t i b] }) (hp.mono hlat.env) (hq ▸ his)
          (hq ▸ hlen) _

theorem ticksFrom_returns {n : Nat} (hp : P.Patient w.env) (hn : p.slots.length = n)
    (ts : List Nat) (hs : Hashes) : ∃ r w', ticksFrom P n ts p hs w = some (r, w') := by
  induction ts generalizing p hs w with
  | nil => exact ⟨_, _, rfl⟩
  | cons t ts ih =>
    obtain ⟨⟨scratch, q⟩, v, hf⟩ := fanOut_returns hp p t
    obtain ⟨_, _, hlat, hfan⟩ := fanOut_spec hf
    have hq := hfan.evolves.length_eq.trans hn
    have his : ∀ i ∈ List.range n, i < q.slots.length := by simp [hq]
    obtain ⟨⟨r, q'⟩, u, ha⟩ :=
      absorbFrom_returns (hp.later hlat) his (hfan.length.trans (hn.trans hq.symm)) t hs
    obtain ⟨_, _, hlat', habs, _⟩ := absorbFrom_spec List.nodup_range ha
    unfold ticksFrom
    rw [bind_of_eq hf]
    dsimp only
    rw [bind_of_eq ha]
    cases r with
    | error e => exact ⟨_, _, rfl⟩
    | ok hs' => exact ih ((hp.later hlat).later hlat') (habs.evolves.length_eq.trans hq) hs'

theorem doRoundChain_returns (hp : P.Patient w.env) (p : Pool) (out : Digest) :
    ∃ r w', p.doRoundChain P out w = some (r, w') := by
  obtain ⟨⟨r, q⟩, v, ht⟩ := ticksFrom_returns (w := { w with log := w.log ++ [.start p.state] }) hp
    (p := p) rfl (List.range p.config.maxTicks) (freshHashes p.state)
  unfold doRoundChain
  rw [bind_of_eq (emit_apply _ _), bind_of_eq ht]
  cases r <;> exact ⟨_, _, rfl⟩

theorem readChain_returns (hp : P.Patient w.env) (hn : p.slots.length = p.config.poolSize)
    (out : Digest) (done rest : List UInt8) :
    ∃ r w', p.readChain P out done rest w = some (r, w') := by
  induction hk : rest.length using Nat.strongRecOn generalizing p w out done rest with
  | _ k ih =>
    unfold readChain
    split
    · exact ⟨_, _, rfl⟩
    · rename_i hrest
      have hpos : 0 < rest.length := List.length_pos_iff.mpr (by simpa using hrest)
      obtain ⟨⟨r, q, out'⟩, v, hr⟩ := doRoundChain_returns hp p out
      obtain ⟨_, _, hlat, hround⟩ := doRoundChain_cases hn hr
      rw [bind_of_eq hr]
      cases r with
      | error e => exact ⟨_, _, rfl⟩
      | ok u =>
        have hev := hround.evolves
        dsimp only
        rw [bind_of_eq (emit_apply _ _)]
        refine ih _ ?_ (w := { v with log := v.log ++ [.copy _] }) (hp.mono hlat.env) ?_ _ _ _ rfl
        · simp only [List.length_drop, roundBytes]
          omega
        · rw [hev.length_eq, hn, hev.config]

theorem readPassthrough_returns (hp : P.Patient w.env) (hn : 0 < p.slots.length)
    (buf : List UInt8) : ∃ r w', p.readPassthrough P buf w = some (r, w') := by
  obtain ⟨⟨o, q⟩, v, ho, hq, hlat⟩ := readSlot_returns hp hn buf
  unfold readPassthrough
  rw [bind_of_eq ho]
  dsimp only
  rw [bind_of_eq (emit_apply _ _)]
  cases o.ok with
  | true => exact ⟨_, _, rfl⟩
  | false =>
    obtain ⟨⟨r, q'⟩, u, hr, hlat'⟩ := rebind_total (P := P) (p := q) (hq ▸ hn)
      { v with log := v.log ++ [.pass o.src.device false o.done] }
    obtain ⟨s, _, hs, hreb, _, _⟩ := rebind_cases hr
    have hlen := (hreb.evolves hs).length_eq.trans hq
    rw [if_neg (by simp), bind_of_eq hr]
    cases r with
    | error e => exact ⟨_, _, rfl⟩
    | ok _ =>
      have hp' : P.Patient u.env := (hp.later hlat).mono hlat'.env
      obtain ⟨⟨o', q''⟩, u', ho', _, _⟩ := readSlot_returns hp' (hlen ▸ hn) o.buf
      dsimp only
      rw [bind_of_eq ho']
      dsimp only
      rw [bind_of_eq (emit_apply _ _)]
      cases o'.ok <;> exact ⟨_, _, rfl⟩

/-- A read returns: it neither panics nor runs for ever. -/
theorem read_returns (hp : P.Patient w.env) (hv : cfg.validate = .ok ()) (hc : p.config = cfg)
    (hok : SlotsOk cfg p.slots) (buf : List UInt8) : ∃ r w', p.read P buf w = some (r, w') := by
  unfold read
  split
  · obtain ⟨r, v, hr⟩ := readChain_returns hp (hc ▸ hok.length_eq) zeroDigest [] buf
    exact ⟨_, _, bind_of_eq hr⟩
  · exact readPassthrough_returns hp (hok.length_eq ▸ cfg.poolSize_pos hv) buf

end Pool
end P11Rand
