import P11Rand.Bench
import P11Rand.HashChain

/-! What the digests of a chain say about the blocks that were absorbed, where the hash is
injective on the strings it is applied to. -/
namespace P11Rand

open Effect Run

variable {W W' : Type} {P : Platform W} {P' : Platform W'} {w : World W} {w' : World W'}
  {p p' : Pool} {cfg : Config} {rs rs' : List Round} {r r' : Round} {s s' : Digest}

/-- The blocks that a round absorbed, each with its tick and slot. -/
def Round.blocks (r : Round) : List Entry := absorbed r.events

/-- The strings that the rounds hashed. -/
def hashedBy (rs : List Round) : Set (List UInt8) :=
  {m | ∃ r ∈ rs, m = r.input 0x11 ∨ m = r.input 0x00}

/-- What is hashed under a tag for a state and the entropy of a round. -/
def frame (tag : UInt8) (state : Digest) (e : List UInt8) : List UInt8 :=
  state.toList ++ [tag] ++ e

theorem frame_injective {tag tag' : UInt8} {e e' : List UInt8}
    (h : frame tag s e = frame tag' s' e') : s = s' ∧ tag = tag' ∧ e = e' := by
  simp only [frame, List.append_assoc, List.singleton_append] at h
  obtain ⟨hs, hrest⟩ := List.append_inj h (by simp)
  obtain ⟨htag, he⟩ := List.cons.inj hrest
  exact ⟨Vector.toList_inj.mp hs, htag, he⟩

/-- Valid linked rounds are a hash chain over their entropy. -/
theorem linked_run (hl : Round.Linked s rs s') (hv : ∀ r ∈ rs, r.Valid P cfg) :
    s' = HashChain.run P.sha3_256 (frame 0x00) s (rs.map fun r => entropy r.events) ∧
      ∀ m ∈ HashChain.hashed P.sha3_256 (frame 0x00) s (rs.map fun r => entropy r.events),
        m ∈ hashedBy rs := by
  induction rs generalizing s with
  | nil => exact ⟨hl, by simp [HashChain.hashed]⟩
  | cons r rs ih =>
    obtain ⟨rfl, hl⟩ := hl
    have hnext := (hv r List.mem_cons_self).next
    obtain ⟨hrun, hmem⟩ := ih hl fun r hr => hv r (List.mem_cons_of_mem _ hr)
    rw [hnext] at hrun hmem
    refine ⟨hrun, fun m hm => ?_⟩
    rcases List.mem_cons.mp hm with rfl | hm
    · exact ⟨r, List.mem_cons_self, .inr rfl⟩
    · obtain ⟨r', hr', hm⟩ := hmem m hm
      exact ⟨r', List.mem_cons_of_mem _ hr', hm⟩

/-- Rounds with the same entropy absorbed the same blocks: every block has 32 bytes and its
place in the order is fixed. -/
theorem blocks_eq (hv : r.Valid P cfg) (hv' : r'.Valid P' cfg)
    (h : entropy r.events = entropy r'.events) : r.blocks = r'.blocks := by
  refine HashChain.flatMap_block_injective Entry.pos ?_
    (fun e he => (hv.entry e he).1) (fun e he => (hv'.entry e he).1)
    (hv.order.trans hv'.order.symm) h
  rintro ⟨t, i, b⟩ ⟨t', i', b'⟩ hpos rfl
  cases hpos
  rfl

theorem map_blocks_eq (hv : ∀ r ∈ rs, r.Valid P cfg) (hv' : ∀ r ∈ rs', r.Valid P' cfg)
    (h : rs.map (fun r => entropy r.events) = rs'.map fun r => entropy r.events) :
    rs.map Round.blocks = rs'.map Round.blocks := by
  induction rs generalizing rs' with
  | nil =>
    obtain rfl : rs' = [] := by simpa using h.symm
    rfl
  | cons r rs ih =>
    cases rs' with
    | nil => cases h
    | cons r' rs' =>
      simp only [List.map_cons, List.cons.injEq] at h ⊢
      exact ⟨blocks_eq (hv r List.mem_cons_self) (hv' r' List.mem_cons_self) h.1,
        ih (fun r hr => hv r (List.mem_cons_of_mem _ hr))
          (fun r hr => hv' r (List.mem_cons_of_mem _ hr)) h.2⟩

/-- Linked rounds up to the one at some place are linked to the state that one started in. -/
theorem linked_take {j : Nat} (hl : Round.Linked s rs s') (hr : rs[j]? = some r) :
    Round.Linked s (rs.take j) r.state := by
  induction j generalizing s rs with
  | zero =>
    cases rs with
    | nil => cases hr
    | cons r' rs =>
      cases hr
      exact hl.1
  | succ j ih =>
    cases rs with
    | nil => cases hr
    | cons r' rs => exact ⟨hl.1, ih hl.2 hr⟩

section Two

variable (hH : P'.sha3_256 = P.sha3_256)
  (hinj : Set.InjOn P.sha3_256 (hashedBy rs ∪ hashedBy rs'))
  (hv : ∀ r ∈ rs, r.Valid P cfg) (hv' : ∀ r ∈ rs', r.Valid P' cfg)

include hH hinj hv hv'

/-- Equal states after equally many rounds come from equal blocks. -/
theorem blocks_of_state {a a' b b' : Digest} {qs qs' : List Round} (hq : qs.Sublist rs)
    (hq' : qs'.Sublist rs') (hl : Round.Linked a qs b) (hl' : Round.Linked a' qs' b')
    (hlen : qs.length = qs'.length) (hb : b = b') :
    qs.map Round.blocks = qs'.map Round.blocks := by
  have hvq : ∀ r ∈ qs, r.Valid P cfg := fun r hr => hv r (hq.subset hr)
  have hvq' : ∀ r ∈ qs', r.Valid P' cfg := fun r hr => hv' r (hq'.subset hr)
  obtain ⟨hrun, hmem⟩ := linked_run hl hvq
  obtain ⟨hrun', hmem'⟩ := linked_run hl' hvq'
  rw [hH] at hrun' hmem'
  have hcommit := HashChain.run_injOn (fun _ _ _ _ h => ⟨(frame_injective h).1,
    (frame_injective h).2.2⟩) hinj ?_ ?_ (by simpa using hlen) (hrun.symm.trans (hb.trans hrun'))
  · exact map_blocks_eq hvq hvq' hcommit.2
  · intro m hm
    obtain ⟨r, hr, hm⟩ := hmem m hm
    exact .inl ⟨r, hq.subset hr, hm⟩
  · intro m hm
    obtain ⟨r, hr, hm⟩ := hmem' m hm
    exact .inr ⟨r, hq'.subset hr, hm⟩

/-- Equal outputs come from equal states and equal blocks. -/
theorem state_of_out (hr : r ∈ rs) (hr' : r' ∈ rs') (h : r.out = r'.out) :
    r.state = r'.state ∧ r.blocks = r'.blocks := by
  rw [(hv r hr).out, (hv' r' hr').out, hH] at h
  have hin := hinj (.inl ⟨r, hr, .inl rfl⟩) (.inr ⟨r', hr', .inl rfl⟩) h
  obtain ⟨hs, _, he⟩ := frame_injective hin
  exact ⟨hs, blocks_eq (hv r hr) (hv' r' hr') he⟩

end Two

/-- The tags keep outputs and states apart. -/
theorem out_ne_next {A : Set (List UInt8)} (hinj : Set.InjOn P.sha3_256 A)
    (hr : r.out = P.sha3_256 (r.input 0x11)) (hr' : r'.next = P.sha3_256 (r'.input 0x00))
    (hA : r.input 0x11 ∈ A) (hA' : r'.input 0x00 ∈ A) : r.out ≠ r'.next := by
  intro h
  rw [hr, hr'] at h
  exact absurd (frame_injective (hinj hA hA' h)).2.1 (by decide)

/-- Two pools of one configuration, on any two machines. Equal states after equally many rounds
come from equal blocks, and so do equal outputs, back to the first round; and no output of a
round is ever a state that a round of either pool left. -/
theorem chain_commits (hrun : PoolRun P cfg p w) (hrun' : PoolRun P' cfg p' w')
    (hH : P'.sha3_256 = P.sha3_256)
    (hinj : Set.InjOn P.sha3_256 (hashedBy (completed w.log) ∪ hashedBy (completed w'.log))) :
    ((completed w.log).length = (completed w'.log).length → p.state = p'.state →
      (completed w.log).map Round.blocks = (completed w'.log).map Round.blocks) ∧
    (∀ (j : Nat) (r r' : Round), (completed w.log)[j]? = some r →
      (completed w'.log)[j]? = some r' → r.out = r'.out →
      ((completed w.log).take (j + 1)).map Round.blocks =
        ((completed w'.log).take (j + 1)).map Round.blocks) ∧
    ∀ r ∈ completed w.log ++ completed w'.log, ∀ r' ∈ completed w.log ++ completed w'.log,
      r.out ≠ r'.next := by
  have hh := hrun.history
  have hh' := hrun'.history
  refine ⟨fun hlen hs => ?_, fun j r r' hr hr' hout => ?_, fun r hr r' hr' => ?_⟩
  · exact blocks_of_state hH hinj hh.rounds hh'.rounds (.refl _) (.refl _) hh.linked hh'.linked
      hlen hs
  · have hmem := List.mem_of_getElem? hr
    have hmem' := List.mem_of_getElem? hr'
    obtain ⟨hs, hb⟩ := state_of_out hH hinj hh.rounds hh'.rounds hmem hmem' hout
    have hlen : ((completed w.log).take j).length = ((completed w'.log).take j).length := by
      have hj := (List.getElem?_eq_some_iff.mp hr).1
      have hj' := (List.getElem?_eq_some_iff.mp hr').1
      rw [List.length_take, List.length_take]
      omega
    have hpre := blocks_of_state hH hinj hh.rounds hh'.rounds (List.take_sublist _ _)
      (List.take_sublist _ _) (linked_take hh.linked hr) (linked_take hh'.linked hr') hlen hs
    simp only [List.take_add_one, hr, hr', Option.toList_some, List.map_append, List.map_cons,
      List.map_nil, hpre, hb]
  · have hvalid : ∀ r ∈ completed w.log ++ completed w'.log,
        r.out = P.sha3_256 (r.input 0x11) ∧ r.next = P.sha3_256 (r.input 0x00) ∧
        ∀ m, (m = r.input 0x11 ∨ m = r.input 0x00) →
          m ∈ hashedBy (completed w.log) ∪ hashedBy (completed w'.log) := by
      intro r hr
      rcases List.mem_append.mp hr with hr | hr
      · exact ⟨(hh.rounds r hr).out, (hh.rounds r hr).next, fun m hm => .inl ⟨r, hr, hm⟩⟩
      · rw [← hH]
        exact ⟨(hh'.rounds r hr).out, (hh'.rounds r hr).next, fun m hm => .inr ⟨r, hr, hm⟩⟩
    exact out_ne_next hinj (hvalid r hr).1 (hvalid r' hr').2.1 ((hvalid r hr).2.2 _ (.inl rfl))
      ((hvalid r' hr').2.2 _ (.inr rfl))

theorem hashedBy_roundOf (x y : UInt8) : hashedBy [Bench.roundOf x y] =
    {Bench.inputOf x y 0x11, Bench.inputOf x y 0x00} := by
  have hinput : ∀ tag, (Bench.roundOf x y).input tag = Bench.inputOf x y tag := by
    intro tag
    simp [Round.input, Bench.roundOf, Bench.inputOf, entropy, absorbed]
    rfl
  ext m
  simp [hashedBy, hinput]

/-- The hash of the benches has no collision on the four strings that it is of. -/
theorem injOn_inputs : Set.InjOn Bench.sha3_256_inputs
    (hashedBy [Bench.roundOf 0xA5 0xA6] ∪ hashedBy [Bench.roundOf 0xA6 0xA5]) := by
  rw [hashedBy_roundOf, hashedBy_roundOf]
  rintro a ((rfl | rfl) | (rfl | rfl)) b ((rfl | rfl) | (rfl | rfl)) h
  all_goals first | rfl | exact absurd h (by decide)

/-- Two pools whose generators give the same bytes, but the other way round. -/
theorem chain_commits_pair : ∃ (p p' : Pool) (w w' : World Unit),
    PoolRun Bench.generators.machine Bench.pair p w ∧
    PoolRun (Bench.giving 0xA6 0xA5).machine Bench.pair p' w' ∧
    w.log = delivery [Bench.roundOf 0xA5 0xA6] 32 ∧
    w'.log = delivery [Bench.roundOf 0xA6 0xA5] 32 ∧
    p.state ≠ p'.state ∧ (Bench.roundOf 0xA5 0xA6).out ≠ (Bench.roundOf 0xA6 0xA5).out ∧
    (Bench.roundOf 0xA5 0xA6).out ≠ (Bench.roundOf 0xA6 0xA5).next := by
  obtain ⟨_, w, hrun, hlog, hread⟩ := Bench.run_giving 0xA5 0xA6
  obtain ⟨_, w', hrun', hlog', hread'⟩ := Bench.run_giving 0xA6 0xA5
  replace hrun := hrun.read hread
  replace hrun' := hrun'.read hread'
  have hdone : completed w.log = [Bench.roundOf 0xA5 0xA6] := by rw [hlog]; rfl
  have hdone' : completed w'.log = [Bench.roundOf 0xA6 0xA5] := by rw [hlog']; rfl
  have hblocks : (Bench.roundOf 0xA5 0xA6).blocks ≠ (Bench.roundOf 0xA6 0xA5).blocks := by decide
  obtain ⟨hstate, hout, hnext⟩ := chain_commits hrun hrun' rfl (by
    rw [hdone, hdone']
    exact injOn_inputs)
  rw [hdone, hdone'] at hstate hout hnext
  refine ⟨_, _, w, w', hrun, hrun', hlog, hlog', fun h => ?_, fun h => ?_, ?_⟩
  · exact hblocks (List.cons.inj (hstate rfl h)).1
  · exact hblocks (List.cons.inj (hout 0 _ _ rfl rfl h)).1
  · exact hnext _ (by simp) _ (by simp)

end P11Rand
