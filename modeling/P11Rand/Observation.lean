import P11Rand.Effect.View
import P11Rand.Pool.Chain
import P11Rand.Pool.Invariant

/-! Which part of the world each operation looks at. Only cards need the process's PC/SC context,
and only the fan-out of a tick asks the scheduler. -/
namespace P11Rand

open Effect Run

variable {W τ : Type} {P : Platform W} {core : World W → τ} {cfg : Config}

/-- `core` keeps what the operations of a pool look at. -/
structure Observes (P : Platform W) (core : World W → τ) (cfg : Config) : Prop where
  request : ∀ q, Sees core (request P q)
  emit : ∀ ev, Sees core (emit ev)
  context : 0 < cfg.iso7816Cards → ∀ w v : World W, core w = core v → w.global.ctx = v.global.ctx

namespace Iso7816

theorem withContext_sees {α : Type} {f : Context → Run (World W) (Except Error α)}
    (hctx : ∀ w v : World W, core w = core v → w.global.ctx = v.global.ctx)
    (hf : ∀ ctx, Sees core (f ctx)) : Sees core (withContext f) := by
  intro w v res w' hcore h
  have hglob := hctx w v hcore
  simp only [withContext, bind_apply, get_apply, Option.bind_some] at h ⊢
  rw [← hglob]
  cases hc : w.global.ctx with
  | none =>
    rw [hc] at h
    cases h
    exact ⟨v, rfl, hcore⟩
  | some ctx =>
    rw [hc] at h
    exact hf ctx w v res w' hcore h

section Requests

variable (hq : ∀ q, Sees core (request P q))
include hq

theorem listReaders_sees (hctx : ∀ w v : World W, core w = core v → w.global.ctx = v.global.ctx) :
    Sees core (listReaders P) := by
  apply withContext_sees hctx
  intro ctx
  apply sees_bind (hq _)
  intro len
  split
  · exact sees_pure _
  · split
    · exact sees_pure _
    · apply sees_bind (hq _)
      intro readers
      split <;> exact sees_pure _

theorem tryGetChallenge_sees (card : Card) (n : Nat) (out : List UInt8) :
    Sees core (tryGetChallenge P card n out) := by
  apply sees_bind (hq _)
  intro ans
  split
  · exact sees_pure _
  · split <;> exact sees_pure _

theorem probeApplets_sees (card : Card) (throwaway : List UInt8)
    (apps : List (AppId × List UInt8)) :
    Sees core (probeApplets P card throwaway apps) := by
  induction apps generalizing throwaway with
  | nil => exact sees_pure _
  | cons app apps ih =>
    apply sees_bind
    · apply sees_bind (hq _)
      intro ans
      split <;> exact sees_pure _
    · intro sel
      split
      · exact sees_pure _
      · exact ih _
      · apply sees_bind (tryGetChallenge_sees hq _ _ _)
        intro res
        split
        · exact sees_pure _
        · exact sees_pure _
        · exact ih _

theorem probeApp_sees (card : Card) : Sees core (probeApp P card) := by
  apply sees_bind (tryGetChallenge_sees hq _ _ _)
  intro res
  split
  · exact sees_pure _
  · exact sees_pure _
  · exact probeApplets_sees hq _ _ _

theorem dropCard_sees (card : Card) : Sees core (dropCard P card) :=
  sees_bind (hq _) fun _ => sees_pure _

theorem openSource_sees (hctx : ∀ w v : World W, core w = core v → w.global.ctx = v.global.ctx)
    (reader : String) : Sees core (openSource P reader) := by
  unfold openSource
  split
  · exact sees_pure _
  · apply sees_bind
    · apply withContext_sees hctx
      intro ctx
      apply sees_bind (hq _)
      intro ans
      split <;> exact sees_pure _
    · intro card
      split
      · exact sees_pure _
      · apply sees_bind (probeApp_sees hq _)
        intro app
        split
        · exact sees_pure _
        · apply sees_bind
          · apply sees_bind (hq _)
            intro ans
            split
            · exact sees_pure _
            · exact dropCard_sees hq _
          · exact fun _ => sees_pure _

theorem readStep_sees (r : Reading Source) : Sees core (Source.readStep P r) := by
  unfold Source.readStep
  split
  · exact sees_pure _
  split
  · exact sees_pure _
  apply sees_bind (tryGetChallenge_sees hq _ _ _)
  intro res
  split
  · exact sees_pure _
  · exact sees_pure _
  · split <;> exact sees_pure _

end Requests
end Iso7816

namespace Infnoise

section Requests

variable (hq : ∀ q, Sees core (request P q))
include hq

theorem listPaths_sees : Sees core (listPaths P) := by
  apply sees_bind (hq _)
  intro entries
  split <;> exact sees_pure _

theorem openSource_sees (path : String) : Sees core (openSource P path) := by
  apply sees_bind (hq _)
  intro file
  split <;> exact sees_pure _

theorem readStep_sees (r : Reading Source) : Sees core (Source.readStep P r) := by
  unfold Source.readStep
  split
  · exact sees_pure _
  apply sees_bind (hq _)
  intro ans
  split
  · dsimp only
    split <;> exact sees_pure _
  · exact sees_pure _
  · exact sees_pure _

end Requests
end Infnoise

namespace SlotInner

section Requests

variable (hq : ∀ q, Sees core (request P q))
include hq

theorem drop_sees (s : SlotInner) : Sees core (s.drop P) := by
  cases s with
  | iso7816 src => exact Iso7816.dropCard_sees hq _
  | infnoise src => exact sees_pure _
  | empty => exact sees_pure _

theorem readStep_sees (r : Reading SlotInner) : Sees core (readStep P r) := by
  unfold readStep
  split
  · exact sees_bind (Iso7816.readStep_sees hq _) fun _ => sees_pure _
  · exact sees_bind (Infnoise.readStep_sees hq _) fun _ => sees_pure _
  · exact sees_pure _

theorem read_sees (s : SlotInner) (buf : List UInt8) : Sees core (s.read P buf) := by
  cases s with
  | iso7816 src =>
    exact sees_bind (sees_loop (Iso7816.readStep_sees hq) _) fun _ => sees_pure _
  | infnoise src =>
    exact sees_bind (sees_loop (Infnoise.readStep_sees hq) _) fun _ => sees_pure _
  | empty => exact sees_pure _

end Requests
end SlotInner

namespace SlotKind

theorem list_sees (ho : Observes P core cfg) {kind : SlotKind} (hk : 0 < cfg.count kind) :
    Sees core (kind.list P) := by
  cases kind with
  | iso7816 =>
    exact sees_bind (Iso7816.listReaders_sees ho.request (ho.context hk)) fun _ => sees_pure _
  | infnoise => exact sees_bind (Infnoise.listPaths_sees ho.request) fun _ => sees_pure _

theorem openSource_sees (ho : Observes P core cfg) {kind : SlotKind} (hk : 0 < cfg.count kind)
    (name : String) : Sees core (kind.openSource P name) := by
  cases kind with
  | iso7816 =>
    apply sees_bind (Iso7816.openSource_sees ho.request (ho.context hk) _)
    intro res
    split <;> exact sees_pure _
  | infnoise =>
    apply sees_bind (Infnoise.openSource_sees ho.request _)
    intro res
    split <;> exact sees_pure _

end SlotKind

theorem dropSlots_sees (ho : Observes P core cfg) (l : List Slot) :
    Sees core (dropSlots P l) := by
  induction l with
  | nil => exact sees_pure _
  | cons s l ih => exact sees_bind (SlotInner.drop_sees ho.request _) fun _ => ih

theorem countUsable_sees (ho : Observes P core cfg) (hk : 0 < cfg.iso7816Cards)
    (cards usable : Nat) (names : List String) :
    Sees core (countUsable P cards usable names) := by
  induction names generalizing usable with
  | nil => exact sees_pure _
  | cons name names ih =>
    unfold countUsable
    split
    · exact sees_pure _
    · apply sees_bind (Iso7816.openSource_sees ho.request (ho.context hk) _)
      intro res
      split
      · exact sees_bind (Iso7816.dropCard_sees ho.request _) fun _ => ih _
      · exact ih _

theorem fillable_sees (ho : Observes P core cfg) : Sees core (fillable P cfg) := by
  apply sees_bind
  · unfold cardsUsable
    split
    · rename_i hk
      apply sees_bind (SlotKind.list_sees ho (show 0 < cfg.count .iso7816 from hk))
      intro names
      split
      · exact sees_pure _
      · exact sees_bind (countUsable_sees ho hk _ _ _) fun _ => sees_pure _
    · exact sees_pure _
  · intro r
    split
    · unfold nodesPresent
      split
      · rename_i hk
        apply sees_bind (SlotKind.list_sees ho (show 0 < cfg.count .infnoise from hk))
        intro names
        split <;> exact sees_pure _
      · exact sees_pure _
    · exact sees_pure _

theorem claim_sees (ho : Observes P core cfg) {kind : SlotKind} (hk : 0 < cfg.count kind)
    (want : Nat) (got : List Slot) (names : List String) :
    Sees core (claim P kind want got names) := by
  induction names generalizing got with
  | nil => exact sees_pure _
  | cons name names ih =>
    unfold claim
    split
    · exact sees_pure _
    · apply sees_bind (SlotKind.openSource_sees ho hk _)
      intro src
      split
      · exact ih _
      · exact ih _

theorem claimKind_sees (ho : Observes P core cfg) (kind : SlotKind) (slots : List Slot) :
    Sees core (claimKind P cfg kind slots) := by
  unfold claimKind
  split
  · rename_i hk
    apply sees_bind (SlotKind.list_sees ho hk)
    intro names
    split
    · exact sees_bind (dropSlots_sees ho _) fun _ => sees_pure _
    · apply sees_bind (claim_sees ho hk _ _ _)
      intro got
      split
      · exact sees_bind (dropSlots_sees ho _) fun _ => sees_pure _
      · exact sees_pure _
  · exact sees_pure _

namespace Pool

theorem open_sees (ho : Observes P core cfg) : Sees core (Pool.open P cfg) := by
  unfold Pool.open
  split
  · exact sees_pure _
  · apply sees_bind (claimKind_sees ho _ _)
    intro iso
    split
    · exact sees_pure _
    · apply sees_bind (claimKind_sees ho _ _)
      intro all
      split <;> exact sees_pure _

theorem count_pos {l : List Slot} {i : Nat} {s : Slot} (hok : SlotsOk cfg l)
    (hs : l[i]? = some s) : 0 < cfg.count s.kind := by
  have hlt : i < cfg.poolSize := hok.length_eq ▸ (List.getElem?_eq_some_iff.mp hs).1
  rw [hok.kind_eq hs]
  by_cases hi : i < cfg.iso7816Cards
  · simp only [Config.kindAt, if_pos hi, Config.count]
    omega
  · simp only [Config.poolSize] at hlt
    simp only [Config.kindAt, if_neg hi, Config.count]
    omega

theorem rebindScan_sees (ho : Observes P core cfg) {kind : SlotKind} (hk : 0 < cfg.count kind)
    (idx : Nat) (p : Pool) (names : List String) :
    Sees core (rebindScan P idx kind p names) := by
  induction names with
  | nil => exact sees_bind (ho.emit _) fun _ => sees_pure _
  | cons name names ih =>
    unfold rebindScan
    split
    · exact ih
    · apply sees_bind (SlotKind.openSource_sees ho hk _)
      intro src
      split
      · exact sees_bind (ho.emit _) fun _ => sees_pure _
      · exact ih

theorem rebind_sees (ho : Observes P core cfg) {p : Pool} (hok : SlotsOk cfg p.slots) (i : Nat) :
    Sees core (p.rebind P i) := by
  unfold rebind
  cases hs : p.slots[i]? with
  | none => exact sees_stuck
  | some s =>
    have hk := count_pos hok hs
    apply sees_bind
    · exact sees_bind (SlotInner.drop_sees ho.request _) fun _ => sees_pure _
    · intro s'
      apply sees_bind (SlotKind.list_sees ho hk)
      intro names
      split
      · exact sees_bind (ho.emit _) fun _ => sees_pure _
      · exact rebindScan_sees ho hk _ _ _

theorem readSlot_sees (ho : Observes P core cfg) (p : Pool) (i : Nat) (buf : List UInt8) :
    Sees core (p.readSlot P i buf) := by
  unfold readSlot
  split
  · exact sees_stuck
  · exact sees_bind (SlotInner.read_sees ho.request _ _) fun _ => sees_pure _

theorem join_sees (ho : Observes P core cfg) (c : Config) (t i : Nat)
    (os : List (Outcome SlotInner Unit)) : Sees core (join c t i os) := by
  induction os generalizing i with
  | nil => exact sees_pure _
  | cons o os ih =>
    unfold join
    split
    · exact sees_bind (ih _) fun _ => sees_pure _
    · exact sees_bind (ho.emit _) fun _ => sees_bind (ih _) fun _ => sees_pure _

theorem retrySlot_sees (ho : Observes P core cfg) {p : Pool} (hok : SlotsOk cfg p.slots)
    (t i : Nat) : Sees core (p.retrySlot P t i) := by
  apply sees_bind (rebind_sees ho hok i)
  rintro ⟨res, q⟩
  cases res with
  | error e => exact sees_pure _
  | ok _ =>
    apply sees_bind (readSlot_sees ho _ _ _)
    rintro ⟨o, q⟩
    apply sees_bind (ho.emit _)
    intro _
    split <;> exact sees_pure _

theorem blockFor_sees (ho : Observes P core cfg) {p : Pool} (hok : SlotsOk cfg p.slots)
    (t i : Nat) (cell : Option (List UInt8)) : Sees core (blockFor P p t i cell) := by
  cases cell with
  | none => exact retrySlot_sees ho hok t i
  | some b => exact sees_pure _

theorem absorbFrom_sees (ho : Observes P core cfg) {p : Pool} (hok : SlotsOk cfg p.slots)
    (t : Nat) (scratch : List (Option (List UInt8))) (is : List Nat) (hs : Hashes) :
    Sees core (absorbFrom P t scratch is p hs) := by
  induction is generalizing p hs with
  | nil => exact sees_pure _
  | cons i is ih =>
    unfold absorbFrom
    split
    · exact ih hok _
    · cases scratch[i]? with
      | none => exact sees_stuck
      | some cell =>
        apply sees_bind_of (blockFor_sees ho hok t i cell)
        rintro ⟨res, q⟩ w w' hb
        obtain ⟨_, _, _, hblock⟩ := blockFor_spec hb
        cases res with
        | error e => exact sees_pure _
        | ok b => exact sees_bind (ho.emit _) fun _ => ih (hblock.evolves.slotsOk hok) _

theorem readPassthrough_sees (ho : Observes P core cfg) {p : Pool} (hok : SlotsOk cfg p.slots)
    (buf : List UInt8) : Sees core (p.readPassthrough P buf) := by
  apply sees_bind_of (readSlot_sees ho p 0 buf)
  rintro ⟨o, q⟩ w w' hread
  obtain ⟨s, hs, _⟩ := readSlot_cases hread
  have hok' := (readSlot_spec hs hread).evolves.slotsOk hok
  apply sees_bind (ho.emit _)
  intro _
  split
  · exact sees_pure _
  · apply sees_bind (rebind_sees ho hok' 0)
    rintro ⟨res, q'⟩
    cases res with
    | error e => exact sees_pure _
    | ok _ =>
      apply sees_bind (readSlot_sees ho _ _ _)
      rintro ⟨o', q''⟩
      apply sees_bind (ho.emit _)
      intro _
      split <;> exact sees_pure _

section Schedule

variable (ho : Observes P core cfg) (hchoose : ∀ n, Sees core (choose n : Run (World W) Nat))
include ho hchoose

theorem fanOut_sees (p : Pool) (t : Nat) : Sees core (p.fanOut P t) := by
  apply sees_bind (sees_interleave (SlotInner.readStep_sees ho.request) hchoose _)
  intro os
  exact sees_bind (join_sees ho _ _ _ _) fun _ => sees_pure _

theorem ticksFrom_sees {p : Pool} (hok : SlotsOk cfg p.slots) (n : Nat) (ts : List Nat)
    (hs : Hashes) : Sees core (ticksFrom P n ts p hs) := by
  induction ts generalizing p hs with
  | nil => exact sees_pure _
  | cons t ts ih =>
    unfold ticksFrom
    apply sees_bind_of (fanOut_sees ho hchoose p t)
    rintro ⟨scratch, q⟩ w w' hfan
    obtain ⟨_, _, _, hfanned⟩ := fanOut_spec hfan
    have hok' := hfanned.evolves.slotsOk hok
    apply sees_bind_of (absorbFrom_sees ho hok' t scratch _ hs)
    rintro ⟨res, q'⟩ w w' habs
    obtain ⟨_, _, _, habsorbed, _⟩ := absorbFrom_spec List.nodup_range habs
    cases res with
    | error e => exact sees_pure _
    | ok hs' => exact ih (habsorbed.evolves.slotsOk hok') _

theorem doRoundChain_sees {p : Pool} (hok : SlotsOk cfg p.slots) (out : Digest) :
    Sees core (p.doRoundChain P out) := by
  apply sees_bind (ho.emit _)
  intro _
  apply sees_bind (ticksFrom_sees ho hchoose hok _ _ _)
  rintro ⟨res, q⟩
  cases res with
  | error e => exact sees_pure _
  | ok hs => exact sees_bind (ho.emit _) fun _ => sees_pure _

theorem readChain_sees {p : Pool} (hok : SlotsOk cfg p.slots) (hc : p.config = cfg) (out : Digest)
    (done rest : List UInt8) : Sees core (p.readChain P out done rest) := by
  induction hk : rest.length using Nat.strongRecOn generalizing p out done rest with
  | _ k ih =>
    unfold readChain
    split
    · exact sees_pure _
    · rename_i hrest
      have hpos : 0 < rest.length := List.length_pos_iff.mpr (by simpa using hrest)
      apply sees_bind_of (doRoundChain_sees ho hchoose hok out)
      rintro ⟨res, q, out'⟩ w w' hround
      obtain ⟨_, _, _, hrounded⟩ := doRoundChain_cases (by rw [hc]; exact hok.length_eq) hround
      cases res with
      | error e => exact sees_pure _
      | ok _ =>
        apply sees_bind (ho.emit _)
        intro _
        have hev := hrounded.evolves
        refine ih _ ?_ (hev.slotsOk hok) (hev.config.trans hc) _ _ _ rfl
        simp only [List.length_drop, roundBytes]
        omega

theorem read_sees {p : Pool} (hok : SlotsOk cfg p.slots) (hc : p.config = cfg)
    (buf : List UInt8) : Sees core (p.read P buf) := by
  unfold read
  split
  · exact sees_bind (readChain_sees ho hchoose hok hc _ _ _) fun _ => sees_pure _
  · exact readPassthrough_sees ho hok buf

end Schedule

end Pool
end P11Rand
