import P11Rand.Effect.Schedule
import P11Rand.Observation
import P11Rand.Pool.Origin

/-! Machines whose devices are state machines of their own. -/
namespace P11Rand

open Effect Run

variable {K S E : Type}

/-- Cards and device nodes, each with a state in `S`. `place` is the kind of a device and the name
of the reader or of the node. -/
structure Devices (K S : Type) where
  card : Card → K
  node : Nat → K
  place : K → SlotKind × String
  transmit : Card → List UInt8 → S → Except PcscError (List UInt8) × S
  readFile : Nat → Nat → S → ReadAnswer × S

namespace Devices

variable [DecidableEq K] {D : Devices K S} {P : Platform ((K → S) × E)}

/-- An exchange with a card and a read(2) on a node depend on the state of that device, and change
nothing else. All other requests are free. -/
structure Of (D : Devices K S) (P : Platform ((K → S) × E)) : Prop where
  transmit : ∀ card apdu d e, P.answer (.transmit card apdu) (d, e) =
    ((D.transmit card apdu (d (D.card card))).1,
      Function.update d (D.card card) (D.transmit card apdu (d (D.card card))).2, e)
  readFile : ∀ file len d e, P.answer (.readFile file len) (d, e) =
    ((D.readFile file len (d (D.node file))).1,
      Function.update d (D.node file) (D.readFile file len (d (D.node file))).2, e)
  reader : ∀ card, D.place (D.card card) = (.iso7816, card.reader)
  opened : ∀ path d e file, (P.answer (.openFile path) (d, e)).1 = some file →
    D.place (D.node file) = (.infnoise, path)

/-- The devices that reading from a source can touch. -/
def touches (D : Devices K S) : SlotInner → Set K
  | .iso7816 src => {D.card src.card}
  | .infnoise src => {D.node src.file}
  | .empty => ∅

/-- A source touches only what goes by the name that it was opened under. -/
def Named (D : Devices K S) (s : SlotInner) : Prop :=
  ∀ k ∈ D.touches s, s.kind? = some (D.place k).1 ∧ s.device = some (D.place k).2

end Devices

/-- What a run leaves of a world, but for the scheduler's choices and the order of the exchanges:
the state of each device, and the rest. -/
def World.remains (w : World ((K → S) × E)) : (K → S) × E × Global × List PoolEvent :=
  (w.env.1, w.env.2, w.global, w.log)

theorem remains_inj {w v : World ((K → S) × E)} :
    w.remains = v.remains ↔ w.env = v.env ∧ w.global = v.global ∧ w.log = v.log := by
  simp only [World.remains, Prod.ext_iff, and_assoc]

theorem observes_remains (P : Platform ((K → S) × E)) (cfg : Config) :
    Observes P World.remains cfg := by
  constructor
  · intro q w v a w' hcore h
    obtain ⟨henv, hglobal, hlog⟩ := remains_inj.mp hcore
    rw [request_apply] at h
    cases h
    refine ⟨_, by rw [request_apply, henv], ?_⟩
    exact remains_inj.mpr ⟨by rw [henv], hglobal, hlog⟩
  · intro ev
    apply sees_modify
    intro w v hcore
    obtain ⟨henv, hglobal, hlog⟩ := remains_inj.mp hcore
    exact remains_inj.mpr ⟨henv, hglobal, by rw [hlog]⟩
  · intro _ w v hcore
    rw [(remains_inj.mp hcore).2.1]

namespace Devices

theorem touches_handle (D : Devices K S) (s : SlotInner) : D.touches s.handle = D.touches s := by
  cases s <;> rfl

theorem touches_eq {D : Devices K S} {s s' : SlotInner} (h : s.handle = s'.handle) :
    D.touches s = D.touches s' := by
  rw [← touches_handle, h, touches_handle]

section

variable [DecidableEq K] {D : Devices K S} {P : Platform ((K → S) × E)} {k : K}

theorem local_request {q : Request} {f : S → q.Answer × S}
    (h : ∀ d e, P.answer q (d, e) = ((f (d k)).1, Function.update d k (f (d k)).2, e)) :
    Local World.remains {k} (request P q) := by
  have hrun : ∀ w : World ((K → S) × E), ∃ w', request P q w = some ((f (w.env.1 k)).1, w') ∧
      w'.remains = (Function.update w.env.1 k (f (w.env.1 k)).2, w.remains.2) := by
    intro w
    have hans : P.answer q w.env = _ := h w.env.1 w.env.2
    refine ⟨_, (request_apply q w).trans (by rw [hans]), ?_⟩
    rfl
  constructor
  · intro w
    obtain ⟨w', hw, hrem⟩ := hrun w
    refine ⟨_, w', hw, ?_, by rw [hrem]⟩
    rw [hrem]
    exact fun l hl => Function.update_of_ne hl _ _
  · intro w v a w' hD hreq
    have hk : w.env.1 k = v.env.1 k := hD rfl
    obtain ⟨w'', hw, hrem⟩ := hrun w
    obtain ⟨v', hv, hrem'⟩ := hrun v
    rw [hreq] at hw
    cases hw
    refine ⟨v', by rw [hv, hk], ?_⟩
    rintro l rfl
    simp only [hrem, hrem', hk, Function.update_self]

theorem local_readStep (hD : D.Of P) (r : Reading SlotInner) :
    Local World.remains (D.touches r.src) (SlotInner.readStep P r) := by
  obtain ⟨src, done, rest⟩ := r
  cases src with
  | iso7816 src =>
    refine local_bind ?_ fun _ => local_pure _
    unfold Iso7816.Source.readStep
    split
    · exact local_pure _
    split
    · exact local_pure _
    refine local_bind (local_bind (local_request (hD.transmit _ _)) fun ans => ?_) fun res => ?_
    · split
      · exact local_pure _
      · split <;> exact local_pure _
    · split
      · exact local_pure _
      · exact local_pure _
      · split <;> exact local_pure _
  | infnoise src =>
    refine local_bind ?_ fun _ => local_pure _
    unfold Infnoise.Source.readStep
    split
    · exact local_pure _
    refine local_bind (local_request (hD.readFile _ _)) fun ans => ?_
    split
    · dsimp only
      split <;> exact local_pure _
    · exact local_pure _
    · exact local_pure _
  | empty => exact local_pure _

/-- The threads of a tick work on the devices of their slots. -/
theorem workers (hD : D.Of P) :
    Workers World.remains (fun r => D.touches r.src) (SlotInner.readStep P) := by
  refine ⟨local_readStep hD, fun r w r' w' h => ?_⟩
  have hr : r.src.Keeps r.length (.inl r) := ⟨rfl, le_rfl, rfl⟩
  rw [touches_eq (SlotInner.readStep_keeps hr h).1]

theorem named_kept (hD : D.Of P) : Kept P D.Named := by
  refine ⟨?_, ?_, ?_⟩
  · rintro k ⟨⟩
  · intro s s' h hs k hk
    rw [touches_eq h] at hk
    rw [SlotInner.kind?_eq h, SlotInner.device_eq h]
    exact hs k hk
  · intro kind name src w w' h k hk
    cases kind with
    | iso7816 =>
      obtain ⟨res, v, hres, h⟩ := bind_eq_some.mp h
      cases res with
      | error e => cases h
      | ok src =>
        cases h
        obtain rfl : k = D.card src.card := hk
        rw [hD.reader]
        exact ⟨rfl, rfl⟩
    | infnoise =>
      obtain ⟨res, v, hres, h⟩ := bind_eq_some.mp h
      cases res with
      | error e => cases h
      | ok src =>
        cases h
        obtain ⟨ans, u, hq, hres⟩ := bind_eq_some.mp hres
        cases ans with
        | none => cases hres
        | some file =>
          cases hres
          obtain rfl : k = D.node file := hk
          have hans := congrArg Prod.fst (request_eq_some hq).1
          rw [hD.opened name w.env.1 w.env.2 file hans]
          exact ⟨rfl, rfl⟩

end

end Devices

end P11Rand
