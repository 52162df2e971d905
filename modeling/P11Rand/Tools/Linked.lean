import P11Rand.Effect.Simulation
import P11Rand.Supply
import P11Rand.Tools.Served

/-! A tool and the module in one process, on a machine and a kernel. -/
namespace P11Rand

open Effect Run

variable {W H : Type} {P : Platform W} {cfg : Config} {m : Module} {w : World W} {rv : Rv}

/-- The values of the return codes. -/
def Rv.code : Rv → CkUlong
  | .ok => 0x0
  | .hostMemory => 0x2
  | .slotIdInvalid => 0x3
  | .functionFailed => 0x6
  | .argumentsBad => 0x7
  | .deviceError => 0x30
  | .mechanismInvalid => 0x70
  | .sessionHandleInvalid => 0xB3
  | .sessionParallelNotSupported => 0xB4
  | .tokenNotPresent => 0xE0
  | .randomSeedNotSupported => 0x120
  | .bufferTooSmall => 0x150
  | .cryptokiNotInitialized => 0x190
  | .cryptokiAlreadyInitialized => 0x191

/-- The module in a process, between two calls. -/
structure Running (P : Platform W) (cfg : Config) where
  module : Module
  world : World W
  reached : ModuleRun P cfg module world

namespace Running

variable {r : Running P cfg} {c c' : AnyCall}

theorem returns (hp : ∀ e, P.Patient e) (r : Running P cfg) (c : AnyCall) :
    c.run P cfg r.module r.world ≠ none := by
  obtain ⟨_, _, h, _⟩ := AnyCall.answers r.reached c fun _ => hp _
  rw [h]
  exact nofun

/-- A call, on a machine on which every call returns. -/
def call (hp : ∀ e, P.Patient e) (r : Running P cfg) (c : AnyCall) :
    (Rv × AnyCall) × Running P cfg :=
  match hc : c.run P cfg r.module r.world with
  | some ((rv, m, c'), w) => ((rv, c'), ⟨m, w, AnyCall.continues r.reached hc⟩)
  | none => absurd hc (r.returns hp c)

theorem call_eq (hp : ∀ e, P.Patient e)
    (hc : c.run P cfg r.module r.world = some ((rv, m, c'), w)) :
    ∃ r' : Running P cfg, r'.module = m ∧ r'.world = w ∧ r.call hp c = ((rv, c'), r') := by
  unfold call
  split
  · rename_i h
    rw [hc] at h
    cases h
    exact ⟨_, rfl, rfl, rfl⟩
  · rename_i h
    rw [hc] at h
    cases h

end Running

namespace AnyCall

/-- The ids in the list of a call. -/
def slots : AnyCall → List CkUlong
  | .of (.cGetSlotList _ pList _) => pList.getD []
  | _ => []

def count : AnyCall → CkUlong
  | .of (.cGetSlotList _ _ pCount) => pCount.getD 0
  | _ => 0

def handle : AnyCall → CkUlong
  | .of (.cOpenSession _ _ phSession) => phSession.getD 0
  | _ => 0

def bytes : AnyCall → List UInt8
  | .of (.cGenerateRandom _ buf _) => buf.getD []
  | _ => []

end AnyCall

def CkSlotInfo.zeroed : CkSlotInfo := ⟨zeros 64, zeros 32, 0, ⟨0, 0⟩, ⟨0, 0⟩⟩

def CkTokenInfo.zeroed : CkTokenInfo :=
  ⟨zeros 32, zeros 32, zeros 16, zeros 16, 0, 0, 0, 0, 0, 0, 0, 0, 0, 0, 0, ⟨0, 0⟩, ⟨0, 0⟩,
    zeros 16⟩

namespace Tools.Client

/-- The module as a tool finds it that has loaded it; the rest is asked of a kernel. -/
def linked (hp : ∀ e, P.Patient e) (K : ToolHost H) : ClientHost (Running P cfg × H) where
  answer
    | .loadModule _, e => (.ok (), e)
    | .setup .cInitialize, (r, k) =>
      let ((rv, _), r) := r.call hp (.cInitialize none)
      (rv.code, (r, k))
    | .setup (.cGetSlotList tokenPresent room count), (r, k) =>
      let ((rv, c), r) := r.call hp
        (.of (.cGetSlotList tokenPresent (room.map (List.replicate · 0)) (some count)))
      ((rv.code, Vector.ofFn fun i => c.slots[i.val]?, c.count), (r, k))
    | .setup (.cGetSlotInfo slot), (r, k) =>
      let ((rv, _), r) := r.call hp (.of (.cGetSlotInfo slot (some .zeroed)))
      (rv.code, (r, k))
    | .setup (.cOpenSession slot flags), (r, k) =>
      let ((rv, c), r) := r.call hp (.of (.cOpenSession slot flags (some 0)))
      ((rv.code, c.handle), (r, k))
    | .setup .cFinalize, (r, k) =>
      let ((rv, _), r) := r.call hp (.of (.cFinalize true))
      (rv.code, (r, k))
    | .openRandom, e => (.ok (), e)
    | .work sess (.generateRandom len), (r, k) =>
      let ((rv, c), r) := r.call hp
        (.of (.cGenerateRandom sess (some (zeros len)) (UInt64.ofNat len)))
      ((rv.code, Vector.ofFn fun i => c.bytes.getD i 0), (r, k))
    | .work _ q, (r, k) => ((K.answer q k).1, (r, (K.answer q k).2))
    | .cGetTokenInfo slot, (r, k) =>
      let ((rv, _), r) := r.call hp (.of (.cGetTokenInfo slot (some .zeroed)))
      (rv.code, (r, k))
    | .cCloseSession sess, (r, k) =>
      let ((rv, _), r) := r.call hp (.of (.cCloseSession sess))
      (rv.code, (r, k))

section Calls

variable (hp : ∀ e, P.Patient e) (K : ToolHost H) {r : Running P cfg} (k : H)
  {slot flags sess : CkUlong}

theorem linked_cInitialize (hc : r.module.cInitialize P cfg none r.world = some ((rv, m), w)) :
    ∃ r' : Running P cfg, r'.module = m ∧ r'.world = w ∧
      (linked hp K).answer (.setup .cInitialize) (r, k) = (rv.code, (r', k)) := by
  obtain ⟨r', hm, hw, hcall⟩ := r.call_eq hp (c := .cInitialize none) (bind_of_eq hc)
  refine ⟨r', hm, hw, ?_⟩
  simp only [linked, hcall]

theorem linked_of {e e' : Invocation}
    (hc : e.run P cfg r.module r.world = some ((rv, m, e'), w)) :
    ∃ r' : Running P cfg, r'.module = m ∧ r'.world = w ∧
      r.call hp (.of e) = ((rv, .of e'), r') :=
  r.call_eq hp (AnyCall.of_eq_some.mpr ⟨e', rfl, hc⟩)

/-- The slots that are listed are written to the front of a list of zeros. -/
theorem linked_cGetSlotList {tokenPresent : UInt8} (room : Option Nat) {count n : CkUlong}
    {pList : Option (List CkUlong)}
    (hc : r.module.cGetSlotList P cfg tokenPresent (room.map (List.replicate · 0)) (some count)
      r.world = some ((rv, m, pList, some n), w)) :
    ∃ (r' : Running P cfg), r'.module = m ∧ r'.world = w ∧
      (linked hp K).answer (.setup (.cGetSlotList tokenPresent room count)) (r, k) =
        ((rv.code, Vector.ofFn fun i => (pList.getD [])[i.val]?, n), (r', k)) := by
  obtain ⟨r', hm, hw, hcall⟩ := linked_of hp
    (e := .cGetSlotList tokenPresent (room.map (List.replicate · 0)) (some count)) (bind_of_eq hc)
  refine ⟨r', hm, hw, ?_⟩
  simp only [linked, hcall]
  rfl

theorem linked_cOpenSession
    (hc : r.module.cOpenSession P cfg slot flags (some 0) r.world = some ((rv, m, some sess), w)) :
    ∃ r' : Running P cfg, r'.module = m ∧ r'.world = w ∧
      (linked hp K).answer (.setup (.cOpenSession slot flags)) (r, k) =
        ((rv.code, sess), (r', k)) := by
  obtain ⟨r', hm, hw, hcall⟩ := linked_of hp
    (e := .cOpenSession slot flags (some 0)) (bind_of_eq hc)
  refine ⟨r', hm, hw, ?_⟩
  simp only [linked, hcall]
  rfl

theorem linked_generateRandom {len : Nat} {buf : List UInt8}
    (hc : r.module.cGenerateRandom P sess (some (zeros len)) (UInt64.ofNat len) r.world =
      some ((rv, m, some buf), w)) :
    ∃ r' : Running P cfg, r'.module = m ∧ r'.world = w ∧
      (linked hp K).answer (.work sess (.generateRandom len)) (r, k) =
        ((rv.code, Vector.ofFn fun i => buf.getD i 0), (r', k)) := by
  obtain ⟨r', hm, hw, hcall⟩ := linked_of hp
    (e := .cGenerateRandom sess (some (zeros len)) (UInt64.ofNat len)) (bind_of_eq hc)
  refine ⟨r', hm, hw, ?_⟩
  simp only [linked, hcall]
  rfl

/-- After C_Finalize the module is down, whatever it was before. -/
theorem linked_cFinalize (e : Running P cfg × H) :
    ((linked hp K).answer (.setup .cFinalize) e).2.1.module.initialized = false := by
  obtain ⟨r, k⟩ := e
  obtain ⟨⟨⟨rv, m, c⟩, w⟩, hc⟩ := Option.ne_none_iff_exists'.mp
    (r.returns hp (.of (.cFinalize true)))
  obtain ⟨_, rfl, he⟩ := AnyCall.of_eq_some.mp hc
  obtain ⟨r', rfl, rfl, hcall⟩ := linked_of hp he
  obtain ⟨⟨_, _⟩, _, hf, h⟩ := bind_eq_some.mp he
  cases h
  have hdown : r'.module.initialized = false := by
    rcases Module.cFinalize_spec hf with ⟨hrv, hm, _⟩ | ⟨_, _, hm, _⟩
    · rw [hm]
      cases hinit : r.module.initialized with
      | false => rfl
      | true => exact absurd (cFinalize_admitted hinit hf) hrv
    · rw [hm]
  simp only [linked, hcall]
  exact hdown

end Calls

end Tools.Client
end P11Rand
