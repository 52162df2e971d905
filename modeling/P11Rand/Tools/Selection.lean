import P11Rand.SlotList
import P11Rand.Tools.Cli

/-! How the tools pick the slot that they open: the first part of each `main`. -/
namespace P11Rand.Tools

open Effect Run

def ckFalse : UInt8 := 0

inductive SlotRequest
  | cInitialize
  | cGetSlotList (tokenPresent : UInt8) (room : Option Nat) (count : CkUlong)
  | cGetSlotInfo (slot : CkUlong)
  | cOpenSession (slot flags : CkUlong)
  | cFinalize

/-- Each answer begins with the return value. -/
@[reducible] def SlotRequest.Answer : SlotRequest → Type
  | .cInitialize => CkUlong
  -- what was written into each entry of the list, if anything, and the count
  | .cGetSlotList _ room _ => CkUlong × Vector (Option CkUlong) (room.getD 0) × CkUlong
  | .cGetSlotInfo _ => CkUlong
  | .cOpenSession _ _ => CkUlong × CkUlong
  | .cFinalize => CkUlong

/-- Any module, as long as it writes inside the list that it is given. -/
abbrev SlotHost (H : Type) := Host SlotRequest.Answer H

abbrev SlotWorld (H : Type) := Hosted SlotRequest.Answer H

abbrev SlotReply := Reply SlotRequest.Answer

/-- A `vec![0; n]` that was written into. -/
def overlaid {n : Nat} (written : Vector (Option CkUlong) n) : List CkUlong :=
  written.toList.map fun entry => entry.getD 0

/-- What goes to standard error, and the exit code. -/
structure Failure where
  message : String
  code : UInt8
  deriving DecidableEq

def die (what : String) (rv : CkUlong) : Failure :=
  ⟨what ++ " failed: 0x" ++ String.ofList (Nat.toDigits 16 rv.toNat), 2⟩

variable {H : Type}

/-- No slot for p11rand-read and p11rand-seed. -/
def noUsableSlot : Failure := ⟨"no usable PKCS#11 slot — pool not fillable yet?", 1⟩

/-- The slot and the session that p11rand-read and p11rand-seed go on with. -/
def openFirst (P : SlotHost H) : Run (SlotWorld H) (Except Failure (CkUlong × CkUlong)) := do
  if (← ask P .cInitialize) ≠ ckrOk then
    return .error ⟨"C_Initialize failed", 2⟩
  let (rv, _, nslots) ← ask P (.cGetSlotList ckTrue none 0)
  if rv ≠ ckrOk ∨ nslots = 0 then
    let _ ← ask P .cFinalize
    return .error noUsableSlot
  let (rv, written, _) ← ask P (.cGetSlotList ckTrue (some nslots.toNat) nslots)
  if rv ≠ ckrOk then
    let _ ← ask P .cFinalize
    return .error ⟨"C_GetSlotList failed", 1⟩
  -- the list is not empty, so that `slots[0]` is its head
  let slot := (overlaid written).headD 0
  let (rv, sess) ← ask P (.cOpenSession slot ckfSerialSession)
  if rv ≠ ckrOk then
    let _ ← ask P .cFinalize
    return .error ⟨"C_OpenSession failed", 1⟩
  return .ok (slot, sess)

def Read.openSlot (P : SlotHost H) : Run (SlotWorld H) (Except Failure (CkUlong × CkUlong)) :=
  openFirst P

def Seed.openSlot (P : SlotHost H) : Run (SlotWorld H) (Except Failure (CkUlong × CkUlong)) :=
  openFirst P

namespace Test

def noUsableToken : Failure := ⟨"no usable token in any reader", 3⟩

/-- Each slot is shown, unless the module does not know it any more. -/
def showSlots (P : SlotHost H) : List CkUlong → Run (SlotWorld H) Unit
  | [] => return ()
  | slot :: rest => do
    let _ ← ask P (.cGetSlotInfo slot)
    showSlots P rest

/-- The enumeration of all readers. -/
def listReaders (P : SlotHost H) : Run (SlotWorld H) (Except Failure Unit) := do
  let (rv, _, nall) ← ask P (.cGetSlotList ckFalse none 0)
  if rv ≠ ckrOk then
    return .error (die "C_GetSlotList(size, all)" rv)
  if nall = 0 then
    return .ok ()
  let (rv, written, nall) ← ask P (.cGetSlotList ckFalse (some nall.toNat) nall)
  if rv ≠ ckrOk then
    return .error (die "C_GetSlotList(all)" rv)
  showSlots P ((overlaid written).take nall.toNat)
  return .ok ()

/-- The enumeration of the slots with a token, of which the first is opened. -/
def openUsable (P : SlotHost H) : Run (SlotWorld H) (Except Failure (CkUlong × CkUlong)) := do
  let (rv, _, nuse) ← ask P (.cGetSlotList ckTrue none 0)
  if rv ≠ ckrOk then
    return .error (die "C_GetSlotList(size, present)" rv)
  if nuse = 0 then
    let _ ← ask P .cFinalize
    return .error noUsableToken
  let (rv, written, _) ← ask P (.cGetSlotList ckTrue (some nuse.toNat) nuse)
  if rv ≠ ckrOk then
    return .error (die "C_GetSlotList(present)" rv)
  let picked := (overlaid written).headD 0
  let (rv, sess) ← ask P (.cOpenSession picked ckfSerialSession)
  if rv ≠ ckrOk then
    return .error (die "C_OpenSession" rv)
  return .ok (picked, sess)

def openSlot (P : SlotHost H) : Run (SlotWorld H) (Except Failure (CkUlong × CkUlong)) := do
  let rv ← ask P .cInitialize
  if rv ≠ ckrOk then
    return .error (die "C_Initialize" rv)
  match ← listReaders P with
  | .error failure => return .error failure
  | .ok () => openUsable P

end Test

inductive Tool
  | read
  | seed
  | test

namespace Tool

def openSlot (P : SlotHost H) : Tool → Run (SlotWorld H) (Except Failure (CkUlong × CkUlong))
  | .read => Read.openSlot P
  | .seed => Seed.openSlot P
  | .test => Test.openSlot P

/-- How a tool says that there is no usable slot. -/
def noSlot : Tool → Failure
  | .read | .seed => noUsableSlot
  | .test => Test.noUsableToken

end Tool

/-- The slot of a request for a session. -/
def SlotRequest.opens : SlotRequest → Option CkUlong
  | .cOpenSession slot _ => some slot
  | _ => none

/-- The slots that sessions were asked for on. -/
def asked (es : List SlotReply) : List CkUlong := es.filterMap fun e => e.request.opens

/-- The return value and the entries that were written, when a list of the present slots was asked
for. -/
def fetched : SlotReply → Option (CkUlong × List (Option CkUlong))
  | ⟨.cGetSlotList tokenPresent (some _) _, (rv, written, _)⟩ =>
    if tokenPresent = ckTrue then some (rv, written.toList) else none
  | _ => none

def fetches (es : List SlotReply) : List (CkUlong × List (Option CkUlong)) := es.filterMap fetched

/-- The module could not be set up, or would not list its slots. -/
def refused : SlotReply → Bool
  | ⟨.cInitialize, rv⟩ => rv ≠ ckrOk
  | ⟨.cGetSlotList _ _ _, (rv, _)⟩ => rv ≠ ckrOk
  | _ => false

/-- A session is asked for only on a slot that the module listed as present. Where none is asked
for and no call has failed, the tool says that there is no usable slot. -/
structure UsesListed (noSlot : Failure) (r : Except Failure (CkUlong × CkUlong))
    (es : List SlotReply) : Prop where
  listed : ∀ slot ∈ asked es, ∃ f ∈ fetches es, some slot ∈ f.2
  reported : asked es = [] → r = .error noSlot ∨ es.any refused

/-- The first entry of the list was written, or a 0 somewhere in it. -/
def WritesFirst (written : List (Option CkUlong)) : Prop :=
  (∃ slot, written.head? = some (some slot)) ∨ some 0 ∈ written

/-- Whenever the module says that it listed its present slots, it has written the first entry. -/
def Fills (es : List SlotReply) : Prop := ∀ f ∈ fetches es, f.1 = ckrOk → WritesFirst f.2

section

variable {P : SlotHost H} {w : SlotWorld H} {es : List SlotReply} {noSlot : Failure}
  {r : Except Failure (CkUlong × CkUlong)} {slot : CkUlong} {written : List (Option CkUlong)}

theorem head_mem_iff (hne : written ≠ []) :
    some ((written.map fun entry => entry.getD 0).headD 0) ∈ written ↔ WritesFirst written := by
  cases written with
  | nil => exact absurd rfl hne
  | cons entry rest => cases entry <;> simp [WritesFirst]

/-- After a list that the module did fetch, the head of it is asked for. -/
theorem usesListed_iff_of_asked (hasked : asked es = [slot])
    (hfetch : fetches es = [(ckrOk, written)]) (hne : written ≠ [])
    (hslot : slot = (written.map fun entry => entry.getD 0).headD 0) :
    UsesListed noSlot r es ↔ Fills es := by
  have hmem := head_mem_iff hne
  rw [← hslot] at hmem
  have hfills : Fills es ↔ WritesFirst written := by simp [Fills, hfetch]
  rw [hfills, ← hmem]
  constructor
  · intro h
    simpa [hasked, hfetch] using h.listed
  · intro h
    refine ⟨by simpa [hasked, hfetch] using h, ?_⟩
    simp [hasked]

/-- Without a session nothing depends on what was listed. -/
theorem usesListed_iff_of_none (hasked : asked es = []) (hfetch : ∀ f ∈ fetches es, f.1 ≠ ckrOk)
    (hreport : r = .error noSlot ∨ es.any refused) : UsesListed noSlot r es ↔ Fills es := by
  refine iff_of_true ⟨by simp [hasked], fun _ => hreport⟩ ?_
  intro f hf hok
  exact absurd hok (hfetch f hf)

@[simp] theorem asked_nil : asked [] = [] := rfl

@[simp] theorem asked_cons (e : SlotReply) :
    asked (e :: es) = e.request.opens.toList ++ asked es := by
  cases h : e.request.opens <;> simp [asked, h]

@[simp] theorem asked_append (fs : List SlotReply) : asked (es ++ fs) = asked es ++ asked fs :=
  List.filterMap_append

@[simp] theorem fetches_nil : fetches [] = [] := rfl

@[simp] theorem fetches_cons (e : SlotReply) :
    fetches (e :: es) = (fetched e).toList ++ fetches es := by
  cases h : fetched e <;> simp [fetches, h]

@[simp] theorem fetches_append (fs : List SlotReply) :
    fetches (es ++ fs) = fetches es ++ fetches fs := List.filterMap_append

theorem toList_ne_nil {n : CkUlong} (hn : n ≠ 0) (v : Vector (Option CkUlong) n.toNat) :
    v.toList ≠ [] := by
  have hpos : n.toNat ≠ 0 := fun h => hn (UInt64.toNat_inj.mp h)
  rw [← List.length_pos_iff, Vector.length_toList]
  omega

/-- Neither a session nor a list of the present slots was asked for. -/
structure Unasked (es : List SlotReply) : Prop where
  asked : asked es = []
  fetches : fetches es = []

theorem Unasked.snoc {e : SlotReply} (hu : Unasked es) (hopens : e.request.opens = none)
    (hfetched : fetched e = none) : Unasked (es ++ [e]) := by
  constructor
  · simp [hu.asked, hopens]
  · simp [hu.fetches, hfetched]

theorem Unasked.usesListed_iff (hu : Unasked es) (hreport : r = .error noSlot ∨ es.any refused) :
    UsesListed noSlot r es ↔ Fills es := by
  refine usesListed_iff_of_none hu.asked ?_ hreport
  simp [hu.fetches]

theorem any_refused_snoc {e : SlotReply} (he : refused e) : (es ++ [e]).any refused := by
  simp [he]

theorem openFirst_iff (hu : Unasked w.trace) :
    Yields (openFirst P) w fun r w' => UsesListed noUsableSlot r w'.trace ↔ Fills w'.trace := by
  unfold openFirst
  refine yields_ask fun rv _ => ?_
  have hu₁ := hu.snoc (e := ⟨.cInitialize, rv⟩) rfl rfl
  split
  · rename_i hrv
    refine yields_pure (hu₁.usesListed_iff (.inr (any_refused_snoc ?_)))
    simpa [refused] using hrv
  refine yields_ask fun ⟨rv, v, nslots⟩ _ => ?_
  have hu₂ := hu₁.snoc (e := ⟨.cGetSlotList ckTrue none 0, (rv, v, nslots)⟩) rfl rfl
  dsimp only
  split
  · refine yields_ask fun _ _ => yields_pure (Unasked.usesListed_iff ?_ (.inl rfl))
    exact hu₂.snoc rfl rfl
  rename_i hnslots
  refine yields_ask fun ⟨rv', written, _⟩ _ => ?_
  dsimp only
  split
  · rename_i hrv
    refine yields_ask fun _ _ => yields_pure (usesListed_iff_of_none ?_ ?_ (.inr ?_))
    · simp [hu.asked, SlotRequest.opens]
    · simp [hu.fetches, fetched, hrv]
    · simp [refused, hrv]
  rename_i hrv
  obtain rfl := not_not.mp hrv
  have hne := toList_ne_nil (not_or.mp hnslots).2 written
  refine yields_ask fun ⟨rv'', sess⟩ _ => ?_
  dsimp only
  split
  · refine yields_ask fun _ _ => yields_pure (usesListed_iff_of_asked ?_ ?_ hne rfl)
    · simp [hu.asked, overlaid, SlotRequest.opens]
    · simp [hu.fetches, fetched]
  · refine yields_pure (usesListed_iff_of_asked ?_ ?_ hne rfl)
    · simp [hu.asked, overlaid, SlotRequest.opens]
    · simp [hu.fetches, fetched]

theorem showSlots_unasked (slots : List CkUlong) (hu : Unasked w.trace) :
    Yields (Test.showSlots P slots) w fun _ w' => Unasked w'.trace := by
  induction slots generalizing w with
  | nil => exact yields_pure hu
  | cons slot rest ih => exact yields_ask fun _ _ => ih (hu.snoc rfl rfl)

/-- Enumerating all readers asks for no session, and for no list of the present slots. -/
theorem listReaders_unasked (hu : Unasked w.trace) :
    Yields (Test.listReaders P) w fun r w' => Unasked w'.trace ∧
      ∀ failure, r = .error failure → w'.trace.any refused := by
  unfold Test.listReaders
  refine yields_ask fun ⟨rv, v, nall⟩ _ => ?_
  have hu₁ := hu.snoc (e := ⟨.cGetSlotList ckFalse none 0, (rv, v, nall)⟩) rfl rfl
  dsimp only
  split
  · rename_i hrv
    refine yields_pure ⟨hu₁, fun _ _ => any_refused_snoc ?_⟩
    simpa [refused] using hrv
  split
  · exact yields_pure ⟨hu₁, nofun⟩
  refine yields_ask fun ⟨rv', written, nall'⟩ _ => ?_
  have hu₂ := hu₁.snoc (e := ⟨.cGetSlotList ckFalse (some nall.toNat) nall, (rv', written, nall')⟩)
    rfl rfl
  dsimp only
  split
  · rename_i hrv
    refine yields_pure ⟨hu₂, fun _ _ => any_refused_snoc ?_⟩
    simpa [refused] using hrv
  exact yields_bind ((showSlots_unasked _ hu₂).mono fun _ v h => yields_pure ⟨h, nofun⟩)

theorem openUsable_iff (hu : Unasked w.trace) :
    Yields (Test.openUsable P) w fun r w' =>
      UsesListed Test.noUsableToken r w'.trace ↔ Fills w'.trace := by
  unfold Test.openUsable
  refine yields_ask fun ⟨rv, v, nuse⟩ _ => ?_
  have hu₁ := hu.snoc (e := ⟨.cGetSlotList ckTrue none 0, (rv, v, nuse)⟩) rfl rfl
  dsimp only
  split
  · rename_i hrv
    refine yields_pure (hu₁.usesListed_iff (.inr (any_refused_snoc ?_)))
    simpa [refused] using hrv
  split
  · refine yields_ask fun _ _ => yields_pure (Unasked.usesListed_iff ?_ (.inl rfl))
    exact hu₁.snoc rfl rfl
  rename_i hnuse
  refine yields_ask fun ⟨rv', written, _⟩ _ => ?_
  dsimp only
  split
  · rename_i hrv
    refine yields_pure (usesListed_iff_of_none ?_ ?_ (.inr (any_refused_snoc ?_)))
    · simp [hu.asked, SlotRequest.opens]
    · simp [hu.fetches, fetched, hrv]
    · simpa [refused] using hrv
  rename_i hrv
  obtain rfl := not_not.mp hrv
  have hne := toList_ne_nil hnuse written
  refine yields_ask fun ⟨rv'', sess⟩ _ => ?_
  dsimp only
  split
  · refine yields_pure (usesListed_iff_of_asked ?_ ?_ hne rfl)
    · simp [hu.asked, overlaid, SlotRequest.opens]
    · simp [hu.fetches, fetched]
  · refine yields_pure (usesListed_iff_of_asked ?_ ?_ hne rfl)
    · simp [hu.asked, overlaid, SlotRequest.opens]
    · simp [hu.fetches, fetched]

theorem test_openSlot_iff (hu : Unasked w.trace) :
    Yields (Test.openSlot P) w fun r w' =>
      UsesListed Test.noUsableToken r w'.trace ↔ Fills w'.trace := by
  refine yields_ask fun rv _ => ?_
  have hu₁ := hu.snoc (e := ⟨.cInitialize, rv⟩) rfl rfl
  split
  · rename_i hrv
    refine yields_pure (hu₁.usesListed_iff (.inr (any_refused_snoc ?_)))
    simpa [refused] using hrv
  refine yields_bind ((listReaders_unasked hu₁).mono fun r v hv => ?_)
  obtain ⟨hu, hrefused⟩ := hv
  cases r with
  | error failure => exact yields_pure (hu.usesListed_iff (.inr (hrefused failure rfl)))
  | ok _ => exact openUsable_iff hu

end

/-- Whatever module it is given, a tool opens only a slot that the module has just listed, and else
says that there is none, when each list that the module says it wrote has a first entry, and only
then. -/
theorem Tool.uses_listed_iff (t : Tool) (P : SlotHost H) (env : H) :
    ∃ r w', t.openSlot P ⟨env, []⟩ = some (r, w') ∧
      (UsesListed t.noSlot r w'.trace ↔ Fills w'.trace) := by
  cases t with
  | read => exact openFirst_iff ⟨rfl, rfl⟩
  | seed => exact openFirst_iff ⟨rfl, rfl⟩
  | test => exact test_openSlot_iff ⟨rfl, rfl⟩

/-- A module whose only token goes between the count and the list. -/
def vanishing : SlotHost Unit where
  answer
    | .cInitialize, e => (ckrOk, e)
    | .cGetSlotList _ none _, e => ((ckrOk, Vector.replicate 0 none, 1), e)
    | .cGetSlotList _ (some n) _, e => ((ckrOk, Vector.replicate n none, 0), e)
    | .cGetSlotInfo _, e => (ckrOk, e)
    | .cOpenSession _ _, e => ((ckrOk, 1), e)
    | .cFinalize, e => (ckrOk, e)

/-- Slot 0 is opened, which the module has not listed. -/
theorem Tool.opens_unlisted : ∃ (t : Tool) (r : Except Failure (CkUlong × CkUlong))
    (w' : SlotWorld Unit), t.openSlot vanishing ⟨(), []⟩ = some (r, w') ∧
      asked w'.trace = [0] ∧ ¬ UsesListed t.noSlot r w'.trace := by
  refine ⟨.read, .ok (0, 1), _, rfl, rfl, fun h => ?_⟩
  obtain ⟨f, hf, hmem⟩ := h.listed 0 (List.mem_singleton.mpr rfl)
  obtain rfl : f = (ckrOk, [none]) := List.mem_singleton.mp hf
  simp at hmem

/-- So does p11rand itself answer, when no pool can be filled any more. -/
theorem cGetSlotList_vanished {W : Type} {P : Platform W} {cfg : Config} {m : Module}
    {w w' : World W} {list : List CkUlong} {count : CkUlong} (hinit : m.initialized = true)
    (hroom : count.toNat ≤ list.length)
    (hprobes : probes P cfg m.slots.length w = some (List.replicate m.slots.length false, w')) :
    ∃ m', m.cGetSlotList P cfg ckTrue (some list) (some count) w =
      some ((.ok, m', some list, some 0), w') := by
  have hnone : flagged (List.replicate m.slots.length false) = [] := by
    rw [← List.length_eq_zero_iff, length_flagged]
    simp [List.count_replicate]
  have hcall := cGetSlotList_eq ckTrue (some list) count hinit
    (fun l hl => by cases hl; exact hroom) hprobes
  rw [hnone] at hcall
  exact ⟨_, hcall⟩

end P11Rand.Tools
