import P11Rand.Effect.Facet
import P11Rand.Tools.Read
import P11Rand.Tools.Seed
import P11Rand.Tools.Selection

/-! The tools that open a session, from the start of the process to its end, and the order in which
they call the module. -/
namespace P11Rand.Tools

open Effect Run

/-- What p11rand-test is told by its arguments: a module and a number of bytes. -/
def Test.parse (argv : List String) : Except UInt8 (String × Nat) :=
  match argv with
  | _ :: module :: n :: _ => .ok (module, (parseUsize n).getD 32)
  | [_, module] => .ok (module, 32)
  | _ => .error 1

inductive ClientRequest
  | loadModule (path : String)
  | setup (q : SlotRequest)
  | openRandom
  /-- What the loop of a tool asks; random bytes are asked for in the session. -/
  | work (sess : CkUlong) (q : ToolRequest)
  | cGetTokenInfo (slot : CkUlong)
  | cCloseSession (sess : CkUlong)

@[reducible] def ClientRequest.Answer : ClientRequest → Type
  | .loadModule _ => Except String Unit
  | .setup q => q.Answer
  | .openRandom => Except String Unit
  | .work _ q => q.Answer
  | .cGetTokenInfo _ => CkUlong
  | .cCloseSession _ => CkUlong

/-- Any module on any kernel. -/
abbrev ClientHost (H : Type) := Host ClientRequest.Answer H

abbrev ClientWorld (H : Type) := Hosted ClientRequest.Answer H

abbrev ClientReply := Reply ClientRequest.Answer

namespace Client

def setup : Facet SlotRequest.Answer ClientRequest.Answer := ⟨.setup, fun _ => .refl _⟩

def work (sess : CkUlong) : Facet ToolRequest.Answer ClientRequest.Answer :=
  ⟨.work sess, fun _ => .refl _⟩

/-- How a process ends; a failure is reported on standard error. -/
inductive Ending
  | returned (code : UInt8)
  | failed (failure : Failure)
  | panicked

variable {H : Type}

/-- The end of each `main`. -/
def closeDown (C : ClientHost H) (sess : CkUlong) : Run (ClientWorld H) Unit := do
  let _ ← ask C (.cCloseSession sess)
  let _ ← ask C (.setup .cFinalize)

def readMain (C : ClientHost H) (a : Read.Args) : Run (ClientWorld H) Ending := do
  match ← ask C (.loadModule a.module) with
  | .error e => return .failed ⟨e, 2⟩
  | .ok () =>
    match ← setup.run (Read.openSlot (setup.host C)) with
    | .error failure => return .failed failure
    | .ok (_, sess) =>
      let exitRv ← (work sess).run (Read.emitStream ((work sess).host C) a)
      closeDown C sess
      return .returned exitRv

def seedMain (C : ClientHost H) (a : Seed.Args) : Run (ClientWorld H) Ending := do
  match ← ask C (.loadModule a.module) with
  | .error e => return .failed ⟨e, 2⟩
  | .ok () =>
    match ← setup.run (Seed.openSlot (setup.host C)) with
    | .error failure => return .failed failure
    | .ok (_, sess) =>
      match ← ask C .openRandom with
      | .error e =>
        closeDown C sess
        return .failed ⟨"open /dev/random: " ++ e, 1⟩
      | .ok () =>
        match ← (work sess).run (Seed.seed ((work sess).host C) a) with
        -- the panic unwinds `main`
        | .panicked => return .panicked
        | .stopped =>
          closeDown C sess
          return .returned 0

def testMain (C : ClientHost H) (module : String) (n : Nat) : Run (ClientWorld H) Ending := do
  match ← ask C (.loadModule module) with
  | .error e => return .failed ⟨e, 2⟩
  | .ok () =>
    match ← setup.run (Test.openSlot (setup.host C)) with
    | .error failure => return .failed failure
    | .ok (picked, sess) =>
      let _ ← ask C (.cGetTokenInfo picked)
      let (rv, _) ← ask C (.work sess (.generateRandom n))
      if rv ≠ ckrOk then
        return .failed (die "C_GenerateRandom" rv)
      closeDown C sess
      return .returned 0

end Client

/-- A tool with what its arguments say. -/
inductive Client
  | read (a : Read.Args)
  | seed (a : Seed.Args)
  | test (module : String) (n : Nat)

namespace Client

variable {H : Type}

def main (C : ClientHost H) : Client → Run (ClientWorld H) Ending
  | .read a => readMain C a
  | .seed a => seedMain C a
  | .test module n => testMain C module n

/-- Where a client stands with a module: it is not set up, it is, or a session is open. -/
inductive Stage
  | down
  | up
  | opened (sess : CkUlong)

def Stage.next : Stage → ClientReply → Stage
  | .down, ⟨.setup .cInitialize, rv⟩ => if rv = ckrOk then .up else .down
  | .up, ⟨.setup (.cOpenSession _ _), (rv, sess)⟩ => if rv = ckrOk then .opened sess else .up
  | .opened sess, ⟨.cCloseSession h, rv⟩ => if h = sess ∧ rv = ckrOk then .up else .opened sess
  | st, ⟨.setup .cFinalize, rv⟩ => if rv = ckrOk then .down else st
  | st, _ => st

def stage (es : List ClientReply) : Stage := es.foldl Stage.next .down

/-- The slots that a module has listed. -/
def listed : ClientReply → List CkUlong
  | ⟨.setup (.cGetSlotList _ _ _), (_, written, _)⟩ => written.toList.reduceOption
  | _ => []

/-- A slot that has been listed, or what an entry is before it is written. -/
def Named (es : List ClientReply) (slot : CkUlong) : Prop := slot = 0 ∨ slot ∈ es.flatMap listed

/-- What a client may ask of a module after `es`: the calls come in their order, a list has the room
that it is said to have, a slot has been listed, and a session is the one that is open. -/
def Proper (es : List ClientReply) : ClientReply → Prop
  | ⟨.setup .cInitialize, _⟩ => stage es = .down
  | ⟨.setup (.cGetSlotList _ room count), _⟩ =>
    stage es ≠ .down ∧ ∀ n, room = some n → n = count.toNat
  | ⟨.setup .cFinalize, _⟩ => stage es ≠ .down
  | ⟨.setup (.cGetSlotInfo slot), _⟩ | ⟨.cGetTokenInfo slot, _⟩ => stage es ≠ .down ∧ Named es slot
  | ⟨.setup (.cOpenSession slot flags), _⟩ =>
    stage es = .up ∧ Named es slot ∧ flags = ckfSerialSession
  | ⟨.work sess (.generateRandom _), _⟩ | ⟨.cCloseSession sess, _⟩ => stage es = .opened sess
  | _ => True

/-- The calls so far were proper, and have led to this stage. -/
structure At (st : Stage) (es : List ClientReply) : Prop where
  lawful : Lawful Proper es
  stage : stage es = st

variable {C : ClientHost H} {P : SlotHost H} {st st' : Stage} {es p : List ClientReply}
  {e : ClientReply} {slot sess : CkUlong} {v : SlotWorld H}

@[simp] theorem stage_snoc (es : List ClientReply) (e : ClientReply) :
    stage (es ++ [e]) = (stage es).next e := by
  simp [stage]

theorem at_nil : At .down [] := ⟨lawful_nil, rfl⟩

theorem At.snoc (h : At st es) (he : Proper es e) (hnext : st.next e = st') :
    At st' (es ++ [e]) := by
  refine ⟨lawful_snoc.mpr ⟨h.lawful, he⟩, ?_⟩
  rw [stage_snoc, h.stage, hnext]

theorem Named.append (h : Named es slot) (fs : List ClientReply) : Named (es ++ fs) slot := by
  rcases h with rfl | h
  · exact .inl rfl
  · exact .inr (by simp [h])

/-- The record when the setting up has asked for `es`. -/
def after (p : List ClientReply) (es : List SlotReply) : List ClientReply :=
  p ++ es.map setup.reply

theorem after_snoc (p : List ClientReply) (es : List SlotReply) (e : SlotReply) :
    after p (es ++ [e]) = after p es ++ [setup.reply e] := by
  simp [after]

/-- The last that was asked of the module is to be finalized, unless it has not been set up. -/
def Closed (es : List ClientReply) : Prop :=
  stage es = .down ∨ ∃ pre rv, es = pre ++ [⟨.setup .cFinalize, rv⟩]

/-- Every entry of a list is one that was written, or is still 0. -/
theorem named_overlaid {tokenPresent : UInt8} {room : Option Nat} {count rv n : CkUlong}
    {written : Vector (Option CkUlong) (room.getD 0)} (h : slot ∈ overlaid written) :
    Named (es ++ [⟨.setup (.cGetSlotList tokenPresent room count), (rv, written, n)⟩]) slot := by
  obtain ⟨entry, hentry, rfl⟩ := List.mem_map.mp h
  cases entry with
  | none => exact .inl rfl
  | some slot =>
    refine .inr ?_
    simp only [List.flatMap_append, List.mem_append, List.flatMap_singleton, listed]
    exact .inr (List.reduceOption_mem_iff.mpr hentry)

theorem named_headD {slots : List CkUlong} (h : ∀ slot ∈ slots, Named es slot) :
    Named es (slots.headD 0) := by
  cases slots with
  | nil => exact .inl rfl
  | cons slot rest => exact h slot List.mem_cons_self

/-- How setting up ends: with a session on a slot that was listed, or with nothing left open, but
for failures that are the end of the process. -/
def SetUp (orderly : Failure → Prop) (es : List ClientReply) :
    Except Failure (CkUlong × CkUlong) → Prop
  | .ok (slot, sess) => At (.opened sess) es ∧ Named es slot
  | .error failure => Lawful Proper es ∧ (orderly failure → Closed es)

variable {w : SlotWorld H} {r : Except Failure (CkUlong × CkUlong)} {failure : Failure}
  {orderly : Failure → Prop}

theorem yields_asked {α : Type} {q : SlotRequest} {f : q.Answer → Run (SlotWorld H) α}
    {Post : α → SlotWorld H → Prop} (h : At st (after p w.trace))
    (hproper : ∀ ans, Proper (after p w.trace) (setup.reply ⟨q, ans⟩))
    (hf : ∀ ans env, At (st.next (setup.reply ⟨q, ans⟩)) (after p (w.trace ++ [⟨q, ans⟩])) →
      Yields (f ans) ⟨env, w.trace ++ [⟨q, ans⟩]⟩ Post) : Yields (ask P q >>= f) w Post := by
  refine yields_ask fun ans env => hf ans env ?_
  rw [after_snoc]
  exact h.snoc (hproper ans) rfl

/-- A failure that leaves the module finalized. -/
theorem finalize_proper (h : At st (after p w.trace)) (hst : st ≠ .down) :
    Yields (do
      let _ ← ask P .cFinalize
      return Except.error failure) w fun r v => SetUp orderly (after p v.trace) r := by
  have hup : stage (after p w.trace) ≠ .down := by rwa [h.stage]
  refine yields_asked h (fun _ => hup) fun rv env hend => ?_
  refine yields_pure ⟨hend.lawful, fun _ => .inr ⟨after p w.trace, rv, ?_⟩⟩
  exact after_snoc _ _ _

theorem yields_listed {α : Type} {tokenPresent : UInt8} {room : Option Nat} {count : CkUlong}
    {f : (SlotRequest.cGetSlotList tokenPresent room count).Answer → Run (SlotWorld H) α}
    {Post : α → SlotWorld H → Prop} (h : At .up (after p w.trace))
    (hroom : ∀ n, room = some n → n = count.toNat)
    (hf : ∀ ans env,
      At .up (after p (w.trace ++ [⟨.cGetSlotList tokenPresent room count, ans⟩])) →
      (∀ slot ∈ overlaid ans.2.1,
        Named (after p (w.trace ++ [⟨.cGetSlotList tokenPresent room count, ans⟩])) slot) →
      Yields (f ans) ⟨env, w.trace ++ [⟨.cGetSlotList tokenPresent room count, ans⟩]⟩ Post) :
    Yields (ask P (.cGetSlotList tokenPresent room count) >>= f) w Post := by
  have hup : stage (after p w.trace) ≠ .down := by
    rw [h.stage]
    exact nofun
  refine yields_asked h (fun _ => ⟨hup, hroom⟩) fun ans env hlist => hf ans env hlist ?_
  intro slot hslot
  rw [after_snoc]
  exact named_overlaid hslot

/-- The session is opened on a slot that was listed. -/
theorem yields_opened {α : Type} {f : CkUlong × CkUlong → Run (SlotWorld H) α}
    {Post : α → SlotWorld H → Prop} (h : At .up (after p w.trace))
    (hnamed : Named (after p w.trace) slot)
    (hf : ∀ ans env, At (if ans.1 = ckrOk then .opened ans.2 else .up)
        (after p (w.trace ++ [⟨.cOpenSession slot ckfSerialSession, ans⟩])) →
      Named (after p (w.trace ++ [⟨.cOpenSession slot ckfSerialSession, ans⟩])) slot →
      Yields (f ans) ⟨env, w.trace ++ [⟨.cOpenSession slot ckfSerialSession, ans⟩]⟩ Post) :
    Yields (ask P (.cOpenSession slot ckfSerialSession) >>= f) w Post := by
  refine yields_asked h (fun _ => ⟨h.stage, hnamed, rfl⟩) fun ans env hopen => hf ans env hopen ?_
  rw [after_snoc]
  exact hnamed.append _

theorem openFirst_proper {env : H} (hp : At .down p) :
    Yields (openFirst P) ⟨env, []⟩ fun r v => SetUp orderly (after p v.trace) r := by
  have hstart : At .down (after p []) := by simpa [after] using hp
  unfold openFirst
  refine yields_asked hstart (fun _ => hstart.stage) fun rv _ hinit => ?_
  replace hinit : At (if rv = ckrOk then .up else .down) _ := hinit
  split
  · rename_i hrv
    rw [if_neg hrv] at hinit
    exact yields_pure ⟨hinit.lawful, fun _ => .inl hinit.stage⟩
  rename_i hrv
  rw [if_pos (not_not.mp hrv)] at hinit
  refine yields_listed hinit nofun fun ⟨rv, _, nslots⟩ _ hup _ => ?_
  dsimp only
  split
  · exact finalize_proper hup nofun
  refine yields_listed hup (fun _ h => (Option.some.inj h).symm)
    fun ⟨rv, written, n⟩ _ hup' hnamed => ?_
  dsimp only
  split
  · exact finalize_proper hup' nofun
  refine yields_opened hup' (named_headD hnamed) fun ⟨rv, sess⟩ _ hopen hslot => ?_
  dsimp only at hopen ⊢
  split
  · rename_i hrv
    rw [if_neg hrv] at hopen
    exact finalize_proper hopen nofun
  · rename_i hrv
    rw [if_pos (not_not.mp hrv)] at hopen
    exact yields_pure ⟨hopen, hslot⟩

theorem die_ne (what : String) (rv : CkUlong) : die what rv ≠ Test.noUsableToken := by
  intro h
  have hcode : (2 : UInt8) = 3 := congrArg Failure.code h
  exact absurd hcode (by decide)

theorem showSlots_proper (slots : List CkUlong) (h : At .up (after p w.trace))
    (hnamed : ∀ slot ∈ slots, Named (after p w.trace) slot) :
    Yields (Test.showSlots P slots) w fun _ v => At .up (after p v.trace) := by
  induction slots generalizing w with
  | nil => exact yields_pure h
  | cons slot rest ih =>
    have hup : stage (after p w.trace) ≠ .down := by
      rw [h.stage]
      exact nofun
    refine yields_asked h (fun _ => ⟨hup, hnamed slot List.mem_cons_self⟩) fun rv _ hshown => ?_
    refine ih hshown fun slot' hslot' => ?_
    rw [after_snoc]
    exact (hnamed slot' (List.mem_cons_of_mem _ hslot')).append _

theorem listReaders_proper (h : At .up (after p w.trace)) :
    Yields (Test.listReaders P) w fun r v => Lawful Proper (after p v.trace) ∧ match r with
      | .ok () => At .up (after p v.trace)
      | .error failure => failure ≠ Test.noUsableToken := by
  unfold Test.listReaders
  refine yields_listed h nofun fun ⟨rv, _, nall⟩ _ hup _ => ?_
  dsimp only
  split
  · exact yields_pure ⟨hup.lawful, die_ne _ _⟩
  split
  · exact yields_pure ⟨hup.lawful, hup⟩
  refine yields_listed hup (fun _ h => (Option.some.inj h).symm)
    fun ⟨rv, written, nall⟩ _ hup' hnamed => ?_
  dsimp only
  split
  · exact yields_pure ⟨hup'.lawful, die_ne _ _⟩
  refine yields_bind ((showSlots_proper _ hup' ?_).mono fun _ v hv => yields_pure ⟨hv.lawful, hv⟩)
  exact fun slot hslot => hnamed slot (List.mem_of_mem_take hslot)

theorem openUsable_proper (h : At .up (after p w.trace)) :
    Yields (Test.openUsable P) w fun r v =>
      SetUp (· = Test.noUsableToken) (after p v.trace) r := by
  unfold Test.openUsable
  refine yields_listed h nofun fun ⟨rv, _, nuse⟩ _ hup _ => ?_
  dsimp only
  split
  · exact yields_pure ⟨hup.lawful, fun heq => absurd heq (die_ne _ _)⟩
  split
  · exact finalize_proper hup nofun
  refine yields_listed hup (fun _ h => (Option.some.inj h).symm)
    fun ⟨rv, written, n⟩ _ hup' hnamed => ?_
  dsimp only
  split
  · exact yields_pure ⟨hup'.lawful, fun heq => absurd heq (die_ne _ _)⟩
  refine yields_opened hup' (named_headD hnamed) fun ⟨rv, sess⟩ _ hopen hslot => ?_
  dsimp only at hopen ⊢
  split
  · exact yields_pure ⟨hopen.lawful, fun heq => absurd heq (die_ne _ _)⟩
  · rename_i hrv
    rw [if_pos (not_not.mp hrv)] at hopen
    exact yields_pure ⟨hopen, hslot⟩

theorem test_openSlot_proper {env : H} (hp : At .down p) :
    Yields (Test.openSlot P) ⟨env, []⟩ fun r v =>
      SetUp (· = Test.noUsableToken) (after p v.trace) r := by
  have hstart : At .down (after p []) := by simpa [after] using hp
  unfold Test.openSlot
  refine yields_asked hstart (fun _ => hstart.stage) fun rv _ hinit => ?_
  replace hinit : At (if rv = ckrOk then .up else .down) _ := hinit
  split
  · exact yields_pure ⟨hinit.lawful, fun heq => absurd heq (die_ne _ _)⟩
  rename_i hrv
  rw [if_pos (not_not.mp hrv)] at hinit
  refine yields_bind ((listReaders_proper hinit).mono fun r v hv => ?_)
  cases r with
  | error failure => exact yields_pure ⟨hv.1, fun heq => absurd heq hv.2⟩
  | ok _ => exact openUsable_proper hv.2

/-- Of what the loop of a tool asks only random bytes concern the module. -/
theorem At.works (h : At (.opened sess) es) (fs : List ToolReply) :
    At (.opened sess) (es ++ fs.map (work sess).reply) := by
  induction fs using List.reverseRecOn with
  | nil => simpa using h
  | append_singleton fs e ih =>
    rw [List.map_append, ← List.append_assoc]
    obtain ⟨q, ans⟩ := e
    refine ih.snoc ?_ rfl
    cases q with
    | generateRandom len => exact ih.stage
    | _ => trivial

variable {u u' : ClientWorld H} {ending : Ending}

theorem closeDown_proper (h : At (.opened sess) u.trace)
    (hrun : closeDown C sess u = some ((), u')) : Lawful Proper u'.trace ∧ Closed u'.trace := by
  obtain ⟨rv, v, hclose, hrun⟩ := bind_eq_some.mp hrun
  obtain ⟨rv', v', hfinalize, hrun⟩ := bind_eq_some.mp hrun
  cases hrun
  have hclosed : At (if sess = sess ∧ rv = ckrOk then .up else .opened sess) v.trace := by
    rw [ask_trace hclose]
    exact h.snoc h.stage rfl
  have hup : stage v.trace ≠ .down := by
    rw [hclosed.stage]
    split <;> exact nofun
  rw [ask_trace hfinalize]
  have hend := hclosed.snoc (e := ⟨.setup .cFinalize, rv'⟩) hup rfl
  exact ⟨hend.lawful, .inr ⟨_, _, rfl⟩⟩

theorem loaded {path : String} {ans : Except String Unit} {env : H}
    (h : ask C (.loadModule path) ⟨env, []⟩ = some (ans, u)) : At .down u.trace := by
  rw [ask_trace h]
  exact at_nil.snoc trivial rfl

/-- What the setting up leaves, where it is part of a `main`. -/
theorem setUp_of_run {x : Run (SlotWorld H) (Except Failure (CkUlong × CkUlong))}
    {r : Except Failure (CkUlong × CkUlong)}
    (hx : Yields x ⟨u.env, []⟩ fun r v => SetUp orderly (after u.trace v.trace) r)
    (hrun : setup.run x u = some (r, u')) : SetUp orderly u'.trace r := by
  obtain ⟨v, hv, rfl⟩ := Facet.run_eq_some.mp hrun
  exact (yields_iff hv).mp hx

/-- An ending after which nothing is left to be done: not a panic, and of p11rand-test not the
exit at a call that failed. -/
def Orderly : Client → Ending → Prop
  | .read _, _ => True
  | .seed _, ending => ending ≠ .panicked
  | .test _ _, ending => ∀ failure, ending = .failed failure → failure = Test.noUsableToken

theorem readMain_proper {a : Read.Args} {env : H}
    (h : readMain C a ⟨env, []⟩ = some (ending, u')) :
    Lawful Proper u'.trace ∧ Closed u'.trace := by
  obtain ⟨ans, u, hload, h⟩ := bind_eq_some.mp h
  have hdown := loaded hload
  cases ans with
  | error e =>
    cases h
    exact ⟨hdown.lawful, .inl hdown.stage⟩
  | ok _ =>
    obtain ⟨r, v, hsetup, h⟩ := bind_eq_some.mp h
    have hset : SetUp (fun _ => True) v.trace r := setUp_of_run (openFirst_proper hdown) hsetup
    cases r with
    | error failure =>
      cases h
      exact ⟨hset.1, hset.2 trivial⟩
    | ok opened =>
      obtain ⟨slot, sess⟩ := opened
      obtain ⟨code, v', hwork, h⟩ := bind_eq_some.mp h
      obtain ⟨x, _, rfl⟩ := Facet.run_eq_some.mp hwork
      obtain ⟨_, v'', hclose, h⟩ := bind_eq_some.mp h
      cases h
      exact closeDown_proper (hset.1.works x.trace) hclose

theorem seedMain_proper {a : Seed.Args} {env : H}
    (h : seedMain C a ⟨env, []⟩ = some (ending, u')) :
    Lawful Proper u'.trace ∧ (ending ≠ .panicked → Closed u'.trace) := by
  obtain ⟨ans, u, hload, h⟩ := bind_eq_some.mp h
  have hdown := loaded hload
  cases ans with
  | error e =>
    cases h
    exact ⟨hdown.lawful, fun _ => .inl hdown.stage⟩
  | ok _ =>
    obtain ⟨r, v, hsetup, h⟩ := bind_eq_some.mp h
    have hset : SetUp (fun _ => True) v.trace r := setUp_of_run (openFirst_proper hdown) hsetup
    cases r with
    | error failure =>
      cases h
      exact ⟨hset.1, fun _ => hset.2 trivial⟩
    | ok opened =>
      obtain ⟨slot, sess⟩ := opened
      obtain ⟨ans, v₁, hrandom, h⟩ := bind_eq_some.mp h
      have hopen : At (.opened sess) v₁.trace := by
        rw [ask_trace hrandom]
        exact hset.1.snoc trivial rfl
      cases ans with
      | error e =>
        obtain ⟨_, v₂, hclose, h⟩ := bind_eq_some.mp h
        cases h
        obtain ⟨hlaw, hclosed⟩ := closeDown_proper hopen hclose
        exact ⟨hlaw, fun _ => hclosed⟩
      | ok _ =>
        obtain ⟨exit, v₂, hwork, h⟩ := bind_eq_some.mp h
        obtain ⟨x, _, rfl⟩ := Facet.run_eq_some.mp hwork
        have hworked := hopen.works x.trace
        cases exit with
        | panicked =>
          cases h
          exact ⟨hworked.lawful, fun hne => absurd rfl hne⟩
        | stopped =>
          obtain ⟨_, v₃, hclose, h⟩ := bind_eq_some.mp h
          cases h
          obtain ⟨hlaw, hclosed⟩ := closeDown_proper hworked hclose
          exact ⟨hlaw, fun _ => hclosed⟩

theorem testMain_proper {module : String} {n : Nat} {env : H}
    (h : testMain C module n ⟨env, []⟩ = some (ending, u')) : Lawful Proper u'.trace ∧
      ((∀ failure, ending = .failed failure → failure = Test.noUsableToken) →
        Closed u'.trace) := by
  obtain ⟨ans, u, hload, h⟩ := bind_eq_some.mp h
  have hdown := loaded hload
  cases ans with
  | error e =>
    cases h
    exact ⟨hdown.lawful, fun _ => .inl hdown.stage⟩
  | ok _ =>
    obtain ⟨r, v, hsetup, h⟩ := bind_eq_some.mp h
    have hset := setUp_of_run (test_openSlot_proper hdown) hsetup
    cases r with
    | error failure =>
      cases h
      exact ⟨hset.1, fun horderly => hset.2 (horderly failure rfl)⟩
    | ok opened =>
      obtain ⟨slot, sess⟩ := opened
      obtain ⟨hopen, hnamed⟩ := hset
      obtain ⟨rv, v₁, hinfo, h⟩ := bind_eq_some.mp h
      have hshown : At (.opened sess) v₁.trace := by
        rw [ask_trace hinfo]
        refine hopen.snoc ⟨?_, hnamed⟩ rfl
        rw [hopen.stage]
        exact nofun
      obtain ⟨⟨rv, block⟩, v₂, hrandom, h⟩ := bind_eq_some.mp h
      have hdrawn : At (.opened sess) v₂.trace := by
        rw [ask_trace hrandom]
        exact hshown.snoc hshown.stage rfl
      dsimp only at h
      split at h
      · cases h
        exact ⟨hdrawn.lawful, fun horderly => absurd (horderly _ rfl) (die_ne _ _)⟩
      · obtain ⟨_, v₃, hclose, h⟩ := bind_eq_some.mp h
        cases h
        obtain ⟨hlaw, hclosed⟩ := closeDown_proper hdrawn hclose
        exact ⟨hlaw, fun _ => hclosed⟩

/-- The tools keep to the order of calls with any module, and leave it finalized if they end as they
should. -/
theorem main_proper (t : Client) {env : H} (h : t.main C ⟨env, []⟩ = some (ending, u')) :
    Lawful Proper u'.trace ∧ (t.Orderly ending → Closed u'.trace) := by
  cases t with
  | read a =>
    obtain ⟨hlaw, hclosed⟩ := readMain_proper h
    exact ⟨hlaw, fun _ => hclosed⟩
  | seed a => exact seedMain_proper h
  | test module n => exact testMain_proper h

end Client
end P11Rand.Tools
