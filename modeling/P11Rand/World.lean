import Mathlib.Logic.Relation
import Mathlib.Data.List.Infix
import P11Rand.Effect.Run

/-! What the program runs on: PC/SC, the kernel's device nodes, the thread scheduler and the
SHA3-256 function, together with a record of what the program asked of them. -/
namespace P11Rand

open Effect

abbrev tickBytes : Nat := 32
abbrev roundBytes : Nat := 32

/-- A chain state or a SHA3-256 digest. -/
abbrev Digest := Vector UInt8 roundBytes

/-- The errors of the pcsc crate that the code tells apart. -/
inductive PcscError
  | noReadersAvailable
  | noSmartcard
  | removedCard
  | unpoweredCard
  | unresponsiveCard
  | other (code : Nat)
  deriving DecidableEq

inductive Disposition
  | leaveCard
  | resetCard
  deriving DecidableEq

/-- An established PC/SC resource manager context. -/
structure Context where
  handle : Nat
  deriving DecidableEq

/-- A shared connection to the card in a reader. -/
structure Card where
  reader : String
  handle : Nat
  deriving DecidableEq

inductive DirError
  | notFound
  | other
  deriving DecidableEq

/-- What read(2) answers; `data []` is end of file. -/
inductive ReadAnswer
  | data (bytes : List UInt8)
  | interrupted
  | error (errno : Nat)
  deriving DecidableEq

/-- The requests the program makes of PC/SC and of the kernel. -/
inductive Request
  | establish
  | releaseContext (ctx : Context)
  | listReadersLen (ctx : Context)
  | listReaders (ctx : Context) (len : Nat)
  | connect (ctx : Context) (reader : String)
  | transmit (card : Card) (apdu : List UInt8)
  | disconnect (card : Card) (disposition : Disposition)
  | readDir
  | openFile (path : String)
  | readFile (file : Nat) (len : Nat)
  deriving DecidableEq

@[reducible] def Request.Answer : Request → Type
  | .establish => Except PcscError Context
  | .releaseContext _ => Unit
  | .listReadersLen _ => Except PcscError Nat
  | .listReaders _ _ => Except PcscError (List String)
  | .connect _ _ => Except PcscError Nat
  | .transmit _ _ => Except PcscError (List UInt8)
  | .disconnect _ _ => Except PcscError Unit
  -- an entry of the listing is `none` when reading that entry failed
  | .readDir => Except DirError (List (Option (List UInt8)))
  | .openFile _ => Option Nat
  | .readFile _ _ => ReadAnswer

/-- The reader a request addresses. -/
def Request.reader? : Request → Option String
  | .connect _ reader => some reader
  | .transmit card _ => some card.reader
  | .disconnect card _ => some card.reader
  | _ => none

/-- Everything but setting up and tearing down the process's PC/SC context. -/
def Request.Ordinary : Request → Prop
  | .establish | .releaseContext _ => False
  | _ => True

/-- A request with the answer it got. -/
structure Exchange where
  request : Request
  answer : request.Answer

/-- Any machine: it answers each request from its state and moves on. -/
structure Platform (W : Type) where
  answer : (q : Request) → W → q.Answer × W
  sha3_256 : List UInt8 → Digest

/-- What a pool did. `filled` are the bytes a read wrote to its buffer before it returned, and
`device` is the name under which the handle it read from was opened. -/
inductive PoolEvent
  | start (state : Digest)
  | fetch (tick slot : Nat) (device : Option String) (ok : Bool) (filled : List UInt8)
  | rebind (slot : Nat) (device : Option String)
  | retry (tick slot : Nat) (device : Option String) (ok : Bool) (filled : List UInt8)
  | absorb (tick slot : Nat) (block : List UInt8)
  | round (out next : Digest)
  | copy (bytes : List UInt8)
  | pass (device : Option String) (ok : Bool) (filled : List UInt8)
  deriving DecidableEq

/-- The process-wide PC/SC state of `iso7816.rs`. -/
structure Global where
  ctx : Option Context
  refs : Nat
  deriving DecidableEq

/-- The machine's state, the scheduler's coming choices and the process-wide state. The trace
of exchanges and the pool log are no data of the program; nothing reads them. -/
structure World (W : Type) where
  env : W
  sched : Nat → Nat
  global : Global
  trace : List Exchange
  log : List PoolEvent

variable {W : Type}

/-- Ask the machine. -/
def request (P : Platform W) (q : Request) : Run (World W) q.Answer := fun w =>
  some ((P.answer q w.env).1,
    { w with env := (P.answer q w.env).2, trace := w.trace ++ [⟨q, (P.answer q w.env).1⟩] })

/-- The scheduler's next choice. -/
def choose (_ : Nat) : Run (World W) Nat := fun w =>
  some (w.sched 0, { w with sched := fun n => w.sched (n + 1) })

def emit (e : PoolEvent) : Run (World W) Unit :=
  Run.modify fun w => { w with log := w.log ++ [e] }

def setGlobal (g : Global) : Run (World W) Unit := Run.modify fun w => { w with global := g }

/-- The machine answers one ordinary request. -/
def Platform.Moves (P : Platform W) (e e' : W) : Prop :=
  ∃ q : Request, q.Ordinary ∧ e' = (P.answer q e).2

/-- The machine can get from one state to the other by answering ordinary requests. -/
def Platform.Reaches (P : Platform W) : W → W → Prop := Relation.ReflTransGen P.Moves

variable {P : Platform W} {A B : Exchange → Prop} {w w' : World W}

/-- Only ordinary exchanges in `A` with the machine separate the two worlds. -/
structure Does (P : Platform W) (A : Exchange → Prop) (w w' : World W) : Prop where
  env : P.Reaches w.env w'.env
  sched : w'.sched = w.sched
  global : w'.global = w.global
  log : w'.log = w.log
  trace : ∃ es, w'.trace = w.trace ++ es ∧ ∀ e ∈ es, A e

/-- The second world comes after the first; the process keeps its PC/SC context. -/
structure Later (P : Platform W) (w w' : World W) : Prop where
  env : P.Reaches w.env w'.env
  global : w'.global = w.global
  trace : w.trace <+: w'.trace

/-- Later, with nothing added to the pool log. -/
structure Quiet (P : Platform W) (w w' : World W) : Prop extends Later P w w' where
  log : w'.log = w.log

instance : IsPreorder (World W) (Does P A) where
  refl _ := ⟨Relation.ReflTransGen.refl, rfl, rfl, rfl, [], by simp⟩
  trans u v w h h' := by
    obtain ⟨es, he, hes⟩ := h.trace
    obtain ⟨es', he', hes'⟩ := h'.trace
    refine ⟨Relation.ReflTransGen.trans h.env h'.env, h'.sched.trans h.sched,
      h'.global.trans h.global, h'.log.trans h.log, es ++ es',
      by rw [he', he, List.append_assoc], ?_⟩
    intro e hm
    exact (List.mem_append.mp hm).elim (hes e) (hes' e)

instance : IsPreorder (World W) (Later P) where
  refl _ := ⟨Relation.ReflTransGen.refl, rfl, List.prefix_rfl⟩
  trans _ _ _ h h' := ⟨Relation.ReflTransGen.trans h.env h'.env, h'.global.trans h.global,
    h.trace.trans h'.trace⟩

instance : IsPreorder (World W) (Quiet P) where
  refl w := ⟨Std.Refl.refl w, rfl⟩
  trans _ _ _ h h' := ⟨IsTrans.trans _ _ _ h.toLater h'.toLater, h'.log.trans h.log⟩

theorem Does.mono (hAB : ∀ e, A e → B e) (h : Does P A w w') : Does P B w w' := by
  obtain ⟨es, he, hes⟩ := h.trace
  exact ⟨h.env, h.sched, h.global, h.log, es, he, fun e hm => hAB e (hes e hm)⟩

theorem Does.quiet (h : Does P A w w') : Quiet P w w' := by
  obtain ⟨es, he, _⟩ := h.trace
  exact ⟨⟨h.env, h.global, es, he.symm⟩, h.log⟩

theorem Does.later (h : Does P A w w') : Later P w w' := h.quiet.toLater

theorem does_request {q : Request} (hq : q.Ordinary) (h : ∀ a, A ⟨q, a⟩) :
    Run.Total (Does P A) (request P q) := by
  intro w
  refine ⟨_, _, rfl, ⟨Relation.ReflTransGen.single ⟨q, hq, rfl⟩, rfl, rfl, rfl, _, rfl, ?_⟩⟩
  simpa using h _

theorem quiet_choose (n : Nat) : Run.Total (Quiet P) (choose n : Run (World W) Nat) :=
  fun _ => ⟨_, _, rfl, ⟨Relation.ReflTransGen.refl, rfl, List.prefix_rfl⟩, rfl⟩

theorem later_emit (e : PoolEvent) : Run.Total (Later P) (emit e : Run (World W) Unit) :=
  fun _ => ⟨_, _, rfl, Relation.ReflTransGen.refl, rfl, List.prefix_rfl⟩

@[simp] theorem emit_apply (e : PoolEvent) (w : World W) :
    emit e w = some ((), { w with log := w.log ++ [e] }) := rfl

theorem of_emit {α : Type} {e : PoolEvent} {f : Unit → Run (World W) α} {b : α}
    (h : (emit e >>= f) w = some (b, w')) : f () { w with log := w.log ++ [e] } = some (b, w') := h

theorem later_log (P : Platform W) (w : World W) (log : List PoolEvent) :
    Later P w { w with log } := ⟨Relation.ReflTransGen.refl, rfl, List.prefix_rfl⟩

theorem Later.emitted {log : List PoolEvent} (h : Later P w w') : Later P w { w' with log } :=
  ⟨h.env, h.global, h.trace⟩

theorem Later.of_emitted {log : List PoolEvent} (h : Later P { w with log } w') : Later P w w' :=
  ⟨h.env, h.global, h.trace⟩

theorem request_apply (q : Request) (w : World W) :
    request P q w = some ((P.answer q w.env).1,
      { w with env := (P.answer q w.env).2,
               trace := w.trace ++ [⟨q, (P.answer q w.env).1⟩] }) := rfl

theorem request_eq_some {q : Request} {ans : q.Answer} (h : request P q w = some (ans, w')) :
    P.answer q w.env = (ans, w'.env) ∧ w'.trace = w.trace ++ [⟨q, ans⟩] := by
  rw [request_apply] at h
  cases h
  exact ⟨rfl, rfl⟩

end P11Rand
